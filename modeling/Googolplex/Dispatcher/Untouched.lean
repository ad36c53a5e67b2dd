/-
  File:      Googolplex/Dispatcher/Untouched.lean
  Subject:   WHAT NO REQUEST CHANGES: everything that is not below the root of a store, and with it
             what the static locations serve.

  The requests are of all kinds, from any clients, their accesses in any order; no
  name in their targets is `..`.

  * `Outside`: the places that are below no root; `respondProgram_confined`.
  * `untouched`: in every state of every order all outside is as it was, and a static
    location answers as if nothing had been asked before.
-/
import Googolplex.Dispatcher.Apart

namespace Googolplex.Concurrent

open Cxx Posix Posix.FileTree Programs FileAccesses
open Config (ConfigArg AddrMap)
open TextGen (Ipv4)

/-! ## 1. Outside the roots -/

section

variable {platform : Platform} {addrmap : AddrMap} {location : Str} {a : ConfigArg} {cwd : Path}
  {request : Request} {response : Response} {client : Ipv4} {t t' t'' : FileTree}

/-- **The place is below the root of no store.** -/
def Outside (addrmap : AddrMap) (cwd q : Path) : Prop :=
  ∀ (location : Str) (a : ConfigArg), addrmap[location]? = some a → Stores a →
    ¬ placeOf cwd (a.root ++ ['/']) <:+ q

/-- **Nothing outside is changed.** -/
structure Confined (addrmap : AddrMap) (cwd : Path) (t t' : FileTree) : Prop where
  inCwd : t'.cwd = t.cwd
  nodes : t.cwd = cwd → ∀ q, Outside addrmap cwd q → t'.nodes[q]? = t.nodes[q]?

theorem Confined.refl (addrmap : AddrMap) (cwd : Path) (t : FileTree) : Confined addrmap cwd t t :=
  ⟨rfl, fun _ _ _ => rfl⟩

theorem Confined.trans (h : Confined addrmap cwd t t') (h' : Confined addrmap cwd t' t'') :
    Confined addrmap cwd t t'' where
  inCwd := h'.inCwd.trans h.inCwd
  nodes hcwd q hq := (h'.nodes (h.inCwd.trans hcwd) q hq).trans (h.nodes hcwd q hq)

/-- The state of the server, with regard to the files. -/
def Files (E : FileTree → FileTree → Prop) (s s' : ServerState) : Prop := E s.files s'.files

theorem ChangesEntry.confined (ha : addrmap[location]? = some a) {s s' : ServerState}
    (h : ChangesEntry location a cwd s s') : Files (Confined addrmap cwd) s s' where
  inCwd := h.inCwd
  nodes hcwd q hq := by
    rcases h.files with hsame | ⟨hstores, hc⟩
    · rw [hsame]
    · exact hc.nodes hcwd q (hq location a ha hstores)

/-- **A request changes nothing outside.** -/
theorem respondProgram_confined (hup : NoUp request.target) :
    (respondProgram platform addrmap client.text (some request)).Keeps
      (Files (Confined addrmap cwd)) :=
  respondProgram_keeps fun _ _ _ ha => (handleProgram_changes hup).mono fun _ _ hc => hc.confined ha

/-! ## 2. Static locations -/

/-- All places on the way of a path, and its end, are outside. -/
def OutsidePath (addrmap : AddrMap) (cwd : Path) (path : Str) : Prop :=
  ∀ q ∈ placesOf cwd path, Outside addrmap cwd q

/-- What a path outside leads to is what it led to. -/
theorem Confined.lookup (h : Confined addrmap cwd t t') (hcwd : t.cwd = cwd) {path : Str}
    (hpath : OutsidePath addrmap cwd path) : t'.lookup path = t.lookup path :=
  SameAlong.lookup ⟨h.inCwd, fun q hq =>
    h.nodes hcwd q (hpath q (by rw [← hcwd, ← h.inCwd]; exact hq))⟩

/-- A static handler answers by what its path leads to. -/
theorem staticProgram_meets {handler : RequestHandler} {path : Str} (hcwd : t.cwd = cwd)
    (htarget : Static.pathOf handler request.target = some path)
    (hpath : OutsidePath addrmap cwd path) :
    (staticProgram handler request response).Meets (Confined addrmap cwd)
      (fun answer _ => answer = Static.handleRequest handler t request response)
      (Confined addrmap cwd t) := by
  unfold staticProgram Static.handleRequest
  rw [htarget]
  dsimp only
  refine meets_bind (Q := fun content _ => content = RequestHandler.readFromFile t path)
    (meets_atomically (fun _ _ _ h _ => h) fun t' h => ⟨Confined.refl _ _ _, ?_⟩) fun content => ?_
  · unfold RequestHandler.readFromFile
    rw [h.lookup hcwd hpath]
  · rcases content with f | _ | content
    all_goals exact meets_pure fun _ hcontent => by rw [← hcontent]

/-- **The answer of a static location** is that of the tree at the beginning. -/
theorem static_meets {path : Str} (hcwd : t.cwd = cwd) (ha : addrmap[location]? = some a)
    (hstatic : handlerTypeOf a.handlerType = .static)
    (hfound : BroughtTo platform addrmap location request)
    (htarget : Static.pathOf ⟨a.location, a.root⟩ request.target = some path)
    (hpath : OutsidePath addrmap cwd path) :
    (respondProgram platform addrmap client.text (some request)).Meets (Files (Confined addrmap cwd))
      (fun answer _ => answer =
        (Static.handleRequest ⟨a.location, a.root⟩ t request freshResponse).map Prod.fst)
      (fun s => Confined addrmap cwd t s.files) := by
  have hhandle : (handleProgram platform location a client.text request freshResponse).Meets
      (Files (Confined addrmap cwd))
      (fun answer _ => answer = Static.handleRequest ⟨a.location, a.root⟩ t request freshResponse)
      (fun s => Confined addrmap cwd t s.files) := by
    have hput : ∀ s t', Confined addrmap cwd (treeView.get s) t' →
        Files (Confined addrmap cwd) s (treeView.put t' s) := fun _ _ h => h
    unfold handleProgram
    rw [hstatic]
    exact meets_focus hput (fun _ _ h => h) (staticProgram_meets hcwd htarget hpath)
  unfold respondProgram
  dsimp only
  rw [show searchAddrBinding _ _ = some location from hfound]
  dsimp only
  rw [ha]
  refine meets_bind hhandle fun answer => ?_
  split
  · exact meets_pure fun _ hanswer => by rw [← hanswer]; rfl
  · exact meets_pure fun _ hanswer => by rw [← hanswer]; rfl

end

/-! ## 3. Every order -/

/-- A request for a file that is outside, at a static location. -/
structure AsksFile (platform : Platform) (addrmap : AddrMap) (cwd : Path) (request : Request)
    (location : Str) (a : ConfigArg) (path : Str) : Prop where
  found : BroughtTo platform addrmap location request
  entry : addrmap[location]? = some a
  static : handlerTypeOf a.handlerType = .static
  target : Static.pathOf ⟨a.location, a.root⟩ request.target = some path
  outside : OutsidePath addrmap cwd path

theorem AsksFile.unique {platform : Platform} {addrmap : AddrMap} {cwd : Path} {request : Request}
    {location location' path path' : Str} {a a' : ConfigArg}
    (h : AsksFile platform addrmap cwd request location a path)
    (h' : AsksFile platform addrmap cwd request location' a' path') : a = a' := by
  obtain rfl : location = location' := Option.some.inj (h.found.symm.trans h'.found)
  exact Option.some.inj (h.entry.symm.trans h'.entry)

/-- **What no request changes**: in every order of the accesses of any requests, everything that is
    below the root of no store stays as it was; and a static location answers by the file that was
    there at the beginning, if its path passes no such root. -/
theorem untouched {ι : Type} [DecidableEq ι] (platform : Platform) (addrmap : AddrMap)
    (s : ServerState) (requests : ι → Ipv4 × Request) (hup : ∀ i, NoUp (requests i).2.target)
    (schedule : List ι) :
    let final := (crowd platform addrmap s requests).run schedule
    (∀ q, Outside addrmap s.files.cwd q → final.shared.files.nodes[q]? = s.files.nodes[q]?) ∧
      ∀ i location a path answer,
        AsksFile platform addrmap s.files.cwd (requests i).2 location a path →
        (final.progs i).result = some answer →
          answer = (Static.handleRequest ⟨a.location, a.root⟩ s.files (requests i).2
            freshResponse).map Prod.fst := by
  intro final
  have hstable : Stable (Files (Confined addrmap s.files.cwd))
      fun s' => Confined addrmap s.files.cwd s.files s'.files := fun _ _ h hE => h.trans hE
  have hsound : (crowd platform addrmap s requests).Sound (Files (Confined addrmap s.files.cwd))
      fun i answer _ => ∀ location a path,
        AsksFile platform addrmap s.files.cwd (requests i).2 location a path →
          answer = (Static.handleRequest ⟨a.location, a.root⟩ s.files (requests i).2
            freshResponse).map Prod.fst := by
    intro i
    refine ⟨_, hstable, Confined.refl _ _ _, ?_⟩
    by_cases hasks : ∃ location a path,
        AsksFile platform addrmap s.files.cwd (requests i).2 location a path
    · obtain ⟨location, a, path, h⟩ := hasks
      refine (static_meets rfl h.entry h.static h.found h.target h.outside).weaken (fun _ hs => hs)
        fun answer _ hanswer location' a' path' h' => ?_
      rw [← h.unique h']
      exact hanswer
    · refine ((respondProgram_confined (hup i)).meets hstable).weaken (fun _ hs => hs)
        fun answer _ _ location a path h => ?_
      exact absurd ⟨location, a, path, h⟩ hasks
  obtain ⟨hend, hconfined⟩ := Pool.run_meets hstable schedule hsound (Confined.refl _ _ _)
  refine ⟨hconfined.nodes rfl, fun i location a path answer hasks hresult => ?_⟩
  exact hend.post (result_some hresult) location a path hasks

/-- A static location besides the two stores. -/
def siteMap : AddrMap := demoMap.insert "/static".toList
  { handlerType := "StaticHandler".toList, location := "/static".toList, root := "/site".toList }

/-- With one file. -/
def siteStart : ServerState :=
  { demoStart with
    files := (demoFiles.put "site".toList [] .dir (isDir_root _) fun _ => rfl).put "hello.txt".toList
      ["site".toList] (.file "hi".toList) (by decide +kernel) (by decide +kernel) }

/-- One posts shoes, one gets the file. -/
def shoesAndFile : Bool → Ipv4 × Request
  | false => (localhost, Crud.ask .post "/api/shoes" "red")
  | true => (localhost, Crud.ask .get "/static/hello.txt" "")

/-- What is in neither of the two stores is outside. -/
theorem site_outside {q : Path} (htext : ¬ ["text".toList] <:+ q) (hdata : ¬ ["data".toList] <:+ q) :
    Outside siteMap siteStart.files.cwd q := by
  intro location a ha hstores
  unfold siteMap at ha
  rw [getElem?_assign] at ha
  split at ha
  · cases ha
    rcases hstores with h | h
    · exact absurd h (by decide)
    · exact absurd h (by decide)
  · rcases demoMap_get ha with ⟨_, hroot⟩ | ⟨_, hroot⟩
    · have hplace : placeOf siteStart.files.cwd ("/text".toList ++ ['/']) = ["text".toList] := by
        decide +kernel
      rw [hroot, hplace]
      exact htext
    · have hplace : placeOf siteStart.files.cwd ("/data".toList ++ ['/']) = ["data".toList] := by
        decide +kernel
      rw [hroot, hplace]
      exact hdata

/-- The file is given out as it was. -/
theorem untouched_hello : (((crowd demoPlatform siteMap siteStart shoesAndFile).run inTurn).progs
    true).result = some ((Static.handleRequest ⟨"/static".toList, "/site".toList⟩ siteStart.files
      (shoesAndFile true).2 freshResponse).map Prod.fst) := by
  have hdone : (((crowd demoPlatform siteMap siteStart shoesAndFile).run inTurn).progs
      true).result.isSome = true := by decide +kernel
  obtain ⟨answer, hanswer⟩ := Option.isSome_iff_exists.mp hdone
  have hasks : AsksFile demoPlatform siteMap siteStart.files.cwd (shoesAndFile true).2
      "/static".toList _ "/site/hello.txt".toList :=
    ⟨by decide +kernel, getElem?_assign_self _ _ _, by decide, by decide +kernel, ?_⟩
  · rw [hanswer]
    exact congrArg some ((untouched demoPlatform siteMap siteStart shoesAndFile (by decide)
      inTurn).2 true _ _ _ answer hasks hanswer)
  · intro q hq
    have hall : ∀ q ∈ placesOf siteStart.files.cwd "/site/hello.txt".toList,
        ¬ ["text".toList] <:+ q ∧ ¬ ["data".toList] <:+ q := by
      decide +kernel
    exact site_outside (hall q hq).1 (hall q hq).2

end Googolplex.Concurrent
