/-
  File:      Googolplex/Dispatcher/Apart.lean
  Subject:   LOCATIONS THAT DO NOT MEET: a CRUD location whose root is apart from those of the other
             stores, under requests of all kinds to all locations.

  The requests come from any clients and their accesses in any order, so one after
  the other as well.

  * `Spares`: what the accesses of the others leave alone.
  * `locations_apart`: what the clients of the location are answered, and what it
    holds, is what it would be without the others.
-/
import Googolplex.Crud.Local
import Googolplex.Dispatcher.Concurrent

namespace Googolplex.Concurrent

open Cxx Posix Posix.FileTree Programs FileAccesses
open Config (ConfigArg AddrMap)
open TextGen (Ipv4)

/-! ## 1. Targets -/

theorem decodeSpaces_of_no_space {s : Str} (h : ' ' ∉ TextGen.decodeSpaces s) :
    TextGen.decodeSpaces s = s := by
  induction s using TextGen.decodeSpaces.induct with
  | case1 rest ih =>
      rw [TextGen.decodeSpaces] at h
      exact absurd List.mem_cons_self h
  | case2 c rest hno ih =>
      rw [TextGen.decodeSpaces_skip hno] at h ⊢
      rw [ih fun hmem => h (List.mem_cons_of_mem _ hmem)]
  | case3 => rfl

theorem decodeSpaces_no_slash {s : Str} (h : '/' ∉ s) : '/' ∉ TextGen.decodeSpaces s := by
  induction s using TextGen.decodeSpaces.induct with
  | case1 rest ih =>
      rw [TextGen.decodeSpaces]
      intro hmem
      rcases List.mem_cons.mp hmem with heq | hmem
      · cases heq
      · exact ih (fun hrest => h (by simp [hrest])) hmem
  | case2 c rest hno ih =>
      rw [TextGen.decodeSpaces_skip hno]
      intro hmem
      rcases List.mem_cons.mp hmem with rfl | hmem
      · exact h List.mem_cons_self
      · exact ih (fun hrest => h (List.mem_cons_of_mem _ hrest)) hmem
  | case3 => exact h

/-- No name becomes `..` by a space. -/
theorem noUp_decodeSpaces {s : Str} (h : NoUp s) : NoUp (TextGen.decodeSpaces s) := by
  induction hn : s.length using Nat.strong_induction_on generalizing s with
  | _ n ih =>
      by_cases hslash : '/' ∈ s
      · obtain ⟨a, b, rfl⟩ := List.append_of_mem hslash
        obtain ⟨ha, hb⟩ := noUp_append_iff.mp h
        rw [List.length_append, List.length_cons] at hn
        rw [TextGen.decodeSpaces_slash]
        exact (ih a.length (by omega) ha rfl).append (ih b.length (by omega) hb rfl)
      · unfold NoUp at h ⊢
        rw [segments_of_not_mem hslash] at h
        rw [segments_of_not_mem (decodeSpaces_no_slash hslash)]
        intro m hm heq
        rw [List.mem_singleton.mp hm] at heq
        have hsame := decodeSpaces_of_no_space (s := s) (by rw [heq]; decide)
        exact h s List.mem_cons_self (hsame.symm.trans heq)

/-! ## 2. The accesses of the others -/

section

variable {platform : Platform} {addrmap : AddrMap} {location other : Str} {arg a : ConfigArg}
  {cwd d : Path} {request : Request} {response : Response} {client : Ipv4}

/-- **The location is spared**: its map, the way to its root, and the tree from there down. -/
structure Spares (location : Str) (cwd : Path) (base : Str) (s s' : ServerState) : Prop where
  map : (s'.crud location).fileToId = (s.crud location).fileToId
  inCwd : s'.files.cwd = s.files.cwd
  way : s.files.cwd = cwd → ∀ q ∈ placesOf cwd (base ++ ['/']),
    s'.files.nodes[q]? = s.files.nodes[q]?
  nodes : s.files.cwd = cwd → ∀ q, placeOf cwd (base ++ ['/']) <:+ q →
    s'.files.nodes[q]? = s.files.nodes[q]?

/-- **The roots are apart**: neither is below the other, and the way to the first leads past nothing
    that is in the second. -/
def RootApart (cwd : Path) (base root : Str) : Prop :=
  (∀ q ∈ placesOf cwd (base ++ ['/']), ¬ placeOf cwd (root ++ ['/']) <:+ q) ∧
    ¬ placeOf cwd (base ++ ['/']) <:+ placeOf cwd (root ++ ['/'])

instance (cwd : Path) (base root : Str) : Decidable (RootApart cwd base root) :=
  inferInstanceAs (Decidable (_ ∧ _))

/-- **What the handler of an entry changes**: its own map, and the tree below its root if it is one of
    a store. -/
structure ChangesEntry (location : Str) (a : ConfigArg) (cwd : Path) (s s' : ServerState) : Prop where
  maps : ∀ l, location ≠ l → (s'.crud l).fileToId = (s.crud l).fileToId
  files : s'.files = s.files ∨ Stores a ∧ ChangesBelow cwd a.root s.files s'.files

theorem ChangesEntry.inCwd {s s' : ServerState} (h : ChangesEntry location a cwd s s') :
    s'.files.cwd = s.files.cwd := by
  rcases h.files with hsame | ⟨_, hc⟩
  · rw [hsame]
  · exact hc.inCwd

theorem ChangesEntry.of_files_eq {s s' : ServerState} (hmap : s'.fileToId = s.fileToId)
    (hfiles : s'.files = s.files) : ChangesEntry location a cwd s s' where
  maps l _ := by
    unfold ServerState.crud
    rw [hmap]
  files := Or.inl hfiles

/-- **An entry whose root is apart** spares the location. -/
theorem ChangesEntry.spares {base : Str} {s s' : ServerState} (h : ChangesEntry other a cwd s s')
    (hne : other ≠ location) (hapart : Stores a → RootApart cwd base a.root) :
    Spares location cwd base s s' := by
  have hkept : ∀ q, (Stores a → ¬ placeOf cwd (a.root ++ ['/']) <:+ q) → s.files.cwd = cwd →
      s'.files.nodes[q]? = s.files.nodes[q]? := by
    intro q hq hcwd
    rcases h.files with hsame | ⟨hstores, hc⟩
    · rw [hsame]
    · exact hc.nodes hcwd q (hq hstores)
  refine ⟨h.maps location hne, h.inCwd, fun hcwd q hq => ?_, fun hcwd q hq => ?_⟩
  · exact hkept q (fun hstores => (hapart hstores).1 q hq) hcwd
  · refine hkept q (fun hstores hroot => ?_) hcwd
    obtain ⟨hway, habove⟩ := hapart hstores
    have hend : placeOf cwd (base ++ ['/']) ∈ placesOf cwd (base ++ ['/']) :=
      List.mem_append_right _ (List.mem_singleton_self _)
    exact (List.suffix_or_suffix_of_suffix hroot hq).elim (hway _ hend) habove

/-- Accesses to the tree below the root of a store. -/
theorem tree_changes {α : Type} {p : Accesses α} (hstores : Stores a)
    (h : p.Keeps (ChangesBelow cwd a.root)) :
    (p.focus treeView).Keeps (ChangesEntry location a cwd) :=
  keeps_focus (fun _ _ hc => ⟨fun _ _ => rfl, Or.inr ⟨hstores, hc⟩⟩) h

/-- The map of another location. -/
theorem crud_other (hne : other ≠ location) (crud : Crud.CrudState) (s : ServerState) :
    (((crudView other).put crud s).crud location).fileToId = (s.crud location).fileToId := by
  unfold ServerState.crud crudView
  dsimp only
  rw [getElem?_assign_of_ne _ _ hne]

theorem folder_below : Below cwd a.root (TextGen.folderOf ⟨a.location, a.root⟩ client.text) :=
  below_noUp cwd a.root (noUp_plain client.folder_plain)

/-- What a name leads to in the folder of a client is below the root, be the name `..` itself. -/
theorem title_below {title : Str} (h : '/' ∉ title) :
    Below cwd a.root (TextGen.folderOf ⟨a.location, a.root⟩ client.text ++ '/' :: title) := by
  have hpath : TextGen.folderOf ⟨a.location, a.root⟩ client.text ++ '/' :: title =
      a.root ++ '/' :: (client.folder ++ '/' :: title) := by
    simp [TextGen.folderOf, Ipv4.folder]
  unfold Below
  rw [hpath, placeOf_below cwd a.root (client.folder ++ '/' :: title),
    segments_append client.folder title, segments_of_not_mem client.folder_plain.2.2.2,
    segments_of_not_mem h]
  show _ <:+ stepName (stepName _ client.folder) title
  rw [client.folder_plain.stepName]
  unfold stepName
  split
  · exact List.suffix_cons _ _
  · split
    · exact List.suffix_rfl
    · exact (List.suffix_cons _ _).trans (List.suffix_cons _ _)

theorem suffix_below {suffix : Str} (h : NoUp suffix) :
    Below cwd a.root (TextGen.folderOf ⟨a.location, a.root⟩ client.text ++ '/' :: suffix) := by
  have hpath : TextGen.folderOf ⟨a.location, a.root⟩ client.text ++ '/' :: suffix =
      a.root ++ '/' :: (client.folder ++ '/' :: suffix) := by
    simp [TextGen.folderOf, Ipv4.folder]
  rw [hpath]
  exact below_noUp cwd a.root ((noUp_plain client.folder_plain).append h)

/-- The root itself. -/
theorem root_allows (root : Str) : Allows (ChangesBelow cwd root) root := by
  by_cases hne : root = []
  · -- the empty path leads nowhere
    subst hne
    refine ⟨ChangesBelow.refl cwd [], fun t t' h => ?_, fun t t' content h => ?_⟩
    · cases h
    · cases h
  · refine allows_changesBelow ?_
    unfold Below
    rw [Crud.placeOf_slash hne]

/-- **The handler of an entry** changes no more than that. -/
theorem handleProgram_changes (hup : NoUp request.target) :
    (handleProgram platform location a client.text request response).Keeps
      (ChangesEntry location a cwd) := by
  unfold handleProgram
  dsimp only
  cases htype : handlerTypeOf a.handlerType with
  | static =>
      refine keeps_focus (E := Eq) (fun s files heq => ?_) (static_keeps fun _ => rfl)
      exact .of_files_eq rfl heq.symm
  | echo => exact keeps_pure _
  | crud =>
      refine keeps_bind (keeps_atomically fun s => ?_) fun _ => ?_
      · exact ⟨fun l hl => crud_other hl _ s, Or.inl rfl⟩
      · have hchanges : (Crud.Concurrent.handleRequest ⟨a.location, a.root⟩ platform.disk request
            response).Keeps (Crud.Concurrent.ChangesLocation cwd a.root) :=
          Crud.Concurrent.handleRequest_changes ⟨a.location, a.root⟩ hup
        exact keeps_focus (fun s crud hc => ⟨fun l hl => crud_other hl crud s,
          Or.inr ⟨Or.inl htype, hc⟩⟩) hchanges
  | block => exact keeps_bind (keeps_atomically fun s => .of_files_eq rfl rfl) fun _ => keeps_pure _
  | health => exact keeps_pure _
  | textGen =>
      have hstores : Stores a := Or.inr htype
      refine keeps_bind (tree_changes hstores (makeRoot_keeps (root_allows a.root))) fun made => ?_
      split
      · exact keeps_pure _
      · refine keeps_bind (keeps_atomically fun s => .of_files_eq rfl rfl) fun apiReply => ?_
        have hkeeps : (TextGen.Concurrent.handleRequest platform.toHost ⟨a.location, a.root⟩ client.text
            apiReply request response).KeepsIn (fun _ => True) (ChangesBelow cwd a.root) := by
          refine TextGen.Concurrent.handleRequest_keeps (allows_changesBelow folder_below)
            (fun title htitle => ?_) fun _ suffix hsuffix _ _ _ => ?_
          · exact allows_changesBelow
              (title_below (TextGen.not_mem_title htitle (by decide) (by decide)))
          · have hkey := Crud.Concurrent.noUp_key (noUp_decodeSpaces hup) hsuffix
            exact removal_changesBelow (suffix_below hkey)
        exact tree_changes hstores (hkeeps.keeps fun _ => trivial)
  | notFound => exact keeps_pure _

/-! ## 3. Requests -/

/-- **The router brings the request to the location.** -/
def BroughtTo (platform : Platform) (addrmap : AddrMap) (location : Str) (request : Request) : Prop :=
  searchAddrBinding (routesOf platform addrmap) (request.target ++ ['/']) = some location

instance : Decidable (BroughtTo platform addrmap location request) :=
  inferInstanceAs (Decidable (_ = some location))

/-- **What a location holds is the same**: its map, and the tree from its root down. -/
def SameAt (location : Str) (cwd : Path) (base : Str) (d : Path) (s s' : ServerState) : Prop :=
  Crud.Concurrent.SameLocation cwd base d (s.crud location) (s'.crud location)

theorem SameAt.put {base : Str} {crud crud' : Crud.CrudState} {s s' : ServerState}
    (h : Crud.Concurrent.SameLocation cwd base d crud crud') :
    SameAt location cwd base d ((crudView location).put crud s) ((crudView location).put crud' s') := by
  unfold SameAt
  rw [show ServerState.crud _ location = crud from (crudView location).get_put crud s,
    show ServerState.crud _ location = crud' from (crudView location).get_put crud' s']
  exact h

/-- A location that is spared holds the same still. -/
theorem SameAt.spared {base : Str} {s s' s₁ : ServerState} (h : SameAt location cwd base d s s')
    (hspared : Spares location cwd base s s₁) : SameAt location cwd base d s₁ s' := by
  obtain ⟨hmap, ⟨hcwd, hcwd'⟩, hbelow⟩ := h
  have hplace : d = placeOf cwd (base ++ ['/']) := hcwd ▸ resolve_place hbelow.left
  refine ⟨hspared.map.trans hmap, ⟨hspared.inCwd.trans hcwd, hcwd'⟩, ?_, hbelow.right, fun q hq => ?_⟩
  · refine (resolve_kept hspared.inCwd fun q hq => hspared.way hcwd q ?_).trans hbelow.left
    rw [← hcwd]
    exact hq
  · exact (hspared.nodes hcwd q (hplace ▸ hq)).trans (hbelow.nodes q hq)

/-- A request to the location sees no more than it holds. -/
theorem respondProgram_sees (hfound : BroughtTo platform addrmap location request)
    (harg : addrmap[location]? = some arg) (hcrud : handlerTypeOf arg.handlerType = .crud)
    (hup : NoUp request.target) :
    (respondProgram platform addrmap client.text (some request)).Sees
      (SameAt location cwd arg.root d) := by
  have hsees : (Crud.Concurrent.handleRequest ⟨arg.location, arg.root⟩ platform.disk request
      freshResponse).Sees (Crud.Concurrent.SameLocation cwd arg.root d) :=
    Crud.Concurrent.handleRequest_sees ⟨arg.location, arg.root⟩ hup
  unfold respondProgram
  dsimp only
  rw [show searchAddrBinding _ _ = some location from hfound]
  dsimp only
  rw [harg]
  dsimp only
  refine sees_bind ?_ fun answer => ?_
  · unfold handleProgram
    rw [hcrud]
    dsimp only
    refine sees_bind (sees_atomically fun s s' h => ⟨SameAt.put h, rfl⟩) fun _ => ?_
    exact sees_focus (fun _ _ h => h) (fun _ _ _ _ _ h => SameAt.put h) hsees
  · split <;> exact sees_pure _

/-- A request changes what the handler it is brought to changes. -/
theorem respondProgram_keeps {E : ServerState → ServerState → Prop}
    (h : ∀ (location : Str) (a : ConfigArg), BroughtTo platform addrmap location request →
      addrmap[location]? = some a →
        (handleProgram platform location a client.text request freshResponse).Keeps E) :
    (respondProgram platform addrmap client.text (some request)).Keeps E := by
  unfold respondProgram
  dsimp only
  cases hfound : searchAddrBinding (routesOf platform addrmap) (request.target ++ ['/']) with
  | none => exact keeps_pure _
  | some location =>
      dsimp only
      cases ha : addrmap[location]? with
      | none => exact keeps_pure _
      | some a =>
          refine keeps_bind (h location a hfound ha) fun answer => ?_
          split <;> exact keeps_pure _

/-- A request to another location, or to none, spares the location. -/
theorem respondProgram_spares (hfound : ¬ BroughtTo platform addrmap location request)
    (hup : NoUp request.target) {base : Str} (hapart : ∀ (other : Str) (a : ConfigArg),
      addrmap[other]? = some a → other ≠ location → Stores a → RootApart cwd base a.root) :
    (respondProgram platform addrmap client.text (some request)).Keeps (Spares location cwd base) := by
  refine respondProgram_keeps fun other a hother ha => ?_
  have hne : other ≠ location := by
    rintro rfl
    exact hfound hother
  exact (handleProgram_changes hup).mono fun _ _ hc => hc.spares hne (hapart other a ha hne)

end

/-! ## 4. Every order -/

/-- The requests of several clients, none of them begun. -/
def crowd {ι : Type} (platform : Platform) (addrmap : AddrMap) (s : ServerState)
    (requests : ι → Ipv4 × Request) : Pool ι ServerState (Except Fault Response) :=
  ⟨s, fun i => respondProgram platform addrmap (requests i).1.text (some (requests i).2)⟩

/-- **A CRUD location whose root is apart from those of the other stores**: whatever is asked of the
    other locations meanwhile, its requests are answered, and its map and all from its root down are
    left, as in the order that leaves the other requests out. -/
theorem locations_apart {ι : Type} [DecidableEq ι] {platform : Platform} {addrmap : AddrMap}
    {location : Str} {arg : ConfigArg} {d : Path} (s : ServerState) (requests : ι → Ipv4 × Request)
    (harg : addrmap[location]? = some arg) (hcrud : handlerTypeOf arg.handlerType = .crud)
    (hroot : s.files.resolve (arg.root ++ ['/']) = some d)
    (hapart : ∀ (other : Str) (a : ConfigArg), addrmap[other]? = some a → other ≠ location →
      Stores a → RootApart s.files.cwd arg.root a.root)
    (hup : ∀ i, NoUp (requests i).2.target) (schedule : List ι) :
    let all := (crowd platform addrmap s requests).run schedule
    let own := (crowd platform addrmap s requests).run
      (schedule.filter fun i => BroughtTo platform addrmap location (requests i).2)
    (∀ i, BroughtTo platform addrmap location (requests i).2 → all.progs i = own.progs i) ∧
      (all.shared.crud location).fileToId = (own.shared.crud location).fileToId ∧
      ∀ q, d <:+ q → all.shared.files.nodes[q]? = own.shared.files.nodes[q]? := by
  have hsame : SameAt location s.files.cwd arg.root d s s :=
    ⟨rfl, ⟨rfl, rfl⟩, hroot, hroot, fun _ _ => rfl⟩
  intro all own
  have hpurge : SameAt location s.files.cwd arg.root d all.shared own.shared ∧
      ∀ i, BroughtTo platform addrmap location (requests i).2 → all.progs i = own.progs i :=
    Pool.run_purge (I := fun _ => True) (fun _ _ _ => trivial)
      (fun _ _ _ h hspared => h.spared hspared) schedule hsame
      (fun i hi => ⟨rfl, respondProgram_sees hi harg hcrud (hup i)⟩)
      fun i hi => (respondProgram_spares hi (hup i) hapart).keepsIn
  obtain ⟨hend, hprogs⟩ := hpurge
  exact ⟨hprogs, hend.1, hend.2.2.nodes⟩

/-- One posts shoes, one asks for a text. -/
def shoesAndText : Bool → Ipv4 × Request
  | false => (localhost, Crud.ask .post "/api/shoes" "red")
  | true => (localhost, Crud.ask .get "/text/Hello" "")

/-- Their accesses in turn. -/
def inTurn : List Bool := (List.replicate 20 [false, true]).flatten

/-- The shoes get the id they get without the other. -/
theorem locations_apart_shoes :
    let all := (crowd demoPlatform demoMap demoStart shoesAndText).run inTurn
    let own := (crowd demoPlatform demoMap demoStart shoesAndText).run
      (inTurn.filter fun i => BroughtTo demoPlatform demoMap "/api".toList (shoesAndText i).2)
    ((own.progs false).result.bind Except.toOption).map Response.body =
      some "Created entry at \x7b\"id\":1\x7d\n".toList ∧ all.progs false = own.progs false := by
  have hup : ∀ i, NoUp (shoesAndText i).2.target := by decide
  have hapart : ∀ (other : Str) (a : ConfigArg), demoMap[other]? = some a → other ≠ "/api".toList →
      Stores a → RootApart demoStart.files.cwd "/data".toList a.root := by
    intro other a ha hne _
    rcases demoMap_get ha with ⟨_, hroot⟩ | ⟨heq, _⟩
    · rw [hroot]
      decide +kernel
    · exact absurd heq hne
  exact ⟨by decide +kernel, (locations_apart (d := ["data".toList]) demoStart shoesAndText
    demoMap_api (by decide) (by decide +kernel) hapart hup inTurn).1 false (by decide +kernel)⟩

end Googolplex.Concurrent
