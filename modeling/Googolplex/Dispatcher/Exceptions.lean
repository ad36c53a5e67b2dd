/-
  File:      Googolplex/Dispatcher/Exceptions.lean
  Subject:   WHICH REQUESTS BRING THE SERVER DOWN.

  No caller of `handle_request` has a handler for exceptions: a request is
  answered, or it is the last one.

  * `Kept`: what every request keeps of what empty roots begin with; so a list of
    titles can always be printed.
  * `answered_iff`: in every state reached from empty roots a request to CRUD or
    text_gen is answered if and only if it does not throw.
  * `put_brings_down`: a PUT that throws.
-/
import Googolplex.Crud.Exceptions
import Googolplex.Dispatcher.Files
import Googolplex.Library.JsonText
import Googolplex.Session.Segments
import Googolplex.TextGen.Exceptions

namespace Googolplex

open Cxx Posix Posix.FileTree RequestHandler Machine
open Config (ConfigArg AddrMap)
open TextGen (Ipv4)

/-! ## 1. The server -/

section Server

variable {platform : Platform} {addrmap : AddrMap} {start s s' : ServerState} {client : Ipv4}
  {request : Request} {location : Str} {arg : ConfigArg}

/-- The handlers that keep something. -/
def Stores (arg : ConfigArg) : Prop :=
  handlerTypeOf arg.handlerType = .crud ∨ handlerTypeOf arg.handlerType = .textGen

/-- The maps are empty, and the roots of the stores are empty directories. -/
structure EmptyRoots (addrmap : AddrMap) (s : ServerState) : Prop where
  maps : ∀ location : Str, s.fileToId[location]? = none
  roots : ∀ (location : Str) (arg : ConfigArg), addrmap[location]? = some arg → Stores arg →
    ∃ d, s.files.resolve arg.root = some d ∧ s.files.IsDir d ∧ ∀ n : Name, s.files.nodes[n :: d]? = none

/-- What every request keeps: the lists are increasing, the roots of text_gen are there, and the
    files below them have names that are ASCII. -/
structure Kept (addrmap : AddrMap) (s : ServerState) : Prop where
  lists : ∀ location : Str, Crud.Increasing (s.crud location).fileToId
  homes : ∀ (location : Str) (arg : ConfigArg), addrmap[location]? = some arg →
    handlerTypeOf arg.handlerType = .textGen → ∃ d, s.files.resolve arg.root = some d ∧
      s.files.IsDir d ∧ ∀ (n : Name) (p : Path), d <:+ p → s.files.IsFile (n :: p) → Json.Ascii n

theorem EmptyRoots.kept (h : EmptyRoots addrmap s) : Kept addrmap s where
  lists location := by
    unfold ServerState.crud
    rw [h.maps location]
    exact Crud.Increasing.empty
  homes location arg harg htype := by
    obtain ⟨d, hr, hd, hnone⟩ := h.roots location arg harg (Or.inr htype)
    refine ⟨d, hr, hd, fun n p hp ⟨c, hc⟩ => ?_⟩
    rw [nothing_below hnone n p hp] at hc
    cases hc

theorem handle_lists {response r : Response} {b : Bool}
    (h : handle platform location arg client.text s request response = .ok (s', r, b))
    (hs : ∀ location : Str, Crud.Increasing (s.crud location).fileToId) (l : Str) :
    Crud.Increasing (s'.crud l).fileToId := by
  unfold handle at h
  cases htype : handlerTypeOf arg.handlerType with
  | crud =>
      simp only [htype] at h
      split at h
      · cases h
      · rename_i crud response status hserve
        cases h
        unfold ServerState.crud
        dsimp only
        rw [getElem?_assign]
        split
        · exact Crud.handleRequest_increasing (hs location) hserve
        · exact hs l
  | static =>
      simp only [htype] at h
      split at h
      · cases h
      · cases h; exact hs l
  | textGen =>
      simp only [htype] at h
      split at h
      · cases h
      · split at h
        · cases h
        · cases h; exact hs l
  | _ => simp only [htype] at h; cases h; exact hs l

theorem Kept.step {i : Ipv4 × Request} {r : Response} (h : Kept addrmap s)
    (hs : answerClient platform addrmap s i = .ok (s', r)) : Kept addrmap s' := by
  obtain ⟨client, request⟩ := i
  cases hfound : searchAddrBinding (routesOf platform addrmap) (request.target ++ ['/']) with
  | none =>
      rw [answerClient_unrouted hfound] at hs
      cases hs
      exact h
  | some location =>
      obtain ⟨arg, harg⟩ := exists_entry hfound
      rw [answerClient_routed hfound harg] at hs
      cases hh : handle platform location arg client.text s request freshResponse with
      | error f => rw [hh] at hs; cases hs
      | ok v =>
          obtain ⟨t, r', b⟩ := v
          rw [hh] at hs
          cases hs
          have htouch := handle_touch hh
          refine ⟨handle_lists hh h.lists, fun l a ha htype => ?_⟩
          obtain ⟨d, hr, hd, hnames⟩ := h.homes l a ha htype
          refine ⟨d, htouch.grows.resolve hr, htouch.grows.dirs d hd, fun n p hp hf => ?_⟩
          rcases htouch.names n p hf with hold | hascii
          · exact hnames n p hp hold
          · exact hascii

/-- **The request will not be answered** by the handler of an entry. -/
def Throws (library : Json.Library) (location : Str) (arg : ConfigArg) (client : Ipv4)
    (s : ServerState) (request : Request) : Prop :=
  match handlerTypeOf arg.handlerType with
  | .crud => Crud.Throws ⟨arg.location, arg.root⟩ (s.crud location).fileToId request
  | .textGen => TextGen.Throws library ⟨arg.location, arg.root⟩ client s.files request
  | _ => False

/-- A request to a store fails exactly when it throws. -/
theorem handle_error_iff {response : Response} (h : Kept addrmap s)
    (harg : addrmap[location]? = some arg) (hstores : Stores arg) :
    (∃ f, handle platform location arg client.text s request response = .error f) ↔
      Throws platform.library location arg client s request := by
  unfold Throws handle
  rcases hstores with htype | htype
  · simp only [htype]
    have hiff : (∃ f, Crud.handleRequest ⟨arg.location, arg.root⟩ platform.disk (s.crud location)
        request response = .error f) ↔ _ := Crud.handleRequest_error_iff (h.lists location)
    rw [← hiff]
    cases Crud.handleRequest ⟨arg.location, arg.root⟩ platform.disk (s.crud location) request response <;>
      simp
  · obtain ⟨d, hr, hd, hnames⟩ := h.homes location arg harg htype
    have hroot : makeRoot s.files arg.root = .ok s.files := by
      unfold makeRoot
      rw [if_pos]
      unfold lookup
      rw [hr]
      exact hd
    have hfolder : ∀ p, s.files.resolve (TextGen.folderOf ⟨arg.location, arg.root⟩ client.text) =
        some p → ∀ n : Name, s.files.IsFile (n :: p) → Json.Ascii n := by
      intro p hp n hf
      have hplain := client.folder_plain
      have hwalk : s.files.resolve (TextGen.folderOf ⟨arg.location, arg.root⟩ client.text) =
          s.files.walk d (segments client.folder) := resolve_base (resolve_slash hr hd) _
      rw [hwalk, segments_of_not_mem hplain.2.2.2] at hp
      have hpath : p = client.folder :: d := by
        rw [walk_normal hp, normal_cons, normal_nil, hplain.stepName]
      rw [hpath] at hf
      exact hnames n _ (List.suffix_cons _ _) hf
    simp only [htype, hroot]
    have hiff : (∃ f, TextGen.handleRequest platform.toHost ⟨arg.location, arg.root⟩ client.text
        (s.api 0) s.files request response = .error f) ↔ _ := TextGen.handleRequest_error_iff hfolder
    rw [← hiff]
    cases TextGen.handleRequest platform.toHost ⟨arg.location, arg.root⟩ client.text (s.api 0) s.files
      request response <;> simp

/-- A request that is routed to a store is answered exactly when it does not throw. -/
theorem Kept.answered (hkept : Kept addrmap s)
    (hfound : searchAddrBinding (routesOf platform addrmap) (request.target ++ ['/']) = some location)
    (harg : addrmap[location]? = some arg) (hstores : Stores arg) :
    (∃ s' response, answerClient platform addrmap s (client, request) = .ok (s', response)) ↔
      ¬ Throws platform.library location arg client s request := by
  have hiff : (∃ f, handle platform location arg client.text s request freshResponse = .error f) ↔ _ :=
    handle_error_iff hkept harg hstores
  rw [← hiff, answerClient_routed hfound harg]
  cases handle platform location arg client.text s request freshResponse with
  | error f => simp [Except.map]
  | ok v => simp [Except.map]

/-- **In every state reached from empty roots, a request to CRUD or text_gen is answered if and only if
    it does not throw.** -/
theorem answered_iff (hstart : EmptyRoots addrmap start)
    (hs : Reachable (answerClient platform addrmap) start s)
    (hfound : searchAddrBinding (routesOf platform addrmap) (request.target ++ ['/']) = some location)
    (harg : addrmap[location]? = some arg) (hstores : Stores arg) :
    (∃ s' response, answerClient platform addrmap s (client, request) = .ok (s', response)) ↔
      ¬ Throws platform.library location arg client s request := by
  have hkept : Kept addrmap s :=
    Reachable.invariant (fun _ _ _ _ hi hstep => Kept.step hi hstep) hstart.kept hs
  exact hkept.answered hfound harg hstores

end Server

/-! ## 2. A server -/

/-- A platform that can be run. -/
def demoPlatform : Platform where
  library := Json.textLibrary
  disk := Disk.reliable
  order := id
  order_perm _ := List.Perm.refl _
  beast := plainBeast
  writeRequest request := request.target

/-- `location /api CrudHandler { data_path /data; }` and `location /text TextGenHandler { root /text; }`. -/
def demoMap : AddrMap :=
  ((∅ : AddrMap).insert "/api".toList
      { handlerType := "CrudHandler".toList, location := "/api".toList, root := "/data".toList }).insert
    "/text".toList
    { handlerType := "TextGenHandler".toList, location := "/text".toList, root := "/text".toList }

/-- The two roots, and nothing else. -/
def demoFiles : FileTree :=
  Crud.apiStart.files.put "text".toList [] .dir (isDir_root _) fun _ => rfl

/-- Nothing was asked yet; the API gives no answers. -/
def demoStart : ServerState where
  files := demoFiles
  fileToId := ∅
  sleeps := []
  api _ := none

theorem demoMap_get {location : Str} {arg : ConfigArg} (h : demoMap[location]? = some arg) :
    (location = "/text".toList ∧ arg.root = "/text".toList) ∨
      (location = "/api".toList ∧ arg.root = "/data".toList) := by
  unfold demoMap at h
  rw [getElem?_assign] at h
  split at h
  · rename_i heq
    cases h
    exact Or.inl ⟨heq.symm, rfl⟩
  · rw [getElem?_assign] at h
    split at h
    · rename_i heq
      cases h
      exact Or.inr ⟨heq.symm, rfl⟩
    · rw [Std.ExtTreeMap.getElem?_empty] at h
      cases h

/-- The entry of `/api`. -/
theorem demoMap_api : demoMap["/api".toList]? = some
    { handlerType := "CrudHandler".toList, location := "/api".toList, root := "/data".toList } :=
  (getElem?_assign_of_ne _ _ (by decide)).trans (getElem?_assign_self _ _ _)

theorem demoFiles_below {n m : Name} : demoFiles.nodes[[n, m]]? = none := by
  have htext : demoFiles.nodes[[n, m]]? = Crud.apiStart.files.nodes[[n, m]]? :=
    (put_nodes _ _ _ (isDir_root _) (fun _ => rfl) _).trans (if_neg (by simp))
  have hdata : Crud.apiStart.files.nodes[[n, m]]? = bare.nodes[[n, m]]? :=
    (put_nodes _ _ _ (isDir_root _) (fun _ => rfl) _).trans (if_neg (by simp))
  rw [htext, hdata, bare_nodes]

theorem demoStart_empty : EmptyRoots demoMap demoStart where
  maps location := Std.ExtTreeMap.getElem?_empty
  roots location arg harg _ := by
    rcases demoMap_get harg with ⟨_, hroot⟩ | ⟨_, hroot⟩
    · rw [hroot]
      exact ⟨["text".toList], by decide +kernel, by decide +kernel, fun n => demoFiles_below⟩
    · rw [hroot]
      exact ⟨["data".toList], by decide +kernel, by decide +kernel, fun n => demoFiles_below⟩

/-- 127.0.0.1 -/
def localhost : Ipv4 := ⟨127, 0, 0, 1⟩

/-- Two POSTs of the same key. -/
def twoPairs : List (Ipv4 × Request) :=
  [(localhost, Crud.ask .post "/api/Shoes" "red"), (localhost, Crud.ask .post "/api/Shoes" "blue")]

/-- A third. -/
def thirdPair : Request := Crud.ask .post "/api/Shoes" "green"

/-- After two POSTs a third is answered: the ids 1 and 2 are all that are taken. -/
theorem answered_third : ∃ s s' response,
    Reachable (answerClient demoPlatform demoMap) demoStart s ∧
      Crud.idsOf (s.crud "/api".toList).fileToId "Shoes".toList = [1, 2] ∧
      answerClient demoPlatform demoMap s (localhost, thirdPair) = .ok (s', response) := by
  have hseen : (run (answerClient demoPlatform demoMap) demoStart twoPairs).toOption.map
      (fun v => Crud.idsOf (v.1.crud "/api".toList).fileToId "Shoes".toList) = some [1, 2] := by
    decide +kernel
  cases h : run (answerClient demoPlatform demoMap) demoStart twoPairs with
  | error f =>
      rw [h] at hseen
      cases hseen
  | ok v =>
      rw [h] at hseen
      have hids : Crud.idsOf (v.1.crud "/api".toList).fileToId "Shoes".toList = [1, 2] :=
        Option.some.inj hseen
      have hfree : ¬ Crud.Exhausted (Crud.idsOf (v.1.crud "/api".toList).fileToId "Shoes".toList) := by
        intro hall
        have hthree := hall 3 (by decide) (by decide)
        rw [hids] at hthree
        revert hthree
        decide
      have hfound : searchAddrBinding (routesOf demoPlatform demoMap) (thirdPair.target ++ ['/']) =
          some "/api".toList := by decide +kernel
      have hgoes : ¬ Crud.Throws ⟨"/api".toList, "/data".toList⟩ (v.1.crud "/api".toList).fileToId
          thirdPair := by
        intro hthrows
        cases hthrows with
        | @post e hm ht hall =>
            obtain rfl : "Shoes".toList = e := Option.some.inj ht
            exact hfree hall
        | put hm => cases hm
      obtain ⟨s', response, hanswer⟩ := (answered_iff demoStart_empty ⟨_, _, h⟩ hfound demoMap_api
        (Or.inl (by decide))).mpr hgoes
      exact ⟨v.1, s', response, ⟨_, _, h⟩, hids, hanswer⟩

/-- A PUT of an id that is a number but no `int`. -/
def putBig : Request := Crud.ask .put "/api/Shoes/99999999999" "red"

/-- **It is the last request** the server gets. -/
theorem put_brings_down : EmptyRoots demoMap demoStart ∧
    (∃ arg, demoMap["/api".toList]? = some arg ∧ Stores arg) ∧
    searchAddrBinding (routesOf demoPlatform demoMap) (putBig.target ++ ['/']) =
      some "/api".toList ∧
    ¬ ∃ s' response, answerClient demoPlatform demoMap demoStart (localhost, putBig) =
      .ok (s', response) := by
  have hfound : searchAddrBinding (routesOf demoPlatform demoMap) (putBig.target ++ ['/']) =
      some "/api".toList := by decide +kernel
  have hstores : Stores
      { handlerType := "CrudHandler".toList, location := "/api".toList, root := "/data".toList } :=
    Or.inl (by decide)
  refine ⟨demoStart_empty, ⟨_, demoMap_api, hstores⟩, hfound, ?_⟩
  rw [demoStart_empty.kept.answered hfound demoMap_api hstores, not_not]
  unfold Throws
  rw [show handlerTypeOf _ = HandlerType.crud by decide]
  exact .put (t := "Shoes/99999999999".toList) rfl (by decide) (by decide) (by decide) (by decide)

end Googolplex
