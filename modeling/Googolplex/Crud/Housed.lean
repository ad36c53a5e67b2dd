/-
  File:      Googolplex/Crud/Housed.lean
  Subject:   Every known entity has its directory, and what an answer of success
             to a POST or PUT then says.

  * `Housed`: the invariant; `Housed.step`: every request keeps it.
  * `Housed.wrote`: the write behind an answer of success.
  * `Housed.kept_iff`: when the file holds the body after such an answer.
  * `known_housed`: in every reachable state the known keys have their
    directories, and what is written for one of them is written below it.
-/
import Googolplex.Crud.Writes
import Googolplex.Dispatcher.Files

namespace Googolplex.Crud

open Cxx Posix Posix.FileTree RequestHandler Machine

section Requests

variable {handler : RequestHandler} {disk : Disk} {s s' : CrudState} {request : Request}
  {response r : Response} {b : Bool}

/-! ## 1. The directories of the known keys -/

/-- **Every known key has its directory.** -/
def Housed (handler : RequestHandler) (s : CrudState) : Prop :=
  ∀ k : Str, s.fileToId[k]? ≠ none → s.files.lookup (pathOf handler k) = some .dir

theorem Housed.empty (handler : RequestHandler) (files : FileTree) : Housed handler ⟨∅, files⟩ := by
  intro k hk
  rw [Std.ExtTreeMap.getElem?_empty] at hk
  exact absurd rfl hk

/-- The keys keep their directories in a tree that has grown. -/
theorem Housed.grows (h : Housed handler s) (hmap : s'.fileToId = s.fileToId)
    (hg : Grows s.files s'.files) : Housed handler s' := by
  intro k hk
  rw [hmap] at hk
  exact lookup_grows hg (h k hk)

/-- One key is assigned a list, and has its directory or had it. -/
theorem Housed.assign (h : Housed handler s) {key : Str} {ids : List Int}
    (hmap : s'.fileToId = s.fileToId.insert key ids) (hg : Grows s.files s'.files)
    (hdir : s.fileToId[key]? ≠ none ∨ s'.files.lookup (pathOf handler key) = some .dir) :
    Housed handler s' := by
  intro k hk
  rw [hmap, getElem?_assign] at hk
  split at hk
  · rename_i heq
    rw [← heq]
    exact hdir.elim (fun hknown => lookup_grows hg (h key hknown)) id
  · exact lookup_grows hg (h k hk)

/-- A known entity has its directory, so it is made in every case. -/
theorem Housed.made (h : Housed handler s) {entity path : Str} {value : Int} {files : FileTree}
    (hw : Write handler disk s request entity path value files s' r) :
    createDir s.files (pathOf handler entity) = (true, files) := by
  have hmade := hw.made
  split at hmade
  · exact hmade
  · rename_i hknown
    cases hmade
    unfold createDir
    rw [if_pos (h entity hknown)]

theorem Housed.write (h : Housed handler s) {entity path : Str} {value : Int} {files : FileTree}
    (hw : Write handler disk s request entity path value files s' r) (hg : Grows s.files s'.files) :
    Housed handler s' := by
  refine h.assign hw.listed hg (Or.inr ?_)
  rw [hw.tree]
  exact lookup_grows (writeToFile_grows rfl) (createDir_found (x := []) (h.made hw)).1

/-- **Every request keeps it**, whatever the disk does. -/
theorem Housed.step (h : Housed handler s)
    (hs : handleRequest handler disk s request response = .ok (s', r, b)) : Housed handler s' := by
  have hg : Grows s.files s'.files := (handleRequest_touch hs).grows
  unfold handleRequest at hs
  cases ht : handler.checkRequestUrl request.target false with
  | none =>
      simp only [ht] at hs
      cases hs
      exact h
  | some suffix =>
      simp only [ht] at hs
      cases hm : request.method <;> simp only [hm] at hs
      case post =>
        rcases handlePostRequest_write hs with ⟨rfl, _⟩ | ⟨_, _, _, _, hw⟩
        · exact h
        · exact h.write hw hg
      case put =>
        rcases handlePutRequest_write hs with ⟨rfl, _⟩ | ⟨_, _, _, _, _, hw⟩
        · exact h
        · exact h.write hw hg
      case get =>
        unfold handleGetRequest at hs
        dsimp only at hs
        split at hs
        · rename_i hdir
          cases hs
          exact h.assign rfl hg (Or.inr hdir)
        · split at hs <;> cases hs <;> exact h
        · cases hs
          exact h
      case delete =>
        unfold handleDeleteRequest at hs
        dsimp only at hs
        split at hs
        · cases hs
          exact h
        · cases hs
          exact h
        · split at hs
          · cases hs
            exact h
          · split at hs
            · cases hs
              exact h
            · rename_i ids hids
              split at hs
              · cases hs
                exact h.assign rfl hg (Or.inl (by rw [hids]; simp))
              · cases hs
                exact h
      all_goals
        cases hs
        exact h

/-! ## 2. Answers of success -/

/-- **The write behind an answer of success**: the entity has its directory afterwards, and
    `write_to_file` has reported success. -/
theorem Housed.wrote (h : Housed handler s) (hm : request.method = .post ∨ request.method = .put)
    (hs : handleRequest handler disk s request response = .ok (s', r, b)) (hack : Acknowledged r) :
    ∃ e x n files, Names handler s request e x n ∧
      createDir s.files (pathOf handler e) = (true, files) ∧
      writeToFile disk files (pathOf handler (e ++ '/' :: x)) request.body = (true, s'.files) := by
  unfold handleRequest at hs
  cases ht : handler.checkRequestUrl request.target false with
  | none =>
      simp only [ht] at hs
      cases hs
      exact absurd hack (not_acknowledged (by simp [prepareBadRequestResponse, Status.toNat]))
  | some suffix =>
      simp only [ht] at hs
      rcases hm with hm | hm
      · simp only [hm] at hs
        rcases handlePostRequest_write hs with ⟨_, herror⟩ | ⟨n, fileToId, files, hid, hw⟩
        · exact absurd hack (not_acknowledged herror)
        · refine ⟨suffix, decimal n, n, files, .post hm ht hid, h.made hw, ?_⟩
          rw [hw.tree, ← hw.reported hack]
      · simp only [hm] at hs
        rcases handlePutRequest_write hs with ⟨_, herror⟩ | ⟨n, files, hne, hdigits, hvalue, hw⟩
        · exact absurd hack (not_acknowledged herror)
        · have hwrite : writeToFile disk files (pathOf handler suffix) request.body =
              (true, s'.files) := by
            rw [hw.tree, ← hw.reported hack]
          rcases suffix_cut suffix with ⟨_, _, hentity⟩ | ⟨hcut, _⟩
          · -- without a slash the path is the directory of the entity
            have hdir := (createDir_found (x := []) (h.made hw)).1
            rw [hentity] at hdir
            unfold writeToFile at hwrite
            rw [if_pos hdir] at hwrite
            cases hwrite
          · rw [hcut] at ht hwrite
            exact ⟨_, _, n, files, .put hm ht hne hdigits hvalue, h.made hw, hwrite⟩

/-- **When the file holds the body** after an answer of success. -/
theorem Housed.kept_iff (h : Housed handler s)
    (hm : request.method = .post ∨ request.method = .put)
    (hs : handleRequest handler disk s request response = .ok (s', r, b)) (hack : Acknowledged r) :
    ∃ e x n, Names handler s request e x n ∧
      (s'.files.lookup (pathOf handler (e ++ '/' :: x)) = some (.file request.body) ↔
        Wrote disk s.files (pathOf handler (e ++ '/' :: x)) request.body) := by
  obtain ⟨e, x, n, files, hn, hmade, hwrite⟩ := h.wrote hm hs hack
  refine ⟨e, x, n, hn, ?_⟩
  rw [← pathOf_below] at hwrite ⊢
  exact stored_iff hn.plain hmade hwrite

/-- A GET of a file answers with what it holds. -/
theorem get_file {key text : Str} (disk : Disk) (response : Response) (hm : request.method = .get)
    (ht : handler.checkRequestUrl request.target false = some key)
    (hfile : s.files.lookup (pathOf handler key) = some (.file text)) :
    ∃ r, handleRequest handler disk s request response = .ok (s, r, true) ∧ r.result = .ok ∧
      r.body = text := by
  refine ⟨Response.preparePayload { response with result := .ok, body := text }, ?_, rfl, rfl⟩
  unfold handleRequest handleGetRequest readFromFile
  rw [ht]
  simp only [hm, hfile]

/-! ## 3. Where a file is written -/

/-- The directory a POST or PUT of an entity finds, or makes for one that is not known. -/
def MadeFor (handler : RequestHandler) (s : CrudState) (entity : Str) (files : FileTree) : Prop :=
  (if s.fileToId[entity]? = none then createDir s.files (pathOf handler entity)
    else (true, s.files)) = (true, files)

/-- **The call of `write_to_file`** a request comes to: the entity, the path, and the tree it is made
    on. -/
inductive WriteCall (handler : RequestHandler) (s : CrudState) (request : Request) :
    Str → Str → FileTree → Prop
  | post {suffix : Str} {files : FileTree} {value : Int} {fileToId : FileToId}
      (hm : request.method = .post) (ht : handler.checkRequestUrl request.target false = some suffix)
      (hmade : MadeFor handler s suffix files)
      (hid : getNextId s.fileToId suffix = .ok (value, fileToId)) :
      WriteCall handler s request suffix (pathOf handler suffix ++ '/' :: toStr value) files
  | put {suffix : Str} {files : FileTree} {value : Int}
      (hm : request.method = .put) (ht : handler.checkRequestUrl request.target false = some suffix)
      (hname : idNameOf suffix ≠ [] ∧ (idNameOf suffix).all Char.isDigit = true)
      (hvalue : stoi (idNameOf suffix) = .ok value)
      (hmade : MadeFor handler s (entityOf suffix) files) :
      WriteCall handler s request (entityOf suffix) (pathOf handler suffix) files

theorem writeToFile_disk {disk' : Disk} {files : FileTree} {path text : Str}
    (h : disk path text = disk' path text) :
    writeToFile disk files path text = writeToFile disk' files path text := by
  unfold writeToFile
  rw [h]

/-- **The disk is asked at these calls only.** -/
theorem handleRequest_disk {disk' : Disk}
    (h : ∀ entity path files, WriteCall handler s request entity path files →
      disk path request.body = disk' path request.body) :
    handleRequest handler disk s request response = handleRequest handler disk' s request response := by
  unfold handleRequest
  cases ht : handler.checkRequestUrl request.target false with
  | none => rfl
  | some suffix =>
      cases hm : request.method with
      | post =>
          dsimp only
          unfold handlePostRequest
          dsimp only
          generalize hmade : (if s.fileToId[suffix]? = none
            then createDir s.files (pathOf handler suffix) else (true, s.files)) = made
          obtain ⟨created, files⟩ := made
          cases created with
          | false => rfl
          | true =>
              cases hid : getNextId s.fileToId suffix with
              | error f => rfl
              | ok v =>
                  have hcall : WriteCall handler s request suffix _ files := .post hm ht hmade hid
                  simp only [writeToFile_disk (h _ _ _ hcall)]
      | put =>
          dsimp only
          unfold handlePutRequest
          dsimp only
          by_cases hname : idNameOf suffix ≠ [] ∧ (idNameOf suffix).all Char.isDigit = true
          · rw [if_pos hname, if_pos hname]
            cases hvalue : stoi (idNameOf suffix) with
            | error f => rfl
            | ok value =>
                simp only [ne_eq, ite_not]
                generalize hmade : (if s.fileToId[entityOf suffix]? = none
                  then createDir s.files (pathOf handler (entityOf suffix))
                  else (true, s.files)) = made
                obtain ⟨created, files⟩ := made
                cases created with
                | false => rfl
                | true =>
                    have hcall : WriteCall handler s request (entityOf suffix) _ files :=
                      .put hm ht hname hvalue hmade
                    simp only [writeToFile_disk (h _ _ _ hcall)]
          · rw [if_neg hname, if_neg hname]
      | get | delete | head | options | trace | other => rfl

/-- **What is written for a known key** is written below its directory: the tree is as it was, and
    the path leads to a name in a directory, or to a directory, where nothing is written. -/
theorem Housed.written (h : Housed handler s) {entity path : Str} {files : FileTree}
    (hcall : WriteCall handler s request entity path files) (hknown : s.fileToId[entity]? ≠ none) :
    files = s.files ∧ (files.lookup path = some .dir ∨
      ∃ n p, files.resolve path = some (n :: p) ∧ files.IsDir p) := by
  have hdir := h entity hknown
  have hchild : ∀ {x : Name}, Plain x → ∃ n p,
      s.files.resolve (pathOf handler entity ++ '/' :: x) = some (n :: p) ∧ s.files.IsDir p := by
    intro x hx
    obtain ⟨p, hp, _, hresolve⟩ := resolve_child hdir hx
    exact ⟨x, p, hresolve, hp⟩
  have hsame : ∀ {files}, MadeFor handler s entity files → files = s.files := by
    intro files hmade
    unfold MadeFor at hmade
    rw [if_neg hknown] at hmade
    cases hmade
    rfl
  cases hcall with
  | post hm ht hmade hid =>
      obtain rfl := hsame hmade
      exact ⟨rfl, Or.inr (hchild (plain_toStr _))⟩
  | @put suffix files value hm ht hname hvalue hmade =>
      obtain rfl := hsame hmade
      refine ⟨rfl, ?_⟩
      rcases suffix_cut suffix with ⟨_, _, hentity⟩ | ⟨hcut, _⟩
      · -- without a slash the path is the directory of the entity
        rw [hentity] at hdir
        exact Or.inl hdir
      · have hplain : Plain (idNameOf suffix) :=
          plain_of_digits hname.1 (List.all_eq_true.mp hname.2)
        have hpath : pathOf handler suffix =
            pathOf handler (entityOf suffix) ++ '/' :: idNameOf suffix := by
          rw [pathOf_below, ← hcut]
        rw [hpath]
        exact Or.inr (hchild hplain)

/-- **Every known entity has its directory**, in every state that requests reach from an empty map on
    any tree, with a disk of its own for each request; and POST and PUT never write below a missing
    directory for one of them, at the calls that are all the disk is asked at. -/
theorem known_housed (handler : RequestHandler) (files : FileTree) (s : CrudState)
    (h : Reachable (fun s (i : Disk × Request) => serve handler i.1 s i.2) ⟨∅, files⟩ s) :
    (∀ k : Str, s.fileToId[k]? ≠ none → s.files.lookup (pathOf handler k) = some .dir) ∧
      (∀ request entity path files, WriteCall handler s request entity path files →
        s.fileToId[entity]? ≠ none → files = s.files ∧ (files.lookup path = some .dir ∨
          ∃ n p, files.resolve path = some (n :: p) ∧ files.IsDir p)) ∧
      ∀ request response disk disk', (∀ entity path files, WriteCall handler s request entity path files →
          disk path request.body = disk' path request.body) →
        handleRequest handler disk s request response =
          handleRequest handler disk' s request response := by
  have hstep : ∀ (s : CrudState) (i : Disk × Request) s' r, Housed handler s →
      serve handler i.1 s i.2 = .ok (s', r) → Housed handler s' := by
    intro s i s' r hs hserve
    unfold serve at hserve
    split at hserve
    · cases hserve
    · rename_i hhandle
      cases hserve
      exact hs.step hhandle
  have hinv := Reachable.invariant hstep (Housed.empty handler files) h
  exact ⟨hinv, fun request entity path files hcall hknown => hinv.written hcall hknown,
    fun request response disk disk' hdisk => handleRequest_disk hdisk⟩

/-- After a POST of a new entity. -/
theorem known_housed_post : ∃ s, Reachable (fun s (i : Disk × Request) => serve apiHandler i.1 s i.2)
    apiStart s ∧ s.fileToId["e".toList]? ≠ none ∧
      s.files.lookup (pathOf apiHandler "e".toList) = some .dir := by
  have hids : (serve apiHandler Disk.reliable apiStart (ask .post "/api/e" "x")).map
      (fun v => v.1.fileToId["e".toList]?) = .ok (some [1]) := by decide
  cases hs : serve apiHandler Disk.reliable apiStart (ask .post "/api/e" "x") with
  | error f =>
      rw [hs] at hids
      cases hids
  | ok v =>
      obtain ⟨s, r⟩ := v
      rw [hs] at hids
      have hids : s.fileToId["e".toList]? = some [1] := Except.ok.inj hids
      have hreach : Reachable (fun s (i : Disk × Request) => serve apiHandler i.1 s i.2) apiStart s :=
        (Reachable.refl _).next (i := (Disk.reliable, ask .post "/api/e" "x")) hs
      have hknown : s.fileToId["e".toList]? ≠ none := by rw [hids]; simp
      exact ⟨s, hreach, hknown, (known_housed apiHandler apiStart.files s hreach).1 _ hknown⟩

end Requests

end Googolplex.Crud
