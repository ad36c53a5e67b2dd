/-
  File:      Googolplex/Crud/Idempotence.lean
  Subject:   PUT AND DELETE TWICE IN A ROW, on any tree and any disk.

  * `writeToFile_again`: a file written again is as it was.
  * `putOutcome`: the state a PUT leaves, in one line for known and new entities.
  * `serve_twice`: the second of two equal requests changes nothing.
-/
import Googolplex.Crud.Writes

namespace Googolplex.Crud

open Cxx Posix RequestHandler

variable {handler : RequestHandler} {disk : Disk} {s : CrudState} {request : Request}
  {response : Response} {suffix : Str}

/-! ## 1. What the helpers do the second time -/

/-- **A write made again** finds the tree as it leaves it, whether it succeeded or not. -/
theorem writeToFile_again (disk : Disk) (files : FileTree) (path content : Str) :
    (writeToFile disk (writeToFile disk files path content).2 path content).2 =
      (writeToFile disk files path content).2 := by
  unfold writeToFile
  by_cases hdir : files.lookup path = some .dir
  · rw [if_pos hdir, if_pos hdir]
  · rw [if_neg hdir]
    cases hw : (disk path content).bind (files.openWrite path) with
    | none => rw [Option.getD_none, if_neg hdir, hw, Option.getD_none]
    | some files' =>
        rw [Option.getD_some]
        obtain ⟨text, htext, hopen⟩ := Option.bind_eq_some_iff.mp hw
        split
        · rfl
        · rw [htext, Option.bind_some, FileTree.openWrite_again hopen, Option.getD_some]

/-- An id registered twice is registered once. -/
theorem register_again (fileToId : FileToId) (key : Str) (v : Int) :
    register (register fileToId key v) key v = register fileToId key v :=
  register_of_mem (by rw [getElem?_register, if_pos rfl]) (by rw [mem_withId]; exact Or.inl rfl)

/-! ## 2. PUT -/

/-- The tree in which a PUT writes, `none` if the entity has no directory and gets none. -/
def putFiles (handler : RequestHandler) (s : CrudState) (entity : Str) : Option FileTree :=
  if s.fileToId[entity]? ≠ none then some s.files
  else
    match createDir s.files (pathOf handler entity) with
    | (true, files) => some files
    | (false, _) => none

/-- **The state a PUT leaves**: the id registered, the body written. -/
theorem handlePutRequest_state (handler : RequestHandler) (disk : Disk) (s : CrudState)
    (request : Request) (response : Response) {value : Int} (hname : idNameOf suffix ≠ [])
    (hdigits : (idNameOf suffix).all Char.isDigit = true)
    (hvalue : stoi (idNameOf suffix) = .ok value) :
    ∃ r b, handlePutRequest handler disk s suffix request response = .ok
      (match putFiles handler s (entityOf suffix) with
        | some files => ⟨register s.fileToId (entityOf suffix) value,
            (writeToFile disk files (pathOf handler suffix) request.body).2⟩
        | none => s, r, b) := by
  unfold handlePutRequest putFiles
  dsimp only
  rw [if_pos ⟨hname, hdigits⟩, hvalue]
  dsimp only
  cases hk : s.fileToId[entityOf suffix]? with
  | some ids =>
      simp only [ne_eq, reduceCtorEq, not_false_eq_true, if_true, Bool.true_eq_false, if_false,
        insertToMap_known hk]
      split <;> exact ⟨_, _, rfl⟩
  | none =>
      simp only [ne_eq, not_true_eq_false, if_false, ← register_unknown hk]
      cases hmade : createDir s.files (pathOf handler (entityOf suffix)) with
      | mk made files =>
          cases made with
          | false =>
              rw [createDir_failed hmade]
              exact ⟨_, _, rfl⟩
          | true =>
              simp only [Bool.true_eq_false, if_false]
              split <;> exact ⟨_, _, rfl⟩

/-- The id of a PUT is an `int`, if it is a number at all. -/
def IdFits (handler : RequestHandler) (request : Request) : Prop :=
  ∀ suffix, handler.checkRequestUrl request.target false = some suffix →
    (idNameOf suffix).all Char.isDigit = true →
      (Nat.ofDigitChars 10 (idNameOf suffix) 0 : Int) ≤ intMax

theorem handlePutRequest_twice
    (hfits : (idNameOf suffix).all Char.isDigit = true →
      (Nat.ofDigitChars 10 (idNameOf suffix) 0 : Int) ≤ intMax) :
    ∃ s' r b r' b', handlePutRequest handler disk s suffix request response = .ok (s', r, b) ∧
      handlePutRequest handler disk s' suffix request response = .ok (s', r', b') := by
  by_cases hname : idNameOf suffix ≠ [] ∧ (idNameOf suffix).all Char.isDigit = true
  · obtain ⟨hne, hdigits⟩ := hname
    have hvalue := stoi_of_digits hne (List.all_eq_true.mp hdigits)
    rw [if_pos (hfits hdigits)] at hvalue
    obtain ⟨r, b, h⟩ := handlePutRequest_state handler disk s request response hne hdigits hvalue
    cases hf : putFiles handler s (entityOf suffix) with
    | none =>
        rw [hf] at h
        exact ⟨s, r, b, r, b, h, h⟩
    | some files =>
        rw [hf] at h
        -- the entity is known now, and the second write goes to the tree of the first
        obtain ⟨r', b', h'⟩ := handlePutRequest_state handler disk
          ⟨register s.fileToId (entityOf suffix) (Nat.ofDigitChars 10 (idNameOf suffix) 0 : Int),
            (writeToFile disk files (pathOf handler suffix) request.body).2⟩
          request response hne hdigits hvalue
        refine ⟨_, r, b, r', b', h, ?_⟩
        rw [h']
        unfold putFiles
        dsimp only
        rw [if_pos (by rw [getElem?_register, if_pos rfl]; simp)]
        dsimp only
        rw [register_again, writeToFile_again]
  · have h : ∀ response, handlePutRequest handler disk s suffix request response =
        .ok (s, prepareNotFoundResponse response, false) := by
      intro response
      unfold handlePutRequest
      dsimp only
      rw [if_neg hname]
    exact ⟨s, _, _, _, _, h response, h response⟩

/-! ## 3. DELETE -/

/-- A DELETE changes nothing, or takes away the file it names. -/
theorem handleDeleteRequest_state (handler : RequestHandler) (s : CrudState) (suffix : Str)
    (response : Response) :
    ∃ s' r b, handleDeleteRequest handler s suffix response = .ok (s', r, b) ∧
      (s' = s ∨ s'.files.lookup (pathOf handler suffix) = none) := by
  unfold handleDeleteRequest
  dsimp only
  split
  · exact ⟨s, _, _, rfl, Or.inl rfl⟩
  · exact ⟨s, _, _, rfl, Or.inl rfl⟩
  · split
    · exact ⟨s, _, _, rfl, Or.inl rfl⟩
    · split
      · exact ⟨s, _, _, rfl, Or.inl rfl⟩
      · split
        · rename_i files hunlink
          exact ⟨_, _, _, rfl, Or.inr (FileTree.lookup_of_unlink hunlink)⟩
        · exact ⟨s, _, _, rfl, Or.inl rfl⟩

theorem handleDeleteRequest_twice :
    ∃ s' r b r' b', handleDeleteRequest handler s suffix response = .ok (s', r, b) ∧
      handleDeleteRequest handler s' suffix response = .ok (s', r', b') := by
  obtain ⟨s', r, b, h, hcase⟩ := handleDeleteRequest_state handler s suffix response
  rcases hcase with rfl | hgone
  · exact ⟨s', r, b, r, b, h, h⟩
  · refine ⟨s', r, b, prepareNotFoundResponse response, false, h, ?_⟩
    unfold handleDeleteRequest
    dsimp only
    rw [hgone]

/-! ## 4. Twice in a row -/

/-- **PUT and DELETE are idempotent**: in every state, with any disk, the second of two equal
    requests leaves the id lists and the tree as the first left them. -/
theorem serve_twice (handler : RequestHandler) (disk : Disk) (s : CrudState) (request : Request)
    (hrequest : request.method = .put ∧ IdFits handler request ∨ request.method = .delete) :
    ∃ s' r r', serve handler disk s request = .ok (s', r) ∧
      serve handler disk s' request = .ok (s', r') := by
  have hserve : ∀ {s s' : CrudState} {r : Response} {b : Bool},
      handleRequest handler disk s request (({ } : Response).set .accessControlAllowOrigin ['*']) =
        .ok (s', r, b) → serve handler disk s request = .ok (s', r) := by
    intro s s' r b h
    unfold serve
    rw [h]
  have htwice : ∃ s' r b r' b',
      handleRequest handler disk s request (({ } : Response).set .accessControlAllowOrigin ['*']) =
          .ok (s', r, b) ∧
        handleRequest handler disk s' request (({ } : Response).set .accessControlAllowOrigin ['*']) =
          .ok (s', r', b') := by
    unfold handleRequest
    cases ht : handler.checkRequestUrl request.target false with
    | none => exact ⟨s, _, _, _, _, rfl, rfl⟩
    | some suffix =>
        rcases hrequest with ⟨hm, hfits⟩ | hm
        · simp only [hm]
          exact handlePutRequest_twice (hfits suffix ht)
        · simp only [hm]
          exact handleDeleteRequest_twice
  obtain ⟨s', r, b, r', b', h, h'⟩ := htwice
  exact ⟨s', r, r', hserve h, hserve h'⟩

/-- A PUT to an entity that is one of the ids: the directory stands in the way of the file. -/
theorem serve_twice_in_the_way : ∃ s' r r',
    serve apiHandler Disk.reliable apiStart (ask .put "/api/5" "x") = .ok (s', r) ∧
      serve apiHandler Disk.reliable s' (ask .put "/api/5" "x") = .ok (s', r') := by
  refine serve_twice _ _ _ _ (Or.inl ⟨rfl, fun suffix ht _ => ?_⟩)
  have h5 : apiHandler.checkRequestUrl "/api/5".toList false = some "5".toList := by decide
  obtain rfl : suffix = "5".toList := Option.some.inj (ht.symm.trans h5)
  decide

end Googolplex.Crud
