/-
  File:      Googolplex/Crud/Concurrent.lean
  Subject:   CRUD REQUESTS OF ALL KINDS ON SEVERAL THREADS: the accesses they make to
             the map and the file tree, in any order (request_handler_crud.cc,
             request_handler.cc).

  A request is a program; `find`, `operator[]` and every system call are an
  access each, the loop over an id list is one. Nobody waits for anybody.

  * `handleRequest_alone`: with nobody in between a program is the handler.
  * `Evolves`: what every access keeps to: keys stay, and directories, but those at
    the place of a key that a DELETE is for; the known keys keep their directories.
  * `concurrent_housed`: in every state of every interleaving the known keys have
    their directories, if their paths lead past no such place; and an entity that was
    answered with success is known.
-/
import Googolplex.Crud.Housed
import Googolplex.FileAccesses

namespace Googolplex.Crud.Concurrent

open Cxx Posix Posix.FileTree RequestHandler Programs FileAccesses

/-- A program of the location. -/
abbrev MapAccesses (α : Type) := Prog CrudState α

/-- The tree of the location. -/
def filesView : View CrudState FileTree where
  get s := s.files
  put files s := { s with files }
  get_put _ _ := rfl
  put_put _ _ _ := rfl

/-- Accesses to the tree. -/
def onFiles {α : Type} (p : Accesses α) : MapAccesses α := p.focus filesView

/-! ## 1. The map -/

/-- `file_to_id_.find(key) != file_to_id_.end()`. -/
def find (key : Str) : MapAccesses Bool := .atomically fun s => (s, decide (s.fileToId[key]? ≠ none))

/-- A copy of `file_to_id_[key]`, which is made if it is missing. -/
def copyOf (key : Str) : MapAccesses (List Int) :=
  .atomically fun s =>
    ({ s with fileToId := s.fileToId.insert key (idsOf s.fileToId key) }, idsOf s.fileToId key)

/-- `file_to_id_[key] = values`. -/
def assign (key : Str) (values : List Int) : MapAccesses Unit :=
  .atomically fun s => ({ s with fileToId := s.fileToId.insert key values }, ())

/-- `file_to_id_[key].push_back(id)`. -/
def pushBack (key : Str) (id : Int) : MapAccesses Unit :=
  .atomically fun s =>
    ({ s with fileToId := s.fileToId.insert key (idsOf s.fileToId key ++ [id]) }, ())

/-- `file_to_id_[key].erase(std::remove(..., value), ...)`. -/
def eraseValue (key : Str) (value : Int) : MapAccesses Unit :=
  .atomically fun s =>
    ({ s with fileToId := s.fileToId.insert key ((idsOf s.fileToId key).filter (· ≠ value)) }, ())

/-- The loop of `get_next_id` over `file_to_id_[key]`. -/
def scan (key : Str) : MapAccesses (Except Fault Int) :=
  .atomically fun s =>
    ({ s with fileToId := s.fileToId.insert key (idsOf s.fileToId key) },
      lowestAvailableId 1 (idsOf s.fileToId key))

/-! ## 2. The members -/

/-- `insert_to_map`. -/
def insertToMap (key : Str) (id : Int) : MapAccesses Bool := do
  if ← find key then
    let idNames ← copyOf key
    if id ∈ idNames then return false
    else
      pushBack key id
      let valuesCopy ← copyOf key
      assign key (valuesCopy.insertionSort (· ≤ ·))
      return true
  else return false

/-- `get_next_id`. -/
def getNextId (key : Str) : MapAccesses (Except Fault Int) := do
  if ← find key then
    match ← scan key with
    | .error e => return .error e
    | .ok lowest =>
      let _ ← insertToMap key lowest
      return .ok lowest
  else
    assign key [1]
    return .ok 1

variable (handler : RequestHandler) (disk : Disk)

/-- What `handle_post_request` begins with: an entity that is not known is made a directory. -/
def housePost (suffix : Str) : MapAccesses Bool := do
  if ← find suffix then return true else onFiles (createDir (pathOf handler suffix))

/-- `handle_post_request`. -/
def handlePostRequest (suffix : Str) (request : Request) (response : Response) :
    MapAccesses RequestResult := do
  if ← housePost handler suffix then
    match ← getNextId suffix with
    | .error e => return .error e
    | .ok value =>
      if ← onFiles (writeToFile disk (pathOf handler suffix ++ '/' :: toStr value) request.body) then
        return .ok (prepareCreatedResponse value response, true)
      else return .ok (prepareInternalServerErrorResponse response, false)
  else return .ok (prepareUnprocessableEntityResponse response, false)

/-- `handle_get_request`. -/
def handleGetRequest (suffix : Str) (response : Response) : MapAccesses RequestResult := do
  let path := pathOf handler suffix
  if ← onFiles (exists_ path) then
    if ← onFiles (isDirectory path) then
      let ids ← copyOf suffix
      let idList := [','].intercalate (ids.map toStr)
      return .ok (response.answer .ok "text/plain".toList ('[' :: idList ++ "]\n".toList), true)
    else
      match ← onFiles (readFromFile path) with
      | .error e => return .error e
      | .ok (some content) =>
        return .ok (Response.preparePayload { response with result := .ok, body := content }, true)
      | .ok none => return .ok (prepareNotFoundResponse response, false)
  else return .ok (prepareNotFoundResponse response, false)

/-- The part of `handle_put_request` that comes to the response: the entity is known or made. -/
def registerPut (entity : Str) (value : Int) (response : Response) : MapAccesses (Option Response) := do
  if ← find entity then
    if ← insertToMap entity value then return some (prepareCreatedResponse value response)
    else return some (updatedResponse value response)
  else if ← onFiles (createDir (pathOf handler entity)) then
    assign entity [value]
    return some (prepareCreatedResponse value response)
  else return none

/-- `handle_put_request`. -/
def handlePutRequest (suffix : Str) (request : Request) (response : Response) :
    MapAccesses RequestResult := do
  let idName := idNameOf suffix
  let entity := entityOf suffix
  if idName ≠ [] ∧ idName.all Char.isDigit then
    match stoi idName with
    | .error _ => return .error .outOfRange
    | .ok value =>
      match ← registerPut handler entity value response with
      | none => return .ok (prepareUnprocessableEntityResponse response, false)
      | some response =>
        if ← onFiles (writeToFile disk (pathOf handler suffix) request.body) then
          return .ok (response, true)
        else return .ok (prepareNotFoundResponse response, false)
  else return .ok (prepareNotFoundResponse response, false)

/-- `handle_delete_request`. -/
def handleDeleteRequest (suffix : Str) (response : Response) : MapAccesses RequestResult := do
  let path := pathOf handler suffix
  if ← onFiles (exists_ path) then
    if ← onFiles (isDirectory path) then return .ok (noFileIdResponse response, false)
    else
      let entity := entityOf suffix
      match stoi (idNameOf suffix) with
      | .error _ => return .ok (noFileIdResponse response, false)
      | .ok value =>
        if ← find entity then
          if ← onFiles (remove path) then
            eraseValue entity value
            return .ok (response.answer .ok "text/plain".toList
              ("Successfully deleted file at /".toList ++ entity ++ ".\n".toList), true)
          else return .ok (prepareInternalServerErrorResponse response, false)
        else return .ok (prepareNotFoundResponse response, false)
  else return .ok (prepareNotFoundResponse response, false)

/-- `handle_request`. -/
def handleRequest (request : Request) (response : Response) : MapAccesses RequestResult :=
  match handler.checkRequestUrl request.target false with
  | none => return .ok (prepareBadRequestResponse response, false)
  | some suffix =>
    match request.method with
    | .post => handlePostRequest handler disk suffix request response
    | .get => handleGetRequest handler suffix response
    | .put => handlePutRequest handler disk suffix request response
    | .delete => handleDeleteRequest handler suffix response
    | _ => return .ok (prepareBadRequestResponse response, false)

/-! ## 3. With nobody in between -/

section Alone

variable {handler disk} (s : CrudState)

@[simp] theorem find_alone (key : Str) :
    (find key).alone s = (s, decide (s.fileToId[key]? ≠ none)) := rfl

@[simp] theorem onFiles_alone {α : Type} (p : Accesses α) : (onFiles p).alone s =
    ({ s with files := (p.alone s.files).1 }, (p.alone s.files).2) := focus_alone filesView p rfl

@[simp] theorem assign_alone (key : Str) (values : List Int) :
    (assign key values).alone s = ({ s with fileToId := s.fileToId.insert key values }, ()) := rfl

/-- `operator[]` on a key that is there changes nothing. -/
theorem copyOf_alone {key : Str} {ids : List Int} (hk : s.fileToId[key]? = some ids) :
    (copyOf key).alone s = (s, ids) := by
  unfold copyOf
  rw [alone_atomically, idsOf_of_some hk, assign_same hk]

theorem scan_alone {key : Str} {ids : List Int} (hk : s.fileToId[key]? = some ids) :
    (scan key).alone s = (s, lowestAvailableId 1 ids) := by
  unfold scan
  rw [alone_atomically, idsOf_of_some hk, assign_same hk]

/-- `insert_to_map`. -/
@[simp] theorem insertToMap_alone (key : Str) (id : Int) : (insertToMap key id).alone s =
    ({ s with fileToId := (Crud.insertToMap s.fileToId key id).2 },
      (Crud.insertToMap s.fileToId key id).1) := by
  unfold insertToMap
  cases hk : s.fileToId[key]? with
  | none =>
      have hno : Crud.insertToMap s.fileToId key id = (false, s.fileToId) := by
        unfold Crud.insertToMap
        rw [hk]
      simp [hk, hno]
  | some ids =>
      rw [insertToMap_known hk]
      rw [alone_bind, find_alone, hk]
      simp only [ne_eq, reduceCtorEq, not_false_eq_true, decide_true, if_true]
      rw [alone_bind, copyOf_alone s hk]
      by_cases hid : id ∈ ids
      · rw [if_pos hid, register_of_mem hk hid]
        simp [hid]
      · have hpushed : ({ s with fileToId := s.fileToId.insert key (ids ++ [id]) } : CrudState
            ).fileToId[key]? = some (ids ++ [id]) := getElem?_assign_self _ _ _
        have hwith : withId id ids = (ids ++ [id]).insertionSort (· ≤ ·) := by
          unfold withId
          rw [if_neg hid]
        dsimp only
        rw [if_neg hid]
        unfold pushBack register
        rw [alone_bind, alone_atomically, idsOf_of_some hk, hwith]
        dsimp only
        rw [alone_bind, copyOf_alone _ hpushed]
        simp [hid, assign_assign]

/-- `get_next_id`. -/
theorem getNextId_alone (key : Str) :
    (∃ e s', Crud.getNextId s.fileToId key = .error e ∧
      (getNextId key).alone s = (s', .error e)) ∨
    ∃ value fileToId, Crud.getNextId s.fileToId key = .ok (value, fileToId) ∧
      (getNextId key).alone s = ({ s with fileToId }, .ok value) := by
  unfold getNextId Crud.getNextId
  rw [alone_bind, find_alone]
  cases hk : s.fileToId[key]? with
  | none => exact Or.inr ⟨1, _, rfl, by simp⟩
  | some ids =>
      simp only [ne_eq, reduceCtorEq, not_false_eq_true, decide_true, if_true]
      rw [alone_bind, scan_alone s hk]
      cases lowestAvailableId 1 ids with
      | error e => exact Or.inl ⟨e, s, rfl, rfl⟩
      | ok lowest => exact Or.inr ⟨lowest, _, rfl, by simp⟩

theorem housePost_alone (suffix : Str) : (housePost handler suffix).alone s =
    ({ s with files := (if s.fileToId[suffix]? = none then
        RequestHandler.createDir s.files (pathOf handler suffix) else (true, s.files)).2 },
      (if s.fileToId[suffix]? = none then
        RequestHandler.createDir s.files (pathOf handler suffix) else (true, s.files)).1) := by
  unfold housePost
  rw [alone_bind, find_alone]
  by_cases hk : s.fileToId[suffix]? = none
  · simp [hk]
  · simp [hk]

theorem handlePostRequest_alone (suffix : Str) (request : Request) (response : Response) :
    outcome ((handlePostRequest handler disk suffix request response).alone s) =
      Crud.handlePostRequest handler disk s suffix request response := by
  unfold handlePostRequest Crud.handlePostRequest
  rw [alone_bind, housePost_alone]
  dsimp only
  generalize (if s.fileToId[suffix]? = none then
    RequestHandler.createDir s.files (pathOf handler suffix) else (true, s.files)) = made
  obtain ⟨created, files⟩ := made
  cases created with
  | false => rfl
  | true =>
      dsimp only
      rw [if_pos rfl, if_neg (by simp), alone_bind]
      rcases getNextId_alone { s with files } suffix with
        ⟨e, s', hid, halone⟩ | ⟨value, fileToId, hid, halone⟩
      · rw [halone, hid]
        rfl
      · rw [halone, hid]
        dsimp only
        rw [alone_bind, onFiles_alone, writeToFile_alone]
        dsimp only
        cases RequestHandler.writeToFile disk files (pathOf handler suffix ++ '/' :: toStr value)
            request.body with
        | mk written files' => cases written <;> rfl

theorem handleGetRequest_alone (suffix : Str) (response : Response) :
    outcome ((handleGetRequest handler suffix response).alone s) =
      Crud.handleGetRequest handler s suffix response := by
  unfold handleGetRequest Crud.handleGetRequest
  rw [alone_bind, onFiles_alone, exists_alone]
  dsimp only
  cases hl : s.files.lookup (pathOf handler suffix) with
  | none => simp [outcome]
  | some node =>
      rw [if_pos (by simp), alone_bind, onFiles_alone, isDirectory_alone, hl]
      cases node with
      | dir => rfl
      | file content =>
          dsimp only
          rw [if_neg (by simp), alone_bind, onFiles_alone, readFromFile_alone]
          have hread : RequestHandler.readFromFile s.files (pathOf handler suffix) =
              .ok (some content) := by
            unfold RequestHandler.readFromFile
            rw [hl]
          rw [hread]
          rfl

theorem registerPut_alone (entity : Str) (value : Int) (response : Response) :
    (registerPut handler entity value response).alone s =
      if s.fileToId[entity]? ≠ none then
        ({ s with fileToId := (Crud.insertToMap s.fileToId entity value).2 },
          some (if (Crud.insertToMap s.fileToId entity value).1 then prepareCreatedResponse value response
            else updatedResponse value response))
      else if (RequestHandler.createDir s.files (pathOf handler entity)).1 then
        (⟨s.fileToId.insert entity [value],
            (RequestHandler.createDir s.files (pathOf handler entity)).2⟩,
          some (prepareCreatedResponse value response))
      else
        ({ s with files := (RequestHandler.createDir s.files (pathOf handler entity)).2 }, none) := by
  unfold registerPut
  rw [alone_bind, find_alone]
  by_cases hk : s.fileToId[entity]? = none
  · rw [if_neg (by simp [hk]), if_neg (by simp [hk]), alone_bind, onFiles_alone, createDir_alone]
    dsimp only
    split <;> rfl
  · rw [if_pos (by simp [hk]), if_pos hk, alone_bind, insertToMap_alone]
    dsimp only
    split <;> rfl

theorem handlePutRequest_alone (suffix : Str) (request : Request) (response : Response) :
    outcome ((handlePutRequest handler disk suffix request response).alone s) =
      Crud.handlePutRequest handler disk s suffix request response := by
  unfold handlePutRequest Crud.handlePutRequest
  dsimp only
  by_cases hname : idNameOf suffix ≠ [] ∧ (idNameOf suffix).all Char.isDigit = true
  · rw [if_pos hname, if_pos hname]
    cases stoi (idNameOf suffix) with
    | error f => rfl
    | ok value =>
        dsimp only
        rw [alone_bind, registerPut_alone]
        by_cases hk : s.fileToId[entityOf suffix]? = none
        · simp only [hk, ne_eq, not_true_eq_false, if_false]
          generalize RequestHandler.createDir s.files (pathOf handler (entityOf suffix)) = made
          obtain ⟨created, files⟩ := made
          cases created with
          | false => rfl
          | true =>
              simp only [if_true, Bool.true_eq_false, if_false]
              rw [alone_bind, onFiles_alone, writeToFile_alone]
              dsimp only
              cases RequestHandler.writeToFile disk files (pathOf handler suffix) request.body with
              | mk written files' => cases written <;> rfl
        · simp only [hk, ne_eq, not_false_eq_true, if_true, Bool.true_eq_false, if_false]
          rw [alone_bind, onFiles_alone, writeToFile_alone]
          dsimp only
          cases RequestHandler.writeToFile disk s.files (pathOf handler suffix) request.body with
          | mk written files' => cases written <;> rfl
  · rw [if_neg hname, if_neg hname]
    rfl

theorem handleDeleteRequest_alone (suffix : Str) (response : Response) :
    outcome ((handleDeleteRequest handler suffix response).alone s) =
      Crud.handleDeleteRequest handler s suffix response := by
  unfold handleDeleteRequest Crud.handleDeleteRequest
  rw [alone_bind, onFiles_alone, exists_alone]
  dsimp only
  cases hl : s.files.lookup (pathOf handler suffix) with
  | none => simp [outcome]
  | some node =>
      rw [if_pos (by simp), alone_bind, onFiles_alone, isDirectory_alone, hl]
      cases node with
      | dir => rfl
      | file content =>
          dsimp only
          rw [if_neg (by simp)]
          cases stoi (idNameOf suffix) with
          | error f => rfl
          | ok value =>
              dsimp only
              rw [alone_bind, find_alone]
              cases hk : s.fileToId[entityOf suffix]? with
              | none => rfl
              | some ids =>
                  dsimp only
                  have hno : s.files.lookup (pathOf handler suffix) ≠ some .dir := by
                    rw [hl]
                    simp
                  rw [if_pos (by simp), alone_bind, onFiles_alone, remove_alone _ hno]
                  cases s.files.unlink (pathOf handler suffix) with
                  | none => rfl
                  | some files =>
                      dsimp only [Option.isSome_some, Option.getD_some]
                      rw [if_pos rfl]
                      unfold eraseValue
                      rw [alone_bind, alone_atomically, idsOf_of_some hk]
                      rfl

/-- **With nobody in between the accesses are the handler.** -/
theorem handleRequest_alone (request : Request) (response : Response) :
    outcome ((handleRequest handler disk request response).alone s) =
      Crud.handleRequest handler disk s request response := by
  unfold handleRequest Crud.handleRequest
  cases handler.checkRequestUrl request.target false with
  | none => rfl
  | some suffix =>
      cases request.method with
      | post => exact handlePostRequest_alone s suffix request response
      | get => exact handleGetRequest_alone s suffix response
      | put => exact handlePutRequest_alone s suffix request response
      | delete => exact handleDeleteRequest_alone s suffix response
      | head | options | trace | other => rfl

end Alone

/-! ## 4. What every access keeps to -/

/-- The key is known. -/
def Known (key : Str) (s : CrudState) : Prop := s.fileToId[key]? ≠ none

/-- There is a directory for the key. -/
def Room (handler : RequestHandler) (key : Str) (s : CrudState) : Prop :=
  s.files.lookup (pathOf handler key) = some .dir

/-- There is, if the path of the key is spared. -/
def RoomBut (gone : Path → Path → Prop) (handler : RequestHandler) (key : Str) (s : CrudState) : Prop :=
  Spared gone s.files.cwd (pathOf handler key) → Room handler key s

/-- The known keys whose paths are spared have their directories. -/
def HousedBut (gone : Path → Path → Prop) (handler : RequestHandler) (s : CrudState) : Prop :=
  ∀ key, Known key s → RoomBut gone handler key s

/-- **Directories stay**, but those that are `gone`, and keys; and the known keys keep their
    directories. -/
structure Evolves (gone : Path → Path → Prop) (handler : RequestHandler) (s s' : CrudState) :
    Prop where
  grows : GrowsBut gone s.files s'.files
  keys : ∀ key, Known key s → Known key s'
  housed : HousedBut gone handler s → HousedBut gone handler s'

/-- A DELETE whose key ends in a number may remove what is at the place of the key. -/
def Removes (handler : RequestHandler) (request : Request) (cwd p : Path) : Prop :=
  request.method = .delete ∧ ∃ key value, handler.checkRequestUrl request.target false = some key ∧
    stoi (idNameOf key) = .ok value ∧ p = placeOf cwd (pathOf handler key)

section Rules

variable {gone : Path → Path → Prop} {handler disk} {J : CrudState → Prop} {key : Str}

theorem RoomBut.grows {s s' : CrudState} (h : RoomBut gone handler key s)
    (hg : GrowsBut gone s.files s'.files) : RoomBut gone handler key s' := by
  intro hspared
  rw [hg.inCwd] at hspared
  exact hg.lookup hspared (h hspared)

theorem HousedBut.empty (gone : Path → Path → Prop) (handler : RequestHandler) (files : FileTree) :
    HousedBut gone handler ⟨∅, files⟩ := fun _ hk => absurd Std.ExtTreeMap.getElem?_empty hk

theorem Evolves.of_files {s : CrudState} {files : FileTree} (hg : GrowsBut gone s.files files) :
    Evolves gone handler s { s with files } where
  grows := hg
  keys _ hk := hk
  housed h key hk := (h key hk).grows hg

theorem Evolves.refl (s : CrudState) : Evolves gone handler s s := .of_files (.refl s.files)

theorem Evolves.of_insert {s : CrudState} (hroom : RoomBut gone handler key s) (ids : List Int) :
    Evolves gone handler s { s with fileToId := s.fileToId.insert key ids } where
  grows := .refl s.files
  keys k hk := by
    unfold Known
    rw [getElem?_assign]
    split
    · simp
    · exact hk
  housed h k hk := by
    unfold Known at hk
    rw [getElem?_assign] at hk
    split at hk
    · rename_i heq
      exact heq ▸ hroom
    · exact h k hk

theorem stable_housed : Stable (Evolves gone handler) (HousedBut gone handler) :=
  fun _ _ h hE => hE.housed h

theorem stable_known : Stable (Evolves gone handler) (Known key) := fun _ _ h hE => hE.keys key h

theorem stable_room : Stable (Evolves gone handler) (RoomBut gone handler key) :=
  fun _ _ h hE => h.grows hE.grows

/-- A directory that is spared stays. -/
theorem stable_spared {path : Str} :
    Stable (GrowsBut gone) fun t => Spared gone t.cwd path → t.lookup path = some .dir := by
  intro t t' h hg hspared
  rw [hg.inCwd] at hspared
  exact hg.lookup hspared (h hspared)

/-- An access that only looks. -/
theorem meets_look {α : Type} {f : CrudState → α} {Q : α → CrudState → Prop}
    (hQ : ∀ a, Stable (Evolves gone handler) (Q a)) (h : ∀ s, J s → Q (f s) s) :
    (Prog.atomically fun s => (s, f s)).Meets (Evolves gone handler) Q J :=
  meets_atomically hQ fun s hs => ⟨Evolves.refl s, h s hs⟩

/-- **An access that assigns a key** that there is a directory for: it is known afterwards. -/
theorem meets_insert {α : Type} {f : CrudState → α} {ids : CrudState → List Int}
    (hJ : Stable (Evolves gone handler) J) (hroom : ∀ s, J s → RoomBut gone handler key s) :
    (Prog.atomically fun s => ({ s with fileToId := s.fileToId.insert key (ids s) }, f s)).Meets
      (Evolves gone handler) (fun _ s => J s ∧ Known key s) J := by
  refine meets_atomically (fun _ => hJ.and stable_known) fun s hs => ?_
  have hE : Evolves gone handler s { s with fileToId := s.fileToId.insert key (ids s) } :=
    Evolves.of_insert (hroom s hs) (ids s)
  refine ⟨hE, hJ _ _ hs hE, ?_⟩
  show (s.fileToId.insert key (ids s))[key]? ≠ none
  rw [getElem?_assign_self]
  simp

/-- **Accesses to the tree**: what they meet there, and what is known already. -/
theorem onFiles_meets {α : Type} {p : Accesses α} {Q : α → FileTree → Prop}
    (hJ : Stable (Evolves gone handler) J) (h : p.Meets (GrowsBut gone) Q fun _ => True) :
    (onFiles p).Meets (Evolves gone handler) (fun a s => J s ∧ Q a s.files) J := by
  have hfocus : (p.focus filesView).Meets (Evolves gone handler) (fun a s => Q a (filesView.get s))
      fun _ => True :=
    meets_focus (fun _ _ hg => Evolves.of_files hg)
      (fun s s' (hE : Evolves gone handler s s') => hE.grows) h
  exact (hfocus.frame hJ).weaken (fun s hs => ⟨hs, trivial⟩) fun _ _ hs => hs

/-- Accesses to the tree, of which nothing is kept in mind. -/
theorem keeps_files {α : Type} {p : Accesses α} (hJ : Stable (Evolves gone handler) J)
    (h : p.Keeps (GrowsBut gone)) : (onFiles p).Meets (Evolves gone handler) (fun _ => J) J :=
  (keeps_focus (fun _ _ hg => Evolves.of_files hg) h).meets hJ

/-- **`create_dir`** leaves room when it returns true. -/
theorem createDir_room (hJ : Stable (Evolves gone handler) J) :
    (onFiles (createDir (pathOf handler key))).Meets (Evolves gone handler)
      (fun b s => J s ∧ (b = true → RoomBut gone handler key s)) J :=
  onFiles_meets hJ (@createDir_meets _ _ (Spared gone · (pathOf handler key)) (allows_growsBut _)
    stable_spared)

/-- `is_directory` tells of room. -/
theorem isDirectory_room (hJ : Stable (Evolves gone handler) J) :
    (onFiles (isDirectory (pathOf handler key))).Meets (Evolves gone handler)
      (fun b s => J s ∧ (b = true → RoomBut gone handler key s)) J :=
  onFiles_meets hJ (@isDirectory_meets _ _ (Spared gone · (pathOf handler key)) GrowsBut.refl
    stable_spared)

theorem find_meets (hJ : Stable (Evolves gone handler) J) :
    (find key).Meets (Evolves gone handler) (fun b s => J s ∧ (b = true → Known key s)) J :=
  meets_look (fun _ => hJ.and stable_known.imp) fun s hs => ⟨hs, fun h => by simpa [Known] using h⟩

/-- `insert_to_map`. -/
theorem insertToMap_meets (hJ : Stable (Evolves gone handler) J)
    (hH : ∀ s, J s → HousedBut gone handler s) (id : Int) :
    (insertToMap key id).Meets (Evolves gone handler) (fun _ => J) J := by
  unfold insertToMap
  refine meets_bind (find_meets hJ) fun b => ?_
  split
  · rename_i hb
    have hK : Stable (Evolves gone handler) fun s => J s ∧ Known key s := hJ.and stable_known
    have hroom : ∀ s, J s ∧ Known key s → RoomBut gone handler key s :=
      fun s hs => hH s hs.1 key hs.2
    have hstep : ∀ {α : Type} {f : CrudState → α} {ids : CrudState → List Int},
        (Prog.atomically fun s => ({ s with fileToId := s.fileToId.insert key (ids s) }, f s)).Meets
          (Evolves gone handler) (fun _ s => J s ∧ Known key s) fun s => J s ∧ Known key s :=
      fun {_ _ _} => (meets_insert hK hroom).weaken (fun _ hs => hs) fun _ _ hs => hs.1
    refine meets_bind (hstep.weaken (fun s hs => ⟨hs.1, hs.2 hb⟩) fun _ _ hs => hs) fun idNames => ?_
    split
    · exact meets_pure fun _ hs => hs.1
    · refine meets_bind hstep fun _ => meets_bind hstep fun valuesCopy => ?_
      exact meets_bind hstep fun _ => meets_pure fun _ hs => hs.1
  · exact meets_pure fun _ hs => hs.1

/-- `get_next_id`. -/
theorem getNextId_meets (hJ : Stable (Evolves gone handler) J)
    (hH : ∀ s, J s → HousedBut gone handler s) (hroom : ∀ s, J s → RoomBut gone handler key s) :
    (getNextId key).Meets (Evolves gone handler) (fun _ s => J s ∧ Known key s) J := by
  have hK : Stable (Evolves gone handler) fun s => J s ∧ Known key s := hJ.and stable_known
  unfold getNextId
  refine meets_bind (find_meets hJ) fun b => ?_
  split
  · rename_i hb
    refine meets_bind ((meets_insert hJ hroom).weaken (fun s hs => hs.1) fun _ _ hs => hs) fun r => ?_
    cases r with
    | error e => exact meets_pure fun _ hs => hs
    | ok lowest =>
        exact meets_bind (insertToMap_meets hK (fun s hs => hH s hs.1) lowest) fun _ =>
          meets_pure fun _ hs => hs
  · refine meets_bind ((meets_insert hJ hroom).weaken (fun s hs => hs.1) fun _ _ hs => hs) fun _ => ?_
    exact meets_pure fun _ hs => hs

/-- **What an answer of success tells**: the entity is known. -/
def Told (e : Str) (answer : RequestResult) (s : CrudState) : Prop :=
  ∀ response b, answer = .ok (response, b) → Acknowledged response → Known e s

theorem meets_known {answer : RequestResult} (h : ∀ s, J s → Known key s) :
    (pure answer : MapAccesses RequestResult).Meets (Evolves gone handler) (Told key) J :=
  meets_pure fun s hs _ _ _ _ => h s hs

/-- An error answer tells nothing. -/
theorem meets_refused {response : Response} {b : Bool} (h : 400 ≤ response.result.toNat) :
    (pure (.ok (response, b)) : MapAccesses RequestResult).Meets (Evolves gone handler) (Told key)
      J := by
  refine meets_pure fun s _ r b' heq hack => ?_
  cases heq
  exact absurd hack (not_acknowledged h)

theorem handlePostRequest_meets (suffix : Str) (request : Request) (response : Response) :
    (handlePostRequest handler disk suffix request response).Meets (Evolves gone handler) (Told suffix)
      (HousedBut gone handler) := by
  have hhouse : (housePost handler suffix).Meets (Evolves gone handler)
      (fun b s => HousedBut gone handler s ∧ (b = true → RoomBut gone handler suffix s))
      (HousedBut gone handler) := by
    unfold housePost
    refine meets_bind (find_meets stable_housed) fun b => ?_
    split
    · rename_i hb
      exact meets_pure fun s hs => ⟨hs.1, fun _ => hs.1 suffix (hs.2 hb)⟩
    · exact (createDir_room stable_housed).weaken (fun s hs => hs.1) fun _ _ hs => hs
  unfold handlePostRequest
  refine meets_bind hhouse fun b => ?_
  split
  · rename_i hb
    have hJ : Stable (Evolves gone handler)
        fun s => HousedBut gone handler s ∧ RoomBut gone handler suffix s :=
      stable_housed.and stable_room
    refine meets_bind ((getNextId_meets hJ (fun _ hs => hs.1) fun _ hs => hs.2).weaken
      (fun s hs => ⟨hs.1, hs.2 hb⟩) fun _ _ hs => hs) fun r => ?_
    cases r with
    | error e => exact meets_known fun s hs => hs.2
    | ok value =>
        refine meets_bind (keeps_files (hJ.and stable_known) (writeToFile_keeps (allows_growsBut _)))
          fun b => ?_
        split
        · exact meets_known fun s hs => hs.2
        · exact meets_known fun s hs => hs.2
  · exact meets_refused (by simp [prepareUnprocessableEntityResponse, Status.toNat])

theorem handlePutRequest_meets (suffix : Str) (request : Request) (response : Response) :
    (handlePutRequest handler disk suffix request response).Meets (Evolves gone handler)
      (Told (entityOf suffix)) (HousedBut gone handler) := by
  have hregister : ∀ value, (registerPut handler (entityOf suffix) value response).Meets
      (Evolves gone handler)
      (fun r s => HousedBut gone handler s ∧ (r.isSome = true → Known (entityOf suffix) s))
      (HousedBut gone handler) := by
    intro value
    unfold registerPut
    refine meets_bind (find_meets stable_housed) fun b => ?_
    split
    · rename_i hb
      have hJ : Stable (Evolves gone handler)
          fun s => HousedBut gone handler s ∧ Known (entityOf suffix) s :=
        stable_housed.and stable_known
      refine meets_bind ((insertToMap_meets hJ (fun s hs => hs.1) value).weaken
        (fun s hs => ⟨hs.1, hs.2 hb⟩) fun _ _ hs => hs) fun inserted => ?_
      split <;> exact meets_pure fun s hs => ⟨hs.1, fun _ => hs.2⟩
    · refine meets_bind ((createDir_room stable_housed).weaken (fun s hs => hs.1)
        fun _ _ hs => hs) fun made => ?_
      split
      · rename_i hmade
        have hJ : Stable (Evolves gone handler)
            fun s => HousedBut gone handler s ∧ RoomBut gone handler (entityOf suffix) s :=
          stable_housed.and stable_room
        refine meets_bind ((meets_insert hJ fun s hs => hs.2).weaken
          (fun s hs => ⟨hs.1, hs.2 hmade⟩) fun _ _ hs => hs) fun _ => ?_
        exact meets_pure fun s hs => ⟨hs.1.1, fun _ => hs.2⟩
      · exact meets_pure fun s hs => ⟨hs.1, fun h => by cases h⟩
  unfold handlePutRequest
  dsimp only
  split
  · split
    · exact meets_pure fun s _ r b h => by cases h
    · refine meets_bind (hregister _) fun r => ?_
      cases r with
      | none => exact meets_refused (by simp [prepareUnprocessableEntityResponse, Status.toNat])
      | some response =>
          refine meets_bind (keeps_files (stable_housed.and stable_known.imp)
            (writeToFile_keeps (allows_growsBut _))) fun b => ?_
          split
          · exact meets_known fun s hs => hs.2 rfl
          · exact meets_refused (by simp [prepareNotFoundResponse, Status.toNat])
  · exact meets_refused (by simp [prepareNotFoundResponse, Status.toNat])

theorem handleGetRequest_meets (suffix : Str) (response : Response) :
    (handleGetRequest handler suffix response).Meets (Evolves gone handler)
      (fun _ => HousedBut gone handler) (HousedBut gone handler) := by
  unfold handleGetRequest
  refine meets_bind (keeps_files stable_housed (exists_keeps GrowsBut.refl)) fun there => ?_
  split
  · refine meets_bind (isDirectory_room stable_housed) fun b => ?_
    split
    · rename_i hb
      have hJ : Stable (Evolves gone handler)
          fun s => HousedBut gone handler s ∧ RoomBut gone handler suffix s :=
        stable_housed.and stable_room
      refine meets_bind ((meets_insert hJ fun s hs => hs.2).weaken (fun s hs => ⟨hs.1, hs.2 hb⟩)
        fun _ _ hs => hs) fun ids => ?_
      exact meets_pure fun s hs => hs.1.1
    · refine meets_bind ((keeps_files stable_housed (readFromFile_keeps GrowsBut.refl)).weaken
        (fun s hs => hs.1) fun _ _ hs => hs) fun content => ?_
      split <;> exact meets_pure fun s hs => hs
  · exact meets_pure fun s hs => hs

theorem handleDeleteRequest_meets (suffix : Str) (response : Response)
    (hgone : ∀ value, stoi (idNameOf suffix) = .ok value →
      ∀ cwd, gone cwd (placeOf cwd (pathOf handler suffix))) :
    (handleDeleteRequest handler suffix response).Meets (Evolves gone handler)
      (fun _ => HousedBut gone handler) (HousedBut gone handler) := by
  unfold handleDeleteRequest
  refine meets_bind (keeps_files stable_housed (exists_keeps GrowsBut.refl)) fun there => ?_
  split
  · refine meets_bind (keeps_files stable_housed (isDirectory_keeps GrowsBut.refl)) fun b => ?_
    split
    · exact meets_pure fun s hs => hs
    · dsimp only
      cases hid : stoi (idNameOf suffix) with
      | error f => exact meets_pure fun s hs => hs
      | ok value =>
        refine meets_bind (find_meets stable_housed) fun known => ?_
        split
        · rename_i hknown
          have hJ : Stable (Evolves gone handler)
              fun s => HousedBut gone handler s ∧ Known (entityOf suffix) s :=
            stable_housed.and stable_known
          have hremove : (remove (pathOf handler suffix)).Keeps (GrowsBut gone) :=
            remove_keeps (removal_growsBut (hgone value hid))
          refine meets_bind ((keeps_files hJ hremove).weaken (fun s hs => ⟨hs.1, hs.2 hknown⟩)
            fun _ _ hs => hs) fun removed => ?_
          split
          · refine meets_bind (meets_insert hJ fun s hs => hs.1 _ hs.2) fun _ => ?_
            exact meets_pure fun s hs => hs.1.1
          · exact meets_pure fun s hs => hs.1
        · exact meets_pure fun s hs => hs.1
  · exact meets_pure fun s hs => hs

/-- The entity a POST or PUT is for. -/
def entityNamed (handler : RequestHandler) (request : Request) : Option Str :=
  match handler.checkRequestUrl request.target false, request.method with
  | some suffix, .post => some suffix
  | some suffix, .put => some (entityOf suffix)
  | _, _ => none

theorem handleRequest_meets (request : Request) (response : Response)
    (hgone : ∀ cwd p, Removes handler request cwd p → gone cwd p) :
    (handleRequest handler disk request response).Meets (Evolves gone handler)
      (fun answer s => ∀ e, entityNamed handler request = some e → Told e answer s)
      (HousedBut gone handler) := by
  unfold handleRequest entityNamed
  cases hkey : handler.checkRequestUrl request.target false with
  | none => exact meets_pure fun s _ e he => by cases he
  | some suffix =>
      have hnone : ∀ {p : MapAccesses RequestResult} {Q : RequestResult → CrudState → Prop},
          p.Meets (Evolves gone handler) Q (HousedBut gone handler) → p.Meets (Evolves gone handler)
            (fun answer s => ∀ e, (none : Option Str) = some e → Told e answer s)
            (HousedBut gone handler) :=
        fun h => h.weaken (fun _ hs => hs) fun _ _ _ e he => by cases he
      have hsome : ∀ {p : MapAccesses RequestResult} {e : Str},
          p.Meets (Evolves gone handler) (Told e) (HousedBut gone handler) →
            p.Meets (Evolves gone handler) (fun answer s => ∀ e', some e = some e' → Told e' answer s)
              (HousedBut gone handler) :=
        fun h => h.weaken (fun _ hs => hs) fun _ _ ht e he => Option.some.inj he ▸ ht
      cases hmethod : request.method with
      | post => exact hsome (handlePostRequest_meets suffix request response)
      | put => exact hsome (handlePutRequest_meets suffix request response)
      | get => exact hnone (handleGetRequest_meets suffix response)
      | delete =>
          exact hnone (handleDeleteRequest_meets suffix response fun value hid cwd =>
            hgone cwd _ ⟨hmethod, suffix, value, hkey, hid, rfl⟩)
      | head | options | trace | other =>
          exact hnone (Q := fun _ => HousedBut gone handler) (meets_pure fun s hs => hs)

end Rules

/-! ## 5. Every interleaving -/

/-- Requests that come to the location at once, before their first access. -/
def crowd {ι : Type} (handler : RequestHandler) (disk : ι → Disk) (requests : ι → Request)
    (s : CrudState) : Pool ι CrudState RequestResult :=
  ⟨s, fun i => handleRequest handler (disk i) (requests i) freshResponse⟩

/-- What one of the requests may remove. -/
def RemovesAny {ι : Type} (handler : RequestHandler) (requests : ι → Request) (cwd p : Path) : Prop :=
  ∃ i, Removes handler (requests i) cwd p

/-- **In every state of every interleaving** of the accesses of any number of requests a known entity
    has its directory, unless its path leads past what a DELETE may remove, or to it; and the entity
    of a POST or PUT that was answered with success is known from then on. -/
theorem concurrent_housed {ι : Type} [DecidableEq ι] (handler : RequestHandler) (disk : ι → Disk)
    (requests : ι → Request) (files : FileTree) (schedule : List ι) :
    let pool := (crowd handler disk requests ⟨∅, files⟩).run schedule
    (∀ key, Known key pool.shared →
        Spared (RemovesAny handler requests) files.cwd (pathOf handler key) →
          Room handler key pool.shared) ∧
      ∀ i response b e, pool.progs i = .done (.ok (response, b)) → Acknowledged response →
        entityNamed handler (requests i) = some e → Known e pool.shared := by
  intro pool
  let gone := RemovesAny handler requests
  have hstart : (crowd handler disk requests ⟨∅, files⟩).Sound (Evolves gone handler)
      fun i answer s => ∀ e, entityNamed handler (requests i) = some e → Told e answer s :=
    fun i => ⟨HousedBut gone handler, stable_housed, .empty gone handler files,
      handleRequest_meets _ _ fun _ _ h => ⟨i, h⟩⟩
  have hstable : Stable (Evolves gone handler)
      fun s => HousedBut gone handler s ∧ s.files.cwd = files.cwd :=
    stable_housed.and fun _ _ h hE => hE.grows.inCwd.trans h
  obtain ⟨hsound, hhoused, hcwd⟩ :=
    Pool.run_meets hstable schedule hstart ⟨.empty gone handler files, rfl⟩
  refine ⟨fun key hknown hspared => hhoused key hknown (hcwd.symm ▸ hspared), ?_⟩
  exact fun i response b e hdone hack he => hsound.post hdone e he response b rfl hack

/-- Two DELETEs of one file, and a POST to the key the file had. -/
def crossing : Fin 4 → Request
  | 0 => ask .post "/api/e" "A"
  | 1 => ask .delete "/api/e/1" ""
  | 2 => ask .delete "/api/e/1" ""
  | 3 => ask .post "/api/e/1" "B"

/-- The first DELETE is past its checks when the second removes the file and the POST makes a directory
    there; it goes on before the POST writes. -/
def lateRemoval : List (Fin 4) :=
  List.replicate 7 0 ++ List.replicate 3 1 ++ List.replicate 5 2 ++ List.replicate 5 3 ++
    List.replicate 3 1 ++ List.replicate 2 3

/-- **A directory that is not spared can go**: the POST is answered with success, and its entity is
    known and has no directory. -/
theorem lateRemoval_unhoused :
    let pool := (crowd apiHandler (fun _ => Disk.reliable) crossing ⟨∅, apiStart.files⟩).run lateRemoval
    ((pool.progs 3).result.bind Except.toOption).map (fun answer => answer.1.result) =
        some .created ∧
      Known "e/1".toList pool.shared ∧ ¬ Room apiHandler "e/1".toList pool.shared := by
  unfold Known Room
  decide +kernel

end Googolplex.Crud.Concurrent
