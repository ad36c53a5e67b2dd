/-
  File:      Googolplex/Crud/Local.lean
  Subject:   A CRUD REQUEST SEES ITS OWN PART OF THE LOCATION ONLY, and changes nothing else
             (request_handler_crud.cc).

  * `Part`: some keys, with what belongs to them of the map and the tree.
  * `handleRequest_own`: on states that are the same to the part every access does
    the same.
  * `handleRequest_sees`, `handleRequest_changes`: the whole location, if no name in the
    target is `..`.
-/
import Googolplex.Crud.Concurrent
import Googolplex.Crud.Confinement

namespace Googolplex.Crud.Concurrent

open Cxx Posix Posix.FileTree RequestHandler Programs FileAccesses

/-! ## 1. Keys that do not go up -/

theorem noUp_nil : NoUp [] := by decide

theorem noUp_slashes {key : Str} (n : Nat) (h : NoUp (key ++ List.replicate n '/')) : NoUp key := by
  cases n with
  | zero => simpa using h
  | succ n => exact (noUp_append_iff.mp h).1

/-- The key of a target that does not go up does not. -/
theorem noUp_key {handler : RequestHandler} {url key : Str} {forGet : Bool} (h : NoUp url)
    (hkey : handler.checkRequestUrl url forGet = some key) : NoUp key := by
  unfold checkRequestUrl at hkey
  dsimp only at hkey
  split at hkey
  · rename_i hpre
    obtain ⟨⟨rest, rfl⟩, _⟩ := hpre
    rw [List.drop_left] at hkey
    have hrest : NoUp rest := by
      rw [show handler.prefix_ ++ ['/'] ++ rest = handler.prefix_ ++ '/' :: rest by simp] at h
      exact (noUp_append_iff.mp h).2
    obtain ⟨n, hn⟩ := rdropWhile_slashes rest
    rw [hn] at hrest
    rw [← Option.some.inj hkey]
    exact noUp_slashes n hrest
  · split at hkey
    · rw [← Option.some.inj hkey]
      exact noUp_nil
    · split at hkey
      · rw [← Option.some.inj hkey]
        exact noUp_nil
      · cases hkey

theorem noUp_entityOf {key : Str} (h : NoUp key) : NoUp (entityOf key) := by
  rcases suffix_cut key with ⟨_, _, hentity⟩ | ⟨hcut, _⟩
  · rw [hentity]
    exact h
  · rw [hcut] at h
    exact (noUp_append_iff.mp h).1

/-! ## 2. Parts of a location -/

/-- **A part of a location**: keys with the keys that requests make of them, what is the same to the
    part of two maps and trees, and what its requests may do to a map and a tree. -/
structure Part (handler : RequestHandler) where
  keys : Str → Prop
  entity : ∀ {key}, keys key → keys (entityOf key)
  child : ∀ {key} (value : Int), keys key → keys (key ++ '/' :: toStr value)
  sameMap : FileToId → FileToId → Prop
  found : ∀ {m m' key}, sameMap m m' → keys key → m[key]? = m'[key]?
  inserted : ∀ {m m'} (key : Str) (ids : List Int), sameMap m m' →
    sameMap (m.insert key ids) (m'.insert key ids)
  mapStep : FileToId → FileToId → Prop
  refl : ∀ m, mapStep m m
  insert : ∀ {key} (m : FileToId) (ids : List Int), keys key → mapStep m (m.insert key ids)
  sameTree : FileTree → FileTree → Prop
  alike : ∀ {key}, keys key → CallsAlike sameTree (pathOf handler key)
  treeStep : FileTree → FileTree → Prop
  allows : ∀ {key}, keys key → Allows treeStep (pathOf handler key)
  still : ∀ t, treeStep t t
  /-- What is known of the trees. -/
  inv : FileTree → Prop
  known : ∀ {t t'}, sameTree t t' → inv t
  /-- What a DELETE has found to be no directory can be removed. -/
  removal : ∀ {key t}, keys key → inv t → t.lookup (pathOf handler key) ≠ some .dir →
    RemovalAlike sameTree (pathOf handler key) ∧ AllowsRemoval treeStep (pathOf handler key)

section

variable {handler : RequestHandler} {disk : Disk} {key : Str} {request : Request}
  {response : Response} (part : Part handler)

/-- What belongs to the part is the same. -/
def Part.Same (s s' : CrudState) : Prop :=
  part.sameMap s.fileToId s'.fileToId ∧ part.sameTree s.files s'.files

/-- No more is changed than the part may change. -/
def Part.Changes (s s' : CrudState) : Prop :=
  part.mapStep s.fileToId s'.fileToId ∧ part.treeStep s.files s'.files

/-- What is known of a state. -/
def Part.In (s : CrudState) : Prop := part.inv s.files

/-- A program of the part. -/
abbrev Part.Own {α : Type} (p : MapAccesses α) : Prop := p.Local part.Same part.In part.Changes

variable {part}

/-- An access to the list of a key. -/
theorem list_own {α : Type} (g : Option (List Int) → List Int) (f : Option (List Int) → α)
    (hkey : part.keys key) : part.Own (Prog.atomically fun s =>
      ({ s with fileToId := s.fileToId.insert key (g s.fileToId[key]?) }, f s.fileToId[key]?)) := by
  refine ⟨sees_atomically fun s s' h => ?_, (keeps_atomically fun s => ?_).keepsIn⟩
  · dsimp only
    rw [part.found h.1 hkey]
    exact ⟨⟨part.inserted key _ h.1, h.2⟩, rfl⟩
  · exact ⟨part.insert s.fileToId _ hkey, part.still s.files⟩

theorem find_own (hkey : part.keys key) : part.Own (find key) := by
  refine ⟨sees_atomically fun s s' h => ⟨h, ?_⟩, (keeps_atomically fun s => ?_).keepsIn⟩
  · simp only [part.found h.1 hkey]
  · exact ⟨part.refl s.fileToId, part.still s.files⟩

theorem copyOf_own (hkey : part.keys key) : part.Own (copyOf key) :=
  list_own (·.getD []) (·.getD []) hkey

theorem assign_own {values : List Int} (hkey : part.keys key) : part.Own (assign key values) :=
  list_own (fun _ => values) (fun _ => ()) hkey

theorem pushBack_own {id : Int} (hkey : part.keys key) : part.Own (pushBack key id) :=
  list_own (·.getD [] ++ [id]) (fun _ => ()) hkey

theorem eraseValue_own {value : Int} (hkey : part.keys key) : part.Own (eraseValue key value) :=
  list_own (fun ids => (ids.getD []).filter (· ≠ value)) (fun _ => ()) hkey

theorem scan_own (hkey : part.keys key) : part.Own (scan key) :=
  list_own (·.getD []) (fun ids => lowestAvailableId 1 (ids.getD [])) hkey

/-- Accesses to the tree. -/
theorem onFiles_own {α : Type} {p : Accesses α} (hsees : p.Sees part.sameTree)
    (hkeeps : p.Keeps part.treeStep) : part.Own (onFiles p) :=
  ⟨sees_focus (fun _ _ h => h.2) (fun _ _ _ _ h ha => ⟨h.1, ha⟩) hsees,
    (keeps_focus (fun s _ h => ⟨part.refl s.fileToId, h⟩) hkeeps).keepsIn⟩

theorem exists_own (hkey : part.keys key) : part.Own (onFiles (exists_ (pathOf handler key))) :=
  onFiles_own (exists_sees (part.alike hkey).lookup) (exists_keeps part.still)

theorem isDirectory_own (hkey : part.keys key) :
    part.Own (onFiles (isDirectory (pathOf handler key))) :=
  onFiles_own (isDirectory_sees (part.alike hkey).lookup) (isDirectory_keeps part.still)

theorem readFromFile_own (hkey : part.keys key) :
    part.Own (onFiles (FileAccesses.readFromFile (pathOf handler key))) :=
  onFiles_own (readFromFile_sees (part.alike hkey).lookup) (readFromFile_keeps part.still)

theorem createDir_own (hkey : part.keys key) :
    part.Own (onFiles (FileAccesses.createDir (pathOf handler key))) :=
  onFiles_own (createDir_sees (part.alike hkey).lookup (part.alike hkey).mkdir)
    (createDir_keeps (part.allows hkey))

theorem writeToFile_own {content : Str} (hkey : part.keys key) :
    part.Own (onFiles (FileAccesses.writeToFile disk (pathOf handler key) content)) :=
  onFiles_own (writeToFile_sees (part.alike hkey).lookup (part.alike hkey).openWrite)
    (writeToFile_keeps (part.allows hkey))

/-- `is_directory`, and what is done after it; if it is false, the path can be removed. -/
theorem isDirectory_look {α : Type} {next : Bool → MapAccesses α} (hkey : part.keys key)
    (hdir : part.Own (next true))
    (hno : part.Own (onFiles (FileAccesses.remove (pathOf handler key))) → part.Own (next false)) :
    part.Own (onFiles (isDirectory (pathOf handler key)) >>= next) := by
  have haccess : onFiles (isDirectory (pathOf handler key)) =
      .atomically fun s => (s, decide (s.files.lookup (pathOf handler key) = some .dir)) := rfl
  rw [haccess]
  refine local_look (fun s s' h => part.known h.2)
    (fun s s' h => by rw [(part.alike hkey).lookup _ _ h.2])
    (fun s => ⟨part.refl s.fileToId, part.still s.files⟩) fun s hin => ?_
  by_cases hl : s.files.lookup (pathOf handler key) = some .dir
  · rw [decide_eq_true hl]
    exact hdir
  · rw [decide_eq_false hl]
    obtain ⟨halike, hallows⟩ := part.removal hkey hin hl
    exact hno (onFiles_own (remove_sees halike) (remove_keeps hallows))

/-! ## 3. Requests -/

theorem insertToMap_own {id : Int} (hkey : part.keys key) : part.Own (insertToMap key id) := by
  refine local_bind (find_own hkey) fun known => ?_
  split
  · refine local_bind (copyOf_own hkey) fun idNames => ?_
    split
    · exact local_pure _
    · refine local_bind (pushBack_own hkey) fun _ => ?_
      refine local_bind (copyOf_own hkey) fun valuesCopy => ?_
      exact local_bind (assign_own hkey) fun _ => local_pure _
  · exact local_pure _

theorem getNextId_own (hkey : part.keys key) : part.Own (getNextId key) := by
  refine local_bind (find_own hkey) fun known => ?_
  split
  · refine local_bind (scan_own hkey) fun lowest => ?_
    split
    · exact local_pure _
    · exact local_bind (insertToMap_own hkey) fun _ => local_pure _
  · exact local_bind (assign_own hkey) fun _ => local_pure _

theorem handlePostRequest_own (hkey : part.keys key) :
    part.Own (handlePostRequest handler disk key request response) := by
  have hhouse : part.Own (housePost handler key) := by
    refine local_bind (find_own hkey) fun known => ?_
    split
    · exact local_pure _
    · exact createDir_own hkey
  refine local_bind hhouse fun housed => ?_
  split
  · refine local_bind (getNextId_own hkey) fun id => ?_
    split
    · exact local_pure _
    · rename_i value
      rw [pathOf_below]
      refine local_bind (writeToFile_own (part.child value hkey)) fun written => ?_
      split <;> exact local_pure _
  · exact local_pure _

theorem handleGetRequest_own (hkey : part.keys key) :
    part.Own (handleGetRequest handler key response) := by
  refine local_bind (exists_own hkey) fun there => ?_
  split
  · refine local_bind (isDirectory_own hkey) fun dir => ?_
    split
    · exact local_bind (copyOf_own hkey) fun ids => local_pure _
    · refine local_bind (readFromFile_own hkey) fun content => ?_
      split <;> exact local_pure _
  · exact local_pure _

theorem handlePutRequest_own (hkey : part.keys key) :
    part.Own (handlePutRequest handler disk key request response) := by
  have hentity := part.entity hkey
  have hregister : ∀ value, part.Own (registerPut handler (entityOf key) value response) := by
    intro value
    refine local_bind (find_own hentity) fun known => ?_
    split
    · refine local_bind (insertToMap_own hentity) fun inserted => ?_
      split <;> exact local_pure _
    · refine local_bind (createDir_own hentity) fun made => ?_
      split
      · exact local_bind (assign_own hentity) fun _ => local_pure _
      · exact local_pure _
  unfold handlePutRequest
  dsimp only
  split
  · split
    · exact local_pure _
    · refine local_bind (hregister _) fun registered => ?_
      split
      · exact local_pure _
      · refine local_bind (writeToFile_own hkey) fun written => ?_
        split <;> exact local_pure _
  · exact local_pure _

theorem handleDeleteRequest_own (hkey : part.keys key) :
    part.Own (handleDeleteRequest handler key response) := by
  have hentity := part.entity hkey
  refine local_bind (exists_own hkey) fun there => ?_
  split
  · refine isDirectory_look hkey (local_pure _) fun hremove => ?_
    rw [if_neg (by simp)]
    dsimp only
    split
    · exact local_pure _
    · refine local_bind (find_own hentity) fun known => ?_
      split
      · refine local_bind hremove fun removed => ?_
        split
        · exact local_bind (eraseValue_own hentity) fun _ => local_pure _
        · exact local_pure _
      · exact local_pure _
  · exact local_pure _

/-- **A request** whose key belongs to a part sees the part only, and changes nothing else. -/
theorem handleRequest_own
    (h : ∀ key, handler.checkRequestUrl request.target false = some key → part.keys key) :
    part.Own (handleRequest handler disk request response) := by
  unfold handleRequest
  cases hkey : handler.checkRequestUrl request.target false with
  | none => exact local_pure _
  | some key =>
      have hpart := h key hkey
      dsimp only
      cases request.method with
      | post => exact handlePostRequest_own hpart
      | get => exact handleGetRequest_own hpart
      | put => exact handlePutRequest_own hpart
      | delete => exact handleDeleteRequest_own hpart
      | head | options | trace | other => exact local_pure _

end

/-! ## 4. The whole location -/

/-- **The location is the same**: its map, and the tree from its root down. -/
def SameLocation (cwd : Path) (base : Str) (d : Path) (s s' : CrudState) : Prop :=
  s.fileToId = s'.fileToId ∧ InCwd cwd (SameOn (d <:+ ·) base d) s.files s'.files

/-- The map, and the tree from the root down. -/
def ChangesLocation (cwd : Path) (base : Str) (s s' : CrudState) : Prop :=
  ChangesBelow cwd base s.files s'.files

/-- The base leads to the directory, in the working directory. -/
def Based (cwd : Path) (base : Str) (d : Path) (t : FileTree) : Prop :=
  t.cwd = cwd ∧ t.resolve (base ++ ['/']) = some d

theorem Based.grows {cwd d : Path} {base : Str} {t t' : FileTree} (h : Based cwd base d t)
    (hg : Grows t t') : Based cwd base d t' := ⟨hg.cwd.trans h.1, hg.resolve h.2⟩

/-- What is no directory is not on the way to the base. -/
theorem Based.off_the_way {cwd d : Path} {base key : Str} {t : FileTree} (h : Based cwd base d t)
    (hkey : NoUp key) (hno : t.lookup (base ++ '/' :: key) ≠ some .dir) :
    placeOf cwd (base ++ '/' :: key) ∉ placesOf cwd (base ++ ['/']) :=
  h.1 ▸ not_on_the_way h.2 hkey hno

/-- All keys that do not go up, of a tree of which nothing is known. -/
def anyPart (handler : RequestHandler) (cwd : Path) : Part handler where
  keys := NoUp
  entity := noUp_entityOf
  child value hkey := hkey.append (noUp_plain (plain_toStr value))
  sameMap := Eq
  found h _ := by rw [h]
  inserted _ _ h := by rw [h]
  mapStep _ _ := True
  refl _ := trivial
  insert _ _ _ := trivial
  sameTree := Eq
  alike _ := alike_eq _
  treeStep := ChangesBelow cwd handler.dir_
  allows hkey := allows_changesBelow (below_noUp cwd handler.dir_ hkey)
  still := ChangesBelow.refl cwd handler.dir_
  inv _ := True
  known _ := trivial
  removal hkey _ _ := ⟨removal_eq _, removal_changesBelow (below_noUp cwd handler.dir_ hkey)⟩

/-- All keys that do not go up, where the base leads to the directory. -/
def wholePart (handler : RequestHandler) (cwd d : Path) : Part handler where
  __ := anyPart handler cwd
  sameTree := InCwd cwd (SameOn (d <:+ ·) handler.dir_ d)
  alike hkey := alike_within (within_noUp hkey)
  inv := Based cwd handler.dir_ d
  known h := ⟨h.1.1, h.2.left⟩
  removal hkey hin hno :=
    ⟨removal_within (within_noUp hkey) (fun _ _ hq => hq.trans (List.suffix_cons _ _))
        (hin.off_the_way hkey hno),
      removal_changesBelow (below_noUp cwd handler.dir_ hkey)⟩

section

variable (handler : RequestHandler) {disk : Disk} {cwd d : Path} {request : Request}
  {response : Response}

/-- **A request** whose target does not go up sees its own location only. -/
theorem handleRequest_sees (h : NoUp request.target) :
    (handleRequest handler disk request response).Sees (SameLocation cwd handler.dir_ d) := by
  have hown : (wholePart handler cwd d).Own (handleRequest handler disk request response) :=
    handleRequest_own fun _ hkey => noUp_key h hkey
  exact hown.1

/-- And changes nothing else. -/
theorem handleRequest_changes (h : NoUp request.target) :
    (handleRequest handler disk request response).Keeps (ChangesLocation cwd handler.dir_) := by
  have hown : (anyPart handler cwd).Own (handleRequest handler disk request response) :=
    handleRequest_own fun _ hkey => noUp_key h hkey
  exact (hown.2.keeps fun _ => trivial).mono fun _ _ hc => hc.2

end

end Googolplex.Crud.Concurrent
