/-
  File:      Googolplex/FileAccesses.lean
  Subject:   The file helpers ACCESS BY ACCESS (request_handler.cc,
             request_handler_factory.cc), for the handlers that share the tree.

  Every system call is an access; the streams of `writeToFile` and `readFromFile`,
  from open to close, are one.

  * `remove`, `filesystemRemove`: the two ways to remove what a path leads to; a directory goes
    too, if it is empty.
  * `existsDir_alone`, `createDir_alone`, `writeToFile_alone`, `makeRoot_alone`: with
    nobody in between they are the helpers.
  * `Allows`, `AllowsRemoval`: a relation on trees that has the calls with a path in it.
  * `createDir_meets`: what is known of the tree afterwards, while others use it.
  * `createDir_sees`: the helpers see no more than their calls; `CallsAlike`, `RemovalAlike`: the
    calls with a path.
  * `alike_within`: a path sees no more than the part of the tree it stays within.
-/
import Googolplex.Library.Programs
import Googolplex.Library.Regions
import Googolplex.Handlers

namespace Googolplex.FileAccesses

open Cxx Posix Posix.FileTree Programs

/-- A program on the tree. -/
abbrev Accesses (α : Type) := Prog FileTree α

/-- What a request returns. -/
abbrev RequestResult := Except Fault (Response × Bool)

/-! ## 1. Calls -/

/-- `boost::filesystem::exists`. -/
def exists_ (path : Str) : Accesses Bool := .atomically fun t => (t, decide (t.lookup path ≠ none))

/-- `boost::filesystem::is_directory`. -/
def isDirectory (path : Str) : Accesses Bool :=
  .atomically fun t => (t, decide (t.lookup path = some .dir))

/-- Something that is a regular file. -/
def isRegular : Option Node → Bool
  | some (.file _) => true
  | _ => false

/-- `boost::filesystem::is_regular_file`. -/
def isRegularFile (path : Str) : Accesses Bool := .atomically fun t => (t, isRegular (t.lookup path))

/-- `mkdir(2)`. -/
def mkdir (path : Str) : Accesses Bool :=
  .atomically fun t =>
    match t.mkdir path with
    | some t' => (t', true)
    | none => (t, false)

/-- `std::ofstream file(path); file << body; file.close()`. -/
def writeStream (disk : Disk) (path content : Str) : Accesses Unit :=
  .atomically fun t => (((disk path content).bind (t.openWrite path)).getD t, ())

/-- What `unlink(2)` comes to; `isDirectory` is `EISDIR`. -/
inductive Unlinked where
  | removed
  | isDirectory
  | failed
  deriving DecidableEq, Repr

/-- `unlink(2)`. -/
def unlink (path : Str) : Accesses Unlinked :=
  .atomically fun t =>
    match t.unlink path with
    | some t' => (t', .removed)
    | none => (t, if t.lookup path = some .dir then .isDirectory else .failed)

/-- `rmdir(2)`. -/
def rmdir (path : Str) : Accesses Bool :=
  .atomically fun t =>
    match t.rmdir path with
    | some t' => (t', true)
    | none => (t, false)

/-- `boost::filesystem::file_type`, as far as it comes to a tree without links. -/
inductive FileType where
  | fileNotFound
  | directoryFile
  | regularFile
  deriving DecidableEq, Repr

/-- The type of what a path leads to. -/
def fileTypeOf : Option Node → FileType
  | none => .fileNotFound
  | some .dir => .directoryFile
  | some (.file _) => .regularFile

/-- `boost::filesystem::symlink_status`. -/
def symlinkStatus (path : Str) : Accesses FileType :=
  .atomically fun t => (t, fileTypeOf (t.lookup path))

/-- `read_from_file`. -/
def readFromFile (path : Str) : Accesses (Except Fault (Option Str)) :=
  .atomically fun t => (t, RequestHandler.readFromFile t path)

/-- What a `directory_iterator` gives; it throws where there is no directory. -/
def entriesOf (t : FileTree) (path : Str) : Except Fault (List (Name × Node)) :=
  match t.resolve path with
  | some p => if t.IsDir p then .ok (t.entries p) else .error .filesystemError
  | none => .error .filesystemError

/-- `directory_iterator`, from its opening to its end. -/
def entriesAt (path : Str) : Accesses (Except Fault (List (Name × Node))) :=
  .atomically fun t => (t, entriesOf t path)

/-! ## 2. Helpers -/

/-- `exists(path) && is_directory(path)`. -/
def existsDir (path : Str) : Accesses Bool := do
  if ← exists_ path then isDirectory path else return false

/-- `boost::filesystem::create_directory`: after a `mkdir` that fails, no error where there is a
    directory. -/
def createDirectory (path : Str) : Accesses Bool := do
  if ← mkdir path then return true else isDirectory path

/-- `create_dir`. -/
def createDir (path : Str) : Accesses Bool := do
  if ← existsDir path then return true else createDirectory path

/-- `write_to_file`. -/
def writeToFile (disk : Disk) (path content : Str) : Accesses Bool := do
  if ← isDirectory path then return false
  else
    writeStream disk path content
    return true

/-- `std::remove(path) == 0`: a file is unlinked, a directory removed. -/
def remove (path : Str) : Accesses Bool := do
  match ← unlink path with
  | .removed => return true
  | .isDirectory => rmdir path
  | .failed => return false

/-- `boost::filesystem::remove`: the call is that for the type; it throws when the call fails. -/
def filesystemRemove (path : Str) : Accesses (Except Fault Bool) := do
  match ← symlinkStatus path with
  | .fileNotFound => return .ok false
  | .directoryFile =>
    if ← rmdir path then return .ok true else return .error .filesystemError
  | .regularFile =>
    match ← unlink path with
    | .removed => return .ok true
    | _ => return .error .filesystemError

/-- What the factories do about their root. -/
def makeRoot (root : Str) : Accesses (Except Fault Unit) := do
  if ← existsDir root then return .ok ()
  else if ← createDirectory root then return .ok ()
  else return .error .exit

/-! ## 3. With nobody in between -/

section Alone

variable (t : FileTree) (disk : Disk)

@[simp] theorem exists_alone (path : Str) :
    (exists_ path).alone t = (t, decide (t.lookup path ≠ none)) := rfl

@[simp] theorem isDirectory_alone (path : Str) :
    (isDirectory path).alone t = (t, decide (t.lookup path = some .dir)) := rfl

@[simp] theorem readFromFile_alone (path : Str) :
    (readFromFile path).alone t = (t, RequestHandler.readFromFile t path) := rfl

@[simp] theorem existsDir_alone (path : Str) :
    (existsDir path).alone t = (t, decide (t.lookup path = some .dir)) := by
  unfold existsDir
  rw [alone_bind, exists_alone]
  cases hl : t.lookup path with
  | none => rfl
  | some node => rw [if_pos (by simp), isDirectory_alone, hl]

theorem createDirectory_alone {path : Str} (hno : t.lookup path ≠ some .dir) :
    (createDirectory path).alone t =
      ((RequestHandler.createDir t path).2, (RequestHandler.createDir t path).1) := by
  unfold createDirectory mkdir RequestHandler.createDir
  rw [alone_bind, alone_atomically, if_neg hno]
  cases t.mkdir path with
  | some t' => rfl
  | none => simp [hno]

@[simp] theorem createDir_alone (path : Str) : (createDir path).alone t =
    ((RequestHandler.createDir t path).2, (RequestHandler.createDir t path).1) := by
  unfold createDir
  rw [alone_bind, existsDir_alone]
  by_cases hdir : t.lookup path = some .dir
  · have hsame : RequestHandler.createDir t path = (true, t) := by
      unfold RequestHandler.createDir
      rw [if_pos hdir]
    rw [if_pos (by simp [hdir]), hsame]
    rfl
  · rw [if_neg (by simp [hdir]), createDirectory_alone t hdir]

@[simp] theorem writeToFile_alone (path content : Str) : (writeToFile disk path content).alone t =
    ((RequestHandler.writeToFile disk t path content).2,
      (RequestHandler.writeToFile disk t path content).1) := by
  unfold writeToFile RequestHandler.writeToFile
  by_cases hdir : t.lookup path = some .dir
  · simp [hdir]
  · simp [hdir, writeStream]

/-- What is no directory is unlinked, or not removed. -/
theorem remove_alone {path : Str} (hno : t.lookup path ≠ some .dir) :
    (remove path).alone t = ((t.unlink path).getD t, (t.unlink path).isSome) := by
  unfold remove unlink
  rw [alone_bind, alone_atomically]
  cases t.unlink path with
  | some t' => rfl
  | none =>
      dsimp only
      rw [if_neg hno]
      rfl

/-- A file is unlinked. -/
theorem filesystemRemove_alone {path content : Str} (hfile : t.lookup path = some (.file content)) :
    (filesystemRemove path).alone t = ((t.unlink path).getD t, .ok true) := by
  obtain ⟨p, hp, hnode⟩ := Option.bind_eq_some_iff.mp hfile
  obtain ⟨t', ht'⟩ := unlink_of_resolve hp ⟨content, hnode⟩
  unfold filesystemRemove symlinkStatus unlink
  rw [alone_bind, alone_atomically, hfile]
  dsimp only [fileTypeOf]
  rw [alone_bind, alone_atomically, ht']
  rfl

theorem makeRoot_alone (root : Str) : (makeRoot root).alone t =
    match Googolplex.makeRoot t root with
    | .ok t' => (t', .ok ())
    | .error f => (t, .error f) := by
  unfold makeRoot Googolplex.makeRoot
  rw [alone_bind, existsDir_alone]
  by_cases hdir : t.lookup root = some .dir
  · rw [if_pos (by simp [hdir]), if_pos hdir]
    rfl
  · rw [if_neg (by simp [hdir]), if_neg hdir, alone_bind, createDirectory_alone t hdir]
    unfold RequestHandler.createDir
    rw [if_neg hdir]
    cases t.mkdir root <;> rfl

end Alone

/-! ## 4. What the calls change -/

/-- The calls that leave something at the path are steps of `E`. -/
structure Allows (E : FileTree → FileTree → Prop) (path : Str) : Prop where
  refl : ∀ t, E t t
  mkdir : ∀ t t', t.mkdir path = some t' → E t t'
  openWrite : ∀ t t' content, t.openWrite path content = some t' → E t t'

/-- The calls that remove what is at the path are. -/
structure AllowsRemoval (E : FileTree → FileTree → Prop) (path : Str) : Prop where
  refl : ∀ t, E t t
  unlink : ∀ t t', t.unlink path = some t' → E t t'
  rmdir : ∀ t t', t.rmdir path = some t' → E t t'

theorem allows_growsBut {gone : Path → Path → Prop} (path : Str) : Allows (GrowsBut gone) path :=
  ⟨GrowsBut.refl, fun _ _ h => (Grows.of_mkdir h).but, fun _ _ _ h => (Grows.of_openWrite h).but⟩

theorem removal_growsBut {gone : Path → Path → Prop} {path : Str}
    (hgone : ∀ cwd, gone cwd (placeOf cwd path)) : AllowsRemoval (GrowsBut gone) path :=
  ⟨GrowsBut.refl, fun _ _ h => (Grows.of_unlink h).but, fun _ _ h => .of_rmdir hgone h⟩

theorem allows_changesBelow {cwd : Path} {base path : Str} (h : Below cwd base path) :
    Allows (ChangesBelow cwd base) path :=
  ⟨ChangesBelow.refl cwd base, fun _ _ => .of_mkdir h, fun _ _ _ => .of_openWrite h⟩

theorem removal_changesBelow {cwd : Path} {base path : Str} (h : Below cwd base path) :
    AllowsRemoval (ChangesBelow cwd base) path :=
  ⟨ChangesBelow.refl cwd base, fun _ _ => .of_unlink h, fun _ _ => .of_rmdir h⟩

section Keeps

variable {E : FileTree → FileTree → Prop} {disk : Disk} {path content : Str}

/-- An access that changes nothing. -/
theorem look_keeps {α : Type} (hrefl : ∀ t, E t t) (f : FileTree → α) :
    (Prog.atomically fun t => (t, f t)).Keeps E := keeps_atomically fun t => hrefl t

theorem exists_keeps (hrefl : ∀ t, E t t) : (exists_ path).Keeps E := look_keeps hrefl _

theorem isDirectory_keeps (hrefl : ∀ t, E t t) : (isDirectory path).Keeps E := look_keeps hrefl _

theorem readFromFile_keeps (hrefl : ∀ t, E t t) : (readFromFile path).Keeps E := look_keeps hrefl _

theorem entriesAt_keeps (hrefl : ∀ t, E t t) : (entriesAt path).Keeps E := look_keeps hrefl _

theorem existsDir_keeps (hrefl : ∀ t, E t t) : (existsDir path).Keeps E := by
  refine keeps_bind (exists_keeps hrefl) fun there => ?_
  split
  · exact isDirectory_keeps hrefl
  · exact keeps_pure _

theorem unlink_keeps (h : AllowsRemoval E path) : (unlink path).Keeps E := by
  refine keeps_atomically fun t => ?_
  cases hu : t.unlink path with
  | none => exact h.refl t
  | some t' => exact h.unlink t t' hu

theorem rmdir_keeps (h : AllowsRemoval E path) : (rmdir path).Keeps E := by
  refine keeps_atomically fun t => ?_
  cases hd : t.rmdir path with
  | none => exact h.refl t
  | some t' => exact h.rmdir t t' hd

theorem remove_keeps (h : AllowsRemoval E path) : (remove path).Keeps E := by
  refine keeps_bind (unlink_keeps h) fun unlinked => ?_
  cases unlinked with
  | removed | failed => exact keeps_pure _
  | isDirectory => exact rmdir_keeps h

theorem filesystemRemove_keeps (h : AllowsRemoval E path) : (filesystemRemove path).Keeps E := by
  refine keeps_bind (look_keeps h.refl _) fun type => ?_
  cases type with
  | fileNotFound => exact keeps_pure _
  | directoryFile =>
      refine keeps_bind (rmdir_keeps h) fun removed => ?_
      split <;> exact keeps_pure _
  | regularFile =>
      refine keeps_bind (unlink_keeps h) fun unlinked => ?_
      split <;> exact keeps_pure _

theorem createDirectory_keeps (h : Allows E path) : (createDirectory path).Keeps E := by
  refine keeps_bind (keeps_atomically fun t => ?_) fun made => ?_
  · cases hm : t.mkdir path with
    | none => exact h.refl t
    | some t' => exact h.mkdir t t' hm
  · split
    · exact keeps_pure _
    · exact isDirectory_keeps h.refl

theorem createDir_keeps (h : Allows E path) : (createDir path).Keeps E := by
  refine keeps_bind (existsDir_keeps h.refl) fun there => ?_
  split
  · exact keeps_pure _
  · exact createDirectory_keeps h

theorem writeToFile_keeps (h : Allows E path) : (writeToFile disk path content).Keeps E := by
  refine keeps_bind (isDirectory_keeps h.refl) fun dir => ?_
  split
  · exact keeps_pure false
  · refine keeps_bind (keeps_atomically fun t => ?_) fun _ => keeps_pure true
    cases hw : (disk path content).bind (t.openWrite path) with
    | none => exact h.refl t
    | some t' =>
        obtain ⟨held, _, hopen⟩ := Option.bind_eq_some_iff.mp hw
        exact h.openWrite t t' held hopen

theorem makeRoot_keeps (h : Allows E path) : (makeRoot path).Keeps E := by
  refine keeps_bind (existsDir_keeps h.refl) fun there => ?_
  split
  · exact keeps_pure _
  · refine keeps_bind (createDirectory_keeps h) fun made => ?_
    split <;> exact keeps_pure _

end Keeps

/-! ## 5. While others use the tree -/

section Rules

variable {E : FileTree → FileTree → Prop} {path : Str} {spared : Path → Prop}

/-- What is told to be a directory is one, and stays one if it is spared. -/
theorem isDirectory_meets (hrefl : ∀ t, E t t)
    (hstable : Stable E fun t => spared t.cwd → t.lookup path = some .dir) :
    (isDirectory path).Meets E (fun b t => b = true → spared t.cwd → t.lookup path = some .dir)
      fun _ => True :=
  meets_atomically (fun _ => hstable.imp) fun t _ => ⟨hrefl t, fun h _ => by simpa using h⟩

/-- `mkdir` makes one. -/
theorem mkdir_meets (h : Allows E path)
    (hstable : Stable E fun t => spared t.cwd → t.lookup path = some .dir) :
    (mkdir path).Meets E (fun b t => b = true → spared t.cwd → t.lookup path = some .dir)
      fun _ => True := by
  refine meets_atomically (fun _ => hstable.imp) fun t _ => ?_
  cases hm : t.mkdir path with
  | none => exact ⟨h.refl t, fun hb => by cases hb⟩
  | some t' =>
      obtain ⟨_, p, hp, hpdir, _⟩ := mkdir_found hm
      refine ⟨h.mkdir t t' hm, fun _ _ => ?_⟩
      unfold FileTree.lookup
      rw [hp]
      exact hpdir

/-- `create_directory` returns where there is a directory. -/
theorem createDirectory_meets (h : Allows E path)
    (hstable : Stable E fun t => spared t.cwd → t.lookup path = some .dir) :
    (createDirectory path).Meets E (fun b t => b = true → spared t.cwd → t.lookup path = some .dir)
      fun _ => True := by
  refine meets_bind (mkdir_meets h hstable) fun made => ?_
  split
  · rename_i hmade
    exact meets_pure fun t ht _ => ht hmade
  · exact (isDirectory_meets h.refl hstable).weaken (fun _ _ => trivial) fun _ _ ht => ht

theorem existsDir_meets (hrefl : ∀ t, E t t)
    (hstable : Stable E fun t => spared t.cwd → t.lookup path = some .dir) :
    (existsDir path).Meets E (fun b t => b = true → spared t.cwd → t.lookup path = some .dir)
      fun _ => True := by
  refine meets_bind ((exists_keeps hrefl).meets fun _ _ h _ => h) fun there => ?_
  split
  · exact isDirectory_meets hrefl hstable
  · exact meets_pure fun t _ h => by cases h

/-- **`create_dir`** leaves a directory when it returns true, whatever the others do meanwhile. -/
theorem createDir_meets (h : Allows E path)
    (hstable : Stable E fun t => spared t.cwd → t.lookup path = some .dir) :
    (createDir path).Meets E (fun b t => b = true → spared t.cwd → t.lookup path = some .dir)
      fun _ => True := by
  refine meets_bind (existsDir_meets h.refl hstable) fun there => ?_
  split
  · rename_i hthere
    exact meets_pure fun t h _ => h hthere
  · exact (createDirectory_meets h hstable).weaken (fun _ _ => trivial) fun _ _ h => h

end Rules

/-! ## 6. What the helpers see -/

section Sees

variable {R : FileTree → FileTree → Prop} {path content : Str} {disk : Disk}

/-- An access that only looks. -/
theorem look_sees {α : Type} {f : FileTree → α} (h : ∀ t t', R t t' → f t = f t') :
    (Prog.atomically fun t => (t, f t)).Sees R := sees_atomically fun t t' hs => ⟨hs, h t t' hs⟩

theorem exists_sees (h : ∀ t t', R t t' → t.lookup path = t'.lookup path) :
    (exists_ path).Sees R := look_sees fun t t' hs => by rw [h t t' hs]

theorem isDirectory_sees (h : ∀ t t', R t t' → t.lookup path = t'.lookup path) :
    (isDirectory path).Sees R := look_sees fun t t' hs => by rw [h t t' hs]

theorem readFromFile_sees (h : ∀ t t', R t t' → t.lookup path = t'.lookup path) :
    (readFromFile path).Sees R := look_sees fun t t' hs => by
  unfold RequestHandler.readFromFile
  rw [h t t' hs]

theorem existsDir_sees (h : ∀ t t', R t t' → t.lookup path = t'.lookup path) :
    (existsDir path).Sees R := by
  refine sees_bind (exists_sees h) fun there => ?_
  split
  · exact isDirectory_sees h
  · exact sees_pure _

/-- A call that is alike fails on both trees, or is done on both. -/
theorem call_alike {o o' : Option FileTree} (h : Option.Rel R o o') :
    (o = none ∧ o' = none) ∨ ∃ m m', o = some m ∧ o' = some m' ∧ R m m' := by
  cases h with
  | none => exact Or.inl ⟨rfl, rfl⟩
  | @some m m' hR => exact Or.inr ⟨m, m', rfl, rfl, hR⟩

theorem createDirectory_sees (h : ∀ t t', R t t' → t.lookup path = t'.lookup path)
    (hmkdir : ∀ t t', R t t' → Option.Rel R (t.mkdir path) (t'.mkdir path)) :
    (createDirectory path).Sees R := by
  refine sees_bind (sees_atomically fun t t' hs => ?_) fun made => ?_
  · rcases call_alike (hmkdir t t' hs) with ⟨hm, hm'⟩ | ⟨m, m', hm, hm', hR⟩
    · rw [hm, hm']
      exact ⟨hs, rfl⟩
    · rw [hm, hm']
      exact ⟨hR, rfl⟩
  · split
    · exact sees_pure _
    · exact isDirectory_sees h

/-- **`create_dir`**. -/
theorem createDir_sees (h : ∀ t t', R t t' → t.lookup path = t'.lookup path)
    (hmkdir : ∀ t t', R t t' → Option.Rel R (t.mkdir path) (t'.mkdir path)) :
    (createDir path).Sees R := by
  refine sees_bind (existsDir_sees h) fun there => ?_
  split
  · exact sees_pure _
  · exact createDirectory_sees h hmkdir

theorem makeRoot_sees (h : ∀ t t', R t t' → t.lookup path = t'.lookup path)
    (hmkdir : ∀ t t', R t t' → Option.Rel R (t.mkdir path) (t'.mkdir path)) :
    (makeRoot path).Sees R := by
  refine sees_bind (existsDir_sees h) fun there => ?_
  split
  · exact sees_pure _
  · refine sees_bind (createDirectory_sees h hmkdir) fun made => ?_
    split <;> exact sees_pure _

/-- **`write_to_file`**. -/
theorem writeToFile_sees (h : ∀ t t', R t t' → t.lookup path = t'.lookup path)
    (hwrite : ∀ t t' held, R t t' → Option.Rel R (t.openWrite path held) (t'.openWrite path held)) :
    (writeToFile disk path content).Sees R := by
  refine sees_bind (isDirectory_sees h) fun dir => ?_
  split
  · exact sees_pure _
  · refine sees_bind (sees_atomically fun t t' hs => ⟨?_, rfl⟩) fun _ => sees_pure _
    cases disk path content with
    | none => exact hs
    | some held =>
        show R ((t.openWrite path held).getD t) ((t'.openWrite path held).getD t')
        rcases call_alike (hwrite t t' held hs) with ⟨hw, hw'⟩ | ⟨m, m', hw, hw', hR⟩
        · rw [hw, hw']
          exact hs
        · rw [hw, hw']
          exact hR

theorem unlink_sees (h : ∀ t t', R t t' → t.lookup path = t'.lookup path)
    (hunlink : ∀ t t', R t t' → Option.Rel R (t.unlink path) (t'.unlink path)) :
    (unlink path).Sees R := by
  refine sees_atomically fun t t' hs => ?_
  rcases call_alike (hunlink t t' hs) with ⟨hu, hu'⟩ | ⟨m, m', hu, hu', hR⟩
  · rw [hu, hu']
    exact ⟨hs, by simp only [h t t' hs]⟩
  · rw [hu, hu']
    exact ⟨hR, rfl⟩

theorem rmdir_sees (hrmdir : ∀ t t', R t t' → Option.Rel R (t.rmdir path) (t'.rmdir path)) :
    (rmdir path).Sees R := by
  refine sees_atomically fun t t' hs => ?_
  rcases call_alike (hrmdir t t' hs) with ⟨hd, hd'⟩ | ⟨m, m', hd, hd', hR⟩
  · rw [hd, hd']
    exact ⟨hs, rfl⟩
  · rw [hd, hd']
    exact ⟨hR, rfl⟩

/-- **The calls that leave something at the path are alike** on trees that are the same by `R`. -/
structure CallsAlike (R : FileTree → FileTree → Prop) (path : Str) : Prop where
  lookup : ∀ t t', R t t' → t.lookup path = t'.lookup path
  mkdir : ∀ t t', R t t' → Option.Rel R (t.mkdir path) (t'.mkdir path)
  openWrite : ∀ t t' held, R t t' → Option.Rel R (t.openWrite path held) (t'.openWrite path held)

/-- The calls that remove what is at the path are. -/
structure RemovalAlike (R : FileTree → FileTree → Prop) (path : Str) : Prop where
  lookup : ∀ t t', R t t' → t.lookup path = t'.lookup path
  unlink : ∀ t t', R t t' → Option.Rel R (t.unlink path) (t'.unlink path)
  rmdir : ∀ t t', R t t' → Option.Rel R (t.rmdir path) (t'.rmdir path)

theorem rel_eq {o o' : Option FileTree} (h : o = o') : Option.Rel Eq o o' := by
  subst h
  cases o with
  | none => exact .none
  | some t => exact .some rfl

/-- On one tree all calls are alike. -/
theorem alike_eq (path : Str) : CallsAlike Eq path where
  lookup _ _ h := by rw [h]
  mkdir _ _ h := rel_eq (by rw [h])
  openWrite _ _ _ h := rel_eq (by rw [h])

theorem removal_eq (path : Str) : RemovalAlike Eq path where
  lookup _ _ h := by rw [h]
  unlink _ _ h := rel_eq (by rw [h])
  rmdir _ _ h := rel_eq (by rw [h])

/-- **`std::remove`**. -/
theorem remove_sees (h : RemovalAlike R path) : (remove path).Sees R := by
  refine sees_bind (unlink_sees h.lookup h.unlink) fun unlinked => ?_
  cases unlinked with
  | removed | failed => exact sees_pure _
  | isDirectory => exact rmdir_sees h.rmdir

/-- **`boost::filesystem::remove`**. -/
theorem filesystemRemove_sees (h : RemovalAlike R path) : (filesystemRemove path).Sees R := by
  refine sees_bind (look_sees fun t t' hs => by rw [h.lookup t t' hs]) fun type => ?_
  cases type with
  | fileNotFound => exact sees_pure _
  | directoryFile =>
      refine sees_bind (rmdir_sees h.rmdir) fun removed => ?_
      split <;> exact sees_pure _
  | regularFile =>
      refine sees_bind (unlink_sees h.lookup h.unlink) fun unlinked => ?_
      split <;> exact sees_pure _

end Sees

/-! ## 7. Parts of the tree -/

section Parts

variable {base s : Str} {d cwd : Path}

/-- Two trees in one working directory. -/
def InCwd (cwd : Path) (R : FileTree → FileTree → Prop) (t t' : FileTree) : Prop :=
  (t.cwd = cwd ∧ t'.cwd = cwd) ∧ R t t'

theorem InCwd.rel {R : FileTree → FileTree → Prop} {t t' : FileTree} {o o' : Option FileTree}
    (h : InCwd cwd R t t') (hrel : Option.Rel R o o') (hg : ∀ m, o = some m → m.cwd = t.cwd)
    (hg' : ∀ m', o' = some m' → m'.cwd = t'.cwd) : Option.Rel (InCwd cwd R) o o' := by
  cases hrel with
  | none => exact .none
  | some hsame => exact .some ⟨⟨(hg _ rfl).trans h.1.1, (hg' _ rfl).trans h.1.2⟩, hsame⟩

/-- **A part of what is below a base**, and a path that stays within it. -/
theorem alike_within {part : Path → Prop} (hs : Within part d (segments s)) :
    CallsAlike (InCwd cwd (SameOn part base d)) (base ++ '/' :: s) where
  lookup _ _ h := h.2.lookup hs
  mkdir _ _ h := h.rel (h.2.mkdir (h.1.1.trans h.1.2.symm) hs) (fun _ hm => (Grows.of_mkdir hm).cwd)
    fun _ hm => (Grows.of_mkdir hm).cwd
  openWrite _ _ held h := h.rel (h.2.openWrite hs held) (fun _ hw => (Grows.of_openWrite hw).cwd)
    fun _ hw => (Grows.of_openWrite hw).cwd

/-- **What is not on the way to the base is removed** in both, or in none. -/
theorem removal_within {part : Path → Prop} (hs : Within part d (segments s))
    (hdown : ∀ (n : Name) (q : Path), part q → part (n :: q))
    (hfree : placeOf cwd (base ++ '/' :: s) ∉ placesOf cwd (base ++ ['/'])) :
    RemovalAlike (InCwd cwd (SameOn part base d)) (base ++ '/' :: s) where
  lookup _ _ h := h.2.lookup hs
  unlink _ _ h := h.rel (h.2.unlink hs) (fun _ hu => (Grows.of_unlink hu).cwd)
    fun _ hu => (Grows.of_unlink hu).cwd
  rmdir _ _ h := h.rel (h.2.rmdir (h.1.1.trans h.1.2.symm) hs hdown (h.1.1 ▸ hfree))
    (fun _ hd => rmdir_cwd hd) fun _ hd => rmdir_cwd hd

end Parts

end Googolplex.FileAccesses
