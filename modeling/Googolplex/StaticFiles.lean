/-
  File:      Googolplex/StaticFiles.lean
  Subject:   WHAT THE STATIC HANDLER ANSWERS, for any location, root, target and tree.

  `ifstream` opens a directory, and `good()` says nothing against it; the length
  that `tellg` then gives is none a string can have.

  * `pathOf_iff`: the path that is opened.
  * `static_serves_iff`: files are served, and all else is not found, unless the
    path leads to a directory.
-/
import Googolplex.Handlers

namespace Googolplex.Static

open Cxx Posix Posix.FileTree RequestHandler

section

variable {handler : RequestHandler} {files : FileTree} {readable : Path → Bool} {request : Request}
  {response : Response} {target path content : Str}

/-- `get_dir() + "/" + p`, without the slashes at the end. -/
def below (handler : RequestHandler) (p : Str) : Str :=
  (handler.dir_ ++ '/' :: p).rdropWhile (· == '/')

/-- **The path that is opened** is that of what follows the location in the target, if that is
    something. -/
theorem pathOf_iff : pathOf handler target = some path ↔
    ∃ p, target = handler.prefix_ ++ '/' :: p ∧ p ≠ [] ∧ path = below handler p := by
  have hcons : ∀ p : Str, handler.prefix_ ++ '/' :: p = (handler.prefix_ ++ ['/']) ++ p := by simp
  unfold pathOf
  dsimp only
  constructor
  · intro h
    split at h
    · rename_i hpre
      obtain ⟨⟨p, rfl⟩, hlen⟩ := hpre
      rw [List.drop_left] at h
      refine ⟨p, (hcons p).symm, ?_, (Option.some.inj h).symm⟩
      rintro rfl
      rw [List.append_nil] at hlen
      exact absurd hlen (lt_irrefl _)
    · cases h
  · rintro ⟨p, rfl, hp, rfl⟩
    have hlen : 0 < p.length := List.length_pos_iff.mpr hp
    have hlonger : (handler.prefix_ ++ ['/']).length < ((handler.prefix_ ++ ['/']) ++ p).length := by
      simp only [List.length_append]
      omega
    rw [hcons p, if_pos ⟨List.prefix_append (handler.prefix_ ++ ['/']) p, hlonger⟩, List.drop_left]
    rfl

/-- **The target names a file**: what follows the location leads, behind the root and without the
    slashes at the end, to a regular file that may be read. -/
def NamesFile (handler : RequestHandler) (files : FileTree) (readable : Path → Bool)
    (target content : Str) : Prop :=
  ∃ p q, target = handler.prefix_ ++ '/' :: p ∧ p ≠ [] ∧ files.resolve (below handler p) = some q ∧
    files.nodes[q]? = some (.file content) ∧ readable q = true

/-- **The target names a directory.** -/
def NamesDir (handler : RequestHandler) (files : FileTree) (target : Str) : Prop :=
  ∃ p, target = handler.prefix_ ++ '/' :: p ∧ p ≠ [] ∧ files.lookup (below handler p) = some .dir

/-- **Files are served, and nothing else**: the request is answered, by the content of the file that
    the target names, or by a 404 if it names none. -/
def Serves (handler : RequestHandler) (files : FileTree) (readable : Path → Bool) (request : Request)
    (response : Response) : Prop :=
  ∃ r b, handleRequest handler (files.visible readable) request response = .ok (r, b) ∧
    (∀ content, NamesFile handler files readable request.target content →
      r.result = .ok ∧ r.body = content) ∧
    ((¬ ∃ content, NamesFile handler files readable request.target content) → r.result = .notFound)

theorem namesFile_iff : NamesFile handler files readable target content ↔
    ∃ path, pathOf handler target = some path ∧
      (files.visible readable).lookup path = some (.file content) := by
  constructor
  · intro ⟨p, q, ht, hp, hq⟩
    exact ⟨_, pathOf_iff.mpr ⟨p, ht, hp, rfl⟩, lookup_visible_file.mpr ⟨q, hq⟩⟩
  · intro ⟨path, hpath, hfile⟩
    obtain ⟨p, ht, hp, rfl⟩ := pathOf_iff.mp hpath
    obtain ⟨q, hq⟩ := lookup_visible_file.mp hfile
    exact ⟨p, q, ht, hp, hq⟩

theorem namesDir_iff : NamesDir handler files target ↔
    ∃ path, pathOf handler target = some path ∧
      (files.visible readable).lookup path = some .dir := by
  constructor
  · intro ⟨p, ht, hp, hdir⟩
    exact ⟨_, pathOf_iff.mpr ⟨p, ht, hp, rfl⟩, lookup_visible_dir.mpr hdir⟩
  · intro ⟨path, hpath, hdir⟩
    obtain ⟨p, ht, hp, rfl⟩ := pathOf_iff.mp hpath
    exact ⟨p, ht, hp, lookup_visible_dir.mp hdir⟩

/-! ## The answers -/

theorem answer_off (h : pathOf handler request.target = none) :
    handleRequest handler files request response = .ok (notFound response, false) := by
  unfold handleRequest
  rw [h]

theorem answer_missing (h : pathOf handler request.target = some path)
    (hl : files.lookup path = none) :
    handleRequest handler files request response = .ok (notFound response, false) := by
  unfold handleRequest readFromFile
  simp only [h, hl]

theorem answer_file (h : pathOf handler request.target = some path)
    (hl : files.lookup path = some (.file content)) :
    ∃ r, handleRequest handler files request response = .ok (r, true) ∧ r.result = .ok ∧
      r.body = content := by
  unfold handleRequest readFromFile
  simp only [h, hl]
  exact ⟨_, rfl, rfl, rfl⟩

/-- The length of a directory is none a string can have. -/
theorem answer_dir (h : pathOf handler request.target = some path)
    (hl : files.lookup path = some .dir) :
    handleRequest handler files request response = .error .lengthError := by
  unfold handleRequest readFromFile
  simp only [h, hl]

/-- **When files are served and nothing else**: unless the target names a directory; to that no answer
    is given. -/
theorem static_serves_iff (handler : RequestHandler) (files : FileTree) (readable : Path → Bool)
    (request : Request) (response : Response) :
    Serves handler files readable request response ↔ ¬ NamesDir handler files request.target := by
  unfold Serves
  simp only [namesFile_iff, @namesDir_iff _ _ readable]
  cases hpath : pathOf handler request.target with
  | none =>
      constructor
      · rintro _ ⟨path, hsome, _⟩
        cases hsome
      · intro _
        refine ⟨_, _, answer_off hpath, ?_, fun _ => rfl⟩
        rintro content ⟨path, hsome, _⟩
        cases hsome
  | some path =>
      have hthis : ∀ {x : Node},
          (∃ path', some path = some path' ∧ (files.visible readable).lookup path' = some x) ↔
            (files.visible readable).lookup path = some x := by
        intro x
        simp
      simp only [hthis]
      cases hl : (files.visible readable).lookup path with
      | none => exact ⟨fun _ => nofun, fun _ => ⟨_, _, answer_missing hpath hl, nofun, fun _ => rfl⟩⟩
      | some x =>
          cases x with
          | dir =>
              constructor
              · intro ⟨r, b, h, _⟩
                rw [answer_dir hpath hl] at h
                cases h
              · intro h
                exact absurd rfl h
          | file content =>
              obtain ⟨r, h, hresult, hbody⟩ := @answer_file _ _ _ response _ _ hpath hl
              refine ⟨fun _ => nofun, fun _ => ⟨r, true, h, fun content' hfile => ?_, fun hnone => ?_⟩⟩
              · cases hfile
                exact ⟨hresult, hbody⟩
              · exact absurd ⟨content, rfl⟩ hnone

end

/-! ## A directory -/

/-- `location /static StaticHandler { root /www; }`. -/
def wwwHandler : RequestHandler := ⟨"/static".toList, "/www".toList⟩

/-- Nothing but the root directory of the location. -/
def wwwFiles : FileTree := FileTree.bare.put "www".toList [] .dir FileTree.bare.isDir_root fun _ => rfl

/-- **A GET of a directory** is not answered. -/
theorem directory_not_served : ¬ Serves wwwHandler wwwFiles (fun _ => true)
    ⟨.get, "/static//".toList, [], []⟩ { } := by
  intro ⟨r, b, h, _⟩
  have herror : handleRequest wwwHandler (wwwFiles.visible fun _ => true)
      ⟨.get, "/static//".toList, [], []⟩ { } = .error .lengthError := by decide +kernel
  rw [herror] at h
  cases h

end Googolplex.Static
