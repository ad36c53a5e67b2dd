/-
  File:      Googolplex/Crud/Writes.lean
  Subject:   WHAT A POST OR PUT WRITES, on any tree and any disk.

  `write_to_file` looks at the path and not at the stream: it reports success
  for a file that was not opened, and for one that was written in part.

  * `stored_iff`: when a file holds its text after a success that is reported.
  * `Write`: what a POST or PUT does that is not turned down
    (`handlePostRequest_write`, `handlePutRequest_write`).
-/
import Googolplex.Crud.Exits

namespace Googolplex

open Cxx Posix Posix.FileTree RequestHandler

/-! ## 1. A file in a directory -/

/-- A status of the 200s. -/
def Acknowledged (response : Response) : Prop :=
  200 ≤ response.result.toNat ∧ response.result.toNat < 300

instance (response : Response) : Decidable (Acknowledged response) :=
  inferInstanceAs (Decidable (_ ∧ _))

/-- **The text is written out**: the file is opened and takes all of it, or it is not opened and
    holds the text already. -/
def Wrote (disk : Disk) (files : FileTree) (path text : Str) : Prop :=
  disk path text = some text ∨ (disk path text = none ∧ files.lookup path = some (.file text))

instance (disk : Disk) (files : FileTree) (path text : Str) : Decidable (Wrote disk files path text) :=
  inferInstanceAs (Decidable (_ ∨ _))

section Files

variable {disk : Disk} {files made files' : FileTree} {base text : Str} {x : Name}

/-- A directory that is made is empty, so nothing is found in it that was not found before. -/
theorem createDir_found (h : createDir files base = (true, made)) :
    made.lookup base = some .dir ∧ ∀ {s : Str} {xs : List Name}, segments s = x :: xs → Plain x →
      made.lookup (base ++ '/' :: s) = files.lookup (base ++ '/' :: s) := by
  unfold createDir at h
  by_cases hdir : files.lookup base = some .dir
  · rw [if_pos hdir] at h
    cases h
    exact ⟨hdir, fun _ _ => rfl⟩
  · rw [if_neg hdir] at h
    cases hm : files.mkdir base with
    | none =>
        rw [hm] at h
        cases h
    | some t =>
        rw [hm] at h
        cases h
        obtain ⟨hne, p, hp, hpdir, hempty⟩ := mkdir_found hm
        refine ⟨?_, fun {s xs} hs hx => ?_⟩
        · unfold lookup
          rw [hp]
          exact hpdir
        · have hbefore : files.lookup (base ++ '/' :: s) = none := by
            by_contra hsome
            exact hdir (lookup_above hne hsome)
          rw [hbefore, lookup_base (resolve_slash hp hpdir), hs, walk, if_pos hpdir, hx.stepName]
          cases xs with
          | nil => exact hempty x
          | cons y ys =>
              have hno : ¬ made.IsDir (x :: p) := by
                intro hd
                unfold IsDir at hd
                rw [hempty] at hd
                cases hd
              rw [walk, if_neg hno, Option.bind_none]

/-- The names that are not those of a directory are left for a file. -/
theorem plain_of_written (hbase : files.lookup base = some .dir) (hne : x ≠ []) (hx : '/' ∉ x)
    (h : writeToFile disk files (base ++ '/' :: x) text = (true, files')) : Plain x := by
  obtain ⟨p, hp, hpdir⟩ := Option.bind_eq_some_iff.mp hbase
  have hdots : x = ['.'] ∨ x = ['.', '.'] → files.lookup (base ++ '/' :: x) = some .dir := by
    intro hdot
    rw [lookup_base (resolve_slash hp hpdir), segments_of_not_mem hx, walk,
      if_pos (show files.IsDir p from hpdir)]
    rcases hdot with rfl | rfl
    · exact hpdir
    · exact isDir_tail hpdir
  have hno : ¬ (x = ['.'] ∨ x = ['.', '.']) := by
    intro hdot
    unfold writeToFile at h
    rw [if_pos (hdots hdot)] at h
    cases h
  rw [not_or] at hno
  exact ⟨hne, hno.1, hno.2, hx⟩

theorem createDir_grows {path : Str} {created : Bool} (h : createDir files path = (created, files')) :
    Grows files files' := by
  unfold createDir at h
  split at h
  · cases h
    exact Grows.refl files
  · cases hm : files.mkdir path with
    | none =>
        rw [hm] at h
        cases h
        exact Grows.refl files
    | some t =>
        rw [hm] at h
        cases h
        exact Grows.of_mkdir hm

theorem createDir_failed {path : Str} (h : createDir files path = (false, files')) :
    files' = files := by
  unfold createDir at h
  split at h
  · cases h
  · split at h
    · cases h
    · cases h
      rfl

theorem writeToFile_grows {path : Str} {written : Bool}
    (h : writeToFile disk files path text = (written, files')) : Grows files files' := by
  unfold writeToFile at h
  split at h
  · cases h
    exact Grows.refl files
  · cases hw : (disk path text).bind (files.openWrite path) with
    | none =>
        rw [hw] at h
        cases h
        exact Grows.refl files
    | some t =>
        rw [hw] at h
        obtain rfl : t = files' := congrArg Prod.snd h
        obtain ⟨held, _, hopen⟩ := Option.bind_eq_some_iff.mp hw
        exact Grows.of_openWrite hopen

/-- **When the file holds the text** after `create_dir` and `write_to_file` have reported success. -/
theorem stored_iff (hx : Plain x) (hmade : createDir files base = (true, made))
    (h : writeToFile disk made (base ++ '/' :: x) text = (true, files')) :
    files'.lookup (base ++ '/' :: x) = some (.file text) ↔
      Wrote disk files (base ++ '/' :: x) text := by
  obtain ⟨hbase, hsame⟩ := createDir_found (x := x) hmade
  obtain ⟨p, hp, _, hchild⟩ := resolve_child hbase hx
  unfold writeToFile at h
  split at h
  · cases h
  · rename_i hnd
    have hfree : ¬ made.IsDir (x :: p) := by
      intro hd
      refine hnd ?_
      unfold lookup
      rw [hchild]
      exact hd
    unfold Wrote
    rw [← hsame (segments_of_not_mem hx.2.2.2) hx]
    cases hdisk : disk (base ++ '/' :: x) text with
    | none =>
        -- the stream is not open: the tree is as it was
        rw [hdisk] at h
        cases h
        simp
    | some held =>
        obtain ⟨t, ht⟩ := openWrite_of_resolve held hchild hfree
        rw [hdisk, Option.bind_some, ht] at h
        obtain rfl : t = files' := congrArg Prod.snd h
        obtain ⟨n, q, hr, _, _, _, hnodes⟩ := openWrite_some ht
        obtain ⟨rfl, rfl⟩ := List.cons.inj (Option.some.inj (hchild.symm.trans hr))
        have hfile : t.lookup (base ++ '/' :: x) = some (.file held) := by
          unfold lookup
          rw [(Grows.of_openWrite ht).resolve hchild, Option.bind_some, hnodes, if_pos rfl]
        rw [hfile]
        simp

end Files

namespace Crud

section Requests

variable {handler : RequestHandler} {disk : Disk} {s s' : CrudState} {request : Request}
  {response r : Response} {b : Bool} {suffix : Str}

/-! ## 2. The write of a POST or PUT -/

/-- **A request that comes to write its body**: the entity has its directory or is made one, the id
    is listed, and an answer of success is given for what `write_to_file` reports. -/
structure Write (handler : RequestHandler) (disk : Disk) (s : CrudState) (request : Request)
    (entity path : Str) (value : Int) (files : FileTree) (s' : CrudState) (r : Response) : Prop where
  made : (if s.fileToId[entity]? = none then createDir s.files (pathOf handler entity)
    else (true, s.files)) = (true, files)
  listed : s'.fileToId = register s.fileToId entity value
  tree : s'.files = (writeToFile disk files path request.body).2
  reported : Acknowledged r → (writeToFile disk files path request.body).1 = true

theorem not_acknowledged (h : 400 ≤ r.result.toNat) : ¬ Acknowledged r := by
  intro ⟨_, h'⟩
  omega

/-- Where no directory could be made nothing is changed. -/
theorem made_failed {key : Str} {files : FileTree}
    (h : (if s.fileToId[key]? = none then createDir s.files (pathOf handler key)
      else (true, s.files)) = (false, files)) : files = s.files := by
  split at h
  · exact createDir_failed h
  · cases h

/-- **A POST** writes under the next id, or is turned down. -/
theorem handlePostRequest_write
    (h : handlePostRequest handler disk s suffix request response = .ok (s', r, b)) :
    (s' = s ∧ 400 ≤ r.result.toNat) ∨
      ∃ (n : Nat) (fileToId : FileToId) (files : FileTree),
        getNextId s.fileToId suffix = .ok ((n : Int), fileToId) ∧
        Write handler disk s request suffix (pathOf handler (suffix ++ '/' :: decimal n)) n files s' r := by
  unfold handlePostRequest at h
  dsimp only at h
  generalize hmade : (if s.fileToId[suffix]? = none then createDir s.files (pathOf handler suffix)
    else (true, s.files)) = made at h
  obtain ⟨created, files⟩ := made
  cases created with
  | false =>
      obtain rfl := made_failed hmade
      cases h
      exact Or.inl ⟨rfl, by simp [prepareUnprocessableEntityResponse, Status.toNat]⟩
  | true =>
      simp only [Bool.true_eq_false, if_false] at h
      cases hid : getNextId s.fileToId suffix with
      | error f =>
          rw [hid] at h
          cases h
      | ok v =>
          obtain ⟨value, fileToId⟩ := v
          obtain ⟨hv, hmap⟩ := getNextId_register hid
          obtain ⟨n, rfl⟩ := Int.eq_ofNat_of_zero_le (show 0 ≤ value by omega)
          simp only [hid, toStr_natCast, pathOf_below] at h
          refine Or.inr ⟨n, fileToId, files, rfl, ?_⟩
          cases hw : writeToFile disk files (pathOf handler (suffix ++ '/' :: decimal n))
              request.body with
          | mk written files' =>
              rw [hw] at h
              cases written with
              | true =>
                  cases h
                  exact ⟨hmade, hmap, by rw [hw], fun _ => by rw [hw]⟩
              | false =>
                  cases h
                  refine ⟨hmade, hmap, by rw [hw], fun hack => absurd hack (not_acknowledged ?_)⟩
                  simp [prepareInternalServerErrorResponse, Status.toNat]

/-- **A PUT** writes under the id it names, or is turned down. -/
theorem handlePutRequest_write
    (h : handlePutRequest handler disk s suffix request response = .ok (s', r, b)) :
    (s' = s ∧ 400 ≤ r.result.toNat) ∨
      ∃ (n : Nat) (files : FileTree), idNameOf suffix ≠ [] ∧
        (∀ c ∈ idNameOf suffix, c.isDigit = true) ∧ stoi (idNameOf suffix) = .ok (n : Int) ∧
        Write handler disk s request (entityOf suffix) (pathOf handler suffix) n files s' r := by
  unfold handlePutRequest at h
  dsimp only at h
  by_cases hname : idNameOf suffix ≠ [] ∧ (idNameOf suffix).all Char.isDigit = true
  · rw [if_pos hname] at h
    have hdigits := List.all_eq_true.mp hname.2
    cases hvalue : stoi (idNameOf suffix) with
    | error f =>
        rw [hvalue] at h
        cases h
    | ok value =>
        obtain ⟨n, rfl⟩ := stoi_natural hname.1 hdigits hvalue
        simp only [hvalue, ne_eq, ite_not] at h
        generalize hmade : (if s.fileToId[entityOf suffix]? = none
          then createDir s.files (pathOf handler (entityOf suffix)) else (true, s.files)) = made at h
        obtain ⟨created, files⟩ := made
        cases created with
        | false =>
            obtain rfl := made_failed hmade
            cases h
            exact Or.inl ⟨rfl, by simp [prepareUnprocessableEntityResponse, Status.toNat]⟩
        | true =>
            simp only [Bool.true_eq_false, if_false] at h
            refine Or.inr ⟨n, files, hname.1, hdigits, rfl, ?_⟩
            generalize hprepared : (if s.fileToId[entityOf suffix]? = none
                then (s.fileToId.insert (entityOf suffix) [(n : Int)], prepareCreatedResponse n response)
                else ((insertToMap s.fileToId (entityOf suffix) n).2,
                  if (insertToMap s.fileToId (entityOf suffix) n).1 = true then
                    prepareCreatedResponse n response else updatedResponse n response)) = prepared at h
            -- whichever answer is prepared, the id is registered
            have hmap : prepared.1 = register s.fileToId (entityOf suffix) n := by
              rw [← hprepared]
              cases hk : s.fileToId[entityOf suffix]? with
              | none => rw [if_pos rfl, register_unknown hk]
              | some ids => rw [if_neg (by simp), insertToMap_known hk]
            cases hw : writeToFile disk files (pathOf handler suffix) request.body with
            | mk written files' =>
                rw [hw] at h
                cases written with
                | true =>
                    cases h
                    exact ⟨hmade, hmap, by rw [hw], fun _ => by rw [hw]⟩
                | false =>
                    cases h
                    refine ⟨hmade, hmap, by rw [hw], fun hack => absurd hack (not_acknowledged ?_)⟩
                    simp [prepareNotFoundResponse, Status.toNat]
  · rw [if_neg hname] at h
    cases h
    exact Or.inl ⟨rfl, by simp [prepareNotFoundResponse, Status.toNat]⟩

end Requests

end Crud

end Googolplex
