/-
  File:      Googolplex/Crud/Confinement.lean
  Subject:   WHICH PATHS the static and the CRUD handler hand to the file system.

  A path is the root, a slash and text from the target. `Inside` asks where it
  leads by its spelling.

  * `paths`: the paths of one CRUD request, call by call.
  * `changed_at`: a request changes nothing but what is at these.
  * `answered_along`: what it comes to is a matter of the tree along these.
  * `confined_iff`: when all paths of a target are inside the root.
-/
import Googolplex.Crud.Writes
import Googolplex.Handlers
import Googolplex.Library.Regions

namespace Googolplex.Crud

open Cxx Posix Posix.FileTree RequestHandler

/-! ## 1. Inside the root -/

/-- The root as the handlers write it, with a slash after it. -/
def rootAt (handler : RequestHandler) (cwd : Path) : Path := placeOf cwd (handler.dir_ ++ ['/'])

/-- **The path leads to the root or below it.** -/
def Inside (handler : RequestHandler) (cwd : Path) (path : Str) : Prop :=
  rootAt handler cwd <:+ placeOf cwd path

/-- Walked from the root, the names lead to it or below it. -/
def Stays (handler : RequestHandler) (cwd : Path) (key : Str) : Prop :=
  rootAt handler cwd <:+ normal (rootAt handler cwd) (segments key)

instance (handler : RequestHandler) (cwd : Path) (path : Str) : Decidable (Inside handler cwd path) :=
  inferInstanceAs (Decidable (_ <:+ _))

instance (handler : RequestHandler) (cwd : Path) (key : Str) : Decidable (Stays handler cwd key) :=
  inferInstanceAs (Decidable (_ <:+ _))

/-- The last part of the key is a number that is an `int`. -/
def Numbered (key : Str) : Prop :=
  idNameOf key ≠ [] ∧ (idNameOf key).all Char.isDigit ∧ ∃ value, stoi (idNameOf key) = .ok value

section

variable {handler : RequestHandler} {cwd : Path} {s s' : CrudState} {request : Request} {t t' : FileTree}

theorem inside_pathOf (key : Str) : Inside handler cwd (pathOf handler key) ↔ Stays handler cwd key := by
  unfold Inside Stays pathOf rootAt
  rw [placeOf_below cwd handler.dir_ key]

/-- What is inside has everything below it inside. -/
theorem Inside.below {path : Str} (h : Inside handler cwd path) (hpath : path ≠ []) {n : Name}
    (hn : Plain n) : Inside handler cwd (path ++ '/' :: n) := by
  unfold Inside at h ⊢
  have hplace : placeOf cwd (path ++ '/' :: n) = n :: placeOf cwd path := by
    have hhead : originAt cwd (path ++ '/' :: n) = originAt cwd path := by
      unfold originAt
      obtain ⟨c, cs, rfl⟩ := List.exists_cons_of_ne_nil hpath
      rfl
    unfold placeOf
    rw [hhead, segments_append, segments_of_not_mem hn.2.2.2, normal_append, normal_cons, normal_nil,
      hn.stepName]
  rw [hplace]
  exact h.trans (List.suffix_cons _ _)

/-! ## 2. The static handler -/

/-- A slash at the end makes no difference. -/
theorem placeOf_slash {s : Str} (h : s ≠ []) : placeOf cwd (s ++ ['/']) = placeOf cwd s := by
  have hhead : originAt cwd (s ++ ['/']) = originAt cwd s := by
    unfold originAt
    obtain ⟨c, cs, rfl⟩ := List.exists_cons_of_ne_nil h
    rfl
  unfold placeOf
  rw [hhead, segments_append s [], normal_append]
  rfl

theorem placeOf_slashes {s : Str} (h : s ≠ []) (n : Nat) :
    placeOf cwd (s ++ List.replicate n '/') = placeOf cwd s := by
  induction n with
  | zero => rw [List.replicate_zero, List.append_nil]
  | succ n ih =>
      rw [List.replicate_succ', ← List.append_assoc, placeOf_slash (by simp [h]), ih]

/-- A path of slashes is the root directory. -/
theorem placeOf_replicate (n : Nat) : placeOf cwd (List.replicate (n + 1) '/') = [] := by
  induction n with
  | zero => rfl
  | succ n ih => rw [List.replicate_succ', placeOf_slash (by simp), ih]

theorem rdropWhile_slashes (s : Str) :
    ∃ n, s = s.rdropWhile (· == '/') ++ List.replicate n '/' := by
  have hall : ∀ c ∈ s.rtakeWhile (· == '/'), c = '/' := fun c hc => by
    simpa using List.mem_rtakeWhile_imp hc
  refine ⟨(s.rtakeWhile (· == '/')).length, ?_⟩
  rw [← List.eq_replicate_of_mem hall]
  exact (List.rdropWhile_append_rtakeWhile ..).symm

/-- The path the static handler opens leads where it would with its slashes. -/
theorem inside_strip (rest : Str) :
    Inside handler cwd ((handler.dir_ ++ '/' :: rest).rdropWhile (· == '/')) ↔ Stays handler cwd rest := by
  rw [← inside_pathOf]
  unfold pathOf
  obtain ⟨n, hn⟩ := rdropWhile_slashes (handler.dir_ ++ '/' :: rest)
  generalize hs : (handler.dir_ ++ '/' :: rest).rdropWhile (· == '/') = s at hn
  by_cases hnil : s = []
  · -- nothing but slashes: the root is the root directory
    rw [hnil, List.nil_append] at hn
    have hroot : rootAt handler cwd = [] := by
      have hall : ∀ c ∈ handler.dir_ ++ ['/'], c = '/' := by
        intro c hc
        refine List.eq_of_mem_replicate (n := n) (hn ▸ ?_)
        rcases List.mem_append.mp hc with hc | hc
        · exact List.mem_append_left _ hc
        · rw [List.mem_singleton.mp hc]
          exact List.mem_append_right _ List.mem_cons_self
      unfold rootAt
      rw [List.eq_replicate_of_mem hall, List.length_append]
      exact placeOf_replicate _
    unfold Inside
    rw [hroot]
    exact ⟨fun _ => List.nil_suffix, fun _ => List.nil_suffix⟩
  · unfold Inside
    rw [hn, placeOf_slashes hnil]

theorem static_inside (target : Str) :
    (∀ path, Static.pathOf handler target = some path → Inside handler cwd path) ↔
      ∀ rest, rest ≠ [] → target = handler.prefix_ ++ '/' :: rest → Stays handler cwd rest := by
  constructor
  · intro h rest hne htarget
    rw [← inside_strip]
    refine h _ ?_
    have hsplit : target = (handler.prefix_ ++ ['/']) ++ rest := by
      rw [htarget]
      simp
    have hlen : 0 < rest.length := List.length_pos_iff.mpr hne
    unfold Static.pathOf
    dsimp only
    rw [if_pos, hsplit, List.drop_left]
    rw [hsplit]
    refine ⟨List.prefix_append _ _, ?_⟩
    rw [@List.length_append _ _ rest]
    omega
  · intro h path hpath
    unfold Static.pathOf at hpath
    dsimp only at hpath
    split at hpath
    · rename_i hpre
      obtain ⟨⟨rest, rfl⟩, hlen⟩ := hpre
      rw [List.drop_left] at hpath
      cases hpath
      rw [inside_strip]
      refine h rest (fun hnil => ?_) (by simp)
      rw [hnil, List.append_nil] at hlen
      omega
    · cases hpath

/-! ## 3. The paths of a CRUD request -/

/-- The paths of `handle_post_request`: an entity that is not known is made a directory first. -/
def postPaths (handler : RequestHandler) (s : CrudState) (suffix : Str) : List Str :=
  let path := pathOf handler suffix
  let written :=
    match getNextId s.fileToId suffix with
    | .error _ => []
    | .ok (value, _) => [path ++ '/' :: toStr value]
  if s.fileToId[suffix]? = none then
    path :: if (createDir s.files path).1 then written else []
  else written

/-- The paths of `handle_put_request`. -/
def putPaths (handler : RequestHandler) (s : CrudState) (suffix : Str) : List Str :=
  let idName := idNameOf suffix
  let entity := entityOf suffix
  let path := pathOf handler suffix
  if idName ≠ [] ∧ idName.all Char.isDigit then
    match stoi idName with
    | .error _ => []
    | .ok _ =>
      if s.fileToId[entity]? = none then
        pathOf handler entity ::
          if (createDir s.files (pathOf handler entity)).1 then [path] else []
      else [path]
  else []

/-- **The paths a request hands to the file system**, in order; a GET and a DELETE ask about one path,
    and read or remove that. -/
def paths (handler : RequestHandler) (s : CrudState) (request : Request) : List Str :=
  match handler.checkRequestUrl request.target false with
  | none => []
  | some suffix =>
    match request.method with
    | .post => postPaths handler s suffix
    | .get => [pathOf handler suffix]
    | .put => putPaths handler s suffix
    | .delete => [pathOf handler suffix]
    | _ => []

/-- All paths of a POST are inside if the entity is. -/
theorem post_inside {suffix : Str} (h : Stays handler cwd suffix) :
    ∀ path ∈ postPaths handler s suffix, Inside handler cwd path := by
  have hentity := (inside_pathOf suffix).mpr h
  have hwritten : ∀ path ∈ (match getNextId s.fileToId suffix with
      | .error _ => []
      | .ok (value, _) => [pathOf handler suffix ++ '/' :: toStr value] : List Str),
      Inside handler cwd path := by
    intro path hpath
    split at hpath
    · cases hpath
    · rename_i value _ _
      rw [List.mem_singleton.mp hpath]
      exact hentity.below (by simp [pathOf]) (plain_toStr value)
  intro path hpath
  unfold postPaths at hpath
  dsimp only at hpath
  split at hpath
  · rcases List.mem_cons.mp hpath with rfl | hpath
    · exact hentity
    · split at hpath
      · exact hwritten path hpath
      · cases hpath
  · exact hwritten path hpath

theorem put_inside {suffix : Str} (h : Stays handler cwd suffix)
    (he : Numbered suffix → Stays handler cwd (entityOf suffix)) :
    ∀ path ∈ putPaths handler s suffix, Inside handler cwd path := by
  have hsuffix := (inside_pathOf suffix).mpr h
  intro path hpath
  unfold putPaths at hpath
  dsimp only at hpath
  split at hpath
  · rename_i hdigits
    split at hpath
    · cases hpath
    · rename_i value hvalue
      split at hpath
      · rcases List.mem_cons.mp hpath with rfl | hpath
        · exact (inside_pathOf _).mpr (he ⟨hdigits.1, hdigits.2, value, hvalue⟩)
        · split at hpath
          · rw [List.mem_singleton.mp hpath]
            exact hsuffix
          · cases hpath
      · rw [List.mem_singleton.mp hpath]
        exact hsuffix
  · cases hpath

theorem crud_inside (target : Str) :
    (∀ (s : CrudState) (request : Request), s.files.cwd = cwd → request.target = target →
        ∀ path ∈ paths handler s request, Inside handler cwd path) ↔
      ∀ key, handler.checkRequestUrl target false = some key →
        Stays handler cwd key ∧ (Numbered key → Stays handler cwd (entityOf key)) := by
  constructor
  · intro h key hkey
    constructor
    · -- a GET asks about it
      refine (inside_pathOf key).mp (h ⟨∅, skeleton [] cwd⟩ ⟨.get, target, [], []⟩ rfl rfl _ ?_)
      unfold paths
      rw [hkey]
      exact List.mem_singleton_self _
    · -- a PUT makes the directory of an entity that is not known
      intro ⟨hne, hdigits, value, hvalue⟩
      refine (inside_pathOf _).mp (h ⟨∅, skeleton [] cwd⟩ ⟨.put, target, [], []⟩ rfl rfl _ ?_)
      have hunknown : ((∅ : FileToId)[entityOf key]? : Option (List Int)) = none :=
        Std.ExtTreeMap.getElem?_empty
      unfold paths putPaths
      rw [hkey]
      dsimp only
      rw [if_pos ⟨hne, hdigits⟩, hvalue]
      dsimp only
      rw [if_pos hunknown]
      exact List.mem_cons_self
  · intro h s request _ htarget path hpath
    unfold paths at hpath
    rw [htarget] at hpath
    split at hpath
    · cases hpath
    · rename_i key hkey
      obtain ⟨hstays, hentity⟩ := h key hkey
      split at hpath
      · exact post_inside hstays path hpath
      · rw [List.mem_singleton.mp hpath, inside_pathOf]
        exact hstays
      · exact put_inside hstays hentity path hpath
      · rw [List.mem_singleton.mp hpath, inside_pathOf]
        exact hstays
      · cases hpath

/-- **When the paths of a target stay inside the root**: what follows the location leads, by its
    spelling, from the root to it or below it; for CRUD, if it ends in an id, what is before the id
    does so too. -/
theorem confined_iff (handler : RequestHandler) (cwd : Path) (target : Str) :
    ((∀ path, Static.pathOf handler target = some path → Inside handler cwd path) ↔
      ∀ rest, rest ≠ [] → target = handler.prefix_ ++ '/' :: rest → Stays handler cwd rest) ∧
    ((∀ (s : CrudState) (request : Request), s.files.cwd = cwd → request.target = target →
        ∀ path ∈ paths handler s request, Inside handler cwd path) ↔
      ∀ key, handler.checkRequestUrl target false = some key →
        Stays handler cwd key ∧ (Numbered key → Stays handler cwd (entityOf key))) :=
  ⟨static_inside target, crud_inside target⟩

/-- **Nobody is kept inside**: a page and an entity next to the root. -/
theorem outside_served :
    ¬ (∀ path, Static.pathOf ⟨"/static".toList, "/www".toList⟩ "/static/../secret".toList = some path →
      Inside ⟨"/static".toList, "/www".toList⟩ [] path) ∧
    ¬ (∀ (s : CrudState) (request : Request), s.files.cwd = [] →
        request.target = "/api/../secret/1".toList →
        ∀ path ∈ paths apiHandler s request, Inside apiHandler [] path) := by
  constructor
  · intro h
    have hpath : Static.pathOf ⟨"/static".toList, "/www".toList⟩ "/static/../secret".toList =
        some "/www/../secret".toList := by decide +kernel
    have hinside := h _ hpath
    revert hinside
    decide +kernel
  · intro h
    have hinside := h apiStart (ask .delete "/api/../secret/1" "") rfl rfl
      "/data/../secret/1".toList (by decide +kernel)
    revert hinside
    decide +kernel

/-! ## 4. What a request changes -/

theorem createDir_at {path : Str} {p : Path} (h : (createDir t path).2.nodes[p]? ≠ t.nodes[p]?) :
    p = placeOf t.cwd path := by
  unfold createDir at h
  split at h
  · exact absurd rfl h
  · split at h
    · rename_i t' hmkdir
      obtain ⟨n, q, hwalk, _, _, _, hnodes⟩ := mkdir_some hmkdir
      dsimp only at h
      rw [hnodes] at h
      split at h
      · rename_i heq
        obtain ⟨es, hes, hblank⟩ := rdropWhile_blanks (segments path)
        unfold placeOf
        rw [hes, normal_append, normal_blanks hblank, ← heq]
        exact walk_normal hwalk
      · exact absurd rfl h
    · exact absurd rfl h

theorem writeToFile_at {disk : Disk} {path content : Str} {p : Path}
    (h : (writeToFile disk t path content).2.nodes[p]? ≠ t.nodes[p]?) : p = placeOf t.cwd path := by
  unfold writeToFile at h
  split at h
  · exact absurd rfl h
  · dsimp only at h
    cases hopen : (disk path content).bind (t.openWrite path) with
    | none =>
        rw [hopen] at h
        exact absurd rfl h
    | some t' =>
        obtain ⟨held, _, hwrite⟩ := Option.bind_eq_some_iff.mp hopen
        obtain ⟨n, q, hresolve, _, _, _, hnodes⟩ := openWrite_some hwrite
        rw [hopen, Option.getD_some, hnodes] at h
        split at h
        · rename_i heq
          rw [← heq]
          exact resolve_place hresolve
        · exact absurd rfl h

/-- A directory that is made or not, and a write: what changes is at one of the two. -/
theorem made_written_at {disk : Disk} {made path content : Str} {p : Path}
    (h : (writeToFile disk (createDir t made).2 path content).2.nodes[p]? ≠ t.nodes[p]?) :
    p = placeOf t.cwd made ∨ p = placeOf t.cwd path := by
  by_cases hmade : (createDir t made).2.nodes[p]? = t.nodes[p]?
  · rw [← hmade] at h
    have hplace := writeToFile_at h
    have hgrows : Grows t (createDir t made).2 := createDir_grows rfl
    rw [hgrows.cwd] at hplace
    exact Or.inr hplace
  · exact Or.inl (createDir_at hmade)

/-- **What a POST or PUT changes** is at the directory of the entity or at the file. -/
theorem Write.changed_at {disk : Disk} {entity path : Str} {value : Int} {files : FileTree}
    {r : Response} (hw : Write handler disk s request entity path value files s' r) {p : Path}
    (hp : s'.files.nodes[p]? ≠ s.files.nodes[p]?) :
    ∃ q ∈ (if s.fileToId[entity]? = none then
        pathOf handler entity ::
          if (createDir s.files (pathOf handler entity)).1 then [path] else []
      else [path]), p = placeOf s.files.cwd q := by
  have hmade := hw.made
  rw [hw.tree] at hp
  by_cases hknown : s.fileToId[entity]? = none
  · rw [if_pos hknown] at hmade ⊢
    obtain rfl : (createDir s.files (pathOf handler entity)).2 = files := by rw [hmade]
    rw [show (createDir s.files (pathOf handler entity)).1 = true by rw [hmade], if_pos rfl]
    rcases made_written_at hp with hplace | hplace
    · exact ⟨_, List.mem_cons_self, hplace⟩
    · exact ⟨_, List.mem_cons_of_mem _ (List.mem_singleton_self _), hplace⟩
  · rw [if_neg hknown] at hmade ⊢
    cases hmade
    exact ⟨_, List.mem_singleton_self _, writeToFile_at hp⟩

theorem post_changed_at {disk : Disk} {suffix : Str} {response r : Response} {b : Bool}
    (h : handlePostRequest handler disk s suffix request response = .ok (s', r, b)) {p : Path}
    (hp : s'.files.nodes[p]? ≠ s.files.nodes[p]?) :
    ∃ path ∈ postPaths handler s suffix, p = placeOf s.files.cwd path := by
  rcases handlePostRequest_write h with ⟨rfl, _⟩ | ⟨n, fileToId, files, hid, hw⟩
  · exact absurd rfl hp
  · have hplace := hw.changed_at hp
    rw [← toStr_natCast, ← pathOf_below] at hplace
    unfold postPaths
    dsimp only
    rw [hid]
    exact hplace

theorem put_changed_at {disk : Disk} {suffix : Str} {response r : Response} {b : Bool}
    (h : handlePutRequest handler disk s suffix request response = .ok (s', r, b)) {p : Path}
    (hp : s'.files.nodes[p]? ≠ s.files.nodes[p]?) :
    ∃ path ∈ putPaths handler s suffix, p = placeOf s.files.cwd path := by
  rcases handlePutRequest_write h with ⟨rfl, _⟩ | ⟨n, files, hne, hdigits, hvalue, hw⟩
  · exact absurd rfl hp
  · unfold putPaths
    dsimp only
    rw [if_pos ⟨hne, List.all_eq_true.mpr hdigits⟩, hvalue]
    exact hw.changed_at hp

theorem get_kept {suffix : Str} {response r : Response} {b : Bool}
    (h : handleGetRequest handler s suffix response = .ok (s', r, b)) : s'.files = s.files := by
  unfold handleGetRequest at h
  dsimp only at h
  split at h
  · cases h
    rfl
  · split at h <;> cases h <;> rfl
  · cases h
    rfl

theorem delete_changed_at {suffix : Str} {response r : Response} {b : Bool}
    (h : handleDeleteRequest handler s suffix response = .ok (s', r, b)) {p : Path}
    (hp : s'.files.nodes[p]? ≠ s.files.nodes[p]?) :
    p = placeOf s.files.cwd (pathOf handler suffix) := by
  unfold handleDeleteRequest at h
  dsimp only at h
  split at h
  · cases h
    exact absurd rfl hp
  · cases h
    exact absurd rfl hp
  · split at h
    · cases h
      exact absurd rfl hp
    · split at h
      · cases h
        exact absurd rfl hp
      · split at h
        · rename_i files hunlink
          cases h
          obtain ⟨q, hresolve, _, _, hnodes⟩ := unlink_some hunlink
          dsimp only at hp
          rw [hnodes] at hp
          split at hp
          · rename_i heq
            rw [← heq]
            exact resolve_place hresolve
          · exact absurd rfl hp
        · cases h
          exact absurd rfl hp

/-- **A request changes the file tree at its paths only.** -/
theorem changed_at {disk : Disk} {response r : Response} {b : Bool}
    (h : handleRequest handler disk s request response = .ok (s', r, b)) {p : Path}
    (hp : s'.files.nodes[p]? ≠ s.files.nodes[p]?) :
    ∃ path ∈ paths handler s request, p = placeOf s.files.cwd path := by
  unfold handleRequest at h
  unfold paths
  cases hsuffix : handler.checkRequestUrl request.target false with
  | none =>
      rw [hsuffix] at h
      cases h
      exact absurd rfl hp
  | some suffix =>
    rw [hsuffix] at h
    cases hm : request.method with
    | post =>
        rw [hm] at h
        exact post_changed_at h hp
    | get =>
        rw [hm] at h
        rw [get_kept h] at hp
        exact absurd rfl hp
    | put =>
        rw [hm] at h
        exact put_changed_at h hp
    | delete =>
        rw [hm] at h
        exact ⟨_, List.mem_singleton_self _, delete_changed_at h hp⟩
    | _ =>
        rw [hm] at h
        cases h
        exact absurd rfl hp

/-! ## 5. What a request looks at -/

/-- Without the tree, what a request comes to. -/
def answerOf (outcome : Outcome) : Except Fault (FileToId × Response × Bool) :=
  outcome.map fun v => (v.1.fileToId, v.2)

theorem createDir_along {path : Str} (h : SameAlong path t t') :
    (createDir t path).1 = (createDir t' path).1 ∧
      ∀ path', SameAlong path' t t' → SameAlong path' (createDir t path).2 (createDir t' path).2 := by
  unfold createDir
  rw [h.lookup]
  split
  · exact ⟨rfl, fun _ hsame => hsame⟩
  · have hmade := h.mkdir
    cases hm : t.mkdir path with
    | none =>
        cases hm' : t'.mkdir path with
        | none => exact ⟨rfl, fun _ hsame => hsame⟩
        | some m' =>
            rw [hm, hm'] at hmade
            cases hmade
    | some m =>
        cases hm' : t'.mkdir path with
        | none =>
            rw [hm, hm'] at hmade
            cases hmade
        | some m' =>
            rw [hm, hm'] at hmade
            cases hmade with
            | some hsame => exact ⟨rfl, hsame⟩

/-- `write_to_file` reports by what the path leads to. -/
theorem writeToFile_along (disk : Disk) (content : Str) {path : Str} (h : SameAlong path t t') :
    (writeToFile disk t path content).1 = (writeToFile disk t' path content).1 := by
  unfold writeToFile
  rw [h.lookup]
  split <;> rfl

variable {disk : Disk} {m : FileToId} {suffix : Str} {response : Response}

theorem post_along (h : ∀ path ∈ postPaths handler ⟨m, t⟩ suffix, SameAlong path t t') :
    answerOf (handlePostRequest handler disk ⟨m, t⟩ suffix request response) =
      answerOf (handlePostRequest handler disk ⟨m, t'⟩ suffix request response) := by
  unfold postPaths at h
  unfold handlePostRequest
  dsimp only at h ⊢
  by_cases hknown : m[suffix]? = none
  · rw [if_pos hknown] at h
    rw [if_pos hknown, if_pos hknown]
    obtain ⟨hmade, hthen⟩ := createDir_along (h _ List.mem_cons_self)
    rw [← hmade]
    cases hcreated : (createDir t (pathOf handler suffix)).1 with
    | false => rfl
    | true =>
        cases hid : getNextId m suffix with
        | error f => rfl
        | ok v =>
            rw [hcreated, if_pos rfl, hid] at h
            have hwritten := writeToFile_along disk request.body
              (hthen _ (h _ (List.mem_cons_of_mem _ (List.mem_singleton_self _))))
            dsimp only
            simp only [Bool.true_eq_false, if_false, ← hwritten]
            split <;> rfl
  · rw [if_neg hknown] at h
    rw [if_neg hknown, if_neg hknown]
    cases hid : getNextId m suffix with
    | error f => rfl
    | ok v =>
        rw [hid] at h
        have hwritten := writeToFile_along disk request.body
          (h _ (List.mem_singleton_self _))
        dsimp only
        simp only [Bool.true_eq_false, if_false, ← hwritten]
        split <;> rfl

theorem put_along (h : ∀ path ∈ putPaths handler ⟨m, t⟩ suffix, SameAlong path t t') :
    answerOf (handlePutRequest handler disk ⟨m, t⟩ suffix request response) =
      answerOf (handlePutRequest handler disk ⟨m, t'⟩ suffix request response) := by
  unfold putPaths at h
  unfold handlePutRequest
  dsimp only at h ⊢
  by_cases hdigits : idNameOf suffix ≠ [] ∧ (idNameOf suffix).all Char.isDigit = true
  · rw [if_pos hdigits] at h
    rw [if_pos hdigits, if_pos hdigits]
    cases hvalue : stoi (idNameOf suffix) with
    | error f => rfl
    | ok value =>
        rw [hvalue] at h
        dsimp only at h ⊢
        by_cases hknown : m[entityOf suffix]? = none
        · rw [if_pos hknown] at h
          have hnot : ¬ m[entityOf suffix]? ≠ none := fun hk => hk hknown
          simp only [if_neg hnot]
          obtain ⟨hmade, hthen⟩ := createDir_along (h _ List.mem_cons_self)
          rw [← hmade]
          cases hcreated : (createDir t (pathOf handler (entityOf suffix))).1 with
          | false => rfl
          | true =>
              rw [hcreated, if_pos rfl] at h
              have hwritten := writeToFile_along disk request.body
                (hthen _ (h _ (List.mem_cons_of_mem _ (List.mem_singleton_self _))))
              simp only [Bool.true_eq_false, if_false, ← hwritten]
              split <;> rfl
        · rw [if_neg hknown] at h
          simp only [if_pos hknown]
          have hwritten := writeToFile_along disk request.body
            (h _ (List.mem_singleton_self _))
          simp only [Bool.true_eq_false, if_false, ← hwritten]
          split <;> rfl
  · rw [if_neg hdigits, if_neg hdigits]
    rfl

theorem get_along (h : SameAlong (pathOf handler suffix) t t') :
    answerOf (handleGetRequest handler ⟨m, t⟩ suffix response) =
      answerOf (handleGetRequest handler ⟨m, t'⟩ suffix response) := by
  unfold handleGetRequest readFromFile
  dsimp only
  rw [h.lookup]
  rcases t'.lookup (pathOf handler suffix) with _ | _ | content <;> rfl

theorem delete_along (h : SameAlong (pathOf handler suffix) t t') :
    answerOf (handleDeleteRequest handler ⟨m, t⟩ suffix response) =
      answerOf (handleDeleteRequest handler ⟨m, t'⟩ suffix response) := by
  unfold handleDeleteRequest
  dsimp only
  rw [h.lookup]
  rcases t'.lookup (pathOf handler suffix) with _ | _ | content
  · rfl
  · rfl
  · dsimp only
    cases stoi (idNameOf suffix) with
    | error f => rfl
    | ok value =>
        dsimp only
        cases m[entityOf suffix]? with
        | none => rfl
        | some ids =>
            have hremoved := h.unlink
            dsimp only
            cases hu : t.unlink (pathOf handler suffix) <;>
              cases hu' : t'.unlink (pathOf handler suffix) <;> rw [hu, hu'] at hremoved
            · rfl
            · cases hremoved
            · cases hremoved
            · rfl

/-- **What a request comes to depends on the tree along its paths only.** -/
theorem answered_along {s s' : CrudState} (hmap : s'.fileToId = s.fileToId)
    (h : ∀ path ∈ paths handler s request, SameAlong path s.files s'.files) :
    answerOf (handleRequest handler disk s request response) =
      answerOf (handleRequest handler disk s' request response) := by
  obtain ⟨m, t⟩ := s
  obtain ⟨m', t'⟩ := s'
  obtain rfl : m' = m := hmap
  unfold paths at h
  unfold handleRequest
  cases hsuffix : handler.checkRequestUrl request.target false with
  | none => rfl
  | some suffix =>
      rw [hsuffix] at h
      cases hm : request.method <;> rw [hm] at h
      case post => exact post_along h
      case get => exact get_along (h _ (List.mem_singleton_self _))
      case put => exact put_along h
      case delete => exact delete_along (h _ (List.mem_singleton_self _))
      all_goals rfl

/-- A static file is a matter of the tree along its path. -/
theorem static_along (h : ∀ path, Static.pathOf handler request.target = some path →
    SameAlong path t t') :
    Static.handleRequest handler t request response = Static.handleRequest handler t' request response := by
  unfold Static.handleRequest readFromFile
  cases hpath : Static.pathOf handler request.target with
  | none => rfl
  | some path =>
      dsimp only
      rw [(h path hpath).lookup]

end

end Googolplex.Crud
