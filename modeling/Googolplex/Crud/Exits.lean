/-
  File:      Googolplex/Crud/Exits.lean
  Subject:   EVERY EXIT OF A CRUD REQUEST, said once in terms of paths
             (`serve_exit`), and the invariant every request keeps (`Wf`).

  * `Home handler t d`: the data directory of the handler is at path `d`.
  * `spot d key`: the path a key spells below `d`; `Opens t d key`: there is a
    directory there and the key walks to it.
  * `Wf`: every known key opens its directory, every id list is strictly
    increasing and in `int`, never negative.
  * `Exit`: what a request can do to a well-formed state. All later invariants
    are read off its constructors; no later proof unfolds an operation.
-/
import Googolplex.Crud.IdLists

namespace Googolplex.Crud

open Cxx Posix Posix.FileTree RequestHandler

/-! ## 1. Keys as places in the tree -/

/-- The data directory of the handler is at `d`. -/
def Home (handler : RequestHandler) (t : FileTree) (d : Path) : Prop :=
  t.resolve (handler.dir_ ++ ['/']) = some d

/-- The path a key spells below the data directory. -/
def spot (d : Path) (key : Str) : Path := normal d (segments key)

/-- The key walks to a directory. -/
def Opens (t : FileTree) (d : Path) (key : Str) : Prop :=
  t.walk d (segments key) = some (spot d key) ∧ t.IsDir (spot d key)

instance (t : FileTree) (d : Path) (key : Str) : Decidable (Opens t d key) :=
  inferInstanceAs (Decidable (_ ∧ _))

section Places

variable {handler : RequestHandler} {t t' : FileTree} {d : Path} {key : Str} {x : Name}

theorem Home.grows (hh : Home handler t d) (hg : Grows t t') : Home handler t' d := hg.resolve hh

theorem Opens.grows (ho : Opens t d key) (hg : Grows t t') : Opens t' d key :=
  ⟨hg.walk ho.1, hg.dirs _ ho.2⟩

theorem home_apiStart : Home apiHandler apiStart.files ["data".toList] := by
  unfold Home
  decide

theorem lookup_pathOf (hh : Home handler t d) (key : Str) :
    t.lookup (pathOf handler key) = (t.walk d (segments key)).bind (t.nodes[·]?) :=
  lookup_base hh key

theorem lookup_dir (hh : Home handler t d) :
    t.lookup (pathOf handler key) = some .dir ↔ Opens t d key := by
  rw [lookup_pathOf hh]
  constructor
  · intro h
    cases hw : t.walk d (segments key) with
    | none => rw [hw] at h; cases h
    | some p =>
        obtain rfl : p = spot d key := walk_normal hw
        rw [hw, Option.bind_some] at h
        exact ⟨hw, h⟩
  · intro ⟨hw, hd⟩
    rw [hw, Option.bind_some]
    exact hd

theorem spot_below (d : Path) (key : Str) (hx : Plain x) :
    spot d (key ++ '/' :: x) = x :: spot d key := by
  unfold spot
  rw [segments_append, segments_of_not_mem hx.2.2.2, normal_append, normal_cons, normal_nil,
    hx.stepName]

theorem spot_plain (d : Path) (hx : Plain x) : spot d x = x :: d := by
  unfold spot
  rw [segments_of_not_mem hx.2.2.2, normal_cons, normal_nil, hx.stepName]

/-- A plain name walks to its place in the data directory, there or not. -/
theorem walk_plain (hh : Home handler t d) (hx : Plain x) :
    t.walk d (segments x) = some (x :: d) := by
  have hd : t.IsDir d := (resolve_dir hh).1
  simp only [segments_of_not_mem hx.2.2.2, walk, if_pos hd, hx.stepName]

theorem lookup_plain (hh : Home handler t d) (hx : Plain x) :
    t.lookup (pathOf handler x) = t.nodes[x :: d]? := by
  rw [lookup_pathOf hh, walk_plain hh hx, Option.bind_some]

theorem pathOf_below (handler : RequestHandler) (key : Str) (x : Name) :
    pathOf handler key ++ '/' :: x = pathOf handler (key ++ '/' :: x) := by
  simp [pathOf]

/-- A plain name below a key walks to the file of that name in the key's directory. -/
theorem Opens.walk_below (ho : Opens t d key) (hx : Plain x) :
    t.walk d (segments (key ++ '/' :: x)) = some (x :: spot d key) := by
  rw [segments_append, segments_of_not_mem hx.2.2.2, walk_concat, ho.1, Option.bind_some,
    if_pos ho.2, hx.stepName]

theorem Opens.lookup_below (ho : Opens t d key) (hh : Home handler t d) (hx : Plain x) :
    t.lookup (pathOf handler (key ++ '/' :: x)) = t.nodes[x :: spot d key]? := by
  rw [lookup_pathOf hh, ho.walk_below hx, Option.bind_some]

theorem plain_of_digits (hne : x ≠ []) (hd : ∀ c ∈ x, c.isDigit = true) : Plain x := by
  refine ⟨hne, ?_, ?_, ?_⟩
  · rintro rfl
    have := hd '.' List.mem_cons_self
    revert this; decide
  · rintro rfl
    have := hd '.' List.mem_cons_self
    revert this; decide
  · intro h
    have := hd '/' h
    revert this; decide

theorem plain_decimal (n : Nat) : Plain (decimal n) :=
  plain_of_digits (decimal_ne_nil n) fun _ => isDigit_of_mem_decimal

theorem plain_toStr (i : Int) : Plain (toStr i) := by
  have hsym : ∀ c, c ≠ '-' → c.isDigit ≠ true → c ∉ toStr i := by
    intro c h1 h2 hc
    rcases mem_toStr hc with h | h
    · exact h1 h
    · exact h2 h
  have hdot : '.' ∉ toStr i := hsym '.' (by decide) (by decide)
  refine ⟨toStr_ne_nil i, fun e => ?_, fun e => ?_, hsym '/' (by decide) (by decide)⟩ <;>
    exact hdot (e ▸ List.mem_cons_self)

/-! ## 2. The file helpers on keys -/

/-- There is nothing where the key leads, and a directory can be made there. -/
def Fresh (handler : RequestHandler) (t : FileTree) (d : Path) (key : Str) : Prop :=
  t.nodes[spot d key]? = none ∧ t.mkdir (pathOf handler key) ≠ none

/-- `t'` is `t` with a directory where the key leads: it was there, or nothing was. -/
structure Made (handler : RequestHandler) (t t' : FileTree) (d : Path) (key : Str) : Prop where
  grows : Grows t t'
  opens : Opens t' d key
  free : Opens t d key ∧ t' = t ∨ Fresh handler t d key
  nodes : ∀ q, t'.nodes[q]? = if spot d key = q then some .dir else t.nodes[q]?

theorem Made.refl (ho : Opens t d key) : Made handler t t d key := by
  refine ⟨Grows.refl t, ho, Or.inl ⟨ho, rfl⟩, fun q => ?_⟩
  split
  · rename_i e; rw [← e]; exact ho.2
  · rfl

/-- What is below the made directory was there before. -/
theorem Made.nodes_below (hm : Made handler t t' d key) (n : Name) :
    t'.nodes[n :: spot d key]? = t.nodes[n :: spot d key]? := by
  rw [hm.nodes, if_neg]
  intro e
  have := congrArg List.length e
  simp at this

/-- A directory below the made one shows that nothing had to be made. -/
theorem Made.of_isDir_below (hm : Made handler t t' d key) (hd : t.IsDir (x :: spot d key)) :
    Opens t d key ∧ t' = t := by
  refine hm.free.resolve_right fun ⟨hnone, _⟩ => ?_
  have hp : t.IsDir (spot d key) := isDir_tail hd
  unfold IsDir at hp
  rw [hnone] at hp
  cases hp

theorem createDir_true (hh : Home handler t d)
    (h : createDir t (pathOf handler key) = (true, t')) : Made handler t t' d key := by
  unfold createDir at h
  split at h
  · rename_i hl
    cases h
    exact Made.refl ((lookup_dir hh).mp hl)
  · rename_i hl
    split at h
    · rename_i files' hm
      cases h
      obtain ⟨hfree, hwalk, hnodes⟩ := mkdir_base hh hl hm
      refine ⟨Grows.of_mkdir hm, ⟨hwalk, ?_⟩, Or.inr ⟨hfree, by rw [hm]; simp⟩, hnodes⟩
      unfold IsDir
      rw [hnodes]
      exact if_pos rfl
    · cases h

theorem createDir_false (hh : Home handler t d)
    (h : createDir t (pathOf handler key) = (false, t')) :
    t' = t ∧ ¬ Opens t d key ∧ t.mkdir (pathOf handler key) = none := by
  unfold createDir at h
  split at h
  · cases h
  · rename_i hl
    split at h
    · cases h
    · rename_i hm
      cases h
      exact ⟨rfl, fun ho => hl ((lookup_dir hh).mpr ho), hm⟩

theorem writeToFile_blocked {disk : Disk} {body : Str} (hh : Home handler t d)
    (ho : Opens t d key) : writeToFile disk t (pathOf handler key) body = (false, t) := by
  unfold writeToFile
  rw [if_pos ((lookup_dir hh).mpr ho)]

/-- A file name below a key is written unless a directory is in the way. -/
theorem writeToFile_below (hh : Home handler t d) (ho : Opens t d key) (hx : Plain x)
    (body : Str) :
    (t.IsDir (x :: spot d key) ∧
      writeToFile Disk.reliable t (pathOf handler (key ++ '/' :: x)) body = (false, t)) ∨
    (¬ t.IsDir (x :: spot d key) ∧ ∃ t',
      writeToFile Disk.reliable t (pathOf handler (key ++ '/' :: x)) body = (true, t') ∧
      Grows t t' ∧
      ∀ q, t'.nodes[q]? = if x :: spot d key = q then some (.file body) else t.nodes[q]?) := by
  have hl := ho.lookup_below hh hx
  unfold writeToFile
  rw [hl]
  by_cases hd : t.IsDir (x :: spot d key)
  · exact Or.inl ⟨hd, if_pos hd⟩
  · refine Or.inr ⟨hd, ?_⟩
    have hr : t.resolve (pathOf handler (key ++ '/' :: x)) = some (x :: spot d key) :=
      (resolve_base hh _).trans (ho.walk_below hx)
    obtain ⟨t', ht'⟩ : ∃ t', t.openWrite (pathOf handler (key ++ '/' :: x)) body = some t' :=
      openWrite_of_resolve body hr hd
    refine ⟨t', ?_, Grows.of_openWrite ht', ?_⟩
    · rw [if_neg (show t.nodes[x :: spot d key]? ≠ some .dir from hd)]
      simp only [Disk.reliable, Option.bind_some, ht', Option.getD_some]
    · obtain ⟨n, p, hr', _, _, _, hn⟩ := openWrite_some ht'
      rw [hr] at hr'
      cases hr'
      exact hn

end Places

/-! ## 3. Suffixes -/

/-- A suffix without a slash is both parts, any other is cut at its last slash. -/
theorem suffix_cut (t : Str) :
    ('/' ∉ t ∧ idNameOf t = t ∧ entityOf t = t) ∨
      (t = entityOf t ++ '/' :: idNameOf t ∧ '/' ∉ idNameOf t) := by
  unfold idNameOf entityOf
  cases h : findLastOf '/' t with
  | none => exact Or.inl ⟨findLastOf_none.mp h, rfl, rfl⟩
  | some i =>
      obtain ⟨a, b, rfl, hb, rfl⟩ := findLastOf_some h
      right
      have e : a ++ '/' :: b = a ++ ['/'] ++ b := by simp
      have hdrop : (a ++ '/' :: b).drop (a.length + 1) = b := by
        rw [e, List.drop_append_of_le_length (by simp)]
        simp
      simp only [List.take_left, hdrop]
      exact ⟨trivial, hb⟩

/-- A suffix without a slash is its own id and entity. -/
theorem suffix_whole {t : Str} (h : '/' ∉ t) : idNameOf t = t ∧ entityOf t = t := by
  rcases suffix_cut t with ⟨_, h1, h2⟩ | ⟨hcut, _⟩
  · exact ⟨h1, h2⟩
  · rw [hcut] at h
    exact absurd (List.mem_append_right _ List.mem_cons_self) h

theorem idNameOf_below {e x : Str} (hx : '/' ∉ x) : idNameOf (e ++ '/' :: x) = x := by
  unfold idNameOf
  rw [findLastOf_append hx]
  have h : e ++ '/' :: x = e ++ ['/'] ++ x := by simp
  simp only
  rw [h, List.drop_append_of_le_length (by simp)]
  simp

theorem entityOf_below {e x : Str} (hx : '/' ∉ x) : entityOf (e ++ '/' :: x) = e := by
  unfold entityOf
  rw [findLastOf_append hx]
  exact List.take_left

/-! ## 4. The invariant -/

/-- What holds before and after every request. -/
structure Wf (handler : RequestHandler) (d : Path) (s : CrudState) : Prop where
  home : Home handler s.files d
  opens : ∀ (k : Str) (ids : List Int), s.fileToId[k]? = some ids → Opens s.files d k
  sorted : ∀ (k : Str) (ids : List Int), s.fileToId[k]? = some ids → ids.SortedLT
  range : ∀ (k : Str) (ids : List Int), s.fileToId[k]? = some ids → ∀ i ∈ ids, 0 ≤ i ∧ i ≤ intMax

section Wf

variable {handler : RequestHandler} {d : Path} {s s' : CrudState}

/-- With no known entity there is nothing to keep but the data directory. -/
theorem Wf.start {files : FileTree} (hh : Home handler files d) : Wf handler d ⟨∅, files⟩ := by
  refine ⟨hh, fun k ids h => ?_, fun k ids h => ?_, fun k ids h => ?_⟩ <;>
    (rw [Std.ExtTreeMap.getElem?_empty] at h; cases h)

/-- An id that is listed is registered already. -/
theorem register_of_mem_idsOf {fileToId : FileToId} {key : Str} {v : Int}
    (h : v ∈ idsOf fileToId key) : register fileToId key v = fileToId := by
  cases hk : fileToId[key]? with
  | none => rw [idsOf_of_none hk] at h; exact absurd h List.not_mem_nil
  | some ids => exact register_of_mem hk (idsOf_of_some hk ▸ h)

theorem Wf.sorted_idsOf (hw : Wf handler d s) (k : Str) : (idsOf s.fileToId k).SortedLT := by
  cases h : s.fileToId[k]? with
  | none => rw [idsOf_of_none h]; exact List.Pairwise.nil.sortedLT
  | some ids => rw [idsOf_of_some h]; exact hw.sorted k ids h

theorem Wf.range_idsOf (hw : Wf handler d s) {k : Str} {i : Int} (hi : i ∈ idsOf s.fileToId k) :
    0 ≤ i ∧ i ≤ intMax := by
  cases h : s.fileToId[k]? with
  | none => rw [idsOf_of_none h] at hi; exact absurd hi List.not_mem_nil
  | some ids => rw [idsOf_of_some h] at hi; exact hw.range k ids h i hi

/-- The invariant after one key was assigned a list and the tree has grown. -/
theorem Wf.assign (hw : Wf handler d s) {files : FileTree} (hg : Grows s.files files) {key : Str}
    {ids : List Int} (ho : Opens files d key) (hs : ids.SortedLT)
    (hr : ∀ i ∈ ids, 0 ≤ i ∧ i ≤ intMax) : Wf handler d ⟨s.fileToId.insert key ids, files⟩ where
  home := hw.home.grows hg
  opens k ids' h := by
    rw [getElem?_assign] at h
    split at h
    · rename_i e; exact e ▸ ho
    · exact (hw.opens k ids' h).grows hg
  sorted k ids' h := by
    rw [getElem?_assign] at h
    split at h
    · cases h; exact hs
    · exact hw.sorted k ids' h
  range k ids' h := by
    rw [getElem?_assign] at h
    split at h
    · cases h; exact hr
    · exact hw.range k ids' h

theorem Wf.register (hw : Wf handler d s) {files : FileTree} (hg : Grows s.files files) {key : Str}
    (ho : Opens files d key) {n : Nat} (hn : (n : Int) ≤ intMax) :
    Wf handler d ⟨register s.fileToId key n, files⟩ := by
  refine hw.assign hg ho (sortedLT_withId (hw.sorted_idsOf key)) fun i hi => ?_
  rcases mem_withId.mp hi with rfl | hi
  · exact ⟨by omega, hn⟩
  · exact hw.range_idsOf hi

end Wf

/-! ## 5. The exits -/

/-- A request that writes a body: the entity, the file name and the id. -/
inductive Names (handler : RequestHandler) (s : CrudState) (request : Request) :
    Str → Name → Nat → Prop
  | post {e : Str} {n : Nat} {fileToId : FileToId} (hm : request.method = .post)
      (ht : handler.checkRequestUrl request.target false = some e)
      (hid : getNextId s.fileToId e = .ok ((n : Int), fileToId)) :
      Names handler s request e (decimal n) n
  | put {e : Str} {x : Name} {n : Nat} (hm : request.method = .put)
      (ht : handler.checkRequestUrl request.target false = some (e ++ '/' :: x))
      (hx : x ≠ []) (hd : ∀ c ∈ x, c.isDigit = true) (hv : stoi x = .ok (n : Int)) :
      Names handler s request e x n

section Names

variable {handler : RequestHandler} {s : CrudState} {request : Request}

/-- A request names one file. -/
theorem Names.unique {e e' : Str} {x x' : Name} {n n' : Nat} (h : Names handler s request e x n)
    (h' : Names handler s request e' x' n') : e = e' ∧ x = x' ∧ n = n' := by
  cases h with
  | post hm ht hid =>
      cases h' with
      | post hm' ht' hid' =>
          rw [ht] at ht'
          cases ht'
          rw [hid] at hid'
          cases hid'
          exact ⟨rfl, rfl, rfl⟩
      | put hm' => rw [hm] at hm'; cases hm'
  | put hm ht hx hd hv =>
      cases h' with
      | post hm' => rw [hm] at hm'; cases hm'
      | put hm' ht' hx' hd' hv' =>
          have hs : '/' ∉ x := (plain_of_digits hx hd).2.2.2
          have hs' : '/' ∉ x' := (plain_of_digits hx' hd').2.2.2
          obtain ⟨rfl, rfl⟩ := cut_last hs hs' (Option.some.inj (ht.symm.trans ht'))
          rw [hv] at hv'
          cases hv'
          exact ⟨rfl, rfl, rfl⟩

theorem Names.plain {e : Str} {x : Name} {n : Nat} (h : Names handler s request e x n) :
    Plain x := by
  cases h with
  | post => exact plain_decimal n
  | put hm ht hx hd => exact plain_of_digits hx hd

/-- The method and the suffix of a request that writes. -/
theorem Names.target {e : Str} {x : Name} {n : Nat} (h : Names handler s request e x n) :
    (request.method = .post ∧ handler.checkRequestUrl request.target false = some e) ∨
      (request.method = .put ∧
        handler.checkRequestUrl request.target false = some (e ++ '/' :: x) ∧ '/' ∉ x ∧
        idNameOf (e ++ '/' :: x) ≠ [] ∧ (idNameOf (e ++ '/' :: x)).all Char.isDigit = true) := by
  cases h with
  | post hm ht => exact Or.inl ⟨hm, ht⟩
  | put hm ht hx hd =>
      have hs : '/' ∉ x := (plain_of_digits hx hd).2.2.2
      rw [idNameOf_below hs]
      exact Or.inr ⟨hm, ht, hs, hx, List.all_eq_true.mpr hd⟩

end Names

/-- The body of the answer to a request for a list of ids. -/
def listBody (ids : List Int) : Str := '[' :: [','].intercalate (ids.map toStr) ++ "]\n".toList

/-- The body of the answer to a stored body: a new id, or one that was listed. -/
def storedBody (listed : Prop) [Decidable listed] (n : Int) : Str :=
  (if listed then "Updated" else "Created").toList ++ " entry at \x7b\"id\":".toList ++
    toStr n ++ "\x7d\n".toList

/-- A request that is turned down at once: why, and what is answered. -/
inductive Refusal (handler : RequestHandler) (d : Path) (s : CrudState) (request : Request) :
    Response → Prop
  | badUrl (ht : handler.checkRequestUrl request.target false = none) :
      Refusal handler d s request (prepareBadRequestResponse { })
  | badMethod (hm : request.method ≠ .post ∧ request.method ≠ .get ∧ request.method ≠ .put ∧
        request.method ≠ .delete) :
      Refusal handler d s request (prepareBadRequestResponse { })
  | noDirectory {t e : Str} (ht : handler.checkRequestUrl request.target false = some t)
      (hm : request.method = .post ∧ e = t ∨ request.method = .put ∧ e = entityOf t)
      (hk : s.fileToId[e]? = none) (ho : ¬ Opens s.files d e)
      (hmk : s.files.mkdir (pathOf handler e) = none) :
      Refusal handler d s request (prepareUnprocessableEntityResponse { })
  | absent {t : Str} (ht : handler.checkRequestUrl request.target false = some t)
      (hm : request.method = .get ∨ request.method = .delete)
      (hl : s.files.lookup (pathOf handler t) = none) :
      Refusal handler d s request (prepareNotFoundResponse { })
  | noNumber {t : Str} (ht : handler.checkRequestUrl request.target false = some t)
      (hm : request.method = .put)
      (hd : ¬ (idNameOf t ≠ [] ∧ (idNameOf t).all Char.isDigit = true)) :
      Refusal handler d s request (prepareNotFoundResponse { })
  | isDirectory {t : Str} (ht : handler.checkRequestUrl request.target false = some t)
      (hm : request.method = .delete) (ho : Opens s.files d t) :
      Refusal handler d s request (noFileIdResponse { })
  | noId {t : Str} {f : StoiError} (ht : handler.checkRequestUrl request.target false = some t)
      (hm : request.method = .delete) (hv : stoi (idNameOf t) = .error f) :
      Refusal handler d s request (noFileIdResponse { })
  | unknown {t : Str} (ht : handler.checkRequestUrl request.target false = some t)
      (hm : request.method = .delete) (hk : s.fileToId[entityOf t]? = none) :
      Refusal handler d s request (prepareNotFoundResponse { })

theorem Refusal.error {handler : RequestHandler} {d : Path} {s : CrudState} {request : Request}
    {r : Response} (h : Refusal handler d s request r) : 400 ≤ r.result.toNat := by
  cases h <;> simp [prepareBadRequestResponse, prepareUnprocessableEntityResponse,
    prepareNotFoundResponse, noFileIdResponse, Status.toNat]

/-- **What a request does to a well-formed state**, one constructor for each way it can end.
    `blocked` and `bare` are answered with an error and yet leave a trace. -/
inductive Exit (handler : RequestHandler) (d : Path) (s : CrudState) (request : Request) :
    CrudState → Response → Prop
  /-- Nothing is changed, the answer is an error. -/
  | refused {r r₀ : Response} (h : Refusal handler d s request r₀) (hr : r.result = r₀.result)
      (hb : r.body = r₀.body) : Exit handler d s request s r
  /-- GET of a directory: the list, of a key that is known from then on. -/
  | listed {t : Str} {r : Response} (hm : request.method = .get)
      (ht : handler.checkRequestUrl request.target false = some t) (ho : Opens s.files d t)
      (hr : r.result = .ok) (hb : r.body = listBody (idsOf s.fileToId t)) :
      Exit handler d s request ⟨s.fileToId.insert t (idsOf s.fileToId t), s.files⟩ r
  /-- GET of a file. -/
  | read {t c : Str} {q : Path} {r : Response} (hm : request.method = .get)
      (ht : handler.checkRequestUrl request.target false = some t)
      (hw : s.files.walk d (segments t) = some q) (hq : s.files.nodes[q]? = some (.file c))
      (hr : r.result = .ok) (hb : r.body = c) : Exit handler d s request s r
  /-- POST or PUT that writes the body. -/
  | stored {e : Str} {x : Name} {n : Nat} {files : FileTree} {r : Response}
      (hn : Names handler s request e x n)
      (hdir : Opens s.files d e ∨ s.fileToId[e]? = none ∧ Fresh handler s.files d e)
      (hfree : ¬ s.files.IsDir (x :: spot d e)) (hg : Grows s.files files)
      (ho : Opens files d e)
      (hnodes : ∀ q, files.nodes[q]? = if x :: spot d e = q then some (.file request.body)
        else if spot d e = q then some .dir else s.files.nodes[q]?)
      (hr : r.result = if (n : Int) ∈ idsOf s.fileToId e then .ok else .created)
      (hb : r.body = storedBody ((n : Int) ∈ idsOf s.fileToId e) n) :
      Exit handler d s request ⟨register s.fileToId e n, files⟩ r
  /-- POST or PUT with a directory where the file should go: the id is registered all the same. -/
  | blocked {e : Str} {x : Name} {n : Nat} {r : Response} (hn : Names handler s request e x n)
      (ho : Opens s.files d e) (hd : s.files.IsDir (x :: spot d e)) (hr : 400 ≤ r.result.toNat) :
      Exit handler d s request ⟨register s.fileToId e n, s.files⟩ r
  /-- PUT of a number without an entity: the number becomes the entity and the id. -/
  | bare {t : Str} {n : Nat} {files : FileTree} {r : Response} (hm : request.method = .put)
      (ht : handler.checkRequestUrl request.target false = some t) (hne : t ≠ [])
      (hd : ∀ c ∈ t, c.isDigit = true) (hv : stoi t = .ok (n : Int))
      (hmade : Made handler s.files files d t) (hr : 400 ≤ r.result.toNat) :
      Exit handler d s request ⟨register s.fileToId t n, files⟩ r
  /-- DELETE of a file. -/
  | deleted {e : Str} {x : Name} {v : Int} {ids : List Int} {files : FileTree} {r : Response}
      (hm : request.method = .delete)
      (ht : handler.checkRequestUrl request.target false = some (e ++ '/' :: x)) (hx : Plain x)
      (hv : stoi x = .ok v) (hk : s.fileToId[e]? = some ids)
      (hf : s.files.IsFile (x :: spot d e)) (hg : Grows s.files files)
      (hnodes : ∀ q, files.nodes[q]? = if x :: spot d e = q then none else s.files.nodes[q]?)
      (hr : r.result = .ok)
      (hb : r.body = "Successfully deleted file at /".toList ++ e ++ ".\n".toList) :
      Exit handler d s request ⟨s.fileToId.insert e (ids.filter (· ≠ v)), files⟩ r

/-! ## 6. Every request takes one of the exits -/

section Exits

variable {handler : RequestHandler} {d : Path} {s s' : CrudState} {request : Request}
  {response r : Response} {b : Bool}

/-- The end of POST and PUT: the file is written, or a directory is in its way. -/
theorem exit_write (good bad : Response) (hw : Wf handler d s) {e : Str} {x : Name} {n : Nat}
    {files files' : FileTree} {written : Bool} (hn : Names handler s request e x n) (hx : Plain x)
    (hmade : Made handler s.files files d e) (hknown : s.fileToId[e]? ≠ none → Opens s.files d e)
    (hgood : good.result = if (n : Int) ∈ idsOf s.fileToId e then .ok else .created)
    (hbody : good.body = storedBody ((n : Int) ∈ idsOf s.fileToId e) n)
    (hbad : 400 ≤ bad.result.toNat)
    (h : writeToFile Disk.reliable files (pathOf handler (e ++ '/' :: x)) request.body =
      (written, files')) :
    Exit handler d s request ⟨register s.fileToId e n, files'⟩ (if written then good else bad) := by
  rcases writeToFile_below (hw.home.grows hmade.grows) hmade.opens hx request.body with
    ⟨hdir, hfalse⟩ | ⟨hfree, t', htrue, hg, hnodes⟩
  · rw [hfalse] at h
    cases h
    have hdir' : s.files.IsDir (x :: spot d e) := (hmade.nodes_below x).symm.trans hdir
    obtain ⟨ho, rfl⟩ := hmade.of_isDir_below hdir'
    exact .blocked hn ho hdir' hbad
  · rw [htrue] at h
    cases h
    refine .stored hn ?_ (fun hd => hfree ((hmade.nodes_below x).trans hd)) (hmade.grows.trans hg)
      (hmade.opens.grows hg) (fun q => ?_) hgood hbody
    · rcases hmade.free with ⟨ho, _⟩ | hfresh
      · exact Or.inl ho
      · by_cases hk : s.fileToId[e]? = none
        · exact Or.inr ⟨hk, hfresh⟩
        · exact Or.inl (hknown hk)
    · rw [hnodes, hmade.nodes]

theorem exit_post (hw : Wf handler d s) (hm : request.method = .post) {e : Str}
    (ht : handler.checkRequestUrl request.target false = some e)
    (h : handlePostRequest handler Disk.reliable s e request response = .ok (s', r, b)) :
    Exit handler d s request s' r := by
  unfold handlePostRequest at h
  simp only at h
  generalize hc : (if s.fileToId[e]? = none then createDir s.files (pathOf handler e)
    else (true, s.files)) = made at h
  obtain ⟨created, files⟩ := made
  cases created with
  | false =>
      split at hc
      · rename_i hk
        obtain ⟨rfl, ho, hmk⟩ := createDir_false hw.home hc
        simp only [if_true] at h
        cases h
        exact .refused (.noDirectory ht (Or.inl ⟨hm, rfl⟩) hk ho hmk) rfl rfl
      · cases hc
  | true =>
      have hmade : Made handler s.files files d e := by
        split at hc
        · exact createDir_true hw.home hc
        · rename_i hk
          cases hc
          obtain ⟨ids, hids⟩ := Option.ne_none_iff_exists'.mp hk
          exact Made.refl (hw.opens e ids hids)
      simp only [Bool.true_eq_false, if_false] at h
      cases hid : getNextId s.fileToId e with
      | error f => rw [hid] at h; cases h
      | ok v =>
          obtain ⟨value, fileToId⟩ := v
          obtain ⟨h1, h2, h3, _, rfl⟩ := getNextId_ok (hw.sorted_idsOf e) hid
          obtain ⟨n, rfl⟩ := Int.eq_ofNat_of_zero_le (show 0 ≤ value by omega)
          simp only [hid, toStr_natCast, pathOf_below] at h
          cases hwr : writeToFile Disk.reliable files (pathOf handler (e ++ '/' :: decimal n))
              request.body with
          | mk written files' =>
              rw [hwr] at h
              have hexit := exit_write (prepareCreatedResponse n response)
                (prepareInternalServerErrorResponse response) hw (.post hm ht hid)
                (plain_decimal n) hmade (fun hk => ?_) ?_ ?_ ?_ hwr
              · cases written <;> (cases h; exact hexit)
              · obtain ⟨ids, hids⟩ := Option.ne_none_iff_exists'.mp hk
                exact hw.opens e ids hids
              · rw [if_neg h3]; rfl
              · simp [prepareCreatedResponse, storedBody, h3]
              · simp [prepareInternalServerErrorResponse, Status.toNat]

theorem exit_get (hw : Wf handler d s) (hm : request.method = .get) {t : Str}
    (ht : handler.checkRequestUrl request.target false = some t)
    (h : handleGetRequest handler s t response = .ok (s', r, b)) :
    Exit handler d s request s' r := by
  unfold handleGetRequest readFromFile at h
  simp only at h
  cases hl : s.files.lookup (pathOf handler t) with
  | none =>
      rw [hl] at h
      cases h
      exact .refused (.absent ht (Or.inl hm) hl) rfl rfl
  | some node =>
      rw [hl] at h
      cases node with
      | dir =>
          cases h
          exact .listed hm ht ((lookup_dir hw.home).mp hl) rfl rfl
      | file content =>
          cases h
          rw [lookup_pathOf hw.home] at hl
          obtain ⟨q, hq, hc⟩ := Option.bind_eq_some_iff.mp hl
          exact .read hm ht hq hc rfl rfl

theorem exit_put (hw : Wf handler d s) (hm : request.method = .put) {t : Str}
    (ht : handler.checkRequestUrl request.target false = some t)
    (h : handlePutRequest handler Disk.reliable s t request response = .ok (s', r, b)) :
    Exit handler d s request s' r := by
  unfold handlePutRequest at h
  simp only at h
  by_cases hdig : idNameOf t ≠ [] ∧ (idNameOf t).all Char.isDigit = true
  · rw [if_pos hdig] at h
    obtain ⟨hne, hall⟩ := hdig
    have hd : ∀ c ∈ idNameOf t, c.isDigit = true := List.all_eq_true.mp hall
    cases hv : stoi (idNameOf t) with
    | error f => rw [hv] at h; cases h
    | ok value =>
        obtain ⟨n, rfl⟩ := stoi_natural hne hd hv
        simp only [hv] at h
        generalize hc : (if s.fileToId[entityOf t]? ≠ none then (true, s.files)
          else createDir s.files (pathOf handler (entityOf t))) = made at h
        obtain ⟨created, files⟩ := made
        cases created with
        | false =>
            split at hc
            · cases hc
            · rename_i hk
              obtain ⟨rfl, ho, hmk⟩ := createDir_false hw.home hc
              simp only [if_true] at h
              cases h
              exact .refused (.noDirectory ht (Or.inr ⟨hm, rfl⟩) (not_not.mp hk) ho hmk) rfl rfl
        | true =>
            have hmade : Made handler s.files files d (entityOf t) := by
              split at hc
              · rename_i hk
                cases hc
                obtain ⟨ids, hids⟩ := Option.ne_none_iff_exists'.mp hk
                exact Made.refl (hw.opens _ ids hids)
              · exact createDir_true hw.home hc
            -- both branches register the id; they differ in the answer they prepare
            have hreg : (if s.fileToId[entityOf t]? ≠ none then
                ((insertToMap s.fileToId (entityOf t) n).2,
                  if (insertToMap s.fileToId (entityOf t) n).1 = true then
                    prepareCreatedResponse n response else updatedResponse n response)
                else (s.fileToId.insert (entityOf t) [(n : Int)], prepareCreatedResponse n response)) =
                (register s.fileToId (entityOf t) n,
                  if (n : Int) ∈ idsOf s.fileToId (entityOf t) then updatedResponse n response
                  else prepareCreatedResponse n response) := by
              cases hk : s.fileToId[entityOf t]? with
              | none =>
                  rw [if_neg (by simp), register_unknown hk, idsOf_of_none hk]
                  simp
              | some ids =>
                  rw [if_pos (by simp), insertToMap_known hk, idsOf_of_some hk]
                  by_cases hmem : (n : Int) ∈ ids <;> simp [hmem]
            simp only [Bool.true_eq_false, if_false] at h
            rw [hreg] at h
            simp only at h
            cases hwr : writeToFile Disk.reliable files (pathOf handler t) request.body with
            | mk written files' =>
                rw [hwr] at h
                rcases suffix_cut t with ⟨_, hid, hent⟩ | ⟨hcut, _⟩
                · -- no slash: the path to write is the directory just made
                  rw [hent] at hmade h
                  rw [hid] at hne hd hv
                  rw [writeToFile_blocked (hw.home.grows hmade.grows) hmade.opens] at hwr
                  cases hwr
                  simp only [Bool.false_eq_true, if_false] at h
                  cases h
                  exact .bare hm ht hne hd hv hmade (by simp [prepareNotFoundResponse, Status.toNat])
                · rw [hcut] at ht hwr
                  have hexit := exit_write
                    (if (n : Int) ∈ idsOf s.fileToId (entityOf t) then updatedResponse n response
                      else prepareCreatedResponse n response)
                    (prepareNotFoundResponse
                      (if (n : Int) ∈ idsOf s.fileToId (entityOf t) then updatedResponse n response
                        else prepareCreatedResponse n response))
                    hw (.put hm ht hne hd hv) (plain_of_digits hne hd) hmade (fun hk => ?_) ?_ ?_ ?_ hwr
                  · cases written <;> (cases h; exact hexit)
                  · obtain ⟨ids, hids⟩ := Option.ne_none_iff_exists'.mp hk
                    exact hw.opens _ ids hids
                  · split <;> rfl
                  · split
                    · rename_i hmem
                      simp [updatedResponse, storedBody, hmem]
                    · rename_i hmem
                      simp [prepareCreatedResponse, storedBody, hmem]
                  · simp [prepareNotFoundResponse, Status.toNat]
  · rw [if_neg hdig] at h
    cases h
    exact .refused (.noNumber ht hm hdig) rfl rfl

theorem exit_delete (hw : Wf handler d s) (hm : request.method = .delete) {t : Str}
    (ht : handler.checkRequestUrl request.target false = some t)
    (h : handleDeleteRequest handler s t response = .ok (s', r, b)) :
    Exit handler d s request s' r := by
  unfold handleDeleteRequest at h
  simp only at h
  cases hl : s.files.lookup (pathOf handler t) with
  | none =>
      rw [hl] at h
      cases h
      exact .refused (.absent ht (Or.inr hm) hl) rfl rfl
  | some node =>
      rw [hl] at h
      cases node with
      | dir =>
          cases h
          exact .refused (.isDirectory ht hm ((lookup_dir hw.home).mp hl)) rfl rfl
      | file content =>
          simp only at h
          cases hv : stoi (idNameOf t) with
          | error f =>
              rw [hv] at h
              cases h
              exact .refused (.noId ht hm hv) rfl rfl
          | ok v =>
              simp only [hv] at h
              cases hk : s.fileToId[entityOf t]? with
              | none =>
                  rw [hk] at h
                  cases h
                  exact .refused (.unknown ht hm hk) rfl rfl
              | some ids =>
                  simp only [hk] at h
                  cases hu : s.files.unlink (pathOf handler t) with
                  | none =>
                      -- what `exists` and is no directory can be removed
                      obtain ⟨q, hq, hc⟩ := Option.bind_eq_some_iff.mp hl
                      obtain ⟨files, hfiles⟩ := unlink_of_resolve hq ⟨content, hc⟩
                      rw [hu] at hfiles
                      cases hfiles
                  | some files =>
                      rw [hu] at h
                      cases h
                      have ho := hw.opens _ ids hk
                      obtain ⟨q, hres, hf, _, hnodes⟩ := unlink_some hu
                      rcases suffix_cut t with ⟨_, _, hent⟩ | ⟨hcut, hns⟩
                      · -- a known entity is a directory, which the file is not
                        rw [hent] at ho
                        rw [(lookup_dir hw.home).mpr ho] at hl
                        cases hl
                      · rw [hcut] at ht
                        have hwalk : s.files.walk d (segments (entityOf t ++ '/' :: idNameOf t)) =
                            some q := by
                          rw [← hcut]
                          exact (resolve_base hw.home t).symm.trans hres
                        rw [segments_append, segments_of_not_mem hns, walk_concat, ho.1,
                          Option.bind_some, if_pos ho.2] at hwalk
                        have hq : stepName (spot d (entityOf t)) (idNameOf t) = q := by
                          simpa using hwalk
                        have hx : Plain (idNameOf t) := by
                          refine ⟨fun e0 => ?_, fun e1 => ?_, fun e2 => ?_, hns⟩
                          · rw [e0] at hq
                            exact hf.not_isDir (hq ▸ ho.2)
                          · rw [e1] at hq
                            exact hf.not_isDir (hq ▸ ho.2)
                          · rw [e2] at hq
                            exact hf.not_isDir (hq ▸ isDir_tail ho.2)
                        rw [hx.stepName] at hq
                        subst hq
                        exact .deleted hm ht hx hv hk hf (Grows.of_unlink hu) hnodes rfl (by simp)

/-- **Every request on a well-formed state takes one of the exits.** -/
theorem serve_exit (hw : Wf handler d s)
    (h : serve handler Disk.reliable s request = .ok (s', r)) : Exit handler d s request s' r := by
  unfold serve handleRequest at h
  cases ht : handler.checkRequestUrl request.target false with
  | none =>
      simp only [ht] at h
      cases h
      exact .refused (.badUrl ht) rfl rfl
  | some t =>
      simp only [ht] at h
      cases hm : request.method with
      | post =>
          simp only [hm] at h
          split at h
          · cases h
          · rename_i heq; cases h; exact exit_post hw hm ht heq
      | get =>
          simp only [hm] at h
          split at h
          · cases h
          · rename_i heq; cases h; exact exit_get hw hm ht heq
      | put =>
          simp only [hm] at h
          split at h
          · cases h
          · rename_i heq; cases h; exact exit_put hw hm ht heq
      | delete =>
          simp only [hm] at h
          split at h
          · cases h
          · rename_i heq; cases h; exact exit_delete hw hm ht heq
      | _ =>
          simp only [hm] at h
          cases h
          exact .refused (.badMethod (by simp [hm])) rfl rfl

theorem handlePostRequest_error {disk : Disk} {f : Fault} {t : Str}
    (h : handlePostRequest handler disk s t request response = .error f) :
    f = .signedOverflow ∧ getNextId s.fileToId t = .error .signedOverflow := by
  unfold handlePostRequest at h
  simp only at h
  generalize (if s.fileToId[t]? = none then createDir s.files (pathOf handler t)
    else (true, s.files)) = made at h
  obtain ⟨created, files⟩ := made
  cases created with
  | false => cases h
  | true =>
      simp only [Bool.true_eq_false, if_false] at h
      cases hid : getNextId s.fileToId t with
      | error g =>
          rw [hid] at h
          cases h
          have hg : f = .signedOverflow := getNextId_error hid
          exact ⟨hg, by rw [hg]⟩
      | ok v =>
          obtain ⟨value, fileToId⟩ := v
          simp only [hid] at h
          split at h <;> cases h

theorem handleGetRequest_ok {f : Fault} {t : Str} :
    handleGetRequest handler s t response ≠ .error f := by
  intro h
  unfold handleGetRequest readFromFile at h
  simp only at h
  cases hl : s.files.lookup (pathOf handler t) with
  | none => rw [hl] at h; cases h
  | some node =>
      rw [hl] at h
      cases node <;> cases h

theorem handlePutRequest_error {disk : Disk} {f : Fault} {t : Str}
    (h : handlePutRequest handler disk s t request response = .error f) :
    f = .outOfRange ∧ (idNameOf t ≠ [] ∧ (idNameOf t).all Char.isDigit = true) ∧
      ∃ g, stoi (idNameOf t) = .error g := by
  unfold handlePutRequest at h
  simp only at h
  by_cases hdig : idNameOf t ≠ [] ∧ (idNameOf t).all Char.isDigit = true
  · rw [if_pos hdig] at h
    cases hv : stoi (idNameOf t) with
    | error g =>
        rw [hv] at h
        cases h
        exact ⟨rfl, hdig, g, rfl⟩
    | ok value =>
        simp only [hv] at h
        generalize (if s.fileToId[entityOf t]? ≠ none then (true, s.files)
          else createDir s.files (pathOf handler (entityOf t))) = made at h
        obtain ⟨created, files⟩ := made
        cases created with
        | false => cases h
        | true =>
            simp only [Bool.true_eq_false, if_false] at h
            split at h <;> cases h
  · rw [if_neg hdig] at h
    cases h

theorem handleDeleteRequest_ok {f : Fault} {t : Str} :
    handleDeleteRequest handler s t response ≠ .error f := by
  intro h
  unfold handleDeleteRequest at h
  simp only at h
  cases hl : s.files.lookup (pathOf handler t) with
  | none => rw [hl] at h; cases h
  | some node =>
      rw [hl] at h
      cases node with
      | dir => cases h
      | file content =>
          simp only at h
          cases hv : stoi (idNameOf t) with
          | error g => rw [hv] at h; cases h
          | ok v =>
              simp only [hv] at h
              cases hk : s.fileToId[entityOf t]? with
              | none => rw [hk] at h; cases h
              | some ids =>
                  simp only [hk] at h
                  cases hu : s.files.unlink (pathOf handler t) <;> (rw [hu] at h; cases h)

/-- **The two ways a request can fail to be answered**: the id counter of POST overflows, or the
    unguarded `stoi` of PUT throws. -/
theorem serve_error {disk : Disk} {f : Fault} (h : serve handler disk s request = .error f) :
    (f = .signedOverflow ∧ request.method = .post ∧ ∃ e,
      handler.checkRequestUrl request.target false = some e ∧
      getNextId s.fileToId e = .error .signedOverflow) ∨
    (f = .outOfRange ∧ request.method = .put ∧ ∃ t,
      handler.checkRequestUrl request.target false = some t ∧ (idNameOf t ≠ [] ∧
      (idNameOf t).all Char.isDigit = true) ∧ ∃ g, stoi (idNameOf t) = .error g) := by
  unfold serve at h
  split at h
  · rename_i f' heq
    cases h
    unfold handleRequest at heq
    cases ht : handler.checkRequestUrl request.target false with
    | none => simp only [ht] at heq; cases heq
    | some t =>
        simp only [ht] at heq
        cases hm : request.method with
        | post =>
            simp only [hm] at heq
            obtain ⟨rfl, hid⟩ := handlePostRequest_error heq
            exact Or.inl ⟨rfl, rfl, t, rfl, hid⟩
        | get => simp only [hm] at heq; exact absurd heq handleGetRequest_ok
        | put =>
            simp only [hm] at heq
            obtain ⟨rfl, hd, hg⟩ := handlePutRequest_error heq
            exact Or.inr ⟨rfl, rfl, t, rfl, hd, hg⟩
        | delete => simp only [hm] at heq; exact absurd heq handleDeleteRequest_ok
        | _ => simp only [hm] at heq; cases heq
  · cases h

/-- **The invariant is kept by every request.** -/
theorem Exit.wf (hw : Wf handler d s) (h : Exit handler d s request s' r) : Wf handler d s' := by
  have names_le : ∀ {e x n}, Names handler s request e x n → (n : Int) ≤ intMax := by
    intro e x n hn
    cases hn with
    | post hm ht hid => exact (getNextId_ok (hw.sorted_idsOf _) hid).2.1
    | put hm ht hx hd hv => exact stoi_le_intMax hv
  cases h with
  | refused => exact hw
  | listed hm ht ho =>
      exact hw.assign (Grows.refl _) ho (hw.sorted_idsOf _) fun i => hw.range_idsOf
  | read => exact hw
  | stored hn hdir hfree hg ho => exact hw.register hg ho (names_le hn)
  | blocked hn ho => exact hw.register (Grows.refl _) ho (names_le hn)
  | bare hm ht hne hd hv hmade => exact hw.register hmade.grows hmade.opens (stoi_le_intMax hv)
  | deleted hm ht hx hv hk hf hg =>
      refine hw.assign hg ((hw.opens _ _ hk).grows hg) ?_ fun i hi => ?_
      · exact ((hw.sorted _ _ hk).pairwise.filter _).sortedLT
      · exact hw.range _ _ hk i (List.mem_of_mem_filter hi)

/-- **Every state a run from a well-formed one reaches is well-formed.** -/
theorem run_wf (hw : Wf handler d s) {requests : List Request} {responses : List Response}
    (h : Machine.run (serve handler Disk.reliable) s requests = .ok (s', responses)) :
    Wf handler d s' :=
  Machine.Reachable.invariant (fun _ _ _ _ hi hs => (serve_exit hi hs).wf hi) hw ⟨_, _, h⟩

end Exits

end Googolplex.Crud
