/-
  File:      Googolplex/Crud/Truth.lean
  Subject:   When the id lists tell the truth: the ids listed for a known
             entity are the numbers of the files in its directory.

  They need not: the list records the number a file name spells, the file has
  the name; two keys can spell one directory; a request can register an id and
  fail to write. `Honest` is the condition on one request, in the state before
  it, under which the lists stay true; `truthful_throughout` says that it is
  the exact one.
-/
import Googolplex.Crud.Inversion

namespace Googolplex.Crud

open Cxx Posix Posix.FileTree RequestHandler Machine

/-! ## 1. The lists and the files -/

/-- The file of number `n` is in the directory of the key. -/
def Holds (t : FileTree) (d : Path) (e : Str) (n : Int) : Prop := t.IsFile (toStr n :: spot d e)

/-- Another known key spells the directory of `e`. -/
def Twin (s : CrudState) (d : Path) (e : Str) : Prop :=
  ∃ k, s.fileToId[k]? ≠ none ∧ k ≠ e ∧ spot d k = spot d e

/-- **The lists are true**: of every known key, the ids listed are the numbers of the files in its
    directory. -/
def TrueLists (d : Path) (s : CrudState) : Prop :=
  ∀ (k : Str) (ids : List Int), s.fileToId[k]? = some ids → ∀ n, n ∈ ids ↔ Holds s.files d k n

/-- **A request that keeps the lists true.**
    `list`: a directory nobody has written to through this key holds no numbered file when it is
    listed. `write`: a key that becomes known has no other number in its directory; a number that
    is not there yet is written under its canonical name, with no directory in the way, and no
    other known key shares the directory. `bare`: a PUT of a number alone, which stores nothing,
    names a file that is there. `delete`: the file has the canonical name of the id and no other
    known key shares the directory, or the id has no file of its own. -/
structure Honest (handler : RequestHandler) (d : Path) (s : CrudState) (request : Request) :
    Prop where
  list : ∀ t, request.method = .get → handler.checkRequestUrl request.target false = some t →
    Opens s.files d t → s.fileToId[t]? = none → ∀ m, ¬ Holds s.files d t m
  write : ∀ e x (n : Nat), Names handler s request e x n → CanOpen handler s d e →
    (s.fileToId[e]? = none → ∀ m, Holds s.files d e m → m = n) ∧
    (¬ Holds s.files d e n → x = decimal n ∧ ¬ s.files.IsDir (x :: spot d e) ∧ ¬ Twin s d e)
  bare : ∀ t (n : Nat), request.method = .put →
    handler.checkRequestUrl request.target false = some t → '/' ∉ t →
    (idNameOf t ≠ [] ∧ (idNameOf t).all Char.isDigit = true) → stoi (idNameOf t) = .ok (n : Int) →
    CanOpen handler s d t →
    (s.fileToId[t]? = none → ∀ m, Holds s.files d t m → m = n) ∧ Holds s.files d t n
  delete : ∀ e x v, request.method = .delete →
    handler.checkRequestUrl request.target false = some (e ++ '/' :: x) → '/' ∉ x →
    stoi x = .ok v → s.fileToId[e]? ≠ none →
    (∃ c, s.files.lookup (pathOf handler (e ++ '/' :: x)) = some (.file c)) →
    if x = toStr v then ¬ Twin s d e else ¬ Holds s.files d e v

section Truth

variable {handler : RequestHandler} {d : Path} {s s' : CrudState} {request : Request}
  {r : Response} {files : FileTree} {e : Str} {x : Name} {n : Nat}

/-- In true lists a known key lists what is there, an unknown one nothing. -/
theorem TrueLists.mem_idsOf (h : TrueLists d s) {i : Int} :
    i ∈ idsOf s.fileToId e ↔ s.fileToId[e]? ≠ none ∧ Holds s.files d e i := by
  cases hk : s.fileToId[e]? with
  | none =>
      rw [idsOf_of_none hk]
      simp
  | some ids =>
      rw [idsOf_of_some hk, h e ids hk i]
      simp

/-- **One key assigned**: the lists stay true if the new list is, and if the directory keeps its
    numbers when another key lists it. -/
theorem trueLists_assign (h : TrueLists d s) {ids : List Int}
    (hother : ∀ k, spot d k ≠ spot d e → ∀ m, Holds files d k m ↔ Holds s.files d k m) :
    TrueLists d ⟨s.fileToId.insert e ids, files⟩ ↔
      (∀ m, m ∈ ids ↔ Holds files d e m) ∧
        (Twin s d e → ∀ m, Holds s.files d e m ↔ Holds files d e m) := by
  constructor
  · intro h'
    refine ⟨h' e ids (getElem?_assign_self _ _ _), ?_⟩
    intro ⟨k, hk, hke, hspot⟩ m
    obtain ⟨ks, hks⟩ := Option.ne_none_iff_exists'.mp hk
    have hold := h k ks hks m
    have hnew := h' k ks ((getElem?_assign_of_ne _ _ (Ne.symm hke)).trans hks) m
    unfold Holds at hold hnew ⊢
    rw [hspot] at hold hnew
    exact hold.symm.trans hnew
  · intro ⟨hself, htwin⟩ k ks hks m
    rw [getElem?_assign] at hks
    split at hks
    · rename_i hek
      cases hks
      subst hek
      exact hself m
    · rename_i hek
      rw [h k ks hks m]
      by_cases hspot : spot d k = spot d e
      · have hm := htwin ⟨k, by rw [hks]; simp, Ne.symm hek, hspot⟩ m
        unfold Holds at hm ⊢
        rw [hspot]
        exact hm
      · exact (hother k hspot m).symm

/-- The digits of a number that `stoi` reads off them spell it canonically or not at all. -/
theorem toStr_eq_iff (hv : stoi x = .ok (n : Int)) {m : Int} :
    toStr m = x ↔ m = n ∧ x = decimal n := by
  constructor
  · rintro rfl
    obtain rfl : (n : Int) = m := stoi_toStr_eq hv
    exact ⟨rfl, toStr_natCast n⟩
  · rintro ⟨rfl, hx⟩
    rw [toStr_natCast, hx]

/-- Registering a number without writing a file. -/
theorem trueLists_register_only (h : TrueLists d s)
    (hfile : ∀ p, files.IsFile p ↔ s.files.IsFile p) :
    TrueLists d ⟨register s.fileToId e n, files⟩ ↔
      (s.fileToId[e]? = none → ∀ m, Holds s.files d e m → m = n) ∧ Holds s.files d e n := by
  have hsame : ∀ k m, Holds files d k m ↔ Holds s.files d k m := fun k m => hfile _
  unfold register
  rw [trueLists_assign h fun k _ m => hsame k m]
  simp only [mem_withId, h.mem_idsOf, hsame]
  constructor
  · rintro ⟨hself, _⟩
    refine ⟨fun hk m hm => ?_, (hself n).mp (Or.inl rfl)⟩
    rcases (hself m).mpr hm with hmn | ⟨hk', _⟩
    · exact hmn
    · exact absurd hk hk'
  · rintro ⟨hfresh, hn⟩
    refine ⟨fun m => ⟨?_, fun hm => ?_⟩, fun _ _ => trivial⟩
    · rintro (rfl | ⟨_, hm⟩)
      · exact hn
      · exact hm
    · by_cases hk : s.fileToId[e]? = none
      · exact Or.inl (hfresh hk m hm)
      · exact Or.inr ⟨hk, hm⟩

/-- Registering the number a file name spells and writing the file. -/
theorem trueLists_register_write (h : TrueLists d s) (hv : stoi x = .ok (n : Int))
    (hfile : ∀ p, files.IsFile p ↔ p = x :: spot d e ∨ s.files.IsFile p) :
    TrueLists d ⟨register s.fileToId e n, files⟩ ↔
      (s.fileToId[e]? = none → ∀ m, Holds s.files d e m → m = n) ∧
        (¬ Holds s.files d e n → x = decimal n ∧ ¬ Twin s d e) := by
  have hothers : ∀ k, spot d k ≠ spot d e → ∀ m, Holds files d k m ↔ Holds s.files d k m := by
    intro k hk m
    unfold Holds
    rw [hfile]
    refine or_iff_right fun heq => hk (List.cons.inj heq).2
  have hself : ∀ m, Holds files d e m ↔ m = n ∧ x = decimal n ∨ Holds s.files d e m := by
    intro m
    unfold Holds
    rw [hfile, List.cons.injEq, toStr_eq_iff hv]
    simp
  unfold register
  rw [trueLists_assign h hothers]
  simp only [mem_withId, h.mem_idsOf, hself]
  constructor
  · rintro ⟨hlist, htwin⟩
    refine ⟨fun hk m hm => ?_, fun hn => ⟨?_, fun ht => ?_⟩⟩
    · rcases (hlist m).mpr (Or.inr hm) with hmn | ⟨hk', _⟩
      · exact hmn
      · exact absurd hk hk'
    · rcases (hlist n).mp (Or.inl rfl) with ⟨_, hx⟩ | hn'
      · exact hx
      · exact absurd hn' hn
    · have hx : x = decimal n := by
        rcases (hlist n).mp (Or.inl rfl) with ⟨_, hx⟩ | hn'
        · exact hx
        · exact absurd hn' hn
      exact hn ((htwin ht n).mpr (Or.inl ⟨rfl, hx⟩))
  · rintro ⟨hfresh, hnew⟩
    refine ⟨fun m => ⟨?_, ?_⟩, fun ht m => ⟨Or.inr, ?_⟩⟩
    · rintro (rfl | ⟨_, hm⟩)
      · by_cases hn : Holds s.files d e n
        · exact Or.inr hn
        · exact Or.inl ⟨rfl, (hnew hn).1⟩
      · exact Or.inr hm
    · rintro (⟨rfl, _⟩ | hm)
      · exact Or.inl rfl
      · by_cases hk : s.fileToId[e]? = none
        · exact Or.inl (hfresh hk m hm)
        · exact Or.inr ⟨hk, hm⟩
    · rintro (⟨rfl, _⟩ | hm)
      · by_contra hn
        exact (hnew hn).2 ht
      · exact hm

/-- Taking a number off the list and deleting the file that spells it. -/
theorem trueLists_delete (h : TrueLists d s) {v : Int} {ids : List Int} (hv : stoi x = .ok v)
    (hk : s.fileToId[e]? = some ids) (hf : s.files.IsFile (x :: spot d e))
    (hfile : ∀ p, files.IsFile p ↔ p ≠ x :: spot d e ∧ s.files.IsFile p) :
    TrueLists d ⟨s.fileToId.insert e (ids.filter (· ≠ v)), files⟩ ↔
      if x = toStr v then ¬ Twin s d e else ¬ Holds s.files d e v := by
  have hothers : ∀ k, spot d k ≠ spot d e → ∀ m, Holds files d k m ↔ Holds s.files d k m := by
    intro k hk m
    unfold Holds
    rw [hfile]
    exact and_iff_right fun heq => hk (List.cons.inj heq).2
  have hspell : ∀ m, toStr m = x ↔ m = v ∧ x = toStr v := by
    intro m
    constructor
    · rintro rfl
      obtain rfl : v = m := stoi_toStr_eq hv
      exact ⟨rfl, rfl⟩
    · rintro ⟨rfl, hx⟩
      exact hx.symm
  have hself : ∀ m, Holds files d e m ↔ ¬ (m = v ∧ x = toStr v) ∧ Holds s.files d e m := by
    intro m
    unfold Holds
    rw [hfile, Ne, List.cons.injEq, hspell m]
    simp
  have hids : ∀ m, m ∈ ids ↔ Holds s.files d e m := h e ids hk
  rw [trueLists_assign h hothers]
  simp only [List.mem_filter, decide_eq_true_eq, hids, hself]
  by_cases hx : x = toStr v
  · rw [if_pos hx]
    have hthere : Holds s.files d e v := by
      unfold Holds
      rw [← hx]
      exact hf
    constructor
    · intro ⟨_, htwin⟩ ht
      exact ((htwin ht v).mp hthere).1 ⟨rfl, hx⟩
    · intro ht
      refine ⟨fun m => ?_, fun ht' => absurd ht' ht⟩
      rw [and_comm]
      simp [hx]
  · rw [if_neg hx]
    constructor
    · intro ⟨hlist, _⟩ hthere
      exact ((hlist v).mpr ⟨fun hc => hx hc.2, hthere⟩).2 rfl
    · intro hnot
      refine ⟨fun m => ?_, fun _ m => ?_⟩
      · constructor
        · intro ⟨hm, _⟩
          exact ⟨fun hc => hx hc.2, hm⟩
        · intro ⟨_, hm⟩
          exact ⟨hm, fun hmv => hnot (hmv ▸ hm)⟩
      · exact (and_iff_right fun hc => hx hc.2).symm

/-! ## 2. One request -/

/-- The regular files after a body was written at `x` in the directory of `e`. -/
theorem isFile_stored {body : Str}
    (hdir : Opens s.files d e ∨ s.fileToId[e]? = none ∧ Fresh handler s.files d e)
    (hnodes : ∀ q, files.nodes[q]? = if x :: spot d e = q then some (.file body)
      else if spot d e = q then some .dir else s.files.nodes[q]?) (p : Path) :
    files.IsFile p ↔ p = x :: spot d e ∨ s.files.IsFile p := by
  unfold IsFile
  rw [hnodes]
  by_cases hp : x :: spot d e = p
  · rw [if_pos hp]
    simp [hp]
  · rw [if_neg hp, or_iff_right (Ne.symm hp)]
    split
    · rename_i hpe
      -- a directory now, a directory or nothing before
      subst hpe
      have hold : ¬ ∃ c, s.files.nodes[spot d e]? = some (Node.file c) := by
        intro ⟨c, hc⟩
        rcases hdir with ho | ⟨_, hnone, _⟩
        · exact (show s.files.IsFile (spot d e) from ⟨c, hc⟩).not_isDir ho.2
        · rw [hnone] at hc
          cases hc
      simp only [Option.some.injEq, reduceCtorEq, exists_const, false_iff]
      exact hold
    · exact Iff.rfl

/-- The regular files after a directory was made. -/
theorem isFile_made (hm : Made handler s.files files d e) (p : Path) :
    files.IsFile p ↔ s.files.IsFile p := by
  rcases hm.free with ⟨_, rfl⟩ | ⟨hnone, _⟩
  · exact Iff.rfl
  · unfold IsFile
    rw [hm.nodes]
    split
    · rename_i hpe
      subst hpe
      simp [hnone]
    · exact Iff.rfl

/-- The regular files after one was deleted. -/
theorem isFile_deleted (hnodes : ∀ q, files.nodes[q]? =
      if x :: spot d e = q then none else s.files.nodes[q]?) (p : Path) :
    files.IsFile p ↔ p ≠ x :: spot d e ∧ s.files.IsFile p := by
  unfold IsFile
  rw [hnodes]
  by_cases hp : x :: spot d e = p
  · simp [hp]
  · rw [if_neg hp, and_iff_right (Ne.symm hp)]

/-- Making a directory's key known without an id. -/
theorem trueLists_listed (h : TrueLists d s) (hk : s.fileToId[e]? = none) :
    TrueLists d ⟨s.fileToId.insert e (idsOf s.fileToId e), s.files⟩ ↔
      ∀ m, ¬ Holds s.files d e m := by
  rw [trueLists_assign h fun k _ m => Iff.rfl, idsOf_of_none hk]
  simp

/-- What a file's lookup below a known key says of the place. -/
theorem lookup_file_below (hw : Wf handler d s) {ids : List Int} {c : Str}
    (hk : s.fileToId[e]? = some ids) (hx : Plain x) (hf : s.files.nodes[x :: spot d e]? = some (.file c)) :
    s.files.lookup (pathOf handler (e ++ '/' :: x)) = some (.file c) := by
  rw [(hw.opens e ids hk).lookup_below hw.home hx]
  exact hf

/-- The id of a request that names a file is what `stoi` reads off the name. -/
theorem Names.stoi_eq (hw : Wf handler d s) (hn : Names handler s request e x n) :
    stoi x = .ok (n : Int) := by
  cases hn with
  | post hm ht hid =>
      obtain ⟨_, hle, _⟩ := getNextId_ok (hw.sorted_idsOf e) hid
      rw [← toStr_natCast]
      exact stoi_toStr (by unfold intMin; omega) hle
  | put hm ht hx hd hv => exact hv

/-- **The lists stay true if and only if the request is honest.** -/
theorem trueLists_step (hw : Wf handler d s) (h : TrueLists d s)
    (hx : Exit handler d s request s' r) : TrueLists d s' ↔ Honest handler d s request := by
  constructor
  · intro h'
    refine ⟨?_, ?_, ?_, ?_⟩
    · intro t hm ht ho hk
      rw [hx.of_listed hw hm ht ho, trueLists_listed h hk] at h'
      exact h'
    · intro e x n hn hc
      obtain ⟨files, rfl, ⟨hfree, hdir, hnodes⟩ | ⟨_, rfl, _⟩⟩ := hx.of_names hn hc
      · obtain ⟨hfresh, hnew⟩ :=
          (trueLists_register_write h (hn.stoi_eq hw) (isFile_stored hdir hnodes)).mp h'
        exact ⟨hfresh, fun hno => ⟨(hnew hno).1, hfree, (hnew hno).2⟩⟩
      · obtain ⟨hfresh, hheld⟩ := (trueLists_register_only h fun _ => Iff.rfl).mp h'
        exact ⟨hfresh, fun hno => absurd hheld hno⟩
    · intro t n hm ht hs hdig hv hc
      obtain ⟨files, rfl, hmade, _⟩ := hx.of_bare hm ht hs hdig hv hc
      exact (trueLists_register_only h (isFile_made hmade)).mp h'
    · intro e x v hm ht hs hv hk ⟨c, hl⟩
      obtain ⟨ids, hids⟩ := Option.ne_none_iff_exists'.mp hk
      obtain ⟨files, rfl, hf, _, hnodes⟩ := hx.of_deleted hw hm ht hs hv hids hl
      exact (trueLists_delete h hv hids hf (isFile_deleted hnodes)).mp h'
  · intro hH
    cases hx with
    | refused => exact h
    | read => exact h
    | @listed t r hm ht ho =>
        cases hk : s.fileToId[t]? with
        | none => exact (trueLists_listed h hk).mpr (hH.list t hm ht ho hk)
        | some ids =>
            rw [idsOf_of_some hk, assign_same hk]
            exact h
    | @stored e x n files r hn hdir hfree hg ho hnodes =>
        have hc : CanOpen handler s d e := hdir.imp_right fun hfresh => hfresh.2.2
        obtain ⟨hfresh, hnew⟩ := hH.write e x n hn hc
        exact (trueLists_register_write h (hn.stoi_eq hw) (isFile_stored hdir hnodes)).mpr
          ⟨hfresh, fun hno => ⟨(hnew hno).1, (hnew hno).2.2⟩⟩
    | @blocked e x n r hn ho hd =>
        obtain ⟨hfresh, hnew⟩ := hH.write e x n hn (Or.inl ho)
        refine (trueLists_register_only h fun _ => Iff.rfl).mpr ⟨hfresh, ?_⟩
        by_contra hno
        exact (hnew hno).2.1 hd
    | @bare t n files r hm ht hne hd hv hmade =>
        have hs : '/' ∉ t := (plain_of_digits hne hd).2.2.2
        have hid : idNameOf t = t := (suffix_whole hs).1
        have hc : CanOpen handler s d t := hmade.free.imp And.left And.right
        have hall : t.all Char.isDigit = true := List.all_eq_true.mpr hd
        have hb := hH.bare t n hm ht hs (by rw [hid]; exact ⟨hne, hall⟩) (by rw [hid]; exact hv) hc
        exact (trueLists_register_only h (isFile_made hmade)).mpr hb
    | @deleted e x v ids files r hm ht hpx hv hk hf hg hnodes =>
        obtain ⟨c, hc⟩ := hf
        have hb := hH.delete e x v hm ht hpx.2.2.2 hv (by rw [hk]; simp)
          ⟨c, lookup_file_below hw hk hpx hc⟩
        exact (trueLists_delete h hv hk ⟨c, hc⟩ (isFile_deleted hnodes)).mpr hb

/-! ## 3. Runs -/

/-- The target of number `n` of an entity. -/
def idTarget (handler : RequestHandler) (e : Str) (n : Int) : Str :=
  handler.prefix_ ++ '/' :: (e ++ '/' :: toStr n)

/-- **The id list does not lie**: the ids listed for a known entity are the numbers of the regular
    files `get_dir()/e/n`, and each of them can be read and deleted. -/
structure Truthful (handler : RequestHandler) (s : CrudState) : Prop where
  listed : ∀ (e : Str) (ids : List Int), s.fileToId[e]? = some ids → ∀ n, n ∈ ids ↔
    ∃ c, s.files.lookup (pathOf handler (e ++ '/' :: toStr n)) = some (.file c)
  readable : ∀ (e : Str) (ids : List Int), s.fileToId[e]? = some ids → ∀ n ∈ ids,
    ∀ request : Request, request.method = .get → request.target = idTarget handler e n →
    ∃ s' r, serve handler Disk.reliable s request = .ok (s', r) ∧ r.result = .ok
  deletable : ∀ (e : Str) (ids : List Int), s.fileToId[e]? = some ids → ∀ n ∈ ids,
    ∀ request : Request, request.method = .delete → request.target = idTarget handler e n →
    ∃ s' r, serve handler Disk.reliable s request = .ok (s', r) ∧ r.result = .ok

theorem url_idTarget (handler : RequestHandler) (e : Str) (n : Int) :
    handler.checkRequestUrl (idTarget handler e n) false = some (e ++ '/' :: toStr n) :=
  checkRequestUrl_named handler e false (toStr_ne_nil n) (plain_toStr n).2.2.2

/-- In a well-formed state, true lists are all there is to it. -/
theorem truthful_iff (hw : Wf handler d s) : Truthful handler s ↔ TrueLists d s := by
  have hplace : ∀ (k : Str) (ids : List Int), s.fileToId[k]? = some ids → ∀ n,
      (∃ c, s.files.lookup (pathOf handler (k ++ '/' :: toStr n)) = some (.file c)) ↔
        Holds s.files d k n := by
    intro k ids hk n
    rw [(hw.opens k ids hk).lookup_below hw.home (plain_toStr n)]
    exact Iff.rfl
  constructor
  · intro h k ids hk n
    rw [h.listed k ids hk n, hplace k ids hk n]
  · intro h
    have hlisted : ∀ (e : Str) (ids : List Int), s.fileToId[e]? = some ids → ∀ n, n ∈ ids ↔
        ∃ c, s.files.lookup (pathOf handler (e ++ '/' :: toStr n)) = some (.file c) := by
      intro k ids hk n
      rw [h k ids hk n, hplace k ids hk n]
    refine ⟨hlisted, fun e ids hk n hn request hm ht => ?_, fun e ids hk n hn request hm ht => ?_⟩
    · obtain ⟨c, hc⟩ := (hlisted e ids hk n).mp hn
      have hurl : handler.checkRequestUrl request.target false = some (e ++ '/' :: toStr n) := by
        rw [ht, url_idTarget]
      obtain ⟨r, hs, hr, _⟩ := serve_get_file hw hm hurl hc
      exact ⟨s, r, hs, hr⟩
    · obtain ⟨c, hc⟩ := (hlisted e ids hk n).mp hn
      have hurl : handler.checkRequestUrl request.target false = some (e ++ '/' :: toStr n) := by
        rw [ht, url_idTarget]
      obtain ⟨h0, hmax⟩ := hw.range e ids hk n hn
      have hv : stoi (toStr n) = .ok n := stoi_toStr (by unfold intMin; omega) hmax
      exact serve_delete_file hw hm hurl (plain_toStr n).2.2.2 hv hk hc

/-- A request that is not answered would have been honest: it registers nothing. -/
theorem honest_of_error {f : Fault} (h : serve handler Disk.reliable s request = .error f) :
    Honest handler d s request := by
  rcases serve_error h with ⟨_, hm, t, ht, hid⟩ | ⟨_, hm, t, ht, _, g, hv⟩
  · refine ⟨?_, ?_, ?_, ?_⟩
    · intro t' hm'; rw [hm] at hm'; cases hm'
    · intro e x n hn
      cases hn with
      | post hm' ht' hid' =>
          rw [ht] at ht'
          cases ht'
          rw [hid] at hid'
          cases hid'
      | put hm' => rw [hm] at hm'; cases hm'
    · intro t' n hm'; rw [hm] at hm'; cases hm'
    · intro e x v hm'; rw [hm] at hm'; cases hm'
  · refine ⟨?_, ?_, ?_, ?_⟩
    · intro t' hm'; rw [hm] at hm'; cases hm'
    · intro e x n hn
      cases hn with
      | post hm' => rw [hm] at hm'; cases hm'
      | put hm' ht' hx hd hv' =>
          rw [ht] at ht'
          cases ht'
          rw [idNameOf_below (plain_of_digits hx hd).2.2.2, hv'] at hv
          cases hv
    · intro t' n hm' ht' hs hdig hv'
      rw [ht] at ht'
      cases ht'
      rw [hv] at hv'
      cases hv'
    · intro e x v hm'; rw [hm] at hm'; cases hm'

/-- **The id lists do not lie throughout a run if and only if every request of it is honest.** -/
theorem truthful_throughout (hh : Home handler files d) (requests : List Request) :
    Throughout (serve handler Disk.reliable) (Truthful handler) ⟨∅, files⟩ requests ↔
      Along (serve handler Disk.reliable) (Honest handler d) ⟨∅, files⟩ requests := by
  have hw : Wf handler d ⟨∅, files⟩ := Wf.start hh
  have h0 : TrueLists d ⟨∅, files⟩ := by
    intro k ids hk
    rw [Std.ExtTreeMap.getElem?_empty] at hk
    cases hk
  refine throughout_iff_along (fun s i s' o hi hs => (serve_exit hi hs).wf hi)
    (fun s i s' o hi hQ hs => ?_) (fun s i e hi hs => honest_of_error hs) hw
    ((truthful_iff hw).mpr h0)
  have hx := serve_exit hi hs
  rw [truthful_iff (hx.wf hi)]
  exact trueLists_step hi ((truthful_iff hi).mp hQ) hx

end Truth

/-- `truthful_throughout` for a POST to the empty api. -/
theorem truthful_throughout_post :
    Throughout (serve apiHandler Disk.reliable) (Truthful apiHandler) apiStart
        [ask .post "/api/e" "A"] ↔
      Along (serve apiHandler Disk.reliable) (Honest apiHandler ["data".toList]) apiStart
        [ask .post "/api/e" "A"] :=
  truthful_throughout home_apiStart _

/-- After `PUT /api/e/007` entity `e` lists `7`, and there is no file `e/7`. -/
theorem put_zeros_lies : ¬ Throughout (serve apiHandler Disk.reliable) (Truthful apiHandler)
    apiStart [ask .put "/api/e/007" "A"] := by
  intro h
  have hs : (serve apiHandler Disk.reliable apiStart (ask .put "/api/e/007" "A")).map
      (fun v => (v.1.fileToId["e".toList]?,
        v.1.files.lookup (pathOf apiHandler ("e".toList ++ '/' :: toStr 7)))) =
      .ok (some [7], none) := by decide
  cases hv : serve apiHandler Disk.reliable apiStart (ask .put "/api/e/007" "A") with
  | error f => rw [hv] at hs; cases hs
  | ok v =>
      rw [hv] at hs
      simp only [Except.map, Except.ok.injEq, Prod.mk.injEq] at hs
      have htrue : Truthful apiHandler v.1 :=
        h _ v.1 [v.2] List.prefix_rfl (run_cons.mpr ⟨v.1, v.2, [], hv, rfl, rfl⟩)
      obtain ⟨c, hc⟩ := (htrue.listed _ _ hs.1 7).mp List.mem_cons_self
      rw [hs.2] at hc
      cases hc

end Googolplex.Crud
