/-
  File:      Googolplex/Library/Fields.lean
  Subject:   Texts of fields: a key and a value with one character between them,
             and a reader that keeps the first value of each key.

  * `binds_iff`: what it is to be split into two.
  * `getElem?_collect`: what the reader has of a key is its first field.
-/
import Googolplex.Library.Cxx

namespace Fields

open Cxx

/-- **A field**: the piece is a key and a value with exactly one `eq`, which is between them. -/
def Binds (eq : Char) (piece key value : Str) : Prop :=
  piece = key ++ eq :: value ∧ eq ∉ key ∧ eq ∉ value

/-- **The first field of a key** among the pieces has this value. -/
def First (eq : Char) (pieces : List Str) (key value : Str) : Prop :=
  ∃ pre piece post, pieces = pre ++ piece :: post ∧ Binds eq piece key value ∧
    ∀ x ∈ pre, ∀ v, ¬ Binds eq x key v

/-- A piece that is a field is put into the map, if its key is not there. -/
def insertField (eq : Char) (m : OrdMap Str Str) (piece : Str) : OrdMap Str Str :=
  match piece.splitOn eq with
  | [key, value] => m.insertIfNew key value
  | _ => m

/-- The fields among the pieces, one after the other. -/
def collect (eq : Char) (pieces : List Str) : OrdMap Str Str := pieces.foldl (insertField eq) ∅

section

variable {eq : Char} {piece key value key' value' : Str} {pieces more : List Str}
  {m : OrdMap Str Str}

/-! ## 1. Fields -/

/-- **A piece is split into two** exactly if it is a field. -/
theorem binds_iff : Binds eq piece key value ↔ piece.splitOn eq = [key, value] := by
  constructor
  · rintro ⟨rfl, hkey, hvalue⟩
    rw [List.splitOn_append_cons_self, List.splitOn_eq_singleton hkey,
      List.splitOn_eq_singleton hvalue]
    rfl
  · intro h
    have hmem : eq ∈ piece := by
      by_contra hno
      rw [List.splitOn_eq_singleton hno] at h
      cases h
    obtain ⟨a, b, rfl, ha⟩ := List.eq_append_cons_of_mem hmem
    rw [List.splitOn_append_cons_self, List.splitOn_eq_singleton ha] at h
    obtain ⟨rfl, htail⟩ := List.cons.inj h
    have hb : b.splitOn eq = [value] := htail
    have hno : eq ∉ b := by
      intro hmem
      obtain ⟨c, d, rfl, hc⟩ := List.eq_append_cons_of_mem hmem
      rw [List.splitOn_append_cons_self, List.splitOn_eq_singleton hc] at hb
      exact List.splitOn_ne_nil _ _ (List.cons.inj hb).2
    rw [List.splitOn_eq_singleton hno] at hb
    cases hb
    exact ⟨rfl, ha, hno⟩

/-- A piece is a field in one way. -/
theorem Binds.unique (h : Binds eq piece key value) (h' : Binds eq piece key' value') :
    key = key' ∧ value = value' := by
  rw [binds_iff] at h h'
  rw [h] at h'
  cases h'
  exact ⟨rfl, rfl⟩

/-! ## 2. First fields -/

theorem not_first_nil : ¬ First eq [] key value := by
  intro ⟨pre, piece, post, h, _⟩
  simp at h

/-- The first field is the first piece, or that is none of this key. -/
theorem first_cons : First eq (piece :: pieces) key value ↔ Binds eq piece key value ∨
    (∀ v, ¬ Binds eq piece key v) ∧ First eq pieces key value := by
  constructor
  · intro ⟨pre, x, post, heq, hx, hpre⟩
    cases pre with
    | nil =>
        cases heq
        exact Or.inl hx
    | cons y pre =>
        obtain ⟨rfl, hrest⟩ := List.cons.inj heq
        exact Or.inr ⟨hpre _ List.mem_cons_self, pre, x, post, hrest, hx,
          fun z hz => hpre z (List.mem_cons_of_mem _ hz)⟩
  · intro h
    rcases h with h | ⟨hno, pre, x, post, rfl, hx, hpre⟩
    · exact ⟨[], piece, pieces, rfl, h, nofun⟩
    · refine ⟨piece :: pre, x, post, rfl, hx, fun y hy => ?_⟩
      rcases List.mem_cons.mp hy with rfl | hy
      · exact hno
      · exact hpre y hy

/-- What comes later is not first. -/
theorem First.append (h : First eq pieces key value) : First eq (pieces ++ more) key value := by
  obtain ⟨pre, x, post, rfl, hx, hpre⟩ := h
  exact ⟨pre, x, post ++ more, by rw [List.append_assoc, List.cons_append], hx, hpre⟩

/-- A key that has a field has a first one. -/
theorem exists_first_iff : (∃ value, First eq pieces key value) ↔
    ∃ x ∈ pieces, ∃ value, Binds eq x key value := by
  constructor
  · intro ⟨value, pre, x, post, heq, hx, _⟩
    exact ⟨x, by rw [heq]; simp, value, hx⟩
  · intro ⟨x, hx, hfield⟩
    induction pieces with
    | nil => cases hx
    | cons piece pieces ih =>
        by_cases hpiece : ∃ v, Binds eq piece key v
        · obtain ⟨v, hv⟩ := hpiece
          exact ⟨v, first_cons.mpr (Or.inl hv)⟩
        · have hno := not_exists.mp hpiece
          have hmem : x ∈ pieces := by
            refine (List.mem_cons.mp hx).resolve_left ?_
            rintro rfl
            exact hpiece hfield
          obtain ⟨v, hv⟩ := ih hmem
          exact ⟨v, first_cons.mpr (Or.inr ⟨hno, hv⟩)⟩

/-- **The only field of a key** is first, wherever it stands. -/
theorem first_of_perm {x : Str} {rest : List Str} (hperm : pieces.Perm (x :: rest))
    (hx : Binds eq x key value) (hrest : ∀ y ∈ rest, ∀ v, ¬ Binds eq y key v) :
    First eq pieces key value := by
  have hmem : x ∈ pieces := hperm.mem_iff.mpr List.mem_cons_self
  obtain ⟨v, hfirst⟩ := exists_first_iff.mpr ⟨x, hmem, value, hx⟩
  have hv : v = value := by
    obtain ⟨pre, y, post, heq, hy, _⟩ := hfirst
    have hmem' : y ∈ pieces := by rw [heq]; simp
    rcases List.mem_cons.mp (hperm.mem_iff.mp hmem') with rfl | hin
    · exact (hy.unique hx).2
    · exact absurd hy (hrest y hin v)
  rw [← hv]
  exact hfirst

/-! ## 3. The reader -/

/-- What one piece adds. -/
theorem getElem?_insertField : (insertField eq m piece)[key]? = some value ↔
    m[key]? = some value ∨ m[key]? = none ∧ Binds eq piece key value := by
  by_cases hpiece : ∃ k v, Binds eq piece k v
  · obtain ⟨k, v, hfield⟩ := hpiece
    have hkey : Binds eq piece key value ↔ k = key ∧ v = value := by
      constructor
      · exact hfield.unique
      · rintro ⟨rfl, rfl⟩
        exact hfield
    unfold insertField
    rw [binds_iff.mp hfield, hkey]
    simp only [Std.ExtTreeMap.getElem?_insertIfNew, Std.LawfulEqOrd.compare_eq_iff_eq,
      ← Std.ExtTreeMap.isSome_getElem?_iff_mem]
    by_cases hk : k = key
    · subst hk
      cases m[k]? <;> simp
    · simp [hk]
  · have hnone : insertField eq m piece = m := by
      unfold insertField
      split
      · rename_i k v hsplit
        exact absurd ⟨k, v, binds_iff.mpr hsplit⟩ hpiece
      · rfl
    have hno : ¬ Binds eq piece key value := fun h => hpiece ⟨key, value, h⟩
    rw [hnone]
    simp [hno]

/-- What a key has after some pieces: what it had, or else its first field. -/
theorem getElem?_foldl_insertField : (pieces.foldl (insertField eq) m)[key]? = some value ↔
    m[key]? = some value ∨ m[key]? = none ∧ First eq pieces key value := by
  induction pieces generalizing m with
  | nil => simp [not_first_nil]
  | cons piece pieces ih =>
      have hnone : (insertField eq m piece)[key]? = none ↔
          m[key]? = none ∧ ∀ v, ¬ Binds eq piece key v := by
        rw [Option.eq_none_iff_forall_ne_some]
        simp only [ne_eq, getElem?_insertField, not_or, not_and, forall_and]
        constructor
        · rintro ⟨hm, hfield⟩
          have hm' : m[key]? = none := Option.eq_none_iff_forall_ne_some.mpr hm
          exact ⟨hm', fun v => hfield v hm'⟩
        · rintro ⟨hm, hfield⟩
          refine ⟨fun v h => ?_, fun v _ => hfield v⟩
          rw [hm] at h
          cases h
      rw [List.foldl_cons, ih, hnone, getElem?_insertField, first_cons]
      tauto

/-- **What the reader has of a key** is its first field. -/
theorem getElem?_collect : (collect eq pieces)[key]? = some value ↔ First eq pieces key value := by
  unfold collect
  rw [getElem?_foldl_insertField, Std.ExtTreeMap.getElem?_empty]
  simp

end

end Fields
