/-
  File:      Googolplex/Crud/IdLists.lean
  Subject:   What `get_next_id` and `insert_to_map` do to an id list that is
             strictly increasing.

  * `lowestAvailableId_ok`: on an increasing list the one pass of the loop ends
    at the smallest number from its start that the list does not hold.
  * `register`: both POST and PUT leave the map with one id more in one list;
    `idsOf_register` says what that is, `getNextId_ok` and `insertToMap_known`
    that the two functions do it.
-/
import Googolplex.Crud.Handler

namespace Googolplex.Crud

open Cxx

/-! ## 1. The loop of `get_next_id` -/

/-- **The loop finds the first gap.** The counter only passes numbers the list holds. -/
theorem lowestAvailableId_ok {v : Int} : ∀ {ids : List Int} {lowest : Int}, ids.SortedLT →
    lowestAvailableId lowest ids = .ok v →
    lowest ≤ v ∧ v ∉ ids ∧ ∀ j, lowest ≤ j → j < v → j ∈ ids
  | [], lowest, _, h => by
      cases h
      exact ⟨le_refl _, List.not_mem_nil, fun j h1 h2 => absurd h2 (by omega)⟩
  | id :: ids, lowest, hs, h => by
      obtain ⟨hlt, hs'⟩ := List.pairwise_cons.mp hs.pairwise
      unfold lowestAvailableId at h
      by_cases he : id = lowest
      · rw [if_pos he] at h
        split at h
        · cases h
        · obtain ⟨h1, h2, h3⟩ := lowestAvailableId_ok hs'.sortedLT h
          refine ⟨by omega, ?_, fun j hj1 hj2 => ?_⟩
          · simp only [List.mem_cons, not_or]
            exact ⟨by omega, h2⟩
          · by_cases hj : j = lowest
            · rw [hj, he]; exact List.mem_cons_self
            · exact List.mem_cons_of_mem _ (h3 j (by omega) hj2)
      · rw [if_neg he] at h
        obtain ⟨h1, h2, h3⟩ := lowestAvailableId_ok hs'.sortedLT h
        refine ⟨h1, ?_, fun j hj1 hj2 => List.mem_cons_of_mem _ (h3 j hj1 hj2)⟩
        simp only [List.mem_cons, not_or]
        refine ⟨fun hv => ?_, h2⟩
        -- the result is the head only if a smaller number is in the tail, which is above it
        have hmem : lowest ∈ ids := h3 lowest (le_refl _) (by omega)
        have := hlt lowest hmem
        omega

/-- The counter stays in `int`. -/
theorem lowestAvailableId_le {v : Int} : ∀ {ids : List Int} {lowest : Int}, lowest ≤ intMax →
    lowestAvailableId lowest ids = .ok v → v ≤ intMax
  | [], _, hl, h => by cases h; exact hl
  | id :: ids, lowest, hl, h => by
      unfold lowestAvailableId at h
      split at h
      · split at h
        · cases h
        · exact lowestAvailableId_le (by omega) h
      · exact lowestAvailableId_le hl h

/-- The loop fails in one way: the counter would pass the largest `int`. -/
theorem lowestAvailableId_error {e : Fault} : ∀ {ids : List Int} {lowest : Int},
    lowestAvailableId lowest ids = .error e → e = .signedOverflow ∧ intMax ∈ ids
  | id :: ids, lowest, h => by
      unfold lowestAvailableId at h
      split at h
      · rename_i he
        split at h
        · rename_i hm
          cases h
          exact ⟨rfl, by rw [he, hm]; exact List.mem_cons_self⟩
        · obtain ⟨h1, h2⟩ := lowestAvailableId_error h
          exact ⟨h1, List.mem_cons_of_mem _ h2⟩
      · obtain ⟨h1, h2⟩ := lowestAvailableId_error h
        exact ⟨h1, List.mem_cons_of_mem _ h2⟩

/-- On an increasing list that has a gap in `int` the loop returns. -/
theorem lowestAvailableId_total {g : Int} : ∀ {ids : List Int} {lowest : Int}, ids.SortedLT →
    lowest ≤ g → g ≤ intMax → g ∉ ids → ∃ v, lowestAvailableId lowest ids = .ok v
  | [], lowest, _, _, _, _ => ⟨lowest, rfl⟩
  | id :: ids, lowest, hs, hl, hg, hn => by
      simp only [List.mem_cons, not_or] at hn
      obtain ⟨hlt, hs'⟩ := List.pairwise_cons.mp hs.pairwise
      unfold lowestAvailableId
      by_cases he : id = lowest
      · rw [if_pos he, if_neg (by omega)]
        exact lowestAvailableId_total hs'.sortedLT (by omega) hg hn.2
      · rw [if_neg he]
        exact lowestAvailableId_total hs'.sortedLT hl hg hn.2

/-! ## 2. One id more -/

/-- A list with one id more, in order. -/
def withId (v : Int) (ids : List Int) : List Int :=
  if v ∈ ids then ids else (ids ++ [v]).insertionSort (· ≤ ·)

@[simp] theorem mem_withId {v w : Int} {ids : List Int} : w ∈ withId v ids ↔ w = v ∨ w ∈ ids := by
  unfold withId
  split
  · rename_i h
    constructor
    · exact Or.inr
    · rintro (rfl | hw)
      · exact h
      · exact hw
  · rw [List.mem_insertionSort, List.mem_append, List.mem_singleton, or_comm]

theorem sortedLT_withId {v : Int} {ids : List Int} (hs : ids.SortedLT) :
    (withId v ids).SortedLT := by
  unfold withId
  split
  · exact hs
  · rename_i hv
    have hnd : (ids ++ [v]).Nodup := by
      rw [List.nodup_append]
      refine ⟨hs.nodup, List.nodup_singleton v, fun a ha b hb => ?_⟩
      rw [List.mem_singleton] at hb
      rintro rfl
      exact hv (hb ▸ ha)
    have hle : ((ids ++ [v]).insertionSort (· ≤ ·)).SortedLE :=
      (List.pairwise_insertionSort _ _).sortedLE
    exact hle.sortedLT_of_nodup ((List.perm_insertionSort _ _).nodup_iff.mpr hnd)

/-- The ids the map lists for a key; an absent key lists none. -/
def idsOf (fileToId : FileToId) (key : Str) : List Int := fileToId[key]?.getD []

theorem idsOf_of_some {m : FileToId} {k : Str} {ids : List Int} (h : m[k]? = some ids) :
    idsOf m k = ids := by
  unfold idsOf; rw [h]; rfl

theorem idsOf_of_none {m : FileToId} {k : Str} (h : m[k]? = none) : idsOf m k = [] := by
  unfold idsOf; rw [h]; rfl

/-- The map with one id more under a key, which is known from then on. -/
def register (fileToId : FileToId) (key : Str) (v : Int) : FileToId :=
  fileToId.insert key (withId v (idsOf fileToId key))

theorem getElem?_register (fileToId : FileToId) (key k : Str) (v : Int) :
    (register fileToId key v)[k]? =
      if key = k then some (withId v (idsOf fileToId key)) else fileToId[k]? :=
  getElem?_assign _ _ _ _

@[simp] theorem idsOf_register_self (fileToId : FileToId) (key : Str) (v : Int) :
    idsOf (register fileToId key v) key = withId v (idsOf fileToId key) := by
  unfold idsOf
  rw [getElem?_register, if_pos rfl]
  rfl

theorem idsOf_register_of_ne (fileToId : FileToId) {key k : Str} (v : Int) (h : key ≠ k) :
    idsOf (register fileToId key v) k = idsOf fileToId k := by
  unfold idsOf
  rw [getElem?_register, if_neg h]

/-- What is listed already is registered already. -/
theorem register_of_mem {fileToId : FileToId} {key : Str} {v : Int} {ids : List Int}
    (hk : fileToId[key]? = some ids) (hv : v ∈ ids) : register fileToId key v = fileToId := by
  have hids : idsOf fileToId key = ids := idsOf_of_some hk
  unfold register
  rw [hids]
  unfold withId
  rw [if_pos hv]
  exact assign_same hk

theorem register_unknown {fileToId : FileToId} {key : Str} (hk : fileToId[key]? = none) (v : Int) :
    register fileToId key v = fileToId.insert key [v] := by
  unfold register idsOf
  rw [hk]
  rfl

/-- **`insert_to_map` on a known key** registers the id and says whether it was new. -/
theorem insertToMap_known {fileToId : FileToId} {key : Str} {ids : List Int}
    (hk : fileToId[key]? = some ids) (v : Int) :
    insertToMap fileToId key v = (decide (v ∉ ids), register fileToId key v) := by
  have hids : idsOf fileToId key = ids := idsOf_of_some hk
  unfold insertToMap
  rw [hk]
  simp only
  split
  · rename_i hv
    rw [register_of_mem hk hv]
    simp [hv]
  · rename_i hv
    unfold register
    rw [hids]
    unfold withId
    rw [if_neg hv]
    simp [hv]

/-- **`get_next_id`** hands out the smallest positive id that is not listed and registers it. -/
theorem getNextId_ok {fileToId fileToId' : FileToId} {key : Str} {v : Int}
    (hs : (idsOf fileToId key).SortedLT) (h : getNextId fileToId key = .ok (v, fileToId')) :
    1 ≤ v ∧ v ≤ intMax ∧ v ∉ idsOf fileToId key ∧
      (∀ j, 1 ≤ j → j < v → j ∈ idsOf fileToId key) ∧ fileToId' = register fileToId key v := by
  unfold getNextId at h
  cases hk : fileToId[key]? with
  | none =>
      have hnil : idsOf fileToId key = [] := idsOf_of_none hk
      rw [hk] at h
      cases h
      rw [register_unknown hk, hnil]
      exact ⟨le_refl _, by decide, List.not_mem_nil, fun j h1 h2 => absurd h2 (by omega), rfl⟩
  | some ids =>
      have hids : idsOf fileToId key = ids := idsOf_of_some hk
      rw [hk] at h
      simp only at h
      cases hl : lowestAvailableId 1 ids with
      | error e => rw [hl] at h; cases h
      | ok lowest =>
          rw [hl] at h
          cases h
          rw [hids] at hs ⊢
          obtain ⟨h1, h2, h3⟩ := lowestAvailableId_ok hs hl
          refine ⟨h1, lowestAvailableId_le (by decide) hl, h2, h3, ?_⟩
          rw [insertToMap_known hk]

theorem getNextId_error {fileToId : FileToId} {key : Str} {f : Fault}
    (h : getNextId fileToId key = .error f) : f = .signedOverflow := by
  unfold getNextId at h
  split at h
  · cases h
  · split at h
    · rename_i hl
      cases h
      exact (lowestAvailableId_error hl).1
    · cases h

/-- `get_next_id` returns whenever some positive `int` is not listed. -/
theorem getNextId_total {fileToId : FileToId} {key : Str} {g : Int}
    (hs : (idsOf fileToId key).SortedLT) (h1 : 1 ≤ g) (h2 : g ≤ intMax)
    (hg : g ∉ idsOf fileToId key) : ∃ v, getNextId fileToId key = .ok (v, register fileToId key v) := by
  unfold getNextId
  cases hk : fileToId[key]? with
  | none => exact ⟨1, by rw [register_unknown hk]⟩
  | some ids =>
      have hids : idsOf fileToId key = ids := idsOf_of_some hk
      rw [hids] at hs hg
      obtain ⟨v, hv⟩ := lowestAvailableId_total hs h1 h2 hg
      refine ⟨v, ?_⟩
      simp only [hv, insertToMap_known hk]

/-- The counter only goes up. -/
theorem le_lowestAvailableId {v : Int} : ∀ {ids : List Int} {lowest : Int},
    lowestAvailableId lowest ids = .ok v → lowest ≤ v
  | [], lowest, h => by
      cases h
      exact le_refl _
  | id :: ids, lowest, h => by
      unfold lowestAvailableId at h
      split at h
      · split at h
        · cases h
        · have := le_lowestAvailableId h
          omega
      · exact le_lowestAvailableId h

/-- `get_next_id` registers what it returns, whatever the list. -/
theorem getNextId_register {m m' : FileToId} {key : Str} {v : Int} (h : getNextId m key = .ok (v, m')) :
    1 ≤ v ∧ m' = register m key v := by
  unfold getNextId at h
  cases hk : m[key]? with
  | none =>
      rw [hk] at h
      cases h
      exact ⟨le_refl _, (register_unknown hk 1).symm⟩
  | some ids =>
      rw [hk] at h
      dsimp only at h
      cases hl : lowestAvailableId 1 ids with
      | error e =>
          rw [hl] at h
          cases h
      | ok lowest =>
          rw [hl] at h
          cases h
          exact ⟨le_lowestAvailableId hl, by rw [insertToMap_known hk]⟩

end Googolplex.Crud
