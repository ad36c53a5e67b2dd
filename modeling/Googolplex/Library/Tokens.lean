/-
  File:      Googolplex/Library/Tokens.lean
  Subject:   Tokens that are passed on between operations that are pending and threads
             that are at work: how often each is held.

  * `held`: the operations and the threads that hold a token.
  * `held_move`, `waiting_arm`, `waiting_take`: what a thread's next step and an
    operation that begins or completes make of the number.
  * `not_both`, `one_thread`, `one_operation`: a token that is held once has one holder.
-/
import Mathlib

namespace Tokens

variable {R Op Hand T : Type} [DecidableEq R] [Fintype T]

/-- How often a token is held by what is pending. -/
def waiting (ofOp : Op → List R) (ops : List Op) (r : R) : Nat :=
  (ops.map fun op => (ofOp op).count r).sum

/-- How often a token is held, by what is pending and by the threads. -/
def held (ofOp : Op → List R) (ofHand : Hand → List R) (ops : List Op) (hands : T → Hand) (r : R) : Nat :=
  waiting ofOp ops r + ∑ t, (ofHand (hands t)).count r

variable {ofOp : Op → List R} {ofHand : Hand → List R} {ops ops' : List Op} {hands : T → Hand} {r : R}

/-- An operation begins. -/
theorem waiting_arm (op : Op) :
    waiting ofOp (op :: ops) r = waiting ofOp ops r + (ofOp op).count r := by
  unfold waiting
  rw [List.map_cons, List.sum_cons, Nat.add_comm]

/-- An operation completes. -/
theorem waiting_take [DecidableEq Op] {op : Op} (h : op ∈ ops) :
    waiting ofOp ops r = waiting ofOp (ops.erase op) r + (ofOp op).count r := by
  have hperm := ((List.perm_cons_erase h).map fun op => (ofOp op).count r).sum_eq
  rw [List.map_cons, List.sum_cons] at hperm
  unfold waiting
  omega

/-- No operation that is pending has it. -/
theorem waiting_eq_zero (h : ∀ op ∈ ops, r ∉ ofOp op) : waiting ofOp ops r = 0 := by
  unfold waiting
  rw [List.sum_eq_zero_iff]
  intro n hn
  obtain ⟨op, hop, rfl⟩ := List.mem_map.mp hn
  exact List.count_eq_zero.mpr (h op hop)

section Threads

variable [DecidableEq T] {t t' : T}

/-- What the other threads hold. -/
theorem sum_hands (t : T) : ∑ u, (ofHand (hands u)).count r =
    (ofHand (hands t)).count r + ∑ u ∈ Finset.univ.erase t, (ofHand (hands u)).count r :=
  (Finset.add_sum_erase _ _ (Finset.mem_univ t)).symm

/-- **A thread comes to hold something else**, and other operations are pending. -/
theorem held_move (t : T) (hand : Hand) :
    held ofOp ofHand ops' (Function.update hands t hand) r + waiting ofOp ops r +
        (ofHand (hands t)).count r =
      held ofOp ofHand ops hands r + waiting ofOp ops' r + (ofHand hand).count r := by
  have hothers : ∑ u ∈ Finset.univ.erase t, (ofHand (Function.update hands t hand u)).count r =
      ∑ u ∈ Finset.univ.erase t, (ofHand (hands u)).count r := by
    refine Finset.sum_congr rfl fun u hu => ?_
    rw [Function.update_of_ne (Finset.ne_of_mem_erase hu)]
  unfold held
  rw [sum_hands t, sum_hands t, hothers, Function.update_self]
  omega

/-- What a thread holds is held. -/
theorem held_of_hand (h : r ∈ ofHand (hands t)) : 1 ≤ held ofOp ofHand ops hands r := by
  have hcount := List.count_pos_iff.mpr h
  unfold held
  rw [sum_hands t]
  omega

/-- **What is held once** is not held by an operation and a thread, -/
theorem not_both [DecidableEq Op] (hone : held ofOp ofHand ops hands r ≤ 1) {op : Op} (hop : op ∈ ops)
    (hr : r ∈ ofOp op) : r ∉ ofHand (hands t) := by
  intro hhand
  have hpos := List.count_pos_iff.mpr hr
  have hrest : 1 ≤ held ofOp ofHand (ops.erase op) hands r := held_of_hand hhand
  unfold held at hone hrest
  rw [waiting_take hop] at hone
  omega

/-- nor by two threads, -/
theorem one_thread (hone : held ofOp ofHand ops hands r ≤ 1) (h : r ∈ ofHand (hands t))
    (h' : r ∈ ofHand (hands t')) : t = t' := by
  by_contra hne
  have hpos := List.count_pos_iff.mpr h
  have hpos' := List.count_pos_iff.mpr h'
  have hmem : t' ∈ Finset.univ.erase t := Finset.mem_erase.mpr ⟨Ne.symm hne, Finset.mem_univ t'⟩
  have hle : (ofHand (hands t')).count r ≤
      ∑ u ∈ Finset.univ.erase t, (ofHand (hands u)).count r :=
    Finset.single_le_sum (f := fun u => (ofHand (hands u)).count r) (fun _ _ => Nat.zero_le _) hmem
  unfold held at hone
  rw [sum_hands t] at hone
  omega

omit [DecidableEq T] in
/-- What is held has a holder. -/
theorem holder (h : 1 ≤ held ofOp ofHand ops hands r) :
    (∃ op ∈ ops, r ∈ ofOp op) ∨ ∃ t, r ∈ ofHand (hands t) := by
  by_contra hno
  rw [not_or] at hno
  obtain ⟨hops, hhands⟩ := hno
  have hwaiting : waiting ofOp ops r = 0 := waiting_eq_zero fun op hop hr => hops ⟨op, hop, hr⟩
  have hsum : ∑ t, (ofHand (hands t)).count r = 0 :=
    Finset.sum_eq_zero fun t _ => List.count_eq_zero.mpr fun hr => hhands ⟨t, hr⟩
  unfold held at h
  omega

omit [DecidableEq T] in
/-- nor by two operations. -/
theorem one_operation [DecidableEq Op] (hone : held ofOp ofHand ops hands r ≤ 1) {op op' : Op}
    (hop : op ∈ ops) (hop' : op' ∈ ops) (h : r ∈ ofOp op) (h' : r ∈ ofOp op') : op = op' := by
  by_contra hne
  have hpos := List.count_pos_iff.mpr h
  have hpos' := List.count_pos_iff.mpr h'
  have hmem : op' ∈ ops.erase op := (List.mem_erase_of_ne (Ne.symm hne)).mpr hop'
  unfold held at hone
  rw [waiting_take hop, waiting_take hmem] at hone
  omega

end Threads

end Tokens
