/-
  File:      Googolplex/Library/Completions.lean
  Subject:   Objects with operations under way on them, each operation of one object:
             when every object there is has one, and no other object has any.

  * `Desk`: the objects by their identity, and the operations pending.
  * `Settled`: one pending operation for an object that is there, none for one
    that is not.
  * `take_settled`: an operation is taken out; its object has none left, and the
    others stay settled. `settled_arm` and `settled_none` settle it again.
-/
import Mathlib

namespace Completions

variable {Id Obj Op : Type}

/-- The objects, and the operations pending. -/
structure Desk (Id Obj Op : Type) where
  objects : Id → Option Obj
  pending : List Op

/-- An object is put in its place, or taken away. -/
def Desk.put [DecidableEq Id] (d : Desk Id Obj Op) (id : Id) (o : Option Obj) : Desk Id Obj Op :=
  { d with objects := fun j => if j = id then o else d.objects j }

/-- An operation begins. -/
def Desk.arm (d : Desk Id Obj Op) (op : Op) : Desk Id Obj Op := { d with pending := op :: d.pending }

/-- An operation completes. -/
def Desk.take [DecidableEq Op] (d : Desk Id Obj Op) (op : Op) : Desk Id Obj Op :=
  { d with pending := d.pending.erase op }

/-- How many operations of an object are pending. -/
def Desk.count [DecidableEq Id] (owner : Op → Id) (d : Desk Id Obj Op) (id : Id) : Nat :=
  d.pending.countP (owner · = id)

/-- **One operation for an object that is there**, and one that suits it; none for one that is not. -/
def Settled [DecidableEq Id] (owner : Op → Id) (fits : Obj → Op → Prop) (d : Desk Id Obj Op) (id : Id) : Prop :=
  match d.objects id with
  | none => d.count owner id = 0
  | some o => d.count owner id = 1 ∧ ∃ op ∈ d.pending, owner op = id ∧ fits o op

section

variable {owner : Op → Id} {fits : Obj → Op → Prop} {d : Desk Id Obj Op} {id j : Id} {o : Option Obj}
  {op : Op}

/-- What is counted of the pending operations, when one of them is taken out. -/
theorem take_countP [DecidableEq Op] (p : Op → Bool) (h : op ∈ d.pending) :
    d.pending.countP p = (d.take op).pending.countP p + if p op then 1 else 0 := by
  rw [(List.perm_cons_erase h).countP_eq, List.countP_cons]
  rfl

variable [DecidableEq Id]

@[simp] theorem put_self : (d.put id o).objects id = o := if_pos rfl

theorem put_other (h : j ≠ id) : (d.put id o).objects j = d.objects j := if_neg h

theorem put_put {o' : Option Obj} : (d.put id o).put id o' = d.put id o' := by
  unfold Desk.put
  congr 1
  funext j
  by_cases hj : j = id
  · rw [if_pos hj, if_pos hj]
  · rw [if_neg hj, if_neg hj]
    exact if_neg hj

theorem arm_count : (d.arm op).count owner id = d.count owner id + if owner op = id then 1 else 0 := by
  unfold Desk.count Desk.arm
  rw [List.countP_cons]
  simp

theorem not_mem_of_count (h : d.count owner (owner op) = 0) : op ∉ d.pending := by
  unfold Desk.count at h
  rw [List.countP_eq_zero] at h
  intro hmem
  exact h op hmem (by simp)

theorem settled_none (hobj : d.objects id = none) :
    Settled owner fits d id ↔ d.count owner id = 0 := by
  unfold Settled
  rw [hobj]

theorem settled_some {o : Obj} (hobj : d.objects id = some o) : Settled owner fits d id ↔
    d.count owner id = 1 ∧ ∃ op ∈ d.pending, owner op = id ∧ fits o op := by
  unfold Settled
  rw [hobj]

/-- What is pending when one operation of an object is. -/
theorem eq_of_count_one {op' : Op} (h : d.count owner id = 1) (hop : op ∈ d.pending)
    (hop' : op' ∈ d.pending) (ho : owner op = id) (ho' : owner op' = id) : op = op' := by
  unfold Desk.count at h
  rw [List.countP_eq_length_filter] at h
  obtain ⟨x, hx⟩ := List.length_eq_one_iff.mp h
  have hmem : op ∈ [x] := by
    rw [← hx]
    exact List.mem_filter.mpr ⟨hop, by simp [ho]⟩
  have hmem' : op' ∈ [x] := by
    rw [← hx]
    exact List.mem_filter.mpr ⟨hop', by simp [ho']⟩
  rw [List.mem_singleton.mp hmem, List.mem_singleton.mp hmem']

/-- An operation that is pending has its object, and suits it. -/
theorem Settled.object (h : Settled owner fits d (owner op)) (hop : op ∈ d.pending) :
    ∃ o, d.objects (owner op) = some o ∧ fits o op := by
  cases hobj : d.objects (owner op) with
  | none =>
      rw [settled_none hobj] at h
      exact absurd hop (not_mem_of_count h)
  | some o =>
      rw [settled_some hobj] at h
      obtain ⟨hone, op', hop', howner, hfits⟩ := h
      rw [eq_of_count_one hone hop hop' rfl howner]
      rw [eq_of_count_one hone hop hop' rfl howner] at hobj
      exact ⟨o, rfl, hfits⟩

/-- **An operation that suits its object** settles an object without one. -/
theorem settled_arm {o : Obj} (hobj : d.objects (owner op) = some o)
    (hidle : d.count owner (owner op) = 0) (hfits : fits o op) :
    Settled owner fits (d.arm op) (owner op) := by
  rw [settled_some (show (d.arm op).objects (owner op) = some o from hobj), arm_count, if_pos rfl, hidle]
  exact ⟨rfl, op, List.mem_cons_self, rfl, hfits⟩

theorem settled_arm_other (h : Settled owner fits d id) (hne : id ≠ owner op) :
    Settled owner fits (d.arm op) id := by
  cases hobj : d.objects id with
  | none =>
      rw [settled_none hobj] at h
      rw [settled_none (show (d.arm op).objects id = none from hobj), arm_count, h,
        if_neg (Ne.symm hne)]
  | some o =>
      rw [settled_some hobj] at h
      obtain ⟨hone, op', hop', hrest⟩ := h
      rw [settled_some (show (d.arm op).objects id = some o from hobj), arm_count, hone,
        if_neg (Ne.symm hne)]
      exact ⟨rfl, op', List.mem_cons_of_mem _ hop', hrest⟩

theorem settled_put_other (h : Settled owner fits d j) (hne : j ≠ id) :
    Settled owner fits (d.put id o) j := by
  unfold Settled at h ⊢
  rw [put_other hne]
  exact h

variable [DecidableEq Op]

theorem take_count (owner : Op → Id) (id : Id) (h : op ∈ d.pending) :
    d.count owner id = (d.take op).count owner id + if owner op = id then 1 else 0 := by
  unfold Desk.count
  rw [take_countP _ h]
  simp

/-- **An operation is taken out**: its object has none left. -/
theorem take_idle (h : Settled owner fits d (owner op)) (hop : op ∈ d.pending) :
    (d.take op).count owner (owner op) = 0 := by
  obtain ⟨o, hobj, _⟩ := h.object hop
  rw [settled_some hobj] at h
  have hcount := take_count owner (owner op) hop
  rw [if_pos rfl, h.1] at hcount
  omega

/-- The other objects stay as they are. -/
theorem take_settled (h : Settled owner fits d id) (hop : op ∈ d.pending) (hne : id ≠ owner op) :
    Settled owner fits (d.take op) id := by
  have hcount := take_count owner id hop
  rw [if_neg (Ne.symm hne), Nat.add_zero] at hcount
  cases hobj : d.objects id with
  | none =>
      rw [settled_none hobj] at h
      rw [settled_none (show (d.take op).objects id = none from hobj), ← hcount]
      exact h
  | some o =>
      rw [settled_some hobj] at h
      rw [settled_some (show (d.take op).objects id = some o from hobj), ← hcount]
      obtain ⟨hone, op', hop', howner, hfits⟩ := h
      refine ⟨hone, op', ?_, howner, hfits⟩
      have hne' : op' ≠ op := by
        intro heq
        rw [heq] at howner
        exact hne howner.symm
      exact (List.mem_erase_of_ne hne').mpr hop'

end

end Completions
