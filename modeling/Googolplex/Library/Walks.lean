/-
  File:      Googolplex/Library/Walks.lean
  Subject:   Which nodes a walk looks at, and trees made to order.

  A walk asks of each place it passes if there is a directory, and a lookup reads
  the node at its end. So a walk is a matter of its places, and a place that must
  be a directory in one tree and need not be there in another tells the two apart.

  * `visited`, `walk_iff`, `lookup_congr`: the places of a walk, and that nothing else counts.
  * `placeOf`: where a path string leads by its spelling.
  * `skeleton`: a tree of given directories.
  * `prune`: a tree without some of its branches.
-/
import Googolplex.Library.Posix

namespace Posix.FileTree

open Cxx

variable {t t' : FileTree}

/-! ## 1. The places of a walk -/

/-- The places a name is looked up in. -/
def visited : Path → List Name → List Path
  | _, [] => []
  | cur, n :: ns => cur :: visited (stepName cur n) ns

theorem visited_append {ns ms : List Name} : ∀ {cur : Path},
    visited cur (ns ++ ms) = visited cur ns ++ visited (normal cur ns) ms := by
  induction ns with
  | nil => exact rfl
  | cons n ns ih =>
      intro cur
      rw [List.cons_append, visited, visited, ih, normal_cons, List.cons_append]

/-- **A walk succeeds if it passes directories only**, and ends where the spelling says. -/
theorem walk_iff {ns : List Name} : ∀ {cur p : Path},
    t.walk cur ns = some p ↔ p = normal cur ns ∧ ∀ q ∈ visited cur ns, t.IsDir q := by
  induction ns with
  | nil =>
      intro cur p
      simp only [walk, normal_nil, visited, Option.some.injEq, List.not_mem_nil, false_implies,
        implies_true, and_true]
      exact eq_comm
  | cons n ns ih =>
      intro cur p
      simp only [walk, normal_cons, visited, List.mem_cons, forall_eq_or_imp]
      by_cases hd : t.IsDir cur
      · rw [if_pos hd, ih]
        exact ⟨fun h => ⟨h.1, hd, h.2⟩, fun h => ⟨h.1, h.2.2⟩⟩
      · rw [if_neg hd]
        constructor
        · intro h
          cases h
        · rintro ⟨_, hcur, _⟩
          exact absurd hcur hd

/-- Walks that find the same end alike. -/
theorem walk_congr {cur : Path} {ns : List Name}
    (h : ∀ q ∈ visited cur ns, t.nodes[q]? = t'.nodes[q]?) : t.walk cur ns = t'.walk cur ns := by
  refine Option.ext fun p => ?_
  rw [walk_iff, walk_iff]
  refine and_congr_right fun _ => forall₂_congr fun q hq => ?_
  unfold IsDir
  rw [h q hq]

/-- The node at the end of a walk. -/
def nodeAt (t : FileTree) (cur : Path) (ns : List Name) : Option Node :=
  (t.walk cur ns).bind (t.nodes[·]?)

theorem nodeAt_some {cur : Path} {ns : List Name} {x : Node} : t.nodeAt cur ns = some x ↔
    (∀ q ∈ visited cur ns, t.IsDir q) ∧ t.nodes[normal cur ns]? = some x := by
  unfold nodeAt
  rw [Option.bind_eq_some_iff]
  constructor
  · intro ⟨p, hp, hx⟩
    obtain ⟨rfl, hall⟩ := walk_iff.mp hp
    exact ⟨hall, hx⟩
  · intro ⟨hall, hx⟩
    exact ⟨_, walk_iff.mpr ⟨rfl, hall⟩, hx⟩

/-- **Trees that agree on the places of a walk** lead to the same node. -/
theorem nodeAt_congr {cur : Path} {ns : List Name}
    (h : ∀ q ∈ visited cur ns ++ [normal cur ns], t.nodes[q]? = t'.nodes[q]?) :
    t.nodeAt cur ns = t'.nodeAt cur ns := by
  refine Option.ext fun x => ?_
  rw [nodeAt_some, nodeAt_some, h _ (List.mem_append_right _ (List.mem_singleton_self _))]
  refine and_congr_left fun _ => ?_
  constructor
  · intro hall q hq
    unfold IsDir
    rw [← h q (List.mem_append_left _ hq)]
    exact hall q hq
  · intro hall q hq
    unfold IsDir
    rw [h q (List.mem_append_left _ hq)]
    exact hall q hq

/-- What is above a directory is a directory. -/
theorem isDir_above {p q : Path} (h : t.IsDir q) (hp : p <:+ q) : t.IsDir p := by
  induction q with
  | nil => rwa [List.suffix_nil.mp hp]
  | cons n q ih =>
      rcases List.suffix_cons_iff.mp hp with rfl | hp
      · exact h
      · exact ih (isDir_tail h) hp

/-- The end of a walk that is at or above none of its places hangs in the last of them. -/
theorem normal_last {cur : Path} {ns : List Name} (hns : ns ≠ [])
    (h : ∀ q ∈ visited cur ns, ¬ normal cur ns <:+ q) :
    ∃ n q, normal cur ns = n :: q ∧ q ∈ visited cur ns := by
  induction ns generalizing cur with
  | nil => exact absurd rfl hns
  | cons n ns ih =>
      rw [normal_cons] at h ⊢
      have hmem : cur ∈ visited cur (n :: ns) := List.mem_cons_self
      cases ns with
      | nil =>
          have hcur := h cur hmem
          rw [normal_nil] at hcur ⊢
          unfold stepName at hcur ⊢
          split
          · rename_i hstay
            rw [if_pos hstay] at hcur
            exact absurd List.suffix_rfl hcur
          · rename_i hstay
            rw [if_neg hstay] at hcur
            split
            · rename_i hup
              rw [if_pos hup] at hcur
              exact absurd (List.tail_suffix cur) hcur
            · exact ⟨n, cur, rfl, hmem⟩
      | cons m ns =>
          obtain ⟨x, q, heq, hq⟩ := ih (List.cons_ne_nil _ _) fun q hq => h q (List.mem_cons_of_mem _ hq)
          exact ⟨x, q, heq, List.mem_cons_of_mem _ hq⟩

/-! ## 2. The places of path strings -/

/-- Where the walk of a path begins, seen from a working directory. -/
def originAt (cwd : Path) (s : Str) : Path := if s.head? = some '/' then [] else cwd

/-- Where a path leads by its spelling: `.` and empty names stay, `..` goes up. -/
def placeOf (cwd : Path) (s : Str) : Path := normal (originAt cwd s) (segments s)

theorem origin_eq (t : FileTree) (s : Str) : t.origin s = originAt t.cwd s := rfl

/-- What a path resolves to is at its place. -/
theorem resolve_place {s : Str} {p : Path} (h : t.resolve s = some p) : p = placeOf t.cwd s := by
  unfold resolve at h
  split at h
  · cases h
  · exact walk_normal h

theorem originAt_slash (cwd : Path) (base s : Str) :
    originAt cwd (base ++ '/' :: s) = originAt cwd (base ++ ['/']) := by
  unfold originAt
  cases base <;> rfl

/-- What is below a base: first the base, then the rest. -/
theorem placeOf_below (cwd : Path) (base s : Str) :
    placeOf cwd (base ++ '/' :: s) = normal (placeOf cwd (base ++ ['/'])) (segments s) := by
  unfold placeOf
  rw [originAt_slash, segments_append, segments_append base [], normal_append, normal_append]
  rfl

/-! ## 3. Trees to order -/

theorem getElem?_foldl_dirs (p : Path) : ∀ (dirs : List Path) (m : OrdMap Path Node),
    (dirs.foldl (fun (m : OrdMap Path Node) q => m.insert q .dir) m)[p]? =
      if p ∈ dirs then some .dir else m[p]? := by
  intro dirs
  induction dirs with
  | nil =>
      intro m
      rfl
  | cons q dirs ih =>
      intro m
      rw [List.foldl_cons, ih, getElem?_assign]
      by_cases hp : p ∈ dirs
      · rw [if_pos hp, if_pos (List.mem_cons_of_mem _ hp)]
      · rw [if_neg hp]
        by_cases hq : q = p
        · rw [if_pos hq, if_pos (hq ▸ List.mem_cons_self)]
        · rw [if_neg hq, if_neg]
          intro hmem
          rcases List.mem_cons.mp hmem with heq | hmem
          · exact hq heq.symm
          · exact hp hmem

theorem skeleton_get (dirs : List Path) (p : Path) :
    (([] :: dirs).flatMap List.tails |>.foldl (fun (m : OrdMap Path Node) q => m.insert q .dir) ∅)[p]? =
      if p = [] ∨ ∃ q ∈ dirs, p <:+ q then some .dir else none := by
  rw [getElem?_foldl_dirs, Std.ExtTreeMap.getElem?_empty]
  refine if_congr ?_ rfl rfl
  simp only [List.mem_flatMap, List.mem_cons, List.mem_tails, exists_eq_or_imp, List.suffix_nil]

/-- The tree of some directories, with what is above them. -/
def skeleton (dirs : List Path) (cwd : Path) : FileTree where
  nodes := ([] :: dirs).flatMap List.tails |>.foldl (fun (m : OrdMap Path Node) q => m.insert q .dir) ∅
  cwd := cwd
  rootDir := (skeleton_get dirs []).trans (if_pos (Or.inl rfl))
  parentDir n p h := by
    rw [skeleton_get] at h ⊢
    rw [if_pos]
    split at h
    · rename_i hmem
      rcases hmem with hnil | ⟨q, hq, hsuf⟩
      · cases hnil
      · exact Or.inr ⟨q, hq, (List.suffix_cons n p).trans hsuf⟩
    · exact absurd rfl h

theorem skeleton_nodes (dirs : List Path) (cwd p : Path) : (skeleton dirs cwd).nodes[p]? =
    if p = [] ∨ ∃ q ∈ dirs, p <:+ q then some .dir else none :=
  skeleton_get dirs p

theorem isDir_skeleton {dirs : List Path} {p : Path} (cwd : Path) (h : p ∈ dirs) :
    (skeleton dirs cwd).IsDir p :=
  (skeleton_nodes dirs cwd p).trans (if_pos (Or.inr ⟨p, h, List.suffix_rfl⟩))

/-- A tree without what is not kept; with a place everything above it is kept. -/
def prune (t : FileTree) (keep : Path → Bool) (hroot : keep [] = true)
    (hup : ∀ (n : Name) (p : Path), keep (n :: p) = true → keep p = true) : FileTree where
  nodes := t.nodes.filter fun p _ => keep p
  cwd := t.cwd
  rootDir := by
    rw [Std.ExtTreeMap.getElem?_filter', t.rootDir]
    simp [hroot]
  parentDir n p h := by
    rw [Std.ExtTreeMap.getElem?_filter'] at h ⊢
    cases hx : t.nodes[n :: p]? with
    | none =>
        rw [hx] at h
        exact absurd rfl h
    | some x =>
        have hdir : t.nodes[p]? = some .dir := t.parentDir n p (by rw [hx]; simp)
        have hkeep : keep (n :: p) = true := by
          by_contra hno
          rw [hx] at h
          simp [hno] at h
        rw [hdir]
        simp [hup n p hkeep]

theorem prune_nodes (keep : Path → Bool) (hroot : keep [] = true)
    (hup : ∀ (n : Name) (p : Path), keep (n :: p) = true → keep p = true) (p : Path) :
    (t.prune keep hroot hup).nodes[p]? = if keep p = true then t.nodes[p]? else none := by
  unfold prune
  rw [Std.ExtTreeMap.getElem?_filter']
  cases t.nodes[p]? with
  | none => simp
  | some x => by_cases hk : keep p = true <;> simp [hk]

end Posix.FileTree
