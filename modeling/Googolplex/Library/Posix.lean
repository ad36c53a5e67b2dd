/-
  File:      Googolplex/Library/Posix.lean
  Subject:   A file tree without links, and how a path string walks it.

  * `FileTree`: the nodes by absolute path. A path is the list of its names,
    LAST NAME FIRST, so that the parent of `n :: p` is `p`. That every node
    hangs in a directory is a field: a tree that violates it cannot be built.
  * `walk`, `resolve`: path resolution. Each name is looked up in a directory,
    empty names and `.` stay, `..` goes up.
  * `mkdir`, `openWrite`, `unlink`: the calls that make a tree grow, or take a file
    from it. `none` is the failed call; a failed call changes nothing.
  * `entries`: what a directory lists.
  * `rmdir`: the call that takes an empty directory.
  * `visible`: the tree of a reader that may not open all files.
-/
import Googolplex.Library.Cxx

namespace Posix

open Cxx

/-- A name in a directory. -/
abbrev Name := List Char

/-- An absolute path, last name first; `[]` is the root directory. -/
abbrev Path := List Name

/-- Paths are ordered by their names. -/
instance : Std.TransOrd Path := List.instTransOrd

/-- What a path can lead to. -/
inductive Node where
  | dir
  | file (content : Str)
  deriving DecidableEq, Repr

/-- The tree of directories and files, and the working directory of the process. -/
structure FileTree where
  nodes : OrdMap Path Node
  cwd : Path
  rootDir : nodes[([] : Path)]? = some .dir
  parentDir : ∀ (n : Name) (p : Path), nodes[n :: p]? ≠ none → nodes[p]? = some .dir

namespace FileTree

variable {t t' : FileTree}

/-! ## 1. Nodes -/

/-- There is a directory at `p`. -/
def IsDir (t : FileTree) (p : Path) : Prop := t.nodes[p]? = some .dir

instance (t : FileTree) (p : Path) : Decidable (t.IsDir p) :=
  inferInstanceAs (Decidable (_ = _))

/-- There is a regular file at `p`. -/
def IsFile (t : FileTree) (p : Path) : Prop := ∃ c, t.nodes[p]? = some (.file c)

theorem IsFile.not_isDir {p : Path} (h : t.IsFile p) : ¬ t.IsDir p := by
  obtain ⟨c, h⟩ := h
  intro hd
  unfold IsDir at hd
  rw [h] at hd
  cases hd

theorem IsFile.parent {n : Name} {p : Path} (h : t.IsFile (n :: p)) : t.IsDir p := by
  obtain ⟨c, h⟩ := h
  exact t.parentDir n p (by rw [h]; simp)

theorem isDir_tail {p : Path} (h : t.IsDir p) : t.IsDir p.tail := by
  cases p with
  | nil => exact h
  | cons n p => exact t.parentDir n p (by rw [show t.nodes[n :: p]? = some .dir from h]; simp)

/-- The tree with node `x` at `n` in directory `p`; a directory stays one. -/
def put (t : FileTree) (n : Name) (p : Path) (x : Node) (hp : t.IsDir p)
    (hx : t.IsDir (n :: p) → x = .dir) : FileTree where
  nodes := t.nodes.insert (n :: p) x
  cwd := t.cwd
  rootDir := by rw [getElem?_assign_of_ne _ _ (by simp)]; exact t.rootDir
  parentDir m q h := by
    have hold : t.IsDir q := by
      by_cases e : n :: p = m :: q
      · cases e; exact hp
      · rw [getElem?_assign_of_ne _ _ e] at h
        exact t.parentDir m q h
    rw [getElem?_assign]
    split
    · rename_i e; rw [hx (e ▸ hold)]
    · exact hold

/-- There is nothing in `p`. -/
def Leaf (t : FileTree) (p : Path) : Prop := ∀ n : Name, t.nodes[n :: p]? = none

theorem IsFile.leaf {p : Path} (h : t.IsFile p) : t.Leaf p := by
  intro n
  by_contra hn
  exact h.not_isDir (t.parentDir n p hn)

/-- The tree without `n` in `p`, in which there is nothing. -/
def drop (t : FileTree) (n : Name) (p : Path) (hleaf : t.Leaf (n :: p)) : FileTree where
  nodes := t.nodes.erase (n :: p)
  cwd := t.cwd
  rootDir := by rw [getElem?_remove, if_neg (by simp)]; exact t.rootDir
  parentDir m q h := by
    rw [getElem?_remove] at h ⊢
    split at h
    · exact absurd rfl h
    · rw [if_neg]
      · exact t.parentDir m q h
      · rintro rfl; exact h (hleaf m)

theorem put_nodes (n : Name) (p : Path) (x : Node) (hp : t.IsDir p)
    (hx : t.IsDir (n :: p) → x = .dir) (q : Path) :
    (t.put n p x hp hx).nodes[q]? = if n :: p = q then some x else t.nodes[q]? :=
  getElem?_assign _ _ _ _

theorem drop_nodes (n : Name) (p : Path) (hleaf : t.Leaf (n :: p)) (q : Path) :
    (t.drop n p hleaf).nodes[q]? = if n :: p = q then none else t.nodes[q]? :=
  getElem?_remove _ _ _

/-- The tree that has nothing but its root. -/
def bare : FileTree where
  nodes := (∅ : OrdMap Path Node).insert [] .dir
  cwd := []
  rootDir := getElem?_assign_self _ _ _
  parentDir n p h := by
    rw [getElem?_assign_of_ne _ _ (by simp), Std.ExtTreeMap.getElem?_empty] at h
    exact absurd rfl h

theorem isDir_root (t : FileTree) : t.IsDir [] := t.rootDir

@[simp] theorem bare_nodes (n : Name) (p : Path) : bare.nodes[n :: p]? = none := by
  unfold bare
  rw [getElem?_assign_of_ne _ _ (by simp), Std.ExtTreeMap.getElem?_empty]

/-! ## 2. Walking -/

/-- Where one name leads from a directory. -/
def stepName (cur : Path) (n : Name) : Path :=
  if n = [] ∨ n = ['.'] then cur else if n = ['.', '.'] then cur.tail else n :: cur

/-- **Path resolution**: every name is looked up in a directory; the last one need not exist. -/
def walk (t : FileTree) : Path → List Name → Option Path
  | cur, [] => some cur
  | cur, n :: ns => if t.IsDir cur then t.walk (stepName cur n) ns else none

/-- Where the names lead if all of them can be walked: a matter of the spelling alone. -/
def normal (cur : Path) (ns : List Name) : Path := ns.foldl stepName cur

/-- A name a file can have: one that `walk` descends into. -/
def Plain (n : Name) : Prop := n ≠ [] ∧ n ≠ ['.'] ∧ n ≠ ['.', '.'] ∧ '/' ∉ n

instance (n : Name) : Decidable (Plain n) := inferInstanceAs (Decidable (_ ∧ _))

theorem Plain.stepName {n : Name} (h : Plain n) (cur : Path) : stepName cur n = n :: cur := by
  obtain ⟨h1, h2, h3, _⟩ := h
  simp [FileTree.stepName, h1, h2, h3]

@[simp] theorem normal_nil (cur : Path) : normal cur [] = cur := rfl

@[simp] theorem normal_cons (cur : Path) (n : Name) (ns : List Name) :
    normal cur (n :: ns) = normal (stepName cur n) ns := rfl

theorem normal_append (cur : Path) (xs ys : List Name) :
    normal cur (xs ++ ys) = normal (normal cur xs) ys := List.foldl_append

theorem walk_append (cur : Path) : ∀ (xs ys : List Name),
    t.walk cur (xs ++ ys) = (t.walk cur xs).bind (fun c => t.walk c ys)
  | [], ys => rfl
  | x :: xs, ys => by
      simp only [List.cons_append, walk]
      split
      · exact walk_append (stepName cur x) xs ys
      · rfl

/-- A walk that succeeds ends where the spelling says. -/
theorem walk_normal {ns : List Name} : ∀ {cur p : Path}, t.walk cur ns = some p → p = normal cur ns := by
  induction ns with
  | nil =>
      intro cur p h
      simp only [walk, Option.some.injEq] at h
      exact h.symm
  | cons n ns ih =>
      intro cur p h
      simp only [walk] at h
      split at h
      · exact ih h
      · cases h

theorem walk_concat (cur : Path) (ns : List Name) (n : Name) :
    t.walk cur (ns ++ [n]) =
      (t.walk cur ns).bind (fun c => if t.IsDir c then some (stepName c n) else none) := by
  rw [walk_append]
  rfl

/-- The last name of a walk is looked up in a directory: what is not itself a directory hangs in
    one. -/
theorem walk_parent {cur p : Path} {ns : List Name} (hns : ns ≠ []) (h : t.walk cur ns = some p)
    (hp : ¬ t.IsDir p) : ∃ n q, p = n :: q ∧ t.IsDir q := by
  obtain ⟨ms, m, rfl⟩ : ∃ ms m, ns = ms ++ [m] := (List.eq_nil_or_concat' ns).resolve_left hns
  rw [walk_concat] at h
  cases hc : t.walk cur ms with
  | none => rw [hc] at h; cases h
  | some c =>
      rw [hc, Option.bind_some] at h
      split at h
      · rename_i hd
        obtain rfl : stepName c m = p := by simpa using h
        unfold stepName at hp ⊢
        split
        · rename_i e; rw [if_pos e] at hp; exact absurd hd hp
        · rename_i e1
          rw [if_neg e1] at hp
          split
          · rename_i e; rw [if_pos e] at hp; exact absurd (isDir_tail hd) hp
          · exact ⟨m, c, rfl, hd⟩
      · cases h

/-- `t'` has every directory of `t`, and the same working directory. -/
structure Grows (t t' : FileTree) : Prop where
  cwd : t'.cwd = t.cwd
  dirs : ∀ p, t.IsDir p → t'.IsDir p

theorem Grows.refl (t : FileTree) : Grows t t := ⟨rfl, fun _ h => h⟩

theorem Grows.trans {t'' : FileTree} (h₁ : Grows t t') (h₂ : Grows t' t'') : Grows t t'' :=
  ⟨h₂.cwd.trans h₁.cwd, fun p h => h₂.dirs p (h₁.dirs p h)⟩

theorem Grows.walk (hg : Grows t t') : ∀ {ns : List Name} {cur p : Path},
    t.walk cur ns = some p → t'.walk cur ns = some p
  | [], _, _, h => h
  | n :: ns, cur, p, h => by
      simp only [FileTree.walk] at h ⊢
      split at h
      · rename_i hd
        rw [if_pos (hg.dirs _ hd)]
        exact hg.walk h
      · cases h

/-! ## 3. Path strings -/

/-- The names between the slashes. -/
def segments (s : Str) : List Name := s.splitOn '/'

/-- Where the walk of a path string begins. -/
def origin (t : FileTree) (s : Str) : Path := if s.head? = some '/' then [] else t.cwd

/-- Where a path string leads. -/
def resolve (t : FileTree) (s : Str) : Option Path :=
  if s = [] then none else t.walk (t.origin s) (segments s)

/-- What a path string leads to. -/
def lookup (t : FileTree) (s : Str) : Option Node := (t.resolve s).bind (t.nodes[·]?)

theorem segments_ne_nil (s : Str) : segments s ≠ [] := List.splitOn_ne_nil _ _

theorem segments_append (a b : Str) : segments (a ++ '/' :: b) = segments a ++ segments b :=
  List.splitOn_append_cons_self a b

theorem segments_of_not_mem {s : Str} (h : '/' ∉ s) : segments s = [s] :=
  List.splitOn_eq_singleton h

/-- What comes after the first slash does not matter to where a path begins. -/
theorem origin_slash (t : FileTree) (base s : Str) :
    t.origin (base ++ '/' :: s) = t.origin (base ++ ['/']) := by
  unfold origin
  cases base <;> rfl

/-- Nor does a slash at its end. -/
theorem origin_end (t : FileTree) {base : Str} (hne : base ≠ []) :
    t.origin (base ++ ['/']) = t.origin base := by
  unfold origin
  cases base with
  | nil => exact absurd rfl hne
  | cons c cs => rfl

/-- A name below a base: the base is walked first, as a directory. -/
theorem resolve_below (t : FileTree) (base s : Str) :
    t.resolve (base ++ '/' :: s) =
      (t.resolve (base ++ ['/'])).bind (fun d => t.walk d (segments s)) := by
  have hdir : ∀ c, (t.walk c [[]]).bind (fun d => t.walk d (segments s)) = t.walk c (segments s) := by
    intro c
    obtain ⟨x, xs, e⟩ := List.exists_cons_of_ne_nil (segments_ne_nil s)
    rw [e]
    by_cases hd : t.IsDir c <;> simp [walk, hd, stepName]
  have hnil : segments [] = [[]] := rfl
  have hne : base ++ '/' :: s ≠ [] := by simp
  have hne' : base ++ ['/'] ≠ [] := by simp
  unfold resolve
  rw [origin_slash, if_neg hne, if_neg hne', segments_append, segments_append base [], hnil]
  rw [walk_append, walk_append, Option.bind_assoc]
  congr 1
  funext c
  exact (hdir c).symm

theorem Grows.resolve (hg : Grows t t') {s : Str} {p : Path} (h : t.resolve s = some p) :
    t'.resolve s = some p := by
  unfold FileTree.resolve at h ⊢
  split at h
  · cases h
  · rename_i hs
    rw [if_neg hs, origin, hg.cwd]
    exact hg.walk h

/-- A path string leads to what hangs in a directory, or to a directory. -/
theorem resolve_parent {s : Str} {p : Path} (h : t.resolve s = some p) (hp : ¬ t.IsDir p) :
    ∃ n q, p = n :: q ∧ t.IsDir q := by
  unfold resolve at h
  split at h
  · cases h
  · exact walk_parent (segments_ne_nil s) h hp

/-! ## 4. The calls that change a tree -/

/-- `mkdir(2)`: trailing slashes are allowed, the parent must be a directory, the name free. -/
def mkdir (t : FileTree) (s : Str) : Option FileTree :=
  if s = [] then none else
  match t.walk (t.origin s) ((segments s).rdropWhile (· == [])) with
  | some (n :: p) =>
    if h : t.IsDir p ∧ t.nodes[n :: p]? = none then
      some (t.put n p .dir h.1 fun _ => rfl)
    else none
  | _ => none

/-- Opening a file for writing, truncating or creating it, and writing `content`. -/
def openWrite (t : FileTree) (s content : Str) : Option FileTree :=
  match t.resolve s with
  | some (n :: p) =>
    if h : t.IsDir p ∧ ¬ t.IsDir (n :: p) then
      some (t.put n p (.file content) h.1 fun hd => absurd hd h.2)
    else none
  | _ => none

instance (t : FileTree) (p : Path) : Decidable (t.IsFile p) :=
  match h : t.nodes[p]? with
  | some (.file c) => .isTrue ⟨c, h⟩
  | some .dir => .isFalse fun ⟨_, e⟩ => by rw [h] at e; cases e
  | none => .isFalse fun ⟨_, e⟩ => by rw [h] at e; cases e

/-- `unlink(2)`. -/
def unlink (t : FileTree) (s : Str) : Option FileTree :=
  match t.resolve s with
  | some (n :: p) => if h : t.IsFile (n :: p) then some (t.drop n p h.leaf) else none
  | _ => none

/-- What `mkdir` does when it succeeds. -/
theorem mkdir_some {s : Str} (h : t.mkdir s = some t') :
    ∃ n p, t.walk (t.origin s) ((segments s).rdropWhile (· == [])) = some (n :: p) ∧ t.IsDir p ∧
      t.nodes[n :: p]? = none ∧ t'.cwd = t.cwd ∧
      ∀ q, t'.nodes[q]? = if n :: p = q then some .dir else t.nodes[q]? := by
  unfold mkdir at h
  split at h
  · cases h
  · split at h
    · rename_i n p hr
      split at h
      · rename_i hn
        cases h
        exact ⟨n, p, hr, hn.1, hn.2, rfl, put_nodes n p .dir hn.1 _⟩
      · cases h
    · cases h

/-- What `openWrite` does when it succeeds. -/
theorem openWrite_some {s content : Str} (h : t.openWrite s content = some t') :
    ∃ n p, t.resolve s = some (n :: p) ∧ t.IsDir p ∧ ¬ t.IsDir (n :: p) ∧ t'.cwd = t.cwd ∧
      ∀ q, t'.nodes[q]? = if n :: p = q then some (.file content) else t.nodes[q]? := by
  unfold openWrite at h
  split at h
  · rename_i n p hr
    split at h
    · rename_i hn
      cases h
      exact ⟨n, p, hr, hn.1, hn.2, rfl, put_nodes n p _ hn.1 _⟩
    · cases h
  · cases h

/-- A path that resolves to something other than a directory can be written. -/
theorem openWrite_of_resolve {s : Str} {p : Path} (content : Str) (hr : t.resolve s = some p)
    (hp : ¬ t.IsDir p) : ∃ t', t.openWrite s content = some t' := by
  obtain ⟨n, q, rfl, hq⟩ := resolve_parent hr hp
  unfold openWrite
  rw [hr]
  simp only
  rw [dif_pos ⟨hq, hp⟩]
  exact ⟨_, rfl⟩

/-- What `unlink` does when it succeeds. -/
theorem unlink_some {s : Str} (h : t.unlink s = some t') :
    ∃ p, t.resolve s = some p ∧ t.IsFile p ∧ t'.cwd = t.cwd ∧
      ∀ q, t'.nodes[q]? = if p = q then none else t.nodes[q]? := by
  unfold unlink at h
  split at h
  · rename_i n p hr
    split at h
    · rename_i hf
      cases h
      exact ⟨n :: p, hr, hf, rfl, drop_nodes n p hf.leaf⟩
    · cases h
  · cases h

/-- A regular file can be unlinked. -/
theorem unlink_of_resolve {s : Str} {p : Path} (hr : t.resolve s = some p) (hf : t.IsFile p) :
    ∃ t', t.unlink s = some t' := by
  obtain ⟨n, q, rfl, _⟩ := resolve_parent hr hf.not_isDir
  unfold unlink
  rw [hr]
  simp only
  rw [dif_pos hf]
  exact ⟨_, rfl⟩

theorem Grows.of_mkdir {s : Str} (h : t.mkdir s = some t') : Grows t t' := by
  obtain ⟨n, p, _, _, _, hc, hn⟩ := mkdir_some h
  refine ⟨hc, fun q hq => ?_⟩
  unfold IsDir
  rw [hn]
  split
  · rfl
  · exact hq

theorem Grows.of_openWrite {s content : Str} (h : t.openWrite s content = some t') : Grows t t' := by
  obtain ⟨n, p, _, _, hnd, hc, hn⟩ := openWrite_some h
  refine ⟨hc, fun q hq => ?_⟩
  unfold IsDir
  rw [hn, if_neg]
  · exact hq
  · rintro rfl; exact hnd hq

theorem Grows.of_unlink {s : Str} (h : t.unlink s = some t') : Grows t t' := by
  obtain ⟨p, _, hf, hc, hn⟩ := unlink_some h
  refine ⟨hc, fun q hq => ?_⟩
  unfold IsDir
  rw [hn, if_neg]
  · exact hq
  · rintro rfl; exact hf.not_isDir hq

/-- A tree is its nodes and its working directory. -/
theorem ext_nodes (hcwd : t.cwd = t'.cwd) (h : ∀ q : Path, t.nodes[q]? = t'.nodes[q]?) : t = t' := by
  obtain ⟨nodes, cwd, _, _⟩ := t
  obtain ⟨nodes', cwd', _, _⟩ := t'
  obtain rfl : nodes = nodes' := Std.ExtTreeMap.ext_getElem? h
  obtain rfl : cwd = cwd' := hcwd
  rfl

/-- What was written is written again, and nothing changes. -/
theorem openWrite_again {s content : Str} (h : t.openWrite s content = some t') :
    t'.openWrite s content = some t' := by
  obtain ⟨n, p, hr, hp, hnd, hcwd, hn⟩ := openWrite_some h
  have hr' : t'.resolve s = some (n :: p) := (Grows.of_openWrite h).resolve hr
  have hnd' : ¬ t'.IsDir (n :: p) := by
    unfold IsDir
    rw [hn, if_pos rfl]
    intro hd
    cases hd
  obtain ⟨t'', h'⟩ := openWrite_of_resolve content hr' hnd'
  obtain ⟨n', p', hr'', _, _, hcwd', hn'⟩ := openWrite_some h'
  obtain rfl : t'' = t' := by
    refine ext_nodes hcwd' fun q => ?_
    have hp' : n' :: p' = n :: p := Option.some.inj (hr''.symm.trans hr')
    rw [hn', hp', hn]
    split <;> rfl
  exact h'

/-- What was unlinked is not found again. -/
theorem lookup_of_unlink {s : Str} (h : t.unlink s = some t') : t'.lookup s = none := by
  obtain ⟨p, hr, _, _, hn⟩ := unlink_some h
  unfold lookup
  rw [(Grows.of_unlink h).resolve hr, Option.bind_some, hn, if_pos rfl]

/-! ## 5. Below a directory named by a string

`base` is the string of a directory, `d` the directory it leads to. -/

section Below

variable {base : Str} {d : Path}

theorem walk_blanks {p : Path} (hp : t.IsDir p) {ns : List Name} (h : ∀ n ∈ ns, n = []) :
    t.walk p ns = some p := by
  induction ns with
  | nil => rfl
  | cons n ns ih =>
      obtain rfl : n = [] := h n List.mem_cons_self
      simp only [walk, if_pos hp]
      exact ih fun m hm => h m (List.mem_cons_of_mem _ hm)

theorem normal_blanks {p : Path} {ns : List Name} (h : ∀ n ∈ ns, n = []) : normal p ns = p := by
  induction ns with
  | nil => rfl
  | cons n ns ih =>
      obtain rfl : n = [] := h n List.mem_cons_self
      exact ih fun m hm => h m (List.mem_cons_of_mem _ hm)

/-- The string of a directory leads to one. -/
theorem resolve_dir (h : t.resolve (base ++ ['/']) = some d) :
    t.IsDir d ∧ t.walk (t.origin (base ++ ['/'])) (segments base) = some d := by
  unfold resolve at h
  rw [if_neg (by simp), segments_append base [], show segments [] = [[]] from rfl, walk_concat] at h
  cases hw : t.walk (t.origin (base ++ ['/'])) (segments base) with
  | none => rw [hw] at h; cases h
  | some c =>
      rw [hw, Option.bind_some] at h
      split at h
      · rename_i hc
        cases h
        exact ⟨hc, rfl⟩
      · cases h

/-- A path to a directory may end in a slash. -/
theorem resolve_slash (h : t.resolve base = some d) (hd : t.IsDir d) :
    t.resolve (base ++ ['/']) = some d := by
  unfold resolve at h
  split at h
  · cases h
  · rename_i hne
    unfold resolve
    rw [if_neg (by simp), origin_end t hne, segments_append base [], show segments [] = [[]] from rfl,
      walk_concat, h, Option.bind_some, if_pos hd]
    rfl

/-- A path that may end in a slash leads to the same directory without it. -/
theorem resolve_of_slash (hne : base ≠ []) (h : t.resolve (base ++ ['/']) = some d) :
    t.resolve base = some d := by
  unfold resolve
  rw [if_neg hne, ← origin_end t hne]
  exact (resolve_dir h).2

/-- What hangs nowhere has nothing hanging in it. -/
theorem nothing_below (h : ∀ n : Name, t.nodes[n :: d]? = none) :
    ∀ (n : Name) (p : Path), d <:+ p → t.nodes[n :: p]? = none := by
  intro n p
  induction p generalizing n with
  | nil =>
      intro hsuf
      rw [← List.suffix_nil.mp hsuf]
      exact h n
  | cons m p ih =>
      intro hsuf
      rcases List.suffix_cons_iff.mp hsuf with rfl | hsuf
      · exact h n
      · have hnone := ih m hsuf
        by_contra hne
        rw [t.parentDir n (m :: p) hne] at hnone
        cases hnone

theorem resolve_base (h : t.resolve (base ++ ['/']) = some d) (s : Str) :
    t.resolve (base ++ '/' :: s) = t.walk d (segments s) := by
  rw [resolve_below, h, Option.bind_some]

theorem lookup_base (h : t.resolve (base ++ ['/']) = some d) (s : Str) :
    t.lookup (base ++ '/' :: s) = (t.walk d (segments s)).bind (t.nodes[·]?) := by
  unfold lookup
  rw [resolve_base h]

/-- A directory stays one. -/
theorem lookup_grows (hg : Grows t t') {path : Str} (h : t.lookup path = some .dir) :
    t'.lookup path = some .dir := by
  obtain ⟨p, hp, hdir⟩ := Option.bind_eq_some_iff.mp h
  unfold lookup
  rw [hg.resolve hp]
  exact hg.dirs p hdir

/-- A plain name behind the string of a directory leads into it. -/
theorem resolve_child {x : Name} (h : t.lookup base = some .dir) (hx : Plain x) :
    ∃ p, t.IsDir p ∧ t.resolve base = some p ∧ t.resolve (base ++ '/' :: x) = some (x :: p) := by
  obtain ⟨p, hp, hdir⟩ := Option.bind_eq_some_iff.mp h
  refine ⟨p, hdir, hp, ?_⟩
  rw [resolve_base (resolve_slash hp hdir), segments_of_not_mem hx.2.2.2, walk,
    if_pos (show t.IsDir p from hdir), hx.stepName]
  rfl

/-- What is found behind a string is found behind the string of a directory. -/
theorem lookup_above {s : Str} (hne : base ≠ []) (h : t.lookup (base ++ '/' :: s) ≠ none) :
    t.lookup base = some .dir := by
  have hresolve : t.resolve (base ++ ['/']) ≠ none := by
    intro hnone
    refine h ?_
    unfold lookup
    rw [resolve_below, hnone]
    rfl
  obtain ⟨p, hp⟩ := Option.ne_none_iff_exists'.mp hresolve
  unfold lookup
  rw [resolve_of_slash hne hp]
  exact (resolve_dir hp).1

/-- What follows the last name that is not blank. -/
theorem rdropWhile_blanks (ns : List Name) :
    ∃ es, ns = ns.rdropWhile (· == []) ++ es ∧ ∀ n ∈ es, n = [] := by
  refine ⟨ns.rtakeWhile (· == []), (List.rdropWhile_append_rtakeWhile ..).symm, fun n hn => ?_⟩
  simpa using List.mem_rtakeWhile_imp hn

theorem rdropWhile_append_of_ne_nil {α : Type} {q : α → Bool} (xs : List α) {ys : List α}
    (h : ys.rdropWhile q ≠ []) : (xs ++ ys).rdropWhile q = xs ++ ys.rdropWhile q := by
  unfold List.rdropWhile at h ⊢
  rw [List.reverse_append, List.dropWhile_append, if_neg]
  · rw [List.reverse_append, List.reverse_reverse]
  · intro hnil
    rw [List.isEmpty_iff.mp hnil] at h
    exact h rfl

/-- **`mkdir` below a directory**: a name that leads nowhere leads to a directory afterwards. -/
theorem mkdir_base {s : Str} (h : t.resolve (base ++ ['/']) = some d)
    (hnd : t.lookup (base ++ '/' :: s) ≠ some .dir) (hm : t.mkdir (base ++ '/' :: s) = some t') :
    t.nodes[normal d (segments s)]? = none ∧
      t'.walk d (segments s) = some (normal d (segments s)) ∧
      ∀ q, t'.nodes[q]? = if normal d (segments s) = q then some .dir else t.nodes[q]? := by
  obtain ⟨hd, hbase⟩ := resolve_dir h
  obtain ⟨n, p, hw, hp, hfree, hcwd, hnodes⟩ := mkdir_some hm
  obtain ⟨es, hes, hblank⟩ := rdropWhile_blanks (segments s)
  generalize hms : (segments s).rdropWhile (· == []) = ms at hes
  have hmsne : ms ≠ [] := by
    -- with blanks only the name is the base directory itself, which is there
    rintro rfl
    refine hnd ?_
    rw [lookup_base h, hes, List.nil_append, walk_blanks hd hblank]
    exact hd
  have hstrip : (segments (base ++ '/' :: s)).rdropWhile (· == []) = segments base ++ ms := by
    rw [segments_append, rdropWhile_append_of_ne_nil _ (by rw [hms]; exact hmsne), hms]
  have hwalk : t.walk d ms = some (n :: p) := by
    rw [hstrip, origin_slash, walk_append, hbase, Option.bind_some] at hw
    exact hw
  have hnormal : normal d (segments s) = n :: p := by
    rw [hes, normal_append, normal_blanks hblank]
    exact (walk_normal hwalk).symm
  have hg : Grows t t' := Grows.of_mkdir hm
  rw [hnormal]
  refine ⟨hfree, ?_, hnodes⟩
  rw [hes, walk_append, hg.walk hwalk, Option.bind_some]
  refine walk_blanks ?_ hblank
  unfold IsDir
  rw [hnodes, if_pos rfl]

/-- **What `mkdir` makes** is found under the string it was made by, and has nothing hanging in it. -/
theorem mkdir_found {s : Str} (h : t.mkdir s = some t') :
    s ≠ [] ∧ ∃ p, t'.resolve s = some p ∧ t'.IsDir p ∧ ∀ n : Name, t'.nodes[n :: p]? = none := by
  have hne : s ≠ [] := by
    rintro rfl
    unfold mkdir at h
    rw [if_pos rfl] at h
    cases h
  obtain ⟨n, p, hw, _, hfree, hcwd, hnodes⟩ := mkdir_some h
  have hdir : t'.IsDir (n :: p) := by
    unfold IsDir
    rw [hnodes, if_pos rfl]
  refine ⟨hne, n :: p, ?_, hdir, fun m => ?_⟩
  · obtain ⟨es, hes, hblank⟩ := rdropWhile_blanks (segments s)
    unfold resolve
    rw [if_neg hne, hes, walk_append, show t'.origin s = t.origin s by unfold origin; rw [hcwd],
      (Grows.of_mkdir h).walk hw, Option.bind_some, walk_blanks hdir hblank]
  · -- nothing hung there before, for there was no directory
    rw [hnodes, if_neg (by simp)]
    by_contra hsome
    rw [t.parentDir m (n :: p) hsome] at hfree
    cases hfree

/-- A plain name that is free can be made a directory. -/
theorem mkdir_plain {n : Name} (h : t.resolve (base ++ ['/']) = some d) (hn : Plain n)
    (hfree : t.nodes[n :: d]? = none) : ∃ t', t.mkdir (base ++ '/' :: n) = some t' := by
  obtain ⟨hd, hbase⟩ := resolve_dir h
  have hstrip : (segments (base ++ '/' :: n)).rdropWhile (· == []) = segments base ++ [n] := by
    rw [segments_append, segments_of_not_mem hn.2.2.2]
    exact List.rdropWhile_concat_neg _ _ _ (by simpa using hn.1)
  have hwalk : t.walk (t.origin (base ++ '/' :: n))
      ((segments (base ++ '/' :: n)).rdropWhile (· == [])) = some (n :: d) := by
    rw [hstrip, origin_slash, walk_concat, hbase, Option.bind_some, if_pos hd, hn.stepName]
  unfold mkdir
  rw [if_neg (by simp), hwalk]
  simp only
  rw [dif_pos ⟨hd, hfree⟩]
  exact ⟨_, rfl⟩

end Below

/-! ## 6. Directory entries -/

/-- The names in a directory, with what they lead to. -/
def entries (t : FileTree) (p : Path) : List (Name × Node) :=
  (t.nodes.filter fun q _ => q ≠ [] ∧ q.tail = p).toList.map fun (q, x) => (q.headD [], x)

theorem mem_entries {p : Path} {n : Name} {x : Node} :
    (n, x) ∈ t.entries p ↔ t.nodes[n :: p]? = some x := by
  unfold entries
  rw [Std.ExtTreeMap.toList_filter]
  constructor
  · intro h
    obtain ⟨⟨q, y⟩, hq, heq⟩ := List.mem_map.mp h
    obtain ⟨hmem, hkey⟩ := List.mem_filter.mp hq
    obtain ⟨hne, htail⟩ : q ≠ [] ∧ q.tail = p := by simpa using hkey
    rcases q with _ | ⟨m, q⟩
    · exact absurd rfl hne
    · cases heq
      cases htail
      exact Std.ExtTreeMap.mem_toList_iff_getElem?_eq_some.mp hmem
  · intro h
    refine List.mem_map.mpr ⟨(n :: p, x), List.mem_filter.mpr ⟨?_, by simp⟩, rfl⟩
    exact Std.ExtTreeMap.mem_toList_iff_getElem?_eq_some.mpr h

/-- What is listed of a directory is a matter of what hangs in it. -/
theorem entries_congr {p : Path} (h : ∀ n : Name, t.nodes[n :: p]? = t'.nodes[n :: p]?) :
    t.entries p = t'.entries p := by
  unfold entries
  congr 2
  refine Std.ExtTreeMap.ext_getElem? fun q => ?_
  rw [Std.ExtTreeMap.getElem?_filter', Std.ExtTreeMap.getElem?_filter']
  rcases q with _ | ⟨n, q⟩
  · simp
  · by_cases hq : q = p
    · rw [hq, h n]
    · simp [hq]

/-! ## 7. Removing directories -/

theorem leaf_iff {p : Path} : t.Leaf p ↔ t.entries p = [] := by
  constructor
  · refine fun h => List.eq_nil_iff_forall_not_mem.mpr fun (n, x) hmem => ?_
    have hx := mem_entries.mp hmem
    rw [h n] at hx
    cases hx
  · intro h n
    by_contra hn
    obtain ⟨x, hx⟩ := Option.ne_none_iff_exists'.mp hn
    have hmem := mem_entries.mpr hx
    rw [h] at hmem
    cases hmem

instance (t : FileTree) (p : Path) : Decidable (t.Leaf p) := decidable_of_iff _ leaf_iff.symm

/-- The last name of a path, slashes at its end apart. -/
def lastName (s : Str) : Option Name := ((segments s).rdropWhile (· == [])).getLast?

/-- `rmdir(2)`: the directory is empty, and not given as `.`. -/
def rmdir (t : FileTree) (s : Str) : Option FileTree :=
  match t.resolve s with
  | some (n :: p) =>
    if h : t.IsDir (n :: p) ∧ t.Leaf (n :: p) ∧ lastName s ≠ some ['.'] then some (t.drop n p h.2.1)
    else none
  | _ => none

/-- What `rmdir` does when it succeeds. -/
theorem rmdir_some {s : Str} (h : t.rmdir s = some t') :
    ∃ n p, t.resolve s = some (n :: p) ∧ t.IsDir (n :: p) ∧ t.Leaf (n :: p) ∧
      lastName s ≠ some ['.'] ∧ t'.cwd = t.cwd ∧
      ∀ q, t'.nodes[q]? = if n :: p = q then none else t.nodes[q]? := by
  unfold rmdir at h
  split at h
  · rename_i n p hr
    split at h
    · rename_i hall
      cases h
      exact ⟨n, p, hr, hall.1, hall.2.1, hall.2.2, rfl, drop_nodes n p hall.2.1⟩
    · cases h
  · cases h

theorem rmdir_cwd {s : Str} (h : t.rmdir s = some t') : t'.cwd = t.cwd := by
  obtain ⟨_, _, _, _, _, _, hcwd, _⟩ := rmdir_some h
  exact hcwd

/-- An empty directory can be removed. -/
theorem rmdir_of_resolve {s : Str} {n : Name} {p : Path} (hr : t.resolve s = some (n :: p))
    (hd : t.IsDir (n :: p)) (hleaf : t.Leaf (n :: p)) (hname : lastName s ≠ some ['.']) :
    ∃ t', t.rmdir s = some t' := by
  unfold rmdir
  rw [hr]
  dsimp only
  rw [dif_pos ⟨hd, hleaf, hname⟩]
  exact ⟨_, rfl⟩

/-! ## 8. Files that may not be read -/

/-- **The tree as a reader sees it** who may not open all files: a file it may not read is not there
    for it. -/
def visible (t : FileTree) (readable : Path → Bool) : FileTree where
  nodes := t.nodes.filter fun q x => x = .dir ∨ readable q = true
  cwd := t.cwd
  rootDir := by
    rw [Std.ExtTreeMap.getElem?_filter', t.rootDir]
    rfl
  parentDir n p h := by
    rw [Std.ExtTreeMap.getElem?_filter'] at h ⊢
    have hp : t.nodes[p]? = some .dir := by
      refine t.parentDir n p fun hnone => h ?_
      rw [hnone]
      rfl
    rw [hp]
    rfl

variable {readable : Path → Bool}

theorem visible_nodes (q : Path) : (t.visible readable).nodes[q]? =
    (t.nodes[q]?).filter fun x => x = .dir ∨ readable q = true :=
  Std.ExtTreeMap.getElem?_filter'

theorem isDir_visible {p : Path} : (t.visible readable).IsDir p ↔ t.IsDir p := by
  unfold IsDir
  rw [visible_nodes, Option.filter_eq_some_iff]
  simp

theorem walk_visible {ns : List Name} : ∀ {cur : Path},
    (t.visible readable).walk cur ns = t.walk cur ns := by
  induction ns with
  | nil => exact rfl
  | cons n ns ih =>
      intro cur
      simp only [walk, isDir_visible, ih]

theorem resolve_visible (s : Str) : (t.visible readable).resolve s = t.resolve s := by
  unfold resolve
  rw [walk_visible]
  rfl

/-- Directories are found as they are. -/
theorem lookup_visible_dir {s : Str} :
    (t.visible readable).lookup s = some .dir ↔ t.lookup s = some .dir := by
  unfold lookup
  rw [resolve_visible]
  cases t.resolve s with
  | none => exact Iff.rfl
  | some q => exact isDir_visible

/-- Files are found that may be read. -/
theorem lookup_visible_file {s content : Str} : (t.visible readable).lookup s = some (.file content) ↔
    ∃ q, t.resolve s = some q ∧ t.nodes[q]? = some (.file content) ∧ readable q = true := by
  unfold lookup
  rw [resolve_visible]
  cases t.resolve s with
  | none => simp
  | some q =>
      rw [Option.bind_some, visible_nodes, Option.filter_eq_some_iff]
      simp

end FileTree

end Posix
