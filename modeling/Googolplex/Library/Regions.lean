/-
  File:      Googolplex/Library/Regions.lean
  Subject:   What is below a directory: that the calls with a path below it see nothing
             else, and change nothing else.

  The paths are a base, a slash and names none of which is `..`; or none but the first,
  and then they stay in one branch.

  * `SameAlong`: two trees that are the same along a path.
  * `SameOn`: two trees that are the same in a part of what is below the base.
  * `SameOn.lookup`, `.mkdir`, `.openWrite`, `.unlink`, `.rmdir`: the calls on the two,
    with a path that stays within the part.
  * `ChangesBelow`: what a call leaves alone.
  * `GrowsBut`: what stays where directories are removed at some places.
-/
import Googolplex.Library.Walks

namespace Posix.FileTree

open Cxx

variable {t t' m m' : FileTree} {base s : Str} {d : Path}

/-! ## 1. Names that do not go up -/

/-- No name is `..`. -/
def NoUp (s : Str) : Prop := ∀ n ∈ segments s, n ≠ ['.', '.']

instance (s : Str) : Decidable (NoUp s) := inferInstanceAs (Decidable (∀ n ∈ segments s, n ≠ _))

theorem NoUp.append {a b : Str} (ha : NoUp a) (hb : NoUp b) : NoUp (a ++ '/' :: b) := by
  unfold NoUp
  rw [segments_append]
  intro n hn
  rcases List.mem_append.mp hn with hn | hn
  · exact ha n hn
  · exact hb n hn

theorem noUp_append_iff {a b : Str} : NoUp (a ++ '/' :: b) ↔ NoUp a ∧ NoUp b := by
  refine ⟨fun h => ?_, fun h => h.1.append h.2⟩
  unfold NoUp at h ⊢
  rw [segments_append] at h
  exact ⟨fun n hn => h n (List.mem_append_left _ hn), fun n hn => h n (List.mem_append_right _ hn)⟩

theorem noUp_plain {n : Name} (h : Plain n) : NoUp n := by
  unfold NoUp
  rw [segments_of_not_mem h.2.2.2]
  intro m hm
  rw [List.mem_singleton.mp hm]
  exact h.2.2.1

theorem stepName_below {n : Name} (hn : n ≠ ['.', '.']) (p : Path) : p <:+ stepName p n := by
  unfold stepName
  rw [if_neg hn]
  split
  · exact List.suffix_rfl
  · exact List.suffix_cons n p

/-- Names that do not go up lead down. -/
theorem normal_below {ns : List Name} (h : ∀ n ∈ ns, n ≠ ['.', '.']) (p : Path) :
    p <:+ normal p ns := by
  induction ns generalizing p with
  | nil => exact List.suffix_rfl
  | cons n ns ih =>
      exact (stepName_below (h n List.mem_cons_self) p).trans
        (ih (fun n hn => h n (List.mem_cons_of_mem _ hn)) _)

/-- **The path begins with the name**, and does not go up from there. -/
def Into (n : Name) (s : Str) : Prop :=
  (segments s).head? = some n ∧ ∀ m ∈ (segments s).tail, m ≠ ['.', '.']

instance (n : Name) (s : Str) : Decidable (Into n s) :=
  inferInstanceAs (Decidable ((segments s).head? = some n ∧ ∀ m ∈ (segments s).tail, m ≠ _))

theorem Into.names {n : Name} (h : Into n s) :
    ∃ ns, segments s = n :: ns ∧ ∀ m ∈ ns, m ≠ ['.', '.'] := by
  obtain ⟨ns, hns⟩ := List.head?_eq_some_iff.mp h.1
  exact ⟨ns, hns, fun m hm => h.2 m (by rw [hns]; exact hm)⟩

theorem Into.of_names {n : Name} {ns : List Name} (h : segments s = n :: ns)
    (hns : ∀ m ∈ ns, m ≠ ['.', '.']) : Into n s := by
  unfold Into
  rw [h]
  exact ⟨rfl, hns⟩

theorem Into.noUp {n : Name} (hn : Plain n) (h : Into n s) : NoUp s := by
  obtain ⟨ns, hseg, hns⟩ := h.names
  unfold NoUp
  rw [hseg]
  intro m hm
  rcases List.mem_cons.mp hm with rfl | hm
  · exact hn.2.2.1
  · exact hns m hm

theorem Into.unique {n n' : Name} (h : Into n s) (h' : Into n' s) : n = n' :=
  Option.some.inj (h.1.symm.trans h'.1)

theorem Into.append {n : Name} {a b : Str} (ha : Into n a) (hb : NoUp b) : Into n (a ++ '/' :: b) := by
  obtain ⟨ns, hseg, hns⟩ := ha.names
  have hall : segments (a ++ '/' :: b) = n :: (ns ++ segments b) := by
    rw [segments_append, hseg]
    rfl
  exact .of_names hall fun m hm => (List.mem_append.mp hm).elim (hns m) (hb m)

theorem Into.cut {n : Name} {a b : Str} (h : Into n (a ++ '/' :: b)) : Into n a := by
  obtain ⟨ns, hseg, hns⟩ := h.names
  rw [segments_append] at hseg
  cases ha : segments a with
  | nil => exact absurd ha (segments_ne_nil a)
  | cons m ms =>
      rw [ha] at hseg
      obtain ⟨rfl, rfl⟩ := List.cons.inj hseg
      exact .of_names ha fun k hk => hns k (List.mem_append_left _ hk)

/-- What names that do not go up lead past is below. -/
theorem visited_below {ns : List Name} (h : ∀ n ∈ ns, n ≠ ['.', '.']) {p q : Path}
    (hq : q ∈ visited p ns) : p <:+ q := by
  induction ns generalizing p with
  | nil => cases hq
  | cons n ns ih =>
      rcases List.mem_cons.mp hq with rfl | hq
      · exact List.suffix_rfl
      · exact (stepName_below (h n List.mem_cons_self) p).trans
          (ih (fun n hn => h n (List.mem_cons_of_mem _ hn)) hq)

/-- And above where they lead to. -/
theorem visited_above {ns : List Name} (h : ∀ n ∈ ns, n ≠ ['.', '.']) {p q : Path}
    (hq : q ∈ visited p ns) : q <:+ normal p ns := by
  induction ns generalizing p with
  | nil => cases hq
  | cons n ns ih =>
      rcases List.mem_cons.mp hq with rfl | hq
      · exact normal_below h _
      · exact ih (fun n hn => h n (List.mem_cons_of_mem _ hn)) hq

/-- A directory below another is found by names that do not go up. -/
theorem found_below {ns : List Name} (h : ∀ n ∈ ns, n ≠ ['.', '.']) {p : Path}
    (hd : t.IsDir (normal p ns)) : t.walk p ns = some (normal p ns) :=
  walk_iff.mpr ⟨rfl, fun _ hq => isDir_above hd (visited_above h hq)⟩

/-! ## 2. A call on two trees -/

/-- A call that is done in both trees or in none. -/
theorem rel_of_both {R : FileTree → FileTree → Prop} {o o' : Option FileTree}
    (hboth : (∃ m, o = some m) ↔ ∃ m', o' = some m')
    (hR : ∀ {m m' : FileTree}, o = some m → o' = some m' → R m m') : Option.Rel R o o' := by
  cases o with
  | some m =>
      obtain ⟨m', rfl⟩ := hboth.mp ⟨m, rfl⟩
      exact .some (hR rfl rfl)
  | none =>
      cases o' with
      | none => exact .none
      | some m' =>
          obtain ⟨m, hm⟩ := hboth.mpr ⟨m', rfl⟩
          cases hm

/-- **Opening a file for writing**: if the path leads to the same node in both trees, it is done in
    both or in none. -/
theorem openWrite_alike {R : FileTree → FileTree → Prop} {content : Str}
    (hres : t.resolve s = t'.resolve s)
    (hnode : ∀ p, t.resolve s = some p → t.nodes[p]? = t'.nodes[p]?)
    (hR : ∀ {m m' : FileTree} (p : Path), Grows t m → Grows t' m' →
      (∀ q, m.nodes[q]? = if p = q then some (.file content) else t.nodes[q]?) →
      (∀ q, m'.nodes[q]? = if p = q then some (.file content) else t'.nodes[q]?) → R m m') :
    Option.Rel R (t.openWrite s content) (t'.openWrite s content) := by
  have hdir : ∀ {p : Path}, t.resolve s = some p → (t.IsDir p ↔ t'.IsDir p) := by
    intro p hp
    unfold IsDir
    rw [hnode p hp]
  refine rel_of_both ⟨fun ⟨m, hw⟩ => ?_, fun ⟨m', hw'⟩ => ?_⟩ fun {m m'} hw hw' => ?_
  · obtain ⟨n, q, hr, _, hnd, _, _⟩ := openWrite_some hw
    exact openWrite_of_resolve content (hres.symm.trans hr) fun hd => hnd ((hdir hr).mpr hd)
  · obtain ⟨n, q, hr', _, hnd, _, _⟩ := openWrite_some hw'
    have hr := hres.trans hr'
    exact openWrite_of_resolve content hr fun hd => hnd ((hdir hr).mp hd)
  · obtain ⟨n, q, hr, _, _, _, hnodes⟩ := openWrite_some hw
    obtain ⟨n', q', hr', _, _, _, hnodes'⟩ := openWrite_some hw'
    have heq : n :: q = n' :: q' := Option.some.inj (hr.symm.trans (hres.trans hr'))
    rw [← heq] at hnodes'
    exact hR _ (Grows.of_openWrite hw) (Grows.of_openWrite hw') hnodes hnodes'

/-- **`unlink`**: likewise. -/
theorem unlink_alike {R : FileTree → FileTree → Prop} (hres : t.resolve s = t'.resolve s)
    (hnode : ∀ p, t.resolve s = some p → t.nodes[p]? = t'.nodes[p]?)
    (hR : ∀ {m m' : FileTree} (p : Path), Grows t m → Grows t' m' →
      (∀ q, m.nodes[q]? = if p = q then none else t.nodes[q]?) →
      (∀ q, m'.nodes[q]? = if p = q then none else t'.nodes[q]?) → R m m') :
    Option.Rel R (t.unlink s) (t'.unlink s) := by
  have hfile : ∀ {p : Path}, t.resolve s = some p → (t.IsFile p ↔ t'.IsFile p) := by
    intro p hp
    unfold IsFile
    rw [hnode p hp]
  refine rel_of_both ⟨fun ⟨m, hu⟩ => ?_, fun ⟨m', hu'⟩ => ?_⟩ fun {m m'} hu hu' => ?_
  · obtain ⟨p, hr, hf, _, _⟩ := unlink_some hu
    exact unlink_of_resolve (hres.symm.trans hr) ((hfile hr).mp hf)
  · obtain ⟨p, hr', hf, _, _⟩ := unlink_some hu'
    have hr := hres.trans hr'
    exact unlink_of_resolve hr ((hfile hr).mpr hf)
  · obtain ⟨p, hr, _, _, hnodes⟩ := unlink_some hu
    obtain ⟨p', hr', _, _, hnodes'⟩ := unlink_some hu'
    obtain rfl : p = p' := Option.some.inj (hr.symm.trans (hres.trans hr'))
    exact hR p (Grows.of_unlink hu) (Grows.of_unlink hu') hnodes hnodes'

/-- **`rmdir`**: likewise, if what is in the directory is the same too. -/
theorem rmdir_alike {R : FileTree → FileTree → Prop} (hres : t.resolve s = t'.resolve s)
    (hnode : ∀ p, t.resolve s = some p → t.nodes[p]? = t'.nodes[p]?)
    (hleaf : ∀ p, t.resolve s = some p → (t.Leaf p ↔ t'.Leaf p))
    (hR : ∀ {m m' : FileTree} (p : Path), t.resolve s = some p → m.cwd = t.cwd → m'.cwd = t'.cwd →
      (∀ q, m.nodes[q]? = if p = q then none else t.nodes[q]?) →
      (∀ q, m'.nodes[q]? = if p = q then none else t'.nodes[q]?) → R m m') :
    Option.Rel R (t.rmdir s) (t'.rmdir s) := by
  have hdir : ∀ {p : Path}, t.resolve s = some p → (t.IsDir p ↔ t'.IsDir p) := by
    intro p hp
    unfold IsDir
    rw [hnode p hp]
  refine rel_of_both ⟨fun ⟨m, hd⟩ => ?_, fun ⟨m', hd'⟩ => ?_⟩ fun {m m'} hd hd' => ?_
  · obtain ⟨n, p, hr, hisDir, hempty, hname, _, _⟩ := rmdir_some hd
    exact rmdir_of_resolve (hres.symm.trans hr) ((hdir hr).mp hisDir) ((hleaf _ hr).mp hempty) hname
  · obtain ⟨n, p, hr', hisDir, hempty, hname, _, _⟩ := rmdir_some hd'
    have hr := hres.trans hr'
    exact rmdir_of_resolve hr ((hdir hr).mpr hisDir) ((hleaf _ hr).mpr hempty) hname
  · obtain ⟨n, p, hr, _, _, _, hcwd, hnodes⟩ := rmdir_some hd
    obtain ⟨n', p', hr', _, _, _, hcwd', hnodes'⟩ := rmdir_some hd'
    have heq : n :: p = n' :: p' := Option.some.inj (hr.symm.trans (hres.trans hr'))
    rw [← heq] at hnodes'
    exact hR _ hr hcwd hcwd' hnodes hnodes'

/-- Blank names at the end apart, a walk ends at the place of the path. -/
theorem stripped_place {p : Path}
    (hw : t.walk (t.origin s) ((segments s).rdropWhile (· == [])) = some p) :
    p = placeOf t.cwd s := by
  obtain ⟨es, hes, hall⟩ := rdropWhile_blanks (segments s)
  unfold placeOf
  rw [hes, normal_append, normal_blanks hall]
  exact walk_normal hw

/-- Where a directory is made. -/
theorem mkdir_place (hm : t.mkdir s = some m) :
    ∃ n p, n :: p = placeOf t.cwd s ∧ t.nodes[n :: p]? = none ∧
      ∀ q, m.nodes[q]? = if n :: p = q then some .dir else t.nodes[q]? := by
  obtain ⟨n, p, hw, _, hfree, _, hnodes⟩ := mkdir_some hm
  exact ⟨n, p, stripped_place hw, hfree, hnodes⟩

/-- **`mkdir`**: if it is done in both trees or in none, it makes the same directory. -/
theorem mkdir_alike {R : FileTree → FileTree → Prop} (hcwd : t.cwd = t'.cwd)
    (hboth : (∃ m, t.mkdir s = some m) ↔ ∃ m', t'.mkdir s = some m')
    (hR : ∀ {m m' : FileTree} (p : Path), Grows t m → Grows t' m' →
      (∀ q, m.nodes[q]? = if p = q then some .dir else t.nodes[q]?) →
      (∀ q, m'.nodes[q]? = if p = q then some .dir else t'.nodes[q]?) → R m m') :
    Option.Rel R (t.mkdir s) (t'.mkdir s) := by
  refine rel_of_both hboth fun {m m'} hm hm' => ?_
  obtain ⟨n, p, hplace, _, hnodes⟩ := mkdir_place hm
  obtain ⟨n', p', hplace', _, hnodes'⟩ := mkdir_place hm'
  rw [hplace] at hnodes
  rw [hplace', ← hcwd] at hnodes'
  exact hR _ (Grows.of_mkdir hm) (Grows.of_mkdir hm') hnodes hnodes'

/-! ## 3. Trees that are the same along a path -/

/-- The places a path leads past, and where it leads, by its spelling. -/
def placesOf (cwd : Path) (s : Str) : List Path :=
  visited (originAt cwd s) (segments s) ++ [placeOf cwd s]

/-- **The trees are the same along the path.** -/
structure SameAlong (s : Str) (t t' : FileTree) : Prop where
  cwd : t.cwd = t'.cwd
  nodes : ∀ q ∈ placesOf t.cwd s, t.nodes[q]? = t'.nodes[q]?

theorem SameAlong.symm (h : SameAlong s t t') : SameAlong s t' t where
  cwd := h.cwd.symm
  nodes q hq := (h.nodes q (h.cwd ▸ hq)).symm

theorem SameAlong.resolve (h : SameAlong s t t') : t.resolve s = t'.resolve s := by
  unfold FileTree.resolve
  rw [origin_eq, origin_eq, ← h.cwd]
  split
  · rfl
  · exact walk_congr fun q hq => h.nodes q (List.mem_append_left _ hq)

/-- The node the path leads to. -/
theorem SameAlong.last (h : SameAlong s t t') {p : Path} (hp : t.resolve s = some p) :
    t.nodes[p]? = t'.nodes[p]? := by
  rw [resolve_place hp]
  exact h.nodes _ (List.mem_append_right _ (List.mem_singleton_self _))

theorem SameAlong.lookup (h : SameAlong s t t') : t.lookup s = t'.lookup s := by
  unfold FileTree.lookup
  rw [← h.resolve]
  cases hp : t.resolve s with
  | none => rfl
  | some p => exact h.last hp

/-- Both are changed at one place. -/
theorem SameAlong.changed (h : SameAlong s t t') (hm : m.cwd = t.cwd) (hm' : m'.cwd = t'.cwd)
    {p : Path} {x : Option Node} (hnodes : ∀ q, m.nodes[q]? = if p = q then x else t.nodes[q]?)
    (hnodes' : ∀ q, m'.nodes[q]? = if p = q then x else t'.nodes[q]?) : SameAlong s m m' where
  cwd := hm.trans (h.cwd.trans hm'.symm)
  nodes q hq := by
    rw [hnodes, hnodes', h.nodes q (hm ▸ hq)]

/-- What a walk ends at hangs in a directory, if nothing is there yet. -/
theorem isDir_parent {ns : List Name} {n : Name} {p : Path} (hd : t.IsDir d)
    (hw : t.walk d ns = some (n :: p)) (hfree : t.nodes[n :: p]? = none) : t.IsDir p := by
  obtain ⟨hend, hdirs⟩ := walk_iff.mp hw
  have hnot : ∀ q, t.IsDir q → ¬ n :: p <:+ q := by
    intro q hq hle
    have hdir := isDir_above hq hle
    rw [IsDir, hfree] at hdir
    cases hdir
  cases ns with
  | nil =>
      rw [normal_nil] at hend
      exact absurd (hend ▸ List.suffix_rfl) (hnot d hd)
  | cons m ns =>
      obtain ⟨n', p', heq, hmem⟩ := normal_last (List.cons_ne_nil m ns) fun q hq => by
        rw [← hend]
        exact hnot q (hdirs q hq)
      rw [← hend] at heq
      obtain ⟨_, rfl⟩ := List.cons.inj heq
      exact hdirs p hmem

/-- A path of blank names only begins with a slash. -/
theorem absolute_of_blank (hne : s ≠ []) (h : (segments s).rdropWhile (· == []) = []) :
    s.head? = some '/' := by
  obtain ⟨es, hes, hall⟩ := rdropWhile_blanks (segments s)
  rw [h, List.nil_append] at hes
  have hjoin : ['/'].intercalate (segments s) = s := List.intercalate_splitOn '/'
  rw [← hes] at hall
  cases hseg : segments s with
  | nil => exact absurd hseg (segments_ne_nil s)
  | cons n ns =>
      rw [hseg] at hjoin hall
      obtain rfl : n = [] := hall n List.mem_cons_self
      cases ns with
      | nil => exact absurd hjoin.symm hne
      | cons n ns =>
          rw [← hjoin]
          rfl

/-- `mkdir` looks at nothing else either. -/
theorem SameAlong.made (h : SameAlong s t t') (hm : t.mkdir s = some m) :
    ∃ m', t'.mkdir s = some m' := by
  obtain ⟨n, p, hw, hp, hfree, _, _⟩ := mkdir_some hm
  have hne : s ≠ [] := (mkdir_found hm).1
  obtain ⟨es, hes, hall⟩ := rdropWhile_blanks (segments s)
  have hplace : n :: p = placeOf t.cwd s := stripped_place hw
  have hpast : ∀ q ∈ visited (t.origin s) ((segments s).rdropWhile (· == [])),
      t.nodes[q]? = t'.nodes[q]? := fun q hq => by
    refine h.nodes q (List.mem_append_left _ ?_)
    rw [← origin_eq, hes, visited_append]
    exact List.mem_append_left _ hq
  have hfree' : t'.nodes[n :: p]? = none := by
    rw [← h.nodes (n :: p) (List.mem_append_right _ (List.mem_singleton.mpr hplace))]
    exact hfree
  have hdirs := (walk_iff.mp hw).2
  have hparent : t'.IsDir p := by
    have hnames : (segments s).rdropWhile (· == []) ≠ [] := by
      intro hnil
      rw [hnil] at hw
      have horigin : t.origin s = n :: p := Option.some.inj hw
      unfold origin at horigin
      rw [if_pos (absolute_of_blank hne hnil)] at horigin
      cases horigin
    have horigin : t.origin s ∈ visited (t.origin s) ((segments s).rdropWhile (· == [])) := by
      obtain ⟨k, ks, hks⟩ := List.exists_cons_of_ne_nil hnames
      rw [hks]
      exact List.mem_cons_self
    have hstart : t'.IsDir (t.origin s) := (hpast _ horigin).symm.trans (hdirs _ horigin)
    exact isDir_parent hstart ((walk_congr fun q hq => (hpast q hq).symm).trans hw) hfree'
  unfold FileTree.mkdir
  rw [if_neg hne, origin_eq, ← h.cwd, ← origin_eq, ← walk_congr hpast, hw]
  dsimp only
  rw [dif_pos ⟨hparent, hfree'⟩]
  exact ⟨_, rfl⟩

/-- **`mkdir`**. -/
theorem SameAlong.mkdir (h : SameAlong s t t') : Option.Rel
    (fun m m' => ∀ s', SameAlong s' t t' → SameAlong s' m m') (t.mkdir s) (t'.mkdir s) :=
  mkdir_alike h.cwd ⟨fun ⟨_, hm⟩ => h.made hm, fun ⟨_, hm'⟩ => h.symm.made hm'⟩
    fun _ hg hg' hnodes hnodes' _ hs => hs.changed hg.cwd hg'.cwd hnodes hnodes'

/-- **`unlink`**. -/
theorem SameAlong.unlink (h : SameAlong s t t') : Option.Rel
    (fun m m' => ∀ s', SameAlong s' t t' → SameAlong s' m m') (t.unlink s) (t'.unlink s) :=
  unlink_alike h.resolve (fun _ hp => h.last hp)
    fun _ hg hg' hnodes hnodes' _ hs => hs.changed hg.cwd hg'.cwd hnodes hnodes'

/-- All on the way to a directory is a directory. -/
theorem isDir_placesOf (h : t.resolve (base ++ ['/']) = some d) :
    ∀ q ∈ placesOf t.cwd (base ++ ['/']), t.IsDir q := by
  obtain ⟨hd, hbase⟩ := resolve_dir h
  intro q hq
  rcases List.mem_append.mp hq with hq | hq
  · rw [segments_append base [], visited_append] at hq
    rcases List.mem_append.mp hq with hq | hq
    · exact (walk_iff.mp hbase).2 q hq
    · have hend : normal (originAt t.cwd (base ++ ['/'])) (segments base) = d :=
        (walk_normal hbase).symm
      rw [hend] at hq
      obtain rfl : q = d := List.mem_singleton.mp hq
      exact hd
  · rw [List.mem_singleton.mp hq, ← resolve_place h]
    exact hd

/-- What is no directory is not on the way to the base it is below. -/
theorem not_on_the_way (h : t.resolve (base ++ ['/']) = some d) (hs : NoUp s)
    (hl : t.lookup (base ++ '/' :: s) ≠ some .dir) :
    placeOf t.cwd (base ++ '/' :: s) ∉ placesOf t.cwd (base ++ ['/']) := by
  intro hmem
  have hdir := isDir_placesOf h _ hmem
  rw [placeOf_below, ← resolve_place h] at hdir
  refine hl ?_
  rw [lookup_base h, found_below hs hdir]
  exact hdir

/-! ## 4. Trees that are the same in a part below a directory -/

/-- **The base leads to the same directory**, and the part is the same. -/
structure SameOn (part : Path → Prop) (base : Str) (d : Path) (t t' : FileTree) : Prop where
  left : t.resolve (base ++ ['/']) = some d
  right : t'.resolve (base ++ ['/']) = some d
  nodes : ∀ q, part q → t.nodes[q]? = t'.nodes[q]?

/-- The places that names lead past from a directory, and to, are the directory or in the part. -/
def Within (part : Path → Prop) (d : Path) (ns : List Name) : Prop :=
  ∀ q ∈ visited d ns ++ [normal d ns], q = d ∨ part q

theorem Within.past {part : Path → Prop} {ns : List Name} (h : Within part d ns) {q : Path}
    (hq : q ∈ visited d ns) : q = d ∨ part q := h q (List.mem_append_left _ hq)

theorem Within.last {part : Path → Prop} {ns : List Name} (h : Within part d ns) :
    normal d ns = d ∨ part (normal d ns) :=
  h _ (List.mem_append_right _ (List.mem_singleton_self _))

section

variable {part : Path → Prop} {ns : List Name}

/-- Names that do not go up stay below. -/
theorem within_noUp (hs : NoUp s) : Within (d <:+ ·) d (segments s) := by
  intro q hq
  rcases List.mem_append.mp hq with hq | hq
  · exact Or.inr (visited_below hs hq)
  · rw [List.mem_singleton.mp hq]
    exact Or.inr (normal_below hs d)

/-- A path that begins with a name stays in the branch of the name. -/
theorem within_into {n : Name} (hn : Plain n) (hs : Into n s) :
    Within (n :: d <:+ ·) d (segments s) := by
  obtain ⟨ns, hseg, hns⟩ := hs.names
  rw [hseg]
  intro q hq
  rcases List.mem_append.mp hq with hq | hq
  · rcases List.mem_cons.mp hq with rfl | hq
    · exact Or.inl rfl
    · rw [hn.stepName] at hq
      exact Or.inr (visited_below hns hq)
  · rw [List.mem_singleton.mp hq, normal_cons, hn.stepName]
    exact Or.inr (normal_below hns (n :: d))

theorem SameOn.node (h : SameOn part base d t t') {q : Path} (hq : q = d ∨ part q) :
    t.nodes[q]? = t'.nodes[q]? := by
  rcases hq with rfl | hq
  · have hl : t.nodes[q]? = some .dir := (resolve_dir h.left).1
    have hr : t'.nodes[q]? = some .dir := (resolve_dir h.right).1
    rw [hl, hr]
  · exact h.nodes q hq

theorem SameOn.walk (h : SameOn part base d t t') (hs : Within part d ns) :
    t.walk d ns = t'.walk d ns :=
  walk_congr fun _ hq => h.node (hs.past hq)

theorem SameOn.resolve (h : SameOn part base d t t') (hs : Within part d (segments s)) :
    t.resolve (base ++ '/' :: s) = t'.resolve (base ++ '/' :: s) := by
  rw [resolve_base h.left, resolve_base h.right]
  exact h.walk hs

/-- The node the path leads to. -/
theorem SameOn.last (h : SameOn part base d t t') (hs : Within part d (segments s)) {p : Path}
    (hp : t.resolve (base ++ '/' :: s) = some p) : t.nodes[p]? = t'.nodes[p]? := by
  rw [resolve_base h.left] at hp
  rw [walk_normal hp]
  exact h.node hs.last

theorem SameOn.lookup (h : SameOn part base d t t') (hs : Within part d (segments s)) :
    t.lookup (base ++ '/' :: s) = t'.lookup (base ++ '/' :: s) := by
  unfold FileTree.lookup
  rw [← h.resolve hs]
  cases hp : t.resolve (base ++ '/' :: s) with
  | none => rfl
  | some p => exact h.last hs hp

/-- One node is changed in both. -/
theorem SameOn.changed (h : SameOn part base d t t') (hm : Grows t m) (hm' : Grows t' m') {p : Path}
    {x : Option Node} (hnodes : ∀ q, m.nodes[q]? = if p = q then x else t.nodes[q]?)
    (hnodes' : ∀ q, m'.nodes[q]? = if p = q then x else t'.nodes[q]?) : SameOn part base d m m' where
  left := hm.resolve h.left
  right := hm'.resolve h.right
  nodes q hq := by
    rw [hnodes, hnodes', h.nodes q hq]

/-- **Opening a file for writing.** -/
theorem SameOn.openWrite (h : SameOn part base d t t') (hs : Within part d (segments s))
    (content : Str) : Option.Rel (SameOn part base d) (t.openWrite (base ++ '/' :: s) content)
      (t'.openWrite (base ++ '/' :: s) content) :=
  openWrite_alike (h.resolve hs) (fun _ hp => h.last hs hp)
    fun _ hg hg' hnodes hnodes' => h.changed hg hg' hnodes hnodes'

/-- **`unlink`**. -/
theorem SameOn.unlink (h : SameOn part base d t t') (hs : Within part d (segments s)) :
    Option.Rel (SameOn part base d) (t.unlink (base ++ '/' :: s)) (t'.unlink (base ++ '/' :: s)) :=
  unlink_alike (h.resolve hs) (fun _ hp => h.last hs hp)
    fun _ hg hg' hnodes hnodes' => h.changed hg hg' hnodes hnodes'

end

/-- Below a directory `mkdir` is a walk from there. -/
theorem mkdir_region (h : t.resolve (base ++ ['/']) = some d) :
    (∃ m, t.mkdir (base ++ '/' :: s) = some m) ↔
      ∃ n p, t.walk d ((segments s).rdropWhile (· == [])) = some (n :: p) ∧
        t.nodes[n :: p]? = none := by
  obtain ⟨hd, hbase⟩ := resolve_dir h
  by_cases hblank : (segments s).rdropWhile (· == []) = []
  · -- the path is that of the directory itself
    rw [hblank]
    constructor
    · rintro ⟨m, hm⟩
      obtain ⟨n, p, hw, _, hfree, _, _⟩ := mkdir_some hm
      have hstrip : (segments (base ++ '/' :: s)).rdropWhile (· == []) =
          (segments base).rdropWhile (· == []) := by
        rw [segments_append]
        unfold List.rdropWhile at hblank ⊢
        rw [List.reverse_append, List.dropWhile_append,
          if_pos (List.isEmpty_iff.mpr (List.reverse_eq_nil_iff.mp hblank))]
      obtain ⟨es, hes, hall⟩ := rdropWhile_blanks (segments base)
      rw [hstrip, origin_slash] at hw
      rw [hes, walk_append, hw, Option.bind_some] at hbase
      have hnd : d = n :: p := (walk_normal hbase).trans (normal_blanks hall)
      rw [← hnd] at hfree
      rw [show t.nodes[d]? = some .dir from hd] at hfree
      cases hfree
    · rintro ⟨n, p, hw, hfree⟩
      rw [← Option.some.inj hw, show t.nodes[d]? = some .dir from hd] at hfree
      cases hfree
  · have hwalk : t.walk (t.origin (base ++ '/' :: s))
        ((segments (base ++ '/' :: s)).rdropWhile (· == [])) =
          t.walk d ((segments s).rdropWhile (· == [])) := by
      rw [segments_append, rdropWhile_append_of_ne_nil _ hblank, walk_append, origin_slash, hbase,
        Option.bind_some]
    constructor
    · rintro ⟨m, hm⟩
      obtain ⟨n, p, hw, _, hfree, _, _⟩ := mkdir_some hm
      exact ⟨n, p, hwalk.symm.trans hw, hfree⟩
    · rintro ⟨n, p, hw, hfree⟩
      have hp := isDir_parent hd hw hfree
      unfold mkdir
      rw [if_neg (by simp), hwalk, hw]
      dsimp only
      rw [dif_pos ⟨hp, hfree⟩]
      exact ⟨_, rfl⟩

/-- Names at the end that stay lead nowhere else. -/
theorem Within.strip {part : Path → Prop} {ns : List Name} (h : Within part d ns) :
    Within part d (ns.rdropWhile (· == [])) := by
  obtain ⟨es, hes, hall⟩ := rdropWhile_blanks ns
  have hend : normal d ns = normal d (ns.rdropWhile (· == [])) := by
    conv_lhs => rw [hes, normal_append, normal_blanks hall]
  intro q hq
  rcases List.mem_append.mp hq with hq | hq
  · refine h.past ?_
    rw [hes, visited_append]
    exact List.mem_append_left _ hq
  · rw [List.mem_singleton.mp hq, ← hend]
    exact h.last

/-- **`mkdir`**. -/
theorem SameOn.mkdir {part : Path → Prop} (h : SameOn part base d t t') (hcwd : t.cwd = t'.cwd)
    (hs : Within part d (segments s)) :
    Option.Rel (SameOn part base d) (t.mkdir (base ++ '/' :: s)) (t'.mkdir (base ++ '/' :: s)) := by
  have hboth : (∃ m, t.mkdir (base ++ '/' :: s) = some m) ↔
      ∃ m', t'.mkdir (base ++ '/' :: s) = some m' := by
    rw [mkdir_region h.left, mkdir_region h.right, h.walk hs.strip]
    refine exists_congr fun n => exists_congr fun p => and_congr_right fun hw => ?_
    rw [h.node (q := n :: p) ?_]
    rw [walk_normal hw]
    exact hs.strip.last
  exact mkdir_alike hcwd hboth fun _ hg hg' hnodes hnodes' => h.changed hg hg' hnodes hnodes'

/-- The way to the base is kept by what changes no place of it. -/
theorem resolve_kept (hcwd : m.cwd = t.cwd)
    (hnodes : ∀ q ∈ placesOf t.cwd s, m.nodes[q]? = t.nodes[q]?) : m.resolve s = t.resolve s :=
  SameAlong.resolve ⟨hcwd, fun q hq => hnodes q (hcwd ▸ hq)⟩

/-- `rmdir` keeps the way to what it is not on. -/
theorem resolve_rmdir {path : Str} (hd : t.rmdir path = some m)
    (hfree : placeOf t.cwd path ∉ placesOf t.cwd s) : m.resolve s = t.resolve s := by
  obtain ⟨n, p, hr, _, _, _, hcwd, hnodes⟩ := rmdir_some hd
  refine resolve_kept hcwd fun q hq => ?_
  rw [hnodes, if_neg]
  rintro rfl
  exact hfree (resolve_place hr ▸ hq)

/-- **`rmdir`** of what is not on the way to the base, in a part that has all that is below it. -/
theorem SameOn.rmdir {part : Path → Prop} (h : SameOn part base d t t') (hcwd : t.cwd = t'.cwd)
    (hs : Within part d (segments s)) (hdown : ∀ (n : Name) (q : Path), part q → part (n :: q))
    (hfree : placeOf t.cwd (base ++ '/' :: s) ∉ placesOf t.cwd (base ++ ['/'])) :
    Option.Rel (SameOn part base d) (t.rmdir (base ++ '/' :: s)) (t'.rmdir (base ++ '/' :: s)) := by
  refine rmdir_alike (h.resolve hs) (fun _ hp => h.last hs hp) (fun p hp => ?_)
    fun {m m'} p hp hm hm' hnodes hnodes' => ?_
  · have hplace := resolve_place hp
    have hpart : part p := by
      have hlast := hs.last
      rw [resolve_place h.left, ← placeOf_below, ← hplace] at hlast
      refine hlast.resolve_left fun heq => hfree ?_
      rw [← hplace, heq]
      exact List.mem_append_right _ (List.mem_singleton_self _)
    exact forall_congr' fun n => by rw [h.nodes _ (hdown n p hpart)]
  · -- no place on the way to the base is changed
    have hoff : ∀ q ∈ placesOf t.cwd (base ++ ['/']), p ≠ q := by
      rintro q hq rfl
      exact hfree (resolve_place hp ▸ hq)
    refine ⟨?_, ?_, fun q hq => by rw [hnodes, hnodes', h.nodes q hq]⟩
    · rw [← h.left]
      exact resolve_kept hm fun q hq => by rw [hnodes, if_neg (hoff q hq)]
    · rw [← h.right]
      exact resolve_kept hm' fun q hq => by rw [hnodes', if_neg (hoff q (hcwd ▸ hq))]

/-! ## 5. What is left alone -/

/-- **Nothing is changed but what is at the place of the base or below it.** -/
structure ChangesBelow (cwd : Path) (base : Str) (t t' : FileTree) : Prop where
  inCwd : t'.cwd = t.cwd
  nodes : t.cwd = cwd → ∀ q, ¬ placeOf cwd (base ++ ['/']) <:+ q → t'.nodes[q]? = t.nodes[q]?

/-- The place of a name in a base. -/
theorem branch_place (cwd : Path) (base : Str) {n : Name} (hn : Plain n) :
    placeOf cwd (base ++ '/' :: n ++ ['/']) = n :: placeOf cwd (base ++ ['/']) := by
  rw [List.append_assoc, List.cons_append, placeOf_below cwd base, segments_append,
    segments_of_not_mem hn.2.2.2]
  show stepName (stepName _ n) [] = _
  rw [hn.stepName]
  rfl

/-- A path leads to the place of the base or below it. -/
def Below (cwd : Path) (base s : Str) : Prop := placeOf cwd (base ++ ['/']) <:+ placeOf cwd s

theorem below_noUp (cwd : Path) (base : Str) (hs : NoUp s) : Below cwd base (base ++ '/' :: s) := by
  unfold Below
  rw [placeOf_below cwd base s]
  exact normal_below hs _

theorem below_into (cwd : Path) (base : Str) {n : Name} (hn : Plain n) (hs : Into n s) :
    Below cwd (base ++ '/' :: n) (base ++ '/' :: s) := by
  obtain ⟨ns, hseg, hns⟩ := hs.names
  unfold Below
  rw [branch_place cwd base hn, placeOf_below cwd base s, hseg, normal_cons, hn.stepName]
  exact normal_below hns _

theorem ChangesBelow.refl (cwd : Path) (base : Str) (t : FileTree) : ChangesBelow cwd base t t :=
  ⟨rfl, fun _ _ _ => rfl⟩

section Changes

variable {cwd : Path}

theorem ChangesBelow.of_changed (hb : Below cwd base s) (hm : m.cwd = t.cwd) {p : Path}
    {x : Option Node} (hp : t.cwd = cwd → p = placeOf cwd s)
    (hnodes : ∀ q, m.nodes[q]? = if p = q then x else t.nodes[q]?) : ChangesBelow cwd base t m := by
  refine ⟨hm, fun hcwd q hq => ?_⟩
  rw [hnodes, if_neg]
  rintro rfl
  rw [hp hcwd] at hq
  exact hq hb

theorem ChangesBelow.of_mkdir (hb : Below cwd base s) (hm : t.mkdir s = some m) :
    ChangesBelow cwd base t m := by
  obtain ⟨n, p, hplace, _, hnodes⟩ := mkdir_place hm
  exact .of_changed hb (Grows.of_mkdir hm).cwd (fun hcwd => hcwd ▸ hplace) hnodes

theorem ChangesBelow.of_openWrite (hb : Below cwd base s) {content : Str}
    (hw : t.openWrite s content = some m) : ChangesBelow cwd base t m := by
  obtain ⟨n, p, hr, _, _, hcwd, hnodes⟩ := openWrite_some hw
  exact .of_changed hb hcwd (fun hcwd => hcwd ▸ resolve_place hr) hnodes

theorem ChangesBelow.of_unlink (hb : Below cwd base s) (hu : t.unlink s = some m) :
    ChangesBelow cwd base t m := by
  obtain ⟨p, hr, _, hcwd, hnodes⟩ := unlink_some hu
  exact .of_changed hb hcwd (fun hcwd => hcwd ▸ resolve_place hr) hnodes

theorem ChangesBelow.of_rmdir (hb : Below cwd base s) (hd : t.rmdir s = some m) :
    ChangesBelow cwd base t m := by
  obtain ⟨n, p, hr, _, _, _, hcwd, hnodes⟩ := rmdir_some hd
  exact .of_changed hb hcwd (fun hcwd => hcwd ▸ resolve_place hr) hnodes

end Changes

/-! ## 6. Directories that may go -/

/-- **Directories stay**, but those at some places; which these are may depend on the working
    directory. -/
structure GrowsBut (gone : Path → Path → Prop) (t t' : FileTree) : Prop where
  inCwd : t'.cwd = t.cwd
  dirs : ∀ p, ¬ gone t.cwd p → t.IsDir p → t'.IsDir p

/-- The path leads past no such place, and to none. -/
def Spared (gone : Path → Path → Prop) (cwd : Path) (s : Str) : Prop :=
  ∀ p ∈ placesOf cwd s, ¬ gone cwd p

section Gone

variable {gone : Path → Path → Prop}

theorem Grows.but (h : Grows t t') : GrowsBut gone t t' := ⟨h.cwd, fun p _ hp => h.dirs p hp⟩

theorem GrowsBut.refl (t : FileTree) : GrowsBut gone t t := (Grows.refl t).but

theorem GrowsBut.of_rmdir (hgone : ∀ cwd, gone cwd (placeOf cwd s)) (hd : t.rmdir s = some m) :
    GrowsBut gone t m := by
  obtain ⟨n, p, hr, _, _, _, hcwd, hnodes⟩ := rmdir_some hd
  refine ⟨hcwd, fun q hq hdir => ?_⟩
  unfold IsDir
  rw [hnodes, if_neg]
  · exact hdir
  · rintro rfl
    exact hq (resolve_place hr ▸ hgone t.cwd)

/-- **A directory stays** where its path is spared. -/
theorem GrowsBut.lookup (h : GrowsBut gone t t') (hs : Spared gone t.cwd s)
    (hl : t.lookup s = some .dir) : t'.lookup s = some .dir := by
  obtain ⟨p, hp, hdir⟩ := Option.bind_eq_some_iff.mp hl
  have hplace := resolve_place hp
  have hend : t'.IsDir p :=
    h.dirs p (hs p (List.mem_append_right _ (List.mem_singleton.mpr hplace))) hdir
  have hres : t'.resolve s = some p := by
    unfold FileTree.resolve at hp ⊢
    rw [origin_eq, h.inCwd, ← origin_eq]
    split at hp
    · cases hp
    · rename_i hne
      rw [if_neg hne]
      obtain ⟨hnormal, hdirs⟩ := walk_iff.mp hp
      exact walk_iff.mpr ⟨hnormal, fun q hq =>
        h.dirs q (hs q (List.mem_append_left _ hq)) (hdirs q hq)⟩
  unfold FileTree.lookup
  rw [hres]
  exact hend

end Gone

end Posix.FileTree
