/-
  File:      Googolplex/Crud/Entities.lean
  Subject:   ENTITIES OF ONE LOCATION AT ONCE: requests of all kinds whose keys begin with
             different names, on the one map and below the one root, their accesses in
             any order (request_handler_crud.cc).

  * `entityPart`: the keys that begin with a name, and the branch of the name.
  * `entities_apart`: what the clients of an entity are answered, its lists of ids and
    its branch, are what they would be without the other entities.
-/
import Googolplex.Crud.Local

namespace Googolplex.Crud.Concurrent

open Cxx Posix Posix.FileTree RequestHandler Programs FileAccesses

/-! ## 1. The part of an entity -/

section

variable {handler : RequestHandler} {cwd d : Path} {n n' : Name} {key : Str}

theorem into_entityOf (h : Into n key) : Into n (entityOf key) := by
  rcases suffix_cut key with ⟨_, _, hentity⟩ | ⟨hcut, _⟩
  · rw [hentity]
    exact h
  · rw [hcut] at h
    exact h.cut

/-- The lists of the keys that begin with the name are the same. -/
def SameLists (n : Name) (m m' : FileToId) : Prop := ∀ key, Into n key → m[key]? = m'[key]?

/-- No other list is changed. -/
def ChangesLists (n : Name) (m m' : FileToId) : Prop := ∀ key, ¬ Into n key → m'[key]? = m[key]?

theorem SameLists.insert {m m' : FileToId} (h : SameLists n m m') (key : Str) (ids : List Int) :
    SameLists n (m.insert key ids) (m'.insert key ids) := by
  intro k hk
  rw [getElem?_assign, getElem?_assign, h k hk]

theorem changesLists_insert (hkey : Into n key) (m : FileToId) (ids : List Int) :
    ChangesLists n m (m.insert key ids) := by
  intro k hk
  rw [getElem?_assign_of_ne]
  rintro rfl
  exact hk hkey

/-- **Nothing but the branch of the name is changed**, and the base leads where it led. -/
structure ChangesBranch (cwd : Path) (base : Str) (d : Path) (n : Name) (t t' : FileTree) : Prop where
  below : ChangesBelow cwd (base ++ '/' :: n) t t'
  based : Based cwd base d t → Based cwd base d t'

theorem ChangesBranch.refl (cwd : Path) (base : Str) (d : Path) (n : Name) (t : FileTree) :
    ChangesBranch cwd base d n t t := ⟨.refl _ _ t, id⟩

theorem allows_branch {base s : Str} (hn : Plain n) (hs : Into n s) :
    Allows (ChangesBranch cwd base d n) (base ++ '/' :: s) where
  refl := .refl cwd base d n
  mkdir _ _ hm := ⟨.of_mkdir (below_into cwd base hn hs) hm, fun h => h.grows (Grows.of_mkdir hm)⟩
  openWrite _ _ _ hw :=
    ⟨.of_openWrite (below_into cwd base hn hs) hw, fun h => h.grows (Grows.of_openWrite hw)⟩

/-- What is not on the way to the base can be removed. -/
theorem removal_branch {base s : Str} (hn : Plain n) (hs : Into n s)
    (hoff : placeOf cwd (base ++ '/' :: s) ∉ placesOf cwd (base ++ ['/'])) :
    AllowsRemoval (ChangesBranch cwd base d n) (base ++ '/' :: s) where
  refl := .refl cwd base d n
  unlink _ _ hu := ⟨.of_unlink (below_into cwd base hn hs) hu, fun h => h.grows (Grows.of_unlink hu)⟩
  rmdir t m hd := by
    refine ⟨.of_rmdir (below_into cwd base hn hs) hd, fun h => ⟨(rmdir_cwd hd).trans h.1, ?_⟩⟩
    rw [resolve_rmdir hd (h.1 ▸ hoff)]
    exact h.2

/-- **The part of an entity**: the keys that begin with its name, and what is in its branch. -/
def entityPart (handler : RequestHandler) (cwd d : Path) {n : Name} (hn : Plain n) : Part handler where
  keys := Into n
  entity := into_entityOf
  child value hkey := hkey.append (noUp_plain (plain_toStr value))
  sameMap := SameLists n
  found h hkey := h _ hkey
  inserted key ids h := h.insert key ids
  mapStep := ChangesLists n
  refl _ _ _ := rfl
  insert m ids hkey := changesLists_insert hkey m ids
  sameTree := InCwd cwd (SameOn (n :: d <:+ ·) handler.dir_ d)
  alike hkey := alike_within (within_into hn hkey)
  treeStep := ChangesBranch cwd handler.dir_ d n
  allows hkey := allows_branch hn hkey
  still := .refl cwd handler.dir_ d n
  inv := Based cwd handler.dir_ d
  known h := ⟨h.1.1, h.2.left⟩
  removal hkey hin hno := by
    have hoff := hin.off_the_way (hkey.noUp hn) hno
    exact ⟨removal_within (within_into hn hkey) (fun _ _ hq => hq.trans (List.suffix_cons _ _)) hoff,
      removal_branch hn hkey hoff⟩

/-- **Another entity** leaves the part the same. -/
theorem entityPart_spared (hn : Plain n) (hn' : Plain n') (hne : n' ≠ n) {s s' s₁ : CrudState}
    (h : (entityPart handler cwd d hn).Same s s')
    (hc : (entityPart handler cwd d hn').Changes s s₁) :
    (entityPart handler cwd d hn).Same s₁ s' := by
  obtain ⟨hlists, ⟨hcwd, hcwd'⟩, htree⟩ := h
  obtain ⟨hmap, hfiles⟩ := hc
  obtain ⟨hcwd₁, hbase₁⟩ := hfiles.based ⟨hcwd, htree.left⟩
  refine ⟨fun key hkey => ?_, ⟨hcwd₁, hcwd'⟩, hbase₁, htree.right, fun q hq => ?_⟩
  · refine (hmap key fun hkey' => ?_).trans (hlists key hkey)
    exact hne (hkey'.unique hkey)
  · -- no place is in the branches of two names
    refine (hfiles.below.nodes hcwd q ?_).trans (htree.nodes q hq)
    rw [branch_place cwd handler.dir_ hn', ← hcwd, ← resolve_place htree.left]
    intro hq'
    have heq : n :: d = n' :: d := by
      rcases List.suffix_or_suffix_of_suffix hq hq' with h | h
      · exact h.eq_of_length rfl
      · exact (h.eq_of_length rfl).symm
    exact hne (List.cons.inj heq).1.symm

end

/-! ## 2. Every order -/

/-- The request is for keys that begin with the name. -/
def IsFor (handler : RequestHandler) (n : Name) (request : Request) : Prop :=
  ∀ key, handler.checkRequestUrl request.target false = some key → Into n key

/-- **Entities of one location**: if every request is for keys that begin with some name and do not go
    up from there, then in every order of the accesses the requests for a name are answered, and the
    lists of its keys and all that is in its branch are left, as in the order without the others. -/
theorem entities_apart {ι : Type} [DecidableEq ι] (handler : RequestHandler) (disk : ι → Disk)
    (names : ι → Name) (requests : ι → Request) {s : CrudState} {d : Path}
    (hroot : s.files.resolve (handler.dir_ ++ ['/']) = some d) (hplain : ∀ i, Plain (names i))
    (hkeys : ∀ i, IsFor handler (names i) (requests i)) (n : Name) (hn : Plain n)
    (schedule : List ι) :
    let all := (crowd handler disk requests s).run schedule
    let own := (crowd handler disk requests s).run (schedule.filter fun i => names i = n)
    (∀ i, names i = n → all.progs i = own.progs i) ∧
      (∀ key, Into n key → all.shared.fileToId[key]? = own.shared.fileToId[key]?) ∧
      ∀ q, n :: d <:+ q → all.shared.files.nodes[q]? = own.shared.files.nodes[q]? := by
  intro all own
  have hown : ∀ i, (entityPart handler s.files.cwd d (hplain i)).Own
      (handleRequest handler (disk i) (requests i) freshResponse) :=
    fun i => handleRequest_own (hkeys i)
  have hmine : ∀ i, names i = n → (handleRequest handler (disk i) (requests i) freshResponse).Sees
      (entityPart handler s.files.cwd d hn).Same := by
    rintro i rfl
    exact (hown i).1
  have hothers : ∀ i, ¬ names i = n →
      (handleRequest handler (disk i) (requests i) freshResponse).KeepsIn
        (entityPart handler s.files.cwd d hn).In fun s₁ s₂ =>
          ∃ n', ∃ hn' : Plain n', n' ≠ n ∧ (entityPart handler s.files.cwd d hn').Changes s₁ s₂ :=
    fun i hi => (hown i).2.mono fun _ _ hc => ⟨names i, hplain i, hi, hc⟩
  have hpurge : (entityPart handler s.files.cwd d hn).Same all.shared own.shared ∧
      ∀ i, names i = n → all.progs i = own.progs i :=
    Pool.run_purge (fun _ _ h => (entityPart handler s.files.cwd d hn).known h.2) (fun _ _ _ h hc => by
        obtain ⟨n', hn', hne, hc⟩ := hc
        exact entityPart_spared hn hn' hne h hc) schedule
      ⟨fun _ _ => rfl, ⟨rfl, rfl⟩, hroot, hroot, fun _ _ => rfl⟩ (fun i hi => ⟨rfl, hmine i hi⟩) hothers
  exact ⟨hpurge.2, hpurge.1.1, hpurge.1.2.2.nodes⟩

/-- Two entities are posted to at once. -/
def shoesAndHats : Bool → Name × Request
  | false => ("shoes".toList, ask .post "/api/shoes" "red")
  | true => ("hats".toList, ask .post "/api/hats" "blue")

/-- Their accesses in turn. -/
def turns : List Bool := (List.replicate 10 [false, true]).flatten

/-- The shoes get the id, and the file, they get without the hats. -/
theorem entities_apart_shoes :
    let disk := fun _ : Bool => Disk.reliable
    let start := crowd apiHandler disk (fun i => (shoesAndHats i).2) apiStart
    let all := start.run turns
    let own := start.run (turns.filter fun i => (shoesAndHats i).1 = "shoes".toList)
    ((own.progs false).result.bind Except.toOption).map (fun answer => answer.1.body) =
        some "Created entry at \x7b\"id\":1\x7d\n".toList ∧ all.progs false = own.progs false ∧
      all.shared.files.nodes[["1".toList, "shoes".toList, "data".toList]]? =
        own.shared.files.nodes[["1".toList, "shoes".toList, "data".toList]]? := by
  have hkeys : ∀ i, IsFor apiHandler (shoesAndHats i).1 (shoesAndHats i).2 := by
    intro i key hkey
    cases i
    · rw [show apiHandler.checkRequestUrl (shoesAndHats false).2.target false =
        some "shoes".toList by decide +kernel] at hkey
      rw [← Option.some.inj hkey]
      decide
    · rw [show apiHandler.checkRequestUrl (shoesAndHats true).2.target false =
        some "hats".toList by decide +kernel] at hkey
      rw [← Option.some.inj hkey]
      decide
  have h := entities_apart apiHandler (fun _ => Disk.reliable) (fun i => (shoesAndHats i).1)
    (fun i => (shoesAndHats i).2) (s := apiStart) (d := ["data".toList]) (by decide +kernel)
    (by decide) hkeys "shoes".toList (by decide) turns
  exact ⟨by decide +kernel, h.1 false rfl, h.2.2 _ (by decide)⟩

end Googolplex.Crud.Concurrent
