/-
  File:      Googolplex/Crud/Interleaving.lean
  Subject:   POST REQUESTS ON SEVERAL THREADS (`server::start` runs one
             `io_service` on all of them; every handler of the location holds a
             reference to one map).

  A POST is the sequence of accesses `handle_post_request` and `get_next_id`
  make to the map and the file tree, each atomic; a schedule says whose access
  is next.

  * `advance_alone`: run without interruption the accesses are
    `handlePostRequest`.
  * `no_lost_update`: if nobody takes an id while another POST of the entity
    has taken one and not yet assigned the list, and no two keys spell one
    directory, then in every state the ids told are distinct, listed, and their
    files hold the bodies.
  * `two_posts_one_id`: two POSTs to an entity that is not there, access by
    access in turn, are both told id 1.
-/
import Googolplex.Crud.Inversion

namespace Googolplex.Crud

open Cxx Posix Posix.FileTree RequestHandler Machine

/-! ## 1. One POST, access by access -/

/-- A POST to the location. -/
structure Post (handler : RequestHandler) where
  request : Request
  suffix : Str
  method : request.method = .post
  url : handler.checkRequestUrl request.target false = some suffix

/-- What a POST does next, with the locals it still needs. -/
inductive Pc where
  /-- `handle_post_request`: `find`. -/
  | lookup
  /-- `create_dir`. -/
  | mkdir
  /-- `get_next_id`: `find`. -/
  | find
  /-- The key is missing: `file_to_id_[key] = {1}`. -/
  | first
  /-- The loop over the list. -/
  | scan
  /-- `insert_to_map`: `find`, and the search in a copy of the list. -/
  | insert (id : Int)
  /-- `push_back`. -/
  | push (id : Int)
  /-- The copy, which is then sorted. -/
  | copy (id : Int)
  /-- The copy is assigned. -/
  | assign (id : Int) (values : List Int)
  /-- `write_to_file`. -/
  | write (id : Int)
  /-- 201. -/
  | created (id : Int)
  /-- 500. -/
  | unwritten (id : Int)
  /-- 422. -/
  | unprocessable
  /-- The counter overflowed. -/
  | failed
  deriving DecidableEq, Repr

/-- One access: the state after it, and what comes next. A POST that is through stays so. -/
def Pc.advance (handler : RequestHandler) (post : Post handler) (s : CrudState) :
    Pc → CrudState × Pc
  | .lookup => (s, if s.fileToId[post.suffix]? = none then .mkdir else .find)
  | .mkdir =>
    let (made, files) := createDir s.files (pathOf handler post.suffix)
    ({ s with files }, if made then .find else .unprocessable)
  | .find => (s, if s.fileToId[post.suffix]? = none then .first else .scan)
  | .first => ({ s with fileToId := s.fileToId.insert post.suffix [1] }, .write 1)
  | .scan =>
    match lowestAvailableId 1 (idsOf s.fileToId post.suffix) with
    | .ok id => (s, .insert id)
    | .error _ => (s, .failed)
  | .insert id =>
    match s.fileToId[post.suffix]? with
    | some idNames => (s, if id ∈ idNames then .write id else .push id)
    | none => (s, .write id)
  | .push id =>
    let ids := idsOf s.fileToId post.suffix ++ [id]
    ({ s with fileToId := s.fileToId.insert post.suffix ids }, .copy id)
  | .copy id => (s, .assign id ((idsOf s.fileToId post.suffix).insertionSort (· ≤ ·)))
  | .assign id values => ({ s with fileToId := s.fileToId.insert post.suffix values }, .write id)
  | .write id =>
    let (written, files) := writeToFile Disk.reliable s.files
      (pathOf handler post.suffix ++ '/' :: toStr id) post.request.body
    ({ s with files }, if written then .created id else .unwritten id)
  | pc => (s, pc)

/-- The outcome of a POST that is through. -/
def Pc.outcome (s : CrudState) (response : Response) : Pc → Option Outcome
  | .created id => some (.ok (s, prepareCreatedResponse id response, true))
  | .unwritten _ => some (.ok (s, prepareInternalServerErrorResponse response, false))
  | .unprocessable => some (.ok (s, prepareUnprocessableEntityResponse response, false))
  | .failed => some (.error .signedOverflow)
  | _ => none

/-- `k` accesses of one POST with nobody in between. -/
def Pc.alone (handler : RequestHandler) (post : Post handler) : Nat → CrudState × Pc → CrudState × Pc
  | 0, c => c
  | k + 1, (s, pc) => Pc.alone handler post k (pc.advance handler post s)

section Alone

variable {handler : RequestHandler} (post : Post handler)

/-- A POST that is through stays as it is. -/
theorem alone_through {s : CrudState} {pc : Pc} (h : pc.advance handler post s = (s, pc)) :
    ∀ k, Pc.alone handler post k (s, pc) = (s, pc)
  | 0 => rfl
  | k + 1 => by
      simp only [Pc.alone, h]
      exact alone_through h k

/-- The last access: the file, and the answer. -/
theorem alone_write (s : CrudState) (id : Int) (response : Response) (k : Nat) :
    (Pc.alone handler post (k + 1) (s, .write id)).2.outcome
        (Pc.alone handler post (k + 1) (s, .write id)).1 response =
      some (if (writeToFile Disk.reliable s.files
            (pathOf handler post.suffix ++ '/' :: toStr id) post.request.body).1 = true then
          .ok (⟨s.fileToId, (writeToFile Disk.reliable s.files
            (pathOf handler post.suffix ++ '/' :: toStr id) post.request.body).2⟩,
            prepareCreatedResponse id response, true)
        else .ok (⟨s.fileToId, (writeToFile Disk.reliable s.files
            (pathOf handler post.suffix ++ '/' :: toStr id) post.request.body).2⟩,
            prepareInternalServerErrorResponse response, false)) := by
  simp only [Pc.alone, Pc.advance]
  cases hw : writeToFile Disk.reliable s.files
      (pathOf handler post.suffix ++ '/' :: toStr id) post.request.body with
  | mk written files =>
      cases written with
      | true =>
          simp only [if_true]
          rw [alone_through post rfl]
          rfl
      | false =>
          simp only [Bool.false_eq_true, if_false]
          rw [alone_through post rfl]
          rfl

/-- The first of several accesses. -/
theorem alone_step {s : CrudState} {pc : Pc} {c : CrudState × Pc} {k : Nat}
    (h : pc.advance handler post s = c) :
    Pc.alone handler post (k + 1) (s, pc) = Pc.alone handler post k c := by
  rw [← h]
  rfl

/-- **With nobody in between the accesses are `handle_post_request`.** -/
theorem advance_alone (s : CrudState) (response : Response) :
    (Pc.alone handler post 9 (s, .lookup)).2.outcome
        (Pc.alone handler post 9 (s, .lookup)).1 response =
      some (handlePostRequest handler Disk.reliable s post.suffix post.request response) := by
  obtain ⟨fileToId, files⟩ := s
  unfold handlePostRequest
  cases hk : fileToId[post.suffix]? with
  | none =>
      have hlookup : Pc.lookup.advance handler post ⟨fileToId, files⟩ = (⟨fileToId, files⟩, .mkdir) := by
        simp only [Pc.advance, hk, if_true]
      rw [alone_step post hlookup]
      cases hc : createDir files (pathOf handler post.suffix) with
      | mk made files' =>
          cases made with
          | false =>
              have hmkdir : Pc.mkdir.advance handler post ⟨fileToId, files⟩ =
                  (⟨fileToId, files'⟩, .unprocessable) := by
                simp [Pc.advance, hc]
              rw [alone_step post hmkdir, alone_through post rfl]
              simp [hc, Pc.outcome]
          | true =>
              have hmkdir : Pc.mkdir.advance handler post ⟨fileToId, files⟩ =
                  (⟨fileToId, files'⟩, .find) := by
                simp [Pc.advance, hc]
              have hfind : Pc.find.advance handler post ⟨fileToId, files'⟩ =
                  (⟨fileToId, files'⟩, .first) := by
                simp [Pc.advance, hk]
              have hfirst : Pc.first.advance handler post ⟨fileToId, files'⟩ =
                  (⟨fileToId.insert post.suffix [1], files'⟩, .write 1) := rfl
              have hid : getNextId fileToId post.suffix = .ok (1, fileToId.insert post.suffix [1]) := by
                unfold getNextId
                rw [hk]
              rw [alone_step post hmkdir, alone_step post hfind, alone_step post hfirst,
                alone_write post]
              simp [hc, hid]
  | some ids =>
      have hids : idsOf fileToId post.suffix = ids := idsOf_of_some hk
      have hlookup : Pc.lookup.advance handler post ⟨fileToId, files⟩ = (⟨fileToId, files⟩, .find) := by
        simp [Pc.advance, hk]
      have hfind : Pc.find.advance handler post ⟨fileToId, files⟩ = (⟨fileToId, files⟩, .scan) := by
        simp [Pc.advance, hk]
      rw [alone_step post hlookup, alone_step post hfind]
      cases hl : lowestAvailableId 1 ids with
      | error f =>
          have hscan : Pc.scan.advance handler post ⟨fileToId, files⟩ =
              (⟨fileToId, files⟩, .failed) := by
            simp [Pc.advance, hids, hl]
          have hid : getNextId fileToId post.suffix = .error .signedOverflow := by
            unfold getNextId
            simp only [hk, hl, (lowestAvailableId_error hl).1]
          rw [alone_step post hscan, alone_through post rfl]
          simp [hid, Pc.outcome]
      | ok v =>
          have hscan : Pc.scan.advance handler post ⟨fileToId, files⟩ =
              (⟨fileToId, files⟩, .insert v) := by
            simp [Pc.advance, hids, hl]
          have hid : getNextId fileToId post.suffix =
              .ok (v, register fileToId post.suffix v) := by
            unfold getNextId
            simp only [hk, hl, insertToMap_known hk]
          rw [alone_step post hscan]
          by_cases hv : v ∈ ids
          · have hinsert : (Pc.insert v).advance handler post ⟨fileToId, files⟩ =
                (⟨fileToId, files⟩, .write v) := by
              simp [Pc.advance, hk, hv]
            rw [alone_step post hinsert, alone_write post]
            simp [hid, register_of_mem hk hv]
          · have hinsert : (Pc.insert v).advance handler post ⟨fileToId, files⟩ =
                (⟨fileToId, files⟩, .push v) := by
              simp [Pc.advance, hk, hv]
            have hpush : (Pc.push v).advance handler post ⟨fileToId, files⟩ =
                (⟨fileToId.insert post.suffix (ids ++ [v]), files⟩, .copy v) := by
              simp [Pc.advance, hids]
            have hcopy : (Pc.copy v).advance handler post
                ⟨fileToId.insert post.suffix (ids ++ [v]), files⟩ =
                (⟨fileToId.insert post.suffix (ids ++ [v]), files⟩,
                  .assign v ((ids ++ [v]).insertionSort (· ≤ ·))) := by
              simp [Pc.advance, idsOf]
            have hassign : (Pc.assign v ((ids ++ [v]).insertionSort (· ≤ ·))).advance handler post
                ⟨fileToId.insert post.suffix (ids ++ [v]), files⟩ =
                (⟨register fileToId post.suffix v, files⟩, .write v) := by
              simp only [Pc.advance, assign_assign, register, withId, hids, if_neg hv]
            rw [alone_step post hinsert, alone_step post hpush, alone_step post hcopy,
              alone_step post hassign, alone_write post]
            simp [hid]

end Alone

/-! ## 2. Several POSTs -/

/-- The map and the tree all POSTs share, and where each of them is. -/
structure System (n : Nat) where
  shared : CrudState
  pcs : Fin n → Pc

/-- All of them are yet to begin. -/
def System.start (n : Nat) (s : CrudState) : System n := ⟨s, fun _ => .lookup⟩

/-- The `i`th POST makes its next access. -/
def System.advance {n : Nat} {handler : RequestHandler} (posts : Fin n → Post handler)
    (σ : System n) (i : Fin n) : Except Empty (System n × Unit) :=
  let c := (σ.pcs i).advance handler (posts i) σ.shared
  .ok (⟨c.1, Function.update σ.pcs i c.2⟩, ())

/-- The id is taken, and the list does not show it for good yet. -/
def Pc.taking : Pc → Bool
  | .first | .insert _ | .push _ | .copy _ | .assign _ _ => true
  | _ => false

/-- The id a POST has taken. -/
def Pc.idOf : Pc → Option Int
  | .first => some 1
  | .insert id | .push id | .copy id | .assign id _ | .write id | .created id | .unwritten id =>
    some id
  | _ => none

/-- **In turn**: the access with which `get_next_id` decides on an id (the `find` that misses, the
    scan) is made while no other POST of the entity is taking one. -/
def InTurn {n : Nat} {handler : RequestHandler} (posts : Fin n → Post handler) (σ : System n)
    (i : Fin n) : Prop :=
  (σ.pcs i = .find ∧ σ.shared.fileToId[(posts i).suffix]? = none ∨ σ.pcs i = .scan) →
    ∀ j, j ≠ i → (posts j).suffix = (posts i).suffix → (σ.pcs j).taking = false

instance {n : Nat} {handler : RequestHandler} (posts : Fin n → Post handler) (σ : System n)
    (i : Fin n) : Decidable (InTurn posts σ i) := inferInstanceAs (Decidable (_ → _))

/-- **No update is lost**: of the POSTs that were told an id, those to one entity were told
    different ones, every id told is listed, and its file holds the body of the POST. -/
structure NoLostUpdate {n : Nat} {handler : RequestHandler} (posts : Fin n → Post handler)
    (σ : System n) : Prop where
  distinct : ∀ i j id, i ≠ j → (posts i).suffix = (posts j).suffix →
    σ.pcs i = .created id → σ.pcs j ≠ .created id
  listed : ∀ i id, σ.pcs i = .created id → id ∈ idsOf σ.shared.fileToId (posts i).suffix
  stored : ∀ i id, σ.pcs i = .created id →
    σ.shared.files.lookup (pathOf handler (posts i).suffix ++ '/' :: toStr id) =
      some (.file (posts i).request.body)

/-! ### The invariant -/

/-- What a POST may rely on where it is. -/
def Pc.Sound {handler : RequestHandler} (d : Path) (post : Post handler) (s : CrudState) : Pc → Prop
  | .lookup | .mkdir | .unprocessable | .failed => True
  | .find => Opens s.files d post.suffix
  | .scan => Opens s.files d post.suffix ∧ s.fileToId[post.suffix]? ≠ none
  | .first => Opens s.files d post.suffix ∧ s.fileToId[post.suffix]? = none
  | .insert id | .push id => Opens s.files d post.suffix ∧
    ∃ ids : List Int, s.fileToId[post.suffix]? = some ids ∧ ids.SortedLT ∧ id ∉ ids
  | .copy id => Opens s.files d post.suffix ∧
    ∃ ids : List Int, s.fileToId[post.suffix]? = some (ids ++ [id]) ∧ ids.SortedLT ∧ id ∉ ids
  | .assign id values => Opens s.files d post.suffix ∧
    ∃ ids : List Int, s.fileToId[post.suffix]? = some (ids ++ [id]) ∧ ids.SortedLT ∧ id ∉ ids ∧
      values = withId id ids
  | .write id | .unwritten id => Opens s.files d post.suffix ∧ id ∈ idsOf s.fileToId post.suffix
  | .created id => Opens s.files d post.suffix ∧ id ∈ idsOf s.fileToId post.suffix ∧
    s.files.nodes[toStr id :: spot d post.suffix]? = some (.file post.request.body)

/-- **What holds between accesses made in turn.** `apart`: of two POSTs of one entity at most one
    is taking an id, and they have not taken the same. -/
structure Orderly {n : Nat} {handler : RequestHandler} (d : Path) (posts : Fin n → Post handler)
    (σ : System n) : Prop where
  home : Home handler σ.shared.files d
  opens : ∀ (k : Str) (ids : List Int), σ.shared.fileToId[k]? = some ids →
    Opens σ.shared.files d k
  sorted : ∀ (k : Str) (ids : List Int), σ.shared.fileToId[k]? = some ids →
    ids.SortedLT ∨ ∃ i, (posts i).suffix = k ∧ (σ.pcs i).taking = true
  sound : ∀ i, (σ.pcs i).Sound d (posts i) σ.shared
  apart : ∀ i j, i ≠ j → (posts i).suffix = (posts j).suffix →
    ((σ.pcs i).taking = false ∨ (σ.pcs j).taking = false) ∧
      ∀ id, (σ.pcs i).idOf = some id → (σ.pcs j).idOf ≠ some id

section Invariant

variable {handler : RequestHandler} {d : Path} {n : Nat} {posts : Fin n → Post handler}
  {σ : System n} {s s' : CrudState} {pc pc' : Pc}

/-- An id that is taken for good is listed. -/
theorem Pc.Sound.listed {post : Post handler} {id : Int} (h : pc.Sound d post s)
    (hid : pc.idOf = some id) (ht : pc.taking = false) : id ∈ idsOf s.fileToId post.suffix := by
  cases pc <;> cases hid <;> first | exact h.2 | exact h.2.1 | cases ht

/-- What others do to the files and to the list leaves a POST what it relies on. -/
theorem Pc.Sound.frame {post : Post handler} (h : pc.Sound d post s) (hg : Grows s.files s'.files)
    (hlist : s'.fileToId[post.suffix]? = s.fileToId[post.suffix]? ∨
      pc.taking = false ∧ s'.fileToId[post.suffix]? ≠ none ∧
        ∀ i ∈ idsOf s.fileToId post.suffix, i ∈ idsOf s'.fileToId post.suffix)
    (hfile : ∀ id, pc = .created id → s'.files.nodes[toStr id :: spot d post.suffix]? =
      s.files.nodes[toStr id :: spot d post.suffix]?) : pc.Sound d post s' := by
  have hmem : ∀ i ∈ idsOf s.fileToId post.suffix, i ∈ idsOf s'.fileToId post.suffix := by
    rcases hlist with heq | ⟨_, _, hmem⟩
    · unfold idsOf
      rw [heq]
      exact fun i hi => hi
    · exact hmem
  have hknown : s.fileToId[post.suffix]? ≠ none → s'.fileToId[post.suffix]? ≠ none := by
    rcases hlist with heq | ⟨_, hk, _⟩
    · rw [heq]
      exact id
    · exact fun _ => hk
  cases pc with
  | lookup | mkdir | unprocessable | failed => trivial
  | find => exact h.grows hg
  | scan => exact ⟨h.1.grows hg, hknown h.2⟩
  | write i | unwritten i => exact ⟨h.1.grows hg, hmem i h.2⟩
  | created i => exact ⟨h.1.grows hg, hmem i h.2.1, (hfile i rfl).trans h.2.2⟩
  | first | insert i | push i | copy i | assign i values =>
      rcases hlist with heq | ⟨ht, _⟩
      · refine ⟨h.1.grows hg, ?_⟩
        rw [heq]
        exact h.2
      · cases ht

/-- **One access of the `i`th POST keeps the invariant**, if its effect is confined: to its own
    key, where nobody else is taking an id, and to files nobody else was told of. -/
theorem Orderly.move (h : Orderly d posts σ) (i : Fin n) (hg : Grows σ.shared.files s'.files)
    (hmap : ∀ k : Str, k ≠ (posts i).suffix → s'.fileToId[k]? = σ.shared.fileToId[k]?)
    (hlist : s'.fileToId[(posts i).suffix]? = σ.shared.fileToId[(posts i).suffix]? ∨
      (∀ j, j ≠ i → (posts j).suffix = (posts i).suffix → (σ.pcs j).taking = false) ∧
        s'.fileToId[(posts i).suffix]? ≠ none ∧
        ∀ x ∈ idsOf σ.shared.fileToId (posts i).suffix,
          x ∈ idsOf s'.fileToId (posts i).suffix)
    (hopens : s'.fileToId[(posts i).suffix]? ≠ none → Opens s'.files d (posts i).suffix)
    (hsorted : ∀ ids : List Int, s'.fileToId[(posts i).suffix]? = some ids →
      ids.SortedLT ∨ pc'.taking = true ∨
        ∃ j, j ≠ i ∧ (posts j).suffix = (posts i).suffix ∧ (σ.pcs j).taking = true)
    (hfile : ∀ j, j ≠ i → ∀ id, σ.pcs j = .created id →
      s'.files.nodes[toStr id :: spot d (posts j).suffix]? =
        σ.shared.files.nodes[toStr id :: spot d (posts j).suffix]?)
    (hsound : pc'.Sound d (posts i) s')
    (hapart : ∀ j, j ≠ i → (posts j).suffix = (posts i).suffix →
      (pc'.taking = false ∨ (σ.pcs j).taking = false) ∧
        ∀ id, pc'.idOf = some id → (σ.pcs j).idOf ≠ some id) :
    Orderly d posts ⟨s', Function.update σ.pcs i pc'⟩ where
  home := h.home.grows hg
  opens k ids hk := by
    by_cases hke : k = (posts i).suffix
    · subst hke
      exact hopens (by rw [hk]; simp)
    · rw [hmap k hke] at hk
      exact (h.opens k ids hk).grows hg
  sorted k ids hk := by
    by_cases hke : k = (posts i).suffix
    · subst hke
      rcases hsorted ids hk with hs | ht | ⟨j, hj, hje, ht⟩
      · exact Or.inl hs
      · exact Or.inr ⟨i, rfl, by simpa using ht⟩
      · refine Or.inr ⟨j, hje, ?_⟩
        show (Function.update σ.pcs i pc' j).taking = true
        rw [Function.update_of_ne hj]
        exact ht
    · rw [hmap k hke] at hk
      rcases h.sorted k ids hk with hs | ⟨j, hje, ht⟩
      · exact Or.inl hs
      · refine Or.inr ⟨j, hje, ?_⟩
        show (Function.update σ.pcs i pc' j).taking = true
        rw [Function.update_of_ne fun hji => hke (by rw [← hje, hji])]
        exact ht
  sound j := by
    show (Function.update σ.pcs i pc' j).Sound d (posts j) s'
    by_cases hj : j = i
    · subst hj
      rw [Function.update_self]
      exact hsound
    · rw [Function.update_of_ne hj]
      refine (h.sound j).frame hg ?_ (hfile j hj)
      by_cases hje : (posts j).suffix = (posts i).suffix
      · rw [hje]
        exact hlist.imp_right fun ⟨htaking, hrest⟩ => ⟨htaking j hj hje, hrest⟩
      · exact Or.inl (hmap _ hje)
  apart j k hjk hsuffix := by
    show ((Function.update σ.pcs i pc' j).taking = false ∨
        (Function.update σ.pcs i pc' k).taking = false) ∧
      ∀ id, (Function.update σ.pcs i pc' j).idOf = some id →
        (Function.update σ.pcs i pc' k).idOf ≠ some id
    by_cases hj : j = i
    · subst hj
      rw [Function.update_self, Function.update_of_ne (Ne.symm hjk)]
      exact hapart k (Ne.symm hjk) hsuffix.symm
    · by_cases hk : k = i
      · subst hk
        rw [Function.update_self, Function.update_of_ne hj]
        obtain ⟨ht, hid⟩ := hapart j hj hsuffix
        exact ⟨ht.symm, fun id hj' hk' => hid id hk' hj'⟩
      · rw [Function.update_of_ne hj, Function.update_of_ne hk]
        exact h.apart j k hjk hsuffix

/-- An access that changes neither the map nor the tree. -/
theorem Orderly.stay (h : Orderly d posts σ) (i : Fin n)
    (hsorted : (σ.pcs i).taking = true → pc'.taking = true)
    (hsound : pc'.Sound d (posts i) σ.shared)
    (hapart : ∀ j, j ≠ i → (posts j).suffix = (posts i).suffix →
      (pc'.taking = false ∨ (σ.pcs j).taking = false) ∧
        ∀ id, pc'.idOf = some id → (σ.pcs j).idOf ≠ some id) :
    Orderly d posts ⟨σ.shared, Function.update σ.pcs i pc'⟩ := by
  refine h.move i (Grows.refl _) (fun k _ => rfl) (Or.inl rfl) (fun hk => ?_) (fun ids hids => ?_)
    (fun _ _ _ _ => rfl) hsound hapart
  · obtain ⟨ids, hids⟩ := Option.ne_none_iff_exists'.mp hk
    exact h.opens _ ids hids
  · rcases h.sorted _ ids hids with hs | ⟨j, hje, ht⟩
    · exact Or.inl hs
    · by_cases hj : j = i
      · subst hj
        exact Or.inr (Or.inl (hsorted ht))
      · exact Or.inr (Or.inr ⟨j, hj, hje, ht⟩)

/-- A POST that is not taking an id has taken a listed one. -/
theorem Orderly.listed (h : Orderly d posts σ) {i : Fin n} {id : Int}
    (ht : (σ.pcs i).taking = false) (hid : (σ.pcs i).idOf = some id) :
    id ∈ idsOf σ.shared.fileToId (posts i).suffix := (h.sound i).listed hid ht

/-- While a POST takes an id, no other POST of the entity does. -/
theorem Orderly.alone (h : Orderly d posts σ) {i : Fin n} (ht : (σ.pcs i).taking = true) :
    ∀ j, j ≠ i → (posts j).suffix = (posts i).suffix → (σ.pcs j).taking = false := by
  intro j hj hje
  rcases (h.apart j i hj hje).1 with hf | hf
  · exact hf
  · rw [ht] at hf
    cases hf

theorem Orderly.mkdir_step (h : Orderly d posts σ) {i : Fin n} (hpc : σ.pcs i = .mkdir) :
    Orderly d posts ⟨((σ.pcs i).advance handler (posts i) σ.shared).1,
      Function.update σ.pcs i ((σ.pcs i).advance handler (posts i) σ.shared).2⟩ := by
  rw [hpc]
  cases hc : createDir σ.shared.files (pathOf handler (posts i).suffix) with
  | mk made files =>
      cases made with
      | false =>
          obtain ⟨rfl, _⟩ := createDir_false h.home hc
          simp only [Pc.advance, hc]
          exact h.stay i (fun ht => by rw [hpc] at ht; cases ht) trivial
            fun j _ _ => ⟨Or.inl rfl, fun id hid => by cases hid⟩
      | true =>
          have hmade := createDir_true h.home hc
          simp only [Pc.advance, hc]
          refine h.move i hmade.grows (fun k _ => rfl) (Or.inl rfl) (fun _ => hmade.opens)
            (fun ids hids => ?_) (fun j _ id hj => ?_) hmade.opens
            fun j _ _ => ⟨Or.inl rfl, fun id hid => by cases hid⟩
          · rcases h.sorted _ ids hids with hs | ⟨j, hje, ht⟩
            · exact Or.inl hs
            · refine Or.inr (Or.inr ⟨j, fun hji => ?_, hje, ht⟩)
              rw [hji, hpc] at ht
              cases ht
          · -- the made directory is where nothing was, so not where a told file is
            have hs := h.sound j
            rw [hj] at hs
            rw [hmade.nodes, if_neg]
            intro heq
            have hnode := hs.2.2
            rcases hmade.free with ⟨ho, _⟩ | ⟨hnone, _⟩
            · have hdir := ho.2
              unfold IsDir at hdir
              rw [heq, hnode] at hdir
              cases hdir
            · rw [heq, hnode] at hnone
              cases hnone

theorem Orderly.write_step (h : Orderly d posts σ)
    (hsolo : ∀ i j, spot d (posts i).suffix = spot d (posts j).suffix →
      (posts i).suffix = (posts j).suffix) {i : Fin n} {id : Int} (hpc : σ.pcs i = .write id) :
    Orderly d posts ⟨((σ.pcs i).advance handler (posts i) σ.shared).1,
      Function.update σ.pcs i ((σ.pcs i).advance handler (posts i) σ.shared).2⟩ := by
  have hs := h.sound i
  rw [hpc] at hs
  have hkeep : ∀ ids : List Int, σ.shared.fileToId[(posts i).suffix]? = some ids →
      ids.SortedLT ∨ ∃ j, j ≠ i ∧ (posts j).suffix = (posts i).suffix ∧ (σ.pcs j).taking = true := by
    intro ids hids
    rcases h.sorted _ ids hids with hs | ⟨j, hje, ht⟩
    · exact Or.inl hs
    · refine Or.inr ⟨j, fun hji => ?_, hje, ht⟩
      rw [hji, hpc] at ht
      cases ht
  have hapart : ∀ j, j ≠ i → (posts j).suffix = (posts i).suffix →
      ∀ id', some id = some id' → (σ.pcs j).idOf ≠ some id' := by
    intro j hj hje id' hid'
    cases hid'
    exact (h.apart i j (Ne.symm hj) hje.symm).2 id (by rw [hpc]; rfl)
  rw [hpc]
  rcases writeToFile_below h.home hs.1 (plain_toStr id) (posts i).request.body with
    ⟨_, hw⟩ | ⟨_, files, hw, hg, hnodes⟩
  · simp only [Pc.advance, pathOf_below, hw]
    refine h.stay i (fun ht => by rw [hpc] at ht; cases ht) hs
      fun j hj hje => ⟨Or.inl rfl, hapart j hj hje⟩
  · simp only [Pc.advance, pathOf_below, hw]
    refine h.move i hg (fun k _ => rfl) (Or.inl rfl) (fun _ => hs.1.grows hg)
      (fun ids hids => (hkeep ids hids).imp_right Or.inr) (fun j hj id' hjc => ?_)
      ⟨hs.1.grows hg, hs.2, ?_⟩ fun j hj hje => ⟨Or.inl rfl, hapart j hj hje⟩
    · -- another POST's file is in another directory or under another id
      rw [hnodes, if_neg]
      intro heq
      obtain ⟨hid, hspot⟩ := List.cons.inj heq
      obtain rfl := toStr_injective hid
      have hje := hsolo j i hspot.symm
      exact hapart j hj hje id rfl (by rw [hjc]; rfl)
    · show files.nodes[toStr id :: spot d (posts i).suffix]? = _
      rw [hnodes, if_pos rfl]

/-- **Every access made in turn keeps the invariant.** -/
theorem orderly_step (hsolo : ∀ i j, spot d (posts i).suffix = spot d (posts j).suffix →
      (posts i).suffix = (posts j).suffix)
    (h : Orderly d posts σ) {i : Fin n} (hturn : InTurn posts σ i) :
    Orderly d posts ⟨((σ.pcs i).advance handler (posts i) σ.shared).1,
      Function.update σ.pcs i ((σ.pcs i).advance handler (posts i) σ.shared).2⟩ := by
  have hs := h.sound i
  -- an access that takes no id and holds none
  have plain : ∀ {pc' : Pc}, (σ.pcs i).taking = false → pc'.taking = false → pc'.idOf = none →
      pc'.Sound d (posts i) σ.shared →
      Orderly d posts ⟨σ.shared, Function.update σ.pcs i pc'⟩ := by
    intro pc' ht ht' hid hsound
    refine h.stay i (fun hc => by rw [ht] at hc; cases hc) hsound fun j _ _ => ⟨Or.inl ht', ?_⟩
    intro id hid'
    rw [hid] at hid'
    cases hid'
  -- an access in the middle of taking an id
  have going : ∀ {pc' : Pc}, (σ.pcs i).taking = true → pc'.taking = true →
      pc'.idOf = (σ.pcs i).idOf → pc'.Sound d (posts i) σ.shared →
      Orderly d posts ⟨σ.shared, Function.update σ.pcs i pc'⟩ := by
    intro pc' ht ht' hid hsound
    refine h.stay i (fun _ => ht') hsound fun j hj hje => ⟨Or.inr (h.alone ht j hj hje), ?_⟩
    rw [hid]
    exact (h.apart i j (Ne.symm hj) hje.symm).2
  -- an id that is not listed has not been taken before
  have fresh : ∀ {id : Int}, (∀ j, j ≠ i → (posts j).suffix = (posts i).suffix →
        (σ.pcs j).taking = false) → id ∉ idsOf σ.shared.fileToId (posts i).suffix →
      ∀ j, j ≠ i → (posts j).suffix = (posts i).suffix →
        ∀ id', some id = some id' → (σ.pcs j).idOf ≠ some id' := by
    intro id halone hnew j hj hje id' hid' hjid
    cases hid'
    exact hnew (hje ▸ h.listed (halone j hj hje) hjid)
  cases hpc : σ.pcs i with
  | lookup =>
      by_cases hk : σ.shared.fileToId[(posts i).suffix]? = none
      · simp only [Pc.advance, if_pos hk]
        exact plain (by rw [hpc]; rfl) rfl rfl trivial
      · simp only [Pc.advance, if_neg hk]
        obtain ⟨ids, hids⟩ := Option.ne_none_iff_exists'.mp hk
        exact plain (by rw [hpc]; rfl) rfl rfl (h.opens _ ids hids)
  | mkdir => exact hpc ▸ h.mkdir_step hpc
  | find =>
      rw [hpc] at hs
      by_cases hk : σ.shared.fileToId[(posts i).suffix]? = none
      · simp only [Pc.advance, if_pos hk]
        have halone := hturn (Or.inl ⟨hpc, hk⟩)
        refine h.stay i (fun _ => rfl) ⟨hs, hk⟩ fun j hj hje => ⟨Or.inr (halone j hj hje), ?_⟩
        refine fresh halone ?_ j hj hje
        rw [idsOf_of_none hk]
        exact List.not_mem_nil
      · simp only [Pc.advance, if_neg hk]
        exact plain (by rw [hpc]; rfl) rfl rfl ⟨hs, hk⟩
  | first =>
      rw [hpc] at hs
      have halone := h.alone (show (σ.pcs i).taking = true by rw [hpc]; rfl)
      simp only [Pc.advance]
      refine h.move i (Grows.refl _) (fun k hk => getElem?_assign_of_ne _ _ (Ne.symm hk))
        (Or.inr ⟨halone, by simp, ?_⟩) (fun _ => hs.1) (fun ids hids => ?_) (fun _ _ _ _ => rfl)
        ⟨hs.1, ?_⟩ fun j hj hje => ⟨Or.inl rfl, ?_⟩
      · rw [idsOf_of_none hs.2]
        exact fun x hx => absurd hx List.not_mem_nil
      · rw [getElem?_assign_self] at hids
        cases hids
        exact Or.inl (List.pairwise_singleton _ _).sortedLT
      · rw [idsOf_of_some (getElem?_assign_self _ _ _)]
        exact List.mem_cons_self
      · have hid := (h.apart i j (Ne.symm hj) hje.symm).2
        rw [hpc] at hid
        exact hid
  | scan =>
      rw [hpc] at hs
      have halone := hturn (Or.inr hpc)
      obtain ⟨ids, hids⟩ := Option.ne_none_iff_exists'.mp hs.2
      -- nobody is taking an id, so the list is in order
      have hsorted : ids.SortedLT := by
        rcases h.sorted _ ids hids with hsort | ⟨j, hje, ht⟩
        · exact hsort
        · by_cases hj : j = i
          · rw [hj, hpc] at ht
            cases ht
          · rw [halone j hj hje] at ht
            cases ht
      cases hl : lowestAvailableId 1 (idsOf σ.shared.fileToId (posts i).suffix) with
      | error f =>
          simp only [Pc.advance, hl]
          exact plain (by rw [hpc]; rfl) rfl rfl trivial
      | ok id =>
          simp only [Pc.advance, hl]
          rw [idsOf_of_some hids] at hl
          obtain ⟨_, hnew, _⟩ := lowestAvailableId_ok hsorted hl
          refine h.stay i (fun _ => rfl) ⟨hs.1, ids, hids, hsorted, hnew⟩
            fun j hj hje => ⟨Or.inr (halone j hj hje), ?_⟩
          exact fresh halone (by rw [idsOf_of_some hids]; exact hnew) j hj hje
  | insert id =>
      rw [hpc] at hs
      obtain ⟨ho, ids, hids, hsort, hnew⟩ := hs
      simp only [Pc.advance, hids, if_neg hnew]
      exact going (by rw [hpc]; rfl) rfl (by rw [hpc]; rfl) ⟨ho, ids, hids, hsort, hnew⟩
  | push id =>
      rw [hpc] at hs
      obtain ⟨ho, ids, hids, hsort, hnew⟩ := hs
      have halone := h.alone (show (σ.pcs i).taking = true by rw [hpc]; rfl)
      simp only [Pc.advance, idsOf_of_some hids]
      refine h.move i (Grows.refl _) (fun k hk => getElem?_assign_of_ne _ _ (Ne.symm hk))
        (Or.inr ⟨halone, by simp, ?_⟩) (fun _ => ho) (fun _ _ => Or.inr (Or.inl rfl))
        (fun _ _ _ _ => rfl) ⟨ho, ids, getElem?_assign_self _ _ _, hsort, hnew⟩
        fun j hj hje => ⟨Or.inr (halone j hj hje), ?_⟩
      · rw [idsOf_of_some hids, idsOf_of_some (getElem?_assign_self _ _ _)]
        exact fun x hx => List.mem_append_left _ hx
      · have hid := (h.apart i j (Ne.symm hj) hje.symm).2
        rw [hpc] at hid
        exact hid
  | copy id =>
      rw [hpc] at hs
      obtain ⟨ho, ids, hids, hsort, hnew⟩ := hs
      simp only [Pc.advance, idsOf_of_some hids]
      refine going (by rw [hpc]; rfl) rfl (by rw [hpc]; rfl) ⟨ho, ids, hids, hsort, hnew, ?_⟩
      unfold withId
      rw [if_neg hnew]
  | assign id values =>
      rw [hpc] at hs
      obtain ⟨ho, ids, hids, hsort, hnew, rfl⟩ := hs
      have halone := h.alone (show (σ.pcs i).taking = true by rw [hpc]; rfl)
      simp only [Pc.advance]
      refine h.move i (Grows.refl _) (fun k hk => getElem?_assign_of_ne _ _ (Ne.symm hk))
        (Or.inr ⟨halone, by simp, ?_⟩) (fun _ => ho) (fun ids' hids' => ?_) (fun _ _ _ _ => rfl)
        ⟨ho, ?_⟩ fun j hj hje => ⟨Or.inl rfl, ?_⟩
      · rw [idsOf_of_some hids, idsOf_of_some (getElem?_assign_self _ _ _)]
        intro x hx
        rcases List.mem_append.mp hx with hx | hx
        · exact mem_withId.mpr (Or.inr hx)
        · exact mem_withId.mpr (Or.inl (List.mem_singleton.mp hx))
      · rw [getElem?_assign_self] at hids'
        cases hids'
        exact Or.inl (sortedLT_withId hsort)
      · rw [idsOf_of_some (getElem?_assign_self _ _ _)]
        exact mem_withId.mpr (Or.inl rfl)
      · have hid := (h.apart i j (Ne.symm hj) hje.symm).2
        rw [hpc] at hid
        exact hid
  | write id => exact hpc ▸ h.write_step hsolo hpc
  | created id | unwritten id | unprocessable | failed =>
      simp only [Pc.advance]
      rw [← hpc, Function.update_eq_self]
      exact h

/-! ## 3. Runs -/

theorem Orderly.start (hw : Wf handler d s) : Orderly d posts (System.start n s) where
  home := hw.home
  opens := hw.opens
  sorted k ids hk := Or.inl (hw.sorted k ids hk)
  sound _ := trivial
  apart _ _ _ _ := ⟨Or.inl rfl, fun id hid => by cases hid⟩

theorem Orderly.noLostUpdate (h : Orderly d posts σ) : NoLostUpdate posts σ where
  distinct i j id hij hsuffix hi hj := by
    have hid := (h.apart i j hij hsuffix).2 id
    rw [hi, hj] at hid
    exact hid rfl rfl
  listed i id hi := by
    have hs := h.sound i
    rw [hi] at hs
    exact hs.2.1
  stored i id hi := by
    have hs := h.sound i
    rw [hi] at hs
    rw [pathOf_below, hs.1.lookup_below h.home (plain_toStr id)]
    exact hs.2.2

/-- **Concurrent POSTs lose no update**, in every state of every interleaving in which ids are
    taken in turn and different keys spell different directories. -/
theorem no_lost_update (hw : Wf handler d s)
    (hsolo : ∀ i j, spot d (posts i).suffix = spot d (posts j).suffix →
      (posts i).suffix = (posts j).suffix)
    {schedule : List (Fin n)} {out : List Unit}
    (hturn : Along (System.advance posts) (InTurn posts) (System.start n s) schedule)
    (hrun : run (System.advance posts) (System.start n s) schedule = .ok (σ, out)) :
    NoLostUpdate posts σ := by
  have hstep : ∀ (σ : System n) (i : Fin n) (σ' : System n) (o : Unit), Orderly d posts σ →
      InTurn posts σ i → System.advance posts σ i = .ok (σ', o) → Orderly d posts σ' := by
    intro σ i σ' o h ht hs
    cases hs
    exact orderly_step hsolo h ht
  exact (run_invariant hstep (Orderly.start hw) hturn hrun).noLostUpdate

end Invariant

/-- `POST /api/e` with a body. -/
def postE (body : String) : Post apiHandler where
  request := ask .post "/api/e" body
  suffix := "e".toList
  method := rfl
  url := by
    show apiHandler.checkRequestUrl "/api/e".toList false = some "e".toList
    decide

/-- Two of them. -/
def twoPosts (i : Fin 2) : Post apiHandler := if i = 0 then postE "A" else postE "B"

/-- Both find the entity missing, the second takes its id before the first has written, and the first
    writes before the second. -/
def overlapping : List (Fin 2) := [0, 1, 0, 0, 0, 1, 1, 1, 1, 1, 1, 1, 0, 1]

/-- `no_lost_update` for two POSTs that overlap. -/
theorem no_lost_update_two : ∃ σ out,
    run (System.advance twoPosts) (System.start 2 apiStart) overlapping = .ok (σ, out) ∧
    σ.pcs 0 = .created 1 ∧ σ.pcs 1 = .created 2 ∧ NoLostUpdate twoPosts σ := by
  have hsuffix : ∀ i, (twoPosts i).suffix = "e".toList := by decide
  have hsolo : ∀ i j, spot ["data".toList] (twoPosts i).suffix =
      spot ["data".toList] (twoPosts j).suffix → (twoPosts i).suffix = (twoPosts j).suffix :=
    fun i j _ => (hsuffix i).trans (hsuffix j).symm
  have hturn : Along (System.advance twoPosts) (InTurn twoPosts) (System.start 2 apiStart)
      overlapping := by decide
  have hpcs : (run (System.advance twoPosts) (System.start 2 apiStart) overlapping).map
      (fun v => (v.1.pcs 0, v.1.pcs 1)) = .ok (.created 1, .created 2) := by decide
  cases h : run (System.advance twoPosts) (System.start 2 apiStart) overlapping with
  | error f => exact f.elim
  | ok v =>
      rw [h] at hpcs
      obtain ⟨h0, h1⟩ := Prod.mk.inj (Except.ok.inj hpcs)
      exact ⟨v.1, v.2, rfl, h0, h1, no_lost_update (Wf.start home_apiStart) hsolo hturn h⟩

/-- **Two POSTs in turn, access by access**: both find the entity missing, both are told id 1. -/
theorem two_posts_one_id : ¬ ∀ σ out, run (System.advance twoPosts) (System.start 2 apiStart)
    [0, 1, 0, 1, 0, 1, 0, 1, 0, 1] = .ok (σ, out) → NoLostUpdate twoPosts σ := by
  intro hall
  have hpcs : (run (System.advance twoPosts) (System.start 2 apiStart)
      [0, 1, 0, 1, 0, 1, 0, 1, 0, 1]).map (fun v => (v.1.pcs 0, v.1.pcs 1)) =
      .ok (.created 1, .created 1) := by decide
  cases h : run (System.advance twoPosts) (System.start 2 apiStart)
      [0, 1, 0, 1, 0, 1, 0, 1, 0, 1] with
  | error f => exact f.elim
  | ok v =>
      rw [h] at hpcs
      obtain ⟨h0, h1⟩ := Prod.mk.inj (Except.ok.inj hpcs)
      exact (hall v.1 v.2 h).distinct 0 1 1 (by decide) (by decide) h0 h1

end Googolplex.Crud
