/-
  File:      Googolplex/Crud/Store.lean
  Subject:   WHAT THE CRUD HANDLER IS FOR: a store of entities with numbered
             bodies (`Store.step`), and that the handler is one on targets of
             the shapes `L/e` and `L/e/n` (`crud_refines_store`).

  * `Store`, `Operation`, `Reply`, `Store.step`: the abstract store, in its own
    terms. It knows neither files nor id lists.
  * `Refines`: store and handler agree. Every entity is a known key with the
    store's ids as its list, every body a file, and nothing else is there.
  * One lemma for each shape of request; the runs are `Machine.run_refines`.
-/
import Googolplex.Crud.Exits

namespace Googolplex.Crud

open Cxx Posix Posix.FileTree RequestHandler Machine

/-! ## 1. The store -/

/-- Entities, each with numbered bodies. An entity may have none. -/
abbrev Store := OrdMap Str (OrdMap Int Str)

/-- An entity's name: one path segment, neither `.` nor `..`. -/
abbrev Entity := {e : Str // Plain e}

/-- A number that fits in an `int`. -/
abbrev Id := {n : Int // intMin ≤ n ∧ n ≤ intMax}

/-- What a client can ask of a store. -/
inductive Operation where
  | post (e : Entity) (body : Str)
  | put (e : Entity) (n : Id) (body : Str)
  | list (e : Entity)
  | get (e : Entity) (n : Id)
  | delete (e : Entity) (n : Id)

/-- What a store answers. -/
inductive Reply where
  | created (n : Int)
  | updated (n : Int)
  | ids (ns : List Int)
  | body (c : Str)
  | deleted (e : Str)
  | missing

/-- The numbered bodies of an entity; an entity that is not there has none. -/
def Store.bodies (store : Store) (e : Str) : OrdMap Int Str := store[e]?.getD ∅

/-- The smallest positive number not in use. -/
noncomputable def leastFree (m : OrdMap Int Str) : Int :=
  (sInf {n : Nat | 0 < n ∧ m[(n : Int)]? = none} : Nat)

/-- One operation. A new body goes under the smallest free id, or under the id that is named; an id
    that is named may be `0` and may not be negative. -/
noncomputable def Store.step (store : Store) : Operation → Store × Reply
  | .post e body =>
    let n := leastFree (store.bodies e)
    (store.insert e ((store.bodies e).insert n body), .created n)
  | .put e n body =>
    if n.val < 0 then (store, .missing)
    else (store.insert e ((store.bodies e).insert n body),
      if (store.bodies e)[n.val]? = none then .created n else .updated n)
  | .list e =>
    match store[e.val]? with
    | some m => (store, .ids m.keys)
    | none => (store, .missing)
  | .get e n =>
    match (store.bodies e)[n.val]? with
    | some c => (store, .body c)
    | none => (store, .missing)
  | .delete e n =>
    if (store.bodies e)[n.val]? = none then (store, .missing)
    else (store.insert e ((store.bodies e).erase n.val), .deleted e)

/-- The status a reply is sent with. -/
def Reply.status : Reply → Status
  | .created _ => .created
  | .missing => .notFound
  | _ => .ok

/-- The body a reply is sent with. -/
def Reply.text : Reply → Str
  | .created n => storedBody False n
  | .updated n => storedBody True n
  | .ids ns => listBody ns
  | .body c => c
  | .deleted e => "Successfully deleted file at /".toList ++ e ++ ".\n".toList
  | .missing =>
    "<html><head><title>Not Found</title></head><body><h1>404 Not Found</h1></body></html>".toList

theorem storedBody_of {listed : Prop} [Decidable listed] (h : listed) {n : Int} :
    storedBody listed n = (Reply.updated n).text := by
  unfold Reply.text storedBody
  rw [if_pos h, if_pos trivial]

theorem storedBody_of_not {listed : Prop} [Decidable listed] (h : ¬ listed) {n : Int} :
    storedBody listed n = (Reply.created n).text := by
  unfold Reply.text storedBody
  rw [if_neg h, if_neg not_false]

/-- An id that is created fits in an `int`. -/
def Reply.Fits (reply : Reply) : Prop := ∀ n, reply = .created n → n ≤ intMax

/-- The response carries the reply. -/
def Reply.Answers (reply : Reply) (r : Response) : Prop :=
  r.result = reply.status ∧ r.body = reply.text

/-! ### The ids of an entity -/

section Keys

variable {m : OrdMap Int Str} {n : Int}

theorem mem_keys_iff {i : Int} : i ∈ m.keys ↔ m[i]? ≠ none := by
  rw [Std.ExtTreeMap.mem_keys, Std.ExtTreeMap.mem_iff_isSome_getElem?, Option.isSome_iff_ne_none]

theorem sortedLT_keys (m : OrdMap Int Str) : m.keys.SortedLT := by
  have h : m.keys.Pairwise (· < ·) :=
    Std.ExtTreeMap.ordered_keys.imp fun h => Int.compare_eq_lt.mp h
  exact h.sortedLT

theorem keys_insert (m : OrdMap Int Str) (n : Int) (c : Str) :
    (m.insert n c).keys = withId n m.keys := by
  refine (sortedLT_keys _).eq_of_mem_iff (sortedLT_withId (sortedLT_keys m)) fun i => ?_
  rw [mem_keys_iff, getElem?_assign, mem_withId, mem_keys_iff]
  by_cases h : n = i
  · simp [h]
  · rw [if_neg h]
    constructor
    · exact Or.inr
    · intro hi
      exact hi.resolve_left fun e => h e.symm

theorem keys_erase (m : OrdMap Int Str) (n : Int) : (m.erase n).keys = m.keys.filter (· ≠ n) := by
  have hs : (m.keys.filter (· ≠ n)).SortedLT :=
    ((sortedLT_keys m).pairwise.filter _).sortedLT
  refine (sortedLT_keys _).eq_of_mem_iff hs fun i => ?_
  rw [mem_keys_iff, getElem?_remove, List.mem_filter, mem_keys_iff]
  by_cases h : n = i
  · simp [h]
  · simp [h, Ne.symm h]

/-- **The smallest free number is the one all smaller of which are taken.** -/
theorem leastFree_eq (h1 : 1 ≤ n) (hfree : m[n]? = none)
    (hleast : ∀ j, 1 ≤ j → j < n → m[j]? ≠ none) : leastFree m = n := by
  obtain ⟨k, rfl⟩ := Int.eq_ofNat_of_zero_le (show 0 ≤ n by omega)
  unfold leastFree
  congr 1
  refine le_antisymm (Nat.sInf_le ⟨by omega, hfree⟩) (le_csInf ⟨k, by omega, hfree⟩ ?_)
  intro j ⟨hj, hnone⟩
  by_contra hlt
  exact hleast j (by omega) (by omega) hnone

/-- There always is a free number: an entity has finitely many bodies. -/
theorem leastFree_free (m : OrdMap Int Str) : 1 ≤ leastFree m ∧ m[leastFree m]? = none := by
  have hne : {n : Nat | 0 < n ∧ m[(n : Int)]? = none}.Nonempty := by
    obtain ⟨n, hn⟩ := Infinite.exists_notMem_finset (insert 0 (m.keys.map Int.toNat).toFinset)
    simp only [Finset.mem_insert, List.mem_toFinset, List.mem_map, not_or, not_exists, not_and] at hn
    refine ⟨n, Nat.pos_of_ne_zero hn.1, ?_⟩
    by_contra hthere
    exact hn.2 n (mem_keys_iff.mpr hthere) (Int.toNat_natCast n)
  obtain ⟨hpos, hnone⟩ := Nat.sInf_mem hne
  unfold leastFree
  exact ⟨by omega, hnone⟩

end Keys

/-! ## 2. Store and handler agree -/

/-- The requests for an operation, on the location of the handler. -/
def Operation.Requests (handler : RequestHandler) : Operation → Request → Prop
  | .post e body, request =>
    request.method = .post ∧ request.target = handler.prefix_ ++ '/' :: e.val ∧ request.body = body
  | .put e n body, request =>
    request.method = .put ∧
      request.target = handler.prefix_ ++ '/' :: (e.val ++ '/' :: toStr n.val) ∧
      request.body = body
  | .list e, request =>
    request.method = .get ∧ request.target = handler.prefix_ ++ '/' :: e.val
  | .get e n, request =>
    request.method = .get ∧
      request.target = handler.prefix_ ++ '/' :: (e.val ++ '/' :: toStr n.val)
  | .delete e n, request =>
    request.method = .delete ∧
      request.target = handler.prefix_ ++ '/' :: (e.val ++ '/' :: toStr n.val)

/-- The handler holds what the store holds. -/
structure Refines (handler : RequestHandler) (d : Path) (store : Store) (s : CrudState) : Prop where
  wf : Wf handler d s
  unknown : ∀ e, Plain e → store[e]? = none →
    s.fileToId[e]? = none ∧ s.files.nodes[e :: d]? = none
  known : ∀ e (m : OrdMap Int Str), Plain e → store[e]? = some m → s.fileToId[e]? = some m.keys
  files : ∀ e (n : Int), Plain e →
    s.files.nodes[toStr n :: e :: d]? = (store.bodies e)[n]?.map Node.file

section Refines

variable {handler : RequestHandler} {d : Path} {store : Store} {s s' : CrudState}
  {request : Request} {r : Response}

/-- The suffix of a target `L/e`. -/
theorem url_entity (e : Entity) (forGet : Bool) :
    handler.checkRequestUrl (handler.prefix_ ++ '/' :: e.val) forGet = some e.val := by
  refine checkRequestUrl_below handler forGet e.prop.1 fun h hlast => ?_
  exact e.prop.2.2.2 (hlast ▸ List.getLast_mem h)

/-- The suffix of a target `L/e/n`. -/
theorem url_id (e : Entity) (n : Id) (forGet : Bool) :
    handler.checkRequestUrl (handler.prefix_ ++ '/' :: (e.val ++ '/' :: toStr n.val)) forGet =
      some (e.val ++ '/' :: toStr n.val) :=
  checkRequestUrl_named handler e.val forGet (toStr_ne_nil n.val) (plain_toStr n.val).2.2.2

theorem bodies_of_some {e : Str} {m : OrdMap Int Str} (h : store[e]? = some m) :
    store.bodies e = m := by
  unfold Store.bodies
  rw [h]
  rfl

theorem bodies_of_none {e : Str} (h : store[e]? = none) : store.bodies e = ∅ := by
  unfold Store.bodies
  rw [h]
  rfl

theorem bodies_insert (store : Store) (e k : Str) (m : OrdMap Int Str) :
    Store.bodies (store.insert e m) k = if e = k then m else store.bodies k := by
  unfold Store.bodies
  rw [getElem?_assign]
  split <;> rfl

/-- An entity of the store lists the store's ids. -/
theorem Refines.ids_eq (hR : Refines handler d store s) {e : Str} (he : Plain e) :
    idsOf s.fileToId e = (store.bodies e).keys := by
  cases h : store[e]? with
  | none =>
      rw [idsOf_of_none (hR.unknown e he h).1, bodies_of_none h]
      rfl
  | some m => rw [idsOf_of_some (hR.known e m he h), bodies_of_some h]

theorem Refines.mem_idsOf (hR : Refines handler d store s) {e : Str} (he : Plain e) {n : Int} :
    n ∈ idsOf s.fileToId e ↔ (store.bodies e)[n]? ≠ none := by
  rw [hR.ids_eq he, mem_keys_iff]

/-- Entities of the store are open directories, other names are free. -/
theorem Refines.opens (hR : Refines handler d store s) {e : Str} (he : Plain e)
    (h : store[e]? ≠ none) : Opens s.files d e := by
  obtain ⟨m, hm⟩ := Option.ne_none_iff_exists'.mp h
  exact hR.wf.opens e m.keys (hR.known e m he hm)

/-- No directory is where a body goes. -/
theorem Refines.not_isDir (hR : Refines handler d store s) {e : Str} (he : Plain e) (n : Int) :
    ¬ s.files.IsDir (toStr n :: e :: d) := by
  intro hd
  unfold IsDir at hd
  rw [hR.files e n he] at hd
  cases hb : (store.bodies e)[n]? <;> (rw [hb] at hd; cases hd)

/-- What hangs in the directory of an entity that is not there: nothing. -/
theorem Refines.bodies_of_unknown (hR : Refines handler d store s) {e : Str}
    (he : Plain e) (h : s.fileToId[e]? = none) : store[e]? = none := by
  cases hs : store[e]? with
  | none => rfl
  | some m =>
      rw [hR.known e m he hs] at h
      cases h

/-- **Storing a body** keeps the agreement. -/
theorem Refines.write (hR : Refines handler d store s) {e : Str} (he : Plain e) {n : Int}
    {c : Str} {files : FileTree} (hwf : Wf handler d ⟨register s.fileToId e n, files⟩)
    (hnodes : ∀ q, files.nodes[q]? = if toStr n :: e :: d = q then some (.file c)
      else if e :: d = q then some .dir else s.files.nodes[q]?) :
    Refines handler d (store.insert e ((store.bodies e).insert n c))
      ⟨register s.fileToId e n, files⟩ where
  wf := hwf
  unknown k hk hnone := by
    rw [getElem?_assign] at hnone
    split at hnone
    · cases hnone
    · rename_i hne
      obtain ⟨h1, h2⟩ := hR.unknown k hk hnone
      refine ⟨?_, ?_⟩
      · rw [getElem?_register, if_neg hne]
        exact h1
      · rw [hnodes, if_neg, if_neg]
        · exact h2
        · intro heq
          exact hne (List.cons.inj heq).1
        · intro heq
          have := congrArg List.length heq
          simp at this
  known k m hk hsome := by
    rw [getElem?_assign] at hsome
    rw [getElem?_register]
    split at hsome
    · cases hsome
      rename_i heq
      rw [if_pos heq, hR.ids_eq he, keys_insert]
    · rename_i hne
      rw [if_neg hne]
      exact hR.known k m hk hsome
  files k i hk := by
    rw [hnodes, bodies_insert]
    have hdir : ¬ (e :: d = toStr i :: k :: d) := by
      intro heq
      have := congrArg List.length heq
      simp at this
    rw [if_neg hdir]
    by_cases hek : e = k
    · subst hek
      rw [if_pos rfl, getElem?_assign]
      by_cases hni : n = i
      · subst hni
        rw [if_pos rfl, if_pos rfl]
        rfl
      · rw [if_neg, if_neg hni]
        · exact hR.files e i he
        · intro heq
          exact hni (toStr_injective (List.cons.inj heq).1)
    · rw [if_neg, if_neg hek]
      · exact hR.files k i hk
      · intro heq
        simp only [List.cons.injEq] at heq
        exact hek heq.2.1

/-- **Deleting a body** keeps the agreement. -/
theorem Refines.erase (hR : Refines handler d store s) {e : Str} (he : Plain e) {n : Int}
    {files : FileTree}
    (hwf : Wf handler d ⟨s.fileToId.insert e ((idsOf s.fileToId e).filter (· ≠ n)), files⟩)
    (hnodes : ∀ q, files.nodes[q]? = if toStr n :: e :: d = q then none else s.files.nodes[q]?) :
    Refines handler d (store.insert e ((store.bodies e).erase n))
      ⟨s.fileToId.insert e ((idsOf s.fileToId e).filter (· ≠ n)), files⟩ where
  wf := hwf
  unknown k hk hnone := by
    rw [getElem?_assign] at hnone
    split at hnone
    · cases hnone
    · rename_i hne
      obtain ⟨h1, h2⟩ := hR.unknown k hk hnone
      refine ⟨?_, ?_⟩
      · rw [getElem?_assign, if_neg hne]
        exact h1
      · rw [hnodes, if_neg]
        · exact h2
        · intro heq
          have := congrArg List.length heq
          simp at this
  known k m hk hsome := by
    rw [getElem?_assign] at hsome ⊢
    split at hsome
    · cases hsome
      rename_i heq
      rw [if_pos heq, hR.ids_eq he, keys_erase]
    · rename_i hne
      rw [if_neg hne]
      exact hR.known k m hk hsome
  files k i hk := by
    rw [hnodes, bodies_insert]
    by_cases hek : e = k
    · subst hek
      rw [if_pos rfl, getElem?_remove]
      by_cases hni : n = i
      · subst hni
        rw [if_pos rfl, if_pos rfl]
        rfl
      · rw [if_neg, if_neg hni]
        · exact hR.files e i he
        · intro heq
          exact hni (toStr_injective (List.cons.inj heq).1)
    · rw [if_neg, if_neg hek]
      · exact hR.files k i hk
      · intro heq
        simp only [List.cons.injEq] at heq
        exact hek heq.2.1

/-! ## 3. One request of each shape -/

/-- An entity's directory is there or can be made: it is never refused. -/
theorem Refines.can_make (hR : Refines handler d store s) {e : Str} (he : Plain e)
    (hk : s.fileToId[e]? = none) : s.files.mkdir (pathOf handler e) ≠ none := by
  have hfree := (hR.unknown e he (hR.bodies_of_unknown he hk)).2
  obtain ⟨files, hmk⟩ := mkdir_plain hR.wf.home he hfree
  unfold pathOf
  rw [hmk]
  simp

/-- A plain name below an entity that is there leads to its body. -/
theorem Refines.lookup_id (hR : Refines handler d store s) {e : Str} (he : Plain e) (n : Int) :
    s.files.lookup (pathOf handler (e ++ '/' :: toStr n)) =
      (store.bodies e)[n]?.map Node.file := by
  cases h : store[e]? with
  | none =>
      -- the directory is missing, so the walk stops there
      obtain ⟨_, hnode⟩ := hR.unknown e he h
      rw [lookup_pathOf hR.wf.home, segments_append, segments_of_not_mem (plain_toStr n).2.2.2,
        walk_concat, walk_plain hR.wf.home he, Option.bind_some, if_neg, bodies_of_none h]
      · rw [Std.ExtTreeMap.getElem?_empty]
        rfl
      · intro hd
        unfold IsDir at hd
        rw [hnode] at hd
        cases hd
  | some m =>
      have ho : Opens s.files d e := hR.opens he (by rw [h]; simp)
      rw [ho.lookup_below hR.wf.home (plain_toStr n), spot_plain d he]
      exact hR.files e n he

theorem post_refines (hR : Refines handler d store s) (e : Entity) (body : Str)
    (hq : (Operation.post e body).Requests handler request)
    (hx : Exit handler d s request s' r) :
    Refines handler d (store.step (.post e body)).1 s' ∧
      (store.step (.post e body)).2.Answers r := by
  obtain ⟨hm, htarget, hbody⟩ := hq
  have hwf : Wf handler d s' := hx.wf hR.wf
  have hurl : handler.checkRequestUrl request.target false = some e.val := by
    rw [htarget]
    exact url_entity e false
  cases hx with
  | refused h =>
      cases h with
      | badUrl ht => rw [hurl] at ht; cases ht
      | badMethod hm' => exact absurd hm hm'.1
      | noDirectory ht hm' hk ho hmk =>
          rw [hurl] at ht
          cases ht
          rw [hm] at hm'
          rcases hm' with ⟨_, rfl⟩ | ⟨hm', _⟩
          · exact absurd hmk (hR.can_make e.prop hk)
          · cases hm'
      | absent ht hm' => rw [hm] at hm'; rcases hm' with hm' | hm' <;> cases hm'
      | noNumber ht hm' | isDirectory ht hm' | noId ht hm' | unknown ht hm' =>
          rw [hm] at hm'; cases hm'
  | listed hm' | read hm' | bare hm' | deleted hm' => rw [hm] at hm'; cases hm'
  | blocked hn ho hd =>
      cases hn with
      | put hm' => rw [hm] at hm'; cases hm'
      | post hm' ht hid =>
          rw [hurl] at ht
          cases ht
          rw [spot_plain d e.prop, ← toStr_natCast] at hd
          exact absurd hd (hR.not_isDir e.prop _)
  | @stored e' x n files r hn hdir hfree hg ho hnodes hr hb =>
      cases hn with
      | put hm' => rw [hm] at hm'; cases hm'
      | post hm' ht hid =>
          rw [hurl] at ht
          cases ht
          obtain ⟨h1, _, hnew, hleast, _⟩ := getNextId_ok (hR.wf.sorted_idsOf e.val) hid
          have hfree : (store.bodies e.val)[(n : Int)]? = none := by
            by_contra hne
            exact hnew ((hR.mem_idsOf e.prop).mpr hne)
          have hn : leastFree (store.bodies e.val) = n :=
            leastFree_eq h1 hfree fun j hj hlt => (hR.mem_idsOf e.prop).mp (hleast j hj hlt)
          simp only [Store.step, hn]
          rw [← hbody]
          refine ⟨hR.write e.prop hwf fun q => ?_, ?_, ?_⟩
          · rw [hnodes, spot_plain d e.prop, toStr_natCast]
          · rw [hr, if_neg hnew]
            rfl
          · exact hb.trans (storedBody_of_not hnew)

theorem put_refines (hR : Refines handler d store s) (e : Entity) (n : Id) (body : Str)
    (hq : (Operation.put e n body).Requests handler request)
    (hx : Exit handler d s request s' r) :
    Refines handler d (store.step (.put e n body)).1 s' ∧
      (store.step (.put e n body)).2.Answers r := by
  obtain ⟨hm, htarget, hbody⟩ := hq
  have hwf : Wf handler d s' := hx.wf hR.wf
  have hslash : '/' ∉ toStr n.val := (plain_toStr n.val).2.2.2
  have hurl : handler.checkRequestUrl request.target false = some (e.val ++ '/' :: toStr n.val) := by
    rw [htarget]
    exact url_id e n false
  -- a request that names a file names this one
  have hnames : ∀ {e' : Str} {x : Name} {k : Nat}, Names handler s request e' x k →
      e' = e.val ∧ x = toStr n.val ∧ n.val = k := by
    intro e' x k hn
    cases hn with
    | post hm' => rw [hm] at hm'; cases hm'
    | put hm' ht hx hd hv =>
        have hs : '/' ∉ x := (plain_of_digits hx hd).2.2.2
        obtain ⟨he, hx⟩ := cut_last hs hslash (Option.some.inj (ht.symm.trans hurl))
        rw [hx, stoi_toStr n.prop.1 n.prop.2] at hv
        exact ⟨he, hx, Except.ok.inj hv⟩
  cases hx with
  | refused h hr hb =>
      cases h with
      | badUrl ht => rw [hurl] at ht; cases ht
      | badMethod hm' => exact absurd hm hm'.2.2.1
      | noDirectory ht hm' hk ho hmk =>
          rw [hurl] at ht
          cases ht
          rw [hm, entityOf_below hslash] at hm'
          rcases hm' with ⟨hm', _⟩ | ⟨_, rfl⟩
          · cases hm'
          · exact absurd hmk (hR.can_make e.prop hk)
      | absent ht hm' => rw [hm] at hm'; rcases hm' with hm' | hm' <;> cases hm'
      | isDirectory ht hm' | noId ht hm' | unknown ht hm' => rw [hm] at hm'; cases hm'
      | noNumber ht hm' hno =>
          rw [hurl] at ht
          cases ht
          rw [idNameOf_below hslash] at hno
          have hneg : n.val < 0 := by
            by_contra hpos
            obtain ⟨k, hk⟩ := Int.eq_ofNat_of_zero_le (show 0 ≤ n.val by omega)
            rw [hk, toStr_natCast] at hno
            exact hno ⟨decimal_ne_nil k, List.all_eq_true.mpr fun _ => isDigit_of_mem_decimal⟩
          simp only [Store.step, if_pos hneg]
          exact ⟨hR, hr, hb⟩
  | listed hm' | read hm' | deleted hm' => rw [hm] at hm'; cases hm'
  | bare hm' ht hne hdig =>
      rw [hurl] at ht
      cases ht
      have hd : ('/' : Char).isDigit = true :=
        hdig '/' (List.mem_append_right _ List.mem_cons_self)
      exact absurd hd (by decide)
  | blocked hn ho hd =>
      obtain ⟨rfl, rfl, _⟩ := hnames hn
      rw [spot_plain d e.prop] at hd
      exact absurd hd (hR.not_isDir e.prop _)
  | @stored e' x k files r hn hdir hfree hg ho hnodes hr hb =>
      obtain ⟨rfl, rfl, hk⟩ := hnames hn
      have hpos : ¬ n.val < 0 := by omega
      rw [← hk] at hr hb hwf ⊢
      simp only [Store.step, if_neg hpos]
      rw [← hbody]
      refine ⟨hR.write e.prop hwf fun q => ?_, ?_⟩
      · rw [hnodes, spot_plain d e.prop]
      · by_cases hmem : n.val ∈ idsOf s.fileToId e.val
        · rw [if_neg ((hR.mem_idsOf e.prop).mp hmem)]
          refine ⟨?_, ?_⟩
          · rw [hr, if_pos hmem]
            rfl
          · exact hb.trans (storedBody_of hmem)
        · have hnone : (store.bodies e.val)[n.val]? = none := by
            by_contra hne
            exact hmem ((hR.mem_idsOf e.prop).mpr hne)
          rw [if_pos hnone]
          refine ⟨?_, ?_⟩
          · rw [hr, if_neg hmem]
            rfl
          · exact hb.trans (storedBody_of_not hmem)

theorem list_refines (hR : Refines handler d store s) (e : Entity)
    (hq : (Operation.list e).Requests handler request) (hx : Exit handler d s request s' r) :
    Refines handler d (store.step (.list e)).1 s' ∧ (store.step (.list e)).2.Answers r := by
  obtain ⟨hm, htarget⟩ := hq
  have hurl : handler.checkRequestUrl request.target false = some e.val := by
    rw [htarget]
    exact url_entity e false
  have hlookup : s.files.lookup (pathOf handler e.val) = s.files.nodes[e.val :: d]? :=
    lookup_plain hR.wf.home e.prop
  cases h : store[e.val]? with
  | none =>
      have hnone := (hR.unknown e.val e.prop h).2
      simp only [Store.step, h]
      cases hx with
      | refused href hr hb =>
          cases href with
          | badUrl ht => rw [hurl] at ht; cases ht
          | badMethod hm' => exact absurd hm hm'.2.1
          | noDirectory ht hm' => rw [hm] at hm'; rcases hm' with ⟨hm', _⟩ | ⟨hm', _⟩ <;> cases hm'
          | absent => exact ⟨hR, hr, hb⟩
          | noNumber ht hm' | isDirectory ht hm' | noId ht hm' | unknown ht hm' =>
              rw [hm] at hm'; cases hm'
      | listed hm' ht ho =>
          rw [hurl] at ht
          cases ht
          have hdir := (lookup_dir hR.wf.home).mpr ho
          rw [hlookup, hnone] at hdir
          cases hdir
      | read hm' ht hw hq =>
          rw [hurl] at ht
          cases ht
          rw [walk_plain hR.wf.home e.prop] at hw
          cases hw
          rw [hnone] at hq
          cases hq
      | stored hn | blocked hn => rcases hn.target with ⟨hm', _⟩ | ⟨hm', _⟩ <;> simp [hm] at hm'
      | bare hm' | deleted hm' => rw [hm] at hm'; cases hm'
  | some m =>
      have ho : Opens s.files d e.val := hR.opens e.prop (by rw [h]; simp)
      have hdir : s.files.nodes[e.val :: d]? = some .dir :=
        hlookup.symm.trans ((lookup_dir hR.wf.home).mpr ho)
      have hids : idsOf s.fileToId e.val = m.keys := by rw [hR.ids_eq e.prop, bodies_of_some h]
      simp only [Store.step, h]
      cases hx with
      | refused href hr hb =>
          cases href with
          | badUrl ht => rw [hurl] at ht; cases ht
          | badMethod hm' => exact absurd hm hm'.2.1
          | noDirectory ht hm' => rw [hm] at hm'; rcases hm' with ⟨hm', _⟩ | ⟨hm', _⟩ <;> cases hm'
          | absent ht hm' hl =>
              rw [hurl] at ht
              cases ht
              rw [hlookup, hdir] at hl
              cases hl
          | noNumber ht hm' | isDirectory ht hm' | noId ht hm' | unknown ht hm' =>
              rw [hm] at hm'; cases hm'
      | listed hm' ht _ hr hb =>
          rw [hurl] at ht
          cases ht
          rw [hids] at hb ⊢
          rw [assign_same (hR.known e.val m e.prop h)]
          exact ⟨hR, hr, hb⟩
      | read hm' ht hw hq =>
          rw [hurl] at ht
          cases ht
          rw [walk_plain hR.wf.home e.prop] at hw
          cases hw
          rw [hdir] at hq
          cases hq
      | stored hn | blocked hn => rcases hn.target with ⟨hm', _⟩ | ⟨hm', _⟩ <;> simp [hm] at hm'
      | bare hm' | deleted hm' => rw [hm] at hm'; cases hm'

theorem get_refines (hR : Refines handler d store s) (e : Entity) (n : Id)
    (hq : (Operation.get e n).Requests handler request) (hx : Exit handler d s request s' r) :
    Refines handler d (store.step (.get e n)).1 s' ∧ (store.step (.get e n)).2.Answers r := by
  obtain ⟨hm, htarget⟩ := hq
  have hurl : handler.checkRequestUrl request.target false = some (e.val ++ '/' :: toStr n.val) := by
    rw [htarget]
    exact url_id e n false
  have hlookup := hR.lookup_id e.prop n.val
  cases hx with
  | refused href hr hb =>
      cases href with
      | badUrl ht => rw [hurl] at ht; cases ht
      | badMethod hm' => exact absurd hm hm'.2.1
      | noDirectory ht hm' => rw [hm] at hm'; rcases hm' with ⟨hm', _⟩ | ⟨hm', _⟩ <;> cases hm'
      | absent ht hm' hl =>
          rw [hurl] at ht
          cases ht
          rw [hlookup, Option.map_eq_none_iff] at hl
          simp only [Store.step, hl]
          exact ⟨hR, hr, hb⟩
      | noNumber ht hm' | isDirectory ht hm' | noId ht hm' | unknown ht hm' =>
          rw [hm] at hm'; cases hm'
  | listed hm' ht ho =>
      rw [hurl] at ht
      cases ht
      have hdir := (lookup_dir hR.wf.home).mpr ho
      rw [hlookup, Option.map_eq_some_iff] at hdir
      obtain ⟨c, _, hc⟩ := hdir
      cases hc
  | @read t c q r hm' ht hw hq hr hb =>
      rw [hurl] at ht
      cases ht
      rw [lookup_pathOf hR.wf.home, hw, Option.bind_some, hq] at hlookup
      obtain ⟨c', hc', hfile⟩ := Option.map_eq_some_iff.mp hlookup.symm
      cases hfile
      simp only [Store.step, hc']
      exact ⟨hR, hr, hb⟩
  | stored hn | blocked hn => rcases hn.target with ⟨hm', _⟩ | ⟨hm', _⟩ <;> simp [hm] at hm'
  | bare hm' | deleted hm' => rw [hm] at hm'; cases hm'

theorem delete_refines (hR : Refines handler d store s) (e : Entity) (n : Id)
    (hq : (Operation.delete e n).Requests handler request)
    (hx : Exit handler d s request s' r) :
    Refines handler d (store.step (.delete e n)).1 s' ∧
      (store.step (.delete e n)).2.Answers r := by
  obtain ⟨hm, htarget⟩ := hq
  have hwf : Wf handler d s' := hx.wf hR.wf
  have hslash : '/' ∉ toStr n.val := (plain_toStr n.val).2.2.2
  have hurl : handler.checkRequestUrl request.target false = some (e.val ++ '/' :: toStr n.val) := by
    rw [htarget]
    exact url_id e n false
  have hlookup := hR.lookup_id e.prop n.val
  cases hx with
  | refused href hr hb =>
      cases href with
      | badUrl ht => rw [hurl] at ht; cases ht
      | badMethod hm' => exact absurd hm hm'.2.2.2
      | noDirectory ht hm' => rw [hm] at hm'; rcases hm' with ⟨hm', _⟩ | ⟨hm', _⟩ <;> cases hm'
      | absent ht hm' hl =>
          rw [hurl] at ht
          cases ht
          rw [hlookup, Option.map_eq_none_iff] at hl
          simp only [Store.step, if_pos hl]
          exact ⟨hR, hr, hb⟩
      | noNumber ht hm' => rw [hm] at hm'; cases hm'
      | isDirectory ht hm' ho =>
          rw [hurl] at ht
          cases ht
          have hdir := (lookup_dir hR.wf.home).mpr ho
          rw [hlookup, Option.map_eq_some_iff] at hdir
          obtain ⟨c, _, hc⟩ := hdir
          cases hc
      | noId ht hm' hv =>
          rw [hurl] at ht
          cases ht
          rw [idNameOf_below hslash, stoi_toStr n.prop.1 n.prop.2] at hv
          cases hv
      | unknown ht hm' hk =>
          rw [hurl] at ht
          cases ht
          rw [entityOf_below hslash] at hk
          have hnone : (store.bodies e.val)[n.val]? = none := by
            rw [bodies_of_none (hR.bodies_of_unknown e.prop hk), Std.ExtTreeMap.getElem?_empty]
          simp only [Store.step, if_pos hnone]
          exact ⟨hR, hr, hb⟩
  | listed hm' | read hm' | bare hm' => rw [hm] at hm'; cases hm'
  | stored hn | blocked hn => rcases hn.target with ⟨hm', _⟩ | ⟨hm', _⟩ <;> simp [hm] at hm'
  | @deleted e' x v ids files r hm' ht hx hv hk hf hg hnodes hr hb =>
      obtain ⟨he, hid⟩ := cut_last hx.2.2.2 hslash (Option.some.inj (ht.symm.trans hurl))
      subst he hid
      rw [stoi_toStr n.prop.1 n.prop.2] at hv
      cases hv
      have hthere : (store.bodies e.val)[n.val]? ≠ none := by
        intro hnone
        obtain ⟨c, hc⟩ := hf
        rw [spot_plain d e.prop, hR.files e.val n.val e.prop, hnone] at hc
        cases hc
      simp only [Store.step, if_neg hthere]
      rw [← idsOf_of_some hk] at hwf ⊢
      refine ⟨hR.erase e.prop hwf fun q => ?_, hr, hb⟩
      rw [hnodes, spot_plain d e.prop]

/-- **One answered request is one operation of the store.** -/
theorem serve_refines (store : Store) (s : CrudState) (op : Operation) (request : Request)
    (s' : CrudState) (r : Response) (hR : Refines handler d store s)
    (hq : op.Requests handler request)
    (h : serve handler Disk.reliable s request = .ok (s', r)) :
    Refines handler d (store.step op).1 s' ∧ (store.step op).2.Answers r := by
  have hx := serve_exit hR.wf h
  cases op with
  | post e body => exact post_refines hR e body hq hx
  | put e n body => exact put_refines hR e n body hq hx
  | list e => exact list_refines hR e hq hx
  | get e n => exact get_refines hR e n hq hx
  | delete e n => exact delete_refines hR e n hq hx

/-- **A request is answered** unless it would create an id that is no `int`. -/
theorem serve_answers (store : Store) (s : CrudState) (op : Operation) (request : Request)
    (hR : Refines handler d store s) (hq : op.Requests handler request)
    (hfit : (store.step op).2.Fits) : ∃ s' r, serve handler Disk.reliable s request = .ok (s', r) := by
  cases h : serve handler Disk.reliable s request with
  | ok v => exact ⟨v.1, v.2, rfl⟩
  | error f =>
      exfalso
      rcases serve_error h with ⟨_, hm, t, ht, hid⟩ | ⟨_, hm, t, ht, _, g, hv⟩
      · cases op with
        | post e body =>
            obtain ⟨_, htarget, _⟩ := hq
            rw [htarget, url_entity e false] at ht
            cases ht
            obtain ⟨h1, hfree⟩ := leastFree_free (store.bodies e.val)
            have hunlisted : leastFree (store.bodies e.val) ∉ idsOf s.fileToId e.val := fun hmem =>
              (hR.mem_idsOf e.prop).mp hmem hfree
            obtain ⟨v, hv⟩ := getNextId_total (hR.wf.sorted_idsOf e.val) h1 (hfit _ rfl) hunlisted
            rw [hid] at hv
            cases hv
        | put | list | get | delete => have := hq.1; rw [hm] at this; cases this
      · cases op with
        | put e n body =>
            obtain ⟨_, htarget, _⟩ := hq
            rw [htarget, url_id e n false] at ht
            cases ht
            rw [idNameOf_below (plain_toStr n.val).2.2.2, stoi_toStr n.prop.1 n.prop.2] at hv
            cases hv
        | post | list | get | delete => have := hq.1; rw [hm] at this; cases this

/-! ## 4. Runs -/

/-- With nothing in the data directory the handler starts as the empty store. -/
theorem Refines.start {files : FileTree} (hh : Home handler files d)
    (hempty : ∀ n, files.nodes[n :: d]? = none) : Refines handler d ∅ ⟨∅, files⟩ where
  wf := Wf.start hh
  unknown e _ _ := ⟨Std.ExtTreeMap.getElem?_empty, hempty e⟩
  known e m _ h := by rw [Std.ExtTreeMap.getElem?_empty] at h; cases h
  files e n _ := by
    rw [bodies_of_none Std.ExtTreeMap.getElem?_empty, Std.ExtTreeMap.getElem?_empty]
    cases h : files.nodes[toStr n :: e :: d]? with
    | none => rfl
    | some x =>
        -- what is below `e` hangs in a directory at `e`
        have hdir := files.parentDir (toStr n) (e :: d) (by rw [h]; simp)
        rw [hempty e] at hdir
        cases hdir

/-- The replies of the empty store to a list of operations. -/
noncomputable def Store.replies (ops : List Operation) : List Reply :=
  (specRun Store.step (∅ : Store) ops).2

/-- **The CRUD handler is the store.** From an empty data directory every list of requests of the
    store's shapes is answered, with the store's replies, as long as the ids the store creates fit
    in an `int`. -/
theorem crud_refines_store {files : FileTree} (hh : Home handler files d)
    (hempty : ∀ n, files.nodes[n :: d]? = none) {ops : List Operation} {requests : List Request}
    (hq : List.Forall₂ (Operation.Requests handler) ops requests)
    (hfit : ∀ reply ∈ Store.replies ops, reply.Fits) :
    ∃ s' responses, run (serve handler Disk.reliable) ⟨∅, files⟩ requests = .ok (s', responses) ∧
      List.Forall₂ Reply.Answers (Store.replies ops) responses := by
  have hstart := Refines.start hh hempty
  obtain ⟨s', responses, hrun⟩ := run_answers serve_refines serve_answers hstart hq hfit
  exact ⟨s', responses, hrun, (run_refines serve_refines hstart hq hrun).2⟩

end Refines

/-! ### The bound on the ids -/

/-- `/api/e`. -/
def entityE : Entity := ⟨"e".toList, by decide⟩

theorem apiStart_empty (n : Name) : apiStart.files.nodes[n :: ["data".toList]]? = none := by
  refine (put_nodes "data".toList [] .dir FileTree.bare.isDir_root (fun _ => rfl) _).trans ?_
  rw [if_neg (by simp), bare_nodes]

/-- `crud_refines_store` for a POST and a GET of what it stored. -/
theorem crud_refines_store_two : ∃ s' responses,
    run (serve apiHandler Disk.reliable) apiStart
      [ask .post "/api/e" "A", ask .get "/api/e/1" ""] = .ok (s', responses) ∧
    List.Forall₂ Reply.Answers
      (Store.replies [.post entityE "A".toList, .get entityE ⟨1, by decide⟩]) responses := by
  refine crud_refines_store home_apiStart apiStart_empty ?_ ?_
  · refine .cons ⟨rfl, rfl, rfl⟩ (.cons ⟨rfl, ?_⟩ .nil)
    show "/api/e/1".toList = "/api".toList ++ '/' :: ("e".toList ++ '/' :: toStr 1)
    decide
  · have hfirst : leastFree (Store.bodies ∅ entityE) = 1 :=
      leastFree_eq (le_refl 1) rfl fun j hj hlt => absurd hlt (by omega)
    intro reply hreply n hn
    subst hn
    simp only [Store.replies, specRun, Store.step, hfirst] at hreply
    rcases List.mem_cons.mp hreply with h | h
    · cases h
      decide
    · rcases List.mem_singleton.mp h with h
      split at h <;> cases h

/-- Posts to one entity fill its ids from below. -/
theorem posts_bodies (e : Entity) (b : Str) (k : Nat) : ∀ (store : Store) (j : Nat),
    (∀ i, (store.bodies e)[i]? ≠ none ↔ 1 ≤ i ∧ i ≤ (j : Int)) →
    ∀ i, (Store.bodies (specRun Store.step store (List.replicate k (.post e b))).1 e)[i]? ≠ none ↔
      1 ≤ i ∧ i ≤ ((j + k : Nat) : Int) := by
  induction k with
  | zero => exact fun store j h => h
  | succ k ih =>
      intro store j h
      have hnext : leastFree (store.bodies e) = (j + 1 : Nat) := by
        refine leastFree_eq (by omega) ?_ fun i h1 h2 => (h i).mpr ⟨h1, by omega⟩
        by_contra hthere
        have := (h _).mp hthere
        omega
      have hstep : ∀ i, (Store.bodies (store.step (.post e b)).1 e)[i]? ≠ none ↔
          1 ≤ i ∧ i ≤ ((j + 1 : Nat) : Int) := by
        intro i
        simp only [Store.step, hnext]
        rw [bodies_insert, if_pos rfl, getElem?_assign]
        split
        · rename_i hi
          simp only [ne_eq, reduceCtorEq, not_false_eq_true, true_iff]
          omega
        · rw [h i]
          omega
      have hrest := ih (store.step (.post e b)).1 (j + 1) hstep
      rw [show j + (k + 1) = j + 1 + k by omega]
      exact hrest

/-- The api answers as many posts to one entity as there are positive `int`s. -/
theorem posts_le {k : Nat} {s' : CrudState} {responses : List Response}
    (h : run (serve apiHandler Disk.reliable) apiStart
      (List.replicate k (ask .post "/api/e" "A")) = .ok (s', responses)) : (k : Int) ≤ intMax := by
  have hq : ∀ k, List.Forall₂ (Operation.Requests apiHandler)
      (List.replicate k (.post entityE "A".toList))
      (List.replicate k (ask .post "/api/e" "A")) := by
    intro k
    induction k with
    | zero => exact List.Forall₂.nil
    | succ k ih => exact List.Forall₂.cons ⟨rfl, rfl, rfl⟩ ih
  obtain ⟨hR, _⟩ := run_refines serve_refines
    (Refines.start home_apiStart apiStart_empty) (hq k) h
  have hids := posts_bodies entityE "A".toList k ∅ 0 (fun i => by
    rw [bodies_of_none Std.ExtTreeMap.getElem?_empty, Std.ExtTreeMap.getElem?_empty]
    simp only [ne_eq, not_true_eq_false, false_iff]
    omega)
  by_contra hlt
  have hpos : (1 : Int) ≤ k := by
    unfold intMax at hlt
    omega
  have hmem : (k : Int) ∈ idsOf s'.fileToId entityE.val :=
    (hR.mem_idsOf entityE.prop).mpr ((hids k).mpr ⟨hpos, by omega⟩)
  exact hlt (hR.wf.range_idsOf hmem).2

/-- **The bound is needed**: of `2^31` posts to one entity the last is not answered. And a PUT may
    not name a negative id. -/
theorem crud_not_unbounded :
    (¬ ∃ s' responses, run (serve apiHandler Disk.reliable) apiStart
      (List.replicate 2147483648 (ask .post "/api/e" "A")) = .ok (s', responses)) ∧
    (run (serve apiHandler Disk.reliable) apiStart [ask .put "/api/e/-5" "A"]).map
      (fun v => v.2.map Response.result) = .ok [.notFound] := by
  refine ⟨?_, by decide⟩
  intro ⟨s', responses, hrun⟩
  have hle : ((2147483648 : Nat) : Int) ≤ intMax := posts_le hrun
  exact absurd hle (by decide)

end Googolplex.Crud
