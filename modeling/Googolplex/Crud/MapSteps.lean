/-
  File:      Googolplex/Crud/MapSteps.lean
  Subject:   THE ID LISTS OVER ALL REQUESTS, on any tree and any disk.

  * `MapStep`: what one request can do to the map; `handleRequest_mapStep`.
  * `MapStep.keeps`: a property of id lists that survives one id more and one id
    less survives every request; `handleRequest_increasing`.
  * `getNextId_smallest`: in every reachable state the lists are increasing and
    natural, and `get_next_id` takes the smallest positive id that is free.
-/
import Googolplex.Crud.Writes

namespace Googolplex.Crud

open Cxx Posix RequestHandler Machine

variable {handler : RequestHandler} {disk : Disk} {s s' : CrudState} {request : Request}
  {response r : Response} {b : Bool} {m m' : FileToId} {key : Str}

/-! ## 1. One request -/

/-- What a request does to the map: nothing, one id more, an entity listed as it is, or the id of
    a file that is gone taken out. -/
inductive MapStep (m : FileToId) : FileToId → Prop
  | same : MapStep m m
  | register (key : Str) {v : Int} (hv : 0 ≤ v) : MapStep m (register m key v)
  | listed (key : Str) : MapStep m (m.insert key (idsOf m key))
  | erased {key : Str} {ids : List Int} (v : Int) (hk : m[key]? = some ids) :
      MapStep m (m.insert key (ids.filter (· ≠ v)))

theorem handlePostRequest_mapStep {suffix : Str}
    (h : handlePostRequest handler disk s suffix request response = .ok (s', r, b)) :
    MapStep s.fileToId s'.fileToId := by
  rcases handlePostRequest_write h with ⟨rfl, _⟩ | ⟨n, _, _, _, hw⟩
  · exact .same
  · rw [hw.listed]
    exact .register suffix (by omega)

theorem handleGetRequest_mapStep {suffix : Str}
    (h : handleGetRequest handler s suffix response = .ok (s', r, b)) :
    MapStep s.fileToId s'.fileToId := by
  unfold handleGetRequest at h
  dsimp only at h
  split at h
  · cases h
    exact .listed suffix
  · split at h <;> cases h <;> exact .same
  · cases h
    exact .same

theorem handlePutRequest_mapStep {suffix : Str}
    (h : handlePutRequest handler disk s suffix request response = .ok (s', r, b)) :
    MapStep s.fileToId s'.fileToId := by
  rcases handlePutRequest_write h with ⟨rfl, _⟩ | ⟨n, _, _, _, _, hw⟩
  · exact .same
  · rw [hw.listed]
    exact .register (entityOf suffix) (by omega)

theorem handleDeleteRequest_mapStep {suffix : Str}
    (h : handleDeleteRequest handler s suffix response = .ok (s', r, b)) :
    MapStep s.fileToId s'.fileToId := by
  unfold handleDeleteRequest at h
  dsimp only at h
  split at h
  · cases h
    exact .same
  · cases h
    exact .same
  · split at h
    · cases h
      exact .same
    · split at h
      · cases h
        exact .same
      · rename_i ids hids
        split at h
        · cases h
          exact .erased _ hids
        · cases h
          exact .same

/-- **One request** does to the map what `MapStep` says. -/
theorem handleRequest_mapStep (h : handleRequest handler disk s request response = .ok (s', r, b)) :
    MapStep s.fileToId s'.fileToId := by
  unfold handleRequest at h
  cases ht : handler.checkRequestUrl request.target false with
  | none =>
      simp only [ht] at h
      cases h
      exact .same
  | some suffix =>
      simp only [ht] at h
      cases hm : request.method <;> simp only [hm] at h
      case post => exact handlePostRequest_mapStep h
      case get => exact handleGetRequest_mapStep h
      case put => exact handlePutRequest_mapStep h
      case delete => exact handleDeleteRequest_mapStep h
      all_goals
        cases h
        exact .same

/-! ## 2. What every request keeps -/

/-- **A property of all id lists** that the empty list has, and that survives one id more and one
    less, survives a request. -/
theorem MapStep.keeps {P : List Int → Prop} (h : MapStep m m') (hnil : P [])
    (hwith : ∀ ids v, 0 ≤ v → P ids → P (withId v ids))
    (hfilter : ∀ ids v, P ids → P (ids.filter (· ≠ v)))
    (hm : ∀ (k : Str) (ids : List Int), m[k]? = some ids → P ids) :
    ∀ (k : Str) (ids : List Int), m'[k]? = some ids → P ids := by
  have hids : ∀ k : Str, P (idsOf m k) := by
    intro k
    cases hk : m[k]? with
    | none => rw [idsOf_of_none hk]; exact hnil
    | some ids => rw [idsOf_of_some hk]; exact hm k ids hk
  have hinsert : ∀ {key : Str} {ids : List Int}, P ids →
      ∀ (k : Str) (ids' : List Int), (m.insert key ids)[k]? = some ids' → P ids' := by
    intro key ids hp k ids' hk
    rw [getElem?_assign] at hk
    split at hk
    · cases hk
      exact hp
    · exact hm k ids' hk
  cases h with
  | same => exact hm
  | register key hv => exact hinsert (hwith _ _ hv (hids key))
  | listed key => exact hinsert (hids key)
  | erased v hk => exact hinsert (hfilter _ v (hm _ _ hk))

/-- Every id list is increasing. -/
def Increasing (fileToId : FileToId) : Prop :=
  ∀ (k : Str) (ids : List Int), fileToId[k]? = some ids → ids.SortedLT

/-- Every id that is listed is natural. -/
def Natural (fileToId : FileToId) : Prop :=
  ∀ (k : Str) (ids : List Int), fileToId[k]? = some ids → ∀ i ∈ ids, 0 ≤ i

theorem Increasing.idsOf (h : Increasing m) (k : Str) : (idsOf m k).SortedLT := by
  cases hk : m[k]? with
  | none => rw [idsOf_of_none hk]; exact List.Pairwise.nil.sortedLT
  | some ids => rw [idsOf_of_some hk]; exact h k ids hk

theorem Increasing.empty : Increasing ∅ := by
  intro k ids h
  rw [Std.ExtTreeMap.getElem?_empty] at h
  cases h

theorem MapStep.increasing (h : MapStep m m') (hm : Increasing m) : Increasing m' := by
  refine h.keeps List.Pairwise.nil.sortedLT (fun ids v _ hs => sortedLT_withId hs) ?_ hm
  intro ids v hs
  exact (hs.pairwise.sublist List.filter_sublist).sortedLT

/-- What every reachable map is: its lists are increasing, and no id is negative. -/
structure Ordered (fileToId : FileToId) : Prop where
  increasing : Increasing fileToId
  natural : Natural fileToId

theorem MapStep.ordered (h : MapStep m m') (hm : Ordered m) : Ordered m' := by
  refine ⟨h.increasing hm.increasing, ?_⟩
  refine h.keeps (P := fun ids => ∀ i ∈ ids, 0 ≤ i) (by simp) ?_ ?_ hm.natural
  · intro ids v hv hids i hi
    rcases mem_withId.mp hi with rfl | hi
    · exact hv
    · exact hids i hi
  · intro ids v hids i hi
    exact hids i (List.mem_filter.mp hi).1

theorem Ordered.empty : Ordered ∅ := by
  refine ⟨Increasing.empty, fun k ids h => ?_⟩
  rw [Std.ExtTreeMap.getElem?_empty] at h
  cases h

/-- **The lists stay increasing**, whatever the disk does. -/
theorem handleRequest_increasing (h : Increasing s.fileToId)
    (hs : handleRequest handler disk s request response = .ok (s', r, b)) :
    Increasing s'.fileToId :=
  (handleRequest_mapStep hs).increasing h

/-- What `handleRequest` leaves, `serve` leaves. -/
theorem serve_mapStep (h : serve handler disk s request = .ok (s', r)) :
    MapStep s.fileToId s'.fileToId := by
  unfold serve at h
  split at h
  · cases h
  · rename_i hr
    cases h
    exact handleRequest_mapStep hr

/-! ## 3. The smallest free id -/

/-- A list of ids leaves some positive number out, and so a smallest one. -/
theorem exists_smallest (ids : List Int) :
    ∃ v, 1 ≤ v ∧ v ∉ ids ∧ ∀ j, 1 ≤ j → j < v → j ∈ ids := by
  have hfree : ∃ n : Nat, ((n : Int) + 1) ∉ ids := by
    obtain ⟨n, hn⟩ := Infinite.exists_notMem_finset (ids.map fun i => (i - 1).toNat).toFinset
    refine ⟨n, fun hmem => hn ?_⟩
    rw [List.mem_toFinset, List.mem_map]
    exact ⟨_, hmem, by omega⟩
  refine ⟨(Nat.find hfree : Int) + 1, by omega, Nat.find_spec hfree, fun j h1 hj => ?_⟩
  have hlt : (j - 1).toNat < Nat.find hfree := by omega
  have hmem := not_not.mp (Nat.find_min hfree hlt)
  have heq : (((j - 1).toNat : Nat) : Int) + 1 = j := by omega
  rwa [heq] at hmem

/-- **`get_next_id` takes the smallest free id** in every state that requests lead to from an empty
    map, on any tree and with a disk of its own for each request: the lists are increasing and
    natural, and there is a smallest positive number that the list of the key leaves out; if it is
    an `int`, it is returned, the list holds it from then on, and no other list changes. -/
theorem getNextId_smallest (handler : RequestHandler) (files : FileTree) (s : CrudState)
    (h : Reachable (fun s (i : Disk × Request) => serve handler i.1 s i.2) ⟨∅, files⟩ s) :
    (∀ (k : Str) (ids : List Int), s.fileToId[k]? = some ids → ids.SortedLT ∧ ∀ i ∈ ids, 0 ≤ i) ∧
      ∀ key : Str, ∃ v, (1 ≤ v ∧ v ∉ idsOf s.fileToId key ∧
          ∀ j, 1 ≤ j → j < v → j ∈ idsOf s.fileToId key) ∧
        (v ≤ intMax → ∃ (fileToId : FileToId) (ids : List Int),
          getNextId s.fileToId key = .ok (v, fileToId) ∧ fileToId[key]? = some ids ∧ ids.SortedLT ∧
          (∀ i, i ∈ ids ↔ i = v ∨ i ∈ idsOf s.fileToId key) ∧
          ∀ k : Str, k ≠ key → fileToId[k]? = s.fileToId[k]?) := by
  have hstep : ∀ (s : CrudState) (i : Disk × Request) s' r, Ordered s.fileToId →
      serve handler i.1 s i.2 = .ok (s', r) → Ordered s'.fileToId :=
    fun s i s' r hs hserve => (serve_mapStep hserve).ordered hs
  have hinv := Reachable.invariant hstep Ordered.empty h
  refine ⟨fun k ids hk => ⟨hinv.increasing k ids hk, hinv.natural k ids hk⟩, fun key => ?_⟩
  have hsorted := hinv.increasing.idsOf key
  obtain ⟨v, h1, hfree, hbelow⟩ := exists_smallest (idsOf s.fileToId key)
  refine ⟨v, ⟨h1, hfree, hbelow⟩, fun hmax => ?_⟩
  obtain ⟨w, hw⟩ := getNextId_total hsorted h1 hmax hfree
  obtain ⟨hw1, _, hwfree, hwbelow, _⟩ := getNextId_ok hsorted hw
  -- two smallest numbers are one
  have heq : w = v := by
    rcases lt_trichotomy w v with hlt | heq | hlt
    · exact absurd (hbelow w hw1 hlt) hwfree
    · exact heq
    · exact absurd (hwbelow v h1 hlt) hfree
  subst heq
  refine ⟨_, withId w (idsOf s.fileToId key), hw, ?_, sortedLT_withId hsorted,
    fun i => mem_withId, fun k hk => ?_⟩
  · rw [getElem?_register, if_pos rfl]
  · rw [getElem?_register, if_neg (Ne.symm hk)]

/-- After a PUT of the id 0, which POST never hands out, on a disk that opens nothing. -/
theorem getNextId_smallest_after_put : ∃ s fileToId,
    Reachable (fun s (i : Disk × Request) => serve apiHandler i.1 s i.2) apiStart s ∧
      idsOf s.fileToId "e".toList = [0] ∧ getNextId s.fileToId "e".toList = .ok (1, fileToId) := by
  have hids : (serve apiHandler (fun _ _ => none) apiStart (ask .put "/api/e/0" "x")).map
      (fun v => idsOf v.1.fileToId "e".toList) = .ok [0] := by decide
  cases hs : serve apiHandler (fun _ _ => none) apiStart (ask .put "/api/e/0" "x") with
  | error f =>
      rw [hs] at hids
      cases hids
  | ok v =>
      obtain ⟨s, r⟩ := v
      rw [hs] at hids
      have hids : idsOf s.fileToId "e".toList = [0] := Except.ok.inj hids
      have hreach : Reachable (fun s (i : Disk × Request) => serve apiHandler i.1 s i.2) apiStart s :=
        (Reachable.refl _).next (i := (fun _ _ => none, ask .put "/api/e/0" "x")) hs
      obtain ⟨v, ⟨h1, _, hbelow⟩, hnext⟩ :=
        (getNextId_smallest apiHandler apiStart.files s hreach).2 "e".toList
      rw [hids] at hbelow
      have hv : v = 1 := by
        by_contra hne
        have := hbelow 1 (le_refl _) (by omega)
        simp at this
      subst hv
      obtain ⟨fileToId, _, hget, _⟩ := hnext (by decide)
      exact ⟨s, fileToId, hreach, hids, hget⟩

end Googolplex.Crud
