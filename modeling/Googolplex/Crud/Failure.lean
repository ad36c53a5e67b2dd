/-
  File:      Googolplex/Crud/Failure.lean
  Subject:   What a request that is answered with an error leaves behind.

  A request turned down before it reaches the id lists changes nothing. Two
  exits register an id and fail afterwards, at `write_to_file`; `Obstructed`
  says, before the request, that it will take one of them.
-/
import Googolplex.Crud.Inversion

namespace Googolplex.Crud

open Cxx Posix Posix.FileTree RequestHandler Machine

/-- **The write of the request will find a directory**, after something new was registered: a POST
    whose next id is the name of a directory, a PUT of an id that is not listed onto a directory,
    or a PUT of a number alone, which makes the directory it then cannot write. -/
inductive Obstructed (handler : RequestHandler) (s : CrudState) (request : Request) : Prop
  | post {e : Str} {v : Int} {fileToId : FileToId} (hm : request.method = .post)
      (ht : handler.checkRequestUrl request.target false = some e)
      (hid : getNextId s.fileToId e = .ok (v, fileToId))
      (hl : s.files.lookup (pathOf handler e ++ '/' :: toStr v) = some .dir)
  | put {t : Str} {v : Int} (hm : request.method = .put)
      (ht : handler.checkRequestUrl request.target false = some t)
      (hd : idNameOf t ≠ [] ∧ (idNameOf t).all Char.isDigit = true)
      (hv : stoi (idNameOf t) = .ok v) (hnew : v ∉ idsOf s.fileToId (entityOf t))
      (hl : s.files.lookup (pathOf handler t) = some .dir)
  | bare {t : Str} {v : Int} (hm : request.method = .put)
      (ht : handler.checkRequestUrl request.target false = some t) (hs : '/' ∉ t)
      (hd : idNameOf t ≠ [] ∧ (idNameOf t).all Char.isDigit = true)
      (hv : stoi (idNameOf t) = .ok v) (hl : s.files.lookup (pathOf handler t) = none)

/-- Answered with an error, the request has changed nothing. -/
def FailsClean (handler : RequestHandler) (s : CrudState) (request : Request) : Prop :=
  ∀ s' r, serve handler Disk.reliable s request = .ok (s', r) → 400 ≤ r.result.toNat → s' = s

section Failure

variable {handler : RequestHandler} {d : Path} {s s' : CrudState} {request : Request}
  {r : Response}

/-- A new id shows in the list. -/
theorem register_ne {fileToId : FileToId} {key : Str} {v : Int} (h : v ∉ idsOf fileToId key) :
    register fileToId key v ≠ fileToId := by
  intro e
  have hv : v ∈ idsOf (register fileToId key v) key := by
    rw [idsOf_register_self]
    exact mem_withId.mpr (Or.inl rfl)
  rw [e] at hv
  exact h hv

/-- A directory at a plain name below a key: the key opens its own. -/
theorem opens_of_lookup_below {e : Str} {x : Name} (hh : Home handler s.files d) (hx : Plain x)
    (hl : s.files.lookup (pathOf handler (e ++ '/' :: x)) = some .dir) :
    Opens s.files d e ∧ s.files.IsDir (x :: spot d e) := by
  obtain ⟨hw, hd⟩ := (lookup_dir hh).mp hl
  rw [spot_below d e hx] at hd
  refine ⟨⟨?_, isDir_tail hd⟩, hd⟩
  rw [segments_append, segments_of_not_mem hx.2.2.2, walk_concat] at hw
  cases hc : s.files.walk d (segments e) with
  | none => rw [hc] at hw; cases hw
  | some c => exact congrArg some (walk_normal hc)

/-- What `blocked` and `bare` leave behind was foreseeable. -/
theorem Exit.obstructed (hw : Wf handler d s) (h : Exit handler d s request s' r)
    (hr : 400 ≤ r.result.toNat) (hne : s' ≠ s) : Obstructed handler s request := by
  cases h with
  | refused h => exact absurd rfl hne
  | listed hm ht ho hok => rw [hok] at hr; exact absurd hr (by decide)
  | read hm ht hq hc hok => rw [hok] at hr; exact absurd hr (by decide)
  | stored hn hdir hfree hg ho hnodes hok =>
      rw [hok] at hr
      split at hr <;> exact absurd hr (by decide)
  | deleted hm ht hx hv hk hf hg hnodes hok => rw [hok] at hr; exact absurd hr (by decide)
  | @blocked e x n r hn ho hd =>
      have hnew : (n : Int) ∉ idsOf s.fileToId e := fun hmem =>
        hne (by rw [register_of_mem_idsOf hmem])
      cases hn with
      | post hm ht hid =>
          refine .post hm ht hid ?_
          rw [toStr_natCast, pathOf_below, ho.lookup_below hw.home (plain_decimal n)]
          exact hd
      | put hm ht hx hdig hv =>
          have hp : Plain x := plain_of_digits hx hdig
          have hid : idNameOf (e ++ '/' :: x) = x := idNameOf_below hp.2.2.2
          refine .put (v := n) hm ht ?_ ?_ ?_ ?_
          · rw [hid]
            exact ⟨hx, List.all_eq_true.mpr hdig⟩
          · rw [hid]
            exact hv
          · rw [entityOf_below hp.2.2.2]
            exact hnew
          · rw [ho.lookup_below hw.home hp]
            exact hd
  | @bare t n files r hm ht hx hdig hv hmade =>
      have hp : Plain t := plain_of_digits hx hdig
      obtain ⟨hid, hent⟩ := suffix_whole hp.2.2.2
      have hdigits : idNameOf t ≠ [] ∧ (idNameOf t).all Char.isDigit = true := by
        rw [hid]
        exact ⟨hx, List.all_eq_true.mpr hdig⟩
      rw [← hid] at hv
      rcases hmade.free with ⟨ho, rfl⟩ | ⟨hnone, _⟩
      · refine .put hm ht hdigits hv ?_ ((lookup_dir hw.home).mpr ho)
        rw [hent]
        exact fun hmem => hne (by rw [register_of_mem_idsOf hmem])
      · refine .bare hm ht hp.2.2.2 hdigits hv ?_
        rw [lookup_plain hw.home hp, ← spot_plain d hp]
        exact hnone

/-- **An obstructed request fails and leaves a trace**: it takes no other exit. -/
theorem Exit.dirty (hw : Wf handler d s) (h : Exit handler d s request s' r)
    (ho : Obstructed handler s request) : 400 ≤ r.result.toNat ∧ s' ≠ s := by
  have trace : ∀ {e : Str} {v : Int}, v ∉ idsOf s.fileToId e →
      s'.fileToId = register s.fileToId e v → s' ≠ s := by
    rintro e v hnew hreg rfl
    exact register_ne hnew hreg.symm
  have digits : ∀ {x : Str} {v : Int}, x ≠ [] ∧ x.all Char.isDigit = true → stoi x = .ok v →
      ∃ n : Nat, v = n := fun hd hv => stoi_natural hd.1 (List.all_eq_true.mp hd.2) hv
  cases ho with
  | @post e v fileToId hm ht hid hl =>
      obtain ⟨h1, _, hnew, _⟩ := getNextId_ok (hw.sorted_idsOf e) hid
      obtain ⟨n, rfl⟩ := Int.eq_ofNat_of_zero_le (show 0 ≤ v by omega)
      rw [toStr_natCast, pathOf_below] at hl
      obtain ⟨ho, hd⟩ := opens_of_lookup_below hw.home (plain_decimal n) hl
      obtain ⟨files, rfl, ⟨hfree, _⟩ | ⟨_, _, hr⟩⟩ := h.of_names (.post hm ht hid) (Or.inl ho)
      · exact absurd hd hfree
      · exact ⟨hr, trace hnew rfl⟩
  | @put t v hm ht hdig hv hnew hl =>
      obtain ⟨n, rfl⟩ := digits hdig hv
      rcases suffix_cut t with ⟨hs, _, hent⟩ | ⟨hcut, hs⟩
      · obtain ⟨files, rfl, _, hr⟩ :=
          h.of_bare hm ht hs hdig hv (Or.inl ((lookup_dir hw.home).mp hl))
        rw [hent] at hnew
        exact ⟨hr, trace hnew rfl⟩
      · have hx : ∀ c ∈ idNameOf t, c.isDigit = true := List.all_eq_true.mp hdig.2
        rw [hcut] at ht hl
        obtain ⟨ho, hd⟩ := opens_of_lookup_below hw.home (plain_of_digits hdig.1 hx) hl
        obtain ⟨files, rfl, ⟨hfree, _⟩ | ⟨_, _, hr⟩⟩ :=
          h.of_names (.put hm ht hdig.1 hx hv) (Or.inl ho)
        · exact absurd hd hfree
        · exact ⟨hr, trace hnew rfl⟩
  | @bare t v hm ht hs hdig hv hl =>
      obtain ⟨n, rfl⟩ := digits hdig hv
      obtain ⟨hid, hent⟩ := suffix_whole hs
      have hp : Plain t := by
        rw [hid] at hdig
        exact plain_of_digits hdig.1 (List.all_eq_true.mp hdig.2)
      have hfree : s.files.nodes[t :: d]? = none := (lookup_plain hw.home hp).symm.trans hl
      obtain ⟨files, hmk⟩ := mkdir_plain hw.home hp hfree
      have hmk' : s.files.mkdir (pathOf handler t) ≠ none := by
        unfold pathOf
        rw [hmk]
        simp
      obtain ⟨files', rfl, _, hr⟩ := h.of_bare hm ht hs hdig hv (Or.inr hmk')
      refine ⟨hr, trace (fun hmem => ?_) rfl⟩
      -- a known entity has a directory, and there is nothing at `t`
      cases hk : s.fileToId[t]? with
      | none =>
          rw [idsOf_of_none hk] at hmem
          exact absurd hmem List.not_mem_nil
      | some ids =>
          have hl' : s.files.lookup (pathOf handler t) = some .dir :=
            (lookup_dir hw.home).mpr (hw.opens t ids hk)
          rw [hl] at hl'
          cases hl'

/-- An obstructed request is answered: neither the counter nor `stoi` fails. -/
theorem Obstructed.answered (h : Obstructed handler s request) :
    ∃ s' r, serve handler Disk.reliable s request = .ok (s', r) := by
  cases hs : serve handler Disk.reliable s request with
  | ok v => exact ⟨v.1, v.2, rfl⟩
  | error f =>
      rcases serve_error hs with ⟨_, hm, e, ht, hid⟩ | ⟨_, hm, t, ht, _, g, hv⟩
      · cases h with
        | post hm' ht' hid' =>
            rw [ht] at ht'
            cases ht'
            rw [hid] at hid'
            cases hid'
        | put hm' | bare hm' => rw [hm] at hm'; cases hm'
      · cases h with
        | post hm' => rw [hm] at hm'; cases hm'
        | put hm' ht' hd hv' | bare hm' ht' hs hd hv' =>
            rw [ht] at ht'
            cases ht'
            rw [hv] at hv'
            cases hv'

/-- **A failed request changes nothing, unless its write finds a directory.** In every state the
    handler reaches, whatever was in the tree at the start. -/
theorem failsClean_iff {files : FileTree} (hh : Home handler files d)
    (hr : Reachable (serve handler Disk.reliable) ⟨∅, files⟩ s) (request : Request) :
    FailsClean handler s request ↔ ¬ Obstructed handler s request := by
  obtain ⟨requests, responses, hrun⟩ := hr
  have hw : Wf handler d s := run_wf (Wf.start hh) hrun
  constructor
  · intro hclean ho
    obtain ⟨s', r, hs⟩ := ho.answered
    obtain ⟨hfail, hne⟩ := (serve_exit hw hs).dirty hw ho
    exact hne (hclean s' r hs hfail)
  · intro hno s' r hs hfail
    by_contra hne
    exact hno ((serve_exit hw hs).obstructed hw hfail hne)

end Failure

/-- `failsClean_iff` for `PUT /api/5` on the empty api. -/
theorem failsClean_apiStart :
    FailsClean apiHandler apiStart (ask .put "/api/5" "x") ↔
      ¬ Obstructed apiHandler apiStart (ask .put "/api/5" "x") :=
  failsClean_iff home_apiStart (Reachable.refl _) _

/-- `PUT /api/5` on the empty api is answered with 404, and `5` is an entity afterwards. -/
theorem put_bare_not_clean :
    Reachable (serve apiHandler Disk.reliable) apiStart apiStart ∧
      ¬ FailsClean apiHandler apiStart (ask .put "/api/5" "x") := by
  refine ⟨Reachable.refl _, fun hclean => ?_⟩
  have hs : (serve apiHandler Disk.reliable apiStart (ask .put "/api/5" "x")).map
      (fun v => (v.1.fileToId["5".toList]?, v.2.result)) = .ok (some [5], .notFound) := by decide
  cases h : serve apiHandler Disk.reliable apiStart (ask .put "/api/5" "x") with
  | error f => rw [h] at hs; cases hs
  | ok v =>
      rw [h] at hs
      simp only [Except.map, Except.ok.injEq, Prod.mk.injEq] at hs
      have heq := hclean v.1 v.2 h (by rw [hs.2]; decide)
      rw [heq] at hs
      exact absurd hs.1 (by decide)

end Googolplex.Crud
