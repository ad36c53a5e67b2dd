/-
  File:      Googolplex/Crud/Restart.lean
  Subject:   Stopping the process and starting it again over the same data
             directory (`CrudHandlerFactory`, request_handler_factory.cc).

  The factory makes sure that the root is there and starts with no known
  entity; the tree is what it was. `restart_transparent` says when later
  requests cannot tell: for every continuation only if there was no known
  entity to forget, and for a continuation that keeps away from the directories
  of the entities known at the stop.
-/
import Googolplex.Crud.Survival

namespace Googolplex.Crud

open Cxx Posix Posix.FileTree RequestHandler Machine

/-! ## 1. The factory -/

/-- `CrudHandlerFactory::CrudHandlerFactory`: the root is there or is made, `none` is `exit(1)`;
    `file_to_id` starts empty. -/
def crudHandlerFactory (root : Str) (files : FileTree) : Option CrudState :=
  if files.lookup root = some .dir then some ⟨∅, files⟩
  else (files.mkdir root).map fun files' => ⟨∅, files'⟩

/-- A new process over what the old one left in the tree. -/
def restart (handler : RequestHandler) (s : CrudState) : Option CrudState :=
  crudHandlerFactory handler.dir_ s.files

/-- What the handlers wrote since `start`: a regular file that was not there, or was another. -/
def StoredSince (start s : FileTree) (p : Path) : Prop :=
  ∃ c, s.nodes[p]? = some (.file c) ∧ start.nodes[p]? ≠ some (.file c)

/-- **The restart changes nothing for `later`**: the responses are those of the run without it, and
    no POST that is answered with an id writes where a file was stored before the stop. -/
def Transparent (handler : RequestHandler) (start s : CrudState) (later : List Request) : Prop :=
  ∃ s₀, restart handler s = some s₀ ∧
    (∀ pre, pre <+: later → (run (serve handler Disk.reliable) s pre).map Prod.snd =
      (run (serve handler Disk.reliable) s₀ pre).map Prod.snd) ∧
    ∀ pre request s₁ responses s₂ r e p, pre ++ [request] <+: later →
      run (serve handler Disk.reliable) s₀ pre = .ok (s₁, responses) →
      serve handler Disk.reliable s₁ request = .ok (s₂, r) → request.method = .post →
      handler.checkRequestUrl request.target false = some e → r.result = .created →
      s₁.files.resolve (pathOf handler (e ++ '/' :: answeredId r)) = some p →
      ¬ StoredSince start.files s.files p

/-- The key under which an operation looks into `file_to_id_`. -/
def keyOf (request : Request) (suffix : Str) : Str :=
  match request.method with
  | .put | .delete => entityOf suffix
  | _ => suffix

/-- The request keeps away from the directories of the entities known in `s`. -/
def Elsewhere (handler : RequestHandler) (d : Path) (s : CrudState) (request : Request) : Prop :=
  ∀ t, handler.checkRequestUrl request.target false = some t →
    ∀ k, s.fileToId[k]? ≠ none → spot d k ≠ spot d (keyOf request t)

section Restart

variable {handler : RequestHandler} {disk : Disk} {d : Path} {s s' start : CrudState}
  {request : Request} {response r : Response} {files : FileTree} {m m' : FileToId} {k : Str}

theorem lookup_nil (files : FileTree) : files.lookup [] = none := rfl

/-- A factory that did not exit had a root to look at. -/
theorem root_ne_nil {root : Str} (h : crudHandlerFactory root files = some start) : root ≠ [] := by
  rintro rfl
  unfold crudHandlerFactory mkdir at h
  rw [lookup_nil, if_neg (by simp), if_pos rfl] at h
  cases h

/-- Where there is a data directory, the restart forgets the lists and keeps the tree. -/
theorem restart_eq (hh : Home handler s.files d) (hne : handler.dir_ ≠ []) :
    restart handler s = some ⟨∅, s.files⟩ := by
  obtain ⟨hd, hwalk⟩ := resolve_dir hh
  have horigin : s.files.origin (handler.dir_ ++ ['/']) = s.files.origin handler.dir_ := by
    unfold origin
    cases hdir : handler.dir_ with
    | nil => exact absurd hdir hne
    | cons c cs => rfl
  have hlookup : s.files.lookup handler.dir_ = some .dir := by
    unfold lookup resolve
    rw [if_neg hne, ← horigin, hwalk, Option.bind_some]
    exact hd
  unfold restart crudHandlerFactory
  rw [if_pos hlookup]

/-! ## 2. An operation looks at one key -/

/-- Two maps that differ elsewhere lead an operation to the same answer and the same change. -/
inductive Alike (k : Str) (m m' : FileToId) : Outcome → Outcome → Prop
  | error (f : Fault) : Alike k m m' (.error f) (.error f)
  | same (files : FileTree) (r : Response) (b : Bool) :
      Alike k m m' (.ok (⟨m, files⟩, r, b)) (.ok (⟨m', files⟩, r, b))
  | assign (ids : List Int) (files : FileTree) (r : Response) (b : Bool) :
      Alike k m m' (.ok (⟨m.insert k ids, files⟩, r, b)) (.ok (⟨m'.insert k ids, files⟩, r, b))

/-- `get_next_id` on two maps that agree at the key. -/
theorem getNextId_alike (hk : m[k]? = m'[k]?) :
    (∃ f, getNextId m k = .error f ∧ getNextId m' k = .error f) ∨
      ∃ v ids, getNextId m k = .ok (v, m.insert k ids) ∧
        getNextId m' k = .ok (v, m'.insert k ids) := by
  unfold getNextId
  rw [hk]
  cases hids : m'[k]? with
  | none => exact Or.inr ⟨1, [1], rfl, rfl⟩
  | some ids =>
      simp only
      cases hl : lowestAvailableId 1 ids with
      | error f => exact Or.inl ⟨f, rfl, rfl⟩
      | ok v =>
          refine Or.inr ⟨v, withId v ids, ?_, ?_⟩
          · simp only
            rw [insertToMap_known (hk.trans hids), register, idsOf_of_some (hk.trans hids)]
          · simp only
            rw [insertToMap_known hids, register, idsOf_of_some hids]

theorem handlePostRequest_alike (hk : m[k]? = m'[k]?) :
    Alike k m m' (handlePostRequest handler disk ⟨m, files⟩ k request response)
      (handlePostRequest handler disk ⟨m', files⟩ k request response) := by
  unfold handlePostRequest
  simp only [hk]
  generalize (if m'[k]? = none then createDir files (pathOf handler k) else (true, files)) = made
  obtain ⟨created, files'⟩ := made
  cases created with
  | false => exact .same files' _ false
  | true =>
      simp only [Bool.true_eq_false, if_false]
      rcases getNextId_alike hk with ⟨f, h1, h2⟩ | ⟨v, ids, h1, h2⟩
      · rw [h1, h2]
        exact .error f
      · rw [h1, h2]
        simp only
        cases hw : (writeToFile disk files' (pathOf handler k ++ '/' :: toStr v) request.body).1 with
        | false => exact .assign ids _ _ _
        | true => exact .assign ids _ _ _

theorem handleGetRequest_alike (hk : m[k]? = m'[k]?) :
    Alike k m m' (handleGetRequest handler ⟨m, files⟩ k response)
      (handleGetRequest handler ⟨m', files⟩ k response) := by
  unfold handleGetRequest
  simp only [hk]
  split
  · exact .assign _ _ _ _
  · split
    · exact .error _
    · exact .same _ _ _
    · exact .same _ _ _
  · exact .same _ _ _

theorem handleDeleteRequest_alike {t : Str} (hk : m[entityOf t]? = m'[entityOf t]?) :
    Alike (entityOf t) m m' (handleDeleteRequest handler ⟨m, files⟩ t response)
      (handleDeleteRequest handler ⟨m', files⟩ t response) := by
  unfold handleDeleteRequest
  simp only [hk]
  split
  · exact .same _ _ _
  · exact .same _ _ _
  · split
    · exact .same _ _ _
    · split
      · exact .same _ _ _
      · split
        · exact .assign _ _ _ _
        · exact .same _ _ _

theorem handlePutRequest_alike {t : Str} (hk : m[entityOf t]? = m'[entityOf t]?) :
    Alike (entityOf t) m m' (handlePutRequest handler disk ⟨m, files⟩ t request response)
      (handlePutRequest handler disk ⟨m', files⟩ t request response) := by
  unfold handlePutRequest
  simp only [hk]
  split
  · split
    · exact .error _
    · rename_i value _
      generalize (if m'[entityOf t]? ≠ none then (true, files)
        else createDir files (pathOf handler (entityOf t))) = made
      obtain ⟨created, files'⟩ := made
      cases created with
      | false => exact .same files' _ false
      | true =>
          simp only [Bool.true_eq_false, if_false]
          cases hids : m'[entityOf t]? with
          | none =>
              simp only [ne_eq, not_true_eq_false, if_false]
              split <;> exact .assign _ _ _ _
          | some ids =>
              simp only [ne_eq, reduceCtorEq, not_false_eq_true, if_true,
                insertToMap_known (hk.trans hids), insertToMap_known hids, register,
                idsOf_of_some (hk.trans hids), idsOf_of_some hids]
              split <;> exact .assign _ _ _ _
  · exact .same _ _ _

theorem handleRequest_alike {t : Str}
    (ht : handler.checkRequestUrl request.target false = some t)
    (hk : m[keyOf request t]? = m'[keyOf request t]?) :
    Alike (keyOf request t) m m' (handleRequest handler disk ⟨m, files⟩ request response)
      (handleRequest handler disk ⟨m', files⟩ request response) := by
  unfold handleRequest
  rw [ht]
  unfold keyOf at hk ⊢
  simp only
  cases hm : request.method with
  | post => rw [hm] at hk; exact handlePostRequest_alike hk
  | get => rw [hm] at hk; exact handleGetRequest_alike hk
  | put => rw [hm] at hk; exact handlePutRequest_alike hk
  | delete => rw [hm] at hk; exact handleDeleteRequest_alike hk
  | _ => exact .same _ _ _

/-- The maps agree on every key that leads elsewhere; the tree is one. -/
def AlikeElsewhere (d : Path) (known : CrudState) (a b : CrudState) : Prop :=
  a.files = b.files ∧ ∀ k, (∀ k₀, known.fileToId[k₀]? ≠ none → spot d k₀ ≠ spot d k) →
    a.fileToId[k]? = b.fileToId[k]?

/-- **A request that goes elsewhere cannot tell the states apart.** -/
theorem serve_alike (a b : CrudState) (request : Request) (hab : AlikeElsewhere d s a b)
    (he : Elsewhere handler d s request) :
    (∃ f, serve handler disk a request = .error f ∧ serve handler disk b request = .error f) ∨
      ∃ a' b' r, serve handler disk a request = .ok (a', r) ∧
        serve handler disk b request = .ok (b', r) ∧ AlikeElsewhere d s a' b' := by
  obtain ⟨m, files⟩ := a
  obtain ⟨m', files'⟩ := b
  obtain ⟨rfl, hmaps⟩ := hab
  unfold serve
  generalize ({ } : Response).set .accessControlAllowOrigin ['*'] = response
  cases ht : handler.checkRequestUrl request.target false with
  | none =>
      refine Or.inr ⟨⟨m, files⟩, ⟨m', files⟩, prepareBadRequestResponse response, ?_, ?_, rfl, hmaps⟩
      · unfold handleRequest; rw [ht]
      · unfold handleRequest; rw [ht]
  | some t =>
      have halike : Alike (keyOf request t) m m'
          (handleRequest handler disk ⟨m, files⟩ request response)
          (handleRequest handler disk ⟨m', files⟩ request response) :=
        handleRequest_alike ht (hmaps _ (he t ht))
      generalize handleRequest handler disk ⟨m, files⟩ request response = o at halike
      generalize handleRequest handler disk ⟨m', files⟩ request response = o' at halike
      cases halike with
      | error f => exact Or.inl ⟨f, rfl, rfl⟩
      | same files r b => exact Or.inr ⟨_, _, r, rfl, rfl, rfl, hmaps⟩
      | assign ids files r b =>
          refine Or.inr ⟨_, _, r, rfl, rfl, rfl, fun k hk => ?_⟩
          show (m.insert (keyOf request t) ids)[k]? = (m'.insert (keyOf request t) ids)[k]?
          rw [getElem?_assign, getElem?_assign, hmaps k hk]

/-! ## 3. What was stored is stored under known keys -/

/-- Every file that was written since the start is in the directory of a known key. -/
def Filed (d : Path) (start : FileTree) (s : CrudState) : Prop :=
  ∀ p, StoredSince start s.files p → ∃ x k, s.fileToId[k]? ≠ none ∧ p = x :: spot d k

theorem Filed.initial : Filed d files ⟨∅, files⟩ := by
  intro p ⟨c, hc, hne⟩
  exact absurd hc hne

theorem Filed.step (hf : Filed d files s) (hx : Exit handler d s request s' r) :
    Filed d files s' := by
  -- keys stay known, and files other than the one written were there before
  have keep : ∀ {s' : CrudState}, (∀ k : Str, s.fileToId[k]? ≠ none → s'.fileToId[k]? ≠ none) →
      (∀ (p : Path) (c : Str), s'.files.nodes[p]? = some (.file c) →
        s.files.nodes[p]? = some (.file c) ∨ ∃ x k, s'.fileToId[k]? ≠ none ∧ p = x :: spot d k) →
      Filed d files s' := by
    intro s' hkeys hfiles p ⟨c, hc, hne⟩
    rcases hfiles p c hc with hold | hnew
    · obtain ⟨x, k, hk, hp⟩ := hf p ⟨c, hold, hne⟩
      exact ⟨x, k, hkeys k hk, hp⟩
    · exact hnew
  have grow : ∀ {e : Str} {ids : List Int}, ∀ k : Str, s.fileToId[k]? ≠ none →
      (s.fileToId.insert e ids)[k]? ≠ none := fun k hk => known_insert.mpr (Or.inr hk)
  cases hx with
  | refused => exact hf
  | read => exact hf
  | listed => exact keep grow fun p c hc => Or.inl hc
  | blocked => exact keep grow fun p c hc => Or.inl hc
  | @stored e x n files' r hn hdir hfree hg ho hnodes =>
      refine keep grow fun p c hc => ?_
      rw [hnodes] at hc
      split at hc
      · rename_i hp
        exact Or.inr ⟨x, e, known_insert.mpr (Or.inl rfl), hp.symm⟩
      · split at hc
        · cases hc
        · exact Or.inl hc
  | @bare t n files' r hm ht hne hd hv hmade =>
      refine keep grow fun p c hc => ?_
      rw [hmade.nodes] at hc
      split at hc
      · cases hc
      · exact Or.inl hc
  | @deleted e x v ids files' r hm ht hpx hv hk hfile hg hnodes =>
      refine keep grow fun p c hc => ?_
      rw [hnodes] at hc
      split at hc
      · cases hc
      · exact Or.inl hc

/-- The path a POST writes is in the directory of its key. -/
theorem post_path {e : Str} (hw : Wf handler d s)
    (hs : serve handler Disk.reliable s request = .ok (s', r)) (hm : request.method = .post)
    (ht : handler.checkRequestUrl request.target false = some e) (hr : r.result = .created)
    {p : Path} (hp : s.files.resolve (pathOf handler (e ++ '/' :: answeredId r)) = some p) :
    ∃ x, p = x :: spot d e := by
  have hx := serve_exit hw hs
  have hfail : ¬ 400 ≤ r.result.toNat := by rw [hr]; decide
  cases hx with
  | refused href hr' => exact absurd (hr' ▸ href.error) hfail
  | listed hm' | read hm' | bare hm' | deleted hm' => rw [hm] at hm'; cases hm'
  | blocked hn ho hd hr' => exact absurd hr' hfail
  | @stored e' x n files r hn hdir hfree hg ho hnodes hr' hb =>
      cases hn with
      | put hm' => rw [hm] at hm'; cases hm'
      | post hm' ht' hid =>
          rw [ht] at ht'
          cases ht'
          obtain ⟨_, _, hnew, _⟩ := getNextId_ok (hw.sorted_idsOf e) hid
          rw [answeredId_created hnew (by omega) hb, toStr_natCast] at hp
          have hwalk : s.files.walk d (segments (e ++ '/' :: decimal n)) = some p :=
            (resolve_base hw.home _).symm.trans hp
          refine ⟨decimal n, ?_⟩
          rw [walk_normal hwalk]
          exact spot_below d e (plain_decimal n)

/-- **Continuations that keep away from what was known cannot tell.** -/
theorem transparent_of_elsewhere (hw : Wf handler d s) (hf : Filed d start.files s)
    (hne : handler.dir_ ≠ []) {later : List Request}
    (hl : ∀ request ∈ later, Elsewhere handler d s request) :
    Transparent handler start s later := by
  have halike : AlikeElsewhere d s s ⟨∅, s.files⟩ := by
    refine ⟨rfl, fun k hk => ?_⟩
    have hnone : s.fileToId[k]? = none := by
      by_contra hknown
      exact hk k hknown rfl
    rw [hnone]
    exact Std.ExtTreeMap.getElem?_empty.symm
  refine ⟨⟨∅, s.files⟩, restart_eq hw.home hne, fun pre hpre => ?_, ?_⟩
  · exact run_alike serve_alike halike fun request hr => hl request (hpre.subset hr)
  · intro pre request s₁ responses s₂ r e p hpre hrun hs hm ht hr hp hstored
    have hw₁ : Wf handler d s₁ := run_wf (Wf.start hw.home) hrun
    obtain ⟨x, rfl⟩ := post_path hw₁ hs hm ht hr hp
    obtain ⟨y, k, hk, hpath⟩ := hf _ hstored
    have helse := hl request (hpre.subset (List.mem_append_right _ List.mem_cons_self)) e ht k hk
    unfold keyOf at helse
    rw [hm] at helse
    exact helse (List.cons.inj hpath).2.symm

/-! ## 4. A known key shows -/

/-- A name of digits, as long as one likes. -/
def padded (k : Nat) : Name := List.replicate k '0' ++ ['1']

theorem padded_digits (k : Nat) : ∀ c ∈ padded k, c.isDigit = true := by
  intro c hc
  rcases List.mem_append.mp hc with hc | hc
  · rw [List.eq_of_mem_replicate hc]
    decide
  · rw [List.mem_singleton.mp hc]
    decide

theorem padded_ne_nil (k : Nat) : padded k ≠ [] := by simp [padded]

theorem stoi_padded (k : Nat) : stoi (padded k) = .ok ((1 : Nat) : Int) := by
  have hval : Nat.ofDigitChars 10 (padded k) 0 = 1 := by
    unfold padded
    rw [Nat.ofDigitChars_append, Nat.ofDigitChars_replicate_zero, Nat.mul_zero]
    rfl
  rw [stoi_of_digits (padded_ne_nil k) (padded_digits k), hval]
  rfl

/-- Some such name is free in every directory. -/
theorem exists_padded_free (t : FileTree) (q : Path) : ∃ k, t.nodes[padded k :: q]? = none := by
  let lengths := (t.nodes.keys.map fun p => (p.headD []).length).toFinset
  obtain ⟨n, hn⟩ := Infinite.exists_notMem_finset (insert 0 lengths)
  simp only [lengths, Finset.mem_insert, List.mem_toFinset, List.mem_map, not_or, not_exists,
    not_and] at hn
  obtain ⟨k, rfl⟩ := Nat.exists_eq_succ_of_ne_zero hn.1
  refine ⟨k, ?_⟩
  by_contra hthere
  refine hn.2 (padded k :: q) ?_ (by simp [padded])
  rw [Std.ExtTreeMap.mem_keys, Std.ExtTreeMap.mem_iff_isSome_getElem?, Option.isSome_iff_ne_none]
  exact hthere

/-- A second spelling of a key. -/
def dotted (k : Str) : Str := '.' :: '/' :: k

theorem spot_dotted (d : Path) (k : Str) : spot d (dotted k) = spot d k := by
  have hseg : segments (dotted k) = ['.'] :: segments k := segments_append ['.'] k
  unfold spot
  rw [hseg, normal_cons]
  rfl

theorem Opens.dotted (hh : Home handler files d) (ho : Opens files d k) :
    Opens files d (dotted k) := by
  have hseg : segments (Crud.dotted k) = ['.'] :: segments k := segments_append ['.'] k
  have hd : files.IsDir d := (resolve_dir hh).1
  refine ⟨?_, by rw [spot_dotted]; exact ho.2⟩
  rw [hseg, spot_dotted]
  simp only [walk, if_pos hd]
  exact ho.1

/-- A target of digits below a key. -/
theorem url_below (handler : RequestHandler) (e : Str) {x : Name} (hne : x ≠ [])
    (hd : ∀ c ∈ x, c.isDigit = true) :
    handler.checkRequestUrl (handler.prefix_ ++ '/' :: (e ++ '/' :: x)) false =
      some (e ++ '/' :: x) :=
  checkRequestUrl_named handler e false hne (plain_of_digits hne hd).2.2.2

/-- A PUT of a padded number, through the second spelling of the key. -/
def probePut (handler : RequestHandler) (e : Str) (k : Nat) : Request :=
  { method := .put, target := handler.prefix_ ++ '/' :: (dotted e ++ '/' :: padded k) }

/-- A DELETE of it, through the first. -/
def probeDelete (handler : RequestHandler) (e : Str) (k : Nat) : Request :=
  { method := .delete, target := handler.prefix_ ++ '/' :: (e ++ '/' :: padded k) }

theorem url_probePut (handler : RequestHandler) (e : Str) (k : Nat) :
    handler.checkRequestUrl (probePut handler e k).target false = some (dotted e ++ '/' :: padded k) :=
  url_below handler (dotted e) (padded_ne_nil k) (padded_digits k)

theorem url_probeDelete (handler : RequestHandler) (e : Str) (k : Nat) :
    handler.checkRequestUrl (probeDelete handler e k).target false = some (e ++ '/' :: padded k) :=
  url_below handler e (padded_ne_nil k) (padded_digits k)

/-- Where the PUT leads: the file is there, the first spelling is as known as before. -/
theorem serve_probePut {e : Str} {n : Nat} (hw : Wf handler d s) (ho : Opens s.files d e)
    (hfree : s.files.nodes[padded n :: spot d e]? = none) :
    ∃ s' r, serve handler Disk.reliable s (probePut handler e n) = .ok (s', r) ∧ Wf handler d s' ∧
      s'.fileToId[e]? = s.fileToId[e]? ∧
      ∃ c, s'.files.lookup (pathOf handler (e ++ '/' :: padded n)) = some (.file c) := by
  have hdig := padded_digits n
  have hplain : Plain (padded n) := plain_of_digits (padded_ne_nil n) hdig
  have hurl := url_probePut handler e n
  have hn : Names handler s (probePut handler e n) (dotted e) (padded n) 1 :=
    .put rfl hurl (padded_ne_nil n) hdig (stoi_padded n)
  have hod : Opens s.files d (dotted e) := ho.dotted hw.home
  cases hs : serve handler Disk.reliable s (probePut handler e n) with
  | error f =>
      exfalso
      rcases serve_error hs with ⟨_, hm', _⟩ | ⟨_, _, t, ht', _, g, hv⟩
      · cases hm'
      · rw [hurl] at ht'
        cases ht'
        rw [idNameOf_below hplain.2.2.2, stoi_padded n] at hv
        cases hv
  | ok v =>
      obtain ⟨s', r⟩ := v
      have hx := serve_exit hw hs
      have hw' := hx.wf hw
      refine ⟨s', r, rfl, hw', ?_⟩
      obtain ⟨files, rfl, ⟨_, _, hnodes⟩ | ⟨hdir, _⟩⟩ := hx.of_names hn (Or.inl hod)
      · have hne : dotted e ≠ e := by
          intro heq
          have := congrArg List.length heq
          simp only [dotted, List.length_cons] at this
          omega
        refine ⟨?_, ?_⟩
        · show (register s.fileToId (dotted e) _)[e]? = s.fileToId[e]?
          rw [getElem?_register, if_neg hne]
        · have ho' : Opens files d e := by
            refine ⟨?_, ?_⟩
            · have hod' := hw'.opens (dotted e) _ (getElem?_assign_self _ _ _)
              have hseg : segments (dotted e) = ['.'] :: segments e := segments_append ['.'] e
              have hwalk := hod'.1
              rw [hseg, spot_dotted] at hwalk
              simp only [walk, if_pos (resolve_dir hw'.home).1] at hwalk
              exact hwalk
            · unfold IsDir
              rw [hnodes, spot_dotted, if_neg (by simp), if_pos rfl]
          refine ⟨(probePut handler e n).body, ?_⟩
          rw [ho'.lookup_below hw'.home hplain, hnodes, spot_dotted, if_pos rfl]
      · rw [spot_dotted] at hdir
        unfold IsDir at hdir
        rw [hfree] at hdir
        cases hdir

/-- A DELETE under a key that is not known is not a success. -/
theorem delete_unknown {e : Str} {x : Name} (hx : Exit handler d s request s' r)
    (hm : request.method = .delete)
    (ht : handler.checkRequestUrl request.target false = some (e ++ '/' :: x)) (hs : '/' ∉ x)
    (hk : s.fileToId[e]? = none) : r.result ≠ .ok := by
  cases hx with
  | refused href hr =>
      intro hok
      have := href.error
      rw [← hr, hok] at this
      exact absurd this (by decide)
  | listed hm' | read hm' | bare hm' => rw [hm] at hm'; cases hm'
  | stored hn | blocked hn => rcases hn.target with ⟨hm', _⟩ | ⟨hm', _⟩ <;> simp [hm] at hm'
  | @deleted e' x' v ids files r hm' ht' hpx hv hk' =>
      obtain ⟨rfl, rfl⟩ := cut_last hs hpx.2.2.2 (Option.some.inj (ht.symm.trans ht'))
      rw [hk] at hk'
      cases hk'

/-- **A known entity shows**: the probe is answered differently after the restart. -/
theorem not_transparent_of_known (hw : Wf handler d s) (hne : handler.dir_ ≠ [])
    {e : Str} (hk : s.fileToId[e]? ≠ none) :
    ∃ later, ¬ Transparent handler start s later := by
  obtain ⟨ids, hids⟩ := Option.ne_none_iff_exists'.mp hk
  have ho := hw.opens e ids hids
  obtain ⟨n, hfree⟩ := exists_padded_free s.files (spot d e)
  refine ⟨[probePut handler e n, probeDelete handler e n], ?_⟩
  intro ⟨s₀, hs₀, hsame, _⟩
  rw [restart_eq hw.home hne] at hs₀
  cases hs₀
  have hw₀ : Wf handler d ⟨∅, s.files⟩ := Wf.start hw.home
  have hslash : '/' ∉ padded n := (plain_of_digits (padded_ne_nil n) (padded_digits n)).2.2.2
  -- the old process still knows the entity and deletes the file
  obtain ⟨s₁, r₁, hput, hw₁, hk₁, c, hl₁⟩ := serve_probePut hw ho hfree
  have hdelete : ∃ s' r, serve handler Disk.reliable s₁ (probeDelete handler e n) = .ok (s', r) ∧
      r.result = .ok :=
    serve_delete_file hw₁ rfl (url_probeDelete handler e n) hslash (stoi_padded n)
      (hk₁.trans hids) hl₁
  obtain ⟨s₁', r₁', hdel, hok⟩ := hdelete
  -- the new one does not
  obtain ⟨s₂, r₂, hput', hw₂, hk₂, _⟩ := serve_probePut hw₀ ho hfree
  have hdelete' : ∃ s' r, serve handler Disk.reliable s₂ (probeDelete handler e n) = .ok (s', r) :=
    serve_answered (Or.inr rfl)
  obtain ⟨s₂', r₂', hdel'⟩ := hdelete'
  have hbad := delete_unknown (serve_exit hw₂ hdel') rfl (url_probeDelete handler e n) hslash
    (hk₂.trans Std.ExtTreeMap.getElem?_empty)
  have hruns := hsame _ List.prefix_rfl
  have hold : run (serve handler Disk.reliable) s [probePut handler e n, probeDelete handler e n] =
      .ok (s₁', [r₁, r₁']) :=
    run_cons.mpr ⟨s₁, r₁, [r₁'], hput, run_cons.mpr ⟨s₁', r₁', [], hdel, rfl, rfl⟩, rfl⟩
  have hnew : run (serve handler Disk.reliable) ⟨∅, s.files⟩
      [probePut handler e n, probeDelete handler e n] = .ok (s₂', [r₂, r₂']) :=
    run_cons.mpr ⟨s₂, r₂, [r₂'], hput', run_cons.mpr ⟨s₂', r₂', [], hdel', rfl, rfl⟩, rfl⟩
  rw [hold, hnew] at hruns
  have hlast : [r₁, r₁'] = [r₂, r₂'] := Except.ok.inj hruns
  simp only [List.cons.injEq, and_true] at hlast
  exact hbad (hlast.2 ▸ hok)

/-! ## 5. The restart -/

/-- **When a restart is transparent**: at every state the handler reaches, for all continuations if
    and only if no entity is known; and in any case for those that keep away from the directories
    of the entities that are. -/
theorem restart_transparent (hstart : crudHandlerFactory handler.dir_ files = some start)
    (hh : Home handler start.files d)
    (hr : Reachable (serve handler Disk.reliable) start s) :
    ((∀ later, Transparent handler start s later) ↔ s.fileToId = ∅) ∧
      ∀ later, (∀ request ∈ later, Elsewhere handler d s request) →
        Transparent handler start s later := by
  have hne : handler.dir_ ≠ [] := root_ne_nil hstart
  have hempty : start = ⟨∅, start.files⟩ := by
    unfold crudHandlerFactory at hstart
    split at hstart
    · cases hstart
      rfl
    · obtain ⟨t, _, rfl⟩ := Option.map_eq_some_iff.mp hstart
      rfl
  have hstep : ∀ s request s' r, (Wf handler d s ∧ Filed d start.files s) →
      serve handler Disk.reliable s request = .ok (s', r) →
      (Wf handler d s' ∧ Filed d start.files s') := by
    intro s request s' r hi hs
    have hx := serve_exit hi.1 hs
    exact ⟨hx.wf hi.1, hi.2.step hx⟩
  have h0 : Wf handler d start ∧ Filed d start.files start := by
    rw [hempty]
    exact ⟨Wf.start hh, Filed.initial⟩
  obtain ⟨hw, hf⟩ := Reachable.invariant hstep h0 hr
  refine ⟨⟨fun hall => ?_, fun hnone later => ?_⟩, fun later => transparent_of_elsewhere hw hf hne⟩
  · refine Std.ExtTreeMap.ext_getElem? fun e => ?_
    rw [Std.ExtTreeMap.getElem?_empty]
    by_contra hk
    obtain ⟨later, hno⟩ : ∃ later, ¬ Transparent handler start s later :=
      not_transparent_of_known hw hne hk
    exact hno (hall later)
  · refine transparent_of_elsewhere hw hf hne fun request _ t _ k hk => ?_
    rw [hnone] at hk
    exact absurd Std.ExtTreeMap.getElem?_empty hk

end Restart

theorem factory_apiStart : crudHandlerFactory apiHandler.dir_ apiStart.files = some apiStart := by
  unfold crudHandlerFactory
  rw [if_pos (by decide)]
  rfl

/-- `restart_transparent` after one POST to the empty api. -/
theorem restart_transparent_post : ∃ s, Reachable (serve apiHandler Disk.reliable) apiStart s ∧
    ((∀ later, Transparent apiHandler apiStart s later) ↔ s.fileToId = ∅) := by
  have hok : (serve apiHandler Disk.reliable apiStart (ask .post "/api/e" "A")).isOk = true := by
    decide
  cases h : serve apiHandler Disk.reliable apiStart (ask .post "/api/e" "A") with
  | error f => rw [h] at hok; cases hok
  | ok v =>
      have hr : Reachable (serve apiHandler Disk.reliable) apiStart v.1 := (Reachable.refl _).next h
      exact ⟨v.1, hr, (restart_transparent factory_apiStart home_apiStart hr).1⟩

/-- **A restart loses data**: after `POST /api/e` and a restart the next `POST /api/e` is given id 1
    again, and writes over the first. -/
theorem restart_repeats_id : ¬ ∀ s, Reachable (serve apiHandler Disk.reliable) apiStart s →
    ∀ later, Transparent apiHandler apiStart s later := by
  intro hall
  have hs : (serve apiHandler Disk.reliable apiStart (ask .post "/api/e" "A")).map (fun v =>
      (((run (serve apiHandler Disk.reliable) v.1 [ask .post "/api/e" "B"]).map Prod.snd).map
          (List.map Response.body),
        (restart apiHandler v.1).map fun s₀ =>
          ((run (serve apiHandler Disk.reliable) s₀ [ask .post "/api/e" "B"]).map Prod.snd).map
            (List.map Response.body))) =
      .ok (.ok ["Created entry at \x7b\"id\":2\x7d\n".toList],
        some (.ok ["Created entry at \x7b\"id\":1\x7d\n".toList])) := by decide
  cases h : serve apiHandler Disk.reliable apiStart (ask .post "/api/e" "A") with
  | error f => rw [h] at hs; cases hs
  | ok v =>
      rw [h] at hs
      obtain ⟨hold, hnew⟩ := Prod.mk.inj (Except.ok.inj hs)
      obtain ⟨s₀, hs₀, hsame, _⟩ := hall v.1 ((Reachable.refl _).next h) [ask .post "/api/e" "B"]
      rw [hs₀] at hnew
      rw [hsame _ List.prefix_rfl] at hold
      have hids := hold.symm.trans (Option.some.inj hnew)
      exact absurd (Except.ok.inj hids) (by decide)

end Googolplex.Crud
