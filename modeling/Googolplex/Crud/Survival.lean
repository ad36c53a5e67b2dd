/-
  File:      Googolplex/Crud/Survival.lean
  Subject:   What becomes of the bodies the clients were told are stored.

  * `note`: the ledger a client could keep, of every body a 200 or 201
    acknowledged and under which target, until it is deleted or put over
    through that target. The ledger is history: no request reads it.
  * `Careful`: a request that goes by one spelling. A key becomes known on a
    directory that holds no file, and nothing is written where another known
    key spells the directory; an id is taken off a list with its own file.
  * `post_keeps_data`: along careful requests every body in the ledger is
    returned, and a POST that is answered with an id found no file there.

  Without care a POST destroys data (`post_overwrites`): the ids of `./e` and
  of `e` are counted apart and their files are the same.
-/
import Googolplex.Crud.Truth

namespace Googolplex.Crud

open Cxx Posix Posix.FileTree RequestHandler Machine

/-! ## 1. The ledger -/

/-- The bodies acknowledged, by suffix: trailing slashes are not part of a target. -/
abbrev Ledger := OrdMap Str Str

/-- The id in the answer to a POST. -/
def answeredId (r : Response) : Str :=
  (r.body.drop "Created entry at \x7b\"id\":".length).takeWhile Char.isDigit

/-- The ledger after a request and its response. -/
def note (handler : RequestHandler) (ledger : Ledger) (request : Request) (r : Response) : Ledger :=
  match handler.checkRequestUrl request.target false with
  | none => ledger
  | some t =>
    match request.method with
    | .post =>
      if r.result = .created then ledger.insert (t ++ '/' :: answeredId r) request.body else ledger
    | .put => if r.result = .ok ∨ r.result = .created then ledger.insert t request.body else ledger
    | .delete => if r.result = .ok then ledger.erase t else ledger
    | _ => ledger

/-- The server, and the ledger of its clients. -/
def serveNoting (handler : RequestHandler) (p : CrudState × Ledger) (request : Request) :
    Except Fault ((CrudState × Ledger) × Response) :=
  match serve handler Disk.reliable p.1 request with
  | .error e => .error e
  | .ok (s', r) => .ok ((s', note handler p.2 request r), r)

/-! ## 2. Care -/

/-- There is no regular file in the directory the key spells. -/
def Vacant (t : FileTree) (d : Path) (e : Str) : Prop := ∀ x, ¬ t.IsFile (x :: spot d e)

/-- **A request that goes by one spelling.** `list`, `bare`: a key becomes known on a vacant
    directory only. `write`: the same, and a file is written where no other known key spells the
    directory. `delete`: the file deleted has the canonical name of the id, or the id has no file
    of its own. -/
structure Careful (handler : RequestHandler) (d : Path) (s : CrudState) (request : Request) :
    Prop where
  list : ∀ t, request.method = .get → handler.checkRequestUrl request.target false = some t →
    Opens s.files d t → s.fileToId[t]? = none → Vacant s.files d t
  write : ∀ e x n, Names handler s request e x n → CanOpen handler s d e →
    (s.fileToId[e]? = none → Vacant s.files d e) ∧
    (¬ s.files.IsDir (x :: spot d e) → ¬ Twin s d e)
  bare : ∀ t (n : Nat), request.method = .put →
    handler.checkRequestUrl request.target false = some t → '/' ∉ t →
    (idNameOf t ≠ [] ∧ (idNameOf t).all Char.isDigit = true) → stoi (idNameOf t) = .ok (n : Int) →
    CanOpen handler s d t → s.fileToId[t]? = none → Vacant s.files d t
  delete : ∀ e x v, request.method = .delete →
    handler.checkRequestUrl request.target false = some (e ++ '/' :: x) → '/' ∉ x →
    stoi x = .ok v → s.fileToId[e]? ≠ none →
    (∃ c, s.files.lookup (pathOf handler (e ++ '/' :: x)) = some (.file c)) →
    x = toStr v ∨ ¬ Holds s.files d e v

/-- **What careful requests keep.** `covered`: no file of a known entity is missing from its list.
    `single`: where files are, one known key spells the directory. `intact`: what the ledger says
    is stored is stored. -/
structure Kept (d : Path) (s : CrudState) (ledger : Ledger) : Prop where
  covered : ∀ k, s.fileToId[k]? ≠ none → ∀ m, Holds s.files d k m → m ∈ idsOf s.fileToId k
  single : ∀ k x, s.fileToId[k]? ≠ none → s.files.IsFile (x :: spot d k) → ¬ Twin s d k
  intact : ∀ (t b : Str), ledger[t]? = some b → ∃ e x, t = e ++ '/' :: x ∧ Plain x ∧
    s.fileToId[e]? ≠ none ∧ s.files.nodes[x :: spot d e]? = some (.file b)

section Survival

variable {handler : RequestHandler} {d : Path} {s s' : CrudState} {request : Request}
  {r : Response} {files : FileTree} {ledger : Ledger} {e : Str} {x : Name} {n : Nat}

theorem Kept.start (files : FileTree) : Kept d ⟨∅, files⟩ ∅ := by
  refine ⟨fun k hk => ?_, fun k x hk => ?_, fun t b h => ?_⟩
  · exact absurd Std.ExtTreeMap.getElem?_empty hk
  · exact absurd Std.ExtTreeMap.getElem?_empty hk
  · rw [Std.ExtTreeMap.getElem?_empty] at h
    cases h

theorem known_insert {m : FileToId} {k : Str} {ids : List Int} :
    (m.insert e ids)[k]? ≠ none ↔ e = k ∨ m[k]? ≠ none := by
  rw [getElem?_assign]
  split <;> simp_all

/-- A key becomes known, or gets more ids, while the files stay what they are. -/
theorem Kept.enter (h : Kept d s ledger) {ids : List Int}
    (hids : ∀ i ∈ idsOf s.fileToId e, i ∈ ids)
    (hvacant : s.fileToId[e]? = none → Vacant s.files d e)
    (hfile : ∀ p, files.IsFile p ↔ s.files.IsFile p)
    (hnode : ∀ (p : Path) (c : Str), s.files.nodes[p]? = some (.file c) →
      files.nodes[p]? = some (.file c)) :
    Kept d ⟨s.fileToId.insert e ids, files⟩ ledger where
  covered k hk m hm := by
    have hm' : Holds s.files d k m := (hfile _).mp hm
    show m ∈ idsOf (s.fileToId.insert e ids) k
    unfold idsOf
    rw [getElem?_assign]
    by_cases hek : e = k
    · subst hek
      rw [if_pos rfl]
      by_cases hun : s.fileToId[e]? = none
      · exact absurd hm' (hvacant hun _)
      · exact hids m (h.covered e hun m hm')
    · rw [if_neg hek]
      rcases known_insert.mp hk with heq | hk'
      · exact absurd heq hek
      · exact h.covered k hk' m hm'
  single k x hk hx := by
    have hx' : s.files.IsFile (x :: spot d k) := (hfile _).mp hx
    -- no key can have become known on a directory that holds `x`
    have hold : ∀ k' : Str, (s.fileToId.insert e ids)[k']? ≠ none → spot d k' = spot d k →
        s.fileToId[k']? ≠ none := by
      intro k' hk' hspot
      rcases known_insert.mp hk' with rfl | hk'
      · intro hun
        exact hvacant hun x (hspot ▸ hx')
      · exact hk'
    intro ⟨k', hk', hne, hspot⟩
    exact h.single k x (hold k hk rfl) hx' ⟨k', hold k' hk' hspot, hne, hspot⟩
  intact t b ht := by
    obtain ⟨e', x', rfl, hx, hk, hnode'⟩ := h.intact t b ht
    exact ⟨e', x', rfl, hx, known_insert.mpr (Or.inr hk), hnode _ _ hnode'⟩

/-- A body is stored, under a key whose directory is its own. -/
theorem Kept.store (h : Kept d s ledger) {body : Str} (hx : Plain x) (hv : stoi x = .ok (n : Int))
    (hvacant : s.fileToId[e]? = none → Vacant s.files d e) (hsolo : ¬ Twin s d e)
    (hdir : Opens s.files d e ∨ s.fileToId[e]? = none ∧ Fresh handler s.files d e)
    (hnodes : ∀ q, files.nodes[q]? = if x :: spot d e = q then some (.file body)
      else if spot d e = q then some .dir else s.files.nodes[q]?) :
    Kept d ⟨register s.fileToId e n, files⟩ (ledger.insert (e ++ '/' :: x) body) := by
  have hfile := isFile_stored hdir hnodes
  have helse : ∀ k, s.fileToId[k]? ≠ none → k ≠ e → spot d k ≠ spot d e :=
    fun k hk hne hspot => hsolo ⟨k, hk, hne, hspot⟩
  refine ⟨fun k hk m hm => ?_, fun k y hk hy => ?_, fun t b ht => ?_⟩
  · have hm' := (hfile _).mp hm
    by_cases hek : e = k
    · subst hek
      show m ∈ idsOf (register s.fileToId e n) e
      rw [idsOf_register_self, mem_withId]
      rcases hm' with heq | hm'
      · exact Or.inl ((toStr_eq_iff hv).mp (List.cons.inj heq).1).1
      · by_cases hun : s.fileToId[e]? = none
        · exact absurd hm' (hvacant hun _)
        · exact Or.inr (h.covered e hun m hm')
    · have hk' : s.fileToId[k]? ≠ none := (known_insert.mp hk).resolve_left hek
      show m ∈ idsOf (register s.fileToId e n) k
      rw [idsOf_register_of_ne _ _ hek]
      rcases hm' with heq | hm'
      · exact absurd (List.cons.inj heq).2 (helse k hk' (Ne.symm hek))
      · exact h.covered k hk' m hm'
  · intro ⟨k', hk', hne, hspot⟩
    by_cases hek : e = k
    · subst hek
      have hk'' : s.fileToId[k']? ≠ none := (known_insert.mp hk').resolve_left (Ne.symm hne)
      exact hsolo ⟨k', hk'', hne, hspot⟩
    · have hkold : s.fileToId[k]? ≠ none := (known_insert.mp hk).resolve_left hek
      have hy' : s.files.IsFile (y :: spot d k) := by
        rcases (hfile _).mp hy with heq | hy'
        · exact absurd (List.cons.inj heq).2 (helse k hkold (Ne.symm hek))
        · exact hy'
      by_cases hek' : e = k'
      · subst hek'
        exact helse k hkold (Ne.symm hek) hspot.symm
      · exact h.single k y hkold hy'
          ⟨k', (known_insert.mp hk').resolve_left hek', hne, hspot⟩
  · rw [getElem?_assign] at ht
    split at ht
    · rename_i heq
      cases ht
      refine ⟨e, x, heq.symm, hx, known_insert.mpr (Or.inl rfl), ?_⟩
      rw [hnodes, if_pos rfl]
    · rename_i hne
      obtain ⟨e', x', rfl, hx', hk, hnode⟩ := h.intact t b ht
      refine ⟨e', x', rfl, hx', known_insert.mpr (Or.inr hk), ?_⟩
      rw [hnodes, if_neg, if_neg]
      · exact hnode
      · intro heq
        rcases hdir with ho | ⟨_, hnone, _⟩
        · have hd : s.files.IsDir (x' :: spot d e') := heq ▸ ho.2
          unfold IsDir at hd
          rw [hnode] at hd
          cases hd
        · rw [heq, hnode] at hnone
          cases hnone
      · intro heq
        obtain ⟨rfl, hspot⟩ := List.cons.inj heq
        by_cases hee : e' = e
        · exact hne (by rw [hee])
        · exact helse e' hk hee hspot.symm

/-- A file is deleted, and with it its own number. -/
theorem Kept.remove (h : Kept d s ledger) {v : Int} {ids : List Int} (hv : stoi x = .ok v)
    (hk : s.fileToId[e]? = some ids) (hf : s.files.IsFile (x :: spot d e))
    (hown : x = toStr v ∨ ¬ Holds s.files d e v)
    (hnodes : ∀ q, files.nodes[q]? = if x :: spot d e = q then none else s.files.nodes[q]?) :
    Kept d ⟨s.fileToId.insert e (ids.filter (· ≠ v)), files⟩ (ledger.erase (e ++ '/' :: x)) := by
  have hfile := isFile_deleted hnodes
  have hknown : s.fileToId[e]? ≠ none := by rw [hk]; simp
  have hsame : ∀ k : Str, (s.fileToId.insert e (ids.filter (· ≠ v)))[k]? ≠ none ↔
      s.fileToId[k]? ≠ none := by
    intro k
    rw [known_insert]
    refine ⟨fun hor => hor.elim (fun hek => hek ▸ hknown) id, Or.inr⟩
  refine ⟨fun k hk' m hm => ?_, fun k y hk' hy => ?_, fun t b ht => ?_⟩
  · obtain ⟨hne, hm'⟩ := (hfile _).mp hm
    have hold := h.covered k ((hsame k).mp hk') m hm'
    show m ∈ idsOf (s.fileToId.insert e (ids.filter (· ≠ v))) k
    unfold idsOf
    rw [getElem?_assign]
    by_cases hek : e = k
    · subst hek
      rw [if_pos rfl]
      rw [idsOf_of_some hk] at hold
      refine List.mem_filter.mpr ⟨hold, decide_eq_true fun hmv => ?_⟩
      subst hmv
      rcases hown with hx | hno
      · exact hne (by rw [hx])
      · exact hno hm'
    · rw [if_neg hek]
      exact hold
  · obtain ⟨_, hy'⟩ := (hfile _).mp hy
    intro ⟨k', hk'', hne, hspot⟩
    exact h.single k y ((hsame k).mp hk') hy' ⟨k', (hsame k').mp hk'', hne, hspot⟩
  · rw [getElem?_remove] at ht
    split at ht
    · cases ht
    · rename_i hne
      obtain ⟨e', x', rfl, hx', hk', hnode⟩ := h.intact t b ht
      refine ⟨e', x', rfl, hx', (hsame e').mpr hk', ?_⟩
      rw [hnodes, if_neg]
      · exact hnode
      · intro heq
        obtain ⟨rfl, hspot⟩ := List.cons.inj heq
        by_cases hee : e' = e
        · exact hne (by rw [hee])
        · exact h.single e x hknown hf ⟨e', hk', hee, hspot.symm⟩

/-! ## 3. One request -/

/-- The client reads the id back from the answer. -/
theorem answeredId_created {i : Int} {listed : Prop} [Decidable listed] (hl : ¬ listed) (hi : 0 ≤ i)
    (hb : r.body = storedBody listed i) : answeredId r = toStr i := by
  obtain ⟨k, rfl⟩ := Int.eq_ofNat_of_zero_le hi
  have hdigits : (decimal k).takeWhile Char.isDigit = decimal k :=
    List.takeWhile_eq_self_iff.mpr fun _ => isDigit_of_mem_decimal
  have hsplit : storedBody listed (k : Int) =
      "Created entry at \x7b\"id\":".toList ++ (decimal k ++ "\x7d\n".toList) := by
    unfold storedBody
    rw [if_neg hl, toStr_natCast, List.append_assoc]
    rfl
  have hlen : "Created entry at \x7b\"id\":".length = "Created entry at \x7b\"id\":".toList.length := by
    decide
  unfold answeredId
  rw [hb, hsplit, hlen, List.drop_left, List.takeWhile_append, hdigits, if_pos rfl, toStr_natCast]
  show decimal k ++ [] = decimal k
  rw [List.append_nil]

theorem note_of_error (h : 400 ≤ r.result.toNat) : note handler ledger request r = ledger := by
  have hok : r.result ≠ .ok := fun e => by rw [e] at h; exact absurd h (by decide)
  have hcreated : r.result ≠ .created := fun e => by rw [e] at h; exact absurd h (by decide)
  unfold note
  split
  · rfl
  · split
    · rw [if_neg hcreated]
    · rw [if_neg (not_or.mpr ⟨hok, hcreated⟩)]
    · rw [if_neg hok]
    · rfl

theorem note_of_get (h : request.method = .get) : note handler ledger request r = ledger := by
  unfold note
  split
  · rfl
  · rw [h]

/-- A stored body is noted under its own target. -/
theorem note_of_stored (hw : Wf handler d s) (hn : Names handler s request e x n)
    (hr : r.result = if (n : Int) ∈ idsOf s.fileToId e then .ok else .created)
    (hb : r.body = storedBody ((n : Int) ∈ idsOf s.fileToId e) n) :
    note handler ledger request r = ledger.insert (e ++ '/' :: x) request.body := by
  unfold note
  cases hn with
  | post hm ht hid =>
      obtain ⟨_, _, hnew, _⟩ := getNextId_ok (hw.sorted_idsOf e) hid
      rw [if_neg hnew] at hr
      rw [ht, hm]
      simp only
      rw [if_pos hr, answeredId_created hnew (by omega) hb, toStr_natCast]
  | put hm ht hx hd hv =>
      rw [ht, hm]
      simp only
      rw [if_pos]
      rw [hr]
      split
      · exact Or.inl rfl
      · exact Or.inr rfl

/-- **A careful request keeps what the ledger says.** -/
theorem kept_step (hw : Wf handler d s) (h : Kept d s ledger) (hc : Careful handler d s request)
    (hx : Exit handler d s request s' r) : Kept d s' (note handler ledger request r) := by
  cases hx with
  | refused href hr =>
      rw [note_of_error (hr ▸ href.error)]
      exact h
  | read hm =>
      rw [note_of_get hm]
      exact h
  | @listed t r hm ht ho =>
      rw [note_of_get hm]
      exact h.enter (fun i hi => hi) (hc.list t hm ht ho) (fun _ => Iff.rfl) fun _ _ hp => hp
  | @stored e x n files r hn hdir hfree hg ho hnodes hr hb =>
      have hcan : CanOpen handler s d e := hdir.imp_right fun hfresh => hfresh.2.2
      obtain ⟨hvacant, hsolo⟩ := hc.write e x n hn hcan
      rw [note_of_stored hw hn hr hb]
      exact h.store hn.plain (hn.stoi_eq hw) hvacant (hsolo hfree) hdir hnodes
  | @blocked e x n r hn ho hd hr =>
      rw [note_of_error hr]
      exact h.enter (fun i hi => mem_withId.mpr (Or.inr hi)) (hc.write e x n hn (Or.inl ho)).1
        (fun _ => Iff.rfl) fun _ _ hp => hp
  | @bare t n files r hm ht hne hd hv hmade hr =>
      have hs : '/' ∉ t := (plain_of_digits hne hd).2.2.2
      have hid : idNameOf t = t := (suffix_whole hs).1
      have hcan : CanOpen handler s d t := hmade.free.imp And.left And.right
      have hdig : idNameOf t ≠ [] ∧ (idNameOf t).all Char.isDigit = true := by
        rw [hid]
        exact ⟨hne, List.all_eq_true.mpr hd⟩
      have hvacant := hc.bare t n hm ht hs hdig (by rw [hid]; exact hv) hcan
      rw [note_of_error hr]
      refine h.enter (fun i hi => mem_withId.mpr (Or.inr hi)) hvacant (isFile_made hmade) ?_
      intro p c hp
      rw [hmade.nodes, if_neg]
      · exact hp
      · rintro rfl
        rcases hmade.free with ⟨ho, _⟩ | ⟨hnone, _⟩
        · have hdir := ho.2
          unfold IsDir at hdir
          rw [hp] at hdir
          cases hdir
        · rw [hp] at hnone
          cases hnone
  | @deleted e x v ids files r hm ht hpx hv hk hf hg hnodes hr =>
      have hnote : note handler ledger request r = ledger.erase (e ++ '/' :: x) := by
        unfold note
        rw [ht, hm]
        simp only
        rw [if_pos hr]
      rw [hnote]
      obtain ⟨c, hc'⟩ := hf
      have hown := hc.delete e x v hm ht hpx.2.2.2 hv (by rw [hk]; simp)
        ⟨c, lookup_file_below hw hk hpx hc'⟩
      exact h.remove hv hk ⟨c, hc'⟩ hown hnodes

/-- **A careful POST finds no file where it writes.** -/
theorem post_fresh (hw : Wf handler d s) (h : Kept d s ledger) (hc : Careful handler d s request)
    (hm : request.method = .post) (ht : handler.checkRequestUrl request.target false = some e)
    (hs : serve handler Disk.reliable s request = .ok (s', r)) (hr : r.result = .created) :
    s.files.lookup (pathOf handler (e ++ '/' :: answeredId r)) = none := by
  have hx := serve_exit hw hs
  have hfail : ¬ 400 ≤ r.result.toNat := by rw [hr]; decide
  cases hx with
  | refused href hr' => exact absurd (hr' ▸ href.error) hfail
  | listed hm' | read hm' | bare hm' | deleted hm' => rw [hm] at hm'; cases hm'
  | blocked hn ho hd hr' => exact absurd hr' hfail
  | @stored e' x n files r hn hdir hfree hg ho hnodes hr' hb =>
      have hcan : CanOpen handler s d e' := hdir.imp_right fun hfresh => hfresh.2.2
      obtain ⟨hvacant, _⟩ := hc.write e' x n hn hcan
      cases hn with
      | put hm' => rw [hm] at hm'; cases hm'
      | post hm' ht' hid =>
          rw [ht] at ht'
          cases ht'
          obtain ⟨_, _, hnew, _⟩ := getNextId_ok (hw.sorted_idsOf e) hid
          rw [answeredId_created hnew (by omega) hb, toStr_natCast]
          -- neither a directory nor a file is there: a file would be listed
          have hnone : s.files.nodes[decimal n :: spot d e]? = none := by
            cases hnode : s.files.nodes[decimal n :: spot d e]? with
            | none => rfl
            | some node =>
                cases node with
                | dir => exact absurd hnode hfree
                | file c =>
                    exfalso
                    by_cases hk : s.fileToId[e]? = none
                    · exact hvacant hk _ ⟨c, hnode⟩
                    · refine hnew (h.covered e hk n ?_)
                      unfold Holds
                      rw [toStr_natCast]
                      exact ⟨c, hnode⟩
          rcases hdir with hopen | ⟨_, hfree', _⟩
          · rw [hopen.lookup_below hw.home (plain_decimal n)]
            exact hnone
          · -- the directory is not there either
            rw [lookup_pathOf hw.home, segments_append,
              segments_of_not_mem (plain_decimal n).2.2.2, walk_concat]
            cases hwalk : s.files.walk d (segments e) with
            | none => rfl
            | some q =>
                obtain rfl : q = spot d e := walk_normal hwalk
                rw [Option.bind_some, if_neg]
                · rfl
                · intro hd
                  unfold IsDir at hd
                  rw [hfree'] at hd
                  cases hd

/-! ## 4. Runs -/

theorem serveNoting_ok {p p' : CrudState × Ledger}
    (h : serveNoting handler p request = .ok (p', r)) :
    serve handler Disk.reliable p.1 request = .ok (p'.1, r) ∧
      p'.2 = note handler p.2 request r := by
  unfold serveNoting at h
  split at h
  · cases h
  · rename_i hs
    cases h
    exact ⟨hs, rfl⟩

/-- The state is well-formed and the ledger true. -/
def Accounted (handler : RequestHandler) (d : Path) (p : CrudState × Ledger) : Prop :=
  Wf handler d p.1 ∧ Kept d p.1 p.2

theorem accounted_step (p : CrudState × Ledger) (request : Request) (p' : CrudState × Ledger)
    (r : Response) (hp : Accounted handler d p) (hc : Careful handler d p.1 request)
    (hs : serveNoting handler p request = .ok (p', r)) : Accounted handler d p' := by
  obtain ⟨hserve, hnote⟩ := serveNoting_ok hs
  have hx := serve_exit hp.1 hserve
  unfold Accounted
  rw [hnote]
  exact ⟨hx.wf hp.1, kept_step hp.1 hp.2 hc hx⟩

/-- **POST never destroys stored data**, along careful requests: every body that was acknowledged
    and neither deleted nor put over through its own target is returned by GET, and a POST that is
    answered with an id found nothing at the path it wrote. -/
theorem post_keeps_data (hh : Home handler files d) {requests : List Request}
    {responses : List Response}
    (hrun : run (serveNoting handler) (⟨∅, files⟩, ∅) requests = .ok ((s, ledger), responses))
    (hcareful : Along (serveNoting handler) (fun p request => Careful handler d p.1 request)
      (⟨∅, files⟩, ∅) requests) :
    (∀ (t b : Str), ledger[t]? = some b → ∀ request : Request, request.method = .get →
      handler.checkRequestUrl request.target false = some t →
      ∃ r, serve handler Disk.reliable s request = .ok (s, r) ∧ r.result = .ok ∧ r.body = b) ∧
    (∀ (request : Request) (e : Str) (s' : CrudState) (r : Response), request.method = .post →
      handler.checkRequestUrl request.target false = some e → Careful handler d s request →
      serve handler Disk.reliable s request = .ok (s', r) → r.result = .created →
      s.files.lookup (pathOf handler (e ++ '/' :: answeredId r)) = none) := by
  obtain ⟨hw, hk⟩ : Accounted handler d (s, ledger) :=
    run_invariant accounted_step ⟨Wf.start hh, Kept.start files⟩ hcareful hrun
  refine ⟨fun t b hb request hm ht => ?_, fun request e s' r hm ht hc hs hr =>
    post_fresh hw hk hc hm ht hs hr⟩
  obtain ⟨e, x, rfl, hx, hknown, hnode⟩ := hk.intact t b hb
  obtain ⟨ids, hids⟩ := Option.ne_none_iff_exists'.mp hknown
  exact serve_get_file hw hm ht (lookup_file_below hw hids hx hnode)

end Survival

/-- A POST is careful if its key is known or its directory vacant, and no other key spells it. -/
theorem careful_post {handler : RequestHandler} {d : Path} {s : CrudState} {request : Request} {e : Str}
    (hm : request.method = .post) (ht : handler.checkRequestUrl request.target false = some e)
    (hvacant : s.fileToId[e]? = none → Vacant s.files d e) (halone : ¬ Twin s d e) :
    Careful handler d s request where
  list t hget := by rw [hm] at hget; cases hget
  write e' x n hn _ := by
    cases hn with
    | put hput => rw [hm] at hput; cases hput
    | post _ ht' _ =>
        rw [ht] at ht'
        cases ht'
        exact ⟨hvacant, fun _ => halone⟩
  bare t n hput := by rw [hm] at hput; cases hput
  delete e' x v hdelete := by rw [hm] at hdelete; cases hdelete

/-- Two POSTs to one entity of the empty api. -/
def twoBodies : List Request := [ask .post "/api/e" "A", ask .post "/api/e" "B"]

theorem twoBodies_careful : Along (serveNoting apiHandler)
    (fun p request => Careful apiHandler ["data".toList] p.1 request) (apiStart, ∅) twoBodies := by
  have hurl : ∀ body, apiHandler.checkRequestUrl (ask .post "/api/e" body).target false =
      some "e".toList := fun _ => by
    show apiHandler.checkRequestUrl "/api/e".toList false = _
    decide
  have hnone : ∀ k : Str, apiStart.fileToId[k]? = none := fun _ => Std.ExtTreeMap.getElem?_empty
  refine ⟨careful_post rfl (hurl "A") (fun _ x ⟨c, hc⟩ => ?_) fun ⟨k, hk, _⟩ => hk (hnone k),
    fun p r hp => ⟨careful_post rfl (hurl "B") (fun hun => ?_) fun ⟨k, hk, hne, _⟩ => ?_,
      fun _ _ _ => trivial⟩⟩
  · -- there is no directory yet
    have hdir := apiStart.files.parentDir x (spot ["data".toList] "e".toList) (by rw [hc]; simp)
    exact absurd hdir (by decide)
  all_goals
    have hlist : (serveNoting apiHandler (apiStart, ∅) (ask .post "/api/e" "A")).map
        (fun v => v.1.1.fileToId.toList) = .ok [("e".toList, [1])] := by decide
    rw [hp] at hlist
    have hlist : p.1.fileToId.toList = [("e".toList, [1])] := Except.ok.inj hlist
  · have hmem : ("e".toList, [1]) ∈ p.1.fileToId.toList := by rw [hlist]; exact List.mem_cons_self
    rw [Std.ExtTreeMap.mem_toList_iff_getElem?_eq_some.mp hmem] at hun
    cases hun
  · obtain ⟨ids, hids⟩ := Option.ne_none_iff_exists'.mp hk
    have hmem := Std.ExtTreeMap.mem_toList_iff_getElem?_eq_some.mpr hids
    rw [hlist, List.mem_singleton] at hmem
    exact hne (Prod.mk.inj hmem).1

/-- `post_keeps_data` for two POSTs: the first body is still there after the second, and nothing is
    where a third will write. -/
theorem post_keeps_data_two : ∃ s ledger responses,
    run (serveNoting apiHandler) (apiStart, ∅) twoBodies = .ok ((s, ledger), responses) ∧
    ledger["e/1".toList]? = some "A".toList ∧
    (∀ (t b : Str), ledger[t]? = some b → ∀ request : Request, request.method = .get →
      apiHandler.checkRequestUrl request.target false = some t →
      ∃ r, serve apiHandler Disk.reliable s request = .ok (s, r) ∧ r.result = .ok ∧ r.body = b) ∧
    (∀ (request : Request) (e : Str) (s' : CrudState) (r : Response), request.method = .post →
      apiHandler.checkRequestUrl request.target false = some e →
      Careful apiHandler ["data".toList] s request →
      serve apiHandler Disk.reliable s request = .ok (s', r) → r.result = .created →
      s.files.lookup (pathOf apiHandler (e ++ '/' :: answeredId r)) = none) := by
  have hledger : (run (serveNoting apiHandler) (apiStart, ∅) twoBodies).map
      (fun v => v.1.2["e/1".toList]?) = .ok (some "A".toList) := by decide
  cases h : run (serveNoting apiHandler) (apiStart, ∅) twoBodies with
  | error f => rw [h] at hledger; cases hledger
  | ok v =>
      rw [h] at hledger
      exact ⟨v.1.1, v.1.2, v.2, rfl, Except.ok.inj hledger,
        post_keeps_data home_apiStart h twoBodies_careful⟩

/-- **Two spellings of one directory**: a POST to `./e` destroys what a POST to `e` stored. -/
theorem post_overwrites : ¬ ∀ s ledger responses,
    run (serveNoting apiHandler) (apiStart, ∅) [ask .post "/api/e" "A", ask .post "/api/./e" "B"] =
      .ok ((s, ledger), responses) →
    ∀ (t b : Str), ledger[t]? = some b → ∀ request : Request, request.method = .get →
      apiHandler.checkRequestUrl request.target false = some t →
      ∃ r, serve apiHandler Disk.reliable s request = .ok (s, r) ∧ r.result = .ok ∧ r.body = b := by
  intro h
  have hs : (run (serveNoting apiHandler) (apiStart, ∅)
        [ask .post "/api/e" "A", ask .post "/api/./e" "B"]).map
      (fun v => (v.1.2["e/1".toList]?,
        ((serve apiHandler Disk.reliable v.1.1 (ask .get "/api/e/1" "")).toOption.map
          fun w => w.2.body))) =
      .ok (some "A".toList, some "B".toList) := by decide
  cases hv : run (serveNoting apiHandler) (apiStart, ∅)
      [ask .post "/api/e" "A", ask .post "/api/./e" "B"] with
  | error f => rw [hv] at hs; cases hs
  | ok v =>
      rw [hv] at hs
      simp only [Except.map, Except.ok.injEq, Prod.mk.injEq] at hs
      obtain ⟨r, hr, _, hb⟩ := h v.1.1 v.1.2 v.2 hv _ _ hs.1 (ask .get "/api/e/1" "") rfl
        (by decide)
      rw [hr] at hs
      simp only [Except.toOption, Option.map_some, Option.some.injEq] at hs
      rw [hb] at hs
      exact absurd hs.2 (by decide)

end Googolplex.Crud
