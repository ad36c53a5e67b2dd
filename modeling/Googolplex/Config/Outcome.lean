/-
  File:      Googolplex/Config/Outcome.lean
  Subject:   WHEN TWO FILES COME TO THE SAME: the result, the tree, the port and the map.

  What `Parse` hands out is decided by the lexemes that are read before the first one
  that does not fit, and by whether those are all.

  * `parse_outcome`, `same_iff`: the result and what is left, of one file and of two.
  * `said_step`: where no block is opened in the place of another, the words of the
    tree are the words that were read.
-/
import Googolplex.Config.Accesses

namespace Googolplex.Config

open Cxx Blocks

variable {r r' : Reading} {input input' : Str} {t : Lexeme Str} {ts us : List (Lexeme Str)}
  {whole whole' : Bool}

/-! ## 1. Results -/

/-- Everything is read, and a statement has just ended with nothing open. -/
def Reading.Completes (r : Reading) (ts : List (Lexeme Str)) (whole : Bool) : Prop :=
  whole = true ∧ (r.upTo ts).2 = [] ∧ (r.upTo ts).1.Finished

/-- **`Parse` gives the same result for both**, the same tree, the same port and the same map. -/
def Same (input input' : Str) : Prop :=
  ∃ valid s s', parse input [] ∅ = .ok (valid, s) ∧ parse input' [] ∅ = .ok (valid, s') ∧
    s.config = s'.config ∧ s.port = s'.port ∧ s.addrmap = s'.addrmap

/-- The result is true where everything is read. -/
theorem accepted_iff_completes (hd : Lexed input ts whole) :
    Accepted input ↔ Reading.start.Completes ts whole := by
  constructor
  · intro ⟨s, hs⟩
    obtain ⟨us, r', hd', hread, hfin, _⟩ := parse_true_iff.mp hs
    obtain ⟨rfl, rfl⟩ := hd.unique hd'.lexed
    unfold Reading.Completes
    rw [upTo_of_read hread]
    exact ⟨rfl, rfl, hfin⟩
  · intro ⟨hwhole, hall, hfin⟩
    obtain ⟨p, hp, hread, _⟩ := upTo_cut Reading.start ts
    rw [hall, List.append_nil] at hp
    subst hp hwhole
    exact ⟨_, parse_true_iff.mpr ⟨ts, _, hd.delivers, hread, hfin, rfl⟩⟩

/-- **The outcome of a file** that leaves none open. -/
theorem parse_outcome (hd : Lexed input ts whole) (hno : ¬ LeavesOpen input) :
    ∃ valid s, parse input [] ∅ = .ok (valid, s) ∧
      (valid = true ↔ Reading.start.Completes ts whole) ∧
      s.config = (Reading.start.upTo ts).1.state.config ∧
      s.port = (Reading.start.upTo ts).1.settings.port ∧
      s.addrmap = (Reading.start.upTo ts).1.settings.addrmap := by
  obtain ⟨valid, s, hs, hleft⟩ :=
    (parse_leaves hd).defined fun hu => hno ((leavesOpen_iff hd).mpr hu)
  refine ⟨valid, s, hs, ?_, hleft⟩
  rw [← accepted_iff_completes hd]
  constructor
  · rintro rfl
    exact ⟨s, hs⟩
  · intro ⟨s', hs'⟩
    rw [hs] at hs'
    cases hs'
    rfl

/-- A file that leaves its outcome open is the same as none. -/
theorem Same.defined (h : Same input input') : ¬ LeavesOpen input ∧ ¬ LeavesOpen input' := by
  obtain ⟨valid, s, s', hs, hs', _⟩ := h
  constructor
  · rw [← safe_iff]
    constructor <;> (rw [hs]; exact nofun)
  · rw [← safe_iff]
    constructor <;> (rw [hs']; exact nofun)

/-- **When two files come to the same**: their outcomes are defined, both are read to the end or
    neither, and what was read leaves the same. -/
theorem same_iff (hd : Lexed input ts whole) (hd' : Lexed input' us whole') :
    Same input input' ↔ (¬ LeavesOpen input ∧ ¬ LeavesOpen input') ∧
      (Reading.start.Completes ts whole ↔ Reading.start.Completes us whole') ∧
      (Reading.start.upTo ts).1.state.config = (Reading.start.upTo us).1.state.config ∧
      (Reading.start.upTo ts).1.settings.port = (Reading.start.upTo us).1.settings.port ∧
      (Reading.start.upTo ts).1.settings.addrmap = (Reading.start.upTo us).1.settings.addrmap := by
  constructor
  · intro h
    have hdefined := h.defined
    obtain ⟨valid, s, s', hs, hs', hconfig, hport, hmap⟩ := h
    obtain ⟨v, o, ho, hv, hc, hp, hm⟩ := parse_outcome hd hdefined.1
    obtain ⟨v', o', ho', hv', hc', hp', hm'⟩ := parse_outcome hd' hdefined.2
    rw [hs] at ho
    rw [hs'] at ho'
    cases ho
    cases ho'
    exact ⟨hdefined, hv.symm.trans hv', (hc.symm.trans hconfig).trans hc',
      (hp.symm.trans hport).trans hp', (hm.symm.trans hmap).trans hm'⟩
  · intro ⟨⟨hno, hno'⟩, hcompletes, hconfig, hport, hmap⟩
    obtain ⟨valid, s, hs, hv, hc, hp, hm⟩ := parse_outcome hd hno
    obtain ⟨valid', s', hs', hv', hc', hp', hm'⟩ := parse_outcome hd' hno'
    have hvalid : valid = valid' := by
      rw [← hv, ← hv'] at hcompletes
      cases valid <;> cases valid' <;> simp_all
    subst hvalid
    exact ⟨valid, s, s', hs, hs', (hc.trans hconfig).trans hc'.symm, (hp.trans hport).trans hp'.symm,
      (hm.trans hmap).trans hm'.symm⟩

/-- Two files of which the same is read come to the same. -/
theorem same_of_read (hd : Lexed input ts whole) (hd' : Lexed input' us whole')
    (hno : ¬ LeavesOpen input) (hno' : ¬ LeavesOpen input')
    (hread : (Reading.start.upTo ts).1 = (Reading.start.upTo us).1)
    (hcompletes : Reading.start.Completes ts whole ↔ Reading.start.Completes us whole') :
    Same input input' := by
  refine (same_iff hd hd').mpr ⟨⟨hno, hno'⟩, hcompletes, ?_, ?_, ?_⟩ <;> rw [hread]

/-- What fits is read, and the rest decides. -/
theorem completes_step (hs : r.step t = some r') (ts : List (Lexeme Str)) (whole : Bool) :
    r.Completes (t :: ts) whole ↔ r'.Completes ts whole := by
  unfold Reading.Completes
  rw [upTo_step hs]

/-- Where a lexeme does not fit, not everything is read. -/
theorem not_completes_stuck (hs : r.step t = none) (ts : List (Lexeme Str)) (whole : Bool) :
    ¬ r.Completes (t :: ts) whole := by
  intro ⟨_, hall, _⟩
  rw [upTo_stuck hs] at hall
  cases hall

/-! ## 2. The words of the tree -/

/-- The words of the tree that has been read. -/
def Reading.said (r : Reading) : List Str := wordsIn (lexemesOf r.state.config)

/-- What is known of a reading; and that a statement that a `;` ended has no block. -/
structure Reading.Tidy (r : Reading) : Prop where
  fit : r.Fit
  ended : r.last = some .semi → ∃ ss tokens, r.focus = ss ++ [.mk tokens none]

theorem Reading.Tidy.start : Reading.start.Tidy := ⟨Reading.Fit.start, nofun⟩

theorem Reading.Tidy.step (h : r.Tidy) (hw : ∀ w, t = .word w → w ≠ []) (hs : r.step t = some r') :
    r'.Tidy := by
  refine ⟨h.fit.step hw hs, fun hlast => ?_⟩
  obtain rfl : t = .semi := Option.some.inj ((Reading.step_last hs).symm.trans hlast)
  obtain ⟨⟨v, hv⟩, rfl⟩ := Reading.step_semi.mp hs
  obtain ⟨ss, tokens, hfocus⟩ := h.fit.word v hv
  exact ⟨ss, tokens ++ [v], hfocus⟩

/-- A `{` that is not right after a `}` opens the first block of its statement. -/
theorem Reading.Tidy.childless (h : r.Tidy) (hs : r.step .opn = some r')
    (hlast : r.last ≠ some .cls) : ∃ ss tokens, r.focus = ss ++ [.mk tokens none] := by
  obtain ⟨ss, tokens, c, hfocus⟩ := Reading.step_opn_isSome hs
  have hempty : r.focus ≠ [] := by
    rw [hfocus]
    exact List.append_ne_nil_of_right_ne_nil _ (List.cons_ne_nil _ _)
  cases hl : r.last with
  | none => exact absurd (h.fit.empty (Or.inl hl)) hempty
  | some l =>
      cases l with
      | word v =>
          obtain ⟨ss, tokens, hword⟩ := h.fit.word v hl
          exact ⟨ss, tokens ++ [v], hword⟩
      | semi => exact h.ended hl
      | opn => exact absurd (h.fit.empty (Or.inr hl)) hempty
      | cls => exact absurd hl hlast

/-- **A lexeme adds its word** to those of the tree. -/
theorem said_step (h : r.Tidy) (hblock : NotAfterBlock r.last t) (hs : r.step t = some r') :
    r'.said = r.said ++ wordsIn [t] := by
  obtain ⟨before, hplug⟩ := wordsIn_plug r.frames
  have hsaid : r.said = before ++ wordsIn (lexemesOf r.focus) := hplug r.focus
  cases t with
  | word w =>
      by_cases hlast : ∃ v, r.last = some (.word v)
      · obtain ⟨v, hv⟩ := hlast
        rw [Reading.step_further hv] at hs
        split at hs
        · cases hs
          obtain ⟨ss, tokens, hfocus⟩ := h.fit.word v hv
          rw [hsaid]
          refine (hplug _).trans ?_
          rw [hfocus, modifyBack_append, pushToken, lexemesOf_append, lexemesOf_append,
            wordsIn_append, wordsIn_append, wordsIn_simple, wordsIn_simple]
          simp [wordsIn]
        · cases hs
      · rw [Reading.step_first fun v hv => hlast ⟨v, hv⟩] at hs
        cases hs
        rw [hsaid]
        refine (hplug _).trans ?_
        rw [lexemesOf_append, wordsIn_append, wordsIn_simple, List.append_assoc]
        rfl
  | semi =>
      obtain ⟨_, rfl⟩ := Reading.step_semi.mp hs
      exact (List.append_nil _).symm
  | opn =>
      obtain ⟨ss, tokens, hfocus⟩ := h.childless hs (hblock rfl)
      rw [Reading.step_opn hfocus] at hs
      cases hs
      refine (hplug (ss ++ [.mk tokens (some [])])).trans ?_
      rw [hsaid, hfocus, lexemesOf_append, lexemesOf_append, wordsIn_append, wordsIn_append,
        wordsIn_simple, wordsIn_block]
      simp [wordsIn, lexemesOf]
  | cls =>
      obtain ⟨l, f, fs, hlast, hl, hframes⟩ := Reading.step_cls_isSome hs
      rw [Reading.step_cls hlast hl hframes] at hs
      cases hs
      have hsame : plug r.frames r.focus = plug fs (f.before ++ [.mk f.tokens (some r.focus)]) := by
        rw [hframes]
        rfl
      unfold Reading.said Reading.state
      rw [hsame]
      exact (List.append_nil _).symm

/-- **What is read further is added** to the words. -/
theorem said_upTo (h : r.Tidy) (hw : ∀ w, Lexeme.word w ∈ ts → w ≠ [])
    (hblocks : Chained NotAfterBlock r.last ts) : r.said <+: (r.upTo ts).1.said := by
  induction ts generalizing r with
  | nil => exact List.prefix_rfl
  | cons t ts ih =>
      cases hs : r.step t with
      | none =>
          rw [upTo_stuck hs]
      | some r1 =>
          rw [upTo_step hs]
          have hrest : Chained NotAfterBlock r1.last ts := by
            rw [Reading.step_last hs]
            exact hblocks.2
          have hmore := ih (h.step (fun w ht => hw w (ht ▸ List.mem_cons_self)) hs)
            (fun w hm => hw w (List.mem_cons_of_mem _ hm)) hrest
          rw [said_step h hblocks.1 hs] at hmore
          exact (List.prefix_append _ _).trans hmore

/-- **A word that is read** stays where it was read. -/
theorem said_word {w : Str} (h : r.Tidy) (hw : ∀ v, Lexeme.word v ∈ Lexeme.word w :: ts → v ≠ [])
    (hblocks : Chained NotAfterBlock r.last (.word w :: ts)) (hs : r.step (.word w) = some r') :
    r.said ++ [w] <+: (r.upTo (.word w :: ts)).1.said := by
  rw [upTo_step hs, ← show r'.said = r.said ++ [w] from said_step h hblocks.1 hs]
  refine said_upTo (h.step (fun v hv => hw v (hv ▸ List.mem_cons_self)) hs)
    (fun v hv => hw v (List.mem_cons_of_mem _ hv)) ?_
  rw [Reading.step_last hs]
  exact hblocks.2

/-- **A word that is read shows**: where another word comes, or none, the words of the tree are
    others. -/
theorem said_differs {w : Str} (h : r.Tidy) (hs : r.step (.word w) = some r')
    (hw : ∀ v, Lexeme.word v ∈ Lexeme.word w :: ts → v ≠ []) (hw' : ∀ v, Lexeme.word v ∈ us → v ≠ [])
    (hblocks : Chained NotAfterBlock r.last (.word w :: ts))
    (hblocks' : Chained NotAfterBlock r.last us)
    (hother : us = [] ∨ ∃ v us', us = .word v :: us' ∧ v ≠ w) :
    (r.upTo (.word w :: ts)).1.said ≠ (r.upTo us).1.said := by
  have hmore := said_word h hw hblocks hs
  intro heq
  rw [heq] at hmore
  rcases hother with rfl | ⟨v, us', rfl, hne⟩
  · have hlength := hmore.length_le
    simp [Reading.upTo] at hlength
  · cases hv : r.step (.word v) with
    | none =>
        rw [upTo_stuck hv] at hmore
        have hlength := hmore.length_le
        simp at hlength
    | some r1 =>
        have hlists := List.IsPrefix.eq_of_length
          (List.prefix_of_prefix_length_le hmore (said_word h hw' hblocks' hv) (by simp)) (by simp)
        exact hne (List.singleton_inj.mp (List.append_cancel_left hlists)).symm

end Googolplex.Config
