/-
  File:      Googolplex/Config/Grammar.lean
  Subject:   WHAT `Parse` ACCEPTS.

  * `accepted_iff_grammatical`: the grammar, widened by the rule that any
    statement may open a further block, with ports after `listen`.
  * `parse_accepts_grammar_iff`: the header's "true iff the input config file
    is valid" holds of a file exactly if no `{` of it stands where only the
    wider rule has it: `Parse` asks nothing of what comes before a `{`.
-/
import Googolplex.Config.Frames

namespace Googolplex.Config

open Cxx Blocks

/-- Every word right after the word `listen` is a port. -/
def PortsOk (ts : List (Lexeme Str)) : Prop := Chained (Agree PortOk) none ts

/-- Every `{` comes right after a word. -/
def OpensAfterWords (ts : List (Lexeme Str)) : Prop := Chained AfterWord none ts

/-- The file's lexemes derive from the grammar, and its ports are ports. -/
def Grammatical (reopen : Bool) (input : Str) : Prop :=
  ∃ ts, Delivers input ts ∧ Derives reopen .config ts ∧ PortsOk ts

/-- The file is one the wider grammar derives, with ports, and some `{` of it comes after `;` or
    `}`. -/
def Misplaced (input : Str) : Prop :=
  ∃ ts, Delivers input ts ∧ Derives true .config ts ∧ PortsOk ts ∧ ¬ OpensAfterWords ts

/-- A file has one sequence of lexemes. -/
theorem Delivers.unique {input : Str} {ts us : List (Lexeme Str)} (ht : Delivers input ts)
    (hu : Delivers input us) : ts = us := by
  induction ht generalizing us with
  | eof h =>
      cases hu with
      | eof => rfl
      | comment h' => rw [h] at h'; cases h'
      | token h' hl => rw [h] at h'; cases h'; cases hl
  | comment h _ ih =>
      cases hu with
      | eof h' => rw [h] at h'; cases h'
      | comment h' hrest => rw [h] at h'; cases h'; exact ih hrest
      | token h' hl => rw [h] at h'; cases h'; cases hl
  | token h hl _ ih =>
      cases hu with
      | eof h' => rw [h] at h'; cases h'; cases hl
      | comment h' => rw [h] at h'; cases h'; cases hl
      | token h' hl' hrest =>
          rw [h] at h'
          cases h'
          rw [hl] at hl'
          cases hl'
          rw [ih hrest]

/-! ## 1. The reader sees the lexemes as the grammar does -/

/-- What the grammar's reader remembers. -/
def Reading.mark (r : Reading) : Mark Str := ⟨r.last, r.frames.length⟩

section Mark

variable {r r' : Reading} {t : Lexeme Str} {ts : List (Lexeme Str)} {m : Mark Str}

/-- What fits, fits the wider grammar. -/
theorem Reading.mark_step (h : r.Fit) (hs : r.step t = some r') :
    r.mark.next true t = some r'.mark ∧ Agree PortOk r.last t := by
  cases t with
  | word w =>
      by_cases hlast : ∃ v, r.last = some (.word v)
      · obtain ⟨v, hv⟩ := hlast
        rw [Reading.step_further hv] at hs
        split at hs
        · rename_i hok
          cases hs
          refine ⟨rfl, fun v' w' hv' hw' => ?_⟩
          rw [hv] at hv'
          cases hv'
          cases hw'
          exact hok
        · cases hs
      · rw [Reading.step_first fun v hv => hlast ⟨v, hv⟩] at hs
        cases hs
        exact ⟨rfl, fun v w hv _ => absurd ⟨v, hv⟩ hlast⟩
  | semi =>
      obtain ⟨hword, rfl⟩ := Reading.step_semi.mp hs
      exact ⟨Mark.next_semi.mpr ⟨hword, rfl⟩, nofun⟩
  | opn =>
      obtain ⟨ss, tokens, c, hfocus⟩ := Reading.step_opn_isSome hs
      rw [Reading.step_opn hfocus] at hs
      cases hs
      refine ⟨Mark.next_opn.mpr ⟨?_, rfl⟩, nofun⟩
      have hne : r.focus ≠ [] := by
        rw [hfocus]
        simp
      have hlast : ¬ (r.last = none ∨ r.last = some .opn) := fun he => hne (h.empty he)
      show (∃ w, r.last = some (.word w)) ∨ true = true ∧ (r.last = some .semi ∨ r.last = some .cls)
      cases hl : r.last with
      | none => exact absurd (Or.inl hl) hlast
      | some l =>
          cases l with
          | word w => exact Or.inl ⟨w, rfl⟩
          | semi => exact Or.inr ⟨rfl, Or.inl rfl⟩
          | cls => exact Or.inr ⟨rfl, Or.inr rfl⟩
          | opn => exact absurd (Or.inr hl) hlast
  | cls =>
      obtain ⟨l, f, fs, hlast, hl, hf⟩ := Reading.step_cls_isSome hs
      rw [Reading.step_cls hlast hl hf] at hs
      cases hs
      refine ⟨Mark.next_cls.mpr ⟨?_, ?_, rfl⟩, nofun⟩
      · show (r.last = some .semi ∨ r.last = some .cls) ∨ r.last = some .opn
        rw [hlast]
        cases l with
        | word v => exact absurd trivial hl
        | semi => exact Or.inl (Or.inl rfl)
        | cls => exact Or.inl (Or.inr rfl)
        | opn => exact Or.inr rfl
      · show r.frames.length = fs.length + 1
        rw [hf]
        rfl

/-- What fits the wider grammar fits, if a port is a port. -/
theorem Reading.step_of_mark (h : r.Fit) (hm : r.mark.next true t = some m)
    (ha : Agree PortOk r.last t) : ∃ r', r.step t = some r' := by
  cases t with
  | word w =>
      by_cases hlast : ∃ v, r.last = some (.word v)
      · obtain ⟨v, hv⟩ := hlast
        rw [Reading.step_further hv, if_pos (ha v w hv rfl)]
        exact ⟨_, rfl⟩
      · rw [Reading.step_first fun v hv => hlast ⟨v, hv⟩]
        exact ⟨_, rfl⟩
  | semi => exact ⟨_, Reading.step_semi.mpr ⟨(Mark.next_semi.mp hm).1, rfl⟩⟩
  | opn =>
      have hfocus : ∃ ss tokens c, r.focus = ss ++ [.mk tokens c] := by
        rcases (Mark.next_opn.mp hm).1 with ⟨v, hv⟩ | ⟨_, hend⟩
        · obtain ⟨ss, ts, hfocus⟩ := h.word v hv
          exact ⟨ss, ts ++ [v], none, hfocus⟩
        · rcases List.eq_nil_or_concat r.focus with hnil | ⟨ss, ⟨tokens, c⟩, hfocus⟩
          · exact absurd hnil (h.ended hend)
          · exact ⟨ss, tokens, c, by rw [hfocus, List.concat_eq_append]⟩
      obtain ⟨ss, tokens, c, hfocus⟩ := hfocus
      exact ⟨_, Reading.step_opn hfocus⟩
  | cls =>
      obtain ⟨hfits, hdepth, _⟩ := Mark.next_cls.mp hm
      have hl : ∃ l, r.last = some l ∧ ¬ l.IsWord := by
        rcases hfits with (hl | hl) | hl
        · exact ⟨.semi, hl, fun hw => hw⟩
        · exact ⟨.cls, hl, fun hw => hw⟩
        · exact ⟨.opn, hl, fun hw => hw⟩
      obtain ⟨l, hlast, hl⟩ := hl
      cases hf : r.frames with
      | nil =>
          have hzero : r.frames.length = m.depth + 1 := hdepth
          rw [hf] at hzero
          cases hzero
      | cons f fs => exact ⟨_, Reading.step_cls hlast hl hf⟩

/-- **Lexemes are read** exactly if they fit the wider grammar and the ports are ports. -/
theorem Reading.read_iff (hw : ∀ w, Lexeme.word w ∈ ts → w ≠ []) (h : r.Fit) :
    (∃ r', r.read ts = some r' ∧ r'.mark = m) ↔
      r.mark.read true ts = some m ∧ Chained (Agree PortOk) r.last ts := by
  induction ts generalizing r with
  | nil =>
      constructor
      · rintro ⟨r', hr, hm⟩
        cases hr
        exact ⟨congrArg some hm, trivial⟩
      · rintro ⟨hm, _⟩
        exact ⟨r, rfl, Option.some.inj hm⟩
  | cons t ts ih =>
      have hw1 : ∀ w, t = .word w → w ≠ [] := fun w hw' => hw w (hw' ▸ List.mem_cons_self)
      have hw2 : ∀ w, Lexeme.word w ∈ ts → w ≠ [] := fun w hm => hw w (List.mem_cons_of_mem _ hm)
      simp only [Reading.read_cons, Mark.read_cons, Option.bind_eq_some_iff, Chained]
      constructor
      · rintro ⟨r', ⟨r1, hs, hr⟩, hm⟩
        obtain ⟨hnext, ha⟩ := Reading.mark_step h hs
        obtain ⟨hread, hchain⟩ := (ih hw2 (h.step hw1 hs)).mp ⟨r', hr, hm⟩
        rw [Reading.step_last hs] at hchain
        exact ⟨⟨r1.mark, hnext, hread⟩, ha, hchain⟩
      · rintro ⟨⟨m1, hnext, hread⟩, ha, hchain⟩
        obtain ⟨r1, hs⟩ := Reading.step_of_mark h hnext ha
        have hm1 : m1 = r1.mark := by
          rw [(Reading.mark_step h hs).1] at hnext
          exact (Option.some.inj hnext).symm
        rw [hm1] at hread
        rw [← Reading.step_last hs] at hchain
        obtain ⟨r', hr, hm⟩ := (ih hw2 (h.step hw1 hs)).mpr ⟨hread, hchain⟩
        exact ⟨r', ⟨r1, hs, hr⟩, hm⟩

end Mark

/-! ## 2. What is accepted -/

/-- **`Parse` accepts the wider grammar.** -/
theorem accepted_iff_grammatical (input : Str) : Accepted input ↔ Grammatical true input := by
  unfold Accepted Grammatical PortsOk
  simp only [parse_true_iff, ← accepts_iff]
  constructor
  · rintro ⟨s, ts, r', hd, hr, ⟨hlast, hframes⟩, rfl⟩
    obtain ⟨hread, hchain⟩ := (Reading.read_iff (fun w => hd.word_ne_nil) Reading.Fit.start).mp
      ⟨r', hr, rfl⟩
    refine ⟨ts, hd, ⟨r'.mark, hread, hlast, ?_⟩, hchain⟩
    show r'.frames.length = 0
    rw [hframes]
    rfl
  · intro ⟨ts, hd, ⟨m, hread, hlast, hdepth⟩, hchain⟩
    obtain ⟨r', hr, rfl⟩ := (Reading.read_iff (fun w => hd.word_ne_nil) Reading.Fit.start).mpr
      ⟨hread, hchain⟩
    exact ⟨r'.state, ts, r', hd, hr, ⟨hlast, List.length_eq_zero_iff.mp hdepth⟩, rfl⟩

/-- A file that is accepted, and misplaces no `{`, is valid. -/
theorem Accepted.valid {input : Str} (h : Accepted input) (hmis : ¬ Misplaced input) :
    Grammatical false input := by
  obtain ⟨ts, hd, hwide, hports⟩ := (accepted_iff_grammatical input).mp h
  by_cases hopens : OpensAfterWords ts
  · exact ⟨ts, hd, derives_false_iff.mpr ⟨hwide, hopens⟩, hports⟩
  · exact absurd ⟨ts, hd, hwide, hports, hopens⟩ hmis

/-- **`Parse` accepts exactly the valid files** among those that do not misplace a `{`, and on no
    other file are the two the same. -/
theorem parse_accepts_grammar_iff (input : Str) :
    (Accepted input ↔ Grammatical false input) ↔ ¬ Misplaced input := by
  constructor
  · intro hiff ⟨ts, hd, hwide, hports, hopens⟩
    have haccepted := (accepted_iff_grammatical input).mpr ⟨ts, hd, hwide, hports⟩
    obtain ⟨us, hd', hstrict, _⟩ := hiff.mp haccepted
    rw [hd.unique hd'] at hopens
    exact hopens (derives_false_iff.mp hstrict).2
  · intro hmis
    refine ⟨fun h => h.valid hmis, fun ⟨ts, hd, hstrict, hports⟩ => ?_⟩
    exact (accepted_iff_grammatical input).mpr ⟨ts, hd, hstrict.widen, hports⟩

/-- **A block that nothing opens**: `a; {}` is accepted, and the grammar does not derive it. -/
theorem parse_accepts_stray_block :
    ¬ (Accepted "a; \x7b\x7d".toList ↔ Grammatical false "a; \x7b\x7d".toList) := by
  intro hiff
  have haccepted : Accepted "a; \x7b\x7d".toList := ⟨_, rfl⟩
  have hlexemes : Delivers "a; \x7b\x7d".toList [.word "a".toList, .semi, .opn, .cls] :=
    .token rfl rfl (.token rfl rfl (.token rfl rfl (.token rfl rfl (.eof rfl))))
  obtain ⟨ts, hd, hstrict, _⟩ := hiff.mp haccepted
  rw [hd.unique hlexemes] at hstrict
  obtain ⟨w, hw⟩ := (derives_false_iff.mp hstrict).2.2.2.1 rfl
  cases hw

end Googolplex.Config
