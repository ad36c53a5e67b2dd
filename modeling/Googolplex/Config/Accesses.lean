/-
  File:      Googolplex/Config/Accesses.lean
  Subject:   THE EMPTY STACK AND THE EMPTY VECTOR, on every file.

  `Parse` asks nothing of what comes before a `{`, and counts brackets only at the
  end of the file.

  * `parse_ne_dangling`: the two empty containers are all that can go wrong.
  * `unguarded_iff`: where the reader is stuck with nothing defined, in terms of
    the grammar.
  * `parse_safe_iff`: the files on which no empty container is touched, and those
    of them whose malformed blocks are answered by false.
-/
import Googolplex.Config.Leavings

namespace Googolplex.Config

open Cxx Blocks

variable {r r' : Reading} {s : ParserState} {input value rest : Str} {type : TokenType}
  {t : Lexeme Str} {ts p : List (Lexeme Str)} {m : Mark Str}

/-! ## 1. No other fault -/

/-- Once the config itself is closed, the stack is what is empty. -/
theorem parseLoop_shut_ne_dangling (hlast : s.lastTokenType = .endBlock) (hstack : s.configStack = []) :
    ∀ turns input, parseLoop turns s input ≠ .error .dangling
  | 0, input => nofun
  | turns + 1, input => by
      unfold parseLoop
      obtain ⟨type, value, rest⟩ := parseToken input
      cases type with
      | comment => exact parseLoop_shut_ne_dangling hlast hstack turns rest
      | start | error => simp [turn]
      | normal => simp [turn, onNormal, hlast, hstack, top, bind, Except.bind]
      | statementEnd => simp [turn, onStatementEnd, hlast]
      | startBlock => simp [turn, onStartBlock, hstack, top, bind, Except.bind]
      | endBlock => simp [turn, onEndBlock, hlast, hstack, pop, bind, Except.bind]
      | eof => by_cases hb : s.remainingBracket = 0 <;> simp [turn, onEof, hlast, hb]

/-- A `}` that does not fit comes when no block is open, or after a word. -/
theorem onEndBlock_ne_dangling (hs : r.step .cls = none) : onEndBlock r.state ≠ .error .dangling := by
  obtain ⟨frames, focus, last, settings⟩ := r
  cases frames with
  | cons f fs =>
      rcases last with _ | (v | _ | _ | _)
      · simp [onEndBlock, Reading.state, typeOf, pure, Except.pure]
      · simp [onEndBlock, Reading.state, typeOf, pure, Except.pure]
      all_goals cases hs
  | nil =>
      rcases last with _ | (v | _ | _ | _) <;>
        simp [onEndBlock, Reading.state, typeOf, placesOf, pop, top, bind, Except.bind, pure,
          Except.pure]

/-- A lexeme that does not fit leads to no destroyed block. -/
theorem turn_ne_dangling (h : r.Fit) (ht : lexeme value type = some t) (hs : r.step t = none) :
    turn r.state type value ≠ .error .dangling := by
  cases type with
  | normal =>
      cases ht
      show onNormal r.state value ≠ _
      rw [onNormal_state h, hs]
      exact nofun
  | statementEnd =>
      cases ht
      show onStatementEnd r.state ≠ _
      unfold onStatementEnd
      split <;> exact nofun
  | startBlock =>
      cases ht
      show onStartBlock r.state ≠ _
      rw [onStartBlock_state, hs]
      exact nofun
  | endBlock =>
      cases ht
      exact onEndBlock_ne_dangling hs
  | start | comment | eof | error => cases ht

theorem parseLoop_ne_dangling (turns : Nat) : ∀ {r : Reading} {input : Str}, r.Fit →
    parseLoop turns r.state input ≠ .error .dangling := by
  induction turns with
  | zero =>
      intro r input _
      exact nofun
  | succ turns ih =>
      intro r input h
      obtain ⟨type, value, rest, hp⟩ : ∃ type value rest, parseToken input = (type, value, rest) :=
        ⟨_, _, _, rfl⟩
      cases ht : lexeme value type with
      | some t =>
          cases hs : r.step t with
          | some r1 =>
              rw [parseLoop_step h hp ht hs]
              exact ih (h.step (lexeme_ne_nil hp ht) hs)
          | none =>
              have hne : type ≠ .error ∧ type ≠ .comment := by
                constructor <;> (rintro rfl; cases ht)
              have hturn := turn_ne_dangling h ht hs
              rw [parseLoop_succ hp, if_neg hne.1, if_neg hne.2]
              rcases turn_of_stuck h ht hs with
                ⟨f, heq⟩ | ⟨s', heq⟩ | ⟨s', heq, htype, hstack, _⟩
              · rw [heq] at hturn ⊢
                intro he
                cases he
                exact hturn rfl
              · rw [heq]
                exact nofun
              · rw [heq]
                exact parseLoop_shut_ne_dangling (s := { s' with lastTokenType := type }) htype hstack
                  turns rest
      | none =>
          cases type with
          | normal | statementEnd | startBlock | endBlock => cases ht
          | comment =>
              rw [parseLoop_comment hp]
              exact ih h
          | start | error =>
              rw [parseLoop_succ hp]
              simp [turn]
          | eof =>
              rw [parseLoop_succ hp, if_neg (by decide), if_neg (by decide)]
              rcases onEof_state r with ⟨heof, _⟩ | ⟨heof, _⟩ <;> simp [turn, heof]

/-- **An empty stack and an empty vector** are all that can go wrong. -/
theorem parse_error {f : Fault} (h : parse input [] ∅ = .error f) :
    f = .emptyStack ∨ f = .emptyVector := by
  cases f with
  | emptyStack => exact Or.inl rfl
  | emptyVector => exact Or.inr rfl
  | dangling => exact absurd h (parseLoop_ne_dangling _ Reading.Fit.start)
  | turns => exact absurd h (parse_ne_turns _ _ _)

/-! ## 2. Where the reader is stuck -/

/-- The lexemes fit the grammar as far as they go, with ports after `listen`; `m` is the last of
    them and the number of blocks they leave open. -/
def Fits (p : List (Lexeme Str)) (m : Mark Str) : Prop :=
  Mark.read true ⟨none, 0⟩ p = some m ∧ PortsOk p

/-- **A bracket nothing guards**: a `{` at the beginning of a block or of the file, or a `}` that
    closes the config itself, after `;` or `}`, with more than a `;` to follow. -/
inductive Unguarded (ts : List (Lexeme Str)) : Prop
  | opn {p rest : List (Lexeme Str)} {m : Mark Str} (h : ts = p ++ .opn :: rest) (hfits : Fits p m)
      (hlast : m.last = none ∨ m.last = some .opn)
  | cls {p rest : List (Lexeme Str)} {m : Mark Str} {t : Lexeme Str}
      (h : ts = p ++ .cls :: t :: rest) (hfits : Fits p m) (hended : m.Ended) (hdepth : m.depth = 0)
      (ht : t ≠ .semi)

/-- What is read is read first. -/
theorem upTo_append {us : List (Lexeme Str)} (h : r.read p = some r') : r.upTo (p ++ us) = r'.upTo us := by
  induction p generalizing r with
  | nil =>
      cases h
      rfl
  | cons t p ih =>
      rw [Reading.read_cons] at h
      obtain ⟨r1, hs, hrest⟩ := Option.bind_eq_some_iff.mp h
      rw [List.cons_append, upTo_step hs]
      exact ih hrest

/-- What the reader has read where it is stuck. -/
theorem upTo_cut (r : Reading) (ts : List (Lexeme Str)) :
    ∃ p, ts = p ++ (r.upTo ts).2 ∧ r.read p = some (r.upTo ts).1 ∧
      ∀ t us, (r.upTo ts).2 = t :: us → (r.upTo ts).1.step t = none := by
  induction ts generalizing r with
  | nil => exact ⟨[], rfl, rfl, nofun⟩
  | cons t ts ih =>
      cases hs : r.step t with
      | none =>
          rw [upTo_stuck hs]
          refine ⟨[], rfl, rfl, fun t' us h => ?_⟩
          cases h
          exact hs
      | some r1 =>
          rw [upTo_step hs]
          obtain ⟨p, hp, hread, hstuck⟩ := ih r1
          refine ⟨t :: p, by rw [List.cons_append, ← hp], ?_, hstuck⟩
          rw [Reading.read_cons, hs]
          exact hread

/-- Lexemes that fit are read, and what is read fits. -/
theorem fits_iff (hw : ∀ w, Lexeme.word w ∈ p → w ≠ []) :
    Fits p m ↔ ∃ r', Reading.start.read p = some r' ∧ r'.mark = m :=
  (Reading.read_iff hw Reading.Fit.start).symm

/-- A block that has a statement is not at its beginning. -/
theorem Reading.Fit.begun (h : r.Fit) (hs : r.step .opn = none) :
    r.last = none ∨ r.last = some .opn := by
  have hfocus : r.focus = [] := by
    rcases List.eq_nil_or_concat r.focus with hnil | ⟨ss, ⟨tokens, c⟩, hfocus⟩
    · exact hnil
    · rw [Reading.step_opn (by rw [hfocus, List.concat_eq_append])] at hs
      cases hs
  cases hlast : r.last with
  | none => exact Or.inl rfl
  | some l =>
      cases l with
      | opn => exact Or.inr rfl
      | word v =>
          obtain ⟨ss, ts, heq⟩ := h.word v hlast
          rw [hfocus] at heq
          simp at heq
      | semi => exact absurd hfocus (h.ended (Or.inl hlast))
      | cls => exact absurd hfocus (h.ended (Or.inr hlast))

/-- At the beginning of a block, or of the file, a `{` is stuck. -/
theorem Reading.Fit.stuck_opn (h : r.Fit) (hlast : r.last = none ∨ r.last = some .opn) :
    r.step .opn = none := by
  cases hs : r.step .opn with
  | none => rfl
  | some r1 =>
      obtain ⟨ss, tokens, c, hfocus⟩ := Reading.step_opn_isSome hs
      have hempty := h.empty hlast
      rw [hfocus] at hempty
      simp at hempty

/-- After a statement a `}` is stuck exactly if no block is open. -/
theorem Reading.stuck_cls (hlast : r.last = some .semi ∨ r.last = some .cls) :
    r.step .cls = none ↔ r.frames = [] := by
  constructor
  · intro hs
    cases hf : r.frames with
    | nil => rfl
    | cons f fs => rcases hlast with hl | hl <;> simp [Reading.step, hl, hf] at hs
  · intro hframes
    cases hs : r.step .cls with
    | none => rfl
    | some r1 =>
        obtain ⟨_, f, fs, _, _, hf⟩ := Reading.step_cls_isSome hs
        rw [hframes] at hf
        cases hf

/-- **The outcome is left open** exactly at a bracket nothing guards. -/
theorem unguarded_iff (hw : ∀ w, Lexeme.word w ∈ ts → w ≠ []) :
    Undefined (Reading.start.upTo ts).1 (Reading.start.upTo ts).2 ↔ Unguarded ts := by
  have hbefore : ∀ {p rest}, ts = p ++ rest → ∀ w, Lexeme.word w ∈ p → w ≠ [] := fun hts w hm =>
    hw w (by rw [hts]; exact List.mem_append_left _ hm)
  constructor
  · intro hu
    obtain ⟨p, hts, hread, hstuck⟩ := upTo_cut Reading.start ts
    generalize (Reading.start.upTo ts).1 = r at hu hread hstuck
    generalize (Reading.start.upTo ts).2 = rest at hu hts hstuck
    have hfits : Fits p r.mark := (fits_iff (hbefore hts)).mpr ⟨r, hread, rfl⟩
    have hfit : r.Fit := Reading.Fit.start.read (hbefore hts) hread
    cases rest with
    | nil => exact hu.elim
    | cons t us =>
        have hs := hstuck t us rfl
        cases t with
        | word w => exact hu.elim
        | semi => exact hu.elim
        | opn => exact .opn hts hfits (hfit.begun hs)
        | cls =>
            obtain ⟨hlast, t, us, rfl, ht⟩ := hu
            have hdepth : r.frames.length = 0 :=
              List.length_eq_zero_iff.mpr ((Reading.stuck_cls hlast).mp hs)
            exact .cls hts hfits hlast hdepth ht
  · intro hu
    cases hu with
    | @opn p rest m hts hfits hlast =>
        obtain ⟨r, hread, rfl⟩ := (fits_iff (hbefore hts)).mp hfits
        have hfit : r.Fit := Reading.Fit.start.read (hbefore hts) hread
        rw [hts, upTo_append hread, upTo_stuck (hfit.stuck_opn hlast)]
        trivial
    | @cls p rest m t hts hfits hended hdepth ht =>
        obtain ⟨r, hread, rfl⟩ := (fits_iff (hbefore hts)).mp hfits
        have hframes : r.frames = [] := List.length_eq_zero_iff.mp hdepth
        rw [hts, upTo_append hread, upTo_stuck ((Reading.stuck_cls hended).mpr hframes)]
        exact ⟨hended, t, rest, rfl, ht⟩

/-! ## 3. The accesses of `Parse` -/

/-- No `top` or `pop` of an empty stack, and no `back` of an empty vector. -/
def Safe (input : Str) : Prop :=
  parse input [] ∅ ≠ .error .emptyStack ∧ parse input [] ∅ ≠ .error .emptyVector

/-- What the grammar does not derive is answered by false. -/
def AnsweredFalse (input : Str) : Prop :=
  ¬ Grammatical false input → ∃ s, parse input [] ∅ = .ok (false, s)

/-- The file has a bracket nothing guards. -/
def LeavesOpen (input : Str) : Prop := ∃ ts whole, Lexed input ts whole ∧ Unguarded ts

/-- The outcome is left open where the reader is stuck with nothing defined. -/
theorem leavesOpen_iff {whole : Bool} (hd : Lexed input ts whole) :
    LeavesOpen input ↔ Undefined (Reading.start.upTo ts).1 (Reading.start.upTo ts).2 := by
  rw [unguarded_iff fun w => hd.word_ne_nil]
  constructor
  · intro ⟨us, whole', hd', hu⟩
    rwa [(hd.unique hd').1]
  · exact fun hu => ⟨ts, whole, hd, hu⟩

theorem safe_iff (input : Str) : Safe input ↔ ¬ LeavesOpen input := by
  obtain ⟨ts, whole, hd⟩ := exists_lexed _ (rfl : input.length = _)
  have hleaves := parse_leaves hd
  rw [leavesOpen_iff hd]
  constructor
  · intro ⟨hstack, hvector⟩ hu
    obtain ⟨f, hf⟩ := hleaves.undefined hu
    rcases parse_error hf with rfl | rfl
    · exact hstack hf
    · exact hvector hf
  · intro hno
    obtain ⟨valid, s, hs, _⟩ := hleaves.defined hno
    constructor <;> (rw [hs]; exact nofun)

/-- **No empty container is touched** exactly on the files without a bracket that nothing guards;
    and what is malformed is answered by false besides, if no `{` is misplaced. -/
theorem parse_safe_iff (input : Str) :
    (Safe input ↔ ¬ LeavesOpen input) ∧
      (Safe input ∧ AnsweredFalse input ↔ ¬ LeavesOpen input ∧ ¬ Misplaced input) := by
  refine ⟨safe_iff input, ?_⟩
  rw [safe_iff]
  refine and_congr_right fun hno => ?_
  obtain ⟨ts, whole, hd⟩ := exists_lexed _ (rfl : input.length = _)
  obtain ⟨valid, s, hs, _⟩ := (parse_leaves hd).defined fun hu => hno ((leavesOpen_iff hd).mpr hu)
  constructor
  · intro hanswer hmis
    obtain ⟨us, hd', hwide, hports, hopens⟩ := hmis
    have hstrict : ¬ Grammatical false input := by
      intro ⟨us', hd'', hstrict, _⟩
      rw [hd'.unique hd''] at hopens
      exact hopens (derives_false_iff.mp hstrict).2
    obtain ⟨s', hs'⟩ := hanswer hstrict
    obtain ⟨s'', hs''⟩ := (accepted_iff_grammatical input).mpr ⟨us, hd', hwide, hports⟩
    rw [hs'] at hs''
    cases hs''
  · intro hmis hstrict
    refine ⟨s, ?_⟩
    cases valid with
    | false => exact hs
    | true => exact absurd (Accepted.valid ⟨s, hs⟩ hmis) hstrict

/-- **A `{` first**: `back` of an empty vector. -/
theorem parse_open_first : ¬ (Safe "\x7b".toList ∧ AnsweredFalse "\x7b".toList) := by
  intro h
  exact h.1.2 rfl

end Googolplex.Config
