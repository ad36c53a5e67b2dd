/-
  File:      Googolplex/Config/Iterations.lean
  Subject:   THE LOOP OF `Parse`, ONE ITERATION AT A TIME.

  `parseLoop` is bounded by the length of the file. Here the loop has no bound:
  `Head` is what holds at the start of an iteration, reached from the start of
  `Parse` by iterations that went on.

  * `parse_ok_iff`: `Parse` returns what the iteration that ends the loop returns.
  * `Head.calls_le`: every iteration that goes on takes a character.
  * `parse_terminates_iff`: the calls of `ParseToken` are bounded on every file,
    and `Parse` returns unless a bracket that nothing guards stops it.
-/
import Googolplex.Config.Accesses

namespace Googolplex.Config

open Cxx Blocks

/-! ## 1. Iterations -/

/-- How an iteration ends: the loop goes on, or returns. -/
inductive Iteration where
  | again (s : ParserState) (rest : Str)
  | stop (valid : Bool) (s : ParserState)

/-- One iteration: a call of `ParseToken`, and what is done with its token. -/
def iterate (s : ParserState) (input : Str) : Except Fault Iteration :=
  let (tokenType, token, rest) := parseToken input
  if tokenType = .error then .ok (.stop false s)
  else if tokenType = .comment then .ok (.again s rest)
  else
    match turn s tokenType token with
    | .error f => .error f
    | .ok (.done valid s) => .ok (.stop valid s)
    | .ok (.next s) => .ok (.again { s with lastTokenType := tokenType } rest)

/-- **The start of an iteration** of `Parse(input, config, …, addrmap)`: how many calls of
    `ParseToken` were made before it, the variables, and what is left of the file. -/
inductive Head (input : Str) (config : NginxConfig) (addrmap : AddrMap) :
    Nat → ParserState → Str → Prop
  | start : Head input config addrmap 0 (ParserState.initial config addrmap) input
  | next {calls : Nat} {s s' : ParserState} {rest rest' : Str}
      (h : Head input config addrmap calls s rest) (hs : iterate s rest = .ok (.again s' rest')) :
      Head input config addrmap (calls + 1) s' rest'

section

variable {input rest rest' value : Str} {config : NginxConfig} {addrmap : AddrMap}
  {s s' : ParserState} {calls turns : Nat} {type : TokenType} {valid : Bool}

/-- An iteration, by what `ParseToken` delivers. -/
theorem iterate_eq (hp : parseToken rest = (type, value, rest')) : iterate s rest =
    if type = .error then .ok (.stop false s)
    else if type = .comment then .ok (.again s rest')
    else
      match turn s type value with
      | .error f => .error f
      | .ok (.done valid s) => .ok (.stop valid s)
      | .ok (.next s) => .ok (.again { s with lastTokenType := type } rest') := by
  unfold iterate
  rw [hp]

/-- What an iteration that goes on has done. -/
theorem iterate_again (h : iterate s rest = .ok (.again s' rest')) :
    ∃ type value, parseToken rest = (type, value, rest') ∧ type ≠ .error ∧ type ≠ .eof ∧
      (type = .comment ∧ s' = s ∨
        ∃ s1, turn s type value = .ok (.next s1) ∧ s' = { s1 with lastTokenType := type }) := by
  obtain ⟨type, value, left, hp⟩ : ∃ type value left, parseToken rest = (type, value, left) :=
    ⟨_, _, _, rfl⟩
  rw [iterate_eq hp] at h
  by_cases herror : type = .error
  · rw [if_pos herror] at h
    cases h
  · rw [if_neg herror] at h
    by_cases hcomment : type = .comment
    · rw [if_pos hcomment] at h
      cases h
      exact ⟨type, value, hp, herror, by rw [hcomment]; exact nofun, Or.inl ⟨hcomment, rfl⟩⟩
    · rw [if_neg hcomment] at h
      cases hturn : turn s type value with
      | error f =>
          rw [hturn] at h
          cases h
      | ok t =>
          rw [hturn] at h
          cases t with
          | done valid s1 => cases h
          | next s1 =>
              cases h
              refine ⟨type, value, hp, herror, ?_, Or.inr ⟨s1, hturn, rfl⟩⟩
              rintro rfl
              exact turn_eof hturn

/-- An iteration that goes on takes a character. -/
theorem iterate_shorter (h : iterate s rest = .ok (.again s' rest')) : rest'.length < rest.length := by
  obtain ⟨type, value, hp, _, heof, _⟩ := iterate_again h
  exact parseToken_shorter hp heof

/-- **Each call made before took a character** of the file. -/
theorem Head.calls_le (h : Head input config addrmap calls s rest) :
    calls + rest.length ≤ input.length := by
  induction h with
  | start => exact Nat.le_of_eq (Nat.zero_add _)
  | next _ hs ih =>
      have hshorter := iterate_shorter hs
      omega

/-! ## 2. The bounded loop -/

theorem parseLoop_iterate (turns : Nat) (s : ParserState) (input : Str) :
    parseLoop (turns + 1) s input =
      match iterate s input with
      | .error f => .error f
      | .ok (.stop valid s) => .ok (valid, s)
      | .ok (.again s rest) => parseLoop turns s rest := by
  obtain ⟨type, value, rest, hp⟩ : ∃ type value rest, parseToken input = (type, value, rest) :=
    ⟨_, _, _, rfl⟩
  rw [parseLoop_succ hp, iterate_eq hp]
  by_cases herror : type = .error
  · rw [if_pos herror, if_pos herror]
  · rw [if_neg herror, if_neg herror]
    by_cases hcomment : type = .comment
    · rw [if_pos hcomment, if_pos hcomment]
    · rw [if_neg hcomment, if_neg hcomment]
      cases turn s type value with
      | error f => rfl
      | ok t => cases t <;> rfl

/-- From the start of an iteration on, `Parse` is the rest of the loop. -/
theorem Head.parse_eq (h : Head input config addrmap calls s rest) :
    parse input config addrmap = parseLoop (input.length + 1 - calls) s rest := by
  induction h with
  | start => rfl
  | @next calls s s' rest rest' h hs ih =>
      have hle := h.calls_le
      have hturns : input.length + 1 - calls = input.length + 1 - (calls + 1) + 1 := by omega
      rw [ih, hturns, parseLoop_iterate, hs]

/-- Where the bounded loop returns there is an iteration that ends it. -/
theorem parseLoop_ok (hr : parseLoop turns s rest = .ok (valid, s'))
    (h : Head input config addrmap calls s rest) :
    ∃ calls s rest, Head input config addrmap calls s rest ∧
      iterate s rest = .ok (.stop valid s') := by
  induction turns generalizing calls s rest with
  | zero => cases hr
  | succ turns ih =>
      rw [parseLoop_iterate] at hr
      cases hi : iterate s rest with
      | error f =>
          rw [hi] at hr
          cases hr
      | ok i =>
          rw [hi] at hr
          cases i with
          | stop valid s1 =>
              cases hr
              exact ⟨calls, s, rest, h, hi⟩
          | again s1 rest1 => exact ih hr (h.next hi)

/-- **`Parse` returns what the iteration that ends the loop returns.** -/
theorem parse_ok_iff : parse input config addrmap = .ok (valid, s') ↔
    ∃ calls s rest, Head input config addrmap calls s rest ∧
      iterate s rest = .ok (.stop valid s') := by
  constructor
  · intro h
    exact parseLoop_ok h .start
  · intro ⟨calls, s, rest, h, hi⟩
    have hle := h.calls_le
    have hturns : input.length + 1 - calls = input.length - calls + 1 := by omega
    rw [h.parse_eq, hturns, parseLoop_iterate, hi]

/-! ## 3. Termination -/

/-- **The calls of `ParseToken` that a `Parse` makes**: each one delivers the end of the file or an
    error, or takes at least one character; with the end or an error the loop is over; and there is
    at most one more of them than there are characters. -/
structure Bounded (input : Str) (config : NginxConfig) (addrmap : AddrMap) : Prop where
  progress : ∀ calls s rest, Head input config addrmap calls s rest →
    (parseToken rest).1 = .eof ∨ (parseToken rest).1 = .error ∨
      (parseToken rest).2.2.length < rest.length
  last : ∀ calls s rest, Head input config addrmap calls s rest →
    (parseToken rest).1 = .eof ∨ (parseToken rest).1 = .error →
      ∃ valid s', iterate s rest = .ok (.stop valid s')
  calls_le : ∀ calls s rest, Head input config addrmap calls s rest → calls + 1 ≤ input.length + 1

/-- `Parse` returns, true or false. -/
def Returns (input : Str) : Prop := ∃ valid s, parse input [] ∅ = .ok (valid, s)

theorem bounded (input : Str) (config : NginxConfig) (addrmap : AddrMap) :
    Bounded input config addrmap where
  progress calls s rest h := by
    by_cases heof : (parseToken rest).1 = .eof
    · exact Or.inl heof
    · exact Or.inr (Or.inr (parseToken_progress rest heof))
  last calls s rest h htype := by
    obtain ⟨type, value, left, hp⟩ : ∃ type value left, parseToken rest = (type, value, left) :=
      ⟨_, _, _, rfl⟩
    rw [hp] at htype
    rw [iterate_eq hp]
    rcases htype with rfl | rfl
    · obtain ⟨valid, hdone⟩ := onEof_done s
      exact ⟨valid, s, by simp [turn, hdone]⟩
    · exact ⟨false, s, rfl⟩
  calls_le calls s rest h := by
    have hle := h.calls_le
    omega

/-- **When `Parse` returns**: unless it comes to a bracket that nothing guards. The bound on the calls
    holds on every file, and for every config and map it is given. -/
theorem parse_terminates_iff (input : Str) :
    (∀ config addrmap, Bounded input config addrmap) ∧
      ((∀ config addrmap, Bounded input config addrmap) ∧ Returns input ↔ ¬ LeavesOpen input) := by
  have hbounded := bounded input
  refine ⟨hbounded, ?_⟩
  rw [← safe_iff]
  constructor
  · intro ⟨_, valid, s, h⟩
    constructor <;> (rw [h]; exact nofun)
  · intro ⟨hstack, hvector⟩
    refine ⟨hbounded, ?_⟩
    cases h : parse input [] ∅ with
    | ok v => exact ⟨v.1, v.2, h⟩
    | error f =>
        rcases parse_error h with rfl | rfl
        · exact absurd h hstack
        · exact absurd h hvector

/-- **A `{` first**: `Parse` does not return. -/
theorem open_first_no_return :
    ¬ ((∀ config addrmap, Bounded "\x7b".toList config addrmap) ∧ Returns "\x7b".toList) := by
  intro ⟨_, valid, s, h⟩
  have herror : parse "\x7b".toList [] ∅ = .error .emptyVector := rfl
  rw [herror] at h
  cases h

end

end Googolplex.Config
