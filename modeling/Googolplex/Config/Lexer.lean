/-
  File:      Googolplex/Config/Lexer.lean
  Subject:   `NginxConfigParser::ParseToken`: the characters of a config file,
             one token at a time.

  A stream is the list of the characters still to be read; `get` takes the
  first, `unget` puts it back.

  * `parseToken_progress`: every token but the end of the file takes at least
    one character.
  * `Delivers`: the lexemes the parser sees of a file, comments skipped, up to
    its end.
  * `parseToken_blanks`: white space before a token is skipped.
-/
import Googolplex.Library.Blocks
import Googolplex.Library.Cxx

namespace Googolplex.Config

open Cxx Blocks

/-- `TokenType`. -/
inductive TokenType where
  | start | normal | startBlock | endBlock | comment | statementEnd | eof | error
  deriving DecidableEq, Repr

/-- The two quotes: `TOKEN_STATE_SINGLE_QUOTE` and `TOKEN_STATE_DOUBLE_QUOTE` differ in nothing
    else. -/
inductive Quote where
  | single | double
  deriving DecidableEq, Repr

def Quote.char : Quote → Char
  | .single => '\x27'
  | .double => '\x22'

/-- `TokenParserState`. -/
inductive TokenParserState where
  | initialWhitespace
  | quote (q : Quote)
  | comment
  | normal
  deriving DecidableEq, Repr

/-- What ends a word. -/
def isDelimiter (c : Char) : Bool :=
  c == ' ' || c == '\t' || c == '\n' || c == ';' || c == '{' || c == '}'

/-- `get()` at the end of the file, as a `char`. -/
def eofChar : Char := '\xff'

/-- The loop of `ParseToken`: the token's type, its value, and what is left of the file. -/
def scan : TokenParserState → Str → Str → TokenType × Str × Str
  | .quote _, value, [] => (.error, value, [])
  | .initialWhitespace, value, [] => (.eof, value, [])
  | .comment, value, [] => (.eof, value, [])
  | .normal, value, [] => (.eof, value, [])
  | .initialWhitespace, value, c :: input =>
    if c = '{' then (.startBlock, [c], input)
    else if c = '}' then (.endBlock, [c], input)
    else if c = '#' then scan .comment [c] input
    else if c = Quote.double.char then scan (.quote .double) [c] input
    else if c = Quote.single.char then scan (.quote .single) [c] input
    else if c = ';' then (.statementEnd, [c], input)
    else if c = ' ' ∨ c = '\t' ∨ c = '\n' ∨ c = '\r' then scan .initialWhitespace value input
    else scan .normal (value ++ [c]) input
  | .quote q, value, c :: input =>
    if c = '\\' then
      match input with
      | c2 :: rest => scan (.quote q) (value ++ [c2]) rest
      | [] => (.error, value ++ [eofChar], [])
    else if c = q.char then
      match input with
      | c2 :: rest =>
        if isDelimiter c2 then (.normal, value ++ [c], c2 :: rest)
        else (.error, value ++ [c], rest)
      | [] => (.error, value ++ [c], [])
    else scan (.quote q) (value ++ [c]) input
  | .comment, value, c :: input =>
    if c = '\n' ∨ c = '\r' then (.comment, value, input) else scan .comment (value ++ [c]) input
  | .normal, value, c :: input =>
    if isDelimiter c then (.normal, value, c :: input) else scan .normal (value ++ [c]) input

/-- `ParseToken`. -/
def parseToken (input : Str) : TokenType × Str × Str := scan .initialWhitespace [] input

/-! ## 1. One token -/

theorem scan_length (state : TokenParserState) (value input : Str) :
    (scan state value input).2.2.length ≤ input.length := by
  fun_induction scan state value input <;> grind

/-- Every token but the end of the file takes at least one character. -/
theorem parseToken_progress (input : Str) (h : (parseToken input).1 ≠ .eof) :
    (parseToken input).2.2.length < input.length := by
  unfold parseToken at h ⊢
  cases input with
  | nil => exact absurd rfl h
  | cons c input =>
      have hle := fun state value => scan_length state value input
      simp only [scan, List.length_cons, Nat.lt_succ_iff]
      grind

/-- What is left behind such a token is shorter. -/
theorem parseToken_shorter {input value rest : Str} {type : TokenType}
    (hp : parseToken input = (type, value, rest)) (hne : type ≠ .eof) : rest.length < input.length := by
  have hprogress := parseToken_progress input
  rw [hp] at hprogress
  exact hprogress hne

/-- A word is not empty. -/
theorem scan_word {state : TokenParserState} {value input : Str}
    (hv : state ≠ .initialWhitespace → value ≠ []) (h : (scan state value input).1 = .normal) :
    (scan state value input).2.1 ≠ [] := by
  fun_induction scan state value input <;> simp_all

theorem parseToken_word (input : Str) (h : (parseToken input).1 = .normal) :
    (parseToken input).2.1 ≠ [] :=
  scan_word (fun hs => absurd rfl hs) h

/-! ## 2. The lexemes of a file -/

/-- The tokens the grammar is about. -/
def lexeme (value : Str) : TokenType → Option (Lexeme Str)
  | .normal => some (.word value)
  | .statementEnd => some .semi
  | .startBlock => some .opn
  | .endBlock => some .cls
  | _ => none

/-- What is left behind a lexeme is shorter. -/
theorem lexeme_shorter {input value rest : Str} {type : TokenType} {t : Lexeme Str}
    (hp : parseToken input = (type, value, rest)) (ht : lexeme value type = some t) :
    rest.length < input.length := by
  refine parseToken_shorter hp ?_
  rintro rfl
  cases ht

/-- **`ParseToken`, called again and again, delivers these lexemes** up to the end of the file;
    comments are skipped, and no call is an error. -/
inductive Delivers : Str → List (Lexeme Str) → Prop where
  | eof {input value rest : Str} (h : parseToken input = (.eof, value, rest)) : Delivers input []
  | comment {input value rest : Str} {ts : List (Lexeme Str)}
      (h : parseToken input = (.comment, value, rest)) (hrest : Delivers rest ts) :
      Delivers input ts
  | token {input value rest : Str} {type : TokenType} {t : Lexeme Str} {ts : List (Lexeme Str)}
      (h : parseToken input = (type, value, rest)) (ht : lexeme value type = some t)
      (hrest : Delivers rest ts) : Delivers input (t :: ts)

/-- It is the first call that counts. -/
theorem Delivers.congr {input input' : Str} {ts : List (Lexeme Str)} (h : Delivers input ts)
    (heq : parseToken input = parseToken input') : Delivers input' ts := by
  cases h with
  | eof h => exact .eof (heq.symm.trans h)
  | comment h hrest => exact .comment (heq.symm.trans h) hrest
  | token h ht hrest => exact .token (heq.symm.trans h) ht hrest

/-- Words of a file are not empty. -/
theorem Delivers.word_ne_nil {input : Str} {ts : List (Lexeme Str)} (h : Delivers input ts)
    {w : Str} (hw : Lexeme.word w ∈ ts) : w ≠ [] := by
  induction h with
  | eof => cases hw
  | comment _ _ ih => exact ih hw
  | @token input value rest type t ts h ht _ ih =>
      rcases List.mem_cons.mp hw with rfl | hw
      · have hword := parseToken_word input
        rw [h] at hword
        cases type <;> cases ht
        exact hword rfl
      · exact ih hw

/-! ## 3. White space -/

/-- White space. -/
def isBlank (c : Char) : Bool := c == ' ' || c == '\t' || c == '\n' || c == '\r'

def Blank (s : Str) : Prop := ∀ c ∈ s, isBlank c = true

section

variable {c : Char} {s input : Str}

theorem isBlank_iff : isBlank c = true ↔ c = ' ' ∨ c = '\t' ∨ c = '\n' ∨ c = '\r' := by
  simp [isBlank, or_assoc]

theorem parseToken_blank_cons (hc : isBlank c = true) : parseToken (c :: input) = parseToken input := by
  unfold parseToken
  rcases isBlank_iff.mp hc with rfl | rfl | rfl | rfl <;> simp [scan, Quote.char]

/-- White space before a token is skipped. -/
theorem parseToken_blanks (hs : Blank s) : parseToken (s ++ input) = parseToken input := by
  induction s with
  | nil => rfl
  | cons c s ih =>
      rw [List.cons_append, parseToken_blank_cons (hs c List.mem_cons_self)]
      exact ih fun x hx => hs x (List.mem_cons_of_mem _ hx)

end

end Googolplex.Config
