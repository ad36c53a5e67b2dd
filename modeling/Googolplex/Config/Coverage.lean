/-
  File:      Googolplex/Config/Coverage.lean
  Subject:   THE LAST WORD OF A FILE, which `ParseToken` takes for its end.

  In the state NORMAL the end of the file is no end of a word: the call returns
  `TOKEN_TYPE_EOF` and what it has read is lost.

  * `append_word`: a word appended to an accepted config changes nothing.
  * `nothing_dropped_iff`: everything is covered by tokens and comments exactly if
    the file does not end in a word.
-/
import Googolplex.Config.Tokens

namespace Googolplex.Config

open Cxx Blocks

/-! ## 1. What is dropped -/

/-- White space, and perhaps a comment no line end closes. -/
inductive Skipped : Str → Prop
  | blank {s : Str} (hs : Blank s) : Skipped s
  | comment {s c : Str} (hs : Blank s) (hc : OneLine c) : Skipped (s ++ '#' :: c)

/-- **A call that returns the end of the file** takes nothing but that. -/
def EofSkips (file : Str) : Prop :=
  ∀ ts input value rest, Takes file ts input → parseToken input = (.eof, value, rest) →
    ∃ consumed, input = consumed ++ rest ∧ Skipped consumed

/-- **White space, tokens and comments**, up to what is skipped at the end. -/
inductive Covered : Str → Prop
  | eof {consumed value rest : Str} (h : parseToken (consumed ++ rest) = (.eof, value, rest))
      (hs : Skipped consumed) : Covered (consumed ++ rest)
  | token {s src value rest : Str} {type : TokenType} (hs : Blank s) (hsrc : Spelled type src value)
      (h : parseToken (s ++ (src ++ rest)) = (type, value, rest)) (hrest : Covered rest) :
      Covered (s ++ (src ++ rest))

/-- The config, a word after it, and white space between them; the config ends between two tokens,
    so that it is a further word. -/
structure Appended (file config : Str) : Prop where
  text : ∃ s w, file = config ++ (s ++ w) ∧ Blank s ∧ Plain w
  between : ∃ ts rest, Takes config ts rest ∧ Blank rest

/-- **A further word** after an accepted config is answered by false. -/
def FurtherWordRefused (file : Str) : Prop :=
  ∀ config, Appended file config → Accepted config → ∃ s, parse file [] ∅ = .ok (false, s)

/-- The last call begins with white space and a word that goes up to the end of the file. -/
def EndsInWord (file : Str) : Prop :=
  ∃ ts s w, Takes file ts (s ++ w) ∧ Blank s ∧ Plain w

section

variable {file config input rest value s s' w x x' : Str} {c c' : Char} {ts us : List (Lexeme Str)}

/-! ## 2. The last word -/

/-- White space ends where it ends. -/
theorem blank_cut : ∀ {s s' : Str}, Blank s → Blank s' → isBlank c = false → isBlank c' = false →
    s ++ c :: x = s' ++ c' :: x' → c = c'
  | [], [], _, _, _, _, h => (List.cons.inj h).1
  | [], d :: s', _, hs', hc, _, h => by
      rw [(List.cons.inj h).1, hs' d List.mem_cons_self] at hc
      cases hc
  | d :: s, [], hs, _, _, hc', h => by
      rw [← (List.cons.inj h).1, hs d List.mem_cons_self] at hc'
      cases hc'
  | d :: s, d' :: s', hs, hs', hc, hc', h =>
      blank_cut (fun y hy => hs y (List.mem_cons_of_mem _ hy))
        (fun y hy => hs' y (List.mem_cons_of_mem _ hy)) hc hc' (List.cons.inj h).2

theorem BeginsWord.not_blank (h : BeginsWord c) : isBlank c = false := by
  rw [Bool.eq_false_iff]
  intro hb
  obtain ⟨hd, hr, _⟩ := h
  rcases isBlank_iff.mp hb with rfl | rfl | rfl | rfl
  · cases hd
  · cases hd
  · cases hd
  · exact hr rfl

/-- A word is not skipped. -/
theorem not_skipped (hs : Blank s) (hw : Plain w) : ¬ Skipped (s ++ w) := by
  obtain ⟨c, w, rfl, hc, _⟩ := hw.begins
  intro h
  generalize heq : s ++ c :: w = input at h
  cases h with
  | blank hb =>
      have := hb c (by rw [← heq]; simp)
      rw [hc.not_blank] at this
      cases this
  | comment hs' _ =>
      have hsharp := blank_cut hs hs' hc.not_blank rfl heq
      exact hc.2.2.1 hsharp

/-- What the last call takes, if it is no word. -/
theorem skipped_of_eof (h : parseToken input = (.eof, value, rest)) (hno : ¬ EndsInWord input) :
    rest = [] ∧ Skipped input := by
  rcases parseToken_sound h with ⟨_, rfl, s, tail, rfl, hs, htail⟩ | herr | ⟨_, s, src, _, _, hsrc⟩
  · refine ⟨rfl, ?_⟩
    cases htail with
    | nothing =>
        rw [List.append_nil]
        exact .blank hs
    | comment hc => exact .comment hs hc
    | word hw => exact absurd ⟨[], s, tail, .done, hs, hw⟩ hno
  · cases herr
  · cases hsrc

theorem Takes.trans {left : Str} (h : Takes file ts rest) (h' : Takes rest us left) :
    Takes file (ts ++ us) left := by
  induction h with
  | done => exact h'
  | comment hp _ ih => exact .comment hp (ih h')
  | token hp ht _ ih => exact .token hp ht (ih h')

theorem EndsInWord.before (h : Takes file ts rest) (hrest : EndsInWord rest) : EndsInWord file := by
  obtain ⟨us, s, w, htakes, hs, hw⟩ := hrest
  exact ⟨ts ++ us, s, w, h.trans htakes, hs, hw⟩

/-- A file whose end is skipped is covered. -/
theorem Delivers.covered (h : Delivers file ts) (hskips : EofSkips file) : Covered file := by
  have hlater : ∀ {input value rest : Str} {type : TokenType},
      parseToken input = (type, value, rest) → (∀ us left, Takes rest us left → ∃ vs, Takes input vs left) →
      EofSkips input → EofSkips rest := by
    intro input value rest type _ hbefore hskips us left value' rest' htakes hp
    obtain ⟨vs, hvs⟩ := hbefore us left htakes
    exact hskips vs left value' rest' hvs hp
  have htaken : ∀ {input value rest : Str} {type : TokenType},
      parseToken input = (type, value, rest) → type ≠ .eof ∧ type ≠ .error → Covered rest →
      Covered input := by
    intro input value rest type hp hne hrest
    rcases parseToken_sound hp with ⟨ht, _⟩ | ht | ⟨_, s, src, rfl, hs, hsrc⟩
    · exact absurd ht hne.1
    · exact absurd ht hne.2
    · exact .token hs hsrc hp hrest
  induction h with
  | @eof input value rest hp =>
      obtain ⟨consumed, rfl, hs⟩ := hskips [] input value rest .done hp
      exact .eof hp hs
  | comment hp _ ih =>
      exact htaken hp ⟨nofun, nofun⟩ (ih (hlater hp (fun us left h => ⟨us, .comment hp h⟩) hskips))
  | @token input value rest type t ts hp ht _ ih =>
      exact htaken hp (lexeme_type ht)
        (ih (hlater hp (fun us left h => ⟨t :: us, .token hp ht h⟩) hskips))

/-! ## 3. A word after a config -/

theorem Appended.endsInWord (h : Appended file config) : EndsInWord file := by
  obtain ⟨⟨s, w, rfl, hs, hw⟩, ts, rest, htakes, hrest⟩ := h
  refine ⟨ts, rest ++ s, w, ?_, hrest.append hs, hw⟩
  rw [List.append_assoc]
  exact htakes.append _

/-- **A further word changes nothing**: the config is accepted as before, with all that was set. -/
theorem append_word {st : ParserState} (h : Appended file config)
    (hp : parse config [] ∅ = .ok (true, st)) : parse file [] ∅ = .ok (true, st) := by
  obtain ⟨⟨s, w, rfl, hs, hw⟩, us, rest, htakes, hrest⟩ := h
  obtain ⟨ts, r', hd, hr, hfin, rfl⟩ := parse_true_iff.mp hp
  refine parse_true_iff.mpr ⟨ts, r', ?_, hr, hfin, rfl⟩
  -- at the end of the config there is nothing left to deliver, with the word or without it
  obtain ⟨vs, rfl, hvs⟩ := htakes.split hd
  have hnil : vs = [] := by
    have hend : parseToken (rest ++ []) = (.eof, [], []) := by
      rw [parseToken_blanks hrest]
      rfl
    rw [List.append_nil] at hend
    exact hvs.unique (.eof hend)
  obtain ⟨value, heof⟩ := AtEnd.eof (.word hw) (hrest.append hs)
  rw [List.append_assoc] at heof
  rw [hnil]
  exact (htakes.append (s ++ w)).delivers (.eof heof)

/-- **Nothing is dropped** exactly if the file does not end in a word: only then does every call that
    returns the end of the file skip what it takes, are the tokens and comments all there is to the
    file, and is a further word refused. No word that is appended to an accepted config is. -/
theorem nothing_dropped_iff (file : Str) :
    (EofSkips file ∧ (∀ ts, Delivers file ts → Covered file) ∧ FurtherWordRefused file ↔
        ¬ EndsInWord file) ∧
      ∀ config, Appended file config → Accepted config → Accepted file := by
  refine ⟨⟨?_, fun hno => ?_⟩, fun config happ ⟨st, hp⟩ => ⟨st, append_word happ hp⟩⟩
  · intro ⟨hskips, _, _⟩ ⟨ts, s, w, htakes, hs, hw⟩
    obtain ⟨value, heof⟩ := AtEnd.eof (.word hw) hs
    obtain ⟨consumed, hcons, hskipped⟩ := hskips ts (s ++ w) value [] htakes heof
    rw [List.append_nil] at hcons
    rw [← hcons] at hskipped
    exact not_skipped hs hw hskipped
  · have hskips : EofSkips file := by
      intro ts input value rest htakes hp
      obtain ⟨rfl, hskipped⟩ := skipped_of_eof hp fun hin => hno (.before htakes hin)
      exact ⟨input, (List.append_nil input).symm, hskipped⟩
    exact ⟨hskips, fun ts hd => hd.covered hskips,
      fun config happ _ => absurd happ.endsInWord hno⟩

/-- **A word is lost**: of `a; b` the call after the `;` takes the `b` and returns the end. -/
theorem last_word_lost : ¬ (EofSkips "a; b".toList ∧
    (∀ ts, Delivers "a; b".toList ts → Covered "a; b".toList) ∧ FurtherWordRefused "a; b".toList) := by
  rintro ⟨hskips, _, _⟩
  have htakes : Takes "a; b".toList [.word "a".toList, .semi] " b".toList :=
    .token rfl rfl (.token rfl rfl .done)
  obtain ⟨consumed, hcons, hskipped⟩ := hskips _ _ "b".toList [] htakes rfl
  rw [List.append_nil] at hcons
  rw [← hcons] at hskipped
  refine not_skipped (s := [' ']) (w := ['b']) (by simp [Blank, isBlank]) ?_ hskipped
  exact plain_cons ⟨rfl, by decide, by decide, fun q => by cases q <;> decide⟩ (by simp)

end

end Googolplex.Config
