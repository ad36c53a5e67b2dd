/-
  File:      Googolplex/Config/Escapes.lean
  Subject:   WHETHER AN ESCAPE SURVIVES PRINTING.

  `ParseToken` takes each backslash away and leaves the quotes around a word;
  `ToString` writes what is left. So an escaped quote ends the printed word, and
  an escaped backslash escapes what comes after it.

  * `printed_token_iff`: one token.
  * `escapes_survive_iff`: one token, and a whole config.
-/
import Googolplex.Config.Declarations
import Googolplex.Config.Weights

namespace Googolplex.Config

open Cxx Blocks

/-! ## 1. One token -/

/-- The characters that are escaped. -/
def escapes : Str → Str
  | c :: d :: src => if c = '\\' then d :: escapes src else escapes (d :: src)
  | _ => []

/-- Neither the quote nor a backslash is escaped. -/
def Harmless (q : Quote) (src : Str) : Prop := q.char ∉ escapes src ∧ '\\' ∉ escapes src

section

variable {q : Quote} {c : Char} {s src value rest text w input left : Str} {type : TokenType}
  {ts us : List (Lexeme Str)}

theorem escapes_plain (hb : c ≠ '\\') (src : Str) : escapes (c :: src) = escapes src := by
  cases src with
  | nil => rfl
  | cons d src => exact if_neg hb

theorem escapes_escape (c : Char) (src : Str) : escapes ('\\' :: c :: src) = c :: escapes src :=
  if_pos rfl

/-- A quote or a backslash in the value was escaped. -/
theorem Escaped.harmless_iff (h : Escaped q src value) :
    Harmless q src ↔ q.char ∉ value ∧ '\\' ∉ value := by
  induction h with
  | nil => simp [Harmless, escapes]
  | plain hb hq _ ih =>
      unfold Harmless at ih ⊢
      rw [escapes_plain hb, ih, List.mem_cons, List.mem_cons]
      simp [Ne.symm hb, Ne.symm hq]
  | escape c _ ih =>
      unfold Harmless at ih ⊢
      rw [escapes_escape, List.mem_cons, List.mem_cons, List.mem_cons, List.mem_cons]
      tauto

theorem between_inj {q q' : Quote} {s s' : Str}
    (h : q.char :: (s ++ [q.char]) = q'.char :: (s' ++ [q'.char])) : q = q' ∧ s = s' := by
  obtain ⟨hq, hs⟩ := List.cons.inj h
  refine ⟨?_, (List.append_inj' hs rfl).1⟩
  cases q <;> cases q' <;> first | rfl | (exact absurd hq (by decide))

/-- What `ParseToken` makes of a word between quotes. -/
theorem parseToken_between (hs : Blank s)
    (hp : parseToken (s ++ (q.char :: (src ++ [q.char]) ++ rest)) = (.normal, w, rest)) :
    ∃ value, Escaped q src value ∧ w = q.char :: (value ++ [q.char]) := by
  have hsplit : q.char :: (src ++ [q.char]) ++ rest = q.char :: (src ++ q.char :: rest) := by simp
  rw [parseToken_blanks hs, hsplit, parseToken_quote] at hp
  rcases scan_quote_sound hp with herr | ⟨_, _, src', value, hv, hin, rfl⟩
  · cases herr
  · have heq : src = src' := (List.append_inj' hin rfl).1
    subst heq
    exact ⟨value, hv, rfl⟩

/-- **A printed token is read back** exactly if neither the quote nor a backslash is in it. -/
theorem printed_token_iff (value more : Str) :
    parseToken (q.char :: (value ++ [q.char]) ++ ';' :: more) =
        (.normal, q.char :: (value ++ [q.char]), ';' :: more) ↔ q.char ∉ value ∧ '\\' ∉ value := by
  constructor
  · intro hp
    rcases parseToken_sound hp with ⟨ht, _⟩ | ht | ⟨_, s, src, hin, hs, hspelled⟩
    · cases ht
    · cases ht
    · have htext : q.char :: (value ++ [q.char]) = s ++ src := by
        have happ : q.char :: (value ++ [q.char]) ++ ';' :: more = s ++ src ++ ';' :: more := by
          rw [hin, List.append_assoc]
        exact List.append_cancel_right happ
      -- the printed word is as long as what was read, so nothing was escaped in it
      have hbulk := congrArg bulk htext
      rw [bulk_append, hs.bulk_eq_zero, Nat.zero_add] at hbulk
      rcases (hspelled.bulk_le rfl).2 hbulk.symm _ rfl with hw | ⟨q', v, hv, hq, hb⟩
      · exact absurd rfl ((hw.front q.char rfl).2.2 q)
      · obtain ⟨rfl, rfl⟩ := between_inj hv
        exact ⟨hq, hb⟩
  · intro ⟨hq, hb⟩
    exact (Quoted.token ⟨q, value, rfl, hq, hb⟩ rfl)

/-! ## 2. The words of a file -/

/-- **The file has the word**, written this way. -/
def WritesWord (input src w : Str) : Prop :=
  ∃ ts s rest, Takes input ts (s ++ (src ++ rest)) ∧ Blank s ∧
    parseToken (s ++ (src ++ rest)) = (.normal, w, rest)

theorem WritesWord.spelled (h : Delivers input ts) (hw : Lexeme.word w ∈ ts) :
    ∃ src, WritesWord input src w ∧ Spelled .normal src w := by
  induction h with
  | eof => cases hw
  | comment hp _ ih =>
      obtain ⟨src, ⟨ts, s, rest, htakes, hs⟩, hspelled⟩ := ih hw
      exact ⟨src, ⟨ts, s, rest, .comment hp htakes, hs⟩, hspelled⟩
  | @token input value rest type t ts hp ht _ ih =>
      rcases List.mem_cons.mp hw with rfl | hw
      · rcases parseToken_sound hp with ⟨htype, _⟩ | htype | ⟨_, s, src, rfl, hs, hspelled⟩
        · exact absurd htype (lexeme_type ht).1
        · exact absurd htype (lexeme_type ht).2
        · cases type <;> cases ht
          exact ⟨src, ⟨[], s, rest, .done, hs, hp⟩, hspelled⟩
      · obtain ⟨src, ⟨us, s, rest, htakes, hs⟩, hspelled⟩ := ih hw
        exact ⟨src, ⟨_, s, rest, .token hp ht htakes, hs⟩, hspelled⟩

/-- **No word that is left in the tree** is written with an escaped quote of its own kind or an escaped
    backslash. -/
def EscapesHarmless (input : Str) (config : NginxConfig) : Prop :=
  ∀ w, Lexeme.word w ∈ lexemesOf config → ∀ q src,
    WritesWord input (q.char :: (src ++ [q.char])) w → Harmless q src

/-- These are the words that are printed as they were read. -/
theorem escapesHarmless_iff (h : Delivers input ts) {config : NginxConfig}
    (hsub : List.Sublist (lexemesOf config) ts) : EscapesHarmless input config ↔
      ∀ w, Lexeme.word w ∈ lexemesOf config → Plain w ∨ Quoted w := by
  constructor
  · intro hno w hw
    obtain ⟨src, hwrites, hspelled⟩ := WritesWord.spelled h (hsub.subset hw)
    cases hspelled with
    | bare hp => exact Or.inl hp
    | @quoted q src value hv =>
        obtain ⟨hq, hb⟩ := hv.harmless_iff.mp (hno _ hw q src hwrites)
        exact Or.inr ⟨q, value, rfl, hq, hb⟩
  · intro hall w hw q src ⟨us, s, rest, _, hs, hp⟩
    obtain ⟨value, hv, rfl⟩ := parseToken_between hs hp
    refine hv.harmless_iff.mpr ?_
    rcases hall _ hw with hplain | ⟨q', v, heq, hq, hb⟩
    · exact absurd rfl ((hplain.front q.char rfl).2.2 q)
    · obtain ⟨rfl, rfl⟩ := between_inj heq
      exact ⟨hq, hb⟩

/-! ## 3. A whole config -/

/-- What `ToString` prints is accepted, with the same tree. -/
def Reprinted (config : NginxConfig) : Prop :=
  ∃ s, parse (NginxConfig.toString 0 config) [] ∅ = .ok (true, s) ∧ s.config = config

/-- A config that is read back from what is printed has no other words. -/
theorem Reprinted.words {config : NginxConfig} (h : Reprinted config) :
    ∀ w, Lexeme.word w ∈ lexemesOf config → Plain w ∨ Quoted w := by
  obtain ⟨s, hp, hconfig⟩ := h
  obtain ⟨ds, hd, _, _, htree, _⟩ := parse_drafts hp
  have hsub : List.Sublist (lexemesOf config) (textOf ds) := by
    rw [← hconfig, htree]
    exact statementsOf_sublist ds
  have hle := hd.bulk_le
  have hprinted := bulk_toString config 0
  have hall := hle.2 (by have hsum := bulk_sublist hsub; omega)
  exact fun w hw => hall w (hsub.subset hw)

/-- **Escapes survive printing** exactly if what is escaped is neither the quote nor a backslash: a
    token that is printed is read back, and a config that is accepted is accepted again, with the same
    tree. -/
theorem escapes_survive_iff (b : Str) (q : Quote) (src value rest more input : Str) :
    (Blank b → parseToken (b ++ (q.char :: (src ++ [q.char]) ++ rest)) = (.normal, value, rest) →
      (parseToken (value ++ ';' :: more) = (.normal, value, ';' :: more) ↔ Harmless q src)) ∧
    ∀ s, parse input [] ∅ = .ok (true, s) →
      (Reprinted s.config ↔ EscapesHarmless input s.config) := by
  constructor
  · intro hs hp
    obtain ⟨v, hv, rfl⟩ := parseToken_between hs hp
    rw [printed_token_iff, hv.harmless_iff]
  · intro s hp
    obtain ⟨ds, hd, hworded, hne, hconfig, _⟩ := parse_drafts hp
    have hsub : List.Sublist (lexemesOf s.config) (textOf ds) := by
      rw [hconfig]
      exact statementsOf_sublist ds
    rw [escapesHarmless_iff hd hsub]
    refine ⟨Reprinted.words, fun hall => ?_⟩
    have hw : EveryOf Worded s.config := by
      rw [hconfig]
      exact EveryDraft.statements ds hworded
    have hprintable := EveryOf.and s.config hw ((everyOf_word_iff s.config).mpr hall)
    have hd' := delivers_toString s.config hprintable 0 (.eof (rfl : parseToken [] = (.eof, [], [])))
    rw [List.append_nil, List.append_nil] at hd'
    refine parse_lexemesOf hd' ?_ hw
    rw [hconfig]
    cases ds with
    | nil => exact absurd rfl hne
    | cons d ds => exact List.cons_ne_nil _ _

/-- `escapes_survive_iff` for a word with an escaped letter. -/
theorem escapes_survive_letter :
    (parseToken ("\x22an\x22".toList ++ ';' :: []) = (.normal, "\x22an\x22".toList, ';' :: []) ↔
      Harmless .double "a\\n".toList) ∧
    ∃ s, parse "\x22a\\n\x22;".toList [] ∅ = .ok (true, s) ∧
      (Reprinted s.config ↔ EscapesHarmless "\x22a\\n\x22;".toList s.config) := by
  have htoken : parseToken ([] ++ (Quote.double.char :: ("a\\n".toList ++ [Quote.double.char]) ++ [';'])) =
      (.normal, "\x22an\x22".toList, [';']) := rfl
  have hp : ∃ s, parse "\x22a\\n\x22;".toList [] ∅ = .ok (true, s) := ⟨_, rfl⟩
  obtain ⟨s, hs⟩ := hp
  obtain ⟨htokens, hconfigs⟩ := escapes_survive_iff [] .double "a\\n".toList "\x22an\x22".toList [';'] []
    "\x22a\\n\x22;".toList
  exact ⟨htokens Blank.nil htoken, s, hs, hconfigs s hs⟩

/-- **An escaped quote** ends the printed word, and the printed config is refused. -/
theorem escaped_quote_printed :
    parseToken "\x22a\\\x22b\x22;".toList = (.normal, "\x22a\x22b\x22".toList, [';']) ∧
    parseToken ("\x22a\x22b\x22".toList ++ [';']) ≠ (.normal, "\x22a\x22b\x22".toList, [';']) ∧
    ∃ s, parse "\x22a\\\x22b\x22;".toList [] ∅ = .ok (true, s) ∧ ¬ Reprinted s.config := by
  have hagain : parseToken ("\x22a\x22b\x22".toList ++ [';']) = (.error, "\x22a\x22".toList, "\x22;".toList) := by
    decide +kernel
  have htoken : parseToken "\x22a\\\x22b\x22;".toList = (.normal, "\x22a\x22b\x22".toList, [';']) := by
    decide +kernel
  refine ⟨htoken, fun h => ?_, ?_⟩
  · rw [hagain] at h
    cases h
  have hd : Delivers "\x22a\\\x22b\x22;".toList [.word "\x22a\x22b\x22".toList, .semi] :=
    .token htoken rfl (.token rfl rfl (.eof rfl))
  generalize hw : "\x22a\x22b\x22".toList = w at hd
  have hread : Reading.start.read [.word w, .semi] =
      some ⟨[], [.mk [w] none], some .semi, ⟨-1, ∅⟩⟩ := rfl
  refine ⟨_, parse_true_iff.mpr ⟨_, _, hd, hread, ⟨Or.inl rfl, rfl⟩, rfl⟩, ?_⟩
  intro hreprinted
  have hword := hreprinted.words w List.mem_cons_self
  rcases hword with hplain | ⟨q, v, hv, hq, _⟩
  · exact (hplain.front '\x22' (by rw [← hw]; rfl)).2.2 .double rfl
  · have heq : Quote.double.char :: ("a\x22b".toList ++ [Quote.double.char]) =
        q.char :: (v ++ [q.char]) := hw.trans hv
    obtain ⟨rfl, rfl⟩ := between_inj heq
    exact absurd hq (by decide)

end

end Googolplex.Config
