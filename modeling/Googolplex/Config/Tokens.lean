/-
  File:      Googolplex/Config/Tokens.lean
  Subject:   WHAT ONE CALL OF `ParseToken` TAKES, on every file.

  * `Spelled`: how a token is written, and the value that is made of it. Between
    quotes a backslash stands for the character after it (`Escaped`).
  * `parseToken_sound`, `Spelled.token`: a call takes white space and a token, or
    is an error, or is the end of the file (`AtEnd`).
  * `Takes`: several calls; what comes after the file they are made on does not
    matter to them.
-/
import Googolplex.Config.RoundTrip

namespace Googolplex.Config

open Cxx Blocks

/-! ## 1. How a token is written -/

/-- No end of a line. -/
def OneLine (s : Str) : Prop := ∀ c ∈ s, c ≠ '\n' ∧ c ≠ '\r'

/-- What stands between two quotes, and what it is read as. -/
inductive Escaped (q : Quote) : Str → Str → Prop
  | nil : Escaped q [] []
  | plain {c : Char} {src value : Str} (hb : c ≠ '\\') (hq : c ≠ q.char)
      (h : Escaped q src value) : Escaped q (c :: src) (c :: value)
  | escape {src value : Str} (c : Char) (h : Escaped q src value) :
      Escaped q ('\\' :: c :: src) (c :: value)

/-- **A token**: its type, how it is written, and its value. -/
inductive Spelled : TokenType → Str → Str → Prop
  | opn : Spelled .startBlock ['{'] ['{']
  | cls : Spelled .endBlock ['}'] ['}']
  | semi : Spelled .statementEnd [';'] [';']
  | comment {s : Str} {c : Char} (hs : OneLine s) (hc : c = '\n' ∨ c = '\r') :
      Spelled .comment ('#' :: (s ++ [c])) ('#' :: s)
  | bare {w : Str} (h : Plain w) : Spelled .normal w w
  | quoted {q : Quote} {src value : Str} (h : Escaped q src value) :
      Spelled .normal (q.char :: (src ++ [q.char])) (q.char :: (value ++ [q.char]))

/-- A word ends where a delimiter comes. -/
def EndsWord (type : TokenType) (rest : Str) : Prop :=
  type = .normal → ∃ c more, rest = c :: more ∧ isDelimiter c = true

/-- What is left when nothing but the end of the file comes: nothing, the beginning of a comment, or
    that of a word. -/
inductive AtEnd : Str → Prop
  | nothing : AtEnd []
  | comment {s : Str} (hs : OneLine s) : AtEnd ('#' :: s)
  | word {w : Str} (h : Plain w) : AtEnd w

section

variable {q : Quote} {c : Char} {s src value value' rest input : Str} {type : TokenType}

theorem Blank.cons (hc : isBlank c = true) (hs : Blank s) : Blank (c :: s) := by
  intro x hx
  rcases List.mem_cons.mp hx with rfl | hx
  · exact hc
  · exact hs x hx

theorem Blank.nil : Blank [] := nofun

theorem Blank.append {s' : Str} (hs : Blank s) (hs' : Blank s') : Blank (s ++ s') := by
  intro x hx
  rcases List.mem_append.mp hx with hx | hx
  · exact hs x hx
  · exact hs' x hx

theorem isDelimiter_iff : isDelimiter c = true ↔
    c = ' ' ∨ c = '\t' ∨ c = '\n' ∨ c = ';' ∨ c = '{' ∨ c = '}' := by
  simp [isDelimiter, or_assoc]

theorem Quote.char_ne (q : Quote) : isDelimiter q.char = false ∧ isBlank q.char = false ∧
    q.char ≠ '\\' ∧ q.char ≠ '#' := by
  cases q <;> decide

/-! ## 2. The four states -/

theorem scan_quote_escape (c : Char) :
    scan (.quote q) value ('\\' :: c :: input) = scan (.quote q) (value ++ [c]) input := by
  rw [scan.eq_def]
  simp

theorem scan_quote_plain (hb : c ≠ '\\') (hq : c ≠ q.char) :
    scan (.quote q) value (c :: input) = scan (.quote q) (value ++ [c]) input := by
  rw [scan.eq_def]
  simp only [if_neg hb, if_neg hq]

theorem scan_quote_close (c : Char) : scan (.quote q) value (q.char :: c :: rest) =
    if isDelimiter c then (.normal, value ++ [q.char], c :: rest)
    else (.error, value ++ [q.char], rest) := by
  rw [scan.eq_def]
  simp only [if_neg q.char_ne.2.2.1, if_true]

theorem scan_quote_end : scan (.quote q) value [q.char] = (.error, value ++ [q.char], []) := by
  rw [scan.eq_def]
  simp only [if_neg q.char_ne.2.2.1, if_true]

/-- Between quotes: an error, or a word up to the closing quote and a delimiter. -/
theorem scan_quote_sound : ∀ {input value : Str},
    scan (.quote q) value input = (type, value', rest) → type = .error ∨
      type = .normal ∧ EndsWord type rest ∧ ∃ src v, Escaped q src v ∧
        input = src ++ q.char :: rest ∧ value' = value ++ v ++ [q.char]
  | [], value, h => by
      cases h
      exact Or.inl rfl
  | c :: input, value, h => by
      by_cases hb : c = '\\'
      · subst hb
        cases input with
        | nil =>
            rw [scan.eq_def] at h
            cases h
            exact Or.inl rfl
        | cons c input =>
            rw [scan_quote_escape] at h
            rcases scan_quote_sound h with herr | ⟨hn, hend, src, v, hv, hin, hval⟩
            · exact Or.inl herr
            · exact Or.inr ⟨hn, hend, '\\' :: c :: src, c :: v, .escape c hv, by rw [hin]; rfl,
                by rw [hval]; simp⟩
      · by_cases hq : c = q.char
        · subst hq
          cases input with
          | nil =>
              rw [scan_quote_end] at h
              cases h
              exact Or.inl rfl
          | cons c rest =>
              rw [scan_quote_close] at h
              split at h
              · rename_i hc
                cases h
                exact Or.inr ⟨rfl, fun _ => ⟨c, rest, rfl, hc⟩, [], [], .nil, rfl, by simp⟩
              · cases h
                exact Or.inl rfl
        · rw [scan_quote_plain hb hq] at h
          rcases scan_quote_sound h with herr | ⟨hn, hend, src, v, hv, hin, hval⟩
          · exact Or.inl herr
          · exact Or.inr ⟨hn, hend, c :: src, c :: v, .plain hb hq hv, by rw [hin]; rfl,
              by rw [hval]; simp⟩
termination_by input => input.length

/-- What is escaped is read, up to the closing quote. -/
theorem Escaped.scan (h : Escaped q src s) :
    ∀ value, scan (.quote q) value (src ++ q.char :: rest) =
      scan (.quote q) (value ++ s) (q.char :: rest) := by
  induction h with
  | nil => simp
  | plain hb hq _ ih =>
      intro value
      rw [List.cons_append, scan_quote_plain hb hq, ih, List.append_assoc]
      rfl
  | escape c _ ih =>
      intro value
      rw [List.cons_append, List.cons_append, scan_quote_escape, ih, List.append_assoc]
      rfl

/-- In a comment: its end, or that of the file. -/
theorem scan_comment_sound : ∀ {input value : Str}, scan .comment value input = (type, value', rest) →
    (type = .comment ∧ ∃ s c, OneLine s ∧ (c = '\n' ∨ c = '\r') ∧ input = s ++ c :: rest ∧
        value' = value ++ s) ∨
      type = .eof ∧ rest = [] ∧ OneLine input
  | [], value, h => by
      cases h
      exact Or.inr ⟨rfl, rfl, nofun⟩
  | c :: input, value, h => by
      rw [scan] at h
      split at h
      · rename_i hc
        cases h
        exact Or.inl ⟨rfl, [], c, nofun, hc, rfl, by simp⟩
      · rename_i hc
        have hline : ∀ {s : Str}, OneLine s → OneLine (c :: s) := by
          intro s hs x hx
          rcases List.mem_cons.mp hx with rfl | hx
          · exact not_or.mp hc
          · exact hs x hx
        rcases scan_comment_sound h with ⟨ht, s, c', hs, hc', hin, hval⟩ | ⟨ht, hrest, hs⟩
        · exact Or.inl ⟨ht, c :: s, c', hline hs, hc', by rw [hin]; rfl, by rw [hval]; simp⟩
        · exact Or.inr ⟨ht, hrest, hline hs⟩

theorem scan_comment (hs : OneLine s) (hc : c = '\n' ∨ c = '\r') :
    ∀ value, scan .comment value (s ++ c :: rest) = (.comment, value ++ s, rest) := by
  induction s with
  | nil =>
      intro value
      simp [scan, hc]
  | cons a s ih =>
      intro value
      have ha := hs a List.mem_cons_self
      rw [List.cons_append, scan, if_neg (not_or.mpr ha), ih fun x hx => hs x (List.mem_cons_of_mem _ hx)]
      simp

theorem scan_comment_end (hs : OneLine s) : ∀ value, scan .comment value s = (.eof, value ++ s, []) := by
  induction s with
  | nil =>
      intro value
      simp [scan]
  | cons a s ih =>
      intro value
      have ha := hs a List.mem_cons_self
      rw [scan, if_neg (not_or.mpr ha), ih fun x hx => hs x (List.mem_cons_of_mem _ hx)]
      simp

/-- In a word: its end at a delimiter, or that of the file. -/
theorem scan_normal_sound : ∀ {input value : Str}, scan .normal value input = (type, value', rest) →
    (type = .normal ∧ EndsWord type rest ∧ ∃ w, (∀ c ∈ w, isDelimiter c = false) ∧
        input = w ++ rest ∧ value' = value ++ w) ∨
      type = .eof ∧ rest = [] ∧ ∀ c ∈ input, isDelimiter c = false
  | [], value, h => by
      cases h
      exact Or.inr ⟨rfl, rfl, nofun⟩
  | c :: input, value, h => by
      rw [scan] at h
      split at h
      · rename_i hc
        cases h
        exact Or.inl ⟨rfl, fun _ => ⟨c, input, rfl, hc⟩, [], nofun, rfl, by simp⟩
      · rename_i hc
        have hall : ∀ {w : Str}, (∀ x ∈ w, isDelimiter x = false) →
            ∀ x ∈ c :: w, isDelimiter x = false := by
          intro w hw x hx
          rcases List.mem_cons.mp hx with rfl | hx
          · exact Bool.eq_false_iff.mpr hc
          · exact hw x hx
        rcases scan_normal_sound h with ⟨ht, hend, w, hw, hin, hval⟩ | ⟨ht, hrest, hw⟩
        · exact Or.inl ⟨ht, hend, c :: w, hall hw, by rw [hin]; rfl, by rw [hval]; simp⟩
        · exact Or.inr ⟨ht, hrest, hall hw⟩

theorem scan_normal_end (hs : ∀ c ∈ s, isDelimiter c = false) :
    ∀ value, scan .normal value s = (.eof, value ++ s, []) := by
  induction s with
  | nil =>
      intro value
      simp [scan]
  | cons a s ih =>
      intro value
      have ha := hs a List.mem_cons_self
      rw [scan, ha, ih fun x hx => hs x (List.mem_cons_of_mem _ hx)]
      simp

/-! ## 3. One call -/

/-- A quote begins a quoted word. -/
theorem parseToken_quote (q : Quote) : parseToken (q.char :: input) = scan (.quote q) [q.char] input := by
  unfold parseToken
  cases q <;> simp [scan, Quote.char]

theorem parseToken_sharp : parseToken ('#' :: input) = scan .comment ['#'] input := by
  unfold parseToken
  simp [scan]

/-- What begins a word. -/
def BeginsWord (c : Char) : Prop :=
  isDelimiter c = false ∧ c ≠ '\r' ∧ c ≠ '#' ∧ ∀ q : Quote, c ≠ q.char

theorem parseToken_begins (hc : BeginsWord c) : parseToken (c :: input) = scan .normal [c] input := by
  obtain ⟨hd, hr, hsharp, hquote⟩ := hc
  have hdouble := hquote .double
  have hsingle := hquote .single
  simp only [isDelimiter, Bool.or_eq_false_iff, beq_eq_false_iff_ne] at hd
  obtain ⟨⟨⟨⟨⟨hblank, htab⟩, hline⟩, hsemi⟩, hopn⟩, hcls⟩ := hd
  unfold parseToken
  rw [scan, if_neg hopn, if_neg hcls, if_neg hsharp, if_neg hdouble, if_neg hsingle, if_neg hsemi,
    if_neg (by simp [hblank, htab, hline, hr])]
  rfl

theorem plain_cons (hc : BeginsWord c) (hs : ∀ x ∈ s, isDelimiter x = false) : Plain (c :: s) := by
  refine ⟨List.cons_ne_nil _ _, fun x hx => ?_, fun x hx => ?_⟩
  · rcases List.mem_cons.mp hx with rfl | hx
    · exact hc.1
    · exact hs x hx
  · cases hx
    exact hc.2

theorem Plain.begins {w : Str} (h : Plain w) : ∃ c s, w = c :: s ∧ BeginsWord c ∧
    ∀ x ∈ s, isDelimiter x = false := by
  cases w with
  | nil => exact absurd rfl h.nonempty
  | cons c s =>
      exact ⟨c, s, rfl, ⟨h.inside c List.mem_cons_self, h.front c rfl⟩,
        fun x hx => h.inside x (List.mem_cons_of_mem _ hx)⟩

/-- The characters a call can see first. -/
theorem first_cases (c : Char) : isBlank c = true ∨ c = '{' ∨ c = '}' ∨ c = ';' ∨ c = '#' ∨
    (∃ q : Quote, c = q.char) ∨ BeginsWord c := by
  by_cases hc : BeginsWord c
  · exact Or.inr (Or.inr (Or.inr (Or.inr (Or.inr (Or.inr hc)))))
  · by_cases hd : isDelimiter c = true
    · rcases isDelimiter_iff.mp hd with rfl | rfl | rfl | rfl | rfl | rfl <;> simp [isBlank]
    · by_cases hr : c = '\r'
      · exact Or.inl (by rw [hr]; rfl)
      · by_cases hsharp : c = '#'
        · simp [hsharp]
        · by_cases hq : ∃ q : Quote, c = q.char
          · exact Or.inr (Or.inr (Or.inr (Or.inr (Or.inr (Or.inl hq)))))
          · exact absurd ⟨Bool.eq_false_iff.mpr hd, hr, hsharp, fun q he => hq ⟨q, he⟩⟩ hc

/-- What a call takes, the white space before it left out. -/
theorem parseToken_first (hc : isBlank c = false)
    (h : parseToken (c :: input) = (type, value, rest)) :
    type = .eof ∧ rest = [] ∧ AtEnd (c :: input) ∨ type = .error ∨
      EndsWord type rest ∧ ∃ src, c :: input = src ++ rest ∧ Spelled type src value := by
  rcases first_cases c with hb | rfl | rfl | rfl | rfl | ⟨q, rfl⟩ | hw
  · rw [hc] at hb
    cases hb
  · cases h
    exact Or.inr (Or.inr ⟨nofun, ['{'], rfl, .opn⟩)
  · cases h
    exact Or.inr (Or.inr ⟨nofun, ['}'], rfl, .cls⟩)
  · cases h
    exact Or.inr (Or.inr ⟨nofun, [';'], rfl, .semi⟩)
  · rw [parseToken_sharp] at h
    rcases scan_comment_sound h with ⟨rfl, s, c, hs, hc, rfl, rfl⟩ | ⟨rfl, rfl, hs⟩
    · exact Or.inr (Or.inr ⟨nofun, '#' :: (s ++ [c]), by simp, .comment hs hc⟩)
    · exact Or.inl ⟨rfl, rfl, .comment hs⟩
  · rw [parseToken_quote] at h
    rcases scan_quote_sound h with herr | ⟨rfl, hend, src, v, hv, rfl, rfl⟩
    · exact Or.inr (Or.inl herr)
    · refine Or.inr (Or.inr ⟨hend, q.char :: (src ++ [q.char]), by simp, ?_⟩)
      exact .quoted hv
  · rw [parseToken_begins hw] at h
    rcases scan_normal_sound h with ⟨rfl, hend, w, hs, rfl, rfl⟩ | ⟨rfl, rfl, hs⟩
    · exact Or.inr (Or.inr ⟨hend, c :: w, rfl, .bare (plain_cons hw hs)⟩)
    · exact Or.inl ⟨rfl, rfl, .word (plain_cons hw hs)⟩

/-- **What a call takes**: white space, and a token; or it is an error; or nothing is left but what
    `AtEnd` says. -/
theorem parseToken_sound : ∀ {input : Str}, parseToken input = (type, value, rest) →
    (type = .eof ∧ rest = [] ∧ ∃ s tail, input = s ++ tail ∧ Blank s ∧ AtEnd tail) ∨
      type = .error ∨
      EndsWord type rest ∧ ∃ s src, input = s ++ (src ++ rest) ∧ Blank s ∧ Spelled type src value
  | [], h => by
      cases h
      exact Or.inl ⟨rfl, rfl, [], [], rfl, .nil, .nothing⟩
  | c :: input, h => by
      by_cases hc : isBlank c = true
      · rw [parseToken_blank_cons hc] at h
        rcases parseToken_sound h with ⟨ht, hrest, s, tail, rfl, hs, htail⟩ | herr |
          ⟨hend, s, src, rfl, hs, hsrc⟩
        · exact Or.inl ⟨ht, hrest, c :: s, tail, rfl, hs.cons hc, htail⟩
        · exact Or.inr (Or.inl herr)
        · exact Or.inr (Or.inr ⟨hend, c :: s, src, rfl, hs.cons hc, hsrc⟩)
      · rcases parseToken_first (Bool.eq_false_iff.mpr hc) h with ⟨ht, hrest, htail⟩ | herr |
          ⟨hend, src, hsrc, hspelled⟩
        · exact Or.inl ⟨ht, hrest, [], c :: input, rfl, .nil, htail⟩
        · exact Or.inr (Or.inl herr)
        · exact Or.inr (Or.inr ⟨hend, [], src, hsrc, .nil, hspelled⟩)

/-- **A token after white space is taken.** -/
theorem Spelled.token (h : Spelled type src value) (hs : Blank s) (hend : EndsWord type rest) :
    parseToken (s ++ (src ++ rest)) = (type, value, rest) := by
  rw [parseToken_blanks hs]
  cases h with
  | opn | cls | semi => rfl
  | @comment s c hs hc =>
      have hsplit : '#' :: (s ++ [c]) ++ rest = '#' :: (s ++ c :: rest) := by simp
      rw [hsplit, parseToken_sharp, scan_comment hs hc]
      rfl
  | bare hw =>
      obtain ⟨c, more, rfl, hc⟩ := hend rfl
      exact hw.token hc
  | @quoted q src v hv =>
      obtain ⟨c, more, rfl, hc⟩ := hend rfl
      have hsplit : q.char :: (src ++ [q.char]) ++ c :: more = q.char :: (src ++ q.char :: c :: more) := by
        simp
      rw [hsplit, parseToken_quote, hv.scan, scan_quote_close, if_pos hc]
      rfl

/-- **What is left at the end** is taken as the end of the file. -/
theorem AtEnd.eof (h : AtEnd rest) (hs : Blank s) : ∃ value, parseToken (s ++ rest) = (.eof, value, []) := by
  rw [parseToken_blanks hs]
  cases h with
  | nothing => exact ⟨[], rfl⟩
  | comment hs => exact ⟨_, by rw [parseToken_sharp, scan_comment_end hs]⟩
  | word hw =>
      obtain ⟨c, s, rfl, hc, hs⟩ := hw.begins
      exact ⟨_, by rw [parseToken_begins hc, scan_normal_end hs]⟩

/-! ## 4. Several calls -/

/-- **Calls in a row** take these lexemes, comments skipped, and leave the rest. -/
inductive Takes : Str → List (Lexeme Str) → Str → Prop where
  | done {input : Str} : Takes input [] input
  | comment {input value rest left : Str} {ts : List (Lexeme Str)}
      (h : parseToken input = (.comment, value, rest)) (hrest : Takes rest ts left) :
      Takes input ts left
  | token {input value rest left : Str} {type : TokenType} {t : Lexeme Str} {ts : List (Lexeme Str)}
      (h : parseToken input = (type, value, rest)) (ht : lexeme value type = some t)
      (hrest : Takes rest ts left) : Takes input (t :: ts) left

variable {left more : Str} {ts us : List (Lexeme Str)}

/-- A call that takes a token does not look beyond the character after it. -/
theorem parseToken_append (h : parseToken input = (type, value, rest))
    (hne : type ≠ .eof ∧ type ≠ .error) (more : Str) :
    parseToken (input ++ more) = (type, value, rest ++ more) := by
  rcases parseToken_sound h with ⟨ht, _⟩ | ht | ⟨hend, s, src, rfl, hs, hspelled⟩
  · exact absurd ht hne.1
  · exact absurd ht hne.2
  · have hend' : EndsWord type (rest ++ more) := by
      intro ht
      obtain ⟨c, tail, rfl, hc⟩ := hend ht
      exact ⟨c, tail ++ more, rfl, hc⟩
    have htoken := hspelled.token hs hend'
    rw [List.append_assoc, List.append_assoc]
    exact htoken

theorem lexeme_type {t : Lexeme Str} (ht : lexeme value type = some t) :
    type ≠ .eof ∧ type ≠ .error := by
  constructor <;> (rintro rfl; cases ht)

theorem Takes.append (h : Takes input ts left) (more : Str) :
    Takes (input ++ more) ts (left ++ more) := by
  induction h with
  | done => exact .done
  | comment hp _ ih => exact .comment (parseToken_append hp ⟨nofun, nofun⟩ more) ih
  | token hp ht _ ih => exact .token (parseToken_append hp (lexeme_type ht) more) ht ih

theorem Takes.delivers (h : Takes input ts left) (hd : Delivers left us) :
    Delivers input (ts ++ us) := by
  induction h with
  | done => exact hd
  | comment hp _ ih => exact .comment hp (ih hd)
  | token hp ht _ ih => exact .token hp ht (ih hd)

/-- What is delivered begins with what was taken. -/
theorem Takes.split (h : Takes input ts left) (hd : Delivers input us) :
    ∃ vs, us = ts ++ vs ∧ Delivers left vs := by
  induction h generalizing us with
  | done => exact ⟨us, rfl, hd⟩
  | comment hp _ ih =>
      cases hd with
      | eof hp' => rw [hp] at hp'; cases hp'
      | comment hp' hrest => rw [hp] at hp'; cases hp'; exact ih hrest
      | token hp' ht' => rw [hp] at hp'; cases hp'; cases ht'
  | token hp ht _ ih =>
      cases hd with
      | eof hp' => rw [hp] at hp'; cases hp'; cases ht
      | comment hp' => rw [hp] at hp'; cases hp'; cases ht
      | token hp' ht' hrest =>
          rw [hp] at hp'
          cases hp'
          rw [ht] at ht'
          cases ht'
          obtain ⟨vs, rfl, hvs⟩ := ih hrest
          exact ⟨vs, rfl, hvs⟩

end

end Googolplex.Config
