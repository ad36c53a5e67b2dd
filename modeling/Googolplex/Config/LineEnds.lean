/-
  File:      Googolplex/Config/LineEnds.lean
  Subject:   FROM LF TO CRLF, for every file.

  A carriage return before each line feed is white space, the end of a comment, or
  one more character of the word before it.

  * `crlf_token`, `crlf_comment`: one call of `ParseToken` on the other line ends.
  * `KeepsFrom.read`: no line feed right after a word that fits.
  * `KeepsFrom.of_said`: one after such a word shows in the tree.
  * `layout_iff`: layouts of a sequence, and line ends of a file.
-/
import Googolplex.Config.Escapes
import Googolplex.Config.Layout

namespace Googolplex.Config

open Cxx Blocks

/-! ## 1. Line ends -/

/-- A carriage return before each line feed. -/
def crlf (s : Str) : Str := s.flatMap fun c => if c = '\n' then ['\r', '\n'] else [c]

/-- No line break in a quoted word. -/
def NoBreakInQuotes (input : Str) : Prop :=
  ∀ (q : Quote) (src w : Str), WritesWord input (q.char :: (src ++ [q.char])) w → '\n' ∉ src

/-- From a reading on, no line feed comes right after a word that fits, or its closing quote. -/
def KeepsFrom (r : Reading) (input : Str) : Prop :=
  ∀ ts left w rest, Takes input ts left → parseToken left = (.normal, w, rest) →
    (r.read (ts ++ [.word w])).isSome → ∀ more, rest ≠ '\n' :: more

/-- **No line feed comes right after a word**, up to the first lexeme that does not fit. -/
def KeepsWords (input : Str) : Prop := KeepsFrom Reading.start input

section

variable {q : Quote} {c : Char} {s src value rest input w : Str} {type : TokenType}
  {t : Lexeme Str} {ts us : List (Lexeme Str)} {whole whole' : Bool} {r r' : Reading}

theorem crlf_append (s s' : Str) : crlf (s ++ s') = crlf s ++ crlf s' := List.flatMap_append

theorem crlf_line (s : Str) : crlf ('\n' :: s) = '\r' :: '\n' :: crlf s := rfl

theorem crlf_cons (hc : c ≠ '\n') (s : Str) : crlf (c :: s) = c :: crlf s := by
  unfold crlf
  rw [List.flatMap_cons, if_neg hc]
  rfl

theorem crlf_eq_self (h : '\n' ∉ s) : crlf s = s := by
  induction s with
  | nil => rfl
  | cons c s ih =>
      rw [crlf_cons (fun he => h (he ▸ List.mem_cons_self)), ih fun hm => h (List.mem_cons_of_mem _ hm)]

theorem Blank.crlf (h : Blank s) : Blank (crlf s) := by
  intro c hc
  obtain ⟨d, hd, hm⟩ := List.mem_flatMap.mp hc
  by_cases hline : d = '\n'
  · rw [if_pos hline] at hm
    rcases List.mem_cons.mp hm with rfl | hm
    · rfl
    · rw [List.mem_singleton.mp hm]
      rfl
  · rw [if_neg hline] at hm
    rw [List.mem_singleton.mp hm]
    exact h d hd

theorem Plain.no_line (h : Plain w) : '\n' ∉ w := fun hm => by
  have hd := h.inside _ hm
  cases hd

theorem OneLine.no_line (h : OneLine s) : '\n' ∉ s := fun hm => (h _ hm).1 rfl

theorem AtEnd.no_line (h : AtEnd s) : '\n' ∉ s := by
  cases h with
  | nothing => exact List.not_mem_nil
  | comment hs => exact List.not_mem_cons_of_ne_of_not_mem (by decide) hs.no_line
  | word hw => exact hw.no_line

/-! ## 2. One call -/

/-- An unclosed quote, or one that is closed in the wrong place, stays one. -/
theorem scan_quote_crlf : ∀ {input value value' : Str},
    (scan (.quote q) value input).1 = .error → (scan (.quote q) value' (crlf input)).1 = .error
  | [], _, _, _ => rfl
  | c :: input, value, value', h => by
      by_cases hb : c = '\\'
      · subst hb
        cases input with
        | nil => rfl
        | cons d input =>
            rw [scan_quote_escape] at h
            by_cases hline : d = '\n'
            · subst hline
              rw [crlf_cons (by decide), crlf_line, scan_quote_escape,
                scan_quote_plain (by decide) (by cases q <;> decide)]
              exact scan_quote_crlf h
            · rw [crlf_cons (by decide), crlf_cons hline, scan_quote_escape]
              exact scan_quote_crlf h
      · by_cases hq : c = q.char
        · subst hq
          have hne : q.char ≠ '\n' := by cases q <;> decide
          rw [crlf_cons hne]
          cases input with
          | nil => exact congrArg Prod.fst scan_quote_end
          | cons d rest =>
              rw [scan_quote_close] at h
              by_cases hd : isDelimiter d = true
              · rw [if_pos hd] at h
                cases h
              · have hline : d ≠ '\n' := fun he => hd (by rw [he]; rfl)
                rw [crlf_cons hline, scan_quote_close, if_neg hd]
        · rw [scan_quote_plain hb hq] at h
          by_cases hline : c = '\n'
          · subst hline
            rw [crlf_line, scan_quote_plain (by decide) (by cases q <;> decide),
              scan_quote_plain hb hq]
            exact scan_quote_crlf h
          · rw [crlf_cons hline, scan_quote_plain hb hq]
            exact scan_quote_crlf h
termination_by input => input.length

/-- Only a quote leads to an error. -/
theorem parseToken_error : ∀ {input : Str}, (parseToken input).1 = .error →
    ∃ s q rest, input = s ++ Quote.char q :: rest ∧ Blank s ∧
      (scan (.quote q) [q.char] rest).1 = .error
  | [], h => by cases h
  | c :: input, h => by
      rcases first_cases c with hb | rfl | rfl | rfl | rfl | ⟨q, rfl⟩ | hw
      · rw [parseToken_blank_cons hb] at h
        obtain ⟨s, q, rest, rfl, hs, hscan⟩ := parseToken_error h
        exact ⟨c :: s, q, rest, rfl, hs.cons hb, hscan⟩
      · cases h
      · cases h
      · cases h
      · rw [parseToken_sharp] at h
        rcases scan_comment_sound (Prod.eta _).symm with ⟨ht, _⟩ | ⟨ht, _⟩ <;> (rw [ht] at h; cases h)
      · rw [parseToken_quote] at h
        exact ⟨[], q, input, rfl, .nil, h⟩
      · rw [parseToken_begins hw] at h
        rcases scan_normal_sound (Prod.eta _).symm with ⟨ht, _⟩ | ⟨ht, _⟩ <;> (rw [ht] at h; cases h)

theorem parseToken_crlf_error (h : (parseToken input).1 = .error) :
    (parseToken (crlf input)).1 = .error := by
  obtain ⟨s, q, rest, rfl, hs, hscan⟩ := parseToken_error h
  have hne : q.char ≠ '\n' := by cases q <;> decide
  rw [crlf_append, parseToken_blanks hs.crlf, crlf_cons hne, parseToken_quote]
  exact scan_quote_crlf hscan

/-- A token in the file with the other line ends; a word without a line feed right after it. -/
theorem parseToken_crlf (hs : Blank s) (hspelled : Spelled type src value)
    (hend : EndsWord type rest) (hsrc : '\n' ∉ src)
    (hnext : type = .normal → ∀ more, rest ≠ '\n' :: more) :
    parseToken (crlf (s ++ (src ++ rest))) = (type, value, crlf rest) := by
  rw [crlf_append, crlf_append, crlf_eq_self hsrc]
  refine hspelled.token hs.crlf fun htype => ?_
  obtain ⟨c, more, rfl, hc⟩ := hend htype
  have hne : c ≠ '\n' := fun he => hnext htype more (by rw [he])
  exact ⟨c, crlf more, crlf_cons hne more, hc⟩

/-- The comment ends at the carriage return, and the line feed is white space. -/
theorem parseToken_crlf_comment (hs : Blank s) (hspelled : Spelled .comment src value) :
    ∃ gap, Blank gap ∧ parseToken (crlf (s ++ (src ++ rest))) = (.comment, value, gap ++ crlf rest) := by
  cases hspelled with
  | @comment line c hline hc =>
      have hno : '\n' ∉ '#' :: line := List.not_mem_cons_of_ne_of_not_mem (by decide) hline.no_line
      obtain ⟨gap, hgap, htext⟩ : ∃ gap, Blank gap ∧ crlf [c] = ['\r'] ++ gap := by
        rcases hc with rfl | rfl
        · exact ⟨['\n'], .cons rfl .nil, rfl⟩
        · exact ⟨[], .nil, rfl⟩
      refine ⟨gap, hgap, ?_⟩
      have hsplit : crlf (s ++ ('#' :: (line ++ [c]) ++ rest)) =
          crlf s ++ ('#' :: (line ++ ['\r']) ++ (gap ++ crlf rest)) := by
        have hline' : '#' :: (line ++ [c]) = '#' :: line ++ [c] := rfl
        rw [crlf_append, crlf_append, hline', crlf_append, crlf_eq_self hno, htext]
        simp
      rw [hsplit]
      exact (Spelled.comment hline (Or.inr rfl)).token hs.crlf nofun

/-- A word that a line feed comes right after. -/
theorem parseToken_crlf_word (hs : Blank s) (hspelled : Spelled .normal src w) (hsrc : '\n' ∉ src)
    (more : Str) :
    parseToken (crlf (s ++ (src ++ '\n' :: more))) = (.normal, w ++ ['\r'], '\n' :: crlf more) ∨
      (parseToken (crlf (s ++ (src ++ '\n' :: more)))).1 = .error := by
  rw [crlf_append, crlf_append, crlf_eq_self hsrc, crlf_line]
  cases hspelled with
  | bare hw =>
      obtain ⟨c, tail, rfl, hc, htail⟩ := hw.begins
      have hplain : Plain (c :: (tail ++ ['\r'])) := by
        refine plain_cons hc fun x hx => ?_
        rcases List.mem_append.mp hx with hx | hx
        · exact htail x hx
        · rw [List.mem_singleton.mp hx]
          rfl
      have hend : EndsWord .normal ('\n' :: crlf more) := fun _ => ⟨_, _, rfl, rfl⟩
      have htoken := (Spelled.bare hplain).token hs.crlf hend
      left
      simpa using htoken
  | @quoted q src value h =>
      right
      have hsplit : q.char :: (src ++ [q.char]) ++ '\r' :: '\n' :: crlf more =
          q.char :: (src ++ q.char :: '\r' :: '\n' :: crlf more) := by simp
      rw [parseToken_blanks hs.crlf, hsplit, parseToken_quote, h.scan, scan_quote_close]
      rfl

/-- A token that is no comment has no line feed in it, if no quoted word has one. -/
theorem Spelled.no_line (h : Spelled type src value) (hline : type ≠ .comment)
    (hq : ∀ (q : Quote) (s : Str), src = q.char :: (s ++ [q.char]) → '\n' ∉ s) : '\n' ∉ src := by
  cases h with
  | opn | cls | semi => decide
  | comment => exact absurd rfl hline
  | bare hw => exact hw.no_line
  | @quoted q s v hv =>
      have hs := hq q s rfl
      have hne : '\n' ≠ q.char := by cases q <;> decide
      simp [hne, hs]

/-! ## 3. All calls -/

theorem NoBreakInQuotes.comment (h : NoBreakInQuotes input)
    (hp : parseToken input = (.comment, value, rest)) : NoBreakInQuotes rest := by
  intro q src w ⟨ts, s, left, htakes, hs, hw⟩
  exact h q src w ⟨ts, s, left, .comment hp htakes, hs, hw⟩

theorem NoBreakInQuotes.token (h : NoBreakInQuotes input)
    (hp : parseToken input = (type, value, rest)) (ht : lexeme value type = some t) :
    NoBreakInQuotes rest := by
  intro q src w ⟨ts, s, left, htakes, hs, hw⟩
  exact h q src w ⟨_, s, left, .token hp ht htakes, hs, hw⟩

/-- The first token has no line feed in it. -/
theorem NoBreakInQuotes.first (h : NoBreakInQuotes (s ++ (src ++ rest))) (hs : Blank s)
    (hspelled : Spelled type src value) (hline : type ≠ .comment)
    (hp : parseToken (s ++ (src ++ rest)) = (type, value, rest)) : '\n' ∉ src := by
  refine hspelled.no_line hline fun q v hv => ?_
  cases hspelled with
  | opn | cls | semi => cases q <;> cases hv
  | comment => exact absurd rfl hline
  | bare hw => exact absurd rfl ((hw.front q.char (by rw [hv]; rfl)).2.2 q)
  | quoted =>
      obtain ⟨rfl, rfl⟩ := between_inj hv
      exact h _ _ _ ⟨[], s, rest, .done, hs, hp⟩

/-- The end of the file stays the end of the file. -/
theorem crlf_eof (hp : parseToken input = (.eof, value, rest)) : Lexed (crlf input) [] true := by
  rcases parseToken_sound hp with ⟨_, _, s, tail, rfl, hs, htail⟩ | ht | ⟨_, s, src, _, _, hspelled⟩
  · obtain ⟨value, heof⟩ := htail.eof hs.crlf
    rw [crlf_append, crlf_eq_self htail.no_line]
    exact .eof heof
  · cases ht
  · cases hspelled

/-- An error stays an error. -/
theorem crlf_bad (hp : parseToken input = (type, value, rest)) (htype : type = .error ∨ type = .start) :
    Lexed (crlf input) [] false := by
  have herror : (parseToken input).1 = .error := by
    rcases htype with rfl | rfl
    · rw [hp]
    · rcases parseToken_sound hp with ⟨ht, _⟩ | ht | ⟨_, s, src, _, _, hspelled⟩
      · cases ht
      · cases ht
      · cases hspelled
  exact .bad (Prod.eta _).symm (Or.inl (parseToken_crlf_error herror))

/-- A comment stays a comment. -/
theorem crlf_comment (hp : parseToken input = (.comment, value, rest))
    (hd : Lexed (crlf rest) us whole) : Lexed (crlf input) us whole := by
  rcases parseToken_sound hp with ⟨ht, _⟩ | ht | ⟨_, s, src, rfl, hs, hspelled⟩
  · cases ht
  · cases ht
  · obtain ⟨gap, hgap, htoken⟩ := parseToken_crlf_comment hs hspelled
    exact .comment htoken (hd.congr (parseToken_blanks hgap).symm)

/-- **A token stays what it is**, but a word that a line feed comes right after: it gets a carriage
    return, or its closing quote is followed by one. -/
theorem crlf_token (hq : NoBreakInQuotes input) (hp : parseToken input = (type, value, rest))
    (ht : lexeme value type = some t) (hd : Lexed (crlf rest) us whole) :
    (Lexed (crlf input) (t :: us) whole ∧ (type = .normal → ∀ more, rest ≠ '\n' :: more)) ∨
      ∃ more, t = .word value ∧ type = .normal ∧ rest = '\n' :: more ∧
        (Lexed (crlf input) (.word (value ++ ['\r']) :: us) whole ∨
          Lexed (crlf input) [] false) := by
  have hline : type ≠ .comment := by
    rintro rfl
    cases ht
  rcases parseToken_sound hp with ⟨htype, _⟩ | htype | ⟨hend, s, src, rfl, hs, hspelled⟩
  · exact absurd htype (lexeme_type ht).1
  · exact absurd htype (lexeme_type ht).2
  · have hsrc := hq.first hs hspelled hline hp
    by_cases hnext : type = .normal → ∀ more, rest ≠ '\n' :: more
    · exact Or.inl ⟨.token (parseToken_crlf hs hspelled hend hsrc hnext) ht hd, hnext⟩
    · obtain ⟨rfl, hmore⟩ := Classical.not_imp.mp hnext
      obtain ⟨more, hmore⟩ := Classical.not_forall.mp hmore
      obtain rfl := Classical.not_not.mp hmore
      cases ht
      have hskip : parseToken (crlf ('\n' :: more)) = parseToken ('\n' :: crlf more) :=
        parseToken_blank_cons rfl
      refine Or.inr ⟨more, rfl, rfl, rfl, ?_⟩
      rcases parseToken_crlf_word hs hspelled hsrc more with htoken | herror
      · exact Or.inl (.token htoken rfl (hd.congr hskip))
      · exact Or.inr (.bad (Prod.eta _).symm (Or.inl herror))

/-! ### Kinds of lexemes -/

/-- What the lexemes are, without the words. -/
def kinds (ts : List (Lexeme Str)) : List TokenType := ts.map fun t => typeOf (some t)

/-- **The other line ends change words**, and cut off what comes after an error. -/
theorem crlf_kinds (hd : Lexed input ts whole) (hq : NoBreakInQuotes input) :
    ∀ {us whole'}, Lexed (crlf input) us whole' → kinds us <+: kinds ts := by
  induction hd with
  | eof hp =>
      intro us whole' hd'
      rw [(hd'.unique (crlf_eof hp)).1]
  | bad hp htype =>
      intro us whole' hd'
      rw [(hd'.unique (crlf_bad hp htype)).1]
  | @comment _ _ rest _ _ hp _ ih =>
      intro us whole' hd'
      obtain ⟨vs, whole'', hrest⟩ := exists_lexed _ (rfl : (crlf rest).length = _)
      rw [(hd'.unique (crlf_comment hp hrest)).1]
      exact ih (hq.comment hp) hrest
  | @token _ _ rest _ _ _ _ hp ht _ ih =>
      intro us whole' hd'
      obtain ⟨vs, whole'', hrest⟩ := exists_lexed _ (rfl : (crlf rest).length = _)
      have hmore := ih (hq.token hp ht) hrest
      rcases crlf_token hq hp ht hrest with ⟨hd'', _⟩ | ⟨_, rfl, _, _, hd'' | hd''⟩
      · rw [(hd'.unique hd'').1]
        exact List.cons_prefix_cons.mpr ⟨rfl, hmore⟩
      · rw [(hd'.unique hd'').1]
        exact List.cons_prefix_cons.mpr ⟨rfl, hmore⟩
      · rw [(hd'.unique hd'').1]
        exact List.nil_prefix

theorem kinds_head {u : Lexeme Str} (h : kinds (u :: us) <+: kinds ts) :
    ∃ t ts', ts = t :: ts' ∧ typeOf (some u) = typeOf (some t) ∧ kinds us <+: kinds ts' := by
  cases ts with
  | nil => cases List.eq_nil_of_prefix_nil h
  | cons t ts' =>
      obtain ⟨hkind, hrest⟩ := List.cons_prefix_cons.mp h
      exact ⟨t, ts', rfl, hkind, hrest⟩

theorem kind_opn {u : Lexeme Str} (h : typeOf (some Lexeme.opn) = typeOf (some u)) : u = .opn := by
  cases u <;> first | rfl | cases h

theorem kind_cls {u : Lexeme Str} (h : typeOf (some Lexeme.cls) = typeOf (some u)) : u = .cls := by
  cases u <;> first | rfl | cases h

theorem kind_semi {u : Lexeme Str} (h : typeOf (some u) = typeOf (some Lexeme.semi)) : u = .semi := by
  cases u <;> first | rfl | cases h

/-- What is no block after another one is none in other words. -/
theorem chained_of_kinds {last last' : Option (Lexeme Str)} (hlast : typeOf last = typeOf last')
    (h : kinds us <+: kinds ts) (hc : Chained NotAfterBlock last' ts) :
    Chained NotAfterBlock last us := by
  induction us generalizing last last' ts with
  | nil => trivial
  | cons u us ih =>
      obtain ⟨t, ts', rfl, hkind, hrest⟩ := kinds_head h
      refine ⟨?_, ih hkind hrest hc.2⟩
      rintro rfl rfl
      obtain rfl := kind_opn hkind
      refine hc.1 rfl ?_
      cases last' with
      | none => cases hlast
      | some l => rw [kind_cls hlast]

/-- What has a defined outcome has one in other words. -/
theorem undefined_of_kinds (h : kinds us <+: kinds ts) (hu : Undefined r us) : Undefined r ts := by
  cases us with
  | nil => exact absurd hu id
  | cons u us =>
      obtain ⟨t, ts', rfl, hkind, hrest⟩ := kinds_head h
      cases u with
      | word w => exact absurd hu id
      | semi => exact absurd hu id
      | opn =>
          obtain rfl := kind_opn hkind
          trivial
      | cls =>
          obtain rfl := kind_cls hkind
          obtain ⟨hlast, v, vs, rfl, hv⟩ := hu
          obtain ⟨t', ts'', rfl, hkind', _⟩ := kinds_head hrest
          refine ⟨hlast, t', ts'', rfl, ?_⟩
          rintro rfl
          exact hv (kind_semi hkind')

/-! ## 4. What is read -/

theorem KeepsFrom.comment (h : KeepsFrom r input) (hp : parseToken input = (.comment, value, rest)) :
    KeepsFrom r rest :=
  fun _ left w more htakes => h _ left w more (.comment hp htakes)

theorem KeepsFrom.token (h : KeepsFrom r input) (hp : parseToken input = (type, value, rest))
    (ht : lexeme value type = some t) (hs : r.step t = some r') : KeepsFrom r' rest := by
  intro ts left w more htakes hw hfits
  refine h _ left w more (.token hp ht htakes) hw ?_
  rw [List.cons_append, Reading.read_cons, hs]
  exact hfits

/-- Words are kept if the first token is, and those after it. -/
theorem KeepsFrom.of_token (hp : parseToken input = (type, value, rest))
    (ht : lexeme value type = some t)
    (hfirst : ∀ w, t = .word w → (r.step t).isSome → ∀ more, rest ≠ '\n' :: more)
    (h : ∀ r', r.step t = some r' → KeepsFrom r' rest) : KeepsFrom r input := by
  intro ts left w left' htakes hw hfits
  cases htakes with
  | done =>
      rw [hp] at hw
      cases hw
      cases ht
      refine hfirst _ rfl ?_
      rw [List.nil_append, Reading.read_cons] at hfits
      by_contra hno
      rw [Option.not_isSome_iff_eq_none.mp hno] at hfits
      cases hfits
  | comment hp' =>
      rw [hp] at hp'
      cases hp'
      cases ht
  | token hp' ht' hrest =>
      rw [hp] at hp'
      cases hp'
      rw [ht] at ht'
      cases ht'
      rw [List.cons_append, Reading.read_cons] at hfits
      cases hs : r.step t with
      | none => rw [hs] at hfits; cases hfits
      | some r' =>
          rw [hs] at hfits
          exact h r' hs _ left w left' hrest hw hfits

/-- Where no token comes, no word does. -/
theorem KeepsFrom.of_end (hp : parseToken input = (type, value, rest))
    (htype : type = .eof ∨ type = .error ∨ type = .start) : KeepsFrom r input := by
  intro ts left w left' htakes hw _
  cases htakes with
  | done => rw [hp] at hw; cases hw; rcases htype with h | h | h <;> cases h
  | comment hp' => rw [hp] at hp'; cases hp'; rcases htype with h | h | h <;> cases h
  | token hp' ht => rw [hp] at hp'; cases hp'; rcases htype with rfl | rfl | rfl <;> cases ht

theorem KeepsFrom.of_comment (hp : parseToken input = (.comment, value, rest))
    (h : KeepsFrom r rest) : KeepsFrom r input := by
  intro ts left w left' htakes hw
  cases htakes with
  | done => rw [hp] at hw; cases hw
  | comment hp' hrest =>
      rw [hp] at hp'
      cases hp'
      exact h _ left w left' hrest hw
  | token hp' ht =>
      rw [hp] at hp'
      cases hp'
      cases ht

/-- **What is read with the other line ends**, where words are kept: the same, and not more after it. -/
theorem KeepsFrom.read (hd : Lexed input ts whole) (hq : NoBreakInQuotes input)
    (hk : KeepsFrom r input) (hd' : Lexed (crlf input) us whole') :
    (r.upTo us).1 = (r.upTo ts).1 ∧ kinds (r.upTo us).2 <+: kinds (r.upTo ts).2 ∧
      (r.Completes us whole' ↔ r.Completes ts whole) := by
  have hkinds := crlf_kinds hd hq hd'
  induction hd generalizing r us whole' with
  | eof hp =>
      obtain ⟨rfl, rfl⟩ := hd'.unique (crlf_eof hp)
      exact ⟨rfl, List.prefix_rfl, Iff.rfl⟩
  | bad hp htype =>
      obtain ⟨rfl, rfl⟩ := hd'.unique (crlf_bad hp htype)
      exact ⟨rfl, List.prefix_rfl, Iff.rfl⟩
  | @comment _ _ rest _ _ hp hd ih =>
      obtain ⟨vs, whole'', hrest⟩ := exists_lexed _ (rfl : (crlf rest).length = _)
      obtain ⟨rfl, rfl⟩ := hd'.unique (crlf_comment hp hrest)
      exact ih (hq.comment hp) (hk.comment hp) hrest (crlf_kinds hd (hq.comment hp) hrest)
  | @token input value rest type t ts whole hp ht hd ih =>
      obtain ⟨vs, whole'', hrest⟩ := exists_lexed _ (rfl : (crlf rest).length = _)
      rcases crlf_token hq hp ht hrest with ⟨hd'', _⟩ | ⟨more, rfl, rfl, rfl, hd''⟩
      · obtain ⟨rfl, rfl⟩ := hd'.unique hd''
        cases hs : r.step t with
        | some r1 =>
            rw [upTo_step hs, upTo_step hs, completes_step hs, completes_step hs]
            exact ih (hq.token hp ht) (hk.token hp ht hs) hrest (crlf_kinds hd (hq.token hp ht) hrest)
        | none =>
            rw [upTo_stuck hs, upTo_stuck hs]
            exact ⟨rfl, hkinds, iff_of_false (not_completes_stuck hs _ _) (not_completes_stuck hs _ _)⟩
      · -- the word that is not kept does not fit, and no more does the other
        have hs : r.step (.word value) = none := by
          by_contra hfits
          obtain ⟨r1, hs⟩ := Option.ne_none_iff_exists'.mp hfits
          have hread : r.read ([] ++ [.word value]) = some r1 := by
            rw [List.nil_append, Reading.read_cons, hs]
            rfl
          exact hk [] input value _ .done hp (by rw [hread]; rfl) more rfl
        rw [upTo_stuck hs]
        rcases hd'' with hd'' | hd''
        · obtain ⟨rfl, rfl⟩ := hd'.unique hd''
          have hs' : r.step (.word (value ++ ['\r'])) = none := by
            have hreturns : (r.step (.word (value ++ ['\r']))).isSome = (r.step (.word value)).isSome :=
              Reading.step_returns fun c hc => List.mem_singleton.mp hc
            rw [hs] at hreturns
            exact Option.not_isSome_iff_eq_none.mp (by rw [hreturns]; exact Bool.false_ne_true)
          rw [upTo_stuck hs']
          exact ⟨rfl, hkinds, iff_of_false (not_completes_stuck hs' _ _) (not_completes_stuck hs _ _)⟩
        · obtain ⟨rfl, rfl⟩ := hd'.unique hd''
          exact ⟨rfl, List.nil_prefix, iff_of_false (fun hc => nomatch hc.1) (not_completes_stuck hs _ _)⟩

/-- **A word that is not kept shows**: where the words of the tree are the same, words are kept. -/
theorem KeepsFrom.of_said (hd : Lexed input ts whole) (hq : NoBreakInQuotes input)
    (hd' : Lexed (crlf input) us whole') (htidy : r.Tidy) (hblocks : Chained NotAfterBlock r.last ts)
    (hsaid : (r.upTo ts).1.said = (r.upTo us).1.said) : KeepsFrom r input := by
  have hblocks' : Chained NotAfterBlock r.last us :=
    chained_of_kinds rfl (crlf_kinds hd hq hd') hblocks
  induction hd generalizing r us whole' with
  | eof hp => exact .of_end hp (Or.inl rfl)
  | bad hp htype => exact .of_end hp (Or.inr htype)
  | @comment _ _ rest _ _ hp _ ih =>
      obtain ⟨vs, whole'', hrest⟩ := exists_lexed _ (rfl : (crlf rest).length = _)
      obtain ⟨rfl, rfl⟩ := hd'.unique (crlf_comment hp hrest)
      exact .of_comment hp (ih (hq.comment hp) hrest htidy hblocks hsaid hblocks')
  | @token input value rest type t ts whole hp ht hd ih =>
      have hall := Lexed.token hp ht hd
      obtain ⟨vs, whole'', hrest⟩ := exists_lexed _ (rfl : (crlf rest).length = _)
      rcases crlf_token hq hp ht hrest with ⟨hd'', hnext⟩ | ⟨more, rfl, rfl, rfl, hd''⟩
      · obtain ⟨rfl, rfl⟩ := hd'.unique hd''
        refine .of_token hp ht (fun w hw _ => hnext ?_) fun r1 hs => ?_
        · rw [hw] at ht
          cases type <;> first | rfl | cases ht
        · rw [upTo_step hs, upTo_step hs] at hsaid
          refine ih (hq.token hp ht) hrest
            (htidy.step (fun w hw => hall.word_ne_nil (hw ▸ List.mem_cons_self)) hs) ?_ hsaid ?_
          · rw [Reading.step_last hs]
            exact hblocks.2
          · rw [Reading.step_last hs]
            exact hblocks'.2
      · cases hs : r.step (.word value) with
        | none =>
            refine .of_token hp ht (fun w hw hfits => ?_) fun r1 hs1 => ?_
            · rw [hs] at hfits
              cases hfits
            · rw [hs] at hs1
              cases hs1
        | some r1 =>
            refine absurd hsaid (said_differs htidy hs (fun v => hall.word_ne_nil)
              (fun v => hd'.word_ne_nil) hblocks hblocks' ?_)
            rcases hd'' with hd'' | hd''
            · refine Or.inr ⟨_, vs, (hd'.unique hd'').1, fun heq => ?_⟩
              have hlength := congrArg List.length heq
              simp at hlength
            · exact Or.inl (hd'.unique hd'').1

/-- **With the other line ends** the file comes to the same, if no line feed comes right after a word. -/
theorem KeepsWords.same (hk : KeepsWords input) (hq : NoBreakInQuotes input)
    (hno : ¬ LeavesOpen input) : Same input (crlf input) := by
  obtain ⟨ts, whole, hd⟩ := exists_lexed _ (rfl : input.length = _)
  obtain ⟨us, whole', hd'⟩ := exists_lexed _ (rfl : (crlf input).length = _)
  obtain ⟨hread, hkinds, hcompletes⟩ := KeepsFrom.read hd hq hk hd'
  refine same_of_read hd hd' hno (fun hopen => hno ?_) hread.symm hcompletes.symm
  rw [leavesOpen_iff hd'] at hopen
  rw [leavesOpen_iff hd, ← hread]
  exact undefined_of_kinds hkinds hopen

/-- **Only then**, where no block takes the place of another. -/
theorem keepsWords_of_same (hq : NoBreakInQuotes input) (hb : KeepsBlocks input)
    (hsame : Same input (crlf input)) : KeepsWords input := by
  obtain ⟨ts, whole, hd⟩ := exists_lexed _ (rfl : input.length = _)
  obtain ⟨us, whole', hd'⟩ := exists_lexed _ (rfl : (crlf input).length = _)
  obtain ⟨_, _, hconfig, _⟩ := (same_iff hd hd').mp hsame
  refine KeepsFrom.of_said hd hq hd' Reading.Tidy.start (hb ts whole hd) ?_
  unfold Reading.said
  rw [hconfig]

/-! ## 5. Layouts and line ends -/

/-- **Layout does not matter**, on texts that leave no outcome open, between two layouts of a sequence
    whose tokens are read as they stand in both, if both or none end in a word that is lost; nor do line
    ends, if no line feed comes right after a word that is read. Where no block takes the place of
    another it is only then. -/
theorem layout_iff (items : List Item) (ℓ ℓ' : Layout items) (input : Str) :
    (∀ cut, ℓ.ReadAs cut →
      (¬ LeavesOpen ℓ.text → ¬ LeavesOpen ℓ'.text → ℓ'.ReadAs cut → Same ℓ.text ℓ'.text) ∧
      (KeepsBlocks ℓ.text → KeepsBlocks ℓ'.text →
        (Same ℓ.text ℓ'.text ↔ (¬ LeavesOpen ℓ.text ∧ ¬ LeavesOpen ℓ'.text) ∧ ℓ'.ReadAs cut))) ∧
    (NoBreakInQuotes input →
      (¬ LeavesOpen input → KeepsWords input → Same input (crlf input)) ∧
      (KeepsBlocks input →
        (Same input (crlf input) ↔ ¬ LeavesOpen input ∧ KeepsWords input))) := by
  constructor
  · intro cut h
    refine ⟨fun hno hno' h' => same_of_readAs h h' hno hno', fun hb hb' => ?_⟩
    exact ⟨fun hsame => ⟨hsame.defined, readAs_of_same h hb hb' hsame⟩,
      fun ⟨⟨hno, hno'⟩, h'⟩ => same_of_readAs h h' hno hno'⟩
  · intro hq
    refine ⟨fun hno hk => hk.same hq hno, fun hb => ?_⟩
    exact ⟨fun hsame => ⟨hsame.defined.1, keepsWords_of_same hq hb hsame⟩,
      fun ⟨hno, hk⟩ => hk.same hq hno⟩

theorem plain_a : Plain ['a'] :=
  plain_cons ⟨rfl, by decide, by decide, fun q => by cases q <;> decide⟩ nofun

/-- A word and a `;`. -/
def wordSemi : List Item := [.bare ['a'] plain_a (by decide), .semi]

/-- The two with white space between them. -/
def wordGapSemi (gap : Str) (hgap : Blank gap) : Layout wordSemi where
  lead := []
  written := [(.bare ['a'] plain_a (by decide), gap), (.semi, [])]
  same := rfl
  leadBlank := .nil
  blank p hp := by
    rcases List.mem_cons.mp hp with rfl | hp
    · exact hgap
    · rw [List.mem_singleton.mp hp]
      exact .nil
  apart := .cons_cons (fun _ ⟨w, hw⟩ => by cases hw) (.singleton _)

theorem wordGapSemi_readAs (gap : Str) (hgap : Blank gap) (hr : ∀ g, gap ≠ '\r' :: g) :
    (wordGapSemi gap hgap).ReadAs false :=
  .token rfl (fun _ => ⟨hr, fun _ => List.cons_ne_nil _ _⟩)
    (.token rfl (fun ⟨_, hw⟩ => by cases hw) .done)

/-- Its lexemes are the two. -/
theorem wordGapSemi_lexed (gap : Str) (hgap : Blank gap) (hr : ∀ g, gap ≠ '\r' :: g)
    (hd : Lexed (wordGapSemi gap hgap).text us whole) : us = [.word ['a'], .semi] := by
  have hlexed : Lexed (['a'] ++ (gap ++ [';'])) us whole := by
    simpa [Layout.text, wordGapSemi, writtenText, Item.text] using hd
  have hends : EndsWord .normal (gap ++ [';']) := by
    intro _
    cases gap with
    | nil => exact ⟨';', [], rfl, rfl⟩
    | cons c gap =>
        have hc : c ≠ '\r' := fun h => hr gap (by rw [h])
        exact ⟨c, _, rfl, isDelimiter_of_blank (hgap c List.mem_cons_self) hc⟩
  have hword : parseToken ([] ++ (['a'] ++ (gap ++ [';']))) = (.normal, ['a'], gap ++ [';']) :=
    (Spelled.bare plain_a).token Blank.nil hends
  obtain ⟨us', rfl, hrest⟩ := hlexed.first hword rfl
  have hsemi : Lexed [';'] us' whole := hrest.congr (parseToken_blanks hgap)
  obtain ⟨us'', rfl, hend⟩ := hsemi.first (rfl : parseToken [';'] = (.statementEnd, [';'], [])) rfl
  rw [(hend.unique (.eof (rfl : parseToken [] = (.eof, [], [])))).1]

/-- They open no block. -/
theorem keepsBlocks_wordSemi (h : ∀ {us whole}, Lexed input us whole → us = [.word ['a'], .semi]) :
    KeepsBlocks input := by
  intro us whole hd
  rw [h hd]
  exact ⟨(fun h => by cases h), (fun h => by cases h), trivial⟩

/-- What is left of a line after some of its tokens. -/
theorem takes_line (h : Takes "a;\n".toList ts s) : s ∈ ["a;\n".toList, ";\n".toList, "\n".toList] := by
  have hword : parseToken "a;\n".toList = (.normal, ['a'], ";\n".toList) := rfl
  have hsemi : parseToken ";\n".toList = (.statementEnd, [';'], "\n".toList) := rfl
  have hend : parseToken "\n".toList = (.eof, [], []) := rfl
  cases h with
  | done => simp
  | comment hp => rw [hword] at hp; cases hp
  | token hp ht hrest =>
      rw [hword] at hp
      cases hp
      cases hrest with
      | done => simp
      | comment hp => rw [hsemi] at hp; cases hp
      | token hp ht hrest =>
          rw [hsemi] at hp
          cases hp
          cases hrest with
          | done => simp
          | comment hp => rw [hend] at hp; cases hp
          | token hp ht => rw [hend] at hp; cases hp; cases ht

/-- `layout_iff` for a blank and a line feed, and for the end of a line. -/
theorem layout_blank_line :
    (Same "a ;".toList "a\n;".toList ∧
      (Same "a ;".toList "a\n;".toList ↔
        (¬ LeavesOpen "a ;".toList ∧ ¬ LeavesOpen "a\n;".toList) ∧
          (wordGapSemi ['\n'] (.cons rfl .nil)).ReadAs false)) ∧
    Same "a;\n".toList "a;\r\n".toList ∧
      (Same "a;\n".toList "a;\r\n".toList ↔ ¬ LeavesOpen "a;\n".toList ∧ KeepsWords "a;\n".toList) := by
  have hsafe : ∀ {input}, (∃ valid s, parse input [] ∅ = .ok (valid, s)) → ¬ LeavesOpen input := by
    rintro input ⟨valid, s, hs⟩
    rw [← safe_iff]
    constructor <;> (rw [hs]; exact fun h => by cases h)
  have hblank : ¬ LeavesOpen "a ;".toList := hsafe ⟨true, _, rfl⟩
  have hline : ¬ LeavesOpen "a\n;".toList := hsafe ⟨true, _, rfl⟩
  have hend : ¬ LeavesOpen "a;\n".toList := hsafe ⟨true, _, rfl⟩
  obtain ⟨hlayouts, hlines⟩ := layout_iff wordSemi (wordGapSemi [' '] (.cons rfl .nil))
    (wordGapSemi ['\n'] (.cons rfl .nil)) "a;\n".toList
  obtain ⟨hsame, hiff⟩ := hlayouts false (wordGapSemi_readAs [' '] (.cons rfl .nil) (by simp))
  have hquotes : NoBreakInQuotes "a;\n".toList := by
    rintro q src w ⟨ts, s, rest, htakes, _, _⟩
    have hleft := takes_line htakes
    have hquote : q.char ∈ s ++ (q.char :: (src ++ [q.char]) ++ rest) := by simp
    simp only [List.mem_cons, List.not_mem_nil, or_false] at hleft
    rcases hleft with heq | heq | heq
    all_goals
      rw [heq] at hquote
      refine absurd hquote ?_
      cases q <;> decide
  have hwords : KeepsWords "a;\n".toList := by
    intro ts left w rest htakes hp _ more hmore
    have hleft := takes_line htakes
    simp only [List.mem_cons, List.not_mem_nil, or_false] at hleft
    rcases hleft with rfl | rfl | rfl <;> cases hp
    cases hmore
  refine ⟨⟨hsame hblank hline (wordGapSemi_readAs ['\n'] (.cons rfl .nil) (by simp)), hiff ?_ ?_⟩,
    (hlines hquotes).1 hend hwords, (hlines hquotes).2 ?_⟩
  · exact keepsBlocks_wordSemi (wordGapSemi_lexed [' '] (.cons rfl .nil) (by simp))
  · exact keepsBlocks_wordSemi (wordGapSemi_lexed ['\n'] (.cons rfl .nil) (by simp))
  · have hlexed : Lexed "a;\n".toList [.word ['a'], .semi] true :=
      .token rfl rfl (.token rfl rfl (.eof rfl))
    exact keepsBlocks_wordSemi fun hd => (hd.unique hlexed).1

/-- **CRLF instead of LF** changes the word before it. -/
theorem crlf_changes_word :
    (wordGapSemi "\n".toList (.cons rfl .nil)).text = "a\n;".toList ∧
    (wordGapSemi "\r\n".toList (.cons rfl (.cons rfl .nil))).text = "a\r\n;".toList ∧
    ¬ Same "a\n;".toList "a\r\n;".toList := by
  refine ⟨rfl, rfl, fun ⟨valid, s, s', hs, hs', hsame, _⟩ => ?_⟩
  have hline : ∃ s, parse "a\n;".toList [] ∅ = .ok (true, s) ∧ s.config = [.mk ["a".toList] none] :=
    ⟨_, rfl, rfl⟩
  have hreturn : ∃ s, parse "a\r\n;".toList [] ∅ = .ok (true, s) ∧
      s.config = [.mk ["a\r".toList] none] := ⟨_, rfl, rfl⟩
  obtain ⟨o, ho, hconfig⟩ := hline
  obtain ⟨o', ho', hconfig'⟩ := hreturn
  rw [hs] at ho
  rw [hs'] at ho'
  cases ho
  cases ho'
  rw [hconfig, hconfig'] at hsame
  have htokens := congrArg (List.map tokensOf) hsame
  revert htokens
  decide

end

end Googolplex.Config
