/-
  File:      Googolplex/Config/Layout.lean
  Subject:   WHETHER IT MATTERS HOW A CONFIG IS LAID OUT.

  White space before a token is one list of characters, what ends a word is
  another, and the carriage return is only in the first.

  * `Layout`: a sequence of tokens, written down with white space.
  * `ReadAs`: up to the first token that does not fit, no carriage return is in
    the way; `ReadAs.read`: what is read then is a matter of the tokens alone.
  * `ReadAs.of_said`: a carriage return that is in the way shows in the tree.
-/
import Googolplex.Config.Outcome
import Googolplex.Config.Tokens

namespace Googolplex.Config

open Cxx Blocks

/-! ## 1. Layouts -/

/-- A token of a config: a word without white space, a word between quotes, or a delimiter. -/
inductive Item where
  | bare (w : Str) (plain : Plain w) (noReturn : '\r' ∉ w)
  | quoted (q : Quote) (src value : Str) (escaped : Escaped q src value)
  | semi
  | opn
  | cls

def Item.text : Item → Str
  | .bare w _ _ => w
  | .quoted q src _ _ => q.char :: (src ++ [q.char])
  | .semi => [';']
  | .opn => ['{']
  | .cls => ['}']

def Item.lexeme : Item → Lexeme Str
  | .bare w _ _ => .word w
  | .quoted q _ value _ => .word (q.char :: (value ++ [q.char]))
  | .semi => .semi
  | .opn => .opn
  | .cls => .cls

def Item.IsWord (i : Item) : Prop := ∃ w, i.lexeme = .word w

/-- Tokens, each with the white space after it. -/
def writtenText : List (Item × Str) → Str
  | [] => []
  | p :: ps => p.1.text ++ (p.2 ++ writtenText ps)

/-- **A sequence of tokens, written down**: white space before each and after the last, and some of it
    between two words. -/
structure Layout (items : List Item) where
  lead : Str
  written : List (Item × Str)
  same : written.map Prod.fst = items
  leadBlank : Blank lead
  blank : ∀ p ∈ written, Blank p.2
  apart : written.IsChain fun p p' => p.1.IsWord → p'.1.IsWord → p.2 ≠ []

variable {items : List Item}

def Layout.text (ℓ : Layout items) : Str := ℓ.lead ++ writtenText ℓ.written

/-- **A word that comes to the end of the file** with the white space after it: a bare one together
    with carriage returns, a quoted one right after its quote, or before a carriage return. -/
def Item.Lost : Item → Str → Prop
  | .bare .., g => ∀ c ∈ g, c = '\r'
  | .quoted .., g => ∀ c, g.head? = some c → c = '\r'
  | _, _ => False

/-- **The tokens are read as they stand**, from a reading on and up to the first that does not fit:
    right after a word that fits comes no carriage return, nor the end of the text; and a word that
    does not fit is not made one that does by what it runs into. With `cut`, the text ends in a word
    that fits, and it is lost. -/
inductive ReadAs : Reading → List (Item × Str) → Bool → Prop
  | done {r : Reading} : ReadAs r [] false
  | token {r r' : Reading} {i : Item} {g : Str} {ps : List (Item × Str)} {cut : Bool}
      (hs : r.step i.lexeme = some r')
      (hafter : i.IsWord → (∀ h, g ≠ '\r' :: h) ∧ (g = [] → ps ≠ [])) (hrest : ReadAs r' ps cut) :
      ReadAs r ((i, g) :: ps) cut
  | lost {r r' : Reading} {i : Item} {g : Str} (hi : i.IsWord) (hs : r.step i.lexeme = some r')
      (hg : i.Lost g) : ReadAs r [(i, g)] true
  | stuck {r : Reading} {i : Item} {g : Str} {ps : List (Item × Str)}
      (hs : r.step i.lexeme = none)
      (hruns : ∀ w rest, parseToken (writtenText ((i, g) :: ps)) = (.normal, w, rest) →
        r.step (.word w) = none) : ReadAs r ((i, g) :: ps) false

/-- The tokens of a layout are read as they stand. -/
def Layout.ReadAs (ℓ : Layout items) (cut : Bool) : Prop :=
  Config.ReadAs Reading.start ℓ.written cut

section

variable {i : Item} {w g more tail : Str} {ps ps' : List (Item × Str)} {ts us us' : List (Lexeme Str)}
  {whole whole' cut : Bool} {r r' : Reading}

/-! ## 2. One token -/

/-- How a token is written, and what it is. -/
theorem Item.spelled (i : Item) :
    ∃ type value, Spelled type i.text value ∧ Config.lexeme value type = some i.lexeme ∧
      (type = .normal → i.IsWord) := by
  cases i with
  | bare w plain => exact ⟨_, _, .bare plain, rfl, fun _ => ⟨w, rfl⟩⟩
  | quoted q src value h => exact ⟨_, _, .quoted h, rfl, fun _ => ⟨_, rfl⟩⟩
  | semi => exact ⟨_, _, .semi, rfl, nofun⟩
  | opn => exact ⟨_, _, .opn, rfl, nofun⟩
  | cls => exact ⟨_, _, .cls, rfl, nofun⟩

/-- What is no word ends the word before it. -/
theorem Item.text_delimiter (h : ¬ i.IsWord) :
    ∃ c more, i.text = c :: more ∧ isDelimiter c = true := by
  cases i with
  | bare w | quoted q src value => exact absurd ⟨_, rfl⟩ h
  | semi => exact ⟨';', [], rfl, by decide⟩
  | opn => exact ⟨'{', [], rfl, by decide⟩
  | cls => exact ⟨'}', [], rfl, by decide⟩

/-- A blank that is no carriage return ends a word. -/
theorem isDelimiter_of_blank {c : Char} (hb : isBlank c = true) (hr : c ≠ '\r') :
    isDelimiter c = true := by
  rcases isBlank_iff.mp hb with rfl | rfl | rfl | rfl
  · rfl
  · rfl
  · rfl
  · exact absurd rfl hr

/-- What is taken as a word is followed by what ends it. -/
theorem word_rest {w more rest : Str} (hi : i.lexeme = .word w)
    (hp : parseToken (i.text ++ more) = (.normal, w, rest)) : rest = more ∧ EndsWord .normal more := by
  cases i with
  | semi | opn | cls => cases hi
  | bare w plain =>
      cases hi
      obtain ⟨c, tail, rfl, hc, hinside⟩ := plain.begins
      have hscan : scan .normal [c] (tail ++ more) = (.normal, c :: tail, rest) := by
        rw [← parseToken_begins hc]
        exact hp
      rcases scan_normal_sound hscan with ⟨_, hend, v, _, hin, hval⟩ | ⟨ht, _⟩
      · have htail : tail = v := (List.cons.inj hval).2
        subst htail
        obtain rfl : more = rest := List.append_cancel_left hin
        exact ⟨rfl, hend⟩
      · cases ht
  | quoted q src value h =>
      have hsplit : q.char :: (src ++ [q.char]) ++ more = q.char :: (src ++ q.char :: more) := by simp
      have hscan : scan (.quote q) ([q.char] ++ value) (q.char :: more) = (.normal, w, rest) := by
        rw [← h.scan, ← parseToken_quote, ← hsplit]
        exact hp
      cases more with
      | nil =>
          rw [scan_quote_end] at hscan
          cases hscan
      | cons c more =>
          rw [scan_quote_close] at hscan
          by_cases hc : isDelimiter c = true
          · rw [if_pos hc] at hscan
            cases hscan
            exact ⟨rfl, fun _ => ⟨c, more, rfl, hc⟩⟩
          · rw [if_neg hc] at hscan
            cases hscan

theorem Lexed.congr {input input' : Str} (hd : Lexed input ts whole)
    (heq : parseToken input = parseToken input') : Lexed input' ts whole := by
  cases hd with
  | eof h => exact .eof (heq.symm.trans h)
  | bad h htype => exact .bad (heq.symm.trans h) htype
  | comment h hrest => exact .comment (heq.symm.trans h) hrest
  | token h ht hrest => exact .token (heq.symm.trans h) ht hrest

/-- The first lexeme of a file that begins with it. -/
theorem Lexed.first {input value rest : Str} {type : TokenType} {t : Lexeme Str}
    (hd : Lexed input us whole) (hp : parseToken input = (type, value, rest))
    (ht : lexeme value type = some t) : ∃ us', us = t :: us' ∧ Lexed rest us' whole := by
  obtain ⟨us', whole', hrest⟩ := exists_lexed _ (rfl : rest.length = _)
  obtain ⟨rfl, rfl⟩ := hd.unique (.token hp ht hrest)
  exact ⟨us', rfl, hrest⟩

/-- A token that what comes after it ends. -/
theorem lexed_item (hend : i.IsWord → EndsWord .normal more) (hd : Lexed (i.text ++ more) us whole) :
    ∃ us', us = i.lexeme :: us' ∧ Lexed more us' whole := by
  obtain ⟨type, value, hspelled, ht, hword⟩ := i.spelled
  have htoken : parseToken ([] ++ (i.text ++ more)) = (type, value, more) :=
    hspelled.token Blank.nil fun htype => hend (hword htype) rfl
  exact hd.first htoken ht

/-- A word, and anything: it is a word, or the end of the file or an error. -/
theorem word_type (hi : i.IsWord) {type : TokenType} {value rest : Str}
    (hp : parseToken (i.text ++ more) = (type, value, rest)) :
    type = .normal ∨ type = .eof ∨ type = .error := by
  cases i with
  | semi | opn | cls =>
      obtain ⟨w, hw⟩ := hi
      cases hw
  | bare w plain =>
      obtain ⟨c, tail, rfl, hc, _⟩ := plain.begins
      have hscan : scan .normal [c] (tail ++ more) = (type, value, rest) := by
        rw [← parseToken_begins hc]
        exact hp
      rcases scan_normal_sound hscan with ⟨ht, _⟩ | ⟨ht, _⟩
      · exact Or.inl ht
      · exact Or.inr (Or.inl ht)
  | quoted q src v h =>
      have hscan : scan (.quote q) [q.char] (src ++ [q.char] ++ more) = (type, value, rest) := by
        rw [← parseToken_quote]
        exact hp
      rcases scan_quote_sound hscan with ht | ⟨ht, _⟩
      · exact Or.inr (Or.inr ht)
      · exact Or.inl ht

/-- **A word that what comes after it does not end**: nothing more is lexed, or another word. -/
theorem lexed_stray (hw : i.lexeme = .word w) (hno : ¬ EndsWord .normal more)
    (hd : Lexed (i.text ++ more) us whole) :
    us = [] ∨ ∃ v us' rest, us = .word v :: us' ∧ v ≠ w ∧
      parseToken (i.text ++ more) = (.normal, v, rest) := by
  obtain ⟨type, value, rest, hp⟩ : ∃ type value rest,
      parseToken (i.text ++ more) = (type, value, rest) := ⟨_, _, _, rfl⟩
  rcases word_type ⟨w, hw⟩ hp with rfl | rfl | rfl
  · obtain ⟨us', rfl, _⟩ := hd.first hp rfl
    refine Or.inr ⟨value, us', rest, rfl, ?_, hp⟩
    rintro rfl
    exact hno (word_rest hw hp).2
  · exact Or.inl (hd.unique (.eof hp)).1
  · exact Or.inl (hd.unique (.bad hp (Or.inl rfl))).1

/-- Whether a word at the end of the file is lost and no more. -/
def Item.isBare : Item → Bool
  | .bare .. => true
  | _ => false

/-- Carriage returns are no delimiters: a word takes them in. -/
theorem Plain.returns (h : Plain w) (hg : ∀ c ∈ g, c = '\r') : Plain (w ++ g) := by
  obtain ⟨c, tail, rfl, hc, htail⟩ := h.begins
  rw [List.cons_append]
  refine plain_cons hc fun x hx => ?_
  rcases List.mem_append.mp hx with hx | hx
  · exact htail x hx
  · rw [hg x hx]
    rfl

/-- **A word at the end of the file**: it is lost, or an error. -/
theorem lexed_lost (hg : i.Lost g) : Lexed (i.text ++ g) [] i.isBare := by
  cases i with
  | bare w plain =>
      obtain ⟨value, h⟩ := AtEnd.eof (AtEnd.word (plain.returns hg)) Blank.nil
      exact .eof h
  | quoted q src value h =>
      have hsplit : q.char :: (src ++ [q.char]) ++ g = q.char :: (src ++ q.char :: g) := by simp
      have herror : (parseToken (q.char :: (src ++ [q.char]) ++ g)).1 = .error := by
        rw [hsplit, parseToken_quote, h.scan]
        cases g with
        | nil => rw [scan_quote_end]
        | cons c g =>
            obtain rfl : c = '\r' := hg c rfl
            rw [scan_quote_close]
            rfl
      exact .bad (Prod.eta _).symm (Or.inl herror)
  | semi | opn | cls => exact absurd hg id

/-! ## 3. What is read -/

/-- A word does not fit only after a word. -/
theorem Reading.stuck_word (hs : r.step (.word w) = none) : ∃ v, r.last = some (.word v) := by
  by_contra hno
  rw [Reading.step_first fun v hv => hno ⟨v, hv⟩] at hs
  cases hs

/-- There nothing is finished. -/
theorem Reading.stuck_unfinished (hs : r.step (.word w) = none) : ¬ r.Finished := by
  obtain ⟨v, hv⟩ := Reading.stuck_word hs
  intro ⟨hlast, _⟩
  rw [hv] at hlast
  rcases hlast with hlast | hlast <;> cases hlast

/-- What comes right after a word that is read as it stands ends it. -/
theorem ends_of_after (hblank : Blank g)
    (hapart : ((i, g) :: ps).IsChain fun p p' => p.1.IsWord → p'.1.IsWord → p.2 ≠ [])
    (hafter : i.IsWord → (∀ h, g ≠ '\r' :: h) ∧ (g = [] → ps ≠ [])) (hi : i.IsWord) :
    EndsWord .normal (g ++ writtenText ps) := by
  intro _
  obtain ⟨hreturn, hend⟩ := hafter hi
  cases g with
  | cons c g =>
      have hr : c ≠ '\r' := fun h => hreturn g (by rw [h])
      exact ⟨c, _, rfl, isDelimiter_of_blank (hblank c List.mem_cons_self) hr⟩
  | nil =>
      cases ps with
      | nil => exact absurd rfl (hend rfl)
      | cons p ps =>
          have hnext : ¬ p.1.IsWord := fun h => (List.isChain_cons_cons.mp hapart).1 hi h rfl
          obtain ⟨c, more, htext, hc⟩ := Item.text_delimiter hnext
          exact ⟨c, more ++ (p.2 ++ writtenText ps), by simp [writtenText, htext], hc⟩

/-- The lexemes of the tokens, the last one left out if it is cut off. -/
def rightful (items : List Item) (cut : Bool) : List (Lexeme Str) :=
  if cut then items.dropLast.map Item.lexeme else items.map Item.lexeme

/-- Whether that is the end of the file, and no error. -/
def endsWhole (items : List Item) (cut : Bool) : Bool :=
  if cut then items.getLast?.all Item.isBare else true

theorem ReadAs.nonempty (h : ReadAs r ps true) : ps ≠ [] := by
  cases h <;> exact List.cons_ne_nil _ _

/-- **What is read of tokens that are read as they stand** is a matter of the tokens alone. -/
theorem ReadAs.read (h : ReadAs r ps cut) (hblank : ∀ p ∈ ps, Blank p.2)
    (hapart : ps.IsChain fun p p' => p.1.IsWord → p'.1.IsWord → p.2 ≠ [])
    (hd : Lexed (writtenText ps) us whole) :
    (r.upTo us).1 = (r.upTo (rightful (ps.map Prod.fst) cut)).1 ∧
      (r.Completes us whole ↔
        r.Completes (rightful (ps.map Prod.fst) cut) (endsWhole (ps.map Prod.fst) cut)) := by
  induction h generalizing us with
  | done =>
      obtain ⟨rfl, rfl⟩ := hd.unique (.eof (rfl : parseToken [] = (.eof, [], [])))
      exact ⟨rfl, Iff.rfl⟩
  | @token r r' i g ps cut hs hafter hrest ih =>
      have hgap : Blank g := hblank (i, g) List.mem_cons_self
      obtain ⟨us', rfl, hd'⟩ := lexed_item (ends_of_after hgap hapart hafter) hd
      obtain ⟨hread, hcompletes⟩ := ih (fun p hp => hblank p (List.mem_cons_of_mem _ hp)) hapart.tail
        (hd'.congr (parseToken_blanks hgap))
      -- the first token is not the one that is cut off
      have hcons : rightful (((i, g) :: ps).map Prod.fst) cut =
          i.lexeme :: rightful (ps.map Prod.fst) cut ∧
          endsWhole (((i, g) :: ps).map Prod.fst) cut = endsWhole (ps.map Prod.fst) cut := by
        cases cut with
        | false => exact ⟨rfl, rfl⟩
        | true =>
            obtain ⟨p, ps', rfl⟩ := List.exists_cons_of_ne_nil hrest.nonempty
            exact ⟨rfl, rfl⟩
      rw [hcons.1, hcons.2, upTo_step hs, upTo_step hs, completes_step hs, completes_step hs]
      exact ⟨hread, hcompletes⟩
  | @lost r r' i g hi hs hg =>
      have htext : writtenText [(i, g)] = i.text ++ g := by simp [writtenText]
      rw [htext] at hd
      obtain ⟨rfl, rfl⟩ := hd.unique (lexed_lost hg)
      exact ⟨rfl, Iff.rfl⟩
  | @stuck r i g ps hs hruns =>
      have hideal : rightful (((i, g) :: ps).map Prod.fst) false =
          i.lexeme :: (ps.map Prod.fst).map Item.lexeme := rfl
      rw [hideal, upTo_stuck hs]
      have hnot := not_completes_stuck hs ((ps.map Prod.fst).map Item.lexeme)
        (endsWhole (((i, g) :: ps).map Prod.fst) false)
      by_cases hend : i.IsWord → EndsWord .normal (g ++ writtenText ps)
      · obtain ⟨us', rfl, _⟩ := lexed_item hend hd
        rw [upTo_stuck hs]
        exact ⟨rfl, iff_of_false (not_completes_stuck hs _ _) hnot⟩
      · obtain ⟨⟨w, hw⟩, hno⟩ := Classical.not_imp.mp hend
        rcases lexed_stray hw hno hd with rfl | ⟨v, us', rest, rfl, _, hp⟩
        · refine ⟨rfl, iff_of_false (fun hc => ?_) hnot⟩
          rw [hw] at hs
          exact Reading.stuck_unfinished hs hc.2.2
        · have hstuck := hruns v rest hp
          rw [upTo_stuck hstuck]
          exact ⟨rfl, iff_of_false (not_completes_stuck hstuck _ _) hnot⟩

/-! ## 4. Carriage returns show -/

/-- A port may be followed by carriage returns, and nothing else becomes one by them. -/
theorem portOk_returns {v : Str} (hg : ∀ c ∈ g, c = '\r') : PortOk v (w ++ g) ↔ PortOk v w := by
  have hstoi : stoi (w ++ g) = stoi w := stoi_append_blanks fun c hc => by rw [hg c hc]; rfl
  unfold PortOk safeportSTOI
  rw [hstoi]

/-- A word fits with carriage returns after it if it does without. -/
theorem Reading.step_returns (hg : ∀ c ∈ g, c = '\r') :
    (r.step (.word (w ++ g))).isSome = (r.step (.word w)).isSome := by
  by_cases hlast : ∃ v, r.last = some (.word v)
  · obtain ⟨v, hv⟩ := hlast
    rw [Reading.step_further hv, Reading.step_further hv]
    by_cases hport : PortOk v w
    · rw [if_pos hport, if_pos ((portOk_returns hg).mpr hport)]
      rfl
    · rw [if_neg hport, if_neg fun h => hport ((portOk_returns hg).mp h)]
  · rw [Reading.step_first fun v hv => hlast ⟨v, hv⟩, Reading.step_first fun v hv => hlast ⟨v, hv⟩]
    rfl

/-- What does not end a word: a carriage return, or the end of the text. -/
theorem not_ends (hafter : ¬ ((∀ h, g ≠ '\r' :: h) ∧ (g = [] → ps ≠ []))) :
    ¬ EndsWord .normal (g ++ writtenText ps) := by
  intro hends
  obtain ⟨c, more, htext, hc⟩ := hends rfl
  refine hafter ⟨?_, ?_⟩
  · rintro h rfl
    cases htext
    cases hc
  · rintro rfl rfl
    cases htext

/-- Either the white space after a last word is lost with it, or a word is read. -/
theorem lost_or_read (hi : i.IsWord) (hblank : Blank g) (hs : r.step i.lexeme = some r')
    (hd : Lexed (i.text ++ g) us whole) :
    i.Lost g ∨ ∃ v us', us = .word v :: us' ∧ (r.step (.word v)).isSome := by
  obtain ⟨returns, rest, rfl, hreturns, hrest⟩ : ∃ returns rest, g = returns ++ rest ∧
      (∀ c ∈ returns, c = '\r') ∧ ∀ c, rest.head? = some c → c ≠ '\r' := by
    refine ⟨g.takeWhile (· = '\r'), g.dropWhile (· = '\r'), (List.takeWhile_append_dropWhile).symm,
      fun c hc => ?_, fun c hc => ?_⟩
    · simpa using List.mem_takeWhile_imp hc
    · have hnot := List.head?_dropWhile_not (· = '\r') g
      rw [hc] at hnot
      simpa using hnot
  cases rest with
  | nil =>
      left
      rw [List.append_nil]
      cases i with
      | bare => exact hreturns
      | quoted => exact fun c hc => hreturns c (List.mem_of_mem_head? hc)
      | semi | opn | cls =>
          obtain ⟨w, hw⟩ := hi
          cases hw
  | cons c rest =>
      have hc : isDelimiter c = true :=
        isDelimiter_of_blank (hblank c (by simp)) (hrest c rfl)
      cases i with
      | semi | opn | cls =>
          obtain ⟨w, hw⟩ := hi
          cases hw
      | bare w plain =>
          right
          have htoken : parseToken ([] ++ ((w ++ returns) ++ c :: rest)) =
              (.normal, w ++ returns, c :: rest) :=
            (Spelled.bare (plain.returns hreturns)).token Blank.nil fun _ => ⟨c, rest, rfl, hc⟩
          have hd' : Lexed ((w ++ returns) ++ c :: rest) us whole := by
            rw [List.append_assoc]
            exact hd
          obtain ⟨us', rfl, _⟩ := hd'.first htoken rfl
          exact ⟨_, us', rfl, by rw [Reading.step_returns hreturns, show r.step (.word w) = _ from hs]; rfl⟩
      | quoted q src value h =>
          cases returns with
          | cons x returns =>
              left
              intro y hy
              cases hy
              exact hreturns x List.mem_cons_self
          | nil =>
              right
              obtain ⟨us', rfl, _⟩ := lexed_item (fun _ _ => ⟨c, rest, rfl, hc⟩) hd
              exact ⟨_, us', rfl, by rw [show r.step (.word _) = some r' from hs]; rfl⟩

/-- **Where the words of the tree are the same**, the tokens are read as they stand in both layouts. -/
theorem ReadAs.of_said (h : ReadAs r ps cut) (hsame : ps.map Prod.fst = ps'.map Prod.fst)
    (hblank : ∀ p ∈ ps, Blank p.2) (hblank' : ∀ p ∈ ps', Blank p.2)
    (hapart : ps.IsChain fun p p' => p.1.IsWord → p'.1.IsWord → p.2 ≠ [])
    (hapart' : ps'.IsChain fun p p' => p.1.IsWord → p'.1.IsWord → p.2 ≠ [])
    (hd : Lexed (writtenText ps) us whole) (hd' : Lexed (writtenText ps') us' whole')
    (htidy : r.Tidy) (hblocks : Chained NotAfterBlock r.last us)
    (hblocks' : Chained NotAfterBlock r.last us')
    (hsaid : (r.upTo us).1.said = (r.upTo us').1.said) : ReadAs r ps' cut := by
  induction h generalizing ps' us us' with
  | done =>
      obtain rfl : ps' = [] := List.map_eq_nil_iff.mp hsame.symm
      exact .done
  | @token r r' i g ps cut hs hafter hrest ih =>
      obtain _ | ⟨⟨j, g'⟩, ps'⟩ := ps'
      · cases hsame
      obtain ⟨rfl, htail⟩ := List.cons.inj hsame
      have hgap : Blank g := hblank (i, g) List.mem_cons_self
      have hgap' : Blank g' := hblank' (i, g') List.mem_cons_self
      obtain ⟨us, rfl, hd1⟩ := lexed_item (ends_of_after hgap hapart hafter) hd
      by_cases hafter' : i.IsWord → (∀ h, g' ≠ '\r' :: h) ∧ (g' = [] → ps' ≠ [])
      · obtain ⟨us', rfl, hd1'⟩ := lexed_item (ends_of_after hgap' hapart' hafter') hd'
        rw [upTo_step hs, upTo_step hs] at hsaid
        refine .token hs hafter' (ih htail (fun p hp => hblank p (List.mem_cons_of_mem _ hp))
          (fun p hp => hblank' p (List.mem_cons_of_mem _ hp)) hapart.tail hapart'.tail
          (hd1.congr (parseToken_blanks hgap)) (hd1'.congr (parseToken_blanks hgap'))
          (htidy.step (fun w hw => hd.word_ne_nil (hw ▸ List.mem_cons_self)) hs) ?_ ?_ hsaid)
        · rw [Reading.step_last hs]
          exact hblocks.2
        · rw [Reading.step_last hs]
          exact hblocks'.2
      · obtain ⟨⟨w, hw⟩, hno⟩ := Classical.not_imp.mp hafter'
        rw [hw] at hs hd hblocks hsaid
        refine absurd hsaid (said_differs htidy hs (fun v => hd.word_ne_nil) (fun v => hd'.word_ne_nil)
          hblocks hblocks' ?_)
        rcases lexed_stray hw (not_ends hno) hd' with hnone | ⟨v, vs, _, hother, hne, _⟩
        · exact Or.inl hnone
        · exact Or.inr ⟨v, vs, hother, hne⟩
  | @lost r r' i g hi hs hg =>
      obtain _ | ⟨⟨j, g'⟩, ps'⟩ := ps'
      · cases hsame
      obtain ⟨rfl, hnil⟩ := List.cons.inj hsame
      obtain rfl : ps' = [] := List.map_eq_nil_iff.mp hnil.symm
      have htext : ∀ g, writtenText [(i, g)] = i.text ++ g := fun g => by simp [writtenText]
      rw [htext] at hd hd'
      obtain ⟨rfl, rfl⟩ := hd.unique (lexed_lost hg)
      rcases lost_or_read hi (hblank' (i, g') List.mem_cons_self) hs hd' with hg' | ⟨v, vs, rfl, hv⟩
      · exact .lost hi hs hg'
      · -- a word that is read shows in the tree
        obtain ⟨r1, hv⟩ := Option.isSome_iff_exists.mp hv
        have hmore := said_word htidy (fun v => hd'.word_ne_nil) hblocks' hv
        rw [← hsaid] at hmore
        have hlength := hmore.length_le
        simp [Reading.upTo] at hlength
  | @stuck r i g ps hs hruns =>
      obtain _ | ⟨⟨j, g'⟩, ps'⟩ := ps'
      · cases hsame
      obtain ⟨rfl, _⟩ := List.cons.inj hsame
      have hread := ((ReadAs.stuck hs hruns).read hblank hapart hd).1
      have hideal : rightful (((i, g) :: ps).map Prod.fst) false =
          i.lexeme :: (ps.map Prod.fst).map Item.lexeme := rfl
      rw [hideal, upTo_stuck hs] at hread
      refine .stuck hs fun w rest hp => ?_
      cases hw : r.step (.word w) with
      | none => rfl
      | some r1 =>
          obtain ⟨us', rfl, _⟩ := hd'.first hp rfl
          have hmore := said_word htidy (fun v => hd'.word_ne_nil) hblocks' hw
          rw [← hsaid, hread] at hmore
          have hlength := hmore.length_le
          simp at hlength

/-! ## 5. Two layouts -/

theorem Layout.lexed (ℓ : Layout items) (hd : Lexed ℓ.text us whole) :
    Lexed (writtenText ℓ.written) us whole := hd.congr (parseToken_blanks ℓ.leadBlank)

/-- **Two layouts that are read as they stand** come to the same, if both end in a word that is lost
    or none does. -/
theorem same_of_readAs {ℓ ℓ' : Layout items} (h : ℓ.ReadAs cut) (h' : ℓ'.ReadAs cut)
    (hno : ¬ LeavesOpen ℓ.text) (hno' : ¬ LeavesOpen ℓ'.text) : Same ℓ.text ℓ'.text := by
  obtain ⟨us, whole, hd⟩ := exists_lexed _ (rfl : ℓ.text.length = _)
  obtain ⟨us', whole', hd'⟩ := exists_lexed _ (rfl : ℓ'.text.length = _)
  obtain ⟨hread, hcompletes⟩ := h.read ℓ.blank ℓ.apart (ℓ.lexed hd)
  obtain ⟨hread', hcompletes'⟩ := h'.read ℓ'.blank ℓ'.apart (ℓ'.lexed hd')
  rw [ℓ.same] at hread hcompletes
  rw [ℓ'.same] at hread' hcompletes'
  exact same_of_read hd hd' hno hno' (hread.trans hread'.symm) (hcompletes.trans hcompletes'.symm)

/-- No block is opened in the place of another. -/
def KeepsBlocks (input : Str) : Prop :=
  ∀ ts whole, Lexed input ts whole → Chained NotAfterBlock none ts

/-- **Only then**, where no block takes the place of another. -/
theorem readAs_of_same {ℓ ℓ' : Layout items} (h : ℓ.ReadAs cut) (hb : KeepsBlocks ℓ.text)
    (hb' : KeepsBlocks ℓ'.text) (hsame : Same ℓ.text ℓ'.text) : ℓ'.ReadAs cut := by
  obtain ⟨us, whole, hd⟩ := exists_lexed _ (rfl : ℓ.text.length = _)
  obtain ⟨us', whole', hd'⟩ := exists_lexed _ (rfl : ℓ'.text.length = _)
  obtain ⟨_, _, hconfig, _⟩ := (same_iff hd hd').mp hsame
  refine ReadAs.of_said h (ℓ.same.trans ℓ'.same.symm) ℓ.blank ℓ'.blank ℓ.apart ℓ'.apart (ℓ.lexed hd)
    (ℓ'.lexed hd') Reading.Tidy.start (hb us whole hd) (hb' us' whole' hd') ?_
  unfold Reading.said
  rw [hconfig]

end

end Googolplex.Config
