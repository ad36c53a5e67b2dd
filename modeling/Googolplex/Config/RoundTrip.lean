/-
  File:      Googolplex/Config/RoundTrip.lean
  Subject:   PARSING UNDOES PRINTING (`NginxConfig::ToString`, then `Parse`).

  The text `ToString` writes is lexed token by token (`delivers_toString`, over
  any indentation and whatever follows), and the text of a tree is read back to
  the tree (`read_lexemesOf`).

  * `parse_toString`: for every config of plain and quoted words with ports
    after `listen`.
-/
import Googolplex.Config.AddressMap

namespace Googolplex.Config

open Cxx Blocks

/-! ## 1. Printing -/

/-- Two blanks for each level. -/
def indent (depth : Nat) : Str := (List.replicate depth "  ".toList).flatten

/-- The tokens with a blank between them. -/
def joinTokens : List Str → Str
  | [] => []
  | [token] => token
  | token :: tokens => token ++ ' ' :: joinTokens tokens

mutual

/-- `NginxConfigStatement::ToString`. -/
def NginxConfigStatement.toString (depth : Nat) : NginxConfigStatement → Str
  | .mk tokens none => indent depth ++ joinTokens tokens ++ ";".toList ++ "\n".toList
  | .mk tokens (some block) =>
    indent depth ++ joinTokens tokens ++ " \x7b\n".toList ++ NginxConfig.toString (depth + 1) block ++
      indent depth ++ "\x7d".toList ++ "\n".toList

/-- `NginxConfig::ToString`. -/
def NginxConfig.toString (depth : Nat) : NginxConfig → Str
  | [] => []
  | s :: ss => NginxConfigStatement.toString depth s ++ NginxConfig.toString depth ss

end

/-- A plain word: no delimiter in it, and no carriage return, `#` or quote at its front. -/
structure Plain (w : Str) : Prop where
  nonempty : w ≠ []
  inside : ∀ c ∈ w, isDelimiter c = false
  front : ∀ c, w.head? = some c → c ≠ '\r' ∧ c ≠ '#' ∧ ∀ q : Quote, c ≠ q.char

/-- A quoted word: the same quote around characters that are neither the quote nor a backslash. -/
def Quoted (w : Str) : Prop :=
  ∃ (q : Quote) (s : Str), w = q.char :: (s ++ [q.char]) ∧ q.char ∉ s ∧ '\\' ∉ s

/-- What a statement must hold to be read back. -/
def Printable (tokens : List Str) : Prop :=
  Worded tokens ∧ ∀ w ∈ tokens, Plain w ∨ Quoted w

/-! ## 2. Lexing what was printed -/

section Lexing

variable {input rest : Str} {ts : List (Lexeme Str)} {c : Char} {w : Str}

theorem Delivers.blank (hc : c = ' ' ∨ c = '\n') (h : Delivers input ts) :
    Delivers (c :: input) ts :=
  h.congr (parseToken_blank_cons (by rcases hc with rfl | rfl <;> rfl)).symm

theorem Delivers.indent (depth : Nat) (h : Delivers input ts) :
    Delivers (indent depth ++ input) ts := by
  induction depth with
  | zero => exact h
  | succ depth ih => exact .blank (Or.inl rfl) (.blank (Or.inl rfl) ih)

theorem Delivers.semi (h : Delivers input ts) : Delivers (';' :: input) (.semi :: ts) :=
  .token rfl rfl h

theorem Delivers.opn (h : Delivers input ts) : Delivers ('{' :: input) (.opn :: ts) :=
  .token rfl rfl h

theorem Delivers.cls (h : Delivers input ts) : Delivers ('}' :: input) (.cls :: ts) :=
  .token rfl rfl h

/-- The rest of a plain word, up to a delimiter. -/
theorem scan_normal (hw : ∀ c ∈ w, isDelimiter c = false) (hc : isDelimiter c = true) :
    ∀ value, scan .normal value (w ++ c :: rest) = (.normal, value ++ w, c :: rest) := by
  induction w with
  | nil =>
      intro value
      simp [scan, hc]
  | cons a w ih =>
      intro value
      have ha : isDelimiter a = false := hw a List.mem_cons_self
      rw [List.cons_append, scan, ha, ih (fun c hm => hw c (List.mem_cons_of_mem _ hm))]
      simp

theorem Plain.token (hw : Plain w) (hc : isDelimiter c = true) :
    parseToken (w ++ c :: rest) = (.normal, w, c :: rest) := by
  cases w with
  | nil => exact absurd rfl hw.nonempty
  | cons a w =>
      obtain ⟨hr, hsharp, hquote⟩ := hw.front a rfl
      have ha := hw.inside a List.mem_cons_self
      have hdouble := hquote .double
      have hsingle := hquote .single
      simp only [isDelimiter, Bool.or_eq_false_iff, beq_eq_false_iff_ne] at ha
      obtain ⟨⟨⟨⟨⟨hblank, htab⟩, hline⟩, hsemi⟩, hopn⟩, hcls⟩ := ha
      unfold parseToken
      rw [List.cons_append, scan, if_neg hopn, if_neg hcls, if_neg hsharp, if_neg hdouble,
        if_neg hsingle, if_neg hsemi, if_neg (by simp [hblank, htab, hline, hr]),
        scan_normal (fun c hm => hw.inside c (List.mem_cons_of_mem _ hm)) hc]
      rfl

/-- The rest of a quoted word, up to a delimiter. -/
theorem scan_quote {q : Quote} (hq : q.char ∉ w) (hb : '\\' ∉ w) (hc : isDelimiter c = true) :
    ∀ value, scan (.quote q) value (w ++ q.char :: c :: rest) =
      (.normal, value ++ (w ++ [q.char]), c :: rest) := by
  induction w with
  | nil =>
      intro value
      have hne : q.char ≠ '\\' := by cases q <;> decide
      simp [scan, hne, hc]
  | cons a w ih =>
      intro value
      have ha : a ≠ '\\' := fun he => hb (he ▸ List.mem_cons_self)
      have haq : a ≠ q.char := fun he => hq (he ▸ List.mem_cons_self)
      have hnext : scan (.quote q) value (a :: (w ++ q.char :: c :: rest)) =
          scan (.quote q) (value ++ [a]) (w ++ q.char :: c :: rest) := by
        rw [scan.eq_def]
        simp only [if_neg ha, if_neg haq]
      rw [List.cons_append, hnext,
        ih (fun hm => hq (List.mem_cons_of_mem _ hm)) (fun hm => hb (List.mem_cons_of_mem _ hm))]
      simp

theorem Quoted.token (hw : Quoted w) (hc : isDelimiter c = true) :
    parseToken (w ++ c :: rest) = (.normal, w, c :: rest) := by
  obtain ⟨q, s, rfl, hq, hb⟩ := hw
  have hstart : parseToken ((q.char :: (s ++ [q.char])) ++ c :: rest) =
      scan (.quote q) [q.char] (s ++ q.char :: c :: rest) := by
    unfold parseToken
    cases q <;> simp [scan, Quote.char]
  rw [hstart, scan_quote hq hb hc]
  rfl

/-- A word before a delimiter is delivered. -/
theorem Delivers.word (hw : Plain w ∨ Quoted w) (hc : isDelimiter c = true)
    (h : Delivers (c :: rest) ts) : Delivers (w ++ c :: rest) (.word w :: ts) := by
  rcases hw with hw | hw
  · exact .token (hw.token hc) rfl h
  · exact .token (hw.token hc) rfl h

/-- The words of a statement before a delimiter. -/
theorem Delivers.joinTokens (hc : isDelimiter c = true) (h : Delivers (c :: rest) ts) :
    ∀ tokens : List Str, tokens ≠ [] → (∀ w ∈ tokens, Plain w ∨ Quoted w) →
      Delivers (Config.joinTokens tokens ++ c :: rest) (words tokens ++ ts)
  | [], hne, _ => absurd rfl hne
  | [w], _, hw => .word (hw w List.mem_cons_self) hc h
  | w :: v :: ws, _, hw => by
      have hrest := Delivers.joinTokens hc h (v :: ws) (List.cons_ne_nil _ _) fun u hu =>
        hw u (List.mem_cons_of_mem _ hu)
      have hblank : Delivers (' ' :: (Config.joinTokens (v :: ws) ++ c :: rest)) (words (v :: ws) ++ ts) :=
        .blank (Or.inl rfl) hrest
      have hword := Delivers.word (hw w List.mem_cons_self) (c := ' ') rfl hblank
      simpa [Config.joinTokens] using hword

mutual

theorem delivers_statement (s : NginxConfigStatement) (hs : s.Every Printable) (depth : Nat)
    {rest : Str} {ts : List (Lexeme Str)} (h : Delivers rest ts) :
    Delivers (NginxConfigStatement.toString depth s ++ rest) (s.lexemes ++ ts) := by
  cases s with
  | mk tokens childBlock =>
      cases childBlock with
      | none =>
          have hend : Delivers (';' :: '\n' :: rest) (.semi :: ts) := .semi (.blank (Or.inr rfl) h)
          have hwords := Delivers.joinTokens rfl hend tokens hs.1.1 hs.2
          have htext := Delivers.indent depth hwords
          simpa [NginxConfigStatement.toString, Statement.lexemes] using htext
      | some block =>
          have hend : Delivers ('}' :: '\n' :: rest) (.cls :: ts) := .cls (.blank (Or.inr rfl) h)
          have hblock := delivers_toString block hs.2 (depth + 1) (Delivers.indent depth hend)
          have hopen : Delivers (' ' :: '{' :: '\n' :: (NginxConfig.toString (depth + 1) block ++
              (Config.indent depth ++ '}' :: '\n' :: rest)))
              (.opn :: (lexemesOf block ++ .cls :: ts)) :=
            .blank (Or.inl rfl) (.opn (.blank (Or.inr rfl) hblock))
          have hwords := Delivers.joinTokens rfl hopen tokens hs.1.1.1 hs.1.2
          have htext := Delivers.indent depth hwords
          simpa [NginxConfigStatement.toString, Statement.lexemes] using htext

/-- **What is printed is lexed back**, at any depth and before any text. -/
theorem delivers_toString (ss : NginxConfig) (hss : EveryOf Printable ss) (depth : Nat)
    {rest : Str} {ts : List (Lexeme Str)} (h : Delivers rest ts) :
    Delivers (NginxConfig.toString depth ss ++ rest) (lexemesOf ss ++ ts) := by
  cases ss with
  | nil => exact h
  | cons s ss =>
      have hrest := delivers_toString ss hss.2 depth h
      have hs := delivers_statement s hss.1 depth hrest
      simpa [NginxConfig.toString, lexemesOf] using hs

end

end Lexing

/-! ## 3. The round trip -/

/-- **A file that delivers the lexemes of a tree** is parsed to this tree. -/
theorem parse_lexemesOf {input : Str} {config : NginxConfig} (hd : Delivers input (lexemesOf config))
    (hne : config ≠ []) (hw : EveryOf Worded config) :
    ∃ s, parse input [] ∅ = .ok (true, s) ∧ s.config = config := by
  obtain ⟨r, hr, hwalked⟩ := read_lexemesOf config hw Reading.start nofun
  have hfin : r.Finished := ⟨hwalked.ended hne, hwalked.frames⟩
  refine ⟨r.state, parse_true_iff.mpr ⟨_, r, hd, hr, hfin, rfl⟩, ?_⟩
  show plug r.frames r.focus = config
  rw [hfin.2, hwalked.focus]
  rfl

/-- **Parsing undoes printing.** -/
theorem parse_toString (config : NginxConfig) (hne : config ≠ []) (h : EveryOf Printable config) :
    ∃ s, parse (NginxConfig.toString 0 config) [] ∅ = .ok (true, s) ∧ s.config = config := by
  have hend : Delivers [] [] := .eof rfl
  have hd := delivers_toString config h 0 hend
  rw [List.append_nil, List.append_nil] at hd
  exact parse_lexemesOf hd hne (EveryOf.mono (fun _ ht => ht.1) config h)

/-- A block with a quoted word and an empty block in it. -/
def nestedBlocks : NginxConfig :=
  [.mk ["a".toList] (some [.mk ["b".toList, "\x22c d\x22".toList] none, .mk ["e".toList] (some [])])]

/-- `parse_toString` for nested blocks. -/
theorem parse_toString_nested : ∃ s,
    parse (NginxConfig.toString 0 nestedBlocks) [] ∅ = .ok (true, s) ∧ s.config = nestedBlocks := by
  have plain : ∀ c, c = 'a' ∨ c = 'b' ∨ c = 'e' → Plain [c] := by
    intro c hc
    refine ⟨List.cons_ne_nil _ _, fun x hx => ?_, fun x hx => ?_⟩
    · rw [List.mem_singleton.mp hx]
      rcases hc with rfl | rfl | rfl <;> decide
    · cases hx
      rcases hc with rfl | rfl | rfl <;>
        exact ⟨by decide, by decide, fun q => by cases q <;> decide⟩
  have quoted : Quoted "\x22c d\x22".toList := ⟨.double, "c d".toList, rfl, by decide, by decide⟩
  have single : ∀ c, c = 'a' ∨ c = 'b' ∨ c = 'e' → Printable [[c]] := by
    intro c hc
    refine ⟨⟨List.cons_ne_nil _ _, .singleton _⟩, fun w hw => ?_⟩
    rw [List.mem_singleton.mp hw]
    exact Or.inl (plain c hc)
  have pair : Printable ["b".toList, "\x22c d\x22".toList] := by
    refine ⟨⟨List.cons_ne_nil _ _, .cons_cons (by decide) (.singleton _)⟩, fun w hw => ?_⟩
    rcases List.mem_cons.mp hw with rfl | hw
    · exact Or.inl (plain 'b' (by decide))
    · rw [List.mem_singleton.mp hw]
      exact Or.inr quoted
  exact parse_toString nestedBlocks (List.cons_ne_nil _ _)
    ⟨⟨single 'a' (by decide), pair, ⟨single 'e' (by decide), trivial⟩, trivial⟩, trivial⟩

end Googolplex.Config
