/-
  File:      Googolplex/Config/Weights.lean
  Subject:   HOW MUCH OF A FILE IS IN ITS LEXEMES, counted in characters that are no
             white space.

  A file has at least as many of them as its lexemes, and just as many only if
  nothing was escaped and nothing was a comment.

  * `Delivers.bulk_le`: a file and its lexemes.
  * `bulk_toString`: what is printed and the lexemes of the tree.
  * `bulk_sublist`: lexemes some of which are left out.
-/
import Googolplex.Config.Tokens

namespace Googolplex.Config

open Cxx Blocks

/-! ## 1. Counting -/

/-- The characters that are no white space. -/
def bulk (s : Str) : Nat := s.countP fun c => !isBlank c

def lexemeBulk : Lexeme Str → Nat
  | .word w => bulk w
  | .semi | .opn | .cls => 1

def bulkOf (ts : List (Lexeme Str)) : Nat := (ts.map lexemeBulk).sum

section

variable {q : Quote} {c : Char} {s src value rest input : Str} {type : TokenType}
  {t : Lexeme Str} {ts us : List (Lexeme Str)}

@[simp] theorem bulk_nil : bulk [] = 0 := rfl

@[simp] theorem bulk_append (s s' : Str) : bulk (s ++ s') = bulk s + bulk s' := List.countP_append

theorem bulk_cons (c : Char) (s : Str) : bulk (c :: s) = bulk [c] + bulk s :=
  bulk_append [c] s

theorem bulk_of_not_blank (h : isBlank c = false) : bulk [c] = 1 := by simp [bulk, h]

theorem Blank.bulk_eq_zero (h : Blank s) : bulk s = 0 := by
  refine List.countP_eq_zero.mpr fun c hc => ?_
  simp [h c hc]

@[simp] theorem bulk_quote (q : Quote) : bulk [q.char] = 1 := bulk_of_not_blank q.char_ne.2.1

theorem bulk_between (q : Quote) (s : Str) : bulk (q.char :: (s ++ [q.char])) = bulk s + 2 := by
  rw [bulk_cons, bulk_append, bulk_quote]
  omega

@[simp] theorem bulkOf_nil : bulkOf [] = 0 := rfl

@[simp] theorem bulkOf_cons (t : Lexeme Str) (ts : List (Lexeme Str)) :
    bulkOf (t :: ts) = lexemeBulk t + bulkOf ts := rfl

@[simp] theorem bulkOf_append (ts us : List (Lexeme Str)) :
    bulkOf (ts ++ us) = bulkOf ts + bulkOf us := by
  simp [bulkOf]

/-- Lexemes some of which are left out. -/
theorem bulk_sublist (h : List.Sublist ts us) : bulkOf ts ≤ bulkOf us := by
  induction h with
  | slnil => exact Nat.le_refl _
  | cons t _ ih => exact Nat.le_trans ih (Nat.le_add_left _ _)
  | cons_cons t _ ih => exact Nat.add_le_add_left ih _

/-! ## 2. Files -/

/-- A backslash is in the file and not in the value. -/
theorem Escaped.bulk_le (h : Escaped q src value) : bulk value ≤ bulk src ∧
    (bulk src = bulk value → q.char ∉ value ∧ '\\' ∉ value) := by
  induction h with
  | nil => exact ⟨Nat.le_refl _, fun _ => ⟨List.not_mem_nil, List.not_mem_nil⟩⟩
  | @plain c src value hb hq _ ih =>
      rw [bulk_cons c src, bulk_cons c value]
      refine ⟨by omega, fun heq => ?_⟩
      obtain ⟨hqv, hbv⟩ := ih.2 (by omega)
      exact ⟨List.not_mem_cons_of_ne_of_not_mem (Ne.symm hq) hqv,
        List.not_mem_cons_of_ne_of_not_mem (Ne.symm hb) hbv⟩
  | @escape src value c _ ih =>
      have hbackslash : bulk ['\\'] = 1 := rfl
      rw [bulk_cons '\\', bulk_cons c src, bulk_cons c value]
      omega

/-- A word of as many characters as it is written with is a plain or a quoted one. -/
theorem Spelled.bulk_le (h : Spelled type src value) (ht : lexeme value type = some t) :
    lexemeBulk t ≤ bulk src ∧ (bulk src = lexemeBulk t → ∀ w, t = .word w → Plain w ∨ Quoted w) := by
  cases h with
  | comment => cases ht
  | opn | cls | semi =>
      cases ht
      exact ⟨Nat.le_refl _, fun _ w hw => by cases hw⟩
  | bare hw =>
      cases ht
      refine ⟨Nat.le_refl _, fun _ w heq => ?_⟩
      cases heq
      exact Or.inl hw
  | @quoted q src value hv =>
      cases ht
      have hle := hv.bulk_le
      rw [lexemeBulk, bulk_between, bulk_between]
      refine ⟨by omega, fun heq w hw => ?_⟩
      cases hw
      obtain ⟨hqv, hbv⟩ := hle.2 (by omega)
      exact Or.inr ⟨q, value, rfl, hqv, hbv⟩

/-- **A file and its lexemes**: there is at least as much in it, and if there is no more, all words are
    plain or quoted ones. -/
theorem Delivers.bulk_le (h : Delivers input ts) : bulkOf ts ≤ bulk input ∧
    (bulk input = bulkOf ts → ∀ w, Lexeme.word w ∈ ts → Plain w ∨ Quoted w) := by
  induction h with
  | eof => exact ⟨Nat.zero_le _, fun _ w hw => by cases hw⟩
  | comment hp _ ih =>
      rcases parseToken_sound hp with ⟨ht, _⟩ | ht | ⟨_, s, src, rfl, hs, hspelled⟩
      · cases ht
      · cases ht
      · rw [bulk_append, bulk_append, hs.bulk_eq_zero]
        refine ⟨by omega, fun heq => ?_⟩
        exact ih.2 (by omega)
  | token hp ht _ ih =>
      rcases parseToken_sound hp with ⟨htype, _⟩ | htype | ⟨_, s, src, rfl, hs, hspelled⟩
      · exact absurd htype (lexeme_type ht).1
      · exact absurd htype (lexeme_type ht).2
      · have hle := hspelled.bulk_le ht
        rw [bulk_append, bulk_append, hs.bulk_eq_zero, bulkOf_cons]
        refine ⟨by omega, fun heq w hw => ?_⟩
        rcases List.mem_cons.mp hw with rfl | hw
        · exact hle.2 (by omega) w rfl
        · exact ih.2 (by omega) w hw

/-! ## 3. Trees -/

theorem bulk_indent (depth : Nat) : bulk (indent depth) = 0 := by
  induction depth with
  | zero => rfl
  | succ depth ih => exact ih

theorem bulk_joinTokens : ∀ tokens : List Str, bulk (joinTokens tokens) = bulkOf (words tokens)
  | [] => rfl
  | [w] => rfl
  | w :: v :: ws => by
      have ih := bulk_joinTokens (v :: ws)
      have hblank : bulk [' '] = 0 := rfl
      show bulk (w ++ ' ' :: joinTokens (v :: ws)) = _
      rw [bulk_append, bulk_cons, hblank, ih]
      simp only [words, List.map_cons, bulkOf_cons, lexemeBulk]
      omega

mutual

theorem bulk_statement (s : NginxConfigStatement) (depth : Nat) :
    bulk (NginxConfigStatement.toString depth s) = bulkOf s.lexemes := by
  have hsemi : bulk ";".toList = 1 := rfl
  have hline : bulk "\n".toList = 0 := rfl
  have hopn : bulk " \x7b\n".toList = 1 := rfl
  have hcls : bulk "\x7d".toList = 1 := rfl
  cases s with
  | mk tokens childBlock =>
      cases childBlock with
      | none =>
          simp only [NginxConfigStatement.toString, Statement.lexemes, bulk_append, bulk_indent,
            bulk_joinTokens, bulkOf_append, bulkOf_cons, bulkOf_nil, lexemeBulk, hsemi, hline]
          omega
      | some block =>
          have ih := bulk_toString block (depth + 1)
          simp only [NginxConfigStatement.toString, Statement.lexemes, bulk_append, bulk_indent,
            bulk_joinTokens, bulkOf_append, bulkOf_cons, bulkOf_nil, lexemeBulk, hopn, hcls, hline, ih]
          omega

/-- **What is printed and the lexemes of the tree** are as much. -/
theorem bulk_toString (ss : NginxConfig) (depth : Nat) :
    bulk (NginxConfig.toString depth ss) = bulkOf (lexemesOf ss) := by
  cases ss with
  | nil => rfl
  | cons s ss =>
      rw [NginxConfig.toString, lexemesOf, bulk_append, bulkOf_append, bulk_statement s depth,
        bulk_toString ss depth]

end

end

end Googolplex.Config
