/-
  File:      Googolplex/Library/Drafts.lean
  Subject:   Trees that keep every block of a statement, for the grammar in which
             a statement can open a further block.

  A `Draft` is a statement with all its blocks in the order they are written; its
  `statement` is left with the last of them. As `Statement` is to the narrow
  grammar, `Draft` is to the wide one.

  * `Derives.drafts`: what the wide grammar derives is the text of drafts.
  * `HasBlock`: the blocks there are, at any depth.
-/
import Googolplex.Library.Blocks

namespace Blocks

/-- A statement and its blocks: none, one, or one after what it is so far. -/
inductive Draft (W : Type) where
  | simple (tokens : List W)
  | block (tokens : List W) (body : List (Draft W))
  | further (before : Draft W) (body : List (Draft W))

variable {W : Type}

/-- Its words. -/
def Draft.tokens : Draft W → List W
  | .simple tokens => tokens
  | .block tokens _ => tokens
  | .further before _ => before.tokens

mutual

/-- Its text. -/
def Draft.lexemes : Draft W → List (Lexeme W)
  | .simple tokens => words tokens ++ [.semi]
  | .block tokens body => words tokens ++ .opn :: (textOf body ++ [.cls])
  | .further before body => before.lexemes ++ .opn :: (textOf body ++ [.cls])

def textOf : List (Draft W) → List (Lexeme W)
  | [] => []
  | d :: ds => d.lexemes ++ textOf ds

end

mutual

/-- What is left of it: the words and the last block. -/
def Draft.statement : Draft W → Statement W
  | .simple tokens => .mk tokens none
  | .block tokens body => .mk tokens (some (statementsOf body))
  | .further before body => .mk before.tokens (some (statementsOf body))

def statementsOf : List (Draft W) → List (Statement W)
  | [] => []
  | d :: ds => d.statement :: statementsOf ds

end

mutual

/-- `P` holds of the words of the draft and of all in it. -/
def Draft.Every (P : List W → Prop) : Draft W → Prop
  | .simple tokens => P tokens
  | .block tokens body => P tokens ∧ EveryDraft P body
  | .further before body => before.Every P ∧ EveryDraft P body

def EveryDraft (P : List W → Prop) : List (Draft W) → Prop
  | [] => True
  | d :: ds => d.Every P ∧ EveryDraft P ds

end

/-- **A block there is**, with the words that opened it, at any depth. -/
inductive Draft.HasBlock (tokens : List W) (body : List (Draft W)) : Draft W → Prop
  | block : HasBlock tokens body (.block tokens body)
  | further {d : Draft W} (h : d.tokens = tokens) : HasBlock tokens body (.further d body)
  | before {d : Draft W} {inner : List (Draft W)} (h : HasBlock tokens body d) :
      HasBlock tokens body (.further d inner)
  | inBlock {ws : List W} {d : Draft W} {inner : List (Draft W)} (hd : d ∈ inner)
      (h : HasBlock tokens body d) : HasBlock tokens body (.block ws inner)
  | inFurther {d d' : Draft W} {inner : List (Draft W)} (hd : d ∈ inner)
      (h : HasBlock tokens body d) : HasBlock tokens body (.further d' inner)

/-- Some of the drafts has the block. -/
def HasBlock (ds : List (Draft W)) (tokens : List W) (body : List (Draft W)) : Prop :=
  ∃ d ∈ ds, d.HasBlock tokens body

/-- A statement of a tree, at any depth. -/
inductive Occurs (s : Statement W) : List (Statement W) → Prop
  | here {ss : List (Statement W)} (h : s ∈ ss) : Occurs s ss
  | inside {tokens : List W} {block ss : List (Statement W)} (hmem : .mk tokens (some block) ∈ ss)
      (h : Occurs s block) : Occurs s ss

section

variable {P Q : List W → Prop} {d : Draft W} {ds : List (Draft W)} {ts : List (Lexeme W)}

theorem Draft.statement_tokens (d : Draft W) : ∃ block, d.statement = .mk d.tokens block := by
  cases d with
  | simple | block | further => exact ⟨_, rfl⟩

theorem textOf_append (ds es : List (Draft W)) : textOf (ds ++ es) = textOf ds ++ textOf es := by
  induction ds with
  | nil => rfl
  | cons d ds ih => simp only [List.cons_append, textOf, ih, List.append_assoc]

theorem everyDraft_append {ds es : List (Draft W)} :
    EveryDraft P (ds ++ es) ↔ EveryDraft P ds ∧ EveryDraft P es := by
  induction ds with
  | nil => simp [EveryDraft]
  | cons d ds ih => simp only [List.cons_append, EveryDraft, ih, and_assoc]

theorem Draft.Every.tokens (h : d.Every P) : P d.tokens := by
  induction d using Draft.tokens.induct with
  | case1 tokens => exact h
  | case2 tokens body => exact h.1
  | case3 before body ih => exact ih h.1

mutual

theorem Draft.Every.and (d : Draft W) (hp : d.Every P) (hq : d.Every Q) :
    d.Every fun ws => P ws ∧ Q ws := by
  cases d with
  | simple tokens => exact ⟨hp, hq⟩
  | block tokens body => exact ⟨⟨hp.1, hq.1⟩, EveryDraft.and body hp.2 hq.2⟩
  | further before body => exact ⟨Draft.Every.and before hp.1 hq.1, EveryDraft.and body hp.2 hq.2⟩

theorem EveryDraft.and (ds : List (Draft W)) (hp : EveryDraft P ds) (hq : EveryDraft Q ds) :
    EveryDraft (fun ws => P ws ∧ Q ws) ds := by
  cases ds with
  | nil => trivial
  | cons d ds => exact ⟨Draft.Every.and d hp.1 hq.1, EveryDraft.and ds hp.2 hq.2⟩

end

mutual

/-- What holds of all words of a draft holds of those that are left. -/
theorem Draft.Every.statement (d : Draft W) (h : d.Every P) : d.statement.Every P := by
  cases d with
  | simple tokens => exact h
  | block tokens body => exact ⟨h.1, EveryDraft.statements body h.2⟩
  | further before body => exact ⟨h.1.tokens, EveryDraft.statements body h.2⟩

theorem EveryDraft.statements (ds : List (Draft W)) (h : EveryDraft P ds) :
    EveryOf P (statementsOf ds) := by
  cases ds with
  | nil => trivial
  | cons d ds => exact ⟨Draft.Every.statement d h.1, EveryDraft.statements ds h.2⟩

end

theorem Draft.words_sublist (d : Draft W) : List.Sublist (words d.tokens) d.lexemes := by
  induction d using Draft.tokens.induct with
  | case1 tokens => exact List.sublist_append_left _ _
  | case2 tokens body => exact List.sublist_append_left _ _
  | case3 before body ih => exact ih.trans (List.sublist_append_left _ _)

mutual

/-- The text of what is left of a draft is that of the draft, with some of it left out. -/
theorem Draft.statement_sublist (d : Draft W) : List.Sublist d.statement.lexemes d.lexemes := by
  cases d with
  | simple tokens => exact List.Sublist.refl _
  | block tokens body =>
      exact (List.Sublist.refl _).append
        (.cons_cons _ ((statementsOf_sublist body).append (List.Sublist.refl _)))
  | further before body =>
      exact before.words_sublist.append
        (.cons_cons _ ((statementsOf_sublist body).append (List.Sublist.refl _)))

theorem statementsOf_sublist (ds : List (Draft W)) :
    List.Sublist (lexemesOf (statementsOf ds)) (textOf ds) := by
  cases ds with
  | nil => exact List.Sublist.refl _
  | cons d ds => exact (Draft.statement_sublist d).append (statementsOf_sublist ds)

end

mutual

theorem Draft.every_isChain {ok : W → W → Prop} (d : Draft W) {last : Option (Lexeme W)}
    (h : Chained (Agree ok) last d.lexemes) : d.Every (·.IsChain ok) := by
  cases d with
  | simple tokens => exact h.split.1.words
  | block tokens body =>
      obtain ⟨hwords, last', hrest⟩ := h.split
      exact ⟨hwords.words, everyDraft_isChain body hrest.2.split.1⟩
  | further before body =>
      obtain ⟨hbefore, last', hrest⟩ := h.split
      exact ⟨before.every_isChain hbefore, everyDraft_isChain body hrest.2.split.1⟩

/-- It is within a statement that words follow each other. -/
theorem everyDraft_isChain {ok : W → W → Prop} (ds : List (Draft W)) {last : Option (Lexeme W)}
    (h : Chained (Agree ok) last (textOf ds)) : EveryDraft (·.IsChain ok) ds := by
  cases ds with
  | nil => trivial
  | cons d ds =>
      obtain ⟨hd, last', hds⟩ := Chained.split h
      exact ⟨d.every_isChain hd, everyDraft_isChain ds hds⟩

end

/-- **What the wide grammar derives is the text of drafts**; a statement is one of them. -/
theorem Derives.drafts {n : Nonterminal} (h : Derives true n ts) :
    ∃ ds : List (Draft W), ts = textOf ds ∧ EveryDraft (· ≠ []) ds ∧
      (n = .statement → ∃ d, ds = [d]) ∧ (n ≠ .statements → ds ≠ []) := by
  induction h with
  | @simple ws hw =>
      exact ⟨[.simple ws], by simp [textOf, Draft.lexemes], ⟨hw, trivial⟩, fun _ => ⟨_, rfl⟩, by simp⟩
  | @block ws body hw _ ih =>
      obtain ⟨ds, rfl, hds, _⟩ := ih
      exact ⟨[.block ws ds], by simp [textOf, Draft.lexemes], ⟨⟨hw, hds⟩, trivial⟩,
        fun _ => ⟨_, rfl⟩, by simp⟩
  | further _ _ _ ihs ih =>
      obtain ⟨ds, rfl, hds, _⟩ := ih
      obtain ⟨es, rfl, hes, hone, _⟩ := ihs
      obtain ⟨e, rfl⟩ := hone rfl
      exact ⟨[.further e ds], by simp [textOf, Draft.lexemes], ⟨⟨hes.1, hds⟩, trivial⟩,
        fun _ => ⟨_, rfl⟩, by simp⟩
  | nil => exact ⟨[], rfl, trivial, by simp, by simp⟩
  | cons _ _ ih1 ih2 | config _ _ ih1 ih2 =>
      obtain ⟨ds, rfl, hds, _, hne⟩ := ih1
      obtain ⟨es, rfl, hes, _⟩ := ih2
      exact ⟨ds ++ es, (textOf_append ds es).symm, everyDraft_append.mpr ⟨hds, hes⟩, by simp,
        by simp [hne]⟩

/-! ### The blocks of a draft -/

variable {tokens ws : List W} {body inner : List (Draft W)} {e : Draft W}

theorem Draft.hasBlock_simple : ¬ (Draft.simple ws).HasBlock tokens body := nofun

theorem Draft.hasBlock_block : (Draft.block ws inner).HasBlock tokens body ↔
    (ws = tokens ∧ inner = body) ∨ Blocks.HasBlock inner tokens body := by
  constructor
  · intro h
    cases h with
    | block => exact Or.inl ⟨rfl, rfl⟩
    | inBlock hd h => exact Or.inr ⟨_, hd, h⟩
  · rintro (⟨rfl, rfl⟩ | ⟨d, hd, h⟩)
    · exact .block
    · exact .inBlock hd h

theorem Draft.hasBlock_further : (Draft.further e inner).HasBlock tokens body ↔
    (e.tokens = tokens ∧ inner = body) ∨ e.HasBlock tokens body ∨
      Blocks.HasBlock inner tokens body := by
  constructor
  · intro h
    cases h with
    | further ht => exact Or.inl ⟨ht, rfl⟩
    | before h => exact Or.inr (Or.inl h)
    | inFurther hd h => exact Or.inr (Or.inr ⟨_, hd, h⟩)
  · rintro (⟨ht, rfl⟩ | h | ⟨d, hd, h⟩)
    · exact .further ht
    · exact .before h
    · exact .inFurther hd h

theorem hasBlock_cons : HasBlock (e :: ds) tokens body ↔
    e.HasBlock tokens body ∨ HasBlock ds tokens body := by
  simp [HasBlock]

end

end Blocks
