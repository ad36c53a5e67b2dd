/-
  File:      Googolplex/Library/Blocks.lean
  Subject:   Texts of statements and nested blocks: the grammar
                 config    := statement+
                 statement := WORD+ ';' | WORD+ '{' statement* '}'
             over any words, the reader that looks back one lexeme and counts
             braces, the trees such texts spell, and places in a tree.

  * `accepts_iff`: the reader accepts exactly the grammar, with and without the
    rule that lets a statement open a further block.
  * `derives_iff_lexemes`: the grammar derives exactly the texts of the trees.
  * `blockAt_plug`, `modifyAt_plug`: the place of the innermost open block;
    `openPath_plug`: the places of all of them; `wordsIn_plug`: its words.
-/
import Mathlib

namespace Blocks

/-- A lexeme: a word, `;`, `{` or `}`. -/
inductive Lexeme (W : Type) where
  | word (w : W)
  | semi
  | opn
  | cls
  deriving DecidableEq, Repr

variable {W : Type}

/-- Words in a row. -/
abbrev words (ws : List W) : List (Lexeme W) := ws.map .word

theorem words_cons (w : W) (ws : List W) : words (w :: ws) = .word w :: words ws := rfl

def Lexeme.IsWord : Lexeme W → Prop
  | .word _ => True
  | _ => False

/-! ## 1. The grammar -/

inductive Nonterminal where
  | statement | statements | config
  deriving DecidableEq, Repr

/-- What the grammar derives. With `reopen` there is one more rule,
    `statement := statement '{' statement* '}'`. -/
inductive Derives (reopen : Bool) : Nonterminal → List (Lexeme W) → Prop where
  | simple {ws : List W} (hw : ws ≠ []) : Derives reopen .statement (words ws ++ [.semi])
  | block {ws : List W} {body : List (Lexeme W)} (hw : ws ≠ [])
      (hbody : Derives reopen .statements body) :
      Derives reopen .statement (words ws ++ .opn :: (body ++ [.cls]))
  | further {s body : List (Lexeme W)} (hr : reopen = true) (hs : Derives reopen .statement s)
      (hbody : Derives reopen .statements body) :
      Derives reopen .statement (s ++ .opn :: (body ++ [.cls]))
  | nil : Derives reopen .statements []
  | cons {s ss : List (Lexeme W)} (hs : Derives reopen .statement s)
      (hss : Derives reopen .statements ss) : Derives reopen .statements (s ++ ss)
  | config {s ss : List (Lexeme W)} (hs : Derives reopen .statement s)
      (hss : Derives reopen .statements ss) : Derives reopen .config (s ++ ss)

section Grammar

variable {reopen : Bool} {s ss ts : List (Lexeme W)}

theorem Derives.append {a b : List (Lexeme W)} (ha : Derives reopen .statements a)
    (hb : Derives reopen .statements b) : Derives reopen .statements (a ++ b) := by
  generalize hn : Nonterminal.statements = n at ha
  induction ha with
  | nil => exact hb
  | cons hs _ _ ih =>
      rw [List.append_assoc]
      exact .cons hs (ih hn)
  | simple | block | further | config => cases hn

theorem Derives.one (hs : Derives reopen .statement s) : Derives reopen .statements s := by
  have h := Derives.cons hs .nil
  rwa [List.append_nil] at h

theorem Derives.statements (h : Derives reopen .config ts) : Derives reopen .statements ts := by
  cases h with
  | config hs hss => exact .cons hs hss

/-- A statement at the end. -/
theorem Derives.snoc (hss : Derives reopen .statements ss) (hs : Derives reopen .statement s) :
    Derives reopen .config (ss ++ s) := by
  generalize hn : Nonterminal.statements = n at hss
  cases hss with
  | nil =>
      have h := Derives.config hs .nil
      rwa [List.append_nil] at h
  | cons h0 hrest =>
      rw [List.append_assoc]
      exact .config h0 (hrest.append hs.one)
  | simple | block | further | config => cases hn

/-- Every non-empty list of statements ends in one. -/
theorem Derives.unsnoc (h : Derives reopen .config ts) : ∃ ss s, ts = ss ++ s ∧
    Derives reopen .statements ss ∧ Derives reopen .statement s := by
  have key : ∀ {n : Nonterminal} {ss : List (Lexeme W)}, Derives reopen n ss →
      n = .statements → ∀ s, Derives reopen .statement s → ∃ ss' s', s ++ ss = ss' ++ s' ∧
        Derives reopen .statements ss' ∧ Derives reopen .statement s' := by
    intro n ss hss
    induction hss with
    | nil =>
        intro _ s hs
        exact ⟨[], s, by simp, .nil, hs⟩
    | @cons s0 ss0 h0 _ _ ih =>
        intro hn s hs
        obtain ⟨ss', s', heq, hss', hs'⟩ := ih hn s0 h0
        exact ⟨s ++ ss', s', by rw [heq, List.append_assoc], .cons hs hss', hs'⟩
    | simple | block | further | config => intro hn; cases hn
  cases h with
  | config hs hss => exact key hss rfl _ hs

/-- The further rule only adds. -/
theorem Derives.widen {n : Nonterminal} (h : Derives false n ts) : Derives reopen n ts := by
  induction h with
  | simple hw => exact .simple hw
  | block hw _ ih => exact .block hw ih
  | further hr => cases hr
  | nil => exact .nil
  | cons _ _ ih1 ih2 => exact .cons ih1 ih2
  | config _ _ ih1 ih2 => exact .config ih1 ih2

end Grammar

/-! ## 2. The reader -/

/-- What the reader remembers: the last lexeme, and how many blocks are open. -/
structure Mark (W : Type) where
  last : Option (Lexeme W)
  depth : Nat

/-- One lexeme. -/
def Mark.next (reopen : Bool) (m : Mark W) : Lexeme W → Option (Mark W)
  | .word w => some ⟨some (.word w), m.depth⟩
  | .semi =>
    match m.last with
    | some (.word _) => some ⟨some .semi, m.depth⟩
    | _ => none
  | .opn =>
    match m.last with
    | some (.word _) => some ⟨some .opn, m.depth + 1⟩
    | some .semi | some .cls => if reopen then some ⟨some .opn, m.depth + 1⟩ else none
    | _ => none
  | .cls =>
    match m.last, m.depth with
    | some .semi, d + 1 | some .opn, d + 1 | some .cls, d + 1 => some ⟨some .cls, d⟩
    | _, _ => none

/-- Lexemes in a row. -/
def Mark.read (reopen : Bool) (m : Mark W) (ts : List (Lexeme W)) : Option (Mark W) :=
  ts.foldlM (Mark.next reopen) m

/-- A statement has just ended. -/
def Mark.Ended (m : Mark W) : Prop := m.last = some .semi ∨ m.last = some .cls

/-- The reader gets through, and ends with a statement and no open block. -/
def Accepts (reopen : Bool) (ts : List (Lexeme W)) : Prop :=
  ∃ m, Mark.read reopen ⟨none, 0⟩ ts = some m ∧ m.Ended ∧ m.depth = 0

section Reader

variable {reopen : Bool} {m m' : Mark W} {ts us : List (Lexeme W)} {t : Lexeme W}

@[simp] theorem Mark.read_nil (m : Mark W) : m.read reopen [] = some m := rfl

theorem Mark.read_cons (m : Mark W) (t : Lexeme W) (ts : List (Lexeme W)) :
    m.read reopen (t :: ts) = (m.next reopen t).bind (·.read reopen ts) := rfl

theorem Mark.read_append (m : Mark W) (ts us : List (Lexeme W)) :
    m.read reopen (ts ++ us) = (m.read reopen ts).bind (·.read reopen us) :=
  List.foldlM_append

/-- Where a `;` fits. -/
theorem Mark.next_semi : m.next reopen .semi = some m' ↔
    (∃ w, m.last = some (.word w)) ∧ m' = ⟨some .semi, m.depth⟩ := by
  obtain ⟨_ | (w | _ | _ | _), depth⟩ := m <;> simp [Mark.next, eq_comm]

/-- Where a `{` fits. -/
theorem Mark.next_opn : m.next reopen .opn = some m' ↔
    ((∃ w, m.last = some (.word w)) ∨ reopen = true ∧ m.Ended) ∧
      m' = ⟨some .opn, m.depth + 1⟩ := by
  obtain ⟨_ | (w | _ | _ | _), depth⟩ := m <;>
    cases reopen <;> simp [Mark.next, Mark.Ended, eq_comm]

/-- Where a `}` fits. -/
theorem Mark.next_cls : m.next reopen .cls = some m' ↔
    (m.Ended ∨ m.last = some .opn) ∧ m.depth = m'.depth + 1 ∧ m'.last = some .cls := by
  obtain ⟨last', depth'⟩ := m'
  obtain ⟨_ | (w | _ | _ | _), _ | depth⟩ := m <;>
    simp [Mark.next, Mark.Ended, eq_comm, and_comm]

/-- Words are always read. -/
theorem Mark.read_words (m : Mark W) {ws : List W} (h : ws ≠ []) :
    ∃ w, m.read reopen (words ws) = some ⟨some (.word w), m.depth⟩ := by
  induction ws generalizing m with
  | nil => exact absurd rfl h
  | cons w ws ih =>
      by_cases hws : ws = []
      · rw [hws]
        exact ⟨w, rfl⟩
      · obtain ⟨v, hv⟩ := ih ⟨some (.word w), m.depth⟩ hws
        exact ⟨v, hv⟩

/-- What the grammar derives is read, and leaves the depth as it was. -/
theorem Derives.read {n : Nonterminal} (h : Derives reopen n ts) (m : Mark W) :
    ∃ m', m.read reopen ts = some m' ∧ m'.depth = m.depth ∧
      (m'.Ended ∨ n = .statements ∧ m' = m) := by
  -- a block whose statements are read, after a `{` that fits
  have hblock : ∀ {body : List (Lexeme W)} {m : Mark W},
      (∀ m : Mark W, ∃ m', m.read reopen body = some m' ∧ m'.depth = m.depth ∧
        (m'.Ended ∨ Nonterminal.statements = .statements ∧ m' = m)) →
      m.next reopen .opn = some ⟨some .opn, m.depth + 1⟩ →
      m.read reopen (.opn :: (body ++ [.cls])) = some ⟨some .cls, m.depth⟩ := by
    intro body m hbody hopen
    obtain ⟨m', hr, hdepth, hend⟩ := hbody ⟨some .opn, m.depth + 1⟩
    have hfits : m'.Ended ∨ m'.last = some .opn := by
      rcases hend with hend | ⟨_, heq⟩
      · exact Or.inl hend
      · exact Or.inr (by rw [heq])
    have hcls : m'.next reopen .cls = some ⟨some .cls, m.depth⟩ :=
      Mark.next_cls.mpr ⟨hfits, hdepth, rfl⟩
    rw [Mark.read_cons, hopen, Option.bind_some, Mark.read_append, hr, Option.bind_some,
      Mark.read_cons, hcls]
    rfl
  induction h generalizing m with
  | simple hw =>
      obtain ⟨w, hr⟩ := m.read_words hw
      refine ⟨⟨some .semi, m.depth⟩, ?_, rfl, Or.inl (Or.inl rfl)⟩
      rw [Mark.read_append, hr]
      rfl
  | block hw _ ih =>
      obtain ⟨w, hr⟩ := m.read_words hw
      refine ⟨⟨some .cls, m.depth⟩, ?_, rfl, Or.inl (Or.inr rfl)⟩
      rw [Mark.read_append, hr]
      exact hblock ih rfl
  | further hr _ _ ihs ih =>
      obtain ⟨m', hm, hdepth, hend⟩ := ihs m
      refine ⟨⟨some .cls, m'.depth⟩, ?_, hdepth, Or.inl (Or.inr rfl)⟩
      rw [Mark.read_append, hm]
      refine hblock ih (Mark.next_opn.mpr ⟨Or.inr ⟨hr, ?_⟩, rfl⟩)
      rcases hend with hend | ⟨hn, _⟩
      · exact hend
      · cases hn
  | nil => exact ⟨m, rfl, rfl, Or.inr ⟨rfl, rfl⟩⟩
  | cons _ _ ih1 ih2 | config _ _ ih1 ih2 =>
      obtain ⟨m1, hm1, hdepth1, hend1⟩ := ih1 m
      obtain ⟨m2, hm2, hdepth2, hend2⟩ := ih2 m1
      refine ⟨m2, ?_, hdepth2.trans hdepth1, Or.inl ?_⟩
      · rw [Mark.read_append, hm1]
        exact hm2
      · rcases hend2 with hend2 | ⟨_, heq⟩
        · exact hend2
        · rcases hend1 with hend1 | ⟨hn, _⟩
          · rw [heq]
            exact hend1
          · cases hn

/-! ### What has been read -/

/-- What stands before a `{` that fits: with any block it is a list of statements. -/
def Opener (reopen : Bool) (ts : List (Lexeme W)) : Prop :=
  ∀ body, Derives reopen .statements body → Derives reopen .config (ts ++ .opn :: (body ++ [.cls]))

/-- What stands before the innermost open block. -/
inductive Enclosing (reopen : Bool) : Nat → List (Lexeme W) → Prop where
  | outermost : Enclosing reopen 0 []
  | inside {d : Nat} {before outer : List (Lexeme W)} (h : Enclosing reopen d before)
      (ho : Opener reopen outer) : Enclosing reopen (d + 1) (before ++ (outer ++ [.opn]))

/-- What the innermost open block holds so far. -/
def Partial (reopen : Bool) (seg : List (Lexeme W)) : Option (Lexeme W) → Prop
  | none | some .opn => seg = []
  | some (.word _) => ∃ ss ws, seg = ss ++ words ws ∧ ws ≠ [] ∧ Derives reopen .statements ss
  | some .semi | some .cls => Derives reopen .config seg

/-- **What has been read is the open blocks around what the innermost holds.** -/
def Consumed (reopen : Bool) (ts : List (Lexeme W)) (m : Mark W) : Prop :=
  ∃ before seg, ts = before ++ seg ∧ Enclosing reopen m.depth before ∧ Partial reopen seg m.last

theorem opener_words {ss : List (Lexeme W)} {ws : List W} (hw : ws ≠ [])
    (hss : Derives reopen .statements ss) : Opener reopen (ss ++ words ws) := by
  intro body hbody
  rw [List.append_assoc]
  exact hss.snoc (.block hw hbody)

theorem opener_config (hr : reopen = true) (h : Derives reopen .config ts) : Opener reopen ts := by
  intro body hbody
  obtain ⟨ss, s, rfl, hss, hs⟩ := h.unsnoc
  rw [List.append_assoc]
  exact hss.snoc (.further hr hs hbody)

/-- A word goes on with a statement or begins one. -/
theorem Partial.word {seg : List (Lexeme W)} {last : Option (Lexeme W)} (w : W)
    (h : Partial reopen seg last) : Partial reopen (seg ++ [.word w]) (some (.word w)) := by
  have begin' : Derives reopen .statements seg →
      Partial reopen (seg ++ [.word w]) (some (.word w)) :=
    fun hs => ⟨seg, [w], rfl, List.cons_ne_nil _ _, hs⟩
  cases last with
  | none =>
      refine begin' ?_
      rw [show seg = [] from h]
      exact .nil
  | some l =>
      cases l with
      | word v =>
          obtain ⟨ss, ws, rfl, _, hss⟩ := h
          exact ⟨ss, ws ++ [w], by simp [words], by simp, hss⟩
      | opn =>
          refine begin' ?_
          rw [show seg = [] from h]
          exact .nil
      | semi | cls => exact begin' (Derives.statements h)

theorem Partial.statements {seg : List (Lexeme W)} (hp : Partial reopen seg m.last)
    (h : m.Ended ∨ m.last = some .opn) : Derives reopen .statements seg := by
  rcases h with (h | h) | h
  · rw [h] at hp
    exact Derives.statements hp
  · rw [h] at hp
    exact Derives.statements hp
  · rw [h] at hp
    rw [show seg = [] from hp]
    exact .nil

/-- What a `{` fits after opens a block. -/
theorem Partial.opener {seg : List (Lexeme W)} (hp : Partial reopen seg m.last)
    (h : (∃ w, m.last = some (.word w)) ∨ reopen = true ∧ m.Ended) : Opener reopen seg := by
  rcases h with ⟨w, h⟩ | ⟨hr, h | h⟩
  · rw [h] at hp
    obtain ⟨ss, ws, rfl, hw, hss⟩ := hp
    exact opener_words hw hss
  · rw [h] at hp
    exact opener_config hr hp
  · rw [h] at hp
    exact opener_config hr hp

/-- One lexeme. -/
theorem Consumed.next (h : Consumed reopen ts m) (hs : m.next reopen t = some m') :
    Consumed reopen (ts ++ [t]) m' := by
  obtain ⟨before, seg, rfl, he, hp⟩ := h
  cases t with
  | word w =>
      cases hs
      exact ⟨before, seg ++ [.word w], by simp, he, hp.word w⟩
  | semi =>
      obtain ⟨⟨w, hlast⟩, rfl⟩ := Mark.next_semi.mp hs
      rw [hlast] at hp
      obtain ⟨ss, ws, rfl, hw, hss⟩ := hp
      exact ⟨before, ss ++ (words ws ++ [.semi]), by simp, he, hss.snoc (.simple hw)⟩
  | opn =>
      -- the block inside is empty so far
      obtain ⟨hfits, rfl⟩ := Mark.next_opn.mp hs
      exact ⟨before ++ (seg ++ [.opn]), [], by simp, .inside he (hp.opener hfits), rfl⟩
  | cls =>
      -- the block becomes a part of the statement around it
      obtain ⟨hfits, hdepth, hlast⟩ := Mark.next_cls.mp hs
      have hseg := hp.statements hfits
      rw [hdepth] at he
      cases he with
      | @inside _ before outer he ho =>
          refine ⟨before, outer ++ .opn :: (seg ++ [.cls]), by simp, he, ?_⟩
          rw [hlast]
          exact ho seg hseg

theorem Consumed.read (h : Consumed reopen ts m) (hs : m.read reopen us = some m') :
    Consumed reopen (ts ++ us) m' := by
  induction us generalizing ts m with
  | nil =>
      cases hs
      rwa [List.append_nil]
  | cons t us ih =>
      rw [Mark.read_cons] at hs
      obtain ⟨m1, h1, h2⟩ := Option.bind_eq_some_iff.mp hs
      have hrest := ih (h.next h1) h2
      rwa [List.append_assoc] at hrest

/-- **The reader accepts exactly the grammar.** -/
theorem accepts_iff : Accepts reopen ts ↔ Derives reopen .config ts := by
  constructor
  · intro ⟨m, hr, hend, hdepth⟩
    have hstart : Consumed (W := W) reopen [] ⟨none, 0⟩ :=
      ⟨[], [], rfl, .outermost, rfl⟩
    obtain ⟨before, seg, heq, he, hp⟩ := hstart.read hr
    rw [hdepth] at he
    cases he
    rw [List.nil_append] at heq
    rw [heq]
    rcases hend with hlast | hlast
    · rw [hlast] at hp
      exact hp
    · rw [hlast] at hp
      exact hp
  · intro h
    obtain ⟨m, hr, hdepth, hend⟩ := h.read ⟨none, 0⟩
    rcases hend with hend | ⟨hn, _⟩
    · exact ⟨m, hr, hend, hdepth⟩
    · cases hn

end Reader

/-! ### Neighbours -/

/-- Every lexeme is related to the one right before it; `last` is what comes before the first. -/
def Chained (R : Option (Lexeme W) → Lexeme W → Prop) : Option (Lexeme W) → List (Lexeme W) → Prop
  | _, [] => True
  | last, t :: ts => R last t ∧ Chained R (some t) ts

/-- A `{` comes right after a word. -/
def AfterWord (last : Option (Lexeme W)) (t : Lexeme W) : Prop :=
  t = .opn → ∃ w, last = some (.word w)

/-- Two words in a row are `ok`. -/
def Agree (ok : W → W → Prop) (last : Option (Lexeme W)) (t : Lexeme W) : Prop :=
  ∀ v w, last = some (.word v) → t = .word w → ok v w

/-- A `{` does not come right after a `}`. -/
def NotAfterBlock (last : Option (Lexeme W)) (t : Lexeme W) : Prop := t = .opn → last ≠ some .cls

section Neighbours

variable {m m' : Mark W} {ts us : List (Lexeme W)} {t : Lexeme W}

theorem Chained.split {R : Option (Lexeme W) → Lexeme W → Prop} {last : Option (Lexeme W)}
    (h : Chained R last (ts ++ us)) : Chained R last ts ∧ ∃ last', Chained R last' us := by
  induction ts generalizing last with
  | nil => exact ⟨trivial, last, h⟩
  | cons t ts ih =>
      obtain ⟨hleft, hright⟩ := ih h.2
      exact ⟨⟨h.1, hleft⟩, hright⟩

/-- Words in a row are `ok` one by one. -/
theorem Chained.words {ok : W → W → Prop} {last : Option (Lexeme W)} {ws : List W}
    (h : Chained (Agree ok) last (words ws)) : ws.IsChain ok := by
  induction ws generalizing last with
  | nil => exact .nil
  | cons v ws ih =>
      cases ws with
      | nil => exact .singleton v
      | cons w ws => exact .cons_cons (h.2.1 v w rfl rfl) (ih h.2)

theorem Mark.next_last {reopen : Bool} (h : m.next reopen t = some m') : m'.last = some t := by
  cases t with
  | word w => cases h; rfl
  | semi => rw [(Mark.next_semi.mp h).2]
  | opn => rw [(Mark.next_opn.mp h).2]
  | cls => exact (Mark.next_cls.mp h).2.2

/-- Without the further rule the reader asks for a word before each `{`, and for nothing else
    besides. -/
theorem Mark.next_false : m.next false t = some m' ↔
    m.next true t = some m' ∧ AfterWord m.last t := by
  cases t with
  | word w => simp [Mark.next, AfterWord]
  | semi => simp [Mark.next_semi, AfterWord]
  | cls => simp [Mark.next_cls, AfterWord]
  | opn =>
      simp only [Mark.next_opn, AfterWord, Bool.false_eq_true, false_and, or_false, true_and,
        forall_true_left]
      constructor
      · intro ⟨hw, heq⟩
        exact ⟨⟨Or.inl hw, heq⟩, hw⟩
      · intro ⟨⟨_, heq⟩, hw⟩
        exact ⟨hw, heq⟩

theorem Mark.read_false : m.read false ts = some m' ↔
    m.read true ts = some m' ∧ Chained AfterWord m.last ts := by
  induction ts generalizing m with
  | nil => simp [Chained]
  | cons t ts ih =>
      simp only [Mark.read_cons, Option.bind_eq_some_iff, Chained]
      constructor
      · intro ⟨m1, h1, h2⟩
        obtain ⟨hnext, ha⟩ := Mark.next_false.mp h1
        obtain ⟨hread, hc⟩ := ih.mp h2
        rw [Mark.next_last h1] at hc
        exact ⟨⟨m1, hnext, hread⟩, ha, hc⟩
      · intro ⟨⟨m1, hnext, hread⟩, ha, hc⟩
        have h1 := Mark.next_false.mpr ⟨hnext, ha⟩
        rw [← Mark.next_last h1] at hc
        exact ⟨m1, h1, ih.mpr ⟨hread, hc⟩⟩

/-- **The grammar is the wider one on texts whose every `{` comes right after a word.** -/
theorem derives_false_iff :
    Derives false .config ts ↔ Derives true .config ts ∧ Chained AfterWord none ts := by
  rw [← accepts_iff, ← accepts_iff]
  unfold Accepts
  constructor
  · intro ⟨m, hr, hend⟩
    obtain ⟨hread, hc⟩ := Mark.read_false.mp hr
    exact ⟨⟨m, hread, hend⟩, hc⟩
  · intro ⟨⟨m, hread, hend⟩, hc⟩
    exact ⟨m, Mark.read_false.mpr ⟨hread, hc⟩, hend⟩

end Neighbours

/-! ## 3. Trees -/

/-- A statement: its words, and the block it opens. -/
inductive Statement (W : Type) where
  | mk (tokens : List W) (childBlock : Option (List (Statement W)))
  deriving Repr

mutual

/-- The text of a statement. -/
def Statement.lexemes : Statement W → List (Lexeme W)
  | .mk tokens none => words tokens ++ [.semi]
  | .mk tokens (some block) => words tokens ++ .opn :: (lexemesOf block ++ [.cls])

/-- The text of statements. -/
def lexemesOf : List (Statement W) → List (Lexeme W)
  | [] => []
  | s :: ss => s.lexemes ++ lexemesOf ss

end

mutual

/-- `P` holds of the words of the statement and of all statements in it. -/
def Statement.Every (P : List W → Prop) : Statement W → Prop
  | .mk tokens none => P tokens
  | .mk tokens (some block) => P tokens ∧ EveryOf P block

/-- `P` holds of the words of all the statements. -/
def EveryOf (P : List W → Prop) : List (Statement W) → Prop
  | [] => True
  | s :: ss => s.Every P ∧ EveryOf P ss

end

section Trees

variable {ts : List (Lexeme W)}

theorem lexemesOf_append (a b : List (Statement W)) :
    lexemesOf (a ++ b) = lexemesOf a ++ lexemesOf b := by
  induction a with
  | nil => rfl
  | cons s ss ih => simp only [List.cons_append, lexemesOf, ih, List.append_assoc]

theorem everyOf_append {P : List W → Prop} {a b : List (Statement W)} :
    EveryOf P (a ++ b) ↔ EveryOf P a ∧ EveryOf P b := by
  induction a with
  | nil => simp [EveryOf]
  | cons s ss ih => simp only [List.cons_append, EveryOf, ih, and_assoc]

mutual

theorem Statement.derives (s : Statement W) (h : s.Every (· ≠ [])) :
    Derives false .statement s.lexemes := by
  cases s with
  | mk tokens childBlock =>
      cases childBlock with
      | none => exact .simple h
      | some block => exact .block h.1 (derives_lexemesOf block h.2)

theorem derives_lexemesOf (ss : List (Statement W)) (h : EveryOf (· ≠ []) ss) :
    Derives false .statements (lexemesOf ss) := by
  cases ss with
  | nil => exact .nil
  | cons s ss => exact .cons (s.derives h.1) (derives_lexemesOf ss h.2)

end

mutual

theorem Statement.every_isChain {ok : W → W → Prop} (s : Statement W) {last : Option (Lexeme W)}
    (h : Chained (Agree ok) last s.lexemes) : s.Every (·.IsChain ok) := by
  cases s with
  | mk tokens childBlock =>
      cases childBlock with
      | none => exact h.split.1.words
      | some block =>
          obtain ⟨hwords, last', hrest⟩ := h.split
          exact ⟨hwords.words, everyOf_isChain block hrest.2.split.1⟩

/-- In the text of a tree it is within a statement that words follow each other. -/
theorem everyOf_isChain {ok : W → W → Prop} (ss : List (Statement W)) {last : Option (Lexeme W)}
    (h : Chained (Agree ok) last (lexemesOf ss)) : EveryOf (·.IsChain ok) ss := by
  cases ss with
  | nil => trivial
  | cons s ss =>
      obtain ⟨hs, last', hss⟩ := Chained.split h
      exact ⟨s.every_isChain hs, everyOf_isChain ss hss⟩

end

mutual

theorem Statement.Every.and {P Q : List W → Prop} (s : Statement W) (hp : s.Every P)
    (hq : s.Every Q) : s.Every fun ws => P ws ∧ Q ws := by
  cases s with
  | mk tokens childBlock =>
      cases childBlock with
      | none => exact ⟨hp, hq⟩
      | some block => exact ⟨⟨hp.1, hq.1⟩, EveryOf.and block hp.2 hq.2⟩

theorem EveryOf.and {P Q : List W → Prop} (ss : List (Statement W)) (hp : EveryOf P ss)
    (hq : EveryOf Q ss) : EveryOf (fun ws => P ws ∧ Q ws) ss := by
  cases ss with
  | nil => trivial
  | cons s ss => exact ⟨Statement.Every.and s hp.1 hq.1, EveryOf.and ss hp.2 hq.2⟩

end

mutual

theorem Statement.Every.mono {P Q : List W → Prop} (hpq : ∀ ws, P ws → Q ws) (s : Statement W)
    (h : s.Every P) : s.Every Q := by
  cases s with
  | mk tokens childBlock =>
      cases childBlock with
      | none => exact hpq tokens h
      | some block => exact ⟨hpq tokens h.1, EveryOf.mono hpq block h.2⟩

theorem EveryOf.mono {P Q : List W → Prop} (hpq : ∀ ws, P ws → Q ws) (ss : List (Statement W))
    (h : EveryOf P ss) : EveryOf Q ss := by
  cases ss with
  | nil => trivial
  | cons s ss => exact ⟨Statement.Every.mono hpq s h.1, EveryOf.mono hpq ss h.2⟩

end

mutual

/-- A property of each word of a statement. -/
theorem Statement.every_word_iff {P : W → Prop} (s : Statement W) :
    (s.Every fun ws => ∀ w ∈ ws, P w) ↔ ∀ w, Lexeme.word w ∈ s.lexemes → P w := by
  cases s with
  | mk tokens childBlock =>
      cases childBlock with
      | none => simp [Statement.Every, Statement.lexemes, words]
      | some block =>
          simp only [Statement.Every, everyOf_word_iff block, Statement.lexemes, words,
            List.mem_append, List.mem_map, List.mem_cons, List.not_mem_nil, or_false, reduceCtorEq,
            false_or, Lexeme.word.injEq, exists_eq_right, or_imp, forall_and]

theorem everyOf_word_iff {P : W → Prop} (ss : List (Statement W)) :
    (EveryOf (fun ws => ∀ w ∈ ws, P w) ss) ↔ ∀ w, Lexeme.word w ∈ lexemesOf ss → P w := by
  cases ss with
  | nil => simp [EveryOf, lexemesOf]
  | cons s ss =>
      simp only [EveryOf, Statement.every_word_iff s, everyOf_word_iff ss, lexemesOf,
        List.mem_append, or_imp, forall_and]

end

/-- What the grammar derives is the text of a tree. -/
theorem Derives.tree {n : Nonterminal} (h : Derives false n ts) :
    ∃ ss : List (Statement W), ts = lexemesOf ss ∧ EveryOf (· ≠ []) ss ∧
      (n ≠ .statements → ss ≠ []) := by
  induction h with
  | @simple ws hw =>
      exact ⟨[.mk ws none], by simp [lexemesOf, Statement.lexemes], ⟨hw, trivial⟩, by simp⟩
  | @block ws body hw _ ih =>
      obtain ⟨block, rfl, hblock, _⟩ := ih
      exact ⟨[.mk ws (some block)], by simp [lexemesOf, Statement.lexemes],
        ⟨⟨hw, hblock⟩, trivial⟩, by simp⟩
  | further hr => cases hr
  | nil => exact ⟨[], rfl, trivial, by simp⟩
  | cons _ _ ih1 ih2 | config _ _ ih1 ih2 =>
      obtain ⟨ss1, rfl, h1, hne⟩ := ih1
      obtain ⟨ss2, rfl, h2, _⟩ := ih2
      exact ⟨ss1 ++ ss2, (lexemesOf_append ss1 ss2).symm, everyOf_append.mpr ⟨h1, h2⟩,
        by simp [hne]⟩

/-- **The grammar derives exactly the texts of the trees.** -/
theorem derives_iff_lexemes : Derives false .config ts ↔
    ∃ ss : List (Statement W), ts = lexemesOf ss ∧ EveryOf (· ≠ []) ss ∧ ss ≠ [] := by
  constructor
  · intro h
    obtain ⟨ss, heq, hss, hne⟩ := h.tree
    exact ⟨ss, heq, hss, hne (by simp)⟩
  · rintro ⟨ss, rfl, hss, hne⟩
    cases ss with
    | nil => exact absurd rfl hne
    | cons s ss => exact .config (s.derives hss.1) (derives_lexemesOf ss hss.2)

end Trees

/-! ## 4. Places -/

/-- Where a block is in a tree: at each level, the index of the statement it belongs to. -/
abbrev Place := List Nat

/-- The block at a place. -/
def blockAt : List (Statement W) → Place → Option (List (Statement W))
  | ss, [] => some ss
  | ss, i :: p =>
    match ss[i]? with
    | some (.mk _ (some block)) => blockAt block p
    | _ => none

/-- The tree with the block at a place changed. -/
def modifyAt (f : List (Statement W) → List (Statement W)) :
    List (Statement W) → Place → List (Statement W)
  | ss, [] => f ss
  | ss, i :: p => ss.modify i fun
    | .mk tokens (some block) => .mk tokens (some (modifyAt f block p))
    | s => s

/-- A block that is being read: the statements before its last, and the words of its last, which
    has opened the next block. -/
structure Frame (W : Type) where
  before : List (Statement W)
  tokens : List W

/-- The tree: the open blocks, innermost first, around the innermost's statements. -/
def plug : List (Frame W) → List (Statement W) → List (Statement W)
  | [], focus => focus
  | f :: fs, focus => plug fs (f.before ++ [.mk f.tokens (some focus)])

/-- The place of the innermost open block. -/
def placeOf : List (Frame W) → Place
  | [] => []
  | f :: fs => placeOf fs ++ [f.before.length]

/-- The places of all open blocks, innermost first. -/
def placesOf : List (Frame W) → List Place
  | [] => [[]]
  | f :: fs => placeOf (f :: fs) :: placesOf fs

section Places

variable {fs : List (Frame W)} {focus : List (Statement W)}
  {f g : List (Statement W) → List (Statement W)}

theorem blockAt_append (ss : List (Statement W)) (p q : Place) :
    blockAt ss (p ++ q) = (blockAt ss p).bind (blockAt · q) := by
  induction p generalizing ss with
  | nil => rfl
  | cons i p ih =>
      simp only [List.cons_append, blockAt]
      split
      · exact ih _
      · rfl

theorem modifyAt_append (ss : List (Statement W)) (p q : Place) :
    modifyAt f ss (p ++ q) = modifyAt (fun block => modifyAt f block q) ss p := by
  induction p generalizing ss with
  | nil => rfl
  | cons i p ih =>
      simp only [List.cons_append, modifyAt]
      congr 1
      funext s
      split
      · rw [ih]
      · rfl

theorem blockAt_plug (fs : List (Frame W)) (focus : List (Statement W)) :
    blockAt (plug fs focus) (placeOf fs) = some focus := by
  induction fs generalizing focus with
  | nil => rfl
  | cons fr fs ih =>
      simp only [plug, placeOf]
      rw [blockAt_append, ih]
      simp [blockAt]

theorem modifyAt_plug (fs : List (Frame W)) (focus : List (Statement W)) :
    modifyAt f (plug fs focus) (placeOf fs) = plug fs (f focus) := by
  induction fs generalizing focus f with
  | nil => rfl
  | cons fr fs ih =>
      simp only [plug, placeOf]
      rw [modifyAt_append, ih]
      simp only [modifyAt]
      rw [List.modify_eq_take_cons_drop (by simp)]
      simp

/-! ### The path of the open blocks -/

/-- **Nested open blocks**, innermost first: the outermost is the whole tree, and each other one is
    the child block of the last statement of the block it is in. -/
inductive OpenPath (ss : List (Statement W)) : List Place → Prop
  | none : OpenPath ss []
  | outermost : OpenPath ss [[]]
  | child {place : Place} {stack : List Place} {before : List (Statement W)} {tokens : List W}
      {block : List (Statement W)} (h : OpenPath ss (place :: stack))
      (hlast : blockAt ss place = some (before ++ [.mk tokens (some block)])) :
      OpenPath ss ((place ++ [before.length]) :: place :: stack)

theorem placesOf_head (fs : List (Frame W)) : ∃ stack, placesOf fs = placeOf fs :: stack := by
  cases fs with
  | nil => exact ⟨[], rfl⟩
  | cons f fs => exact ⟨placesOf fs, rfl⟩

@[simp] theorem placesOf_length (fs : List (Frame W)) : (placesOf fs).length = fs.length + 1 := by
  induction fs with
  | nil => rfl
  | cons f fs ih => simp [placesOf, ih]

/-- The frames around the innermost block are such a path. -/
theorem openPath_plug (fs : List (Frame W)) (focus : List (Statement W)) :
    OpenPath (plug fs focus) (placesOf fs) := by
  induction fs generalizing focus with
  | nil => exact .outermost
  | cons f fs ih =>
      have hpath := ih (f.before ++ [.mk f.tokens (some focus)])
      obtain ⟨stack, hstack⟩ := placesOf_head fs
      have hplaces : placesOf (f :: fs) = (placeOf fs ++ [f.before.length]) :: placesOf fs := rfl
      rw [hstack] at hpath
      rw [hplaces, hstack]
      exact hpath.child (blockAt_plug fs _)

/-- Every open block is around the innermost one. -/
theorem prefix_of_mem_placesOf {p : Place} (h : p ∈ placesOf fs) : p <+: placeOf fs := by
  induction fs with
  | nil => exact (List.mem_singleton.mp h) ▸ List.prefix_rfl
  | cons f fs ih =>
      rcases List.mem_cons.mp h with rfl | h
      · exact List.prefix_rfl
      · exact (ih h).trans (List.prefix_append _ _)

/-! ### The words of a tree -/

/-- The words among lexemes. -/
def wordsIn : List (Lexeme W) → List W
  | [] => []
  | .word w :: ts => w :: wordsIn ts
  | _ :: ts => wordsIn ts

@[simp] theorem wordsIn_append (ts us : List (Lexeme W)) :
    wordsIn (ts ++ us) = wordsIn ts ++ wordsIn us := by
  induction ts with
  | nil => rfl
  | cons t ts ih => cases t <;> simp [wordsIn, ih]

@[simp] theorem wordsIn_words (ws : List W) : wordsIn (words ws) = ws := by
  induction ws with
  | nil => rfl
  | cons w ws ih => rw [words_cons, wordsIn, ih]

/-- The words of a block that is closed are those of a block that is open. -/
theorem wordsIn_block (tokens : List W) (block : List (Statement W)) :
    wordsIn (lexemesOf [.mk tokens (some block)]) = tokens ++ wordsIn (lexemesOf block) := by
  simp [lexemesOf, Statement.lexemes, wordsIn]

theorem wordsIn_simple (tokens : List W) : wordsIn (lexemesOf [.mk tokens none]) = tokens := by
  simp [lexemesOf, Statement.lexemes, wordsIn]

/-- The words of the innermost open block are the last of the tree. -/
theorem wordsIn_plug (fs : List (Frame W)) : ∃ before : List W, ∀ focus,
    wordsIn (lexemesOf (plug fs focus)) = before ++ wordsIn (lexemesOf focus) := by
  induction fs with
  | nil => exact ⟨[], fun _ => rfl⟩
  | cons f fs ih =>
      obtain ⟨before, hbefore⟩ := ih
      refine ⟨before ++ (wordsIn (lexemesOf f.before) ++ f.tokens), fun focus => ?_⟩
      rw [plug, hbefore, lexemesOf_append, wordsIn_append, wordsIn_block]
      simp only [List.append_assoc]

end Places

end Blocks
