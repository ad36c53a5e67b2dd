/-
  File:      Googolplex/Config/AddressMap.lean
  Subject:   THE PORT AND THE ADDRESS MAP, read off the finished tree.

  `walk` goes through a config in document order. `read_lexemesOf` follows the
  reader over the text of a tree: the tree is rebuilt, and what the directives
  set on the way is what the walk sets.

  * `parse_settings`: for every file that is accepted and misplaces no `{`.
-/
import Googolplex.Config.Grammar

namespace Googolplex.Config

open Cxx Blocks

/-! ## 1. The walk -/

/-- The words of a statement, pair by pair. -/
def Settings.words (enclosing : Option (Str × Str)) : List Str → Settings → Settings
  | [], σ => σ
  | [_], σ => σ
  | v :: w :: ws, σ => Settings.words enclosing (w :: ws) (σ.pair enclosing v w)

mutual

/-- A statement: its words, then its block. -/
def walkStatement (enclosing : Option (Str × Str)) : NginxConfigStatement → Settings → Settings
  | .mk tokens none, σ => σ.words enclosing tokens
  | .mk tokens (some block), σ =>
    let σ := walk (locationOf tokens) block (σ.words enclosing tokens)
    if block.isEmpty then σ.emptied (locationOf tokens) else σ

/-- **The statements of a block in document order.** -/
def walk (enclosing : Option (Str × Str)) : NginxConfig → Settings → Settings
  | [], σ => σ
  | s :: ss, σ => walk enclosing ss (walkStatement enclosing s σ)

end

/-! ## 2. The reader on the text of a tree -/

/-- A statement has words, and ports after `listen`. -/
def Worded (tokens : List Str) : Prop := tokens ≠ [] ∧ tokens.IsChain PortOk

section Read

/-- Words after a word. -/
theorem read_words_further {ss : NginxConfig} (ws : List Str) :
    ∀ {r : Reading} (pre : List Str) {v : Str}, r.focus = ss ++ [.mk (pre ++ [v]) none] →
      r.last = some (.word v) → (v :: ws).IsChain PortOk →
      ∃ u, r.read (words ws) = some { r with
        focus := ss ++ [.mk (pre ++ v :: ws) none]
        last := some (.word u)
        settings := r.settings.words r.enclosing (v :: ws) } := by
  induction ws with
  | nil =>
      intro r pre v hfocus hlast _
      refine ⟨v, ?_⟩
      obtain ⟨frames, focus, last, settings⟩ := r
      cases hfocus
      cases hlast
      rfl
  | cons w ws ih =>
      intro r pre v hfocus hlast hchain
      obtain ⟨hok, hrest⟩ := List.isChain_cons_cons.mp hchain
      have hpush : modifyBack (pushToken w) r.focus = ss ++ [.mk (pre ++ [v] ++ [w]) none] := by
        rw [hfocus, modifyBack_append]
        rfl
      rw [words_cons, Reading.read_cons, Reading.step_further hlast, if_pos hok, hpush]
      obtain ⟨u, hu⟩ := ih (r := { r with
        focus := ss ++ [.mk (pre ++ [v] ++ [w]) none]
        last := some (.word w)
        settings := r.settings.pair r.enclosing v w }) (pre ++ [v]) rfl rfl hrest
      have hassoc : pre ++ [v] ++ w :: ws = pre ++ v :: w :: ws := by simp
      rw [hassoc] at hu
      exact ⟨u, hu⟩

/-- The words of a statement. -/
theorem read_words {r : Reading} {tokens : List Str} (ht : Worded tokens)
    (hlast : ∀ v, r.last ≠ some (.word v)) : ∃ u, r.read (words tokens) = some { r with
      focus := r.focus ++ [.mk tokens none]
      last := some (.word u)
      settings := r.settings.words r.enclosing tokens } := by
  obtain ⟨hne, hchain⟩ := ht
  cases tokens with
  | nil => exact absurd rfl hne
  | cons w ws =>
      rw [words_cons, Reading.read_cons, Reading.step_first hlast, Option.bind_some]
      exact read_words_further ws [] rfl rfl hchain

/-- The state after a text: the statements are there, the walk has been made, and the last
    lexeme is no word. -/
structure Reading.Walked (r r' : Reading) (ss : NginxConfig) : Prop where
  frames : r'.frames = r.frames
  focus : r'.focus = r.focus ++ ss
  settings : r'.settings = walk r.enclosing ss r.settings
  same : ss = [] → r'.last = r.last
  ended : ss ≠ [] → r'.last = some .semi ∨ r'.last = some .cls

section Walked

variable {r r' r'' : Reading} {ss ss' : NginxConfig}

theorem Reading.Walked.not_word (h : r.Walked r' ss) (hlast : ∀ v, r.last ≠ some (.word v)) :
    ∀ v, r'.last ≠ some (.word v) := by
  intro v hv
  by_cases hss : ss = []
  · rw [h.same hss] at hv
    exact hlast v hv
  · rcases h.ended hss with hl | hl <;> (rw [hl] at hv; cases hv)

theorem walk_append (enclosing : Option (Str × Str)) (σ : Settings) (ss ss' : NginxConfig) :
    walk enclosing (ss ++ ss') σ = walk enclosing ss' (walk enclosing ss σ) := by
  induction ss generalizing σ with
  | nil => rfl
  | cons s ss ih => exact ih _

theorem Reading.Walked.trans (h : r.Walked r' ss) (h' : r'.Walked r'' ss') :
    r.Walked r'' (ss ++ ss') where
  frames := h'.frames.trans h.frames
  focus := by rw [h'.focus, h.focus, List.append_assoc]
  settings := by
    have henclosing : r'.enclosing = r.enclosing := by
      unfold Reading.enclosing
      rw [h.frames]
    rw [h'.settings, henclosing, h.settings, walk_append]
  same hnil := by
    obtain ⟨hs, hs'⟩ := List.append_eq_nil_iff.mp hnil
    exact (h'.same hs').trans (h.same hs)
  ended hne := by
    by_cases hs' : ss' = []
    · rw [h'.same hs']
      refine h.ended fun hs => hne ?_
      rw [hs, hs']
      rfl
    · exact h'.ended hs'

/-- A `{` after the words of a statement, and the `}` of its block. -/
theorem Reading.Walked.block {tokens : List Str} {block : NginxConfig}
    (h : Reading.Walked ⟨⟨r.focus, tokens⟩ :: r.frames, [], some .opn,
      r.settings.words r.enclosing tokens⟩ r' block) :
    ∃ r'', r'.step .cls = some r'' ∧ r.Walked r'' [.mk tokens (some block)] := by
  have hfocus : r'.focus = block := h.focus
  have hsettings : r'.settings =
      walk (locationOf tokens) block (r.settings.words r.enclosing tokens) := h.settings
  by_cases hb : block = []
  · have hlast : r'.last = some .opn := h.same hb
    refine ⟨_, Reading.step_cls hlast (fun hw => hw) h.frames, rfl, ?_, ?_, by simp, fun _ => Or.inr rfl⟩
    · rw [hfocus]
    · simp only [walk, walkStatement, hb, List.isEmpty_nil, if_true]
      rw [hsettings, hb]
      rfl
  · have hl : ∃ l, r'.last = some l ∧ ¬ l.IsWord ∧ l ≠ .opn := by
      rcases h.ended hb with hl | hl
      · exact ⟨.semi, hl, fun hw => hw, nofun⟩
      · exact ⟨.cls, hl, fun hw => hw, nofun⟩
    obtain ⟨l, hlast, hl, hopn⟩ := hl
    refine ⟨_, Reading.step_cls hlast hl h.frames, rfl, ?_, ?_, by simp, fun _ => Or.inr rfl⟩
    · rw [hfocus]
    · have hempty : block.isEmpty = false := by simp [hb]
      simp only [walk, walkStatement, hempty, Bool.false_eq_true, if_false, if_neg hopn]
      exact hsettings

end Walked

mutual

/-- A statement. -/
theorem read_statement (s : NginxConfigStatement) (hs : s.Every Worded) (r : Reading)
    (hlast : ∀ v, r.last ≠ some (.word v)) :
    ∃ r', r.read s.lexemes = some r' ∧ r.Walked r' [s] := by
  cases s with
  | mk tokens childBlock =>
      cases childBlock with
      | none =>
          obtain ⟨u, hu⟩ := read_words hs hlast
          refine ⟨{ r with
            focus := r.focus ++ [.mk tokens none]
            last := some .semi
            settings := r.settings.words r.enclosing tokens }, ?_, rfl, rfl, rfl, by simp,
            fun _ => Or.inl rfl⟩
          rw [Statement.lexemes, Reading.read_append, hu]
          rfl
      | some block =>
          obtain ⟨u, hu⟩ := read_words hs.1 hlast
          obtain ⟨r1, h1, hw1⟩ := read_lexemesOf block hs.2 ⟨⟨r.focus, tokens⟩ :: r.frames, [],
            some .opn, r.settings.words r.enclosing tokens⟩ nofun
          obtain ⟨r2, h2, hw2⟩ := hw1.block
          refine ⟨r2, ?_, hw2⟩
          rw [Statement.lexemes, Reading.read_append, hu, Option.bind_some, Reading.read_cons,
            Reading.step_opn rfl, Option.bind_some, Reading.read_append, h1, Option.bind_some,
            Reading.read_cons, h2]
          rfl

/-- **The text of a tree is read, and walked.** -/
theorem read_lexemesOf (ss : NginxConfig) (hss : EveryOf Worded ss) (r : Reading)
    (hlast : ∀ v, r.last ≠ some (.word v)) :
    ∃ r', r.read (lexemesOf ss) = some r' ∧ r.Walked r' ss := by
  cases ss with
  | nil => exact ⟨r, rfl, rfl, by simp, rfl, fun _ => rfl, fun hne => absurd rfl hne⟩
  | cons s ss =>
      obtain ⟨r1, h1, hw1⟩ := read_statement s hss.1 r hlast
      obtain ⟨r2, h2, hw2⟩ := read_lexemesOf ss hss.2 r1 (hw1.not_word hlast)
      refine ⟨r2, ?_, hw1.trans hw2⟩
      rw [lexemesOf, Reading.read_append, h1]
      exact h2

end

end Read

/-! ## 3. What `Parse` leaves -/

/-- What is accepted and misplaces no `{` is the text of a tree with ports. -/
theorem tree_of_read {ts : List (Lexeme Str)} {r' : Reading}
    (hw : ∀ w, Lexeme.word w ∈ ts → w ≠ []) (hr : Reading.start.read ts = some r')
    (hfin : r'.Finished) (ho : OpensAfterWords ts) :
    ∃ ss : NginxConfig, ts = lexemesOf ss ∧ EveryOf Worded ss := by
  obtain ⟨hread, hports⟩ := (Reading.read_iff hw Reading.Fit.start).mp ⟨r', hr, rfl⟩
  have hdepth : r'.mark.depth = 0 := by
    show r'.frames.length = 0
    rw [hfin.2]
    rfl
  have hwide : Derives true .config ts := accepts_iff.mp ⟨r'.mark, hread, hfin.1, hdepth⟩
  obtain ⟨ss, rfl, hne, _⟩ := derives_iff_lexemes.mp (derives_false_iff.mpr ⟨hwide, ho⟩)
  exact ⟨ss, rfl, EveryOf.and ss hne (everyOf_isChain ss hports)⟩

/-- The tree of a file that is accepted and misplaces no `{` has its lexemes, and was walked. -/
theorem parse_walked {input : Str} {ts : List (Lexeme Str)} {s : ParserState}
    (hp : parse input [] ∅ = .ok (true, s)) (hd : Delivers input ts) (ho : OpensAfterWords ts) :
    lexemesOf s.config = ts ∧
      ∃ r' : Reading, s = r'.state ∧ r'.Fit ∧ r'.settings = walk none s.config ⟨-1, ∅⟩ := by
  obtain ⟨us, r', hd', hr, hfin, rfl⟩ := parse_true_iff.mp hp
  rw [← hd.unique hd'] at hr
  have hw : ∀ w, Lexeme.word w ∈ ts → w ≠ [] := fun w => hd.word_ne_nil
  obtain ⟨ss, rfl, hss⟩ := tree_of_read hw hr hfin ho
  obtain ⟨r1, hr1, hwalked⟩ := read_lexemesOf ss hss Reading.start nofun
  rw [hr] at hr1
  cases hr1
  have hconfig : r'.state.config = ss := by
    show plug r'.frames r'.focus = ss
    rw [hfin.2, hwalked.focus]
    rfl
  have hsettings : r'.settings = walk none ss ⟨-1, ∅⟩ := hwalked.settings
  rw [hconfig]
  exact ⟨rfl, r', rfl, Reading.Fit.start.read hw hr, hsettings⟩

/-- **The port and the address map are the walk's**, for every file that is accepted and misplaces
    no `{`; and each entry names its location. -/
theorem parse_settings {input : Str} {ts : List (Lexeme Str)} {s : ParserState}
    (hp : parse input [] ∅ = .ok (true, s)) (hd : Delivers input ts) (ho : OpensAfterWords ts) :
    s.port = (walk none s.config ⟨-1, ∅⟩).port ∧
      s.addrmap = (walk none s.config ⟨-1, ∅⟩).addrmap ∧
      ∀ (location : Str) (args : ConfigArg),
        s.addrmap[location]? = some args → args.location = location := by
  obtain ⟨_, r', rfl, hfit, hsettings⟩ := parse_walked hp hd ho
  rw [← hsettings]
  exact ⟨rfl, rfl, hfit.located⟩

/-- `parse_settings` for a location with a root. -/
theorem parse_settings_root : ∃ s, parse "location /a T \x7broot r;\x7d".toList [] ∅ = .ok (true, s) ∧
    s.addrmap = (walk none s.config ⟨-1, ∅⟩).addrmap := by
  have hp : ∃ s, parse "location /a T \x7broot r;\x7d".toList [] ∅ = .ok (true, s) := ⟨_, rfl⟩
  have hd : Delivers "location /a T \x7broot r;\x7d".toList [.word "location".toList,
      .word "/a".toList, .word "T".toList, .opn, .word "root".toList, .word "r".toList, .semi, .cls] :=
    .token rfl rfl (.token rfl rfl (.token rfl rfl (.token rfl rfl (.token rfl rfl
      (.token rfl rfl (.token rfl rfl (.token rfl rfl (.eof rfl))))))))
  obtain ⟨s, hs⟩ := hp
  refine ⟨s, hs, (parse_settings hs hd ?_).2.1⟩
  simp [OpensAfterWords, Chained, AfterWord]

end Googolplex.Config
