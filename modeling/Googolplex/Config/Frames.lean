/-
  File:      Googolplex/Config/Frames.lean
  Subject:   WHAT `Parse` KNOWS OF THE TREE: the open blocks, each cut right
             after the statement that opened the next, and the innermost.

  `Reading` is the abstract state, `Reading.step` what a lexeme does to it or
  that it does not fit. The places on `config_stack` are those of the open
  blocks (`Reading.state`), so the stack is the rightmost path of the tree.

  * `turn_of_step`, `turn_of_stuck`: one turn of the loop.
  * `parse_true_iff`: `Parse` returns true exactly if the lexemes are read.
  * `parse_ne_turns`: the bound on the model's loop is never reached.
-/
import Googolplex.Config.Parser

namespace Googolplex.Config

open Cxx Blocks

/-! ## 1. The port and the address map -/

/-- `*port` and `*addrmap`. -/
structure Settings where
  port : Int
  addrmap : AddrMap

/-- The entry of a location, a fresh one if there is none. -/
def Settings.entry (σ : Settings) (location : Str) : ConfigArg :=
  σ.addrmap[location]?.getD { location := location }

/-- **Two words in a row**, in a block of a location with a handler type, or in another block. -/
def Settings.pair (σ : Settings) (enclosing : Option (Str × Str)) (v w : Str) : Settings :=
  if v = "listen".toList then { σ with port := safeportSTOI w }
  else
    match enclosing with
    | none => σ
    | some (location, handlerType) =>
      if v = "root".toList ∨ v = "data_path".toList then
        let args := { σ.entry location with handlerType := handlerType, root := w }
        { σ with addrmap := σ.addrmap.insert location args }
      else if v = "api-key".toList then
        let args := { σ.entry location with handlerType := handlerType, apiKey := w }
        { σ with addrmap := σ.addrmap.insert location args }
      else σ

/-- **An empty block** of a location with a handler type, or another one. -/
def Settings.emptied (σ : Settings) : Option (Str × Str) → Settings
  | some (location, handlerType) =>
    let args : ConfigArg := { location := location, handlerType := handlerType }
    { σ with addrmap := σ.addrmap.insert location args }
  | none => σ

/-- Each entry names the location it is stored under. -/
def Settings.Located (σ : Settings) : Prop :=
  ∀ (location : Str) (args : ConfigArg),
    σ.addrmap[location]? = some args → args.location = location

/-- `listen` asks for a port. -/
def PortOk (v w : Str) : Prop := v = "listen".toList → safeportSTOI w ≠ -1

instance (v w : Str) : Decidable (PortOk v w) := inferInstanceAs (Decidable (_ → _))

section Settings

variable {σ : Settings} {enclosing : Option (Str × Str)} {v w : Str}

/-- What a block is opened by, if it is a location's. -/
theorem locationOf_eq_some {tokens : List Str} {location configType : Str} :
    locationOf tokens = some (location, configType) ↔
      ∃ pre, tokens = pre ++ ["location".toList, location, configType] := by
  unfold locationOf
  constructor
  · intro h
    split at h
    · rename_i t l k rest hrev
      split at h
      · rename_i hk
        cases h
        refine ⟨rest.reverse, ?_⟩
        rw [← List.reverse_reverse tokens, hrev, hk]
        simp
      · cases h
    · cases h
  · rintro ⟨pre, rfl⟩
    simp

theorem Settings.Located.insert (h : σ.Located) {location : Str} {args : ConfigArg}
    (ha : args.location = location) :
    Settings.Located { σ with addrmap := σ.addrmap.insert location args } := by
  intro l a hl
  rw [getElem?_assign] at hl
  split at hl
  · rename_i heq
    cases hl
    exact ha.trans heq
  · exact h l a hl

theorem Settings.Located.entry (h : σ.Located) (location : Str) :
    (σ.entry location).location = location := by
  unfold Settings.entry
  cases hl : σ.addrmap[location]? with
  | none => rfl
  | some args => exact h location args hl

theorem Settings.Located.pair (h : σ.Located) : (σ.pair enclosing v w).Located := by
  unfold Settings.pair
  split
  · exact h
  · split
    · exact h
    · split
      · exact h.insert (h.entry _)
      · split
        · exact h.insert (h.entry _)
        · exact h

theorem Settings.Located.emptied (h : σ.Located) : (σ.emptied enclosing).Located := by
  cases enclosing with
  | none => exact h
  | some l => exact h.insert rfl

/-- What the code does to an entry is what is done to it here. -/
theorem mapLocation_eq (h : σ.Located) (location handlerType : Str) (assign : ConfigArg → ConfigArg) :
    mapLocation σ.addrmap location handlerType assign =
      σ.addrmap.insert location (assign { σ.entry location with handlerType := handlerType }) := by
  unfold mapLocation Settings.entry
  cases hl : σ.addrmap[location]? with
  | none => rfl
  | some args =>
      obtain ⟨t, l, r, k⟩ := args
      have hloc : l = location := h location _ hl
      rw [hloc]
      rfl

end Settings

/-! ## 2. The abstract reader -/

/-- What has been read: the open blocks, the innermost one's statements, the last lexeme, and
    what the directives have set. -/
structure Reading where
  frames : List (Frame Str)
  focus : NginxConfig
  last : Option (Lexeme Str)
  settings : Settings

/-- The location whose block is the innermost open one. -/
def Reading.enclosing (r : Reading) : Option (Str × Str) :=
  match r.frames with
  | [] => none
  | f :: _ => locationOf f.tokens

/-- One lexeme. -/
def Reading.step (r : Reading) : Lexeme Str → Option Reading
  | .word w =>
    match r.last with
    | some (.word v) =>
      if PortOk v w then
        some { r with
          focus := modifyBack (pushToken w) r.focus
          last := some (.word w)
          settings := r.settings.pair r.enclosing v w }
      else none
    | _ => some { r with focus := r.focus ++ [.mk [w] none], last := some (.word w) }
  | .semi =>
    match r.last with
    | some (.word _) => some { r with last := some .semi }
    | _ => none
  | .opn =>
    match r.focus.getLast? with
    | some (.mk tokens _) => some { r with
        frames := ⟨r.focus.dropLast, tokens⟩ :: r.frames
        focus := []
        last := some .opn }
    | none => none
  | .cls =>
    match r.last, r.frames with
    | some (.word _), _ | none, _ | _, [] => none
    | some last, f :: fs => some { r with
        frames := fs
        focus := f.before ++ [.mk f.tokens (some r.focus)]
        last := some .cls
        settings := if last = .opn then r.settings.emptied (locationOf f.tokens) else r.settings }

section Step

variable {r : Reading} {v w : Str}

theorem Reading.step_further (hv : r.last = some (.word v)) : r.step (.word w) =
    if PortOk v w then
      some { r with
        focus := modifyBack (pushToken w) r.focus
        last := some (.word w)
        settings := r.settings.pair r.enclosing v w }
    else none := by
  simp only [Reading.step, hv]

theorem Reading.step_first (hlast : ∀ v, r.last ≠ some (.word v)) : r.step (.word w) =
    some { r with focus := r.focus ++ [.mk [w] none], last := some (.word w) } := by
  simp only [Reading.step]

theorem Reading.step_last {t : Lexeme Str} {r' : Reading} (h : r.step t = some r') :
    r'.last = some t := by
  unfold Reading.step at h
  grind

theorem Reading.step_semi {r' : Reading} : r.step .semi = some r' ↔
    (∃ v, r.last = some (.word v)) ∧ r' = { r with last := some .semi } := by
  obtain ⟨frames, focus, _ | (v | _ | _ | _), settings⟩ := r <;> simp [Reading.step, eq_comm]

theorem Reading.step_opn {ss : NginxConfig} {tokens : List Str} {c : Option NginxConfig}
    (h : r.focus = ss ++ [.mk tokens c]) : r.step .opn =
    some { r with frames := ⟨ss, tokens⟩ :: r.frames, focus := [], last := some .opn } := by
  simp [Reading.step, h]

/-- Where a `{` fits. -/
theorem Reading.step_opn_isSome {r' : Reading} (h : r.step .opn = some r') :
    ∃ ss tokens c, r.focus = ss ++ [.mk tokens c] := by
  rcases List.eq_nil_or_concat r.focus with hnil | ⟨ss, ⟨tokens, c⟩, hfocus⟩
  · simp [Reading.step, hnil] at h
  · exact ⟨ss, tokens, c, by rw [hfocus, List.concat_eq_append]⟩

theorem Reading.step_cls {l : Lexeme Str} {f : Frame Str} {fs : List (Frame Str)}
    (hlast : r.last = some l) (hl : ¬ l.IsWord) (hf : r.frames = f :: fs) : r.step .cls =
    some { r with
      frames := fs
      focus := f.before ++ [.mk f.tokens (some r.focus)]
      last := some .cls
      settings := if l = .opn then r.settings.emptied (locationOf f.tokens) else r.settings } := by
  cases l with
  | word v => exact absurd trivial hl
  | semi | opn | cls => simp only [Reading.step, hlast, hf]

/-- Where a `}` fits. -/
theorem Reading.step_cls_isSome {r' : Reading} (h : r.step .cls = some r') :
    ∃ l f fs, r.last = some l ∧ ¬ l.IsWord ∧ r.frames = f :: fs := by
  cases hlast : r.last with
  | none => simp [Reading.step, hlast] at h
  | some l =>
      cases hf : r.frames with
      | nil => cases l <;> simp [Reading.step, hlast, hf] at h
      | cons f fs =>
          refine ⟨l, f, fs, rfl, ?_, rfl⟩
          cases l with
          | word v => simp [Reading.step, hlast] at h
          | semi | opn | cls => exact fun hw => hw

end Step

/-- Lexemes in a row. -/
def Reading.read (r : Reading) (ts : List (Lexeme Str)) : Option Reading := ts.foldlM Reading.step r

/-- Nothing has been read. -/
def Reading.start : Reading := ⟨[], [], none, ⟨-1, ∅⟩⟩

/-- Nothing is open, and a statement has just ended. -/
def Reading.Finished (r : Reading) : Prop :=
  (r.last = some .semi ∨ r.last = some .cls) ∧ r.frames = []

/-- `last_token_type`. -/
def typeOf : Option (Lexeme Str) → TokenType
  | none => .start
  | some (.word _) => .normal
  | some .semi => .statementEnd
  | some .opn => .startBlock
  | some .cls => .endBlock

/-- **The variables of `Parse`**: the stack holds the places of the open blocks. -/
def Reading.state (r : Reading) : ParserState where
  config := plug r.frames r.focus
  configStack := placesOf r.frames
  lastTokenType := typeOf r.last
  remainingBracket := r.frames.length
  port := r.settings.port
  addrmap := r.settings.addrmap

/-- The last lexeme tells what the innermost block ends in; words are not empty, and entries name
    their location. -/
structure Reading.Fit (r : Reading) : Prop where
  empty : r.last = none ∨ r.last = some .opn → r.focus = []
  word : ∀ v, r.last = some (.word v) → ∃ ss ts, r.focus = ss ++ [.mk (ts ++ [v]) none]
  ended : r.last = some .semi ∨ r.last = some .cls → r.focus ≠ []
  filled : ∀ f ∈ r.frames, ∀ w ∈ f.tokens, w ≠ []
  focused : ∀ ss tokens c, r.focus = ss ++ [.mk tokens c] → ∀ w ∈ tokens, w ≠ []
  located : r.settings.Located

theorem Reading.Fit.start : Reading.start.Fit where
  empty _ := rfl
  word v h := by cases h
  ended h := by rcases h with h | h <;> cases h
  filled f hf := by cases hf
  focused ss tokens c h := absurd h.symm (List.append_ne_nil_of_right_ne_nil _ (List.cons_ne_nil _ _))
  located location args h := by
    have hnone : (∅ : AddrMap)[location]? = none := Std.ExtTreeMap.getElem?_empty
    exact absurd (hnone.symm.trans h) (by simp)

/-! ## 3. One turn of the loop -/

@[simp] theorem back_append (ss : NginxConfig) (s : NginxConfigStatement) :
    back (ss ++ [s]) = .ok s := by
  simp [back]

@[simp] theorem modifyBack_append (f : NginxConfigStatement → NginxConfigStatement)
    (ss : NginxConfig) (s : NginxConfigStatement) : modifyBack f (ss ++ [s]) = ss ++ [f s] := by
  simp [modifyBack]

@[simp] theorem top_placesOf (fs : List (Frame Str)) : top (placesOf fs) = .ok (placeOf fs) := by
  cases fs <;> rfl

/-- A pointer to an open block leads to its statements. -/
theorem statements_plug {s : ParserState} {fs : List (Frame Str)} {focus : NginxConfig}
    (h : s.config = plug fs focus) : s.statements (placeOf fs) = .ok focus := by
  unfold ParserState.statements
  rw [h, blockAt_plug]

section Turn

variable {r r' : Reading} {v w : Str}

/-- The statement below the top of the stack is the one that opened the block on top. -/
theorem mapEnclosing_state (assign : ConfigArg → ConfigArg) (hfilled : ∀ f ∈ r.frames, ∀ w ∈ f.tokens, w ≠ []) :
    mapEnclosing r.state assign = .ok (match r.enclosing with
      | none => r.state
      | some (location, configType) =>
        { r.state with addrmap := mapLocation r.state.addrmap location configType assign }) := by
  obtain ⟨frames, focus, last, settings⟩ := r
  cases frames with
  | nil => rfl
  | cons f fs =>
      have hne : placesOf fs ≠ [] := by cases fs <;> simp [placesOf]
      have hparent : ParserState.statements (Reading.state ⟨f :: fs, focus, last, settings⟩)
          (placeOf fs) = .ok (f.before ++ [.mk f.tokens (some focus)]) := statements_plug rfl
      have hpop : pop (Reading.state ⟨f :: fs, focus, last, settings⟩).configStack =
          .ok (placesOf fs) := rfl
      unfold mapEnclosing
      simp only [hpop, bind, Except.bind, if_neg hne, top_placesOf, hparent, back_append, pure,
        Except.pure, tokensOf, Reading.enclosing]
      cases hl : locationOf f.tokens with
      | none => rfl
      | some lt =>
          obtain ⟨location, configType⟩ := lt
          obtain ⟨pre, hpre⟩ := locationOf_eq_some.mp hl
          have hloc : location ≠ [] := hfilled f List.mem_cons_self location (by simp [hpre])
          have htype : configType ≠ [] := hfilled f List.mem_cons_self configType (by simp [hpre])
          simp only [Option.getD_some]
          rw [if_pos ⟨hloc, htype⟩]

/-- Two words in a row. -/
theorem directive_state (h : r.Fit) : directive r.state v w = .ok (if PortOk v w then
    some { r with settings := r.settings.pair r.enclosing v w }.state else none) := by
  have hmap := fun assign => mapEnclosing_state (r := r) assign h.filled
  have hentry := mapLocation_eq h.located
  have haddr : r.state.addrmap = r.settings.addrmap := rfl
  unfold directive Settings.pair
  split
  · rename_i hv
    simp only [PortOk, hv, forall_true_left, ne_eq]
    rfl
  · rename_i hv
    have hok : PortOk v w := fun h => absurd h hv
    rw [if_pos hok]
    split
    · rw [hmap]
      cases r.enclosing with
      | none => rfl
      | some lt =>
          simp only [Except.map, haddr, hentry]
          rfl
    · split
      · rw [hmap]
        cases r.enclosing with
        | none => rfl
        | some lt =>
            simp only [Except.map, haddr, hentry]
            rfl
      · cases r.enclosing <;> rfl

theorem typeOf_eq_normal {last : Option (Lexeme Str)} (h : typeOf last = .normal) :
    ∃ v, last = some (.word v) := by
  cases last with
  | none => cases h
  | some l =>
      cases l with
      | word v => exact ⟨v, rfl⟩
      | semi | opn | cls => cases h

/-- A word after a word. -/
theorem onNormal_further (h : r.Fit) (hv : r.last = some (.word v)) :
    onNormal r.state w = .ok (match r.step (.word w) with
      | some r' => .next { r'.state with lastTokenType := .normal }
      | none => .done false r.state) := by
  obtain ⟨ss, ts, hfocus⟩ := h.word v hv
  have htype : r.state.lastTokenType = .normal := by
    show typeOf r.last = .normal
    rw [hv]
    rfl
  have hstatements : r.state.statements (placeOf r.frames) = .ok r.focus := statements_plug rfl
  have hback : back r.focus = .ok (.mk (ts ++ [v]) none) := by rw [hfocus, back_append]
  have htop : top r.state.configStack = .ok (placeOf r.frames) := top_placesOf r.frames
  have hlastoken : (tokensOf (.mk (ts ++ [v]) none)).getLast? = some v := by simp [tokensOf]
  unfold onNormal
  simp only [htype, htop, hstatements, hback, hlastoken, directive_state h, Reading.step_further hv,
    bind, Except.bind, pure, Except.pure, if_true, ne_eq, not_true_eq_false, if_false, or_true]
  by_cases hok : PortOk v w
  · have hplug : modifyAt (modifyBack (pushToken w)) (plug r.frames r.focus) (placeOf r.frames) =
        plug r.frames (modifyBack (pushToken w) r.focus) := modifyAt_plug r.frames r.focus
    simp only [if_pos hok, Reading.state, hplug, hv, typeOf]
  · simp only [if_neg hok]

/-- A word after anything else. -/
theorem onNormal_first (hlast : ∀ v, r.last ≠ some (.word v)) :
    onNormal r.state w = .ok (match r.step (.word w) with
      | some r' => .next { r'.state with lastTokenType := typeOf r.last }
      | none => .done false r.state) := by
  have htype : r.state.lastTokenType ≠ .normal := by
    intro hn
    obtain ⟨v, hv⟩ := typeOf_eq_normal hn
    exact hlast v hv
  have hfits : r.state.lastTokenType = .start ∨ r.state.lastTokenType = .statementEnd ∨
      r.state.lastTokenType = .startBlock ∨ r.state.lastTokenType = .endBlock ∨
      r.state.lastTokenType = .normal := by
    show typeOf r.last = .start ∨ _
    cases hl : r.last with
    | none => simp [typeOf]
    | some l => cases l <;> simp [typeOf, Reading.state, hl]
  have hstatements : r.state.statements (placeOf r.frames) = .ok r.focus := statements_plug rfl
  have htop : top r.state.configStack = .ok (placeOf r.frames) := top_placesOf r.frames
  have hplug : modifyAt emplaceBack r.state.config (placeOf r.frames) =
      plug r.frames (r.focus ++ [.mk [] none]) := modifyAt_plug r.frames r.focus
  have hemplaced : ParserState.statements
      { r.state with config := plug r.frames (r.focus ++ [.mk [] none]) } (placeOf r.frames) =
        .ok (r.focus ++ [.mk [] none]) := statements_plug rfl
  have hpush : modifyAt (modifyBack (pushToken w)) (plug r.frames (r.focus ++ [.mk [] none]))
      (placeOf r.frames) = plug r.frames (r.focus ++ [.mk [w] none]) := by
    rw [modifyAt_plug, modifyBack_append]
    rfl
  unfold onNormal
  rw [if_pos hfits]
  simp only [htop, hstatements, bind, Except.bind, ne_eq, htype, not_false_eq_true,
    if_true, hplug, hemplaced, back_append, tokensOf, List.getLast?_nil, pure, Except.pure, hpush,
    Reading.step_first hlast]
  rfl

/-- A word. -/
theorem onNormal_state (h : r.Fit) : onNormal r.state w = .ok (match r.step (.word w) with
    | some r' => .next { r'.state with lastTokenType := typeOf r.last }
    | none => .done false r.state) := by
  by_cases hlast : ∃ v, r.last = some (.word v)
  · obtain ⟨v, hv⟩ := hlast
    rw [onNormal_further h hv, hv]
    rfl
  · exact onNormal_first fun v hv => hlast ⟨v, hv⟩

/-- A `{`. -/
theorem onStartBlock_state : onStartBlock r.state = match r.step .opn with
    | some r' => .ok (.next { r'.state with lastTokenType := typeOf r.last })
    | none => .error .emptyVector := by
  have hstatements : ∀ b : Int, ParserState.statements { r.state with remainingBracket := b }
      (placeOf r.frames) = .ok r.focus := fun _ => statements_plug rfl
  have htop : top r.state.configStack = .ok (placeOf r.frames) := top_placesOf r.frames
  have hplug : modifyAt (modifyBack resetChildBlock) r.state.config (placeOf r.frames) =
      plug r.frames (modifyBack resetChildBlock r.focus) := modifyAt_plug r.frames r.focus
  unfold onStartBlock
  simp only [htop, hstatements, bind, Except.bind, pure, Except.pure, Reading.step]
  rcases List.eq_nil_or_concat r.focus with hnil | ⟨ss, ⟨tokens, child⟩, hfocus⟩
  · rw [hnil]
    rfl
  · rw [List.concat_eq_append] at hfocus
    rw [hplug, hfocus]
    simp only [back_append, modifyBack_append, resetChildBlock, List.getLast?_concat]
    simp [Reading.state, plug, placesOf, placeOf]

/-- A `}`. -/
theorem onEndBlock_of_step (hs : r.step .cls = some r') :
    onEndBlock r.state = .ok (.next { r'.state with lastTokenType := typeOf r.last }) := by
  obtain ⟨l, f, fs, hlast, hl, hf⟩ := Reading.step_cls_isSome hs
  rw [Reading.step_cls hlast hl hf] at hs
  cases hs
  obtain ⟨frames, focus, last, settings⟩ := r
  cases hlast
  cases hf
  have htop : top (placesOf fs) = .ok (placeOf fs) := top_placesOf fs
  have hparent : ∀ s : ParserState, s.config = plug (f :: fs) focus →
      s.statements (placeOf fs) = .ok (f.before ++ [.mk f.tokens (some focus)]) :=
    fun _ h => statements_plug h
  have hbracket : (((f :: fs).length : Nat) : Int) - 1 = (fs.length : Nat) := by simp
  unfold onEndBlock
  cases l with
  | word v => exact absurd trivial hl
  | semi | cls =>
      simp only [Reading.state, placesOf, pop, bind, Except.bind, pure, Except.pure, typeOf, plug,
        hbracket, ne_eq, reduceCtorEq, not_false_eq_true, not_true_eq_false, and_false, false_and,
        if_false]
  | opn =>
      simp only [Reading.state, placesOf, pop, bind, Except.bind, pure, Except.pure, typeOf, plug,
        hbracket, ne_eq, reduceCtorEq, not_false_eq_true, not_true_eq_false, and_false, false_and,
        if_false, if_true, htop]
      rw [hparent _ rfl]
      simp only [back_append, tokensOf, mapEmptyBlock, Settings.emptied]
      cases locationOf f.tokens <;> rfl

/-- A `}` that does not fit is an error, or closes the config itself. -/
theorem onEndBlock_of_stuck (hs : r.step .cls = none) :
    (∃ f, onEndBlock r.state = .error f) ∨ (∃ s, onEndBlock r.state = .ok (.done false s)) ∨
      ∃ s, onEndBlock r.state = .ok (.next s) ∧ s.configStack = [] ∧ s.remainingBracket = -1 := by
  by_cases hword : r.last = none ∨ ∃ v, r.last = some (.word v)
  · refine Or.inr (Or.inl ⟨{ r.state with remainingBracket := r.state.remainingBracket - 1 }, ?_⟩)
    unfold onEndBlock
    rcases hword with hlast | ⟨v, hlast⟩ <;> simp [Reading.state, hlast, typeOf, pure, Except.pure]
  · have hl : ∃ l, r.last = some l ∧ ¬ l.IsWord := by
      cases hlast : r.last with
      | none => exact absurd (Or.inl hlast) hword
      | some l =>
          refine ⟨l, rfl, ?_⟩
          cases l with
          | word v => exact absurd (Or.inr ⟨v, hlast⟩) hword
          | semi | opn | cls => exact fun hw => hw
    obtain ⟨l, hlast, hl⟩ := hl
    cases hf : r.frames with
    | cons f fs =>
        rw [Reading.step_cls hlast hl hf] at hs
        cases hs
    | nil =>
        unfold onEndBlock
        cases l with
        | word v => exact absurd trivial hl
        | semi | cls =>
            refine Or.inr (Or.inr ⟨{ r.state with remainingBracket := -1, configStack := [] }, ?_, rfl, rfl⟩)
            simp [Reading.state, hlast, hf, typeOf, pure, Except.pure, bind, Except.bind, placesOf, pop]
        | opn =>
            refine Or.inl ⟨.emptyStack, ?_⟩
            simp [Reading.state, hlast, hf, typeOf, bind, Except.bind, placesOf, pop, top]

/-! ### Any lexeme -/

variable {type : TokenType} {value : Str} {t : Lexeme Str}

/-- **A lexeme that fits**: the loop goes on, with the variables of what has been read. -/
theorem turn_of_step (h : r.Fit) (ht : lexeme value type = some t) (hs : r.step t = some r') :
    turn r.state type value = .ok (.next { r'.state with lastTokenType := typeOf r.last }) ∧
      typeOf r'.last = type := by
  rw [Reading.step_last hs]
  cases type with
  | normal =>
      cases ht
      refine ⟨?_, rfl⟩
      show onNormal r.state value = _
      rw [onNormal_state h, hs]
  | statementEnd =>
      cases ht
      refine ⟨?_, rfl⟩
      show onStatementEnd r.state = _
      obtain ⟨⟨v, hv⟩, rfl⟩ := Reading.step_semi.mp hs
      simp [onStatementEnd, Reading.state, hv, typeOf]
  | startBlock =>
      cases ht
      refine ⟨?_, rfl⟩
      show onStartBlock r.state = _
      rw [onStartBlock_state, hs]
  | endBlock =>
      cases ht
      exact ⟨onEndBlock_of_step hs, rfl⟩
  | start | comment | eof | error => cases ht

/-- **A lexeme that does not fit**: an error, a false answer, or the config itself is closed. -/
theorem turn_of_stuck (h : r.Fit) (ht : lexeme value type = some t) (hs : r.step t = none) :
    (∃ f, turn r.state type value = .error f) ∨
      (∃ s, turn r.state type value = .ok (.done false s)) ∨
      ∃ s, turn r.state type value = .ok (.next s) ∧ type = .endBlock ∧ s.configStack = [] ∧
        s.remainingBracket = -1 := by
  cases type with
  | normal =>
      cases ht
      refine Or.inr (Or.inl ⟨r.state, ?_⟩)
      show onNormal r.state value = _
      rw [onNormal_state h, hs]
  | statementEnd =>
      cases ht
      refine Or.inr (Or.inl ⟨r.state, ?_⟩)
      show onStatementEnd r.state = _
      have hlast : r.state.lastTokenType ≠ .normal := by
        intro hn
        obtain ⟨v, hv⟩ := typeOf_eq_normal hn
        simp [Reading.step, hv] at hs
      exact if_pos hlast
  | startBlock =>
      cases ht
      refine Or.inl ⟨.emptyVector, ?_⟩
      show onStartBlock r.state = _
      rw [onStartBlock_state, hs]
  | endBlock =>
      cases ht
      rcases onEndBlock_of_stuck hs with herr | hdone | ⟨s, hnext, hstack, hbracket⟩
      · exact Or.inl herr
      · exact Or.inr (Or.inl hdone)
      · exact Or.inr (Or.inr ⟨s, hnext, rfl, hstack, hbracket⟩)
  | start | comment | eof | error => cases ht

/-- What fits keeps what is known. -/
theorem Reading.Fit.step (h : r.Fit) (hw : ∀ w, t = .word w → w ≠ []) (hs : r.step t = some r') :
    r'.Fit := by
  have snoc : ∀ {ss ss' : NginxConfig} {tokens tokens' : List Str} {c c' : Option NginxConfig},
      ss ++ [Statement.mk tokens c] = ss' ++ [Statement.mk tokens' c'] → tokens = tokens' := by
    intro ss ss' tokens tokens' c c' heq
    have hlast := (List.append_inj' heq rfl).2
    cases hlast
    rfl
  cases t with
  | word w =>
      have hne : w ≠ [] := hw w rfl
      by_cases hlast : ∃ v, r.last = some (.word v)
      · obtain ⟨v, hv⟩ := hlast
        obtain ⟨ss, ts, hfocus⟩ := h.word v hv
        have hpush : modifyBack (pushToken w) r.focus = ss ++ [.mk (ts ++ [v] ++ [w]) none] := by
          rw [hfocus, modifyBack_append]
          rfl
        rw [Reading.step_further hv, hpush] at hs
        split at hs
        · cases hs
          refine ⟨fun he => ?_, fun u hu => ?_, fun he => ?_, h.filled, fun ss' tokens c heq x hx => ?_,
            h.located.pair⟩
          · rcases he with he | he <;> cases he
          · cases hu
            exact ⟨ss, ts ++ [v], rfl⟩
          · rcases he with he | he <;> cases he
          · rw [← snoc heq] at hx
            rcases List.mem_append.mp hx with hx | hx
            · exact h.focused ss (ts ++ [v]) none hfocus x hx
            · rw [List.mem_singleton.mp hx]
              exact hne
        · cases hs
      · rw [Reading.step_first fun v hv => hlast ⟨v, hv⟩] at hs
        cases hs
        refine ⟨fun he => ?_, fun u hu => ?_, fun he => ?_, h.filled, fun ss' tokens c heq x hx => ?_,
          h.located⟩
        · rcases he with he | he <;> cases he
        · cases hu
          exact ⟨r.focus, [], rfl⟩
        · rcases he with he | he <;> cases he
        · rw [← snoc heq] at hx
          rw [List.mem_singleton.mp hx]
          exact hne
  | semi =>
      obtain ⟨⟨v, hv⟩, rfl⟩ := Reading.step_semi.mp hs
      obtain ⟨ss, ts, hfocus⟩ := h.word v hv
      refine ⟨fun he => ?_, fun u hu => ?_, fun _ => ?_, h.filled, h.focused, h.located⟩
      · rcases he with he | he <;> cases he
      · cases hu
      · rw [hfocus]
        simp
  | opn =>
      obtain ⟨ss, tokens, c, hfocus⟩ := Reading.step_opn_isSome hs
      rw [Reading.step_opn hfocus] at hs
      cases hs
      refine ⟨fun _ => rfl, fun u hu => ?_, fun he => ?_, fun f hf => ?_, fun ss' tokens c heq => ?_,
        h.located⟩
      · cases hu
      · rcases he with he | he <;> cases he
      · rcases List.mem_cons.mp hf with rfl | hf
        · exact h.focused ss tokens c hfocus
        · exact h.filled f hf
      · simp at heq
  | cls =>
      obtain ⟨l, f, fs, hlast, hl, hf⟩ := Reading.step_cls_isSome hs
      rw [Reading.step_cls hlast hl hf] at hs
      cases hs
      have hfilled : ∀ g ∈ f :: fs, ∀ x ∈ g.tokens, x ≠ [] := by
        rw [← hf]
        exact h.filled
      refine ⟨fun he => ?_, fun u hu => ?_, fun _ => by simp, fun g hg => ?_,
        fun ss' tokens c heq => ?_, ?_⟩
      · rcases he with he | he <;> cases he
      · cases hu
      · exact hfilled g (List.mem_cons_of_mem _ hg)
      · rw [← snoc heq]
        exact hfilled f List.mem_cons_self
      · show Settings.Located (if l = .opn then _ else _)
        split
        · exact h.located.emptied
        · exact h.located

end Turn

/-! ## 4. The loop -/

section Loop

variable {r r' : Reading} {input : Str} {ts : List (Lexeme Str)} {s : ParserState}

theorem Reading.read_cons (r : Reading) (t : Lexeme Str) (ts : List (Lexeme Str)) :
    r.read (t :: ts) = (r.step t).bind (·.read ts) := rfl

theorem Reading.read_append (r : Reading) (ts us : List (Lexeme Str)) :
    r.read (ts ++ us) = (r.read ts).bind (·.read us) :=
  List.foldlM_append

theorem Reading.Fit.read (h : r.Fit) (hw : ∀ w, Lexeme.word w ∈ ts → w ≠ [])
    (hr : r.read ts = some r') : r'.Fit := by
  induction ts generalizing r with
  | nil =>
      cases hr
      exact h
  | cons t ts ih =>
      rw [Reading.read_cons] at hr
      obtain ⟨r1, h1, h2⟩ := Option.bind_eq_some_iff.mp hr
      have hfit := h.step (fun w hw' => hw w (hw' ▸ List.mem_cons_self)) h1
      exact ih hfit (fun w hm => hw w (List.mem_cons_of_mem _ hm)) h2

/-- The end of the file is the end of the loop. -/
theorem onEof_done (s : ParserState) : ∃ valid, onEof s = .done valid s := by
  unfold onEof
  split
  · exact ⟨_, rfl⟩
  · split <;> exact ⟨_, rfl⟩

/-- At the end of the file the loop does not go on. -/
theorem turn_eof {s' : ParserState} : turn s .eof value ≠ .ok (.next s') := by
  intro h
  obtain ⟨valid, hdone⟩ := onEof_done s
  simp only [turn, hdone] at h
  cases h

/-- The end of the file. -/
theorem onEof_state (r : Reading) : (onEof r.state = .done true r.state ∧ r.Finished) ∨
    (onEof r.state = .done false r.state ∧ ¬ r.Finished) := by
  obtain ⟨frames, focus, last, settings⟩ := r
  unfold onEof Reading.Finished Reading.state
  rcases last with _ | (v | _ | _ | _) <;> cases frames <;> simp [typeOf]
  all_goals omega

/-- Once the config itself is closed nothing makes the answer true. -/
theorem parseLoop_closed (hlast : s.lastTokenType = .endBlock) (hstack : s.configStack = [])
    (hbracket : s.remainingBracket = -1) :
    ∀ turns input s', parseLoop turns s input ≠ .ok (true, s')
  | 0, input, s' => nofun
  | turns + 1, input, s' => by
      unfold parseLoop
      obtain ⟨type, value, rest⟩ := parseToken input
      cases type with
      | comment => exact parseLoop_closed hlast hstack hbracket turns rest s'
      | start | error => simp [turn]
      | normal => simp [turn, onNormal, hlast, hstack, top, bind, Except.bind]
      | statementEnd => simp [turn, onStatementEnd, hlast]
      | startBlock => simp [turn, onStartBlock, hstack, top, bind, Except.bind]
      | endBlock => simp [turn, onEndBlock, hlast, hstack, pop, bind, Except.bind]
      | eof => simp [turn, onEof, hlast, hbracket]

variable {value rest : Str} {type : TokenType} {t : Lexeme Str}

theorem parseLoop_succ (hp : parseToken input = (type, value, rest)) (turns : Nat) :
    parseLoop (turns + 1) s input =
      if type = .error then .ok (false, s)
      else if type = .comment then parseLoop turns s rest
      else match turn s type value with
        | .error f => .error f
        | .ok (.done valid s) => .ok (valid, s)
        | .ok (.next s) => parseLoop turns { s with lastTokenType := type } rest := by
  obtain ⟨rfl, hvalue⟩ := Prod.mk.inj hp
  obtain ⟨rfl, rfl⟩ := Prod.mk.inj hvalue
  rfl

/-- A turn on a lexeme that fits. -/
theorem parseLoop_step (h : r.Fit) (hp : parseToken input = (type, value, rest))
    (ht : lexeme value type = some t) (hs : r.step t = some r') (turns : Nat) :
    parseLoop (turns + 1) r.state input = parseLoop turns r'.state rest := by
  obtain ⟨hturn, htype⟩ := turn_of_step h ht hs
  have hne : type ≠ .error ∧ type ≠ .comment := by
    constructor <;> (rintro rfl; cases ht)
  rw [parseLoop_succ hp, if_neg hne.1, if_neg hne.2, hturn, ← htype]
  rfl

/-- A turn on a comment. -/
theorem parseLoop_comment (hp : parseToken input = (.comment, value, rest)) (turns : Nat) :
    parseLoop (turns + 1) s input = parseLoop turns s rest := by
  rw [parseLoop_succ hp, if_neg (by decide), if_pos rfl]

/-- A lexeme of a file is no empty word. -/
theorem lexeme_ne_nil (hp : parseToken input = (type, value, rest))
    (ht : lexeme value type = some t) : ∀ w, t = .word w → w ≠ [] := by
  intro w hw
  have hword := parseToken_word input
  rw [hp] at hword
  cases type <;> cases ht <;> cases hw
  exact hword rfl

/-- **What the loop answers true to**: lexemes that are read, up to a state that is finished. -/
theorem parseLoop_true (turns : Nat) : ∀ {r : Reading} {input : Str}, r.Fit →
    parseLoop turns r.state input = .ok (true, s) →
    ∃ ts r', Delivers input ts ∧ r.read ts = some r' ∧ r'.Finished ∧ s = r'.state := by
  induction turns with
  | zero =>
      intro r input _ hr
      cases hr
  | succ turns ih =>
      intro r input h hr
      obtain ⟨type, value, rest, hp⟩ : ∃ type value rest, parseToken input = (type, value, rest) :=
        ⟨_, _, _, rfl⟩
      cases ht : lexeme value type with
      | some t =>
          cases hs : r.step t with
          | some r1 =>
              rw [parseLoop_step h hp ht hs] at hr
              obtain ⟨ts, r', hd, hread, hfin, rfl⟩ :=
                ih (h.step (lexeme_ne_nil hp ht) hs) hr
              refine ⟨t :: ts, r', .token hp ht hd, ?_, hfin, rfl⟩
              rw [Reading.read_cons, hs]
              exact hread
          | none =>
              have hne : type ≠ .error ∧ type ≠ .comment := by
                constructor <;> (rintro rfl; cases ht)
              rw [parseLoop_succ hp, if_neg hne.1, if_neg hne.2] at hr
              rcases turn_of_stuck h ht hs with
                ⟨f, hturn⟩ | ⟨s', hturn⟩ | ⟨s', hturn, htype, hstack, hbracket⟩
              · rw [hturn] at hr
                cases hr
              · rw [hturn] at hr
                cases hr
              · rw [hturn] at hr
                exact absurd hr
                  (parseLoop_closed (s := { s' with lastTokenType := type }) htype hstack hbracket turns rest s)
      | none =>
          cases type with
          | normal | statementEnd | startBlock | endBlock => cases ht
          | comment =>
              rw [parseLoop_comment hp] at hr
              obtain ⟨ts, r', hd, hread⟩ := ih h hr
              exact ⟨ts, r', .comment hp hd, hread⟩
          | start | error =>
              rw [parseLoop_succ hp] at hr
              simp [turn] at hr
          | eof =>
              rw [parseLoop_succ hp, if_neg (by decide), if_neg (by decide)] at hr
              rcases onEof_state r with ⟨heof, hfin⟩ | ⟨heof, _⟩
              · simp only [turn, heof] at hr
                cases hr
                exact ⟨[], r, .eof hp, rfl, hfin, rfl⟩
              · simp only [turn, heof] at hr
                cases hr

/-- **Lexemes that are read are answered** by whether the reader is finished. -/
theorem parseLoop_read (hd : Delivers input ts) : ∀ {r : Reading} (turns : Nat), r.Fit →
    r.read ts = some r' → input.length < turns →
      (parseLoop turns r.state input = .ok (true, r'.state) ∧ r'.Finished) ∨
      (parseLoop turns r.state input = .ok (false, r'.state) ∧ ¬ r'.Finished) := by
  induction hd with
  | @eof input value rest hp =>
      intro r turns h hr hlt
      have heq : r = r' := Option.some.inj hr
      subst heq
      obtain ⟨turns, rfl⟩ := Nat.exists_eq_succ_of_ne_zero (show turns ≠ 0 by omega)
      rw [parseLoop_succ hp, if_neg (by decide), if_neg (by decide)]
      rcases onEof_state r with ⟨heof, hfin⟩ | ⟨heof, hfin⟩
      · refine Or.inl ⟨?_, hfin⟩
        simp only [turn, heof]
      · refine Or.inr ⟨?_, hfin⟩
        simp only [turn, heof]
  | @comment input value rest ts hp _ ih =>
      intro r turns h hr hlt
      obtain ⟨turns, rfl⟩ := Nat.exists_eq_succ_of_ne_zero (show turns ≠ 0 by omega)
      have hlen : rest.length < input.length := parseToken_shorter hp (by decide)
      rw [parseLoop_comment hp]
      exact ih turns h hr (by omega)
  | @token input value rest type t ts hp ht _ ih =>
      intro r turns h hr hlt
      obtain ⟨turns, rfl⟩ := Nat.exists_eq_succ_of_ne_zero (show turns ≠ 0 by omega)
      have hlen : rest.length < input.length := lexeme_shorter hp ht
      rw [Reading.read_cons] at hr
      obtain ⟨r1, hs, hrest⟩ := Option.bind_eq_some_iff.mp hr
      rw [parseLoop_step h hp ht hs]
      exact ih turns (h.step (lexeme_ne_nil hp ht) hs) hrest (by omega)

/-- **`Parse` returns true** exactly if the file's lexemes are read to the end. -/
theorem parse_true_iff : parse input [] ∅ = .ok (true, s) ↔
    ∃ ts r', Delivers input ts ∧ Reading.start.read ts = some r' ∧ r'.Finished ∧ s = r'.state := by
  constructor
  · intro h
    exact parseLoop_true _ Reading.Fit.start h
  · rintro ⟨ts, r', hd, hr, hfin, rfl⟩
    rcases parseLoop_read hd (input.length + 1) Reading.Fit.start hr (by omega) with
      ⟨h, _⟩ | ⟨_, hnot⟩
    · exact h
    · exact absurd hfin hnot

/-! ### The bound on the loop -/

theorem bind_ne_turns {α β : Type} {x : Except Fault α} {f : α → Except Fault β}
    (hx : x ≠ .error .turns) (hf : ∀ a, f a ≠ .error .turns) : (x >>= f) ≠ .error .turns := by
  cases x with
  | error e =>
      intro h
      cases h
      exact hx rfl
  | ok a => exact hf a

theorem top_ne_turns (stack : List Place) : top stack ≠ .error .turns := by
  cases stack <;> exact nofun

theorem pop_ne_turns (stack : List Place) : pop stack ≠ .error .turns := by
  cases stack <;> exact nofun

theorem back_ne_turns (statements : NginxConfig) : back statements ≠ .error .turns := by
  unfold back
  split <;> exact nofun

theorem statements_ne_turns (s : ParserState) (place : Place) :
    s.statements place ≠ .error .turns := by
  unfold ParserState.statements
  split <;> exact nofun

theorem mapEnclosing_ne_turns (s : ParserState) (assign : ConfigArg → ConfigArg) :
    mapEnclosing s assign ≠ .error .turns := by
  have hlast : ∀ (location configType : Str), (if location ≠ [] ∧ configType ≠ [] then
      pure { s with addrmap := mapLocation s.addrmap location configType assign }
      else pure s : Except Fault ParserState) ≠ .error .turns := by
    intro location configType
    split <;> exact nofun
  refine bind_ne_turns (pop_ne_turns _) fun stack => ?_
  split
  · exact bind_ne_turns nofun fun lt => hlast lt.1 lt.2
  · refine bind_ne_turns (top_ne_turns _) fun place => ?_
    refine bind_ne_turns (statements_ne_turns _ _) fun statements => ?_
    exact bind_ne_turns (back_ne_turns _) fun parent => bind_ne_turns nofun fun lt => hlast lt.1 lt.2

theorem directive_ne_turns (s : ParserState) (lastoken token : Str) :
    directive s lastoken token ≠ .error .turns := by
  have hmap : ∀ assign, (mapEnclosing s assign).map some ≠ .error .turns := by
    intro assign h
    have hne := mapEnclosing_ne_turns s assign
    cases hm : mapEnclosing s assign with
    | error e =>
        rw [hm] at h hne
        cases h
        exact hne rfl
    | ok s' =>
        rw [hm] at h
        cases h
  unfold directive
  split
  · exact nofun
  · split
    · exact hmap _
    · split
      · exact hmap _
      · exact nofun

/-- No branch of the loop reaches its bound. -/
theorem turn_ne_turns (s : ParserState) (type : TokenType) (value : Str) :
    turn s type value ≠ .error .turns := by
  cases type with
  | start | comment | error | eof => exact nofun
  | statementEnd =>
      show onStatementEnd s ≠ _
      unfold onStatementEnd
      split <;> exact nofun
  | startBlock =>
      refine bind_ne_turns (top_ne_turns _) fun place => ?_
      refine bind_ne_turns (statements_ne_turns _ _) fun statements => ?_
      exact bind_ne_turns (back_ne_turns _) fun _ => nofun
  | endBlock =>
      show onEndBlock s ≠ _
      unfold onEndBlock
      dsimp only
      split
      · exact nofun
      · refine bind_ne_turns (pop_ne_turns _) fun stack => ?_
        split
        · refine bind_ne_turns (top_ne_turns _) fun place => ?_
          refine bind_ne_turns (statements_ne_turns _ _) fun statements => ?_
          exact bind_ne_turns (back_ne_turns _) fun _ => nofun
        · exact nofun
  | normal =>
      show onNormal s value ≠ _
      unfold onNormal
      split
      · refine bind_ne_turns (top_ne_turns _) fun place => ?_
        refine bind_ne_turns (statements_ne_turns _ _) fun _ => ?_
        refine bind_ne_turns (statements_ne_turns _ _) fun statements => ?_
        refine bind_ne_turns (back_ne_turns _) fun current => ?_
        dsimp only
        generalize (if s.lastTokenType ≠ .normal then
          { s with config := modifyAt emplaceBack s.config place } else s) = s'
        split
        · split
          · refine bind_ne_turns (directive_ne_turns _ _ _) fun s'' => ?_
            cases s'' <;> exact nofun
          · exact nofun
        · exact nofun
      · exact nofun

/-- **The bound on the loop is never reached.** -/
theorem parseLoop_turns (turns : Nat) : ∀ (s : ParserState) (input : Str), input.length < turns →
    parseLoop turns s input ≠ .error .turns := by
  induction turns with
  | zero =>
      intro s input hlt
      exact absurd hlt (Nat.not_lt_zero _)
  | succ turns ih =>
      intro s input hlt
      obtain ⟨type, value, rest, hp⟩ : ∃ type value rest, parseToken input = (type, value, rest) :=
        ⟨_, _, _, rfl⟩
      rw [parseLoop_succ hp]
      split
      · exact nofun
      · split
        · rename_i htype
          have hlen : rest.length < input.length := parseToken_shorter hp (by rw [htype]; decide)
          exact ih s rest (by omega)
        · split
          · rename_i f hturn
            intro h
            cases h
            exact turn_ne_turns s type value hturn
          · exact nofun
          · rename_i s' hturn
            have htype : type ≠ .eof := by
              rintro rfl
              exact turn_eof hturn
            have hlen : rest.length < input.length := parseToken_shorter hp htype
            exact ih _ rest (by omega)

theorem parse_ne_turns (input : Str) (config : NginxConfig) (addrmap : AddrMap) :
    parse input config addrmap ≠ .error .turns :=
  parseLoop_turns _ _ _ (Nat.lt_succ_self _)

end Loop

end Googolplex.Config
