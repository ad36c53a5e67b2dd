/-
  File:      Googolplex/Config/Leavings.lean
  Subject:   WHAT `Parse` LEAVES BEHIND, on every file.

  The tree, the port and the address map are filled as the lexemes come. They are
  what the reader has made of the lexemes before the first that does not fit it, and
  `Parse` tells no one that it stopped there but by its result.

  * `Lexed`: the lexemes of a file up to its end, or up to an error in a token.
  * `Reading.upTo`: what is read before the first lexeme that does not fit.
  * `parse_leaves`: the outcome of `Parse`, and what it has set.
-/
import Googolplex.Config.Grammar

namespace Googolplex.Config

open Cxx Blocks

/-! ## 1. The lexemes of any file -/

/-- **The lexemes of a file**, up to its end (`true`) or to a token that is an error (`false`). -/
inductive Lexed : Str → List (Lexeme Str) → Bool → Prop where
  | eof {input value rest : Str} (h : parseToken input = (.eof, value, rest)) : Lexed input [] true
  | bad {input value rest : Str} {type : TokenType} (h : parseToken input = (type, value, rest))
      (htype : type = .error ∨ type = .start) : Lexed input [] false
  | comment {input value rest : Str} {ts : List (Lexeme Str)} {whole : Bool}
      (h : parseToken input = (.comment, value, rest)) (hrest : Lexed rest ts whole) :
      Lexed input ts whole
  | token {input value rest : Str} {type : TokenType} {t : Lexeme Str} {ts : List (Lexeme Str)}
      {whole : Bool} (h : parseToken input = (type, value, rest)) (ht : lexeme value type = some t)
      (hrest : Lexed rest ts whole) : Lexed input (t :: ts) whole

theorem exists_lexed : ∀ (n : Nat) {input : Str}, input.length = n → ∃ ts whole, Lexed input ts whole := by
  intro n
  induction n using Nat.strong_induction_on with
  | _ n ih =>
      intro input hn
      obtain ⟨type, value, rest, hp⟩ : ∃ type value rest, parseToken input = (type, value, rest) :=
        ⟨_, _, _, rfl⟩
      have hrest (hne : type ≠ .eof) : ∃ ts whole, Lexed rest ts whole := by
        have hlen : rest.length < input.length := parseToken_shorter hp hne
        exact ih rest.length (by omega) rfl
      cases ht : lexeme value type with
      | some t =>
          have hne : type ≠ .eof := by
            rintro rfl
            cases ht
          obtain ⟨ts, whole, h⟩ := hrest hne
          exact ⟨t :: ts, whole, .token hp ht h⟩
      | none =>
          cases type with
          | normal | statementEnd | startBlock | endBlock => cases ht
          | eof => exact ⟨[], true, .eof hp⟩
          | start => exact ⟨[], false, .bad hp (Or.inr rfl)⟩
          | error => exact ⟨[], false, .bad hp (Or.inl rfl)⟩
          | comment =>
              obtain ⟨ts, whole, h⟩ := hrest nofun
              exact ⟨ts, whole, .comment hp h⟩

/-- A file is lexed in one way. -/
theorem Lexed.unique {input : Str} {ts us : List (Lexeme Str)} {whole whole' : Bool}
    (ht : Lexed input ts whole) (hu : Lexed input us whole') : ts = us ∧ whole = whole' := by
  induction ht generalizing us with
  | eof h =>
      cases hu with
      | eof => exact ⟨rfl, rfl⟩
      | bad h' htype => rw [h] at h'; cases h'; rcases htype with ht | ht <;> cases ht
      | comment h' => rw [h] at h'; cases h'
      | token h' hl => rw [h] at h'; cases h'; cases hl
  | bad h htype =>
      cases hu with
      | eof h' => rw [h] at h'; cases h'; rcases htype with ht | ht <;> cases ht
      | bad => exact ⟨rfl, rfl⟩
      | comment h' => rw [h] at h'; cases h'; rcases htype with ht | ht <;> cases ht
      | token h' hl =>
          rw [h] at h'
          cases h'
          rcases htype with rfl | rfl <;> cases hl
  | comment h _ ih =>
      cases hu with
      | eof h' => rw [h] at h'; cases h'
      | bad h' htype => rw [h] at h'; cases h'; rcases htype with ht | ht <;> cases ht
      | comment h' hrest => rw [h] at h'; cases h'; exact ih hrest
      | token h' hl => rw [h] at h'; cases h'; cases hl
  | token h hl _ ih =>
      cases hu with
      | eof h' => rw [h] at h'; cases h'; cases hl
      | bad h' htype =>
          rw [h] at h'
          cases h'
          rcases htype with rfl | rfl <;> cases hl
      | comment h' => rw [h] at h'; cases h'; cases hl
      | token h' hl' hrest =>
          rw [h] at h'
          cases h'
          rw [hl] at hl'
          cases hl'
          obtain ⟨rfl, rfl⟩ := ih hrest
          exact ⟨rfl, rfl⟩

/-- The files whose lexemes are delivered are those lexed to their end. -/
theorem Delivers.lexed {input : Str} {ts : List (Lexeme Str)} (h : Delivers input ts) :
    Lexed input ts true := by
  induction h with
  | eof hp => exact .eof hp
  | comment hp _ ih => exact .comment hp ih
  | token hp ht _ ih => exact .token hp ht ih

/-- A file that is lexed to its end delivers its lexemes. -/
theorem Lexed.delivers {input : Str} {ts : List (Lexeme Str)} (h : Lexed input ts true) :
    Delivers input ts := by
  generalize hwhole : true = whole at h
  induction h with
  | eof hp => exact .eof hp
  | bad => cases hwhole
  | comment hp _ ih => exact .comment hp (ih hwhole)
  | token hp ht _ ih => exact .token hp ht (ih hwhole)

/-! ## 2. Where the reader stops -/

/-- **What is read before the first lexeme that does not fit**, and the lexemes from there on. -/
def Reading.upTo (r : Reading) : List (Lexeme Str) → Reading × List (Lexeme Str)
  | [] => (r, [])
  | t :: ts =>
    match r.step t with
    | some r' => r'.upTo ts
    | none => (r, t :: ts)

/-- **The language leaves the outcome open**: the reader stopped at a `{` in a block without
    statements, or at a `}` that closes the config itself and is followed by more than a `;`. -/
def Undefined (r : Reading) : List (Lexeme Str) → Prop
  | .opn :: _ => True
  | .cls :: rest => (r.last = some .semi ∨ r.last = some .cls) ∧ ∃ t ts, rest = t :: ts ∧ t ≠ .semi
  | _ => False

section

variable {r r' : Reading} {input : Str} {ts : List (Lexeme Str)} {t : Lexeme Str} {s : ParserState}
  {whole : Bool}

theorem upTo_step (h : r.step t = some r') : r.upTo (t :: ts) = r'.upTo ts := by
  simp only [Reading.upTo, h]

theorem upTo_stuck (h : r.step t = none) : r.upTo (t :: ts) = (r, t :: ts) := by
  simp only [Reading.upTo, h]

/-- What is read to the end is read up to the end. -/
theorem upTo_of_read : ∀ {ts : List (Lexeme Str)} {r : Reading}, r.read ts = some r' →
    r.upTo ts = (r', [])
  | [], r, h => by
      cases h
      rfl
  | t :: ts, r, h => by
      rw [Reading.read_cons] at h
      obtain ⟨r1, hs, hrest⟩ := Option.bind_eq_some_iff.mp h
      rw [upTo_step hs]
      exact upTo_of_read hrest

/-- A block that was just opened is open. -/
theorem Reading.step_open (hs : r.step t = some r') (hlast : r'.last = some .opn) :
    r'.frames ≠ [] := by
  have ht : t = .opn := Option.some.inj ((Reading.step_last hs).symm.trans hlast)
  subst ht
  obtain ⟨ss, tokens, c, hfocus⟩ := Reading.step_opn_isSome hs
  rw [Reading.step_opn hfocus] at hs
  cases hs
  exact List.cons_ne_nil _ _

/-! ### A lexeme that does not fit -/

/-- **What `Parse` leaves** where the reader has stopped: no defined outcome, or what was set. -/
structure Leaves (r : Reading) (rest : List (Lexeme Str)) (x : Except Fault (Bool × ParserState)) :
    Prop where
  undefined : Undefined r rest → ∃ f, x = .error f
  defined : ¬ Undefined r rest →
    ∃ valid s, x = .ok (valid, s) ∧ s.config = r.state.config ∧ s.port = r.settings.port ∧
      s.addrmap = r.settings.addrmap

theorem leaves_of_ok {rest : List (Lexeme Str)} {valid : Bool} (hno : ¬ Undefined r rest)
    (hconfig : s.config = r.state.config) (hport : s.port = r.settings.port)
    (hmap : s.addrmap = r.settings.addrmap) : Leaves r rest (.ok (valid, s)) :=
  ⟨fun h => absurd h hno, fun _ => ⟨valid, s, rfl, hconfig, hport, hmap⟩⟩

theorem onEndBlock_refused (h : r.last = none ∨ ∃ v, r.last = some (.word v)) :
    ∃ s, onEndBlock r.state = .ok (.done false s) ∧ s.config = r.state.config ∧
      s.port = r.settings.port ∧ s.addrmap = r.settings.addrmap := by
  refine ⟨{ r.state with remainingBracket := r.state.remainingBracket - 1 }, ?_, rfl, rfl, rfl⟩
  unfold onEndBlock
  rcases h with hlast | ⟨v, hlast⟩ <;> simp [Reading.state, hlast, typeOf, pure, Except.pure]

/-- A `}` of the config itself: the loop goes on with nothing open. -/
theorem onEndBlock_shut (hlast : r.last = some .semi ∨ r.last = some .cls) (hf : r.frames = []) :
    onEndBlock r.state =
      .ok (.next { r.state with remainingBracket := -1, configStack := [] }) := by
  unfold onEndBlock
  rcases hlast with hlast | hlast <;>
    simp [Reading.state, hlast, hf, typeOf, pure, Except.pure, bind, Except.bind, placesOf, pop]

/-- **Once the config itself is closed** nothing is set any more, and only a `;`, the end or an error
    has a defined outcome. -/
theorem parseLoop_shut (hd : Lexed input ts whole) : ∀ {s : ParserState} (turns : Nat),
    s.lastTokenType = .endBlock → s.configStack = [] → s.remainingBracket = -1 →
    input.length < turns →
      ((∃ t us, ts = t :: us ∧ t ≠ .semi) → ∃ f, parseLoop turns s input = .error f) ∧
      ((¬ ∃ t us, ts = t :: us ∧ t ≠ .semi) → ∃ s', parseLoop turns s input = .ok (false, s') ∧
        s'.config = s.config ∧ s'.port = s.port ∧ s'.addrmap = s.addrmap) := by
  induction hd with
  | @eof input value rest hp =>
      intro s turns hlast hstack hbracket hlt
      obtain ⟨turns, rfl⟩ := Nat.exists_eq_succ_of_ne_zero (show turns ≠ 0 by omega)
      rw [parseLoop_succ hp, if_neg (by decide), if_neg (by decide)]
      refine ⟨?_, fun _ => ⟨s, ?_, rfl, rfl, rfl⟩⟩
      · rintro ⟨t, us, h, _⟩
        cases h
      · simp [turn, onEof, hlast, hbracket]
  | @bad input value rest type hp htype =>
      intro s turns hlast hstack hbracket hlt
      obtain ⟨turns, rfl⟩ := Nat.exists_eq_succ_of_ne_zero (show turns ≠ 0 by omega)
      rw [parseLoop_succ hp]
      refine ⟨?_, fun _ => ⟨s, ?_, rfl, rfl, rfl⟩⟩
      · rintro ⟨t, us, h, _⟩
        cases h
      · rcases htype with rfl | rfl <;> simp [turn]
  | @comment input value rest ts whole hp _ ih =>
      intro s turns hlast hstack hbracket hlt
      obtain ⟨turns, rfl⟩ := Nat.exists_eq_succ_of_ne_zero (show turns ≠ 0 by omega)
      have hlen : rest.length < input.length := parseToken_shorter hp (by decide)
      rw [parseLoop_comment hp]
      exact ih turns hlast hstack hbracket (by omega)
  | @token input value rest type t ts whole hp ht _ _ =>
      intro s turns hlast hstack hbracket hlt
      obtain ⟨turns, rfl⟩ := Nat.exists_eq_succ_of_ne_zero (show turns ≠ 0 by omega)
      rw [parseLoop_succ hp]
      cases type with
      | start | comment | eof | error => cases ht
      | statementEnd =>
          cases ht
          refine ⟨?_, fun _ => ⟨s, ?_, rfl, rfl, rfl⟩⟩
          · rintro ⟨t, us, h, hne⟩
            cases h
            exact absurd rfl hne
          · simp [turn, onStatementEnd, hlast]
      | normal =>
          cases ht
          refine ⟨fun _ => ⟨.emptyStack, ?_⟩, fun h => absurd ⟨_, _, rfl, by simp⟩ h⟩
          simp [turn, onNormal, hlast, hstack, top, bind, Except.bind]
      | startBlock =>
          cases ht
          refine ⟨fun _ => ⟨.emptyStack, ?_⟩, fun h => absurd ⟨_, _, rfl, by simp⟩ h⟩
          simp [turn, onStartBlock, hstack, top, bind, Except.bind]
      | endBlock =>
          cases ht
          refine ⟨fun _ => ⟨.emptyStack, ?_⟩, fun h => absurd ⟨_, _, rfl, by simp⟩ h⟩
          simp [turn, onEndBlock, hlast, hstack, pop, bind, Except.bind]

/-- **A lexeme that does not fit**: what is left is what was set before it. -/
theorem parseLoop_stuck {rest value : Str} {type : TokenType} (h : r.Fit)
    (hopen : r.last = some .opn → r.frames ≠ []) (hp : parseToken input = (type, value, rest))
    (ht : lexeme value type = some t) (hd : Lexed rest ts whole) (hs : r.step t = none) {turns : Nat}
    (hlt : rest.length < turns) : Leaves r (t :: ts) (parseLoop (turns + 1) r.state input) := by
  have hne : type ≠ .error ∧ type ≠ .comment := by
    constructor <;> (rintro rfl; cases ht)
  rw [parseLoop_succ hp, if_neg hne.1, if_neg hne.2]
  cases type with
  | start | comment | eof | error => cases ht
  | normal =>
      cases ht
      have hturn : turn r.state .normal value = .ok (.done false r.state) := by
        show onNormal r.state value = _
        rw [onNormal_state h, hs]
      rw [hturn]
      exact leaves_of_ok (fun hu => hu) rfl rfl rfl
  | statementEnd =>
      cases ht
      have hlast : r.state.lastTokenType ≠ .normal := by
        intro hn
        obtain ⟨v, hv⟩ := typeOf_eq_normal hn
        simp [Reading.step, hv] at hs
      have hturn : turn r.state .statementEnd value = .ok (.done false r.state) := if_pos hlast
      rw [hturn]
      exact leaves_of_ok (fun hu => hu) rfl rfl rfl
  | startBlock =>
      cases ht
      have hturn : turn r.state .startBlock value = .error .emptyVector := by
        show onStartBlock r.state = _
        rw [onStartBlock_state, hs]
      rw [hturn]
      exact ⟨fun _ => ⟨_, rfl⟩, fun hno => absurd trivial hno⟩
  | endBlock =>
      cases ht
      by_cases hlast : r.last = some .semi ∨ r.last = some .cls
      · -- the config itself is closed
        have hframes : r.frames = [] := by
          cases hf : r.frames with
          | nil => rfl
          | cons f fs => rcases hlast with hl | hl <;> simp [Reading.step, hl, hf] at hs
        have hturn : turn r.state .endBlock value =
            .ok (.next { r.state with remainingBracket := -1, configStack := [] }) :=
          onEndBlock_shut hlast hframes
        rw [hturn]
        obtain ⟨herror, hok⟩ := parseLoop_shut hd (s := { r.state with
          lastTokenType := .endBlock, remainingBracket := -1, configStack := [] }) turns rfl rfl rfl hlt
        refine ⟨fun hu => herror hu.2, fun hno => ?_⟩
        obtain ⟨s', hs', hleft⟩ := hok fun hmore => hno ⟨hlast, hmore⟩
        exact ⟨false, s', hs', hleft⟩
      · have hword : r.last = none ∨ ∃ v, r.last = some (.word v) := by
          cases hl : r.last with
          | none => exact Or.inl rfl
          | some l =>
              cases l with
              | word v => exact Or.inr ⟨v, rfl⟩
              | semi => exact absurd (Or.inl hl) hlast
              | cls => exact absurd (Or.inr hl) hlast
              | opn =>
                  obtain ⟨f, fs, hf⟩ := List.exists_cons_of_ne_nil (hopen hl)
                  rw [Reading.step_cls hl (fun hw => hw) hf] at hs
                  cases hs
        obtain ⟨s', hend, hconfig, hport, hmap⟩ := onEndBlock_refused hword
        have hturn : turn r.state .endBlock value = .ok (.done false s') := hend
        rw [hturn]
        exact leaves_of_ok (fun hu => hlast hu.1) hconfig hport hmap

/-- **The loop leaves** what the reader has set where it stops. -/
theorem parseLoop_leaves (hd : Lexed input ts whole) : ∀ {r : Reading} (turns : Nat), r.Fit →
    (r.last = some .opn → r.frames ≠ []) → input.length < turns →
      Leaves (r.upTo ts).1 (r.upTo ts).2 (parseLoop turns r.state input) := by
  induction hd with
  | @eof input value rest hp =>
      intro r turns h hopen hlt
      obtain ⟨turns, rfl⟩ := Nat.exists_eq_succ_of_ne_zero (show turns ≠ 0 by omega)
      rw [parseLoop_succ hp, if_neg (by decide), if_neg (by decide)]
      have heof : ∃ valid, turn r.state .eof value = .ok (.done valid r.state) := by
        rcases onEof_state r with ⟨heof, _⟩ | ⟨heof, _⟩
        · exact ⟨true, by simp only [turn, heof]⟩
        · exact ⟨false, by simp only [turn, heof]⟩
      obtain ⟨valid, heof⟩ := heof
      rw [heof]
      exact leaves_of_ok (fun hu => hu) rfl rfl rfl
  | @bad input value rest type hp htype =>
      intro r turns h hopen hlt
      obtain ⟨turns, rfl⟩ := Nat.exists_eq_succ_of_ne_zero (show turns ≠ 0 by omega)
      have hfalse : parseLoop (turns + 1) r.state input = .ok (false, r.state) := by
        rw [parseLoop_succ hp]
        rcases htype with rfl | rfl <;> simp [turn]
      rw [hfalse]
      exact leaves_of_ok (fun hu => hu) rfl rfl rfl
  | @comment input value rest ts whole hp _ ih =>
      intro r turns h hopen hlt
      obtain ⟨turns, rfl⟩ := Nat.exists_eq_succ_of_ne_zero (show turns ≠ 0 by omega)
      have hlen : rest.length < input.length := parseToken_shorter hp (by decide)
      rw [parseLoop_comment hp]
      exact ih turns h hopen (by omega)
  | @token input value rest type t ts whole hp ht hd ih =>
      intro r turns h hopen hlt
      obtain ⟨turns, rfl⟩ := Nat.exists_eq_succ_of_ne_zero (show turns ≠ 0 by omega)
      have hlen : rest.length < input.length := lexeme_shorter hp ht
      cases hs : r.step t with
      | some r1 =>
          rw [upTo_step hs, parseLoop_step h hp ht hs]
          exact ih turns (h.step (lexeme_ne_nil hp ht) hs) (Reading.step_open hs) (by omega)
      | none =>
          rw [upTo_stuck hs]
          exact parseLoop_stuck h hopen hp ht hd hs (by omega)

/-- **What `Parse` leaves behind**: nothing the language defines, or what the reader has set before the
    first lexeme that does not fit. -/
theorem parse_leaves (hd : Lexed input ts whole) :
    Leaves (Reading.start.upTo ts).1 (Reading.start.upTo ts).2 (parse input [] ∅) :=
  parseLoop_leaves hd (input.length + 1) Reading.Fit.start nofun (by omega)

/-- What is read up to a lexeme that does not fit keeps what is known. -/
theorem Reading.Fit.upTo (h : r.Fit) (hw : ∀ w, Lexeme.word w ∈ ts → w ≠ []) : (r.upTo ts).1.Fit := by
  induction ts generalizing r with
  | nil => exact h
  | cons t ts ih =>
      cases hs : r.step t with
      | none =>
          rw [upTo_stuck hs]
          exact h
      | some r1 =>
          rw [upTo_step hs]
          have hfit := h.step (fun w ht => hw w (ht ▸ List.mem_cons_self)) hs
          exact ih hfit fun w hm => hw w (List.mem_cons_of_mem _ hm)

theorem Lexed.word_ne_nil (h : Lexed input ts whole) {w : Str} (hw : Lexeme.word w ∈ ts) : w ≠ [] := by
  induction h with
  | eof => cases hw
  | bad => cases hw
  | comment _ _ ih => exact ih hw
  | token hp ht _ ih =>
      rcases List.mem_cons.mp hw with rfl | hw
      · exact lexeme_ne_nil hp ht _ rfl
      · exact ih hw

/-- **Each entry names the location it is stored under**, whatever the result of `Parse` is. -/
theorem parse_located {valid : Bool} (hp : parse input [] ∅ = .ok (valid, s)) (location : Str)
    (args : ConfigArg) (h : s.addrmap[location]? = some args) : args.location = location := by
  obtain ⟨ts, whole, hd⟩ := exists_lexed _ (rfl : input.length = _)
  have hleaves := parse_leaves hd
  by_cases hu : Undefined (Reading.start.upTo ts).1 (Reading.start.upTo ts).2
  · obtain ⟨f, hf⟩ := hleaves.undefined hu
    rw [hp] at hf
    cases hf
  · obtain ⟨valid', s', hs', _, _, hmap⟩ := hleaves.defined hu
    rw [hp] at hs'
    cases hs'
    rw [hmap] at h
    exact (Reading.Fit.start.upTo fun w => hd.word_ne_nil).located location args h

end

end Googolplex.Config
