/-
  File:      Googolplex/Config/BlockStack.lean
  Subject:   `config_stack` IS THE PATH OF THE OPEN BLOCKS, at the start of every
             iteration, for any config `Parse` is given.

  * `peekParent`: the `pop`, look and `push` of the `root`, `data_path` and
    `api-key` branches as they stand; `mapEnclosing_peek` connects it with the
    model of the branches.
  * `OnPath`: the invariant; `OnPath.turn`: a turn of the loop keeps it.
  * `stack_is_path`: what follows for the stack, the look at the enclosing
    statement, and the blocks that `reset` destroys.
-/
import Googolplex.Config.Iterations

namespace Googolplex.Config

open Cxx Blocks

/-! ## 1. The look below the top of the stack -/

/-- `currentlayer = top(); pop(); … top()->statements_.back()->tokens_ … push(currentlayer)`: the
    words that are read, if anything is left on the stack, and the stack afterwards. -/
def peekParent (s : ParserState) : Except Fault (Option (List Str) × List Place) := do
  let currentlayer ← top s.configStack
  let stack ← pop s.configStack
  if stack = [] then return (none, currentlayer :: stack)
  else
    let parent ← back (← s.statements (← top stack))
    return (some (tokensOf parent), currentlayer :: stack)

section

variable {s s' : ParserState} {frames : List (Frame Str)} {focus : NginxConfig} {v w value : Str}
  {type : TokenType} {parentToken : Option (List Str)} {stack : List Place}

/-- The stack is put back as it was. -/
theorem peekParent_stack (h : peekParent s = .ok (parentToken, stack)) : stack = s.configStack := by
  unfold peekParent at h
  cases hs : s.configStack with
  | nil =>
      rw [hs] at h
      cases h
  | cons place below =>
      rw [hs] at h
      simp only [top, pop, bind, Except.bind, pure, Except.pure] at h
      split at h
      · cases h
        rfl
      · split at h
        · cases h
        · split at h
          · cases h
          · split at h
            · cases h
            · cases h
              rfl

/-- **The branches of `root`, `data_path` and `api-key`** look below the top of the stack, and put it
    back. -/
theorem mapEnclosing_peek (s : ParserState) (assign : ConfigArg → ConfigArg) :
    mapEnclosing s assign = (peekParent s).map fun found =>
      let (location, configType) := (found.1.bind locationOf).getD ([], [])
      if location ≠ [] ∧ configType ≠ [] then
        { s with
          configStack := found.2
          addrmap := mapLocation s.addrmap location configType assign }
      else { s with configStack := found.2 } := by
  obtain ⟨config, stack, last, bracket, port, addrmap⟩ := s
  unfold mapEnclosing peekParent
  cases stack with
  | nil => rfl
  | cons place below =>
      cases below with
      | nil => rfl
      | cons parent rest =>
          simp only [top, pop, bind, Except.bind, pure, Except.pure, reduceCtorEq, if_false]
          cases ParserState.statements ⟨config, place :: parent :: rest, last, bracket, port, addrmap⟩
            parent with
          | error f => rfl
          | ok statements =>
              dsimp only
              cases back statements with
              | error f => rfl
              | ok statement =>
                  simp only [Except.map, Option.bind_some]
                  split <;> rfl

/-! ## 2. The invariant -/

/-- **What holds at the start of an iteration**: the stack holds the places of the open blocks, or is
    empty, once the config itself is closed; either way the brackets were counted. -/
inductive OnPath (s : ParserState) : Prop
  | opened {frames : List (Frame Str)} {focus : NginxConfig} (hconfig : s.config = plug frames focus)
      (hstack : s.configStack = placesOf frames) (hbracket : s.remainingBracket = frames.length)
  | shut (hstack : s.configStack = []) (hbracket : s.remainingBracket = -1)

/-- What leaves the blocks as they are keeps it. -/
theorem OnPath.congr (h : OnPath s) (hconfig : s'.config = s.config)
    (hstack : s'.configStack = s.configStack) (hbracket : s'.remainingBracket = s.remainingBracket) :
    OnPath s' := by
  cases h with
  | opened hc hs hb => exact .opened (hconfig.trans hc) (hstack.trans hs) (hbracket.trans hb)
  | shut hs hb => exact .shut (hstack.trans hs) (hbracket.trans hb)

/-- The directives set the port or the map. -/
theorem directive_blocks (h : directive s v w = .ok (some s')) : s'.config = s.config ∧
    s'.configStack = s.configStack ∧ s'.remainingBracket = s.remainingBracket := by
  have hmap : ∀ assign, (mapEnclosing s assign).map some = .ok (some s') →
      s'.config = s.config ∧ s'.configStack = s.configStack ∧
        s'.remainingBracket = s.remainingBracket := by
    intro assign hm
    rw [mapEnclosing_peek] at hm
    cases hp : peekParent s with
    | error f =>
        rw [hp] at hm
        cases hm
    | ok found =>
        obtain ⟨parentToken, stack⟩ := found
        have hstack := peekParent_stack hp
        rw [hp] at hm
        simp only [Except.map] at hm
        split at hm <;>
          (cases hm; exact ⟨rfl, hstack, rfl⟩)
  unfold directive at h
  split at h
  · dsimp only at h
    split at h
    · cases h
      exact ⟨rfl, rfl, rfl⟩
    · cases h
  · split at h
    · exact hmap _ h
    · split at h
      · exact hmap _ h
      · cases h
        exact ⟨rfl, rfl, rfl⟩

/-- A step of a `do` block that got through. -/
theorem bind_ok {α β : Type} {x : Except Fault α} {f : α → Except Fault β} {b : β}
    (h : (x >>= f) = .ok b) : ∃ a, x = .ok a ∧ f a = .ok b := by
  cases x with
  | error e => cases h
  | ok a => exact ⟨a, rfl, h⟩

/-- A word changes the statements of the innermost block only. -/
theorem onNormal_blocks (hconfig : s.config = plug frames focus)
    (hstack : s.configStack = placesOf frames) (h : onNormal s w = .ok (.next s')) :
    ∃ focus', s'.config = plug frames focus' ∧ s'.configStack = s.configStack ∧
      s'.remainingBracket = s.remainingBracket := by
  unfold onNormal at h
  split at h
  · obtain ⟨place, hplace, h⟩ := bind_ok h
    rw [hstack, top_placesOf] at hplace
    cases hplace
    obtain ⟨_, _, h⟩ := bind_ok h
    -- the statement that is begun, if the word is the first
    obtain ⟨s1, hs1⟩ : ∃ s1, s1 = (if s.lastTokenType ≠ .normal then
        { s with config := modifyAt emplaceBack s.config (placeOf frames) } else s) := ⟨_, rfl⟩
    have hblocks : ∃ focus1, s1.config = plug frames focus1 ∧ s1.configStack = s.configStack ∧
        s1.remainingBracket = s.remainingBracket := by
      rw [hs1]
      split
      · refine ⟨emplaceBack focus, ?_, rfl, rfl⟩
        rw [hconfig]
        exact modifyAt_plug frames focus
      · exact ⟨focus, hconfig, rfl, rfl⟩
    rw [← hs1] at h
    obtain ⟨focus1, hconfig1, hstack1, hbracket1⟩ := hblocks
    obtain ⟨_, _, h⟩ := bind_ok h
    obtain ⟨current, _, h⟩ := bind_ok h
    -- the word is pushed to what is there after the directive
    have hpush : ∀ s2 : ParserState, s2.config = s1.config ∧ s2.configStack = s1.configStack ∧
        s2.remainingBracket = s1.remainingBracket →
        s' = { s2 with config := modifyAt (modifyBack (pushToken w)) s2.config (placeOf frames) } →
        ∃ focus', s'.config = plug frames focus' ∧ s'.configStack = s.configStack ∧
          s'.remainingBracket = s.remainingBracket := by
      rintro s2 ⟨hc, hs, hb⟩ rfl
      refine ⟨modifyBack (pushToken w) focus1, ?_, hs.trans hstack1, hb.trans hbracket1⟩
      show modifyAt (modifyBack (pushToken w)) s2.config (placeOf frames) = _
      rw [hc, hconfig1]
      exact modifyAt_plug frames focus1
    dsimp only at h
    split at h
    · split at h
      · obtain ⟨s2, hs2, h⟩ := bind_ok h
        cases s2 with
        | none => cases h
        | some s2 =>
            cases h
            exact hpush s2 (directive_blocks hs2) rfl
      · cases h
        exact hpush s1 ⟨rfl, rfl, rfl⟩ rfl
    · cases h
      exact hpush s1 ⟨rfl, rfl, rfl⟩ rfl
  · cases h

/-- A `{` opens the child block of the last statement of the innermost block. -/
theorem onStartBlock_blocks (hconfig : s.config = plug frames focus)
    (hstack : s.configStack = placesOf frames) (h : onStartBlock s = .ok (.next s')) :
    ∃ before tokens child, focus = before ++ [.mk tokens child] ∧
      s'.config = plug (⟨before, tokens⟩ :: frames) [] ∧
      s'.configStack = placesOf (⟨before, tokens⟩ :: frames) ∧
      s'.remainingBracket = s.remainingBracket + 1 := by
  unfold onStartBlock at h
  obtain ⟨place, hplace, h⟩ := bind_ok h
  have hplace : top s.configStack = .ok place := hplace
  rw [hstack, top_placesOf] at hplace
  cases hplace
  obtain ⟨statements, hstatements, h⟩ := bind_ok h
  have hstatements : s.statements (placeOf frames) = .ok statements := hstatements
  rw [statements_plug hconfig] at hstatements
  cases hstatements
  obtain ⟨last, hlast, h⟩ := bind_ok h
  cases h
  rcases List.eq_nil_or_concat focus with hnil | ⟨before, ⟨tokens, child⟩, hfocus⟩
  · rw [hnil] at hlast
    cases hlast
  · rw [List.concat_eq_append] at hfocus
    refine ⟨before, tokens, child, hfocus, ?_, ?_, rfl⟩
    · show modifyAt (modifyBack resetChildBlock) s.config (placeOf frames) = _
      rw [hconfig, modifyAt_plug, hfocus, modifyBack_append]
      rfl
    · show (placeOf frames ++ [focus.length - 1]) :: s.configStack = _
      rw [hstack, hfocus]
      simp [placesOf, placeOf]

/-- A `}` takes the innermost block off the stack. -/
theorem onEndBlock_blocks (h : onEndBlock s = .ok (.next s')) :
    ∃ place, s.configStack = place :: s'.configStack ∧ s'.config = s.config ∧
      s'.remainingBracket = s.remainingBracket - 1 := by
  unfold onEndBlock at h
  dsimp only at h
  split at h
  · cases h
  · obtain ⟨stack, hpop, h⟩ := bind_ok h
    have hcons : ∃ place, s.configStack = place :: stack := by
      have hpop : pop s.configStack = .ok stack := hpop
      cases hs : s.configStack with
      | nil =>
          rw [hs] at hpop
          cases hpop
      | cons place below =>
          rw [hs] at hpop
          cases hpop
          exact ⟨place, rfl⟩
    obtain ⟨place, hcons⟩ := hcons
    split at h
    · obtain ⟨_, _, h⟩ := bind_ok h
      obtain ⟨_, _, h⟩ := bind_ok h
      obtain ⟨_, _, h⟩ := bind_ok h
      cases h
      exact ⟨place, hcons, rfl, rfl⟩
    · cases h
      exact ⟨place, hcons, rfl, rfl⟩

/-- **A turn of the loop** keeps the stack on the path, and opens one block at most. -/
theorem OnPath.turn (h : OnPath s) (hturn : turn s type value = .ok (.next s')) :
    OnPath s' ∧ s'.remainingBracket ≤ s.remainingBracket + 1 := by
  cases type with
  | start | comment | error => cases hturn
  | eof => exact absurd hturn turn_eof
  | statementEnd =>
      have hturn : onStatementEnd s = .ok (.next s') := hturn
      unfold onStatementEnd at hturn
      split at hturn
      · cases hturn
      · cases hturn
        exact ⟨h, by omega⟩
  | normal =>
      have hturn : onNormal s value = .ok (.next s') := hturn
      cases h with
      | opened hconfig hstack hbracket =>
          obtain ⟨focus', hconfig', hstack', hbracket'⟩ := onNormal_blocks hconfig hstack hturn
          exact ⟨.opened hconfig' (hstack'.trans hstack) (hbracket'.trans hbracket), by omega⟩
      | shut hstack hbracket =>
          unfold onNormal at hturn
          split at hturn
          · obtain ⟨place, hplace, _⟩ := bind_ok hturn
            rw [hstack] at hplace
            cases hplace
          · cases hturn
  | startBlock =>
      have hturn : onStartBlock s = .ok (.next s') := hturn
      cases h with
      | opened hconfig hstack hbracket =>
          obtain ⟨before, tokens, child, _, hconfig', hstack', hbracket'⟩ :=
            onStartBlock_blocks hconfig hstack hturn
          refine ⟨.opened hconfig' hstack' ?_, by omega⟩
          rw [hbracket', hbracket, List.length_cons]
          omega
      | shut hstack hbracket =>
          obtain ⟨place, hplace, _⟩ := bind_ok hturn
          have hplace : top s.configStack = .ok place := hplace
          rw [hstack] at hplace
          cases hplace
  | endBlock =>
      have hturn : onEndBlock s = .ok (.next s') := hturn
      obtain ⟨place, hcons, hconfig', hbracket'⟩ := onEndBlock_blocks hturn
      refine ⟨?_, by omega⟩
      cases h with
      | @opened frames focus hconfig hstack hbracket =>
          cases frames with
          | nil =>
              rw [hstack] at hcons
              have htail : [] = s'.configStack := (List.cons.inj hcons).2
              refine .shut htail.symm ?_
              rw [hbracket', hbracket]
              rfl
          | cons f fs =>
              rw [hstack] at hcons
              have htail : placesOf fs = s'.configStack := (List.cons.inj hcons).2
              have hplug : s'.config = plug fs (f.before ++ [.mk f.tokens (some focus)]) :=
                hconfig'.trans hconfig
              refine .opened hplug htail.symm ?_
              rw [hbracket', hbracket, List.length_cons]
              omega
      | shut hstack hbracket =>
          rw [hstack] at hcons
          cases hcons

/-! ## 3. Every iteration -/

/-- **At the start of every iteration** the stack is on the path, and no more blocks are open than
    calls of `ParseToken` were made. -/
theorem Head.onPath {input rest : Str} {config : NginxConfig} {addrmap : AddrMap} {calls : Nat}
    (h : Head input config addrmap calls s rest) : OnPath s ∧ s.remainingBracket ≤ calls := by
  induction h with
  | start => exact ⟨@OnPath.opened _ [] config rfl rfl rfl, le_refl _⟩
  | next _ hs ih =>
      obtain ⟨hpath, hle⟩ := ih
      obtain ⟨type, value, _, _, _, ⟨_, rfl⟩ | ⟨s1, hturn, rfl⟩⟩ := iterate_again hs
      · exact ⟨hpath, by omega⟩
      · obtain ⟨hpath1, hle1⟩ := hpath.turn hturn
        refine ⟨hpath1.congr rfl rfl rfl, ?_⟩
        show s1.remainingBracket ≤ _
        omega

/-- The blocks that `statements_.back()->child_block_.reset` destroys: the child block of the last
    statement of the block at `place`, and all that are in it. -/
def Destroyed (config : NginxConfig) (place q : Place) : Prop :=
  ∃ statements, blockAt config place = some statements ∧ place ++ [statements.length - 1] <+: q

/-- **The stack is the path of the open blocks.** -/
structure StackIsPath (s : ParserState) : Prop where
  /-- the bottom is the config passed in, each further element is the child block of the last
      statement of the one below -/
  path : OpenPath s.config s.configStack
  height : (s.configStack.length : Int) = s.remainingBracket + 1
  /-- below the top, `root`, `data_path` and `api-key` read the statement that opened the top -/
  opener : ∀ place below stack, s.configStack = place :: below :: stack →
    ∃ before tokens block, blockAt s.config below = some (before ++ [.mk tokens (some block)]) ∧
      blockAt s.config place = some block ∧ place = below ++ [before.length] ∧
      peekParent s = .ok (some tokens, s.configStack)
  outermost : ∀ place, s.configStack = [place] → peekParent s = .ok (none, s.configStack)
  kept : ∀ place q, top s.configStack = .ok place → q ∈ s.configStack →
    ¬ Destroyed s.config place q

theorem OnPath.stackIsPath (h : OnPath s) : StackIsPath s := by
  cases h with
  | shut hstack hbracket =>
      refine ⟨by rw [hstack]; exact .none, by rw [hstack, hbracket]; rfl, fun _ _ _ hs => ?_,
        fun _ hs => ?_, fun _ _ _ hq => ?_⟩
      · rw [hstack] at hs
        cases hs
      · rw [hstack] at hs
        cases hs
      · rw [hstack] at hq
        cases hq
  | @opened frames focus hconfig hstack hbracket =>
      refine ⟨?_, ?_, fun place below stack hs => ?_, fun place hs => ?_, fun place q hplace hq => ?_⟩
      · rw [hconfig, hstack]
        exact openPath_plug frames focus
      · rw [hstack, hbracket, placesOf_length]
        omega
      · cases frames with
        | nil =>
            rw [hstack] at hs
            cases hs
        | cons f fs =>
            obtain ⟨under, hunder⟩ := placesOf_head fs
            rw [hstack, placesOf, hunder] at hs
            cases hs
            have hparent : s.statements (placeOf fs) = .ok (f.before ++ [.mk f.tokens (some focus)]) :=
              statements_plug hconfig
            refine ⟨f.before, f.tokens, focus, ?_, ?_, rfl, ?_⟩
            · rw [hconfig]
              exact blockAt_plug fs _
            · rw [hconfig]
              exact blockAt_plug (f :: fs) focus
            · rw [hstack, placesOf, hunder]
              unfold peekParent
              rw [hstack, placesOf, hunder]
              simp only [top, pop, bind, Except.bind, pure, Except.pure, reduceCtorEq, if_false,
                hparent, back_append, tokensOf]
      · unfold peekParent
        rw [hs]
        rfl
      · rw [hstack] at hplace hq
        rw [top_placesOf] at hplace
        cases hplace
        rintro ⟨statements, _, hbelow⟩
        -- an open block is around the innermost one, not in it
        have hlen := (hbelow.trans (prefix_of_mem_placesOf hq)).length_le
        rw [List.length_append, List.length_singleton] at hlen
        omega

/-- **At the start of every iteration of `Parse`**, on any file and for any config, the stack is the
    path of the open blocks; and brackets are counted up to the length of the file at most. -/
theorem stack_is_path {input rest : Str} {config : NginxConfig} {addrmap : AddrMap} {calls : Nat}
    (h : Head input config addrmap calls s rest) :
    StackIsPath s ∧ s.remainingBracket ≤ input.length := by
  obtain ⟨hpath, hle⟩ := h.onPath
  have hcalls := h.calls_le
  exact ⟨hpath.stackIsPath, by omega⟩

/-- In the block of a location, where a further block was opened. -/
theorem stack_is_path_block : ∃ s, Head "location /a X\x7b b \x7b root r;".toList [] ∅ 6 s " root r;".toList ∧
    StackIsPath s := by
  have h : ∃ s, Head "location /a X\x7b b \x7b root r;".toList [] ∅ 6 s " root r;".toList :=
    ⟨_, .next (.next (.next (.next (.next (.next .start rfl) rfl) rfl) rfl) rfl) rfl⟩
  obtain ⟨s, h⟩ := h
  exact ⟨s, h, (stack_is_path h).1⟩

end

end Googolplex.Config
