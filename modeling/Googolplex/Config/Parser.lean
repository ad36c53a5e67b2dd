/-
  File:      Googolplex/Config/Parser.lean
  Subject:   `NginxConfigParser::Parse`: the loop over the tokens, the stack of
             open blocks, and the address map filled on the way.

  A `NginxConfig*` is the place of the block in the config that owns it, so a
  `reset` of a child block takes the block out of the tree and a place in it
  leads nowhere. What the language leaves undefined (`top` and `pop` of an empty
  stack, `back` of an empty vector, a pointer to a destroyed block) is an error
  of the model. `remaining_bracket` counts open blocks; it is unbounded here.
-/
import Googolplex.Config.Lexer

namespace Googolplex.Config

open Cxx Blocks

/-- `NginxConfigStatement`: `tokens_` and `child_block_`. -/
abbrev NginxConfigStatement := Statement Str

/-- `NginxConfig`: its `statements_`. -/
abbrev NginxConfig := List NginxConfigStatement

/-- `config_arg`, as far as the parser fills it. -/
structure ConfigArg where
  handlerType : Str := []
  location : Str := []
  root : Str := []
  apiKey : Str := []
  deriving DecidableEq, Repr

/-- `std::map<std::string, config_arg>`. -/
abbrev AddrMap := OrdMap Str ConfigArg

/-- `safeportSTOI`: a number that is no port is -1. -/
def safeportSTOI (stringnumber : Str) : Int :=
  let result :=
    match stoi stringnumber with
    | .ok v => v
    | .error _ => -1
  if result < 0 ∨ result > 65535 then -1 else result

/-- What has no defined outcome; `turns` is the bound on the model's loop. -/
inductive Fault where
  | emptyStack | emptyVector | dangling | turns
  deriving DecidableEq, Repr

/-- The locals and out-parameters of `Parse`. -/
structure ParserState where
  config : NginxConfig
  configStack : List Place
  lastTokenType : TokenType
  remainingBracket : Int
  port : Int
  addrmap : AddrMap

/-- What a turn of the loop does: it goes on, or returns. -/
inductive Turn where
  | next (s : ParserState)
  | done (valid : Bool) (s : ParserState)

/-! ## 1. Pointers -/

/-- `config_stack.top()`. -/
def top : List Place → Except Fault Place
  | [] => .error .emptyStack
  | place :: _ => .ok place

/-- `config_stack.pop()`. -/
def pop : List Place → Except Fault (List Place)
  | [] => .error .emptyStack
  | _ :: stack => .ok stack

/-- `->statements_`. -/
def ParserState.statements (s : ParserState) (place : Place) : Except Fault NginxConfig :=
  match blockAt s.config place with
  | some statements => .ok statements
  | none => .error .dangling

/-- `statements_.back()`. -/
def back (statements : NginxConfig) : Except Fault NginxConfigStatement :=
  match statements.getLast? with
  | some statement => .ok statement
  | none => .error .emptyVector

/-- `tokens_`. -/
def tokensOf : NginxConfigStatement → List Str
  | .mk tokens _ => tokens

/-- `statements_.emplace_back(new NginxConfigStatement)`. -/
def emplaceBack (statements : NginxConfig) : NginxConfig := statements ++ [.mk [] none]

/-- `statements_.back()` changed. -/
def modifyBack (f : NginxConfigStatement → NginxConfigStatement) (statements : NginxConfig) :
    NginxConfig :=
  match statements.getLast? with
  | some statement => statements.dropLast ++ [f statement]
  | none => statements

/-- `tokens_.push_back(token)`. -/
def pushToken (token : Str) : NginxConfigStatement → NginxConfigStatement
  | .mk tokens childBlock => .mk (tokens ++ [token]) childBlock

/-- `child_block_.reset(new NginxConfig)`: the block that was there is destroyed. -/
def resetChildBlock : NginxConfigStatement → NginxConfigStatement
  | .mk tokens _ => .mk tokens (some [])

/-! ## 2. The address map -/

/-- The location and handler type a statement `... location L T` names. -/
def locationOf (tokens : List Str) : Option (Str × Str) :=
  match tokens.reverse with
  | configType :: location :: keyword :: _ =>
    if keyword = "location".toList then some (location, configType) else none
  | _ => none

/-- The entry of a location, found or new, with `assign` done to it. -/
def mapLocation (addrmap : AddrMap) (location configType : Str) (assign : ConfigArg → ConfigArg) :
    AddrMap :=
  match addrmap[location]? with
  | some args =>
    addrmap.insert location (assign { args with handlerType := configType, location := location })
  | none =>
    let args : ConfigArg := { handlerType := configType, location := location }
    addrmap.insert location (assign args)

/-- The `root`, `data_path` and `api-key` branches: the block on top of the stack is taken off, the
    last statement of the one below it looked at, and the block put back. -/
def mapEnclosing (s : ParserState) (assign : ConfigArg → ConfigArg) :
    Except Fault ParserState := do
  let stack ← pop s.configStack
  let (location, configType) ←
    if stack = [] then pure ([], [])
    else
      let parent ← back (← s.statements (← top stack))
      pure ((locationOf (tokensOf parent)).getD ([], []))
  if location ≠ [] ∧ configType ≠ [] then
    return { s with addrmap := mapLocation s.addrmap location configType assign }
  else return s

/-- The block was opened and closed at once: its location has a fresh entry. -/
def mapEmptyBlock (addrmap : AddrMap) (previousToken : List Str) : AddrMap :=
  match locationOf previousToken with
  | some (location, configType) =>
    let args : ConfigArg := { handlerType := configType, location := location, root := [] }
    addrmap.insert location args
  | none => addrmap

/-! ## 3. The branches of the loop -/

/-- A word right after another one; `none` is an invalid port. -/
def directive (s : ParserState) (lastoken token : Str) : Except Fault (Option ParserState) :=
  if lastoken = "listen".toList then
    let currport := safeportSTOI token
    .ok (if currport ≠ -1 then some { s with port := currport } else none)
  else if lastoken = "root".toList ∨ lastoken = "data_path".toList then
    (mapEnclosing s fun args => { args with root := token }).map some
  else if lastoken = "api-key".toList then
    (mapEnclosing s fun args => { args with apiKey := token }).map some
  else .ok (some s)

/-- `TOKEN_TYPE_NORMAL`. -/
def onNormal (s : ParserState) (token : Str) : Except Fault Turn := do
  if s.lastTokenType = .start ∨ s.lastTokenType = .statementEnd ∨
      s.lastTokenType = .startBlock ∨ s.lastTokenType = .endBlock ∨
      s.lastTokenType = .normal then
    let place ← top s.configStack
    let _ ← s.statements place
    let s :=
      if s.lastTokenType ≠ .normal then { s with config := modifyAt emplaceBack s.config place }
      else s
    let current ← back (← s.statements place)
    let s' ←
      match (tokensOf current).getLast? with
      | some lastoken =>
        if s.lastTokenType = .normal then directive s lastoken token else pure (some s)
      | none => pure (some s)
    match s' with
    | some s => return .next { s with config := modifyAt (modifyBack (pushToken token)) s.config place }
    | none => return .done false s
  else return .done false s

/-- `TOKEN_TYPE_STATEMENT_END`. -/
def onStatementEnd (s : ParserState) : Except Fault Turn :=
  if s.lastTokenType ≠ .normal then .ok (.done false s) else .ok (.next s)

/-- `TOKEN_TYPE_START_BLOCK`: of what comes before nothing is asked. -/
def onStartBlock (s : ParserState) : Except Fault Turn := do
  let s := { s with remainingBracket := s.remainingBracket + 1 }
  let place ← top s.configStack
  let statements ← s.statements place
  let _ ← back statements
  return .next { s with
    config := modifyAt (modifyBack resetChildBlock) s.config place
    configStack := (place ++ [statements.length - 1]) :: s.configStack }

/-- `TOKEN_TYPE_END_BLOCK`. -/
def onEndBlock (s : ParserState) : Except Fault Turn := do
  let s := { s with remainingBracket := s.remainingBracket - 1 }
  if s.lastTokenType ≠ .statementEnd ∧ s.lastTokenType ≠ .startBlock ∧
      s.lastTokenType ≠ .endBlock then
    return .done false s
  else
    let stack ← pop s.configStack
    let s := { s with configStack := stack }
    if s.lastTokenType = .startBlock then
      let previous ← back (← s.statements (← top s.configStack))
      return .next { s with addrmap := mapEmptyBlock s.addrmap (tokensOf previous) }
    else return .next s

/-- `TOKEN_TYPE_EOF`. -/
def onEof (s : ParserState) : Turn :=
  if s.lastTokenType ≠ .statementEnd ∧ s.lastTokenType ≠ .endBlock then .done false s
  else if s.remainingBracket ≠ 0 then .done false s
  else .done true s

/-- What the loop does with a token that is no comment. -/
def turn (s : ParserState) (tokenType : TokenType) (token : Str) : Except Fault Turn :=
  match tokenType with
  | .normal => onNormal s token
  | .statementEnd => onStatementEnd s
  | .startBlock => onStartBlock s
  | .endBlock => onEndBlock s
  | .eof => .ok (onEof s)
  | .start | .comment | .error => .ok (.done false s)

/-! ## 4. The loop -/

/-- The loop, for so many turns at most. -/
def parseLoop : Nat → ParserState → Str → Except Fault (Bool × ParserState)
  | 0, _, _ => .error .turns
  | turns + 1, s, input =>
    let (tokenType, token, rest) := parseToken input
    if tokenType = .error then .ok (false, s)
    else if tokenType = .comment then parseLoop turns s rest
    else
      match turn s tokenType token with
      | .error f => .error f
      | .ok (.done valid s) => .ok (valid, s)
      | .ok (.next s) => parseLoop turns { s with lastTokenType := tokenType } rest

/-- The state before the first token. -/
def ParserState.initial (config : NginxConfig) (addrmap : AddrMap) : ParserState where
  config := config
  configStack := [[]]
  lastTokenType := .start
  remainingBracket := 0
  port := -1
  addrmap := addrmap

/-- `Parse`: every turn takes a character, so the file's length bounds them. -/
def parse (input : Str) (config : NginxConfig) (addrmap : AddrMap) :
    Except Fault (Bool × ParserState) :=
  parseLoop (input.length + 1) (ParserState.initial config addrmap) input

/-- `Parse` returns true on a fresh config and an empty map. -/
def Accepted (input : Str) : Prop := ∃ s, parse input [] ∅ = .ok (true, s)

end Googolplex.Config
