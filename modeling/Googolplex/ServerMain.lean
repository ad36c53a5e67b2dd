/-
  File:      Googolplex/ServerMain.lean
  Subject:   FROM THE COMMAND LINE TO THE SERVER (`main` of server_main.cc, and the
             `Parse` that opens the file).

  `main` does not look at the result of `Parse`. What keeps it from a server is the
  check of the handler types, on whatever `Parse` has left in the map.

  * `serverMain`: `main` up to the constructor of `server`.
  * `Guards`: what the file says when `main` makes no server it should not make.
  * `server_guarded_iff`: `main` has a defined outcome, and a server it makes is made of
    a file that was read and listens, if and only if the file is one of these.
-/
import Googolplex.Config.Leavings
import Googolplex.Config.ListenWords
import Googolplex.Dispatcher

namespace Googolplex

open Cxx Blocks
open Config (AddrMap ConfigArg Lexed Delivers Reading Undefined Accepted Grammatical PortsOk)

/-! ## 1. `main` -/

/-- `valid_handler_types` of `config_arg`. -/
def validHandlerTypes : List Str :=
  ["StaticHandler".toList, "EchoHandler".toList, "NotFoundHandler".toList, "CrudHandler".toList,
    "BlockHandler".toList, "HealthHandler".toList, "TextGenHandler".toList]

/-- How far `main` gets: it returns, or constructs a server. -/
inductive Startup where
  | returned (code : Nat)
  | server (port : Int) (addrmap : AddrMap)

/-- `Parse(const char*, …)`: the result, the port and the map; `files` is what the streams read. A
    file that does not open changes nothing. -/
def parseFile (files : Str → Option Str) (fileName : Str) (port : Int) (addrmap : AddrMap) :
    Except Config.Fault (Bool × Int × AddrMap) :=
  match files fileName with
  | none => .ok (false, port, addrmap)
  | some input =>
    match Config.parse input [] addrmap with
    | .error f => .error f
    | .ok (valid, s) => .ok (valid, s.port, s.addrmap)

/-- `main`, up to the server. -/
def serverMain (files : Str → Option Str) (argv : List Str) : Except Config.Fault Startup :=
  match argv with
  | [_, fileName] =>
    match parseFile files fileName (-1) ∅ with
    | .error f => .error f
    | .ok (_, port, addrmap) =>
      let validHandler := addrmap.toList.all fun x => decide (x.2.handlerType ∈ validHandlerTypes)
      if validHandler = false then .ok (.returned 1) else .ok (.server port addrmap)
  | _ => .ok (.returned 1)

/-- The port of the endpoint `server::server` binds: an `int` made a `short`, and an unsigned one. -/
def endpointPort (port : Int) : Nat := (port % 65536).toNat

example : endpointPort (-1) = 65535 := by decide

/-! ## 2. What the file says -/

/-- The word `listen`, and a word after it. -/
def ListenPair (ts : List (Lexeme Str)) : Prop :=
  ∃ w, [.word "listen".toList, .word w] <:+: ts

/-- The file has a `listen` with a word after it. -/
def Listens (input : Str) : Prop := ∃ ts, Delivers input ts ∧ ListenPair ts

/-- **What the file says when `main` makes no server it should not make**: it is grammatical and
    listens; or `Parse` has a defined outcome on it, and what comes before the first lexeme that does
    not fit leaves an entry of a type that is not known. -/
inductive Guards (input : Str) : Prop
  | listens (hgrammar : Grammatical true input) (hlistens : Listens input)
  | unknown {ts : List (Lexeme Str)} {whole : Bool} {location : Str} {arg : ConfigArg}
      (hd : Lexed input ts whole)
      (hdef : ¬ Undefined (Reading.start.upTo ts).1 (Reading.start.upTo ts).2)
      (harg : (Reading.start.upTo ts).1.settings.addrmap[location]? = some arg)
      (htype : arg.handlerType ∉ validHandlerTypes)

section

variable {files : Str → Option Str} {program fileName input : Str} {ts : List (Lexeme Str)}
  {whole : Bool}

/-! ### The port -/

/-- A file listens if there is a word after a `listen`. -/
theorem listenPair_iff : ListenPair ts ↔ Config.listenWords ts ≠ [] := by
  unfold ListenPair
  simp only [← Config.mem_listenWords]
  exact ⟨fun ⟨w, hw⟩ => List.ne_nil_of_mem hw, fun h => List.exists_mem_of_ne_nil _ h⟩

/-- **The port of a file that is accepted** is set if and only if it listens. -/
theorem accepted_port_iff {s : Config.ParserState} (hp : Config.parse input [] ∅ = .ok (true, s)) :
    s.port ≠ -1 ↔ Listens input := by
  obtain ⟨ts, r', hd, hr, _, rfl⟩ := Config.parse_true_iff.mp hp
  have hport : r'.settings.port ≠ -1 ↔ ListenPair ts := by
    obtain ⟨hread, hwords⟩ := Config.read_listenWords hr
    have hread : r'.settings.port =
        ((Config.listenWords ts).getLast?.map Config.safeportSTOI).getD (-1) := hread
    rw [listenPair_iff, hread]
    cases hlast : (Config.listenWords ts).getLast? with
    | none => simp [List.getLast?_eq_none_iff.mp hlast]
    | some w =>
        have hmem := List.mem_of_getLast? hlast
        exact ⟨fun _ => List.ne_nil_of_mem hmem, fun _ => hwords w hmem⟩
  show r'.settings.port ≠ -1 ↔ _
  rw [hport]
  constructor
  · intro h
    exact ⟨ts, hd, h⟩
  · intro ⟨us, hus, h⟩
    rw [hd.unique hus]
    exact h

/-! ### The check, and `main` -/

/-- The check of the handler types. -/
theorem validHandler_iff (addrmap : AddrMap) :
    (addrmap.toList.all fun x => decide (x.2.handlerType ∈ validHandlerTypes)) = true ↔
      ∀ (location : Str) (arg : ConfigArg), addrmap[location]? = some arg →
        arg.handlerType ∈ validHandlerTypes := by
  rw [List.all_eq_true]
  constructor
  · intro h location arg harg
    have hmem : (location, arg) ∈ addrmap.toList :=
      Std.ExtTreeMap.mem_toList_iff_getElem?_eq_some.mpr harg
    simpa using h _ hmem
  · intro h ⟨location, arg⟩ hmem
    have harg := Std.ExtTreeMap.mem_toList_iff_getElem?_eq_some.mp hmem
    simpa using h location arg harg

/-- **When `main` constructs a server** on a file that opens: `Parse` has a defined outcome on it, and
    the types of what it has left are known. -/
theorem serverMain_iff (hfile : files fileName = some input) (hd : Lexed input ts whole) :
    (∃ port addrmap, serverMain files [program, fileName] = .ok (.server port addrmap)) ↔
      ¬ Undefined (Reading.start.upTo ts).1 (Reading.start.upTo ts).2 ∧
        ∀ (location : Str) (arg : ConfigArg),
          (Reading.start.upTo ts).1.settings.addrmap[location]? = some arg →
            arg.handlerType ∈ validHandlerTypes := by
  have hleaves := Config.parse_leaves hd
  unfold serverMain parseFile
  dsimp only
  rw [hfile]
  dsimp only
  by_cases hu : Undefined (Reading.start.upTo ts).1 (Reading.start.upTo ts).2
  · obtain ⟨f, hf⟩ := hleaves.undefined hu
    rw [hf]
    constructor
    · intro ⟨port, addrmap, h⟩
      cases h
    · intro h
      exact absurd hu h.1
  · obtain ⟨valid, s, hs, _, hport, hmap⟩ := hleaves.defined hu
    rw [hs]
    dsimp only
    rw [← hmap, ← validHandler_iff]
    cases s.addrmap.toList.all fun x => decide (x.2.handlerType ∈ validHandlerTypes) with
    | true => exact ⟨fun _ => ⟨hu, rfl⟩, fun _ => ⟨s.port, s.addrmap, rfl⟩⟩
    | false =>
        constructor
        · intro ⟨port, addrmap, h⟩
          cases h
        · intro h
          cases h.2

/-- A file that does not open starts a server. -/
theorem serverMain_missing (hfile : files fileName = none) :
    serverMain files [program, fileName] = .ok (.server (-1) ∅) := by
  unfold serverMain parseFile
  dsimp only
  rw [hfile]
  have hnone : ((∅ : AddrMap).toList.all fun x =>
      decide (x.2.handlerType ∈ validHandlerTypes)) = true := by
    rw [validHandler_iff]
    intro location arg harg
    rw [Std.ExtTreeMap.getElem?_empty] at harg
    cases harg
  dsimp only
  rw [hnone]
  rfl

/-- `main` has a defined outcome on a file that opens if `Parse` has one. -/
theorem serverMain_defined_iff (hfile : files fileName = some input) (hd : Lexed input ts whole) :
    (∃ startup, serverMain files [program, fileName] = .ok startup) ↔
      ¬ Undefined (Reading.start.upTo ts).1 (Reading.start.upTo ts).2 := by
  have hleaves := Config.parse_leaves hd
  unfold serverMain parseFile
  dsimp only
  rw [hfile]
  dsimp only
  constructor
  · intro ⟨startup, h⟩ hu
    obtain ⟨f, hf⟩ := hleaves.undefined hu
    rw [hf] at h
    cases h
  · intro hu
    obtain ⟨valid, s, hs, -⟩ := hleaves.defined hu
    rw [hs]
    dsimp only
    split
    · exact ⟨_, rfl⟩
    · exact ⟨_, rfl⟩

/-- `Parse` has a defined outcome on a file it accepts. -/
theorem accepted_defined (h : Accepted input) (hd : Lexed input ts whole) :
    ¬ Undefined (Reading.start.upTo ts).1 (Reading.start.upTo ts).2 := by
  intro hu
  obtain ⟨s, hs⟩ := h
  obtain ⟨f, hf⟩ := (Config.parse_leaves hd).undefined hu
  rw [hs] at hf
  cases hf

/-- **When `main` has a defined outcome, and the server is made of a file that was read and listens**:
    if the file opens and is one of those it should be made of, or one that `main` stops at. -/
theorem server_guarded_iff (files : Str → Option Str) (program fileName : Str) :
    (∃ startup, serverMain files [program, fileName] = .ok startup ∧
      ∀ port addrmap, startup = .server port addrmap →
        ∃ input, files fileName = some input ∧ Accepted input ∧ Listens input) ↔
      ∃ input, files fileName = some input ∧ Guards input := by
  cases hfile : files fileName with
  | none =>
      constructor
      · intro ⟨startup, hmain, h⟩
        rw [serverMain_missing hfile] at hmain
        cases hmain
        obtain ⟨input, hsome, _⟩ := h (-1) ∅ rfl
        cases hsome
      · intro ⟨input, hsome, _⟩
        cases hsome
  | some input =>
      obtain ⟨ts, whole, hd⟩ := Config.exists_lexed _ (rfl : input.length = _)
      have hserver : (∃ port addrmap,
          serverMain files [program, fileName] = .ok (.server port addrmap)) ↔ _ :=
        serverMain_iff hfile hd
      constructor
      · intro ⟨startup, hmain, h⟩
        refine ⟨input, rfl, ?_⟩
        have hdef := (serverMain_defined_iff hfile hd).mp ⟨startup, hmain⟩
        by_cases hall : ∀ (location : Str) (arg : ConfigArg),
            (Reading.start.upTo ts).1.settings.addrmap[location]? = some arg →
              arg.handlerType ∈ validHandlerTypes
        · obtain ⟨port, addrmap, hserved⟩ := hserver.mpr ⟨hdef, hall⟩
          rw [hmain] at hserved
          cases hserved
          obtain ⟨_, hsome, haccepted, hlistens⟩ := h port addrmap rfl
          cases hsome
          exact .listens ((Config.accepted_iff_grammatical input).mp haccepted) hlistens
        · obtain ⟨location, hloc⟩ := not_forall.mp hall
          obtain ⟨arg, harg⟩ := not_forall.mp hloc
          obtain ⟨hget, htype⟩ := Classical.not_imp.mp harg
          exact .unknown hd hdef hget htype
      · intro ⟨_, hsome, hguards⟩
        cases hsome
        cases hguards with
        | listens hgrammar hlistens =>
            have haccepted := (Config.accepted_iff_grammatical input).mpr hgrammar
            obtain ⟨startup, hmain⟩ :=
              (serverMain_defined_iff hfile hd).mpr (accepted_defined haccepted hd)
            exact ⟨startup, hmain, fun _ _ _ => ⟨input, rfl, haccepted, hlistens⟩⟩
        | unknown hd' hdef harg htype =>
            obtain ⟨startup, hmain⟩ := (serverMain_defined_iff hfile hd').mpr hdef
            refine ⟨startup, hmain, fun port addrmap e => ?_⟩
            -- a type that is not known keeps `main` from a server
            rw [e] at hmain
            obtain ⟨_, hall⟩ := (serverMain_iff hfile hd').mp ⟨port, addrmap, hmain⟩
            exact absurd (hall _ _ harg) htype

/-- **The map a server is made with** names the location of each entry. -/
theorem server_located {argv : List Str} {port : Int} {addrmap : AddrMap}
    (h : serverMain files argv = .ok (.server port addrmap)) : Located addrmap := by
  unfold serverMain at h
  split at h
  · rename_i fileName
    unfold parseFile at h
    cases hfile : files fileName with
    | none =>
        rw [hfile] at h
        dsimp only at h
        split at h
        · cases h
        · cases h
          intro location arg harg
          rw [Std.ExtTreeMap.getElem?_empty] at harg
          cases harg
    | some input =>
        rw [hfile] at h
        cases hparse : Config.parse input [] ∅ with
        | error f =>
            simp only [hparse] at h
            cases h
        | ok v =>
            obtain ⟨valid, s⟩ := v
            simp only [hparse] at h
            split at h
            · cases h
            · cases h
              exact Config.parse_located hparse
  · cases h

end

/-! ## 3. A file that breaks off -/

/-- The last bracket is missing. -/
def brokenConfig : Str := "listen 80; location /s StaticHandler \x7b root /www;".toList

/-- What `Parse` makes of it. -/
theorem parse_brokenConfig : ∃ s, Config.parse brokenConfig [] ∅ = .ok (false, s) ∧ s.port = 80 ∧
    s.addrmap = (∅ : AddrMap).insert "/s".toList
      { handlerType := "StaticHandler".toList, location := "/s".toList, root := "/www".toList } :=
  ⟨_, rfl, rfl, rfl⟩

/-- **A server is started on what was read of it**, though `Parse` returns false. -/
theorem server_on_broken_config : ¬ Accepted brokenConfig ∧
    ∃ addrmap : AddrMap, addrmap.contains "/s".toList ∧
      serverMain (fun _ => some brokenConfig) ["webserver".toList, "conf".toList] =
        .ok (.server 80 addrmap) := by
  obtain ⟨s, hparse, hport, hmap⟩ := parse_brokenConfig
  refine ⟨fun ⟨s', haccepted⟩ => ?_, s.addrmap, ?_, ?_⟩
  · rw [hparse] at haccepted
    cases haccepted
  · rw [hmap]
    simp
  · have hvalid : (s.addrmap.toList.all fun x => decide (x.2.handlerType ∈ validHandlerTypes)) =
        true := by
      rw [validHandler_iff, hmap]
      intro location arg harg
      rw [getElem?_assign] at harg
      split at harg
      · cases harg
        decide
      · rw [Std.ExtTreeMap.getElem?_empty] at harg
        cases harg
    unfold serverMain parseFile
    dsimp only
    rw [hparse]
    dsimp only
    rw [hvalid, hport]
    rfl

end Googolplex
