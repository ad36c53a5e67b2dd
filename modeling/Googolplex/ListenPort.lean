/-
  File:      Googolplex/ListenPort.lean
  Subject:   THE PORT THAT WAS WRITTEN, AND THE PORT THAT IS LISTENED ON.

  `safeportSTOI` reads a port with `stoi`, which passes over blanks and a sign and
  does not look at what follows the digits. The port goes on as an `int`, a `short`
  and an `unsigned short`.

  * `acceptorPort_eq`: the conversions give every port back.
  * `port_as_written_iff`: the server listens on the port that was written, if the
    words have nothing but digits in them.
-/
import Googolplex.ServerMain

namespace Googolplex

open Cxx Blocks
open Config (AddrMap Delivers safeportSTOI listenWords mem_listenWords read_listenWords)

/-! ## 1. The conversions -/

/-- An `int` made a `short`: its low 16 bits, the highest of them the sign. -/
def toShort (i : Int) : Int := i.bmod 65536

/-- A `short` made an `unsigned short`. -/
def toUnsignedShort (i : Int) : Nat := (i % 65536).toNat

/-- **The port the acceptor is opened on**: `server(io_service&, short port, …)` and
    `tcp::endpoint(tcp::v4(), unsigned short)`. -/
def acceptorPort (port : Int) : Nat := toUnsignedShort (toShort port)

theorem acceptorPort_eq_endpointPort (port : Int) : acceptorPort port = endpointPort port := by
  unfold acceptorPort toUnsignedShort toShort endpointPort
  rw [show (65536 : Int) = ((65536 : Nat) : Int) from rfl, Int.bmod_emod]

/-- A port is given back, though the upper half is negative in between. -/
theorem acceptorPort_eq {n : Nat} (h : n ≤ 65535) : acceptorPort n = n := by
  rw [acceptorPort_eq_endpointPort]
  unfold endpointPort
  omega

example : toShort 40000 = -25536 ∧ acceptorPort 40000 = 40000 := by decide

/-! ## 2. The port that was written -/

section

variable {ts : List (Lexeme Str)} {w input : Str} {s : Config.ParserState}

/-- The number digits denote. -/
def denotes (w : Str) : Nat := Nat.ofDigitChars 10 w 0

/-- **The server listens on the port that was written**: each word after `listen` is made of digits
    and denotes a port, and the acceptor is opened on what the last of them denotes. -/
structure PortAsWritten (ts : List (Lexeme Str)) (port : Int) : Prop where
  numerals : ∀ w ∈ listenWords ts, (w ≠ [] ∧ ∀ c ∈ w, c.isDigit = true) ∧ denotes w ≤ 65535
  last : ∀ w, (listenWords ts).getLast? = some w → acceptorPort port = denotes w

/-- Digits are read as what they denote. -/
theorem safeportSTOI_digits (hne : w ≠ []) (hd : ∀ c ∈ w, c.isDigit = true)
    (hport : safeportSTOI w ≠ -1) : safeportSTOI w = denotes w ∧ denotes w ≤ 65535 := by
  unfold safeportSTOI at hport ⊢
  rw [stoi_of_digits hne hd] at hport ⊢
  unfold denotes
  by_cases hmax : (Nat.ofDigitChars 10 w 0 : Int) ≤ intMax
  · simp only [if_pos hmax] at hport ⊢
    split at hport
    · exact absurd rfl hport
    · rename_i hrange
      rw [if_neg hrange]
      omega
  · simp [if_neg hmax] at hport

/-- **When the server listens on the port that was written**, for a config that is accepted: if no word
    after a `listen` has anything but digits in it. The port that `main` gives to a server it makes
    of the file is that of `Parse`. -/
theorem port_as_written_iff (hp : Config.parse input [] ∅ = .ok (true, s)) (hd : Delivers input ts) :
    (PortAsWritten ts s.port ↔ ∀ w ∈ listenWords ts, ∀ c ∈ w, c.isDigit = true) ∧
      ∀ (files : Str → Option Str) (program fileName : Str) (port : Int) (addrmap : AddrMap),
        files fileName = some input →
          serverMain files [program, fileName] = .ok (.server port addrmap) → port = s.port := by
  constructor
  · constructor
    · intro h w hw
      exact (h.numerals w hw).1.2
    · intro h
      obtain ⟨us, r', hd', hr, _, rfl⟩ := Config.parse_true_iff.mp hp
      obtain rfl := hd.unique hd'
      obtain ⟨hport, hwords⟩ := read_listenWords hr
      have hne : ∀ w ∈ listenWords ts, w ≠ [] := by
        intro w hw
        have hmem : Lexeme.word w ∈ ts := (mem_listenWords.mp hw).subset (by simp)
        exact hd.word_ne_nil hmem
      have hdigits : ∀ w ∈ listenWords ts, safeportSTOI w = denotes w ∧ denotes w ≤ 65535 :=
        fun w hw => safeportSTOI_digits (hne w hw) (h w hw) (hwords w hw)
      refine ⟨fun w hw => ⟨⟨hne w hw, h w hw⟩, (hdigits w hw).2⟩, fun w hw => ?_⟩
      obtain ⟨hread, hle⟩ := hdigits w (List.mem_of_getLast? hw)
      have hset : r'.state.port = safeportSTOI w := by
        show r'.settings.port = _
        rw [hport]
        show ((listenWords ts).getLast?.map safeportSTOI).getD _ = _
        rw [hw]
        rfl
      rw [hset, hread]
      exact acceptorPort_eq hle
  · intro files program fileName port addrmap hfile hmain
    unfold serverMain parseFile at hmain
    simp only [hfile, hp] at hmain
    split at hmain
    · cases hmain
    · cases hmain
      rfl

/-- A port of the upper half. -/
theorem port_as_written_upper : ∃ s, Config.parse "listen 40000;".toList [] ∅ = .ok (true, s) ∧
    PortAsWritten [.word "listen".toList, .word "40000".toList, .semi] s.port := by
  obtain ⟨s, hs⟩ : ∃ s, Config.parse "listen 40000;".toList [] ∅ = .ok (true, s) := ⟨_, rfl⟩
  have hd : Delivers "listen 40000;".toList
      [.word "listen".toList, .word "40000".toList, .semi] :=
    .token rfl rfl (.token rfl rfl (.token rfl rfl (.eof rfl)))
  refine ⟨s, hs, (port_as_written_iff hs hd).1.mpr fun w hw => ?_⟩
  obtain rfl : w = "40000".toList := List.mem_singleton.mp hw
  exact List.all_eq_true.mp rfl

/-- **A port with something after it** is accepted. -/
theorem port_with_trailer : ∃ s ts, Config.parse "listen 80abc;".toList [] ∅ = .ok (true, s) ∧
    Delivers "listen 80abc;".toList ts ∧ listenWords ts ≠ [] ∧ s.port = 80 ∧
      ¬ PortAsWritten ts s.port := by
  refine ⟨_, [.word "listen".toList, .word "80abc".toList, .semi], rfl,
    .token rfl rfl (.token rfl rfl (.token rfl rfl (.eof rfl))), by decide, rfl, fun h => ?_⟩
  have hdigit := (h.numerals "80abc".toList (by decide)).1.2 'a' (by decide)
  exact absurd hdigit (by decide)

end

end Googolplex
