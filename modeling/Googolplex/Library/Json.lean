/-
  File:      Googolplex/Library/Json.lean
  Subject:   JSON values, and what a program may rely on of a library that parses
             and prints them.

  * `utf8`: the texts a JSON string can hold, by bytes.
  * `Library`: `parse` fails on a text that is not JSON, `dump` on a value with a
    string that is not UTF-8; apart from that the two are inverse. These laws are
    fields: what does not obey them is no library.
-/
import Googolplex.Library.Cxx

namespace Json

open Cxx

/-- A JSON value; a number is the text it is printed as. -/
inductive Value where
  | null
  | bool (b : Bool)
  | number (text : Str)
  | string (s : Str)
  | array (items : List Value)
  | object (members : List (Str × Value))

/-- The member of a name, if the value is an object that has one. -/
def Value.member (name : Str) : Value → Option Value
  | .object members => members.lookup name
  | _ => none

/-! ## 1. UTF-8 -/

/-- The byte is in the range. -/
def Within (lo hi : Nat) (c : Char) : Prop := lo ≤ c.toNat ∧ c.toNat ≤ hi

instance (lo hi : Nat) (c : Char) : Decidable (Within lo hi c) := inferInstanceAs (Decidable (_ ∧ _))

/-- A continuation byte. -/
abbrev Tail (c : Char) : Prop := Within 0x80 0xBF c

/-- The two first bytes of a sequence of three. -/
def Three (a b : Char) : Prop :=
  (a.toNat = 0xE0 ∧ Within 0xA0 0xBF b) ∨ (Within 0xE1 0xEC a ∧ Tail b) ∨
    (a.toNat = 0xED ∧ Within 0x80 0x9F b) ∨ (Within 0xEE 0xEF a ∧ Tail b)

instance (a b : Char) : Decidable (Three a b) := inferInstanceAs (Decidable (_ ∨ _))

/-- The two first bytes of a sequence of four. -/
def Four (a b : Char) : Prop :=
  (a.toNat = 0xF0 ∧ Within 0x90 0xBF b) ∨ (Within 0xF1 0xF3 a ∧ Tail b) ∨
    (a.toNat = 0xF4 ∧ Within 0x80 0x8F b)

instance (a b : Char) : Decidable (Four a b) := inferInstanceAs (Decidable (_ ∨ _))

/-- The bytes are well-formed UTF-8: shortest forms, no surrogates, nothing above U+10FFFF. -/
def utf8 : Str → Bool
  | [] => true
  | a :: rest =>
    if a.toNat < 0x80 then utf8 rest
    else
      match rest with
      | [] => false
      | b :: rest =>
        if Within 0xC2 0xDF a ∧ Tail b then utf8 rest
        else
          match rest with
          | [] => false
          | c :: rest =>
            if Three a b ∧ Tail c then utf8 rest
            else
              match rest with
              | [] => false
              | d :: rest => if Four a b ∧ Tail c ∧ Tail d then utf8 rest else false

/-- A text of ASCII characters. -/
def Ascii (s : Str) : Prop := ∀ c ∈ s, c.toNat < 0x80

instance (s : Str) : Decidable (Ascii s) := inferInstanceAs (Decidable (∀ c ∈ s, _))

theorem utf8_of_ascii {s : Str} (h : Ascii s) : utf8 s = true := by
  induction s with
  | nil => rfl
  | cons a s ih =>
      have ha : a.toNat < 0x80 := h a List.mem_cons_self
      have hs : Ascii s := fun c hc => h c (List.mem_cons_of_mem _ hc)
      unfold utf8
      rw [if_pos ha]
      exact ih hs

/-! ## 2. The library -/

/-- The members stand in the order of their names, no name twice. -/
def Ordered (members : List (Str × Value)) : Prop := members.Pairwise fun m n => m.1 < n.1

/-- **A JSON library**: `Proper` are the values it can hold. -/
structure Library where
  parse : Str → Option Value
  dump : Value → Option Str
  Proper : Value → Prop
  proper_string : ∀ s, Proper (.string s)
  proper_object : ∀ members, Ordered members → (∀ m ∈ members, Proper m.2) → Proper (.object members)
  proper_parse : ∀ s v, parse s = some v → Proper v
  dump_string : ∀ s, (dump (.string s)).isSome = utf8 s
  dump_object : ∀ members, (dump (.object members)).isSome =
    members.all fun m => utf8 m.1 && (dump m.2).isSome
  dump_parse : ∀ s v, parse s = some v → (dump v).isSome = true
  parse_dump : ∀ s v, Proper v → dump v = some s → parse s = some v

end Json
