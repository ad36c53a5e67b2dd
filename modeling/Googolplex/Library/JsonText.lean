/-
  File:      Googolplex/Library/JsonText.lean
  Subject:   A JSON library: the texts of strings and objects, printed with an
             indent of four and read back.

  * `print`, `parseValue`: the printer, and a parser that allows blanks between
    tokens and keeps the last of two members of one name.
  * `parseValue_print`: what was printed is read back, whatever follows it.
  * `textLibrary`: the two are a `Library`. Numbers, arrays and the three literals
    are not among its values.
-/
import Googolplex.Library.Json

namespace Json

open Cxx

/-! ## 1. Strings -/

/-- The characters with an escape of two letters. -/
def shortEscapes : List (Char × Char) :=
  [('"', '"'), ('\\', '\\'), ('\x08', 'b'), ('\x0c', 'f'), ('\n', 'n'), ('\r', 'r'), ('\t', 't')]

/-- The character a letter after a backslash stands for. -/
def unescape (e : Char) : Option Char :=
  if e = '/' then some '/' else (shortEscapes.find? fun p => p.2 = e).map Prod.fst

/-- A hexadecimal digit. -/
def hexDigit (n : Nat) : Char := Nat.digitChar n

/-- The control character two hexadecimal digits name. -/
def control (a b : Char) : Option Char :=
  ((List.range 32).find? fun n => hexDigit (n / 16) = a ∧ hexDigit (n % 16) = b).map Char.ofNat

/-- A character in a string. -/
def escapeChar (c : Char) : Str :=
  match shortEscapes.lookup c with
  | some e => ['\\', e]
  | none =>
    if c.toNat < 0x20 then ['\\', 'u', '0', '0', hexDigit (c.toNat / 16), hexDigit (c.toNat % 16)]
    else [c]

/-- A string in quotes. -/
def quote (s : Str) : Str := '"' :: (s.flatMap escapeChar ++ ['"'])

/-- One character more in front of what was read. -/
def push (c : Char) (r : Str × Str) : Str × Str := (c :: r.1, r.2)

/-- The characters up to the closing quote, and what follows it. -/
def chars : Str → Option (Str × Str)
  | [] => none
  | '"' :: rest => some ([], rest)
  | '\\' :: 'u' :: '0' :: '0' :: a :: b :: rest =>
    (control a b).bind fun c => (chars rest).map (push c)
  | '\\' :: e :: rest => (unescape e).bind fun c => (chars rest).map (push c)
  | c :: rest => if c.toNat < 0x20 ∨ c = '\\' then none else (chars rest).map (push c)

/-! ## 2. Values -/

/-- Blanks between tokens. -/
def skip (s : Str) : Str := s.dropWhile fun c => c ∈ [' ', '\t', '\n', '\r']

mutual

/-- A value, on a line that is indented so far. -/
def print (n : Nat) : Value → Str
  | .string s => quote s
  | .object members =>
    if members.isEmpty then "{}".toList
    else '{' :: '\n' :: (printMembers (n + 4) members ++ '\n' :: (List.replicate n ' ' ++ ['}']))
  | _ => []

/-- A member, on a line of its own. -/
def printMember (n : Nat) : Str × Value → Str
  | (name, v) => List.replicate n ' ' ++ (quote name ++ ':' :: ' ' :: print n v)

/-- Members, one below the other. -/
def printMembers (n : Nat) : List (Str × Value) → Str
  | [] => []
  | m :: members =>
    printMember n m ++ ((if members.isEmpty then [] else [',', '\n']) ++ printMembers n members)

end

/-- A member put in its place in front of others, unless they have one of that name. -/
def insertMember (name : Str) (v : Value) : List (Str × Value) → List (Str × Value)
  | [] => [(name, v)]
  | m :: members =>
    if name < m.1 then (name, v) :: m :: members
    else if name = m.1 then m :: members
    else m :: insertMember name v members

/-- A string token that is UTF-8. -/
def parseString (s : Str) : Option (Str × Str) :=
  match s with
  | '"' :: rest =>
    match chars rest with
    | some (t, rest) => if utf8 t then some (t, rest) else none
    | none => none
  | _ => none

mutual

/-- A value, and what follows it. -/
def parseValue : Nat → Str → Option (Value × Str)
  | 0, _ => none
  | n + 1, s =>
    match skip s with
    | '{' :: rest =>
      match skip rest with
      | '}' :: rest => some (.object [], rest)
      | rest => (parseMembers n rest).map fun r => (.object r.1, r.2)
    | rest => (parseString rest).map fun r => (.string r.1, r.2)

/-- Members up to the closing brace, and what follows it. -/
def parseMembers : Nat → Str → Option (List (Str × Value) × Str)
  | 0, _ => none
  | n + 1, s =>
    match parseString (skip s) with
    | none => none
    | some (name, rest) =>
      match skip rest with
      | ':' :: rest =>
        match parseValue n rest with
        | none => none
        | some (v, rest) =>
          match skip rest with
          | '}' :: rest => some ([(name, v)], rest)
          | ',' :: rest => (parseMembers n rest).map fun r => (insertMember name v r.1, r.2)
          | _ => none
      | _ => none

end

/-! ## 3. Strings are read back -/

/-- A control character is read back from its digits. -/
theorem control_hexDigit {c : Char} (h : c.toNat < 0x20) :
    control (hexDigit (c.toNat / 16)) (hexDigit (c.toNat % 16)) = some c := by
  have hall : ∀ n < 32, control (hexDigit (n / 16)) (hexDigit (n % 16)) = some (Char.ofNat n) := by
    decide
  rw [hall c.toNat h, Char.ofNat_toNat]

/-- **A character is read back from its escape.** -/
theorem chars_escapeChar (c : Char) (t : Str) :
    chars (escapeChar c ++ t) = (chars t).map (push c) := by
  unfold escapeChar
  cases hl : shortEscapes.lookup c with
  | some e =>
      obtain ⟨pre, post, hmem, _⟩ := List.lookup_eq_some_iff.mp hl
      have hin : (c, e) ∈ shortEscapes := by
        rw [hmem]
        simp
      simp only [shortEscapes, List.mem_cons, Prod.mk.injEq, List.not_mem_nil, or_false] at hin
      rcases hin with ⟨rfl, rfl⟩ | ⟨rfl, rfl⟩ | ⟨rfl, rfl⟩ | ⟨rfl, rfl⟩ | ⟨rfl, rfl⟩ | ⟨rfl, rfl⟩ |
        ⟨rfl, rfl⟩ <;> simp [chars, unescape, shortEscapes]
  | none =>
      dsimp only
      split
      · rename_i hc
        simp only [List.cons_append, List.nil_append, chars, control_hexDigit hc, Option.bind_some]
      · rename_i hc
        have hquote : c ≠ '"' := by
          rintro rfl
          revert hl
          decide
        have hslash : c ≠ '\\' := by
          rintro rfl
          revert hl
          decide
        rw [List.singleton_append, chars]
        · rw [if_neg (by simp [hc, hslash])]
        · intro h
          exact hquote h
        · intro a b rest h
          exact absurd h hslash
        · intro e rest h
          exact absurd h hslash

theorem chars_quote (s t : Str) : chars (s.flatMap escapeChar ++ '"' :: t) = some (s, t) := by
  induction s with
  | nil => rfl
  | cons c s ih =>
      rw [List.flatMap_cons, List.append_assoc, chars_escapeChar, ih]
      rfl

theorem parseString_quote {s : Str} (h : utf8 s = true) (t : Str) :
    parseString (quote s ++ t) = some (s, t) := by
  unfold quote
  rw [List.cons_append, List.append_assoc, List.singleton_append]
  unfold parseString
  simp only [chars_quote, h, if_true]

/-- What is read of a string token is UTF-8. -/
theorem utf8_of_parseString {s t rest : Str} (h : parseString s = some (t, rest)) :
    utf8 t = true := by
  unfold parseString at h
  split at h
  · split at h
    · split at h
      · rename_i hu
        cases h
        exact hu
      · cases h
    · cases h
  · cases h

/-! ## 4. The values of the library -/

mutual

/-- The values that can be printed. -/
def printable : Value → Bool
  | .string s => utf8 s
  | .object members => printableMembers members
  | _ => false

def printableMember : Str × Value → Bool
  | (name, v) => utf8 name && printable v

def printableMembers : List (Str × Value) → Bool
  | [] => true
  | m :: members => printableMember m && printableMembers members

end

mutual

/-- The values that can be held: the members of every object stand in order. -/
def Holds : Value → Prop
  | .string _ => True
  | .object members => Ordered members ∧ HoldsMembers members
  | _ => False

def HoldsMember : Str × Value → Prop
  | (_, v) => Holds v

def HoldsMembers : List (Str × Value) → Prop
  | [] => True
  | m :: members => HoldsMember m ∧ HoldsMembers members

end

theorem printableMembers_eq (members : List (Str × Value)) :
    printableMembers members = members.all fun m => utf8 m.1 && printable m.2 := by
  induction members with
  | nil => simp [printableMembers]
  | cons m members ih =>
      obtain ⟨name, v⟩ := m
      rw [printableMembers, printableMember, ih, List.all_cons]

theorem holdsMembers_iff {members : List (Str × Value)} :
    HoldsMembers members ↔ ∀ m ∈ members, Holds m.2 := by
  induction members with
  | nil => simp [HoldsMembers]
  | cons m members ih =>
      obtain ⟨name, v⟩ := m
      rw [HoldsMembers, HoldsMember, ih, List.forall_mem_cons]

/-! ## 5. Values are read back -/

theorem skip_indent (n : Nat) (s : Str) : skip (List.replicate n ' ' ++ s) = skip s := by
  unfold skip
  induction n with
  | zero => rfl
  | succ n ih =>
      rw [List.replicate_succ, List.cons_append, List.dropWhile_cons_of_pos (by decide)]
      exact ih

theorem skip_blank {c : Char} (h : c ∈ [' ', '\t', '\n', '\r']) (s : Str) : skip (c :: s) = skip s :=
  List.dropWhile_cons_of_pos (by simpa using h)

theorem skip_token {c : Char} (h : c ∉ [' ', '\t', '\n', '\r']) (s : Str) : skip (c :: s) = c :: s :=
  List.dropWhile_cons_of_neg (by simpa using h)

theorem skip_quote (s t : Str) : skip (quote s ++ t) = quote s ++ t :=
  skip_token (by decide) _

/-- The first of ordered members is put in front of the others. -/
theorem insertMember_first {name : Str} {v : Value} {members : List (Str × Value)}
    (h : Ordered ((name, v) :: members)) : insertMember name v members = (name, v) :: members := by
  cases members with
  | nil => rfl
  | cons m members =>
      have hlt : name < m.1 := (List.pairwise_cons.mp h).1 m List.mem_cons_self
      unfold insertMember
      rw [if_pos hlt]

theorem length_quote (s : Str) : 2 ≤ (quote s).length := by
  unfold quote
  simp

theorem parseValue_blank {c : Char} (h : c ∈ [' ', '\t', '\n', '\r']) (fuel : Nat) (s : Str) :
    parseValue fuel (c :: s) = parseValue fuel s := by
  cases fuel with
  | zero => rw [parseValue, parseValue]
  | succ fuel => rw [parseValue, parseValue, skip_blank h]

theorem parseMembers_blank {c : Char} (h : c ∈ [' ', '\t', '\n', '\r']) (fuel : Nat) (s : Str) :
    parseMembers fuel (c :: s) = parseMembers fuel s := by
  cases fuel with
  | zero => rw [parseMembers, parseMembers]
  | succ fuel => rw [parseMembers, parseMembers, skip_blank h]

theorem parseMembers_skip (fuel : Nat) (s : Str) :
    parseMembers fuel (skip s) = parseMembers fuel s := by
  have hskip : skip (skip s) = skip s := List.dropWhile_idempotent _ _
  cases fuel with
  | zero => rw [parseMembers, parseMembers]
  | succ fuel => rw [parseMembers, parseMembers, hskip]

/-- The text of a member after its indent begins with a quote. -/
theorem skip_printMembers {members : List (Str × Value)} (h : members ≠ []) (n : Nat) (t : Str) :
    ∃ rest, skip (printMembers n members ++ t) = '"' :: rest := by
  cases members with
  | nil => exact absurd rfl h
  | cons m members =>
      obtain ⟨name, v⟩ := m
      rw [printMembers, printMember]
      simp only [List.append_assoc]
      rw [skip_indent, skip_quote]
      exact ⟨_, rfl⟩

mutual

/-- **What was printed is read back**, whatever follows it. -/
theorem parseValue_print : ∀ (v : Value) (n fuel : Nat) (t : Str), Holds v → printable v = true →
    (print n v).length ≤ fuel → parseValue fuel (print n v ++ t) = some (v, t)
  | .string s, n, fuel, t, _, hp, hf => by
      rw [printable] at hp
      rw [print] at hf ⊢
      have hlen := length_quote s
      obtain ⟨k, rfl⟩ : ∃ k, fuel = k + 1 := ⟨fuel - 1, by omega⟩
      rw [parseValue, skip_quote]
      split
      · rename_i rest heq
        cases heq
      · rw [parseString_quote hp]
        rfl
  | .object members, n, fuel, t, hv, hp, hf => by
      rw [printable] at hp
      rw [Holds] at hv
      rw [print] at hf ⊢
      by_cases hnil : members = []
      · subst hnil
        simp only [List.isEmpty_nil, if_true] at hf ⊢
        obtain ⟨k, rfl⟩ : ∃ k, fuel = k + 1 := ⟨fuel - 1, by simp at hf; omega⟩
        rw [parseValue]
        rfl
      · have hempty : members.isEmpty = false := by simpa using hnil
        rw [hempty] at hf ⊢
        simp only [Bool.false_eq_true, if_false, List.cons_append, List.length_cons,
          List.length_append, List.append_assoc, List.nil_append] at hf ⊢
        obtain ⟨k, rfl⟩ : ∃ k, fuel = k + 1 := ⟨fuel - 1, by omega⟩
        have hmembers := parseMembers_print members (n + 4) n k t hnil hv.1 hv.2 hp (by omega)
        rw [parseValue, skip_token (by decide)]
        simp only
        rw [skip_blank (by decide)]
        obtain ⟨rest, hrest⟩ := skip_printMembers hnil (n + 4)
          ('\n' :: (List.replicate n ' ' ++ '}' :: t))
        rw [← parseMembers_skip, hrest] at hmembers
        rw [hrest]
        split
        · rename_i heq
          exact absurd (List.cons.inj heq).1 (by decide)
        · rw [hmembers]
          rfl
  | .null, _, _, _, h, _, _ => by simp [Holds] at h
  | .bool _, _, _, _, h, _, _ => by simp [Holds] at h
  | .number _, _, _, _, h, _, _ => by simp [Holds] at h
  | .array _, _, _, _, h, _, _ => by simp [Holds] at h

theorem parseMembers_print : ∀ (members : List (Str × Value)) (n k fuel : Nat) (t : Str),
    members ≠ [] → Ordered members → HoldsMembers members → printableMembers members = true →
    (printMembers n members).length ≤ fuel →
    parseMembers fuel (printMembers n members ++ '\n' :: (List.replicate k ' ' ++ '}' :: t)) =
      some (members, t)
  | [], _, _, _, _, h, _, _, _, _ => absurd rfl h
  | (name, v) :: members, n, k, fuel, t, _, ho, hv, hp, hf => by
      rw [printMembers, printMember] at hf ⊢
      rw [printableMembers, printableMember] at hp
      rw [HoldsMembers, HoldsMember] at hv
      simp only [Bool.and_eq_true] at hp
      simp only [List.length_append, List.length_cons] at hf
      obtain ⟨f, rfl⟩ : ∃ f, fuel = f + 1 := ⟨fuel - 1, by omega⟩
      have hvalue := fun u => parseValue_print v n f u hv.1 hp.1.2 (by omega)
      simp only [List.append_assoc, List.cons_append]
      rw [parseMembers, skip_indent, skip_quote, parseString_quote hp.1.1]
      simp only
      rw [skip_token (by decide)]
      simp only
      rw [parseValue_blank (by decide), hvalue]
      dsimp only
      by_cases hnil : members = []
      · subst hnil
        rw [printMembers]
        simp only [List.isEmpty_nil, if_true, List.nil_append]
        rw [skip_blank (by decide), skip_indent, skip_token (by decide)]
        rfl
      · have hempty : members.isEmpty = false := by simpa using hnil
        have hrest := parseMembers_print members n k f t hnil (List.pairwise_cons.mp ho).2 hv.2 hp.2
          (by omega)
        rw [hempty]
        simp only [Bool.false_eq_true, if_false, List.cons_append, List.nil_append]
        rw [skip_token (by decide)]
        simp only
        rw [parseMembers_blank (by decide), hrest, Option.map_some, insertMember_first ho]

end

/-! ## 6. What is read is a value of the library -/

/-- A member more keeps the order. -/
theorem insertMember_ordered (name : Str) (v : Value) {members : List (Str × Value)}
    (h : Ordered members) : Ordered (insertMember name v members) ∧
      ∀ m ∈ insertMember name v members, m = (name, v) ∨ m ∈ members := by
  induction members with
  | nil =>
      refine ⟨List.pairwise_singleton _ _, fun m hm => Or.inl (List.mem_singleton.mp hm)⟩
  | cons m members ih =>
      obtain ⟨hm, hrest⟩ := List.pairwise_cons.mp h
      obtain ⟨hordered, hmem⟩ := ih hrest
      unfold insertMember
      split
      · rename_i hlt
        refine ⟨List.pairwise_cons.mpr ⟨fun x hx => ?_, h⟩, fun x hx => List.mem_cons.mp hx⟩
        rcases List.mem_cons.mp hx with rfl | hx
        · exact hlt
        · exact lt_trans hlt (hm x hx)
      · rename_i hlt
        split
        · exact ⟨h, fun x hx => Or.inr hx⟩
        · rename_i hne
          have hgt : m.1 < name := (lt_or_gt_of_ne hne).resolve_left hlt
          refine ⟨List.pairwise_cons.mpr ⟨fun x hx => ?_, hordered⟩, fun x hx => ?_⟩
          · rcases hmem x hx with rfl | hx
            · exact hgt
            · exact hm x hx
          · rcases List.mem_cons.mp hx with rfl | hx
            · exact Or.inr List.mem_cons_self
            · exact (hmem x hx).imp_right (List.mem_cons_of_mem _)

/-- **What is read** is in order and can be printed. -/
theorem parse_holds : ∀ (fuel : Nat),
    (∀ s v t, parseValue fuel s = some (v, t) → Holds v ∧ printable v = true) ∧
    (∀ s members t, parseMembers fuel s = some (members, t) →
      Ordered members ∧ ∀ m ∈ members, Holds m.2 ∧ utf8 m.1 = true ∧ printable m.2 = true) := by
  intro fuel
  induction fuel with
  | zero =>
      refine ⟨fun s v t h => ?_, fun s members t h => ?_⟩
      · rw [parseValue] at h
        cases h
      · rw [parseMembers] at h
        cases h
  | succ fuel ih =>
      refine ⟨fun s v t h => ?_, fun s members t h => ?_⟩
      · rw [parseValue] at h
        split at h
        · split at h
          · cases h
            rw [Holds, printable, HoldsMembers, printableMembers]
            exact ⟨⟨List.Pairwise.nil, trivial⟩, rfl⟩
          · obtain ⟨⟨members, rest⟩, hr, heq⟩ := Option.map_eq_some_iff.mp h
            cases heq
            obtain ⟨hordered, hall⟩ := ih.2 _ _ _ hr
            rw [Holds, printable, printableMembers_eq, List.all_eq_true]
            refine ⟨⟨hordered, holdsMembers_iff.mpr fun m hm => (hall m hm).1⟩, fun m hm => ?_⟩
            rw [Bool.and_eq_true]
            exact (hall m hm).2
        · obtain ⟨⟨u, rest⟩, hr, heq⟩ := Option.map_eq_some_iff.mp h
          cases heq
          rw [Holds, printable]
          exact ⟨trivial, utf8_of_parseString hr⟩
      · rw [parseMembers] at h
        split at h
        · cases h
        · rename_i name rest hname
          split at h
          · split at h
            · cases h
            · rename_i v rest' hv
              have hfirst : Holds v ∧ utf8 name = true ∧ printable v = true :=
                ⟨(ih.1 _ _ _ hv).1, utf8_of_parseString hname, (ih.1 _ _ _ hv).2⟩
              split at h
              · cases h
                refine ⟨List.pairwise_singleton _ _, fun m hm => ?_⟩
                rw [List.mem_singleton.mp hm]
                exact hfirst
              · obtain ⟨⟨ms, rest⟩, hr, heq⟩ := Option.map_eq_some_iff.mp h
                cases heq
                obtain ⟨hordered, hall⟩ := ih.2 _ _ _ hr
                obtain ⟨hins, hmem⟩ := insertMember_ordered name v hordered
                refine ⟨hins, fun m hm => ?_⟩
                rcases hmem m hm with rfl | hm
                · exact hfirst
                · exact hall m hm
              · cases h
          · cases h

/-! ## 7. The library -/

/-- `parse`: a value and nothing but blanks after it. -/
def parseText (s : Str) : Option Value :=
  match parseValue (s.length + 1) s with
  | some (v, rest) => if skip rest = [] then some v else none
  | none => none

/-- `dump(4)`. -/
def dumpText (v : Value) : Option Str := if printable v then some (print 0 v) else none

theorem parseText_some {s : Str} {v : Value} (h : parseText s = some v) :
    Holds v ∧ printable v = true := by
  unfold parseText at h
  split at h
  · rename_i w rest hw
    split at h
    · cases h
      exact (parse_holds _).1 _ _ _ hw
    · cases h
  · cases h

theorem dumpText_isSome (v : Value) : (dumpText v).isSome = printable v := by
  unfold dumpText
  cases printable v <;> rfl

/-- **Texts of strings and objects**, as a library. -/
def textLibrary : Library where
  parse := parseText
  dump := dumpText
  Proper := Holds
  proper_string s := by rw [Holds]; exact trivial
  proper_object members ho hm := by
    rw [Holds]
    exact ⟨ho, holdsMembers_iff.mpr hm⟩
  proper_parse s v h := (parseText_some h).1
  dump_string s := by rw [dumpText_isSome, printable]
  dump_object members := by
    rw [dumpText_isSome, printable, printableMembers_eq]
    simp only [dumpText_isSome]
  dump_parse s v h := by
    rw [dumpText_isSome]
    exact (parseText_some h).2
  parse_dump s v hv h := by
    unfold dumpText at h
    split at h
    · rename_i hp
      cases h
      have hread := parseValue_print v 0 ((print 0 v).length + 1) [] hv hp (by omega)
      rw [List.append_nil] at hread
      unfold parseText
      rw [hread]
      rfl
    · cases h

example : dumpText (.object [("a".toList, .string "x\n".toList)]) =
    some "\x7b\n    \"a\": \"x\\n\"\n\x7d".toList := by
  decide +kernel

end Json
