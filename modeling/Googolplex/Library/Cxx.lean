/-
  File:      Googolplex/Library/Cxx.lean
  Subject:   The parts of the C++ standard library the models compute with:
             strings as character lists, `find_last_of` and `substr`,
             `to_string`, `stoi`, and the lookup laws of an ordered map.

  A `std::string` is the list of its characters (a byte is the character of
  that code). Nothing here knows the program that uses it.
-/
import Mathlib

namespace Cxx

/-- A `std::string`. -/
abbrev Str := List Char

/-! ## 1. Ordered maps -/

/-- A `std::map`: finite, ordered by key, equal when all lookups are. -/
abbrev OrdMap (K V : Type) [Ord K] := Std.ExtTreeMap K V compare

section OrdMap

variable {K V : Type} [Ord K] [Std.TransOrd K] [Std.LawfulEqOrd K] [DecidableEq K]

/-- What an assignment leaves at each key. -/
theorem getElem?_assign (m : OrdMap K V) (k a : K) (v : V) :
    (m.insert k v)[a]? = if k = a then some v else m[a]? := by
  rw [Std.ExtTreeMap.getElem?_insert]
  simp only [Std.LawfulEqOrd.compare_eq_iff_eq]

omit [Std.LawfulEqOrd K] [DecidableEq K] in
@[simp] theorem getElem?_assign_self (m : OrdMap K V) (k : K) (v : V) :
    (m.insert k v)[k]? = some v :=
  Std.ExtTreeMap.getElem?_insert_self

theorem getElem?_assign_of_ne (m : OrdMap K V) {k a : K} (v : V) (h : k ≠ a) :
    (m.insert k v)[a]? = m[a]? := by
  rw [getElem?_assign, if_neg h]

theorem getElem?_remove (m : OrdMap K V) (k a : K) :
    (m.erase k)[a]? = if k = a then none else m[a]? := by
  rw [Std.ExtTreeMap.getElem?_erase]
  simp only [Std.LawfulEqOrd.compare_eq_iff_eq]

/-- Assigning what is already there changes nothing. -/
theorem assign_same {m : OrdMap K V} {k : K} {v : V} (h : m[k]? = some v) : m.insert k v = m := by
  refine Std.ExtTreeMap.ext_getElem? fun a => ?_
  rw [getElem?_assign]
  split
  · rename_i e; rw [← e, h]
  · rfl

/-- The last assignment of a key is the one that counts. -/
theorem assign_assign (m : OrdMap K V) (k : K) (v w : V) :
    (m.insert k v).insert k w = m.insert k w := by
  refine Std.ExtTreeMap.ext_getElem? fun a => ?_
  simp only [getElem?_assign]
  split <;> rfl

/-- Assignments of two keys can be made in either order. -/
theorem assign_comm (m : OrdMap K V) {k a : K} (v w : V) (h : k ≠ a) :
    (m.insert k v).insert a w = (m.insert a w).insert k v := by
  refine Std.ExtTreeMap.ext_getElem? fun b => ?_
  simp only [getElem?_assign]
  by_cases hk : k = b
  · rw [if_pos hk, if_neg fun ha => h (hk.trans ha.symm), if_pos hk]
  · rw [if_neg hk, if_neg hk]

end OrdMap

/-! ## 2. Cutting a string at its last occurrence of a character -/

/-- `find_last_of(c)`: the position of the last `c`; `none` is `npos`. -/
def findLastOf (c : Char) : Str → Option Nat
  | [] => none
  | x :: xs =>
    match findLastOf c xs with
    | some i => some (i + 1)
    | none => if x = c then some 0 else none

theorem findLastOf_none {c : Char} : ∀ {s : Str}, findLastOf c s = none ↔ c ∉ s
  | [] => by simp [findLastOf]
  | x :: xs => by
      have ih := findLastOf_none (c := c) (s := xs)
      unfold findLastOf
      cases h : findLastOf c xs with
      | some i =>
          have hm : c ∈ xs := by
            by_contra hn
            rw [ih.mpr hn] at h
            cases h
          simp [hm]
      | none =>
          have hn : c ∉ xs := ih.mp h
          by_cases hx : x = c
          · simp [hx]
          · simp [hx, hn, Ne.symm hx]

/-- A string whose last `c` is followed by `b` is cut right there. -/
theorem findLastOf_append {c : Char} {b : Str} (hb : c ∉ b) :
    ∀ a : Str, findLastOf c (a ++ c :: b) = some a.length
  | [] => by
      have h : findLastOf c b = none := findLastOf_none.mpr hb
      simp [findLastOf, h]
  | x :: xs => by
      have ih := findLastOf_append hb xs
      simp [findLastOf, ih]

/-- Every string with a `c` in it is of that form. -/
theorem findLastOf_some {c : Char} : ∀ {s : Str} {i : Nat}, findLastOf c s = some i →
    ∃ a b, s = a ++ c :: b ∧ c ∉ b ∧ a.length = i
  | [], i, h => by simp [findLastOf] at h
  | x :: xs, i, h => by
      unfold findLastOf at h
      cases hx : findLastOf c xs with
      | some j =>
          rw [hx] at h
          obtain ⟨a, b, rfl, hb, rfl⟩ := findLastOf_some hx
          cases h
          exact ⟨x :: a, b, rfl, hb, rfl⟩
      | none =>
          simp only [hx] at h
          by_cases e : x = c
          · rw [if_pos e] at h
            cases h
            exact ⟨[], xs, by rw [e]; rfl, findLastOf_none.mp hx, rfl⟩
          · rw [if_neg e] at h
            cases h

/-- A string is cut at its first `c` in one way. -/
theorem cut_first {c : Char} : ∀ {a a' b b' : Str}, c ∉ a → c ∉ a' → a ++ c :: b = a' ++ c :: b' →
    a = a' ∧ b = b'
  | [], [], b, b', _, _, h => by
      cases h
      exact ⟨rfl, rfl⟩
  | [], x :: a', b, b', _, h', h => by
      have hx : c = x := (List.cons.inj h).1
      exact absurd (hx ▸ List.mem_cons_self) h'
  | x :: a, [], b, b', h, _, he => by
      have hx : x = c := (List.cons.inj he).1
      exact absurd (hx ▸ List.mem_cons_self) h
  | x :: a, y :: a', b, b', h, h', he => by
      obtain ⟨rfl, htail⟩ := List.cons.inj he
      obtain ⟨rfl, rfl⟩ := cut_first (fun hc => h (List.mem_cons_of_mem _ hc))
        (fun hc => h' (List.mem_cons_of_mem _ hc)) htail
      exact ⟨rfl, rfl⟩

/-- A string is cut at its last `c` in one way. -/
theorem cut_last {c : Char} {a a' b b' : Str} (hb : c ∉ b) (hb' : c ∉ b')
    (h : a ++ c :: b = a' ++ c :: b') : a = a' ∧ b = b' := by
  have hlen : a.length = a'.length := by
    have hpos := findLastOf_append hb a
    rw [h, findLastOf_append hb' a'] at hpos
    exact (Option.some.inj hpos).symm
  obtain ⟨ha, hcons⟩ := List.append_inj h hlen
  exact ⟨ha, (List.cons.inj hcons).2⟩

/-! ## 3. Numbers as text -/

/-- The largest `int`. -/
def intMax : Int := 2147483647

/-- The smallest `int`. -/
def intMin : Int := -2147483648

/-- The decimal digits of a natural number, no leading zeros. -/
def decimal (n : Nat) : Str := Nat.toDigits 10 n

/-- `std::to_string(int)`. -/
def toStr (i : Int) : Str :=
  if i < 0 then '-' :: decimal i.natAbs else decimal i.natAbs

/-- `std::isspace` in the C locale. -/
def isSpace (c : Char) : Bool :=
  c == ' ' || c == '\t' || c == '\n' || c == '\x0b' || c == '\x0c' || c == '\r'

/-- What `std::stoi` throws. -/
inductive StoiError where
  | invalidArgument | outOfRange
  deriving DecidableEq, Repr

/-- The number the leading digits spell, signed; no digits is an `invalid_argument`, a number
    outside `int` an `out_of_range`. -/
def stoiDigits (negative : Bool) (s : Str) : Except StoiError Int :=
  let digits := s.takeWhile Char.isDigit
  if digits = [] then .error .invalidArgument
  else
    let magnitude : Int := Nat.ofDigitChars 10 digits 0
    let value := if negative then -magnitude else magnitude
    if value < intMin ∨ intMax < value then .error .outOfRange else .ok value

/-- `std::stoi`: blanks, at most one sign, digits; what follows is ignored. -/
def stoi (s : Str) : Except StoiError Int :=
  match s.dropWhile isSpace with
  | '-' :: rest => stoiDigits true rest
  | '+' :: rest => stoiDigits false rest
  | rest => stoiDigits false rest

theorem decimal_ne_nil (n : Nat) : decimal n ≠ [] := Nat.toDigits_ne_nil

theorem isDigit_of_mem_decimal {n : Nat} {c : Char} (h : c ∈ decimal n) : c.isDigit = true :=
  Nat.isDigit_of_mem_toDigits (by decide) (by decide) h

theorem decimal_injective {m n : Nat} (h : decimal m = decimal n) : m = n := by
  have hm : Nat.ofDigitChars 10 (decimal m) 0 = m := Nat.ofDigitChars_ten_toDigits
  have hn : Nat.ofDigitChars 10 (decimal n) 0 = n := Nat.ofDigitChars_ten_toDigits
  rw [← hm, h, hn]

@[simp] theorem toStr_natCast (n : Nat) : toStr (n : Int) = decimal n := by
  simp [toStr]

theorem isSpace_of_isDigit {c : Char} (h : c.isDigit = true) : isSpace c = false := by
  unfold isSpace
  simp only [Bool.or_eq_false_iff, beq_eq_false_iff_ne]
  refine ⟨⟨⟨⟨⟨?_, ?_⟩, ?_⟩, ?_⟩, ?_⟩, ?_⟩ <;> (rintro rfl; revert h; decide)

/-- **Blanks at the end are ignored.** -/
theorem stoi_append_blanks {s blanks : Str} (h : ∀ c ∈ blanks, isSpace c = true) :
    stoi (s ++ blanks) = stoi s := by
  have hdigits : ∀ s : Str, (s ++ blanks).takeWhile Char.isDigit = s.takeWhile Char.isDigit := by
    intro s
    induction s with
    | nil =>
        cases blanks with
        | nil => rfl
        | cons c blanks =>
            have hc : ¬ c.isDigit = true := fun hd => by
              have hspace := h c List.mem_cons_self
              rw [isSpace_of_isDigit hd] at hspace
              cases hspace
            exact List.takeWhile_cons_of_neg hc
    | cons c s ih => simp only [List.cons_append, List.takeWhile_cons, ih]
  have hsigned : ∀ negative s, stoiDigits negative (s ++ blanks) = stoiDigits negative s := by
    intro negative s
    unfold stoiDigits
    rw [hdigits]
  unfold stoi
  rw [List.dropWhile_append]
  cases hs : s.dropWhile isSpace with
  | nil =>
      have hall : blanks.dropWhile isSpace = [] := List.dropWhile_eq_nil_iff.mpr h
      simp [hall]
  | cons c rest =>
      rw [if_neg (by simp), List.cons_append]
      by_cases hminus : c = '-'
      · subst hminus
        exact hsigned true rest
      · by_cases hplus : c = '+'
        · subst hplus
          exact hsigned false rest
        · have hunsigned : ∀ more, (match c :: more with
              | '-' :: rest => stoiDigits true rest
              | '+' :: rest => stoiDigits false rest
              | rest => stoiDigits false rest) = stoiDigits false (c :: more) := by
            intro more
            split
            · rename_i heq
              exact absurd (List.cons.inj heq).1 hminus
            · rename_i heq
              exact absurd (List.cons.inj heq).1 hplus
            · rfl
          rw [hunsigned, hunsigned]
          exact hsigned false (c :: rest)

/-- On a string of digits `stoi` is the number they spell, when it fits. -/
theorem stoi_of_digits {s : Str} (hne : s ≠ []) (hd : ∀ c ∈ s, c.isDigit = true) :
    stoi s = if (Nat.ofDigitChars 10 s 0 : Int) ≤ intMax
      then .ok (Nat.ofDigitChars 10 s 0 : Int) else .error .outOfRange := by
  cases s with
  | nil => exact absurd rfl hne
  | cons c cs =>
      have hc := hd c List.mem_cons_self
      have htake : (c :: cs).takeWhile Char.isDigit = c :: cs := List.takeWhile_eq_self_iff.mpr hd
      have hminus : c ≠ '-' := by rintro rfl; revert hc; decide
      have hplus : c ≠ '+' := by rintro rfl; revert hc; decide
      have hstart : stoi (c :: cs) = stoiDigits false (c :: cs) := by
        unfold stoi
        rw [List.dropWhile_cons_of_neg (by simp [isSpace_of_isDigit hc])]
        split
        · rename_i h; cases h; exact absurd rfl hminus
        · rename_i h; cases h; exact absurd rfl hplus
        · rfl
      rw [hstart]
      unfold stoiDigits
      simp only [htake, reduceCtorEq, if_false, Bool.false_eq_true]
      have hlow : ¬ ((Nat.ofDigitChars 10 (c :: cs) 0 : Nat) : Int) < intMin := by
        simp only [intMin]; omega
      by_cases h : ((Nat.ofDigitChars 10 (c :: cs) 0 : Nat) : Int) ≤ intMax
      · rw [if_pos h, if_neg (by omega)]
      · rw [if_neg h, if_pos (by omega)]

/-- What `stoi` reads off digits is not negative. -/
theorem stoi_natural {s : Str} {v : Int} (hne : s ≠ []) (hd : ∀ c ∈ s, c.isDigit = true)
    (h : stoi s = .ok v) : ∃ n : Nat, v = n := by
  rw [stoi_of_digits hne hd] at h
  split at h
  · cases h
    exact ⟨_, rfl⟩
  · cases h

theorem toStr_neg {i : Int} (h : i < 0) : toStr i = '-' :: decimal i.natAbs := if_pos h

theorem toStr_ne_nil (i : Int) : toStr i ≠ [] := by
  unfold toStr
  split
  · exact List.cons_ne_nil _ _
  · exact decimal_ne_nil _

/-- A numeral is made of digits and the minus sign. -/
theorem mem_toStr {i : Int} {c : Char} (h : c ∈ toStr i) : c = '-' ∨ c.isDigit = true := by
  unfold toStr at h
  split at h
  · rcases List.mem_cons.mp h with h | h
    · exact Or.inl h
    · exact Or.inr (isDigit_of_mem_decimal h)
  · exact Or.inr (isDigit_of_mem_decimal h)

theorem toStr_injective {i j : Int} (h : toStr i = toStr j) : i = j := by
  have sign : ∀ {n m : Nat}, '-' :: decimal n ≠ decimal m := by
    intro n m e
    have hd : ('-' : Char).isDigit = true := isDigit_of_mem_decimal (e ▸ List.mem_cons_self)
    exact absurd hd (by decide)
  unfold toStr at h
  split at h <;> split at h
  · have := decimal_injective (List.cons.inj h).2
    omega
  · exact absurd h sign
  · exact absurd h.symm sign
  · have := decimal_injective h
    omega

/-- On a numeral `stoi` is the number, when it fits. -/
theorem stoi_numeral (i : Int) :
    stoi (toStr i) = if intMin ≤ i ∧ i ≤ intMax then .ok i else .error .outOfRange := by
  by_cases hi : i < 0
  · have hval : Nat.ofDigitChars 10 (decimal i.natAbs) 0 = i.natAbs := Nat.ofDigitChars_ten_toDigits
    have htake : (decimal i.natAbs).takeWhile Char.isDigit = decimal i.natAbs :=
      List.takeWhile_eq_self_iff.mpr fun _ => isDigit_of_mem_decimal
    have hstart : stoi (toStr i) = stoiDigits true (decimal i.natAbs) := by
      rw [toStr_neg hi]
      unfold stoi
      rw [List.dropWhile_cons_of_neg (by decide)]
      rfl
    rw [hstart]
    unfold stoiDigits
    simp only [htake, hval, decimal_ne_nil, if_false, if_true]
    have habs : -(i.natAbs : Int) = i := by omega
    have hmax : i ≤ intMax := by unfold intMax; omega
    rw [habs]
    by_cases hmin : intMin ≤ i
    · rw [if_neg (by omega), if_pos ⟨hmin, hmax⟩]
    · rw [if_pos (by omega), if_neg (by omega)]
  · obtain ⟨n, rfl⟩ := Int.eq_ofNat_of_zero_le (show 0 ≤ i by omega)
    have hval : Nat.ofDigitChars 10 (decimal n) 0 = n := Nat.ofDigitChars_ten_toDigits
    rw [toStr_natCast, stoi_of_digits (decimal_ne_nil n) fun _ => isDigit_of_mem_decimal, hval]
    have hmin : intMin ≤ (n : Int) := by unfold intMin; omega
    by_cases hmax : (n : Int) ≤ intMax
    · rw [if_pos hmax, if_pos ⟨hmin, hmax⟩]
    · rw [if_neg hmax, if_neg (by omega)]

/-- `stoi` reads back what `to_string` wrote. -/
theorem stoi_toStr {i : Int} (h1 : intMin ≤ i) (h2 : i ≤ intMax) : stoi (toStr i) = .ok i := by
  rw [stoi_numeral, if_pos ⟨h1, h2⟩]

/-- Of a numeral `stoi` can only return the number itself. -/
theorem stoi_toStr_eq {i v : Int} (h : stoi (toStr i) = .ok v) : v = i := by
  rw [stoi_numeral] at h
  split at h
  · exact (Except.ok.inj h).symm
  · cases h

/-- What `stoi` returns fits in an `int`. -/
theorem stoi_le_intMax {s : Str} {v : Int} (h : stoi s = .ok v) : v ≤ intMax := by
  have key : ∀ b t, stoiDigits b t = .ok v → v ≤ intMax := by
    intro b t ht
    simp only [stoiDigits] at ht
    by_cases hnil : t.takeWhile Char.isDigit = []
    · rw [if_pos hnil] at ht
      cases ht
    · rw [if_neg hnil] at ht
      generalize (if b = true then _ else _ : Int) = w at ht
      by_cases hr : w < intMin ∨ intMax < w
      · rw [if_pos hr] at ht
        cases ht
      · rw [if_neg hr] at ht
        cases ht
        omega
  unfold stoi at h
  split at h <;> exact key _ _ h

end Cxx
