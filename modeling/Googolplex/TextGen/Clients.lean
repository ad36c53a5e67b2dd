/-
  File:      Googolplex/TextGen/Clients.lean
  Subject:   The names text_gen makes of clients and titles: folders, files, urls.

  * `folder_injective`: no two addresses share a folder.
  * `decode_encode`: the url of a title is decoded to the title.
-/
import Googolplex.TextGen.Handler

namespace Googolplex.TextGen

open Cxx Posix Posix.FileTree

/-! ## 1. Addresses -/

/-- A byte of an address may be zero. -/
instance neZero_byte : NeZero 256 := ⟨by decide⟩

/-- The address of a client: the acceptor is one of `tcp::v4()`. -/
structure Ipv4 where
  a : Fin 256
  b : Fin 256
  c : Fin 256
  d : Fin 256
  deriving DecidableEq, Repr

/-- `address().to_string()`. -/
def Ipv4.text (client : Ipv4) : Str :=
  decimal client.a ++ '.' :: (decimal client.b ++ '.' :: (decimal client.c ++ '.' :: decimal client.d))

/-- The name of a client's folder. -/
def Ipv4.folder (client : Ipv4) : Name := dot2underscore client.text

theorem dot2underscore_decimal (n : Nat) : dot2underscore (decimal n) = decimal n := by
  unfold dot2underscore
  refine List.map_congr_left (g := id) (fun c hc => ?_) |>.trans (List.map_id _)
  have hdot : c ≠ '.' := by
    rintro rfl
    exact absurd (isDigit_of_mem_decimal hc) (by decide)
  exact if_neg hdot

theorem dot2underscore_append (s t : Str) :
    dot2underscore (s ++ '.' :: t) = dot2underscore s ++ '_' :: dot2underscore t := by
  unfold dot2underscore
  rw [List.map_append, List.map_cons, if_pos rfl]

theorem Ipv4.folder_eq (client : Ipv4) : client.folder =
    decimal client.a ++ '_' :: (decimal client.b ++ '_' :: (decimal client.c ++ '_' ::
      decimal client.d)) := by
  unfold Ipv4.folder Ipv4.text
  simp only [dot2underscore_append, dot2underscore_decimal]

theorem underscore_not_mem (n : Nat) : '_' ∉ decimal n := fun h =>
  absurd (isDigit_of_mem_decimal h) (by decide)

/-- **No two clients share a folder.** -/
theorem folder_injective {c c' : Ipv4} (h : c.folder = c'.folder) : c = c' := by
  rw [Ipv4.folder_eq, Ipv4.folder_eq] at h
  obtain ⟨ha, h⟩ := cut_first (underscore_not_mem _) (underscore_not_mem _) h
  obtain ⟨hb, h⟩ := cut_first (underscore_not_mem _) (underscore_not_mem _) h
  obtain ⟨hc, hd⟩ := cut_first (underscore_not_mem _) (underscore_not_mem _) h
  obtain ⟨a, b, c, d⟩ := c
  obtain ⟨a', b', c', d'⟩ := c'
  obtain rfl : a = a' := Fin.ext (decimal_injective ha)
  obtain rfl : b = b' := Fin.ext (decimal_injective hb)
  obtain rfl : c = c' := Fin.ext (decimal_injective hc)
  obtain rfl : d = d' := Fin.ext (decimal_injective hd)
  rfl

/-- A folder name is made of digits and underscores. -/
theorem mem_folder {client : Ipv4} {x : Char} (h : x ∈ client.folder) :
    x.isDigit = true ∨ x = '_' := by
  rw [Ipv4.folder_eq] at h
  simp only [List.mem_append, List.mem_cons] at h
  rcases h with h | h | h | h | h | h | h
  · exact Or.inl (isDigit_of_mem_decimal h)
  · exact Or.inr h
  · exact Or.inl (isDigit_of_mem_decimal h)
  · exact Or.inr h
  · exact Or.inl (isDigit_of_mem_decimal h)
  · exact Or.inr h
  · exact Or.inl (isDigit_of_mem_decimal h)

theorem Ipv4.folder_ne_nil (client : Ipv4) : client.folder ≠ [] := by
  rw [Ipv4.folder_eq]
  exact List.append_ne_nil_of_left_ne_nil (decimal_ne_nil _) _

theorem Ipv4.folder_plain (client : Ipv4) : Plain client.folder := by
  have hno : ∀ x : Char, x.isDigit = false → x ≠ '_' → x ∉ client.folder := by
    intro x hd hu hx
    rcases mem_folder hx with h | h
    · rw [hd] at h
      cases h
    · exact hu h
  have hdot : '.' ∉ client.folder := hno '.' (by decide) (by decide)
  refine ⟨client.folder_ne_nil, ?_, ?_, hno '/' (by decide) (by decide)⟩
  · intro h
    rw [h] at hdot
    exact hdot List.mem_cons_self
  · intro h
    rw [h] at hdot
    exact hdot List.mem_cons_self

theorem isDigit_ascii {x : Char} (h : x.isDigit = true) : x.toNat < 0x80 := by
  have hx : 48 ≤ x.val ∧ x.val ≤ 57 := by simpa [Char.isDigit] using h
  have hle : x.val.toNat ≤ 57 := UInt32.le_iff_toNat_le.mp hx.2
  exact Nat.lt_of_le_of_lt hle (by decide)

theorem isAlphanum_ascii {x : Char} (h : x.isAlphanum = true) : x.toNat < 0x80 := by
  unfold Char.isAlphanum Char.isAlpha at h
  simp only [Bool.or_eq_true] at h
  rcases h with (hupper | hlower) | hdigit
  · have hx : 65 ≤ x.val ∧ x.val ≤ 90 := by simpa [Char.isUpper] using hupper
    have hle : x.val.toNat ≤ 90 := UInt32.le_iff_toNat_le.mp hx.2
    exact Nat.lt_of_le_of_lt hle (by decide)
  · have hx : 97 ≤ x.val ∧ x.val ≤ 122 := by simpa [Char.isLower] using hlower
    have hle : x.val.toNat ≤ 122 := UInt32.le_iff_toNat_le.mp hx.2
    exact Nat.lt_of_le_of_lt hle (by decide)
  · exact isDigit_ascii hdigit

theorem Ipv4.folder_utf8 (client : Ipv4) : Json.utf8 client.folder = true := by
  refine Json.utf8_of_ascii fun x hx => ?_
  rcases mem_folder hx with h | h
  · exact isDigit_ascii h
  · rw [h]
    decide

/-! ## 2. Titles and prompts -/

theorem mem_title {title : Str} (h : checkTitleValidity title = true) {x : Char} (hx : x ∈ title) :
    x.isAlphanum = true ∨ x ∈ ['.', ' ', '_', '-'] := by
  unfold checkTitleValidity at h
  simp only [Bool.and_eq_true, List.all_eq_true] at h
  have hchar : isTitleChar x = true := h.2 x hx
  unfold isTitleChar at hchar
  simpa only [Bool.or_eq_true, decide_eq_true_eq] using hchar

/-- What is no title character is in no title. -/
theorem not_mem_title {title : Str} (h : checkTitleValidity title = true) {x : Char}
    (hx : x.isAlphanum = false) (hx' : x ∉ ['.', ' ', '_', '-']) : x ∉ title := by
  intro hmem
  rcases mem_title h hmem with h1 | h2
  · rw [hx] at h1
    cases h1
  · exact hx' h2

theorem title_ascii {title : Str} (h : checkTitleValidity title = true) : Json.Ascii title := by
  intro x hx
  rcases mem_title h hx with h1 | h2
  · exact isAlphanum_ascii h1
  · have hall : ∀ c ∈ ['.', ' ', '_', '-'], c.toNat < 0x80 := by simp
    exact hall x h2

theorem prompt_utf8 {text : Str} (h : checkPromptsValidity text = true) : Json.utf8 text = true := by
  refine Json.utf8_of_ascii fun x hx => ?_
  unfold checkPromptsValidity at h
  simp only [Bool.and_eq_true, List.all_eq_true] at h
  have hchar : isPromptChar x = true := h.2 x hx
  unfold isPromptChar at hchar
  simp only [Bool.or_eq_true, decide_eq_true_eq] at hchar
  rcases hchar with h1 | h2
  · exact isAlphanum_ascii h1
  · have hall : ∀ c ∈ ['?', ' ', ',', '_', '-'], c.toNat < 0x80 := by simp
    exact hall x h2

/-! ## 3. Urls -/

/-- A title in a url: each blank as `%20`. -/
def encodeSpaces (title : Str) : Str := title.flatMap fun c => if c = ' ' then "%20".toList else [c]

/-- A character that does not begin a `%20` stays. -/
theorem decodeSpaces_skip {c : Char} {s : Str} (h : ∀ rest, c = '%' → s = '2' :: '0' :: rest → False) :
    decodeSpaces (c :: s) = c :: decodeSpaces s := by
  rw [decodeSpaces]
  exact h

theorem decodeSpaces_cons {c : Char} (s : Str) (h : c ≠ '%') :
    decodeSpaces (c :: s) = c :: decodeSpaces s :=
  decodeSpaces_skip fun _ hc => absurd hc h

/-- A slash is not part of a `%20`. -/
theorem decodeSpaces_slash (s t : Str) :
    decodeSpaces (s ++ '/' :: t) = decodeSpaces s ++ '/' :: decodeSpaces t := by
  induction s using decodeSpaces.induct with
  | case1 rest ih => simp only [List.cons_append, decodeSpaces, ih]
  | case2 c rest hno ih =>
      rw [decodeSpaces_skip hno, List.cons_append, List.cons_append, ← ih]
      refine decodeSpaces_skip ?_
      -- what is no `%20` does not become one by what follows the slash
      intro rest' hc heq
      rcases rest with _ | ⟨x, _ | ⟨y, rest⟩⟩
      · simp at heq
      · simp at heq
      · simp only [List.cons_append, List.cons.injEq] at heq
        exact hno rest hc (by rw [heq.1, heq.2.1])
  | case3 =>
      rw [List.nil_append, decodeSpaces_cons _ (by decide)]
      rfl

/-- A character that begins an encoded title, other than of a `%20`, is the title's own. -/
theorem encodeSpaces_head {title : Str} {c : Char} {rest : Str} (h : encodeSpaces title = c :: rest)
    (hc : c ≠ '%') : ∃ title', title = c :: title' ∧ encodeSpaces title' = rest := by
  cases title with
  | nil => cases h
  | cons x title =>
      by_cases hblank : x = ' '
      · subst hblank
        exact absurd (List.cons.inj h).1.symm hc
      · have hcons : encodeSpaces (x :: title) = x :: encodeSpaces title := by
          simp [encodeSpaces, hblank]
        rw [hcons] at h
        obtain ⟨rfl, hrest⟩ := List.cons.inj h
        exact ⟨title, rfl, hrest⟩

/-- **The url of a title is decoded to the title.** -/
theorem decode_encode {title : Str} (h : ¬ "%20".toList <:+: title) :
    decodeSpaces (encodeSpaces title) = title := by
  induction title with
  | nil => rfl
  | cons c title ih =>
      have hrest := ih fun hin => h (List.infix_cons hin)
      by_cases hblank : c = ' '
      · subst hblank
        show decodeSpaces ('%' :: '2' :: '0' :: encodeSpaces title) = _
        rw [decodeSpaces, hrest]
      · have hcons : encodeSpaces (c :: title) = c :: encodeSpaces title := by
          simp [encodeSpaces, hblank]
        rw [hcons, decodeSpaces_skip, hrest]
        -- a `%20` in the url would be one of the title
        intro rest hc heq
        obtain ⟨title', rfl, h2⟩ := encodeSpaces_head heq (by decide)
        obtain ⟨title'', rfl, _⟩ := encodeSpaces_head h2 (by decide)
        subst hc
        exact h (List.IsPrefix.isInfix ⟨title'', rfl⟩)

theorem decodeSpaces_length (s : Str) : (decodeSpaces s).length ≤ s.length := by
  induction s using decodeSpaces.induct with
  | case1 rest ih =>
      simp only [decodeSpaces, List.length_cons]
      omega
  | case2 c rest hno ih =>
      rw [decodeSpaces_skip hno]
      simp only [List.length_cons]
      omega
  | case3 => exact le_refl _

/-- A text with a `%20` in it gets shorter. -/
theorem decodeSpaces_lt {s : Str} (h : "%20".toList <:+: s) : (decodeSpaces s).length < s.length := by
  induction s using decodeSpaces.induct with
  | case1 rest ih =>
      have := decodeSpaces_length rest
      simp only [decodeSpaces, List.length_cons]
      omega
  | case2 c rest hno ih =>
      rw [decodeSpaces_skip hno]
      rcases List.infix_cons_iff.mp h with hpre | hin
      · obtain ⟨t, ht⟩ := hpre
        obtain ⟨hc, hrest⟩ := List.cons.inj ht
        exact absurd hrest.symm (hno t hc.symm)
      · have := ih hin
        simp only [List.length_cons]
        omega
  | case3 =>
      have := h.length_le
      simp at this

/-- Decoding leaves alone what has no `%20`, and nothing else. -/
theorem decodeSpaces_eq_self {s : Str} : decodeSpaces s = s ↔ ¬ "%20".toList <:+: s := by
  constructor
  · intro h hin
    have := decodeSpaces_lt hin
    rw [h] at this
    omega
  · intro h
    induction s using decodeSpaces.induct with
    | case1 rest ih => exact absurd (List.IsPrefix.isInfix ⟨rest, rfl⟩) h
    | case2 c rest hno ih =>
        rw [decodeSpaces_skip hno, ih fun hin => h (List.infix_cons hin)]
    | case3 => rfl

end Googolplex.TextGen
