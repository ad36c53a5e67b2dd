/-
  File:      Googolplex/Library/Framing.lean
  Subject:   Messages one after the other in one text: when it can be told where
             one ends and the next begins.

  * `Delimits`: a message can be told from what follows it.
  * `Delimits.flatMap`: a text of such messages is of one list of messages only.
  * `Delimits.lines`: lines up to an empty one; `Delimits.body`: a header that
    determines the length of its body.
-/
import Mathlib

namespace Framing

variable {α M H : Type}

/-- **What is written can be told from what follows it**, for messages of a kind. -/
def Delimits (good : M → Prop) (text : M → List α) : Prop :=
  ∀ m m' x y, good m → good m' → text m ++ x = text m' ++ y → m = m' ∧ x = y

section

variable {good : M → Prop} {text : M → List α}

/-- **A text of messages** is of one list of messages only. -/
theorem Delimits.flatMap (h : Delimits good text) (hne : ∀ m, good m → text m ≠ []) :
    ∀ {ms ms' : List M}, (∀ m ∈ ms, good m) → (∀ m ∈ ms', good m) →
      ms.flatMap text = ms'.flatMap text → ms = ms' := by
  intro ms
  induction ms with
  | nil =>
      intro ms' _ hms' heq
      cases ms' with
      | nil => rfl
      | cons m' ms' =>
          rw [List.flatMap_nil, List.flatMap_cons] at heq
          exact absurd (List.append_eq_nil_iff.mp heq.symm).1 (hne m' (hms' m' List.mem_cons_self))
  | cons m ms ih =>
      intro ms' hms hms' heq
      have hm := hms m List.mem_cons_self
      cases ms' with
      | nil =>
          rw [List.flatMap_nil, List.flatMap_cons] at heq
          exact absurd (List.append_eq_nil_iff.mp heq).1 (hne m hm)
      | cons m' ms' =>
          rw [List.flatMap_cons, List.flatMap_cons] at heq
          obtain ⟨rfl, hrest⟩ := h m m' _ _ hm (hms' m' List.mem_cons_self) heq
          rw [ih (fun n hn => hms n (List.mem_cons_of_mem _ hn))
            (fun n hn => hms' n (List.mem_cons_of_mem _ hn)) hrest]

/-- Lines that can be told apart, up to something no line begins with. -/
theorem Delimits.lines (h : Delimits good text) {stop : List α}
    (hstop : ∀ m x y, good m → text m ++ x ≠ stop ++ y) :
    Delimits (fun ms : List M => ∀ m ∈ ms, good m) fun ms => ms.flatMap text ++ stop := by
  intro ms
  induction ms with
  | nil =>
      intro ms' x y _ hms' heq
      cases ms' with
      | nil => exact ⟨rfl, List.append_cancel_left heq⟩
      | cons m' ms' =>
          simp only [List.flatMap_nil, List.nil_append, List.flatMap_cons, List.append_assoc] at heq
          exact absurd heq.symm (hstop m' _ _ (hms' m' List.mem_cons_self))
  | cons m ms ih =>
      intro ms' x y hms hms' heq
      have hm := hms m List.mem_cons_self
      cases ms' with
      | nil =>
          simp only [List.flatMap_nil, List.nil_append, List.flatMap_cons, List.append_assoc] at heq
          exact absurd heq (hstop m _ _ hm)
      | cons m' ms' =>
          simp only [List.flatMap_cons, List.append_assoc] at heq
          obtain ⟨rfl, hrest⟩ := h m m' _ _ hm (hms' m' List.mem_cons_self) heq
          rw [← List.append_assoc, ← List.append_assoc] at hrest
          obtain ⟨rfl, hxy⟩ := ih ms' x y (fun n hn => hms n (List.mem_cons_of_mem _ hn))
            (fun n hn => hms' n (List.mem_cons_of_mem _ hn)) hrest
          exact ⟨rfl, hxy⟩

/-- One after the other. -/
theorem Delimits.pair {good' : H → Prop} {text' : H → List α} (h : Delimits good text)
    (h' : Delimits good' text') :
    Delimits (fun m : M × H => good m.1 ∧ good' m.2) fun m => text m.1 ++ text' m.2 := by
  intro m m' x y hm hm' heq
  rw [List.append_assoc, List.append_assoc] at heq
  obtain ⟨hfst, hrest⟩ := h _ _ _ _ hm.1 hm'.1 heq
  obtain ⟨hsnd, hxy⟩ := h' _ _ _ _ hm.2 hm'.2 hrest
  exact ⟨Prod.ext hfst hsnd, hxy⟩

/-- A body after a header that can be told from it, and that determines the body's length. -/
theorem Delimits.body {whole : H → Prop} {body : M → List α} {line : H → List α} (header : M → H)
    (h : Delimits whole line) (hwhole : ∀ m, good m → whole (header m))
    (hlen : ∀ m m', good m → good m' → header m = header m' → (body m).length = (body m').length)
    (hdet : ∀ m m', header m = header m' → body m = body m' → m = m') :
    Delimits good fun m => line (header m) ++ body m := by
  intro m m' x y hm hm' heq
  rw [List.append_assoc, List.append_assoc] at heq
  obtain ⟨hheader, hrest⟩ := h _ _ _ _ (hwhole m hm) (hwhole m' hm') heq
  obtain ⟨hbody, hxy⟩ := List.append_inj hrest (hlen m m' hm hm' hheader)
  exact ⟨hdet m m' hheader hbody, hxy⟩

end

end Framing
