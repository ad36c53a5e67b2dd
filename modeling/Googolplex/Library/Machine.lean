/-
  File:      Googolplex/Library/Machine.lean
  Subject:   Deterministic machines that answer each input or fail: their runs,
             what a run preserves, and when one machine answers like another.

  A step takes a state and an input to `.ok (state, output)` or to `.error`; a
  run stops at the first error. Every fact about all runs is an induction done
  once here; a user supplies what ONE step does.
-/
import Mathlib

namespace Machine

variable {σ ι ο ε : Type}

/-- The run over a list of inputs: the last state and the outputs in order. -/
def run (step : σ → ι → Except ε (σ × ο)) : σ → List ι → Except ε (σ × List ο)
  | s, [] => .ok (s, [])
  | s, i :: is =>
    match step s i with
    | .error e => .error e
    | .ok (s', o) =>
      match run step s' is with
      | .error e => .error e
      | .ok (s'', os) => .ok (s'', o :: os)

/-- `P` holds of every state and input at which the run over the list takes a step. -/
def Along (step : σ → ι → Except ε (σ × ο)) (P : σ → ι → Prop) : σ → List ι → Prop
  | _, [] => True
  | s, i :: is => P s i ∧ ∀ s' o, step s i = .ok (s', o) → Along step P s' is

/-- Some run from `s` ends in `s'`. -/
def Reachable (step : σ → ι → Except ε (σ × ο)) (s s' : σ) : Prop :=
  ∃ is os, run step s is = .ok (s', os)

section Runs

variable {step : σ → ι → Except ε (σ × ο)} {P : σ → ι → Prop} {Inv : σ → Prop}

@[simp] theorem run_nil (s : σ) : run step s [] = .ok (s, []) := rfl

/-- A run of one more input is a step and a run. -/
theorem run_cons {s s'' : σ} {i : ι} {is : List ι} {os : List ο} :
    run step s (i :: is) = .ok (s'', os) ↔
      ∃ s' o os', step s i = .ok (s', o) ∧ run step s' is = .ok (s'', os') ∧ os = o :: os' := by
  constructor
  · intro h
    simp only [run] at h
    cases hs : step s i with
    | error e => rw [hs] at h; cases h
    | ok r =>
        obtain ⟨s', o⟩ := r
        rw [hs] at h
        cases hr : run step s' is with
        | error e => simp only [hr] at h; cases h
        | ok r =>
            obtain ⟨t, os'⟩ := r
            simp only [hr] at h
            cases h
            exact ⟨s', o, os', rfl, hr, rfl⟩
  · rintro ⟨s', o, os', hs, hr, rfl⟩
    simp only [run, hs, hr]

theorem run_append {s s'' : σ} {is js : List ι} {os : List ο} :
    run step s (is ++ js) = .ok (s'', os) ↔
      ∃ s' os₁ os₂, run step s is = .ok (s', os₁) ∧ run step s' js = .ok (s'', os₂) ∧
        os = os₁ ++ os₂ := by
  induction is generalizing s os with
  | nil =>
      constructor
      · intro h
        exact ⟨s, [], os, rfl, h, rfl⟩
      · rintro ⟨s', os₁, os₂, h₁, h₂, rfl⟩
        cases h₁
        exact h₂
  | cons i is ih =>
      constructor
      · intro h
        obtain ⟨t, o, os', hs, hr, rfl⟩ := run_cons.mp h
        obtain ⟨s', os₁, os₂, h₁, h₂, rfl⟩ := ih.mp hr
        exact ⟨s', o :: os₁, os₂, run_cons.mpr ⟨t, o, os₁, hs, h₁, rfl⟩, h₂, rfl⟩
      · rintro ⟨s', os₁, os₂, h₁, h₂, rfl⟩
        obtain ⟨t, o, os', hs, hr, rfl⟩ := run_cons.mp h₁
        exact run_cons.mpr ⟨t, o, os' ++ os₂, hs, ih.mpr ⟨s', os', os₂, hr, h₂, rfl⟩, rfl⟩

/-- A run whose next step fails, fails. -/
theorem run_append_error {s s' : σ} {is : List ι} {os : List ο} {i : ι} {e : ε}
    (h : run step s is = .ok (s', os)) (hs : step s' i = .error e) :
    run step s (is ++ [i]) = .error e := by
  induction is generalizing s os with
  | nil =>
      cases h
      simp only [List.nil_append, run, hs]
  | cons j is ih =>
      obtain ⟨t, o, os', ht, hr, rfl⟩ := run_cons.mp h
      simp only [List.cons_append, run, ht, ih hr]

/-- Each input is answered once. -/
theorem run_length {s s' : σ} {is : List ι} {os : List ο} (h : run step s is = .ok (s', os)) :
    os.length = is.length := by
  induction is generalizing s os with
  | nil => cases h; rfl
  | cons i is ih =>
      obtain ⟨t, o, os', _, hr, rfl⟩ := run_cons.mp h
      simp only [List.length_cons, ih hr]

/-- **What every step at which `P` holds preserves, a run along `P` preserves.** -/
theorem run_invariant
    (hstep : ∀ s i s' o, Inv s → P s i → step s i = .ok (s', o) → Inv s')
    {s s' : σ} {is : List ι} {os : List ο} (h0 : Inv s) (hP : Along step P s is)
    (h : run step s is = .ok (s', os)) : Inv s' := by
  induction is generalizing s os with
  | nil => cases h; exact h0
  | cons i is ih =>
      obtain ⟨t, o, os', hs, hr, rfl⟩ := run_cons.mp h
      exact ih (hstep s i t o h0 hP.1 hs) (hP.2 t o hs) hr

/-- Along is checked by running. -/
def Along.decide (P : σ → ι → Prop) [∀ s i, Decidable (P s i)] :
    (s : σ) → (is : List ι) → Decidable (Along step P s is)
  | _, [] => .isTrue trivial
  | s, i :: is =>
    match hs : step s i with
    | .error e =>
      if hP : P s i then .isTrue ⟨hP, fun s' o h => by rw [hs] at h; cases h⟩
      else .isFalse fun h => hP h.1
    | .ok (s', o) =>
      if hP : P s i then
        match Along.decide P s' is with
        | .isTrue hrest => .isTrue ⟨hP, fun t o' h => by rw [hs] at h; cases h; exact hrest⟩
        | .isFalse hrest => .isFalse fun h => hrest (h.2 s' o hs)
      else .isFalse fun h => hP h.1

instance (P : σ → ι → Prop) [∀ s i, Decidable (P s i)] (s : σ) (is : List ι) :
    Decidable (Along step P s is) := Along.decide P s is

/-- What holds of every state and input, holds along every run. -/
theorem along_all (hP : ∀ s i, P s i) (s : σ) (is : List ι) : Along step P s is := by
  induction is generalizing s with
  | nil => trivial
  | cons i is ih => exact ⟨hP s i, fun s' _ _ => ih s'⟩

theorem along_true (s : σ) (is : List ι) : Along step (fun _ _ => True) s is :=
  along_all (fun _ _ => trivial) s is

/-- What is the same of the states a run can be in is the same along a run. -/
theorem along_congr {Q : σ → ι → Prop}
    (hstep : ∀ s i s' o, Inv s → step s i = .ok (s', o) → Inv s')
    (hPQ : ∀ s i, Inv s → (P s i ↔ Q s i)) {s : σ} {is : List ι} (h0 : Inv s) :
    Along step P s is ↔ Along step Q s is := by
  induction is generalizing s with
  | nil => exact Iff.rfl
  | cons i is ih =>
      exact and_congr (hPQ s i h0) <| forall_congr' fun s' => forall_congr' fun o =>
        forall_congr' fun hs => ih (hstep s i s' o h0 hs)

/-- `P` holds of every state the run over the list passes through, the last one included. -/
def Throughout (step : σ → ι → Except ε (σ × ο)) (P : σ → Prop) (s : σ) (is : List ι) : Prop :=
  ∀ pre s' os, pre <+: is → run step s pre = .ok (s', os) → P s'

/-- The states a run passes through: the first, and those of the rest of the run. -/
theorem throughout_cons {Q : σ → Prop} {s : σ} {i : ι} {is : List ι} :
    Throughout step Q s (i :: is) ↔
      Q s ∧ ∀ s' o, step s i = .ok (s', o) → Throughout step Q s' is := by
  constructor
  · intro h
    refine ⟨h [] s [] List.nil_prefix rfl, fun s' o hs pre t os hpre hr => ?_⟩
    exact h (i :: pre) t (o :: os) (List.prefix_cons_inj i |>.mpr hpre)
      (run_cons.mpr ⟨s', o, os, hs, hr, rfl⟩)
  · intro ⟨h0, hrest⟩ pre t os hpre hr
    cases pre with
    | nil => cases hr; exact h0
    | cons j pre =>
        obtain ⟨rfl, hpre'⟩ := List.cons_prefix_cons.mp hpre
        obtain ⟨s', o, os', hs, hr', rfl⟩ := run_cons.mp hr
        exact hrest s' o hs pre t os' hpre' hr'

/-- **The exact condition on the steps for `P` to hold throughout a run**: `C` says of each step
    whether it keeps `P`, and says nothing of a step that fails. -/
theorem throughout_iff_along {Q : σ → Prop} {C : σ → ι → Prop}
    (hInv : ∀ s i s' o, Inv s → step s i = .ok (s', o) → Inv s')
    (hstep : ∀ s i s' o, Inv s → Q s → step s i = .ok (s', o) → (Q s' ↔ C s i))
    (hfail : ∀ s i e, Inv s → step s i = .error e → C s i)
    {s : σ} {is : List ι} (h0 : Inv s) (hQ : Q s) :
    Throughout step Q s is ↔ Along step C s is := by
  induction is generalizing s with
  | nil =>
      refine ⟨fun _ => trivial, fun _ pre t os hpre hr => ?_⟩
      rw [List.prefix_nil.mp hpre] at hr
      cases hr
      exact hQ
  | cons i is ih =>
      rw [throughout_cons]
      constructor
      · intro ⟨_, hrest⟩
        refine ⟨?_, fun s' o hs => ?_⟩
        · cases hs : step s i with
          | error e => exact hfail s i e h0 hs
          | ok v =>
              obtain ⟨s', o⟩ := v
              have hQ' : Q s' := hrest s' o hs [] s' [] List.nil_prefix rfl
              exact (hstep s i s' o h0 hQ hs).mp hQ'
        · have hQ' : Q s' := hrest s' o hs [] s' [] List.nil_prefix rfl
          exact (ih (hInv s i s' o h0 hs) hQ').mp (hrest s' o hs)
      · intro ⟨hC, hrest⟩
        refine ⟨hQ, fun s' o hs => ?_⟩
        have hQ' : Q s' := (hstep s i s' o h0 hQ hs).mpr hC
        exact (ih (hInv s i s' o h0 hs) hQ').mpr (hrest s' o hs)

/-- **What every step preserves, every reachable state has.** -/
theorem Reachable.invariant (hstep : ∀ s i s' o, Inv s → step s i = .ok (s', o) → Inv s')
    {s s' : σ} (h0 : Inv s) (h : Reachable step s s') : Inv s' := by
  obtain ⟨is, os, hr⟩ := h
  exact run_invariant (fun s i s' o hi _ => hstep s i s' o hi) h0 (along_true s is) hr

/-- What an output is if and only if its input is something, all outputs are if and only if all
    inputs are. -/
theorem run_outputs_iff {C : ι → Prop} {D : ο → Prop}
    (hstep : ∀ s i s' o, Inv s → step s i = .ok (s', o) → Inv s' ∧ (D o ↔ C i))
    {s s' : σ} {is : List ι} {os : List ο} (h0 : Inv s) (h : run step s is = .ok (s', os)) :
    (∀ o ∈ os, D o) ↔ ∀ i ∈ is, C i := by
  induction is generalizing s os with
  | nil =>
      cases h
      simp
  | cons i is ih =>
      obtain ⟨t, o, os', hs, hr, rfl⟩ := run_cons.mp h
      obtain ⟨hInv, hout⟩ := hstep s i t o h0 hs
      rw [List.forall_mem_cons, List.forall_mem_cons, hout, ih hInv hr]

/-- The outputs written down otherwise. -/
theorem run_map {ο' : Type} (f : ο → ο') (s : σ) (is : List ι) :
    run (fun s i => (step s i).map fun v => (v.1, f v.2)) s is =
      (run step s is).map fun v => (v.1, v.2.map f) := by
  induction is generalizing s with
  | nil => rfl
  | cons i is ih =>
      unfold run
      cases step s i with
      | error e => rfl
      | ok r =>
          have hmap : Except.map (fun v : σ × ο => (v.1, f v.2)) (.ok r : Except ε (σ × ο)) =
              .ok (r.1, f r.2) := rfl
          rw [hmap]
          dsimp only
          rw [ih]
          cases run step r.1 is <;> rfl

/-- **What every step at which `P` holds preserves of a state and the outputs so far, a run along `P`
    preserves.** -/
theorem run_recorded (Inv : σ → List ο → Prop)
    (hstep : ∀ s os i s' o, Inv s os → P s i → step s i = .ok (s', o) → Inv s' (os ++ [o]))
    {s s' : σ} {pre : List ο} {is : List ι} {os : List ο} (h0 : Inv s pre) (hP : Along step P s is)
    (h : run step s is = .ok (s', os)) : Inv s' (pre ++ os) := by
  induction is generalizing s pre os with
  | nil =>
      cases h
      rw [List.append_nil]
      exact h0
  | cons i is ih =>
      obtain ⟨t, o, os', hs, hr, rfl⟩ := run_cons.mp h
      rw [List.append_cons]
      exact ih (hstep s pre i t o h0 hP.1 hs) (hP.2 t o hs) hr

theorem Reachable.refl (s : σ) : Reachable step s s := ⟨[], [], rfl⟩

theorem Reachable.next {s s' s'' : σ} {i : ι} {o : ο} (h : Reachable step s s')
    (hs : step s' i = .ok (s'', o)) : Reachable step s s'' := by
  obtain ⟨is, os, hr⟩ := h
  refine ⟨is ++ [i], os ++ [o], run_append.mpr ⟨s', os, [o], hr, ?_, rfl⟩⟩
  exact run_cons.mpr ⟨s'', o, [], hs, rfl, rfl⟩

end Runs

/-! ## Runs that do not end -/

/-- **A run that does not end**: the states it passes through, and what is put in and out. -/
structure Endless (step : σ → ι → Except ε (σ × ο)) (start : σ) (states : ℕ → σ) (inputs : ℕ → ι)
    (outputs : ℕ → ο) : Prop where
  start : states 0 = start
  step : ∀ n, step (states n) (inputs n) = .ok (states (n + 1), outputs n)

section Endless

variable {step : σ → ι → Except ε (σ × ο)} {start : σ} {states : ℕ → σ} {inputs : ℕ → ι}
  {outputs : ℕ → ο}

/-- Its beginnings are runs. -/
theorem Endless.run (h : Endless step start states inputs outputs) (n : ℕ) :
    run step start ((List.range n).map inputs) = .ok (states n, (List.range n).map outputs) := by
  induction n with
  | zero => exact congrArg (fun s => Except.ok (s, [])) h.start.symm
  | succ n ih =>
      rw [List.range_succ, List.map_append, List.map_append, run_append]
      exact ⟨states n, _, [outputs n], ih, run_cons.mpr ⟨_, _, [], h.step n, rfl, rfl⟩, rfl⟩

theorem Endless.reachable (h : Endless step start states inputs outputs) (n : ℕ) :
    Reachable step start (states n) := ⟨_, _, h.run n⟩

/-- **What lasts until an input comes, lasts until then**: and the input comes, if it comes in case
    that lasts for ever. -/
theorem Endless.until (h : Endless step start states inputs outputs) (P : σ → Prop) (mine : ι → Prop)
    (hkeep : ∀ s i s' o, P s → ¬ mine i → step s i = .ok (s', o) → P s') {n : ℕ} (hn : P (states n))
    (hfair : (∀ m, n ≤ m → P (states m)) → ∃ m, n ≤ m ∧ mine (inputs m)) :
    ∃ m, n ≤ m ∧ P (states m) ∧ mine (inputs m) := by
  by_contra hno
  have hlasts : ∀ m, n ≤ m → P (states m) := by
    intro m hm
    induction m, hm using Nat.le_induction with
    | base => exact hn
    | succ m hm ih => exact hkeep _ _ _ _ ih (fun hmine => hno ⟨m, hm, ih, hmine⟩) (h.step m)
  obtain ⟨m, hm, hmine⟩ := hfair hlasts
  exact hno ⟨m, hm, hlasts m hm, hmine⟩

end Endless

/-! ## Refinement of a specification that always answers -/

/-- The run of a total specification: the last state and the outputs in order. -/
def specRun {α κ ω : Type} (spec : α → κ → α × ω) : α → List κ → α × List ω
  | a, [] => (a, [])
  | a, k :: ks =>
    let (a', o) := spec a k
    let (a'', os) := specRun spec a' ks
    (a'', o :: os)

section Refinement

variable {α κ ω : Type} {spec : α → κ → α × ω} {step : σ → ι → Except ε (σ × ο)}
  {R : α → σ → Prop} {In : κ → ι → Prop} {Out : ω → ο → Prop}

/-- **A machine whose every answered step is the specification's has only the specification's
    runs.** -/
theorem run_refines
    (hstep : ∀ a s k i s' o, R a s → In k i → step s i = .ok (s', o) →
      R (spec a k).1 s' ∧ Out (spec a k).2 o)
    {a : α} {s s' : σ} {ks : List κ} {is : List ι} {os : List ο} (hR : R a s)
    (hin : List.Forall₂ In ks is) (h : run step s is = .ok (s', os)) :
    R (specRun spec a ks).1 s' ∧ List.Forall₂ Out (specRun spec a ks).2 os := by
  induction hin generalizing a s os with
  | nil =>
      cases h
      exact ⟨hR, List.Forall₂.nil⟩
  | cons hk _ ih =>
      obtain ⟨t, o, os', hs, hr, rfl⟩ := run_cons.mp h
      obtain ⟨hR', ho⟩ := hstep _ _ _ _ _ _ hR hk hs
      obtain ⟨hRn, hos⟩ := ih hR' hr
      exact ⟨hRn, List.Forall₂.cons ho hos⟩

/-- **If, besides, every step is answered whose specified output is allowed, every run is answered
    whose specified outputs are.** -/
theorem run_answers {Fit : ω → Prop}
    (hstep : ∀ a s k i s' o, R a s → In k i → step s i = .ok (s', o) →
      R (spec a k).1 s' ∧ Out (spec a k).2 o)
    (htotal : ∀ a s k i, R a s → In k i → Fit (spec a k).2 → ∃ s' o, step s i = .ok (s', o))
    {a : α} {s : σ} {ks : List κ} {is : List ι} (hR : R a s) (hin : List.Forall₂ In ks is)
    (hfit : ∀ o ∈ (specRun spec a ks).2, Fit o) : ∃ s' os, run step s is = .ok (s', os) := by
  induction hin generalizing a s with
  | nil => exact ⟨s, [], rfl⟩
  | cons hk _ ih =>
      obtain ⟨t, o, hs⟩ := htotal _ _ _ _ hR hk (hfit _ List.mem_cons_self)
      have hR' := (hstep _ _ _ _ _ _ hR hk hs).1
      obtain ⟨s', os, hr⟩ := ih hR' fun o ho => hfit o (List.mem_cons_of_mem _ ho)
      exact ⟨s', o :: os, run_cons.mpr ⟨t, o, os, hs, hr, rfl⟩⟩

end Refinement

/-! ## Two states that cannot be told apart -/

/-- **Runs from related states answer alike**, when every input `C` allows is answered alike and
    relates the states again. -/
theorem run_alike {step : σ → ι → Except ε (σ × ο)} {R : σ → σ → Prop} {C : ι → Prop}
    (hstep : ∀ a b i, R a b → C i →
      (∃ e, step a i = .error e ∧ step b i = .error e) ∨
        ∃ a' b' o, step a i = .ok (a', o) ∧ step b i = .ok (b', o) ∧ R a' b')
    {a b : σ} {is : List ι} (hR : R a b) (hC : ∀ i ∈ is, C i) :
    (run step a is).map Prod.snd = (run step b is).map Prod.snd := by
  induction is generalizing a b with
  | nil => rfl
  | cons i is ih =>
      rcases hstep a b i hR (hC i List.mem_cons_self) with ⟨e, ha, hb⟩ | ⟨a', b', o, ha, hb, hR'⟩
      · simp only [run, ha, hb]
      · have hrest := ih hR' fun j hj => hC j (List.mem_cons_of_mem _ hj)
        simp only [run, ha, hb]
        cases hra : run step a' is with
        | error e =>
            rw [hra] at hrest
            cases hrb : run step b' is with
            | error e' => rw [hrb] at hrest; cases hrest; rfl
            | ok v => rw [hrb] at hrest; cases hrest
        | ok u =>
            rw [hra] at hrest
            cases hrb : run step b' is with
            | error e' => rw [hrb] at hrest; cases hrest
            | ok v =>
                rw [hrb] at hrest
                have hout : u.2 = v.2 := Except.ok.inj hrest
                show Except.ok (o :: u.2) = Except.ok (o :: v.2)
                rw [hout]

/-! ## What a run shows -/

/-- The outputs of a run, and the error that ends it. -/
def trace (step : σ → ι → Except ε (σ × ο)) : σ → List ι → List (Except ε ο)
  | _, [] => []
  | s, i :: is =>
    match step s i with
    | .error e => [.error e]
    | .ok (s', o) => .ok o :: trace step s' is

section Trace

variable {step : σ → ι → Except ε (σ × ο)}

theorem trace_ok {s s' : σ} {i : ι} {o : ο} (h : step s i = .ok (s', o)) (is : List ι) :
    trace step s (i :: is) = .ok o :: trace step s' is := by
  simp only [trace, h]

theorem trace_error {s : σ} {i : ι} {e : ε} (h : step s i = .error e) (is : List ι) :
    trace step s (i :: is) = [.error e] := by
  simp only [trace, h]

/-- **One input left out** changes nothing else that is shown, if it changes nothing from where it
    stood. -/
theorem trace_eraseIdx {i : ι} {is : List ι} : ∀ {pre : List ι} {s : σ},
    (trace step s (pre ++ i :: is)).eraseIdx pre.length = trace step s (pre ++ is) ↔
      ∀ s' os, run step s pre = .ok (s', os) →
        (trace step s' (i :: is)).tail = trace step s' is := by
  intro pre
  induction pre with
  | nil =>
      intro s
      rw [List.nil_append, List.nil_append, List.length_nil, List.eraseIdx_zero]
      constructor
      · intro h s' os hr
        cases hr
        exact h
      · intro h
        exact h s [] rfl
  | cons j pre ih =>
      intro s
      rw [List.cons_append, List.cons_append, List.length_cons]
      cases hs : step s j with
      | error e =>
          rw [trace_error hs, trace_error hs]
          refine ⟨fun _ s' os hr => ?_, fun _ => rfl⟩
          obtain ⟨t, o, os', ht, _⟩ := run_cons.mp hr
          rw [hs] at ht
          cases ht
      | ok v =>
          obtain ⟨t, o⟩ := v
          rw [trace_ok hs, trace_ok hs, List.eraseIdx_cons_succ, List.cons_inj_right, ih]
          constructor
          · intro h s' os hr
            obtain ⟨t', o', os', ht, hr', _⟩ := run_cons.mp hr
            rw [hs] at ht
            cases ht
            exact h s' os' hr'
          · intro h s' os hr
            exact h s' (o :: os) (run_cons.mpr ⟨t, o, os, hs, hr, rfl⟩)

end Trace

end Machine
