/-
  File:      Googolplex/Library/Programs.lean
  Subject:   Programs that share a state, access by access, and what can be relied
             on while others run.

  * `Prog`: a program as the accesses it makes, each atomic; `alone` runs it with
    nobody in between.
  * `Pool`: several programs on one state; a schedule says whose access is next.
  * `Meets`: every access is a step of the relation `E` that all programs keep to,
    and what is known after it survives such steps.
  * `Pool.run_meets`: programs that meet their postconditions on their own meet
    them in every interleaving.
  * `Prog.focus`: a program on a part of the state.
  * `Prog.Local`: a program that sees and changes a part only, where `I` holds.
  * `Pool.run_purge`: programs of which others change nothing they see.
-/
import Mathlib

namespace Programs

/-- A program as the accesses it makes to what it shares. -/
inductive Prog (σ α : Type) where
  | done (a : α)
  | access (change : σ → σ) (next : σ → Prog σ α)

section

variable {σ α β : Type}

/-! ## 1. A program alone -/

/-- One program after another. -/
def Prog.bind : Prog σ α → (α → Prog σ β) → Prog σ β
  | .done a, f => f a
  | .access change next, f => .access change fun s => (next s).bind f

instance : Monad (Prog σ) where
  pure := .done
  bind := .bind

/-- One access, that reads and changes. -/
def Prog.atomically (f : σ → σ × α) : Prog σ α :=
  .access (fun s => (f s).1) fun s => .done (f s).2

/-- The whole program, with nobody in between. -/
def Prog.alone : Prog σ α → σ → σ × α
  | .done a, s => (s, a)
  | .access change next, s => (next s).alone (change s)

@[simp] theorem alone_pure (a : α) (s : σ) : (pure a : Prog σ α).alone s = (s, a) := rfl

@[simp] theorem alone_atomically (f : σ → σ × α) (s : σ) : (Prog.atomically f).alone s = f s := rfl

@[simp] theorem alone_bind (p : Prog σ α) (f : α → Prog σ β) (s : σ) :
    (p >>= f).alone s = (f (p.alone s).2).alone (p.alone s).1 := by
  show (p.bind f).alone s = _
  induction p generalizing s with
  | done a => rfl
  | access change next ih => exact ih s (change s)

/-- What is left of a program that ends in an exception: the exception. -/
def outcome {ε : Type} : σ × Except ε α → Except ε (σ × α)
  | (_, .error e) => .error e
  | (s, .ok a) => .ok (s, a)

/-- What a program that is through has returned. -/
def Prog.result : Prog σ α → Option α
  | .done a => some a
  | .access _ _ => none

theorem result_some {p : Prog σ α} {a : α} (h : p.result = some a) : p = .done a := by
  cases p with
  | done b => exact congrArg Prog.done (Option.some.inj h)
  | access change next => cases h

/-- What a program can return, whatever the others do. -/
def Prog.Yields : Prog σ α → α → Prop
  | .done a, b => a = b
  | .access _ next, b => ∃ s, (next s).Yields b

/-! ## 2. What a program relies on and keeps to -/

/-- A fact that survives what others do. -/
def Stable (E : σ → σ → Prop) (P : σ → Prop) : Prop := ∀ s s', P s → E s s' → P s'

/-- **A program meets `Q` from `P`**: every access it makes is a step of `E`, and what is known
    after it is stable. -/
def Prog.Meets (E : σ → σ → Prop) (Q : α → σ → Prop) : Prog σ α → (σ → Prop) → Prop
  | .done a, P => ∀ s, P s → Q a s
  | .access change next, P => ∀ s, P s → E s (change s) ∧
      ∃ P', Stable E P' ∧ P' (change s) ∧ (next s).Meets E Q P'

variable {E : σ → σ → Prop} {Q : α → σ → Prop} {P P' : σ → Prop}

theorem Stable.and (h : Stable E P) (h' : Stable E P') : Stable E fun s => P s ∧ P' s :=
  fun s s' hs hE => ⟨h s s' hs.1 hE, h' s s' hs.2 hE⟩

/-- What is known under a condition on the result alone. -/
theorem Stable.imp {p : Prop} (h : Stable E P) : Stable E fun s => p → P s :=
  fun s s' hs hE hp => h s s' (hs hp) hE

theorem meets_pure {a : α} (h : ∀ s, P s → Q a s) : (pure a : Prog σ α).Meets E Q P := h

/-- The rule of consequence. -/
theorem Prog.Meets.weaken {Q' : α → σ → Prop} {p : Prog σ α} (h : p.Meets E Q P)
    (hP : ∀ s, P' s → P s) (hQ : ∀ a s, Q a s → Q' a s) : p.Meets E Q' P' := by
  induction p generalizing P P' with
  | done a => exact fun s hs => hQ a s (h s (hP s hs))
  | access change next ih =>
      intro s hs
      obtain ⟨hE, M, hstable, hM, hrest⟩ := h s (hP s hs)
      exact ⟨hE, M, hstable, hM, ih s hrest fun _ hs => hs⟩

/-- **The rule of composition**. -/
theorem meets_bind {Q' : β → σ → Prop} {p : Prog σ α} {f : α → Prog σ β} (h : p.Meets E Q P)
    (hf : ∀ a, (f a).Meets E Q' (Q a)) : (p >>= f).Meets E Q' P := by
  show (p.bind f).Meets E Q' P
  induction p generalizing P with
  | done a => exact (hf a).weaken h fun _ _ hs => hs
  | access change next ih =>
      intro s hs
      obtain ⟨hE, M, hstable, hM, hrest⟩ := h s hs
      exact ⟨hE, M, hstable, hM, ih s hrest⟩

/-- **One access**: it keeps to `E`, and what it leaves is stable. -/
theorem meets_atomically {f : σ → σ × α} (hstable : ∀ a, Stable E (Q a))
    (h : ∀ s, P s → E s (f s).1 ∧ Q (f s).2 (f s).1) : (Prog.atomically f).Meets E Q P := by
  intro s hs
  obtain ⟨hE, hQ⟩ := h s hs
  exact ⟨hE, Q (f s).2, hstable _, hQ, fun s hs => hs⟩

/-- **The rule of constancy**: what is stable is kept in mind. -/
theorem Prog.Meets.frame {J : σ → Prop} {p : Prog σ α} (h : p.Meets E Q P) (hJ : Stable E J) :
    p.Meets E (fun a s => J s ∧ Q a s) fun s => J s ∧ P s := by
  induction p generalizing P with
  | done a => exact fun s hs => ⟨hs.1, h s hs.2⟩
  | access change next ih =>
      intro s hs
      obtain ⟨hE, M, hstable, hM, hrest⟩ := h s hs.2
      exact ⟨hE, _, hJ.and hstable, ⟨hJ _ _ hs.1 hE, hM⟩, ih s hrest⟩

/-- A program of which only the steps are known. -/
def Prog.Keeps (E : σ → σ → Prop) : Prog σ α → Prop
  | .done _ => True
  | .access change next => ∀ s, E s (change s) ∧ (next s).Keeps E

theorem keeps_pure (a : α) : (pure a : Prog σ α).Keeps E := trivial

theorem keeps_bind {p : Prog σ α} {f : α → Prog σ β} (h : p.Keeps E) (hf : ∀ a, (f a).Keeps E) :
    (p >>= f).Keeps E := by
  show (p.bind f).Keeps E
  induction p with
  | done a => exact hf a
  | access change next ih => exact fun s => ⟨(h s).1, ih s (h s).2⟩

theorem keeps_atomically {f : σ → σ × α} (h : ∀ s, E s (f s).1) : (Prog.atomically f).Keeps E :=
  fun s => ⟨h s, trivial⟩

theorem Prog.Keeps.mono {E' : σ → σ → Prop} {p : Prog σ α} (h : p.Keeps E)
    (hE : ∀ s s', E s s' → E' s s') : p.Keeps E' := by
  induction p with
  | done a => trivial
  | access change next ih => exact fun s => ⟨hE _ _ (h s).1, ih s (h s).2⟩

/-- What is known of a program is at least what is known before it. -/
theorem Prog.Keeps.meets {J : σ → Prop} {p : Prog σ α} (h : p.Keeps E) (hJ : Stable E J) :
    p.Meets E (fun _ => J) J := by
  induction p with
  | done a => exact fun _ hs => hs
  | access change next ih => exact fun s hs => ⟨(h s).1, J, hJ, hJ _ _ hs (h s).1, ih s (h s).2⟩

/-- Steps that are known only where `I` holds; others may break it, and it may hold again. -/
def Prog.KeepsIn (I : σ → Prop) (E : σ → σ → Prop) : Prog σ α → Prop
  | .done _ => True
  | .access change next => ∀ s, I s → E s (change s) ∧ (next s).KeepsIn I E

variable {I : σ → Prop}

theorem keepsIn_pure (a : α) : (pure a : Prog σ α).KeepsIn I E := trivial

theorem Prog.Keeps.keepsIn {p : Prog σ α} (h : p.Keeps E) : p.KeepsIn I E := by
  induction p with
  | done a => trivial
  | access change next ih => exact fun s _ => ⟨(h s).1, ih s (h s).2⟩

theorem keepsIn_bind {p : Prog σ α} {f : α → Prog σ β} (h : p.KeepsIn I E)
    (hf : ∀ a, (f a).KeepsIn I E) : (p >>= f).KeepsIn I E := by
  show (p.bind f).KeepsIn I E
  induction p with
  | done a => exact hf a
  | access change next ih => exact fun s hs => ⟨(h s hs).1, ih s (h s hs).2⟩

theorem Prog.KeepsIn.keeps {p : Prog σ α} (h : p.KeepsIn I E) (hI : ∀ s, I s) : p.Keeps E := by
  induction p with
  | done a => trivial
  | access change next ih => exact fun s => ⟨(h s (hI s)).1, ih s (h s (hI s)).2⟩

/-- What is seen where `I` holds is known from then on. -/
theorem keepsIn_look {f : σ → α} {next : α → Prog σ β} (hrefl : ∀ s, E s s)
    (h : ∀ s, I s → (next (f s)).KeepsIn I E) :
    (Prog.atomically (fun s => (s, f s)) >>= next).KeepsIn I E := fun s hs => ⟨hrefl s, h s hs⟩

theorem Prog.KeepsIn.mono {E' : σ → σ → Prop} {p : Prog σ α} (h : p.KeepsIn I E)
    (hE : ∀ s s', E s s' → E' s s') : p.KeepsIn I E' := by
  induction p with
  | done a => trivial
  | access change next ih => exact fun s hs => ⟨hE _ _ (h s hs).1, ih s (h s hs).2⟩

/-! ## 3. A part of the state -/

/-- A part of a state, that can be read and replaced. -/
structure View (S σ : Type) where
  get : S → σ
  put : σ → S → S
  get_put : ∀ a s, get (put a s) = a
  put_put : ∀ a b s, put b (put a s) = put b s

/-- A program on the part. -/
def Prog.focus {S : Type} (view : View S σ) : Prog σ α → Prog S α
  | .done a => .done a
  | .access change next =>
    .access (fun s => view.put (change (view.get s)) s) fun s => (next (view.get s)).focus view

/-- With nobody in between it leaves the part as the program does, and the rest as it was. -/
theorem focus_alone {S : Type} (view : View S σ) (p : Prog σ α) {s : S}
    (h : view.put (view.get s) s = s) :
    (p.focus view).alone s = (view.put (p.alone (view.get s)).1 s, (p.alone (view.get s)).2) := by
  induction p generalizing s with
  | done a => exact Prod.ext h.symm rfl
  | access change next ih =>
      have hput : view.put (view.get (view.put (change (view.get s)) s))
          (view.put (change (view.get s)) s) = view.put (change (view.get s)) s := by
        rw [view.get_put, view.put_put]
      have hrest := ih (view.get s) hput
      rw [view.get_put, view.put_put] at hrest
      exact hrest

/-- **What holds of the part**, when a step on the part is a step, and a step does to the part what
    a step on it does. -/
theorem meets_focus {S : Type} {view : View S σ} {E' : S → S → Prop} {p : Prog σ α}
    (hput : ∀ s a, E (view.get s) a → E' s (view.put a s))
    (hget : ∀ s s', E' s s' → E (view.get s) (view.get s')) (h : p.Meets E Q P) :
    (p.focus view).Meets E' (fun a s => Q a (view.get s)) fun s => P (view.get s) := by
  induction p generalizing P with
  | done a => exact fun s hs => h _ hs
  | access change next ih =>
      intro s hs
      obtain ⟨hE, M, hstable, hM, hrest⟩ := h _ hs
      refine ⟨hput _ _ hE, fun s => M (view.get s), fun s s' hs hE' => hstable _ _ hs (hget _ _ hE'),
        ?_, ih _ hrest⟩
      show M (view.get (view.put _ s))
      rw [view.get_put]
      exact hM

theorem keeps_focus {S : Type} {view : View S σ} {E' : S → S → Prop} {p : Prog σ α}
    (hput : ∀ s a, E (view.get s) a → E' s (view.put a s)) (h : p.Keeps E) :
    (p.focus view).Keeps E' := by
  induction p with
  | done a => trivial
  | access change next ih => exact fun s => ⟨hput _ _ (h _).1, ih _ (h _).2⟩

/-- **A program sees no more than `same` tells apart**: on states that are the same to it each access
    does the same, and the program goes on in the same way. -/
def Prog.Sees (same : σ → σ → Prop) : Prog σ α → Prop
  | .done _ => True
  | .access change next => ∀ s s', same s s' →
      same (change s) (change s') ∧ next s = next s' ∧ (next s).Sees same

variable {same : σ → σ → Prop}

theorem sees_pure (a : α) : (pure a : Prog σ α).Sees same := trivial

theorem sees_bind {p : Prog σ α} {f : α → Prog σ β} (h : p.Sees same) (hf : ∀ a, (f a).Sees same) :
    (p >>= f).Sees same := by
  show (p.bind f).Sees same
  induction p with
  | done a => exact hf a
  | access change next ih =>
      intro s s' hs
      obtain ⟨hchange, hnext, hrest⟩ := h s s' hs
      exact ⟨hchange, congrArg (Prog.bind · f) hnext, ih s hrest⟩

theorem sees_atomically {f : σ → σ × α}
    (h : ∀ s s', same s s' → same (f s).1 (f s').1 ∧ (f s).2 = (f s').2) :
    (Prog.atomically f).Sees same :=
  fun s s' hs => ⟨(h s s' hs).1, congrArg Prog.done (h s s' hs).2, trivial⟩

/-- A program that looks, and goes on with what it has seen. -/
theorem sees_look {f : σ → α} {next : α → Prog σ β}
    (h : ∀ s s', same s s' → f s = f s' ∧ (next (f s)).Sees same) :
    (Prog.atomically (fun s => (s, f s)) >>= next).Sees same :=
  fun s s' hs => ⟨hs, congrArg next (h s s' hs).1, (h s s' hs).2⟩

theorem sees_focus {S : Type} {view : View S σ} {same' : S → S → Prop} {p : Prog σ α}
    (hget : ∀ s s', same' s s' → same (view.get s) (view.get s'))
    (hput : ∀ s s' a a', same' s s' → same a a' → same' (view.put a s) (view.put a' s'))
    (h : p.Sees same) : (p.focus view).Sees same' := by
  induction p with
  | done a => trivial
  | access change next ih =>
      intro s s' hs
      obtain ⟨hchange, hnext, hrest⟩ := h _ _ (hget s s' hs)
      exact ⟨hput _ _ _ _ hs hchange, congrArg (Prog.focus view) hnext, ih _ hrest⟩

/-- **A program is local**: it sees no more than `same` tells apart, and keeps to `E` where `I` holds. -/
def Prog.Local (same : σ → σ → Prop) (I : σ → Prop) (E : σ → σ → Prop) (p : Prog σ α) : Prop :=
  p.Sees same ∧ p.KeepsIn I E

theorem local_pure (a : α) : (pure a : Prog σ α).Local same I E := ⟨sees_pure a, keepsIn_pure a⟩

theorem local_bind {p : Prog σ α} {f : α → Prog σ β} (h : p.Local same I E)
    (hf : ∀ a, (f a).Local same I E) : (p >>= f).Local same I E :=
  ⟨sees_bind h.1 fun a => (hf a).1, keepsIn_bind h.2 fun a => (hf a).2⟩

/-- What is seen where `I` holds is known from then on. -/
theorem local_look {f : σ → α} {next : α → Prog σ β} (hin : ∀ s s', same s s' → I s)
    (hsame : ∀ s s', same s s' → f s = f s') (hrefl : ∀ s, E s s)
    (h : ∀ s, I s → (next (f s)).Local same I E) :
    (Prog.atomically (fun s => (s, f s)) >>= next).Local same I E :=
  ⟨sees_look fun s s' hs => ⟨hsame s s' hs, (h s (hin s s' hs)).1⟩,
    keepsIn_look hrefl fun s hs => (h s hs).2⟩

/-! ## 4. Several programs -/

/-- Programs on one state. -/
structure Pool (ι σ α : Type) where
  shared : σ
  progs : ι → Prog σ α

variable {ι : Type} [DecidableEq ι]

/-- The next access of one of them; a program that is through makes none. -/
def Pool.step (pool : Pool ι σ α) (i : ι) : Pool ι σ α :=
  match pool.progs i with
  | .done _ => pool
  | .access change next =>
    ⟨change pool.shared, Function.update pool.progs i (next pool.shared)⟩

/-- The accesses in the order of a schedule. -/
def Pool.run (pool : Pool ι σ α) (schedule : List ι) : Pool ι σ α := schedule.foldl Pool.step pool

/-- Every program of a pool knows something stable from which it meets its postcondition. -/
def Pool.Sound (E : σ → σ → Prop) (Q : ι → α → σ → Prop) (pool : Pool ι σ α) : Prop :=
  ∀ i, ∃ P, Stable E P ∧ P pool.shared ∧ (pool.progs i).Meets E (Q i) P

/-- An access of one program is a step of `E`, or nothing. -/
theorem Pool.Sound.step {Q : ι → α → σ → Prop} {pool : Pool ι σ α} (h : pool.Sound E Q) (i : ι) :
    (pool.step i = pool ∨ E pool.shared (pool.step i).shared) ∧ (pool.step i).Sound E Q := by
  unfold Pool.step
  cases hp : pool.progs i with
  | done a => exact ⟨Or.inl rfl, h⟩
  | access change next =>
      obtain ⟨P, _, hP, hmeets⟩ := h i
      rw [hp] at hmeets
      obtain ⟨hE, M, hstable, hM, hrest⟩ := hmeets _ hP
      refine ⟨Or.inr hE, fun j => ?_⟩
      by_cases hj : j = i
      · obtain rfl := hj
        refine ⟨M, hstable, hM, ?_⟩
        dsimp only
        rw [Function.update_self]
        exact hrest
      · -- what another program knows survives the access
        obtain ⟨P', hstable', hP', hmeets'⟩ := h j
        refine ⟨P', hstable', hstable' _ _ hP' hE, ?_⟩
        dsimp only
        rw [Function.update_of_ne hj]
        exact hmeets'

/-- **Every interleaving**: what `E` preserves holds throughout, and every program stays sound. -/
theorem Pool.run_meets {Q : ι → α → σ → Prop} {I : σ → Prop} (hI : Stable E I) :
    ∀ (schedule : List ι) {pool : Pool ι σ α}, pool.Sound E Q → I pool.shared →
      (pool.run schedule).Sound E Q ∧ I (pool.run schedule).shared
  | [], _, h, h0 => ⟨h, h0⟩
  | i :: schedule, pool, h, h0 => by
      obtain ⟨hstep, hsound⟩ := h.step i
      refine Pool.run_meets hI schedule hsound ?_
      rcases hstep with heq | hE
      · rw [heq]
        exact h0
      · exact hI _ _ h0 hE

omit [DecidableEq ι] in
/-- A program that is through has met its postcondition. -/
theorem Pool.Sound.post {Q : ι → α → σ → Prop} {pool : Pool ι σ α} (h : pool.Sound E Q) {i : ι} {a : α}
    (hdone : pool.progs i = .done a) : Q i a pool.shared := by
  obtain ⟨P, _, hP, hmeets⟩ := h i
  rw [hdone] at hmeets
  exact hmeets _ hP

/-- **Some programs with the others left out**: what they do, and what they see, is what it is with the
    others, if the others leave what they see the same. -/
theorem Pool.run_purge {E' : σ → σ → Prop} {mine : ι → Prop} [DecidablePred mine]
    (hin : ∀ s s', same s s' → I s) (hspare : ∀ s s' s₁, same s s' → E' s s₁ → same s₁ s') :
    ∀ (schedule : List ι) {pool pool' : Pool ι σ α}, same pool.shared pool'.shared →
      (∀ i, mine i → pool.progs i = pool'.progs i ∧ (pool.progs i).Sees same) →
      (∀ i, ¬ mine i → (pool.progs i).KeepsIn I E') →
        same (pool.run schedule).shared (pool'.run (schedule.filter (mine ·))).shared ∧
          ∀ i, mine i →
            (pool.run schedule).progs i = (pool'.run (schedule.filter (mine ·))).progs i
  | [], _, _, hsame, hmine, _ => ⟨hsame, fun i hi => (hmine i hi).1⟩
  | i :: schedule, pool, pool', hsame, hmine, hothers => by
      by_cases hi : mine i
      · -- an access of one of them is made in both pools
        rw [List.filter_cons_of_pos (by simpa using hi)]
        obtain ⟨heq, hsees⟩ := hmine i hi
        have hboth : same (pool.step i).shared (pool'.step i).shared ∧
            (∀ j, mine j → (pool.step i).progs j = (pool'.step i).progs j ∧
              ((pool.step i).progs j).Sees same) ∧
            ∀ j, ¬ mine j → ((pool.step i).progs j).KeepsIn I E' := by
          unfold Pool.step
          rw [← heq]
          cases hp : pool.progs i with
          | done a => exact ⟨hsame, hmine, hothers⟩
          | access change next =>
              rw [hp] at hsees
              obtain ⟨hchange, hnext, hrest⟩ := hsees _ _ hsame
              refine ⟨hchange, fun j hj => ?_, fun j hj => ?_⟩
              · by_cases hji : j = i
                · obtain rfl := hji
                  dsimp only
                  rw [Function.update_self, Function.update_self]
                  exact ⟨hnext, hrest⟩
                · dsimp only
                  rw [Function.update_of_ne hji, Function.update_of_ne hji]
                  exact hmine j hj
              · have hji : j ≠ i := fun h => hj (h ▸ hi)
                dsimp only
                rw [Function.update_of_ne hji]
                exact hothers j hj
        exact Pool.run_purge hin hspare schedule hboth.1 hboth.2.1 hboth.2.2
      · -- an access of another is made in one
        rw [List.filter_cons_of_neg (by simpa using hi)]
        have hone : same (pool.step i).shared pool'.shared ∧
            (∀ j, mine j → (pool.step i).progs j = pool'.progs j ∧
              ((pool.step i).progs j).Sees same) ∧
            ∀ j, ¬ mine j → ((pool.step i).progs j).KeepsIn I E' := by
          unfold Pool.step
          cases hp : pool.progs i with
          | done a => exact ⟨hsame, hmine, hothers⟩
          | access change next =>
              have hkeeps := hothers i hi
              rw [hp] at hkeeps
              obtain ⟨hE, hrest⟩ := hkeeps pool.shared (hin _ _ hsame)
              refine ⟨hspare _ _ _ hsame hE, fun j hj => ?_, fun j hj => ?_⟩
              · have hji : j ≠ i := fun h => hi (h ▸ hj)
                dsimp only
                rw [Function.update_of_ne hji]
                exact hmine j hj
              · by_cases hji : j = i
                · obtain rfl := hji
                  dsimp only
                  rw [Function.update_self]
                  exact hrest
                · dsimp only
                  rw [Function.update_of_ne hji]
                  exact hothers j hj
        exact Pool.run_purge hin hspare schedule hone.1 hone.2.1 hone.2.2

end

end Programs
