/-
  File:      Googolplex/Session/Shared.lean
  Subject:   WHAT THREADS CAN RELY ON while they share the world: from what the programs of the
             request handlers meet, to every run of the server.

  * `Bound`: every handling of a read that is admitted keeps to a relation `E`, from a
    fact `I` that `E` preserves, and comes to what its reply tells.
  * `Shared`: what is known in a state of a run.
  * `shared_reached`: if only such reads are handled, `I` holds throughout, and what a reply
    told still holds.
-/
import Googolplex.Session.Serial

namespace Googolplex.Threads

open Cxx Completions Lifecycle Programs Machine

/-! ## 1. Programs that are bound -/

section

variable {World : Type} {server : Server World}

/-- What is to be known when a handling has come to its result. -/
def Post (tells : Nat → Read → Str → World → Prop) (session : Nat) (bytes : Read) :
    Except Fault Str → World → Prop :=
  fun result world => ∀ reply, result = .ok reply → tells session bytes reply world

/-- **The handlings of the reads that are admitted keep to `E`**, and a reply tells something that `E`
    leaves true. -/
structure Bound (split : Split server) (peer : Nat → Str) (admits : Nat → Read → Prop)
    (E : World → World → Prop) (I : World → Prop) (tells : Nat → Read → Str → World → Prop) :
    Prop where
  stable : Stable E I
  stable_tells : ∀ session bytes reply, Stable E (tells session bytes reply)
  meets : ∀ session bytes, admits session bytes → (split.program (peer session) (Buffer.zero.fill bytes)
    bytes.bytes.length).Meets E (Post tells session bytes) I

/-- A thread that handles a request knows something stable from which it meets its postcondition. -/
def Handled (E : World → World → Prop) (tells : Nat → Read → Str → World → Prop)
    (history : List Event) (world : World) (session : Nat) (handling : Handling World) : Prop :=
  ∃ answered bytes P, readsOf session history = answered ++ [bytes] ∧
    answered.length = (repliesOf session history).length ∧ Stable E P ∧ P world ∧
    handling.Meets E (Post tells session bytes) P

variable {T : Type}

/-- **What is known in a state of a run.** -/
structure Shared (E : World → World → Prop) (I : World → Prop)
    (tells : Nat → Read → Str → World → Prop) (crew : Crew World T) (history : List Event) : Prop where
  world : I crew.system.world
  told : ∀ session, ∃ answered waiting, readsOf session history = answered ++ waiting ∧
    List.Forall₂ (fun bytes reply => tells session bytes reply crew.system.world) answered
      (repliesOf session history)
  handled : ∀ t session handling, crew.pcs t = some (.handling session handling) →
    Handled E tells history crew.system.world session handling

variable {E : World → World → Prop} {I : World → Prop} {tells : Nat → Read → Str → World → Prop}
  {split : Split server} {peer : Nat → Str} {admits : Nat → Read → Prop} {history : List Event}
  {j : Nat}

/-! ## 2. The record -/

theorem readsOf_eq (session : Nat) (history : List Event) :
    readsOf session history =
      (begunOf history).filterMap fun e => if e.1 = session then some e.2 else none := by
  unfold readsOf begunOf
  rw [List.filterMap_filterMap]
  refine List.filterMap_congr fun e _ => ?_
  cases e <;> rfl

theorem repliesOf_eq (session : Nat) (history : List Event) :
    repliesOf session history =
      (repliedOf history).filterMap fun e => if e.1 = session then some e.2 else none := by
  unfold repliesOf repliedOf
  rw [List.filterMap_filterMap]
  refine List.filterMap_congr fun e _ => ?_
  cases e <;> rfl

theorem readsOf_append (session : Nat) (history more : List Event) :
    readsOf session (history ++ more) = readsOf session history ++ readsOf session more :=
  List.filterMap_append

theorem repliesOf_append (session : Nat) (history more : List Event) :
    repliesOf session (history ++ more) = repliesOf session history ++ repliesOf session more :=
  List.filterMap_append

/-- What happens to the others is not in the record of a session. -/
theorem records_other (history : List Event) {more : List Event} (hreads : readsOf j more = [])
    (hreplies : repliesOf j more = []) :
    readsOf j (history ++ more) = readsOf j history ∧
      repliesOf j (history ++ more) = repliesOf j history := by
  rw [readsOf_append, repliesOf_append, hreads, hreplies, List.append_nil, List.append_nil]
  exact ⟨rfl, rfl⟩

/-! ## 3. One access -/

theorem Handled.other {world world' : World} {handling : Handling World} {more : List Event}
    (h : Handled E tells history world j handling) (hworld : world' = world ∨ E world world')
    (hreads : readsOf j more = []) (hreplies : repliesOf j more = []) :
    Handled E tells (history ++ more) world' j handling := by
  obtain ⟨answered, bytes, P, h1, h2, hstable, hP, hmeets⟩ := h
  obtain ⟨hr, hs⟩ := records_other history hreads hreplies
  refine ⟨answered, bytes, P, hr.trans h1, by rw [hs]; exact h2, hstable, ?_, hmeets⟩
  rcases hworld with rfl | hE
  · exact hP
  · exact hstable _ _ hP hE

/-- What was told stays true. -/
theorem Shared.told_other (hb : Bound split peer admits E I tells) {crew : Crew World T}
    (h : Shared E I tells crew history) {world : World}
    (hworld : world = crew.system.world ∨ E crew.system.world world) {more : List Event}
    (hreads : readsOf j more = []) (hreplies : repliesOf j more = []) :
    ∃ answered waiting, readsOf j (history ++ more) = answered ++ waiting ∧
      List.Forall₂ (fun bytes reply => tells j bytes reply world) answered
        (repliesOf j (history ++ more)) := by
  obtain ⟨answered, waiting, h1, h2⟩ := h.told j
  obtain ⟨hr, hs⟩ := records_other history hreads hreplies
  refine ⟨answered, waiting, hr.trans h1, ?_⟩
  rw [hs]
  refine h2.imp fun bytes reply htold => ?_
  rcases hworld with rfl | hE
  · exact htold
  · exact hb.stable_tells j bytes reply _ _ htold hE

variable [DecidableEq T] [Fintype T] {crew : Crew World T} {t : T} {after : After World}

/-- Two threads do not handle requests of one session. -/
theorem Inv.handling_ne (hinv : Inv crew) {u : T} {session k : Nat} {pc : Pc World}
    {handling : Handling World} (hu : u ≠ t) (hpc : crew.pcs t = some pc)
    (hmem : .session session ∈ tokensOf (some pc))
    (hpc' : crew.pcs u = some (.handling k handling)) : k ≠ session := by
  rintro rfl
  refine hu (Tokens.one_thread (hinv.once (.session k)) ?_ ?_)
  · rw [hpc']
    exact List.mem_cons_self
  · rw [hpc]
    exact hmem

omit [Fintype T] in
/-- Where the threads are after an access. -/
theorem pcs_after {u : T} {pc : Pc World} (h : (crew.after t after).1.pcs u = some pc) :
    (u = t ∧ after.pc = some pc) ∨ (u ≠ t ∧ crew.pcs u = some pc) := by
  have hupdate : Function.update crew.pcs t after.pc u = some pc := h
  by_cases hu : u = t
  · subst hu
    rw [Function.update_self] at hupdate
    exact Or.inl ⟨rfl, hupdate⟩
  · rw [Function.update_of_ne hu] at hupdate
    exact Or.inr ⟨hu, hupdate⟩

/-- **An access** keeps what is known. -/
theorem Shared.access (hb : Bound split peer admits E I tells) (h : Shared E I tells crew history)
    (hinv : Inv crew) (hall : ∀ j, At split peer crew history j)
    (ha : Access split peer crew t after)
    (hadmits : ∀ e ∈ begunOf after.event.toList, admits e.1 e.2) :
    Shared E I tells (crew.after t after).1 (history ++ after.event.toList) := by
  cases ha.kind with
  | quiet hbefore hafter hworld hbegun hreplied =>
      have hreads : ∀ j, readsOf j after.event.toList = [] := fun j => by
        rw [readsOf_eq, hbegun]
        rfl
      have hreplies : ∀ j, repliesOf j after.event.toList = [] := fun j => by
        rw [repliesOf_eq, hreplied]
        rfl
      refine ⟨?_, fun j => h.told_other hb (Or.inl hworld) (hreads j) (hreplies j),
        fun u session handling hpc => ?_⟩
      · show I after.system.world
        rw [hworld]
        exact h.world
      · rcases pcs_after hpc with ⟨rfl, hnow⟩ | ⟨hu, hnow⟩
        · rw [hnow] at hafter
          exact absurd trivial hafter
        · exact (h.handled u session handling hnow).other (Or.inl hworld) (hreads _) (hreplies _)
  | @begins session bytes object hpc hobj hafter =>
      obtain ⟨object', hobj', ⟨replied, hreads, hreplies, hanswers⟩, hfilled, hip⟩ :=
        (hall session).thread t _ hpc List.mem_cons_self
      obtain rfl : object = object' := Option.some.inj (hobj.symm.trans hobj')
      rw [List.append_nil] at hreads
      subst hafter
      have hreads' : readsOf session [Event.begun session bytes] = [bytes] := by simp [readsOf]
      have hnoreads : ∀ {k}, k ≠ session → readsOf k [Event.begun session bytes] = [] :=
        fun hk => by simp [readsOf, Ne.symm hk]
      refine ⟨h.world, fun j => ?_, fun u k handling hpc' => ?_⟩
      · by_cases hj : j = session
        · subst hj
          obtain ⟨answered, waiting, h1, h2⟩ := h.told j
          refine ⟨answered, waiting ++ [bytes], ?_, ?_⟩
          · rw [readsOf_append, h1, List.append_assoc]
            exact congrArg _ (congrArg _ hreads')
          · have hsame : repliesOf j (history ++ [Event.begun j bytes]) = repliesOf j history := by
              simp [repliesOf]
            show List.Forall₂ _ _ (repliesOf j (history ++ [Event.begun j bytes]))
            rw [hsame]
            exact h2
        · exact h.told_other hb (Or.inl rfl) (hnoreads hj) rfl
      · rcases pcs_after hpc' with ⟨rfl, hnow⟩ | ⟨hu, hnow⟩
        · cases hnow
          refine ⟨readsOf session history, bytes, I, ?_, ?_, hb.stable, h.world, ?_⟩
          · rw [readsOf_append]
            exact congrArg _ hreads'
          · rw [repliesOf_append, hreads]
            exact hanswers.length_eq.trans (by simp [repliesOf])
          · rw [hfilled, hip]
            exact hb.meets session bytes (hadmits (session, bytes) List.mem_cons_self)
        · have hk := hinv.handling_ne hu hpc List.mem_cons_self hnow
          exact (h.handled u k handling hnow).other (Or.inl rfl) (hnoreads hk) rfl
  | @goesOn session change next hpc hafter =>
      obtain ⟨answered, bytes, P, h1, h2, hstable, hP, hmeets⟩ := h.handled t session _ hpc
      obtain ⟨hE, M, hM, hMworld, hrest⟩ := hmeets _ hP
      subst hafter
      refine ⟨hb.stable _ _ h.world hE, fun j => h.told_other hb (Or.inr hE) rfl rfl,
        fun u k handling hpc' => ?_⟩
      rcases pcs_after hpc' with ⟨rfl, hnow⟩ | ⟨hu, hnow⟩
      · cases hnow
        refine ⟨answered, bytes, M, ?_, ?_, hM, hMworld, hrest⟩
        · simpa using h1
        · simpa using h2
      · exact (h.handled u k handling hnow).other (Or.inr hE) rfl rfl
  | @ends session reply hpc hafter =>
      obtain ⟨answered, bytes, P, h1, h2, hstable, hP, hmeets⟩ := h.handled t session _ hpc
      have htells : tells session bytes reply crew.system.world := hmeets _ hP reply rfl
      subst hafter
      have hreplies : repliesOf session [Event.replied session reply] = [reply] := by simp [repliesOf]
      have hnoreplies : ∀ {k}, k ≠ session → repliesOf k [Event.replied session reply] = [] :=
        fun hk => by simp [repliesOf, Ne.symm hk]
      refine ⟨h.world, fun j => ?_, fun u k handling hpc' => ?_⟩
      · by_cases hj : j = session
        · subst hj
          obtain ⟨answered', waiting, h1', h2'⟩ := h.told j
          have hlength : answered'.length = answered.length := h2'.length_eq.trans h2.symm
          obtain ⟨rfl, _⟩ := List.append_inj (h1'.symm.trans h1) hlength
          refine ⟨answered' ++ [bytes], [], ?_, ?_⟩
          · rw [readsOf_append, h1, List.append_nil]
            exact List.append_nil _
          · rw [repliesOf_append]
            refine List.rel_append h2' ?_
            show List.Forall₂ _ [bytes] (repliesOf j [Event.replied j reply])
            rw [hreplies]
            exact .cons htells .nil
        · exact h.told_other hb (Or.inl rfl) rfl (hnoreplies hj)
      · rcases pcs_after hpc' with ⟨rfl, hnow⟩ | ⟨hu, hnow⟩
        · cases hnow
        · have hk := hinv.handling_ne hu hpc List.mem_cons_self hnow
          exact (h.handled u k handling hnow).other (Or.inl rfl) rfl (hnoreplies hk)

/-! ## 4. Runs -/

/-- **In every run, on any number of threads**, in which all reads that are handled are admitted, what
    `E` preserves holds throughout, and what was told by a reply still holds. -/
theorem shared_reached {world : World} (hb : Bound split peer admits E I tells) (hI : I world)
    {turns : List (Turn T)} {record : List (Option Event)}
    (h : run (Crew.turn split peer) (Crew.initial world) turns = .ok (crew, record))
    (hadmits : ∀ e ∈ begunOf record.reduceOption, admits e.1 e.2) :
    Shared E I tells crew record.reduceOption := by
  have h0 : (Inv (Crew.initial world : Crew World T) ∧
      ∀ j, At split peer (Crew.initial world : Crew World T) ([] : List (Option Event)).reduceOption j) ∧
      ((∀ e ∈ begunOf ([] : List (Option Event)).reduceOption, admits e.1 e.2) →
        Shared E I tells (Crew.initial world : Crew World T)
          ([] : List (Option Event)).reduceOption) :=
    ⟨⟨Inv.initial world, at_initial split peer world⟩, fun _ => ⟨hI, fun j => ⟨[], [], rfl, .nil⟩,
      fun t session handling hpc => by cases hpc⟩⟩
  refine (run_recorded (fun crew record =>
    (Inv crew ∧ ∀ j, At split peer crew record.reduceOption j) ∧
      ((∀ e ∈ begunOf record.reduceOption, admits e.1 e.2) →
        Shared E I tells crew record.reduceOption))
    (fun crew record turn crew' event hinv _ hok => ?_) h0 (along_true _ _) h).2 hadmits
  obtain ⟨⟨hinv, hall⟩, hshared⟩ := hinv
  have hturn := at_turn hall hinv hok
  have hgoes : (∀ e ∈ begunOf (record.reduceOption ++ event.toList), admits e.1 e.2) →
      Shared E I tells crew' (record.reduceOption ++ event.toList) := by
    intro hadmits
    rw [begunOf_append] at hadmits
    have hbefore := hshared fun e he => hadmits e (List.mem_append_left _ he)
    rcases turn_ok hok with ⟨rfl, rfl⟩ | ⟨after, haccess, rfl, rfl⟩
    · simpa using hbefore
    · exact hbefore.access hb hinv hall haccess fun e he => hadmits e (List.mem_append_right _ he)
  rw [List.reduceOption_append]
  cases event <;> exact ⟨hturn, hgoes⟩

end

end Googolplex.Threads
