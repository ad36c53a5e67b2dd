/-
  File:      Googolplex/Session/Threads.lean
  Subject:   SESSIONS ON SEVERAL THREADS (`server::start` runs the `io_service` on all of
             them): the handlers of session.cc and server.cc access by access.

  A thread that is idle takes an operation that has completed and runs its handler;
  between two accesses of the handler any other thread may make one. What the
  request handlers do to the world they share is a program (`Split`), of which
  nothing but its accesses is known.

  * `Threads.turn`: one access of one thread.
  * `Inv`: every session that is there is held once, by the operation that is
    pending on it or by the thread that runs its handler; so is the acceptor.
  * `threads_life_cycle`: in every state of every schedule, no thread does what a
    handler may not do, and no two threads are at one session.
-/
import Googolplex.Library.Machine
import Googolplex.Library.Programs
import Googolplex.Library.Tokens
import Googolplex.Session.Lifecycle

namespace Googolplex.Threads

open Cxx Completions Lifecycle Programs Machine

/-! ## 1. Threads -/

/-- What there is one of: a session, or the acceptor with the operation on it. -/
inductive Token where
  | session (session : Nat)
  | acceptor
  deriving DecidableEq, Repr

/-- `get_reply`, as far as it comes to what the request handlers share. -/
abbrev Handling (World : Type) := Prog World (Except Fault Str)

/-- **`get_reply` access by access**: on its own it is `getReply`. -/
structure Split {World : Type} (server : Server World) where
  program : Str → Buffer → Int → Handling World
  alone_eq : ∀ clientIp requestData dataLen world,
    outcome ((program clientIp requestData dataLen).alone world) =
      getReply { server with clientIp := clientIp } world requestData dataLen

/-- Where a thread is in a handler; `renew` is that `handle_accept` goes on with `start_accept`. -/
inductive Pc (World : Type) where
  /-- `session::start`: `remote_endpoint`. -/
  | start (session : Nat) (renew : Bool)
  /-- `async_read_some`. -/
  | readSome (session : Nat) (renew : Bool)
  /-- `delete`. -/
  | delete (session : Nat) (renew : Bool)
  /-- `start_accept`: `new session`. -/
  | allocate
  /-- `async_accept`. -/
  | accept (session : Nat)
  /-- `handle_read`: `get_reply` begins; the handler is given the number of the bytes. -/
  | getReply (session : Nat) (bytes : Read)
  /-- The request is handled. -/
  | handling (session : Nat) (handling : Handling World)
  /-- `rep_ = reply`. -/
  | assign (session : Nat) (reply : Str)
  /-- `memset`. -/
  | clear (session : Nat)
  /-- `async_write`. -/
  | write (session : Nat)

/-- What an operation has of what there is one of. -/
def tokensOfOperation : Operation → List Token
  | .accept session => [.session session, .acceptor]
  | .read session => [.session session]
  | .write session => [.session session]

/-- A handler that goes on with `start_accept` has the acceptor. -/
def renewing (renew : Bool) : List Token := if renew then [.acceptor] else []

/-- What a thread has. -/
def tokensOf {World : Type} : Option (Pc World) → List Token
  | none => []
  | some (.start session renew) => .session session :: renewing renew
  | some (.readSome session renew) => .session session :: renewing renew
  | some (.delete session renew) => .session session :: renewing renew
  | some .allocate => [.acceptor]
  | some (.accept session) => [.session session, .acceptor]
  | some (.getReply session _) => [.session session]
  | some (.handling session _) => [.session session]
  | some (.assign session _) => [.session session]
  | some (.clear session) => [.session session]
  | some (.write session) => [.session session]

/-- What the record of a run is about: the handling of a read begins, it comes to a reply, and a
    reply has been sent. -/
inductive Event where
  | begun (session : Nat) (bytes : Read)
  | replied (session : Nat) (reply : Str)
  | sent (session : Nat) (reply : Str)

/-- What one turn leaves: the system, where the thread is, and what is recorded. -/
structure After (World : Type) where
  system : System World
  pc : Option (Pc World)
  event : Option Event

section

variable {World : Type} {server : Server World} (split : Split server) (peer : Nat → Str)

/-! ## 2. Turns -/

/-- An operation has completed, and an idle thread is given its handler. -/
def begin (s : System World) (completion : Completion) : Except Stop (After World) := do
  let s := { s with desk := s.desk.take completion.operation }
  match completion with
  | .accept session error =>
    let object ← s.use session
    let s := s.put session (some { object with connected := !error })
    return ⟨s, some (if error then .delete session true else .start session true), none⟩
  | .read session none => return ⟨s, some (.delete session false), none⟩
  | .read session (some bytes) =>
    let object ← s.use session
    return ⟨s.put session (some { object with inData := object.inData.fill bytes }),
      some (.getReply session bytes), none⟩
  | .write session true => return ⟨s, some (.delete session false), none⟩
  | .write session false =>
    let object ← s.use session
    return ⟨s, some (.start session false), some (.sent session object.rep)⟩

/-- The next access of a thread. -/
def Pc.advance (s : System World) : Pc World → Except Stop (After World)
  | .start session renew => do
    let object ← s.use session
    return ⟨s.put session (some { object with clientIp := peer session }),
      some (.readSome session renew), none⟩
  | .readSome session renew => do
    let _ ← s.use session
    return ⟨s.arm (.read session), if renew then some .allocate else none, none⟩
  | .delete session renew => do
    let s ← s.delete session
    return ⟨s, if renew then some .allocate else none, none⟩
  | .allocate =>
    return ⟨{ s.put s.next (some newSession) with next := s.next + 1 }, some (.accept s.next), none⟩
  | .accept session => do
    let _ ← s.use session
    return ⟨s.arm (.accept session), none, none⟩
  | .getReply session bytes => do
    let object ← s.use session
    return ⟨s, some (.handling session (split.program object.clientIp object.inData
      bytes.bytes.length)), some (.begun session bytes)⟩
  | .handling session (.access change next) => do
    let _ ← s.use session
    return ⟨{ s with world := change s.world }, some (.handling session (next s.world)), none⟩
  | .handling session (.done (.ok reply)) =>
    return ⟨s, some (.assign session reply), some (.replied session reply)⟩
  | .handling _ (.done (.error f)) => .error (.fault f)
  | .assign session reply => do
    let s ← s.setRep session reply
    return ⟨s, some (.clear session), none⟩
  | .clear session => do
    let s ← s.clearInData session
    return ⟨s, some (.write session), none⟩
  | .write session => do
    let _ ← s.use session
    return ⟨s.arm (.write session), none, none⟩

variable {T : Type} [DecidableEq T]

/-- The system, and where the threads are. -/
structure Crew (World T : Type) where
  system : System World
  pcs : T → Option (Pc World)

/-- A turn: a thread is given a completion, or goes on. -/
inductive Turn (T : Type) where
  | take (thread : T) (completion : Completion)
  | go (thread : T)

/-- The thread whose turn it is. -/
def Turn.thread : Turn T → T
  | .take thread _ => thread
  | .go thread => thread

/-- A thread has made its access. -/
def Crew.after (crew : Crew World T) (thread : T) (after : After World) : Crew World T × Option Event :=
  (⟨after.system, Function.update crew.pcs thread after.pc⟩, after.event)

/-- **A turn**. Only an idle thread is given a completion, and only of an operation that is pending;
    a thread that is idle does not go on. -/
def Crew.turn (crew : Crew World T) : Turn T → Except Stop (Crew World T × Option Event)
  | .take thread completion =>
    if (crew.pcs thread).isNone ∧ completion.operation ∈ crew.system.desk.pending then
      (begin crew.system completion).map (crew.after thread)
    else .ok (crew, none)
  | .go thread =>
    match crew.pcs thread with
    | none => .ok (crew, none)
    | some pc => (pc.advance split peer crew.system).map (crew.after thread)

/-- `server::server`, and the threads begin to run. -/
def Crew.initial (world : World) : Crew World T := ⟨System.initial world, fun _ => none⟩

/-- What there is: the acceptor, and the sessions on the heap. -/
def there (s : System World) : Token → Bool
  | .acceptor => true
  | .session session => (s.desk.objects session).isSome

/-- How many hold it. -/
def Crew.held [Fintype T] (crew : Crew World T) (token : Token) : Nat :=
  Tokens.held tokensOfOperation tokensOf crew.system.desk.pending crew.pcs token

end

/-! ## 3. One holder each -/

section Holders

variable {World : Type} {server : Server World} {split : Split server} {peer : Nat → Str} {T : Type}
  [DecidableEq T] [Fintype T] {crew : Crew World T} {t : T} {s : System World} {session : Nat}
  {o : SessionObject} {pc : Pc World}

@[simp] theorem there_acceptor : there s .acceptor = true := rfl

@[simp] theorem there_session : there s (.session session) = (s.desk.objects session).isSome := rfl

/-- **What there is, is held once**; what there is not, by nobody. -/
structure Inv (crew : Crew World T) : Prop where
  held : ∀ token, crew.held token = (there crew.system token).toNat
  fresh : ∀ j, crew.system.next ≤ j → crew.system.desk.objects j = none

omit [DecidableEq T] in
theorem Inv.once (h : Inv crew) (token : Token) : crew.held token ≤ 1 := by
  rw [h.held]
  exact Bool.toNat_le _

/-- The session a thread has is there. -/
theorem Inv.object (h : Inv crew) (ht : .session session ∈ tokensOf (crew.pcs t)) :
    ∃ object, crew.system.desk.objects session = some object := by
  have hpos : 1 ≤ crew.held (.session session) := Tokens.held_of_hand ht
  rw [h.held] at hpos
  refine Option.isSome_iff_exists.mp ?_
  by_contra hno
  rw [there_session, Bool.eq_false_iff.mpr hno] at hpos
  cases hpos

omit [DecidableEq T] in
/-- So is the session of an operation that is pending. -/
theorem Inv.pending_object (h : Inv crew) {operation : Operation}
    (hop : operation ∈ crew.system.desk.pending) :
    ∃ object, crew.system.desk.objects operation.session = some object := by
  have hmem : .session operation.session ∈ tokensOfOperation operation := by
    cases operation <;> exact List.mem_cons_self
  have hpos := List.count_pos_iff.mpr hmem
  have hheld := h.held (.session operation.session)
  unfold Crew.held Tokens.held at hheld
  rw [Tokens.waiting_take hop] at hheld
  refine Option.isSome_iff_exists.mp ?_
  by_contra hno
  rw [there_session, Bool.eq_false_iff.mpr hno, Bool.toNat_false] at hheld
  omega

/-- Nothing is pending on the session a thread has. -/
theorem Inv.not_pending (h : Inv crew) (ht : .session session ∈ tokensOf (crew.pcs t))
    {operation : Operation} (ho : operation.session = session) :
    operation ∉ crew.system.desk.pending := by
  intro hop
  refine Tokens.not_both (h.once (.session session)) hop ?_ ht
  cases operation <;> cases ho <;> exact List.mem_cons_self

/-- The thread has the session, before an access or after it. -/
def Touches (crew : Crew World T) (t : T) (after : After World) (session : Nat) : Prop :=
  .session session ∈ tokensOf (crew.pcs t) ∨ .session session ∈ tokensOf after.pc

/-- **What an access of a thread leaves**: the numbers add up, and no session was touched but one the
    thread has. -/
structure Moved (crew : Crew World T) (t : T) (after : After World) : Prop where
  balance : ∀ token, Tokens.waiting tokensOfOperation after.system.desk.pending token +
      (tokensOf after.pc).count token + (there crew.system token).toNat =
    Tokens.waiting tokensOfOperation crew.system.desk.pending token +
      (tokensOf (crew.pcs t)).count token + (there after.system token).toNat
  fresh : ∀ j, after.system.next ≤ j → after.system.desk.objects j = none
  frame : ∀ j, ¬ Touches crew t after j →
    after.system.desk.objects j = crew.system.desk.objects j
  pending : ∀ operation : Operation, ¬ Touches crew t after operation.session →
    (operation ∈ after.system.desk.pending ↔ operation ∈ crew.system.desk.pending)
  next_le : crew.system.next ≤ after.system.next

theorem Inv.moved (h : Inv crew) {after : After World} (hmoved : Moved crew t after) :
    Inv (crew.after t after).1 where
  held token := by
    have hbalance := hmoved.balance token
    have hheld := h.held token
    have hmove : crew.held token + Tokens.waiting tokensOfOperation after.system.desk.pending token +
          (tokensOf after.pc).count token =
        (crew.after t after).1.held token +
          Tokens.waiting tokensOfOperation crew.system.desk.pending token +
          (tokensOf (crew.pcs t)).count token := (Tokens.held_move t after.pc).symm
    show (crew.after t after).1.held token = (there after.system token).toNat
    omega
  fresh := hmoved.fresh

theorem use_eq (hobj : s.desk.objects session = some o) : s.use session = .ok o := by
  unfold System.use
  rw [hobj]

/-- A session that is there has other members, or an operation is begun, or neither. -/
theorem there_put (hobj : s.desk.objects session = some o) (o' : SessionObject) (token : Token) :
    there (s.put session (some o')) token = there s token := by
  cases token with
  | acceptor => rfl
  | session j =>
      show ((s.put session (some o')).desk.objects j).isSome = (s.desk.objects j).isSome
      by_cases hj : j = session
      · have hself : (s.put session (some o')).desk.objects session = some o' := put_self
        rw [hj, hself, hobj]
        rfl
      · exact congrArg Option.isSome (put_other hj)

theorem fresh_put (hfresh : ∀ j, s.next ≤ j → s.desk.objects j = none)
    (hobj : s.desk.objects session = some o) (o' : Option SessionObject) :
    ∀ j, s.next ≤ j → (s.put session o').desk.objects j = none := by
  intro j hj
  have hne : j ≠ session := by
    rintro rfl
    rw [hfresh _ hj] at hobj
    cases hobj
  exact (put_other hne).trans (hfresh j hj)

omit [DecidableEq T] [Fintype T] in
/-- A session that is not touched is not the one of a token the thread has. -/
theorem Touches.ne {after : After World} {j : Nat} (hj : ¬ Touches crew t after j)
    (hmem : .session session ∈ tokensOf (crew.pcs t)) : j ≠ session := by
  rintro rfl
  exact hj (Or.inl hmem)

/-- An access that begins no operation, and makes or deletes no session. -/
theorem Inv.stay (h : Inv crew) {after : After World}
    (hmem : .session session ∈ tokensOf (crew.pcs t))
    (hpending : after.system.desk.pending = crew.system.desk.pending)
    (htokens : tokensOf after.pc = tokensOf (crew.pcs t))
    (hdesk : (∃ o', after.system.desk = (crew.system.put session (some o')).desk) ∨
      after.system.desk = crew.system.desk)
    (hnext : after.system.next = crew.system.next) : Moved crew t after := by
  obtain ⟨object, hobj⟩ := h.object hmem
  have hsame : ∀ token, there after.system token = there crew.system token := by
    intro token
    cases token with
    | acceptor => rfl
    | session j =>
        rcases hdesk with ⟨o', hdesk⟩ | hdesk
        · rw [← there_put hobj o', there_session, there_session, hdesk]
        · rw [there_session, there_session, hdesk]
  refine ⟨fun token => by rw [hpending, htokens, hsame], ?_, fun j hj => ?_,
    fun operation _ => by rw [hpending], hnext.ge⟩
  · rw [hnext]
    rcases hdesk with ⟨o', hdesk⟩ | hdesk
    · rw [hdesk]
      exact fresh_put h.fresh hobj _
    · rw [hdesk]
      exact h.fresh
  · rcases hdesk with ⟨o', hdesk⟩ | hdesk
    · rw [hdesk]
      exact put_other (Touches.ne hj hmem)
    · rw [hdesk]

omit [DecidableEq T] in
/-- An access that begins an operation, which takes over what it is of. -/
theorem Inv.arm (h : Inv crew) {after : After World} (operation : Operation)
    (hsystem : after.system = crew.system.arm operation)
    (htokens : tokensOf (crew.pcs t) = tokensOfOperation operation ++ tokensOf after.pc) :
    Moved crew t after := by
  have hpending : after.system.desk.pending = operation :: crew.system.desk.pending := by
    rw [hsystem]
    rfl
  have hmem : .session operation.session ∈ tokensOf (crew.pcs t) := by
    rw [htokens]
    cases operation <;> exact List.mem_cons_self
  refine ⟨fun token => ?_, ?_, fun j _ => by rw [hsystem]; rfl, fun other hother => ?_,
    by rw [hsystem]; exact le_refl _⟩
  · have hsame : there after.system token = there crew.system token := by
      rw [hsystem]
      cases token <;> rfl
    rw [hpending, Tokens.waiting_arm, htokens, List.count_append, hsame]
    omega
  · rw [hsystem]
    exact h.fresh
  · rw [hpending, List.mem_cons, or_iff_right]
    rintro rfl
    exact Touches.ne hother hmem rfl

/-- `delete`. -/
theorem Inv.delete (h : Inv crew) {renew : Bool} (hpc : crew.pcs t = some (.delete session renew)) :
    ∃ s', crew.system.delete session = .ok s' ∧
      Moved crew t ⟨s', if renew then some .allocate else none, none⟩ := by
  have hmem : .session session ∈ tokensOf (crew.pcs t) := by
    rw [hpc]
    exact List.mem_cons_self
  obtain ⟨object, hobj⟩ := h.object hmem
  refine ⟨crew.system.put session none, by unfold System.delete; rw [hobj], fun token => ?_,
    fresh_put h.fresh hobj none, fun j hj => put_other (Touches.ne hj hmem), fun _ _ => Iff.rfl,
    le_refl _⟩
  rw [hpc]
  show Tokens.waiting _ crew.system.desk.pending token + _ + _ = _
  cases token with
  | acceptor => cases renew <;> simp [tokensOf, renewing]
  | session j =>
      by_cases hj : j = session
      · have hself : (crew.system.put session none).desk.objects session = none := put_self
        rw [hj, there_session, there_session, hobj, hself]
        cases renew <;> simp [tokensOf, renewing]
      · have hother : (crew.system.put session none).desk.objects j = crew.system.desk.objects j :=
          put_other hj
        rw [there_session, there_session, hother]
        cases renew <;> simp [tokensOf, renewing, Ne.symm hj]

omit [DecidableEq T] in
/-- `new session`. -/
theorem Inv.allocate (h : Inv crew) (hpc : crew.pcs t = some .allocate) :
    Moved crew t ⟨{ crew.system.put crew.system.next (some newSession) with
      next := crew.system.next + 1 }, some (.accept crew.system.next), none⟩ where
  balance token := by
    rw [hpc]
    show Tokens.waiting _ crew.system.desk.pending token + _ + _ = _
    cases token with
    | acceptor => simp [tokensOf]
    | session j =>
        by_cases hj : j = crew.system.next
        · have hself : ({ crew.system.put crew.system.next (some newSession) with
              next := crew.system.next + 1 } : System World).desk.objects crew.system.next =
              some newSession := put_self
          rw [hj, there_session, there_session, hself, h.fresh _ (le_refl _)]
          simp [tokensOf]
        · have hother : ({ crew.system.put crew.system.next (some newSession) with
              next := crew.system.next + 1 } : System World).desk.objects j =
              crew.system.desk.objects j := put_other hj
          rw [there_session, there_session, hother]
          simp [tokensOf, Ne.symm hj]
  fresh j hj := by
    have hlt : crew.system.next + 1 ≤ j := hj
    exact (put_other (by omega)).trans (h.fresh j (by omega))
  frame j hj := by
    refine put_other ?_
    rintro rfl
    exact hj (Or.inr List.mem_cons_self)
  pending _ _ := Iff.rfl
  next_le := Nat.le_succ _

/-- **The next access of a thread** is none that a handler may not make: it is made, or the request
    handler ends in its exception. -/
theorem Inv.advance (h : Inv crew) (hpc : crew.pcs t = some pc) (split : Split server)
    (peer : Nat → Str) : (∃ f, pc.advance split peer crew.system = .error (.fault f)) ∨
      ∃ after, pc.advance split peer crew.system = .ok after ∧ Moved crew t after := by
  have hhead : ∀ {session}, .session session ∈ tokensOf (some pc) →
      .session session ∈ tokensOf (crew.pcs t) := fun hs => by rw [hpc]; exact hs
  cases pc with
  | start session renew =>
      have hmem := hhead List.mem_cons_self
      obtain ⟨object, hobj⟩ := h.object hmem
      refine Or.inr ⟨_, by rw [Pc.advance, use_eq hobj]; rfl, ?_⟩
      exact h.stay hmem rfl (by rw [hpc]; rfl) (Or.inl ⟨_, rfl⟩) rfl
  | readSome session renew =>
      have hmem := hhead List.mem_cons_self
      obtain ⟨object, hobj⟩ := h.object hmem
      refine Or.inr ⟨_, by rw [Pc.advance, use_eq hobj]; rfl, ?_⟩
      exact h.arm (.read session) rfl (by rw [hpc]; cases renew <;> rfl)
  | delete session renew =>
      obtain ⟨s', hdelete, hmoved⟩ := h.delete hpc
      exact Or.inr ⟨_, by rw [Pc.advance, hdelete]; rfl, hmoved⟩
  | allocate => exact Or.inr ⟨_, rfl, h.allocate hpc⟩
  | accept session =>
      have hmem := hhead List.mem_cons_self
      obtain ⟨object, hobj⟩ := h.object hmem
      refine Or.inr ⟨_, by rw [Pc.advance, use_eq hobj]; rfl, ?_⟩
      exact h.arm (.accept session) rfl (by rw [hpc]; rfl)
  | getReply session bytes =>
      have hmem := hhead List.mem_cons_self
      obtain ⟨object, hobj⟩ := h.object hmem
      refine Or.inr ⟨_, by rw [Pc.advance, use_eq hobj]; rfl, ?_⟩
      exact h.stay hmem rfl (by rw [hpc]; rfl) (Or.inr rfl) rfl
  | handling session handling =>
      have hmem := hhead List.mem_cons_self
      obtain ⟨object, hobj⟩ := h.object hmem
      cases handling with
      | access change next =>
          refine Or.inr ⟨_, by rw [Pc.advance, use_eq hobj]; rfl, ?_⟩
          exact h.stay hmem rfl (by rw [hpc]; rfl) (Or.inr rfl) rfl
      | done answer =>
          cases answer with
          | error f => exact Or.inl ⟨f, rfl⟩
          | ok reply =>
              exact Or.inr ⟨_, rfl, h.stay hmem rfl (by rw [hpc]; rfl) (Or.inr rfl) rfl⟩
  | assign session reply =>
      have hmem := hhead List.mem_cons_self
      obtain ⟨object, hobj⟩ := h.object hmem
      have hidle : .write session ∉ crew.system.desk.pending := h.not_pending hmem rfl
      refine Or.inr ⟨_, by rw [Pc.advance, System.setRep, use_eq hobj, ok_bind, if_neg hidle]; rfl, ?_⟩
      exact h.stay hmem rfl (by rw [hpc]; rfl) (Or.inl ⟨_, rfl⟩) rfl
  | clear session =>
      have hmem := hhead List.mem_cons_self
      obtain ⟨object, hobj⟩ := h.object hmem
      have hidle : .read session ∉ crew.system.desk.pending := h.not_pending hmem rfl
      refine Or.inr ⟨_, by rw [Pc.advance, System.clearInData, use_eq hobj, ok_bind, if_neg hidle]; rfl,
        ?_⟩
      exact h.stay hmem rfl (by rw [hpc]; rfl) (Or.inl ⟨_, rfl⟩) rfl
  | write session =>
      have hmem := hhead List.mem_cons_self
      obtain ⟨object, hobj⟩ := h.object hmem
      refine Or.inr ⟨_, by rw [Pc.advance, use_eq hobj]; rfl, ?_⟩
      exact h.arm (.write session) rfl (by rw [hpc]; rfl)

omit [DecidableEq T] in
/-- An operation that is pending is taken by an idle thread, with what it has. -/
theorem Inv.take (h : Inv crew) (hidle : crew.pcs t = none) {operation : Operation} {after : After World}
    (hop : operation ∈ crew.system.desk.pending)
    (hdesk : (∃ o', after.system.desk =
        (crew.system.desk.take operation).put operation.session (some o')) ∨
      after.system.desk = crew.system.desk.take operation)
    (htokens : tokensOf after.pc = tokensOfOperation operation)
    (hnext : after.system.next = crew.system.next) : Moved crew t after := by
  obtain ⟨object, hobj⟩ := h.pending_object hop
  have hmem : .session operation.session ∈ tokensOf after.pc := by
    rw [htokens]
    cases operation <;> exact List.mem_cons_self
  have hpending : after.system.desk.pending = crew.system.desk.pending.erase operation := by
    rcases hdesk with ⟨o', hdesk⟩ | hdesk <;> rw [hdesk] <;> rfl
  have hframe : ∀ j, j ≠ operation.session →
      after.system.desk.objects j = crew.system.desk.objects j := by
    intro j hj
    rcases hdesk with ⟨o', hdesk⟩ | hdesk
    · rw [hdesk]
      exact put_other hj
    · rw [hdesk]
      rfl
  have hsome : (after.system.desk.objects operation.session).isSome = true := by
    rcases hdesk with ⟨o', hdesk⟩ | hdesk
    · rw [hdesk]
      exact congrArg Option.isSome put_self
    · rw [hdesk]
      exact congrArg Option.isSome hobj
  refine ⟨fun token => ?_, fun j hj => ?_, fun j hj => ?_, fun other hother => ?_, hnext.ge⟩
  · have hsame : there after.system token = there crew.system token := by
      cases token with
      | acceptor => rfl
      | session j =>
          rw [there_session, there_session]
          by_cases hj : j = operation.session
          · rw [hj, hsome, hobj]
            rfl
          · rw [hframe j hj]
    rw [hpending, htokens, hsame, hidle, Tokens.waiting_take hop]
    show _ = _ + 0 + _
    omega
  · rw [hnext] at hj
    rw [hframe j, h.fresh j hj]
    rintro rfl
    rw [h.fresh _ hj] at hobj
    cases hobj
  · refine hframe j ?_
    rintro rfl
    exact hj (Or.inr hmem)
  · rw [hpending, List.mem_erase_of_ne]
    rintro rfl
    exact hother (Or.inr hmem)

omit [DecidableEq T] in
/-- **A completion** of an operation that is pending passes what the operation has to the thread. -/
theorem Inv.begin (h : Inv crew) (hidle : crew.pcs t = none) {completion : Completion}
    (hop : completion.operation ∈ crew.system.desk.pending) :
    ∃ after, begin crew.system completion = .ok after ∧ Moved crew t after := by
  obtain ⟨object, hobj⟩ := h.pending_object hop
  have huse : ∀ {operation : Operation}, completion.operation = operation →
      ({ crew.system with desk := crew.system.desk.take operation } : System World).use
        operation.session = .ok object := by
    rintro _ rfl
    exact use_eq hobj
  unfold Threads.begin
  cases completion with
  | accept session error =>
      have huse := @huse (.accept session) rfl
      refine ⟨_, by dsimp only [Completion.operation, Operation.session] at huse ⊢; rw [huse]; rfl, ?_⟩
      exact h.take hidle hop (Or.inl ⟨_, rfl⟩) (by cases error <;> rfl) rfl
  | read session bytes =>
      cases bytes with
      | none => exact ⟨_, rfl, h.take hidle hop (Or.inr rfl) rfl rfl⟩
      | some bytes =>
          have huse := @huse (.read session) rfl
          refine ⟨_, by dsimp only [Completion.operation, Operation.session] at huse ⊢; rw [huse]; rfl,
            ?_⟩
          exact h.take hidle hop (Or.inl ⟨_, rfl⟩) rfl rfl
  | write session error =>
      cases error with
      | true => exact ⟨_, rfl, h.take hidle hop (Or.inr rfl) rfl rfl⟩
      | false =>
          have huse := @huse (.write session) rfl
          refine ⟨_, by dsimp only [Completion.operation, Operation.session] at huse ⊢; rw [huse]; rfl,
            ?_⟩
          exact h.take hidle hop (Or.inr rfl) rfl rfl

/-- **A turn** is one that changes nothing, or leaves what an access leaves, or ends in the exception
    of a request handler. -/
theorem Inv.turn (h : Inv crew) (split : Split server) (peer : Nat → Str) (turn : Turn T) :
    crew.turn split peer turn = .ok (crew, none) ∨
      (∃ f, crew.turn split peer turn = .error (.fault f)) ∨
      ∃ after, crew.turn split peer turn = .ok (crew.after turn.thread after) ∧
        Moved crew turn.thread after := by
  cases turn with
  | take thread completion =>
      unfold Crew.turn
      by_cases hok : (crew.pcs thread).isNone ∧ completion.operation ∈ crew.system.desk.pending
      · obtain ⟨after, hbegin, hmoved⟩ := h.begin (Option.isNone_iff_eq_none.mp hok.1) hok.2
        dsimp only
        rw [if_pos hok, hbegin]
        exact Or.inr (Or.inr ⟨after, rfl, hmoved⟩)
      · exact Or.inl (if_neg hok)
  | go thread =>
      unfold Crew.turn
      cases hpc : crew.pcs thread with
      | none => exact Or.inl (by dsimp only; rw [hpc])
      | some pc =>
          dsimp only
          rw [hpc]
          rcases h.advance hpc split peer with ⟨f, hfault⟩ | ⟨after, hok, hmoved⟩
          · exact Or.inr (Or.inl ⟨f, by dsimp only; rw [hfault]; rfl⟩)
          · exact Or.inr (Or.inr ⟨after, by dsimp only; rw [hok]; rfl, hmoved⟩)

/-- **What a turn that changes anything is**: a completion taken, or the next access. -/
inductive Access (split : Split server) (peer : Nat → Str) (crew : Crew World T) (t : T)
    (after : After World) : Prop
  | take {completion : Completion} (hidle : crew.pcs t = none)
      (hop : completion.operation ∈ crew.system.desk.pending)
      (h : Threads.begin crew.system completion = .ok after)
  | go {pc : Pc World} (hpc : crew.pcs t = some pc) (h : pc.advance split peer crew.system = .ok after)

theorem Inv.access (h : Inv crew) {split : Split server} {peer : Nat → Str} {after : After World}
    (ha : Access split peer crew t after) : Moved crew t after := by
  cases ha with
  | take hidle hop hok =>
      obtain ⟨after', hok', hmoved⟩ := h.begin hidle hop
      rw [hok] at hok'
      cases hok'
      exact hmoved
  | go hpc hok =>
      rcases h.advance hpc split peer with ⟨f, hfault⟩ | ⟨after', hok', hmoved⟩
      · rw [hok] at hfault
        cases hfault
      · rw [hok] at hok'
        cases hok'
        exact hmoved

omit [Fintype T] in
theorem turn_ok {split : Split server} {peer : Nat → Str} {turn : Turn T} {crew' : Crew World T}
    {event : Option Event} (h : crew.turn split peer turn = .ok (crew', event)) :
    (crew' = crew ∧ event = none) ∨ ∃ after, Access split peer crew turn.thread after ∧
      crew' = (crew.after turn.thread after).1 ∧ event = after.event := by
  unfold Crew.turn at h
  cases turn with
  | take thread completion =>
      dsimp only at h
      split at h
      · rename_i hready
        cases hb : Threads.begin crew.system completion with
        | error e =>
            rw [hb] at h
            cases h
        | ok after =>
            rw [hb] at h
            cases h
            exact Or.inr ⟨after, .take (Option.isNone_iff_eq_none.mp hready.1) hready.2 hb, rfl, rfl⟩
      · cases h
        exact Or.inl ⟨rfl, rfl⟩
  | go thread =>
      dsimp only at h
      split at h
      · cases h
        exact Or.inl ⟨rfl, rfl⟩
      · rename_i pc hpc
        cases ha : pc.advance split peer crew.system with
        | error e =>
            rw [ha] at h
            cases h
        | ok after =>
            rw [ha] at h
            cases h
            exact Or.inr ⟨after, .go hpc ha, rfl, rfl⟩

omit [Fintype T] in
/-- A turn that ends in an error is one access that does. -/
theorem turn_error {split : Split server} {peer : Nat → Str} {turn : Turn T} {e : Stop}
    (h : crew.turn split peer turn = .error e) :
    (∃ completion, crew.pcs turn.thread = none ∧ completion.operation ∈ crew.system.desk.pending ∧
        Threads.begin crew.system completion = .error e) ∨
      ∃ pc, crew.pcs turn.thread = some pc ∧ pc.advance split peer crew.system = .error e := by
  unfold Crew.turn at h
  cases turn with
  | take thread completion =>
      dsimp only at h
      split at h
      · rename_i hready
        refine Or.inl ⟨completion, Option.isNone_iff_eq_none.mp hready.1, hready.2, ?_⟩
        cases hb : Threads.begin crew.system completion with
        | error e' =>
            rw [hb] at h
            cases h
            rfl
        | ok after =>
            rw [hb] at h
            cases h
      · cases h
  | go thread =>
      dsimp only at h
      split at h
      · cases h
      · rename_i pc hpc
        refine Or.inr ⟨pc, hpc, ?_⟩
        cases ha : pc.advance split peer crew.system with
        | error e' =>
            rw [ha] at h
            cases h
            rfl
        | ok after =>
            rw [ha] at h
            cases h

omit [DecidableEq T] in
theorem Inv.initial (world : World) : Inv (Crew.initial world : Crew World T) where
  held token := by
    have hpending : (Crew.initial world : Crew World T).system.desk.pending = [.accept 0] := rfl
    unfold Crew.held Tokens.held
    rw [hpending]
    have hsum : ∑ t, (tokensOf ((Crew.initial world : Crew World T).pcs t)).count token = 0 :=
      Finset.sum_eq_zero fun _ _ => rfl
    rw [hsum, Tokens.waiting_arm]
    cases token with
    | acceptor => rfl
    | session j =>
        rw [there_session]
        by_cases hj : j = 0
        · rw [hj]
          rfl
        · have hnone : (Crew.initial world : Crew World T).system.desk.objects j = none := put_other hj
          rw [hnone]
          simp [tokensOfOperation, Tokens.waiting, Ne.symm hj]
  fresh j hj := by
    have hne : j ≠ 0 := by
      have : 1 ≤ j := hj
      omega
    exact put_other hne

theorem Inv.of_reached {world : World} {split : Split server} {peer : Nat → Str}
    (h : Reachable (Crew.turn split peer) (Crew.initial world) crew) : Inv crew := by
  refine Reachable.invariant (fun crew turn crew' event hinv hok => ?_) (Inv.initial world) h
  rcases turn_ok hok with ⟨rfl, _⟩ | ⟨after, haccess, rfl, _⟩
  · exact hinv
  · exact hinv.moved (hinv.access haccess)

/-- **The life cycle of sessions on several threads**: in every state of every schedule each session
    that is there is held once, by the operation pending on it or the thread at it, and one that is
    deleted by nobody; so is the acceptor. Whatever turn is next, no thread uses a session that was
    deleted, or deletes one twice, or writes where an operation that is pending reads or writes; and
    it leaves every session alone but the one it holds. -/
theorem threads_life_cycle {world : World} (split : Split server) (peer : Nat → Str)
    (h : Reachable (Crew.turn split peer) (Crew.initial world) crew) :
    (∀ token, crew.held token = (there crew.system token).toNat) ∧ ∀ turn : Turn T,
      (∀ m, crew.turn split peer turn ≠ .error (.misuse m)) ∧
      ∀ crew' event, crew.turn split peer turn = .ok (crew', event) → ∀ session,
        .session session ∉ tokensOf (crew.pcs turn.thread) →
        .session session ∉ tokensOf (crew'.pcs turn.thread) →
        crew'.system.desk.objects session = crew.system.desk.objects session := by
  have hinv := Inv.of_reached h
  refine ⟨hinv.held, fun turn => ?_⟩
  rcases hinv.turn split peer turn with hsame | ⟨f, hfault⟩ | ⟨after, hafter, hmoved⟩
  · rw [hsame]
    refine ⟨fun m hm => (by cases hm), fun crew' event hok => ?_⟩
    cases hok
    exact fun _ _ _ => rfl
  · rw [hfault]
    refine ⟨fun m hm => (by cases hm), fun crew' event hok => ?_⟩
    cases hok
  · rw [hafter]
    refine ⟨fun m hm => (by cases hm), fun crew' event hok => ?_⟩
    cases hok
    intro session hbefore hthen
    refine hmoved.frame session fun htouch => htouch.elim hbefore fun hpc => hthen ?_
    show .session session ∈ tokensOf (Function.update crew.pcs turn.thread after.pc turn.thread)
    rw [Function.update_self]
    exact hpc

end Holders

/-! ## 4. A handler with nobody in between -/

section Alone

variable {World : Type} {server : Server World} {split : Split server} {peer : Nat → Str}
  {s : System World} {session accepts : Nat} {o : SessionObject}

/-- Where the accesses of one thread lead. -/
inductive Ends (split : Split server) (peer : Nat → Str) :
    After World → Except Stop (System World) → Prop
  | returns {after : After World} (h : after.pc = none) : Ends split peer after (.ok after.system)
  | raises {after : After World} {pc : Pc World} {e : Stop} (hpc : after.pc = some pc)
      (h : pc.advance split peer after.system = .error e) : Ends split peer after (.error e)
  | goesOn {after after' : After World} {pc : Pc World} {r : Except Stop (System World)}
      (hpc : after.pc = some pc) (h : pc.advance split peer after.system = .ok after')
      (hrest : Ends split peer after' r) : Ends split peer after r

theorem ends_allocate (s : System World) (event : Option Event) :
    Ends split peer ⟨s, some .allocate, event⟩ (.ok (startAccept s)) := by
  have haccept : (Pc.accept s.next).advance split peer
      { s.put s.next (some newSession) with next := s.next + 1 } =
        .ok ⟨startAccept s, none, none⟩ := by
    rw [Pc.advance, use_eq put_self]
    rfl
  exact .goesOn rfl rfl (.goesOn rfl haccept (.returns rfl))

/-- `session::start` and what `handle_accept` does after it. -/
theorem ends_start (hobj : s.desk.objects session = some o) (renew : Bool) (event : Option Event) :
    ∃ s', start peer s session = .ok s' ∧ Ends split peer ⟨s, some (.start session renew), event⟩
      (.ok (if renew then startAccept s' else s')) := by
  have hput : (s.put session (some { o with clientIp := peer session })).desk.objects session =
      some { o with clientIp := peer session } := put_self
  refine ⟨(s.put session (some { o with clientIp := peer session })).arm (.read session), ?_, ?_⟩
  · unfold start
    rw [use_eq hobj]
    rfl
  · refine .goesOn rfl (by rw [Pc.advance, use_eq hobj]; rfl) ?_
    refine .goesOn rfl (by rw [Pc.advance, use_eq hput]; rfl) ?_
    cases renew with
    | false => exact .returns rfl
    | true => exact ends_allocate _ _

/-- `delete` and what `handle_accept` does after it. -/
theorem ends_delete (hobj : s.desk.objects session = some o) (renew : Bool) (event : Option Event) :
    ∃ s', s.delete session = .ok s' ∧ Ends split peer ⟨s, some (.delete session renew), event⟩
      (.ok (if renew then startAccept s' else s')) := by
  have hdelete : s.delete session = .ok (s.put session none) := by
    unfold System.delete
    rw [hobj]
  refine ⟨_, hdelete, .goesOn rfl (by rw [Pc.advance, hdelete]; rfl) ?_⟩
  cases renew with
  | false => exact .returns rfl
  | true => exact ends_allocate _ _

/-- The handling of a request, by induction on its accesses: they leave the session alone. -/
theorem ends_handling (h : Running s session o accepts) (handling : Handling World)
    (event : Option Event) :
    Ends split peer ⟨s, some (.handling session handling), event⟩
      (match outcome (handling.alone s.world) with
        | .error f => .error (.fault f)
        | .ok (world, reply) => .ok ((System.put { s with world := world } session
            (some { o with rep := reply, inData := Buffer.zero })).arm (.write session))) := by
  induction handling generalizing s event with
  | access change next ih =>
      refine .goesOn rfl (by rw [Pc.advance, use_eq h.object_eq]; rfl) ?_
      exact ih s.world (h.world (change s.world)) none
  | done answer =>
      cases answer with
      | error f => exact .raises rfl rfl
      | ok reply =>
          have hrep := h.put { o with rep := reply }
          have hclear := h.put { o with rep := reply, inData := Buffer.zero }
          have hcleared : (Pc.clear session).advance split peer
              (s.put session (some { o with rep := reply })) =
                .ok ⟨s.put session (some { o with rep := reply, inData := Buffer.zero }),
                  some (.write session), none⟩ := by
            rw [Pc.advance, hrep.clearInData, ok_bind, System.put_put]
            rfl
          refine .goesOn rfl rfl (.goesOn rfl (by rw [Pc.advance, h.setRep]; rfl) ?_)
          refine .goesOn rfl hcleared ?_
          exact .goesOn rfl (by rw [Pc.advance, use_eq hclear.object_eq]; rfl) (.returns rfl)

theorem ends_handleAccept (hobj : s.desk.objects session = some o) (error : Bool) :
    Ends split peer
      ⟨s, some (if error then .delete session true else .start session true), none⟩
      ((handleAccept peer s session error).map Prod.fst) := by
  cases error with
  | true =>
      obtain ⟨s', hdelete, hends⟩ := @ends_delete _ _ split peer _ _ _ hobj true none
      have haccept : handleAccept peer s session true = .ok (startAccept s', true) := by
        unfold handleAccept
        rw [if_neg (by simp), hdelete]
        rfl
      rw [haccept]
      exact hends
  | false =>
      obtain ⟨s', hstart, hends⟩ := @ends_start _ _ split peer _ _ _ hobj true none
      have haccept : handleAccept peer s session false = .ok (startAccept s', false) := by
        unfold handleAccept
        rw [if_pos rfl, hstart]
        rfl
      rw [haccept]
      exact hends

theorem ends_handleWrite (hobj : s.desk.objects session = some o) (error : Bool)
    (event : Option Event) :
    Ends split peer
      ⟨s, some (if error then .delete session false else .start session false), event⟩
      ((handleWrite peer s session error).map Prod.fst) := by
  cases error with
  | true =>
      obtain ⟨s', hdelete, hends⟩ := @ends_delete _ _ split peer _ _ _ hobj false event
      have hwrite : handleWrite peer s session true = .ok (s', false) := by
        unfold handleWrite recycle
        rw [if_neg (by simp), hdelete]
        rfl
      rw [hwrite]
      exact hends
  | false =>
      obtain ⟨s', hstart, hends⟩ := @ends_start _ _ split peer _ _ _ hobj false event
      have hwrite : handleWrite peer s session false = .ok (s', true) := by
        unfold handleWrite
        rw [if_pos rfl, hstart]
        rfl
      rw [hwrite]
      exact hends

theorem ends_handleRead (h : Running s session o accepts) (bytes : Read) :
    Ends split peer ⟨s, some (.getReply session bytes), none⟩
      ((Lifecycle.handleRead server s session false bytes.bytes.length).map Prod.fst) := by
  rw [h.handleRead_eq]
  refine .goesOn rfl (by rw [Pc.advance, use_eq h.object_eq]; rfl) ?_
  have hends := @ends_handling _ _ split peer _ _ _ _ h
    (split.program o.clientIp o.inData bytes.bytes.length) (some (.begun session bytes))
  rw [split.alone_eq] at hends
  cases hreply : getReply { server with clientIp := o.clientIp } s.world o.inData
      bytes.bytes.length with
  | error f =>
      rw [hreply] at hends
      exact hends
  | ok v =>
      rw [hreply] at hends
      exact hends

/-- **A handler with nobody in between** is the handler of the life cycle: it ends where `deliver`
    ends. -/
theorem deliver_ends (split : Split server) (peer : Nat → Str) (h : Tidy s 1)
    {completion : Completion} (hop : completion.operation ∈ s.desk.pending) :
    ∃ after, begin s completion = .ok after ∧
      Ends split peer after ((deliver server peer s completion).map Prod.fst) := by
  obtain ⟨object, hsuits, hrun⟩ := h.take hop
  cases completion with
  | accept session error =>
      have huse : System.use { s with desk := s.desk.take (.accept session) } session = .ok object :=
        hrun.use
      have hput := hrun.put { object with connected := !error }
      unfold begin deliver
      dsimp only [Completion.operation]
      rw [huse, ok_bind, ok_bind]
      exact ⟨_, rfl, ends_handleAccept hput.object_eq error⟩
  | read session bytes =>
      cases bytes with
      | none =>
          obtain ⟨s', hdelete, hends⟩ := @ends_delete _ _ split peer
            { s with desk := s.desk.take (.read session) } session _ hrun.object_eq false none
          have hread : deliver server peer s (.read session none) = .ok (s', false) := by
            unfold deliver Lifecycle.handleRead recycle
            dsimp only [Completion.operation]
            rw [if_neg (by simp), hdelete]
            rfl
          rw [hread]
          exact ⟨_, rfl, hends⟩
      | some bytes =>
          have huse : System.use { s with desk := s.desk.take (.read session) } session = .ok object :=
            hrun.use
          have hput := hrun.put { object with inData := object.inData.fill bytes }
          rw [deliver_fill hrun]
          unfold begin
          dsimp only [Completion.operation]
          rw [huse, ok_bind]
          exact ⟨_, rfl, ends_handleRead hput bytes⟩
  | write session error =>
      cases error with
      | true => exact ⟨_, rfl, ends_handleWrite hrun.object_eq true none⟩
      | false =>
          have huse : System.use { s with desk := s.desk.take (.write session) } session = .ok object :=
            hrun.use
          unfold begin
          dsimp only [Completion.operation]
          rw [huse, ok_bind]
          exact ⟨_, rfl, ends_handleWrite hrun.object_eq false (some (.sent session object.rep))⟩

/-- A thread goes on towards the same end. -/
theorem Ends.next {after after' : After World} {pc : Pc World} {r : Except Stop (System World)}
    (h : Ends split peer after r) (hpc : after.pc = some pc)
    (hok : pc.advance split peer after.system = .ok after') : Ends split peer after' r := by
  cases h with
  | returns hnone =>
      rw [hpc] at hnone
      cases hnone
  | raises hpc' herror =>
      rw [hpc] at hpc'
      cases hpc'
      rw [hok] at herror
      cases herror
  | goesOn hpc' hok' hrest =>
      rw [hpc] at hpc'
      cases hpc'
      rw [hok] at hok'
      cases hok'
      exact hrest

/-- An exception is the end. -/
theorem Ends.error {after : After World} {pc : Pc World} {r : Except Stop (System World)} {e : Stop}
    (h : Ends split peer after r) (hpc : after.pc = some pc)
    (herror : pc.advance split peer after.system = .error e) : r = .error e := by
  cases h with
  | returns hnone =>
      rw [hpc] at hnone
      cases hnone
  | raises hpc' herror' =>
      rw [hpc] at hpc'
      cases hpc'
      rw [herror] at herror'
      cases herror'
      rfl
  | goesOn hpc' hok hrest =>
      rw [hpc] at hpc'
      cases hpc'
      rw [herror] at hok
      cases hok

/-- A thread that has returned is at the end. -/
theorem Ends.returned {after : After World} {r : Except Stop (System World)}
    (h : Ends split peer after r) (hnone : after.pc = none) : r = .ok after.system := by
  cases h with
  | returns _ => rfl
  | raises hpc _ =>
      rw [hnone] at hpc
      cases hpc
  | goesOn hpc _ _ =>
      rw [hnone] at hpc
      cases hpc

/-- One thread is between two steps of the life cycle, or on its way from one to the next. -/
inductive Follows {T : Type} (split : Split server) (peer : Nat → Str) (world : World)
    (crew : Crew World T) : Prop
  | between (hreached : Relation.ReflTransGen (Step server peer) (System.initial world) crew.system)
      (hidle : ∀ t, crew.pcs t = none)
  | within {s : System World} {completion : Completion} {t : T} {pc : Pc World} {after : After World}
      (hreached : Relation.ReflTransGen (Step server peer) (System.initial world) s)
      (hop : completion.operation ∈ s.desk.pending) (hpc : crew.pcs t = some pc)
      (hafter : after.pc = some pc) (hsystem : after.system = crew.system)
      (hends : Ends split peer after ((deliver server peer s completion).map Prod.fst))

variable {T : Type} [DecidableEq T] [Subsingleton T] {world : World} {crew : Crew World T}

/-- The thread has returned: the step is done. -/
theorem follows_after {completion : Completion} {t : T} {after : After World}
    (hreached : Relation.ReflTransGen (Step server peer) (System.initial world) s)
    (hop : completion.operation ∈ s.desk.pending)
    (hends : Ends split peer after ((deliver server peer s completion).map Prod.fst)) :
    Follows split peer world (crew.after t after).1 := by
  have hpc : (crew.after t after).1.pcs t = after.pc := by
    show Function.update crew.pcs t after.pc t = after.pc
    rw [Function.update_self]
  cases hnone : after.pc with
  | some pc => exact .within hreached hop (hpc.trans hnone) hnone rfl hends
  | none =>
      have hend := hends.returned hnone
      cases hdeliver : deliver server peer s completion with
      | error e =>
          rw [hdeliver] at hend
          cases hend
      | ok v =>
          rw [hdeliver] at hend
          have hv : v.1 = after.system := Except.ok.inj hend
          refine .between (hreached.tail ⟨completion, v.2, hop, ?_⟩) fun t' => ?_
          · rw [hdeliver]
            exact congrArg Except.ok (Prod.ext hv rfl)
          · rw [Subsingleton.elim t' t, hpc, hnone]

theorem Follows.turn {turn : Turn T} {crew' : Crew World T} {event : Option Event}
    (h : Follows split peer world crew) (hok : crew.turn split peer turn = .ok (crew', event)) :
    Follows split peer world crew' := by
  rcases turn_ok hok with ⟨rfl, _⟩ | ⟨after, haccess, rfl, _⟩
  · exact h
  · cases h with
    | between hreached hidle =>
        cases haccess with
        | take _ hop hbegin =>
            obtain ⟨after', hbegin', hends⟩ := deliver_ends split peer (tidy_of_reached hreached) hop
            rw [hbegin] at hbegin'
            cases hbegin'
            exact follows_after hreached hop hends
        | go hpc _ =>
            rw [hidle] at hpc
            cases hpc
    | @within s completion t pc before hreached hop hpc hbefore hsystem hends =>
        rw [Subsingleton.elim t turn.thread] at hpc
        cases haccess with
        | take hidle _ _ =>
            rw [hpc] at hidle
            cases hidle
        | go hpc' hadvance =>
            rw [hpc] at hpc'
            cases hpc'
            rw [← hsystem] at hadvance
            exact follows_after hreached hop (hends.next hbefore hadvance)

theorem Follows.of_reached (h : Reachable (Crew.turn split peer) (Crew.initial world) crew) :
    Follows split peer world crew :=
  Reachable.invariant (fun _ _ _ _ hfollows hok => Follows.turn hfollows hok)
    (.between .refl fun _ => rfl) h

/-- **On one thread the accesses come to the steps of the life cycle**: whenever the thread is idle
    the system is one that the life cycle reaches, and an exception is that of a step from such a
    system. -/
theorem one_thread_refines (split : Split server) (peer : Nat → Str)
    (h : Reachable (Crew.turn split peer) (Crew.initial world) crew) :
    ((∀ t, crew.pcs t = none) →
        Relation.ReflTransGen (Step server peer) (System.initial world) crew.system) ∧
      ∀ turn e, crew.turn split peer turn = .error e → ∃ s completion,
        Relation.ReflTransGen (Step server peer) (System.initial world) s ∧
          completion.operation ∈ s.desk.pending ∧ deliver server peer s completion = .error e := by
  have hfollows := Follows.of_reached h
  constructor
  · intro hidle
    cases hfollows with
    | between hreached _ => exact hreached
    | @within _ _ t pc _ _ _ hpc _ _ _ =>
        rw [hidle t] at hpc
        cases hpc
  · intro turn e herror
    rcases turn_error herror with ⟨completion, hnone, hop, hbegin⟩ | ⟨pc, hpc, hadvance⟩
    · cases hfollows with
      | between hreached _ =>
          obtain ⟨after, hok, _⟩ := deliver_ends split peer (tidy_of_reached hreached) hop
          rw [hok] at hbegin
          cases hbegin
      | @within _ _ t _ _ _ _ hpc _ _ _ =>
          rw [Subsingleton.elim t turn.thread, hnone] at hpc
          cases hpc
    · cases hfollows with
      | between _ hidle =>
          rw [hidle] at hpc
          cases hpc
      | @within s completion t pc' after hreached hop hpc' hafter hsystem hends =>
          rw [Subsingleton.elim t turn.thread, hpc] at hpc'
          cases hpc'
          rw [← hsystem] at hadvance
          have hend := hends.error hafter hadvance
          refine ⟨s, completion, hreached, hop, ?_⟩
          cases hdeliver : deliver server peer s completion with
          | ok v =>
              rw [hdeliver] at hend
              cases hend
          | error e' =>
              rw [hdeliver] at hend
              cases hend
              rfl

end Alone

/-! ## 5. A visit -/

/-- The whole of `get_reply` as one access. -/
def Split.atOnce {World : Type} (server : Server World) : Split server where
  program clientIp requestData dataLen :=
    .access
      (fun world =>
        match getReply { server with clientIp := clientIp } world requestData dataLen with
        | .ok (world, _) => world
        | .error _ => world)
      fun world =>
        .done ((getReply { server with clientIp := clientIp } world requestData dataLen).map Prod.snd)
  alone_eq clientIp requestData dataLen world := by
    unfold Prog.alone Prog.alone
    dsimp only
    cases getReply { server with clientIp := clientIp } world requestData dataLen <;> rfl

/-- A server without locations, that says so. -/
def curtServer : Server Unit :=
  ⟨⟨fun _ => ⟨0, some .needMore, ⟨.get, [], [], []⟩⟩, fun _ => "no".toList⟩, ∅, []⟩

/-- One byte. -/
def oneByte : Read := ⟨['x'], by simp, by decide⟩

/-- A client is accepted by the first thread, read from by the second, and answered by both. -/
def visit : List (Turn Bool) :=
  [.take false (.accept 0 false), .go false, .go false, .take true (.read 0 (some oneByte)),
    .go true, .go false, .go true, .go false, .go true, .go true, .go true, .go true,
    .take false (.write 0 false), .go false, .go false]

theorem visit_runs : ∃ crew record,
    run (Crew.turn (Split.atOnce curtServer) fun _ => []) (Crew.initial ()) visit =
      .ok (crew, record) := by
  have hok : (run (Crew.turn (Split.atOnce curtServer) fun _ => []) (Crew.initial ()) visit).isOk =
      true := by decide
  cases h : run (Crew.turn (Split.atOnce curtServer) fun _ => []) (Crew.initial ()) visit with
  | error e =>
      rw [h] at hok
      cases hok
  | ok v => exact ⟨v.1, v.2, rfl⟩

/-- `threads_life_cycle` for the end of the visit. -/
theorem threads_life_cycle_visit : ∃ crew : Crew Unit Bool,
    (∀ token, crew.held token = (there crew.system token).toNat) ∧
      ∀ turn m, crew.turn (Split.atOnce curtServer) (fun _ => []) turn ≠ .error (.misuse m) := by
  obtain ⟨crew, record, h⟩ := visit_runs
  obtain ⟨hheld, hnext⟩ := threads_life_cycle _ _ ⟨visit, record, h⟩
  exact ⟨crew, hheld, fun turn => (hnext turn).1⟩

/-- The same visit on one thread. -/
def visitAlone : List (Turn Unit) :=
  [.take () (.accept 0 false), .go (), .go (), .go (), .go (), .take () (.read 0 (some oneByte)),
    .go (), .go (), .go (), .go (), .go (), .go (), .take () (.write 0 false), .go (), .go ()]

/-- `one_thread_refines` for the end of the visit. -/
theorem one_thread_refines_visit : ∃ crew record,
    run (Crew.turn (Split.atOnce curtServer) fun _ => []) (Crew.initial ()) visitAlone =
      .ok (crew, record) ∧
      Relation.ReflTransGen (Step curtServer fun _ => []) (System.initial ()) crew.system := by
  have hok : ((run (Crew.turn (Split.atOnce curtServer) fun _ => []) (Crew.initial ())
      visitAlone).toOption.map fun v => (v.1.pcs ()).isNone) = some true := by decide
  cases h : run (Crew.turn (Split.atOnce curtServer) fun _ => []) (Crew.initial ()) visitAlone with
  | error e =>
      rw [h] at hok
      cases hok
  | ok v =>
      rw [h] at hok
      have hidle : v.1.pcs () = none := Option.isNone_iff_eq_none.mp (Option.some.inj hok)
      exact ⟨v.1, v.2, rfl, (one_thread_refines _ _ ⟨visitAlone, v.2, h⟩).1 fun _ => hidle⟩

end Googolplex.Threads
