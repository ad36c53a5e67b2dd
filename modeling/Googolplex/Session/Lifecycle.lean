/-
  File:      Googolplex/Session/Lifecycle.lean
  Subject:   LIFE AND DEATH OF SESSIONS (session.cc and server.cc, on one `io_service`).

  The sessions are objects on a heap that delete themselves; what is under way on
  their sockets completes in any order, with or without an error, and each
  completion runs one handler. What no handler may do ends it at once: use a
  session that was deleted, delete one twice, or write where an operation that is
  pending reads or writes.

  * `deliver`: one completion and its handler.
  * `deliver_tidy`: a handler ends in a tidy system, or with the exception of the
    request handler.
  * `session_life_cycle`: in every system that is reached each session has what the
    life cycle says, and no handler does what it may not.
-/
import Googolplex.Library.Completions
import Googolplex.Session

namespace Googolplex.Lifecycle

open Cxx Completions

/-! ## 1. Sessions and operations -/

/-- The members of a `session` that change; `connected` is that its socket has a connection. -/
structure SessionObject where
  inData : Buffer
  rep : Str
  clientIp : Str
  connected : Bool

/-- What can be pending: an `async_accept` into the socket of a session, an `async_read_some` into
    its `in_data_`, an `async_write` of its `rep_`. -/
inductive Operation where
  | accept (session : Nat)
  | read (session : Nat)
  | write (session : Nat)
  deriving DecidableEq, Repr

/-- The session an operation is for. -/
def Operation.session : Operation → Nat
  | .accept session => session
  | .read session => session
  | .write session => session

/-- The operation of an acceptor. -/
def Operation.isAccept : Operation → Bool
  | .accept _ => true
  | _ => false

/-- What suits a session: to be accepted before it is connected, to read or write afterwards. -/
def Operation.Suits (session : SessionObject) (operation : Operation) : Prop :=
  session.connected = !operation.isAccept

/-- What no handler may do. -/
inductive Misuse where
  | deleted | deletedTwice | inDataInUse | repInUse
  deriving DecidableEq, Repr

/-- What ends a handler before its return. -/
inductive Stop where
  | misuse (m : Misuse)
  | fault (f : Fault)
  deriving DecidableEq, Repr

/-- The heap with the operations pending, the number of sessions made so far, and what the request
    handlers share. -/
structure System (World : Type) where
  desk : Desk Nat SessionObject Operation
  next : Nat
  world : World

/-- How an operation completes: an accept and a write with or without an error, a read with the bytes
    it was given, if there was no error. -/
inductive Completion where
  | accept (session : Nat) (error : Bool)
  | read (session : Nat) (bytes : Option Read)
  | write (session : Nat) (error : Bool)

/-- The operation that completes. -/
def Completion.operation : Completion → Operation
  | .accept session _ => .accept session
  | .read session _ => .read session
  | .write session _ => .write session

section

variable {World : Type} (server : Server World) (peer : Nat → Str)

/-! ## 2. What a handler does to a session -/

/-- A member of a session is used. -/
def System.use (s : System World) (session : Nat) : Except Stop SessionObject :=
  match s.desk.objects session with
  | some object => .ok object
  | none => .error (.misuse .deleted)

/-- A session with other members. -/
def System.put (s : System World) (session : Nat) (object : Option SessionObject) : System World :=
  { s with desk := s.desk.put session object }

/-- An operation is begun. -/
def System.arm (s : System World) (operation : Operation) : System World :=
  { s with desk := s.desk.arm operation }

/-- `rep_ = reply`, if no write of it is pending. -/
def System.setRep (s : System World) (session : Nat) (reply : Str) : Except Stop (System World) := do
  let object ← s.use session
  if .write session ∈ s.desk.pending then .error (.misuse .repInUse)
  else return s.put session (some { object with rep := reply })

/-- `memset(in_data_, 0, max_length)`, if no read into it is pending. -/
def System.clearInData (s : System World) (session : Nat) : Except Stop (System World) := do
  let object ← s.use session
  if .read session ∈ s.desk.pending then .error (.misuse .inDataInUse)
  else return s.put session (some { object with inData := Buffer.zero })

/-- `delete`. -/
def System.delete (s : System World) (session : Nat) : Except Stop (System World) :=
  match s.desk.objects session with
  | some _ => .ok (s.put session none)
  | none => .error (.misuse .deletedTwice)

/-! ## 3. The members of `session` and `server` -/

/-- `session::start`; `peer` is what `remote_endpoint` gives. -/
def start (s : System World) (session : Nat) : Except Stop (System World) := do
  let object ← s.use session
  let s := s.put session (some { object with clientIp := peer session })
  return s.arm (.read session)

/-- `session::read`. -/
def read (s : System World) (session : Nat) : Except Stop (System World) := do
  let _ ← s.use session
  return s.arm (.write session)

/-- `session::recycle`. -/
def recycle (s : System World) (session : Nat) : Except Stop (System World) := s.delete session

/-- `session::handle_read`. -/
def handleRead (s : System World) (session : Nat) (error : Bool) (bytesTransferred : Nat) :
    Except Stop (System World × Bool) :=
  if error = false then do
    let object ← s.use session
    match getReply { server with clientIp := object.clientIp } s.world object.inData
        bytesTransferred with
    | .error f => .error (.fault f)
    | .ok (world, reply) =>
      let s ← System.setRep { s with world := world } session reply
      let s ← s.clearInData session
      let s ← read s session
      return (s, true)
  else do
    let s ← recycle s session
    return (s, false)

/-- `session::handle_write`. -/
def handleWrite (s : System World) (session : Nat) (error : Bool) :
    Except Stop (System World × Bool) :=
  if error = false then do
    let s ← start peer s session
    return (s, true)
  else do
    let s ← recycle s session
    return (s, false)

/-- `session::session`. -/
def newSession : SessionObject := ⟨Buffer.zero, [], [], false⟩

/-- `server::start_accept`. -/
def startAccept (s : System World) : System World :=
  let session := s.next
  let s := { s.put session (some newSession) with next := session + 1 }
  s.arm (.accept session)

/-- `server::handle_accept`; the pointer is null after a `delete`. -/
def handleAccept (s : System World) (session : Nat) (error : Bool) :
    Except Stop (System World × Bool) :=
  if error = false then do
    let s ← start peer s session
    return (startAccept s, false)
  else do
    let s ← s.delete session
    return (startAccept s, true)

/-! ## 4. Completions -/

/-- **An operation completes**: it is pending no more, an accept has connected the socket and a read
    has filled the buffer if there was no error, and its handler runs. -/
def deliver (s : System World) (completion : Completion) : Except Stop (System World × Bool) := do
  let s := { s with desk := s.desk.take completion.operation }
  match completion with
  | .accept session error =>
    let object ← s.use session
    let s := s.put session (some { object with connected := !error })
    handleAccept peer s session error
  | .read session none => handleRead server s session true 0
  | .read session (some bytes) =>
    let object ← s.use session
    let s := s.put session (some { object with inData := object.inData.fill bytes })
    handleRead server s session false bytes.bytes.length
  | .write session error => handleWrite peer s session error

/-- `server::server`: no session yet, and the first accept. -/
def System.initial (world : World) : System World := startAccept ⟨⟨fun _ => none, []⟩, 0, world⟩

/-- **A step**: an operation that is pending completes, and its handler returns. -/
inductive Step (s s' : System World) : Prop
  | mk (completion : Completion) (status : Bool) (hpending : completion.operation ∈ s.desk.pending)
      (h : deliver server peer s completion = .ok (s', status))

/-- A buffer that is pending, for a read or for a write, is left alone by a completion of another
    operation. -/
structure Untouched (s : System World) (completion : Completion) (s' : System World) : Prop where
  inData : ∀ session object, s.desk.objects session = some object →
    .read session ∈ s.desk.pending → completion.operation ≠ .read session →
      ∃ object', s'.desk.objects session = some object' ∧ object'.inData = object.inData
  rep : ∀ session object, s.desk.objects session = some object →
    .write session ∈ s.desk.pending → completion.operation ≠ .write session →
      ∃ object', s'.desk.objects session = some object' ∧ object'.rep = object.rep

/-- **What the life cycle says**: one accept is pending; a session that is there and connected has
    one operation pending, a read or a write; one that is not there has none. -/
structure LifeCycle (s : System World) : Prop where
  accepts : s.desk.pending.countP Operation.isAccept = 1
  connected : ∀ session object, s.desk.objects session = some object → object.connected = true →
    s.desk.count Operation.session session = 1 ∧
      (.read session ∈ s.desk.pending ∨ .write session ∈ s.desk.pending)
  deleted : ∀ session, s.desk.objects session = none → s.desk.count Operation.session session = 0

end

/-! ## 5. What a handler leaves behind -/

section Handlers

variable {World : Type} {server : Server World} {peer : Nat → Str} {s s' : System World}
  {session accepts : Nat} {object : SessionObject}

/-- Every session is settled, and so many accepts are pending. -/
structure Tidy (s : System World) (accepts : Nat) : Prop where
  settled : ∀ j, Settled Operation.session Operation.Suits s.desk j
  fresh : ∀ j, s.next ≤ j → s.desk.objects j = none
  accepts_eq : s.desk.pending.countP Operation.isAccept = accepts

/-- A handler of a session runs: nothing of the session is pending, and the others are settled. -/
structure Running (s : System World) (session : Nat) (object : SessionObject) (accepts : Nat) :
    Prop where
  object_eq : s.desk.objects session = some object
  idle : s.desk.count Operation.session session = 0
  others : ∀ j, j ≠ session → Settled Operation.session Operation.Suits s.desk j
  fresh : ∀ j, s.next ≤ j → s.desk.objects j = none
  accepts_eq : s.desk.pending.countP Operation.isAccept = accepts

/-- A handler of a session is done: the system is tidy, and the other sessions are as they were. -/
structure Done (s : System World) (session accepts : Nat) (s' : System World) : Prop where
  tidy : Tidy s' accepts
  next_eq : s'.next = s.next
  frame : ∀ j, j ≠ session → s'.desk.objects j = s.desk.objects j

theorem Running.use (h : Running s session object accepts) : s.use session = .ok object := by
  unfold System.use
  rw [h.object_eq]

theorem Running.not_pending (h : Running s session object accepts) {operation : Operation}
    (ho : operation.session = session) : operation ∉ s.desk.pending := by
  have hidle : s.desk.count Operation.session operation.session = 0 := by
    rw [ho]
    exact h.idle
  exact not_mem_of_count hidle

/-- The members of the session may change. -/
theorem Running.put (h : Running s session object accepts) (object' : SessionObject) :
    Running (s.put session (some object')) session object' accepts where
  object_eq := put_self
  idle := h.idle
  others j hj := settled_put_other (h.others j hj) hj
  fresh j hj := by
    have hne : j ≠ session := by
      intro heq
      rw [heq] at hj
      have := h.fresh session hj
      rw [h.object_eq] at this
      cases this
    exact (put_other hne).trans (h.fresh j hj)
  accepts_eq := h.accepts_eq

theorem Done.of_put {o : Option SessionObject} (h : Done (s.put session o) session accepts s') :
    Done s session accepts s' where
  tidy := h.tidy
  next_eq := h.next_eq
  frame j hj := (h.frame j hj).trans (put_other hj)

/-- **A handler that begins an operation** of its session, and one that suits it. -/
theorem Running.arm (operation : Operation) (h : Running s operation.session object accepts)
    (hsuits : operation.Suits object) (hno : operation.isAccept = false) :
    Done s operation.session accepts (s.arm operation) where
  tidy :=
    { settled := fun j => by
        by_cases hj : j = operation.session
        · rw [hj]
          exact settled_arm h.object_eq h.idle hsuits
        · exact settled_arm_other (h.others j hj) hj
      fresh := h.fresh
      accepts_eq := by
        have hcons : (s.arm operation).desk.pending = operation :: s.desk.pending := rfl
        rw [hcons, List.countP_cons, hno]
        exact h.accepts_eq }
  next_eq := rfl
  frame _ _ := rfl

/-- **A handler that deletes its session**. -/
theorem Running.delete (h : Running s session object accepts) :
    ∃ s', s.delete session = .ok s' ∧ Done s session accepts s' := by
  unfold System.delete
  rw [h.object_eq]
  refine ⟨_, rfl, ⟨fun j => ?_, fun j hj => ?_, h.accepts_eq⟩, rfl, fun j hj => put_other hj⟩
  · by_cases hj : j = session
    · rw [hj]
      exact (settled_none put_self).mpr h.idle
    · exact settled_put_other (h.others j hj) hj
  · by_cases hj' : j = session
    · rw [hj']
      exact put_self
    · exact (put_other hj').trans (h.fresh j hj)

theorem Running.start (h : Running s session object accepts) (hconn : object.connected = true)
    (peer : Nat → Str) : ∃ s', start peer s session = .ok s' ∧ Done s session accepts s' := by
  unfold Lifecycle.start
  rw [h.use]
  have hput := h.put { object with clientIp := peer session }
  exact ⟨_, rfl, (Running.arm (.read session) hput hconn rfl).of_put⟩

theorem Running.read (h : Running s session object accepts) :
    read s session = .ok (s.arm (.write session)) := by
  unfold Lifecycle.read
  rw [h.use]
  rfl

theorem Running.setRep (h : Running s session object accepts) (reply : Str) :
    s.setRep session reply = .ok (s.put session (some { object with rep := reply })) := by
  unfold System.setRep
  rw [h.use]
  exact if_neg (h.not_pending rfl)

theorem Running.clearInData (h : Running s session object accepts) :
    s.clearInData session = .ok (s.put session (some { object with inData := Buffer.zero })) := by
  unfold System.clearInData
  rw [h.use]
  exact if_neg (h.not_pending rfl)

theorem ok_bind {α β : Type} (a : α) (k : α → Except Stop β) : (Except.ok a >>= k) = k a := rfl

/-- The world is not the sessions' business. -/
theorem Running.world (h : Running s session object accepts) (world : World) :
    Running { s with world := world } session object accepts := ⟨h.1, h.2, h.3, h.4, h.5⟩

theorem System.put_put (s : System World) (o o' : Option SessionObject) :
    (s.put session o).put session o' = s.put session o' := by
  unfold System.put
  dsimp only
  rw [Completions.put_put]

/-- `handle_read` without an error: the reply is in `rep_`, the buffer is cleared, and the reply is
    being written. -/
theorem Running.handleRead_eq (h : Running s session object accepts) (server : Server World) (n : Nat) :
    handleRead server s session false n =
      match getReply { server with clientIp := object.clientIp } s.world object.inData n with
      | .error f => .error (.fault f)
      | .ok (world, reply) =>
        .ok ((System.put { s with world := world } session
          (some { object with rep := reply, inData := Buffer.zero })).arm (.write session), true) := by
  unfold Lifecycle.handleRead
  rw [if_pos rfl, h.use, ok_bind]
  cases getReply { server with clientIp := object.clientIp } s.world object.inData n with
  | error f => rfl
  | ok v =>
      obtain ⟨world, reply⟩ := v
      dsimp only
      have hrep := (h.world world).put { object with rep := reply }
      have hclear := hrep.put { object with rep := reply, inData := Buffer.zero }
      rw [(h.world world).setRep, ok_bind, hrep.clearInData, ok_bind, hclear.read, ok_bind,
        System.put_put]
      rfl

/-- **`handle_read`** ends with the session settled or deleted, or with the exception of the request
    handler. -/
theorem Running.handleRead (h : Running s session object accepts) (hconn : object.connected = true)
    (server : Server World) (error : Bool) (n : Nat) :
    (∃ f, handleRead server s session error n = .error (.fault f)) ∨
      ∃ s' status, handleRead server s session error n = .ok (s', status) ∧
        Done s session accepts s' := by
  cases error with
  | true =>
      obtain ⟨s', hdel, hdone⟩ := h.delete
      unfold Lifecycle.handleRead recycle
      rw [if_neg (by simp), hdel]
      exact Or.inr ⟨s', false, rfl, hdone⟩
  | false =>
      rw [h.handleRead_eq]
      cases getReply { server with clientIp := object.clientIp } s.world object.inData n with
      | error f => exact Or.inl ⟨f, rfl⟩
      | ok v =>
          have hput := (h.world v.1).put { object with rep := v.2, inData := Buffer.zero }
          have hdone := (Running.arm (.write session) hput hconn rfl).of_put
          exact Or.inr ⟨_, true, rfl, hdone.tidy, hdone.next_eq, hdone.frame⟩

theorem Running.handleWrite (h : Running s session object accepts) (hconn : object.connected = true)
    (peer : Nat → Str) (error : Bool) :
    ∃ s' status, handleWrite peer s session error = .ok (s', status) ∧ Done s session accepts s' := by
  unfold Lifecycle.handleWrite
  cases error with
  | true =>
      obtain ⟨s', hdel, hdone⟩ := h.delete
      unfold recycle
      rw [if_neg (by simp), hdel]
      exact ⟨s', false, rfl, hdone⟩
  | false =>
      obtain ⟨s', hstart, hdone⟩ := h.start hconn peer
      rw [if_pos rfl, hstart]
      exact ⟨s', true, rfl, hdone⟩

/-- **`start_accept`** makes one session more, and one accept. -/
theorem Tidy.startAccept (h : Tidy s accepts) : Tidy (startAccept s) (accepts + 1) where
  settled j := by
    have hnone : s.desk.objects s.next = none := h.fresh _ (le_refl _)
    have hidle : s.desk.count Operation.session s.next = 0 :=
      (settled_none hnone).mp (h.settled s.next)
    have howner : s.next = (Operation.accept s.next).session := rfl
    by_cases hj : j = s.next
    · rw [hj, howner]
      exact settled_arm put_self hidle rfl
    · exact settled_arm_other (settled_put_other (h.settled j) hj) (howner ▸ hj)
  fresh j hj := by
    have hlt : s.next + 1 ≤ j := hj
    exact (put_other (by omega)).trans (h.fresh j (by omega))
  accepts_eq := by
    have hcons : (Lifecycle.startAccept s).desk.pending = .accept s.next :: s.desk.pending := rfl
    rw [hcons, List.countP_cons, h.accepts_eq]
    rfl

/-- What `handle_accept` leaves is tidy with the accept that was pending before. -/
theorem Running.handleAccept (h : Running s session object accepts) (peer : Nat → Str) {error : Bool}
    (hconn : object.connected = !error) :
    ∃ s' status, handleAccept peer s session error = .ok (s', status) ∧ Tidy s' (accepts + 1) ∧
      ∀ j, j ≠ session → j ≠ s.next → s'.desk.objects j = s.desk.objects j := by
  have hafter : ∀ {t : System World}, Done s session accepts t → Tidy (startAccept t) (accepts + 1) ∧
      ∀ j, j ≠ session → j ≠ s.next → (startAccept t).desk.objects j = s.desk.objects j := by
    intro t hdone
    refine ⟨hdone.tidy.startAccept, fun j hj hnext => ?_⟩
    rw [← hdone.next_eq] at hnext
    exact (put_other hnext).trans (hdone.frame j hj)
  unfold Lifecycle.handleAccept
  cases error with
  | true =>
      obtain ⟨t, hdel, hdone⟩ := h.delete
      rw [if_neg (by simp), hdel]
      exact ⟨_, true, rfl, hafter hdone⟩
  | false =>
      obtain ⟨t, hstart, hdone⟩ := h.start hconn peer
      rw [if_pos rfl, hstart]
      exact ⟨_, false, rfl, hafter hdone⟩

/-! ## 6. Steps -/

/-- **A pending operation is taken out**: what it suits is its session, whose handler runs. -/
theorem Tidy.take (h : Tidy s accepts) {operation : Operation} (hop : operation ∈ s.desk.pending) :
    ∃ object, operation.Suits object ∧
      Running { s with desk := s.desk.take operation } operation.session object
        (accepts - if operation.isAccept then 1 else 0) := by
  obtain ⟨object, hobj, hsuits⟩ := (h.settled operation.session).object hop
  refine ⟨object, hsuits, hobj, take_idle (h.settled operation.session) hop,
    fun j hj => take_settled (h.settled j) hop hj, h.fresh, ?_⟩
  have hcount := take_countP Operation.isAccept hop
  rw [h.accepts_eq] at hcount
  show (s.desk.take operation).pending.countP Operation.isAccept = _
  omega

/-- The bytes of a read are in the buffer when its handler runs. -/
theorem deliver_fill {bytes : Read} (h : Running { s with desk := s.desk.take (.read session) } session
      object accepts) :
    deliver server peer s (.read session (some bytes)) = handleRead server
      (System.put { s with desk := s.desk.take (.read session) } session
        (some { object with inData := object.inData.fill bytes })) session false
      bytes.bytes.length := by
  unfold deliver
  dsimp only [Completion.operation]
  rw [h.use, ok_bind]

/-- **A completion** of a pending operation leaves a tidy system, in which the other sessions are as
    they were, or ends in the exception of a request handler. -/
theorem deliver_tidy (server : Server World) (peer : Nat → Str) (h : Tidy s 1)
    {completion : Completion} (hpending : completion.operation ∈ s.desk.pending) :
    (∃ f, deliver server peer s completion = .error (.fault f)) ∨
      ∃ s' status, deliver server peer s completion = .ok (s', status) ∧ Tidy s' 1 ∧
        ∀ j, j ≠ completion.operation.session → j ≠ s.next →
          s'.desk.objects j = s.desk.objects j := by
  obtain ⟨object, hsuits, hrun⟩ := h.take hpending
  cases completion with
  | accept session error =>
      have hput := hrun.put { object with connected := !error }
      obtain ⟨s', status, hok, htidy, hframe⟩ := hput.handleAccept peer rfl
      refine Or.inr ⟨s', status, ?_, htidy, fun j hj hnext => ?_⟩
      · unfold deliver
        dsimp only
        have huse := hrun.use
        dsimp only [Completion.operation, Operation.session] at huse
        dsimp only [Completion.operation]
        rw [huse, ok_bind]
        exact hok
      · exact (hframe j hj hnext).trans (put_other hj)
  | read session bytes =>
      cases bytes with
      | none =>
          rcases hrun.handleRead hsuits server true 0 with ⟨f, herror⟩ | ⟨s', status, hok, hdone⟩
          · exact Or.inl ⟨f, herror⟩
          · exact Or.inr ⟨s', status, hok, hdone.tidy, fun j hj _ => hdone.frame j hj⟩
      | some bytes =>
          have hput := hrun.put { object with inData := object.inData.fill bytes }
          rw [deliver_fill hrun]
          rcases hput.handleRead hsuits server false bytes.bytes.length with
            ⟨f, herror⟩ | ⟨s', status, hok, hdone⟩
          · exact Or.inl ⟨f, herror⟩
          · exact Or.inr ⟨s', status, hok, hdone.tidy, fun j hj _ => hdone.of_put.frame j hj⟩
  | write session error =>
      obtain ⟨s', status, hok, hdone⟩ := hrun.handleWrite hsuits peer error
      exact Or.inr ⟨s', status, hok, hdone.tidy, fun j hj _ => hdone.frame j hj⟩

theorem Tidy.initial (world : World) : Tidy (System.initial world) 1 := by
  have hnone : Tidy (⟨⟨fun _ => none, []⟩, 0, world⟩ : System World) 0 :=
    ⟨fun j => (settled_none rfl).mpr rfl, fun _ _ => rfl, rfl⟩
  exact hnone.startAccept

/-- **In every system that is reached** the sessions are settled, and one accept is pending. -/
theorem tidy_of_reached {world : World}
    (h : Relation.ReflTransGen (Step server peer) (System.initial world) s) : Tidy s 1 := by
  induction h with
  | refl => exact Tidy.initial world
  | tail _ hstep ih =>
      obtain ⟨completion, status, hpending, hok⟩ := hstep
      rcases deliver_tidy server peer ih hpending with ⟨f, herror⟩ | ⟨s', status', hok', htidy, _⟩
      · rw [hok] at herror
        cases herror
      · rw [hok] at hok'
        cases hok'
        exact htidy

/-- A tidy system is as the life cycle says. -/
theorem Tidy.lifeCycle (h : Tidy s 1) : LifeCycle s where
  accepts := h.accepts_eq
  connected session object hobj hconn := by
    obtain ⟨hone, operation, hop, howner, hsuits⟩ := (settled_some hobj).mp (h.settled session)
    refine ⟨hone, ?_⟩
    unfold Operation.Suits at hsuits
    rw [hconn] at hsuits
    cases operation with
    | accept => cases hsuits
    | read j =>
        cases howner
        exact Or.inl hop
    | write j =>
        cases howner
        exact Or.inr hop
  deleted session hobj := (settled_none hobj).mp (h.settled session)

/-- A read that is delivered does to its session what `handleRead` does to a connection of its own,
    and begins the write of the reply. -/
theorem deliver_read (server : Server World) (peer : Nat → Str) (h : Tidy s 1) {bytes : Read}
    (hobj : s.desk.objects session = some object) (hpending : .read session ∈ s.desk.pending) :
    deliver server peer s (.read session (some bytes)) =
      match Googolplex.handleRead { server with clientIp := object.clientIp } ⟨s.world, object.inData⟩
          bytes with
      | .error f => .error (.fault f)
      | .ok (after, reply) =>
        .ok ((System.put { s with desk := s.desk.take (.read session), world := after.world } session
          (some { object with rep := reply, inData := after.inData })).arm (.write session), true) := by
  obtain ⟨object', _, hrun⟩ := h.take hpending
  have hsame : object' = object := Option.some.inj (hrun.object_eq.symm.trans hobj)
  rw [hsame] at hrun
  have hput : Running (System.put { s with desk := s.desk.take (.read session) } session
      (some { object with inData := object.inData.fill bytes })) session _ _ :=
    hrun.put { object with inData := object.inData.fill bytes }
  rw [deliver_fill hrun, hput.handleRead_eq]
  unfold Googolplex.handleRead
  dsimp only [System.put]
  cases getReply { server with clientIp := object.clientIp } s.world (object.inData.fill bytes)
      bytes.bytes.length with
  | error f => rfl
  | ok v =>
      dsimp only
      rw [Completions.put_put]

/-- A session that has another operation pending is not the one whose handler runs. -/
theorem Tidy.not_running (h : Tidy s 1) {completion : Completion} (operation : Operation)
    (hpending : completion.operation ∈ s.desk.pending)
    (hobj : s.desk.objects operation.session = some object) (hop : operation ∈ s.desk.pending)
    (hne : completion.operation ≠ operation) :
    operation.session ≠ completion.operation.session ∧ operation.session ≠ s.next := by
  constructor
  · intro heq
    have hone := ((settled_some hobj).mp (h.settled operation.session)).1
    exact hne (eq_of_count_one hone hpending hop heq.symm rfl)
  · intro heq
    have hnone := h.fresh s.next (le_refl _)
    rw [← heq, hobj] at hnone
    cases hnone

/-- **The life cycle of sessions**: in every system that is reached, one accept is pending, a session
    that is connected has one operation pending, and one that is deleted has none. Whatever completes
    next, no handler uses a session that was deleted, or deletes one twice, or writes where an operation
    that is pending reads or writes; and it leaves those buffers as they are. -/
theorem session_life_cycle (server : Server World) (peer : Nat → Str) (world : World)
    {s : System World}
    (h : Relation.ReflTransGen (Step server peer) (System.initial world) s) :
    LifeCycle s ∧ ∀ completion : Completion, completion.operation ∈ s.desk.pending →
      (∀ m, deliver server peer s completion ≠ .error (.misuse m)) ∧
      ∀ s' status, deliver server peer s completion = .ok (s', status) →
        Untouched s completion s' := by
  have htidy := tidy_of_reached h
  refine ⟨htidy.lifeCycle, fun completion hpending => ?_⟩
  rcases deliver_tidy server peer htidy hpending with ⟨f, herror⟩ | ⟨t, status, hok, _, hframe⟩
  · rw [herror]
    refine ⟨fun m hm => ?_, fun s' status h => ?_⟩
    · cases hm
    · cases h
  · rw [hok]
    refine ⟨fun m hm => ?_, fun s' status h => ?_⟩
    · cases hm
    · cases h
      constructor
      · intro j object hobj hop hne
        obtain ⟨h1, h2⟩ := htidy.not_running (.read j) hpending hobj hop hne
        exact ⟨object, (hframe j h1 h2).trans hobj, rfl⟩
      · intro j object hobj hop hne
        obtain ⟨h1, h2⟩ := htidy.not_running (.write j) hpending hobj hop hne
        exact ⟨object, (hframe j h1 h2).trans hobj, rfl⟩

end Handlers

/-! ## 7. A connection that comes and goes -/

/-- A server without locations. -/
def idleServer : Server Unit := ⟨⟨fun _ => ⟨0, some .needMore, ⟨.get, [], [], []⟩⟩, fun _ => []⟩, ∅, []⟩

/-- The state after a completion. -/
def after (s : System Unit) (completion : Completion) : System Unit :=
  match deliver idleServer (fun _ => []) s completion with
  | .ok (s, _) => s
  | .error _ => s

/-- The first session is accepted, and its first read ends in an error. -/
def gone : System Unit := after (after (System.initial ()) (.accept 0 false)) (.read 0 none)

/-- It is deleted, and the second waits to be accepted. -/
theorem session_life_cycle_gone : gone.desk.objects 0 = none ∧ gone.desk.pending = [.accept 1] ∧
    LifeCycle gone ∧
    deliver idleServer (fun _ => []) gone (.accept 1 false) ≠ .error (.misuse .deleted) := by
  have hreached : Relation.ReflTransGen (Step idleServer fun _ => []) (System.initial ()) gone :=
    (Relation.ReflTransGen.single ⟨.accept 0 false, false, by decide, rfl⟩).tail
      ⟨.read 0 none, false, by decide, rfl⟩
  obtain ⟨hcycle, hnext⟩ := session_life_cycle idleServer (fun _ => []) () hreached
  exact ⟨rfl, rfl, hcycle, (hnext (.accept 1 false) (by decide)).1 .deleted⟩

end Googolplex.Lifecycle
