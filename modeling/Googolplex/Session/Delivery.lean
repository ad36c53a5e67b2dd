/-
  File:      Googolplex/Session/Delivery.lean
  Subject:   WHAT A CLIENT IS SENT, on any number of threads: the replies to what was
             read from it, each once, in order.

  * `readsOf`, `repliesOf`, `sentOf`: what the record of a run says of one session.
  * `Account`: the reads that were answered, the one that is not, the reply that is
    not sent.
  * `At`: what the operation pending on a session, or the thread at it, owes.
  * `sent_in_order`: the texts sent on a connection answer its reads one by one, and
    at most one read has no answer that was sent.
-/
import Googolplex.Session.Threads

namespace Googolplex.Threads

open Cxx Completions Lifecycle Programs Machine

/-! ## 1. The record of a session -/

/-- The reads of a session whose handling began. -/
def readsOf (session : Nat) (history : List Event) : List Read :=
  history.filterMap fun
    | .begun j bytes => if j = session then some bytes else none
    | _ => none

/-- The replies its handlings came to. -/
def repliesOf (session : Nat) (history : List Event) : List Str :=
  history.filterMap fun
    | .replied j reply => if j = session then some reply else none
    | _ => none

/-- The replies that were sent. -/
def sentOf (session : Nat) (history : List Event) : List Str :=
  history.filterMap fun
    | .sent j reply => if j = session then some reply else none
    | _ => none

/-- The session an event is of. -/
def Event.session : Event → Nat
  | .begun session _ => session
  | .replied session _ => session
  | .sent session _ => session

section

variable {World : Type} {server : Server World} (split : Split server) (peer : Nat → Str)

/-- The handling of what was read can come to the reply, whatever other threads do. -/
def Answers (session : Nat) (bytes : Read) (reply : Str) : Prop :=
  (split.program (peer session) (Buffer.zero.fill bytes) bytes.bytes.length).Yields (.ok reply)

/-- **The account of a session**: the reads are those that were answered and those that wait; the
    answers are those that were sent and those that are not. -/
def Account (history : List Event) (session : Nat) (waiting : List Read) (unsent : List Str) : Prop :=
  ∃ answered, readsOf session history = answered ++ waiting ∧
    repliesOf session history = sentOf session history ++ unsent ∧
    List.Forall₂ (Answers split peer session) answered (repliesOf session history)

/-- At most one read or one reply is left. -/
def Closed (history : List Event) (session : Nat) : Prop :=
  ∃ waiting unsent, Account split peer history session waiting unsent ∧
    waiting.length + unsent.length ≤ 1

/-- What an operation that is pending owes. -/
def OperationOwes (history : List Event) (object : SessionObject) : Operation → Prop
  | .accept session => Account split peer history session [] [] ∧ object.inData = Buffer.zero
  | .read session => Account split peer history session [] [] ∧ object.inData = Buffer.zero ∧
      object.clientIp = peer session
  | .write session => Account split peer history session [] [object.rep] ∧
      object.inData = Buffer.zero

/-- What a thread owes the session it is at. -/
def PcOwes (history : List Event) (object : SessionObject) : Pc World → Prop
  | .start session _ => Account split peer history session [] [] ∧ object.inData = Buffer.zero
  | .readSome session _ => Account split peer history session [] [] ∧ object.inData = Buffer.zero ∧
      object.clientIp = peer session
  | .delete session _ => Closed split peer history session
  | .allocate => True
  | .accept session => Account split peer history session [] [] ∧ object.inData = Buffer.zero
  | .getReply session bytes => Account split peer history session [] [] ∧
      object.inData = Buffer.zero.fill bytes ∧ object.clientIp = peer session
  | .handling session handling => ∃ bytes, Account split peer history session [bytes] [] ∧
      ∀ reply, handling.Yields (.ok reply) → Answers split peer session bytes reply
  | .assign session reply => Account split peer history session [] [reply]
  | .clear session => Account split peer history session [] [object.rep]
  | .write session => Account split peer history session [] [object.rep] ∧
      object.inData = Buffer.zero

/-! ## 2. One event more -/

variable {split peer} {history : List Event} {j : Nat} {waiting : List Read} {unsent : List Str}

theorem Account.begun (h : Account split peer history j [] []) (bytes : Read) :
    Account split peer (history ++ [.begun j bytes]) j [bytes] [] := by
  obtain ⟨answered, hreads, hreplies, hanswers⟩ := h
  rw [List.append_nil] at hreads
  refine ⟨answered, ?_, ?_, ?_⟩
  · rw [← hreads]
    simp [readsOf]
  · simpa [repliesOf, sentOf] using hreplies
  · simpa [repliesOf] using hanswers

theorem Account.replied {bytes : Read} (h : Account split peer history j [bytes] []) {reply : Str}
    (ha : Answers split peer j bytes reply) :
    Account split peer (history ++ [.replied j reply]) j [] [reply] := by
  obtain ⟨answered, hreads, hreplies, hanswers⟩ := h
  rw [List.append_nil] at hreplies
  refine ⟨answered ++ [bytes], ?_, ?_, ?_⟩
  · rw [List.append_nil, ← hreads]
    simp [readsOf]
  · have hsent : sentOf j (history ++ [.replied j reply]) = sentOf j history := by simp [sentOf]
    rw [hsent, ← hreplies]
    simp [repliesOf]
  · have hmore : repliesOf j (history ++ [.replied j reply]) = repliesOf j history ++ [reply] := by
      simp [repliesOf]
    rw [hmore]
    exact List.rel_append hanswers (.cons ha .nil)

theorem Account.sent {reply : Str} (h : Account split peer history j [] [reply]) :
    Account split peer (history ++ [.sent j reply]) j [] [] := by
  obtain ⟨answered, hreads, hreplies, hanswers⟩ := h
  refine ⟨answered, by simpa [readsOf] using hreads, ?_, by simpa [repliesOf] using hanswers⟩
  have hsame : repliesOf j (history ++ [.sent j reply]) = repliesOf j history := by simp [repliesOf]
  rw [hsame, hreplies]
  simp [sentOf]

/-- The account of a session is not changed by what happens to others. -/
theorem Account.other (h : Account split peer history j waiting unsent) {event : Option Event}
    (hne : ∀ e, event = some e → e.session ≠ j) :
    Account split peer (history ++ event.toList) j waiting unsent := by
  have hreads : readsOf j (history ++ event.toList) = readsOf j history := by
    rcases event with _ | (_ | _ | _)
    case some.begun k bytes => simp [readsOf, show k ≠ j from hne _ rfl]
    all_goals simp [readsOf]
  have hreplies : repliesOf j (history ++ event.toList) = repliesOf j history := by
    rcases event with _ | (_ | _ | _)
    case some.replied k reply => simp [repliesOf, show k ≠ j from hne _ rfl]
    all_goals simp [repliesOf]
  have hsent : sentOf j (history ++ event.toList) = sentOf j history := by
    rcases event with _ | (_ | _ | _)
    case some.sent k reply => simp [sentOf, show k ≠ j from hne _ rfl]
    all_goals simp [sentOf]
  obtain ⟨answered, h1, h2, h3⟩ := h
  exact ⟨answered, hreads.trans h1, by rw [hreplies, hsent, h2], by rw [hreplies]; exact h3⟩

theorem Account.closed (h : Account split peer history j waiting unsent)
    (hle : waiting.length + unsent.length ≤ 1) : Closed split peer history j := ⟨_, _, h, hle⟩

/-! ## 3. Who owes what -/

variable {T : Type}

/-- **What is owed to a session**: by the operation that is pending on it, by the thread at it; one
    that is not there has been closed, one that was never there has no record. -/
structure At (split : Split server) (peer : Nat → Str) (crew : Crew World T) (history : List Event)
    (session : Nat) : Prop where
  operation : ∀ operation ∈ crew.system.desk.pending, operation.session = session →
    ∃ object, crew.system.desk.objects session = some object ∧
      OperationOwes split peer history object operation
  thread : ∀ t pc, crew.pcs t = some pc → .session session ∈ tokensOf (some pc) →
    ∃ object, crew.system.desk.objects session = some object ∧ PcOwes split peer history object pc
  closed : crew.system.desk.objects session = none → Closed split peer history session
  new : crew.system.next ≤ session → Account split peer history session [] []

theorem Closed.other (h : Closed split peer history j) {event : Option Event}
    (hne : ∀ e, event = some e → e.session ≠ j) : Closed split peer (history ++ event.toList) j := by
  obtain ⟨waiting, unsent, hacc, hle⟩ := h
  exact ⟨waiting, unsent, hacc.other hne, hle⟩

theorem OperationOwes.other {object : SessionObject} {operation : Operation}
    (h : OperationOwes split peer history object operation) {event : Option Event}
    (hne : ∀ e, event = some e → e.session ≠ operation.session) :
    OperationOwes split peer (history ++ event.toList) object operation := by
  cases operation with
  | accept session => exact ⟨h.1.other hne, h.2⟩
  | read session => exact ⟨h.1.other hne, h.2⟩
  | write session => exact ⟨h.1.other hne, h.2⟩

/-- A thread is at one session. -/
theorem session_unique {pc : Pc World} {k : Nat} (hj : .session j ∈ tokensOf (some pc))
    (hk : .session k ∈ tokensOf (some pc)) : j = k := by
  have hrenew : ∀ (renew : Bool) (i : Nat), Token.session i ∉ renewing renew := by
    intro renew i
    cases renew <;> simp [renewing]
  cases pc <;> simp [tokensOf, hrenew] at hj hk
  all_goals rw [hj, hk]

theorem PcOwes.other {object : SessionObject} {pc : Pc World}
    (h : PcOwes split peer history object pc) {event : Option Event}
    (hj : .session j ∈ tokensOf (some pc)) (hne : ∀ e, event = some e → e.session ≠ j) :
    PcOwes split peer (history ++ event.toList) object pc := by
  have hne' : ∀ {session}, .session session ∈ tokensOf (some pc) →
      ∀ e, event = some e → e.session ≠ session := by
    intro session hmem e he
    rw [← session_unique hj hmem]
    exact hne e he
  cases pc with
  | start session renew => exact ⟨h.1.other (hne' List.mem_cons_self), h.2⟩
  | readSome session renew => exact ⟨h.1.other (hne' List.mem_cons_self), h.2⟩
  | delete session renew => exact Closed.other h (hne' List.mem_cons_self)
  | allocate => trivial
  | accept session => exact ⟨h.1.other (hne' List.mem_cons_self), h.2⟩
  | getReply session bytes => exact ⟨h.1.other (hne' List.mem_cons_self), h.2⟩
  | handling session handling =>
      obtain ⟨bytes, hacc, hyields⟩ := h
      exact ⟨bytes, hacc.other (hne' List.mem_cons_self), hyields⟩
  | assign session reply => exact Account.other h (hne' List.mem_cons_self)
  | clear session => exact Account.other h (hne' List.mem_cons_self)
  | write session => exact ⟨h.1.other (hne' List.mem_cons_self), h.2⟩

variable [DecidableEq T] [Fintype T] {crew : Crew World T} {t : T} {after : After World}

/-- **What has become of a session that was touched**: the thread has it still, an operation has been
    begun on it, or it is deleted. -/
inductive Settles (split : Split server) (peer : Nat → Str) (crew : Crew World T) (t : T)
    (after : After World) (history : List Event) (session : Nat) : Prop
  | thread {pc : Pc World} {object : SessionObject} (hpc : after.pc = some pc)
      (hmem : .session session ∈ tokensOf (some pc))
      (hobj : after.system.desk.objects session = some object)
      (howes : PcOwes split peer history object pc)
  | operation {o : Operation} {object : SessionObject} (hop : o ∈ after.system.desk.pending)
      (hsession : o.session = session) (hobj : after.system.desk.objects session = some object)
      (howes : OperationOwes split peer history object o)
  | deleted (hmem : .session session ∈ tokensOf (crew.pcs t))
      (hobj : after.system.desk.objects session = none) (hclosed : Closed split peer history session)

omit [DecidableEq T] [Fintype T] in
theorem mem_tokensOfOperation (operation : Operation) :
    .session operation.session ∈ tokensOfOperation operation := by
  cases operation <;> exact List.mem_cons_self

/-- A session that was touched has one holder, who owes what is owed. -/
theorem Settles.at (h : Settles split peer crew t after history j) (hinv : Inv crew)
    (hmoved : Moved crew t after) : At split peer (crew.after t after).1 history j := by
  have hinv' := hinv.moved hmoved
  have hself : (crew.after t after).1.pcs t = after.pc := Function.update_self t _ _
  cases h with
  | @thread pc object hpc hmem hobj howes =>
      have hhas : .session j ∈ tokensOf ((crew.after t after).1.pcs t) := by
        rw [hself, hpc]
        exact hmem
      refine ⟨fun operation hop hs => ?_, fun t' pc' hpc' hmem' => ?_, fun hnone => ?_, fun hle => ?_⟩
      · exact absurd hop (hinv'.not_pending hhas hs)
      · have hsame : t' = t := Tokens.one_thread (hinv'.once (.session j)) (by rw [hpc']; exact hmem') hhas
        rw [hsame, hself, hpc] at hpc'
        cases hpc'
        exact ⟨object, hobj, howes⟩
      · rw [show after.system.desk.objects j = none from hnone] at hobj
        cases hobj
      · rw [show after.system.desk.objects j = none from hinv'.fresh j hle] at hobj
        cases hobj
  | @operation operation object hop hsession hobj howes =>
      have hmem : .session j ∈ tokensOfOperation operation := hsession ▸ mem_tokensOfOperation operation
      refine ⟨fun operation' hop' hs => ?_, fun t' pc' hpc' hmem' => ?_, fun hnone => ?_,
        fun hle => ?_⟩
      · have hsame : operation' = operation :=
          Tokens.one_operation (hinv'.once (.session j)) hop' hop
            (hs ▸ mem_tokensOfOperation operation') hmem
        rw [hsame]
        exact ⟨object, hobj, howes⟩
      · exact absurd hop (hinv'.not_pending (t := t') (by rw [hpc']; exact hmem') hsession)
      · rw [show after.system.desk.objects j = none from hnone] at hobj
        cases hobj
      · rw [show after.system.desk.objects j = none from hinv'.fresh j hle] at hobj
        cases hobj
  | deleted hmem hobj hclosed =>
      refine ⟨fun operation hop hs => ?_, fun t' pc' hpc' hmem' => ?_, fun _ => hclosed, fun hle => ?_⟩
      · obtain ⟨object, hsome⟩ := hinv'.pending_object hop
        rw [hs, show (crew.after t after).1.system.desk.objects j = none from hobj] at hsome
        cases hsome
      · have hhas : .session j ∈ tokensOf ((crew.after t after).1.pcs t') := by
          rw [hpc']
          exact hmem'
        obtain ⟨object, hsome⟩ := hinv'.object hhas
        rw [show (crew.after t after).1.system.desk.objects j = none from hobj] at hsome
        cases hsome
      · obtain ⟨object, hsome⟩ := hinv.object hmem
        rw [hinv.fresh j (hmoved.next_le.trans hle)] at hsome
        cases hsome

omit [Fintype T] in
/-- A session that was not touched is owed what it was owed. -/
theorem At.elsewhere (h : At split peer crew history j) (hmoved : Moved crew t after)
    (hj : ¬ Touches crew t after j) (hevent : ∀ e, after.event = some e → e.session ≠ j) :
    At split peer (crew.after t after).1 (history ++ after.event.toList) j where
  operation operation hop hs := by
    have hop' := (hmoved.pending operation (hs ▸ hj)).mp hop
    obtain ⟨object, hobj, howes⟩ := h.operation operation hop' hs
    exact ⟨object, (hmoved.frame j hj).trans hobj, howes.other (hs ▸ hevent)⟩
  thread t' pc hpc hmem := by
    have hne : t' ≠ t := by
      rintro rfl
      refine hj (Or.inr ?_)
      have hself : (crew.after t' after).1.pcs t' = after.pc := Function.update_self t' _ _
      rw [← hself, hpc]
      exact hmem
    have hpc' : crew.pcs t' = some pc := (Function.update_of_ne hne _ _).symm.trans hpc
    obtain ⟨object, hobj, howes⟩ := h.thread t' pc hpc' hmem
    exact ⟨object, (hmoved.frame j hj).trans hobj, howes.other hmem hevent⟩
  closed hnone := (h.closed ((hmoved.frame j hj).symm.trans hnone)).other hevent
  new hle := (h.new (hmoved.next_le.trans hle)).other hevent

/-- One session is touched, and what is recorded is of it. -/
theorem at_moved (hall : ∀ j, At split peer crew history j) (hinv : Inv crew)
    (hmoved : Moved crew t after) {k : Nat} (htouch : ∀ j, Touches crew t after j ↔ j = k)
    (hevent : ∀ e, after.event = some e → e.session = k)
    (h : Settles split peer crew t after (history ++ after.event.toList) k) :
    ∀ j, At split peer (crew.after t after).1 (history ++ after.event.toList) j := by
  intro j
  by_cases hj : j = k
  · rw [hj]
    exact h.at hinv hmoved
  · refine (hall j).elsewhere hmoved (fun ht => hj ((htouch j).mp ht)) fun e he heq => hj ?_
    rw [← heq]
    exact hevent e he

omit [DecidableEq T] [Fintype T] in
/-- The session touched is the one the thread has. -/
theorem touches_iff {pc : Pc World} {session : Nat} (hpc : crew.pcs t = some pc)
    (hmem : .session session ∈ tokensOf (some pc))
    (hafter : ∀ k, .session k ∈ tokensOf after.pc → k = session) (j : Nat) :
    Touches crew t after j ↔ j = session := by
  unfold Touches
  rw [hpc]
  constructor
  · rintro (hj | hj)
    · exact session_unique hj hmem
    · exact hafter j hj
  · rintro rfl
    exact Or.inl hmem

/-- **The next access of a thread** leaves every session what is owed to it. -/
theorem at_advance (hall : ∀ j, At split peer crew history j) (hinv : Inv crew) {pc : Pc World}
    (hpc : crew.pcs t = some pc) (hok : pc.advance split peer crew.system = .ok after)
    (hmoved : Moved crew t after) :
    ∀ j, At split peer (crew.after t after).1 (history ++ after.event.toList) j := by
  have hnone : ∀ (renew : Bool) (k session : Nat), Token.session k ∈
      tokensOf (if renew then some (.allocate : Pc World) else none) → k = session := by
    intro renew k session hk
    cases renew <;> simp [tokensOf] at hk
  -- where nothing is recorded, nothing changes in the accounts
  have hquiet : ∀ {k : Nat} {waiting : List Read} {unsent : List Str},
      Account split peer history k waiting unsent →
        Account split peer (history ++ (none : Option Event).toList) k waiting unsent :=
    fun h => h.other fun e he => by cases he
  cases pc with
  | start session renew =>
      obtain ⟨object, hobj, hacc, hzero⟩ := (hall session).thread t _ hpc List.mem_cons_self
      rw [Pc.advance, use_eq hobj] at hok
      cases hok
      refine at_moved hall hinv hmoved (touches_iff hpc List.mem_cons_self fun k hk => ?_)
        (fun e he => by cases he) ?_
      · exact session_unique hk List.mem_cons_self
      · exact .thread rfl List.mem_cons_self put_self ⟨hquiet hacc, hzero, rfl⟩
  | readSome session renew =>
      obtain ⟨object, hobj, hacc, howes⟩ := (hall session).thread t _ hpc List.mem_cons_self
      rw [Pc.advance, use_eq hobj] at hok
      cases hok
      refine at_moved hall hinv hmoved (touches_iff hpc List.mem_cons_self fun k => hnone renew k _)
        (fun e he => by cases he) ?_
      exact .operation (o := .read session) List.mem_cons_self rfl hobj ⟨hquiet hacc, howes⟩
  | delete session renew =>
      obtain ⟨object, hobj, hclosed⟩ := (hall session).thread t _ hpc List.mem_cons_self
      rw [Pc.advance, System.delete, hobj] at hok
      cases hok
      refine at_moved hall hinv hmoved (touches_iff hpc List.mem_cons_self fun k => hnone renew k _)
        (fun e he => by cases he) (.deleted ?_ put_self ?_)
      · rw [hpc]
        exact List.mem_cons_self
      · exact Closed.other hclosed fun e he => by cases he
  | allocate =>
      cases hok
      refine at_moved (k := crew.system.next) hall hinv hmoved (fun j => ?_)
        (fun e he => by cases he) ?_
      · unfold Touches
        rw [hpc]
        simp [tokensOf]
      · refine .thread rfl List.mem_cons_self put_self ⟨hquiet ?_, rfl⟩
        exact (hall _).new (le_refl _)
  | accept session =>
      obtain ⟨object, hobj, hacc, hzero⟩ := (hall session).thread t _ hpc List.mem_cons_self
      rw [Pc.advance, use_eq hobj] at hok
      cases hok
      refine at_moved hall hinv hmoved
        (touches_iff hpc List.mem_cons_self fun k hk => absurd hk List.not_mem_nil)
        (fun e he => by cases he) ?_
      exact .operation (o := .accept session) List.mem_cons_self rfl hobj ⟨hquiet hacc, hzero⟩
  | getReply session bytes =>
      obtain ⟨object, hobj, hacc, hfilled, hip⟩ := (hall session).thread t _ hpc List.mem_cons_self
      rw [Pc.advance, use_eq hobj] at hok
      cases hok
      refine at_moved hall hinv hmoved (touches_iff hpc List.mem_cons_self fun k hk => ?_)
        (fun e he => by cases he; rfl) ?_
      · exact session_unique hk List.mem_cons_self
      · refine .thread rfl List.mem_cons_self hobj ⟨bytes, hacc.begun bytes, fun reply hyields => ?_⟩
        rw [hfilled, hip] at hyields
        exact hyields
  | handling session handling =>
      obtain ⟨object, hobj, bytes, hacc, hyields⟩ := (hall session).thread t _ hpc List.mem_cons_self
      cases handling with
      | access change next =>
          rw [Pc.advance, use_eq hobj] at hok
          cases hok
          refine at_moved hall hinv hmoved (touches_iff hpc List.mem_cons_self fun k hk => ?_)
            (fun e he => by cases he) ?_
          · exact session_unique hk List.mem_cons_self
          · exact .thread rfl List.mem_cons_self hobj
              ⟨bytes, hquiet hacc, fun reply h => hyields reply ⟨crew.system.world, h⟩⟩
      | done answer =>
          cases answer with
          | error f => cases hok
          | ok reply =>
              cases hok
              refine at_moved hall hinv hmoved (touches_iff hpc List.mem_cons_self fun k hk => ?_)
                (fun e he => by cases he; rfl) ?_
              · exact session_unique hk List.mem_cons_self
              · exact .thread rfl List.mem_cons_self hobj (hacc.replied (hyields reply rfl))
  | assign session reply =>
      obtain ⟨object, hobj, hacc⟩ := (hall session).thread t _ hpc List.mem_cons_self
      have hidle : .write session ∉ crew.system.desk.pending :=
        hinv.not_pending (t := t) (by rw [hpc]; exact List.mem_cons_self) rfl
      rw [Pc.advance, System.setRep, use_eq hobj, ok_bind, if_neg hidle] at hok
      cases hok
      refine at_moved hall hinv hmoved (touches_iff hpc List.mem_cons_self fun k hk => ?_)
        (fun e he => by cases he) ?_
      · exact session_unique hk List.mem_cons_self
      · exact .thread rfl List.mem_cons_self put_self (hquiet hacc)
  | clear session =>
      obtain ⟨object, hobj, hacc⟩ := (hall session).thread t _ hpc List.mem_cons_self
      have hidle : .read session ∉ crew.system.desk.pending :=
        hinv.not_pending (t := t) (by rw [hpc]; exact List.mem_cons_self) rfl
      rw [Pc.advance, System.clearInData, use_eq hobj, ok_bind, if_neg hidle] at hok
      cases hok
      refine at_moved hall hinv hmoved (touches_iff hpc List.mem_cons_self fun k hk => ?_)
        (fun e he => by cases he) ?_
      · exact session_unique hk List.mem_cons_self
      · exact .thread rfl List.mem_cons_self put_self ⟨hquiet hacc, rfl⟩
  | write session =>
      obtain ⟨object, hobj, hacc, hzero⟩ := (hall session).thread t _ hpc List.mem_cons_self
      rw [Pc.advance, use_eq hobj] at hok
      cases hok
      refine at_moved hall hinv hmoved
        (touches_iff hpc List.mem_cons_self fun k hk => absurd hk List.not_mem_nil)
        (fun e he => by cases he) ?_
      exact .operation (o := .write session) List.mem_cons_self rfl hobj ⟨hquiet hacc, hzero⟩

/-- **A completion** leaves every session what is owed to it: a read is in the buffer, a reply has
    been sent. -/
theorem at_begin (hall : ∀ j, At split peer crew history j) (hinv : Inv crew) (hidle : crew.pcs t = none)
    {completion : Completion} (hop : completion.operation ∈ crew.system.desk.pending)
    (hok : begin crew.system completion = .ok after) (hmoved : Moved crew t after) :
    ∀ j, At split peer (crew.after t after).1 (history ++ after.event.toList) j := by
  have hquiet : ∀ {k : Nat} {waiting : List Read} {unsent : List Str},
      Account split peer history k waiting unsent →
        Account split peer (history ++ (none : Option Event).toList) k waiting unsent :=
    fun h => h.other fun e he => by cases he
  have htouch : ∀ {pc : Pc World} {session : Nat}, after.pc = some pc →
      .session session ∈ tokensOf (some pc) → ∀ j, Touches crew t after j ↔ j = session := by
    intro pc session hpc hmem j
    unfold Touches
    rw [hidle, hpc]
    constructor
    · rintro (hj | hj)
      · cases hj
      · exact session_unique hj hmem
    · rintro rfl
      exact Or.inr hmem
  cases completion with
  | accept session error =>
      obtain ⟨object, hobj, hacc, hzero⟩ := (hall session).operation _ hop rfl
      have huse : ({ crew.system with desk := crew.system.desk.take (.accept session) } :
          System World).use session = .ok object := use_eq hobj
      unfold begin at hok
      dsimp only [Completion.operation] at hok
      rw [huse] at hok
      cases hok
      cases error with
      | true =>
          refine at_moved hall hinv hmoved (htouch rfl List.mem_cons_self) (fun e he => by cases he) ?_
          exact .thread rfl List.mem_cons_self put_self ((hquiet hacc).closed (by simp))
      | false =>
          refine at_moved hall hinv hmoved (htouch rfl List.mem_cons_self) (fun e he => by cases he) ?_
          exact .thread rfl List.mem_cons_self put_self ⟨hquiet hacc, hzero⟩
  | read session bytes =>
      obtain ⟨object, hobj, hacc, hzero, hip⟩ := (hall session).operation _ hop rfl
      cases bytes with
      | none =>
          cases hok
          refine at_moved hall hinv hmoved (htouch rfl List.mem_cons_self) (fun e he => by cases he) ?_
          exact .thread rfl List.mem_cons_self hobj ((hquiet hacc).closed (by simp))
      | some bytes =>
          have huse : ({ crew.system with desk := crew.system.desk.take (.read session) } :
              System World).use session = .ok object := use_eq hobj
          unfold begin at hok
          dsimp only [Completion.operation] at hok
          rw [huse] at hok
          cases hok
          refine at_moved hall hinv hmoved (htouch rfl List.mem_cons_self) (fun e he => by cases he) ?_
          exact .thread rfl List.mem_cons_self put_self
            ⟨hquiet hacc, congrArg (Buffer.fill · bytes) hzero, hip⟩
  | write session error =>
      obtain ⟨object, hobj, hacc, hzero⟩ := (hall session).operation _ hop rfl
      cases error with
      | true =>
          cases hok
          refine at_moved hall hinv hmoved (htouch rfl List.mem_cons_self) (fun e he => by cases he) ?_
          exact .thread rfl List.mem_cons_self hobj ((hquiet hacc).closed (by simp))
      | false =>
          have huse : ({ crew.system with desk := crew.system.desk.take (.write session) } :
              System World).use session = .ok object := use_eq hobj
          unfold begin at hok
          dsimp only [Completion.operation] at hok
          rw [huse] at hok
          cases hok
          refine at_moved hall hinv hmoved (htouch rfl List.mem_cons_self)
            (fun e he => by cases he; rfl) ?_
          exact .thread rfl List.mem_cons_self hobj ⟨hacc.sent, hzero⟩

/-! ## 4. Runs -/

/-- **A turn** keeps what is owed. -/
theorem at_turn (hall : ∀ j, At split peer crew history j) (hinv : Inv crew) {turn : Turn T}
    {crew' : Crew World T} {event : Option Event}
    (hok : crew.turn split peer turn = .ok (crew', event)) :
    Inv crew' ∧ ∀ j, At split peer crew' (history ++ event.toList) j := by
  rcases turn_ok hok with ⟨rfl, rfl⟩ | ⟨after, haccess, rfl, rfl⟩
  · exact ⟨hinv, by simpa using hall⟩
  · have hmoved := hinv.access haccess
    refine ⟨hinv.moved hmoved, ?_⟩
    cases haccess with
    | take hidle hop hb => exact at_begin hall hinv hidle hop hb hmoved
    | go hpc ha => exact at_advance hall hinv hpc ha hmoved

omit [DecidableEq T] [Fintype T] in
theorem at_initial (split : Split server) (peer : Nat → Str) (world : World) (j : Nat) :
    At split peer (Crew.initial world : Crew World T) [] j := by
  have hnothing : ∀ k, Account split peer [] k [] [] := fun k => ⟨[], rfl, rfl, .nil⟩
  refine ⟨fun operation hop hs => ?_, fun t pc hpc => (by cases hpc),
    fun _ => (hnothing j).closed (by simp), fun _ => hnothing j⟩
  rw [show (Crew.initial world : Crew World T).system.desk.pending = [.accept 0] from rfl,
    List.mem_singleton] at hop
  rw [hop] at hs ⊢
  rw [← hs]
  exact ⟨newSession, rfl, hnothing 0, rfl⟩

theorem at_reached {split : Split server} {peer : Nat → Str} {world : World} {turns : List (Turn T)}
    {record : List (Option Event)}
    (h : run (Crew.turn split peer) (Crew.initial world) turns = .ok (crew, record)) :
    Inv crew ∧ ∀ j, At split peer crew record.reduceOption j := by
  have h0 : Inv (Crew.initial world : Crew World T) ∧
      ∀ j, At split peer (Crew.initial world : Crew World T) ([] : List (Option Event)).reduceOption j :=
    ⟨Inv.initial world, at_initial split peer world⟩
  refine run_recorded (fun crew record => Inv crew ∧ ∀ j, At split peer crew record.reduceOption j)
    (fun crew record turn crew' event hinv _ hok => ?_) h0 (along_true _ _) h
  have hturn := at_turn hinv.2 hinv.1 hok
  rw [List.reduceOption_append]
  cases event <;> exact hturn

omit [DecidableEq T] in
/-- A session is closed up to one read or reply, wherever it stands. -/
theorem At.closed_up (hinv : Inv crew) (h : At split peer crew history j) :
    Closed split peer history j := by
  cases hobj : crew.system.desk.objects j with
  | none => exact h.closed hobj
  | some object =>
      have hheld : 1 ≤ crew.held (.session j) := by
        rw [hinv.held, there_session, hobj]
        exact le_refl _
      rcases Tokens.holder hheld with ⟨operation, hop, hmem⟩ | ⟨t, hmem⟩
      · have hs : operation.session = j := by
          cases operation <;> simpa [tokensOfOperation, Operation.session, eq_comm] using hmem
        obtain ⟨_, _, howes⟩ := h.operation operation hop hs
        cases operation <;> cases hs
        · exact howes.1.closed (by simp)
        · exact howes.1.closed (by simp)
        · exact howes.1.closed (by simp)
      · cases hpc : crew.pcs t with
        | none =>
            rw [hpc] at hmem
            cases hmem
        | some pc =>
            rw [hpc] at hmem
            obtain ⟨_, _, howes⟩ := h.thread t pc hpc hmem
            have hself : ∀ {session}, .session session ∈ tokensOf (some pc) → session = j :=
              fun hs => session_unique hs hmem
            cases pc with
            | start session renew =>
                obtain rfl := hself List.mem_cons_self
                exact howes.1.closed (by simp)
            | readSome session renew =>
                obtain rfl := hself List.mem_cons_self
                exact howes.1.closed (by simp)
            | delete session renew =>
                obtain rfl := hself List.mem_cons_self
                exact howes
            | allocate => simp [tokensOf] at hmem
            | accept session =>
                obtain rfl := hself List.mem_cons_self
                exact howes.1.closed (by simp)
            | getReply session bytes =>
                obtain rfl := hself List.mem_cons_self
                exact howes.1.closed (by simp)
            | handling session handling =>
                obtain rfl := hself List.mem_cons_self
                obtain ⟨bytes, hacc, _⟩ := howes
                exact hacc.closed (by simp)
            | assign session reply =>
                obtain rfl := hself List.mem_cons_self
                exact Account.closed howes (by simp)
            | clear session =>
                obtain rfl := hself List.mem_cons_self
                exact Account.closed howes (by simp)
            | write session =>
                obtain rfl := hself List.mem_cons_self
                exact howes.1.closed (by simp)

omit [DecidableEq T] [Fintype T] in
/-- What holds of the reads that were answered and their replies, holds of those that were sent. -/
theorem Closed.sent {R : Read → Str → Prop} (h : Closed split peer history j)
    {answered waiting : List Read} (hreads : readsOf j history = answered ++ waiting)
    (hR : List.Forall₂ R answered (repliesOf j history)) :
    ∃ answered waiting, readsOf j history = answered ++ waiting ∧ waiting.length ≤ 1 ∧
      List.Forall₂ R answered (sentOf j history) := by
  obtain ⟨waiting', unsent, ⟨replied, hreads', hreplies, hanswers⟩, hle⟩ := h
  have hlength : answered.length = replied.length := hR.length_eq.trans hanswers.length_eq.symm
  obtain ⟨rfl, rfl⟩ := List.append_inj (hreads.symm.trans hreads') hlength
  rw [hreplies] at hR
  have hsent := List.forall₂_take_append _ _ _ hR
  have hrest := (List.forall₂_drop_append _ _ _ hR).length_eq
  refine ⟨answered.take (sentOf j history).length,
    answered.drop (sentOf j history).length ++ waiting, ?_, ?_, hsent⟩
  · rw [← List.append_assoc, List.take_append_drop]
    exact hreads
  · rw [List.length_append]
    omega

/-- **What a client is sent**, in every run on any number of threads: the texts sent on a connection
    answer the reads of that connection one by one and in order, and at most one read has no answer
    that was sent. -/
theorem sent_in_order {world : World} (split : Split server) (peer : Nat → Str)
    {turns : List (Turn T)} {record : List (Option Event)}
    (h : run (Crew.turn split peer) (Crew.initial world) turns = .ok (crew, record)) (session : Nat) :
    ∃ answered waiting, readsOf session record.reduceOption = answered ++ waiting ∧
      waiting.length ≤ 1 ∧
      List.Forall₂ (Answers split peer session) answered (sentOf session record.reduceOption) := by
  obtain ⟨hinv, hall⟩ := at_reached h
  obtain ⟨waiting, unsent, ⟨replied, hreads, _, hanswers⟩, _⟩ := (hall session).closed_up hinv
  exact ((hall session).closed_up hinv).sent hreads hanswers

end

/-- What was sent in the visit. -/
theorem sent_in_order_visit : ∃ crew record,
    run (Crew.turn (Split.atOnce curtServer) fun _ => []) (Crew.initial ()) visit =
      .ok (crew, record) ∧ sentOf 0 record.reduceOption = ["no".toList] ∧
    ∃ answered waiting, readsOf 0 record.reduceOption = answered ++ waiting ∧ waiting.length ≤ 1 ∧
      List.Forall₂ (Answers (Split.atOnce curtServer) (fun _ => []) 0) answered
        (sentOf 0 record.reduceOption) := by
  have hsent : (run (Crew.turn (Split.atOnce curtServer) fun _ => []) (Crew.initial ()) visit).map
      (fun v => sentOf 0 v.2.reduceOption) = .ok ["no".toList] := by decide
  obtain ⟨crew, record, h⟩ := visit_runs
  rw [h] at hsent
  exact ⟨crew, record, h, Except.ok.inj hsent, sent_in_order _ _ h 0⟩

end Googolplex.Threads
