/-
  File:      Googolplex/Session/Answered.lean
  Subject:   WHAT MUST HAPPEN, on any number of threads, in a run that does not end: every handler
             returns, every read is answered, and the server listens again.

  All that is asked of the scheduler is that a thread that has a handler to run goes
  on (`Fair`). What the request handlers of the other threads do meanwhile does not
  matter: a program has an end on every path.

  * `Next`: the accesses of a handler, one after the other; `acc_next`: no handler
    goes on for ever.
  * `Fair.goes`: the next access of a thread is made; `turn_leaves`: meanwhile the others
    leave its session alone.
  * `every_read_answered`: the three together.
-/
import Googolplex.Session.Serial

namespace Googolplex.Threads

open Cxx Completions Lifecycle Programs Machine

/-! ## 1. Handlers end -/

section Handlers

variable {World : Type} {server : Server World} {split : Split server} {peer : Nat → Str}
  {s : System World} {pc : Pc World} {after : After World}

/-- **The next access of a handler**, whatever it finds. -/
inductive Next (split : Split server) : Pc World → Pc World → Prop
  | started (session : Nat) (renew : Bool) :
      Next split (.readSome session renew) (.start session renew)
  | armed (session : Nat) : Next split .allocate (.readSome session true)
  | deleted (session : Nat) : Next split .allocate (.delete session true)
  | allocated (session : Nat) : Next split (.accept session) .allocate
  | begun (session : Nat) (bytes : Read) (clientIp : Str) (inData : Buffer) :
      Next split (.handling session (split.program clientIp inData bytes.bytes.length))
        (.getReply session bytes)
  | accessed (session : Nat) (change : World → World) (next : World → Handling World)
      (world : World) :
      Next split (.handling session (next world)) (.handling session (.access change next))
  | replied (session : Nat) (reply : Str) :
      Next split (.assign session reply) (.handling session (.done (.ok reply)))
  | assigned (session : Nat) (reply : Str) : Next split (.clear session) (.assign session reply)
  | cleared (session : Nat) : Next split (.write session) (.clear session)

/-- An access is the last of its handler, or there is a next. -/
theorem advance_next (h : pc.advance split peer s = .ok after) :
    after.pc = none ∨ ∃ pc', after.pc = some pc' ∧ Next split pc' pc := by
  cases pc with
  | start session renew =>
      obtain ⟨object, _, h⟩ := bind_ok h
      cases h
      exact Or.inr ⟨_, rfl, .started session renew⟩
  | readSome session renew =>
      obtain ⟨object, _, h⟩ := bind_ok h
      cases h
      cases renew with
      | false => exact Or.inl rfl
      | true => exact Or.inr ⟨_, rfl, .armed session⟩
  | delete session renew =>
      obtain ⟨s', _, h⟩ := bind_ok h
      cases h
      cases renew with
      | false => exact Or.inl rfl
      | true => exact Or.inr ⟨_, rfl, .deleted session⟩
  | allocate =>
      cases h
      exact Or.inr ⟨_, rfl, .allocated _⟩
  | accept session =>
      obtain ⟨object, _, h⟩ := bind_ok h
      cases h
      exact Or.inl rfl
  | getReply session bytes =>
      obtain ⟨object, _, h⟩ := bind_ok h
      cases h
      exact Or.inr ⟨_, rfl, .begun session bytes _ _⟩
  | handling session handling =>
      cases handling with
      | access change next =>
          obtain ⟨object, _, h⟩ := bind_ok h
          cases h
          exact Or.inr ⟨_, rfl, .accessed session change next _⟩
      | done answer =>
          cases answer with
          | error f => cases h
          | ok reply =>
              cases h
              exact Or.inr ⟨_, rfl, .replied session reply⟩
  | assign session reply =>
      obtain ⟨s', _, h⟩ := bind_ok h
      cases h
      exact Or.inr ⟨_, rfl, .assigned session reply⟩
  | clear session =>
      obtain ⟨s', _, h⟩ := bind_ok h
      cases h
      exact Or.inr ⟨_, rfl, .cleared session⟩
  | write session =>
      obtain ⟨object, _, h⟩ := bind_ok h
      cases h
      exact Or.inl rfl

theorem acc_allocate : Acc (Next split) .allocate := by
  refine ⟨_, fun _ h => ?_⟩
  cases h
  exact ⟨_, fun _ h => by cases h⟩

theorem acc_readSome (session : Nat) (renew : Bool) : Acc (Next split) (.readSome session renew) := by
  refine ⟨_, fun _ h => ?_⟩
  cases h
  exact acc_allocate

theorem acc_assign (session : Nat) (reply : Str) : Acc (Next split) (.assign session reply) := by
  refine ⟨_, fun _ h => ?_⟩
  cases h
  refine ⟨_, fun _ h => ?_⟩
  cases h
  exact ⟨_, fun _ h => by cases h⟩

/-- A program ends, whatever the others do to what it finds. -/
theorem acc_handling (session : Nat) (handling : Handling World) :
    Acc (Next split) (.handling session handling) := by
  induction handling with
  | done answer =>
      refine ⟨_, fun _ h => ?_⟩
      cases h
      exact acc_assign session _
  | access change next ih =>
      refine ⟨_, fun _ h => ?_⟩
      cases h
      exact ih _

/-- **No handler goes on for ever.** -/
theorem acc_next (split : Split server) (pc : Pc World) : Acc (Next split) pc := by
  refine ⟨_, fun pc' h => ?_⟩
  cases h with
  | started session renew => exact acc_readSome session renew
  | armed _ => exact acc_allocate
  | deleted _ => exact acc_allocate
  | allocated _ => exact ⟨_, fun _ h => by cases h⟩
  | begun session _ _ _ => exact acc_handling session _
  | accessed session _ _ _ => exact acc_handling session _
  | replied session reply => exact acc_assign session reply
  | assigned session reply => exact (acc_assign session reply).inv (.assigned session reply)
  | cleared _ => exact ⟨_, fun _ h => by cases h⟩

end Handlers

/-! ## 2. Turns that come -/

section Runs

variable {World : Type} {server : Server World} {split : Split server} {peer : Nat → Str} {T : Type}
  [DecidableEq T] {world : World} {states : ℕ → Crew World T} {turns : ℕ → Turn T}
  {record : ℕ → Option Event} {crew crew' : Crew World T} {t : T} {pc : Pc World}
  {event : Option Event} {session n : ℕ}

/-- **A thread that has a handler to run goes on.** -/
def Fair (states : ℕ → Crew World T) (turns : ℕ → Turn T) : Prop :=
  ∀ t n, (∀ m, n ≤ m → (states m).pcs t ≠ none) → ∃ m, n ≤ m ∧ turns m = .go t

/-- A thread stands where it stands until it goes on. -/
theorem turn_keeps (hpc : crew.pcs t = some pc) {turn : Turn T} (hne : turn ≠ .go t)
    (hok : crew.turn split peer turn = .ok (crew', event)) : crew'.pcs t = some pc := by
  by_cases ht : t = turn.thread
  · cases turn with
    | take thread completion =>
        obtain rfl : t = thread := ht
        rw [take_busy hpc completion] at hok
        cases hok
        exact hpc
    | go thread =>
        obtain rfl : t = thread := ht
        exact absurd rfl hne
  · rcases turn_ok hok with ⟨rfl, _⟩ | ⟨after, _, rfl, _⟩
    · exact hpc
    · exact (Function.update_of_ne ht _ _).trans hpc

/-- When it goes on, its next access is made. -/
theorem turn_go (hpc : crew.pcs t = some pc)
    (hok : crew.turn split peer (.go t) = .ok (crew', event)) :
    ∃ after, pc.advance split peer crew.system = .ok after ∧ crew' = (crew.after t after).1 ∧
      event = after.event := by
  unfold Crew.turn at hok
  dsimp only at hok
  rw [hpc] at hok
  dsimp only at hok
  cases hadvance : pc.advance split peer crew.system with
  | error e =>
      rw [hadvance] at hok
      cases hok
  | ok after =>
      rw [hadvance] at hok
      cases hok
      exact ⟨after, rfl, rfl, rfl⟩

/-- The next access of a thread is made, and what its turn alone can change is as it was. -/
theorem Fair.goes_while (hfair : Fair states turns)
    (hrun : Endless (Crew.turn split peer) (Crew.initial world) states turns record)
    (hpc : (states n).pcs t = some pc) (P : Crew World T → Prop)
    (hkeep : ∀ crew turn crew' event, crew.pcs t = some pc → P crew → turn ≠ .go t →
      crew.turn split peer turn = .ok (crew', event) → P crew') (hP : P (states n)) :
    ∃ m after, n ≤ m ∧ P (states m) ∧ (states m).pcs t = some pc ∧
      pc.advance split peer (states m).system = .ok after ∧
      states (m + 1) = ((states m).after t after).1 ∧ record m = after.event := by
  obtain ⟨m, hm, ⟨hpc', hP'⟩, hgo⟩ := hrun.until (fun crew => crew.pcs t = some pc ∧ P crew)
    (fun turn => turn = .go t)
    (fun _ _ _ _ hp hne hok => ⟨turn_keeps hp.1 hne hok, hkeep _ _ _ _ hp.1 hp.2 hne hok⟩) ⟨hpc, hP⟩
    fun hlasts => hfair t n fun m hm => by rw [(hlasts m hm).1]; exact Option.some_ne_none pc
  have hok := hrun.step m
  rw [hgo] at hok
  obtain ⟨after, hadvance, hstate, hevent⟩ := turn_go hpc' hok
  exact ⟨m, after, hm, hP', hpc', hadvance, hstate, hevent⟩

/-- **The next access of a thread is made.** -/
theorem Fair.goes (hfair : Fair states turns)
    (hrun : Endless (Crew.turn split peer) (Crew.initial world) states turns record)
    (hpc : (states n).pcs t = some pc) :
    ∃ m after, n ≤ m ∧ (states m).pcs t = some pc ∧
      pc.advance split peer (states m).system = .ok after ∧
      states (m + 1) = ((states m).after t after).1 ∧ record m = after.event := by
  obtain ⟨m, after, hm, _, hmade⟩ :=
    hfair.goes_while hrun hpc (fun _ => True) (fun _ _ _ _ _ _ _ _ => trivial) trivial
  exact ⟨m, after, hm, hmade⟩

/-- A turn of another thread leaves the session of a thread alone. -/
theorem turn_leaves [Fintype T] (hinv : Inv crew) (hpc : crew.pcs t = some pc)
    (hmem : .session session ∈ tokensOf (some pc)) {turn : Turn T} (hne : turn ≠ .go t)
    (hok : crew.turn split peer turn = .ok (crew', event)) :
    crew'.system.desk.objects session = crew.system.desk.objects session := by
  have hhas : .session session ∈ tokensOf (crew.pcs t) := by
    rw [hpc]
    exact hmem
  by_cases ht : t = turn.thread
  · cases turn with
    | take thread completion =>
        obtain rfl : t = thread := ht
        rw [take_busy hpc completion] at hok
        cases hok
        rfl
    | go thread =>
        obtain rfl : t = thread := ht
        exact absurd rfl hne
  · rcases turn_ok hok with ⟨rfl, _⟩ | ⟨after, haccess, rfl, _⟩
    · rfl
    · have hmoved := hinv.access haccess
      refine hmoved.frame session ?_
      rintro (hbefore | hthen)
      · exact ht (Tokens.one_thread (hinv.once (.session session)) hhas hbefore)
      · -- after the access two threads would have it
        have hother : .session session ∈
            tokensOf ((crew.after turn.thread after).1.pcs turn.thread) := by
          rw [show (crew.after turn.thread after).1.pcs turn.thread = after.pc from
            Function.update_self _ _ _]
          exact hthen
        have hstill : .session session ∈ tokensOf ((crew.after turn.thread after).1.pcs t) := by
          rw [show (crew.after turn.thread after).1.pcs t = crew.pcs t from
            Function.update_of_ne ht _ _]
          exact hhas
        exact ht (Tokens.one_thread ((hinv.moved hmoved).once (.session session)) hstill hother)

/-- **The next access of a thread finds its session** as the last one left it. -/
theorem Fair.goes_at [Fintype T] (hfair : Fair states turns)
    (hrun : Endless (Crew.turn split peer) (Crew.initial world) states turns record)
    (hpc : (states n).pcs t = some pc) (hmem : .session session ∈ tokensOf (some pc))
    {object : SessionObject} (hobj : (states n).system.desk.objects session = some object) :
    ∃ m after, n ≤ m ∧ (states m).system.desk.objects session = some object ∧
      pc.advance split peer (states m).system = .ok after ∧
      states (m + 1) = ((states m).after t after).1 := by
  have hkeep : ∀ (crew : Crew World T) (turn : Turn T) (crew' : Crew World T)
      (event : Option Event), crew.pcs t = some pc →
      (Inv crew ∧ crew.system.desk.objects session = some object) → turn ≠ .go t →
      crew.turn split peer turn = .ok (crew', event) →
      (Inv crew' ∧ crew'.system.desk.objects session = some object) := by
    intro crew turn crew' event hpc ⟨hinv, hobj⟩ hne hok
    refine ⟨?_, (turn_leaves hinv hpc hmem hne hok).trans hobj⟩
    rcases turn_ok hok with ⟨rfl, _⟩ | ⟨after, haccess, rfl, _⟩
    · exact hinv
    · exact hinv.moved (hinv.access haccess)
  obtain ⟨m, after, hm, ⟨_, hobj'⟩, _, hadvance, hstate, _⟩ := hfair.goes_while hrun hpc
    (fun crew => Inv crew ∧ crew.system.desk.objects session = some object) hkeep
    ⟨Inv.of_reached (hrun.reachable n), hobj⟩
  exact ⟨m, after, hm, hobj', hadvance, hstate⟩

/-- Where the thread is then. -/
theorem pcs_self {after : After World} (h : crew' = (crew.after t after).1) : crew'.pcs t = after.pc := by
  rw [h]
  exact Function.update_self t after.pc crew.pcs

/-- **Every handler returns.** -/
theorem Fair.returns (hfair : Fair states turns)
    (hrun : Endless (Crew.turn split peer) (Crew.initial world) states turns record)
    (hpc : (states n).pcs t = some pc) : ∃ m, n ≤ m ∧ (states m).pcs t = none := by
  induction acc_next split pc generalizing n with
  | intro pc _ ih =>
      obtain ⟨m, after, hm, _, hadvance, hstate, _⟩ := hfair.goes hrun hpc
      rcases advance_next hadvance with hnone | ⟨pc', hpc', hnext⟩
      · exact ⟨m + 1, by omega, (pcs_self hstate).trans hnone⟩
      · obtain ⟨k, hk, hidle⟩ := ih pc' hnext ((pcs_self hstate).trans hpc')
        exact ⟨k, by omega, hidle⟩

/-! ## 3. Replies -/

/-- **A handling comes to a reply.** -/
theorem Fair.replies (hfair : Fair states turns)
    (hrun : Endless (Crew.turn split peer) (Crew.initial world) states turns record)
    {handling : Handling World} (hpc : (states n).pcs t = some (.handling session handling)) :
    ∃ m reply, n ≤ m ∧ record m = some (.replied session reply) ∧ handling.Yields (.ok reply) ∧
      (states (m + 1)).pcs t = some (.assign session reply) := by
  induction handling generalizing n with
  | done answer =>
      obtain ⟨m, after, hm, _, hadvance, hstate, hevent⟩ := hfair.goes hrun hpc
      cases answer with
      | error f => cases hadvance
      | ok reply =>
          cases hadvance
          exact ⟨m, reply, hm, hevent, rfl, pcs_self hstate⟩
  | access change next ih =>
      obtain ⟨m, after, hm, _, hadvance, hstate, _⟩ := hfair.goes hrun hpc
      obtain ⟨object, _, hadvance⟩ := bind_ok hadvance
      cases hadvance
      obtain ⟨k, reply, hk, hreplied, hyields, hassign⟩ := ih _ (pcs_self hstate)
      exact ⟨k, reply, by omega, hreplied, ⟨_, hyields⟩, hassign⟩

/-- The reply is put in its place. -/
theorem setRep_ok {s s' : System World} {reply : Str} (h : s.setRep session reply = .ok s') :
    ∃ object, s'.desk.objects session = some object ∧ object.rep = reply := by
  obtain ⟨object, _, h⟩ := bind_ok h
  split at h
  · cases h
  · cases h
    exact ⟨_, put_self, rfl⟩

/-- The reply stays when what was read is cleared. -/
theorem clearInData_ok {s s' : System World} {object : SessionObject}
    (hobj : s.desk.objects session = some object) (h : s.clearInData session = .ok s') :
    s'.desk.objects session = some { object with inData := Buffer.zero } := by
  obtain ⟨object', huse, h⟩ := bind_ok h
  rw [use_eq hobj] at huse
  cases huse
  split at h
  · cases h
  · cases h
    exact put_self

/-- **A reply comes to be written**: a write of the session is begun, and `rep_` is the reply. -/
theorem Fair.writes [Fintype T] (hfair : Fair states turns)
    (hrun : Endless (Crew.turn split peer) (Crew.initial world) states turns record) {reply : Str}
    (hpc : (states n).pcs t = some (.assign session reply)) :
    ∃ k object, n < k ∧ .write session ∈ (states k).system.desk.pending ∧
      (states k).system.desk.objects session = some object ∧ object.rep = reply := by
  obtain ⟨m₁, _, hm₁, _, hadvance, hassigned, _⟩ := hfair.goes hrun hpc
  obtain ⟨s₁, hset, hadvance⟩ := bind_ok hadvance
  cases hadvance
  obtain ⟨object, hobj, hrep⟩ := setRep_ok hset
  have hobj₁ : (states (m₁ + 1)).system.desk.objects session = some object := by
    rw [hassigned]
    exact hobj
  obtain ⟨m₂, _, hm₂, hobj₂, hadvance, hcleared⟩ :=
    hfair.goes_at hrun (pcs_self hassigned) List.mem_cons_self hobj₁
  obtain ⟨s₂, hclear, hadvance⟩ := bind_ok hadvance
  cases hadvance
  have hobj₃ : (states (m₂ + 1)).system.desk.objects session =
      some { object with inData := Buffer.zero } := by
    rw [hcleared]
    exact clearInData_ok hobj₂ hclear
  obtain ⟨m₃, _, hm₃, hobj₄, hadvance, hwritten⟩ :=
    hfair.goes_at hrun (pcs_self hcleared) List.mem_cons_self hobj₃
  obtain ⟨_, _, hadvance⟩ := bind_ok hadvance
  cases hadvance
  refine ⟨m₃ + 1, { object with inData := Buffer.zero }, by omega, ?_, ?_, hrep⟩
  · rw [hwritten]
    exact List.mem_cons_self
  · rw [hwritten]
    exact hobj₄

/-- A thread is given what was read. -/
theorem take_read (hidle : crew.pcs t = none) (hop : .read session ∈ crew.system.desk.pending)
    {bytes : Read}
    (hok : crew.turn split peer (.take t (.read session (some bytes))) = .ok (crew', event)) :
    crew'.pcs t = some (.getReply session bytes) := by
  unfold Crew.turn at hok
  dsimp only at hok
  rw [if_pos ⟨by rw [hidle]; rfl, hop⟩] at hok
  cases hbegin : Threads.begin crew.system (.read session (some bytes)) with
  | error e =>
      rw [hbegin] at hok
      cases hok
  | ok after =>
      rw [hbegin] at hok
      cases hok
      obtain ⟨object, _, hbegin⟩ := bind_ok hbegin
      cases hbegin
      exact pcs_self rfl

/-- **It is handled**, as the client sent it. -/
theorem Fair.begins [Fintype T] (hfair : Fair states turns)
    (hrun : Endless (Crew.turn split peer) (Crew.initial world) states turns record) {bytes : Read}
    (hpc : (states n).pcs t = some (.getReply session bytes)) :
    ∃ m, n ≤ m ∧ record m = some (.begun session bytes) ∧
      (states (m + 1)).pcs t = some (.handling session
        (split.program (peer session) (Buffer.zero.fill bytes) bytes.bytes.length)) := by
  obtain ⟨m, _, hm, hpc', hadvance, hstate, hevent⟩ := hfair.goes hrun hpc
  obtain ⟨object, huse, hadvance⟩ := bind_ok hadvance
  cases hadvance
  -- nothing of an earlier read is left, and the address is that of the client
  obtain ⟨_, hall⟩ := at_reached (hrun.run m)
  obtain ⟨object', hobj, _, hdata, hip⟩ := (hall session).thread t _ hpc' List.mem_cons_self
  rw [use_ok huse] at hobj
  cases hobj
  refine ⟨m, hm, hevent, ?_⟩
  rw [pcs_self hstate, hdata, hip]

/-! ## 4. Listening -/

/-- An operation that has the acceptor is one that accepts. -/
theorem operation_acceptor {operation : Operation} (h : .acceptor ∈ tokensOfOperation operation) :
    ∃ session, operation = .accept session := by
  cases operation with
  | accept session => exact ⟨session, rfl⟩
  | read session => simp [tokensOfOperation] at h
  | write session => simp [tokensOfOperation] at h

/-- The thread that has the acceptor keeps it until it is given back to an operation. -/
theorem acceptor_kept [Fintype T] (hinv : Inv crew) (hhas : .acceptor ∈ tokensOf (crew.pcs t))
    {turn : Turn T} (hok : crew.turn split peer turn = .ok (crew', event))
    (hno : ∀ session, .accept session ∉ crew'.system.desk.pending) :
    .acceptor ∈ tokensOf (crew'.pcs t) := by
  rcases turn_ok hok with ⟨rfl, _⟩ | ⟨after, haccess, rfl, _⟩
  · exact hhas
  · by_cases ht : t = turn.thread
    · have hbalance := (hinv.access haccess).balance .acceptor
      have hwaiting : Tokens.waiting tokensOfOperation after.system.desk.pending .acceptor = 0 :=
        Tokens.waiting_eq_zero fun operation hop hacceptor => by
          obtain ⟨session, rfl⟩ := operation_acceptor hacceptor
          exact hno session hop
      have hcount := List.count_pos_iff.mpr hhas
      rw [← ht, hwaiting, there_acceptor, there_acceptor] at hbalance
      rw [pcs_self (congrArg (fun u => (crew.after u after).1) ht.symm)]
      exact List.count_pos_iff.mp (by omega)
    · rw [show (crew.after turn.thread after).1.pcs t = crew.pcs t from Function.update_of_ne ht _ _]
      exact hhas

/-- **The server listens again.** -/
theorem Fair.listens [Fintype T] (hfair : Fair states turns)
    (hrun : Endless (Crew.turn split peer) (Crew.initial world) states turns record) (n : ℕ) :
    ∃ m session, n ≤ m ∧ .accept session ∈ (states m).system.desk.pending := by
  by_contra hno
  have hno : ∀ m, n ≤ m → ∀ session, .accept session ∉ (states m).system.desk.pending :=
    fun m hm session hop => hno ⟨m, session, hm, hop⟩
  have hinv : ∀ m, Inv (states m) := fun m => Inv.of_reached (hrun.reachable m)
  -- somebody has the acceptor, and it is no operation
  have hheld : 1 ≤ (states n).held .acceptor := by
    rw [(hinv n).held]
    exact le_refl _
  rcases Tokens.holder hheld with ⟨operation, hop, hacceptor⟩ | ⟨t, hhas⟩
  · obtain ⟨session, rfl⟩ := operation_acceptor hacceptor
    exact hno n (le_refl _) session hop
  · have hkeeps : ∀ m, n ≤ m → .acceptor ∈ tokensOf ((states m).pcs t) := by
      intro m hm
      induction m, hm using Nat.le_induction with
      | base => exact hhas
      | succ m hm ih => exact acceptor_kept (hinv m) ih (hrun.step m) (hno (m + 1) (by omega))
    cases hpc : (states n).pcs t with
    | none =>
        rw [hpc] at hhas
        cases hhas
    | some pc =>
        obtain ⟨m, hm, hidle⟩ := hfair.returns hrun hpc
        have hstill := hkeeps m hm
        rw [hidle] at hstill
        cases hstill

/-! ## 5. Everything that must happen -/

/-- **What must happen in a run that does not end**, if no thread that has a handler to run is left
    alone for ever: every thread is idle again and again; what is read from a client, once a thread is
    given it, is handled and comes to a reply that its handling can come to, and the reply comes to be
    written as `rep_`; and again and again the server listens. -/
theorem every_read_answered [Fintype T] (split : Split server) (peer : Nat → Str)
    (hrun : Endless (Crew.turn split peer) (Crew.initial world) states turns record)
    (hfair : Fair states turns) :
    (∀ t n, ∃ m, n ≤ m ∧ (states m).pcs t = none) ∧
      (∀ n t session bytes, turns n = .take t (.read session (some bytes)) →
        (states n).pcs t = none → .read session ∈ (states n).system.desk.pending →
        ∃ b m k reply object, n < b ∧ b < m ∧ m < k ∧ record b = some (.begun session bytes) ∧
          record m = some (.replied session reply) ∧ Answers split peer session bytes reply ∧
          .write session ∈ (states k).system.desk.pending ∧
          (states k).system.desk.objects session = some object ∧ object.rep = reply) ∧
      ∀ n, ∃ m session, n ≤ m ∧ .accept session ∈ (states m).system.desk.pending := by
  refine ⟨fun t n => ?_, fun n t session bytes hturn hidle hop => ?_, hfair.listens hrun⟩
  · cases hpc : (states n).pcs t with
    | none => exact ⟨n, le_refl n, hpc⟩
    | some pc => exact hfair.returns hrun hpc
  · have hok := hrun.step n
    rw [hturn] at hok
    obtain ⟨b, hb, hbegun, hhandling⟩ := hfair.begins hrun (take_read hidle hop hok)
    obtain ⟨m, reply, hm, hreplied, hyields, hassign⟩ := hfair.replies hrun hhandling
    obtain ⟨k, object, hk, hwritten⟩ := hfair.writes hrun hassign
    exact ⟨b, m, k, reply, object, by omega, by omega, by omega, hbegun, hreplied, hyields, hwritten⟩

end Runs

/-- The visit, and nothing after it. -/
def visitTurns (n : ℕ) : Turn Bool := visit.getD n (.go true)

/-- Where the crew is after some of the turns. -/
def visitCrew : ℕ → Crew Unit Bool
  | 0 => Crew.initial ()
  | n + 1 =>
    match (visitCrew n).turn (Split.atOnce curtServer) (fun _ => []) (visitTurns n) with
    | .ok (crew, _) => crew
    | .error _ => visitCrew n

/-- What is recorded of a turn. -/
def visitRecord (n : ℕ) : Option Event :=
  match (visitCrew n).turn (Split.atOnce curtServer) (fun _ => []) (visitTurns n) with
  | .ok (_, event) => event
  | .error _ => none

/-- A thread that is idle does not go on. -/
theorem idle_go {crew : Crew Unit Bool} (hidle : ∀ t, crew.pcs t = none) (t : Bool) :
    crew.turn (Split.atOnce curtServer) (fun _ => []) (.go t) = .ok (crew, none) := by
  unfold Crew.turn
  dsimp only
  rw [hidle t]

theorem visitTurns_after {n : ℕ} (hn : 15 ≤ n) : visitTurns n = .go true :=
  List.getD_eq_default _ _ hn

/-- Nothing is left to do. -/
theorem visitCrew_idle {n : ℕ} (hn : 15 ≤ n) : ∀ t, (visitCrew n).pcs t = none := by
  induction n, hn using Nat.le_induction with
  | base =>
      have hidle : ∀ t, ((visitCrew 15).pcs t).isNone = true := by decide
      exact fun t => Option.isNone_iff_eq_none.mp (hidle t)
  | succ n hn ih =>
      unfold visitCrew
      rw [visitTurns_after hn, idle_go ih]
      exact ih

theorem visit_endless : Endless (Crew.turn (Split.atOnce curtServer) fun _ => []) (Crew.initial ())
    visitCrew visitTurns visitRecord where
  start := rfl
  step n := by
    have hok : ((visitCrew n).turn (Split.atOnce curtServer) (fun _ => []) (visitTurns n)).isOk =
        true := by
      by_cases hn : n < 15
      · have hall : ∀ n < 15, ((visitCrew n).turn (Split.atOnce curtServer) (fun _ => [])
            (visitTurns n)).isOk = true := by decide
        exact hall n hn
      · rw [visitTurns_after (by omega), idle_go (visitCrew_idle (by omega))]
        rfl
    rw [visitCrew, visitRecord]
    cases h : (visitCrew n).turn (Split.atOnce curtServer) (fun _ => []) (visitTurns n) with
    | ok v => rfl
    | error e =>
        rw [h] at hok
        cases hok

/-- The byte that was read is answered. -/
theorem every_read_answered_visit : ∃ b m k reply object, 3 < b ∧ b < m ∧ m < k ∧
    visitRecord b = some (.begun 0 oneByte) ∧ visitRecord m = some (.replied 0 reply) ∧
    Answers (Split.atOnce curtServer) (fun _ => []) 0 oneByte reply ∧
    .write 0 ∈ (visitCrew k).system.desk.pending ∧
    (visitCrew k).system.desk.objects 0 = some object ∧ object.rep = reply := by
  have hfair : Fair visitCrew visitTurns := fun t n hbusy =>
    absurd (visitCrew_idle (le_max_left 15 n) t) (hbusy _ (le_max_right 15 n))
  exact (every_read_answered _ _ visit_endless hfair).2.1 3 true 0 oneByte rfl rfl (by decide)

end Googolplex.Threads
