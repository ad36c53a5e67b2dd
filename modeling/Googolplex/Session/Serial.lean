/-
  File:      Googolplex/Session/Serial.lean
  Subject:   ONE REQUEST AT A TIME: when the server on several threads does what it would do
             for one client after another.

  * `serve`: a read is handled on a connection of its own (`session.cc` with nobody
    else there).
  * `Apart`: no handling begins while another is under way.
  * `serial_handlings`: in a run whose handlings are apart, the world, the replies and
    the exception that ends it are those of `serve`, in the order in which the
    handlings began.
  * `one_thread_serial`: on one thread every run is such a run.
-/
import Googolplex.Session.Delivery

namespace Googolplex.Threads

open Cxx Completions Lifecycle Programs Machine

/-! ## 1. Requests one by one -/

/-- The reads whose handling began, with their sessions. -/
def begunOf (history : List Event) : List (Nat × Read) :=
  history.filterMap fun
    | .begun session bytes => some (session, bytes)
    | _ => none

/-- The replies, with their sessions. -/
def repliedOf (history : List Event) : List (Nat × Str) :=
  history.filterMap fun
    | .replied session reply => some (session, reply)
    | _ => none

@[simp] theorem begunOf_append (history more : List Event) :
    begunOf (history ++ more) = begunOf history ++ begunOf more := List.filterMap_append

@[simp] theorem repliedOf_append (history more : List Event) :
    repliedOf (history ++ more) = repliedOf history ++ repliedOf more := List.filterMap_append

section

variable {World : Type} (server : Server World) (peer : Nat → Str)

/-- One read, on a connection of its own. -/
def serve (world : World) (request : Nat × Read) : Except Fault (World × (Nat × Str)) :=
  match Googolplex.handleRead { server with clientIp := peer request.1 } ⟨world, Buffer.zero⟩
      request.2 with
  | .error f => .error f
  | .ok (session, reply) => .ok (session.world, (request.1, reply))

/-- A thread handles a request. -/
def IsHandling : Option (Pc World) → Prop
  | some (.handling _ _) => True
  | _ => False

/-- A thread is about to. -/
def IsBeginning : Option (Pc World) → Prop
  | some (.getReply _ _) => True
  | _ => False

instance decidableIsHandling : (pc : Option (Pc World)) → Decidable (IsHandling pc)
  | some (.handling _ _) => .isTrue trivial
  | none | some (.start _ _) | some (.readSome _ _) | some (.delete _ _) | some .allocate
  | some (.accept _) | some (.getReply _ _) | some (.assign _ _) | some (.clear _)
  | some (.write _) => .isFalse id

instance decidableIsBeginning : (pc : Option (Pc World)) → Decidable (IsBeginning pc)
  | some (.getReply _ _) => .isTrue trivial
  | none | some (.start _ _) | some (.readSome _ _) | some (.delete _ _) | some .allocate
  | some (.accept _) | some (.handling _ _) | some (.assign _ _) | some (.clear _)
  | some (.write _) => .isFalse id

variable {T : Type} [DecidableEq T]

/-- **Nobody begins to handle a request while another is being handled.** -/
def Apart (crew : Crew World T) : Turn T → Prop
  | .go thread => IsBeginning (crew.pcs thread) → ∀ t, ¬ IsHandling (crew.pcs t)
  | .take _ _ => True

instance decidableApart [Fintype T] (crew : Crew World T) :
    (turn : Turn T) → Decidable (Apart crew turn)
  | .go thread =>
    inferInstanceAs (Decidable (IsBeginning (crew.pcs thread) → ∀ t, ¬ IsHandling (crew.pcs t)))
  | .take _ _ => .isTrue trivial

variable {server peer} {crew : Crew World T} {t : T} {after : After World} {history : List Event}
  {world : World} {split : Split server}

omit [DecidableEq T] in
theorem serve_eq {session : Nat} {bytes : Read} : serve server peer world (session, bytes) =
    (getReply { server with clientIp := peer session } world (Buffer.zero.fill bytes)
      bytes.bytes.length).map fun v => (v.1, (session, v.2)) := by
  unfold serve Googolplex.handleRead
  dsimp only
  cases getReply { server with clientIp := peer session } world (Buffer.zero.fill bytes)
      bytes.bytes.length with
  | error f => rfl
  | ok v => rfl

/-! ## 2. How far a run is -/

/-- A thread that is at work is given no completion. -/
theorem take_busy {pc : Pc World} (hpc : crew.pcs t = some pc) (completion : Completion) :
    crew.turn split peer (.take t completion) = .ok (crew, none) := by
  refine if_neg fun hready => ?_
  rw [hpc] at hready
  cases hready.1

/-- **How far a run is**: nobody handles a request, and all that began have been served; or one thread
    does, all before it have been served, and what is left of its handling is what is left of
    serving it. -/
inductive Progress (server : Server World) (peer : Nat → Str) (world : World) (crew : Crew World T)
    (history : List Event) : Prop
  | idle (hidle : ∀ t, ¬ IsHandling (crew.pcs t))
      (hserved : run (serve server peer) world (begunOf history) =
        .ok (crew.system.world, repliedOf history))
  | busy {t : T} {session : Nat} {handling : Handling World} {before : List (Nat × Read)}
      {bytes : Read} {w : World} (hpc : crew.pcs t = some (.handling session handling))
      (hothers : ∀ t', t' ≠ t → ¬ IsHandling (crew.pcs t'))
      (hbegun : begunOf history = before ++ [(session, bytes)])
      (hserved : run (serve server peer) world before = .ok (w, repliedOf history))
      (hrest : outcome (handling.alone crew.system.world) =
        getReply { server with clientIp := peer session } w (Buffer.zero.fill bytes)
          bytes.bytes.length)

/-- **What an access is to the handlings**: nothing, the begin of one, its next access, its end. -/
inductive Kind (split : Split server) (crew : Crew World T) (t : T) (after : After World) : Prop
  | quiet (hbefore : ¬ IsHandling (crew.pcs t)) (hafter : ¬ IsHandling after.pc)
      (hworld : after.system.world = crew.system.world) (hbegun : begunOf after.event.toList = [])
      (hreplied : repliedOf after.event.toList = [])
  | begins {session : Nat} {bytes : Read} {object : SessionObject}
      (hpc : crew.pcs t = some (.getReply session bytes))
      (hobj : crew.system.desk.objects session = some object)
      (hafter : after = ⟨crew.system, some (.handling session (split.program object.clientIp
        object.inData bytes.bytes.length)), some (.begun session bytes)⟩)
  | goesOn {session : Nat} {change : World → World} {next : World → Handling World}
      (hpc : crew.pcs t = some (.handling session (.access change next)))
      (hafter : after = ⟨{ crew.system with world := change crew.system.world },
        some (.handling session (next crew.system.world)), none⟩)
  | ends {session : Nat} {reply : Str} (hpc : crew.pcs t = some (.handling session (.done (.ok reply))))
      (hafter : after = ⟨crew.system, some (.assign session reply), some (.replied session reply)⟩)

/-- What a computation comes to, its first part has come to something. -/
theorem bind_ok {α β : Type} {x : Except Stop α} {k : α → Except Stop β} {b : β}
    (h : (x >>= k) = .ok b) : ∃ a, x = .ok a ∧ k a = .ok b := by
  cases x with
  | error e => cases h
  | ok a => exact ⟨a, rfl, h⟩

omit [DecidableEq T] in
theorem use_ok {s : System World} {session : Nat} {object : SessionObject}
    (h : s.use session = .ok object) : s.desk.objects session = some object := by
  unfold System.use at h
  split at h
  · rename_i hobj
    cases h
    exact hobj
  · cases h

theorem delete_world {s s' : System World} {session : Nat} (h : s.delete session = .ok s') :
    s'.world = s.world := by
  unfold System.delete at h
  split at h <;> cases h
  rfl

theorem setRep_world {s s' : System World} {session : Nat} {reply : Str}
    (h : s.setRep session reply = .ok s') : s'.world = s.world := by
  obtain ⟨object, _, h⟩ := bind_ok h
  split at h <;> cases h
  rfl

theorem clearInData_world {s s' : System World} {session : Nat}
    (h : s.clearInData session = .ok s') : s'.world = s.world := by
  obtain ⟨object, _, h⟩ := bind_ok h
  split at h <;> cases h
  rfl

/-- A completion that is taken is none of the handling. -/
theorem begin_quiet {s : System World} {completion : Completion}
    (h : begin s completion = .ok after) : ¬ IsHandling after.pc ∧ after.system.world = s.world ∧
      begunOf after.event.toList = [] ∧ repliedOf after.event.toList = [] := by
  unfold begin at h
  rcases completion with ⟨session, error⟩ | ⟨session, _ | bytes⟩ | ⟨session, _ | _⟩
  · obtain ⟨object, _, h⟩ := bind_ok h
    cases h
    cases error <;> exact ⟨id, rfl, rfl, rfl⟩
  · cases h
    exact ⟨id, rfl, rfl, rfl⟩
  · obtain ⟨object, _, h⟩ := bind_ok h
    cases h
    exact ⟨id, rfl, rfl, rfl⟩
  · obtain ⟨object, _, h⟩ := bind_ok h
    cases h
    exact ⟨id, rfl, rfl, rfl⟩
  · cases h
    exact ⟨id, rfl, rfl, rfl⟩

omit [DecidableEq T] in
/-- The kinds of accesses. -/
theorem Access.kind (ha : Access split peer crew t after) : Kind split crew t after := by
  cases ha with
  | take hidle hop h =>
      obtain ⟨hpc, hworld, hbegun, hreplied⟩ := begin_quiet h
      refine .quiet ?_ hpc hworld hbegun hreplied
      rw [hidle]
      exact id
  | @go pc hpc h =>
      have hquiet : ∀ {pc' : Pc World}, crew.pcs t = some pc' → ¬ IsHandling (some pc') →
          ¬ IsHandling (crew.pcs t) := by
        intro pc' heq hno
        rw [heq]
        exact hno
      have hrenew : ∀ renew : Bool,
          ¬ IsHandling (if renew then some (.allocate : Pc World) else none) := by
        intro renew
        cases renew <;> exact id
      cases pc with
      | start session renew =>
          obtain ⟨object, _, h⟩ := bind_ok h
          cases h
          exact .quiet (hquiet hpc id) id rfl rfl rfl
      | readSome session renew =>
          obtain ⟨object, _, h⟩ := bind_ok h
          cases h
          exact .quiet (hquiet hpc id) (hrenew renew) rfl rfl rfl
      | delete session renew =>
          obtain ⟨s', hdelete, h⟩ := bind_ok h
          cases h
          exact .quiet (hquiet hpc id) (hrenew renew) (delete_world hdelete) rfl rfl
      | allocate =>
          cases h
          exact .quiet (hquiet hpc id) id rfl rfl rfl
      | accept session =>
          obtain ⟨object, _, h⟩ := bind_ok h
          cases h
          exact .quiet (hquiet hpc id) id rfl rfl rfl
      | getReply session bytes =>
          obtain ⟨object, huse, h⟩ := bind_ok h
          cases h
          exact .begins hpc (use_ok huse) rfl
      | handling session handling =>
          cases handling with
          | access change next =>
              obtain ⟨object, _, h⟩ := bind_ok h
              cases h
              exact .goesOn hpc rfl
          | done answer =>
              cases answer with
              | error f => cases h
              | ok reply =>
                  cases h
                  exact .ends hpc rfl
      | assign session reply =>
          obtain ⟨s', hrep, h⟩ := bind_ok h
          cases h
          exact .quiet (hquiet hpc id) id (setRep_world hrep) rfl rfl
      | clear session =>
          obtain ⟨s', hclear, h⟩ := bind_ok h
          cases h
          exact .quiet (hquiet hpc id) id (clearInData_world hclear) rfl rfl
      | write session =>
          obtain ⟨object, _, h⟩ := bind_ok h
          cases h
          exact .quiet (hquiet hpc id) id rfl rfl rfl

/-- What a handler does to its session ends in no exception. -/
theorem bind_no_fault {α β : Type} {x : Except Stop α} {k : α → Except Stop β} {f : Fault}
    (hx : ∀ f, x ≠ .error (.fault f)) (hk : ∀ a, k a ≠ .error (.fault f)) :
    (x >>= k) ≠ .error (.fault f) := by
  cases x with
  | error e =>
      intro h
      refine hx f ?_
      cases h
      rfl
  | ok a => exact hk a

omit [DecidableEq T] in
theorem use_no_fault (s : System World) (session : Nat) (f : Fault) :
    s.use session ≠ .error (.fault f) := by
  unfold System.use
  split <;> exact fun h => by cases h

/-- An exception is that of a request handler, at the end of a handling. -/
theorem advance_fault {s : System World} {pc : Pc World} {f : Fault}
    (h : pc.advance split peer s = .error (.fault f)) :
    ∃ session, pc = .handling session (.done (.error f)) := by
  have huse : ∀ {session : Nat} {β : Type} {k : SessionObject → Except Stop β},
      (∀ o, k o ≠ .error (.fault f)) → (s.use session >>= k) ≠ .error (.fault f) :=
    fun hk => bind_no_fault (use_no_fault s _) hk
  cases pc with
  | handling session handling =>
      cases handling with
      | access change next => exact absurd h (huse fun o h => by cases h)
      | done answer =>
          cases answer with
          | ok reply => cases h
          | error f' =>
              cases h
              exact ⟨session, rfl⟩
  | allocate => cases h
  | start | readSome | accept | getReply | write => exact absurd h (huse fun o h => by cases h)
  | delete session renew =>
      refine absurd h (bind_no_fault (fun f' h' => ?_) fun o h => by cases h)
      unfold System.delete at h'
      split at h' <;> cases h'
  | assign session reply =>
      refine absurd h (bind_no_fault (fun f' => ?_) fun o h => by cases h)
      refine bind_no_fault (use_no_fault s _) fun o h' => ?_
      split at h' <;> cases h'
  | clear session =>
      refine absurd h (bind_no_fault (fun f' => ?_) fun o h => by cases h)
      refine bind_no_fault (use_no_fault s _) fun o h' => ?_
      split at h' <;> cases h'

/-! ## 3. Runs -/

/-- Where a thread is after an access, only for the thread itself. -/
theorem isHandling_after (u : T) : IsHandling ((crew.after t after).1.pcs u) ↔
    (u = t ∧ IsHandling after.pc) ∨ (u ≠ t ∧ IsHandling (crew.pcs u)) := by
  show IsHandling (Function.update crew.pcs t after.pc u) ↔ _
  by_cases hu : u = t
  · rw [hu, Function.update_self]
    simp
  · rw [Function.update_of_ne hu]
    simp [hu]

omit [DecidableEq T] in
theorem serve_step {before : List (Nat × Read)} {replies : List (Nat × Str)} {w : World}
    (hserved : run (serve server peer) world before = .ok (w, replies)) {request : Nat × Read}
    {w' : World} {reply : Nat × Str} (h : serve server peer w request = .ok (w', reply)) :
    run (serve server peer) world (before ++ [request]) = .ok (w', replies ++ [reply]) :=
  run_append.mpr ⟨w, replies, [reply], hserved, run_cons.mpr ⟨w', reply, [], h, rfl, rfl⟩, rfl⟩

/-- While a thread handles a request, no other does, and that one began last. -/
theorem Progress.handling (h : Progress server peer world crew history) {session : Nat}
    {handling : Handling World} (hpc : crew.pcs t = some (.handling session handling)) :
    ∃ before bytes w, (∀ t', t' ≠ t → ¬ IsHandling (crew.pcs t')) ∧
      begunOf history = before ++ [(session, bytes)] ∧
      run (serve server peer) world before = .ok (w, repliedOf history) ∧
      outcome (handling.alone crew.system.world) =
        getReply { server with clientIp := peer session } w (Buffer.zero.fill bytes)
          bytes.bytes.length := by
  cases h with
  | idle hidle => exact absurd (by rw [hpc]; trivial) (hidle t)
  | @busy t₀ session' handling' before bytes w hpc' hothers hbegan hserved hrest =>
      obtain rfl : t = t₀ := by
        by_contra hne
        exact hothers t hne (by rw [hpc]; trivial)
      rw [hpc] at hpc'
      cases hpc'
      exact ⟨before, bytes, w, hothers, hbegan, hserved, hrest⟩

/-- **An access** takes a run further, or serves one request more. -/
theorem Progress.step [Fintype T] (h : Progress server peer world crew history)
    (hall : ∀ j, At split peer crew history j) (ha : Access split peer crew t after)
    (hapart : ∀ session bytes, crew.pcs t = some (.getReply session bytes) →
      ∀ u, ¬ IsHandling (crew.pcs u)) :
    Progress server peer world (crew.after t after).1 (history ++ after.event.toList) := by
  cases ha.kind with
  | quiet hbefore hafter hworld hbegun hreplied =>
      cases h with
      | idle hidle hserved =>
          refine .idle (fun u hu => ?_) ?_
          · rcases (isHandling_after u).mp hu with ⟨_, hu⟩ | ⟨_, hu⟩
            · exact hafter hu
            · exact hidle u hu
          · rw [begunOf_append, repliedOf_append, hbegun, hreplied, List.append_nil, List.append_nil]
            exact hserved.trans (by rw [← hworld]; rfl)
      | @busy t₀ session handling before bytes w hpc hothers hbegan hserved hrest =>
          have hne : t₀ ≠ t := by
            rintro rfl
            refine hbefore ?_
            rw [hpc]
            trivial
          have hpc' : (crew.after t after).1.pcs t₀ = some (.handling session handling) :=
            (Function.update_of_ne hne _ _).trans hpc
          have hbegan' : begunOf (history ++ after.event.toList) = before ++ [(session, bytes)] := by
            rw [begunOf_append, hbegun, List.append_nil]
            exact hbegan
          have hserved' : run (serve server peer) world before =
              .ok (w, repliedOf (history ++ after.event.toList)) := by
            rw [repliedOf_append, hreplied, List.append_nil]
            exact hserved
          refine .busy hpc' (fun u hu hhandling => ?_) hbegan' hserved' ?_
          · rcases (isHandling_after u).mp hhandling with ⟨_, hu'⟩ | ⟨_, hu'⟩
            · exact hafter hu'
            · exact hothers u hu hu'
          · rw [← hrest, ← hworld]
            rfl
  | @begins session bytes object hpc hobj hafter =>
      have hidle := hapart session bytes hpc
      cases h with
      | busy hpc' => exact absurd (by rw [hpc']; trivial) (hidle _)
      | idle _ hserved =>
          obtain ⟨object', hobj', _, hfilled, hip⟩ := (hall session).thread t _ hpc List.mem_cons_self
          rw [hobj] at hobj'
          cases hobj'
          rw [hafter]
          refine .busy (w := crew.system.world) (Function.update_self t _ _)
            (fun u hu hhandling => ?_) (begunOf_append history _) ?_ ?_
          · rcases (isHandling_after u).mp hhandling with ⟨hu', _⟩ | ⟨_, hu'⟩
            · exact hu hu'
            · exact hidle u hu'
          · have hmore : repliedOf (history ++ [.begun session bytes]) = repliedOf history := by
              simp [repliedOf]
            exact hserved.trans (by rw [← hmore]; rfl)
          · rw [hfilled, hip]
            exact split.alone_eq _ _ _ _
  | @goesOn session change next hpc hafter =>
      obtain ⟨before, bytes, w, hothers, hbegan, hserved, hrest⟩ := h.handling hpc
      have hsame : history ++ (none : Option Event).toList = history := List.append_nil _
      rw [hafter]
      have hbegan' : begunOf (history ++ (none : Option Event).toList) =
          before ++ [(session, bytes)] := by
        rw [hsame, hbegan]
      have hserved' : run (serve server peer) world before =
          .ok (w, repliedOf (history ++ (none : Option Event).toList)) := by
        rw [hsame, hserved]
      refine .busy (Function.update_self t _ _) (fun u hu hhandling => ?_) hbegan' hserved' hrest
      rcases (isHandling_after u).mp hhandling with ⟨hu', _⟩ | ⟨_, hu'⟩
      · exact hu hu'
      · exact hothers u hu hu'
  | @ends session reply hpc hafter =>
      obtain ⟨before, bytes, w, hothers, hbegan, hserved, hrest⟩ := h.handling hpc
      rw [hafter]
      refine .idle (fun u hu => ?_) ?_
      · rcases (isHandling_after u).mp hu with ⟨_, hu⟩ | ⟨hne, hu⟩
        · exact hu
        · exact hothers u hne hu
      · have hreply : serve server peer w (session, bytes) =
            .ok (crew.system.world, (session, reply)) := by
          rw [serve_eq, ← hrest]
          rfl
        rw [begunOf_append, repliedOf_append, hbegan]
        exact (congrArg _ (List.append_nil _)).trans (serve_step hserved hreply)

theorem progress_reached [Fintype T] {turns : List (Turn T)} {record : List (Option Event)}
    (hapart : Along (Crew.turn split peer) Apart (Crew.initial world) turns)
    (h : run (Crew.turn split peer) (Crew.initial world) turns = .ok (crew, record)) :
    Progress server peer world crew record.reduceOption := by
  have h0 : (Inv (Crew.initial world : Crew World T) ∧
      ∀ j, At split peer (Crew.initial world : Crew World T) ([] : List (Option Event)).reduceOption j) ∧
      Progress server peer world (Crew.initial world : Crew World T)
        ([] : List (Option Event)).reduceOption :=
    ⟨⟨Inv.initial world, at_initial split peer world⟩, .idle (fun _ => id) rfl⟩
  refine (run_recorded (fun crew record =>
    (Inv crew ∧ ∀ j, At split peer crew record.reduceOption j) ∧
      Progress server peer world crew record.reduceOption)
    (fun crew record turn crew' event hinv hapart hok => ?_) h0 hapart h).2
  obtain ⟨⟨hinv, hall⟩, hprogress⟩ := hinv
  have hturn := at_turn hall hinv hok
  have hgoes : Progress server peer world crew' (record.reduceOption ++ event.toList) := by
    cases turn with
    | take thread completion =>
        cases hpc : crew.pcs thread with
        | some pc =>
            rw [take_busy hpc completion] at hok
            cases hok
            simpa using hprogress
        | none =>
            rcases turn_ok hok with ⟨rfl, rfl⟩ | ⟨after, haccess, rfl, rfl⟩
            · simpa using hprogress
            · refine hprogress.step hall haccess fun session bytes hpc' => ?_
              rw [show crew.pcs thread = _ from hpc'] at hpc
              cases hpc
    | go thread =>
        rcases turn_ok hok with ⟨rfl, rfl⟩ | ⟨after, haccess, rfl, rfl⟩
        · simpa using hprogress
        · refine hprogress.step hall haccess fun session bytes hpc => hapart ?_
          rw [show crew.pcs thread = _ from hpc]
          trivial
  rw [List.reduceOption_append]
  cases event <;> exact ⟨hturn, hgoes⟩

/-- **A run that does what `serve` does**: the requests that were begun have been served one after the
    other, all but one that is under way, with the replies of the run; if none is, the world is what
    they left. An exception that ends the run is the one `serve` ends in. -/
structure Serially (split : Split server) (peer : Nat → Str) (world : World) (crew : Crew World T)
    (history : List Event) : Prop where
  served : ∃ before rest w, begunOf history = before ++ rest ∧ rest.length ≤ 1 ∧
    run (serve server peer) world before = .ok (w, repliedOf history) ∧
    ((∀ t, ¬ IsHandling (crew.pcs t)) → rest = [] ∧ w = crew.system.world)
  fault : ∀ turn f, crew.turn split peer turn = .error (.fault f) →
    run (serve server peer) world (begunOf history) = .error f

/-- What is served while a run goes on, is served by one after the other. -/
theorem Progress.serially [Fintype T] {crew : Crew World T} {history : List Event}
    (h : Progress server peer world crew history) (hinv : Inv crew) :
    Serially split peer world crew history := by
  constructor
  · cases h with
    | idle hidle hserved =>
        exact ⟨_, [], _, (List.append_nil _).symm, by simp, hserved, fun _ => ⟨rfl, rfl⟩⟩
    | @busy t session handling before bytes w hpc hothers hbegun hserved hrest =>
        refine ⟨before, _, w, hbegun, by simp, hserved, fun hidle => absurd ?_ (hidle t)⟩
        rw [hpc]
        trivial
  · intro turn f hfault
    rcases turn_error hfault with ⟨completion, hnone, hop, hbegin⟩ | ⟨pc, hpc, hadvance⟩
    · -- a completion is taken without an exception
      obtain ⟨after, hok, _⟩ := hinv.begin hnone hop
      rw [hok] at hbegin
      cases hbegin
    · obtain ⟨session, rfl⟩ := advance_fault hadvance
      obtain ⟨before, bytes, w, _, hbegun, hserved, hrest⟩ := h.handling hpc
      rw [hbegun]
      refine run_append_error hserved ?_
      rw [serve_eq, ← hrest]
      rfl

/-- **Requests whose handlings are apart are served one by one**, on any number of threads. -/
theorem serial_handlings [Fintype T] (split : Split server) (peer : Nat → Str) {turns : List (Turn T)}
    {record : List (Option Event)}
    (hapart : Along (Crew.turn split peer) Apart (Crew.initial world) turns)
    (h : run (Crew.turn split peer) (Crew.initial world) turns = .ok (crew, record)) :
    Serially split peer world crew record.reduceOption :=
  (progress_reached hapart h).serially (at_reached h).1

/-- **On one thread every run is such a run.** -/
theorem one_thread_serial [Fintype T] [Subsingleton T] (split : Split server) (peer : Nat → Str)
    {turns : List (Turn T)} {record : List (Option Event)}
    (h : run (Crew.turn split peer) (Crew.initial world) turns = .ok (crew, record)) :
    Serially split peer world crew record.reduceOption := by
  have hapart : Along (Crew.turn split peer) Apart (Crew.initial world) turns := by
    refine along_all (fun crew turn => ?_) _ _
    cases turn with
    | take thread completion => trivial
    | go thread =>
        intro hbegins t hhandles
        rw [Subsingleton.elim t thread] at hhandles
        unfold IsBeginning at hbegins
        unfold IsHandling at hhandles
        split at hbegins
        · rename_i hpc
          rw [hpc] at hhandles
          exact hhandles
        · exact hbegins
  exact (progress_reached hapart h).serially (at_reached h).1

end

/-- A server that numbers its replies. -/
def numberingServer : Server ℕ where
  beast := ⟨fun _ => ⟨0, none, ⟨.get, ['/'], [], []⟩⟩, Response.body⟩
  routes := (∅ : Routes ℕ).insert ['/']
    ⟨fun _ n _ response => .ok (n + 1, { response with body := decimal n }, true)⟩
  clientIp := []

/-- Two clients are accepted and read from. The first thread has the first request while the second
    thread handles the other, and goes on with it when that is done. -/
def twoVisits : List (Turn Bool) :=
  [.take false (.accept 0 false), .go false, .go false, .go false, .go false,
    .take false (.accept 1 false), .go false, .go false, .go false, .go false,
    .take false (.read 0 (some oneByte)), .take true (.read 1 (some oneByte)),
    .go true, .go true, .go true, .go false, .go true, .go false, .go true, .go false, .go true,
    .go false, .go false, .go false]

/-- `serial_handlings` for the two visits: the one who was read from last is served first. -/
theorem serial_handlings_two : ∃ crew record,
    run (Crew.turn (Split.atOnce numberingServer) fun _ => []) (Crew.initial 0) twoVisits =
      .ok (crew, record) ∧
      (begunOf record.reduceOption).map Prod.fst = [1, 0] ∧
      repliedOf record.reduceOption = [(1, ['0']), (0, ['1'])] ∧
      Serially (Split.atOnce numberingServer) (fun _ => []) 0 crew record.reduceOption := by
  have hseen : ((run (Crew.turn (Split.atOnce numberingServer) fun _ => []) (Crew.initial 0)
      twoVisits).toOption.map fun v => ((begunOf v.2.reduceOption).map Prod.fst,
        repliedOf v.2.reduceOption)) = some ([1, 0], [(1, ['0']), (0, ['1'])]) := by
    decide +kernel
  have hapart : Along (Crew.turn (Split.atOnce numberingServer) fun _ => []) Apart (Crew.initial 0)
      twoVisits := by decide +kernel
  cases h : run (Crew.turn (Split.atOnce numberingServer) fun _ => []) (Crew.initial 0)
      twoVisits with
  | error e =>
      rw [h] at hseen
      cases hseen
  | ok v =>
      rw [h] at hseen
      obtain ⟨hbegun, hreplied⟩ := Prod.mk.inj (Option.some.inj hseen)
      exact ⟨v.1, v.2, rfl, hbegun, hreplied, serial_handlings _ _ hapart h⟩

end Googolplex.Threads
