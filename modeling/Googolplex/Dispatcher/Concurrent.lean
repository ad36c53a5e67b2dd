/-
  File:      Googolplex/Dispatcher/Concurrent.lean
  Subject:   THE WHOLE SERVER ON SEVERAL THREADS: sessions, router and handlers of all locations,
             access by access.

  The handlers work on the tree and on the map of their factory; nothing else is
  shared but the calls of `sleep` and what the API answers.

  * `serverSplit`: `get_reply` as a program; with nobody in between it is `getReply`.
  * `Removes`: what a DELETE may remove, at a CRUD location or from a folder of text_gen.
  * `Evolves`: what every access keeps to, at all locations at once.
  * `server_on_threads`: in every state of every schedule the known entities of every
    CRUD location have their directories, if their paths lead past nothing that a DELETE
    may have removed; and what a client was told of is known.
-/
import Googolplex.Crud.Concurrent
import Googolplex.Dispatcher.Acknowledged
import Googolplex.Session.Shared
import Googolplex.TextGen.Concurrent

namespace Googolplex.Concurrent

open Cxx Posix Posix.FileTree Programs FileAccesses Threads Machine
open Config (ConfigArg AddrMap)

/-- A program of the server. -/
abbrev ServerAccesses (α : Type) := Prog ServerState α

/-! ## 1. Parts of the server -/

/-- The tree. -/
def treeView : View ServerState FileTree where
  get s := s.files
  put files s := { s with files }
  get_put _ _ := rfl
  put_put _ _ _ := rfl

/-- The tree, and the map of the factory at a location. -/
def crudView (location : Str) : View ServerState Crud.CrudState where
  get s := s.crud location
  put crud s :=
    { s with files := crud.files, fileToId := s.fileToId.insert location crud.fileToId }
  get_put crud s := by
    unfold ServerState.crud
    rw [getElem?_assign_self]
    rfl
  put_put crud crud' s := by
    dsimp only
    rw [assign_assign]

/-- The factory has its map. -/
def settle (location : Str) : ServerAccesses Unit :=
  .atomically fun s => ((crudView location).put (s.crud location) s, ())

/-- What the API answers the next request. -/
def nextReply : ServerAccesses (Option Str) :=
  .atomically fun s => ({ s with api := fun n => s.api (n + 1) }, s.api 0)

/-- `sleep`. -/
def sleep (seconds : Int) : ServerAccesses Unit :=
  .atomically fun s => ({ s with sleeps := s.sleeps ++ [seconds] }, ())

/-! ## 2. Requests -/

section

variable (platform : Platform) (addrmap : AddrMap)

/-- `request_handler_static::handle_request`. -/
def staticProgram (handler : RequestHandler) (request : Request) (response : Response) :
    Accesses RequestResult :=
  match Static.pathOf handler request.target with
  | none => return .ok (Static.notFound response, false)
  | some path => do
    match ← readFromFile path with
    | .error f => return .error f
    | .ok (some content) =>
      let response := Static.setContentType path { response with result := .ok }
      return .ok (({ response with body := content } : Response).preparePayload, true)
    | .ok none => return .ok (Static.notFound response, false)

/-- One request to the handler of an entry. -/
def handleProgram (location : Str) (arg : ConfigArg) (clientIp : Str) (request : Request)
    (response : Response) : ServerAccesses RequestResult :=
  let handler : RequestHandler := ⟨arg.location, arg.root⟩
  match handlerTypeOf arg.handlerType with
  | .static => (staticProgram handler request response).focus treeView
  | .echo => return .ok (Echo.handleRequest platform.writeRequest request response)
  | .crud => do
    settle location
    (Crud.Concurrent.handleRequest handler platform.disk request response).focus (crudView location)
  | .block => do
    let (blockTime, response, status) := Block.handleRequest request response
    sleep blockTime
    return .ok (response, status)
  | .health => return .ok (Health.handleRequest response)
  | .textGen => do
    match ← (FileAccesses.makeRoot arg.root).focus treeView with
    | .error f => return .error f
    | .ok () =>
      let apiReply ← nextReply
      (TextGen.Concurrent.handleRequest platform.toHost handler clientIp apiReply request
        response).focus treeView
  | .notFound => return .ok (NotFound.handleRequest response)

/-- The part of `generate_response` after the parse. -/
def respondProgram (clientIp : Str) : Option Request → ServerAccesses (Except Fault Response)
  | none => return .ok { freshResponse with result := .badRequest }
  | some request =>
    match searchAddrBinding (routesOf platform addrmap) (request.target ++ ['/']) with
    | none => return .ok { freshResponse with result := .badRequest }
    | some location =>
      match addrmap[location]? with
      | none => return .error .nullPointer
      | some arg => do
        match ← handleProgram platform location arg clientIp request freshResponse with
        | .error f => return .error f
        | .ok (response, _) => return .ok response

/-- `get_reply`. -/
def replyProgram (clientIp : Str) (requestData : Buffer) (dataLen : Int) :
    ServerAccesses (Except Fault Str) :=
  match parseRequest platform.beast requestData dataLen with
  | .error f => return .error f
  | .ok parsed => do
    match ← respondProgram platform addrmap clientIp parsed with
    | .error f => return .error f
    | .ok response => return .ok (platform.beast.write response)

/-- The server; a session puts in the address of its client. -/
def sharedServer : Server ServerState := ⟨platform.beast, routesOf platform addrmap, []⟩

end

/-! ## 3. With nobody in between -/

section Alone

variable {platform : Platform} {addrmap : AddrMap} {location clientIp : Str} {arg : ConfigArg}
  {request : Request} {response : Response} (s : ServerState)

theorem tree_alone {α : Type} (p : Accesses α) : (p.focus treeView).alone s =
    ({ s with files := (p.alone s.files).1 }, (p.alone s.files).2) := focus_alone treeView p rfl

theorem static_alone (handler : RequestHandler) (files : FileTree) :
    (staticProgram handler request response).alone files =
      (files, Static.handleRequest handler files request response) := by
  unfold staticProgram Static.handleRequest
  cases Static.pathOf handler request.target with
  | none => rfl
  | some path =>
      dsimp only
      rw [alone_bind, readFromFile_alone]
      dsimp only
      rcases RequestHandler.readFromFile files path with f | _ | content <;> rfl

/-- **The handler of an entry.** -/
theorem handleProgram_alone :
    outcome ((handleProgram platform location arg clientIp request response).alone s) =
      handle platform location arg clientIp s request response := by
  unfold handleProgram handle
  dsimp only
  cases handlerTypeOf arg.handlerType with
  | static =>
      dsimp only
      rw [tree_alone, static_alone]
      rcases Static.handleRequest ⟨arg.location, arg.root⟩ s.files request response with f | ⟨r, b⟩ <;>
        rfl
  | echo => rfl
  | crud =>
      dsimp only
      rw [alone_bind]
      unfold settle
      rw [alone_atomically]
      dsimp only
      have hsettled : (crudView location).put ((crudView location).get
          ((crudView location).put (s.crud location) s)) ((crudView location).put (s.crud location) s) =
            (crudView location).put (s.crud location) s := by
        rw [(crudView location).get_put, (crudView location).put_put]
      rw [focus_alone _ _ hsettled, (crudView location).get_put, (crudView location).put_put,
        ← Crud.Concurrent.handleRequest_alone]
      generalize (Crud.Concurrent.handleRequest ⟨arg.location, arg.root⟩ platform.disk request
        response).alone (s.crud location) = result
      obtain ⟨crud, f | ⟨r, b⟩⟩ := result <;> rfl
  | block => rfl
  | health => rfl
  | textGen =>
      dsimp only
      rw [alone_bind, tree_alone, makeRoot_alone]
      cases Googolplex.makeRoot s.files arg.root with
      | error f => rfl
      | ok files =>
          dsimp only
          rw [alone_bind]
          unfold nextReply
          rw [alone_atomically, tree_alone, ← TextGen.Concurrent.handleRequest_alone]
          dsimp only
          generalize (TextGen.Concurrent.handleRequest platform.toHost ⟨arg.location, arg.root⟩ clientIp
            (s.api 0) request response).alone files = result
          obtain ⟨files', f | ⟨r, b⟩⟩ := result <;> rfl
  | notFound => rfl

theorem respondProgram_alone (parsed : Option Request) :
    outcome ((respondProgram platform addrmap clientIp parsed).alone s) =
      respond ⟨platform.beast, routesOf platform addrmap, clientIp⟩ s parsed := by
  unfold respondProgram respond
  cases parsed with
  | none => rfl
  | some request =>
      dsimp only
      cases searchAddrBinding (routesOf platform addrmap) (request.target ++ ['/']) with
      | none => rfl
      | some location =>
          dsimp only
          rw [routesOf_get]
          cases addrmap[location]? with
          | none => rfl
          | some arg =>
              have hhandle : (factory platform location arg).handleRequest clientIp s request
                  freshResponse = handle platform location arg clientIp s request freshResponse := rfl
              dsimp only [Option.map_some]
              rw [hhandle, ← handleProgram_alone, alone_bind]
              generalize (handleProgram platform location arg clientIp request freshResponse).alone s =
                result
              obtain ⟨s', f | ⟨r, b⟩⟩ := result <;> rfl

theorem replyProgram_alone (requestData : Buffer) (dataLen : Int) :
    outcome ((replyProgram platform addrmap clientIp requestData dataLen).alone s) =
      getReply { sharedServer platform addrmap with clientIp := clientIp } s requestData dataLen := by
  unfold replyProgram getReply generateResponse sharedServer
  dsimp only
  cases parseRequest platform.beast requestData dataLen with
  | error f => rfl
  | ok parsed =>
      dsimp only
      rw [← respondProgram_alone, alone_bind]
      generalize (respondProgram platform addrmap clientIp parsed).alone s = result
      obtain ⟨s', f | response⟩ := result <;> rfl

/-- **The server, access by access.** -/
def serverSplit (platform : Platform) (addrmap : AddrMap) : Split (sharedServer platform addrmap) where
  program := replyProgram platform addrmap
  alone_eq _ requestData dataLen s := replyProgram_alone s requestData dataLen

end Alone

/-! ## 4. What every access keeps to -/

/-- What a request may remove that comes to the handler of an entry. -/
def RemovesAt (arg : ConfigArg) (clientIp : Str) (request : Request) (cwd p : Path) : Prop :=
  match handlerTypeOf arg.handlerType with
  | .crud => Crud.Concurrent.Removes ⟨arg.location, arg.root⟩ request cwd p
  | .textGen => TextGen.Concurrent.Removes ⟨arg.location, arg.root⟩ clientIp request cwd p
  | _ => False

/-- **What a read may remove**: it is a request, and the router brings it to an entry. -/
def Removes (platform : Platform) (addrmap : AddrMap) (clientIp : Str) (bytes : Read) (cwd p : Path) :
    Prop :=
  ∃ request location arg,
    parseRequest platform.beast (Buffer.zero.fill bytes) bytes.bytes.length = .ok (some request) ∧
    searchAddrBinding (routesOf platform addrmap) (request.target ++ ['/']) = some location ∧
    addrmap[location]? = some arg ∧ RemovesAt arg clientIp request cwd p

/-- **At every location** keys stay, and directories, but those that are `gone`, and the known keys
    keep their directories. -/
structure Evolves (gone : Path → Path → Prop) (addrmap : AddrMap) (s s' : ServerState) : Prop where
  grows : GrowsBut gone s.files s'.files
  crud : ∀ (location : Str) (arg : ConfigArg), addrmap[location]? = some arg →
    Crud.Concurrent.Evolves gone ⟨arg.location, arg.root⟩ (s.crud location) (s'.crud location)

/-- At every location the known keys whose paths are spared have their directories. -/
def AllHousedBut (gone : Path → Path → Prop) (addrmap : AddrMap) (s : ServerState) : Prop :=
  ∀ (location : Str) (arg : ConfigArg), addrmap[location]? = some arg →
    Crud.Concurrent.HousedBut gone ⟨arg.location, arg.root⟩ (s.crud location)

/-- A POST or PUT that the router brings to a CRUD location, and the entity it is for. -/
structure Creates (platform : Platform) (addrmap : AddrMap) (request : Request) (location : Str)
    (arg : ConfigArg) (entity : Str) : Prop where
  routed : searchAddrBinding (routesOf platform addrmap) (request.target ++ ['/']) = some location
  entry : addrmap[location]? = some arg
  crud : handlerTypeOf arg.handlerType = .crud
  named : Crud.Concurrent.entityNamed ⟨arg.location, arg.root⟩ request = some entity

/-- **What a text that is sent tells**: it is a response, and if that acknowledges a POST or PUT, the
    entity is known. -/
def Tells (platform : Platform) (addrmap : AddrMap) (bytes : Read) (text : Str) (s : ServerState) :
    Prop :=
  ∃ response, text = platform.beast.write response ∧
    ∀ request location arg entity, parseRequest platform.beast (Buffer.zero.fill bytes)
        bytes.bytes.length = .ok (some request) →
      Creates platform addrmap request location arg entity → Acknowledged response →
        Crud.Concurrent.Known entity (s.crud location)

section Rules

variable {gone : Path → Path → Prop} {platform : Platform} {addrmap : AddrMap}
  {location clientIp : Str} {arg : ConfigArg} {request : Request} {response : Response}
  {s : ServerState}

/-- The tree grows, and the maps are as they were. -/
theorem Evolves.of_files {s' : ServerState} (hg : GrowsBut gone s.files s'.files)
    (hmap : s'.fileToId = s.fileToId) : Evolves gone addrmap s s' where
  grows := hg
  crud l a _ := by
    have hcrud : s'.crud l = { s.crud l with files := s'.files } := by
      unfold ServerState.crud
      rw [hmap]
    rw [hcrud]
    exact .of_files hg

/-- A step at one location is a step: of the others only the tree changes. -/
theorem Evolves.of_crud (harg : addrmap[location]? = some arg) {crud : Crud.CrudState}
    (h : Crud.Concurrent.Evolves gone ⟨arg.location, arg.root⟩ (s.crud location) crud) :
    Evolves gone addrmap s ((crudView location).put crud s) where
  grows := h.grows
  crud l a ha := by
    by_cases hl : location = l
    · subst hl
      obtain rfl : arg = a := Option.some.inj (harg.symm.trans ha)
      rw [show ServerState.crud _ location = crud from (crudView location).get_put crud s]
      exact h
    · have hcrud : ((crudView location).put crud s).crud l = { s.crud l with files := crud.files } := by
        unfold ServerState.crud crudView
        dsimp only
        rw [getElem?_assign_of_ne _ _ hl]
      rw [hcrud]
      exact .of_files h.grows

theorem stable_allHoused : Stable (Evolves gone addrmap) (AllHousedBut gone addrmap) :=
  fun _ _ hs hE l a ha => (hE.crud l a ha).housed (hs l a ha)

theorem stable_tells {bytes : Read} {text : Str} :
    Stable (Evolves gone addrmap) (Tells platform addrmap bytes text) := by
  rintro s s' ⟨response, htext, htold⟩ hE
  refine ⟨response, htext, fun request location arg entity hparse hcreates hack => ?_⟩
  exact (hE.crud location arg hcreates.entry).keys entity
    (htold request location arg entity hparse hcreates hack)

/-- Accesses to the tree, on top of what is known. -/
theorem tree_meets {α : Type} {p : Accesses α} (h : p.Keeps (GrowsBut gone)) :
    (p.focus treeView).Meets (Evolves gone addrmap) (fun _ => AllHousedBut gone addrmap)
      (AllHousedBut gone addrmap) :=
  (keeps_focus (fun _ _ hg => Evolves.of_files hg rfl) h).meets stable_allHoused

theorem static_keeps {handler : RequestHandler} {E : FileTree → FileTree → Prop} (hrefl : ∀ t, E t t) :
    (staticProgram handler request response).Keeps E := by
  unfold staticProgram
  cases Static.pathOf handler request.target with
  | none => exact keeps_pure _
  | some path =>
      refine keeps_bind (readFromFile_keeps hrefl) fun content => ?_
      split <;> exact keeps_pure _

/-- What is known when the handler of an entry has answered. -/
def HandlePost (location : Str) (arg : ConfigArg) (request : Request) (answer : RequestResult)
    (s : ServerState) : Prop :=
  handlerTypeOf arg.handlerType = .crud → ∀ entity,
    Crud.Concurrent.entityNamed ⟨arg.location, arg.root⟩ request = some entity →
      Crud.Concurrent.Told entity answer (s.crud location)

/-- **The handler of an entry** keeps to it. -/
theorem handleProgram_meets (harg : addrmap[location]? = some arg)
    (hgone : ∀ cwd p, RemovesAt arg clientIp request cwd p → gone cwd p) :
    (handleProgram platform location arg clientIp request response).Meets (Evolves gone addrmap)
      (HandlePost location arg request) (AllHousedBut gone addrmap) := by
  have hother : handlerTypeOf arg.handlerType ≠ .crud → ∀ {p : ServerAccesses RequestResult},
      p.Meets (Evolves gone addrmap) (fun _ => AllHousedBut gone addrmap) (AllHousedBut gone addrmap) →
        p.Meets (Evolves gone addrmap) (HandlePost location arg request) (AllHousedBut gone addrmap) :=
    fun hne _ h => h.weaken (fun _ hs => hs) fun _ _ _ hcrud => absurd hcrud hne
  have hanswer : ∀ answer : RequestResult, (pure answer : ServerAccesses RequestResult).Meets
      (Evolves gone addrmap) (fun _ => AllHousedBut gone addrmap) (AllHousedBut gone addrmap) :=
    fun _ => meets_pure fun _ hs => hs
  unfold handleProgram
  dsimp only
  unfold RemovesAt at hgone
  cases htype : handlerTypeOf arg.handlerType with
  | static => exact hother (by simp [htype]) (tree_meets (static_keeps GrowsBut.refl))
  | echo => exact hother (by simp [htype]) (hanswer _)
  | crud =>
      -- what the location's own program meets, seen from the server
      have hfocus : ((Crud.Concurrent.handleRequest ⟨arg.location, arg.root⟩ platform.disk request
          response).focus (crudView location)).Meets (Evolves gone addrmap)
          (fun answer s => ∀ entity, Crud.Concurrent.entityNamed ⟨arg.location, arg.root⟩ request =
            some entity → Crud.Concurrent.Told entity answer ((crudView location).get s))
          (fun s => Crud.Concurrent.HousedBut gone ⟨arg.location, arg.root⟩ ((crudView location).get s)) :=
        meets_focus (fun _ _ hE => Evolves.of_crud harg hE)
          (fun s s' (hE : Evolves gone addrmap s s') => hE.crud location arg harg)
          (Crud.Concurrent.handleRequest_meets request response (by simpa only [htype] using hgone))
      refine meets_bind (Q := fun _ => AllHousedBut gone addrmap) (meets_atomically
        (fun _ => stable_allHoused) fun s hs => ?_) fun _ => hfocus.weaken (fun s hs => hs location arg harg)
          fun _ _ htold _ => htold
      have hE : Evolves gone addrmap s ((crudView location).put (s.crud location) s) :=
        .of_crud harg (.refl _)
      exact ⟨hE, stable_allHoused _ _ hs hE⟩
  | block =>
      refine hother (by simp [htype]) (meets_bind (Q := fun _ => AllHousedBut gone addrmap)
        (meets_atomically (fun _ => stable_allHoused) fun s hs => ?_) fun _ => hanswer _)
      exact ⟨.of_files (GrowsBut.refl _) rfl, hs⟩
  | health => exact hother (by simp [htype]) (hanswer _)
  | textGen =>
      refine hother (by simp [htype])
        (meets_bind (tree_meets (makeRoot_keeps (allows_growsBut _))) fun made => ?_)
      split
      · exact hanswer _
      · refine meets_bind (Q := fun _ => AllHousedBut gone addrmap) (meets_atomically
          (fun _ => stable_allHoused) fun s hs => ?_) fun apiReply =>
            tree_meets (TextGen.Concurrent.handleRequest_growsBut (by simpa only [htype] using hgone))
        exact ⟨.of_files (GrowsBut.refl _) rfl, hs⟩
  | notFound => exact hother (by simp [htype]) (hanswer _)

/-- The entity of a request that is answered with success is known. -/
def RespondPost (platform : Platform) (addrmap : AddrMap) (parsed : Option Request)
    (result : Except Fault Response) (s : ServerState) : Prop :=
  ∀ response, result = .ok response → ∀ request location arg entity, parsed = some request →
    Creates platform addrmap request location arg entity → Acknowledged response →
      Crud.Concurrent.Known entity (s.crud location)

theorem respondProgram_meets (parsed : Option Request)
    (hgone : ∀ request location arg, parsed = some request →
      searchAddrBinding (routesOf platform addrmap) (request.target ++ ['/']) = some location →
        addrmap[location]? = some arg →
          ∀ cwd p, RemovesAt arg clientIp request cwd p → gone cwd p) :
    (respondProgram platform addrmap clientIp parsed).Meets (Evolves gone addrmap)
      (RespondPost platform addrmap parsed) (AllHousedBut gone addrmap) := by
  unfold respondProgram
  cases parsed with
  | none => exact meets_pure fun s _ response _ request location arg entity h => by cases h
  | some request =>
      dsimp only
      cases hfound : searchAddrBinding (routesOf platform addrmap) (request.target ++ ['/']) with
      | none =>
          refine meets_pure fun s _ response _ request' location arg entity h hcreates => ?_
          cases h
          rw [hcreates.routed] at hfound
          cases hfound
      | some location =>
          dsimp only
          cases harg : addrmap[location]? with
          | none => exact meets_pure fun s _ response h => by cases h
          | some arg =>
              refine meets_bind (handleProgram_meets harg (hgone request location arg rfl hfound harg))
                fun answer => ?_
              split
              · exact meets_pure fun s _ response h => by cases h
              · rename_i answer response b
                refine meets_pure fun s hs response' h request' location' arg' entity hreq hcreates
                  hack => ?_
                cases h
                cases hreq
                obtain rfl : location = location' := Option.some.inj (hfound.symm.trans hcreates.routed)
                obtain rfl : arg = arg' := Option.some.inj (harg.symm.trans hcreates.entry)
                exact hs hcreates.crud entity hcreates.named response b rfl hack

/-- **`get_reply`** comes to a text that tells the truth. -/
theorem replyProgram_meets (session : Nat) (bytes : Read)
    (hgone : ∀ cwd p, Removes platform addrmap clientIp bytes cwd p → gone cwd p) :
    (replyProgram platform addrmap clientIp (Buffer.zero.fill bytes) bytes.bytes.length).Meets
      (Evolves gone addrmap) (Post (fun _ => Tells platform addrmap) session bytes)
      (AllHousedBut gone addrmap) := by
  unfold replyProgram
  cases hparse : parseRequest platform.beast (Buffer.zero.fill bytes) bytes.bytes.length with
  | error f => exact meets_pure fun s _ reply h => by cases h
  | ok parsed =>
      have hparsed : ∀ request location arg, parsed = some request →
          searchAddrBinding (routesOf platform addrmap) (request.target ++ ['/']) = some location →
            addrmap[location]? = some arg →
              ∀ cwd p, RemovesAt arg clientIp request cwd p → gone cwd p := by
        rintro request location arg rfl hfound harg cwd p hremoves
        exact hgone cwd p ⟨request, location, arg, hparse, hfound, harg, hremoves⟩
      refine meets_bind (respondProgram_meets parsed hparsed) fun result => ?_
      split
      · exact meets_pure fun s _ reply h => by cases h
      · rename_i response
        refine meets_pure fun s hs reply h => ?_
        cases h
        refine ⟨response, rfl, fun request location arg entity hreq hcreates hack => ?_⟩
        rw [hparse] at hreq
        cases hreq
        exact hs response rfl request location arg entity rfl hcreates hack

/-- **The whole server** keeps to it, while it handles reads that remove no more than is `gone`. -/
theorem server_bound (gone : Path → Path → Prop) (platform : Platform) (addrmap : AddrMap)
    (peer : Nat → Str) (cwd : Path) :
    Bound (serverSplit platform addrmap) peer
      (fun session bytes => ∀ cwd p, Removes platform addrmap (peer session) bytes cwd p → gone cwd p)
      (Evolves gone addrmap) (fun s => AllHousedBut gone addrmap s ∧ s.files.cwd = cwd)
      fun _ => Tells platform addrmap where
  stable := stable_allHoused.and fun _ _ h hE => hE.grows.inCwd.trans h
  stable_tells _ _ _ := stable_tells
  meets session bytes hgone :=
    (replyProgram_meets session bytes hgone).weaken (fun _ hs => hs.1) fun _ _ h => h

end Rules

/-! ## 5. Every schedule -/

/-- What one of the reads may remove. -/
def RemovesAny (platform : Platform) (addrmap : AddrMap) (peer : Nat → Str)
    (reads : List (Nat × Read)) (cwd p : Path) : Prop :=
  ∃ e ∈ reads, Removes platform addrmap (peer e.1) e.2 cwd p

/-- **The server on several threads**, from empty maps: in every state of every schedule a known
    entity of any location has its directory, unless its path leads past what a DELETE among the
    reads so far may have removed, or to it; and the texts sent on a connection answer its reads one
    by one, and tell the truth: the entity of a POST or PUT that was acknowledged is known, and
    stays known. -/
theorem server_on_threads {T : Type} [DecidableEq T] [Fintype T] {crew : Crew ServerState T}
    (platform : Platform) (addrmap : AddrMap) (peer : Nat → Str) (s : ServerState)
    (hmaps : s.fileToId = ∅) {turns : List (Turn T)} {record : List (Option Event)}
    (h : run (Crew.turn (serverSplit platform addrmap) peer) (Crew.initial s) turns =
      .ok (crew, record)) :
    (∀ (location : Str) (arg : ConfigArg), addrmap[location]? = some arg → ∀ entity,
        Crud.Concurrent.Known entity (crew.system.world.crud location) →
          Spared (RemovesAny platform addrmap peer (begunOf record.reduceOption)) s.files.cwd
            (Crud.pathOf ⟨arg.location, arg.root⟩ entity) →
          Crud.Concurrent.Room ⟨arg.location, arg.root⟩ entity (crew.system.world.crud location)) ∧
      ∀ session, ∃ answered waiting, readsOf session record.reduceOption = answered ++ waiting ∧
        waiting.length ≤ 1 ∧
        List.Forall₂ (fun bytes text => Tells platform addrmap bytes text crew.system.world) answered
          (sentOf session record.reduceOption) := by
  let gone := RemovesAny platform addrmap peer (begunOf record.reduceOption)
  have hstart : AllHousedBut gone addrmap s := by
    intro location arg _
    have hempty : s.crud location = ⟨∅, s.files⟩ := by
      unfold ServerState.crud
      rw [hmaps, Std.ExtTreeMap.getElem?_empty]
      rfl
    rw [hempty]
    exact .empty gone _ _
  have hshared := shared_reached (server_bound gone platform addrmap peer s.files.cwd) ⟨hstart, rfl⟩ h
    fun e he cwd p hremoves => ⟨e, he, hremoves⟩
  obtain ⟨hhoused, hcwd⟩ := hshared.world
  obtain ⟨hinv, hall⟩ := at_reached h
  refine ⟨fun location arg harg entity hknown hspared => ?_, fun session => ?_⟩
  · refine hhoused location arg harg entity hknown ?_
    show Spared gone crew.system.world.files.cwd _
    rw [hcwd]
    exact hspared
  · obtain ⟨answered, waiting, hreads, htold⟩ := hshared.told session
    exact ((hall session).closed_up hinv).sent hreads htold

/-- A POST to the CRUD location, in one read. -/
def postShoes : Read :=
  ⟨"POST /api/shoes HTTP/1.1\r\nContent-Length: 3\r\n\r\nred".toList, by decide, by decide⟩

/-- It is accepted by one thread and handled by the other; a thread that is idle does not go on. -/
def storeVisit : List (Turn Bool) :=
  [.take false (.accept 0 false), .go false, .go false, .take true (.read 0 (some postShoes))] ++
    List.replicate 20 (.go true) ++ [.go false, .go false, .take false (.write 0 false)]

theorem read_ext {r r' : Read} (h : r.bytes = r'.bytes) : r = r' := by
  cases r
  cases r'
  cases h
  rfl

/-- A read that is no DELETE removes nothing. -/
theorem not_removes_of_method {platform : Platform} {addrmap : AddrMap} {clientIp : Str}
    {bytes : Read} {cwd p : Path} (h : ∀ request, parseRequest platform.beast
      (Buffer.zero.fill bytes) bytes.bytes.length = .ok (some request) → request.method ≠ .delete) :
    ¬ Removes platform addrmap clientIp bytes cwd p := by
  rintro ⟨request, location, arg, hparse, _, _, hremoves⟩
  refine h request hparse ?_
  unfold RemovesAt at hremoves
  split at hremoves
  · exact hremoves.1
  · exact hremoves.1
  · exact hremoves.elim

/-- The client is told of an entity; it is known, and has its directory. -/
theorem server_on_threads_post : ∃ (crew : Crew ServerState Bool) (record : List (Option Event)),
    run (Crew.turn (serverSplit demoPlatform demoMap) fun _ => localhost.text) (Crew.initial demoStart)
      storeVisit = .ok (crew, record) ∧
    sentOf 0 record.reduceOption = ["201 Created entry at \x7b\"id\":1\x7d\n".toList] ∧
    Crud.Concurrent.Room ⟨"/api".toList, "/data".toList⟩ "shoes".toList
      (crew.system.world.crud "/api".toList) ∧
    ∃ answered waiting, readsOf 0 record.reduceOption = answered ++ waiting ∧ waiting.length ≤ 1 ∧
      List.Forall₂ (fun bytes text => Tells demoPlatform demoMap bytes text crew.system.world) answered
        (sentOf 0 record.reduceOption) := by
  have hrun : (run (Crew.turn (serverSplit demoPlatform demoMap) fun _ => localhost.text)
      (Crew.initial demoStart) storeVisit).map (fun v => (sentOf 0 v.2.reduceOption,
        (begunOf v.2.reduceOption).map fun e => e.2.bytes,
        decide ((v.1.system.world.crud "/api".toList).fileToId["shoes".toList]? ≠ none))) =
        .ok (["201 Created entry at \x7b\"id\":1\x7d\n".toList], [postShoes.bytes], true) := by
    decide +kernel
  cases h : run (Crew.turn (serverSplit demoPlatform demoMap) fun _ => localhost.text)
      (Crew.initial demoStart) storeVisit with
  | error e =>
      rw [h] at hrun
      cases hrun
  | ok v =>
      rw [h] at hrun
      simp only [Except.map, Except.ok.injEq, Prod.mk.injEq, decide_eq_true_eq] at hrun
      obtain ⟨hsent, hbegun, hknown⟩ := hrun
      obtain ⟨hhoused, htold⟩ := server_on_threads _ _ _ _ rfl h
      refine ⟨v.1, v.2, rfl, hsent, ?_, htold 0⟩
      refine hhoused "/api".toList _ demoMap_api "shoes".toList hknown ?_
      rintro p _ ⟨e, he, hremoves⟩
      have hbytes : e.2.bytes = postShoes.bytes :=
        List.mem_singleton.mp (hbegun ▸ List.mem_map_of_mem he)
      have hread : e.2 = postShoes := read_ext hbytes
      rw [hread] at hremoves
      have hpost : (parseRequest demoPlatform.beast (Buffer.zero.fill postShoes)
          postShoes.bytes.length).map (Option.map Request.method) = .ok (some .post) := by
        decide +kernel
      refine not_removes_of_method (fun request hparse => ?_) hremoves
      rw [hparse] at hpost
      rw [Option.some.inj (Except.ok.inj hpost)]
      decide

end Googolplex.Concurrent
