/-
  File:      Googolplex/Dispatcher.lean
  Subject:   The handlers behind the routes: `server::create_dispatcher` and the
             factories (server.cc, request_handler_factory.cc).

  * `ServerState`: what the handlers of one server share and change.
  * `factory`: `create`, `set_client_ip` and `handle_request` of the handler type an
    entry of the address map names; a type that is not known is `NotFoundHandler`.
  * `answerClient`: one request of a client, through the router.
-/
import Googolplex.Config.Parser
import Googolplex.Crud.Handler
import Googolplex.Session.Routing
import Googolplex.TextGen.Clients

namespace Googolplex

open Cxx Posix
open Config (ConfigArg AddrMap)
open TextGen (Ipv4)

/-- The files, the map of each CRUD factory by its location, the calls of `sleep` so far, and what
    the API answers in the text_gen requests to come. -/
structure ServerState where
  files : FileTree
  fileToId : OrdMap Str Crud.FileToId
  sleeps : List Int
  api : Nat → Option Str

/-- What the handlers stand on. -/
structure Platform extends TextGen.Host where
  beast : Beast
  writeRequest : Request → Str

/-- The handlers there are. -/
inductive HandlerType where
  | static | echo | crud | block | health | textGen | notFound
  deriving DecidableEq, Repr

/-- The handler type `create_dispatcher` takes a name for. -/
def handlerTypeOf (name : Str) : HandlerType :=
  if name = "StaticHandler".toList then .static
  else if name = "EchoHandler".toList then .echo
  else if name = "CrudHandler".toList then .crud
  else if name = "BlockHandler".toList then .block
  else if name = "HealthHandler".toList then .health
  else if name = "TextGenHandler".toList then .textGen
  else .notFound

section

variable (platform : Platform)

/-- The map of the CRUD factory at a location. -/
def ServerState.crud (s : ServerState) (location : Str) : Crud.CrudState :=
  ⟨s.fileToId[location]?.getD ∅, s.files⟩

/-- One request to the handler of an entry. -/
def handle (location : Str) (arg : ConfigArg) (clientIp : Str) (s : ServerState) (request : Request)
    (response : Response) : Except Fault (ServerState × Response × Bool) :=
  let handler : RequestHandler := ⟨arg.location, arg.root⟩
  match handlerTypeOf arg.handlerType with
  | .static =>
    match Static.handleRequest handler s.files request response with
    | .error f => .error f
    | .ok (response, status) => .ok (s, response, status)
  | .echo => .ok (s, Echo.handleRequest platform.writeRequest request response)
  | .crud =>
    match Crud.handleRequest handler platform.disk (s.crud location) request response with
    | .error f => .error f
    | .ok (crud, response, status) =>
      .ok ({ s with files := crud.files, fileToId := s.fileToId.insert location crud.fileToId },
        response, status)
  | .block =>
    let (blockTime, response, status) := Block.handleRequest request response
    .ok ({ s with sleeps := s.sleeps ++ [blockTime] }, response, status)
  | .health => .ok (s, Health.handleRequest response)
  | .textGen =>
    match makeRoot s.files arg.root with
    | .error f => .error f
    | .ok files =>
      match TextGen.handleRequest platform.toHost handler clientIp (s.api 0) files request response with
      | .error f => .error f
      | .ok (files, response, status) =>
        .ok ({ s with files := files, api := fun n => s.api (n + 1) }, response, status)
  | .notFound => .ok (s, NotFound.handleRequest response)

/-- The factory `create_dispatcher` makes of an entry. -/
def factory (location : Str) (arg : ConfigArg) : RequestHandlerFactory ServerState where
  handleRequest := handle platform location arg

/-- The routes `create_dispatcher` fills. -/
def routesOf (addrmap : AddrMap) : Routes ServerState := addrmap.map (factory platform)

/-- The roots the constructors of the CRUD factories make, in the order of the map. -/
def makeRoots (files : FileTree) (addrmap : AddrMap) : Except Fault FileTree :=
  addrmap.toList.foldlM (fun files entry =>
    if handlerTypeOf entry.2.handlerType = .crud then makeRoot files entry.2.root else .ok files) files

/-- `create_dispatcher`. -/
def createDispatcher (files : FileTree) (addrmap : AddrMap) :
    Except Fault (FileTree × Routes ServerState) :=
  match makeRoots files addrmap with
  | .error f => .error f
  | .ok files => .ok (files, routesOf platform addrmap)

/-- What a session of a client has of the server. -/
def serverOf (addrmap : AddrMap) (client : Ipv4) : Server ServerState :=
  ⟨platform.beast, routesOf platform addrmap, client.text⟩

/-- One request of a client. -/
def answerClient (addrmap : AddrMap) (s : ServerState) (input : Ipv4 × Request) :
    Except Fault (ServerState × Response) :=
  respond (serverOf platform addrmap input.1) s (some input.2)

end

/-- An address map as `Parse` leaves it: each entry names the location it is stored under. -/
def Located (addrmap : AddrMap) : Prop :=
  ∀ (location : Str) (arg : ConfigArg), addrmap[location]? = some arg → arg.location = location

section

variable {platform : Platform} {addrmap : AddrMap} {location : Str} {arg : ConfigArg}
  {s : ServerState} {client : Ipv4} {request : Request}

theorem routesOf_get (platform : Platform) (addrmap : AddrMap) (location : Str) :
    (routesOf platform addrmap)[location]? = addrmap[location]?.map (factory platform location) :=
  Std.ExtTreeMap.getElem?_map

/-- What the router finds has an entry. -/
theorem exists_entry {url : Str}
    (hfound : searchAddrBinding (routesOf platform addrmap) url = some location) :
    ∃ arg, addrmap[location]? = some arg := by
  have hmem := (search_some _ rfl hfound).1
  cases harg : addrmap[location]? with
  | some arg => exact ⟨arg, rfl⟩
  | none =>
      have hget := routesOf_get platform addrmap location
      rw [harg] at hget
      rw [Std.ExtTreeMap.contains_eq_isSome_getElem?, hget] at hmem
      cases hmem

/-- A request that is routed is answered by the handler of the entry. -/
theorem answerClient_routed (hfound : searchAddrBinding (routesOf platform addrmap)
      (request.target ++ ['/']) = some location) (harg : addrmap[location]? = some arg) :
    answerClient platform addrmap s (client, request) =
      (handle platform location arg client.text s request freshResponse).map
        fun r => (r.1, r.2.1) := by
  unfold answerClient respond serverOf
  simp only [hfound, routesOf_get, harg, Option.map_some]
  have hhandle : (factory platform location arg).handleRequest client.text s request freshResponse =
      handle platform location arg client.text s request freshResponse := rfl
  rw [hhandle]
  cases handle platform location arg client.text s request freshResponse <;> rfl

/-- A request that is not routed is answered with an error. -/
theorem answerClient_unrouted (hfound : searchAddrBinding (routesOf platform addrmap)
      (request.target ++ ['/']) = none) :
    answerClient platform addrmap s (client, request) =
      .ok (s, { freshResponse with result := .badRequest }) := by
  unfold answerClient respond serverOf
  simp only [hfound]

end

end Googolplex
