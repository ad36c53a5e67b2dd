/-
  File:      Googolplex/Session.lean
  Subject:   `class session`: what a connection does with the bytes of one read
             (session.cc).

  The library under it is a parameter, `Beast`: what `put` makes of a text, and
  how a response is written. A factory makes a handler for one request; what its
  handlers share and change is the `world`.

  * `handleRead`: one read, from the buffer to the reply.
  * `searchAddrBinding`: the location of a url, longest prefix first.
-/
import Googolplex.RequestHandler

namespace Googolplex

open Cxx

/-! ## 1. What the session stands on -/

/-- The error codes of `http`, as far as they are told apart. -/
inductive HttpError where
  | needMore
  | other (name : Str)
  deriving DecidableEq, Repr

/-- What `put` of a fresh eager `request_parser<string_body>` leaves: how many octets it took, its
    error code, and the message `release` gives then. -/
structure Parsed where
  taken : Nat
  ec : Option HttpError
  message : Request
  deriving DecidableEq, Repr

/-- The library. -/
structure Beast where
  put : Str → Parsed
  write : Response → Str

/-- `RequestHandlerFactory`: `create`, `set_client_ip` and `handle_request` in one go. -/
structure RequestHandlerFactory (World : Type) where
  handleRequest : Str → World → Request → Response → Except Fault (World × Response × Bool)

/-- `routes`. -/
abbrev Routes (World : Type) := OrdMap Str (RequestHandlerFactory World)

/-- The members of a `session` that do not change. -/
structure Server (World : Type) where
  beast : Beast
  routes : Routes World
  clientIp : Str

/-! ## 2. The buffer -/

/-- `max_length`. -/
def maxLength : Nat := 1024

/-- `in_data_`. -/
structure Buffer where
  chars : Str
  size : chars.length = maxLength

/-- The bytes of one read: `async_read_some` is given room for `max_length` of them. -/
structure Read where
  bytes : Str
  nonempty : bytes ≠ []
  fits : bytes.length ≤ maxLength

/-- `memset(in_data_, 0, max_length)`. -/
def Buffer.zero : Buffer := ⟨List.replicate maxLength '\x00', List.length_replicate⟩

/-- The bytes of a read go to the front. -/
def Buffer.fill (buffer : Buffer) (read : Read) : Buffer where
  chars := read.bytes ++ buffer.chars.drop read.bytes.length
  size := by
    have hfits := read.fits
    rw [List.length_append, List.length_drop, buffer.size]
    omega

/-- `std::string(request_data)`: up to the first zero; there must be one. -/
def Buffer.string (buffer : Buffer) : Except Fault Str :=
  if '\x00' ∈ buffer.chars then .ok (buffer.chars.takeWhile (· ≠ '\x00')) else .error .overread

/-! ## 3. One read -/

section

variable {World : Type}

/-- `parse_request`: the number of octets `put` took is not looked at, nor whether the message is
    complete. -/
def parseRequest (beast : Beast) (requestData : Buffer) (dataLen : Int) :
    Except Fault (Option Request) :=
  if dataLen < 0 ∨ dataLen > maxLength then .ok none
  else
    match requestData.string with
    | .error f => .error f
    | .ok text =>
      let parsed := beast.put text
      if parsed.ec ≠ none then .ok none else .ok (some parsed.message)

/-- `search_addr_binding`: the part of the url before its last slash, if it is a location, else the
    search goes on in it. -/
def searchAddrBinding (routes : Routes World) (url : Str) : Option Str :=
  match hpos : findLastOf '/' url with
  | some 0 => if routes.contains ['/'] then some ['/'] else none
  | some (pos + 1) =>
    let subUrl := url.take (pos + 1)
    if routes.contains subUrl then some subUrl else searchAddrBinding routes subUrl
  | none => none
termination_by url.length
decreasing_by
  obtain ⟨a, b, rfl, _, hlen⟩ := findLastOf_some hpos
  simp only [List.length_take, List.length_append, List.length_cons]
  omega

/-- The response every request starts from. -/
def freshResponse : Response := ({ } : Response).set .accessControlAllowOrigin ['*']

/-- The part of `generate_response` after the parse. -/
def respond (server : Server World) (world : World) : Option Request → Except Fault (World × Response)
  | none => .ok (world, { freshResponse with result := .badRequest })
  | some request =>
    match searchAddrBinding server.routes (request.target ++ ['/']) with
    | none => .ok (world, { freshResponse with result := .badRequest })
    | some location =>
      match server.routes[location]? with
      | none => .error .nullPointer
      | some factory =>
        match factory.handleRequest server.clientIp world request freshResponse with
        | .error f => .error f
        | .ok (world, response, _) => .ok (world, response)

/-- `generate_response`. -/
def generateResponse (server : Server World) (world : World) (requestData : Buffer) (dataLen : Int) :
    Except Fault (World × Response) :=
  match parseRequest server.beast requestData dataLen with
  | .error f => .error f
  | .ok parsed => respond server world parsed

/-- `get_reply`. -/
def getReply (server : Server World) (world : World) (requestData : Buffer) (dataLen : Int) :
    Except Fault (World × Str) :=
  match generateResponse server world requestData dataLen with
  | .error f => .error f
  | .ok (world, response) => .ok (world, server.beast.write response)

/-- What a connection keeps from one read to the next. -/
structure Session (World : Type) where
  world : World
  inData : Buffer

/-- A read completes, and `handle_read` without an error: the reply, and the buffer cleared. The
    next read begins when the reply is written. -/
def handleRead (server : Server World) (session : Session World) (read : Read) :
    Except Fault (Session World × Str) :=
  let inData := session.inData.fill read
  match getReply server session.world inData read.bytes.length with
  | .error f => .error f
  | .ok (world, reply) => .ok (⟨world, Buffer.zero⟩, reply)

end

end Googolplex
