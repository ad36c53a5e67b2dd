/-
  File:      Googolplex/Handlers.lean
  Subject:   The handlers that keep no state: static files, echo, block, health and
             not-found (request_handler_static.cc and its neighbours).

  * `Static.handleRequest`: a file below the root, or the 404 page.
  * `Block.handleRequest`: besides the response the seconds `sleep` is called with.
-/
import Googolplex.RequestHandler

namespace Googolplex

open Cxx Posix RequestHandler

/-! ## 1. Pages -/

/-- `bad_request_msg`. -/
def badRequestMsg : Str :=
  "<html><head><title>Bad Request</title></head><body><h1>400 Bad Request</h1></body></html>".toList

/-- `not_found_msg`. -/
def notFoundMsg : Str :=
  "<html><head><title>Not Found</title></head><body><h1>404 Not Found</h1></body></html>".toList

/-- `internal_server_error_msg`. -/
def internalServerErrorMsg : Str :=
  ("<html><head><title>Internal Server Error</title></head>" ++
    "<body><h1>500 Internal Server Error</h1></body></html>").toList

/-! ## 2. Content types -/

/-- `content_type_map`. -/
def contentTypeMap : List (Str × Str) :=
  [(".html".toList, "text/html".toList),
   (".htm".toList, "text/html".toList),
   (".txt".toList, "text/plain".toList),
   (".jpg".toList, "image/jpeg".toList),
   (".jpeg".toList, "image/jpeg".toList),
   (".png".toList, "image/png".toList),
   (".gif".toList, "image/gif".toList),
   (".zip".toList, "application/zip".toList),
   (".css".toList, "text/css".toList),
   (".js".toList, "text/javascript".toList)]

/-- `get_content_type`. -/
def getContentType (extension : Str) : Str :=
  (contentTypeMap.lookup extension).getD "text/plain".toList

/-- The text after the last `c`, the whole text if there is none. -/
def afterLast (c : Char) (s : Str) : Str :=
  match findLastOf c s with
  | some found => s.drop (found + 1)
  | none => s

/-- `path::extension()` of a path that does not end in a slash. -/
def extensionOf (path : Str) : Str :=
  let filename := afterLast '/' path
  if filename = ['.'] ∨ filename = ['.', '.'] then []
  else
    match findLastOf '.' filename with
    | some found => filename.drop found
    | none => []

/-! ## 3. `request_handler_static` -/

namespace Static

/-- `set_content_type`. -/
def setContentType (filePath : Str) (response : Response) : Response :=
  response.set .contentType (getContentType (extensionOf filePath))

/-- The path that is opened for a target, if it is below the location: the rest of the target
    behind the root, without the slashes at the end. -/
def pathOf (handler : RequestHandler) (target : Str) : Option Str :=
  let pre := handler.prefix_ ++ ['/']
  if pre <+: target ∧ pre.length < target.length then
    some ((handler.dir_ ++ '/' :: target.drop pre.length).rdropWhile (· == '/'))
  else none

/-- The answer when there is no file. -/
def notFound (response : Response) : Response :=
  response.answer .notFound "text/html".toList notFoundMsg

/-- `request_handler_static::handle_request`. -/
def handleRequest (handler : RequestHandler) (files : FileTree) (request : Request)
    (response : Response) : Except Fault (Response × Bool) :=
  match pathOf handler request.target with
  | none => .ok (notFound response, false)
  | some path =>
    match readFromFile files path with
    | .error f => .error f
    | .ok (some content) =>
      let response := setContentType path { response with result := .ok }
      .ok (({ response with body := content } : Response).preparePayload, true)
    | .ok none => .ok (notFound response, false)

end Static

/-! ## 4. The others -/

/-- `request_handler_echo::handle_request`; `write` is how a request is written. -/
def Echo.handleRequest (write : Request → Str) (request : Request) (response : Response) :
    Response × Bool :=
  (response.answer .ok "text/plain".toList (write request), true)

/-- `block_time`: what `stoi` reads after the last slash, one second otherwise. -/
def Block.blockTime (target : Str) : Int :=
  match stoi (afterLast '/' target) with
  | .ok time => time
  | .error _ => 1

/-- `request_handler_block::handle_request`. -/
def Block.handleRequest (request : Request) (response : Response) : Int × Response × Bool :=
  let blockTime := Block.blockTime request.target
  (blockTime, response.answer .ok "text/plain".toList
    ("Sleep ".toList ++ toStr blockTime ++ "s!\n".toList), true)

/-- `request_handler_health::handle_request`. -/
def Health.handleRequest (response : Response) : Response × Bool :=
  (response.answer .ok "text/plain".toList "OK".toList, true)

/-- `request_handler_not_found::handle_request`. -/
def NotFound.handleRequest (response : Response) : Response × Bool :=
  (response.answer .notFound "text/html".toList notFoundMsg, true)

/-! ## 5. Roots -/

/-- What the factories of CRUD and text_gen do about their root: it is made if it is not there, and
    the process exits if that fails. -/
def makeRoot (files : FileTree) (root : Str) : Except Fault FileTree :=
  if files.lookup root = some .dir then .ok files
  else
    match files.mkdir root with
    | some files => .ok files
    | none => .error .exit

end Googolplex
