/-
  File:      Googolplex/Crud/Handler.lean
  Subject:   `request_handler_crud`: the four operations on the id lists and the
             data directory, statement by statement (request_handler_crud.cc).

  Two pieces of state: `fileToId`, the map of the factory all handlers of the
  location share, and the file tree. A request ends in a new state, a response
  and the status Boolean, or in a `Fault`: `std::stoi` in PUT is not guarded,
  and the id counter of POST is an `int`.
-/
import Googolplex.Library.Machine
import Googolplex.RequestHandler

namespace Googolplex.Crud

open Cxx Posix RequestHandler

/-- `std::map<std::string, std::vector<int>>`. -/
abbrev FileToId := OrdMap Str (List Int)

/-- What a CRUD request reads and changes. -/
structure CrudState where
  fileToId : FileToId
  files : FileTree

/-! ## 1. The id lists -/

/-- The loop of `get_next_id`: one pass, counting up at every id that is the counter. -/
def lowestAvailableId : Int → List Int → Except Fault Int
  | lowest, [] => .ok lowest
  | lowest, id :: ids =>
    if id = lowest then
      if lowest = intMax then .error .signedOverflow else lowestAvailableId (lowest + 1) ids
    else lowestAvailableId lowest ids

/-- `insert_to_map`. -/
def insertToMap (fileToId : FileToId) (key : Str) (id : Int) : Bool × FileToId :=
  match fileToId[key]? with
  | some idNames =>
    if id ∈ idNames then (false, fileToId)
    else (true, fileToId.insert key ((idNames ++ [id]).insertionSort (· ≤ ·)))
  | none => (false, fileToId)

/-- `get_next_id`. -/
def getNextId (fileToId : FileToId) (key : Str) : Except Fault (Int × FileToId) :=
  match fileToId[key]? with
  | none => .ok (1, fileToId.insert key [1])
  | some ids =>
    match lowestAvailableId 1 ids with
    | .error e => .error e
    | .ok lowest => .ok (lowest, (insertToMap fileToId key lowest).2)

/-! ## 2. The responses -/

/-- `prepare_created_response`. -/
def prepareCreatedResponse (value : Int) (response : Response) : Response :=
  response.answer .created "text/plain".toList
    ("Created entry at \x7b\"id\":".toList ++ toStr value ++ "\x7d\n".toList)

/-- `prepare_unprocessable_entity_response`. -/
def prepareUnprocessableEntityResponse (response : Response) : Response :=
  response.answer .unprocessableEntity "text/html".toList
    ("<html><head><title>Unprocessable Entity</title></head>" ++
      "<body><h1>422 Unprocessable Entity</h1></body></html>").toList

/-- `prepare_internal_server_error_response`. -/
def prepareInternalServerErrorResponse (response : Response) : Response :=
  response.answer .internalServerError "text/html".toList
    ("<html><head><title>Internal Server Error</title></head>" ++
      "<body><h1>500 Internal Server Error</h1></body></html>").toList

/-- `prepare_bad_request_response`. -/
def prepareBadRequestResponse (response : Response) : Response :=
  response.answer .badRequest "text/plain".toList "Invalid CRUD method.\n".toList

/-- `prepare_not_found_response`. -/
def prepareNotFoundResponse (response : Response) : Response :=
  response.answer .notFound "text/html".toList
    "<html><head><title>Not Found</title></head><body><h1>404 Not Found</h1></body></html>".toList

/-- The response to a PUT that replaces a body; no content type is set. -/
def updatedResponse (value : Int) (response : Response) : Response :=
  Response.preparePayload { response with
    result := .ok
    body := "Updated entry at \x7b\"id\":".toList ++ toStr value ++ "\x7d\n".toList }

/-- The response to a DELETE that does not name an id. -/
def noFileIdResponse (response : Response) : Response :=
  response.answer .badRequest "text/plain".toList "Invalid format; expected a file ID.\n".toList

/-! ## 3. The operations -/

/-- What an operation returns. -/
abbrev Outcome := Except Fault (CrudState × Response × Bool)

/-- The part of a suffix after its last slash, the whole suffix if there is none. -/
def idNameOf (suffix : Str) : Str :=
  match findLastOf '/' suffix with
  | some found => suffix.drop (found + 1)
  | none => suffix

/-- The part of a suffix before its last slash, the whole suffix if there is none (`npos`). -/
def entityOf (suffix : Str) : Str :=
  match findLastOf '/' suffix with
  | some found => suffix.take found
  | none => suffix

variable (handler : RequestHandler) (disk : Disk)

/-- `get_dir() + "/" + suffix`. -/
def pathOf (suffix : Str) : Str := handler.dir_ ++ '/' :: suffix

/-- `handle_post_request`. -/
def handlePostRequest (s : CrudState) (suffix : Str) (request : Request) (response : Response) :
    Outcome :=
  let path := pathOf handler suffix
  let (created, files) :=
    if s.fileToId[suffix]? = none then createDir s.files path else (true, s.files)
  if created = false then
    .ok ({ s with files }, prepareUnprocessableEntityResponse response, false)
  else
    match getNextId s.fileToId suffix with
    | .error e => .error e
    | .ok (value, fileToId) =>
      let (written, files) := writeToFile disk files (path ++ '/' :: toStr value) request.body
      if written then .ok (⟨fileToId, files⟩, prepareCreatedResponse value response, true)
      else .ok (⟨fileToId, files⟩, prepareInternalServerErrorResponse response, false)

/-- `handle_get_request`. The list is read with `operator[]`, which inserts an empty one. -/
def handleGetRequest (s : CrudState) (suffix : Str) (response : Response) : Outcome :=
  let path := pathOf handler suffix
  match s.files.lookup path with
  | some .dir =>
    let ids := s.fileToId[suffix]?.getD []
    let idList := [','].intercalate (ids.map toStr)
    .ok ({ s with fileToId := s.fileToId.insert suffix ids },
      response.answer .ok "text/plain".toList ('[' :: idList ++ "]\n".toList), true)
  | some (.file _) =>
    match readFromFile s.files path with
    | .error e => .error e
    | .ok (some content) =>
      .ok (s, Response.preparePayload { response with result := .ok, body := content }, true)
    | .ok none => .ok (s, prepareNotFoundResponse response, false)
  | none => .ok (s, prepareNotFoundResponse response, false)

/-- `handle_put_request`. -/
def handlePutRequest (s : CrudState) (suffix : Str) (request : Request) (response : Response) :
    Outcome :=
  let path := pathOf handler suffix
  let idName := idNameOf suffix
  let entity := entityOf suffix
  if idName ≠ [] ∧ idName.all Char.isDigit then
    match stoi idName with
    | .error _ => .error .outOfRange
    | .ok value =>
      let known := s.fileToId[entity]? ≠ none
      let (made, files) :=
        if known then (true, s.files) else createDir s.files (pathOf handler entity)
      if made = false then
        .ok ({ s with files }, prepareUnprocessableEntityResponse response, false)
      else
        let (fileToId, response) :=
          if known then
            let (inserted, fileToId) := insertToMap s.fileToId entity value
            (fileToId, if inserted then prepareCreatedResponse value response
              else updatedResponse value response)
          else (s.fileToId.insert entity [value], prepareCreatedResponse value response)
        let (written, files) := writeToFile disk files path request.body
        if written then .ok (⟨fileToId, files⟩, response, true)
        else .ok (⟨fileToId, files⟩, prepareNotFoundResponse response, false)
  else .ok (s, prepareNotFoundResponse response, false)

/-- `handle_delete_request`. -/
def handleDeleteRequest (s : CrudState) (suffix : Str) (response : Response) : Outcome :=
  let path := pathOf handler suffix
  match s.files.lookup path with
  | none => .ok (s, prepareNotFoundResponse response, false)
  | some .dir => .ok (s, noFileIdResponse response, false)
  | some (.file _) =>
    let idName := idNameOf suffix
    let entity := entityOf suffix
    match stoi idName with
    | .error _ => .ok (s, noFileIdResponse response, false)
    | .ok value =>
      match s.fileToId[entity]? with
      | none => .ok (s, prepareNotFoundResponse response, false)
      | some ids =>
        match s.files.unlink path with
        | some files =>
          .ok (⟨s.fileToId.insert entity (ids.filter (· ≠ value)), files⟩,
            response.answer .ok "text/plain".toList
              ("Successfully deleted file at /".toList ++ entity ++ ".\n".toList), true)
        | none => .ok (s, prepareInternalServerErrorResponse response, false)

/-- `request_handler_crud::handle_request`. -/
def handleRequest (s : CrudState) (request : Request) (response : Response) : Outcome :=
  match handler.checkRequestUrl request.target false with
  | none => .ok (s, prepareBadRequestResponse response, false)
  | some suffix =>
    match request.method with
    | .post => handlePostRequest handler disk s suffix request response
    | .get => handleGetRequest handler s suffix response
    | .put => handlePutRequest handler disk s suffix request response
    | .delete => handleDeleteRequest handler s suffix response
    | _ => .ok (s, prepareBadRequestResponse response, false)

/-- One request on a fresh response, as the session makes it; the status Boolean goes to the log
    only. -/
def serve (s : CrudState) (request : Request) : Except Fault (CrudState × Response) :=
  match handleRequest handler disk s request
    (({ } : Response).set .accessControlAllowOrigin ['*']) with
  | .error e => .error e
  | .ok (s', response, _) => .ok (s', response)

/-! ## 4. A location -/

/-- `location "/api" CrudHandler { data_path /data; }`. -/
def apiHandler : RequestHandler := ⟨"/api".toList, "/data".toList⟩

/-- No known entity, and the data directory the factory made, empty. -/
def apiStart : CrudState where
  fileToId := ∅
  files := FileTree.bare.put "data".toList [] .dir FileTree.bare.isDir_root fun _ => rfl

/-- A request for a target, with a body. -/
def ask (method : Verb) (target : String) (body : String) : Request :=
  { method, target := target.toList, body := body.toList }

end Googolplex.Crud
