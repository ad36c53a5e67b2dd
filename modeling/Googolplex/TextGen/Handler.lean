/-
  File:      Googolplex/TextGen/Handler.lean
  Subject:   `request_handler_text_gen`: texts from an API, kept in a folder for each
             client (request_handler_text_gen.cc).

  Parameters: the JSON library, the disk, and the order in which a directory
  lists its entries. What `curl_api` gives comes with each request: `none` is a
  return of false, else the raw output.
-/
import Googolplex.Library.Json
import Googolplex.Handlers

namespace Googolplex.TextGen

open Cxx Posix RequestHandler

/-- What the handler stands on. -/
structure Host where
  library : Json.Library
  disk : Disk
  order : List (Name × Node) → List (Name × Node)
  order_perm : ∀ entries, (order entries).Perm entries

/-- What a request leaves: the files, the response and the status Boolean. -/
abbrev Outcome := Except Fault (FileTree × Response × Bool)

/-! ## 1. Messages -/

/-- `post_format_msg`. -/
def postFormatMsg : Str :=
  "<h4>Bad Request</h4>Required POST request body format: title=xxx&prompt=xxx".toList

/-- What a continued line of a message begins with. -/
def indent : Str := List.replicate 12 ' '

/-- `valid_input_msg`. -/
def validInputMsg : Str :=
  ("<h4>Bad Request</h4><h5>Invalid title:</h5> <ul><li>at least 1 character and at most " ++
    "20 characters").toList ++ indent ++
  ("</li> <li>only contains letters, numeric characters, special characters (\".\", \"_\", \"-\", " ++
    "and \" \")</li></ul><h5>Invalid text prompt:").toList ++ indent ++
  ("</h5> <ul><li>at least 1 character and at most 50 characters</li><li>only contains letters, " ++
    "numeric characters, special characters (\"?\", \",\", \"_\", \"-\", and \" \")</li></ul>").toList

/-- `api_communication_msg`. -/
def apiCommunicationMsg : Str :=
  "<h4>Bad Request</h4>Whoops, errors happen in the process: <ul>".toList ++ indent ++
  ("<li>communication with the text generation API</li></ul>Please wait for a moment and " ++
    "try again").toList

/-- `file_system_msg`. -/
def fileSystemMsg : Str :=
  "<h4>Bad Request</h4>Whoops, errors happen in the process: <ul>".toList ++ indent ++
  ("<li>storing the data to server's filesystem</li></ul>Please wait for a moment and " ++
    "try again").toList

/-- `invalid_url_msg`. -/
def invalidUrlMsg : Str := "<h4>Bad Request</h4>The URL you entered is not valid".toList

/-- `prepare_bad_request_response`. -/
def prepareBadRequestResponse (response : Response) : Response :=
  response.answer .badRequest "text/html".toList badRequestMsg

/-- `prepare_not_found_response`. -/
def prepareNotFoundResponse (response : Response) : Response :=
  response.answer .notFound "text/html".toList notFoundMsg

/-- `prepare_internal_server_error_response`. -/
def prepareInternalServerErrorResponse (response : Response) : Response :=
  response.answer .internalServerError "text/html".toList internalServerErrorMsg

/-- `response.body() = msg; response.prepare_payload();` -/
def overwriteBody (response : Response) (msg : Str) : Response :=
  ({ response with body := msg } : Response).preparePayload

/-! ## 2. Titles, prompts and addresses -/

/-- `dot2underscore`. -/
def dot2underscore (text : Str) : Str := text.map fun c => if c = '.' then '_' else c

/-- `text_prompt_max_len`. -/
def textPromptMaxLen : Nat := 50

/-- `title_max_len`. -/
def titleMaxLen : Nat := 20

/-- `[a-zA-Z0-9? ,_-]`. -/
def isPromptChar (c : Char) : Bool := c.isAlphanum || c ∈ ['?', ' ', ',', '_', '-']

/-- `[a-zA-Z0-9. _-]`. -/
def isTitleChar (c : Char) : Bool := c.isAlphanum || c ∈ ['.', ' ', '_', '-']

/-- `check_prompts_validity`. -/
def checkPromptsValidity (text : Str) : Bool :=
  0 < text.length && text.length ≤ textPromptMaxLen && text.all isPromptChar

/-- `check_title_validity`. -/
def checkTitleValidity (title : Str) : Bool :=
  0 < title.length && title.length ≤ titleMaxLen && title.all isTitleChar

/-- `parse_post_body`, the map on true: of a name that comes twice the first value stays. -/
def parsePostBody (body : Str) : Option (OrdMap Str Str) :=
  let tokenMap : OrdMap Str Str := (body.splitOn '&').foldl
    (fun tokenMap token =>
      match token.splitOn '=' with
      | [key, value] => tokenMap.insertIfNew key value
      | _ => tokenMap) ∅
  if tokenMap.contains "title".toList ∧ tokenMap.contains "prompt".toList then some tokenMap
  else none

/-- The replacement of `%20` by a blank. -/
def decodeSpaces : Str → Str
  | '%' :: '2' :: '0' :: rest => ' ' :: decodeSpaces rest
  | c :: rest => c :: decodeSpaces rest
  | [] => []

/-! ## 3. JSON -/

section

variable (host : Host)

/-- `parse_raw_output`: the member `output`, when it is a string. -/
def parseRawOutput (rawOutput : Str) : Option Str :=
  match (host.library.parse rawOutput).bind (Json.Value.member "output".toList) with
  | some (.string output) => some output
  | _ => none

/-- The entry of a title. -/
def entryOf (output textPrompt title : Str) : Json.Value :=
  .object [("output".toList, .string output), ("text_prompt".toList, .string textPrompt),
    ("title".toList, .string title)]

/-- The answer to a DELETE. -/
def removedJson (ip title : Str) : Json.Value :=
  .object [("IP".toList, .string ip), ("status".toList, .string "removed".toList),
    ("title".toList, .string title)]

/-- The answer to a GET of a title. -/
def readedJson (ip title : Str) (content : Json.Value) : Json.Value :=
  .object [("IP".toList, .string ip), ("content".toList, content),
    ("status".toList, .string "readed".toList), ("title".toList, .string title)]

/-- The answer to a GET of the history. -/
def historyJson (ip : Str) (titles : List Str) : Json.Value :=
  .object [("IP".toList, .string ip),
    ("title list".toList, .string ('[' :: [','].intercalate titles ++ [']']))]

/-- `response.body() = j.dump(4)` and the payload; a string that is not UTF-8 throws. -/
def jsonAnswer (files : FileTree) (j : Json.Value) (response : Response) : Outcome :=
  match host.library.dump j with
  | none => .error .jsonTypeError
  | some text => .ok (files, response.answer .ok "application/json".toList text, true)

/-! ## 4. The operations -/

variable (handler : RequestHandler) (clientIp : Str)

/-- `get_dir() + "/" + dot2underscore(get_client_ip())`. -/
def folderOf : Str := handler.dir_ ++ '/' :: dot2underscore clientIp

/-- The part of `handle_post_request` after the API has answered: the entry goes to the folder.
    `none` is a `file_system_error`. -/
def storeEntry (files : FileTree) (output textPrompt title : Str) :
    Except Fault (Bool × FileTree) :=
  let folder := folderOf handler clientIp
  match createDir files folder with
  | (false, files) => .ok (false, files)
  | (true, files) =>
    match host.library.dump (entryOf output textPrompt title) with
    | none => .error .jsonTypeError
    | some entry => .ok (writeToFile host.disk files (folder ++ '/' :: title) entry)

/-- `handle_post_request`. -/
def handlePostRequest (apiReply : Option Str) (files : FileTree) (request : Request)
    (response : Response) : Outcome :=
  match parsePostBody request.body with
  | none => .ok (files, overwriteBody (prepareBadRequestResponse response) postFormatMsg, false)
  | some tokenMap =>
    let title := tokenMap["title".toList]?.getD []
    let textPrompt := tokenMap["prompt".toList]?.getD []
    if checkPromptsValidity textPrompt = false ∨ checkTitleValidity title = false then
      .ok (files, overwriteBody (prepareBadRequestResponse response) validInputMsg, false)
    else
      match apiReply.bind (parseRawOutput host) with
      | none =>
        .ok (files,
          overwriteBody (prepareInternalServerErrorResponse response) apiCommunicationMsg, false)
      | some output =>
        let response := response.answer .ok "text/plain".toList output
        match storeEntry host handler clientIp files output textPrompt title with
        | .error f => .error f
        | .ok (true, files) => .ok (files, response, true)
        | .ok (false, files) =>
          .ok (files,
            overwriteBody (prepareInternalServerErrorResponse response) fileSystemMsg, false)

/-- `get_ip_file_list`. -/
def getIpFileList (files : FileTree) (path : Str) (response : Response) : Outcome :=
  match files.resolve path with
  | some p =>
    if files.IsDir p then
      let titleList := ((host.order (files.entries p)).filter (·.2 ≠ .dir)).map Prod.fst
      jsonAnswer host files (historyJson (dot2underscore clientIp) titleList) response
    else .ok (files, prepareNotFoundResponse response, false)
  | none => .ok (files, prepareNotFoundResponse response, false)

/-- `get_title_file`: the file is removed, or its content read. -/
def getTitleFile (files : FileTree) (path suffix : Str) (response : Response) (remove : Bool) :
    Outcome :=
  if files.lookup path = some .dir then
    let titlepath := path ++ '/' :: suffix
    match files.lookup titlepath with
    | some (.file filecontent) =>
      if remove then
        jsonAnswer host ((files.unlink titlepath).getD files)
          (removedJson (dot2underscore clientIp) suffix) response
      else
        match host.library.parse filecontent with
        | none => .error .jsonParseError
        | some content =>
          jsonAnswer host files (readedJson (dot2underscore clientIp) suffix content) response
    | _ => .ok (files, prepareNotFoundResponse response, false)
  else .ok (files, prepareNotFoundResponse response, false)

/-- The page a GET of the bare location is answered with. -/
def pagePath : Str := "../static/static1/text.html".toList

/-- `handle_get_request`. -/
def handleGetRequest (files : FileTree) (request : Request) (response : Response) : Outcome :=
  match handler.checkRequestUrl (decodeSpaces request.target) true with
  | none => .ok (files, prepareBadRequestResponse response, false)
  | some suffix =>
    let path := folderOf handler clientIp
    if suffix = [] then
      match readFromFile files pagePath with
      | .error f => .error f
      | .ok (some content) => .ok (files, response.answer .ok "text/html".toList content, true)
      | .ok none => .ok (files, prepareInternalServerErrorResponse response, false)
    else if suffix = "history?".toList then getIpFileList host clientIp files path response
    else getTitleFile host clientIp files path suffix response false

/-- `handle_delete_request`. -/
def handleDeleteRequest (files : FileTree) (request : Request) (response : Response) : Outcome :=
  match handler.checkRequestUrl (decodeSpaces request.target) false with
  | none => .ok (files, overwriteBody (prepareBadRequestResponse response) invalidUrlMsg, false)
  | some suffix =>
    getTitleFile host clientIp files (folderOf handler clientIp) suffix response true

/-- `handle_options_request`: no payload is prepared. -/
def handleOptionsRequest (files : FileTree) (response : Response) : Outcome :=
  let response := { response with result := .noContent }
  let response := response.set .accessControlAllowOrigin ['*']
  let response := response.set .accessControlAllowMethods ['*']
  let response := response.set .accessControlAllowHeaders ['*']
  .ok (files, response, true)

/-- `request_handler_text_gen::handle_request`. -/
def handleRequest (apiReply : Option Str) (files : FileTree) (request : Request)
    (response : Response) : Outcome :=
  match request.method with
  | .post => handlePostRequest host handler clientIp apiReply files request response
  | .get => handleGetRequest host handler clientIp files request response
  | .delete => handleDeleteRequest host handler clientIp files request response
  | .options => handleOptionsRequest files response
  | _ => .ok (files, prepareBadRequestResponse response, false)

/-- One request on a fresh response, as the session makes it: `TextGenHandlerFactory::create` makes
    the root first, if it is not there. -/
def serve (apiReply : Option Str) (files : FileTree) (request : Request) :
    Except Fault (FileTree × Response) :=
  match makeRoot files handler.dir_ with
  | .error f => .error f
  | .ok files =>
    match handleRequest host handler clientIp apiReply files request
      (({ } : Response).set .accessControlAllowOrigin ['*']) with
    | .error f => .error f
    | .ok (files, response, _) => .ok (files, response)

end

end Googolplex.TextGen
