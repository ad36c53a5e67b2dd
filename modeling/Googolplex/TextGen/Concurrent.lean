/-
  File:      Googolplex/TextGen/Concurrent.lean
  Subject:   `request_handler_text_gen` ACCESS BY ACCESS
             (request_handler_text_gen.cc), for handlers that share the tree.

  * `handleRequest_alone`: with nobody in between the accesses are the handler.
  * `handleRequest_keeps`: which paths the accesses change anything with; `Removes`.
-/
import Googolplex.FileAccesses
import Googolplex.TextGen.Handler

namespace Googolplex.TextGen.Concurrent

open Cxx Posix Posix.FileTree Programs FileAccesses

variable (host : Host) (handler : RequestHandler) (clientIp : Str)

/-! ## 1. The members -/

/-- `response.body() = j.dump(4)` and the payload. -/
def answerJson (j : Json.Value) (response : Response) : RequestResult :=
  match host.library.dump j with
  | none => .error .jsonTypeError
  | some text => .ok (response.answer .ok "application/json".toList text, true)

/-- The part of `handle_post_request` after the API has answered. -/
def storeEntry (output textPrompt title : Str) : Accesses (Except Fault Bool) := do
  let folder := folderOf handler clientIp
  if ← createDir folder then
    match host.library.dump (entryOf output textPrompt title) with
    | none => return .error .jsonTypeError
    | some entry => return .ok (← writeToFile host.disk (folder ++ '/' :: title) entry)
  else return .ok false

/-- `handle_post_request`. -/
def handlePostRequest (apiReply : Option Str) (request : Request) (response : Response) :
    Accesses RequestResult :=
  match parsePostBody request.body with
  | none => return .ok (overwriteBody (prepareBadRequestResponse response) postFormatMsg, false)
  | some tokenMap =>
    let title := tokenMap["title".toList]?.getD []
    let textPrompt := tokenMap["prompt".toList]?.getD []
    if checkPromptsValidity textPrompt = false ∨ checkTitleValidity title = false then
      return .ok (overwriteBody (prepareBadRequestResponse response) validInputMsg, false)
    else
      match apiReply.bind (parseRawOutput host) with
      | none =>
        return .ok
          (overwriteBody (prepareInternalServerErrorResponse response) apiCommunicationMsg, false)
      | some output => do
        let response := response.answer .ok "text/plain".toList output
        match ← storeEntry host handler clientIp output textPrompt title with
        | .error f => return .error f
        | .ok true => return .ok (response, true)
        | .ok false =>
          return .ok (overwriteBody (prepareInternalServerErrorResponse response) fileSystemMsg, false)

/-- `get_ip_file_list`. -/
def getIpFileList (path : Str) (response : Response) : Accesses RequestResult := do
  if ← exists_ path then
    if ← isDirectory path then
      match ← entriesAt path with
      | .error f => return .error f
      | .ok entries =>
        let titleList := ((host.order entries).filter (·.2 ≠ .dir)).map Prod.fst
        return answerJson host (historyJson (dot2underscore clientIp) titleList) response
    else return .ok (prepareNotFoundResponse response, false)
  else return .ok (prepareNotFoundResponse response, false)

/-- `get_title_file`. -/
def getTitleFile (path suffix : Str) (response : Response) (toRemove : Bool) :
    Accesses RequestResult := do
  if ← exists_ path then
    if ← isDirectory path then
      let titlepath := path ++ '/' :: suffix
      if ← isRegularFile titlepath then
        if toRemove then
          match ← filesystemRemove titlepath with
          | .error f => return .error f
          | .ok _ => return answerJson host (removedJson (dot2underscore clientIp) suffix) response
        else
          match ← readFromFile titlepath with
          | .error f => return .error f
          | .ok none => return .ok (prepareNotFoundResponse response, false)
          | .ok (some filecontent) =>
            match host.library.parse filecontent with
            | none => return .error .jsonParseError
            | some content =>
              return answerJson host (readedJson (dot2underscore clientIp) suffix content) response
      else return .ok (prepareNotFoundResponse response, false)
    else return .ok (prepareNotFoundResponse response, false)
  else return .ok (prepareNotFoundResponse response, false)

/-- `handle_get_request`. -/
def handleGetRequest (request : Request) (response : Response) : Accesses RequestResult :=
  match handler.checkRequestUrl (decodeSpaces request.target) true with
  | none => return .ok (prepareBadRequestResponse response, false)
  | some suffix =>
    let path := folderOf handler clientIp
    if suffix = [] then do
      match ← readFromFile pagePath with
      | .error f => return .error f
      | .ok (some content) => return .ok (response.answer .ok "text/html".toList content, true)
      | .ok none => return .ok (prepareInternalServerErrorResponse response, false)
    else if suffix = "history?".toList then getIpFileList host clientIp path response
    else getTitleFile host clientIp path suffix response false

/-- `handle_delete_request`. -/
def handleDeleteRequest (request : Request) (response : Response) : Accesses RequestResult :=
  match handler.checkRequestUrl (decodeSpaces request.target) false with
  | none => return .ok (overwriteBody (prepareBadRequestResponse response) invalidUrlMsg, false)
  | some suffix => getTitleFile host clientIp (folderOf handler clientIp) suffix response true

/-- `handle_options_request`. -/
def handleOptionsRequest (response : Response) : Accesses RequestResult :=
  let response := { response with result := .noContent }
  let response := response.set .accessControlAllowOrigin ['*']
  let response := response.set .accessControlAllowMethods ['*']
  let response := response.set .accessControlAllowHeaders ['*']
  return .ok (response, true)

/-- `request_handler_text_gen::handle_request`. -/
def handleRequest (apiReply : Option Str) (request : Request) (response : Response) :
    Accesses RequestResult :=
  match request.method with
  | .post => handlePostRequest host handler clientIp apiReply request response
  | .get => handleGetRequest host handler clientIp request response
  | .delete => handleDeleteRequest host handler clientIp request response
  | .options => handleOptionsRequest response
  | _ => return .ok (prepareBadRequestResponse response, false)

/-! ## 2. With nobody in between -/

section Alone

variable {host handler clientIp} (t : FileTree)

theorem answerJson_outcome (j : Json.Value) (response : Response) :
    outcome (t, answerJson host j response) = jsonAnswer host t j response := by
  unfold answerJson jsonAnswer
  cases host.library.dump j <;> rfl

theorem storeEntry_alone (output textPrompt title : Str) :
    (∃ f t', TextGen.storeEntry host handler clientIp t output textPrompt title = .error f ∧
      (storeEntry host handler clientIp output textPrompt title).alone t = (t', .error f)) ∨
    ∃ b t', TextGen.storeEntry host handler clientIp t output textPrompt title = .ok (b, t') ∧
      (storeEntry host handler clientIp output textPrompt title).alone t = (t', .ok b) := by
  unfold storeEntry TextGen.storeEntry
  dsimp only
  rw [alone_bind, createDir_alone]
  generalize RequestHandler.createDir t (folderOf handler clientIp) = made
  obtain ⟨created, t'⟩ := made
  cases created with
  | false => exact Or.inr ⟨false, t', rfl, rfl⟩
  | true =>
      dsimp only
      rw [if_pos rfl]
      cases host.library.dump (entryOf output textPrompt title) with
      | none => exact Or.inl ⟨_, t', rfl, rfl⟩
      | some entry =>
          dsimp only
          rw [alone_bind, writeToFile_alone]
          exact Or.inr ⟨_, _, rfl, rfl⟩

theorem handlePostRequest_alone (apiReply : Option Str) (request : Request) (response : Response) :
    outcome ((handlePostRequest host handler clientIp apiReply request response).alone t) =
      TextGen.handlePostRequest host handler clientIp apiReply t request response := by
  unfold handlePostRequest TextGen.handlePostRequest
  cases parsePostBody request.body with
  | none => rfl
  | some tokenMap =>
      dsimp only
      split
      · rfl
      · cases apiReply.bind (parseRawOutput host) with
        | none => rfl
        | some output =>
            dsimp only
            rw [alone_bind]
            rcases @storeEntry_alone host handler clientIp t output (tokenMap["prompt".toList]?.getD [])
                (tokenMap["title".toList]?.getD []) with ⟨f, t', hs, halone⟩ | ⟨b, t', hs, halone⟩
            · rw [hs, halone]
              rfl
            · rw [hs, halone]
              cases b <;> rfl

theorem getIpFileList_alone (path : Str) (response : Response) :
    outcome ((getIpFileList host clientIp path response).alone t) =
      TextGen.getIpFileList host clientIp t path response := by
  unfold getIpFileList TextGen.getIpFileList
  rw [alone_bind, exists_alone]
  dsimp only
  cases hr : t.resolve path with
  | none =>
      have hnone : t.lookup path = none := by
        unfold FileTree.lookup
        rw [hr]
        rfl
      rw [if_neg (by simp [hnone])]
      rfl
  | some p =>
      have hlookup : t.lookup path = t.nodes[p]? := by
        unfold FileTree.lookup
        rw [hr]
        rfl
      dsimp only
      by_cases hdir : t.IsDir p
      · have hthere : t.lookup path = some .dir := hlookup.trans hdir
        rw [if_pos (by simp [hthere]), alone_bind, isDirectory_alone, if_pos (by simp [hthere]),
          if_pos hdir]
        have hentries : entriesOf t path = .ok (t.entries p) := by
          unfold entriesOf
          rw [hr]
          exact if_pos hdir
        unfold entriesAt
        rw [alone_bind, alone_atomically, hentries]
        exact answerJson_outcome t _ response
      · have hno : t.lookup path ≠ some .dir := fun h => hdir (hlookup.symm.trans h)
        rw [if_neg hdir]
        split
        · rw [alone_bind, isDirectory_alone, if_neg (by simp [hno])]
          rfl
        · rfl

theorem getTitleFile_alone (path suffix : Str) (response : Response) (toRemove : Bool) :
    outcome ((getTitleFile host clientIp path suffix response toRemove).alone t) =
      TextGen.getTitleFile host clientIp t path suffix response toRemove := by
  unfold getTitleFile TextGen.getTitleFile
  rw [alone_bind, exists_alone]
  dsimp only
  by_cases hdir : t.lookup path = some .dir
  · rw [if_pos (by simp [hdir]), alone_bind, isDirectory_alone, if_pos (by simp [hdir]), if_pos hdir]
    unfold isRegularFile
    rw [alone_bind, alone_atomically]
    dsimp only
    cases hl : t.lookup (path ++ '/' :: suffix) with
    | none => rfl
    | some node =>
        cases node with
        | dir => rfl
        | file filecontent =>
            dsimp only
            rw [if_pos (show isRegular (some (.file filecontent)) = true from rfl)]
            cases toRemove with
            | true =>
                rw [if_pos rfl, if_pos rfl, alone_bind, filesystemRemove_alone t hl]
                exact answerJson_outcome _ _ response
            | false =>
                have hread : RequestHandler.readFromFile t (path ++ '/' :: suffix) =
                    .ok (some filecontent) := by
                  unfold RequestHandler.readFromFile
                  rw [hl]
                rw [if_neg (by simp), if_neg (by simp), alone_bind, readFromFile_alone, hread]
                dsimp only
                cases host.library.parse filecontent with
                | none => rfl
                | some content => exact answerJson_outcome t _ response
  · rw [if_neg hdir]
    split
    · rw [alone_bind, isDirectory_alone, if_neg (by simp [hdir])]
      rfl
    · rfl

/-- **With nobody in between the accesses are the handler.** -/
theorem handleRequest_alone (apiReply : Option Str) (request : Request) (response : Response) :
    outcome ((handleRequest host handler clientIp apiReply request response).alone t) =
      TextGen.handleRequest host handler clientIp apiReply t request response := by
  unfold handleRequest TextGen.handleRequest
  cases request.method with
  | post => exact handlePostRequest_alone t apiReply request response
  | get =>
      dsimp only
      unfold handleGetRequest TextGen.handleGetRequest
      cases handler.checkRequestUrl (decodeSpaces request.target) true with
      | none => rfl
      | some suffix =>
          dsimp only
          split
          · rw [alone_bind, readFromFile_alone]
            dsimp only
            rcases RequestHandler.readFromFile t pagePath with f | _ | content <;> rfl
          · split
            · exact getIpFileList_alone t _ response
            · exact getTitleFile_alone t _ suffix response false
  | delete =>
      dsimp only
      unfold handleDeleteRequest TextGen.handleDeleteRequest
      cases handler.checkRequestUrl (decodeSpaces request.target) false with
      | none => rfl
      | some suffix => exact getTitleFile_alone t _ suffix response true
  | options => rfl
  | put | head | trace | other => rfl

end Alone

/-! ## 3. What the accesses change -/

section Keeps

variable {host handler clientIp} {I : FileTree → Prop} {E : FileTree → FileTree → Prop}
  {request : Request} {response : Response}

theorem storeEntry_keeps {output textPrompt title : Str} (hfolder : Allows E (folderOf handler clientIp))
    (htitle : Allows E (folderOf handler clientIp ++ '/' :: title)) :
    (storeEntry host handler clientIp output textPrompt title).Keeps E := by
  refine keeps_bind (createDir_keeps hfolder) fun made => ?_
  split
  · cases host.library.dump (entryOf output textPrompt title) with
    | none => exact keeps_pure _
    | some entry => exact keeps_bind (writeToFile_keeps htitle) fun b => keeps_pure (Except.ok b)
  · exact keeps_pure _

theorem handlePostRequest_keeps {apiReply : Option Str}
    (hfolder : Allows E (folderOf handler clientIp))
    (htitle : ∀ title, checkTitleValidity title = true →
      Allows E (folderOf handler clientIp ++ '/' :: title)) :
    (handlePostRequest host handler clientIp apiReply request response).Keeps E := by
  unfold handlePostRequest
  cases parsePostBody request.body with
  | none => exact keeps_pure _
  | some tokenMap =>
      dsimp only
      split
      · exact keeps_pure _
      · rename_i hvalid
        rw [not_or, Bool.not_eq_false, Bool.not_eq_false] at hvalid
        cases apiReply.bind (parseRawOutput host) with
        | none => exact keeps_pure _
        | some output =>
            refine keeps_bind (storeEntry_keeps hfolder (htitle _ hvalid.2)) fun stored => ?_
            split <;> exact keeps_pure _

theorem getIpFileList_keeps {path : Str} (hrefl : ∀ t, E t t) :
    (getIpFileList host clientIp path response).Keeps E := by
  refine keeps_bind (exists_keeps hrefl) fun there => ?_
  split
  · refine keeps_bind (isDirectory_keeps hrefl) fun dir => ?_
    split
    · refine keeps_bind (entriesAt_keeps hrefl) fun entries => ?_
      split <;> exact keeps_pure _
    · exact keeps_pure _
  · exact keeps_pure _

/-- What is removed has been found to be a regular file. -/
theorem getTitleFile_keeps {path suffix : Str} {toRemove : Bool} (hrefl : ∀ t, E t t)
    (hremoval : toRemove = true → ∀ t, I t → isRegular (t.lookup (path ++ '/' :: suffix)) = true →
      AllowsRemoval E (path ++ '/' :: suffix)) :
    (getTitleFile host clientIp path suffix response toRemove).KeepsIn I E := by
  refine keepsIn_bind (exists_keeps hrefl).keepsIn fun there => ?_
  split
  · refine keepsIn_bind (isDirectory_keeps hrefl).keepsIn fun dir => ?_
    split
    · refine keepsIn_look hrefl fun t ht => ?_
      split
      · rename_i hregular
        split
        · rename_i hremove
          refine keepsIn_bind (filesystemRemove_keeps (hremoval hremove t ht hregular)).keepsIn
            fun removed => ?_
          split <;> exact keepsIn_pure _
        · refine keepsIn_bind (readFromFile_keeps hrefl).keepsIn fun read => ?_
          split
          · exact keepsIn_pure _
          · exact keepsIn_pure _
          · split <;> exact keepsIn_pure _
      · exact keepsIn_pure _
    · exact keepsIn_pure _
  · exact keepsIn_pure _

/-- **The calls are made** with the folder of the client and with a valid title in it; and a DELETE
    removes what its target names, if that is a regular file. -/
theorem handleRequest_keeps {apiReply : Option Str} (hfolder : Allows E (folderOf handler clientIp))
    (htitle : ∀ title, checkTitleValidity title = true →
      Allows E (folderOf handler clientIp ++ '/' :: title))
    (hremoval : request.method = .delete → ∀ suffix,
      handler.checkRequestUrl (decodeSpaces request.target) false = some suffix → ∀ t, I t →
        isRegular (t.lookup (folderOf handler clientIp ++ '/' :: suffix)) = true →
          AllowsRemoval E (folderOf handler clientIp ++ '/' :: suffix)) :
    (handleRequest host handler clientIp apiReply request response).KeepsIn I E := by
  unfold handleRequest
  cases hmethod : request.method with
  | post => exact (handlePostRequest_keeps hfolder htitle).keepsIn
  | get =>
      dsimp only
      unfold handleGetRequest
      cases hurl : handler.checkRequestUrl (decodeSpaces request.target) true with
      | none => exact keepsIn_pure _
      | some suffix =>
          dsimp only
          split
          · refine keepsIn_bind (readFromFile_keeps hfolder.refl).keepsIn fun page => ?_
            split <;> exact keepsIn_pure _
          · split
            · exact (getIpFileList_keeps hfolder.refl).keepsIn
            · exact getTitleFile_keeps hfolder.refl fun h => by cases h
  | delete =>
      dsimp only
      unfold handleDeleteRequest
      cases hurl : handler.checkRequestUrl (decodeSpaces request.target) false with
      | none => exact keepsIn_pure _
      | some suffix => exact getTitleFile_keeps hfolder.refl fun _ => hremoval hmethod suffix hurl
  | options => exact keepsIn_pure _
  | put | head | trace | other => exact keepsIn_pure _

/-- A DELETE may remove what its target names in the folder of its client. -/
def Removes (handler : RequestHandler) (clientIp : Str) (request : Request) (cwd p : Path) : Prop :=
  request.method = .delete ∧ ∃ suffix,
    handler.checkRequestUrl (decodeSpaces request.target) false = some suffix ∧
      p = placeOf cwd (folderOf handler clientIp ++ '/' :: suffix)

/-- Other directories stay. -/
theorem handleRequest_growsBut {gone : Path → Path → Prop} {apiReply : Option Str}
    (hgone : ∀ cwd p, Removes handler clientIp request cwd p → gone cwd p) :
    (handleRequest host handler clientIp apiReply request response).Keeps (GrowsBut gone) := by
  have hkeeps : (handleRequest host handler clientIp apiReply request response).KeepsIn
      (fun _ => True) (GrowsBut gone) :=
    handleRequest_keeps (allows_growsBut _) (fun _ _ => allows_growsBut _)
      fun hm suffix ht _ _ _ => removal_growsBut fun cwd => hgone cwd _ ⟨hm, suffix, ht, rfl⟩
  exact hkeeps.keeps fun _ => trivial

end Keeps

end Googolplex.TextGen.Concurrent
