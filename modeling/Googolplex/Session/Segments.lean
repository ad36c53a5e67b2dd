/-
  File:      Googolplex/Session/Segments.lean
  Subject:   HOW TCP CUTS A CONNECTION (one fresh parser for each read).

  A request on the wire is a text that `put` takes whole. A connection carries
  the texts of its requests one after the other, in reads of any size.

  * `handleRead_text`: a read with no zero in it that does not fill the buffer is
    answered from its own bytes.
  * `one_reply_each`: if each read is one whole request, each request gets the
    reply it gets alone; and there are never more or fewer replies than reads.
  * `cut_body_not_exact`: of a POST cut in its body the handler is given half.
-/
import Googolplex.Library.Machine
import Googolplex.Session
import Googolplex.Crud.Handler

namespace Googolplex

open Cxx Machine

/-! ## 1. Requests on the wire -/

/-- Whether a field has a name, in upper or lower case. -/
def isField (name : Str) (field : Str × Str) : Bool := field.1.map Char.toLower = name.map Char.toLower

/-- The body is as long as Content-Length says, and empty without one. (A body that is sent in chunks
    is not looked at.) -/
def Request.ExactBody (request : Request) : Prop :=
  match request.fields.find? (isField "Content-Length".toList) with
  | some field => field.2 = decimal request.body.length
  | none => request.body = []

/-- A complete, well-formed request. -/
structure Sent (beast : Beast) where
  text : Str
  request : Request
  complete : beast.put text = ⟨text.length, none, request⟩
  exact : request.ExactBody

section

variable {World : Type} (server : Server World)

/-- The reply to a request alone, and its effect. -/
def answerAlone (world : World) (sent : Sent server.beast) : Except Fault (World × Str) :=
  match respond server world (some sent.request) with
  | .error f => .error f
  | .ok (world, response) => .ok (world, server.beast.write response)

/-- The request a read has a handler invoked with, if it has one invoked; each read finds the
    buffer cleared. -/
def invoked (read : Read) : Except Fault (Option Request) :=
  match parseRequest server.beast (Buffer.zero.fill read) read.bytes.length with
  | .error f => .error f
  | .ok none => .ok none
  | .ok (some request) =>
    match searchAddrBinding server.routes (request.target ++ ['/']) with
    | none => .ok none
    | some _ => .ok (some request)

/-- **One reply for each request, in order**, with the effect it has alone, and only exact bodies
    for the handlers. -/
structure OneReplyEach (world : World) (sent : List (Sent server.beast)) (reads : List Read) : Prop where
  replies : (run (handleRead server) ⟨world, Buffer.zero⟩ reads).map (fun v => (v.1.world, v.2)) =
    run (answerAlone server) world sent
  bodies : ∀ read ∈ reads, ∀ request, invoked server read = .ok (some request) → request.ExactBody

/-- **Each read is one whole request**, which leaves room for a zero in the buffer and holds
    none. -/
def Aligned {beast : Beast} (sent : List (Sent beast)) (reads : List Read) : Prop :=
  List.Forall₂ (fun (r : Sent beast) (read : Read) => read.bytes = r.text ∧
    r.text.length < maxLength ∧ '\x00' ∉ r.text) sent reads

/-! ## 2. One read -/

variable {server} {world : World} {read : Read}

/-- What `parse_request` is given of a read that ends before the buffer does. -/
theorem string_fill (hlen : read.bytes.length < maxLength) (hzero : '\x00' ∉ read.bytes) :
    (Buffer.zero.fill read).string = .ok read.bytes := by
  have hdrop : (List.replicate maxLength '\x00').drop read.bytes.length =
      '\x00' :: List.replicate (maxLength - read.bytes.length - 1) '\x00' := by
    rw [List.drop_replicate, ← List.replicate_succ]
    congr 1
    omega
  have hchars : (Buffer.zero.fill read).chars =
      read.bytes ++ '\x00' :: List.replicate (maxLength - read.bytes.length - 1) '\x00' := by
    rw [← hdrop]
    rfl
  unfold Buffer.string
  rw [hchars, if_pos (by simp)]
  congr 1
  rw [List.takeWhile_append_of_pos fun c hc => by
    have hne : c ≠ '\x00' := fun he => hzero (he ▸ hc)
    simpa using hne]
  simp

theorem parseRequest_fill {beast : Beast} (hlen : read.bytes.length < maxLength)
    (hzero : '\x00' ∉ read.bytes) :
    parseRequest beast (Buffer.zero.fill read) read.bytes.length =
      .ok (if (beast.put read.bytes).ec ≠ none then none else some (beast.put read.bytes).message) := by
  unfold parseRequest
  rw [if_neg (by omega), string_fill hlen hzero]
  dsimp only
  split <;> rfl

/-- **A read is answered from its own bytes**, by a fresh parser. -/
theorem handleRead_text (hlen : read.bytes.length < maxLength) (hzero : '\x00' ∉ read.bytes) :
    handleRead server ⟨world, Buffer.zero⟩ read =
      match respond server world (if (server.beast.put read.bytes).ec ≠ none then none
        else some (server.beast.put read.bytes).message) with
      | .error f => .error f
      | .ok (world, response) => .ok (⟨world, Buffer.zero⟩, server.beast.write response) := by
  unfold handleRead getReply generateResponse
  dsimp only
  rw [parseRequest_fill hlen hzero]
  dsimp only
  cases respond server world _ <;> rfl

/-- A read that is a whole request is answered as the request alone. -/
theorem handleRead_whole (r : Sent server.beast) (htext : read.bytes = r.text)
    (hlen : r.text.length < maxLength) (hzero : '\x00' ∉ r.text) :
    handleRead server ⟨world, Buffer.zero⟩ read =
      (answerAlone server world r).map fun v => (⟨v.1, Buffer.zero⟩, v.2) := by
  rw [← htext] at hlen hzero
  rw [handleRead_text hlen hzero, htext, r.complete]
  unfold answerAlone
  dsimp only
  rw [if_neg (by simp)]
  cases respond server world (some r.request) <;> rfl

/-- A read that is a whole request has a handler invoked with that request. -/
theorem invoked_whole (r : Sent server.beast) (htext : read.bytes = r.text)
    (hlen : r.text.length < maxLength) (hzero : '\x00' ∉ r.text) {request : Request}
    (h : invoked server read = .ok (some request)) : request = r.request := by
  rw [← htext] at hlen hzero
  unfold invoked at h
  rw [parseRequest_fill hlen hzero, htext, r.complete, if_neg (by simp)] at h
  dsimp only at h
  split at h
  · cases h
  · exact (Option.some.inj (Except.ok.inj h)).symm

/-! ## 3. A connection -/

variable {sent : List (Sent server.beast)} {reads : List Read}

/-- The replies to reads that are whole requests. -/
theorem replies_of_aligned (h : Aligned sent reads) : ∀ world : World,
    (run (handleRead server) ⟨world, Buffer.zero⟩ reads).map (fun v => (v.1.world, v.2)) =
      run (answerAlone server) world sent := by
  induction h with
  | nil => exact fun _ => rfl
  | @cons r read sent reads hr _ ih =>
      intro world
      obtain ⟨htext, hlen, hzero⟩ := hr
      have hstep : handleRead server ⟨world, Buffer.zero⟩ read = _ :=
        handleRead_whole r htext hlen hzero
      unfold run
      rw [hstep]
      cases answerAlone server world r with
      | error f => rfl
      | ok v =>
          have hrest := ih v.1
          dsimp only [Except.map] at hrest ⊢
          rw [← hrest]
          cases run (handleRead server) ⟨v.1, Buffer.zero⟩ reads <;> rfl

/-- The requests handlers are invoked with, if the reads are whole requests. -/
theorem bodies_of_aligned (h : Aligned sent reads) : ∀ read ∈ reads, ∀ request,
    invoked server read = .ok (some request) → request.ExactBody := by
  induction h with
  | nil =>
      intro read hread
      cases hread
  | @cons r read sent reads hr _ ih =>
      intro read' hread' request hreq
      rcases List.mem_cons.mp hread' with rfl | hmem
      · obtain ⟨htext, hlen, hzero⟩ := hr
        rw [invoked_whole r htext hlen hzero hreq]
        exact r.exact
      · exact ih read' hmem request hreq

/-- **One reply for each request, if each read is one whole request**; and where the requests get
    through alone, one reply for each only if there are as many reads as requests. -/
theorem one_reply_each (server : Server World) (world : World) (sent : List (Sent server.beast))
    (reads : List Read) :
    (Aligned sent reads → OneReplyEach server world sent reads) ∧
      (OneReplyEach server world sent reads →
        (∃ v, run (answerAlone server) world sent = .ok v) → reads.length = sent.length) := by
  constructor
  · intro h
    exact ⟨replies_of_aligned h world, bodies_of_aligned h⟩
  · intro ⟨hreplies, _⟩ ⟨v, hv⟩
    rw [hv] at hreplies
    cases hrun : run (handleRead server) ⟨world, Buffer.zero⟩ reads with
    | error f =>
        rw [hrun] at hreplies
        cases hreplies
    | ok w =>
        rw [hrun] at hreplies
        have houts : w.2 = v.2 := congrArg Prod.snd (Except.ok.inj hreplies)
        rw [← run_length hrun, houts, run_length hv]

end

/-! ## 4. A POST cut in its body -/

section Cut

/-- The lines of a header, and what comes after its empty line. -/
def splitHeader : Str → Option (Str × Str)
  | '\r' :: '\n' :: '\r' :: '\n' :: rest => some ([], rest)
  | c :: rest => (splitHeader rest).map fun (header, body) => (c :: header, body)
  | [] => none

/-- `name: value`. -/
def fieldOf (line : Str) : Str × Str :=
  (line.takeWhile (· ≠ ':'), ((line.dropWhile (· ≠ ':')).drop 2).takeWhile (· ≠ '\r'))

/-- The methods by name. -/
def verbOf (name : Str) : Verb :=
  if name = "GET".toList then .get
  else if name = "POST".toList then .post
  else if name = "PUT".toList then .put
  else if name = "DELETE".toList then .delete
  else .other name

/-- A small library: a request line, fields, and a body of at most Content-Length characters, which
    need not all be there. -/
def plainBeast : Beast where
  put text :=
    match splitHeader text with
    | none => ⟨0, some .needMore, ⟨.get, [], [], []⟩⟩
    | some (header, rest) =>
      match header.splitOn '\n' with
      | [] => ⟨0, some (.other "bad_method".toList), ⟨.get, [], [], []⟩⟩
      | line :: lines =>
        match line.splitOn ' ' with
        | [method, target, _] =>
          let fields := lines.map fieldOf
          let length : Nat :=
            match (fields.lookup "Content-Length".toList).map stoi with
            | some (.ok v) => v.toNat
            | _ => 0
          let body := rest.take length
          ⟨header.length + 4 + body.length, none, ⟨verbOf method, target, fields, body⟩⟩
        | _ => ⟨0, some (.other "bad_version".toList), ⟨.get, [], [], []⟩⟩
  write response := decimal response.result.toNat ++ ' ' :: response.body

open Crud in
/-- The CRUD location alone. -/
def apiServer : Server CrudState where
  beast := plainBeast
  routes := (∅ : Routes CrudState).insert "/api".toList
    ⟨fun _ s request response => Crud.handleRequest apiHandler Disk.reliable s request response⟩
  clientIp := "10.0.0.1".toList

/-- `POST /api/e` with the body `AB`. -/
def postAB : Sent apiServer.beast where
  text := "POST /api/e HTTP/1.1\r\nContent-Length: 2\r\n\r\nAB".toList
  request := ⟨.post, "/api/e".toList, [("Content-Length".toList, "2".toList)], "AB".toList⟩
  complete := by decide
  exact := by
    show "2".toList = decimal 2
    decide

/-- It arrives whole. -/
def readAB : Read where
  bytes := postAB.text
  nonempty := by decide
  fits := by decide

/-- `GET /api/e/1`, of what was posted. -/
def getAB : Sent apiServer.beast where
  text := "GET /api/e/1 HTTP/1.1\r\nHost: a\r\n\r\n".toList
  request := ⟨.get, "/api/e/1".toList, [("Host".toList, "a".toList)], []⟩
  complete := by decide
  exact := rfl

/-- It arrives in a read of its own. -/
def readGet : Read where
  bytes := getAB.text
  nonempty := by decide
  fits := by decide

/-- `one_reply_each` for the two, one after the other. -/
theorem one_reply_each_whole : Aligned [postAB, getAB] [readAB, readGet] ∧
    OneReplyEach apiServer Crud.apiStart [postAB, getAB] [readAB, readGet] := by
  have haligned : Aligned [postAB, getAB] [readAB, readGet] :=
    .cons ⟨rfl, by decide, by decide⟩ (.cons ⟨rfl, by decide, by decide⟩ .nil)
  exact ⟨haligned, (one_reply_each apiServer Crud.apiStart _ _).1 haligned⟩

/-- It arrives up to the first character of its body. -/
def readA : Read where
  bytes := postAB.text.dropLast
  nonempty := by decide
  fits := by decide

/-- The last character. -/
def readB : Read where
  bytes := "B".toList
  nonempty := by decide
  fits := by decide

/-- **A POST cut in its body**: the handler is given half of it. -/
theorem cut_body_not_exact : readA.bytes ++ readB.bytes = postAB.text ∧
    ¬ OneReplyEach apiServer Crud.apiStart [postAB] [readA, readB] := by
  refine ⟨by decide, fun h => ?_⟩
  have hinvoked : invoked apiServer readA =
      .ok (some { postAB.request with body := "A".toList }) := by decide +kernel
  have hexact := h.bodies readA List.mem_cons_self _ hinvoked
  have hlength : "2".toList = decimal 1 := hexact
  exact absurd hlength (by decide)

end Cut

end Googolplex
