/-
  File:      Googolplex/Dispatcher/Replies.lean
  Subject:   REPLIES ON A CONNECTION that stays open: where each of them ends.

  A response is written as a status line, its fields, an empty line and its body;
  what tells the length of the body is Content-Length, or a status that has none.

  * `Response.text`: how a response is written.
  * `framed_delimits`: where the length is told, a reply can be told from what follows.
  * `handle_framed`: every handler tells it, on every exit.
  * `replies_delimited_iff`: so does a connection, if and only if each of its reads
    gets as far as a handler.
-/
import Googolplex.Crud.Answers
import Googolplex.Dispatcher.Exceptions
import Googolplex.Library.Framing
import Googolplex.Session.Segments

namespace Googolplex

open Cxx Posix RequestHandler Machine Framing
open Config (ConfigArg AddrMap)
open TextGen (Ipv4)

/-! ## 1. How a response is written -/

/-- The end of a line. -/
def crlf : Str := ['\r', '\n']

/-- The reason phrase. -/
def Status.reason : Status → Str
  | .ok => "OK".toList
  | .created => "Created".toList
  | .noContent => "No Content".toList
  | .badRequest => "Bad Request".toList
  | .notFound => "Not Found".toList
  | .unprocessableEntity => "Unprocessable Entity".toList
  | .internalServerError => "Internal Server Error".toList

/-- The name of a field. -/
def Field.name : Field → Str
  | .contentType => "Content-Type".toList
  | .contentLength => "Content-Length".toList
  | .accessControlAllowOrigin => "Access-Control-Allow-Origin".toList
  | .accessControlAllowMethods => "Access-Control-Allow-Methods".toList
  | .accessControlAllowHeaders => "Access-Control-Allow-Headers".toList

/-- The status line without its end. -/
def statusLine (status : Status) : Str :=
  "HTTP/1.1 ".toList ++ decimal status.toNat ++ ' ' :: status.reason

/-- The line of a field without its end. -/
def fieldLine (field : Field × Str) : Str := field.1.name ++ ':' :: ' ' :: field.2

/-- The fields up to the empty line. -/
def fieldLines (fields : List (Field × Str)) : Str :=
  fields.flatMap (fun field => fieldLine field ++ crlf) ++ crlf

/-- `oss << response`. -/
def Response.text (response : Response) : Str :=
  ((statusLine response.result ++ crlf) ++ fieldLines response.fields) ++ response.body

/-! ## 2. Where a reply ends -/

namespace Response

/-- Content-Length is there once, and is the length of the body. -/
def Lengthed (response : Response) : Prop :=
  ∀ v, (Field.contentLength, v) ∈ response.fields ↔ v = decimal response.body.length

/-- **The response tells where it ends**: by its Content-Length, or it has a status that forbids a
    body, and none. -/
def Delimited (response : Response) : Prop :=
  response.Lengthed ∨ (response.result = .noContent ∧ response.body = [])

/-- The fields are lines. -/
def Plain (response : Response) : Prop := ∀ field ∈ response.fields, '\r' ∉ field.2

/-- A response that can be read back. -/
structure Framed (response : Response) : Prop where
  delimited : response.Delimited
  plain : response.Plain
  bodiless : response.result = .noContent → response.body = []

end Response

/-- **The one way to read a text as replies**. -/
structure SplitsInto (text : Str) (responses : List Response) : Prop where
  framed : ∀ response ∈ responses, response.Framed
  text_eq : responses.flatMap Response.text = text
  unique : ∀ others : List Response, (∀ other ∈ others, other.Framed) →
    others.flatMap Response.text = text → others = responses

theorem Status.toNat_injective {s s' : Status} (h : s.toNat = s'.toNat) : s = s' := by
  cases s <;> cases s' <;> first | rfl | cases h

theorem Field.name_injective {f f' : Field} (h : f.name = f'.name) : f = f' := by
  cases f <;> cases f' <;> first | rfl | exact absurd h (by decide)

theorem Field.name_plain (f : Field) : '\r' ∉ f.name ∧ ':' ∉ f.name := by
  cases f <;> decide

theorem decimal_no {n : Nat} {c : Char} (hc : c.isDigit = false) : c ∉ decimal n := by
  intro hmem
  rw [isDigit_of_mem_decimal hmem] at hc
  cases hc

/-- A line with its end can be told from what follows it. -/
theorem delimits_line {M : Type} {good : M → Prop} {line : M → Str}
    (hplain : ∀ m, good m → '\r' ∉ line m) (hinj : ∀ m m', line m = line m' → m = m') :
    Delimits good fun m => line m ++ crlf := by
  intro m m' x y hm hm' heq
  rw [List.append_assoc, List.append_assoc] at heq
  obtain ⟨hline, hrest⟩ := cut_first (hplain m hm) (hplain m' hm') heq
  exact ⟨hinj m m' hline, (List.cons.inj hrest).2⟩

theorem statusLine_plain (status : Status) : '\r' ∉ statusLine status := by
  cases status <;> decide

theorem statusLine_injective {s s' : Status} (h : statusLine s = statusLine s') : s = s' := by
  unfold statusLine at h
  rw [List.append_assoc, List.append_assoc] at h
  obtain ⟨hcode, _⟩ := cut_first (decimal_no rfl) (decimal_no rfl) (List.append_cancel_left h)
  exact Status.toNat_injective (decimal_injective hcode)

theorem fieldLine_plain {field : Field × Str} (h : '\r' ∉ field.2) : '\r' ∉ fieldLine field := by
  unfold fieldLine
  simp only [List.mem_append, List.mem_cons, not_or]
  exact ⟨field.1.name_plain.1, by decide, by decide, h⟩

theorem fieldLine_injective {f f' : Field × Str} (h : fieldLine f = fieldLine f') : f = f' := by
  obtain ⟨hname, hvalue⟩ := cut_first f.1.name_plain.2 f'.1.name_plain.2 h
  exact Prod.ext (Field.name_injective hname) (List.cons.inj hvalue).2

/-- No field looks like the empty line. -/
theorem fieldLine_not_empty {f : Field × Str} (hplain : '\r' ∉ f.2) (x y : Str) :
    fieldLine f ++ crlf ++ x ≠ crlf ++ y := by
  intro h
  rw [List.append_assoc] at h
  obtain ⟨hnil, _⟩ := cut_first (fieldLine_plain hplain) List.not_mem_nil
    (show fieldLine f ++ '\r' :: '\n' :: x = [] ++ '\r' :: '\n' :: y from h)
  exact absurd (List.append_eq_nil_iff.mp hnil).2 (List.cons_ne_nil _ _)

/-- **Where the length is told**, a reply can be told from what follows it. -/
theorem framed_delimits : Delimits Response.Framed Response.text := by
  have hstatus : Delimits (fun _ => True) fun s => statusLine s ++ crlf :=
    delimits_line (fun s _ => statusLine_plain s) fun _ _ => statusLine_injective
  have hfield : Delimits (fun f : Field × Str => '\r' ∉ f.2) fun f => fieldLine f ++ crlf :=
    delimits_line (fun _ => fieldLine_plain) fun _ _ => fieldLine_injective
  have hheader := hstatus.pair (hfield.lines fun _ x y hf => fieldLine_not_empty hf x y)
  refine hheader.body (fun r : Response => (r.result, r.fields))
    (fun r hr => ⟨trivial, hr.plain⟩) (fun r r' hr hr' heq => ?_) fun r r' heq hbody => ?_
  · obtain ⟨hresult, hfields⟩ := Prod.mk.inj heq
    by_cases hno : r.result = .noContent
    · rw [hr.bodiless hno, hr'.bodiless (hresult.symm.trans hno)]
    · have hlen : r.Lengthed := hr.delimited.resolve_right fun h => hno h.1
      have hlen' : r'.Lengthed := hr'.delimited.resolve_right fun h => hno (hresult.trans h.1)
      have hmem := (hlen _).mpr rfl
      rw [hfields] at hmem
      exact decimal_injective ((hlen' _).mp hmem)
  · obtain ⟨hresult, hfields⟩ := Prod.mk.inj heq
    obtain ⟨result, fields, body⟩ := r
    obtain ⟨result', fields', body'⟩ := r'
    cases hresult
    cases hfields
    cases hbody
    rfl

theorem text_ne_nil (response : Response) : response.text ≠ [] := by
  unfold Response.text
  intro h
  have hline := (List.append_eq_nil_iff.mp (List.append_eq_nil_iff.mp h).1).1
  exact absurd (List.append_eq_nil_iff.mp hline).2 (by decide)

/-- **Replies that tell their length** are read back in one way. -/
theorem splitsInto_of_framed {responses : List Response} (h : ∀ r ∈ responses, r.Framed) :
    SplitsInto (responses.flatMap Response.text) responses where
  framed := h
  text_eq := rfl
  unique _ hothers heq := framed_delimits.flatMap (fun r _ => text_ne_nil r) hothers h heq

/-! ## 3. What the handlers answer with -/

section Handlers

variable {response r : Response} {b : Bool} {field : Field} {v : Str}

theorem Response.Plain.set (h : response.Plain) (hv : '\r' ∉ v) : (response.set field v).Plain := by
  intro f hf
  rcases List.mem_append.mp hf with hf | hf
  · exact h f (List.mem_of_mem_filter hf)
  · rw [List.mem_singleton.mp hf]
    exact hv

theorem preparePayload_lengthed (response : Response) : response.preparePayload.Lengthed := by
  intro v
  show (Field.contentLength, v) ∈ response.fields.filter (·.1 ≠ .contentLength) ++
    [(.contentLength, decimal response.body.length)] ↔ v = decimal response.body.length
  simp

/-- **After `prepare_payload`** the length is told. -/
theorem framed_payload (response : Response) (h : response.Plain) (hstatus : response.result ≠ .noContent) :
    response.preparePayload.Framed where
  delimited := Or.inl (preparePayload_lengthed response)
  plain := h.set (decimal_no rfl)
  bodiless hno := absurd hno hstatus

theorem framed_answer {status : Status} {contentType body : Str} (h : response.Plain)
    (hstatus : status ≠ .noContent) (htype : '\r' ∉ contentType) :
    (response.answer status contentType body).Framed :=
  framed_payload { ({ response with result := status } : Response).set .contentType contentType with
    body := body } (Response.Plain.set h htype) hstatus

theorem getContentType_plain (extension : Str) : '\r' ∉ getContentType extension := by
  have hall : ∀ entry ∈ contentTypeMap, '\r' ∉ entry.2 := by decide
  unfold getContentType
  cases hl : contentTypeMap.lookup extension with
  | none => exact (by decide : '\r' ∉ "text/plain".toList)
  | some contentType =>
      obtain ⟨_, _, hsplit, _⟩ := List.lookup_eq_some_iff.mp hl
      exact hall (extension, contentType) (by rw [hsplit]; simp)

/-! ### Static -/

theorem static_framed {handler : RequestHandler} {files : FileTree} {request : Request}
    (hplain : response.Plain) (h : Static.handleRequest handler files request response = .ok (r, b)) :
    r.Framed := by
  have hnotFound : (Static.notFound response).Framed := framed_answer hplain (by decide) (by decide)
  unfold Static.handleRequest at h
  split at h
  · cases h
    exact hnotFound
  · split at h
    · cases h
    · rename_i path _ _ _ _
      cases h
      have hset : (Static.setContentType path { response with result := .ok }).Plain :=
        Response.Plain.set hplain (getContentType_plain _)
      exact framed_payload _ hset nofun
    · cases h
      exact hnotFound

/-! ### CRUD -/

theorem crudAnswer_framed (hplain : response.Plain) (h : Crud.Answer response r) : r.Framed := by
  induction h with
  | created value => exact framed_answer hplain (by decide) (by decide)
  | updated value => exact framed_payload _ hplain nofun
  | listed body => exact framed_answer hplain (by decide) (by decide)
  | content body => exact framed_payload _ hplain nofun
  | unprocessable => exact framed_answer hplain (by decide) (by decide)
  | notFound => exact framed_answer hplain (by decide) (by decide)
  | internal => exact framed_answer hplain (by decide) (by decide)
  | noFileId => exact framed_answer hplain (by decide) (by decide)
  | overwritten _ ih => exact framed_answer ih.plain (by decide) (by decide)

theorem crud_framed {handler : RequestHandler} {disk : Disk} {c c' : Crud.CrudState}
    {request : Request} (hplain : response.Plain)
    (h : Crud.handleRequest handler disk c request response = .ok (c', r, b)) : r.Framed := by
  rcases Crud.handleRequest_answer h with hanswer | ⟨rfl, _⟩
  · exact crudAnswer_framed hplain hanswer
  · exact framed_answer hplain (by decide) (by decide)

/-! ### TextGen -/

section

variable {host : TextGen.Host} {handler : RequestHandler} {clientIp : Str} {files files' : FileTree}
  {request : Request}

theorem badRequest_framed (hplain : response.Plain) :
    (TextGen.prepareBadRequestResponse response).Framed :=
  framed_answer hplain (by decide) (by decide)

theorem notFound_framed (hplain : response.Plain) :
    (TextGen.prepareNotFoundResponse response).Framed :=
  framed_answer hplain (by decide) (by decide)

theorem internal_framed (hplain : response.Plain) :
    (TextGen.prepareInternalServerErrorResponse response).Framed :=
  framed_answer hplain (by decide) (by decide)

/-- A body overwritten after the payload was prepared is prepared again. -/
theorem overwrite_framed {msg : Str} (h : response.Framed) (hstatus : response.result ≠ .noContent) :
    (TextGen.overwriteBody response msg).Framed :=
  framed_payload { response with body := msg } h.plain hstatus

theorem json_framed {j : Json.Value} (hplain : response.Plain)
    (h : TextGen.jsonAnswer host files j response = .ok (files', r, b)) : r.Framed := by
  unfold TextGen.jsonAnswer at h
  split at h
  · cases h
  · cases h
    exact framed_answer hplain (by decide) (by decide)

theorem title_framed {path suffix : Str} {remove : Bool} (hplain : response.Plain)
    (h : TextGen.getTitleFile host clientIp files path suffix response remove = .ok (files', r, b)) :
    r.Framed := by
  unfold TextGen.getTitleFile at h
  split at h
  · dsimp only at h
    split at h
    · split at h
      · exact json_framed hplain h
      · split at h
        · cases h
        · exact json_framed hplain h
    · cases h
      exact notFound_framed hplain
  · cases h
    exact notFound_framed hplain

theorem list_framed {path : Str} (hplain : response.Plain)
    (h : TextGen.getIpFileList host clientIp files path response = .ok (files', r, b)) :
    r.Framed := by
  unfold TextGen.getIpFileList at h
  split at h
  · split at h
    · exact json_framed hplain h
    · cases h
      exact notFound_framed hplain
  · cases h
    exact notFound_framed hplain

theorem textGet_framed (hplain : response.Plain)
    (h : TextGen.handleGetRequest host handler clientIp files request response =
      .ok (files', r, b)) : r.Framed := by
  unfold TextGen.handleGetRequest at h
  split at h
  · cases h
    exact badRequest_framed hplain
  · dsimp only at h
    split at h
    · split at h
      · cases h
      · cases h
        exact framed_answer hplain (by decide) (by decide)
      · cases h
        exact internal_framed hplain
    · split at h
      · exact list_framed hplain h
      · exact title_framed hplain h

theorem textPost_framed {reply : Option Str} (hplain : response.Plain)
    (h : TextGen.handlePostRequest host handler clientIp reply files request response =
      .ok (files', r, b)) : r.Framed := by
  unfold TextGen.handlePostRequest at h
  split at h
  · cases h
    exact overwrite_framed (badRequest_framed hplain) nofun
  · dsimp only at h
    split at h
    · cases h
      exact overwrite_framed (badRequest_framed hplain) nofun
    · split at h
      · cases h
        exact overwrite_framed (internal_framed hplain) nofun
      · rename_i output _
        -- the output is in the response before the entry is stored
        have hanswer : (response.answer .ok "text/plain".toList output).Framed :=
          framed_answer hplain (by decide) (by decide)
        split at h
        · cases h
        · cases h
          exact hanswer
        · cases h
          exact overwrite_framed (internal_framed hanswer.plain) nofun

/-- OPTIONS is answered without a length, and without a body. -/
theorem options_framed (hplain : response.Plain) (hempty : response.body = [])
    (h : TextGen.handleOptionsRequest files response = .ok (files', r, b)) : r.Framed := by
  unfold TextGen.handleOptionsRequest at h
  cases h
  have hplain' : ({ response with result := .noContent } : Response).Plain := hplain
  exact ⟨Or.inr ⟨rfl, hempty⟩, ((hplain'.set (by decide)).set (by decide)).set (by decide),
    fun _ => hempty⟩

theorem textGen_framed {reply : Option Str} (hplain : response.Plain) (hempty : response.body = [])
    (h : TextGen.handleRequest host handler clientIp reply files request response =
      .ok (files', r, b)) : r.Framed := by
  unfold TextGen.handleRequest at h
  split at h
  · exact textPost_framed hplain h
  · exact textGet_framed hplain h
  · unfold TextGen.handleDeleteRequest at h
    split at h
    · cases h
      exact overwrite_framed (badRequest_framed hplain) nofun
    · exact title_framed hplain h
  · exact options_framed hplain hempty h
  · cases h
    exact badRequest_framed hplain

end

/-! ### All of them -/

/-- **Every exit of every handler** tells where its response ends. -/
theorem handle_framed {platform : Platform} {location clientIp : Str} {arg : ConfigArg}
    {s s' : ServerState} {request : Request} (hplain : response.Plain) (hempty : response.body = [])
    (h : handle platform location arg clientIp s request response = .ok (s', r, b)) : r.Framed := by
  unfold handle at h
  dsimp only at h
  split at h
  · split at h
    · cases h
    · rename_i hstatic
      cases h
      exact static_framed hplain hstatic
  · cases h
    exact framed_answer hplain (by decide) (by decide)
  · split at h
    · cases h
    · rename_i hcrud
      cases h
      exact crud_framed hplain hcrud
  · cases h
    exact framed_answer hplain (by decide) (by decide)
  · cases h
    exact framed_answer hplain (by decide) (by decide)
  · split at h
    · cases h
    · split at h
      · cases h
      · rename_i htextGen
        cases h
        exact textGen_framed hplain hempty htextGen
  · cases h
    exact framed_answer hplain (by decide) (by decide)

end Handlers

/-! ## 4. What the session answers with -/

section Session

variable {platform : Platform} {addrmap : AddrMap} {client : Ipv4}

theorem freshResponse_plain : freshResponse.Plain := by
  unfold Response.Plain
  decide

/-- **The session's own answer** does not tell where it ends. -/
theorem unrouted_not_delimited :
    ¬ ({ freshResponse with result := .badRequest } : Response).Delimited := by
  intro h
  rcases h with h | ⟨h, _⟩
  · have hmem := (h (decimal 0)).mpr rfl
    exact absurd hmem (by decide)
  · cases h

/-- A request that gets as far as a handler. -/
def Routed (addrmap : AddrMap) (platform : Platform) (request : Request) : Prop :=
  ∃ location, searchAddrBinding (routesOf platform addrmap) (request.target ++ ['/']) = some location

/-- **The answer to what was parsed**: it tells where it ends if and only if a handler gave it. -/
theorem respond_delimited {parsed : Option Request} {s s' : ServerState} {r : Response}
    (h : respond (serverOf platform addrmap client) s parsed = .ok (s', r)) :
    ((∃ request, parsed = some request ∧ Routed addrmap platform request) → r.Framed) ∧
      (¬ (∃ request, parsed = some request ∧ Routed addrmap platform request) → ¬ r.Delimited) := by
  cases parsed with
  | none =>
      cases h
      refine ⟨fun ⟨_, hsome, _⟩ => ?_, fun _ => unrouted_not_delimited⟩
      cases hsome
  | some request =>
      cases hfound : searchAddrBinding (routesOf platform addrmap) (request.target ++ ['/']) with
      | none =>
          have hanswer : answerClient platform addrmap s (client, request) = _ :=
            answerClient_unrouted hfound
          rw [show answerClient platform addrmap s (client, request) = .ok (s', r) from h] at hanswer
          cases hanswer
          refine ⟨fun ⟨_, hsome, location, hloc⟩ => ?_, fun _ => unrouted_not_delimited⟩
          cases hsome
          rw [hfound] at hloc
          cases hloc
      | some location =>
          obtain ⟨arg, harg⟩ := exists_entry hfound
          have hanswer : answerClient platform addrmap s (client, request) = _ :=
            answerClient_routed hfound harg
          rw [show answerClient platform addrmap s (client, request) = .ok (s', r) from h] at hanswer
          refine ⟨fun _ => ?_, fun hno => absurd ⟨request, rfl, location, hfound⟩ hno⟩
          cases hh : handle platform location arg client.text s request freshResponse with
          | error f =>
              rw [hh] at hanswer
              cases hanswer
          | ok v =>
              obtain ⟨s'', r', b⟩ := v
              rw [hh] at hanswer
              cases hanswer
              exact handle_framed freshResponse_plain rfl hh

/-- A read completes: the response to it. -/
def answerRead {World : Type} (server : Server World) (session : Session World) (read : Read) :
    Except Fault (Session World × Response) :=
  match generateResponse server session.world (session.inData.fill read) read.bytes.length with
  | .error f => .error f
  | .ok (world, response) => .ok (⟨world, Buffer.zero⟩, response)

/-- The reply is the response, written. -/
theorem handleRead_eq {World : Type} (server : Server World) : handleRead server =
    fun session read => (answerRead server session read).map fun v => (v.1, server.beast.write v.2) := by
  funext session read
  unfold handleRead getReply answerRead
  dsimp only
  cases generateResponse server session.world (session.inData.fill read) read.bytes.length <;> rfl

/-- The read has a handler invoked. -/
def Handled {World : Type} (server : Server World) (read : Read) : Prop :=
  ∃ request, invoked server read = .ok (some request)

/-- **One read**, into a buffer that was cleared: the response tells where it ends if and only if the
    read has a handler invoked. -/
theorem answerRead_delimited {session session' : Session ServerState} {read : Read} {r : Response}
    (hzero : session.inData = Buffer.zero)
    (h : answerRead (serverOf platform addrmap client) session read = .ok (session', r)) :
    session'.inData = Buffer.zero ∧
      (r.Framed ↔ Handled (serverOf platform addrmap client) read) ∧
      (r.Delimited ↔ Handled (serverOf platform addrmap client) read) := by
  unfold answerRead generateResponse at h
  rw [hzero] at h
  cases hp : parseRequest (serverOf platform addrmap client).beast (Buffer.zero.fill read)
      read.bytes.length with
  | error f =>
      rw [hp] at h
      cases h
  | ok parsed =>
      rw [hp] at h
      dsimp only at h
      have hhandled : Handled (serverOf platform addrmap client) read ↔
          ∃ request, parsed = some request ∧ Routed addrmap platform request := by
        have hroutes : (serverOf platform addrmap client).routes = routesOf platform addrmap := rfl
        unfold Handled invoked Routed
        rw [hp, hroutes]
        cases parsed with
        | none => simp
        | some request =>
            dsimp only
            cases hloc : searchAddrBinding (routesOf platform addrmap) (request.target ++ ['/']) <;>
              simp [hloc]
      cases hr : respond (serverOf platform addrmap client) session.world parsed with
      | error f =>
          rw [hr] at h
          cases h
      | ok v =>
          obtain ⟨s', r'⟩ := v
          rw [hr] at h
          cases h
          rw [hhandled]
          obtain ⟨hyes, hno⟩ := respond_delimited hr
          exact ⟨rfl, ⟨fun h => by_contra fun hn => hno hn h.delimited, hyes⟩,
            ⟨fun h => by_contra fun hn => hno hn h, fun h => (hyes h).delimited⟩⟩

/-- **When the replies on a connection can be told apart**: its reads, one after the other, are
    answered with responses that tell where they end, and so the replies can be split in one way
    only, if and only if each of the reads has a handler invoked. -/
theorem replies_delimited_iff (platform : Platform) (addrmap : AddrMap) (client : Ipv4)
    (s : ServerState) (reads : List Read) {session : Session ServerState} {replies : List Str}
    (hwrite : ∀ response : Response, platform.beast.write response = response.text)
    (hrun : run (handleRead (serverOf platform addrmap client)) ⟨s, Buffer.zero⟩ reads =
      .ok (session, replies)) :
    ∃ responses, run (answerRead (serverOf platform addrmap client)) ⟨s, Buffer.zero⟩ reads =
        .ok (session, responses) ∧ replies = responses.map Response.text ∧
      (((∀ response ∈ responses, response.Delimited) ∧ SplitsInto replies.flatten responses) ↔
        ∀ read ∈ reads, Handled (serverOf platform addrmap client) read) := by
  rw [handleRead_eq, run_map] at hrun
  cases hr : run (answerRead (serverOf platform addrmap client)) ⟨s, Buffer.zero⟩ reads with
  | error f =>
      rw [hr] at hrun
      cases hrun
  | ok v =>
      obtain ⟨session', responses⟩ := v
      rw [hr] at hrun
      obtain ⟨rfl, hreplies⟩ := Prod.mk.inj (Except.ok.inj hrun)
      have htexts : replies = responses.map Response.text := by
        rw [← hreplies]
        exact List.map_congr_left fun response _ => hwrite response
      have hstep : ∀ a i b o, a.inData = Buffer.zero →
          answerRead (serverOf platform addrmap client) a i = .ok (b, o) → _ :=
        fun _ _ _ _ hzero h => answerRead_delimited hzero h
      have hframed : (∀ response ∈ responses, response.Framed) ↔ _ :=
        run_outputs_iff (fun a i b o hz h => ⟨(hstep a i b o hz h).1, (hstep a i b o hz h).2.1⟩) rfl hr
      have hdelimited : (∀ response ∈ responses, response.Delimited) ↔ _ :=
        run_outputs_iff (fun a i b o hz h => ⟨(hstep a i b o hz h).1, (hstep a i b o hz h).2.2⟩) rfl hr
      refine ⟨responses, rfl, htexts, fun h => hdelimited.mp h.1, fun h => ⟨hdelimited.mpr h, ?_⟩⟩
      rw [htexts, ← List.flatMap_def]
      exact splitsInto_of_framed (hframed.mpr h)

end Session

/-! ## 5. A connection -/

/-- A platform that writes responses out. -/
def textPlatform : Platform := { demoPlatform with beast := { plainBeast with write := Response.text } }

/-- `location /health HealthHandler {}`. -/
def healthMap : AddrMap := (∅ : AddrMap).insert "/health".toList
  { handlerType := "HealthHandler".toList, location := "/health".toList }

/-- A read that is a GET of a target. -/
def getRead (target : String)
    (fits : ("GET ".toList ++ target.toList ++ " HTTP/1.1\r\n\r\n".toList).length ≤ maxLength) : Read where
  bytes := "GET ".toList ++ target.toList ++ " HTTP/1.1\r\n\r\n".toList
  nonempty := List.cons_ne_nil _ _
  fits := fits

/-- The health check, on a connection of its own. -/
def healthRead : Read := getRead "/health" (by decide)

theorem healthRead_reply : ∃ reply,
    handleRead (serverOf textPlatform healthMap localhost) ⟨demoStart, Buffer.zero⟩ healthRead =
      .ok (⟨demoStart, Buffer.zero⟩, reply) := by
  have hput : (serverOf textPlatform healthMap localhost).beast.put healthRead.bytes =
      ⟨24, none, ⟨.get, "/health".toList, [], []⟩⟩ := by decide
  have hfound : searchAddrBinding (routesOf textPlatform healthMap) ("/health".toList ++ ['/']) =
      some "/health".toList := by decide +kernel
  have hanswer : answerClient textPlatform healthMap demoStart
      (localhost, ⟨.get, "/health".toList, [], []⟩) = _ :=
    answerClient_routed hfound (getElem?_assign_self _ _ _)
  rw [handleRead_text (by decide) (by decide), hput]
  dsimp only
  rw [if_neg (by simp), show respond (serverOf textPlatform healthMap localhost) demoStart
    (some ⟨.get, "/health".toList, [], []⟩) = _ from hanswer]
  unfold handle
  rw [show handlerTypeOf _ = HandlerType.health by decide]
  exact ⟨_, rfl⟩

/-- Two health checks are answered with replies that can be told apart. -/
theorem replies_delimited_health : ∃ responses : List Response, responses.length = 2 ∧
    (∀ response ∈ responses, response.Delimited) ∧
    SplitsInto (responses.flatMap Response.text) responses := by
  obtain ⟨reply, hreply⟩ := healthRead_reply
  have hrun : run (handleRead (serverOf textPlatform healthMap localhost)) ⟨demoStart, Buffer.zero⟩
      [healthRead, healthRead] = .ok (⟨demoStart, Buffer.zero⟩, [reply, reply]) := by
    simp only [run, hreply]
  have hhandled : Handled (serverOf textPlatform healthMap localhost) healthRead := by
    have hparsed : parseRequest (serverOf textPlatform healthMap localhost).beast
        (Buffer.zero.fill healthRead) healthRead.bytes.length =
          .ok (some ⟨.get, "/health".toList, [], []⟩) :=
      (parseRequest_fill (by decide) (by decide)).trans (by decide)
    have hfound : searchAddrBinding (serverOf textPlatform healthMap localhost).routes
        ("/health".toList ++ ['/']) = some "/health".toList := by decide +kernel
    unfold Handled invoked
    rw [hparsed]
    dsimp only
    rw [hfound]
    exact ⟨_, rfl⟩
  obtain ⟨responses, _, htexts, hiff⟩ := replies_delimited_iff textPlatform healthMap localhost demoStart
    [healthRead, healthRead] (fun _ => rfl) hrun
  have hlen := congrArg List.length htexts
  rw [List.length_map] at hlen
  have hboth := hiff.mpr (by simpa using hhandled)
  rw [htexts, ← List.flatMap_def] at hboth
  exact ⟨responses, hlen.symm, hboth⟩

/-- A target that is under no location. -/
def lostRead : Read := getRead "/lost" (by decide)

/-- **A GET of it** is answered with a response that does not tell where it ends. -/
theorem lost_not_delimited :
    parseRequest (serverOf textPlatform healthMap localhost).beast (Buffer.zero.fill lostRead)
        lostRead.bytes.length = .ok (some ⟨.get, "/lost".toList, [], []⟩) ∧
      ∃ response, generateResponse (serverOf textPlatform healthMap localhost) demoStart
          (Buffer.zero.fill lostRead) lostRead.bytes.length = .ok (demoStart, response) ∧
        ¬ response.Delimited := by
  have hparsed : parseRequest (serverOf textPlatform healthMap localhost).beast
      (Buffer.zero.fill lostRead) lostRead.bytes.length = .ok (some ⟨.get, "/lost".toList, [], []⟩) :=
    (parseRequest_fill (by decide) (by decide)).trans (by decide)
  have hlost : searchAddrBinding (routesOf textPlatform healthMap) ("/lost".toList ++ ['/']) = none := by
    decide +kernel
  refine ⟨hparsed, { freshResponse with result := .badRequest }, ?_, unrouted_not_delimited⟩
  unfold generateResponse
  rw [hparsed]
  exact answerClient_unrouted hlost

end Googolplex
