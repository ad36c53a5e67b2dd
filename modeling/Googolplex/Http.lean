/-
  File:      Googolplex/Http.lean
  Subject:   The messages the handlers work on: `http::request<string_body>` and
             `http::response<string_body>`, with the members the code uses.
-/
import Googolplex.Library.Cxx

namespace Googolplex

open Cxx

/-- `http::verb`: the methods the handlers tell apart, and the rest by name. -/
inductive Verb where
  | get | head | post | put | delete | options | trace
  | other (name : Str)
  deriving DecidableEq, Repr

/-- `http::status`: the codes the server answers with. -/
inductive Status where
  | ok | created | noContent | badRequest | notFound | unprocessableEntity | internalServerError
  deriving DecidableEq, Repr

/-- `result_int()`. -/
def Status.toNat : Status → Nat
  | .ok => 200
  | .created => 201
  | .noContent => 204
  | .badRequest => 400
  | .notFound => 404
  | .unprocessableEntity => 422
  | .internalServerError => 500

/-- The response fields the code sets. -/
inductive Field where
  | contentType | contentLength | accessControlAllowOrigin
  | accessControlAllowMethods | accessControlAllowHeaders
  deriving DecidableEq, Repr

/-- `http::request<http::string_body>`. -/
structure Request where
  method : Verb
  target : Str
  fields : List (Str × Str) := []
  body : Str := []
  deriving DecidableEq, Repr

/-- `http::response<http::string_body>`; a fresh one is an empty `200`. -/
structure Response where
  result : Status := .ok
  fields : List (Field × Str) := []
  body : Str := []
  deriving DecidableEq, Repr

namespace Response

/-- `response.set(field, value)`: replaces the field if it is there. -/
def set (response : Response) (field : Field) (value : Str) : Response :=
  { response with fields := response.fields.filter (·.1 ≠ field) ++ [(field, value)] }

/-- `prepare_payload()`: the length of the body goes into Content-Length. -/
def preparePayload (response : Response) : Response :=
  response.set .contentLength (decimal response.body.length)

/-- Status, content type, body and payload in one go, the way every exit of a handler sets them. -/
def answer (response : Response) (status : Status) (contentType body : Str) : Response :=
  preparePayload { ({ response with result := status } : Response).set .contentType contentType with
    body := body }

variable (response : Response) (status : Status) (field : Field) (contentType body value : Str)

@[simp] theorem set_result : (response.set field value).result = response.result := rfl

@[simp] theorem set_body : (response.set field value).body = response.body := rfl

@[simp] theorem preparePayload_result : response.preparePayload.result = response.result := rfl

@[simp] theorem preparePayload_body : response.preparePayload.body = response.body := rfl

@[simp] theorem answer_result : (response.answer status contentType body).result = status := rfl

@[simp] theorem answer_body : (response.answer status contentType body).body = body := rfl

end Response

end Googolplex
