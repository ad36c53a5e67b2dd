/-
  File:      Googolplex/Crud/Answers.lean
  Subject:   WHAT A CRUD REQUEST IS ANSWERED WITH, whatever the map and the files are.

  * `Answer`: the responses of the four operations.
  * `handleRequest_answer`: a request that is answered is answered with one of
    them, or as a bad one.
-/
import Googolplex.Crud.Handler

namespace Googolplex.Crud

open Cxx Posix RequestHandler

/-- The responses of the four operations. -/
inductive Answer (response : Response) : Response → Prop
  | created (value : Int) : Answer response (prepareCreatedResponse value response)
  | updated (value : Int) : Answer response (updatedResponse value response)
  | listed (body : Str) : Answer response (response.answer .ok "text/plain".toList body)
  | content (body : Str) :
      Answer response (Response.preparePayload { response with result := .ok, body := body })
  | unprocessable : Answer response (prepareUnprocessableEntityResponse response)
  | notFound : Answer response (prepareNotFoundResponse response)
  | internal : Answer response (prepareInternalServerErrorResponse response)
  | noFileId : Answer response (noFileIdResponse response)
  | overwritten {r : Response} (h : Answer response r) : Answer response (prepareNotFoundResponse r)

variable {handler : RequestHandler} {disk : Disk} {s s' : CrudState} {suffix : Str}
  {request : Request} {response r : Response} {b : Bool}

theorem post_answer (h : handlePostRequest handler disk s suffix request response = .ok (s', r, b)) :
    Answer response r := by
  unfold handlePostRequest at h
  dsimp only at h
  generalize (if s.fileToId[suffix]? = none then createDir s.files (pathOf handler suffix)
    else (true, s.files)) = made at h
  split at h
  · cases h
    exact .unprocessable
  · split at h
    · cases h
    · split at h
      · cases h
        exact .created _
      · cases h
        exact .internal

theorem get_answer (h : handleGetRequest handler s suffix response = .ok (s', r, b)) :
    Answer response r := by
  unfold handleGetRequest at h
  dsimp only at h
  split at h
  · cases h
    exact .listed _
  · split at h
    · cases h
    · cases h
      exact .content _
    · cases h
      exact .notFound
  · cases h
    exact .notFound

theorem put_answer (h : handlePutRequest handler disk s suffix request response = .ok (s', r, b)) :
    Answer response r := by
  unfold handlePutRequest at h
  dsimp only at h
  split at h
  · split at h
    · cases h
    · rename_i value _
      -- the map and the response are settled before the body is written
      have hset : ∀ known : Prop, ∀ _ : Decidable known, Answer response (if known then
          ((insertToMap s.fileToId (entityOf suffix) value).2,
            if (insertToMap s.fileToId (entityOf suffix) value).1 = true then
              prepareCreatedResponse value response else updatedResponse value response)
          else (s.fileToId.insert (entityOf suffix) [value],
            prepareCreatedResponse value response)).2 := by
        intro known _
        split
        · dsimp only
          split
          · exact .created _
          · exact .updated _
        · exact .created _
      generalize (if s.fileToId[entityOf suffix]? ≠ none then (true, s.files)
        else createDir s.files (pathOf handler (entityOf suffix))) = made at h
      split at h
      · cases h
        exact .unprocessable
      · split at h
        · cases h
          exact hset _ _
        · cases h
          exact .overwritten (hset _ _)
  · cases h
    exact .notFound

theorem delete_answer (h : handleDeleteRequest handler s suffix response = .ok (s', r, b)) :
    Answer response r := by
  unfold handleDeleteRequest at h
  dsimp only at h
  split at h
  · cases h
    exact .notFound
  · cases h
    exact .noFileId
  · split at h
    · cases h
      exact .noFileId
    · split at h
      · cases h
        exact .notFound
      · split at h
        · cases h
          exact .listed _
        · cases h
          exact .internal

/-- **What a request is answered with**: one of the responses of the operations, if its target is
    accepted and its method is one of theirs, or it is a bad request. -/
theorem handleRequest_answer (h : handleRequest handler disk s request response = .ok (s', r, b)) :
    Answer response r ∨ r = prepareBadRequestResponse response ∧
      (handler.checkRequestUrl request.target false = none ∨
        request.method ∉ [Verb.get, .post, .put, .delete]) := by
  unfold handleRequest at h
  cases ht : handler.checkRequestUrl request.target false with
  | none =>
      rw [ht] at h
      cases h
      exact Or.inr ⟨rfl, Or.inl rfl⟩
  | some suffix =>
      rw [ht] at h
      dsimp only at h
      split at h
      · exact Or.inl (post_answer h)
      · exact Or.inl (get_answer h)
      · exact Or.inl (put_answer h)
      · exact Or.inl (delete_answer h)
      · rename_i hpost hget hput hdelete
        cases h
        refine Or.inr ⟨rfl, Or.inr fun hm => ?_⟩
        simp only [List.mem_cons, List.not_mem_nil, or_false] at hm
        rcases hm with hm | hm | hm | hm
        · exact hget hm
        · exact hpost hm
        · exact hput hm
        · exact hdelete hm

/-- No operation answers as a bad request is answered. -/
theorem Answer.not_bad (h : Answer response r) : r ≠ prepareBadRequestResponse response := by
  intro heq
  have hstatus : r.result = .badRequest := by rw [heq]; rfl
  cases h with
  | created => cases hstatus
  | updated => cases hstatus
  | listed => cases hstatus
  | content => cases hstatus
  | unprocessable => cases hstatus
  | notFound => cases hstatus
  | internal => cases hstatus
  | overwritten => cases hstatus
  | noFileId =>
      have hbody : "Invalid format; expected a file ID.\n".toList = "Invalid CRUD method.\n".toList :=
        congrArg Response.body heq
      exact absurd hbody (by decide)

end Googolplex.Crud
