/-
  File:      Googolplex/Crud/Exceptions.lean
  Subject:   Which CRUD requests are not answered, on any disk.

  * `Throws`: before the request, that it will not be answered.
  * `handleRequest_error_iff`: it is not answered exactly when it throws, as long
    as the id lists are increasing.
-/
import Googolplex.Crud.Exits
import Googolplex.Crud.MapSteps

namespace Googolplex.Crud

open Cxx Posix RequestHandler

/-- Every id there is, is taken. -/
def Exhausted (ids : List Int) : Prop := ∀ i, 1 ≤ i → i ≤ intMax → i ∈ ids

/-- **The CRUD request will not be answered**: a POST to an entity that has every id, or a PUT with
    an id that is a number but no `int`. -/
inductive Throws (handler : RequestHandler) (fileToId : FileToId) (request : Request) : Prop
  | post {e : Str} (hm : request.method = .post)
      (ht : handler.checkRequestUrl request.target false = some e)
      (hids : Exhausted (idsOf fileToId e))
  | put {t : Str} (hm : request.method = .put)
      (ht : handler.checkRequestUrl request.target false = some t) (hne : idNameOf t ≠ [])
      (hd : (idNameOf t).all Char.isDigit = true) (hbig : intMax < Nat.ofDigitChars 10 (idNameOf t) 0)

section

variable {handler : RequestHandler} {disk : Disk} {s s' : CrudState} {request : Request}
  {response r : Response} {b : Bool} {fileToId : FileToId} {key : Str}

/-- `get_next_id` fails on an entity that has every id, and on no other. -/
theorem getNextId_error_iff (h : Increasing fileToId) :
    (∃ f, getNextId fileToId key = .error f) ↔ Exhausted (idsOf fileToId key) := by
  constructor
  · intro ⟨f, hf⟩ i h1 h2
    by_contra hi
    obtain ⟨v, hv⟩ := getNextId_total (h.idsOf key) h1 h2 hi
    rw [hf] at hv
    cases hv
  · intro hall
    cases hid : getNextId fileToId key with
    | error f => exact ⟨f, rfl⟩
    | ok r =>
        obtain ⟨v, fileToId'⟩ := r
        obtain ⟨h1, h2, h3, _⟩ := getNextId_ok (h.idsOf key) hid
        exact absurd (hall _ h1 h2) h3

/-- `stoi` of digits fails when they spell more than an `int`. -/
theorem stoi_error_iff {x : Str} (hne : x ≠ []) (hd : x.all Char.isDigit = true) :
    (∃ g, stoi x = .error g) ↔ intMax < Nat.ofDigitChars 10 x 0 := by
  rw [stoi_of_digits hne (List.all_eq_true.mp hd)]
  constructor
  · intro ⟨g, hg⟩
    split at hg
    · cases hg
    · omega
  · intro hbig
    rw [if_neg (by omega)]
    exact ⟨_, rfl⟩

/-- **A CRUD request is answered if and only if it does not throw.** -/
theorem handleRequest_error_iff (h : Increasing s.fileToId) :
    (∃ f, handleRequest handler disk s request response = .error f) ↔
      Throws handler s.fileToId request := by
  constructor
  · intro ⟨f, hf⟩
    unfold handleRequest at hf
    cases ht : handler.checkRequestUrl request.target false with
    | none => simp only [ht] at hf; cases hf
    | some t =>
        simp only [ht] at hf
        cases hm : request.method with
        | post =>
            simp only [hm] at hf
            have hid := (handlePostRequest_error hf).2
            exact .post hm ht ((getNextId_error_iff h).mp ⟨_, hid⟩)
        | get => simp only [hm] at hf; exact absurd hf handleGetRequest_ok
        | put =>
            simp only [hm] at hf
            obtain ⟨_, ⟨hne, hd⟩, hg⟩ := handlePutRequest_error hf
            exact .put hm ht hne hd ((stoi_error_iff hne hd).mp hg)
        | delete => simp only [hm] at hf; exact absurd hf handleDeleteRequest_ok
        | _ => simp only [hm] at hf; cases hf
  · intro hthrows
    unfold handleRequest
    cases hthrows with
    | @post e hm ht hids =>
        obtain ⟨f, hf⟩ := (getNextId_error_iff h).mpr hids
        -- the entity is known, or it would have an id left
        have hknown : s.fileToId[e]? ≠ none := by
          intro hnone
          have hone : (1 : Int) ∈ idsOf s.fileToId e := hids 1 (le_refl _) (by decide)
          rw [idsOf_of_none hnone] at hone
          exact List.not_mem_nil hone
        refine ⟨f, ?_⟩
        simp only [ht, hm, handlePostRequest, if_neg hknown, hf]
        rfl
    | @put t hm ht hne hd hbig =>
        obtain ⟨g, hg⟩ := (stoi_error_iff hne hd).mpr hbig
        refine ⟨.outOfRange, ?_⟩
        simp only [ht, hm, handlePutRequest, if_pos (And.intro hne hd), hg]

end

end Googolplex.Crud
