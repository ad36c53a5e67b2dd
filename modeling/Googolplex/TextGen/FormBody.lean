/-
  File:      Googolplex/TextGen/FormBody.lean
  Subject:   What `parse_post_body` takes from a body, field by field.

  The pieces are what stands between the `&` of the body, and its map is
  `Fields.collect` of them.
-/
import Googolplex.Library.Fields
import Googolplex.TextGen.Handler

namespace Googolplex.TextGen

open Cxx Fields

/-! ## 1. The map -/

/-- `"title"`. -/
def titleKey : Str := "title".toList

/-- `"prompt"`. -/
def promptKey : Str := "prompt".toList

/-- The pieces of a body. -/
def piecesOf (body : Str) : List Str := body.splitOn '&'

/-- The reader of a body, on its pieces. -/
theorem parsePostBody_eq (body : Str) : parsePostBody body =
    if (collect '=' (piecesOf body)).contains titleKey ∧
        (collect '=' (piecesOf body)).contains promptKey
      then some (collect '=' (piecesOf body)) else none := rfl

/-- A key is in the map exactly if some piece is a field of it. -/
theorem contains_collect {pieces : List Str} {key : Str} :
    (collect '=' pieces).contains key = true ↔
      ∃ x ∈ pieces, ∃ value, Binds '=' x key value := by
  rw [Std.ExtTreeMap.contains_eq_isSome_getElem?, Option.isSome_iff_exists, ← exists_first_iff]
  simp only [getElem?_collect]

/-- **What is accepted**: a field of each of the two names. -/
theorem parsePostBody_some {body : Str} {m : OrdMap Str Str} : parsePostBody body = some m ↔
    m = collect '=' (piecesOf body) ∧
      (∃ x ∈ piecesOf body, ∃ value, Binds '=' x titleKey value) ∧
      (∃ x ∈ piecesOf body, ∃ value, Binds '=' x promptKey value) := by
  rw [parsePostBody_eq, ← contains_collect, ← contains_collect]
  constructor
  · intro h
    split at h
    · rename_i hboth
      exact ⟨(Option.some.inj h).symm, hboth⟩
    · cases h
  · rintro ⟨rfl, hboth⟩
    rw [if_pos hboth]

/-- The pieces of a longer body. -/
theorem piecesOf_append (body later : Str) :
    piecesOf (body ++ '&' :: later) = piecesOf body ++ piecesOf later :=
  List.splitOn_append_cons_self _ _

/-! ## 2. Field by field -/

/-- **A body is decoded field by field.** -/
structure FieldByField (body : Str) : Prop where
  /-- The return value. -/
  accepted : (parsePostBody body).isSome = true ↔
    (∃ x ∈ body.splitOn '&', ∃ value, Binds '=' x "title".toList value) ∧
      ∃ x ∈ body.splitOn '&', ∃ value, Binds '=' x "prompt".toList value
  /-- Of each key the first field counts. -/
  values : ∀ m, parsePostBody body = some m →
    ∀ key value, m[key]? = some value ↔ First '=' (body.splitOn '&') key value
  /-- No later field, whatever it is, replaces an earlier one. -/
  later : ∀ m, parsePostBody body = some m → ∀ more, ∃ m',
    parsePostBody (body ++ '&' :: more) = some m' ∧
      ∀ key value : Str, m[key]? = some value → m'[key]? = some value

theorem fieldByField (body : Str) : FieldByField body where
  accepted := by
    rw [Option.isSome_iff_exists]
    constructor
    · intro ⟨m, hm⟩
      exact (parsePostBody_some.mp hm).2
    · intro hboth
      exact ⟨_, parsePostBody_some.mpr ⟨rfl, hboth⟩⟩
  values := by
    intro m hm key value
    rw [(parsePostBody_some.mp hm).1, getElem?_collect]
    rfl
  later := by
    intro m hm more
    obtain ⟨rfl, ⟨x, hx, htitle⟩, ⟨y, hy, hprompt⟩⟩ := parsePostBody_some.mp hm
    refine ⟨collect '=' (piecesOf (body ++ '&' :: more)), parsePostBody_some.mpr ⟨rfl, ?_, ?_⟩, ?_⟩
    · rw [piecesOf_append]
      exact ⟨x, List.mem_append_left _ hx, htitle⟩
    · rw [piecesOf_append]
      exact ⟨y, List.mem_append_left _ hy, hprompt⟩
    · intro key value hvalue
      rw [getElem?_collect] at hvalue ⊢
      rw [piecesOf_append]
      exact hvalue.append

/-! ## 3. Encoded bodies -/

/-- A name and its value as a form has them. -/
def encodeField (key value : Str) : Str := key ++ '=' :: value

/-- **The body of a form.** -/
def encodeBody (fields : List Str) : Str := ['&'].intercalate fields

/-- **A piece says nothing of the title or the prompt.** -/
def OtherField (x : Str) : Prop :=
  '&' ∉ x ∧ ∀ key value, Binds '=' x key value → key ≠ titleKey ∧ key ≠ promptKey

section

variable {t p : Str} {others fields : List Str}

theorem binds_encodeField {key value : Str} (hkey : '=' ∉ key) (hvalue : '=' ∉ value) :
    Binds '=' (encodeField key value) key value := ⟨rfl, hkey, hvalue⟩

theorem not_mem_encodeField {key value : Str} (hkey : '&' ∉ key) (hvalue : '&' ∉ value) :
    '&' ∉ encodeField key value := by
  intro hmem
  rcases List.mem_append.mp hmem with h | h
  · exact hkey h
  · exact hvalue ((List.mem_cons.mp h).resolve_left (by decide))

/-- The pieces of an encoded body are its fields. -/
theorem piecesOf_encodeBody (hfree : ∀ x ∈ fields, '&' ∉ x) (hne : fields ≠ []) :
    piecesOf (encodeBody fields) = fields := List.splitOn_intercalate '&' hfree hne

/-- **Decoding an encoded body** gives the title and the prompt, in any order and among any others. -/
theorem parsePostBody_encodeBody (ht : '&' ∉ t ∧ '=' ∉ t) (hp : '&' ∉ p ∧ '=' ∉ p)
    (hothers : ∀ x ∈ others, OtherField x)
    (hfields : fields.Perm (encodeField titleKey t :: encodeField promptKey p :: others)) :
    ∃ m, parsePostBody (encodeBody fields) = some m ∧
      m[titleKey]? = some t ∧ m[promptKey]? = some p := by
  have htitle : Binds '=' (encodeField titleKey t) titleKey t :=
    binds_encodeField (by decide) ht.2
  have hprompt : Binds '=' (encodeField promptKey p) promptKey p :=
    binds_encodeField (by decide) hp.2
  have hfirstTitle : First '=' fields titleKey t := by
    refine first_of_perm hfields htitle fun y hy v hv => ?_
    rcases List.mem_cons.mp hy with rfl | hy
    · exact absurd (hv.unique hprompt).1 (by decide)
    · exact ((hothers y hy).2 _ _ hv).1 rfl
  have hfirstPrompt : First '=' fields promptKey p := by
    refine first_of_perm (hfields.trans (List.Perm.swap _ _ _)) hprompt fun y hy v hv => ?_
    rcases List.mem_cons.mp hy with rfl | hy
    · exact absurd (hv.unique htitle).1 (by decide)
    · exact ((hothers y hy).2 _ _ hv).2 rfl
  have hpieces : piecesOf (encodeBody fields) = fields := by
    have hfree : ∀ x ∈ fields, '&' ∉ x := by
      intro x hx
      rcases List.mem_cons.mp (hfields.mem_iff.mp hx) with rfl | hx
      · exact not_mem_encodeField (by decide) ht.1
      · rcases List.mem_cons.mp hx with rfl | hx
        · exact not_mem_encodeField (by decide) hp.1
        · exact (hothers x hx).1
    refine piecesOf_encodeBody hfree fun hnil => ?_
    rw [hnil] at hfields
    cases hfields.symm.eq_nil
  refine ⟨collect '=' fields, parsePostBody_some.mpr ⟨by rw [hpieces], ?_, ?_⟩,
    getElem?_collect.mpr hfirstTitle, getElem?_collect.mpr hfirstPrompt⟩
  · rw [hpieces]
    exact exists_first_iff.mp ⟨t, hfirstTitle⟩
  · rw [hpieces]
    exact exists_first_iff.mp ⟨p, hfirstPrompt⟩

end

/-! ## 4. The form -/

/-- **The form body is decoded field by field**, and what a form encodes is what is decoded. -/
theorem form_body_decoded :
    (∀ body, FieldByField body) ∧
      ∀ (t p : Str) (others fields : List Str), '&' ∉ t ∧ '=' ∉ t → '&' ∉ p ∧ '=' ∉ p →
        (∀ x ∈ others, OtherField x) →
        fields.Perm (encodeField "title".toList t :: encodeField "prompt".toList p :: others) →
        ∃ m, parsePostBody (encodeBody fields) = some m ∧
          m["title".toList]? = some t ∧ m["prompt".toList]? = some p :=
  ⟨fieldByField, fun _ _ _ _ => parsePostBody_encodeBody⟩

/-- The prompt first, an empty piece and a field of another name. -/
theorem form_body_decoded_any_order : ∃ m,
    parsePostBody "x=1&prompt=a b&&title=c".toList = some m ∧
      m["title".toList]? = some "c".toList ∧ m["prompt".toList]? = some "a b".toList := by
  refine form_body_decoded.2 "c".toList "a b".toList ["x=1".toList, []]
    ["x=1".toList, "prompt=a b".toList, [], "title=c".toList] (by decide) (by decide) ?_ ?_
  · intro x hx
    rcases List.mem_cons.mp hx with rfl | hx
    · refine ⟨by decide, fun key value h => ?_⟩
      have hx : Binds '=' "x=1".toList "x".toList "1".toList := ⟨rfl, by decide, by decide⟩
      rw [(h.unique hx).1]
      decide
    · obtain rfl := List.mem_singleton.mp hx
      refine ⟨by decide, fun key value h => ?_⟩
      simp [Binds] at h
  · decide

end Googolplex.TextGen
