/-
  File:      Googolplex/Dispatcher/Locations.lean
  Subject:   WHICH LOCATION BLOCKS GET A ROUTE, for every config that is accepted.

  An entry is made at a `root`, `data_path` or `api-key` in the block, and at the
  end of a block with nothing in it; a block with anything else in it leaves none.

  * `exists_event_iff`: the locations that have an event.
  * `location_mapped_iff`: the locations that have an entry and a route.
-/
import Googolplex.Config.Declarations
import Googolplex.Dispatcher.Exceptions

namespace Googolplex

open Cxx Blocks Config

/-! ## 1. The locations that have an event -/

/-- Two words in a row that make an entry. -/
def Assigns (tokens : List Str) : Prop :=
  ∃ pre v w post, tokens = pre ++ v :: w :: post ∧
    (v = "root".toList ∨ v = "data_path".toList ∨ v = "api-key".toList)

/-- The block is empty, or a statement in it (not one of a block within it) makes an entry. -/
def Maps (body : List (Draft Str)) : Prop := body = [] ∨ ∃ d ∈ body, Assigns d.tokens

/-- The words end in `location`, the location, and a handler type. -/
def Declares (location : Str) (tokens : List Str) : Prop :=
  ∃ pre handlerType, tokens = pre ++ ["location".toList, location, handlerType]

/-- **Some block of the location makes an entry.** -/
def Mapped (ds : List (Draft Str)) (location : Str) : Prop :=
  ∃ tokens body, HasBlock ds tokens body ∧ Declares location tokens ∧ Maps body

section

variable {opened : Opened} {location : Str} {tokens : List Str} {n offset : Nat} {e : Event}
  {es : List Event} {ds body : List (Draft Str)}

/-- What is open is a block of the location. -/
def OpensFor (opened : Opened) (location : Str) : Prop :=
  ∃ n handlerType, opened = some (n, location, handlerType)

theorem opensFor_openedAt : OpensFor (openedAt n tokens) location ↔ Declares location tokens := by
  unfold OpensFor Declares openedAt
  constructor
  · intro ⟨m, handlerType, h⟩
    obtain ⟨lt, hlt, heq⟩ := Option.map_eq_some_iff.mp h
    obtain ⟨rfl, rfl⟩ := Prod.mk.inj heq
    obtain ⟨pre, hpre⟩ := locationOf_eq_some.mp hlt
    exact ⟨pre, handlerType, hpre⟩
  · intro ⟨pre, handlerType, hpre⟩
    exact ⟨n, handlerType, by rw [locationOf_eq_some.mpr ⟨pre, hpre⟩]; rfl⟩

theorem changeOf_isSome {v w : Str} : (∃ c, changeOf v w = some c) ↔
    v = "root".toList ∨ v = "data_path".toList ∨ v = "api-key".toList := by
  unfold changeOf
  rw [← or_assoc]
  by_cases hroot : v = "root".toList ∨ v = "data_path".toList
  · rw [if_pos hroot]
    exact ⟨fun _ => Or.inl hroot, fun _ => ⟨_, rfl⟩⟩
  · rw [if_neg hroot]
    by_cases hkey : v = "api-key".toList
    · rw [if_pos hkey]
      exact ⟨fun _ => Or.inr hkey, fun _ => ⟨_, rfl⟩⟩
    · rw [if_neg hkey]
      constructor
      · intro ⟨c, hc⟩
        cases hc
      · rintro (h | h)
        · exact absurd h hroot
        · exact absurd h hkey

theorem exists_pairEvent_iff {v w : Str} : (∃ e ∈ pairEvent opened v w, e.location = location) ↔
    OpensFor opened location ∧ (v = "root".toList ∨ v = "data_path".toList ∨ v = "api-key".toList) := by
  rw [← @changeOf_isSome v w]
  unfold pairEvent OpensFor
  cases opened with
  | none => simp
  | some o =>
      obtain ⟨n, l, t⟩ := o
      cases changeOf v w <;> simp

theorem assigns_cons {v w : Str} {ws : List Str} : Assigns (v :: w :: ws) ↔
    (v = "root".toList ∨ v = "data_path".toList ∨ v = "api-key".toList) ∨ Assigns (w :: ws) := by
  constructor
  · intro ⟨pre, v', w', post, h, hv⟩
    cases pre with
    | nil =>
        cases h
        exact Or.inl hv
    | cons x pre => exact Or.inr ⟨pre, v', w', post, (List.cons.inj h).2, hv⟩
  · rintro (hv | ⟨pre, v', w', post, h, hv⟩)
    · exact ⟨[], v, w, ws, rfl, hv⟩
    · exact ⟨v :: pre, v', w', post, by rw [h]; rfl, hv⟩

theorem Assigns.two_le {ws : List Str} (h : Assigns ws) : 2 ≤ ws.length := by
  obtain ⟨pre, v, w, post, rfl, _⟩ := h
  simp only [List.length_append, List.length_cons]
  omega

/-- The words of a statement make an entry in the block of a location. -/
theorem exists_pairEvents_iff (ws : List Str) : (∃ e ∈ pairEvents opened ws, e.location = location) ↔
    OpensFor opened location ∧ Assigns ws := by
  induction ws with
  | nil =>
      refine ⟨fun ⟨_, he, _⟩ => absurd he List.not_mem_nil, fun h => ?_⟩
      exact absurd h.2.two_le (by decide)
  | cons v ws ih =>
      cases ws with
      | nil =>
          refine ⟨fun ⟨_, he, _⟩ => absurd he List.not_mem_nil, fun h => ?_⟩
          exact absurd h.2.two_le (by simp)
      | cons w ws =>
          rw [pairEvents, assigns_cons, and_or_left, ← ih,
            ← @exists_pairEvent_iff opened location v w]
          simp only [List.mem_append, or_and_right, exists_or]

theorem exists_endEvents_iff : (∃ e ∈ endEvents opened body, e.location = location) ↔
    OpensFor opened location ∧ body = [] := by
  unfold endEvents OpensFor
  cases opened with
  | none => simp
  | some o =>
      obtain ⟨n, l, t⟩ := o
      cases body <;> simp

/-- A block and its end. -/
theorem exists_blockEvents_iff
    (h : (∃ e ∈ eventsOf (openedAt n tokens) (n + 1) body, e.location = location) ↔
      (OpensFor (openedAt n tokens) location ∧ ∃ d ∈ body, Assigns d.tokens) ∨ Mapped body location) :
    (∃ e ∈ eventsOf (openedAt n tokens) (n + 1) body ++ endEvents (openedAt n tokens) body,
        e.location = location) ↔
      (Declares location tokens ∧ Maps body) ∨ Mapped body location := by
  simp only [List.mem_append, or_and_right, exists_or, exists_endEvents_iff, h, opensFor_openedAt, Maps,
    and_or_left]
  rw [or_right_comm, or_comm (a := Declares location tokens ∧ body = [])]

mutual

theorem exists_draftEvent_iff (d : Draft Str) (opened : Opened) (offset : Nat) :
    (∃ e ∈ draftEvents opened offset d, e.location = location) ↔
      (OpensFor opened location ∧ Assigns d.tokens) ∨
        ∃ tokens body, d.HasBlock tokens body ∧ Declares location tokens ∧ Maps body := by
  cases d with
  | simple tokens =>
      rw [draftEvents, exists_pairEvents_iff]
      simp [Draft.tokens, Draft.hasBlock_simple]
  | block tokens body =>
      have hblock := exists_blockEvents_iff
        (exists_event_iff body (openedAt (offset + tokens.length) tokens) (offset + tokens.length + 1))
      have hinner : (∃ ws inner, (Draft.block tokens body).HasBlock ws inner ∧ Declares location ws ∧
          Maps inner) ↔ (Declares location tokens ∧ Maps body) ∨ Mapped body location := by
        simp only [Draft.hasBlock_block, Mapped, or_and_right, exists_or]
        refine or_congr_left ⟨?_, fun h => ⟨tokens, body, ⟨rfl, rfl⟩, h⟩⟩
        rintro ⟨ws, inner, ⟨rfl, rfl⟩, h⟩
        exact h
      rw [draftEvents, hinner, ← hblock, Draft.tokens, ← exists_pairEvents_iff]
      simp only [List.mem_append (t := eventsOf _ _ _ ++ _), or_and_right, exists_or]
  | further e body =>
      have hblock := exists_blockEvents_iff
        (exists_event_iff body (openedAt (offset + e.lexemes.length) e.tokens)
          (offset + e.lexemes.length + 1))
      have hinner : (∃ ws inner, (Draft.further e body).HasBlock ws inner ∧ Declares location ws ∧
          Maps inner) ↔ (∃ ws inner, e.HasBlock ws inner ∧ Declares location ws ∧ Maps inner) ∨
            (Declares location e.tokens ∧ Maps body) ∨ Mapped body location := by
        simp only [Draft.hasBlock_further, Mapped, or_and_right, exists_or]
        rw [or_left_comm]
        refine or_congr_right (or_congr_left ⟨?_, fun h => ⟨e.tokens, body, ⟨rfl, rfl⟩, h⟩⟩)
        rintro ⟨ws, inner, ⟨rfl, rfl⟩, h⟩
        exact h
      have hbefore := exists_draftEvent_iff e opened offset
      rw [draftEvents, hinner, ← hblock, Draft.tokens, ← or_assoc, ← hbefore]
      simp only [List.mem_append (t := eventsOf _ _ _ ++ _), or_and_right, exists_or]

/-- **The locations that have an event.** -/
theorem exists_event_iff (ds : List (Draft Str)) (opened : Opened) (offset : Nat) :
    (∃ e ∈ eventsOf opened offset ds, e.location = location) ↔
      (OpensFor opened location ∧ ∃ d ∈ ds, Assigns d.tokens) ∨ Mapped ds location := by
  cases ds with
  | nil => simp [eventsOf, Mapped, HasBlock]
  | cons d ds =>
      rw [eventsOf]
      simp only [List.mem_append, or_and_right, exists_or, exists_draftEvent_iff d opened offset,
        exists_event_iff ds opened (offset + d.lexemes.length), Mapped, hasBlock_cons,
        List.mem_cons, exists_eq_left, and_or_left]
      exact or_or_or_comm

end

/-! ## 2. Entries -/

/-- An event makes an entry of its location, or changes it. -/
theorem contains_apply (addrmap : AddrMap) (e : Event) :
    (e.apply addrmap).contains location ↔ addrmap.contains location ∨ e.location = location := by
  have hinsert : ∃ args, e.apply addrmap = addrmap.insert e.location args := by
    unfold Event.apply
    cases e.change with
    | root w | apiKey w =>
        dsimp only
        unfold mapLocation
        split <;> exact ⟨_, rfl⟩
    | emptied => exact ⟨_, rfl⟩
  obtain ⟨args, hargs⟩ := hinsert
  rw [hargs, Std.ExtTreeMap.contains_eq_isSome_getElem?, getElem?_assign,
    Std.ExtTreeMap.contains_eq_isSome_getElem?]
  by_cases h : e.location = location <;> simp [h]

/-- Entries are only made, never taken away. -/
theorem contains_applyAll (addrmap : AddrMap) : (applyAll addrmap es).contains location ↔
    addrmap.contains location ∨ ∃ e ∈ es, e.location = location := by
  induction es generalizing addrmap with
  | nil => simp
  | cons e es ih =>
      show (applyAll (e.apply addrmap) es).contains location ↔ _
      rw [ih, contains_apply, or_assoc]
      simp

theorem routesOf_contains (platform : Platform) (addrmap : AddrMap) (location : Str) :
    (routesOf platform addrmap).contains location ↔ addrmap.contains location := by
  rw [Std.ExtTreeMap.contains_eq_isSome_getElem?, Std.ExtTreeMap.contains_eq_isSome_getElem?,
    routesOf_get, Option.isSome_map]

/-- The location has an entry, and `create_dispatcher` makes a route for it. -/
def HasRoute (platform : Platform) (addrmap : AddrMap) (location : Str) : Prop :=
  addrmap.contains location ∧ ∀ files files' routes,
    createDispatcher platform files addrmap = .ok (files', routes) → routes.contains location

/-- **A location block has an entry and a route** exactly if some block of its location is empty, or
    has a `root`, `data_path` or `api-key` with a word after it in one of its own statements. -/
theorem location_mapped_iff (platform : Platform) {input : Str} {s : ParserState}
    (hp : parse input [] ∅ = .ok (true, s)) :
    ∃ ds, Delivers input (textOf ds) ∧ s.config = statementsOf ds ∧
      ∀ pre location handlerType block,
        Occurs (.mk (pre ++ ["location".toList, location, handlerType]) (some block)) s.config →
          (HasRoute platform s.addrmap location ↔ Mapped ds location) := by
  obtain ⟨ds, hd, _, _, hconfig, hmap⟩ := parse_drafts hp
  refine ⟨ds, hd, hconfig, fun pre location handlerType block _ => ?_⟩
  have hentry : s.addrmap.contains location ↔ Mapped ds location := by
    rw [hmap, contains_applyAll, exists_event_iff ds none 0]
    simp [OpensFor]
  unfold HasRoute
  rw [hentry]
  refine ⟨And.left, fun hmapped => ⟨hmapped, fun files files' routes hroutes => ?_⟩⟩
  unfold createDispatcher at hroutes
  split at hroutes
  · cases hroutes
  · cases hroutes
    exact (routesOf_contains platform s.addrmap location).mpr (hentry.mpr hmapped)

/-- `location_mapped_iff` for a location with an empty block. -/
theorem location_mapped_empty : ∃ s, parse "location /a EchoHandler \x7b\x7d".toList [] ∅ = .ok (true, s) ∧
    ∃ ds, Delivers "location /a EchoHandler \x7b\x7d".toList (textOf ds) ∧
      s.config = statementsOf ds ∧
      ∀ pre location handlerType block,
        Occurs (.mk (pre ++ ["location".toList, location, handlerType]) (some block)) s.config →
          (HasRoute demoPlatform s.addrmap location ↔ Mapped ds location) := by
  have hp : ∃ s, parse "location /a EchoHandler \x7b\x7d".toList [] ∅ = .ok (true, s) := ⟨_, rfl⟩
  obtain ⟨s, hs⟩ := hp
  exact ⟨s, hs, location_mapped_iff demoPlatform hs⟩

/-- **A location is lost**: its block has only a directive `Parse` does not know. -/
theorem unknown_directive_only : ¬ ∀ s,
    parse "location /e EchoHandler \x7b index x; \x7d".toList [] ∅ = .ok (true, s) →
      ∀ pre location handlerType block,
        Occurs (.mk (pre ++ ["location".toList, location, handlerType]) (some block)) s.config →
          s.addrmap.contains location := by
  intro h
  have hp : ∃ s, parse "location /e EchoHandler \x7b index x; \x7d".toList [] ∅ = .ok (true, s) ∧
      s.config = [.mk ["location".toList, "/e".toList, "EchoHandler".toList]
        (some [.mk ["index".toList, "x".toList] none])] ∧
      s.addrmap.contains "/e".toList = false := ⟨_, rfl, rfl, rfl⟩
  obtain ⟨s, hs, hconfig, hnone⟩ := hp
  have hoccurs : Occurs (.mk ([] ++ ["location".toList, "/e".toList, "EchoHandler".toList])
      (some [.mk ["index".toList, "x".toList] none])) s.config := by
    rw [hconfig]
    exact .here (List.mem_singleton.mpr rfl)
  have hcontains := h s hs [] _ _ _ hoccurs
  rw [hnone] at hcontains
  cases hcontains

end

end Googolplex
