/-
  File:      Googolplex/Config/LastDeclaration.lean
  Subject:   WHICH DECLARATION OF A LOCATION WINS, when several blocks declare it.

  The handler type is that of the last event of the location. `root` and `api-key`
  are each what was last set, and only the end of an empty block sets both.

  * `entry_applyAll`: the entry of a location, field by field.
  * `last_wins_iff`: when the entry is what the last block alone would leave.
-/
import Googolplex.Config.Declarations

namespace Googolplex.Config

open Cxx Blocks

/-! ## 1. The events of a block -/

/-- The events of a block. -/
def eventsIn (block : Nat) (es : List Event) : List Event := es.filter fun e => e.block = block

/-- What the block does by itself: the words of its own statements, and its end. -/
def ownEvents (opened : Opened) (body : List (Draft Str)) : List Event :=
  body.flatMap (fun d => pairEvents opened d.tokens) ++ endEvents opened body

/-- All that happens between a `{` at a position and its `}`. -/
def blockEvents (n : Nat) (tokens : List Str) (body : List (Draft Str)) : List Event :=
  eventsOf (openedAt n tokens) (n + 1) body ++ endEvents (openedAt n tokens) body

/-- The event is of the block that is open. -/
def Event.IsOf (e : Event) (opened : Opened) : Prop :=
  opened = some (e.block, e.location, e.handlerType)

/-- **The block of an event**: what opened it, and all its events. -/
structure Event.BlockIs (e : Event) (es : List Event) (tokens : List Str) (body : List (Draft Str)) :
    Prop where
  opened : e.IsOf (openedAt e.block tokens)
  events : eventsIn e.block es = ownEvents (openedAt e.block tokens) body

section

variable {opened : Opened} {e : Event} {es es' : List Event} {n offset : Nat} {d : Draft Str}
  {ds body : List (Draft Str)} {tokens : List Str}

theorem eventsIn_append (block : Nat) (es es' : List Event) :
    eventsIn block (es ++ es') = eventsIn block es ++ eventsIn block es' :=
  List.filter_append ..

theorem eventsIn_eq_nil (h : ∀ e ∈ es, e.block ≠ n) : eventsIn n es = [] := by
  unfold eventsIn
  rw [List.filter_eq_nil_iff]
  intro e he
  simpa using h e he

theorem eventsIn_eq_self (h : ∀ e ∈ es, e.block = n) : eventsIn n es = es := by
  unfold eventsIn
  rw [List.filter_eq_self]
  intro e he
  simpa using h e he

theorem mem_pairEvents {ws : List Str} (h : e ∈ pairEvents opened ws) : e.IsOf opened := by
  induction ws with
  | nil => cases h
  | cons v ws ih =>
      cases ws with
      | nil => cases h
      | cons w ws =>
          rcases List.mem_append.mp h with h | h
          · unfold pairEvent at h
            cases opened with
            | none => cases h
            | some o =>
                obtain ⟨n, location, handlerType⟩ := o
                cases hc : changeOf v w with
                | none =>
                    rw [hc] at h
                    cases h
                | some c =>
                    rw [hc] at h
                    rw [List.mem_singleton.mp h]
                    rfl
          · exact ih h

theorem mem_endEvents (h : e ∈ endEvents opened body) : e.IsOf opened := by
  unfold endEvents at h
  cases opened with
  | none => cases h
  | some o =>
      obtain ⟨n, location, handlerType⟩ := o
      cases body with
      | nil =>
          rw [List.mem_singleton.mp h]
          rfl
      | cons d ds => cases h

theorem Event.IsOf.block (h : e.IsOf (openedAt n tokens)) : e.block = n := by
  unfold Event.IsOf openedAt at h
  obtain ⟨lt, _, heq⟩ := Option.map_eq_some_iff.mp h
  exact (Prod.mk.inj heq).1.symm

theorem Event.IsOf.block_eq {e' : Event} (h : e.IsOf opened) (h' : e'.IsOf opened) :
    e.block = e'.block := by
  have heq := Option.some.inj (h.symm.trans h')
  exact (Prod.mk.inj heq).1

mutual

/-- The events of a draft are of the block around it, or of one that is opened in it. -/
theorem mem_draftEvents (d : Draft Str) {opened : Opened} {offset : Nat}
    (h : e ∈ draftEvents opened offset d) :
    e.IsOf opened ∨ (offset ≤ e.block ∧ e.block < offset + d.lexemes.length) := by
  cases d with
  | simple tokens => exact Or.inl (mem_pairEvents h)
  | block tokens body =>
      rw [draftEvents] at h
      rcases List.mem_append.mp h with h | h
      · exact Or.inl (mem_pairEvents h)
      · have hin := mem_blockEvents body h
        simp only [Draft.lexemes, words, List.length_append, List.length_map, List.length_cons,
          List.length_nil]
        exact Or.inr (by omega)
  | further before body =>
      rw [draftEvents] at h
      simp only [Draft.lexemes, List.length_append, List.length_cons, List.length_nil]
      rcases List.mem_append.mp h with h | h
      · exact (mem_draftEvents before h).imp_right fun hin => by omega
      · have hin := mem_blockEvents body h
        exact Or.inr (by omega)

theorem mem_eventsOf (ds : List (Draft Str)) {opened : Opened} {offset : Nat}
    (h : e ∈ eventsOf opened offset ds) :
    e.IsOf opened ∨ (offset ≤ e.block ∧ e.block < offset + (textOf ds).length) := by
  cases ds with
  | nil => cases h
  | cons d ds =>
      rw [eventsOf] at h
      simp only [textOf, List.length_append]
      rcases List.mem_append.mp h with h | h
      · exact (mem_draftEvents d h).imp_right fun hin => by omega
      · exact (mem_eventsOf ds h).imp_right fun hin => by omega

theorem mem_blockEvents (body : List (Draft Str)) {n : Nat} {tokens : List Str}
    (h : e ∈ blockEvents n tokens body) :
    n ≤ e.block ∧ e.block < n + 1 + (textOf body).length := by
  rcases List.mem_append.mp h with h | h
  · rcases mem_eventsOf body h with hof | hin
    · rw [hof.block]
      omega
    · omega
  · rw [(mem_endEvents h).block]
    omega

end

mutual

/-- The words of a draft are all that is of the block around it. -/
theorem draftEvents_around (d : Draft Str) {opened : Opened} {offset : Nat} (he : e.IsOf opened)
    (hn : e.block < offset) :
    eventsIn e.block (draftEvents opened offset d) = pairEvents opened d.tokens := by
  have hpairs : ∀ ws, eventsIn e.block (pairEvents opened ws) = pairEvents opened ws := fun ws =>
    eventsIn_eq_self fun e' he' => (mem_pairEvents he').block_eq he
  have hblock : ∀ n ws body, offset ≤ n → eventsIn e.block (blockEvents n ws body) = [] :=
    fun n ws body hle => eventsIn_eq_nil fun e' he' => by
      have hin := mem_blockEvents body he'
      omega
  cases d with
  | simple tokens => exact hpairs tokens
  | block tokens body =>
      show eventsIn e.block (pairEvents opened tokens ++ blockEvents _ tokens body) = _
      rw [eventsIn_append, hpairs, hblock _ _ _ (by omega), List.append_nil]
      rfl
  | further before body =>
      show eventsIn e.block (draftEvents opened offset before ++ blockEvents _ before.tokens body) = _
      rw [eventsIn_append, draftEvents_around before he hn, hblock _ _ _ (by omega), List.append_nil]
      rfl

theorem eventsOf_around (ds : List (Draft Str)) {opened : Opened} {offset : Nat} (he : e.IsOf opened)
    (hn : e.block < offset) : eventsIn e.block (eventsOf opened offset ds) =
      ds.flatMap fun d => pairEvents opened d.tokens := by
  cases ds with
  | nil => rfl
  | cons d ds =>
      rw [eventsOf, eventsIn_append, draftEvents_around d he hn, eventsOf_around ds he (by omega)]
      rfl

end

/-- A block, from what is known of the blocks in it. -/
theorem blockEvents_block (h : e ∈ blockEvents n tokens body)
    (ih : e ∈ eventsOf (openedAt n tokens) (n + 1) body → n + 1 ≤ e.block →
      ∃ ws inner, HasBlock body ws inner ∧
        e.BlockIs (eventsOf (openedAt n tokens) (n + 1) body) ws inner) :
    ∃ ws inner, ((tokens = ws ∧ body = inner) ∨ HasBlock body ws inner) ∧
      e.BlockIs (blockEvents n tokens body) ws inner := by
  have hend : ∀ e' ∈ endEvents (openedAt n tokens) body, e'.block = n := fun e' he' =>
    (mem_endEvents he').block
  have hof : e.IsOf (openedAt n tokens) ∨
      (e ∈ eventsOf (openedAt n tokens) (n + 1) body ∧ n + 1 ≤ e.block) := by
    rcases List.mem_append.mp h with h | h
    · rcases mem_eventsOf body h with hof | hin
      · exact Or.inl hof
      · exact Or.inr ⟨h, hin.1⟩
    · exact Or.inl (mem_endEvents h)
  rcases hof with hof | ⟨hmem, hn⟩
  · have hb := hof.block
    refine ⟨tokens, body, Or.inl ⟨rfl, rfl⟩, ?_, ?_⟩
    · rw [hb]
      exact hof
    · unfold blockEvents ownEvents
      rw [eventsIn_append, eventsOf_around body hof (by omega), hb, eventsIn_eq_self hend]
  · obtain ⟨ws, inner, hblock, hopened, hevents⟩ := ih hmem hn
    refine ⟨ws, inner, Or.inr hblock, hopened, ?_⟩
    unfold blockEvents
    rw [eventsIn_append, hevents, eventsIn_eq_nil, List.append_nil]
    intro e' he'
    rw [hend e' he']
    omega

mutual

theorem draftEvents_block (d : Draft Str) {opened : Opened} {offset : Nat}
    (ho : ∀ e' : Event, e'.IsOf opened → e'.block < offset) (h : e ∈ draftEvents opened offset d)
    (hn : offset ≤ e.block) :
    ∃ ws inner, d.HasBlock ws inner ∧ e.BlockIs (draftEvents opened offset d) ws inner := by
  have hpairs : ∀ ws, eventsIn e.block (pairEvents opened ws) = [] := fun ws =>
    eventsIn_eq_nil fun e' he' => by
      have hlt := ho e' (mem_pairEvents he')
      omega
  cases d with
  | simple tokens =>
      have hlt := ho e (mem_pairEvents h)
      omega
  | block tokens body =>
      rcases List.mem_append.mp h with h | h
      · have hlt := ho e (mem_pairEvents h)
        omega
      · obtain ⟨ws, inner, hblock, hopened, hevents⟩ := blockEvents_block h fun hmem hle =>
          eventsOf_block body (fun e' he' => by rw [he'.block]; omega) hmem hle
        refine ⟨ws, inner, Draft.hasBlock_block.mpr hblock, hopened, ?_⟩
        show eventsIn e.block (pairEvents opened tokens ++ blockEvents _ tokens body) = _
        rw [eventsIn_append, hpairs, hevents, List.nil_append]
  | further before body =>
      rcases List.mem_append.mp h with h | h
      · obtain ⟨ws, inner, hblock, hopened, hevents⟩ := draftEvents_block before ho h hn
        have hlt : e.block < offset + before.lexemes.length := by
          rcases mem_draftEvents before h with hof | hin
          · have hlt := ho e hof
            omega
          · exact hin.2
        refine ⟨ws, inner, .before hblock, hopened, ?_⟩
        show eventsIn e.block (draftEvents opened offset before ++
          blockEvents _ before.tokens body) = _
        rw [eventsIn_append, hevents, eventsIn_eq_nil, List.append_nil]
        intro e' he'
        have hin := mem_blockEvents body he'
        omega
      · have hge := (mem_blockEvents body h).1
        obtain ⟨ws, inner, hblock, hopened, hevents⟩ := blockEvents_block h fun hmem hle =>
          eventsOf_block body (fun e' he' => by rw [he'.block]; omega) hmem hle
        refine ⟨ws, inner, Draft.hasBlock_further.mpr ?_, hopened, ?_⟩
        · rcases hblock with hblock | hblock
          · exact Or.inl hblock
          · exact Or.inr (Or.inr hblock)
        · show eventsIn e.block (draftEvents opened offset before ++
            blockEvents _ before.tokens body) = _
          rw [eventsIn_append, hevents, eventsIn_eq_nil, List.nil_append]
          intro e' he'
          rcases mem_draftEvents before he' with hof | hin
          · have hlt := ho e' hof
            omega
          · omega

/-- **The events of a block in the file** are what the block does by itself. -/
theorem eventsOf_block (ds : List (Draft Str)) {opened : Opened} {offset : Nat}
    (ho : ∀ e' : Event, e'.IsOf opened → e'.block < offset) (h : e ∈ eventsOf opened offset ds)
    (hn : offset ≤ e.block) :
    ∃ ws inner, HasBlock ds ws inner ∧ e.BlockIs (eventsOf opened offset ds) ws inner := by
  cases ds with
  | nil => cases h
  | cons d ds =>
      rcases List.mem_append.mp h with h | h
      · obtain ⟨ws, inner, hblock, hopened, hevents⟩ := draftEvents_block d ho h hn
        have hlt : e.block < offset + d.lexemes.length := by
          rcases mem_draftEvents d h with hof | hin
          · have hlt := ho e hof
            omega
          · exact hin.2
        refine ⟨ws, inner, hasBlock_cons.mpr (Or.inl hblock), hopened, ?_⟩
        rw [eventsOf, eventsIn_append, hevents, eventsIn_eq_nil, List.append_nil]
        intro e' he'
        rcases mem_eventsOf ds he' with hof | hin
        · have hlt' := ho e' hof
          omega
        · omega
      · have hge : offset + d.lexemes.length ≤ e.block := by
          rcases mem_eventsOf ds h with hof | hin
          · have hlt' := ho e hof
            omega
          · exact hin.1
        obtain ⟨ws, inner, hblock, hopened, hevents⟩ :=
          eventsOf_block ds (fun e' he' => Nat.lt_of_lt_of_le (ho e' he') (by omega)) h hge
        refine ⟨ws, inner, hasBlock_cons.mpr (Or.inr hblock), hopened, ?_⟩
        rw [eventsOf, eventsIn_append, hevents, eventsIn_eq_nil, List.nil_append]
        intro e' he'
        rcases mem_draftEvents d he' with hof | hin
        · have hlt' := ho e' hof
          omega
        · omega

end

end

/-! ## 2. The entry of a location -/

/-- The fields of an entry that a block can leave as they are. -/
inductive Field where
  | root
  | apiKey
  deriving DecidableEq, Repr

/-- What is in the field. -/
def Field.of : Field → ConfigArg → Str
  | .root, args => args.root
  | .apiKey, args => args.apiKey

/-- What a change puts in the field, if it sets it. -/
def Field.sets : Field → Change → Option Str
  | .root, .root w => some w
  | .apiKey, .apiKey w => some w
  | _, .emptied => some []
  | _, _ => none

/-- What is in the field after these events. -/
def Field.after (f : Field) (es : List Event) : Str :=
  ((es.filterMap fun e => f.sets e.change).getLast?).getD []

/-- The events of a location. -/
def eventsAt (location : Str) (es : List Event) : List Event :=
  es.filter fun e => e.location = location

/-- The entry these events of a location leave, the last of which is `last`. -/
def entryOf (last : Event) (es : List Event) : ConfigArg where
  handlerType := last.handlerType
  location := last.location
  root := Field.root.after es
  apiKey := Field.apiKey.after es

section

variable {f : Field} {e last : Event} {es before after : List Event} {addrmap : AddrMap}
  {location w : Str}

theorem eventsAt_append (location : Str) (es es' : List Event) :
    eventsAt location (es ++ es') = eventsAt location es ++ eventsAt location es' :=
  List.filter_append ..

theorem eventsAt_self (e : Event) : eventsAt e.location [e] = [e] := by simp [eventsAt]

theorem eventsAt_ne (h : e.location ≠ location) : eventsAt location [e] = [] := by
  simp [eventsAt, h]

theorem eventsAt_eq_nil (h : ∀ e ∈ es, e.location ≠ location) : eventsAt location es = [] := by
  unfold eventsAt
  rw [List.filter_eq_nil_iff]
  intro e he
  simpa using h e he

/-- An event that sets the field. -/
theorem Field.after_set (h : f.sets e.change = some w) : f.after (es ++ [e]) = w := by
  simp [Field.after, List.filterMap_append, h]

/-- Events that do not set the field. -/
theorem Field.after_unset (h : ∀ e ∈ after, f.sets e.change = none) :
    f.after (es ++ after) = f.after es := by
  have hnone : after.filterMap (fun e => f.sets e.change) = [] :=
    List.filterMap_eq_nil_iff.mpr h
  simp only [Field.after, List.filterMap_append, hnone, List.append_nil]

/-- What an event does to the entries. -/
theorem getElem?_apply (addrmap : AddrMap) (e : Event) (location : Str) :
    (e.apply addrmap)[location]? =
      if e.location = location then some
        { handlerType := e.handlerType
          location := e.location
          root := (Field.root.sets e.change).getD ((addrmap[e.location]?.map (·.root)).getD [])
          apiKey := (Field.apiKey.sets e.change).getD ((addrmap[e.location]?.map (·.apiKey)).getD []) }
      else addrmap[location]? := by
  unfold Event.apply
  cases e.change with
  | root w | apiKey w =>
      dsimp only
      unfold mapLocation
      cases addrmap[e.location]? <;> rw [getElem?_assign] <;> rfl
  | emptied => exact getElem?_assign _ _ _ _

/-- **The entry of a location**: the handler type of its last event, and what its events leave in the
    two fields. -/
theorem entry_applyAll (es : List Event) (location : Str) :
    (applyAll ∅ es)[location]? =
      (eventsAt location es).getLast?.map fun last => entryOf last (eventsAt location es) := by
  induction es using List.reverseRecOn with
  | nil => rfl
  | append_singleton es e ih =>
      rw [applyAll_append]
      show (e.apply (applyAll ∅ es))[location]? = _
      rw [getElem?_apply, eventsAt_append]
      by_cases h : e.location = location
      · subst h
        have hfield : ∀ f : Field, (f.sets e.change).getD
            (((applyAll ∅ es)[e.location]?.map f.of).getD []) =
              f.after (eventsAt e.location es ++ [e]) := by
          intro f
          cases hset : f.sets e.change with
          | some w => rw [Option.getD_some, Field.after_set hset]
          | none =>
              have hrest : ∀ e' ∈ [e], f.sets e'.change = none := by
                intro e' he'
                rw [List.mem_singleton.mp he']
                exact hset
              rw [Option.getD_none, Field.after_unset hrest, ih]
              cases hlast : (eventsAt e.location es).getLast? with
              | none =>
                  rw [List.getLast?_eq_none_iff.mp hlast]
                  rfl
              | some last => cases f <;> rfl
        rw [if_pos rfl, eventsAt_self, List.getLast?_append, List.getLast?_singleton]
        have hroot := hfield .root
        have hkey := hfield .apiKey
        simp only [Option.some_or, Option.map_some, entryOf, ← hroot, ← hkey]
        rfl
      · rw [if_neg h, eventsAt_ne h, List.append_nil]
        exact ih

/-! ## 3. The last block -/

/-- **The last declaration wins**: the entry of the location is what the block of its last event
    makes by itself of the empty map. -/
def LastWins (addrmap : AddrMap) (last : Event) (tokens : List Str) (body : List (Draft Str)) : Prop :=
  addrmap[last.location]? =
    (applyAll ∅ (ownEvents (openedAt last.block tokens) body))[last.location]?

/-- The last event of the location that sets the field. -/
structure LastSets (f : Field) (location : Str) (es before : List Event) (e : Event) (w : Str) :
    Prop where
  here : ∃ after, es = before ++ e :: after ∧
    ∀ e' ∈ after, e'.location = location → f.sets e'.change = none
  location : e.location = location
  sets : f.sets e.change = some w

/-- **Something of an earlier block is left** in a field: another block than the last was the last to
    set it, to something else than the last block itself had set it to by then. -/
def LeftOver (es : List Event) (last : Event) : Prop :=
  ∃ f before e w, LastSets f last.location es before e w ∧ e.block ≠ last.block ∧
    w ≠ f.after (eventsAt last.location (eventsIn last.block before))

/-- A field that some event of the location sets. -/
theorem LastSets.value (h : LastSets f location es before e w) :
    f.after (eventsAt location es) = w := by
  obtain ⟨after, rfl, hafter⟩ := h.here
  have hunset : ∀ e' ∈ eventsAt location after, f.sets e'.change = none := by
    intro e' he'
    obtain ⟨hmem, hloc⟩ := List.mem_filter.mp he'
    exact hafter e' hmem (of_decide_eq_true hloc)
  have hsplit : eventsAt location (before ++ e :: after) =
      eventsAt location before ++ [e] ++ eventsAt location after := by
    rw [← eventsAt_self e, h.location, ← eventsAt_append, ← eventsAt_append, List.append_assoc]
    rfl
  rw [hsplit, Field.after_unset hunset, Field.after_set h.sets]

/-- Some event sets the field, and there is a last one, or none does. -/
theorem lastSets_or (f : Field) (location : Str) (es : List Event) :
    (∃ before e w, LastSets f location es before e w) ∨
      ∀ e ∈ es, e.location = location → f.sets e.change = none := by
  induction es using List.reverseRecOn with
  | nil => exact Or.inr nofun
  | append_singleton es e ih =>
      by_cases h : e.location = location ∧ f.sets e.change ≠ none
      · obtain ⟨w, hw⟩ := Option.ne_none_iff_exists'.mp h.2
        exact Or.inl ⟨es, e, w, ⟨[], rfl, nofun⟩, h.1, hw⟩
      · have hunset : e.location = location → f.sets e.change = none := fun hloc =>
          Classical.not_not.mp fun hne => h ⟨hloc, hne⟩
        rcases ih with ⟨before, e', w, ⟨after, hes, hafter⟩, hloc, hsets⟩ | hnone
        · refine Or.inl ⟨before, e', w, ⟨after ++ [e], by rw [hes]; simp, ?_⟩, hloc, hsets⟩
          intro x hx
          rcases List.mem_append.mp hx with hx | hx
          · exact hafter x hx
          · rw [List.mem_singleton.mp hx]
            exact hunset
        · refine Or.inr fun x hx => ?_
          rcases List.mem_append.mp hx with hx | hx
          · exact hnone x hx
          · rw [List.mem_singleton.mp hx]
            exact hunset

theorem eventsAt_eventsIn_cons (block : Nat) (location : Str) (e : Event) (es : List Event)
    (h : e.location = location) : eventsAt location (eventsIn block (e :: es)) =
      (if e.block = block then [e] else []) ++ eventsAt location (eventsIn block es) := by
  unfold eventsAt eventsIn
  by_cases hb : e.block = block <;> simp [hb, h]

/-- A field and what the last block alone leaves in it. -/
theorem field_same_iff (f : Field) (es : List Event) (last : Event) :
    f.after (eventsAt last.location es) =
        f.after (eventsAt last.location (eventsIn last.block es)) ↔
      ∀ before e w, LastSets f last.location es before e w → e.block ≠ last.block →
        w = f.after (eventsAt last.location (eventsIn last.block before)) := by
  have hown : ∀ before e w, LastSets f last.location es before e w →
      f.after (eventsAt last.location (eventsIn last.block es)) =
        if e.block = last.block then w
        else f.after (eventsAt last.location (eventsIn last.block before)) := by
    intro before e w h
    obtain ⟨after, rfl, hafter⟩ := h.here
    have hunset : ∀ e' ∈ eventsAt last.location (eventsIn last.block after),
        f.sets e'.change = none := by
      intro e' he'
      obtain ⟨hmem, hloc⟩ := List.mem_filter.mp he'
      exact hafter e' (List.mem_filter.mp hmem).1 (of_decide_eq_true hloc)
    rw [eventsIn_append, eventsAt_append, eventsAt_eventsIn_cons _ _ _ _ h.location,
      ← List.append_assoc, Field.after_unset hunset]
    by_cases hb : e.block = last.block
    · rw [if_pos hb, if_pos hb, Field.after_set h.sets]
    · rw [if_neg hb, if_neg hb, List.append_nil]
  constructor
  · intro hsame before e w h hb
    rw [h.value, hown before e w h, if_neg hb] at hsame
    exact hsame
  · intro hno
    rcases lastSets_or f last.location es with ⟨before, e, w, h⟩ | hnone
    · rw [h.value, hown before e w h]
      by_cases hb : e.block = last.block
      · rw [if_pos hb]
      · rw [if_neg hb]
        exact hno before e w h hb
    · have hall : ∀ es' : List Event, (∀ e ∈ es', e ∈ es) → f.after (eventsAt last.location es') = [] := by
        intro es' hsub
        have hunset : ∀ e ∈ eventsAt last.location es', f.sets e.change = none := by
          intro e he
          obtain ⟨hmem, hloc⟩ := List.mem_filter.mp he
          exact hnone e (hsub e hmem) (of_decide_eq_true hloc)
        have hnil : f.after ([] ++ eventsAt last.location es') = f.after [] := Field.after_unset hunset
        exact hnil
      rw [hall es fun _ he => he, hall (eventsIn last.block es) fun _ he => (List.mem_filter.mp he).1]

/-- **The last block of a location wins** exactly if nothing of an earlier one is left. -/
theorem lastWins_iff {tokens : List Str} {body : List (Draft Str)} (h : es = before ++ last :: after)
    (hlast : ∀ e ∈ after, e.location ≠ last.location) (hblock : last.BlockIs es tokens body) :
    LastWins (applyAll ∅ es) last tokens body ↔ ¬ LeftOver es last := by
  have hall : (eventsAt last.location es).getLast? = some last := by
    rw [h, show before ++ last :: after = before ++ [last] ++ after by simp, eventsAt_append,
      eventsAt_eq_nil hlast, List.append_nil, eventsAt_append, eventsAt_self, List.getLast?_append]
    rfl
  have hown : (eventsAt last.location (eventsIn last.block es)).getLast? = some last := by
    have hafter : eventsAt last.location (eventsIn last.block after) = [] :=
      eventsAt_eq_nil fun e he => hlast e (List.mem_filter.mp he).1
    rw [h, eventsIn_append, eventsAt_append, eventsAt_eventsIn_cons _ _ _ _ rfl, if_pos rfl, hafter,
      List.append_nil, List.getLast?_append]
    rfl
  unfold LastWins LeftOver
  rw [← hblock.events, entry_applyAll, entry_applyAll, hall, hown, Option.map_some, Option.map_some,
    Option.some.injEq]
  have hfields : entryOf last (eventsAt last.location es) =
      entryOf last (eventsAt last.location (eventsIn last.block es)) ↔
        ∀ f : Field, f.after (eventsAt last.location es) =
          f.after (eventsAt last.location (eventsIn last.block es)) := by
    unfold entryOf
    constructor
    · intro heq f
      cases f with
      | root => exact congrArg ConfigArg.root heq
      | apiKey => exact congrArg ConfigArg.apiKey heq
    · intro heq
      rw [heq .root, heq .apiKey]
  rw [hfields]
  constructor
  · intro hsame ⟨f, pre, e, w, hsets, hb, hw⟩
    exact hw ((field_same_iff f es last).mp (hsame f) pre e w hsets hb)
  · intro hno f
    refine (field_same_iff f es last).mpr fun pre e w hsets hb => ?_
    by_contra hw
    exact hno ⟨f, pre, e, w, hsets, hb, hw⟩

/-- **The last declaration of a location wins** in an accepted config exactly if no earlier block of
    it leaves something in a field. -/
theorem last_wins_iff {input : Str} {s : ParserState} (hp : parse input [] ∅ = .ok (true, s)) :
    ∃ ds, Delivers input (textOf ds) ∧ s.config = statementsOf ds ∧
      ∀ before last after, eventsOf none 0 ds = before ++ last :: after →
        (∀ e ∈ after, e.location ≠ last.location) →
          ∃ tokens body, HasBlock ds tokens body ∧ last.BlockIs (eventsOf none 0 ds) tokens body ∧
            (LastWins s.addrmap last tokens body ↔ ¬ LeftOver (eventsOf none 0 ds) last) := by
  obtain ⟨ds, hd, _, _, hconfig, hmap⟩ := parse_drafts hp
  refine ⟨ds, hd, hconfig, fun before last after h hlast => ?_⟩
  have hmem : last ∈ eventsOf none 0 ds := by
    rw [h]
    exact List.mem_append_right _ List.mem_cons_self
  obtain ⟨tokens, body, hhas, hblock⟩ := eventsOf_block ds
    (fun e' (he' : none = _) => nomatch he') hmem (Nat.zero_le _)
  refine ⟨tokens, body, hhas, hblock, ?_⟩
  rw [hmap]
  exact lastWins_iff h hlast hblock

/-- A location with a root, and declared again with another. -/
def rootTwice : Str := "location /a X\x7broot q;\x7d location /a Y\x7broot r;\x7d".toList

/-- `last_wins_iff` for it: the entry is that of the second block. -/
theorem last_wins_twice : ∃ s, parse rootTwice [] ∅ = .ok (true, s) ∧
    s.addrmap["/a".toList]? = some ⟨"Y".toList, "/a".toList, "r".toList, []⟩ ∧
    ∃ ds, Delivers rootTwice (textOf ds) ∧ s.config = statementsOf ds ∧
      ∀ before last after, eventsOf none 0 ds = before ++ last :: after →
        (∀ e ∈ after, e.location ≠ last.location) →
          ∃ tokens body, HasBlock ds tokens body ∧ last.BlockIs (eventsOf none 0 ds) tokens body ∧
            (LastWins s.addrmap last tokens body ↔ ¬ LeftOver (eventsOf none 0 ds) last) := by
  have hp : ∃ s, parse rootTwice [] ∅ = .ok (true, s) ∧
      s.addrmap["/a".toList]? = some ⟨"Y".toList, "/a".toList, "r".toList, []⟩ := ⟨_, rfl, rfl⟩
  obtain ⟨s, hs, hentry⟩ := hp
  exact ⟨s, hs, hentry, last_wins_iff hs⟩

/-- A location with a key, and declared again with a root. -/
def keyThenRoot : List (Draft Str) :=
  [.block ["location".toList, "/a".toList, "X".toList] [.simple ["api-key".toList, "k".toList]],
    .block ["location".toList, "/a".toList, "Y".toList] [.simple ["root".toList, "r".toList]]]

/-- **The key of an earlier declaration** is still there. -/
theorem key_left_over : ∃ s,
    parse "location /a X\x7bapi-key k;\x7d location /a Y\x7broot r;\x7d".toList [] ∅ = .ok (true, s) ∧
    Delivers "location /a X\x7bapi-key k;\x7d location /a Y\x7broot r;\x7d".toList
      (textOf keyThenRoot) ∧
    eventsOf none 0 keyThenRoot = [⟨3, "/a".toList, "X".toList, .apiKey "k".toList⟩] ++
      ⟨11, "/a".toList, "Y".toList, .root "r".toList⟩ :: [] ∧
    ¬ LastWins s.addrmap ⟨11, "/a".toList, "Y".toList, .root "r".toList⟩
      ["location".toList, "/a".toList, "Y".toList] [.simple ["root".toList, "r".toList]] := by
  have hp : ∃ s,
      parse "location /a X\x7bapi-key k;\x7d location /a Y\x7broot r;\x7d".toList [] ∅ =
        .ok (true, s) ∧
      s.addrmap["/a".toList]? = some ⟨"Y".toList, "/a".toList, "r".toList, "k".toList⟩ :=
    ⟨_, rfl, rfl⟩
  obtain ⟨s, hs, hentry⟩ := hp
  have hd : Delivers "location /a X\x7bapi-key k;\x7d location /a Y\x7broot r;\x7d".toList
      (textOf keyThenRoot) :=
    .token rfl rfl (.token rfl rfl (.token rfl rfl (.token rfl rfl (.token rfl rfl (.token rfl rfl
      (.token rfl rfl (.token rfl rfl (.token rfl rfl (.token rfl rfl (.token rfl rfl
        (.token rfl rfl (.token rfl rfl (.token rfl rfl (.token rfl rfl (.token rfl rfl
          (.eof rfl))))))))))))))))
  refine ⟨s, hs, hd, rfl, fun hwins => ?_⟩
  unfold LastWins at hwins
  rw [hentry] at hwins
  revert hwins
  decide

end

end Googolplex.Config
