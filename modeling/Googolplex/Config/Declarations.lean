/-
  File:      Googolplex/Config/Declarations.lean
  Subject:   WHAT THE BLOCKS OF A CONFIG DO TO THE ADDRESS MAP, for every config
             that is accepted.

  A `root`, `data_path` or `api-key` with a word after it, in the block of a
  location, and the end of such a block that is empty: each is an event of its
  block. The address map is what the events in a row make of the empty map.

  * `read_drafts`: the reader over the text of drafts.
  * `parse_drafts`: an accepted config is the text of drafts, and what `Parse`
    leaves of them.
-/
import Googolplex.Config.AddressMap
import Googolplex.Library.Drafts

namespace Googolplex.Config

open Cxx Blocks

/-! ## 1. Events -/

/-- What is done to an entry. -/
inductive Change where
  | root (w : Str)
  | apiKey (w : Str)
  | emptied
  deriving DecidableEq, Repr

/-- **A block does something to the entry of its location.** The block is named by the position of
    its `{` among the lexemes of the file. -/
structure Event where
  block : Nat
  location : Str
  handlerType : Str
  change : Change
  deriving DecidableEq, Repr

/-- The block of a location with a handler type, and the position of its `{`. -/
abbrev Opened := Option (Nat × Str × Str)

/-- What two words in a row do. -/
def changeOf (v w : Str) : Option Change :=
  if v = "root".toList ∨ v = "data_path".toList then some (.root w)
  else if v = "api-key".toList then some (.apiKey w)
  else none

/-- Two words in a row. -/
def pairEvent (opened : Opened) (v w : Str) : List Event :=
  match opened with
  | none => []
  | some (n, location, handlerType) =>
    match changeOf v w with
    | some change => [⟨n, location, handlerType, change⟩]
    | none => []

/-- The words of a statement, pair by pair. -/
def pairEvents (opened : Opened) : List Str → List Event
  | [] => []
  | [_] => []
  | v :: w :: ws => pairEvent opened v w ++ pairEvents opened (w :: ws)

/-- The end of a block. -/
def endEvents (opened : Opened) (body : List (Draft Str)) : List Event :=
  match opened with
  | some (n, location, handlerType) =>
    if body.isEmpty then [⟨n, location, handlerType, .emptied⟩] else []
  | none => []

/-- What a `{` at a position opens, after these words. -/
def openedAt (n : Nat) (tokens : List Str) : Opened := (locationOf tokens).map (n, ·)

mutual

/-- The events of a draft in document order; it begins at a position, in a block. -/
def draftEvents (opened : Opened) (offset : Nat) : Draft Str → List Event
  | .simple tokens => pairEvents opened tokens
  | .block tokens body =>
    let n := offset + tokens.length
    pairEvents opened tokens ++
      (eventsOf (openedAt n tokens) (n + 1) body ++ endEvents (openedAt n tokens) body)
  | .further before body =>
    let n := offset + before.lexemes.length
    draftEvents opened offset before ++
      (eventsOf (openedAt n before.tokens) (n + 1) body ++ endEvents (openedAt n before.tokens) body)

/-- The events of drafts in a row. -/
def eventsOf (opened : Opened) (offset : Nat) : List (Draft Str) → List Event
  | [] => []
  | d :: ds => draftEvents opened offset d ++ eventsOf opened (offset + d.lexemes.length) ds

end

/-- What `Parse` does to the map at an event. -/
def Event.apply (addrmap : AddrMap) (e : Event) : AddrMap :=
  match e.change with
  | .root w => mapLocation addrmap e.location e.handlerType fun args => { args with root := w }
  | .apiKey w => mapLocation addrmap e.location e.handlerType fun args => { args with apiKey := w }
  | .emptied => mapEmptyBlock addrmap ["location".toList, e.location, e.handlerType]

/-- Events in a row. -/
def applyAll (addrmap : AddrMap) (es : List Event) : AddrMap := es.foldl Event.apply addrmap

section

variable {σ : Settings} {opened : Opened} {es es' : List Event} {addrmap : AddrMap}

@[simp] theorem applyAll_nil (addrmap : AddrMap) : applyAll addrmap [] = addrmap := rfl

theorem applyAll_append (addrmap : AddrMap) (es es' : List Event) :
    applyAll addrmap (es ++ es') = applyAll (applyAll addrmap es) es' :=
  List.foldl_append

/-- Two words in a row do what their event does. -/
theorem pair_apply (h : σ.Located) (v w : Str) :
    (σ.pair (opened.map (·.2)) v w).addrmap = applyAll σ.addrmap (pairEvent opened v w) := by
  have hentry := mapLocation_eq h
  unfold Settings.pair pairEvent
  by_cases hlisten : v = "listen".toList
  · have hnone : changeOf v w = none := by
      unfold changeOf
      rw [if_neg (by rw [hlisten]; decide), if_neg (by rw [hlisten]; decide)]
    rw [if_pos hlisten, hnone]
    cases opened <;> rfl
  · rw [if_neg hlisten]
    cases opened with
    | none => rfl
    | some o =>
        obtain ⟨n, location, handlerType⟩ := o
        simp only [Option.map_some, changeOf]
        by_cases hroot : v = "root".toList ∨ v = "data_path".toList
        · rw [if_pos hroot, if_pos hroot]
          exact (hentry location handlerType fun args => { args with root := w }).symm
        · rw [if_neg hroot, if_neg hroot]
          by_cases hkey : v = "api-key".toList
          · rw [if_pos hkey, if_pos hkey]
            exact (hentry location handlerType fun args => { args with apiKey := w }).symm
          · rw [if_neg hkey, if_neg hkey]
            rfl

theorem words_apply (opened : Opened) (ws : List Str) : ∀ {σ : Settings}, σ.Located →
    (σ.words (opened.map (·.2)) ws).addrmap = applyAll σ.addrmap (pairEvents opened ws) ∧
      (σ.words (opened.map (·.2)) ws).Located := by
  induction ws with
  | nil => exact fun h => ⟨rfl, h⟩
  | cons v ws ih =>
      intro σ h
      cases ws with
      | nil => exact ⟨rfl, h⟩
      | cons w ws =>
          have hpair : (σ.pair (opened.map (·.2)) v w).Located := h.pair
          obtain ⟨hmap, hloc⟩ := ih hpair
          refine ⟨?_, hloc⟩
          show (Settings.words _ (w :: ws) (σ.pair _ v w)).addrmap = _
          rw [hmap, pair_apply h, ← applyAll_append]
          rfl

/-- The end of a block does what its event does. -/
theorem emptied_apply : (σ.emptied (opened.map (·.2))).addrmap =
    applyAll σ.addrmap (endEvents opened []) := by
  cases opened with
  | none => rfl
  | some o => rfl

end

/-! ## 2. The reader over the text of drafts -/

/-- The state after drafts: what is left of them is there, their events have happened. -/
structure Reading.Drafted (r r' : Reading) (ds : List (Draft Str)) (es : List Event) : Prop where
  frames : r'.frames = r.frames
  focus : r'.focus = r.focus ++ statementsOf ds
  addrmap : r'.settings.addrmap = applyAll r.settings.addrmap es
  located : r'.settings.Located
  same : ds = [] → r'.last = r.last
  ended : ds ≠ [] → r'.last = some .semi ∨ r'.last = some .cls

section

variable {r r' r'' : Reading} {ds : List (Draft Str)} {d : Draft Str} {es es' : List Event}
  {tokens : List Str} {before : NginxConfig} {frames : List (Frame Str)} {σ : Settings}

theorem Reading.Drafted.not_word (h : r.Drafted r' ds es) (hlast : ∀ v, r.last ≠ some (.word v)) :
    ∀ v, r'.last ≠ some (.word v) := by
  intro v hv
  by_cases hds : ds = []
  · rw [h.same hds] at hv
    exact hlast v hv
  · rcases h.ended hds with hl | hl <;> (rw [hl] at hv; cases hv)

theorem Reading.Drafted.enclosing (h : r.Drafted r' ds es) : r'.enclosing = r.enclosing := by
  unfold Reading.enclosing
  rw [h.frames]

theorem Reading.Drafted.cons (h : r.Drafted r' [d] es) (h' : r'.Drafted r'' ds es') :
    r.Drafted r'' (d :: ds) (es ++ es') where
  frames := h'.frames.trans h.frames
  focus := by rw [h'.focus, h.focus, List.append_assoc]; rfl
  addrmap := by rw [h'.addrmap, h.addrmap, applyAll_append]
  located := h'.located
  same := nofun
  ended _ := by
    by_cases hds : ds = []
    · rw [h'.same hds]
      exact h.ended (List.cons_ne_nil _ _)
    · exact h'.ended hds

/-- The `}` of a block whose drafts have been read. -/
theorem Reading.Drafted.close {opened : Opened} {body : List (Draft Str)}
    (h : Reading.Drafted ⟨⟨before, tokens⟩ :: frames, [], some .opn, σ⟩ r' body es)
    (ho : locationOf tokens = opened.map (·.2)) :
    ∃ σ', r'.step .cls = some ⟨frames, before ++ [.mk tokens (some (statementsOf body))],
        some .cls, σ'⟩ ∧
      σ'.addrmap = applyAll σ.addrmap (es ++ endEvents opened body) ∧ σ'.Located := by
  have hfocus : r'.focus = statementsOf body := h.focus
  have hmap : r'.settings.addrmap = applyAll σ.addrmap es := h.addrmap
  by_cases hb : body = []
  · subst hb
    have hlast : r'.last = some .opn := h.same rfl
    refine ⟨r'.settings.emptied (opened.map (·.2)), ?_, ?_, h.located.emptied⟩
    · rw [Reading.step_cls hlast (fun hw => hw) h.frames, if_pos rfl, hfocus, ho]
    · rw [emptied_apply, hmap, applyAll_append]
  · have hl : ∃ l, r'.last = some l ∧ ¬ l.IsWord ∧ l ≠ .opn := by
      rcases h.ended hb with hl | hl
      · exact ⟨.semi, hl, fun hw => hw, nofun⟩
      · exact ⟨.cls, hl, fun hw => hw, nofun⟩
    obtain ⟨l, hlast, hl, hopn⟩ := hl
    have hnone : endEvents opened body = [] := by
      unfold endEvents
      cases opened <;> simp [hb]
    refine ⟨r'.settings, ?_, ?_, h.located⟩
    · rw [Reading.step_cls hlast hl h.frames, if_neg hopn, hfocus]
    · rw [hnone, List.append_nil, hmap]

mutual

/-- A draft. -/
theorem read_draft (d : Draft Str) (hd : d.Every Worded) (r : Reading)
    (hlast : ∀ v, r.last ≠ some (.word v)) (hloc : r.settings.Located) (opened : Opened)
    (ho : r.enclosing = opened.map (·.2)) (offset : Nat) :
    ∃ r', r.read d.lexemes = some r' ∧ r.Drafted r' [d] (draftEvents opened offset d) := by
  cases d with
  | simple tokens =>
      obtain ⟨u, hu⟩ := read_words hd hlast
      obtain ⟨hmap, hlocated⟩ := words_apply opened tokens hloc
      rw [← ho] at hmap hlocated
      refine ⟨{ r with
        focus := r.focus ++ [.mk tokens none]
        last := some .semi
        settings := r.settings.words r.enclosing tokens }, ?_, rfl, rfl, hmap, hlocated, nofun,
        fun _ => Or.inl rfl⟩
      rw [Draft.lexemes, Reading.read_append, hu]
      rfl
  | block tokens body =>
      obtain ⟨u, hu⟩ := read_words hd.1 hlast
      obtain ⟨hmap, hlocated⟩ := words_apply opened tokens hloc
      rw [← ho] at hmap hlocated
      have ho' : locationOf tokens = (openedAt (offset + tokens.length) tokens).map (·.2) := by
        unfold openedAt
        cases locationOf tokens <;> rfl
      obtain ⟨r1, h1, hd1⟩ := read_drafts body hd.2 ⟨⟨r.focus, tokens⟩ :: r.frames, [], some .opn,
        r.settings.words r.enclosing tokens⟩ nofun hlocated (openedAt (offset + tokens.length) tokens)
        ho' (offset + tokens.length + 1)
      obtain ⟨σ', h2, hmap', hlocated'⟩ := hd1.close ho'
      refine ⟨⟨r.frames, r.focus ++ [.mk tokens (some (statementsOf body))], some .cls, σ'⟩, ?_,
        rfl, rfl, ?_, hlocated', nofun, fun _ => Or.inr rfl⟩
      · rw [Draft.lexemes, Reading.read_append, hu, Option.bind_some, Reading.read_cons,
          Reading.step_opn rfl, Option.bind_some, Reading.read_append, h1, Option.bind_some,
          Reading.read_cons, h2]
        rfl
      · rw [hmap', hmap, ← applyAll_append, draftEvents]
  | further e body =>
      obtain ⟨r0, h0, hd0⟩ := read_draft e hd.1 r hlast hloc opened ho offset
      obtain ⟨c, hc⟩ := e.statement_tokens
      have hfocus : r0.focus = r.focus ++ [.mk e.tokens c] := by
        rw [hd0.focus, ← hc]
        rfl
      have ho' : locationOf e.tokens =
          (openedAt (offset + e.lexemes.length) e.tokens).map (·.2) := by
        unfold openedAt
        cases locationOf e.tokens <;> rfl
      obtain ⟨r1, h1, hd1⟩ := read_drafts body hd.2 ⟨⟨r.focus, e.tokens⟩ :: r0.frames, [], some .opn,
        r0.settings⟩ nofun hd0.located (openedAt (offset + e.lexemes.length) e.tokens) ho'
        (offset + e.lexemes.length + 1)
      obtain ⟨σ', h2, hmap', hlocated'⟩ := hd1.close ho'
      refine ⟨⟨r0.frames, r.focus ++ [.mk e.tokens (some (statementsOf body))], some .cls, σ'⟩, ?_,
        hd0.frames, rfl, ?_, hlocated', nofun, fun _ => Or.inr rfl⟩
      · rw [Draft.lexemes, Reading.read_append, h0, Option.bind_some, Reading.read_cons,
          Reading.step_opn hfocus, Option.bind_some, Reading.read_append, h1, Option.bind_some,
          Reading.read_cons, h2]
        rfl
      · rw [hmap', hd0.addrmap, ← applyAll_append, draftEvents]

/-- **The text of drafts is read**, what is left of them is there, and their events happen. -/
theorem read_drafts (ds : List (Draft Str)) (hds : EveryDraft Worded ds) (r : Reading)
    (hlast : ∀ v, r.last ≠ some (.word v)) (hloc : r.settings.Located) (opened : Opened)
    (ho : r.enclosing = opened.map (·.2)) (offset : Nat) :
    ∃ r', r.read (textOf ds) = some r' ∧ r.Drafted r' ds (eventsOf opened offset ds) := by
  cases ds with
  | nil => exact ⟨r, rfl, rfl, by simp [statementsOf], rfl, hloc, fun _ => rfl, fun h => absurd rfl h⟩
  | cons d ds =>
      obtain ⟨r1, h1, hd1⟩ := read_draft d hds.1 r hlast hloc opened ho offset
      obtain ⟨r2, h2, hd2⟩ := read_drafts ds hds.2 r1 (hd1.not_word hlast) hd1.located opened
        (hd1.enclosing.trans ho) (offset + d.lexemes.length)
      refine ⟨r2, ?_, hd1.cons hd2⟩
      rw [textOf, Reading.read_append, h1]
      exact h2

end

/-- **An accepted config** is the text of drafts; what is left of them is its tree, and their events
    have filled its map. -/
theorem parse_drafts {input : Str} {s : ParserState} (hp : parse input [] ∅ = .ok (true, s)) :
    ∃ ds, Delivers input (textOf ds) ∧ EveryDraft Worded ds ∧ ds ≠ [] ∧
      s.config = statementsOf ds ∧ s.addrmap = applyAll ∅ (eventsOf none 0 ds) := by
  obtain ⟨ts, hd, hwide, hports⟩ := (accepted_iff_grammatical input).mp ⟨s, hp⟩
  obtain ⟨ds, rfl, hne, _, hds⟩ := hwide.drafts
  have hworded : EveryDraft Worded ds := EveryDraft.and ds hne (everyDraft_isChain ds hports)
  obtain ⟨us, r', hd', hr, hfin, rfl⟩ := parse_true_iff.mp hp
  rw [← hd.unique hd'] at hr
  obtain ⟨r1, hr1, hdrafted⟩ := read_drafts ds hworded Reading.start nofun
    Reading.Fit.start.located none rfl 0
  rw [hr] at hr1
  cases hr1
  refine ⟨ds, hd, hworded, hds nofun, ?_, hdrafted.addrmap⟩
  show plug r'.frames r'.focus = _
  rw [hfin.2, hdrafted.focus]
  rfl

end

end Googolplex.Config
