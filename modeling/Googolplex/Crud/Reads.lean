/-
  File:      Googolplex/Crud/Reads.lean
  Subject:   WHAT A READ LEAVES BEHIND.

  The GET of a directory looks its key up with `operator[]`; an entity that was
  not known is known afterwards, with no ids. POST and PUT do the same with such
  an entity as with one they do not know. A DELETE does not.

  * `Ghost`: two states, one of which has in addition a key with no ids.
  * `alike_request`: what each operation makes of the two.
  * `Noticed`: the run comes to a DELETE of a file of the key before anything else makes it known.
  * `reads_silent_iff`: a GET can be left out if and only if it is not noticed.
-/
import Googolplex.Crud.Exits
import Googolplex.Dispatcher.Files

namespace Googolplex.Crud

open Cxx Posix Posix.FileTree RequestHandler Machine

/-! ## 1. Runs with and without a read -/

/-- One request, with the files shown besides the response. -/
def observed (handler : RequestHandler) (disk : Disk) (s : CrudState) (request : Request) :
    Except Fault (CrudState × Response × FileTree) :=
  match serve handler disk s request with
  | .error f => .error f
  | .ok (s', response) => .ok (s', response, s'.files)

/-- The request is a GET that makes a key known. -/
structure Inserts (handler : RequestHandler) (s : CrudState) (request : Request) (key : Str) : Prop where
  method : request.method = .get
  target : handler.checkRequestUrl request.target false = some key
  dir : s.files.lookup (pathOf handler key) = some .dir
  unknown : s.fileToId[key]? = none

/-- The request is a DELETE of a file of the key. -/
inductive Unlists (handler : RequestHandler) (s : CrudState) (request : Request) (key : Str) : Prop
  | intro {suffix content : Str} {value : Int} (method : request.method = .delete)
      (target : handler.checkRequestUrl request.target false = some suffix)
      (entity : entityOf suffix = key)
      (file : s.files.lookup (pathOf handler suffix) = some (.file content))
      (id : stoi (idNameOf suffix) = .ok value)

/-- **The run comes to a DELETE of a file of the key** while the key is not known. -/
def Noticed (handler : RequestHandler) (disk : Disk) (key : Str) : CrudState → List Request → Prop
  | _, [] => False
  | s, request :: requests =>
    Unlists handler s request key ∨ ∃ s' response, serve handler disk s request = .ok (s', response) ∧
      s'.fileToId[key]? = none ∧ Noticed handler disk key s' requests

/-- `a` has in addition to `b` a key with no ids; its directory is there. -/
structure Ghost (handler : RequestHandler) (key : Str) (a b : CrudState) : Prop where
  files : a.files = b.files
  unknown : b.fileToId[key]? = none
  ghost : a.fileToId = b.fileToId.insert key []
  dir : b.files.lookup (pathOf handler key) = some .dir

/-- The states are the same but for the key, or the key is known in both. -/
def SameBut (key : Str) (a b : CrudState) : Prop :=
  a.files = b.files ∧
    ((b.fileToId[key]? = none ∧ a.fileToId = b.fileToId.insert key []) ∨
      (b.fileToId[key]? ≠ none ∧ a.fileToId = b.fileToId))

/-- Both fail, or both answer the same. -/
def EqualBut (key : Str) (x y : Outcome) : Prop :=
  (∃ f, x = .error f ∧ y = .error f) ∨
    ∃ a b r v, x = .ok (a, r, v) ∧ y = .ok (b, r, v) ∧ SameBut key a b

section

variable {handler : RequestHandler} {disk : Disk} {key : Str} {a b : CrudState} {request : Request}
  {response : Response}

/-! ## 2. The map -/

theorem insertToMap_ghost (m : FileToId) {entity : Str} (value : Int) (h : key ≠ entity) :
    insertToMap (m.insert key []) entity value =
      ((insertToMap m entity value).1, (insertToMap m entity value).2.insert key []) ∧
    (insertToMap m entity value).2[key]? = m[key]? := by
  unfold insertToMap
  rw [getElem?_assign_of_ne _ _ h]
  cases m[entity]? with
  | none => exact ⟨rfl, rfl⟩
  | some ids =>
      dsimp only
      split
      · exact ⟨rfl, rfl⟩
      · refine ⟨?_, getElem?_assign_of_ne _ _ (Ne.symm h)⟩
        rw [assign_comm _ _ _ h]

theorem getNextId_ghost (m : FileToId) {entity : Str} (h : key ≠ entity) :
    (∃ f, getNextId (m.insert key []) entity = .error f ∧ getNextId m entity = .error f) ∨
    ∃ value m', getNextId (m.insert key []) entity = .ok (value, m'.insert key []) ∧
      getNextId m entity = .ok (value, m') ∧ m'[key]? = m[key]? := by
  unfold getNextId
  rw [getElem?_assign_of_ne _ _ h]
  cases m[entity]? with
  | none =>
      refine Or.inr ⟨1, m.insert entity [1], ?_, rfl, getElem?_assign_of_ne _ _ (Ne.symm h)⟩
      rw [assign_comm _ _ _ h]
  | some ids =>
      dsimp only
      cases lowestAvailableId 1 ids with
      | error f => exact Or.inl ⟨f, rfl, rfl⟩
      | ok lowest =>
          obtain ⟨hmap, hkey⟩ := insertToMap_ghost m lowest h
          refine Or.inr ⟨lowest, _, ?_, rfl, hkey⟩
          dsimp only
          rw [hmap]

/-- The first id of a key with no ids is the first id of one that is not known. -/
theorem getNextId_first {m : FileToId} (h : m[key]? = none) :
    getNextId (m.insert key []) key = .ok (1, m.insert key [1]) ∧
      getNextId m key = .ok (1, m.insert key [1]) := by
  constructor
  · unfold getNextId insertToMap
    rw [getElem?_assign_self]
    simp [lowestAvailableId, assign_assign]
  · unfold getNextId
    rw [h]

theorem insertToMap_first (m : FileToId) (value : Int) :
    insertToMap (m.insert key []) key value = (true, m.insert key [value]) := by
  unfold insertToMap
  rw [getElem?_assign_self]
  simp [assign_assign]

/-! ## 3. The operations -/

theorem Ghost.createDir (h : Ghost handler key a b) :
    RequestHandler.createDir b.files (pathOf handler key) = (true, b.files) := by
  unfold RequestHandler.createDir
  rw [if_pos h.dir]

theorem Ghost.known (h : Ghost handler key a b) : a.fileToId[key]? = some [] := by
  rw [h.ghost]
  exact getElem?_assign_self _ _ _

theorem Ghost.other (h : Ghost handler key a b) {entity : Str} (hne : key ≠ entity) :
    a.fileToId[entity]? = b.fileToId[entity]? := by
  rw [h.ghost]
  exact getElem?_assign_of_ne _ _ hne

theorem alike_post (h : Ghost handler key a b) (suffix : Str) :
    EqualBut key (handlePostRequest handler disk a suffix request response)
      (handlePostRequest handler disk b suffix request response) := by
  unfold handlePostRequest
  dsimp only
  by_cases hkey : key = suffix
  · subst hkey
    obtain ⟨ha, hb⟩ := getNextId_first h.unknown
    have hknown : (b.fileToId.insert key [1])[key]? ≠ none := by
      rw [getElem?_assign_self]
      simp
    have hlisted : ¬ a.fileToId[key]? = none := by
      rw [h.known]
      simp
    rw [if_neg hlisted, if_pos h.unknown, h.createDir, h.ghost, ha, hb, h.files]
    dsimp only
    generalize writeToFile disk b.files (pathOf handler key ++ '/' :: toStr 1) request.body = w
    obtain ⟨written, files⟩ := w
    cases written with
    | true => exact Or.inr ⟨_, _, _, _, rfl, rfl, rfl, Or.inr ⟨hknown, rfl⟩⟩
    | false => exact Or.inr ⟨_, _, _, _, rfl, rfl, rfl, Or.inr ⟨hknown, rfl⟩⟩
  · rw [h.other hkey, h.files]
    generalize (if b.fileToId[suffix]? = none then
      RequestHandler.createDir b.files (pathOf handler suffix) else (true, b.files)) = made
    obtain ⟨created, files⟩ := made
    dsimp only
    cases created with
    | false => exact Or.inr ⟨_, _, _, _, rfl, rfl, rfl, Or.inl ⟨h.unknown, h.ghost⟩⟩
    | true =>
        rw [h.ghost]
        rcases getNextId_ghost b.fileToId hkey with ⟨f, ha, hb⟩ | ⟨value, m, ha, hb, hm⟩
        · rw [ha, hb]
          exact Or.inl ⟨f, rfl, rfl⟩
        · rw [ha, hb]
          dsimp only
          generalize writeToFile disk files (pathOf handler suffix ++ '/' :: toStr value)
            request.body = w
          obtain ⟨written, files⟩ := w
          have hunknown := hm.trans h.unknown
          cases written with
          | true => exact Or.inr ⟨_, _, _, _, rfl, rfl, rfl, Or.inl ⟨hunknown, rfl⟩⟩
          | false => exact Or.inr ⟨_, _, _, _, rfl, rfl, rfl, Or.inl ⟨hunknown, rfl⟩⟩

theorem alike_get (h : Ghost handler key a b) (suffix : Str) :
    EqualBut key (handleGetRequest handler a suffix response)
      (handleGetRequest handler b suffix response) := by
  have hsame : SameBut key a b := ⟨h.files, Or.inl ⟨h.unknown, h.ghost⟩⟩
  unfold handleGetRequest
  dsimp only
  rw [h.files]
  split
  · by_cases hkey : key = suffix
    · subst hkey
      rw [h.known, h.unknown]
      refine Or.inr ⟨_, _, _, _, rfl, rfl, rfl, Or.inr ⟨?_, ?_⟩⟩
      · rw [getElem?_assign_self]
        simp
      · rw [h.ghost, assign_assign]
        rfl
    · rw [h.other hkey]
      refine Or.inr ⟨_, _, _, _, rfl, rfl, rfl, Or.inl ⟨?_, ?_⟩⟩
      · rw [getElem?_assign_of_ne _ _ (Ne.symm hkey)]
        exact h.unknown
      · rw [h.ghost, assign_comm _ _ _ hkey]
  · split
    · exact Or.inl ⟨_, rfl, rfl⟩
    · exact Or.inr ⟨_, _, _, _, rfl, rfl, hsame⟩
    · exact Or.inr ⟨_, _, _, _, rfl, rfl, hsame⟩
  · exact Or.inr ⟨_, _, _, _, rfl, rfl, hsame⟩

theorem alike_put (h : Ghost handler key a b) (suffix : Str) :
    EqualBut key (handlePutRequest handler disk a suffix request response)
      (handlePutRequest handler disk b suffix request response) := by
  have hsame : SameBut key a b := ⟨h.files, Or.inl ⟨h.unknown, h.ghost⟩⟩
  unfold handlePutRequest
  dsimp only
  split
  · split
    · exact Or.inl ⟨_, rfl, rfl⟩
    · rename_i value _
      by_cases hkey : key = entityOf suffix
      · have hknown : (b.fileToId.insert key [value])[key]? ≠ none := by
          rw [getElem?_assign_self]
          simp
        have ha : a.fileToId[key]? ≠ none := by
          rw [h.known]
          simp
        have hb : ¬ b.fileToId[key]? ≠ none := not_not.mpr h.unknown
        rw [← hkey, if_pos ha, if_neg hb, if_pos ha, if_neg hb, h.createDir, h.ghost,
          insertToMap_first, h.files]
        dsimp only
        generalize writeToFile disk b.files (pathOf handler suffix) request.body = w
        obtain ⟨written, files⟩ := w
        cases written with
        | true => exact Or.inr ⟨_, _, _, _, rfl, rfl, rfl, Or.inr ⟨hknown, rfl⟩⟩
        | false => exact Or.inr ⟨_, _, _, _, rfl, rfl, rfl, Or.inr ⟨hknown, rfl⟩⟩
      · rw [h.other hkey, h.files]
        generalize (if b.fileToId[entityOf suffix]? ≠ none then (true, b.files)
          else RequestHandler.createDir b.files (pathOf handler (entityOf suffix))) = made
        obtain ⟨created, files⟩ := made
        dsimp only
        cases created with
        | false => exact Or.inr ⟨_, _, _, _, rfl, rfl, rfl, Or.inl ⟨h.unknown, h.ghost⟩⟩
        | true =>
            obtain ⟨hmap, hrest⟩ := insertToMap_ghost b.fileToId value hkey
            rw [h.ghost, hmap]
            generalize writeToFile disk files (pathOf handler suffix) request.body = w
            obtain ⟨written, files⟩ := w
            have hunknown := hrest.trans h.unknown
            have hassigned : (b.fileToId.insert (entityOf suffix) [value])[key]? = none := by
              rw [getElem?_assign_of_ne _ _ (Ne.symm hkey)]
              exact h.unknown
            by_cases hlisted : b.fileToId[entityOf suffix]? ≠ none
            · rw [if_pos hlisted, if_pos hlisted]
              dsimp only
              cases written with
              | true => exact Or.inr ⟨_, _, _, _, rfl, rfl, rfl, Or.inl ⟨hunknown, rfl⟩⟩
              | false => exact Or.inr ⟨_, _, _, _, rfl, rfl, rfl, Or.inl ⟨hunknown, rfl⟩⟩
            · rw [if_neg hlisted, if_neg hlisted, assign_comm _ _ _ hkey]
              dsimp only
              cases written with
              | true => exact Or.inr ⟨_, _, _, _, rfl, rfl, rfl, Or.inl ⟨hassigned, rfl⟩⟩
              | false => exact Or.inr ⟨_, _, _, _, rfl, rfl, rfl, Or.inl ⟨hassigned, rfl⟩⟩
  · exact Or.inr ⟨_, _, _, _, rfl, rfl, hsame⟩

theorem alike_delete (h : Ghost handler key a b) {suffix : Str}
    (hno : ∀ content value, entityOf suffix = key →
      b.files.lookup (pathOf handler suffix) = some (.file content) →
      stoi (idNameOf suffix) ≠ .ok value) :
    EqualBut key (handleDeleteRequest handler a suffix response)
      (handleDeleteRequest handler b suffix response) := by
  have hsame : SameBut key a b := ⟨h.files, Or.inl ⟨h.unknown, h.ghost⟩⟩
  unfold handleDeleteRequest
  dsimp only
  rw [h.files]
  split
  · exact Or.inr ⟨_, _, _, _, rfl, rfl, hsame⟩
  · exact Or.inr ⟨_, _, _, _, rfl, rfl, hsame⟩
  · rename_i content hfile
    split
    · exact Or.inr ⟨_, _, _, _, rfl, rfl, hsame⟩
    · rename_i value hvalue
      have hkey : key ≠ entityOf suffix := fun heq => hno content value heq.symm hfile hvalue
      rw [h.other hkey]
      split
      · exact Or.inr ⟨_, _, _, _, rfl, rfl, hsame⟩
      · split
        · refine Or.inr ⟨_, _, _, _, rfl, rfl, rfl, Or.inl ⟨?_, ?_⟩⟩
          · rw [getElem?_assign_of_ne _ _ (Ne.symm hkey)]
            exact h.unknown
          · rw [h.ghost, assign_comm _ _ _ hkey]
        · exact Or.inr ⟨_, _, _, _, rfl, rfl, hsame⟩

theorem alike_request (h : Ghost handler key a b) (hno : ¬ Unlists handler b request key) :
    EqualBut key (handleRequest handler disk a request response)
      (handleRequest handler disk b request response) := by
  have hsame : SameBut key a b := ⟨h.files, Or.inl ⟨h.unknown, h.ghost⟩⟩
  unfold handleRequest
  cases ht : handler.checkRequestUrl request.target false with
  | none => exact Or.inr ⟨_, _, _, _, rfl, rfl, hsame⟩
  | some suffix =>
      dsimp only
      cases hm : request.method with
      | post => exact alike_post h suffix
      | get => exact alike_get h suffix
      | put => exact alike_put h suffix
      | delete =>
          exact alike_delete h fun content value he hf hv => hno (.intro hm ht he hf hv)
      | _ => exact Or.inr ⟨_, _, _, _, rfl, rfl, hsame⟩

/-! ## 4. Runs -/

/-- **A request that does not notice the key** is answered alike, and the key stays the only
    difference or is none any more. -/
theorem Ghost.step (disk : Disk) (h : Ghost handler key a b) (hno : ¬ Unlists handler b request key) :
    (∃ f, observed handler disk a request = .error f ∧ observed handler disk b request = .error f) ∨
    ∃ a' b' o, observed handler disk a request = .ok (a', o) ∧
      observed handler disk b request = .ok (b', o) ∧
      (Ghost handler key a' b' ∨ (b'.fileToId[key]? ≠ none ∧ a' = b')) := by
  have halike : EqualBut key
      (handleRequest handler disk a request (({ } : Response).set .accessControlAllowOrigin ['*']))
      (handleRequest handler disk b request (({ } : Response).set .accessControlAllowOrigin ['*'])) :=
    alike_request h hno
  unfold observed serve
  rcases halike with ⟨f, ha, hb⟩ | ⟨a', b', r, v, ha, hb, hfiles, hmap⟩
  · rw [ha, hb]
    exact Or.inl ⟨f, rfl, rfl⟩
  · have hdir : b'.files.lookup (pathOf handler key) = some .dir :=
      lookup_grows (handleRequest_touch hb).grows h.dir
    rw [ha, hb]
    dsimp only
    rw [hfiles]
    refine Or.inr ⟨a', b', (r, b'.files), rfl, rfl, ?_⟩
    rcases hmap with ⟨hunknown, hghost⟩ | ⟨hknown, hsame⟩
    · exact Or.inl ⟨hfiles, hunknown, hghost, hdir⟩
    · refine Or.inr ⟨hknown, ?_⟩
      obtain ⟨ma, fa⟩ := a'
      obtain ⟨mb, fb⟩ := b'
      obtain rfl : fa = fb := hfiles
      obtain rfl : ma = mb := hsame
      rfl

/-- **A DELETE that notices the key** is answered with 200 where it is known, and with 404 where it
    is not. -/
theorem Ghost.told (disk : Disk) (h : Ghost handler key a b) (hu : Unlists handler b request key) :
    ∃ a' b' r r' files files', observed handler disk a request = .ok (a', r, files) ∧
      observed handler disk b request = .ok (b', r', files') ∧ r.result = .ok ∧
      r'.result = .notFound := by
  obtain ⟨hm, ht, he, hfile, hid⟩ := hu
  rename_i suffix content value
  obtain ⟨p, hp, hnode⟩ := Option.bind_eq_some_iff.mp hfile
  obtain ⟨gone, hgone⟩ := unlink_of_resolve hp ⟨content, hnode⟩
  unfold observed serve handleRequest
  rw [ht]
  dsimp only
  rw [hm]
  dsimp only
  unfold handleDeleteRequest
  dsimp only
  rw [h.files, hfile]
  dsimp only
  rw [hid, he]
  dsimp only
  rw [h.known, h.unknown]
  dsimp only
  rw [hgone]
  exact ⟨_, _, _, _, _, _, rfl, rfl, rfl, rfl⟩

/-- **A run shows the key** exactly if it comes to such a DELETE; by induction on the requests. -/
theorem Ghost.trace : ∀ (requests : List Request) {a b : CrudState}, Ghost handler key a b →
    (Machine.trace (observed handler disk) a requests =
        Machine.trace (observed handler disk) b requests ↔ ¬ Noticed handler disk key b requests) := by
  intro requests
  induction requests with
  | nil =>
      intro a b _
      exact ⟨fun _ h => h, fun _ => rfl⟩
  | cons request requests ih =>
      intro a b h
      by_cases hu : Unlists handler b request key
      · obtain ⟨a', b', r, r', files, files', ha, hb, hr, hr'⟩ := h.told disk hu
        rw [trace_ok ha, trace_ok hb]
        constructor
        · intro heq
          obtain ⟨hout, _⟩ := Prod.mk.inj (Except.ok.inj (List.cons.inj heq).1)
          rw [← hout, hr] at hr'
          cases hr'
        · intro hno
          exact absurd (Or.inl hu) hno
      · have hnext : ∀ s' response, serve handler disk b request = .ok (s', response) →
            observed handler disk b request = .ok (s', response, s'.files) := fun s' response hs => by
          unfold observed
          rw [hs]
        rcases h.step disk hu with ⟨f, ha, hb⟩ | ⟨a', b', o, ha, hb, hrest⟩
        · rw [trace_error ha, trace_error hb]
          refine ⟨fun _ hn => ?_, fun _ => rfl⟩
          rcases hn with hn | ⟨s', response, hs, _⟩
          · exact hu hn
          · rw [hnext s' response hs] at hb
            cases hb
        · rw [trace_ok ha, trace_ok hb, List.cons_inj_right]
          have hserve : ∃ response, serve handler disk b request = .ok (b', response) := by
            unfold observed at hb
            split at hb
            · cases hb
            · rename_i s' response hs
              cases hb
              exact ⟨response, hs⟩
          obtain ⟨response, hserve⟩ := hserve
          have hnoticed : Noticed handler disk key b (request :: requests) ↔
              b'.fileToId[key]? = none ∧ Noticed handler disk key b' requests := by
            constructor
            · intro hn
              rcases hn with hn | ⟨s', response', hs, hrest⟩
              · exact absurd hn hu
              · rw [hserve] at hs
                cases hs
                exact hrest
            · intro hn
              exact Or.inr ⟨b', response, hserve, hn⟩
          rw [hnoticed]
          rcases hrest with hghost | ⟨hknown, hsame⟩
          · rw [ih hghost]
            exact not_congr ⟨fun hn => ⟨hghost.unknown, hn⟩, And.right⟩
          · rw [hsame]
            exact ⟨fun _ hn => hknown hn.1, fun _ => rfl⟩

/-- What a GET leaves: everything as it was, or a key with no ids in addition. -/
theorem observed_get (handler : RequestHandler) (disk : Disk) (hm : request.method = .get) (s : CrudState) :
    ∃ s' o, observed handler disk s request = .ok (s', o) ∧
      ((s' = s ∧ ∀ key, ¬ Inserts handler s request key) ∨
        ∃ key, Inserts handler s request key ∧ Ghost handler key s' s) := by
  unfold observed serve handleRequest
  cases ht : handler.checkRequestUrl request.target false with
  | none =>
      refine ⟨_, _, rfl, Or.inl ⟨rfl, fun key hi => ?_⟩⟩
      rw [hi.target] at ht
      cases ht
  | some suffix =>
      have hkey : ∀ key, Inserts handler s request key → key = suffix := fun key hi =>
        Option.some.inj (hi.target.symm.trans ht)
      dsimp only
      rw [hm]
      dsimp only
      unfold handleGetRequest readFromFile
      dsimp only
      cases hl : s.files.lookup (pathOf handler suffix) with
      | none =>
          refine ⟨_, _, rfl, Or.inl ⟨rfl, fun key hi => ?_⟩⟩
          have hdir := hi.dir
          rw [hkey key hi, hl] at hdir
          cases hdir
      | some node =>
          cases node with
          | file content =>
              refine ⟨_, _, rfl, Or.inl ⟨rfl, fun key hi => ?_⟩⟩
              have hdir := hi.dir
              rw [hkey key hi, hl] at hdir
              cases hdir
          | dir =>
              refine ⟨_, _, rfl, ?_⟩
              cases hk : s.fileToId[suffix]? with
              | some ids =>
                  refine Or.inl ⟨?_, fun key hi => ?_⟩
                  · rw [Option.getD_some, assign_same hk]
                  · have hunknown := hi.unknown
                    rw [hkey key hi, hk] at hunknown
                    cases hunknown
              | none => exact Or.inr ⟨suffix, ⟨hm, ht, hl, hk⟩, ⟨rfl, hk, rfl, hl⟩⟩

end

/-- **When a GET can be left out of a run**: no DELETE of a file of its key comes while, without the
    GET, the key would not be known. -/
theorem reads_silent_iff (handler : RequestHandler) (disk : Disk) (start : CrudState)
    (before after : List Request) (request : Request) (hm : request.method = .get) :
    (trace (observed handler disk) start (before ++ request :: after)).eraseIdx before.length =
        trace (observed handler disk) start (before ++ after) ↔
      ∀ s outputs, run (observed handler disk) start before = .ok (s, outputs) →
        ∀ key, Inserts handler s request key → ¬ Noticed handler disk key s after := by
  rw [trace_eraseIdx]
  refine forall₃_congr fun s outputs _ => ?_
  obtain ⟨s', o, hget, hleft⟩ := observed_get handler disk hm s
  rw [trace_ok hget, List.tail_cons]
  rcases hleft with ⟨rfl, hno⟩ | ⟨key, hi, hghost⟩
  · exact ⟨fun _ key hi => absurd hi (hno key), fun _ => rfl⟩
  · rw [hghost.trace after]
    constructor
    · intro hn key' hi'
      rw [Option.some.inj (hi'.target.symm.trans hi.target)]
      exact hn
    · intro hall
      exact hall key hi

/-- A body is posted. -/
def postShoes : Request := ask .post "/api/Shoes" "red"

/-- Its entity is read under another spelling. -/
def getShoes : Request := ask .get "/api/./Shoes" ""

/-- Its file is removed under that spelling. -/
def deleteShoes : Request := ask .delete "/api/./Shoes/1" ""

/-- The posted body is asked for in between; that is not noticed. -/
theorem reads_silent_shoes : (trace (observed apiHandler Disk.reliable) apiStart
      ([postShoes] ++ ask .get "/api/Shoes/1" "" :: [deleteShoes])).eraseIdx 1 =
    trace (observed apiHandler Disk.reliable) apiStart ([postShoes] ++ [deleteShoes]) := by
  refine (reads_silent_iff apiHandler Disk.reliable apiStart [postShoes] [deleteShoes]
    (ask .get "/api/Shoes/1" "") rfl).mpr fun s outputs hrun key hi => ?_
  -- what is read is a file
  obtain ⟨s', o, os, hpost, hnil, _⟩ := run_cons.mp hrun
  cases hnil
  have hkey : apiHandler.checkRequestUrl "/api/Shoes/1".toList false = some "Shoes/1".toList := by
    decide +kernel
  obtain rfl : key = "Shoes/1".toList := Option.some.inj (hi.target.symm.trans hkey)
  have hfile : (observed apiHandler Disk.reliable apiStart postShoes).toOption.map
      (fun v => v.1.files.lookup (pathOf apiHandler "Shoes/1".toList)) =
        some (some (.file "red".toList)) := by decide +kernel
  rw [hpost] at hfile
  have hread : s.files.lookup (pathOf apiHandler "Shoes/1".toList) = some (.file "red".toList) :=
    Option.some.inj hfile
  have hdir := hi.dir
  rw [hread] at hdir
  cases hdir

/-- **A GET that is noticed**: with it the DELETE is answered with 200, without it with 404. -/
theorem read_noticed : (trace (observed apiHandler Disk.reliable) apiStart
      ([postShoes] ++ getShoes :: [deleteShoes])).eraseIdx 1 ≠
    trace (observed apiHandler Disk.reliable) apiStart ([postShoes] ++ [deleteShoes]) := by
  intro h
  have hresults := congrArg (List.map fun o : Except Fault (Response × FileTree) =>
    o.toOption.map fun v => v.1.result) h
  revert hresults
  decide +kernel

end Googolplex.Crud
