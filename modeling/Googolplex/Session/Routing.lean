/-
  File:      Googolplex/Session/Routing.lean
  Subject:   ROUTER AND HANDLER (two ways to say what lies under a location).

  The session cuts the url at its slashes from the right; a handler looks for its
  location with a slash behind it at the front.

  * `search_slash`, `search_cut`: one turn of the search.
  * `search_some`, `search_covers`: what the search finds is a location that the url goes on from,
    and it passes over none.
  * `search_longest`: the location found is the longest one to choose from.
  * `router_handler_agree`: handler and router agree, but for the location `/`.
-/
import Googolplex.Handlers
import Googolplex.Session

namespace Googolplex

open Cxx RequestHandler

variable {World : Type} {routes : Routes World}

/-! ## 1. The search -/

/-- The search looks at what is before the last slash, and goes on in it. -/
theorem search_cut {a b : Str} (ha : a ≠ []) (hb : '/' ∉ b) :
    searchAddrBinding routes (a ++ '/' :: b) =
      if routes.contains a then some a else searchAddrBinding routes a := by
  have hpos : findLastOf '/' (a ++ '/' :: b) = some a.length := findLastOf_append hb a
  obtain ⟨n, hn⟩ : ∃ n, a.length = n + 1 := Nat.exists_eq_succ_of_ne_zero (by simpa using ha)
  have htake : (a ++ '/' :: b).take (n + 1) = a := by
    rw [← hn]
    exact List.take_left
  rw [searchAddrBinding]
  split
  · rename_i h
    rw [hpos, hn] at h
    cases h
  · rename_i pos h
    rw [hpos, hn] at h
    cases h
    rw [htake]
  · rename_i h
    rw [hpos] at h
    cases h

theorem search_slash {a : Str} (ha : a ≠ []) :
    searchAddrBinding routes (a ++ ['/']) =
      if routes.contains a then some a else searchAddrBinding routes a :=
  search_cut ha (by simp)

/-- What is left of the first slash is the root location. -/
theorem search_root {b : Str} (hb : '/' ∉ b) :
    searchAddrBinding routes ('/' :: b) = if routes.contains ['/'] then some ['/'] else none := by
  have hpos : findLastOf '/' ('/' :: b) = some 0 := findLastOf_append hb []
  rw [searchAddrBinding]
  split
  · rfl
  · rename_i h
    rw [hpos] at h
    cases h
  · rename_i h
    rw [hpos] at h
    cases h

theorem search_nowhere {url : Str} (h : '/' ∉ url) : searchAddrBinding routes url = none := by
  have hpos : findLastOf '/' url = none := findLastOf_none.mpr h
  rw [searchAddrBinding]
  split
  · rename_i h
    rw [hpos] at h
    cases h
  · rename_i h
    rw [hpos] at h
    cases h
  · rfl

/-- A location found in a url: the url goes on with a slash after it, or it is the root. -/
def Under (location url : Str) : Prop :=
  (location = ['/'] ∧ url.head? = some '/') ∨ (location ≠ [] ∧ location ++ ['/'] <+: url)

theorem Under.append {location url : Str} (h : Under location url) (s : Str) :
    Under location (url ++ s) := by
  rcases h with ⟨hl, hhead⟩ | ⟨hl, hpre⟩
  · refine Or.inl ⟨hl, ?_⟩
    rw [List.head?_append, hhead]
    rfl
  · exact Or.inr ⟨hl, hpre.trans (List.prefix_append _ _)⟩

/-- **What the search finds** is a location, and the url lies under it. -/
theorem search_some {location : Str} : ∀ (n : Nat) {url : Str}, url.length = n →
    searchAddrBinding routes url = some location → routes.contains location ∧ Under location url := by
  intro n
  induction n using Nat.strong_induction_on with
  | _ n ih =>
      intro url hn h
      cases hpos : findLastOf '/' url with
      | none =>
          rw [search_nowhere (findLastOf_none.mp hpos)] at h
          cases h
      | some i =>
          obtain ⟨a, b, rfl, hb, hi⟩ := findLastOf_some hpos
          by_cases ha : a = []
          · subst ha
            rw [List.nil_append, search_root hb] at h
            split at h
            · rename_i hc
              cases h
              exact ⟨hc, Or.inl ⟨rfl, rfl⟩⟩
            · cases h
          · rw [search_cut ha hb] at h
            split at h
            · rename_i hc
              cases h
              refine ⟨hc, Or.inr ⟨ha, ⟨b, by simp⟩⟩⟩
            · have hlt : a.length < n := by
                rw [← hn]
                simp
              obtain ⟨hc, hu⟩ := ih a.length hlt rfl h
              exact ⟨hc, hu.append _⟩

/-- A location that ends before the last slash of a url, or at it. -/
theorem prefix_cut {location a b : Str} (hb : '/' ∉ b) (h : location ++ ['/'] <+: a ++ '/' :: b) :
    location = a ∨ location ++ ['/'] <+: a := by
  obtain ⟨r, hr⟩ := h
  by_cases hslash : '/' ∈ r
  · -- the last slash of the url is one of the rest
    obtain ⟨i, hi⟩ := Option.ne_none_iff_exists'.mp (fun hn => findLastOf_none.mp hn hslash)
    obtain ⟨r₁, r₂, rfl, hr₂, _⟩ := findLastOf_some hi
    obtain ⟨ha, _⟩ := cut_last hr₂ hb (a := location ++ ['/'] ++ r₁) (by simpa using hr)
    exact Or.inr ⟨r₁, ha⟩
  · obtain ⟨ha, _⟩ := cut_last hslash hb (a := location) (by simpa using hr)
    exact Or.inl ha

theorem Under.isPrefix {location url : Str} (h : Under location url) : location <+: url := by
  rcases h with ⟨rfl, hhead⟩ | ⟨_, hpre⟩
  · cases url with
    | nil => cases hhead
    | cons c url =>
        cases hhead
        exact ⟨url, rfl⟩
  · exact (List.prefix_append _ _).trans hpre

/-- **The search passes over nothing**: a location the url lies under is found, or a longer one. -/
theorem search_covers {location : Str} (hl : routes.contains location) :
    ∀ (n : Nat) {url : Str}, url.length = n → Under location url →
      ∃ found, searchAddrBinding routes url = some found ∧ location.length ≤ found.length := by
  intro n
  induction n using Nat.strong_induction_on with
  | _ n ih =>
      intro url hn h
      have hslash : '/' ∈ url := by
        rcases h with ⟨_, hhead⟩ | ⟨_, hpre⟩
        · exact List.mem_of_mem_head? hhead
        · exact hpre.subset (by simp)
      obtain ⟨i, hi⟩ := Option.ne_none_iff_exists'.mp (fun hn => findLastOf_none.mp hn hslash)
      obtain ⟨a, b, rfl, hb, _⟩ := findLastOf_some hi
      by_cases ha : a = []
      · -- one slash is left, at the front: only the root can lie under it
        subst ha
        have hroot : location = ['/'] := by
          rcases h with ⟨hroot, _⟩ | ⟨hne, hpre⟩
          · exact hroot
          · rcases prefix_cut hb hpre with hnil | hpre
            · exact absurd hnil hne
            · have := hpre.length_le
              simp at this
        subst hroot
        exact ⟨['/'], by rw [List.nil_append, search_root hb, if_pos hl], Nat.le_refl _⟩
      · have hlen : 0 < a.length := List.length_pos_iff.mpr ha
        rw [search_cut ha hb]
        have hunder : location = a ∨ Under location a := by
          rcases h with ⟨hroot, hhead⟩ | ⟨hne, hpre⟩
          · rw [List.head?_append_of_ne_nil _ ha] at hhead
            exact Or.inr (Or.inl ⟨hroot, hhead⟩)
          · exact (prefix_cut hb hpre).imp id (fun hpre => Or.inr ⟨hne, hpre⟩)
        rcases hunder with rfl | hunder
        · exact ⟨location, by rw [if_pos hl], Nat.le_refl _⟩
        · split
          · exact ⟨a, rfl, hunder.isPrefix.length_le⟩
          · have hlt : a.length < n := by
              rw [← hn]
              simp
            exact ih a.length hlt rfl hunder

/-- One location. -/
def routesAt (location : Str) : Routes Unit :=
  (∅ : Routes Unit).insert location ⟨fun _ s _ response => .ok (s, response, true)⟩

/-- The locations to choose from for a target. -/
def Selectable (routes : Routes World) (target location : Str) : Prop :=
  routes.contains location ∧
    (location = ['/'] ∨ (location ≠ [] ∧ location ++ ['/'] <+: target ++ ['/']))

theorem selectable_iff {target location : Str} (htarget : target.head? = some '/') :
    Selectable routes target location ↔
      routes.contains location ∧ Under location (target ++ ['/']) := by
  have hhead : (target ++ ['/']).head? = some '/' := by
    rw [List.head?_append, htarget]
    rfl
  unfold Selectable Under
  rw [and_iff_left hhead]

/-- **The search picks the longest location**: it finds one if there is one to choose from, and then
    the longest of them. What ends within a segment of the target is never found. -/
theorem search_longest (routes : Routes World) (target : Str) (htarget : target.head? = some '/') :
    ((searchAddrBinding routes (target ++ ['/'])).isSome ↔
        ∃ location, Selectable routes target location) ∧
      (∀ location, searchAddrBinding routes (target ++ ['/']) = some location ↔
        Selectable routes target location ∧
          ∀ other, Selectable routes target other → other.length ≤ location.length) ∧
      ∀ location, location ≠ ['/'] → ¬ location ++ ['/'] <+: target ++ ['/'] →
        searchAddrBinding routes (target ++ ['/']) ≠ some location := by
  have hfound : ∀ {location}, searchAddrBinding routes (target ++ ['/']) = some location →
      Selectable routes target location :=
    fun h => (selectable_iff htarget).mpr (search_some _ rfl h)
  have hcovers : ∀ {location}, Selectable routes target location →
      ∃ found, searchAddrBinding routes (target ++ ['/']) = some found ∧
        location.length ≤ found.length := by
    intro location h
    obtain ⟨hl, hunder⟩ := (selectable_iff htarget).mp h
    exact search_covers hl _ rfl hunder
  refine ⟨⟨?_, ?_⟩, ?_, ?_⟩
  · intro h
    obtain ⟨location, hl⟩ := Option.isSome_iff_exists.mp h
    exact ⟨location, hfound hl⟩
  · intro ⟨location, hl⟩
    obtain ⟨found, hf, _⟩ := hcovers hl
    exact Option.isSome_iff_exists.mpr ⟨found, hf⟩
  · intro location
    constructor
    · intro h
      refine ⟨hfound h, fun other hother => ?_⟩
      obtain ⟨found, hf, hlen⟩ := hcovers hother
      cases h.symm.trans hf
      exact hlen
    · intro ⟨hl, hmax⟩
      obtain ⟨found, hf, hlen⟩ := hcovers hl
      -- both are beginnings of the url, and of one length
      have hlen' := hmax found (hfound hf)
      have hpre := ((selectable_iff htarget).mp hl).2.isPrefix
      have hpre' := ((selectable_iff htarget).mp (hfound hf)).2.isPrefix
      have heq : location = found :=
        (List.prefix_of_prefix_length_le hpre hpre' hlen).eq_of_length (by omega)
      rw [hf, heq]
  · intro location hroot hpre h
    rcases (hfound h).2 with h | ⟨_, h⟩
    · exact hroot h
    · exact hpre h

/-- A location, one that is only a piece of its name, and the root. -/
theorem search_longest_echo :
    let factory : RequestHandlerFactory Unit := ⟨fun _ s _ response => .ok (s, response, true)⟩
    let routes := ((routesAt ['/']).insert "/ech".toList factory).insert "/echo".toList factory
    (∀ other, Selectable routes "/echo/x".toList other → other.length ≤ 5) ∧
      searchAddrBinding routes ("/echo/x".toList ++ ['/']) ≠ some "/ech".toList := by
  intro factory routes
  have hlongest := search_longest routes "/echo/x".toList rfl
  have hfound : searchAddrBinding routes ("/echo/x".toList ++ ['/']) = some "/echo".toList := by
    decide +kernel
  exact ⟨((hlongest.2.1 _).mp hfound).2, hlongest.2.2 _ (by decide) (by decide)⟩

/-! ## 2. What follows a location -/

/-- What follows a location in a target, without the separator and without slashes at the end. -/
def restAfter (location target : Str) : Str :=
  let rest := target.drop location.length
  (if rest.head? = some '/' then rest.tail else rest).rdropWhile (· == '/')

/-- **The handler accepts the target**, with what follows its location as the key; and so does the
    test of the static handler, if something can follow. -/
structure Agrees (handler : RequestHandler) (target : Str) : Prop where
  key : handler.checkRequestUrl target true = some (restAfter handler.prefix_ target)
  static : handler.prefix_.length + 1 < target.length → Static.pathOf handler target ≠ none

/-- A target below the location, of any spelling. -/
theorem agrees_below (handler : RequestHandler) (r : Str) :
    Agrees handler (handler.prefix_ ++ '/' :: r) := by
  have hsplit : handler.prefix_ ++ '/' :: r = (handler.prefix_ ++ ['/']) ++ r := by simp
  have hrest : restAfter handler.prefix_ (handler.prefix_ ++ '/' :: r) = r.rdropWhile (· == '/') := by
    unfold restAfter
    rw [List.drop_left]
    rfl
  constructor
  · rw [hrest]
    unfold checkRequestUrl
    rw [hsplit]
    dsimp only
    by_cases hr : r = []
    · subst hr
      rw [List.append_nil, if_neg (by simp), if_pos ⟨List.prefix_rfl, rfl, rfl⟩]
      rfl
    · have hlen : 0 < r.length := List.length_pos_iff.mpr hr
      rw [if_pos ⟨List.prefix_append _ _, by rw [@List.length_append _ _ r]; omega⟩, List.drop_left]
  · intro hlen
    have hr : 0 < r.length := by
      rw [List.length_append, List.length_cons] at hlen
      omega
    unfold Static.pathOf
    rw [hsplit]
    dsimp only
    rw [if_pos ⟨List.prefix_append _ _, by rw [@List.length_append _ _ r]; omega⟩]
    exact Option.some_ne_none _

/-- The bare location. -/
theorem agrees_bare (handler : RequestHandler) : Agrees handler handler.prefix_ := by
  constructor
  · have hrest : restAfter handler.prefix_ handler.prefix_ = [] := by
      unfold restAfter
      rw [List.drop_length]
      rfl
    rw [hrest]
    exact checkRequestUrl_bare handler true
  · intro hlen
    omega

/-- A target that neither is the location nor has it in front is turned down. -/
theorem not_agrees_root {handler : RequestHandler} {target : Str} (hroot : handler.prefix_ = ['/'])
    (hbare : target ≠ ['/']) (hdouble : ¬ ['/', '/'] <+: target) : ¬ Agrees handler target := by
  intro h
  have hkey := h.key
  unfold checkRequestUrl at hkey
  rw [hroot] at hkey
  rw [if_neg (fun h => hdouble h.1), if_neg (fun h => hdouble h.1), if_neg] at hkey
  · cases hkey
  · intro heq
    exact hbare (List.append_cancel_right (show ['/'] ++ ['/'] = target ++ ['/'] from heq)).symm

/-- **When router and handler agree**: always, but under the location `/` only on the target `/` and
    on targets that begin with two slashes. -/
theorem router_handler_agree (routes : Routes World) (location root target : Str)
    (htarget : target.head? = some '/')
    (hfound : searchAddrBinding routes (target ++ ['/']) = some location) :
    Agrees ⟨location, root⟩ target ↔
      ¬ (location = ['/'] ∧ target ≠ ['/'] ∧ ¬ ['/', '/'] <+: target) := by
  constructor
  · intro h ⟨hroot, hbare, hdouble⟩
    exact not_agrees_root hroot hbare hdouble h
  · intro hno
    obtain ⟨_, hunder⟩ := search_some _ rfl hfound
    rcases hunder with ⟨rfl, _⟩ | ⟨_, hpre⟩
    · -- the root location: the condition leaves `/` and what begins with two slashes
      by_cases hbare : target = ['/']
      · rw [hbare]
        exact agrees_bare ⟨['/'], root⟩
      · have hdouble : ['/', '/'] <+: target := by
          by_contra hd
          exact hno ⟨rfl, hbare, hd⟩
        obtain ⟨r, rfl⟩ := hdouble
        exact agrees_below ⟨['/'], root⟩ r
    · obtain ⟨r, hr⟩ := hpre
      -- the slash after the location is the one the session appended, or one of the target
      rcases List.eq_nil_or_concat r with rfl | ⟨r', c, rfl⟩
      · rw [List.append_nil] at hr
        rw [← List.append_cancel_right hr]
        exact agrees_bare ⟨location, root⟩
      · rw [List.concat_eq_append, ← List.append_assoc] at hr
        obtain ⟨htarget, _⟩ := List.append_inj' hr rfl
        rw [← htarget]
        have := agrees_below ⟨location, root⟩ r'
        simpa using this

/-- A location written with a slash at the end, and a target below it. -/
theorem router_handler_agree_img :
    Agrees ⟨"/img/".toList, "/www".toList⟩ "/img//a.png/".toList := by
  have hfound : searchAddrBinding (routesAt "/img/".toList) ("/img//a.png/".toList ++ ['/']) =
      some "/img/".toList := by
    decide +kernel
  exact (router_handler_agree (routesAt "/img/".toList) "/img/".toList "/www".toList
    "/img//a.png/".toList rfl hfound).mpr (by decide)

/-- **Under the location `/`** the handler turns down what the router sends it. -/
theorem root_location_turned_down :
    searchAddrBinding (routesAt ['/']) ("/index.html".toList ++ ['/']) = some ['/'] ∧
      ¬ Agrees ⟨['/'], "/www".toList⟩ "/index.html".toList := by
  refine ⟨by decide +kernel, fun h => ?_⟩
  exact not_agrees_root rfl (by decide) (by decide) h

end Googolplex
