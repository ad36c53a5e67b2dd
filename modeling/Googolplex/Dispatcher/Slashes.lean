/-
  File:      Googolplex/Dispatcher/Slashes.lean
  Subject:   SLASHES AT THE END of a target, from the router to four handlers.

  Each of them cuts slashes off in its own way. Where the target goes on after
  the location they agree; at the bare location they do not, and the block
  handler reads a number only where no slash follows it.

  * `search_slashes`, `search_longer`: what the router makes of them.
  * `Stands`: where a url stands to a location.
  * `check_below`, `check_bare`, `check_off`: what `check_request_url` makes of them.
  * `Differs`: before the request, that the slashes will make a difference.
  * `slashes_iff`: they make none if and only if the request does not differ.
-/
import Googolplex.Crud.Answers
import Googolplex.Dispatcher.Exceptions

namespace Googolplex

open Cxx Posix Posix.FileTree RequestHandler
open Config (ConfigArg AddrMap)
open TextGen (Ipv4 decodeSpaces)

/-- `n` slashes. -/
def slashes (n : Nat) : Str := List.replicate n '/'

theorem slashes_succ (n : Nat) : slashes (n + 1) = slashes n ++ ['/'] := List.replicate_succ'

theorem slashes_cons (n : Nat) : slashes (n + 1) = '/' :: slashes n := rfl

theorem append_slashes_zero (s : Str) : s ++ slashes 0 = s := List.append_nil s

theorem length_slashes (n : Nat) : (slashes n).length = n := List.length_replicate

/-! ## 1. The router -/

section Router

variable {World : Type} {routes : Routes World} {target : Str}

/-- Where no location ends in these slashes the search comes to the target itself. -/
theorem search_slashes (ht : target ≠ []) : ∀ {n : Nat},
    (∀ k, 1 ≤ k → k ≤ n → ¬ routes.contains (target ++ slashes k)) →
    searchAddrBinding routes (target ++ slashes n ++ ['/']) =
      searchAddrBinding routes (target ++ ['/']) := by
  intro n
  induction n with
  | zero =>
      intro _
      rw [append_slashes_zero]
  | succ n ih =>
      intro hno
      rw [search_slash (by simp [ht]), if_neg (hno (n + 1) (by omega) (le_refl _)), slashes_succ,
        ← List.append_assoc]
      exact ih fun k h1 h2 => hno k h1 (by omega)

/-- Where one does, the search finds a location that is longer than the target. -/
theorem search_longer (ht : target ≠ []) : ∀ {n k : Nat}, 1 ≤ k → k ≤ n →
    routes.contains (target ++ slashes k) →
    ∃ j, 1 ≤ j ∧
      searchAddrBinding routes (target ++ slashes n ++ ['/']) = some (target ++ slashes j) := by
  intro n
  induction n with
  | zero =>
      intro k h1 h2
      omega
  | succ n ih =>
      intro k h1 h2 hk
      rw [search_slash (by simp [ht])]
      split
      · exact ⟨n + 1, by omega, rfl⟩
      · rename_i hno
        rw [slashes_succ, ← List.append_assoc]
        rcases Nat.lt_or_eq_of_le h2 with hlt | heq
        · exact ih h1 (by omega) hk
        · rw [heq] at hk
          exact absurd hk hno

/-- What is found in a target with one slash behind it is not longer than the target. -/
theorem search_not_longer {location : Str}
    (h : searchAddrBinding routes (target ++ ['/']) = some location) (ht : target ≠ []) :
    location.length ≤ target.length := by
  rcases (search_some _ rfl h).2 with ⟨rfl, _⟩ | ⟨_, hpre⟩
  · exact List.length_pos_iff.mpr ht
  · have hlen := hpre.length_le
    simp only [List.length_append, List.length_singleton] at hlen
    omega

end Router

/-! ## 2. Urls and locations -/

/-- Where a url that does not end in a slash stands to a location: it is the location, it goes on
    below it, or it is not under it, whatever slashes follow. -/
inductive Stands (location url : Str) : Prop
  | bare (h : url = location)
  | below {rest : Str} (h : url = location ++ '/' :: rest) (hne : rest ≠ [])
      (hlast : rest.getLast? ≠ some '/')
  | off (hpre : ∀ n, ¬ location ++ ['/'] <+: url ++ slashes n)
      (heq : ∀ n, location ≠ url ++ slashes n)

section Urls

variable {handler : RequestHandler} {url target location : Str}

/-- What the router sends to a location is the location, or goes on below it; under the location `/`
    it can be any target. -/
theorem under_cases (hunder : Under location (target ++ ['/'])) (hhead : target.head? = some '/')
    (hlast : target.getLast? ≠ some '/') :
    target = location ∨
    (∃ rest, target = location ++ '/' :: rest ∧ rest ≠ [] ∧ rest.getLast? ≠ some '/') ∨
    (location = ['/'] ∧ ∃ c rest, target = '/' :: c :: rest ∧ c ≠ '/') := by
  have hbelow : ∀ {l rest : Str}, target = l ++ '/' :: rest →
      rest ≠ [] ∧ rest.getLast? ≠ some '/' := by
    intro l rest heq
    have hne : rest ≠ [] := by
      intro hnil
      rw [heq, hnil, List.getLast?_append] at hlast
      exact hlast rfl
    refine ⟨hne, ?_⟩
    rw [heq, List.getLast?_append, List.getLast?_cons, Option.some_or] at hlast
    obtain ⟨c, hc⟩ : ∃ c, rest.getLast? = some c :=
      Option.isSome_iff_exists.mp (List.getLast?_isSome.mpr hne)
    rw [hc] at hlast ⊢
    exact hlast
  rcases hunder with ⟨rfl, _⟩ | ⟨_, r, hr⟩
  · -- the root location
    rcases target with _ | ⟨c, _ | ⟨c', rest⟩⟩
    · cases hhead
    · cases hhead
      exact absurd rfl hlast
    · cases hhead
      by_cases hc' : c' = '/'
      · subst hc'
        have heq : '/' :: '/' :: rest = ['/'] ++ '/' :: rest := rfl
        exact Or.inr (Or.inl ⟨rest, heq, hbelow heq⟩)
      · exact Or.inr (Or.inr ⟨rfl, c', rest, rfl, hc'⟩)
  · rcases List.eq_nil_or_concat r with rfl | ⟨r', c, rfl⟩
    · rw [List.append_nil] at hr
      exact Or.inl (List.append_cancel_right hr).symm
    · rw [List.concat_eq_append, ← List.append_assoc] at hr
      obtain ⟨htarget, _⟩ := List.append_inj' hr rfl
      have heq : target = location ++ '/' :: r' := by
        rw [← htarget]
        simp
      exact Or.inr (Or.inl ⟨r', heq, hbelow heq⟩)

theorem stands_root {c : Char} {rest : Str} (hc : c ≠ '/') : Stands ['/'] ('/' :: c :: rest) := by
  refine .off (fun n hp => ?_) fun n heq => ?_
  · obtain ⟨t, ht⟩ := hp
    exact hc (List.cons.inj (List.cons.inj ht).2).1.symm
  · cases heq

/-- **A target the router sends to a location** stands to it in one of the three ways. -/
theorem stands_of_under (hunder : Under location (target ++ ['/'])) (hhead : target.head? = some '/')
    (hlast : target.getLast? ≠ some '/') : Stands location target := by
  rcases under_cases hunder hhead hlast with h | ⟨rest, h, hne, hrest⟩ | ⟨rfl, c, rest, rfl, hc⟩
  · exact .bare h
  · exact .below h hne hrest
  · exact stands_root hc

/-- Slashes that follow what does not end in one are what is cut off. -/
theorem rdropWhile_slashes {s : Str} (h : s.getLast? ≠ some '/') (n : Nat) :
    (s ++ slashes n).rdropWhile (· == '/') = s := by
  induction n with
  | zero =>
      rw [append_slashes_zero, List.rdropWhile_eq_self_iff]
      intro hne heq
      have : s.getLast hne = '/' := by simpa using heq
      rw [List.getLast?_eq_some_getLast hne, this] at h
      exact h rfl
  | succ n ih =>
      rw [slashes_succ, ← List.append_assoc, List.rdropWhile_concat_pos _ _ _ (by simp)]
      exact ih

/-- **Below the location** the slashes are cut off. -/
theorem check_below (handler : RequestHandler) {rest : Str} (hne : rest ≠ [])
    (hlast : rest.getLast? ≠ some '/') (n : Nat) (forGet : Bool) :
    handler.checkRequestUrl (handler.prefix_ ++ '/' :: rest ++ slashes n) forGet = some rest := by
  have hsplit : handler.prefix_ ++ '/' :: rest ++ slashes n =
      (handler.prefix_ ++ ['/']) ++ (rest ++ slashes n) := by simp
  have hlen : 0 < rest.length := List.length_pos_iff.mpr hne
  unfold checkRequestUrl
  rw [hsplit]
  dsimp only
  rw [if_pos ⟨List.prefix_append _ _, by simp only [List.length_append]; omega⟩, List.drop_left,
    rdropWhile_slashes hlast]

/-- **At the bare location** one slash is too many for all but a GET of text_gen. -/
theorem check_bare (handler : RequestHandler) (n : Nat) (forGet : Bool) :
    handler.checkRequestUrl (handler.prefix_ ++ slashes (n + 1)) forGet =
      if n = 0 ∧ forGet = false then none else some [] := by
  have hsplit : handler.prefix_ ++ slashes (n + 1) = (handler.prefix_ ++ ['/']) ++ slashes n := by
    rw [slashes_cons]
    simp
  have hlen : (slashes n).length = n := List.length_replicate
  unfold checkRequestUrl
  rw [hsplit]
  dsimp only
  by_cases hn : n = 0
  · subst hn
    rw [append_slashes_zero, if_neg (by simp)]
    cases forGet with
    | true => rw [if_pos ⟨List.prefix_rfl, rfl, rfl⟩, if_neg (by simp)]
    | false =>
        rw [if_neg (by simp), if_neg, if_pos (by simp)]
        intro heq
        have := congrArg List.length heq
        simp at this
  · rw [if_pos ⟨List.prefix_append _ _, by rw [@List.length_append _ _ (slashes n), hlen]; omega⟩,
      List.drop_left, if_neg fun h => hn h.1]
    have hstrip := rdropWhile_slashes (s := []) (by simp) n
    rw [List.nil_append] at hstrip
    rw [hstrip]

/-- **Off the location** the handler turns it down. -/
theorem check_off (handler : RequestHandler) (hpre : ∀ n, ¬ handler.prefix_ ++ ['/'] <+: url ++ slashes n)
    (heq : ∀ n, handler.prefix_ ≠ url ++ slashes n) (n : Nat) (forGet : Bool) :
    handler.checkRequestUrl (url ++ slashes n) forGet = none := by
  unfold checkRequestUrl
  dsimp only
  rw [if_neg fun h => hpre n h.1, if_neg fun h => hpre n h.1, if_neg]
  intro h
  exact heq n (List.append_cancel_right h)

/-- **The check takes no notice of the slashes**, but of one at the bare location. -/
theorem check_same (root : Str) {n : Nat} {forGet : Bool} (hstands : Stands location url)
    (hno : ¬ (url = location ∧ n = 1 ∧ forGet = false)) :
    checkRequestUrl ⟨location, root⟩ (url ++ slashes n) forGet =
      checkRequestUrl ⟨location, root⟩ url forGet := by
  cases hstands with
  | bare h =>
      subst h
      rcases n with _ | n
      · rw [append_slashes_zero]
      · have hn := check_bare ⟨url, root⟩ n forGet
        rw [if_neg fun h => hno ⟨rfl, by omega, h.2⟩] at hn
        exact hn.trans (checkRequestUrl_bare ⟨url, root⟩ forGet).symm
  | below h hne hlast =>
      subst h
      have h0 := check_below ⟨location, root⟩ hne hlast 0 forGet
      rw [append_slashes_zero] at h0
      exact (check_below ⟨location, root⟩ hne hlast n forGet).trans h0.symm
  | off hpre heq =>
      have h0 := check_off ⟨location, root⟩ hpre heq 0 forGet
      rw [append_slashes_zero] at h0
      exact (check_off ⟨location, root⟩ hpre heq n forGet).trans h0.symm

/-! ## 3. Decoded urls -/

theorem decodeSpaces_slashes (s : Str) (n : Nat) :
    decodeSpaces (s ++ slashes n) = decodeSpaces s ++ slashes n := by
  induction n with
  | zero => rw [append_slashes_zero, append_slashes_zero]
  | succ n ih =>
      rw [slashes_succ, ← List.append_assoc, TextGen.decodeSpaces_slash, ih, List.append_assoc]
      rfl

theorem decodeSpaces_ne_nil {s : Str} (h : s ≠ []) : decodeSpaces s ≠ [] := by
  intro hnil
  induction s using Googolplex.TextGen.decodeSpaces.induct with
  | case1 rest => simp [decodeSpaces] at hnil
  | case2 c rest hno =>
      rw [TextGen.decodeSpaces_skip hno] at hnil
      cases hnil
  | case3 => exact h rfl

/-- A slash is last in what is decoded only if it was last before. -/
theorem decodeSpaces_last {s : Str} (h : s.getLast? ≠ some '/') :
    (decodeSpaces s).getLast? ≠ some '/' := by
  have hcons : ∀ {c : Char} {s : Str}, c ≠ '/' → (s ≠ [] → s.getLast? ≠ some '/') →
      (c :: s).getLast? ≠ some '/' := by
    intro c s hc hs
    cases s with
    | nil => simpa using hc
    | cons d s =>
        rw [List.getLast?_cons_cons]
        exact hs (by simp)
  have htail : ∀ {c d : Char} {s : Str}, (c :: d :: s).getLast? ≠ some '/' →
      (d :: s).getLast? ≠ some '/' := by
    intro c d s hs
    rwa [List.getLast?_cons_cons] at hs
  induction s using Googolplex.TextGen.decodeSpaces.induct with
  | case1 rest ih =>
      rw [decodeSpaces]
      refine hcons (by decide) fun hne => ih ?_
      cases rest with
      | nil => exact absurd rfl hne
      | cons d rest => exact htail (htail (htail h))
  | case2 c rest hno ih =>
      rw [TextGen.decodeSpaces_skip hno]
      cases rest with
      | nil => exact h
      | cons d rest =>
          have hrest := ih (htail h)
          obtain ⟨x, y, hxy⟩ := List.exists_cons_of_ne_nil
            (decodeSpaces_ne_nil (List.cons_ne_nil d rest))
          rw [hxy] at hrest ⊢
          rwa [List.getLast?_cons_cons]
  | case3 => exact h

/-- What has a `%20` in it does not begin what it is decoded to. -/
theorem not_prefix_decodeSpaces {l : Str} (h : "%20".toList <:+: l) (x : Str) :
    ¬ l <+: decodeSpaces l ++ x := by
  induction l using Googolplex.TextGen.decodeSpaces.induct with
  | case1 rest =>
      rw [decodeSpaces]
      rintro ⟨t, ht⟩
      exact absurd (List.cons.inj ht).1 (by decide)
  | case2 c rest hno ih =>
      rw [TextGen.decodeSpaces_skip hno]
      intro hpre
      rcases List.infix_cons_iff.mp h with ⟨t, ht⟩ | hin
      · obtain ⟨hc, hrest⟩ := List.cons.inj ht
        exact hno t hc.symm hrest.symm
      · obtain ⟨t, ht⟩ := hpre
        exact ih hin ⟨t, (List.cons.inj ht).2⟩
  | case3 =>
      have := h.length_le
      simp at this

/-- A `%20` in the location takes a decoded target off it. -/
theorem stands_off (h : "%20".toList <:+: location) (x : Str) :
    Stands location (decodeSpaces location ++ x) := by
  refine .off (fun n hpre => ?_) fun n heq => ?_
  · rw [List.append_assoc] at hpre
    exact not_prefix_decodeSpaces h _ ((List.prefix_append _ _).trans hpre)
  · rw [List.append_assoc] at heq
    exact not_prefix_decodeSpaces h _ ⟨[], (List.append_nil _).trans heq⟩

/-- **A decoded target** stands to the location as the target does, but for a location with a `%20`
    in it. -/
theorem stands_decode (hunder : Under location (target ++ ['/'])) (hhead : target.head? = some '/')
    (hlast : target.getLast? ≠ some '/') : Stands location (decodeSpaces target) := by
  rcases under_cases hunder hhead hlast with rfl | ⟨rest, rfl, hne, hrest⟩ | ⟨rfl, c, rest, rfl, hc⟩
  · by_cases hin : "%20".toList <:+: target
    · have := stands_off hin []
      rwa [List.append_nil] at this
    · exact .bare (TextGen.decodeSpaces_eq_self.mpr hin)
  · rw [TextGen.decodeSpaces_slash]
    by_cases hin : "%20".toList <:+: location
    · exact stands_off hin _
    · rw [TextGen.decodeSpaces_eq_self.mpr hin]
      exact .below rfl (decodeSpaces_ne_nil hne) (decodeSpaces_last hrest)
  · rw [TextGen.decodeSpaces_cons _ (by decide)]
    -- the second character stays, or becomes a blank
    have hsecond : ∃ c' rest', decodeSpaces (c :: rest) = c' :: rest' ∧ c' ≠ '/' := by
      unfold decodeSpaces
      split
      · exact ⟨_, _, rfl, by decide⟩
      · rename_i _ heq
        cases heq
        exact ⟨_, _, rfl, hc⟩
      · rename_i heq
        cases heq
    obtain ⟨c', rest', heq, hc'⟩ := hsecond
    rw [heq]
    exact stands_root hc'

end Urls

/-! ## 4. The handlers -/

/-- The request with slashes behind its target. -/
def slashed (n : Nat) (request : Request) : Request :=
  { request with target := request.target ++ slashes n }

/-- **The handler will make a difference**: a static or CRUD or text_gen handler at its bare location,
    or a block handler that reads a number. -/
inductive DiffersAt (arg : ConfigArg) (s : ServerState) (request : Request) (n : Nat) : Prop
  | static (hk : handlerTypeOf arg.handlerType = .static) (hbare : request.target = arg.location)
      (hn : 2 ≤ n) (hfound : s.files.lookup (arg.root.rdropWhile (· == '/')) ≠ none)
  | crud (hk : handlerTypeOf arg.handlerType = .crud) (hbare : request.target = arg.location)
      (hn : n = 1) (hm : request.method ∈ [Verb.get, .post, .put, .delete])
  | textGen {files : FileTree} (hk : handlerTypeOf arg.handlerType = .textGen)
      (hbare : request.target = arg.location) (hn : n = 1) (hm : request.method = .delete)
      (hplain : ¬ "%20".toList <:+: request.target) (hroot : makeRoot s.files arg.root = .ok files)
  | block {value : Int} (hk : handlerTypeOf arg.handlerType = .block) (hn : 1 ≤ n)
      (hv : stoi (afterLast '/' request.target) = .ok value) (hne : value ≠ 1)

/-- **The slashes will make a difference**: a location ends in some of them, or the handler of the
    target makes one. -/
inductive Differs (platform : Platform) (addrmap : AddrMap) (s : ServerState) (request : Request)
    (n : Nat) : Prop
  | location {k : Nat} (h1 : 1 ≤ k) (h2 : k ≤ n) (hk : addrmap.contains (request.target ++ slashes k))
  | handler {location : Str} {arg : ConfigArg}
      (hfound : searchAddrBinding (routesOf platform addrmap) (request.target ++ ['/']) = some location)
      (harg : addrmap[location]? = some arg) (h : DiffersAt arg s request n)

section Handlers

variable {platform : Platform} {arg : ConfigArg} {handler : RequestHandler} {s : ServerState}
  {files : FileTree} {request : Request} {response : Response} {location clientIp : Str} {n : Nat}

/-- What the static handler opens, by where the target stands. -/
theorem pathOf_below (handler : RequestHandler) {rest : Str} (hne : rest ≠ [])
    (hlast : rest.getLast? ≠ some '/') (n : Nat) :
    Static.pathOf handler (handler.prefix_ ++ '/' :: rest ++ slashes n) =
      some (handler.dir_ ++ '/' :: rest) := by
  have hsplit : handler.prefix_ ++ '/' :: rest ++ slashes n =
      (handler.prefix_ ++ ['/']) ++ (rest ++ slashes n) := by simp
  have hlen : 0 < rest.length := List.length_pos_iff.mpr hne
  have hend : (handler.dir_ ++ '/' :: rest).getLast? ≠ some '/' := by
    rw [List.getLast?_append, List.getLast?_cons]
    obtain ⟨c, hc⟩ : ∃ c, rest.getLast? = some c :=
      Option.isSome_iff_exists.mp (List.getLast?_isSome.mpr hne)
    rw [hc] at hlast ⊢
    exact hlast
  unfold Static.pathOf
  rw [hsplit]
  dsimp only
  rw [if_pos ⟨List.prefix_append _ _, by simp only [List.length_append]; omega⟩, List.drop_left]
  rw [show handler.dir_ ++ '/' :: (rest ++ slashes n) = handler.dir_ ++ '/' :: rest ++ slashes n by simp,
    rdropWhile_slashes hend]

theorem pathOf_off (handler : RequestHandler) {url : Str} (hpre : ∀ n, ¬ handler.prefix_ ++ ['/'] <+: url ++ slashes n) (n : Nat) :
    Static.pathOf handler (url ++ slashes n) = none :=
  if_neg fun h => hpre n h.1

theorem rdropWhile_append_slashes (d : Str) (n : Nat) :
    (d ++ slashes n).rdropWhile (· == '/') = d.rdropWhile (· == '/') := by
  induction n with
  | zero => rw [append_slashes_zero]
  | succ n ih => rw [slashes_succ, ← List.append_assoc, List.rdropWhile_concat_pos _ _ _ (by simp), ih]

/-- At the bare location it opens the root, if there are two slashes or more. -/
theorem pathOf_bare (handler : RequestHandler) (n : Nat) :
    Static.pathOf handler (handler.prefix_ ++ slashes n) =
      if 2 ≤ n then some (handler.dir_.rdropWhile (· == '/')) else none := by
  unfold Static.pathOf
  dsimp only
  rcases n with _ | n
  · rw [if_neg, if_neg (by omega)]
    intro h
    have hlt := h.2
    rw [append_slashes_zero, List.length_append, List.length_singleton] at hlt
    omega
  · have hsplit : handler.prefix_ ++ slashes (n + 1) = (handler.prefix_ ++ ['/']) ++ slashes n := by
      rw [slashes_cons]
      simp
    have hlen : (slashes n).length = n := List.length_replicate
    rw [hsplit]
    by_cases hn : 2 ≤ n + 1
    · rw [if_pos hn,
        if_pos ⟨List.prefix_append _ _, by rw [@List.length_append _ _ (slashes n), hlen]; omega⟩,
        List.drop_left]
      have := rdropWhile_append_slashes handler.dir_ (n + 1)
      rw [slashes_cons] at this
      rw [this]
    · rw [if_neg hn, if_neg]
      intro h
      have := h.2
      rw [@List.length_append _ _ (slashes n), hlen] at this
      omega

/-- The static handler looks at the path only. -/
theorem static_congr {r r' : Request} (h : Static.pathOf handler r.target = Static.pathOf handler r'.target) :
    Static.handleRequest handler files r response = Static.handleRequest handler files r' response := by
  unfold Static.handleRequest
  rw [h]

theorem crud_congr {disk : Disk} {c : Crud.CrudState}
    (h : handler.checkRequestUrl (slashed n request).target false =
      handler.checkRequestUrl request.target false) :
    Crud.handleRequest handler disk c (slashed n request) response =
      Crud.handleRequest handler disk c request response := by
  unfold Crud.handleRequest
  rw [h]
  rfl

/-- **A key is never answered as a target that is turned down.** -/
theorem crud_accepted {disk : Disk} {c c' : Crud.CrudState} {key : Str} {b : Bool}
    (hm : request.method ∈ [Verb.get, .post, .put, .delete])
    (hkey : handler.checkRequestUrl request.target false = some key) :
    Crud.handleRequest handler disk c request response ≠
      .ok (c', Crud.prepareBadRequestResponse response, b) := by
  intro h
  rcases Crud.handleRequest_answer h with hanswer | ⟨_, hno | hno⟩
  · exact hanswer.not_bad rfl
  · rw [hkey] at hno
    cases hno
  · exact hno hm

theorem slashed_zero : slashed 0 request = request := by
  unfold slashed
  rw [append_slashes_zero]

/-- What a DELETE of text_gen is answered if its target is accepted. -/
theorem title_answer {host : TextGen.Host} {ip path suffix : Str} {remove : Bool} {files' : FileTree}
    {r : Response} {b : Bool}
    (h : TextGen.getTitleFile host ip files path suffix response remove = .ok (files', r, b)) :
    r.result ≠ .badRequest := by
  have hjson : ∀ {t : FileTree} {j : Json.Value},
      TextGen.jsonAnswer host t j response = .ok (files', r, b) → r.result ≠ .badRequest := by
    intro t j hj
    unfold TextGen.jsonAnswer at hj
    split at hj
    · cases hj
    · cases hj
      simp
  unfold TextGen.getTitleFile at h
  split at h
  · dsimp only at h
    split at h
    · split at h
      · exact hjson h
      · split at h
        · cases h
        · exact hjson h
    · cases h
      simp [TextGen.prepareNotFoundResponse]
  · cases h
    simp [TextGen.prepareNotFoundResponse]

/-- What the session keeps of an answer. -/
def kept (answer : Except Fault (ServerState × Response × Bool)) :
    Except Fault (ServerState × Response) :=
  answer.map fun r => (r.1, r.2.1)

/-! ### Static -/

theorem differsAt_static (hk : handlerTypeOf arg.handlerType = .static) : DiffersAt arg s request n ↔
    request.target = arg.location ∧ 2 ≤ n ∧
      s.files.lookup (arg.root.rdropWhile (· == '/')) ≠ none := by
  constructor
  · intro h
    cases h with
    | static _ hbare hn hfound => exact ⟨hbare, hn, hfound⟩
    | crud hk' => rw [hk] at hk'; cases hk'
    | textGen hk' => rw [hk] at hk'; cases hk'
    | block hk' => rw [hk] at hk'; cases hk'
  · intro ⟨hbare, hn, hfound⟩
    exact .static hk hbare hn hfound

theorem static_same_iff (hk : handlerTypeOf arg.handlerType = .static)
    (hstands : Stands arg.location request.target) :
    kept (handle platform location arg clientIp s (slashed n request) response) =
        kept (handle platform location arg clientIp s request response) ↔ ¬ DiffersAt arg s request n := by
  have hsame (hpath : Static.pathOf ⟨arg.location, arg.root⟩ (slashed n request).target =
      Static.pathOf ⟨arg.location, arg.root⟩ request.target) :
      kept (handle platform location arg clientIp s (slashed n request) response) =
        kept (handle platform location arg clientIp s request response) := by
    unfold handle
    rw [hk]
    dsimp only
    rw [static_congr hpath]
  rw [differsAt_static hk]
  cases hstands with
  | below h hne hlast =>
      refine ⟨fun _ hd => ?_, fun _ => hsame ?_⟩
      · have hlen := congrArg List.length (h.symm.trans hd.1)
        simp at hlen
      · have h0 := pathOf_below ⟨arg.location, arg.root⟩ hne hlast 0
        rw [append_slashes_zero] at h0
        unfold slashed
        dsimp only
        rw [h]
        exact (pathOf_below ⟨arg.location, arg.root⟩ hne hlast n).trans h0.symm
  | off hpre heq =>
      refine ⟨fun _ hd => ?_, fun _ => hsame ?_⟩
      · have := heq 0
        rw [append_slashes_zero] at this
        exact this hd.1.symm
      · have h0 := pathOf_off ⟨arg.location, arg.root⟩ hpre 0
        rw [append_slashes_zero] at h0
        exact (pathOf_off ⟨arg.location, arg.root⟩ hpre n).trans h0.symm
  | bare h =>
      have h0 : Static.pathOf ⟨arg.location, arg.root⟩ request.target = none := by
        have := pathOf_bare ⟨arg.location, arg.root⟩ 0
        rw [append_slashes_zero, if_neg (by omega)] at this
        rw [h]
        exact this
      have hn : Static.pathOf ⟨arg.location, arg.root⟩ (slashed n request).target =
          if 2 ≤ n then some (arg.root.rdropWhile (· == '/')) else none := by
        unfold slashed
        dsimp only
        rw [h]
        exact pathOf_bare ⟨arg.location, arg.root⟩ n
      by_cases h2 : 2 ≤ n
      · -- the root is opened
        rw [if_pos h2] at hn
        have hroot : Static.handleRequest ⟨arg.location, arg.root⟩ s.files request response =
            .ok (Static.notFound response, false) := by
          unfold Static.handleRequest
          rw [h0]
        have hopened : Static.handleRequest ⟨arg.location, arg.root⟩ s.files (slashed n request)
            response = (readFromFile s.files (arg.root.rdropWhile (· == '/'))).map fun content =>
              content.elim (Static.notFound response, false) fun content =>
                (({ Static.setContentType (arg.root.rdropWhile (· == '/'))
                  { response with result := .ok } with body := content } : Response).preparePayload, true) := by
          unfold Static.handleRequest
          cases hread : readFromFile s.files (arg.root.rdropWhile (· == '/')) with
          | error f => simp only [hn, hread, Except.map]
          | ok content => cases content <;> simp only [hn, hread, Except.map, Option.elim]
        unfold handle
        rw [hk]
        dsimp only
        rw [hroot, hopened]
        unfold readFromFile
        cases hl : s.files.lookup (arg.root.rdropWhile (· == '/')) with
        | none => exact ⟨fun _ hd => hd.2.2 rfl, fun _ => rfl⟩
        | some node =>
            refine ⟨fun heq => ?_, fun hd => absurd ⟨h, h2, by simp⟩ hd⟩
            cases node with
            | dir => cases heq
            | file content =>
                have hstatus := congrArg (fun x : ServerState × Response => x.2.result)
                  (Except.ok.inj heq)
                cases hstatus
      · rw [if_neg h2] at hn
        exact ⟨fun _ hd => h2 hd.2.1, fun _ => hsame (hn.trans h0.symm)⟩

/-! ### CRUD -/

theorem differsAt_crud (hk : handlerTypeOf arg.handlerType = .crud) : DiffersAt arg s request n ↔
    request.target = arg.location ∧ n = 1 ∧
      request.method ∈ [Verb.get, .post, .put, .delete] := by
  constructor
  · intro h
    cases h with
    | static hk' => rw [hk] at hk'; cases hk'
    | crud _ hbare hn hm => exact ⟨hbare, hn, hm⟩
    | textGen hk' => rw [hk] at hk'; cases hk'
    | block hk' => rw [hk] at hk'; cases hk'
  · intro ⟨hbare, hn, hm⟩
    exact .crud hk hbare hn hm

theorem crud_same_iff (hk : handlerTypeOf arg.handlerType = .crud)
    (hstands : Stands arg.location request.target) :
    kept (handle platform location arg clientIp s (slashed n request) response) =
        kept (handle platform location arg clientIp s request response) ↔ ¬ DiffersAt arg s request n := by
  have hsame (hno : ¬ (request.target = arg.location ∧ n = 1 ∧ false = false)) :
      kept (handle platform location arg clientIp s (slashed n request) response) =
        kept (handle platform location arg clientIp s request response) := by
    unfold handle
    rw [hk]
    dsimp only
    rw [crud_congr (check_same arg.root hstands hno)]
  rw [differsAt_crud hk]
  by_cases hone : request.target = arg.location ∧ n = 1
  · -- one slash at the bare location
    obtain ⟨hbare, rfl⟩ := hone
    have h0 : RequestHandler.checkRequestUrl ⟨arg.location, arg.root⟩ request.target false =
        some [] := by
      rw [hbare]
      exact checkRequestUrl_bare ⟨arg.location, arg.root⟩ false
    have h1 : RequestHandler.checkRequestUrl ⟨arg.location, arg.root⟩ (slashed 1 request).target
        false = none := by
      unfold slashed
      dsimp only
      rw [hbare]
      exact check_bare ⟨arg.location, arg.root⟩ 0 false
    have hturned : Crud.handleRequest ⟨arg.location, arg.root⟩ platform.disk (s.crud location)
        (slashed 1 request) response =
          .ok (s.crud location, Crud.prepareBadRequestResponse response, false) := by
      unfold Crud.handleRequest
      rw [h1]
    unfold handle
    rw [hk]
    dsimp only
    rw [hturned]
    constructor
    · intro heq hd
      cases hc : Crud.handleRequest ⟨arg.location, arg.root⟩ platform.disk (s.crud location)
          request response with
      | error f =>
          rw [hc] at heq
          cases heq
      | ok v =>
          obtain ⟨c, r, b⟩ := v
          rw [hc] at heq
          have hr : Crud.prepareBadRequestResponse response = r :=
            congrArg (fun x : ServerState × Response => x.2) (Except.ok.inj heq)
          rw [← hr] at hc
          exact crud_accepted hd.2.2 h0 hc
    · intro hd
      have hm : request.method ∉ [Verb.get, .post, .put, .delete] := fun hm => hd ⟨hbare, rfl, hm⟩
      have hother : Crud.handleRequest ⟨arg.location, arg.root⟩ platform.disk (s.crud location)
          request response =
            .ok (s.crud location, Crud.prepareBadRequestResponse response, false) := by
        unfold Crud.handleRequest
        rw [h0]
        dsimp only
        split
        · rename_i hpost
          exact absurd (by simp [hpost]) hm
        · rename_i hget
          exact absurd (by simp [hget]) hm
        · rename_i hput
          exact absurd (by simp [hput]) hm
        · rename_i hdelete
          exact absurd (by simp [hdelete]) hm
        · rfl
      rw [hother]
  · exact ⟨fun _ hd => hone ⟨hd.1, hd.2.1⟩, fun _ => hsame fun h => hone ⟨h.1, h.2.1⟩⟩

/-! ### TextGen -/

theorem differsAt_textGen (hk : handlerTypeOf arg.handlerType = .textGen) :
    DiffersAt arg s request n ↔
      request.target = arg.location ∧ n = 1 ∧ request.method = .delete ∧
        ¬ "%20".toList <:+: request.target ∧ ∃ files, makeRoot s.files arg.root = .ok files := by
  constructor
  · intro h
    cases h with
    | static hk' => rw [hk] at hk'; cases hk'
    | crud hk' => rw [hk] at hk'; cases hk'
    | textGen _ hbare hn hm hplain hroot => exact ⟨hbare, hn, hm, hplain, _, hroot⟩
    | block hk' => rw [hk] at hk'; cases hk'
  · intro ⟨hbare, hn, hm, hplain, files, hroot⟩
    exact .textGen hk hbare hn hm hplain hroot

/-- text_gen looks at the decoded target, of a GET and of a DELETE. -/
theorem textGen_congr {host : TextGen.Host} {reply : Option Str}
    (hget : handler.checkRequestUrl (decodeSpaces request.target ++ slashes n) true =
      handler.checkRequestUrl (decodeSpaces request.target) true)
    (hdelete : request.method = .delete →
      handler.checkRequestUrl (decodeSpaces request.target ++ slashes n) false =
        handler.checkRequestUrl (decodeSpaces request.target) false) :
    TextGen.handleRequest host handler clientIp reply files (slashed n request) response =
      TextGen.handleRequest host handler clientIp reply files request response := by
  have htarget : decodeSpaces (slashed n request).target = decodeSpaces request.target ++ slashes n :=
    decodeSpaces_slashes _ _
  have hmethod : (slashed n request).method = request.method := rfl
  unfold TextGen.handleRequest
  rw [hmethod]
  cases hm : request.method with
  | get =>
      dsimp only
      unfold TextGen.handleGetRequest
      rw [htarget, hget]
  | delete =>
      dsimp only
      unfold TextGen.handleDeleteRequest
      rw [htarget, hdelete hm]
  | post => rfl
  | options => rfl
  | head => rfl
  | put => rfl
  | trace => rfl
  | other name => rfl

/-- A target is decoded to its location only if it is the location, and nothing is decoded. -/
theorem decode_bare {target : Str} (hunder : Under location (target ++ ['/']))
    (hhead : target.head? = some '/') (hlast : target.getLast? ≠ some '/')
    (h : decodeSpaces target = location) : target = location ∧ ¬ "%20".toList <:+: target := by
  rcases under_cases hunder hhead hlast with rfl | ⟨rest, rfl, _, _⟩ | ⟨rfl, c, rest, rfl, _⟩
  · exact ⟨rfl, TextGen.decodeSpaces_eq_self.mp h⟩
  · rw [TextGen.decodeSpaces_slash] at h
    exfalso
    by_cases hin : "%20".toList <:+: location
    · exact not_prefix_decodeSpaces hin _ ⟨[], by rw [List.append_nil, h]⟩
    · rw [TextGen.decodeSpaces_eq_self.mpr hin] at h
      have hlen := congrArg List.length h
      simp at hlen
  · rw [TextGen.decodeSpaces_cons _ (by decide)] at h
    exact absurd (List.cons.inj h).2 (decodeSpaces_ne_nil (List.cons_ne_nil c rest))

theorem textGen_same_iff (hk : handlerTypeOf arg.handlerType = .textGen)
    (hunder : Under arg.location (request.target ++ ['/'])) (hhead : request.target.head? = some '/')
    (hlast : request.target.getLast? ≠ some '/') :
    kept (handle platform location arg clientIp s (slashed n request) response) =
        kept (handle platform location arg clientIp s request response) ↔ ¬ DiffersAt arg s request n := by
  have hstands := stands_decode hunder hhead hlast
  rw [differsAt_textGen hk]
  unfold handle
  rw [hk]
  dsimp only
  cases hroot : makeRoot s.files arg.root with
  | error f => exact ⟨fun _ hd => by simp at hd, fun _ => rfl⟩
  | ok files =>
      dsimp only
      by_cases hd : decodeSpaces request.target = arg.location ∧ n = 1 ∧ request.method = .delete
      · -- one slash at the bare location turns the title down that is looked for otherwise
        obtain ⟨hdecoded, rfl, hm⟩ := hd
        obtain ⟨hbare, hplain⟩ := decode_bare hunder hhead hlast hdecoded
        have h0 : RequestHandler.checkRequestUrl ⟨arg.location, arg.root⟩
            (decodeSpaces request.target) false = some [] := by
          rw [hdecoded]
          exact checkRequestUrl_bare ⟨arg.location, arg.root⟩ false
        have h1 : RequestHandler.checkRequestUrl ⟨arg.location, arg.root⟩
            (decodeSpaces (slashed 1 request).target) false = none := by
          have htarget : decodeSpaces (slashed 1 request).target = arg.location ++ slashes 1 :=
            (decodeSpaces_slashes _ _).trans (by rw [hdecoded])
          rw [htarget]
          exact check_bare ⟨arg.location, arg.root⟩ 0 false
        have hturned : TextGen.handleRequest platform.toHost ⟨arg.location, arg.root⟩ clientIp
            (s.api 0) files (slashed 1 request) response =
              .ok (files, TextGen.overwriteBody (TextGen.prepareBadRequestResponse response)
                TextGen.invalidUrlMsg, false) := by
          unfold TextGen.handleRequest TextGen.handleDeleteRequest
          rw [show (slashed 1 request).method = .delete from hm]
          dsimp only
          rw [h1]
        have htitle : TextGen.handleRequest platform.toHost ⟨arg.location, arg.root⟩ clientIp
            (s.api 0) files request response =
              TextGen.getTitleFile platform.toHost clientIp files
                (TextGen.folderOf ⟨arg.location, arg.root⟩ clientIp) [] response true := by
          unfold TextGen.handleRequest TextGen.handleDeleteRequest
          rw [hm]
          dsimp only
          rw [h0]
        rw [hturned, htitle]
        refine ⟨fun heq => ?_, fun hno => absurd ⟨hbare, rfl, hm, hplain, files, rfl⟩ hno⟩
        exfalso
        cases hc : TextGen.getTitleFile platform.toHost clientIp files
            (TextGen.folderOf ⟨arg.location, arg.root⟩ clientIp) [] response true with
        | error f =>
            rw [hc] at heq
            cases heq
        | ok v =>
            obtain ⟨files', r, b⟩ := v
            rw [hc] at heq
            have hr : (TextGen.overwriteBody (TextGen.prepareBadRequestResponse response)
                TextGen.invalidUrlMsg) = r :=
              congrArg (fun x : ServerState × Response => x.2) (Except.ok.inj heq)
            have hstatus := title_answer hc
            rw [← hr] at hstatus
            exact hstatus rfl
      · have hsame : TextGen.handleRequest platform.toHost ⟨arg.location, arg.root⟩ clientIp
            (s.api 0) files (slashed n request) response =
              TextGen.handleRequest platform.toHost ⟨arg.location, arg.root⟩ clientIp (s.api 0) files
                request response :=
          textGen_congr (check_same arg.root hstands fun h => by simp at h)
            fun hm => check_same arg.root hstands fun h => hd ⟨h.1, h.2.1, hm⟩
        rw [hsame]
        refine ⟨fun _ h => hd ⟨?_, h.2.1, h.2.2.1⟩, fun _ => rfl⟩
        rw [TextGen.decodeSpaces_eq_self.mpr h.2.2.2.1]
        exact h.1

/-! ### Block -/

theorem differsAt_block (hk : handlerTypeOf arg.handlerType = .block) : DiffersAt arg s request n ↔
    1 ≤ n ∧ Block.blockTime request.target ≠ 1 := by
  unfold Block.blockTime
  constructor
  · intro h
    cases h with
    | static hk' => rw [hk] at hk'; cases hk'
    | crud hk' => rw [hk] at hk'; cases hk'
    | textGen hk' => rw [hk] at hk'; cases hk'
    | block _ hn hv hne =>
        rw [hv]
        exact ⟨hn, hne⟩
  · intro ⟨hn, hne⟩
    cases hv : stoi (afterLast '/' request.target) with
    | ok value =>
        rw [hv] at hne
        exact .block hk hn hv hne
    | error e =>
        rw [hv] at hne
        exact absurd rfl hne

/-- Nothing is behind the slashes. -/
theorem blockTime_slashes (target : Str) (n : Nat) : Block.blockTime (target ++ slashes (n + 1)) = 1 := by
  have hnone : '/' ∉ ([] : Str) := by simp
  have hlast : afterLast '/' (target ++ slashes (n + 1)) = [] := by
    unfold afterLast
    rw [slashes_succ, ← List.append_assoc, findLastOf_append hnone (target ++ slashes n)]
    dsimp only
    rw [List.drop_eq_nil_iff]
    simp only [List.length_append, List.length_singleton]
    exact le_refl _
  unfold Block.blockTime
  rw [hlast]
  rfl

theorem block_same_iff (hk : handlerTypeOf arg.handlerType = .block) :
    kept (handle platform location arg clientIp s (slashed n request) response) =
        kept (handle platform location arg clientIp s request response) ↔ ¬ DiffersAt arg s request n := by
  rw [differsAt_block hk]
  rcases n with _ | n
  · rw [slashed_zero]
    exact ⟨fun _ hd => absurd hd.1 (by omega), fun _ => rfl⟩
  · have htime : Block.blockTime (slashed (n + 1) request).target = 1 := blockTime_slashes _ _
    unfold handle Block.handleRequest
    rw [hk]
    dsimp only
    rw [htime]
    constructor
    · intro heq hd
      -- the calls of `sleep` tell the times apart
      have hsleeps : s.sleeps ++ [1] = s.sleeps ++ [Block.blockTime request.target] :=
        congrArg (fun x : ServerState × Response => x.1.sleeps) (Except.ok.inj heq)
      have hlast := List.append_cancel_left hsleeps
      exact hd.2 (List.cons.inj hlast).1.symm
    · intro hd
      have hone : Block.blockTime request.target = 1 := by
        by_contra hne
        exact hd ⟨by omega, hne⟩
      rw [hone]

/-- **What a handler makes of the slashes**. -/
theorem handler_same_iff
    (hkind : handlerTypeOf arg.handlerType ∈ [HandlerType.static, .crud, .textGen, .block])
    (hunder : Under arg.location (request.target ++ ['/'])) (hhead : request.target.head? = some '/')
    (hlast : request.target.getLast? ≠ some '/') :
    kept (handle platform location arg clientIp s (slashed n request) response) =
        kept (handle platform location arg clientIp s request response) ↔ ¬ DiffersAt arg s request n := by
  simp only [List.mem_cons, List.not_mem_nil, or_false] at hkind
  rcases hkind with hk | hk | hk | hk
  · exact static_same_iff hk (stands_of_under hunder hhead hlast)
  · exact crud_same_iff hk (stands_of_under hunder hhead hlast)
  · exact textGen_same_iff hk hunder hhead hlast
  · exact block_same_iff hk

end Handlers

/-! ## 5. Trailing slashes -/

section Main

variable (platform : Platform) (addrmap : AddrMap) (s : ServerState) (client : Ipv4)
  (request : Request) (n : Nat)

/-- **When slashes at the end make no difference**: the router takes the target with the slashes to
    the same location, and the answer is the same, if and only if no location ends in some of these
    slashes and the handler of the target takes no notice of them. -/
theorem slashes_iff (hlocated : Located addrmap) (hhead : request.target.head? = some '/')
    (hlast : request.target.getLast? ≠ some '/')
    (hkind : ∀ (location : Str) (arg : ConfigArg),
      searchAddrBinding (routesOf platform addrmap) (request.target ++ ['/']) = some location →
      addrmap[location]? = some arg →
      handlerTypeOf arg.handlerType ∈ [HandlerType.static, .crud, .textGen, .block]) :
    (searchAddrBinding (routesOf platform addrmap) ((slashed n request).target ++ ['/']) =
        searchAddrBinding (routesOf platform addrmap) (request.target ++ ['/']) ∧
      answerClient platform addrmap s (client, slashed n request) =
        answerClient platform addrmap s (client, request)) ↔
      ¬ Differs platform addrmap s request n := by
  have hne : request.target ≠ [] := by
    intro h
    rw [h] at hhead
    cases hhead
  have hkeys (location : Str) :
      (routesOf platform addrmap).contains location = addrmap.contains location := by
    rw [Std.ExtTreeMap.contains_eq_isSome_getElem?, Std.ExtTreeMap.contains_eq_isSome_getElem?,
      routesOf_get]
    cases addrmap[location]? <;> rfl
  by_cases hlonger : ∃ k, 1 ≤ k ∧ k ≤ n ∧ addrmap.contains (request.target ++ slashes k)
  · -- the search stops at a location longer than the target
    obtain ⟨k, h1, h2, hk⟩ := hlonger
    refine ⟨fun h => ?_, fun h => absurd (.location h1 h2 hk) h⟩
    exfalso
    rw [← hkeys] at hk
    obtain ⟨j, hj, hfound⟩ := search_longer hne h1 h2 hk
    have hlen := search_not_longer (h.1.symm.trans hfound) hne
    rw [List.length_append, length_slashes] at hlen
    omega
  · have hno : ∀ k, 1 ≤ k → k ≤ n →
        ¬ (routesOf platform addrmap).contains (request.target ++ slashes k) := by
      intro k h1 h2 hk
      rw [hkeys] at hk
      exact hlonger ⟨k, h1, h2, hk⟩
    have hsearch : searchAddrBinding (routesOf platform addrmap)
        ((slashed n request).target ++ ['/']) =
          searchAddrBinding (routesOf platform addrmap) (request.target ++ ['/']) :=
      search_slashes hne hno
    cases hfound : searchAddrBinding (routesOf platform addrmap) (request.target ++ ['/']) with
    | none =>
        rw [answerClient_unrouted hfound, answerClient_unrouted (hsearch.trans hfound)]
        refine ⟨fun _ hd => ?_, fun _ => ⟨hsearch.trans hfound, rfl⟩⟩
        cases hd with
        | location h1 h2 hk => exact hlonger ⟨_, h1, h2, hk⟩
        | handler hfound' =>
            rw [hfound] at hfound'
            cases hfound'
    | some location =>
        obtain ⟨arg, harg⟩ := exists_entry hfound
        have hunder : Under arg.location (request.target ++ ['/']) := by
          rw [hlocated location arg harg]
          exact (search_some _ rfl hfound).2
        rw [answerClient_routed hfound harg, answerClient_routed (hsearch.trans hfound) harg]
        have hsame : kept (handle platform location arg client.text s (slashed n request)
            freshResponse) = kept (handle platform location arg client.text s request freshResponse) ↔ _ :=
          handler_same_iff (hkind location arg hfound harg) hunder hhead hlast
        constructor
        · intro h hd
          cases hd with
          | location h1 h2 hk => exact hlonger ⟨_, h1, h2, hk⟩
          | handler hfound' harg' hat =>
              rw [hfound] at hfound'
              cases hfound'
              rw [harg] at harg'
              cases harg'
              exact hsame.mp h.2 hat
        · intro h
          exact ⟨hsearch.trans hfound, hsame.mpr fun hat => h (.handler hfound harg hat)⟩

end Main

/-! ## 6. Requests to a server -/

theorem demoMap_located : Located demoMap := by
  intro location arg harg
  unfold demoMap at harg
  rw [getElem?_assign] at harg
  split at harg
  · rename_i heq
    cases harg
    exact heq
  · rw [getElem?_assign] at harg
    split at harg
    · rename_i heq
      cases harg
      exact heq
    · rw [Std.ExtTreeMap.getElem?_empty] at harg
      cases harg

/-- Three slashes behind an entity. -/
theorem slashes_shoes :
    searchAddrBinding (routesOf demoPlatform demoMap) ("/api/Shoes///".toList ++ ['/']) =
        searchAddrBinding (routesOf demoPlatform demoMap) ("/api/Shoes".toList ++ ['/']) ∧
      answerClient demoPlatform demoMap demoStart (localhost, Crud.ask .get "/api/Shoes///" "") =
        answerClient demoPlatform demoMap demoStart (localhost, Crud.ask .get "/api/Shoes" "") := by
  have hfound : searchAddrBinding (routesOf demoPlatform demoMap) ("/api/Shoes".toList ++ ['/']) =
      some "/api".toList := by decide +kernel
  refine (slashes_iff demoPlatform demoMap demoStart localhost (Crud.ask .get "/api/Shoes" "") 3
    demoMap_located rfl (by decide) ?_).mpr ?_
  · intro location arg hfound' harg
    cases hfound.symm.trans hfound'
    cases demoMap_api.symm.trans harg
    decide
  · intro hd
    cases hd with
    | @location k h1 h2 hk =>
        have hall : ∀ k ≤ 3, ¬ demoMap.contains ("/api/Shoes".toList ++ slashes k) := by
          decide +kernel
        exact hall k h2 hk
    | handler hfound' harg hat =>
        cases hfound.symm.trans hfound'
        cases demoMap_api.symm.trans harg
        exact absurd ((differsAt_crud (by decide)).mp hat).1 (by decide)

/-- **One slash behind the bare location** of the CRUD handler, and the request is a bad one. -/
theorem one_slash_matters : Located demoMap ∧
    searchAddrBinding (routesOf demoPlatform demoMap) ("/api/".toList ++ ['/']) =
      searchAddrBinding (routesOf demoPlatform demoMap) ("/api".toList ++ ['/']) ∧
    answerClient demoPlatform demoMap demoStart (localhost, Crud.ask .get "/api/" "") ≠
      answerClient demoPlatform demoMap demoStart (localhost, Crud.ask .get "/api" "") := by
  have hslash : searchAddrBinding (routesOf demoPlatform demoMap) ("/api/".toList ++ ['/']) =
      some "/api".toList := by decide +kernel
  have hbare : searchAddrBinding (routesOf demoPlatform demoMap) ("/api".toList ++ ['/']) =
      some "/api".toList := by decide +kernel
  refine ⟨demoMap_located, hslash.trans hbare.symm, fun heq => ?_⟩
  rw [answerClient_routed hslash demoMap_api, answerClient_routed hbare demoMap_api] at heq
  have hno : ¬ DiffersAt _ demoStart (Crud.ask .get "/api" "") 1 :=
    (crud_same_iff (by decide) (.bare rfl)).mp heq
  exact hno (.crud (by decide) rfl rfl (by simp [Crud.ask]))

end Googolplex
