/-
  File:      Googolplex/Dispatcher/Acknowledged.lean
  Subject:   WHAT AN ANSWER OF SUCCESS TO A WRITE IS WORTH, on a disk of which
             any write may fail.

  * `Promises`: the file a CRUD POST or PUT, or a text_gen POST, is to leave.
  * `Recalled`: the file holds it, and a GET answers with it.
  * `handle_housed`: the directories of the known keys, for all locations.
  * `TextGen.post_wrote`, `TextGen.get_title`, `TextGen.not_asked`: text_gen.
  * `recalled_iff`: when a promise is kept.
-/
import Googolplex.Crud.Housed
import Googolplex.Dispatcher.Exceptions
import Googolplex.TextGen.Store

namespace Googolplex

open Cxx Posix Posix.FileTree RequestHandler Machine
open Config (ConfigArg AddrMap)
open TextGen (Ipv4)

/-! ## 1. Promises -/

/-- The platform with what the disk does in one request. -/
def Platform.on (platform : Platform) (disk : Disk) : Platform := { platform with disk }

/-- One request of a client, and what the disk does in it. -/
def answerOn (platform : Platform) (addrmap : AddrMap) (s : ServerState)
    (input : Disk × Ipv4 × Request) : Except Fault (ServerState × Response) :=
  answerClient (platform.on input.1) addrmap s input.2

/-- The requests that write a file. -/
def Writes (arg : ConfigArg) (request : Request) : Prop :=
  (handlerTypeOf arg.handlerType = .crud ∧ (request.method = .post ∨ request.method = .put)) ∨
    (handlerTypeOf arg.handlerType = .textGen ∧ request.method = .post)

/-- A file that is to be left: where, with what in it, and how a GET finds it. -/
structure Promise where
  path : Str
  text : Str
  target : Str
  shown : Response → Prop

/-- The title and the prompt of a POST. -/
def titleOf (tokenMap : OrdMap Str Str) : Str := tokenMap["title".toList]?.getD []

def promptOf (tokenMap : OrdMap Str Str) : Str := tokenMap["prompt".toList]?.getD []

/-- **What a write that is answered with success promises**: for CRUD the body in the file it names,
    for text_gen the entry of the title, with the text of the answer in it. -/
inductive Promises (platform : Platform) (location : Str) (arg : ConfigArg) (client : Ipv4)
    (s : ServerState) (request : Request) (r : Response) : Promise → Prop
  | crud {e : Str} {x : Name} {n : Nat} (htype : handlerTypeOf arg.handlerType = .crud)
      (hn : Crud.Names ⟨arg.location, arg.root⟩ (s.crud location) request e x n) :
      Promises platform location arg client s request r
        { path := Crud.pathOf ⟨arg.location, arg.root⟩ (e ++ '/' :: x)
          text := request.body
          target := arg.location ++ '/' :: (e ++ '/' :: x)
          shown := fun answer => answer.result = .ok ∧ answer.body = request.body }
  | textGen {tokenMap : OrdMap Str Str} {entry : Str}
      (htype : handlerTypeOf arg.handlerType = .textGen) (hm : request.method = .post)
      (hbody : TextGen.parsePostBody request.body = some tokenMap)
      (hentry : platform.library.dump
        (TextGen.entryOf r.body (promptOf tokenMap) (titleOf tokenMap)) = some entry) :
      Promises platform location arg client s request r
        { path := TextGen.folderOf ⟨arg.location, arg.root⟩ client.text ++ '/' :: titleOf tokenMap
          text := entry
          target := arg.location ++ '/' :: TextGen.encodeSpaces (titleOf tokenMap)
          shown := fun answer => answer.result = .ok ∧
            (Field.contentType, "application/json".toList) ∈ answer.fields ∧
            platform.library.parse answer.body = some (TextGen.readedJson client.folder
              (titleOf tokenMap) (TextGen.entryOf r.body (promptOf tokenMap) (titleOf tokenMap))) }

/-- **A promise is kept**: the file holds exactly the text, and every GET of it right after is
    answered with it, whatever the disk does. -/
def Recalled (platform : Platform) (location : Str) (arg : ConfigArg) (client : Ipv4)
    (s : ServerState) (promise : Promise) : Prop :=
  s.files.lookup promise.path = some (.file promise.text) ∧
    ∀ disk (get : Request), get.method = .get → get.target = promise.target →
      ∃ s' answer b, handle (platform.on disk) location arg client.text s get freshResponse =
        .ok (s', answer, b) ∧ promise.shown answer

/-! ## 2. The directories of all locations -/

section Server

variable {platform : Platform} {addrmap : AddrMap} {s s' : ServerState} {client : Ipv4}
  {location l : Str} {arg a : ConfigArg} {request : Request} {response r : Response} {b : Bool}
  {disk : Disk}

/-- **At every location** the known keys have their directories. -/
def AllHoused (addrmap : AddrMap) (s : ServerState) : Prop :=
  ∀ (location : Str) (arg : ConfigArg), addrmap[location]? = some arg →
    Crud.Housed ⟨arg.location, arg.root⟩ (s.crud location)

/-- What a request makes of the maps: that of a CRUD location is changed by its handler. -/
theorem handle_maps
    (h : handle platform location arg client.text s request response = .ok (s', r, b)) :
    (s'.fileToId = s.fileToId) ∨
      ∃ c, Crud.handleRequest ⟨arg.location, arg.root⟩ platform.disk (s.crud location) request
          response = .ok (c, r, b) ∧ s'.files = c.files ∧
        s'.fileToId = s.fileToId.insert location c.fileToId := by
  unfold handle at h
  cases htype : handlerTypeOf arg.handlerType with
  | crud =>
      simp only [htype] at h
      split at h
      · cases h
      · rename_i hserve
        cases h
        exact Or.inr ⟨_, hserve, rfl, rfl⟩
  | static =>
      simp only [htype] at h
      split at h
      · cases h
      · cases h
        exact Or.inl rfl
  | textGen =>
      simp only [htype] at h
      split at h
      · cases h
      · split at h
        · cases h
        · cases h
          exact Or.inl rfl
  | _ =>
      simp only [htype] at h
      cases h
      exact Or.inl rfl

/-- **One request keeps the directories of all locations**: its own by `Housed.step`, those of the
    others because no handler takes a directory away. -/
theorem handle_housed (hs : AllHoused addrmap s) (harg : addrmap[location]? = some arg)
    (h : handle platform location arg client.text s request response = .ok (s', r, b)) :
    AllHoused addrmap s' := by
  intro l a ha
  have hg : Grows (s.crud l).files (s'.crud l).files := (handle_touch h).grows
  rcases handle_maps h with hsame | ⟨c, hc, hfiles, hmap⟩
  · refine (hs l a ha).grows ?_ hg
    unfold ServerState.crud
    rw [hsame]
  · by_cases hl : location = l
    · subst hl
      obtain rfl : arg = a := Option.some.inj (harg.symm.trans ha)
      have hcrud : s'.crud location = c := by
        unfold ServerState.crud
        rw [hmap, getElem?_assign_self, hfiles]
        rfl
      rw [hcrud]
      exact (hs location arg harg).step hc
    · refine (hs l a ha).grows ?_ hg
      unfold ServerState.crud
      rw [hmap, getElem?_assign_of_ne _ _ hl]

/-- What every request of every client keeps. -/
theorem answerOn_housed {input : Disk × Ipv4 × Request} (hs : AllHoused addrmap s)
    (h : answerOn platform addrmap s input = .ok (s', r)) : AllHoused addrmap s' := by
  unfold answerOn at h
  obtain ⟨disk, client, request⟩ := input
  cases hfound : searchAddrBinding (routesOf (platform.on disk) addrmap)
      (request.target ++ ['/']) with
  | none =>
      rw [answerClient_unrouted hfound] at h
      cases h
      exact hs
  | some location =>
      obtain ⟨arg, harg⟩ := exists_entry hfound
      rw [answerClient_routed hfound harg] at h
      cases hh : handle (platform.on disk) location arg client.text s request freshResponse with
      | error f =>
          rw [hh] at h
          cases h
      | ok v =>
          obtain ⟨t, response, b⟩ := v
          rw [hh] at h
          cases h
          exact handle_housed hs harg hh

end Server

/-! ## 3. The entries of text_gen -/

namespace TextGen

variable {host : Host} {handler : RequestHandler} {client : Ipv4} {files files' : FileTree}
  {request : Request} {response r : Response} {b : Bool} {reply : Option Str} {title : Str}

/-- A root that is there, or made, is a directory that was there, or is made. -/
theorem makeRoot_made {root : Str} (h : makeRoot files root = .ok files') :
    createDir files root = (true, files') := by
  unfold makeRoot at h
  unfold createDir
  split at h
  · rename_i hdir
    cases h
    rw [if_pos hdir]
  · rename_i hdir
    rw [if_neg hdir]
    cases hm : files.mkdir root with
    | none =>
        rw [hm] at h
        cases h
    | some t =>
        rw [hm] at h
        cases h
        rfl

theorem storeEntry_wrote {output textPrompt : Str}
    (h : storeEntry host handler client.text files output textPrompt title = .ok (true, files')) :
    ∃ made entry, host.library.dump (entryOf output textPrompt title) = some entry ∧
      createDir files (folderOf handler client.text) = (true, made) ∧
      writeToFile host.disk made (folderOf handler client.text ++ '/' :: title) entry =
        (true, files') := by
  unfold storeEntry at h
  dsimp only at h
  cases hmade : createDir files (folderOf handler client.text) with
  | mk created made =>
      rw [hmade] at h
      cases created with
      | false => cases h
      | true =>
          cases hentry : host.library.dump (entryOf output textPrompt title) with
          | none =>
              rw [hentry] at h
              cases h
          | some entry =>
              rw [hentry] at h
              exact ⟨made, entry, rfl, rfl, Except.ok.inj h⟩

/-- **The write behind a POST that is answered with success.** -/
theorem post_wrote
    (h : handlePostRequest host handler client.text reply files request response = .ok (files', r, b))
    (hack : Acknowledged r) :
    ∃ tokenMap made entry, parsePostBody request.body = some tokenMap ∧
      checkTitleValidity (titleOf tokenMap) = true ∧
      host.library.dump (entryOf r.body (promptOf tokenMap) (titleOf tokenMap)) = some entry ∧
      createDir files (folderOf handler client.text) = (true, made) ∧
      writeToFile host.disk made (folderOf handler client.text ++ '/' :: titleOf tokenMap) entry =
        (true, files') := by
  have herror : ∀ {r : Response}, r.result = .badRequest ∨ r.result = .internalServerError →
      ¬ Acknowledged r := by
    intro r hr
    refine Crud.not_acknowledged ?_
    rcases hr with hr | hr <;> simp [hr, Status.toNat]
  unfold handlePostRequest at h
  cases hbody : parsePostBody request.body with
  | none =>
      rw [hbody] at h
      cases h
      exact absurd hack (herror (Or.inl rfl))
  | some tokenMap =>
      simp only [hbody] at h
      split at h
      · cases h
        exact absurd hack (herror (Or.inl rfl))
      · rename_i hvalid
        rw [not_or, Bool.not_eq_false, Bool.not_eq_false] at hvalid
        cases hout : reply.bind (parseRawOutput host) with
        | none =>
            rw [hout] at h
            cases h
            exact absurd hack (herror (Or.inr rfl))
        | some output =>
            simp only [hout] at h
            split at h
            · cases h
            · rename_i hstore
              cases h
              obtain ⟨made, entry, hentry, hmade, hwrite⟩ := storeEntry_wrote hstore
              exact ⟨tokenMap, made, entry, rfl, hvalid.2, hentry, hmade, hwrite⟩
            · cases h
              exact absurd hack (herror (Or.inr rfl))

/-- **When the file holds the entry** after a POST that is answered with success. -/
theorem post_kept_iff {rooted : FileTree} (hroot : makeRoot files handler.dir_ = .ok rooted)
    (h : handlePostRequest host handler client.text reply rooted request response =
      .ok (files', r, b))
    (hack : Acknowledged r) :
    ∃ tokenMap entry, parsePostBody request.body = some tokenMap ∧
      checkTitleValidity (titleOf tokenMap) = true ∧
      host.library.dump (entryOf r.body (promptOf tokenMap) (titleOf tokenMap)) = some entry ∧
      files'.lookup handler.dir_ = some .dir ∧
      files'.lookup (folderOf handler client.text) = some .dir ∧
      (files'.lookup (folderOf handler client.text ++ '/' :: titleOf tokenMap) =
          some (.file entry) ↔
        Wrote host.disk files (folderOf handler client.text ++ '/' :: titleOf tokenMap) entry) := by
  obtain ⟨tokenMap, made, entry, hbody, htitle, hentry, hmade, hwrite⟩ := post_wrote h hack
  obtain ⟨hrootdir, hbefore⟩ := createDir_found (x := client.folder) (makeRoot_made hroot)
  have hfolder := (createDir_found (x := []) hmade).1
  have hslash : '/' ∉ titleOf tokenMap := not_mem_title htitle (by decide) (by decide)
  have hne : titleOf tokenMap ≠ [] := by
    intro hnil
    rw [hnil] at htitle
    revert htitle
    decide
  have hplain : Plain (titleOf tokenMap) := plain_of_written hfolder hne hslash hwrite
  have hgrows : Grows made files' := writeToFile_grows hwrite
  refine ⟨tokenMap, entry, hbody, htitle, hentry, ?_, lookup_grows hgrows hfolder, ?_⟩
  · exact lookup_grows hgrows (lookup_grows (createDir_grows hmade) hrootdir)
  · rw [stored_iff hplain hmade hwrite]
    -- in a root that is made there is no folder
    have hpath : folderOf handler client.text ++ '/' :: titleOf tokenMap =
        handler.dir_ ++ '/' :: (client.folder ++ '/' :: titleOf tokenMap) :=
      Crud.pathOf_below handler client.folder (titleOf tokenMap)
    unfold Wrote
    have hsegments : segments (client.folder ++ '/' :: titleOf tokenMap) =
        client.folder :: segments (titleOf tokenMap) := by
      rw [segments_append, segments_of_not_mem client.folder_plain.2.2.2]
      rfl
    rw [hpath, hbefore hsegments client.folder_plain]

/-- A title that is valid can be asked for. -/
theorem decode_title (htitle : checkTitleValidity title = true) :
    decodeSpaces (encodeSpaces title) = title := by
  refine decode_encode fun hin => ?_
  exact not_mem_title htitle (by decide) (by decide) (hin.subset (List.mem_cons_self (a := '%')))

/-- **A GET of a title that is stored** is answered with the entry. -/
theorem get_title (host : Host) (handler : RequestHandler) (reply : Option Str) (response : Response)
    {entry : Json.Value} {text : Str} (hm : request.method = .get)
    (htarget : request.target = handler.prefix_ ++ '/' :: encodeSpaces title)
    (htitle : checkTitleValidity title = true) (hspaces : ¬ "%20".toList <:+: handler.prefix_)
    (hdir : files.lookup (folderOf handler client.text) = some .dir)
    (hfile : files.lookup (folderOf handler client.text ++ '/' :: title) = some (.file text))
    (hproper : host.library.Proper entry) (htext : host.library.dump entry = some text) :
    ∃ printed, handleRequest host handler client.text reply files request response =
        .ok (files, response.answer .ok "application/json".toList printed, true) ∧
      host.library.parse printed = some (readedJson client.folder title entry) := by
  have hne : title ≠ [] ∧ title ≠ "history?".toList := by
    refine ⟨?_, ?_⟩ <;> (rintro rfl; revert htitle; decide)
  have hlast : ∀ h, title.getLast h ≠ '/' := fun h hslash =>
    not_mem_title htitle (by decide) (by decide) (hslash ▸ List.getLast_mem h)
  unfold handleRequest handleGetRequest
  rw [htarget, decodeSpaces_slash, decodeSpaces_eq_self.mpr hspaces, decode_title htitle,
    checkRequestUrl_below handler true hne.1 hlast]
  simp only [hm, hne, if_false]
  exact getTitleFile_entry response hdir hfile hproper htext
    (Json.utf8_of_ascii (title_ascii htitle))

/-- What is answered in JSON is read from the answer. -/
theorem jsonAnswer_parse {j : Json.Value} (hproper : host.library.Proper j)
    (h : jsonAnswer host files j response = .ok (files', r, b)) :
    host.library.parse r.body = some j := by
  unfold jsonAnswer at h
  cases hdump : host.library.dump j with
  | none =>
      rw [hdump] at h
      cases h
  | some text =>
      rw [hdump] at h
      cases h
      exact host.library.parse_dump _ _ hproper hdump

/-- **An entry that is answered was asked for**: only a GET of the title has it in its answer. -/
theorem asked_of_read {entry : Json.Value} (hm : request.method = .get)
    (h : handleRequest host handler client.text reply files request response = .ok (files', r, b))
    (hok : r.result = .ok) (hjson : (Field.contentType, "application/json".toList) ∈ r.fields)
    (hentry : host.library.parse r.body = some (readedJson client.folder title entry)) :
    handler.checkRequestUrl (decodeSpaces request.target) true = some title := by
  unfold handleRequest handleGetRequest at h
  rw [hm] at h
  dsimp only at h
  cases hs : handler.checkRequestUrl (decodeSpaces request.target) true with
  | none =>
      rw [hs] at h
      cases h
      cases hok
  | some suffix =>
      rw [hs] at h
      dsimp only at h
      split at h
      · -- the page is no JSON
        split at h
        · cases h
        · cases h
          revert hjson
          simp [Response.answer, Response.preparePayload, Response.set]
        · cases h
          cases hok
      · split at h
        · unfold getIpFileList at h
          split at h
          · split at h
            · have hlist := jsonAnswer_parse (history_proper host.library client.folder _) h
              rw [hlist] at hentry
              cases hentry
            · cases h
              cases hok
          · cases h
            cases hok
        · unfold getTitleFile at h
          split at h
          · dsimp only at h
            split at h
            · rw [if_neg Bool.false_ne_true] at h
              split at h
              · cases h
              · rename_i content hcontent
                have hread := jsonAnswer_parse (readed_proper host.library client.folder suffix
                  (host.library.proper_parse _ _ hcontent)) h
                rw [hread] at hentry
                cases hentry
                rfl
            · cases h
              cases hok
          · cases h
            cases hok

/-- **Under a location with a `%20` in it** no GET is answered with the entry: what is decoded is
    shorter than the location, so the title is not read from it. -/
theorem not_asked {suffix : Str} {forGet : Bool} (htitle : title ≠ [])
    (hspaces : "%20".toList <:+: handler.prefix_)
    (h : handler.checkRequestUrl (decodeSpaces handler.prefix_ ++ '/' :: title) forGet =
      some suffix) : suffix ≠ title := by
  have hlt := decodeSpaces_lt hspaces
  have hpos : 0 < title.length := List.length_pos_iff.mpr htitle
  suffices hlen : suffix.length < title.length by
    intro heq
    rw [heq] at hlen
    exact lt_irrefl _ hlen
  unfold checkRequestUrl at h
  dsimp only at h
  split at h
  · cases h
    refine lt_of_le_of_lt (List.rdropWhile_prefix _ _).length_le ?_
    rw [List.length_drop]
    simp only [List.length_append, List.length_cons, List.length_nil]
    omega
  · split at h
    · cases h
      exact hpos
    · split at h
      · cases h
        exact hpos
      · cases h

end TextGen

/-! ## 4. When a promise is kept -/

section Promise

variable {platform : Platform} {s s' : ServerState} {client : Ipv4} {location : Str} {arg : ConfigArg}
  {request : Request} {r : Response} {b : Bool} {disk : Disk}

/-- A file of a CRUD location is found. -/
theorem found_crud (htype : handlerTypeOf arg.handlerType = .crud) {e text : Str} {x : Name}
    (hx : Plain x) (hfile : s.files.lookup (Crud.pathOf ⟨arg.location, arg.root⟩ (e ++ '/' :: x)) =
      some (.file text))
    (hm : request.method = .get) (htarget : request.target = arg.location ++ '/' :: (e ++ '/' :: x)) :
    ∃ s' answer b, handle (platform.on disk) location arg client.text s request freshResponse =
      .ok (s', answer, b) ∧ answer.result = .ok ∧ answer.body = text := by
  have hsuffix : checkRequestUrl ⟨arg.location, arg.root⟩ request.target false =
      some (e ++ '/' :: x) := by
    rw [htarget]
    exact checkRequestUrl_named _ e false hx.1 hx.2.2.2
  obtain ⟨answer, hanswer, hok, hbody⟩ := Crud.get_file (s := s.crud location) disk
    freshResponse hm hsuffix hfile
  have hserve : ∃ s', handle (platform.on disk) location arg client.text s request freshResponse =
      .ok (s', answer, true) := by
    unfold handle
    simp only [htype]
    rw [show (platform.on disk).disk = disk from rfl, hanswer]
    exact ⟨_, rfl⟩
  obtain ⟨s', hs'⟩ := hserve
  exact ⟨s', answer, true, hs', hok, hbody⟩

/-- **CRUD**: the file holds the body if it is written out, and then every GET finds it. -/
theorem crud_promise (htype : handlerTypeOf arg.handlerType = .crud)
    (hhoused : Crud.Housed ⟨arg.location, arg.root⟩ (s.crud location))
    (hm : request.method = .post ∨ request.method = .put)
    (h : handle (platform.on disk) location arg client.text s request freshResponse = .ok (s', r, b))
    (hack : Acknowledged r) :
    ∃ p, Promises platform location arg client s request r p ∧
      (Recalled platform location arg client s' p ↔ Wrote disk s.files p.path p.text) := by
  unfold handle at h
  simp only [htype] at h
  split at h
  · cases h
  · rename_i hserve
    cases h
    obtain ⟨e, x, n, hn, hkept⟩ := hhoused.kept_iff hm hserve hack
    refine ⟨_, .crud htype hn, Iff.trans ⟨And.left, fun hfile => ?_⟩ hkept⟩
    exact ⟨hfile, fun disk' get hget htarget => found_crud htype hn.plain hfile hget htarget⟩

/-- An entry of a text_gen location is found, if the location has no `%20` in it. -/
theorem found_text (htype : handlerTypeOf arg.handlerType = .textGen) {title text : Str}
    {entry : Json.Value} (htitle : TextGen.checkTitleValidity title = true)
    (hspaces : ¬ "%20".toList <:+: arg.location) (hroot : s.files.lookup arg.root = some .dir)
    (hdir : s.files.lookup (TextGen.folderOf ⟨arg.location, arg.root⟩ client.text) = some .dir)
    (hfile : s.files.lookup (TextGen.folderOf ⟨arg.location, arg.root⟩ client.text ++ '/' :: title) =
      some (.file text))
    (hproper : platform.library.Proper entry) (htext : platform.library.dump entry = some text)
    (hm : request.method = .get)
    (htarget : request.target = arg.location ++ '/' :: TextGen.encodeSpaces title) :
    ∃ s' answer b, handle (platform.on disk) location arg client.text s request freshResponse =
      .ok (s', answer, b) ∧ answer.result = .ok ∧
      (Field.contentType, "application/json".toList) ∈ answer.fields ∧
      platform.library.parse answer.body = some (TextGen.readedJson client.folder title entry) := by
  obtain ⟨printed, hanswer, hparse⟩ := TextGen.get_title (platform.on disk).toHost
    ⟨arg.location, arg.root⟩ (s.api 0) freshResponse hm htarget htitle hspaces hdir hfile hproper htext
  have hserve : ∃ s', handle (platform.on disk) location arg client.text s request freshResponse =
      .ok (s', freshResponse.answer .ok "application/json".toList printed, true) := by
    unfold handle makeRoot
    simp only [htype]
    rw [if_pos hroot]
    dsimp only
    rw [hanswer]
    exact ⟨_, rfl⟩
  obtain ⟨s', hs'⟩ := hserve
  refine ⟨s', _, true, hs', rfl, ?_, hparse⟩
  simp [Response.answer, Response.preparePayload, Response.set]

/-- What is found was asked for. -/
theorem asked_text (htype : handlerTypeOf arg.handlerType = .textGen) {title : Str}
    {entry : Json.Value} (hm : request.method = .get)
    (h : handle (platform.on disk) location arg client.text s request freshResponse = .ok (s', r, b))
    (hok : r.result = .ok) (hjson : (Field.contentType, "application/json".toList) ∈ r.fields)
    (hentry : platform.library.parse r.body =
      some (TextGen.readedJson client.folder title entry)) :
    checkRequestUrl ⟨arg.location, arg.root⟩ (TextGen.decodeSpaces request.target) true =
      some title := by
  unfold handle at h
  simp only [htype] at h
  split at h
  · cases h
  · split at h
    · cases h
    · rename_i hserve
      cases h
      exact TextGen.asked_of_read hm hserve hok hjson hentry

/-- **text_gen**: the file holds the entry if it is written out; a GET finds it if the location has no
    `%20` in it. -/
theorem text_promise (htype : handlerTypeOf arg.handlerType = .textGen) (hm : request.method = .post)
    (h : handle (platform.on disk) location arg client.text s request freshResponse = .ok (s', r, b))
    (hack : Acknowledged r) :
    ∃ p, Promises platform location arg client s request r p ∧
      (Recalled platform location arg client s' p ↔
        Wrote disk s.files p.path p.text ∧ ¬ "%20".toList <:+: arg.location) := by
  unfold handle at h
  simp only [htype] at h
  cases hroot : makeRoot s.files arg.root with
  | error f =>
      rw [hroot] at h
      cases h
  | ok rooted =>
      rw [hroot] at h
      dsimp only at h
      split at h
      · cases h
      · rename_i hserve
        cases h
        unfold TextGen.handleRequest at hserve
        simp only [hm] at hserve
        obtain ⟨tokenMap, entry, hbody, htitle, hentry, hrootdir, hfolder, hkept⟩ :=
          TextGen.post_kept_iff hroot hserve hack
        refine ⟨_, .textGen htype hm hbody hentry,
          fun ⟨hfile, hget⟩ => ⟨hkept.mp hfile, fun hspaces => ?_⟩, fun ⟨hwrote, hspaces⟩ => ?_⟩
        · obtain ⟨t, answer, b, hanswer, hok, hjson, hparse⟩ := hget disk
            ⟨.get, arg.location ++ '/' :: TextGen.encodeSpaces (titleOf tokenMap), [], []⟩ rfl rfl
          have hasked := asked_text htype rfl hanswer hok hjson hparse
          rw [TextGen.decodeSpaces_slash, TextGen.decode_title htitle] at hasked
          refine TextGen.not_asked ?_ hspaces hasked rfl
          intro hnil
          rw [hnil] at htitle
          revert htitle
          decide
        · exact ⟨hkept.mpr hwrote, fun disk' get hget htarget => found_text htype htitle hspaces
            hrootdir hfolder (hkept.mpr hwrote) (TextGen.entry_proper platform.library ..) hentry hget
            htarget⟩

/-- A request promises one file. -/
theorem Promises.unique {p q : Promise} (hp : Promises platform location arg client s request r p)
    (hq : Promises platform location arg client s request r q) : p = q := by
  cases hp with
  | crud htype hn =>
      cases hq with
      | crud _ hn' =>
          obtain ⟨rfl, rfl, _⟩ := hn.unique hn'
          rfl
      | textGen htype' =>
          rw [htype] at htype'
          cases htype'
  | textGen htype _ hbody hentry =>
      cases hq with
      | crud htype' =>
          rw [htype] at htype'
          cases htype'
      | textGen _ _ hbody' hentry' =>
          obtain rfl := Option.some.inj (hbody.symm.trans hbody')
          obtain rfl := Option.some.inj (hentry.symm.trans hentry')
          rfl

end Promise

/-- **What an answer of success is worth**: in every state the server comes to, whatever the disk did
    in each request, a write that is answered with success promises one file; the promise is kept if
    and only if the text was written out, and for text_gen the location has no `%20` in it. -/
theorem recalled_iff (platform : Platform) (addrmap : AddrMap) (start s : ServerState)
    (hstart : ∀ l : Str, start.fileToId[l]? = none)
    (hreach : Reachable (answerOn platform addrmap) start s) (location : Str) (arg : ConfigArg)
    (harg : addrmap[location]? = some arg) (disk : Disk) (client : Ipv4) (request : Request)
    (hwrites : Writes arg request) (s' : ServerState) (r : Response) (b : Bool)
    (h : handle (platform.on disk) location arg client.text s request freshResponse = .ok (s', r, b))
    (hack : Acknowledged r) :
    (∃ p, Promises platform location arg client s request r p) ∧
      ∀ p, Promises platform location arg client s request r p →
        (Recalled platform location arg client s' p ↔ Wrote disk s.files p.path p.text ∧
          (handlerTypeOf arg.handlerType = .textGen → ¬ "%20".toList <:+: arg.location)) := by
  have hempty : AllHoused addrmap start := by
    intro l a _ k hk
    unfold ServerState.crud at hk
    rw [hstart l] at hk
    exact Crud.Housed.empty _ start.files k hk
  have hhoused : AllHoused addrmap s :=
    Reachable.invariant (fun _ _ _ _ hi hstep => answerOn_housed hi hstep) hempty hreach
  rcases hwrites with ⟨htype, hm⟩ | ⟨htype, hm⟩
  · obtain ⟨p, hp, hkept⟩ := crud_promise htype (hhoused location arg harg) hm h hack
    refine ⟨⟨p, hp⟩, fun q hq => ?_⟩
    rw [hq.unique hp, hkept, htype]
    simp
  · obtain ⟨p, hp, hkept⟩ := text_promise htype hm h hack
    refine ⟨⟨p, hp⟩, fun q hq => ?_⟩
    rw [hq.unique hp, hkept, htype]
    simp

/-- `location /api CrudHandler { data_path /data; }`. -/
def apiArg : ConfigArg :=
  { handlerType := "CrudHandler".toList, location := "/api".toList, root := "/data".toList }

/-- A pair of shoes is posted. -/
def redShoes : Request := Crud.ask .post "/api/Shoes" "red"

/-- On a disk that takes everything they are found. -/
theorem recalled_shoes : ∃ s' r p,
    handle (demoPlatform.on Disk.reliable) "/api".toList apiArg localhost.text demoStart redShoes
      freshResponse = .ok (s', r, true) ∧ Acknowledged r ∧
    Promises demoPlatform "/api".toList apiArg localhost demoStart redShoes r p ∧
    Recalled demoPlatform "/api".toList apiArg localhost s' p := by
  have hanswer : (handle (demoPlatform.on Disk.reliable) "/api".toList apiArg localhost.text demoStart
      redShoes freshResponse).map (fun v => (v.2.1.result, v.2.2)) = .ok (.created, true) := by
    decide +kernel
  cases hs : handle (demoPlatform.on Disk.reliable) "/api".toList apiArg localhost.text demoStart
      redShoes freshResponse with
  | error f =>
      rw [hs] at hanswer
      cases hanswer
  | ok v =>
      obtain ⟨s', r, b⟩ := v
      rw [hs] at hanswer
      obtain ⟨hresult, rfl⟩ := Prod.mk.inj (Except.ok.inj hanswer)
      have hack : Acknowledged r := by
        unfold Acknowledged
        rw [show r.result = .created from hresult]
        decide
      obtain ⟨⟨p, hp⟩, hkept⟩ := recalled_iff demoPlatform demoMap demoStart demoStart
        (fun l => Std.ExtTreeMap.getElem?_empty) (Reachable.refl _) "/api".toList apiArg demoMap_api
        Disk.reliable localhost redShoes (Or.inl ⟨by decide, Or.inl rfl⟩) s' r true hs hack
      exact ⟨s', r, p, rfl, hack, hp, (hkept p hp).mpr ⟨Or.inl rfl, by decide⟩⟩

/-- **On a disk that opens nothing** they are acknowledged and lost. -/
theorem shoes_lost : (∀ l : Str, demoStart.fileToId[l]? = none) ∧
    demoMap["/api".toList]? = some apiArg ∧ Writes apiArg redShoes ∧ ∃ s' r p,
      handle (demoPlatform.on fun _ _ => none) "/api".toList apiArg localhost.text demoStart redShoes
        freshResponse = .ok (s', r, true) ∧ Acknowledged r ∧
      Promises demoPlatform "/api".toList apiArg localhost demoStart redShoes r p ∧
      p.path = "/data/Shoes/1".toList ∧ s'.files.lookup p.path = none ∧
      ¬ Recalled demoPlatform "/api".toList apiArg localhost s' p := by
  refine ⟨fun l => Std.ExtTreeMap.getElem?_empty, demoMap_api, Or.inl ⟨by decide, Or.inl rfl⟩, ?_⟩
  have hanswer : (handle (demoPlatform.on fun _ _ => none) "/api".toList apiArg localhost.text demoStart
      redShoes freshResponse).map
        (fun v => (v.1.files.lookup "/data/Shoes/1".toList, v.2.1.result, v.2.2)) =
      .ok (none, .created, true) := by
    decide +kernel
  have hid : Crud.getNextId (demoStart.crud "/api".toList).fileToId "Shoes".toList =
      .ok (((1 : Nat) : Int), (∅ : Crud.FileToId).insert "Shoes".toList [1]) := by
    rfl
  cases hs : handle (demoPlatform.on fun _ _ => none) "/api".toList apiArg localhost.text demoStart
      redShoes freshResponse with
  | error f =>
      rw [hs] at hanswer
      cases hanswer
  | ok v =>
      obtain ⟨s', r, b⟩ := v
      rw [hs] at hanswer
      obtain ⟨hnone, hrest⟩ := Prod.mk.inj (Except.ok.inj hanswer)
      obtain ⟨hresult, rfl⟩ := Prod.mk.inj hrest
      have hack : Acknowledged r := by
        unfold Acknowledged
        rw [show r.result = .created from hresult]
        decide
      refine ⟨s', r, _, rfl, hack, .crud (by decide) (.post rfl (by decide) hid), by decide, hnone, ?_⟩
      intro hrecalled
      cases hnone.symm.trans hrecalled.1

end Googolplex
