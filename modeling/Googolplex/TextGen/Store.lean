/-
  File:      Googolplex/TextGen/Store.lean
  Subject:   A STORE OF TITLES FOR EACH CLIENT (what text_gen is for).

  What a client has of its titles is a matter of the answers: a POST answered with
  200 gives it a title, a DELETE answered with 200 takes it away (`record`).

  * `Right`: the answer to a request by what its client has.
  * `Stored`: the folders on disk hold what the clients have.
  * `post_stored`, `read_stored`, `removed_stored`, `list_stored`: one request of each kind.
  * `title_store_iff`: every run from an empty root answers right, unless the
    location has a `%20` in it or the page is a directory.
-/
import Googolplex.Crud.Exits
import Googolplex.TextGen.Exceptions

namespace Googolplex.TextGen

open Cxx Posix Posix.FileTree RequestHandler

/-! ## 1. What the clients have -/

/-- What a client has of a title. -/
structure Text where
  output : Str
  textPrompt : Str
  deriving DecidableEq, Repr

/-- The titles of all clients. -/
abbrev Titles := Ipv4 → Str → Option Text

/-- The titles with one changed. -/
def Titles.set (m : Titles) (client : Ipv4) (title : Str) (x : Option Text) : Titles :=
  fun c t => if c = client ∧ t = title then x else m c t

/-- A request of a client, and what the API says if it is asked. -/
structure Ask where
  client : Ipv4
  apiReply : Option Str
  request : Request

/-- **What the clients have after an answer.** -/
def record (handler : RequestHandler) (m : Titles) (ask : Ask) (r : Response) : Titles :=
  if r.result = .ok then
    match ask.request.method with
    | .post =>
      match parsePostBody ask.request.body with
      | some tokenMap =>
        m.set ask.client (tokenMap["title".toList]?.getD [])
          (some ⟨r.body, tokenMap["prompt".toList]?.getD []⟩)
      | none => m
    | .delete =>
      match handler.checkRequestUrl (decodeSpaces ask.request.target) false with
      | some suffix => m.set ask.client suffix none
      | none => m
    | _ => m
  else m

/-- The request names a title, each blank written as `%20`; a `%20` of the title's own would be read
    as a blank. -/
structure Asks (handler : RequestHandler) (request : Request) (method : Verb) (title : Str) : Prop where
  method : request.method = method
  target : request.target = handler.prefix_ ++ '/' :: encodeSpaces title
  named : title ≠ []
  flat : '/' ∉ title
  plain : ¬ "%20".toList <:+: title

/-- The list as script.js takes it apart: `substring(1, length - 1)`, and `split(',')` unless that is
    empty. -/
def historyList (s : Str) : List Str :=
  let inner := s.tail.dropLast
  if inner = [] then [] else inner.splitOn ','

/-- **The answer is right** by what the clients have. -/
structure Right (library : Json.Library) (handler : RequestHandler) (m : Titles) (ask : Ask)
    (r : Response) : Prop where
  read : ∀ title, Asks handler ask.request .get title → title ≠ "history?".toList →
    match m ask.client title with
    | some x => r.result = .ok ∧ ∃ v, library.parse r.body = some v ∧
        v.member "content".toList = some (entryOf x.output x.textPrompt title)
    | none => r.result = .notFound
  removed : ∀ title, Asks handler ask.request .delete title →
    (r.result = .ok ↔ m ask.client title ≠ none)
  listed : Asks handler ask.request .get "history?".toList →
    (r.result = .notFound ∧ ∀ title, m ask.client title = none) ∨
    (r.result = .ok ∧ ∃ v s, library.parse r.body = some v ∧
      v.member "title list".toList = some (.string s) ∧
      ∀ title, title ∈ historyList s ↔ m ask.client title ≠ none)

/-- The stored entry of a title. -/
def entryAt (handler : RequestHandler) (files : FileTree) (client : Ipv4) (title : Str) : Option Str :=
  match files.lookup (folderOf handler client.text ++ '/' :: title) with
  | some (.file text) => some text
  | _ => none

/-- **Every request of the run is answered, and right**; a POST that is not answered with 200 leaves
    every entry as it is. -/
def Faithful (host : Host) (handler : RequestHandler) : Titles → FileTree → List Ask → Prop
  | _, _, [] => True
  | m, files, ask :: asks =>
    ∃ files' r, serve host handler ask.client.text ask.apiReply files ask.request = .ok (files', r) ∧
      Right host.library handler m ask r ∧
      (ask.request.method = .post → r.result ≠ .ok → ∀ client title, '/' ∉ title →
        entryAt handler files' client title = entryAt handler files client title) ∧
      Faithful host handler (record handler m ask r) files' asks

/-- No suffix has a slash in it. -/
def Flat (handler : RequestHandler) (ask : Ask) : Prop :=
  ask.request.method = .get ∨ ask.request.method = .delete → ∀ forGet suffix,
    handler.checkRequestUrl (decodeSpaces ask.request.target) forGet = some suffix → '/' ∉ suffix

/-- The root is an empty directory, and the process is in one. -/
structure EmptyRoot (handler : RequestHandler) (files : FileTree) (d : Path) : Prop where
  root : files.resolve handler.dir_ = some d
  rootDir : files.IsDir d
  cwdDir : files.IsDir files.cwd
  empty : ∀ n : Name, files.nodes[n :: d]? = none

/-! ## 2. What is on disk -/

/-- The place of the page. -/
def pagePlace (files : FileTree) : Path :=
  "text.html".toList :: "static1".toList :: "static".toList :: files.cwd.tail

/-- **The folders hold what the clients have**, and nothing else. -/
structure Stored (library : Json.Library) (handler : RequestHandler) (d : Path) (m : Titles)
    (files : FileTree) : Prop where
  root : files.resolve handler.dir_ = some d
  rootDir : files.IsDir d
  cwdDir : files.IsDir files.cwd
  page : ¬ files.IsDir (pagePlace files)
  folder : ∀ c : Ipv4, files.nodes[c.folder :: d]? ≠ none → files.IsDir (c.folder :: d)
  absent : ∀ (c : Ipv4) (t : Name), m c t = none → files.nodes[t :: c.folder :: d]? = none
  held : ∀ (c : Ipv4) (t : Name) (x : Text), m c t = some x → Plain t ∧ Json.Ascii t ∧ ',' ∉ t ∧
    ∃ text, library.dump (entryOf x.output x.textPrompt t) = some text ∧
      files.nodes[t :: c.folder :: d]? = some (.file text)

section

variable {host : Host} {library : Json.Library} {handler : RequestHandler} {d : Path} {m : Titles}
  {files files' : FileTree} {client : Ipv4}

/-- The page is a directory if there is one at its place. -/
theorem lookup_page (hcwd : files.IsDir files.cwd) :
    files.lookup pagePath = some .dir ↔ files.IsDir (pagePlace files) := by
  have hsegments : segments pagePath =
      ["..".toList, "static".toList, "static1".toList, "text.html".toList] := by decide
  have horigin : files.origin pagePath = files.cwd := if_neg (by decide)
  have hnormal : normal files.cwd (segments pagePath) = pagePlace files := by
    rw [hsegments]
    rfl
  unfold lookup resolve
  rw [if_neg (by decide), horigin]
  constructor
  · intro h
    obtain ⟨p, hp, hnode⟩ := Option.bind_eq_some_iff.mp h
    rw [walk_normal hp, hnormal] at hnode
    exact hnode
  · intro h
    -- every directory on the way is above the page
    have h1 : files.IsDir ("static1".toList :: "static".toList :: files.cwd.tail) := isDir_tail h
    have h2 : files.IsDir ("static".toList :: files.cwd.tail) := isDir_tail h1
    have h3 := isDir_tail h2
    rw [List.tail_cons] at h3
    have hwalk : files.walk files.cwd (segments pagePath) = some (pagePlace files) := by
      rw [hsegments]
      simp only [walk, if_pos hcwd]
      rw [show stepName files.cwd "..".toList = files.cwd.tail from rfl, if_pos h3,
        show stepName files.cwd.tail "static".toList = _ from Plain.stepName (by decide) _, if_pos h2,
        show stepName _ "static1".toList = _ from Plain.stepName (by decide) _, if_pos h1,
        show stepName _ "text.html".toList = _ from Plain.stepName (by decide) _]
      rfl
    rw [hwalk]
    exact h

theorem Stored.start (h : EmptyRoot handler files d) (hpage : files.lookup pagePath ≠ some .dir) :
    Stored library handler d (fun _ _ => none) files where
  root := h.root
  rootDir := h.rootDir
  cwdDir := h.cwdDir
  page hp := hpage ((lookup_page h.cwdDir).mpr hp)
  folder c hc := absurd (h.empty c.folder) hc
  absent c t _ := nothing_below h.empty t _ (List.suffix_cons _ _)
  held c t x hx := by cases hx

theorem Stored.home (h : Stored library handler d m files) : Crud.Home handler files d :=
  resolve_slash h.root h.rootDir

/-- A root that is there stays as it is. -/
theorem makeRoot_dir (hroot : files.resolve handler.dir_ = some d) (hd : files.IsDir d) :
    makeRoot files handler.dir_ = .ok files := by
  unfold makeRoot
  rw [if_pos]
  unfold lookup
  rw [hroot]
  exact hd

/-- The folder is there as soon as something is in it. -/
theorem Stored.folder_of_held (h : Stored library handler d m files) {t : Name} {x : Text}
    (hx : m client t = some x) : files.IsDir (client.folder :: d) := by
  obtain ⟨_, _, _, text, _, hnode⟩ := h.held client t x hx
  exact IsFile.parent ⟨text, hnode⟩

theorem Stored.lookup_folder (h : Stored library handler d m files) :
    files.lookup (folderOf handler client.text) = some .dir ↔ files.IsDir (client.folder :: d) := by
  rw [show files.lookup (folderOf handler client.text) = files.nodes[client.folder :: d]? from
    Crud.lookup_plain h.home client.folder_plain]
  exact Iff.rfl

theorem opens_folder (hhome : Crud.Home handler files d) (hdir : files.IsDir (client.folder :: d)) :
    Crud.Opens files d client.folder := by
  unfold Crud.Opens
  rw [Crud.spot_plain d client.folder_plain]
  exact ⟨Crud.walk_plain hhome client.folder_plain, hdir⟩

/-- What a title without a slash leads to, in a folder that is there. -/
theorem lookup_title (hhome : Crud.Home handler files d) (hdir : files.IsDir (client.folder :: d))
    {t : Str} (hflat : '/' ∉ t) :
    files.lookup (folderOf handler client.text ++ '/' :: t) =
      if Plain t then files.nodes[t :: client.folder :: d]? else some .dir := by
  have hopens := opens_folder hhome hdir
  have hpath : folderOf handler client.text ++ '/' :: t =
      Crud.pathOf handler (client.folder ++ '/' :: t) := Crud.pathOf_below handler client.folder t
  rw [hpath]
  split
  · rename_i hplain
    rw [hopens.lookup_below hhome hplain, Crud.spot_plain d client.folder_plain]
  · rename_i hplain
    rw [Crud.lookup_pathOf hhome, segments_append, segments_of_not_mem hflat, walk_concat, hopens.1,
      Option.bind_some, if_pos hopens.2, Option.bind_some, Crud.spot_plain d client.folder_plain]
    unfold stepName
    split
    · exact hdir
    · split
      · exact isDir_tail hdir
      · rename_i h1 h2
        rw [not_or] at h1
        exact absurd ⟨h1.1, h1.2, h2, hflat⟩ hplain

/-- Trees that differ below the folders only where `m` says store what `m` says. -/
theorem Stored.change (h : Stored library handler d m files) {m' : Titles} (hg : Grows files files')
    (hdirs : ∀ p, files'.IsDir p → files.IsDir p ∨ ∃ c : Ipv4, p = c.folder :: d)
    (hfolder : ∀ c : Ipv4, files'.nodes[c.folder :: d]? ≠ none → files'.IsDir (c.folder :: d))
    (habsent : ∀ (c : Ipv4) (t : Name), m' c t = none → files'.nodes[t :: c.folder :: d]? = none)
    (hheld : ∀ (c : Ipv4) (t : Name) (x : Text), m' c t = some x → Plain t ∧ Json.Ascii t ∧ ',' ∉ t ∧
      ∃ text, library.dump (entryOf x.output x.textPrompt t) = some text ∧
        files'.nodes[t :: c.folder :: d]? = some (.file text)) :
    Stored library handler d m' files' where
  root := hg.resolve h.root
  rootDir := hg.dirs d h.rootDir
  cwdDir := by
    rw [hg.cwd]
    exact hg.dirs _ h.cwdDir
  page hp := by
    have hplace : pagePlace files' = pagePlace files := by
      unfold pagePlace
      rw [hg.cwd]
    rw [hplace] at hp
    rcases hdirs _ hp with hold | ⟨c, hc⟩
    · exact h.page hold
    · -- a folder has no letters in its name
      have hname : c.folder = "text.html".toList := (List.cons.inj hc).1.symm
      have hx : 'x' ∈ c.folder := by
        rw [hname]
        decide
      rcases mem_folder hx with hdigit | hunder
      · exact absurd hdigit (by decide)
      · exact absurd hunder (by decide)
  folder := hfolder
  absent := habsent
  held := hheld

/-- **The folder of a client is made**, and nothing else changes. -/
theorem Stored.createDir (h : Stored library handler d m files) (client : Ipv4) :
    ∃ files', createDir files (folderOf handler client.text) = (true, files') ∧
      Stored library handler d m files' ∧ files'.IsDir (client.folder :: d) ∧
      ∀ (c : Ipv4) (t : Name),
        files'.nodes[t :: c.folder :: d]? = files.nodes[t :: c.folder :: d]? := by
  have hplain := client.folder_plain
  cases hc : RequestHandler.createDir files (folderOf handler client.text) with
  | mk created files' =>
      cases created with
      | false =>
          obtain ⟨_, hclosed, hmkdir⟩ : files' = files ∧ ¬ Crud.Opens files d client.folder ∧
              files.mkdir (Crud.pathOf handler client.folder) = none := Crud.createDir_false h.home hc
          have hfree : files.nodes[client.folder :: d]? = none := by
            by_contra hne
            exact hclosed (opens_folder h.home (h.folder client hne))
          obtain ⟨made, hmade⟩ := mkdir_plain h.home hplain hfree
          rw [show Crud.pathOf handler client.folder = handler.dir_ ++ '/' :: client.folder from rfl,
            hmade] at hmkdir
          cases hmkdir
      | true =>
          have hmade : Crud.Made handler files files' d client.folder := Crud.createDir_true h.home hc
          have hnodes := hmade.nodes
          rw [Crud.spot_plain d hplain] at hnodes
          have hbelow : ∀ (c : Ipv4) (t : Name),
              files'.nodes[t :: c.folder :: d]? = files.nodes[t :: c.folder :: d]? := by
            intro c t
            rw [hnodes, if_neg]
            intro heq
            have := congrArg List.length heq
            simp at this
          have hdir : files'.IsDir (client.folder :: d) := by
            unfold IsDir
            rw [hnodes, if_pos rfl]
          refine ⟨files', rfl, ?_, hdir, hbelow⟩
          refine h.change hmade.grows (fun p hp => ?_) (fun c hc => ?_) (fun c t ht => ?_)
            (fun c t x hx => ?_)
          · unfold IsDir at hp
            rw [hnodes] at hp
            split at hp
            · rename_i heq
              exact Or.inr ⟨client, heq.symm⟩
            · exact Or.inl hp
          · by_cases heq : client.folder :: d = c.folder :: d
            · rw [← heq]
              exact hdir
            · rw [hnodes, if_neg heq] at hc
              unfold IsDir
              rw [hnodes, if_neg heq]
              exact h.folder c hc
          · rw [hbelow]
            exact h.absent c t ht
          · rw [hbelow]
            exact h.held c t x hx

/-- In a folder that is not there nothing is found. -/
theorem lookup_title_none (hhome : Crud.Home handler files d)
    (hdir : ¬ files.IsDir (client.folder :: d)) {t : Str} (hflat : '/' ∉ t) :
    files.lookup (folderOf handler client.text ++ '/' :: t) = none := by
  have hpath : folderOf handler client.text ++ '/' :: t =
      Crud.pathOf handler (client.folder ++ '/' :: t) := Crud.pathOf_below handler client.folder t
  rw [hpath, Crud.lookup_pathOf hhome, segments_append, segments_of_not_mem hflat, walk_concat,
    Crud.walk_plain hhome client.folder_plain, Option.bind_some, if_neg hdir, Option.bind_none]

/-- **The entry of a title** is what the client has of it. -/
theorem Stored.entryAt (h : Stored library handler d m files) (client : Ipv4) {t : Str}
    (hflat : '/' ∉ t) : entryAt handler files client t =
      (m client t).bind fun x => library.dump (entryOf x.output x.textPrompt t) := by
  unfold TextGen.entryAt
  cases hx : m client t with
  | some x =>
      obtain ⟨hplain, _, _, text, htext, hnode⟩ := h.held client t x hx
      rw [lookup_title h.home (h.folder_of_held hx) hflat, if_pos hplain, hnode, Option.bind_some, htext]
  | none =>
      by_cases hdir : files.IsDir (client.folder :: d)
      · rw [lookup_title h.home hdir hflat]
        split
        · rename_i text heq
          split at heq
          · rw [h.absent client t hx] at heq
            cases heq
          · cases heq
        · rfl
      · rw [lookup_title_none h.home hdir hflat]
        rfl

/-! ## 3. The requests -/

theorem entry_ordered (output textPrompt title : Str) :
    Json.Ordered [("output".toList, .string output), ("text_prompt".toList, .string textPrompt),
      ("title".toList, .string title)] := by
  unfold Json.Ordered
  simp only [List.pairwise_cons, List.mem_cons, List.not_mem_nil, or_false, forall_eq_or_imp,
    forall_eq, false_implies, implies_true, List.Pairwise.nil, and_true]
  decide

theorem entry_proper (library : Json.Library) (output textPrompt title : Str) :
    library.Proper (entryOf output textPrompt title) := by
  refine library.proper_object _ (entry_ordered output textPrompt title) fun x hx => ?_
  simp only [List.mem_cons, List.not_mem_nil, or_false] at hx
  rcases hx with rfl | rfl | rfl <;> exact library.proper_string _

/-- **One title's place changes**, and what the client has of it. -/
theorem Stored.changeTitle (h : Stored library handler d m files) (hg : Grows files files')
    {title : Name} {x : Option Node}
    (hnodes : ∀ q, files'.nodes[q]? = if title :: client.folder :: d = q then x else files.nodes[q]?)
    (hx : x ≠ some .dir) {y : Option Text} (habsent : y = none → x = none)
    (hheld : ∀ z, y = some z → Plain title ∧ Json.Ascii title ∧ ',' ∉ title ∧
      ∃ text, library.dump (entryOf z.output z.textPrompt title) = some text ∧ x = some (.file text)) :
    Stored library handler d (m.set client title y) files' := by
  have hself : files'.nodes[title :: client.folder :: d]? = x := by
    rw [hnodes, if_pos rfl]
  have hother : ∀ (c : Ipv4) (t : Name), ¬ (c = client ∧ t = title) →
      files'.nodes[t :: c.folder :: d]? = files.nodes[t :: c.folder :: d]? := by
    intro c t hne
    rw [hnodes, if_neg]
    intro heq
    obtain ⟨rfl, hrest⟩ := List.cons.inj heq
    exact hne ⟨(folder_injective (List.cons.inj hrest).1).symm, rfl⟩
  have hfolders : ∀ c : Ipv4, files'.nodes[c.folder :: d]? = files.nodes[c.folder :: d]? := by
    intro c
    rw [hnodes, if_neg]
    intro heq
    have := congrArg List.length heq
    simp at this
  refine h.change hg (fun p hp => ?_) (fun c hc => ?_) (fun c t ht => ?_) (fun c t z hz => ?_)
  · unfold IsDir at hp
    rw [hnodes] at hp
    split at hp
    · exact absurd hp hx
    · exact Or.inl hp
  · rw [hfolders] at hc
    unfold IsDir
    rw [hfolders]
    exact h.folder c hc
  · unfold Titles.set at ht
    split at ht
    · rename_i heq
      rw [heq.1, heq.2, hself]
      exact habsent ht
    · rename_i hne
      rw [hother c t hne]
      exact h.absent c t ht
  · unfold Titles.set at hz
    split at hz
    · rename_i heq
      rw [heq.1, heq.2, hself]
      exact hheld z hz
    · rename_i hne
      rw [hother c t hne]
      exact h.held c t z hz

/-- **The write of an entry**: it is refused for the titles `.` and `..`, and done for all others. -/
theorem Stored.write (h : Stored library handler d m files) (hdir : files.IsDir (client.folder :: d))
    {output textPrompt title entry : Str} (htitle : checkTitleValidity title = true)
    (hdump : library.dump (entryOf output textPrompt title) = some entry) :
    writeToFile Disk.reliable files (folderOf handler client.text ++ '/' :: title) entry =
        (false, files) ∨
      ∃ files', writeToFile Disk.reliable files (folderOf handler client.text ++ '/' :: title) entry =
          (true, files') ∧
        Stored library handler d (m.set client title (some ⟨output, textPrompt⟩)) files' := by
  have hflat : '/' ∉ title := not_mem_title htitle (by decide) (by decide)
  by_cases hplain : Plain title
  · refine Or.inr ?_
    have hpath : folderOf handler client.text ++ '/' :: title =
        Crud.pathOf handler (client.folder ++ '/' :: title) :=
      Crud.pathOf_below handler client.folder title
    have hspot : Crud.spot d client.folder = client.folder :: d := Crud.spot_plain d client.folder_plain
    rcases Crud.writeToFile_below h.home (opens_folder h.home hdir) hplain entry with
      ⟨hblocked, _⟩ | ⟨hfree, files', hwrite, hg, hnodes⟩
    · -- nothing below a folder is a directory
      rw [hspot] at hblocked
      unfold IsDir at hblocked
      cases hx : m client title with
      | none =>
          rw [h.absent client title hx] at hblocked
          cases hblocked
      | some x =>
          obtain ⟨_, _, _, text, _, hnode⟩ := h.held client title x hx
          rw [hnode] at hblocked
          cases hblocked
    · rw [hspot] at hnodes hfree
      rw [hpath]
      refine ⟨files', hwrite, ?_⟩
      refine h.changeTitle hg hnodes (by simp) (fun hy => by cases hy) fun z hz => ?_
      cases hz
      exact ⟨hplain, title_ascii htitle, not_mem_title htitle (by decide) (by decide), entry, hdump, rfl⟩
  · refine Or.inl ?_
    unfold writeToFile
    rw [if_pos]
    rw [lookup_title h.home hdir hflat, if_neg hplain]

/-- **An entry is stored**, or nothing is. -/
theorem Stored.storeEntry (h : Stored host.library handler d m files) (hdisk : host.disk = Disk.reliable)
    (client : Ipv4) {output textPrompt title : Str} (ho : Json.utf8 output = true)
    (hp : checkPromptsValidity textPrompt = true) (ht : checkTitleValidity title = true) :
    ∃ stored files', storeEntry host handler client.text files output textPrompt title =
        .ok (stored, files') ∧
      Stored host.library handler d
        (if stored = true then m.set client title (some ⟨output, textPrompt⟩) else m) files' := by
  obtain ⟨made, hcreate, hmade, hdir, _⟩ := h.createDir client
  obtain ⟨entry, hentry⟩ := dump_entry host ho hp ht
  unfold TextGen.storeEntry
  dsimp only
  rw [hcreate, hentry, hdisk]
  dsimp only
  rcases hmade.write hdir ht hentry with hwrite | ⟨files', hwrite, hstored⟩
  · exact ⟨false, made, congrArg Except.ok hwrite, hmade⟩
  · exact ⟨true, files', congrArg Except.ok hwrite, hstored⟩

/-- **A POST**: what is stored afterwards is what the answer says. -/
theorem Stored.post (h : Stored host.library handler d m files) (hdisk : host.disk = Disk.reliable)
    {ask : Ask} (hm : ask.request.method = .post) (response : Response) :
    ∃ files' r b, handlePostRequest host handler ask.client.text ask.apiReply files ask.request
        response = .ok (files', r, b) ∧
      Stored host.library handler d (record handler m ask r) files' ∧
      (r.result ≠ .ok → record handler m ask r = m) := by
  have hkept : ∀ {r : Response}, r.result ≠ .ok → record handler m ask r = m := fun hr => if_neg hr
  have hsame : ∀ {r : Response}, r.result ≠ .ok →
      Stored host.library handler d (record handler m ask r) files := fun hr => by
    rw [hkept hr]
    exact h
  unfold handlePostRequest
  cases hbody : parsePostBody ask.request.body with
  | none => exact ⟨_, _, _, rfl, hsame (by simp [overwriteBody, prepareBadRequestResponse]), hkept⟩
  | some tokenMap =>
      dsimp only
      split
      · exact ⟨_, _, _, rfl, hsame (by simp [overwriteBody, prepareBadRequestResponse]), hkept⟩
      · rename_i hvalid
        rw [not_or, Bool.not_eq_false, Bool.not_eq_false] at hvalid
        cases hout : ask.apiReply.bind (parseRawOutput host) with
        | none =>
            exact ⟨_, _, _, rfl,
              hsame (by simp [overwriteBody, prepareInternalServerErrorResponse]), hkept⟩
        | some output =>
            obtain ⟨raw, _, hparse⟩ := Option.bind_eq_some_iff.mp hout
            obtain ⟨stored, files', hstore, hstored⟩ := h.storeEntry hdisk ask.client
              (utf8_of_parseRawOutput hparse) hvalid.1 hvalid.2
            dsimp only
            rw [hstore]
            cases stored with
            | true =>
                refine ⟨_, _, _, rfl, ?_, hkept⟩
                unfold record
                rw [if_pos (Response.answer_result ..), hm, hbody]
                exact hstored
            | false =>
                refine ⟨_, _, _, rfl, ?_, hkept⟩
                rw [hkept (by simp [overwriteBody, prepareInternalServerErrorResponse])]
                exact hstored

/-- The parse of what is printed. -/
theorem jsonAnswer_ok {j : Json.Value} {text : Str} (files : FileTree) (response : Response)
    (hproper : host.library.Proper j) (hdump : host.library.dump j = some text) :
    ∃ r, jsonAnswer host files j response = .ok (files, r, true) ∧ r.result = .ok ∧
      host.library.parse r.body = some j := by
  refine ⟨response.answer .ok "application/json".toList text, ?_, rfl, ?_⟩
  · unfold jsonAnswer
    rw [hdump]
  · exact host.library.parse_dump _ _ hproper hdump

theorem readed_proper (library : Json.Library) (ip title : Str) {content : Json.Value}
    (h : library.Proper content) : library.Proper (readedJson ip title content) := by
  refine library.proper_object _ ?_ fun x hx => ?_
  · unfold Json.Ordered
    simp only [List.pairwise_cons, List.mem_cons, List.not_mem_nil, or_false, forall_eq_or_imp,
      forall_eq, false_implies, implies_true, List.Pairwise.nil, and_true]
    decide
  · simp only [List.mem_cons, List.not_mem_nil, or_false] at hx
    rcases hx with rfl | rfl | rfl | rfl
    · exact library.proper_string _
    · exact h
    · exact library.proper_string _
    · exact library.proper_string _

theorem history_proper (library : Json.Library) (ip : Str) (titles : List Str) :
    library.Proper (historyJson ip titles) := by
  refine library.proper_object _ ?_ fun x hx => ?_
  · unfold Json.Ordered
    simp only [List.pairwise_cons, List.mem_cons, List.not_mem_nil, or_false, forall_eq, false_implies,
      implies_true, List.Pairwise.nil, and_true]
    decide
  · simp only [List.mem_cons, List.not_mem_nil, or_false] at hx
    rcases hx with rfl | rfl <;> exact library.proper_string _

/-- **A title that is stored is read**: the answer holds the entry. -/
theorem getTitleFile_entry {path title text : Str} {entry : Json.Value} (response : Response)
    (hdir : files.lookup path = some .dir)
    (hfile : files.lookup (path ++ '/' :: title) = some (.file text))
    (hproper : host.library.Proper entry) (htext : host.library.dump entry = some text)
    (htitle : Json.utf8 title = true) :
    ∃ printed, getTitleFile host client.text files path title response false =
        .ok (files, response.answer .ok "application/json".toList printed, true) ∧
      host.library.parse printed = some (readedJson client.folder title entry) := by
  have hparse := host.library.parse_dump _ _ hproper htext
  obtain ⟨printed, hprinted⟩ : ∃ printed,
      host.library.dump (readedJson client.folder title entry) = some printed :=
    Option.isSome_iff_exists.mp ((dump_readed title hparse).trans htitle)
  refine ⟨printed, ?_, host.library.parse_dump _ _
    (readed_proper host.library client.folder title hproper) hprinted⟩
  unfold getTitleFile
  rw [if_pos hdir]
  dsimp only
  rw [hfile]
  dsimp only
  rw [if_neg Bool.false_ne_true, hparse]
  dsimp only
  unfold jsonAnswer
  rw [show dot2underscore client.text = client.folder from rfl, hprinted]

/-- What a suffix without a slash leads to in the folder of a client. -/
theorem Stored.getTitleFile (h : Stored host.library handler d m files) (client : Ipv4) {t : Str}
    (hflat : '/' ∉ t) (response : Response) (remove : Bool) :
    (∃ x text, m client t = some x ∧ host.library.dump (entryOf x.output x.textPrompt t) = some text ∧
      files.lookup (folderOf handler client.text) = some .dir ∧
      files.lookup (folderOf handler client.text ++ '/' :: t) = some (.file text)) ∨
    (m client t = none ∧
      getTitleFile host client.text files (folderOf handler client.text) t response remove =
        .ok (files, prepareNotFoundResponse response, false)) := by
  cases hx : m client t with
  | some x =>
      obtain ⟨hplain, _, _, text, htext, hnode⟩ := h.held client t x hx
      have hdir := h.folder_of_held hx
      refine Or.inl ⟨x, text, rfl, htext, h.lookup_folder.mpr hdir, ?_⟩
      rw [lookup_title h.home hdir hflat, if_pos hplain, hnode]
  | none =>
      refine Or.inr ⟨rfl, ?_⟩
      unfold TextGen.getTitleFile
      split
      · rename_i hdir
        dsimp only
        rw [lookup_title h.home (h.lookup_folder.mp hdir) hflat]
        split
        · rename_i text heq
          split at heq
          · rw [h.absent client t hx] at heq
            cases heq
          · cases heq
        · rfl
      · rfl

/-- **A GET of a title**: what is stored, or 404. -/
theorem Stored.read (h : Stored host.library handler d m files) (client : Ipv4) {t : Str}
    (hflat : '/' ∉ t) (response : Response) :
    ∃ r b, TextGen.getTitleFile host client.text files (folderOf handler client.text) t response false =
        .ok (files, r, b) ∧
      match m client t with
      | some x => r.result = .ok ∧ ∃ v, host.library.parse r.body = some v ∧
          v.member "content".toList = some (entryOf x.output x.textPrompt t)
      | none => r.result = .notFound := by
  rcases h.getTitleFile client hflat response false with ⟨x, text, hx, htext, hdir, hfile⟩ | ⟨hx, hget⟩
  · obtain ⟨_, hascii, _⟩ := h.held client t x hx
    obtain ⟨printed, hread, hparse⟩ := getTitleFile_entry response hdir hfile
      (entry_proper host.library ..) htext (Json.utf8_of_ascii hascii)
    refine ⟨_, _, hread, ?_⟩
    rw [hx]
    exact ⟨rfl, _, hparse, rfl⟩
  · refine ⟨_, _, hget, ?_⟩
    rw [hx]
    rfl

/-- **A DELETE of a title** takes what is stored away, and only that. -/
theorem Stored.remove (h : Stored host.library handler d m files) (client : Ipv4) {t : Str}
    (hflat : '/' ∉ t) (response : Response) :
    ∃ files' r b, TextGen.getTitleFile host client.text files (folderOf handler client.text) t
        response true = .ok (files', r, b) ∧
      (r.result = .ok ↔ m client t ≠ none) ∧
      Stored host.library handler d (if r.result = .ok then m.set client t none else m) files' := by
  rcases h.getTitleFile client hflat response true with ⟨x, text, hx, htext, hdir, hfile⟩ | ⟨hx, hget⟩
  · obtain ⟨hplain, hascii, _, _⟩ := h.held client t x hx
    obtain ⟨printed, hprinted⟩ : ∃ printed,
        host.library.dump (removedJson client.folder t) = some printed :=
      Option.isSome_iff_exists.mp ((dump_removed t).trans (Json.utf8_of_ascii hascii))
    have hfolder := h.folder_of_held hx
    -- the file is at the title's own place
    obtain ⟨p, hresolve, hnode⟩ := Option.bind_eq_some_iff.mp hfile
    obtain ⟨gone, hgone⟩ := unlink_of_resolve hresolve ⟨text, hnode⟩
    have hp : p = t :: client.folder :: d := by
      have hpath : folderOf handler client.text ++ '/' :: t =
          Crud.pathOf handler (client.folder ++ '/' :: t) := Crud.pathOf_below handler client.folder t
      rw [hpath, show Crud.pathOf handler (client.folder ++ '/' :: t) =
        handler.dir_ ++ '/' :: (client.folder ++ '/' :: t) from rfl, resolve_base h.home,
        segments_append, segments_of_not_mem hflat, walk_concat,
        Crud.walk_plain h.home client.folder_plain, Option.bind_some, if_pos hfolder,
        hplain.stepName] at hresolve
      cases hresolve
      rfl
    obtain ⟨p', hresolve', _, _, hnodes⟩ := unlink_some hgone
    rw [hresolve] at hresolve'
    cases hresolve'
    subst hp
    refine ⟨gone, response.answer .ok "application/json".toList printed, true, ?_, ?_, ?_⟩
    · unfold TextGen.getTitleFile
      rw [if_pos hdir]
      dsimp only
      rw [hfile]
      dsimp only
      rw [if_pos rfl, hgone]
      unfold jsonAnswer
      rw [show dot2underscore client.text = client.folder from rfl, hprinted]
      rfl
    · rw [hx]
      simp
    · rw [if_pos (Response.answer_result ..)]
      exact h.changeTitle (Grows.of_unlink hgone) hnodes (by simp) (fun _ => rfl) fun z hz => by cases hz
  · refine ⟨files, _, _, hget, ?_, ?_⟩
    · rw [hx]
      simp [prepareNotFoundResponse]
    · rw [if_neg (by simp [prepareNotFoundResponse])]
      exact h

/-- What script.js makes of a list of titles is the list. -/
theorem historyList_intercalate {titles : List Str} (h : ∀ t ∈ titles, t ≠ [] ∧ ',' ∉ t) :
    historyList ('[' :: [','].intercalate titles ++ [']']) = titles := by
  have hinner : ('[' :: [','].intercalate titles ++ [']']).tail.dropLast =
      [','].intercalate titles := by
    rw [List.cons_append, List.tail_cons, List.dropLast_concat]
  unfold historyList
  rw [hinner]
  cases titles with
  | nil => rfl
  | cons t titles =>
      -- the first title is not empty, so the text is not
      have hne : [','].intercalate (t :: titles) ≠ [] := by
        have ht : t ≠ [] := (h t List.mem_cons_self).1
        cases titles with
        | nil =>
            rw [List.intercalate_singleton]
            exact ht
        | cons u titles =>
            rw [List.intercalate_cons_cons, List.append_assoc]
            exact List.append_ne_nil_of_left_ne_nil ht _
      dsimp only
      rw [if_neg hne]
      exact List.splitOn_intercalate ',' (fun u hu => (h u hu).2) (by simp)

/-- **A GET of the history**: the titles the client has, or 404 if it has none. -/
theorem Stored.list (h : Stored host.library handler d m files) (client : Ipv4) (response : Response) :
    ∃ r b, getIpFileList host client.text files (folderOf handler client.text) response =
        .ok (files, r, b) ∧
      ((r.result = .notFound ∧ ∀ title, m client title = none) ∨
       (r.result = .ok ∧ ∃ v s, host.library.parse r.body = some v ∧
          v.member "title list".toList = some (.string s) ∧
          ∀ title, title ∈ historyList s ↔ m client title ≠ none)) := by
  have hresolve : files.resolve (folderOf handler client.text) = some (client.folder :: d) := by
    rw [show folderOf handler client.text = handler.dir_ ++ '/' :: client.folder from rfl,
      resolve_base h.home, Crud.walk_plain h.home client.folder_plain]
  unfold getIpFileList
  rw [hresolve]
  dsimp only
  by_cases hdir : files.IsDir (client.folder :: d)
  · rw [if_pos hdir]
    generalize htitles : ((host.order (files.entries (client.folder :: d))).filter
      (·.2 ≠ .dir)).map Prod.fst = titles
    have hmem : ∀ t, t ∈ titles ↔ m client t ≠ none := by
      intro t
      rw [← htitles]
      constructor
      · intro ht
        obtain ⟨⟨n, x⟩, hentry, rfl⟩ := List.mem_map.mp ht
        have hnode := mem_entries.mp ((host.order_perm _).mem_iff.mp (List.mem_filter.mp hentry).1)
        intro hnone
        rw [h.absent client n hnone] at hnode
        cases hnode
      · intro hne
        obtain ⟨x, hx⟩ := Option.ne_none_iff_exists'.mp hne
        obtain ⟨_, _, _, text, _, hnode⟩ := h.held client t x hx
        refine List.mem_map.mpr ⟨(t, .file text), List.mem_filter.mpr ⟨?_, by simp⟩, rfl⟩
        exact (host.order_perm _).mem_iff.mpr (mem_entries.mpr hnode)
    have hgood : ∀ t ∈ titles, Plain t ∧ Json.Ascii t ∧ ',' ∉ t := by
      intro t ht
      obtain ⟨x, hx⟩ := Option.ne_none_iff_exists'.mp ((hmem t).mp ht)
      obtain ⟨hplain, hascii, hcomma, _⟩ := h.held client t x hx
      exact ⟨hplain, hascii, hcomma⟩
    obtain ⟨printed, hprinted⟩ := dump_history host client fun t ht => (hgood t ht).2.1
    obtain ⟨r, hanswer, hok, hr⟩ := jsonAnswer_ok files response
      (history_proper host.library client.folder titles) hprinted
    refine ⟨r, true, hanswer, Or.inr ⟨hok, _, _, hr, rfl, fun title => ?_⟩⟩
    rw [historyList_intercalate fun t ht => ⟨(hgood t ht).1.1, (hgood t ht).2.2⟩]
    exact hmem title
  · rw [if_neg hdir]
    refine ⟨_, _, rfl, Or.inl ⟨rfl, fun title => ?_⟩⟩
    by_contra hne
    obtain ⟨x, hx⟩ := Option.ne_none_iff_exists'.mp hne
    exact hdir (h.folder_of_held hx)

/-! ## 4. Runs -/

/-- **The handler reads the title** a request names. -/
theorem Asks.suffix {request : Request} {method : Verb} {title : Str}
    (h : Asks handler request method title) (hspaces : ¬ "%20".toList <:+: handler.prefix_)
    (forGet : Bool) : handler.checkRequestUrl (decodeSpaces request.target) forGet = some title := by
  rw [h.target, decodeSpaces_slash, decodeSpaces_eq_self.mpr hspaces, decode_encode h.plain]
  refine checkRequestUrl_below handler forGet h.named fun hne hlast => ?_
  exact h.flat (hlast ▸ List.getLast_mem hne)

/-- A GET is answered right. -/
theorem Stored.get (h : Stored host.library handler d m files)
    (hspaces : ¬ "%20".toList <:+: handler.prefix_) {ask : Ask} (hm : ask.request.method = .get)
    (hflat : Flat handler ask) (response : Response) :
    ∃ r b, handleGetRequest host handler ask.client.text files ask.request response =
        .ok (files, r, b) ∧ Right host.library handler m ask r := by
  have hremoved : ∀ {r : Response} (title : Str), Asks handler ask.request .delete title →
      (r.result = .ok ↔ m ask.client title ≠ none) := fun title ht => by
    have := ht.method
    rw [hm] at this
    cases this
  unfold handleGetRequest
  cases hs : handler.checkRequestUrl (decodeSpaces ask.request.target) true with
  | none =>
      have hno : ∀ title, ¬ Asks handler ask.request .get title := fun title ht => by
        rw [ht.suffix hspaces] at hs
        cases hs
      exact ⟨_, _, rfl, fun title ht => absurd ht (hno title), hremoved, fun ht => absurd ht (hno _)⟩
  | some suffix =>
      have hsuffix : ∀ title, Asks handler ask.request .get title → title = suffix := fun title ht =>
        Option.some.inj ((ht.suffix hspaces true).symm.trans hs)
      dsimp only
      split
      · rename_i hnil
        have hno : ∀ title, ¬ Asks handler ask.request .get title := fun title ht =>
          ht.named ((hsuffix title ht).trans hnil)
        have hpage : ∃ content, readFromFile files pagePath = .ok content := by
          unfold readFromFile
          split
          · exact ⟨_, rfl⟩
          · rename_i hdir
            exact absurd ((lookup_page h.cwdDir).mp hdir) h.page
          · exact ⟨_, rfl⟩
        obtain ⟨content, hcontent⟩ := hpage
        rw [hcontent]
        cases content with
        | some content =>
            exact ⟨_, _, rfl, fun title ht => absurd ht (hno title), hremoved,
              fun ht => absurd ht (hno _)⟩
        | none =>
            exact ⟨_, _, rfl, fun title ht => absurd ht (hno title), hremoved,
              fun ht => absurd ht (hno _)⟩
      · split
        · rename_i hhistory
          obtain ⟨r, b, hget, hlist⟩ := h.list ask.client response
          exact ⟨r, b, hget, fun title ht hne => absurd ((hsuffix title ht).trans hhistory) hne, hremoved,
            fun _ => hlist⟩
        · rename_i hhistory
          obtain ⟨r, b, hget, hread⟩ :=
            h.read ask.client (hflat (Or.inl hm) true suffix hs) response
          refine ⟨r, b, hget, fun title ht _ => ?_, hremoved,
            fun ht => absurd (hsuffix _ ht).symm hhistory⟩
          rw [hsuffix title ht]
          exact hread

/-- A DELETE is answered right, and done. -/
theorem Stored.delete (h : Stored host.library handler d m files)
    (hspaces : ¬ "%20".toList <:+: handler.prefix_) {ask : Ask} (hm : ask.request.method = .delete)
    (hflat : Flat handler ask) (response : Response) :
    ∃ files' r b, handleDeleteRequest host handler ask.client.text files ask.request response =
        .ok (files', r, b) ∧ Right host.library handler m ask r ∧
      Stored host.library handler d (record handler m ask r) files' := by
  have hget : ∀ title, ¬ Asks handler ask.request .get title := fun title ht => by
    have := ht.method
    rw [hm] at this
    cases this
  unfold handleDeleteRequest
  cases hs : handler.checkRequestUrl (decodeSpaces ask.request.target) false with
  | none =>
      refine ⟨_, _, _, rfl, ⟨fun title ht => absurd ht (hget title), fun title ht => ?_,
        fun ht => absurd ht (hget _)⟩, ?_⟩
      · rw [ht.suffix hspaces] at hs
        cases hs
      · unfold record
        rw [if_neg (by simp [overwriteBody, prepareBadRequestResponse])]
        exact h
  | some suffix =>
      obtain ⟨files', r, b, hanswer, hlive, hstored⟩ :=
        h.remove ask.client (hflat (Or.inr hm) false suffix hs) response
      refine ⟨files', r, b, hanswer, ⟨fun title ht => absurd ht (hget title), fun title ht => ?_,
        fun ht => absurd ht (hget _)⟩, ?_⟩
      · rw [Option.some.inj ((ht.suffix hspaces false).symm.trans hs)]
        exact hlive
      · unfold record
        rw [hm]
        dsimp only
        rw [hs]
        exact hstored

/-- **One request of any kind.** -/
theorem Stored.step (h : Stored host.library handler d m files) (hdisk : host.disk = Disk.reliable)
    (hspaces : ¬ "%20".toList <:+: handler.prefix_) {ask : Ask} (hflat : Flat handler ask) :
    ∃ files' r, serve host handler ask.client.text ask.apiReply files ask.request = .ok (files', r) ∧
      Right host.library handler m ask r ∧
      Stored host.library handler d (record handler m ask r) files' ∧
      (ask.request.method = .post → r.result ≠ .ok → record handler m ask r = m) := by
  have hright : ask.request.method ≠ .get → ask.request.method ≠ .delete → ∀ r,
      Right host.library handler m ask r := fun hg hd r =>
    ⟨fun title ht => absurd ht.method hg, fun title ht => absurd ht.method hd,
      fun ht => absurd ht.method hg⟩
  have hother : ask.request.method ≠ .post → ask.request.method ≠ .delete → ∀ r,
      record handler m ask r = m := fun hp hd r => by
    unfold record
    split
    · split
      · rename_i hm
        exact absurd hm hp
      · rename_i hm
        exact absurd hm hd
      · rfl
    · rfl
  unfold serve
  rw [makeRoot_dir h.root h.rootDir]
  dsimp only
  unfold handleRequest
  cases hm : ask.request.method with
  | post =>
      obtain ⟨files', r, b, hanswer, hstored, hkept⟩ := h.post hdisk hm
        (({ } : Response).set .accessControlAllowOrigin ['*'])
      dsimp only
      rw [hanswer]
      exact ⟨files', r, rfl, hright (by simp [hm]) (by simp [hm]) r, hstored, fun _ => hkept⟩
  | get =>
      obtain ⟨r, b, hanswer, hr⟩ := h.get hspaces hm hflat
        (({ } : Response).set .accessControlAllowOrigin ['*'])
      dsimp only
      rw [hanswer]
      refine ⟨files, r, rfl, hr, ?_, fun hp => by cases hp⟩
      rw [hother (by simp [hm]) (by simp [hm])]
      exact h
  | delete =>
      obtain ⟨files', r, b, hanswer, hr, hstored⟩ := h.delete hspaces hm hflat
        (({ } : Response).set .accessControlAllowOrigin ['*'])
      dsimp only
      rw [hanswer]
      exact ⟨files', r, rfl, hr, hstored, fun hp => by cases hp⟩
  | _ =>
      refine ⟨files, _, rfl, hright (by simp [hm]) (by simp [hm]) _, ?_, fun hp => by cases hp⟩
      rw [hother (by simp [hm]) (by simp [hm])]
      exact h

/-- **A run**, by induction on the requests. -/
theorem Stored.faithful (hdisk : host.disk = Disk.reliable)
    (hspaces : ¬ "%20".toList <:+: handler.prefix_) : ∀ (asks : List Ask) {m : Titles}
    {files : FileTree}, Stored host.library handler d m files → (∀ ask ∈ asks, Flat handler ask) →
    Faithful host handler m files asks := by
  intro asks
  induction asks with
  | nil =>
      intro m files _ _
      trivial
  | cons ask asks ih =>
      intro m files h hflat
      obtain ⟨files', r, hserve, hright, hstored, hkept⟩ :=
        h.step hdisk hspaces (hflat ask List.mem_cons_self)
      refine ⟨files', r, hserve, hright, fun hp hr client title ht => ?_,
        ih hstored fun a ha => hflat a (List.mem_cons_of_mem _ ha)⟩
      rw [hkept hp hr] at hstored
      rw [hstored.entryAt client ht, h.entryAt client ht]

/-- Under a location with a `%20` in it there is a title no request can name: what is decoded is not
    the location any more. -/
theorem lost_title (h : "%20".toList <:+: handler.prefix_) :
    ∃ c ∈ ['a', 'b'], ∀ forGet,
      handler.checkRequestUrl (decodeSpaces (handler.prefix_ ++ '/' :: encodeSpaces [c])) forGet =
        none := by
  have hlt := decodeSpaces_lt h
  generalize hl : decodeSpaces handler.prefix_ = l at hlt
  -- at most one of the two titles ends as the location does
  obtain ⟨c, hc, hne⟩ : ∃ c ∈ ['a', 'b'], handler.prefix_ ≠ l ++ ['/', c] := by
    by_cases ha : handler.prefix_ = l ++ ['/', 'a']
    · refine ⟨'b', by simp, fun hb => ?_⟩
      have := List.append_cancel_left (ha.symm.trans hb)
      revert this
      decide
    · exact ⟨'a', by simp, ha⟩
  have hplain : decodeSpaces (encodeSpaces [c]) = [c] ∧ c ≠ '/' := by
    simp only [List.mem_cons, List.not_mem_nil, or_false] at hc
    rcases hc with rfl | rfl <;> decide
  refine ⟨c, hc, fun forGet => ?_⟩
  rw [decodeSpaces_slash, hl, hplain.1]
  have hnot : ¬ (handler.prefix_ ++ ['/'] <+: l ++ ['/', c]) := by
    intro hpre
    have hlen : (l ++ ['/', c]).length ≤ (handler.prefix_ ++ ['/']).length := by
      simp only [List.length_append, List.length_cons, List.length_nil]
      omega
    have heq := hpre.eq_of_length_le hlen
    have hlast := congrArg List.getLast? heq
    simp only [List.getLast?_append, List.getLast?_cons_cons, List.getLast?_singleton,
      Option.some_or, Option.some.injEq] at hlast
    exact hplain.2 hlast.symm
  unfold checkRequestUrl
  dsimp only
  rw [if_neg (fun h => hnot h.1), if_neg (fun h => hnot h.1), if_neg]
  intro heq
  exact hne (List.append_cancel_right heq)

end

/-- **When text_gen is a store of titles**: there is no `%20` in the location, and the page is no
    directory. -/
theorem title_store_iff (host : Host) (handler : RequestHandler) (start : FileTree) (d : Path)
    (hdisk : host.disk = Disk.reliable) (hstart : EmptyRoot handler start d) :
    (∀ asks : List Ask, (∀ ask ∈ asks, Flat handler ask) →
        Faithful host handler (fun _ _ => none) start asks) ↔
      ¬ "%20".toList <:+: handler.prefix_ ∧ start.lookup pagePath ≠ some .dir := by
  constructor
  · intro h
    have hmade := makeRoot_dir hstart.root hstart.rootDir
    have hspaces : ¬ "%20".toList <:+: handler.prefix_ := by
      intro hin
      obtain ⟨c, hc, hlost⟩ := lost_title hin
      have hasks : Asks handler ⟨.get, handler.prefix_ ++ '/' :: encodeSpaces [c], [], []⟩ .get [c] := by
        simp only [List.mem_cons, List.not_mem_nil, or_false] at hc
        rcases hc with rfl | rfl <;> exact ⟨rfl, rfl, by decide, by decide, by decide⟩
      obtain ⟨files', r, hserve, hright, _⟩ :=
        h [⟨⟨0, 0, 0, 0⟩, none, ⟨.get, handler.prefix_ ++ '/' :: encodeSpaces [c], [], []⟩⟩]
          fun ask ha _ forGet suffix hs => by
            rw [List.mem_singleton.mp ha, hlost forGet] at hs
            cases hs
      have hfound : r.result = .notFound := hright.read [c] hasks (by simp)
      -- the answer is 400
      unfold serve at hserve
      rw [hmade] at hserve
      unfold handleRequest handleGetRequest at hserve
      dsimp only at hserve
      rw [hlost true] at hserve
      cases hserve
      cases hfound
    refine ⟨hspaces, fun hdir => ?_⟩
    have hbare : ∀ forGet suffix, handler.checkRequestUrl (decodeSpaces handler.prefix_) forGet =
        some suffix → suffix = [] := by
      intro forGet suffix hs
      rw [decodeSpaces_eq_self.mpr hspaces] at hs
      exact Option.some.inj (hs.symm.trans (checkRequestUrl_bare handler forGet))
    obtain ⟨files', r, hserve, _⟩ :=
      h [⟨⟨0, 0, 0, 0⟩, none, ⟨.get, handler.prefix_, [], []⟩⟩] fun ask ha _ forGet suffix hs => by
        rw [List.mem_singleton.mp ha] at hs
        rw [hbare forGet suffix hs]
        simp
    unfold serve at hserve
    rw [hmade] at hserve
    unfold handleRequest handleGetRequest at hserve
    dsimp only at hserve
    rw [decodeSpaces_eq_self.mpr hspaces, checkRequestUrl_bare handler true] at hserve
    dsimp only at hserve
    rw [if_pos rfl] at hserve
    unfold readFromFile at hserve
    rw [hdir] at hserve
    cases hserve
  · rintro ⟨hspaces, hpage⟩ asks hflat
    exact Stored.faithful hdisk hspaces asks (Stored.start hstart hpage) hflat

/-- A root at `/text`, and nothing else. -/
def textStart : FileTree := bare.put "text".toList [] .dir (isDir_root _) fun _ => rfl

theorem textStart_empty (location : Str) :
    EmptyRoot ⟨location, "/text".toList⟩ textStart ["text".toList] where
  root := show textStart.resolve "/text".toList = _ by decide +kernel
  rootDir := by decide +kernel
  cwdDir := isDir_root _
  empty n := (put_nodes _ _ _ (isDir_root _) (fun _ => rfl) _).trans ((if_neg (by simp)).trans (bare_nodes _ _))

/-- Two clients. -/
def firstClient : Ipv4 := ⟨127, 0, 0, 1⟩

def secondClient : Ipv4 := ⟨127, 0, 0, 2⟩

/-- A title with a blank is posted. -/
def postHello (client : Ipv4) (location : Str) (rawOutput : String) : Ask where
  client := client
  apiReply := some rawOutput.toList
  request := ⟨.post, location, [], "title=Hello you&prompt=Hi".toList⟩

/-- It is asked for, or removed. -/
def askHello (client : Ipv4) (method : Verb) (location : Str) : Ask where
  client := client
  apiReply := none
  request := ⟨method, location ++ '/' :: encodeSpaces "Hello you".toList, [], []⟩

/-- The titles are asked for. -/
def getHistory (client : Ipv4) (location : Str) : Ask where
  client := client
  apiReply := none
  request := ⟨.get, location ++ "/history?".toList, [], []⟩

/-- Two clients post the same title, and the first removes its own. -/
def twoClients : List Ask :=
  [postHello firstClient "/text".toList "\x7b\"output\": \"Good evening\"\x7d",
    postHello secondClient "/text".toList "\x7b\"output\": \"Good morning\"\x7d",
    askHello firstClient .delete "/text".toList, askHello firstClient .get "/text".toList,
    getHistory firstClient "/text".toList, askHello secondClient .get "/text".toList,
    getHistory secondClient "/text".toList]

theorem askHello_flat (client : Ipv4) {method : Verb} (forGet : Bool) {suffix : Str}
    (h : RequestHandler.checkRequestUrl ⟨"/text".toList, "/text".toList⟩
      (decodeSpaces (askHello client method "/text".toList).request.target) forGet = some suffix) :
    '/' ∉ suffix := by
  have hasks : Asks ⟨"/text".toList, "/text".toList⟩ (askHello client method "/text".toList).request
      method "Hello you".toList := ⟨rfl, rfl, by decide, by decide, by decide +kernel⟩
  rw [hasks.suffix (by decide +kernel) forGet] at h
  cases h
  decide

theorem getHistory_flat (client : Ipv4) (forGet : Bool) {suffix : Str}
    (h : RequestHandler.checkRequestUrl ⟨"/text".toList, "/text".toList⟩
      (decodeSpaces (getHistory client "/text".toList).request.target) forGet = some suffix) :
    '/' ∉ suffix := by
  have hasks : Asks ⟨"/text".toList, "/text".toList⟩ (getHistory client "/text".toList).request
      .get "history?".toList := ⟨rfl, rfl, by decide, by decide, by decide +kernel⟩
  rw [hasks.suffix (by decide +kernel) forGet] at h
  cases h
  decide

/-- Under `/text` the first client then has no title, and the second its own. -/
theorem title_store_two :
    (Machine.run (fun files ask => serve textHost ⟨"/text".toList, "/text".toList⟩ ask.client.text
      ask.apiReply files ask.request) textStart twoClients).toOption.map
        (fun v => v.2.map Response.result) =
      some [.ok, .ok, .ok, .notFound, .ok, .ok, .ok] ∧
    Faithful textHost ⟨"/text".toList, "/text".toList⟩ (fun _ _ => none) textStart twoClients := by
  refine ⟨by decide +kernel, (title_store_iff textHost _ textStart ["text".toList] rfl
    (textStart_empty _)).mpr ⟨by decide +kernel, by decide +kernel⟩ _
    fun ask ha hm forGet suffix hs => ?_⟩
  unfold twoClients at ha
  simp only [List.mem_cons, List.not_mem_nil, or_false] at ha
  rcases ha with rfl | rfl | rfl | rfl | rfl | rfl | rfl
  · rcases hm with hm | hm <;> cases hm
  · rcases hm with hm | hm <;> cases hm
  · exact askHello_flat _ forGet hs
  · exact askHello_flat _ forGet hs
  · exact getHistory_flat _ forGet hs
  · exact askHello_flat _ forGet hs
  · exact getHistory_flat _ forGet hs

/-- **Under `/my%20text` it is not.** -/
theorem title_lost : EmptyRoot ⟨"/my%20text".toList, "/text".toList⟩ textStart ["text".toList] ∧
    (∀ ask ∈ [askHello firstClient .get "/my%20text".toList], Flat ⟨"/my%20text".toList, "/text".toList⟩ ask) ∧
    ¬ Faithful textHost ⟨"/my%20text".toList, "/text".toList⟩ (fun _ _ => none) textStart
      [askHello firstClient .get "/my%20text".toList] := by
  have hnone : ∀ forGet, RequestHandler.checkRequestUrl ⟨"/my%20text".toList, "/text".toList⟩
      (decodeSpaces (askHello firstClient .get "/my%20text".toList).request.target) forGet = none := by decide +kernel
  refine ⟨textStart_empty _, fun ask ha _ forGet suffix hs => ?_, fun h => ?_⟩
  · rw [List.mem_singleton.mp ha, hnone forGet] at hs
    cases hs
  · obtain ⟨files', r, hserve, hright, _⟩ := h
    have hasks : Asks ⟨"/my%20text".toList, "/text".toList⟩ (askHello firstClient .get "/my%20text".toList).request .get
        "Hello you".toList := ⟨rfl, rfl, by decide, by decide, by decide +kernel⟩
    have hfound : r.result = .notFound := hright.read _ hasks (by decide)
    unfold serve at hserve
    rw [makeRoot_dir (textStart_empty "/my%20text".toList).root (textStart_empty []).rootDir] at hserve
    unfold handleRequest handleGetRequest at hserve
    have hturned := hnone true
    dsimp only [askHello] at hserve hturned
    rw [hturned] at hserve
    cases hserve
    cases hfound

end Googolplex.TextGen
