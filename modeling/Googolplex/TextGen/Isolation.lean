/-
  File:      Googolplex/TextGen/Isolation.lean
  Subject:   WHAT A CLIENT LEARNS AND CHANGES OF OTHERS (GET and DELETE of text_gen).

  A suffix is walked from the client's folder. It can leave the folder through
  `..`; then another's files decide the answer, or are removed.

  * `Isolated`: the answer is a matter of the client's own folder, and nothing
    outside it is changed; over all trees in which the root is a directory.
  * `Leaks`: a matter of the target and the places of root and working directory alone.
  * `isolated_iff`: a request is isolated if and only if it does not leak.
-/
import Googolplex.Crud.Exits
import Googolplex.Library.Walks
import Googolplex.TextGen.Exceptions

namespace Googolplex.TextGen

open Cxx Posix Posix.FileTree RequestHandler

/-! ## 1. States -/

/-- Where the root is. -/
def rootPlace (handler : RequestHandler) (cwd : Path) : Path := placeOf cwd handler.dir_

/-- Where the folder of a client is. -/
def ownPlace (handler : RequestHandler) (client : Ipv4) (cwd : Path) : Path :=
  client.folder :: rootPlace handler cwd

/-- A tree the handler can meet: the root is a directory, and the process is in one. -/
structure At (handler : RequestHandler) (cwd : Path) (t : FileTree) : Prop where
  inCwd : t.cwd = cwd
  cwdDir : t.IsDir cwd
  root : t.lookup handler.dir_ = some .dir

/-- The place is below the root, and not the client's. -/
def Foreign (handler : RequestHandler) (client : Ipv4) (cwd p : Path) : Prop :=
  rootPlace handler cwd <:+ p ∧ p ≠ rootPlace handler cwd ∧ ¬ ownPlace handler client cwd <:+ p

instance (handler : RequestHandler) (client : Ipv4) (cwd p : Path) :
    Decidable (Foreign handler client cwd p) := inferInstanceAs (Decidable (_ ∧ _))

/-- The trees differ in what belongs to others at most. -/
def Agree (handler : RequestHandler) (client : Ipv4) (cwd : Path) (t t' : FileTree) : Prop :=
  ∀ p : Path, ¬ Foreign handler client cwd p → t.nodes[p]? = t'.nodes[p]?

/-- What the client gets. -/
def reply (host : Host) (handler : RequestHandler) (client : Ipv4) (apiReply : Option Str)
    (request : Request) (t : FileTree) : Except Fault Response :=
  (serve host handler client.text apiReply t request).map Prod.snd

/-- The files when a GET or a DELETE is left, by a return or by an exception: what throws after a
    removal does not bring the file back. -/
def filesAfter (handler : RequestHandler) (client : Ipv4) (request : Request) (t : FileTree) :
    FileTree :=
  match request.method, handler.checkRequestUrl (decodeSpaces request.target) false with
  | .delete, some suffix =>
    if t.lookup (folderOf handler client.text) = some .dir then
      match t.lookup (folderOf handler client.text ++ '/' :: suffix) with
      | some (.file _) => (t.unlink (folderOf handler client.text ++ '/' :: suffix)).getD t
      | _ => t
    else t
  | _, _ => t

/-- **The request is isolated**: trees that agree on the client's folder give the same answer, and
    nothing outside the folder changes. -/
structure Isolated (host : Host) (handler : RequestHandler) (client : Ipv4) (cwd : Path)
    (request : Request) : Prop where
  same : ∀ (apiReply : Option Str) (t t' : FileTree), At handler cwd t → At handler cwd t' →
    Agree handler client cwd t t' →
      reply host handler client apiReply request t = reply host handler client apiReply request t'
  kept : ∀ t : FileTree, At handler cwd t → ∀ p : Path, ¬ ownPlace handler client cwd <:+ p →
    (filesAfter handler client request t).nodes[p]? = t.nodes[p]?

/-! ## 2. The condition -/

/-- The places that are directories in every state. -/
def fixed (handler : RequestHandler) (cwd : Path) : List Path :=
  cwd :: rootPlace handler cwd :: visited (originAt cwd handler.dir_) (segments handler.dir_)

/-- Others decide what is at the place. -/
def Stray (handler : RequestHandler) (client : Ipv4) (cwd p : Path) : Prop :=
  Foreign handler client cwd p ∧ ∀ q ∈ fixed handler cwd, ¬ p <:+ q

instance (handler : RequestHandler) (client : Ipv4) (cwd p : Path) :
    Decidable (Stray handler client cwd p) := inferInstanceAs (Decidable (_ ∧ _))

/-- The names can lead to a regular file: the end is not at or above a place that has to be a
    directory. -/
def Reaches (handler : RequestHandler) (cwd cur : Path) (ns : List Name) : Prop :=
  ∀ q ∈ visited cur ns ++ fixed handler cwd, ¬ normal cur ns <:+ q

/-- The names pass a place that others decide, or end there. -/
def Strays (handler : RequestHandler) (client : Ipv4) (cwd cur : Path) (ns : List Name) : Prop :=
  ∃ p ∈ visited cur ns ++ [normal cur ns], Stray handler client cwd p

instance (handler : RequestHandler) (cwd cur : Path) (ns : List Name) :
    Decidable (Reaches handler cwd cur ns) := inferInstanceAs (Decidable (∀ _ ∈ _, _))

instance (handler : RequestHandler) (client : Ipv4) (cwd cur : Path) (ns : List Name) :
    Decidable (Strays handler client cwd cur ns) := inferInstanceAs (Decidable (∃ _ ∈ _, _))

/-- **The request leaks**: the page, or what the suffix leads to, can be a regular file and is not a
    matter of the client's folder alone; or the suffix leads a DELETE out of the folder. -/
inductive Leaks (handler : RequestHandler) (client : Ipv4) (cwd : Path) (request : Request) : Prop
  | page (hm : request.method = .get)
      (ht : handler.checkRequestUrl (decodeSpaces request.target) true = some [])
      (hp : Strays handler client cwd cwd (segments pagePath))
  | read {suffix : Str} (hm : request.method = .get)
      (ht : handler.checkRequestUrl (decodeSpaces request.target) true = some suffix)
      (hs : suffix ≠ [] ∧ suffix ≠ "history?".toList)
      (hr : Reaches handler cwd (ownPlace handler client cwd) (segments suffix))
      (hp : Strays handler client cwd (ownPlace handler client cwd) (segments suffix))
  | removed {suffix : Str} (hm : request.method = .delete)
      (ht : handler.checkRequestUrl (decodeSpaces request.target) false = some suffix)
      (hr : Reaches handler cwd (ownPlace handler client cwd) (segments suffix))
      (hp : Strays handler client cwd (ownPlace handler client cwd) (segments suffix) ∨
        ¬ ownPlace handler client cwd <:+ normal (ownPlace handler client cwd) (segments suffix))

section

variable {host : Host} {handler : RequestHandler} {client : Ipv4} {cwd : Path} {request : Request}
  {t t' : FileTree}

/-! ## 3. What every state has -/

/-- The root is at its place, and the walk to it passes directories. -/
theorem At.resolve (h : At handler cwd t) :
    t.resolve handler.dir_ = some (rootPlace handler cwd) ∧
      t.walk (originAt cwd handler.dir_) (segments handler.dir_) = some (rootPlace handler cwd) := by
  obtain ⟨p, hp, _⟩ := Option.bind_eq_some_iff.mp h.root
  have hwalk := hp
  unfold FileTree.resolve at hwalk
  split at hwalk
  · cases hwalk
  · rw [origin_eq, h.inCwd] at hwalk
    have hplace : p = rootPlace handler cwd := walk_normal hwalk
    rw [← hplace]
    exact ⟨hp, hwalk⟩

theorem At.rootDir (h : At handler cwd t) : t.IsDir (rootPlace handler cwd) := by
  have hroot := h.root
  unfold lookup at hroot
  rw [h.resolve.1] at hroot
  exact hroot

theorem At.dir_ne_nil (h : At handler cwd t) : handler.dir_ ≠ [] := by
  intro hnil
  have hres := h.resolve.1
  rw [hnil] at hres
  cases hres

theorem At.home (h : At handler cwd t) : Crud.Home handler t (rootPlace handler cwd) :=
  resolve_slash h.resolve.1 h.rootDir

theorem At.fixed (h : At handler cwd t) {q : Path} (hq : q ∈ fixed handler cwd) : t.IsDir q := by
  rcases List.mem_cons.mp hq with rfl | hq
  · exact h.cwdDir
  · rcases List.mem_cons.mp hq with rfl | hq
    · exact h.rootDir
    · exact (walk_iff.mp h.resolve.2).2 q hq

/-- These directories are all a tree needs. -/
theorem at_of_fixed (hcwd : t.cwd = cwd) (hne : handler.dir_ ≠ [])
    (h : ∀ q ∈ fixed handler cwd, t.IsDir q) : At handler cwd t where
  inCwd := hcwd
  cwdDir := h cwd List.mem_cons_self
  root := by
    have hwalk : t.walk (originAt cwd handler.dir_) (segments handler.dir_) =
        some (rootPlace handler cwd) :=
      walk_iff.mpr ⟨rfl, fun q hq => h q (List.mem_cons_of_mem _ (List.mem_cons_of_mem _ hq))⟩
    unfold lookup FileTree.resolve
    rw [if_neg hne, origin_eq, hcwd, hwalk]
    exact h _ (List.mem_cons_of_mem _ List.mem_cons_self)

/-- What a path string below the folder leads to. -/
theorem At.lookup_title (h : At handler cwd t) (suffix : Str) :
    t.lookup (folderOf handler client.text ++ '/' :: suffix) =
      t.nodeAt (ownPlace handler client cwd) (segments suffix) := by
  have hpath : folderOf handler client.text ++ '/' :: suffix =
      Crud.pathOf handler (client.folder ++ '/' :: suffix) :=
    Crud.pathOf_below handler client.folder suffix
  rw [hpath, Crud.lookup_pathOf h.home, segments_append,
    segments_of_not_mem client.folder_plain.2.2.2, walk_append]
  have hfirst : t.walk (rootPlace handler cwd) [client.folder] =
      some (ownPlace handler client cwd) := by
    simp only [walk, if_pos h.rootDir, client.folder_plain.stepName]
    rfl
  rw [hfirst]
  rfl

theorem At.resolve_title (h : At handler cwd t) {suffix : Str} {q : Path}
    (hq : t.resolve (folderOf handler client.text ++ '/' :: suffix) = some q) :
    q = normal (ownPlace handler client cwd) (segments suffix) := by
  have hpath : folderOf handler client.text ++ '/' :: suffix =
      handler.dir_ ++ '/' :: (client.folder ++ '/' :: suffix) :=
    Crud.pathOf_below handler client.folder suffix
  rw [hpath, resolve_base h.home, segments_append,
    segments_of_not_mem client.folder_plain.2.2.2] at hq
  rw [walk_normal hq, normal_append, normal_cons, client.folder_plain.stepName]
  rfl

theorem At.lookup_folder (h : At handler cwd t) :
    t.lookup (folderOf handler client.text) = t.nodes[ownPlace handler client cwd]? :=
  Crud.lookup_plain h.home client.folder_plain

theorem At.lookup_page (h : At handler cwd t) :
    t.lookup pagePath = t.nodeAt cwd (segments pagePath) := by
  have horigin : t.origin pagePath = cwd := by
    unfold origin
    rw [if_neg (by decide), h.inCwd]
  unfold lookup FileTree.resolve nodeAt
  rw [if_neg (by decide), horigin]

/-- The folder itself is there if something is found from it. -/
theorem folder_of_nodeAt {suffix : Str} {x : Node}
    (h : t.nodeAt (ownPlace handler client cwd) (segments suffix) = some x) :
    t.nodes[ownPlace handler client cwd]? = some .dir := by
  obtain ⟨n, ns, hns⟩ := List.exists_cons_of_ne_nil (segments_ne_nil suffix)
  rw [hns] at h
  exact (nodeAt_some.mp h).1 _ List.mem_cons_self

/-! ## 4. Answers -/

/-- The answer about a title is a matter of the node its path leads to. -/
def titleReply (host : Host) (client : Ipv4) (suffix : Str) (remove : Bool) (response : Response) :
    Option Node → Except Fault Response
  | some (.file content) =>
    if remove then (jsonAnswer host bare (removedJson client.folder suffix) response).map (·.2.1)
    else
      match host.library.parse content with
      | none => .error .jsonParseError
      | some v => (jsonAnswer host bare (readedJson client.folder suffix v) response).map (·.2.1)
  | _ => .ok (prepareNotFoundResponse response)

theorem jsonAnswer_reply (files files' : FileTree) (j : Json.Value) (response : Response) :
    (jsonAnswer host files j response).map (·.2.1) = (jsonAnswer host files' j response).map (·.2.1) := by
  unfold jsonAnswer
  cases host.library.dump j <;> rfl

theorem getTitleFile_reply (h : At handler cwd t) (suffix : Str) (remove : Bool) (response : Response) :
    (getTitleFile host client.text t (folderOf handler client.text) suffix response remove).map
      (·.2.1) = titleReply host client suffix remove response
        (t.nodeAt (ownPlace handler client cwd) (segments suffix)) := by
  have hfolder : t.lookup (folderOf handler client.text) = t.nodes[ownPlace handler client cwd]? :=
    h.lookup_folder
  unfold getTitleFile
  dsimp only
  rw [h.lookup_title, hfolder]
  cases hnode : t.nodeAt (ownPlace handler client cwd) (segments suffix) with
  | none =>
      split <;> rfl
  | some x =>
      rw [if_pos (folder_of_nodeAt hnode)]
      cases x with
      | dir => rfl
      | file content =>
          unfold titleReply
          dsimp only
          split
          · exact jsonAnswer_reply _ _ _ _
          · cases host.library.parse content with
            | none => rfl
            | some v => exact jsonAnswer_reply _ _ _ _

/-- Nodes that are no file are all the same to a client. -/
theorem titleReply_congr {suffix : Str} {remove : Bool} {response : Response} {x y : Option Node}
    (h : x = y ∨ ((∀ c, x ≠ some (.file c)) ∧ ∀ c, y ≠ some (.file c))) :
    titleReply host client suffix remove response x = titleReply host client suffix remove response y := by
  rcases h with rfl | ⟨hx, hy⟩
  · rfl
  · have hnone : ∀ z : Option Node, (∀ c, z ≠ some (.file c)) →
        titleReply host client suffix remove response z = .ok (prepareNotFoundResponse response) := by
      intro z hz
      unfold titleReply
      split
      · exact absurd rfl (hz _)
      · rfl
    rw [hnone x hx, hnone y hy]

/-- A file is never answered as nothing is. -/
theorem titleReply_file (host : Host) (client : Ipv4) (suffix : Str) (remove : Bool)
    (response : Response) (content : Str) :
    titleReply host client suffix remove response (some (.file content)) ≠
      titleReply host client suffix remove response none := by
  have hanswer : ∀ j, (jsonAnswer host bare j response).map (·.2.1) ≠
      .ok (prepareNotFoundResponse response) := by
    intro j heq
    unfold jsonAnswer at heq
    split at heq
    · cases heq
    · have hstatus := congrArg Response.result (Except.ok.inj heq)
      cases hstatus
  unfold titleReply
  dsimp only
  split
  · exact hanswer _
  · split
    · intro heq
      cases heq
    · exact hanswer _

/-- The reply of `serve`, the root being there. -/
theorem At.reply (h : At handler cwd t) (apiReply : Option Str) :
    TextGen.reply host handler client apiReply request t =
      (handleRequest host handler client.text apiReply t request
        (({ } : Response).set .accessControlAllowOrigin ['*'])).map (·.2.1) := by
  unfold TextGen.reply serve makeRoot
  rw [if_pos h.root]
  dsimp only
  cases handleRequest host handler client.text apiReply t request
    (({ } : Response).set .accessControlAllowOrigin ['*']) <;> rfl

/-- An answer leaves the files as they are said to be left. -/
theorem At.filesAfter (h : At handler cwd t) (hm : request.method = .get ∨ request.method = .delete)
    {apiReply : Option Str} {r : Response}
    (hserve : serve host handler client.text apiReply t request = .ok (t', r)) :
    t' = TextGen.filesAfter handler client request t := by
  have hjson : ∀ {files : FileTree} {j : Json.Value} {response : Response} {b : Bool},
      jsonAnswer host files j response = .ok (t', r, b) → t' = files := by
    intro files j response b hanswer
    unfold jsonAnswer at hanswer
    split at hanswer
    · cases hanswer
    · cases hanswer
      rfl
  unfold serve makeRoot at hserve
  rw [if_pos h.root] at hserve
  dsimp only at hserve
  split at hserve
  · cases hserve
  · rename_i files response b hanswer
    cases hserve
    unfold handleRequest at hanswer
    unfold TextGen.filesAfter
    rcases hm with hm | hm
    · rw [hm] at hanswer ⊢
      dsimp only at hanswer ⊢
      unfold handleGetRequest at hanswer
      split at hanswer
      · cases hanswer
        rfl
      · dsimp only at hanswer
        split at hanswer
        · split at hanswer <;> cases hanswer <;> rfl
        · split at hanswer
          · unfold getIpFileList at hanswer
            split at hanswer
            · split at hanswer
              · exact hjson hanswer
              · cases hanswer
                rfl
            · cases hanswer
              rfl
          · unfold getTitleFile at hanswer
            split at hanswer
            · dsimp only at hanswer
              split at hanswer
              · rw [if_neg Bool.false_ne_true] at hanswer
                split at hanswer
                · cases hanswer
                · exact hjson hanswer
              · cases hanswer
                rfl
            · cases hanswer
              rfl
    · rw [hm] at hanswer ⊢
      dsimp only at hanswer ⊢
      unfold handleDeleteRequest at hanswer
      split at hanswer
      · rename_i ht
        cases hanswer
        rw [ht]
      · rename_i suffix ht
        rw [ht]
        dsimp only
        unfold getTitleFile at hanswer
        split at hanswer
        · rename_i hdir
          rw [if_pos hdir]
          dsimp only at hanswer
          cases hfile : t.lookup (folderOf handler client.text ++ '/' :: suffix) with
          | none =>
              rw [hfile] at hanswer
              cases hanswer
              rfl
          | some node =>
              rw [hfile] at hanswer
              cases node with
              | dir =>
                  cases hanswer
                  rfl
              | file content =>
                  dsimp only at hanswer ⊢
                  rw [if_pos rfl] at hanswer
                  exact hjson hanswer
        · rename_i hdir
          cases hanswer
          rw [if_neg hdir]

/-! ## 5. What does not leak is isolated -/

/-- What is not stray is the same in trees that agree. -/
theorem same_of_not_stray (h : At handler cwd t) (h' : At handler cwd t')
    (ha : Agree handler client cwd t t') {p : Path} (hp : ¬ Stray handler client cwd p) :
    t.nodes[p]? = t'.nodes[p]? := by
  by_cases hf : Foreign handler client cwd p
  · have hfixed : ∃ q ∈ fixed handler cwd, p <:+ q := by
      by_contra hno
      push Not at hno
      exact hp ⟨hf, hno⟩
    obtain ⟨q, hq, hsuf⟩ := hfixed
    exact (isDir_above (h.fixed hq) hsuf).trans (isDir_above (h'.fixed hq) hsuf).symm
  · exact ha p hf

theorem nodeAt_of_not_strays (h : At handler cwd t) (h' : At handler cwd t')
    (ha : Agree handler client cwd t t') {cur : Path} {ns : List Name}
    (hs : ¬ Strays handler client cwd cur ns) : t.nodeAt cur ns = t'.nodeAt cur ns :=
  nodeAt_congr fun q hq => same_of_not_stray h h' ha fun hstray => hs ⟨q, hq, hstray⟩

/-- Names that do not reach a file do so in no state. -/
theorem no_file_of_not_reaches (h : At handler cwd t) {cur : Path} {ns : List Name}
    (hr : ¬ Reaches handler cwd cur ns) (c : Str) : t.nodeAt cur ns ≠ some (.file c) := by
  intro hfile
  obtain ⟨hvisited, hend⟩ := nodeAt_some.mp hfile
  refine hr fun q hq hsuf => ?_
  have hdir : t.IsDir q := by
    rcases List.mem_append.mp hq with hq | hq
    · exact hvisited q hq
    · exact h.fixed hq
  exact IsFile.not_isDir ⟨c, hend⟩ (isDir_above hdir hsuf)

theorem title_same (h : At handler cwd t) (h' : At handler cwd t')
    (ha : Agree handler client cwd t t') {suffix : Str} {remove : Bool} {response : Response}
    (hno : ¬ (Reaches handler cwd (ownPlace handler client cwd) (segments suffix) ∧
      Strays handler client cwd (ownPlace handler client cwd) (segments suffix))) :
    (getTitleFile host client.text t (folderOf handler client.text) suffix response remove).map
      (·.2.1) =
    (getTitleFile host client.text t' (folderOf handler client.text) suffix response remove).map
      (·.2.1) := by
  rw [getTitleFile_reply h, getTitleFile_reply h']
  refine titleReply_congr ?_
  rw [not_and_or] at hno
  rcases hno with hr | hs
  · exact Or.inr ⟨no_file_of_not_reaches h hr, no_file_of_not_reaches h' hr⟩
  · exact Or.inl (nodeAt_of_not_strays h h' ha hs)

/-- What is in a folder is not another's. -/
theorem not_foreign_own (p : Path) (hp : ownPlace handler client cwd <:+ p) :
    ¬ Foreign handler client cwd p := fun h => h.2.2 hp

/-- The list of a folder is a matter of the folder. -/
theorem list_same (h : At handler cwd t) (h' : At handler cwd t')
    (ha : Agree handler client cwd t t') (response : Response) :
    (getIpFileList host client.text t (folderOf handler client.text) response).map (·.2.1) =
      (getIpFileList host client.text t' (folderOf handler client.text) response).map (·.2.1) := by
  have hresolve : ∀ {t : FileTree}, At handler cwd t →
      t.resolve (folderOf handler client.text) = some (ownPlace handler client cwd) := fun h => by
    rw [show folderOf handler client.text = handler.dir_ ++ '/' :: client.folder from rfl,
      resolve_base h.home, Crud.walk_plain h.home client.folder_plain]
    rfl
  have hdir : t.IsDir (ownPlace handler client cwd) ↔ t'.IsDir (ownPlace handler client cwd) := by
    unfold IsDir
    rw [ha _ (not_foreign_own _ List.suffix_rfl)]
  have hentries : t.entries (ownPlace handler client cwd) = t'.entries (ownPlace handler client cwd) :=
    entries_congr fun n => ha _ (not_foreign_own _ (List.suffix_cons _ _))
  unfold getIpFileList
  rw [hresolve h, hresolve h']
  dsimp only
  by_cases hd : t.IsDir (ownPlace handler client cwd)
  · rw [if_pos hd, if_pos (hdir.mp hd), hentries]
    exact jsonAnswer_reply _ _ _ _
  · rw [if_neg hd, if_neg fun hd' => hd (hdir.mpr hd')]
    rfl

/-- What a DELETE that does not leak removes is in the folder. -/
theorem kept_of_not_leaks (h : At handler cwd t) (hno : ¬ Leaks handler client cwd request) {p : Path}
    (hp : ¬ ownPlace handler client cwd <:+ p) :
    (filesAfter handler client request t).nodes[p]? = t.nodes[p]? := by
  unfold filesAfter
  split
  · rename_i suffix hm ht
    split
    · split
      · rename_i content hfile
        rw [h.lookup_title] at hfile
        cases hgone : t.unlink (folderOf handler client.text ++ '/' :: suffix) with
        | none => rfl
        | some gone =>
            obtain ⟨q, hq, hqfile, _, hnodes⟩ := unlink_some hgone
            rw [Option.getD_some, hnodes, if_neg]
            rintro rfl
            -- what the DELETE found is at the end of the walk
            have hend : q = normal (ownPlace handler client cwd) (segments suffix) := h.resolve_title hq
            have hreach : Reaches handler cwd (ownPlace handler client cwd) (segments suffix) := by
              by_contra hr
              exact no_file_of_not_reaches h hr content hfile
            exact hno (.removed hm ht hreach (Or.inr (hend ▸ hp)))
      · rfl
    · rfl
  · rfl

theorem isolated_of_not_leaks (hm : request.method = .get ∨ request.method = .delete)
    (hno : ¬ Leaks handler client cwd request) : Isolated host handler client cwd request where
  kept t h p hp := kept_of_not_leaks h hno hp
  same apiReply t t' h h' ha := by
    rw [h.reply, h'.reply]
    unfold handleRequest
    rcases hm with hm | hm
    · rw [hm]
      dsimp only
      unfold handleGetRequest
      cases ht : handler.checkRequestUrl (decodeSpaces request.target) true with
      | none => rfl
      | some suffix =>
          dsimp only
          split
          · rename_i hnil
            rw [hnil] at ht
            have hpage : t.lookup pagePath = t'.lookup pagePath := by
              rw [h.lookup_page, h'.lookup_page]
              exact nodeAt_of_not_strays h h' ha fun hs => hno (.page hm ht hs)
            unfold readFromFile
            rw [hpage]
            split <;> rfl
          · rename_i hnil
            split
            · exact list_same h h' ha _
            · rename_i hhistory
              exact title_same h h' ha fun hl => hno (.read hm ht ⟨hnil, hhistory⟩ hl.1 hl.2)
    · rw [hm]
      dsimp only
      unfold handleDeleteRequest
      cases ht : handler.checkRequestUrl (decodeSpaces request.target) false with
      | none => rfl
      | some suffix => exact title_same h h' ha fun hl => hno (.removed hm ht hl.1 (Or.inl hl.2))

/-! ## 6. What leaks is not isolated -/

/-- A file can be where names reach. -/
theorem Reaches.exists (hne : handler.dir_ ≠ []) {cur : Path} {ns : List Name} (hns : ns ≠ [])
    (h : Reaches handler cwd cur ns) :
    ∃ t, At handler cwd t ∧ t.nodeAt cur ns = some (.file []) := by
  obtain ⟨n, q, hend, hq⟩ := normal_last hns fun q hq => h q (List.mem_append_left _ hq)
  have hq' : (skeleton (visited cur ns ++ fixed handler cwd) cwd).IsDir q :=
    isDir_skeleton cwd (List.mem_append_left _ hq)
  have hfree : ¬ (skeleton (visited cur ns ++ fixed handler cwd) cwd).IsDir (n :: q) := by
    unfold IsDir
    rw [skeleton_nodes, if_neg]
    · intro hnone
      cases hnone
    · intro hor
      rcases hor with hnil | ⟨p, hp, hsuf⟩
      · cases hnil
      · exact h p hp (hend ▸ hsuf)
  refine ⟨(skeleton (visited cur ns ++ fixed handler cwd) cwd).put n q (.file []) hq'
    fun hd => absurd hd hfree, ?_⟩
  generalize ht : (skeleton (visited cur ns ++ fixed handler cwd) cwd).put n q (.file []) hq'
    (fun hd => absurd hd hfree) = t
  have hnodes : ∀ p, t.nodes[p]? = if n :: q = p then some (.file []) else
      (skeleton (visited cur ns ++ fixed handler cwd) cwd).nodes[p]? := fun p => by
    rw [← ht]
    exact put_nodes _ _ _ _ _ p
  have hdirs : ∀ p ∈ visited cur ns ++ fixed handler cwd, t.IsDir p := by
    intro p hp
    unfold IsDir
    rw [hnodes, if_neg]
    · exact isDir_skeleton cwd hp
    · intro heq
      exact h p hp (hend ▸ heq ▸ List.suffix_rfl)
  refine ⟨at_of_fixed ?_ hne fun p hp => hdirs p (List.mem_append_right _ hp), nodeAt_some.mpr
    ⟨fun p hp => hdirs p (List.mem_append_left _ hp), ?_⟩⟩
  · rw [← ht]
    rfl
  · rw [hnodes, if_pos hend.symm]

/-- What hangs in another's is another's. -/
theorem Stray.below {n : Name} {p : Path} (h : Stray handler client cwd p) :
    Stray handler client cwd (n :: p) := by
  obtain ⟨⟨hroot, hne, hown⟩, hfixed⟩ := h
  refine ⟨⟨hroot.trans (List.suffix_cons _ _), fun heq => ?_, fun hsuf => ?_⟩, fun q hq hsuf =>
    hfixed q hq ((List.suffix_cons _ _).trans hsuf)⟩
  · have hlen := hroot.length_le
    rw [← heq, List.length_cons] at hlen
    omega
  · rcases List.suffix_cons_iff.mp hsuf with heq | hsuf
    · unfold ownPlace at heq
      exact hne (List.cons.inj heq).2.symm
    · exact hown hsuf

/-- **The tree without what others have.** -/
theorem At.prune (h : At handler cwd t) (client : Ipv4) : ∃ t', At handler cwd t' ∧
    Agree handler client cwd t t' ∧ ∀ p, Stray handler client cwd p → t'.nodes[p]? = none := by
  have hroot : decide (¬ Stray handler client cwd []) = true :=
    decide_eq_true_iff.mpr fun hs => hs.1.2.1 (List.suffix_nil.mp hs.1.1).symm
  have hup : ∀ (n : Name) (p : Path), decide (¬ Stray handler client cwd (n :: p)) = true →
      decide (¬ Stray handler client cwd p) = true := by
    intro n p hp
    have hbelow : ¬ Stray handler client cwd (n :: p) := of_decide_eq_true hp
    exact decide_eq_true_iff.mpr fun hs => hbelow hs.below
  refine ⟨t.prune (fun p => decide (¬ Stray handler client cwd p)) hroot hup, ?_, ?_, ?_⟩
  · refine at_of_fixed h.inCwd h.dir_ne_nil fun q hq => ?_
    unfold IsDir
    rw [prune_nodes, if_pos]
    · exact h.fixed hq
    · exact decide_eq_true_iff.mpr fun hs => hs.2 q hq List.suffix_rfl
  · intro p hp
    rw [prune_nodes, if_pos]
    exact decide_eq_true_iff.mpr fun hs => hp hs.1
  · intro p hp
    rw [prune_nodes, if_neg]
    simpa using hp

/-- Names that stray lead nowhere there. -/
theorem nodeAt_of_strays {cur : Path} {ns : List Name} (hs : Strays handler client cwd cur ns)
    (hnone : ∀ p, Stray handler client cwd p → t.nodes[p]? = none) : t.nodeAt cur ns = none := by
  obtain ⟨p, hp, hstray⟩ := hs
  rw [Option.eq_none_iff_forall_ne_some]
  intro x hx
  obtain ⟨hvisited, hend⟩ := nodeAt_some.mp hx
  rcases List.mem_append.mp hp with hp | hp
  · have hdir := hvisited p hp
    unfold IsDir at hdir
    rw [hnone p hstray] at hdir
    cases hdir
  · rw [List.mem_singleton.mp hp] at hstray
    rw [hnone _ hstray] at hend
    cases hend

/-- The page is below the working directory's parent, so it is a regular file in some state, or
    others have no part in it. -/
theorem page_reaches (hs : Strays handler client cwd cwd (segments pagePath)) :
    Reaches handler cwd cwd (segments pagePath) := by
  have hsegments : segments pagePath =
      ["..".toList, "static".toList, "static1".toList, "text.html".toList] := by decide
  have hend : normal cwd (segments pagePath) =
      "text.html".toList :: "static1".toList :: "static".toList :: cwd.tail := by
    rw [hsegments]
    rfl
  have hvisited : visited cwd (segments pagePath) = [cwd, cwd.tail, "static".toList :: cwd.tail,
      "static1".toList :: "static".toList :: cwd.tail] := by
    rw [hsegments]
    rfl
  have hcwd : cwd.length ≤ cwd.tail.length + 1 := by
    rw [List.length_tail]
    omega
  intro q hq hsuf
  rw [hend] at hsuf
  rcases List.mem_append.mp hq with hq | hq
  · have hlen := hsuf.length_le
    rw [hvisited] at hq
    simp only [List.mem_cons, List.not_mem_nil, or_false] at hq
    rcases hq with rfl | rfl | rfl | rfl <;> simp only [List.length_cons] at hlen <;> omega
  · -- then all its places are directories in every state
    obtain ⟨p, hp, hstray⟩ := hs
    rw [hend, hvisited] at hp
    have hfixed : ∀ r, r <:+ q → r ≠ p := fun r hr heq => hstray.2 q hq (heq ▸ hr)
    have h1 := (List.suffix_cons _ _).trans hsuf
    have h2 := (List.suffix_cons _ _).trans h1
    simp only [List.cons_append, List.nil_append, List.mem_cons, List.not_mem_nil, or_false] at hp
    rcases hp with rfl | rfl | rfl | rfl | rfl
    · exact hstray.2 _ List.mem_cons_self List.suffix_rfl
    · exact hfixed _ ((List.suffix_cons _ _).trans h2) rfl
    · exact hfixed _ h2 rfl
    · exact hfixed _ h1 rfl
    · exact hfixed _ hsuf rfl

theorem not_isolated_of_leaks (hne : handler.dir_ ≠ []) (hleaks : Leaks handler client cwd request) :
    ¬ Isolated host handler client cwd request := by
  intro hiso
  -- a tree where the file is there, and one without what others have
  have hpair : ∀ {cur : Path} {ns : List Name}, ns ≠ [] → Reaches handler cwd cur ns →
      Strays handler client cwd cur ns → ∃ t t', At handler cwd t ∧ At handler cwd t' ∧
        t.nodeAt cur ns = some (.file []) ∧ t'.nodeAt cur ns = none ∧
        reply host handler client none request t = reply host handler client none request t' := by
    intro cur ns hns hr hs
    obtain ⟨t, h, hfile⟩ := hr.exists hne hns
    obtain ⟨t', h', ha, hnone⟩ := h.prune client
    exact ⟨t, t', h, h', hfile, nodeAt_of_strays hs hnone, hiso.same none t t' h h' ha⟩
  have htitle : ∀ {suffix : Str} {remove : Bool} {response : Response} {t t' : FileTree},
      At handler cwd t → At handler cwd t' →
      t.nodeAt (ownPlace handler client cwd) (segments suffix) = some (.file []) →
      t'.nodeAt (ownPlace handler client cwd) (segments suffix) = none →
      (getTitleFile host client.text t (folderOf handler client.text) suffix response remove).map
        (·.2.1) ≠
      (getTitleFile host client.text t' (folderOf handler client.text) suffix response remove).map
        (·.2.1) := by
    intro suffix remove response t t' h h' hfile hnone
    rw [getTitleFile_reply h, getTitleFile_reply h', hfile, hnone]
    exact titleReply_file host client suffix remove response []
  cases hleaks with
  | page hm ht hp =>
      obtain ⟨t, t', h, h', hfile, hnone, hsame⟩ :=
        hpair (segments_ne_nil _) (page_reaches hp) hp
      rw [h.reply, h'.reply] at hsame
      unfold handleRequest at hsame
      rw [hm] at hsame
      dsimp only at hsame
      unfold handleGetRequest at hsame
      rw [ht] at hsame
      dsimp only at hsame
      rw [if_pos rfl, if_pos rfl] at hsame
      unfold readFromFile at hsame
      rw [h.lookup_page, h'.lookup_page, hfile, hnone] at hsame
      have hstatus := congrArg Response.result (Except.ok.inj hsame)
      cases hstatus
  | read hm ht hs hr hp =>
      obtain ⟨t, t', h, h', hfile, hnone, hsame⟩ := hpair (segments_ne_nil _) hr hp
      rw [h.reply, h'.reply] at hsame
      unfold handleRequest at hsame
      rw [hm] at hsame
      dsimp only at hsame
      unfold handleGetRequest at hsame
      rw [ht] at hsame
      dsimp only at hsame
      rw [if_neg hs.1, if_neg hs.2, if_neg hs.1, if_neg hs.2] at hsame
      exact htitle h h' hfile hnone hsame
  | @removed suffix hm ht hr hp =>
      rcases hp with hp | hout
      · obtain ⟨t, t', h, h', hfile, hnone, hsame⟩ := hpair (segments_ne_nil _) hr hp
        rw [h.reply, h'.reply] at hsame
        unfold handleRequest at hsame
        rw [hm] at hsame
        dsimp only at hsame
        unfold handleDeleteRequest at hsame
        rw [ht] at hsame
        exact htitle h h' hfile hnone hsame
      · -- the file that is removed is none of the client's
        obtain ⟨t, h, hfile⟩ := hr.exists hne (segments_ne_nil suffix)
        have hkept := hiso.kept t h _ hout
        have hlookup : t.lookup (folderOf handler client.text ++ '/' :: suffix) = some (.file []) :=
          h.lookup_title suffix |>.trans hfile
        obtain ⟨q, hq, hqnode⟩ := Option.bind_eq_some_iff.mp hlookup
        obtain ⟨gone, hgone⟩ := unlink_of_resolve hq ⟨[], hqnode⟩
        have hend : q = normal (ownPlace handler client cwd) (segments suffix) := h.resolve_title hq
        obtain ⟨q', hq', _, _, hnodes⟩ := unlink_some hgone
        rw [hq] at hq'
        cases hq'
        unfold filesAfter at hkept
        rw [hm, ht] at hkept
        dsimp only at hkept
        rw [if_pos (h.lookup_folder.trans (folder_of_nodeAt hfile)), hlookup] at hkept
        dsimp only at hkept
        rw [hgone, Option.getD_some, hnodes, if_pos hend, (nodeAt_some.mp hfile).2] at hkept
        cases hkept

end

/-! ## 7. When a request is isolated -/

/-- **A GET or a DELETE is isolated if and only if it does not leak.** -/
theorem isolated_iff (host : Host) (handler : RequestHandler) (client : Ipv4) (cwd : Path)
    (request : Request) (hm : request.method = .get ∨ request.method = .delete) :
    Isolated host handler client cwd request ↔
      handler.dir_ = [] ∨ ¬ Leaks handler client cwd request := by
  constructor
  · intro hiso
    by_cases hne : handler.dir_ = []
    · exact Or.inl hne
    · exact Or.inr fun hleaks => not_isolated_of_leaks hne hleaks hiso
  · intro h
    rcases h with hnil | hno
    · -- there is no root
      constructor
      · intro apiReply t t' ht
        exact absurd hnil ht.dir_ne_nil
      · intro t ht
        exact absurd hnil ht.dir_ne_nil
    · exact isolated_of_not_leaks hm hno

/-- A title in the client's folder. -/
theorem isolated_hello : Isolated textHost ⟨"/text".toList, "/text".toList⟩ ⟨127, 0, 0, 1⟩ []
    ⟨.get, "/text/Hello".toList, [], []⟩ := by
  refine (isolated_iff textHost _ _ [] _ (Or.inl rfl)).mpr (Or.inr fun h => ?_)
  have hsuffix : RequestHandler.checkRequestUrl ⟨"/text".toList, "/text".toList⟩
      (decodeSpaces "/text/Hello".toList) true = some "Hello".toList := by decide +kernel
  cases h with
  | page _ ht =>
      rw [hsuffix] at ht
      cases ht
  | read _ ht _ _ hp =>
      rw [hsuffix] at ht
      cases ht
      revert hp
      decide +kernel
  | removed hm => cases hm

/-- **A title in another's folder** is given to anyone. -/
theorem secret_leaks : ¬ Isolated textHost ⟨"/text".toList, "/text".toList⟩ ⟨127, 0, 0, 1⟩ []
    ⟨.get, "/text/../10_0_0_2/Secret".toList, [], []⟩ := by
  have hsuffix : RequestHandler.checkRequestUrl ⟨"/text".toList, "/text".toList⟩
      (decodeSpaces "/text/../10_0_0_2/Secret".toList) true = some "../10_0_0_2/Secret".toList := by
    decide +kernel
  refine not_isolated_of_leaks (by decide) ?_
  exact .read rfl hsuffix (by decide) (by decide +kernel) (by decide +kernel)

end Googolplex.TextGen
