/-
  File:      Googolplex/TextGen/Apart.lean
  Subject:   CLIENTS OF text_gen AT ONCE: requests of all kinds, their accesses in any order, when
             none of them leaks (TextGen/Isolation.lean).

  * `ChangesOwn`: nothing but the folder of a client is changed; `handleRequest_own`.
  * `SameTo`: trees that are the same to a client; `handleRequest_sees`: on such
    trees every access of its requests does the same.
  * `clients_apart`: what a client is answered, and what is in its folder, is what it
    would be without the others.
-/
import Googolplex.Crud.Confinement
import Googolplex.TextGen.Concurrent
import Googolplex.TextGen.Isolation
import Googolplex.TextGen.Store

namespace Googolplex.TextGen

open Cxx Posix Posix.FileTree Programs FileAccesses

section

variable {host : Host} {handler : RequestHandler} {client other : Ipv4} {cwd : Path}
  {t t' m m' : FileTree} {request : Request} {response : Response} {apiReply : Option Str}
  {suffix title : Str}

/-! ## 1. Where the paths of a client lead -/

theorem At.grows (h : At handler cwd t) (hg : Grows t t') : At handler cwd t' where
  inCwd := hg.cwd.trans h.inCwd
  cwdDir := hg.dirs cwd h.cwdDir
  root := lookup_grows hg h.root

theorem At.place_folder (h : At handler cwd t) :
    placeOf cwd (folderOf handler client.text) = ownPlace handler client cwd := by
  rw [show folderOf handler client.text = handler.dir_ ++ '/' :: client.folder from rfl,
    placeOf_below cwd handler.dir_, Crud.placeOf_slash h.dir_ne_nil,
    segments_of_not_mem client.folder_plain.2.2.2, normal_cons, client.folder_plain.stepName]
  rfl

theorem At.resolve_folder (h : At handler cwd t) :
    t.resolve (folderOf handler client.text) = some (ownPlace handler client cwd) := by
  rw [show folderOf handler client.text = handler.dir_ ++ '/' :: client.folder from rfl,
    resolve_base h.home, Crud.walk_plain h.home client.folder_plain]
  rfl

/-- What is in the folder is walked to from there. -/
theorem At.resolve_below (h : At handler cwd t) (suffix : Str) :
    t.resolve (folderOf handler client.text ++ '/' :: suffix) =
      t.walk (ownPlace handler client cwd) (segments suffix) := by
  have hpath : folderOf handler client.text ++ '/' :: suffix =
      handler.dir_ ++ '/' :: (client.folder ++ '/' :: suffix) :=
    Crud.pathOf_below handler client.folder suffix
  rw [hpath, resolve_base h.home, segments_append, walk_append,
    Crud.walk_plain h.home client.folder_plain]
  rfl

/-- A name leads to an entry of the folder, or it is one that leads to the folder or the root. -/
theorem flat_cases (hflat : '/' ∉ title) (cur : Path) :
    visited cur (segments title) = [cur] ∧ (normal cur (segments title) = title :: cur ∨
      normal cur (segments title) = cur ∨ normal cur (segments title) = cur.tail) := by
  rw [segments_of_not_mem hflat]
  refine ⟨rfl, ?_⟩
  show stepName cur title = _ ∨ stepName cur title = _ ∨ stepName cur title = _
  unfold stepName
  split
  · exact Or.inr (Or.inl rfl)
  · split
    · exact Or.inr (Or.inr rfl)
    · exact Or.inl rfl

/-! ## 2. What a client changes -/

/-- **Nothing but the folder of the client is changed**, and the root stays. -/
structure ChangesOwn (handler : RequestHandler) (client : Ipv4) (cwd : Path) (t t' : FileTree) :
    Prop where
  stays : At handler cwd t → At handler cwd t'
  nodes : At handler cwd t → ∀ p, ¬ ownPlace handler client cwd <:+ p → t'.nodes[p]? = t.nodes[p]?

theorem ChangesOwn.refl (handler : RequestHandler) (client : Ipv4) (cwd : Path) (t : FileTree) :
    ChangesOwn handler client cwd t t := ⟨id, fun _ _ _ => rfl⟩

theorem ChangesOwn.of_changed (hstays : At handler cwd t → At handler cwd m) {p : Path}
    {x : Option Node} (hp : At handler cwd t → ownPlace handler client cwd <:+ p)
    (hnodes : ∀ q, m.nodes[q]? = if p = q then x else t.nodes[q]?) :
    ChangesOwn handler client cwd t m := by
  refine ⟨hstays, fun hat q hq => ?_⟩
  rw [hnodes, if_neg]
  rintro rfl
  exact hq (hp hat)

/-- The calls with a path change the folder only, if what is no directory at its place is in it. -/
theorem allows_own {path : Str} (h : ∀ t, At handler cwd t → ¬ t.IsDir (placeOf cwd path) →
    ownPlace handler client cwd <:+ placeOf cwd path) :
    Allows (ChangesOwn handler client cwd) path where
  refl := ChangesOwn.refl handler client cwd
  mkdir t m hm := by
    obtain ⟨n, p, hplace, hfree, hnodes⟩ := mkdir_place hm
    refine .of_changed (fun hat => hat.grows (Grows.of_mkdir hm)) (fun hat => ?_) hnodes
    rw [hat.inCwd] at hplace
    rw [hplace] at hfree ⊢
    refine h t hat fun hdir => ?_
    rw [IsDir, hfree] at hdir
    cases hdir
  openWrite t m content hw := by
    obtain ⟨n, p, hr, _, hnd, _, hnodes⟩ := openWrite_some hw
    refine .of_changed (fun hat => hat.grows (Grows.of_openWrite hw)) (fun hat => ?_) hnodes
    have hplace := resolve_place hr
    rw [hat.inCwd] at hplace
    rw [hplace] at hnd ⊢
    exact h t hat hnd

theorem folder_own : Allows (ChangesOwn handler client cwd) (folderOf handler client.text) :=
  allows_own fun t hat _ => by
    rw [hat.place_folder]

/-- What is behind the folder is at the end of the names from there. -/
theorem At.place_below (h : At handler cwd t) (suffix : Str) :
    placeOf cwd (folderOf handler client.text ++ '/' :: suffix) =
      normal (ownPlace handler client cwd) (segments suffix) := by
  have hne : folderOf handler client.text ≠ [] := by simp [folderOf]
  rw [placeOf_below cwd (folderOf handler client.text), Crud.placeOf_slash hne, h.place_folder]

theorem title_own (hflat : '/' ∉ title) :
    Allows (ChangesOwn handler client cwd) (folderOf handler client.text ++ '/' :: title) :=
  allows_own fun t hat hnd => by
    rw [hat.place_below] at hnd ⊢
    rcases (flat_cases hflat (ownPlace handler client cwd)).2 with hplace | hplace | hplace
    · rw [hplace]
      exact List.suffix_cons _ _
    · rw [hplace]
    · -- the root is a directory
      rw [hplace] at hnd
      exact absurd hat.rootDir hnd

/-- A GET or a DELETE. -/
theorem Leaks.method (h : Leaks handler client cwd request) :
    request.method = .get ∨ request.method = .delete := by
  cases h with
  | page hm _ _ => exact Or.inl hm
  | read hm _ _ _ _ => exact Or.inl hm
  | removed hm _ _ _ => exact Or.inr hm

/-- A regular file is not where a directory has to be. -/
theorem At.regular_reaches (h : At handler cwd t)
    (hregular : isRegular (t.lookup (folderOf handler client.text ++ '/' :: suffix)) = true) :
    Reaches handler cwd (ownPlace handler client cwd) (segments suffix) := by
  rw [h.lookup_title] at hregular
  by_contra hno
  cases hnode : t.nodeAt (ownPlace handler client cwd) (segments suffix) with
  | none =>
      rw [hnode] at hregular
      cases hregular
  | some node =>
      cases node with
      | dir =>
          rw [hnode] at hregular
          cases hregular
      | file content => exact no_file_of_not_reaches h hno content hnode

/-- The root stays when something else is removed. -/
theorem at_removed (h : At handler cwd t) (hm : m.cwd = t.cwd) {p : Path}
    (hoff : ∀ q ∈ fixed handler cwd, p ≠ q)
    (hnodes : ∀ q, m.nodes[q]? = if p = q then none else t.nodes[q]?) : At handler cwd m := by
  refine at_of_fixed (hm.trans h.inCwd) h.dir_ne_nil fun q hq => ?_
  unfold IsDir
  rw [hnodes, if_neg (hoff q hq)]
  exact h.fixed hq

/-- Where names can lead to a file, no directory has to be. -/
theorem reaches_off {cur : Path} {ns : List Name} (hr : Reaches handler cwd cur ns) :
    ∀ q ∈ fixed handler cwd, normal cur ns ≠ q := by
  rintro q hq rfl
  exact hr _ (List.mem_append_right _ hq) List.suffix_rfl

/-- What is in the folder, and where a file can be, can be removed. -/
theorem removal_own (hr : Reaches handler cwd (ownPlace handler client cwd) (segments suffix))
    (hown : ownPlace handler client cwd <:+ normal (ownPlace handler client cwd) (segments suffix)) :
    AllowsRemoval (ChangesOwn handler client cwd)
      (folderOf handler client.text ++ '/' :: suffix) where
  refl := .refl handler client cwd
  unlink t m hu := by
    obtain ⟨p, hres, _, _, hnodes⟩ := unlink_some hu
    refine .of_changed (fun hat => hat.grows (Grows.of_unlink hu)) (fun hat => ?_) hnodes
    rw [hat.resolve_title hres]
    exact hown
  rmdir t m hd := by
    obtain ⟨n, p, hres, _, _, _, hcwd, hnodes⟩ := rmdir_some hd
    refine .of_changed (fun hat => ?_) (fun hat => ?_) hnodes
    · refine at_removed hat hcwd ?_ hnodes
      rw [hat.resolve_title hres]
      exact reaches_off hr
    · rw [hat.resolve_title hres]
      exact hown

/-- **A request changes nothing but the folder of its client**, if it is no DELETE that leaks. -/
theorem handleRequest_own (hno : request.method = .delete → ¬ Leaks handler client cwd request) :
    (Concurrent.handleRequest host handler client.text apiReply request response).KeepsIn
      (At handler cwd) (ChangesOwn handler client cwd) :=
  Concurrent.handleRequest_keeps folder_own
    (fun _ htitle => title_own (not_mem_title htitle (by decide) (by decide)))
    fun hm suffix ht t hat hregular => by
      have hr := hat.regular_reaches hregular
      refine removal_own hr ?_
      by_contra hout
      exact hno hm (.removed hm ht hr (Or.inr hout))

/-! ## 3. What a client sees -/

/-- **The trees are the same to a client**: they differ in what belongs to others at most. -/
structure SameTo (handler : RequestHandler) (client : Ipv4) (cwd : Path) (t t' : FileTree) : Prop where
  left : At handler cwd t
  right : At handler cwd t'
  agree : Agree handler client cwd t t'

/-- What is in another's folder is foreign. -/
theorem not_own {p : Path} (hp : ¬ Foreign handler client cwd p) (hne : other ≠ client) :
    ¬ ownPlace handler other cwd <:+ p := by
  intro hother
  have hroot : rootPlace handler cwd <:+ p := (List.suffix_cons _ _).trans hother
  refine hp ⟨hroot, ?_, fun hown => ?_⟩
  · rintro rfl
    have hle := hother.length_le
    simp [ownPlace] at hle
  · -- the two folders stand in the same place
    have hlength : (ownPlace handler other cwd).length = (ownPlace handler client cwd).length := rfl
    have heq : ownPlace handler other cwd = ownPlace handler client cwd := by
      rcases List.suffix_or_suffix_of_suffix hother hown with h | h
      · exact h.eq_of_length hlength
      · exact (h.eq_of_length hlength.symm).symm
    exact hne (folder_injective (List.cons.inj heq).1)

/-- **What another client changes** is the same to the client. -/
theorem SameTo.spared (h : SameTo handler client cwd t t') (hne : other ≠ client)
    (hc : ChangesOwn handler other cwd t m) : SameTo handler client cwd m t' where
  left := hc.stays h.left
  right := h.right
  agree p hp := (hc.nodes h.left p (not_own hp hne)).trans (h.agree p hp)

/-- One node is changed in both. -/
theorem SameTo.changed (h : SameTo handler client cwd t t') (hg : Grows t m) (hg' : Grows t' m')
    {p : Path} {x : Option Node} (hnodes : ∀ q, m.nodes[q]? = if p = q then x else t.nodes[q]?)
    (hnodes' : ∀ q, m'.nodes[q]? = if p = q then x else t'.nodes[q]?) :
    SameTo handler client cwd m m' where
  left := h.left.grows hg
  right := h.right.grows hg'
  agree q hq := by rw [hnodes, hnodes', h.agree q hq]

theorem SameTo.folder (h : SameTo handler client cwd t t') :
    t.lookup (folderOf handler client.text) = t'.lookup (folderOf handler client.text) := by
  rw [h.left.lookup_folder, h.right.lookup_folder, h.agree _ (not_foreign_own _ List.suffix_rfl)]

/-- The places a name in the folder leads past, and to, are not another's. -/
theorem flat_not_foreign (hflat : '/' ∉ title) {q : Path}
    (hq : q ∈ visited (ownPlace handler client cwd) (segments title) ++
      [normal (ownPlace handler client cwd) (segments title)]) : ¬ Foreign handler client cwd q := by
  obtain ⟨hvisited, hend⟩ := flat_cases hflat (ownPlace handler client cwd)
  have hown : ¬ Foreign handler client cwd (ownPlace handler client cwd) :=
    not_foreign_own _ List.suffix_rfl
  rw [hvisited] at hq
  rcases List.mem_append.mp hq with hq | hq
  · rw [List.mem_singleton.mp hq]
    exact hown
  · rw [List.mem_singleton.mp hq]
    rcases hend with hend | hend | hend <;> rw [hend]
    · exact not_foreign_own _ (List.suffix_cons _ _)
    · exact hown
    · exact fun h => h.2.1 rfl

/-- Walks that pass nothing stray are the same. -/
theorem SameTo.walk (h : SameTo handler client cwd t t') {cur : Path} {ns : List Name}
    (hs : ¬ Strays handler client cwd cur ns) :
    t.walk cur ns = t'.walk cur ns ∧ t.nodes[normal cur ns]? = t'.nodes[normal cur ns]? := by
  have hsame : ∀ q ∈ visited cur ns ++ [normal cur ns], t.nodes[q]? = t'.nodes[q]? :=
    fun q hq => same_of_not_stray h.left h.right h.agree fun hstray => hs ⟨q, hq, hstray⟩
  exact ⟨walk_congr fun q hq => hsame q (List.mem_append_left _ hq),
    hsame _ (List.mem_append_right _ (List.mem_singleton_self _))⟩

/-- A path into the folder that passes nothing stray leads to the same in both trees. -/
theorem SameTo.below (h : SameTo handler client cwd t t')
    (hs : ¬ Strays handler client cwd (ownPlace handler client cwd) (segments suffix)) :
    t.resolve (folderOf handler client.text ++ '/' :: suffix) =
        t'.resolve (folderOf handler client.text ++ '/' :: suffix) ∧
      ∀ p, t.resolve (folderOf handler client.text ++ '/' :: suffix) = some p →
        t.nodes[p]? = t'.nodes[p]? := by
  obtain ⟨hwalk, hnode⟩ := h.walk hs
  rw [h.left.resolve_below, h.right.resolve_below, hwalk]
  refine ⟨rfl, fun p hp => ?_⟩
  rw [walk_normal hp]
  exact hnode

theorem SameTo.lookup_below (h : SameTo handler client cwd t t')
    (hs : ¬ Strays handler client cwd (ownPlace handler client cwd) (segments suffix)) :
    t.lookup (folderOf handler client.text ++ '/' :: suffix) =
      t'.lookup (folderOf handler client.text ++ '/' :: suffix) := by
  obtain ⟨hres, hnode⟩ := h.below hs
  unfold lookup
  rw [← hres]
  cases hp : t.resolve (folderOf handler client.text ++ '/' :: suffix) with
  | none => rfl
  | some p => exact hnode p hp

/-! ## 4. Accesses -/

/-- The list of the folder. -/
theorem entriesAt_sees :
    (entriesAt (folderOf handler client.text)).Sees (SameTo handler client cwd) :=
  look_sees fun t t' h => by
    have hdir : t.IsDir (ownPlace handler client cwd) ↔ t'.IsDir (ownPlace handler client cwd) := by
      unfold IsDir
      rw [h.agree _ (not_foreign_own _ List.suffix_rfl)]
    have hlist : t.entries (ownPlace handler client cwd) = t'.entries (ownPlace handler client cwd) :=
      entries_congr fun n => h.agree _ (not_foreign_own _ (List.suffix_cons _ _))
    unfold entriesOf
    rw [h.left.resolve_folder, h.right.resolve_folder]
    dsimp only
    rw [hlist]
    simp only [hdir]

/-- The folder is made if there is nothing yet. -/
theorem At.mkdir_folder (h : At handler cwd t) :
    (∃ m, t.mkdir (folderOf handler client.text) = some m) ↔
      t.nodes[ownPlace handler client cwd]? = none := by
  constructor
  · rintro ⟨m, hm⟩
    obtain ⟨n, p, hplace, hfree, _⟩ := mkdir_place hm
    rw [h.inCwd, h.place_folder] at hplace
    rw [hplace] at hfree
    exact hfree
  · exact fun hfree => mkdir_plain h.home client.folder_plain hfree

theorem SameTo.mkdir (h : SameTo handler client cwd t t') :
    Option.Rel (SameTo handler client cwd) (t.mkdir (folderOf handler client.text))
      (t'.mkdir (folderOf handler client.text)) := by
  have hboth : (∃ m, t.mkdir (folderOf handler client.text) = some m) ↔
      ∃ m', t'.mkdir (folderOf handler client.text) = some m' := by
    rw [h.left.mkdir_folder, h.right.mkdir_folder, h.agree _ (not_foreign_own _ List.suffix_rfl)]
  exact mkdir_alike (h.left.inCwd.trans h.right.inCwd.symm) hboth
    fun _ hg hg' hn hn' => h.changed hg hg' hn hn'

/-- A path into the folder that passes nothing stray: all calls but `mkdir`. -/
theorem SameTo.openWrite (h : SameTo handler client cwd t t') {held : Str}
    (hs : ¬ Strays handler client cwd (ownPlace handler client cwd) (segments suffix)) :
    Option.Rel (SameTo handler client cwd)
      (t.openWrite (folderOf handler client.text ++ '/' :: suffix) held)
      (t'.openWrite (folderOf handler client.text ++ '/' :: suffix) held) := by
  obtain ⟨hres, hnode⟩ := h.below hs
  exact openWrite_alike hres hnode fun _ hg hg' hn hn' => h.changed hg hg' hn hn'

/-- What is in a place that is not another's is not, but in the root. -/
theorem not_foreign_child {p : Path} (hp : ¬ Foreign handler client cwd p)
    (hroot : p ≠ rootPlace handler cwd) (n : Name) : ¬ Foreign handler client cwd (n :: p) := by
  rintro ⟨hbelow, hne, hout⟩
  rcases List.suffix_cons_iff.mp hbelow with heq | hle
  · exact hne heq.symm
  · exact hp ⟨hle, hroot, fun hown => hout (hown.trans (List.suffix_cons _ _))⟩

/-- **A directory is removed** in both trees or in none, where names can lead to a file. -/
theorem SameTo.rmdir (h : SameTo handler client cwd t t')
    (hr : Reaches handler cwd (ownPlace handler client cwd) (segments suffix))
    (hs : ¬ Strays handler client cwd (ownPlace handler client cwd) (segments suffix)) :
    Option.Rel (SameTo handler client cwd)
      (t.rmdir (folderOf handler client.text ++ '/' :: suffix))
      (t'.rmdir (folderOf handler client.text ++ '/' :: suffix)) := by
  obtain ⟨hres, hnode⟩ := h.below hs
  have hoff : ∀ q ∈ fixed handler cwd,
      ¬ normal (ownPlace handler client cwd) (segments suffix) <:+ q :=
    fun q hq => hr q (List.mem_append_right _ hq)
  have hown : ¬ Foreign handler client cwd (normal (ownPlace handler client cwd) (segments suffix)) :=
    fun hforeign => hs ⟨_, List.mem_append_right _ (List.mem_singleton_self _), hforeign, hoff⟩
  refine rmdir_alike hres hnode (fun p hp => ?_) fun {m m'} p hp hm hm' hnodes hnodes' => ?_
  · rw [h.left.resolve_title hp]
    have hroot : normal (ownPlace handler client cwd) (segments suffix) ≠ rootPlace handler cwd :=
      fun heq => hoff _ (List.mem_cons_of_mem _ List.mem_cons_self) (heq ▸ List.suffix_rfl)
    exact forall_congr' fun n => by rw [h.agree _ (not_foreign_child hown hroot n)]
  · have hplace : ∀ q ∈ fixed handler cwd, p ≠ q := by
      rw [h.left.resolve_title hp]
      exact reaches_off hr
    exact ⟨at_removed h.left hm hplace hnodes, at_removed h.right hm' hplace hnodes',
      fun q hq => by rw [hnodes, hnodes', h.agree q hq]⟩

theorem SameTo.unlink (h : SameTo handler client cwd t t')
    (hs : ¬ Strays handler client cwd (ownPlace handler client cwd) (segments suffix)) :
    Option.Rel (SameTo handler client cwd)
      (t.unlink (folderOf handler client.text ++ '/' :: suffix))
      (t'.unlink (folderOf handler client.text ++ '/' :: suffix)) := by
  obtain ⟨hres, hnode⟩ := h.below hs
  exact unlink_alike hres hnode fun _ hg hg' hn hn' => h.changed hg hg' hn hn'

theorem flat_not_strays (hflat : '/' ∉ title) :
    ¬ Strays handler client cwd (ownPlace handler client cwd) (segments title) := by
  rintro ⟨q, hq, hstray⟩
  exact flat_not_foreign hflat hq hstray.1

/-- **A title is read or removed** if it is a regular file; then, if the request does not leak, the path
    passes nothing stray. -/
theorem getTitleFile_sees {toRemove : Bool}
    (hno : ¬ (Reaches handler cwd (ownPlace handler client cwd) (segments suffix) ∧
      Strays handler client cwd (ownPlace handler client cwd) (segments suffix))) :
    (Concurrent.getTitleFile host client.text (folderOf handler client.text) suffix response
      toRemove).Sees (SameTo handler client cwd) := by
  refine sees_bind (exists_sees fun _ _ h => h.folder) fun there => ?_
  split
  · refine sees_bind (isDirectory_sees fun _ _ h => h.folder) fun dir => ?_
    split
    · unfold isRegularFile
      refine sees_look fun t t' h => ?_
      by_cases hs : Strays handler client cwd (ownPlace handler client cwd) (segments suffix)
      · -- it is a regular file in neither
        have hfalse : ∀ {t : FileTree}, At handler cwd t →
            isRegular (t.lookup (folderOf handler client.text ++ '/' :: suffix)) = false :=
          fun hat => Bool.eq_false_iff.mpr fun hregular => hno ⟨hat.regular_reaches hregular, hs⟩
        rw [hfalse h.left, hfalse h.right]
        exact ⟨rfl, sees_pure _⟩
      · refine ⟨by rw [h.lookup_below hs], ?_⟩
        split
        · rename_i hregular
          have hremoval : RemovalAlike (SameTo handler client cwd)
              (folderOf handler client.text ++ '/' :: suffix) :=
            ⟨fun _ _ h => h.lookup_below hs, fun _ _ h => h.unlink hs,
              fun _ _ h' => h'.rmdir (h.left.regular_reaches hregular) hs⟩
          split
          · refine sees_bind (filesystemRemove_sees hremoval) fun removed => ?_
            split <;> exact sees_pure _
          · refine sees_bind (readFromFile_sees fun _ _ h => h.lookup_below hs) fun read => ?_
            · split
              · exact sees_pure _
              · exact sees_pure _
              · split <;> exact sees_pure _
        · exact sees_pure _
    · exact sees_pure _
  · exact sees_pure _

/-! ## 5. Requests -/

theorem handlePostRequest_sees :
    (Concurrent.handlePostRequest host handler client.text apiReply request response).Sees
      (SameTo handler client cwd) := by
  unfold Concurrent.handlePostRequest
  cases parsePostBody request.body with
  | none => exact sees_pure _
  | some tokenMap =>
      dsimp only
      split
      · exact sees_pure _
      · rename_i hvalid
        rw [not_or, Bool.not_eq_false, Bool.not_eq_false] at hvalid
        have hflat := not_mem_title hvalid.2 (x := '/') (by decide) (by decide)
        cases apiReply.bind (parseRawOutput host) with
        | none => exact sees_pure _
        | some output =>
            refine sees_bind (sees_bind (createDir_sees (fun _ _ h => h.folder) fun _ _ h => h.mkdir)
              fun made => ?_) fun stored => ?_
            · split
              · cases host.library.dump (entryOf output _ _) with
                | none => exact sees_pure _
                | some entry =>
                    refine sees_bind ?_ fun _ => sees_pure _
                    exact writeToFile_sees (fun _ _ h => h.lookup_below (flat_not_strays hflat))
                      fun _ _ _ h => h.openWrite (flat_not_strays hflat)
              · exact sees_pure _
            · split <;> exact sees_pure _

/-- **A request that does not leak** sees no more than what is the same to its client. -/
theorem handleRequest_sees (hno : ¬ Leaks handler client cwd request) :
    (Concurrent.handleRequest host handler client.text apiReply request response).Sees
      (SameTo handler client cwd) := by
  unfold Concurrent.handleRequest
  cases hm : request.method with
  | post => exact handlePostRequest_sees
  | get =>
      dsimp only
      unfold Concurrent.handleGetRequest
      cases ht : handler.checkRequestUrl (decodeSpaces request.target) true with
      | none => exact sees_pure _
      | some suffix =>
          dsimp only
          split
          · rename_i hnil
            rw [hnil] at ht
            refine sees_bind (readFromFile_sees fun _ _ h => ?_) fun page => ?_
            · rw [h.left.lookup_page, h.right.lookup_page,
                nodeAt_of_not_strays h.left h.right h.agree fun hs => hno (.page hm ht hs)]
            · split <;> exact sees_pure _
          · rename_i hnil
            split
            · refine sees_bind (exists_sees fun _ _ h => h.folder) fun there => ?_
              split
              · refine sees_bind (isDirectory_sees fun _ _ h => h.folder) fun dir => ?_
                split
                · refine sees_bind entriesAt_sees fun entries => ?_
                  split <;> exact sees_pure _
                · exact sees_pure _
              · exact sees_pure _
            · rename_i hhistory
              exact getTitleFile_sees fun h => hno (.read hm ht ⟨hnil, hhistory⟩ h.1 h.2)
  | delete =>
      dsimp only
      unfold Concurrent.handleDeleteRequest
      cases ht : handler.checkRequestUrl (decodeSpaces request.target) false with
      | none => exact sees_pure _
      | some suffix => exact getTitleFile_sees fun h => hno (.removed hm ht h.1 (Or.inl h.2))
  | options => exact sees_pure _
  | put | head | trace | other => exact sees_pure _

/-- **One request**, as `serve`, access by access: `TextGenHandlerFactory::create` sees to the root. -/
def serveProgram (host : Host) (handler : RequestHandler) (ask : Ask) : Accesses RequestResult := do
  match ← FileAccesses.makeRoot handler.dir_ with
  | .error f => return .error f
  | .ok () =>
    Concurrent.handleRequest host handler ask.client.text ask.apiReply ask.request
      (({ } : Response).set .accessControlAllowOrigin ['*'])

theorem serveProgram_alone (host : Host) (handler : RequestHandler) (ask : Ask) (t : FileTree) :
    (outcome ((serveProgram host handler ask).alone t)).map (fun v => (v.1, v.2.1)) =
      serve host handler ask.client.text ask.apiReply t ask.request := by
  unfold serveProgram serve
  rw [alone_bind, makeRoot_alone]
  cases Googolplex.makeRoot t handler.dir_ with
  | error f => rfl
  | ok files =>
      dsimp only
      rw [← Concurrent.handleRequest_alone]
      generalize (Concurrent.handleRequest host handler ask.client.text ask.apiReply ask.request
        (({ } : Response).set .accessControlAllowOrigin ['*'])).alone files = result
      obtain ⟨files', f | ⟨r, b⟩⟩ := result <;> rfl

/-- The root is a directory, so nothing is made. -/
theorem root_own : (FileAccesses.makeRoot handler.dir_).Keeps (ChangesOwn handler client cwd) :=
  makeRoot_keeps (allows_own fun _ hat hnd => absurd hat.rootDir hnd)

/-- There is a directory already. -/
theorem At.mkdir_root (h : At handler cwd t) : t.mkdir handler.dir_ = none := by
  cases hm : t.mkdir handler.dir_ with
  | none => rfl
  | some m =>
      obtain ⟨n, p, hplace, hfree, _⟩ := mkdir_place hm
      have hdir := h.rootDir
      rw [h.inCwd] at hplace
      rw [show rootPlace handler cwd = n :: p from hplace.symm, IsDir, hfree] at hdir
      cases hdir

theorem root_sees : (FileAccesses.makeRoot handler.dir_).Sees (SameTo handler client cwd) := by
  refine makeRoot_sees (fun _ _ h => ?_) fun _ _ h => ?_
  · rw [h.left.root, h.right.root]
  · rw [h.left.mkdir_root, h.right.mkdir_root]
    exact .none

end

/-! ## 6. Every order -/

/-- Requests of several clients to one location, none of them begun. -/
def crowd {ι : Type} (host : Host) (handler : RequestHandler) (files : FileTree) (asks : ι → Ask) :
    Pool ι FileTree RequestResult := ⟨files, fun i => serveProgram host handler (asks i)⟩

/-- **Clients of text_gen at once**: if no request of the client leaks, and no DELETE of another, then in
    every order of the accesses the client is answered, and all that does not belong to others is
    left, as in the order without the others. -/
theorem clients_apart {ι : Type} [DecidableEq ι] (host : Host) (handler : RequestHandler)
    {files : FileTree} (hat : At handler files.cwd files) (asks : ι → Ask) (client : Ipv4)
    (hno : ∀ i, (asks i).client = client ∨ (asks i).request.method = .delete →
      ¬ Leaks handler (asks i).client files.cwd (asks i).request) (schedule : List ι) :
    let all := (crowd host handler files asks).run schedule
    let own := (crowd host handler files asks).run
      (schedule.filter fun i => (asks i).client = client)
    (∀ i, (asks i).client = client → all.progs i = own.progs i) ∧
      ∀ p, ¬ Foreign handler client files.cwd p → all.shared.nodes[p]? = own.shared.nodes[p]? := by
  intro all own
  have hmine : ∀ i, (asks i).client = client →
      (serveProgram host handler (asks i)).Sees (SameTo handler client files.cwd) := by
    rintro i rfl
    refine sees_bind root_sees fun made => ?_
    split
    · exact sees_pure _
    · exact handleRequest_sees (hno i (Or.inl rfl))
  have hothers : ∀ i, ¬ (asks i).client = client → (serveProgram host handler (asks i)).KeepsIn
      (At handler files.cwd)
      fun t t' => ∃ other, other ≠ client ∧ ChangesOwn handler other files.cwd t t' := by
    intro i hi
    have hkeeps : (serveProgram host handler (asks i)).KeepsIn (At handler files.cwd)
        (ChangesOwn handler (asks i).client files.cwd) := by
      refine keepsIn_bind root_own.keepsIn fun made => ?_
      split
      · exact keepsIn_pure _
      · exact handleRequest_own fun hm => hno i (Or.inr hm)
    exact hkeeps.mono fun _ _ hc => ⟨(asks i).client, hi, hc⟩
  have hpurge : SameTo handler client files.cwd all.shared own.shared ∧
      ∀ i, (asks i).client = client → all.progs i = own.progs i :=
    Pool.run_purge (fun _ _ h => h.left)
      (fun _ _ _ h hc => by obtain ⟨other, hne, hc⟩ := hc; exact h.spared hne hc) schedule
      ⟨hat, hat, fun _ _ => rfl⟩ (fun i hi => ⟨rfl, hmine i hi⟩) hothers
  exact ⟨hpurge.2, hpurge.1.agree⟩

/-- Two clients post the same title, and one asks for it. -/
def threeAsks : Nat → Ask
  | 0 => postHello firstClient "/text".toList "\x7b\"output\": \"Good evening\"\x7d"
  | 1 => askHello firstClient .get "/text".toList
  | _ => postHello secondClient "/text".toList "\x7b\"output\": \"Good night\"\x7d"

/-- The other posts between the POST and the GET. -/
def inBetween : List Nat :=
  [0, 0, 0, 2, 2, 0, 0, 2, 0, 2, 2, 0, 0, 2, 0, 2, 1, 2, 1, 2, 1, 1, 1, 1, 1, 1, 1]

/-- The GET does not leak. -/
theorem askHello_kept : ¬ Leaks ⟨"/text".toList, "/text".toList⟩ firstClient textStart.cwd
    (askHello firstClient .get "/text".toList).request := by
  have hsuffix : RequestHandler.checkRequestUrl ⟨"/text".toList, "/text".toList⟩
      (decodeSpaces (askHello firstClient .get "/text".toList).request.target) true =
        some "Hello you".toList := by
    decide +kernel
  intro h
  cases h with
  | page _ ht =>
      rw [hsuffix] at ht
      cases ht
  | read _ ht _ _ hp =>
      rw [hsuffix] at ht
      cases ht
      revert hp
      decide +kernel
  | removed hm => cases hm

/-- The first client is given its own text. -/
theorem clients_apart_hello :
    let all := (crowd textHost ⟨"/text".toList, "/text".toList⟩ textStart threeAsks).run inBetween
    let own := (crowd textHost ⟨"/text".toList, "/text".toList⟩ textStart threeAsks).run
      (inBetween.filter fun i => (threeAsks i).client = firstClient)
    ((own.progs 1).result.bind Except.toOption).map (fun answer => answer.1.result) = some .ok ∧
      all.progs 1 = own.progs 1 := by
  have hat : At ⟨"/text".toList, "/text".toList⟩ textStart.cwd textStart :=
    ⟨rfl, isDir_root _, by decide +kernel⟩
  refine ⟨by decide +kernel, (clients_apart textHost _ hat threeAsks firstClient (fun i _ => ?_)
    inBetween).1 1 rfl⟩
  match i with
  | 0 => exact fun h => by rcases h.method with hm | hm <;> cases hm
  | 1 => exact askHello_kept
  | i + 2 => exact fun h => by rcases h.method with hm | hm <;> cases hm

end Googolplex.TextGen
