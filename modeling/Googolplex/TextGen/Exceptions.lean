/-
  File:      Googolplex/TextGen/Exceptions.lean
  Subject:   Which text_gen requests are not answered.

  What is printed was checked or parsed before, but for the suffix of the url;
  what is parsed was not always printed.

  * `Throws`: before the request, that it will not be answered.
  * `handleRequest_error_iff`: it is not answered exactly when it throws, as long
    as the files of the client have names that are ASCII.
-/
import Googolplex.Library.JsonText
import Googolplex.TextGen.Clients

namespace Googolplex.TextGen

open Cxx Posix Posix.FileTree RequestHandler

/-- **The text_gen request will not be answered**: the page is a directory, the file the suffix leads
    to is no JSON, or the suffix that goes into the answer is no UTF-8. -/
inductive Throws (library : Json.Library) (handler : RequestHandler) (client : Ipv4) (files : FileTree)
    (request : Request) : Prop
  | page (hm : request.method = .get)
      (ht : handler.checkRequestUrl (decodeSpaces request.target) true = some [])
      (hp : files.lookup pagePath = some .dir)
  | read {suffix content : Str} (hm : request.method = .get)
      (ht : handler.checkRequestUrl (decodeSpaces request.target) true = some suffix)
      (hs : suffix ≠ [] ∧ suffix ≠ "history?".toList)
      (hd : files.lookup (folderOf handler client.text) = some .dir)
      (hf : files.lookup (folderOf handler client.text ++ '/' :: suffix) = some (.file content))
      (hbad : library.parse content = none ∨ Json.utf8 suffix = false)
  | removed {suffix content : Str} (hm : request.method = .delete)
      (ht : handler.checkRequestUrl (decodeSpaces request.target) false = some suffix)
      (hd : files.lookup (folderOf handler client.text) = some .dir)
      (hf : files.lookup (folderOf handler client.text ++ '/' :: suffix) = some (.file content))
      (hbad : Json.utf8 suffix = false)

section

variable {host : Host} {handler : RequestHandler} {client : Ipv4} {files : FileTree}
  {request : Request} {response : Response}

/-- What is looked up is there. -/
theorem mem_of_lookup {members : List (Str × Json.Value)} {name : Str} {v : Json.Value}
    (h : members.lookup name = some v) : (name, v) ∈ members := by
  obtain ⟨pre, post, rfl, _⟩ := List.lookup_eq_some_iff.mp h
  simp

/-- What the API's text holds can be printed. -/
theorem utf8_of_parseRawOutput {raw output : Str} (h : parseRawOutput host raw = some output) :
    Json.utf8 output = true := by
  unfold parseRawOutput at h
  split at h
  · rename_i o heq
    cases h
    obtain ⟨v, hv, hmember⟩ := Option.bind_eq_some_iff.mp heq
    cases v with
    | object members =>
        have hall := host.library.dump_parse _ _ hv
        rw [host.library.dump_object, List.all_eq_true] at hall
        have hmem : ("output".toList, Json.Value.string output) ∈ members :=
          mem_of_lookup hmember
        have hprint := (Bool.and_eq_true_iff.mp (hall _ hmem)).2
        rwa [host.library.dump_string] at hprint
    | _ => cases hmember
  · cases h

theorem dump_entry (host : Host) {output textPrompt title : Str} (ho : Json.utf8 output = true)
    (hp : checkPromptsValidity textPrompt = true) (ht : checkTitleValidity title = true) :
    ∃ entry, host.library.dump (entryOf output textPrompt title) = some entry := by
  have hnames : Json.utf8 "output".toList = true ∧ Json.utf8 "text_prompt".toList = true ∧
      Json.utf8 "title".toList = true := by
    refine ⟨?_, ?_, ?_⟩ <;> exact Json.utf8_of_ascii (by simp [Json.Ascii])
  refine Option.isSome_iff_exists.mp ?_
  unfold entryOf
  rw [host.library.dump_object]
  simp only [List.all_cons, List.all_nil, host.library.dump_string, hnames, ho, prompt_utf8 hp,
    Json.utf8_of_ascii (title_ascii ht), Bool.and_self]

theorem dump_removed (suffix : Str) :
    (host.library.dump (removedJson client.folder suffix)).isSome = Json.utf8 suffix := by
  have hnames : Json.utf8 "IP".toList = true ∧ Json.utf8 "status".toList = true ∧
      Json.utf8 "removed".toList = true ∧ Json.utf8 "title".toList = true := by
    refine ⟨?_, ?_, ?_, ?_⟩ <;> exact Json.utf8_of_ascii (by simp [Json.Ascii])
  unfold removedJson
  rw [host.library.dump_object]
  simp only [List.all_cons, List.all_nil, host.library.dump_string, hnames, client.folder_utf8,
    Bool.true_and, Bool.and_true]

theorem dump_readed (suffix : Str) {text : Str} {content : Json.Value}
    (h : host.library.parse text = some content) :
    (host.library.dump (readedJson client.folder suffix content)).isSome = Json.utf8 suffix := by
  have hnames : Json.utf8 "IP".toList = true ∧ Json.utf8 "content".toList = true ∧
      Json.utf8 "status".toList = true ∧ Json.utf8 "readed".toList = true ∧
      Json.utf8 "title".toList = true := by
    refine ⟨?_, ?_, ?_, ?_, ?_⟩ <;> exact Json.utf8_of_ascii (by simp [Json.Ascii])
  unfold readedJson
  rw [host.library.dump_object]
  simp only [List.all_cons, List.all_nil, host.library.dump_string, host.library.dump_parse _ _ h,
    hnames, client.folder_utf8, Bool.true_and, Bool.and_true]

theorem ascii_intercalate {titles : List Str} (h : ∀ t ∈ titles, Json.Ascii t) :
    Json.Ascii ([','].intercalate titles) := by
  intro c hc
  rcases List.mem_flatten.mp hc with ⟨t, ht, hct⟩
  have hmem : t = [','] ∨ t ∈ titles := by
    clear hc h
    induction titles with
    | nil => cases ht
    | cons x titles ih =>
        cases titles with
        | nil => exact Or.inr (by simpa using ht)
        | cons y titles =>
            rw [List.intersperse_cons_cons, List.mem_cons, List.mem_cons] at ht
            rcases ht with rfl | rfl | ht
            · exact Or.inr List.mem_cons_self
            · exact Or.inl rfl
            · exact (ih ht).imp_right (List.mem_cons_of_mem _)
  rcases hmem with rfl | hmem
  · rw [List.mem_singleton.mp hct]
    decide
  · exact h t hmem c hct

/-- A list of names that are ASCII can be printed. -/
theorem dump_history (host : Host) (client : Ipv4) {titles : List Str} (h : ∀ t ∈ titles, Json.Ascii t) :
    ∃ text, host.library.dump (historyJson client.folder titles) = some text := by
  have hnames : Json.utf8 "IP".toList = true ∧ Json.utf8 "title list".toList = true := by
    refine ⟨?_, ?_⟩ <;> exact Json.utf8_of_ascii (by simp [Json.Ascii])
  have hlist : Json.utf8 ('[' :: [','].intercalate titles ++ [']']) = true := by
    refine Json.utf8_of_ascii fun c hc => ?_
    rcases List.mem_append.mp hc with hc | hc
    · rcases List.mem_cons.mp hc with rfl | hc
      · decide
      · exact ascii_intercalate h c hc
    · rw [List.mem_singleton.mp hc]
      decide
  refine Option.isSome_iff_exists.mp ?_
  unfold historyJson
  rw [host.library.dump_object]
  simp only [List.all_cons, List.all_nil, host.library.dump_string, hnames, client.folder_utf8, hlist,
    Bool.and_self]

theorem jsonAnswer_error_iff {j : Json.Value} :
    (∃ f, jsonAnswer host files j response = .error f) ↔ (host.library.dump j).isSome = false := by
  unfold jsonAnswer
  cases host.library.dump j with
  | none => exact ⟨fun _ => rfl, fun _ => ⟨_, rfl⟩⟩
  | some text =>
      constructor
      · intro ⟨f, hf⟩
        cases hf
      · intro h
        cases h

theorem getTitleFile_error_iff {path suffix : Str} {remove : Bool} :
    (∃ f, getTitleFile host client.text files path suffix response remove = .error f) ↔
      files.lookup path = some .dir ∧ ∃ content,
        files.lookup (path ++ '/' :: suffix) = some (.file content) ∧
        ((remove = false ∧ host.library.parse content = none) ∨ Json.utf8 suffix = false) := by
  unfold getTitleFile
  by_cases hd : files.lookup path = some .dir
  · rw [if_pos hd]
    dsimp only
    cases hf : files.lookup (path ++ '/' :: suffix) with
    | none => simp
    | some node =>
        cases node with
        | dir => simp
        | file content =>
            dsimp only
            by_cases hr : remove = true
            · rw [if_pos hr, jsonAnswer_error_iff]
              rw [show dot2underscore client.text = client.folder from rfl, dump_removed]
              simp [hd, hr]
            · rw [if_neg hr]
              cases hp : host.library.parse content with
              | none => simp [hd, hp, hr]
              | some v =>
                  dsimp only
                  rw [jsonAnswer_error_iff, show dot2underscore client.text = client.folder from rfl,
                    dump_readed suffix hp]
                  simp [hd, hp]
  · rw [if_neg hd]
    simp [hd]

/-- A POST is always answered. -/
theorem handlePostRequest_ok {apiReply : Option Str} {f : Fault} :
    handlePostRequest host handler client.text apiReply files request response ≠ .error f := by
  intro h
  unfold handlePostRequest at h
  split at h
  · cases h
  · dsimp only at h
    split at h
    · cases h
    · rename_i hvalid
      rw [not_or, Bool.not_eq_false, Bool.not_eq_false] at hvalid
      split at h
      · cases h
      · rename_i output hout
        obtain ⟨raw, _, hparse⟩ := Option.bind_eq_some_iff.mp hout
        obtain ⟨entry, hentry⟩ :=
          dump_entry host (utf8_of_parseRawOutput hparse) hvalid.1 hvalid.2
        unfold storeEntry at h
        dsimp only at h
        rw [hentry] at h
        generalize createDir files (folderOf handler client.text) = made at h
        obtain ⟨created, made⟩ := made
        cases created with
        | false => cases h
        | true =>
            dsimp only at h
            split at h
            · rename_i heq
              cases heq
            · cases h
            · cases h

/-- The list of a folder is always answered with, when its files have names that can be printed. -/
theorem getIpFileList_ok {path : Str} {f : Fault} (hnames : ∀ p, files.resolve path = some p →
      ∀ n : Name, files.IsFile (n :: p) → Json.Ascii n) :
    getIpFileList host client.text files path response ≠ .error f := by
  intro h
  unfold getIpFileList at h
  split at h
  · rename_i p hp
    split at h
    · have hascii : ∀ t ∈ ((host.order (files.entries p)).filter (·.2 ≠ .dir)).map Prod.fst,
          Json.Ascii t := by
        intro t ht
        obtain ⟨⟨n, x⟩, hmem, rfl⟩ := List.mem_map.mp ht
        obtain ⟨hentry, hfile⟩ := List.mem_filter.mp hmem
        have hnode := mem_entries.mp ((host.order_perm _).mem_iff.mp hentry)
        cases x with
        | dir => simp at hfile
        | file c => exact hnames p hp n ⟨c, hnode⟩
      obtain ⟨text, htext⟩ := dump_history host client hascii
      unfold jsonAnswer at h
      dsimp only at h
      rw [show dot2underscore client.text = client.folder from rfl, htext] at h
      cases h
    · cases h
  · cases h

theorem handleGetRequest_error_iff (hm : request.method = .get)
    (hnames : ∀ p, files.resolve (folderOf handler client.text) = some p → ∀ n : Name,
      files.IsFile (n :: p) → Json.Ascii n) :
    (∃ f, handleGetRequest host handler client.text files request response = .error f) ↔
      Throws host.library handler client files request := by
  unfold handleGetRequest
  constructor
  · intro ⟨f, hf⟩
    split at hf
    · cases hf
    · rename_i suffix ht
      dsimp only at hf
      split at hf
      · rename_i hnil
        rw [hnil] at ht
        refine .page hm ht ?_
        unfold readFromFile at hf
        cases hl : files.lookup pagePath with
        | none => rw [hl] at hf; cases hf
        | some node =>
            cases node with
            | dir => rfl
            | file content => rw [hl] at hf; cases hf
      · rename_i hnil
        split at hf
        · exact absurd hf (getIpFileList_ok hnames)
        · rename_i hhist
          obtain ⟨hd, content, hl, hbad⟩ := getTitleFile_error_iff.mp ⟨f, hf⟩
          exact .read hm ht ⟨hnil, hhist⟩ hd hl (hbad.imp_left And.right)
  · intro h
    cases h with
    | page _ ht hp =>
        rw [ht]
        dsimp only
        rw [if_pos rfl]
        unfold readFromFile
        rw [hp]
        exact ⟨_, rfl⟩
    | read _ ht hs hd hf hbad =>
        rw [ht]
        dsimp only
        rw [if_neg hs.1, if_neg hs.2, getTitleFile_error_iff]
        exact ⟨hd, _, hf, hbad.imp_left fun h => ⟨rfl, h⟩⟩
    | removed hm' => rw [hm] at hm'; cases hm'

theorem handleDeleteRequest_error_iff (hm : request.method = .delete) :
    (∃ f, handleDeleteRequest host handler client.text files request response = .error f) ↔
      Throws host.library handler client files request := by
  unfold handleDeleteRequest
  constructor
  · intro ⟨f, hf⟩
    split at hf
    · cases hf
    · rename_i suffix ht
      obtain ⟨hd, content, hl, hbad⟩ := getTitleFile_error_iff.mp ⟨f, hf⟩
      exact .removed hm ht hd hl (hbad.resolve_left fun h => Bool.noConfusion h.1)
  · intro h
    cases h with
    | page hm' => rw [hm] at hm'; cases hm'
    | read hm' => rw [hm] at hm'; cases hm'
    | removed _ ht hd hf hbad =>
        rw [ht]
        exact getTitleFile_error_iff.mpr ⟨hd, _, hf, Or.inr hbad⟩

/-- Only a GET or a DELETE throws. -/
theorem Throws.method {library : Json.Library} (h : Throws library handler client files request) :
    request.method = .get ∨ request.method = .delete := by
  cases h with
  | page hm => exact Or.inl hm
  | read hm => exact Or.inl hm
  | removed hm => exact Or.inr hm

/-- **A text_gen request is answered if and only if it does not throw**, when the files in the
    client's folder have names that can be printed. -/
theorem handleRequest_error_iff {apiReply : Option Str}
    (hnames : ∀ p, files.resolve (folderOf handler client.text) = some p → ∀ n : Name,
      files.IsFile (n :: p) → Json.Ascii n) :
    (∃ f, handleRequest host handler client.text apiReply files request response = .error f) ↔
      Throws host.library handler client files request := by
  have hother (hno : ∀ f, handleRequest host handler client.text apiReply files request response ≠
      .error f) (hm : request.method ≠ .get ∧ request.method ≠ .delete) :
      (∃ f, handleRequest host handler client.text apiReply files request response = .error f) ↔
        Throws host.library handler client files request :=
    ⟨fun ⟨f, hf⟩ => absurd hf (hno f), fun h => absurd h.method (not_or.mpr hm)⟩
  cases hm : request.method with
  | get =>
      unfold handleRequest
      rw [hm]
      exact handleGetRequest_error_iff hm hnames
  | delete =>
      unfold handleRequest
      rw [hm]
      exact handleDeleteRequest_error_iff hm
  | post =>
      refine hother (fun f hf => ?_) (by simp [hm])
      unfold handleRequest at hf
      rw [hm] at hf
      exact handlePostRequest_ok hf
  | _ =>
      refine hother (fun f hf => ?_) (by simp [hm])
      unfold handleRequest at hf
      rw [hm] at hf
      cases hf

end

/-- A host: JSON as printed and read by `Json.textLibrary`, writes that succeed, directories listed
    in the order of their names. -/
def textHost : Host where
  library := Json.textLibrary
  disk := Disk.reliable
  order entries := entries
  order_perm _ := List.Perm.refl _

end Googolplex.TextGen
