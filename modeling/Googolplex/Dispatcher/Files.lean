/-
  File:      Googolplex/Dispatcher/Files.lean
  Subject:   What a request to any handler leaves of the files.

  * `Touch`: the directories stay, and no file is made whose name is not ASCII.
  * `handle_touch`: every handler keeps to it.
-/
import Googolplex.Crud.Writes
import Googolplex.Dispatcher

namespace Googolplex

open Cxx Posix Posix.FileTree RequestHandler
open Config (ConfigArg)
open TextGen (Ipv4)

/-! ## 1. The calls -/

/-- `t'` has the directories of `t`, and no new file whose name is not ASCII. -/
structure Touch (t t' : FileTree) : Prop where
  grows : Grows t t'
  names : ∀ (n : Name) (p : Path), t'.IsFile (n :: p) → t.IsFile (n :: p) ∨ Json.Ascii n

section Touch

variable {t t' : FileTree} {disk : Disk}

theorem Touch.refl (t : FileTree) : Touch t t := ⟨Grows.refl t, fun _ _ => Or.inl⟩

theorem Touch.trans {t'' : FileTree} (h : Touch t t') (h' : Touch t' t'') : Touch t t'' := by
  refine ⟨h.grows.trans h'.grows, fun n p hf => ?_⟩
  rcases h'.names n p hf with hf' | hn
  · exact h.names n p hf'
  · exact Or.inr hn

theorem Touch.of_mkdir {path : Str} (h : t.mkdir path = some t') : Touch t t' := by
  obtain ⟨m, q, _, _, _, _, hnodes⟩ := mkdir_some h
  refine ⟨Grows.of_mkdir h, fun n p ⟨c, hc⟩ => Or.inl ⟨c, ?_⟩⟩
  rw [hnodes] at hc
  split at hc
  · cases hc
  · exact hc

theorem Touch.of_createDir {path : Str} {created : Bool} (h : createDir t path = (created, t')) :
    Touch t t' := by
  unfold createDir at h
  split at h
  · cases h
    exact Touch.refl t
  · cases hm : t.mkdir path with
    | none =>
        rw [hm] at h
        cases h
        exact Touch.refl t
    | some made =>
        rw [hm] at h
        cases h
        exact Touch.of_mkdir hm

theorem Touch.of_makeRoot {root : Str} (h : makeRoot t root = .ok t') : Touch t t' := by
  unfold makeRoot at h
  split at h
  · cases h
    exact Touch.refl t
  · cases hm : t.mkdir root with
    | none => rw [hm] at h; cases h
    | some files =>
        rw [hm] at h
        cases h
        exact Touch.of_mkdir hm

/-- A file that is opened for writing has the name that stands last in the path. -/
theorem openWrite_last {base x content : Str} (hx : '/' ∉ x)
    (h : t.openWrite (base ++ '/' :: x) content = some t') :
    ∃ q, t.resolve (base ++ '/' :: x) = some (x :: q) := by
  obtain ⟨n, p, hr, hp, hnd, _⟩ := openWrite_some h
  have hwalk : t.walk (t.origin (base ++ '/' :: x)) (segments base ++ [x]) = some (n :: p) := by
    unfold resolve at hr
    rw [if_neg (by simp), segments_append, segments_of_not_mem hx] at hr
    exact hr
  rw [walk_concat] at hwalk
  cases hc : t.walk (t.origin (base ++ '/' :: x)) (segments base) with
  | none => rw [hc] at hwalk; cases hwalk
  | some c =>
      rw [hc, Option.bind_some] at hwalk
      split at hwalk
      · rename_i hd
        have hstep : stepName c x = n :: p := Option.some.inj hwalk
        unfold stepName at hstep
        split at hstep
        · rw [hstep] at hd
          exact absurd hd hnd
        · split at hstep
          · exact absurd (hstep ▸ isDir_tail hd) hnd
          · obtain ⟨rfl, rfl⟩ := List.cons.inj hstep
            exact ⟨c, hr⟩
      · cases hwalk

theorem Touch.of_writeToFile {base x content : Str} (hx : '/' ∉ x) (hascii : Json.Ascii x) :
    Touch t (writeToFile disk t (base ++ '/' :: x) content).2 := by
  unfold writeToFile
  split
  · exact Touch.refl t
  · cases hw : (disk (base ++ '/' :: x) content).bind (t.openWrite (base ++ '/' :: x)) with
    | none => exact Touch.refl t
    | some files =>
        obtain ⟨held, _, hopen⟩ := Option.bind_eq_some_iff.mp hw
        obtain ⟨m, q, hr, _, _, _, hnodes⟩ := openWrite_some hopen
        obtain ⟨q', hr'⟩ := openWrite_last hx hopen
        obtain ⟨rfl, rfl⟩ : m = x ∧ q = q' := by
          rw [hr] at hr'
          exact List.cons.inj (Option.some.inj hr')
        refine ⟨Grows.of_openWrite hopen, fun n p ⟨c, hc⟩ => ?_⟩
        rw [show (true, (some files).getD t).2 = files from rfl, hnodes] at hc
        split at hc
        · rename_i heq
          obtain ⟨rfl, rfl⟩ := List.cons.inj heq
          exact Or.inr hascii
        · exact Or.inl ⟨c, hc⟩

theorem Touch.of_unlink {path : Str} : Touch t ((t.unlink path).getD t) := by
  cases hu : t.unlink path with
  | none => exact Touch.refl t
  | some files =>
      obtain ⟨q, _, _, _, hnodes⟩ := unlink_some hu
      refine ⟨Grows.of_unlink hu, fun n p ⟨c, hc⟩ => Or.inl ⟨c, ?_⟩⟩
      rw [show (some files).getD t = files from rfl, hnodes] at hc
      split at hc
      · cases hc
      · exact hc

theorem ascii_of_digits {x : Str} (h : ∀ c ∈ x, c.isDigit = true) : Json.Ascii x :=
  fun c hc => TextGen.isDigit_ascii (h c hc)

end Touch

/-! ## 2. The handlers -/

section Handlers

variable {handler : RequestHandler} {disk : Disk} {host : TextGen.Host} {client : Ipv4}
  {request : Request} {response r : Response} {b : Bool}

theorem Crud.Write.touch {s s' : Crud.CrudState} {entity base x : Str} {value : Int}
    {files : FileTree} (hw : Crud.Write handler disk s request entity (base ++ '/' :: x) value files s' r)
    (hx : '/' ∉ x) (hascii : Json.Ascii x) : Touch s.files s'.files := by
  have hmade : Touch s.files files := by
    have hmade := hw.made
    split at hmade
    · exact Touch.of_createDir hmade
    · cases hmade
      exact Touch.refl _
  rw [hw.tree]
  exact hmade.trans (Touch.of_writeToFile hx hascii)

theorem Crud.handleRequest_touch {s s' : Crud.CrudState}
    (h : Crud.handleRequest handler disk s request response = .ok (s', r, b)) :
    Touch s.files s'.files := by
  unfold Crud.handleRequest at h
  cases ht : handler.checkRequestUrl request.target false with
  | none => simp only [ht] at h; cases h; exact Touch.refl _
  | some t =>
      simp only [ht] at h
      cases hm : request.method with
      | post =>
          simp only [hm] at h
          rcases Crud.handlePostRequest_write h with ⟨rfl, _⟩ | ⟨n, _, _, _, hw⟩
          · exact Touch.refl _
          · rw [← Crud.pathOf_below] at hw
            exact hw.touch (Crud.plain_decimal n).2.2.2 (ascii_of_digits fun _ => isDigit_of_mem_decimal)
      | get =>
          simp only [hm, Crud.handleGetRequest] at h
          split at h
          · cases h; exact Touch.refl _
          · split at h <;> cases h <;> exact Touch.refl _
          · cases h; exact Touch.refl _
      | put =>
          simp only [hm] at h
          rcases Crud.handlePutRequest_write h with ⟨rfl, _⟩ | ⟨n, _, hne, hdigits, _, hw⟩
          · exact Touch.refl _
          · have hplain := Crud.plain_of_digits hne hdigits
            have hascii := ascii_of_digits hdigits
            rcases Crud.suffix_cut t with ⟨_, hid, _⟩ | ⟨hcut, _⟩
            · rw [hid] at hplain hascii
              exact hw.touch hplain.2.2.2 hascii
            · rw [hcut, ← Crud.pathOf_below] at hw
              exact hw.touch hplain.2.2.2 hascii
      | delete =>
          simp only [hm, Crud.handleDeleteRequest] at h
          split at h
          · cases h; exact Touch.refl _
          · cases h; exact Touch.refl _
          · split at h
            · cases h; exact Touch.refl _
            · split at h
              · cases h; exact Touch.refl _
              · cases hu : s.files.unlink (Crud.pathOf handler t) with
                | none => rw [hu] at h; cases h; exact Touch.refl _
                | some files =>
                    rw [hu] at h
                    cases h
                    have : Touch s.files ((s.files.unlink (Crud.pathOf handler t)).getD s.files) :=
                      Touch.of_unlink
                    rw [hu] at this
                    exact this
      | _ => simp only [hm] at h; cases h; exact Touch.refl _

theorem TextGen.jsonAnswer_keeps {files files' : FileTree} {j : Json.Value}
    (h : TextGen.jsonAnswer host files j response = .ok (files', r, b)) : files' = files := by
  unfold TextGen.jsonAnswer at h
  split at h
  · cases h
  · cases h
    rfl

theorem TextGen.getTitleFile_touch {files files' : FileTree} {path suffix : Str} {remove : Bool}
    (h : TextGen.getTitleFile host client.text files path suffix response remove =
      .ok (files', r, b)) : Touch files files' := by
  unfold TextGen.getTitleFile at h
  split at h
  · dsimp only at h
    split at h
    · split at h
      · rw [TextGen.jsonAnswer_keeps h]
        exact Touch.of_unlink
      · split at h
        · cases h
        · rw [TextGen.jsonAnswer_keeps h]
          exact Touch.refl _
    · cases h
      exact Touch.refl _
  · cases h
    exact Touch.refl _

theorem TextGen.storeEntry_touch {files files' : FileTree} {output textPrompt title : Str} {b : Bool}
    (htitle : TextGen.checkTitleValidity title = true)
    (h : TextGen.storeEntry host handler client.text files output textPrompt title =
      .ok (b, files')) : Touch files files' := by
  unfold TextGen.storeEntry at h
  dsimp only at h
  have hmade : Touch files (createDir files (TextGen.folderOf handler client.text)).2 :=
    Touch.of_createDir rfl
  generalize createDir files (TextGen.folderOf handler client.text) = made at h hmade
  obtain ⟨created, made⟩ := made
  cases created with
  | false => cases h; exact hmade
  | true =>
      dsimp only at h
      split at h
      · cases h
      · rename_i entry _
        have hslash : '/' ∉ title := TextGen.not_mem_title htitle (by decide) (by decide)
        have hw : Touch made (writeToFile host.disk made
            (TextGen.folderOf handler client.text ++ '/' :: title) entry).2 :=
          Touch.of_writeToFile hslash (TextGen.title_ascii htitle)
        rw [Except.ok.inj h] at hw
        exact hmade.trans hw

theorem TextGen.handleRequest_touch {apiReply : Option Str} {files files' : FileTree}
    (h : TextGen.handleRequest host handler client.text apiReply files request response =
      .ok (files', r, b)) : Touch files files' := by
  unfold TextGen.handleRequest at h
  cases hm : request.method with
  | post =>
      simp only [hm, TextGen.handlePostRequest] at h
      split at h
      · cases h; exact Touch.refl _
      · split at h
        · cases h; exact Touch.refl _
        · rename_i hvalid
          rw [not_or, Bool.not_eq_false, Bool.not_eq_false] at hvalid
          split at h
          · cases h; exact Touch.refl _
          · split at h
            · cases h
            · rename_i hstore
              cases h
              exact TextGen.storeEntry_touch hvalid.2 hstore
            · rename_i hstore
              cases h
              exact TextGen.storeEntry_touch hvalid.2 hstore
  | get =>
      simp only [hm, TextGen.handleGetRequest] at h
      split at h
      · cases h; exact Touch.refl _
      · split at h
        · split at h <;> cases h <;> exact Touch.refl _
        · split at h
          · unfold TextGen.getIpFileList at h
            split at h
            · split at h
              · rw [TextGen.jsonAnswer_keeps h]; exact Touch.refl _
              · cases h; exact Touch.refl _
            · cases h; exact Touch.refl _
          · exact TextGen.getTitleFile_touch h
  | delete =>
      simp only [hm, TextGen.handleDeleteRequest] at h
      split at h
      · cases h; exact Touch.refl _
      · exact TextGen.getTitleFile_touch h
  | options => simp only [hm] at h; cases h; exact Touch.refl _
  | _ => simp only [hm] at h; cases h; exact Touch.refl _

/-- **No request takes a directory away**, or makes a file with a name that is not ASCII. -/
theorem handle_touch {platform : Platform} {location : Str} {arg : ConfigArg}
    {s s' : ServerState}
    (h : handle platform location arg client.text s request response = .ok (s', r, b)) :
    Touch s.files s'.files := by
  unfold handle at h
  cases htype : handlerTypeOf arg.handlerType with
  | static =>
      simp only [htype] at h
      split at h
      · cases h
      · cases h; exact Touch.refl _
  | crud =>
      simp only [htype] at h
      split at h
      · cases h
      · rename_i hserve
        cases h
        exact Crud.handleRequest_touch hserve
  | textGen =>
      simp only [htype] at h
      split at h
      · cases h
      · rename_i hroot
        split at h
        · cases h
        · rename_i hserve
          cases h
          exact (Touch.of_makeRoot hroot).trans (TextGen.handleRequest_touch hserve)
  | _ => simp only [htype] at h; cases h; exact Touch.refl _

end Handlers

end Googolplex
