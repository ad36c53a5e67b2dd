/-
  File:      Googolplex/Crud/Inversion.lean
  Subject:   Which exit a request takes: what is known of a request and the
             state before it determines the constructor of `Exit`.
-/
import Googolplex.Crud.Exits

namespace Googolplex.Crud

open Cxx Posix Posix.FileTree RequestHandler

/-- The key has a directory, or `create_dir` can make it one. -/
def CanOpen (handler : RequestHandler) (s : CrudState) (d : Path) (e : Str) : Prop :=
  Opens s.files d e ∨ s.files.mkdir (pathOf handler e) ≠ none

section Inversion

variable {handler : RequestHandler} {d : Path} {s s' : CrudState} {request : Request}
  {r : Response}

/-- A request that writes where a directory is or can be made is not turned down. -/
theorem Names.not_refused {e : Str} {x : Name} {n : Nat} {r₀ : Response}
    (hn : Names handler s request e x n) (hc : CanOpen handler s d e) :
    ¬ Refusal handler d s request r₀ := by
  intro h
  have hno : ¬ (¬ Opens s.files d e ∧ s.files.mkdir (pathOf handler e) = none) := by
    intro ⟨ho, hmk⟩
    rcases hc with h' | h'
    · exact ho h'
    · exact h' hmk
  rcases hn.target with ⟨hm, ht⟩ | ⟨hm, ht, hs, hdig⟩
  · cases h with
    | badUrl ht' => rw [ht] at ht'; cases ht'
    | badMethod hm' => exact hm'.1 hm
    | noDirectory ht' hm' hk ho hmk =>
        rw [ht] at ht'
        cases ht'
        rw [hm] at hm'
        rcases hm' with ⟨_, rfl⟩ | ⟨hm', _⟩
        · exact hno ⟨ho, hmk⟩
        · cases hm'
    | absent ht' hm' => rw [hm] at hm'; rcases hm' with hm' | hm' <;> cases hm'
    | noNumber ht' hm' | isDirectory ht' hm' | noId ht' hm' | unknown ht' hm' =>
        rw [hm] at hm'; cases hm'
  · cases h with
    | badUrl ht' => rw [ht] at ht'; cases ht'
    | badMethod hm' => exact hm'.2.2.1 hm
    | noDirectory ht' hm' hk ho hmk =>
        rw [ht] at ht'
        cases ht'
        rw [hm] at hm'
        rcases hm' with ⟨hm', _⟩ | ⟨_, rfl⟩
        · cases hm'
        · rw [entityOf_below hs] at ho hmk
          exact hno ⟨ho, hmk⟩
    | absent ht' hm' => rw [hm] at hm'; rcases hm' with hm' | hm' <;> cases hm'
    | noNumber ht' hm' hdig' => rw [ht] at ht'; cases ht'; exact hdig' hdig
    | isDirectory ht' hm' | noId ht' hm' | unknown ht' hm' => rw [hm] at hm'; cases hm'

/-- **A request that names a file writes it**, or finds a directory in its place; either way the
    id is registered. -/
theorem Exit.of_names {e : Str} {x : Name} {n : Nat} (h : Exit handler d s request s' r)
    (hn : Names handler s request e x n) (hc : CanOpen handler s d e) :
    ∃ files, s' = ⟨register s.fileToId e n, files⟩ ∧
      ((¬ s.files.IsDir (x :: spot d e) ∧
          (Opens s.files d e ∨ s.fileToId[e]? = none ∧ Fresh handler s.files d e) ∧
          ∀ q, files.nodes[q]? = if x :: spot d e = q then some (.file request.body)
            else if spot d e = q then some .dir else s.files.nodes[q]?) ∨
        (s.files.IsDir (x :: spot d e) ∧ files = s.files ∧ 400 ≤ r.result.toNat)) := by
  have hm := hn.target
  cases h with
  | refused h => exact absurd h (hn.not_refused hc)
  | listed hm' | read hm' | deleted hm' => rcases hm with ⟨hm, _⟩ | ⟨hm, _⟩ <;> simp [hm] at hm'
  | stored hn' hdir hfree hg ho hnodes =>
      obtain ⟨rfl, rfl, rfl⟩ := hn.unique hn'
      exact ⟨_, rfl, Or.inl ⟨hfree, hdir, hnodes⟩⟩
  | blocked hn' ho hd hr =>
      obtain ⟨rfl, rfl, rfl⟩ := hn.unique hn'
      exact ⟨_, rfl, Or.inr ⟨hd, rfl, hr⟩⟩
  | bare hm' ht' hne hdig =>
      rcases hm with ⟨hm, _⟩ | ⟨_, ht, _⟩
      · rw [hm] at hm'; cases hm'
      · rw [ht] at ht'
        cases ht'
        have hslash : ('/' : Char).isDigit = true :=
          hdig '/' (List.mem_append_right _ List.mem_cons_self)
        exact absurd hslash (by decide)

/-- **A PUT of a number alone** makes its directory and registers the number under itself. -/
theorem Exit.of_bare {t : Str} {n : Nat} (h : Exit handler d s request s' r)
    (hm : request.method = .put) (ht : handler.checkRequestUrl request.target false = some t)
    (hs : '/' ∉ t) (hdig : idNameOf t ≠ [] ∧ (idNameOf t).all Char.isDigit = true)
    (hv : stoi (idNameOf t) = .ok (n : Int)) (hc : CanOpen handler s d t) :
    ∃ files, s' = ⟨register s.fileToId t n, files⟩ ∧ Made handler s.files files d t ∧
      400 ≤ r.result.toNat := by
  have hent : entityOf t = t := (suffix_whole hs).2
  cases h with
  | refused h =>
      cases h with
      | badUrl ht' => rw [ht] at ht'; cases ht'
      | badMethod hm' => exact absurd hm hm'.2.2.1
      | noDirectory ht' hm' hk hno hnomk =>
          rw [ht] at ht'
          cases ht'
          rw [hm] at hm'
          rcases hm' with ⟨hm', _⟩ | ⟨_, rfl⟩
          · cases hm'
          · rw [hent] at hno hnomk
            rcases hc with ho | hmk
            · exact absurd ho hno
            · exact absurd hnomk hmk
      | noNumber ht' hm' hno => rw [ht] at ht'; cases ht'; exact absurd hdig hno
      | absent ht' hm' => rw [hm] at hm'; rcases hm' with hm' | hm' <;> cases hm'
      | isDirectory ht' hm' | noId ht' hm' | unknown ht' hm' => rw [hm] at hm'; cases hm'
  | listed hm' | read hm' | deleted hm' => rw [hm] at hm'; cases hm'
  | stored hn | blocked hn =>
      rcases hn.target with ⟨hm', _⟩ | ⟨_, ht', _⟩
      · rw [hm] at hm'; cases hm'
      · rw [ht] at ht'
        cases ht'
        exact absurd (List.mem_append_right _ List.mem_cons_self) hs
  | bare hm' ht' hne hd hv' hmade hr =>
      rw [ht] at ht'
      cases ht'
      rw [(suffix_whole hs).1, hv'] at hv
      cases hv
      exact ⟨_, rfl, hmade, hr⟩

/-- **A GET of a directory** makes its key known. -/
theorem Exit.of_listed {t : Str} (hw : Wf handler d s) (h : Exit handler d s request s' r)
    (hm : request.method = .get) (ht : handler.checkRequestUrl request.target false = some t)
    (ho : Opens s.files d t) : s' = ⟨s.fileToId.insert t (idsOf s.fileToId t), s.files⟩ := by
  cases h with
  | refused h =>
      cases h with
      | badUrl ht' => rw [ht] at ht'; cases ht'
      | badMethod hm' => exact absurd hm hm'.2.1
      | noDirectory ht' hm' => rw [hm] at hm'; rcases hm' with ⟨hm', _⟩ | ⟨hm', _⟩ <;> cases hm'
      | absent ht' hm' hl =>
          rw [ht] at ht'
          cases ht'
          rw [(lookup_dir hw.home).mpr ho] at hl
          cases hl
      | noNumber ht' hm' | isDirectory ht' hm' | noId ht' hm' | unknown ht' hm' =>
          rw [hm] at hm'; cases hm'
  | listed hm' ht' =>
      rw [ht] at ht'
      cases ht'
      rfl
  | read hm' ht' hwalk hq =>
      rw [ht] at ht'
      cases ht'
      have hd := (lookup_dir hw.home).mpr ho
      rw [lookup_pathOf hw.home, hwalk, Option.bind_some, hq] at hd
      cases hd
  | stored hn | blocked hn => rcases hn.target with ⟨hm', _⟩ | ⟨hm', _⟩ <;> simp [hm] at hm'
  | bare hm' | deleted hm' => rw [hm] at hm'; cases hm'

/-- **A DELETE of a file** whose name is a number, in the directory of a known key, deletes it. -/
theorem Exit.of_deleted {e : Str} {x : Name} {v : Int} {ids : List Int} {c : Str}
    (hw : Wf handler d s) (h : Exit handler d s request s' r) (hm : request.method = .delete)
    (ht : handler.checkRequestUrl request.target false = some (e ++ '/' :: x)) (hs : '/' ∉ x)
    (hv : stoi x = .ok v) (hk : s.fileToId[e]? = some ids)
    (hl : s.files.lookup (pathOf handler (e ++ '/' :: x)) = some (.file c)) :
    ∃ files, s' = ⟨s.fileToId.insert e (ids.filter (· ≠ v)), files⟩ ∧
      s.files.IsFile (x :: spot d e) ∧ r.result = .ok ∧
      ∀ q, files.nodes[q]? = if x :: spot d e = q then none else s.files.nodes[q]? := by
  cases h with
  | refused h =>
      cases h with
      | badUrl ht' => rw [ht] at ht'; cases ht'
      | badMethod hm' => exact absurd hm hm'.2.2.2
      | noDirectory ht' hm' => rw [hm] at hm'; rcases hm' with ⟨hm', _⟩ | ⟨hm', _⟩ <;> cases hm'
      | absent ht' hm' hl' =>
          rw [ht] at ht'
          cases ht'
          rw [hl] at hl'
          cases hl'
      | noNumber ht' hm' => rw [hm] at hm'; cases hm'
      | isDirectory ht' hm' ho =>
          rw [ht] at ht'
          cases ht'
          rw [(lookup_dir hw.home).mpr ho] at hl
          cases hl
      | noId ht' hm' hv' =>
          rw [ht] at ht'
          cases ht'
          rw [idNameOf_below hs, hv] at hv'
          cases hv'
      | unknown ht' hm' hk' =>
          rw [ht] at ht'
          cases ht'
          rw [entityOf_below hs, hk] at hk'
          cases hk'
  | listed hm' | read hm' | bare hm' => rw [hm] at hm'; cases hm'
  | stored hn | blocked hn => rcases hn.target with ⟨hm', _⟩ | ⟨hm', _⟩ <;> simp [hm] at hm'
  | @deleted e' x' v' ids' files r hm' ht' hx' hv' hk' hf hg hnodes hr hb =>
      obtain ⟨rfl, rfl⟩ := cut_last hs hx'.2.2.2 (Option.some.inj (ht.symm.trans ht'))
      rw [hv] at hv'
      cases hv'
      rw [hk] at hk'
      cases hk'
      exact ⟨files, rfl, hf, hr, hnodes⟩

/-- **A GET of a file** answers its content. -/
theorem Exit.of_read {t c : Str} (hw : Wf handler d s) (h : Exit handler d s request s' r)
    (hm : request.method = .get) (ht : handler.checkRequestUrl request.target false = some t)
    (hl : s.files.lookup (pathOf handler t) = some (.file c)) :
    s' = s ∧ r.result = .ok ∧ r.body = c := by
  cases h with
  | refused h =>
      cases h with
      | badUrl ht' => rw [ht] at ht'; cases ht'
      | badMethod hm' => exact absurd hm hm'.2.1
      | noDirectory ht' hm' => rw [hm] at hm'; rcases hm' with ⟨hm', _⟩ | ⟨hm', _⟩ <;> cases hm'
      | absent ht' hm' hl' =>
          rw [ht] at ht'
          cases ht'
          rw [hl] at hl'
          cases hl'
      | noNumber ht' hm' | isDirectory ht' hm' | noId ht' hm' | unknown ht' hm' =>
          rw [hm] at hm'; cases hm'
  | listed hm' ht' ho =>
      rw [ht] at ht'
      cases ht'
      rw [(lookup_dir hw.home).mpr ho] at hl
      cases hl
  | read hm' ht' hwalk hq hr hb =>
      rw [ht] at ht'
      cases ht'
      rw [lookup_pathOf hw.home, hwalk, Option.bind_some, hq] at hl
      cases hl
      exact ⟨rfl, hr, hb⟩
  | stored hn | blocked hn => rcases hn.target with ⟨hm', _⟩ | ⟨hm', _⟩ <;> simp [hm] at hm'
  | bare hm' | deleted hm' => rw [hm] at hm'; cases hm'

/-- GET and DELETE are always answered. -/
theorem serve_answered (hm : request.method = .get ∨ request.method = .delete) :
    ∃ s' r, serve handler Disk.reliable s request = .ok (s', r) := by
  cases h : serve handler Disk.reliable s request with
  | ok v => exact ⟨v.1, v.2, rfl⟩
  | error f =>
      rcases serve_error h with ⟨_, hm', _⟩ | ⟨_, hm', _⟩ <;>
        (rw [hm'] at hm; rcases hm with hm | hm <;> cases hm)

theorem serve_get_file {t c : Str} (hw : Wf handler d s) (hm : request.method = .get)
    (ht : handler.checkRequestUrl request.target false = some t)
    (hl : s.files.lookup (pathOf handler t) = some (.file c)) :
    ∃ r, serve handler Disk.reliable s request = .ok (s, r) ∧ r.result = .ok ∧ r.body = c := by
  obtain ⟨s', r, hs⟩ := @serve_answered handler s request (Or.inl hm)
  obtain ⟨rfl, hr⟩ := (serve_exit hw hs).of_read hw hm ht hl
  exact ⟨r, hs, hr⟩

theorem serve_delete_file {e : Str} {x : Name} {v : Int} {ids : List Int} {c : Str}
    (hw : Wf handler d s) (hm : request.method = .delete)
    (ht : handler.checkRequestUrl request.target false = some (e ++ '/' :: x)) (hs : '/' ∉ x)
    (hv : stoi x = .ok v) (hk : s.fileToId[e]? = some ids)
    (hl : s.files.lookup (pathOf handler (e ++ '/' :: x)) = some (.file c)) :
    ∃ s' r, serve handler Disk.reliable s request = .ok (s', r) ∧ r.result = .ok := by
  obtain ⟨s', r, hsv⟩ := @serve_answered handler s request (Or.inr hm)
  obtain ⟨_, _, _, hr, _⟩ := (serve_exit hw hsv).of_deleted hw hm ht hs hv hk hl
  exact ⟨s', r, hsv, hr⟩

end Inversion

end Googolplex.Crud
