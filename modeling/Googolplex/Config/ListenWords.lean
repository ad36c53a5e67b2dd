/-
  File:      Googolplex/Config/ListenWords.lean
  Subject:   THE WORDS AFTER `listen`, and the port they set.

  * `listenWords`: these words, in the order of the file.
  * `read_listenWords`: the port that is read is that of the last of them, and
    each of them is a port.
-/
import Googolplex.Config.Frames

namespace Googolplex.Config

open Cxx Blocks

/-! ## 1. The words after `listen` -/

/-- The word, if it comes after `listen`. -/
def portWord : Option (Lexeme Str) → Lexeme Str → Option Str
  | some (.word v), .word w => if v = "listen".toList then some w else none
  | _, _ => none

/-- The words after `listen`, behind a lexeme. -/
def listenWordsFrom (last : Option (Lexeme Str)) : List (Lexeme Str) → List Str
  | [] => []
  | t :: ts => (portWord last t).toList ++ listenWordsFrom (some t) ts

/-- **The words that follow a `listen` in their statement**, in the order of the file. -/
def listenWords (ts : List (Lexeme Str)) : List Str := listenWordsFrom none ts

section

variable {last : Option (Lexeme Str)} {t : Lexeme Str} {ts : List (Lexeme Str)} {w : Str}
  {r r' : Reading}

theorem portWord_eq_some : portWord last t = some w ↔
    last = some (.word "listen".toList) ∧ t = .word w := by
  constructor
  · intro h
    unfold portWord at h
    split at h
    · split at h
      · rename_i hlisten
        cases h
        exact ⟨by rw [hlisten], rfl⟩
      · cases h
    · cases h
  · rintro ⟨rfl, rfl⟩
    show (if "listen".toList = "listen".toList then some w else none) = some w
    rw [if_pos rfl]

/-- They are the words right after a word `listen`. -/
theorem mem_listenWordsFrom : w ∈ listenWordsFrom last ts ↔
    [.word "listen".toList, .word w] <:+: last.toList ++ ts := by
  induction ts generalizing last with
  | nil =>
      refine ⟨nofun, fun h => ?_⟩
      have hlen := h.length_le
      cases last <;> simp at hlen
  | cons t ts ih =>
      have hrest : w ∈ listenWordsFrom (some t) ts ↔
          [.word "listen".toList, .word w] <:+: t :: ts := ih
      rw [listenWordsFrom, List.mem_append, hrest, Option.mem_toList, portWord_eq_some]
      cases last with
      | none => simp
      | some l =>
          have hhere : some l = some (.word "listen".toList) ∧ t = .word w ↔
              [.word "listen".toList, .word w] <+: l :: t :: ts := by
            rw [List.cons_prefix_cons, List.cons_prefix_cons]
            simp [eq_comm]
          exact (or_congr_left hhere).trans List.infix_cons_iff.symm

theorem mem_listenWords : w ∈ listenWords ts ↔ [.word "listen".toList, .word w] <:+: ts :=
  mem_listenWordsFrom

/-! ## 2. The port `Parse` sets -/

theorem pair_port (σ : Settings) (enclosing : Option (Str × Str)) (v w : Str) :
    (σ.pair enclosing v w).port =
      if v = "listen".toList then safeportSTOI w else σ.port := by
  unfold Settings.pair
  split
  · rfl
  · split
    · rfl
    · split
      · rfl
      · split <;> rfl

theorem emptied_port (σ : Settings) (enclosing : Option (Str × Str)) :
    (σ.emptied enclosing).port = σ.port := by
  rcases enclosing with _ | ⟨location, handlerType⟩ <;> rfl

/-- **One lexeme sets the port** to that of a word after `listen`, which must be one. -/
theorem step_portWord (hs : r.step t = some r') :
    r'.settings.port = ((portWord r.last t).map safeportSTOI).getD r.settings.port ∧
      ∀ w, portWord r.last t = some w → safeportSTOI w ≠ -1 := by
  cases t with
  | word w =>
      by_cases hlast : ∃ v, r.last = some (.word v)
      · obtain ⟨v, hv⟩ := hlast
        rw [Reading.step_further hv] at hs
        split at hs
        · rename_i hport
          cases hs
          rw [hv, pair_port]
          by_cases hlisten : v = "listen".toList
          · simp only [portWord, if_pos hlisten, Option.map_some, Option.getD_some,
              Option.some.injEq, forall_eq', true_and]
            exact hport hlisten
          · rw [if_neg hlisten]
            simp only [portWord, if_neg hlisten]
            exact ⟨rfl, nofun⟩
        · cases hs
      · rw [Reading.step_first fun v hv => hlast ⟨v, hv⟩] at hs
        cases hs
        have hnone : portWord r.last (.word w) = none := by
          rw [Option.eq_none_iff_forall_ne_some]
          intro u hu
          exact hlast ⟨_, (portWord_eq_some.mp hu).1⟩
        rw [hnone]
        exact ⟨rfl, nofun⟩
  | semi =>
      obtain ⟨_, rfl⟩ := Reading.step_semi.mp hs
      rcases r.last with _ | (v | _ | _ | _) <;> simp [portWord]
  | opn =>
      obtain ⟨ss, tokens, c, hfocus⟩ := Reading.step_opn_isSome hs
      rw [Reading.step_opn hfocus] at hs
      cases hs
      rcases r.last with _ | (v | _ | _ | _) <;> simp [portWord]
  | cls =>
      obtain ⟨l, f, fs, hlast, hl, hf⟩ := Reading.step_cls_isSome hs
      rw [Reading.step_cls hlast hl hf] at hs
      cases hs
      rw [hlast]
      refine ⟨?_, by cases l <;> simp [portWord]⟩
      have hnone : portWord (some l) .cls = none := by cases l <;> rfl
      rw [hnone]
      dsimp only
      split
      · exact emptied_port _ _
      · rfl

/-- **The port that is read** is that of the last word after `listen`, and all of them are ports. -/
theorem read_listenWords (hr : r.read ts = some r') :
    r'.settings.port = ((listenWordsFrom r.last ts).getLast?.map safeportSTOI).getD r.settings.port ∧
      ∀ w ∈ listenWordsFrom r.last ts, safeportSTOI w ≠ -1 := by
  induction ts generalizing r with
  | nil =>
      cases hr
      exact ⟨rfl, nofun⟩
  | cons t ts ih =>
      rw [Reading.read_cons] at hr
      obtain ⟨r1, hs, hrest⟩ := Option.bind_eq_some_iff.mp hr
      obtain ⟨hport, hword⟩ := step_portWord hs
      obtain ⟨hport', hwords⟩ := ih hrest
      rw [Reading.step_last hs] at hport' hwords
      constructor
      · rw [hport', hport, listenWordsFrom, List.getLast?_append]
        cases (listenWordsFrom (some t) ts).getLast? with
        | some w => rfl
        | none => cases portWord r.last t <;> rfl
      · intro w hw
        rcases List.mem_append.mp hw with hw | hw
        · exact hword w (Option.mem_toList.mp hw)
        · exact hwords w hw

end

end Googolplex.Config
