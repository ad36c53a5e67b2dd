/-
  File:      Googolplex/Session/Reception.lean
  Subject:   WHAT THE PARSER SEES OF A READ.

  `parse_request` is told how many bytes were read, and makes a string of the
  buffer without that number: up to the first zero, wherever it is.

  * `handed`: the text that `put` is called with; `parseRequest_handed`: the rest
    of `parse_request`.
  * `handed_iff`: when that is the bytes of the read.
  * `parser_sees_iff`: the same for all reads of a connection.
-/
import Googolplex.Session.Segments

namespace Googolplex

open Cxx Machine

/-! ## 1. One read -/

/-- The text `parse_request` hands to `put`; `none` if the length is refused. -/
def handed (requestData : Buffer) (dataLen : Int) : Except Fault (Option Str) :=
  if dataLen < 0 ∨ dataLen > maxLength then .ok none
  else
    match requestData.string with
    | .error f => .error f
    | .ok text => .ok (some text)

/-- **`parse_request` makes its request of that text** and of nothing else. -/
theorem parseRequest_handed (beast : Beast) (requestData : Buffer) (dataLen : Int) :
    parseRequest beast requestData dataLen = (handed requestData dataLen).map fun text =>
      text.bind fun text =>
        if (beast.put text).ec ≠ none then none else some (beast.put text).message := by
  unfold parseRequest handed
  by_cases hlen : dataLen < 0 ∨ dataLen > maxLength
  · rw [if_pos hlen, if_pos hlen]
    rfl
  · rw [if_neg hlen, if_neg hlen]
    cases requestData.string with
    | error f => rfl
    | ok text =>
        dsimp only [Except.map, Option.bind_some]
        split <;> rfl

section

variable {World : Type} {server : Server World} {world : World} {read : Read} {reads : List Read}

/-- What is behind a buffer that is full and holds no zero is looked at too. -/
theorem handed_full (hlen : read.bytes.length = maxLength) (hzero : '\x00' ∉ read.bytes) :
    handed (Buffer.zero.fill read) read.bytes.length = .error .overread := by
  have hchars : (Buffer.zero.fill read).chars = read.bytes := by
    show read.bytes ++ (List.replicate maxLength '\x00').drop read.bytes.length = _
    rw [hlen, List.drop_replicate, Nat.sub_self, List.replicate_zero, List.append_nil]
  unfold handed Buffer.string
  rw [if_neg (by omega), hchars, if_neg hzero]

/-- What is handed over holds no zero. -/
theorem not_mem_handed {requestData : Buffer} {dataLen : Int} {text : Str}
    (h : handed requestData dataLen = .ok (some text)) : '\x00' ∉ text := by
  unfold handed Buffer.string at h
  split at h
  · cases h
  · split at h
    · cases h
    · rename_i text' hs
      cases h
      split at hs
      · cases hs
        intro hmem
        simpa using List.mem_takeWhile_imp hmem
      · cases hs

/-- **When the text is the bytes of the read**: if none of them is a zero, and they leave room for
    one. -/
theorem handed_iff : handed (Buffer.zero.fill read) read.bytes.length = .ok (some read.bytes) ↔
    read.bytes.length < maxLength ∧ '\x00' ∉ read.bytes := by
  constructor
  · intro h
    have hzero := not_mem_handed h
    refine ⟨Nat.lt_of_le_of_ne read.fits fun hfull => ?_, hzero⟩
    rw [handed_full hfull hzero] at h
    cases h
  · intro ⟨hlen, hzero⟩
    unfold handed
    rw [if_neg (by omega), string_fill hlen hzero]

/-- The buffer is cleared before the next read. -/
theorem handleRead_inData {session session' : Session World} {reply : Str}
    (h : handleRead server session read = .ok (session', reply)) : session'.inData = Buffer.zero := by
  unfold handleRead at h
  dsimp only at h
  split at h
  · cases h
  · cases h
    rfl

/-! ## 2. A connection -/

/-- **The parser sees exactly the bytes of a read**: none is cut off, none is left over from an
    earlier one, and nothing outside the buffer is looked at. -/
def Sees (session : Session World) (read : Read) : Prop :=
  handed (session.inData.fill read) read.bytes.length = .ok (some read.bytes)

/-- The read holds no zero, and does not fill the buffer. -/
def Terminated (read : Read) : Prop := read.bytes.length < maxLength ∧ '\x00' ∉ read.bytes

/-- **When the parser sees exactly the bytes that were read**, in all reads of a connection: if each
    read that comes about holds no zero and does not fill the buffer. -/
theorem parser_sees_iff (server : Server World) (world : World) (reads : List Read) :
    Along (handleRead server) Sees ⟨world, Buffer.zero⟩ reads ↔
      Along (handleRead server) (fun _ read => Terminated read) ⟨world, Buffer.zero⟩ reads := by
  have hstep : ∀ (session : Session World) (read : Read) session' reply,
      session.inData = Buffer.zero → handleRead server session read = .ok (session', reply) →
        session'.inData = Buffer.zero := fun _ _ _ _ _ h => handleRead_inData h
  have hsees : ∀ (session : Session World) (read : Read), session.inData = Buffer.zero →
      (Sees session read ↔ Terminated read) := by
    intro session read hsession
    unfold Sees
    rw [hsession]
    exact handed_iff
  exact along_congr hstep hsees rfl

end

/-! ## 3. A zero in a body -/

/-- `POST /api/e` with a body of three bytes, the second of them zero. -/
def readZero : Read where
  bytes := "POST /api/e HTTP/1.1\r\nContent-Length: 3\r\n\r\nA\x00B".toList
  nonempty := by decide
  fits := by decide

/-- **A zero in a body** cuts off what comes after it. -/
theorem zero_cuts_body :
    ¬ Along (handleRead apiServer) Sees ⟨Crud.apiStart, Buffer.zero⟩ [readZero] := by
  intro h
  have hzero := (handed_iff.mp h.1).2
  exact hzero (by decide)

end Googolplex
