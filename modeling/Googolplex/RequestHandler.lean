/-
  File:      Googolplex/RequestHandler.lean
  Subject:   `class request_handler`: the helpers all handlers share
             (request_handler.cc), on a file tree.

  * `writeToFile`, `readFromFile`, `createDir`: the file helpers. They report a
    Boolean; `writeToFile` refuses a directory and otherwise reports success
    whether or not the stream could be opened.
  * `checkRequestUrl`: what of a url lies under the handler's location.
-/
import Googolplex.Library.Posix
import Googolplex.Http

namespace Googolplex

open Cxx Posix

/-- What ends a request without a response: a C++ exception, a call of `exit`, or what C++ leaves
    undefined. -/
inductive Fault where
  | outOfRange
  | lengthError
  | signedOverflow
  | overread
  | nullPointer
  | jsonParseError
  | jsonTypeError
  | filesystemError
  | exit
  deriving DecidableEq, Repr

/-- The storage behind `std::ofstream`: what the file at a path holds after a text was written to
    it, `none` if it could not be opened. -/
abbrev Disk := Str → Str → Option Str

/-- Storage on which every write that the path allows succeeds. -/
def Disk.reliable : Disk := fun _ content => some content

/-- The members of `request_handler` the models use. -/
structure RequestHandler where
  prefix_ : Str
  dir_ : Str

namespace RequestHandler

/-! ## 1. Files -/

/-- `write_to_file`: `false` on a directory; the outcome of the stream is not looked at. -/
def writeToFile (disk : Disk) (files : FileTree) (path content : Str) : Bool × FileTree :=
  if files.lookup path = some .dir then (false, files)
  else (true, ((disk path content).bind (files.openWrite path)).getD files)

/-- `read_from_file`: `none` is `false`. On a directory the stream opens, and the length `tellg`
    reports is none a string can have. -/
def readFromFile (files : FileTree) (path : Str) : Except Fault (Option Str) :=
  match files.lookup path with
  | some (.file content) => .ok (some content)
  | some .dir => .error .lengthError
  | none => .ok none

/-- `create_dir`: `true` if the directory is there afterwards. -/
def createDir (files : FileTree) (path : Str) : Bool × FileTree :=
  if files.lookup path = some .dir then (true, files)
  else
    match files.mkdir path with
    | some files' => (true, files')
    | none => (false, files)

/-! ## 2. Urls -/

/-- `check_request_url`: the key on `true`, `none` on `false`. -/
def checkRequestUrl (handler : RequestHandler) (url : Str) (forGet : Bool) : Option Str :=
  let pre := handler.prefix_ ++ ['/']
  if pre <+: url ∧ pre.length < url.length then
    some ((url.drop pre.length).rdropWhile (· == '/'))
  else if pre <+: url ∧ url.length = pre.length ∧ forGet then some []
  else if pre = url ++ ['/'] then some []
  else none

/-- The bare location gives nothing. -/
theorem checkRequestUrl_bare (handler : RequestHandler) (forGet : Bool) :
    handler.checkRequestUrl handler.prefix_ forGet = some [] := by
  have hno : ¬ handler.prefix_ ++ ['/'] <+: handler.prefix_ := by
    intro h
    have := h.length_le
    rw [List.length_append, List.length_singleton] at this
    omega
  unfold checkRequestUrl
  rw [if_neg (fun h => hno h.1), if_neg (fun h => hno h.1), if_pos rfl]

/-- A target below the location that does not end in a slash gives what follows the location. -/
theorem checkRequestUrl_below (handler : RequestHandler) {s : Str} (forGet : Bool) (hs : s ≠ [])
    (hlast : ∀ h, s.getLast h ≠ '/') :
    handler.checkRequestUrl (handler.prefix_ ++ '/' :: s) forGet = some s := by
  have hsplit : handler.prefix_ ++ '/' :: s = (handler.prefix_ ++ ['/']) ++ s := by simp
  have hlen : 0 < s.length := List.length_pos_iff.mpr hs
  unfold checkRequestUrl
  rw [hsplit]
  simp only
  rw [if_pos ⟨List.prefix_append _ _, by simp only [List.length_append]; omega⟩, List.drop_left]
  have hstrip : s.rdropWhile (· == '/') = s := by
    rw [List.rdropWhile_eq_self_iff]
    intro h
    simpa using hlast h
  rw [hstrip]

/-- A target of a key and a last part gives both. -/
theorem checkRequestUrl_named (handler : RequestHandler) (e : Str) {x : Str} (forGet : Bool)
    (hne : x ≠ []) (hs : '/' ∉ x) :
    handler.checkRequestUrl (handler.prefix_ ++ '/' :: (e ++ '/' :: x)) forGet =
      some (e ++ '/' :: x) := by
  refine checkRequestUrl_below handler forGet (by simp) fun h hlast => ?_
  have hcons : '/' :: x ≠ [] := List.cons_ne_nil _ _
  rw [List.getLast_append_of_ne_nil h hcons, List.getLast_cons hne] at hlast
  exact hs (hlast ▸ List.getLast_mem _)

end RequestHandler

end Googolplex
