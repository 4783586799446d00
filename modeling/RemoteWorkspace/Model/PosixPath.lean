import Mathlib.Tactic.Common

/-!
# POSIX path joining

`posix.join` and `posix.normalize` of the Node standard library, on the characters of
a path. Joining drops empty arguments and normalizes what is left; normalizing drops
empty and `.` segments and lets a `..` take back the segment before it.
-/

set_option autoImplicit false

namespace RemoteWorkspace.Model.PosixPath

/-- One segment of a path read from the left, given the segments kept so far: a `..`
above the root of an absolute path is dropped, above a relative one it is kept. -/
def normalizeSegment (allowAboveRoot : Bool) (kept : List (List Char)) (segment : List Char) :
    List (List Char) :=
  if segment = [] ∨ segment = ['.'] then kept
  else if segment = ['.', '.'] then
    match kept.getLast? with
    | some last => if last = ['.', '.'] then kept ++ [segment] else kept.dropLast
    | none => if allowAboveRoot then [segment] else []
  else kept ++ [segment]

/-- `posix.normalize`. -/
def normalize (path : String) : String :=
  let chars := path.toList
  let isAbsolute := chars.head? = some '/'
  let trailingSeparator := chars.getLast? = some '/'
  let body := ['/'].intercalate
    ((chars.splitOn '/').foldl (normalizeSegment (!isAbsolute)) [])
  if chars = [] then "."
  else if body = [] then
    if isAbsolute then "/" else if trailingSeparator then "./" else "."
  else String.ofList ((if isAbsolute then ['/'] else []) ++ body ++
    (if trailingSeparator then ['/'] else []))

/-- `posix.join`. -/
def join (args : List String) : String :=
  let joined := String.intercalate "/" (args.filter (· ≠ ""))
  if joined = "" then "." else normalize joined

example : join ["/home/dev/", ".dsh", "../x", "", "y"] = "/home/dev/x/y" := by decide +kernel

end RemoteWorkspace.Model.PosixPath
