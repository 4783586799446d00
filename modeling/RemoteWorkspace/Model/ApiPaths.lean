import RemoteWorkspace.Computation.PercentEncoding
import RemoteWorkspace.Computation.Segments

/-!
# The path of an API request

`registerNodeApi` and `handleNodeApi` (plugin/api.ts): a client escapes every segment and joins
them; the adapter takes the path out of the request's target, decodes segment by segment and joins
the segments again; and the handler splits once more.
-/

set_option autoImplicit false

namespace RemoteWorkspace.Model.ApiPaths

open RemoteWorkspace.Computation

/-- A string of code units. -/
abbrev Text := List UInt16

/-- A string that is written out here. -/
def literal (s : String) : Text := Utf16.encode s.toList

/-- `/`. -/
def slash : UInt16 := 0x2F

/-- `API_PREFIX`, and its one segment. -/
def apiSegment : Text := literal "dsh-remote-workspace"

def apiPrefix : Text := slash :: apiSegment

/-! ### The client -/

/-- What `encodeURIComponent` leaves as it is: letters, digits and these marks. -/
def unreservedMarks : List Char := ['-', '_', '.', '!', '~', '*', '\'', '(', ')']

def unreserved (c : Char) : Bool :=
  ('a' ≤ c && c ≤ 'z') || ('A' ≤ c && c ≤ 'Z') || ('0' ≤ c && c ≤ '9') ||
    unreservedMarks.contains c

/-- `encodeURIComponent`, which throws at half a surrogate pair. -/
def encodeURIComponent (text : Text) : Option Text := PercentEncoding.encode unreserved text

/-- The target of a request to these segments. -/
def requestTarget (segments : List Text) : Option Text :=
  (segments.mapM encodeURIComponent).map fun escaped =>
    apiPrefix ++ slash :: [slash].intercalate escaped

/-! ### The adapter -/

/-- The spellings of one dot in a URL's path, and of two. -/
def singleDots : List Text := [literal ".", literal "%2e", literal "%2E"]

def doubleDots : List Text :=
  [literal "..", literal ".%2e", literal ".%2E", literal "%2e.", literal "%2E.",
    literal "%2e%2e", literal "%2e%2E", literal "%2E%2e", literal "%2E%2E"]

/-- The segments of a URL's path, where some have been read and some are to come. -/
def resolve : List Text → List Text → List Text
  | read, [] => read
  | read, segment :: rest =>
    -- a last segment that is dots leaves an empty one, so that the path still ends in a slash
    let ending := if rest = [] then [[]] else []
    if doubleDots.contains segment then resolve (read.dropLast ++ ending) rest
    else if singleDots.contains segment then resolve (read ++ ending) rest
    else resolve (read ++ [segment]) rest

/-- `new URL(target, base).pathname`, for a target that starts with one slash and is written in
slashes, escapes and unreserved characters. -/
def pathname (target : Text) : Text :=
  (resolve [] ((target.drop 1).splitOn slash)).flatMap (slash :: ·)

/-- `decodeURIComponent`, which throws at an escape that is not complete or is no UTF-8. -/
def decodeURIComponent (text : Text) : Option Text := PercentEncoding.decode text

/-- The path that the adapter hands on; `none` is its answer of 400. -/
def decodedPath (target : Text) : Option Text :=
  let path := (pathname target).drop apiPrefix.length
  if path = [] then some [slash]
  else ((path.splitOn slash).mapM decodeURIComponent).map [slash].intercalate

/-! ### The handler -/

/-- `request.path.split('/').filter(segment => segment !== '')`. -/
def parts (path : Text) : List Text := segments slash path

/-- What the handler splits a request to these segments into. -/
def received (segments : List Text) : Option (List Text) :=
  (requestTarget segments).bind fun target => (decodedPath target).map parts

end RemoteWorkspace.Model.ApiPaths
