import RemoteWorkspace.Computation.Segments
import RemoteWorkspace.Computation.Symlinks
import RemoteWorkspace.Model.FsText

/-!
# The canonical path of a request

`resolve` and `canonical_target` (agent/src/fs.rs): the daemon's only identity of a target is
the path that the operating system gives it, with every link followed. What does not exist yet
is named through its deepest ancestor that does.
-/

set_option autoImplicit false

namespace RemoteWorkspace.Model.FsPaths

open RemoteWorkspace.Computation RemoteWorkspace.Computation.Symlinks
open RemoteWorkspace.Model.FsText

/-- A place in a file system, as the names that lead to it. -/
abbrev Place := List (List Char)

/-- A name that an entry of a directory can have. -/
def IsName (name : List Char) : Prop :=
  name ≠ [] ∧ name ≠ ['.'] ∧ name ≠ ['.', '.'] ∧ '/' ∉ name

instance (name : List Char) : Decidable (IsName name) := by
  unfold IsName
  infer_instance

/-- The place that an absolute path spells out. -/
def placeOf (path : String) : Place := segments '/' path.toList

/-- The absolute path that spells out a place. -/
def pathOf (place : Place) : String := String.ofList ('/' :: ['/'].intercalate place)

/-- What `fs::canonicalize` fails with. -/
def errnoOf : Stop → Errno
  | .missing => .noent
  | .notDirectory => .notdir
  | .denied => .acces
  | .loop => .other "Too many levels of symbolic links (os error 40)"

/-- The loop of `canonical_target`: an ancestor, its last name first, and the names that are
missing below it. -/
def canonicalAncestor (fs : FileSystem (List Char)) (verb path : String) :
    (ancestor : List (List Char)) → (missing : Place) → Except Failure String
  | ancestor, missing =>
    match canonicalize fs ancestor.reverse with
    | .ok canonical => .ok (pathOf (canonical ++ missing))
    | .error stop =>
      if errnoOf stop = .noent ∨ errnoOf stop = .notdir then
        match ancestor with
        | [] => .ok path
        | name :: parent => canonicalAncestor fs verb path parent (name :: missing)
      else .error (ioFailure verb (pathOf ancestor.reverse) (errnoOf stop))

/-- `canonical_target`: a requested path through its deepest existing ancestor. -/
def canonicalTarget (fs : FileSystem (List Char)) (verb path : String) : Except Failure String :=
  match canonicalize fs (placeOf path) with
  | .ok canonical => .ok (pathOf canonical)
  | .error stop =>
    if errnoOf stop = .notdir then .error (notFound verb path)
    else if errnoOf stop ≠ .noent then .error (ioFailure verb path (errnoOf stop))
    else
      match (placeOf path).reverse with
      | [] => .ok path
      | name :: parent => canonicalAncestor fs verb path parent [name]

/-- `resolve`. -/
def resolve (fs : FileSystem (List Char)) (root : Option String) (path : String) :
    Except Failure String := do
  let absolute ← absolutePath "resolve" path root
  canonicalTarget fs "resolve" absolute

end RemoteWorkspace.Model.FsPaths
