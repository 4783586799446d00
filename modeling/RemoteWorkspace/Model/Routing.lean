import Mathlib.Tactic.Common
import RemoteWorkspace.Model.PosixPath

/-!
# Route classification

`classifyPath` decides which execution world a path belongs to, from the anchors this
host holds: a local anchor directory that stands for a root on a node, or the path the
root has on the node itself.
-/

set_option autoImplicit false

namespace RemoteWorkspace.Model.Routing

open RemoteWorkspace.Model

/-- Names a machine (`NodeId`). -/
abbrev NodeId := String

/-- What routing needs to know of one anchor. -/
structure AnchorRoute where
  nodeId : NodeId
  anchorPath : String
  remoteRoot : String
  deriving DecidableEq

/-- Where one path resolves to. -/
inductive Route where
  | localHost
  | remote (nodeId : NodeId) (remotePath : String)
  | ambiguous (remotePath : String) (nodeIds : List NodeId)
  deriving DecidableEq

/-- What an ambiguous path is refused with. -/
def ambiguousPathMessage (remotePath : String) (nodeIds : List NodeId) : String :=
  "\"" ++ remotePath ++ "\" belongs to more than one node (" ++ ", ".intercalate nodeIds ++
    "); address it as node:<id>:<path>"

/-- The `EXPLICIT` pattern: `node:`, an id with neither colon nor slash, a colon and an
absolute path. The result is the id and the path. -/
def explicit (input : String) : Option (String × String) :=
  let chars := input.toList
  if "node:".toList.isPrefixOf chars then
    let rest := chars.drop "node:".length
    let id := rest.takeWhile fun c => c ≠ ':' ∧ c ≠ '/'
    match rest.drop id.length with
    | ':' :: '/' :: path =>
      if id = [] then none else some (String.ofList id, String.ofList ('/' :: path))
    | _ => none
  else none

/-- Whether `child` equals `parent` or lies below it, on whole segments. -/
def isWithin (parent child : String) : Bool :=
  if child = parent then true
  else
    let root := if parent.toList.getLast? = some '/' then parent else parent ++ "/"
    root.toList.isPrefixOf child.toList

/-- Make a path absolute and remove its `.` and `..` segments. -/
def toAbsolute (input : String) (cwd : Option String) : String :=
  -- Windows separators reach classification when the host is Windows.
  let unified := String.ofList (input.toList.map fun c => if c = '\\' then '/' else c)
  if unified.toList.head? = some '/' then PosixPath.normalize unified
  else PosixPath.normalize (PosixPath.join [cwd.getD "/", unified])

/-- Classify one path against the live anchors: the explicit spelling, then the anchor
directories, then a remote root one anchor claims, then this host. -/
def classifyPath (input : String) (cwd : Option String) (anchors : List AnchorRoute) : Route :=
  match explicit input with
  | some (id, path) => .remote id (PosixPath.normalize path)
  | none =>
    let absolute := toAbsolute input cwd
    match anchors.find? fun anchor => isWithin anchor.anchorPath absolute with
    | some anchor =>
      let suffix := String.ofList (absolute.toList.drop anchor.anchorPath.length)
      .remote anchor.nodeId (PosixPath.join [anchor.remoteRoot, suffix])
    | none =>
      match anchors.filter fun anchor => isWithin anchor.remoteRoot absolute with
      | [anchor] => .remote anchor.nodeId absolute
      | [] => .localHost
      | claiming => .ambiguous absolute (claiming.map AnchorRoute.nodeId)

end RemoteWorkspace.Model.Routing
