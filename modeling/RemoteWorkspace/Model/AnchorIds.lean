import RemoteWorkspace.Computation.Base64
import RemoteWorkspace.Computation.Segments
import RemoteWorkspace.Computation.Utf8

/-!
# The ids of rows that no record holds

A checkout or directory of this host, and a checkout that a machine's git reports and nothing
holds yet, are addressed by an id that is derived from what it names (models/worktrees.ts).
-/

set_option autoImplicit false

namespace RemoteWorkspace.Model.AnchorIds

open RemoteWorkspace.Computation

/-- `encodePart`: one URL-safe encoding of a value, for composing a derived id. -/
def encodePart (value : String) : String :=
  String.ofList (Base64.encodeUrl (Utf8.encode value.toList))

/-- `decodePart`: the inverse of `encodePart`. -/
def decodePart (value : String) : String :=
  String.ofList (Utf8.decode (Base64.decode value.toList))

/-- `LOCAL_ID_PREFIX`: marks an id as naming a path on this host. -/
def localIdPrefix : String := "local:"

/-- `REMOTE_ID_PREFIX`: marks an id as naming a checkout git reports on a machine. -/
def remoteIdPrefix : String := "remote:"

/-- What an id of this host names. -/
inductive LocalKind where
  | worktree
  | directory
  deriving DecidableEq

/-- `localAnchorId`: the id one local path is addressed by. -/
def localAnchorId (kind : LocalKind) (path repoPath : String) : String :=
  match kind with
  | .directory => localIdPrefix ++ "directory:" ++ encodePart path
  | .worktree => localIdPrefix ++ "worktree:" ++ encodePart path ++ ":" ++ encodePart repoPath

/-- `remoteAnchorId`: the id one machine's git-reported checkout is addressed by before it is
held. -/
def remoteAnchorId (nodeId repoPath path : String) : String :=
  remoteIdPrefix ++ encodePart nodeId ++ ":" ++ encodePart repoPath ++ ":" ++ encodePart path

/-- The coordinates that a git-reported id carries. -/
structure Coordinates where
  nodeId : String
  repoPath : String
  path : String
  deriving DecidableEq

/-- `parseRemoteAnchorId`: the first three parts of what follows the prefix. -/
def parseRemoteAnchorId (value : String) : Option Coordinates :=
  if remoteIdPrefix.toList <+: value.toList then
    match (value.toList.drop remoteIdPrefix.toList.length).splitOn ':' with
    | node :: repo :: path :: _ =>
      some ⟨decodePart (String.ofList node), decodePart (String.ofList repo),
        decodePart (String.ofList path)⟩
    | _ => none
  else none

end RemoteWorkspace.Model.AnchorIds
