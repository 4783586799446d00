import RemoteWorkspace.Model.FsText
import RemoteWorkspace.Model.Routing

/-!
# Target keys, and what a remote write is allowed

`composeKey`, `parseKey` and `contains` (plugin/routing/fs.ts): the keys by which the routing
file system names what it has resolved on a machine.

`remoteWriteAllowed`, `anchorFor` and `requireRemoteWrite`: no sandbox confines a machine, so the
routing file system checks each write itself, against the policy of the call and the remote roots
that the anchors speak of.
-/

set_option autoImplicit false

namespace RemoteWorkspace.Model.RoutingFs

open RemoteWorkspace.Model.FsText (Failure)
open RemoteWorkspace.Model.Routing

/-- `TARGET_KEY_PREFIX`. -/
def targetKeyPrefix : String := "node:"

/-- `composeKey`. -/
def composeKey (nodeId remotePath : String) : String :=
  targetKeyPrefix ++ nodeId ++ ":" ++ remotePath

/-- A target key, decomposed (`ParsedKey`). -/
inductive ParsedKey where
  | localHost
  | remote (nodeId remotePath : String)
  deriving DecidableEq

/-- `parseKey`. -/
def parseKey (key : String) : ParsedKey :=
  let raw := key.toList
  if targetKeyPrefix.toList.isPrefixOf raw then
    let rest := raw.drop targetKeyPrefix.length
    let separator := rest.idxOf ':'
    -- without a colon `indexOf` is `-1`
    if ':' ∉ rest ∨ separator = 0 ∨ (rest.drop (separator + 1)).head? ≠ some '/' then .localHost
    else .remote (String.ofList (rest.take separator)) (String.ofList (rest.drop (separator + 1)))
  else .localHost

/-- `contains`, given that of the local file system. -/
def contains (localContains : String → String → Bool) (parent child : String) : Bool :=
  match parseKey parent, parseKey child with
  | .localHost, .localHost => localContains parent child
  | .localHost, .remote _ _ => false
  | .remote _ _, .localHost => false
  | .remote nodeId remotePath, .remote nodeId' remotePath' =>
    decide (nodeId = nodeId') && isWithin remotePath remotePath'

/-- `SandboxMode`, the part of an execution policy that remote writes are checked by. -/
inductive SandboxMode where
  | dangerFullAccess
  | readOnly
  | workspaceWrite
  deriving DecidableEq

/-- The mode as a policy names it. -/
def SandboxMode.text : SandboxMode → String
  | .dangerFullAccess => "danger-full-access"
  | .readOnly => "read-only"
  | .workspaceWrite => "workspace-write"

/-- `REMOTE_TEMP_ROOT`. -/
def remoteTempRoot : String := "/tmp"

/-- `remoteWriteAllowed`: whether the resolved policy permits writing a path on a node. -/
def remoteWriteAllowed (policy : Option SandboxMode) (remotePath : String)
    (remoteRoot : Option String) : Bool :=
  match policy with
  | none => true
  | some .dangerFullAccess => true
  | some .readOnly => false
  | some .workspaceWrite =>
    isWithin remoteTempRoot remotePath || remoteRoot.any fun root => isWithin root remotePath

/-- `anchorFor`: the anchor whose remote root owns a path, when one does. -/
def anchorFor (anchors : List AnchorRoute) (nodeId remotePath : String) : Option AnchorRoute :=
  anchors.find? fun anchor =>
    decide (anchor.nodeId = nodeId) && isWithin anchor.remoteRoot remotePath

/-- `requireRemoteWrite`: refuse a remote mutation that the policy of the call does not allow. -/
def requireRemoteWrite (anchors : List AnchorRoute) (nodeId remotePath verb : String)
    (policy : Option SandboxMode) : Except Failure Unit :=
  if remoteWriteAllowed policy remotePath
      ((anchorFor anchors nodeId remotePath).map AnchorRoute.remoteRoot) then .ok ()
  else
    .error ⟨"FS_SANDBOX_DENIED", "remote " ++ verb ++ " denied by the " ++
      (policy.map SandboxMode.text).getD "undefined" ++ " policy: " ++ remotePath⟩

end RemoteWorkspace.Model.RoutingFs
