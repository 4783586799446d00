import Mathlib.Data.List.DropRight
import RemoteWorkspace.Computation.WriteBack
import RemoteWorkspace.Model.Anchors

/-!
# The node registry and the repository store

`createNodeRegistry` (storage/nodes.ts) and `createRepoStore` (storage/repos.ts), after they
were loaded. Both keep a list of records in memory and one document with the same records,
which `writeDocument` (storage/document.ts) replaces as a whole: under a lock, by an atomic
write, which lands or fails and leaves the document as it was. A call computes the complete
next list from the one in memory, waits for the write, and puts its list in memory.

A generated id and the instant of a call are part of the call.
-/

set_option autoImplicit false

namespace RemoteWorkspace.Model.Stores

open RemoteWorkspace.Computation RemoteWorkspace.Computation.WriteBack

/-- The characters that `trim` takes away: white space and line ends of the language. -/
def isSpace (c : Char) : Bool :=
  decide (c.toNat ∈ [0x09, 0x0A, 0x0B, 0x0C, 0x0D, 0x20, 0xA0, 0x1680, 0x2028, 0x2029, 0x202F,
    0x205F, 0x3000, 0xFEFF] ∨ 0x2000 ≤ c.toNat ∧ c.toNat ≤ 0x200A)

/-- `trim` of the standard library. -/
def trim (text : String) : String :=
  String.ofList ((text.toList.dropWhile isSpace).rdropWhile isSpace)

/-- The text of an optional field, trimmed, or another text when there is none. -/
def givenOr (text : Option String) (other : String) : String :=
  if trim (text.getD "") = "" then other else trim (text.getD "")

/-! ### Nodes -/

/-- `NodeTransport`. -/
inductive NodeTransport where
  | ssh (target : String) (sshPort : Option ℕ) (identityFile : Option String)
  | local
  | direct (host : String) (port : ℕ)
  deriving DecidableEq

/-- `NodeRecord`. -/
structure NodeRecord where
  nodeId : String
  title : String
  transport : NodeTransport
  token : String
  createdAt : String
  updatedAt : String
  deriving DecidableEq

/-- `NodeDraft`. -/
structure NodeDraft where
  nodeId : Option String
  title : Option String
  transport : NodeTransport
  token : String
  deriving DecidableEq

/-- `LOCAL_NODE_ID`. -/
def localNodeId : String := "local"

/-- `LOCAL_TITLE`. -/
def localTitle : String := "Local"

/-- `defaultNodeTitle`. -/
def defaultNodeTitle : NodeTransport → String
  | .local => localTitle
  | .ssh target _ _ => target
  | .direct host port => host ++ ":" ++ toString port

/-- A call on the node registry. -/
inductive NodeCall where
  | upsert (draft : NodeDraft) (generated stamp : String)
  | remove (nodeId : String)
  deriving DecidableEq

/-- What a call on the node registry answers. -/
inductive NodeAnswer where
  | stored (record : NodeRecord)
  | removed (removed : Bool)
  deriving DecidableEq

/-- The record of an upsert, where `existing` is the one it updates. -/
def nodeRecordOf (draft : NodeDraft) (existing : Option NodeRecord) (generated stamp : String) :
    NodeRecord where
  nodeId := (existing.map NodeRecord.nodeId).getD (draft.nodeId.getD generated)
  title := givenOr draft.title (defaultNodeTitle draft.transport)
  transport := draft.transport
  token := draft.token
  createdAt := (existing.map NodeRecord.createdAt).getD stamp
  updatedAt := stamp

/-- `upsert` and `remove` of the node registry, up to the write. -/
def nodeEffect : NodeCall → List NodeRecord → Outcome (List NodeRecord) NodeAnswer
  | .upsert draft generated stamp, nodes =>
    if draft.nodeId = some localNodeId then
      .refused "the local machine is built in and cannot be configured"
    else
      let existing := draft.nodeId.bind fun nodeId =>
        nodes.find? fun node => decide (node.nodeId = nodeId)
      let record := nodeRecordOf draft existing generated stamp
      let next :=
        if existing = none then nodes ++ [record]
        else nodes.map fun node => if node.nodeId = record.nodeId then record else node
      .changed (.stored record) next
  | .remove nodeId, nodes =>
    if nodeId = localNodeId then .unchanged (.removed false)
    else
      let next := nodes.filter fun node => decide (node.nodeId ≠ nodeId)
      if next.length = nodes.length then .unchanged (.removed false)
      else .changed (.removed true) next

/-! ### Repositories -/

/-- `RepoRecord`. -/
structure RepoRecord where
  repoId : String
  nodeId : String
  repoPath : String
  name : String
  createdAt : String
  deriving DecidableEq

/-- `RepoDraft`. -/
structure RepoDraft where
  repoId : Option String
  nodeId : String
  repoPath : String
  name : Option String
  deriving DecidableEq

/-- `defaultRepoName`. -/
def defaultRepoName (repoPath : String) : String := Anchors.basename repoPath

/-- A call on the repository store. -/
inductive RepoCall where
  | upsert (draft : RepoDraft) (generated stamp : String)
  | remove (repoId : String)
  | removeByNode (nodeId : String)
  deriving DecidableEq

/-- What a call on the repository store answers. -/
inductive RepoAnswer where
  | stored (record : RepoRecord)
  | removed (removed : Bool)
  | count (removed : ℕ)
  deriving DecidableEq

/-- The name that a registration of the same path keeps. -/
def keptName (draft : RepoDraft) (existing : Option RepoRecord) : String :=
  ((existing.filter fun repo => decide (repo.repoPath = draft.repoPath)).map RepoRecord.name).getD ""

/-- The record of an upsert, where `existing` is the one it updates. -/
def repoRecordOf (draft : RepoDraft) (existing : Option RepoRecord) (generated stamp : String) :
    RepoRecord where
  repoId := (existing.map RepoRecord.repoId).getD (draft.repoId.getD generated)
  nodeId := draft.nodeId
  repoPath := draft.repoPath
  name := givenOr draft.name
    (if keptName draft existing = "" then defaultRepoName draft.repoPath
      else keptName draft existing)
  createdAt := (existing.map RepoRecord.createdAt).getD stamp

/-- `upsert`, `remove` and `removeByNode` of the repository store, up to the write. -/
def repoEffect : RepoCall → List RepoRecord → Outcome (List RepoRecord) RepoAnswer
  | .upsert draft generated stamp, repos =>
    let existing := draft.repoId.bind fun repoId =>
      repos.find? fun repo => decide (repo.repoId = repoId)
    let record := repoRecordOf draft existing generated stamp
    let next :=
      if existing = none then repos ++ [record]
      else repos.map fun repo => if repo.repoId = record.repoId then record else repo
    .changed (.stored record) next
  | .remove repoId, repos =>
    let next := repos.filter fun repo => decide (repo.repoId ≠ repoId)
    if next.length = repos.length then .unchanged (.removed false)
    else .changed (.removed true) next
  | .removeByNode nodeId, repos =>
    let next := repos.filter fun repo => decide (repo.nodeId ≠ nodeId)
    let removed := repos.length - next.length
    if removed = 0 then .unchanged (.count 0)
    else .changed (.count removed) next

/-! ### The stores -/

/-- The node registry over a document with these records. -/
abbrev nodeRegistry (nodes : List NodeRecord) :
    Machine (State NodeCall (List NodeRecord)) (Event NodeCall) :=
  WriteBack.machine nodeEffect nodes

/-- The repository store over a document with these records. -/
abbrev repoStore (repos : List RepoRecord) :
    Machine (State RepoCall (List RepoRecord)) (Event RepoCall) :=
  WriteBack.machine repoEffect repos

end RemoteWorkspace.Model.Stores
