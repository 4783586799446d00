import RemoteWorkspace.Model.AnchorCalls
import RemoteWorkspace.Model.RepoRequests

/-!
# Management requests over the three stores

What the requests of the management API (plugin/api.ts) and the worktree manager that they call
(models/worktrees.ts) do to the node registry, the repository store and the anchor store. The
deletion of a machine removes its record and then, when that is done, its repository records;
the deletion of a repository looks at the anchors that are held, closes the directory, and then
removes the record. Everything else is one call on one store at a time.
-/

set_option autoImplicit false

namespace RemoteWorkspace.Model.Management

open RemoteWorkspace.Computation RemoteWorkspace.Computation.WriteBack
open RemoteWorkspace.Model.Stores RemoteWorkspace.Model.Anchors RemoteWorkspace.Model.RepoRequests

/-- `localNode`. -/
def localNode : Stores.NodeRecord where
  nodeId := localNodeId
  title := localTitle
  transport := .local
  token := ""
  createdAt := "1970-01-01T00:00:00.000Z"
  updatedAt := "1970-01-01T00:00:00.000Z"

/-- `get` of the node registry. -/
def getNode (nodes : List Stores.NodeRecord) (nodeId : String) : Option Stores.NodeRecord :=
  if nodeId = localNodeId then some localNode
  else nodes.find? fun node => decide (node.nodeId = nodeId)

/-- `get` of the repository store. -/
def getRepo (repos : List RepoRecord) (repoId : String) : Option RepoRecord :=
  repos.find? fun repo => decide (repo.repoId = repoId)

/-- `isLocalNode`. -/
def isLocalNode (nodes : List Stores.NodeRecord) (nodeId : String) : Bool :=
  (getNode nodes nodeId).any fun node => decide (node.transport = .local)

/-- The stores, and the deletions that wait: of machines, with the call that removes the record,
and of repositories. -/
structure Host where
  nodes : State NodeCall (List Stores.NodeRecord)
  repos : State RepoCall (List RepoRecord)
  anchors : AnchorCalls.Calls
  nodeDeletes : List (String × ℕ)
  repoDeletes : List String

/-- Why `DELETE /nodes/:id` is refused, if it is. -/
def deleteNodeRefusal (nodes : List Stores.NodeRecord) (nodeId : String) : Option ApiError :=
  match getNode nodes nodeId with
  | none => some ⟨404, "no node \"" ++ nodeId ++ "\""⟩
  | some record =>
    if record.transport = .local then
      some ⟨400, "the local machine is built in and cannot be removed"⟩
    else none

/-- The worktree anchors that are held in a repository. -/
def worktreesIn (anchors : List AnchorRecord) (nodeId repoPath : String) : List AnchorRecord :=
  anchors.filter fun anchor =>
    decide (anchor.kind ≠ .directory ∧ anchor.nodeId = nodeId ∧ anchor.repoPath = repoPath)

/-- Why `DELETE /repos/:id` is refused, if it is; `localRows` is how many worktrees the local
git has in the repository. -/
def deleteRepoRefusal (s : Host) (repoId : String) (localRows : ℕ) : Option ApiError :=
  match getRepo s.repos.memory repoId with
  | none => some ⟨404, "no repository \"" ++ repoId ++ "\""⟩
  | some record =>
    let held :=
      if isLocalNode s.nodes.memory record.nodeId then localRows
      else (worktreesIn s.anchors.anchors record.nodeId record.repoPath).length
    if 0 < held then
      some ⟨409, toString held ++
        " worktree(s) still belong to this repository; remove them first"⟩
    else none

/-- What happens next: a machine is stored, or a call on the registry goes on; a machine's
deletion begins, and goes on to its repositories; a repository is stored, or a call on that
store goes on; a repository's deletion passes its check, and goes on to the record; a call on
the anchor store. -/
inductive Event where
  | nodes (e : WriteBack.Event NodeCall)
  | deleteNode (nodeId : String)
  | nodeDeleted (i : ℕ)
  | repos (e : WriteBack.Event Request)
  | deleteRepo (repoId : String) (localRows : ℕ)
  | repoClosed (i : ℕ)
  | anchors (e : AnchorCalls.Event)
  deriving DecidableEq

/-- A call on the registry that a machine's deletion does not make. -/
def storesNode : WriteBack.Event NodeCall → Bool
  | .begin (.remove _) => false
  | _ => true

/-- A call on the repository store that no deletion makes. -/
def storesRepo : WriteBack.Event Request → Bool
  | .begin (.delete _) => false
  | .begin (.deleteNode _) => false
  | _ => true

/-- One uninterrupted piece of a request. -/
def step (root : String) (s : Host) : Event → Option Host
  | .nodes e =>
    if storesNode e then
      (WriteBack.step nodeEffect s.nodes e).map fun nodes => { s with nodes := nodes }
    else none
  | .deleteNode nodeId =>
    if (deleteNodeRefusal s.nodes.memory nodeId).isSome then some s
    else
      (WriteBack.step nodeEffect s.nodes (.begin (.remove nodeId))).map fun nodes =>
        { s with
          nodes := nodes
          nodeDeletes := s.nodeDeletes ++ [(nodeId, s.nodes.calls.length)] }
  | .nodeDeleted i =>
    (s.nodeDeletes[i]?).bind fun d =>
      if (s.nodes.calls[d.2]?).any fun call => decide (call.phase = .assigned) then
        (RepoRequests.step s.repos (.begin (.deleteNode d.1))).map fun repos =>
          { s with
            repos := repos
            nodeDeletes := s.nodeDeletes.eraseIdx i }
      else none
  | .repos e =>
    if storesRepo e then
      (RepoRequests.step s.repos e).map fun repos => { s with repos := repos }
    else none
  | .deleteRepo repoId localRows =>
    if (deleteRepoRefusal s repoId localRows).isSome then some s
    else some { s with repoDeletes := s.repoDeletes ++ [repoId] }
  | .repoClosed i =>
    (s.repoDeletes[i]?).bind fun repoId =>
      (RepoRequests.step s.repos (.begin (.delete repoId))).map fun repos =>
        { s with
          repos := repos
          repoDeletes := s.repoDeletes.eraseIdx i }
  | .anchors e => (AnchorCalls.step root s.anchors e).map fun anchors => { s with anchors := anchors }

/-- Requests over stores that were loaded. -/
def machine {before : String → String → Bool} {root : String} (nodes : List Stores.NodeRecord)
    (repos : List RepoRecord) (loaded : Loaded before root) : Machine Host Event :=
  ⟨⟨⟨nodes, nodes, []⟩, ⟨repos, repos, []⟩, (AnchorCalls.machine loaded).init, [], []⟩, step root⟩

/-- What `randomUUID` gives for a repository: an id that no record has. -/
def FreshId (s : Host) : Event → Prop
  | .repos e => RepoRequests.FreshId s.repos e
  | _ => True

instance (s : Host) (e : Event) : Decidable (FreshId s e) := by
  cases e <;> unfold FreshId <;> infer_instance

end RemoteWorkspace.Model.Management
