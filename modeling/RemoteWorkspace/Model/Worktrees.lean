import RemoteWorkspace.Computation.Calls
import RemoteWorkspace.Model.AnchorCalls
import RemoteWorkspace.Model.AnchorIds
import RemoteWorkspace.Model.RepoRequests

/-!
# The worktree manager

`createWorktreeManager` (models/worktrees.ts): rows for the checkouts and directories that this
host can open, and the calls that create, adopt, open, close, release and remove them. Each call
is a chain of awaits; what an await answers is taken from the world around the manager: the
daemons, git and the file system of this host, the workspace registry, the disk of the two
stores. What a call did in that world is kept as its history.
-/

set_option autoImplicit false

namespace RemoteWorkspace.Model.Worktrees

open RemoteWorkspace.Computation RemoteWorkspace.Computation.Calls
open RemoteWorkspace.Model.Anchors RemoteWorkspace.Model.AnchorCalls RemoteWorkspace.Model.AnchorIds
open RemoteWorkspace.Model.Stores RemoteWorkspace.Model.RepoRequests

/-! ### Rows and failures -/

/-- What a row shows: a checkout and its branch, and how the plugin came to hold it where a
record says so; or a repository directory. -/
inductive EntryKind where
  | worktree (branch : String) (origin : Option Origin)
  | directory
  deriving DecidableEq

/-- `AnchorRecord`, as rows show it: also what git reports and nothing holds. -/
structure Entry where
  anchorId : String
  nodeId : String
  name : String
  repoPath : String
  anchorPath : String
  remoteRoot : String
  createdAt : String
  kind : EntryKind
  deriving DecidableEq

/-- A held record as a row shows it. -/
def entryOf (record : AnchorRecord) : Entry where
  anchorId := record.anchorId
  nodeId := record.nodeId
  name := record.name
  repoPath := record.repoPath
  anchorPath := record.anchorPath
  remoteRoot := record.remoteRoot
  createdAt := record.createdAt
  kind := match record.kind with
    | .worktree branch origin => .worktree branch (some origin)
    | .directory => .directory

/-- `WorktreeStatus`. -/
structure WorktreeStatus where
  anchor : Entry
  isOpen : Bool
  managed : Bool
  held : Bool
  error : Option String
  deriving DecidableEq

/-- `ExistingWorktree`. -/
structure ExistingWorktree where
  path : String
  name : String
  branch : String
  registered : Bool
  deriving DecidableEq

/-- Why a call rejects: what the world answered, or a refusal of the manager itself. -/
inductive Failure where
  | outside (message : String)
  | offline (nodeId : String)
  | owned (anchorPath : String)
  | notARepository (repoPath : String)
  | notAWorktreeOf (path repoPath : String)
  | noLocalCheckout (path : String)
  | noWorktree (anchorId : String)
  | noAnchor (anchorId : String)
  | repositoryDirectory (name : String)
  | noRepository (repoPath : String)
  | noRegistryForWorktree
  | noRegistryForDirectory
  deriving DecidableEq

/-- The text of a rejection. -/
def Failure.message : Failure → String
  | .outside message => message
  | .offline nodeId => "remote node \"" ++ nodeId ++ "\" is not connected"
  | .owned anchorPath => "an anchor already owns " ++ anchorPath
  | .notARepository repoPath => "\"" ++ repoPath ++ "\" is not a git repository on this machine"
  | .notAWorktreeOf path repoPath =>
    "\"" ++ path ++ "\" is not a worktree of \"" ++ repoPath ++ "\" on that machine"
  | .noLocalCheckout path => "no local checkout \"" ++ path ++ "\""
  | .noWorktree anchorId => "no worktree \"" ++ anchorId ++ "\" on this machine"
  | .noAnchor anchorId => "no anchor \"" ++ anchorId ++ "\""
  | .repositoryDirectory name =>
    "\"" ++ name ++ "\" is the repository directory, not a worktree; close it instead"
  | .noRepository repoPath => "no repository record for \"" ++ repoPath ++ "\""
  | .noRegistryForWorktree =>
    "this deployment composes no workspace registry, so a worktree cannot be opened"
  | .noRegistryForDirectory =>
    "this deployment composes no workspace registry, so a directory cannot be opened"

/-! ### The world -/

/-- `WireWorktree`, in what the manager reads of it. -/
structure WireWorktree where
  path : String
  branch : Option String
  main : Bool
  deriving DecidableEq

/-- `LocalWorktree`, in what the manager reads of it. -/
structure LocalWorktree where
  path : String
  branch : Option String
  deriving DecidableEq

/-- `LocalPathType`. -/
inductive LocalPathType where
  | file
  | directory
  | symlink
  | other
  deriving DecidableEq

/-- `WorkspaceHooks`: what the workspace registry answers. -/
structure WorkspaceHooks where
  register : Entry → Except String Unit
  unregister : Entry → Except String Unit
  registered : Entry → Except String Bool

/-- What is around the manager during a call: which ids name this host, which machines are
connected, where checkouts go, the root of the anchor store; what the daemon of each machine
answers, what this host's file system and git answer, what the workspace registry answers when
there is one; whether the two stores can write; and the ids and the instant they generate. -/
structure World where
  isLocalNode : String → Bool
  connected : String → Bool
  worktreeRoot : String → String
  anchorRoot : String
  resolve : (nodeId path : String) → Except String String
  worktreeList : (nodeId repoPath : String) → Except String (List WireWorktree)
  worktreeAdd : (nodeId repoPath worktreePath branch : String) → (baseRef : Option String) →
    Except String WireWorktree
  worktreeRemove : (nodeId repoPath worktreePath : String) → (force : Bool) → Except String Unit
  branchDelete : (nodeId repoPath branch : String) → (force : Bool) → Except String Unit
  resolveLocalPath : String → String
  localPathType : String → Option LocalPathType
  isRepository : String → Except String Bool
  listWorktrees : String → Except String (List LocalWorktree)
  addWorktree : (repoPath worktreePath branch : String) → (baseRef : Option String) →
    Except String Unit
  removeWorktree : (repoPath worktreePath : String) → (force : Bool) → Except String Unit
  deleteBranch : (repoPath branch : String) → (force : Bool) → Except String Unit
  workspace : Option WorkspaceHooks
  writeAnchor : AnchorRecord → Except String Unit
  rmAnchor : AnchorRecord → Except String Unit
  writeRepos : List RepoRecord → Except String Unit
  anchorUUID : String
  repoUUID : String
  now : String

/-- What a call does in the world: it registers or drops the workspace of an entry; it cuts a
checkout, removes one or deletes a branch, on a machine or on this host (`none`). -/
inductive Act where
  | register (anchor : Entry)
  | unregister (anchor : Entry)
  | worktreeAdd (machine : Option String) (repoPath worktreePath branch : String)
  | worktreeRemove (machine : Option String) (repoPath worktreePath : String)
  | branchDelete (machine : Option String) (repoPath branch : String)
  | record (anchor : Entry)
  | drop (anchor : Entry)
  deriving DecidableEq

/-- This host: the records that the two stores hold in memory. `acts` is history: what calls
set out to do in the world. -/
structure Host where
  anchors : List AnchorRecord
  repos : List RepoRecord
  acts : List Act
  deriving DecidableEq

/-- The host when a call has set out to do something. -/
def Host.did (s : Host) (act : Act) : Host := { s with acts := s.acts ++ [act] }

/-- A call of the manager. -/
abbrev Call (α : Type) := EStateM Failure Host α

/-- An answer of the world, whose failure a call passes on. -/
def outside {α : Type} : Except String α → Except Failure α
  | .ok a => .ok a
  | .error message => .error (.outside message)

/-- A call does something in the world, and goes on when the world lets it. -/
def perform {α : Type} (act : Act) (answer : Except String α) : Call α := do
  modify fun s => s.did act
  attempt (outside answer)

/-! ### The stores -/

/-- The host when an anchor is recorded. -/
def Host.hold (s : Host) (record : AnchorRecord) : Host :=
  { s with anchors := s.anchors ++ [record] }

/-- The host when an anchor is dropped. -/
def Host.forget (s : Host) (anchorId : String) : Host :=
  { s with anchors := s.anchors.filter fun anchor => decide (anchor.anchorId ≠ anchorId) }

/-- `create` of the anchor store. -/
def createAnchor (w : World) (draft : AnchorDraft) : Call AnchorRecord := do
  let s ← get
  let record := newRecord w.anchorRoot draft w.anchorUUID w.now
  if s.anchors.any (fun anchor => decide (anchor.anchorPath = record.anchorPath)) then
    throw (.owned record.anchorPath)
  else
    perform (.record (entryOf record)) (w.writeAnchor record)
    modify fun s => s.hold record
    pure record

/-- `get` of the anchor store. -/
def getAnchor (s : Host) (anchorId : String) : Option AnchorRecord :=
  s.anchors.find? fun anchor => decide (anchor.anchorId = anchorId)

/-- `remove` of the anchor store; an id that is not known removes nothing. -/
def removeAnchor (w : World) (anchorId : String) : Call Unit := do
  let s ← get
  match getAnchor s anchorId with
  | none => pure ()
  | some record =>
    perform (.drop (entryOf record)) (w.rmAnchor record)
    modify fun s => s.forget anchorId

/-- The record of a repository that nobody has registered. -/
def unknownRepo (w : World) (nodeId repoPath : String) : RepoRecord :=
  repoRecordOf ⟨none, nodeId, repoPath, none⟩ none w.repoUUID w.now

/-- `registerRepoIfUnknown`: register a repository nobody has registered yet. -/
def registerRepoIfUnknown (w : World) (nodeId repoPath : String) : Call Unit := do
  let s ← get
  if find s.repos nodeId repoPath = none then
    let next := s.repos ++ [unknownRepo w nodeId repoPath]
    attempt (outside (w.writeRepos next))
    modify fun s => { s with repos := next }
  else
    pure ()

/-! ### Workspaces -/

/-- `deps.workspace?.unregister`: nothing to do without a registry. -/
def unregister (w : World) (anchor : Entry) : Call Unit :=
  match w.workspace with
  | none => pure ()
  | some workspace => perform (.unregister anchor) (workspace.unregister anchor)

/-- `registerWorkspace`: register an anchor as a workspace, best effort. -/
def registerWorkspace (w : World) (anchor : Entry) : Call Unit :=
  match w.workspace with
  | none => pure ()
  | some workspace => bestEffort (perform (.register anchor) (workspace.register anchor))

/-- `unregisterWorkspace`: drop an anchor's workspace registration, best effort. -/
def unregisterWorkspace (w : World) (anchor : Entry) : Call Unit :=
  bestEffort (unregister w anchor)

/-- `openAsWorkspace`: register one path as a workspace, so a session can be opened on it. -/
def openAsWorkspace (w : World) (anchor : Entry) : Call Entry :=
  match w.workspace with
  | none => throw .noRegistryForWorktree
  | some workspace => do
    perform (.register anchor) (workspace.register anchor)
    pure anchor

/-- `openOrDrop`: open a freshly registered anchor, leaving nothing behind when that is
refused. -/
def openOrDrop {α : Type} (w : World) (anchor : AnchorRecord) (openIt : Call α) : Call α :=
  tryCatch openIt fun error => do
    removeAnchor w anchor.anchorId
    throw error

end RemoteWorkspace.Model.Worktrees
