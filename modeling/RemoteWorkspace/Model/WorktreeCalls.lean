import RemoteWorkspace.Model.WorktreeRows

/-!
# The calls of the worktree manager

`create`, `adopt`, `open`, `close`, `release`, `remove`, `openDirectory` and `closeDirectory`
(models/worktrees.ts), each for this host and for a machine. On a machine git acts first and the
anchor is recorded or dropped behind it.
-/

set_option autoImplicit false

namespace RemoteWorkspace.Model.Worktrees

open RemoteWorkspace.Computation RemoteWorkspace.Computation.Calls
open RemoteWorkspace.Model.Anchors RemoteWorkspace.Model.AnchorCalls RemoteWorkspace.Model.AnchorIds
open RemoteWorkspace.Model.Stores RemoteWorkspace.Model.RepoRequests

/-- `WorktreeDraft`. -/
structure WorktreeDraft where
  nodeId : String
  repoPath : String
  name : String
  path : Option String
  baseRef : Option String
  deriving DecidableEq

/-- What a removal is asked to do. -/
structure RemoveOptions where
  force : Bool
  deleteBranch : Bool
  deriving DecidableEq

/-- `WorktreeRemoval`. -/
structure WorktreeRemoval where
  anchor : Entry
  branchDeleted : Bool
  branchError : Option String
  deriving DecidableEq

/-! ### Creating and adopting -/

/-- The path that a checkout is planned at. -/
def plannedPath (w : World) (draft : WorktreeDraft) (repoPath : String) : String :=
  draft.path.getD (managedWorktreePath (w.worktreeRoot draft.nodeId) repoPath draft.name)

/-- The record of a checkout that was cut on this host. -/
def localCheckoutAnchor (w : World) (draft : WorktreeDraft) (repoPath worktreePath : String) :
    Entry where
  anchorId := localAnchorId .worktree worktreePath repoPath
  nodeId := draft.nodeId
  name := draft.name
  repoPath := repoPath
  anchorPath := worktreePath
  remoteRoot := worktreePath
  createdAt := w.now
  kind := .worktree (branchFor draft.name) none

/-- `createLocalWorktree`: cut a worktree on this host and register its checkout. -/
def createLocalWorktree (w : World) (draft : WorktreeDraft) : Call Entry := do
  let repoPath := w.resolveLocalPath draft.repoPath
  let isRepository ← attempt (outside (w.isRepository repoPath))
  if isRepository = false then throw (.notARepository repoPath)
  else
    let planned := plannedPath w draft repoPath
    perform (.worktreeAdd none repoPath planned (branchFor draft.name))
      (w.addWorktree repoPath planned (branchFor draft.name) draft.baseRef)
    let anchor := localCheckoutAnchor w draft repoPath (w.resolveLocalPath planned)
    registerRepoIfUnknown w draft.nodeId repoPath
    registerWorkspace w anchor
    pure anchor

/-- The draft of the anchor of a checkout that was cut on a machine. -/
def createdDraft (draft : WorktreeDraft) (repoPath : String) (worktree : WireWorktree) :
    AnchorDraft :=
  ⟨.worktree (worktree.branch.getD (branchFor draft.name)) (some .created), draft.nodeId,
    draft.name, repoPath, worktree.path⟩

/-- `create` on a machine: the checkout is cut, then its anchor is recorded, then the repository
it came from. -/
def createRemote (w : World) (draft : WorktreeDraft) : Call Entry := do
  attempt (channelFor w draft.nodeId)
  let repoPath ← attempt (outside (w.resolve draft.nodeId draft.repoPath))
  let planned := plannedPath w draft repoPath
  let worktree ← perform (.worktreeAdd (some draft.nodeId) repoPath planned (branchFor draft.name))
    (w.worktreeAdd draft.nodeId repoPath planned (branchFor draft.name) draft.baseRef)
  let anchor ← createAnchor w (createdDraft draft repoPath worktree)
  registerRepoIfUnknown w draft.nodeId repoPath
  registerWorkspace w (entryOf anchor)
  pure (entryOf anchor)

/-- `create`. -/
def create (w : World) (draft : WorktreeDraft) : Call Entry :=
  if w.isLocalNode draft.nodeId then createLocalWorktree w draft else createRemote w draft

/-- `adoptRemote`: open a remote checkout git already lists, adopting it when it is new. -/
def adoptRemote (w : World) (c : Coordinates) : Call Entry := do
  let s ← get
  let listed ← attempt (listExisting w s c.nodeId c.repoPath)
  match listed.find? fun candidate => decide (candidate.path = c.path) with
  | none => throw (.notAWorktreeOf c.path c.repoPath)
  | some entry =>
    match heldRemote s c with
    | some held => openAsWorkspace w (entryOf held)
    | none => do
      let anchor ← createAnchor w (adoptDraft c.nodeId c.repoPath c.path entry.branch)
      openOrDrop w anchor (openAsWorkspace w (entryOf anchor))

/-- `adopt` on this host: a checkout is a row already, and adopting it only opens it. -/
def adoptLocal (w : World) (nodeId repoPath path : String) : Call Entry := do
  let s ← get
  let listed ← attempt (listExisting w s nodeId repoPath)
  if listed.any (fun candidate => decide (candidate.path = path)) = false then
    throw (.notAWorktreeOf path repoPath)
  else
    let found := (localStatuses w s).find? fun status =>
      decide (status.anchor.nodeId = nodeId ∧ status.anchor.anchorPath = path)
    match found.map WorktreeStatus.anchor with
    | none => throw (.noLocalCheckout path)
    | some entry =>
      if entry.kind = .directory then throw (.noLocalCheckout path) else openAsWorkspace w entry

/-- `adopt`. -/
def adopt (w : World) (nodeId repoPath path : String) : Call Entry :=
  if w.isLocalNode nodeId then adoptLocal w nodeId repoPath path
  else adoptRemote w ⟨nodeId, repoPath, path⟩

/-! ### Removing -/

/-- `requireWorktree`: narrow a record to a worktree, refusing the repository directory. -/
def requireWorktree (anchor : Entry) : Except Failure Entry :=
  if anchor.kind = .directory then .error (.repositoryDirectory anchor.name) else .ok anchor

/-- The branch of a worktree. -/
def branchOf (anchor : Entry) : String :=
  match anchor.kind with
  | .worktree branch _ => branch
  | .directory => ""

/-- `dropBranchOrReport`: delete a removed checkout's branch, reporting a refusal instead of
failing. -/
def dropBranchOrReport (anchor : Entry) (options : RemoveOptions) (act : Act)
    (answer : Except String Unit) : Call WorktreeRemoval :=
  if options.deleteBranch = false then pure ⟨anchor, false, none⟩
  else
    tryCatch
      (do
        perform act answer
        pure ⟨anchor, true, none⟩)
      fun error => pure ⟨anchor, false, some error.message⟩

/-- `removeLocalWorktree`: remove one checkout on this host. -/
def removeLocalWorktree (w : World) (anchor : Entry) (options : RemoveOptions) :
    Call WorktreeRemoval := do
  perform (.worktreeRemove none anchor.repoPath anchor.anchorPath)
    (w.removeWorktree anchor.repoPath anchor.anchorPath options.force)
  unregisterWorkspace w anchor
  dropBranchOrReport anchor options (.branchDelete none anchor.repoPath (branchOf anchor))
    (w.deleteBranch anchor.repoPath (branchOf anchor) options.force)

/-- `removeRemote`: remove one held remote checkout, dropping its record with the checkout. -/
def removeRemote (w : World) (anchor : Entry) (options : RemoveOptions) :
    Call WorktreeRemoval := do
  attempt (channelFor w anchor.nodeId)
  perform (.worktreeRemove (some anchor.nodeId) anchor.repoPath anchor.remoteRoot)
    (w.worktreeRemove anchor.nodeId anchor.repoPath anchor.remoteRoot options.force)
  unregisterWorkspace w anchor
  removeAnchor w anchor.anchorId
  dropBranchOrReport anchor options
    (.branchDelete (some anchor.nodeId) anchor.repoPath (branchOf anchor))
    (w.branchDelete anchor.nodeId anchor.repoPath (branchOf anchor) options.force)

/-- `removeDiscovered`: remove a checkout git reports but this plugin never adopted. -/
def removeDiscovered (w : World) (c : Coordinates) (options : RemoveOptions) :
    Call WorktreeRemoval := do
  let s ← get
  let listed ← attempt (listExisting w s c.nodeId c.repoPath)
  match listed.find? fun candidate => decide (candidate.path = c.path) with
  | none => throw (.notAWorktreeOf c.path c.repoPath)
  | some entry => do
    attempt (channelFor w c.nodeId)
    perform (.worktreeRemove (some c.nodeId) c.repoPath c.path)
      (w.worktreeRemove c.nodeId c.repoPath c.path options.force)
    let anchor := remotePlaceholder c.nodeId c.repoPath c.path entry.branch w.now
    if options.deleteBranch = false ∨ entry.branch = "" then pure ⟨anchor, false, none⟩
    else
      dropBranchOrReport anchor options (.branchDelete (some c.nodeId) c.repoPath entry.branch)
        (w.branchDelete c.nodeId c.repoPath entry.branch options.force)

/-- `remove`. -/
def remove (w : World) (anchorId : String) (options : RemoveOptions) : Call WorktreeRemoval := do
  let s ← get
  if IsLocalId anchorId then
    match localEntry w s anchorId with
    | none => throw (.noWorktree anchorId)
    | some anchor => do
      let worktree ← attempt (requireWorktree anchor)
      removeLocalWorktree w worktree options
  else
    match parseRemoteAnchorId anchorId with
    | some discovered =>
      match heldRemote s discovered with
      | none => removeDiscovered w discovered options
      | some held => removeRemote w (entryOf held) options
    | none =>
      match getAnchor s anchorId with
      | none => throw (.noAnchor anchorId)
      | some record => do
        let worktree ← attempt (requireWorktree (entryOf record))
        removeRemote w worktree options

/-! ### Opening, closing and releasing -/

/-- `open`. -/
def openEntry (w : World) (anchorId : String) : Call Entry := do
  match parseRemoteAnchorId anchorId with
  | some discovered => adoptRemote w discovered
  | none => do
    let s ← get
    match entryById w s anchorId with
    | none => throw (.noWorktree anchorId)
    | some anchor => openAsWorkspace w anchor

/-- The entry that `close` and `release` act on. -/
def entryToClose (w : World) (s : Host) (anchorId : String) : Except Failure Entry :=
  let entry := match parseRemoteAnchorId anchorId with
    | some discovered => (heldRemote s discovered).map entryOf
    | none => entryById w s anchorId
  match entry with
  | none => .error (.noWorktree anchorId)
  | some anchor => .ok anchor

/-- `close`. -/
def close (w : World) (anchorId : String) : Call Entry := do
  let s ← get
  let anchor ← attempt (entryToClose w s anchorId)
  unregister w anchor
  pure anchor

/-- `release`: only this host's bookkeeping goes. -/
def release (w : World) (anchorId : String) : Call Entry := do
  let s ← get
  let anchor ← attempt (entryToClose w s anchorId)
  unregister w anchor
  if IsLocalId anchorId then pure anchor
  else
    removeAnchor w anchor.anchorId
    pure anchor

/-- `openDirectory`. -/
def openDirectory (w : World) (nodeId repoPath : String) : Call Entry :=
  match w.workspace with
  | none => throw .noRegistryForDirectory
  | some workspace => do
    let s ← get
    if w.isLocalNode nodeId then
      match find s.repos nodeId repoPath with
      | none => throw (.noRepository repoPath)
      | some record => openAsWorkspace w (localDirectoryAnchor record)
    else
      match directoryAnchorOf s nodeId repoPath with
      | some existing => openAsWorkspace w (entryOf existing)
      | none => do
        attempt (channelFor w nodeId)
        let canonicalPath ← attempt (outside (w.resolve nodeId repoPath))
        let anchor ← createAnchor w (directoryDraft nodeId canonicalPath)
        openOrDrop w anchor do
          perform (.register (entryOf anchor)) (workspace.register (entryOf anchor))
          pure (entryOf anchor)

/-- `closeDirectory`. -/
def closeDirectory (w : World) (nodeId repoPath : String) : Call (Option Entry) := do
  let s ← get
  if w.isLocalNode nodeId then
    match find s.repos nodeId repoPath with
    | none => pure none
    | some record => do
      let anchor := localDirectoryAnchor record
      let isOpen ← attempt (outside
        (match w.workspace with
          | none => .ok false
          | some workspace => workspace.registered anchor))
      if isOpen = false then pure none
      else
        unregisterWorkspace w anchor
        pure (some anchor)
  else
    match directoryAnchorOf s nodeId repoPath with
    | none => pure none
    | some anchor => do
      unregisterWorkspace w (entryOf anchor)
      removeAnchor w anchor.anchorId
      pure (some (entryOf anchor))

/-- A call on the row that an id names. -/
inductive RowCall where
  | openEntry
  | close
  | release
  | remove (options : RemoveOptions)
  deriving DecidableEq

/-- A call on a row, by the id that the caller was given; it answers with the row's entry. -/
def runRowCall (w : World) (anchorId : String) : RowCall → Call Entry
  | .openEntry => openEntry w anchorId
  | .close => close w anchorId
  | .release => release w anchorId
  | .remove options => WorktreeRemoval.anchor <$> remove w anchorId options

/-- A call of the manager. -/
inductive Request where
  | create (draft : WorktreeDraft)
  | adopt (nodeId repoPath path : String)
  | openDirectory (nodeId repoPath : String)
  | closeDirectory (nodeId repoPath : String)
  | row (call : RowCall) (anchorId : String)
  deriving DecidableEq

/-- A call of the manager; it answers with the entry it is about, when there is one. -/
def runRequest (w : World) : Request → Call (Option Entry)
  | .create draft => some <$> create w draft
  | .adopt nodeId repoPath path => some <$> adopt w nodeId repoPath path
  | .openDirectory nodeId repoPath => some <$> openDirectory w nodeId repoPath
  | .closeDirectory nodeId repoPath => closeDirectory w nodeId repoPath
  | .row call anchorId => some <$> runRowCall w anchorId call

end RemoteWorkspace.Model.Worktrees
