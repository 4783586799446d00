import RemoteWorkspace.Model.Worktrees

/-!
# What the worktree manager shows

The rows of `list` (models/worktrees.ts) come from three sources: for this host from git, for a
machine from the held anchors, and from the machine's own git for what is not held yet. A source
that cannot be read leaves its rows out or says why in the row, and the list itself never rejects.
-/

set_option autoImplicit false

namespace RemoteWorkspace.Model.Worktrees

open RemoteWorkspace.Computation RemoteWorkspace.Model.Anchors RemoteWorkspace.Model.AnchorCalls
open RemoteWorkspace.Model.AnchorIds RemoteWorkspace.Model.Stores

/-- `managedWorktreePath`: the path a managed checkout is created at. -/
def managedWorktreePath (root repoPath name : String) : String :=
  PosixPath.join [root, basename repoPath, name]

/-- `branchFor`: the branch a managed checkout is created on. -/
def branchFor (name : String) : String := "worktree/" ++ name

/-- A path without the slashes at its end. -/
def trimSlashes (path : String) : String :=
  String.ofList (path.toList.rdropWhile fun c => decide (c = '/'))

/-- `isManaged`: whether this plugin cut one checkout itself. -/
def isManaged (w : World) (anchor : Entry) : Bool :=
  match anchor.kind with
  | .directory => false
  | .worktree _ (some origin) => decide (origin = .created)
  | .worktree _ none =>
    let root := trimSlashes (w.worktreeRoot anchor.nodeId)
    let start := if w.isLocalNode anchor.nodeId then w.resolveLocalPath root else root
    decide ((start ++ "/").toList <+: anchor.remoteRoot.toList)

/-- `localDirectoryAnchor`: the row a local repository itself is opened through. -/
def localDirectoryAnchor (record : RepoRecord) : Entry where
  anchorId := localAnchorId .directory record.repoPath record.repoPath
  nodeId := record.nodeId
  name := nameOf record.repoPath
  repoPath := record.repoPath
  anchorPath := record.repoPath
  remoteRoot := record.repoPath
  createdAt := record.createdAt
  kind := .directory

/-- The row of a checkout that this host's git lists for a repository. -/
def localWorktreeAnchor (repo : RepoRecord) (checkout : LocalWorktree) : Entry where
  anchorId := localAnchorId .worktree checkout.path repo.repoPath
  nodeId := repo.nodeId
  name := nameOf checkout.path
  repoPath := repo.repoPath
  anchorPath := checkout.path
  remoteRoot := checkout.path
  createdAt := repo.createdAt
  kind := .worktree (checkout.branch.getD "") none

/-- `remotePlaceholder`: the record a git-reported checkout is shown as before it is held. -/
def remotePlaceholder (nodeId repoPath path branch createdAt : String) : Entry where
  anchorId := remoteAnchorId nodeId repoPath path
  nodeId := nodeId
  name := nameOf path
  repoPath := repoPath
  anchorPath := path
  remoteRoot := path
  createdAt := createdAt
  kind := .worktree branch (some .adopted)

/-- `rowStatus`: one row's live state, a failure to read it being the row's own error. -/
def rowStatus (w : World) (anchor : Entry) (offlineError : Option String) : WorktreeStatus :=
  match w.workspace with
  | none => ⟨anchor, false, isManaged w anchor, true, offlineError⟩
  | some workspace =>
    match workspace.registered anchor with
    | .ok isOpen => ⟨anchor, isOpen, isManaged w anchor, true, offlineError⟩
    | .error message => ⟨anchor, false, false, true, some message⟩

/-- The checkouts that are rows of a local repository: git lists them behind the main one, and
each is a directory. -/
def localCheckouts (w : World) (repoPath : String) : List LocalWorktree :=
  if (w.isRepository repoPath).toOption.getD false = true then
    (((w.listWorktrees repoPath).toOption.getD []).drop 1).filter fun checkout =>
      decide (w.localPathType checkout.path = some .directory)
  else []

/-- `localStatuses`: every checkout and repository directory this host manages. -/
def localStatuses (w : World) (s : Host) : List WorktreeStatus :=
  (s.repos.filter fun repo => w.isLocalNode repo.nodeId).flatMap fun repo =>
    rowStatus w (localDirectoryAnchor repo) none ::
      (localCheckouts w repo.repoPath).map fun checkout =>
        rowStatus w (localWorktreeAnchor repo checkout) none

/-- `channelFor`: the live channel for a node, or the typed offline failure. -/
def channelFor (w : World) (nodeId : String) : Except Failure Unit :=
  if w.connected nodeId then .ok () else .error (.offline nodeId)

/-- What a machine's git lists for a repository: the path is resolved there first. -/
def listedOn (w : World) (nodeId repoPath : String) : Except Failure (List WireWorktree) := do
  channelFor w nodeId
  let canonicalPath ← outside (w.resolve nodeId repoPath)
  outside (w.worktreeList nodeId canonicalPath)

/-- `listExisting`: the machine's own checkouts for one repository, minus its main one. -/
def listExisting (w : World) (s : Host) (nodeId repoPath : String) :
    Except Failure (List ExistingWorktree) :=
  if w.isLocalNode nodeId then
    .ok ((((w.listWorktrees repoPath).toOption.getD []).drop 1).map fun checkout =>
      ⟨checkout.path, nameOf checkout.path, checkout.branch.getD "", true⟩)
  else do
    let listed ← listedOn w nodeId repoPath
    .ok ((listed.filter fun entry => !entry.main).map fun entry =>
      ⟨entry.path, nameOf entry.path, entry.branch.getD "",
        s.anchors.any fun anchor =>
          decide (anchor.nodeId = nodeId ∧ anchor.remoteRoot = entry.path)⟩)

/-- The key under which a checkout is marked as held. -/
def heldKey (nodeId path : String) : String := nodeId ++ String.singleton (Char.ofNat 0) ++ path

/-- The keys of the held worktree anchors, which git's rows leave out. -/
def heldKeys (s : Host) : List String :=
  (s.anchors.filter fun anchor => decide (anchor.kind ≠ .directory)).map fun anchor =>
    heldKey anchor.nodeId anchor.remoteRoot

/-- The rows of one repository that git reports and `held` does not have. -/
def discoveredIn (w : World) (s : Host) (held : List String) (repo : RepoRecord) :
    List WorktreeStatus :=
  (((listExisting w s repo.nodeId repo.repoPath).toOption.getD []).filter fun checkout =>
      decide (heldKey repo.nodeId checkout.path ∉ held)).map fun checkout =>
    ⟨remotePlaceholder repo.nodeId repo.repoPath checkout.path checkout.branch repo.createdAt,
      false, false, false, none⟩

/-- `discoveredRemote`: rows for every checkout that git reports on a connected machine and this
plugin does not hold yet. -/
def discoveredRemote (w : World) (s : Host) (held : List String) :
    List WorktreeStatus :=
  (s.repos.filter fun repo => !w.isLocalNode repo.nodeId && w.connected repo.nodeId).flatMap
    (discoveredIn w s held)

/-- The row of a held anchor. -/
def heldStatus (w : World) (record : AnchorRecord) : WorktreeStatus :=
  rowStatus w (entryOf record)
    (if w.connected record.nodeId then none
      else some ("node \"" ++ record.nodeId ++ "\" is not connected"))

/-- `list`. -/
def list (w : World) (s : Host) : List WorktreeStatus :=
  localStatuses w s ++ s.anchors.map (heldStatus w) ++ discoveredRemote w s (heldKeys s)

/-- `heldRemote`: the held anchor for one git-reported checkout. -/
def heldRemote (s : Host) (c : Coordinates) : Option AnchorRecord :=
  s.anchors.find? fun anchor =>
    decide (anchor.kind ≠ .directory ∧ anchor.nodeId = c.nodeId ∧ anchor.repoPath = c.repoPath ∧
      anchor.remoteRoot = c.path)

/-- `directoryAnchorOf`: the directory anchor one machine path is held under. -/
def directoryAnchorOf (s : Host) (nodeId repoPath : String) : Option AnchorRecord :=
  s.anchors.find? fun anchor =>
    decide (anchor.kind = .directory ∧ anchor.nodeId = nodeId ∧ anchor.repoPath = repoPath)

/-- `localEntry`: one local row by the id a caller holds. -/
def localEntry (w : World) (s : Host) (anchorId : String) : Option Entry :=
  ((localStatuses w s).find? fun status => decide (status.anchor.anchorId = anchorId)).map
    WorktreeStatus.anchor

/-- An id that names something of this host. -/
def IsLocalId (anchorId : String) : Prop := localIdPrefix.toList <+: anchorId.toList

instance (anchorId : String) : Decidable (IsLocalId anchorId) := by
  unfold IsLocalId
  infer_instance

/-- `entryById`: the anchor a caller's id names, wherever it is recorded. -/
def entryById (w : World) (s : Host) (anchorId : String) : Option Entry :=
  if IsLocalId anchorId then localEntry w s anchorId else (getAnchor s anchorId).map entryOf

end RemoteWorkspace.Model.Worktrees
