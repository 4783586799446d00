import RemoteWorkspace.Computation.Machine
import RemoteWorkspace.Computation.Segments
import RemoteWorkspace.Computation.Tree
import RemoteWorkspace.Model.PosixPath

/-!
# The anchor directory store

`createAnchorStore` (storage/anchors.ts): each remote directory has a local directory below
the store's root, with a metadata file in it that names the remote coordinates. The store
finds its records by a scan of bounded depth, keeps them in memory, and writes or removes a
directory with each record.

A directory of the disk is its segments; the mark of a directory is its metadata document.
A document is its fields, as `JSON.parse` gives them.
-/

set_option autoImplicit false

namespace RemoteWorkspace.Model.Anchors

open RemoteWorkspace.Computation

/-- A directory, as its segments. -/
abbrev Path := List (List Char)

/-- The directory a path names. -/
def segmentsOf (path : String) : Path := segments '/' path.toList

/-- A directory as `realpath` spells it. -/
def pathText (q : Path) : String := String.ofList ('/' :: ['/'].intercalate q)

/-- `basename` of the Node standard library. -/
def basename (path : String) : String := String.ofList ((segmentsOf path).getLast?.getD [])

/-! ### Records and documents -/

/-- `ANCHOR_FILE`: the metadata file name inside every anchor directory. -/
def anchorFile : String := ".dsh-remote-worktree.json"

/-- `DOCUMENT_VERSION`. -/
def documentVersion : ℕ := 1

/-- `DIRECTORY_SEGMENT`: the segment a directory anchor lives at. -/
def directorySegment : String := ".self"

/-- `SCAN_DEPTH`: how deep the loader walks below the anchor root. -/
def scanDepth : ℕ := 3

/-- The metadata file of a directory. -/
def metadataFile (dir : Path) : String := pathText (dir ++ [anchorFile.toList])

/-- How the plugin came to hold a checkout. -/
inductive Origin where
  | created
  | adopted
  deriving DecidableEq

/-- What an anchor maps: a checkout, or the repository directory itself. -/
inductive AnchorKind where
  | worktree (branch : String) (origin : Origin)
  | directory
  deriving DecidableEq

/-- `AnchorRecord`. -/
structure AnchorRecord where
  anchorId : String
  nodeId : String
  name : String
  anchorPath : String
  remoteRoot : String
  repoPath : String
  createdAt : String
  kind : AnchorKind
  deriving DecidableEq

/-- What a caller says a new anchor maps; a checkout is the plugin's own by default. -/
inductive DraftKind where
  | worktree (branch : String) (origin : Option Origin)
  | directory
  deriving DecidableEq

/-- `AnchorDraft`. -/
structure AnchorDraft where
  kind : DraftKind
  nodeId : String
  name : String
  repoPath : String
  remoteRoot : String
  deriving DecidableEq

/-- `AnchorFields`: the fields a stored anchor carries, those that may be absent as options. -/
structure AnchorFields where
  anchorId : String
  nodeId : String
  name : String
  anchorPath : String
  remoteRoot : String
  repoPath : String
  createdAt : String
  kind : Option String
  branch : Option String
  origin : Option String
  deriving DecidableEq

/-- `AnchorDocument`. -/
structure AnchorDocument where
  version : ℕ
  anchor : AnchorFields
  deriving DecidableEq

/-- An origin as it is stored. -/
def Origin.stored : Origin → String
  | .created => "created"
  | .adopted => "adopted"

/-- The document that is written for a record. -/
def documentOf (record : AnchorRecord) : AnchorDocument where
  version := documentVersion
  anchor :=
    { anchorId := record.anchorId
      nodeId := record.nodeId
      name := record.name
      anchorPath := record.anchorPath
      remoteRoot := record.remoteRoot
      repoPath := record.repoPath
      createdAt := record.createdAt
      kind := match record.kind with
        | .worktree _ _ => some "worktree"
        | .directory => some "directory"
      branch := match record.kind with
        | .worktree branch _ => some branch
        | .directory => none
      origin := match record.kind with
        | .worktree _ origin => some origin.stored
        | .directory => none }

/-- `parseAnchor`: a document of this version, of a kind this build knows. One without a kind
is a worktree, and one that was not adopted was created. -/
def parseAnchor (document : AnchorDocument) (file : String) : Except String AnchorRecord :=
  if document.version ≠ documentVersion then
    .error (file ++ " has document version " ++ toString document.version ++
      "; this build reads " ++ toString documentVersion)
  else
    let fields := document.anchor
    let record (kind : AnchorKind) : AnchorRecord :=
      ⟨fields.anchorId, fields.nodeId, fields.name, fields.anchorPath, fields.remoteRoot,
        fields.repoPath, fields.createdAt, kind⟩
    let notUnderstood := file ++ " carries an anchor this build does not understand"
    if fields.kind = some "directory" then .ok (record .directory)
    else if fields.kind = none ∨ fields.kind = some "worktree" then
      match fields.branch with
      | some branch =>
        .ok (record (.worktree branch
          (if fields.origin = some "adopted" then .adopted else .created)))
      | none => .error notUnderstood
    else .error notUnderstood

/-! ### Loading -/

/-- The disk: directories, and the metadata documents in them. -/
abbrev Disk := Tree (List Char) AnchorDocument

/-- `findMetadataFiles`, by the directories the files are in; `levels` is the depth that is
still permitted and one. -/
def findMetadataFiles (disk : Disk) : (levels : ℕ) → (dir : Path) → List Path
  | 0, _ => []
  | levels + 1, dir =>
    (if (disk.mark dir).isSome then [dir] else []) ++
      (disk.children dir).flatMap fun name => findMetadataFiles disk levels (dir ++ [name])

/-- The record of one metadata file; the directory it is in is the truth about its path. -/
def readAnchor (disk : Disk) (dir : Path) : Except String AnchorRecord :=
  match disk.mark dir with
  | none => .error ("ENOENT: no such file or directory, open '" ++ metadataFile dir ++ "'")
  | some document =>
    (parseAnchor document (metadataFile dir)).map fun record =>
      { record with anchorPath := pathText dir }

/-- The records of metadata files, in their order; the first that cannot be read throws. -/
def readAnchors (disk : Disk) : List Path → Except String (List AnchorRecord)
  | [] => .ok []
  | dir :: rest => do
    let record ← readAnchor disk dir
    let records ← readAnchors disk rest
    .ok (record :: records)

/-- `load`, below a root that is there; `before` is the order of strings that `sort` uses. -/
def load (before : String → String → Bool) (root : String) (disk : Disk) :
    Except String (List AnchorRecord) :=
  readAnchors disk ((findMetadataFiles disk (scanDepth + 1) (segmentsOf root)).mergeSort
    fun p q => before (metadataFile p) (metadataFile q))

/-! ### Creating and removing -/

/-- The store: what is on the disk, and the records it holds in memory. -/
structure Store where
  disk : Disk
  anchors : List AnchorRecord

/-- Where an anchor lives. A worktree sits at its own name, a directory beside them. -/
def anchorPath (root : String) (draft : AnchorDraft) : String :=
  PosixPath.join [root, draft.nodeId, basename draft.repoPath,
    match draft.kind with
    | .directory => directorySegment
    | .worktree _ _ => draft.name]

/-- The record of a new anchor. -/
def newRecord (root : String) (draft : AnchorDraft) (anchorId createdAt : String) :
    AnchorRecord where
  anchorId := anchorId
  nodeId := draft.nodeId
  name := draft.name
  anchorPath := anchorPath root draft
  remoteRoot := draft.remoteRoot
  repoPath := draft.repoPath
  createdAt := createdAt
  kind := match draft.kind with
    | .worktree branch origin => .worktree branch (origin.getD .created)
    | .directory => .directory

/-- A directory that cannot be made with a metadata file in it: a metadata file stands where
a directory is needed, or a directory where the file is. -/
def Blocked (disk : Disk) (q : Path) : Prop :=
  (∃ r ∈ q.inits, r.getLast? = some anchorFile.toList ∧ (disk.mark r.dropLast).isSome = true) ∨
    q ++ [anchorFile.toList] ∈ disk.dirs

instance (disk : Disk) (q : Path) : Decidable (Blocked disk q) := by
  unfold Blocked
  infer_instance

/-- Why an anchor is not created: another one has its directory, or the file system refuses. -/
inductive CreateFailure where
  | owned (message : String)
  | fileSystem
  deriving DecidableEq

/-- `create`, for a generated id at an instant. -/
def create (root : String) (s : Store) (draft : AnchorDraft) (anchorId createdAt : String) :
    Except CreateFailure Store :=
  let record := newRecord root draft anchorId createdAt
  if s.anchors.any (fun anchor => decide (anchor.anchorPath = record.anchorPath)) then
    .error (.owned ("an anchor already owns " ++ record.anchorPath))
  else
    let dir := segmentsOf record.anchorPath
    if Blocked s.disk dir then .error .fileSystem
    else
      .ok { disk := (s.disk.mkdir dir).put dir (documentOf record)
            anchors := s.anchors ++ [record] }

/-- `get`. -/
def get (s : Store) (anchorId : String) : Option AnchorRecord :=
  s.anchors.find? fun anchor => decide (anchor.anchorId = anchorId)

/-- `remove`; an id that is not known removes nothing. -/
def remove (s : Store) (anchorId : String) : Store :=
  match get s anchorId with
  | none => s
  | some record =>
    { disk := s.disk.rm (segmentsOf record.anchorPath)
      anchors := s.anchors.filter fun anchor => decide (anchor.anchorId ≠ anchorId) }

/-- A call that succeeds: a creation, with the id that was generated for it, or a removal. -/
inductive Call where
  | create (draft : AnchorDraft) (anchorId createdAt : String)
  | remove (anchorId : String)
  deriving DecidableEq

/-- One successful call; a generated id is no other anchor's. -/
def step (root : String) (s : Store) : Call → Option Store
  | .create draft anchorId createdAt =>
    if get s anchorId = none then (create root s draft anchorId createdAt).toOption else none
  | .remove anchorId => some (remove s anchorId)

/-- A store that was just loaded: what it holds is what it found, each record under an id of
its own, on a disk whose directories are there with all those above them. -/
structure Loaded (before : String → String → Bool) (root : String) where
  disk : Disk
  anchors : List AnchorRecord
  closed : disk.Closed
  named : ∀ p ∈ disk.dirs, ∀ s ∈ p, s ≠ [] ∧ '/' ∉ s
  loads : load before root disk = .ok anchors
  ids : (anchors.map AnchorRecord.anchorId).Nodup

/-- The store as a machine. -/
def machine {before : String → String → Bool} {root : String} (loaded : Loaded before root) :
    Machine Store Call :=
  ⟨⟨loaded.disk, loaded.anchors⟩, step root⟩

end RemoteWorkspace.Model.Anchors
