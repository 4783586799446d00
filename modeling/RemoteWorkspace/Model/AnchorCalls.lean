import RemoteWorkspace.Model.Anchors

/-!
# Overlapping calls on one anchor store

`create` and `remove` (storage/anchors.ts) as they run when calls overlap: a creation looks
at the records in memory, waits for the directory and then for the metadata file, and adds
its record only after both; a removal finds its record, waits for the directory to go, and
drops the record then. Worktrees are created, adopted and opened as directories by the
manager (models/worktrees.ts), which looks at the records before it creates one.

Every wait may end at any time, and in a failure. A creation that the manager takes back,
because nothing could be opened at it, is a removal of its record.
-/

set_option autoImplicit false

namespace RemoteWorkspace.Model.AnchorCalls

open RemoteWorkspace.Computation RemoteWorkspace.Model.Anchors

/-- Where a creation stands: it passed the check, its directory is made, its metadata file is
written, its record is held; or it failed. -/
inductive CreatePhase where
  | checked
  | made
  | written
  | held
  | failed
  deriving DecidableEq

/-- A creation that passed the check. -/
structure Creating where
  record : AnchorRecord
  phase : CreatePhase
  deriving DecidableEq

/-- Where a removal stands: it found its record, the directory is gone, the record is dropped;
or it failed. -/
inductive RemovePhase where
  | found
  | gone
  | dropped
  | failed
  deriving DecidableEq

/-- A removal that found its record. -/
structure Removing where
  record : AnchorRecord
  phase : RemovePhase
  deriving DecidableEq

/-- The store and the calls on it, which are named by their position; `openings` are the
machines of the directories whose path is being resolved. `overwritten` is history: the
records that were held when their metadata file was written again. -/
structure Calls where
  disk : Disk
  anchors : List AnchorRecord
  creates : List Creating
  removes : List Removing
  openings : List String
  overwritten : List AnchorRecord

/-- `create`, up to its first wait. A generated id is no other anchor's. -/
def beginCreate (root : String) (s : Calls) (draft : AnchorDraft) (anchorId createdAt : String) :
    Option Calls :=
  let record := newRecord root draft anchorId createdAt
  if s.anchors.any (fun anchor => decide (anchor.anchorPath = record.anchorPath)) then some s
  else if (s.anchors ++ s.creates.map Creating.record).any
      (fun anchor => decide (anchor.anchorId = anchorId)) then none
  else some { s with creates := s.creates ++ [⟨record, .checked⟩] }

/-- The name of what a path names on a machine. -/
def nameOf (path : String) : String := if basename path = "" then path else basename path

/-- `heldRemote`: the worktree anchor that is held for a checkout. -/
def heldRemote (s : Calls) (nodeId repoPath path : String) : Option AnchorRecord :=
  s.anchors.find? fun anchor =>
    decide (anchor.kind ≠ .directory ∧ anchor.nodeId = nodeId ∧ anchor.repoPath = repoPath ∧
      anchor.remoteRoot = path)

/-- `directoryAnchorOf`: the directory anchor that is held for a repository. -/
def directoryAnchorOf (s : Calls) (nodeId repoPath : String) : Option AnchorRecord :=
  s.anchors.find? fun anchor =>
    decide (anchor.kind = .directory ∧ anchor.nodeId = nodeId ∧ anchor.repoPath = repoPath)

/-- The draft of a checkout that is adopted. -/
def adoptDraft (nodeId repoPath path branch : String) : AnchorDraft :=
  ⟨.worktree branch (some .adopted), nodeId, nameOf path, repoPath, path⟩

/-- The draft of a directory that is opened. -/
def directoryDraft (nodeId repoPath : String) : AnchorDraft :=
  ⟨.directory, nodeId, nameOf repoPath, repoPath, repoPath⟩

/-- What happens next: `create` is called; `adoptRemote` goes on with a checkout that git
lists; `openDirectory` is called, and goes on with the path that was resolved; a creation
goes on; a removal is called and goes on. -/
inductive Event where
  | create (draft : AnchorDraft) (anchorId createdAt : String)
  | adopt (nodeId repoPath path branch anchorId createdAt : String)
  | openDirectory (nodeId repoPath : String)
  | resolved (i : ℕ) (canonicalPath anchorId createdAt : String)
  | made (k : ℕ)
  | written (k : ℕ)
  | appended (k : ℕ)
  | createFailed (k : ℕ)
  | remove (anchorId : String)
  | gone (k : ℕ)
  | dropped (k : ℕ)
  | removeFailed (k : ℕ)
  deriving DecidableEq

/-- The creations with one of them in another phase. -/
def Calls.setCreate (s : Calls) (k : ℕ) (c : Creating) (phase : CreatePhase) : Calls :=
  { s with creates := s.creates.set k { c with phase := phase } }

/-- The removals with one of them in another phase. -/
def Calls.setRemove (s : Calls) (k : ℕ) (c : Removing) (phase : RemovePhase) : Calls :=
  { s with removes := s.removes.set k { c with phase := phase } }

/-- One uninterrupted piece of a call. -/
def step (root : String) (s : Calls) : Event → Option Calls
  | .create draft anchorId createdAt => beginCreate root s draft anchorId createdAt
  | .adopt nodeId repoPath path branch anchorId createdAt =>
    if (heldRemote s nodeId repoPath path).isSome then some s
    else beginCreate root s (adoptDraft nodeId repoPath path branch) anchorId createdAt
  | .openDirectory nodeId repoPath =>
    if (directoryAnchorOf s nodeId repoPath).isSome then some s
    else some { s with openings := s.openings ++ [nodeId] }
  | .resolved i canonicalPath anchorId createdAt =>
    match s.openings[i]? with
    | none => none
    | some nodeId =>
      beginCreate root { s with openings := s.openings.eraseIdx i }
        (directoryDraft nodeId canonicalPath) anchorId createdAt
  | .made k =>
    match s.creates[k]? with
    | some ⟨record, .checked⟩ =>
      some ({ s with disk := s.disk.mkdir (segmentsOf record.anchorPath) }.setCreate k
        ⟨record, .checked⟩ .made)
    | _ => none
  | .written k =>
    match s.creates[k]? with
    | some ⟨record, .made⟩ =>
      let dir := segmentsOf record.anchorPath
      let owners := s.anchors.filter fun anchor => decide (segmentsOf anchor.anchorPath = dir)
      some ({ s with
        disk := s.disk.put dir (documentOf record)
        overwritten := s.overwritten ++ owners }.setCreate k ⟨record, .made⟩ .written)
    | _ => none
  | .appended k =>
    match s.creates[k]? with
    | some ⟨record, .written⟩ =>
      some ({ s with anchors := s.anchors ++ [record] }.setCreate k ⟨record, .written⟩ .held)
    | _ => none
  | .createFailed k =>
    match s.creates[k]? with
    | some ⟨record, .checked⟩ => some (s.setCreate k ⟨record, .checked⟩ .failed)
    | some ⟨record, .made⟩ => some (s.setCreate k ⟨record, .made⟩ .failed)
    | _ => none
  | .remove anchorId =>
    match s.anchors.find? fun anchor => decide (anchor.anchorId = anchorId) with
    | none => some s
    | some record => some { s with removes := s.removes ++ [⟨record, .found⟩] }
  | .gone k =>
    match s.removes[k]? with
    | some ⟨record, .found⟩ =>
      some ({ s with disk := s.disk.rm (segmentsOf record.anchorPath) }.setRemove k
        ⟨record, .found⟩ .gone)
    | _ => none
  | .dropped k =>
    match s.removes[k]? with
    | some ⟨record, .gone⟩ =>
      let anchors := s.anchors.filter fun anchor => decide (anchor.anchorId ≠ record.anchorId)
      some ({ s with anchors := anchors }.setRemove k ⟨record, .gone⟩ .dropped)
    | _ => none
  | .removeFailed k =>
    match s.removes[k]? with
    | some ⟨record, .found⟩ => some (s.setRemove k ⟨record, .found⟩ .failed)
    | _ => none

/-- The calls on a store that was loaded, as a machine. -/
def machine {before : String → String → Bool} {root : String} (loaded : Loaded before root) :
    Machine Calls Event :=
  ⟨⟨loaded.disk, loaded.anchors, [], [], [], []⟩, step root⟩

end RemoteWorkspace.Model.AnchorCalls
