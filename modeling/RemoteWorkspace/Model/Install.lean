import RemoteWorkspace.Computation.Machine

/-!
# Installing a build on a machine

`ensureAgent` and `ensurePtcHost` (remote/agent/install.ts) each put one binary on a
machine: they read a marker, upload the build through a staging name when the marker names
another one, and write the marker with a command of its own. What the remote shell does for
an upload goes on by itself, whatever becomes of the `ssh` client that started it.

A file name refers to an inode: a `cat` keeps writing the inode it opened after a `mv` has
given it another name.
-/

set_option autoImplicit false

namespace RemoteWorkspace.Model.Install

open RemoteWorkspace.Computation

abbrev Bytes := List UInt8

/-- A build's version, with no character that JSON escapes. -/
structure Version where
  text : String
  plain : ∀ c ∈ text.toList, c ≠ '\x22' ∧ c ≠ '\\' ∧ 0x20 ≤ c.toNat
  deriving DecidableEq

/-- The binaries a machine holds: the agent and the PTC program host. -/
inductive Slot where
  | agent
  | ptcHost
  deriving DecidableEq

/-! ### Files -/

/-- Write a chunk at an offset; a gap before it reads as zeros. -/
def writeAt {α : Type} (zero : α) (content : List α) (offset : ℕ) (chunk : List α) : List α :=
  let padded := content ++ List.replicate (offset - content.length) zero
  padded.take offset ++ chunk ++ padded.drop (offset + chunk.length)

structure Inode where
  content : Bytes
  executable : Bool
  deriving DecidableEq

/-- What stands before and after the version in a marker. -/
def markerHead : List Char := "\x7b\"version\":\"".toList

def markerTail : List Char := "\"\x7d".toList

/-- `JSON.stringify` of an object with the version alone. -/
def markerText (version : Version) : List Char :=
  markerHead ++ version.text.toList ++ markerTail

/-- The version a marker records, when it records one: `JSON.parse` on the texts that
`markerText` writes and on what cuts and overlaps of them leave. -/
def markerVersion (text : List Char) : Option String :=
  if markerHead.isPrefixOf text then
    let rest := text.drop markerHead.length
    let value := rest.takeWhile (· ≠ '\x22')
    if rest.drop value.length = markerTail then some (String.ofList value) else none
  else none

/-! ### Commands and runs -/

/-- Where the remote shell is in `cat > staging && chmod 755 staging && mv staging final`. -/
inductive UploadPhase where
  | opening
  | copying (inode : ℕ)
  | chmod
  | mv
  | exited (ok : Bool)
  | killed
  deriving DecidableEq

/-- One upload command on the machine: the build on its way, whether its `ssh` client still
feeds it, and how many bytes `cat` has written. -/
structure Upload where
  version : Version
  linked : Bool
  copied : ℕ
  phase : UploadPhase
  deriving DecidableEq

/-- Where the remote shell is in `cat > marker`. -/
inductive MarkerPhase where
  | opening
  | writing
  | over
  deriving DecidableEq

/-- One command on the machine that writes the marker. -/
structure MarkerWrite where
  version : Version
  phase : MarkerPhase
  deriving DecidableEq

/-- How far a run of `ensureAgent` or `ensurePtcHost` has come with the binary. -/
inductive RunPhase where
  | reading
  | fetching
  | uploading (upload : ℕ)
  | recording
  | done
  deriving DecidableEq

structure Run where
  version : Version
  phase : RunPhase
  deriving DecidableEq

/-- What a machine and its callers hold for one binary. -/
structure Place where
  inodes : List Inode
  staging : Option ℕ
  final : Option ℕ
  marker : List Char
  uploads : List Upload
  markers : List MarkerWrite
  runs : List Run
  deriving DecidableEq

/-- A machine without the binary; a missing marker reads as an empty one. -/
def Place.fresh : Place where
  inodes := []
  staging := none
  final := none
  marker := []
  uploads := []
  markers := []
  runs := []

/-- The file at the final path. -/
def Place.installed (s : Place) : Option Inode := s.final.bind (s.inodes[·]?)

inductive Event
  /-- A run comes to its look at the marker. -/
  | start (version : Version)
  /-- It reads the marker, resolves the build, and starts the upload command. -/
  | readMarker (run : ℕ)
  | upload (run : ℕ)
  /-- The remote shell moves: `cat` opens the staging file, copies a chunk and ends. -/
  | openStaging (upload : ℕ)
  | copy (upload : ℕ) (n : ℕ)
  | endOfInput (upload : ℕ)
  | chmod (upload : ℕ)
  | rename (upload : ℕ)
  /-- The remote shell is cut. -/
  | kill (upload : ℕ)
  /-- `ssh` ends with the status of the upload command, or by a signal. -/
  | uploaded (run : ℕ)
  | sshKilled (run : ℕ)
  /-- The run starts the marker command, which truncates the marker and writes it. -/
  | record (run : ℕ)
  | openMarker (marker : ℕ)
  | writeMarker (marker : ℕ) (n : ℕ)
  | killMarker (marker : ℕ)
  /-- The run is given up: its host stops, or a step of it fails. -/
  | abandon (run : ℕ)
  deriving DecidableEq

variable (build : Version → Bytes)

/-- `READ_INSTALLED` and `READ_PTC_HOST`: the program host's marker counts only while its
binary is executable. -/
def Place.readMarker (slot : Slot) (s : Place) : Option String :=
  match slot with
  | .agent => markerVersion s.marker
  | .ptcHost =>
    match s.installed with
    | some inode => if inode.executable then markerVersion s.marker else none
    | none => none

/-- An upload moves on. -/
def Place.moveUpload (s : Place) (p : ℕ) (f : Upload → Upload) : Place :=
  { s with uploads := s.uploads.modify p f }

/-- A run moves on. -/
def Place.moveRun (s : Place) (r : ℕ) (phase : RunPhase) : Place :=
  { s with runs := s.runs.modify r fun run => { run with phase } }

/-- `cat > staging` opens its file: the inode of that name is truncated, or a new one made. -/
def Place.openStaging (s : Place) (p : ℕ) : Place :=
  match s.staging with
  | some x =>
    { s.moveUpload p fun u => { u with phase := .copying x } with
      inodes := s.inodes.modify x fun inode => { inode with content := [] } }
  | none =>
    { s.moveUpload p fun u => { u with phase := .copying s.inodes.length } with
      inodes := s.inodes ++ [⟨[], false⟩]
      staging := some s.inodes.length }

/-- `cat` writes the next `n` bytes to the inode it opened. -/
def Place.copy (s : Place) (p : ℕ) (u : Upload) (x n : ℕ) : Place :=
  let chunk := ((build u.version).drop u.copied).take n
  { s.moveUpload p fun u => { u with copied := u.copied + chunk.length } with
    inodes := s.inodes.modify x fun inode =>
      { inode with content := writeAt 0 inode.content u.copied chunk } }

/-- `chmod 755 staging`. -/
def Place.chmod (s : Place) (p : ℕ) : Place :=
  match s.staging with
  | some x =>
    { s.moveUpload p fun u => { u with phase := .mv } with
      inodes := s.inodes.modify x fun inode => { inode with executable := true } }
  | none => s.moveUpload p fun u => { u with phase := .exited false }

/-- `mv staging final`. -/
def Place.rename (s : Place) (p : ℕ) : Place :=
  match s.staging with
  | some x =>
    { s.moveUpload p fun u => { u with phase := .exited true } with
      staging := none
      final := some x }
  | none => s.moveUpload p fun u => { u with phase := .exited false }

/-- `cat` writes what it got of the marker, in one piece, and ends. -/
def Place.writeMarker (s : Place) (q : ℕ) (w : MarkerWrite) (n : ℕ) : Place :=
  { s with
    marker := writeAt '\x00' s.marker 0 ((markerText w.version).take n)
    markers := s.markers.modify q fun w => { w with phase := .over } }

/-- One step of an upload command. -/
def stepUpload (s : Place) (p : ℕ) (u : Upload) : Event → Option Place
  | .openStaging _ => if u.phase = .opening then some (s.openStaging p) else none
  | .copy _ n =>
    match u.phase with
    | .copying x => some (s.copy build p u x n)
    | _ => none
  | .endOfInput _ =>
    match u.phase with
    | .copying _ =>
      -- Without its client `cat` sees the end of its input wherever the bytes stopped.
      if u.copied = (build u.version).length ∨ u.linked = false then
        some (s.moveUpload p fun u => { u with phase := .chmod })
      else none
    | _ => none
  | .chmod _ => if u.phase = .chmod then some (s.chmod p) else none
  | .rename _ => if u.phase = .mv then some (s.rename p) else none
  | .kill _ =>
    match u.phase with
    | .exited _ => none
    | _ => some (s.moveUpload p fun u => { u with phase := .killed })
  | _ => none

/-- One step of a command that writes the marker. -/
def stepMarker (s : Place) (q : ℕ) (w : MarkerWrite) : Event → Option Place
  | .openMarker _ =>
    if w.phase = .opening then
      some { s with
        marker := []
        markers := s.markers.modify q fun w => { w with phase := .writing } }
    else none
  | .writeMarker _ n => if w.phase = .writing then some (s.writeMarker q w n) else none
  | .killMarker _ =>
    some { s with markers := s.markers.modify q fun w => { w with phase := .over } }
  | _ => none

/-- The client of an upload is gone. -/
def Place.unlink (s : Place) (phase : RunPhase) : Place :=
  match phase with
  | .uploading p => s.moveUpload p fun u => { u with linked := false }
  | _ => s

/-- One step of a run. -/
def stepRun (slot : Slot) (s : Place) (r : ℕ) (run : Run) : Event → Option Place
  | .readMarker _ =>
    if run.phase = .reading then
      if s.readMarker slot = some run.version.text then some (s.moveRun r .done)
      else some (s.moveRun r .fetching)
    else none
  | .upload _ =>
    if run.phase = .fetching then
      some { s.moveRun r (.uploading s.uploads.length) with
        uploads := s.uploads ++ [⟨run.version, true, 0, .opening⟩] }
    else none
  | .uploaded _ =>
    match run.phase with
    | .uploading p =>
      match (s.uploads[p]?).map Upload.phase with
      | some (.exited true) => some (s.moveRun r .recording)
      | some (.exited false) => some (s.moveRun r .done)
      | some .killed => some (s.moveRun r .done)
      | _ => none
    | _ => none
  | .sshKilled _ =>
    -- `code ?? 0`: a client that a signal ended counts as a command that went well.
    match run.phase with
    | .uploading _ => some ((s.unlink run.phase).moveRun r .recording)
    | _ => none
  | .record _ =>
    if run.phase = .recording then
      some { s.moveRun r .done with markers := s.markers ++ [⟨run.version, .opening⟩] }
    else none
  | .abandon _ => some ((s.unlink run.phase).moveRun r .done)
  | _ => none

/-- One step at one binary. -/
def step (slot : Slot) (s : Place) : Event → Option Place
  | .start version => some { s with runs := s.runs ++ [⟨version, .reading⟩] }
  | e@(.openStaging p) | e@(.copy p _) | e@(.endOfInput p) | e@(.chmod p) | e@(.rename p)
  | e@(.kill p) => (s.uploads[p]?).bind fun u => stepUpload build s p u e
  | e@(.openMarker q) | e@(.writeMarker q _) | e@(.killMarker q) =>
    (s.markers[q]?).bind fun w => stepMarker s q w e
  | e@(.readMarker r) | e@(.upload r) | e@(.uploaded r) | e@(.sshKilled r) | e@(.record r)
  | e@(.abandon r) => (s.runs[r]?).bind fun run => stepRun slot s r run e

/-- Any number of runs of `ensureAgent` and `ensurePtcHost` against one machine. -/
def installs (build : Slot → Version → Bytes) : Machine (Slot → Place) (Slot × Event) where
  init := fun _ => .fresh
  step m e := (step (build e.1) e.1 (m e.1) e.2).map (Function.update m e.1)

end RemoteWorkspace.Model.Install
