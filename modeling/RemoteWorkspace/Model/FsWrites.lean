import RemoteWorkspace.Computation.Literal
import RemoteWorkspace.Computation.Machine
import RemoteWorkspace.Model.FsText

/-!
# Writing and editing one file

`write_text` and `edit_text` (agent/src/fs.rs) on one path, as the daemon serves them: every
request is a task of its own, so any of its system calls may fall between any two of another.
A request reads the metadata of the target and checks its guard, prepares what it is to
publish, stages it in a file of its own beside the target, publishes that file with one call,
and reads the metadata again.

The target and the staging files are names of one directory. A file is written only while
it is staged, so a file that was opened under its name can be read in one step.
-/

set_option autoImplicit false

namespace RemoteWorkspace.Model.FsWrites

open RemoteWorkspace.Computation RemoteWorkspace.Model.FsText

/-! ### Editing a text -/

/-- `normalize_line_endings`: `\r\n` collapsed to `\n`; a lone `\r` is left alone. -/
def normalizeLineEndings (content : Text) : Text := Literal.replace ['\r', '\n'] ['\n'] content

/-- `detect_crlf`: whether the dominant line-ending style in the first 4096 characters is
CRLF. -/
def detectCrlf (raw : Text) : Bool :=
  let sample := raw.take 4096
  let crlf := Literal.countMatches ['\r', '\n'] sample
  let lf := Literal.countMatches ['\n'] sample - crlf
  decide (lf < crlf)

/-- `restore_line_endings`. -/
def restoreLineEndings (content : Text) (crlf : Bool) : Text :=
  if crlf then Literal.replace ['\n'] ['\r', '\n'] content else content

/-- `apply_literal_edit`: one literal replacement in LF-normalized content. -/
def applyLiteralEdit (path : String) (content oldString newString : Text) (replaceAll : Bool) :
    Except Failure Text :=
  let oldText := normalizeLineEndings oldString
  if oldText = [] then .error ⟨"FS_EDIT_NOT_FOUND", "old_string must be a non-empty string"⟩
  else
    let newText := normalizeLineEndings newString
    let found := Literal.countMatches oldText content
    if found = 0 then
      .error ⟨"FS_EDIT_NOT_FOUND", "old_string was not found in \"" ++ path ++ "\""⟩
    else if replaceAll = false ∧ 1 < found then
      .error ⟨"FS_AMBIGUOUS_EDIT", "old_string matched " ++ toString found ++ " times in \"" ++
        path ++ "\"; provide a more specific old_string or set replace_all to true"⟩
    else .ok (Literal.replace oldText newText content)

/-- `read_for_edit`, of a file that could be opened. -/
def readForEdit (path : String) (content : Bytes) : Except Failure (Text × Bool) :=
  if maxReadBytes < content.length then
    .error (tooLarge "edit" path
      ("content exceeds the " ++ toString maxReadBytes ++ "-byte read limit"))
  else (decodeText "edit" path content).map fun raw => (normalizeLineEndings raw, detectCrlf raw)

/-- An edited file: the text before and after the edit, and the bytes to publish. -/
structure Edited where
  before : Text
  after : Text
  content : Bytes

/-- What an edit makes of the content it read (`edit_text`, fs.rs:288-291). -/
def editContent (path : String) (oldString newString : Text) (replaceAll : Bool)
    (content : Bytes) : Except Failure Edited := do
  let (text, crlf) ← readForEdit path content
  let edited ← applyLiteralEdit path text oldString newString replaceAll
  .ok ⟨text, normalizeLineEndings edited, Utf8.encode (restoreLineEndings edited crlf)⟩

/-! ### Requests and their guards -/

/-- `WriteIntent`: a guarded write's intent. -/
inductive WriteIntent where
  | createIfAbsent
  | replaceIfVersion (version : String)
  deriving DecidableEq

/-- A request on the target. -/
inductive Request where
  | write (content : Text) (expected : Option WriteIntent)
  | edit (oldString newString : Text) (replaceAll : Bool) (expected : Option String)
  deriving DecidableEq

/-- The operation a request's failures name. -/
def Request.verb : Request → String
  | .write _ _ => "write"
  | .edit _ _ _ _ => "edit"

/-- `create_if_absent`. -/
def Request.createIfAbsent : Request → Bool
  | .write _ expected => decide (expected = some .createIfAbsent)
  | .edit _ _ _ _ => false

/-- What metadata says of a file: its kind, `version_of`, and its size. -/
structure Info where
  isFile : Bool
  version : String
  size : ℕ
  deriving DecidableEq

/-- `guard_write`. -/
def guardWrite (verb target : String) (existing : Option Info) :
    Option WriteIntent → Except Failure Unit
  | some (.replaceIfVersion wanted) =>
    match existing with
    | none => .error (staleVersion verb target "file no longer exists")
    | some info =>
      if info.version ≠ wanted then
        .error (staleVersion verb target "file changed since it was read")
      else .ok ()
  | some .createIfAbsent => if existing.isSome then .error (notObserved target) else .ok ()
  | none => .ok ()

/-- The checks a request makes on the metadata of its target (fs.rs:222-229, 252-268). -/
def checkTarget (target : String) (existing : Option Info) : Request → Except Failure Unit
  | .write _ expected =>
    match existing with
    | none => guardWrite "write" target none expected
    | some info =>
      if info.isFile = false then .error (notRegularFile "write" target)
      else guardWrite "write" target (some info) expected
  | .edit _ _ _ expected =>
    match existing with
    | none => .error (staleVersion "edit" target "file changed since it was read")
    | some info =>
      if info.isFile = false then .error (notRegularFile "edit" target)
      else
        match expected with
        | none => .ok ()
        | some version =>
          if info.version ≠ version then
            .error (staleVersion "edit" target "file changed since it was read")
          else .ok ()

/-! ### The directory -/

/-- A file: its bytes, and the version token its metadata gives once it is written. -/
structure File where
  content : Bytes
  version : String
  deriving DecidableEq

/-- The metadata of a file. -/
def File.info (file : File) : Info := ⟨true, file.version, file.content.length⟩

/-- One publication, as history: the request that made it, the file it published, and the
file the target named before. -/
structure Publication where
  task : ℕ
  ino : ℕ
  replaced : Option ℕ
  deriving DecidableEq

/-- The directory of the target, and the daemon's counter of staging names. Files are named
by their position; `names` are the staging names that exist, by their number. `log` is
history: the publications in order. -/
structure Directory where
  files : List File
  target : Option ℕ
  names : ℕ → Option ℕ
  sequence : ℕ
  log : List Publication

/-- The file the target names. -/
def Directory.current (d : Directory) : Option File := d.target.bind fun ino => d.files[ino]?

/-- The file the target named after `n` publications. -/
def Directory.targetAt (d : Directory) (n : ℕ) : Option ℕ :=
  match d.log[n]? with
  | some publication => publication.replaced
  | none => d.target

/-! ### One request, system call by system call -/

/-- `DIFF_BASIS_MAX_BYTES`. -/
def diffBasisMaxBytes : ℕ := 10 * 1024 * 1024

/-- What a request is answered. -/
inductive Answer where
  | wrote (created : Bool) (version : String) (before : Option Text) (after : Text)
  | edited (version : String) (before after : Text)
  | failed (failure : Failure)
  deriving DecidableEq

/-- Where a request stands. `cleaning` is between the outcome of its staging and publishing
and the removal of its staging name. -/
inductive Phase where
  | called
  | checked
  | prepared
  | numbered
  | staging
  | complete
  | cleaning (error : Option Errno)
  | published
  | answered (answer : Answer)
  deriving DecidableEq

/-- A request being served: the metadata it checked; the texts it is to answer and the bytes
it is to publish; the number of its staging name and the staged file. `seen`, `checkedAt`
and `readAt` are history: the file it checked, and how many publications there had been when
it checked and when it read. -/
structure Task where
  request : Request
  phase : Phase
  existing : Option Info
  before : Option Text
  after : Text
  content : Bytes
  number : ℕ
  ino : ℕ
  seen : Option ℕ
  checkedAt : ℕ
  readAt : ℕ
  deriving DecidableEq

/-- A request that arrived. -/
def Task.start (request : Request) : Task :=
  ⟨request, .called, none, none, [], [], 0, 0, none, 0, 0⟩

/-- A request that fails. -/
def Task.refuse (t : Task) (failure : Failure) : Task :=
  { t with phase := .answered (.failed failure) }

/-- The first metadata read and the guard. -/
def checked (path : String) (d : Directory) (t : Task) : Task :=
  let existing := d.current.map File.info
  match checkTarget path existing t.request with
  | .error failure => t.refuse failure
  | .ok () =>
    { t with
      phase := .checked, existing := existing, seen := d.target, checkedAt := d.log.length }

/-- `read_basis`: the pre-image of a write, when it can be had. -/
def readBasis (d : Directory) (size : ℕ) (unread : Bool) : Option Text :=
  if diffBasisMaxBytes ≤ size ∨ unread = true then none
  else
    d.current.bind fun file =>
      let bytes := file.content.take size
      if 0 ∈ bytes then none
      else if Utf8.WellFormed bytes then some (normalizeLineEndings (Utf8.decode bytes))
      else none

/-- What is to be published is read or computed. -/
def prepared (path : String) (d : Directory) (t : Task) (unread : Bool) : Task :=
  match t.request with
  | .write content _ =>
    { t with
      phase := .prepared
      before := t.existing.bind fun info => readBasis d info.size unread
      after := normalizeLineEndings content
      content := Utf8.encode content
      readAt := d.log.length }
  | .edit oldString newString replaceAll _ =>
    match d.current with
    | none => t.refuse (ioFailure "edit" path .noent)
    | some file =>
      match editContent path oldString newString replaceAll file.content with
      | .error failure => t.refuse failure
      | .ok edited =>
        { t with
          phase := .prepared, before := some edited.before, after := edited.after,
          content := edited.content, readAt := d.log.length }

/-- The failure of `publish`: an existing name is content nobody read. -/
def publishFailure (path : String) (t : Task) (error : Errno) : Failure :=
  if error = .exist then notObserved path else ioFailure t.request.verb path error

/-- The answer of a request that published, with the version its last metadata read gives. -/
def success (path : String) (d : Directory) (t : Task) : Answer :=
  let version := (d.current.map File.version).getD ("missing:" ++ path)
  match t.request with
  | .write _ _ => .wrote t.existing.isNone version t.before t.after
  | .edit _ _ _ _ => .edited version (t.before.getD []) t.after

/-- `hard_link` for a create, `rename` for the rest: the one call that changes the target. -/
def published (k : ℕ) (d : Directory) (t : Task) : Directory × Task :=
  match d.names t.number with
  | none => (d, { t with phase := .cleaning (some .noent) })
  | some ino =>
    if t.request.createIfAbsent = true then
      if d.target.isSome then (d, { t with phase := .cleaning (some .exist) })
      else
        ({ d with target := some ino, log := d.log ++ [⟨k, ino, d.target⟩] },
          { t with phase := .cleaning none })
    else
      ({ d with
          target := some ino
          names := Function.update d.names t.number none
          log := d.log ++ [⟨k, ino, d.target⟩] },
        { t with phase := .cleaning none })

/-- The system call a request makes next, and what the system makes of it. `write` leaves
`length` bytes in the staging file; `sync` ends the writing, which settles the version. -/
inductive Act where
  | check
  | prepare (unread : Bool)
  | number
  | stage
  | write (length : ℕ)
  | sync (version : String)
  | publish
  | clean (removed : Bool)
  | report
  | fail (error : Errno)
  deriving DecidableEq

/-- One system call of request `k`. -/
def act (path : String) (k : ℕ) (d : Directory) (t : Task) : Act → Option (Directory × Task)
  | .check => if t.phase = .called then some (d, checked path d t) else none
  | .prepare unread => if t.phase = .checked then some (d, prepared path d t unread) else none
  | .number =>
    if t.phase = .prepared then
      some ({ d with sequence := d.sequence + 1 },
        { t with phase := .numbered, number := d.sequence })
    else none
  | .stage =>
    if t.phase = .numbered then
      match d.names t.number with
      | some _ => some (d, { t with phase := .cleaning (some .exist) })
      | none =>
        some ({ d with
            files := d.files ++ [⟨[], ""⟩]
            names := Function.update d.names t.number (some d.files.length) },
          { t with phase := .staging, ino := d.files.length })
    else none
  | .write length =>
    if t.phase = .staging ∧ length ≤ t.content.length ∧
        (d.files[t.ino]?).any (fun file => decide (file.content.length < length)) then
      some ({ d with files := d.files.modify t.ino fun file =>
          { file with content := t.content.take length } }, t)
    else none
  | .sync version =>
    if t.phase = .staging ∧ (d.files[t.ino]?).map File.content = some t.content then
      some ({ d with files := d.files.modify t.ino fun file => { file with version := version } },
        { t with phase := .complete })
    else none
  | .publish => if t.phase = .complete then some (published k d t) else none
  | .clean removed =>
    match t.phase with
    | .cleaning error =>
      some ({ d with
          names := if removed then Function.update d.names t.number none else d.names },
        match error with
        | none => { t with phase := .published }
        | some error => t.refuse (publishFailure path t error))
    | _ => none
  | .report =>
    if t.phase = .published then
      some (d, { t with phase := .answered (success path d t) })
    else none
  | .fail error =>
    match t.phase with
    | .called | .published =>
      -- a name that does not exist is no failure of a metadata read
      if error = .noent ∨ error = .notdir then none
      else some (d, t.refuse (ioFailure t.request.verb path error))
    | .checked =>
      -- a write goes on without the pre-image it could not read
      match t.request with
      | .write _ _ => none
      | .edit _ _ _ _ => some (d, t.refuse (ioFailure "edit" path error))
    | .prepared => some (d, t.refuse (publishFailure path t error))
    | .numbered | .staging | .complete => some (d, { t with phase := .cleaning (some error) })
    | _ => none

/-! ### All requests -/

/-- The directory and the requests served on the target, which are named by their position. -/
structure State where
  directory : Directory
  tasks : List Task

/-- What happens next: a request arrives, a request makes its next system call, or a request
on another path takes a number for its staging name. -/
inductive Event where
  | call (request : Request)
  | act (k : ℕ) (act : Act)
  | elsewhere
  deriving DecidableEq

/-- The daemon on one path. -/
def step (path : String) (s : State) : Event → Option State
  | .call request => some { s with tasks := s.tasks ++ [Task.start request] }
  | .act k a =>
    match s.tasks[k]? with
    | none => none
    | some t => (act path k s.directory t a).map fun r => ⟨r.1, s.tasks.set k r.2⟩
  | .elsewhere =>
    some { s with directory := { s.directory with sequence := s.directory.sequence + 1 } }

/-- What the daemon finds when it starts: the target may exist, and staging names of an
earlier daemon with its process id may have been left behind. -/
structure Found where
  files : List File
  target : Option ℕ
  names : ℕ → Option ℕ
  target_lt : ∀ ino, target = some ino → ino < files.length
  names_lt : ∀ n ino, names n = some ino → ino < files.length

/-- The daemon as a machine. -/
def machine (path : String) (found : Found) : Machine State Event :=
  ⟨⟨⟨found.files, found.target, found.names, 0, []⟩, []⟩, step path⟩

end RemoteWorkspace.Model.FsWrites
