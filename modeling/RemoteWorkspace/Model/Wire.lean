import RemoteWorkspace.Computation.JsonValue
import RemoteWorkspace.Model.FsWrites
import RemoteWorkspace.Model.SpawnRequest

/-!
# The wire contract, from both ends

The method table of the daemon and the readers beside it (agent/src/wire.rs), with the failures
they report (agent/src/failure.rs), and the two nested shapes that the filesystem backend reads
(agent/src/fs.rs:256-279, 548-567). A request is read into the call it makes of a backend; what
the backend answers is not part of this. Each entry of the table (`dispatch`, wire.rs:42-273)
applies its readers in their order.

The parameters that the plugin sends for each method: `WireMethods` (remote/protocol.ts:366-455)
as the routers fill it in (plugin/routing/fs.ts, subprocess.ts, tty.ts; models/worktrees.ts). A
number of the plugin is what arrives of it: `JSON.stringify` writes one that is not finite as
`null`, and `serde_json` tells integers from doubles by how they are written.
-/

set_option autoImplicit false

namespace RemoteWorkspace.Model.Wire

open RemoteWorkspace.Computation RemoteWorkspace.Computation.JsonValue
open RemoteWorkspace.Model.SpawnRequest (StdinMode OutputMode)
open RemoteWorkspace.Model.FsWrites (WriteIntent)

/-! ### Failures -/

def invalidRequest : ℤ := -32600

def methodNotFoundCode : ℤ := -32601

def invalidParamsCode : ℤ := -32602

def internalError : ℤ := -32603

/-- A failure carrying the protocol's own stable code. -/
structure Failure where
  code : String
  message : String
  rpcCode : ℤ
  deriving DecidableEq

/-- `Failure::new`: a backend failure. -/
def Failure.new (code message : String) : Failure := ⟨code, message, internalError⟩

/-- `Failure::invalid_params`: a malformed-parameter failure for one method. -/
def Failure.invalidParams (method detail : String) : Failure :=
  ⟨"FS_IO_ERROR", method ++ ": " ++ detail, invalidParamsCode⟩

/-- `Failure::method_not_found`. -/
def Failure.methodNotFound (method : String) : Failure :=
  ⟨"FS_IO_ERROR", "unknown method \"" ++ method ++ "\"", methodNotFoundCode⟩

/-! ### Members -/

/-- The members of a parameter object. -/
abbrev Source := List (String × JsonValue)

/-- Reject a parameter object that is not a JSON object. -/
def asRecord (params : JsonValue) (method : String) : Except Failure Source :=
  match params.asObject with
  | some source => .ok source
  | none => .error (.invalidParams method "params must be a JSON object")

/-- What a string member that is none fails with. -/
def mustBeString (field method : String) : Failure :=
  .invalidParams method ("\"" ++ field ++ "\" must be a string")

/-- Read a required string member. -/
def requireString (source : Source) (field method : String) : Except Failure String :=
  require asStr (mustBeString field method) source field

/-- Read an optional string member. -/
def optionalString (source : Source) (field method : String) : Except Failure (Option String) :=
  JsonValue.optional asStr (mustBeString field method) source field

/-- Read a required safe integer member at or above `minimum`. -/
def requireInteger (source : Source) (field method : String) (minimum : ℕ) : Except Failure ℕ :=
  require (fun value => value.asU64.filter fun n => minimum ≤ n)
    (.invalidParams method
      ("\"" ++ field ++ "\" must be a safe integer no smaller than " ++ toString minimum))
    source field

/-- Read an optional integer member, or `default` when it is absent. -/
def optionalInteger (source : Source) (field method : String) (default : ℕ) : Except Failure ℕ :=
  match source.lookup field with
  | none => .ok default
  | some .null => .ok default
  | some _ => requireInteger source field method 0

/-- Read a required boolean member. -/
def requireBoolean (source : Source) (field method : String) : Except Failure Bool :=
  require asBool (.invalidParams method ("\"" ++ field ++ "\" must be a boolean")) source field

/-! ### Nested shapes -/

/-- Read and validate the optional expected version of an edit. -/
def readExpectedVersion (source : Source) (method : String) : Except Failure (Option String) :=
  match source.lookup "expected" with
  | none => .ok none
  | some .null => .ok none
  | some value =>
    match value.asObject with
    | none => .error (.invalidParams method "\"expected\" must be a JSON object")
    | some record => (requireString record "version" method).map some

/-- The entries of an environment overlay. -/
def readEntries (method : String) : Source → Except Failure (List (String × String))
  | [] => .ok []
  | (key, entry) :: rest =>
    match entry.asStr with
    | none => .error (.invalidParams method ("\"env." ++ key ++ "\" must be a string"))
    | some text => (readEntries method rest).map fun entries => (key, text) :: entries

/-- Read and validate an optional environment overlay. -/
def readEnvironment (value : Option JsonValue) (method : String) :
    Except Failure (List (String × String)) :=
  match value with
  | none => .ok []
  | some value =>
    match value.asObject with
    | none => .error (.invalidParams method "\"env\" must be a JSON object")
    | some source => readEntries method source

/-- `MAX_GRACE_MS`. -/
def maxGraceMs : ℕ := 2147483647

/-- Read the required grace both spawn families carry. -/
def readGrace (source : Source) (method : String) : Except Failure ℕ := do
  let graceMs ← requireInteger source "graceMs" method 1
  if maxGraceMs < graceMs then
    .error (.invalidParams method ("\"graceMs\" must not exceed " ++ toString maxGraceMs))
  else .ok graceMs

/-- `u16::MAX`. -/
def u16Max : ℕ := 65535

/-- Read one terminal dimension: a positive count a `winsize` can hold. -/
def readDimension (source : Source) (field method : String) : Except Failure ℕ :=
  (requireInteger source field method 1).map fun n => min n u16Max

/-- What an argv that is none fails with. -/
def argvComplaint (method : String) : Failure :=
  .invalidParams method "\"argv\" must be a non-empty array of strings"

/-- The texts of an array. -/
def readTexts (complaint : Failure) : List JsonValue → Except Failure (List String)
  | [] => .ok []
  | value :: rest =>
    match value.asStr with
    | none => .error complaint
    | some text => (readTexts complaint rest).map fun texts => text :: texts

/-- Read a non-empty argv array. -/
def readArgv (source : Source) (method : String) : Except Failure (List String) :=
  match (source.lookup "argv").bind asArray with
  | none => .error (argvComplaint method)
  | some values =>
    if values.isEmpty then .error (argvComplaint method)
    else readTexts (argvComplaint method) values

/-- What a stdin disposition that is none fails with. -/
def stdinComplaint (method : String) : Failure :=
  .invalidParams method "\"stdin\" must be \"ignore\", \"pipe\", or \x7b data \x7d"

/-- Read and validate a stdin disposition. -/
def readStdinMode (value : Option JsonValue) (method : String) : Except Failure StdinMode :=
  match value with
  | some (.string mode) =>
    if mode = "ignore" then .ok .ignore
    else if mode = "pipe" then .ok .pipe
    else .error (stdinComplaint method)
  | some (.object record) =>
    match (record.lookup "data").bind asStr with
    | none => .error (stdinComplaint method)
    | some data => .ok (.data (Utf8.encode data.toList))
  | _ => .error (stdinComplaint method)

/-- Read and validate an optional control-channel request. -/
def readControlMode (value : Option JsonValue) (method : String) : Except Failure Bool :=
  let complaint := Failure.invalidParams method "\"control\" must be \"pipe\" when present"
  match value with
  | none => .ok false
  | some .null => .ok false
  | some (.string mode) => if mode = "pipe" then .ok true else .error complaint
  | some _ => .error complaint

/-- What an output disposition that is none fails with. -/
def outputComplaint (field method : String) : Failure :=
  .invalidParams method ("\"" ++ field ++ "\" must be \"inherit\", \"pipe\", or \x7b maxBytes \x7d")

/-- Read and validate an output disposition. -/
def readOutputMode (value : Option JsonValue) (field method : String) :
    Except Failure OutputMode :=
  match value with
  | some (.string mode) =>
    if mode = "inherit" then .ok .inherit
    else if mode = "pipe" then .ok .pipe
    else .error (outputComplaint field method)
  | some (.object record) =>
    match (record.lookup "maxBytes").bind asU64 with
    | none => .error (outputComplaint field method)
    | some maxBytes => .ok (.collect maxBytes)
  | _ => .error (outputComplaint field method)

/-- Read and validate a collected stream name. -/
def readStreamName (source : Source) (method : String) : Except Failure String :=
  require (fun value => value.asStr.filter fun name => name = "stdout" ∨ name = "stderr")
    (.invalidParams method "\"stream\" must be \"stdout\" or \"stderr\"") source "stream"

/-- Signals the terminal primitive may deliver to a foreground group. -/
inductive TerminalSignal where
  | int
  | term
  | kill
  | tstp
  | hup
  deriving DecidableEq

/-- The name of a terminal signal on the wire. -/
def TerminalSignal.ofName : String → Option TerminalSignal
  | "SIGINT" => some .int
  | "SIGTERM" => some .term
  | "SIGKILL" => some .kill
  | "SIGTSTP" => some .tstp
  | "SIGHUP" => some .hup
  | _ => none

/-- Read and validate one terminal signal name. -/
def readTerminalSignal (source : Source) (method : String) : Except Failure TerminalSignal :=
  require (fun value => value.asStr.bind TerminalSignal.ofName)
    (.invalidParams method
      "\"signal\" must be one of SIGINT, SIGTERM, SIGKILL, SIGTSTP, SIGHUP") source "signal"

/-! ### The two spawn requests -/

/-- A fully specified spawn request (agent/src/protocol.rs:45-64). -/
structure SpawnSpec where
  argv : List String
  cwd : String
  stdin : StdinMode
  stdout : OutputMode
  stderr : OutputMode
  control : Bool
  graceMs : ℕ
  env : List (String × String)
  deriving DecidableEq

/-- A fully specified terminal allocation (agent/src/protocol.rs:67-81). -/
structure TerminalSpawnSpec where
  argv : List String
  cwd : String
  env : List (String × String)
  rows : ℕ
  cols : ℕ
  graceMs : ℕ
  deriving DecidableEq

/-- Read and validate one spawn request. -/
def readSpawnSpec (params : JsonValue) (method : String) : Except Failure SpawnSpec := do
  let source ← asRecord params method
  let graceMs ← readGrace source method
  let argv ← readArgv source method
  let cwd ← requireString source "cwd" method
  let stdin ← readStdinMode (source.lookup "stdin") method
  let stdout ← readOutputMode (source.lookup "stdout") "stdout" method
  let stderr ← readOutputMode (source.lookup "stderr") "stderr" method
  let control ← readControlMode (source.lookup "control") method
  let env ← readEnvironment (source.lookup "env") method
  .ok ⟨argv, cwd, stdin, stdout, stderr, control, graceMs, env⟩

/-- Read and validate one terminal allocation request. -/
def readTerminalSpec (params : JsonValue) (method : String) :
    Except Failure TerminalSpawnSpec := do
  let source ← asRecord params method
  let argv ← readArgv source method
  let cwd ← requireString source "cwd" method
  let env ← readEnvironment (source.lookup "env") method
  let rows ← readDimension source "rows" method
  let cols ← readDimension source "cols" method
  let graceMs ← readGrace source method
  .ok ⟨argv, cwd, env, rows, cols, graceMs⟩

/-! ### The handshake -/

/-- The handshake request, once its shape is validated. -/
structure Hello where
  protocol : ℤ
  token : String
  deriving DecidableEq

/-- Read and validate the handshake request. -/
def readHello (params : JsonValue) : Except Failure Hello := do
  let source ← asRecord params "node.hello"
  let protocol ← require asI64
    (Failure.invalidParams "node.hello" "\"protocol\" must be a safe integer") source "protocol"
  let token ← requireString source "token" "node.hello"
  .ok ⟨protocol, token⟩

/-! ### What the filesystem backend reads itself -/

/-- Read and validate a write intent. -/
def readWriteIntent (value : Option JsonValue) : Except Failure (Option WriteIntent) :=
  match value with
  | none => .ok none
  | some value =>
    match (value.get "kind").bind asStr with
    | some "createIfAbsent" => .ok (some .createIfAbsent)
    | some "replaceIfVersion" =>
      match (value.get "version").bind asStr with
      | some version => .ok (some (.replaceIfVersion version))
      | none =>
        .error (.invalidParams "fs.writeText" "\"expected.version\" must be a string")
    | _ => .error (.invalidParams "fs.writeText"
      "\"expected.kind\" must be \"createIfAbsent\" or \"replaceIfVersion\"")

/-- A literal-replacement edit request. -/
structure EditRequest where
  oldString : String
  newString : String
  replaceAll : Bool
  deriving DecidableEq

/-- The members of an edit, as `edit_text` reads them. -/
def readEdit (edit : JsonValue) : Except Failure EditRequest := do
  let source := edit.asObject.getD []
  let complain (detail : String) := Failure.invalidParams "fs.editText" detail
  let oldString ← require asStr (complain "\"edit.oldString\" must be a string") source "oldString"
  let newString ← require asStr (complain "\"edit.newString\" must be a string") source "newString"
  let replaceAll ←
    require asBool (complain "\"edit.replaceAll\" must be a boolean") source "replaceAll"
  .ok ⟨oldString, newString, replaceAll⟩

/-! ### The method table -/

/-- The methods a connection serves after its handshake. -/
inductive Method where
  | fsResolve
  | fsStat
  | fsLstat
  | fsListDir
  | fsReadTextChunk
  | fsReadBytes
  | fsReadByteRange
  | fsWriteText
  | fsEditText
  | gitWorktreeAdd
  | gitWorktreeList
  | gitWorktreeRemove
  | gitBranchDelete
  | gitRepoState
  | gitMergeBranch
  | spResolveExecutable
  | spSpawn
  | spReadOutput
  | spWriteStdin
  | spWriteControl
  | spCloseStdin
  | spTerminate
  | spWaitForExit
  | spOutcome
  | termSpawn
  | termRead
  | termWrite
  | termResize
  | termInspectForeground
  | termSignalForeground
  | termTerminate
  | termOutcome
  deriving DecidableEq

/-- The name of a method on the wire. -/
def Method.name : Method → String
  | .fsResolve => "fs.resolve"
  | .fsStat => "fs.stat"
  | .fsLstat => "fs.lstat"
  | .fsListDir => "fs.listDir"
  | .fsReadTextChunk => "fs.readTextChunk"
  | .fsReadBytes => "fs.readBytes"
  | .fsReadByteRange => "fs.readByteRange"
  | .fsWriteText => "fs.writeText"
  | .fsEditText => "fs.editText"
  | .gitWorktreeAdd => "git.worktreeAdd"
  | .gitWorktreeList => "git.worktreeList"
  | .gitWorktreeRemove => "git.worktreeRemove"
  | .gitBranchDelete => "git.branchDelete"
  | .gitRepoState => "git.repoState"
  | .gitMergeBranch => "git.mergeBranch"
  | .spResolveExecutable => "sp.resolveExecutable"
  | .spSpawn => "sp.spawn"
  | .spReadOutput => "sp.readOutput"
  | .spWriteStdin => "sp.writeStdin"
  | .spWriteControl => "sp.writeControl"
  | .spCloseStdin => "sp.closeStdin"
  | .spTerminate => "sp.terminate"
  | .spWaitForExit => "sp.waitForExit"
  | .spOutcome => "sp.outcome"
  | .termSpawn => "term.spawn"
  | .termRead => "term.read"
  | .termWrite => "term.write"
  | .termResize => "term.resize"
  | .termInspectForeground => "term.inspectForeground"
  | .termSignalForeground => "term.signalForeground"
  | .termTerminate => "term.terminate"
  | .termOutcome => "term.outcome"

def Method.all : List Method :=
  [.fsResolve, .fsStat, .fsLstat, .fsListDir, .fsReadTextChunk, .fsReadBytes, .fsReadByteRange,
    .fsWriteText, .fsEditText, .gitWorktreeAdd, .gitWorktreeList, .gitWorktreeRemove,
    .gitBranchDelete, .gitRepoState, .gitMergeBranch, .spResolveExecutable, .spSpawn,
    .spReadOutput, .spWriteStdin, .spWriteControl, .spCloseStdin, .spTerminate, .spWaitForExit,
    .spOutcome, .termSpawn, .termRead, .termWrite, .termResize, .termInspectForeground,
    .termSignalForeground, .termTerminate, .termOutcome]

/-- The method of a name, if this build serves it. -/
def Method.ofName (name : String) : Option Method := Method.all.find? fun m => m.name = name

/-- One call of a backend, with the arguments the table passes on. -/
inductive Call where
  | fsResolve (path : String)
  | fsStat (path : String)
  | fsLstat (path : String)
  | fsListDir (path : String)
  | fsReadTextChunk (path : String) (offset length : ℕ)
  | fsReadBytes (path : String) (maxBytes : ℕ)
  | fsReadByteRange (path : String) (offset length : ℕ)
  | fsWriteText (path content : String) (expected : Option JsonValue)
  | fsEditText (path : String) (edit : JsonValue) (expected : Option String)
  | gitWorktreeAdd (repoPath worktreePath branch : String) (baseRef : Option String)
  | gitWorktreeList (repoPath : String)
  | gitWorktreeRemove (repoPath worktreePath : String) (force : Bool)
  | gitBranchDelete (repoPath branch : String) (force : Bool)
  | gitRepoState (repoPath : String)
  | gitMergeBranch (repoPath branch : String)
  | spResolveExecutable (command : String) (env : List (String × String))
  | spSpawn (spec : SpawnSpec)
  | spReadOutput (procId stream : String) (fromByte : ℕ)
  | spWriteStdin (procId data : String)
  | spWriteControl (procId data : String)
  | spCloseStdin (procId : String)
  | spTerminate (procId : String)
  | spWaitForExit (procId : String)
  | spOutcome (procId : String)
  | termSpawn (spec : TerminalSpawnSpec)
  | termRead (termId : String) (fromByte waitMs : ℕ)
  | termWrite (termId data : String)
  | termResize (termId : String) (cols rows : ℕ)
  | termInspectForeground (termId : String)
  | termSignalForeground (termId : String) (signal : TerminalSignal)
  | termTerminate (termId : String)
  | termOutcome (termId : String)

/-- The edit of an `fs.editText`, which has to be an object. -/
def readEditMember (source : Source) (method : String) : Except Failure JsonValue :=
  require (fun value => value.asObject.map .object)
    (.invalidParams method "\"edit\" must be a JSON object") source "edit"

/-- The parameters of one method, read as `dispatch` reads them. The two spawn methods check that
the parameters are an object inside their readers. -/
def readParams (m : Method) (params : JsonValue) : Except Failure Call := do
  let source ← asRecord params m.name
  let string (field : String) := requireString source field m.name
  let integer (field : String) (minimum : ℕ) := requireInteger source field m.name minimum
  match m with
  | .fsResolve => return .fsResolve (← string "path")
  | .fsStat => return .fsStat (← string "path")
  | .fsLstat => return .fsLstat (← string "path")
  | .fsListDir => return .fsListDir (← string "path")
  | .fsReadTextChunk =>
    return .fsReadTextChunk (← string "path") (← integer "offset" 0) (← integer "length" 1)
  | .fsReadBytes => return .fsReadBytes (← string "path") (← integer "maxBytes" 0)
  | .fsReadByteRange =>
    return .fsReadByteRange (← string "path") (← integer "offset" 0) (← integer "length" 0)
  | .fsWriteText =>
    return .fsWriteText (← string "path") (← string "content") (source.lookup "expected")
  | .fsEditText =>
    return .fsEditText (← string "path") (← readEditMember source m.name)
      (← readExpectedVersion source m.name)
  | .gitWorktreeAdd =>
    return .gitWorktreeAdd (← string "repoPath") (← string "worktreePath") (← string "branch")
      (← optionalString source "baseRef" m.name)
  | .gitWorktreeList => return .gitWorktreeList (← string "repoPath")
  | .gitWorktreeRemove =>
    return .gitWorktreeRemove (← string "repoPath") (← string "worktreePath")
      (← requireBoolean source "force" m.name)
  | .gitBranchDelete =>
    return .gitBranchDelete (← string "repoPath") (← string "branch")
      (← requireBoolean source "force" m.name)
  | .gitRepoState => return .gitRepoState (← string "repoPath")
  | .gitMergeBranch => return .gitMergeBranch (← string "repoPath") (← string "branch")
  | .spResolveExecutable =>
    return .spResolveExecutable (← string "command")
      (← readEnvironment (source.lookup "env") m.name)
  | .spSpawn => return .spSpawn (← readSpawnSpec params m.name)
  | .spReadOutput =>
    return .spReadOutput (← string "procId") (← readStreamName source m.name)
      (← integer "fromByte" 0)
  | .spWriteStdin => return .spWriteStdin (← string "procId") (← string "data")
  | .spWriteControl => return .spWriteControl (← string "procId") (← string "data")
  | .spCloseStdin => return .spCloseStdin (← string "procId")
  | .spTerminate => return .spTerminate (← string "procId")
  | .spWaitForExit => return .spWaitForExit (← string "procId")
  | .spOutcome => return .spOutcome (← string "procId")
  | .termSpawn => return .termSpawn (← readTerminalSpec params m.name)
  | .termRead =>
    return .termRead (← string "termId") (← integer "fromByte" 0)
      (← optionalInteger source "waitMs" m.name 0)
  | .termWrite => return .termWrite (← string "termId") (← string "data")
  | .termResize =>
    return .termResize (← string "termId") (← readDimension source "cols" m.name)
      (← readDimension source "rows" m.name)
  | .termInspectForeground => return .termInspectForeground (← string "termId")
  | .termSignalForeground =>
    return .termSignalForeground (← string "termId") (← readTerminalSignal source m.name)
  | .termTerminate => return .termTerminate (← string "termId")
  | .termOutcome => return .termOutcome (← string "termId")

/-- `dispatch`, up to the backend that serves the call. -/
def readCall (method : String) (params : JsonValue) : Except Failure Call :=
  match Method.ofName method with
  | some m => readParams m params
  | none => .error (.methodNotFound method)

/-! ### What the plugin sends -/

/-- A number of the plugin, as it arrives: a number, or `null` for one that is not finite. -/
abbrev Sent := Option JsonNumber

/-- A number on the wire. -/
def Sent.value : Sent → JsonValue
  | some n => .number n
  | none => .null

/-- The members that `JSON.stringify` writes of an object: those that are not undefined. -/
def defined {α : Type} (members : List (String × Option α)) : List (String × α) :=
  members.filterMap fun member => member.2.map fun value => (member.1, value)

/-- An object of the plugin, as it arrives. -/
def sent (members : List (String × Option JsonValue)) : JsonValue :=
  .object (ofPairs (defined members))

/-- One stdin disposition of the plugin. -/
inductive ClientStdin where
  | ignore
  | pipe
  | data (data : String)
  deriving DecidableEq

def ClientStdin.value : ClientStdin → JsonValue
  | .ignore => .string "ignore"
  | .pipe => .string "pipe"
  | .data input => sent [("data", some (.string input))]

/-- One output disposition of the plugin. -/
inductive ClientOutput where
  | inherit
  | pipe
  | collect (maxBytes : Sent)
  deriving DecidableEq

/-- `collectSpec`: a seam output disposition in its wire form. -/
def collectSpec : ClientOutput → JsonValue
  | .inherit => .string "inherit"
  | .pipe => .string "pipe"
  | .collect maxBytes => sent [("maxBytes", some maxBytes.value)]

/-- `definedEnv`: the entries of an environment that are defined. A property of this name sets the
prototype of an object, which a text cannot be. -/
def definedEnv (env : List (String × Option String)) : List (String × Option String) :=
  env.filter fun entry => entry.1 ≠ "__proto__" ∧ entry.2.isSome

/-- An environment on the wire. -/
def envValue (env : List (String × Option String)) : JsonValue :=
  sent (env.map fun entry => (entry.1, entry.2.map .string))

/-- A spawn as the router sends it (plugin/routing/subprocess.ts:325-338). -/
structure ClientSpawn where
  argv : List String
  cwd : String
  stdin : ClientStdin
  stdout : ClientOutput
  stderr : ClientOutput
  control : Bool
  graceMs : Sent
  env : Option (List (String × Option String))

/-- A terminal as the provider asks for it (remote/tty.ts:132-139). -/
structure ClientTerminal where
  argv : List String
  cwd : String
  env : Option (List (String × Option String))
  rows : Sent
  cols : Sent
  graceMs : Sent

/-- A stream whose output is collected. -/
inductive Stream where
  | stdout
  | stderr
  deriving DecidableEq

def Stream.name : Stream → String
  | .stdout => "stdout"
  | .stderr => "stderr"

/-- The name of a signal, as the plugin sends it. -/
def TerminalSignal.name : TerminalSignal → String
  | .int => "SIGINT"
  | .term => "SIGTERM"
  | .kill => "SIGKILL"
  | .tstp => "SIGTSTP"
  | .hup => "SIGHUP"

/-- One request of the plugin. -/
inductive ClientCall where
  | fsResolve (path : String)
  | fsStat (path : String)
  | fsLstat (path : String)
  | fsListDir (path : String)
  | fsReadTextChunk (path : String) (offset length : Sent)
  | fsReadBytes (path : String) (maxBytes : Sent)
  | fsReadByteRange (path : String) (offset length : Sent)
  | fsWriteText (path content : String) (expected : Option WriteIntent)
  | fsEditText (path : String) (edit : EditRequest) (expected : Option String)
  | gitWorktreeAdd (repoPath worktreePath branch : String) (baseRef : Option String)
  | gitWorktreeList (repoPath : String)
  | gitWorktreeRemove (repoPath worktreePath : String) (force : Bool)
  | gitBranchDelete (repoPath branch : String) (force : Bool)
  | gitRepoState (repoPath : String)
  | gitMergeBranch (repoPath branch : String)
  | spResolveExecutable (command : String) (env : Option (List (String × Option String)))
  | spSpawn (spec : ClientSpawn)
  | spReadOutput (procId : String) (stream : Stream) (fromByte : Sent)
  | spWriteStdin (procId data : String)
  | spWriteControl (procId data : String)
  | spCloseStdin (procId : String)
  | spTerminate (procId : String)
  | spWaitForExit (procId : String)
  | spOutcome (procId : String)
  | termSpawn (spec : ClientTerminal)
  | termRead (termId : String) (fromByte : Sent) (waitMs : Option Sent)
  | termWrite (termId data : String)
  | termResize (termId : String) (cols rows : Sent)
  | termInspectForeground (termId : String)
  | termSignalForeground (termId : String) (signal : TerminalSignal)
  | termTerminate (termId : String)
  | termOutcome (termId : String)

/-- The method of a request. -/
def ClientCall.method : ClientCall → Method
  | .fsResolve _ => .fsResolve
  | .fsStat _ => .fsStat
  | .fsLstat _ => .fsLstat
  | .fsListDir _ => .fsListDir
  | .fsReadTextChunk _ _ _ => .fsReadTextChunk
  | .fsReadBytes _ _ => .fsReadBytes
  | .fsReadByteRange _ _ _ => .fsReadByteRange
  | .fsWriteText _ _ _ => .fsWriteText
  | .fsEditText _ _ _ => .fsEditText
  | .gitWorktreeAdd _ _ _ _ => .gitWorktreeAdd
  | .gitWorktreeList _ => .gitWorktreeList
  | .gitWorktreeRemove _ _ _ => .gitWorktreeRemove
  | .gitBranchDelete _ _ _ => .gitBranchDelete
  | .gitRepoState _ => .gitRepoState
  | .gitMergeBranch _ _ => .gitMergeBranch
  | .spResolveExecutable _ _ => .spResolveExecutable
  | .spSpawn _ => .spSpawn
  | .spReadOutput _ _ _ => .spReadOutput
  | .spWriteStdin _ _ => .spWriteStdin
  | .spWriteControl _ _ => .spWriteControl
  | .spCloseStdin _ => .spCloseStdin
  | .spTerminate _ => .spTerminate
  | .spWaitForExit _ => .spWaitForExit
  | .spOutcome _ => .spOutcome
  | .termSpawn _ => .termSpawn
  | .termRead _ _ _ => .termRead
  | .termWrite _ _ => .termWrite
  | .termResize _ _ _ => .termResize
  | .termInspectForeground _ => .termInspectForeground
  | .termSignalForeground _ _ => .termSignalForeground
  | .termTerminate _ => .termTerminate
  | .termOutcome _ => .termOutcome

/-- The guard of a write on the wire (plugin/routing/fs.ts:412-416). -/
def intentValue : WriteIntent → JsonValue
  | .createIfAbsent => sent [("kind", some (.string "createIfAbsent"))]
  | .replaceIfVersion version =>
    sent [("kind", some (.string "replaceIfVersion")), ("version", some (.string version))]

/-- An edit on the wire. -/
def editValue (edit : EditRequest) : JsonValue :=
  sent [("oldString", some (.string edit.oldString)), ("newString", some (.string edit.newString)),
    ("replaceAll", some (.bool edit.replaceAll))]

/-- The members of a spawn. -/
def ClientSpawn.members (spec : ClientSpawn) : List (String × Option JsonValue) :=
  [("argv", some (.array (spec.argv.map .string))), ("cwd", some (.string spec.cwd)),
    ("stdin", some spec.stdin.value), ("stdout", some (collectSpec spec.stdout)),
    ("stderr", some (collectSpec spec.stderr)),
    ("control", if spec.control then some (.string "pipe") else none),
    ("graceMs", some spec.graceMs.value), ("env", spec.env.map fun env => envValue (definedEnv env))]

/-- The members of a terminal. -/
def ClientTerminal.members (spec : ClientTerminal) : List (String × Option JsonValue) :=
  [("argv", some (.array (spec.argv.map .string))), ("cwd", some (.string spec.cwd)),
    ("rows", some spec.rows.value), ("cols", some spec.cols.value),
    ("graceMs", some spec.graceMs.value), ("env", spec.env.map envValue)]

/-- The members of a request. -/
def ClientCall.members : ClientCall → List (String × Option JsonValue)
  | .fsResolve path => [("path", some (.string path))]
  | .fsStat path => [("path", some (.string path))]
  | .fsLstat path => [("path", some (.string path))]
  | .fsListDir path => [("path", some (.string path))]
  | .fsReadTextChunk path offset length =>
    [("path", some (.string path)), ("offset", some offset.value),
      ("length", some length.value)]
  | .fsReadBytes path maxBytes =>
    [("path", some (.string path)), ("maxBytes", some maxBytes.value)]
  | .fsReadByteRange path offset length =>
    [("path", some (.string path)), ("offset", some offset.value),
      ("length", some length.value)]
  | .fsWriteText path content expected =>
    [("path", some (.string path)), ("content", some (.string content)),
      ("expected", expected.map intentValue)]
  | .fsEditText path edit expected =>
    [("path", some (.string path)), ("edit", some (editValue edit)),
      ("expected", expected.map fun version => sent [("version", some (.string version))])]
  | .gitWorktreeAdd repoPath worktreePath branch baseRef =>
    [("repoPath", some (.string repoPath)), ("worktreePath", some (.string worktreePath)),
      ("branch", some (.string branch)), ("baseRef", baseRef.map .string)]
  | .gitWorktreeList repoPath => [("repoPath", some (.string repoPath))]
  | .gitWorktreeRemove repoPath worktreePath force =>
    [("repoPath", some (.string repoPath)), ("worktreePath", some (.string worktreePath)),
      ("force", some (.bool force))]
  | .gitBranchDelete repoPath branch force =>
    [("repoPath", some (.string repoPath)), ("branch", some (.string branch)),
      ("force", some (.bool force))]
  | .gitRepoState repoPath => [("repoPath", some (.string repoPath))]
  | .gitMergeBranch repoPath branch =>
    [("repoPath", some (.string repoPath)), ("branch", some (.string branch))]
  | .spResolveExecutable command env =>
    [("command", some (.string command)), ("env", env.map envValue)]
  | .spSpawn spec => spec.members
  | .spReadOutput procId stream fromByte =>
    [("procId", some (.string procId)), ("stream", some (.string stream.name)),
      ("fromByte", some fromByte.value)]
  | .spWriteStdin procId data =>
    [("procId", some (.string procId)), ("data", some (.string data))]
  | .spWriteControl procId data =>
    [("procId", some (.string procId)), ("data", some (.string data))]
  | .spCloseStdin procId => [("procId", some (.string procId))]
  | .spTerminate procId => [("procId", some (.string procId))]
  | .spWaitForExit procId => [("procId", some (.string procId))]
  | .spOutcome procId => [("procId", some (.string procId))]
  | .termSpawn spec => spec.members
  | .termRead termId fromByte waitMs =>
    [("termId", some (.string termId)), ("fromByte", some fromByte.value),
      ("waitMs", waitMs.map Sent.value)]
  | .termWrite termId data =>
    [("termId", some (.string termId)), ("data", some (.string data))]
  | .termResize termId cols rows =>
    [("termId", some (.string termId)), ("cols", some cols.value), ("rows", some rows.value)]
  | .termInspectForeground termId => [("termId", some (.string termId))]
  | .termSignalForeground termId signal =>
    [("termId", some (.string termId)), ("signal", some (.string signal.name))]
  | .termTerminate termId => [("termId", some (.string termId))]
  | .termOutcome termId => [("termId", some (.string termId))]

/-- The parameters of a request. -/
def ClientCall.params (c : ClientCall) : JsonValue := sent c.members

end RemoteWorkspace.Model.Wire
