import RemoteWorkspace.Computation.Machine
import RemoteWorkspace.Model.FsText

/-!
# One start of a process

`SubprocessBackend::spawn` (agent/src/subprocess.rs:190-302) from its request to its answer,
with the child it starts, the connection that may close meanwhile, and the part of the
client's `run` that follows (plugin/routing/subprocess.ts:322-358).

One event is one fallible step of the spawn, one write to the child's stdin, something the
child does, or one of the client's requests. What the system answers is part of the event;
the write end of a pipe fails exactly when nobody holds the other end. The tasks around a
managed process, its windows and its environment are part of `Subprocess` and
`ProcessOutput`. `started`, `entered` and `piped` are for the statements.
-/

set_option autoImplicit false

namespace RemoteWorkspace.Model

open RemoteWorkspace.Computation

namespace SpawnRequest

open FsText (Failure)

abbrev Bytes := List UInt8

/-- One stdin disposition (protocol.rs:25). -/
inductive StdinMode
  | ignore
  | pipe
  | data (data : Bytes)
  deriving DecidableEq

/-- One output disposition. -/
inductive OutputMode
  | inherit
  | pipe
  | collect (maxBytes : ℕ)
  deriving DecidableEq

/-- A spawn request (protocol.rs:47-64), without its environment and its grace period. -/
structure SpawnSpec where
  argv : List String
  cwd : String
  stdin : StdinMode
  stdout : OutputMode
  stderr : OutputMode
  control : Bool
  deriving DecidableEq

/-- `stdin_disposition`: whether the child's stdin is a pipe (subprocess.rs:684-689). -/
def piped : StdinMode → Bool
  | .ignore => false
  | .pipe => true
  | .data _ => true

/-- `program` and `cwd`, before anything is opened (subprocess.rs:150-156). -/
def prepare (spec : SpawnSpec) (usableDirectory : Except Failure String) :
    Except Failure (String × String) :=
  match spec.argv with
  | [] => .error ⟨"SP_SPAWN_FAILED", "cannot spawn: argv does not name a program"⟩
  | program :: _ => usableDirectory.map fun cwd => (program, cwd)

/-- The program of a request that has one. -/
def SpawnSpec.program (spec : SpawnSpec) : String := spec.argv.headD ""

def controlPairFailed (error : String) : Failure :=
  ⟨"SP_SPAWN_FAILED", "cannot create the control channel: " ++ error⟩

def spawnFailed (spec : SpawnSpec) (error : String) : Failure :=
  ⟨"SP_SPAWN_FAILED", "cannot spawn \"" ++ spec.program ++ "\": " ++ error⟩

def adoptFailed (error : String) : Failure :=
  ⟨"SP_SPAWN_FAILED", "cannot adopt the control channel: " ++ error⟩

def noProcessId (spec : SpawnSpec) : Failure :=
  ⟨"SP_SPAWN_FAILED", "cannot spawn \"" ++ spec.program ++ "\": the child has no process id"⟩

/-- What `write_stdin_bytes` fails with (subprocess.rs:428-443). -/
def notPiped : Failure :=
  ⟨"SP_UNSUPPORTED_STDIO", "this process was not started with piped stdin"⟩

def writeFailed (error : String) : Failure :=
  ⟨"SP_UNSUPPORTED_STDIO", "cannot write to stdin: " ++ error⟩

/-- How far a spawn is: at the step that is named, or answered. -/
inductive Phase
  | preparing
  | pairing
  | starting
  | adopting
  | identifying
  | entering
  | sealed
  | feeding (rest : Bytes)
  | closingStdin
  | answered (answer : Except Failure Unit)
  deriving DecidableEq

/-- How far the client's `run` is: it waits for the answer, has its batch still to send, or to
close, or is past both, or has given the start up. -/
inductive Client
  | waiting
  | writing
  | closing
  | running
  | failed
  deriving DecidableEq

/-- One spawn: the child, whether a process holds the read end of its stdin, the daemon's write
end, whether the daemon keeps a `ManagedProcess` for it and has it in the table, and whether
the connection has closed. `started` and `entered` say whether the child was ever started and
in the table, `piped` what was written to its stdin. -/
structure Spawning where
  phase : Phase
  running : Bool
  reading : Bool
  stdin : Bool
  managed : Bool
  listed : Bool
  closed : Bool
  client : Client
  started : Bool
  entered : Bool
  piped : Bytes
  deriving DecidableEq

/-- A request that was just received. -/
def Spawning.received : Spawning where
  phase := .preparing
  running := false
  reading := false
  stdin := false
  managed := false
  listed := false
  closed := false
  client := .waiting
  started := false
  entered := false
  piped := []

/-- The spawn answers with a failure. -/
def Spawning.fails (s : Spawning) (failure : Failure) : Spawning :=
  { s with phase := .answered (.error failure) }

inductive Event
  /-- The steps before the child is started, and what the system answers. -/
  | prepare (usableDirectory : Except Failure String)
  | openControlPair (answer : Except String Unit)
  | start (answer : Except String Unit)
  /-- The steps after it. -/
  | adopt (answer : Except String Unit)
  | identify (found : Bool)
  | enter
  | dispose
  | feed (n : ℕ)
  | feedFails (error : String)
  | fed
  | closeStdin
  /-- The child forgets its stdin, or ends. -/
  | childClosesStdin
  | childExits
  /-- The connection closes, and all managed processes are killed. -/
  | close
  /-- The client gets the answer, and its batch requests are served. -/
  | receive
  | writeStdin
  | closeStdinAgain
  deriving DecidableEq

/-- What follows once the process is registered (subprocess.rs:297-300). -/
def feeding (spec : SpawnSpec) : Phase :=
  match spec.stdin with
  | .data data => .feeding data
  | _ => .answered (.ok ())

/-- One event; `none` when it cannot happen. -/
def step (spec : SpawnSpec) (s : Spawning) : Event → Option Spawning
  | .prepare usableDirectory =>
    if s.phase = .preparing then
      match SpawnRequest.prepare spec usableDirectory with
      | .error failure => some (s.fails failure)
      | .ok _ => some { s with phase := if spec.control then .pairing else .starting }
    else none
  | .openControlPair answer =>
    if s.phase = .pairing then
      match answer with
      | .error error => some (s.fails (controlPairFailed error))
      | .ok () => some { s with phase := .starting }
    else none
  | .start answer =>
    if s.phase = .starting then
      match answer with
      | .error error => some (s.fails (spawnFailed spec error))
      | .ok () =>
        some { s with
          phase := if spec.control then .adopting else .identifying
          running := true
          reading := SpawnRequest.piped spec.stdin
          stdin := SpawnRequest.piped spec.stdin
          started := true }
    else none
  | .adopt answer =>
    if s.phase = .adopting then
      match answer with
      -- the child's handle is dropped, which neither kills nor waits for it
      | .error error => some { s.fails (adoptFailed error) with stdin := false }
      | .ok () => some { s with phase := .identifying }
    else none
  | .identify found =>
    if s.phase = .identifying then
      if found then some { s with phase := .entering, managed := true }
      else some { s.fails (noProcessId spec) with stdin := false }
    else none
  | .enter =>
    if s.phase = .entering then
      if s.closed then some { s with phase := .sealed }
      else some { s with phase := feeding spec, listed := true, entered := true }
    else none
  | .dispose =>
    if s.phase = .sealed then some { s with phase := feeding spec, running := false }
    else none
  | .feed n =>
    match s.phase with
    | .feeding rest =>
      if s.stdin = false then some (s.fails notPiped)
      else if 0 < n ∧ n ≤ rest.length ∧ s.reading then
        some { s with phase := .feeding (rest.drop n), piped := s.piped ++ rest.take n }
      else none
    | _ => none
  | .feedFails error =>
    match s.phase with
    | .feeding rest =>
      if s.stdin ∧ s.reading = false ∧ rest ≠ [] then some (s.fails (writeFailed error)) else none
    | _ => none
  | .fed =>
    match s.phase with
    | .feeding rest =>
      if s.stdin ∧ rest = [] then some { s with phase := .closingStdin } else none
    | _ => none
  | .closeStdin =>
    if s.phase = .closingStdin then some { s with phase := .answered (.ok ()), stdin := false }
    else none
  | .childClosesStdin => some { s with reading := false }
  | .childExits => if s.running then some { s with running := false } else none
  | .close =>
    if s.closed then none
    else some { s with closed := true, listed := false, running := s.running && !s.listed }
  | .receive =>
    if s.client = .waiting then
      match s.phase, spec.stdin with
      | .answered (.error _), _ => some { s with client := .failed }
      | .answered (.ok ()), .data _ => some { s with client := .writing }
      | .answered (.ok ()), _ => some { s with client := .running }
      | _, _ => none
    else none
  | .writeStdin =>
    if s.client = .writing then
      match spec.stdin with
      | .data data =>
        -- refused when the process is not in the table, or its stdin is gone
        some { s with
          client := .closing
          piped := s.piped ++ if s.listed ∧ s.stdin ∧ s.reading then data else [] }
      | _ => none
    else none
  | .closeStdinAgain =>
    if s.client = .closing then
      some { s with client := .running, stdin := s.stdin && !s.listed }
    else none

/-- One spawn as a machine. -/
def machine (spec : SpawnSpec) : Machine Spawning Event := ⟨.received, step spec⟩

end SpawnRequest

end RemoteWorkspace.Model
