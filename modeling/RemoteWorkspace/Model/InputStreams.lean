import RemoteWorkspace.Computation.LockedSink
import RemoteWorkspace.Computation.Machine
import RemoteWorkspace.Computation.Utf8

/-!
# Input of remote processes and terminals

What a caller writes to a remote handle (plugin/routing/subprocess.ts) becomes a request
for each chunk. The requests go over one connection in order; the daemon gives each its own
task (agent/src/server.rs:112-122), and the tasks of one stream meet at a lock
(subprocess.rs:429-465, terminal.rs:148-162, 279-302).

A task is accepted when its process or terminal is found; it then waits for the lock. The
thread pool a terminal write goes through is part of that wait.
-/

set_option autoImplicit false

namespace RemoteWorkspace.Model

open RemoteWorkspace.Computation

abbrev Chunk := List UInt8

namespace ProcessInput

/-- The input side of one remote handle with piped stdin and a control channel: whether the
spawn was answered and the stdin listeners are attached, what stdin's `PassThrough` and the
control `Duplex` still hold, `pendingControl`, the request whose answer the `Duplex` waits
for, and the daemon's two sinks. `written` and `writtenControl` are what the caller wrote,
for the statements. -/
structure RemoteInput where
  known : Bool
  flowing : Bool
  stdinBuffer : List Chunk
  ended : Bool
  endSent : Bool
  controlBuffer : List Chunk
  pendingControl : List Chunk
  busy : Option ℕ
  broken : Bool
  stdin : LockedSink.Sink UInt8
  control : LockedSink.Sink UInt8
  written : List Chunk
  writtenControl : List Chunk
  deriving DecidableEq

/-- A handle that was just created (subprocess.ts:211-301). -/
def RemoteInput.created : RemoteInput where
  known := false
  flowing := false
  stdinBuffer := []
  ended := false
  endSent := false
  controlBuffer := []
  pendingControl := []
  busy := none
  broken := false
  stdin := .empty
  control := .empty
  written := []
  writtenControl := []

inductive Event
  /-- The caller writes to stdin, ends it, or writes to the control channel. -/
  | write (chunk : Chunk)
  | finish
  | writeControl (chunk : Chunk)
  /-- The spawn is answered, and the listeners are attached. -/
  | spawned
  | listen
  /-- Stdin emits its next chunk, or its end. -/
  | flow
  /-- The `Duplex` hands on its next chunk, or learns what became of the last. -/
  | handOn
  | answered
  /-- A task of the daemon moves. -/
  | stdin (e : LockedSink.Event)
  | control (e : LockedSink.Event)
  deriving DecidableEq

/-- Send some chunks as one request each. -/
def submitAll (sink : LockedSink.Sink UInt8) (chunks : List Chunk) : LockedSink.Sink UInt8 :=
  chunks.foldl (fun sink chunk => sink.submit (.write chunk)) sink

/-- One event (subprocess.ts:240-257, 339-366). -/
def step (s : RemoteInput) : Event → Option RemoteInput
  | .write chunk =>
    if s.ended then none
    else some { s with
      stdinBuffer := s.stdinBuffer ++ [chunk], written := s.written ++ [chunk] }
  | .finish => some { s with ended := true }
  | .writeControl chunk =>
    if s.broken then none
    else some { s with
      controlBuffer := s.controlBuffer ++ [chunk]
      writtenControl := s.writtenControl ++ [chunk] }
  | .spawned =>
    if s.known then none
    else some { s with
      known := true, control := submitAll s.control s.pendingControl, pendingControl := [] }
  | .listen => if s.known then some { s with flowing := true } else none
  | .flow =>
    if s.flowing then
      match s.stdinBuffer with
      | chunk :: rest =>
        -- the chunk is sent as text (subprocess.ts:361)
        let text := Utf8.reencode chunk
        some { s with stdin := s.stdin.submit (.write text), stdinBuffer := rest }
      | [] =>
        if s.ended ∧ s.endSent = false then
          some { s with stdin := s.stdin.submit .close, endSent := true }
        else none
    else none
  | .handOn =>
    if s.busy = none ∧ s.broken = false then
      match s.controlBuffer with
      | chunk :: rest =>
        if s.known then
          some { s with
            control := s.control.submit (.write chunk)
            busy := some s.control.tasks.length
            controlBuffer := rest }
        else some { s with pendingControl := s.pendingControl ++ [chunk], controlBuffer := rest }
      | [] => none
    else none
  | .answered =>
    (s.busy.bind fun i => s.control.tasks[i]?).bind fun task =>
      match task.phase with
      | .returned => some { s with busy := none }
      | .failed => some { s with busy := none, broken := true }
      | _ => none
  | .stdin e => (LockedSink.step s.stdin e).map fun stdin => { s with stdin := stdin }
  | .control e => (LockedSink.step s.control e).map fun control => { s with control := control }

/-- The input of one remote handle as a machine. -/
def machine : Machine RemoteInput Event := ⟨.created, step⟩

end ProcessInput

namespace TerminalInput

/-- The input side of one remote terminal: whether its exit was not noticed yet, and the
sink that is its PTY. `sent` is what was sent, for the statements. -/
structure RemoteTerminal where
  live : Bool
  pty : LockedSink.Sink UInt8
  sent : List Chunk
  deriving DecidableEq

/-- A terminal that was just opened. -/
def RemoteTerminal.opened : RemoteTerminal where
  live := true
  pty := .empty
  sent := []

inductive Event
  /-- A `term.write` request is sent. -/
  | write (data : Chunk)
  /-- The exit facts are stored, or the reader gives up the PTY (terminal.rs:390-425). -/
  | exited
  | released
  /-- A task of the daemon moves. -/
  | task (e : LockedSink.Event)
  deriving DecidableEq

/-- One event. A task passes `ensure_live` before it waits for the lock. -/
def step (s : RemoteTerminal) : Event → Option RemoteTerminal
  | .write data => some { s with pty := s.pty.submit (.write data), sent := s.sent ++ [data] }
  | .exited => some { s with live := false }
  | .released =>
    if s.pty.holder = none then some { s with pty := { s.pty with closed := true } } else none
  | .task (.accept i) =>
    if s.live then (LockedSink.step s.pty (.accept i)).map fun pty => { s with pty := pty }
    else none
  | .task e => (LockedSink.step s.pty e).map fun pty => { s with pty := pty }

/-- The input of one terminal as a machine. -/
def machine : Machine RemoteTerminal Event := ⟨.opened, step⟩

end TerminalInput

end RemoteWorkspace.Model
