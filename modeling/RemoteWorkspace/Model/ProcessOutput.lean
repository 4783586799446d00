import RemoteWorkspace.Model.Subprocess
import Mathlib.Logic.Function.Basic

/-!
# The output of one process, end to end

One spawn with all the tasks its output passes through: the readers of the child's pipes
(`read_stream` and `capture`, agent/src/subprocess.rs), the reaper and the waiter beside
them, the bounded queue and the writer of the connection (agent/src/outbound.rs,
agent/src/server.rs), and the handle on the client with its `run` and its handler for pipe
frames (plugin/routing/subprocess.ts).

The runtime has several threads: an event is one section under a lock, one system call, one
frame queued or taken off the connection. A window a collected stream is pushed to is the
one of `CollectedOutput`; here only what it was given counts. Of other processes and other
handles on the same connection there is what they do to this one: they take places in the
queue, and they take the slot for the notification.

`written` and `captured` are for the statements; the code does not keep them.
-/

set_option autoImplicit false

namespace RemoteWorkspace.Model

open RemoteWorkspace.Computation

namespace ProcessOutput

/-- One of a child's captured streams (subprocess.rs:52-57). -/
inductive Which
  | out
  | err
  | control
  deriving DecidableEq

/-- What becomes of a stream. -/
inductive OutputMode
  | inherit
  | pipe
  | collect
  deriving DecidableEq

/-- A byte in a pipe, and whether a member of the managed range wrote it: a process that
left the range may still hold the write end. -/
structure Sent where
  byte : UInt8
  inRange : Bool
  deriving DecidableEq

/-- How far `read_stream` is (subprocess.rs:572-588): in its read, with a chunk before
`capture`, with a chunk that passed the check of the flags, refused but not yet marked
abandoned, abandoned but not yet terminated, out of the loop, or over. -/
inductive Reader
  | reading
  | capturing (chunk : List Sent)
  | notifying (chunk : List Sent)
  | abandoning
  | terminating
  | leaving
  | ended
  deriving DecidableEq

/-- One stream: what becomes of it, whether some process holds its write end, what is in
the pipe, its reader and its frame counter; then what was written to the pipe, and what was
pushed into the window or queued as frames. -/
structure Stream where
  mode : OutputMode
  writable : Bool
  pipe : List Sent
  reader : Reader
  sequence : ℕ
  written : List Sent
  captured : List Sent
  deriving DecidableEq

/-- A stream of a child that was just started. -/
def Stream.started (mode : OutputMode) : Stream where
  mode := mode
  writable := mode ≠ .inherit
  pipe := []
  reader := if mode = .inherit then .ended else .reading
  sequence := 0
  written := []
  captured := []

/-- The chunk a reader holds. -/
def Stream.held (x : Stream) : List Sent :=
  match x.reader with
  | .capturing chunk => chunk
  | .notifying chunk => chunk
  | _ => []

/-- Bytes into the pipe, as long as both of its ends are open. -/
def Stream.write (x : Stream) (bytes : List Sent) : Option Stream :=
  if x.writable ∧ x.reader ≠ .ended ∧ bytes ≠ [] then
    some { x with pipe := x.pipe ++ bytes, written := x.written ++ bytes }
  else none

/-- The last process that holds the write end lets it go. -/
def Stream.closeEnd (x : Stream) : Option Stream :=
  if x.writable then some { x with writable := false } else none

/-- A read of `n` bytes. -/
def Stream.read (x : Stream) (n : ℕ) : Option Stream :=
  if x.reader = .reading ∧ 0 < n ∧ n ≤ 65536 ∧ n ≤ x.pipe.length then
    some { x with pipe := x.pipe.drop n, reader := .capturing (x.pipe.take n) }
  else none

/-- A read that ends the loop: at the end of the file, or with an error. -/
def Stream.readEnd (x : Stream) (failed : Bool) : Option Stream :=
  if x.reader = .reading ∧ (failed ∨ x.pipe = [] ∧ x.writable = false) then
    some { x with reader := .leaving }
  else none

/-- What is queued on the connection. -/
inductive Message
  | spawned
  | pipe (which : Which) (seq : ℕ) (data : List Sent)
  | exited
  | outcome (facts : Option Subprocess.Outcome)
  | other
  deriving DecidableEq

/-- How far `run` of the handle is (subprocess.ts:324-381): waiting for the answer to one of
its requests, fetching what was collected, or over; `done` is resolved or rejected with it. -/
inductive Run
  | spawning
  | waiting
  | draining
  | asking
  | resolved (facts : Option Subprocess.Outcome)
  | rejected
  deriving DecidableEq

/-- A frame the handle holds until it knows its process. -/
structure Frame where
  which : Which
  data : List Sent
  deriving DecidableEq

/-- The client's side: `run`, whether the connection's slot holds the handler of this
handle, the frames held back, and what each stream was given. -/
structure Handle where
  run : Run
  mine : Bool
  buffered : List Frame
  received : Which → List Sent

/-- The whole: the managed process with its flag for refused frames, its streams, whether
`wait_for_exit` returned without its answer being queued yet, whether the daemon took up the
request the client waits for, whether `close` was called, the queue and the writer of the
connection, what is on its way to the client, and the handle. -/
structure System where
  managed : Subprocess.ManagedProcess
  abandoned : Bool
  streams : Which → Stream
  answering : Bool
  taken : Bool
  closed : Bool
  queue : List Message
  writing : Bool
  socket : List Message
  handle : Handle

/-- Frames one connection may have queued (server.rs:33). -/
def writeBacklogFrames : ℕ := 1024

/-- How many streams have a reader. -/
def readers (mode : Which → OutputMode) : ℕ :=
  ([Which.out, .err, .control].filter fun w => mode w ≠ .inherit).length

/-- A child that was just started for a handle with these streams. -/
def System.started (mode : Which → OutputMode) : System where
  managed := .started (readers mode)
  abandoned := false
  streams := fun w => .started (mode w)
  answering := false
  taken := true
  closed := false
  queue := []
  writing := true
  socket := []
  handle :=
    { run := .spawning
      mine := [Which.out, .err, .control].any fun w => mode w = .pipe
      buffered := []
      received := fun _ => [] }

/-- Replace one stream. -/
def System.setStream (s : System) (w : Which) (x : Stream) : System :=
  { s with streams := Function.update s.streams w x }

/-- Something happens to one stream. -/
def System.onStream (s : System) (w : Which) (f : Stream → Option Stream) : Option System :=
  (f (s.streams w)).map fun x => s.setStream w x

/-- Whether the queue has room and someone to empty it. -/
def System.hasRoom (s : System) : Bool :=
  s.writing && decide (s.queue.length < writeBacklogFrames)

/-- Queue one frame. -/
def System.enqueue (s : System) (message : Message) : System :=
  { s with queue := s.queue ++ [message] }

/-- `capture` up to the check of the flags (subprocess.rs:532-553). -/
def capture (s : System) (w : Which) (chunk : List Sent) : System :=
  let x := s.streams w
  match x.mode with
  | .pipe =>
    if s.managed.disposed ∨ s.abandoned ∨ s.managed.settled.isSome then
      s.setStream w { x with reader := .reading }
    else s.setStream w { x with reader := .notifying chunk }
  | _ => s.setStream w { x with reader := .reading, captured := x.captured ++ chunk }

/-- The frame and `try_notify` (subprocess.rs:554-561, outbound.rs:60-64). -/
def tryNotify (s : System) (w : Which) (chunk : List Sent) : System :=
  let x := s.streams w
  if s.hasRoom then
    (s.enqueue (.pipe w x.sequence chunk)).setStream w
      { x with
        reader := .reading
        sequence := x.sequence + 1
        captured := x.captured ++ chunk }
  else
    s.setStream w { x with reader := .abandoning, sequence := x.sequence + 1 }

/-- `deliverPipeFrame` (subprocess.ts:259-269). A frame is for a stream that is piped. -/
def deliverPipeFrame (x : Handle) (frame : Frame) : Handle :=
  { x with
    received :=
      Function.update x.received frame.which (x.received frame.which ++ frame.data) }

/-- What the connection's handler does with a frame (subprocess.ts:271-279). -/
def onPipeFrame (x : Handle) (frame : Frame) : Handle :=
  if x.mine = false then x
  else if x.run = .spawning then { x with buffered := x.buffered ++ [frame] }
  else deliverPipeFrame x frame

/-- `closePipes` (subprocess.ts:282-289). -/
def closePipes (x : Handle) : Handle := { x with mine := false }

/-- What the answer to `sp.spawn` does (subprocess.ts:339-347). -/
def started (x : Handle) : Handle :=
  { x.buffered.foldl deliverPipeFrame { x with run := .waiting } with buffered := [] }

/-- The client takes one message off the connection. -/
def receive (s : System) : Message → System
  | .spawned =>
    if s.handle.run = .spawning then { s with handle := started s.handle, taken := false } else s
  | .pipe w _ data => { s with handle := onPipeFrame s.handle ⟨w, data⟩ }
  | .exited =>
    if s.handle.run = .waiting then { s with handle := { s.handle with run := .draining } }
    else s
  | .outcome facts =>
    if s.handle.run = .asking then
      { s with handle := { closePipes s.handle with run := .resolved facts } }
    else s
  | .other => s

/-- What happens to a managed process beside its readers, its waiter and `close`. -/
def isTask : Subprocess.Event → Bool
  | .readerEnds => false
  | .waitForExit => false
  | .exitSeen => false
  | .dispose => false
  | _ => true

/-- What can happen next. -/
inductive Event
  /-- Something happens to the process beside its readers. -/
  | proc (e : Subprocess.Event)
  /-- A process writes to a stream, or the last one closes its end. -/
  | write (w : Which) (bytes : List UInt8) (inRange : Bool)
  | closeEnd (w : Which)
  /-- The reader of a stream: a read, the read that ends its loop, what it does with a chunk,
  and its end. -/
  | read (w : Which) (n : ℕ)
  | readEnd (w : Which) (failed : Bool)
  | capture (w : Which)
  | tryNotify (w : Which)
  | abandon (w : Which)
  | terminate (w : Which)
  | readerEnds (w : Which)
  /-- `close` is called, and disposes this process. -/
  | close
  | dispose
  /-- The spawn is answered. -/
  | answerSpawn
  /-- `sp.waitForExit` is taken up, returns, and is answered. -/
  | waitForExit
  | exitSeen
  | answerExit
  /-- `sp.outcome` is answered. -/
  | answerOutcome
  /-- Something else on the connection is queued. -/
  | queueOther
  /-- The writer writes one frame, or stops. -/
  | transmit
  | writerStops
  /-- The client takes the next message off the connection. -/
  | dispatch
  /-- Another handle of the channel registers, or is over. -/
  | slotTaken
  /-- Everything collected was fetched. -/
  | drained
  /-- The request the client waits for fails. -/
  | requestFails
  deriving DecidableEq

/-- One event. -/
def step (s : System) : Event → Option System
  | .proc e =>
    if isTask e then (Subprocess.step s.managed e).map fun m => { s with managed := m } else none
  | .write w bytes inRange =>
    if inRange → s.managed.group.leader = .running ∨ 0 < s.managed.group.others then
      s.onStream w fun x => x.write (bytes.map fun byte => ⟨byte, inRange⟩)
    else none
  | .closeEnd w => s.onStream w Stream.closeEnd
  | .read w n => s.onStream w fun x => x.read n
  | .readEnd w failed => s.onStream w fun x => x.readEnd failed
  | .capture w =>
    match (s.streams w).reader with
    | .capturing chunk => some (capture s w chunk)
    | _ => none
  | .tryNotify w =>
    match (s.streams w).reader with
    | .notifying chunk => some (tryNotify s w chunk)
    | _ => none
  | .abandon w =>
    if (s.streams w).reader = .abandoning then
      some ({ s with abandoned := true }.setStream w
        { s.streams w with reader := .terminating })
    else none
  | .terminate w =>
    if (s.streams w).reader = .terminating then
      some ({ s with managed := Subprocess.terminate s.managed }.setStream w
        { s.streams w with reader := .reading })
    else none
  | .readerEnds w =>
    if (s.streams w).reader = .leaving then
      some ({ s with managed := { s.managed with readersLeft := s.managed.readersLeft - 1 }
        }.setStream w { s.streams w with reader := .ended })
    else none
  | .close => some { s with closed := true }
  | .dispose =>
    if s.closed then some { s with managed := Subprocess.dispose s.managed } else none
  | .answerSpawn =>
    if s.handle.run = .spawning ∧ s.taken ∧ s.hasRoom then
      some ({ s with taken := false }.enqueue .spawned)
    else none
  | .waitForExit =>
    if s.handle.run = .waiting ∧ s.taken = false ∧ s.closed = false then
      (Subprocess.step s.managed .waitForExit).map fun m => { s with managed := m, taken := true }
    else none
  | .exitSeen =>
    (Subprocess.step s.managed .exitSeen).map fun m => { s with managed := m, answering := true }
  | .answerExit =>
    if s.answering ∧ s.hasRoom then some ({ s with answering := false }.enqueue .exited) else none
  | .answerOutcome =>
    if s.handle.run = .asking ∧ s.taken = false ∧ s.closed = false ∧ s.hasRoom then
      some ({ s with taken := true }.enqueue (.outcome s.managed.settled))
    else none
  | .queueOther => if s.hasRoom then some (s.enqueue .other) else none
  | .transmit =>
    match s.queue with
    | [] => none
    | message :: rest =>
      if s.writing then some { s with queue := rest, socket := s.socket ++ [message] } else none
  | .writerStops => some { s with writing := false }
  | .dispatch =>
    match s.socket with
    | [] => none
    | message :: rest => some (receive { s with socket := rest } message)
  | .slotTaken => some { s with handle := { s.handle with mine := false } }
  | .drained =>
    if s.handle.run = .draining then
      some { s with handle := { s.handle with run := .asking }, taken := false }
    else none
  | .requestFails =>
    match s.handle.run with
    | .resolved _ => none
    | .rejected => none
    | _ => some { s with handle := { closePipes s.handle with run := .rejected } }

/-- The output of one process as a machine. -/
def machine (mode : Which → OutputMode) : Machine System Event := ⟨.started mode, step⟩

end ProcessOutput

end RemoteWorkspace.Model
