import RemoteWorkspace.Computation.Machine
import Mathlib.Logic.Function.Basic

/-!
# Piped streams over one node channel

The client side of `sp.pipe` frames: `createRemoteHandle` (plugin/routing/subprocess.ts)
registers a handler for each spawn with a piped stream and feeds that handle's streams
from it, and `onPipeFrame` (remote/client.ts) puts the handler into the connection's one
slot for the notification. The daemon is the source of the frames: it starts a process for
a spawn request, answers it, and queues frames for it, and all of it goes over one
connection in the order it was queued (outbound.rs).

A handle is named by its place among the handles of the channel, a process by its place
among the processes the daemon started. Frame data are the decoded bytes. `frames` is what
the daemon queued so far, for the statements; the code does not keep it.
-/

set_option autoImplicit false

namespace RemoteWorkspace.Model

open RemoteWorkspace.Computation

namespace PipeFrames

abbrev Bytes := List UInt8

abbrev ProcId := ℕ

inductive PipeStream
  | stdout
  | stderr
  | control
  deriving DecidableEq

/-- One pushed chunk (remote/protocol.ts). -/
structure SpPipeFrame where
  procId : ProcId
  stream : PipeStream
  data : Bytes
  deriving DecidableEq

/-- The variables of one `createRemoteHandle` call that piped streams use
(subprocess.ts:226-280): which streams are piped, the process id once it is known, the
frames that came before it, what each stream was given, whether `offPipe` is set, and
whether the spawn was refused. -/
structure RemoteHandle where
  piped : PipeStream → Bool
  procId : Option ProcId
  bufferedFrames : List SpPipeFrame
  received : PipeStream → Bytes
  offPipe : Bool
  refused : Bool

/-- The notification handler a connection has installed: that of one handle, or the one
that ignores every frame. -/
inductive Slot
  | handler (h : ℕ)
  | ignore
  deriving DecidableEq

/-- What the daemon queued on the connection. -/
inductive Message
  | spawned (h : ℕ) (procId : ProcId)
  | pipe (frame : SpPipeFrame)
  deriving DecidableEq

/-- One node channel with its handles, and the daemon behind it: the handle each process
was started for, and the processes whose spawn it answered. -/
structure Channel where
  handles : List RemoteHandle
  slot : Option Slot
  wire : List Message
  procs : List ℕ
  answered : List ProcId
  frames : List SpPipeFrame

/-- A channel nothing was spawned on. -/
def Channel.empty : Channel where
  handles := []
  slot := none
  wire := []
  procs := []
  answered := []
  frames := []

/-- `deliverPipeFrame` (subprocess.ts:259-269). -/
def deliverPipeFrame (handle : RemoteHandle) (frame : SpPipeFrame) : RemoteHandle :=
  if handle.procId ≠ some frame.procId then handle
  else if handle.piped frame.stream then
    let bytes := handle.received frame.stream ++ frame.data
    { handle with received := Function.update handle.received frame.stream bytes }
  else handle

/-- The handler a handle registers (subprocess.ts:271-279). -/
def onPipeFrame (handle : RemoteHandle) (frame : SpPipeFrame) : RemoteHandle :=
  match handle.procId with
  | none => { handle with bufferedFrames := handle.bufferedFrames ++ [frame] }
  | some _ => deliverPipeFrame handle frame

/-- What the spawn answer does to its handle (subprocess.ts:339-343). -/
def started (handle : RemoteHandle) (procId : ProcId) : RemoteHandle :=
  { handle.bufferedFrames.foldl deliverPipeFrame { handle with procId := some procId } with
    bufferedFrames := [] }

/-- A handle that was just created (subprocess.ts:226-280). -/
def createRemoteHandle (piped : PipeStream → Bool) : RemoteHandle where
  piped := piped
  procId := none
  bufferedFrames := []
  received := fun _ => []
  offPipe := piped .stdout || piped .stderr || piped .control
  refused := false

/-- Change one handle. -/
def Channel.setHandle (s : Channel) (h : ℕ) (f : RemoteHandle → RemoteHandle) : Channel :=
  { s with handles := s.handles.modify h f }

/-- `closePipes`: the handle's disposer puts the ignoring handler into the slot, whichever
handler is there (subprocess.ts:282-289, client.ts:219-221). -/
def closePipes (s : Channel) (h : ℕ) (handle : RemoteHandle) : Channel :=
  if handle.offPipe then
    { s.setHandle h fun x => { x with offPipe := false } with slot := some .ignore }
  else s

/-- The client takes one message off the connection. -/
def receive (s : Channel) : Message → Channel
  | .spawned h procId =>
    s.setHandle h fun handle => if handle.refused then handle else started handle procId
  | .pipe frame =>
    match s.slot with
    | some (.handler h) => s.setHandle h fun handle => onPipeFrame handle frame
    | some .ignore => s
    | none => s

/-- What can happen next. -/
inductive Event
  /-- A caller spawns with these streams piped. -/
  | spawn (piped : PipeStream → Bool)
  /-- The daemon starts a process for handle `h`, or answers its spawn. -/
  | start (h : ℕ)
  | answer (procId : ProcId)
  /-- The daemon queues a chunk it read from a piped stream of a process. -/
  | queue (procId : ProcId) (stream : PipeStream) (data : Bytes)
  /-- The client takes the next message off the connection. -/
  | dispatch
  /-- The spawn of handle `h` is refused, or its connection is lost. -/
  | refuse (h : ℕ)
  /-- Everything the handle waits for has settled, one way or the other. -/
  | finish (h : ℕ)

/-- One event. -/
def step (s : Channel) : Event → Option Channel
  | .spawn piped =>
    let handle := createRemoteHandle piped
    some { s with
      handles := s.handles ++ [handle]
      slot := if handle.offPipe then some (.handler s.handles.length) else s.slot }
  | .start h =>
    if h < s.handles.length ∧ h ∉ s.procs then some { s with procs := s.procs ++ [h] } else none
  | .answer procId =>
    match s.procs[procId]? with
    | some h =>
      if procId ∈ s.answered then none
      else some { s with
        wire := s.wire ++ [.spawned h procId], answered := s.answered ++ [procId] }
    | none => none
  | .queue procId stream data =>
    match (s.procs[procId]?).bind fun h => s.handles[h]? with
    | some handle =>
      if handle.piped stream ∧ data ≠ [] then
        some { s with
          wire := s.wire ++ [.pipe ⟨procId, stream, data⟩]
          frames := s.frames ++ [⟨procId, stream, data⟩] }
      else none
    | none => none
  | .dispatch =>
    match s.wire with
    | [] => none
    | message :: rest => some (receive { s with wire := rest } message)
  | .refuse h =>
    match s.handles[h]? with
    | some handle =>
      if handle.procId = none ∧ handle.refused = false then
        some (closePipes (s.setHandle h fun x => { x with refused := true }) h handle)
      else none
    | none => none
  | .finish h =>
    match s.handles[h]? with
    | some handle => if handle.procId ≠ none then some (closePipes s h handle) else none
    | none => none

/-- The channel as a machine. -/
def machine : Machine Channel Event := ⟨.empty, step⟩

end PipeFrames

end RemoteWorkspace.Model
