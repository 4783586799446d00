import RemoteWorkspace.Model.TerminalBridge
import RemoteWorkspace.Model.TerminalTool

/-!
# A socket over the registry

`attachTerminal` (terminal/host/terminal.ts) with the registry it calls: the socket's variables
are those of the bridge, what the registry answers comes from the registry itself, and everything
else that happens to the registry, other sockets included, happens in between. The rest of `open`
runs some time after its shell was registered, since a promise is in between.

How a resize of the shell goes on is left to the bridge. What a keystroke is written to is kept;
whether the shell takes it is not.
-/

set_option autoImplicit false

namespace RemoteWorkspace.Model.TerminalSocket

open RemoteWorkspace.Computation RemoteWorkspace.Model.TerminalRegistry
open RemoteWorkspace.Model.TerminalBridge (Bridge Shell Size)

/-- How far the socket's `open` is: it resolves its workspace, its shell is asked for, or that is
registered and the rest of `open` is to run. -/
inductive Call
  | idle
  | resolving (sessionId : String)
  | spawning (o : ℕ)
  | registered (n : ℕ)
  deriving DecidableEq

/-- The registry, the variables of the socket, its `open`, the keystrokes it holds, and those it
handed to the registry for a terminal. -/
structure Socket where
  registry : Registry
  bridge : Bridge
  call : Call
  typed : List String
  written : List (String × String)

/-- A socket that was just accepted, over a registry nothing was opened in. -/
def Socket.accepted : Socket where
  registry := .empty
  bridge := .accepted
  call := .idle
  typed := []
  written := []

/-- `MAX_PENDING_INPUT` (terminal.ts:37). -/
def maxPendingInput : ℕ := 256

/-- What can happen next. -/
inductive SocketEvent
  /-- A frame. -/
  | open (sessionId : String) (cols rows : Option Rat)
  | attach (sessionId : String) (id : Option String) (cols rows : Option Rat)
  | input (data : String)
  | resize (cols rows : Option Rat)
  /-- The workspace is resolved, or it is not. -/
  | resolved (cwd : Except String String)
  /-- The shell is spawned and registered, or it is not. -/
  | spawned (pid : ℕ)
  | failed (error : String)
  /-- The rest of `open`. -/
  | resumed
  /-- The socket drops, and its `close` or `error` is delivered. -/
  | dropped
  | stop
  /-- Anything else happens to the registry. -/
  | registry (e : TerminalRegistry.Event)

/-- What a `ready` frame says of an entry, and the size it has. -/
def shellOf (entry : TerminalEntry) : Shell := ⟨entry.handle.pid, entry.cwd, entry.id, entry.label⟩

def sizeOf (entry : TerminalEntry) : Size := ⟨entry.cols, entry.rows⟩

namespace Socket

/-- Whether an event of the registry is one that this socket does not cause. -/
def foreign (s : Socket) (me : TerminalSink) : TerminalRegistry.Event → Prop
  | .attach _ sink => sink ≠ me
  | .detach _ sink => sink ≠ me
  | .spawned o _ => s.call ≠ .spawning o
  | .spawnFailed o => s.call ≠ .spawning o
  | _ => True

instance (s : Socket) (me : TerminalSink) (e : TerminalRegistry.Event) :
    Decidable (s.foreign me e) := by
  unfold foreign
  split <;> infer_instance

/-- Whether a frame that asks for a terminal gets further than `claim`. -/
def claims (s : Socket) : Bool := !s.bridge.closed && s.bridge.claim

/-- `flushTyped` (terminal.ts:133-135). -/
def flushTyped (s : Socket) (id : String) : Socket :=
  { s with typed := [], written := s.written ++ s.typed.map fun data => (id, data) }

/-- The rest of `open`, once entry `n` is registered (terminal.ts:147-158). -/
def endOpen (s : Socket) (me : TerminalSink) (n : ℕ) : Socket :=
  let entry := s.registry.entries n
  let ended (refusal : Option String) :=
    { s with bridge := s.bridge.endOpen (sizeOf entry) (shellOf entry) refusal, call := .idle }
  if s.bridge.closed = true then { ended none with registry := kill s.registry entry.id }
  else
    match attach s.registry entry.id me with
    | .ok registry => { ended none with registry := registry }.flushTyped entry.id
    | .error message => ended (some message)

/-- `reattach` (terminal.ts:178-201). -/
def reattach (s : Socket) (me : TerminalSink) (sessionId : String) (id : Option String)
    (cols rows : Option Rat) : Socket :=
  -- where `claim` refuses, the registry is not asked
  if s.claims = false then { s with bridge := s.bridge.reattach cols rows (.error "") }
  else
    match TerminalRegistry.reattach s.registry sessionId id me with
    | .ok (n, registry) =>
      let entry := s.registry.entries n
      { s with
        registry := registry
        bridge := s.bridge.reattach cols rows (.ok (shellOf entry, sizeOf entry))
      }.flushTyped entry.id
    | .error message => { s with bridge := s.bridge.reattach cols rows (.error message) }

/-- An `input` frame (terminal.ts:217-225). -/
def input (s : Socket) (data : String) : Socket :=
  match s.bridge.entryId with
  | none => if s.typed.length < maxPendingInput then { s with typed := s.typed ++ [data] } else s
  | some id => { s with written := s.written ++ [(id, data)] }

/-- `stop` (terminal.ts:117-123). -/
def stop (options : Options) (s : Socket) (me : TerminalSink) : Socket :=
  if s.bridge.closed = true then s
  else
    match s.bridge.entryId with
    | none => { s with bridge := s.bridge.detach }
    | some id =>
      { s with registry := detach options s.registry id me, bridge := s.bridge.detach }

/-- One event. -/
def step (options : Options) (me : TerminalSink) (s : Socket) : SocketEvent → Option Socket
  | .open sessionId cols rows =>
    some { s with
      bridge := s.bridge.beginOpen cols rows
      call := if s.claims = true then .resolving sessionId else s.call }
  | .attach sessionId id cols rows => some (s.reattach me sessionId id cols rows)
  | .input data => some (s.input data)
  | .resize cols rows => some { s with bridge := s.bridge.applySize cols rows }
  | .resolved cwd =>
    match s.call, cwd with
    | .resolving _, .error message =>
      some { s with bridge := s.bridge.failOpen message, call := .idle }
    | .resolving sessionId, .ok cwd =>
      let size := s.bridge.requested
      (TerminalRegistry.step options s.registry (.open sessionId cwd size.cols size.rows)).map
        fun registry =>
          { s with
            registry := registry
            bridge := { s.bridge with allocation := .spawning size }
            call := .spawning s.registry.openings.length }
    | _, _ => none
  | .spawned pid =>
    match s.call with
    | .spawning o => (TerminalRegistry.step options s.registry (.spawned o pid)).map
        fun registry => { s with registry := registry, call := .registered registry.nextOrdinal }
    | _ => none
  | .failed error =>
    match s.call with
    | .spawning o => (TerminalRegistry.step options s.registry (.spawnFailed o)).map
        fun registry =>
          { s with registry := registry, bridge := s.bridge.failOpen error, call := .idle }
    | _ => none
  | .resumed =>
    match s.call with
    | .registered n => some (s.endOpen me n)
    | _ => none
  | .dropped => some { s with bridge := { s.bridge with up := false } }
  | .stop => some (s.stop options me)
  | .registry e =>
    if s.foreign me e then
      (TerminalRegistry.step options s.registry e).map fun registry =>
        { s with registry := registry }
    else none

end Socket

/-- The socket that is sink `me` of the registry, as a machine. -/
def machine (options : Options) (me : TerminalSink) : Machine Socket SocketEvent :=
  ⟨.accepted, Socket.step options me⟩

end RemoteWorkspace.Model.TerminalSocket
