import RemoteWorkspace.Computation.Machine
import RemoteWorkspace.Model.PosixPath
import Mathlib.Logic.Function.Basic

/-!
# The connection manager

`createNodeConnections` (models/machines.ts) as a labelled machine. One event is one
piece of code that runs without an `await` in between: a call from outside, the part of
an attempt after `openTransport` or `connect` settled, a promise callback, or a turn of
a recovery loop. What the injected dependencies answer, and when, is part of the event.

Entries are objects: a callback keeps the one it closed over after `dispose` dropped it
from the table. So entries live at their own addresses and the table maps a node to an
address. Transports and connections carry the identity the source compares with `===`;
nothing here says that a dependency answers with a new object each time.
-/

set_option autoImplicit false

namespace RemoteWorkspace.Model

open RemoteWorkspace.Computation

abbrev NodeId := String

/-- How the host reaches one machine's daemon (storage/nodes.ts:47-68). -/
inductive NodeTransport
  | ssh (target : String) (sshPort : Option ℕ) (identityFile : Option String)
  | «local»
  | direct (host : String) (port : ℕ)
  deriving DecidableEq

/-- One configured machine, as far as the manager reads it (storage/nodes.ts:126-142). -/
structure NodeRecord where
  nodeId : NodeId
  title : String
  transport : NodeTransport
  token : String
  deriving DecidableEq

structure NodeCapability where
  pty : Bool
  spill : Bool
  ripgrep : Option String
  deriving DecidableEq

/-- What the daemon reports about itself (remote/protocol.ts:349-357). -/
structure NodeInfo where
  protocol : ℕ
  agentVersion : String
  platform : String
  arch : String
  node : String
  homedir : String
  capability : NodeCapability
  deriving DecidableEq

/-- What an attempt is doing while it is not ready (remote/agent/install.ts:83-92). -/
structure AgentProgress where
  phase : String
  version : String
  asset : Option String
  source : Option String
  deriving DecidableEq

namespace NodeConnections

/-- machines.ts:27 -/
inductive NodeState
  | idle
  | connecting
  | ready
  | failed
  | disconnected
  deriving DecidableEq

/-- machines.ts:60-65 -/
inductive WorkerStatus
  | installing
  | failed (error : String)
  deriving DecidableEq

/-- The address a daemon is reachable at and what carries the traffic there. `exited`
says whether the object has that promise (machines.ts:71-84). -/
structure ResolvedTransport where
  id : ℕ
  host : String
  port : ℕ
  exited : Bool
  deriving DecidableEq

/-- A live, handshaken connection (remote/client.ts:83-90). -/
structure ConnectedNode where
  id : ℕ
  info : NodeInfo
  deriving DecidableEq

/-- The channel one connection hands out: the variables `publish` closes over
(machines.ts:485-499). -/
structure NodeChannel where
  entry : ℕ
  record : NodeRecord
  live : ConnectedNode
  deriving DecidableEq

/-- One entry of the manager's table (machines.ts:274-294). A promise is named by the
attempt, the recovery or the install that settles it. -/
structure Entry where
  state : NodeState
  info : Option NodeInfo
  error : Option String
  live : Option ConnectedNode
  pending : Option ℕ
  transport : Option ResolvedTransport
  localPort : Option ℕ
  progress : Option AgentProgress
  recovery : Option ℕ
  published : Option NodeChannel
  record : Option NodeRecord
  ptcHost : Option ℕ
  worker : Option WorkerStatus
  deriving DecidableEq

/-- The entry `entryFor` creates (machines.ts:337-351). -/
def Entry.created : Entry where
  state := .idle
  info := none
  error := none
  live := none
  pending := none
  transport := none
  localPort := none
  progress := none
  recovery := none
  published := none
  record := none
  ptcHost := none
  worker := none

/-- What `clear` leaves of an entry (machines.ts:357-372). -/
def Entry.cleared (entry : Entry) : Entry :=
  { entry with
    published := none
    record := none
    ptcHost := none
    worker := none
    live := none
    pending := none
    info := none
    transport := none
    localPort := none
    progress := none }

/-- Where one connection attempt stands between its awaits (machines.ts:510-555). -/
inductive AttemptPhase
  | opening
  | connecting (opened : ResolvedTransport)
  | ready (opened : ResolvedTransport) (live : ConnectedNode)
  | failed (error : String)
  deriving DecidableEq

/-- One connection attempt: what it closed over, and whether the callback it put on
`opened.exited` has run. -/
structure Attempt where
  entry : ℕ
  record : NodeRecord
  phase : AttemptPhase
  exitedRan : Bool
  deriving DecidableEq

/-- An attempt is in flight until it succeeds or fails. -/
def Attempt.inFlight (attempt : Attempt) : Bool :=
  match attempt.phase with
  | .opening => true
  | .connecting _ => true
  | .ready _ _ => false
  | .failed _ => false

/-- Where one recovery loop stands: in its timer, in `await connectRecord`, or over. -/
inductive RecoveryPhase
  | sleeping
  | awaiting (attempt : ℕ)
  | over
  deriving DecidableEq

/-- One recovery loop (machines.ts:450-469). -/
structure Recovery where
  entry : ℕ
  record : NodeRecord
  attempt : ℕ
  phase : RecoveryPhase
  deriving DecidableEq

/-- One install of a PTC program host that `ptcHostFor` started. -/
structure Install where
  entry : ℕ
  path : String
  settled : Bool
  deriving DecidableEq

/-- What the manager is built with, where its code depends on it. -/
structure Deps where
  recoveryAttempts : ℕ
  cacheDir : Option String

/-- The manager, its closures in flight, and the resources its dependencies handed out,
with the machine each was for, and the ones it closed. -/
structure Connections where
  entries : ℕ → Entry
  nextEntry : ℕ
  table : List (NodeId × ℕ)
  attempts : List Attempt
  recoveries : List Recovery
  installs : List Install
  lost : List ℕ
  openedTransports : List (NodeId × ℕ)
  closedTransports : List ℕ
  openedLives : List (NodeId × ℕ)
  closedLives : List ℕ

/-- A manager nothing was asked of. -/
def Connections.empty : Connections where
  entries := fun _ => Entry.created
  nextEntry := 0
  table := []
  attempts := []
  recoveries := []
  installs := []
  lost := []
  openedTransports := []
  closedTransports := []
  openedLives := []
  closedLives := []

/-- `entries.get`. -/
def Connections.get (s : Connections) (nodeId : NodeId) : Option ℕ :=
  (s.table.find? fun row => row.1 = nodeId).map (·.2)

/-- Assign fields of one entry object. -/
def Connections.assign (s : Connections) (e : ℕ) (entry : Entry) : Connections :=
  { s with entries := Function.update s.entries e entry }

/-- `entryFor` (machines.ts:334-353). -/
def entryFor (s : Connections) (nodeId : NodeId) : Connections × ℕ :=
  match s.get nodeId with
  | some e => (s, e)
  | none =>
    ({ s with
        entries := Function.update s.entries s.nextEntry Entry.created
        nextEntry := s.nextEntry + 1
        table := s.table ++ [(nodeId, s.nextEntry)] }, s.nextEntry)

/-- `clear`: what a connection holds is closed and dropped (machines.ts:357-372). -/
def clear (s : Connections) (e : ℕ) : Connections :=
  { s with
    entries := Function.update s.entries e (s.entries e).cleared
    closedLives := ((s.entries e).live.map (·.id)).toList ++ s.closedLives
    closedTransports := ((s.entries e).transport.map (·.id)).toList ++ s.closedTransports }

/-- `fail` (machines.ts:375-379). -/
def fail (s : Connections) (e : ℕ) (error : String) : Connections :=
  (clear s e).assign e { (s.entries e).cleared with state := .failed, error := some error }

/-! ### The error an attempt reports -/

/-- Whether `needle` occurs in `hay`. -/
def includes (needle hay : List Char) : Bool := hay.tails.any needle.isPrefixOf

/-- The tail of `/handshake with .* timed out/` after its first words; the dot stops at
a line terminator. -/
def timedOutOnLine : List Char → Bool
  | [] => false
  | c :: rest =>
    " timed out".toList.isPrefixOf (c :: rest) ||
      (c ∉ ['\n', '\r', '\u2028', '\u2029'] && timedOutOnLine rest)

/-- `/timed out connecting to|handshake with .* timed out/` -/
def timedOut (message : List Char) : Bool :=
  includes "timed out connecting to".toList message ||
    message.tails.any fun tail =>
      "handshake with ".toList.isPrefixOf tail &&
        timedOutOnLine (tail.drop "handshake with ".length)

/-- `describeFailure`, on the message of the error (machines.ts:163-175). -/
def describeFailure (record : NodeRecord) (message : String) : String :=
  match record.transport with
  | .ssh target _ _ =>
    if timedOut message.toList then
      "the SSH forward to \"" ++ target ++
        "\" is up, but nothing answered; check ~/.dsh/remote-agent/agent.log on the machine"
    else message
  | .local => message
  | .direct _ _ => message

/-! ### The pieces of code between awaits -/

/-- machines.ts:304 -/
def ptcHostSegment : List String := [".dsh", "remote-agent", "dsh-ptc-host"]

/-- What `ptcHostFor` answers with: a settled promise, or the one of an install. -/
inductive PtcHostAnswer
  | path (path : String)
  | install (install : ℕ)
  | rejected (message : String)
  deriving DecidableEq

/-- `ptcHostFor` (machines.ts:406-438). -/
def ptcHostFor (deps : Deps) (s : Connections) (e : ℕ) (record : NodeRecord) :
    Connections × PtcHostAnswer :=
  match (s.entries e).ptcHost, (s.entries e).info, record.transport, deps.cacheDir with
  | some install, _, _, _ => (s, .install install)
  | none, none, _, _ =>
    (s, .rejected ("\"" ++ record.title ++ "\" has not reported its home directory"))
  | none, some info, .ssh _ _ _, some _ =>
    ({ s.assign e { s.entries e with
          worker := some .installing, ptcHost := some s.installs.length } with
        installs := s.installs ++
          [⟨e, PosixPath.join (info.homedir :: ptcHostSegment), false⟩] },
      .install s.installs.length)
  | none, some _, .ssh _ _ _, none =>
    (s, .rejected "installing a PTC program host needs the plugin data directory")
  | none, some info, .local, _ =>
    (s, .path (PosixPath.join (info.homedir :: ptcHostSegment)))
  | none, some info, .direct _ _, _ =>
    (s, .path (PosixPath.join (info.homedir :: ptcHostSegment)))

/-- `recover`, up to its first timer (machines.ts:450-459). -/
def recover (deps : Deps) (s : Connections) (e : ℕ) (record : NodeRecord) : Connections :=
  { s.assign e { s.entries e with recovery := some s.recoveries.length } with
    recoveries := s.recoveries ++
      [⟨e, record, 1, if 1 ≤ deps.recoveryAttempts then .sleeping else .over⟩] }

/-- What `connectRecord` returns at once: the known info, or the promise of an attempt. -/
inductive ConnectAnswer
  | info (info : NodeInfo)
  | attempt (attempt : ℕ)
  deriving DecidableEq

/-- A new attempt, up to its first await (machines.ts:507-516, 556). -/
def startAttempt (s : Connections) (e : ℕ) (record : NodeRecord) : Connections × ConnectAnswer :=
  ({ s.assign e { s.entries e with
        state := .connecting, error := none, progress := none,
        pending := some s.attempts.length } with
      attempts := s.attempts ++ [⟨e, record, .opening, false⟩] }, .attempt s.attempts.length)

/-- `connectRecord`, on the entry found or created (machines.ts:502-507). -/
def connectEntry (s : Connections) (e : ℕ) (record : NodeRecord) : Connections × ConnectAnswer :=
  match (s.entries e).state, (s.entries e).info, (s.entries e).pending with
  | .ready, some info, _ => (s, .info info)
  | _, _, some attempt => (s, .attempt attempt)
  | _, _, none => startAttempt s e record

/-- `connectRecord` (machines.ts:501-558). -/
def connectRecord (s : Connections) (record : NodeRecord) : Connections × ConnectAnswer :=
  connectEntry (entryFor s record.nodeId).1 (entryFor s record.nodeId).2 record

/-- Move one attempt to another phase. -/
def Connections.settleAttempt (s : Connections) (a : ℕ) (phase : AttemptPhase) : Connections :=
  { s with attempts := s.attempts.modify a fun attempt => { attempt with phase := phase } }

/-- The port a surface shows: only an SSH record has a forward (machines.ts:527). -/
def forwardedPort (record : NodeRecord) (opened : ResolvedTransport) : Option ℕ :=
  match record.transport with
  | .ssh _ _ _ => some opened.port
  | .local => none
  | .direct _ _ => none

/-- The entry a completed handshake publishes (machines.ts:524-531). -/
def Entry.connected (entry : Entry) (e : ℕ) (record : NodeRecord) (opened : ResolvedTransport)
    (live : ConnectedNode) : Entry :=
  { entry with
    live := some live
    published := some ⟨e, record, live⟩
    info := some live.info
    localPort := forwardedPort record opened
    pending := none
    progress := none
    record := some record
    state := .ready }

/-- The part of an attempt after its handshake succeeded (machines.ts:524-545). -/
def handshaken (deps : Deps) (s : Connections) (e : ℕ) (record : NodeRecord)
    (opened : ResolvedTransport) (live : ConnectedNode) : Connections :=
  let s := { s.assign e ((s.entries e).connected e record opened live) with
    openedLives := (record.nodeId, live.id) :: s.openedLives }
  match record.transport with
  | .ssh _ _ _ => (ptcHostFor deps s e record).1
  | .local => s
  | .direct _ _ => s

/-- What the callback on `opened.exited` does (machines.ts:539-544). -/
def transportExited (deps : Deps) (s : Connections) (e : ℕ) (record : NodeRecord)
    (opened : ResolvedTransport) : Connections :=
  if opened.id ∈ s.lost ∨ (s.entries e).transport.map (·.id) ≠ some opened.id then s
  else
    recover deps (fail { s with lost := opened.id :: s.lost } e
      ("the SSH forward to \"" ++ record.title ++ "\" closed")) e record

/-- What a published channel does when a request on it is rejected; `answered` tells the
daemon's own typed refusals from a failure of the wire (machines.ts:486-497). -/
def requestRejected (deps : Deps) (s : Connections) (channel : NodeChannel) (answered : Bool)
    (message : String) : Connections :=
  if (s.entries channel.entry).live.map (·.id) = some channel.live.id ∧ !answered then
    recover deps (fail s channel.entry message) channel.entry channel.record
  else s

/-- `dispose` on one entry (machines.ts:594-597). -/
def disposeEntry (s : Connections) (e : ℕ) : Connections :=
  clear (s.assign e { s.entries e with recovery := none }) e

/-! ### The machine -/

/-- What can happen next. -/
inductive Event
  /-- A caller asks to connect a machine. -/
  | connect (record : NodeRecord)
  /-- A caller asks for a machine's program host. -/
  | ptcHost (nodeId : NodeId)
  | disconnect (nodeId : NodeId)
  | dispose
  /-- The opener of attempt `a` reports a step. -/
  | report (a : ℕ) (progress : AgentProgress)
  /-- `openTransport` of attempt `a` settled. -/
  | opened (a : ℕ) (transport : ResolvedTransport)
  | openFailed (a : ℕ) (message : String)
  /-- `connect` of attempt `a` settled. -/
  | connected (a : ℕ) (live : ConnectedNode)
  | connectFailed (a : ℕ) (message : String)
  /-- The transport of attempt `a` stopped carrying traffic. -/
  | exited (a : ℕ)
  /-- A request on the channel attempt `a` published was rejected. -/
  | requestFailed (a : ℕ) (answered : Bool) (message : String)
  /-- The timer of recovery `r` fired. -/
  | wake (r : ℕ)
  /-- The attempt recovery `r` waits for settled. -/
  | resume (r : ℕ)
  /-- Install `i` settled. -/
  | installed (i : ℕ)
  | installFailed (i : ℕ) (message : String)
  deriving DecidableEq

/-- `disconnect` (machines.ts:584-592). -/
def disconnect (s : Connections) (nodeId : NodeId) : Connections :=
  match s.get nodeId with
  | none => s
  | some e =>
    let s := clear (s.assign e { s.entries e with recovery := none }) e
    s.assign e { s.entries e with error := none, state := .disconnected }

/-- `dispose` (machines.ts:594-600). -/
def dispose (s : Connections) : Connections :=
  { (s.table.map (·.2)).foldl disposeEntry s with table := [] }

/-- The catch block of an attempt (machines.ts:546-554). -/
def attemptFailed (s : Connections) (a : ℕ) (attempt : Attempt) (message : String) :
    Connections :=
  (fail s attempt.entry (describeFailure attempt.record message)).settleAttempt a
    (.failed (describeFailure attempt.record message))

/-- Move one recovery loop. -/
def Connections.setRecovery (s : Connections) (r : ℕ) (f : Recovery → Recovery) : Connections :=
  { s with recoveries := s.recoveries.modify r f }

/-- A recovery loop whose timer fired (machines.ts:459-463). -/
def wake (s : Connections) (r : ℕ) (recovery : Recovery) : Connections :=
  if (s.entries recovery.entry).recovery ≠ some r then
    s.setRecovery r fun x => { x with phase := .over }
  else
    match connectRecord s recovery.record with
    | (s, .info _) => s.setRecovery r fun x => { x with phase := .over }
    | (s, .attempt a) => s.setRecovery r fun x => { x with phase := .awaiting a }

/-- The turn a recovery loop takes once its attempt failed (machines.ts:454, 464-466). -/
def Recovery.next (deps : Deps) (recovery : Recovery) : Recovery :=
  { recovery with
    attempt := recovery.attempt + 1
    phase := if recovery.attempt + 1 ≤ deps.recoveryAttempts then .sleeping else .over }

/-- Mark one install settled and let its callback run on the entry, which ignores an
install that is no longer the entry's own (machines.ts:421-436). -/
def installSettled (s : Connections) (i : ℕ) (install : Install) (f : Entry → Entry) :
    Connections :=
  let s := { s with installs := s.installs.modify i fun x => { x with settled := true } }
  if (s.entries install.entry).ptcHost = some i then
    s.assign install.entry (f (s.entries install.entry))
  else s

/-- One event of the manager. -/
def step (deps : Deps) (s : Connections) : Event → Option Connections
  | .connect record => some (connectRecord s record).1
  | .ptcHost nodeId =>
    match s.get nodeId with
    | none => some s
    | some e =>
      match (s.entries e).state, (s.entries e).record with
      | .ready, some record => some (ptcHostFor deps s e record).1
      | _, _ => some s
  | .disconnect nodeId => some (disconnect s nodeId)
  | .dispose => some (dispose s)
  | .report a progress =>
    (s.attempts[a]?).map fun attempt =>
      s.assign attempt.entry { s.entries attempt.entry with progress := some progress }
  | .opened a transport =>
    match s.attempts[a]? with
    | some ⟨e, record, .opening, _⟩ =>
      some ({ s.assign e { s.entries e with transport := some transport } with
        openedTransports := (record.nodeId, transport.id) :: s.openedTransports }.settleAttempt a
          (.connecting transport))
    | _ => none
  | .openFailed a message =>
    match s.attempts[a]? with
    | some ⟨e, record, .opening, ran⟩ =>
      some (attemptFailed s a ⟨e, record, .opening, ran⟩ message)
    | _ => none
  | .connected a live =>
    match s.attempts[a]? with
    | some ⟨e, record, .connecting transport, _⟩ =>
      some ((handshaken deps s e record transport live).settleAttempt a (.ready transport live))
    | _ => none
  | .connectFailed a message =>
    match s.attempts[a]? with
    | some ⟨e, record, .connecting transport, ran⟩ =>
      some (attemptFailed s a ⟨e, record, .connecting transport, ran⟩ message)
    | _ => none
  | .exited a =>
    match s.attempts[a]? with
    | some ⟨e, record, .ready transport _, false⟩ =>
      if transport.exited then
        some (transportExited deps
          { s with attempts := s.attempts.modify a fun x => { x with exitedRan := true } }
          e record transport)
      else none
    | _ => none
  | .requestFailed a answered message =>
    match s.attempts[a]? with
    | some ⟨e, record, .ready _ live, _⟩ =>
      some (requestRejected deps s ⟨e, record, live⟩ answered message)
    | _ => none
  | .wake r =>
    match s.recoveries[r]? with
    | some ⟨e, record, n, .sleeping⟩ => some (wake s r ⟨e, record, n, .sleeping⟩)
    | _ => none
  | .resume r =>
    match s.recoveries[r]? with
    | some ⟨_, _, _, .awaiting a⟩ =>
      match (s.attempts[a]?).map Attempt.phase with
      | some (.ready _ _) => some (s.setRecovery r fun x => { x with phase := .over })
      | some (.failed _) => some (s.setRecovery r (·.next deps))
      | _ => none
    | _ => none
  | .installed i =>
    match s.installs[i]? with
    | some ⟨e, path, false⟩ =>
      some (installSettled s i ⟨e, path, false⟩ fun entry => { entry with worker := none })
    | _ => none
  | .installFailed i message =>
    match s.installs[i]? with
    | some ⟨e, path, false⟩ =>
      some (installSettled s i ⟨e, path, false⟩ fun entry =>
        { entry with ptcHost := none, worker := some (.failed message) })
    | _ => none

/-- The manager as a machine. -/
def machine (deps : Deps) : Machine Connections Event := ⟨.empty, step deps⟩

/-! ### What the manager answers -/

/-- One node's status (machines.ts:31-58). -/
structure NodeStatus where
  nodeId : NodeId
  state : NodeState
  info : Option NodeInfo
  localPort : Option ℕ
  progress : Option AgentProgress
  error : Option String
  worker : Option WorkerStatus
  deriving DecidableEq

/-- `statusOf` (machines.ts:382-390). -/
def statusOf (nodeId : NodeId) (entry : Entry) : NodeStatus :=
  ⟨nodeId, entry.state, entry.info, entry.localPort, entry.progress, entry.error, entry.worker⟩

/-- `channel` (machines.ts:561-563). -/
def channel (s : Connections) (nodeId : NodeId) : Option NodeChannel :=
  (s.get nodeId).bind fun e => (s.entries e).published

/-- `status` (machines.ts:565-568). -/
def status (s : Connections) (nodeId : NodeId) : NodeStatus :=
  match s.get nodeId with
  | none => ⟨nodeId, .idle, none, none, none, none, none⟩
  | some e => statusOf nodeId (s.entries e)

/-- `list` (machines.ts:570-572). -/
def list (s : Connections) : List NodeStatus :=
  s.table.map fun row => statusOf row.1 (s.entries row.2)

end NodeConnections

end RemoteWorkspace.Model
