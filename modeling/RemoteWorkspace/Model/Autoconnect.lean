import RemoteWorkspace.Model.NodeConnections

/-!
# Connecting every machine, and again those that failed

`autoconnect` (models/autoconnect.ts) over the connection manager. A pass is for one machine:
it asks for a connection, and after a failure waits and asks again, a few times. The startup
pass takes every machine; a timer then takes those that are in state `failed`. One event is one
piece of code without an `await`: a tick of the timer goes through all the records at once.
-/

set_option autoImplicit false

namespace RemoteWorkspace.Model.Autoconnect

open RemoteWorkspace.Computation RemoteWorkspace.Model.NodeConnections

/-- `ATTEMPTS` -/
def defaultAttempts : ℕ := 3

/-- `AutoconnectDeps`, where the code depends on them: the attempts of a pass, whether there are
follow-up passes, and whether there is a status to read. -/
structure Deps where
  attempts : ℕ
  refreshes : Bool
  readsStatus : Bool
  manager : NodeConnections.Deps

/-- Where a pass stands: in the gap before another attempt, in `await connect`, or over. -/
inductive PassPhase where
  | waiting
  | connecting (attempt : ℕ)
  | ended
  deriving DecidableEq

/-- A pass: its record, the number of its attempt, and where it stands. -/
structure Pass where
  record : NodeRecord
  attempt : ℕ
  phase : PassPhase
  deriving DecidableEq

/-- The connection manager, the configured machines, the passes, and whether they were
stopped. -/
structure State where
  connections : Connections
  records : List NodeRecord
  passes : List Pass
  stopped : Bool

/-- Where a pass stands once it has asked for a connection. -/
def asked : ConnectAnswer → PassPhase
  | .info _ => .ended
  | .attempt a => .connecting a

/-- `pass`, up to its first wait. -/
def startPass (deps : Deps) (s : State) (record : NodeRecord) : State :=
  if deps.attempts = 0 ∨ s.stopped = true then s
  else
    { s with
      connections := (connectRecord s.connections record).1
      passes := s.passes ++ [⟨record, 0, asked (connectRecord s.connections record).2⟩] }

/-- `consider` -/
def consider (deps : Deps) (retryOnlyFailed : Bool) (s : State) (record : NodeRecord) : State :=
  if record.transport = .local then s
  else if retryOnlyFailed = true ∧ deps.readsStatus = true ∧
      (status s.connections record.nodeId).state ≠ .failed then s
  else startPass deps s record

/-- The startup pass over these machines. -/
def startup (deps : Deps) (records : List NodeRecord) : State :=
  records.foldl (consider deps false) ⟨.empty, records, [], false⟩

/-- What happens next: something in the connection manager, where a connection is asked for by a
person; the registry has other records; the timer ticks; the promise that a pass waits for
settles; a pass's gap is over; the passes are stopped. -/
inductive Event where
  | manager (e : NodeConnections.Event)
  | stored (records : List NodeRecord)
  | tick
  | settled (p : ℕ)
  | retry (p : ℕ)
  | stop
  deriving DecidableEq

/-- The passes with one of them elsewhere. -/
def State.setPass (s : State) (p : ℕ) (pass : Pass) : State :=
  { s with passes := s.passes.set p pass }

/-- A pass whose attempt failed: the turn of its loop, up to the gap. -/
def nextAttempt (deps : Deps) (s : State) (pass : Pass) : Pass :=
  if pass.attempt + 1 < deps.attempts ∧ s.stopped = false then
    { pass with attempt := pass.attempt + 1, phase := .waiting }
  else { pass with phase := .ended }

/-- One piece of code. -/
def step (deps : Deps) (s : State) : Event → Option State
  | .manager e =>
    (NodeConnections.step deps.manager s.connections e).map fun connections =>
      { s with connections := connections }
  | .stored records => some { s with records := records }
  | .tick =>
    if deps.refreshes = true ∧ s.stopped = false then
      some (s.records.foldl (consider deps true) s)
    else none
  | .settled p =>
    match s.passes[p]? with
    | some ⟨record, n, .connecting a⟩ =>
      match (s.connections.attempts[a]?).map Attempt.phase with
      | some (.ready _ _) => some (s.setPass p ⟨record, n, .ended⟩)
      | some (.failed _) => some (s.setPass p (nextAttempt deps s ⟨record, n, .connecting a⟩))
      | _ => none
    | _ => none
  | .retry p =>
    match s.passes[p]? with
    | some ⟨record, n, .waiting⟩ =>
      if s.stopped = true then some (s.setPass p ⟨record, n, .ended⟩)
      else
        some ({ s with connections := (connectRecord s.connections record).1 }.setPass p
          ⟨record, n, asked (connectRecord s.connections record).2⟩)
    | _ => none
  | .stop => some { s with stopped := true }

/-- The passes over these machines. -/
def machine (deps : Deps) (records : List NodeRecord) : Machine State Event :=
  ⟨startup deps records, step deps⟩

/-- The machines for which an event makes a pass call `connect`. -/
def connectsOf (s : State) (e : Event) (t : State) : List NodeId :=
  match e with
  | .tick => (t.passes.drop s.passes.length).map fun pass => pass.record.nodeId
  | .retry p =>
    if s.stopped = true then [] else ((s.passes[p]?).map fun pass => pass.record.nodeId).toList
  | _ => []

end RemoteWorkspace.Model.Autoconnect
