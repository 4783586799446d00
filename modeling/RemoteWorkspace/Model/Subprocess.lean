import RemoteWorkspace.Computation.Machine
import Mathlib.Data.Int.Notation

/-!
# Managed process ranges

The daemon's `sp.*` backend (agent/src/subprocess.rs). A child leads its own process
group; a `ManagedProcess` keeps what the tasks around it share, and one
`SubprocessBackend` owns the processes of one connection.

The runtime has several threads, so an event is one section under the state lock, or one
signal, or one publication; everything else can happen in between. Time is not modelled:
a grace period may end at any moment after it began. A group is followed by its members,
so a process id that another group takes over later is not confused with it.
-/

set_option autoImplicit false

namespace RemoteWorkspace.Model

open RemoteWorkspace.Computation

namespace Subprocess

inductive Signal
  | sigterm
  | sigkill
  deriving DecidableEq

/-- Exit facts (protocol.rs:114-119). -/
structure Outcome where
  exitCode : Option ℤ
  signal : Option String
  deriving DecidableEq

/-- The facts of a child nobody could wait for. -/
def Outcome.unknown : Outcome where
  exitCode := none
  signal := none

/-- The direct child as the kernel sees it. -/
inductive Leader
  | running
  | zombie
  | reaped
  deriving DecidableEq

/-- A process group: the child that leads it, how many members it has besides, and the
signals that were delivered to it. -/
structure Group where
  leader : Leader
  others : ℕ
  signals : List Signal
  deriving DecidableEq

/-- `group_alive` (execution.rs:148-155): a child that was not reaped yet still counts. -/
def groupAlive (group : Group) : Bool := group.leader ≠ .reaped ∨ 0 < group.others

/-- `signal_group` (execution.rs:160-166). A group without a member cannot be signalled,
and then its leader is gone too. -/
def signalGroup (group : Group) (signal : Signal) : Group :=
  if groupAlive group then { group with signals := group.signals ++ [signal] } else group

/-- How far the one terminate ladder of a process is: not begun, before its first signal,
within the grace period, before its second signal, or over. -/
inductive Ladder
  | idle
  | signalling
  | sleeping
  | killing
  | ended
  deriving DecidableEq

/-- How far `await_child` is: waiting for the child, about to record its facts, waiting
for the readers, about to publish what settled, or done. -/
inductive Reaper
  | waiting
  | recording (facts : Outcome)
  | draining
  | publishing (settled : Option Outcome)
  | ended
  deriving DecidableEq

/-- One managed child (subprocess.rs:397-426) and its tasks. `watch` is the published
value of `settled`, `announcing` a `dispose` that has not published yet, and `waiters`
counts the calls of `wait_for_exit` that have not returned. -/
structure ManagedProcess where
  group : Group
  exitFacts : Option Outcome
  settled : Option Outcome
  terminating : Bool
  disposed : Bool
  watch : Option Outcome
  readersLeft : ℕ
  ladder : Ladder
  reaper : Reaper
  announcing : Bool
  waiters : ℕ
  deriving DecidableEq

/-- A child that was just started, with this many streams to read (subprocess.rs:242-264). -/
def ManagedProcess.started (readers : ℕ) : ManagedProcess where
  group := { leader := .running, others := 0, signals := [] }
  exitFacts := none
  settled := none
  terminating := false
  disposed := false
  watch := none
  readersLeft := readers
  ladder := .idle
  reaper := .waiting
  announcing := false
  waiters := 0

/-- `terminate` up to its first signal (subprocess.rs:468-475). -/
def terminate (s : ManagedProcess) : ManagedProcess :=
  if s.terminating ∨ s.settled.isSome then s
  else { s with terminating := true, ladder := .signalling }

/-- What the ladder decides after the grace period (subprocess.rs:480-486). -/
def escalate (s : ManagedProcess) : ManagedProcess :=
  if s.disposed = false ∧ s.settled.isNone then { s with ladder := .killing }
  else { s with ladder := .ended }

/-- `dispose` up to its publication (subprocess.rs:515-528). -/
def dispose (s : ManagedProcess) : ManagedProcess :=
  if s.disposed then s
  else if s.settled.isNone then
    { s with
      disposed := true
      group := signalGroup s.group .sigkill
      settled := some (s.exitFacts.getD .unknown)
      announcing := true }
  else { s with disposed := true, announcing := true }

/-- What settling stores (subprocess.rs:609-614). -/
def settle (s : ManagedProcess) : ManagedProcess :=
  let settled := s.settled.or (some (s.exitFacts.getD .unknown))
  { s with settled := settled, reaper := .publishing settled }

/-- What can happen to one managed process. -/
inductive Event
  /-- A running member forks, a member besides the child exits, the child exits. -/
  | fork
  | memberExits
  | childExits
  /-- `await_child` reaps the child, fails to, or records the facts. -/
  | reap (facts : Outcome)
  | waitFails
  | record
  /-- A reader is at its end. -/
  | readerEnds
  /-- `await_child` settles, because no reader is left or after the grace period. -/
  | settle (timedOut : Bool)
  | publish
  /-- `terminate` is called, by `sp.terminate` or by a reader whose frames nobody takes
  (subprocess.rs:561-566), and its two signals. -/
  | terminate
  | sendTerm
  | graceOver
  | sendKill
  /-- `wait_for_exit` is called, or returns. -/
  | waitForExit
  | exitSeen
  /-- `dispose` is called, or publishes. -/
  | dispose
  | announce
  deriving DecidableEq

/-- One event. -/
def step (s : ManagedProcess) : Event → Option ManagedProcess
  | .fork =>
    if s.group.leader = .running ∨ 0 < s.group.others then
      some { s with group := { s.group with others := s.group.others + 1 } }
    else none
  | .memberExits =>
    if 0 < s.group.others then
      some { s with group := { s.group with others := s.group.others - 1 } }
    else none
  | .childExits =>
    if s.group.leader = .running then
      some { s with group := { s.group with leader := .zombie } }
    else none
  | .reap facts =>
    if s.reaper = .waiting ∧ s.group.leader = .zombie then
      some { s with group := { s.group with leader := .reaped }, reaper := .recording facts }
    else none
  | .waitFails =>
    if s.reaper = .waiting then some { s with reaper := .recording .unknown } else none
  | .record =>
    match s.reaper with
    | .recording facts => some { s with exitFacts := some facts, reaper := .draining }
    | _ => none
  | .readerEnds => some { s with readersLeft := s.readersLeft - 1 }
  | .settle timedOut =>
    if s.reaper = .draining ∧ (s.readersLeft = 0 ∨ timedOut) then some (settle s) else none
  | .publish =>
    match s.reaper with
    | .publishing settled => some { s with watch := settled, reaper := .ended }
    | _ => none
  | .terminate => some (terminate s)
  | .sendTerm =>
    if s.ladder = .signalling then
      some { s with group := signalGroup s.group .sigterm, ladder := .sleeping }
    else none
  | .graceOver => if s.ladder = .sleeping then some (escalate s) else none
  | .sendKill =>
    if s.ladder = .killing then
      some { s with group := signalGroup s.group .sigkill, ladder := .ended }
    else none
  | .waitForExit => some { s with waiters := s.waiters + 1 }
  | .exitSeen =>
    if 0 < s.waiters ∧ s.watch.isSome ∧ groupAlive s.group = false then
      some { s with waiters := s.waiters - 1 }
    else none
  | .dispose => some (dispose s)
  | .announce =>
    if s.announcing then some { s with watch := s.settled, announcing := false } else none

/-- One managed process with this many streams to read, as a machine. -/
def machine (readers : ℕ) : Machine ManagedProcess Event := ⟨.started readers, step⟩

/-! ### The processes of one connection -/

/-- How far one spawn is once its child was started: before its channels are adopted,
before it is entered in the table, refused by a closed backend but not yet disposed,
before its answer, or over; or given up after the child was started
(subprocess.rs:190-301). -/
inductive SpawnPhase
  | forked
  | adopted
  | sealed
  | feeding
  | finished
  | failed
  deriving DecidableEq

/-- A child one connection started, its spawn, and how many signals its group had got when
the connection closed. -/
structure Spawned where
  managed : ManagedProcess
  phase : SpawnPhase
  signalsBefore : ℕ
  deriving DecidableEq

/-- How far `close` is: not called, the flag set, the processes of the table left to
dispose, or over. -/
inductive Closing
  | no
  | flagged
  | disposing (rest : List ℕ)
  | ended
  deriving DecidableEq

/-- `SubprocessBackend` (subprocess.rs:78-83): the children that were started, the table
of those `close` is to end, and the call of `close`. -/
structure Backend where
  procs : List Spawned
  table : List ℕ
  closing : Closing
  deriving DecidableEq

/-- The backend of a new connection. -/
def Backend.new : Backend where
  procs := []
  table := []
  closing := .no

/-- Move one child along. -/
def Backend.update (s : Backend) (i : ℕ) (f : Spawned → Option Spawned) : Option Backend :=
  (s.procs[i]?).bind fun x => (f x).map fun y => { s with procs := s.procs.set i y }

/-- Whether the daemon keeps a `ManagedProcess` for the child. -/
def Spawned.isManaged (x : Spawned) : Bool := x.phase ≠ .forked ∧ x.phase ≠ .failed

/-- What happens to a child without the daemon. -/
def Event.isKernel : Event → Bool
  | .fork => true
  | .memberExits => true
  | .childExits => true
  | _ => false

/-- What can happen on one connection. -/
inductive BackendEvent
  /-- A spawn starts its child; it adopts its channels, or fails to. -/
  | spawn (readers : ℕ)
  | adopt (i : ℕ)
  | adoptFails (i : ℕ)
  /-- The runtime reaps a child nobody holds any more. -/
  | reapOrphan (i : ℕ)
  /-- The spawn looks at the flag under the table lock, and ends a child that came late. -/
  | enter (i : ℕ)
  | disposeSealed (i : ℕ)
  /-- The spawn is answered, its initial input written or not. -/
  | finish (i : ℕ)
  /-- Something else happens to one child. -/
  | proc (i : ℕ) (e : Event)
  /-- `close`: the flag, the table, one process after another in any order. -/
  | close
  | drain
  | disposeOne (i : ℕ)
  | closed
  deriving DecidableEq

/-- One event of a backend (subprocess.rs:190-301, 382-394). -/
def backendStep (s : Backend) : BackendEvent → Option Backend
  | .spawn readers =>
    let child := ⟨.started readers, .forked, 0⟩
    some { s with procs := s.procs ++ [child] }
  | .adopt i =>
    s.update i fun x => if x.phase = .forked then some { x with phase := .adopted } else none
  | .adoptFails i =>
    s.update i fun x => if x.phase = .forked then some { x with phase := .failed } else none
  | .reapOrphan i =>
    s.update i fun x =>
      if x.phase = .failed ∧ x.managed.group.leader = .zombie then
        let group := { x.managed.group with leader := .reaped }
        some { x with managed := { x.managed with group := group } }
      else none
  | .enter i =>
    if s.closing = .no then
      (s.update i fun x =>
        if x.phase = .adopted then some { x with phase := .feeding } else none).map
          fun t => { t with table := t.table ++ [i] }
    else
      s.update i fun x => if x.phase = .adopted then some { x with phase := .sealed } else none
  | .disposeSealed i =>
    s.update i fun x =>
      if x.phase = .sealed then some { x with managed := dispose x.managed, phase := .feeding }
      else none
  | .finish i =>
    s.update i fun x => if x.phase = .feeding then some { x with phase := .finished } else none
  | .proc i e =>
    if e = .dispose then none
    else s.update i fun x =>
      if x.isManaged ∨ e.isKernel then
        (step x.managed e).map fun managed => { x with managed := managed }
      else none
  | .close =>
    if s.closing = .no then
      some { s with
        closing := .flagged
        procs := s.procs.map fun x =>
          { x with signalsBefore := x.managed.group.signals.length } }
    else none
  | .drain =>
    if s.closing = .flagged then some { s with closing := .disposing s.table, table := [] }
    else none
  | .disposeOne i =>
    match s.closing with
    | .disposing rest =>
      if i ∈ rest then
        { s with closing := .disposing (rest.erase i) }.update i fun x =>
          some { x with managed := dispose x.managed }
      else none
    | _ => none
  | .closed => if s.closing = .disposing [] then some { s with closing := .ended } else none

/-- The backend of one connection as a machine. -/
def backend : Machine Backend BackendEvent := ⟨.new, backendStep⟩

end Subprocess

end RemoteWorkspace.Model
