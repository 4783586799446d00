import RemoteWorkspace.Computation.Machine
import RemoteWorkspace.Model.CollectedOutput
import RemoteWorkspace.Model.Subprocess

/-!
# Reads of the daemon's terminals

One terminal of the daemon (agent/src/terminal.rs) with the two threads that watch it
(terminal.rs:389-434) and any number of `term.read`s that wait for it (terminal.rs:120-146).
Each lock is taken for one look or one change, so these are the steps; a thread stands between
publishing and notifying, and a read between registering, its two looks, and its decision.

`Notify` is the runtime's: enabling a waiter registers it, `notify_waiters` wakes every waiter
that is registered and remembers nothing for later ones, and a new `Notified` is registered by
nobody yet.
-/

set_option autoImplicit false

namespace RemoteWorkspace.Model.AgentTerminal

open RemoteWorkspace.Computation
open RemoteWorkspace.Model.CollectedOutput
open RemoteWorkspace.Model.Subprocess (Outcome)

/-- terminal.rs:35 -/
def terminalWindowBytes : ℕ := 1 <<< 20

/-- The buffer of the output reader (terminal.rs:392). -/
def readBytes : ℕ := 64 * 1024

/-- What a look at the window answered: the bytes, where to resume, and whether it slid. -/
structure Seen where
  bytes : Bytes
  nextOffset : ℕ
  lossy : Bool
  deriving DecidableEq

/-- One `term.read` answer (`read_reply`). -/
structure ReadReply where
  seen : Seen
  outcome : Option Outcome
  deriving DecidableEq

/-- How far a read is with its loop: about to register, registered, past its look at the window,
past its look at the facts, in `select!`, or done. -/
inductive Stage
  | starting
  | enabled
  | looked (seen : Seen)
  | informed (seen : Seen) (facts : Option Outcome)
  | parked
  | answered (reply : ReadReply)
  deriving DecidableEq

/-- A read that waits for its answer: whether its waiter was notified, and whether its deadline
has passed. -/
structure Reading where
  fromByte : ℕ
  stage : Stage
  woken : Bool
  expired : Bool
  deriving DecidableEq

/-- How far the output reader is: in `read`, between its push and its notification, or done. -/
inductive ReaderStage
  | reading
  | pushed
  | done
  deriving DecidableEq

/-- How far the reaper is: in `waitpid`, between setting the facts and notifying, or done. -/
inductive ReaperStage
  | waiting
  | set
  | done
  deriving DecidableEq

/-- One terminal, its watchers, and its reads. -/
structure State where
  output : Window
  outcome : Option Outcome
  reader : ReaderStage
  reaper : ReaperStage
  reads : List Reading
  deriving DecidableEq

/-- A terminal whose watchers have just started. -/
def State.spawned : State :=
  ⟨.new terminalWindowBytes, none, .reading, .waiting, []⟩

/-- Whether the waiter of a read is registered. -/
def Stage.registered : Stage → Bool
  | .starting => false
  | .answered _ => false
  | _ => true

/-- `notify_waiters`. -/
def notifyWaiters (s : State) : State :=
  { s with reads := s.reads.map fun r =>
      if r.stage.registered then { r with woken := true } else r }

/-- What can happen next. -/
inductive Event
  /-- The output reader reads bytes and pushes them, notifies, or is at the end. -/
  | push (chunk : Bytes)
  | pushNotify
  | readerEnd
  /-- The reaper learns the facts and sets them, or notifies. -/
  | set (outcome : Outcome)
  | setNotify
  /-- A client reads. -/
  | call (fromByte : ℕ)
  /-- Read `i` registers, looks at the window, looks at the facts, decides, and is woken. -/
  | enable (i : ℕ)
  | look (i : ℕ)
  | inform (i : ℕ)
  | decide (i : ℕ)
  | wake (i : ℕ)
  /-- The deadline of read `i` passes; its sleep is over. -/
  | expire (i : ℕ)
  | slept (i : ℕ)
  deriving DecidableEq

/-- `terminal.output.read`. -/
def lookAt (output : Window) (fromByte : ℕ) : Seen :=
  let (bytes, nextOffset, lossy) := output.read fromByte
  ⟨bytes, nextOffset, lossy⟩

/-- What a read does once it has looked (terminal.rs:136-144). -/
def decideOn (r : Reading) (seen : Seen) (facts : Option Outcome) : Reading :=
  if seen.bytes ≠ [] ∨ seen.lossy = true ∨ facts.isSome = true ∨ r.expired = true then
    { r with stage := .answered ⟨seen, facts⟩ }
  else { r with stage := .parked }

/-- One step of a read's own. -/
def Reading.step (s : State) (r : Reading) : Event → Option Reading
  | .enable _ => if r.stage = .starting then some { r with stage := .enabled, woken := false }
    else none
  | .look _ => if r.stage = .enabled then
      some { r with stage := .looked (lookAt s.output r.fromByte) }
    else none
  | .inform _ =>
    match r.stage with
    | .looked seen => some { r with stage := .informed seen s.outcome }
    | _ => none
  | .decide _ =>
    match r.stage with
    | .informed seen facts => some (decideOn r seen facts)
    | _ => none
  | .wake _ => if r.stage = .parked ∧ r.woken = true then some { r with stage := .starting }
    else none
  | .expire _ => some { r with expired := true }
  | .slept _ => if r.stage = .parked ∧ r.expired = true then some { r with stage := .starting }
    else none
  | _ => none

/-- The read that an event is about. -/
def Event.reading : Event → Option ℕ
  | .enable i | .look i | .inform i | .decide i | .wake i | .expire i | .slept i => some i
  | _ => none

/-- One step. -/
def step (s : State) (e : Event) : Option State :=
  match e with
  | .push chunk =>
    if s.reader = .reading ∧ 0 < chunk.length ∧ chunk.length ≤ readBytes then
      some { s with output := s.output.push chunk, reader := .pushed }
    else none
  | .pushNotify =>
    if s.reader = .pushed then some (notifyWaiters { s with reader := .reading }) else none
  | .readerEnd => if s.reader = .reading then some { s with reader := .done } else none
  | .set outcome =>
    if s.reaper = .waiting then some { s with outcome := some outcome, reaper := .set } else none
  | .setNotify =>
    if s.reaper = .set then some (notifyWaiters { s with reaper := .done }) else none
  | .call fromByte =>
    some { s with reads := s.reads ++ [⟨fromByte, .starting, false, false⟩] }
  | e => do
    let i ← e.reading
    let r ← s.reads[i]?
    let r ← r.step s e
    pure { s with reads := s.reads.set i r }

/-- The terminal as a machine. -/
def machine : Machine State Event := ⟨.spawned, step⟩

end RemoteWorkspace.Model.AgentTerminal
