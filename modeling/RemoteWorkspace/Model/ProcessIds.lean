import RemoteWorkspace.Computation.Machine
import RemoteWorkspace.Model.Subprocess

/-!
# Process ids and the signals that are sent to them

The daemon addresses a range by the number its leader got: `kill` of the group, and of the
leader alone when that fails (agent/src/execution.rs). Entries stay in the tables of the
`sp.*` and `term.*` backends (agent/src/subprocess.rs, agent/src/terminal.rs) after their
leader was reaped. The kernel gives a number out again once no process has it as its id or
its group.

An event is one system call or one section under a lock; what the kernel and other processes
do comes in between. A `dispose` of a managed process holds its state lock from its check to
the end. Of a range only what its signals depend on is kept: the streams and exit facts are
part of `Subprocess` and `RemoteTty`. A process of another entry is a stranger to this one.
`term.signalForeground` addresses groups that the terminal driver names and is left out.
-/

set_option autoImplicit false

namespace RemoteWorkspace.Model

open RemoteWorkspace.Computation

namespace ProcessIds

open Subprocess (Leader Signal)

/-- Which backend an entry belongs to. -/
inductive Kind
  | subprocess
  | terminal
  deriving DecidableEq

/-- What a `kill` addresses: the group of a number, or the process of that number. -/
inductive Aim
  | group
  | process
  deriving DecidableEq

/-- Processes that the range of a number did not start: whether one has the number as its id,
and how many are in the group of the number. -/
structure Strangers where
  process : Bool
  members : ℕ
  deriving DecidableEq

/-- The number of a range as the kernel sees it: the child that got it, the members of its
group that the range has besides, and who has the number otherwise. -/
structure Number where
  leader : Leader
  others : ℕ
  strangers : Strangers
  deriving DecidableEq

/-- The number of a child that was just started. -/
def Number.started : Number where
  leader := .running
  others := 0
  strangers := ⟨false, 0⟩

/-- Whether an address is still the range's own: the leader was not reaped, or the group has
another member of the range. -/
def Number.own (x : Number) : Aim → Bool
  | .group => x.leader ≠ .reaped ∨ 0 < x.others
  | .process => x.leader ≠ .reaped

/-- `group_alive` (execution.rs:148-155). -/
def groupAlive (x : Number) : Bool := x.own .group ∨ 0 < x.strangers.members

/-- One `kill` that was issued, and the number at that time. -/
structure Kill where
  aim : Aim
  signal : Signal
  number : Number
  deriving DecidableEq

/-- How many strangers a `kill` reaches. -/
def Kill.reaches (k : Kill) : ℕ :=
  match k.aim with
  | .group => k.number.strangers.members
  | .process => if k.number.strangers.process then 1 else 0

/-- How far a TERM-to-KILL ladder is: not begun, before its first signal, in the grace period,
before its second signal, waiting after it (terminal.rs:342), or over (subprocess.rs). -/
inductive Ladder
  | idle
  | signalling (aim : Aim)
  | grace
  | killing (aim : Aim)
  | polling
  | ended
  deriving DecidableEq

/-- Where an entry is: before its spawn looks at the table, in the table, taken out of it or
refused by it and not disposed yet, or disposed. -/
inductive Place
  | starting
  | listed
  | doomed
  | gone
  deriving DecidableEq

/-- One range and its teardown. `settled`, `terminating` and `disposed` are those of a managed
process, `callers` counts the calls of `term.terminate` that wait for the ladder, `waited` says
whether the leader was waited for, and `kills` is what was sent so far. -/
structure Entry where
  kind : Kind
  number : Number
  waited : Bool
  settled : Bool
  terminating : Bool
  disposed : Bool
  ladder : Ladder
  callers : ℕ
  disposing : Option Aim
  place : Place
  kills : List Kill
  deriving DecidableEq

/-- An entry whose child was just started. -/
def Entry.started (kind : Kind) : Entry where
  kind := kind
  number := .started
  waited := false
  settled := false
  terminating := false
  disposed := false
  ladder := .idle
  callers := 0
  disposing := none
  place := .starting
  kills := []

/-- Who is sending a signal. -/
inductive Sender
  | ladder
  | dispose
  deriving DecidableEq

/-- The address and the signal that a sender is about to send to. -/
def Entry.sending (x : Entry) : Sender → Option (Aim × Signal)
  | .ladder =>
    match x.ladder with
    | .signalling aim => some (aim, .sigterm)
    | .killing aim => some (aim, .sigkill)
    | _ => none
  | .dispose => x.disposing.map fun aim => (aim, .sigkill)

/-- A sender turns from the group to the process (execution.rs:162-163). -/
def Entry.fallBack (x : Entry) : Sender → Entry
  | .ladder =>
    match x.ladder with
    | .signalling _ => { x with ladder := .signalling .process }
    | _ => { x with ladder := .killing .process }
  | .dispose => { x with disposing := some .process }

/-- What follows a `signal_group`: the grace period, the end of the ladder of a managed
process or the wait of a terminal's (subprocess.rs:480-488, terminal.rs:338-345), or what
`dispose` stores (subprocess.rs:526). -/
def Entry.sent (x : Entry) : Sender → Entry
  | .ladder =>
    match x.ladder with
    | .signalling _ => { x with ladder := .grace }
    | _ => { x with ladder := if x.kind = .terminal then .polling else .ended }
  | .dispose => { x with disposing := none, settled := x.settled || x.kind = .subprocess }

/-- One `kill` of `signal_group`. A group can be signalled when it has a member, and `kill`
may fail all the same when none of them is the daemon's to signal. -/
def Entry.kill (x : Entry) (sender : Sender) (ok : Bool) : Option Entry :=
  match x.sending sender with
  | none => none
  | some (aim, signal) =>
    let x' := { x with kills := x.kills ++ [Kill.mk aim signal x.number] }
    match aim with
    | .process => some (x'.sent sender)
    | .group =>
      if ok then if groupAlive x.number then some (x'.sent sender) else none
      else some (x'.fallBack sender)

/-- `terminate` of a managed process up to its first signal (subprocess.rs:468-477). -/
def terminateProcess (x : Entry) : Entry :=
  if x.terminating ∨ x.settled then x
  else { x with terminating := true, ladder := .signalling .group }

/-- The end of the grace period of a managed process (subprocess.rs:480-486). -/
def escalate (x : Entry) : Entry :=
  if x.disposed = false ∧ x.settled = false then { x with ladder := .killing .group }
  else { x with ladder := .ended }

/-- `dispose` of a managed process up to its signal (subprocess.rs:515-525). -/
def disposeProcess (x : Entry) : Entry :=
  if x.disposed then { x with place := .gone }
  else if x.settled then { x with place := .gone, disposed := true }
  else if groupAlive x.number then
    { x with place := .gone, disposed := true, disposing := some .group }
  else { x with place := .gone, disposed := true, settled := true }

/-- `dispose` of a terminal up to its signal (terminal.rs:355-357). -/
def disposeTerminal (x : Entry) : Entry := { x with place := .gone, disposing := some .group }

inductive Event
  /-- A member of the range forks, leaves the group or ends; the leader ends. -/
  | fork
  | memberExits
  | childExits
  /-- The leader is waited for, or cannot be. -/
  | reap
  | waitFails
  /-- The kernel gives the number of a range that is gone to somebody else. -/
  | strangers (strangers : Strangers)
  /-- `await_child` settles a managed process. -/
  | settle
  /-- `terminate` is called. -/
  | terminate
  /-- A call of `term.terminate` gets the lock of the ladder. -/
  | lock
  /-- A poll of a terminal's ladder finds the group gone. -/
  | sessionGone
  /-- The grace period is over. -/
  | graceOver
  /-- `dispose` is called. -/
  | dispose
  /-- One `kill` is issued; `ok` says whether that of a group succeeds. -/
  | kill (sender : Sender) (ok : Bool)
  deriving DecidableEq

/-- One event of one entry. -/
def step (x : Entry) : Event → Option Entry
  | .fork =>
    if x.number.leader = .running ∨ 0 < x.number.others then
      some { x with number := { x.number with others := x.number.others + 1 } }
    else none
  | .memberExits =>
    if 0 < x.number.others then
      some { x with number := { x.number with others := x.number.others - 1 } }
    else none
  | .childExits =>
    if x.number.leader = .running then
      some { x with number := { x.number with leader := .zombie } }
    else none
  | .reap =>
    if x.waited = false ∧ x.number.leader = .zombie then
      some { x with number := { x.number with leader := .reaped }, waited := true }
    else none
  | .waitFails => if x.waited = false then some { x with waited := true } else none
  | .strangers strangers =>
    if x.number.own .group then none
    else some { x with number := { x.number with strangers } }
  | .settle =>
    if x.kind = .subprocess ∧ x.waited ∧ x.disposing = none then some { x with settled := true }
    else none
  | .terminate =>
    match x.kind with
    | .subprocess => if x.disposing = none then some (terminateProcess x) else none
    | .terminal => if x.place = .listed then some { x with callers := x.callers + 1 } else none
  | .lock =>
    if x.kind = .terminal ∧ x.ladder = .idle ∧ 0 < x.callers then
      some { x with callers := x.callers - 1, ladder := .signalling .group }
    else none
  | .sessionGone =>
    if x.kind = .terminal ∧ (x.ladder = .grace ∨ x.ladder = .polling) ∧ groupAlive x.number = false
    then some { x with ladder := .idle }
    else none
  | .graceOver =>
    match x.kind, x.ladder with
    | .subprocess, .grace => if x.disposing = none then some (escalate x) else none
    | .terminal, .grace =>
      if groupAlive x.number then some { x with ladder := .killing .group } else none
    | .terminal, .polling => if groupAlive x.number then some { x with ladder := .idle } else none
    | _, _ => none
  | .dispose =>
    if x.place = .doomed ∧ x.disposing = none then
      match x.kind with
      | .subprocess => some (disposeProcess x)
      | .terminal => some (disposeTerminal x)
    else none
  | .kill sender ok => x.kill sender ok

/-! ### The backends of one connection -/

/-- The entries of the two backends, and whether the connection has closed. -/
structure Backends where
  entries : List Entry
  closed : Bool
  deriving DecidableEq

/-- The backends of a new connection. -/
def Backends.new : Backends := ⟨[], false⟩

inductive BackendEvent
  /-- A child is started, and its spawn looks at the table. -/
  | spawn (kind : Kind)
  | enter (i : ℕ)
  /-- `close` takes all entries out of the table. -/
  | close
  /-- Something happens to one entry. -/
  | entry (i : ℕ) (e : Event)
  deriving DecidableEq

/-- An entry that `close` finds in the table is to be disposed. -/
def Entry.drain (x : Entry) : Entry :=
  if x.place = .listed then { x with place := .doomed } else x

/-- A spawn enters its entry in the table, or finds the connection closed. -/
def Entry.enter (x : Entry) (closed : Bool) : Option Entry :=
  if x.place = .starting then some { x with place := if closed then .doomed else .listed } else none

/-- Move one entry along. -/
def Backends.update (s : Backends) (i : ℕ) (f : Entry → Option Entry) : Option Backends :=
  (s.entries[i]?).bind fun x => (f x).map fun y => { s with entries := s.entries.set i y }

/-- One event of the backends. -/
def backendsStep (s : Backends) : BackendEvent → Option Backends
  | .spawn kind => some { s with entries := s.entries ++ [.started kind] }
  | .enter i => s.update i fun x => x.enter s.closed
  | .close =>
    if s.closed then none else some ⟨s.entries.map Entry.drain, true⟩
  | .entry i e => s.update i fun x => step x e

/-- The backends of one connection as a machine. -/
def backends : Machine Backends BackendEvent := ⟨.new, backendsStep⟩

end ProcessIds

end RemoteWorkspace.Model
