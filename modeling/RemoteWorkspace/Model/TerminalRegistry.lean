import RemoteWorkspace.Computation.Machine
import Mathlib.Logic.Function.Basic

/-!
# The terminal registry

`createTerminalRegistry` (terminal/host/registry.ts) as a labelled machine: opening and
releasing shells, attaching and detaching sinks, and the pump that streams a shell into
its ring buffer and its sinks. One event is a call from outside, a `data` event, one
microtask of a delivery, or a promise or timer of the shell's provider.

Entries are objects and closures keep them after `kill` took them off the table, so an
entry lives at its ordinal and the table lists ordinals. A sink is named by a number; what
it answers to `output`, and when that settles, is part of the event. Callbacks of a sink
do not call back into the registry before they return. The operations that only read an
entry, and the waiters that `wait` registers, are not part of this model.
-/

set_option autoImplicit false

namespace RemoteWorkspace.Model

open RemoteWorkspace.Computation

abbrev Bytes := List UInt8

namespace TerminalRegistry

/-- How one terminal's top-level process ended (tty.ts:27-32). -/
structure TtyOutcome where
  exitCode : Option Int
  signal : Option String
  deriving DecidableEq

/-- What one terminal is asked for (tty.ts:41-57). -/
structure TtySpawnRequest where
  argv : List String
  cwd : String
  env : List (String × String)
  cols : ℕ
  rows : ℕ
  graceMs : ℕ
  deriving DecidableEq

/-- The output stream of a shell: whether it is flowing, and what it holds while paused. -/
structure TtyOutput where
  flowing : Bool
  queued : List Bytes
  deriving DecidableEq

/-- The provider's handle, as far as the registry uses it (tty.ts:60-79). `ended` says
whether `done` has settled, `terminations` how often `terminate` was called. -/
structure TtyHandle where
  pid : ℕ
  output : TtyOutput
  ended : Bool
  terminations : ℕ
  deriving DecidableEq

inductive TerminalState
  | running
  | detached
  | exited
  deriving DecidableEq

abbrev TerminalSink := ℕ

/-- One registered terminal (registry.ts:95-116). `detachTimer` says whether a release is
pending. -/
structure TerminalEntry where
  id : String
  label : String
  sessionId : String
  machine : String
  cwd : String
  handle : TtyHandle
  buffer : Bytes
  bytes : ℕ
  dropped : ℕ
  state : TerminalState
  cols : ℕ
  rows : ℕ
  attaches : List TerminalSink
  detachTimer : Bool
  deriving DecidableEq

/-- What stands at an ordinal that was never handed out. -/
def TerminalEntry.absent : TerminalEntry where
  id := ""
  label := ""
  sessionId := ""
  machine := ""
  cwd := ""
  handle := ⟨0, ⟨false, []⟩, true, 0⟩
  buffer := []
  bytes := 0
  dropped := 0
  state := .exited
  cols := 0
  rows := 0
  attaches := []
  detachTimer := false

/-- How far one sink is with a chunk: its microtask has not run, the promise it returned is
pending, or it is done with it. -/
inductive Take
  | queued
  | pending
  | fulfilled
  | rejected
  deriving DecidableEq

/-- What a sink's `output` does when it is called: return nothing, return a promise, or
throw. -/
inductive Answer
  | returned
  | promised
  | threw
  deriving DecidableEq

/-- Where an answer leaves a sink. -/
def Answer.take : Answer → Take
  | .returned => .fulfilled
  | .promised => .pending
  | .threw => .rejected

/-- One chunk on its way to the sinks that were attached when it arrived, and whether the
reaction on all of them has run (registry.ts:421-427). -/
structure Delivery where
  entry : ℕ
  chunk : Bytes
  takes : List (TerminalSink × Take)
  reacted : Bool
  deriving DecidableEq

/-- `Promise.all` has settled: every sink is done, or one of them failed. -/
def Delivery.settled (delivery : Delivery) : Bool :=
  delivery.takes.all (fun take => take.2 == .fulfilled) ||
    delivery.takes.any (fun take => take.2 == .rejected)

/-- What a sink was told. -/
inductive Report
  | output (chunk : Bytes)
  | exit (outcome : TtyOutcome)
  | fail (error : String)
  deriving DecidableEq

/-- One call of `open` whose spawn was asked for. -/
structure Opening where
  sessionId : String
  request : TtySpawnRequest
  settled : Bool
  deriving DecidableEq

/-- What the registry is built with (registry.ts:33-54, 276-299). -/
structure Options where
  shell : String
  shellArgs : List String
  env : List (String × String)
  graceMs : ℕ
  detachGraceMs : ℕ
  machine : String → String
  directory : String → String

/-- The registry, the deliveries in flight, and what each sink was told, in order. -/
structure Registry where
  entries : ℕ → TerminalEntry
  nextOrdinal : ℕ
  table : List ℕ
  openings : List Opening
  deliveries : List Delivery
  reports : List (TerminalSink × Report)

/-- A registry nothing was opened in. -/
def Registry.empty : Registry where
  entries := fun _ => .absent
  nextOrdinal := 0
  table := []
  openings := []
  deliveries := []
  reports := []

/-- registry.ts:307 -/
def bufferBytes : ℕ := 256 * 1024

/-- `entries.get`. -/
def Registry.get (s : Registry) (id : String) : Option ℕ :=
  s.table.find? fun n => (s.entries n).id = id

/-- Assign fields of one entry. -/
def Registry.assign (s : Registry) (n : ℕ) (entry : TerminalEntry) : Registry :=
  { s with entries := Function.update s.entries n entry }

/-- Change the output stream of one entry's handle. -/
def TerminalEntry.setOutput (entry : TerminalEntry) (output : TtyOutput) : TerminalEntry :=
  { entry with handle := { entry.handle with output := output } }

/-- `append` (registry.ts:364-374). -/
def append (entry : TerminalEntry) (chunk : Bytes) : TerminalEntry :=
  let bytes := entry.bytes + chunk.length
  if bufferBytes ≤ chunk.length then
    let buffer := chunk.drop (chunk.length - bufferBytes)
    { entry with bytes := bytes, buffer := buffer, dropped := bytes - buffer.length }
  else
    let grown := entry.buffer ++ chunk
    let buffer :=
      if bufferBytes < grown.length then grown.drop (grown.length - bufferBytes) else grown
    { entry with bytes := bytes, buffer := buffer, dropped := bytes - buffer.length }

section

variable (entry : TerminalEntry) (output : TtyOutput) (chunk : Bytes)

@[simp] theorem setOutput_output : (entry.setOutput output).handle.output = output := rfl

@[simp] theorem setOutput_state : (entry.setOutput output).state = entry.state := rfl

@[simp] theorem setOutput_attaches : (entry.setOutput output).attaches = entry.attaches := rfl

@[simp] theorem setOutput_bytes : (entry.setOutput output).bytes = entry.bytes := rfl

@[simp] theorem setOutput_buffer : (entry.setOutput output).buffer = entry.buffer := rfl

@[simp] theorem append_handle : (append entry chunk).handle = entry.handle := by
  unfold append
  split <;> rfl

@[simp] theorem append_state : (append entry chunk).state = entry.state := by
  unfold append
  split <;> rfl

@[simp] theorem append_attaches : (append entry chunk).attaches = entry.attaches := by
  unfold append
  split <;> rfl

/-- `append` counts every byte. -/
@[simp] theorem append_bytes : (append entry chunk).bytes = entry.bytes + chunk.length := by
  unfold append
  split <;> rfl

/-- `append` looks at the buffer and the counts of an entry and at nothing else. -/
@[simp] theorem append_setOutput_buffer :
    (append (entry.setOutput output) chunk).buffer = (append entry chunk).buffer := by
  unfold append
  split <;> rfl

end

/-- `kill`, up to its await (registry.ts:676-688). -/
def kill (s : Registry) (id : String) : Registry :=
  match s.get id with
  | none => s
  | some n =>
    let entry := s.entries n
    { s.assign n { entry with
        detachTimer := false, attaches := [], state := .exited,
        handle := { entry.handle with terminations := entry.handle.terminations + 1 } } with
      table := s.table.filter (· ≠ n) }

/-- The `data` handler of `pump` (registry.ts:413-428). -/
def dataHandler (s : Registry) (n : ℕ) (chunk : Bytes) : Registry :=
  let entry := append (s.entries n) chunk
  if entry.attaches = [] then s.assign n entry
  else
    { s.assign n (entry.setOutput { entry.handle.output with flowing := false }) with
      deliveries := s.deliveries ++
        [⟨n, chunk, entry.attaches.map fun sink => (sink, .queued), false⟩] }

/-- `resume` in `pump` (registry.ts:422-424). -/
def resumeOutput (s : Registry) (n : ℕ) : Registry :=
  let entry := s.entries n
  if entry.state = .running then
    s.assign n (entry.setOutput { entry.handle.output with flowing := true })
  else s

/-- `settle`: the process ended (registry.ts:445-450). -/
def settle (s : Registry) (n : ℕ) (report : Report) : Registry :=
  let entry := s.entries n
  let s := { s.assign n { entry with
      state := .exited, handle := { entry.handle with ended := true } } with
    reports := s.reports ++ entry.attaches.map fun sink => (sink, report) }
  if entry.attaches = [] then kill s entry.id else s

/-- `entryOf` (registry.ts:453-457). -/
def entryOf (s : Registry) (id : String) : Except String ℕ :=
  match s.get id with
  | none => .error ("terminal \"" ++ id ++ "\" is not open")
  | some n => .ok n

/-- `requireLive` (registry.ts:460-465). -/
def requireLive (s : Registry) (n : ℕ) : Except String ℕ :=
  if (s.entries n).state = .exited then
    .error ("terminal \"" ++ (s.entries n).id ++ "\" has already exited")
  else .ok n

/-- The request `open` makes of the provider (registry.ts:469-476). -/
def spawnRequest (options : Options) (cwd : String) (cols rows : ℕ) : TtySpawnRequest where
  argv := options.shell :: options.shellArgs
  cwd := cwd
  env := options.env
  cols := cols
  rows := rows
  graceMs := options.graceMs

/-- The entry `open` registers once the shell is there (registry.ts:477-496). -/
def openedEntry (options : Options) (ordinal : ℕ) (opening : Opening) (pid : ℕ) :
    TerminalEntry where
  id := "t" ++ toString ordinal
  label := "Terminal " ++ toString ordinal
  sessionId := opening.sessionId
  machine := options.machine opening.request.cwd
  cwd := options.directory opening.request.cwd
  handle := ⟨pid, ⟨true, []⟩, false, 0⟩
  buffer := []
  bytes := 0
  dropped := 0
  state := .running
  cols := opening.request.cols
  rows := opening.request.rows
  attaches := []
  detachTimer := false

/-- `open` after its await (registry.ts:477-499). -/
def opened (options : Options) (s : Registry) (o : ℕ) (opening : Opening) (pid : ℕ) :
    Registry :=
  let ordinal := s.nextOrdinal + 1
  { s.assign ordinal (openedEntry options ordinal opening pid) with
    nextOrdinal := ordinal
    table := s.table ++ [ordinal]
    openings := s.openings.modify o fun x => { x with settled := true } }

/-- `attach` (registry.ts:500-516). -/
def attach (s : Registry) (id : String) (sink : TerminalSink) : Except String Registry := do
  let n ← entryOf s id
  let n ← requireLive s n
  let entry := s.entries n
  let s := s.assign n { entry with
    detachTimer := false
    state := if entry.state = .detached then .running else entry.state
    attaches := if sink ∈ entry.attaches then entry.attaches else entry.attaches ++ [sink] }
  if entry.buffer = [] then pure s
  else pure { s with reports := s.reports ++ [(sink, .output entry.buffer)] }

/-- `detach` (registry.ts:518-536). -/
def detach (options : Options) (s : Registry) (id : String) (sink : TerminalSink) : Registry :=
  match s.get id with
  | none => s
  | some n =>
    let entry := { s.entries n with attaches := (s.entries n).attaches.filter (· ≠ sink) }
    if entry.attaches ≠ [] then s.assign n entry
    else if entry.state = .exited then kill (s.assign n entry) id
    else s.assign n { entry with
      state := .detached
      detachTimer := entry.detachTimer || decide (0 < options.detachGraceMs) }

/-- `releaseSession` (registry.ts:691-695). -/
def releaseSession (s : Registry) (sessionId : String) : Registry :=
  ((s.table.filter fun n => (s.entries n).sessionId = sessionId).map
    fun n => (s.entries n).id).foldl kill s

/-- `disposeAll` (registry.ts:697-699). -/
def disposeAll (s : Registry) : Registry :=
  (s.table.map fun n => (s.entries n).id).foldl kill s

/-- What can happen next. -/
inductive Event
  /-- A person opens a terminal; then the provider answers or refuses. -/
  | open (sessionId cwd : String) (cols rows : ℕ)
  | spawned (o pid : ℕ)
  | spawnFailed (o : ℕ)
  | attach (id : String) (sink : TerminalSink)
  | detach (id : String) (sink : TerminalSink)
  | kill (id : String)
  | releaseSession (sessionId : String)
  | disposeAll
  /-- The shell of entry `n` produces bytes; its stream emits the next chunk it holds. -/
  | produce (n : ℕ) (chunk : Bytes)
  | data (n : ℕ)
  /-- The microtask that hands delivery `d` to its `i`-th sink. -/
  | output (d i : ℕ) (answer : Answer)
  /-- The promise that sink returned settles. -/
  | settled (d i : ℕ) (fulfilled : Bool)
  /-- The reaction on all sinks of delivery `d`. -/
  | react (d : ℕ)
  /-- `done` of entry `n` resolves or rejects. -/
  | done (n : ℕ) (outcome : Except String TtyOutcome)
  /-- The detach valve of entry `n` fires. -/
  | valve (n : ℕ)
  /-- The provider accepted a new size for entry `n`. -/
  | resized (n cols rows : ℕ)

/-- What a settled `done` tells the sinks (registry.ts:430-437). -/
def reportOf : Except String TtyOutcome → Report
  | .ok outcome => .exit outcome
  | .error error => .fail error

/-- Move one sink of one delivery on. -/
def Registry.setTake (s : Registry) (d i : ℕ) (take : Take) : Registry :=
  { s with deliveries := s.deliveries.modify d fun x =>
      { x with takes := x.takes.modify i fun y => (y.1, take) } }

/-- One event of the registry. -/
def step (options : Options) (s : Registry) : Event → Option Registry
  | .open sessionId cwd cols rows =>
    some { s with openings := s.openings ++
      [⟨sessionId, spawnRequest options cwd cols rows, false⟩] }
  | .spawned o pid =>
    match s.openings[o]? with
    | some ⟨sessionId, request, false⟩ =>
      some (opened options s o ⟨sessionId, request, false⟩ pid)
    | _ => none
  | .spawnFailed o =>
    match s.openings[o]? with
    | some ⟨_, _, false⟩ =>
      some { s with openings := s.openings.modify o fun x => { x with settled := true } }
    | _ => none
  | .attach id sink =>
    match attach s id sink with
    | .ok s => some s
    | .error _ => some s
  | .detach id sink => some (detach options s id sink)
  | .kill id => some (kill s id)
  | .releaseSession sessionId => some (releaseSession s sessionId)
  | .disposeAll => some (disposeAll s)
  | .produce n chunk =>
    if 1 ≤ n ∧ n ≤ s.nextOrdinal then
      let output := (s.entries n).handle.output
      some (s.assign n
        ((s.entries n).setOutput { output with queued := output.queued ++ [chunk] }))
    else none
  | .data n =>
    match (s.entries n).handle.output with
    | ⟨true, chunk :: rest⟩ =>
      some (dataHandler (s.assign n ((s.entries n).setOutput ⟨true, rest⟩)) n chunk)
    | _ => none
  | .output d i answer =>
    match (s.deliveries[d]?).bind fun x => (x.takes[i]?).map fun y => (x.chunk, y) with
    | some (chunk, (sink, .queued)) =>
      some { s.setTake d i answer.take with
        reports := s.reports ++ [(sink, .output chunk)] }
    | _ => none
  | .settled d i fulfilled =>
    match (s.deliveries[d]?).bind fun x => x.takes[i]? with
    | some (_, .pending) => some (s.setTake d i (if fulfilled then .fulfilled else .rejected))
    | _ => none
  | .react d =>
    match s.deliveries[d]? with
    | some delivery =>
      if delivery.settled = true ∧ delivery.reacted = false then
        some (resumeOutput
          { s with deliveries := s.deliveries.modify d fun x => { x with reacted := true } }
          delivery.entry)
      else none
    | none => none
  | .done n outcome =>
    if 1 ≤ n ∧ n ≤ s.nextOrdinal ∧ (s.entries n).handle.ended = false then
      some (settle s n (reportOf outcome))
    else none
  | .valve n =>
    if (s.entries n).detachTimer = true then
      some (kill (s.assign n { s.entries n with detachTimer := false }) (s.entries n).id)
    else none
  | .resized n cols rows =>
    if 1 ≤ n ∧ n ≤ s.nextOrdinal then
      some (s.assign n { s.entries n with cols := cols, rows := rows })
    else none

/-- The registry as a machine. -/
def machine (options : Options) : Machine Registry Event := ⟨.empty, step options⟩

end TerminalRegistry

end RemoteWorkspace.Model
