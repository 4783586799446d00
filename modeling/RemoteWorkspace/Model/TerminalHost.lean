import RemoteWorkspace.Model.TerminalRegistry

/-!
# The registry in its event loop

The registry together with the providers of its shells and the queue of microtasks it runs
on. A `data` event queues one microtask for each sink that is attached, and a `done` that
settles queues the one that reports it; a microtask runs once all that were queued before it
have run (registry.ts:411-450).

A provider writes to a handle's output until it finishes it, and finishing ends the output
and settles `done` at once. The local one does so when its PTY reports the exit
(local/tty.ts:90-97). The remote one does so when it has read the exit facts, when its
terminal was released or when its transport is gone, and writes with the end what its decoder
still holds (remote/tty.ts:149-169). Which chunks a provider writes, and whether it waits for
its output to drain in between, is left to the run.
-/

set_option autoImplicit false

namespace RemoteWorkspace.Model

open RemoteWorkspace.Computation

namespace TerminalRegistry

/-- The microtasks of some deliveries that have not run, in the order in which they were
queued: the entry, the sink and the chunk of each. -/
def microtasks (deliveries : List Delivery) : List (ℕ × TerminalSink × Bytes) :=
  deliveries.flatMap fun x => x.takes.filterMap fun take =>
    if take.2 = .queued then some (x.entry, take.1, x.chunk) else none

/-- The part of the deliveries that was queued before the `i`-th sink of delivery `d`. -/
def queuedBefore (s : Registry) (d i : ℕ) : List Delivery :=
  s.deliveries.take d ++
    ((s.deliveries[d]?).map fun x => { x with takes := x.takes.take i }).toList

/-- Bytes written to an entry's output; no bytes are no chunk. -/
def writeOutput (s : Registry) (n : ℕ) (chunk : Bytes) : Registry :=
  if chunk = [] then s
  else
    let output := (s.entries n).handle.output
    s.assign n ((s.entries n).setOutput { output with queued := output.queued ++ [chunk] })

/-- The registry and, for each entry whose provider finished, what `done` settled with and
how many deliveries there were then. -/
structure Host where
  registry : Registry
  finished : ℕ → Option (Except String TtyOutcome × ℕ)

/-- Whether the report of an entry's end was queued before delivery `d` and has not run. -/
def reportAhead (s : Host) (d n : ℕ) : Bool :=
  match s.finished n with
  | some (_, mark) => !(s.registry.entries n).handle.ended && decide (mark ≤ d)
  | none => false

/-- What can happen next. -/
inductive HostEvent
  /-- Something happens to the registry. -/
  | registry (e : Event)
  /-- The provider of entry `n` writes to its output. -/
  | publish (n : ℕ) (chunk : Bytes)
  /-- It ends the output, with some last bytes, and `done` settles. -/
  | finish (n : ℕ) (last : Bytes) (outcome : Except String TtyOutcome)
  /-- The microtask of `done` runs. -/
  | report (n : ℕ)

/-- Whether an event of the registry is one of the loop's, and next: output and its end come
from the providers, and a microtask waits for those queued before it. -/
def runs (s : Host) : Event → Prop
  | .produce _ _ => False
  | .done _ _ => False
  | .output d i _ =>
    microtasks (queuedBefore s.registry d i) = [] ∧
      ∀ n ≤ s.registry.nextOrdinal, reportAhead s d n = false
  | .react d => ∀ x ∈ s.registry.deliveries[d]?, microtasks [x] = []
  | _ => True

instance (s : Host) (e : Event) : Decidable (runs s e) := by
  unfold runs
  split <;> infer_instance

/-- One event of the loop. -/
def hostStep (options : Options) (s : Host) : HostEvent → Option Host
  | .registry e =>
    if runs s e then (step options s.registry e).map fun r => { s with registry := r } else none
  | .publish n chunk =>
    if 1 ≤ n ∧ n ≤ s.registry.nextOrdinal ∧ s.finished n = none then
      some { s with registry := writeOutput s.registry n chunk }
    else none
  | .finish n last outcome =>
    if 1 ≤ n ∧ n ≤ s.registry.nextOrdinal ∧ s.finished n = none then
      some {
        registry := writeOutput s.registry n last
        finished :=
          Function.update s.finished n (some (outcome, s.registry.deliveries.length)) }
    else none
  | .report n =>
    match s.finished n with
    | some (outcome, mark) =>
      if microtasks (s.registry.deliveries.take mark) = [] then
        (step options s.registry (.done n outcome)).map fun r => { s with registry := r }
      else none
    | none => none

/-- The loop as a machine. -/
def host (options : Options) : Machine Host HostEvent :=
  ⟨⟨.empty, fun _ => none⟩, hostStep options⟩

end TerminalRegistry

end RemoteWorkspace.Model
