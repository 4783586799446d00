import Mathlib.Data.List.Range
import RemoteWorkspace.Model.TerminalReads

/-!
# Waits on terminals

The waiters that `wait` registers (registry.ts:630-674), over the registry they wait on. Code
runs to its end before the next event, so what is left of it to run is part of the state: the
calls of waiters that a notification has still to make, the rest of a `wait` behind its first
check, the notifications of a release, and the listeners that an abort has still to call. Other
listeners of an abort may call the registry between two of these.

A wait answers when it resolves or rejects its promise, and every answer is written down.
-/

set_option autoImplicit false

namespace RemoteWorkspace.Model.TerminalWaits

open RemoteWorkspace.Computation
open RemoteWorkspace.Model.TerminalRegistry

/-- A call of `wait`: what it waits for and the signal it was given; whether its check is among
the entry's waiters, its timer is armed, and it listens to its signal; and its answers. -/
structure Wait where
  entry : ℕ
  start : JsNumber
  test : Test
  budget : ℕ
  signal : Option ℕ
  registered : Bool
  timer : Bool
  listener : Bool
  answers : List (Except String TerminalWait)

/-- A call that was refused before it waited. -/
def Wait.refused (error : String) : Wait :=
  ⟨0, 0, fun _ => false, 0, none, false, false, false, [.error error]⟩

/-- A call of a waiter's check, or the rest of a `wait` behind it. -/
inductive Call
  | check (i : ℕ)
  | arm (i : ℕ)
  deriving DecidableEq

/-- The registry, the waits in the order of their calls, why each signal was aborted if it was,
and what is left to run: calls first, then notifications of entries, then listeners of aborts. -/
structure State where
  registry : Registry
  waits : List Wait
  aborted : ℕ → Option (Option String)
  calls : List Call
  notifies : List ℕ
  listeners : List ℕ

/-- A registry without waits. -/
def State.empty : State := ⟨.empty, [], fun _ => none, [], [], []⟩

/-- `settle`, and what is answered. -/
def Wait.settle (w : Wait) (answer : Except String TerminalWait) : Wait :=
  { w with
    registered := false, timer := false, listener := false, answers := w.answers ++ [answer] }

/-- `check`. -/
def Wait.check (s : State) (w : Wait) : Wait :=
  match (s.registry.entries w.entry).check w.start w.test (w.signal.bind s.aborted) with
  | none => w
  | some answer => w.settle answer

/-- The end of `wait` (registry.ts:671-673). -/
def Wait.arm (w : Wait) : Wait := if w.registered then { w with timer := true } else w

/-- `abort`, as a listener: it is called once and only while it listens. -/
def Wait.abort (s : State) (w : Wait) : Wait :=
  if w.listener then w.settle (.error (abortError ((w.signal.bind s.aborted).getD none))) else w

/-- The timer fires. -/
def Wait.timeout (s : State) (w : Wait) : Wait :=
  w.settle (.ok ((s.registry.entries w.entry).finish w.start false .timeout))

/-- The waits that meet a condition, in the order of their calls. -/
def State.which (s : State) (p : Wait → Bool) : List ℕ :=
  (List.range s.waits.length).filter fun i => s.waits[i]?.any p

/-- The entries that an event of the registry notifies: output and the end of a shell do, and so
does every release. -/
def notified (s t : Registry) (e : TerminalRegistry.Event) : List ℕ :=
  (match e with
    | .data n => [n]
    | .done n _ => [n]
    | _ => []) ++ s.table.filter fun n => n ∉ t.table

/-- What can happen next. -/
inductive Event
  /-- Something happens to the registry. -/
  | registry (e : TerminalRegistry.Event)
  /-- A wait is called. -/
  | wait (id : String) (request : TerminalWaitRequest) (signal : Option ℕ)
  /-- A signal is aborted. -/
  | abort (signal : ℕ) (reason : Option String)
  /-- The timer of wait `i` fires. -/
  | expire (i : ℕ)
  /-- The next call, the next notification, the next listener. -/
  | call
  | notify
  | listener

/-- Nothing is left to run but listeners. -/
def State.Quiet (s : State) : Prop := s.calls = [] ∧ s.notifies = []

instance (s : State) : Decidable s.Quiet := inferInstanceAs (Decidable (_ ∧ _))

/-- What a call of `wait` does up to its first check. -/
def begin (compile : String → Except String Test) (s : State) (id : String)
    (request : TerminalWaitRequest) (signal : Option ℕ) : State :=
  match wait compile s.registry id request with
  | .error error => { s with waits := s.waits ++ [.refused error] }
  | .ok w =>
    { s with
      waits := s.waits ++
        [⟨w.entry, w.start, w.test, w.budget, signal, true, false, signal.isSome, []⟩]
      calls := [.check s.waits.length, .arm s.waits.length] }

/-- The calls of waiters that a notification makes. -/
def State.checks (s : State) (n : ℕ) : List Call :=
  (s.which fun w => w.registered && w.entry == n).map .check

/-- One event. -/
def step (options : Options) (compile : String → Except String Test) (s : State) :
    Event → Option State
  | .registry e =>
    if s.Quiet then
      (TerminalRegistry.step options s.registry e).map fun t =>
        { s with registry := t, notifies := notified s.registry t e }
    else none
  | .wait id request signal => if s.Quiet then some (begin compile s id request signal) else none
  | .abort signal reason =>
    if s.Quiet then
      if s.aborted signal = none then
        some { s with
          aborted := Function.update s.aborted signal (some reason)
          listeners := (s.which fun w => w.listener && w.signal == some signal) ++ s.listeners }
      else some s
    else none
  | .expire i =>
    if s.Quiet ∧ s.waits[i]?.any Wait.timer = true then
      some { s with waits := s.waits.modify i (Wait.timeout s) }
    else none
  | .call =>
    match s.calls with
    | .check i :: calls => some { s with calls, waits := s.waits.modify i (Wait.check s) }
    | .arm i :: calls => some { s with calls, waits := s.waits.modify i Wait.arm }
    | [] => none
  | .notify =>
    match s.calls, s.notifies with
    | [], n :: notifies => some { s with notifies, calls := s.checks n }
    | _, _ => none
  | .listener =>
    if s.Quiet then
      match s.listeners with
      | i :: listeners => some { s with listeners, waits := s.waits.modify i (Wait.abort s) }
      | [] => none
    else none

/-- The registry with its waits as a machine. -/
def machine (options : Options) (compile : String → Except String Test) : Machine State Event :=
  ⟨.empty, step options compile⟩

end RemoteWorkspace.Model.TerminalWaits
