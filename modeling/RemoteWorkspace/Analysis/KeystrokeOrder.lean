import RemoteWorkspace.Model.InputStreams

/-!
# The order of keystrokes

Each `term.write` has a task of its own, and that task a thread of the pool, before it
takes the lock of the PTY; whoever takes the lock first writes first.

Where each task writes only once the tasks before it have returned without an error, the
PTY gets the payloads whole and in the order they were sent.
-/

set_option autoImplicit false

namespace RemoteWorkspace.Analysis.TerminalInput

open RemoteWorkspace.Computation RemoteWorkspace.Computation.LockedSink
open RemoteWorkspace.Model RemoteWorkspace.Model.TerminalInput

variable {s s' : RemoteTerminal}

/-- The PTY got an initial part of what was sent, and all of it once every task has
returned without an error. -/
structure Typed (s : RemoteTerminal) : Prop where
  initial : s.pty.out <+: s.sent.flatten
  whole : (∀ x ∈ s.pty.tasks, x.phase = .returned) → s.pty.out = s.sent.flatten

/-- The tasks write in the order of their requests. -/
def KeysInTurn (s : RemoteTerminal) : TerminalInput.Event → Prop
  | .task e => InTurn s.pty e
  | _ => True

/-- The tasks have written in order, and they are those of what was sent. -/
structure Keyed (s : RemoteTerminal) : Prop where
  ordered : Ordered s.pty
  sent : payloads s.pty = s.sent.flatten

/-- What was written in order is what was sent. -/
theorem Keyed.typed (hs : Keyed s) : Typed s := by
  refine ⟨hs.sent ▸ hs.ordered.initial, fun hreturned => ?_⟩
  rw [← hs.sent]
  exact hs.ordered.eq_payloads fun x hx => .inr (hreturned x hx)

/-- A task moves in its turn. -/
theorem keyed_task (hs : Keyed s) {e : LockedSink.Event} (hG : InTurn s.pty e)
    {pty : Sink UInt8} (h : LockedSink.step s.pty e = some pty) :
    Keyed { s with pty := pty } :=
  ⟨ordered_step hs.ordered hG h, (payloads_step hs.ordered.consistent h).trans hs.sent⟩

/-- Every event in turn keeps the order. -/
theorem keyed_step (hs : Keyed s) {e : TerminalInput.Event} (hG : KeysInTurn s e)
    (h : TerminalInput.step s e = some s') : Keyed s' := by
  cases e with
  | write data =>
    obtain rfl := Option.some.inj h
    exact ⟨hs.ordered.submit _, by simp [payloads_submit, Op.payload, hs.sent]⟩
  | exited =>
    obtain rfl := Option.some.inj h
    exact ⟨hs.ordered, hs.sent⟩
  | released =>
    obtain ⟨-, ⟨⟩⟩ := Option.ite_none_right_eq_some.mp h
    exact ⟨⟨hs.ordered.out, hs.ordered.consistent, hs.ordered.earlier⟩, hs.sent⟩
  | task e =>
    have hstep : ∃ pty, LockedSink.step s.pty e = some pty ∧ s' = { s with pty := pty } := by
      cases e with
      | accept i =>
        obtain ⟨-, h⟩ := Option.ite_none_right_eq_some.mp h
        obtain ⟨pty, hpty, rfl⟩ := Option.map_eq_some_iff.mp h
        exact ⟨pty, hpty, rfl⟩
      | _ =>
        obtain ⟨pty, hpty, rfl⟩ := Option.map_eq_some_iff.mp h
        exact ⟨pty, hpty, rfl⟩
    obtain ⟨pty, hpty, rfl⟩ := hstep
    exact keyed_task hs hG hpty

/-- In every run in which the tasks of a terminal write in the order of their requests, the
PTY gets what was sent, whole and in order. -/
theorem keystrokes_in_order (h : machine.ReachableWhen KeysInTurn s) : Typed s :=
  (h.invariant (I := Keyed) ⟨ordered_empty, rfl⟩
    fun _ _ _ hs hG ht => keyed_step hs hG ht).typed

instance : (s : RemoteTerminal) → (e : TerminalInput.Event) → Decidable (KeysInTurn s e)
  | s, .task e => inferInstanceAs (Decidable (InTurn s.pty e))
  | _, .write _ => .isTrue trivial
  | _, .exited => .isTrue trivial
  | _, .released => .isTrue trivial

/-- Three keystrokes whose tasks take the lock in turn, the last after the exit. -/
def typedRun : List TerminalInput.Event :=
  [.write [111, 110, 101], .write [116], .write [119], .task (.accept 1), .task (.accept 0),
    .task (.take 0), .task (.put 0 2), .task (.put 0 1), .task (.finish 0), .task (.take 1),
    .task (.put 1 1), .task (.finish 1), .exited, .task (.refuse 2)]

/-- The first two arrive. -/
theorem keystrokes_in_order_typed :
    let s := (machine.runGuarded KeysInTurn .opened typedRun).get (by decide)
    s.pty.out = [111, 110, 101, 116] ∧ Typed s :=
  ⟨by decide, keystrokes_in_order (Machine.reachableWhen_get (by decide))⟩

/-- Two keystrokes, the second of which takes the lock first. -/
def swappedRun : List TerminalInput.Event :=
  [.write [108], .write [115], .task (.accept 0), .task (.accept 1), .task (.take 1),
    .task (.put 1 1), .task (.finish 1), .task (.take 0), .task (.put 0 1),
    .task (.finish 0)]

/-- Typing `ls` the PTY gets `sl`. -/
theorem keystrokes_swapped : ¬ ∀ s, machine.Reachable s → Typed s := by
  intro hall
  have htyped := hall _ (Machine.reachable_get swappedRun (by decide))
  exact absurd htyped.initial (by decide)

end RemoteWorkspace.Analysis.TerminalInput
