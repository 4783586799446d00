import RemoteWorkspace.Analysis.OutputBooks

/-!
# What the answer to `sp.waitForExit` says about output

The waiter answers once the facts have settled and the group is gone. A process that
outlived the child keeps its pipe open past the grace period: the facts settle without its
reader, and from then on what it writes to a piped stream is thrown away, while what it
wrote last to any stream may still be in the pipe when the group is gone.
-/

set_option autoImplicit false

namespace RemoteWorkspace.Analysis.ProcessOutput

open RemoteWorkspace.Computation RemoteWorkspace.Model RemoteWorkspace.Model.ProcessOutput

/-- Everything the members of the range wrote to stdout or stderr was pushed into its window
or queued as frames. -/
def Complete (s : System) : Prop :=
  ∀ w, w ≠ .control → ranged (s.streams w).captured = ranged (s.streams w).written

/-- Of what the members wrote to stdout or stderr, the readers threw nothing away so far, and
nothing is in a reader's hands or left in a pipe. -/
def CaughtUp (p : System × Losses) : Prop :=
  ∀ w, w ≠ .control → ranged (p.2.thrown w) = [] ∧ ranged (p.1.streams w).held = [] ∧
    ranged (p.1.streams w).pipe = []

/-- If the step is the answer to `sp.waitForExit`, everything was captured before it. -/
def AnswersComplete (p : System × Losses) (e : Event) : Prop := e = .answerExit → Complete p.1

/-- If the step is the answer to `sp.waitForExit`, the readers had caught up before it. -/
def AnswersCaughtUp (p : System × Losses) (e : Event) : Prop := e = .answerExit → CaughtUp p

/-- Where the books balance, what was captured is complete exactly when the readers caught
up. -/
theorem complete_iff_caughtUp {p : System × Losses} (hp : Balanced p) :
    Complete p.1 ↔ CaughtUp p := by
  refine forall₂_congr fun w _ => ?_
  have hbooks : ranged (p.1.streams w).captured = ranged (p.1.streams w).written ↔
      (books (p.1.streams w) (p.2.thrown w)).Settled := (hp w).arrived_eq_sent_iff
  rw [hbooks]
  show ranged (p.2.thrown w) = [] ∧ ranged ((p.1.streams w).held ++ (p.1.streams w).pipe) = [] ↔ _
  rw [ranged_append, List.append_eq_nil_iff]

/-- In every run of a process, whatever its streams are, each answer to `sp.waitForExit`
comes after everything the members of the range wrote was captured exactly when each comes
after the readers caught up with the pipes, having thrown nothing of it away. -/
theorem waitForExit_complete_iff (mode : Which → OutputMode) (es : List Event) :
    (watched mode).Each AnswersComplete (watched mode).init es ↔
      (watched mode).Each AnswersCaughtUp (watched mode).init es := by
  refine Machine.each_iff_each (I := Balanced) ?_ ?_ (balanced_started mode) es
  · intro p e q hp h
    exact balanced_step hp h
  · intro p e q hp _
    exact imp_congr_right fun _ => complete_iff_caughtUp hp

/-- A run in which the child leaves a member of its range behind, which writes to the piped
stdout after the grace period and then ends. -/
def survivorRun : List Event :=
  [.answerSpawn, .transmit, .dispatch, .proc .fork, .proc .childExits,
    .proc (.reap { exitCode := some 0, signal := none }), .proc .record, .proc (.settle true),
    .proc .publish, .waitForExit, .write .out "late".toUTF8.toList true, .read .out 4,
    .capture .out, .proc .memberExits, .exitSeen]

/-- Each of its events can happen. -/
theorem survivorRun_isSome : ((watched stdoutPiped).run survivorRun).isSome = true := by
  decide +kernel

/-- What the survivor wrote is neither in a window nor in a frame when the exit is
answered. -/
theorem survivor_output_lost :
    ¬ ∀ (mode : Which → OutputMode) (es : List Event),
      (watched mode).Each AnswersComplete (watched mode).init es := by
  intro hall
  have heach := hall stdoutPiped (survivorRun ++ [.answerExit])
  have hcomplete := heach.last (Option.some_get survivorRun_isSome).symm (by decide +kernel) rfl
  have hout := hcomplete .out (by decide)
  revert hout
  decide +kernel

end RemoteWorkspace.Analysis.ProcessOutput
