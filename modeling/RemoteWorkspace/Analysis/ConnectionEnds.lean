import RemoteWorkspace.Analysis.HandshakeGate

/-!
# A connection that is over comes to its end

Past its loop a connection needs none of its tasks, its processes or its client to finish. While no
write has failed, the loop and the writer alone can bring it to its end: the backends are closed
first, everything queued before the order to finish is written, and nothing queued behind it is.
-/

set_option autoImplicit false

namespace RemoteWorkspace.Analysis.ServerConnection

open RemoteWorkspace.Computation RemoteWorkspace.Model.Wire RemoteWorkspace.Model.JsonRpc
open RemoteWorkspace.Model.ServerConnection

variable {serde : Serde JsonValue} {shared : Shared} {incoming : PieceReader UInt8}
  {c d : Connection}

/-- What the loop and the writer do past the loop, without a write that fails. -/
def IsOwn : Event → Prop
  | .close => True
  | .stop => True
  | .join => True
  | .writer .fail => False
  | .writer _ => True
  | _ => False

/-- The backends are closed before the order to finish. -/
def Closes (c : Connection) : Prop :=
  (c.main = .stopping ∨ c.main = .joining ∨ c.main = .finished) → c.closed = true

theorem Closes.moves (h : Closes c) (hmove : Moves serde shared c d) : Closes d := by
  cases hmove with
  | read message rest hmain hread =>
    intro hd
    rcases @serveMessage_main shared
      { c with reader := rest, read := c.read ++ [message] } message hmain with hm | ⟨_, _, hm⟩ <;>
    · rw [hm] at hd
      rcases hd with hd | hd | hd <;> cases hd
  | lost rest hmain => exact fun hd => by rcases hd with hd | hd | hd <;> cases hd
  | greet id outcome hmain hgone =>
    intro hd
    dsimp only at hd
    split at hd <;> rcases hd with hd | hd | hd <;> cases hd
  | greetUnheard id outcome hmain hgone =>
    exact fun hd => by rcases hd with hd | hd | hd <;> cases hd
  | close hmain => exact fun _ => rfl
  | stop hmain hgone => exact fun _ => h (.inl hmain)
  | stopUnheard hmain hgone => exact fun _ => h (.inl hmain)
  | join hmain hgone => exact fun _ => h (.inr (.inl hmain))
  | respond | answer | answerUnheard | push | pushLost | writer => exact h

theorem closes_of_reachable (h : (machine serde shared incoming).Reachable c) : Closes c :=
  invariant (fun hd => by rcases hd with hd | hd | hd <;> cases hd)
    (fun _ _ hc hmove => hc.moves hmove) h

/-- A connection that waits for its writer has ordered the end, or lost its writer. -/
def Orders (c : Connection) : Prop :=
  (c.main = .joining ∨ c.main = .finished) → c.out.stopped.isSome = true ∨ c.out.broken = true

theorem Orders.moves (h : Orders c) (hw : Writes serde c) (hmove : Moves serde shared c d) :
    Orders d := by
  cases hmove with
  | read message rest hmain hread =>
    intro hd
    rcases @serveMessage_main shared
      { c with reader := rest, read := c.read ++ [message] } message hmain with hm | ⟨_, _, hm⟩ <;>
    · rw [hm] at hd
      rcases hd with hd | hd <;> cases hd
  | greet id outcome hmain hgone =>
    intro hd
    dsimp only at hd
    split at hd <;> rcases hd with hd | hd <;> cases hd
  | lost | greetUnheard | close => exact fun hd => by rcases hd with hd | hd <;> cases hd
  | stop hmain hgone => exact fun _ => .inl rfl
  | stopUnheard hmain hgone =>
    exact fun _ => .inr (hw.broken hgone
      (hw.not_stopped (by simp [hmain]) (by simp [hmain])))
  | join hmain hgone => exact fun _ => h (.inl hmain)
  | writer move out hmove =>
    obtain ⟨-, hstopped⟩ := FrameWriter.log_move hmove
    exact fun hd => (h hd).imp (fun hs => hstopped.symm ▸ hs) (FrameWriter.broken_move hmove)
  | respond | answer | answerUnheard | push | pushLost => exact h

theorem orders_of_reachable (h : (machine serde shared incoming).Reachable c) : Orders c := by
  have hboth : Writes serde c ∧ Orders c := by
    refine invariant (I := fun c => Writes serde c ∧ Orders c)
      ⟨Writes.accepted incoming, fun hd => ?_⟩ (fun c d hc hmove => ?_) h
    · rcases hd with hd | hd <;> cases hd
    · exact ⟨hc.1.moves hmove, hc.2.moves hc.1 hmove⟩
  exact hboth.2

/-- A run of the writer is one of the connection. -/
theorem runFrom_writer {ms : List FrameWriter.Move} {out : FrameWriter Frame UInt8}
    (h : (FrameWriter.machine (Frame.bytes serde)).runFrom c.out ms = some out) :
    (machine serde shared incoming).runFrom c (ms.map .writer) = some { c with out := out } := by
  induction ms generalizing c with
  | nil =>
    obtain rfl : c.out = out := Option.some.inj h
    rfl
  | cons m ms ih =>
    obtain ⟨next, hnext, hrest⟩ := Option.bind_eq_some_iff.mp h
    have hstep : (machine serde shared incoming).step c (.writer m) =
        some { c with out := next } := by
      change (c.out.move (Frame.bytes serde) m).map _ = _
      rw [show c.out.move (Frame.bytes serde) m = some next from hnext]
      rfl
    rw [List.map_cons, Machine.runFrom, hstep]
    exact ih hrest

/-- The moves of a writer that do not fail are the connection's own. -/
theorem isOwn_writer {ms : List FrameWriter.Move} (h : FrameWriter.Move.fail ∉ ms) :
    ∀ e ∈ ms.map Event.writer, IsOwn e := by
  intro e he
  obtain ⟨m, hm, rfl⟩ := List.mem_map.mp he
  cases m with
  | fail => exact absurd hm h
  | take | write | flush | drop => trivial

/-- A connection that came to its end by its own steps. -/
def Ends (serde : Serde JsonValue) (shared : Shared) (incoming : PieceReader UInt8)
    (c : Connection) (written : Bytes) : Prop :=
  ∃ es d, (∀ e ∈ es, IsOwn e) ∧ (machine serde shared incoming).runFrom c es = some d ∧
    d.main = .finished ∧ d.closed = true ∧ d.out.broken = false ∧ d.out.written = written

/-- What comes to its end behind some of its own steps does before them. -/
theorem Ends.before {es : List Event} {written : Bytes} (hown : ∀ e ∈ es, IsOwn e)
    (hrun : (machine serde shared incoming).runFrom c es = some d)
    (h : Ends serde shared incoming d written) : Ends serde shared incoming c written := by
  obtain ⟨more, last, hmore, hrest, hend⟩ := h
  refine ⟨es ++ more, last, fun e he => ?_, (Machine.runFrom_append hrun).trans hrest, hend⟩
  rcases List.mem_append.mp he with he | he
  · exact hown e he
  · exact hmore e he

/-- A writer that has ended lets the connection end. -/
theorem ends_of_gone (hmain : c.main = .joining) (hclosed : c.closed = true)
    (hgone : c.out.isGone = true) (hbroken : c.out.broken = false) :
    Ends serde shared incoming c c.out.written := by
  refine ⟨[.join], { c with main := .finished }, by simp [IsOwn], ?_, rfl, hclosed, hbroken, rfl⟩
  simp [Machine.runFrom, machine, step, hmain, hgone]

/-- A connection that waits for its writer comes to its end. -/
theorem ends_of_joining (hw : Writes serde c) (hc : Closes c) (hmain : c.main = .joining)
    (hbroken : c.out.broken = false) {k : ℕ} (hk : c.out.stopped = some k) :
    Ends serde shared incoming c ((c.out.log.take k).flatMap (Frame.bytes serde)) := by
  have hclosed := hc (.inr (.inl hmain))
  cases hphase : c.out.phase.rest with
  | some rest =>
    obtain ⟨ms, hms, hrun⟩ := hw.sound.exists_ended hphase hk
    exact Ends.before (isOwn_writer hms) (runFrom_writer hrun) (ends_of_gone hmain hclosed rfl hbroken)
  | none =>
    obtain ⟨k', hk', hwritten⟩ := hw.sound.ended hphase hbroken
    obtain rfl : k' = k := Option.some.inj (hk'.symm.trans hk)
    rw [← hwritten]
    cases hp : c.out.phase with
    | receiving => rw [hp] at hphase; cases hphase
    | writing rest => rw [hp] at hphase; cases hphase
    | gone =>
      exact ends_of_gone hmain hclosed (by rw [FrameWriter.isGone, hp]) hbroken
    | finishing =>
      have hdrop : (FrameWriter.machine (Frame.bytes serde)).runFrom c.out [.drop] =
          some { c.out with phase := .gone, queue := [] } := by
        simp [Machine.runFrom, FrameWriter.machine, FrameWriter.move, hp]
      exact Ends.before (isOwn_writer (by simp : FrameWriter.Move.fail ∉ [.drop])) (runFrom_writer hdrop)
        (ends_of_gone hmain hclosed rfl hbroken)

/-- A connection that is about to order the end comes to it. -/
theorem ends_of_stopping (hw : Writes serde c) (hc : Closes c) (hmain : c.main = .stopping)
    (hbroken : c.out.broken = false) :
    Ends serde shared incoming c (c.out.log.flatMap (Frame.bytes serde)) := by
  have hnone := hw.not_stopped (by simp [hmain]) (by simp [hmain])
  cases hphase : c.out.phase.rest with
  | none =>
    obtain ⟨k, hk, -⟩ := hw.sound.ended hphase hbroken
    rw [hnone] at hk
    cases hk
  | some rest =>
    -- all frames are written first, which makes room for the order
    obtain ⟨ms, hms, hrun⟩ := hw.sound.exists_drained hphase hnone
    refine Ends.before (isOwn_writer hms) (runFrom_writer hrun) ?_
    let drained : FrameWriter Frame UInt8 :=
      { c.out with queue := [], phase := .receiving, written := c.out.log.flatMap (Frame.bytes serde) }
    have hstop : (machine serde shared incoming).runFrom { c with out := drained }
        [.stop, .writer .take, .writer .drop] =
          some { c with
            main := .joining
            out := { drained with phase := .gone, stopped := some c.out.log.length } } := by
      simp [Machine.runFrom, machine, step, hmain, drained, FrameWriter.hasRoom, FrameWriter.isGone,
        FrameWriter.stop, FrameWriter.move, writeBacklogFrames]
    refine Ends.before ?_ hstop (ends_of_gone rfl (hc (.inl hmain)) rfl hbroken)
    simp [IsOwn]

/-! ### Results -/

end RemoteWorkspace.Analysis.ServerConnection
