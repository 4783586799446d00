import RemoteWorkspace.Analysis.StatusAgreesWithRouting

/-!
# What a disconnect leaves to come

`disconnect` clears the fields of an entry and nothing else: an attempt that is in flight
goes on and writes its result into the entry it closed over, and so does one that was in
flight when `dispose` dropped the table. A recovery, by contrast, is really ended, since
its loop compares the entry's `recovery` with its own symbol after every timer.

`InTime` is the condition under which a machine a person disconnected stays down: no
attempt that the disconnect abandoned finishes its handshake before the next `connect`
for that machine, and no loss is taken on an entry that is down or dropped.
-/

set_option autoImplicit false

namespace RemoteWorkspace.Analysis.NodeConnections

open RemoteWorkspace.Computation RemoteWorkspace.Computation.Machine RemoteWorkspace.Model
open RemoteWorkspace.Model.NodeConnections

variable {deps : Deps} {s s' : Connections}

/-! ### What was asked -/

/-- What the calls so far amount to: the machines that were disconnected, or disposed of,
since anybody last asked to connect them, and the attempts such a call abandoned. -/
structure History where
  down : NodeId → Bool
  abandoned : ℕ → Bool

variable {h : History}

/-- Attempt `a` is in flight for a machine. -/
def inFlightFor (s : Connections) (a : ℕ) (nodeId : NodeId) : Bool :=
  match s.attempts[a]? with
  | some x => x.inFlight && decide (x.record.nodeId = nodeId)
  | none => false

/-- Attempt `a` is in flight. -/
def isInFlight (s : Connections) (a : ℕ) : Bool :=
  match s.attempts[a]? with
  | some x => x.inFlight
  | none => false

/-- Keep the history. -/
def watch (s : Connections) (h : History) (event : Event) (_ : Connections) : History :=
  match event with
  | .connect record => { h with down := fun n => !decide (n = record.nodeId) && h.down n }
  | .disconnect nodeId =>
    { down := fun n => decide (n = nodeId) || h.down n
      abandoned := fun a => inFlightFor s a nodeId || h.abandoned a }
  | .dispose =>
    { down := fun _ => true
      abandoned := fun a => isInFlight s a || h.abandoned a }
  | _ => h

/-- The manager with its history. -/
def watched (deps : Deps) : Machine (Connections × History) Event :=
  (machine deps).observe ⟨fun _ => false, fun _ => false⟩ watch

/-- An attempt does not complete once its machine was disconnected: not while the machine
is down and the entry is still the machine's. -/
def CompletesInTime (s : Connections) (h : History) : Event → Prop
  | .connected a _ => ∀ x ∈ s.attempts[a]?, h.abandoned a = true →
      h.down x.record.nodeId = true → (x.record.nodeId, x.entry) ∉ s.table
  | _ => True

/-- A loss is published only on an entry of the table whose machine is not down. -/
def LosesInTime (s : Connections) (h : History) (event : Event) : Prop :=
  ∀ owner ∈ lossOf s event,
    (owner.2.nodeId, owner.1) ∈ s.table ∧ h.down owner.2.nodeId = false

/-- The condition on one event under which what was disconnected stays down. -/
def InTime (p : Connections × History) (event : Event) : Prop :=
  CompletesInTime p.1 p.2 event ∧ LosesInTime p.1 p.2 event

instance (s : Connections) (h : History) (event : Event) :
    Decidable (CompletesInTime s h event) :=
  match event with
  | .connected a _ => inferInstanceAs (Decidable (∀ x ∈ s.attempts[a]?, h.abandoned a = true →
      h.down x.record.nodeId = true → (x.record.nodeId, x.entry) ∉ s.table))
  | .connect _ | .ptcHost _ | .disconnect _ | .dispose | .report _ _ | .opened _ _
  | .openFailed _ _ | .connectFailed _ _ | .exited _ | .requestFailed _ _ _ | .wake _
  | .resume _ | .installed _ | .installFailed _ _ => inferInstanceAs (Decidable True)

instance (p : Connections × History) (event : Event) : Decidable (InTime p event) :=
  inferInstanceAs (Decidable (CompletesInTime p.1 p.2 event ∧ ∀ owner ∈ lossOf p.1 event,
    (owner.2.nodeId, owner.1) ∈ p.1.table ∧ p.2.down owner.2.nodeId = false))

/-! ### The invariant -/

/-- What holds of a machine that is down, and why nothing brings it back. -/
structure StaysDown (s : Connections) (h : History) : Prop where
  agrees : Agrees s
  /-- Only an entry of the table whose machine is up names a recovery, and the recovery it
  names is its own. -/
  recoveries : ∀ e r, (s.entries e).recovery = some r →
    ∃ record, Recovers s r e record ∧ (record.nodeId, e) ∈ s.table ∧
      h.down record.nodeId = false
  /-- An entry that is down is not ready. -/
  rows : ∀ row ∈ s.table, h.down row.1 = true → (s.entries row.2).state ≠ .ready
  /-- What is in flight on an entry that is down was abandoned. -/
  flying : ∀ row ∈ s.table, h.down row.1 = true →
    ∀ a record, Flies s a row.2 record → h.abandoned a = true

/-- A machine that is down has no channel and is not ready. -/
theorem StaysDown.down (hs : StaysDown s h) {nodeId : NodeId} (hdown : h.down nodeId = true) :
    channel s nodeId = none ∧ (status s nodeId).state ≠ .ready := by
  have hroute := (hs.agrees.routing nodeId).1
  have hready : (status s nodeId).state ≠ .ready := by
    unfold status
    cases hget : s.get nodeId with
    | none => simp
    | some e => exact hs.rows _ (mem_of_get hget) hdown
  refine ⟨?_, hready⟩
  cases hc : channel s nodeId with
  | none => rfl
  | some c => exact absurd (hroute.mp (by simp [hc])) hready

/-- Nothing is down in a new manager. -/
theorem staysDown_empty : StaysDown .empty ⟨fun _ => false, fun _ => false⟩ :=
  ⟨agrees_empty, nofun, nofun, nofun⟩

/-- A machine that is down after an event was down before it, or the event disconnected
it or disposed of everything; it asked for no connection. -/
theorem down_of_watch {event : Event} {nodeId : NodeId}
    (hdown : (watch s h event s').down nodeId = true) :
    (h.down nodeId = true ∨ event = .disconnect nodeId ∨ event = .dispose) ∧
    (∀ record, event = .connect record → record.nodeId ≠ nodeId) := by
  cases event with
  | connect record =>
    simp only [watch, Bool.and_eq_true, Bool.not_eq_true', decide_eq_false_iff_not] at hdown
    refine ⟨.inl hdown.2, ?_⟩
    rintro _ ⟨rfl⟩ rfl
    exact hdown.1 rfl
  | disconnect n =>
    simp only [watch, Bool.or_eq_true, decide_eq_true_eq] at hdown
    refine ⟨?_, nofun⟩
    rcases hdown with rfl | hdown
    · exact .inr (.inl rfl)
    · exact .inl hdown
  | dispose => exact ⟨.inr (.inr rfl), nofun⟩
  | _ => exact ⟨.inl hdown, nofun⟩

/-- What was abandoned stays so. -/
theorem abandoned_watch {event : Event} {a : ℕ} (ha : h.abandoned a = true) :
    (watch s h event s').abandoned a = true := by
  cases event <;> simp [watch, ha]

/-- A machine that is up after its disconnect is another machine. -/
theorem up_watch {event : Event} {nodeId : NodeId} (hup : h.down nodeId = false)
    (hdispose : event ≠ .dispose) (hdisconnect : event ≠ .disconnect nodeId) :
    (watch s h event s').down nodeId = false := by
  rw [Bool.eq_false_iff]
  intro hdown
  rcases (down_of_watch hdown).1 with hd | hd | hd
  · exact absurd hd (by simp [hup])
  · exact hdisconnect hd
  · exact hdispose hd

/-- Only a request for a machine that is up starts an attempt: a caller's, or that of a
recovery its entry still names. -/
theorem StaysDown.asks (hs : StaysDown s h) {event : Event} {record : NodeRecord}
    (hasks : Asks s record event) : (watch s h event s').down record.nodeId = false := by
  cases event with
  | connect record' =>
    obtain rfl : record' = record := hasks
    simp [watch]
  | wake r =>
    obtain ⟨e, n, hr, hmine⟩ := hasks
    obtain ⟨record', ⟨x, hx, -, rfl⟩, -, hup⟩ := hs.recoveries e r hmine
    obtain rfl := Option.some.inj (hr.symm.trans hx)
    exact hup
  | _ => exact hasks.elim

/-- What names a recovery after an event named it before, or lost its connection. -/
theorem Touch.recovery {event : Event} {e r : ℕ} {entry entry' : Entry}
    (ht : Touch s e entry event entry') (hr : entry'.recovery = some r) :
    ¬ Ends s e event ∧ entry.recovery = some r ∨
      r = s.recoveries.length ∧ ∃ record, lossOf s event = some (e, record) := by
  cases ht with
  | same _ hends => exact .inl ⟨hends, hr⟩
  | host _ hends => exact .inl ⟨hends, hr⟩
  | progress => exact .inl ⟨id, hr⟩
  | attempt _ record hasks =>
    refine .inl ⟨fun hends => ?_, hr⟩
    cases event with
    | connect | wake => exact hends
    | _ => exact hasks
  | opened => exact .inl ⟨id, hr⟩
  | connected => exact .inl ⟨id, hr⟩
  | failed _ a message record hevent =>
    refine .inl ⟨?_, hr⟩
    rcases hevent with rfl | rfl <;> exact id
  | lost _ record error hloss => exact .inr ⟨(Option.some.inj hr).symm, record, hloss⟩
  | disconnected => cases hr
  | disposed => cases hr

/-- What is ready after an event was ready before, or completed its handshake. -/
theorem Touch.ready {event : Event} {e : ℕ} {entry entry' : Entry}
    (ht : Touch s e entry event entry') (hne : event ≠ .dispose)
    (hready : entry'.state = .ready) :
    ¬ Ends s e event ∧ entry.state = .ready ∨
      ∃ a live record, event = .connected a live ∧ Flies s a e record := by
  cases ht with
  | same _ hends => exact .inl ⟨hends, hready⟩
  | host _ hends => exact .inl ⟨hends, hready⟩
  | progress => exact .inl ⟨id, hready⟩
  | opened => exact .inl ⟨id, hready⟩
  | connected a live record transport hfly => exact .inr ⟨a, live, record, rfl, hfly⟩
  | attempt | failed | lost | disconnected => cases hready
  | disposed => exact absurd rfl hne

/-- An attempt in flight on an entry of the table was on a row that was there. -/
theorem mem_of_flies {event : Event} (hw : (skeleton s).WellFormed)
    (hstep : step deps s event = some s') {row : NodeId × ℕ} (hrow : row ∈ s'.table) {a : ℕ}
    {record : NodeRecord} (hfly : Flies s a row.2 record) :
    row ∈ s.table ∧ row.1 = record.nodeId := by
  obtain ⟨x, hx, -, he, rfl⟩ := hfly
  rcases (mem_table_of_step hstep hrow).2 with hold | ⟨hnew, -⟩
  · exact ⟨hold, attempt_machine hw hx hold he⟩
  · exact absurd (he.trans hnew) (Nat.ne_of_lt (attempt_below hw hx))

/-- An event that meets the condition keeps what is down down. -/
theorem staysDown_step {event : Event} (hs : StaysDown s h) (hin : InTime (s, h) event)
    (hstep : step deps s event = some s') : StaysDown s' (watch s h event s') := by
  have hw := hs.agrees.wellFormed
  have hw' := wellFormed_step hw hstep
  refine ⟨agrees_step hs.agrees hstep, ?_, ?_, ?_⟩
  · intro e r hr
    rcases (step_touch hstep e).recovery hr with ⟨hends, hr⟩ | ⟨rfl, record, hloss⟩
    · have hold : (s.entries e).recovery = some r := by
        unfold prior at hr
        split at hr
        · cases hr
        · exact hr
      obtain ⟨record, hrec, hrow, hup⟩ := hs.recoveries e r hold
      have hdispose : event ≠ .dispose := by
        rintro rfl
        exact hends (List.mem_map_of_mem hrow)
      have hdisconnect : event ≠ .disconnect record.nodeId := by
        rintro rfl
        exact hends ((get_eq_some_iff hw).mpr hrow)
      exact ⟨record, recovers_step hstep hrec, step_table hdispose hstep hrow,
        up_watch hup hdispose hdisconnect⟩
    · obtain ⟨hrow, hup⟩ := hin.2 _ hloss
      have hdispose : event ≠ .dispose := by
        rintro rfl
        cases hloss
      have hdisconnect : event ≠ .disconnect record.nodeId := by
        rintro rfl
        cases hloss
      exact ⟨record, recovers_loss hstep hloss, step_table hdispose hstep hrow,
        up_watch hup hdispose hdisconnect⟩
  · intro row hrow hdown hready
    have hdispose := (mem_table_of_step hstep hrow).1
    rcases (step_touch hstep row.2).ready hdispose hready with
      ⟨hends, hready⟩ | ⟨a, live, record, rfl, hfly⟩
    · rcases prior_of_mem hw hstep hrow with ⟨hold, hp⟩ | hp
      · rw [hp] at hready
        rcases (down_of_watch hdown).1 with hd | rfl | rfl
        · exact hs.rows row hold hd hready
        · exact hends ((get_eq_some_iff hw).mpr hold)
        · exact hdispose rfl
      · rw [hp] at hready
        cases hready
    · -- the handshake of an attempt that the disconnect abandoned
      obtain ⟨hold, hmachine⟩ := mem_of_flies hw hstep hrow hfly
      have habandoned := hs.flying row hold hdown a record hfly
      obtain ⟨x, hx, -, he, rfl⟩ := hfly
      refine hin.1 x hx habandoned (hmachine ▸ hdown) ?_
      rw [he, ← hmachine]
      exact hold
  · intro row hrow hdown a record hfly
    rcases step_flies hstep hfly with hfly' | hasks
    · obtain ⟨hold, hmachine⟩ := mem_of_flies hw hstep hrow hfly'
      rcases (down_of_watch hdown).1 with hd | rfl | rfl
      · exact abandoned_watch (hs.flying row hold hd a record hfly')
      · obtain ⟨x, hx, hin, -, rfl⟩ := hfly'
        simp [watch, inFlightFor, hx, hin, hmachine]
      · exact absurd rfl (mem_table_of_step hstep hrow).1
    · obtain ⟨x, hx, -, he, rfl⟩ := hfly
      have hmachine : row.1 = x.record.nodeId := attempt_machine hw' hx hrow he
      have hup : (watch s h event s').down _ = false := hs.asks hasks
      rw [hmachine, hup] at hdown
      cases hdown

/-- A run whose every step meets the condition keeps what is down down. -/
theorem staysDown_of_inTime {p : Connections × History}
    (hp : (watched deps).ReachableWhen InTime p) : StaysDown p.1 p.2 := by
  refine hp.invariant (I := fun p => StaysDown p.1 p.2) staysDown_empty ?_
  intro p event q hs hin hstep
  obtain ⟨hstep, hh⟩ := observe_step.mp hstep
  rw [hh]
  exact staysDown_step hs hin hstep

/-- In every run in which no abandoned attempt completes while its machine is down, and no
loss is published on an entry that is down or dropped, a machine that was disconnected or
disposed of has no channel and is not ready until it is next asked for
(machines.ts:501-600). -/
theorem disconnect_stays_down {p : Connections × History}
    (hp : (watched deps).ReachableWhen InTime p) {nodeId : NodeId}
    (hdown : p.2.down nodeId = true) :
    channel p.1 nodeId = none ∧ (status p.1 nodeId).state ≠ .ready :=
  (staysDown_of_inTime hp).down hdown

/-- A machine that is disconnected while it recovers from a lost forward. -/
def disconnectRun : List Event :=
  connectRun ++ [.exited 0, .wake 0, .opened 1 (forward 1), .disconnect "build",
    .connectFailed 1 "closed", .resume 0, .wake 0]

/-- The attempt of the recovery fails and the recovery does not try again. -/
theorem disconnect_stays_down_recovering :
    (channel (((watched buildDeps).runGuarded InTime (watched buildDeps).init
      disconnectRun).get (by decide)).1 "build") = none :=
  (@disconnect_stays_down buildDeps _ (reachableWhen_get (by decide)) _ (by decide)).1

/-- A handshake that completes after the disconnect. -/
def staleRun : List Event :=
  [.connect buildBox, .opened 0 (forward 0), .disconnect "build", .connected 0 (link 0)]

/-- A machine disconnected while its handshake is under way becomes ready all the same. -/
theorem disconnect_undone :
    ¬ ∀ p, (watched buildDeps).Reachable p → ∀ nodeId, p.2.down nodeId = true →
      channel p.1 nodeId = none ∧ (status p.1 nodeId).state ≠ .ready := by
  intro hall
  have hrun : ((watched buildDeps).run staleRun).isSome = true := by decide
  exact (hall _ (reachable_get _ hrun) "build" rfl).2 rfl

end RemoteWorkspace.Analysis.NodeConnections
