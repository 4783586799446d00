import RemoteWorkspace.Analysis.EntryTouch

/-!
# Status agrees with routing

A machine's channel and its status are two fields of one entry, written at different
points of different closures. `Consistent` is what every touch of an entry of the table
preserves, and the two answers agree because of it. An entry that `dispose` dropped is
not consistent: its state stays what it was while its channel is gone, and a stale
attempt may still write there. Nobody can ask about it any more.
-/

set_option autoImplicit false

namespace RemoteWorkspace.Analysis.NodeConnections

open RemoteWorkspace.Computation RemoteWorkspace.Computation.Machine RemoteWorkspace.Model
open RemoteWorkspace.Model.NodeConnections

variable {deps : Deps} {s s' : Connections}

/-! ### The invariant -/

/-- What the fields of an entry in the table agree on. -/
structure Consistent (e : ℕ) (entry : Entry) : Prop where
  /-- A ready entry holds a connection, shows what it reported and routes to it. -/
  ready : entry.state = .ready → ∃ record live, entry.live = some live ∧
    entry.info = some live.info ∧ entry.published = some ⟨e, record, live⟩
  /-- Any other entry holds, shows and routes nothing. -/
  down : entry.state ≠ .ready →
    entry.live = none ∧ entry.info = none ∧ entry.published = none
  /-- Only an entry that is connecting names an attempt. -/
  settled : entry.state ≠ .connecting → entry.pending = none

/-- A new entry is consistent. -/
theorem consistent_created (e : ℕ) : Consistent e .created :=
  ⟨by simp [Entry.created], by simp [Entry.created], by simp [Entry.created]⟩

/-- What one event does to an entry keeps it consistent, unless the event drops it. -/
theorem Consistent.touch {event : Event} {e : ℕ} {entry entry' : Entry}
    (h : Consistent e entry) (hne : event ≠ .dispose) (ht : Touch s e entry event entry') :
    Consistent e entry' := by
  cases ht with
  | same => exact h
  | host => exact ⟨h.ready, h.down, h.settled⟩
  | progress => exact ⟨h.ready, h.down, h.settled⟩
  | attempt _ record _ hpending hready =>
    -- an entry that starts an attempt was not ready, so there is nothing to take back
    have hdown : entry.state ≠ .ready := by
      intro hs
      obtain ⟨record, live, -, hinfo, -⟩ := h.ready hs
      rw [hready hs] at hinfo
      cases hinfo
    exact ⟨nofun, fun _ => h.down hdown, fun hs => absurd rfl hs⟩
  | opened => exact ⟨h.ready, h.down, h.settled⟩
  | connected a live record transport =>
    exact ⟨fun _ => ⟨record, live, rfl, rfl, rfl⟩, fun hs => absurd rfl hs, fun _ => rfl⟩
  | failed => exact ⟨nofun, fun _ => ⟨rfl, rfl, rfl⟩, fun _ => rfl⟩
  | lost => exact ⟨nofun, fun _ => ⟨rfl, rfl, rfl⟩, fun _ => rfl⟩
  | disconnected => exact ⟨nofun, fun _ => ⟨rfl, rfl, rfl⟩, fun _ => rfl⟩
  | disposed => exact absurd rfl hne

/-- The table is well formed and every entry in it is consistent. -/
structure Agrees (s : Connections) : Prop where
  wellFormed : (skeleton s).WellFormed
  rows : ∀ row ∈ s.table, Consistent row.2 (s.entries row.2)

/-- A new manager agrees. -/
theorem agrees_empty : Agrees .empty := ⟨wellFormed_empty, nofun⟩

/-- Every event keeps the agreement. -/
theorem agrees_step {event : Event} (h : Agrees s) (hs : step deps s event = some s') :
    Agrees s' := by
  refine ⟨wellFormed_step h.wellFormed hs, fun row hrow => ?_⟩
  have hne : event ≠ .dispose := (mem_table_of_step hs hrow).1
  have ht := step_touch hs row.2
  rcases prior_of_mem h.wellFormed hs hrow with ⟨hold, hp⟩ | hp
  · rw [hp] at ht
    exact (h.rows row hold).touch hne ht
  · rw [hp] at ht
    exact (consistent_created row.2).touch hne ht

/-- The entry `get` finds is consistent. -/
theorem Agrees.entry (h : Agrees s) {nodeId : NodeId} {e : ℕ} (hget : s.get nodeId = some e) :
    Consistent e (s.entries e) :=
  h.rows _ (mem_of_get hget)

/-- Where the table agrees, a machine has a channel exactly when its status is ready, and
the channel routes to the connection whose report the status shows. -/
theorem Agrees.routing (h : Agrees s) (nodeId : NodeId) :
    ((channel s nodeId).isSome ↔ (status s nodeId).state = .ready) ∧
    ((status s nodeId).state = .ready → ∃ e record live, s.get nodeId = some e ∧
      (s.entries e).live = some live ∧ channel s nodeId = some ⟨e, record, live⟩ ∧
      (status s nodeId).info = some live.info) := by
  unfold channel status
  cases hget : s.get nodeId with
  | none => simp
  | some e =>
    have hc := h.entry hget
    by_cases hs : (s.entries e).state = .ready
    · obtain ⟨record, live, hlive, hinfo, hpub⟩ := hc.ready hs
      simp [statusOf, hs, hlive, hinfo, hpub]
    · obtain ⟨-, -, hpub⟩ := hc.down hs
      simp [statusOf, hs, hpub]

/-- A reachable table agrees. -/
theorem agrees_of_reachable (hs : (machine deps).Reachable s) : Agrees s :=
  hs.invariant (I := Agrees) agrees_empty fun _ _ _ h _ ht => agrees_step h ht

/-! ### One machine, for concrete runs -/

/-- A machine reached over SSH. -/
def buildBox : NodeRecord := ⟨"build", "Build box", .ssh "build.example" none none, "secret"⟩

/-- A manager with a data directory and the default number of recoveries. -/
def buildDeps : Deps := ⟨3, some "/var/lib/dsh"⟩

/-- The forward the opener answers with, by identity. -/
def forward (id : ℕ) : ResolvedTransport := ⟨id, "127.0.0.1", 4000 + id, true⟩

/-- The connection a handshake answers with, by identity. -/
def link (id : ℕ) : ConnectedNode :=
  ⟨id, ⟨1, "0.1.0", "linux", "x64", "22", "/home/dev", ⟨true, true, none⟩⟩⟩

/-- A connection that comes up. -/
def connectRun : List Event :=
  [.connect buildBox, .opened 0 (forward 0), .connected 0 (link 0)]

/-- In every reachable state, `channel` is defined exactly when `status` says `ready`, and
then the status carries the machine's report and the channel forwards to the connection
the machine's entry holds (machines.ts:560-568). -/
theorem status_agrees_with_routing (hs : (machine deps).Reachable s) (nodeId : NodeId) :
    ((channel s nodeId).isSome ↔ (status s nodeId).state = .ready) ∧
    ((status s nodeId).state = .ready → ∃ e record live, s.get nodeId = some e ∧
      (s.entries e).live = some live ∧ channel s nodeId = some ⟨e, record, live⟩ ∧
      (status s nodeId).info = some live.info) :=
  (agrees_of_reachable hs).routing nodeId

/-- A connected machine has a channel. -/
theorem status_agrees_with_routing_connected :
    (channel (((machine buildDeps).run connectRun).get (by decide)) "build").isSome = true :=
  (status_agrees_with_routing (reachable_get _ (by decide)) "build").1.mpr (by decide)

end RemoteWorkspace.Analysis.NodeConnections
