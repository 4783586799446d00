import RemoteWorkspace.Analysis.StatusAgreesWithRouting

/-!
# What a stale attempt does to a newer one

Attempts are not numbered in the source: the code after each await writes into the entry
it closed over, whoever the entry belongs to by then. `Untouched` says that an attempt a
disconnect abandoned leaves what a newer attempt published, and `Harmless` is what that
comes to for one event: the attempt finds there what it is about to write. The two agree
on every step of every run, so nothing but a coincidence keeps a stale attempt from
touching a newer one.
-/

set_option autoImplicit false

namespace RemoteWorkspace.Analysis.NodeConnections

open RemoteWorkspace.Computation RemoteWorkspace.Computation.Machine RemoteWorkspace.Model
open RemoteWorkspace.Model.NodeConnections

variable {deps : Deps} {s s' : Connections}

/-! ### Stale attempts and what they may not touch -/

/-- What an attempt publishes on its entry. -/
structure Publication where
  state : NodeState
  info : Option NodeInfo
  live : Option ConnectedNode
  transport : Option ResolvedTransport
  pending : Option ℕ
  error : Option String
  deriving DecidableEq

/-- What is published on an entry. -/
def publication (entry : Entry) : Publication :=
  ⟨entry.state, entry.info, entry.live, entry.transport, entry.pending, entry.error⟩

/-- How many attempts there were when each machine was last disconnected: an attempt
below that number that is still in flight was abandoned, one from there on is newer. -/
abbrev Marks := NodeId → ℕ

/-- Keep the marks. -/
def mark (s : Connections) (marks : Marks) (event : Event) (_ : Connections) : Marks :=
  match event with
  | .disconnect nodeId => fun n => if n = nodeId then s.attempts.length else marks n
  | _ => marks

/-- The manager with its marks. -/
def marked (deps : Deps) : Machine (Connections × Marks) Event :=
  (machine deps).observe (fun _ => 0) mark

/-- The attempt one of whose awaits an event settles. -/
def attemptOf : Event → Option ℕ
  | .opened a _ => some a
  | .openFailed a _ => some a
  | .connected a _ => some a
  | .connectFailed a _ => some a
  | _ => none

/-- Attempt `a` was abandoned by a disconnect of its machine, and a newer attempt has
begun on the entry at `e`. -/
def Superseded (s : Connections) (marks : Marks) (a : ℕ) (x : Attempt) (e : ℕ) : Prop :=
  a < marks x.record.nodeId ∧
    ∃ b y, marks x.record.nodeId ≤ b ∧ s.attempts[b]? = some y ∧ y.entry = e

/-- A superseded attempt that settles changes nothing that is published on its machine's
entry. -/
def Untouched (deps : Deps) (p : Connections × Marks) (event : Event) : Prop :=
  ∀ s', step deps p.1 event = some s' → ∀ a ∈ attemptOf event, ∀ x ∈ p.1.attempts[a]?,
    ∀ e ∈ p.1.get x.record.nodeId, Superseded p.1 p.2 a x e →
      publication (s'.entries e) = publication (p.1.entries e)

/-- The entry already shows what an attempt that settles is about to publish on it: the
transport it opened, the connection it made, or its own failure with no transport left to
close. -/
def Shows (entry : Entry) (record : NodeRecord) : Event → Prop
  | .opened _ transport => entry.transport = some transport
  | .connected _ live => entry.state = .ready ∧ entry.live = some live
  | .openFailed _ message | .connectFailed _ message =>
    entry.state = .failed ∧ entry.error = some (describeFailure record message) ∧
      entry.transport = none
  | _ => True

/-- A superseded attempt that settles on its machine's entry finds there what it is about
to publish. -/
def Harmless (p : Connections × Marks) (event : Event) : Prop :=
  ∀ a ∈ attemptOf event, ∀ x ∈ p.1.attempts[a]?, p.1.get x.record.nodeId = some x.entry →
    Superseded p.1 p.2 a x x.entry → Shows (p.1.entries x.entry) x.record event

/-! ### What a settling attempt publishes -/

/-- An opened transport publishes only itself. -/
theorem publication_opened (entry : Entry) (transport : ResolvedTransport) :
    publication { entry with transport := some transport } = publication entry ↔
      entry.transport = some transport := by
  simp [publication, eq_comm]

/-- A completed handshake publishes what a consistent entry shows only if the entry shows
that very connection. -/
theorem publication_connected {e : ℕ} {entry : Entry} (h : Consistent e entry)
    (record : NodeRecord) (transport : ResolvedTransport) (live : ConnectedNode)
    (ptcHost : Option ℕ) (worker : Option WorkerStatus) :
    publication { entry.connected e record transport live with
        ptcHost := ptcHost, worker := worker } = publication entry ↔
      entry.state = .ready ∧ entry.live = some live := by
  constructor
  · intro hp
    injection hp with hstate _ hlive
    exact ⟨hstate.symm, hlive.symm⟩
  · rintro ⟨hstate, hlive⟩
    obtain ⟨record', live', hlive', hinfo, -⟩ := h.ready hstate
    obtain rfl := Option.some.inj (hlive'.symm.trans hlive)
    have hpending : entry.pending = none := h.settled (by simp [hstate])
    simp [publication, Entry.connected, hstate, hlive, hinfo, hpending]

/-- A failure publishes what a consistent entry shows only if the entry shows that very
failure and holds no transport. -/
theorem publication_failed {e : ℕ} {entry : Entry} (h : Consistent e entry) (error : String) :
    publication { entry.cleared with state := .failed, error := some error } =
        publication entry ↔
      entry.state = .failed ∧ entry.error = some error ∧ entry.transport = none := by
  constructor
  · intro hp
    injection hp with hstate _ _ htransport _ herror
    exact ⟨hstate.symm, herror.symm, htransport.symm⟩
  · rintro ⟨hstate, herror, htransport⟩
    obtain ⟨hlive, hinfo, -⟩ := h.down (by simp [hstate])
    have hpending : entry.pending = none := h.settled (by simp [hstate])
    simp [publication, Entry.cleared, hstate, herror, htransport, hlive, hinfo, hpending]

/-- An attempt that fails publishes on no other entry. -/
theorem publication_attemptFailed_ne {a e : ℕ} {x : Attempt} {message : String}
    (he : e ≠ x.entry) :
    publication ((attemptFailed s a x message).entries e) = publication (s.entries e) := by
  simp [attemptFailed, fail, clear, Connections.settleAttempt, Connections.assign, he]

/-- On its own entry it changes nothing exactly when the entry shows this failure already. -/
theorem publication_attemptFailed {a : ℕ} {x : Attempt} {message : String}
    (hc : Consistent x.entry (s.entries x.entry)) :
    publication ((attemptFailed s a x message).entries x.entry) =
        publication (s.entries x.entry) ↔
      (s.entries x.entry).state = .failed ∧
        (s.entries x.entry).error = some (describeFailure x.record message) ∧
        (s.entries x.entry).transport = none := by
  simpa [attemptFailed, fail, clear, Connections.settleAttempt, Connections.assign] using
    publication_failed hc (describeFailure x.record message)

/-- An attempt that settles publishes on its own entry only, and changes nothing there
exactly when a consistent entry shows what it publishes. -/
theorem publication_step {event : Event} {a : ℕ} {x : Attempt} (ha : attemptOf event = some a)
    (hx : s.attempts[a]? = some x) (h : step deps s event = some s') :
    (∀ e, e ≠ x.entry → publication (s'.entries e) = publication (s.entries e)) ∧
    (Consistent x.entry (s.entries x.entry) →
      (publication (s'.entries x.entry) = publication (s.entries x.entry) ↔
        Shows (s.entries x.entry) x.record event)) := by
  cases event with
  | opened a' transport =>
    obtain rfl := Option.some.inj ha
    obtain ⟨e', record, ran, ha', rfl⟩ := step_opened h
    obtain rfl := Option.some.inj (ha'.symm.trans hx)
    constructor
    · intro e he
      simp [Connections.settleAttempt, Connections.assign, he]
    · intro _
      simpa [Connections.settleAttempt, Connections.assign, Shows] using
        publication_opened (s.entries e') transport
  | openFailed a' message =>
    obtain rfl := Option.some.inj ha
    obtain ⟨e', record, ran, ha', rfl⟩ := step_openFailed h
    obtain rfl := Option.some.inj (ha'.symm.trans hx)
    exact ⟨fun e he => publication_attemptFailed_ne he,
      fun hc => publication_attemptFailed (x := ⟨e', record, _, ran⟩) hc⟩
  | connected a' live =>
    obtain rfl := Option.some.inj ha
    obtain ⟨e', record, transport, ran, ha', rfl⟩ := step_connected h
    obtain rfl := Option.some.inj (ha'.symm.trans hx)
    have hworker := @handshaken_workerOnly deps s e' record transport live
    constructor
    · intro e he
      obtain ⟨ptcHost, worker, hw⟩ := hworker.entries e
      change publication ((handshaken deps s e' record transport live).entries e) = _
      rw [hw]
      simp [Connections.assign, he, publication]
    · intro hc
      obtain ⟨ptcHost, worker, hw⟩ := hworker.entries e'
      change publication ((handshaken deps s e' record transport live).entries e') = _ ↔ _
      rw [hw]
      simpa [Connections.assign, Shows] using
        publication_connected hc record transport live ptcHost worker
  | connectFailed a' message =>
    obtain rfl := Option.some.inj ha
    obtain ⟨e', record, transport, ran, ha', rfl⟩ := step_connectFailed h
    obtain rfl := Option.some.inj (ha'.symm.trans hx)
    exact ⟨fun e he => publication_attemptFailed_ne he,
      fun hc => publication_attemptFailed (x := ⟨e', record, _, ran⟩) hc⟩
  | _ => cases ha

/-! ### The exact condition -/

/-- A superseded attempt leaves a newer one untouched exactly when it is harmless. -/
theorem untouched_iff_harmless {marks : Marks} {event : Event} (hs : Agrees s)
    (h : step deps s event = some s') :
    Untouched deps (s, marks) event ↔ Harmless (s, marks) event := by
  constructor
  · intro hu a ha x hx hget hsup
    have hpub := hu s' h a ha x hx x.entry hget hsup
    exact ((publication_step ha hx h).2 (hs.entry hget)).mp hpub
  · intro hh u hu a ha x hx e hget hsup
    obtain ⟨hother, hown⟩ := publication_step ha hx hu
    by_cases he : e = x.entry
    · subst he
      exact (hown (hs.entry hget)).mpr (hh a ha x hx hget hsup)
    · exact hother e he

/-- Along every run, attempts that a disconnect abandoned leave what newer attempts on the
machine's entry published exactly when each of them, where it settles under a newer one,
finds on the entry what it is about to publish (machines.ts:374-379, 501-558). -/
theorem stale_attempts_untouched_iff (events : List Event) :
    (marked deps).Each (Untouched deps) (marked deps).init events ↔
      (marked deps).Each Harmless (marked deps).init events := by
  refine each_iff_each (I := fun p => Agrees p.1) ?_ ?_ agrees_empty events
  · intro p event q hs hstep
    exact agrees_step hs (observe_step.mp hstep).1
  · intro p event q hs hstep
    exact untouched_iff_harmless hs (observe_step.mp hstep).1

/-- A machine that was connected again while an abandoned attempt was still opening. -/
def reconnectRun : List Event :=
  [.connect buildBox, .disconnect "build", .connect buildBox, .opened 1 (forward 1),
    .connected 1 (link 1)]

/-- The abandoned attempt fails and takes the newer attempt's connection down with it. -/
theorem stale_failure_touches :
    ¬ ∀ p, (marked buildDeps).Reachable p → ∀ event, Untouched buildDeps p event := by
  intro hall
  have hrun : ((marked buildDeps).run reconnectRun).isSome = true := by decide
  have hpub := hall _ (reachable_get _ hrun) (.openFailed 0 "no route to host") _ rfl 0 rfl _ rfl
    0 rfl ⟨by decide +revert, 1, _, by decide +revert, rfl, rfl⟩
  exact absurd (congrArg Publication.state hpub) (by decide +revert)

end RemoteWorkspace.Analysis.NodeConnections
