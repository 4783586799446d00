import RemoteWorkspace.Computation.Slots
import RemoteWorkspace.Model.NodeConnections
import Mathlib.Data.List.Nodup

/-!
# What one event of the connection manager can do

Every invariant of the manager is read off the lemmas here, so that no later proof
unfolds its step function. Each event that belongs to an attempt, a recovery or an
install is inverted once: from the successor state one gets the closure it resumed and
the state written out. Under them stands the skeleton, the part of the state that only
grows or is dropped as a whole: which entry the table holds for which machine, and which
entry and machine each attempt closed over. `WellFormed` is the invariant of the
skeleton.
-/

set_option autoImplicit false

namespace RemoteWorkspace.Analysis.NodeConnections

open RemoteWorkspace.Computation RemoteWorkspace.Model RemoteWorkspace.Model.NodeConnections

variable {deps : Deps} {s s' : Connections}

/-! ### Inversion of the events -/

/-- A resolved opener resumes an attempt that is opening. -/
theorem step_opened {a : ℕ} {transport : ResolvedTransport}
    (h : step deps s (.opened a transport) = some s') :
    ∃ e record ran, s.attempts[a]? = some ⟨e, record, .opening, ran⟩ ∧
      s' = { s.assign e { s.entries e with transport := some transport } with
        openedTransports := (record.nodeId, transport.id) :: s.openedTransports }.settleAttempt a
          (.connecting transport) := by
  simp only [step] at h
  split at h
  · rename_i e record ran ha
    exact ⟨e, record, ran, ha, (Option.some.inj h).symm⟩
  · cases h

/-- A rejected opener resumes an attempt that is opening, in its catch block. -/
theorem step_openFailed {a : ℕ} {message : String}
    (h : step deps s (.openFailed a message) = some s') :
    ∃ e record ran, s.attempts[a]? = some ⟨e, record, .opening, ran⟩ ∧
      s' = attemptFailed s a ⟨e, record, .opening, ran⟩ message := by
  simp only [step] at h
  split at h
  · rename_i e record ran ha
    exact ⟨e, record, ran, ha, (Option.some.inj h).symm⟩
  · cases h

/-- A completed handshake resumes an attempt that holds an open transport. -/
theorem step_connected {a : ℕ} {live : ConnectedNode}
    (h : step deps s (.connected a live) = some s') :
    ∃ e record transport ran, s.attempts[a]? = some ⟨e, record, .connecting transport, ran⟩ ∧
      s' = (handshaken deps s e record transport live).settleAttempt a
        (.ready transport live) := by
  simp only [step] at h
  split at h
  · rename_i e record transport ran ha
    exact ⟨e, record, transport, ran, ha, (Option.some.inj h).symm⟩
  · cases h

/-- A failed handshake resumes an attempt that holds an open transport, in its catch
block. -/
theorem step_connectFailed {a : ℕ} {message : String}
    (h : step deps s (.connectFailed a message) = some s') :
    ∃ e record transport ran, s.attempts[a]? = some ⟨e, record, .connecting transport, ran⟩ ∧
      s' = attemptFailed s a ⟨e, record, .connecting transport, ran⟩ message := by
  simp only [step] at h
  split at h
  · rename_i e record transport ran ha
    exact ⟨e, record, transport, ran, ha, (Option.some.inj h).symm⟩
  · cases h

/-- Attempt `a` as it is once the callback on its `exited` has run. -/
def markExited (s : Connections) (a : ℕ) : Connections :=
  { s with attempts := s.attempts.modify a fun x => { x with exitedRan := true } }

/-- The callback on `exited` runs once, for an attempt that completed. It does nothing
unless the entry still holds that transport and its loss is news. -/
theorem step_exited {a : ℕ} (h : step deps s (.exited a) = some s') :
    ∃ e record transport live,
      s.attempts[a]? = some ⟨e, record, .ready transport live, false⟩ ∧
      transport.exited = true ∧
      ((transport.id ∈ s.lost ∨ (s.entries e).transport.map (·.id) ≠ some transport.id) ∧
          s' = markExited s a ∨
        transport.id ∉ s.lost ∧ (s.entries e).transport.map (·.id) = some transport.id ∧
          s' = recover deps (fail { markExited s a with lost := transport.id :: s.lost } e
            ("the SSH forward to \"" ++ record.title ++ "\" closed")) e record) := by
  simp only [step] at h
  split at h
  · rename_i e record transport live ha
    split at h
    · rename_i hexited
      refine ⟨e, record, transport, live, ha, hexited, ?_⟩
      obtain rfl := Option.some.inj h
      unfold transportExited
      split
      · rename_i hold
        exact .inl ⟨hold, rfl⟩
      · rename_i hnews
        obtain ⟨hlost, hheld⟩ := not_or.mp hnews
        exact .inr ⟨hlost, not_not.mp hheld, rfl⟩
    · cases h
  · cases h

/-- A request is rejected on the channel of an attempt that completed. It does nothing
unless the wire failed and the entry still holds that connection. -/
theorem step_requestFailed {a : ℕ} {answered : Bool} {message : String}
    (h : step deps s (.requestFailed a answered message) = some s') :
    ∃ e record transport live ran,
      s.attempts[a]? = some ⟨e, record, .ready transport live, ran⟩ ∧
      (¬ ((s.entries e).live.map (·.id) = some live.id ∧ answered = false) ∧ s' = s ∨
        (s.entries e).live.map (·.id) = some live.id ∧ answered = false ∧
          s' = recover deps (fail s e message) e record) := by
  simp only [step] at h
  split at h
  · rename_i e record transport live ran ha
    refine ⟨e, record, transport, live, ran, ha, ?_⟩
    obtain rfl := Option.some.inj h
    unfold requestRejected
    split
    · rename_i hlive
      exact .inr ⟨hlive.1, by simpa using hlive.2, rfl⟩
    · rename_i hlive
      exact .inl ⟨by simpa using hlive, rfl⟩
  · cases h

/-- A progress report writes the progress of the attempt's entry. -/
theorem step_report {a : ℕ} {progress : AgentProgress}
    (h : step deps s (.report a progress) = some s') :
    ∃ attempt, s.attempts[a]? = some attempt ∧
      s' = s.assign attempt.entry
        { s.entries attempt.entry with progress := some progress } := by
  obtain ⟨attempt, ha, rfl⟩ := Option.map_eq_some_iff.mp h
  exact ⟨attempt, ha, rfl⟩

/-- A move of a recovery loop, which keeps what the loop closed over. -/
def KeepsOwner (f : Recovery → Recovery) : Prop :=
  ∀ x, (f x).entry = x.entry ∧ (f x).record = x.record

/-- A recovery loop that wakes from its timer moves on; only one whose entry still names
it asks for a connection. -/
theorem step_wake {r : ℕ} (h : step deps s (.wake r) = some s') :
    ∃ e record n f, s.recoveries[r]? = some ⟨e, record, n, .sleeping⟩ ∧ KeepsOwner f ∧
      (s' = s.setRecovery r f ∨
        (s.entries e).recovery = some r ∧
        s' = (connectRecord s record).1.setRecovery r f) := by
  simp only [step] at h
  split at h
  · rename_i e record n hr
    obtain rfl := Option.some.inj h
    unfold wake
    split
    · exact ⟨e, record, n, fun x => { x with phase := .over }, hr, fun _ => ⟨rfl, rfl⟩, .inl rfl⟩
    · rename_i hmine
      split
      · rename_i s₁ info hc
        refine ⟨e, record, n, fun x => { x with phase := .over }, hr, fun _ => ⟨rfl, rfl⟩,
          .inr ⟨not_not.mp hmine, ?_⟩⟩
        rw [hc]
      · rename_i s₁ a hc
        refine ⟨e, record, n, fun x => { x with phase := .awaiting a }, hr,
          fun _ => ⟨rfl, rfl⟩, .inr ⟨not_not.mp hmine, ?_⟩⟩
        rw [hc]
  · cases h

/-- A recovery loop whose attempt settled moves on, which touches nothing else. -/
theorem step_resume {r : ℕ} (h : step deps s (.resume r) = some s') :
    ∃ f : Recovery → Recovery, KeepsOwner f ∧ s' = s.setRecovery r f := by
  simp only [step] at h
  split at h
  · split at h
    · exact ⟨fun x => { x with phase := .over }, fun x => ⟨rfl, rfl⟩, (Option.some.inj h).symm⟩
    · exact ⟨fun x => x.next deps, fun x => ⟨rfl, rfl⟩, (Option.some.inj h).symm⟩
    · cases h
  · cases h

/-- What belongs to the program host of an entry, the only part installs write. -/
def SameButWorker (entry entry' : Entry) : Prop :=
  ∃ ptcHost worker, entry' = { entry with ptcHost := ptcHost, worker := worker }

/-- A state in which only program hosts and installs differ. -/
structure WorkerOnly (s s' : Connections) : Prop where
  entries : ∀ e, SameButWorker (s.entries e) (s'.entries e)
  rest : s' = { s with entries := s'.entries, installs := s'.installs }

/-- The table among the rest. -/
theorem WorkerOnly.table (h : WorkerOnly s s') : s'.table = s.table := by
  rw [h.rest]

/-- Nothing changed is a case of only program hosts changed. -/
theorem WorkerOnly.refl (s : Connections) : WorkerOnly s s :=
  ⟨fun _ => ⟨_, _, rfl⟩, rfl⟩

/-- An assignment to the program host of one entry. -/
theorem WorkerOnly.assign (s : Connections) (e : ℕ) (ptcHost : Option ℕ)
    (worker : Option WorkerStatus) (installs : List Install) :
    WorkerOnly s { s.assign e { s.entries e with ptcHost := ptcHost, worker := worker } with
      installs := installs } := by
  refine ⟨fun e' => ?_, rfl⟩
  by_cases he : e' = e
  · subst he
    exact ⟨ptcHost, worker, by simp [Connections.assign]⟩
  · exact ⟨(s.entries e').ptcHost, (s.entries e').worker, by simp [Connections.assign, he]⟩

/-- `ptcHostFor` writes program hosts only. -/
theorem ptcHostFor_workerOnly (s : Connections) (e : ℕ) (record : NodeRecord) :
    WorkerOnly s (ptcHostFor deps s e record).1 := by
  unfold ptcHostFor
  split
  · exact .refl s
  · exact .refl s
  · exact .assign s e _ _ _
  · exact .refl s
  · exact .refl s
  · exact .refl s

/-- An install that settles writes program hosts only. -/
theorem installSettled_workerOnly (i : ℕ) (install : Install) (f : Entry → Entry)
    (hf : ∀ entry, SameButWorker entry (f entry)) :
    WorkerOnly s (installSettled s i install f) := by
  simp only [installSettled]
  split
  · obtain ⟨ptcHost, worker, hw⟩ := hf (s.entries install.entry)
    rw [hw]
    exact .assign s install.entry ptcHost worker _
  · exact ⟨fun _ => ⟨_, _, rfl⟩, rfl⟩

/-- The events that concern a program host write program hosts only. -/
theorem step_ptcHost {nodeId : NodeId} (h : step deps s (.ptcHost nodeId) = some s') :
    WorkerOnly s s' := by
  simp only [step] at h
  split at h
  · exact Option.some.inj h ▸ .refl s
  · split at h
    · exact Option.some.inj h ▸ ptcHostFor_workerOnly s _ _
    · exact Option.some.inj h ▸ .refl s

theorem step_installed {i : ℕ} (h : step deps s (.installed i) = some s') :
    WorkerOnly s s' := by
  simp only [step] at h
  split at h
  · exact Option.some.inj h ▸ installSettled_workerOnly i _ _ fun _ => ⟨_, _, rfl⟩
  · cases h

theorem step_installFailed {i : ℕ} {message : String}
    (h : step deps s (.installFailed i message) = some s') : WorkerOnly s s' := by
  simp only [step] at h
  split at h
  · exact Option.some.inj h ▸ installSettled_workerOnly i _ _ fun _ => ⟨_, _, rfl⟩
  · cases h

/-- A completed handshake publishes its connection on the attempt's entry; past that it
writes program hosts only. -/
theorem handshaken_workerOnly (e : ℕ) (record : NodeRecord) (transport : ResolvedTransport)
    (live : ConnectedNode) :
    WorkerOnly
      { s.assign e ((s.entries e).connected e record transport live) with
        openedLives := (record.nodeId, live.id) :: s.openedLives }
      (handshaken deps s e record transport live) := by
  simp only [handshaken]
  split
  · exact ptcHostFor_workerOnly _ e record
  · exact .refl _
  · exact .refl _

/-- `connectRecord` leaves the state alone when there is a connection or an attempt to
hand back; otherwise it starts an attempt on the machine's entry, creating the entry
first when there is none. -/
theorem connectRecord_cases (s : Connections) (record : NodeRecord) :
    (connectRecord s record).1 = s ∨
    (∃ e, s.get record.nodeId = some e ∧ (s.entries e).pending = none ∧
      ((s.entries e).state = .ready → (s.entries e).info = none) ∧
      connectRecord s record = startAttempt s e record) ∨
    (s.get record.nodeId = none ∧
      connectRecord s record = startAttempt
        { s with
          entries := Function.update s.entries s.nextEntry Entry.created
          nextEntry := s.nextEntry + 1
          table := s.table ++ [(record.nodeId, s.nextEntry)] } s.nextEntry record) := by
  unfold connectRecord entryFor
  cases hget : s.get record.nodeId with
  | none =>
    right; right
    refine ⟨rfl, ?_⟩
    simp [connectEntry, Entry.created]
  | some e =>
    simp only [connectEntry]
    split
    · exact .inl rfl
    · exact .inl rfl
    · rename_i hpending hready
      refine .inr (.inl ⟨e, rfl, hpending, fun hstate => ?_, rfl⟩)
      cases hinfo : (s.entries e).info with
      | none => rfl
      | some info => exact absurd hinfo (hready info hstate)

/-! ### Dropping every entry -/

/-- What `dispose` leaves of the entries it walks over. -/
theorem disposeEntries_entries (l : List ℕ) (s : Connections) (e : ℕ) :
    (l.foldl disposeEntry s).entries e =
      if e ∈ l then { s.entries e with recovery := none }.cleared else s.entries e := by
  induction l generalizing s with
  | nil => simp
  | cons e₀ l ih =>
    rw [List.foldl_cons, ih]
    by_cases he : e = e₀
    · subst he
      simp [disposeEntry, clear, Connections.assign, Entry.cleared]
    · simp [disposeEntry, clear, Connections.assign, he]

/-- What `dispose` closes stays closed, and so does what the entries it walks over hold. -/
theorem disposeEntries_closed (l : List ℕ) (s : Connections) :
    (∀ t, t ∈ s.closedTransports ∨ (∃ e ∈ l, (s.entries e).transport.map (·.id) = some t) →
      t ∈ (l.foldl disposeEntry s).closedTransports) ∧
    (∀ t, t ∈ s.closedLives ∨ (∃ e ∈ l, (s.entries e).live.map (·.id) = some t) →
      t ∈ (l.foldl disposeEntry s).closedLives) := by
  induction l generalizing s with
  | nil => simp
  | cons e₀ l ih =>
    rw [List.foldl_cons]
    obtain ⟨hT, hL⟩ := ih (disposeEntry s e₀)
    constructor
    · rintro t (ht | ⟨e, he, ht⟩)
      · exact hT t (.inl (by simp [disposeEntry, clear, Connections.assign, ht]))
      · by_cases h0 : e = e₀
        · subst h0
          refine hT t (.inl ?_)
          simp [disposeEntry, clear, Connections.assign, ht]
        · refine hT t (.inr ⟨e, (List.mem_cons.mp he).resolve_left h0, ?_⟩)
          simpa [disposeEntry, clear, Connections.assign, h0] using ht
    · rintro t (ht | ⟨e, he, ht⟩)
      · exact hL t (.inl (by simp [disposeEntry, clear, Connections.assign, ht]))
      · by_cases h0 : e = e₀
        · subst h0
          refine hL t (.inl ?_)
          simp [disposeEntry, clear, Connections.assign, ht]
        · refine hL t (.inr ⟨e, (List.mem_cons.mp he).resolve_left h0, ?_⟩)
          simpa [disposeEntry, clear, Connections.assign, h0] using ht

/-- `dispose` touches entries and the record of what was closed, and empties the table. -/
theorem dispose_rest (s : Connections) :
    dispose s = { s with
      entries := (dispose s).entries
      table := []
      closedTransports := (dispose s).closedTransports
      closedLives := (dispose s).closedLives } := by
  have h : ∀ (l : List ℕ) (s : Connections), l.foldl disposeEntry s = { s with
      entries := (l.foldl disposeEntry s).entries
      closedTransports := (l.foldl disposeEntry s).closedTransports
      closedLives := (l.foldl disposeEntry s).closedLives } := by
    intro l
    induction l with
    | nil => intro s; rfl
    | cons e l ih =>
      intro s
      rw [List.foldl_cons, ih]
      rfl
  unfold dispose
  rw [h]

/-! ### The skeleton -/

/-- What only grows or is dropped as a whole: the table, the next address, and what each
attempt closed over. -/
structure Skeleton where
  table : List (NodeId × ℕ)
  nextEntry : ℕ
  owners : List (ℕ × NodeRecord)

/-- The skeleton of a state. -/
def skeleton (s : Connections) : Skeleton :=
  ⟨s.table, s.nextEntry, s.attempts.map fun attempt => (attempt.entry, attempt.record)⟩

@[simp] theorem skeleton_fail (e : ℕ) (error : String) :
    skeleton (fail s e error) = skeleton s := rfl

@[simp] theorem skeleton_recover (e : ℕ) (record : NodeRecord) :
    skeleton (recover deps s e record) = skeleton s := rfl

@[simp] theorem skeleton_settleAttempt (a : ℕ) (phase : AttemptPhase) :
    skeleton (s.settleAttempt a phase) = skeleton s :=
  congrArg (Skeleton.mk s.table s.nextEntry) (map_modify_of_eq (fun _ => by rfl) s.attempts a)

@[simp] theorem skeleton_markExited (a : ℕ) : skeleton (markExited s a) = skeleton s :=
  congrArg (Skeleton.mk s.table s.nextEntry) (map_modify_of_eq (fun _ => by rfl) s.attempts a)

theorem WorkerOnly.skeleton_eq (h : WorkerOnly s s') : skeleton s' = skeleton s := by
  rw [h.rest]
  rfl

/-- How the skeleton grows in one event: not at all, by an attempt on the entry the table
holds for its machine, or by such an attempt on a new entry. -/
inductive Skeleton.Next (k : Skeleton) : Skeleton → Prop
  | same : Next k k
  | attempt (e : ℕ) (record : NodeRecord) (h : (record.nodeId, e) ∈ k.table) :
      Next k { k with owners := k.owners ++ [(e, record)] }
  | entry (record : NodeRecord) (h : ∀ row ∈ k.table, row.1 ≠ record.nodeId) :
      Next k ⟨k.table ++ [(record.nodeId, k.nextEntry)], k.nextEntry + 1,
        k.owners ++ [(k.nextEntry, record)]⟩

/-- The table holds what `get` finds. -/
theorem mem_of_get {nodeId : NodeId} {e : ℕ} (h : s.get nodeId = some e) :
    (nodeId, e) ∈ s.table := by
  obtain ⟨row, hrow, rfl⟩ := Option.map_eq_some_iff.mp h
  have hmem := List.mem_of_find?_eq_some hrow
  have hkey := List.find?_some hrow
  simp only [decide_eq_true_eq] at hkey
  exact hkey ▸ hmem

/-- The table holds no row for a machine `get` does not find. -/
theorem not_mem_of_get {nodeId : NodeId} (h : s.get nodeId = none) :
    ∀ row ∈ s.table, row.1 ≠ nodeId := by
  intro row hrow
  have hnone := List.find?_eq_none.mp (Option.map_eq_none_iff.mp h) row hrow
  simpa using hnone

/-- The skeleton of a state after `connectRecord`. -/
theorem connectRecord_skeleton (s : Connections) (record : NodeRecord) :
    (skeleton s).Next (skeleton (connectRecord s record).1) := by
  obtain h | ⟨e, hget, -, -, h⟩ | ⟨hget, h⟩ := connectRecord_cases s record
  · rw [h]
    exact .same
  · rw [h]
    have hmem : (record.nodeId, e) ∈ (skeleton s).table := mem_of_get hget
    simpa [skeleton, startAttempt, Connections.assign] using Skeleton.Next.attempt e record hmem
  · rw [h]
    have hnone : ∀ row ∈ (skeleton s).table, row.1 ≠ record.nodeId := not_mem_of_get hget
    simpa [skeleton, startAttempt, Connections.assign] using Skeleton.Next.entry record hnone

/-- Every event but `dispose` grows the skeleton. -/
theorem step_skeleton {event : Event} (hne : event ≠ .dispose)
    (h : step deps s event = some s') : (skeleton s).Next (skeleton s') := by
  cases event with
  | connect record =>
    obtain rfl := Option.some.inj h
    exact connectRecord_skeleton s record
  | ptcHost nodeId => rw [(step_ptcHost h).skeleton_eq]; exact .same
  | disconnect nodeId =>
    obtain rfl := Option.some.inj h
    have hsame : skeleton (disconnect s nodeId) = skeleton s := by
      unfold disconnect
      split <;> rfl
    rw [hsame]
    exact .same
  | dispose => exact absurd rfl hne
  | report a progress =>
    obtain ⟨attempt, -, rfl⟩ := step_report h
    exact .same
  | opened a transport =>
    obtain ⟨e, record, ran, -, rfl⟩ := step_opened h
    rw [skeleton_settleAttempt]
    exact .same
  | openFailed a message =>
    obtain ⟨e, record, ran, -, rfl⟩ := step_openFailed h
    rw [attemptFailed, skeleton_settleAttempt]
    exact .same
  | connected a live =>
    obtain ⟨e, record, transport, ran, -, rfl⟩ := step_connected h
    rw [skeleton_settleAttempt, (handshaken_workerOnly e record transport live).skeleton_eq]
    exact .same
  | connectFailed a message =>
    obtain ⟨e, record, transport, ran, -, rfl⟩ := step_connectFailed h
    rw [attemptFailed, skeleton_settleAttempt]
    exact .same
  | exited a =>
    obtain ⟨e, record, transport, live, -, -, ⟨-, rfl⟩ | ⟨-, -, rfl⟩⟩ := step_exited h
    · rw [skeleton_markExited]
      exact .same
    · rw [skeleton_recover, skeleton_fail]
      exact skeleton_markExited (s := s) a ▸ .same
  | requestFailed a answered message =>
    obtain ⟨e, record, transport, live, ran, -, ⟨-, rfl⟩ | ⟨-, -, rfl⟩⟩ :=
      step_requestFailed h
    · exact .same
    · exact .same
  | wake r =>
    obtain ⟨e, record, n, f, -, -, rfl | ⟨-, rfl⟩⟩ := step_wake h
    · exact .same
    · exact connectRecord_skeleton s record
  | resume r =>
    obtain ⟨f, -, rfl⟩ := step_resume h
    exact .same
  | installed i => rw [(step_installed h).skeleton_eq]; exact .same
  | installFailed i message => rw [(step_installFailed h).skeleton_eq]; exact .same

/-- The table names each machine and each address once, and an attempt works on the entry
of its own machine. -/
structure Skeleton.WellFormed (k : Skeleton) : Prop where
  machines : (k.table.map (·.1)).Nodup
  addresses : (k.table.map (·.2)).Nodup
  below : ∀ row ∈ k.table, row.2 < k.nextEntry
  owners_below : ∀ owner ∈ k.owners, owner.1 < k.nextEntry
  owners_machine : ∀ owner ∈ k.owners, ∀ row ∈ k.table, row.2 = owner.1 →
    row.1 = owner.2.nodeId

/-- Every move of the skeleton keeps it well formed. -/
theorem Skeleton.WellFormed.next {k k' : Skeleton} (h : k.WellFormed) (hk : k.Next k') :
    k'.WellFormed := by
  cases hk with
  | same => exact h
  | attempt e record hmem =>
    refine ⟨h.machines, h.addresses, h.below, ?_, ?_⟩
    · intro owner howner
      rcases List.mem_append.mp howner with ho | ho
      · exact h.owners_below owner ho
      · obtain rfl := List.mem_singleton.mp ho
        exact h.below _ hmem
    · intro owner howner row hrow heq
      rcases List.mem_append.mp howner with ho | ho
      · exact h.owners_machine owner ho row hrow heq
      · obtain rfl := List.mem_singleton.mp ho
        have hrow' : row = (record.nodeId, e) :=
          List.inj_on_of_nodup_map h.addresses hrow hmem heq
        rw [hrow']
  | entry record hnew =>
    refine ⟨?_, ?_, ?_, ?_, ?_⟩
    · exact nodup_map_concat h.machines hnew
    · exact nodup_map_concat h.addresses fun row hrow => Nat.ne_of_lt (h.below row hrow)
    · intro row hrow
      rcases List.mem_append.mp hrow with hr | hr
      · exact Nat.lt_succ_of_lt (h.below row hr)
      · obtain rfl := List.mem_singleton.mp hr
        exact Nat.lt_succ_self _
    · intro owner howner
      rcases List.mem_append.mp howner with ho | ho
      · exact Nat.lt_succ_of_lt (h.owners_below owner ho)
      · obtain rfl := List.mem_singleton.mp ho
        exact Nat.lt_succ_self _
    · intro owner howner row hrow heq
      rcases List.mem_append.mp howner with ho | ho <;>
        rcases List.mem_append.mp hrow with hr | hr
      · exact h.owners_machine owner ho row hr heq
      · obtain rfl := List.mem_singleton.mp hr
        exact absurd heq (Nat.ne_of_gt (h.owners_below owner ho))
      · obtain rfl := List.mem_singleton.mp ho
        exact absurd heq (Nat.ne_of_lt (h.below row hr))
      · obtain rfl := List.mem_singleton.mp ho
        obtain rfl := List.mem_singleton.mp hr
        rfl

/-- Dropping the table keeps the skeleton well formed. -/
theorem Skeleton.WellFormed.drop {k : Skeleton} (h : k.WellFormed) :
    ({ k with table := [] } : Skeleton).WellFormed :=
  ⟨List.nodup_nil, List.nodup_nil, nofun, h.owners_below, nofun⟩

/-- The skeleton of a new manager is well formed. -/
theorem wellFormed_empty : (skeleton .empty).WellFormed :=
  ⟨List.nodup_nil, List.nodup_nil, by simp [skeleton, Connections.empty],
    by simp [skeleton, Connections.empty], by simp [skeleton, Connections.empty]⟩

/-- Every event keeps the skeleton well formed. -/
theorem wellFormed_step {event : Event} (hw : (skeleton s).WellFormed)
    (h : step deps s event = some s') : (skeleton s').WellFormed := by
  by_cases hne : event = .dispose
  · subst hne
    obtain rfl := Option.some.inj h
    rw [dispose_rest]
    exact hw.drop
  · exact hw.next (step_skeleton hne h)

/-- In a well-formed state `get` finds exactly the rows of the table. -/
theorem get_eq_some_iff (hw : (skeleton s).WellFormed) {nodeId : NodeId} {e : ℕ} :
    s.get nodeId = some e ↔ (nodeId, e) ∈ s.table := by
  refine ⟨mem_of_get, fun hmem => ?_⟩
  cases hget : s.get nodeId with
  | none => exact absurd rfl (not_mem_of_get hget _ hmem)
  | some e' =>
    have hrow := List.inj_on_of_nodup_map hw.machines (mem_of_get hget) hmem rfl
    exact congrArg some (Prod.mk.inj hrow).2

/-- Every event but `dispose` keeps the rows of the table. -/
theorem step_table {event : Event} (hne : event ≠ .dispose)
    (h : step deps s event = some s') {row : NodeId × ℕ} (hrow : row ∈ s.table) :
    row ∈ s'.table := by
  have hk : (skeleton s).Next (skeleton s') := step_skeleton hne h
  change row ∈ (skeleton s').table
  generalize skeleton s' = k at hk
  cases hk with
  | same => exact hrow
  | attempt => exact hrow
  | entry => exact List.mem_append_left _ hrow

/-- A row of the table after an event was there before, or the event created its entry. -/
theorem mem_table_of_step {event : Event} (h : step deps s event = some s')
    {row : NodeId × ℕ} (hrow : row ∈ s'.table) :
    event ≠ .dispose ∧
      (row ∈ s.table ∨ row.2 = s.nextEntry ∧ s'.nextEntry = s.nextEntry + 1) := by
  have hne : event ≠ .dispose := by
    rintro rfl
    obtain rfl := Option.some.inj h
    cases hrow
  refine ⟨hne, ?_⟩
  have hk : (skeleton s).Next (skeleton s') := step_skeleton hne h
  change row ∈ s.table ∨ row.2 = s.nextEntry ∧ (skeleton s').nextEntry = s.nextEntry + 1
  have hrow' : row ∈ (skeleton s').table := hrow
  generalize skeleton s' = k at hk hrow'
  cases hk with
  | same => exact .inl hrow'
  | attempt => exact .inl hrow'
  | entry record =>
    rcases List.mem_append.mp hrow' with hr | hr
    · exact .inl hr
    · obtain rfl := List.mem_singleton.mp hr
      exact .inr ⟨rfl, rfl⟩

/-- An attempt on a machine's entry is an attempt for that machine. -/
theorem attempt_machine (hw : (skeleton s).WellFormed) {a e : ℕ} {attempt : Attempt}
    (ha : s.attempts[a]? = some attempt) {nodeId : NodeId} (he : (nodeId, e) ∈ s.table)
    (heq : attempt.entry = e) : nodeId = attempt.record.nodeId :=
  hw.owners_machine _ (List.mem_map_of_mem (List.mem_of_getElem? ha)) _ he heq.symm

/-- An attempt works on an address that was handed out. -/
theorem attempt_below (hw : (skeleton s).WellFormed) {a : ℕ} {attempt : Attempt}
    (ha : s.attempts[a]? = some attempt) : attempt.entry < s.nextEntry :=
  hw.owners_below _ (List.mem_map_of_mem (List.mem_of_getElem? ha))

end RemoteWorkspace.Analysis.NodeConnections
