import RemoteWorkspace.Analysis.StatusAgreesWithRouting

/-!
# Who closes a forward

An entry has one slot for a transport and one for a connection, and what is in a slot is
closed when the entry is cleared. Both kinds of resource are followed at once through
`Resource`. A resource is accounted for while it is closed, or held by an entry that
somebody will still clear: one in the table, or one that an attempt is still working on.

Two steps break the account, and `Unshadowed` excludes them: an attempt that fills a slot
another attempt has filled, and an attempt that completes on an entry that is no longer
its machine's.
-/

set_option autoImplicit false

namespace RemoteWorkspace.Analysis.NodeConnections

open RemoteWorkspace.Computation RemoteWorkspace.Computation.Machine RemoteWorkspace.Model
open RemoteWorkspace.Model.NodeConnections

variable {deps : Deps} {s s' : Connections}

/-! ### What is held, opened and closed -/

/-- The two kinds of resource an attempt opens. -/
inductive Resource
  | transport
  | live
  deriving DecidableEq

/-- The resource of a kind an entry holds, by identity. -/
def held (entry : Entry) : Resource → Option ℕ
  | .transport => entry.transport.map (·.id)
  | .live => entry.live.map (·.id)

/-- The resources of a kind the dependencies handed out, with the machine each was for. -/
def openedOf (s : Connections) : Resource → List (NodeId × ℕ)
  | .transport => s.openedTransports
  | .live => s.openedLives

/-- The resources of a kind that were closed. -/
def closedOf (s : Connections) : Resource → List ℕ
  | .transport => s.closedTransports
  | .live => s.closedLives

/-- The event fills the slot of a kind of the entry at `e` with resource `t`, for the
machine of `record`. -/
def Takes (s : Connections) (k : Resource) (e : ℕ) (record : NodeRecord) (t : ℕ) :
    Event → Prop
  | .opened a transport => k = .transport ∧ t = transport.id ∧ Flies s a e record
  | .connected a live => k = .live ∧ t = live.id ∧ Flies s a e record
  | _ => False

/-- `clear` closes what the entry holds. -/
theorem held_clear {k : Resource} {e t : ℕ} (ht : held (s.entries e) k = some t) :
    t ∈ closedOf (clear s e) k := by
  cases k <;> simp_all [held, closedOf, clear]

/-- What was closed stays closed. -/
theorem closedOf_clear {k : Resource} {e t : ℕ} (ht : t ∈ closedOf s k) :
    t ∈ closedOf (clear s e) k := by
  cases k <;> exact List.mem_append_right _ ht

/-! ### What one event does to the resources -/

/-- What an event does to the resources that are held, opened and closed. -/
structure Moves (s : Connections) (event : Event) (s' : Connections) : Prop where
  closed : ∀ k, ∀ t ∈ closedOf s k, t ∈ closedOf s' k
  /-- What an entry held it holds, or it was closed, or the slot was filled again. -/
  keeps : ∀ k, ∀ e < s.nextEntry, ∀ t, held (s.entries e) k = some t →
    held (s'.entries e) k = some t ∨ t ∈ closedOf s' k ∨ ∃ record t', Takes s k e record t' event
  /-- What was handed out fills a slot. -/
  opened : ∀ k, ∀ row ∈ openedOf s' k, row ∈ openedOf s k ∨
    ∃ e record, Takes s k e record row.2 event ∧ row.1 = record.nodeId
  taken : ∀ k e record t, Takes s k e record t event → held (s'.entries e) k = some t
  /-- An attempt that settles fills its entry's slot, or closes what the entry held. -/
  settled : ∀ a e record, Flies s a e record → Settles a event →
    (∃ t, Takes s .live e record t event) ∨
      ∀ k t, held (s.entries e) k = some t → t ∈ closedOf s' k

/-- An event that neither fills nor clears a slot. -/
theorem Moves.of_same {event : Event} (htakes : ∀ k e record t, ¬ Takes s k e record t event)
    (hsettles : ∀ a, ¬ Settles a event)
    (hheld : ∀ k e, e < s.nextEntry → held (s'.entries e) k = held (s.entries e) k)
    (hopened : ∀ k, openedOf s' k = openedOf s k) (hclosed : ∀ k, closedOf s' k = closedOf s k) :
    Moves s event s' where
  closed k _ ht := hclosed k ▸ ht
  keeps k e he _ ht := .inl (hheld k e he ▸ ht)
  opened k _ hrow := .inl (hopened k ▸ hrow)
  taken k e record t ht := absurd ht (htakes k e record t)
  settled a _ _ _ hs := absurd hs (hsettles a)

/-- An event that clears the entry at `e` and no other. -/
theorem Moves.of_clear {event : Event} {e : ℕ}
    (htakes : ∀ k e record t, ¬ Takes s k e record t event)
    (hsettles : ∀ a e' record, Flies s a e' record → Settles a event → e' = e)
    (hheld : ∀ k e', e' ≠ e → held (s'.entries e') k = held (s.entries e') k)
    (hopened : ∀ k, openedOf s' k = openedOf s k)
    (hclosed : ∀ k, closedOf s' k = closedOf (clear s e) k) : Moves s event s' where
  closed k t ht := hclosed k ▸ closedOf_clear ht
  keeps k e' _ t ht := by
    by_cases he : e' = e
    · subst he
      exact .inr (.inl (hclosed k ▸ held_clear ht))
    · exact .inl ((hheld k e' he).trans ht)
  opened k row hrow := .inl (hopened k ▸ hrow)
  taken k e record t ht := absurd ht (htakes k e record t)
  settled a e' record hfly hs := by
    obtain rfl := hsettles a e' record hfly hs
    exact .inr fun k t ht => hclosed k ▸ held_clear ht

/-- What follows an event without touching a slot. -/
theorem Moves.followed {event : Event} {u : Connections} (h : Moves s event u)
    (hheld : ∀ k e, held (s'.entries e) k = held (u.entries e) k)
    (hopened : ∀ k, openedOf s' k = openedOf u k) (hclosed : ∀ k, closedOf s' k = closedOf u k) :
    Moves s event s' where
  closed k t ht := hclosed k ▸ h.closed k t ht
  keeps k e he t ht := by
    rw [hheld, hclosed]
    exact h.keeps k e he t ht
  opened k row hrow := h.opened k row (hopened k ▸ hrow)
  taken k e record t ht := (hheld k e).trans (h.taken k e record t ht)
  settled a e record hfly hs := by
    simp only [hclosed]
    exact h.settled a e record hfly hs

/-- Writing program hosts only touches no slot. -/
theorem WorkerOnly.resources (h : WorkerOnly s s') :
    (∀ k e, held (s'.entries e) k = held (s.entries e) k) ∧
    (∀ k, openedOf s' k = openedOf s k) ∧ ∀ k, closedOf s' k = closedOf s k := by
  refine ⟨fun k e => ?_, fun k => ?_, fun k => ?_⟩
  · obtain ⟨ptcHost, worker, hw⟩ := h.entries e
    cases k <;> rw [hw] <;> rfl
  · cases k <;> rw [h.rest] <;> rfl
  · cases k <;> rw [h.rest] <;> rfl

/-- Writing program hosts only moves no resource. -/
theorem WorkerOnly.moves {event : Event} (h : WorkerOnly s s')
    (htakes : ∀ k e record t, ¬ Takes s k e record t event)
    (hsettles : ∀ a, ¬ Settles a event) : Moves s event s' :=
  .of_same htakes hsettles (fun k e _ => h.resources.1 k e) h.resources.2.1 h.resources.2.2

/-- A connection request moves no resource. -/
theorem connectRecord_moves {event : Event} (record : NodeRecord)
    (htakes : ∀ k e record t, ¬ Takes s k e record t event)
    (hsettles : ∀ a, ¬ Settles a event) : Moves s event (connectRecord s record).1 := by
  obtain h | ⟨e', -, -, -, h⟩ | ⟨-, h⟩ := connectRecord_cases s record
  · rw [h]
    exact .of_same htakes hsettles (fun _ _ _ => rfl) (fun _ => rfl) (fun _ => rfl)
  · rw [h]
    refine .of_same htakes hsettles (fun k e _ => ?_) (fun k => ?_) (fun k => ?_)
    · by_cases he : e = e'
      · subst he
        cases k <;> simp [startAttempt, Connections.assign, held]
      · simp [startAttempt, Connections.assign, he]
    · cases k <;> rfl
    · cases k <;> rfl
  · rw [h]
    refine .of_same htakes hsettles (fun k e he => ?_) (fun k => ?_) (fun k => ?_)
    · simp [startAttempt, Connections.assign, Nat.ne_of_lt he]
    · cases k <;> rfl
    · cases k <;> rfl

/-- A failed attempt clears its entry. -/
theorem attemptFailed_moves {event : Event} {a : ℕ} {x : Attempt} {message : String}
    (htakes : ∀ k e record t, ¬ Takes s k e record t event)
    (hsettles : ∀ a', Settles a' event → a' = a) (hx : s.attempts[a]? = some x) :
    Moves s event (attemptFailed s a x message) := by
  refine .of_clear (e := x.entry) htakes ?_ (fun k e' he => ?_) (fun k => ?_) (fun k => ?_)
  · rintro a' e' record ⟨y, hy, -, rfl, -⟩ hs
    obtain rfl := hsettles a' hs
    rw [Option.some.inj (hx.symm.trans hy)]
  · simp [attemptFailed, fail, clear, Connections.assign, Connections.settleAttempt, he]
  · cases k <;> rfl
  · cases k <;> rfl

/-- A published loss clears the entry that held what was lost. -/
theorem loss_moves {event : Event} {e : ℕ} {u : Connections} {error : String}
    {record : NodeRecord} (htakes : ∀ k e record t, ¬ Takes s k e record t event)
    (hsettles : ∀ a, ¬ Settles a event) (hu : u.entries = s.entries)
    (hopened : ∀ k, openedOf u k = openedOf s k) (hclosed : ∀ k, closedOf u k = closedOf s k) :
    Moves s event (recover deps (fail u e error) e record) := by
  refine .of_clear (e := e) htakes (fun a _ _ _ hs => absurd hs (hsettles a))
    (fun k e' he => ?_) (fun k => ?_) (fun k => ?_)
  · simp [recover, fail, clear, Connections.assign, he, hu]
  · rw [← hopened]
    cases k <;> rfl
  · have hc := hclosed k
    cases k <;> simp only [closedOf] at hc <;>
      simp [closedOf, recover, fail, clear, Connections.assign, hu, hc]

/-- Every event moves resources in no other way. -/
theorem step_moves {event : Event} (h : step deps s event = some s') : Moves s event s' := by
  cases event with
  | connect record =>
    obtain rfl := Option.some.inj h
    exact connectRecord_moves record (fun _ _ _ _ => id) fun _ => id
  | ptcHost nodeId => exact (step_ptcHost h).moves (fun _ _ _ _ => id) fun _ => id
  | disconnect nodeId =>
    obtain rfl := Option.some.inj h
    unfold disconnect
    split
    · exact .of_same (fun _ _ _ _ => id) (fun _ => id) (fun _ _ _ => rfl) (fun _ => rfl)
        fun _ => rfl
    · rename_i e _
      refine .of_clear (e := e) (fun _ _ _ _ => id) (fun _ _ _ _ => False.elim)
        (fun k e' he => ?_) (fun k => ?_) (fun k => ?_)
      · simp [clear, Connections.assign, he]
      · cases k <;> rfl
      · cases k <;> simp [closedOf, clear, Connections.assign]
  | dispose =>
    obtain rfl := Option.some.inj h
    obtain ⟨htransports, hlives⟩ := disposeEntries_closed (s.table.map (·.2)) s
    have hclosed : ∀ k t, t ∈ closedOf s k ∨
        (∃ e ∈ s.table.map (·.2), held (s.entries e) k = some t) → t ∈ closedOf (dispose s) k := by
      intro k t ht
      cases k with
      | transport => exact htransports t ht
      | live => exact hlives t ht
    refine ⟨fun k t ht => hclosed k t (.inl ht), fun k e _ t ht => ?_, fun k row hrow => .inl ?_,
      fun _ _ _ _ => False.elim, fun _ _ _ _ => False.elim⟩
    · by_cases he : e ∈ s.table.map (·.2)
      · exact .inr (.inl (hclosed k t (.inr ⟨e, he, ht⟩)))
      · left
        simp only [dispose, disposeEntries_entries, if_neg he]
        exact ht
    · rw [dispose_rest] at hrow
      cases k <;> exact hrow
  | report a progress =>
    obtain ⟨attempt, -, rfl⟩ := step_report h
    refine .of_same (fun _ _ _ _ => id) (fun _ => id) (fun k e _ => ?_) (fun k => ?_) (fun k => ?_)
    · by_cases he : e = attempt.entry
      · subst he
        cases k <;> simp [Connections.assign, held]
      · simp [Connections.assign, he]
    · cases k <;> rfl
    · cases k <;> rfl
  | opened a transport =>
    obtain ⟨e', record, ran, ha, rfl⟩ := step_opened h
    have hfly : Flies s a e' record := ⟨_, ha, rfl, rfl, rfl⟩
    refine ⟨fun k _ ht => by cases k <;> exact ht, fun k e _ t ht => ?_, fun k row hrow => ?_,
      ?_, fun _ _ _ _ => False.elim⟩
    · by_cases he : e = e'
      · subst he
        cases k with
        | transport => exact .inr (.inr ⟨record, _, rfl, rfl, hfly⟩)
        | live =>
          exact .inl (by simpa [Connections.settleAttempt, Connections.assign, held] using ht)
      · exact .inl (by simpa [Connections.settleAttempt, Connections.assign, he] using ht)
    · cases k with
      | transport =>
        rcases List.mem_cons.mp hrow with rfl | hrow
        · exact .inr ⟨e', record, ⟨rfl, rfl, hfly⟩, rfl⟩
        · exact .inl hrow
      | live => exact .inl hrow
    · rintro _ e record' _ ⟨rfl, rfl, x, hx, -, rfl, -⟩
      obtain rfl := Option.some.inj (ha.symm.trans hx)
      simp [Connections.settleAttempt, Connections.assign, held]
  | openFailed a message =>
    obtain ⟨e', record, ran, ha, rfl⟩ := step_openFailed h
    exact attemptFailed_moves (fun _ _ _ _ => id) (fun _ hs => hs.symm) ha
  | connected a live =>
    obtain ⟨e', record, transport, ran, ha, rfl⟩ := step_connected h
    have hfly : Flies s a e' record := ⟨_, ha, rfl, rfl, rfl⟩
    obtain ⟨hheld, hopened, hclosed⟩ :=
      (@handshaken_workerOnly deps s e' record transport live).resources
    refine Moves.followed (u := { s.assign e' ((s.entries e').connected e' record transport live)
      with openedLives := (record.nodeId, live.id) :: s.openedLives }) ?_ hheld
      (fun k => by rw [← hopened]; cases k <;> rfl) (fun k => by rw [← hclosed]; cases k <;> rfl)
    refine ⟨fun k _ ht => by cases k <;> exact ht, fun k e _ t ht => ?_, fun k row hrow => ?_,
      ?_, ?_⟩
    · by_cases he : e = e'
      · subst he
        cases k with
        | transport =>
          exact .inl (by simpa [Connections.assign, held, Entry.connected] using ht)
        | live => exact .inr (.inr ⟨record, _, rfl, rfl, hfly⟩)
      · exact .inl (by simpa [Connections.assign, he] using ht)
    · cases k with
      | transport => exact .inl hrow
      | live =>
        rcases List.mem_cons.mp hrow with rfl | hrow
        · exact .inr ⟨e', record, ⟨rfl, rfl, hfly⟩, rfl⟩
        · exact .inl hrow
    · rintro _ e record' _ ⟨rfl, rfl, x, hx, -, rfl, -⟩
      obtain rfl := Option.some.inj (ha.symm.trans hx)
      simp [Connections.assign, held, Entry.connected]
    · rintro a' e record' hfly' rfl
      exact .inl ⟨_, rfl, rfl, hfly'⟩
  | connectFailed a message =>
    obtain ⟨e', record, transport, ran, ha, rfl⟩ := step_connectFailed h
    exact attemptFailed_moves (fun _ _ _ _ => id) (fun _ hs => hs.symm) ha
  | exited a =>
    obtain ⟨e', record, transport, live, ha, -, ⟨-, rfl⟩ | ⟨-, -, rfl⟩⟩ := step_exited h
    · exact .of_same (fun _ _ _ _ => id) (fun _ => id) (fun _ _ _ => rfl)
        (fun k => by cases k <;> rfl) fun k => by cases k <;> rfl
    · exact loss_moves (fun _ _ _ _ => id) (fun _ => id) rfl (fun k => by cases k <;> rfl)
        fun k => by cases k <;> rfl
  | requestFailed a answered message =>
    obtain ⟨e', record, transport, live, ran, -, ⟨-, rfl⟩ | ⟨-, -, rfl⟩⟩ := step_requestFailed h
    · exact .of_same (fun _ _ _ _ => id) (fun _ => id) (fun _ _ _ => rfl) (fun _ => rfl)
        fun _ => rfl
    · exact loss_moves (fun _ _ _ _ => id) (fun _ => id) rfl (fun _ => rfl) fun _ => rfl
  | wake r =>
    obtain ⟨e', record, n, f, -, -, rfl | ⟨-, rfl⟩⟩ := step_wake h
    · exact .of_same (fun _ _ _ _ => id) (fun _ => id) (fun _ _ _ => rfl)
        (fun k => by cases k <;> rfl) fun k => by cases k <;> rfl
    · have hm : Moves s (.wake r) (connectRecord s record).1 :=
        connectRecord_moves record (fun _ _ _ _ => id) fun _ => id
      exact hm.followed (fun _ _ => rfl) (fun k => by cases k <;> rfl)
        fun k => by cases k <;> rfl
  | resume r =>
    obtain ⟨f, -, rfl⟩ := step_resume h
    exact .of_same (fun _ _ _ _ => id) (fun _ => id) (fun _ _ _ => rfl)
      (fun k => by cases k <;> rfl) fun k => by cases k <;> rfl
  | installed i => exact (step_installed h).moves (fun _ _ _ _ => id) fun _ => id
  | installFailed i message => exact (step_installFailed h).moves (fun _ _ _ _ => id) fun _ => id

/-- `dispose` closes what the entries of the table hold. -/
theorem dispose_closes {k : Resource} {row : NodeId × ℕ} {t : ℕ} (hrow : row ∈ s.table)
    (ht : held (s.entries row.2) k = some t) : t ∈ closedOf (dispose s) k := by
  obtain ⟨htransports, hlives⟩ := disposeEntries_closed (s.table.map (·.2)) s
  have hmem : row.2 ∈ s.table.map (·.2) := List.mem_map_of_mem hrow
  cases k with
  | transport => exact htransports t (.inr ⟨row.2, hmem, ht⟩)
  | live => exact hlives t (.inr ⟨row.2, hmem, ht⟩)

/-! ### The account -/

/-- The condition on one event under which nothing leaks: a slot is filled only when what
it held is closed, or is what fills it, and a handshake completes only on the entry the
table holds for its machine. -/
def Unshadowed (s : Connections) : Event → Prop
  | .opened a transport => ∀ x ∈ s.attempts[a]?,
      ∀ t ∈ held (s.entries x.entry) .transport, t = transport.id ∨ t ∈ s.closedTransports
  | .connected a live => ∀ x ∈ s.attempts[a]?, s.get x.record.nodeId = some x.entry ∧
      ∀ t ∈ held (s.entries x.entry) .live, t = live.id ∨ t ∈ s.closedLives
  | _ => True

instance (s : Connections) (event : Event) : Decidable (Unshadowed s event) :=
  match event with
  | .opened a transport => inferInstanceAs (Decidable (∀ x ∈ s.attempts[a]?,
      ∀ t ∈ held (s.entries x.entry) .transport, t = transport.id ∨ t ∈ s.closedTransports))
  | .connected a live => inferInstanceAs (Decidable (∀ x ∈ s.attempts[a]?,
      s.get x.record.nodeId = some x.entry ∧
      ∀ t ∈ held (s.entries x.entry) .live, t = live.id ∨ t ∈ s.closedLives))
  | .connect _ | .ptcHost _ | .disconnect _ | .dispose | .report _ _ | .openFailed _ _
  | .connectFailed _ _ | .exited _ | .requestFailed _ _ _ | .wake _ | .resume _
  | .installed _ | .installFailed _ _ => inferInstanceAs (Decidable True)

/-- Somebody will clear the entry at `e`: the machine's row in the table, or an attempt
for the machine that is still at work on it. -/
def Kept (s : Connections) (nodeId : NodeId) (e : ℕ) : Prop :=
  (nodeId, e) ∈ s.table ∨ ∃ a record, Flies s a e record ∧ record.nodeId = nodeId

/-- Every resource that was handed out is closed, or held by an entry somebody will
clear. -/
structure Accounted (s : Connections) : Prop where
  wellFormed : (skeleton s).WellFormed
  account : ∀ k, ∀ row ∈ openedOf s k, row.2 ∈ closedOf s k ∨
    ∃ e, held (s.entries e) k = some row.2 ∧ Kept s row.1 e

/-- A slot that is filled held nothing that is still open. -/
theorem Unshadowed.takes {event : Event} (hu : Unshadowed s event) {k : Resource} {e t t' : ℕ}
    {record : NodeRecord} (htakes : Takes s k e record t' event)
    (ht : held (s.entries e) k = some t) : t = t' ∨ t ∈ closedOf s k := by
  cases event with
  | opened a transport =>
    obtain ⟨rfl, rfl, x, hx, -, rfl, -⟩ := htakes
    exact hu x hx t ht
  | connected a live =>
    obtain ⟨rfl, rfl, x, hx, -, rfl, -⟩ := htakes
    exact (hu x hx).2 t ht
  | _ => exact htakes.elim

/-- A handshake completes on an entry that stays in the table. -/
theorem Unshadowed.completes {event : Event} (hu : Unshadowed s event)
    (hstep : step deps s event = some s') {e t : ℕ} {record : NodeRecord}
    (htakes : Takes s .live e record t event) : (record.nodeId, e) ∈ s'.table := by
  cases event with
  | opened a transport => cases htakes.1
  | connected a live =>
    obtain ⟨-, rfl, x, hx, -, rfl, rfl⟩ := htakes
    exact step_table (by simp) hstep (mem_of_get (hu x hx).1)
  | _ => exact htakes.elim

/-- An entry that somebody will clear and that holds a resource is still so after an event,
or the event closed the resource. -/
theorem kept_step {event : Event} (hu : Unshadowed s event)
    (hstep : step deps s event = some s') {k : Resource} {nodeId : NodeId} {e t : ℕ}
    (hkept : Kept s nodeId e) (ht : held (s.entries e) k = some t) :
    t ∈ closedOf s' k ∨ Kept s' nodeId e := by
  rcases hkept with hrow | ⟨a, record, hfly, hmachine⟩
  · by_cases hne : event = .dispose
    · subst hne
      obtain rfl := Option.some.inj hstep
      exact .inl (dispose_closes hrow ht)
    · exact .inr (.inl (step_table hne hstep hrow))
  · by_cases hs : Settles a event
    · rcases (step_moves hstep).settled a e record hfly hs with ⟨t', htakes⟩ | hclosed
      · exact .inr (.inl (hmachine ▸ hu.completes hstep htakes))
      · exact .inl (hclosed k t ht)
    · exact .inr (.inr ⟨a, record, flies_step hstep hfly hs, hmachine⟩)

/-- A resource that was just handed out is held by an entry somebody will clear. -/
theorem kept_of_takes {event : Event} (hu : Unshadowed s event)
    (hstep : step deps s event = some s') {k : Resource} {e t : ℕ} {record : NodeRecord}
    (htakes : Takes s k e record t event) : Kept s' record.nodeId e := by
  cases event with
  | opened a transport =>
    obtain ⟨-, -, hfly⟩ := htakes
    exact .inr ⟨a, record, flies_step hstep hfly id, rfl⟩
  | connected a live =>
    obtain ⟨rfl, rfl, hfly⟩ := htakes
    exact .inl (hu.completes hstep ⟨rfl, rfl, hfly⟩)
  | _ => exact htakes.elim

/-- An event that meets the condition keeps the account. -/
theorem accounted_step {event : Event} (hs : Accounted s) (hu : Unshadowed s event)
    (hstep : step deps s event = some s') : Accounted s' := by
  have hmoves := step_moves hstep
  refine ⟨wellFormed_step hs.wellFormed hstep, fun k row hrow => ?_⟩
  rcases hmoves.opened k row hrow with hold | ⟨e, record, htakes, hmachine⟩
  · rcases hs.account k row hold with hclosed | ⟨e, hheld, hkept⟩
    · exact .inl (hmoves.closed k _ hclosed)
    · have he : e < s.nextEntry := by
        rcases hkept with hrow | ⟨a, record, ⟨x, hx, -, rfl, -⟩, -⟩
        · exact hs.wellFormed.below _ hrow
        · exact attempt_below hs.wellFormed hx
      have hnow : held (s'.entries e) k = some row.2 ∨ row.2 ∈ closedOf s' k := by
        rcases hmoves.keeps k e he row.2 hheld with h | h | ⟨record, t', htakes⟩
        · exact .inl h
        · exact .inr h
        · rcases hu.takes htakes hheld with rfl | h
          · exact .inl (hmoves.taken k e record _ htakes)
          · exact .inr (hmoves.closed k _ h)
      rcases hnow with hheld' | hclosed
      · exact (kept_step hu hstep hkept hheld).imp_right fun hkept' => ⟨e, hheld', hkept'⟩
      · exact .inl hclosed
  · exact .inr ⟨e, hmoves.taken k e record _ htakes, hmachine ▸ kept_of_takes hu hstep htakes⟩

/-- In every run in which no attempt fills a slot that holds something open, and none
completes on an entry that is not its machine's, once nothing is in flight each forward
and each connection is closed or held by its machine's entry (machines.ts:357-372,
501-558). -/
theorem no_leaked_forward (hs : (machine deps).ReachableWhen Unshadowed s)
    (hidle : ∀ x ∈ s.attempts, x.inFlight = false) (k : Resource) :
    ∀ row ∈ openedOf s k, row.2 ∈ closedOf s k ∨
      ∃ e ∈ s.get row.1, held (s.entries e) k = some row.2 := by
  have hacc : Accounted s :=
    hs.invariant (I := Accounted) ⟨wellFormed_empty, fun k => by cases k <;> exact nofun⟩
      fun _ _ _ h hu hstep => accounted_step h hu hstep
  intro row hrow
  refine (hacc.account k row hrow).imp_right ?_
  rintro ⟨e, hheld, hmem | ⟨a, record, ⟨x, hx, hfly, -⟩, -⟩⟩
  · exact ⟨e, (get_eq_some_iff hacc.wellFormed).mpr hmem, hheld⟩
  · rw [hidle x (List.mem_of_getElem? hx)] at hfly
    cases hfly

/-- A forward that closes and is opened again. -/
def reopenRun : List Event :=
  connectRun ++ [.exited 0, .wake 0, .opened 1 (forward 1), .connected 1 (link 1)]

/-- The first forward is closed and the machine's entry holds the second. -/
theorem no_leaked_forward_reopened :
    let s := ((machine buildDeps).runGuarded Unshadowed .empty reopenRun).get (by decide)
    openedOf s .transport = [("build", 1), ("build", 0)] ∧
    ∀ row ∈ openedOf s .transport, row.2 ∈ closedOf s .transport ∨
      ∃ e ∈ s.get row.1, held (s.entries e) .transport = some row.2 :=
  ⟨by decide, @no_leaked_forward buildDeps _ (reachableWhen_get (by decide)) (by decide)
    .transport⟩

/-- Two attempts that overlap, because a disconnect abandoned the first. -/
def overlapRun : List Event :=
  [.connect buildBox, .disconnect "build", .connect buildBox, .opened 0 (forward 0),
    .opened 1 (forward 1), .connected 0 (link 0), .connected 1 (link 1)]

/-- Both attempts are over, and the forward and the connection of the first are neither
closed nor held. -/
theorem forward_leaked :
    ¬ ∀ s, (machine buildDeps).Reachable s → (∀ x ∈ s.attempts, x.inFlight = false) →
      ∀ k, ∀ row ∈ openedOf s k, row.2 ∈ closedOf s k ∨
        ∃ e ∈ s.get row.1, held (s.entries e) k = some row.2 := by
  intro hall
  have hrun : ((machine buildDeps).run overlapRun).isSome = true := by decide
  have hleak := hall _ (reachable_get _ hrun) (by decide +revert) .transport ("build", 0)
    (by decide +revert)
  revert hleak
  decide +revert

end RemoteWorkspace.Analysis.NodeConnections
