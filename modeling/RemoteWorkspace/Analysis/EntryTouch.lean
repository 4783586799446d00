import RemoteWorkspace.Analysis.ConnectionsStep

/-!
# What one event does to one entry

`Touch` lists everything one event can do to one entry, with the event that does it and
what the event had to find: which closure was resumed, which guard was passed. The
invariants of the entries are read off it by cases. `AttemptsTouch` and `RecoveriesTouch`
do so for the attempts and the recovery loops, and answer the two questions that `Touch`
leaves open: which attempts are in flight after an event and which recoveries there are.
-/

set_option autoImplicit false

namespace RemoteWorkspace.Analysis.NodeConnections

open RemoteWorkspace.Computation RemoteWorkspace.Model RemoteWorkspace.Model.NodeConnections

variable {deps : Deps} {s s' : Connections}

/-! ### What an event had to find -/

/-- Attempt `a` is in flight on the entry at `e`, for the machine of `record`. -/
def Flies (s : Connections) (a e : ℕ) (record : NodeRecord) : Prop :=
  ∃ x, s.attempts[a]? = some x ∧ x.inFlight = true ∧ x.entry = e ∧ x.record = record

/-- The record an event asks a connection for: a caller's, or that of a recovery the
entry still names. -/
def Asks (s : Connections) (record : NodeRecord) : Event → Prop
  | .connect record' => record' = record
  | .wake r => ∃ e n, s.recoveries[r]? = some ⟨e, record, n, .sleeping⟩ ∧
      (s.entries e).recovery = some r
  | _ => False

/-- The entry and the machine whose loss an event publishes: a forward that closed while
the entry held it, or a wire that failed under the connection the entry held
(machines.ts:486-497, 539-544). -/
def lossOf (s : Connections) : Event → Option (ℕ × NodeRecord)
  | .exited a =>
    match s.attempts[a]? with
    | some ⟨e, record, .ready transport _, false⟩ =>
      if transport.exited = true ∧ transport.id ∉ s.lost ∧
          (s.entries e).transport.map (·.id) = some transport.id then some (e, record)
      else none
    | _ => none
  | .requestFailed a answered _ =>
    match s.attempts[a]? with
    | some ⟨e, record, .ready _ live, _⟩ =>
      if (s.entries e).live.map (·.id) = some live.id ∧ answered = false then some (e, record)
      else none
    | _ => none
  | _ => none

/-- The events that end what an entry holds because a person asked for it. -/
def Ends (s : Connections) (e : ℕ) : Event → Prop
  | .disconnect nodeId => s.get nodeId = some e
  | .dispose => e ∈ s.table.map (·.2)
  | _ => False

/-! ### Touching an entry -/

/-- Everything an event can do to the entry at address `e`. -/
inductive Touch (s : Connections) (e : ℕ) (entry : Entry) : Event → Entry → Prop
  | same (event : Event) (hends : ¬ Ends s e event) : Touch s e entry event entry
  | host (event : Event) (hends : ¬ Ends s e event) (ptcHost : Option ℕ)
      (worker : Option WorkerStatus) :
      Touch s e entry event { entry with ptcHost := ptcHost, worker := worker }
  | progress (a : ℕ) (progress : AgentProgress) :
      Touch s e entry (.report a progress) { entry with progress := some progress }
  | attempt (event : Event) (record : NodeRecord) (hasks : Asks s record event)
      (hpending : entry.pending = none) (hready : entry.state = .ready → entry.info = none) :
      Touch s e entry event { entry with
        state := .connecting, error := none, progress := none,
        pending := some s.attempts.length }
  | opened (a : ℕ) (transport : ResolvedTransport) (record : NodeRecord)
      (hfly : Flies s a e record) :
      Touch s e entry (.opened a transport) { entry with transport := some transport }
  | connected (a : ℕ) (live : ConnectedNode) (record : NodeRecord)
      (transport : ResolvedTransport) (hfly : Flies s a e record) (ptcHost : Option ℕ)
      (worker : Option WorkerStatus) :
      Touch s e entry (.connected a live)
        { entry.connected e record transport live with ptcHost := ptcHost, worker := worker }
  | failed (event : Event) (a : ℕ) (message : String) (record : NodeRecord)
      (hevent : event = .openFailed a message ∨ event = .connectFailed a message)
      (hfly : Flies s a e record) :
      Touch s e entry event { entry.cleared with
        state := .failed, error := some (describeFailure record message) }
  | lost (event : Event) (record : NodeRecord) (error : String)
      (hloss : lossOf s event = some (e, record)) :
      Touch s e entry event { entry.cleared with
        state := .failed, error := some error, recovery := some s.recoveries.length }
  | disconnected (nodeId : NodeId) (hget : s.get nodeId = some e) :
      Touch s e entry (.disconnect nodeId)
        { entry.cleared with recovery := none, error := none, state := .disconnected }
  | disposed (hmem : e ∈ s.table.map (·.2)) :
      Touch s e entry .dispose { entry.cleared with recovery := none }

/-- The entry at `e` before an event, where an entry the event creates counts as created
before it. -/
def prior (s s' : Connections) (e : ℕ) : Entry :=
  if e = s.nextEntry ∧ s.nextEntry < s'.nextEntry then .created else s.entries e

/-- An event that creates no entry finds the one that was there. -/
theorem prior_of_nextEntry (h : s'.nextEntry = s.nextEntry) (e : ℕ) :
    prior s s' e = s.entries e :=
  if_neg fun hlt => Nat.lt_irrefl _ (h ▸ hlt.2)

/-- An event that assigns one entry touches no other. -/
theorem touch_assign {event : Event} {e e' : ℕ} {entry : Entry} (hends : ¬ Ends s e event)
    (h : e = e' → Touch s e (s.entries e) event entry) :
    Touch s e (s.entries e) event ((s.assign e' entry).entries e) := by
  by_cases he : e = e'
  · subst he
    simpa [Connections.assign] using h rfl
  · simpa [Connections.assign, he] using Touch.same event hends

/-- Writing program hosts only. -/
theorem WorkerOnly.touch {event : Event} (h : WorkerOnly s s') (e : ℕ)
    (hends : ¬ Ends s e event) :
    Touch s e (prior s s' e) event (s'.entries e) := by
  obtain ⟨ptcHost, worker, hw⟩ := h.entries e
  rw [prior_of_nextEntry (by rw [h.rest]), hw]
  exact .host event hends ptcHost worker

/-- A connection request does nothing or starts an attempt, on an entry it may create. -/
theorem connectRecord_touch {event : Event} (record : NodeRecord) (hasks : Asks s record event)
    (e : ℕ) (hends : ¬ Ends s e event) :
    Touch s e (prior s (connectRecord s record).1 e) event
      ((connectRecord s record).1.entries e) := by
  obtain h | ⟨e', -, hpending, hready, h⟩ | ⟨-, h⟩ := connectRecord_cases s record
  · rw [h, prior_of_nextEntry rfl]
    exact .same event hends
  · have hp : prior s (startAttempt s e' record).1 e = s.entries e := prior_of_nextEntry rfl e
    rw [h, hp]
    refine touch_assign hends fun he => ?_
    subst he
    exact .attempt event record hasks hpending hready
  · rw [h]
    by_cases he : e = s.nextEntry
    · subst he
      simpa [prior, startAttempt, Connections.assign] using
        @Touch.attempt _ s.nextEntry .created event record hasks rfl (by simp [Entry.created])
    · simpa [prior, startAttempt, Connections.assign, he] using
        @Touch.same _ _ (s.entries e) event hends

/-- A failed attempt touches its own entry. -/
theorem attemptFailed_touch {event : Event} {a : ℕ} {x : Attempt} {message : String} (e : ℕ)
    (hends : ¬ Ends s e event)
    (hevent : event = .openFailed a message ∨ event = .connectFailed a message)
    (hx : s.attempts[a]? = some x) (hfly : x.inFlight = true) :
    Touch s e (s.entries e) event ((attemptFailed s a x message).entries e) := by
  by_cases he : e = x.entry
  · subst he
    simpa [attemptFailed, fail, clear, Connections.assign, Connections.settleAttempt] using
      Touch.failed event a message x.record hevent ⟨x, hx, hfly, rfl, rfl⟩
  · simpa [attemptFailed, fail, clear, Connections.assign, Connections.settleAttempt, he] using
      Touch.same event hends

/-- A published loss touches the entry that held what was lost. -/
theorem loss_touch {event : Event} {e e' : ℕ} {u : Connections} {error : String}
    {record : NodeRecord} (hends : ¬ Ends s e event) (hu : u.entries = s.entries)
    (hr : u.recoveries = s.recoveries) (hloss : lossOf s event = some (e', record)) :
    Touch s e (s.entries e) event ((recover deps (fail u e' error) e' record).entries e) := by
  by_cases he : e = e'
  · subst he
    simpa [recover, fail, clear, Connections.assign, hu, hr] using
      @Touch.lost _ _ (s.entries e) event record error hloss
  · simpa [recover, fail, clear, Connections.assign, he, hu] using Touch.same event hends

/-- Every event touches every entry in one of the ways `Touch` lists. -/
theorem step_touch {event : Event} (h : step deps s event = some s') (e : ℕ) :
    Touch s e (prior s s' e) event (s'.entries e) := by
  have hp : s'.nextEntry = s.nextEntry → prior s s' e = s.entries e :=
    fun hnext => prior_of_nextEntry hnext e
  cases event with
  | connect record =>
    obtain rfl := Option.some.inj h
    exact @connectRecord_touch _ (.connect record) record rfl e id
  | ptcHost nodeId => exact (step_ptcHost h).touch e id
  | disconnect nodeId =>
    obtain rfl := Option.some.inj h
    rw [hp (by unfold disconnect; split <;> rfl)]
    unfold disconnect
    cases hget : s.get nodeId with
    | none => exact .same _ (by simp [Ends, hget])
    | some e' =>
      by_cases he : e = e'
      · subst he
        simpa [clear, Connections.assign, Entry.cleared] using
          @Touch.disconnected _ _ (s.entries e) nodeId hget
      · have hends : ¬ Ends s e (.disconnect nodeId) := by simpa [Ends, hget] using Ne.symm he
        simpa [clear, Connections.assign, he] using @Touch.same _ _ (s.entries e) _ hends
  | dispose =>
    obtain rfl := Option.some.inj h
    rw [hp (by rw [dispose_rest])]
    simp only [dispose, disposeEntries_entries]
    split
    · rename_i hmem
      exact .disposed hmem
    · rename_i hmem
      exact .same _ hmem
  | report a progress =>
    obtain ⟨attempt, -, rfl⟩ := step_report h
    rw [hp rfl]
    refine touch_assign id fun he => ?_
    subst he
    exact .progress a progress
  | opened a transport =>
    obtain ⟨e', record, ran, ha, rfl⟩ := step_opened h
    rw [hp rfl]
    refine touch_assign id fun he => ?_
    subst he
    exact .opened a transport record ⟨_, ha, rfl, rfl, rfl⟩
  | openFailed a message =>
    obtain ⟨e', record, ran, ha, rfl⟩ := step_openFailed h
    rw [hp rfl]
    exact attemptFailed_touch e id (.inl rfl) ha rfl
  | connected a live =>
    obtain ⟨e', record, transport, ran, ha, rfl⟩ := step_connected h
    have hworker := @handshaken_workerOnly deps s e' record transport live
    obtain ⟨ptcHost, worker, hw⟩ := hworker.entries e
    have hnext : (handshaken deps s e' record transport live).nextEntry = s.nextEntry := by
      rw [hworker.rest]
      rfl
    rw [hp hnext]
    change Touch s e (s.entries e) _ ((handshaken deps s e' record transport live).entries e)
    rw [hw]
    by_cases he : e = e'
    · subst he
      simpa [Connections.assign] using
        @Touch.connected _ _ (s.entries e) a live record transport ⟨_, ha, rfl, rfl, rfl⟩
          ptcHost worker
    · simpa [Connections.assign, he] using
        @Touch.host _ e (s.entries e) (.connected a live) id ptcHost worker
  | connectFailed a message =>
    obtain ⟨e', record, transport, ran, ha, rfl⟩ := step_connectFailed h
    rw [hp rfl]
    exact attemptFailed_touch e id (.inr rfl) ha rfl
  | exited a =>
    obtain ⟨e', record, transport, live, ha, hexited, ⟨-, rfl⟩ | ⟨hlost, hheld, rfl⟩⟩ :=
      step_exited h
    · rw [hp rfl]
      exact .same _ id
    · rw [hp rfl]
      exact loss_touch id rfl rfl (by simp [lossOf, ha, hexited, hlost, hheld])
  | requestFailed a answered message =>
    obtain ⟨e', record, transport, live, ran, ha, ⟨-, rfl⟩ | ⟨hheld, hwire, rfl⟩⟩ :=
      step_requestFailed h
    · rw [hp rfl]
      exact .same _ id
    · rw [hp rfl]
      exact loss_touch id rfl rfl (by simp [lossOf, ha, hheld, hwire])
  | wake r =>
    obtain ⟨e', record, n, f, hr, -, rfl | ⟨hmine, rfl⟩⟩ := step_wake h
    · rw [hp rfl]
      exact .same _ id
    · have hasks : Asks s record (.wake r) := ⟨e', n, hr, hmine⟩
      exact connectRecord_touch record hasks e id
  | resume r =>
    obtain ⟨f, -, rfl⟩ := step_resume h
    rw [hp rfl]
    exact .same _ id
  | installed i => exact (step_installed h).touch e id
  | installFailed i message => exact (step_installFailed h).touch e id

/-- An entry of the table before an event: the one its row held, or a created one. -/
theorem prior_of_mem {event : Event} (hw : (skeleton s).WellFormed)
    (h : step deps s event = some s') {row : NodeId × ℕ} (hrow : row ∈ s'.table) :
    row ∈ s.table ∧ prior s s' row.2 = s.entries row.2 ∨ prior s s' row.2 = .created := by
  obtain ⟨-, hold | ⟨hnew, hnext⟩⟩ := mem_table_of_step h hrow
  · have hlt := hw.below row hold
    exact .inl ⟨hold, if_neg fun hc => Nat.ne_of_lt hlt hc.1⟩
  · exact .inr (if_pos ⟨hnew, by omega⟩)

/-! ### Touching the attempts -/

/-- Everything an event can do to the attempts: it starts one, for the machine it asks for, or it
moves one on, which was in flight when it settles. -/
inductive AttemptsTouch (s : Connections) : Event → List Attempt → Prop
  | same {event : Event} : AttemptsTouch s event s.attempts
  | asked {event : Event} (e : ℕ) (record : NodeRecord) (hasks : Asks s record event) :
      AttemptsTouch s event (s.attempts ++ [⟨e, record, .opening, false⟩])
  | opened (a e : ℕ) (record : NodeRecord) (ran : Bool) (transport : ResolvedTransport)
      (hx : s.attempts[a]? = some ⟨e, record, .opening, ran⟩) :
      AttemptsTouch s (.opened a transport)
        (s.attempts.modify a fun x => { x with phase := .connecting transport })
  | connected (a e : ℕ) (record : NodeRecord) (ran : Bool) (transport : ResolvedTransport)
      (live : ConnectedNode) (hx : s.attempts[a]? = some ⟨e, record, .connecting transport, ran⟩) :
      AttemptsTouch s (.connected a live)
        (s.attempts.modify a fun x => { x with phase := .ready transport live })
  | failed {event : Event} (a : ℕ) (x : Attempt) (message error : String)
      (hevent : event = .openFailed a message ∨ event = .connectFailed a message)
      (hx : s.attempts[a]? = some x) (hfly : x.inFlight = true) :
      AttemptsTouch s event (s.attempts.modify a fun x => { x with phase := .failed error })
  | exited (a : ℕ) :
      AttemptsTouch s (.exited a) (s.attempts.modify a fun x => { x with exitedRan := true })

/-- A connection request starts an attempt for its machine at most. -/
theorem connectRecord_attempts (s : Connections) (record : NodeRecord) :
    (connectRecord s record).1.attempts = s.attempts ∨
      ∃ e, (connectRecord s record).1.attempts = s.attempts ++ [⟨e, record, .opening, false⟩] := by
  obtain h | ⟨e, -, -, -, h⟩ | ⟨-, h⟩ := connectRecord_cases s record
  · rw [h]
    exact .inl rfl
  · rw [h]
    exact .inr ⟨e, rfl⟩
  · rw [h]
    exact .inr ⟨s.nextEntry, rfl⟩

/-- So it touches the attempts as the event that asks for the machine. -/
theorem connectRecord_attemptsTouch {event : Event} (record : NodeRecord)
    (hasks : Asks s record event) :
    AttemptsTouch s event (connectRecord s record).1.attempts := by
  obtain h | ⟨e, h⟩ := connectRecord_attempts s record
  · rw [h]
    exact .same
  · rw [h]
    exact .asked e record hasks

/-- Every event touches the attempts in one of the ways `AttemptsTouch` lists. -/
theorem step_attempts {event : Event} (h : step deps s event = some s') :
    AttemptsTouch s event s'.attempts := by
  have hsame : s'.attempts = s.attempts → AttemptsTouch s event s'.attempts :=
    fun heq => heq ▸ .same
  cases event with
  | connect record =>
    obtain rfl := Option.some.inj h
    exact connectRecord_attemptsTouch record rfl
  | ptcHost nodeId => exact hsame (by rw [(step_ptcHost h).rest])
  | disconnect nodeId =>
    obtain rfl := Option.some.inj h
    exact hsame (by unfold disconnect; split <;> rfl)
  | dispose =>
    obtain rfl := Option.some.inj h
    exact hsame (by rw [dispose_rest])
  | report a progress =>
    obtain ⟨attempt, -, rfl⟩ := step_report h
    exact .same
  | opened a transport =>
    obtain ⟨e, record, ran, ha, rfl⟩ := step_opened h
    exact .opened a e record ran transport ha
  | openFailed a message =>
    obtain ⟨e, record, ran, ha, rfl⟩ := step_openFailed h
    exact .failed a _ message _ (.inl rfl) ha rfl
  | connected a live =>
    obtain ⟨e, record, transport, ran, ha, rfl⟩ := step_connected h
    have hattempts : (handshaken deps s e record transport live).attempts = s.attempts := by
      rw [(handshaken_workerOnly e record transport live).rest]
      rfl
    rw [Connections.settleAttempt, hattempts]
    exact .connected a e record ran transport live ha
  | connectFailed a message =>
    obtain ⟨e, record, transport, ran, ha, rfl⟩ := step_connectFailed h
    exact .failed a _ message _ (.inr rfl) ha rfl
  | exited a =>
    obtain ⟨e, record, transport, live, -, -, ⟨-, rfl⟩ | ⟨-, -, rfl⟩⟩ := step_exited h
    · exact .exited a
    · exact .exited a
  | requestFailed a answered message =>
    obtain ⟨e, record, transport, live, ran, -, ⟨-, rfl⟩ | ⟨-, -, rfl⟩⟩ := step_requestFailed h
    · exact .same
    · exact .same
  | wake r =>
    obtain ⟨e, record, n, f, hr, -, rfl | ⟨hmine, rfl⟩⟩ := step_wake h
    · exact .same
    · exact connectRecord_attemptsTouch record ⟨e, n, hr, hmine⟩
  | resume r =>
    obtain ⟨f, -, rfl⟩ := step_resume h
    exact .same
  | installed i => exact hsame (by rw [(step_installed h).rest])
  | installFailed i message => exact hsame (by rw [(step_installFailed h).rest])

/-! ### What is in flight after one event -/

/-- Moving attempts on with `f` puts none of them in flight. -/
theorem flies_of_modify {a i : ℕ} {x : Attempt} (f : Attempt → Attempt)
    (hf : ∀ x, (f x).entry = x.entry ∧ (f x).record = x.record)
    (hin : ∀ x, s.attempts[a]? = some x → (f x).inFlight = true → x.inFlight = true)
    (hx : (s.attempts.modify a f)[i]? = some x) (hfly : x.inFlight = true) :
    Flies s i x.entry x.record := by
  obtain ⟨y, hy, ⟨rfl, rfl⟩ | ⟨-, rfl⟩⟩ := getElem?_modify_cases hx
  · exact ⟨y, hy, hin y hy hfly, (hf y).1.symm, (hf y).2.symm⟩
  · exact ⟨x, hy, hfly, rfl, rfl⟩

/-- An attempt in flight after an event was in flight before it, or the event asked for
its machine. -/
theorem step_flies {event : Event} (h : step deps s event = some s') {i e : ℕ}
    {record : NodeRecord} (hf : Flies s' i e record) :
    Flies s i e record ∨ Asks s record event := by
  obtain ⟨x, hx, hfly, rfl, rfl⟩ := hf
  have htouch := step_attempts h
  generalize s'.attempts = attempts at htouch hx
  cases htouch with
  | same => exact .inl ⟨x, hx, hfly, rfl, rfl⟩
  | asked e record hasks =>
    rcases getElem?_concat_cases hx with hold | ⟨-, rfl⟩
    · exact .inl ⟨x, hold, hfly, rfl, rfl⟩
    · exact .inr hasks
  | opened a e record ran transport ha =>
    refine .inl (flies_of_modify (fun x => { x with phase := .connecting transport })
      (fun _ => ⟨rfl, rfl⟩) (fun y hy _ => ?_) hx hfly)
    obtain rfl := Option.some.inj (ha.symm.trans hy)
    rfl
  | connected a e record ran transport live =>
    exact .inl (flies_of_modify (fun x => { x with phase := .ready transport live })
      (fun _ => ⟨rfl, rfl⟩) (fun _ _ hy => absurd hy Bool.false_ne_true) hx hfly)
  | failed a x message error =>
    exact .inl (flies_of_modify (fun x => { x with phase := .failed error })
      (fun _ => ⟨rfl, rfl⟩) (fun _ _ hy => absurd hy Bool.false_ne_true) hx hfly)
  | exited =>
    exact .inl (flies_of_modify (fun x => { x with exitedRan := true })
      (fun _ => ⟨rfl, rfl⟩) (fun _ _ hy => hy) hx hfly)

/-- The event that settles attempt `a`. -/
def Settles (a : ℕ) : Event → Prop
  | .openFailed a' _ => a' = a
  | .connected a' _ => a' = a
  | .connectFailed a' _ => a' = a
  | _ => False

/-- Moving another attempt on, or moving this one on to another phase in flight, keeps an
attempt in flight. -/
theorem flies_modify {a i : ℕ} {x : Attempt} (f : Attempt → Attempt)
    (hf : ∀ x, (f x).entry = x.entry ∧ (f x).record = x.record)
    (hin : a = i → x.inFlight = true → (f x).inFlight = true)
    (hx : s.attempts[i]? = some x) (hfly : x.inFlight = true) :
    ∃ y, (s.attempts.modify a f)[i]? = some y ∧ y.inFlight = true ∧ y.entry = x.entry ∧
      y.record = x.record := by
  by_cases hai : a = i
  · refine ⟨f x, ?_, hin hai hfly, hf x⟩
    rw [List.getElem?_modify]
    simp [hx, hai]
  · refine ⟨x, ?_, hfly, rfl, rfl⟩
    rw [List.getElem?_modify]
    simp [hx, hai]

/-- An attempt stays in flight until an event settles it. -/
theorem flies_step {event : Event} (h : step deps s event = some s') {a e : ℕ}
    {record : NodeRecord} (hf : Flies s a e record) (hns : ¬ Settles a event) :
    Flies s' a e record := by
  obtain ⟨x, hx, hfly, rfl, rfl⟩ := hf
  have htouch := step_attempts h
  unfold Flies
  generalize s'.attempts = attempts at htouch
  cases htouch with
  | same => exact ⟨x, hx, hfly, rfl, rfl⟩
  | asked => exact ⟨x, getElem?_concat_of_some hx, hfly, rfl, rfl⟩
  | opened => exact flies_modify _ (fun _ => ⟨rfl, rfl⟩) (fun _ _ => rfl) hx hfly
  | connected => exact flies_modify _ (fun _ => ⟨rfl, rfl⟩) (fun ha => absurd ha hns) hx hfly
  | failed a' y message error hevent =>
    refine flies_modify _ (fun _ => ⟨rfl, rfl⟩) (fun ha => absurd ?_ hns) hx hfly
    rcases hevent with rfl | rfl
    · exact ha
    · exact ha
  | exited => exact flies_modify _ (fun _ => ⟨rfl, rfl⟩) (fun _ hy => hy) hx hfly

/-! ### Touching the recoveries -/

/-- A loop that takes its turn waited for an attempt. -/
theorem step_resume_awaiting {r : ℕ} (h : step deps s (.resume r) = some s') :
    ∃ e record n a, s.recoveries[r]? = some ⟨e, record, n, .awaiting a⟩ := by
  simp only [step] at h
  split at h
  · rename_i e record n a hr
    exact ⟨e, record, n, a, hr⟩
  · cases h

/-- A connection request starts no recovery. -/
theorem connectRecord_recoveries (s : Connections) (record : NodeRecord) :
    (connectRecord s record).1.recoveries = s.recoveries := by
  obtain h | ⟨e', -, -, -, h⟩ | ⟨-, h⟩ := connectRecord_cases s record <;> rw [h] <;> rfl

/-- Everything an event can do to the recovery loops: one that publishes a loss starts one, and
no other starts one, but a loop that is not over may move on. -/
inductive RecoveriesTouch (s : Connections) : Event → List Recovery → Prop
  | same {event : Event} (hloss : lossOf s event = none) : RecoveriesTouch s event s.recoveries
  | started {event : Event} (e : ℕ) (record : NodeRecord) (phase : RecoveryPhase)
      (hloss : lossOf s event = some (e, record)) :
      RecoveriesTouch s event (s.recoveries ++ [⟨e, record, 1, phase⟩])
  | moved {event : Event} (r : ℕ) (x : Recovery) (f : Recovery → Recovery)
      (hloss : lossOf s event = none) (hx : s.recoveries[r]? = some x) (hgo : x.phase ≠ .over)
      (hf : KeepsOwner f) : RecoveriesTouch s event (s.recoveries.modify r f)

/-- Every event touches the recovery loops in one of the ways `RecoveriesTouch` lists. -/
theorem step_recoveries {event : Event} (h : step deps s event = some s') :
    RecoveriesTouch s event s'.recoveries := by
  have hsame : lossOf s event = none → s'.recoveries = s.recoveries →
      RecoveriesTouch s event s'.recoveries := fun hloss heq => heq ▸ .same hloss
  cases event with
  | connect record =>
    obtain rfl := Option.some.inj h
    exact hsame rfl (connectRecord_recoveries s record)
  | ptcHost nodeId => exact hsame rfl (by rw [(step_ptcHost h).rest])
  | disconnect nodeId =>
    obtain rfl := Option.some.inj h
    exact hsame rfl (by unfold disconnect; split <;> rfl)
  | dispose =>
    obtain rfl := Option.some.inj h
    exact hsame rfl (by rw [dispose_rest])
  | report a progress =>
    obtain ⟨attempt, -, rfl⟩ := step_report h
    exact hsame rfl rfl
  | opened a transport =>
    obtain ⟨e', record, ran, ha, rfl⟩ := step_opened h
    exact hsame rfl rfl
  | openFailed a message =>
    obtain ⟨e', record, ran, ha, rfl⟩ := step_openFailed h
    exact hsame rfl rfl
  | connected a live =>
    obtain ⟨e', record, transport, ran, ha, rfl⟩ := step_connected h
    refine hsame rfl ?_
    change (handshaken deps s e' record transport live).recoveries = _
    rw [(handshaken_workerOnly e' record transport live).rest]
    rfl
  | connectFailed a message =>
    obtain ⟨e', record, transport, ran, ha, rfl⟩ := step_connectFailed h
    exact hsame rfl rfl
  | exited a =>
    obtain ⟨e', record, transport, live, ha, hexited, ⟨hnews, rfl⟩ | ⟨hlost, hheld, rfl⟩⟩ :=
      step_exited h
    · refine .same ?_
      simp only [lossOf, ha, hexited, true_and]
      exact if_neg fun hc => hnews.elim hc.1 fun hheld => hheld hc.2
    · have hloss : lossOf s (.exited a) = some (e', record) := by
        simp [lossOf, ha, hexited, hlost, hheld]
      exact .started e' record _ hloss
  | requestFailed a answered message =>
    obtain ⟨e', record, transport, live, ran, ha, ⟨hnews, rfl⟩ | ⟨hheld, hwire, rfl⟩⟩ :=
      step_requestFailed h
    · refine .same ?_
      simp only [lossOf, ha]
      exact if_neg hnews
    · have hloss : lossOf s (.requestFailed a answered message) = some (e', record) := by
        simp [lossOf, ha, hheld, hwire]
      exact .started e' record _ hloss
  | wake r =>
    obtain ⟨e', record, n, f, hr, hf, rfl | ⟨hmine, rfl⟩⟩ := step_wake h
    · exact .moved r _ f rfl hr (fun hc => by cases hc) hf
    · rw [Connections.setRecovery, connectRecord_recoveries]
      exact .moved r _ f rfl hr (fun hc => by cases hc) hf
  | resume r =>
    obtain ⟨e, record, n, a, hr⟩ := step_resume_awaiting h
    obtain ⟨f, hf, rfl⟩ := step_resume h
    exact .moved r _ f rfl hr (fun hc => by cases hc) hf
  | installed i => exact hsame rfl (by rw [(step_installed h).rest])
  | installFailed i message => exact hsame rfl (by rw [(step_installFailed h).rest])

/-! ### Which recoveries there are after one event -/

/-- Recovery `r` was started for the entry at `e`, to reach the machine of `record`. -/
def Recovers (s : Connections) (r e : ℕ) (record : NodeRecord) : Prop :=
  ∃ x, s.recoveries[r]? = some x ∧ x.entry = e ∧ x.record = record

/-- Every event keeps the recoveries there are. -/
theorem recovers_step {event : Event} (h : step deps s event = some s') {r e : ℕ}
    {record : NodeRecord} (hr : Recovers s r e record) : Recovers s' r e record := by
  obtain ⟨x, hx, rfl, rfl⟩ := hr
  have htouch := step_recoveries h
  unfold Recovers
  generalize s'.recoveries = recoveries at htouch
  cases htouch with
  | same => exact ⟨x, hx, rfl, rfl⟩
  | started => exact ⟨x, getElem?_concat_of_some hx, rfl, rfl⟩
  | moved r' y f hloss hy hgo hf =>
    by_cases hrr : r' = r
    · exact ⟨f x, by simp [hx, hrr], hf x⟩
    · exact ⟨x, by simp [hx, hrr], rfl, rfl⟩

/-- An event that publishes a loss starts the recovery the entry then names. -/
theorem recovers_loss {event : Event} (h : step deps s event = some s') {e : ℕ}
    {record : NodeRecord} (hloss : lossOf s event = some (e, record)) :
    Recovers s' s.recoveries.length e record := by
  have htouch := step_recoveries h
  unfold Recovers
  generalize s'.recoveries = recoveries at htouch
  cases htouch with
  | same hnone => cases hnone.symm.trans hloss
  | started e' record' phase hloss' =>
    obtain ⟨rfl, rfl⟩ := Prod.mk.inj (Option.some.inj (hloss'.symm.trans hloss))
    exact ⟨_, List.getElem?_concat_length, rfl, rfl⟩
  | moved r x f hnone => cases hnone.symm.trans hloss

end RemoteWorkspace.Analysis.NodeConnections
