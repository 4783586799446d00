import RemoteWorkspace.Analysis.StatusAgreesWithRouting

/-!
# What makes a machine failed

A machine gets the state `failed` when an attempt on its entry fails and when its connection is
lost, and in no other way (`failed_of_step`). Beside it stand what an event does to the attempts
that there are, and that an entry waits for one of them.
-/

set_option autoImplicit false

namespace RemoteWorkspace.Analysis.NodeConnections

open RemoteWorkspace.Computation RemoteWorkspace.Model RemoteWorkspace.Model.NodeConnections

/-- The entry whose state an event of the manager sets to `failed`. -/
def failsAt (s : Connections) : Event → Option ℕ
  | .openFailed a _ => (s.attempts[a]?).map Attempt.entry
  | .connectFailed a _ => (s.attempts[a]?).map Attempt.entry
  | e => (lossOf s e).map Prod.fst

variable {deps : Deps} {s t : Connections} {e : Event}

/-- A loss is that of an attempt's entry. -/
theorem lossOf_attempt {owner : ℕ × NodeRecord} (h : lossOf s e = some owner) :
    ∃ (a : ℕ) (x : Attempt), s.attempts[a]? = some x ∧ x.entry = owner.1 := by
  cases e with
  | exited a =>
    simp only [lossOf] at h
    split at h
    · rename_i hx
      obtain ⟨-, h⟩ := Option.ite_none_right_eq_some.mp h
      obtain rfl := Option.some.inj h
      exact ⟨a, _, hx, rfl⟩
    · cases h
  | requestFailed a answered message =>
    simp only [lossOf] at h
    split at h
    · rename_i hx
      obtain ⟨-, h⟩ := Option.ite_none_right_eq_some.mp h
      obtain rfl := Option.some.inj h
      exact ⟨a, _, hx, rfl⟩
    · cases h
  | _ => cases h

/-- An entry that an event sets to `failed` is one of the table when a row leads to it
afterwards. -/
theorem row_of_attempt (hs : Agrees s) (hstep : step deps s e = some t) {a : ℕ}
    {x : Attempt} (hx : s.attempts[a]? = some x) {nodeId : NodeId}
    (hrow : (nodeId, x.entry) ∈ t.table) : (nodeId, x.entry) ∈ s.table := by
  rcases (mem_table_of_step hstep hrow).2 with hold | ⟨hnew, -⟩
  · exact hold
  · exact absurd hnew (Nat.ne_of_lt (attempt_below hs.wellFormed hx))

/-- A machine that is failed after an event was so before, or the event fails its entry. -/
theorem failed_of_step (hs : Agrees s) (hstep : step deps s e = some t)
    {nodeId : NodeId} (hfailed : (status t nodeId).state = .failed) :
    (status s nodeId).state = .failed ∨
      ∃ entry, failsAt s e = some entry ∧ (nodeId, entry) ∈ s.table := by
  unfold status at hfailed
  cases hget : t.get nodeId with
  | none =>
    rw [hget] at hfailed
    cases hfailed
  | some i =>
    rw [hget] at hfailed
    have hfailed : (t.entries i).state = .failed := hfailed
    have hrow : (nodeId, i) ∈ t.table := mem_of_get hget
    have hsame : (prior s t i).state = .failed → (status s nodeId).state = .failed := by
      intro hprior
      rcases prior_of_mem hs.wellFormed hstep hrow with ⟨hold, hp⟩ | hp
      · unfold status
        rw [(get_eq_some_iff hs.wellFormed).mpr hold]
        have hp : prior s t i = s.entries i := hp
        rw [hp] at hprior
        exact hprior
      · rw [hp] at hprior
        cases hprior
    have htouch := step_touch hstep i
    generalize t.entries i = entry at htouch hfailed
    cases htouch with
    | same => exact .inl (hsame hfailed)
    | host => exact .inl (hsame hfailed)
    | progress => exact .inl (hsame hfailed)
    | opened => exact .inl (hsame hfailed)
    | disposed => exact .inl (hsame hfailed)
    | attempt => cases hfailed
    | connected => cases hfailed
    | disconnected => cases hfailed
    | failed _ a message record hevent hfly =>
      obtain ⟨x, hx, -, rfl, -⟩ := hfly
      refine .inr ⟨x.entry, ?_, row_of_attempt hs hstep hx hrow⟩
      rcases hevent with rfl | rfl
      · rw [failsAt, hx, Option.map_some]
      · rw [failsAt, hx, Option.map_some]
    | lost _ record error hloss =>
      obtain ⟨a, x, hx, hi⟩ := lossOf_attempt hloss
      have hi : x.entry = i := hi
      subst hi
      refine .inr ⟨x.entry, ?_, row_of_attempt hs hstep hx hrow⟩
      cases e with
      | exited => exact congrArg (Option.map Prod.fst) hloss
      | requestFailed => exact congrArg (Option.map Prod.fst) hloss
      | _ => cases hloss

/-- An event that fails an entry leaves it so, in the table that there was. -/
theorem failsAt_failed (hstep : step deps s e = some t) {entry : ℕ}
    (hentry : failsAt s e = some entry) : (t.entries entry).state = .failed ∧ t.table = s.table := by
  cases e with
  | openFailed a message =>
    obtain ⟨i, record, ran, ha, rfl⟩ := step_openFailed hstep
    rw [failsAt, ha] at hentry
    obtain rfl := Option.some.inj hentry
    refine ⟨?_, rfl⟩
    simp [attemptFailed, fail, clear, Connections.assign, Connections.settleAttempt]
  | connectFailed a message =>
    obtain ⟨i, record, transport, ran, ha, rfl⟩ := step_connectFailed hstep
    rw [failsAt, ha] at hentry
    obtain rfl := Option.some.inj hentry
    refine ⟨?_, rfl⟩
    simp [attemptFailed, fail, clear, Connections.assign, Connections.settleAttempt]
  | exited a =>
    obtain ⟨owner, hloss, rfl⟩ := Option.map_eq_some_iff.mp hentry
    obtain ⟨i, record, transport, live, ha, hexited, ⟨hnews, -⟩ | ⟨hlost, hheld, rfl⟩⟩ :=
      step_exited hstep
    · simp only [lossOf, ha, hexited, true_and] at hloss
      obtain ⟨hnew, -⟩ := Option.ite_none_right_eq_some.mp hloss
      exact absurd hnew.2 (hnews.elim (fun hc => absurd hc hnew.1) id)
    · simp only [lossOf, ha, hexited, true_and] at hloss
      obtain ⟨-, hloss⟩ := Option.ite_none_right_eq_some.mp hloss
      obtain rfl := Option.some.inj hloss
      refine ⟨?_, rfl⟩
      simp [recover, fail, clear, Connections.assign]
  | requestFailed a answered message =>
    obtain ⟨owner, hloss, rfl⟩ := Option.map_eq_some_iff.mp hentry
    obtain ⟨i, record, transport, live, ran, ha, ⟨hnews, -⟩ | ⟨hheld, hwire, rfl⟩⟩ :=
      step_requestFailed hstep
    · simp only [lossOf, ha] at hloss
      obtain ⟨hnew, -⟩ := Option.ite_none_right_eq_some.mp hloss
      exact absurd hnew hnews
    · simp only [lossOf, ha] at hloss
      obtain ⟨-, hloss⟩ := Option.ite_none_right_eq_some.mp hloss
      obtain rfl := Option.some.inj hloss
      refine ⟨?_, rfl⟩
      simp [recover, fail, clear, Connections.assign]
  | _ => cases hentry

/-- A connection request keeps the agreement. -/
theorem agrees_connect (h : Agrees s) (record : NodeRecord) : Agrees (connectRecord s record).1 := by
  have hstep : step ⟨0, none⟩ s (.connect record) = some (connectRecord s record).1 := rfl
  exact agrees_step h hstep

/-- A connection request for one machine leaves the status of another. -/
theorem status_connect_other (hs : Agrees s) {record : NodeRecord} {nodeId : NodeId}
    (hne : record.nodeId ≠ nodeId) : status (connectRecord s record).1 nodeId = status s nodeId := by
  obtain h | ⟨i, hget, -, -, h⟩ | ⟨-, h⟩ := connectRecord_cases s record
  · rw [h]
  · rw [h]
    unfold status
    have hsame : (startAttempt s i record).1.get nodeId = s.get nodeId := rfl
    rw [hsame]
    cases hother : s.get nodeId with
    | none => rfl
    | some j =>
      have hij : j ≠ i := by
        rintro rfl
        have hrow := List.inj_on_of_nodup_map hs.wellFormed.addresses (mem_of_get hget)
          (mem_of_get hother) rfl
        exact hne (Prod.mk.inj hrow).1
      simp [startAttempt, Connections.assign, hij]
  · rw [h]
    unfold status
    have hsame : (startAttempt { s with
        entries := Function.update s.entries s.nextEntry Entry.created
        nextEntry := s.nextEntry + 1
        table := s.table ++ [(record.nodeId, s.nextEntry)] } s.nextEntry record).1.get nodeId =
          s.get nodeId := by
      simp [startAttempt, Connections.assign, Connections.get, List.find?_append, hne]
    rw [hsame]
    cases hother : s.get nodeId with
    | none => rfl
    | some j =>
      have hlt : j < s.nextEntry := hs.wellFormed.below _ (mem_of_get hother)
      simp [startAttempt, Connections.assign, Nat.ne_of_lt hlt]

/-! ### Attempts -/

/-- An attempt that succeeded. -/
def succeeded : AttemptPhase → Bool
  | .ready _ _ => true
  | _ => false

/-- It is not in flight. -/
theorem not_inFlight_of_succeeded {x : Attempt} (h : succeeded x.phase = true) :
    ¬ x.inFlight = true := by
  obtain ⟨entry, record, phase, ran⟩ := x
  cases phase with
  | ready => exact Bool.false_ne_true
  | _ => cases h

/-- What an event does to the attempts: nothing; one more starts; one moves on, and an attempt
that succeeded stays so. -/
inductive Attempts (l : List Attempt) : List Attempt → Prop
  | same : Attempts l l
  | started (x : Attempt) : Attempts l (l ++ [x])
  | moved (a : ℕ) (f : Attempt → Attempt)
      (hf : ∀ x, l[a]? = some x → succeeded x.phase = true → succeeded (f x).phase = true) :
      Attempts l (l.modify a f)

/-- A connection request starts an attempt at most. -/
theorem attempts_connect (record : NodeRecord) :
    Attempts s.attempts (connectRecord s record).1.attempts := by
  obtain h | ⟨i, h⟩ := connectRecord_attempts s record
  · rw [h]
    exact .same
  · rw [h]
    exact .started _

/-- Every event. -/
theorem attempts_step (hstep : step deps s e = some t) :
    Attempts s.attempts t.attempts := by
  have htouch := step_attempts hstep
  generalize t.attempts = attempts at htouch
  cases htouch with
  | same => exact .same
  | asked => exact .started _
  | opened a i record ran transport ha =>
    refine .moved a _ fun x hx hready => ?_
    obtain rfl := Option.some.inj (ha.symm.trans hx)
    cases hready
  | connected a => exact .moved a _ fun _ _ _ => rfl
  | failed a y message error hevent ha hfly =>
    refine .moved a _ fun x hx hready => ?_
    obtain rfl := Option.some.inj (ha.symm.trans hx)
    exact absurd hfly (not_inFlight_of_succeeded hready)
  | exited a => exact .moved a _ fun _ _ hready => hready

/-- No attempt goes away. -/
theorem Attempts.length {l l' : List Attempt} (h : Attempts l l') : l.length ≤ l'.length := by
  cases h with
  | same => exact Nat.le_refl _
  | started x => simp
  | moved a f hf => simp

/-- An attempt that succeeded stays so. -/
theorem Attempts.succeeded {l l' : List Attempt} (h : Attempts l l') {a : ℕ}
    (ha : ((l[a]?).map Attempt.phase).any succeeded = true) :
    ((l'[a]?).map Attempt.phase).any succeeded = true := by
  cases hx : l[a]? with
  | none =>
    rw [hx] at ha
    cases ha
  | some x =>
    rw [hx] at ha
    have hready : NodeConnections.succeeded x.phase = true := ha
    cases h with
    | same =>
      rw [hx]
      exact hready
    | started y =>
      rw [getElem?_concat_of_some hx]
      exact hready
    | moved b f hf =>
      rw [List.getElem?_modify, hx]
      by_cases hb : b = a
      · subst hb
        simpa using hf x hx hready
      · simpa [hb] using hready

/-- Every attempt that an entry waits for is one of the attempts. -/
def Pendings (s : Connections) : Prop :=
  ∀ i a, (s.entries i).pending = some a → a < s.attempts.length

/-- A new attempt is one of the attempts. -/
theorem pendings_start (h : Pendings s) (i : ℕ) (record : NodeRecord) :
    Pendings (startAttempt s i record).1 ∧
      ∀ a, (startAttempt s i record).2 = .attempt a →
        a < (startAttempt s i record).1.attempts.length := by
  refine ⟨fun j a ha => ?_, fun a ha => ?_⟩
  · by_cases hj : j = i
    · subst hj
      have ha : s.attempts.length = a := by
        simpa [startAttempt, Connections.assign] using ha
      simp [startAttempt, ← ha]
    · have hold : (s.entries j).pending = some a := by
        simpa [startAttempt, Connections.assign, hj] using ha
      have hlt := h j a hold
      simp only [startAttempt, List.length_append, List.length_singleton]
      omega
  · obtain rfl := ConnectAnswer.attempt.inj ha
    simp [startAttempt]

/-- A connection request waits for an attempt that there is. -/
theorem pendings_connect (h : Pendings s) (record : NodeRecord) :
    Pendings (connectRecord s record).1 ∧ ∀ a, (connectRecord s record).2 = .attempt a →
      a < (connectRecord s record).1.attempts.length := by
  have hentry : Pendings (entryFor s record.nodeId).1 := by
    unfold entryFor
    cases s.get record.nodeId with
    | some i => exact h
    | none =>
      intro j a ha
      by_cases hj : j = s.nextEntry
      · subst hj
        simp [Entry.created] at ha
      · exact h j a (by simpa [hj] using ha)
  unfold connectRecord
  generalize (entryFor s record.nodeId).1 = u at hentry
  generalize (entryFor s record.nodeId).2 = i
  unfold connectEntry
  split
  · exact ⟨hentry, fun a ha => by cases ha⟩
  · rename_i hpending _
    refine ⟨hentry, fun a ha => ?_⟩
    obtain rfl := ConnectAnswer.attempt.inj ha
    exact hentry i _ hpending
  · exact pendings_start hentry i record

/-- Every event keeps this. -/
theorem pendings_step (h : Pendings s) (hstep : step deps s e = some t) :
    Pendings t := by
  have hlength := (attempts_step hstep).length
  have htouched : (∀ record, ¬ Asks s record e) → Pendings t := by
    intro hasks i a ha
    have hprior : (prior s t i).pending = some a → a < s.attempts.length := by
      intro hp
      unfold prior at hp
      split at hp
      · cases hp
      · exact h i a hp
    have htouch := step_touch hstep i
    generalize t.entries i = entry at htouch ha
    cases htouch with
    | same => exact Nat.lt_of_lt_of_le (hprior ha) hlength
    | host => exact Nat.lt_of_lt_of_le (hprior ha) hlength
    | progress => exact Nat.lt_of_lt_of_le (hprior ha) hlength
    | opened => exact Nat.lt_of_lt_of_le (hprior ha) hlength
    | attempt _ record hasked => exact absurd hasked (hasks record)
    | connected => cases ha
    | failed => cases ha
    | lost => cases ha
    | disconnected => cases ha
    | disposed => cases ha
  cases e with
  | connect record =>
    obtain rfl := Option.some.inj hstep
    exact (pendings_connect h record).1
  | wake r =>
    obtain ⟨i, record, n, f, -, -, rfl | ⟨-, rfl⟩⟩ := step_wake hstep
    · exact h
    · exact (pendings_connect h record).1
  | _ => exact htouched fun record => id

end RemoteWorkspace.Analysis.NodeConnections
