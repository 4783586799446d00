import RemoteWorkspace.Analysis.FailedMachines
import RemoteWorkspace.Analysis.DisconnectStaysDown

/-!
# The records a connection manager still works with

A record that was given to the manager lives on in the closures of attempts, recovery loops
and channels. `Carried` says that all of those which can still have an effect have a property,
and an event keeps it when the record it asks a connection for has the property and the
dependencies answer with new objects. It is what a question about stale records comes down to:
they leave the manager only one by one, as what carries them ends.
-/

set_option autoImplicit false

namespace RemoteWorkspace.Analysis.NodeConnections

open RemoteWorkspace.Computation RemoteWorkspace.Model RemoteWorkspace.Model.NodeConnections

variable {deps : Deps} {s s' : Connections} {P : NodeRecord → Prop}

/-- An attempt that succeeded holds what its entry holds: its loss would be the entry's. -/
def Holds (entry : Entry) (phase : AttemptPhase) : Prop :=
  ∃ opened live, phase = .ready opened live ∧
    (entry.live.map (·.id) = some live.id ∨ entry.transport.map (·.id) = some opened.id)

/-- All records that can still have an effect have a property: those of attempts in flight, of
recovery loops that their entry names and that are not over, of attempts whose connection or
transport an entry holds, and of channels. -/
structure Carried (P : NodeRecord → Prop) (s : Connections) : Prop where
  flying : ∀ a e record, Flies s a e record → P record
  recovering : ∀ (r : ℕ) x, s.recoveries[r]? = some x → x.phase ≠ .over →
    (s.entries x.entry).recovery = some r → P x.record
  held : ∀ (a : ℕ) x, s.attempts[a]? = some x → Holds (s.entries x.entry) x.phase → P x.record
  published : ∀ e ch, (s.entries e).published = some ch → P ch.record

/-- An attempt that succeeded holds a transport, and made a connection, that the event does not
answer with. -/
def Unlike (s : Connections) : Event → Prop
  | .opened _ transport => ∀ (a : ℕ) x opened live, s.attempts[a]? = some x →
      x.phase = .ready opened live → opened.id ≠ transport.id
  | .connected _ live => ∀ (a : ℕ) x opened other, s.attempts[a]? = some x →
      x.phase = .ready opened other → other.id ≠ live.id
  | _ => True

/-- A weaker property. -/
theorem Carried.mono {Q : NodeRecord → Prop} (h : Carried P s)
    (hPQ : ∀ record, P record → Q record) : Carried Q s where
  flying a e record hf := hPQ _ (h.flying a e record hf)
  recovering r x hx hgo hown := hPQ _ (h.recovering r x hx hgo hown)
  held a x hx hheld := hPQ _ (h.held a x hx hheld)
  published e ch hch := hPQ _ (h.published e ch hch)

/-- A new manager carries no record. -/
theorem carried_empty (P : NodeRecord → Prop) : Carried P .empty where
  flying a e record hf := by
    obtain ⟨x, hx, -⟩ := hf
    cases hx
  recovering r x hx := by cases hx
  held a x hx := by cases hx
  published e ch hch := by cases hch

/-! ### Attempts that succeeded -/

/-- Moving attempts on with `f` makes none of them succeed. -/
theorem ready_of_modify {a i : ℕ} {x : Attempt} {opened : ResolvedTransport}
    {live : ConnectedNode} (f : Attempt → Attempt)
    (hf : ∀ x, (f x).entry = x.entry ∧ (f x).record = x.record)
    (hready : ∀ x, (f x).phase = .ready opened live → x.phase = .ready opened live)
    (hx : (s.attempts.modify a f)[i]? = some x) (hphase : x.phase = .ready opened live) :
    ∃ y, s.attempts[i]? = some y ∧ y.phase = .ready opened live ∧ y.entry = x.entry ∧
      y.record = x.record := by
  obtain ⟨y, hy, ⟨-, rfl⟩ | ⟨-, rfl⟩⟩ := getElem?_modify_cases hx
  · exact ⟨y, hy, hready y hphase, (hf y).1.symm, (hf y).2.symm⟩
  · exact ⟨x, hy, hphase, rfl, rfl⟩

/-- An attempt that has succeeded had succeeded before, or its handshake completes now. -/
theorem ready_cases {event : Event} (h : step deps s event = some s') {i : ℕ} {x : Attempt}
    {opened : ResolvedTransport} {live : ConnectedNode} (hx : s'.attempts[i]? = some x)
    (hphase : x.phase = .ready opened live) :
    (∃ y, s.attempts[i]? = some y ∧ y.phase = .ready opened live ∧ y.entry = x.entry ∧
      y.record = x.record) ∨ Flies s i x.entry x.record := by
  have htouch := step_attempts h
  generalize s'.attempts = attempts at htouch hx
  cases htouch with
  | same => exact .inl ⟨x, hx, hphase, rfl, rfl⟩
  | asked e record =>
    rcases getElem?_concat_cases hx with hold | ⟨-, rfl⟩
    · exact .inl ⟨x, hold, hphase, rfl, rfl⟩
    · cases hphase
  | opened a e record ran transport =>
    exact .inl (ready_of_modify (fun x => { x with phase := .connecting transport })
      (fun _ => ⟨rfl, rfl⟩) (fun _ hready => by cases hready) hx hphase)
  | connected a e record ran transport made ha =>
    obtain ⟨y, hy, ⟨hi, rfl⟩ | ⟨-, rfl⟩⟩ := getElem?_modify_cases hx
    · subst hi
      obtain rfl := Option.some.inj (ha.symm.trans hy)
      exact .inr ⟨_, ha, rfl, rfl, rfl⟩
    · exact .inl ⟨x, hy, hphase, rfl, rfl⟩
  | failed a y message error =>
    exact .inl (ready_of_modify (fun x => { x with phase := .failed error })
      (fun _ => ⟨rfl, rfl⟩) (fun _ hready => by cases hready) hx hphase)
  | exited a =>
    exact .inl (ready_of_modify (fun x => { x with exitedRan := true })
      (fun _ => ⟨rfl, rfl⟩) (fun _ hready => hready) hx hphase)

/-! ### Recovery loops -/

/-- A recovery loop as it was before, which was not over unless it is. -/
def Continues (s : Connections) (r : ℕ) (x : Recovery) : Prop :=
  ∃ y, s.recoveries[r]? = some y ∧ y.entry = x.entry ∧ y.record = x.record ∧
    (x.phase ≠ .over → y.phase ≠ .over)

/-- A recovery loop after an event is one from before, or that of the loss it publishes. -/
theorem recoveries_cases {event : Event} (h : step deps s event = some s') {r : ℕ} {x : Recovery}
    (hx : s'.recoveries[r]? = some x) :
    Continues s r x ∨ r = s.recoveries.length ∧ lossOf s event = some (x.entry, x.record) := by
  have htouch := step_recoveries h
  generalize s'.recoveries = recoveries at htouch hx
  cases htouch with
  | same => exact .inl ⟨x, hx, rfl, rfl, id⟩
  | started e record phase hloss =>
    rcases getElem?_concat_cases hx with hold | ⟨hr, rfl⟩
    · exact .inl ⟨x, hold, rfl, rfl, id⟩
    · exact .inr ⟨hr, hloss⟩
  | moved r' y f hloss hy hgo hf =>
    obtain ⟨z, hz, ⟨hi, rfl⟩ | ⟨-, rfl⟩⟩ := getElem?_modify_cases hx
    · subst hi
      obtain rfl := Option.some.inj (hy.symm.trans hz)
      exact .inl ⟨y, hy, (hf y).1.symm, (hf y).2.symm, fun _ => hgo⟩
    · exact .inl ⟨x, hz, rfl, rfl, id⟩

/-! ### Entries -/

/-- An entry routes to what it routed to, or an attempt on it completes. -/
theorem Touch.published {event : Event} {e : ℕ} {entry entry' : Entry} {ch : NodeChannel}
    (ht : Touch s e entry event entry') (hch : entry'.published = some ch) :
    entry.published = some ch ∨ ∃ a, Flies s a e ch.record := by
  cases ht with
  | same => exact .inl hch
  | host => exact .inl hch
  | progress => exact .inl hch
  | attempt => exact .inl hch
  | opened => exact .inl hch
  | connected a live record transport hfly =>
    obtain rfl := Option.some.inj hch
    exact .inr ⟨a, hfly⟩
  | failed => cases hch
  | lost => cases hch
  | disconnected => cases hch
  | disposed => cases hch

/-- An attempt that succeeded holds what its entry holds after an event if it did before: the
event answers with a new object. -/
theorem Touch.holds {event : Event} {e : ℕ} {entry entry' : Entry} {a : ℕ} {x : Attempt}
    (ht : Touch s e entry event entry') (hnew : Unlike s event) (hx : s.attempts[a]? = some x)
    (hheld : Holds entry' x.phase) : Holds entry x.phase := by
  obtain ⟨opened, live, hphase, hids⟩ := hheld
  refine ⟨opened, live, hphase, ?_⟩
  cases ht with
  | same => exact hids
  | host => exact hids
  | progress => exact hids
  | attempt => exact hids
  | opened a' transport =>
    refine hids.imp_right fun hid => ?_
    exact absurd (Option.some.inj hid).symm (hnew a x opened live hx hphase)
  | connected a' made =>
    refine hids.imp_left fun hid => ?_
    exact absurd (Option.some.inj hid).symm (hnew a x opened live hx hphase)
  | failed => exact hids.elim nofun nofun
  | lost => exact hids.elim nofun nofun
  | disconnected => exact hids.elim nofun nofun
  | disposed => exact hids.elim nofun nofun

/-- An entry that was just created holds nothing. -/
theorem not_holds_created (phase : AttemptPhase) : ¬ Holds .created phase := by
  rintro ⟨opened, live, -, hid | hid⟩
  · cases hid
  · cases hid

/-- The entry before an event is the one that was there, or one that was just created. -/
theorem prior_cases (s s' : Connections) (e : ℕ) :
    prior s s' e = s.entries e ∨ prior s s' e = .created := by
  unfold prior
  split
  · exact .inr rfl
  · exact .inl rfl

/-- What an event publishes as lost is of an attempt that succeeded and holds what its entry
holds. -/
theorem holds_of_loss {event : Event} {e : ℕ} {record : NodeRecord}
    (h : lossOf s event = some (e, record)) :
    ∃ (a : ℕ) (x : Attempt), s.attempts[a]? = some x ∧ Holds (s.entries x.entry) x.phase ∧
      x.record = record := by
  unfold lossOf at h
  split at h
  · split at h
    · rename_i a _ e' record' transport live ha
      split at h
      · rename_i hheld
        cases h
        exact ⟨a, _, ha, ⟨transport, live, rfl, .inr hheld.2.2⟩, rfl⟩
      · cases h
    · cases h
  · split at h
    · rename_i a _ _ _ e' record' transport live ran ha
      split at h
      · rename_i hheld
        cases h
        exact ⟨a, _, ha, ⟨transport, live, rfl, .inl hheld.1⟩, rfl⟩
      · cases h
    · cases h
  · cases h

/-! ### One event -/

/-- Records that an event may bring in have the property. -/
theorem Carried.asks (h : Carried P s) {event : Event} {record : NodeRecord}
    (hconnect : ∀ record, event = .connect record → P record) (hasks : Asks s record event) :
    P record := by
  cases event with
  | connect record' =>
    obtain rfl : record' = record := hasks
    exact hconnect record' rfl
  | wake r =>
    obtain ⟨e, n, hr, hmine⟩ := hasks
    exact h.recovering r _ hr (fun hc => by cases hc) hmine
  | _ => exact hasks.elim

/-- Every event keeps the property of the records the manager works with. -/
theorem carried_step {event : Event} (h : Carried P s)
    (hconnect : ∀ record, event = .connect record → P record) (hnew : Unlike s event)
    (hstep : step deps s event = some s') : Carried P s' where
  flying a e record hf := by
    rcases step_flies hstep hf with hold | hasks
    · exact h.flying a e record hold
    · exact h.asks hconnect hasks
  recovering r x hx hgo hown := by
    rcases recoveries_cases hstep hx with ⟨y, hy, hentry, hrecord, hphase⟩ | ⟨hr, hloss⟩
    · rcases (step_touch hstep x.entry).recovery hown with ⟨-, hown⟩ | ⟨hr, -⟩
      · rcases prior_cases s s' x.entry with hp | hp
        · rw [hp, ← hentry] at hown
          rw [← hrecord]
          exact h.recovering r y hy (hphase hgo) hown
        · rw [hp] at hown
          cases hown
      · have hlt := (List.getElem?_eq_some_iff.mp hy).1
        omega
    · obtain ⟨a, y, hy, hheld, hrecord⟩ := holds_of_loss hloss
      rw [← hrecord]
      exact h.held a y hy hheld
  held a x hx hheld := by
    obtain ⟨opened, live, hphase, hids⟩ := hheld
    rcases ready_cases hstep hx hphase with ⟨y, hy, hyphase, hentry, hrecord⟩ | hfly
    · have hheld : Holds (prior s s' x.entry) y.phase :=
        (step_touch hstep x.entry).holds hnew hy ⟨opened, live, hyphase, hids⟩
      rcases prior_cases s s' x.entry with hp | hp
      · rw [hp, ← hentry] at hheld
        rw [← hrecord]
        exact h.held a y hy hheld
      · rw [hp] at hheld
        exact absurd hheld (not_holds_created y.phase)
    · exact h.flying a _ _ hfly
  published e ch hch := by
    rcases (step_touch hstep e).published hch with hold | ⟨a, hfly⟩
    · rcases prior_cases s s' e with hp | hp
      · rw [hp] at hold
        exact h.published e ch hold
      · rw [hp] at hold
        cases hold
    · exact h.flying a e _ hfly

end RemoteWorkspace.Analysis.NodeConnections
