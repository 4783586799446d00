import RemoteWorkspace.Analysis.WindowExact
import RemoteWorkspace.Model.AgentTerminal

/-!
# Reads that are parked

A read of a terminal registers before it looks, and a watcher publishes before it notifies. So
whatever a look did not see was published after the read had registered, and its notification
either has woken the read or is still to come: this is what holds of a read from its look at the
window until it is woken.
-/

set_option autoImplicit false

namespace RemoteWorkspace.Analysis.ParkedReads

open RemoteWorkspace.Computation RemoteWorkspace.Model.CollectedOutput
open RemoteWorkspace.Model.AgentTerminal
open RemoteWorkspace.Model.Subprocess (Outcome)
open RemoteWorkspace.Analysis.CollectedComplete RemoteWorkspace.Analysis.WindowExact

/-- A read has something to say: the window holds a byte from where it reads on, or has slid past
that, or the session ended. -/
def Says (s : State) (r : Reading) : Prop :=
  (∃ place, r.fromByte ≤ place ∧ s.output.dropped ≤ place ∧ place < s.output.total) ∨
    r.fromByte < s.output.dropped ∨ s.outcome ≠ none

/-- A look that found nothing. -/
def Seen.Nothing (seen : Seen) : Prop := seen.bytes = [] ∧ seen.lossy = false

/-- Output that is there for a read has woken it, or the output reader is about to. -/
def Quiet (s : State) (r : Reading) : Prop :=
  r.fromByte < s.output.total → r.woken = true ∨ s.reader = .pushed

/-- Facts that are there have woken a read, or the reaper is about to. -/
def Untold (s : State) (r : Reading) : Prop :=
  s.outcome ≠ none → r.woken = true ∨ s.reaper = .set

/-- What a read may rely on that found nothing. -/
def Vigilant (s : State) (r : Reading) : Prop :=
  match r.stage with
  | .looked seen => Seen.Nothing seen → Quiet s r
  | .informed seen facts => (Seen.Nothing seen → Quiet s r) ∧ (facts = none → Untold s r)
  | .parked => Quiet s r ∧ Untold s r
  | _ => True

/-- What holds in every state: the window holds the tail of a stream, and no read misses what
it waits for. -/
structure Sound (s : State) : Prop where
  fed : ∃ stream, WindowHolds s.output terminalWindowBytes stream
  vigilant : ∀ r ∈ s.reads, Vigilant s r

variable {s t : State} {r : Reading}

/-! ### What a read looks at -/

/-- A look finds nothing only where the stream ends. -/
theorem nothing_iff (h : ∃ stream, WindowHolds s.output terminalWindowBytes stream)
    (fromByte : ℕ) :
    Seen.Nothing (lookAt s.output fromByte) ↔ s.output.total ≤ fromByte := by
  obtain ⟨stream, hholds⟩ := h
  have hread := read_holds hholds fromByte
  have hdropped := hholds.dropped
  rw [Seen.Nothing, lookAt, hread, hholds.total]
  simp only [List.drop_eq_nil_iff, decide_eq_false_iff_not]
  omega

/-- A read has something to say exactly when it is behind the stream or the session ended. -/
theorem says_iff (h : ∃ stream, WindowHolds s.output terminalWindowBytes stream) :
    Says s r ↔ r.fromByte < s.output.total ∨ s.outcome ≠ none := by
  obtain ⟨stream, hholds⟩ := h
  have htotal := hholds.total
  have hdropped := hholds.dropped
  constructor
  · rintro (⟨place, hfrom, -, hplace⟩ | hslid | houtcome)
    · exact .inl (Nat.lt_of_le_of_lt hfrom hplace)
    · refine .inl ?_
      omega
    · exact .inr houtcome
  · rintro (hbehind | houtcome)
    · by_cases hslid : r.fromByte < s.output.dropped
      · exact .inr (.inl hslid)
      · exact .inl ⟨r.fromByte, Nat.le_refl _, Nat.le_of_not_lt hslid, hbehind⟩
    · exact .inr (.inr houtcome)

/-! ### What one step preserves -/

/-- A read relies on the window, the facts and the watchers, which its own steps and those of
other reads leave alone. -/
theorem Vigilant.congr {t : State} (h : Vigilant s r) (houtput : t.output = s.output)
    (houtcome : t.outcome = s.outcome) (hreader : t.reader = s.reader)
    (hreaper : t.reaper = s.reaper) : Vigilant t r := by
  unfold Vigilant Quiet Untold at h ⊢
  rw [houtput, houtcome, hreader, hreaper]
  exact h

/-- Each way in which a read may rely on what it found is kept where both of its parts are. -/
theorem Vigilant.imp {r' : Reading} (h : Vigilant s r) (hstage : r'.stage = r.stage)
    (hquiet : r.stage.registered = true → Quiet s r → Quiet t r')
    (huntold : r.stage.registered = true → Untold s r → Untold t r') : Vigilant t r' := by
  unfold Vigilant at h ⊢
  rw [hstage]
  cases hseen : r.stage with
  | starting => trivial
  | enabled => trivial
  | answered reply => trivial
  | looked seen =>
    rw [hseen] at h hquiet
    exact fun hnothing => hquiet rfl (h hnothing)
  | informed seen facts =>
    rw [hseen] at h hquiet huntold
    exact ⟨fun hnothing => hquiet rfl (h.1 hnothing), fun hnone => huntold rfl (h.2 hnone)⟩
  | parked =>
    rw [hseen] at h hquiet huntold
    exact ⟨hquiet rfl h.1, huntold rfl h.2⟩

/-- A read that was notified misses nothing. -/
theorem vigilant_notified {s' : State} (h : Vigilant s r) :
    Vigilant s' (if r.stage.registered then { r with woken := true } else r) := by
  by_cases hregistered : r.stage.registered = true
  · rw [if_pos hregistered]
    exact h.imp rfl (fun _ _ _ => .inl rfl) (fun _ _ _ => .inl rfl)
  · rw [if_neg hregistered]
    exact h.imp rfl (fun hr => absurd hr hregistered) (fun hr => absurd hr hregistered)

/-- A notification. -/
theorem Sound.notify {s' : State} (h : Sound s) (houtput : s'.output = s.output)
    (hreads : s'.reads = s.reads) : Sound (notifyWaiters s') := by
  refine ⟨houtput ▸ h.fed, fun r' hr' => ?_⟩
  obtain ⟨r, hr, rfl⟩ := List.mem_map.mp hr'
  exact vigilant_notified (h.vigilant r (hreads ▸ hr))

/-- What a read does by itself: what it has not seen yet will be notified. -/
theorem vigilant_step {r' : Reading} {e : Event} (hs : Sound s) (h : Vigilant s r)
    (hstep : r.step s e = some r') : Vigilant s r' := by
  unfold Reading.step at hstep
  split at hstep
  · obtain ⟨-, heq⟩ := Option.ite_none_right_eq_some.mp hstep
    obtain rfl := Option.some.inj heq
    trivial
  · -- a look that finds nothing finds the end of the stream
    obtain ⟨-, heq⟩ := Option.ite_none_right_eq_some.mp hstep
    obtain rfl := Option.some.inj heq
    intro hnothing hbehind
    exact absurd hbehind (Nat.not_lt.mpr ((nothing_iff hs.fed r.fromByte).mp hnothing))
  · split at hstep
    · rename_i seen hseen
      obtain rfl := Option.some.inj hstep
      rw [Vigilant, hseen] at h
      exact ⟨h, fun hnone houtcome => absurd hnone houtcome⟩
    · cases hstep
  · split at hstep
    · rename_i seen facts hseen
      obtain rfl := Option.some.inj hstep
      rw [Vigilant, hseen] at h
      unfold decideOn
      split
      · trivial
      · rename_i hnone
        simp only [not_or, not_not, Bool.not_eq_true, Option.isSome_eq_false_iff,
          Option.isNone_iff_eq_none] at hnone
        exact ⟨h.1 ⟨hnone.1, hnone.2.1⟩, h.2 hnone.2.2.1⟩
    · cases hstep
  · obtain ⟨-, heq⟩ := Option.ite_none_right_eq_some.mp hstep
    obtain rfl := Option.some.inj heq
    trivial
  · obtain rfl := Option.some.inj hstep
    exact h.imp rfl (fun _ hq => hq) (fun _ hu => hu)
  · obtain ⟨-, heq⟩ := Option.ite_none_right_eq_some.mp hstep
    obtain rfl := Option.some.inj heq
    trivial
  · cases hstep

/-- A step of one read is that read's, and nothing else changes. -/
theorem step_reading {e : Event} {i : ℕ} (he : e.reading = some i) (h : step s e = some t) :
    ∃ r r', s.reads[i]? = some r ∧ r.step s e = some r' ∧
      t = { s with reads := s.reads.set i r' } := by
  have hown : (do
      let r ← s.reads[i]?
      let r ← r.step s e
      pure { s with reads := s.reads.set i r } : Option State) = some t := by
    cases e with
    | push | pushNotify | readerEnd | set | setNotify | call => cases he
    | _ =>
      obtain rfl := Option.some.inj he
      exact h
  obtain ⟨r, hr, hrest⟩ := Option.bind_eq_some_iff.mp hown
  obtain ⟨r', hr', heq⟩ := Option.bind_eq_some_iff.mp hrest
  exact ⟨r, r', hr, hr', (Option.some.inj heq).symm⟩

/-- Every step keeps it. -/
theorem Sound.step {e : Event} (hs : Sound s) (h : step s e = some t) : Sound t := by
  have hreading : ∀ i, e.reading = some i → Sound t := by
    intro i he
    obtain ⟨r, r', hr, hr', rfl⟩ := step_reading he h
    refine ⟨hs.fed, fun q hq => ?_⟩
    rcases List.mem_or_eq_of_mem_set hq with hold | rfl
    · exact (hs.vigilant q hold).congr rfl rfl rfl rfl
    · have hvigilant := vigilant_step hs (hs.vigilant r (List.mem_of_getElem? hr)) hr'
      exact hvigilant.congr rfl rfl rfl rfl
  cases e with
  | push chunk =>
    obtain ⟨-, heq⟩ := Option.ite_none_right_eq_some.mp h
    obtain rfl := Option.some.inj heq
    obtain ⟨stream, hstream⟩ := hs.fed
    refine ⟨⟨_, windowHolds_push hstream chunk⟩, fun r hr => ?_⟩
    exact (hs.vigilant r hr).imp rfl (fun _ _ _ => .inr rfl) (fun _ hu => hu)
  | pushNotify =>
    obtain ⟨-, heq⟩ := Option.ite_none_right_eq_some.mp h
    exact Option.some.inj heq ▸ hs.notify rfl rfl
  | readerEnd =>
    obtain ⟨hquiet, heq⟩ := Option.ite_none_right_eq_some.mp h
    obtain rfl := Option.some.inj heq
    refine ⟨hs.fed, fun r hr => (hs.vigilant r hr).imp rfl (fun _ hq hbehind => ?_)
      (fun _ hu => hu)⟩
    -- nothing was pushed that is not notified yet
    rcases hq hbehind with hwoken | hpushed
    · exact .inl hwoken
    · rw [hquiet] at hpushed
      cases hpushed
  | set outcome =>
    obtain ⟨-, heq⟩ := Option.ite_none_right_eq_some.mp h
    obtain rfl := Option.some.inj heq
    exact ⟨hs.fed, fun r hr => (hs.vigilant r hr).imp rfl (fun _ hq => hq)
      (fun _ _ _ => .inr rfl)⟩
  | setNotify =>
    obtain ⟨-, heq⟩ := Option.ite_none_right_eq_some.mp h
    exact Option.some.inj heq ▸ hs.notify rfl rfl
  | call fromByte =>
    obtain rfl := Option.some.inj h
    refine ⟨hs.fed, fun r hr => ?_⟩
    rcases List.mem_append.mp hr with hold | hnew
    · exact (hs.vigilant r hold).congr rfl rfl rfl rfl
    · rw [List.mem_singleton.mp hnew]
      trivial
  | _ => exact hreading _ rfl

theorem sound_of_reachable (h : machine.Reachable s) : Sound s := by
  refine h.invariant ⟨⟨[], windowHolds_new _⟩, fun r hr => by cases hr⟩ ?_
  exact fun _ _ _ hs _ hstep => hs.step hstep

/-! ### A read that is woken -/

/-- The terminal with another state of one read. -/
def place (s : State) (i : ℕ) (r : Reading) : State := { s with reads := s.reads.set i r }

/-- A read goes on by itself. -/
theorem step_place {i : ℕ} {r' : Reading} {e : Event} (hi : i < s.reads.length)
    (he : e.reading = some i) (h : r.step s e = some r') :
    machine.step (place s i r) e = some (place s i r') := by
  have hget : (place s i r).reads[i]? = some r := List.getElem?_set_self hi
  have hset : (place s i r).reads.set i r' = s.reads.set i r' := List.set_set _
  have hlooks : r.step (place s i r) e = r.step s e := by
    cases e <;> rfl
  have hown : machine.step (place s i r) e = (do
      let before ← (place s i r).reads[i]?
      let after ← before.step (place s i r) e
      pure { place s i r with reads := (place s i r).reads.set i after } : Option State) := by
    cases e with
    | push | pushNotify | readerEnd | set | setNotify | call => cases he
    | _ =>
      obtain rfl := Option.some.inj he
      rfl
  rw [hown, hget, Option.bind_eq_bind, Option.bind_some, hlooks, h, Option.bind_some, hset]
  rfl

/-- What a read decides that found something. -/
theorem decideOn_says {seen : Seen} {facts : Option Outcome}
    (h : ¬ Seen.Nothing seen ∨ facts ≠ none) :
    (decideOn r seen facts).stage = .answered ⟨seen, facts⟩ := by
  unfold decideOn
  rw [if_pos]
  rcases h with hsome | hfacts
  · rw [Seen.Nothing, not_and_or, Bool.not_eq_false] at hsome
    rcases hsome with hbytes | hlossy
    · exact .inl hbytes
    · exact .inr (.inl hlossy)
  · exact .inr (.inr (.inl (Option.isSome_iff_ne_none.mpr hfacts)))

/-- A read that is woken looks again, and answers when it has something to say. -/
theorem woken_answers {i : ℕ} (hs : Sound s) (hr : s.reads[i]? = some r)
    (hparked : r.stage = .parked) (hwoken : r.woken = true) (htells : Says s r) :
    ∃ t reply, machine.runFrom s [.wake i, .enable i, .look i, .inform i, .decide i] = some t ∧
      (t.reads[i]?).map Reading.stage = some (.answered reply) ∧
      (¬ Seen.Nothing reply.seen ∨ reply.outcome ≠ none) := by
  obtain ⟨hi, hget⟩ := List.getElem?_eq_some_iff.mp hr
  have hfinds : ¬ Seen.Nothing (lookAt s.output r.fromByte) ∨ s.outcome ≠ none := by
    rw [nothing_iff hs.fed, not_le]
    exact (says_iff hs.fed).mp htells
  have hstart : s = place s i r := by
    rw [place, ← hget, List.set_getElem_self]
  -- its five steps: the window and the facts are as they were
  have hwake : r.step s (.wake i) = some { r with stage := .starting } :=
    if_pos ⟨hparked, hwoken⟩
  have henable : Reading.step s { r with stage := .starting } (.enable i) =
      some { r with stage := .enabled, woken := false } := rfl
  have hlook : Reading.step s { r with stage := .enabled, woken := false } (.look i) =
      some { r with stage := .looked (lookAt s.output r.fromByte), woken := false } := rfl
  have hinform : Reading.step s
      { r with stage := .looked (lookAt s.output r.fromByte), woken := false } (.inform i) =
        some { r with
          stage := .informed (lookAt s.output r.fromByte) s.outcome, woken := false } := rfl
  have hdecide : Reading.step s
      { r with stage := .informed (lookAt s.output r.fromByte) s.outcome, woken := false }
        (.decide i) = some (decideOn { r with
          stage := .informed (lookAt s.output r.fromByte) s.outcome, woken := false }
            (lookAt s.output r.fromByte) s.outcome) := rfl
  have hrun : machine.runFrom (place s i r)
      [.wake i, .enable i, .look i, .inform i, .decide i] =
        some (place s i (decideOn { r with
          stage := .informed (lookAt s.output r.fromByte) s.outcome, woken := false }
            (lookAt s.output r.fromByte) s.outcome)) := by
    simp only [Machine.runFrom]
    rw [step_place hi rfl hwake, Option.bind_some, step_place hi rfl henable, Option.bind_some,
      step_place hi rfl hlook, Option.bind_some, step_place hi rfl hinform, Option.bind_some,
      step_place hi rfl hdecide, Option.bind_some]
  rw [← hstart] at hrun
  refine ⟨_, ⟨lookAt s.output r.fromByte, s.outcome⟩, hrun, ?_, hfinds⟩
  have hplaced : ∀ r', (place s i r').reads[i]? = some r' := fun r' => List.getElem?_set_self hi
  rw [hplaced, Option.map_some, decideOn_says hfinds]

/-- While a parked read has something to say, it was notified or a watcher is about to notify
it; and once it was notified it answers by itself, whether or not its deadline passes. -/
theorem no_lost_wakeup (h : machine.Reachable s) {i : ℕ} (hr : s.reads[i]? = some r)
    (hparked : r.stage = .parked) (htells : Says s r) :
    (r.woken = true ∨ s.reader = .pushed ∨ s.reaper = .set) ∧
      (r.woken = true → ∃ t reply,
        machine.runFrom s [.wake i, .enable i, .look i, .inform i, .decide i] = some t ∧
          (t.reads[i]?).map Reading.stage = some (.answered reply) ∧
          (¬ Seen.Nothing reply.seen ∨ reply.outcome ≠ none)) := by
  have hs := sound_of_reachable h
  refine ⟨?_, fun hwoken => woken_answers hs hr hparked hwoken htells⟩
  have hvigilant := hs.vigilant r (List.mem_of_getElem? hr)
  rw [Vigilant, hparked] at hvigilant
  rcases (says_iff hs.fed).mp htells with hbehind | houtcome
  · rcases hvigilant.1 hbehind with hwoken | hpushed
    · exact .inl hwoken
    · exact .inr (.inl hpushed)
  · rcases hvigilant.2 houtcome with hwoken | hset
    · exact .inl hwoken
    · exact .inr (.inr hset)

/-- A byte comes between the look of a read and its decision, and is notified when it is
parked. -/
def lateByte : List Event :=
  [.call 0, .enable 0, .look 0, .push [0x61], .inform 0, .decide 0, .pushNotify]

theorem lateByte_isSome : (machine.run lateByte).isSome = true := by decide +kernel

/-- The terminal then. -/
def lateByteParked : State := (machine.run lateByte).get lateByte_isSome

/-- The read was woken, and answers. -/
theorem no_lost_wakeup_late : ∃ t reply,
    machine.runFrom lateByteParked [.wake 0, .enable 0, .look 0, .inform 0, .decide 0] = some t ∧
      (t.reads[0]?).map Reading.stage = some (.answered reply) ∧
      (¬ Seen.Nothing reply.seen ∨ reply.outcome ≠ none) := by
  have hread : lateByteParked.reads[0]? = some ⟨0, .parked, true, false⟩ := by decide +kernel
  have hbyte : lateByteParked.output.dropped = 0 ∧ lateByteParked.output.total = 1 := by
    decide +kernel
  refine (no_lost_wakeup (Machine.reachable_get lateByte lateByte_isSome) hread rfl ?_).2 rfl
  refine .inl ⟨0, Nat.le_refl 0, ?_, ?_⟩
  · rw [lateByteParked] at hbyte
    exact Nat.le_of_eq hbyte.1
  · rw [lateByteParked] at hbyte
    exact Nat.lt_of_lt_of_eq Nat.zero_lt_one hbyte.2.symm

end RemoteWorkspace.Analysis.ParkedReads
