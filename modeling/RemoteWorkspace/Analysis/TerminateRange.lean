import RemoteWorkspace.Model.Subprocess

/-!
# Termination of a whole range

`terminate` does nothing once the exit facts of its child have settled, and its ladder gives
up when they settle during the grace period. Both look at the child, while `wait_for_exit`
looks at the group, which may outlive the child.

`Escalates` says that a group that was to be terminated and still has a member got its
`SIGTERM`, and that its `SIGKILL` was sent or is to come. Throughout a run that is the case
exactly when no member is left wherever the code takes the settled facts for the end of
the range.
-/

set_option autoImplicit false

namespace RemoteWorkspace.Analysis.Subprocess

open RemoteWorkspace.Computation RemoteWorkspace.Model.Subprocess

/-! ### What termination promises -/

/-- One managed process, and whether `terminate` was called for it. -/
def watched (readers : ℕ) : Machine (ManagedProcess × Bool) Event :=
  (machine readers).observe false fun _ asked e _ => asked || e = .terminate

/-- The ladder is not over yet, or it sent its last signal. -/
def Escalating (s : ManagedProcess) : Prop :=
  s.ladder = .signalling ∨ s.ladder = .sleeping ∨ s.ladder = .killing ∨
    .sigkill ∈ s.group.signals

/-- After `terminate`, a group that still has a member got `SIGTERM` or is about to; and
unless the process was disposed and nobody waits for it, `SIGKILL` follows. -/
structure Escalates (p : ManagedProcess × Bool) : Prop where
  signalled : p.2 = true → groupAlive p.1.group = true →
    p.1.ladder = .signalling ∨ .sigterm ∈ p.1.group.signals
  killed : p.2 = true → groupAlive p.1.group = true → p.1.disposed = false ∨ 0 < p.1.waiters →
    Escalating p.1

/-- Where the code takes the settled facts for the end of the range, the group has no
member left or was killed: at a call of `terminate` that is not the second one, when the
grace period ends, and when somebody starts to wait after the ladder is over. -/
def RangeGone (s : ManagedProcess) : Event → Prop
  | .terminate => groupAlive s.group = true → s.terminating = true ∨ s.settled = none
  | .graceOver => groupAlive s.group = true →
      s.settled = none ∨ .sigkill ∈ s.group.signals ∨ s.disposed = true ∧ s.waiters = 0
  | .waitForExit => groupAlive s.group = true → s.ladder = .ended → .sigkill ∈ s.group.signals
  | _ => True

/-! ### The group -/

@[simp] theorem groupAlive_signalGroup (group : Group) (signal : Signal) :
    groupAlive (signalGroup group signal) = groupAlive group := by
  unfold signalGroup
  split <;> rfl

theorem signals_signalGroup {group : Group} (signal : Signal) (h : groupAlive group = true) :
    (signalGroup group signal).signals = group.signals ++ [signal] := by
  rw [signalGroup, if_pos h]

/-- A signal to a group that has a member is delivered. -/
theorem mem_signalGroup_self {group : Group} (signal : Signal) (h : groupAlive group = true) :
    signal ∈ (signalGroup group signal).signals := by
  rw [signals_signalGroup signal h]
  exact List.mem_append_right _ (List.mem_singleton.mpr rfl)

/-- A signal changes nothing about the delivery of another. -/
theorem mem_signalGroup_of_ne {group : Group} {signal other : Signal} (h : other ≠ signal) :
    other ∈ (signalGroup group signal).signals ↔ other ∈ group.signals := by
  unfold signalGroup
  split <;> simp [h]

/-! ### The quiet events -/

/-- The events of a ladder, of `wait_for_exit` and of `dispose`. -/
def acts : Event → Bool
  | .terminate => true
  | .sendTerm => true
  | .graceOver => true
  | .sendKill => true
  | .waitForExit => true
  | .dispose => true
  | _ => false

/-- Flags, ladder and signals are as they were, no group got a first member, and settled
facts stay settled. -/
structure Quiet (s s' : ManagedProcess) : Prop where
  alive : groupAlive s'.group = true → groupAlive s.group = true
  signals : s'.group.signals = s.group.signals
  settled : s.settled ≠ none → s'.settled ≠ none
  terminating : s'.terminating = s.terminating
  disposed : s'.disposed = s.disposed
  ladder : s'.ladder = s.ladder
  waiters : s'.waiters ≤ s.waiters

/-- Every other event is quiet. -/
theorem step_quiet {s s' : ManagedProcess} {e : Event} (h : step s e = some s')
    (he : acts e = false) : Quiet s s' := by
  cases e with
  | fork =>
    obtain ⟨hmember, ⟨⟩⟩ := Option.ite_none_right_eq_some.mp h
    refine ⟨fun _ => ?_, rfl, id, rfl, rfl, rfl, Nat.le_refl _⟩
    rcases hmember with hmember | hmember
    · simp [groupAlive, hmember]
    · simp [groupAlive, hmember]
  | memberExits =>
    obtain ⟨hmember, ⟨⟩⟩ := Option.ite_none_right_eq_some.mp h
    exact ⟨fun _ => by simp [groupAlive, hmember], rfl, id, rfl, rfl, rfl, Nat.le_refl _⟩
  | childExits =>
    obtain ⟨hrunning, ⟨⟩⟩ := Option.ite_none_right_eq_some.mp h
    exact ⟨fun _ => by simp [groupAlive, hrunning], rfl, id, rfl, rfl, rfl, Nat.le_refl _⟩
  | reap facts =>
    obtain ⟨hzombie, ⟨⟩⟩ := Option.ite_none_right_eq_some.mp h
    exact ⟨fun _ => by simp [groupAlive, hzombie.2], rfl, id, rfl, rfl, rfl, Nat.le_refl _⟩
  | waitFails =>
    obtain ⟨-, ⟨⟩⟩ := Option.ite_none_right_eq_some.mp h
    exact ⟨id, rfl, id, rfl, rfl, rfl, Nat.le_refl _⟩
  | record =>
    simp only [step] at h
    split at h
    · obtain rfl := Option.some.inj h
      exact ⟨id, rfl, id, rfl, rfl, rfl, Nat.le_refl _⟩
    · cases h
  | readerEnds =>
    obtain rfl := Option.some.inj h
    exact ⟨id, rfl, id, rfl, rfl, rfl, Nat.le_refl _⟩
  | settle timedOut =>
    obtain ⟨-, hs⟩ := Option.ite_none_right_eq_some.mp h
    obtain rfl := Option.some.inj hs
    exact ⟨id, rfl, fun _ => by simp [settle], rfl, rfl, rfl, Nat.le_refl _⟩
  | publish =>
    simp only [step] at h
    split at h
    · obtain rfl := Option.some.inj h
      exact ⟨id, rfl, id, rfl, rfl, rfl, Nat.le_refl _⟩
    · cases h
  | exitSeen =>
    obtain ⟨-, ⟨⟩⟩ := Option.ite_none_right_eq_some.mp h
    exact ⟨id, rfl, id, rfl, rfl, rfl, Nat.sub_le ..⟩
  | announce =>
    obtain ⟨hannouncing, ⟨⟩⟩ := Option.ite_none_right_eq_some.mp h
    exact ⟨id, rfl, id, rfl, rfl, rfl, Nat.le_refl _⟩
  | _ => cases he

/-! ### The invariant -/

/-- What the flags of one process and its ladder say about each other, and what they say
about a group that still has a member. -/
structure Laddered (p : ManagedProcess × Bool) : Prop where
  disposed : p.1.disposed = true → p.1.settled ≠ none
  begun : p.1.terminating = true ↔ p.1.ladder ≠ .idle
  asked : p.1.terminating = true → p.2 = true
  acted : p.2 = true → groupAlive p.1.group = true → p.1.terminating = true
  untouched : p.1.ladder = .idle → .sigterm ∉ p.1.group.signals
  signalled : p.1.ladder ≠ .idle → p.1.ladder ≠ .signalling → groupAlive p.1.group = true →
    .sigterm ∈ p.1.group.signals
  killed : p.1.ladder = .ended → groupAlive p.1.group = true →
    p.1.disposed = false ∨ 0 < p.1.waiters → .sigkill ∈ p.1.group.signals

/-- Where a ladder that is over killed its group, termination keeps its promise. -/
theorem Laddered.escalates {p : ManagedProcess × Bool} (hp : Laddered p) : Escalates p := by
  refine ⟨fun hasked halive => ?_, fun hasked halive hopen => ?_⟩
  · have hbegun := hp.begun.mp (hp.acted hasked halive)
    by_cases h : p.1.ladder = .signalling
    · exact .inl h
    · exact .inr (hp.signalled hbegun h halive)
  · have hbegun := hp.begun.mp (hp.acted hasked halive)
    cases h : p.1.ladder with
    | idle => exact absurd h hbegun
    | signalling => exact .inl h
    | sleeping => exact .inr (.inl h)
    | killing => exact .inr (.inr (.inl h))
    | ended => exact .inr (.inr (.inr (hp.killed h halive hopen)))

/-- A child that was just started. -/
theorem laddered_started (readers : ℕ) : Laddered (.started readers, false) :=
  ⟨nofun, ⟨nofun, fun h => absurd rfl h⟩, nofun, nofun, fun _ => nofun, fun h => absurd rfl h,
    nofun⟩

/-- A quiet event keeps the ladder and its group together. -/
theorem Laddered.quiet {s s' : ManagedProcess} {asked : Bool} (hp : Laddered (s, asked))
    (hq : Quiet s s') : Laddered (s', asked) := by
  refine ⟨fun h => hq.settled (hp.disposed (hq.disposed ▸ h)), ?_, ?_, ?_, ?_, ?_, ?_⟩
  · rw [hq.terminating, hq.ladder]
    exact hp.begun
  · rw [hq.terminating]
    exact hp.asked
  · rw [hq.terminating]
    exact fun h halive => hp.acted h (hq.alive halive)
  · rw [hq.ladder, hq.signals]
    exact hp.untouched
  · rw [hq.ladder, hq.signals]
    exact fun h h' halive => hp.signalled h h' (hq.alive halive)
  · rw [hq.ladder, hq.disposed, hq.signals]
    intro h halive hopen
    have hwait : 0 < s'.waiters → 0 < s.waiters := fun hpos => Nat.lt_of_lt_of_le hpos hq.waiters
    exact hp.killed h (hq.alive halive) (hopen.imp_right hwait)

/-- `terminate` starts a ladder, unless one was started or the facts have settled. -/
theorem laddered_terminate {s : ManagedProcess} {asked : Bool} (hp : Laddered (s, asked))
    (hG : RangeGone s .terminate) : Laddered (terminate s, true) := by
  by_cases hskip : s.terminating = true ∨ s.settled.isSome = true
  · rw [terminate, if_pos hskip]
    refine ⟨hp.disposed, hp.begun, fun _ => rfl, fun _ halive => ?_, hp.untouched, hp.signalled,
      hp.killed⟩
    rcases hG halive with h | h
    · exact h
    · exact hskip.resolve_right (by simp [h])
  · rw [terminate, if_neg hskip]
    exact ⟨hp.disposed, ⟨fun _ => nofun, fun _ => rfl⟩, fun _ => rfl, fun _ _ => rfl, nofun,
      fun _ h => absurd rfl h, nofun⟩

/-- `dispose` kills a group whose child has not settled. -/
theorem laddered_dispose {s : ManagedProcess} {asked : Bool} (hp : Laddered (s, asked)) :
    Laddered (dispose s, asked) := by
  unfold dispose
  split
  · exact hp
  · split
    · refine ⟨fun _ => nofun, hp.begun, hp.asked, fun h halive => ?_, fun h => ?_,
        fun h h' halive => ?_, fun _ halive _ => ?_⟩
      · exact hp.acted h (by simpa using halive)
      · exact fun hmem => hp.untouched h ((mem_signalGroup_of_ne (by decide)).mp hmem)
      · exact (mem_signalGroup_of_ne (by decide)).mpr (hp.signalled h h' (by simpa using halive))
      · exact mem_signalGroup_self .sigkill (by simpa using halive)
    · rename_i hsettled
      exact ⟨fun _ => by simpa using hsettled, hp.begun, hp.asked, hp.acted, hp.untouched,
        hp.signalled, fun h halive hopen => hp.killed h halive (hopen.imp_left nofun)⟩

/-- The first signal. -/
theorem laddered_sendTerm {s : ManagedProcess} {asked : Bool} (hp : Laddered (s, asked))
    (hladder : s.ladder = .signalling) :
    Laddered ({ s with group := signalGroup s.group .sigterm, ladder := .sleeping }, asked) := by
  have hbegun : s.terminating = true := hp.begun.mpr (by simp [hladder])
  refine ⟨hp.disposed, ⟨fun _ => nofun, fun _ => hbegun⟩, hp.asked, fun _ _ => hbegun, nofun,
    fun _ _ halive => ?_, nofun⟩
  exact mem_signalGroup_self .sigterm (by simpa using halive)

/-- The last signal. -/
theorem laddered_sendKill {s : ManagedProcess} {asked : Bool} (hp : Laddered (s, asked))
    (hladder : s.ladder = .killing) :
    Laddered ({ s with group := signalGroup s.group .sigkill, ladder := .ended }, asked) := by
  have hbegun : s.terminating = true := hp.begun.mpr (by simp [hladder])
  refine ⟨hp.disposed, ⟨fun _ => nofun, fun _ => hbegun⟩, hp.asked, fun _ _ => hbegun, nofun,
    fun _ _ halive => ?_, fun _ halive _ => ?_⟩
  · exact (mem_signalGroup_of_ne (by decide)).mpr
      (hp.signalled (by simp [hladder]) (by simp [hladder]) (by simpa using halive))
  · exact mem_signalGroup_self .sigkill (by simpa using halive)

/-- The end of the grace period. -/
theorem laddered_escalate {s : ManagedProcess} {asked : Bool} (hp : Laddered (s, asked))
    (hladder : s.ladder = .sleeping) (hG : RangeGone s .graceOver) :
    Laddered (escalate s, asked) := by
  have hbegun : s.terminating = true := hp.begun.mpr (by simp [hladder])
  have hterm : groupAlive s.group = true → .sigterm ∈ s.group.signals :=
    hp.signalled (by simp [hladder]) (by simp [hladder])
  by_cases hkill : s.disposed = false ∧ s.settled.isNone = true
  · rw [escalate, if_pos hkill]
    exact ⟨hp.disposed, ⟨fun _ => nofun, fun _ => hbegun⟩, hp.asked, fun _ _ => hbegun, nofun,
      fun _ _ => hterm, nofun⟩
  · rw [escalate, if_neg hkill]
    refine ⟨hp.disposed, ⟨fun _ => nofun, fun _ => hbegun⟩, hp.asked, fun _ _ => hbegun, nofun,
      fun _ _ => hterm, fun _ halive hopen => ?_⟩
    rcases hG halive with hnone | hsent | ⟨hdisposed, hwaiters⟩
    · -- facts that have not settled are those of a process that was not disposed
      refine absurd ⟨?_, by simp [hnone]⟩ hkill
      cases hd : s.disposed with
      | false => rfl
      | true => exact absurd hnone (hp.disposed hd)
    · exact hsent
    · rcases hopen with hopen | hopen
      · exact absurd (hdisposed.symm.trans hopen) nofun
      · exact absurd hwaiters (Nat.ne_of_gt hopen)

/-- Somebody starts to wait. -/
theorem laddered_waitForExit {s : ManagedProcess} {asked : Bool} (hp : Laddered (s, asked))
    (hG : RangeGone s .waitForExit) :
    Laddered ({ s with waiters := s.waiters + 1 }, asked) :=
  ⟨hp.disposed, hp.begun, hp.asked, hp.acted, hp.untouched, hp.signalled,
    fun h halive _ => hG halive h⟩

/-- Every event under which settled facts mean that the range is gone keeps the ladder and
its group together. -/
theorem laddered_step {s s' : ManagedProcess} {asked : Bool} (hp : Laddered (s, asked))
    {e : Event} (hG : RangeGone s e) (h : step s e = some s') :
    Laddered (s', asked || e = .terminate) := by
  cases e with
  | terminate =>
    obtain rfl := Option.some.inj h
    simpa using laddered_terminate hp hG
  | dispose =>
    obtain rfl := Option.some.inj h
    simpa using laddered_dispose hp
  | sendTerm =>
    obtain ⟨hladder, ⟨⟩⟩ := Option.ite_none_right_eq_some.mp h
    simpa using laddered_sendTerm hp hladder
  | graceOver =>
    obtain ⟨hladder, hs⟩ := Option.ite_none_right_eq_some.mp h
    obtain rfl := Option.some.inj hs
    simpa using laddered_escalate hp hladder hG
  | sendKill =>
    obtain ⟨hladder, ⟨⟩⟩ := Option.ite_none_right_eq_some.mp h
    simpa using laddered_sendKill hp hladder
  | waitForExit =>
    obtain rfl := Option.some.inj h
    simpa using laddered_waitForExit hp hG
  | _ => simpa using hp.quiet (step_quiet h rfl)

/-- Where settled facts are taken for the end of a range that has a member left,
termination breaks its promise. -/
theorem forsaken_step {s s' : ManagedProcess} {asked : Bool} (hp : Laddered (s, asked))
    {e : Event} (hG : ¬ RangeGone s e) (h : step s e = some s') :
    ¬ Escalates (s', asked || e = .terminate) := by
  intro hkept
  cases e with
  | terminate =>
    simp only [RangeGone, Classical.not_imp, not_or] at hG
    obtain ⟨halive, hbegun, hsettled⟩ := hG
    obtain rfl := Option.some.inj h
    have hsame : terminate s = s := if_pos (.inr (Option.isSome_iff_ne_none.mpr hsettled))
    have hidle : s.ladder = .idle := by
      by_contra hne
      exact hbegun (hp.begun.mpr hne)
    rw [hsame] at hkept
    rcases hkept.signalled (by simp) halive with h | h
    · exact absurd (hidle.symm.trans h) nofun
    · exact hp.untouched hidle h
  | graceOver =>
    simp only [RangeGone, Classical.not_imp, not_or] at hG
    obtain ⟨halive, hsettled, hsent, hopen⟩ := hG
    obtain ⟨hladder, hs⟩ := Option.ite_none_right_eq_some.mp h
    obtain rfl := Option.some.inj hs
    have hover : escalate s = { s with ladder := .ended } :=
      if_neg fun hc => hsettled (Option.isNone_iff_eq_none.mp hc.2)
    rw [hover] at hkept
    have hasked : asked = true := hp.asked (hp.begun.mpr (by simp [hladder]))
    have hwait : s.disposed = false ∨ 0 < s.waiters := by
      cases hd : s.disposed with
      | false => exact .inl rfl
      | true => exact .inr (Nat.pos_of_ne_zero fun h0 => hopen ⟨hd, h0⟩)
    rcases hkept.killed (by simp [hasked]) halive hwait with h | h | h | h
    · cases h
    · cases h
    · cases h
    · exact hsent h
  | waitForExit =>
    simp only [RangeGone, Classical.not_imp] at hG
    obtain ⟨halive, hladder, hsent⟩ := hG
    obtain rfl := Option.some.inj h
    have hasked : asked = true := hp.asked (hp.begun.mpr (by simp [hladder]))
    rcases hkept.killed (by simp [hasked]) halive (.inr (Nat.succ_pos _)) with h | h | h | h
    · exact absurd (hladder.symm.trans h) nofun
    · exact absurd (hladder.symm.trans h) nofun
    · exact absurd (hladder.symm.trans h) nofun
    · exact hsent h
  | _ => exact hG trivial

/-- Along every run, termination keeps its promise to the whole group if and only if the
code never takes settled facts for the end of a group that has a member left. -/
theorem terminate_escalates_iff (readers : ℕ) (events : List Event) :
    (watched readers).Always Escalates (.started readers, false) events ↔
      (watched readers).Each (fun p e => RangeGone p.1 e) (.started readers, false) events := by
  refine Machine.always_iff_each (I := Laddered) (fun _ hp => hp.escalates)
    (fun p e q hp hG h => ?_) (fun p e q hp hG h => ?_) (laddered_started readers) events
  · obtain ⟨hstep, hasked⟩ := Machine.observe_step.mp h
    have := laddered_step hp hG hstep
    rwa [← hasked] at this
  · obtain ⟨hstep, hasked⟩ := Machine.observe_step.mp h
    have := forsaken_step hp hG hstep
    rwa [← hasked] at this

/-- A child leaves a grandchild behind, its facts settle, and only then is it terminated
while somebody waits. -/
def survivor : List Event :=
  [.fork, .childExits, .reap ⟨some 0, none⟩, .record, .settle false, .publish, .waitForExit,
    .terminate]

/-- The call does nothing to the grandchild. -/
theorem survivor_not_signalled :
    ¬ ∀ readers p, (watched readers).Reachable p → Escalates p := by
  intro hall
  have hkept := hall 0 _ (Machine.reachable_get survivor (by decide))
  exact absurd (hkept.signalled (by decide) (by decide)) (by decide)

end RemoteWorkspace.Analysis.Subprocess
