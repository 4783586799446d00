import RemoteWorkspace.Model.Tunnel

/-!
# Who listens when a forward is handed out

The port is free when it was found, and from then on anybody's. A forward that is handed out
is the one that was started as long as no other process binds the port while a probe of it is
still to come, and `ssh` does not exit between taking the probe and the answer. Each of the
two can end in a forward that leads elsewhere or nowhere: the probe only tells that somebody
listens.
-/

set_option autoImplicit false

namespace RemoteWorkspace.Analysis.OwnTunnel

open RemoteWorkspace.Computation RemoteWorkspace.Model RemoteWorkspace.Model.Tunnel

variable {spec : Spec} {s t : Opening}

/-- A call that has resolved has resolved to a port that its own `ssh` listens on. -/
def Own (s : Opening) : Prop :=
  ∀ port, s.phase = .resolved port → s.listener port = some .ssh

/-- A probe of a port is still to come, or waits for its connection. -/
def Awaits (s : Opening) (port : ℕ) : Prop :=
  match s.phase with
  | .allocated p | .probing p | .polling p _ => p = port
  | .probed p false => p = port ∧ s.exited = false ∧ s.now < s.deadline
  | _ => False

/-- No other process binds the port while a probe is to come, and `ssh` does not exit after a
probe was taken. -/
def Undisturbed (s : Opening) : Event → Prop
  | .foreignBinds port => ¬ Awaits s port
  | .sshExits => ∀ port, s.phase ≠ .probed port true
  | _ => True

/-! ### What an event does -/

/-- What each event leaves, by the branch that it takes. -/
inductive Moves (spec : Spec) (s : Opening) : Event → Opening → Prop
  | rejected {answer : Listening} (error : String) :
      Moves spec s (.listening answer) { s with phase := .rejected error }
  | found {port : ℕ} (hp : s.phase = .allocating) :
      Moves spec s (.listening (.on port))
        { s.listens port (some .probe) with phase := .releasing port }
  | released {port : ℕ} (hp : s.phase = .releasing port) :
      Moves spec s .released { s.listens port none with phase := .allocated port }
  | start {port : ℕ} (hp : s.phase = .allocated port) :
      Moves spec s .start { s with
        phase := .probing port, ssh := .connecting port, deadline := s.now + spec.readyTimeoutMs }
  | accepted {port : ℕ} (hp : s.phase = .probing port) (hsome : s.listener port ≠ none) :
      Moves spec s .accepted { s with phase := .probed port true }
  | refused {port : ℕ} (hp : s.phase = .probing port) :
      Moves spec s .refused { s with phase := .probed port false }
  | fails (message : String) : Moves spec s .check (s.fails spec message)
  | polls {port : ℕ} (hp : s.phase = .probed port false) (hexited : s.exited = false)
      (hearly : s.now < s.deadline) :
      Moves spec s .check { s with phase := .polling port (s.now + spec.readyPollMs) }
  | woken {port wakeAt : ℕ} (hp : s.phase = .polling port wakeAt) :
      Moves spec s .woken { s with phase := .probing port }
  | resolve {port : ℕ} (hp : s.phase = .probed port true) :
      Moves spec s .resolve { s with phase := .resolved port }
  | noticeExit : Moves spec s .noticeExit { s with exited := true }
  | binds {port : ℕ} (hssh : s.ssh = .connecting port) (hfree : s.listener port = none) :
      Moves spec s .sshBinds { s.listens port (some .ssh) with ssh := .forwarding port }
  | bindFails {port : ℕ} (hssh : s.ssh = .connecting port) :
      Moves spec s .sshBinds { s with ssh := .gone }
  | exitsEarly {port : ℕ} (hssh : s.ssh = .connecting port) :
      Moves spec s .sshExits { s with ssh := .gone }
  | exits {port : ℕ} (hssh : s.ssh = .forwarding port) :
      Moves spec s .sshExits { s.listens port none with ssh := .gone }
  | sshWrites (text : String) : Moves spec s (.sshWrites text) { s with stderr := s.stderr ++ text }
  | foreignBinds {port : ℕ} (hfree : s.listener port = none) :
      Moves spec s (.foreignBinds port) (s.listens port (some .foreign))
  | foreignReleases {port : ℕ} (hforeign : s.listener port = some .foreign) :
      Moves spec s (.foreignReleases port) (s.listens port none)
  | pass (ms : ℕ) : Moves spec s (.pass ms) { s with now := s.now + ms }

/-- Every step takes one of these branches. -/
theorem step_moves {e : Event} (hstep : step spec s e = some t) : Moves spec s e t := by
  cases e with
  | listening answer =>
    obtain ⟨hp, ht⟩ := Option.ite_none_right_eq_some.mp hstep
    split at ht
    · cases ht
      exact .rejected _
    · cases ht
      exact .rejected _
    · obtain ⟨-, ht⟩ := Option.ite_none_right_eq_some.mp ht
      cases ht
      exact .found hp
  | released =>
    simp only [step] at hstep
    split at hstep
    · rename_i port hp
      cases hstep
      exact .released hp
    · cases hstep
  | start =>
    simp only [step] at hstep
    split at hstep
    · rename_i port hp
      cases hstep
      exact .start hp
    · cases hstep
  | accepted =>
    simp only [step] at hstep
    split at hstep
    · rename_i port hp
      obtain ⟨hsome, ht⟩ := Option.ite_none_left_eq_some.mp hstep
      cases ht
      exact .accepted hp hsome
    · cases hstep
  | refused =>
    simp only [step] at hstep
    split at hstep
    · rename_i port hp
      cases hstep
      exact .refused hp
    · cases hstep
  | check =>
    simp only [step] at hstep
    split at hstep
    · rename_i port hp
      split_ifs at hstep with hexited hlate
      · cases hstep
        exact .fails _
      · cases hstep
        exact .fails _
      · cases hstep
        exact .polls hp (Bool.not_eq_true _ ▸ hexited) (Nat.lt_of_not_le hlate)
    · cases hstep
  | woken =>
    simp only [step] at hstep
    split at hstep
    · rename_i port wakeAt hp
      obtain ⟨-, ht⟩ := Option.ite_none_right_eq_some.mp hstep
      cases ht
      exact .woken hp
    · cases hstep
  | resolve =>
    simp only [step] at hstep
    split at hstep
    · rename_i port hp
      cases hstep
      exact .resolve hp
    · cases hstep
  | noticeExit =>
    obtain ⟨-, ht⟩ := Option.ite_none_right_eq_some.mp hstep
    cases ht
    exact .noticeExit
  | sshBinds =>
    simp only [step] at hstep
    split at hstep
    · rename_i port hssh
      split_ifs at hstep with hfree
      · cases hstep
        exact .binds hssh hfree
      · cases hstep
        exact .bindFails hssh
    · cases hstep
  | sshExits =>
    simp only [step] at hstep
    split at hstep
    · rename_i port hssh
      cases hstep
      exact .exitsEarly hssh
    · rename_i port hssh
      cases hstep
      exact .exits hssh
    · cases hstep
  | sshWrites text =>
    obtain ⟨-, ht⟩ := Option.ite_none_left_eq_some.mp hstep
    cases ht
    exact .sshWrites text
  | foreignBinds port =>
    obtain ⟨hfree, ht⟩ := Option.ite_none_right_eq_some.mp hstep
    cases ht
    exact .foreignBinds hfree
  | foreignReleases port =>
    obtain ⟨hforeign, ht⟩ := Option.ite_none_right_eq_some.mp hstep
    cases ht
    exact .foreignReleases hforeign
  | pass ms =>
    cases hstep
    exact .pass ms

/-! ### What holds while nothing interferes -/

/-- Nobody listens on a port but the `ssh` of this call. -/
def Ours (s : Opening) (port : ℕ) : Prop :=
  s.listener port = none ∨ s.listener port = some .ssh

/-- What is known of the port at each step of the call. -/
structure Sound (s : Opening) : Prop where
  ours : ∀ port, Awaits s port → Ours s port
  taken : ∀ port, s.phase = .probed port true → s.listener port = some .ssh

/-- A step of the system: the port stays ours, and the probe that was taken stays with `ssh`. -/
theorem Sound.of_listener (h : Sound s) (hphase : t.phase = s.phase)
    (hawaits : ∀ port, Awaits t port → Awaits s port)
    (hours : ∀ port, Awaits t port → Ours s port → Ours t port)
    (htaken : ∀ port, s.phase = .probed port true → s.listener port = some .ssh →
      t.listener port = some .ssh) : Sound t where
  ours port ha := hours port ha (h.ours port (hawaits port ha))
  taken port hp := by
    rw [hphase] at hp
    exact htaken port hp (h.taken port hp)

/-- A step of the call: the port is known where the call is now. -/
theorem Sound.of_phase (hours : ∀ port, Awaits t port → Ours t port)
    (htaken : ∀ port, t.phase ≠ .probed port true) : Sound t :=
  ⟨hours, fun port hp => absurd hp (htaken port)⟩

@[simp] theorem listens_self (s : Opening) (q : ℕ) (new : Option Owner) :
    (s.listens q new).listener q = new :=
  Function.update_self ..

/-- The other ports stay with who listens on them. -/
theorem listens_ne {port q : ℕ} (hq : port ≠ q) (new : Option Owner) :
    (s.listens q new).listener port = s.listener port :=
  Function.update_of_ne hq ..

/-- A port that is given up, or that `ssh` binds, stays ours. -/
theorem Ours.listens {port : ℕ} (h : Ours s port) {q : ℕ} {new : Option Owner}
    (hnew : new = none ∨ new = some .ssh) : Ours (s.listens q new) port := by
  unfold Ours at *
  by_cases hq : port = q
  · subst hq
    rw [listens_self]
    exact hnew
  · rw [listens_ne hq]
    exact h

/-- A listener stays when a port changes hands that it does not have. -/
theorem listens_keeps {port q : ℕ} {owner : Owner} (new : Option Owner)
    (h : s.listener port = some owner) (hq : s.listener q ≠ some owner) :
    (s.listens q new).listener port = some owner := by
  have hne : port ≠ q := by
    rintro rfl
    exact hq h
  rw [listens_ne hne]
  exact h

/-- An undisturbed step keeps the port. -/
theorem sound_step {e : Event} (h : Sound s) (hcalm : Undisturbed s e)
    (hstep : step spec s e = some t) : Sound t := by
  cases step_moves hstep with
  | rejected | found | fails | resolve =>
    exact .of_phase (fun port ha => ha.elim) fun port hp => by cases hp
  | @released q hp =>
    refine .of_phase (fun port ha => ?_) fun port hp => by cases hp
    -- the port was released, and is free
    cases (show q = port from ha)
    left
    exact listens_self ..
  | start hp =>
    refine .of_phase (fun port ha => ?_) fun port hp => by cases hp
    apply h.ours
    rw [Awaits, hp]
    exact ha
  | @accepted q hp hsome =>
    refine ⟨fun port ha => ha.elim, fun port hport => ?_⟩
    cases hport
    have hours : Ours s q := by
      apply h.ours
      rw [Awaits, hp]
    exact hours.resolve_left hsome
  | refused hp =>
    refine .of_phase (fun port ha => ?_) fun port hp => by cases hp
    apply h.ours
    rw [Awaits, hp]
    exact ha.1
  | polls hp hexited hearly =>
    refine .of_phase (fun port ha => ?_) fun port hp => by cases hp
    apply h.ours
    rw [Awaits, hp]
    exact ⟨ha, hexited, hearly⟩
  | woken hp =>
    refine .of_phase (fun port ha => ?_) fun port hp => by cases hp
    apply h.ours
    rw [Awaits, hp]
    exact ha
  | noticeExit =>
    refine h.of_listener rfl (fun port ha => ?_) (fun port _ ho => ho) fun port _ hl => hl
    unfold Awaits at ha ⊢
    split at ha
    all_goals simp_all
  | binds hssh hfree =>
    exact h.of_listener rfl (fun port ha => ha) (fun port _ ho => ho.listens (.inr rfl))
      fun port _ hl => listens_keeps _ hl (by rw [hfree]; simp)
  | bindFails | exitsEarly | sshWrites =>
    exact h.of_listener rfl (fun port ha => ha) (fun port _ ho => ho) fun port _ hl => hl
  | exits =>
    exact h.of_listener rfl (fun port ha => ha) (fun port _ ho => ho.listens (.inl rfl))
      fun port hp _ => absurd hp (hcalm port)
  | @foreignBinds q hfree =>
    refine h.of_listener rfl (fun port ha => ha) (fun port ha ho => ?_) fun port _ hl =>
      listens_keeps _ hl (by rw [hfree]; simp)
    have hne : port ≠ q := by
      rintro rfl
      exact hcalm ha
    rw [Ours, listens_ne hne]
    exact ho
  | foreignReleases hforeign =>
    exact h.of_listener rfl (fun port ha => ha) (fun port _ ho => ho.listens (.inl rfl))
      fun port _ hl => listens_keeps _ hl (by rw [hforeign]; decide)
  | pass ms =>
    refine h.of_listener rfl (fun port ha => ?_) (fun port _ ho => ho) fun port _ hl => hl
    unfold Awaits at ha ⊢
    split at ha
    all_goals simp_all
    omega

/-- There is no port when the call is made. -/
theorem sound_called (taken : ℕ → Bool) : Sound (.called taken) :=
  .of_phase (fun _ ha => ha.elim) fun _ hp => by cases hp

/-! ### What interference can end in -/

/-- The call can still resolve to a port that its `ssh` does not listen on. -/
def Misleads (spec : Spec) (taken : ℕ → Bool) (s : Opening) : Prop :=
  ∃ es u v, (machine spec taken).runFrom s es = some u ∧ step spec u .resolve = some v ∧ ¬ Own v

variable {taken : ℕ → Bool}

/-- A state that a step leads out of towards a misleading answer. -/
theorem Misleads.cons {e : Event} (h : Misleads spec taken t) (hstep : step spec s e = some t) :
    Misleads spec taken s := by
  obtain ⟨es, u, v, hrun, hres, hown⟩ := h
  refine ⟨e :: es, u, v, ?_, hres, hown⟩
  rw [Machine.runFrom, show (machine spec taken).step s e = some t from hstep]
  exact hrun

/-- A probe that was taken resolves the call, whoever listens now. -/
theorem misleads_probed {port : ℕ} (hp : s.phase = .probed port true)
    (hl : s.listener port ≠ some .ssh) : Misleads spec taken s :=
  ⟨[], s, { s with phase := .resolved port }, rfl, by simp only [step, hp],
    fun hown => hl (hown port rfl)⟩

/-- A probe is taken by another process. -/
theorem misleads_probing {port : ℕ} (hp : s.phase = .probing port)
    (hl : s.listener port = some .foreign) : Misleads spec taken s := by
  have hprobed : Misleads spec taken { s with phase := .probed port true } :=
    misleads_probed rfl (by rw [show _ = _ from hl]; decide)
  apply hprobed.cons (e := .accepted)
  simp only [step, hp]
  rw [if_neg]
  rw [hl]
  simp

/-- The next probe is. -/
theorem misleads_polling {port wakeAt : ℕ} (hp : s.phase = .polling port wakeAt)
    (hl : s.listener port = some .foreign) : Misleads spec taken s := by
  have hprobing : Misleads spec taken { s with now := s.now + wakeAt, phase := .probing port } :=
    misleads_probing rfl hl
  have hwaiting : Misleads spec taken { s with now := s.now + wakeAt } := by
    apply hprobing.cons (e := .woken)
    simp only [step, hp]
    exact if_pos (Nat.le_add_left _ _)
  exact hwaiting.cons (e := .pass wakeAt) rfl

/-- Another process that listens while a probe is to come can be what the forward leads to. -/
theorem misleads_of_foreign {port : ℕ} (ha : Awaits s port)
    (hl : s.listener port = some .foreign) : Misleads spec taken s := by
  unfold Awaits at ha
  split at ha
  · rename_i q hp
    cases ha
    have hprobing : Misleads spec taken { s with
        phase := .probing port
        ssh := .connecting port
        deadline := s.now + spec.readyTimeoutMs } := misleads_probing rfl hl
    apply hprobing.cons (e := .start)
    simp only [step, hp]
  · rename_i hp
    subst ha
    exact misleads_probing hp hl
  · rename_i hp
    subst ha
    exact misleads_polling hp hl
  · rename_i q hp
    obtain ⟨hq, hexited, hearly⟩ := ha
    cases hq
    have hpolling : Misleads spec taken
        { s with phase := .polling port (s.now + spec.readyPollMs) } :=
      misleads_polling rfl hl
    apply hpolling.cons (e := .check)
    simp only [step, hp]
    rw [if_neg (by simp [hexited]), if_neg (Nat.not_le_of_lt hearly)]
  · exact ha.elim

/-- The steps before `ssh` is started. -/
def Early : Phase → Prop
  | .allocating | .releasing _ | .allocated _ => True
  | _ => False

/-- A port `ssh` listens on is the one it forwards, and it listens on none before it starts. -/
structure Held (s : Opening) : Prop where
  holds : ∀ port, s.listener port = some .ssh → s.ssh = .forwarding port
  early : Early s.phase → s.ssh = .unstarted

/-- A step that neither moves `ssh` nor gives it a port. -/
theorem Held.of_same (h : Held s) (hssh : t.ssh = s.ssh)
    (hl : ∀ port, t.listener port = some .ssh → s.listener port = some .ssh)
    (hearly : Early t.phase → Early s.phase) : Held t where
  holds port hp := hssh.trans (h.holds port (hl port hp))
  early he := hssh.trans (h.early (hearly he))

/-- Before it starts, `ssh` listens nowhere. -/
theorem Held.of_unstarted (h : Held s) (hssh : s.ssh = .unstarted) (port : ℕ) :
    s.listener port ≠ some .ssh := by
  intro hl
  cases hssh.symm.trans (h.holds port hl)

/-- A port that is given to anybody else is not given to `ssh`. -/
theorem listens_eq_ssh {port q : ℕ} {new : Option Owner} (hnew : new ≠ some .ssh)
    (h : (s.listens q new).listener port = some .ssh) :
    port ≠ q ∧ s.listener port = some .ssh := by
  have hne : port ≠ q := by
    rintro rfl
    rw [listens_self] at h
    exact hnew h
  rw [listens_ne hne] at h
  exact ⟨hne, h⟩

/-- Each step keeps the port with its `ssh`. -/
theorem held_step {e : Event} (h : Held s) (hstep : step spec s e = some t) : Held t := by
  cases step_moves hstep with
  | rejected | accepted | refused | fails | polls | woken | resolve =>
    exact h.of_same rfl (fun _ hl => hl) fun he => he.elim
  | found hp =>
    refine h.of_same rfl (fun _ hl => (listens_eq_ssh (by decide) hl).2) fun _ => ?_
    rw [hp]
    trivial
  | released hp =>
    refine h.of_same rfl (fun _ hl => (listens_eq_ssh (by decide) hl).2) fun _ => ?_
    rw [hp]
    trivial
  | start hp =>
    have hnone := h.of_unstarted (h.early (by rw [hp]; trivial))
    exact ⟨fun port hl => absurd hl (hnone port), fun he => he.elim⟩
  | noticeExit | sshWrites | pass => exact h.of_same rfl (fun _ hl => hl) id
  | @binds q hssh =>
    refine ⟨fun port hl => ?_, fun he => absurd (h.early he) (by rw [hssh]; simp)⟩
    by_cases hq : port = q
    · rw [hq]
    · cases hssh.symm.trans (h.holds port ((listens_ne hq _).symm.trans hl))
  | bindFails hssh | exitsEarly hssh =>
    refine ⟨fun port hl => ?_, fun he => absurd (h.early he) (by rw [hssh]; simp)⟩
    cases hssh.symm.trans (h.holds port hl)
  | exits hssh =>
    refine ⟨fun port hl => ?_, fun he => absurd (h.early he) (by rw [hssh]; simp)⟩
    obtain ⟨hne, hl⟩ := listens_eq_ssh (by decide) hl
    cases hssh.symm.trans (h.holds port hl)
    exact absurd rfl hne
  | foreignBinds | foreignReleases =>
    exact h.of_same rfl (fun _ hl => (listens_eq_ssh (by decide) hl).2) id

/-- Nothing is held when the call is made. -/
theorem held_called (taken : ℕ → Bool) : Held (.called taken) := by
  refine ⟨fun port hl => ?_, fun _ => rfl⟩
  simp only [Opening.called] at hl
  split at hl
  all_goals cases hl

/-- After `ssh` has exited it listens nowhere. -/
theorem listener_of_sshExits (h : Held s) (hstep : step spec s .sshExits = some t) (port : ℕ) :
    t.phase = s.phase ∧ t.listener port ≠ some .ssh := by
  have hheld := held_step h hstep
  cases step_moves hstep with
  | exitsEarly | exits =>
    refine ⟨rfl, fun hl => ?_⟩
    cases hheld.holds port hl

/-- A step that interferes can end in a misleading answer. -/
theorem misleads_of_disturbed {e : Event} (h : Held s) (hstep : step spec s e = some t)
    (hnot : ¬ Undisturbed s e) : Misleads spec taken t := by
  cases e with
  | foreignBinds port =>
    have ha : Awaits s port := not_not.mp hnot
    cases step_moves hstep
    exact misleads_of_foreign (s := s.listens port (some .foreign)) ha (listens_self s port _)
  | sshExits =>
    obtain ⟨port, hp⟩ := not_forall.mp hnot
    obtain ⟨hphase, hl⟩ := listener_of_sshExits h hstep port
    exact misleads_probed (hphase.trans (not_not.mp hp)) hl
  | _ => exact absurd trivial hnot

/-- For every specification, every set of ports that are taken at first and every run: a call
resolves to a port that the `ssh` it started listens on, when no other process binds the port
while a probe of it is to come and `ssh` does not exit after taking one; and each step that
misses this can be followed by others so that the call resolves to a port its `ssh` does not
listen on. -/
theorem own_tunnel (spec : Spec) (taken : ℕ → Bool) :
    (∀ s t, (machine spec taken).ReachableWhen Undisturbed s →
      step spec s .resolve = some t → Own t) ∧
    ∀ s e t, (machine spec taken).Reachable s → step spec s e = some t → ¬ Undisturbed s e →
      ∃ es u v, (machine spec taken).runFrom t es = some u ∧
        step spec u .resolve = some v ∧ ¬ Own v := by
  constructor
  · intro s t hs hstep
    have hsound : Sound s := hs.invariant (I := Sound) (sound_called taken)
      fun _ _ _ h hcalm hstep => sound_step h hcalm hstep
    cases step_moves hstep with
    | @resolve q hp =>
      intro port hport
      cases hport
      exact hsound.taken q hp
  · intro s e t hs hstep hnot
    have hheld : Held s := hs.invariant (I := Held) (held_called taken)
      fun _ _ _ h _ hstep => held_step h hstep
    exact misleads_of_disturbed hheld hstep hnot

/-- One destination, with the default budget. -/
def hostSpec : Spec := ⟨"host", 15000, 120⟩

/-- Another process binds the port between its release and the start of `ssh`, which exits. -/
def stolenPort : List Event :=
  [.listening (.on 40000), .released, .foreignBinds 40000, .start, .sshBinds, .noticeExit,
    .accepted]

theorem stolenPort_isSome :
    ((machine hostSpec fun _ => false).run stolenPort).isSome = true := by decide

/-- The call as it is once that process has taken the probe. -/
def stolen : Opening := ((machine hostSpec fun _ => false).run stolenPort).get stolenPort_isSome

theorem stolen_resolve : (step hostSpec stolen .resolve).isSome = true := by decide

/-- The forward leads to that process, and its own is known to have exited. -/
theorem foreign_listener : ¬ ∀ (spec : Spec) (taken : ℕ → Bool) (s t : Opening),
    (machine spec taken).Reachable s → step spec s .resolve = some t → Own t := by
  intro h
  have hown := h hostSpec (fun _ => false) stolen _
    (Machine.reachable_get stolenPort stolenPort_isSome) (Option.some_get stolen_resolve).symm
    40000 (by decide)
  revert hown
  decide

end RemoteWorkspace.Analysis.OwnTunnel
