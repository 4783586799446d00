import RemoteWorkspace.Model.ProcessIds

/-!
# What the daemon's signals are addressed to

A teardown first decides to send a signal and then sends it, to a number. The number is still
the range's own when it was at the decision and its last process does not go in between; the
code checks neither for a terminal, and for a managed process it looks at the settled facts,
which come after the leader was reaped. Every signal is addressed to the range's own processes
in the runs that are so timed (`Timely`), and from every other step a run leads to one that is
not.
-/

set_option autoImplicit false

namespace RemoteWorkspace.Analysis.ReapedTargets

open RemoteWorkspace.Computation RemoteWorkspace.Model RemoteWorkspace.Model.ProcessIds
open Subprocess (Leader Signal)

variable {x y : Entry} {s t : Backends}

/-- A `kill` that is addressed to a leader that was not reaped, or to a group in which its range
still has a member. -/
def Kill.Rightful (k : Kill) : Prop := k.number.own k.aim = true

instance (k : Kill) : Decidable (Kill.Rightful k) := inferInstanceAs (Decidable (_ = true))

/-- Every signal that was sent was addressed to its range's own processes. -/
def AllRightful (s : Backends) : Prop := ∀ x ∈ s.entries, ∀ k ∈ x.kills, Kill.Rightful k

instance (s : Backends) : Decidable (AllRightful s) :=
  inferInstanceAs (Decidable (∀ x ∈ s.entries, ∀ k ∈ x.kills, Kill.Rightful k))

/-- A decision to signal is taken while the number is the range's own, and the last process of
an address does not go before the signal is sent: not by leaving, not by being reaped, and not
by the signal turning from the group to a leader that was reaped. -/
def Timely (x : Entry) : Event → Prop
  | .memberExits => ∀ sender aim signal, x.sending sender = some (aim, signal) →
      ({ x.number with others := x.number.others - 1 } : Number).own aim = true
  | .reap => ∀ sender aim signal, x.sending sender = some (aim, signal) →
      ({ x.number with leader := .reaped } : Number).own aim = true
  | .terminate => x.kind = .subprocess → x.terminating = false → x.settled = false →
      x.number.own .group = true
  | .lock => x.number.own .group = true
  | .graceOver => x.ladder = .grace → (x.kind = .subprocess → x.disposed = false ∧ x.settled = false) →
      x.number.own .group = true
  | .dispose => (x.kind = .subprocess → x.disposed = false ∧ x.settled = false ∧
      groupAlive x.number = true) → x.number.own .group = true
  | .kill sender ok => ok = false → ∀ signal, x.sending sender = some (.group, signal) →
      x.number.own .process = true
  | _ => True

/-! ### One entry -/

/-- What is about to be sent is addressed to the range's own processes. -/
def Aimed (x : Entry) : Prop :=
  ∀ sender aim signal, x.sending sender = some (aim, signal) → x.number.own aim = true

/-- What was sent and what is about to be. -/
structure Own (x : Entry) : Prop where
  aimed : Aimed x
  kills : ∀ k ∈ x.kills, Kill.Rightful k

/-- What is about to be sent depends on the two senders. -/
theorem sending_congr (hladder : y.ladder = x.ladder) (hdisposing : y.disposing = x.disposing)
    (sender : Sender) : y.sending sender = x.sending sender := by
  cases sender with
  | ladder => simp only [Entry.sending, hladder]
  | dispose => simp only [Entry.sending, hdisposing]

/-- A change that leaves the senders and the kills alone, and takes no address away. -/
theorem Own.of_same (h : Own x) (hladder : y.ladder = x.ladder)
    (hdisposing : y.disposing = x.disposing) (hkills : y.kills = x.kills)
    (hown : ∀ sender aim signal, x.sending sender = some (aim, signal) →
      x.number.own aim = true → y.number.own aim = true) : Own y := by
  refine ⟨fun sender aim signal hs => ?_, fun k hk => h.kills k (hkills ▸ hk)⟩
  rw [sending_congr hladder hdisposing] at hs
  exact hown sender aim signal hs (h.aimed sender aim signal hs)

/-- A ladder that does not signal. -/
theorem sending_ladder (hsignalling : ∀ aim, x.ladder ≠ .signalling aim)
    (hkilling : ∀ aim, x.ladder ≠ .killing aim) : x.sending .ladder = none := by
  unfold Entry.sending
  cases hl : x.ladder with
  | signalling aim => exact absurd hl (hsignalling aim)
  | killing aim => exact absurd hl (hkilling aim)
  | idle => rfl
  | grace => rfl
  | polling => rfl
  | ended => rfl

/-- After a `signal_group` its sender has nothing to send. -/
theorem sending_sent (x : Entry) (sender : Sender) : (x.sent sender).sending sender = none := by
  cases sender with
  | dispose => rfl
  | ladder =>
    refine sending_ladder (fun aim hl => ?_) (fun aim hl => ?_)
    all_goals
      unfold Entry.sent at hl
      simp only at hl
      split at hl
      · cases hl
      · dsimp only at hl
        split_ifs at hl

theorem sent_kills (x : Entry) (sender : Sender) : (x.sent sender).kills = x.kills := by
  cases sender with
  | dispose => rfl
  | ladder =>
    simp only [Entry.sent]
    split <;> rfl

theorem sent_number (x : Entry) (sender : Sender) : (x.sent sender).number = x.number := by
  cases sender with
  | dispose => rfl
  | ladder =>
    simp only [Entry.sent]
    split <;> rfl

/-- The other sender goes on as before. -/
theorem sent_other {x : Entry} {sender sender' : Sender} (hne : sender' ≠ sender) :
    (x.sent sender).sending sender' = x.sending sender' := by
  cases sender with
  | dispose =>
    cases sender' with
    | dispose => exact absurd rfl hne
    | ladder => rfl
  | ladder =>
    cases sender' with
    | ladder => exact absurd rfl hne
    | dispose =>
      simp only [Entry.sent]
      split <;> rfl

/-- A sender that falls back sends to the process. -/
theorem fallBack_sending {sender : Sender} {aim : Aim} {signal : Signal}
    (hs : x.sending sender = some (aim, signal)) :
    (x.fallBack sender).sending sender = some (.process, signal) := by
  cases sender with
  | dispose =>
    obtain ⟨aim', hd, heq⟩ := Option.map_eq_some_iff.mp hs
    cases heq
    rfl
  | ladder =>
    unfold Entry.sending at hs
    unfold Entry.fallBack Entry.sending
    cases hl : x.ladder <;> rw [hl] at hs <;> cases hs <;> rfl

theorem fallBack_kills (x : Entry) (sender : Sender) : (x.fallBack sender).kills = x.kills := by
  cases sender with
  | dispose => rfl
  | ladder =>
    simp only [Entry.fallBack]
    split <;> rfl

theorem fallBack_number (x : Entry) (sender : Sender) : (x.fallBack sender).number = x.number := by
  cases sender with
  | dispose => rfl
  | ladder =>
    simp only [Entry.fallBack]
    split <;> rfl

theorem fallBack_other {x : Entry} {sender sender' : Sender} (hne : sender' ≠ sender) :
    (x.fallBack sender).sending sender' = x.sending sender' := by
  cases sender with
  | dispose =>
    cases sender' with
    | dispose => exact absurd rfl hne
    | ladder => rfl
  | ladder =>
    cases sender' with
    | ladder => exact absurd rfl hne
    | dispose =>
      simp only [Entry.fallBack]
      split <;> rfl

/-- One sender moves on, and what it is about to send is addressed to the range's own. -/
theorem Own.of_sender (h : Own x) (sender : Sender) (hnumber : y.number = x.number)
    (hkills : y.kills = x.kills)
    (hother : ∀ sender', sender' ≠ sender → y.sending sender' = x.sending sender')
    (hsender : ∀ aim signal, y.sending sender = some (aim, signal) → x.number.own aim = true) :
    Own y := by
  refine ⟨fun sender' aim signal hs => ?_, fun k hk => h.kills k (hkills ▸ hk)⟩
  rw [hnumber]
  by_cases hne : sender' = sender
  · exact hsender aim signal (hne ▸ hs)
  · exact h.aimed sender' aim signal ((hother sender' hne).symm.trans hs)

/-- The ladder moves on. -/
theorem Own.of_ladder (h : Own x) (hnumber : y.number = x.number) (hkills : y.kills = x.kills)
    (hdisposing : y.disposing = x.disposing)
    (hladder : ∀ aim signal, y.sending .ladder = some (aim, signal) → x.number.own aim = true) :
    Own y := by
  refine h.of_sender .ladder hnumber hkills (fun sender hne => ?_) hladder
  cases sender with
  | ladder => exact absurd rfl hne
  | dispose => simp only [Entry.sending, hdisposing]

/-- `dispose` moves on. -/
theorem Own.of_dispose (h : Own x) (hnumber : y.number = x.number) (hkills : y.kills = x.kills)
    (hladder : y.ladder = x.ladder)
    (hdispose : ∀ aim signal, y.sending .dispose = some (aim, signal) → x.number.own aim = true) :
    Own y := by
  refine h.of_sender .dispose hnumber hkills (fun sender hne => ?_) hdispose
  cases sender with
  | dispose => exact absurd rfl hne
  | ladder => simp only [Entry.sending, hladder]

/-- The entry with one more `kill` sent. -/
def logged (x : Entry) (aim : Aim) (signal : Signal) : Entry :=
  { x with kills := x.kills ++ [Kill.mk aim signal x.number] }

/-- What was sent last. -/
theorem mem_logged (x : Entry) (aim : Aim) (signal : Signal) :
    Kill.mk aim signal x.number ∈ (logged x aim signal).kills :=
  List.mem_append_right _ (List.mem_singleton_self _)

/-- One `kill` at a time. -/
theorem Own.kill (h : Own x) {sender : Sender} {ok : Bool}
    (htimely : Timely x (.kill sender ok)) (hkill : x.kill sender ok = some y) : Own y := by
  unfold Entry.kill at hkill
  cases hs : x.sending sender with
  | none =>
    rw [hs] at hkill
    cases hkill
  | some sent =>
    obtain ⟨aim, signal⟩ := sent
    have hright := h.aimed sender aim signal hs
    -- the kill is rightful, whatever follows it
    have hlogged : Own (logged x aim signal) := by
      refine ⟨fun sender' aim' signal' hs' => h.aimed sender' aim' signal' hs', fun k hk => ?_⟩
      rcases List.mem_append.mp hk with hold | hnew
      · exact h.kills k hold
      · rw [List.mem_singleton.mp hnew]
        exact hright
    have hsent : Own ((logged x aim signal).sent sender) := by
      refine hlogged.of_sender sender (sent_number ..) (sent_kills ..) (fun _ => sent_other)
        fun aim' signal' hs' => ?_
      rw [sending_sent] at hs'
      cases hs'
    rw [hs] at hkill
    cases aim with
    | process =>
      simp only [Option.some.injEq] at hkill
      exact hkill ▸ hsent
    | group =>
      simp only at hkill
      split at hkill
      · split at hkill
        · rw [Option.some.injEq] at hkill
          exact hkill ▸ hsent
        · cases hkill
      · rename_i hok
        rw [Option.some.injEq] at hkill
        subst hkill
        refine hlogged.of_sender sender (fallBack_number ..) (fallBack_kills ..)
          (fun _ => fallBack_other) fun aim' signal' hs' => ?_
        have hprocess : x.number.own .process = true := htimely (by simpa using hok) signal hs
        have hfall := fallBack_sending (x := logged x .group signal) hs
        cases hfall.symm.trans hs'
        exact hprocess

/-- What each event does to an entry, by the branch that it takes. -/
inductive Moves (x : Entry) : Event → Entry → Prop
  | fork (hlive : x.number.leader = .running ∨ 0 < x.number.others) :
      Moves x .fork { x with number := { x.number with others := x.number.others + 1 } }
  | memberExits (hmember : 0 < x.number.others) :
      Moves x .memberExits { x with number := { x.number with others := x.number.others - 1 } }
  | childExits (hrunning : x.number.leader = .running) :
      Moves x .childExits { x with number := { x.number with leader := .zombie } }
  | reap (hzombie : x.number.leader = .zombie) :
      Moves x .reap { x with number := { x.number with leader := .reaped }, waited := true }
  | waitFails : Moves x .waitFails { x with waited := true }
  | strangers {strangers : Strangers} (hgone : ¬ x.number.own .group = true) :
      Moves x (.strangers strangers) { x with number := { x.number with strangers } }
  | settle : Moves x .settle { x with settled := true }
  | terminateProcess (hkind : x.kind = .subprocess) : Moves x .terminate (terminateProcess x)
  | terminateTerminal (hkind : x.kind = .terminal) :
      Moves x .terminate { x with callers := x.callers + 1 }
  | lock : Moves x .lock { x with callers := x.callers - 1, ladder := .signalling .group }
  | sessionGone : Moves x .sessionGone { x with ladder := .idle }
  | escalate (hkind : x.kind = .subprocess) (hladder : x.ladder = .grace) :
      Moves x .graceOver (escalate x)
  | outlives (hkind : x.kind = .terminal) (hladder : x.ladder = .grace) :
      Moves x .graceOver { x with ladder := .killing .group }
  | givesUp (hladder : x.ladder = .polling) : Moves x .graceOver { x with ladder := .idle }
  | disposeProcess (hkind : x.kind = .subprocess) : Moves x .dispose (disposeProcess x)
  | disposeTerminal (hkind : x.kind = .terminal) : Moves x .dispose (disposeTerminal x)
  | kill {sender : Sender} {ok : Bool} {y : Entry} (hkill : x.kill sender ok = some y) :
      Moves x (.kill sender ok) y

/-- Every step takes one of these branches. -/
theorem step_moves {e : Event} (hstep : step x e = some y) : Moves x e y := by
  cases e with
  | fork =>
    obtain ⟨hlive, hy⟩ := Option.ite_none_right_eq_some.mp hstep
    cases hy
    exact .fork hlive
  | memberExits =>
    obtain ⟨hmember, hy⟩ := Option.ite_none_right_eq_some.mp hstep
    cases hy
    exact .memberExits hmember
  | childExits =>
    obtain ⟨hrunning, hy⟩ := Option.ite_none_right_eq_some.mp hstep
    cases hy
    exact .childExits hrunning
  | reap =>
    obtain ⟨hzombie, hy⟩ := Option.ite_none_right_eq_some.mp hstep
    cases hy
    exact .reap hzombie.2
  | waitFails =>
    obtain ⟨-, hy⟩ := Option.ite_none_right_eq_some.mp hstep
    cases hy
    exact .waitFails
  | strangers strangers =>
    obtain ⟨hgone, hy⟩ := Option.ite_none_left_eq_some.mp hstep
    cases hy
    exact .strangers hgone
  | settle =>
    obtain ⟨-, hy⟩ := Option.ite_none_right_eq_some.mp hstep
    cases hy
    exact .settle
  | terminate =>
    simp only [step] at hstep
    split at hstep
    · rename_i hkind
      obtain ⟨-, hy⟩ := Option.ite_none_right_eq_some.mp hstep
      cases hy
      exact .terminateProcess hkind
    · rename_i hkind
      obtain ⟨-, hy⟩ := Option.ite_none_right_eq_some.mp hstep
      cases hy
      exact .terminateTerminal hkind
  | lock =>
    obtain ⟨-, hy⟩ := Option.ite_none_right_eq_some.mp hstep
    cases hy
    exact .lock
  | sessionGone =>
    obtain ⟨-, hy⟩ := Option.ite_none_right_eq_some.mp hstep
    cases hy
    exact .sessionGone
  | graceOver =>
    simp only [step] at hstep
    split at hstep
    · rename_i hkind hladder
      obtain ⟨-, hy⟩ := Option.ite_none_right_eq_some.mp hstep
      cases hy
      exact .escalate hkind hladder
    · rename_i hkind hladder
      obtain ⟨-, hy⟩ := Option.ite_none_right_eq_some.mp hstep
      cases hy
      exact .outlives hkind hladder
    · rename_i hladder
      obtain ⟨-, hy⟩ := Option.ite_none_right_eq_some.mp hstep
      cases hy
      exact .givesUp hladder
    · cases hstep
  | dispose =>
    obtain ⟨-, hy⟩ := Option.ite_none_right_eq_some.mp hstep
    split at hy
    · rename_i hkind
      cases hy
      exact .disposeProcess hkind
    · rename_i hkind
      cases hy
      exact .disposeTerminal hkind
  | kill sender ok => exact .kill hstep

/-- An event of one entry that is timed well. -/
theorem own_step {e : Event} (h : Own x) (htimely : Timely x e) (hstep : step x e = some y) :
    Own y := by
  cases step_moves hstep with
  | fork =>
    refine h.of_same rfl rfl rfl fun sender aim signal hs hown => ?_
    cases aim with
    | group =>
      simp only [Number.own, decide_eq_true_eq] at hown ⊢
      exact hown.imp_right fun hpos => Nat.succ_pos _
    | process => exact hown
  | memberExits =>
    exact h.of_same rfl rfl rfl fun sender aim signal hs _ => htimely sender aim signal hs
  | childExits =>
    refine h.of_same rfl rfl rfl fun sender aim signal hs hown => ?_
    cases aim <;> simp [Number.own]
  | reap =>
    exact h.of_same rfl rfl rfl fun sender aim signal hs _ => htimely sender aim signal hs
  | waitFails => exact h.of_same rfl rfl rfl fun _ _ _ _ hown => hown
  | strangers =>
    refine h.of_same rfl rfl rfl fun sender aim signal hs hown => ?_
    cases aim <;> exact hown
  | settle => exact h.of_same rfl rfl rfl fun _ _ _ _ hown => hown
  | terminateProcess hkind =>
    unfold terminateProcess
    split_ifs with hover
    · exact h
    · rw [not_or, Bool.not_eq_true, Bool.not_eq_true] at hover
      refine h.of_ladder rfl rfl rfl fun aim signal hs => ?_
      cases hs
      exact htimely hkind hover.1 hover.2
  | terminateTerminal hkind => exact h.of_same rfl rfl rfl fun _ _ _ _ hown => hown
  | lock =>
    refine h.of_ladder rfl rfl rfl fun aim signal hs => ?_
    cases hs
    exact htimely
  | sessionGone => exact h.of_ladder rfl rfl rfl fun aim signal hs => by cases hs
  | escalate hkind hladder =>
    unfold escalate
    split_ifs with hgo
    · refine h.of_ladder rfl rfl rfl fun aim signal hs => ?_
      cases hs
      exact htimely hladder fun _ => hgo
    · exact h.of_ladder rfl rfl rfl fun aim signal hs => by cases hs
  | outlives hkind hladder =>
    refine h.of_ladder rfl rfl rfl fun aim signal hs => ?_
    cases hs
    exact htimely hladder fun hk => absurd (hk.symm.trans hkind) (by decide)
  | givesUp => exact h.of_ladder rfl rfl rfl fun aim signal hs => by cases hs
  | disposeProcess =>
    unfold disposeProcess
    split_ifs with hdisposed hsettled halive
    · exact h.of_same rfl rfl rfl fun _ _ _ _ hown => hown
    · exact h.of_same rfl rfl rfl fun _ _ _ _ hown => hown
    · refine h.of_dispose rfl rfl rfl fun aim signal hs => ?_
      cases hs
      rw [Bool.not_eq_true] at hdisposed hsettled
      exact htimely fun _ => ⟨hdisposed, hsettled, halive⟩
    · exact h.of_same rfl rfl rfl fun _ _ _ _ hown => hown
  | disposeTerminal hkind =>
    refine h.of_dispose rfl rfl rfl fun aim signal hs => ?_
    cases hs
    exact htimely fun hk => absurd (hk.symm.trans hkind) (by decide)
  | kill hkill => exact h.kill htimely hkill

/-- After an event that is not timed well, something is about to be sent to a number that is
not the range's own. -/
theorem not_aimed_of_not_timely {e : Event} (hnot : ¬ Timely x e) (hstep : step x e = some y) :
    ¬ Aimed y := by
  intro haimed
  apply hnot
  cases step_moves hstep with
  | memberExits => exact fun sender aim signal hs => haimed sender aim signal hs
  | reap => exact fun sender aim signal hs => haimed sender aim signal hs
  | terminateProcess =>
    intro _ hterminating hsettled
    have hgo : ¬ (x.terminating = true ∨ x.settled = true) := by simp [hterminating, hsettled]
    rw [terminateProcess, if_neg hgo] at haimed
    exact haimed .ladder .group .sigterm rfl
  | terminateTerminal hkind =>
    intro hprocess
    cases hkind.symm.trans hprocess
  | lock => exact haimed .ladder .group .sigterm rfl
  | escalate hkind =>
    intro _ hopen
    rw [escalate, if_pos (hopen hkind)] at haimed
    exact haimed .ladder .group .sigkill rfl
  | outlives =>
    intro _ _
    exact haimed .ladder .group .sigkill rfl
  | givesUp hpolling =>
    intro hladder
    cases hladder.symm.trans hpolling
  | disposeProcess hkind =>
    intro hopen
    obtain ⟨hdisposed, hsettled, halive⟩ := hopen hkind
    rw [disposeProcess, if_neg (by simp [hdisposed]), if_neg (by simp [hsettled]),
      if_pos halive] at haimed
    exact haimed .dispose .group .sigkill rfl
  | disposeTerminal =>
    intro _
    exact haimed .dispose .group .sigkill rfl
  | @kill sender ok y hkill =>
    intro hok signal hs
    subst hok
    simp only [Entry.kill, hs, Bool.false_eq_true, if_false, Option.some.injEq] at hkill
    subst hkill
    have hown := haimed sender .process signal
      (fallBack_sending (x := logged x .group signal) hs)
    rwa [fallBack_number] at hown
  | fork => trivial
  | childExits => trivial
  | waitFails => trivial
  | strangers => trivial
  | settle => trivial
  | sessionGone => trivial

/-! ### Whom a signal reaches -/

/-- A number is nobody else's while it is the range's own. -/
def Apart (number : Number) : Prop := number.own .group = true → number.strangers = ⟨false, 0⟩

/-- So it was at every signal, and is now. -/
structure KeptApart (x : Entry) : Prop where
  now : Apart x.number
  sent : ∀ k ∈ x.kills, Apart k.number

/-- A signal to the range's own reaches nobody else. -/
theorem reaches_eq_zero {k : Kill} (happart : Apart k.number) (hright : Kill.Rightful k) :
    k.reaches = 0 := by
  have hgroup : k.number.own .group = true := by
    unfold Kill.Rightful at hright
    cases haim : k.aim with
    | group => rwa [haim] at hright
    | process =>
      rw [haim] at hright
      simp only [Number.own, decide_eq_true_eq] at hright ⊢
      exact .inl hright
  unfold Kill.reaches
  rw [happart hgroup]
  cases k.aim <;> rfl

/-- A change of the number alone. -/
theorem KeptApart.of_number (h : KeptApart x) {number : Number} (happart : Apart number) :
    KeptApart { x with number } := ⟨happart, h.sent⟩

/-- One more signal. -/
theorem KeptApart.kill (h : KeptApart x) {sender : Sender} {ok : Bool}
    (hkill : x.kill sender ok = some y) : KeptApart y := by
  unfold Entry.kill at hkill
  split at hkill
  · cases hkill
  · rename_i aim signal hs
    have hlogged : KeptApart (logged x aim signal) := by
      refine ⟨h.now, fun k hk => ?_⟩
      rcases List.mem_append.mp hk with hold | hnew
      · exact h.sent k hold
      · rw [List.mem_singleton.mp hnew]
        exact h.now
    have hsent : KeptApart ((logged x aim signal).sent sender) := by
      refine ⟨?_, fun k hk => hlogged.sent k ?_⟩
      · rw [sent_number]
        exact hlogged.now
      · rwa [sent_kills] at hk
    have hfall : KeptApart ((logged x aim signal).fallBack sender) := by
      refine ⟨?_, fun k hk => hlogged.sent k ?_⟩
      · rw [fallBack_number]
        exact hlogged.now
      · rwa [fallBack_kills] at hk
    simp only at hkill
    split at hkill
    · cases hkill
      exact hsent
    · split_ifs at hkill <;> cases hkill
      · exact hsent
      · exact hfall

/-- Every event keeps the number apart: the kernel gives it out only when the range is gone. -/
theorem keptApart_step {e : Event} (h : KeptApart x) (hstep : step x e = some y) :
    KeptApart y := by
  cases step_moves hstep with
  | fork hlive =>
    refine h.of_number fun _ => h.now ?_
    simp only [Number.own, decide_eq_true_eq]
    exact hlive.imp_left fun hrunning => by rw [hrunning]; decide
  | memberExits hmember =>
    refine h.of_number fun _ => h.now ?_
    simp only [Number.own, decide_eq_true_eq]
    exact .inr hmember
  | childExits hrunning =>
    refine h.of_number fun _ => h.now ?_
    simp only [Number.own, hrunning, decide_eq_true_eq]
    exact .inl (by decide)
  | reap hzombie =>
    refine ⟨fun _ => h.now ?_, h.sent⟩
    simp only [Number.own, hzombie, decide_eq_true_eq]
    exact .inl (by decide)
  | strangers hgone => exact h.of_number fun hown => absurd hown hgone
  | terminateProcess =>
    unfold terminateProcess
    split_ifs
    · exact h
    · exact ⟨h.now, h.sent⟩
  | escalate =>
    unfold escalate
    split_ifs
    · exact ⟨h.now, h.sent⟩
    · exact ⟨h.now, h.sent⟩
  | disposeProcess =>
    unfold disposeProcess
    split_ifs
    all_goals exact ⟨h.now, h.sent⟩
  | kill hkill => exact h.kill hkill
  | _ => exact ⟨h.now, h.sent⟩

/-- What is about to be sent can be sent next. -/
theorem exists_kill (hnot : ¬ Aimed x) :
    ∃ sender y, step x (.kill sender false) = some y ∧ ∃ k ∈ y.kills, ¬ Kill.Rightful k := by
  unfold Aimed at hnot
  push Not at hnot
  obtain ⟨sender, aim, signal, hs, hown⟩ := hnot
  have hwrong : ¬ Kill.Rightful (Kill.mk aim signal x.number) := hown
  cases aim with
  | process =>
    have hstep : step x (.kill sender false) = some ((logged x .process signal).sent sender) := by
      simp only [step, Entry.kill, hs]
      rfl
    refine ⟨sender, _, hstep, _, ?_, hwrong⟩
    rw [sent_kills]
    exact mem_logged ..
  | group =>
    have hstep : step x (.kill sender false) = some ((logged x .group signal).fallBack sender) := by
      simp only [step, Entry.kill, hs, Bool.false_eq_true, if_false]
      rfl
    refine ⟨sender, _, hstep, _, ?_, hwrong⟩
    rw [fallBack_kills]
    exact mem_logged ..

/-! ### The backends -/

/-- An event of the backends that is timed well. -/
def TimelyAt (s : Backends) : BackendEvent → Prop
  | .entry i e => ∀ x, s.entries[i]? = some x → Timely x e
  | _ => True

/-- What holds of every entry at the start, and is kept by its own events and wherever it is
placed, is kept by every step of the backends. -/
theorem forall_step {I : Entry → Prop} {e : BackendEvent} (h : ∀ x ∈ s.entries, I x)
    (hstarted : ∀ kind, I (.started kind)) (hplace : ∀ x place, I x → I { x with place })
    (hown : ∀ i e' x y, e = .entry i e' → s.entries[i]? = some x → step x e' = some y → I x → I y)
    (hstep : backendsStep s e = some t) : ∀ x ∈ t.entries, I x := by
  have hupdate : ∀ {i : ℕ} {f : Entry → Option Entry},
      (∀ x y, s.entries[i]? = some x → f x = some y → I x → I y) → s.update i f = some t →
        ∀ x ∈ t.entries, I x := by
    intro i f hf hmoved z hz
    obtain ⟨x, hx, hy⟩ := Option.bind_eq_some_iff.mp hmoved
    obtain ⟨y, hfy, rfl⟩ := Option.map_eq_some_iff.mp hy
    rcases List.mem_or_eq_of_mem_set hz with hold | rfl
    · exact h z hold
    · exact hf x z hx hfy (h x (List.mem_of_getElem? hx))
  cases e with
  | spawn kind =>
    cases hstep
    intro x hx
    rcases List.mem_append.mp hx with hold | hnew
    · exact h x hold
    · rw [List.mem_singleton.mp hnew]
      exact hstarted kind
  | enter i =>
    refine hupdate (fun x y _ hy hx => ?_) hstep
    unfold Entry.enter at hy
    split at hy <;> cases hy
    exact hplace x _ hx
  | close =>
    simp only [backendsStep] at hstep
    split at hstep
    · cases hstep
    · cases hstep
      intro x hx
      obtain ⟨before, hbefore, rfl⟩ := List.mem_map.mp hx
      unfold Entry.drain
      split
      · exact hplace before _ (h before hbefore)
      · exact h before hbefore
  | entry i e' => exact hupdate (fun x y hx hy hI => hown i e' x y rfl hx hy hI) hstep

/-- An entry whose child was just started has sent nothing. -/
theorem own_started (kind : Kind) : Own (.started kind) := by
  refine ⟨fun sender aim signal hs => ?_, fun k hk => by cases hk⟩
  cases sender <;> cases hs

/-- A run that is timed well keeps every entry's signals its own. -/
theorem own_of_timely (hs : backends.ReachableWhen TimelyAt s) : ∀ x ∈ s.entries, Own x := by
  refine hs.invariant (I := fun s => ∀ x ∈ s.entries, Own x) (fun x hx => by cases hx)
    fun s e t h htimely hstep => ?_
  refine forall_step h own_started (fun x place hx => ?_) (fun i e' x y he hi hy hx => ?_) hstep
  · exact hx.of_same rfl rfl rfl fun _ _ _ _ hown => hown
  · subst he
    exact own_step hx (htimely x hi) hy

/-- Every run keeps the numbers of the ranges apart from those of others. -/
theorem keptApart_of_timely (hs : backends.ReachableWhen TimelyAt s) :
    ∀ x ∈ s.entries, KeptApart x := by
  refine hs.invariant (I := fun s => ∀ x ∈ s.entries, KeptApart x) (fun x hx => by cases hx)
    fun s e t h _ hstep => ?_
  refine forall_step h (fun kind => ⟨fun _ => rfl, fun k hk => by cases hk⟩)
    (fun x place hx => ⟨hx.now, hx.sent⟩) (fun i e' x y _ _ hy hx => ?_) hstep
  exact keptApart_step hx hy

/-- In every run whose steps are all timed well, each `kill` of a range is addressed to a
leader that was not reaped or to a group in which the range still has a member, and reaches
nobody else; and from every other step of a run, one leads to a `kill` that is not. -/
theorem kills_rightful (s : Backends) :
    (backends.ReachableWhen TimelyAt s →
        AllRightful s ∧ ∀ x ∈ s.entries, ∀ k ∈ x.kills, k.reaches = 0) ∧
      ∀ e t, backends.Reachable s → backendsStep s e = some t → ¬ TimelyAt s e →
        ∃ es u, backends.runFrom t es = some u ∧ ¬ AllRightful u := by
  constructor
  · intro hs
    have hright : AllRightful s := fun x hx => (own_of_timely hs x hx).kills
    refine ⟨hright, fun x hx k hk => ?_⟩
    exact reaches_eq_zero ((keptApart_of_timely hs x hx).sent k hk) (hright x hx k hk)
  · intro e t _ hstep hnot
    cases e with
    | spawn kind => exact absurd trivial hnot
    | enter i => exact absurd trivial hnot
    | close => exact absurd trivial hnot
    | entry i e =>
      obtain ⟨x, hx, hy⟩ := Option.bind_eq_some_iff.mp hstep
      obtain ⟨y, hfy, rfl⟩ := Option.map_eq_some_iff.mp hy
      have hnot' : ¬ Timely x e := fun htimely => hnot fun x' hx' => by
        rw [hx] at hx'
        cases hx'
        exact htimely
      obtain ⟨sender, z, hz, k, hk, hwrong⟩ := exists_kill (not_aimed_of_not_timely hnot' hfy)
      have hi : i < s.entries.length := (List.getElem?_eq_some_iff.mp hx).1
      have hat : ({ s with entries := s.entries.set i y } : Backends).entries[i]? = some y := by
        rw [List.getElem?_set_self hi]
      refine ⟨[.entry i (.kill sender false)],
        { s with entries := (s.entries.set i y).set i z }, ?_, fun hall => ?_⟩
      · have hnext : backends.step { s with entries := s.entries.set i y }
            (.entry i (.kill sender false)) =
              some { s with entries := (s.entries.set i y).set i z } := by
          show Backends.update _ _ _ = _
          rw [Backends.update, hat, Option.bind_some, hz]
          rfl
        rw [Machine.runFrom, hnext]
        rfl
      · have hmem : z ∈ (s.entries.set i y).set i z := by
          refine List.mem_of_getElem? (i := i) ?_
          rw [List.getElem?_set_self (by rw [List.length_set]; exact hi)]
        exact hwrong (hall z hmem k hk)

/-- The shell of a terminal exits and is reaped, its number goes to somebody else's process
group, and the connection closes. -/
def reusedRun : List BackendEvent :=
  [.spawn .terminal, .enter 0, .entry 0 .childExits, .entry 0 .reap,
    .entry 0 (.strangers ⟨true, 3⟩), .close, .entry 0 .dispose, .entry 0 (.kill .dispose true)]

theorem reusedRun_isSome : (backends.run reusedRun).isSome = true := by decide

/-- The other group is killed. -/
theorem strangers_killed : ¬ ∀ s, backends.Reachable s → AllRightful s := by
  intro h
  have hall := h _ (Machine.reachable_get reusedRun reusedRun_isSome)
  revert hall
  decide

end RemoteWorkspace.Analysis.ReapedTargets
