import RemoteWorkspace.Analysis.DefaultTail
import RemoteWorkspace.Model.TerminalWaits

/-!
# Waits settle once

A check that is still to be called belongs to a wait that is not answered: calls come from a
snapshot of the waiters that are registered, each once, and nothing but the calls themselves runs
between them. So an answer is the first of its wait, and it takes the check, the timer and the
listener with it. A wait without an answer has its timer, once its call has returned, and the
timer answers it if nothing else does.
-/

set_option autoImplicit false

namespace RemoteWorkspace.Analysis.SettledWaits

open RemoteWorkspace.Computation RemoteWorkspace.Model RemoteWorkspace.Model.TerminalWaits
open RemoteWorkspace.Model.TerminalRegistry (Options Test TerminalEntry TerminalWait
  TerminalWaitRequest)

variable {options : Options} {compile : String → Except String Test} {s t : State}

/-- What a wait answers says that its matcher matched only if that accepts the text. -/
def Accepts (w : Wait) (answer : Except String TerminalWait) : Prop :=
  ∀ outcome, answer = .ok outcome →
    (outcome.reason = .matched ↔ outcome.matched = true) ∧
      (outcome.reason = .matched → w.test outcome.text = true)

/-- How wait `i` stands, with these calls still to be made: it is answered once at most; without
an answer its check is registered and its timer armed, or about to be; with an answer nothing of
it is left. -/
structure Tidy (calls : List Call) (i : ℕ) (w : Wait) : Prop where
  once : w.answers.length ≤ 1
  accepts : ∀ answer ∈ w.answers, Accepts w answer
  held : w.answers = [] → w.registered = true ∧ (w.timer = true ∨ .arm i ∈ calls)
  released : w.answers ≠ [] → w.registered = false ∧ w.timer = false ∧ w.listener = false

/-- All waits are tidy, and the checks still to be called are each of a wait that is not
answered, and no two of the same. -/
structure Sound (s : State) : Prop where
  tidy : ∀ i w, s.waits[i]? = some w → Tidy s.calls i w
  nodup : s.calls.Nodup
  unanswered : ∀ i, .check i ∈ s.calls → ∃ w, s.waits[i]? = some w ∧ w.answers = []

/-! ### One wait -/

variable {calls : List Call} {i : ℕ} {w : Wait}

/-- A wait that holds anything is not answered. -/
theorem Tidy.unanswered (h : Tidy calls i w)
    (hholds : w.registered = true ∨ w.timer = true ∨ w.listener = true) : w.answers = [] := by
  by_contra hanswered
  obtain ⟨hregistered, htimer, hlistener⟩ := h.released hanswered
  rw [hregistered, htimer, hlistener] at hholds
  simp at hholds

/-- The first answer of a wait. -/
theorem tidy_settle {answer : Except String TerminalWait} (h : w.answers = [])
    (haccepts : Accepts w answer) : Tidy calls i (w.settle answer) := by
  have hanswers : (w.settle answer).answers = [answer] := by
    rw [Wait.settle, h, List.nil_append]
  refine ⟨?_, ?_, fun hnone => ?_, fun _ => ⟨rfl, rfl, rfl⟩⟩
  · rw [hanswers, List.length_singleton]
  · rw [hanswers]
    exact fun a ha => List.mem_singleton.mp ha ▸ haccepts
  · rw [hanswers] at hnone
    cases hnone

/-- Calls that are made or come to be leave a wait tidy that has its timer, or whose timer they
still arm. -/
theorem Tidy.recall {calls' : List Call} (h : Tidy calls i w)
    (harm : w.timer = true ∨ .arm i ∈ calls → w.timer = true ∨ .arm i ∈ calls') :
    Tidy calls' i w :=
  ⟨h.once, h.accepts, fun hnone => ⟨(h.held hnone).1, harm (h.held hnone).2⟩, h.released⟩

/-- A check says that the matcher matched only if it did. -/
theorem accepts_check {entry : TerminalEntry} {aborted : Option (Option String)}
    {answer : Except String TerminalWait}
    (h : entry.check w.start w.test aborted = some answer) : Accepts w answer := by
  rintro outcome rfl
  obtain ⟨htext, -, hmatched, hreason⟩ := DefaultTail.check_ok h
  refine ⟨hreason, fun hr => ?_⟩
  rw [htext, ← hmatched]
  exact hreason.mp hr

/-- A check leaves a wait as it is or answers it. -/
theorem tidy_check (h : Tidy calls i w) (hnone : w.answers = []) :
    Tidy calls i (Wait.check s w) := by
  unfold Wait.check
  split
  · exact h
  · rename_i answer hanswer
    exact tidy_settle hnone (accepts_check hanswer)

/-- The end of a `wait`. -/
theorem tidy_arm (h : Tidy calls i w) : Tidy calls i w.arm := by
  unfold Wait.arm
  split
  · rename_i hregistered
    have hnone := h.unanswered (.inl hregistered)
    exact ⟨h.once, h.accepts, fun _ => ⟨hregistered, .inl rfl⟩, fun hsome => absurd hnone hsome⟩
  · exact h

/-- An abort leaves a wait as it is or answers it. -/
theorem tidy_abort (h : Tidy calls i w) : Tidy calls i (Wait.abort s w) := by
  unfold Wait.abort
  split
  · rename_i hlistener
    exact tidy_settle (h.unanswered (.inr (.inr hlistener))) fun outcome heq => by cases heq
  · exact h

/-- A timer that fires answers its wait. -/
theorem tidy_timeout (h : Tidy calls i w) (htimer : w.timer = true) :
    Tidy calls i (Wait.timeout s w) := by
  refine tidy_settle (h.unanswered (.inr (.inl htimer))) ?_
  rintro outcome heq
  obtain rfl := Except.ok.inj heq
  exact ⟨by simp [TerminalEntry.finish], fun hr => by cases hr⟩

/-! ### All waits -/

/-- One wait is changed, and the calls go on: it stays tidy, and so do the others. -/
theorem tidy_modify {calls' : List Call} {waits : List Wait} {j : ℕ} {f : Wait → Wait}
    (h : ∀ i w, waits[i]? = some w → Tidy calls i w)
    (hself : ∀ w, waits[j]? = some w → Tidy calls' j (f w))
    (hothers : ∀ i w, i ≠ j → Tidy calls i w → Tidy calls' i w) :
    ∀ i w, (waits.modify j f)[i]? = some w → Tidy calls' i w := by
  intro i w hw
  rw [List.getElem?_modify] at hw
  by_cases hij : j = i
  · subst hij
    obtain ⟨v, hv, rfl⟩ := Option.map_eq_some_iff.mp hw
    rw [if_pos rfl]
    exact hself v hv
  · obtain ⟨v, hv, rfl⟩ := Option.map_eq_some_iff.mp hw
    rw [if_neg hij]
    exact hothers i v (Ne.symm hij) (h i v hv)

/-- The waits that meet a condition. -/
theorem mem_which {p : Wait → Bool} : i ∈ s.which p ↔ ∃ w, s.waits[i]? = some w ∧ p w = true := by
  unfold State.which
  rw [List.mem_filter, List.mem_range, Option.any_eq_true]
  constructor
  · exact fun h => h.2
  · rintro ⟨w, hw, hp⟩
    exact ⟨(List.getElem?_eq_some_iff.mp hw).1, w, hw, hp⟩

/-- A snapshot of the waiters holds each of them once, and none that is answered. -/
theorem checks_sound (h : Sound s) (hcalls : s.calls = []) (n : ℕ) (notifies : List ℕ) :
    Sound { s with notifies, calls := s.checks n } := by
  refine ⟨fun i w hw => (h.tidy i w hw).recall ?_, ?_, fun i hi => ?_⟩
  · rw [hcalls]
    rintro (htimer | harm)
    · exact .inl htimer
    · cases harm
  · refine List.Nodup.map (fun i j hij => Call.check.inj hij) ?_
    exact List.Nodup.filter _ List.nodup_range
  · obtain ⟨j, hj, heq⟩ := List.mem_map.mp hi
    obtain rfl := Call.check.inj heq
    obtain ⟨w, hw, hp⟩ := mem_which.mp hj
    exact ⟨w, hw, (h.tidy j w hw).unanswered (.inl (Bool.and_eq_true_iff.mp hp).1)⟩

/-- A check is called. -/
theorem check_sound {calls : List Call} {j : ℕ} (h : Sound s) (hcalls : s.calls = .check j :: calls) :
    Sound { s with calls, waits := s.waits.modify j (Wait.check s) } := by
  have hnodup := h.nodup
  rw [hcalls, List.nodup_cons] at hnodup
  have hless : ∀ i w, Tidy s.calls i w → Tidy calls i w := by
    intro i w htidy
    refine htidy.recall ?_
    rw [hcalls]
    rintro (htimer | harm)
    · exact .inl htimer
    · rcases List.mem_cons.mp harm with heq | hrest
      · cases heq
      · exact .inr hrest
  refine ⟨tidy_modify h.tidy (fun w hw => ?_) fun i w _ => hless i w, hnodup.2, fun i hi => ?_⟩
  · obtain ⟨v, hv, hnone⟩ := h.unanswered j (hcalls ▸ List.mem_cons_self)
    obtain rfl := Option.some.inj (hw.symm.trans hv)
    exact tidy_check (hless j w (h.tidy j w hw)) hnone
  · have hij : j ≠ i := by
      rintro rfl
      exact hnodup.1 hi
    obtain ⟨w, hw, hnone⟩ := h.unanswered i (hcalls ▸ List.mem_cons_of_mem _ hi)
    exact ⟨w, (List.getElem?_modify_ne _ _ hij).trans hw, hnone⟩

/-- The rest of a `wait` runs. -/
theorem arm_sound {calls : List Call} {j : ℕ} (h : Sound s) (hcalls : s.calls = .arm j :: calls) :
    Sound { s with calls, waits := s.waits.modify j Wait.arm } := by
  have hnodup := h.nodup
  rw [hcalls, List.nodup_cons] at hnodup
  have hothers : ∀ i w, i ≠ j → Tidy s.calls i w → Tidy calls i w := by
    intro i w hij htidy
    refine htidy.recall ?_
    rw [hcalls]
    rintro (htimer | harm)
    · exact .inl htimer
    · rcases List.mem_cons.mp harm with heq | hrest
      · exact absurd (Call.arm.inj heq) hij
      · exact .inr hrest
  refine ⟨tidy_modify h.tidy (fun w hw => ?_) hothers, hnodup.2, fun i hi => ?_⟩
  · have htidy := tidy_arm (h.tidy j w hw)
    refine ⟨htidy.once, htidy.accepts, fun hnone => ?_, htidy.released⟩
    -- a wait without an answer is registered, and its timer is armed now
    obtain ⟨hregistered, -⟩ := htidy.held hnone
    refine ⟨hregistered, .inl ?_⟩
    unfold Wait.arm at hregistered ⊢
    split at hregistered
    · rw [if_pos ‹_›]
    · exact absurd hregistered ‹_›
  · obtain ⟨w, hw, hnone⟩ := h.unanswered i (hcalls ▸ List.mem_cons_of_mem _ hi)
    by_cases hij : j = i
    · subst hij
      refine ⟨w.arm, ?_, ?_⟩
      · rw [List.getElem?_modify_eq, hw]
        rfl
      · unfold Wait.arm
        split <;> exact hnone
    · exact ⟨w, (List.getElem?_modify_ne _ _ hij).trans hw, hnone⟩

/-- One wait is answered, or not, while no call is left. -/
theorem quiet_sound {j : ℕ} {f : Wait → Wait} {listeners : List ℕ} (h : Sound s)
    (hcalls : s.calls = []) (hf : ∀ w, s.waits[j]? = some w → Tidy s.calls j (f w)) :
    Sound { s with listeners, waits := s.waits.modify j f } := by
  refine ⟨tidy_modify h.tidy hf fun i w _ htidy => htidy, h.nodup, fun i hi => ?_⟩
  have hi' : Call.check i ∈ s.calls := hi
  rw [hcalls] at hi'
  cases hi'

/-- A call of `wait`. -/
theorem begin_sound (h : Sound s) (hcalls : s.calls = []) (id : String)
    (request : TerminalWaitRequest) (signal : Option ℕ) :
    Sound (begin compile s id request signal) := by
  have hnew : ∀ {calls new}, (∀ i w, s.waits[i]? = some w → Tidy calls i w) →
      Tidy calls s.waits.length new →
        ∀ i w, (s.waits ++ [new])[i]? = some w → Tidy calls i w := by
    intro calls new hold hnew i w hw
    rcases Nat.lt_or_ge i s.waits.length with hlt | hge
    · rw [List.getElem?_append_left hlt] at hw
      exact hold i w hw
    · rw [List.getElem?_append_right hge, List.getElem?_singleton] at hw
      obtain ⟨hzero, heq⟩ := Option.ite_none_right_eq_some.mp hw
      obtain rfl := Option.some.inj heq
      rwa [show i = s.waits.length by omega]
  unfold begin
  split
  · rename_i error _
    refine ⟨hnew h.tidy ?_, h.nodup, fun i hi => ?_⟩
    · refine ⟨Nat.le_refl 1, ?_, fun hnone => ?_, fun _ => ⟨rfl, rfl, rfl⟩⟩
      · intro answer hanswer outcome heq
        rw [List.mem_singleton.mp hanswer] at heq
        cases heq
      · cases hnone
    · have hi' : Call.check i ∈ s.calls := hi
      rw [hcalls] at hi'
      cases hi'
  · rename_i w _
    refine ⟨hnew (fun i w hw => (h.tidy i w hw).recall ?_) ?_, by simp, fun i hi => ?_⟩
    · rw [hcalls]
      rintro (htimer | harm)
      · exact .inl htimer
      · cases harm
    · refine ⟨Nat.zero_le 1, fun _ hanswer => ?_,
        fun _ => ⟨rfl, .inr (List.mem_cons_of_mem _ List.mem_cons_self)⟩,
        fun hsome => absurd rfl hsome⟩
      cases hanswer
    · simp only [List.mem_cons, Call.check.injEq, reduceCtorEq, List.not_mem_nil, or_false] at hi
      subst hi
      exact ⟨_, List.getElem?_concat_length, rfl⟩

/-- Every event keeps it. -/
theorem Sound.step {e : TerminalWaits.Event} (h : Sound s)
    (hstep : TerminalWaits.step options compile s e = some t) : Sound t := by
  cases e with
  | registry e =>
    obtain ⟨-, heq⟩ := Option.ite_none_right_eq_some.mp hstep
    obtain ⟨r, -, rfl⟩ := Option.map_eq_some_iff.mp heq
    exact ⟨h.tidy, h.nodup, h.unanswered⟩
  | wait id request signal =>
    obtain ⟨hquiet, heq⟩ := Option.ite_none_right_eq_some.mp hstep
    exact Option.some.inj heq ▸ begin_sound h hquiet.1 id request signal
  | abort signal reason =>
    obtain ⟨-, heq⟩ := Option.ite_none_right_eq_some.mp hstep
    split at heq
    · obtain rfl := Option.some.inj heq
      exact ⟨h.tidy, h.nodup, h.unanswered⟩
    · exact Option.some.inj heq ▸ h
  | expire i =>
    obtain ⟨⟨hquiet, htimer⟩, heq⟩ := Option.ite_none_right_eq_some.mp hstep
    obtain rfl := Option.some.inj heq
    refine quiet_sound h hquiet.1 fun w hw => tidy_timeout (h.tidy i w hw) ?_
    rw [hw] at htimer
    exact htimer
  | call =>
    simp only [TerminalWaits.step] at hstep
    split at hstep
    · rename_i hcalls
      exact Option.some.inj hstep ▸ check_sound h hcalls
    · rename_i hcalls
      exact Option.some.inj hstep ▸ arm_sound h hcalls
    · cases hstep
  | notify =>
    simp only [TerminalWaits.step] at hstep
    split at hstep
    · rename_i hcalls _
      exact Option.some.inj hstep ▸ checks_sound h hcalls _ _
    · cases hstep
  | listener =>
    obtain ⟨hquiet, heq⟩ := Option.ite_none_right_eq_some.mp hstep
    split at heq
    · obtain rfl := Option.some.inj heq
      exact quiet_sound h hquiet.1 fun w hw => tidy_abort (h.tidy _ w hw)
    · cases heq

theorem sound_of_reachable (h : (machine options compile).Reachable s) : Sound s := by
  refine h.invariant ⟨fun i w hw => ?_, List.nodup_nil, fun i hi => ?_⟩
    fun _ _ _ hs _ hstep => hs.step hstep
  · cases hw
  · cases hi

/-! ### A wait that nothing else answers -/

/-- The calls that are left are made. -/
theorem drain_calls (options : Options) (compile : String → Except String Test)
    (calls : List Call) : ∀ s : State, s.calls = calls →
      ∃ t, (machine options compile).runFrom s (List.replicate calls.length .call) = some t ∧
        t.calls = [] ∧ t.notifies = s.notifies ∧ t.waits.length = s.waits.length := by
  induction calls with
  | nil => exact fun s hs => ⟨s, rfl, hs, rfl, rfl⟩
  | cons call calls ih =>
    intro s hs
    obtain ⟨u, hu, hcalls, hnotifies, hlength⟩ : ∃ u,
        (machine options compile).step s .call = some u ∧ u.calls = calls ∧
          u.notifies = s.notifies ∧ u.waits.length = s.waits.length := by
      cases call with
      | check i =>
        refine ⟨{ s with calls, waits := s.waits.modify i (Wait.check s) }, ?_, rfl, rfl,
          List.length_modify _ _ _⟩
        simp only [machine, TerminalWaits.step, hs]
      | arm i =>
        refine ⟨{ s with calls, waits := s.waits.modify i Wait.arm }, ?_, rfl, rfl,
          List.length_modify _ _ _⟩
        simp only [machine, TerminalWaits.step, hs]
    obtain ⟨t, ht, hrest⟩ := ih u hcalls
    refine ⟨t, ?_, hrest.1, hrest.2.1.trans hnotifies, hrest.2.2.trans hlength⟩
    rw [List.length_cons, List.replicate_succ, Machine.runFrom, hu]
    exact ht

/-- All that is left to run but the listeners runs to its end. -/
theorem drain (options : Options) (compile : String → Except String Test) (notifies : List ℕ) :
    ∀ s : State, s.notifies = notifies →
      ∃ es t, (∀ e ∈ es, e = .call ∨ e = .notify) ∧
        (machine options compile).runFrom s es = some t ∧ t.Quiet ∧
          t.waits.length = s.waits.length := by
  induction notifies with
  | nil =>
    intro s hs
    obtain ⟨t, ht, hcalls, hnotifies, hlength⟩ := drain_calls options compile s.calls s rfl
    exact ⟨_, t, fun e he => .inl (List.eq_of_mem_replicate he), ht,
      ⟨hcalls, hnotifies.trans hs⟩, hlength⟩
  | cons n notifies ih =>
    intro s hs
    obtain ⟨u, hu, hcalls, hnotifies, hlength⟩ := drain_calls options compile s.calls s rfl
    have hstep : (machine options compile).step u .notify =
        some { u with notifies, calls := u.checks n } := by
      simp only [machine, TerminalWaits.step, hcalls, hnotifies.trans hs]
    obtain ⟨es, t, hes, ht, hquiet, hlength'⟩ := ih { u with notifies, calls := u.checks n } rfl
    refine ⟨List.replicate s.calls.length .call ++ .notify :: es, t, fun e he => ?_, ?_, hquiet,
      hlength'.trans hlength⟩
    · rcases List.mem_append.mp he with hcall | hrest
      · exact .inl (List.eq_of_mem_replicate hcall)
      · rcases List.mem_cons.mp hrest with hnotify | hmore
        · exact .inr hnotify
        · exact hes e hmore
    · rw [Machine.runFrom_append hu, Machine.runFrom, hstep]
      exact ht

/-- A wait is answered once its timer fires, if nothing else answers it before. -/
theorem answered_by_timer (h : (machine options compile).Reachable s) {i : ℕ}
    (hi : i < s.waits.length) :
    ∃ es t w, (∀ e ∈ es, e = .call ∨ e = .notify ∨ e = .expire i) ∧
      (machine options compile).runFrom s es = some t ∧ t.waits[i]? = some w ∧
        w.answers.length = 1 := by
  obtain ⟨es, t, hes, ht, hquiet, hlength⟩ := drain options compile s.notifies s rfl
  have hsound := sound_of_reachable (Machine.reachable_of_runFrom h ht)
  obtain ⟨w, hw⟩ : ∃ w, t.waits[i]? = some w :=
    ⟨_, List.getElem?_eq_getElem (hlength.symm ▸ hi)⟩
  have htidy := hsound.tidy i w hw
  have hes' : ∀ e ∈ es, e = .call ∨ e = .notify ∨ e = .expire i := fun e he =>
    (hes e he).imp_right .inl
  by_cases hanswers : w.answers = []
  · -- nothing is left that would arm the timer: it is armed
    obtain ⟨-, harmed⟩ := htidy.held hanswers
    have htimer : w.timer = true := by
      rcases harmed with htimer | harm
      · exact htimer
      · rw [hquiet.1] at harm
        cases harm
    have hstep : (machine options compile).step t (.expire i) =
        some { t with waits := t.waits.modify i (Wait.timeout t) } := by
      refine if_pos ⟨hquiet, ?_⟩
      rw [hw]
      exact htimer
    refine ⟨es ++ [.expire i], { t with waits := t.waits.modify i (Wait.timeout t) },
      Wait.timeout t w, fun e he => ?_, ?_, ?_, ?_⟩
    · rcases List.mem_append.mp he with hold | hnew
      · exact hes' e hold
      · exact .inr (.inr (List.mem_singleton.mp hnew))
    · rw [Machine.runFrom_append ht, Machine.runFrom, hstep]
      rfl
    · rw [List.getElem?_modify_eq, hw]
      rfl
    · rw [Wait.timeout, Wait.settle, hanswers]
      rfl
  · refine ⟨es, t, w, hes', ht, hw, ?_⟩
    have honce := htidy.once
    have hpos := List.length_pos_iff.mpr hanswers
    omega

/-- In every interleaving each wait answers once at most, with a match only if its matcher
accepts the text; without an answer its check is registered and its timer armed, or its call has
not returned yet, and its timer answers it if nothing else does; with an answer its check, its
timer and its listener are gone. -/
theorem every_wait_settles_once (h : (machine options compile).Reachable s) {i : ℕ} {w : Wait}
    (hw : s.waits[i]? = some w) :
    w.answers.length ≤ 1 ∧ (∀ answer ∈ w.answers, Accepts w answer) ∧
      (w.answers = [] → w.registered = true ∧ (w.timer = true ∨ .arm i ∈ s.calls)) ∧
      (w.answers ≠ [] → w.registered = false ∧ w.timer = false ∧ w.listener = false) ∧
      ∃ es t w', (∀ e ∈ es, e = .call ∨ e = .notify ∨ e = .expire i) ∧
        (machine options compile).runFrom s es = some t ∧ t.waits[i]? = some w' ∧
          w'.answers.length = 1 := by
  have htidy := (sound_of_reachable h).tidy i w hw
  exact ⟨htidy.once, htidy.accepts, htidy.held, htidy.released,
    answered_by_timer h (List.getElem?_eq_some_iff.mp hw).1⟩

/-- Two waits on a shell, of which the first finds what the shell prints. -/
def twoWaits : List TerminalWaits.Event :=
  [.registry (.open "s1" "/w" 80 24), .registry (.spawned 0 4711),
    .wait "t1" ⟨none, some "$ ", none, none⟩ (some 0), .call, .call,
    .wait "t1" ⟨none, some "no", none, none⟩ none, .call, .call,
    .registry (.produce 1 "$ ".toUTF8.toList), .registry (.data 1), .notify, .call, .call]

/-- No pattern compiles. -/
def noPattern : String → Except String Test := fun _ => .error "invalid"

theorem twoWaits_isSome :
    ((machine TerminalRegistry.shellOptions noPattern).run twoWaits).isSome = true := by
  decide +kernel

/-- The waits then. -/
def firstFound : State :=
  ((machine TerminalRegistry.shellOptions noPattern).run twoWaits).get twoWaits_isSome

/-- The first is answered and holds nothing, the second waits and will be answered. -/
theorem first_settles_once :
    (firstFound.waits.map fun w => (w.answers.length, w.registered, w.timer, w.listener)) =
        [(1, false, false, false), (0, true, true, false)] ∧
      ∃ es t w, (∀ e ∈ es, e = .call ∨ e = .notify ∨ e = .expire 1) ∧
        (machine TerminalRegistry.shellOptions noPattern).runFrom firstFound es = some t ∧
          t.waits[1]? = some w ∧ w.answers.length = 1 := by
  refine ⟨by decide +kernel, ?_⟩
  obtain ⟨w, hw⟩ : ∃ w, firstFound.waits[1]? = some w :=
    Option.isSome_iff_exists.mp (by decide +kernel)
  exact (every_wait_settles_once (Machine.reachable_get twoWaits twoWaits_isSome) hw).2.2.2.2

end RemoteWorkspace.Analysis.SettledWaits
