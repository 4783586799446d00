import RemoteWorkspace.Computation.Slots
import RemoteWorkspace.Analysis.TerminateRange

/-!
# What a closed connection leaves behind

`close` disposes every process of the table, and a spawn that finds the backend closed
disposes its own. `dispose` kills the group only while the facts of the child have not
settled, and a spawn that gives up after it started its child is not in the table at all.

Where neither leaves a member behind, every group a connection started is empty or was
killed once `close` and all spawns are over.
-/

set_option autoImplicit false

namespace RemoteWorkspace.Analysis.Subprocess

open RemoteWorkspace.Computation RemoteWorkspace.Model.Subprocess

/-! ### What one event does to a process -/

/-- A group without a member stays without one, signals stay delivered, settled facts stay
settled, and who is disposed has settled. -/
structure Grows (s s' : ManagedProcess) : Prop where
  alive : groupAlive s'.group = true → groupAlive s.group = true
  signals : s.group.signals <+: s'.group.signals
  settled : s.settled ≠ none → s'.settled ≠ none
  disposed : s'.disposed = true → s.disposed = true ∨ s'.settled ≠ none

theorem Grows.refl (s : ManagedProcess) : Grows s s :=
  ⟨id, List.prefix_refl _, id, .inl⟩

/-- A quiet event. -/
theorem Quiet.grows {s s' : ManagedProcess} (h : Quiet s s') : Grows s s' :=
  ⟨h.alive, h.signals ▸ List.prefix_refl _, h.settled, fun hd => .inl (h.disposed ▸ hd)⟩

/-- A signal is added to those delivered, or to none. -/
theorem signals_grow (group : Group) (signal : Signal) :
    group.signals <+: (signalGroup group signal).signals := by
  unfold signalGroup
  split
  · exact List.prefix_append ..
  · exact List.prefix_refl _

/-- A disposal. -/
theorem grows_dispose (s : ManagedProcess) : Grows s (dispose s) := by
  unfold dispose
  split
  · exact .refl s
  · split
    · exact ⟨by simp, signals_grow .., fun _ => nofun, fun _ => .inr nofun⟩
    · rename_i hsettled
      exact ⟨id, List.prefix_refl _, id, fun _ => .inr (by simpa using hsettled)⟩

/-- Every event of a managed process. -/
theorem grows_step {s s' : ManagedProcess} {e : Event} (h : step s e = some s') :
    Grows s s' := by
  cases e with
  | terminate =>
    obtain rfl := Option.some.inj h
    unfold terminate
    split
    · exact .refl s
    · exact ⟨id, List.prefix_refl _, id, .inl⟩
  | sendTerm =>
    obtain ⟨-, ⟨⟩⟩ := Option.ite_none_right_eq_some.mp h
    exact ⟨by simp, signals_grow .., id, .inl⟩
  | graceOver =>
    obtain ⟨-, ⟨⟩⟩ := Option.ite_none_right_eq_some.mp h
    unfold escalate
    split
    · exact ⟨id, List.prefix_refl _, id, .inl⟩
    · exact ⟨id, List.prefix_refl _, id, .inl⟩
  | sendKill =>
    obtain ⟨-, ⟨⟩⟩ := Option.ite_none_right_eq_some.mp h
    exact ⟨by simp, signals_grow .., id, .inl⟩
  | waitForExit =>
    obtain rfl := Option.some.inj h
    exact ⟨id, List.prefix_refl _, id, .inl⟩
  | dispose =>
    obtain rfl := Option.some.inj h
    exact grows_dispose s
  | _ => exact (step_quiet h rfl).grows

/-! ### What closing promises -/

/-- The signals a group got since the connection closed. -/
def sinceClose (x : Spawned) : List Signal :=
  x.managed.group.signals.drop x.signalsBefore

/-- The group has no member left or was killed since the connection closed. -/
def Ended (x : Spawned) : Prop :=
  groupAlive x.managed.group = true → .sigkill ∈ sinceClose x

/-- `close` has returned and so has every spawn. -/
structure Over (s : Backend) : Prop where
  closed : s.closing = .ended
  spawns : ∀ x ∈ s.procs, x.phase = .finished ∨ x.phase = .failed

/-- Where a process is disposed, its group has no member left, has not settled or was
killed since the connection closed; and the group of a spawn that gave up after it
started its child has no member left when `close` returns. -/
def NoSurvivor (s : Backend) : BackendEvent → Prop
  | .disposeSealed i => ∀ x ∈ s.procs[i]?, x.managed.settled = none ∨ Ended x
  | .disposeOne i => ∀ x ∈ s.procs[i]?, x.managed.settled = none ∨ Ended x
  | .closed => ∀ x ∈ s.procs, x.phase = .failed → groupAlive x.managed.group = false
  | .adoptFails _ => s.closing ≠ .ended
  | _ => True

instance (x : Spawned) : Decidable (Ended x) :=
  inferInstanceAs (Decidable (groupAlive x.managed.group = true → _))

instance : (s : Backend) → (e : BackendEvent) → Decidable (NoSurvivor s e)
  | s, .disposeSealed i =>
    inferInstanceAs (Decidable (∀ x ∈ s.procs[i]?, x.managed.settled = none ∨ Ended x))
  | s, .disposeOne i =>
    inferInstanceAs (Decidable (∀ x ∈ s.procs[i]?, x.managed.settled = none ∨ Ended x))
  | s, .closed => inferInstanceAs (Decidable (∀ x ∈ s.procs, x.phase = .failed → _))
  | s, .adoptFails _ => inferInstanceAs (Decidable (s.closing ≠ .ended))
  | _, .spawn _ => .isTrue trivial
  | _, .adopt _ => .isTrue trivial
  | _, .reapOrphan _ => .isTrue trivial
  | _, .enter _ => .isTrue trivial
  | _, .finish _ => .isTrue trivial
  | _, .proc _ _ => .isTrue trivial
  | _, .close => .isTrue trivial
  | _, .drain => .isTrue trivial

/-! ### The invariant -/

/-- The processes `close` still has to dispose. -/
def toDispose : Closing → List ℕ
  | .disposing rest => rest
  | _ => []

/-- One child: how it fits its spawn and the call of `close`. -/
structure Held (table : List ℕ) (closing : Closing) (i : ℕ) (x : Spawned) : Prop where
  before : x.signalsBefore ≤ x.managed.group.signals.length
  disposed : x.managed.disposed = true → x.managed.settled ≠ none
  sealed : x.phase = .sealed → closing ≠ .no
  failed : x.phase = .failed → closing = .ended → groupAlive x.managed.group = false
  kept : x.phase = .feeding ∨ x.phase = .finished →
    i ∈ table ∨ i ∈ toDispose closing ∨ closing ≠ .no ∧ Ended x

/-- Every child is held, and once `close` took the table nothing is entered again. -/
structure Holding (s : Backend) : Prop where
  held : ∀ (i : ℕ) (x : Spawned), s.procs[i]? = some x → Held s.table s.closing i x
  table : s.closing ≠ .no → s.closing ≠ .flagged → s.table = []

/-- Once everything is over, every group is empty or was killed. -/
theorem Holding.ended {s : Backend} (hs : Holding s) (hover : Over s) {x : Spawned}
    (hx : x ∈ s.procs) : Ended x := by
  obtain ⟨i, hi⟩ := List.mem_iff_getElem?.mp hx
  have hheld := hs.held i x hi
  have hclosed := hover.closed
  rcases hover.spawns x hx with hphase | hphase
  · rcases hheld.kept (.inr hphase) with hmem | hmem | ⟨-, hended⟩
    · rw [hs.table (by simp [hclosed]) (by simp [hclosed])] at hmem
      cases hmem
    · rw [hclosed] at hmem
      cases hmem
    · exact hended
  · exact fun halive => absurd (hheld.failed hphase hclosed) (by simp [halive])

/-- A group that ended stays so. -/
theorem Ended.grows {x : Spawned} (hx : Ended x) {managed : ManagedProcess}
    (hgrows : Grows x.managed managed) (phase : SpawnPhase) :
    Ended ⟨managed, phase, x.signalsBefore⟩ := by
  intro halive
  obtain ⟨new, hnew⟩ := hgrows.signals
  simp only [sinceClose]
  rw [← hnew, List.drop_append]
  exact List.mem_append_left _ (hx (hgrows.alive halive))

/-- A disposal ends a group that has not settled, or that ended before. -/
theorem ended_dispose {x : Spawned} (hbefore : x.signalsBefore ≤ x.managed.group.signals.length)
    (hdisposed : x.managed.disposed = true → x.managed.settled ≠ none)
    (hG : x.managed.settled = none ∨ Ended x) (phase : SpawnPhase) :
    Ended ⟨dispose x.managed, phase, x.signalsBefore⟩ := by
  rcases hG with hsettled | hended
  · have hfresh : x.managed.disposed = false := by
      cases hd : x.managed.disposed with
      | false => rfl
      | true => exact absurd hsettled (hdisposed hd)
    intro halive
    have hgroup : (dispose x.managed).group = signalGroup x.managed.group .sigkill := by
      simp [dispose, hfresh, hsettled]
    simp only [sinceClose]
    rw [hgroup] at halive ⊢
    rw [signals_signalGroup _ (by simpa using halive), List.drop_append_of_le_length hbefore]
    exact List.mem_append_right _ (List.mem_singleton.mpr rfl)
  · exact hended.grows (grows_dispose _) phase

/-! ### Every step -/

/-- Moving one child along, read backwards. -/
theorem update_eq_some {s t : Backend} {i : ℕ} {f : Spawned → Option Spawned}
    (h : s.update i f = some t) :
    ∃ x y, s.procs[i]? = some x ∧ f x = some y ∧ t = { s with procs := s.procs.set i y } := by
  obtain ⟨x, hx, hmap⟩ := Option.bind_eq_some_iff.mp h
  obtain ⟨y, hy, rfl⟩ := Option.map_eq_some_iff.mp hmap
  exact ⟨x, y, hx, hy, rfl⟩

/-- Moving one child along keeps every child held if it keeps that one held. -/
theorem Holding.update {s : Backend} (hs : Holding s) {i : ℕ} {y : Spawned}
    (hy : Held s.table s.closing i y) : Holding { s with procs := s.procs.set i y } := by
  refine ⟨fun j z hz => ?_, hs.table⟩
  rcases getElem?_set_cases hz with ⟨rfl, rfl⟩ | ⟨-, hz⟩
  · exact hy
  · exact hs.held j z hz

/-- What happens to a child apart from its spawn keeps it held. -/
theorem Held.grows {table : List ℕ} {closing : Closing} {i : ℕ} {x : Spawned}
    (hx : Held table closing i x) {managed : ManagedProcess} (hgrows : Grows x.managed managed) :
    Held table closing i { x with managed := managed } := by
  refine ⟨Nat.le_trans hx.before hgrows.signals.length_le, fun h => ?_, hx.sealed,
    fun h h' => ?_, fun h => ?_⟩
  · rcases hgrows.disposed h with h | h
    · exact hgrows.settled (hx.disposed h)
    · exact h
  · have hgone := hx.failed h h'
    cases halive : groupAlive managed.group with
    | false => rfl
    | true => exact absurd (hgrows.alive halive) (by simp [hgone])
  · exact (hx.kept h).imp_right (Or.imp_right fun h => ⟨h.1, h.2.grows hgrows x.phase⟩)

/-- Every event that leaves no survivor keeps every child held. -/
theorem holding_step {s t : Backend} {e : BackendEvent} (hs : Holding s)
    (hG : NoSurvivor s e) (h : backendStep s e = some t) : Holding t := by
  cases e with
  | spawn readers =>
    obtain rfl := Option.some.inj h
    refine ⟨fun j z hz => ?_, hs.table⟩
    rcases getElem?_concat_cases hz with hz | ⟨rfl, rfl⟩
    · exact hs.held j z hz
    · exact ⟨Nat.zero_le _, by simp [ManagedProcess.started], by simp, by simp, by simp⟩
  | adopt i =>
    obtain ⟨x, y, hx, hy, rfl⟩ := update_eq_some h
    obtain ⟨hphase, ⟨⟩⟩ := Option.ite_none_right_eq_some.mp hy
    have hheld := hs.held i x hx
    exact hs.update ⟨hheld.before, hheld.disposed, by simp, by simp, by simp⟩
  | adoptFails i =>
    obtain ⟨x, y, hx, hy, rfl⟩ := update_eq_some h
    obtain ⟨hphase, ⟨⟩⟩ := Option.ite_none_right_eq_some.mp hy
    have hheld := hs.held i x hx
    exact hs.update ⟨hheld.before, hheld.disposed, by simp, fun _ h => absurd h hG, by simp⟩
  | reapOrphan i =>
    obtain ⟨x, y, hx, hy, rfl⟩ := update_eq_some h
    obtain ⟨hzombie, ⟨⟩⟩ := Option.ite_none_right_eq_some.mp hy
    have hgrows : Grows x.managed { x.managed with
        group := { x.managed.group with leader := .reaped } } :=
      ⟨fun _ => by simp [groupAlive, hzombie.2], List.prefix_refl _, id, .inl⟩
    exact hs.update ((hs.held i x hx).grows hgrows)
  | enter i =>
    simp only [backendStep] at h
    split at h
    · rename_i hno
      obtain ⟨u, hu, rfl⟩ := Option.map_eq_some_iff.mp h
      obtain ⟨x, y, hx, hy, rfl⟩ := update_eq_some hu
      obtain ⟨hphase, ⟨⟩⟩ := Option.ite_none_right_eq_some.mp hy
      have hheld := hs.held i x hx
      refine ⟨fun j z hz => ?_, fun h => absurd hno h⟩
      rcases getElem?_set_cases hz with ⟨rfl, rfl⟩ | ⟨-, hz⟩
      · exact ⟨hheld.before, hheld.disposed, by simp, by simp,
          fun _ => .inl (List.mem_append_right _ (List.mem_singleton.mpr rfl))⟩
      · have := hs.held j z hz
        exact ⟨this.before, this.disposed, this.sealed, this.failed,
          fun h => (this.kept h).imp_left (List.mem_append_left _)⟩
    · rename_i hclosing
      obtain ⟨x, y, hx, hy, rfl⟩ := update_eq_some h
      obtain ⟨hphase, ⟨⟩⟩ := Option.ite_none_right_eq_some.mp hy
      have hheld := hs.held i x hx
      exact hs.update ⟨hheld.before, hheld.disposed, fun _ => hclosing, by simp, by simp⟩
  | disposeSealed i =>
    obtain ⟨x, y, hx, hy, rfl⟩ := update_eq_some h
    obtain ⟨hphase, ⟨⟩⟩ := Option.ite_none_right_eq_some.mp hy
    have hheld := hs.held i x hx
    have hgrown := hheld.grows (grows_dispose x.managed)
    exact hs.update ⟨hgrown.before, hgrown.disposed, by simp, by simp, fun _ => .inr (.inr
      ⟨hheld.sealed hphase, ended_dispose hheld.before hheld.disposed (hG x hx) .feeding⟩)⟩
  | finish i =>
    obtain ⟨x, y, hx, hy, rfl⟩ := update_eq_some h
    obtain ⟨hphase, ⟨⟩⟩ := Option.ite_none_right_eq_some.mp hy
    have hheld := hs.held i x hx
    exact hs.update ⟨hheld.before, hheld.disposed, by simp, by simp,
      fun _ => hheld.kept (.inl hphase)⟩
  | proc i e =>
    obtain ⟨-, h⟩ := Option.ite_none_left_eq_some.mp h
    obtain ⟨x, y, hx, hy, rfl⟩ := update_eq_some h
    obtain ⟨-, hy⟩ := Option.ite_none_right_eq_some.mp hy
    obtain ⟨managed, hstep, rfl⟩ := Option.map_eq_some_iff.mp hy
    exact hs.update ((hs.held i x hx).grows (grows_step hstep))
  | close =>
    obtain ⟨hno, ⟨⟩⟩ := Option.ite_none_right_eq_some.mp h
    refine ⟨fun j z hz => ?_, fun _ h => absurd rfl h⟩
    obtain ⟨x, hx, rfl⟩ := Option.map_eq_some_iff.mp ((List.getElem?_map ..).symm.trans hz)
    have hheld := hs.held j x hx
    refine ⟨Nat.le_refl _, hheld.disposed, fun _ => by simp, by simp, fun h => .inl ?_⟩
    rcases hheld.kept h with hmem | hmem | ⟨hclosing, -⟩
    · exact hmem
    · rw [hno] at hmem
      cases hmem
    · exact absurd hno hclosing
  | drain =>
    obtain ⟨hflagged, ⟨⟩⟩ := Option.ite_none_right_eq_some.mp h
    refine ⟨fun j z hz => ?_, fun _ _ => rfl⟩
    have hheld := hs.held j z hz
    refine ⟨hheld.before, hheld.disposed, fun _ => by simp, by simp, fun h => .inr ?_⟩
    rcases hheld.kept h with hmem | hmem | ⟨-, hended⟩
    · exact .inl hmem
    · rw [hflagged] at hmem
      cases hmem
    · exact .inr ⟨by simp, hended⟩
  | disposeOne i =>
    simp only [backendStep] at h
    split at h
    · rename_i rest hclosing
      obtain ⟨hmem, h⟩ := Option.ite_none_right_eq_some.mp h
      obtain ⟨x, y, hx, ⟨⟩, rfl⟩ := update_eq_some h
      refine ⟨fun j z hz => ?_, fun _ _ => hs.table (by simp [hclosing]) (by simp [hclosing])⟩
      rcases getElem?_set_cases hz with ⟨rfl, rfl⟩ | ⟨hne, hz⟩
      · have hheld := hs.held i x hx
        have hgrown := hheld.grows (grows_dispose x.managed)
        exact ⟨hgrown.before, hgrown.disposed, fun _ => by simp, by simp, fun _ => .inr (.inr
          ⟨by simp, ended_dispose hheld.before hheld.disposed (hG x hx) x.phase⟩)⟩
      · have hheld := hs.held j z hz
        refine ⟨hheld.before, hheld.disposed, fun _ => by simp, by simp, fun h => ?_⟩
        rcases hheld.kept h with hmem | hmem | ⟨-, hended⟩
        · exact .inl hmem
        · rw [hclosing] at hmem
          exact .inr (.inl ((List.mem_erase_of_ne hne.symm).mpr hmem))
        · exact .inr (.inr ⟨by simp, hended⟩)
    · cases h
  | closed =>
    obtain ⟨hclosing, ⟨⟩⟩ := Option.ite_none_right_eq_some.mp h
    refine ⟨fun j z hz => ?_, fun _ _ => hs.table (by simp [hclosing]) (by simp [hclosing])⟩
    have hheld := hs.held j z hz
    refine ⟨hheld.before, hheld.disposed, fun _ => by simp,
      fun h _ => hG z (List.mem_of_getElem? hz) h, fun h => ?_⟩
    rcases hheld.kept h with hmem | hmem | ⟨-, hended⟩
    · exact .inl hmem
    · rw [hclosing] at hmem
      cases hmem
    · exact .inr (.inr ⟨by simp, hended⟩)

/-! ### Every run -/

/-- A backend that started nothing. -/
theorem holding_new : Holding .new :=
  ⟨fun i x hx => by simp [Backend.new] at hx, fun h => absurd rfl h⟩

/-- In every run that disposes no group which outlived its settled child, once `close` and
all spawns are over every group the connection started is empty or was killed since. -/
theorem close_ends_groups {s : Backend} (h : backend.ReachableWhen NoSurvivor s)
    (hover : Over s) : ∀ x ∈ s.procs, Ended x := fun _ hx =>
  (h.invariant holding_new fun _ _ _ hs hG ht => holding_step hs hG ht).ended hover hx

/-- A child that is still running when its connection closes, and one that is started while
it does. -/
def closedWhileRunning : List BackendEvent :=
  [.spawn 2, .adopt 0, .enter 0, .finish 0, .spawn 0, .proc 0 .fork, .close, .adopt 1,
    .enter 1, .drain, .disposeOne 0, .disposeSealed 1, .closed, .finish 1]

/-- Both are killed. -/
theorem close_ends_groups_running :
    let s := (backend.runGuarded NoSurvivor .new closedWhileRunning).get (by decide)
    s.procs.length = 2 ∧ ∀ x ∈ s.procs, Ended x :=
  ⟨by decide, close_ends_groups (Machine.reachableWhen_get (by decide))
    ⟨by decide, by decide⟩⟩

/-- A child leaves a grandchild behind and settles before its connection closes. -/
def closedWithSurvivor : List BackendEvent :=
  [.spawn 0, .adopt 0, .enter 0, .finish 0, .proc 0 .fork, .proc 0 .childExits,
    .proc 0 (.reap ⟨some 0, none⟩), .proc 0 .record, .proc 0 (.settle false),
    .proc 0 .publish, .close, .drain, .disposeOne 0, .closed]

/-- The grandchild outlives the connection. -/
theorem survivor_outlives_connection :
    ¬ ∀ s, backend.Reachable s → Over s → ∀ x ∈ s.procs, Ended x := by
  intro hall
  have hended := hall _ (Machine.reachable_get closedWithSurvivor (by decide))
    ⟨by decide, by decide⟩
  exact absurd hended (by decide)

end RemoteWorkspace.Analysis.Subprocess
