import RemoteWorkspace.Computation.Slots
import Mathlib.Data.List.Infix

/-!
# A byte sink behind a lock

Every request that writes to a sink, or closes it, is a task of its own. A task is accepted
or refused, takes the lock when it is free, whoever waited longer, writes its payload piece
by piece and gives the lock back; a write may fail at any piece. The lock keeps payloads
apart and says nothing about their order.

Under the guard `InTurn`, by which a task writes only once the tasks before it have
returned, what the sink got is an initial part of all payloads in the order of the tasks.
-/

set_option autoImplicit false

namespace RemoteWorkspace.Computation

namespace LockedSink

variable {β : Type}

inductive Op (β : Type)
  | write (payload : List β)
  | close
  deriving DecidableEq

/-- What an operation has to write. -/
def Op.payload : Op β → List β
  | .write payload => payload
  | .close => []

inductive Phase
  | queued
  | waiting
  | holding
  | returned
  | failed
  deriving DecidableEq

/-- One request: its operation, how far it is, and how much of its payload was written. -/
structure Task (β : Type) where
  op : Op β
  phase : Phase
  written : ℕ
  deriving DecidableEq

/-- The tasks in the order of their requests, who holds the lock, what the sink got, and
whether it was closed. -/
structure Sink (β : Type) where
  tasks : List (Task β)
  holder : Option ℕ
  out : List β
  closed : Bool
  deriving DecidableEq

/-- A sink nobody wrote to. -/
def Sink.empty : Sink β where
  tasks := []
  holder := none
  out := []
  closed := false

/-- What the tasks do. -/
inductive Event
  | accept (i : ℕ)
  | refuse (i : ℕ)
  /-- A waiting task takes the lock; it finds the sink closed, closes it, or begins. -/
  | take (i : ℕ)
  /-- The holder writes the next `n` items of its payload. -/
  | put (i n : ℕ)
  | finish (i : ℕ)
  | fail (i : ℕ)
  deriving DecidableEq

/-- A new request. -/
def Sink.submit (s : Sink β) (op : Op β) : Sink β :=
  { s with tasks := s.tasks ++ [{ op := op, phase := .queued, written := 0 }] }

/-- Move one task along. -/
def Sink.setTask (s : Sink β) (i : ℕ) (x : Task β) : Sink β :=
  { s with tasks := s.tasks.set i x }

/-- One event of the tasks of a sink. -/
def step (s : Sink β) : Event → Option (Sink β)
  | .accept i =>
    (s.tasks[i]?).bind fun x =>
      if x.phase = .queued then some (s.setTask i { x with phase := .waiting }) else none
  | .refuse i =>
    (s.tasks[i]?).bind fun x =>
      if x.phase = .queued then some (s.setTask i { x with phase := .failed }) else none
  | .take i =>
    (s.tasks[i]?).bind fun x =>
      if x.phase = .waiting ∧ s.holder = none then
        match x.op with
        | .close => some { s.setTask i { x with phase := .returned } with closed := true }
        | .write _ =>
          if s.closed then some (s.setTask i { x with phase := .failed })
          else some { s.setTask i { x with phase := .holding } with holder := some i }
      else none
  | .put i n =>
    (s.tasks[i]?).bind fun x =>
      if x.phase = .holding ∧ 0 < n ∧ x.written + n ≤ x.op.payload.length then
        some { s.setTask i { x with written := x.written + n } with
          out := s.out ++ (x.op.payload.drop x.written).take n }
      else none
  | .finish i =>
    (s.tasks[i]?).bind fun x =>
      if x.phase = .holding ∧ x.written = x.op.payload.length then
        some { s.setTask i { x with phase := .returned } with holder := none }
      else none
  | .fail i =>
    (s.tasks[i]?).bind fun x =>
      if x.phase = .holding ∧ x.written < x.op.payload.length then
        some { s.setTask i { x with phase := .failed } with holder := none }
      else none

/-! ### Order -/

/-- A task is through: it had nothing to write, or it returned without an error. -/
def Task.Through (x : Task β) : Prop := x.op.payload = [] ∨ x.phase = .returned

/-- The tasks before the `i`-th are through. -/
def EarlierThrough (s : Sink β) (i : ℕ) : Prop := ∀ x ∈ s.tasks.take i, x.Through

/-- A task writes only once all tasks before it are through. -/
def InTurn (s : Sink β) : Event → Prop
  | .put i _ => EarlierThrough s i
  | _ => True

/-- A task closes the sink only once all tasks before it are through. -/
def ClosesInTurn (s : Sink β) : Event → Prop
  | .take i => ∀ x ∈ s.tasks[i]?, x.op = .close → EarlierThrough s i
  | _ => True

section

variable [DecidableEq β]

instance (x : Task β) : Decidable x.Through :=
  inferInstanceAs (Decidable (x.op.payload = [] ∨ x.phase = .returned))

instance (s : Sink β) (i : ℕ) : Decidable (EarlierThrough s i) :=
  inferInstanceAs (Decidable (∀ x ∈ s.tasks.take i, x.Through))

instance : (s : Sink β) → (e : Event) → Decidable (InTurn s e)
  | s, .put i _ => inferInstanceAs (Decidable (EarlierThrough s i))
  | _, .accept _ => .isTrue trivial
  | _, .refuse _ => .isTrue trivial
  | _, .take _ => .isTrue trivial
  | _, .finish _ => .isTrue trivial
  | _, .fail _ => .isTrue trivial

instance : (s : Sink β) → (e : Event) → Decidable (ClosesInTurn s e)
  | s, .take i =>
    inferInstanceAs (Decidable (∀ x ∈ s.tasks[i]?, x.op = .close → EarlierThrough s i))
  | _, .accept _ => .isTrue trivial
  | _, .refuse _ => .isTrue trivial
  | _, .put _ _ => .isTrue trivial
  | _, .finish _ => .isTrue trivial
  | _, .fail _ => .isTrue trivial

end

/-- All payloads, in the order of their tasks. -/
def payloads (s : Sink β) : List β := s.tasks.flatMap fun x => x.op.payload

/-- A new request adds its payload. -/
theorem payloads_submit (s : Sink β) (op : Op β) :
    payloads (s.submit op) = payloads s ++ op.payload := by
  simp [payloads, Sink.submit]

/-- What was written of each payload, in the order of the tasks. -/
def progress (tasks : List (Task β)) : List β :=
  tasks.flatMap fun x => x.op.payload.take x.written

/-- What a task wrote fits how far it is. -/
structure Task.Consistent (x : Task β) : Prop where
  begun : 0 < x.written → x.phase ≠ .queued ∧ x.phase ≠ .waiting
  holding : x.phase = .holding → x.op ≠ .close
  whole : x.phase = .returned → x.written = x.op.payload.length

/-- What the sink got, it got in the order of the tasks: before a task that has written,
all are through. -/
structure Ordered (s : Sink β) : Prop where
  out : s.out = progress s.tasks
  consistent : ∀ x ∈ s.tasks, x.Consistent
  earlier : s.tasks.Pairwise fun x y => 0 < y.written → x.Through

/-- A list around one of its elements. -/
theorem exists_around {α : Type} {l : List α} {i : ℕ} {x : α} (h : l[i]? = some x) :
    ∃ before after, l = before ++ x :: after ∧ l.take i = before ∧
      ∀ y, l.set i y = before ++ y :: after := by
  obtain ⟨hi, rfl⟩ := List.getElem?_eq_some_iff.mp h
  have hset : ∀ y, l.set i y = l.take i ++ y :: l.drop (i + 1) := fun y => by
    rw [List.set_eq_take_append_cons_drop, if_pos hi]
  exact ⟨l.take i, l.drop (i + 1), by rw [← hset, List.set_getElem_self], rfl, hset⟩

/-- Nothing was written by tasks that have not begun. -/
theorem progress_eq_nil {tasks : List (Task β)} (h : ∀ x ∈ tasks, x.written = 0) :
    progress tasks = [] := by
  rw [progress, List.flatMap_eq_nil_iff]
  intro x hx
  rw [h x hx, List.take_zero]

theorem progress_append (a b : List (Task β)) : progress (a ++ b) = progress a ++ progress b :=
  List.flatMap_append

theorem progress_cons (x : Task β) (l : List (Task β)) :
    progress (x :: l) = x.op.payload.take x.written ++ progress l := List.flatMap_cons

/-- A sink nobody wrote to. -/
theorem ordered_empty : Ordered (.empty : Sink β) := ⟨rfl, nofun, .nil⟩

/-- A task that moves along without writing keeps the order, if it does not come back from
being through. -/
theorem Ordered.setPhase {s s' : Sink β} (hs : Ordered s) {i : ℕ} {x : Task β}
    (hx : s.tasks[i]? = some x) (phase : Phase)
    (hx' : Task.Consistent { x with phase := phase })
    (hthrough : x.phase = .returned → phase = .returned)
    (htasks : s'.tasks = s.tasks.set i { x with phase := phase }) (hout : s'.out = s.out) :
    Ordered s' := by
  obtain ⟨before, after, hl, -, hset⟩ := exists_around hx
  rw [hset] at htasks
  have hearlier := hs.earlier
  rw [hl, List.pairwise_append, List.pairwise_cons] at hearlier
  obtain ⟨hbefore, ⟨hxafter, hafter⟩, hcross⟩ := hearlier
  refine ⟨?_, fun y hy => ?_, ?_⟩
  · rw [hout, hs.out, htasks, hl]
    simp only [progress_append, progress_cons]
  · rw [htasks, List.mem_append, List.mem_cons] at hy
    rcases hy with hy | rfl | hy
    · exact hs.consistent y (by rw [hl]; exact List.mem_append_left _ hy)
    · exact hx'
    · exact hs.consistent y (by rw [hl]; exact List.mem_append_right _ (.tail _ hy))
  · rw [htasks, List.pairwise_append, List.pairwise_cons]
    refine ⟨hbefore, ⟨fun y hy hw => (hxafter y hy hw).imp_right hthrough, hafter⟩,
      fun y hy z hz => ?_⟩
    rcases List.mem_cons.mp hz with rfl | hz
    · exact hcross y hy x (.head _)
    · exact hcross y hy z (.tail _ hz)

/-- A task that writes in its turn continues what the sink got. -/
theorem Ordered.put {s s' : Sink β} (hs : Ordered s) {i n : ℕ} {x : Task β}
    (hx : s.tasks[i]? = some x) (hphase : x.phase = .holding) (hn : 0 < n)
    (hle : x.written + n ≤ x.op.payload.length) (hG : EarlierThrough s i)
    (htasks : s'.tasks = s.tasks.set i { x with written := x.written + n })
    (hout : s'.out = s.out ++ (x.op.payload.drop x.written).take n) : Ordered s' := by
  obtain ⟨before, after, hl, htake, hset⟩ := exists_around hx
  rw [hset] at htasks
  have hearlier := hs.earlier
  rw [hl, List.pairwise_append, List.pairwise_cons] at hearlier
  obtain ⟨hbefore, ⟨hxafter, hafter⟩, hcross⟩ := hearlier
  -- the tasks after this one wait for it
  have hzero : ∀ y ∈ after, y.written = 0 := by
    intro y hy
    by_contra hne
    rcases hxafter y hy (Nat.pos_of_ne_zero hne) with h | h
    · simp only [h, List.length_nil] at hle
      omega
    · exact absurd (hphase.symm.trans h) nofun
  refine ⟨?_, fun y hy => ?_, ?_⟩
  · rw [hout, hs.out, htasks, hl]
    simp only [progress_append, progress_cons, progress_eq_nil hzero, List.append_nil,
      List.append_assoc, List.take_add]
  · rw [htasks, List.mem_append, List.mem_cons] at hy
    rcases hy with hy | rfl | hy
    · exact hs.consistent y (by rw [hl]; exact List.mem_append_left _ hy)
    · have hold := (hs.consistent x (List.mem_of_getElem? hx)).holding
      exact ⟨fun _ => by simp [hphase], hold, fun h => absurd (hphase.symm.trans h) nofun⟩
    · exact hs.consistent y (by rw [hl]; exact List.mem_append_right _ (.tail _ hy))
  · rw [htasks, List.pairwise_append, List.pairwise_cons]
    refine ⟨hbefore, ⟨fun y hy hw => ?_, hafter⟩, fun y hy z hz => ?_⟩
    · exact absurd (hzero y hy) (Nat.ne_of_gt hw)
    · rcases List.mem_cons.mp hz with rfl | hz
      · exact fun _ => hG y (by rw [htake]; exact hy)
      · exact hcross y hy z (.tail _ hz)

/-- A new request makes no task inconsistent. -/
theorem consistent_submit {s : Sink β} (hs : ∀ x ∈ s.tasks, x.Consistent) (op : Op β) :
    ∀ x ∈ (s.submit op).tasks, x.Consistent := by
  intro x hx
  rcases List.mem_append.mp hx with hx | hx
  · exact hs x hx
  · obtain rfl := List.mem_singleton.mp hx
    exact ⟨fun h => absurd h (Nat.lt_irrefl 0), nofun, nofun⟩

/-- A new request has written nothing. -/
theorem Ordered.submit {s : Sink β} (hs : Ordered s) (op : Op β) : Ordered (s.submit op) := by
  refine ⟨?_, consistent_submit hs.consistent op, ?_⟩
  · simp [Sink.submit, hs.out, progress]
  · refine List.pairwise_append.mpr ⟨hs.earlier, List.pairwise_singleton .., fun y _ z hz => ?_⟩
    obtain rfl := List.mem_singleton.mp hz
    exact fun h => absurd h (Nat.lt_irrefl 0)

/-- Every event in turn keeps the order. -/
theorem ordered_step {s s' : Sink β} {e : Event} (hs : Ordered s) (hG : InTurn s e)
    (h : step s e = some s') : Ordered s' := by
  cases e with
  | accept i =>
    obtain ⟨x, hx, h⟩ := Option.bind_eq_some_iff.mp h
    obtain ⟨hphase, ⟨⟩⟩ := Option.ite_none_right_eq_some.mp h
    have hbegun := (hs.consistent x (List.mem_of_getElem? hx)).begun
    exact hs.setPhase hx .waiting ⟨fun hw => absurd hphase (hbegun hw).1, nofun, nofun⟩
      (fun h => absurd (hphase.symm.trans h) nofun) rfl rfl
  | refuse i =>
    obtain ⟨x, hx, h⟩ := Option.bind_eq_some_iff.mp h
    obtain ⟨hphase, ⟨⟩⟩ := Option.ite_none_right_eq_some.mp h
    exact hs.setPhase hx .failed ⟨fun _ => ⟨nofun, nofun⟩, nofun, nofun⟩
      (fun h => absurd (hphase.symm.trans h) nofun) rfl rfl
  | take i =>
    obtain ⟨x, hx, h⟩ := Option.bind_eq_some_iff.mp h
    obtain ⟨⟨hphase, -⟩, h⟩ := Option.ite_none_right_eq_some.mp h
    have hback : x.phase ≠ .returned := fun h => absurd (hphase.symm.trans h) nofun
    have hbegun := (hs.consistent x (List.mem_of_getElem? hx)).begun
    split at h
    · rename_i hop
      obtain rfl := Option.some.inj h
      have hzero : x.written = 0 := by
        by_contra hne
        exact (hbegun (Nat.pos_of_ne_zero hne)).2 hphase
      exact hs.setPhase hx .returned
        ⟨fun _ => ⟨nofun, nofun⟩, nofun, fun _ => by simp [hzero, hop, Op.payload]⟩
        (fun _ => rfl) rfl rfl
    · rename_i hop
      have hwrite : x.op ≠ .close := by simp [hop]
      split at h
      · obtain rfl := Option.some.inj h
        exact hs.setPhase hx .failed ⟨fun _ => ⟨nofun, nofun⟩, nofun, nofun⟩
          (fun h => absurd h hback) rfl rfl
      · obtain rfl := Option.some.inj h
        exact hs.setPhase hx .holding ⟨fun _ => ⟨nofun, nofun⟩, fun _ h => hwrite h, nofun⟩
          (fun h => absurd h hback) rfl rfl
  | put i n =>
    obtain ⟨x, hx, h⟩ := Option.bind_eq_some_iff.mp h
    obtain ⟨⟨hphase, hn, hle⟩, ⟨⟩⟩ := Option.ite_none_right_eq_some.mp h
    exact hs.put hx hphase hn hle hG rfl rfl
  | finish i =>
    obtain ⟨x, hx, h⟩ := Option.bind_eq_some_iff.mp h
    obtain ⟨⟨-, hwhole⟩, ⟨⟩⟩ := Option.ite_none_right_eq_some.mp h
    exact hs.setPhase hx .returned ⟨fun _ => ⟨nofun, nofun⟩, nofun, fun _ => hwhole⟩ (fun _ => rfl)
      rfl rfl
  | fail i =>
    obtain ⟨x, hx, h⟩ := Option.bind_eq_some_iff.mp h
    obtain ⟨⟨hphase, -⟩, ⟨⟩⟩ := Option.ite_none_right_eq_some.mp h
    exact hs.setPhase hx .failed ⟨fun _ => ⟨nofun, nofun⟩, nofun, nofun⟩
      (fun h => absurd (hphase.symm.trans h) nofun) rfl rfl

/-! ### What the sink got -/

/-- A task that is through has written its payload. -/
theorem Task.Consistent.take_eq {x : Task β} (hx : x.Consistent) (h : x.Through) :
    x.op.payload.take x.written = x.op.payload := by
  rcases h with h | h
  · rw [h, List.take_nil]
  · rw [hx.whole h, List.take_length]

/-- The sink got an initial part of all payloads. -/
theorem Ordered.initial {s : Sink β} (hs : Ordered s) : s.out <+: payloads s := by
  obtain ⟨hout, hconsistent, hearlier⟩ := hs
  rw [hout, payloads]
  generalize s.tasks = tasks at hconsistent hearlier
  induction tasks with
  | nil => exact List.prefix_refl _
  | cons x tasks ih =>
    rw [List.pairwise_cons] at hearlier
    rw [progress_cons, List.flatMap_cons]
    by_cases hx : x.Through
    · rw [(hconsistent x (.head _)).take_eq hx, List.prefix_append_right_inj]
      exact ih (fun y hy => hconsistent y (.tail _ hy)) hearlier.2
    · -- nobody after a task that is not through has begun
      have hzero : ∀ y ∈ tasks, y.written = 0 := fun y hy => by
        by_contra hne
        exact hx (hearlier.1 y hy (Nat.pos_of_ne_zero hne))
      rw [progress_eq_nil hzero, List.append_nil]
      exact (List.take_prefix ..).trans (List.prefix_append ..)

/-- Tasks that are all through have written their payloads. -/
theorem progress_eq_payloads {s : Sink β} (hs : ∀ x ∈ s.tasks, x.Consistent)
    (h : ∀ x ∈ s.tasks, x.Through) : progress s.tasks = payloads s := by
  rw [progress, payloads]
  exact List.flatMap_congr fun x hx => (hs x hx).take_eq (h x hx)

/-- Once every task is through, the sink got all payloads. -/
theorem Ordered.eq_payloads {s : Sink β} (hs : Ordered s) (h : ∀ x ∈ s.tasks, x.Through) :
    s.out = payloads s := by
  rw [hs.out, progress_eq_payloads hs.consistent h]

/-! ### The requests -/

/-- An event moves one task, which has not returned, and only a task that closes the sink
changes whether it is closed. -/
theorem step_moves {s s' : Sink β} {e : Event} (hs : ∀ x ∈ s.tasks, x.Consistent)
    (h : step s e = some s') :
    ∃ i x y, s.tasks[i]? = some x ∧ s'.tasks = s.tasks.set i y ∧ y.op = x.op ∧ y.Consistent ∧
      x.phase ≠ .returned ∧ (s.closed = true → s'.closed = true) ∧
      (s'.closed = true → s.closed = true ∨ e = .take i ∧ x.op = .close) ∧
      (y.op = .close → y.phase = .returned → s'.closed = true) := by
  have hconsistent : ∀ {i : ℕ} {x : Task β}, s.tasks[i]? = some x → x.Consistent :=
    fun hx => hs _ (List.mem_of_getElem? hx)
  cases e with
  | accept i =>
    obtain ⟨x, hx, h⟩ := Option.bind_eq_some_iff.mp h
    obtain ⟨hphase, ⟨⟩⟩ := Option.ite_none_right_eq_some.mp h
    have hbegun := (hconsistent hx).begun
    exact ⟨i, x, _, hx, rfl, rfl, ⟨fun hw => absurd hphase (hbegun hw).1, nofun, nofun⟩,
      by simp [hphase], id, .inl, nofun⟩
  | refuse i =>
    obtain ⟨x, hx, h⟩ := Option.bind_eq_some_iff.mp h
    obtain ⟨hphase, ⟨⟩⟩ := Option.ite_none_right_eq_some.mp h
    exact ⟨i, x, _, hx, rfl, rfl, ⟨fun _ => ⟨nofun, nofun⟩, nofun, nofun⟩, by simp [hphase], id,
      .inl, nofun⟩
  | take i =>
    obtain ⟨x, hx, h⟩ := Option.bind_eq_some_iff.mp h
    obtain ⟨⟨hphase, -⟩, h⟩ := Option.ite_none_right_eq_some.mp h
    have hbegun := (hconsistent hx).begun
    split at h
    · rename_i hop
      obtain rfl := Option.some.inj h
      have hzero : x.written = 0 := by
        by_contra hne
        exact (hbegun (Nat.pos_of_ne_zero hne)).2 hphase
      exact ⟨i, x, _, hx, rfl, rfl,
        ⟨fun _ => ⟨nofun, nofun⟩, nofun, fun _ => by simp [hzero, hop, Op.payload]⟩,
        by simp [hphase], fun _ => rfl, fun _ => .inr ⟨rfl, hop⟩, fun _ _ => rfl⟩
    · rename_i hop
      have hwrite : x.op ≠ .close := by simp [hop]
      split at h
      · obtain rfl := Option.some.inj h
        exact ⟨i, x, _, hx, rfl, rfl, ⟨fun _ => ⟨nofun, nofun⟩, nofun, nofun⟩, by simp [hphase],
          id, .inl, nofun⟩
      · obtain rfl := Option.some.inj h
        exact ⟨i, x, _, hx, rfl, rfl, ⟨fun _ => ⟨nofun, nofun⟩, fun _ h => hwrite h, nofun⟩,
          by simp [hphase], id, .inl, nofun⟩
  | put i n =>
    obtain ⟨x, hx, h⟩ := Option.bind_eq_some_iff.mp h
    obtain ⟨⟨hphase, -, -⟩, ⟨⟩⟩ := Option.ite_none_right_eq_some.mp h
    have hop := (hconsistent hx).holding hphase
    have hback : x.phase ≠ .returned := fun h => absurd (hphase.symm.trans h) nofun
    exact ⟨i, x, _, hx, rfl, rfl,
      ⟨fun _ => by simp [hphase], fun _ => hop, fun h => absurd h hback⟩, hback, id, .inl,
      fun hclose _ => (hop hclose).elim⟩
  | finish i =>
    obtain ⟨x, hx, h⟩ := Option.bind_eq_some_iff.mp h
    obtain ⟨⟨hphase, hwhole⟩, ⟨⟩⟩ := Option.ite_none_right_eq_some.mp h
    have hop := (hconsistent hx).holding hphase
    exact ⟨i, x, _, hx, rfl, rfl, ⟨fun _ => ⟨nofun, nofun⟩, nofun, fun _ => hwhole⟩,
      by simp [hphase], id, .inl, fun hclose _ => (hop hclose).elim⟩
  | fail i =>
    obtain ⟨x, hx, h⟩ := Option.bind_eq_some_iff.mp h
    obtain ⟨⟨hphase, -⟩, ⟨⟩⟩ := Option.ite_none_right_eq_some.mp h
    exact ⟨i, x, _, hx, rfl, rfl, ⟨fun _ => ⟨nofun, nofun⟩, nofun, nofun⟩, by simp [hphase], id,
      .inl, nofun⟩

/-- No event makes a task inconsistent, in turn or not. -/
theorem consistent_step {s s' : Sink β} {e : Event} (hs : ∀ x ∈ s.tasks, x.Consistent)
    (h : step s e = some s') : ∀ x ∈ s'.tasks, x.Consistent := by
  obtain ⟨i, x, y, -, htasks, -, hy, -⟩ := step_moves hs h
  intro z hz
  rw [htasks] at hz
  rcases List.mem_or_eq_of_mem_set hz with hz | rfl
  · exact hs z hz
  · exact hy

/-- No event changes what was requested. -/
theorem ops_step {s s' : Sink β} {e : Event} (hs : ∀ x ∈ s.tasks, x.Consistent)
    (h : step s e = some s') : s'.tasks.map (·.op) = s.tasks.map (·.op) := by
  obtain ⟨i, x, y, hx, htasks, hop, -⟩ := step_moves hs h
  obtain ⟨before, after, hl, -, hset⟩ := exists_around hx
  rw [htasks, hset, hl]
  simp [hop]

/-- No event changes the payloads. -/
theorem payloads_step {s s' : Sink β} {e : Event} (hs : ∀ x ∈ s.tasks, x.Consistent)
    (h : step s e = some s') : payloads s' = payloads s := by
  have hmap : ∀ u : Sink β, payloads u = (u.tasks.map (·.op)).flatMap Op.payload := fun u => by
    rw [payloads, List.flatMap_map]
  rw [hmap, hmap, ops_step hs h]

/-- Tasks that are all through stay so. -/
theorem through_step {s s' : Sink β} {e : Event} (hs : ∀ x ∈ s.tasks, x.Consistent)
    (h : step s e = some s') (hall : ∀ x ∈ s.tasks, x.Through) : ∀ x ∈ s'.tasks, x.Through := by
  obtain ⟨i, x, y, hx, htasks, hop, -, hphase, -⟩ := step_moves hs h
  intro z hz
  rw [htasks] at hz
  rcases List.mem_or_eq_of_mem_set hz with hz | rfl
  · exact hall z hz
  · refine .inl (hop ▸ ?_)
    exact (hall x (List.mem_of_getElem? hx)).resolve_right hphase

end LockedSink

end RemoteWorkspace.Computation
