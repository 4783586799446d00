import Mathlib.Data.List.Perm.Basic
import RemoteWorkspace.Computation.Machine
import RemoteWorkspace.Computation.Slots

/-!
# A value in memory and the copy that is written

A value is kept in memory and in a copy that is slow to write. A call computes the next value
from the one in memory, writes it to the copy, and puts it in memory when the write has
returned; a write replaces the whole copy, or fails and leaves it. Calls overlap at will.

A write made from an old value undoes what was written since. When every write gives what its
call would make of the copy as it is, and the last value put in memory is that of the copy,
the calls are serializable: once all have ended, memory and copy agree, and are what the calls
that succeeded make of the first value in some order (`serializable`). Calls one at a time are
a case of this (`undisturbed_of_oneAtATime`).
-/

set_option autoImplicit false

namespace RemoteWorkspace.Computation

namespace WriteBack

/-- What a call makes of a value: it is refused, or it answers and leaves the value, or it
answers and gives the next one. -/
inductive Outcome (σ ρ : Type) where
  | refused (message : String)
  | unchanged (answer : ρ)
  | changed (answer : ρ) (next : σ)
  deriving DecidableEq

variable {σ κ ρ : Type} (effect : κ → σ → Outcome σ ρ)

/-- The value after a call. -/
def after (c : κ) (v : σ) : σ :=
  match effect c v with
  | .changed _ next => next
  | _ => v

/-- The value after calls, one after another. -/
def afterAll (order : List κ) (v : σ) : σ := order.foldl (fun v c => after effect c v) v

/-- Where a call stands: its next value is computed, is written, is in memory; or there was
nothing to write; or it failed. -/
inductive Phase where
  | computed
  | written
  | assigned
  | unchanged
  | failed
  deriving DecidableEq

/-- A call, and the value in memory that it read. -/
structure Pending (κ σ : Type) where
  call : κ
  read : σ
  phase : Phase
  deriving DecidableEq

/-- The value that a call writes, and puts in memory. -/
def Pending.next (p : Pending κ σ) : σ := after effect p.call p.read

/-- The value in memory, the copy, and the calls, which are named by their position. -/
structure State (κ σ : Type) where
  memory : σ
  copy : σ
  calls : List (Pending κ σ)
  deriving DecidableEq

/-- A call begins; its write lands; it fails instead; its value is put in memory. -/
inductive Event (κ : Type) where
  | begin (call : κ)
  | written (k : ℕ)
  | failed (k : ℕ)
  | assigned (k : ℕ)
  deriving DecidableEq

/-- The calls with one of them in another phase. -/
def State.move (s : State κ σ) (k : ℕ) (p : Pending κ σ) (phase : Phase) : State κ σ :=
  { s with calls := s.calls.set k { p with phase := phase } }

/-- The phase that a call begins in. -/
def Outcome.phase : Outcome σ ρ → Phase
  | .refused _ => .failed
  | .unchanged _ => .unchanged
  | .changed _ _ => .computed

/-- A call that begins with a computed value changes the value it read. -/
theorem Outcome.changed_of_phase {outcome : Outcome σ ρ} (h : outcome.phase = .computed) :
    ∃ answer next, outcome = .changed answer next := by
  cases outcome with
  | refused message => cases h
  | unchanged answer => cases h
  | changed answer next => exact ⟨answer, next, rfl⟩

/-- A call that begins has written nothing yet. -/
theorem Outcome.phase_of_begin (outcome : Outcome σ ρ) :
    outcome.phase ≠ .written ∧ outcome.phase ≠ .assigned := by
  cases outcome <;> exact ⟨Phase.noConfusion, Phase.noConfusion⟩

/-- One uninterrupted piece of a call. -/
def step (s : State κ σ) : Event κ → Option (State κ σ)
  | .begin call =>
    some { s with
      calls := s.calls ++ [⟨call, s.memory, Outcome.phase (effect call s.memory)⟩] }
  | .written k =>
    (s.calls[k]?).bind fun p =>
      if p.phase = .computed then some ({ s with copy := p.next effect }.move k p .written)
      else none
  | .failed k =>
    (s.calls[k]?).bind fun p => if p.phase = .computed then some (s.move k p .failed) else none
  | .assigned k =>
    (s.calls[k]?).bind fun p =>
      if p.phase = .written then some ({ s with memory := p.next effect }.move k p .assigned)
      else none

/-- The calls on a value that is in memory and in the copy. -/
def machine (v : σ) : Machine (State κ σ) (Event κ) := ⟨⟨v, v, []⟩, step effect⟩

/-! ### What every value has -/

/-- Memory, the copy, and the values that calls write all have a property. -/
structure Everywhere (effect : κ → σ → Outcome σ ρ) (P : σ → Prop) (s : State κ σ) : Prop where
  memory : P s.memory
  copy : P s.copy
  nexts : ∀ p ∈ s.calls, P (p.next effect)

/-- A property of the first value. -/
theorem everywhere_init {effect : κ → σ → Outcome σ ρ} {P : σ → Prop} {v : σ} (h : P v) :
    Everywhere effect P ⟨v, v, []⟩ := by
  refine ⟨h, h, fun p hp => ?_⟩
  cases hp

/-- A call that stands elsewhere writes the same value. -/
theorem Everywhere.move {effect : κ → σ → Outcome σ ρ} {P : σ → Prop} {s : State κ σ}
    (h : Everywhere effect P s) {k : ℕ} {p : Pending κ σ} (hk : s.calls[k]? = some p)
    (phase : Phase) : Everywhere effect P (s.move k p phase) := by
  refine ⟨h.memory, h.copy, fun q hq => ?_⟩
  rcases List.mem_or_eq_of_mem_set hq with hq | rfl
  · exact h.nexts q hq
  · exact h.nexts p (List.mem_of_getElem? hk)

/-- A property stays that each call gives the next value, where it begins. -/
theorem everywhere_step {effect : κ → σ → Outcome σ ρ} {P : σ → Prop} {s t : State κ σ}
    {e : Event κ} (h : Everywhere effect P s)
    (hbegin : ∀ c, e = .begin c → P (after effect c s.memory))
    (hstep : step effect s e = some t) : Everywhere effect P t := by
  cases e with
  | begin c =>
    obtain rfl := Option.some.inj hstep
    refine ⟨h.memory, h.copy, fun p hp => ?_⟩
    rcases List.mem_append.mp hp with hp | hp
    · exact h.nexts p hp
    · obtain rfl := List.mem_singleton.mp hp
      exact hbegin c rfl
  | written k =>
    obtain ⟨p, hk, hp⟩ := Option.bind_eq_some_iff.mp hstep
    obtain ⟨-, ht⟩ := Option.ite_none_right_eq_some.mp hp
    obtain rfl := Option.some.inj ht
    have hnext : P (p.next effect) := h.nexts p (List.mem_of_getElem? hk)
    exact Everywhere.move (s := { s with copy := p.next effect }) ⟨h.memory, hnext, h.nexts⟩ hk _
  | failed k =>
    obtain ⟨p, hk, hp⟩ := Option.bind_eq_some_iff.mp hstep
    obtain ⟨-, ht⟩ := Option.ite_none_right_eq_some.mp hp
    obtain rfl := Option.some.inj ht
    exact h.move hk _
  | assigned k =>
    obtain ⟨p, hk, hp⟩ := Option.bind_eq_some_iff.mp hstep
    obtain ⟨-, ht⟩ := Option.ite_none_right_eq_some.mp hp
    obtain rfl := Option.some.inj ht
    have hnext : P (p.next effect) := h.nexts p (List.mem_of_getElem? hk)
    exact Everywhere.move (s := { s with memory := p.next effect }) ⟨hnext, h.copy, h.nexts⟩ hk _

/-! ### What is asked of the calls -/

/-- A call that has answered: its value is in memory, or there was nothing to write. -/
def Phase.Succeeded (phase : Phase) : Prop := phase = .assigned ∨ phase = .unchanged

instance (phase : Phase) : Decidable phase.Succeeded := by
  unfold Phase.Succeeded
  infer_instance

/-- The calls that succeeded. -/
def succeeded (s : State κ σ) : List κ :=
  (s.calls.filter fun p => decide p.phase.Succeeded).map Pending.call

/-- Every call has ended. -/
def Settled (s : State κ σ) : Prop := ∀ p ∈ s.calls, p.phase.Succeeded ∨ p.phase = .failed

instance (s : State κ σ) : Decidable (Settled s) := by
  unfold Settled
  infer_instance

/-- Memory and copy agree, and are what the calls that succeeded make of a value in some
order. -/
def Serializable (v : σ) (s : State κ σ) : Prop :=
  s.memory = s.copy ∧ ∃ order : List κ, order.Perm (succeeded s) ∧ afterAll effect order v = s.copy

/-- A write gives what its call makes of the copy as it is; a value is put in memory when the
copy has it, or another call whose value the copy has is still to put it there. -/
def Undisturbed (s : State κ σ) : Event κ → Prop
  | .written k => ∀ p ∈ s.calls[k]?, after effect p.call s.copy = after effect p.call p.read
  | .assigned k => ∀ p ∈ s.calls[k]?, p.next effect = s.copy ∨
      ∃ q ∈ s.calls.eraseIdx k, q.phase = .written ∧ q.next effect = s.copy
  | _ => True

instance [DecidableEq σ] (s : State κ σ) (e : Event κ) : Decidable (Undisturbed effect s e) := by
  cases e <;> unfold Undisturbed <;> infer_instance

variable {effect} {v w : σ} {s t : State κ σ} {k : ℕ} {p : Pending κ σ}

/-! ### Orders -/

/-- A value that the first calls of an order give. -/
def Reached (effect : κ → σ → Outcome σ ρ) (v : σ) (order : List κ) (w : σ) : Prop :=
  ∃ first, first <+: order ∧ afterAll effect first v = w

/-- One more call at the end. -/
theorem afterAll_concat (order : List κ) (c : κ) (v : σ) :
    afterAll effect (order ++ [c]) v = after effect c (afterAll effect order v) := by
  rw [afterAll, List.foldl_append]
  rfl

/-- A call that changes nothing where it is put in. -/
theorem afterAll_insert {c : κ} {first : List κ}
    (hc : after effect c (afterAll effect first v) = afterAll effect first v) (rest : List κ) :
    afterAll effect (first ++ c :: rest) v = afterAll effect (first ++ rest) v := by
  simp only [afterAll, List.foldl_append, List.foldl_cons] at hc ⊢
  rw [hc]

/-- What was given is still given when a call is added at the end. -/
theorem Reached.concat {order : List κ} (h : Reached effect v order w) (c : κ) :
    Reached effect v (order ++ [c]) w := by
  obtain ⟨first, hfirst, hw⟩ := h
  exact ⟨first, hfirst.trans (List.prefix_append _ _), hw⟩

/-- What was given is still given when a call that changes nothing is put in. -/
theorem Reached.insert {c : κ} {first rest : List κ}
    (hc : after effect c (afterAll effect first v) = afterAll effect first v)
    (h : Reached effect v (first ++ rest) w) : Reached effect v (first ++ c :: rest) w := by
  obtain ⟨before, hbefore, hw⟩ := h
  rcases List.prefix_or_prefix_of_prefix hbefore (List.prefix_append first rest) with hle | hge
  · exact ⟨before, hle.trans (List.prefix_append _ _), hw⟩
  · obtain ⟨more, rfl⟩ := hge
    have hmore : more <+: rest := (List.prefix_append_right_inj first).mp hbefore
    refine ⟨first ++ c :: more, ?_, (afterAll_insert hc more).trans hw⟩
    rw [List.prefix_append_right_inj]
    exact List.cons_prefix_cons.mpr ⟨rfl, hmore⟩

/-! ### The calls whose effect is in the copy -/

/-- A call whose write has landed, or that had nothing to write. -/
def Phase.Landed (phase : Phase) : Prop := phase = .written ∨ phase.Succeeded

instance (phase : Phase) : Decidable phase.Landed := by
  unfold Phase.Landed
  infer_instance

/-- The calls whose effect is in the copy. -/
def landed (calls : List (Pending κ σ)) : List κ :=
  (calls.filter fun p => decide p.phase.Landed).map Pending.call

/-- A call in front whose effect is in the copy. -/
theorem landed_cons_of (h : p.phase.Landed) (calls : List (Pending κ σ)) :
    landed (p :: calls) = p.call :: landed calls := by
  rw [landed, List.filter_cons, if_pos (decide_eq_true h)]
  rfl

/-- A call in front whose effect is not in the copy. -/
theorem landed_cons_of_not (h : ¬ p.phase.Landed) (calls : List (Pending κ σ)) :
    landed (p :: calls) = landed calls := by
  rw [landed, List.filter_cons, if_neg (by simpa using h)]
  rfl

/-- A call at the end. -/
theorem landed_concat (calls : List (Pending κ σ)) (p : Pending κ σ) :
    landed (calls ++ [p]) = landed calls ++ landed [p] := by
  rw [landed, List.filter_append, List.map_append]
  rfl

/-- The calls as one of them and the others. -/
theorem landed_split {calls : List (Pending κ σ)} (hk : calls[k]? = some p) :
    (landed calls).Perm (landed (p :: calls.eraseIdx k)) := by
  obtain ⟨hlt, rfl⟩ := List.getElem?_eq_some_iff.mp hk
  exact ((List.getElem_cons_eraseIdx_perm hlt).symm.filter _).map _

/-- The calls after a move of one of them, as that one and the others. -/
theorem landed_set {calls : List (Pending κ σ)} (hk : calls[k]? = some p) (p' : Pending κ σ) :
    (landed (calls.set k p')).Perm (landed (p' :: calls.eraseIdx k)) := by
  obtain ⟨hlt, -⟩ := List.getElem?_eq_some_iff.mp hk
  exact ((List.set_perm_cons_eraseIdx hlt p').filter _).map _

/-- A write that lands adds its call. -/
theorem landed_written {calls : List (Pending κ σ)} (hk : calls[k]? = some p)
    (hphase : ¬ p.phase.Landed) {phase : Phase} (hnew : phase.Landed) :
    (landed calls ++ [p.call]).Perm (landed (calls.set k { p with phase := phase })) := by
  have hold := landed_split hk
  rw [landed_cons_of_not hphase] at hold
  have hset := landed_set hk { p with phase := phase }
  rw [landed_cons_of hnew] at hset
  exact ((hold.append_right _).trans (List.perm_append_singleton _ _)).trans hset.symm

/-- A call whose effect stays in the copy, or out of it. -/
theorem landed_same {calls : List (Pending κ σ)} (hk : calls[k]? = some p) {phase : Phase}
    (hsame : phase.Landed ↔ p.phase.Landed) :
    (landed calls).Perm (landed (calls.set k { p with phase := phase })) := by
  refine (landed_split hk).trans (.trans ?_ (landed_set hk { p with phase := phase }).symm)
  by_cases hphase : p.phase.Landed
  · rw [landed_cons_of hphase, landed_cons_of (p := { p with phase := phase }) (hsame.mpr hphase)]
  · rw [landed_cons_of_not hphase,
      landed_cons_of_not (p := { p with phase := phase }) (fun h => hphase (hsame.mp h))]

/-- A call that has not ended. -/
def Phase.Running (phase : Phase) : Prop := phase = .computed ∨ phase = .written

instance (phase : Phase) : Decidable phase.Running := by
  unfold Phase.Running
  infer_instance

/-! ### What every value in memory will have -/

/-- Memory, and every value that a running call is to put there, have a property. -/
structure Coming (effect : κ → σ → Outcome σ ρ) (P : σ → Prop) (s : State κ σ) : Prop where
  memory : P s.memory
  nexts : ∀ p ∈ s.calls, p.phase.Running → P (p.next effect)

instance (P : σ → Prop) [DecidablePred P] (s : State κ σ) : Decidable (Coming effect P s) :=
  decidable_of_iff (P s.memory ∧ ∀ p ∈ s.calls, p.phase.Running → P (p.next effect))
    ⟨fun h => ⟨h.1, h.2⟩, fun h => ⟨h.memory, h.nexts⟩⟩

/-- A weaker property. -/
theorem Coming.mono {P Q : σ → Prop} (h : Coming effect P s) (hPQ : ∀ v, P v → Q v) :
    Coming effect Q s :=
  ⟨hPQ _ h.memory, fun p hp hrunning => hPQ _ (h.nexts p hp hrunning)⟩

/-- A call that stands elsewhere writes the same value. -/
theorem Coming.move {P : σ → Prop} (h : Coming effect P s) (hk : s.calls[k]? = some p)
    (hrunning : p.phase.Running) (phase : Phase) : Coming effect P (s.move k p phase) := by
  refine ⟨h.memory, fun q hq hq' => ?_⟩
  rcases List.mem_or_eq_of_mem_set hq with hq | rfl
  · exact h.nexts q hq hq'
  · exact h.nexts p (List.mem_of_getElem? hk) hrunning

/-- Two properties. -/
theorem Coming.and {P Q : σ → Prop} (hP : Coming effect P s) (hQ : Coming effect Q s) :
    Coming effect (fun v => P v ∧ Q v) s :=
  ⟨⟨hP.memory, hQ.memory⟩, fun p hp hrunning => ⟨hP.nexts p hp hrunning, hQ.nexts p hp hrunning⟩⟩

/-- A property stays that each call gives the next value, where it begins. -/
theorem coming_step {P : σ → Prop} {e : Event κ} (h : Coming effect P s)
    (hbegin : ∀ c, e = .begin c → P (after effect c s.memory))
    (hstep : step effect s e = some t) : Coming effect P t := by
  cases e with
  | begin c =>
    obtain rfl := Option.some.inj hstep
    refine ⟨h.memory, fun q hq hrunning => ?_⟩
    rcases List.mem_append.mp hq with hq | hq
    · exact h.nexts q hq hrunning
    · obtain rfl := List.mem_singleton.mp hq
      exact hbegin c rfl
  | written k =>
    obtain ⟨p, hk, hp⟩ := Option.bind_eq_some_iff.mp hstep
    obtain ⟨hphase, ht⟩ := Option.ite_none_right_eq_some.mp hp
    obtain rfl := Option.some.inj ht
    exact Coming.move (s := { s with copy := p.next effect }) ⟨h.memory, h.nexts⟩ hk (.inl hphase) _
  | failed k =>
    obtain ⟨p, hk, hp⟩ := Option.bind_eq_some_iff.mp hstep
    obtain ⟨hphase, ht⟩ := Option.ite_none_right_eq_some.mp hp
    obtain rfl := Option.some.inj ht
    exact h.move hk (.inl hphase) _
  | assigned k =>
    obtain ⟨p, hk, hp⟩ := Option.bind_eq_some_iff.mp hstep
    obtain ⟨hphase, ht⟩ := Option.ite_none_right_eq_some.mp hp
    obtain rfl := Option.some.inj ht
    have hnext : P (p.next effect) := h.nexts p (List.mem_of_getElem? hk) (.inr hphase)
    exact Coming.move (s := { s with memory := p.next effect }) ⟨hnext, h.nexts⟩ hk (.inr hphase) _

/-- A property that a call does not give the next value is not coming once it has begun. -/
theorem not_coming_begin {P : σ → Prop} {c : κ} (hP : ¬ P (after effect c s.memory))
    (hstep : step effect s (.begin c) = some t) : ¬ Coming effect P t := by
  obtain rfl := Option.some.inj hstep
  intro h
  apply hP
  cases heffect : effect c s.memory with
  | changed answer next =>
    have hnext : P (Pending.next effect ⟨c, s.memory, .computed⟩) := by
      refine h.nexts _ ?_ (.inl rfl)
      rw [heffect]
      exact List.mem_append_right _ (List.mem_singleton_self _)
    exact hnext
  | refused message =>
    rw [after, heffect]
    exact h.memory
  | unchanged answer =>
    rw [after, heffect]
    exact h.memory

/-- The calls go on, and none begins, until memory has a property. -/
def GoesOn (effect : κ → σ → Outcome σ ρ) (P : σ → Prop) (s : State κ σ) : Prop :=
  ∃ (es : List (Event κ)) (u : State κ σ), (∀ e ∈ es, ∀ c, e ≠ .begin c) ∧
    (machine effect s.memory).runFrom s es = some u ∧ P u.memory

/-- A call whose value is written puts it in memory. -/
theorem goesOn_written {P : σ → Prop} (hk : s.calls[k]? = some p) (hphase : p.phase = .written)
    (hP : P (p.next effect)) : GoesOn effect P s := by
  have hstep : step effect s (.assigned k) =
      some ({ s with memory := p.next effect }.move k p .assigned) := by
    rw [step, hk, Option.bind_some, if_pos hphase]
  refine ⟨[.assigned k], _, fun e he c => ?_, Option.bind_eq_some_iff.mpr ⟨_, hstep, rfl⟩, hP⟩
  rw [List.mem_singleton.mp he]
  exact fun heq => by cases heq

/-- A running call can go on until its value is in memory. -/
theorem goesOn_running {P : σ → Prop} (hk : s.calls[k]? = some p) (hrunning : p.phase.Running)
    (hP : P (p.next effect)) : GoesOn effect P s := by
  rcases hrunning with hcomputed | hwritten
  · have hstep : step effect s (.written k) =
        some ({ s with copy := p.next effect }.move k p .written) := by
      rw [step, hk, Option.bind_some, if_pos hcomputed]
    have hlt : k < s.calls.length := (List.getElem?_eq_some_iff.mp hk).1
    obtain ⟨es, u, hes, hrun, hu⟩ := goesOn_written (P := P) (p := { p with phase := .written })
      (s := { s with copy := p.next effect }.move k p .written) (List.getElem?_set_self hlt) rfl hP
    refine ⟨.written k :: es, u, fun e he c => ?_, Option.bind_eq_some_iff.mpr ⟨_, hstep, hrun⟩, hu⟩
    rcases List.mem_cons.mp he with rfl | he
    · exact fun heq => by cases heq
    · exact hes e he c
  · exact goesOn_written hk hwritten hP

/-- Where a property is not coming, the calls go on until memory does not have it. -/
theorem goesOn_of_not_coming {P : σ → Prop} (h : ¬ Coming effect P s) :
    GoesOn effect (fun v => ¬ P v) s := by
  by_cases hmemory : P s.memory
  · have hnext : ∃ p ∈ s.calls, p.phase.Running ∧ ¬ P (p.next effect) := by
      by_contra hnone
      push Not at hnone
      exact h ⟨hmemory, hnone⟩
    obtain ⟨p, hp, hrunning, hP⟩ := hnext
    obtain ⟨k, hk⟩ := List.mem_iff_getElem?.mp hp
    exact goesOn_running hk hrunning hP
  · refine ⟨[], s, fun e he => ?_, rfl, hmemory⟩
    cases he

/-- A call that has ended does not run. -/
theorem Settled.not_running (h : Settled s) (hp : p ∈ s.calls) : ¬ p.phase.Running := by
  have hended := h p hp
  revert hended
  cases p.phase <;> decide

/-! ### Runs -/

/-- The copy is what the calls whose effect is in it make of the first value in an order; the
value in memory, and those still to be put there, are what the first calls of that order make
of it; and memory has the value of the copy, or is still to get it. -/
structure Ordered (effect : κ → σ → Outcome σ ρ) (v : σ) (order : List κ) (s : State κ σ) :
    Prop where
  perm : order.Perm (landed s.calls)
  copy : afterAll effect order v = s.copy
  memory : Reached effect v order s.memory
  nexts : ∀ q ∈ s.calls, q.phase = .written → Reached effect v order (q.next effect)
  agree : s.memory = s.copy ∨ ∃ q ∈ s.calls, q.phase = .written ∧ q.next effect = s.copy

/-- A call is added whose effect is not in the copy. -/
theorem Ordered.push {order : List κ} (h : Ordered effect v order s) {q : Pending κ σ}
    (hq : ¬ q.phase.Landed) : Ordered effect v order { s with calls := s.calls ++ [q] } where
  perm := by
    rw [landed_concat, landed_cons_of_not hq]
    exact h.perm.trans (.of_eq (List.append_nil _).symm)
  copy := h.copy
  memory := h.memory
  nexts r hr hphase := by
    rcases List.mem_append.mp hr with hr | hr
    · exact h.nexts r hr hphase
    · rw [List.mem_singleton.mp hr] at hphase
      exact absurd (.inl hphase) hq
  agree := h.agree.imp_right fun ⟨r, hr, hrs⟩ => ⟨r, List.mem_append_left _ hr, hrs⟩

/-- A call is added that has nothing to write: it comes where memory is in the order. -/
theorem Ordered.pass {first rest : List κ} (h : Ordered effect v (first ++ rest) s)
    (hmemory : afterAll effect first v = s.memory) {q : Pending κ σ} (hq : q.phase = .unchanged)
    (hsame : after effect q.call s.memory = s.memory) :
    Ordered effect v (first ++ q.call :: rest) { s with calls := s.calls ++ [q] } := by
  have hneutral : after effect q.call (afterAll effect first v) = afterAll effect first v := by
    rw [hmemory]
    exact hsame
  refine ⟨?_, (afterAll_insert hneutral rest).trans h.copy, h.memory.insert hneutral, ?_, ?_⟩
  · rw [landed_concat, landed_cons_of (.inr (.inr hq))]
    refine List.perm_middle.trans ?_
    exact (List.perm_append_singleton _ _).symm.trans (h.perm.append_right _)
  · intro r hr hphase
    rcases List.mem_append.mp hr with hr | hr
    · exact (h.nexts r hr hphase).insert hneutral
    · rw [List.mem_singleton.mp hr, hq] at hphase
      cases hphase
  · exact h.agree.imp_right fun ⟨r, hr, hrs⟩ => ⟨r, List.mem_append_left _ hr, hrs⟩

/-- A call begins. -/
theorem ordered_begin {order : List κ} (h : Ordered effect v order s) (c : κ)
    (hstep : step effect s (.begin c) = some t) : ∃ order', Ordered effect v order' t := by
  obtain rfl := Option.some.inj hstep
  cases heffect : effect c s.memory with
  | refused message =>
    have hout : ¬ Phase.failed.Landed := by decide
    exact ⟨order, h.push (q := ⟨c, s.memory, .failed⟩) hout⟩
  | unchanged answer =>
    obtain ⟨first, ⟨rest, rfl⟩, hmemory⟩ := h.memory
    have hsame : after effect c s.memory = s.memory := by
      rw [after, heffect]
    exact ⟨_, h.pass (q := ⟨c, s.memory, .unchanged⟩) hmemory rfl hsame⟩
  | changed answer next =>
    have hout : ¬ Phase.computed.Landed := by decide
    exact ⟨order, h.push (q := ⟨c, s.memory, .computed⟩) hout⟩

/-- A write lands that gives what its call makes of the copy. -/
theorem ordered_written {order : List κ} (h : Ordered effect v order s)
    (hG : Undisturbed effect s (.written k)) (hstep : step effect s (.written k) = some t) :
    ∃ order', Ordered effect v order' t := by
  obtain ⟨p, hk, hp⟩ := Option.bind_eq_some_iff.mp hstep
  obtain ⟨hphase, ht⟩ := Option.ite_none_right_eq_some.mp hp
  obtain rfl := Option.some.inj ht
  have hnext : after effect p.call s.copy = p.next effect := hG p hk
  have hlt : k < s.calls.length := (List.getElem?_eq_some_iff.mp hk).1
  refine ⟨order ++ [p.call], ?_, ?_, h.memory.concat _, ?_, .inr ?_⟩
  · have hout : ¬ p.phase.Landed := by
      rw [hphase]
      decide
    have hin : Phase.written.Landed := by decide
    exact (h.perm.append_right _).trans (landed_written hk hout hin)
  · rw [afterAll_concat, h.copy]
    exact hnext
  · intro q hq hwritten
    rcases List.mem_or_eq_of_mem_set hq with hq | rfl
    · exact (h.nexts q hq hwritten).concat _
    · refine ⟨_, List.prefix_rfl, ?_⟩
      rw [afterAll_concat, h.copy]
      exact hnext
  · exact ⟨{ p with phase := .written }, List.mem_set hlt _, rfl, rfl⟩

/-- A call fails before its write. -/
theorem ordered_failed {order : List κ} (h : Ordered effect v order s)
    (hstep : step effect s (.failed k) = some t) : Ordered effect v order t := by
  obtain ⟨p, hk, hp⟩ := Option.bind_eq_some_iff.mp hstep
  obtain ⟨hphase, ht⟩ := Option.ite_none_right_eq_some.mp hp
  obtain rfl := Option.some.inj ht
  have hlanded : Phase.failed.Landed ↔ p.phase.Landed := by
    rw [hphase]
    decide
  refine ⟨h.perm.trans (landed_same hk hlanded), h.copy, h.memory, ?_, ?_⟩
  · intro q hq hwritten
    rcases List.mem_or_eq_of_mem_set hq with hq | rfl
    · exact h.nexts q hq hwritten
    · cases hwritten
  · refine h.agree.imp_right fun ⟨q, hq, hwritten, hnext⟩ => ⟨q, ?_, hwritten, hnext⟩
    obtain ⟨j, hj⟩ := List.mem_iff_getElem?.mp hq
    have hne : k ≠ j := by
      rintro rfl
      rw [Option.some.inj (hk.symm.trans hj), hwritten] at hphase
      cases hphase
    exact List.mem_iff_getElem?.mpr ⟨j, (List.getElem?_set_ne hne).trans hj⟩

/-- A call that is not the one that moves is there afterwards. -/
theorem mem_set_of_mem_eraseIdx {l : List (Pending κ σ)} {q q' : Pending κ σ} (hk : k < l.length)
    (h : q ∈ l.eraseIdx k) : q ∈ l.set k q' :=
  (List.set_perm_cons_eraseIdx hk q').mem_iff.mpr (List.mem_cons_of_mem _ h)

/-- A value is put in memory that is that of the copy, or not the last to be put there. -/
theorem ordered_assigned {order : List κ} (h : Ordered effect v order s)
    (hG : Undisturbed effect s (.assigned k)) (hstep : step effect s (.assigned k) = some t) :
    Ordered effect v order t := by
  obtain ⟨p, hk, hp⟩ := Option.bind_eq_some_iff.mp hstep
  obtain ⟨hphase, ht⟩ := Option.ite_none_right_eq_some.mp hp
  obtain rfl := Option.some.inj ht
  have hlanded : Phase.assigned.Landed ↔ p.phase.Landed := by
    rw [hphase]
    decide
  have hlt : k < s.calls.length := (List.getElem?_eq_some_iff.mp hk).1
  refine ⟨h.perm.trans (landed_same hk hlanded), h.copy,
    h.nexts p (List.mem_of_getElem? hk) hphase, ?_, ?_⟩
  · intro q hq hwritten
    rcases List.mem_or_eq_of_mem_set hq with hq | rfl
    · exact h.nexts q hq hwritten
    · cases hwritten
  · rcases hG p hk with hsame | ⟨q, hq, hqs⟩
    · exact .inl hsame
    · exact .inr ⟨q, mem_set_of_mem_eraseIdx hlt hq, hqs⟩

/-- Every step of a run that is undisturbed keeps an order. -/
theorem ordered_step {e : Event κ} (h : ∃ order, Ordered effect v order s)
    (hG : Undisturbed effect s e) (hstep : step effect s e = some t) :
    ∃ order, Ordered effect v order t := by
  obtain ⟨order, h⟩ := h
  cases e with
  | begin c => exact ordered_begin h c hstep
  | written k => exact ordered_written h hG hstep
  | failed k => exact ⟨order, ordered_failed h hstep⟩
  | assigned k => exact ⟨order, ordered_assigned h hG hstep⟩

/-- At first there are no calls. -/
theorem ordered_init (effect : κ → σ → Outcome σ ρ) (v : σ) :
    Ordered effect v [] (machine effect v).init where
  perm := .refl _
  copy := rfl
  memory := ⟨[], List.prefix_rfl, rfl⟩
  nexts q hq := by cases hq
  agree := .inl rfl

/-- Once all calls of an undisturbed run have ended, they are serializable. -/
theorem serializable (v : σ) (hs : (machine effect v).ReachableWhen (Undisturbed effect) s)
    (hsettled : Settled s) : Serializable effect v s := by
  have hordered : ∃ order, Ordered effect v order s :=
    Machine.ReachableWhen.invariant (I := fun s => ∃ order, Ordered effect v order s)
      ⟨[], ordered_init effect v⟩ (fun _ _ _ h hG hstep => ordered_step h hG hstep) hs
  obtain ⟨order, h⟩ := hordered
  have hended : ∀ p ∈ s.calls, p.phase ≠ .written :=
    fun p hp hwritten => hsettled.not_running hp (.inr hwritten)
  refine ⟨?_, order, ?_, h.copy⟩
  · rcases h.agree with hsame | ⟨q, hq, hwritten, -⟩
    · exact hsame
    · exact absurd hwritten (hended q hq)
  · have hlanded : landed s.calls = succeeded s := by
      unfold landed succeeded
      congr 1
      refine List.filter_congr fun p hp => decide_eq_decide.mpr ?_
      exact ⟨fun h => h.resolve_left (hended p hp), .inr⟩
    rw [← hlanded]
    exact h.perm

/-- A call that fails changes neither memory nor the copy. -/
theorem failed_keeps (hstep : step effect s (.failed k) = some t) :
    t.memory = s.memory ∧ t.copy = s.copy := by
  obtain ⟨p, -, hp⟩ := Option.bind_eq_some_iff.mp hstep
  obtain ⟨-, ht⟩ := Option.ite_none_right_eq_some.mp hp
  obtain rfl := Option.some.inj ht
  exact ⟨rfl, rfl⟩

/-- A call that begins changes neither memory nor the copy. -/
theorem begin_keeps {c : κ} (hstep : step effect s (.begin c) = some t) :
    t.memory = s.memory ∧ t.copy = s.copy := by
  obtain rfl := Option.some.inj hstep
  exact ⟨rfl, rfl⟩

/-! ### Memory that drifts from the copy -/

/-- Memory does not have the value of the copy, and no call is to put it there. -/
def Drifted (effect : κ → σ → Outcome σ ρ) (s : State κ σ) : Prop :=
  s.memory ≠ s.copy ∧ ∀ q ∈ s.calls, q.phase = .written → q.next effect ≠ s.copy

/-- How many calls have not ended. -/
def running (calls : List (Pending κ σ)) : ℕ := calls.countP fun p => decide p.phase.Running

/-- A call that ends is one less that runs. -/
theorem running_set {calls : List (Pending κ σ)} (hk : calls[k]? = some p)
    (hold : p.phase.Running) {phase : Phase} (hnew : ¬ phase.Running) :
    running (calls.set k { p with phase := phase }) < running calls := by
  obtain ⟨hlt, rfl⟩ := List.getElem?_eq_some_iff.mp hk
  have hset : running (calls.set k { calls[k] with phase := phase }) =
      running (calls.eraseIdx k) := by
    refine ((List.set_perm_cons_eraseIdx hlt _).countP_eq _).trans ?_
    exact List.countP_cons_of_neg (by simpa using hnew)
  have hget : running calls = running (calls.eraseIdx k) + 1 := by
    refine ((List.getElem_cons_eraseIdx_perm hlt).symm.countP_eq _).trans ?_
    exact List.countP_cons_of_pos (by simpa using hold)
  rw [hset, hget]
  exact Nat.lt_succ_self _

/-- A call that runs can end while memory drifts. -/
theorem drifted_step (h : Drifted effect s) (hk : s.calls[k]? = some p) (hp : p.phase.Running) :
    ∃ e t, step effect s e = some t ∧ Drifted effect t ∧ running t.calls < running s.calls := by
  rcases hp with hphase | hphase
  · have hstep : step effect s (.failed k) = some (s.move k p .failed) := by
      simp only [step, hk, Option.bind_some, if_pos hphase]
    refine ⟨_, _, hstep, ⟨h.1, fun q hq hwritten => ?_⟩, ?_⟩
    · rcases List.mem_or_eq_of_mem_set hq with hq | rfl
      · exact h.2 q hq hwritten
      · cases hwritten
    · exact running_set hk (.inl hphase) (by decide)
  · have hstep : step effect s (.assigned k) =
        some ({ s with memory := p.next effect }.move k p .assigned) := by
      simp only [step, hk, Option.bind_some, if_pos hphase]
    refine ⟨_, _, hstep, ⟨h.2 p (List.mem_of_getElem? hk) hphase, fun q hq hwritten => ?_⟩, ?_⟩
    · rcases List.mem_or_eq_of_mem_set hq with hq | rfl
      · exact h.2 q hq hwritten
      · cases hwritten
    · exact running_set hk (.inr hphase) (by decide)

/-- A call that has not ended runs. -/
theorem exists_running (h : ¬ Settled s) : ∃ (k : ℕ) (p : Pending κ σ),
    s.calls[k]? = some p ∧ p.phase.Running := by
  simp only [Settled, not_forall] at h
  obtain ⟨p, hp, hnot⟩ := h
  obtain ⟨k, hk⟩ := List.mem_iff_getElem?.mp hp
  refine ⟨k, p, hk, ?_⟩
  cases hphase : p.phase with
  | computed => exact .inl rfl
  | written => exact .inr rfl
  | assigned => exact absurd (.inl (.inl hphase)) hnot
  | unchanged => exact absurd (.inl (.inr hphase)) hnot
  | failed => exact absurd (.inr hphase) hnot

/-- Calls that drifted can all end, and memory does not get the value of the copy: one call
less runs after each step. -/
theorem drifted_ends (v : σ) (h : Drifted effect s) :
    ∃ es u, (machine effect v).runFrom s es = some u ∧ Settled u ∧ u.memory ≠ u.copy := by
  induction hn : running s.calls using Nat.strongRecOn generalizing s with
  | ind n ih =>
    by_cases hsettled : Settled s
    · exact ⟨[], s, rfl, hsettled, h.1⟩
    · obtain ⟨k, p, hk, hp⟩ := exists_running hsettled
      obtain ⟨e, t, hstep, ht, hless⟩ := drifted_step h hk hp
      obtain ⟨es, u, hrun, hu⟩ := ih (running t.calls) (hn ▸ hless) ht rfl
      exact ⟨e :: es, u, Option.bind_eq_some_iff.mpr ⟨t, hstep, hrun⟩, hu⟩

/-- After a value is put in memory that is not that of the copy, with nobody to put that
there, the calls can all end with memory and copy apart. -/
theorem disturbed_assigned (v : σ) (hG : ¬ Undisturbed effect s (.assigned k))
    (hstep : step effect s (.assigned k) = some t) :
    ∃ es u, (machine effect v).runFrom t es = some u ∧ Settled u ∧ u.memory ≠ u.copy := by
  obtain ⟨p, hk, hp⟩ := Option.bind_eq_some_iff.mp hstep
  obtain ⟨hphase, ht⟩ := Option.ite_none_right_eq_some.mp hp
  obtain rfl := Option.some.inj ht
  have hlt : k < s.calls.length := (List.getElem?_eq_some_iff.mp hk).1
  have hG' : ¬ (p.next effect = s.copy ∨
      ∃ q ∈ s.calls.eraseIdx k, q.phase = .written ∧ q.next effect = s.copy) := by
    intro h
    refine hG fun q hq => ?_
    obtain rfl := Option.some.inj (hk.symm.trans hq)
    exact h
  push Not at hG'
  refine drifted_ends v ⟨hG'.1, fun q hq hwritten => ?_⟩
  have hmem : q ∈ ({ p with phase := .assigned } : Pending κ σ) :: s.calls.eraseIdx k :=
    (List.set_perm_cons_eraseIdx hlt _).mem_iff.mp hq
  rcases List.mem_cons.mp hmem with rfl | hq
  · cases hwritten
  · exact hG'.2 q hq hwritten

/-! ### Calls one at a time -/

/-- No call begins while another has not ended. -/
def OneAtATime (s : State κ σ) : Event κ → Prop
  | .begin _ => Settled s
  | _ => True

/-- One call runs at most. It read the value that memory and copy have, until its write lands;
then its value is that of the copy, until memory gets it. -/
structure Single (effect : κ → σ → Outcome σ ρ) (s : State κ σ) : Prop where
  unique : ∀ (i j : ℕ) (p q : Pending κ σ), s.calls[i]? = some p → s.calls[j]? = some q →
    p.phase.Running → q.phase.Running → i = j
  computed : ∀ p ∈ s.calls, p.phase = .computed → p.read = s.copy ∧ s.memory = s.copy
  written : ∀ p ∈ s.calls, p.phase = .written → p.next effect = s.copy
  settled : Settled s → s.memory = s.copy

/-- A call begins alone. -/
theorem single_begin (h : Single effect s) (hsettled : Settled s) {c : κ}
    (hstep : step effect s (.begin c) = some t) : Single effect t := by
  obtain rfl := Option.some.inj hstep
  have hsame := h.settled hsettled
  have hnew : Outcome.phase (effect c s.memory) ≠ .written := by
    cases effect c s.memory <;> exact nofun
  refine ⟨fun i j p q hi hj hp hq => ?_, fun p hp hphase => ?_, fun p hp hphase => ?_,
    fun _ => hsame⟩
  · rcases getElem?_concat_cases hi with hi | ⟨hi, -⟩
    · exact absurd hp (hsettled.not_running (List.mem_of_getElem? hi))
    · rcases getElem?_concat_cases hj with hj | ⟨hj, -⟩
      · exact absurd hq (hsettled.not_running (List.mem_of_getElem? hj))
      · exact hi.trans hj.symm
  · rcases List.mem_append.mp hp with hp | hp
    · exact absurd (.inl hphase) (hsettled.not_running hp)
    · rw [List.mem_singleton.mp hp]
      exact ⟨hsame, hsame⟩
  · rcases List.mem_append.mp hp with hp | hp
    · exact absurd (.inr hphase) (hsettled.not_running hp)
    · rw [List.mem_singleton.mp hp] at hphase
      exact absurd hphase hnew

/-- When the only call that runs moves, the others do not run. -/
theorem Single.others (h : Single effect s) (hk : s.calls[k]? = some p) (hp : p.phase.Running)
    {q q' : Pending κ σ} (hq : q ∈ s.calls.set k q') (hrunning : q.phase.Running) : q = q' := by
  obtain ⟨j, hj⟩ := List.mem_iff_getElem?.mp hq
  rcases getElem?_set_cases hj with ⟨-, heq⟩ | ⟨hne, hj⟩
  · exact heq
  · exact absurd (h.unique k j p q hk hj hp hrunning) hne

/-- When the only call that runs moves, there is no other one. -/
theorem Single.unique_set (h : Single effect s) (hk : s.calls[k]? = some p)
    (hp : p.phase.Running) (q' : Pending κ σ) (i j : ℕ) (q r : Pending κ σ)
    (hi : (s.calls.set k q')[i]? = some q) (hj : (s.calls.set k q')[j]? = some r)
    (hq : q.phase.Running) (hr : r.phase.Running) : i = j := by
  have hat (i : ℕ) (q : Pending κ σ) (hi : (s.calls.set k q')[i]? = some q)
      (hq : q.phase.Running) : k = i := by
    rcases getElem?_set_cases hi with ⟨heq, -⟩ | ⟨-, hi⟩
    · exact heq
    · exact h.unique k i p q hk hi hp hq
  exact (hat i q hi hq).symm.trans (hat j r hj hr)

/-- A call that runs alone goes on. -/
theorem single_step {e : Event κ} (h : Single effect s) (hG : OneAtATime s e)
    (hstep : step effect s e = some t) : Single effect t := by
  cases e with
  | begin c => exact single_begin h hG hstep
  | written k =>
    obtain ⟨p, hk, hp⟩ := Option.bind_eq_some_iff.mp hstep
    obtain ⟨hphase, ht⟩ := Option.ite_none_right_eq_some.mp hp
    obtain rfl := Option.some.inj ht
    have hrunning : p.phase.Running := .inl hphase
    have hlt : k < s.calls.length := (List.getElem?_eq_some_iff.mp hk).1
    refine ⟨h.unique_set hk hrunning _, fun q hq hcomputed => ?_, fun q hq hwritten => ?_,
      fun hsettled => ?_⟩
    · rw [h.others hk hrunning hq (.inl hcomputed)] at hcomputed
      cases hcomputed
    · rw [h.others hk hrunning hq (.inr hwritten)]
      rfl
    · exact absurd (.inr rfl) (hsettled.not_running (List.mem_set hlt _))
  | failed k =>
    obtain ⟨p, hk, hp⟩ := Option.bind_eq_some_iff.mp hstep
    obtain ⟨hphase, ht⟩ := Option.ite_none_right_eq_some.mp hp
    obtain rfl := Option.some.inj ht
    have hrunning : p.phase.Running := .inl hphase
    refine ⟨h.unique_set hk hrunning _, fun q hq hcomputed => ?_, fun q hq hwritten => ?_,
      fun _ => (h.computed p (List.mem_of_getElem? hk) hphase).2⟩
    · rw [h.others hk hrunning hq (.inl hcomputed)] at hcomputed
      cases hcomputed
    · rw [h.others hk hrunning hq (.inr hwritten)] at hwritten
      cases hwritten
  | assigned k =>
    obtain ⟨p, hk, hp⟩ := Option.bind_eq_some_iff.mp hstep
    obtain ⟨hphase, ht⟩ := Option.ite_none_right_eq_some.mp hp
    obtain rfl := Option.some.inj ht
    have hrunning : p.phase.Running := .inr hphase
    refine ⟨h.unique_set hk hrunning _, fun q hq hcomputed => ?_, fun q hq hwritten => ?_,
      fun _ => h.written p (List.mem_of_getElem? hk) hphase⟩
    · rw [h.others hk hrunning hq (.inl hcomputed)] at hcomputed
      cases hcomputed
    · rw [h.others hk hrunning hq (.inr hwritten)] at hwritten
      cases hwritten

/-- A call that runs alone is undisturbed. -/
theorem Single.undisturbed {e : Event κ} (h : Single effect s)
    (hstep : step effect s e = some t) : Undisturbed effect s e := by
  cases e with
  | written k =>
    intro p hk
    obtain ⟨q, hq, hphase⟩ := Option.bind_eq_some_iff.mp hstep
    obtain rfl := Option.some.inj (hq.symm.trans hk)
    obtain ⟨hcomputed, -⟩ := Option.ite_none_right_eq_some.mp hphase
    rw [(h.computed q (List.mem_of_getElem? hq) hcomputed).1]
  | assigned k =>
    intro p hk
    obtain ⟨q, hq, hphase⟩ := Option.bind_eq_some_iff.mp hstep
    obtain rfl := Option.some.inj (hq.symm.trans hk)
    obtain ⟨hwritten, -⟩ := Option.ite_none_right_eq_some.mp hphase
    exact .inl (h.written q (List.mem_of_getElem? hq) hwritten)
  | begin c => trivial
  | failed k => trivial

/-- Calls one at a time are undisturbed. -/
theorem undisturbed_of_oneAtATime {v : σ} (hs : (machine effect v).ReachableWhen OneAtATime s) :
    (machine effect v).ReachableWhen (Undisturbed effect) s := by
  have hboth : (machine effect v).ReachableWhen (Undisturbed effect) s ∧ Single effect s := by
    refine Machine.ReachableWhen.invariant (I := fun s =>
      (machine effect v).ReachableWhen (Undisturbed effect) s ∧ Single effect s) ?_ ?_ hs
    · refine ⟨.init, ?_, ?_, ?_, fun _ => rfl⟩
      · intro i j p q hi
        cases hi
      · intro p hp
        cases hp
      · intro p hp
        cases hp
    · intro s e t ⟨hreached, hsingle⟩ hG hstep
      exact ⟨hreached.step (hsingle.undisturbed hstep) hstep, single_step hsingle hG hstep⟩
  exact hboth.1

end WriteBack

end RemoteWorkspace.Computation
