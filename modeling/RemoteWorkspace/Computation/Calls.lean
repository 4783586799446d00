import Mathlib.Tactic.Common

/-!
# Calls that may reject

A call over a state answers or rejects, and what it changed before it rejected stays changed:
`EStateM`. `Ends` is its weakest precondition, with one condition for the answer and one for
the rejection. Its rules are equivalences, one for each form of a call, so that they give the
exact states from which a call ends as it should.
-/

set_option autoImplicit false

namespace RemoteWorkspace.Computation.Calls

variable {ε σ α β : Type}

/-- From this state the call answers in a state of `P`, or rejects in a state of `E`. -/
def Ends (c : EStateM ε σ α) (s : σ) (P : α → σ → Prop) (E : ε → σ → Prop) : Prop :=
  match c.run s with
  | .ok a t => P a t
  | .error e t => E e t

/-- What was answered from outside: the call goes on with it, or rejects. -/
def attempt (x : Except ε α) : EStateM ε σ α :=
  match x with
  | .ok a => pure a
  | .error e => throw e

/-- What is done whether or not it is refused. -/
def bestEffort (c : EStateM ε σ Unit) : EStateM ε σ Unit :=
  tryCatch c fun _ => pure ()

section Rules

variable {c : EStateM ε σ α} {f : α → EStateM ε σ β} {s : σ} {P P' : α → σ → Prop}
  {Q : β → σ → Prop} {E E' : ε → σ → Prop}

/-- How a call ends that only answers. -/
@[simp]
theorem ends_pure {a : α} : Ends (pure a) s P E ↔ P a s := Iff.rfl

/-- How a call ends that only rejects. -/
@[simp]
theorem ends_throw {e : ε} : Ends (throw e) s P E ↔ E e s := Iff.rfl

/-- How a call ends that reads the state. -/
@[simp]
theorem ends_get {P : σ → σ → Prop} : Ends get s P E ↔ P s s := Iff.rfl

/-- How a call ends that changes the state. -/
@[simp]
theorem ends_modify {g : σ → σ} {P : PUnit → σ → Prop} :
    Ends (modify g) s P E ↔ P () (g s) := Iff.rfl

/-- How two calls end, one after the other. -/
@[simp]
theorem ends_bind : Ends (c >>= f) s Q E ↔ Ends c s (fun a t => Ends (f a) t Q E) E := by
  have hrun : (c >>= f).run s =
      match c.run s with
      | .ok a t => (f a).run t
      | .error e t => .error e t := rfl
  unfold Ends
  rw [hrun]
  cases c.run s with
  | ok a t => rfl
  | error e t => rfl

/-- How a call ends whose answer is changed. -/
@[simp]
theorem ends_map {g : α → β} : Ends (g <$> c) s Q E ↔ Ends c s (fun a t => Q (g a) t) E := by
  have hrun : (g <$> c).run s =
      match c.run s with
      | .ok a t => .ok (g a) t
      | .error e t => .error e t := rfl
  unfold Ends
  rw [hrun]
  cases c.run s with
  | ok a t => rfl
  | error e t => rfl

/-- How a call ends whose rejection is handled. -/
@[simp]
theorem ends_tryCatch {h : ε → EStateM ε σ α} :
    Ends (tryCatch c h) s P E ↔ Ends c s P fun e t => Ends (h e) t P E := by
  have hrun : (tryCatch c h : EStateM ε σ α).run s =
      match c.run s with
      | .ok a t => .ok a t
      | .error e t => (h e).run t := by
    change EStateM.tryCatch c h s = _
    unfold EStateM.tryCatch
    cases hc : c s with
    | ok a t => simp only [EStateM.run, hc]
    | error e t =>
      simp only [EStateM.run, hc]
      rfl
  unfold Ends
  rw [hrun]
  cases c.run s with
  | ok a t => rfl
  | error e t => rfl

/-- How a call ends with an answer from outside. -/
theorem ends_attempt {x : Except ε α} :
    Ends (attempt x) s P E ↔ (∀ a, x = .ok a → P a s) ∧ ∀ e, x = .error e → E e s := by
  cases x with
  | ok a =>
    constructor
    · intro h
      exact ⟨fun b hb => Except.ok.inj hb ▸ h, fun e he => (by cases he)⟩
    · exact fun h => h.1 a rfl
  | error e =>
    constructor
    · intro h
      exact ⟨fun b hb => (by cases hb), fun e' he => Except.error.inj he ▸ h⟩
    · exact fun h => h.2 e rfl

/-- How a call ends that is done best effort. -/
@[simp]
theorem ends_bestEffort {c : EStateM ε σ Unit} {P : Unit → σ → Prop} :
    Ends (bestEffort c) s P E ↔ Ends c s P fun _ t => P () t := by
  unfold bestEffort
  rw [ends_tryCatch]
  exact Iff.rfl

/-- How a call ends that depends on a condition. -/
theorem ends_ite {b : Prop} [Decidable b] {c' : EStateM ε σ α} :
    Ends (if b then c else c') s P E ↔ (b → Ends c s P E) ∧ (¬ b → Ends c' s P E) := by
  by_cases hb : b
  · simp [hb]
  · simp [hb]

/-- A call that ends in stronger conditions ends in weaker ones. -/
theorem Ends.mono (h : Ends c s P E) (hP : ∀ a t, P a t → P' a t) (hE : ∀ e t, E e t → E' e t) :
    Ends c s P' E' := by
  unfold Ends at *
  cases hc : c.run s with
  | ok a t =>
    rw [hc] at h
    exact hP a t h
  | error e t =>
    rw [hc] at h
    exact hE e t h

/-- What a call ends in, by its run. -/
theorem ends_iff : Ends c s P E ↔
    (∀ a t, c.run s = .ok a t → P a t) ∧ ∀ e t, c.run s = .error e t → E e t := by
  unfold Ends
  cases c.run s with
  | ok a t =>
    constructor
    · intro h
      refine ⟨fun b u hb => ?_, fun e u he => (by cases he)⟩
      obtain ⟨rfl, rfl⟩ := EStateM.Result.ok.inj hb
      exact h
    · exact fun h => h.1 a t rfl
  | error e t =>
    constructor
    · intro h
      refine ⟨fun b u hb => (by cases hb), fun e' u he => ?_⟩
      obtain ⟨rfl, rfl⟩ := EStateM.Result.error.inj he
      exact h
    · exact fun h => h.2 e t rfl

end Rules

end RemoteWorkspace.Computation.Calls
