import Mathlib.Tactic.Common

/-!
# Scripts that run commands

A command answers and may change a store. A script runs commands one after another, and goes
on or gives up by what they answer; what it changed before it gave up stays changed. A session
is the store with the answers that commands have given in it.

A script is computed with the rules `bind_ok` and `bind_error`. Where only a part of the store
matters, `Keeps` tells that a script leaves it alone, with a rule for each construct.
-/

set_option autoImplicit false

namespace RemoteWorkspace.Computation.Scripts

/-- The store that commands work on, and what they have answered. -/
structure Session (σ ο : Type) where
  store : σ
  ran : List ο
  deriving DecidableEq

/-- A script: a value or an error, and the session that it leaves. -/
def Script (ε σ ο α : Type) : Type := Session σ ο → Except ε α × Session σ ο

variable {ε σ ο ι α β γ : Type}

/-- The script that runs no command. -/
def done (a : α) : Script ε σ ο α := fun s => (.ok a, s)

/-- One script after another, unless it gives up. -/
def andThen (x : Script ε σ ο α) (f : α → Script ε σ ο β) : Script ε σ ο β := fun s =>
  match x s with
  | (.ok a, t) => f a t
  | (.error e, t) => (.error e, t)

instance : Monad (Script ε σ ο) where
  pure := done
  bind := andThen

/-- Give up. -/
def fail (e : ε) : Script ε σ ο α := fun s => (.error e, s)

/-- A computation that runs no command. -/
def lift (x : Except ε α) : Script ε σ ο α := fun s => (x, s)

/-- Run a command. -/
def exec (command : ι → σ → ο × σ) (i : ι) : Script ε σ ο ο := fun s =>
  (.ok (command i s.store).1, ⟨(command i s.store).2, s.ran ++ [(command i s.store).1]⟩)

/-! ### Computing a script -/

@[simp] theorem pure_apply (a : α) (s : Session σ ο) :
    (pure a : Script ε σ ο α) s = (.ok a, s) := rfl

/-- What follows a script that goes on. -/
theorem bind_ok {x : Script ε σ ο α} {f : α → Script ε σ ο β} {s t : Session σ ο} {a : α}
    (h : x s = (.ok a, t)) : (x >>= f) s = f a t := by
  change andThen x f s = f a t
  rw [andThen, h]

/-- Nothing follows a script that gives up. -/
theorem bind_error {x : Script ε σ ο α} {f : α → Script ε σ ο β} {s t : Session σ ο} {e : ε}
    (h : x s = (.error e, t)) : (x >>= f) s = (.error e, t) := by
  change andThen x f s = (.error e, t)
  rw [andThen, h]

/-- A command is run, and the script goes on with its answer. -/
@[simp] theorem exec_bind (command : ι → σ → ο × σ) (i : ι) (f : ο → Script ε σ ο β)
    (s : Session σ ο) : (exec command i >>= f) s =
      f (command i s.store).1 ⟨(command i s.store).2, s.ran ++ [(command i s.store).1]⟩ := rfl

/-- A computation that gives a value, and what follows. -/
@[simp] theorem lift_ok_bind (a : α) (f : α → Script ε σ ο β) (s : Session σ ο) :
    (lift (.ok a) >>= f) s = f a s := rfl

/-- A computation that gives none. -/
@[simp] theorem lift_error_bind (e : ε) (f : α → Script ε σ ο β) (s : Session σ ο) :
    (lift (.error e) >>= f) s = (.error e, s) := rfl

/-! ### What a script leaves alone -/

/-- A script leaves a part of the store alone, whether it gives up or not. -/
def Keeps (view : σ → γ) (x : Script ε σ ο α) : Prop :=
  ∀ s, view (x s).2.store = view s.store

variable {view : σ → γ}

theorem keeps_pure (a : α) : Keeps view (pure a : Script ε σ ο α) := fun _ => rfl

theorem keeps_fail (e : ε) : Keeps view (fail e : Script ε σ ο α) := fun _ => rfl

/-- A command that leaves the part alone. -/
theorem keeps_exec {command : ι → σ → ο × σ} {i : ι}
    (h : ∀ s, view (command i s).2 = view s) : Keeps view (exec command i : Script ε σ ο ο) :=
  fun s => h s.store

/-- Two scripts one after the other. -/
theorem Keeps.bind {x : Script ε σ ο α} {f : α → Script ε σ ο β} (hx : Keeps view x)
    (hf : ∀ a, Keeps view (f a)) : Keeps view (x >>= f) := by
  intro s
  cases hxs : x s with
  | mk answer t =>
    have ht : view t.store = view s.store := by
      have := hx s
      rwa [hxs] at this
    cases answer with
    | ok a =>
      rw [bind_ok hxs]
      exact (hf a t).trans ht
    | error e =>
      rw [bind_error hxs]
      exact ht

/-- A choice between two scripts. -/
theorem keeps_ite {c : Prop} [Decidable c] {x y : Script ε σ ο α} (hx : Keeps view x)
    (hy : Keeps view y) : Keeps view (if c then x else y) := by
  split
  · exact hx
  · exact hy

end RemoteWorkspace.Computation.Scripts
