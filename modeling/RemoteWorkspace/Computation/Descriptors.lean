import Mathlib

/-!
# Descriptor tables

The descriptors of a process: for each number, the open file it stands for and whether it is
closed on `exec`. A number is free until a file is opened under it, a child gets a copy of the
table, and a program is started with what is left of it. The first three numbers are the standard
ones, so a table has at least those.
-/

set_option autoImplicit false

namespace RemoteWorkspace.Computation.Descriptors

/-- The numbers of a table that holds `n` descriptors besides the standard ones. -/
abbrev Fd (n : ℕ) := Fin (n + 3)

instance neZeroFd (n : ℕ) : NeZero (n + 3) := ⟨Nat.succ_ne_zero _⟩

/-- The third number. -/
theorem val_two (n : ℕ) : (2 : Fd n).val = 2 := Nat.mod_eq_of_lt (show 2 < n + 3 by omega)

/-- It is not the first. -/
theorem zero_ne_two (n : ℕ) : (0 : Fd n) ≠ 2 := Fin.ne_of_val_ne (by rw [val_two]; simp)

/-- Nor is it the second. -/
theorem one_ne_two (n : ℕ) : (1 : Fd n) ≠ 2 := Fin.ne_of_val_ne (by rw [val_two]; simp)

/-- An open descriptor. -/
structure Descriptor (φ : Type) where
  file : φ
  cloexec : Bool
  deriving DecidableEq

/-- What each number stands for, if it is open. -/
abbrev Table (n : ℕ) (φ : Type) := Fd n → Option (Descriptor φ)

namespace Table

variable {n : ℕ} {φ : Type}

/-- Nothing is open. -/
def none : Table n φ := fun _ => .none

/-- A file is opened under a number, or what is there is replaced. -/
def put (t : Table n φ) (fd : Fd n) (d : Descriptor φ) : Table n φ := Function.update t fd (some d)

/-- `close`. -/
def close (t : Table n φ) (fd : Fd n) : Table n φ := Function.update t fd .none

/-- `dup2`: the copy stays open across `exec`. -/
def dup2 (t : Table n φ) (source target : Fd n) : Table n φ :=
  if source = target then t
  else match t source with
    | some d => t.put target ⟨d.file, false⟩
    | .none => t

/-- `execve`: what is marked is closed. -/
def exec (t : Table n φ) : Table n φ := fun fd => (t fd).filter fun d => !d.cloexec

/-- The number stands for the file. -/
def Open (t : Table n φ) (fd : Fd n) (file : φ) : Prop := ∃ cloexec, t fd = some ⟨file, cloexec⟩

/-- The file is open under some number. -/
def Holds (t : Table n φ) (file : φ) : Prop := ∃ fd d, t fd = some d ∧ d.file = file

instance [DecidableEq φ] (t : Table n φ) (file : φ) : Decidable (t.Holds file) :=
  decidable_of_iff (∃ fd, (t fd).any (fun d => d.file = file) = true) <| by
    simp only [Holds, Option.any_eq_true, decide_eq_true_eq]

variable {t : Table n φ} {fd k source target : Fd n} {d e : Descriptor φ}

@[simp] theorem none_apply (fd : Fd n) : (none : Table n φ) fd = .none := rfl

@[simp] theorem put_same : t.put fd d fd = some d := Function.update_self ..

theorem put_of_ne (h : k ≠ fd) : t.put fd d k = t k := Function.update_of_ne h ..

@[simp] theorem close_same : t.close fd fd = .none := Function.update_self ..

theorem close_of_ne (h : k ≠ fd) : t.close fd k = t k := Function.update_of_ne h ..

/-- What is open after a number was closed was open under another one. -/
theorem close_eq_some_iff : t.close fd k = some d ↔ k ≠ fd ∧ t k = some d := by
  by_cases h : k = fd
  · subst h
    simp
  · simp [close_of_ne h, h]

/-- What is open after a file was opened is that file or was open before. -/
theorem put_eq_some_iff : t.put fd d k = some e ↔ k = fd ∧ e = d ∨ k ≠ fd ∧ t k = some e := by
  by_cases h : k = fd
  · subst h
    simp [eq_comm]
  · simp [put_of_ne h, h]

/-- A number stands for one file. -/
theorem Open.unique {file file' : φ} (h : t.Open fd file) (h' : t.Open fd file') : file = file' := by
  obtain ⟨c, hc⟩ := h
  obtain ⟨c', hc'⟩ := h'
  exact (Descriptor.mk.inj (Option.some.inj (hc.symm.trans hc'))).1

/-- Opening a file under a free number adds just that. -/
theorem open_put_free {file file' : φ} {cloexec : Bool} (hfree : t fd = .none) :
    (t.put fd ⟨file, cloexec⟩).Open k file' ↔ k = fd ∧ file' = file ∨ t.Open k file' := by
  constructor
  · rintro ⟨c, hc⟩
    rcases put_eq_some_iff.mp hc with ⟨hk, hd⟩ | ⟨-, h⟩
    · exact .inl ⟨hk, (Descriptor.mk.inj hd).1⟩
    · exact .inr ⟨c, h⟩
  · rintro (⟨rfl, rfl⟩ | ⟨c, hc⟩)
    · exact ⟨cloexec, put_same⟩
    · refine ⟨c, put_eq_some_iff.mpr (.inr ⟨?_, hc⟩)⟩
      rintro rfl
      rw [hfree] at hc
      cases hc

/-- Marking what is open changes nothing of what is. -/
theorem open_put_same {file file' : φ} {cloexec : Bool} (h : t.Open fd file) :
    (t.put fd ⟨file, cloexec⟩).Open k file' ↔ t.Open k file' := by
  constructor
  · rintro ⟨c, hc⟩
    rcases put_eq_some_iff.mp hc with ⟨rfl, hd⟩ | ⟨-, hk⟩
    · rw [(Descriptor.mk.inj hd).1]
      exact h
    · exact ⟨c, hk⟩
  · rintro ⟨c, hc⟩
    by_cases hk : k = fd
    · subst hk
      rw [Open.unique ⟨c, hc⟩ h]
      exact ⟨cloexec, put_same⟩
    · exact ⟨c, put_eq_some_iff.mpr (.inr ⟨hk, hc⟩)⟩

/-- Closing a number takes away just what it stood for. -/
theorem open_close {file file' : φ} (h : t.Open fd file) :
    (t.close fd).Open k file' ↔ t.Open k file' ∧ (k, file') ≠ (fd, file) := by
  constructor
  · rintro ⟨c, hc⟩
    obtain ⟨hk, hopen⟩ := close_eq_some_iff.mp hc
    exact ⟨⟨c, hopen⟩, fun heq => hk (congrArg Prod.fst heq)⟩
  · rintro ⟨⟨c, hc⟩, hne⟩
    refine ⟨c, close_eq_some_iff.mpr ⟨?_, hc⟩⟩
    rintro rfl
    exact hne (by rw [Open.unique ⟨c, hc⟩ h])

/-- A program has what was not marked. -/
theorem exec_eq_some_iff : t.exec fd = some d ↔ t fd = some d ∧ d.cloexec = false := by
  simp [exec, Option.filter_eq_some_iff]

/-- A duplicate is under its number. -/
theorem dup2_target {file : φ} (h : t source = some ⟨file, false⟩) :
    t.dup2 source target target = some ⟨file, false⟩ := by
  unfold dup2
  by_cases heq : source = target
  · rw [if_pos heq, ← heq, h]
  · rw [if_neg heq, h]
    exact put_same

/-- The other numbers are as they were. -/
theorem dup2_of_ne (h : k ≠ target) : t.dup2 source target k = t k := by
  unfold dup2
  cases hsource : t source with
  | none => rw [ite_self]
  | some d =>
    by_cases heq : source = target
    · rw [if_pos heq]
    · rw [if_neg heq]
      exact put_of_ne h

/-- Duplicating brings no new file. -/
theorem dup2_eq_some (h : t.dup2 source target k = some d) :
    t k = some d ∨ ∃ e, t source = some e ∧ d = ⟨e.file, false⟩ := by
  unfold dup2 at h
  cases hsource : t source with
  | none =>
    rw [hsource, ite_self] at h
    exact .inl h
  | some e =>
    rw [hsource] at h
    split at h
    · exact .inl h
    · rcases put_eq_some_iff.mp h with ⟨-, rfl⟩ | ⟨-, h⟩
      · exact .inr ⟨e, rfl, rfl⟩
      · exact .inl h

end Table

end RemoteWorkspace.Computation.Descriptors
