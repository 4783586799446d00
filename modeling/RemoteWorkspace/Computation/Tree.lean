import Mathlib.Data.List.Dedup
import Mathlib.Data.List.Infix
import Mathlib.Logic.Function.Basic

/-!
# Directories with a mark

A tree of directories, each named by its path from the top, in which a directory may carry a
mark: the one file in it that matters. Directories are made with all those above them, and
removed with everything in them. A tree is closed when what is in it is in directories that
are in it; making, marking and removing keep it closed.
-/

set_option autoImplicit false

namespace RemoteWorkspace.Computation

/-- The directories that exist and the marks in them. -/
structure Tree (α β : Type) where
  dirs : List (List α)
  mark : List α → Option β

namespace Tree

variable {α β : Type} [DecidableEq α]

/-- The names of the directories in a directory. -/
def children (t : Tree α β) (dir : List α) : List α :=
  (t.dirs.filterMap fun p => if p.dropLast = dir then p.getLast? else none).dedup

/-- A directory is made, with all those above it. -/
def mkdir (t : Tree α β) (p : List α) : Tree α β := { t with dirs := t.dirs ++ p.inits }

/-- A directory is marked. -/
def put (t : Tree α β) (p : List α) (b : β) : Tree α β :=
  { t with mark := Function.update t.mark p (some b) }

/-- A directory is removed, with everything in it. -/
def rm (t : Tree α β) (p : List α) : Tree α β where
  dirs := t.dirs.filter fun q => ¬ p <+: q
  mark q := if p <+: q then none else t.mark q

/-- What exists is in directories that exist. -/
structure Closed (t : Tree α β) : Prop where
  dirs : ∀ p ∈ t.dirs, ∀ q, q <+: p → q ∈ t.dirs
  marks : ∀ p, (t.mark p).isSome = true → p ∈ t.dirs

variable {t : Tree α β} {p q : List α} {b : β} {name : α}

/-- A name in a directory is a directory one below it. -/
theorem mem_children : name ∈ t.children p ↔ p ++ [name] ∈ t.dirs := by
  rw [children, List.mem_dedup, List.mem_filterMap]
  constructor
  · rintro ⟨q, hq, hname⟩
    split at hname
    · rename_i hlast
      rwa [← hlast, List.dropLast_append_getLast? name hname]
    · cases hname
  · exact fun h => ⟨p ++ [name], h, by simp⟩

omit [DecidableEq α] in
/-- The directories after one was made. -/
theorem mem_mkdir : q ∈ (t.mkdir p).dirs ↔ q ∈ t.dirs ∨ q <+: p := by
  rw [mkdir, List.mem_append, List.mem_inits]

/-- The directories after one was removed. -/
theorem mem_rm : q ∈ (t.rm p).dirs ↔ q ∈ t.dirs ∧ ¬ p <+: q := by
  rw [rm, List.mem_filter, decide_eq_true_eq]

/-- The mark that was put. -/
@[simp] theorem put_mark_self : (t.put p b).mark p = some b := Function.update_self _ _ _

/-- The marks that were not put. -/
theorem put_mark_of_ne (h : q ≠ p) : (t.put p b).mark q = t.mark q := Function.update_of_ne h _ _

/-- The marks that are not removed. -/
theorem rm_mark_of_not (h : ¬ p <+: q) : (t.rm p).mark q = t.mark q := if_neg h

/-- The marks that are removed. -/
theorem rm_mark_inside (h : p <+: q) : (t.rm p).mark q = none := if_pos h

/-- A directory that is made and marked is in a closed tree again. -/
theorem Closed.put (h : t.Closed) : ((t.mkdir p).put p b).Closed where
  dirs r hr q hq := by
    rcases mem_mkdir.mp hr with hr | hr
    · exact mem_mkdir.mpr (.inl (h.dirs r hr q hq))
    · exact mem_mkdir.mpr (.inr (hq.trans hr))
  marks q hq := by
    by_cases hqp : q = p
    · exact mem_mkdir.mpr (.inr (hqp ▸ List.prefix_rfl))
    · rw [put_mark_of_ne hqp] at hq
      exact mem_mkdir.mpr (.inl (h.marks q hq))

/-- What is left when a directory is removed is in a closed tree. -/
theorem Closed.rm (h : t.Closed) : (t.rm p).Closed where
  dirs r hr q hq := by
    obtain ⟨hr, hnot⟩ := mem_rm.mp hr
    exact mem_rm.mpr ⟨h.dirs r hr q hq, fun hp => hnot (hp.trans hq)⟩
  marks q hq := by
    by_cases hp : p <+: q
    · rw [rm_mark_inside hp] at hq
      cases hq
    · rw [rm_mark_of_not hp] at hq
      exact mem_rm.mpr ⟨h.marks q hq, hp⟩

end Tree

end RemoteWorkspace.Computation
