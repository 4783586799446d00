import Mathlib.Data.List.Nodup
import Mathlib.Tactic.Common

/-!
# Lists whose elements move in place

Tasks, promises and processes are kept in lists and named by their position. They are
added at the end and moved in place with `List.modify`, so a position keeps its meaning.
-/

set_option autoImplicit false

namespace RemoteWorkspace.Computation

variable {α β : Type}

/-- A projection that follows a move of one element. -/
theorem map_modify {f : α → β} {g : α → α} {g' : β → β} (hfg : ∀ x, f (g x) = g' (f x))
    (l : List α) (i : ℕ) : (l.modify i g).map f = (l.map f).modify i g' := by
  apply List.ext_getElem?
  intro j
  simp only [List.getElem?_map, List.getElem?_modify]
  cases l[j]? with
  | none => rfl
  | some x => by_cases h : i = j <;> simp [h, hfg]

/-- A projection that does not see a move of one element. -/
theorem map_modify_of_eq {f : α → β} {g : α → α} (hfg : ∀ x, f (g x) = f x) (l : List α)
    (i : ℕ) : (l.modify i g).map f = l.map f := by
  apply List.ext_getElem?
  intro j
  simp only [List.getElem?_map, List.getElem?_modify]
  cases l[j]? with
  | none => rfl
  | some x => by_cases h : i = j <;> simp [h, hfg]

/-- An element after a move is one that moved or one that did not. -/
theorem getElem?_modify_cases {l : List α} {i j : ℕ} {g : α → α} {x : α}
    (h : (l.modify i g)[j]? = some x) :
    ∃ y, l[j]? = some y ∧ (i = j ∧ x = g y ∨ i ≠ j ∧ x = y) := by
  rw [List.getElem?_modify] at h
  cases hy : l[j]? with
  | none => simp [hy] at h
  | some y =>
    refine ⟨y, rfl, ?_⟩
    by_cases hij : i = j
    · exact .inl ⟨hij, by simpa [hy, hij] using h.symm⟩
    · exact .inr ⟨hij, by simpa [hy, hij] using h.symm⟩

/-- An element after one was put in place is that one or another. -/
theorem getElem?_set_cases {l : List α} {i j : ℕ} {x y : α} (h : (l.set i x)[j]? = some y) :
    i = j ∧ y = x ∨ i ≠ j ∧ l[j]? = some y := by
  rw [List.getElem?_set] at h
  split at h
  · rename_i hij
    split at h
    · exact .inl ⟨hij, (Option.some.inj h).symm⟩
    · cases h
  · rename_i hij
    exact .inr ⟨hij, h⟩

/-- An element after one was added was there before or is the new one. -/
theorem getElem?_concat_cases {l : List α} {j : ℕ} {x y : α} (h : (l ++ [x])[j]? = some y) :
    l[j]? = some y ∨ j = l.length ∧ y = x := by
  rcases Nat.lt_trichotomy j l.length with hlt | rfl | hgt
  · rw [List.getElem?_append_left hlt] at h
    exact .inl h
  · rw [List.getElem?_concat_length] at h
    exact .inr ⟨rfl, (Option.some.inj h).symm⟩
  · rw [List.getElem?_eq_none (by simp; omega)] at h
    cases h

/-- An element stays in place when one is added. -/
theorem getElem?_concat_of_some {l : List α} {j : ℕ} {x y : α} (h : l[j]? = some y) :
    (l ++ [x])[j]? = some y := by
  rw [List.getElem?_append_left (List.getElem?_eq_some_iff.mp h).1]
  exact h

/-- One more element that was not there. -/
theorem nodup_concat {l : List α} {x : α} (h : l.Nodup) (hx : x ∉ l) : (l ++ [x]).Nodup := by
  rw [← List.concat_eq_append]
  exact List.Nodup.concat hx h

/-- One more element, whose key none of the others has. -/
theorem nodup_map_concat {f : α → β} {l : List α} {x : α} (h : (l.map f).Nodup)
    (hx : ∀ y ∈ l, f y ≠ f x) : ((l ++ [x]).map f).Nodup := by
  rw [List.map_append]
  refine nodup_concat h fun hmem => ?_
  obtain ⟨y, hy, heq⟩ := List.mem_map.mp hmem
  exact hx y hy heq

/-- A list at one of its elements. -/
theorem split_at {l : List α} {i : ℕ} {x : α} (h : l[i]? = some x) :
    l = l.take i ++ x :: l.drop (i + 1) := by
  obtain ⟨hi, rfl⟩ := List.getElem?_eq_some_iff.mp h
  rw [← List.drop_eq_getElem_cons hi, List.take_append_drop]

/-- A list after a move of that element. -/
theorem modify_split {l : List α} {i : ℕ} {x : α} (h : l[i]? = some x) (g : α → α) :
    l.modify i g = l.take i ++ g x :: l.drop (i + 1) := by
  obtain ⟨hi, rfl⟩ := List.getElem?_eq_some_iff.mp h
  exact List.modify_eq_take_cons_drop hi

end RemoteWorkspace.Computation
