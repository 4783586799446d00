import Mathlib.Tactic.Common

/-!
# Steps that may fail

Code that throws is a value of `Except`: its steps follow one another, and a check refuses
before the rest is done. A sequence ends well exactly when each of its steps does.
-/

set_option autoImplicit false

namespace RemoteWorkspace.Computation

variable {ε α β : Type}

/-- What follows a step that ended well. -/
theorem except_ok_bind (a : α) (f : α → Except ε β) : (Except.ok a >>= f) = f a := rfl

/-- A sequence of two steps that ends well. -/
theorem bind_eq_ok_iff {x : Except ε α} {f : α → Except ε β} {b : β} :
    (x >>= f) = .ok b ↔ ∃ a, x = .ok a ∧ f a = .ok b := by
  constructor
  · intro h
    cases x with
    | error e => cases h
    | ok a => exact ⟨a, rfl, h⟩
  · rintro ⟨a, rfl, h⟩
    exact h

/-- A sequence of two steps that fails. -/
theorem bind_eq_error_iff {x : Except ε α} {f : α → Except ε β} {e : ε} :
    (x >>= f) = .error e ↔ x = .error e ∨ ∃ a, x = .ok a ∧ f a = .error e := by
  cases x with
  | error e' =>
    constructor
    · exact fun h => .inl (congrArg _ (Except.error.inj h))
    · rintro (h | ⟨a, h, -⟩)
      · exact congrArg _ (Except.error.inj h)
      · cases h
  | ok a =>
    constructor
    · exact fun h => .inr ⟨a, rfl, h⟩
    · rintro (h | ⟨b, hb, h⟩)
      · cases h
      · obtain rfl := Except.ok.inj hb
        exact h

/-- A check that is passed. -/
theorem check_eq_ok_iff {c : Prop} [Decidable c] {e : ε} {x : Except ε α} {a : α} :
    (if c then .error e else x) = .ok a ↔ ¬ c ∧ x = .ok a := by
  by_cases hc : c
  · simp [hc]
  · simp [hc]

/-- A partial function is defined on a whole list exactly when it is on each element. -/
theorem mapM_eq_some_iff {f : α → Option β} {l : List α} {bs : List β} :
    l.mapM f = some bs ↔ l.map f = bs.map some := by
  induction l generalizing bs with
  | nil =>
    cases bs with
    | nil => simp
    | cons b bs => simp
  | cons a l ih =>
    cases bs with
    | nil => simp [Option.bind_eq_some_iff]
    | cons b bs =>
      simp only [List.mapM_cons, Option.bind_eq_bind, Option.bind_eq_some_iff, Option.pure_def,
        Option.some.injEq, List.cons.injEq, List.map_cons]
      constructor
      · rintro ⟨b', hb, bs', hbs, rfl, rfl⟩
        exact ⟨hb, ih.mp hbs⟩
      · rintro ⟨hb, hbs⟩
        exact ⟨b, hb, bs, ih.mpr hbs, rfl, rfl⟩

/-- A value of a partial function on a list is one of its values on the elements. -/
theorem exists_of_map_some {f : α → Option β} {l : List α} {bs : List β}
    (h : l.map f = bs.map some) {b : β} (hb : b ∈ bs) : ∃ a ∈ l, f a = some b := by
  have hmem : some b ∈ l.map f := h ▸ List.mem_map_of_mem hb
  exact List.mem_map.mp hmem

/-- A partial function that is undone on all its values is undone on a list of them. -/
theorem map_some_symm {f : α → Option β} {g : β → Option α} {l : List α} {bs : List β}
    (h : l.map f = bs.map some) (hg : ∀ a b, f a = some b → g b = some a) :
    bs.map g = l.map some := by
  induction l generalizing bs with
  | nil =>
    obtain rfl := List.map_eq_nil_iff.mp h.symm
    rfl
  | cons a l ih =>
    cases bs with
    | nil => cases h
    | cons b bs =>
      rw [List.map_cons, List.map_cons] at h
      obtain ⟨hb, hbs⟩ := List.cons.inj h
      rw [List.map_cons, List.map_cons, hg a b hb, ih hbs]

/-- A step for each element, none of which fails. -/
theorem mapM_eq_ok_filterMap {f : α → Except ε β} {g : α → Option β} {l : List α}
    (h : ∀ a ∈ l, ∃ b, g a = some b ∧ f a = .ok b) : l.mapM f = .ok (l.filterMap g) := by
  induction l with
  | nil => rfl
  | cons a l ih =>
    obtain ⟨b, hg, hf⟩ := h a List.mem_cons_self
    rw [List.mapM_cons, hf, except_ok_bind, ih fun a' ha' => h a' (List.mem_cons_of_mem _ ha'),
      except_ok_bind, List.filterMap_cons_some hg]
    rfl

/-- A step for each element, one of which fails. -/
theorem mapM_eq_error {f : α → Except ε β} {l : List α} {a : α} (ha : a ∈ l)
    (h : ∃ e, f a = .error e) : ∃ e, l.mapM f = .error e := by
  induction l with
  | nil => cases ha
  | cons a' l ih =>
    rw [List.mapM_cons]
    cases hf : f a' with
    | error e => exact ⟨e, rfl⟩
    | ok b =>
      rcases List.mem_cons.mp ha with rfl | hmem
      · obtain ⟨e, he⟩ := h
        rw [hf] at he
        cases he
      · obtain ⟨e, he⟩ := ih hmem
        exact ⟨e, by rw [except_ok_bind, he]; rfl⟩

/-- A step for each element, of which all end well, or the first that fails is what comes of
it. -/
theorem mapM_cases (f : α → Except ε β) (l : List α) :
    (∃ bs, l.mapM f = .ok bs ∧ l.map f = bs.map .ok) ∨
    ∃ front a rest e, l = front ++ a :: rest ∧ (∀ a' ∈ front, ∃ b, f a' = .ok b) ∧
      f a = .error e ∧ l.mapM f = .error e := by
  induction l with
  | nil => exact .inl ⟨[], rfl, rfl⟩
  | cons a l ih =>
    rw [List.mapM_cons]
    cases hf : f a with
    | error e => exact .inr ⟨[], a, l, e, rfl, by simp, hf, rfl⟩
    | ok b =>
      rw [except_ok_bind]
      rcases ih with ⟨bs, hbs, hall⟩ | ⟨front, a', rest, e, rfl, hfront, ha', he⟩
      · exact .inl ⟨b :: bs, by rw [hbs]; rfl, by rw [List.map_cons, List.map_cons, hf, hall]⟩
      · refine .inr ⟨a :: front, a', rest, e, rfl, ?_, ha', by rw [he]; rfl⟩
        intro x hx
        rcases List.mem_cons.mp hx with rfl | hx
        · exact ⟨b, hf⟩
        · exact hfront x hx

/-- What the steps are undone by gives the elements back. -/
theorem map_eq_of_map_ok {f : α → Except ε β} {g : β → α} {l : List α} {bs : List β}
    (h : l.map f = bs.map .ok) (hg : ∀ a b, f a = .ok b → g b = a) : bs.map g = l := by
  induction l generalizing bs with
  | nil =>
    obtain rfl := List.map_eq_nil_iff.mp h.symm
    rfl
  | cons a l ih =>
    cases bs with
    | nil => cases h
    | cons b bs =>
      rw [List.map_cons, List.map_cons] at h
      obtain ⟨hb, hbs⟩ := List.cons.inj h
      rw [List.map_cons, hg a b hb, ih hbs]

/-- What follows a step that fails does not come about. -/
theorem bind_error_of {x : Except ε α} (f : α → Except ε β) (h : ∃ e, x = .error e) :
    ∃ e, (x >>= f) = .error e := by
  obtain ⟨e, rfl⟩ := h
  exact ⟨e, rfl⟩

end RemoteWorkspace.Computation
