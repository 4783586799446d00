import Mathlib.Tactic.Common

/-!
# Separated lists as lists of segments

A list with separators in it is read as the list of its nonempty segments. Lying at or
below a root is then a prefix of segments, which does not depend on how many separators
stand between two of them.
-/

set_option autoImplicit false

namespace RemoteWorkspace.Computation

variable {α : Type}

/-- Two nonempty lists of segments written one after the other. -/
theorem intercalate_append {sep : α} {as bs : List (List α)} (ha : as ≠ []) (hb : bs ≠ []) :
    [sep].intercalate (as ++ bs) =
      [sep].intercalate as ++ sep :: [sep].intercalate bs := by
  induction as with
  | nil => exact absurd rfl ha
  | cons a as ih =>
    rcases as with _ | ⟨a', as⟩
    · rw [List.singleton_append, List.intercalate_cons_of_ne_nil hb]
      simp
    · have htail := ih (List.cons_ne_nil a' as)
      rw [List.cons_append, List.intercalate_cons_of_ne_nil (by simp), htail,
        List.intercalate_cons_of_ne_nil (List.cons_ne_nil a' as)]
      simp only [List.append_assoc]

/-- Segments that hold something, written with separators between them, hold something and
end in no separator. -/
theorem getLast?_intercalate_ne {sep : α} {ss : List (List α)} (hss : ss ≠ [])
    (h : ∀ s ∈ ss, s ≠ [] ∧ sep ∉ s) :
    [sep].intercalate ss ≠ [] ∧ ([sep].intercalate ss).getLast? ≠ some sep := by
  induction ss with
  | nil => exact absurd rfl hss
  | cons s rest ih =>
    have hs := h s List.mem_cons_self
    rcases rest with _ | ⟨s', rest⟩
    · have hone : [sep].intercalate [s] = s := by simp
      rw [hone]
      refine ⟨hs.1, ?_⟩
      intro hlast
      exact hs.2 (List.mem_of_getLast? hlast)
    · have htail := ih (by simp) (fun t ht => h t (List.mem_cons_of_mem s ht))
      rw [List.intercalate_cons_of_ne_nil (by simp)]
      refine ⟨by simp, ?_⟩
      obtain ⟨x, hx⟩ := Option.ne_none_iff_exists'.mp (mt List.getLast?_eq_none_iff.mp htail.1)
      have hlast : (s ++ [sep] ++ [sep].intercalate (s' :: rest)).getLast? = some x := by
        rw [List.getLast?_append, hx, Option.some_or]
      rw [hlast, ← hx]
      exact htail.2

variable [DecidableEq α]

/-- The nonempty segments of a list between the separators. -/
def segments (sep : α) (l : List α) : List (List α) := (l.splitOn sep).filter (· ≠ [])

/-- A list lies at or below a root when the root's segments are its first ones. -/
def Below (sep : α) (root l : List α) : Prop := segments sep root <+: segments sep l

/-- Nothing has no segments. -/
@[simp] theorem segments_nil (sep : α) : segments sep [] = [] := by
  simp [segments]

/-- A separator ends one list of segments and starts another. -/
theorem segments_append_cons (sep : α) (a b : List α) :
    segments sep (a ++ sep :: b) = segments sep a ++ segments sep b := by
  simp [segments, List.splitOn_append_cons_self]

/-- A separator at the front changes no segment. -/
@[simp] theorem segments_cons (sep : α) (l : List α) : segments sep (sep :: l) = segments sep l := by
  simpa using segments_append_cons sep [] l

/-- A separator at the end changes no segment. -/
@[simp] theorem segments_concat (sep : α) (l : List α) :
    segments sep (l ++ [sep]) = segments sep l := by
  simpa using segments_append_cons sep l []

/-- What stands between two separators holds none. -/
theorem not_mem_of_mem_splitOn (sep : α) (l : List α) : ∀ s ∈ l.splitOn sep, sep ∉ s := by
  induction l with
  | nil => simp
  | cons x xs ih =>
    intro s hs
    rw [List.splitOn_cons_eq_if_modifyHead] at hs
    split at hs
    · rcases List.mem_cons.mp hs with rfl | hs
      · simp
      · exact ih s hs
    · rename_i hx
      cases hsplit : xs.splitOn sep with
      | nil => simp [hsplit] at hs
      | cons first rest =>
        rw [hsplit] at hs ih
        rcases List.mem_cons.mp hs with rfl | hs
        · have hfirst := ih first List.mem_cons_self
          intro hmem
          rcases List.mem_cons.mp hmem with rfl | hmem
          · simp at hx
          · exact hfirst hmem
        · exact ih s (List.mem_cons_of_mem first hs)

/-- Segments written with a separator between each two are read back. -/
theorem segments_intercalate {sep : α} {ss : List (List α)} (h : ∀ s ∈ ss, s ≠ [] ∧ sep ∉ s) :
    segments sep ([sep].intercalate ss) = ss := by
  rcases ss with _ | ⟨s, ss⟩
  · simp
  · rw [segments, List.splitOn_intercalate sep (fun l hl => (h l hl).2) (by simp)]
    rw [List.filter_eq_self]
    intro l hl
    simpa using (h l hl).1

/-- Segments that hold no separator, written with a separator between each two, are read back
but for the empty ones. -/
theorem segments_intercalate_filter {sep : α} {ss : List (List α)} (h : ∀ s ∈ ss, sep ∉ s) :
    segments sep ([sep].intercalate ss) = ss.filter (· ≠ []) := by
  cases ss with
  | nil => simp
  | cons s ss => rw [segments, List.splitOn_intercalate sep h (List.cons_ne_nil s ss)]

/-- Segments that are each written behind a separator, and a first one, are split. -/
theorem splitOn_flatMap {sep : α} {s : List α} {ss : List (List α)} (hs : sep ∉ s)
    (h : ∀ t ∈ ss, sep ∉ t) : (s ++ ss.flatMap (sep :: ·)).splitOn sep = s :: ss := by
  induction ss generalizing s with
  | nil => rw [List.flatMap_nil, List.append_nil, List.splitOn_eq_singleton hs]
  | cons t ss ih =>
    have htail := ih (h t List.mem_cons_self) fun r hr => h r (List.mem_cons_of_mem t hr)
    rw [List.flatMap_cons, List.cons_append, List.splitOn_append_cons_self_of_not_mem hs, htail]

omit [DecidableEq α] in
/-- An end of segments that are each written behind a separator: an end of one of them, or
nothing, before the ones behind it. -/
theorem suffix_flatMap {sep : α} {part : List α} {ss : List (List α)}
    (h : part <:+ ss.flatMap (sep :: ·)) : ∃ s rest, part = s ++ rest.flatMap (sep :: ·) ∧
      (s = [] ∧ rest <:+ ss ∨ ∃ t, t :: rest <:+ ss ∧ s <:+ t) := by
  induction ss with
  | nil =>
    obtain rfl := List.suffix_nil.mp h
    exact ⟨[], [], rfl, Or.inl ⟨rfl, List.suffix_refl []⟩⟩
  | cons t ss ih =>
    have hlater : part <:+ ss.flatMap (sep :: ·) → ∃ s rest,
        part = s ++ rest.flatMap (sep :: ·) ∧
        (s = [] ∧ rest <:+ t :: ss ∨ ∃ t', t' :: rest <:+ t :: ss ∧ s <:+ t') := by
      intro hpart
      obtain ⟨s, rest, heq, hcase⟩ := ih hpart
      refine ⟨s, rest, heq, hcase.imp ?_ ?_⟩
      · exact fun hempty => ⟨hempty.1, hempty.2.trans (List.suffix_cons t ss)⟩
      · rintro ⟨t', hrest, hs⟩
        exact ⟨t', hrest.trans (List.suffix_cons t ss), hs⟩
    rw [List.flatMap_cons, List.cons_append, List.suffix_cons_iff] at h
    obtain h | ⟨front, h⟩ := h
    · exact ⟨[], t :: ss, h, Or.inl ⟨rfl, List.suffix_refl _⟩⟩
    · rw [List.append_eq_append_iff] at h
      obtain ⟨s, ht, hpart⟩ | ⟨c, hfront, hss⟩ := h
      · exact ⟨s, ss, hpart, Or.inr ⟨t, List.suffix_refl _, front, ht.symm⟩⟩
      · exact hlater ⟨c, hss.symm⟩

omit [DecidableEq α] in
/-- What segments hold when written with separators between them. -/
theorem mem_intercalate {sep c : α} {ss : List (List α)} (h : c ∈ [sep].intercalate ss) :
    c = sep ∨ ∃ s ∈ ss, c ∈ s := by
  induction ss with
  | nil => simp at h
  | cons s rest ih =>
    rcases rest with _ | ⟨s', rest⟩
    · exact .inr ⟨s, List.mem_cons_self, by simpa using h⟩
    · rw [List.intercalate_cons_of_ne_nil (by simp), List.append_assoc, List.mem_append,
        List.mem_append, List.mem_singleton] at h
      rcases h with h | h | h
      · exact .inr ⟨s, List.mem_cons_self, h⟩
      · exact .inl h
      · rcases ih h with h | ⟨t, ht, h⟩
        · exact .inl h
        · exact .inr ⟨t, List.mem_cons_of_mem s ht, h⟩

/-- What is no separator is in a segment. -/
theorem mem_segments {sep c : α} {l : List α} (h : c ∈ l) (hc : c ≠ sep) :
    ∃ s ∈ segments sep l, c ∈ s := by
  rw [← show [sep].intercalate (l.splitOn sep) = l from List.intercalate_splitOn sep] at h
  obtain ⟨s, hs, hmem⟩ := (mem_intercalate h).resolve_left hc
  exact ⟨s, List.mem_filter.mpr ⟨hs, decide_eq_true (List.ne_nil_of_mem hmem)⟩, hmem⟩

/-- Everything lies at or below itself. -/
theorem below_refl (sep : α) (l : List α) : Below sep l l := List.prefix_rfl

/-- What is written after a root lies below it. -/
theorem below_append_cons (sep : α) (root l : List α) : Below sep root (root ++ sep :: l) := by
  rw [Below, segments_append_cons]
  exact List.prefix_append _ _

end RemoteWorkspace.Computation
