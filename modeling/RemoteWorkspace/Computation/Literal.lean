import Mathlib.Data.Nat.Find
import Mathlib.Tactic.Common

/-!
# Literal replacement

The matches of a pattern in a list are found from the left and do not overlap. Between them
stand the pieces of the list: written with the pattern between each two they are the list
(`intercalate_pieces`), and written with another list between each two they are the list
with every match replaced.
-/

set_option autoImplicit false

namespace RemoteWorkspace.Computation.Literal

variable {α : Type} [DecidableEq α]

/-- The pieces of a list between the matches of a pattern, when the first `skip` elements
belong to a match already found. -/
def piecesFrom (pattern : List α) : ℕ → List α → List (List α)
  | _, [] => [[]]
  | skip + 1, _ :: rest => piecesFrom pattern skip rest
  | 0, x :: rest =>
    if pattern <+: x :: rest then [] :: piecesFrom pattern (pattern.length - 1) rest
    else (piecesFrom pattern 0 rest).modifyHead (x :: ·)

/-- The pieces of a list between the matches of a pattern. -/
def pieces (pattern l : List α) : List (List α) := piecesFrom pattern 0 l

/-- How many matches of a pattern a list has. -/
def countMatches (pattern l : List α) : ℕ := (pieces pattern l).length - 1

/-- A list with every match of a pattern replaced. -/
def replace (pattern new l : List α) : List α := new.intercalate (pieces pattern l)

/-- There is always a piece. -/
theorem piecesFrom_ne_nil (pattern : List α) (skip : ℕ) (l : List α) :
    piecesFrom pattern skip l ≠ [] := by
  induction l generalizing skip with
  | nil => cases skip <;> exact List.cons_ne_nil _ _
  | cons x rest ih =>
    cases skip with
    | succ skip => exact ih skip
    | zero =>
      rw [piecesFrom]
      split_ifs
      · exact List.cons_ne_nil _ _
      · intro hnil
        exact ih 0 (by simpa using hnil)

omit [DecidableEq α] in
/-- An element put before the first piece stands before them all. -/
theorem intercalate_modifyHead {sep : List α} {ls : List (List α)} (h : ls ≠ []) (x : α) :
    sep.intercalate (ls.modifyHead (x :: ·)) = x :: sep.intercalate ls := by
  rcases ls with _ | ⟨first, _ | ⟨second, rest⟩⟩
  · exact absurd rfl h
  · simp
  · simp [List.intercalate_cons_of_ne_nil]

/-- The pieces with the pattern between each two are the list. -/
theorem intercalate_piecesFrom {pattern : List α} (h : pattern ≠ []) (skip : ℕ) (l : List α) :
    pattern.intercalate (piecesFrom pattern skip l) = l.drop skip := by
  induction l generalizing skip with
  | nil => cases skip <;> simp [piecesFrom]
  | cons x rest ih =>
    cases skip with
    | succ skip => rw [piecesFrom, ih, List.drop_succ_cons]
    | zero =>
      rw [piecesFrom]
      split_ifs with hmatch
      · -- the match is the pattern, and what is behind it is read on
        obtain ⟨behind, hbehind⟩ := hmatch
        obtain ⟨first, others, rfl⟩ := List.exists_cons_of_ne_nil h
        obtain ⟨rfl, rfl⟩ := List.cons.inj hbehind
        rw [List.intercalate_cons_of_ne_nil (piecesFrom_ne_nil _ _ _), ih]
        simp
      · rw [intercalate_modifyHead (piecesFrom_ne_nil _ _ _), ih]
        rfl

/-- The pieces of a list with the pattern between each two are the list. -/
theorem intercalate_pieces {pattern : List α} (h : pattern ≠ []) (l : List α) :
    pattern.intercalate (pieces pattern l) = l :=
  intercalate_piecesFrom h 0 l

/-! ### From the left -/

/-- Elements that belong to a match already found are passed over. -/
theorem piecesFrom_skip (pattern : List α) (skip : ℕ) (l : List α) :
    piecesFrom pattern skip l = pieces pattern (l.drop skip) := by
  induction l generalizing skip with
  | nil => cases skip <;> simp [piecesFrom, pieces]
  | cons x rest ih =>
    cases skip with
    | zero => rfl
    | succ skip =>
      rw [piecesFrom, ih, List.drop_succ_cons]

/-- A list that begins with a match. -/
theorem pieces_append {pattern : List α} (h : pattern ≠ []) (rest : List α) :
    pieces pattern (pattern ++ rest) = [] :: pieces pattern rest := by
  obtain ⟨x, others, rfl⟩ := List.exists_cons_of_ne_nil h
  have hmatch : (x :: others) <+: x :: (others ++ rest) := List.prefix_append (x :: others) rest
  rw [pieces, List.cons_append, piecesFrom, if_pos hmatch, piecesFrom_skip]
  simp

/-- A list that does not begin with one. -/
theorem pieces_cons {pattern : List α} {x : α} {rest : List α} (h : ¬ pattern <+: x :: rest) :
    pieces pattern (x :: rest) = (pieces pattern rest).modifyHead (x :: ·) := by
  rw [pieces, piecesFrom, if_neg h, pieces]

/-- No match begins in front of a place that its first element does not stand before. -/
theorem pieces_append_of_not_mem {x : α} {front : List α} (h : x ∉ front) (pattern rest : List α) :
    pieces (x :: pattern) (front ++ rest) =
      (pieces (x :: pattern) rest).modifyHead (front ++ ·) := by
  induction front with
  | nil =>
    change _ = List.modifyHead id _
    rw [List.modifyHead_id, id, List.nil_append]
  | cons y front ih =>
    rw [List.mem_cons, not_or] at h
    have hnot : ¬ x :: pattern <+: y :: (front ++ rest) := by
      intro hmatch
      exact h.1 (List.cons_prefix_cons.mp hmatch).1
    rw [List.cons_append, pieces_cons hnot, ih h.2, List.modifyHead_modifyHead]
    rfl

/-- There is always a piece. -/
theorem pieces_ne_nil (pattern l : List α) : pieces pattern l ≠ [] := piecesFrom_ne_nil pattern 0 l

/-- Nothing is replaced in an empty list. -/
@[simp] theorem replace_nil (pattern new : List α) : replace pattern new [] = [] := rfl

/-- A match at the beginning is replaced. -/
theorem replace_append {pattern : List α} (h : pattern ≠ []) (new rest : List α) :
    replace pattern new (pattern ++ rest) = new ++ replace pattern new rest := by
  rw [replace, pieces_append h, List.intercalate_cons_of_ne_nil (pieces_ne_nil _ _),
    List.nil_append, replace]

/-- Without a match at the beginning the first element stays. -/
theorem replace_cons {pattern : List α} {x : α} {rest : List α} (h : ¬ pattern <+: x :: rest)
    (new : List α) : replace pattern new (x :: rest) = x :: replace pattern new rest := by
  rw [replace, pieces_cons h, intercalate_modifyHead (pieces_ne_nil _ _), replace]

/-- A single element is replaced wherever it stands. -/
theorem replace_singleton (x : α) (new l : List α) :
    replace [x] new l = l.flatMap fun y => if y = x then new else [y] := by
  induction l with
  | nil => rfl
  | cons y rest ih =>
    by_cases hy : y = x
    · subst hy
      have hcons : y :: rest = [y] ++ rest := rfl
      rw [hcons, replace_append (List.cons_ne_nil _ _), ih, List.flatMap_append]
      simp
    · have hnot : ¬ [x] <+: y :: rest := fun h => hy (List.cons_prefix_cons.mp h).1.symm
      rw [replace_cons hnot, ih, List.flatMap_cons, if_neg hy, List.singleton_append]

/-- A match at the beginning counts once. -/
theorem countMatches_append {pattern : List α} (h : pattern ≠ []) (rest : List α) :
    countMatches pattern (pattern ++ rest) = countMatches pattern rest + 1 := by
  have hpos := List.length_pos_iff.mpr (pieces_ne_nil pattern rest)
  rw [countMatches, pieces_append h, List.length_cons, countMatches]
  omega

/-- Without a match at the beginning the matches are those of the rest. -/
theorem countMatches_cons {pattern : List α} {x : α} {rest : List α}
    (h : ¬ pattern <+: x :: rest) :
    countMatches pattern (x :: rest) = countMatches pattern rest := by
  rw [countMatches, pieces_cons h, List.length_modifyHead, countMatches]

/-- A single element matches wherever it stands. -/
theorem countMatches_singleton (x : α) (l : List α) : countMatches [x] l = l.count x := by
  induction l with
  | nil => rfl
  | cons y rest ih =>
    by_cases hy : y = x
    · subst hy
      have hcons : y :: rest = [y] ++ rest := rfl
      rw [hcons, countMatches_append (List.cons_ne_nil _ _), ih, List.singleton_append,
        List.count_cons_self]
    · have hnot : ¬ [x] <+: y :: rest := fun h => hy (List.cons_prefix_cons.mp h).1.symm
      rw [countMatches_cons hnot, ih, List.count_cons_of_ne hy]

/-- A list without a match is one piece. -/
theorem pieces_of_not_infix {pattern l : List α} (h : ¬ pattern <:+: l) :
    pieces pattern l = [l] := by
  induction l with
  | nil => rfl
  | cons x rest ih =>
    have hnot : ¬ pattern <+: x :: rest := fun hmatch => h hmatch.isInfix
    have hrest : ¬ pattern <:+: rest :=
      fun hmatch => h (hmatch.trans (List.suffix_cons x rest).isInfix)
    rw [pieces_cons hnot, ih hrest]
    rfl

/-- Nothing is replaced where there is no match. -/
theorem replace_of_not_infix {pattern l : List α} (h : ¬ pattern <:+: l) (new : List α) :
    replace pattern new l = l := by
  rw [replace, pieces_of_not_infix h, List.intercalate_singleton]

/-- With a shorter text the matches of a pattern make a list shorter. -/
theorem length_replace_le {pattern new : List α} (h : pattern ≠ [])
    (hshort : new.length < pattern.length) (l : List α) :
    (replace pattern new l).length ≤ l.length ∧
      (pattern <:+: l → (replace pattern new l).length < l.length) := by
  induction hn : l.length using Nat.strongRecOn generalizing l with
  | ind n ih =>
    subst hn
    by_cases hmatch : pattern <+: l
    · obtain ⟨rest, rfl⟩ := hmatch
      have hpos : 0 < pattern.length := List.length_pos_iff.mpr h
      have hrest := (ih rest.length (by rw [List.length_append]; omega) rest rfl).1
      rw [replace_append h, List.length_append, List.length_append]
      omega
    · cases l with
      | nil =>
        refine ⟨Nat.le_refl _, fun hinfix => ?_⟩
        exact absurd (List.infix_nil.mp hinfix) h
      | cons x rest =>
        obtain ⟨hle, hlt⟩ := ih rest.length (by simp) rest rfl
        rw [replace_cons hmatch, List.length_cons, List.length_cons]
        refine ⟨Nat.succ_le_succ hle, fun hinfix => Nat.succ_lt_succ (hlt ?_)⟩
        rcases List.infix_cons_iff.mp hinfix with hprefix | hinfix
        · exact absurd hprefix hmatch
        · exact hinfix

/-- With a shorter text exactly the lists without a match stay what they are. -/
theorem replace_eq_self_iff {pattern new : List α} (h : pattern ≠ [])
    (hshort : new.length < pattern.length) (l : List α) :
    replace pattern new l = l ↔ ¬ pattern <:+: l := by
  constructor
  · intro heq hinfix
    have hlt := (length_replace_le h hshort l).2 hinfix
    rw [heq] at hlt
    exact Nat.lt_irrefl _ hlt
  · intro hnot
    exact replace_of_not_infix hnot new

/-! ### The places of a pattern -/

/-- A pattern stands at a place of a list. -/
def StartsAt (pattern l : List α) (place : ℕ) : Prop := pattern <+: l.drop place

instance (pattern l : List α) (place : ℕ) : Decidable (StartsAt pattern l place) :=
  inferInstanceAs (Decidable (pattern <+: l.drop place))

omit [DecidableEq α] in
/-- A pattern stands in a list exactly when it stands at a place of it. -/
theorem infix_iff_startsAt {pattern l : List α} :
    pattern <:+: l ↔ ∃ place, StartsAt pattern l place := by
  constructor
  · rintro ⟨before, behind, rfl⟩
    refine ⟨before.length, behind, ?_⟩
    rw [List.append_assoc, List.drop_left]
  · rintro ⟨place, hmatch⟩
    exact hmatch.isInfix.trans (List.drop_suffix place l).isInfix

omit [DecidableEq α] in
/-- Of the places where a pattern stands there is a first one. -/
theorem exists_first {pattern l : List α} (h : ∃ place, StartsAt pattern l place) :
    ∃ first, StartsAt pattern l first ∧ (∀ k < first, ¬ StartsAt pattern l k) ∧
      ∀ k, StartsAt pattern l k → first ≤ k := by
  classical
  exact ⟨Nat.find h, Nat.find_spec h, fun k hk => Nat.find_min h hk,
    fun k hk => Nat.find_min' h hk⟩

/-- The first match cuts off the first piece. -/
theorem pieces_first {pattern l : List α} (h : pattern ≠ []) {place : ℕ}
    (hplace : StartsAt pattern l place) (hfirst : ∀ k < place, ¬ StartsAt pattern l k) :
    pieces pattern l = l.take place :: pieces pattern (l.drop (place + pattern.length)) := by
  induction place generalizing l with
  | zero =>
    obtain ⟨rest, hrest⟩ := hplace
    rw [List.drop_zero] at hrest
    subst hrest
    rw [pieces_append h, List.take_zero, Nat.zero_add, List.drop_left]
  | succ place ih =>
    cases l with
    | nil =>
      exact absurd (List.prefix_nil.mp hplace) h
    | cons x rest =>
      have hnot : ¬ pattern <+: x :: rest := hfirst 0 (Nat.succ_pos _)
      have hrest := ih (l := rest) hplace fun k hk => hfirst (k + 1) (Nat.succ_lt_succ hk)
      rw [pieces_cons hnot, hrest, List.modifyHead_cons, List.take_succ_cons,
        Nat.succ_add, List.drop_succ_cons]

/-- A pattern that stands nowhere has no match. -/
theorem countMatches_eq_zero_iff {pattern l : List α} (h : pattern ≠ []) :
    countMatches pattern l = 0 ↔ ∀ place, ¬ StartsAt pattern l place := by
  constructor
  · intro hzero place hplace
    obtain ⟨first, hmatch, hfirst, -⟩ := exists_first ⟨place, hplace⟩
    have hpos := List.length_pos_iff.mpr (pieces_ne_nil pattern (l.drop (first + pattern.length)))
    rw [countMatches, pieces_first h hmatch hfirst, List.length_cons] at hzero
    omega
  · intro hnone
    have hnot : ¬ pattern <:+: l := fun hinfix => by
      obtain ⟨place, hplace⟩ := infix_iff_startsAt.mp hinfix
      exact hnone place hplace
    rw [countMatches, pieces_of_not_infix hnot]
    rfl

/-- The matches are the first one and those behind it. -/
theorem countMatches_first {pattern l : List α} (h : pattern ≠ []) {place : ℕ}
    (hplace : StartsAt pattern l place) (hfirst : ∀ k < place, ¬ StartsAt pattern l k) :
    countMatches pattern l = countMatches pattern (l.drop (place + pattern.length)) + 1 := by
  have hpos := List.length_pos_iff.mpr (pieces_ne_nil pattern (l.drop (place + pattern.length)))
  rw [countMatches, pieces_first h hplace hfirst, List.length_cons, countMatches]
  omega

omit [DecidableEq α] in
/-- The places behind a place. -/
theorem startsAt_drop {pattern l : List α} {n place : ℕ} :
    StartsAt pattern (l.drop n) place ↔ StartsAt pattern l (n + place) := by
  rw [StartsAt, List.drop_drop, StartsAt]

/-- There is one match exactly when the pattern stands in the list, and every two of its places
overlap. -/
theorem countMatches_eq_one_iff {pattern l : List α} (h : pattern ≠ []) :
    countMatches pattern l = 1 ↔ (∃ place, StartsAt pattern l place) ∧
      ∀ p q, StartsAt pattern l p → StartsAt pattern l q → q < p + pattern.length := by
  by_cases hsome : ∃ place, StartsAt pattern l place
  · obtain ⟨first, hplace, hbefore, hleast⟩ := exists_first hsome
    have hcount := countMatches_first h hplace hbefore
    have hzero := countMatches_eq_zero_iff (l := l.drop (first + pattern.length)) h
    constructor
    · intro hone
      refine ⟨hsome, fun p q hp hq => ?_⟩
      have hbehind := hzero.mp (by omega) (q - (first + pattern.length))
      rw [startsAt_drop] at hbehind
      have hle := hleast p hp
      by_contra hlt
      have hback : first + pattern.length + (q - (first + pattern.length)) = q := by omega
      rw [hback] at hbehind
      exact hbehind hq
    · rintro ⟨-, hoverlap⟩
      have hnone : countMatches pattern (l.drop (first + pattern.length)) = 0 := by
        refine hzero.mpr fun k hk => ?_
        have hlt := hoverlap first _ hplace (startsAt_drop.mp hk)
        omega
      omega
  · have hnone := (countMatches_eq_zero_iff (l := l) h).mpr
      fun place hplace => hsome ⟨place, hplace⟩
    refine iff_of_false (by omega) fun hboth => hsome hboth.1

/-- The only match is replaced, and nothing else. -/
theorem replace_one {pattern l : List α} (h : pattern ≠ []) {first : ℕ}
    (hone : countMatches pattern l = 1) (hplace : StartsAt pattern l first)
    (hbefore : ∀ k < first, ¬ StartsAt pattern l k) (new : List α) :
    replace pattern new l = l.take first ++ new ++ l.drop (first + pattern.length) := by
  have hcount := countMatches_first h hplace hbefore
  have hzero : countMatches pattern (l.drop (first + pattern.length)) = 0 := by omega
  have hnone := (countMatches_eq_zero_iff h).mp hzero
  have hnot : ¬ pattern <:+: l.drop (first + pattern.length) := fun hinfix => by
    obtain ⟨place, hmatch⟩ := infix_iff_startsAt.mp hinfix
    exact hnone place hmatch
  rw [replace, pieces_first h hplace hbefore, pieces_of_not_infix hnot]
  simp [List.append_assoc]

end RemoteWorkspace.Computation.Literal
