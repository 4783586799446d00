import Mathlib.Data.List.TakeWhile
import Mathlib.Data.Nat.Digits.Lemmas
import RemoteWorkspace.Computation.Json

/-!
# Whole numbers as the numbers of JSON

The whole numbers, the negative zero and an infinite number, with what JSON needs of numbers.
-/

set_option autoImplicit false

namespace RemoteWorkspace.Computation

/-- A whole number, the negative zero, or an infinite number. -/
inductive WholeNumber where
  | whole (k : ℤ)
  | negativeZero
  | infinite
  deriving DecidableEq

namespace WholeNumber

open Json

/-- The decimal digits of a number. -/
def digits (n : ℕ) : Text :=
  if n = 0 then [0x30] else (Nat.digits 10 n).reverse.map fun d => UInt16.ofNat (0x30 + d)

/-- The number of decimal digits. -/
def ofDigits (text : Text) : ℕ :=
  text.foldl (fun n u => n * 10 + (u.toNat - 0x30)) 0

/-- The text of a number. -/
def write : WholeNumber → Text
  | .whole (.ofNat n) => digits n
  | .whole (.negSucc n) => 0x2D :: digits (n + 1)
  | .negativeZero => [0x30]
  | .infinite => ascii "Infinity"

/-- The number of a text. -/
def read : Text → WholeNumber
  | [] => .whole 0
  | u :: us =>
    if u = 0x2D then
      match ofDigits us with
      | 0 => .negativeZero
      | n + 1 => .whole (.negSucc n)
    else .whole (ofDigits (u :: us))

/-- The length that a number is. -/
def toNat : WholeNumber → Option ℕ
  | .whole (.ofNat n) => if n < 1 <<< 53 then some n else none
  | .whole (.negSucc _) => none
  | .negativeZero => some 0
  | .infinite => none

/-- A digit has a code unit that is one. -/
theorem isDigit_ofNat {d : ℕ} (h : d < 10) :
    isDigit (UInt16.ofNat (0x30 + d)) = true ∧ (UInt16.ofNat (0x30 + d)).toNat - 0x30 = d := by
  revert d
  decide

/-- A number is written with digits. -/
theorem all_digits (n : ℕ) : (digits n).all isDigit = true := by
  rw [digits]
  split
  · rfl
  · rw [List.all_eq_true]
    intro u hu
    obtain ⟨d, hd, rfl⟩ := List.mem_map.mp hu
    exact (isDigit_ofNat (Nat.digits_lt_base (by decide) (List.mem_reverse.mp hd))).1

/-- A number is not written with a zero before another digit. -/
theorem head_digits (n : ℕ) :
    digits n ≠ [] ∧ ((digits n).head? ≠ some 0x30 ∨ (digits n).length = 1) := by
  rw [digits]
  split
  · exact ⟨by decide, .inr rfl⟩
  · rename_i hn
    have hne : Nat.digits 10 n ≠ [] := Nat.digits_ne_nil_iff_ne_zero.mpr hn
    have hlast := Nat.getLast_digit_ne_zero 10 hn
    have hlt := Nat.digits_lt_base (by decide) (List.getLast_mem hne)
    refine ⟨by simpa using hne, .inl ?_⟩
    rw [List.head?_map, List.head?_reverse, List.getLast?_eq_some_getLast hne, Option.map_some]
    intro h
    have hdigit := (isDigit_ofNat hlt).2
    rw [Option.some.inj h] at hdigit
    exact hlast hdigit.symm

/-- Digits with no zero before another one are a literal, also behind a sign. -/
theorem isLiteral_of_digits {text : Text} (hall : text.all isDigit = true) (hne : text ≠ [])
    (hzero : text.head? ≠ some 0x30 ∨ text.length = 1) :
    isLiteral text = true ∧ isLiteral (0x2D :: text) = true := by
  have hmem := List.all_eq_true.mp hall
  have htake : text.takeWhile isDigit = text := List.takeWhile_eq_self_iff.mpr hmem
  have hdrop : text.dropWhile isDigit = [] := List.dropWhile_eq_nil_iff.mpr hmem
  have hunits : text.all isNumberUnit = true := by
    rw [List.all_eq_true]
    intro u hu
    rw [isNumberUnit, hmem u hu]
    rfl
  have hsign : text.head? ≠ some 0x2D := by
    intro h
    have hdigit := hmem 0x2D (List.mem_of_mem_head? h)
    exact absurd hdigit (by decide)
  have hempty : text.isEmpty = false := by simpa using hne
  have hfirst : (text.head? != some 0x30 || text.length == 1) = true := by
    simpa using hzero
  refine ⟨?_, ?_⟩
  · simp only [isLiteral, if_neg hsign, htake, hdrop, hempty, hfirst, hunits, isFraction]
    rfl
  · simp only [isLiteral, List.head?_cons, if_true, List.tail_cons, htake, hdrop, hempty, hfirst,
      List.all_cons, hunits, isFraction]
    rfl

/-- The digits of a number are read as it. -/
theorem ofDigits_digits (n : ℕ) : ofDigits (digits n) = n := by
  have hread : ∀ l : List ℕ, (∀ d ∈ l, d < 10) →
      ofDigits (l.reverse.map fun d => UInt16.ofNat (0x30 + d)) = Nat.ofDigits 10 l := by
    intro l hl
    induction l with
    | nil => rfl
    | cons d l ih =>
      obtain ⟨hd, hl⟩ := List.forall_mem_cons.mp hl
      have hrest := ih hl
      rw [ofDigits] at hrest ⊢
      rw [List.reverse_cons, List.map_append, List.foldl_append, hrest, Nat.ofDigits_cons]
      simp only [List.map_cons, List.map_nil, List.foldl_cons, List.foldl_nil]
      rw [(isDigit_ofNat hd).2]
      omega
  rw [digits]
  split
  · rename_i hn
    rw [hn]
    rfl
  · rw [hread _ fun d hd => Nat.digits_lt_base (by decide) hd, Nat.ofDigits_digits]

/-- What is written for a number starts with a digit. -/
theorem digits_cons (n : ℕ) : ∃ u us, digits n = u :: us ∧ u ≠ 0x2D := by
  obtain ⟨u, us, hcons⟩ := List.exists_cons_of_ne_nil (head_digits n).1
  refine ⟨u, us, hcons, ?_⟩
  rintro rfl
  have hall := List.all_eq_true.mp (all_digits n) 0x2D (by rw [hcons]; exact List.mem_cons_self)
  exact absurd hall (by decide)

instance : JsNumber WholeNumber where
  isFinite x := x != .infinite
  isNegativeZero x := x == .negativeZero
  ofNat n := .whole n
  toNat := toNat
  write := write
  read := read
  isFinite_ofNat n _ := by simp
  isNegativeZero_ofNat n _ := by simp
  toNat_ofNat n hn := if_pos hn
  toNat_lt x n h := by
    cases x with
    | whole k =>
      cases k with
      | ofNat m =>
        rw [toNat] at h
        split at h
        · obtain rfl := Option.some.inj h
          assumption
        · cases h
      | negSucc m => cases h
    | negativeZero =>
      obtain rfl := Option.some.inj h
      decide
    | infinite => cases h
  isLiteral_write x hx := by
    cases x with
    | whole k =>
      cases k with
      | ofNat m =>
        exact (isLiteral_of_digits (all_digits m) (head_digits m).1 (head_digits m).2).1
      | negSucc m =>
        exact (isLiteral_of_digits (all_digits (m + 1)) (head_digits (m + 1)).1
          (head_digits (m + 1)).2).2
    | negativeZero => decide
    | infinite => simp at hx
  read_write x hx hzero := by
    cases x with
    | whole k =>
      cases k with
      | ofNat m =>
        obtain ⟨u, us, hcons, hu⟩ := digits_cons m
        have hread := ofDigits_digits m
        rw [hcons] at hread
        simp only [write, hcons, read, if_neg hu, hread]
        rfl
      | negSucc m =>
        simp only [write, read, if_true, ofDigits_digits]
    | negativeZero => simp at hzero
    | infinite => simp at hx

end WholeNumber

end RemoteWorkspace.Computation
