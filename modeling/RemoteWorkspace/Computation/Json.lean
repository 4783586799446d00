import Mathlib.Data.List.Sort
import Mathlib.Tactic.Common
import RemoteWorkspace.Computation.Utf16

/-!
# JSON values and their text

JSON as ECMAScript writes and reads it, over strings of UTF-16 code units. The numbers of the
language are a parameter: a type with the few operations and laws that the text depends on.

An object is the list of its members in the order in which the language enumerates them: the
keys that are array indices first, ascending, and then the others as they were added. `define`
adds a member so, or gives an existing one a new value.
-/

set_option autoImplicit false

namespace RemoteWorkspace.Computation

namespace Json

/-- A string of the language: its code units. -/
abbrev Text := List UInt16

/-- The code units of an ASCII text. -/
def ascii (s : String) : Text := s.toList.map fun c => UInt16.ofNat c.toNat

/-! ### Numbers -/

/-- A decimal digit. -/
def isDigit (u : UInt16) : Bool := 0x30 ≤ u && u ≤ 0x39

/-- A code unit that a number may be written with: a digit, a sign, the point, an exponent
mark. -/
def isNumberUnit (u : UInt16) : Bool :=
  isDigit u || u == 0x2B || u == 0x2D || u == 0x2E || u == 0x45 || u == 0x65

/-- An exponent: its mark, a sign or none, and digits. -/
def isExponent : Text → Bool
  | [] => true
  | mark :: rest =>
    let digits := if rest.head? = some 0x2B ∨ rest.head? = some 0x2D then rest.tail else rest
    (mark == 0x45 || mark == 0x65) && !digits.isEmpty && digits.all isDigit

/-- A fraction, which may be left out, and an exponent. -/
def isFraction : Text → Bool
  | [] => true
  | point :: rest =>
    if point = 0x2E then
      !(rest.takeWhile isDigit).isEmpty && isExponent (rest.dropWhile isDigit)
    else isExponent (point :: rest)

/-- A number as JSON writes it: no leading zero before another digit, and digits on both sides
of the point. -/
def isLiteral (text : Text) : Bool :=
  let unsigned := if text.head? = some 0x2D then text.tail else text
  let whole := unsigned.takeWhile isDigit
  !whole.isEmpty && (whole.head? != some 0x30 || whole.length == 1) &&
    text.all isNumberUnit && isFraction (unsigned.dropWhile isDigit)

end Json

open Json

/-- The numbers of the language, as far as JSON depends on them: whether one is finite, whether it
is the negative zero, the numbers of lengths, and how a number is written and read. A number
that is neither infinite nor the negative zero is written as a literal that is read as it. -/
class JsNumber (ν : Type) where
  isFinite : ν → Bool
  isNegativeZero : ν → Bool
  /-- The number of a length. -/
  ofNat : ℕ → ν
  /-- The length that a number is: a safe integer that is not below zero. -/
  toNat : ν → Option ℕ
  write : ν → Text
  read : Text → ν
  isFinite_ofNat : ∀ n, n < 1 <<< 53 → isFinite (ofNat n) = true
  isNegativeZero_ofNat : ∀ n, n < 1 <<< 53 → isNegativeZero (ofNat n) = false
  toNat_ofNat : ∀ n, n < 1 <<< 53 → toNat (ofNat n) = some n
  toNat_lt : ∀ x n, toNat x = some n → n < 1 <<< 53
  isLiteral_write : ∀ x, isFinite x = true → isLiteral (write x) = true
  read_write : ∀ x, isFinite x = true → isNegativeZero x = false → read (write x) = x

/-! ### Values -/

/-- A JSON value. -/
inductive Json (ν : Type) where
  | null
  | bool (b : Bool)
  | num (x : ν)
  | str (s : Text)
  | arr (items : List (Json ν))
  | obj (members : List (Text × Json ν))
  deriving Inhabited

namespace Json

variable {ν : Type}

/-- Induction over a value and what it holds. -/
theorem induct {P : Json ν → Prop} (null : P .null) (bool : ∀ b, P (.bool b))
    (num : ∀ x, P (.num x)) (str : ∀ s, P (.str s))
    (arr : ∀ items, (∀ v ∈ items, P v) → P (.arr items))
    (obj : ∀ members, (∀ m ∈ members, P m.2) → P (.obj members)) : ∀ v, P v
  | .null => null
  | .bool b => bool b
  | .num x => num x
  | .str s => str s
  | .arr items => arr items fun v _ => induct null bool num str arr obj v
  | .obj members => obj members fun m _ => induct null bool num str arr obj m.2
termination_by v => sizeOf v
decreasing_by
  · have := List.sizeOf_lt_of_mem ‹v ∈ items›
    simp
    omega
  · have := List.sizeOf_lt_of_mem ‹m ∈ members›
    cases m
    simp at this ⊢
    omega

/-! ### Members -/

/-- The array index that a key is: a decimal number below `2³² - 1` without leading zeros. -/
def arrayIndex (key : Text) : Option ℕ :=
  if key ≠ [] ∧ key.all isDigit ∧ (key.head? ≠ some 0x30 ∨ key.length = 1) then
    let n := key.foldl (fun n u => n * 10 + (u.toNat - 0x30)) 0
    if n < (1 <<< 32) - 1 then some n else none
  else none

/-- Whether one key is enumerated before another one that is already there. -/
def before (key other : Text) : Bool :=
  match arrayIndex key, arrayIndex other with
  | some i, some j => i < j
  | some _, none => true
  | none, _ => false

/-- Give an object a member, or an existing one a new value. -/
def define {α : Type} (key : Text) (value : α) : List (Text × α) → List (Text × α)
  | [] => [(key, value)]
  | (other, v) :: members =>
    if other = key then (other, value) :: members
    else if before key other then (key, value) :: (other, v) :: members
    else (other, v) :: define key value members

/-- Give an object several members in turn. -/
def defineAll {α : Type} (members : List (Text × α)) (added : List (Text × α)) :
    List (Text × α) :=
  added.foldl (fun members m => define m.1 m.2 members) members

/-- Keys as they are enumerated: no two alike, and none that would be before an earlier one. -/
def InOrder (keys : List Text) : Prop :=
  keys.Pairwise fun earlier later => earlier ≠ later ∧ before later earlier = false

instance (keys : List Text) : Decidable (InOrder keys) :=
  inferInstanceAs (Decidable (keys.Pairwise fun earlier later =>
    earlier ≠ later ∧ before later earlier = false))

/-- A member that comes after all others is added at the end. -/
theorem define_append {α : Type} {key : Text} (value : α) {members : List (Text × α)}
    (h : ∀ m ∈ members, m.1 ≠ key ∧ before key m.1 = false) :
    define key value members = members ++ [(key, value)] := by
  induction members with
  | nil => rfl
  | cons m members ih =>
    obtain ⟨⟨hne, hbefore⟩, hrest⟩ := List.forall_mem_cons.mp h
    rw [define, if_neg hne, hbefore, if_neg (by simp), ih hrest, List.cons_append]

/-- Members in the order of their enumeration are added as they are. -/
theorem defineAll_of_inOrder {α : Type} (members added : List (Text × α))
    (h : InOrder ((members ++ added).map Prod.fst)) :
    defineAll members added = members ++ added := by
  induction added generalizing members with
  | nil => simp [defineAll]
  | cons m added ih =>
    have hmembers : ∀ m' ∈ members, m'.1 ≠ m.1 ∧ before m.1 m'.1 = false := by
      intro m' hm'
      rw [InOrder, List.map_append, List.map_cons, List.pairwise_append] at h
      exact h.2.2 m'.1 (List.mem_map_of_mem hm') m.1 List.mem_cons_self
    have hassoc : members ++ m :: added = (members ++ [m]) ++ added := by simp
    rw [defineAll, List.foldl_cons, define_append m.2 hmembers, hassoc]
    rw [hassoc] at h
    exact ih (members ++ [m]) h

/-- A member is added to other values at the same place. -/
theorem define_map {α β : Type} (f : α → β) (key : Text) (value : α) (members : List (Text × α)) :
    (define key value members).map (Prod.map id f) =
      define key (f value) (members.map (Prod.map id f)) := by
  induction members with
  | nil => rfl
  | cons m members ih =>
    obtain ⟨other, v⟩ := m
    simp only [define, List.map_cons, Prod.map_apply, id]
    split
    · rfl
    · split
      · rfl
      · rw [List.map_cons, ih]
        rfl

/-- Members are added to other values at the same places. -/
theorem defineAll_map {α β : Type} (f : α → β) (members added : List (Text × α)) :
    (defineAll members added).map (Prod.map id f) =
      defineAll (members.map (Prod.map id f)) (added.map (Prod.map id f)) := by
  induction added generalizing members with
  | nil => rfl
  | cons m added ih =>
    rw [List.map_cons, defineAll, List.foldl_cons, defineAll, List.foldl_cons]
    have hrest := ih (define m.1 m.2 members)
    rw [define_map] at hrest
    exact hrest

end Json

end RemoteWorkspace.Computation
