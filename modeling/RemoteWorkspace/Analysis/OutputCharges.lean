import Mathlib.Data.Bool.AllAny
import RemoteWorkspace.Analysis.PtcFlatten
import RemoteWorkspace.Computation.JsonSize
import RemoteWorkspace.Model.PtcOutput

/-!
# What output is charged with

A string is charged with exactly the bytes of its JSON text. A value is charged with those of its
tokens, which leave out one thing that its JSON text has: the commas between the items of an
array and between the members of an object (`sized_value`).
-/

set_option autoImplicit false

namespace RemoteWorkspace.Model.PtcOutput

open RemoteWorkspace.Computation
open RemoteWorkspace.Computation.Json
open RemoteWorkspace.Computation.Utf16
open RemoteWorkspace.Model.PtcCodec

/-! ### Characters -/

/-- The first halves of pairs. -/
theorem high_iff {u : UInt16} : (0xD800 ≤ u ∧ u ≤ 0xDBFF) ↔ isHigh u = true := by
  have hlower : (0xD800 : UInt16).toNat = 0xD800 := by decide
  have hupper : (0xDBFF : UInt16).toNat = 0xDBFF := by decide
  rw [isHigh_iff, UInt16.le_iff_toNat_le, UInt16.le_iff_toNat_le, hlower, hupper]
  omega

/-- The second halves of pairs. -/
theorem low_iff {u : UInt16} : (0xDC00 ≤ u ∧ u ≤ 0xDFFF) ↔ isLow u = true := by
  have hlower : (0xDC00 : UInt16).toNat = 0xDC00 := by decide
  have hupper : (0xDFFF : UInt16).toNat = 0xDFFF := by decide
  rw [isLow_iff, UInt16.le_iff_toNat_le, UInt16.le_iff_toNat_le, hlower, hupper]
  omega

/-- The halves of pairs. -/
theorem surrogate_iff {u : UInt16} :
    (0xD800 ≤ u ∧ u ≤ 0xDFFF) ↔ isHigh u = true ∨ isLow u = true := by
  have hlower : (0xD800 : UInt16).toNat = 0xD800 := by decide
  have hupper : (0xDFFF : UInt16).toNat = 0xDFFF := by decide
  rw [isHigh_iff, isLow_iff, UInt16.le_iff_toNat_le, UInt16.le_iff_toNat_le, hlower, hupper]
  omega

/-- What decides that a unit starts a pair. -/
theorem pair_iff {u : UInt16} {low : Option UInt16} :
    ((0xD800 ≤ u ∧ u ≤ 0xDBFF) ∧ (low.any fun low => 0xDC00 ≤ low ∧ low ≤ 0xDFFF) = true) ↔
      isHigh u = true ∧ low.any isLow = true := by
  rw [high_iff]
  apply and_congr_right
  intro _
  cases low with
  | none => simp
  | some v => simp [← low_iff]

/-- A pair of surrogates costs four bytes. -/
theorem characterCost_pair {u v : UInt16} (hu : isHigh u = true) (hv : isLow v = true) :
    characterCost u (some v) = ⟨4, 2⟩ := by
  rw [characterCost]
  exact if_pos (pair_iff.mpr ⟨hu, by rwa [Option.any_some]⟩)

/-- Four hexadecimal digits are ASCII. -/
theorem hexDigit_lt : ∀ n, n < 0x10 → (hexDigit n).toNat < 0x80 := by decide

/-- An escape with four digits. -/
theorem sized_digits (u : UInt16) : Sized (0x5C :: 0x75 :: hexDigits u) 6 := by
  have hlt : u.toNat < 0x10000 := u.toNat_lt
  change Sized _ (0x5C :: 0x75 :: hexDigits u).length
  apply sized_ascii
  intro v hv
  simp only [hexDigits, List.mem_cons, List.not_mem_nil, or_false] at hv
  rcases hv with rfl | rfl | rfl | rfl | rfl | rfl
  · decide
  · decide
  · exact hexDigit_lt _ (by omega)
  · exact hexDigit_lt _ (by omega)
  · exact hexDigit_lt _ (by omega)
  · exact hexDigit_lt _ (by omega)

/-- The units that are escaped with a letter. -/
def Lettered (u : UInt16) : Prop :=
  u = 8 ∨ u = 9 ∨ u = 10 ∨ u = 12 ∨ u = 13 ∨ u = 34 ∨ u = 92

/-- An escape with a letter. -/
theorem escapeUnit_lettered {u : UInt16} (h : Lettered u) :
    Sized (escapeUnit u) 2 ∧ ¬ (isHigh u = true ∨ isLow u = true) := by
  have hescape : ∃ letter, escapeUnit u = [0x5C, letter] ∧ letter.toNat < 0x80 := by
    rcases h with rfl | rfl | rfl | rfl | rfl | rfl | rfl
    all_goals exact ⟨_, rfl, by decide⟩
  obtain ⟨letter, hletter, hlt⟩ := hescape
  refine ⟨?_, ?_⟩
  · rw [hletter]
    change Sized _ [0x5C, letter].length
    apply sized_ascii
    intro v hv
    rcases List.mem_cons.mp hv with rfl | hv
    · decide
    · rwa [List.mem_singleton.mp hv]
  · rcases h with rfl | rfl | rfl | rfl | rfl | rfl | rfl
    all_goals decide

/-- Units without a letter. -/
theorem escapeUnit_plain {u : UInt16} (h : ¬ Lettered u) :
    escapeUnit u = if u < 0x20 ∨ isHigh u ∨ isLow u then 0x5C :: 0x75 :: hexDigits u else [u] := by
  have hletter : escapeLetter u = none := by
    simp only [Lettered, not_or] at h
    obtain ⟨h8, h9, h10, h12, h13, h34, h92⟩ := h
    rw [escapeLetter, if_neg (not_or.mpr ⟨h34, h92⟩), if_neg h8, if_neg h9, if_neg h10, if_neg h12,
      if_neg h13]
  rw [escapeUnit, hletter]

/-- Any other unit costs the bytes that it is written with. -/
theorem characterCost_unit (u : UInt16) (low : Option UInt16)
    (h : ¬ (isHigh u = true ∧ low.any isLow = true)) :
    (characterCost u low).width = 1 ∧ Sized (escapeUnit u) (characterCost u low).cost := by
  rw [characterCost, if_neg (mt pair_iff.mp h)]
  by_cases hsurrogate : isHigh u = true ∨ isLow u = true
  · have hplain : ¬ Lettered u := fun hlettered => (escapeUnit_lettered hlettered).2 hsurrogate
    rw [if_pos (surrogate_iff.mpr hsurrogate), escapeUnit_plain hplain, if_pos (.inr hsurrogate)]
    exact ⟨rfl, sized_digits u⟩
  · rw [if_neg (mt surrogate_iff.mp hsurrogate)]
    by_cases hlettered : u = 8 ∨ u = 9 ∨ u = 10 ∨ u = 12 ∨ u = 13 ∨ u = 34 ∨ u = 92
    · rw [if_pos hlettered]
      exact ⟨rfl, (escapeUnit_lettered hlettered).1⟩
    · rw [if_neg hlettered, escapeUnit_plain hlettered]
      by_cases hcontrol : u < 0x20
      · rw [if_pos hcontrol, if_pos (.inl hcontrol)]
        exact ⟨rfl, sized_digits u⟩
      · rw [if_neg hcontrol, if_neg (not_or.mpr ⟨hcontrol, hsurrogate⟩)]
        obtain ⟨hhigh, hlow⟩ := not_or.mp hsurrogate
        have hunit := sized_unit (Bool.not_eq_true _ ▸ hhigh) (Bool.not_eq_true _ ▸ hlow)
        have hascii : u < 0x80 ↔ u.toNat < 0x80 := UInt16.lt_iff_toNat_lt
        have hshort : u < 0x800 ↔ u.toNat < 0x800 := UInt16.lt_iff_toNat_lt
        simp only [← hascii, ← hshort] at hunit
        split
        · rw [if_pos ‹_›] at hunit
          exact ⟨rfl, hunit⟩
        · rw [if_neg ‹_›] at hunit
          split
          · rw [if_pos ‹_›] at hunit
            exact ⟨rfl, hunit⟩
          · rw [if_neg ‹_›] at hunit
            exact ⟨rfl, hunit⟩

/-- The cost of the characters of a string. -/
def cost : Text → ℕ
  | [] => 0
  | [u] => (characterCost u none).cost
  | u :: v :: us =>
    if (characterCost u (some v)).width = 2 then (characterCost u (some v)).cost + cost us
    else (characterCost u (some v)).cost + cost (v :: us)

/-! ### Strings -/

/-- The characters of a string cost the bytes that they are written with. -/
theorem sized_escape (text : Text) : Sized (escape text) (cost text) := by
  induction text using escape.induct with
  | case1 =>
    rw [escape, cost]
    exact sized_nil
  | case2 u =>
    rw [escape, cost]
    exact (characterCost_unit u none (by simp)).2
  | case3 u v us hpair ih =>
    obtain ⟨hu, hv⟩ := Bool.and_eq_true_iff.mp hpair
    rw [escape, if_pos hpair, cost, characterCost_pair hu hv, if_pos rfl]
    exact (sized_pair hu hv).append ih
  | case4 u v us hpair ih =>
    have hunit := characterCost_unit u (some v) (by simpa using hpair)
    rw [escape, if_neg hpair, cost, hunit.1, if_neg (by decide)]
    exact hunit.2.append ih

/-- The JSON text of a string: its characters, and two quotes. -/
theorem sized_quote (text : Text) : Sized (quote text) (2 + cost text) := by
  have hquote : ∀ u : UInt16, u = 0x22 → Sized [u] 1 := by
    rintro u rfl
    change Sized _ [(0x22 : UInt16)].length
    exact sized_ascii (List.forall_mem_singleton.mpr (by decide))
  have hall := (hquote 0x22 rfl).append ((sized_escape text).append (hquote 0x22 rfl))
  have hsum : 2 + cost text = 1 + (cost text + 1) := by omega
  rw [hsum]
  exact hall

/-- A limit that is exceeded is exceeded by more. -/
theorem exceeds_mono {limit : Option ℤ} {m n : ℕ} (hmn : m ≤ n) (h : exceeds limit m = true) :
    exceeds limit n = true := by
  cases limit with
  | none => cases h
  | some l =>
    simp only [exceeds, Option.any_some, decide_eq_true_eq] at h ⊢
    omega

/-- The loop counts the cost of the characters, while it is within the limit. -/
theorem jsonStringBytesFrom_eq (limit : Option ℤ) (text : Text) {bytes : ℕ}
    (h : exceeds limit bytes = false) : jsonStringBytesFrom limit bytes text =
      if exceeds limit (bytes + cost text) then none else some (bytes + cost text) := by
  induction text using cost.induct generalizing bytes with
  | case1 =>
    rw [jsonStringBytesFrom, cost, Nat.add_zero, h]
    rfl
  | case2 u => rw [jsonStringBytesFrom, cost]
  | case3 u v us hwidth ih =>
    rw [jsonStringBytesFrom, cost]
    rw [if_pos hwidth, if_pos hwidth, ← Nat.add_assoc]
    split
    · rw [if_pos (exceeds_mono (Nat.le_add_right _ _) ‹_›)]
    · exact ih (Bool.not_eq_true _ ▸ ‹_›)
  | case4 u v us hwidth ih =>
    rw [jsonStringBytesFrom, cost]
    rw [if_neg hwidth, if_neg hwidth, ← Nat.add_assoc]
    split
    · rw [if_pos (exceeds_mono (Nat.le_add_right _ _) ‹_›)]
    · exact ih (Bool.not_eq_true _ ▸ ‹_›)

/-- The bytes of a string's JSON text, when they are within the limit. -/
theorem jsonStringBytesUpTo_eq (text : Text) (limit : Option ℤ) : jsonStringBytesUpTo text limit =
    if exceeds limit (2 + cost text) then none else some (2 + cost text) := by
  rw [jsonStringBytesUpTo]
  split
  · rw [if_pos (exceeds_mono (Nat.le_add_right _ _) ‹_›)]
  · exact jsonStringBytesFrom_eq limit text (Bool.not_eq_true _ ▸ ‹_›)

/-- The bytes of a string's JSON text. -/
theorem jsonStringBytes_eq (text : Text) : jsonStringBytes text = 2 + cost text := by
  rw [jsonStringBytes, jsonStringBytesUpTo_eq]
  rfl

/-- A string is charged with the size of its JSON text. -/
theorem size_quote (text : Text) : size (quote text) = jsonStringBytes text := by
  rw [(sized_quote text).size_eq, jsonStringBytes_eq]

/-- What is kept of a string starts as the string does. -/
theorem truncateFrom_cons (limit : ℤ) (bytes : ℕ) (u : UInt16) (us : Text) :
    truncateFrom limit bytes (u :: us) = [] ∨ ∃ kept, truncateFrom limit bytes (u :: us) = u :: kept := by
  cases us with
  | nil =>
    rw [truncateFrom]
    split
    · exact .inl rfl
    · exact .inr ⟨_, rfl⟩
  | cons v us =>
    rw [truncateFrom]
    split
    · exact .inl rfl
    · split
      · exact .inr ⟨_, rfl⟩
      · exact .inr ⟨_, rfl⟩

/-- A unit that starts no pair costs the same when it is the last. -/
theorem characterCost_last {u v : UInt16} (hwidth : (characterCost u (some v)).width ≠ 2) :
    (characterCost u none).cost = (characterCost u (some v)).cost := by
  have hpair : ¬ (isHigh u = true ∧ isLow v = true) := by
    rintro ⟨hu, hv⟩
    rw [characterCost_pair hu hv] at hwidth
    exact hwidth rfl
  have hnone := (characterCost_unit u none (by simp)).2
  have hsome := (characterCost_unit u (some v) (by simpa using hpair)).2
  exact hnone.size_eq.symm.trans hsome.size_eq

/-- What is kept of a string is within the limit. -/
theorem cost_truncateFrom {limit : ℤ} (text : Text) {bytes : ℕ} (h : (bytes : ℤ) ≤ limit) :
    ((bytes + cost (truncateFrom limit bytes text) : ℕ) : ℤ) ≤ limit := by
  induction text using cost.induct generalizing bytes with
  | case1 =>
    rw [truncateFrom, cost]
    simpa using h
  | case2 u =>
    rw [truncateFrom]
    split
    · rw [cost]
      simpa using h
    · rw [cost]
      omega
  | case3 u v us hwidth ih =>
    rw [truncateFrom]
    split
    · rw [cost]
      simpa using h
    · rw [cost, if_pos hwidth, ← Nat.add_assoc]
      exact ih (by omega)
  | case4 u v us hwidth ih =>
    rw [truncateFrom]
    split
    · rw [cost]
      simpa using h
    · have hwithin : ((bytes + (characterCost u (some v)).cost : ℕ) : ℤ) ≤ limit := by omega
      have hrest := ih hwithin
      rcases truncateFrom_cons limit (bytes + (characterCost u (some v)).cost) v us with hnil |
        ⟨kept, hkept⟩
      · rw [hnil, cost, characterCost_last hwidth]
        rw [hnil, cost] at hrest
        simpa using hrest
      · rw [hkept] at hrest
        rw [hkept, cost, if_neg hwidth, ← Nat.add_assoc]
        exact hrest

/-- What is kept of a string has a JSON text within the limit, unless nothing is kept. -/
theorem truncateJsonString_le {text : Text} {limit : ℤ}
    (h : truncateJsonString text limit ≠ []) :
    (jsonStringBytes (truncateJsonString text limit) : ℤ) ≤ limit := by
  rw [truncateJsonString] at h ⊢
  split
  · rw [if_pos ‹_›] at h
    exact absurd rfl h
  · rw [jsonStringBytes_eq]
    exact cost_truncateFrom text (by omega)

/-! ### Values -/

variable {ν : Type} [JsNumber ν]

mutual

/-- The commas in the JSON text of a value. -/
def commas : Json ν → ℕ
  | .arr items => items.length - 1 + commasItems items
  | .obj members => members.length - 1 + commasMembers members
  | _ => 0

/-- The commas in the items of an array. -/
def commasItems : List (Json ν) → ℕ
  | [] => 0
  | v :: items => commas v + commasItems items

/-- The commas in the values of an object's members. -/
def commasMembers : List (Text × Json ν) → ℕ
  | [] => 0
  | (_, v) :: members => commas v + commasMembers members

end

/-- The JSON text of a value has the bytes of its tokens, and its commas. -/
def Charged (v : Json ν) : Prop := Sized (stringify v) (wireBytes (tokens v) + commas v)

/-- The bytes of tokens add up. -/
theorem wireBytes_append (ts us : List (Json ν)) :
    wireBytes (ts ++ us) = wireBytes ts + wireBytes us := by
  rw [wireBytes, List.map_append, List.sum_append]
  rfl

/-- The bytes of one more token. -/
theorem wireBytes_cons (t : Json ν) (ts : List (Json ν)) :
    wireBytes (t :: ts) = tokenBytes t + wireBytes ts := by
  rw [wireBytes, List.map_cons, List.sum_cons]
  rfl

/-- The marker of an array is charged with its brackets. -/
theorem tokenBytes_arrayMarker (length : ℕ) : tokenBytes (arrayMarker length : Json ν) = 2 := by
  have hkind : member kindKey [(kindKey, (.str (ascii "array") : Json ν)),
      (lengthKey, .num (JsNumber.ofNat length))] = some (.str (ascii "array")) := rfl
  have hkeys : member keysKey [(kindKey, (.str (ascii "array") : Json ν)),
      (lengthKey, .num (JsNumber.ofNat length))] = none := rfl
  rw [arrayMarker, tokenBytes, hkind, hkeys]
  rfl

/-- The marker of an object is charged with its braces, and its keys and their colons. -/
theorem tokenBytes_objectMarker (keys : List Text) :
    tokenBytes (objectMarker keys : Json ν) =
      2 + (keys.map fun key => jsonStringBytes key + 1).sum := by
  have hkind : member kindKey [(kindKey, (.str (ascii "object") : Json ν)),
      (keysKey, .arr (keys.map .str))] = some (.str (ascii "object")) := rfl
  have hkeys : member keysKey [(kindKey, (.str (ascii "object") : Json ν)),
      (keysKey, .arr (keys.map .str))] = some (.arr (keys.map .str)) := rfl
  rw [objectMarker, tokenBytes, hkind, hkeys]
  simp only [if_true, List.map_map]
  rfl

/-- One ASCII unit. -/
theorem sized_one {u : UInt16} (h : u.toNat < 0x80) : Sized [u] 1 := by
  change Sized _ [u].length
  exact sized_ascii (List.forall_mem_singleton.mpr h)

/-- Text that is written with number units has one byte for each. -/
theorem isNumberUnit_lt {u : UInt16} (h : isNumberUnit u = true) : u.toNat < 0x80 := by
  have hdigit : (0x39 : UInt16).toNat = 0x39 := by decide
  simp only [isNumberUnit, isDigit, Bool.or_eq_true, Bool.and_eq_true, decide_eq_true_eq, beq_iff_eq,
    UInt16.le_iff_toNat_le, hdigit] at h
  rcases h with ((((h | rfl) | rfl) | rfl) | rfl) | rfl
  · omega
  all_goals decide

/-- A keyword or a number. -/
theorem charged_scalar {v : Json ν} (htokens : tokens v = [v]) (hcommas : commas v = 0)
    (hlength : tokenBytes v = (stringify v).length) (hascii : ∀ u ∈ stringify v, u.toNat < 0x80) :
    Charged v := by
  rw [Charged, htokens, hcommas, wireBytes_cons, hlength]
  exact sized_ascii hascii

/-- A number. -/
theorem charged_num {x : ν} (hfinite : JsNumber.isFinite x = true) : Charged (.num x) := by
  have hstringify : stringify (.num x) = JsNumber.write x := by
    rw [stringify, if_pos hfinite]
  obtain ⟨hall, -⟩ := isLiteral_cons (JsNumber.isLiteral_write x hfinite)
  apply charged_scalar
  · rw [tokens]
  · rw [commas]
    all_goals exact fun _ h => by cases h
  · rw [tokenBytes, hstringify]
  · rw [hstringify]
    exact fun u hu => isNumberUnit_lt (List.all_eq_true.mp hall u hu)

/-- The keywords. -/
theorem charged_keyword : Charged (.null : Json ν) ∧ ∀ b, Charged (.bool b : Json ν) := by
  refine ⟨?_, fun b => ?_⟩
  · apply charged_scalar
    · rw [tokens]
    · rw [commas]
      all_goals exact fun _ h => by cases h
    · rw [tokenBytes, stringify]
      decide
    · rw [stringify]
      exact List.all_iff_forall_prop.mp (by decide)
  · cases b with
    | true =>
      apply charged_scalar
      · rw [tokens]
      · rw [commas]
        all_goals exact fun _ h => by cases h
      · rw [tokenBytes, stringify]
        decide
      · rw [stringify]
        exact List.all_iff_forall_prop.mp (by decide)
    | false =>
      apply charged_scalar
      · rw [tokens]
      · rw [commas]
        all_goals exact fun _ h => by cases h
      · rw [tokenBytes, stringify]
        decide
      · rw [stringify]
        exact List.all_iff_forall_prop.mp (by decide)

/-- A string. -/
theorem charged_str (s : Text) : Charged (.str s : Json ν) := by
  have hcommas : commas (.str s : Json ν) = 0 := by
    rw [commas]
    all_goals exact fun _ h => by cases h
  have hbytes : wireBytes (tokens (.str s : Json ν)) = 2 + cost s := by
    rw [tokens, wireBytes_cons, tokenBytes, jsonStringBytes_eq]
    rfl
  rw [Charged, hcommas, hbytes, stringify]
  exact sized_quote s

/-- The items of an array, and the commas between them. -/
theorem sized_items {items : List (Json ν)} (h : ∀ v ∈ items, Charged v) :
    Sized (stringifyItems items)
      (wireBytes (tokensItems items) + commasItems items + (items.length - 1)) := by
  induction items with
  | nil =>
    rw [stringifyItems, tokensItems, commasItems]
    exact sized_nil
  | cons v items ih =>
    obtain ⟨hv, hitems⟩ := List.forall_mem_cons.mp h
    have hrest := ih hitems
    rw [tokensItems, commasItems, wireBytes_append]
    cases items with
    | nil =>
      rw [stringifyItems, tokensItems, commasItems]
      exact hv
    | cons w items =>
      have hcomma : Sized [0x2C] 1 := sized_one (by decide)
      have hall := Sized.append hv (hcomma.append hrest)
      have hsum : wireBytes (tokens v) + wireBytes (tokensItems (w :: items)) +
          (commas v + commasItems (w :: items)) + ((v :: w :: items).length - 1) =
          wireBytes (tokens v) + commas v + (1 + (wireBytes (tokensItems (w :: items)) +
            commasItems (w :: items) + ((w :: items).length - 1))) := by
        simp only [List.length_cons]
        omega
      rw [stringifyItems, hsum]
      exact hall

/-- The members of an object, with their keys and colons, and the commas between them. -/
theorem sized_members {members : List (Text × Json ν)} (h : ∀ m ∈ members, Charged m.2) :
    Sized (stringifyMembers members)
      (((members.map Prod.fst).map fun key => jsonStringBytes key + 1).sum +
        wireBytes (tokensMembers members) + commasMembers members + (members.length - 1)) := by
  induction members with
  | nil =>
    rw [stringifyMembers, tokensMembers, commasMembers]
    exact sized_nil
  | cons m members ih =>
    obtain ⟨key, v⟩ := m
    obtain ⟨hv, hmembers⟩ := List.forall_mem_cons.mp h
    have hrest := ih hmembers
    have hcolon : Sized [0x3A] 1 := sized_one (by decide)
    have hkey : Sized (quote key) (jsonStringBytes key) := by
      rw [jsonStringBytes_eq]
      exact sized_quote key
    have hfirst := hkey.append (hcolon.append hv)
    rw [tokensMembers, commasMembers, wireBytes_append, List.map_cons, List.map_cons, List.sum_cons]
    cases members with
    | nil =>
      have hsum : jsonStringBytes key + 1 + 0 + (wireBytes (tokens v) + 0) + (commas v + 0) + 0 =
          jsonStringBytes key + (1 + (wireBytes (tokens v) + commas v)) := by
        omega
      rw [stringifyMembers, tokensMembers, commasMembers]
      change Sized _ (jsonStringBytes key + 1 + 0 + (wireBytes (tokens v) + 0) + (commas v + 0) + 0)
      rw [hsum]
      exact hfirst
    | cons m' members =>
      have hcomma : Sized [0x2C] 1 := sized_one (by decide)
      have hall := hfirst.append (hcomma.append hrest)
      have htext : quote key ++ 0x3A :: (stringify v ++ 0x2C :: stringifyMembers (m' :: members)) =
          quote key ++ ([0x3A] ++ stringify v) ++ ([0x2C] ++ stringifyMembers (m' :: members)) := by
        simp
      rw [stringifyMembers, htext]
      intro rest
      rw [hall rest]
      simp only [List.length_cons]
      omega

/-- A value that is read back from its JSON text is charged with all of it but the commas. -/
theorem sized_value {v : Json ν} (h : Tidy v) : Charged v := by
  induction v using induct with
  | null => exact charged_keyword.1
  | bool b => exact charged_keyword.2 b
  | num x =>
    cases h with
    | num hfinite hzero => exact charged_num hfinite
  | str s => exact charged_str s
  | arr items ih =>
    cases h with
    | arr htidy =>
      have hitems := sized_items fun v hv => ih v hv (htidy v hv)
      have hopen : Sized [0x5B] 1 := sized_one (by decide)
      have hclose : Sized [0x5D] 1 := sized_one (by decide)
      have hall := hopen.append (hitems.append hclose)
      rw [Charged, stringify, tokens, commas, wireBytes_cons, tokenBytes_arrayMarker]
      intro rest
      rw [← List.singleton_append, hall rest]
      omega
  | obj members ih =>
    cases h with
    | obj horder htidy =>
      have hmembers := sized_members fun m hm => ih m hm (htidy m hm)
      have hopen : Sized [0x7B] 1 := sized_one (by decide)
      have hclose : Sized [0x7D] 1 := sized_one (by decide)
      have hall := hopen.append (hmembers.append hclose)
      rw [Charged, stringify, tokens, commas, wireBytes_cons, tokenBytes_objectMarker]
      intro rest
      rw [← List.singleton_append, hall rest]
      omega

/-- The size of a value's JSON text. -/
theorem size_stringify {v : Json ν} (h : Tidy v) :
    size (stringify v) = wireBytes (tokens v) + commas v := (sized_value h).size_eq

/-- The size of the JSON array of all lines. -/
theorem size_lines (logs : List Text) : size (stringify (.arr (logs.map .str) : Json ν)) =
    2 + (logs.map jsonStringBytes).sum + (logs.length - 1) := by
  have htidy : Tidy (.arr (logs.map .str) : Json ν) := by
    refine .arr fun v hv => ?_
    obtain ⟨s, -, rfl⟩ := List.mem_map.mp hv
    exact .str s
  have hitems : ∀ logs : List Text,
      wireBytes (tokensItems (logs.map .str : List (Json ν))) = (logs.map jsonStringBytes).sum ∧
        commasItems (logs.map .str : List (Json ν)) = 0 := by
    intro logs
    induction logs with
    | nil => exact ⟨rfl, rfl⟩
    | cons s logs ih =>
      refine ⟨?_, ?_⟩
      · rw [List.map_cons, tokensItems, tokens, wireBytes_append, ih.1]
        rfl
      · rw [List.map_cons, commasItems, ih.2]
        rfl
  rw [size_stringify htidy, tokens, commas, wireBytes_cons, tokenBytes_arrayMarker, (hitems logs).1,
    (hitems logs).2, List.length_map]
  omega

end RemoteWorkspace.Model.PtcOutput
