import RemoteWorkspace.Computation.Json

/-!
# Writing and reading JSON

`stringify` and `parse` of ECMAScript on JSON values, without indentation and without a
replacer. Surrogates that are half of no pair are escaped when they are written. What is
written for a value with finite numbers and members in their order is read as that value.
-/

set_option autoImplicit false

namespace RemoteWorkspace.Computation.Json

open RemoteWorkspace.Computation.Utf16 (isHigh isLow)

variable {ν : Type}

/-! ### Strings -/

/-- A hexadecimal digit. -/
def hexDigit (n : ℕ) : UInt16 := if n < 10 then UInt16.ofNat (0x30 + n) else UInt16.ofNat (0x57 + n)

/-- The four hexadecimal digits of a code unit. -/
def hexDigits (u : UInt16) : Text :=
  [hexDigit (u.toNat / 0x1000), hexDigit (u.toNat / 0x100 % 0x10), hexDigit (u.toNat / 0x10 % 0x10),
    hexDigit (u.toNat % 0x10)]

/-- The letter behind the backslash, for the code units that have one. -/
def escapeLetter (u : UInt16) : Option UInt16 :=
  if u = 0x22 ∨ u = 0x5C then some u
  else if u = 0x08 then some 0x62
  else if u = 0x09 then some 0x74
  else if u = 0x0A then some 0x6E
  else if u = 0x0C then some 0x66
  else if u = 0x0D then some 0x72
  else none

/-- A code unit in a string: itself, or an escape. -/
def escapeUnit (u : UInt16) : Text :=
  match escapeLetter u with
  | some letter => [0x5C, letter]
  | none => if u < 0x20 ∨ isHigh u ∨ isLow u then 0x5C :: 0x75 :: hexDigits u else [u]

/-- The characters of a string between its quotes (`QuoteJSONString`). -/
def escape : Text → Text
  | [] => []
  | [u] => escapeUnit u
  | u :: v :: us =>
    if isHigh u && isLow v then u :: v :: escape us else escapeUnit u ++ escape (v :: us)

/-- A string with its quotes. -/
def quote (s : Text) : Text := 0x22 :: (escape s ++ [0x22])

/-! ### Writing -/

mutual

/-- `JSON.stringify`. -/
def stringify [JsNumber ν] : Json ν → Text
  | .null => ascii "null"
  | .bool true => ascii "true"
  | .bool false => ascii "false"
  | .num x => if JsNumber.isFinite x then JsNumber.write x else ascii "null"
  | .str s => quote s
  | .arr items => 0x5B :: (stringifyItems items ++ [0x5D])
  | .obj members => 0x7B :: (stringifyMembers members ++ [0x7D])

/-- Items with commas between them. -/
def stringifyItems [JsNumber ν] : List (Json ν) → Text
  | [] => []
  | [v] => stringify v
  | v :: w :: items => stringify v ++ 0x2C :: stringifyItems (w :: items)

/-- Members with commas between them. -/
def stringifyMembers [JsNumber ν] : List (Text × Json ν) → Text
  | [] => []
  | [(key, v)] => quote key ++ 0x3A :: stringify v
  | (key, v) :: m :: members =>
    quote key ++ 0x3A :: (stringify v ++ 0x2C :: stringifyMembers (m :: members))

end

/-! ### Reading -/

/-- What is left behind white space. -/
def skip (text : Text) : Text :=
  text.dropWhile fun u => u == 0x20 || u == 0x09 || u == 0x0A || u == 0x0D

/-- The value of a hexadecimal digit. -/
def hexValue (u : UInt16) : Option ℕ :=
  if 0x30 ≤ u ∧ u ≤ 0x39 then some (u.toNat - 0x30)
  else if 0x61 ≤ u ∧ u ≤ 0x66 then some (u.toNat - 0x57)
  else if 0x41 ≤ u ∧ u ≤ 0x46 then some (u.toNat - 0x37)
  else none

/-- The code unit that four hexadecimal digits are. -/
def hexUnit (a b c d : UInt16) : Option UInt16 := do
  let a ← hexValue a
  let b ← hexValue b
  let c ← hexValue c
  let d ← hexValue d
  return UInt16.ofNat (a * 0x1000 + b * 0x100 + c * 0x10 + d)

/-- The code unit that a letter behind a backslash stands for. -/
def unescapeLetter (letter : UInt16) : Option UInt16 :=
  if letter = 0x22 ∨ letter = 0x5C ∨ letter = 0x2F then some letter
  else if letter = 0x62 then some 0x08
  else if letter = 0x74 then some 0x09
  else if letter = 0x6E then some 0x0A
  else if letter = 0x66 then some 0x0C
  else if letter = 0x72 then some 0x0D
  else none

/-- One more code unit of a string that was read. -/
def push (u : UInt16) (read : Text × Text) : Text × Text := (u :: read.1, read.2)

/-- A string behind its opening quote, and what follows its closing one. -/
def readString : Text → Option (Text × Text)
  | [] => none
  | u :: us =>
    if u = 0x22 then some ([], us)
    else if u = 0x5C then
      match us with
      | [] => none
      | letter :: rest =>
        if letter = 0x75 then
          match rest with
          | a :: b :: c :: d :: rest =>
            (hexUnit a b c d).bind fun unit => (readString rest).map (push unit)
          | _ => none
        else (unescapeLetter letter).bind fun unit => (readString rest).map (push unit)
    else if u < 0x20 then none
    else (readString us).map (push u)

mutual

/-- A value, and what follows it. The first argument bounds the calls. -/
def readValue [JsNumber ν] : ℕ → Text → Option (Json ν × Text)
  | 0, _ => none
  | fuel + 1, text =>
    match skip text with
    | [] => none
    | u :: us =>
      if u = 0x22 then (readString us).map fun read => (.str read.1, read.2)
      else if u = 0x5B then
        if (skip us).head? = some 0x5D then some (.arr [], (skip us).tail)
        else (readItems fuel us).map fun read => (.arr read.1, read.2)
      else if u = 0x7B then
        if (skip us).head? = some 0x7D then some (.obj [], (skip us).tail)
        else (readMembers fuel us).map fun read => (.obj (defineAll [] read.1), read.2)
      else if isDigit u || u == 0x2D then
        let literal := (u :: us).takeWhile isNumberUnit
        if isLiteral literal then
          some (.num (JsNumber.read literal), (u :: us).dropWhile isNumberUnit)
        else none
      else if (ascii "null").isPrefixOf (u :: us) then some (.null, (u :: us).drop 4)
      else if (ascii "true").isPrefixOf (u :: us) then some (.bool true, (u :: us).drop 4)
      else if (ascii "false").isPrefixOf (u :: us) then some (.bool false, (u :: us).drop 5)
      else none

/-- The items of an array and its closing bracket. -/
def readItems [JsNumber ν] : ℕ → Text → Option (List (Json ν) × Text)
  | 0, _ => none
  | fuel + 1, text =>
    (readValue fuel text).bind fun first =>
      match skip first.2 with
      | [] => none
      | u :: us =>
        if u = 0x2C then (readItems fuel us).map fun read => (first.1 :: read.1, read.2)
        else if u = 0x5D then some ([first.1], us)
        else none

/-- The members of an object and its closing brace. -/
def readMembers [JsNumber ν] : ℕ → Text → Option (List (Text × Json ν) × Text)
  | 0, _ => none
  | fuel + 1, text =>
    match skip text with
    | [] => none
    | u :: us =>
      if u = 0x22 then
        (readString us).bind fun key =>
          match skip key.2 with
          | [] => none
          | colon :: rest =>
            if colon = 0x3A then
              (readValue fuel rest).bind fun value =>
                match skip value.2 with
                | [] => none
                | u :: us =>
                  if u = 0x2C then
                    (readMembers fuel us).map fun read => ((key.1, value.1) :: read.1, read.2)
                  else if u = 0x7D then some ([(key.1, value.1)], us)
                  else none
            else none
      else none

end

/-- `JSON.parse`; `none` where it throws. -/
def parse [JsNumber ν] (text : Text) : Option (Json ν) :=
  (readValue (2 * text.length + 2) text).bind fun read =>
    if skip read.2 = [] then some read.1 else none

/-! ### Strings are read back -/

/-- A hexadecimal digit has its value. -/
theorem hexValue_hexDigit : ∀ n, n < 0x10 → hexValue (hexDigit n) = some n := by decide

/-- The four digits of a code unit are read as it. -/
theorem hexUnit_hexDigits (u : UInt16) :
    hexUnit (hexDigit (u.toNat / 0x1000)) (hexDigit (u.toNat / 0x100 % 0x10))
      (hexDigit (u.toNat / 0x10 % 0x10)) (hexDigit (u.toNat % 0x10)) = some u := by
  have hlt : u.toNat < 0x10000 := u.toNat_lt
  have hvalue : u.toNat / 0x1000 * 0x1000 + u.toNat / 0x100 % 0x10 * 0x100 +
      u.toNat / 0x10 % 0x10 * 0x10 + u.toNat % 0x10 = u.toNat := by omega
  unfold hexUnit
  rw [hexValue_hexDigit _ (by omega), hexValue_hexDigit _ (by omega),
    hexValue_hexDigit _ (by omega), hexValue_hexDigit _ (by omega)]
  simp only [Option.bind_eq_bind, Option.bind_some, hvalue, UInt16.ofNat_toNat, Option.pure_def]

/-- A letter behind a backslash stands for the code unit it is written for, and is no `u`. -/
theorem unescapeLetter_escapeLetter {u letter : UInt16} (h : escapeLetter u = some letter) :
    unescapeLetter letter = some u ∧ letter ≠ 0x75 := by
  unfold escapeLetter at h
  split at h
  · rename_i hu
    obtain rfl := Option.some.inj h
    rcases hu with rfl | rfl <;> decide
  · split at h
    · rename_i hu
      obtain rfl := Option.some.inj h
      subst hu
      decide
    · split at h
      · rename_i hu
        obtain rfl := Option.some.inj h
        subst hu
        decide
      · split at h
        · rename_i hu
          obtain rfl := Option.some.inj h
          subst hu
          decide
        · split at h
          · rename_i hu
            obtain rfl := Option.some.inj h
            subst hu
            decide
          · split at h
            · rename_i hu
              obtain rfl := Option.some.inj h
              subst hu
              decide
            · cases h

/-- A code unit without a letter is no quote and no backslash. -/
theorem ne_of_escapeLetter {u : UInt16} (h : escapeLetter u = none) : u ≠ 0x22 ∧ u ≠ 0x5C := by
  unfold escapeLetter at h
  split at h
  · cases h
  · rename_i hu
    exact not_or.mp hu

/-- A closing quote ends the string. -/
theorem readString_quote (rest : Text) : readString (0x22 :: rest) = some ([], rest) := by
  rw [readString.eq_def]
  exact if_pos rfl

/-- A backslash and a letter. -/
theorem readString_letter {letter : UInt16} (h : letter ≠ 0x75) (rest : Text) :
    readString (0x5C :: letter :: rest) =
      (unescapeLetter letter).bind fun unit => (readString rest).map (push unit) := by
  rw [readString.eq_def]
  simp only [if_neg h, if_true, if_neg (show ¬ (0x5C : UInt16) = 0x22 by decide)]

/-- A backslash, a `u` and four digits. -/
theorem readString_digits (a b c d : UInt16) (rest : Text) :
    readString (0x5C :: 0x75 :: a :: b :: c :: d :: rest) =
      (hexUnit a b c d).bind fun unit => (readString rest).map (push unit) := by
  rw [readString.eq_def]
  simp only [if_true, if_neg (show ¬ (0x5C : UInt16) = 0x22 by decide)]

/-- A code unit that stands for itself is read as it is. -/
theorem readString_plain {u : UInt16} (hquote : u ≠ 0x22) (hback : u ≠ 0x5C) (hspace : ¬ u < 0x20)
    (rest : Text) : readString (u :: rest) = (readString rest).map (push u) := by
  rw [readString.eq_def]
  simp only [if_neg hquote, if_neg hback, if_neg hspace]

/-- An escaped code unit is read as it. -/
theorem readString_escapeUnit (u : UInt16) (rest : Text) :
    readString (escapeUnit u ++ rest) = (readString rest).map (push u) := by
  unfold escapeUnit
  cases hletter : escapeLetter u with
  | some letter =>
    obtain ⟨hunescape, hne⟩ := unescapeLetter_escapeLetter hletter
    simp only [List.cons_append, List.nil_append]
    rw [readString_letter hne, hunescape, Option.bind_some]
  | none =>
    obtain ⟨hquote, hback⟩ := ne_of_escapeLetter hletter
    simp only
    split
    · simp only [hexDigits, List.cons_append, List.nil_append]
      rw [readString_digits, hexUnit_hexDigits, Option.bind_some]
    · rename_i hplain
      rw [List.singleton_append, readString_plain hquote hback (not_or.mp hplain).1]

/-- A surrogate is no quote, no backslash and no control character. -/
theorem plain_of_surrogate {u : UInt16} (h : isHigh u = true ∨ isLow u = true) :
    u ≠ 0x22 ∧ u ≠ 0x5C ∧ ¬ u < 0x20 := by
  have hle : 0xD800 ≤ u.toNat := by
    rcases h with h | h
    · simp only [isHigh, Bool.and_eq_true, decide_eq_true_eq, UInt16.le_iff_toNat_le] at h
      exact h.1
    · simp only [isLow, Bool.and_eq_true, decide_eq_true_eq, UInt16.le_iff_toNat_le] at h
      have := h.1
      simp at this
      omega
  refine ⟨?_, ?_, ?_⟩
  · rintro rfl
    simp at hle
  · rintro rfl
    simp at hle
  · intro hlt
    have := UInt16.lt_iff_toNat_lt.mp hlt
    simp at this
    omega

/-- A string between quotes is read back. -/
theorem readString_escape (s rest : Text) :
    readString (escape s ++ 0x22 :: rest) = some (s, rest) := by
  induction s using escape.induct with
  | case1 => rw [escape, List.nil_append, readString_quote]
  | case2 u =>
    rw [escape, readString_escapeUnit, readString_quote]
    rfl
  | case3 u v us hpair ih =>
    rw [Bool.and_eq_true] at hpair
    obtain ⟨hquote, hback, hspace⟩ := plain_of_surrogate (.inl hpair.1)
    obtain ⟨hquote', hback', hspace'⟩ := plain_of_surrogate (.inr hpair.2)
    rw [escape, if_pos (by simp [hpair]), List.cons_append, List.cons_append,
      readString_plain hquote hback hspace, readString_plain hquote' hback' hspace', ih]
    rfl
  | case4 u v us hpair ih =>
    rw [escape, if_neg hpair, List.append_assoc, readString_escapeUnit, ih]
    rfl

/-! ### Values are read back -/

/-- What JSON keeps of a value is all of it: its numbers are finite and not the negative zero, and
its members are in the order of their enumeration. -/
inductive Tidy [JsNumber ν] : Json ν → Prop
  | null : Tidy .null
  | bool (b : Bool) : Tidy (.bool b)
  | num {x : ν} : JsNumber.isFinite x = true → JsNumber.isNegativeZero x = false → Tidy (.num x)
  | str (s : Text) : Tidy (.str s)
  | arr {items : List (Json ν)} : (∀ v ∈ items, Tidy v) → Tidy (.arr items)
  | obj {members : List (Text × Json ν)} : InOrder (members.map Prod.fst) →
    (∀ m ∈ members, Tidy m.2) → Tidy (.obj members)

/-- What may follow a number: nothing that would be part of it. -/
def Ends (rest : Text) : Prop := ∀ u ∈ rest.head?, isNumberUnit u = false

/-- A bracket, a brace, a comma. -/
theorem ends_cons {u : UInt16} (h : isNumberUnit u = false) (rest : Text) : Ends (u :: rest) := by
  intro v hv
  rw [List.head?_cons, Option.mem_some_iff] at hv
  rwa [← hv]

/-- Nothing is skipped before something that is no white space. -/
theorem skip_cons {u : UInt16} (h : 0x20 < u) (us : Text) : skip (u :: us) = u :: us := by
  have hne : ∀ v : UInt16, v ≤ 0x20 → u ≠ v := by
    rintro v hv rfl
    exact absurd (UInt16.lt_of_lt_of_le h hv) (UInt16.lt_irrefl _)
  unfold skip
  rw [List.dropWhile_cons_of_neg]
  simp [hne 0x20 (by decide), hne 0x09 (by decide), hne 0x0A (by decide), hne 0x0D (by decide)]

/-- A literal starts with a digit or a sign, and is a number in all its units. -/
theorem isLiteral_cons {text : Text} (h : isLiteral text = true) :
    text.all isNumberUnit = true ∧
      ∃ u us, text = u :: us ∧ (isDigit u || u == 0x2D) = true := by
  unfold isLiteral at h
  simp only [Bool.and_eq_true] at h
  obtain ⟨⟨⟨hwhole, -⟩, hall⟩, -⟩ := h
  refine ⟨hall, ?_⟩
  cases text with
  | nil => simp at hwhole
  | cons u us =>
    refine ⟨u, us, rfl, ?_⟩
    by_cases hsign : u = 0x2D
    · simp [hsign]
    · rw [if_neg (by simpa using hsign)] at hwhole
      cases hdigit : isDigit u with
      | true => rfl
      | false => simp [hdigit] at hwhole

/-- What a value that is a number in all its units starts with is no white space. -/
theorem lt_of_isNumberUnit {u : UInt16} (h : (isDigit u || u == 0x2D) = true) :
    0x20 < u ∧ u ≠ 0x22 ∧ u ≠ 0x5B ∧ u ≠ 0x7B ∧ u ≠ 0x5D := by
  rw [Bool.or_eq_true] at h
  rcases h with h | h
  · simp only [isDigit, Bool.and_eq_true, decide_eq_true_eq] at h
    refine ⟨UInt16.lt_of_lt_of_le (by decide) h.1, ?_, ?_, ?_, ?_⟩
    all_goals
      rintro rfl
      exact absurd h (by decide)
  · rw [beq_iff_eq] at h
    subst h
    decide

/-- A number that stops where a literal does is that literal. -/
theorem takeWhile_literal {text rest : Text} (h : text.all isNumberUnit = true) (hrest : Ends rest) :
    (text ++ rest).takeWhile isNumberUnit = text ∧ (text ++ rest).dropWhile isNumberUnit = rest := by
  have hall : ∀ u ∈ text, isNumberUnit u = true := List.all_eq_true.mp h
  rw [List.takeWhile_append_of_pos hall, List.dropWhile_append_of_pos hall]
  cases rest with
  | nil => simp
  | cons u us =>
    have hu : isNumberUnit u = false := hrest u rfl
    rw [List.takeWhile_cons_of_neg (by simp [hu]), List.dropWhile_cons_of_neg (by simp [hu])]
    simp

variable [JsNumber ν]

/-- What is written for a value starts with no white space and no closing bracket. -/
theorem stringify_cons (v : Json ν) (hv : Tidy v) :
    ∃ u us, stringify v = u :: us ∧ 0x20 < u ∧ u ≠ 0x5D := by
  cases hv with
  | null => exact ⟨_, _, rfl, by decide, by decide⟩
  | bool b =>
    cases b
    · exact ⟨_, _, rfl, by decide, by decide⟩
    · exact ⟨_, _, rfl, by decide, by decide⟩
  | num hfinite hzero =>
    obtain ⟨-, u, us, hcons, hu⟩ := isLiteral_cons (JsNumber.isLiteral_write _ hfinite)
    obtain ⟨hspace, -, -, -, hclose⟩ := lt_of_isNumberUnit hu
    rw [stringify, if_pos hfinite]
    exact ⟨u, us, hcons, hspace, hclose⟩
  | str s => exact ⟨_, _, rfl, by decide, by decide⟩
  | arr hitems => exact ⟨_, _, rfl, by decide, by decide⟩
  | obj horder hmembers => exact ⟨_, _, rfl, by decide, by decide⟩

/-- Nothing is skipped before a value. -/
theorem skip_stringify {v : Json ν} (hv : Tidy v) (rest : Text) :
    skip (stringify v ++ rest) = stringify v ++ rest := by
  obtain ⟨u, us, hcons, hspace, -⟩ := stringify_cons v hv
  rw [hcons, List.cons_append, skip_cons hspace]

/-- Reading a value gives it back. -/
def ReadBack (v : Json ν) : Prop :=
  ∀ fuel rest, Ends rest → 2 * (stringify v).length ≤ fuel →
    readValue fuel (stringify v ++ rest) = some (v, rest)

/-- A number is read back. -/
theorem readBack_num {x : ν} (hfinite : JsNumber.isFinite x = true)
    (hzero : JsNumber.isNegativeZero x = false) : ReadBack (.num x) := by
  intro fuel rest hrest hfuel
  have hliteral := JsNumber.isLiteral_write _ hfinite
  obtain ⟨hall, u, us, hcons, hu⟩ := isLiteral_cons hliteral
  obtain ⟨hspace, hquote, hbracket, hbrace, -⟩ := lt_of_isNumberUnit hu
  obtain ⟨htake, hdrop⟩ := takeWhile_literal hall hrest
  rw [stringify, if_pos hfinite] at hfuel ⊢
  obtain ⟨fuel, rfl⟩ : ∃ n, fuel = n + 1 := by
    rw [hcons, List.length_cons] at hfuel
    exact ⟨fuel - 1, by omega⟩
  have hskip : skip (JsNumber.write x ++ rest) = u :: (us ++ rest) := by
    rw [hcons, List.cons_append, skip_cons hspace]
  rw [hcons, List.cons_append] at htake hdrop
  rw [readValue.eq_def]
  simp only [hskip, if_neg hquote, if_neg hbracket, if_neg hbrace, hu, if_true, htake, hdrop]
  rw [← hcons, if_pos hliteral, JsNumber.read_write x hfinite hzero]

/-- Some fuel is left for a text that is not empty. -/
theorem exists_fuel {fuel n : ℕ} (h : n + 1 ≤ fuel) : ∃ m, fuel = m + 1 ∧ n ≤ m :=
  ⟨fuel - 1, by omega, by omega⟩

/-- The keywords are read back. -/
theorem readBack_keyword : ReadBack (.null : Json ν) ∧ ∀ b, ReadBack (.bool b : Json ν) := by
  refine ⟨fun fuel rest _ hfuel => ?_, fun b fuel rest _ hfuel => ?_⟩
  · rw [stringify] at hfuel
    obtain ⟨fuel, rfl, -⟩ := exists_fuel (n := 0) (le_trans (by decide) hfuel)
    rw [readValue.eq_def]
    simp only [skip_stringify Tidy.null]
    rw [stringify]
    rfl
  · have hlength : 1 ≤ (stringify (.bool b : Json ν)).length := by
      obtain ⟨u, us, hcons, -⟩ := stringify_cons (.bool b : Json ν) (.bool b)
      rw [hcons, List.length_cons]
      omega
    obtain ⟨fuel, rfl, -⟩ := exists_fuel (n := 0) (le_trans (by omega) hfuel)
    rw [readValue.eq_def]
    simp only [skip_stringify (Tidy.bool b)]
    cases b
    · rw [stringify]
      rfl
    · rw [stringify]
      rfl

/-- A string is read back. -/
theorem readBack_str (s : Text) : ReadBack (.str s : Json ν) := by
  intro fuel rest _ hfuel
  rw [stringify, quote] at hfuel ⊢
  rw [List.length_cons] at hfuel
  obtain ⟨fuel, rfl, -⟩ := exists_fuel (n := 0) (le_trans (by omega) hfuel)
  have hcons : 0x22 :: (escape s ++ [0x22]) ++ rest = 0x22 :: (escape s ++ 0x22 :: rest) := by simp
  rw [readValue.eq_def, hcons]
  simp only [skip_cons (show (0x20 : UInt16) < 0x22 by decide), if_true, readString_escape,
    Option.map_some]

/-- The items of an array are read back when each of them is. -/
theorem readItems_stringify {items : List (Json ν)} (hne : items ≠ [])
    (hback : ∀ v ∈ items, ReadBack v) {fuel : ℕ} {rest : Text}
    (hfuel : 2 * (stringifyItems items).length + 1 ≤ fuel) :
    readItems fuel (stringifyItems items ++ 0x5D :: rest) = some (items, rest) := by
  induction items generalizing fuel with
  | nil => exact absurd rfl hne
  | cons v items ih =>
    obtain ⟨hv, hitems⟩ := List.forall_mem_cons.mp hback
    obtain ⟨fuel, rfl, hfuel⟩ := exists_fuel hfuel
    cases items with
    | nil =>
      have hread := hv fuel (0x5D :: rest) (ends_cons (by decide) rest)
        (by rw [stringifyItems] at hfuel; omega)
      rw [stringifyItems, readItems.eq_def]
      simp only [hread, Option.bind_some, skip_cons (show (0x20 : UInt16) < 0x5D by decide),
        if_neg (show ¬ (0x5D : UInt16) = 0x2C by decide), if_true]
    | cons w items =>
      have hlength : (stringifyItems (v :: w :: items)).length =
          (stringify v).length + (stringifyItems (w :: items)).length + 1 := by
        rw [stringifyItems, List.length_append, List.length_cons, Nat.add_assoc]
      have hread := hv fuel (0x2C :: (stringifyItems (w :: items) ++ 0x5D :: rest))
        (ends_cons (by decide) _) (by omega)
      have hrest : readItems fuel (stringifyItems (w :: items) ++ 0x5D :: rest) =
          some (w :: items, rest) := ih (by simp) hitems (by omega)
      have hcons : stringifyItems (v :: w :: items) ++ 0x5D :: rest =
          stringify v ++ 0x2C :: (stringifyItems (w :: items) ++ 0x5D :: rest) := by
        rw [stringifyItems, List.append_assoc, List.cons_append]
      rw [hcons, readItems.eq_def]
      simp only [hread, Option.bind_some, skip_cons (show (0x20 : UInt16) < 0x2C by decide), if_true,
        hrest, Option.map_some]

/-- An array is read back when its items are. -/
theorem readBack_arr {items : List (Json ν)} (htidy : ∀ v ∈ items, Tidy v)
    (hback : ∀ v ∈ items, ReadBack v) : ReadBack (.arr items) := by
  intro fuel rest hrest hfuel
  have hcons : stringify (.arr items) ++ rest = 0x5B :: (stringifyItems items ++ 0x5D :: rest) := by
    rw [stringify]
    simp
  have hlength : (stringify (.arr items)).length = (stringifyItems items).length + 2 := by
    rw [stringify]
    simp
  obtain ⟨fuel, rfl, -⟩ := exists_fuel (n := 0) (le_trans (by omega) hfuel)
  rw [hcons, readValue.eq_def]
  simp only [skip_cons (show (0x20 : UInt16) < 0x5B by decide), if_true,
    if_neg (show ¬ (0x5B : UInt16) = 0x22 by decide)]
  cases items with
  | nil =>
    rw [stringifyItems, List.nil_append, skip_cons (by decide)]
    simp
  | cons v items =>
    have hread : readItems fuel (stringifyItems (v :: items) ++ 0x5D :: rest) =
        some (v :: items, rest) := readItems_stringify (by simp) hback (by omega)
    have hhead : (skip (stringifyItems (v :: items) ++ 0x5D :: rest)).head? ≠ some 0x5D := by
      obtain ⟨u, us, hu, hspace, hclose⟩ := stringify_cons v (htidy v List.mem_cons_self)
      have hfirst : ∃ tail, stringifyItems (v :: items) ++ 0x5D :: rest = u :: tail := by
        cases items with
        | nil => exact ⟨_, by rw [stringifyItems, hu, List.cons_append]⟩
        | cons w items => exact ⟨_, by rw [stringifyItems, hu, List.cons_append, List.cons_append]⟩
      obtain ⟨tail, htail⟩ := hfirst
      rw [htail, skip_cons hspace, List.head?_cons]
      exact fun h => hclose (Option.some.inj h)
    rw [if_neg hhead, hread]
    rfl

/-- The members of an object are read back when each value is. -/
theorem readMembers_stringify {members : List (Text × Json ν)} (hne : members ≠ [])
    (hback : ∀ m ∈ members, ReadBack m.2) {fuel : ℕ} {rest : Text}
    (hfuel : 2 * (stringifyMembers members).length + 1 ≤ fuel) :
    readMembers fuel (stringifyMembers members ++ 0x7D :: rest) = some (members, rest) := by
  induction members generalizing fuel with
  | nil => exact absurd rfl hne
  | cons m members ih =>
    obtain ⟨hm, hmembers⟩ := List.forall_mem_cons.mp hback
    obtain ⟨fuel, rfl, hfuel⟩ := exists_fuel hfuel
    obtain ⟨key, v⟩ := m
    have hm : ReadBack v := hm
    have hquote : ∀ tail : Text, quote key ++ tail = 0x22 :: (escape key ++ 0x22 :: tail) := by
      intro tail
      simp [quote]
    have hcolon : ∀ tail, skip (0x3A :: tail) = 0x3A :: tail := skip_cons (by decide)
    cases members with
    | nil =>
      have hlength : (stringifyMembers [(key, v)]).length =
          (quote key).length + (stringify v).length + 1 := by
        rw [stringifyMembers, List.length_append, List.length_cons, Nat.add_assoc]
      have hread := hm fuel (0x7D :: rest) (ends_cons (by decide) rest) (by omega)
      have hcons : stringifyMembers [(key, v)] ++ 0x7D :: rest =
          0x22 :: (escape key ++ 0x22 :: 0x3A :: (stringify v ++ 0x7D :: rest)) := by
        rw [stringifyMembers, List.append_assoc, hquote, List.cons_append]
      rw [hcons, readMembers.eq_def]
      simp only [skip_cons (show (0x20 : UInt16) < 0x22 by decide), if_true, readString_escape,
        Option.bind_some, hcolon, hread, skip_cons (show (0x20 : UInt16) < 0x7D by decide),
        if_neg (show ¬ (0x7D : UInt16) = 0x2C by decide)]
    | cons m' members =>
      have hlength : (stringifyMembers ((key, v) :: m' :: members)).length =
          (quote key).length + (stringify v).length + (stringifyMembers (m' :: members)).length +
            2 := by
        rw [stringifyMembers, List.length_append, List.length_cons, List.length_append,
          List.length_cons]
        omega
      have hread := hm fuel (0x2C :: (stringifyMembers (m' :: members) ++ 0x7D :: rest))
        (ends_cons (by decide) _) (by omega)
      have hrest : readMembers fuel (stringifyMembers (m' :: members) ++ 0x7D :: rest) =
          some (m' :: members, rest) := ih (by simp) hmembers (by omega)
      have hcons : stringifyMembers ((key, v) :: m' :: members) ++ 0x7D :: rest =
          0x22 :: (escape key ++ 0x22 :: 0x3A ::
            (stringify v ++ 0x2C :: (stringifyMembers (m' :: members) ++ 0x7D :: rest))) := by
        rw [stringifyMembers, List.append_assoc, hquote, List.cons_append, List.append_assoc,
          List.cons_append]
      rw [hcons, readMembers.eq_def]
      simp only [skip_cons (show (0x20 : UInt16) < 0x22 by decide), if_true, readString_escape,
        Option.bind_some, hcolon, hread, skip_cons (show (0x20 : UInt16) < 0x2C by decide), hrest,
        Option.map_some]

/-- An object whose members are in order is read back when their values are. -/
theorem readBack_obj {members : List (Text × Json ν)} (horder : InOrder (members.map Prod.fst))
    (hback : ∀ m ∈ members, ReadBack m.2) : ReadBack (.obj members) := by
  intro fuel rest hrest hfuel
  have hcons : stringify (.obj members) ++ rest =
      0x7B :: (stringifyMembers members ++ 0x7D :: rest) := by
    rw [stringify]
    simp
  have hlength : (stringify (.obj members)).length = (stringifyMembers members).length + 2 := by
    rw [stringify]
    simp
  obtain ⟨fuel, rfl, -⟩ := exists_fuel (n := 0) (le_trans (by omega) hfuel)
  rw [hcons, readValue.eq_def]
  simp only [skip_cons (show (0x20 : UInt16) < 0x7B by decide), if_true,
    if_neg (show ¬ (0x7B : UInt16) = 0x22 by decide),
    if_neg (show ¬ (0x7B : UInt16) = 0x5B by decide)]
  cases members with
  | nil =>
    rw [stringifyMembers, List.nil_append, skip_cons (by decide)]
    simp
  | cons m members =>
    have hread : readMembers fuel (stringifyMembers (m :: members) ++ 0x7D :: rest) =
        some (m :: members, rest) := readMembers_stringify (by simp) hback (by omega)
    have hhead : (skip (stringifyMembers (m :: members) ++ 0x7D :: rest)).head? ≠ some 0x7D := by
      have hfirst : ∃ tail, stringifyMembers (m :: members) ++ 0x7D :: rest = 0x22 :: tail := by
        obtain ⟨key, v⟩ := m
        cases members with
        | nil => exact ⟨_, by rw [stringifyMembers, quote, List.cons_append, List.cons_append]⟩
        | cons w members =>
          exact ⟨_, by rw [stringifyMembers, quote, List.cons_append, List.cons_append]⟩
      obtain ⟨tail, htail⟩ := hfirst
      rw [htail, skip_cons (by decide), List.head?_cons]
      decide
    rw [if_neg hhead, hread, Option.map_some, defineAll_of_inOrder [] _ horder, List.nil_append]

/-- Every tidy value is read back. -/
theorem readBack_of_tidy (v : Json ν) : Tidy v → ReadBack v := by
  induction v using induct with
  | null => exact fun _ => readBack_keyword.1
  | bool b => exact fun _ => readBack_keyword.2 b
  | num x =>
    rintro ⟨⟩
    rename_i hfinite hzero
    exact readBack_num hfinite hzero
  | str s => exact fun _ => readBack_str s
  | arr items ih =>
    rintro ⟨⟩
    rename_i hitems
    exact readBack_arr hitems fun v hv => ih v hv (hitems v hv)
  | obj members ih =>
    rintro ⟨⟩
    rename_i horder hmembers
    exact readBack_obj horder fun m hm => ih m hm (hmembers m hm)

/-- What is written for a tidy value is read as it. -/
theorem parse_stringify {v : Json ν} (hv : Tidy v) : parse (stringify v) = some v := by
  have hread := readBack_of_tidy v hv (2 * (stringify v).length + 2) [] nofun (by omega)
  rw [List.append_nil] at hread
  rw [parse, hread, Option.bind_some]
  exact if_pos rfl

end RemoteWorkspace.Computation.Json
