import Mathlib.Tactic.Common

/-!
# Text in UTF-16 code units

A string of code units may hold surrogates that are half of no pair. Writing it out in another
encoding puts a replacement character for each of them; a reader that is strict refuses the
string instead. On a string without such halves both give the same text.
-/

set_option autoImplicit false

namespace RemoteWorkspace.Computation.Utf16

/-- The first half of a surrogate pair. -/
def isHigh (u : UInt16) : Bool := 0xD800 ≤ u && u < 0xDC00

/-- The second half of a surrogate pair. -/
def isLow (u : UInt16) : Bool := 0xDC00 ≤ u && u < 0xE000

/-- The first halves by their numbers. -/
theorem isHigh_iff {u : UInt16} : isHigh u = true ↔ 0xD800 ≤ u.toNat ∧ u.toNat < 0xDC00 := by
  have hlow : (0xD800 : UInt16).toNat = 0xD800 := by decide
  have hupper : (0xDC00 : UInt16).toNat = 0xDC00 := by decide
  rw [isHigh, Bool.and_eq_true, decide_eq_true_eq, decide_eq_true_eq, UInt16.le_iff_toNat_le,
    UInt16.lt_iff_toNat_lt, hlow, hupper]

/-- The second halves by their numbers. -/
theorem isLow_iff {u : UInt16} : isLow u = true ↔ 0xDC00 ≤ u.toNat ∧ u.toNat < 0xE000 := by
  have hlow : (0xDC00 : UInt16).toNat = 0xDC00 := by decide
  have hupper : (0xE000 : UInt16).toNat = 0xE000 := by decide
  rw [isLow, Bool.and_eq_true, decide_eq_true_eq, decide_eq_true_eq, UInt16.le_iff_toNat_le,
    UInt16.lt_iff_toNat_lt, hlow, hupper]

/-- The character of a surrogate pair. -/
def combine (high low : UInt16) : Char :=
  Char.ofNat (0x10000 + (high.toNat - 0xD800) * 0x400 + (low.toNat - 0xDC00))

/-- A code unit that is half of no pair: a character, unless it is a surrogate. -/
def single (u : UInt16) : Char ⊕ UInt16 :=
  if isHigh u || isLow u then .inr u else .inl (Char.ofNat u.toNat)

/-- The characters of a string, and the surrogates that are half of no pair. -/
def read : List UInt16 → List (Char ⊕ UInt16)
  | [] => []
  | [u] => [single u]
  | u :: v :: us =>
    if isHigh u && isLow v then .inl (combine u v) :: read us else single u :: read (v :: us)

/-- The text that a string is written out as. -/
def decode (us : List UInt16) : List Char :=
  (read us).map (Sum.elim id fun _ => '\uFFFD')

/-- The text of a string that holds only whole characters. -/
def decodeStrict (us : List UInt16) : Option (List Char) := (read us).mapM Sum.getLeft?

/-- A list of whole characters is one of characters alone. -/
theorem mapM_getLeft_eq_some {α β : Type} {l : List (α ⊕ β)} {cs : List α} :
    l.mapM Sum.getLeft? = some cs ↔ l = cs.map .inl := by
  induction l generalizing cs with
  | nil => cases cs <;> simp
  | cons x l ih =>
    cases x with
    | inl c =>
      cases cs with
      | nil => simp [Option.bind_eq_some_iff]
      | cons d cs =>
        simp only [List.mapM_cons, Sum.getLeft?_inl, Option.bind_eq_bind, Option.bind_some,
          Option.bind_eq_some_iff, Option.pure_def, Option.some.injEq, List.cons.injEq,
          List.map_cons, Sum.inl.injEq, ih]
        constructor
        · rintro ⟨tail, htail, hc, rfl⟩
          exact ⟨hc, htail⟩
        · rintro ⟨hc, htail⟩
          exact ⟨cs, htail, hc, rfl⟩
    | inr u => cases cs <;> simp

/-- A string that holds only whole characters is written out as its text. -/
theorem decode_of_strict {us : List UInt16} {cs : List Char} (h : decodeStrict us = some cs) :
    decode us = cs := by
  rw [decode, mapM_getLeft_eq_some.mp h, List.map_map]
  simp

example : decode [0x61, 0xD83D, 0xDE00, 0xD83D] = ['a', Char.ofNat 0x1F600, '\uFFFD'] := by decide

/-! ### Writing characters -/

/-- The code units of a character: one, or a surrogate pair. -/
def encodeChar (c : Char) : List UInt16 :=
  if c.toNat < 0x10000 then [UInt16.ofNat c.toNat]
  else [UInt16.ofNat (0xD800 + (c.toNat - 0x10000) / 0x400),
    UInt16.ofNat (0xDC00 + (c.toNat - 0x10000) % 0x400)]

/-- The string of a text. -/
def encode (text : List Char) : List UInt16 := text.flatMap encodeChar

/-- Two texts after one another are written after one another. -/
theorem encode_append (text text' : List Char) :
    encode (text ++ text') = encode text ++ encode text' := List.flatMap_append

/-- A character is the number it was made from. -/
theorem toNat_ofNat {n : ℕ} (h : n < 0xD800 ∨ 0xDFFF < n ∧ n < 0x110000) :
    (Char.ofNat n).toNat = n := by
  rw [Char.ofNat, dif_pos h]
  rfl

/-- A code unit that is a character is what that character is written as. -/
theorem encodeChar_single {u : UInt16} {c : Char} (h : single u = .inl c) : encodeChar c = [u] := by
  unfold single at h
  by_cases hsurrogate : (isHigh u || isLow u) = true
  · rw [if_pos hsurrogate] at h
    cases h
  · rw [if_neg hsurrogate] at h
    obtain rfl := Sum.inl.inj h
    rw [Bool.or_eq_true, isHigh_iff, isLow_iff] at hsurrogate
    have hu := u.toNat_lt
    have hchar : (Char.ofNat u.toNat).toNat = u.toNat := toNat_ofNat (by omega)
    rw [encodeChar, hchar, if_pos (by omega), UInt16.ofNat_toNat]

/-- So is a surrogate pair. -/
theorem encodeChar_combine {u v : UInt16} (hu : isHigh u = true) (hv : isLow v = true) :
    encodeChar (combine u v) = [u, v] := by
  rw [isHigh_iff] at hu
  rw [isLow_iff] at hv
  have hchar : (combine u v).toNat =
      0x10000 + (u.toNat - 0xD800) * 0x400 + (v.toNat - 0xDC00) := toNat_ofNat (by omega)
  have hhigh : 0xD800 + ((combine u v).toNat - 0x10000) / 0x400 = u.toNat := by omega
  have hlow : 0xDC00 + ((combine u v).toNat - 0x10000) % 0x400 = v.toNat := by omega
  rw [encodeChar, if_neg (by omega), hhigh, hlow, UInt16.ofNat_toNat, UInt16.ofNat_toNat]

/-- A string that holds only whole characters is the string of its text. -/
theorem encode_of_strict {us : List UInt16} {cs : List Char} (h : decodeStrict us = some cs) :
    encode cs = us := by
  have hread := mapM_getLeft_eq_some.mp h
  clear h
  induction us using read.induct generalizing cs with
  | case1 =>
    cases cs with
    | nil => rfl
    | cons c cs => cases hread
  | case2 u =>
    rw [read] at hread
    cases cs with
    | nil => cases hread
    | cons c cs =>
      obtain ⟨hc, hcs⟩ := List.cons.inj hread
      obtain rfl := List.map_eq_nil_iff.mp hcs.symm
      rw [encode, List.flatMap_singleton, encodeChar_single hc]
  | case3 u v us hpair ih =>
    rw [read, if_pos hpair] at hread
    cases cs with
    | nil => cases hread
    | cons c cs =>
      obtain ⟨hc, hcs⟩ := List.cons.inj hread
      obtain rfl := Sum.inl.inj hc
      rw [Bool.and_eq_true] at hpair
      rw [encode, List.flatMap_cons, encodeChar_combine hpair.1 hpair.2]
      exact congrArg ([u, v] ++ ·) (ih hcs)
  | case4 u v us hpair ih =>
    rw [read, if_neg hpair] at hread
    cases cs with
    | nil => cases hread
    | cons c cs =>
      obtain ⟨hc, hcs⟩ := List.cons.inj hread
      rw [encode, List.flatMap_cons, encodeChar_single hc]
      exact congrArg ([u] ++ ·) (ih hcs)

/-- The code unit of an ASCII character is written for that character only. -/
theorem mem_encodeChar {u : UInt16} (hu : u.toNat < 0x80) {c : Char} (h : u ∈ encodeChar c) :
    c.toNat = u.toNat := by
  have hvalid : c.toNat < 0xD800 ∨ 0xDFFF < c.toNat ∧ c.toNat < 0x110000 := c.valid
  unfold encodeChar at h
  by_cases hsmall : c.toNat < 0x10000
  · rw [if_pos hsmall, List.mem_singleton] at h
    rw [h, UInt16.toNat_ofNat', Nat.mod_eq_of_lt (by omega)]
  · rw [if_neg hsmall, List.mem_cons, List.mem_singleton] at h
    cases h with
    | inl h =>
      rw [h, UInt16.toNat_ofNat'] at hu
      omega
    | inr h =>
      rw [h, UInt16.toNat_ofNat'] at hu
      omega

/-- A character that is written in front of a string is read in front of it. -/
theorem read_encodeChar (c : Char) (us : List UInt16) :
    read (encodeChar c ++ us) = .inl c :: read us := by
  have hvalid : c.toNat < 0xD800 ∨ 0xDFFF < c.toNat ∧ c.toNat < 0x110000 := c.valid
  unfold encodeChar
  by_cases hsmall : c.toNat < 0x10000
  · have hnat : (UInt16.ofNat c.toNat).toNat = c.toNat := by
      rw [UInt16.toNat_ofNat', Nat.mod_eq_of_lt hsmall]
    have hhigh : isHigh (UInt16.ofNat c.toNat) = false := by
      rw [Bool.eq_false_iff, ne_eq, isHigh_iff, hnat]
      omega
    have hlow : isLow (UInt16.ofNat c.toNat) = false := by
      rw [Bool.eq_false_iff, ne_eq, isLow_iff, hnat]
      omega
    have hsingle : single (UInt16.ofNat c.toNat) = .inl c := by
      rw [single, hhigh, hlow, hnat]
      exact congrArg Sum.inl (Char.ofNat_toNat c)
    rw [if_pos hsmall, List.singleton_append]
    cases us with
    | nil =>
      have hread : read [UInt16.ofNat c.toNat] = [single (UInt16.ofNat c.toNat)] := rfl
      rw [hread, hsingle, read]
    | cons v us => rw [read, hhigh, Bool.false_and, if_neg Bool.false_ne_true, hsingle]
  · have hhighNat : (UInt16.ofNat (0xD800 + (c.toNat - 0x10000) / 0x400)).toNat =
        0xD800 + (c.toNat - 0x10000) / 0x400 := by
      rw [UInt16.toNat_ofNat', Nat.mod_eq_of_lt (by omega)]
    have hlowNat : (UInt16.ofNat (0xDC00 + (c.toNat - 0x10000) % 0x400)).toNat =
        0xDC00 + (c.toNat - 0x10000) % 0x400 := by
      rw [UInt16.toNat_ofNat', Nat.mod_eq_of_lt (by omega)]
    have hhigh : isHigh (UInt16.ofNat (0xD800 + (c.toNat - 0x10000) / 0x400)) = true := by
      rw [isHigh_iff, hhighNat]
      omega
    have hlow : isLow (UInt16.ofNat (0xDC00 + (c.toNat - 0x10000) % 0x400)) = true := by
      rw [isLow_iff, hlowNat]
      omega
    have hsum : 0x10000 + (0xD800 + (c.toNat - 0x10000) / 0x400 - 0xD800) * 0x400 +
        (0xDC00 + (c.toNat - 0x10000) % 0x400 - 0xDC00) = c.toNat := by omega
    rw [if_neg hsmall, List.cons_append, List.singleton_append, read, hhigh, hlow, combine,
      hhighNat, hlowNat, hsum, Char.ofNat_toNat]
    rfl

/-- A text is read back from what is written for it. -/
theorem decodeStrict_encode (text : List Char) : decodeStrict (encode text) = some text := by
  refine mapM_getLeft_eq_some.mpr ?_
  induction text with
  | nil => rfl
  | cons c text ih => rw [encode, List.flatMap_cons, read_encodeChar, ← encode, ih, List.map_cons]

end RemoteWorkspace.Computation.Utf16
