import Mathlib.Data.List.Basic
import Mathlib.Data.List.TakeWhile
import Mathlib.Tactic.Common

/-!
# Base64

Bytes as text in the standard alphabet with padding, or in the URL-safe one without. Decoding
is the lenient one, for both: it stops at the first `=`, skips what is no character of the
alphabet, and takes `-` and `_` for `+` and `/`.
-/

set_option autoImplicit false

namespace RemoteWorkspace.Computation.Base64

/-- The character that stands for six bits. -/
def char (n : ℕ) : Char :=
  if n < 26 then Char.ofNat ('A'.toNat + n)
  else if n < 52 then Char.ofNat ('a'.toNat + (n - 26))
  else if n < 62 then Char.ofNat ('0'.toNat + (n - 52))
  else if n = 62 then '+' else '/'

/-- The six bits a character stands for. -/
def value (c : Char) : Option ℕ :=
  if 'A' ≤ c ∧ c ≤ 'Z' then some (c.toNat - 'A'.toNat)
  else if 'a' ≤ c ∧ c ≤ 'z' then some (c.toNat - 'a'.toNat + 26)
  else if '0' ≤ c ∧ c ≤ '9' then some (c.toNat - '0'.toNat + 52)
  else if c = '+' ∨ c = '-' then some 62
  else if c = '/' ∨ c = '_' then some 63
  else none

/-- Three bytes become four characters; one or two left over are padded. -/
def encode : List UInt8 → List Char
  | [] => []
  | [a] => [char (a.toNat / 4), char (a.toNat % 4 * 16), '=', '=']
  | [a, b] =>
    [char (a.toNat / 4), char (a.toNat % 4 * 16 + b.toNat / 16), char (b.toNat % 16 * 4), '=']
  | a :: b :: c :: rest =>
    char (a.toNat / 4) :: char (a.toNat % 4 * 16 + b.toNat / 16) ::
      char (b.toNat % 16 * 4 + c.toNat / 64) :: char (c.toNat % 64) :: encode rest

/-- Four times six bits become three bytes; bits that fill no byte are dropped. -/
def pack : List ℕ → List UInt8
  | p :: q :: r :: s :: rest =>
    UInt8.ofNat (p * 4 + q / 16) :: UInt8.ofNat (q % 16 * 16 + r / 4) ::
      UInt8.ofNat (r % 4 * 64 + s) :: pack rest
  | [p, q, r] => [UInt8.ofNat (p * 4 + q / 16), UInt8.ofNat (q % 16 * 16 + r / 4)]
  | [p, q] => [UInt8.ofNat (p * 4 + q / 16)]
  | _ => []

/-- The bytes of a text. -/
def decode (text : List Char) : List UInt8 :=
  pack ((text.takeWhile (· ≠ '=')).filterMap value)

/-- A character of the alphabet gives its six bits back, and is no padding. -/
theorem value_char {n : ℕ} (h : n < 64) : value (char n) = some n ∧ char n ≠ '=' := by
  have hall : ∀ k : Fin 64, value (char k) = some k.val ∧ char k ≠ '=' := by decide +kernel
  exact hall ⟨n, h⟩

/-- What a character of the alphabet adds to the decoded bits. -/
theorem filterMap_char_cons {n : ℕ} (h : n < 64) (text : List Char) :
    ((char n :: text).takeWhile (· ≠ '=')).filterMap value =
      n :: ((text.takeWhile (· ≠ '=')).filterMap value) := by
  obtain ⟨hvalue, hne⟩ := value_char h
  rw [List.takeWhile_cons_of_pos (by simpa using hne), List.filterMap_cons_some hvalue]

/-- Padding ends the text. -/
theorem filterMap_padding (text : List Char) :
    (('=' :: text).takeWhile (· ≠ '=')).filterMap value = [] := by simp

/-- A byte from its upper and lower bits. -/
theorem ofNat_eq {b : UInt8} {n : ℕ} (h : n = b.toNat) : UInt8.ofNat n = b := by
  rw [h, UInt8.ofNat_toNat]

/-- Bytes that were written as text are read back. -/
theorem decode_encode (bytes : List UInt8) : decode (encode bytes) = bytes := by
  induction bytes using encode.induct with
  | case1 => rfl
  | case2 a =>
    have ha := a.toNat_lt
    unfold decode encode
    rw [filterMap_char_cons (by omega), filterMap_char_cons (by omega), filterMap_padding]
    simp only [pack]
    rw [ofNat_eq (b := a) (by omega)]
  | case3 a b =>
    have ha := a.toNat_lt
    have hb := b.toNat_lt
    unfold decode encode
    rw [filterMap_char_cons (by omega), filterMap_char_cons (by omega),
      filterMap_char_cons (by omega), filterMap_padding]
    simp only [pack]
    rw [ofNat_eq (b := a) (by omega), ofNat_eq (b := b) (by omega)]
  | case4 a b c rest ih =>
    have ha := a.toNat_lt
    have hb := b.toNat_lt
    have hc := c.toNat_lt
    unfold decode at ih ⊢
    rw [encode, filterMap_char_cons (by omega), filterMap_char_cons (by omega),
      filterMap_char_cons (by omega), filterMap_char_cons (by omega)]
    simp only [pack, ih]
    rw [ofNat_eq (b := a) (by omega), ofNat_eq (b := b) (by omega), ofNat_eq (b := c) (by omega)]

/-! ### The URL-safe alphabet -/

/-- A character of the URL-safe alphabet. -/
def urlSafe (c : Char) : Char :=
  if c = '+' then '-' else if c = '/' then '_' else c

/-- Bytes in the URL-safe alphabet, without padding. -/
def encodeUrl (bytes : List UInt8) : List Char :=
  ((encode bytes).filter fun c => decide (c ≠ '=')).map urlSafe

/-- Both alphabets stand for the same bits. -/
theorem value_urlSafe (c : Char) : value (urlSafe c) = value c := by
  unfold urlSafe
  split_ifs with hplus hslash
  · rw [hplus]
    decide
  · rw [hslash]
    decide
  · rfl

/-- A text is characters of the alphabet and padding. -/
theorem mem_encode {bytes : List UInt8} {c : Char} (h : c ∈ encode bytes) :
    c = '=' ∨ ∃ n < 64, c = char n := by
  induction bytes using encode.induct with
  | case1 => cases h
  | case2 a =>
    have ha := a.toNat_lt
    simp only [encode, List.mem_cons, List.not_mem_nil, or_false] at h
    rcases h with rfl | rfl | rfl | rfl
    · exact .inr ⟨_, by omega, rfl⟩
    · exact .inr ⟨_, by omega, rfl⟩
    · exact .inl rfl
    · exact .inl rfl
  | case3 a b =>
    have ha := a.toNat_lt
    have hb := b.toNat_lt
    simp only [encode, List.mem_cons, List.not_mem_nil, or_false] at h
    rcases h with rfl | rfl | rfl | rfl
    · exact .inr ⟨_, by omega, rfl⟩
    · exact .inr ⟨_, by omega, rfl⟩
    · exact .inr ⟨_, by omega, rfl⟩
    · exact .inl rfl
  | case4 a b c' rest ih =>
    have ha := a.toNat_lt
    have hb := b.toNat_lt
    have hc := c'.toNat_lt
    simp only [encode, List.mem_cons] at h
    rcases h with rfl | rfl | rfl | rfl | h
    · exact .inr ⟨_, by omega, rfl⟩
    · exact .inr ⟨_, by omega, rfl⟩
    · exact .inr ⟨_, by omega, rfl⟩
    · exact .inr ⟨_, by omega, rfl⟩
    · exact ih h

/-- A URL-safe text has no padding and no colon in it. -/
theorem mem_encodeUrl {bytes : List UInt8} {c : Char} (h : c ∈ encodeUrl bytes) :
    c ≠ '=' ∧ c ≠ ':' := by
  have hall : ∀ k : Fin 64, urlSafe (char k) ≠ '=' ∧ urlSafe (char k) ≠ ':' := by decide +kernel
  obtain ⟨d, hd, rfl⟩ := List.mem_map.mp h
  obtain ⟨hmem, hne⟩ := List.mem_filter.mp hd
  rcases mem_encode hmem with rfl | ⟨n, hn, rfl⟩
  · exact absurd rfl (of_decide_eq_true hne)
  · exact hall ⟨n, hn⟩

/-- Padding stands at the end of a text, where it holds no bits. -/
theorem filterMap_encode (bytes : List UInt8) : (encode bytes).filterMap value =
    ((encode bytes).takeWhile (· ≠ '=')).filterMap value := by
  have hpad : value '=' = none := by decide
  induction bytes using encode.induct with
  | case1 => rfl
  | case2 a =>
    have ha := a.toNat_lt
    unfold encode
    rw [filterMap_char_cons (by omega), filterMap_char_cons (by omega), filterMap_padding,
      List.filterMap_cons_some (value_char (by omega)).1,
      List.filterMap_cons_some (value_char (by omega)).1]
    simp [hpad]
  | case3 a b =>
    have ha := a.toNat_lt
    have hb := b.toNat_lt
    unfold encode
    rw [filterMap_char_cons (by omega), filterMap_char_cons (by omega),
      filterMap_char_cons (by omega), filterMap_padding,
      List.filterMap_cons_some (value_char (by omega)).1,
      List.filterMap_cons_some (value_char (by omega)).1,
      List.filterMap_cons_some (value_char (by omega)).1]
    simp [hpad]
  | case4 a b c rest ih =>
    have ha := a.toNat_lt
    have hb := b.toNat_lt
    have hc := c.toNat_lt
    rw [encode, filterMap_char_cons (by omega), filterMap_char_cons (by omega),
      filterMap_char_cons (by omega), filterMap_char_cons (by omega),
      List.filterMap_cons_some (value_char (by omega)).1,
      List.filterMap_cons_some (value_char (by omega)).1,
      List.filterMap_cons_some (value_char (by omega)).1,
      List.filterMap_cons_some (value_char (by omega)).1, ih]

/-- Bytes that were written as URL-safe text are read back. -/
theorem decode_encodeUrl (bytes : List UInt8) : decode (encodeUrl bytes) = bytes := by
  have hwhole : (encodeUrl bytes).takeWhile (· ≠ '=') = encodeUrl bytes :=
    List.takeWhile_eq_self_iff.mpr fun c hc => decide_eq_true (mem_encodeUrl hc).1
  have hvalues : (encodeUrl bytes).filterMap value = (encode bytes).filterMap value := by
    have hpad : value '=' = none := by decide
    unfold encodeUrl
    rw [List.filterMap_map, List.filterMap_filter]
    refine List.filterMap_congr fun c _ => ?_
    by_cases hc' : c = '='
    · simp [hc', hpad]
    · simp [hc', value_urlSafe]
  have hdecode := decode_encode bytes
  unfold decode at hdecode ⊢
  rw [hwhole, hvalues, filterMap_encode]
  exact hdecode

end RemoteWorkspace.Computation.Base64
