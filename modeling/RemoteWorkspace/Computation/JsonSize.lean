import RemoteWorkspace.Computation.JsonText
import RemoteWorkspace.Computation.Utf8

/-!
# The size of JSON text

How many bytes a text takes in UTF-8, and what each part of a JSON text adds to that. A part adds
the same wherever it stands when it is `Sized`: it holds its surrogates in pairs.
-/

set_option autoImplicit false

namespace RemoteWorkspace.Computation.Json

open RemoteWorkspace.Computation.Utf16

/-- The bytes of a text in UTF-8. -/
def size (text : Text) : ℕ := (Utf8.encode (Utf16.decode text)).length

/-- A text that adds this many bytes to any text that follows. -/
def Sized (text : Text) (n : ℕ) : Prop := ∀ rest, size (text ++ rest) = n + size rest

/-- A text alone. -/
theorem Sized.size_eq {text : Text} {n : ℕ} (h : Sized text n) : size text = n := by
  have hnil := h []
  rw [List.append_nil] at hnil
  exact hnil

/-- Nothing. -/
theorem sized_nil : Sized [] 0 := fun _ => (Nat.zero_add _).symm

/-- One text behind another. -/
theorem Sized.append {a b : Text} {m n : ℕ} (ha : Sized a m) (hb : Sized b n) :
    Sized (a ++ b) (m + n) := by
  intro rest
  rw [List.append_assoc, ha, hb, Nat.add_assoc]

/-- The bytes of a character by its number. -/
theorem length_encodeChar {n : ℕ} (h : n < 0xD800 ∨ 0xDFFF < n ∧ n < 0x110000) :
    (String.utf8EncodeChar (Char.ofNat n)).length =
      if n < 0x80 then 1 else if n < 0x800 then 2 else if n < 0x10000 then 3 else 4 := by
  have hnat : (Char.ofNat n).val.toNat = n := by
    rw [Char.ofNat, dif_pos h]
    rfl
  unfold String.utf8EncodeChar
  rw [hnat]
  simp only
  split_ifs <;> first | rfl | omega

/-- A character beyond the units has four bytes. -/
theorem length_encode_pair {n : ℕ} (hle : 0x10000 ≤ n) (hlt : n < 0x110000) :
    (String.utf8EncodeChar (Char.ofNat n)).length = 4 := by
  have hbeyond : 0xDFFF < n := by omega
  rw [length_encodeChar (.inr ⟨hbeyond, hlt⟩), if_neg (by omega), if_neg (by omega),
    if_neg (by omega)]

/-- The number of a pair. -/
theorem combine_number {h l : ℕ} (hh : 0xD800 ≤ h ∧ h < 0xDC00) (hl : 0xDC00 ≤ l ∧ l < 0xE000) :
    0x10000 ≤ 0x10000 + (h - 0xD800) * 0x400 + (l - 0xDC00) ∧
      0x10000 + (h - 0xD800) * 0x400 + (l - 0xDC00) < 0x110000 := by
  omega

/-- A text that starts with a character. -/
theorem size_of_read {text rest : Text} {c : Char}
    (h : Utf16.read text = .inl c :: Utf16.read rest) :
    size text = (String.utf8EncodeChar c).length + size rest := by
  rw [size, Utf16.decode, h, List.map_cons, Utf8.encode_cons, List.length_append, size,
    Utf16.decode]
  rfl

/-- A pair of surrogates is one character of four bytes. -/
theorem sized_pair {u v : UInt16} (hu : isHigh u = true) (hv : isLow v = true) :
    Sized [u, v] 4 := by
  intro rest
  have hread : Utf16.read ([u, v] ++ rest) = .inl (combine u v) :: Utf16.read rest := by
    simp only [List.cons_append, List.nil_append, Utf16.read, hu, hv, Bool.and_self, if_true]
  obtain ⟨hle, hlt⟩ := combine_number (isHigh_iff.mp hu) (isLow_iff.mp hv)
  have hlength : (String.utf8EncodeChar (combine u v)).length = 4 := length_encode_pair hle hlt
  rw [size_of_read hread, hlength]

/-- A unit that is no surrogate is one character. -/
theorem sized_unit {u : UInt16} (hhigh : isHigh u = false) (hlow : isLow u = false) :
    Sized [u] (if u.toNat < 0x80 then 1 else if u.toNat < 0x800 then 2 else 3) := by
  intro rest
  have hread : Utf16.read ([u] ++ rest) = .inl (Char.ofNat u.toNat) :: Utf16.read rest := by
    cases rest with
    | nil => simp [Utf16.read, single, hhigh, hlow]
    | cons v rest => simp [Utf16.read, single, hhigh, hlow]
  have hlt : u.toNat < 0x10000 := u.toNat_lt
  have hhigh' := mt isHigh_iff.mpr (Bool.not_eq_true _ ▸ hhigh)
  have hlow' := mt isLow_iff.mpr (Bool.not_eq_true _ ▸ hlow)
  have hlength := length_encodeChar (n := u.toNat) (by omega)
  rw [size_of_read hread, hlength, if_pos hlt]

/-- Units below the surrogates are none. -/
theorem not_surrogate {u : UInt16} (h : u.toNat < 0xD800) : isHigh u = false ∧ isLow u = false := by
  rw [← Bool.not_eq_true, ← Bool.not_eq_true, isHigh_iff, isLow_iff]
  omega

/-- ASCII text has one byte for each unit. -/
theorem sized_ascii {text : Text} (h : ∀ u ∈ text, u.toNat < 0x80) : Sized text text.length := by
  induction text with
  | nil => exact sized_nil
  | cons u text ih =>
    obtain ⟨hu, htext⟩ := List.forall_mem_cons.mp h
    obtain ⟨hhigh, hlow⟩ := not_surrogate (Nat.lt_trans hu (by decide))
    have hunit := sized_unit hhigh hlow
    rw [if_pos hu] at hunit
    have hall := hunit.append (ih htext)
    rw [List.length_cons, Nat.add_comm]
    exact hall

end RemoteWorkspace.Computation.Json
