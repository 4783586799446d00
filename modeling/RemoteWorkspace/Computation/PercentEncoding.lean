import RemoteWorkspace.Computation.Utf16
import RemoteWorkspace.Computation.Utf8

/-!
# Percent encoding

A string is written with some of its characters standing for themselves and the bytes of all
others escaped, and is read back. What was written is read as it was, and no part at the end of
it is read as an ASCII character that was not written, except as a digit of an escape.
-/

set_option autoImplicit false

namespace RemoteWorkspace.Computation.PercentEncoding

/-- A code unit that stands for itself, or an escaped byte. -/
abbrev Piece := UInt16 ⊕ UInt8

/-- `%`. -/
def percent : UInt16 := 0x25

/-- An upper case hexadecimal digit. -/
def digit (n : ℕ) : UInt16 := UInt16.ofNat (if n < 10 then 0x30 + n else 0x41 + (n - 10))

/-- The number of a hexadecimal digit in either case. -/
def digitValue (u : UInt16) : Option ℕ :=
  if 0x30 ≤ u ∧ u ≤ 0x39 then some (u.toNat - 0x30)
  else if 0x41 ≤ u ∧ u ≤ 0x46 then some (u.toNat - 0x41 + 10)
  else if 0x61 ≤ u ∧ u ≤ 0x66 then some (u.toNat - 0x61 + 10)
  else none

/-- How a piece is written. -/
def spell : Piece → List UInt16
  | .inl u => [u]
  | .inr b => [percent, digit (b.toNat / 16), digit (b.toNat % 16)]

/-- The pieces of a string, unless an escape in it is not complete. -/
def pieces : List UInt16 → Option (List Piece)
  | [] => some []
  | [u] => if u = percent then none else some [.inl u]
  | [u, v] => if u = percent ∨ v = percent then none else some [.inl u, .inl v]
  | u :: v :: w :: rest =>
    if u = percent then
      match digitValue v, digitValue w with
      | some high, some low => (pieces rest).map (.inr (UInt8.ofNat (high * 16 + low)) :: ·)
      | _, _ => none
    else (pieces (v :: w :: rest)).map (.inl u :: ·)

/-- The string of some bytes that were escaped one after another. -/
def flush (bytes : List UInt8) : Option (List UInt16) :=
  if Utf8.WellFormed bytes then some (Utf16.encode (Utf8.decode bytes)) else none

/-- The string of some pieces, where these bytes were escaped before them. -/
def join : List UInt8 → List Piece → Option (List UInt16)
  | bytes, [] => flush bytes
  | bytes, .inr b :: rest => join (bytes ++ [b]) rest
  | bytes, .inl u :: rest => (flush bytes).bind fun text =>
    (join [] rest).map fun rest => text ++ u :: rest

/-- What a string was before its characters were escaped. -/
def decode (text : List UInt16) : Option (List UInt16) := (pieces text).bind (join [])

variable (keep : Char → Bool)

/-- The pieces a character is written as. -/
def escape (c : Char) : List Piece :=
  if keep c then [.inl (UInt16.ofNat c.toNat)] else (String.utf8EncodeChar c).map .inr

/-- A string with all characters escaped but the ones that are kept; there is none for a string
with half a surrogate pair in it. -/
def encode (text : List UInt16) : Option (List UInt16) :=
  (Utf16.decodeStrict text).map fun chars => (chars.flatMap (escape keep)).flatMap spell

/-! ### Reading pieces -/

/-- Digits are read as what they are written for. -/
theorem digitValue_digit {n : ℕ} (h : n < 16) : digitValue (digit n) = some n := by
  have hall : ∀ n < 16, digitValue (digit n) = some n := by decide
  exact hall n h

/-- A digit is neither the sign of an escape nor any other character below it. -/
theorem digit_bounds {n : ℕ} (h : n < 16) : 0x30 ≤ (digit n).toNat ∧ digit n ≠ percent := by
  have hall : ∀ n < 16, 0x30 ≤ (digit n).toNat ∧ digit n ≠ percent := by decide
  exact hall n h

/-- Two digits of a byte. -/
theorem digits_byte (b : UInt8) : UInt8.ofNat (b.toNat / 16 * 16 + b.toNat % 16) = b := by
  rw [Nat.div_add_mod' b.toNat 16, UInt8.ofNat_toNat]

/-- A code unit that stands for itself. -/
theorem pieces_unit {u : UInt16} (h : u ≠ percent) (text : List UInt16) :
    pieces (u :: text) = (pieces text).map (.inl u :: ·) := by
  cases text with
  | nil =>
    simp only [pieces, if_neg h]
    rfl
  | cons v text =>
    cases text with
    | nil =>
      rw [pieces, pieces]
      by_cases hv : v = percent
      · rw [if_pos (Or.inr hv), if_pos hv]
        rfl
      · rw [if_neg (not_or.mpr ⟨h, hv⟩), if_neg hv]
        rfl
    | cons w text => rw [pieces, if_neg h]

/-- An escaped byte. -/
theorem pieces_byte (b : UInt8) (text : List UInt16) :
    pieces (spell (.inr b) ++ text) = (pieces text).map (.inr b :: ·) := by
  have hb := b.toNat_lt
  change pieces (percent :: digit (b.toNat / 16) :: digit (b.toNat % 16) :: text) = _
  rw [pieces, if_pos rfl, digitValue_digit (by omega), digitValue_digit (by omega)]
  simp only [digits_byte]

/-- A piece that can be read back. -/
def Readable (p : Piece) : Prop := p ≠ .inl percent

/-- Pieces are read as they were written. -/
theorem pieces_spell {p : Piece} (h : Readable p) (text : List UInt16) :
    pieces (spell p ++ text) = (pieces text).map (p :: ·) := by
  cases p with
  | inl u =>
    apply pieces_unit
    intro hu
    exact h (congrArg Sum.inl hu)
  | inr b => exact pieces_byte b text

theorem pieces_flatMap {ps : List Piece} (h : ∀ p ∈ ps, Readable p) :
    pieces (ps.flatMap spell) = some ps := by
  induction ps with
  | nil => rfl
  | cons p ps ih =>
    rw [List.flatMap_cons, pieces_spell (h p List.mem_cons_self),
      ih fun q hq => h q (List.mem_cons_of_mem p hq)]
    rfl

/-- An end of what was written is read as pieces of it, and as digits of a piece that was cut. -/
theorem pieces_suffix {ps : List Piece} (h : ∀ p ∈ ps, Readable p) {text : List UInt16}
    (htext : text <:+ ps.flatMap spell) :
    ∃ qs, pieces text = some qs ∧ ∀ q ∈ qs, q ∈ ps ∨ ∃ n < 16, q = .inl (digit n) := by
  induction ps with
  | nil =>
    obtain rfl := List.suffix_nil.mp htext
    exact ⟨[], rfl, fun q hq => by cases hq⟩
  | cons p ps ih =>
    have hps : ∀ q ∈ ps, Readable q := fun q hq => h q (List.mem_cons_of_mem p hq)
    have hwhole := pieces_flatMap hps
    have hkept : ∀ q ∈ ps, q ∈ p :: ps ∨ ∃ n < 16, q = .inl (digit n) :=
      fun q hq => Or.inl (List.mem_cons_of_mem p hq)
    have hbehind : text <:+ ps.flatMap spell →
        ∃ qs, pieces text = some qs ∧
          ∀ q ∈ qs, q ∈ p :: ps ∨ ∃ n < 16, q = .inl (digit n) := by
      intro hsuffix
      obtain ⟨qs, hqs, hmem⟩ := ih hps hsuffix
      refine ⟨qs, hqs, ?_⟩
      intro q hq
      exact (hmem q hq).imp (List.mem_cons_of_mem p) id
    cases p with
    | inl u =>
      rw [List.flatMap_cons] at htext
      change text <:+ u :: ps.flatMap spell at htext
      rw [List.suffix_cons_iff] at htext
      cases htext with
      | inl htext =>
        refine ⟨.inl u :: ps, ?_, fun q hq => Or.inl hq⟩
        rw [htext]
        exact pieces_flatMap h
      | inr htext => exact hbehind htext
    | inr b =>
      have hb := b.toNat_lt
      have hlow : Readable (.inl (digit (b.toNat % 16))) := by
        intro heq
        exact (digit_bounds (by omega)).2 (Sum.inl.inj heq)
      have hhigh : Readable (.inl (digit (b.toNat / 16))) := by
        intro heq
        exact (digit_bounds (by omega)).2 (Sum.inl.inj heq)
      rw [List.flatMap_cons] at htext
      change text <:+ percent :: digit (b.toNat / 16) :: digit (b.toNat % 16) ::
        ps.flatMap spell at htext
      rw [List.suffix_cons_iff, List.suffix_cons_iff, List.suffix_cons_iff] at htext
      obtain htext | htext | htext | htext := htext
      · refine ⟨.inr b :: ps, ?_, fun q hq => Or.inl hq⟩
        rw [htext]
        exact pieces_flatMap h
      · -- cut behind the sign
        refine ⟨.inl (digit (b.toNat / 16)) :: .inl (digit (b.toNat % 16)) :: ps, ?_, ?_⟩
        · rw [htext, pieces_unit fun heq => hhigh (congrArg Sum.inl heq),
            pieces_unit fun heq => hlow (congrArg Sum.inl heq), hwhole]
          rfl
        · intro q hq
          rw [List.mem_cons, List.mem_cons] at hq
          obtain rfl | rfl | hq := hq
          · exact Or.inr ⟨b.toNat / 16, by omega, rfl⟩
          · exact Or.inr ⟨b.toNat % 16, by omega, rfl⟩
          · exact hkept q hq
      · -- cut behind the first digit
        refine ⟨.inl (digit (b.toNat % 16)) :: ps, ?_, ?_⟩
        · rw [htext, pieces_unit fun heq => hlow (congrArg Sum.inl heq), hwhole]
          rfl
        · intro q hq
          rw [List.mem_cons] at hq
          obtain rfl | hq := hq
          · exact Or.inr ⟨b.toNat % 16, by omega, rfl⟩
          · exact hkept q hq
      · exact hbehind htext

/-! ### Reading what was written -/

/-- Escaped bytes are the text they encode. -/
theorem flush_encode (chars : List Char) :
    flush (Utf8.encode chars) = some (Utf16.encode chars) := by
  rw [flush, if_pos ⟨chars, rfl⟩, Utf8.decode_encode]

variable {keep}

/-- Only characters of one code unit are kept, and the sign of an escape is not. -/
structure Keeps (keep : Char → Bool) : Prop where
  ascii : ∀ c, keep c = true → c.toNat < 0x80
  percent : keep '%' = false

theorem escape_readable (hkeep : Keeps keep) (chars : List Char) :
    ∀ p ∈ chars.flatMap (escape keep), Readable p := by
  intro p hp
  obtain ⟨c, _, hc⟩ := List.mem_flatMap.mp hp
  unfold escape at hc
  cases hkept : keep c with
  | true =>
    rw [if_pos hkept, List.mem_singleton] at hc
    rw [hc]
    intro heq
    have hunit : UInt16.ofNat c.toNat = percent := Sum.inl.inj heq
    have hnat := congrArg UInt16.toNat hunit
    rw [UInt16.toNat_ofNat', Nat.mod_eq_of_lt (by have := hkeep.ascii c hkept; omega)] at hnat
    have hchar : c = '%' := Char.toNat_inj.mp hnat
    rw [hchar, hkeep.percent] at hkept
    cases hkept
  | false =>
    rw [hkept] at hc
    obtain ⟨b, _, hb⟩ := List.mem_map.mp hc
    rw [← hb]
    intro heq
    cases heq

/-- Bytes are gathered until a code unit stands for itself. -/
theorem join_bytes (more : List UInt8) (bytes : List UInt8) (ps : List Piece) :
    join bytes (more.map .inr ++ ps) = join (bytes ++ more) ps := by
  induction more generalizing bytes with
  | nil =>
    rw [List.append_nil]
    rfl
  | cons b more ih =>
    rw [List.map_cons, List.cons_append, join, ih, List.append_assoc]
    rfl

/-- The pieces of a text, behind those of another, are read as both. -/
theorem join_escape (hkeep : Keeps keep) (chars before : List Char) :
    join (Utf8.encode before) (chars.flatMap (escape keep)) =
      some (Utf16.encode (before ++ chars)) := by
  induction chars generalizing before with
  | nil =>
    rw [List.append_nil]
    exact flush_encode before
  | cons c chars ih =>
    rw [List.flatMap_cons, escape]
    cases hkept : keep c with
    | true =>
      have hc : c.toNat < 0x10000 := by
        have := hkeep.ascii c hkept
        omega
      have hrest := ih []
      rw [List.nil_append, Utf8.encode_nil] at hrest
      have hunit : Utf16.encode (c :: chars) = UInt16.ofNat c.toNat :: Utf16.encode chars := by
        rw [Utf16.encode, List.flatMap_cons, Utf16.encodeChar, if_pos hc]
        rfl
      rw [if_pos rfl, List.singleton_append, join, flush_encode, Option.bind_some, hrest,
        Utf16.encode_append, hunit]
      rfl
    | false =>
      have hbytes : Utf8.encode before ++ String.utf8EncodeChar c =
          Utf8.encode (before ++ [c]) := by
        rw [Utf8.encode_append, Utf8.encode_cons, Utf8.encode_nil, List.append_nil]
      rw [if_neg Bool.false_ne_true, join_bytes, hbytes, ih, List.append_assoc]
      rfl

/-- What was written is read back. -/
theorem decode_encode (hkeep : Keeps keep) {text escaped : List UInt16}
    (h : encode keep text = some escaped) : decode escaped = some text := by
  obtain ⟨chars, hchars, hescaped⟩ := Option.map_eq_some_iff.mp h
  subst hescaped
  rw [decode, pieces_flatMap (escape_readable hkeep chars), Option.bind_some]
  have hjoin := join_escape hkeep chars []
  rw [List.nil_append, Utf8.encode_nil] at hjoin
  rw [hjoin, Utf16.encode_of_strict hchars]

/-! ### ASCII characters in what is read -/

/-- An ASCII character in a text is one of its bytes. -/
theorem mem_flush {bytes : List UInt8} {text : List UInt16} {u : UInt16} (hu : u.toNat < 0x80)
    (h : flush bytes = some text) (hmem : u ∈ text) : UInt8.ofNat u.toNat ∈ bytes := by
  obtain ⟨⟨chars, hchars⟩, htext⟩ := Option.ite_none_right_eq_some.mp h
  obtain rfl := Option.some.inj htext
  rw [← hchars, Utf8.decode_encode] at hmem
  obtain ⟨c, hc, hunit⟩ := List.mem_flatMap.mp hmem
  have hnat := Utf16.mem_encodeChar hu hunit
  rw [← hchars]
  refine List.mem_flatMap.mpr ⟨c, hc, ?_⟩
  rw [← hnat]
  change _ ∈ if c.toNat ≤ 0x7f then [UInt8.ofNat c.toNat] else _
  rw [if_pos (by omega)]
  exact List.mem_singleton_self _

/-- An ASCII character in what is read is one of the pieces. -/
theorem mem_join {ps : List Piece} {bytes : List UInt8} {text : List UInt16} {u : UInt16}
    (hu : u.toNat < 0x80) (h : join bytes ps = some text) (hmem : u ∈ text) :
    UInt8.ofNat u.toNat ∈ bytes ∨ .inl u ∈ ps ∨ .inr (UInt8.ofNat u.toNat) ∈ ps := by
  induction ps generalizing bytes text with
  | nil => exact Or.inl (mem_flush hu h hmem)
  | cons p ps ih =>
    cases p with
    | inl v =>
      rw [join] at h
      obtain ⟨start, hstart, h⟩ := Option.bind_eq_some_iff.mp h
      obtain ⟨rest, hrest, htext⟩ := Option.map_eq_some_iff.mp h
      subst htext
      rw [List.mem_append, List.mem_cons] at hmem
      obtain hmem | rfl | hmem := hmem
      · exact Or.inl (mem_flush hu hstart hmem)
      · exact Or.inr (Or.inl List.mem_cons_self)
      · obtain hnone | hunit | hbyte := ih hrest hmem
        · cases hnone
        · exact Or.inr (Or.inl (List.mem_cons_of_mem _ hunit))
        · exact Or.inr (Or.inr (List.mem_cons_of_mem _ hbyte))
    | inr b =>
      rw [join] at h
      obtain hbytes | hunit | hbyte := ih h hmem
      · rw [List.mem_append, List.mem_singleton] at hbytes
        obtain hbytes | rfl := hbytes
        · exact Or.inl hbytes
        · exact Or.inr (Or.inr List.mem_cons_self)
      · exact Or.inr (Or.inl (List.mem_cons_of_mem _ hunit))
      · exact Or.inr (Or.inr (List.mem_cons_of_mem _ hbyte))

/-- A byte of a character that is an ASCII character is the character. -/
theorem ascii_byte {c : Char} {b : UInt8} (hb : b.toNat < 0x80)
    (h : b ∈ String.utf8EncodeChar c) : c.toNat = b.toNat := by
  obtain ⟨lead, rest, hchar, _, hfollowing, hwidth⟩ := Utf8.encodeChar_shape c
  have hlead : b = lead := by
    rw [hchar, List.mem_cons] at h
    obtain h | h := h
    · exact h
    · have hlarge := (hfollowing b h).1
      omega
  have halone : rest = [] := by
    rw [← hlead, Utf8.width, if_pos hb] at hwidth
    exact List.length_eq_zero_iff.mp (by omega)
  -- a single byte is read as the character of its number
  have hsingle : Utf8.decodeFrom none [b] = [Char.ofNat b.toNat] := by
    simp only [Utf8.decodeFrom, Utf8.first, if_pos hb]
  have hread := Utf8.decodeFrom_encodeChar c []
  rw [hchar, halone, ← hlead, List.append_nil, hsingle] at hread
  obtain ⟨hc, -⟩ := List.cons.inj hread
  rw [← hc]
  exact Utf16.toNat_ofNat (by omega)

/-- A piece of a character that is an ASCII character is the character. -/
theorem mem_escape (hkeep : Keeps keep) {u : UInt16} (hu : u.toNat < 0x80) {c : Char}
    (h : .inl u ∈ escape keep c ∨ .inr (UInt8.ofNat u.toNat) ∈ escape keep c) :
    u ∈ Utf16.encodeChar c := by
  have hc : c.toNat = u.toNat := by
    unfold escape at h
    cases hkept : keep c with
    | true =>
      have hascii := hkeep.ascii c hkept
      simp only [hkept, if_true, List.mem_singleton, reduceCtorEq, or_false, Sum.inl.injEq] at h
      rw [h, UInt16.toNat_ofNat', Nat.mod_eq_of_lt (by omega)]
    | false =>
      simp only [hkept, Bool.false_eq_true, if_false, List.mem_map, reduceCtorEq, and_false,
        exists_false, false_or, Sum.inr.injEq, exists_eq_right] at h
      have hbyte : (UInt8.ofNat u.toNat).toNat = u.toNat := Utf8.toNat_ofNat (by omega)
      rw [ascii_byte (by omega) h, hbyte]
  rw [Utf16.encodeChar, if_pos (by omega), List.mem_singleton, hc, UInt16.ofNat_toNat]

/-- An ASCII character that is read at an end of what was written was there before, unless it is
a digit. -/
theorem mem_decode_suffix (hkeep : Keeps keep) {u : UInt16} (hu : u.toNat < 0x80)
    (hdigit : ∀ n < 16, u ≠ digit n) {text escaped part out : List UInt16}
    (h : encode keep text = some escaped) (hpart : part <:+ escaped)
    (hout : decode part = some out) (hmem : u ∈ out) : u ∈ text := by
  obtain ⟨chars, hchars, hescaped⟩ := Option.map_eq_some_iff.mp h
  subst hescaped
  obtain ⟨qs, hqs, hpieces⟩ := pieces_suffix (escape_readable hkeep chars) hpart
  rw [decode, hqs, Option.bind_some] at hout
  have hpiece : .inl u ∈ chars.flatMap (escape keep) ∨
      .inr (UInt8.ofNat u.toNat) ∈ chars.flatMap (escape keep) := by
    obtain hnone | hunit | hbyte := mem_join hu hout hmem
    · cases hnone
    · obtain hold | ⟨n, hn, hcut⟩ := hpieces _ hunit
      · exact Or.inl hold
      · exact absurd (Sum.inl.inj hcut) (hdigit n hn)
    · obtain hold | ⟨n, hn, hcut⟩ := hpieces _ hbyte
      · exact Or.inr hold
      · cases hcut
  rw [← Utf16.encode_of_strict hchars]
  obtain hunit | hbyte := hpiece
  · obtain ⟨c, hc, hmem⟩ := List.mem_flatMap.mp hunit
    exact List.mem_flatMap.mpr ⟨c, hc, mem_escape hkeep hu (Or.inl hmem)⟩
  · obtain ⟨c, hc, hmem⟩ := List.mem_flatMap.mp hbyte
    exact List.mem_flatMap.mpr ⟨c, hc, mem_escape hkeep hu (Or.inr hmem)⟩

/-- What is written is made of kept characters, signs of escapes and digits. -/
theorem mem_encode {text escaped : List UInt16} (h : encode keep text = some escaped)
    {u : UInt16} (hmem : u ∈ escaped) :
    (∃ c, keep c = true ∧ u = UInt16.ofNat c.toNat) ∨ u = percent ∨ ∃ n < 16, u = digit n := by
  obtain ⟨chars, _, hescaped⟩ := Option.map_eq_some_iff.mp h
  subst hescaped
  obtain ⟨p, hp, hspell⟩ := List.mem_flatMap.mp hmem
  obtain ⟨c, _, hc⟩ := List.mem_flatMap.mp hp
  cases p with
  | inl v =>
    obtain rfl := List.mem_singleton.mp hspell
    unfold escape at hc
    cases hkept : keep c with
    | true =>
      rw [if_pos hkept, List.mem_singleton] at hc
      exact Or.inl ⟨c, hkept, Sum.inl.inj hc⟩
    | false =>
      rw [hkept] at hc
      obtain ⟨b, _, hb⟩ := List.mem_map.mp hc
      cases hb
  | inr b =>
    have hb := b.toNat_lt
    rw [spell, List.mem_cons, List.mem_cons, List.mem_singleton] at hspell
    obtain hspell | hspell | hspell := hspell
    · exact Or.inr (Or.inl hspell)
    · exact Or.inr (Or.inr ⟨b.toNat / 16, by omega, hspell⟩)
    · exact Or.inr (Or.inr ⟨b.toNat % 16, by omega, hspell⟩)

end RemoteWorkspace.Computation.PercentEncoding
