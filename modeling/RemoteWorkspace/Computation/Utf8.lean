import Mathlib.Tactic.Common

/-!
# Decoding bytes that may not be UTF-8

Bytes that are read as text and written as text again. Decoding never fails: it reads one
byte at a time and puts a replacement character for every sequence that cannot become a
character, without the byte that showed it. `decodeFrom` is that machine.

Bytes survive being read and written exactly when they are the encoding of some text
(`reencode_eq_iff`). Bytes that are cut into parts, each of them read and written by itself,
survive exactly when each part is one (`flatten_reencode_eq_iff`).
-/

set_option autoImplicit false

namespace RemoteWorkspace.Computation.Utf8

/-- What stands for bytes that are no character. -/
def replacement : Char := '\uFFFD'

/-- A character whose first bytes were read: how many are to come, the bounds of the next,
and the bits so far. -/
structure Started where
  needed : ℕ
  lower : ℕ
  upper : ℕ
  bits : ℕ
  deriving DecidableEq

/-- A byte between two characters: it is one, or it starts one. -/
def first (b : ℕ) : Char ⊕ Started :=
  if b < 0x80 then .inl (Char.ofNat b)
  else if b < 0xC2 then .inl replacement
  else if b < 0xE0 then .inr ⟨1, 0x80, 0xBF, b % 0x20⟩
  else if b < 0xF0 then
    .inr ⟨2, if b = 0xE0 then 0xA0 else 0x80, if b = 0xED then 0x9F else 0xBF, b % 0x10⟩
  else if b < 0xF5 then
    .inr ⟨3, if b = 0xF0 then 0x90 else 0x80, if b = 0xF4 then 0x8F else 0xBF, b % 0x08⟩
  else .inl replacement

/-- The byte that follows in a character that was started: it ends the character, or is
part of it, or does not belong to it. -/
def next (c : Started) (b : ℕ) : Option (Char ⊕ Started) :=
  if c.lower ≤ b ∧ b ≤ c.upper then
    let bits := c.bits * 0x40 + b % 0x40
    if c.needed = 1 then some (.inl (Char.ofNat bits))
    else some (.inr ⟨c.needed - 1, 0x80, 0xBF, bits⟩)
  else none

/-- The text of some bytes, where a character may have been started before them. -/
def decodeFrom : Option Started → List UInt8 → List Char
  | none, [] => []
  | some _, [] => [replacement]
  | none, b :: bytes =>
    match first b.toNat with
    | .inl char => char :: decodeFrom none bytes
    | .inr c => decodeFrom (some c) bytes
  | some c, b :: bytes =>
    match next c b.toNat with
    | some (.inl char) => char :: decodeFrom none bytes
    | some (.inr c') => decodeFrom (some c') bytes
    | none =>
      -- the byte does not belong to the character: it is read again between characters
      match first b.toNat with
      | .inl char => replacement :: char :: decodeFrom none bytes
      | .inr c' => replacement :: decodeFrom (some c') bytes

/-- The text of some bytes. -/
def decode (bytes : List UInt8) : List Char := decodeFrom none bytes

/-- The bytes of a text. -/
def encode (text : List Char) : List UInt8 := text.flatMap String.utf8EncodeChar

/-- Bytes read as text and written again. -/
def reencode (bytes : List UInt8) : List UInt8 := encode (decode bytes)

/-- Bytes that encode a text. -/
def WellFormed (bytes : List UInt8) : Prop := ∃ text, encode text = bytes

/-! ### Reading what was written -/

/-- The byte of a number below `256`. -/
theorem toNat_ofNat {n : ℕ} (h : n < 256) : (UInt8.ofNat n).toNat = n := by
  simp [UInt8.toNat_ofNat', Nat.mod_eq_of_lt h]

/-- A character is the number it was made from. -/
theorem ofNat_toNat (c : Char) {n : ℕ} (h : n = c.val.toNat) : Char.ofNat n = c := by
  subst h
  exact Char.ofNat_toNat c

/-- A following byte that does not end its character. -/
theorem decodeFrom_next {c : Started} {b : ℕ} (hb : b < 256) (hlower : c.lower ≤ b)
    (hupper : b ≤ c.upper) (hneeded : c.needed ≠ 1) (bytes : List UInt8) :
    decodeFrom (some c) (UInt8.ofNat b :: bytes) =
      decodeFrom (some ⟨c.needed - 1, 0x80, 0xBF, c.bits * 0x40 + b % 0x40⟩) bytes := by
  simp [decodeFrom, next, toNat_ofNat hb, hlower, hupper, hneeded]

/-- A following byte that ends its character. -/
theorem decodeFrom_last {c : Started} {b : ℕ} (hb : b < 256) (hlower : c.lower ≤ b)
    (hupper : b ≤ c.upper) (hneeded : c.needed = 1) (bytes : List UInt8) :
    decodeFrom (some c) (UInt8.ofNat b :: bytes) =
      Char.ofNat (c.bits * 0x40 + b % 0x40) :: decodeFrom none bytes := by
  simp [decodeFrom, next, toNat_ofNat hb, hlower, hupper, hneeded]

/-- A byte that starts a character. -/
theorem decodeFrom_first {c : Started} {b : ℕ} (hb : b < 256) (hc : first b = .inr c)
    (bytes : List UInt8) :
    decodeFrom none (UInt8.ofNat b :: bytes) = decodeFrom (some c) bytes := by
  simp [decodeFrom, toNat_ofNat hb, hc]

/-- A first byte of two, of three and of four. -/
theorem first_of_two {b : ℕ} (h : 0xC2 ≤ b) (h' : b < 0xE0) :
    first b = .inr ⟨1, 0x80, 0xBF, b % 0x20⟩ := by
  rw [first, if_neg (by omega), if_neg (by omega), if_pos h']

theorem first_of_three {b : ℕ} (h : 0xE0 ≤ b) (h' : b < 0xF0) :
    first b = .inr ⟨2, if b = 0xE0 then 0xA0 else 0x80, if b = 0xED then 0x9F else 0xBF,
      b % 0x10⟩ := by
  rw [first, if_neg (by omega), if_neg (by omega), if_neg (by omega), if_pos h']

theorem first_of_four {b : ℕ} (h : 0xF0 ≤ b) (h' : b < 0xF5) :
    first b = .inr ⟨3, if b = 0xF0 then 0x90 else 0x80, if b = 0xF4 then 0x8F else 0xBF,
      b % 0x08⟩ := by
  rw [first, if_neg (by omega), if_neg (by omega), if_neg (by omega), if_neg (by omega),
    if_pos h']

/-- What is written for one character is read as that character. -/
theorem decodeFrom_encodeChar (c : Char) (bytes : List UInt8) :
    decodeFrom none (String.utf8EncodeChar c ++ bytes) = c :: decodeFrom none bytes := by
  have hvalid : c.val.toNat < 0xD800 ∨ 0xDFFF < c.val.toNat ∧ c.val.toNat < 0x110000 := c.valid
  have hchar : ∀ n, n = c.val.toNat → Char.ofNat n = c := fun n => ofNat_toNat c
  unfold String.utf8EncodeChar
  generalize c.val.toNat = n at hvalid hchar
  simp only
  -- one, two, three and four bytes; `omega` checks the bounds of each
  split
  · rw [List.singleton_append, decodeFrom, toNat_ofNat (by omega), first, if_pos (by omega),
      hchar n rfl]
  · split
    · rw [List.cons_append, List.singleton_append,
        decodeFrom_first (by omega) (first_of_two (by omega) (by omega)),
        decodeFrom_last (by omega) (by simp) (by simp; omega) rfl,
        hchar _ (by simp; omega)]
    · split
      · rw [List.cons_append, List.cons_append, List.singleton_append,
          decodeFrom_first (by omega) (first_of_three (by omega) (by omega)),
          decodeFrom_next (by omega) (by simp only; split <;> omega)
            (by simp only; split <;> omega) (by simp),
          decodeFrom_last (by omega) (by simp) (by simp; omega) rfl,
          hchar _ (by simp; omega)]
      · rw [List.cons_append, List.cons_append, List.cons_append, List.singleton_append,
          decodeFrom_first (by omega) (first_of_four (by omega) (by omega)),
          decodeFrom_next (by omega) (by simp only; split <;> omega)
            (by simp only; split <;> omega) (by simp),
          decodeFrom_next (by omega) (by simp) (by simp; omega) (by simp),
          decodeFrom_last (by omega) (by simp) (by simp; omega) rfl,
          hchar _ (by simp; omega)]

/-- Nothing is written for no text. -/
@[simp] theorem encode_nil : encode [] = [] := rfl

/-- A text is written character by character. -/
theorem encode_cons (c : Char) (text : List Char) :
    encode (c :: text) = String.utf8EncodeChar c ++ encode text := rfl

/-- Two texts after one another are written after one another. -/
@[simp] theorem encode_append (text text' : List Char) :
    encode (text ++ text') = encode text ++ encode text' := List.flatMap_append

/-- What is written for a text is read as that text. -/
theorem decode_encode (text : List Char) : decode (encode text) = text := by
  unfold decode encode
  induction text with
  | nil => rfl
  | cons c text ih => rw [List.flatMap_cons, decodeFrom_encodeChar, ih]

/-- Bytes survive being read and written exactly when they encode a text. -/
theorem reencode_eq_iff {bytes : List UInt8} : reencode bytes = bytes ↔ WellFormed bytes := by
  constructor
  · exact fun h => ⟨decode bytes, h⟩
  · rintro ⟨text, rfl⟩
    rw [reencode, decode_encode]

instance (bytes : List UInt8) : Decidable (WellFormed bytes) :=
  decidable_of_iff _ reencode_eq_iff

/-! ### Where characters end -/

/-- A byte that only follows another one in a character. -/
def Following (b : UInt8) : Prop := 0x80 ≤ b.toNat ∧ b.toNat < 0xC0

/-- How many bytes a character has, from its first one. -/
def width (b : UInt8) : ℕ :=
  if b.toNat < 0x80 then 1 else if b.toNat < 0xE0 then 2 else if b.toNat < 0xF0 then 3 else 4

/-- No character has more than four bytes. -/
theorem width_le (b : UInt8) : width b ≤ 4 := by
  unfold width
  split_ifs <;> omega

/-- A byte of a number in the range of following bytes. -/
theorem following_ofNat {n : ℕ} (hlower : 0x80 ≤ n) (hupper : n < 0xC0) :
    Following (UInt8.ofNat n) := by
  rw [Following, toNat_ofNat (by omega)]
  exact ⟨hlower, hupper⟩

/-- A character is a first byte and as many following ones as the first one says. -/
theorem encodeChar_shape (c : Char) : ∃ lead rest, String.utf8EncodeChar c = lead :: rest ∧
    ¬ Following lead ∧ (∀ b ∈ rest, Following b) ∧ rest.length + 1 = width lead := by
  have hvalid : c.val.toNat < 0xD800 ∨ 0xDFFF < c.val.toNat ∧ c.val.toNat < 0x110000 := c.valid
  unfold String.utf8EncodeChar
  generalize c.val.toNat = n at hvalid
  simp only
  -- one, two, three and four bytes
  split
  · refine ⟨_, [], rfl, ?_, by simp, ?_⟩
    · rw [Following, toNat_ofNat (by omega)]
      omega
    · rw [width, toNat_ofNat (by omega), if_pos (by omega), List.length_nil]
  · split
    · refine ⟨_, [_], rfl, ?_, ?_, ?_⟩
      · rw [Following, toNat_ofNat (by omega)]
        omega
      · simp only [List.mem_singleton, forall_eq]
        exact following_ofNat (by omega) (by omega)
      · rw [width, toNat_ofNat (by omega), if_neg (by omega), if_pos (by omega),
          List.length_singleton]
    · split
      · refine ⟨_, [_, _], rfl, ?_, ?_, ?_⟩
        · rw [Following, toNat_ofNat (by omega)]
          omega
        · simp only [List.mem_cons, List.not_mem_nil, or_false, forall_eq_or_imp, forall_eq]
          exact ⟨following_ofNat (by omega) (by omega), following_ofNat (by omega) (by omega)⟩
        · rw [width, toNat_ofNat (by omega), if_neg (by omega), if_neg (by omega),
            if_pos (by omega)]
          rfl
      · refine ⟨_, [_, _, _], rfl, ?_, ?_, ?_⟩
        · rw [Following, toNat_ofNat (by omega)]
          omega
        · simp only [List.mem_cons, List.not_mem_nil, or_false, forall_eq_or_imp, forall_eq]
          exact ⟨following_ofNat (by omega) (by omega), following_ofNat (by omega) (by omega),
            following_ofNat (by omega) (by omega)⟩
        · rw [width, toNat_ofNat (by omega), if_neg (by omega), if_neg (by omega),
            if_neg (by omega)]
          rfl

/-- The beginning of a character that ends before the character does, nothing included. -/
def Fragment (part : List UInt8) : Prop :=
  ∃ c, part <+: String.utf8EncodeChar c ∧ part.length < (String.utf8EncodeChar c).length

/-- Nothing is the beginning of every character. -/
theorem fragment_nil : Fragment [] := by
  obtain ⟨lead, rest, hshape, -⟩ := encodeChar_shape ' '
  refine ⟨' ', List.nil_prefix, ?_⟩
  rw [hshape]
  exact Nat.succ_pos _

/-- A fragment has at most three bytes. -/
theorem Fragment.length_lt {part : List UInt8} (h : Fragment part) : part.length < 4 := by
  obtain ⟨c, -, hlt⟩ := h
  obtain ⟨lead, rest, hshape, -, -, hwidth⟩ := encodeChar_shape c
  have hle := width_le lead
  rw [hshape, List.length_cons] at hlt
  omega

/-- The first bytes of a text are whole characters and a fragment of the next one. -/
theorem take_encode (text : List Char) (n : ℕ) : ∃ whole rest part, text = whole ++ rest ∧
    (encode text).take n = encode whole ++ part ∧ Fragment part := by
  induction text generalizing n with
  | nil => exact ⟨[], [], [], rfl, by simp, fragment_nil⟩
  | cons c text ih =>
    by_cases hn : n < (String.utf8EncodeChar c).length
    · refine ⟨[], c :: text, (String.utf8EncodeChar c).take n, rfl, ?_, c, ?_, ?_⟩
      · rw [encode_cons, List.take_append_of_le_length (Nat.le_of_lt hn), encode_nil,
          List.nil_append]
      · exact List.take_prefix n _
      · rw [List.length_take]
        omega
    · obtain ⟨whole, rest, part, htext, htake, hpart⟩ := ih (n - (String.utf8EncodeChar c).length)
      refine ⟨c :: whole, rest, part, by rw [htext, List.cons_append], ?_, hpart⟩
      rw [encode_cons, List.take_append, List.take_of_length_le (by omega), htake, encode_cons,
        List.append_assoc]

/-! ### Decoding never shortens -/

/-- A character of two, three or four bytes of which some were read: what its bits and the
bounds of its next byte may be. -/
inductive Begun (c : Started) : ℕ → Prop
  | two : c.needed = 1 → 2 ≤ c.bits → c.bits < 32 → Begun c 1
  | three : c.needed = 2 → c.bits < 16 → (c.bits = 0 → 0xA0 ≤ c.lower) →
    (c.bits = 13 → c.upper ≤ 0x9F) → Begun c 1
  | threeLast : c.needed = 1 → 32 ≤ c.bits → c.bits < 1024 →
    (c.bits < 0x360 ∨ 0x380 ≤ c.bits) → Begun c 2
  | four : c.needed = 3 → c.bits < 5 → (c.bits = 0 → 0x90 ≤ c.lower) →
    (c.bits = 4 → c.upper ≤ 0x8F) → Begun c 1
  | fourNext : c.needed = 2 → 16 ≤ c.bits → c.bits < 0x110 → Begun c 2
  | fourLast : c.needed = 1 → 1024 ≤ c.bits → c.bits < 0x4400 → Begun c 3

/-- A character was started by at most three bytes, and its next byte is a following one. -/
def Partial (c : Started) (k : ℕ) : Prop := 0x80 ≤ c.lower ∧ c.upper ≤ 0xBF ∧ Begun c k

/-- No more than three bytes of a character were read before its last. -/
theorem Partial.le {c : Started} {k : ℕ} (h : Partial c k) : k ≤ 3 := by
  obtain ⟨-, -, h⟩ := h
  cases h <;> omega

/-- How many bytes are written for a character from its number. -/
theorem le_length_ofNat {n k : ℕ} (hvalid : n < 0xD800 ∨ 0xDFFF < n ∧ n < 0x110000)
    (hk : k = 1 ∨ k = 2 ∧ 0x80 ≤ n ∨ k = 3 ∧ 0x800 ≤ n ∨ k = 4 ∧ 0x10000 ≤ n) :
    k ≤ (String.utf8EncodeChar (Char.ofNat n)).length := by
  have hnat : (Char.ofNat n).val.toNat = n := by
    rw [Char.ofNat, dif_pos hvalid]
    rfl
  unfold String.utf8EncodeChar
  rw [hnat]
  simp only
  split_ifs <;> simp only [List.length_cons, List.length_nil] <;> omega

/-- A byte that starts a character, of which more are to come. -/
theorem partial_first {b : ℕ} {c : Started} (h : first b = .inr c) : Partial c 1 := by
  unfold first at h
  split at h
  · cases h
  · split at h
    · cases h
    · split at h
      · cases h
        exact ⟨by simp, by simp, .two rfl (by simp; omega) (by simp; omega)⟩
      · split at h
        · cases h
          refine ⟨by simp only; split <;> omega, by simp only; split <;> omega,
            .three rfl (by simp; omega) (fun hb => ?_) fun hb => ?_⟩
          · simp only at hb ⊢
            split <;> omega
          · simp only at hb ⊢
            split <;> omega
        · split at h
          · cases h
            refine ⟨by simp only; split <;> omega, by simp only; split <;> omega,
              .four rfl (by simp; omega) (fun hb => ?_) fun hb => ?_⟩
            · simp only at hb ⊢
              split <;> omega
            · simp only at hb ⊢
              split <;> omega
          · cases h

/-- A byte that ends its character: the character has as many bytes as were read. -/
theorem length_next {c : Started} {k b : ℕ} {char : Char} (hc : Partial c k)
    (h : next c b = some (.inl char)) : k + 1 ≤ (String.utf8EncodeChar char).length := by
  obtain ⟨hlower, hupper, hc⟩ := hc
  unfold next at h
  obtain ⟨hb, h⟩ := Option.ite_none_right_eq_some.mp h
  simp only at h
  split at h
  · cases h
    cases hc with
    | two | threeLast | fourLast => exact le_length_ofNat (by omega) (by omega)
    | three | four | fourNext => omega
  · cases h

/-- A byte that is part of its character. -/
theorem partial_next {c c' : Started} {k b : ℕ} (hc : Partial c k)
    (h : next c b = some (.inr c')) : Partial c' (k + 1) := by
  obtain ⟨hlower, hupper, hc⟩ := hc
  unfold next at h
  obtain ⟨hb, h⟩ := Option.ite_none_right_eq_some.mp h
  simp only at h
  split at h
  · cases h
  · cases h
    refine ⟨by simp, by simp, ?_⟩
    cases hc with
    | two | threeLast | fourLast => omega
    | three => exact .threeLast (by simp; omega) (by simp; omega) (by simp; omega) (by simp; omega)
    | four => exact .fourNext (by simp; omega) (by simp; omega) (by simp; omega)
    | fourNext => exact .fourLast (by simp; omega) (by simp; omega) (by simp; omega)

/-- The bytes that were read of a character, where one was started. -/
def Underway : Option Started → ℕ → Prop
  | none, k => k = 0
  | some c, k => Partial c k

/-- What is written for the text of some bytes is no shorter than they are. -/
theorem length_le_decodeFrom (bytes : List UInt8) (c : Option Started) {k : ℕ}
    (hc : Underway c k) : k + bytes.length ≤ (encode (decodeFrom c bytes)).length := by
  induction bytes generalizing c k with
  | nil =>
    cases c with
    | none =>
      rw [hc]
      exact Nat.zero_le _
    | some c => exact Partial.le hc
  | cons b bytes ih =>
    have hbetween := ih none (k := 0) rfl
    -- the byte, read between two characters
    have hfirst : bytes.length + 1 ≤ (encode (decodeFrom none (b :: bytes))).length := by
      rw [decodeFrom]
      cases h : first b.toNat with
      | inl char =>
        have hchar : 1 ≤ char.utf8Size := char.utf8Size_pos
        simp only [encode_cons, List.length_append, String.length_utf8EncodeChar]
        omega
      | inr c' =>
        have hrest := ih (some c') (partial_first h)
        simp only
        omega
    cases c with
    | none =>
      rw [hc, List.length_cons]
      omega
    | some c =>
      rw [decodeFrom, List.length_cons]
      cases h : next c b.toNat with
      | none =>
        -- the replacement character makes up for the bytes before
        have hreplacement : decodeFrom none (b :: bytes) = match first b.toNat with
          | .inl char => char :: decodeFrom none bytes
          | .inr c' => decodeFrom (some c') bytes := rfl
        have hk : k ≤ (String.utf8EncodeChar replacement).length := Partial.le hc
        cases h' : first b.toNat with
        | inl char =>
          rw [hreplacement, h'] at hfirst
          simp only [encode_cons, List.length_append] at hfirst ⊢
          omega
        | inr c' =>
          rw [hreplacement, h'] at hfirst
          simp only [encode_cons, List.length_append] at hfirst ⊢
          omega
      | some r =>
        cases r with
        | inl char =>
          have hchar := length_next hc h
          simp only [encode_cons, List.length_append]
          omega
        | inr c' =>
          have hrest := ih (some c') (partial_next hc h)
          simp only
          omega

/-- Bytes that are read and written again are not shorter. -/
theorem length_le_reencode (bytes : List UInt8) : bytes.length ≤ (reencode bytes).length := by
  have h := length_le_decodeFrom bytes none (k := 0) rfl
  rwa [Nat.zero_add] at h

/-- Parts that are read and written again by themselves are not shorter together. -/
theorem length_le_flatten_reencode (parts : List (List UInt8)) :
    parts.flatten.length ≤ (parts.map reencode).flatten.length := by
  induction parts with
  | nil => exact Nat.le_refl _
  | cons part parts ih =>
    have hpart := length_le_reencode part
    simp only [List.map_cons, List.flatten_cons, List.length_append]
    omega

/-- Bytes that are cut into parts survive when each part is read and written by itself exactly
when each part encodes a text. -/
theorem flatten_reencode_eq_iff {parts : List (List UInt8)} :
    (parts.map reencode).flatten = parts.flatten ↔ ∀ part ∈ parts, WellFormed part := by
  induction parts with
  | nil => simp
  | cons part parts ih =>
    have hparts := length_le_flatten_reencode parts
    have hpart := length_le_reencode part
    rw [List.map_cons, List.flatten_cons, List.flatten_cons, List.forall_mem_cons]
    constructor
    · intro h
      have hlength := congrArg List.length h
      simp only [List.length_append] at hlength
      obtain ⟨hhead, htail⟩ := List.append_inj h (by omega)
      exact ⟨reencode_eq_iff.mp hhead, ih.mp htail⟩
    · rintro ⟨hhead, htail⟩
      rw [reencode_eq_iff.mpr hhead, ih.mpr htail]

end RemoteWorkspace.Computation.Utf8
