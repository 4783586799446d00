import RemoteWorkspace.Computation.Utf8Feed

/-!
# Text that is cut between two bytes

What is past any byte of an encoded text begins with the end of a character, whose bytes decode
to a replacement each, and goes on with whole characters. So an encoded text leaves a decoder
between two characters wherever it was cut at its beginning.
-/

set_option autoImplicit false

namespace RemoteWorkspace.Computation.Utf8

/-- Whole texts one behind the other are whole. -/
theorem wellFormed_flatten {parts : List (List UInt8)} (h : ∀ part ∈ parts, WellFormed part) :
    WellFormed parts.flatten := by
  induction parts with
  | nil => exact ⟨[], rfl⟩
  | cons part parts ih =>
    obtain ⟨text, htext⟩ := h part List.mem_cons_self
    obtain ⟨rest, hrest⟩ := ih fun p hp => h p (List.mem_cons_of_mem _ hp)
    exact ⟨text ++ rest, by rw [encode_append, htext, hrest, List.flatten_cons]⟩

/-- The bytes of a character after the first are following ones. -/
theorem following_drop (c : Char) {n : ℕ} (h : 0 < n) :
    ∀ b ∈ (String.utf8EncodeChar c).drop n, Following b := by
  obtain ⟨lead, rest, hshape, -, hrest, -⟩ := encodeChar_shape c
  obtain ⟨k, rfl⟩ : ∃ k, n = k + 1 := ⟨n - 1, by omega⟩
  rw [hshape, List.drop_succ_cons]
  exact fun b hb => hrest b (List.mem_of_mem_drop hb)

/-- What is past any byte of a text: the end of a character, and whole characters. -/
theorem drop_encode (text : List Char) (n : ℕ) : ∃ stray rest,
    (encode text).drop n = stray ++ encode rest ∧ (∀ b ∈ stray, Following b) ∧ rest <:+ text := by
  induction text generalizing n with
  | nil => exact ⟨[], [], by simp, by simp, List.suffix_refl _⟩
  | cons c text ih =>
    rw [encode_cons, List.drop_append]
    by_cases hin : n ≤ (String.utf8EncodeChar c).length
    · rcases Nat.eq_zero_or_pos n with rfl | hpos
      · refine ⟨[], c :: text, ?_, by simp, List.suffix_refl _⟩
        rw [Nat.zero_sub, List.drop_zero, List.drop_zero, encode_cons, List.nil_append]
      · refine ⟨(String.utf8EncodeChar c).drop n, text, ?_, following_drop c hpos,
          List.suffix_cons c text⟩
        rw [Nat.sub_eq_zero_of_le hin, List.drop_zero]
    · obtain ⟨stray, rest, heq, hstray, hrest⟩ := ih (n - (String.utf8EncodeChar c).length)
      refine ⟨stray, rest, ?_, hstray, hrest.trans (List.suffix_cons c text)⟩
      rw [List.drop_eq_nil_of_le (by omega), List.nil_append, heq]

/-- A following byte begins no character. -/
theorem first_of_following {b : UInt8} (h : Following b) : first b.toNat = .inl replacement := by
  obtain ⟨hlower, hupper⟩ := h
  unfold first
  split_ifs <;> first | rfl | omega

/-- What is written for a text is read as that text, whatever comes behind it. -/
theorem decode_encode_append (text : List Char) (bytes : List UInt8) :
    decode (encode text ++ bytes) = text ++ decode bytes := by
  induction text with
  | nil => rfl
  | cons c text ih =>
    rw [encode_cons, List.append_assoc, decode, decodeFrom_encodeChar]
    exact congrArg (c :: ·) ih

/-- Following bytes between two characters are a replacement each. -/
theorem decode_stray_append {stray : List UInt8} (h : ∀ b ∈ stray, Following b)
    (bytes : List UInt8) :
    decode (stray ++ bytes) = List.replicate stray.length replacement ++ decode bytes := by
  induction stray with
  | nil => rfl
  | cons b stray ih =>
    rw [List.cons_append, decode, decodeFrom_cons]
    simp only [feedByte, first_of_following (h b List.mem_cons_self)]
    exact congrArg (replacement :: ·) (ih fun b' hb' => h b' (List.mem_cons_of_mem _ hb'))

/-- A whole text that was cut at its beginning is read to its end, whatever comes behind it. -/
theorem decode_drop_append {bytes : List UInt8} (h : WellFormed bytes) (n : ℕ)
    (more : List UInt8) :
    decode (bytes.drop n ++ more) = decode (bytes.drop n) ++ decode more := by
  obtain ⟨text, rfl⟩ := h
  obtain ⟨stray, rest, heq, hstray, -⟩ := drop_encode text n
  rw [heq, List.append_assoc, decode_stray_append hstray, decode_stray_append hstray,
    decode_encode_append, decode_encode, List.append_assoc]

end RemoteWorkspace.Computation.Utf8
