import RemoteWorkspace.Computation.Utf8

/-!
# Decoding bytes that arrive in pieces

A character may be cut by the end of a piece, and its first bytes wait for the next one.
Feeding a decoder piece by piece writes the same text as decoding all at once: what was
written so far, followed by what the rest decodes to from the character that was started
(`decodeFrom_append`).
-/

set_option autoImplicit false

namespace RemoteWorkspace.Computation.Utf8

/-- One byte: the text it ends, and the character that is started after it. -/
def feedByte (started : Option Started) (b : UInt8) : List Char × Option Started :=
  match started with
  | none =>
    match first b.toNat with
    | .inl char => ([char], none)
    | .inr c => ([], some c)
  | some c =>
    match next c b.toNat with
    | some (.inl char) => ([char], none)
    | some (.inr c') => ([], some c')
    | none =>
      match first b.toNat with
      | .inl char => ([replacement, char], none)
      | .inr c' => ([replacement], some c')

/-- A piece: the text it ends, and the character that is started after it. -/
def feed : Option Started → List UInt8 → List Char × Option Started
  | started, [] => ([], started)
  | started, b :: bytes =>
    ((feedByte started b).1 ++ (feed (feedByte started b).2 bytes).1,
      (feed (feedByte started b).2 bytes).2)

/-- What stands for a character that was started and not ended. -/
def flush : Option Started → List Char
  | none => []
  | some _ => [replacement]

/-- Nothing that is fed changes nothing. -/
@[simp] theorem feed_nil (started : Option Started) : feed started [] = ([], started) := rfl

/-- A byte is decoded before the bytes after it. -/
theorem decodeFrom_cons (started : Option Started) (b : UInt8) (bytes : List UInt8) :
    decodeFrom started (b :: bytes) =
      (feedByte started b).1 ++ decodeFrom (feedByte started b).2 bytes := by
  cases started with
  | none =>
    cases hfirst : first b.toNat <;> simp [decodeFrom, feedByte, hfirst]
  | some c =>
    -- a byte that does not belong to the character is read again between characters
    rcases hnext : next c b.toNat with _ | char | c'
    · cases hfirst : first b.toNat <;> simp [decodeFrom, feedByte, hnext, hfirst]
    · simp [decodeFrom, feedByte, hnext]
    · simp [decodeFrom, feedByte, hnext]

/-- Decoding two pieces writes what the first ends, and what the second decodes to from the
character that was started. -/
theorem decodeFrom_append (started : Option Started) (bytes bytes' : List UInt8) :
    decodeFrom started (bytes ++ bytes') =
      (feed started bytes).1 ++ decodeFrom (feed started bytes).2 bytes' := by
  induction bytes generalizing started with
  | nil => simp
  | cons b bytes ih =>
    rw [List.cons_append, decodeFrom_cons, ih, ← List.append_assoc]
    rfl

/-- Feeding two pieces is feeding one after the other. -/
theorem feed_append (started : Option Started) (bytes bytes' : List UInt8) :
    feed started (bytes ++ bytes') =
      ((feed started bytes).1 ++ (feed (feed started bytes).2 bytes').1,
        (feed (feed started bytes).2 bytes').2) := by
  induction bytes generalizing started with
  | nil => simp
  | cons b bytes ih => simp [feed, ih]

end RemoteWorkspace.Computation.Utf8
