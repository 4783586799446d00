import Mathlib.Tactic.Common

/-!
# Reading a stream that arrives in pieces

A buffered reader holds what a read brought and was not asked for yet, and reads again when that
is used up. What it hands out is the stream, whatever pieces it arrives in: `readUntil` takes the
first line of the stream and `readExact` its first elements.
-/

set_option autoImplicit false

namespace RemoteWorkspace.Computation

variable {α : Type}

/-- What one read brings; at the end of the stream a read brings nothing. -/
abbrev Piece (α : Type) := {piece : List α // piece ≠ []}

/-- A buffered reader: what is in its buffer, and what the reads that follow bring. -/
structure PieceReader (α : Type) where
  buffer : List α
  reads : List (Piece α)

namespace PieceReader

/-- What is still to be handed out. -/
def stream (r : PieceReader α) : List α := r.buffer ++ (r.reads.map Subtype.val).flatten

/-- The first line of a list, with the element that ends it; the whole list when none does. -/
def firstLine [DecidableEq α] (stop : α) : List α → List α
  | [] => []
  | x :: rest => if x = stop then [x] else x :: firstLine stop rest

/-- `readUntil`, from a buffer and the reads that follow. -/
def readUntilFrom [DecidableEq α] (stop : α) (buffer : List α) :
    List (Piece α) → List α × PieceReader α
  | [] => (firstLine stop buffer, ⟨buffer.drop (firstLine stop buffer).length, []⟩)
  | piece :: reads =>
    if stop ∈ buffer then
      (firstLine stop buffer, ⟨buffer.drop (firstLine stop buffer).length, piece :: reads⟩)
    else
      let (line, r) := readUntilFrom stop piece reads
      (buffer ++ line, r)

/-- Take what is there up to the element that ends a line, and that element; all that is left
when none comes. -/
def readUntil [DecidableEq α] (stop : α) (r : PieceReader α) : List α × PieceReader α :=
  readUntilFrom stop r.buffer r.reads

/-- `readExact`, from a buffer and the reads that follow. -/
def readExactFrom (n : ℕ) (buffer : List α) : List (Piece α) → Option (List α × PieceReader α)
  | [] => if n ≤ buffer.length then some (buffer.take n, ⟨buffer.drop n, []⟩) else none
  | piece :: reads =>
    if n ≤ buffer.length then some (buffer.take n, ⟨buffer.drop n, piece :: reads⟩)
    else
      (readExactFrom (n - buffer.length) piece reads).map fun got => (buffer ++ got.1, got.2)

/-- Take as many elements as asked; `none` when the stream ends before. -/
def readExact (n : ℕ) (r : PieceReader α) : Option (List α × PieceReader α) :=
  readExactFrom n r.buffer r.reads

/-! ### Lines -/

section Lines

variable [DecidableEq α] {stop : α} {l front : List α}

/-- The first line is how the list begins. -/
theorem firstLine_begins (stop : α) (l : List α) : firstLine stop l <+: l := by
  induction l with
  | nil => exact List.prefix_rfl
  | cons x rest ih =>
    rw [firstLine]
    split
    · exact List.cons_prefix_cons.mpr ⟨rfl, List.nil_prefix⟩
    · exact List.cons_prefix_cons.mpr ⟨rfl, ih⟩

/-- Nothing has an empty first line but the empty list. -/
theorem firstLine_eq_nil_iff : firstLine stop l = [] ↔ l = [] := by
  cases l with
  | nil => simp [firstLine]
  | cons x rest =>
    rw [firstLine]
    split <;> simp

/-- A list without an end of line is one line. -/
theorem firstLine_of_not_mem (h : stop ∉ l) : firstLine stop l = l := by
  induction l with
  | nil => rfl
  | cons x rest ih =>
    rw [List.mem_cons, not_or] at h
    rw [firstLine, if_neg (Ne.symm h.1), ih h.2]

/-- The first line ends at the first end of line. -/
theorem firstLine_append_cons (h : stop ∉ front) (rest : List α) :
    firstLine stop (front ++ stop :: rest) = front ++ [stop] := by
  induction front with
  | nil => exact if_pos rfl
  | cons x front ih =>
    rw [List.mem_cons, not_or] at h
    rw [List.cons_append, firstLine, if_neg (Ne.symm h.1), ih h.2]
    rfl

/-- An end of line that a list begins with ends the first line of what begins with the list. -/
theorem firstLine_append (h : stop ∈ l) (rest : List α) :
    firstLine stop (l ++ rest) = firstLine stop l := by
  obtain ⟨front, back, rfl, hfront⟩ := List.eq_append_cons_of_mem h
  rw [List.append_assoc, List.cons_append, firstLine_append_cons hfront,
    firstLine_append_cons hfront]

/-- Without one the first line goes on. -/
theorem firstLine_append_of_not_mem (h : stop ∉ l) (rest : List α) :
    firstLine stop (l ++ rest) = l ++ firstLine stop rest := by
  induction l with
  | nil => rfl
  | cons x l ih =>
    rw [List.mem_cons, not_or] at h
    rw [List.cons_append, firstLine, if_neg (Ne.symm h.1), ih h.2, List.cons_append]

end Lines

/-! ### The rules of reading -/

section Rules

variable {r : PieceReader α}

/-- The first line of a stream is taken from its front. -/
theorem readUntilFrom_spec [DecidableEq α] (stop : α) (buffer : List α) (reads : List (Piece α)) :
    (readUntilFrom stop buffer reads).1 = firstLine stop (stream ⟨buffer, reads⟩) ∧
      (readUntilFrom stop buffer reads).2.stream =
        (stream ⟨buffer, reads⟩).drop (firstLine stop (stream ⟨buffer, reads⟩)).length := by
  induction reads generalizing buffer with
  | nil => simp [readUntilFrom, stream]
  | cons piece reads ih =>
    have hstream : stream ⟨buffer, piece :: reads⟩ = buffer ++ stream ⟨piece.val, reads⟩ := by
      simp [stream]
    rw [readUntilFrom, hstream]
    split
    · rename_i hstop
      rw [firstLine_append hstop]
      refine ⟨rfl, ?_⟩
      have hle := (firstLine_begins stop buffer).length_le
      rw [List.drop_append_of_le_length hle]
      simp [stream]
    · rename_i hstop
      obtain ⟨hline, hrest⟩ := ih piece.val
      rw [firstLine_append_of_not_mem hstop]
      dsimp only
      rw [hline, hrest, List.length_append, List.drop_append]
      simp

/-- A line is the first one of the stream. -/
theorem readUntil_line [DecidableEq α] (stop : α) :
    (r.readUntil stop).1 = firstLine stop r.stream :=
  (readUntilFrom_spec stop r.buffer r.reads).1

/-- What follows a line is the stream behind it. -/
theorem stream_readUntil [DecidableEq α] (stop : α) :
    (r.readUntil stop).2.stream = r.stream.drop (firstLine stop r.stream).length :=
  (readUntilFrom_spec stop r.buffer r.reads).2

/-- A line and what follows it are the stream. -/
theorem line_append_stream [DecidableEq α] (stop : α) :
    (r.readUntil stop).1 ++ (r.readUntil stop).2.stream = r.stream := by
  rw [readUntil_line, stream_readUntil]
  exact List.prefix_iff_eq_append.mp (firstLine_begins stop r.stream)

/-- A line that is not empty leaves less to read. -/
theorem stream_readUntil_lt [DecidableEq α] {stop : α} (h : (r.readUntil stop).1 ≠ []) :
    (r.readUntil stop).2.stream.length < r.stream.length := by
  have hlength := congrArg List.length (line_append_stream (r := r) stop)
  have hpos := List.length_pos_iff.mpr h
  rw [List.length_append] at hlength
  omega

/-- As many elements as are there are taken from the front. -/
theorem readExactFrom_of_le {n : ℕ} (buffer : List α) (reads : List (Piece α))
    (h : n ≤ (stream ⟨buffer, reads⟩).length) :
    ∃ r', readExactFrom n buffer reads = some ((stream ⟨buffer, reads⟩).take n, r') ∧
      r'.stream = (stream ⟨buffer, reads⟩).drop n := by
  induction reads generalizing n buffer with
  | nil =>
    have hle : n ≤ buffer.length := by simpa [stream] using h
    exact ⟨⟨buffer.drop n, []⟩, by simp [readExactFrom, stream, hle], by simp [stream]⟩
  | cons piece reads ih =>
    have hstream : stream ⟨buffer, piece :: reads⟩ = buffer ++ stream ⟨piece.val, reads⟩ := by
      simp [stream]
    rw [hstream] at h ⊢
    rw [readExactFrom]
    split
    · rename_i hle
      refine ⟨_, congrArg some (Prod.ext ?_ rfl), ?_⟩
      · rw [List.take_append_of_le_length hle]
      · rw [List.drop_append_of_le_length hle]
        simp [stream]
    · rename_i hle
      rw [List.length_append] at h
      obtain ⟨r', hread, hrest⟩ := ih piece.val (n := n - buffer.length) (by omega)
      have htake : buffer.take n = buffer := List.take_of_length_le (by omega)
      have hdrop : buffer.drop n = [] := List.drop_of_length_le (by omega)
      refine ⟨r', ?_, ?_⟩
      · rw [hread, List.take_append, htake, Option.map_some]
      · rw [hrest, List.drop_append, hdrop, List.nil_append]

/-- More elements than are there are not taken. -/
theorem readExactFrom_of_lt {n : ℕ} (buffer : List α) (reads : List (Piece α))
    (h : (stream ⟨buffer, reads⟩).length < n) : readExactFrom n buffer reads = none := by
  induction reads generalizing n buffer with
  | nil =>
    have hlt : buffer.length < n := by simpa [stream] using h
    exact if_neg (by omega)
  | cons piece reads ih =>
    have hstream : stream ⟨buffer, piece :: reads⟩ = buffer ++ stream ⟨piece.val, reads⟩ := by
      simp [stream]
    rw [hstream, List.length_append] at h
    rw [readExactFrom, if_neg (by omega), ih piece.val (by omega)]
    rfl

/-- `readExactFrom_of_le`, of a reader. -/
theorem readExact_of_le {n : ℕ} (h : n ≤ r.stream.length) :
    ∃ r', r.readExact n = some (r.stream.take n, r') ∧ r'.stream = r.stream.drop n :=
  readExactFrom_of_le r.buffer r.reads h

/-- `readExactFrom_of_lt`, of a reader. -/
theorem readExact_of_lt {n : ℕ} (h : r.stream.length < n) : r.readExact n = none :=
  readExactFrom_of_lt r.buffer r.reads h

end Rules

end PieceReader

end RemoteWorkspace.Computation
