import RemoteWorkspace.Model.RemoteTty

/-!
# Gaps in terminal output

A lossy answer of `term.read` is the retained tail, and `pull` puts a notice before its text. The
decoder is not told of the gap: what it has begun before stays begun behind the notice, and the
next bytes, which belong to another place of the stream, go on with it. So the text is the
decoding of each run of bytes, with one notice for each gap, exactly when no run that ends in a
gap ends within a character.
-/

set_option autoImplicit false

namespace RemoteWorkspace.Analysis.HonestGaps

open RemoteWorkspace.Computation RemoteWorkspace.Model.RemoteTty

abbrev Bytes := List UInt8

/-! ### The answers of a terminal -/

/-- An answer that a pull takes, and whether the output has room for its notice and its text. -/
structure Answer where
  read : TtyWireRead
  roomForNotice : Bool
  roomForText : Bool

/-- The bytes of an answer. -/
def Answer.bytes (a : Answer) : Bytes := Base64.decode a.read.data

/-- One pull, from its answer on. -/
def pulled (s : Tty) (a : Answer) : Tty :=
  let t := received s .follow a.read a.roomForNotice
  if a.read.lossy then advance t .follow a.read a.roomForText else t

/-- The handle behind all of its answers, when it has ended. -/
def ended (answers : List Answer) : Tty := finish (answers.foldl pulled .spawned) ⟨none, none⟩

/-- A notice is never empty. -/
theorem lostNotice_ne_nil (lost : ℤ) : lostNotice lost ≠ [] := by
  simp [lostNotice]

/-- The end of a pull does not look at the stage that it is at. -/
theorem advance_setPull (s : Tty) (p : Pull) (read : TtyWireRead) (room : Bool) :
    advance (s.setPull .follow p) .follow read room = advance s .follow read room := by
  by_cases hbytes : Base64.decode read.data = []
  · simp [advance, Tty.setPull, hbytes]
  · by_cases hskip : s.finished ∨ (Utf8.feed s.decoder (Base64.decode read.data)).1 = []
    · simp [advance, publish, Tty.setPull, hbytes, hskip]
      rfl
    · simp [advance, publish, Tty.setPull, hbytes, hskip]
      rfl

/-- Nor does a pull that was answered. -/
theorem received_setPull (s : Tty) (p : Pull) (read : TtyWireRead) (room : Bool) :
    received (s.setPull .follow p) .follow read room = received s .follow read room := by
  unfold received
  split
  · cases hfinished : s.finished <;> simp [publish, Tty.setPull, lostNotice_ne_nil, hfinished]
  · exact advance_setPull s p read room

/-- A pull is what the loop does with its answer, once the output has drained where it waits for
that. -/
theorem resume_pulled (s : Tty) (a : Answer) :
    (resume (s.setPull .follow (.reading ⟨s.offset, .answered a.read⟩)) .follow
      a.roomForNotice).bind (fun t =>
        if a.read.lossy then
          resume { t with follow := t.follow.map Pull.drained } .follow a.roomForText
        else some t) = some (pulled s a) := by
  have hresume : resume (s.setPull .follow (.reading ⟨s.offset, .answered a.read⟩)) .follow
      a.roomForNotice = some (received s .follow a.read a.roomForNotice) :=
    congrArg some (received_setPull s _ _ _)
  rw [hresume, Option.bind_some, pulled]
  cases hlossy : a.read.lossy with
  | false => rfl
  | true =>
    have hmarking : ∃ t : Tty, ∃ parked,
        received s .follow a.read a.roomForNotice = t.setPull .follow (.marking a.read parked) := by
      unfold received
      rw [if_pos hlossy]
      exact ⟨_, _, rfl⟩
    obtain ⟨t, parked, ht⟩ := hmarking
    rw [ht, if_pos rfl, if_pos rfl, advance_setPull]
    exact congrArg some (advance_setPull t (.marking a.read false) _ _)

/-! ### What is honest -/

/-- The runs of bytes that were received without a gap: the first, and each of the others behind
the number of the bytes that are missing before it. -/
def runs : ℕ → Bytes → List Answer → Bytes × List (ℤ × Bytes)
  | _, run, [] => (run, [])
  | offset, run, a :: answers =>
    let next := a.read.nextOffset
    if a.read.lossy then
      let behind := runs next a.bytes answers
      (run, ((next : ℤ) - a.bytes.length - offset, behind.1) :: behind.2)
    else runs next (run ++ a.bytes) answers

/-- The decoding of each run by itself, with one notice for each gap. -/
def honestText (answers : List Answer) : List Char :=
  let (first, others) := runs 0 [] answers
  Utf8.decode first ++ others.flatMap fun gap => lostNotice gap.1 ++ Utf8.decode gap.2

/-- Each run that a gap follows ends with a character, or with bytes that cannot become one. -/
def EndsWhole : Bytes → List (ℤ × Bytes) → Prop
  | _, [] => True
  | run, gap :: others => (Utf8.feed none run).2 = none ∧ EndsWhole gap.2 others

/-! ### What is published -/

/-- The notice of a gap. -/
def noticeOf (offset : ℕ) (a : Answer) : List Char :=
  if a.read.lossy then lostNotice ((a.read.nextOffset : ℤ) - a.bytes.length - offset) else []

/-- A publication on an open handle. -/
theorem publish_open {s : Tty} (h : s.finished = false) (text : List Char) (room : Bool) :
    (publish s text room).1.finished = false ∧
      (publish s text room).1.decoder = s.decoder ∧
      (publish s text room).1.output = s.output ++ text := by
  by_cases htext : text = []
  · simp [publish, h, htext]
  · simp [publish, h, htext]

/-- The end of a pull on an open handle. -/
theorem advance_open {s : Tty} (h : s.finished = false) (read : TtyWireRead) (room : Bool) :
    let t := advance s .follow read room
    t.finished = false ∧ t.offset = read.nextOffset ∧
      t.decoder = (Utf8.feed s.decoder (Base64.decode read.data)).2 ∧
      t.output = s.output ++ (Utf8.feed s.decoder (Base64.decode read.data)).1 := by
  by_cases hbytes : Base64.decode read.data = []
  · simp [advance, Tty.setPull, hbytes, h]
  · by_cases htext : (Utf8.feed s.decoder (Base64.decode read.data)).1 = []
    · simp [advance, publish, Tty.setPull, hbytes, htext, h]
    · simp [advance, publish, Tty.setPull, hbytes, htext, h]

/-- A pull on an open handle publishes the notice of a gap and what the decoder makes of the
bytes. -/
theorem pulled_open {s : Tty} (h : s.finished = false) (a : Answer) :
    (pulled s a).finished = false ∧ (pulled s a).offset = a.read.nextOffset ∧
      (pulled s a).decoder = (Utf8.feed s.decoder a.bytes).2 ∧
      (pulled s a).output = s.output ++ noticeOf s.offset a ++ (Utf8.feed s.decoder a.bytes).1 := by
  unfold pulled noticeOf
  cases hlossy : a.read.lossy with
  | false =>
    have ht : received s .follow a.read a.roomForNotice =
        advance s .follow a.read a.roomForNotice := by
      unfold received
      rw [hlossy]
      rfl
    have hopen := advance_open h a.read a.roomForNotice
    simpa [ht, Answer.bytes] using hopen
  | true =>
    obtain ⟨t, parked, ht, hfinished, hdecoder, houtput⟩ : ∃ t : Tty, ∃ parked,
        received s .follow a.read a.roomForNotice = t.setPull .follow (.marking a.read parked) ∧
          t.finished = false ∧ t.decoder = s.decoder ∧
          t.output = s.output ++ lostNotice ((a.read.nextOffset : ℤ) - a.bytes.length - s.offset)
        := by
      unfold received
      rw [if_pos hlossy]
      extract_lets bytes lost places books t
      exact ⟨_, _, rfl, publish_open (s := t) h _ _⟩
    have hopen := advance_open hfinished a.read a.roomForText
    rw [hdecoder, houtput] at hopen
    rw [if_pos rfl, if_pos rfl, ht, advance_setPull]
    exact hopen

/-- What is published from the character on that the decoder has begun. -/
def publishedFrom : Option Utf8.Started → ℕ → List Answer → List Char
  | begun, _, [] => Utf8.flush begun
  | begun, offset, a :: answers =>
    noticeOf offset a ++ (Utf8.feed begun a.bytes).1 ++
      publishedFrom (Utf8.feed begun a.bytes).2 a.read.nextOffset answers

/-- The output of an ended handle. -/
theorem output_ended {s : Tty} (h : s.finished = false) (answers : List Answer) :
    (finish (answers.foldl pulled s) ⟨none, none⟩).output =
      s.output ++ publishedFrom s.decoder s.offset answers := by
  induction answers generalizing s with
  | nil => simp [finish, h, publishedFrom]
  | cons a answers ih =>
    obtain ⟨hfinished, hoffset, hdecoder, houtput⟩ := pulled_open h a
    rw [List.foldl_cons, ih hfinished, houtput, hoffset, hdecoder, publishedFrom]
    simp only [List.append_assoc]

/-! ### What would be honest -/

/-- What is honest from the character on that the run has begun: it is made up for before a
notice. -/
def honestFrom : Option Utf8.Started → ℕ → List Answer → List Char
  | begun, _, [] => Utf8.flush begun
  | begun, offset, a :: answers =>
    let behind := if a.read.lossy then none else begun
    (if a.read.lossy then Utf8.flush begun else []) ++ noticeOf offset a ++
      (Utf8.feed behind a.bytes).1 ++
      honestFrom (Utf8.feed behind a.bytes).2 a.read.nextOffset answers

/-- Decoding is feeding and making up for what was begun. -/
theorem decode_eq_feed (run : Bytes) :
    Utf8.decode run = (Utf8.feed none run).1 ++ Utf8.flush (Utf8.feed none run).2 := by
  have happend := Utf8.decodeFrom_append none run []
  rw [List.append_nil] at happend
  rw [Utf8.decode, happend]
  cases (Utf8.feed none run).2 <;> rfl

/-- The honest text, from a run that has begun. -/
theorem honest_runs (offset : ℕ) (run : Bytes) (answers : List Answer) :
    Utf8.decode (runs offset run answers).1 ++
        ((runs offset run answers).2.flatMap fun gap => lostNotice gap.1 ++ Utf8.decode gap.2) =
      (Utf8.feed none run).1 ++ honestFrom (Utf8.feed none run).2 offset answers := by
  induction answers generalizing offset run with
  | nil => simp [runs, honestFrom, decode_eq_feed]
  | cons a answers ih =>
    unfold runs honestFrom noticeOf
    cases hlossy : a.read.lossy with
    | false =>
      simp only [Bool.false_eq_true, if_false, ih, Utf8.feed_append, List.append_assoc,
        List.nil_append]
    | true =>
      simp only [if_true, List.flatMap_cons, decode_eq_feed run, List.append_assoc, ih]

/-- A notice begins with a line break, and not with what is made up for a character. -/
theorem lostNotice_ne (lost : ℤ) (rest rest' : List Char) :
    lostNotice lost ++ rest ≠ Utf8.replacement :: rest' := by
  intro h
  have hhead := congrArg List.head? h
  simp [lostNotice, Utf8.replacement] at hhead

/-- What is published is honest exactly when nothing has begun at a gap: otherwise the texts
differ at the first notice before which something has. -/
theorem publishedFrom_eq_iff (offset : ℕ) (run : Bytes) (answers : List Answer) :
    publishedFrom (Utf8.feed none run).2 offset answers =
        honestFrom (Utf8.feed none run).2 offset answers ↔
      EndsWhole (runs offset run answers).1 (runs offset run answers).2 := by
  induction answers generalizing offset run with
  | nil => exact iff_of_true rfl trivial
  | cons a answers ih =>
    unfold publishedFrom honestFrom runs noticeOf
    cases hlossy : a.read.lossy with
    | false =>
      have hfeed : (Utf8.feed (Utf8.feed none run).2 a.bytes).2 =
          (Utf8.feed none (run ++ a.bytes)).2 := by rw [Utf8.feed_append]
      simp only [Bool.false_eq_true, if_false, List.nil_append, List.append_cancel_left_eq, hfeed]
      exact ih a.read.nextOffset (run ++ a.bytes)
    | true =>
      simp only [if_true, EndsWhole]
      cases hbegun : (Utf8.feed none run).2 with
      | none =>
        simp only [Utf8.flush, List.nil_append, List.append_assoc, List.append_cancel_left_eq,
          true_and]
        exact ih a.read.nextOffset a.bytes
      | some c =>
        simp only [Utf8.flush, List.append_assoc, List.singleton_append]
        exact iff_of_false (lostNotice_ne _ _ _) (fun hends => nomatch hends.1)

/-- The first byte of a character, and behind a gap of five bytes the last byte of one. -/
def splicedCharacter : List Answer :=
  [⟨⟨Base64.encode [0xC3], 1, false, none⟩, true, true⟩,
    ⟨⟨Base64.encode [0xA9], 7, true, none⟩, true, true⟩]

/-- The two bytes are published as one character behind the notice. -/
theorem splicedCharacter_output :
    (ended splicedCharacter).output = lostNotice 5 ++ [Char.ofNat 0xE9] := by
  decide +kernel

end RemoteWorkspace.Analysis.HonestGaps
