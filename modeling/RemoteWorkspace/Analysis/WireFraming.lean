import Mathlib.Data.Bool.AllAny
import RemoteWorkspace.Model.JsonRpc

/-!
# Where a stream of frames may end

Messages are read back from their frames in whatever pieces these arrive, as far as `serde_json`
reads each back. A stream that ends inside a body is an error. One that ends inside a header block
should be as well, and is taken for a clean end instead: the loop over the header lines looks for
the end of the stream before each line, whether or not it is the first one.
-/

set_option autoImplicit false

namespace RemoteWorkspace.Analysis.WireFraming

open RemoteWorkspace.Computation RemoteWorkspace.Computation.PieceReader
open RemoteWorkspace.Model.JsonRpc
open RemoteWorkspace.Model.EnsureAgent (trim isWhitespace)

variable {V : Type} {serde : Serde V} {r : PieceReader UInt8} {lines : List Bytes}
variable {line rest tail blank body frame : Bytes} {contentLength : Option ℕ} {value : V}

/-! ### The structure of a stream -/

/-- A line with its end. -/
def IsLine (line : Bytes) : Prop := ∃ text, lineFeed ∉ text ∧ line = text ++ [lineFeed]

/-- Lines that are header lines: none of them is blank. -/
def AreHeaders (lines : List Bytes) : Prop := ∀ line ∈ lines, IsLine line ∧ headerOf line ≠ []

/-- Header lines and the blank line behind them. -/
structure IsBlock (lines : List Bytes) (blank : Bytes) : Prop where
  headers : AreHeaders lines
  line : IsLine blank
  blank : headerOf blank = []

/-- What header lines say of the content length, after what the lines before them said. -/
def declaredFrom (contentLength : Option ℕ) (lines : List Bytes) : Option ℕ :=
  lines.foldl (fun length line => headerLine length (headerOf line)) contentLength

/-- The content length that header lines declare. -/
def declared (lines : List Bytes) : Option ℕ := declaredFrom none lines

/-- A complete message: a header block, and a body of the length that it declares. -/
def IsFrame (serde : Serde V) (frame : Bytes) (value : V) : Prop :=
  ∃ lines blank body, frame = lines.flatten ++ (blank ++ body) ∧ IsBlock lines blank ∧
    declared lines = some body.length ∧ body.length ≤ isizeMax ∧
      serde.fromSlice body = .ok value

/-- Complete messages, one after another. -/
def AreFrames (serde : Serde V) (frames : List Bytes) : Prop :=
  ∀ frame ∈ frames, ∃ value, IsFrame serde frame value

/-- What is left of a stream that ends inside a header block: header lines, and the beginning of
a line. -/
structure EndsInHeader (rest : Bytes) (lines : List Bytes) (tail : Bytes) : Prop where
  begun : rest ≠ []
  parts : rest = lines.flatten ++ tail
  headers : AreHeaders lines
  cut : lineFeed ∉ tail

/-- What is left of a stream that ends inside a body of `length` bytes. -/
def EndsInBody (rest : Bytes) (length : ℕ) : Prop :=
  ∃ lines blank body, rest = lines.flatten ++ (blank ++ body) ∧ IsBlock lines blank ∧
    declared lines = some length ∧ body.length < length

/-! ### Header lines -/

/-- A line is read as the line it is. -/
theorem readUntil_isLine (hline : IsLine line) (h : r.stream = line ++ rest) :
    (r.readUntil lineFeed).1 = line ∧ (r.readUntil lineFeed).2.stream = rest := by
  obtain ⟨text, htext, rfl⟩ := hline
  have hfirst : firstLine lineFeed r.stream = text ++ [lineFeed] := by
    rw [h, List.append_assoc, List.singleton_append, firstLine_append_cons htext]
  rw [readUntil_line, stream_readUntil, hfirst, h]
  exact ⟨rfl, List.drop_left⟩

/-- A line is not empty. -/
theorem IsLine.ne_nil (h : IsLine line) : line ≠ [] := by
  obtain ⟨text, -, rfl⟩ := h
  exact List.concat_ne_nil _ _

/-- The beginning of a line at the end of the stream is read as it is. -/
theorem readUntil_cut (hcut : lineFeed ∉ tail) (h : r.stream = tail) :
    (r.readUntil lineFeed).1 = tail ∧ (r.readUntil lineFeed).2.stream = [] := by
  rw [readUntil_line, stream_readUntil, h, firstLine_of_not_mem hcut]
  exact ⟨rfl, List.drop_length⟩

/-- At the end of the stream the header block is given up. -/
theorem readHeaders_nil (h : r.stream = []) (contentLength : Option ℕ) :
    (readHeaders contentLength r).1 = .ended := by
  have hline : (r.readUntil lineFeed).1 = [] := (readUntil_cut List.not_mem_nil h).1
  rw [readHeaders, dif_pos hline]

/-- A blank line ends the header block. -/
theorem readHeaders_blank (hne : (r.readUntil lineFeed).1 ≠ [])
    (hblank : headerOf (r.readUntil lineFeed).1 = []) (contentLength : Option ℕ) :
    readHeaders contentLength r = (.complete contentLength, (r.readUntil lineFeed).2) := by
  rw [readHeaders, dif_neg hne, if_pos hblank]

/-- Any other line is a header line. -/
theorem readHeaders_line (hne : (r.readUntil lineFeed).1 ≠ [])
    (hheader : headerOf (r.readUntil lineFeed).1 ≠ []) (contentLength : Option ℕ) :
    readHeaders contentLength r = readHeaders
      (headerLine contentLength (headerOf (r.readUntil lineFeed).1)) (r.readUntil lineFeed).2 := by
  rw [readHeaders, dif_neg hne, if_neg hheader]

/-- Header lines are read one after another. -/
theorem readHeaders_lines (hlines : AreHeaders lines) (h : r.stream = lines.flatten ++ rest)
    (contentLength : Option ℕ) :
    ∃ after : PieceReader UInt8, after.stream = rest ∧
      readHeaders contentLength r = readHeaders (declaredFrom contentLength lines) after := by
  induction lines generalizing r contentLength with
  | nil => exact ⟨r, h, rfl⟩
  | cons line lines ih =>
    obtain ⟨⟨hline, hheader⟩, hlines⟩ := List.forall_mem_cons.mp hlines
    rw [List.flatten_cons, List.append_assoc] at h
    obtain ⟨hread, hstream⟩ := readUntil_isLine hline h
    obtain ⟨after, hafter, hheaders⟩ := ih hlines hstream (headerLine contentLength (headerOf line))
    refine ⟨after, hafter, ?_⟩
    rw [readHeaders_line (by rw [hread]; exact hline.ne_nil) (by rw [hread]; exact hheader), hread,
      hheaders]
    rfl

/-- A header block is read as what it declares. -/
theorem readHeaders_block (hblock : IsBlock lines blank)
    (h : r.stream = lines.flatten ++ (blank ++ rest)) :
    ∃ after : PieceReader UInt8, after.stream = rest ∧
      readHeaders none r = (.complete (declared lines), after) := by
  obtain ⟨before, hbefore, hheaders⟩ := readHeaders_lines hblock.headers h none
  obtain ⟨hread, hstream⟩ := readUntil_isLine hblock.line hbefore
  refine ⟨_, hstream, ?_⟩
  rw [hheaders, readHeaders_blank (by rw [hread]; exact hblock.line.ne_nil)
    (by rw [hread]; exact hblock.blank)]
  rfl

/-- A header block that the stream ends in is given up, unless what is there of its last line is
blank. -/
theorem readHeaders_cut (h : EndsInHeader r.stream lines tail) :
    if tail ≠ [] ∧ headerOf tail = [] then
      ∃ after : PieceReader UInt8, after.stream = [] ∧
        readHeaders none r = (.complete (declared lines), after)
    else (readHeaders none r).1 = .ended := by
  obtain ⟨before, hbefore, hheaders⟩ := readHeaders_lines h.headers h.parts none
  obtain ⟨hread, hstream⟩ := readUntil_cut h.cut hbefore
  rw [hheaders]
  split
  · rename_i hblank
    refine ⟨_, hstream, ?_⟩
    rw [readHeaders_blank (by rw [hread]; exact hblank.1) (by rw [hread]; exact hblank.2)]
    rfl
  · rename_i hblank
    rcases eq_or_ne tail [] with rfl | hne
    · exact readHeaders_nil hbefore _
    · have hheader : headerOf tail ≠ [] := fun h => hblank ⟨hne, h⟩
      rw [readHeaders_line (by rw [hread]; exact hne) (by rw [hread]; exact hheader)]
      exact readHeaders_nil hstream _

/-! ### What was read -/

/-- What is read of a line is one, or all that is left of the stream. -/
theorem readUntil_cases (r : PieceReader UInt8) :
    IsLine (r.readUntil lineFeed).1 ∨
      (lineFeed ∉ (r.readUntil lineFeed).1 ∧ (r.readUntil lineFeed).2.stream = []) := by
  by_cases hmem : lineFeed ∈ r.stream
  · obtain ⟨front, back, hsplit, hfront⟩ := List.eq_append_cons_of_mem hmem
    refine .inl ⟨front, hfront, ?_⟩
    rw [readUntil_line, hsplit, firstLine_append_cons hfront]
  · obtain ⟨hread, hstream⟩ := readUntil_cut hmem rfl
    exact .inr ⟨by rwa [hread], hstream⟩

/-- A header line in front of header lines. -/
theorem AreHeaders.cons (hline : IsLine line) (hheader : headerOf line ≠ [])
    (hlines : AreHeaders lines) : AreHeaders (line :: lines) :=
  List.forall_mem_cons.mpr ⟨⟨hline, hheader⟩, hlines⟩

/-- A header block is given up at the end of the stream, before a line or inside one that is not
blank. -/
theorem cut_of_readHeaders {after : PieceReader UInt8}
    (h : readHeaders contentLength r = (.ended, after)) :
    ∃ lines tail, AreHeaders lines ∧ lineFeed ∉ tail ∧ r.stream = lines.flatten ++ tail ∧
      ¬ (tail ≠ [] ∧ headerOf tail = []) := by
  fun_induction readHeaders contentLength r with
  | case1 contentLength r hend =>
    rw [readUntil_line, firstLine_eq_nil_iff] at hend
    refine ⟨[], [], by simp [AreHeaders], by simp, by rw [hend]; rfl, by simp⟩
  | case2 contentLength r hline hblank => cases h
  | case3 contentLength r hline hheader ih =>
    obtain ⟨lines, tail, hlines, hcut, hstream, hblank⟩ := ih h
    have hsplit := line_append_stream (r := r) lineFeed
    rcases readUntil_cases r with hread | ⟨hread, hnil⟩
    · refine ⟨_ :: lines, tail, hlines.cons hread hheader, hcut, ?_, hblank⟩
      rw [← hsplit, hstream, List.flatten_cons, List.append_assoc]
    · refine ⟨[], (r.readUntil lineFeed).1, by simp [AreHeaders], hread, ?_, fun h => hheader h.2⟩
      rw [← hsplit, hnil]
      simp

/-- A header block is read to a blank line, or to the end of the stream inside one. -/
theorem block_of_readHeaders {n : Option ℕ} {after : PieceReader UInt8}
    (h : readHeaders contentLength r = (.complete n, after)) :
    (∃ lines blank, IsBlock lines blank ∧ n = declaredFrom contentLength lines ∧
      r.stream = lines.flatten ++ (blank ++ after.stream)) ∨ after.stream = [] := by
  fun_induction readHeaders contentLength r with
  | case1 contentLength r hend => cases h
  | case2 contentLength r hline hblank =>
    obtain ⟨hn, rfl⟩ := Prod.mk.inj h
    rcases readUntil_cases r with hread | ⟨-, hnil⟩
    · refine .inl ⟨[], _, ⟨by simp [AreHeaders], hread, hblank⟩, (Headers.complete.inj hn).symm, ?_⟩
      exact (line_append_stream lineFeed).symm
    · exact .inr hnil
  | case3 contentLength r hline hheader ih =>
    rcases ih h with ⟨lines, blank, hblock, hn, hstream⟩ | hnil
    · have hsplit := line_append_stream (r := r) lineFeed
      rcases readUntil_cases r with hread | ⟨-, hend⟩
      · refine .inl ⟨_ :: lines, blank,
          ⟨hblock.headers.cons hread hheader, hblock.line, hblock.blank⟩, hn, ?_⟩
        rw [← hsplit, hstream, List.flatten_cons, List.append_assoc]
      · have hne := hblock.line.ne_nil
        rw [hend] at hstream
        simp [hne] at hstream
    · exact .inr hnil

/-! ### One message -/

/-- Whether a content length is more than may be allocated. -/
def Oversized (contentLength : Option ℕ) : Prop := ∃ n, contentLength = some n ∧ isizeMax < n

/-- A body that is there is read. -/
theorem readBody_body (serde : Serde V) (hmax : body.length ≤ isizeMax)
    (h : r.stream = body ++ rest) :
    ∃ after : PieceReader UInt8, after.stream = rest ∧
      readBody serde (some body.length) r =
        match serde.fromSlice body with
        | .ok value => (.message value, after)
        | .error error => (.failed ("malformed JSON body: " ++ error), after) := by
  obtain ⟨after, hread, hstream⟩ := readExact_of_le (r := r) (n := body.length) (by simp [h])
  rw [h, List.take_left] at hread
  rw [h, List.drop_left] at hstream
  refine ⟨after, hstream, ?_⟩
  cases hvalue : serde.fromSlice body <;>
    simp only [readBody, if_neg (Nat.not_lt.mpr hmax), hread, hvalue]

/-- A body that ends too soon is an error, or too large a one to ask for. -/
theorem readBody_short (serde : Serde V) {n : ℕ} (h : r.stream.length < n) :
    (isizeMax < n → (readBody serde (some n) r).1 = .aborted) ∧
      (n ≤ isizeMax → ∃ error, (readBody serde (some n) r).1 = .failed error) := by
  refine ⟨fun hmax => ?_, fun hmax => ⟨"early eof", ?_⟩⟩
  · simp only [readBody, if_pos hmax]
  · simp only [readBody, if_neg (Nat.not_lt.mpr hmax), readExact_of_lt h]

/-- Nothing is no body. -/
theorem readBody_nil (serde : Serde V) (h : r.stream = []) (contentLength : Option ℕ) :
    (Oversized contentLength → (readBody serde contentLength r).1 = .aborted) ∧
      (¬ Oversized contentLength →
        ∃ error, (readBody serde contentLength r).1 = .failed error) := by
  cases contentLength with
  | none =>
    refine ⟨fun hmax => ?_, fun _ => ⟨_, rfl⟩⟩
    obtain ⟨n, hn, -⟩ := hmax
    cases hn
  | some n =>
    have hover : Oversized (some n) ↔ isizeMax < n := by simp [Oversized]
    rw [hover, Nat.not_lt]
    rcases Nat.eq_zero_or_pos n with rfl | hpos
    · refine ⟨fun hmax => absurd hmax (Nat.not_lt_zero _), fun _ => ?_⟩
      obtain ⟨error, herror⟩ := serde.empty
      have hparts : r.stream = [] ++ [] := h
      obtain ⟨after, -, hread⟩ := readBody_body serde (Nat.zero_le _) hparts
      rw [herror] at hread
      exact ⟨_, congrArg Prod.fst hread⟩
    · exact readBody_short serde (by rwa [h])

/-- A body is never taken for the end of the stream. -/
theorem readBody_ne_ended : (readBody serde contentLength r).1 ≠ .ended := by
  cases contentLength with
  | none => simp [readBody]
  | some n =>
    by_cases hmax : isizeMax < n
    · simp [readBody, hmax]
    · cases hread : r.readExact n with
      | none =>
        simp only [readBody, if_neg hmax, hread]
        simp
      | some got =>
        simp only [readBody, if_neg hmax, hread]
        cases serde.fromSlice got.1 <;> simp

/-- A body that was read was there. -/
theorem body_of_readBody {after : PieceReader UInt8}
    (h : readBody serde contentLength r = (.message value, after)) :
    ∃ body, contentLength = some body.length ∧ body.length ≤ isizeMax ∧
      r.stream = body ++ after.stream ∧ serde.fromSlice body = .ok value := by
  cases contentLength with
  | none => cases h
  | some n =>
    rcases Nat.lt_or_ge isizeMax n with hmax | hmax
    · simp [readBody, hmax] at h
    rcases Nat.lt_or_ge r.stream.length n with hlt | hle
    · simp [readBody, Nat.not_lt.mpr hmax, readExact_of_lt hlt] at h
    · have hlength : (r.stream.take n).length = n := List.length_take_of_le hle
      obtain ⟨rest, hrest, hread⟩ := readBody_body serde (by rwa [hlength])
        (List.take_append_drop n r.stream).symm
      rw [hlength, h] at hread
      cases hvalue : serde.fromSlice (r.stream.take n) with
      | error error =>
        rw [hvalue] at hread
        cases hread
      | ok read =>
        rw [hvalue] at hread
        obtain ⟨hsame, rfl⟩ := Prod.mk.inj hread
        refine ⟨r.stream.take n, by rw [hlength], by rwa [hlength], ?_, ?_⟩
        · rw [hrest, List.take_append_drop]
        · rw [hvalue, Answer.message.inj hsame]

/-- A complete message is read. -/
theorem readMessage_frame (hframe : IsFrame serde frame value) (h : r.stream = frame ++ rest) :
    ∃ after : PieceReader UInt8, after.stream = rest ∧
      readMessage serde r = (.message value, after) := by
  obtain ⟨lines, blank, body, rfl, hblock, hlength, hmax, hvalue⟩ := hframe
  rw [List.append_assoc, List.append_assoc] at h
  obtain ⟨before, hbefore, hheaders⟩ := readHeaders_block hblock h
  obtain ⟨after, hafter, hbody⟩ := readBody_body serde hmax hbefore
  refine ⟨after, hafter, ?_⟩
  simp only [readMessage, hheaders, hlength, hbody, hvalue]

/-- A message that was read was a complete one. -/
theorem frame_of_readMessage {after : PieceReader UInt8}
    (h : readMessage serde r = (.message value, after)) :
    ∃ frame, IsFrame serde frame value ∧ r.stream = frame ++ after.stream := by
  unfold readMessage at h
  split at h
  · cases h
  · rename_i contentLength before hheaders
    obtain ⟨body, hlength, hmax, hstream, hvalue⟩ := body_of_readBody h
    rcases block_of_readHeaders hheaders with ⟨lines, blank, hblock, hdeclared, hparts⟩ | hnil
    · refine ⟨lines.flatten ++ (blank ++ body),
        ⟨lines, blank, body, rfl, hblock, hdeclared.symm.trans hlength, hmax, hvalue⟩, ?_⟩
      rw [hparts, hstream, List.append_assoc, List.append_assoc]
    · -- a body of no bytes is no JSON
      rw [hnil] at hstream
      obtain ⟨rfl, -⟩ := List.append_eq_nil_iff.mp hstream.symm
      obtain ⟨error, herror⟩ := serde.empty
      rw [herror] at hvalue
      cases hvalue

/-- The stream is taken for ended at its end, or inside a header block whose last line is not
blank. -/
theorem cut_of_readMessage (h : (readMessage serde r).1 = .ended) :
    r.stream = [] ∨ ∃ lines tail, EndsInHeader r.stream lines tail ∧
      ¬ (tail ≠ [] ∧ headerOf tail = []) := by
  unfold readMessage at h
  split at h
  · rename_i after hheaders
    obtain ⟨lines, tail, hlines, hcut, hstream, hblank⟩ := cut_of_readHeaders hheaders
    by_cases hnil : r.stream = []
    · exact .inl hnil
    · exact .inr ⟨lines, tail, ⟨hnil, hstream, hlines, hcut⟩, hblank⟩
  · rename_i contentLength before hheaders
    exact absurd h readBody_ne_ended

/-- A stream that ends inside a header block: how it is answered. -/
theorem readMessage_cut (serde : Serde V) (h : EndsInHeader r.stream lines tail) :
    (¬ (tail ≠ [] ∧ headerOf tail = []) → (readMessage serde r).1 = .ended) ∧
      (tail ≠ [] ∧ headerOf tail = [] → Oversized (declared lines) →
        (readMessage serde r).1 = .aborted) ∧
      (tail ≠ [] ∧ headerOf tail = [] → ¬ Oversized (declared lines) →
        ∃ error, (readMessage serde r).1 = .failed error) := by
  have hcut := readHeaders_cut h
  by_cases hblank : tail ≠ [] ∧ headerOf tail = []
  · rw [if_pos hblank] at hcut
    obtain ⟨after, hafter, hheaders⟩ := hcut
    have hbody := readBody_nil serde hafter (declared lines)
    simp only [readMessage, hheaders]
    exact ⟨fun hcontra => absurd hblank hcontra, fun _ => hbody.1, fun _ => hbody.2⟩
  · rw [if_neg hblank] at hcut
    refine ⟨fun _ => ?_, fun hcontra => absurd hcontra hblank, fun hcontra => absurd hcontra hblank⟩
    unfold readMessage
    cases hheaders : readHeaders none r with
    | mk headers after =>
      rw [hheaders] at hcut
      obtain rfl : headers = .ended := hcut
      rfl

/-- A stream that ends inside a body: how it is answered. -/
theorem readMessage_short {n : ℕ} (h : EndsInBody r.stream n) :
    (isizeMax < n → (readMessage serde r).1 = .aborted) ∧
      (n ≤ isizeMax → ∃ error, (readMessage serde r).1 = .failed error) := by
  obtain ⟨lines, blank, body, hstream, hblock, hlength, hshort⟩ := h
  obtain ⟨after, hafter, hheaders⟩ := readHeaders_block hblock hstream
  have hbody := readBody_short serde (r := after) (n := n) (by rwa [hafter])
  simp only [readMessage, hheaders, hlength]
  exact hbody

/-! ### One message after another -/

/-- A message is read before those behind it. -/
theorem readAll_message {after : PieceReader UInt8}
    (h : readMessage serde r = (.message value, after)) :
    readAll serde r = (value :: (readAll serde after).1, (readAll serde after).2) := by
  rw [readAll]
  split
  · rename_i other rest hread
    rw [h] at hread
    obtain ⟨hvalue, rfl⟩ := Prod.mk.inj hread
    rw [Answer.message.inj hvalue]
  all_goals
    rename_i hread
    rw [h] at hread
    cases hread

/-- What stops the reading of one message stops the reading of all. -/
theorem readAll_stop (stop : Stop)
    (h : (readMessage serde r).1 = match stop with
      | .ended => .ended
      | .failed error => .failed error
      | .aborted => .aborted) : readAll serde r = ([], stop) := by
  rw [readAll]
  split
  all_goals
    rename_i hread
    rw [hread] at h
    cases stop <;> cases h <;> rfl

/-! ### The frames that are written -/

/-- The bytes of a text are read as the text. -/
theorem headerOf_bytes (text : List Char) : headerOf (Utf8.encode text) =
    text.rdropWhile fun c => decide (c = '\r' ∨ c = '\n') := by
  rw [headerOf, Utf8.decode_encode]

/-- The digits of a number. -/
theorem toList_toString (n : ℕ) : (toString n).toList = Nat.toDigits 10 n := by
  rw [Nat.toString_eq_repr, Nat.toList_repr]

/-- A digit of a number is an ASCII digit. -/
theorem isDigit_of_mem {c : Char} {n : ℕ} (h : c ∈ Nat.toDigits 10 n) : c.isDigit = true :=
  Nat.isDigit_of_mem_toDigits (by decide) (by decide) h

/-- What holds of the ten digits holds of a digit. -/
theorem forall_digit {P : Char → Prop} (h : ∀ d ∈ "0123456789".toList, P d) {c : Char}
    (hc : c.isDigit = true) : P c := by
  have hten : ∀ n < 58, 48 ≤ n → Char.ofNat n ∈ "0123456789".toList := by decide
  obtain ⟨hlower, hupper⟩ := Char.isDigit_iff_toNat.mp hc
  have hmem := hten c.toNat (Nat.lt_succ_of_le hupper) hlower
  rw [Char.ofNat_toNat] at hmem
  exact h c hmem

/-- A number is read back. -/
theorem parseUsize_toString {n : ℕ} (h : n ≤ isizeMax) : parseUsize (toString n) = some n := by
  have hsign : (Nat.toDigits 10 n).head? ≠ some '+' := by
    intro hhead
    have hdigit := isDigit_of_mem (List.mem_of_mem_head? hhead)
    exact absurd hdigit (by decide)
  have hall : (Nat.toDigits 10 n).all Char.isDigit = true :=
    List.all_eq_true.mpr fun c hc => isDigit_of_mem hc
  have hlt : n < 1 <<< 64 := by
    have hmax : isizeMax < 1 <<< 64 := by decide
    omega
  simp only [parseUsize, toList_toString, if_neg hsign, hall, Nat.ofDigitChars_ten_toDigits]
  rw [if_neg (by simp), if_pos hlt]

/-- The header line of a body. -/
def lengthLine (n : ℕ) : List Char := "Content-Length: ".toList ++ Nat.toDigits 10 n

/-- What holds of the word and of the ten digits holds of the header line. -/
theorem forall_lengthLine {P : Char → Prop} (hword : ∀ c ∈ "Content-Length: ".toList, P c)
    (hdigits : ∀ c ∈ "0123456789".toList, P c) (n : ℕ) : ∀ c ∈ lengthLine n, P c := by
  intro c hc
  rcases List.mem_append.mp hc with hc | hc
  · exact hword c hc
  · exact forall_digit hdigits (isDigit_of_mem hc)

/-- The header line is what is left of it without its end. -/
theorem headerOf_lengthLine (n : ℕ) :
    headerOf (Utf8.encode (lengthLine n ++ ['\r', '\n'])) = lengthLine n := by
  have hkeep : ∀ c ∈ lengthLine n, ¬ (c = '\r' ∨ c = '\n') :=
    forall_lengthLine (List.all_iff_forall_prop.mp (by decide))
      (List.all_iff_forall_prop.mp (by decide)) n
  have hself : (lengthLine n).rdropWhile (fun c => decide (c = '\r' ∨ c = '\n')) =
      lengthLine n := by
    rw [List.rdropWhile_eq_self_iff]
    intro hne
    simpa using hkeep _ (List.getLast_mem hne)
  have hend : lengthLine n ++ ['\r', '\n'] = (lengthLine n ++ ['\r']) ++ ['\n'] := by simp
  rw [headerOf_bytes, hend, List.rdropWhile_concat_pos _ _ _ (by decide),
    List.rdropWhile_concat_pos _ _ _ (by decide), hself]

/-- The header line declares the length. -/
theorem headerLine_lengthLine {n : ℕ} (h : n ≤ isizeMax) (contentLength : Option ℕ) :
    headerLine contentLength (lengthLine n) = some n := by
  have hparts : lengthLine n = "Content-Length".toList ++ ':' :: ' ' :: Nat.toDigits 10 n := by
    have hsplit : "Content-Length: ".toList = "Content-Length".toList ++ [':', ' '] := rfl
    exact (congrArg (· ++ Nat.toDigits 10 n) hsplit).trans (List.append_assoc _ _ _)
  have hname : ∀ c ∈ "Content-Length".toList, decide (c ≠ ':') = true :=
    List.all_iff_forall_prop.mp (by decide)
  have htake : (lengthLine n).takeWhile (fun c => decide (c ≠ ':')) = "Content-Length".toList := by
    rw [hparts, List.takeWhile_append_of_pos hname, List.takeWhile_cons_of_neg (by decide),
      List.append_nil]
  have hdrop : (lengthLine n).dropWhile (fun c => decide (c ≠ ':')) =
      ':' :: ' ' :: Nat.toDigits 10 n := by
    rw [hparts, List.dropWhile_append_of_pos hname, List.dropWhile_cons_of_neg (by decide)]
  have hcolon : ':' ∈ lengthLine n := by
    rw [hparts]
    exact List.mem_append_right _ List.mem_cons_self
  have htrim : trim (String.ofList (' ' :: Nat.toDigits 10 n)) = toString n := by
    have hplain : ∀ c ∈ Nat.toDigits 10 n, isWhitespace c = false := fun c hc =>
      forall_digit (P := fun c => isWhitespace c = false)
        (List.all_iff_forall_prop.mp (by decide)) (isDigit_of_mem hc)
    have hfront : (' ' :: Nat.toDigits 10 n).dropWhile isWhitespace = Nat.toDigits 10 n := by
      rw [List.dropWhile_cons_of_pos (by decide), List.dropWhile_eq_self_iff]
      intro hpos
      rw [hplain _ (List.getElem_mem hpos)]
      exact Bool.false_ne_true
    have hback : (Nat.toDigits 10 n).reverse.dropWhile isWhitespace =
        (Nat.toDigits 10 n).reverse := by
      rw [List.dropWhile_eq_self_iff]
      intro hpos
      rw [hplain _ (List.mem_reverse.mp (List.getElem_mem hpos))]
      exact Bool.false_ne_true
    rw [trim, String.toList_ofList, hfront, hback, List.reverse_reverse, ← toList_toString,
      String.ofList_toList]
  have hlower : "Content-Length".toList.map Char.toLower = "content-length".toList := by decide
  simp only [headerLine, if_pos hcolon, htake, hdrop, List.tail_cons, if_pos hlower, htrim,
    parseUsize_toString h]

/-- The header line is a line. -/
theorem isLine_lengthLine (n : ℕ) : IsLine (Utf8.encode (lengthLine n ++ ['\r', '\n'])) := by
  have hword : ∀ c ∈ lengthLine n, lineFeed ∉ String.utf8EncodeChar c :=
    forall_lengthLine (List.all_iff_forall_prop.mp (by decide))
      (List.all_iff_forall_prop.mp (by decide)) n
  refine ⟨Utf8.encode (lengthLine n ++ ['\r']), ?_, ?_⟩
  · intro hmem
    obtain ⟨c, hc, hmem⟩ := List.mem_flatMap.mp hmem
    rcases List.mem_append.mp hc with hc | hc
    · exact hword c hc hmem
    · rw [List.mem_singleton.mp hc] at hmem
      revert hmem
      decide
  · have hend : Utf8.encode ['\n'] = [lineFeed] := by decide
    have hsplit : lengthLine n ++ ['\r', '\n'] = (lengthLine n ++ ['\r']) ++ ['\n'] := by simp
    rw [hsplit, Utf8.encode, List.flatMap_append, ← Utf8.encode, ← Utf8.encode, hend]

/-- A value is written as a header block and its text. -/
theorem encode_parts (serde : Serde V) (v : V) : ∃ lines blank,
    encode serde v = lines.flatten ++ (blank ++ (serde.toVec v).val) ∧ IsBlock lines blank ∧
      declared lines = some (serde.toVec v).val.length := by
  have hheader := headerOf_lengthLine (serde.toVec v).val.length
  refine ⟨[Utf8.encode (lengthLine (serde.toVec v).val.length ++ ['\r', '\n'])],
    Utf8.encode ['\r', '\n'], ?_, ⟨?_, ?_, ?_⟩, ?_⟩
  · have htext : ("Content-Length: " ++ toString (serde.toVec v).val.length ++ "\r\n\r\n").toList =
        lengthLine (serde.toVec v).val.length ++ ['\r', '\n'] ++ ['\r', '\n'] := by
      have hends : "\r\n\r\n".toList = ['\r', '\n'] ++ ['\r', '\n'] := by decide
      rw [String.toList_append, String.toList_append, toList_toString, hends]
      exact (List.append_assoc (lengthLine _) _ _).symm
    rw [encode, bytesOf, htext, Utf8.encode, List.flatMap_append, ← Utf8.encode, ← Utf8.encode,
      List.flatten_singleton, List.append_assoc]
  · intro line hline
    rw [List.mem_singleton.mp hline, hheader]
    refine ⟨isLine_lengthLine _, ?_⟩
    exact List.append_ne_nil_of_left_ne_nil (by decide) _
  · exact ⟨[13], by decide, by decide⟩
  · rw [headerOf_bytes]
    decide
  · rw [declared, declaredFrom, List.foldl_cons, List.foldl_nil, hheader,
      headerLine_lengthLine (serde.toVec v).property]

/-- The frame of a value is read as what its text is read back as. -/
theorem readMessage_encode {v : V} (h : r.stream = encode serde v ++ rest) :
    ∃ after : PieceReader UInt8, after.stream = rest ∧
      readMessage serde r =
        match serde.fromSlice (serde.toVec v).val with
        | .ok value => (.message value, after)
        | .error error => (.failed ("malformed JSON body: " ++ error), after) := by
  obtain ⟨lines, blank, hencode, hblock, hlength⟩ := encode_parts serde v
  rw [hencode, List.append_assoc, List.append_assoc] at h
  obtain ⟨before, hbefore, hheaders⟩ := readHeaders_block hblock h
  obtain ⟨after, hafter, hbody⟩ := readBody_body serde (serde.toVec v).property hbefore
  refine ⟨after, hafter, ?_⟩
  simp only [readMessage, hheaders, hlength, hbody]

/-! ### How a stream is read -/

/-- Values are read back from their frames exactly when `serde_json` reads back each. -/
theorem readBack_iff {values : List V} (h : r.stream = values.flatMap (encode serde)) :
    readAll serde r = (values, .ended) ↔
      ∀ v ∈ values, serde.fromSlice (serde.toVec v).val = .ok v := by
  induction values generalizing r with
  | nil =>
    have hend : (readMessage serde r).1 = .ended := by
      have hheaders := readHeaders_nil h none
      unfold readMessage
      cases hread : readHeaders none r with
      | mk headers after =>
        rw [hread] at hheaders
        obtain rfl : headers = .ended := hheaders
        rfl
    exact iff_of_true (readAll_stop .ended hend) (by simp)
  | cons v values ih =>
    obtain ⟨after, hafter, hread⟩ := readMessage_encode (v := v) h
    rw [List.forall_mem_cons]
    cases hvalue : serde.fromSlice (serde.toVec v).val with
    | error error =>
      rw [hvalue] at hread
      rw [readAll_stop (.failed ("malformed JSON body: " ++ error)) (congrArg Prod.fst hread)]
      exact iff_of_false (fun hsame => by cases hsame) fun hsame => by cases hsame.1
    | ok value =>
      rw [hvalue] at hread
      rw [readAll_message hread, Except.ok.injEq, ← ih hafter]
      constructor
      · intro hsame
        obtain ⟨hvalues, hstop⟩ := Prod.mk.inj hsame
        obtain ⟨hhead, htail⟩ := List.cons.inj hvalues
        exact ⟨hhead, Prod.ext htail hstop⟩
      · rintro ⟨rfl, hsame⟩
        rw [hsame]

/-- Behind complete messages reading stops as it stops on what is left. -/
theorem stop_frames {frames : List Bytes} (hframes : AreFrames serde frames)
    (h : r.stream = frames.flatten ++ rest) :
    ∃ after : PieceReader UInt8, after.stream = rest ∧
      (readAll serde r).2 = (readAll serde after).2 := by
  induction frames generalizing r with
  | nil => exact ⟨r, h, rfl⟩
  | cons frame frames ih =>
    obtain ⟨⟨value, hframe⟩, hframes⟩ := List.forall_mem_cons.mp hframes
    rw [List.flatten_cons, List.append_assoc] at h
    obtain ⟨next, hnext, hread⟩ := readMessage_frame hframe h
    obtain ⟨after, hafter, hstop⟩ := ih hframes hnext
    exact ⟨after, hafter, by rw [readAll_message hread, hstop]⟩

/-- A stream that is taken for ended is complete messages, and may be cut inside a header block
behind them. -/
theorem parts_of_ended (h : (readAll serde r).2 = .ended) :
    ∃ frames rest, r.stream = frames.flatten ++ rest ∧ AreFrames serde frames ∧
      (rest = [] ∨ ∃ lines tail, EndsInHeader rest lines tail ∧
        ¬ (tail ≠ [] ∧ headerOf tail = [])) := by
  fun_induction readAll serde r with
  | case1 r value after hread ih =>
    obtain ⟨frame, hframe, hstream⟩ := frame_of_readMessage hread
    obtain ⟨frames, rest, hafter, hframes, hrest⟩ := ih h
    refine ⟨frame :: frames, rest, ?_, ?_, hrest⟩
    · rw [hstream, hafter, List.flatten_cons, List.append_assoc]
    · exact List.forall_mem_cons.mpr ⟨⟨value, hframe⟩, hframes⟩
  | case2 r after hread =>
    exact ⟨[], r.stream, rfl, by simp [AreFrames], cut_of_readMessage (congrArg Prod.fst hread)⟩
  | case3 r error after hread => cases h
  | case4 r after hread => cases h

/-! ### When a stream is read as it should be -/

/-- Values are read back from their frames, and then the stream ends; a stream that ends inside a
header block or a body ends in an error; and one that is taken for ended is complete messages. -/
structure Framed (serde : Serde V) (r : PieceReader UInt8) : Prop where
  readBack : ∀ values : List V, r.stream = values.flatMap (encode serde) →
    readAll serde r = (values, .ended)
  midMessage : ∀ frames rest, r.stream = frames.flatten ++ rest → AreFrames serde frames →
    (∃ lines tail, EndsInHeader rest lines tail) ∨ (∃ n, EndsInBody rest n) →
    ∃ error, (readAll serde r).2 = .failed error
  boundary : (readAll serde r).2 = .ended →
    ∃ frames, r.stream = frames.flatten ∧ AreFrames serde frames

/-- The streams that are read as they should be: the values are those that `serde_json` reads
back; the stream ends inside a header block only in the blank line, before its line feed; and no
message that it ends in declares more than may be allocated. -/
structure EndsClean (serde : Serde V) (r : PieceReader UInt8) : Prop where
  values : ∀ values : List V, r.stream = values.flatMap (encode serde) →
    ∀ v ∈ values, serde.fromSlice (serde.toVec v).val = .ok v
  header : ∀ frames rest lines tail, r.stream = frames.flatten ++ rest → AreFrames serde frames →
    EndsInHeader rest lines tail →
    (tail ≠ [] ∧ headerOf tail = []) ∧ ¬ Oversized (declared lines)
  body : ∀ frames rest n, r.stream = frames.flatten ++ rest → AreFrames serde frames →
    EndsInBody rest n → n ≤ isizeMax

/-- What reading stops with when it stops at once. -/
theorem stop_of_readMessage {after : PieceReader UInt8}
    (h : (readAll serde r).2 = (readAll serde after).2) :
    ((readMessage serde after).1 = .ended → (readAll serde r).2 = .ended) ∧
      ((readMessage serde after).1 = .aborted → (readAll serde r).2 = .aborted) ∧
      ∀ error, (readMessage serde after).1 = .failed error →
        (readAll serde r).2 = .failed error := by
  rw [h]
  refine ⟨fun hend => ?_, fun habort => ?_, fun error hfail => ?_⟩
  · rw [readAll_stop .ended hend]
  · rw [readAll_stop .aborted habort]
  · rw [readAll_stop (.failed error) hfail]

/-- A stream in pieces is read as it should be exactly when it ends as it may. -/
theorem framed_iff (serde : Serde V) (r : PieceReader UInt8) :
    Framed serde r ↔ EndsClean serde r := by
  constructor
  · intro h
    refine ⟨fun values hvalues => (readBack_iff hvalues).mp (h.readBack values hvalues), ?_, ?_⟩
    · intro frames rest lines tail hstream hframes hcut
      obtain ⟨error, herror⟩ := h.midMessage frames rest hstream hframes (.inl ⟨lines, tail, hcut⟩)
      obtain ⟨after, rfl, hstop⟩ := stop_frames hframes hstream
      obtain ⟨hended, haborted, -⟩ := stop_of_readMessage hstop
      obtain ⟨hend, habort, -⟩ := readMessage_cut serde hcut
      have hblank : tail ≠ [] ∧ headerOf tail = [] := by
        by_contra hnot
        rw [hended (hend hnot)] at herror
        cases herror
      refine ⟨hblank, fun hover => ?_⟩
      rw [haborted (habort hblank hover)] at herror
      cases herror
    · intro frames rest n hstream hframes hshort
      obtain ⟨error, herror⟩ := h.midMessage frames rest hstream hframes (.inr ⟨n, hshort⟩)
      obtain ⟨after, rfl, hstop⟩ := stop_frames hframes hstream
      obtain ⟨-, haborted, -⟩ := stop_of_readMessage hstop
      by_contra hnot
      rw [haborted ((readMessage_short hshort).1 (Nat.lt_of_not_le hnot))] at herror
      cases herror
  · intro h
    refine ⟨fun values hvalues => (readBack_iff hvalues).mpr (h.values values hvalues), ?_, ?_⟩
    · intro frames rest hstream hframes hrest
      obtain ⟨after, rfl, hstop⟩ := stop_frames hframes hstream
      obtain ⟨-, -, hfailed⟩ := stop_of_readMessage hstop
      rcases hrest with ⟨lines, tail, hcut⟩ | ⟨n, hshort⟩
      · obtain ⟨hblank, hover⟩ := h.header frames _ lines tail hstream hframes hcut
        obtain ⟨error, herror⟩ := (readMessage_cut serde hcut).2.2 hblank hover
        exact ⟨error, hfailed error herror⟩
      · obtain ⟨error, herror⟩ :=
          (readMessage_short hshort).2 (h.body frames _ n hstream hframes hshort)
        exact ⟨error, hfailed error herror⟩
    · intro hended
      obtain ⟨frames, rest, hstream, hframes, rfl | ⟨lines, tail, hcut, hblank⟩⟩ :=
        parts_of_ended hended
      · exact ⟨frames, by rw [hstream, List.append_nil], hframes⟩
      · exact absurd (h.header frames rest lines tail hstream hframes hcut).1 hblank

/-- Truth values in JSON. -/
def truthSerde : Serde Bool where
  toVec value := if value then ⟨bytesOf "true", by decide⟩ else ⟨bytesOf "false", by decide⟩
  fromSlice bytes :=
    if bytes = bytesOf "true" then .ok true
    else if bytes = bytesOf "false" then .ok false
    else .error "expected value"
  empty := ⟨"expected value", by decide⟩

/-- A header line at which a stream may end. -/
def cutLine : Piece UInt8 := ⟨bytesOf "Content-Length: 4\r\n", by decide⟩

/-- A stream that ends behind a header line is taken for ended. -/
theorem cut_taken_for_end : ¬ Framed truthSerde ⟨[], [cutLine]⟩ := by
  have hstream : (⟨[], [cutLine]⟩ : PieceReader UInt8).stream = cutLine.val := by
    simp [stream]
  have hcut : EndsInHeader cutLine.val [cutLine.val] [] := by
    refine ⟨cutLine.property, by simp, ?_, List.not_mem_nil⟩
    intro line hline
    rw [List.mem_singleton.mp hline]
    exact ⟨⟨bytesOf "Content-Length: 4\r", by decide, by decide⟩, by decide +kernel⟩
  have hend : (readMessage truthSerde ⟨[], [cutLine]⟩).1 = .ended := by
    rw [← hstream] at hcut
    exact (readMessage_cut truthSerde hcut).1 (by simp)
  intro h
  obtain ⟨error, herror⟩ := h.midMessage [] cutLine.val hstream (by simp [AreFrames])
    (.inl ⟨_, _, hcut⟩)
  rw [readAll_stop .ended hend] at herror
  cases herror

end RemoteWorkspace.Analysis.WireFraming
