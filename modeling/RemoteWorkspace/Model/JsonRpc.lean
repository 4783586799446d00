import Mathlib.Data.List.DropRight
import RemoteWorkspace.Computation.PieceReader
import RemoteWorkspace.Computation.Utf8
import RemoteWorkspace.Model.EnsureAgent

/-!
# Frames on the wire

`encode` and `read_message` (agent/src/jsonrpc.rs), and the daemon's loop that reads one message
after another (agent/src/server.rs:78-82). A message is a block of header lines, a blank line, and
as many bytes of JSON as a header declares. `serde_json` is taken as it is documented.
-/

set_option autoImplicit false

namespace RemoteWorkspace.Model.JsonRpc

open RemoteWorkspace.Computation RemoteWorkspace.Computation.PieceReader
open RemoteWorkspace.Model.EnsureAgent (trim)

abbrev Bytes := List UInt8

/-- `isize::MAX`: how many bytes an allocation may have. -/
def isizeMax : ℕ := (1 <<< 63) - 1

/-- The bytes of a text. -/
def bytesOf (text : String) : Bytes := Utf8.encode text.toList

/-- `serde_json`: how a value is written and how one is read. Nothing is no JSON. -/
structure Serde (V : Type) where
  toVec : V → {bytes : Bytes // bytes.length ≤ isizeMax}
  fromSlice : Bytes → Except String V
  empty : ∃ error, fromSlice [] = .error error

/-- `encode`: frame one JSON value the way the plugin's reader expects it. -/
def encode {V : Type} (serde : Serde V) (value : V) : Bytes :=
  let body := (serde.toVec value).val
  bytesOf ("Content-Length: " ++ toString body.length ++ "\r\n\r\n") ++ body

/-! ### Headers -/

/-- The byte that ends a line. -/
def lineFeed : UInt8 := 10

/-- A line without its end: `from_utf8_lossy` and `trim_end_matches(['\r', '\n'])`. -/
def headerOf (line : Bytes) : List Char :=
  (Utf8.decode line).rdropWhile fun c => decide (c = '\r' ∨ c = '\n')

/-- `str::parse::<usize>`. -/
def parseUsize (text : String) : Option ℕ :=
  let digits := if text.toList.head? = some '+' then text.toList.tail else text.toList
  if digits = [] ∨ ¬ digits.all Char.isDigit then none
  else
    let n := Nat.ofDigitChars 10 digits 0
    if n < 1 <<< 64 then some n else none

/-- What a header line says of the content length, after what the lines before it said. -/
def headerLine (contentLength : Option ℕ) (header : List Char) : Option ℕ :=
  if ':' ∈ header then
    let name := header.takeWhile fun c => decide (c ≠ ':')
    let value := (header.dropWhile fun c => decide (c ≠ ':')).tail
    if name.map Char.toLower = "content-length".toList then parseUsize (trim (String.ofList value))
    else contentLength
  else contentLength

/-- How the loop over the header lines ends: at the end of the stream, or at a blank line. -/
inductive Headers where
  | ended
  | complete (contentLength : Option ℕ)
  deriving DecidableEq

/-- The loop over the header lines. -/
def readHeaders (contentLength : Option ℕ) (r : PieceReader UInt8) : Headers × PieceReader UInt8 :=
  if _h : (r.readUntil lineFeed).1 = [] then (.ended, (r.readUntil lineFeed).2)
  else if headerOf (r.readUntil lineFeed).1 = [] then
    (.complete contentLength, (r.readUntil lineFeed).2)
  else
    readHeaders (headerLine contentLength (headerOf (r.readUntil lineFeed).1))
      (r.readUntil lineFeed).2
termination_by r.stream.length
decreasing_by exact stream_readUntil_lt _h

/-! ### Messages -/

/-- How `read_message` ends: with a message, with `None`, with an error; or the daemon aborts on
an allocation that may not be. -/
inductive Answer (V : Type) where
  | message (value : V)
  | ended
  | failed (error : String)
  | aborted
  deriving DecidableEq

/-- The body behind a header block. -/
def readBody {V : Type} (serde : Serde V) (contentLength : Option ℕ) (r : PieceReader UInt8) :
    Answer V × PieceReader UInt8 :=
  match contentLength with
  | none => (.failed "message carried no usable Content-Length header", r)
  | some length =>
    if isizeMax < length then (.aborted, r)
    else
      match r.readExact length with
      | none => (.failed "early eof", ⟨[], []⟩)
      | some (body, rest) =>
        match serde.fromSlice body with
        | .ok value => (.message value, rest)
        | .error error => (.failed ("malformed JSON body: " ++ error), rest)

/-- `read_message`: read one framed message. -/
def readMessage {V : Type} (serde : Serde V) (r : PieceReader UInt8) :
    Answer V × PieceReader UInt8 :=
  match readHeaders none r with
  | (.ended, rest) => (.ended, rest)
  | (.complete contentLength, rest) => readBody serde contentLength rest

/-! ### One message after another -/

/-- A header block leaves less to read. -/
theorem readHeaders_lt {contentLength n : Option ℕ} {r rest : PieceReader UInt8}
    (h : readHeaders contentLength r = (.complete n, rest)) :
    rest.stream.length < r.stream.length := by
  fun_induction readHeaders contentLength r with
  | case1 contentLength r hend => cases h
  | case2 contentLength r hline hblank =>
    obtain ⟨-, rfl⟩ := Prod.mk.inj h
    exact stream_readUntil_lt hline
  | case3 contentLength r hline hheader ih => exact (ih h).trans (stream_readUntil_lt hline)

/-- A body that was read leaves no more than there was. -/
theorem readBody_le {V : Type} {serde : Serde V} {contentLength : Option ℕ} {value : V}
    {r rest : PieceReader UInt8} (h : readBody serde contentLength r = (.message value, rest)) :
    rest.stream.length ≤ r.stream.length := by
  unfold readBody at h
  cases contentLength with
  | none => cases h
  | some length =>
    by_cases hmax : isizeMax < length
    · simp [hmax] at h
    rcases Nat.lt_or_ge r.stream.length length with hlt | hle
    · simp [hmax, readExact_of_lt hlt] at h
    · obtain ⟨after, hread, hstream⟩ := readExact_of_le hle
      simp only [hmax, if_false, hread] at h
      have hrest : rest = after := by
        split at h <;> exact (Prod.mk.inj h).2.symm
      rw [hrest, hstream, List.length_drop]
      exact Nat.sub_le _ _

/-- A message leaves less to read. -/
theorem readMessage_lt {V : Type} {serde : Serde V} {value : V} {r rest : PieceReader UInt8}
    (h : readMessage serde r = (.message value, rest)) :
    rest.stream.length < r.stream.length := by
  unfold readMessage at h
  split at h
  · cases h
  · rename_i contentLength after hheaders
    exact (readBody_le h).trans_lt (readHeaders_lt hheaders)

/-- How reading one message after another stops. -/
inductive Stop where
  | ended
  | failed (error : String)
  | aborted
  deriving DecidableEq

/-- `read_message`, until it returns no message. -/
def readAll {V : Type} (serde : Serde V) (r : PieceReader UInt8) : List V × Stop :=
  match _h : readMessage serde r with
  | (.message value, rest) => (value :: (readAll serde rest).1, (readAll serde rest).2)
  | (.ended, _) => ([], .ended)
  | (.failed error, _) => ([], .failed error)
  | (.aborted, _) => ([], .aborted)
termination_by r.stream.length
decreasing_by all_goals exact readMessage_lt _h

end RemoteWorkspace.Model.JsonRpc
