import RemoteWorkspace.Computation.Base64
import RemoteWorkspace.Computation.Utf8

/-!
# Collected output

The two bounded windows on one collected stream: the daemon's `StreamBuffer`
(agent/src/execution.rs:22-101), which the readers push to, and the client's
`CollectedMirror` (plugin/routing/subprocess.ts:106-187), which `drain` fills from
`sp.readOutput` once the child's exit was waited for. The bytes travel in base64.

Offsets are byte coordinates of the whole stream in both.
-/

set_option autoImplicit false

namespace RemoteWorkspace.Model.CollectedOutput

open RemoteWorkspace.Computation

abbrev Bytes := List UInt8

/-! ### The daemon's window -/

/-- The retained tail and the counters that place it in the whole stream. -/
structure Window where
  chunks : List Bytes
  retained : ℕ
  dropped : ℕ
  total : ℕ
  maxBytes : ℕ
  deriving DecidableEq

/-- `StreamBuffer::new`. -/
def Window.new (maxBytes : ℕ) : Window := ⟨[], 0, 0, 0, maxBytes⟩

/-- The loop of `push`, on the chunks from the front: while too much is retained, the first
chunk goes, or the excess of it, after which no more than the cap is left. -/
def Window.trim (maxBytes : ℕ) : List Bytes → ℕ → ℕ → List Bytes × ℕ × ℕ
  | [], retained, dropped => ([], retained, dropped)
  | head :: rest, retained, dropped =>
    if maxBytes < retained then
      let excess := retained - maxBytes
      if head.length ≤ excess then
        trim maxBytes rest (retained - head.length) (dropped + head.length)
      else (head.drop excess :: rest, retained - excess, dropped + excess)
    else (head :: rest, retained, dropped)

/-- Append captured bytes, keeping only the last `maxBytes` of them. -/
def Window.push (w : Window) (chunk : Bytes) : Window :=
  let trimmed :=
    Window.trim w.maxBytes (w.chunks ++ [chunk]) (w.retained + chunk.length) w.dropped
  { w with
    chunks := trimmed.1
    retained := trimmed.2.1
    dropped := trimmed.2.2
    total := w.total + chunk.length }

/-- A chunk at the end of the window, before anything is trimmed. -/
def Window.receive (w : Window) (chunk : Bytes) : Window :=
  { w with
    total := w.total + chunk.length
    chunks := w.chunks ++ [chunk]
    retained := w.retained + chunk.length }

/-- One turn of the loop of `push`; `none` when the loop is over. -/
def Window.turn (w : Window) : Option Window :=
  if w.maxBytes < w.retained then
    match w.chunks with
    | [] => none
    | head :: rest =>
      let excess := w.retained - w.maxBytes
      if head.length ≤ excess then
        some { w with
          chunks := rest
          retained := w.retained - head.length
          dropped := w.dropped + head.length }
      else
        some { w with
          chunks := head.drop excess :: rest
          retained := w.retained - excess
          dropped := w.dropped + excess }
  else none

/-- The loop of `push`, for at most `fuel` looks at its condition. -/
def Window.loop : ℕ → Window → Option Window
  | 0, _ => none
  | fuel + 1, w =>
    match w.turn with
    | none => some w
    | some w => Window.loop fuel w

/-- Read the retained window from a whole-stream offset. -/
def Window.read (w : Window) (fromByte : ℕ) : Bytes × ℕ × Bool :=
  let lossy := decide (fromByte < w.dropped)
  let skip := if lossy then 0 else min (fromByte - w.dropped) w.retained
  (w.chunks.flatten.drop skip, w.total, lossy)

/-- What `sp.readOutput` answers. -/
structure ReadOutput where
  data : List Char
  nextOffset : ℕ
  lossy : Bool
  deriving DecidableEq

/-- `read_output`. -/
def readOutput (w : Window) (fromByte : ℕ) : ReadOutput :=
  let (bytes, nextOffset, lossy) := w.read fromByte
  ⟨Base64.encode bytes, nextOffset, lossy⟩

/-! ### The client's mirror -/

/-- One stream's local mirror of the daemon's retained window. -/
structure CollectedMirror where
  chunks : List Bytes
  start : ℕ
  stop : ℕ
  dropped : Bool
  maxBytes : ℕ
  deriving DecidableEq

/-- A mirror that holds nothing yet. -/
def CollectedMirror.new (maxBytes : ℕ) : CollectedMirror := ⟨[], 0, 0, false, maxBytes⟩

/-- Replace the mirror with the window's tail. -/
def CollectedMirror.reset (m : CollectedMirror) (bytes : Bytes) (nextOffset : ℕ) :
    CollectedMirror :=
  { m with
    chunks := if bytes = [] then [] else [bytes]
    start := nextOffset - bytes.length
    stop := nextOffset
    dropped := true }

/-- The loop of `push`, on the chunks from the front. -/
def CollectedMirror.trim (maxBytes stop : ℕ) :
    List Bytes → ℕ → Bool → List Bytes × ℕ × Bool
  | [], start, dropped => ([], start, dropped)
  | head :: rest, start, dropped =>
    if maxBytes < stop - start then
      let overflow := stop - start - maxBytes
      if head.length ≤ overflow then trim maxBytes stop rest (start + head.length) true
      else (head.drop overflow :: rest, start + overflow, true)
    else (head :: rest, start, dropped)

/-- Append one fetched window and trim the head to the cap. -/
def CollectedMirror.push (m : CollectedMirror) (bytes : Bytes) : CollectedMirror :=
  if bytes = [] then m
  else
    let stop := m.stop + bytes.length
    let trimmed := trim m.maxBytes stop (m.chunks ++ [bytes]) m.start m.dropped
    { m with
      chunks := trimmed.1
      start := trimmed.2.1
      stop
      dropped := trimmed.2.2 }

/-- The whole-stream offset a caller should resume from. -/
def CollectedMirror.nextOffset (m : CollectedMirror) : ℕ := m.stop

/-- What a read of the mirror answers. -/
structure OutputRead where
  text : List Char
  nextOffset : ℕ
  lossy : Bool
  deriving DecidableEq

/-- Read everything captured since `fromByte`. -/
def CollectedMirror.readFrom (m : CollectedMirror) (fromByte : ℕ) : OutputRead :=
  if fromByte < m.start then ⟨Utf8.decode m.chunks.flatten, m.stop, true⟩
  else if m.stop ≤ fromByte then ⟨[], m.stop, m.dropped⟩
  else ⟨Utf8.decode (m.chunks.flatten.drop (fromByte - m.start)), m.stop, m.dropped⟩

/-- Fetch every remaining byte of one stream until the daemon stops advancing, with at most
`requests` requests; `none` when the loop wants more. -/
def drain (w : Window) : ℕ → CollectedMirror → Option CollectedMirror
  | 0, _ => none
  | requests + 1, m =>
    let answer := readOutput w m.nextOffset
    let bytes := Base64.decode answer.data
    if answer.lossy = false ∧ bytes = [] then some m
    else
      let m := if answer.lossy then m.reset bytes answer.nextOffset else m.push bytes
      if answer.nextOffset ≤ m.nextOffset then some m else drain w requests m

end RemoteWorkspace.Model.CollectedOutput
