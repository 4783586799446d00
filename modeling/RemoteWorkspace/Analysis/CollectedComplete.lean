import Mathlib.Data.List.Induction
import RemoteWorkspace.Computation.ChunkQueue
import RemoteWorkspace.Model.CollectedOutput

/-!
# Two windows on one stream

The daemon's window and the client's mirror both hold the tail of a stream: each is trimmed
from the front to the same cap. One answer of the daemon brings a mirror that holds a first
part of the stream to the whole of it, by appending what is missing or, when that has slid
out of the window, by starting over from the tail.
-/

set_option autoImplicit false

namespace RemoteWorkspace.Analysis.CollectedComplete

open RemoteWorkspace.Computation RemoteWorkspace.Model.CollectedOutput

/-! ### The daemon's window -/

/-- The window holds the tail of a stream. -/
structure WindowHolds (w : Window) (cap : ℕ) (stream : Bytes) : Prop where
  maxBytes : w.maxBytes = cap
  chunks : w.chunks.flatten = tailOf cap stream
  retained : w.retained = (tailOf cap stream).length
  dropped : w.dropped = stream.length - cap
  total : w.total = stream.length

/-- The loop of `push` takes what is too much off the front. -/
theorem window_trim (cap : ℕ) (chunks : List Bytes) (dropped : ℕ) :
    Window.trim cap chunks chunks.flatten.length dropped =
      (dropFront (chunks.flatten.length - cap) chunks, min chunks.flatten.length cap,
        dropped + (chunks.flatten.length - cap)) := by
  induction chunks generalizing dropped with
  | nil => simp [Window.trim, dropFront]
  | cons head rest ih =>
    have hlen : (head :: rest).flatten.length = head.length + rest.flatten.length := by simp
    unfold Window.trim dropFront
    by_cases hmany : cap < (head :: rest).flatten.length
    · have hne : (head :: rest).flatten.length - cap ≠ 0 := by omega
      rw [if_pos hmany, if_neg hne]
      by_cases hhead : head.length ≤ (head :: rest).flatten.length - cap
      · have hrest : (head :: rest).flatten.length - head.length = rest.flatten.length := by omega
        have hmore : (head :: rest).flatten.length - cap - head.length =
            rest.flatten.length - cap := by omega
        simp only [if_pos hhead]
        rw [hrest, ih, hmore]
        refine Prod.ext rfl (Prod.ext ?_ ?_)
        · show min rest.flatten.length cap = min (head :: rest).flatten.length cap
          omega
        · show dropped + head.length + (rest.flatten.length - cap) =
            dropped + ((head :: rest).flatten.length - cap)
          omega
      · simp only [if_neg hhead]
        refine Prod.ext rfl (Prod.ext ?_ rfl)
        show (head :: rest).flatten.length - ((head :: rest).flatten.length - cap) =
          min (head :: rest).flatten.length cap
        omega
    · have hzero : (head :: rest).flatten.length - cap = 0 := by omega
      rw [if_neg hmany, hzero, if_pos rfl, Nat.add_zero, Nat.min_eq_left (by omega)]

/-- A window that holds nothing. -/
theorem windowHolds_new (cap : ℕ) : WindowHolds (Window.new cap) cap [] := by
  refine ⟨rfl, ?_, ?_, ?_, rfl⟩
  · simp [Window.new, tailOf]
  · simp [Window.new, tailOf]
  · simp [Window.new]

/-- A push extends the stream whose tail is held. -/
theorem windowHolds_push {w : Window} {cap : ℕ} {stream : Bytes} (h : WindowHolds w cap stream)
    (chunk : Bytes) : WindowHolds (w.push chunk) cap (stream ++ chunk) := by
  have hflat : (w.chunks ++ [chunk]).flatten = tailOf cap stream ++ chunk := by
    rw [List.flatten_append, h.chunks]
    simp
  have hlen : (w.chunks ++ [chunk]).flatten.length = w.retained + chunk.length := by
    rw [hflat, List.length_append, h.retained]
  have htrim := window_trim cap (w.chunks ++ [chunk]) w.dropped
  rw [hlen] at htrim
  have htail := length_tailOf cap stream
  unfold Window.push
  rw [h.maxBytes, htrim]
  refine ⟨rfl, ?_, ?_, ?_, ?_⟩
  · show (dropFront (w.retained + chunk.length - cap) (w.chunks ++ [chunk])).flatten = _
    rw [flatten_dropFront, hflat, tailOf_append, h.retained]
  · show min (w.retained + chunk.length) cap = _
    rw [length_tailOf, List.length_append, h.retained]
    omega
  · show w.dropped + (w.retained + chunk.length - cap) = _
    rw [List.length_append, h.retained, h.dropped]
    omega
  · show w.total + chunk.length = _
    rw [List.length_append, h.total]

/-- Pushes extend the stream whose tail is held. -/
theorem windowHolds_pushes {w : Window} {cap : ℕ} {stream : Bytes} (h : WindowHolds w cap stream)
    (chunks : List Bytes) :
    WindowHolds (chunks.foldl Window.push w) cap (stream ++ chunks.flatten) := by
  induction chunks generalizing w stream with
  | nil => simpa using h
  | cons chunk chunks ih =>
    have hnext := ih (windowHolds_push h chunk)
    rw [List.append_assoc] at hnext
    exact hnext

/-- A window holds the tail of all that was pushed. -/
theorem windowHolds_foldl (cap : ℕ) (chunks : List Bytes) :
    WindowHolds (chunks.foldl Window.push (Window.new cap)) cap chunks.flatten :=
  windowHolds_pushes (windowHolds_new cap) chunks

/-! ### The client's mirror -/

/-- The mirror holds the tail of a stream, and knows whether that is all of it. -/
structure MirrorHolds (m : CollectedMirror) (cap : ℕ) (stream : Bytes) : Prop where
  maxBytes : m.maxBytes = cap
  chunks : m.chunks.flatten = tailOf cap stream
  start : m.start = stream.length - cap
  stop : m.stop = stream.length
  dropped : m.dropped = decide (cap < stream.length)

/-- The loop of the mirror's `push` takes what is too much off the front. -/
theorem mirror_trim (cap : ℕ) (chunks : List Bytes) (start : ℕ) (dropped : Bool) :
    CollectedMirror.trim cap (start + chunks.flatten.length) chunks start dropped =
      (dropFront (chunks.flatten.length - cap) chunks, start + (chunks.flatten.length - cap),
        dropped || decide (cap < chunks.flatten.length)) := by
  induction chunks generalizing start dropped with
  | nil => simp [CollectedMirror.trim, dropFront]
  | cons head rest ih =>
    have hlen : (head :: rest).flatten.length = head.length + rest.flatten.length := by simp
    have hheld : start + (head :: rest).flatten.length - start =
        (head :: rest).flatten.length := by omega
    unfold CollectedMirror.trim dropFront
    rw [hheld]
    by_cases hmany : cap < (head :: rest).flatten.length
    · have hne : (head :: rest).flatten.length - cap ≠ 0 := by omega
      rw [if_pos hmany, if_neg hne]
      by_cases hhead : head.length ≤ (head :: rest).flatten.length - cap
      · have hstop : start + (head :: rest).flatten.length =
            start + head.length + rest.flatten.length := by omega
        have hmore : (head :: rest).flatten.length - cap - head.length =
            rest.flatten.length - cap := by omega
        simp only [if_pos hhead]
        rw [hstop, ih, hmore]
        refine Prod.ext rfl (Prod.ext ?_ ?_)
        · show start + head.length + (rest.flatten.length - cap) =
            start + ((head :: rest).flatten.length - cap)
          omega
        · show (true || decide (cap < rest.flatten.length)) =
            (dropped || decide (cap < (head :: rest).flatten.length))
          rw [decide_eq_true hmany, Bool.or_true, Bool.true_or]
      · simp only [if_neg hhead]
        rw [decide_eq_true hmany, Bool.or_true]
    · have hzero : (head :: rest).flatten.length - cap = 0 := by omega
      rw [if_neg hmany, hzero, if_pos rfl, Nat.add_zero, decide_eq_false hmany, Bool.or_false]

/-- A mirror that holds nothing. -/
theorem mirrorHolds_new (cap : ℕ) : MirrorHolds (CollectedMirror.new cap) cap [] := by
  refine ⟨rfl, ?_, ?_, rfl, ?_⟩
  · simp [CollectedMirror.new, tailOf]
  · simp [CollectedMirror.new]
  · simp [CollectedMirror.new]

/-- A push extends the stream whose tail is held. -/
theorem mirrorHolds_push {m : CollectedMirror} {cap : ℕ} {stream bytes : Bytes}
    (h : MirrorHolds m cap stream) : MirrorHolds (m.push bytes) cap (stream ++ bytes) := by
  unfold CollectedMirror.push
  split
  · rename_i hempty
    rw [hempty, List.append_nil]
    exact h
  · have hflat : (m.chunks ++ [bytes]).flatten = tailOf cap stream ++ bytes := by
      rw [List.flatten_append, h.chunks]
      simp
    have htail := length_tailOf cap stream
    have hlen : (m.chunks ++ [bytes]).flatten.length = min cap stream.length + bytes.length := by
      rw [hflat, List.length_append, htail]
    have hstop : m.stop + bytes.length = m.start + (m.chunks ++ [bytes]).flatten.length := by
      rw [hlen, h.start, h.stop]
      omega
    have htrim := mirror_trim cap (m.chunks ++ [bytes]) m.start m.dropped
    rw [← hstop] at htrim
    extract_lets stop trimmed
    have htrimmed : trimmed =
        (dropFront ((m.chunks ++ [bytes]).flatten.length - cap) (m.chunks ++ [bytes]),
          m.start + ((m.chunks ++ [bytes]).flatten.length - cap),
          m.dropped || decide (cap < (m.chunks ++ [bytes]).flatten.length)) := by
      show CollectedMirror.trim m.maxBytes (m.stop + bytes.length) _ _ _ = _
      rw [h.maxBytes]
      exact htrim
    refine ⟨h.maxBytes, ?_, ?_, ?_, ?_⟩
    · show trimmed.1.flatten = _
      rw [htrimmed, flatten_dropFront, hflat, tailOf_append, List.length_append]
    · show trimmed.2.1 = _
      rw [htrimmed]
      show m.start + ((m.chunks ++ [bytes]).flatten.length - cap) = _
      rw [List.length_append, h.start, hlen]
      omega
    · show m.stop + bytes.length = _
      rw [h.stop, List.length_append]
    · show trimmed.2.2 = _
      rw [htrimmed]
      show (m.dropped || decide (cap < (m.chunks ++ [bytes]).flatten.length)) = _
      rw [h.dropped, hlen, List.length_append, ← Bool.decide_or, decide_eq_decide]
      omega

/-- A tail that does not follow on what the mirror holds replaces it. -/
theorem mirrorHolds_reset {m : CollectedMirror} {cap : ℕ} {stream : Bytes}
    (hmax : m.maxBytes = cap) (hlost : cap < stream.length) :
    MirrorHolds (m.reset (tailOf cap stream) stream.length) cap stream := by
  have htail := length_tailOf cap stream
  refine ⟨hmax, ?_, ?_, rfl, ?_⟩
  · unfold CollectedMirror.reset
    split
    · rename_i hempty
      simp [hempty]
    · simp
  · show stream.length - (tailOf cap stream).length = _
    rw [htail]
    omega
  · simp [CollectedMirror.reset, hlost]

/-! ### Draining -/

/-- What the daemon answers to an offset of the stream. -/
theorem readOutput_eq {w : Window} {cap : ℕ} {stream : Bytes} (h : WindowHolds w cap stream)
    {fromByte : ℕ} (hfrom : fromByte ≤ stream.length) :
    Base64.decode (readOutput w fromByte).data =
        (if fromByte < stream.length - cap then tailOf cap stream else stream.drop fromByte) ∧
      (readOutput w fromByte).nextOffset = stream.length ∧
      (readOutput w fromByte).lossy = decide (fromByte < stream.length - cap) := by
  have htail := length_tailOf cap stream
  unfold readOutput Window.read
  refine ⟨?_, h.total, ?_⟩
  · rw [Base64.decode_encode, h.chunks, h.dropped, h.retained, htail]
    by_cases hlossy : fromByte < stream.length - cap
    · simp [hlossy]
    · rw [if_neg (by simpa using hlossy), if_neg hlossy, tailOf, List.drop_drop]
      congr 1
      omega
  · rw [h.dropped]

/-- A drain brings a mirror that holds a first part of a stream to the whole of it, with one
request. -/
theorem drain_holds {w : Window} {cap : ℕ} {first rest : Bytes} {m : CollectedMirror}
    (hw : WindowHolds w cap (first ++ rest)) (hm : MirrorHolds m cap first) (requests : ℕ) :
    ∃ m', drain w (requests + 1) m = some m' ∧ MirrorHolds m' cap (first ++ rest) := by
  have hfrom : m.nextOffset = first.length := hm.stop
  have hle : m.nextOffset ≤ (first ++ rest).length := by
    rw [hfrom, List.length_append]
    exact Nat.le_add_right _ _
  obtain ⟨hbytes, hnext, hlossy⟩ := readOutput_eq hw hle
  unfold drain
  extract_lets answer bytes next
  by_cases hlost : m.nextOffset < (first ++ rest).length - cap
  · rw [if_pos hlost] at hbytes
    have htold : answer.lossy = true := hlossy.trans (decide_eq_true hlost)
    have hreset : MirrorHolds (m.reset bytes answer.nextOffset) cap (first ++ rest) := by
      rw [show bytes = _ from hbytes, show answer.nextOffset = _ from hnext]
      exact mirrorHolds_reset hm.maxBytes (by omega)
    refine ⟨_, ?_, hreset⟩
    have hreplace : next = m.reset bytes answer.nextOffset := if_pos htold
    rw [if_neg (by simp [htold]), hreplace]
    exact if_pos (Nat.le_refl _)
  · rw [if_neg hlost] at hbytes
    have htold : answer.lossy = false := hlossy.trans (decide_eq_false hlost)
    have hrest : bytes = rest := by
      show Base64.decode answer.data = rest
      rw [hbytes, hfrom, List.drop_left]
    by_cases hempty : rest = []
    · refine ⟨m, ?_, ?_⟩
      · exact if_pos ⟨htold, hrest.trans hempty⟩
      · rw [hempty, List.append_nil]
        exact hm
    · have hpush : MirrorHolds (m.push rest) cap (first ++ rest) := mirrorHolds_push hm
      refine ⟨m.push rest, ?_, hpush⟩
      have hextend : next = m.push rest := by
        show (if answer.lossy then m.reset bytes answer.nextOffset else m.push bytes) = _
        rw [htold, hrest]
        exact if_neg (by decide)
      have hdone : answer.nextOffset ≤ (m.push rest).nextOffset := by
        exact Nat.le_of_eq (hnext.trans hpush.stop.symm)
      rw [if_neg (by simp [hrest, hempty]), hextend]
      exact if_pos hdone

/-- A read from the start reports a loss exactly when the stream is longer than the cap. -/
theorem readFrom_zero_lossy {m : CollectedMirror} {cap : ℕ} {stream : Bytes}
    (h : MirrorHolds m cap stream) : (m.readFrom 0).lossy = true ↔ cap < stream.length := by
  unfold CollectedMirror.readFrom
  rw [h.start, h.stop, h.dropped]
  split
  · simp
    omega
  · split
    · simp
    · simp

/-- For every cap and every sequence of chunks pushed to the daemon's window, one request
drains it: the mirror then holds the last bytes of the stream, as many as the cap allows, its
next offset is the length of the stream, and a read from the start is lossy exactly when the
stream is longer than the cap. -/
theorem collected_complete (cap : ℕ) (chunks : List Bytes) (requests : ℕ) :
    ∃ m, drain (chunks.foldl Window.push (Window.new cap)) (requests + 1)
        (CollectedMirror.new cap) = some m ∧
      m.chunks.flatten =
        chunks.flatten.drop (chunks.flatten.length - min cap chunks.flatten.length) ∧
      m.nextOffset = chunks.flatten.length ∧
      ((m.readFrom 0).lossy = true ↔ cap < chunks.flatten.length) := by
  have hw := windowHolds_foldl cap chunks
  rw [← List.nil_append chunks.flatten] at hw
  obtain ⟨m, hdrain, hm⟩ := drain_holds hw (mirrorHolds_new cap) requests
  rw [List.nil_append] at hm
  refine ⟨m, hdrain, ?_, hm.stop, readFrom_zero_lossy hm⟩
  rw [hm.chunks, tailOf]
  congr 1
  omega

/-! ### Reads of the mirror -/

/-- A window and a mirror that were fed the same stream: by pushes delivered to both, and by
pushes to the window that a drain of the mirror has fetched. -/
inductive Fed (cap : ℕ) : Window → CollectedMirror → Prop
  | new : Fed cap (Window.new cap) (CollectedMirror.new cap)
  | push {w : Window} {m : CollectedMirror} (chunk : Bytes) (h : Fed cap w m) :
    Fed cap (w.push chunk) (m.push chunk)
  | drained {w : Window} {m m' : CollectedMirror} (chunks : List Bytes) (requests : ℕ)
    (h : Fed cap w m)
    (hdrain : drain (chunks.foldl Window.push w) (requests + 1) m = some m') :
    Fed cap (chunks.foldl Window.push w) m'

/-- A read of the mirror is the decoding of the daemon's read, with the same next offset, and is
lossy exactly when the offset lies before the first retained byte. -/
def ReadsAlike (w : Window) (m : CollectedMirror) (fromByte : ℕ) : Prop :=
  (m.readFrom fromByte).text = Utf8.decode (w.read fromByte).1 ∧
    (m.readFrom fromByte).nextOffset = (w.read fromByte).2.1 ∧
    ((m.readFrom fromByte).lossy = true ↔ fromByte < w.dropped)

/-- Both hold the tail of one stream. -/
theorem Fed.holds {cap : ℕ} {w : Window} {m : CollectedMirror} (h : Fed cap w m) :
    ∃ stream, WindowHolds w cap stream ∧ MirrorHolds m cap stream := by
  induction h with
  | new => exact ⟨[], windowHolds_new cap, mirrorHolds_new cap⟩
  | push chunk _ ih =>
    obtain ⟨stream, hw, hm⟩ := ih
    exact ⟨stream ++ chunk, windowHolds_push hw chunk, mirrorHolds_push hm⟩
  | drained chunks requests _ hdrain ih =>
    obtain ⟨stream, hw, hm⟩ := ih
    have hw' := windowHolds_pushes hw chunks
    obtain ⟨m', hm', hholds⟩ := drain_holds hw' hm requests
    obtain rfl := Option.some.inj (hdrain.symm.trans hm')
    exact ⟨stream ++ chunks.flatten, hw', hholds⟩

/-- Pushes delivered to both feed them the same stream. -/
theorem fed_foldl (cap : ℕ) (chunks : List Bytes) :
    Fed cap (chunks.foldl Window.push (Window.new cap))
      (chunks.foldl CollectedMirror.push (CollectedMirror.new cap)) := by
  induction chunks using List.reverseRecOn with
  | nil => exact .new
  | append_singleton chunks chunk ih =>
    rw [List.foldl_concat, List.foldl_concat]
    exact .push chunk ih

/-- What the daemon reads, from any offset of the stream. -/
theorem read_eq {w : Window} {cap : ℕ} {stream : Bytes} (h : WindowHolds w cap stream)
    {fromByte : ℕ} (hfrom : fromByte ≤ stream.length) :
    (w.read fromByte).1 =
      if fromByte < stream.length - cap then tailOf cap stream else stream.drop fromByte := by
  have hdata := (readOutput_eq h hfrom).1
  rw [readOutput, Base64.decode_encode] at hdata
  exact hdata

/-- What the mirror reads, from any offset of the stream. A loss is reported for every offset
once a byte was dropped. -/
theorem readFrom_eq {m : CollectedMirror} {cap : ℕ} {stream : Bytes}
    (h : MirrorHolds m cap stream) (fromByte : ℕ) :
    (m.readFrom fromByte).text = Utf8.decode
        (if fromByte < stream.length - cap then tailOf cap stream else stream.drop fromByte) ∧
      (m.readFrom fromByte).nextOffset = stream.length ∧
      ((m.readFrom fromByte).lossy = true ↔ cap < stream.length) := by
  unfold CollectedMirror.readFrom
  rw [h.start, h.stop, h.dropped, h.chunks]
  by_cases hlost : fromByte < stream.length - cap
  · rw [if_pos hlost, if_pos hlost]
    refine ⟨rfl, rfl, iff_of_true rfl ?_⟩
    omega
  · rw [if_neg hlost, if_neg hlost]
    by_cases hend : stream.length ≤ fromByte
    · rw [if_pos hend, List.drop_eq_nil_of_le hend]
      exact ⟨rfl, rfl, decide_eq_true_iff⟩
    · have hdrop : (tailOf cap stream).drop (fromByte - (stream.length - cap)) =
          stream.drop fromByte := by
        rw [tailOf, List.drop_drop]
        congr 1
        omega
      rw [if_neg hend, hdrop]
      exact ⟨rfl, rfl, decide_eq_true_iff⟩

/-- A read of the mirror is the daemon's read exactly when nothing was dropped yet, or when the
offset lies before the first retained byte: behind it the mirror goes on to report the loss. -/
theorem reads_alike_iff {cap : ℕ} {w : Window} {m : CollectedMirror} (h : Fed cap w m)
    {fromByte : ℕ} (hfrom : fromByte ≤ w.total) :
    ReadsAlike w m fromByte ↔ w.total ≤ cap ∨ fromByte < w.total - cap := by
  obtain ⟨stream, hw, hm⟩ := h.holds
  rw [hw.total] at hfrom ⊢
  obtain ⟨htext, hnext, hlossy⟩ := readFrom_eq hm fromByte
  have hbytes := read_eq hw hfrom
  have hsame : (m.readFrom fromByte).text = Utf8.decode (w.read fromByte).1 := by
    rw [htext, hbytes]
  have hoffset : (m.readFrom fromByte).nextOffset = (w.read fromByte).2.1 := by
    rw [hnext]
    exact hw.total.symm
  unfold ReadsAlike
  rw [hlossy, hw.dropped]
  constructor
  · rintro ⟨-, -, hiff⟩
    by_cases hcap : cap < stream.length
    · exact .inr (hiff.mp hcap)
    · exact .inl (Nat.le_of_not_lt hcap)
  · intro hcase
    refine ⟨hsame, hoffset, ?_⟩
    omega

/-- Three bytes pushed to both, with a cap of two: the read from the start is the daemon's. -/
theorem reads_alike_three : ReadsAlike ([[97, 98, 99]].foldl Window.push (Window.new 2))
    ([[97, 98, 99]].foldl CollectedMirror.push (CollectedMirror.new 2)) 0 :=
  (reads_alike_iff (fed_foldl 2 [[97, 98, 99]]) (by decide)).mpr (.inr (by decide))

/-- The read from the first retained byte reports a loss of which the daemon knows nothing. -/
theorem loss_reported_twice : ¬ ReadsAlike ([[97, 98, 99]].foldl Window.push (Window.new 2))
    ([[97, 98, 99]].foldl CollectedMirror.push (CollectedMirror.new 2)) 1 := by
  rintro ⟨-, -, hlossy⟩
  exact absurd (hlossy.mp (by decide)) (by decide)

end RemoteWorkspace.Analysis.CollectedComplete
