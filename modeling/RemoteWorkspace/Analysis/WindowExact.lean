import RemoteWorkspace.Analysis.CollectedComplete

/-!
# The bounded window

The loop of `push` is over when what is retained is within the cap, which takes at most one turn
for each chunk and one in which part of a chunk goes. So a push always ends, and the window is
the last bytes of all that was pushed; a read is what the stream holds from its offset on, or
from the first retained byte.
-/

set_option autoImplicit false

namespace RemoteWorkspace.Analysis.WindowExact

open RemoteWorkspace.Computation RemoteWorkspace.Model.CollectedOutput
open RemoteWorkspace.Analysis.CollectedComplete

/-! ### The loop -/

/-- The window when its loop is over. -/
def trimmed (w : Window) : Window :=
  { w with
    chunks := (Window.trim w.maxBytes w.chunks w.retained w.dropped).1
    retained := (Window.trim w.maxBytes w.chunks w.retained w.dropped).2.1
    dropped := (Window.trim w.maxBytes w.chunks w.retained w.dropped).2.2 }

/-- A window within its cap. -/
theorem turn_within {w : Window} (h : w.retained ≤ w.maxBytes) : w.turn = none :=
  if_neg (Nat.not_lt.mpr h)

/-- The loop is over at once. -/
theorem loop_of_turn {w : Window} (h : w.turn = none) {fuel : ℕ} (hfuel : 0 < fuel) :
    Window.loop fuel w = some w := by
  obtain ⟨fuel, rfl⟩ := Nat.exists_eq_succ_of_ne_zero (Nat.pos_iff_ne_zero.mp hfuel)
  rw [Window.loop, h]

/-- The loop goes on. -/
theorem loop_succ {w w' : Window} (h : w.turn = some w') (fuel : ℕ) :
    Window.loop (fuel + 1) w = Window.loop fuel w' := by
  rw [Window.loop, h]

/-- The loop ends, with what the recursion on the chunks makes of the window. -/
theorem loop_eq_trimmed (chunks : List Bytes) : ∀ (w : Window) (fuel : ℕ), w.chunks = chunks →
    chunks.length + 2 ≤ fuel → Window.loop fuel w = some (trimmed w) := by
  induction chunks with
  | nil =>
    intro w fuel hchunks hfuel
    have hturn : w.turn = none := by
      rw [Window.turn, hchunks]
      split <;> rfl
    rw [loop_of_turn hturn (by omega), trimmed, hchunks, Window.trim, ← hchunks]
  | cons head rest ih =>
    intro w fuel hchunks hfuel
    rw [List.length_cons] at hfuel
    by_cases hmany : w.maxBytes < w.retained
    · obtain ⟨fuel, rfl⟩ : ∃ n, fuel = n + 1 := ⟨fuel - 1, by omega⟩
      by_cases hhead : head.length ≤ w.retained - w.maxBytes
      · -- the whole first chunk goes
        have hturn : w.turn = some { w with
            chunks := rest
            retained := w.retained - head.length
            dropped := w.dropped + head.length } := by
          rw [Window.turn, if_pos hmany, hchunks]
          exact if_pos hhead
        rw [loop_succ hturn, ih _ _ rfl (by omega), trimmed, trimmed, hchunks, Window.trim,
          if_pos hmany, if_pos hhead]
      · -- part of it goes, and what is left is within the cap
        have hturn : w.turn = some { w with
            chunks := head.drop (w.retained - w.maxBytes) :: rest
            retained := w.retained - (w.retained - w.maxBytes)
            dropped := w.dropped + (w.retained - w.maxBytes) } := by
          rw [Window.turn, if_pos hmany, hchunks]
          exact if_neg hhead
        rw [loop_succ hturn, loop_of_turn (turn_within (by dsimp only; omega)) (by omega), trimmed,
          hchunks, Window.trim, if_pos hmany, if_neg hhead]
    · rw [loop_of_turn (turn_within (Nat.le_of_not_lt hmany)) (by omega), trimmed, hchunks,
        Window.trim, if_neg hmany, ← hchunks]

/-- A push ends: the loop does, and with the window that `push` says. -/
theorem loop_receive (w : Window) (chunk : Bytes) {fuel : ℕ} (h : w.chunks.length + 3 ≤ fuel) :
    Window.loop fuel (w.receive chunk) = some (w.push chunk) := by
  rw [loop_eq_trimmed (w.chunks ++ [chunk]) (w.receive chunk) fuel rfl]
  · rfl
  · rw [List.length_append, List.length_singleton]
    exact h

/-! ### The window -/

/-- A read from any offset, the end of the stream and past it included. -/
theorem read_holds {w : Window} {cap : ℕ} {stream : Bytes} (h : WindowHolds w cap stream)
    (fromByte : ℕ) : w.read fromByte =
      (stream.drop (max fromByte w.dropped), stream.length, decide (fromByte < w.dropped)) := by
  have htail : w.chunks.flatten = stream.drop w.dropped := by
    rw [h.chunks, h.dropped]
    rfl
  unfold Window.read
  rw [htail, h.total]
  by_cases hlossy : fromByte < w.dropped
  · simp only [decide_eq_true hlossy, if_true, List.drop_zero]
    rw [Nat.max_eq_right (Nat.le_of_lt hlossy)]
  · have hretained : w.retained = (stream.drop w.dropped).length := by
      rw [h.retained, h.dropped]
      rfl
    simp only [decide_eq_false hlossy, Bool.false_eq_true, if_false]
    rw [hretained, ← List.drop_eq_drop_min, List.drop_drop, Nat.max_eq_left (Nat.le_of_not_lt hlossy),
      Nat.add_sub_cancel' (Nat.le_of_not_lt hlossy)]

/-- For every cap and every chunks that were pushed: the window is the last bytes of what was
pushed, its counters account for all of it, the next push ends, and a read answers with what the
stream holds from its offset, or from the first retained byte, and says which. -/
theorem window_exact (cap : ℕ) (chunks : List Bytes) :
    let w := chunks.foldl Window.push (Window.new cap)
    let stream := chunks.flatten
    w.chunks.flatten = stream.drop (stream.length - min stream.length cap) ∧
      w.retained = w.chunks.flatten.length ∧
      w.total = stream.length ∧ w.dropped + w.retained = w.total ∧
      (∀ chunk fuel, w.chunks.length + 3 ≤ fuel →
        Window.loop fuel (w.receive chunk) = some (w.push chunk)) ∧
      ∀ fromByte, w.read fromByte =
        (stream.drop (max fromByte w.dropped), w.total, decide (fromByte < w.dropped)) := by
  intro w stream
  have h : WindowHolds w cap stream := windowHolds_foldl cap chunks
  have hmin : stream.length - min stream.length cap = stream.length - cap := by omega
  refine ⟨?_, ?_, h.total, ?_, fun chunk fuel => loop_receive w chunk, fun fromByte => ?_⟩
  · rw [h.chunks, hmin]
    rfl
  · rw [h.retained, h.chunks]
  · rw [h.dropped, h.retained, length_tailOf, h.total]
    omega
  · rw [h.total]
    exact read_holds h fromByte

end RemoteWorkspace.Analysis.WindowExact
