import Mathlib.Tactic.Common

/-!
# The tail of a stream kept in chunks

A stream arrives in chunks, and only its last elements are kept: what is too much goes from
the front, whole chunks first and then a part of one. What a queue of chunks holds is their
concatenation, and the tail of a stream is what is left of it without its first elements.
-/

set_option autoImplicit false

namespace RemoteWorkspace.Computation

variable {α : Type}

/-- Take `n` elements off the front of a queue of chunks. -/
def dropFront : ℕ → List (List α) → List (List α)
  | _, [] => []
  | n, head :: rest =>
    if n = 0 then head :: rest
    else if head.length ≤ n then dropFront (n - head.length) rest
    else head.drop n :: rest

/-- The last `cap` elements of a stream. -/
def tailOf (cap : ℕ) (stream : List α) : List α := stream.drop (stream.length - cap)

/-- Taking elements off a queue takes them off what it holds. -/
theorem flatten_dropFront (n : ℕ) (chunks : List (List α)) :
    (dropFront n chunks).flatten = chunks.flatten.drop n := by
  induction chunks generalizing n with
  | nil => simp [dropFront]
  | cons head rest ih =>
    unfold dropFront
    split
    · rename_i hn
      rw [hn, List.drop_zero]
    · split
      · rename_i hle
        rw [ih, List.flatten_cons, List.drop_append, List.drop_eq_nil_of_le hle,
          List.nil_append]
      · rename_i hlt
        rw [List.flatten_cons, List.flatten_cons, List.drop_append_of_le_length (by omega)]

/-- A tail is as long as the cap or the stream. -/
theorem length_tailOf (cap : ℕ) (stream : List α) :
    (tailOf cap stream).length = min cap stream.length := by
  rw [tailOf, List.length_drop]
  omega

/-- The tail of a longer stream, from the tail so far and what arrived: what is too much of
the two together goes from the front. -/
theorem tailOf_append (cap : ℕ) (stream chunk : List α) :
    tailOf cap (stream ++ chunk) =
      (tailOf cap stream ++ chunk).drop ((tailOf cap stream).length + chunk.length - cap) := by
  have hlen := length_tailOf cap stream
  rw [tailOf, tailOf, List.drop_append, List.drop_append, List.drop_drop]
  unfold tailOf at hlen
  rw [hlen, List.length_append]
  congr 2 <;> omega

end RemoteWorkspace.Computation
