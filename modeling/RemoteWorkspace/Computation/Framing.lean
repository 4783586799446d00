import Mathlib.Order.Bounds.Defs
import Mathlib.Tactic.Common

/-!
# Frames behind their length

A frame is a payload behind its length, the most significant byte of which comes first. A stream
of frames that is cut anywhere is the frames that end before the cut, and then the beginning of
the next one.
-/

set_option autoImplicit false

namespace RemoteWorkspace.Computation.Framing

/-- The low `width` bytes of a number, the most significant first. -/
def toBeBytes : ℕ → ℕ → List UInt8
  | 0, _ => []
  | width + 1, n => UInt8.ofNat (n >>> (8 * width)) :: toBeBytes width n

/-- The number that bytes make, the most significant first. -/
def fromBeBytes : List UInt8 → ℕ
  | [] => 0
  | byte :: bytes => byte.toNat <<< (8 * bytes.length) + fromBeBytes bytes

/-- A payload behind its length. -/
def frame (width : ℕ) (payload : List UInt8) : List UInt8 :=
  toBeBytes width payload.length ++ payload

/-- Payloads, each behind its length. -/
def frames (width : ℕ) (payloads : List (List UInt8)) : List UInt8 :=
  (payloads.map (frame width)).flatten

/-! ### Numbers as bytes -/

theorem length_toBeBytes (width n : ℕ) : (toBeBytes width n).length = width := by
  induction width with
  | zero => rfl
  | succ width ih => rw [toBeBytes, List.length_cons, ih]

/-- Of a number the bytes keep what they can hold. -/
theorem fromBeBytes_toBeBytes (width n : ℕ) :
    fromBeBytes (toBeBytes width n) = n % 1 <<< (8 * width) := by
  induction width with
  | zero => exact (Nat.mod_one n).symm
  | succ width ih =>
    have hsplit : 1 <<< (8 * (width + 1)) = 1 <<< (8 * width) * 256 := by
      rw [Nat.mul_succ, Nat.shiftLeft_eq, Nat.shiftLeft_eq, Nat.pow_add]
      omega
    have hbyte : (UInt8.ofNat (n >>> (8 * width))).toNat = n / 1 <<< (8 * width) % 256 := by
      rw [UInt8.toNat_ofNat', Nat.shiftRight_eq_div_pow, Nat.shiftLeft_eq, Nat.one_mul]
    rw [toBeBytes, fromBeBytes, length_toBeBytes, ih, hbyte, hsplit, Nat.mod_mul, Nat.shiftLeft_eq,
      Nat.shiftLeft_eq, Nat.one_mul]
    exact (Nat.add_comm _ _).trans (congrArg _ (Nat.mul_comm _ _))

/-- A number that the bytes can hold. -/
theorem fromBeBytes_toBeBytes_of_lt {width n : ℕ} (h : n < 1 <<< (8 * width)) :
    fromBeBytes (toBeBytes width n) = n :=
  (fromBeBytes_toBeBytes width n).trans (Nat.mod_eq_of_lt h)

/-! ### Streams of frames -/

section Streams

variable {width : ℕ} {payload : List UInt8} {payloads : List (List UInt8)}

theorem length_frame : (frame width payload).length = width + payload.length := by
  rw [frame, List.length_append, length_toBeBytes]

theorem take_frame : (frame width payload).take width = toBeBytes width payload.length :=
  List.take_left' (length_toBeBytes width _)

@[simp] theorem frames_nil : frames width [] = [] := rfl

@[simp] theorem frames_cons :
    frames width (payload :: payloads) = frame width payload ++ frames width payloads := rfl

/-- How many of the frames end before a cut. -/
def Ends (width cut : ℕ) (payloads : List (List UInt8)) (n : ℕ) : Prop :=
  IsGreatest {m | m ≤ payloads.length ∧ (frames width (payloads.take m)).length ≤ cut} n

/-- The beginning of a frame that is not all of it. -/
def Begun (width : ℕ) (payload part : List UInt8) : Prop :=
  part <+: frame width payload ∧ part.length < width + payload.length

/-- A first frame behind the cut. -/
theorem ends_cons_of_lt {cut : ℕ} (h : cut < width + payload.length) :
    Ends width cut (payload :: payloads) 0 := by
  refine ⟨⟨Nat.zero_le _, Nat.zero_le _⟩, ?_⟩
  rintro (_ | m) ⟨_, hm⟩
  · exact Nat.le_refl 0
  · rw [List.take_succ_cons, frames_cons, List.length_append, length_frame] at hm
    omega

/-- A first frame before the cut. -/
theorem ends_cons_of_le {cut n : ℕ} (h : width + payload.length ≤ cut)
    (hn : Ends width (cut - (width + payload.length)) payloads n) :
    Ends width cut (payload :: payloads) (n + 1) := by
  obtain ⟨⟨hle, hfits⟩, hmost⟩ := hn
  refine ⟨⟨Nat.succ_le_succ hle, ?_⟩, ?_⟩
  · rw [List.take_succ_cons, frames_cons, List.length_append, length_frame]
    omega
  · rintro (_ | m) ⟨hm, hcut⟩
    · exact Nat.zero_le _
    · rw [List.take_succ_cons, frames_cons, List.length_append, length_frame] at hcut
      exact Nat.succ_le_succ (hmost ⟨Nat.le_of_succ_le_succ hm, by omega⟩)

/-- What is left of a stream of frames that is cut: the frames that end before the cut, and then
nothing or the beginning of the next. -/
theorem take_frames (width cut : ℕ) (payloads : List (List UInt8)) :
    ∃ n part, Ends width cut payloads n ∧
      (frames width payloads).take cut = frames width (payloads.take n) ++ part ∧
      (part = [] ∨ ∃ payload ∈ payloads, Begun width payload part) := by
  induction payloads generalizing cut with
  | nil =>
    refine ⟨0, [], ⟨⟨Nat.le_refl 0, Nat.zero_le cut⟩, fun m hm => hm.1⟩, ?_, .inl rfl⟩
    exact List.take_nil
  | cons payload payloads ih =>
    rcases Nat.lt_or_ge cut (width + payload.length) with hlt | hle
    · refine ⟨0, (frame width payload).take cut, ends_cons_of_lt hlt, ?_,
        .inr ⟨payload, List.mem_cons_self, List.take_prefix _ _, ?_⟩⟩
      · rw [frames_cons, List.take_append_of_le_length (by rw [length_frame]; omega)]
        rfl
      · rw [List.length_take, length_frame]
        omega
    · obtain ⟨n, part, hends, htake, hpart⟩ := ih (cut - (width + payload.length))
      refine ⟨n + 1, part, ends_cons_of_le hle hends, ?_, hpart.imp_right ?_⟩
      · rw [frames_cons, List.take_append, length_frame, htake,
          List.take_of_length_le (by rw [length_frame]; exact hle), List.take_succ_cons,
          frames_cons, List.append_assoc]
      · rintro ⟨next, hnext, hbegun⟩
        exact ⟨next, List.mem_cons_of_mem _ hnext, hbegun⟩

end Streams

end RemoteWorkspace.Computation.Framing
