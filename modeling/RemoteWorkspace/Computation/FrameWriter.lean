import Mathlib.Data.List.Basic
import Mathlib.Tactic.Common
import RemoteWorkspace.Computation.Machine

/-!
# A bounded queue that one writer drains

Frames go through one queue to one writer, which takes them in order and writes each of them piece
by piece. An order to finish goes through the same queue. The writer ends behind that order, or
where a write fails, and what is queued behind its end is dropped.

The log of all frames that were ever queued is history. `Sound` relates it to what was written:
what was written is a prefix of the frames of the log, and a writer that was ended by the order
has written the frames that were queued before the order, and no others.
-/

set_option autoImplicit false

namespace RemoteWorkspace.Computation

/-- How far a writer is: it waits for a frame, has the rest of one to write, is past its last
write, or is gone with the receiving end of its queue. -/
inductive WriterPhase (β : Type) where
  | receiving
  | writing (rest : List β)
  | finishing
  | gone
  deriving DecidableEq

/-- What is left to write of a frame, while the writer serves its queue. -/
def WriterPhase.rest {β : Type} : WriterPhase β → Option (List β)
  | .receiving => some []
  | .writing rest => some rest
  | .finishing => none
  | .gone => none

/-- A queue and its writer. An order to finish is no frame. `log`, `stopped` and `broken` are
history: the frames that were queued, how many were when the order was, and whether a write
failed. -/
structure FrameWriter (φ β : Type) where
  queue : List (Option φ)
  phase : WriterPhase β
  written : List β
  log : List φ
  stopped : Option ℕ
  broken : Bool
  deriving DecidableEq

namespace FrameWriter

variable {φ β : Type}

/-- Nothing queued yet. -/
def empty : FrameWriter φ β := ⟨[], .receiving, [], [], none, false⟩

/-- Whether the receiving end of the queue is gone. -/
def isGone (w : FrameWriter φ β) : Bool :=
  match w.phase with
  | .gone => true
  | _ => false

/-- Whether another command finds room. -/
def hasRoom (capacity : ℕ) (w : FrameWriter φ β) : Bool :=
  !w.isGone && decide (w.queue.length < capacity)

/-- A frame is queued. -/
def push (frame : φ) (w : FrameWriter φ β) : FrameWriter φ β :=
  { w with queue := w.queue ++ [some frame], log := w.log ++ [frame] }

/-- The order to finish is queued. -/
def stop (w : FrameWriter φ β) : FrameWriter φ β :=
  { w with queue := w.queue ++ [none], stopped := some w.log.length }

/-- What a writer does by itself. -/
inductive Move where
  | take
  | write (n : ℕ)
  | flush
  | fail
  | drop
  deriving DecidableEq

variable (encode : φ → List β)

/-- One move of the writer; `none` when it cannot happen. -/
def move (w : FrameWriter φ β) : Move → Option (FrameWriter φ β)
  | .take =>
    match w.phase, w.queue with
    | .receiving, some frame :: queue => some { w with queue := queue, phase := .writing (encode frame) }
    | .receiving, none :: queue => some { w with queue := queue, phase := .finishing }
    | _, _ => none
  | .write n =>
    match w.phase with
    | .writing rest =>
      if 0 < n ∧ n ≤ rest.length then
        some { w with phase := .writing (rest.drop n), written := w.written ++ rest.take n }
      else none
    | _ => none
  | .flush =>
    match w.phase with
    | .writing [] => some { w with phase := .receiving }
    | _ => none
  | .fail =>
    match w.phase with
    | .writing _ => some { w with phase := .finishing, broken := true }
    | _ => none
  | .drop =>
    match w.phase with
    | .finishing => some { w with phase := .gone, queue := [] }
    | _ => none

/-! ### What a writer has written -/

/-- How the queue of a writer that serves it relates to the log. -/
inductive Pending (w : FrameWriter φ β) (rest : List β) : Prop
  /-- No order to finish yet: all frames of the log are written or still to come. -/
  | running (pending : List φ) (hstopped : w.stopped = none) (hqueue : w.queue = pending.map some)
      (hlog : w.log.flatMap encode = w.written ++ rest ++ pending.flatMap encode)
  /-- An order to finish behind the frames that were queued before it. -/
  | stopping (pending later : List φ) (k : ℕ) (hstopped : w.stopped = some k)
      (hqueue : w.queue = pending.map some ++ none :: later.map some)
      (hlog : (w.log.take k).flatMap encode = w.written ++ rest ++ pending.flatMap encode)

/-- What holds of a writer and its queue. -/
structure Sound (w : FrameWriter φ β) : Prop where
  pending : ∀ rest, w.phase.rest = some rest → Pending encode w rest
  unbroken : w.phase.rest.isSome → w.broken = false
  ended : w.phase.rest = none → w.broken = false →
    ∃ k, w.stopped = some k ∧ w.written = (w.log.take k).flatMap encode
  bound : ∀ k, w.stopped = some k → k ≤ w.log.length
  written : w.written <+: w.log.flatMap encode
  dropped : w.phase = .gone → w.queue = []

variable {encode} {w : FrameWriter φ β}

theorem sound_empty : Sound encode (empty : FrameWriter φ β) where
  pending rest h := by
    obtain rfl : [] = rest := Option.some.inj h
    exact .running [] rfl rfl rfl
  unbroken _ := rfl
  ended h := nomatch h
  bound _ h := nomatch h
  written := List.prefix_rfl
  dropped h := nomatch h

/-- The frames of a part of the log are a prefix of all. -/
theorem flatMap_take_isPrefix (log : List φ) (k : ℕ) :
    (log.take k).flatMap encode <+: log.flatMap encode := by
  conv_rhs => rw [← List.take_append_drop k log]
  rw [List.flatMap_append]
  exact List.prefix_append _ _

theorem Sound.push (h : Sound encode w) (hgone : w.isGone = false) (frame : φ) :
    Sound encode (w.push frame) := by
  have hflat : (w.push frame).log.flatMap encode = w.log.flatMap encode ++ encode frame := by
    simp [FrameWriter.push]
  constructor
  · intro rest hrest
    cases h.pending rest hrest with
    | running pending hstopped hqueue hlog =>
      refine .running (pending ++ [frame]) hstopped ?_ ?_
      · simp [FrameWriter.push, hqueue]
      · rw [hflat, hlog]
        simp [FrameWriter.push]
    | stopping pending later k hstopped hqueue hlog =>
      refine .stopping pending (later ++ [frame]) k hstopped ?_ ?_
      · simp [FrameWriter.push, hqueue]
      · rw [FrameWriter.push, List.take_append_of_le_length (h.bound k hstopped)]
        exact hlog
  · exact h.unbroken
  · intro hrest hbroken
    obtain ⟨k, hk, hwritten⟩ := h.ended hrest hbroken
    refine ⟨k, hk, ?_⟩
    rw [FrameWriter.push, List.take_append_of_le_length (h.bound k hk)]
    exact hwritten
  · intro k hk
    have := h.bound k hk
    simp only [FrameWriter.push, List.length_append]
    omega
  · rw [hflat]
    exact h.written.trans (List.prefix_append _ _)
  · intro hphase
    have hphase' : w.phase = .gone := hphase
    rw [isGone, hphase'] at hgone
    cases hgone

theorem Sound.stop (h : Sound encode w) (hgone : w.isGone = false) (hstopped : w.stopped = none) :
    Sound encode w.stop := by
  constructor
  · intro rest hrest
    cases h.pending rest hrest with
    | running pending _ hqueue hlog =>
      refine .stopping pending [] w.log.length rfl ?_ ?_
      · simp [FrameWriter.stop, hqueue]
      · simpa [FrameWriter.stop] using hlog
    | stopping pending later k hstopped' =>
      rw [hstopped] at hstopped'
      cases hstopped'
  · exact h.unbroken
  · intro hrest hbroken
    obtain ⟨k, hk, -⟩ := h.ended hrest hbroken
    rw [hstopped] at hk
    cases hk
  · intro k hk
    obtain rfl : w.log.length = k := Option.some.inj hk
    exact Nat.le_refl _
  · exact h.written
  · intro hphase
    have hphase' : w.phase = .gone := hphase
    rw [isGone, hphase'] at hgone
    cases hgone

/-- A move that takes the next frame. -/
theorem Sound.take (h : Sound encode w) {v : FrameWriter φ β}
    (hmove : w.move encode .take = some v) : Sound encode v := by
  simp only [move] at hmove
  split at hmove
  · rename_i frame queue hphase hqueue
    cases hmove
    have hpending : Pending encode { w with queue := queue, phase := .writing (encode frame) }
        (encode frame) := by
      cases h.pending [] (by rw [hphase]; rfl) with
      | running pending hstopped hq hlog =>
        obtain ⟨next, rest, rfl, hnext, hrest⟩ := List.map_eq_cons_iff.mp (hq.symm.trans hqueue)
        cases Option.some.inj hnext
        refine .running rest hstopped hrest.symm ?_
        simpa using hlog
      | stopping pending later k hstopped hq hlog =>
        cases pending with
        | nil =>
          rw [hqueue] at hq
          cases hq
        | cons next pending =>
          rw [hqueue, List.map_cons, List.cons_append] at hq
          obtain ⟨hnext, hrest⟩ := List.cons.inj hq
          cases Option.some.inj hnext
          refine .stopping pending later k hstopped hrest ?_
          simpa using hlog
    refine ⟨?_, fun _ => h.unbroken (by rw [hphase]; rfl), fun hrest => (nomatch hrest), h.bound,
      h.written, fun hgone => (nomatch hgone)⟩
    intro rest hrest
    obtain rfl : encode frame = rest := Option.some.inj hrest
    exact hpending
  · rename_i queue hphase hqueue
    cases hmove
    refine ⟨fun _ hrest => (nomatch hrest), fun hrest => (nomatch hrest), ?_, h.bound, h.written,
      fun hgone => (nomatch hgone)⟩
    intro _ _
    cases h.pending [] (by rw [hphase]; rfl) with
    | running pending hstopped hq hlog =>
      obtain ⟨next, rest, -, hnext, -⟩ := List.map_eq_cons_iff.mp (hq.symm.trans hqueue)
      cases hnext
    | stopping pending later k hstopped hq hlog =>
      refine ⟨k, hstopped, ?_⟩
      cases pending with
      | nil => simpa using hlog.symm
      | cons next pending =>
        rw [hqueue, List.map_cons, List.cons_append] at hq
        cases (List.cons.inj hq).1
  · cases hmove

/-- The moves of a writer keep it sound. -/
theorem Sound.move (h : Sound encode w) {m : Move} {v : FrameWriter φ β}
    (hmove : w.move encode m = some v) : Sound encode v := by
  cases m with
  | take => exact h.take hmove
  | write n =>
    simp only [FrameWriter.move] at hmove
    split at hmove
    · rename_i rest hphase
      split at hmove
      · cases hmove
        have hjoin : w.written ++ rest.take n ++ rest.drop n = w.written ++ rest := by
          rw [List.append_assoc, List.take_append_drop]
        have hpending := h.pending rest (by rw [hphase]; rfl)
        have hunbroken := h.unbroken (by rw [hphase]; rfl)
        refine ⟨?_, fun _ => hunbroken, fun hrest => (nomatch hrest), h.bound, ?_,
          fun hgone => (nomatch hgone)⟩
        · intro left hleft
          obtain rfl : rest.drop n = left := Option.some.inj hleft
          cases hpending with
          | running pending hstopped hqueue hlog =>
            exact .running pending hstopped hqueue (by rw [hjoin]; exact hlog)
          | stopping pending later k hstopped hqueue hlog =>
            exact .stopping pending later k hstopped hqueue (by rw [hjoin]; exact hlog)
        · have hprefix : w.written ++ rest <+: w.log.flatMap encode := by
            cases hpending with
            | running pending hstopped hqueue hlog =>
              rw [hlog]
              exact List.prefix_append _ _
            | stopping pending later k hstopped hqueue hlog =>
              refine List.IsPrefix.trans ?_ (flatMap_take_isPrefix w.log k)
              rw [hlog]
              exact List.prefix_append _ _
          refine List.IsPrefix.trans ?_ hprefix
          rw [← hjoin]
          exact List.prefix_append _ _
      · cases hmove
    · cases hmove
  | flush =>
    simp only [FrameWriter.move] at hmove
    split at hmove
    · rename_i hphase
      cases hmove
      refine ⟨?_, fun _ => h.unbroken (by rw [hphase]; rfl), fun hrest => (nomatch hrest), h.bound,
        h.written, fun hgone => (nomatch hgone)⟩
      intro rest hrest
      obtain rfl : [] = rest := Option.some.inj hrest
      cases h.pending [] (by rw [hphase]; rfl) with
      | running pending hstopped hqueue hlog => exact .running pending hstopped hqueue hlog
      | stopping pending later k hstopped hqueue hlog =>
        exact .stopping pending later k hstopped hqueue hlog
    · cases hmove
  | fail =>
    simp only [FrameWriter.move] at hmove
    split at hmove
    · cases hmove
      exact ⟨fun _ hrest => (nomatch hrest), fun hrest => (nomatch hrest),
        fun _ hbroken => (nomatch hbroken), h.bound, h.written, fun hgone => (nomatch hgone)⟩
    · cases hmove
  | drop =>
    simp only [FrameWriter.move] at hmove
    split at hmove
    · rename_i hphase
      cases hmove
      exact ⟨fun _ hrest => (nomatch hrest), fun hrest => (nomatch hrest),
        fun _ hbroken => h.ended (by rw [hphase]; rfl) hbroken, h.bound, h.written, fun _ => rfl⟩
    · cases hmove

/-- A move leaves the history of what was queued alone. -/
theorem log_move {m : Move} {v : FrameWriter φ β} (hmove : w.move encode m = some v) :
    v.log = w.log ∧ v.stopped = w.stopped := by
  cases m <;> simp only [FrameWriter.move] at hmove <;> repeat' split at hmove
  all_goals first | cases hmove; exact ⟨rfl, rfl⟩ | cases hmove

/-- A write that failed is not forgotten. -/
theorem broken_move {m : Move} {v : FrameWriter φ β} (hmove : w.move encode m = some v)
    (h : w.broken = true) : v.broken = true := by
  cases m <;> simp only [FrameWriter.move] at hmove <;> repeat' split at hmove
  all_goals first | cases hmove; exact h | cases hmove; rfl | cases hmove

/-! ### Draining a queue -/

/-- A writer as a machine of its own. -/
def machine (encode : φ → List β) : Machine (FrameWriter φ β) Move := ⟨empty, move encode⟩

/-- A writer can write the rest of its frame and wait for the next one. -/
theorem exists_flush (w : FrameWriter φ β) {rest : List β} (hphase : w.phase = .writing rest) :
    ∃ ms, Move.fail ∉ ms ∧ (machine encode).runFrom w ms =
      some { w with phase := .receiving, written := w.written ++ rest } := by
  cases rest with
  | nil =>
    refine ⟨[.flush], by simp, ?_⟩
    simp [Machine.runFrom, machine, move, hphase]
  | cons b rest =>
    refine ⟨[.write (b :: rest).length, .flush], by simp, ?_⟩
    simp [Machine.runFrom, machine, move, hphase]

/-- A writer that waits can write the frames in front of its queue. -/
theorem exists_drain (pending : List φ) (tail : List (Option φ)) (w : FrameWriter φ β)
    (hphase : w.phase = .receiving) (hqueue : w.queue = pending.map some ++ tail) :
    ∃ ms, Move.fail ∉ ms ∧ (machine encode).runFrom w ms =
      some { w with queue := tail, written := w.written ++ pending.flatMap encode } := by
  induction pending generalizing w with
  | nil =>
    refine ⟨[], by simp, ?_⟩
    cases w
    simp_all [Machine.runFrom]
  | cons frame pending ih =>
    have htake : (machine encode).step w .take =
        some { w with queue := pending.map some ++ tail, phase := .writing (encode frame) } := by
      simp [machine, move, hphase, hqueue]
    obtain ⟨ms, hms, hflush⟩ := @exists_flush φ β encode
      { w with queue := pending.map some ++ tail, phase := .writing (encode frame) } _ rfl
    obtain ⟨more, hmore, hrest⟩ := ih
      { w with
        queue := pending.map some ++ tail
        phase := .receiving
        written := w.written ++ encode frame } rfl rfl
    refine ⟨.take :: (ms ++ more), ?_, ?_⟩
    · simp [hms, hmore]
    · rw [Machine.runFrom, htake, Option.bind_some, Machine.runFrom_append hflush]
      refine hrest.trans ?_
      simp [hphase]

/-- A writer that serves its queue can come to wait, with the same queue. -/
theorem exists_receiving (w : FrameWriter φ β) {rest : List β} (h : w.phase.rest = some rest) :
    ∃ ms, Move.fail ∉ ms ∧ (machine encode).runFrom w ms =
      some { w with phase := .receiving, written := w.written ++ rest } := by
  cases hphase : w.phase with
  | receiving =>
    rw [hphase] at h
    cases h
    refine ⟨[], by simp, ?_⟩
    cases w
    simp_all [Machine.runFrom]
  | writing left =>
    rw [hphase] at h
    cases h
    exact exists_flush w hphase
  | finishing =>
    rw [hphase] at h
    cases h
  | gone =>
    rw [hphase] at h
    cases h

/-- A sound writer without an order to finish can write all frames. -/
theorem Sound.exists_drained (h : Sound encode w) {rest : List β} (hrest : w.phase.rest = some rest)
    (hstopped : w.stopped = none) :
    ∃ ms, Move.fail ∉ ms ∧ (machine encode).runFrom w ms =
      some { w with queue := [], phase := .receiving, written := w.log.flatMap encode } := by
  cases h.pending rest hrest with
  | running pending _ hqueue hlog =>
    obtain ⟨ms, hms, hreceiving⟩ := @exists_receiving φ β encode w rest hrest
    obtain ⟨more, hmore, hdrain⟩ := @exists_drain φ β encode pending []
      { w with phase := .receiving, written := w.written ++ rest } rfl (by simpa using hqueue)
    refine ⟨ms ++ more, by simp [hms, hmore], ?_⟩
    rw [Machine.runFrom_append hreceiving, hdrain, hlog]
  | stopping pending later k hk =>
    rw [hstopped] at hk
    cases hk

/-- A sound writer with an order to finish can write the frames before it and end. -/
theorem Sound.exists_ended (h : Sound encode w) {rest : List β} (hrest : w.phase.rest = some rest)
    {k : ℕ} (hstopped : w.stopped = some k) :
    ∃ ms, Move.fail ∉ ms ∧ (machine encode).runFrom w ms =
      some { w with queue := [], phase := .gone, written := (w.log.take k).flatMap encode } := by
  cases h.pending rest hrest with
  | running pending hnone =>
    rw [hstopped] at hnone
    cases hnone
  | stopping pending later k' hk hqueue hlog =>
    obtain rfl : k' = k := Option.some.inj (hk.symm.trans hstopped)
    obtain ⟨ms, hms, hreceiving⟩ := @exists_receiving φ β encode w rest hrest
    obtain ⟨more, hmore, hdrain⟩ := @exists_drain φ β encode pending (none :: later.map some)
      { w with phase := .receiving, written := w.written ++ rest } rfl hqueue
    refine ⟨ms ++ (more ++ [.take, .drop]), by simp [hms, hmore], ?_⟩
    rw [Machine.runFrom_append hreceiving, Machine.runFrom_append hdrain, hlog]
    rfl

end FrameWriter

end RemoteWorkspace.Computation
