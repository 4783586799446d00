import RemoteWorkspace.Analysis.InputOrder

/-!
# The bytes of process input

Each chunk of a remote handle's stdin is sent as text (plugin/routing/subprocess.ts:361), and
the daemon writes the bytes of that text (agent/src/subprocess.rs:333-338). Where the chunks
are cut is up to the stream, so a cut may go through a character, and what is written need
not be text at all.

Taken in the order of the requests, the bytes the daemon writes are those that were written
to stdin exactly when each chunk by itself is UTF-8.
-/

set_option autoImplicit false

namespace RemoteWorkspace.Analysis.ProcessInput

open RemoteWorkspace.Computation RemoteWorkspace.Computation.LockedSink
open RemoteWorkspace.Model RemoteWorkspace.Model.ProcessInput

variable {s s' : RemoteInput}

/-- The chunks that left stdin's buffer were sent as text, in the order of the writes, and
the daemon's tasks have written what they are to write once they return. -/
structure SentAsText (s : RemoteInput) : Prop where
  payloads : ∃ sent, s.written = sent ++ s.stdinBuffer ∧
    payloads s.stdin = (sent.map Utf8.reencode).flatten
  consistent : ∀ x ∈ s.stdin.tasks, x.Consistent

/-- A handle nothing was written to. -/
theorem sentAsText_created : SentAsText .created := ⟨⟨[], rfl, rfl⟩, nofun⟩

/-- An event that does not concern stdin. -/
theorem SentAsText.same (hs : SentAsText s) (hbuffer : s'.stdinBuffer = s.stdinBuffer)
    (hwritten : s'.written = s.written) (hstdin : s'.stdin = s.stdin) : SentAsText s' := by
  obtain ⟨hpayloads, hconsistent⟩ := hs
  refine ⟨?_, ?_⟩
  · rw [hbuffer, hwritten, hstdin]
    exact hpayloads
  · rw [hstdin]
    exact hconsistent

/-- Every event, in turn or not, keeps it. -/
theorem sentAsText_step (hs : SentAsText s) {e : ProcessInput.Event}
    (h : ProcessInput.step s e = some s') : SentAsText s' := by
  cases e with
  | write chunk =>
    obtain ⟨-, ⟨⟩⟩ := Option.ite_none_left_eq_some.mp h
    obtain ⟨⟨sent, hwritten, hpayloads⟩, hconsistent⟩ := hs
    refine ⟨⟨sent, ?_, hpayloads⟩, hconsistent⟩
    simp only [hwritten, List.append_assoc]
  | finish =>
    obtain rfl := Option.some.inj h
    exact hs.same rfl rfl rfl
  | writeControl chunk =>
    obtain ⟨-, ⟨⟩⟩ := Option.ite_none_left_eq_some.mp h
    exact hs.same rfl rfl rfl
  | spawned =>
    obtain ⟨-, ⟨⟩⟩ := Option.ite_none_left_eq_some.mp h
    exact hs.same rfl rfl rfl
  | listen =>
    obtain ⟨-, ⟨⟩⟩ := Option.ite_none_right_eq_some.mp h
    exact hs.same rfl rfl rfl
  | flow =>
    obtain ⟨-, h⟩ := Option.ite_none_right_eq_some.mp h
    obtain ⟨⟨sent, hwritten, hpayloads⟩, hconsistent⟩ := hs
    split at h
    · rename_i chunk rest hbuffer
      obtain rfl := Option.some.inj h
      refine ⟨⟨sent ++ [chunk], ?_, ?_⟩, consistent_submit hconsistent _⟩
      · simp only [hwritten, hbuffer, List.append_assoc, List.singleton_append]
      · simp only [payloads_submit, hpayloads, Op.payload, List.map_append, List.flatten_append,
          List.map_singleton, List.flatten_singleton]
    · obtain ⟨-, ⟨⟩⟩ := Option.ite_none_right_eq_some.mp h
      refine ⟨⟨sent, hwritten, ?_⟩, consistent_submit hconsistent _⟩
      rw [payloads_submit, Op.payload, List.append_nil, hpayloads]
  | handOn =>
    obtain ⟨-, h⟩ := Option.ite_none_right_eq_some.mp h
    split at h
    · split at h
      · obtain rfl := Option.some.inj h
        exact hs.same rfl rfl rfl
      · obtain rfl := Option.some.inj h
        exact hs.same rfl rfl rfl
    · cases h
  | answered =>
    obtain ⟨task, -, h⟩ := Option.bind_eq_some_iff.mp h
    split at h
    · obtain rfl := Option.some.inj h
      exact hs.same rfl rfl rfl
    · obtain rfl := Option.some.inj h
      exact hs.same rfl rfl rfl
    · cases h
  | stdin e =>
    obtain ⟨stdin, hstep, rfl⟩ := Option.map_eq_some_iff.mp h
    obtain ⟨⟨sent, hwritten, hpayloads⟩, hconsistent⟩ := hs
    refine ⟨⟨sent, hwritten, ?_⟩, consistent_step hconsistent hstep⟩
    rw [payloads_step hconsistent hstep, hpayloads]
  | control e =>
    obtain ⟨control, -, rfl⟩ := Option.map_eq_some_iff.mp h
    exact hs.same rfl rfl rfl

/-- It holds in every run. -/
theorem sentAsText_of_reachable (h : machine.Reachable s) : SentAsText s :=
  h.invariant (I := SentAsText) sentAsText_created fun _ _ _ hs _ ht => sentAsText_step hs ht

/-- The bytes the daemon has written, taken in the order of the requests. -/
def bytesInRequestOrder (s : RemoteInput) : List UInt8 := progress s.stdin.tasks

/-- Every chunk was sent, and every request has returned without an error. -/
def AllThrough (s : RemoteInput) : Prop :=
  s.stdinBuffer = [] ∧ ∀ x ∈ s.stdin.tasks, x.phase = .returned

instance (s : RemoteInput) : Decidable (AllThrough s) :=
  inferInstanceAs (Decidable (s.stdinBuffer = [] ∧ ∀ x ∈ s.stdin.tasks, x.phase = .returned))

/-- In every run, once all chunks are through, the bytes the daemon has written are those that
were written to stdin exactly when each chunk by itself is UTF-8. -/
theorem bytes_preserved_iff (h : machine.Reachable s) (hall : AllThrough s) :
    bytesInRequestOrder s = s.written.flatten ↔ ∀ chunk ∈ s.written, Utf8.WellFormed chunk := by
  obtain ⟨⟨sent, hwritten, hpayloads⟩, hconsistent⟩ := sentAsText_of_reachable h
  obtain ⟨hbuffer, hreturned⟩ := hall
  rw [hbuffer, List.append_nil] at hwritten
  have hbytes : bytesInRequestOrder s = (s.written.map Utf8.reencode).flatten := by
    rw [bytesInRequestOrder,
      progress_eq_payloads hconsistent fun x hx => .inr (hreturned x hx), hpayloads, hwritten]
  rw [hbytes]
  exact Utf8.flatten_reencode_eq_iff

/-- Two chunks that are cut between characters. -/
def wholeRun : List ProcessInput.Event :=
  [.write [104, 195, 169], .write [33], .spawned, .listen, .flow, .flow, .stdin (.accept 1),
    .stdin (.take 1), .stdin (.put 1 1), .stdin (.finish 1), .stdin (.accept 0),
    .stdin (.take 0), .stdin (.put 0 3), .stdin (.finish 0)]

/-- They are preserved, though their tasks ran the other way round. -/
theorem bytes_preserved_whole :
    let s := (machine.run wholeRun).get (by decide)
    bytesInRequestOrder s = s.written.flatten ∧ s.stdin.out = [33, 104, 195, 169] :=
  ⟨(bytes_preserved_iff (Machine.reachable_get _ (by decide)) (by decide)).mpr (by decide),
    by decide⟩

/-- The two bytes of one character, each a chunk. -/
def cutRun : List ProcessInput.Event :=
  [.write [195], .write [169], .spawned, .listen, .flow, .flow, .stdin (.accept 0),
    .stdin (.take 0), .stdin (.put 0 3), .stdin (.finish 0), .stdin (.accept 1),
    .stdin (.take 1), .stdin (.put 1 3), .stdin (.finish 1)]

/-- The process gets two replacement characters for it. -/
theorem bytes_lost_in_cut : ¬ ∀ s, machine.Reachable s → AllThrough s →
    bytesInRequestOrder s = s.written.flatten := by
  intro hall
  have hcut := hall _ (Machine.reachable_get cutRun (by decide)) (by decide)
  exact absurd hcut (by decide)

end RemoteWorkspace.Analysis.ProcessInput
