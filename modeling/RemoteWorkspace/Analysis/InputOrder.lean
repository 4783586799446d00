import RemoteWorkspace.Model.InputStreams

/-!
# The order of process input

Nothing orders the tasks of one stream: the client does not wait for the answer to a stdin
chunk, nor to the control chunks it flushes when the spawn is answered, and the daemon
gives every request a task of its own. A chunk of stdin also goes through text.

Where each task writes, or closes stdin, only once the tasks before it have returned
without an error, and each chunk written to stdin is UTF-8, the process reads what was
written: an initial part of it at any time, and all of it at the end of file.
-/

set_option autoImplicit false

namespace RemoteWorkspace.Analysis.ProcessInput

open RemoteWorkspace.Computation RemoteWorkspace.Computation.LockedSink
open RemoteWorkspace.Model RemoteWorkspace.Model.ProcessInput

variable {s s' : RemoteInput}

/-! ### What the process reads -/

/-- The process reads an initial part of what was written. Once stdin is at its end it has
read all of it, and the caller has ended it; and once everything was sent and every task
has returned, all of it was read and an ended stdin is at its end. -/
structure ReadInOrder (s : RemoteInput) : Prop where
  stdin : s.stdin.out <+: s.written.flatten
  control : s.control.out <+: s.writtenControl.flatten
  eof : s.stdin.closed = true → s.ended = true ∧ s.stdin.out = s.written.flatten
  whole : s.stdinBuffer = [] → (∀ x ∈ s.stdin.tasks, x.phase = .returned) →
    s.stdin.out = s.written.flatten ∧ (s.endSent = true → s.stdin.closed = true)
  wholeControl : s.pendingControl = [] → s.controlBuffer = [] →
    (∀ x ∈ s.control.tasks, x.phase = .returned) → s.control.out = s.writtenControl.flatten

/-- Each chunk written to stdin is UTF-8, and the tasks of each stream write, and close it,
in the order of their requests. -/
def Orderly (s : RemoteInput) : ProcessInput.Event → Prop
  | .write chunk => Utf8.WellFormed chunk
  | .stdin e => InTurn s.stdin e ∧ ClosesInTurn s.stdin e
  | .control e => InTurn s.control e
  | _ => True

/-! ### The invariant -/

/-- The client's side: what was written was sent, or is still held back; only the last
request on stdin closes it, when the caller has ended it. -/
structure Sent (s : RemoteInput) : Prop where
  stdin : payloads s.stdin ++ s.stdinBuffer.flatten = s.written.flatten
  control : payloads s.control ++ s.pendingControl.flatten ++ s.controlBuffer.flatten =
    s.writtenControl.flatten
  utf8 : ∀ chunk ∈ s.stdinBuffer, Utf8.WellFormed chunk
  flushed : s.known = true → s.pendingControl = []
  ended : s.endSent = true → s.ended = true ∧ s.stdinBuffer = []
  closer : ∀ (i : ℕ) (op : Op UInt8), (s.stdin.tasks.map (·.op))[i]? = some op →
    (op = .close ↔ s.endSent = true ∧ i + 1 = s.stdin.tasks.length)
  nonempty : s.endSent = true → s.stdin.tasks ≠ []

/-- The daemon's side: its tasks have written in order, and stdin was closed after all of
them, by the last. -/
structure Read (s : RemoteInput) : Prop where
  stdin : Ordered s.stdin
  control : Ordered s.control
  closed : s.stdin.closed = true → s.endSent = true ∧ ∀ x ∈ s.stdin.tasks, x.Through
  closes : ∀ x ∈ s.stdin.tasks, x.op = .close → x.phase = .returned → s.stdin.closed = true

/-- What was sent in order and read in order is read as it was written. -/
theorem readInOrder_of (hsent : Sent s) (hread : Read s) : ReadInOrder s := by
  have hall : s.stdinBuffer = [] → (∀ x ∈ s.stdin.tasks, x.Through) →
      s.stdin.out = s.written.flatten := by
    intro hbuffer hthrough
    rw [hread.stdin.eq_payloads hthrough, ← hsent.stdin, hbuffer]
    simp
  refine ⟨?_, ?_, fun hclosed => ?_, fun hbuffer hreturned => ?_, fun hp hc hreturned => ?_⟩
  · rw [← hsent.stdin]
    exact hread.stdin.initial.trans (List.prefix_append ..)
  · rw [← hsent.control, List.append_assoc]
    exact hread.control.initial.trans (List.prefix_append ..)
  · obtain ⟨hend, hthrough⟩ := hread.closed hclosed
    obtain ⟨hended, hbuffer⟩ := hsent.ended hend
    exact ⟨hended, hall hbuffer hthrough⟩
  · refine ⟨hall hbuffer fun x hx => .inr (hreturned x hx), fun hend => ?_⟩
    -- the last request is the close
    obtain ⟨l, x, hl⟩ := (List.eq_nil_or_concat' s.stdin.tasks).resolve_left
      (hsent.nonempty hend)
    have hx : x ∈ s.stdin.tasks := by simp [hl]
    have hop : x.op = .close := by
      refine (hsent.closer l.length x.op (by simp [hl])).mpr ⟨hend, by simp [hl]⟩
    exact hread.closes x hx hop (hreturned x hx)
  · rw [hread.control.eq_payloads fun x hx => .inr (hreturned x hx), ← hsent.control, hp, hc]
    simp

/-- A handle nothing was written to. -/
theorem sent_created : Sent .created :=
  ⟨rfl, rfl, nofun, nofun, nofun, fun _ _ h => by simp [RemoteInput.created, Sink.empty] at h,
    nofun⟩

theorem read_created : Read .created := ⟨ordered_empty, ordered_empty, nofun, nofun⟩

/-! ### The client's events -/

/-- Chunks that are sent together are sent in order. -/
theorem submitAll_spec (chunks : List Chunk) (sink : Sink UInt8) :
    payloads (submitAll sink chunks) = payloads sink ++ chunks.flatten ∧
    (Ordered sink → Ordered (submitAll sink chunks)) := by
  induction chunks generalizing sink with
  | nil => simp [submitAll]
  | cons chunk chunks ih =>
    obtain ⟨hpayloads, hordered⟩ := ih (sink.submit (.write chunk))
    rw [payloads_submit] at hpayloads
    refine ⟨hpayloads.trans ?_, fun hs => hordered (hs.submit _)⟩
    simp [Op.payload]

/-- Stdin's next chunk, which is UTF-8, is sent as it was written. -/
theorem sent_chunk (hs : Sent s) {chunk : Chunk} {rest : List Chunk}
    (hbuffer : s.stdinBuffer = chunk :: rest) :
    Sent { s with
      stdin := s.stdin.submit (.write (Utf8.reencode chunk)), stdinBuffer := rest } := by
  have hopen : s.endSent = false := by
    cases h : s.endSent with
    | false => rfl
    | true => exact absurd ((hs.ended h).2.symm.trans hbuffer) (by simp)
  have hwell : Utf8.WellFormed chunk := hs.utf8 chunk (by simp [hbuffer])
  have hwrites : ∀ (i : ℕ) (op : Op UInt8), (s.stdin.tasks.map (·.op))[i]? = some op →
      op ≠ .close := fun i op hi hop =>
    absurd ((hs.closer i op hi).mp hop).1 (by simp [hopen])
  refine ⟨?_, hs.control, fun c hc => hs.utf8 c (by rw [hbuffer]; exact .tail _ hc), hs.flushed,
    fun h => absurd h (by simp [hopen]), fun i op hi => ?_, fun h => absurd h (by simp [hopen])⟩
  · rw [payloads_submit, Op.payload, Utf8.reencode_eq_iff.mpr hwell, ← hs.stdin, hbuffer]
    simp
  · simp only [Sink.submit, List.map_append, List.map_singleton] at hi
    have hne : op ≠ .close := by
      rcases getElem?_concat_cases hi with hi | ⟨-, rfl⟩
      · exact hwrites i op hi
      · simp
    simp [hne, hopen]

/-- The end of stdin is sent after all its chunks. -/
theorem sent_end (hs : Sent s) (hbuffer : s.stdinBuffer = []) (hended : s.ended = true)
    (hopen : s.endSent = false) :
    Sent { s with stdin := s.stdin.submit .close, endSent := true } := by
  refine ⟨?_, hs.control, hs.utf8, hs.flushed, fun _ => ⟨hended, hbuffer⟩, fun i op hi => ?_,
    fun _ => by simp [Sink.submit]⟩
  · rw [payloads_submit, Op.payload, List.append_nil]
    exact hs.stdin
  · simp only [Sink.submit, List.map_append, List.map_singleton] at hi
    rcases getElem?_concat_cases hi with hi | ⟨rfl, rfl⟩
    · have hlt : i < s.stdin.tasks.length := by
        simpa using (List.getElem?_eq_some_iff.mp hi).1
      have := hs.closer i op hi
      simp [hopen] at this
      simp [this, Sink.submit]
      omega
    · simp [Sink.submit]

/-- A task of the daemon changes nothing about what was sent. -/
theorem sent_sinks (hs : Sent s) {stdin control : Sink UInt8}
    (hstdin : stdin.tasks.map (·.op) = s.stdin.tasks.map (·.op))
    (hpayloads : payloads stdin = payloads s.stdin)
    (hcontrol : payloads control = payloads s.control) :
    Sent { s with stdin := stdin, control := control } := by
  have hlength : stdin.tasks.length = s.stdin.tasks.length := by
    simpa using congrArg List.length hstdin
  refine ⟨hpayloads ▸ hs.stdin, hcontrol ▸ hs.control, hs.utf8, hs.flushed, hs.ended, ?_, ?_⟩
  · simp only [hstdin, hlength]
    exact hs.closer
  · exact fun h => List.ne_nil_of_length_pos
      (hlength ▸ List.length_pos_of_ne_nil (hs.nonempty h))

/-- Every event keeps what was written apart into what was sent and what is held back. -/
theorem sent_step (hs : Sent s) (hread : Read s) {e : ProcessInput.Event} (hG : Orderly s e)
    (h : ProcessInput.step s e = some s') : Sent s' := by
  cases e with
  | write chunk =>
    obtain ⟨hopen, ⟨⟩⟩ := Option.ite_none_left_eq_some.mp h
    refine ⟨?_, hs.control, fun c hc => ?_, hs.flushed, fun h => absurd (hs.ended h).1 hopen,
      hs.closer, hs.nonempty⟩
    · simp [← hs.stdin]
    · rcases List.mem_append.mp hc with hc | hc
      · exact hs.utf8 c hc
      · rw [List.mem_singleton.mp hc]
        exact hG
  | finish =>
    obtain rfl := Option.some.inj h
    exact ⟨hs.stdin, hs.control, hs.utf8, hs.flushed, fun h => ⟨rfl, (hs.ended h).2⟩, hs.closer,
      hs.nonempty⟩
  | writeControl chunk =>
    obtain ⟨-, ⟨⟩⟩ := Option.ite_none_left_eq_some.mp h
    refine ⟨hs.stdin, ?_, hs.utf8, hs.flushed, hs.ended, hs.closer, hs.nonempty⟩
    simp [← hs.control]
  | spawned =>
    obtain ⟨-, ⟨⟩⟩ := Option.ite_none_left_eq_some.mp h
    refine ⟨hs.stdin, ?_, hs.utf8, fun _ => rfl, hs.ended, hs.closer, hs.nonempty⟩
    simp [(submitAll_spec s.pendingControl s.control).1, ← hs.control]
  | listen =>
    obtain ⟨-, ⟨⟩⟩ := Option.ite_none_right_eq_some.mp h
    exact ⟨hs.stdin, hs.control, hs.utf8, hs.flushed, hs.ended, hs.closer, hs.nonempty⟩
  | flow =>
    obtain ⟨-, h⟩ := Option.ite_none_right_eq_some.mp h
    split at h
    · rename_i hbuffer
      obtain rfl := Option.some.inj h
      exact sent_chunk hs hbuffer
    · rename_i hbuffer
      obtain ⟨⟨hended, hopen⟩, ⟨⟩⟩ := Option.ite_none_right_eq_some.mp h
      exact sent_end hs hbuffer hended hopen
  | handOn =>
    obtain ⟨-, h⟩ := Option.ite_none_right_eq_some.mp h
    split at h
    · rename_i chunk rest hbuffer
      split at h
      · rename_i hknown
        obtain rfl := Option.some.inj h
        refine ⟨hs.stdin, ?_, hs.utf8, hs.flushed, hs.ended, hs.closer, hs.nonempty⟩
        simp [payloads_submit, Op.payload, ← hs.control, hs.flushed hknown, hbuffer]
      · rename_i hknown
        obtain rfl := Option.some.inj h
        refine ⟨hs.stdin, ?_, hs.utf8, fun h => absurd h hknown, hs.ended, hs.closer,
          hs.nonempty⟩
        simp [← hs.control, hbuffer]
    · cases h
  | answered =>
    obtain ⟨task, -, h⟩ := Option.bind_eq_some_iff.mp h
    split at h
    · obtain rfl := Option.some.inj h
      exact ⟨hs.stdin, hs.control, hs.utf8, hs.flushed, hs.ended, hs.closer, hs.nonempty⟩
    · obtain rfl := Option.some.inj h
      exact ⟨hs.stdin, hs.control, hs.utf8, hs.flushed, hs.ended, hs.closer, hs.nonempty⟩
    · cases h
  | stdin e =>
    obtain ⟨stdin, hstep, rfl⟩ := Option.map_eq_some_iff.mp h
    exact sent_sinks hs (ops_step hread.stdin.consistent hstep)
      (payloads_step hread.stdin.consistent hstep) rfl
  | control e =>
    obtain ⟨control, hstep, rfl⟩ := Option.map_eq_some_iff.mp h
    exact sent_sinks hs rfl rfl (payloads_step hread.control.consistent hstep)

/-! ### The daemon's events -/

/-- A new request on stdin, before its end was sent. -/
theorem read_submit (hread : Read s) (hopen : s.endSent = false) (op : Op UInt8)
    (rest : List Chunk) (endSent : Bool) :
    Read { s with
      stdin := s.stdin.submit op, stdinBuffer := rest, endSent := endSent } := by
  refine ⟨hread.stdin.submit op, hread.control,
    fun h => absurd (hread.closed h).1 (by simp [hopen]), fun x hx hop hphase => ?_⟩
  rcases List.mem_append.mp hx with hx | hx
  · exact hread.closes x hx hop hphase
  · obtain rfl := List.mem_singleton.mp hx
    cases hphase

/-- A task on stdin moves in its turn. -/
theorem read_stdin (hread : Read s) (hsent : Sent s) {e : LockedSink.Event}
    (hG : InTurn s.stdin e ∧ ClosesInTurn s.stdin e) {stdin : Sink UInt8}
    (h : LockedSink.step s.stdin e = some stdin) : Read { s with stdin := stdin } := by
  obtain ⟨i, x, y, hx, htasks, hop, -, -, hstay, hclose, hreturn⟩ :=
    step_moves hread.stdin.consistent h
  refine ⟨ordered_step hread.stdin hG.1 h, hread.control, fun hclosed => ?_,
    fun z hz hzop hphase => ?_⟩
  · rcases hclose hclosed with hclosed | ⟨rfl, hxop⟩
    · obtain ⟨hend, hthrough⟩ := hread.closed hclosed
      exact ⟨hend, through_step hread.stdin.consistent h hthrough⟩
    · -- the task that closes is the last, and those before it are through
      obtain ⟨hend, hlast⟩ := (hsent.closer i x.op (by simp [hx])).mp hxop
      have hearlier := hG.2 x hx hxop
      refine ⟨hend, through_step hread.stdin.consistent h fun z hz => ?_⟩
      obtain ⟨j, hj⟩ := List.mem_iff_getElem?.mp hz
      have hlt := (List.getElem?_eq_some_iff.mp hj).1
      by_cases hij : j = i
      · subst hij
        obtain rfl := Option.some.inj (hj.symm.trans hx)
        exact .inl (by rw [hxop, Op.payload])
      · refine hearlier z (List.mem_of_getElem? (i := j) ?_)
        rw [List.getElem?_take_of_lt (by omega)]
        exact hj
  · rw [htasks] at hz
    rcases List.mem_or_eq_of_mem_set hz with hz | rfl
    · exact hstay (hread.closes z hz hzop hphase)
    · exact hreturn hzop hphase

/-- Every event in turn keeps what was read in order. -/
theorem read_step (hread : Read s) (hsent : Sent s) {e : ProcessInput.Event}
    (hG : Orderly s e) (h : ProcessInput.step s e = some s') : Read s' := by
  cases e with
  | write chunk =>
    obtain ⟨-, ⟨⟩⟩ := Option.ite_none_left_eq_some.mp h
    exact ⟨hread.stdin, hread.control, hread.closed, hread.closes⟩
  | finish =>
    obtain rfl := Option.some.inj h
    exact ⟨hread.stdin, hread.control, hread.closed, hread.closes⟩
  | writeControl chunk =>
    obtain ⟨-, ⟨⟩⟩ := Option.ite_none_left_eq_some.mp h
    exact ⟨hread.stdin, hread.control, hread.closed, hread.closes⟩
  | spawned =>
    obtain ⟨-, ⟨⟩⟩ := Option.ite_none_left_eq_some.mp h
    exact ⟨hread.stdin, (submitAll_spec s.pendingControl s.control).2 hread.control,
      hread.closed, hread.closes⟩
  | listen =>
    obtain ⟨-, ⟨⟩⟩ := Option.ite_none_right_eq_some.mp h
    exact ⟨hread.stdin, hread.control, hread.closed, hread.closes⟩
  | flow =>
    obtain ⟨-, h⟩ := Option.ite_none_right_eq_some.mp h
    split at h
    · rename_i hbuffer
      obtain rfl := Option.some.inj h
      have hopen : s.endSent = false := by
        cases hend : s.endSent with
        | false => rfl
        | true => exact absurd ((hsent.ended hend).2.symm.trans hbuffer) nofun
      exact read_submit hread hopen _ _ s.endSent
    · obtain ⟨⟨-, hopen⟩, ⟨⟩⟩ := Option.ite_none_right_eq_some.mp h
      exact read_submit hread hopen .close s.stdinBuffer true
  | handOn =>
    obtain ⟨-, h⟩ := Option.ite_none_right_eq_some.mp h
    split at h
    · split at h
      · obtain rfl := Option.some.inj h
        exact ⟨hread.stdin, hread.control.submit _, hread.closed, hread.closes⟩
      · obtain rfl := Option.some.inj h
        exact ⟨hread.stdin, hread.control, hread.closed, hread.closes⟩
    · cases h
  | answered =>
    obtain ⟨task, -, h⟩ := Option.bind_eq_some_iff.mp h
    split at h
    · obtain rfl := Option.some.inj h
      exact ⟨hread.stdin, hread.control, hread.closed, hread.closes⟩
    · obtain rfl := Option.some.inj h
      exact ⟨hread.stdin, hread.control, hread.closed, hread.closes⟩
    · cases h
  | stdin e =>
    obtain ⟨stdin, hstep, rfl⟩ := Option.map_eq_some_iff.mp h
    exact read_stdin hread hsent hG hstep
  | control e =>
    obtain ⟨control, hstep, rfl⟩ := Option.map_eq_some_iff.mp h
    exact ⟨hread.stdin, ordered_step hread.control hG hstep, hread.closed, hread.closes⟩

/-! ### Every run -/

/-- In every run in which the tasks of each stream write, and close it, in the order of
their requests, and only UTF-8 is written to stdin, the process reads what was written. -/
theorem input_read_in_order (h : machine.ReachableWhen Orderly s) : ReadInOrder s := by
  have hboth : Sent s ∧ Read s := by
    refine h.invariant (I := fun s => Sent s ∧ Read s) ⟨sent_created, read_created⟩ ?_
    exact fun _ _ _ hs hG ht => ⟨sent_step hs.1 hs.2 hG ht, read_step hs.2 hs.1 hG ht⟩
  exact readInOrder_of hboth.1 hboth.2

instance : (s : RemoteInput) → (e : ProcessInput.Event) → Decidable (Orderly s e)
  | _, .write chunk => inferInstanceAs (Decidable (Utf8.WellFormed chunk))
  | s, .stdin e => inferInstanceAs (Decidable (InTurn s.stdin e ∧ ClosesInTurn s.stdin e))
  | s, .control e => inferInstanceAs (Decidable (InTurn s.control e))
  | _, .finish => .isTrue trivial
  | _, .writeControl _ => .isTrue trivial
  | _, .spawned => .isTrue trivial
  | _, .listen => .isTrue trivial
  | _, .flow => .isTrue trivial
  | _, .handOn => .isTrue trivial
  | _, .answered => .isTrue trivial

/-- Two chunks and the end of stdin, and two control chunks from before the spawn answer. -/
def writeRun : List ProcessInput.Event :=
  [.writeControl [1], .writeControl [255], .handOn, .handOn, .write [104], .write [195, 169],
    .finish, .spawned, .listen, .flow, .flow, .flow]

/-- The tasks of those requests, each begun when the one before it has returned. -/
def inTurnRun : List ProcessInput.Event :=
  [.stdin (.accept 0), .stdin (.accept 1), .stdin (.accept 2), .stdin (.take 0),
    .stdin (.put 0 1), .stdin (.finish 0), .stdin (.take 1), .stdin (.put 1 1),
    .stdin (.put 1 1), .stdin (.finish 1), .stdin (.take 2), .control (.accept 0),
    .control (.take 0), .control (.put 0 1), .control (.finish 0), .control (.accept 1),
    .control (.take 1), .control (.put 1 1), .control (.finish 1)]

/-- Both streams are read as they were written. -/
theorem input_read_in_order_in_turn :
    let s := (machine.runGuarded Orderly .created (writeRun ++ inTurnRun)).get (by decide)
    s.stdin.out = [104, 195, 169] ∧ s.stdin.closed = true ∧ s.control.out = [1, 255] ∧
      ReadInOrder s :=
  ⟨by decide, by decide, by decide, input_read_in_order (Machine.reachableWhen_get (by decide))⟩

/-- The task of the second chunk, and then that of the end, overtake the first. -/
def overtakingRun : List ProcessInput.Event :=
  [.stdin (.accept 1), .stdin (.take 1), .stdin (.put 1 2), .stdin (.finish 1),
    .stdin (.accept 2), .stdin (.take 2)]

/-- The process reads the second chunk only, and then the end of file. -/
theorem input_overtaken : ¬ ∀ s, machine.Reachable s → ReadInOrder s := by
  intro hall
  have hread := hall _ (Machine.reachable_get (writeRun ++ overtakingRun) (by decide))
  exact absurd hread.stdin (by decide)

end RemoteWorkspace.Analysis.ProcessInput
