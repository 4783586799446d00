import RemoteWorkspace.Computation.Ledger
import RemoteWorkspace.Model.ProcessOutput

/-!
# The books of a process's output

The bytes that the members of a managed range write to a stream are in its pipe, then in its
reader's hands, and from there they are captured or thrown away. Each stream is a channel
whose books balance; what is thrown away the code does not keep, so the books take it from
the steps of the run.
-/

set_option autoImplicit false

namespace RemoteWorkspace.Analysis.ProcessOutput

open RemoteWorkspace.Computation RemoteWorkspace.Model RemoteWorkspace.Model.ProcessOutput

variable {s t : System}

/-- The bytes members of the range wrote. -/
def ranged (bytes : List Sent) : List Sent := bytes.filter (·.inRange)

@[simp] theorem ranged_append (l l' : List Sent) : ranged (l ++ l') = ranged l ++ ranged l' :=
  List.filter_append ..

/-! ### What a run loses -/

/-- The reader of a stream throws its chunk away: the process is disposed, abandoned or
settled when a piped chunk is captured, or the queue refuses the frame. -/
def ThrowsAway (s : System) (w : Which) : Event → Prop
  | .capture v =>
    v = w ∧ (s.streams w).mode = .pipe ∧
      (s.managed.disposed ∨ s.abandoned ∨ s.managed.settled.isSome)
  | .tryNotify v => v = w ∧ s.hasRoom = false
  | _ => False

instance (s : System) (w : Which) (e : Event) : Decidable (ThrowsAway s w e) := by
  unfold ThrowsAway
  split <;> infer_instance

/-- What the reader of a stream throws away in a step. -/
def thrown (s : System) (w : Which) (e : Event) : List Sent :=
  if ThrowsAway s w e then (s.streams w).held else []

/-- The queue refuses a frame. -/
def refuses (s : System) : Event → Bool
  | .tryNotify _ => !s.hasRoom
  | _ => false

/-- What arrives for a stream while the slot holds another handler. -/
def missed (s : System) (w : Which) : Event → List Sent
  | .dispatch =>
    match s.socket with
    | .pipe v _ data :: _ => if v = w ∧ s.handle.mine = false then data else []
    | _ => []
  | _ => []

/-- What a run lost so far: what the readers threw away, what arrived at another handler,
and whether the queue refused a frame. -/
structure Losses where
  thrown : Which → List Sent
  missed : Which → List Sent
  refused : Bool

/-- One step's losses added. -/
def count (s : System) (l : Losses) (e : Event) (_ : System) : Losses where
  thrown w := l.thrown w ++ thrown s w e
  missed w := l.missed w ++ missed s w e
  refused := l.refused || refuses s e

/-- A process whose losses are counted. -/
def watched (mode : Which → OutputMode) : Machine (System × Losses) Event :=
  (machine mode).observe ⟨fun _ => [], fun _ => [], false⟩ count

/-- A child whose stdout is piped. -/
def stdoutPiped (w : Which) : OutputMode := if w = .out then .pipe else .inherit

/-! ### The books of a stream -/

/-- What the members wrote, what of it was captured, what of it was thrown away, and what of
it is in the reader's hands or in the pipe. -/
def books (x : Stream) (thrown : List Sent) : Ledger Sent where
  sent := ranged x.written
  arrived := ranged x.captured
  dropped := ranged thrown
  onWay := ranged (x.held ++ x.pipe)

/-- What can become of a stream in one step that throws `lost` away: bytes are written, bytes
go from the pipe into the reader's hands, or the reader's chunk is captured or thrown away. -/
inductive Moved (x : Stream) : List Sent → Stream → Prop
  | written {y : Stream} (bytes : List Sent) (hmode : y.mode = x.mode)
      (hheld : y.held ++ y.pipe = x.held ++ x.pipe ++ bytes)
      (hwritten : y.written = x.written ++ bytes) (hcaptured : y.captured = x.captured) :
      Moved x [] y
  | captured {y : Stream} (hmode : y.mode = x.mode) (hheld : y.held = [])
      (hpipe : y.pipe = x.pipe) (hwritten : y.written = x.written)
      (hcaptured : y.captured = x.captured ++ x.held) : Moved x [] y
  | dropped {y : Stream} (hmode : y.mode = x.mode) (hheld : y.held = [])
      (hpipe : y.pipe = x.pipe) (hwritten : y.written = x.written)
      (hcaptured : y.captured = x.captured) : Moved x x.held y

/-- A stream whose pipe took bytes in, and of which nothing was captured or thrown away. -/
structure Extends (x : Stream) (bytes : List Sent) (y : Stream) : Prop where
  mode : y.mode = x.mode
  held : y.held ++ y.pipe = x.held ++ x.pipe ++ bytes
  written : y.written = x.written ++ bytes
  captured : y.captured = x.captured

/-- A stream whose bytes stay where they are. -/
theorem Extends.of_still {x y : Stream} (hmode : y.mode = x.mode)
    (hheld : y.held ++ y.pipe = x.held ++ x.pipe) (hwritten : y.written = x.written)
    (hcaptured : y.captured = x.captured) : Extends x [] y := by
  refine ⟨hmode, ?_, ?_, hcaptured⟩
  · rw [hheld, List.append_nil]
  · rw [hwritten, List.append_nil]

/-- A stream that is extended moves, and nothing of it is lost. -/
theorem Extends.moved {x y : Stream} {bytes : List Sent} (h : Extends x bytes y) :
    Moved x [] y := .written bytes h.mode h.held h.written h.captured

/-- A stream nothing happens to. -/
theorem Moved.refl (x : Stream) : Moved x [] x :=
  (Extends.of_still rfl rfl rfl rfl).moved

/-- The books of a stream balance after a step if they did before. -/
theorem Moved.balanced {x y : Stream} {lost before : List Sent} (h : Moved x lost y)
    (hx : (books x before).Balanced) : (books y (before ++ lost)).Balanced := by
  unfold books at hx ⊢
  cases h with
  | written bytes hmode hheld hwritten hcaptured =>
    rw [hheld, hwritten, hcaptured, List.append_nil, ranged_append, ranged_append _ bytes]
    exact hx.send (ranged bytes)
  | captured hmode hheld hpipe hwritten hcaptured =>
    rw [hheld, hpipe, hwritten, hcaptured, ranged_append, List.nil_append, List.append_nil]
    rw [ranged_append] at hx
    exact hx.arrive
  | dropped hmode hheld hpipe hwritten hcaptured =>
    rw [hheld, hpipe, hwritten, hcaptured, ranged_append, List.nil_append]
    rw [ranged_append, ← List.nil_append (ranged x.held)] at hx
    exact hx.drop

/-! ### What a step does to the streams -/

/-- A reader that is in its read holds nothing. -/
theorem held_of_reading {x : Stream} (h : x.reader = .reading) : x.held = [] := by
  rw [Stream.held, h]

/-- A write extends a stream. -/
theorem write_extends {x y : Stream} {bytes : List Sent} (h : x.write bytes = some y) :
    Extends x bytes y := by
  obtain ⟨-, heq⟩ := Option.ite_none_right_eq_some.mp h
  cases heq
  exact ⟨rfl, (List.append_assoc ..).symm, rfl, rfl⟩

/-- The end of the last writer takes nothing in. -/
theorem closeEnd_extends {x y : Stream} (h : x.closeEnd = some y) : Extends x [] y := by
  obtain ⟨-, heq⟩ := Option.ite_none_right_eq_some.mp h
  cases heq
  exact .of_still rfl rfl rfl rfl

/-- A read takes bytes from the pipe into the reader's hands. -/
theorem read_extends {x y : Stream} {n : ℕ} (h : x.read n = some y) : Extends x [] y := by
  obtain ⟨⟨hreading, -⟩, heq⟩ := Option.ite_none_right_eq_some.mp h
  cases heq
  refine .of_still rfl ?_ rfl rfl
  rw [held_of_reading hreading]
  exact List.take_append_drop n x.pipe

/-- The read that ends the loop takes nothing. -/
theorem readEnd_extends {x y : Stream} {failed : Bool} (h : x.readEnd failed = some y) :
    Extends x [] y := by
  obtain ⟨⟨hreading, -⟩, heq⟩ := Option.ite_none_right_eq_some.mp h
  cases heq
  refine .of_still rfl ?_ rfl rfl
  rw [held_of_reading hreading]
  rfl

/-- A reader without a chunk moves on. -/
theorem reader_extends {x : Stream} {reader : Reader} (hheld : x.held = [])
    (hnext : ({ x with reader := reader } : Stream).held = []) :
    Extends x [] { x with reader := reader } := by
  refine .of_still rfl ?_ rfl rfl
  rw [hheld, hnext]

/-- The frame a message carries. -/
def frameOf : Message → Option Frame
  | .pipe w _ data => some ⟨w, data⟩
  | _ => none

/-- The handle holds no frames back once it knows its process, or does not listen. -/
def Flushed (x : Handle) : Prop :=
  x.run = .spawning ∨ x.buffered = [] ∨ x.run = .rejected ∧ x.mine = false

/-- A handle that knows its process and was not given up holds nothing back. -/
theorem Flushed.buffered_nil {x : Handle} (h : Flushed x) (hspawning : x.run ≠ .spawning)
    (hrejected : x.run ≠ .rejected) : x.buffered = [] := by
  rcases h with hrun | hnil | ⟨hrun, -⟩
  · exact absurd hrun hspawning
  · exact hnil
  · exact absurd hrun hrejected

/-- What an event does to the streams, the connection and what the handle was given: one
stream is extended; a reader captures its chunk, or queues its frame; nothing happens to any
of them; a message that is no frame is queued; one is written out; or the client takes one. -/
inductive Effect (s : System) : Event → System → Prop
  | piped {e : Event} {t : System} {v : Which} {bytes : List Sent} {y : Stream}
      (hkept : ∀ w, thrown s w e = []) (hy : Extends (s.streams v) bytes y)
      (hstreams : t.streams = Function.update s.streams v y) (hsocket : t.socket = s.socket)
      (hqueue : t.queue = s.queue) (hhandle : t.handle = s.handle) : Effect s e t
  | captured {v : Which} {chunk : List Sent} (hreader : (s.streams v).reader = .capturing chunk) :
      Effect s (.capture v) (capture s v chunk)
  | notified {v : Which} {chunk : List Sent} (hreader : (s.streams v).reader = .notifying chunk) :
      Effect s (.tryNotify v) (tryNotify s v chunk)
  | inside {e : Event} {t : System} (hkept : ∀ w, thrown s w e = [])
      (hstreams : t.streams = s.streams) (hsocket : t.socket = s.socket)
      (hqueue : t.queue = s.queue) (hreceived : t.handle.received = s.handle.received)
      (hbuffered : t.handle.buffered = s.handle.buffered)
      (hflushed : Flushed s.handle → Flushed t.handle) : Effect s e t
  | queued {e : Event} {t : System} {message : Message} (hkept : ∀ w, thrown s w e = [])
      (hmessage : frameOf message = none) (hstreams : t.streams = s.streams)
      (hsocket : t.socket = s.socket) (hqueue : t.queue = s.queue ++ [message])
      (hhandle : t.handle = s.handle) : Effect s e t
  | transmitted {message : Message} {rest : List Message} (hqueue : s.queue = message :: rest) :
      Effect s .transmit { s with queue := rest, socket := s.socket ++ [message] }
  | dispatched {message : Message} {rest : List Message} (hsocket : s.socket = message :: rest) :
      Effect s .dispatch (receive { s with socket := rest } message)

/-- Something happens to one stream. -/
theorem Effect.of_onStream {e : Event} {v : Which} {f : Stream → Option Stream}
    {bytes : List Sent} (h : s.onStream v f = some t) (hkept : ∀ w, thrown s w e = [])
    (hf : ∀ y, f (s.streams v) = some y → Extends (s.streams v) bytes y) : Effect s e t := by
  obtain ⟨y, hy, rfl⟩ := Option.map_eq_some_iff.mp h
  exact .piped hkept (hf y hy) rfl rfl rfl rfl

/-- What each event does. -/
theorem step_effect {e : Event} (h : step s e = some t) : Effect s e t := by
  cases e with
  | proc e =>
    obtain ⟨-, hmap⟩ := Option.ite_none_right_eq_some.mp h
    obtain ⟨m, -, rfl⟩ := Option.map_eq_some_iff.mp hmap
    exact .inside (fun _ => rfl) rfl rfl rfl rfl rfl id
  | write v bytes inRange =>
    obtain ⟨-, hstream⟩ := Option.ite_none_right_eq_some.mp h
    exact .of_onStream hstream (fun _ => rfl) fun y hy => write_extends hy
  | closeEnd v => exact .of_onStream h (fun _ => rfl) fun y hy => closeEnd_extends hy
  | read v n =>
    exact .of_onStream (f := fun x => x.read n) h (fun _ => rfl) fun y hy => read_extends hy
  | readEnd v failed =>
    exact .of_onStream (f := fun x => x.readEnd failed) h (fun _ => rfl)
      fun y hy => readEnd_extends hy
  | capture v =>
    simp only [step] at h
    split at h
    · rename_i chunk hreader
      cases h
      exact .captured hreader
    · cases h
  | tryNotify v =>
    simp only [step] at h
    split at h
    · rename_i chunk hreader
      cases h
      exact .notified hreader
    · cases h
  | abandon v =>
    obtain ⟨hreader, heq⟩ := Option.ite_none_right_eq_some.mp h
    cases heq
    have hheld : (s.streams v).held = [] := by rw [Stream.held, hreader]
    exact .piped (fun _ => rfl) (reader_extends hheld rfl) rfl rfl rfl rfl
  | terminate v =>
    obtain ⟨hreader, heq⟩ := Option.ite_none_right_eq_some.mp h
    cases heq
    have hheld : (s.streams v).held = [] := by rw [Stream.held, hreader]
    exact .piped (fun _ => rfl) (reader_extends hheld rfl) rfl rfl rfl rfl
  | readerEnds v =>
    obtain ⟨hreader, heq⟩ := Option.ite_none_right_eq_some.mp h
    cases heq
    have hheld : (s.streams v).held = [] := by rw [Stream.held, hreader]
    exact .piped (fun _ => rfl) (reader_extends hheld rfl) rfl rfl rfl rfl
  | close =>
    cases h
    exact .inside (fun _ => rfl) rfl rfl rfl rfl rfl id
  | dispose =>
    obtain ⟨-, heq⟩ := Option.ite_none_right_eq_some.mp h
    cases heq
    exact .inside (fun _ => rfl) rfl rfl rfl rfl rfl id
  | answerSpawn =>
    obtain ⟨-, heq⟩ := Option.ite_none_right_eq_some.mp h
    cases heq
    exact .queued (fun _ => rfl) rfl rfl rfl rfl rfl
  | waitForExit =>
    obtain ⟨-, hmap⟩ := Option.ite_none_right_eq_some.mp h
    obtain ⟨m, -, rfl⟩ := Option.map_eq_some_iff.mp hmap
    exact .inside (fun _ => rfl) rfl rfl rfl rfl rfl id
  | exitSeen =>
    obtain ⟨m, -, rfl⟩ := Option.map_eq_some_iff.mp h
    exact .inside (fun _ => rfl) rfl rfl rfl rfl rfl id
  | answerExit =>
    obtain ⟨-, heq⟩ := Option.ite_none_right_eq_some.mp h
    cases heq
    exact .queued (fun _ => rfl) rfl rfl rfl rfl rfl
  | answerOutcome =>
    obtain ⟨-, heq⟩ := Option.ite_none_right_eq_some.mp h
    cases heq
    exact .queued (fun _ => rfl) rfl rfl rfl rfl rfl
  | queueOther =>
    obtain ⟨-, heq⟩ := Option.ite_none_right_eq_some.mp h
    cases heq
    exact .queued (fun _ => rfl) rfl rfl rfl rfl rfl
  | transmit =>
    simp only [step] at h
    split at h
    · cases h
    · rename_i message rest hqueue
      obtain ⟨-, heq⟩ := Option.ite_none_right_eq_some.mp h
      cases heq
      exact .transmitted hqueue
  | writerStops =>
    cases h
    exact .inside (fun _ => rfl) rfl rfl rfl rfl rfl id
  | dispatch =>
    simp only [step] at h
    split at h
    · cases h
    · rename_i message rest hsocket
      cases h
      exact .dispatched hsocket
  | slotTaken =>
    cases h
    refine .inside (fun _ => rfl) rfl rfl rfl rfl rfl ?_
    exact Or.imp_right (Or.imp_right fun hrejected => ⟨hrejected.1, rfl⟩)
  | drained =>
    obtain ⟨hdraining, heq⟩ := Option.ite_none_right_eq_some.mp h
    cases heq
    refine .inside (fun _ => rfl) rfl rfl rfl rfl rfl fun hflushed => ?_
    exact .inr (.inl (hflushed.buffered_nil (by simp [hdraining]) (by simp [hdraining])))
  | requestFails =>
    simp only [step] at h
    split at h
    · cases h
    · cases h
    · cases h
      exact .inside (fun _ => rfl) rfl rfl rfl rfl rfl fun _ => .inr (.inr ⟨rfl, rfl⟩)

/-! ### The books after a step -/

/-- One stream is replaced: it moves, and nothing of the others is lost. -/
theorem moved_update {v w : Which} {y : Stream} {lost : List Sent}
    (hself : w = v → Moved (s.streams w) lost y) (hother : w ≠ v → lost = []) :
    Moved (s.streams w) lost (Function.update s.streams v y w) := by
  by_cases hw : w = v
  · rw [hw, Function.update_self, ← hw]
    exact hself hw
  · rw [Function.update_of_ne hw, hother hw]
    exact .refl _

/-- `capture` passes the chunk on, or throws it away. -/
theorem capture_moved {v : Which} {chunk : List Sent}
    (h : (s.streams v).reader = .capturing chunk) (w : Which) :
    Moved (s.streams w) (thrown s w (.capture v)) ((capture s v chunk).streams w) := by
  have hheld : (s.streams v).held = chunk := by rw [Stream.held, h]
  have hother : w ≠ v → thrown s w (.capture v) = [] := fun hw =>
    if_neg fun hthrows => hw hthrows.1.symm
  unfold capture
  extract_lets x
  split
  · rename_i hmode
    split
    · rename_i hflags
      refine moved_update ?_ hother
      rintro rfl
      rw [thrown, if_pos ⟨rfl, hmode, hflags⟩]
      exact .dropped rfl rfl rfl rfl rfl
    · rename_i hflags
      refine moved_update ?_ hother
      rintro rfl
      rw [thrown, if_neg fun hthrows => hflags hthrows.2.2]
      refine Extends.moved (.of_still rfl ?_ rfl rfl)
      rw [hheld]
      rfl
  · rename_i hmode
    refine moved_update ?_ hother
    rintro rfl
    rw [thrown, if_neg fun hthrows => hmode hthrows.2.1]
    refine .captured rfl rfl rfl rfl ?_
    rw [hheld]

/-- `try_notify` queues the chunk, or it is thrown away. -/
theorem tryNotify_moved {v : Which} {chunk : List Sent}
    (h : (s.streams v).reader = .notifying chunk) (w : Which) :
    Moved (s.streams w) (thrown s w (.tryNotify v)) ((tryNotify s v chunk).streams w) := by
  have hheld : (s.streams v).held = chunk := by rw [Stream.held, h]
  have hother : w ≠ v → thrown s w (.tryNotify v) = [] := fun hw =>
    if_neg fun hthrows => hw hthrows.1.symm
  unfold tryNotify
  extract_lets x
  split
  · rename_i hroom
    refine moved_update ?_ hother
    rintro rfl
    rw [thrown, if_neg fun hthrows => by simp [hthrows.2] at hroom]
    refine .captured rfl rfl rfl rfl ?_
    rw [hheld]
  · rename_i hroom
    refine moved_update ?_ hother
    rintro rfl
    rw [thrown, if_pos ⟨rfl, eq_false_of_ne_true hroom⟩]
    exact .dropped rfl rfl rfl rfl rfl

/-- What the client takes off the connection does nothing to the pipes. -/
@[simp] theorem receive_streams (message : Message) :
    (receive s message).streams = s.streams := by
  cases message <;> simp only [receive] <;> split <;> rfl

/-- What a step does to one stream, with what it throws away. -/
theorem step_moved {e : Event} (h : step s e = some t) (w : Which) :
    Moved (s.streams w) (thrown s w e) (t.streams w) := by
  cases step_effect h with
  | @piped _ _ v bytes y hkept hy hstreams =>
    rw [hkept, hstreams]
    refine moved_update ?_ fun _ => rfl
    intro hw
    rw [hw]
    exact hy.moved
  | captured hreader => exact capture_moved hreader w
  | notified hreader => exact tryNotify_moved hreader w
  | inside hkept hstreams =>
    rw [hkept, hstreams]
    exact .refl _
  | queued hkept _ hstreams =>
    rw [hkept, hstreams]
    exact .refl _
  | transmitted => exact .refl _
  | dispatched =>
    rw [receive_streams]
    exact .refl _

/-- The books of every stream balance. -/
def Balanced (p : System × Losses) : Prop :=
  ∀ w, (books (p.1.streams w) (p.2.thrown w)).Balanced

/-- The books of a child that was just started. -/
theorem balanced_started (mode : Which → OutputMode) : Balanced (watched mode).init := by
  intro w
  have hheld : (Stream.started (mode w)).held = [] := by
    unfold Stream.held Stream.started
    cases mode w <;> rfl
  show (books (Stream.started (mode w)) []).Balanced
  unfold books
  rw [hheld]
  exact Ledger.balanced_empty

/-- A step keeps the books. -/
theorem balanced_step {mode : Which → OutputMode} {p q : System × Losses} {e : Event}
    (hp : Balanced p) (h : (watched mode).step p e = some q) : Balanced q := by
  obtain ⟨hstep, hlosses⟩ := Machine.observe_step.mp h
  intro w
  rw [hlosses]
  exact (step_moved hstep w).balanced (hp w)

end RemoteWorkspace.Analysis.ProcessOutput
