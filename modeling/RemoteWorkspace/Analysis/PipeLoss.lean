import RemoteWorkspace.Analysis.OutputBooks

/-!
# When a piped process is done

A piped stream goes through two channels: from its pipe to the frames that were queued, and
from there over the connection to the stream of the handle. Both keep the order, so what was
given to the consumer is what was written exactly when neither lost anything and nothing is
under way. No frame's number is looked at on the client, and a refused frame only ends the
process: `done` resolves as if the process had ended by itself.
-/

set_option autoImplicit false

namespace RemoteWorkspace.Analysis.ProcessOutput

open RemoteWorkspace.Computation RemoteWorkspace.Model RemoteWorkspace.Model.ProcessOutput

variable {s t : System}

/-! ### The books of the connection -/

/-- The bytes some frames hold for one stream, in order. -/
def dataOf (w : Which) (frames : List Frame) : List Sent :=
  (frames.filter fun frame => frame.which = w).flatMap (·.data)

/-- The bytes some messages carry for one stream. -/
def onWire (w : Which) (messages : List Message) : List Sent :=
  dataOf w (messages.filterMap frameOf)

@[simp] theorem dataOf_nil (w : Which) : dataOf w [] = [] := rfl

@[simp] theorem dataOf_append (w : Which) (l l' : List Frame) :
    dataOf w (l ++ l') = dataOf w l ++ dataOf w l' := by
  rw [dataOf, List.filter_append, List.flatMap_append]
  rfl

theorem dataOf_singleton (w : Which) (frame : Frame) :
    dataOf w [frame] = if frame.which = w then frame.data else [] := by
  by_cases h : frame.which = w <;> simp [dataOf, h]

@[simp] theorem onWire_append (w : Which) (l l' : List Message) :
    onWire w (l ++ l') = onWire w l ++ onWire w l' := by
  rw [onWire, List.filterMap_append, dataOf_append]
  rfl

/-- A message that is no frame carries nothing. -/
theorem onWire_of_none (w : Which) {message : Message} (h : frameOf message = none) :
    onWire w [message] = [] := by
  simp [onWire, h]

theorem onWire_pipe (w v : Which) (seq : ℕ) (data : List Sent) :
    onWire w [.pipe v seq data] = if v = w then data else [] := by
  show dataOf w [⟨v, data⟩] = _
  rw [dataOf_singleton]

/-- What was queued for a stream, what its consumer was given, what arrived at another
handler, and what is held back, on its way or in the queue. -/
def transit (s : System) (w : Which) (missed : List Sent) : Ledger Sent where
  sent := ranged (s.streams w).captured
  arrived := ranged (s.handle.received w)
  dropped := ranged missed
  onWay := ranged (dataOf w s.handle.buffered ++ onWire w (s.socket ++ s.queue))

/-- Frames in a row are delivered one behind the other. -/
theorem foldl_deliver (w : Which) (frames : List Frame) (x : Handle) :
    (frames.foldl deliverPipeFrame x).received w = x.received w ++ dataOf w frames := by
  induction frames generalizing x with
  | nil => simp
  | cons frame frames ih =>
    rw [List.foldl_cons, ih, ← List.singleton_append, dataOf_append, dataOf_singleton,
      ← List.append_assoc]
    congr 1
    show Function.update x.received frame.which (x.received frame.which ++ frame.data) w = _
    by_cases hw : frame.which = w
    · subst hw
      rw [Function.update_self, if_pos rfl]
    · rw [Function.update_of_ne (Ne.symm hw), if_neg hw, List.append_nil]

/-! ### What a step does to the books -/

/-- A step that leaves the handle's streams alone, with what it queues for one stream. -/
structure Fed (s t : System) (w : Which) (chunk : List Sent) : Prop where
  captured : (t.streams w).captured = (s.streams w).captured ++ chunk
  wire : onWire w (t.socket ++ t.queue) = onWire w (s.socket ++ s.queue) ++ chunk
  received : t.handle.received = s.handle.received
  buffered : t.handle.buffered = s.handle.buffered
  flushed : Flushed s.handle → Flushed t.handle

/-- The books of the connection after such a step. -/
theorem Fed.balanced {w : Which} {chunk missed : List Sent} (h : Fed s t w chunk)
    (hs : (transit s w missed).Balanced) : (transit t w missed).Balanced := by
  unfold transit at hs ⊢
  rw [h.captured, h.wire, h.received, h.buffered, ← List.append_assoc, ranged_append,
    ranged_append _ chunk]
  exact hs.send (ranged chunk)

/-- A step that changes nothing the books look at. -/
theorem Fed.of_eq {w : Which} (hstreams : t.streams = s.streams) (hsocket : t.socket = s.socket)
    (hqueue : t.queue = s.queue) (hreceived : t.handle.received = s.handle.received)
    (hbuffered : t.handle.buffered = s.handle.buffered)
    (hflushed : Flushed s.handle → Flushed t.handle) : Fed s t w [] := by
  refine ⟨?_, ?_, hreceived, hbuffered, hflushed⟩
  · rw [hstreams, List.append_nil]
  · rw [hsocket, hqueue, List.append_nil]

/-- A message that is no frame is queued. -/
theorem Fed.of_enqueue {w : Which} {message : Message} (hmessage : frameOf message = none)
    (hstreams : t.streams = s.streams) (hsocket : t.socket = s.socket)
    (hqueue : t.queue = s.queue ++ [message]) (hhandle : t.handle = s.handle) :
    Fed s t w [] := by
  refine ⟨?_, ?_, by rw [hhandle], by rw [hhandle], by rw [hhandle]; exact id⟩
  · rw [hstreams, List.append_nil]
  · rw [hsocket, hqueue, ← List.append_assoc, onWire_append, onWire_of_none w hmessage]

/-- One stream is replaced by one with as much captured. -/
theorem Fed.of_update {v w : Which} {y : Stream}
    (hstreams : t.streams = Function.update s.streams v y)
    (hcaptured : y.captured = (s.streams v).captured) (hsocket : t.socket = s.socket)
    (hqueue : t.queue = s.queue) (hhandle : t.handle = s.handle) : Fed s t w [] := by
  refine ⟨?_, ?_, by rw [hhandle], by rw [hhandle], by rw [hhandle]; exact id⟩
  · rw [hstreams, List.append_nil]
    by_cases hw : w = v
    · rw [hw, Function.update_self, hcaptured]
    · rw [Function.update_of_ne hw]
  · rw [hsocket, hqueue, List.append_nil]

/-- `capture` queues nothing for a piped stream. -/
theorem capture_fed {v w : Which} {chunk : List Sent} (hpiped : (s.streams w).mode = .pipe) :
    Fed s (capture s v chunk) w [] := by
  unfold capture
  extract_lets x
  split
  · split <;> exact .of_update rfl rfl rfl rfl rfl
  · rename_i hmode
    have hne : w ≠ v := by
      rintro rfl
      exact hmode hpiped
    refine ⟨?_, (List.append_nil _).symm, rfl, rfl, id⟩
    show (Function.update s.streams v _ w).captured = _
    rw [Function.update_of_ne hne, List.append_nil]

/-- `try_notify` queues the chunk for its stream, or nothing. -/
theorem tryNotify_fed (v w : Which) (chunk : List Sent) :
    ∃ queued, Fed s (tryNotify s v chunk) w queued := by
  unfold tryNotify
  extract_lets x
  split
  · refine ⟨if v = w then chunk else [], ?_, ?_, rfl, rfl, id⟩
    · show (Function.update s.streams v _ w).captured = _
      by_cases hw : v = w
      · subst hw
        rw [Function.update_self, if_pos rfl]
      · rw [Function.update_of_ne (Ne.symm hw), if_neg hw, List.append_nil]
    · show onWire w (s.socket ++ (s.queue ++ [.pipe v x.sequence chunk])) = _
      rw [← List.append_assoc, onWire_append, onWire_pipe]
  · exact ⟨[], .of_update rfl rfl rfl rfl rfl⟩

/-- Every step but the client's leaves what its streams were given alone. -/
theorem step_fed {e : Event} (h : step s e = some t) (he : e ≠ .dispatch) {w : Which}
    (hpiped : (s.streams w).mode = .pipe) : ∃ chunk, Fed s t w chunk := by
  cases step_effect h with
  | piped _ hy hstreams hsocket hqueue hhandle =>
    exact ⟨[], .of_update hstreams hy.captured hsocket hqueue hhandle⟩
  | captured => exact ⟨[], capture_fed hpiped⟩
  | notified => exact tryNotify_fed _ w _
  | inside _ hstreams hsocket hqueue hreceived hbuffered hflushed =>
    exact ⟨[], .of_eq hstreams hsocket hqueue hreceived hbuffered hflushed⟩
  | queued _ hmessage hstreams hsocket hqueue hhandle =>
    exact ⟨[], .of_enqueue hmessage hstreams hsocket hqueue hhandle⟩
  | transmitted hqueue =>
    refine ⟨[], (List.append_nil _).symm, ?_, rfl, rfl, id⟩
    rw [hqueue, List.append_nil, List.append_assoc, List.singleton_append]
  | dispatched => exact absurd rfl he

/-- What a frame does to the handle, with what was on its way behind it. -/
theorem onPipeFrame_balanced {w v : Which} {sent missed data rest : List Sent} {x : Handle}
    (hflushed : Flushed x)
    (h : (⟨sent, ranged (x.received w), ranged missed,
      ranged (dataOf w x.buffered ++ ((if v = w then data else []) ++ rest))⟩ :
        Ledger Sent).Balanced) :
    (⟨sent, ranged ((onPipeFrame x ⟨v, data⟩).received w),
      ranged (missed ++ if v = w ∧ x.mine = false then data else []),
      ranged (dataOf w (onPipeFrame x ⟨v, data⟩).buffered ++ rest)⟩ :
        Ledger Sent).Balanced := by
  by_cases hmine : x.mine = false
  · have hx : onPipeFrame x ⟨v, data⟩ = x := if_pos hmine
    simp only [hx, hmine, and_true, ranged_append]
    simp only [ranged_append, ← List.append_assoc] at h
    exact h.drop
  · have hkept : (if v = w ∧ x.mine = false then data else []) = [] := if_neg fun hv => hmine hv.2
    rw [hkept, List.append_nil]
    by_cases hrun : x.run = .spawning
    · have hx : onPipeFrame x ⟨v, data⟩ = { x with buffered := x.buffered ++ [⟨v, data⟩] } := by
        rw [onPipeFrame, if_neg hmine, if_pos hrun]
      rw [hx]
      simp only [dataOf_append, dataOf_singleton, List.append_assoc]
      exact h
    · have hx : onPipeFrame x ⟨v, data⟩ = deliverPipeFrame x ⟨v, data⟩ := by
        rw [onPipeFrame, if_neg hmine, if_neg hrun]
      have hnil : x.buffered = [] := by
        rcases hflushed with hspawning | hnil | ⟨-, hfalse⟩
        · exact absurd hspawning hrun
        · exact hnil
        · exact absurd hfalse hmine
      have hreceived : (deliverPipeFrame x ⟨v, data⟩).received w =
          x.received w ++ if v = w then data else [] := by
        rw [← dataOf_singleton w ⟨v, data⟩]
        exact foldl_deliver w [⟨v, data⟩] x
      rw [hx, hreceived,
        show (deliverPipeFrame x ⟨v, data⟩).buffered = [] from hnil, dataOf_nil, ranged_append,
        List.nil_append]
      rw [hnil, dataOf_nil, List.nil_append, ranged_append] at h
      exact h.arrive

/-- The books of the connection after the client took a message off it. -/
theorem receive_balanced {w : Which} {lost : List Sent} {message : Message}
    {rest : List Message} (hsocket : s.socket = message :: rest) (hflushed : Flushed s.handle)
    (h : (transit s w lost).Balanced) :
    (transit (receive { s with socket := rest } message) w
      (lost ++ missed s w .dispatch)).Balanced := by
  have hwire : onWire w (s.socket ++ s.queue) =
      onWire w [message] ++ onWire w (rest ++ s.queue) := by
    rw [hsocket, ← onWire_append, List.singleton_append, List.cons_append]
  unfold transit at h ⊢
  rw [hwire] at h
  cases message with
  | pipe v seq data =>
    rw [onWire_pipe] at h
    have hmissed : missed s w .dispatch = if v = w ∧ s.handle.mine = false then data else [] := by
      simp only [missed, hsocket]
    rw [hmissed]
    exact onPipeFrame_balanced hflushed h
  | spawned =>
    have hmissed : missed s w .dispatch = [] := by simp only [missed, hsocket]
    rw [onWire_of_none w rfl, List.nil_append] at h
    rw [hmissed, List.append_nil]
    simp only [receive]
    split
    · have hreceived : (started s.handle).received w =
          s.handle.received w ++ dataOf w s.handle.buffered :=
        foldl_deliver w s.handle.buffered { s.handle with run := .waiting }
      show (⟨_, ranged ((started s.handle).received w), _,
        ranged ([] ++ onWire w (rest ++ s.queue))⟩ : Ledger Sent).Balanced
      rw [hreceived, ranged_append, List.nil_append]
      rw [ranged_append] at h
      exact h.arrive
    · exact h
  | exited =>
    have hmissed : missed s w .dispatch = [] := by simp only [missed, hsocket]
    rw [onWire_of_none w rfl, List.nil_append] at h
    rw [hmissed, List.append_nil]
    simp only [receive]
    split <;> exact h
  | outcome facts =>
    have hmissed : missed s w .dispatch = [] := by simp only [missed, hsocket]
    rw [onWire_of_none w rfl, List.nil_append] at h
    rw [hmissed, List.append_nil]
    simp only [receive]
    split <;> exact h
  | other =>
    have hmissed : missed s w .dispatch = [] := by simp only [missed, hsocket]
    rw [onWire_of_none w rfl, List.nil_append] at h
    rw [hmissed, List.append_nil]
    exact h

/-- A frame leaves a handle that holds nothing back so. -/
theorem onPipeFrame_flushed {x : Handle} {frame : Frame} (h : Flushed x) :
    Flushed (onPipeFrame x frame) := by
  unfold onPipeFrame
  split
  · exact h
  · rename_i hmine
    split
    · rename_i hrun
      exact .inl hrun
    · rename_i hrun
      rcases h with hspawning | hnil | ⟨-, hfalse⟩
      · exact absurd hspawning hrun
      · exact .inr (.inl hnil)
      · exact absurd hfalse hmine

/-- So does every message. -/
theorem receive_flushed {message : Message} {rest : List Message} (h : Flushed s.handle) :
    Flushed (receive { s with socket := rest } message).handle := by
  cases message with
  | pipe v seq data => exact onPipeFrame_flushed h
  | spawned =>
    simp only [receive]
    split
    · exact .inr (.inl rfl)
    · exact h
  | exited =>
    simp only [receive]
    split
    · rename_i hrun
      exact .inr (.inl (h.buffered_nil (by simp [show s.handle.run = _ from hrun])
        (by simp [show s.handle.run = _ from hrun])))
    · exact h
  | outcome facts =>
    simp only [receive]
    split
    · rename_i hrun
      exact .inr (.inl (h.buffered_nil (by simp [show s.handle.run = _ from hrun])
        (by simp [show s.handle.run = _ from hrun])))
    · exact h
  | other => exact h

/-- Every stream has the mode it was started with, both channels of a piped stream have
balanced books, and its handle holds no frames back once it knows its process. -/
structure Sound (mode : Which → OutputMode) (p : System × Losses) : Prop where
  modes : ∀ w, (p.1.streams w).mode = mode w
  balanced : Balanced p
  transit : ∀ w, mode w = .pipe →
    (transit p.1 w (p.2.missed w)).Balanced ∧ Flushed p.1.handle

/-- A step keeps the mode of a stream. -/
theorem Moved.mode {x y : Stream} {lost : List Sent} (h : Moved x lost y) : y.mode = x.mode := by
  cases h with
  | written bytes hmode => exact hmode
  | captured hmode => exact hmode
  | dropped hmode => exact hmode

/-- A child that was just started. -/
theorem sound_started (mode : Which → OutputMode) : Sound mode (watched mode).init :=
  ⟨fun _ => rfl, balanced_started mode, fun _ _ => ⟨Ledger.balanced_empty, .inl rfl⟩⟩

/-- Only what the client takes off the connection can arrive at another handler. -/
theorem missed_of_ne {e : Event} (he : e ≠ .dispatch) (w : Which) : missed s w e = [] := by
  unfold missed
  split
  · exact absurd rfl he
  · rfl

/-- A step keeps the books of the connection. -/
theorem transit_step {e : Event} {w : Which} {lost : List Sent} (h : step s e = some t)
    (hpiped : (s.streams w).mode = .pipe) (hflushed : Flushed s.handle)
    (hs : (transit s w lost).Balanced) :
    (transit t w (lost ++ missed s w e)).Balanced ∧ Flushed t.handle := by
  by_cases he : e = .dispatch
  · subst he
    simp only [step] at h
    split at h
    · cases h
    · rename_i message rest hsocket
      cases h
      exact ⟨receive_balanced hsocket hflushed hs, receive_flushed hflushed⟩
  · obtain ⟨chunk, hfed⟩ := step_fed h he hpiped
    rw [missed_of_ne he, List.append_nil]
    exact ⟨hfed.balanced hs, hfed.flushed hflushed⟩

/-- A step keeps all of it. -/
theorem sound_step {mode : Which → OutputMode} {p q : System × Losses} {e : Event}
    (hp : Sound mode p) (h : (watched mode).step p e = some q) : Sound mode q := by
  obtain ⟨hstep, hlosses⟩ := Machine.observe_step.mp h
  refine ⟨?_, balanced_step hp.balanced h, ?_⟩
  · intro w
    rw [(step_moved hstep w).mode, hp.modes]
  · intro w hw
    obtain ⟨htransit, hflushed⟩ := hp.transit w hw
    rw [hlosses]
    exact transit_step hstep ((hp.modes w).trans hw) hflushed htransit

/-! ### When `done` resolves -/

/-- The step resolves `done`: the client takes the answer to `sp.outcome` off the
connection. -/
def Resolves (s : System) (e : Event) : Prop :=
  e = .dispatch ∧ s.handle.run = .asking ∧ ∃ facts rest, s.socket = .outcome facts :: rest

/-- If the step resolves `done`, no frame was refused, and each piped stream was given
everything the members of the range wrote to it. -/
def ResolvesWhole (mode : Which → OutputMode) (p : System × Losses) (e : Event) : Prop :=
  Resolves p.1 e → p.2.refused = false ∧ ∀ w, mode w = .pipe →
    ranged (p.1.handle.received w) = ranged (p.1.streams w).written

/-- If the step resolves `done`, no frame was refused, and of what the members wrote to a
piped stream no reader threw anything away, nothing arrived at another handler, and nothing
is left in the pipe, in the reader's hands or on the connection. -/
def ResolvesUndisturbed (mode : Which → OutputMode) (p : System × Losses) (e : Event) : Prop :=
  Resolves p.1 e → p.2.refused = false ∧ ∀ w, mode w = .pipe →
    ranged (p.2.thrown w) = [] ∧ ranged (p.2.missed w) = [] ∧
      ranged (p.1.streams w).pipe = [] ∧ ranged (p.1.streams w).held = [] ∧
        ranged (onWire w (p.1.socket ++ p.1.queue)) = []

/-- A stream was given everything exactly when neither channel lost anything and nothing is
under way. -/
theorem received_iff {mode : Which → OutputMode} {p : System × Losses} {w : Which}
    (hp : Sound mode p) (hw : mode w = .pipe) (hrun : p.1.handle.run = .asking) :
    ranged (p.1.handle.received w) = ranged (p.1.streams w).written ↔
      ranged (p.2.thrown w) = [] ∧ ranged (p.2.missed w) = [] ∧
        ranged (p.1.streams w).pipe = [] ∧ ranged (p.1.streams w).held = [] ∧
          ranged (onWire w (p.1.socket ++ p.1.queue)) = [] := by
  obtain ⟨htransit, hflushed⟩ := hp.transit w hw
  have hbuffered : p.1.handle.buffered = [] :=
    hflushed.buffered_nil (by simp [hrun]) (by simp [hrun])
  have hboth := (hp.balanced w).trans htransit
  rw [hbuffered, dataOf_nil, List.nil_append] at hboth
  have hiff := hboth.arrived_eq_sent_iff
  rw [show ranged (p.1.handle.received w) = ranged (p.1.streams w).written ↔ _ from hiff]
  show ranged (p.2.thrown w) ++ ranged (p.2.missed w) = [] ∧
    ranged (onWire w (p.1.socket ++ p.1.queue)) ++
      ranged ((p.1.streams w).held ++ (p.1.streams w).pipe) = [] ↔ _
  rw [ranged_append (p.1.streams w).held]
  simp only [List.append_eq_nil_iff]
  tauto

/-- In every run of a process, whatever its streams are, `done` resolves each time without
a refused frame and with everything written to each piped stream delivered exactly when each
time no frame was refused, thrown away or taken by another handler, and nothing is under
way. -/
theorem done_whole_iff (mode : Which → OutputMode) (es : List Event) :
    (watched mode).Each (ResolvesWhole mode) (watched mode).init es ↔
      (watched mode).Each (ResolvesUndisturbed mode) (watched mode).init es := by
  refine Machine.each_iff_each (I := Sound mode) ?_ ?_ (sound_started mode) es
  · intro p e q hp h
    exact sound_step hp h
  · intro p e q hp _
    refine forall_congr' fun hresolves => and_congr_right fun _ => ?_
    exact forall₂_congr fun w hw => received_iff hp hw hresolves.2.1

/-! ### A refused frame -/

/-- Other traffic fills the queue. -/
theorem run_queueOther (mode : Which → OutputMode) (n : ℕ) (s : System) (hwriting : s.writing)
    (hroom : s.queue.length + n ≤ writeBacklogFrames) :
    (machine mode).runFrom s (List.replicate n .queueOther) =
      some { s with queue := s.queue ++ List.replicate n .other } := by
  induction n generalizing s with
  | zero => simp [Machine.runFrom]
  | succ n ih =>
    have hstep : (machine mode).step s .queueOther = some (s.enqueue .other) := by
      refine if_pos ?_
      rw [System.hasRoom, hwriting, Bool.true_and, decide_eq_true_iff]
      omega
    rw [List.replicate_succ, Machine.runFrom, hstep, Option.bind_some,
      ih (s.enqueue .other) hwriting (by
        simp only [System.enqueue, List.length_append, List.length_singleton]
        omega)]
    simp [System.enqueue, List.replicate_succ]

/-- The writer empties it. -/
theorem run_transmit (mode : Which → OutputMode) (messages : List Message) (s : System)
    (hwriting : s.writing) (hqueue : s.queue = messages) :
    (machine mode).runFrom s (List.replicate messages.length .transmit) =
      some { s with queue := [], socket := s.socket ++ messages } := by
  induction messages generalizing s with
  | nil =>
    show some s = some { s with queue := [], socket := s.socket ++ [] }
    rw [List.append_nil, ← hqueue]
  | cons message rest ih =>
    have hstep : (machine mode).step s .transmit =
        some { s with queue := rest, socket := s.socket ++ [message] } := by
      simp only [machine, step, hqueue]
      exact if_pos hwriting
    rw [List.length_cons, List.replicate_succ, Machine.runFrom, hstep, Option.bind_some,
      ih { s with queue := rest, socket := s.socket ++ [message] } hwriting rfl]
    simp

/-- The client takes it off the connection. -/
theorem run_dispatch (mode : Which → OutputMode) (n : ℕ) (s : System)
    (hsocket : s.socket = List.replicate n .other) :
    (machine mode).runFrom s (List.replicate n .dispatch) = some { s with socket := [] } := by
  induction n generalizing s with
  | zero =>
    show some s = some { s with socket := [] }
    rw [← show s.socket = [] from hsocket]
  | succ n ih =>
    have hstep : (machine mode).step s .dispatch =
        some { s with socket := List.replicate n .other } := by
      simp only [machine, step, hsocket, List.replicate_succ, receive]
    rw [List.replicate_succ, Machine.runFrom, hstep, Option.bind_some,
      ih { s with socket := List.replicate n .other } rfl]

/-- The queue fills up between a reader's check and its frame, which is refused; then all of
it is sent and taken. -/
def backlog (w : Which) : List Event :=
  List.replicate writeBacklogFrames .queueOther ++ .tryNotify w ::
    (List.replicate writeBacklogFrames .transmit ++
      List.replicate writeBacklogFrames .dispatch)

/-- What a backlog leaves behind: the frame is gone, and its number is used up. -/
theorem run_backlog (mode : Which → OutputMode) (w : Which) {chunk : List Sent}
    (hreader : (s.streams w).reader = .notifying chunk) (hwriting : s.writing)
    (hqueue : s.queue = []) (hsocket : s.socket = []) :
    (machine mode).runFrom s (backlog w) = some (s.setStream w
      { s.streams w with reader := .abandoning, sequence := (s.streams w).sequence + 1 }) := by
  obtain ⟨managed, abandoned, streams, answering, taken, closed, queue, writing, socket, handle⟩ :=
    s
  subst hqueue hsocket
  let others : List Message := List.replicate writeBacklogFrames .other
  let refused : Which → Stream := Function.update streams w
    { streams w with reader := .abandoning, sequence := (streams w).sequence + 1 }
  have hfull := run_queueOther mode writeBacklogFrames
    ⟨managed, abandoned, streams, answering, taken, closed, [], writing, [], handle⟩ hwriting
    (by simp)
  have hrefused : (machine mode).step
      ⟨managed, abandoned, streams, answering, taken, closed, others, writing, [], handle⟩
      (.tryNotify w) =
        some ⟨managed, abandoned, refused, answering, taken, closed, others, writing, [], handle⟩ := by
    have hnotifying : (streams w).reader = .notifying chunk := hreader
    simp only [machine, step, hnotifying]
    exact congrArg some (if_neg (by simp [System.hasRoom, others]))
  have hsent := run_transmit mode others
    ⟨managed, abandoned, refused, answering, taken, closed, others, writing, [], handle⟩
    hwriting rfl
  have htaken := run_dispatch mode writeBacklogFrames
    ⟨managed, abandoned, refused, answering, taken, closed, [], writing, others, handle⟩ rfl
  rw [List.length_replicate] at hsent
  rw [backlog, Machine.runFrom_append hfull]
  show ((machine mode).step
    ⟨managed, abandoned, streams, answering, taken, closed, others, writing, [], handle⟩
    (.tryNotify w)).bind _ = _
  rw [hrefused, Option.bind_some, Machine.runFrom_append hsent]
  exact htaken

/-- A child writes to its piped stdout and exits; its reader read the chunk and passed the
check of the flags. -/
def chunkRead : List Event :=
  [.answerSpawn, .transmit, .dispatch, .waitForExit, .write .out "lost".toUTF8.toList true,
    .closeEnd .out, .proc .childExits, .read .out 4, .capture .out]

theorem chunkRead_isSome : ((machine stdoutPiped).run chunkRead).isSome = true := by
  decide +kernel

/-- The state before its frame is queued. -/
def chunkReady : System := ((machine stdoutPiped).run chunkRead).get chunkRead_isSome

/-- The state the refused frame leaves behind. -/
def chunkRefused : System :=
  chunkReady.setStream .out
    { chunkReady.streams .out with
      reader := .abandoning, sequence := (chunkReady.streams .out).sequence + 1 }

/-- The process is abandoned and settles, and its exit and its facts are answered. -/
def abandonedRun : List Event :=
  [.abandon .out, .terminate .out, .readEnd .out false, .readerEnds .out,
    .proc (.reap { exitCode := some 0, signal := none }), .proc .record, .proc (.settle false),
    .proc .publish, .exitSeen, .answerExit, .transmit, .dispatch, .drained, .answerOutcome,
    .transmit]

theorem abandonedRun_isSome :
    ((machine stdoutPiped).runFrom chunkRefused abandonedRun).isSome = true := by
  decide +kernel

/-- The state in which the answer to `sp.outcome` has arrived. -/
def abandonedDone : System :=
  ((machine stdoutPiped).runFrom chunkRefused abandonedRun).get abandonedRun_isSome

/-- The run that leads there. -/
theorem run_abandonedDone :
    (machine stdoutPiped).run (chunkRead ++ backlog .out ++ abandonedRun) =
      some abandonedDone := by
  have hread : (machine stdoutPiped).runFrom (machine stdoutPiped).init chunkRead =
      some chunkReady := (Option.some_get chunkRead_isSome).symm
  have hreader : (chunkReady.streams .out).reader =
      .notifying ("lost".toUTF8.toList.map fun byte => ⟨byte, true⟩) := by decide +kernel
  have hrefused : (machine stdoutPiped).runFrom (machine stdoutPiped).init
      (chunkRead ++ backlog .out) = some chunkRefused := by
    rw [Machine.runFrom_append hread]
    exact run_backlog stdoutPiped .out hreader (by decide +kernel) (by decide +kernel)
      (by decide +kernel)
  rw [Machine.run, Machine.runFrom_append hrefused]
  exact (Option.some_get abandonedRun_isSome).symm

/-- A frame the queue refuses is missing, and `done` resolves with exit code 0. -/
theorem refused_frame_silent :
    ¬ ∀ (mode : Which → OutputMode) (es : List Event),
      (watched mode).Each (ResolvesWhole mode) (watched mode).init es := by
  intro hall
  obtain ⟨l, hwatched⟩ : ∃ l, (watched stdoutPiped).runFrom (watched stdoutPiped).init
      (chunkRead ++ backlog .out ++ abandonedRun) = some (abandonedDone, l) :=
    Machine.observe_runFrom run_abandonedDone _
  have heach := hall stdoutPiped (chunkRead ++ backlog .out ++ abandonedRun ++ [.dispatch])
  have hwhole := heach.last hwatched (by
    show (((machine stdoutPiped).step abandonedDone .dispatch).map _).isSome = true
    rw [Option.isSome_map]
    decide +kernel)
  have hasking : abandonedDone.handle.run = .asking := by decide +kernel
  have hsocket : abandonedDone.socket =
      [.outcome (some { exitCode := some 0, signal := none })] := by decide +kernel
  have hdiffer : ranged (abandonedDone.handle.received .out) ≠
      ranged (abandonedDone.streams .out).written := by decide +kernel
  exact hdiffer ((hwhole ⟨rfl, hasking, _, _, hsocket⟩).2 .out rfl)

end RemoteWorkspace.Analysis.ProcessOutput
