import RemoteWorkspace.Computation.Slots
import RemoteWorkspace.Model.PipeFrames
import Mathlib.Data.List.Nodup

/-!
# Where a pushed frame goes

A connection keeps one handler for pipe frames, and every spawn with a piped stream puts
its own there. The handler of an older process is gone once a newer one is spawned, and
when any of them is over its disposer empties the slot for all.

`Demultiplexed` says of every process that what its streams were given, what its handle
still buffers and what is still on the wire are together the bytes the daemon queued for
it. Throughout a run that is the case exactly when each frame arrives while the slot holds
the handler of the handle its process was spawned for.
-/

set_option autoImplicit false

namespace RemoteWorkspace.Analysis.PipeFrames

open RemoteWorkspace.Computation RemoteWorkspace.Model RemoteWorkspace.Model.PipeFrames

variable {s s' : Channel}

/-! ### What a process is owed -/

/-- The bytes some frames hold for one stream of one process, in order. -/
def bytesOf (procId : ProcId) (stream : PipeStream) (frames : List SpPipeFrame) : Bytes :=
  (frames.filter fun frame => frame.procId = procId ∧ frame.stream = stream).flatMap (·.data)

/-- The frames among the messages on the wire. -/
def framesOf (wire : List Message) : List SpPipeFrame :=
  wire.filterMap fun message =>
    match message with
    | .pipe frame => some frame
    | .spawned _ _ => none

/-- For every process whose spawn was not refused, each of its streams was given what the
daemon queued for it, up to what its handle buffers and what is on the wire; and a handle
without a process was given nothing. -/
structure Demultiplexed (s : Channel) : Prop where
  exact : ∀ p h handle stream, s.procs[p]? = some h → s.handles[h]? = some handle →
    handle.refused = false →
      handle.received stream ++ bytesOf p stream handle.bufferedFrames ++
        bytesOf p stream (framesOf s.wire) = bytesOf p stream s.frames
  none : ∀ h handle stream, s.handles[h]? = some handle → h ∉ s.procs →
    handle.received stream = []

/-- A frame arrives while the slot holds the handler of the handle its process was spawned
for. -/
def ArrivesHome (s : Channel) : Event → Prop
  | .dispatch =>
    match s.wire with
    | .pipe frame :: _ => ∀ h ∈ s.procs[frame.procId]?, ∀ handle ∈ s.handles[h]?,
        handle.refused = false → s.slot = some (.handler h)
    | _ => True
  | _ => True

@[simp] theorem bytesOf_nil (p : ProcId) (stream : PipeStream) : bytesOf p stream [] = [] := rfl

@[simp] theorem bytesOf_append (p : ProcId) (stream : PipeStream) (l l' : List SpPipeFrame) :
    bytesOf p stream (l ++ l') = bytesOf p stream l ++ bytesOf p stream l' := by
  simp [bytesOf]

theorem bytesOf_cons (p : ProcId) (stream : PipeStream) (frame : SpPipeFrame)
    (l : List SpPipeFrame) :
    bytesOf p stream (frame :: l) =
      (if frame.procId = p ∧ frame.stream = stream then frame.data else []) ++
        bytesOf p stream l := by
  by_cases h : frame.procId = p ∧ frame.stream = stream <;> simp [bytesOf, h]

@[simp] theorem framesOf_pipe (frame : SpPipeFrame) (l : List Message) :
    framesOf (.pipe frame :: l) = frame :: framesOf l := rfl

@[simp] theorem framesOf_spawned (h : ℕ) (p : ProcId) (l : List Message) :
    framesOf (.spawned h p :: l) = framesOf l := rfl

/-! ### Delivering to one handle -/

/-- A handle that knows its process takes the frames of that process and no others. -/
theorem deliver_received {handle : RemoteHandle} {p : ProcId} {frame : SpPipeFrame}
    (hproc : handle.procId = some p) (hpiped : frame.procId = p → handle.piped frame.stream = true)
    (stream : PipeStream) :
    (deliverPipeFrame handle frame).received stream =
      handle.received stream ++ bytesOf p stream [frame] := by
  unfold deliverPipeFrame
  rw [hproc, bytesOf_cons, bytesOf_nil, List.append_nil]
  by_cases hp : frame.procId = p
  · rw [if_neg (by simp [hp]), if_pos (hpiped hp)]
    by_cases hs : frame.stream = stream
    · subst hs
      simp [hp]
    · simp [hp, hs, Function.update_of_ne (Ne.symm hs)]
  · rw [if_pos (by simpa using Ne.symm hp)]
    simp [hp]

/-- A delivery changes what a handle received and nothing else. -/
theorem deliver_rest (handle : RemoteHandle) (frame : SpPipeFrame) :
    deliverPipeFrame handle frame =
      { handle with received := (deliverPipeFrame handle frame).received } := by
  unfold deliverPipeFrame
  split
  · rfl
  · split <;> rfl

/-- Deliveries change what a handle received and nothing else, and take the frames of its
process in order. -/
theorem foldl_deliver {p : ProcId} (l : List SpPipeFrame) (handle : RemoteHandle)
    (hproc : handle.procId = some p)
    (hpiped : ∀ frame ∈ l, frame.procId = p → handle.piped frame.stream = true) :
    l.foldl deliverPipeFrame handle =
      { handle with received := (l.foldl deliverPipeFrame handle).received } ∧
    ∀ stream, (l.foldl deliverPipeFrame handle).received stream =
      handle.received stream ++ bytesOf p stream l := by
  induction l generalizing handle with
  | nil => simp
  | cons frame l ih =>
    have hrest := deliver_rest handle frame
    have hproc' : (deliverPipeFrame handle frame).procId = some p := by
      rw [hrest]
      exact hproc
    have hpiped' : (deliverPipeFrame handle frame).piped = handle.piped := by
      rw [hrest]
    obtain ⟨hfold, hrecv⟩ := ih (deliverPipeFrame handle frame) hproc' fun g hg hgp => by
      rw [hpiped']
      exact hpiped g (List.mem_cons_of_mem _ hg) hgp
    rw [List.foldl_cons]
    constructor
    · rw [hfold, hrest]
    · intro stream
      rw [hrecv, deliver_received hproc (hpiped frame (List.mem_cons_self ..)),
        List.append_assoc, ← bytesOf_append, List.singleton_append]

/-! ### The invariant -/

/-- Which streams each handle pipes. -/
def pipes (s : Channel) : List (PipeStream → Bool) := s.handles.map (·.piped)

/-- A frame is for a process of the channel, on a stream its handle pipes. -/
def Piped (s : Channel) (frame : SpPipeFrame) : Prop :=
  ∃ h piped, s.procs[frame.procId]? = some h ∧ (pipes s)[h]? = some piped ∧
    piped frame.stream = true

/-- Handles, processes and the wire fit together, and every byte is accounted for. -/
structure Wired (s : Channel) : Prop where
  account : ∀ (p h : ℕ) (handle : RemoteHandle) (stream : PipeStream),
    s.procs[p]? = some h → s.handles[h]? = some handle → handle.refused = false →
      handle.received stream ++ bytesOf p stream handle.bufferedFrames ++
        bytesOf p stream (framesOf s.wire) = bytesOf p stream s.frames
  single : s.procs.Nodup
  bound : ∀ h ∈ s.procs, h < s.handles.length
  spawned : ∀ h p, .spawned h p ∈ s.wire → s.procs[p]? = some h
  known : ∀ (h : ℕ) (handle : RemoteHandle) (p : ProcId), s.handles[h]? = some handle →
    handle.procId = some p → s.procs[p]? = some h ∧ handle.bufferedFrames = []
  unknown : ∀ (h : ℕ) (handle : RemoteHandle) (stream : PipeStream),
    s.handles[h]? = some handle → handle.procId = none → handle.received stream = []
  wire : ∀ frame ∈ framesOf s.wire, frame.data ≠ [] ∧ Piped s frame
  buffered : ∀ (h : ℕ) (handle : RemoteHandle), s.handles[h]? = some handle →
    ∀ frame ∈ handle.bufferedFrames, Piped s frame
  frames : ∀ frame ∈ s.frames, frame.procId < s.procs.length

/-- Where everything fits together, every byte goes to its own process. -/
theorem Wired.demultiplexed (hs : Wired s) : Demultiplexed s := by
  refine ⟨hs.account, fun h handle stream hh hnone => ?_⟩
  cases hp : handle.procId with
  | none => exact hs.unknown h handle stream hh hp
  | some p => exact absurd (List.mem_of_getElem? (hs.known h handle p hh hp).1) hnone

/-- A channel nothing was spawned on. -/
theorem wired_empty : Wired .empty :=
  ⟨nofun, List.nodup_nil, nofun, nofun, nofun, nofun, nofun, nofun, nofun⟩

/-- A process is started for one handle. -/
theorem Wired.proc_unique (hs : Wired s) {p q h : ℕ} (hp : s.procs[p]? = some h)
    (hq : s.procs[q]? = some h) : p = q :=
  (List.getElem?_inj (List.getElem?_eq_some_iff.mp hp).1 hs.single).mp (hp.trans hq.symm)

/-- A process that was not started is owed nothing. -/
theorem bytesOf_eq_nil {p : ProcId} {l : List SpPipeFrame} (h : ∀ frame ∈ l, frame.procId ≠ p)
    (stream : PipeStream) : bytesOf p stream l = [] := by
  rw [bytesOf, List.filter_eq_nil_iff.mpr fun frame hf => by simp [h frame hf]]
  rfl

/-- A frame stays piped while processes and handles are added. -/
theorem Piped.mono {frame : SpPipeFrame} (h : Piped s frame)
    (hprocs : ∀ (p : ProcId) (h : ℕ), s.procs[p]? = some h → s'.procs[p]? = some h)
    (hpipes : ∀ (h : ℕ) (x : PipeStream → Bool), (pipes s)[h]? = some x →
      (pipes s')[h]? = some x) : Piped s' frame := by
  obtain ⟨h, piped, hp, hx, hs⟩ := h
  exact ⟨h, piped, hprocs _ _ hp, hpipes _ _ hx, hs⟩

/-- The streams of a handle of the channel. -/
theorem pipes_of_handle {h : ℕ} {handle : RemoteHandle} (hh : s.handles[h]? = some handle) :
    (pipes s)[h]? = some handle.piped := by
  simp [pipes, List.getElem?_map, hh]

/-- A frame of a process is on a stream the handle of that process pipes. -/
theorem Piped.of_handle {frame : SpPipeFrame} (h : Piped s frame) {j : ℕ}
    {handle : RemoteHandle} (hp : s.procs[frame.procId]? = some j)
    (hh : s.handles[j]? = some handle) : handle.piped frame.stream = true := by
  obtain ⟨j', piped, hp', hx, hs⟩ := h
  obtain rfl := Option.some.inj (hp.symm.trans hp')
  obtain rfl := Option.some.inj (hx.symm.trans (pipes_of_handle hh))
  exact hs

/-! ### The events that touch no stream -/

/-- An event that may refuse a handle or take its handler away. -/
theorem Wired.quiet (hs : Wired s)
    (hhandles : ∀ (h : ℕ) (y : RemoteHandle), s'.handles[h]? = some y →
      ∃ x, s.handles[h]? = some x ∧ y.procId = x.procId ∧
        y.bufferedFrames = x.bufferedFrames ∧ y.received = x.received ∧
        (y.refused = false → x.refused = false))
    (hpipes : pipes s' = pipes s) (hwire : s'.wire = s.wire) (hprocs : s'.procs = s.procs)
    (hframes : s'.frames = s.frames) : Wired s' := by
  have hlength : s'.handles.length = s.handles.length := by
    simpa [pipes] using congrArg List.length hpipes
  have hpiped : ∀ frame, Piped s frame → Piped s' frame := fun frame h =>
    h.mono (fun p h hp => hprocs ▸ hp) fun h x hx => hpipes ▸ hx
  refine ⟨fun p h y stream hp hy hr => ?_, hprocs ▸ hs.single, ?_, ?_, fun h y p hy hp => ?_,
    fun h y stream hy hp => ?_, fun frame hf => ?_, fun h y hy frame hf => ?_, ?_⟩
  · obtain ⟨x, hx, -, hbuf, hrecv, href⟩ := hhandles h y hy
    rw [hbuf, hrecv, hwire, hframes]
    exact hs.account p h x stream (hprocs ▸ hp) hx (href hr)
  · rw [hprocs, hlength]
    exact hs.bound
  · rw [hprocs, hwire]
    exact hs.spawned
  · obtain ⟨x, hx, hproc, hbuf, -, -⟩ := hhandles h y hy
    rw [hprocs, hbuf]
    exact hs.known h x p hx (hproc ▸ hp)
  · obtain ⟨x, hx, hproc, -, hrecv, -⟩ := hhandles h y hy
    rw [hrecv]
    exact hs.unknown h x stream hx (hproc ▸ hp)
  · obtain ⟨hdata, hpi⟩ := hs.wire frame (hwire ▸ hf)
    exact ⟨hdata, hpiped frame hpi⟩
  · obtain ⟨x, hx, -, hbuf, -, -⟩ := hhandles h y hy
    exact hpiped frame (hs.buffered h x hx frame (hbuf ▸ hf))
  · rw [hframes, hprocs]
    exact hs.frames

/-- A handler is taken away. -/
theorem wired_closePipes (hs : Wired s) (h : ℕ) (handle : RemoteHandle) :
    Wired (closePipes s h handle) := by
  unfold closePipes
  split
  · refine hs.quiet (fun j y hy => ?_) (map_modify_of_eq (fun _ => by rfl) s.handles h) rfl rfl rfl
    obtain ⟨x, hx, ⟨-, rfl⟩ | ⟨-, rfl⟩⟩ := getElem?_modify_cases hy
    · exact ⟨x, hx, rfl, rfl, rfl, id⟩
    · exact ⟨y, hx, rfl, rfl, rfl, id⟩
  · exact hs

/-- A spawn is refused. -/
theorem wired_refuse (hs : Wired s) (h : ℕ) :
    Wired (s.setHandle h fun x => { x with refused := true }) := by
  refine hs.quiet (fun j y hy => ?_) (map_modify_of_eq (fun _ => by rfl) s.handles h) rfl rfl rfl
  obtain ⟨x, hx, ⟨-, rfl⟩ | ⟨-, rfl⟩⟩ := getElem?_modify_cases hy
  · exact ⟨x, hx, rfl, rfl, rfl, nofun⟩
  · exact ⟨y, hx, rfl, rfl, rfl, id⟩

/-- A new handle has no process yet. -/
theorem wired_spawn (hs : Wired s) (piped : PipeStream → Bool) (slot : Option Slot) :
    Wired { s with handles := s.handles ++ [createRemoteHandle piped], slot := slot } := by
  have hpiped : ∀ frame, Piped s frame →
      Piped { s with handles := s.handles ++ [createRemoteHandle piped], slot := slot } frame := by
    refine fun frame h => h.mono (fun p h hp => hp) fun h x hx => ?_
    simp only [pipes, List.map_append] at hx ⊢
    exact getElem?_concat_of_some hx
  refine ⟨fun p h y stream hp hy hr => ?_, hs.single, fun h hh => ?_, hs.spawned,
    fun h y p hy hp => ?_, fun h y stream hy hp => ?_, fun frame hf => ?_,
    fun h y hy frame hf => ?_, hs.frames⟩
  · rcases getElem?_concat_cases hy with hy | ⟨rfl, -⟩
    · exact hs.account p h y stream hp hy hr
    · exact absurd (hs.bound _ (List.mem_of_getElem? hp)) (Nat.lt_irrefl _)
  · have := hs.bound h hh
    simp
    omega
  · rcases getElem?_concat_cases hy with hy | ⟨-, rfl⟩
    · exact hs.known h y p hy hp
    · cases hp
  · rcases getElem?_concat_cases hy with hy | ⟨-, rfl⟩
    · exact hs.unknown h y stream hy hp
    · rfl
  · obtain ⟨hdata, hpi⟩ := hs.wire frame hf
    exact ⟨hdata, hpiped frame hpi⟩
  · rcases getElem?_concat_cases hy with hy | ⟨-, rfl⟩
    · exact hpiped frame (hs.buffered h y hy frame hf)
    · cases hf

/-! ### The daemon's events -/

/-- A process that was just started is owed nothing yet. -/
theorem wired_start (hs : Wired s) {h : ℕ} (hh : h < s.handles.length) (hnew : h ∉ s.procs) :
    Wired { s with procs := s.procs ++ [h] } := by
  have hold : ∀ (p j : ℕ), s.procs[p]? = some j → (s.procs ++ [h])[p]? = some j := by
    intro p j hp
    exact getElem?_concat_of_some hp
  have hpiped : ∀ frame, Piped s frame → Piped { s with procs := s.procs ++ [h] } frame :=
    fun frame hpi => hpi.mono hold fun _ _ hx => hx
  refine ⟨fun p j y stream hp hy hr => ?_, ?_, fun j hj => ?_,
    fun j p hj => hold p j (hs.spawned j p hj), fun j y p hy hp => ?_, hs.unknown,
    fun frame hf => ?_, fun j y hy frame hf => hpiped frame (hs.buffered j y hy frame hf),
    fun frame hf => ?_⟩
  · rcases getElem?_concat_cases hp with hp | ⟨rfl, rfl⟩
    · exact hs.account p j y stream hp hy hr
    · have hproc : y.procId = none := by
        cases hp : y.procId with
        | none => rfl
        | some q => exact absurd (List.mem_of_getElem? (hs.known j y q hy hp).1) hnew
      -- no frame was queued for a process that did not exist
      have howed : ∀ frame, Piped s frame → frame.procId ≠ s.procs.length := by
        rintro frame ⟨j, _, hj, -⟩ heq
        rw [heq, List.getElem?_eq_none (Nat.le_refl _)] at hj
        cases hj
      rw [hs.unknown j y stream hy hproc,
        bytesOf_eq_nil fun frame hf => howed frame (hs.buffered j y hy frame hf),
        bytesOf_eq_nil fun frame hf => howed frame (hs.wire frame hf).2,
        bytesOf_eq_nil fun frame hf => Nat.ne_of_lt (hs.frames frame hf)]
      rfl
  · exact nodup_concat hs.single hnew
  · rcases List.mem_append.mp hj with hj | hj
    · exact hs.bound j hj
    · rw [List.mem_singleton.mp hj]
      exact hh
  · obtain ⟨hp', hbuf⟩ := hs.known j y p hy hp
    exact ⟨hold p j hp', hbuf⟩
  · obtain ⟨hdata, hpi⟩ := hs.wire frame hf
    exact ⟨hdata, hpiped frame hpi⟩
  · simp only [List.length_append, List.length_singleton]
    exact Nat.lt_succ_of_lt (hs.frames frame hf)

/-- An answer on the wire names the process of its handle. -/
theorem wired_answer (hs : Wired s) {h : ℕ} {p : ProcId} (hp : s.procs[p]? = some h)
    (answered : List ProcId) :
    Wired { s with wire := s.wire ++ [.spawned h p], answered := answered } := by
  have hwire : framesOf (s.wire ++ [.spawned h p]) = framesOf s.wire := by simp [framesOf]
  refine ⟨?_, hs.single, hs.bound, fun j q hj => ?_, hs.known, hs.unknown, ?_, hs.buffered,
    hs.frames⟩
  · simp only [hwire]
    exact hs.account
  · rcases List.mem_append.mp hj with hj | hj
    · exact hs.spawned j q hj
    · obtain ⟨rfl, rfl⟩ := Message.spawned.inj (List.mem_singleton.mp hj)
      exact hp
  · simp only [hwire]
    exact hs.wire

/-- A queued frame is owed and on the wire. -/
theorem wired_queue (hs : Wired s) {frame : SpPipeFrame} (hdata : frame.data ≠ [])
    (hpiped : Piped s frame) :
    Wired { s with wire := s.wire ++ [.pipe frame], frames := s.frames ++ [frame] } := by
  have hwire : framesOf (s.wire ++ [.pipe frame]) = framesOf s.wire ++ [frame] := by
    simp [framesOf]
  refine ⟨fun p h y stream hp hy hr => ?_, hs.single, hs.bound, fun j q hj => ?_, hs.known,
    hs.unknown, fun f hf => ?_, hs.buffered, fun f hf => ?_⟩
  · simp only [hwire, bytesOf_append]
    rw [← hs.account p h y stream hp hy hr, List.append_assoc, List.append_assoc,
      List.append_assoc]
  · rcases List.mem_append.mp hj with hj | hj
    · exact hs.spawned j q hj
    · cases List.mem_singleton.mp hj
  · simp only [hwire] at hf
    rcases List.mem_append.mp hf with hf | hf
    · exact hs.wire f hf
    · rw [List.mem_singleton.mp hf]
      exact ⟨hdata, hpiped⟩
  · rcases List.mem_append.mp hf with hf | hf
    · exact hs.frames f hf
    · rw [List.mem_singleton.mp hf]
      obtain ⟨h, _, hp, -⟩ := hpiped
      exact (List.getElem?_eq_some_iff.mp hp).1

/-! ### The client's events -/

/-- A handle's own handler moves a frame from the wire to its buffer or its stream. -/
theorem onPipeFrame_account {handle : RemoteHandle} {frame : SpPipeFrame} {p : ProcId}
    (hproc : ∀ q, handle.procId = some q → q = p ∧ handle.bufferedFrames = [])
    (hpiped : frame.procId = p → handle.piped frame.stream = true) (stream : PipeStream) :
    (onPipeFrame handle frame).received stream ++
        bytesOf p stream (onPipeFrame handle frame).bufferedFrames =
      handle.received stream ++ bytesOf p stream handle.bufferedFrames ++
        bytesOf p stream [frame] := by
  unfold onPipeFrame
  split
  · simp
  · rename_i q hq
    obtain ⟨rfl, hbuf⟩ := hproc q hq
    rw [deliver_rest]
    simp [hbuf, deliver_received hq hpiped]

/-- A handler leaves the handle otherwise as it is. -/
theorem onPipeFrame_rest (handle : RemoteHandle) (frame : SpPipeFrame) :
    onPipeFrame handle frame = { handle with
      bufferedFrames := (onPipeFrame handle frame).bufferedFrames
      received := (onPipeFrame handle frame).received } := by
  unfold onPipeFrame
  split
  · rfl
  · rw [deliver_rest]

/-- A handler buffers a frame only while it does not know its process, and only then. -/
theorem onPipeFrame_cases (handle : RemoteHandle) (frame : SpPipeFrame) :
    (handle.procId = none ∧ (onPipeFrame handle frame).received = handle.received ∧
      (onPipeFrame handle frame).bufferedFrames = handle.bufferedFrames ++ [frame]) ∨
    (handle.procId ≠ none ∧
      (onPipeFrame handle frame).bufferedFrames = handle.bufferedFrames) := by
  unfold onPipeFrame
  split
  · rename_i hnone
    exact .inl ⟨hnone, rfl, rfl⟩
  · rename_i q hq
    rw [deliver_rest]
    exact .inr ⟨by simp [hq], rfl⟩

/-- A frame goes to the handle whose handler is in the slot, or nowhere. -/
theorem receive_pipe (u : Channel) (frame : SpPipeFrame) :
    (∃ j, u.slot = some (.handler j) ∧
      receive u (.pipe frame) = u.setHandle j fun handle => onPipeFrame handle frame) ∨
    ((∀ j, u.slot ≠ some (.handler j)) ∧ receive u (.pipe frame) = u) := by
  rcases hslot : u.slot with _ | j | _
  · exact .inr ⟨nofun, by simp [receive, hslot]⟩
  · exact .inl ⟨j, rfl, by simp [receive, hslot]⟩
  · exact .inr ⟨nofun, by simp [receive, hslot]⟩

/-- A frame that arrives while the slot holds the handler of its own handle reaches it; no
other handle's account sees it. -/
theorem wired_pipe (hs : Wired s) {frame : SpPipeFrame} {rest : List Message}
    (hwire : s.wire = .pipe frame :: rest)
    (hG : ∀ h ∈ s.procs[frame.procId]?, ∀ handle ∈ s.handles[h]?, handle.refused = false →
      s.slot = some (.handler h)) :
    Wired (receive { s with wire := rest } (.pipe frame)) := by
  have hframes : framesOf s.wire = frame :: framesOf rest := by rw [hwire, framesOf_pipe]
  have hpiped : Piped s frame := (hs.wire frame (by simp [hframes])).2
  -- a handle that did not get the frame was not owed it
  have hother : ∀ (p h : ℕ) (handle : RemoteHandle) (stream : PipeStream),
      s.procs[p]? = some h → s.handles[h]? = some handle → handle.refused = false →
      s.slot ≠ some (.handler h) →
      handle.received stream ++ bytesOf p stream handle.bufferedFrames ++
        bytesOf p stream (framesOf rest) = bytesOf p stream s.frames := by
    intro p h handle stream hp hh hr hslot
    have hne : frame.procId ≠ p := by
      rintro rfl
      exact hslot (hG h hp handle hh hr)
    have := hs.account p h handle stream hp hh hr
    rw [hframes, bytesOf_cons, if_neg fun hc => hne hc.1] at this
    exact this
  obtain ⟨j, hslot, hrecv⟩ | ⟨hslot, hrecv⟩ := receive_pipe { s with wire := rest } frame
  · rw [hrecv]
    have hpipes : pipes ({ s with wire := rest }.setHandle j
        fun handle => onPipeFrame handle frame) = pipes s :=
      map_modify_of_eq (fun x => by rw [onPipeFrame_rest]) s.handles j
    have hmono : ∀ f, Piped s f → Piped ({ s with wire := rest }.setHandle j
        fun handle => onPipeFrame handle frame) f :=
      fun f hpi => hpi.mono (fun _ _ hp => hp) fun _ _ hx => hpipes ▸ hx
    refine ⟨fun p h y stream hp hy hr => ?_, hs.single, fun h hh => ?_,
      fun i q hi => hs.spawned i q (by rw [hwire]; exact .tail _ hi),
      fun h y p hy hp => ?_, fun h y stream hy hp => ?_, fun f hf => ?_,
      fun h y hy f hf => ?_, hs.frames⟩
    · obtain ⟨x, hx, ⟨rfl, rfl⟩ | ⟨hne, rfl⟩⟩ := getElem?_modify_cases hy
      · have hproc : ∀ q, x.procId = some q → q = p ∧ x.bufferedFrames = [] := by
          intro q hq
          obtain ⟨hqj, hbuf⟩ := hs.known j x q hx hq
          exact ⟨hs.proc_unique hqj hp, hbuf⟩
        have hr' : x.refused = false := by
          rw [onPipeFrame_rest] at hr
          exact hr
        have hacc := hs.account p j x stream hp hx hr'
        rw [onPipeFrame_account hproc (fun hfp => hpiped.of_handle (hfp ▸ hp) hx)]
        rw [hframes, ← List.singleton_append, bytesOf_append, ← List.append_assoc] at hacc
        exact hacc
      · refine hother p h y stream hp hx hr fun hc => ?_
        exact hne (Slot.handler.inj (Option.some.inj (hslot.symm.trans hc)))
    · simpa [Channel.setHandle] using hs.bound h hh
    · obtain ⟨x, hx, ⟨rfl, rfl⟩ | ⟨-, rfl⟩⟩ := getElem?_modify_cases hy
      · rw [onPipeFrame_rest] at hp
        obtain ⟨hproc, hbuf⟩ := hs.known j x p hx hp
        refine ⟨hproc, ?_⟩
        rcases onPipeFrame_cases x frame with ⟨hnone, -, -⟩ | ⟨-, hsame⟩
        · rw [show x.procId = some p from hp] at hnone
          cases hnone
        · rw [hsame, hbuf]
      · exact hs.known h y p hx hp
    · obtain ⟨x, hx, ⟨rfl, rfl⟩ | ⟨-, rfl⟩⟩ := getElem?_modify_cases hy
      · rw [onPipeFrame_rest] at hp
        rcases onPipeFrame_cases x frame with ⟨-, hsame, -⟩ | ⟨hsome, -⟩
        · rw [hsame]
          exact hs.unknown j x stream hx hp
        · exact absurd hp hsome
      · exact hs.unknown h y stream hx hp
    · obtain ⟨hdata, hpi⟩ := hs.wire f (by rw [hframes]; exact .tail _ hf)
      exact ⟨hdata, hmono f hpi⟩
    · obtain ⟨x, hx, ⟨rfl, rfl⟩ | ⟨-, rfl⟩⟩ := getElem?_modify_cases hy
      · rcases onPipeFrame_cases x frame with ⟨-, -, hbuf⟩ | ⟨-, hbuf⟩
        · rw [hbuf] at hf
          rcases List.mem_append.mp hf with hf | hf
          · exact hmono f (hs.buffered j x hx f hf)
          · rw [List.mem_singleton.mp hf]
            exact hmono frame hpiped
        · exact hmono f (hs.buffered j x hx f (hbuf ▸ hf))
      · exact hmono f (hs.buffered h y hx f hf)
  · rw [hrecv]
    exact ⟨fun p h handle stream hp hh hr => hother p h handle stream hp hh hr (hslot h),
      hs.single, hs.bound, fun j q hj => hs.spawned j q (by rw [hwire]; exact .tail _ hj),
      hs.known, hs.unknown, fun f hf => hs.wire f (by rw [hframes]; exact .tail _ hf),
      hs.buffered, hs.frames⟩

/-- What the spawn answer does to its handle: the frames of its process that came before it
are delivered, in order. -/
theorem started_spec {handle : RemoteHandle} {p : ProcId}
    (hpiped : ∀ frame ∈ handle.bufferedFrames, frame.procId = p →
      handle.piped frame.stream = true) :
    started handle p = { handle with
      procId := some p, bufferedFrames := [], received := (started handle p).received } ∧
    ∀ stream, (started handle p).received stream =
      handle.received stream ++ bytesOf p stream handle.bufferedFrames := by
  obtain ⟨hrest, hrecv⟩ := foldl_deliver (p := p) handle.bufferedFrames
    { handle with procId := some p } rfl hpiped
  refine ⟨?_, hrecv⟩
  unfold started
  rw [hrest]

/-- The spawn answer leaves it as it is which streams a handle pipes. -/
theorem started_piped (handle : RemoteHandle) (p : ProcId) :
    (started handle p).piped = handle.piped := by
  have hfold : ∀ (l : List SpPipeFrame) (x : RemoteHandle),
      (l.foldl deliverPipeFrame x).piped = x.piped := by
    intro l
    induction l with
    | nil => exact fun _ => rfl
    | cons frame l ih =>
      intro x
      rw [List.foldl_cons, ih, deliver_rest]
  exact hfold handle.bufferedFrames { handle with procId := some p }

/-- The spawn answer hands the handle the frames that came before it. -/
theorem wired_spawned (hs : Wired s) {h : ℕ} {p : ProcId} {rest : List Message}
    (hwire : s.wire = .spawned h p :: rest) :
    Wired (receive { s with wire := rest } (.spawned h p)) := by
  have hframes : framesOf s.wire = framesOf rest := by rw [hwire, framesOf_spawned]
  have hp : s.procs[p]? = some h := hs.spawned h p (by rw [hwire]; exact .head _)
  have hpipes : pipes (receive { s with wire := rest } (.spawned h p)) = pipes s := by
    refine map_modify_of_eq (fun x => ?_) s.handles h
    split
    · rfl
    · exact started_piped x p
  have hmono : ∀ frame, Piped s frame →
      Piped (receive { s with wire := rest } (.spawned h p)) frame :=
    fun frame hpi => hpi.mono (fun _ _ hq => hq) fun _ _ hx => hpipes ▸ hx
  -- a handle is as it was, or it was answered
  have hcases : ∀ (j : ℕ) (y : RemoteHandle),
      (receive { s with wire := rest } (.spawned h p)).handles[j]? = some y →
      s.handles[j]? = some y ∨
        j = h ∧ ∃ x, s.handles[h]? = some x ∧ y.procId = some p ∧ y.bufferedFrames = [] ∧
          y.refused = x.refused ∧ ∀ stream, y.received stream =
            x.received stream ++ bytesOf p stream x.bufferedFrames := by
    intro j y hy
    obtain ⟨x, hx, ⟨rfl, rfl⟩ | ⟨-, rfl⟩⟩ := getElem?_modify_cases hy
    · by_cases hr : x.refused = true
      · rw [if_pos hr]
        exact .inl hx
      · rw [if_neg hr]
        obtain ⟨hrest, hrecv⟩ := started_spec (p := p) fun frame hf hfp =>
          (hs.buffered h x hx frame hf).of_handle (hfp ▸ hp) hx
        exact .inr ⟨rfl, x, hx, by rw [hrest], by rw [hrest], by rw [hrest], hrecv⟩
    · exact .inl hx
  refine ⟨fun q j y stream hq hy hr => ?_, hs.single, fun j hj => ?_,
    fun j q hj => hs.spawned j q (by rw [hwire]; exact .tail _ hj), fun j y q hy hq => ?_,
    fun j y stream hy hnone => ?_, fun frame hf => ?_, fun j y hy frame hf => ?_, hs.frames⟩
  · rcases hcases j y hy with hy | ⟨rfl, x, hx, -, hbuf, href, hrecv⟩
    · have := hs.account q j y stream hq hy hr
      rw [hframes] at this
      exact this
    · obtain rfl := hs.proc_unique hq hp
      have := hs.account q j x stream hq hx (href ▸ hr)
      rw [hframes] at this
      rw [hrecv, hbuf, bytesOf_nil, List.append_nil]
      exact this
  · simpa [receive, Channel.setHandle] using hs.bound j hj
  · rcases hcases j y hy with hy | ⟨rfl, x, -, hproc, hbuf, -⟩
    · exact hs.known j y q hy hq
    · obtain rfl := Option.some.inj (hproc.symm.trans hq)
      exact ⟨hp, hbuf⟩
  · rcases hcases j y hy with hy | ⟨rfl, x, -, hproc, -⟩
    · exact hs.unknown j y stream hy hnone
    · rw [hproc] at hnone
      cases hnone
  · obtain ⟨hdata, hpi⟩ := hs.wire frame (by rw [hframes]; exact hf)
    exact ⟨hdata, hmono frame hpi⟩
  · rcases hcases j y hy with hy | ⟨rfl, x, -, -, hbuf, -⟩
    · exact hmono frame (hs.buffered j y hy frame hf)
    · rw [hbuf] at hf
      cases hf

/-! ### Every run -/

/-- Every event under which frames come home keeps everything fitting together. -/
theorem wired_step (hs : Wired s) {e : Event} (hG : ArrivesHome s e)
    (h : step s e = some s') : Wired s' := by
  cases e with
  | spawn piped =>
    obtain rfl := Option.some.inj h
    exact wired_spawn hs piped _
  | start j =>
    simp only [step] at h
    split at h
    · rename_i hj
      obtain rfl := Option.some.inj h
      exact wired_start hs hj.1 hj.2
    · cases h
  | answer p =>
    simp only [step] at h
    split at h
    · rename_i j hp
      split at h
      · cases h
      · obtain rfl := Option.some.inj h
        exact wired_answer hs hp _
    · cases h
  | queue p stream data =>
    simp only [step] at h
    split at h
    · rename_i handle hbind
      obtain ⟨j, hp, hj⟩ := Option.bind_eq_some_iff.mp hbind
      split at h
      · rename_i hstream
        obtain rfl := Option.some.inj h
        exact wired_queue hs hstream.2 ⟨j, _, hp, pipes_of_handle hj, hstream.1⟩
      · cases h
    · cases h
  | dispatch =>
    simp only [step] at h
    split at h
    · cases h
    · rename_i message rest hwire
      obtain rfl := Option.some.inj h
      cases message with
      | spawned j p => exact wired_spawned hs hwire
      | pipe frame =>
        simp only [ArrivesHome, hwire] at hG
        exact wired_pipe hs hwire hG
  | refuse j =>
    simp only [step] at h
    split at h
    · split at h
      · obtain rfl := Option.some.inj h
        exact wired_closePipes (wired_refuse hs j) j _
      · cases h
    · cases h
  | finish j =>
    simp only [step] at h
    split at h
    · split at h
      · obtain rfl := Option.some.inj h
        exact wired_closePipes hs j _
      · cases h
    · cases h

/-- A frame that arrives while another handler, or none, is in the slot is lost to its
process. -/
theorem lost_step (hs : Wired s) {e : Event} (hG : ¬ ArrivesHome s e)
    (h : step s e = some s') : ¬ Demultiplexed s' := by
  intro hd
  cases e with
  | dispatch =>
    simp only [step] at h
    split at h
    · cases h
    · rename_i message rest hwire
      obtain rfl := Option.some.inj h
      cases message with
      | spawned j p => exact hG (by simp [ArrivesHome, hwire])
      | pipe frame =>
        simp only [ArrivesHome, hwire, Option.mem_def, not_forall] at hG
        obtain ⟨j, hp, handle, hj, hr, hslot⟩ := hG
        obtain ⟨hdata, -⟩ := hs.wire frame (by rw [hwire]; exact .head _)
        have hj' : (receive { s with wire := rest } (.pipe frame)).handles[j]? = some handle := by
          obtain ⟨i, hi, hrecv⟩ | ⟨-, hrecv⟩ := receive_pipe { s with wire := rest } frame
          · rw [hrecv]
            have hne : i ≠ j := by
              rintro rfl
              exact hslot hi
            simpa [Channel.setHandle, List.getElem?_modify, hne] using hj
          · rw [hrecv]
            exact hj
        obtain ⟨hprocs, hframes, hrest⟩ :
            (receive { s with wire := rest } (.pipe frame)).procs = s.procs ∧
            (receive { s with wire := rest } (.pipe frame)).frames = s.frames ∧
            (receive { s with wire := rest } (.pipe frame)).wire = rest := by
          obtain ⟨i, -, hrecv⟩ | ⟨-, hrecv⟩ := receive_pipe { s with wire := rest } frame
          · rw [hrecv]
            exact ⟨rfl, rfl, rfl⟩
          · rw [hrecv]
            exact ⟨rfl, rfl, rfl⟩
        -- what is owed before the step is more than what is accounted for after it
        have hbefore := hs.account frame.procId j handle frame.stream hp hj hr
        have hafter := hd.exact frame.procId j handle frame.stream (by rw [hprocs]; exact hp)
          hj' hr
        rw [hwire, framesOf_pipe, bytesOf_cons, if_pos ⟨rfl, rfl⟩] at hbefore
        rw [hrest, hframes] at hafter
        have := congrArg List.length (hbefore.trans hafter.symm)
        simp only [List.length_append] at this
        exact hdata (List.length_eq_zero_iff.mp (by omega))
  | _ => exact hG trivial

/-- Along every run, every process gets exactly the bytes queued for its streams if and
only if every frame arrives while the connection's slot holds the handler of the handle
its process was spawned for. -/
theorem demultiplexed_iff (events : List Event) :
    machine.Always Demultiplexed .empty events ↔ machine.Each ArrivesHome .empty events :=
  Machine.always_iff_each (I := Wired) (fun _ hs => hs.demultiplexed)
    (fun _ _ _ hs hG h => wired_step hs hG h) (fun _ _ _ hs hG h => lost_step hs hG h)
    wired_empty events

/-- Two processes with piped output on one channel: a frame of the first arrives after the
second was spawned. -/
def twoSpawns : List Event :=
  [.spawn fun _ => true, .spawn fun _ => true, .start 0, .start 1, .answer 0, .answer 1,
    .dispatch, .dispatch, .queue 0 .stdout [104, 105], .dispatch]

/-- The frame of the older process is lost: the newer one's handler has taken its place. -/
theorem older_process_starves : ¬ ∀ s, machine.Reachable s → Demultiplexed s := by
  intro hall
  have hd := hall _ (Machine.reachable_get twoSpawns (by decide))
  have hlost := hd.exact 0 0 _ .stdout (by decide) rfl (by decide)
  exact absurd hlost (by decide)

end RemoteWorkspace.Analysis.PipeFrames
