import Mathlib.Data.List.Range
import RemoteWorkspace.Analysis.ExitReport
import RemoteWorkspace.Model.TerminalTab

/-!
# What a tab is handed over its sockets

The registry keeps the end of what a terminal printed and hands it to every sink that attaches;
a tab keeps what its earlier sockets brought. The tab is watched with what each terminal printed
so far, and each chunk it was handed with its place in that. Nothing a tab was handed was
made up, nothing was skipped that the host had not dropped; but bytes come twice whenever a
socket brings bytes of the buffer that an earlier one had brought.
-/

set_option autoImplicit false

namespace RemoteWorkspace.Analysis.ReattachedTab

open RemoteWorkspace.Computation RemoteWorkspace.Model RemoteWorkspace.Model.TerminalRegistry
open RemoteWorkspace.Analysis.TerminalRegistry
open RemoteWorkspace.Model.TerminalTab (Page PageEvent Socket Handed chunksOf attachSocket receive)

variable {options : Options}

/-! ### The buffer of a terminal -/

/-- An entry keeps the end of what its terminal printed. -/
structure Ring (entry : TerminalEntry) (stream : Bytes) : Prop where
  bytes : entry.bytes = stream.length
  dropped : entry.dropped = stream.length - bufferBytes
  buffer : entry.buffer = stream.drop (stream.length - bufferBytes)

/-- The end of what is longer by a long chunk is the end of the chunk. -/
theorem drop_append_long (cap : ℕ) (stream : Bytes) {chunk : Bytes} (h : cap ≤ chunk.length) :
    chunk.drop (chunk.length - cap) =
      (stream ++ chunk).drop ((stream ++ chunk).length - cap) := by
  have hlength : (stream ++ chunk).length = stream.length + chunk.length := List.length_append
  have hpast : stream.length ≤ (stream ++ chunk).length - cap := by omega
  have hinside : (stream ++ chunk).length - cap - stream.length = chunk.length - cap := by omega
  rw [List.drop_append, List.drop_eq_nil_of_le hpast, List.nil_append, hinside]

/-- The end of what is longer by a chunk is the end of the end and the chunk. -/
theorem drop_append_short (cap : ℕ) (stream chunk : Bytes) :
    (if cap < (stream.drop (stream.length - cap) ++ chunk).length then
        (stream.drop (stream.length - cap) ++ chunk).drop
          ((stream.drop (stream.length - cap) ++ chunk).length - cap)
      else stream.drop (stream.length - cap) ++ chunk) =
      (stream ++ chunk).drop ((stream ++ chunk).length - cap) := by
  have hlength : (stream ++ chunk).length = stream.length + chunk.length := List.length_append
  have hgrown : stream.drop (stream.length - cap) ++ chunk =
      (stream ++ chunk).drop (stream.length - cap) :=
    (List.drop_append_of_le_length (Nat.sub_le _ _)).symm
  rw [hgrown, List.length_drop, hlength]
  split
  · rw [List.drop_drop]
    congr 1
    omega
  · congr 1
    omega

/-- Output is kept. -/
theorem Ring.append {entry : TerminalEntry} {stream : Bytes} (h : Ring entry stream)
    (chunk : Bytes) : Ring (append entry chunk) (stream ++ chunk) := by
  have hbuffer : (TerminalRegistry.append entry chunk).buffer =
      (stream ++ chunk).drop ((stream ++ chunk).length - bufferBytes) := by
    unfold TerminalRegistry.append
    by_cases hlong : bufferBytes ≤ chunk.length
    · rw [if_pos hlong, ← drop_append_long bufferBytes stream hlong]
    · rw [if_neg hlong, ← drop_append_short, ← h.buffer]
  have hdropped : (TerminalRegistry.append entry chunk).dropped =
      entry.bytes + chunk.length - (TerminalRegistry.append entry chunk).buffer.length := by
    unfold TerminalRegistry.append
    by_cases hlong : bufferBytes ≤ chunk.length
    · rw [if_pos hlong]
    · rw [if_neg hlong]
  have hmin (n cap : ℕ) : n - (n - (n - cap)) = n - cap := by omega
  refine ⟨?_, ?_, hbuffer⟩
  · rw [append_bytes, h.bytes, List.length_append]
  · rw [hdropped, hbuffer, h.bytes, List.length_drop, List.length_append, hmin]

/-- A step that leaves the buffers of all entries, and the counts, alone. -/
structure Retains (s t : Registry) : Prop where
  bytes : ∀ n, (t.entries n).bytes = (s.entries n).bytes
  dropped : ∀ n, (t.entries n).dropped = (s.entries n).dropped
  buffer : ∀ n, (t.entries n).buffer = (s.entries n).buffer

variable {s t u : Registry}

theorem Retains.refl (s : Registry) : Retains s s := ⟨fun _ => rfl, fun _ => rfl, fun _ => rfl⟩

theorem Retains.trans (h : Retains s t) (h' : Retains t u) : Retains s u :=
  ⟨fun n => (h'.bytes n).trans (h.bytes n), fun n => (h'.dropped n).trans (h.dropped n),
    fun n => (h'.buffer n).trans (h.buffer n)⟩

/-- What an entry keeps of the output is kept. -/
theorem Retains.ring (h : Retains s t) {n : ℕ} {stream : Bytes}
    (hring : Ring (s.entries n) stream) : Ring (t.entries n) stream :=
  ⟨(h.bytes n).trans hring.bytes, (h.dropped n).trans hring.dropped,
    (h.buffer n).trans hring.buffer⟩

/-- Assigning other fields of an entry. -/
theorem retains_assign {n : ℕ} {entry : TerminalEntry}
    (hbytes : entry.bytes = (s.entries n).bytes)
    (hdropped : entry.dropped = (s.entries n).dropped)
    (hbuffer : entry.buffer = (s.entries n).buffer) : Retains s (s.assign n entry) := by
  refine ⟨fun m => ?_, fun m => ?_, fun m => ?_⟩
  all_goals
    by_cases hm : m = n
    · subst hm
      simpa [Registry.assign]
    · simp [Registry.assign, hm]

/-- A release. -/
theorem retains_kill (s : Registry) (id : String) : Retains s (kill s id) := by
  unfold kill
  split
  · exact .refl s
  · rename_i n _
    have h : Retains s (s.assign n { s.entries n with
        detachTimer := false, attaches := [], state := .exited,
        handle := { (s.entries n).handle with
          terminations := (s.entries n).handle.terminations + 1 } }) :=
      retains_assign rfl rfl rfl
    exact ⟨h.bytes, h.dropped, h.buffer⟩

theorem retains_kills (ids : List String) (s : Registry) : Retains s (ids.foldl kill s) := by
  induction ids generalizing s with
  | nil => exact .refl s
  | cons id ids ih => exact (retains_kill s id).trans (ih _)

/-- A detach. -/
theorem retains_detach (s : Registry) (id : String) (sink : TerminalSink) :
    Retains s (detach options s id sink) := by
  unfold detach
  split
  · exact .refl s
  · simp only
    split
    · exact retains_assign rfl rfl rfl
    · split
      · refine Retains.trans ?_ (retains_kill _ id)
        exact retains_assign rfl rfl rfl
      · exact retains_assign rfl rfl rfl

/-- The end of a shell. -/
theorem retains_settle (s : Registry) (n : ℕ) (report : Report) :
    Retains s (settle s n report) := by
  have h : Retains s { s.assign n { s.entries n with
      state := .exited, handle := { (s.entries n).handle with ended := true } } with
      reports := s.reports ++ (s.entries n).attaches.map fun k => (k, report) } := by
    have hassign : Retains s (s.assign n { s.entries n with
        state := .exited, handle := { (s.entries n).handle with ended := true } }) :=
      retains_assign rfl rfl rfl
    exact ⟨hassign.bytes, hassign.dropped, hassign.buffer⟩
  simp only [settle]
  split
  · exact h.trans (retains_kill _ _)
  · exact h

/-- A reaction. -/
theorem retains_resumeOutput (s : Registry) (n : ℕ) : Retains s (resumeOutput s n) := by
  unfold resumeOutput
  simp only
  split
  · exact retains_assign rfl rfl rfl
  · exact .refl s

/-- An attach. -/
theorem retains_attach {id : String} {sink : TerminalSink} (h : attach s id sink = .ok t) :
    Retains s t := by
  obtain ⟨n, -, -, rfl⟩ := attach_ok h
  have hassign : Retains s (s.assign n { s.entries n with
      detachTimer := false
      state := if (s.entries n).state = .detached then .running else (s.entries n).state
      attaches := if sink ∈ (s.entries n).attaches then (s.entries n).attaches
        else (s.entries n).attaches ++ [sink] }) :=
    retains_assign rfl rfl rfl
  exact ⟨hassign.bytes, hassign.dropped, hassign.buffer⟩

/-- What a provider writes. -/
theorem retains_writeOutput (s : Registry) (n : ℕ) (chunk : Bytes) :
    Retains s (writeOutput s n chunk) := by
  unfold writeOutput
  split
  · exact .refl s
  · exact retains_assign rfl rfl rfl

/-- The events that change what an entry keeps of the output. -/
def Fills : Event → Prop
  | .spawned _ _ => True
  | .data _ => True
  | _ => False

/-- Every other event leaves the buffers alone. -/
theorem step_retains {e : Event} (hfills : ¬ Fills e)
    (h : TerminalRegistry.step options s e = some t) : Retains s t := by
  cases e with
  | spawned | data => exact absurd trivial hfills
  | «open» =>
    obtain rfl := Option.some.inj h
    exact ⟨fun _ => rfl, fun _ => rfl, fun _ => rfl⟩
  | spawnFailed o =>
    simp only [TerminalRegistry.step] at h
    split at h
    · obtain rfl := Option.some.inj h
      exact ⟨fun _ => rfl, fun _ => rfl, fun _ => rfl⟩
    · cases h
  | attach id sink =>
    simp only [TerminalRegistry.step] at h
    split at h
    · rename_i hattach
      exact Option.some.inj h ▸ retains_attach hattach
    · exact Option.some.inj h ▸ .refl s
  | detach id sink => exact Option.some.inj h ▸ retains_detach s id sink
  | kill id => exact Option.some.inj h ▸ retains_kill s id
  | releaseSession sessionId => exact Option.some.inj h ▸ retains_kills _ s
  | disposeAll => exact Option.some.inj h ▸ retains_kills _ s
  | produce n chunk =>
    obtain ⟨-, heq⟩ := Option.ite_none_right_eq_some.mp h
    exact Option.some.inj heq ▸ retains_assign rfl rfl rfl
  | output d i answer =>
    simp only [TerminalRegistry.step] at h
    split at h
    · obtain rfl := Option.some.inj h
      exact ⟨fun _ => rfl, fun _ => rfl, fun _ => rfl⟩
    · cases h
  | settled d i fulfilled =>
    simp only [TerminalRegistry.step] at h
    split at h
    · obtain rfl := Option.some.inj h
      exact ⟨fun _ => rfl, fun _ => rfl, fun _ => rfl⟩
    · cases h
  | react d =>
    simp only [TerminalRegistry.step] at h
    split at h
    · obtain ⟨-, heq⟩ := Option.ite_none_right_eq_some.mp h
      obtain rfl := Option.some.inj heq
      have hmark : Retains s
          { s with deliveries := s.deliveries.modify d fun x => { x with reacted := true } } :=
        ⟨fun _ => rfl, fun _ => rfl, fun _ => rfl⟩
      exact hmark.trans (retains_resumeOutput _ _)
    · cases h
  | done n outcome =>
    obtain ⟨-, heq⟩ := Option.ite_none_right_eq_some.mp h
    exact Option.some.inj heq ▸ retains_settle s n _
  | valve n =>
    obtain ⟨-, heq⟩ := Option.ite_none_right_eq_some.mp h
    obtain rfl := Option.some.inj heq
    refine Retains.trans ?_ (retains_kill _ _)
    exact retains_assign rfl rfl rfl
  | resized n cols rows =>
    obtain ⟨-, heq⟩ := Option.ite_none_right_eq_some.mp h
    exact Option.some.inj heq ▸ retains_assign rfl rfl rfl

/-- The output stream of a handle is not looked at. -/
theorem Ring.setOutput {entry : TerminalEntry} {stream : Bytes} (h : Ring entry stream)
    (output : TtyOutput) : Ring (entry.setOutput output) stream :=
  ⟨h.bytes, h.dropped, h.buffer⟩

/-- The `data` handler keeps the chunk. -/
theorem Ring.dataHandler {n : ℕ} {stream : Bytes} (h : Ring (s.entries n) stream)
    (chunk : Bytes) : Ring ((dataHandler s n chunk).entries n) (stream ++ chunk) := by
  obtain ⟨hbytes, hbuffer⟩ := dataHandler_buffer s n chunk
  have hdropped : ((TerminalRegistry.dataHandler s n chunk).entries n).dropped =
      (TerminalRegistry.append (s.entries n) chunk).dropped := by
    by_cases hs : (s.entries n).attaches = [] <;>
      simp [TerminalRegistry.dataHandler, hs, Registry.assign, TerminalEntry.setOutput]
  have happend := h.append chunk
  exact ⟨hbytes.trans ((append_bytes _ _).symm.trans happend.bytes),
    hdropped.trans happend.dropped, hbuffer.trans happend.buffer⟩

/-- A chunk that arrives is kept, and every other entry keeps what it had. -/
theorem data_ring {m n : ℕ} {stream : Bytes}
    (h : TerminalRegistry.step options s (.data m) = some t) (hring : Ring (s.entries n) stream) :
    Ring (t.entries n)
      (stream ++ (if m = n then (queuedOf s n).take 1 else []).flatten) := by
  obtain ⟨-, -, htouch, -⟩ := data_queued h
  by_cases hm : m = n
  · subst hm
    simp only [TerminalRegistry.step] at h
    split at h
    · rename_i chunk rest hout
      obtain rfl := Option.some.inj h
      have hchunk : (queuedOf s m).take 1 = [chunk] := by
        rw [queuedOf, hout]
        rfl
      have hassigned : Ring ((s.assign m ((s.entries m).setOutput ⟨true, rest⟩)).entries m)
          stream := by
        simp only [Registry.assign, Function.update_self]
        exact hring.setOutput _
      rw [if_pos rfl, hchunk, List.flatten_singleton]
      exact hassigned.dataHandler chunk
    · cases h
  · rw [if_neg hm, List.flatten_nil, List.append_nil, htouch.others n (Ne.symm hm)]
    exact hring

/-- A shell that is registered has printed nothing. -/
theorem spawned_ring {o pid n : ℕ} {stream : Bytes}
    (h : TerminalRegistry.step options s (.spawned o pid) = some t)
    (hring : Ring (s.entries n) stream) (hfresh : s.nextOrdinal < n → stream = []) :
    Ring (t.entries n) stream := by
  simp only [TerminalRegistry.step] at h
  split at h
  · rename_i sessionId request _
    obtain rfl := Option.some.inj h
    by_cases hn : n = s.nextOrdinal + 1
    · obtain rfl := hfresh (hn ▸ Nat.lt_succ_self _)
      simp only [opened, Registry.assign, hn, Function.update_self]
      exact ⟨rfl, (Nat.zero_sub _).symm, (List.drop_nil).symm⟩
    · simp only [opened, Registry.assign, Function.update_of_ne hn]
      exact hring
  · cases h

/-- An entry keeps the end of what its terminal printed, whatever happens. -/
theorem ring_step {s t : Host} {e : HostEvent} (h : hostStep options s e = some t) {n : ℕ}
    {stream : Bytes} (hring : Ring (s.registry.entries n) stream)
    (hfresh : s.registry.nextOrdinal < n → stream = []) :
    Ring (t.registry.entries n) (stream ++ (emitted s n e).flatten) := by
  have hquiet : emitted s n e = [] → Retains s.registry t.registry →
      Ring (t.registry.entries n) (stream ++ (emitted s n e).flatten) := by
    intro hnone hretains
    rw [hnone, List.flatten_nil, List.append_nil]
    exact hretains.ring hring
  cases hostStep_moves h with
  | published => exact hquiet rfl (retains_writeOutput _ _ _)
  | finished => exact hquiet rfl (retains_writeOutput _ _ _)
  | reported hfinished hstep =>
    exact hquiet rfl (step_retains id hstep)
  | @stepped e r hruns hstep =>
    cases e with
    | spawned o pid =>
      have hspawned := spawned_ring hstep hring hfresh
      rwa [← List.append_nil stream] at hspawned
    | data m => exact data_ring hstep hring
    | _ => exact hquiet rfl (step_retains id hstep)

/-- What each terminal printed so far: its entry keeps the end of it, and an ordinal that was not
handed out printed nothing. -/
structure Printed (s : Host) (streams : ℕ → Bytes) : Prop where
  ring : ∀ n, Ring (s.registry.entries n) (streams n)
  queued : ∀ n, s.registry.nextOrdinal < n → queuedOf s.registry n = []
  fresh : ∀ n, s.registry.nextOrdinal < n → streams n = []

/-- What a terminal prints is added. -/
theorem Printed.step {s t : Host} {streams : ℕ → Bytes} {e : HostEvent} (h : Printed s streams)
    (hstep : hostStep options s e = some t) :
    Printed t fun n => streams n ++ (emitted s n e).flatten := by
  have hflow := step_flow (h.queued _ (Nat.lt_succ_self _)) hstep
  -- an ordinal that is not handed out has no output
  have hnone : ∀ n, t.registry.nextOrdinal < n →
      emitted s n e = [] ∧ queuedOf t.registry n = [] := by
    intro n hn
    have hold : s.registry.nextOrdinal < n := Nat.lt_of_le_of_lt hflow.ordinal hn
    have hwrites : writes n e = [] := by
      by_contra hne
      exact absurd (hflow.known n hne).1 (Nat.not_le.mpr hold)
    have houtput := hflow.output n
    rw [h.queued n hold, hwrites] at houtput
    exact List.append_eq_nil_iff.mp houtput
  refine ⟨fun n => ring_step hstep (h.ring n) (h.fresh n), fun n hn => (hnone n hn).2, ?_⟩
  intro n hn
  show streams n ++ _ = []
  rw [(hnone n hn).1, h.fresh n (Nat.lt_of_le_of_lt hflow.ordinal hn)]
  rfl

/-! ### What a socket is sent -/

/-- What is past some place grows with the whole. -/
theorem drop_append_begins (stream more : Bytes) (origin : ℕ) :
    stream.drop origin <+: (stream ++ more).drop origin := by
  rw [List.drop_append]
  exact List.prefix_append _ _

/-- A sink that viewed an entry once was handed, and has queued for it, what the terminal
printed from some place on; all of it while it is attached. -/
structure Viewing (sink : TerminalSink) (n origin : ℕ) (stream : Bytes) (s : Registry) :
    Prop where
  inside : origin ≤ stream.length
  others : ∀ m, m ≠ n → (s.entries m).attaches.count sink = 0
  once : (s.entries n).attaches.count sink ≤ 1
  owed : sink ∈ (s.entries n).attaches → (served sink s).flatten = stream.drop origin
  part : (served sink s).flatten <+: stream.drop origin

/-- A sink that attaches is handed what the entry keeps. -/
theorem viewing_attach {id : String} {sink : TerminalSink} {n : ℕ} {stream : Bytes}
    (h : attach s id sink = .ok t) (hs : Unknown sink s) (hget : s.get id = some n)
    (hring : Ring (s.entries n) stream) : Viewing sink n (s.entries n).dropped stream t := by
  have hserved := served_attach h hs hget
  have hmem : sink ∈ (t.entries n).attaches := by
    obtain ⟨m, hm, -, -, -, -, hattaches, -⟩ := attach_accepted h
    obtain rfl := Option.some.inj (hget.symm.trans hm)
    rw [hattaches]
    split
    · assumption
    · exact List.mem_append_right _ List.mem_cons_self
  have hall : (TerminalRegistry.served sink t).flatten =
      stream.drop (s.entries n).dropped := by
    rw [hserved.owed hmem, List.append_nil, hring.dropped, ← hring.buffer]
    unfold replayOf
    split
    · rename_i hbuffer
      rw [hbuffer]
      rfl
    · exact List.flatten_singleton
  refine ⟨?_, hserved.others, hserved.once, fun _ => hall, hall ▸ List.prefix_refl _⟩
  rw [hring.dropped]
  exact Nat.sub_le _ _

/-- What is printed is queued for a sink that is attached. -/
theorem Viewing.step {s t : Host} {e : HostEvent} {sink : TerminalSink} {n origin : ℕ}
    {stream : Bytes} (h : Viewing sink n origin stream s.registry) (he : ¬ Attaches sink e)
    (hstep : hostStep options s e = some t) :
    Viewing sink n origin (stream ++ (emitted s n e).flatten) t.registry := by
  have hserves := step_serves he hstep
  have hinside : origin ≤ (stream ++ (emitted s n e).flatten).length := by
    rw [List.length_append]
    exact Nat.le_add_right_of_le h.inside
  have hothers : ∀ m, m ≠ n → (t.registry.entries m).attaches.count sink = 0 := fun m hm =>
    Nat.le_zero.mp ((hserves.attached m).trans (h.others m hm).le)
  have honce := (hserves.attached n).trans h.once
  rcases Nat.le_one_iff_eq_zero_or_eq_one.mp h.once with hnone | hone
  · -- it left before, and is queued nothing more
    have hzero : ∀ m, (s.registry.entries m).attaches.count sink = 0 := fun m =>
      if hm : m = n then hm ▸ hnone else h.others m hm
    have hsame := hserves.served
    rw [queues_nil hzero, List.append_nil] at hsame
    refine ⟨hinside, hothers, honce, fun hmem => ?_, ?_⟩
    · have hpos := (List.count_pos_iff.mpr hmem).trans_le (hserves.attached n)
      omega
    · rw [hsame]
      exact h.part.trans (drop_append_begins _ _ _)
  · have hall : (TerminalRegistry.served sink t.registry).flatten =
        (stream ++ (emitted s n e).flatten).drop origin := by
      have hmem : sink ∈ (s.registry.entries n).attaches := by
        apply List.count_pos_iff.mp
        omega
      rw [hserves.served, queues_emitted h.others hone, List.flatten_append, h.owed hmem,
        List.drop_append_of_le_length h.inside]
    exact ⟨hinside, hothers, honce, fun _ => hall, hall ▸ List.prefix_refl _⟩

/-! ### The tab, watched -/

/-- What each terminal printed, after an event. -/
def prints (s : Page) (streams : ℕ → Bytes) : PageEvent → ℕ → Bytes
  | .host e => fun n => streams n ++ (emitted s.host n e).flatten
  | _ => streams

/-- The tab, with what each terminal printed. -/
def watched (options : Options) (id : Option String) : Machine (Page × (ℕ → Bytes)) PageEvent :=
  (TerminalTab.machine options id).observe (fun _ => []) fun s streams e _ => prints s streams e

/-- The places of a chunk's bytes. -/
def placesOf (x : Handed) : List ℕ := List.range' x.start x.chunk.length

/-- The places of the bytes of a terminal that were handed to the tab's `xterm`, in the order
in which they were. -/
def places (handed : List Handed) (n : ℕ) : List ℕ :=
  (handed.filter fun x => x.entry = n).flatMap placesOf

/-- What the tab's `xterm` was handed of a terminal is what that printed, in order and without
repetition, and a byte between two that it was handed is missing only if the host's ring buffer
dropped it. -/
structure HandedOnce (p : Page × (ℕ → Bytes)) (n : ℕ) : Prop where
  printed : ∀ x ∈ p.1.handed, x.entry = n → x.chunk <+: (p.2 n).drop x.start
  once : (places p.1.handed n).Pairwise (· < ·)
  gaps : ∀ i, i ∉ places p.1.handed n → (∃ j ∈ places p.1.handed n, j < i) →
    (∃ k ∈ places p.1.handed n, i < k) → i < (p.1.host.registry.entries n).dropped

/-- It is so for every terminal. -/
def NoHistoryTwice (p : Page × (ℕ → Bytes)) : Prop := ∀ n, HandedOnce p n

/-- When the first bytes of a socket arrive, all that the `xterm` was handed of the terminal
before had been dropped from its ring buffer when the socket attached. -/
def BeginsAfter (p : Page × (ℕ → Bytes)) : PageEvent → Prop
  | .receive => ∀ socket n chunk, p.1.socket = some socket → socket.viewed = some n →
      (chunksOf p.1 socket.sink)[socket.received]? = some chunk → socket.read = 0 → chunk ≠ [] →
        ∀ i ∈ places p.1.handed n, i < socket.origin
  | _ => True

theorem chunksOf_eq (s : Page) (sink : TerminalSink) :
    chunksOf s sink = outputsTo sink s.host.registry.reports := rfl

/-- The places of one chunk more. -/
theorem places_concat (handed : List Handed) (x : Handed) (n : ℕ) :
    places (handed ++ [x]) n = places handed n ++ if x.entry = n then placesOf x else [] := by
  unfold places
  rw [List.filter_append, List.flatMap_append]
  congr 1
  by_cases h : x.entry = n <;> simp [h]

/-- What holds of the current socket of a tab. -/
structure Wired (p : Page × (ℕ → Bytes)) (c : Socket) : Prop where
  fresh : c.sink < p.1.sockets
  idle : c.viewed = none → Unknown c.sink p.1.host.registry ∧ c.received = 0 ∧ c.read = 0
  viewing : ∀ n, c.viewed = some n →
    Viewing c.sink n c.origin (p.2 n) p.1.host.registry ∧
      c.read = ((chunksOf p.1 c.sink).take c.received).flatten.length ∧
        c.received ≤ (chunksOf p.1 c.sink).length ∧
          c.origin ≤ (p.1.host.registry.entries n).dropped

/-- What holds of every tab. -/
structure Sound (p : Page × (ℕ → Bytes)) : Prop where
  printed : Printed p.1.host p.2
  unknown : ∀ k, p.1.sockets ≤ k → Unknown k p.1.host.registry
  wired : ∀ c, p.1.socket = some c → Wired p c

/-- What the current socket brought is the last that the `xterm` was handed of its terminal. -/
def Told (p : Page × (ℕ → Bytes)) : Prop :=
  ∀ c n, p.1.socket = some c → c.viewed = some n →
    (∀ i, c.origin ≤ i → i < c.origin + c.read → i ∈ places p.1.handed n) ∧
      (0 < c.read → ∀ i ∈ places p.1.handed n, i < c.origin + c.read)

/-! ### What the host does -/

/-- What an entry dropped stays dropped. -/
theorem Printed.dropped_le {s t : Host} {streams : ℕ → Bytes} {e : HostEvent}
    (h : Printed s streams) (hstep : hostStep options s e = some t) (n : ℕ) :
    (s.registry.entries n).dropped ≤ (t.registry.entries n).dropped := by
  rw [(h.ring n).dropped, ((h.step hstep).ring n).dropped, List.length_append]
  omega

/-- A socket keeps what holds of it while another is attached, or none. -/
theorem Wired.host {s : Page} {streams : ℕ → Bytes} {c : Socket} {e : HostEvent} {t : Host}
    {sockets : ℕ} (h : Wired (s, streams) c) (hprinted : Printed s.host streams)
    (hsockets : s.sockets ≤ sockets) (he : ¬ Attaches c.sink e)
    (hstep : hostStep options s.host e = some t) :
    Wired ({ s with host := t, sockets := sockets },
      fun n => streams n ++ (emitted s.host n e).flatten) c := by
  refine ⟨Nat.lt_of_lt_of_le h.fresh hsockets, fun hidle => ?_, fun n hn => ?_⟩
  · obtain ⟨hunknown, hrest⟩ := h.idle hidle
    exact ⟨unknown_step hunknown he hstep, hrest⟩
  · obtain ⟨hviewing, hread, hreceived, horigin⟩ := h.viewing n hn
    obtain ⟨more, hmore⟩ := (step_serves he hstep).handed
    have hlonger : chunksOf s c.sink ++ more = outputsTo c.sink t.registry.reports := hmore
    refine ⟨hviewing.step he hstep, ?_, ?_, horigin.trans (hprinted.dropped_le hstep n)⟩
    · rw [chunksOf_eq, ← hlonger, List.take_append_of_le_length hreceived]
      exact hread
    · rw [chunksOf_eq, ← hlonger, List.length_append]
      exact Nat.le_add_right_of_le hreceived

/-- What the host does hands the tab nothing. -/
theorem HandedOnce.host {s : Page} {streams : ℕ → Bytes} {n : ℕ} {e : HostEvent} {t : Host}
    {u : Page} (h : HandedOnce (s, streams) n) (hprinted : Printed s.host streams)
    (hstep : hostStep options s.host e = some t) (hhost : u.host = t)
    (hhanded : u.handed = s.handed) :
    HandedOnce (u, fun n => streams n ++ (emitted s.host n e).flatten) n := by
  refine ⟨?_, ?_, ?_⟩
  all_goals simp only [hhanded, hhost]
  · exact fun x hx hentry => (h.printed x hx hentry).trans (drop_append_begins _ _ _)
  · exact h.once
  · intro i hi hbefore hafter
    exact Nat.lt_of_lt_of_le (h.gaps i hi hbefore hafter) (hprinted.dropped_le hstep n)

/-! ### A frame that arrives -/

section Receive

variable {p : Page} {streams : ℕ → Bytes} {c : Socket} {n : ℕ} {chunk : Bytes}

/-- A frame carries what its terminal printed where the frames before it ended. -/
theorem chunk_prefix (hc : Wired (p, streams) c) (hn : c.viewed = some n)
    (hchunk : (chunksOf p c.sink)[c.received]? = some chunk) :
    chunk <+: (streams n).drop (c.origin + c.read) := by
  obtain ⟨hviewing, hread, -, -⟩ := hc.viewing n hn
  obtain ⟨hlt, hget⟩ := List.getElem?_eq_some_iff.mp hchunk
  obtain ⟨rest, hrest⟩ := hviewing.part
  have hsplit : chunksOf p c.sink = (chunksOf p c.sink).take c.received ++
      chunk :: (chunksOf p c.sink).drop (c.received + 1) := by
    rw [← hget, List.getElem_cons_drop, List.take_append_drop]
  obtain ⟨later, hserved⟩ : ∃ later, served c.sink p.host.registry =
      (chunksOf p c.sink).take c.received ++ chunk :: later := by
    refine ⟨(chunksOf p c.sink).drop (c.received + 1) ++
      pendingTo c.sink (microtasks p.host.registry.deliveries), ?_⟩
    rw [served, ← chunksOf_eq, ← List.cons_append, ← List.append_assoc, ← hsplit]
  have hall : ((chunksOf p c.sink).take c.received).flatten ++ (chunk ++ (later.flatten ++ rest)) =
      (streams n).drop c.origin := by
    rw [← hrest]
    show _ = (served c.sink p.host.registry).flatten ++ rest
    rw [hserved, List.flatten_append, List.flatten_cons, List.append_assoc, List.append_assoc]
  have hlength : c.read = ((chunksOf p c.sink).take c.received).flatten.length := hread
  refine ⟨later.flatten ++ rest, ?_⟩
  rw [← List.drop_drop, ← hall, hlength, List.drop_left]

/-- The tab after a frame. -/
def arrived (p : Page) (c : Socket) (n : ℕ) (chunk : Bytes) : Page :=
  { p with
    handed := p.handed ++ [⟨n, c.origin + c.read, chunk⟩]
    socket := some { c with received := c.received + 1, read := c.read + chunk.length } }

/-- What arrives is the next frame of the socket. -/
theorem receive_arrived {q : Page} (h : receive p c = some q) :
    ∃ n chunk, c.viewed = some n ∧ (chunksOf p c.sink)[c.received]? = some chunk ∧
      q = arrived p c n chunk := by
  obtain ⟨n, hn, hrest⟩ := Option.bind_eq_some_iff.mp h
  obtain ⟨-, hmap⟩ := Option.ite_none_right_eq_some.mp hrest
  obtain ⟨chunk, hchunk, rfl⟩ := Option.map_eq_some_iff.mp hmap
  exact ⟨n, chunk, hn, hchunk, rfl⟩

/-- The places after a frame. -/
theorem places_arrived (p : Page) (c : Socket) (n : ℕ) (chunk : Bytes) (m : ℕ) :
    places (arrived p c n chunk).handed m =
      places p.handed m ++ if n = m then List.range' (c.origin + c.read) chunk.length else [] :=
  places_concat _ _ _

/-- A socket keeps what holds of it. -/
theorem Sound.arrived (h : Sound (p, streams)) (hc : p.socket = some c)
    (hn : c.viewed = some n) (hchunk : (chunksOf p c.sink)[c.received]? = some chunk) :
    Sound (arrived p c n chunk, streams) := by
  refine ⟨h.printed, h.unknown, fun d hd => ?_⟩
  obtain rfl := Option.some.inj hd
  have hwired := h.wired c hc
  obtain ⟨hlt, -⟩ := List.getElem?_eq_some_iff.mp hchunk
  refine ⟨hwired.fresh, fun hidle => (nomatch hn.symm.trans hidle), fun m hm => ?_⟩
  obtain ⟨hviewing, hread, -, horigin⟩ := hwired.viewing m hm
  refine ⟨hviewing, ?_, hlt, horigin⟩
  show c.read + chunk.length = ((chunksOf p c.sink).take (c.received + 1)).flatten.length
  rw [List.take_add_one, hchunk, Option.toList_some, List.flatten_append, List.length_append,
    List.flatten_singleton, hread]

/-- All that the `xterm` was handed of the terminal lies before a frame that arrives. -/
theorem before_arrived (htold : Told (p, streams)) (hbegins : BeginsAfter (p, streams) .receive)
    (hc : p.socket = some c) (hn : c.viewed = some n)
    (hchunk : (chunksOf p c.sink)[c.received]? = some chunk) (hne : chunk ≠ []) {i : ℕ}
    (hi : i ∈ places p.handed n) : i < c.origin + c.read := by
  rcases Nat.eq_zero_or_pos c.read with hzero | hpos
  · rw [hzero]
    exact hbegins c n chunk hc hn hchunk hzero hne i hi
  · exact (htold c n hc hn).2 hpos i hi

/-- What a frame brings is the last. -/
theorem Told.arrived (h : Told (p, streams)) (hbegins : BeginsAfter (p, streams) .receive)
    (hc : p.socket = some c) (hn : c.viewed = some n)
    (hchunk : (chunksOf p c.sink)[c.received]? = some chunk) :
    Told (arrived p c n chunk, streams) := by
  intro d m hd hm
  obtain rfl := Option.some.inj hd
  obtain rfl : n = m := Option.some.inj (hn.symm.trans hm)
  obtain ⟨hall, hlast⟩ := h c n hc hn
  constructor
  · intro i hlow hhigh
    have hbound : i < c.origin + (c.read + chunk.length) := hhigh
    rw [places_arrived, if_pos rfl, List.mem_append, List.mem_range'_1]
    rcases Nat.lt_or_ge i (c.origin + c.read) with hold | hnew
    · exact .inl (hall i hlow hold)
    · exact .inr ⟨hnew, by omega⟩
  · intro hpos i hi
    have hread : 0 < c.read + chunk.length := hpos
    show i < c.origin + (c.read + chunk.length)
    rw [places_arrived, if_pos rfl, List.mem_append, List.mem_range'_1] at hi
    rcases hi with hi | hi
    · by_cases hempty : chunk = []
      · rw [hempty, List.length_nil] at hread ⊢
        exact hlast hread i hi
      · have hlt := before_arrived h hbegins hc hn hchunk hempty hi
        omega
    · omega

/-- A frame that begins after all that was handed is handed in order. -/
theorem HandedOnce.arrived (h : NoHistoryTwice (p, streams)) (hwired : Wired (p, streams) c)
    (htold : Told (p, streams)) (hbegins : BeginsAfter (p, streams) .receive)
    (hc : p.socket = some c) (hn : c.viewed = some n)
    (hchunk : (chunksOf p c.sink)[c.received]? = some chunk) :
    NoHistoryTwice (arrived p c n chunk, streams) := by
  intro m
  obtain ⟨hprinted, honce, hgaps⟩ := h m
  have hplaces := places_arrived p c n chunk m
  refine ⟨fun x hx hentry => ?_, ?_, ?_⟩
  · rcases List.mem_append.mp hx with hx | hx
    · exact hprinted x hx hentry
    · obtain rfl := List.mem_singleton.mp hx
      obtain rfl : n = m := hentry
      exact chunk_prefix hwired hn hchunk
  · rw [hplaces]
    split
    · rename_i hm
      subst hm
      refine List.pairwise_append.mpr ⟨honce, List.pairwise_lt_range', fun i hi j hj => ?_⟩
      obtain ⟨hlow, hhigh⟩ := List.mem_range'_1.mp hj
      have hne : chunk ≠ [] := by
        rintro rfl
        exact absurd hhigh (Nat.not_lt.mpr hlow)
      exact (before_arrived htold hbegins hc hn hchunk hne hi).trans_le hlow
    · rw [List.append_nil]
      exact honce
  · rw [hplaces]
    split
    · rename_i hm
      subst hm
      obtain ⟨-, -, -, horigin⟩ := hwired.viewing n hn
      obtain ⟨hall, -⟩ := htold c n hc hn
      rintro i hi ⟨j, hj, hji⟩ ⟨k, hk, hik⟩
      rw [List.mem_append, not_or, List.mem_range'_1] at hi
      obtain ⟨hold, hnew⟩ := hi
      rcases Nat.lt_or_ge i (c.origin + c.read) with hlow | hhigh
      · -- what this socket did not bring lies before what it brought
        have hearly : i < c.origin := Nat.not_le.mp fun hle => hold (hall i hle hlow)
        exact hearly.trans_le horigin
      · by_cases hne : chunk = []
        · rw [hne, List.length_nil, List.range'_zero, List.append_nil] at hj hk
          exact hgaps i hold ⟨j, hj, hji⟩ ⟨k, hk, hik⟩
        · rw [List.mem_append, List.mem_range'_1] at hk
          rcases hk with hk | hk
          · have hlt := before_arrived htold hbegins hc hn hchunk hne hk
            omega
          · exact absurd ⟨hhigh, hik.trans hk.2⟩ hnew
    · simp only [List.append_nil]
      exact hgaps

end Receive

/-! ### The events of a tab -/

variable {p q : Page} {streams : ℕ → Bytes}

/-- What holds of a tab is kept by what the host does, as long as it attaches no socket but the
next one. -/
theorem Sound.host {e : HostEvent} {t : Host} {sockets : ℕ} (h : Sound (p, streams))
    (hstep : hostStep options p.host e = some t) (hsockets : p.sockets ≤ sockets)
    (he : ∀ k, k < p.sockets ∨ sockets ≤ k → ¬ Attaches k e) :
    Sound ({ p with host := t, sockets := sockets },
      fun n => streams n ++ (emitted p.host n e).flatten) := by
  refine ⟨h.printed.step hstep, fun k hk => ?_, fun c hc => ?_⟩
  · exact unknown_step (h.unknown k (hsockets.trans hk)) (he k (.inr hk)) hstep
  · have hwired := h.wired c hc
    exact hwired.host h.printed hsockets (he c.sink (.inl hwired.fresh)) hstep

/-- An attach prints nothing. -/
theorem emitted_attach (s : Host) (id : String) (sink : TerminalSink) :
    (fun n => streams n ++ (emitted s n (.registry (.attach id sink))).flatten) = streams := by
  funext n
  exact List.append_nil _

/-- A socket that is connected. -/
theorem Sound.connect (h : Sound (p, streams)) :
    Sound ({ p with
      socket := some ⟨p.sockets, none, 0, none, 0, 0⟩, sockets := p.sockets + 1 }, streams) := by
  refine ⟨h.printed, fun k hk => h.unknown k (Nat.le_of_succ_le hk), fun c hc => ?_⟩
  obtain rfl := Option.some.inj hc
  exact ⟨Nat.lt_succ_self _, fun _ => ⟨h.unknown _ (Nat.le_refl _), rfl, rfl⟩, nofun⟩

/-- What an attach of the tab does: the terminal is gone, or the socket views it from now
on. -/
theorem attachSocket_cases {c : Socket} {id : String} (h : attachSocket p c id = some q) :
    c.viewed = none ∧ (q = { p with id := none } ∨
      ∃ n registry, attach p.host.registry id c.sink = .ok registry ∧
        p.host.registry.get id = some n ∧
        q = { p with
          host := { p.host with registry := registry }
          socket := some { c with
            viewed := some n, origin := (p.host.registry.entries n).dropped } }) := by
  obtain ⟨⟨hidle, -⟩, hrest⟩ := Option.ite_none_right_eq_some.mp h
  refine ⟨hidle, ?_⟩
  split at hrest
  · exact .inl (Option.some.inj hrest).symm
  · rename_i registry hattach
    obtain ⟨n, hget, rfl⟩ := Option.map_eq_some_iff.mp hrest
    exact .inr ⟨n, registry, hattach, hget, rfl⟩

/-- An attach is an event of the host. -/
theorem hostStep_attach {s : Host} {id : String} {sink : TerminalSink} {registry : Registry}
    (h : attach s.registry id sink = .ok registry) :
    hostStep options s (.registry (.attach id sink)) = some { s with registry := registry } := by
  simp only [hostStep, runs, TerminalRegistry.step, h, if_true, Option.map_some]

/-- A socket that attaches. -/
theorem Sound.attached (options : Options) {c : Socket} {id : String} {n : ℕ}
    {registry : Registry} (h : Sound (p, streams)) (hc : p.socket = some c)
    (hidle : c.viewed = none) (hattach : attach p.host.registry id c.sink = .ok registry)
    (hget : p.host.registry.get id = some n) :
    Sound ({ p with
      host := { p.host with registry := registry }
      socket := some { c with
        viewed := some n, origin := (p.host.registry.entries n).dropped } }, streams) := by
  have hstep : hostStep options p.host (.registry (.attach id c.sink)) =
      some { p.host with registry := registry } := hostStep_attach hattach
  have hwired := h.wired c hc
  obtain ⟨hunknown, hreceived, hread⟩ := hwired.idle hidle
  have hprinted := h.printed.step hstep
  rw [emitted_attach] at hprinted
  refine ⟨hprinted, fun k hk => ?_, fun d hd => ?_⟩
  · have hother : ¬ Attaches k (.registry (.attach id c.sink)) := fun heq =>
      absurd (heq ▸ hwired.fresh) (Nat.not_lt.mpr hk)
    exact unknown_step (h.unknown k hk) hother hstep
  · obtain rfl := Option.some.inj hd
    refine ⟨hwired.fresh, nofun, fun m hm => ?_⟩
    obtain rfl := Option.some.inj hm
    refine ⟨viewing_attach hattach hunknown hget (h.printed.ring n), ?_, ?_, ?_⟩
    · show c.read = _
      rw [hread]
      show 0 = ((chunksOf _ c.sink).take c.received).flatten.length
      rw [hreceived]
      rfl
    · show c.received ≤ _
      rw [hreceived]
      exact Nat.zero_le _
    · exact h.printed.dropped_le hstep n

/-- What holds of a tab is kept. -/
theorem Sound.step {e : PageEvent} (h : Sound (p, streams))
    (hstep : TerminalTab.step options p e = some q) : Sound (q, prints p streams e) := by
  cases e with
  | host e =>
    obtain ⟨hnone, hmap⟩ := Option.ite_none_left_eq_some.mp hstep
    obtain ⟨t, ht, rfl⟩ := Option.map_eq_some_iff.mp hmap
    refine h.host ht (Nat.le_refl _) fun k _ hattaches => hnone ?_
    unfold Attaches at hattaches
    split at hattaches
    · rfl
    · exact hattaches.elim
  | other id =>
    obtain ⟨t, ht, rfl⟩ := Option.map_eq_some_iff.mp hstep
    have hhost := h.host ht (Nat.le_succ _) fun k hk heq => by
      have hsame : p.sockets = k := heq
      omega
    rwa [emitted_attach] at hhost
  | connect =>
    simp only [TerminalTab.step] at hstep
    split at hstep
    · cases hstep
    · obtain rfl := Option.some.inj hstep
      exact h.connect
  | attach id =>
    obtain ⟨c, hc, hattach⟩ := Option.bind_eq_some_iff.mp hstep
    obtain ⟨hidle, rfl | ⟨n, registry, hok, hget, rfl⟩⟩ := attachSocket_cases hattach
    · exact ⟨h.printed, h.unknown, fun d hd => ⟨(h.wired d hd).fresh, (h.wired d hd).idle,
        (h.wired d hd).viewing⟩⟩
    · exact Sound.attached options h hc hidle hok hget
  | ready =>
    obtain ⟨c, hc, hmap⟩ := Option.bind_eq_some_iff.mp hstep
    obtain ⟨n, -, rfl⟩ := Option.map_eq_some_iff.mp hmap
    exact ⟨h.printed, h.unknown, fun d hd => ⟨(h.wired d hd).fresh, (h.wired d hd).idle,
      (h.wired d hd).viewing⟩⟩
  | receive =>
    obtain ⟨c, hc, hreceive⟩ := Option.bind_eq_some_iff.mp hstep
    obtain ⟨n, chunk, hn, hchunk, rfl⟩ := receive_arrived hreceive
    exact h.arrived hc hn hchunk
  | down =>
    obtain ⟨c, hc, hdown⟩ := Option.bind_eq_some_iff.mp hstep
    split at hdown
    · cases hdown
    · obtain rfl := Option.some.inj hdown
      refine ⟨h.printed, h.unknown, fun d hd => ?_⟩
      obtain rfl := Option.some.inj hd
      exact ⟨(h.wired c hc).fresh, (h.wired c hc).idle, (h.wired c hc).viewing⟩
  | close =>
    obtain ⟨c, -, rfl⟩ := Option.map_eq_some_iff.mp hstep
    exact ⟨h.printed, h.unknown, fun _ hnone => by cases hnone⟩

/-- A tab that is handed nothing, by an event that is not seen at its host, keeps what it was
handed. -/
theorem NoHistoryTwice.same (h : NoHistoryTwice (p, streams)) (hhost : q.host = p.host)
    (hhanded : q.handed = p.handed) : NoHistoryTwice (q, streams) := by
  intro n
  obtain ⟨hprinted, honce, hgaps⟩ := h n
  constructor
  all_goals simp only [hhost, hhanded]
  all_goals assumption

/-- Frames that begin after all that was handed before are handed in order. -/
theorem NoHistoryTwice.step {e : PageEvent} (h : NoHistoryTwice (p, streams))
    (hsound : Sound (p, streams)) (htold : Told (p, streams))
    (hbegins : BeginsAfter (p, streams) e) (hstep : TerminalTab.step options p e = some q) :
    NoHistoryTwice (q, prints p streams e) := by
  cases e with
  | host e =>
    obtain ⟨-, hmap⟩ := Option.ite_none_left_eq_some.mp hstep
    obtain ⟨t, ht, rfl⟩ := Option.map_eq_some_iff.mp hmap
    exact fun n => (h n).host hsound.printed ht rfl rfl
  | other id =>
    obtain ⟨t, ht, rfl⟩ := Option.map_eq_some_iff.mp hstep
    intro n
    have hhost := (h n).host (u := { p with host := t, sockets := p.sockets + 1 })
      hsound.printed ht rfl rfl
    rwa [emitted_attach] at hhost
  | connect =>
    simp only [TerminalTab.step] at hstep
    split at hstep
    · cases hstep
    · obtain rfl := Option.some.inj hstep
      exact h.same rfl rfl
  | attach id =>
    obtain ⟨c, hc, hattach⟩ := Option.bind_eq_some_iff.mp hstep
    obtain ⟨hidle, rfl | ⟨n, registry, hok, hget, rfl⟩⟩ := attachSocket_cases hattach
    · exact h.same rfl rfl
    · have hhost : hostStep options p.host (.registry (.attach id c.sink)) =
          some { p.host with registry := registry } := hostStep_attach hok
      intro m
      have hm := (h m).host (u := { p with
        host := { p.host with registry := registry }
        socket := some { c with
          viewed := some n, origin := (p.host.registry.entries n).dropped } })
        hsound.printed hhost rfl rfl
      rwa [emitted_attach] at hm
  | ready =>
    obtain ⟨c, hc, hmap⟩ := Option.bind_eq_some_iff.mp hstep
    obtain ⟨n, -, rfl⟩ := Option.map_eq_some_iff.mp hmap
    exact h.same rfl rfl
  | receive =>
    obtain ⟨c, hc, hreceive⟩ := Option.bind_eq_some_iff.mp hstep
    obtain ⟨n, chunk, hn, hchunk, rfl⟩ := receive_arrived hreceive
    exact HandedOnce.arrived h (hsound.wired c hc) htold hbegins hc hn hchunk
  | down =>
    obtain ⟨c, hc, hdown⟩ := Option.bind_eq_some_iff.mp hstep
    split at hdown
    · cases hdown
    · obtain rfl := Option.some.inj hdown
      exact h.same rfl rfl
  | close =>
    obtain ⟨c, -, rfl⟩ := Option.map_eq_some_iff.mp hstep
    exact h.same rfl rfl

/-- What the current socket brought stays the last. -/
theorem Told.step {e : PageEvent} (h : Told (p, streams)) (hsound : Sound (p, streams))
    (hbegins : BeginsAfter (p, streams) e) (hstep : TerminalTab.step options p e = some q) :
    Told (q, prints p streams e) := by
  cases e with
  | host e =>
    obtain ⟨-, hmap⟩ := Option.ite_none_left_eq_some.mp hstep
    obtain ⟨t, -, rfl⟩ := Option.map_eq_some_iff.mp hmap
    exact h
  | other id =>
    obtain ⟨t, -, rfl⟩ := Option.map_eq_some_iff.mp hstep
    exact h
  | connect =>
    simp only [TerminalTab.step] at hstep
    split at hstep
    · cases hstep
    · obtain rfl := Option.some.inj hstep
      intro c n hc hn
      obtain rfl := Option.some.inj hc
      cases hn
  | attach id =>
    obtain ⟨c, hc, hattach⟩ := Option.bind_eq_some_iff.mp hstep
    obtain ⟨hidle, rfl | ⟨n, registry, -, -, rfl⟩⟩ := attachSocket_cases hattach
    · exact h
    · intro d m hd hm
      obtain rfl := Option.some.inj hd
      have hread : c.read = 0 := ((hsound.wired c hc).idle hidle).2.2
      refine ⟨fun i hlow hhigh => ?_, fun hpos => absurd hpos (Nat.not_lt.mpr hread.le)⟩
      have hbound : i < (p.host.registry.entries n).dropped + c.read := hhigh
      rw [hread, Nat.add_zero] at hbound
      exact absurd hbound (Nat.not_lt.mpr hlow)
  | ready =>
    obtain ⟨c, -, hmap⟩ := Option.bind_eq_some_iff.mp hstep
    obtain ⟨n, -, rfl⟩ := Option.map_eq_some_iff.mp hmap
    exact h
  | receive =>
    obtain ⟨c, hc, hreceive⟩ := Option.bind_eq_some_iff.mp hstep
    obtain ⟨n, chunk, hn, hchunk, rfl⟩ := receive_arrived hreceive
    exact h.arrived hbegins hc hn hchunk
  | down =>
    obtain ⟨c, hc, hdown⟩ := Option.bind_eq_some_iff.mp hstep
    split at hdown
    · cases hdown
    · obtain rfl := Option.some.inj hdown
      intro d m hd hm
      obtain rfl := Option.some.inj hd
      exact h c m hc hm
  | close =>
    obtain ⟨c, -, rfl⟩ := Option.map_eq_some_iff.mp hstep
    exact nofun

/-- A socket whose first bytes lie before some that were handed is handed them out of order. -/
theorem not_once_step {e : PageEvent} (hbegins : ¬ BeginsAfter (p, streams) e)
    (hstep : TerminalTab.step options p e = some q) : ¬ NoHistoryTwice (q, prints p streams e) := by
  intro h
  apply hbegins
  cases e with
  | receive =>
    intro c n chunk hc hn hchunk hread hne i hi
    obtain ⟨d, hd, hreceive⟩ := Option.bind_eq_some_iff.mp hstep
    obtain rfl := Option.some.inj (hc.symm.trans hd)
    obtain ⟨m, other, hm, hother, rfl⟩ := receive_arrived hreceive
    obtain rfl := Option.some.inj (hn.symm.trans hm)
    obtain rfl := Option.some.inj (hchunk.symm.trans hother)
    have honce := (h n).once
    have hplaces := places_arrived p c n chunk n
    simp only [hplaces, if_true] at honce
    have hfirst : c.origin + c.read ∈ List.range' (c.origin + c.read) chunk.length :=
      List.mem_range'_1.mpr ⟨Nat.le_refl _, Nat.lt_add_of_pos_right (List.length_pos_iff.mpr hne)⟩
    have hlt := (List.pairwise_append.mp honce).2.2 i hi _ hfirst
    rw [hread] at hlt
    exact hlt
  | _ => exact trivial

/-! ### Runs -/

/-- What holds of a tab that was just opened. -/
theorem sound_opened (id : Option String) : Sound (TerminalTab.opened id, fun _ => []) :=
  ⟨⟨fun _ => ⟨rfl, (Nat.zero_sub _).symm, List.drop_nil.symm⟩, fun _ _ => rfl, fun _ _ => rfl⟩,
    fun _ _ => ⟨fun _ => rfl, rfl⟩, nofun⟩

/-- In every run a tab's `xterm` is handed no byte twice, and misses none between two that it
was handed but what the host's ring buffer dropped, exactly when the first bytes of each
socket come after all that the `xterm` was handed of that terminal before. -/
theorem no_history_twice_iff (options : Options) (id : Option String) (es : List PageEvent) :
    (watched options id).Always NoHistoryTwice (watched options id).init es ↔
      (watched options id).Each BeginsAfter (watched options id).init es := by
  have hnone : NoHistoryTwice (watched options id).init := fun n =>
    ⟨nofun, .nil, fun i _ hbefore => nomatch hbefore⟩
  refine Machine.always_iff_each (I := fun p => Sound p ∧ Told p ∧ NoHistoryTwice p)
    (fun p hp => hp.2.2) ?_ ?_ ⟨sound_opened id, nofun, hnone⟩ es
  · rintro ⟨p, streams⟩ e ⟨q, after⟩ ⟨hsound, htold, honce⟩ hbegins hstep
    obtain ⟨ht, rfl⟩ := Machine.observe_step.mp hstep
    exact ⟨hsound.step ht, htold.step hsound hbegins ht, honce.step hsound htold hbegins ht⟩
  · rintro ⟨p, streams⟩ e ⟨q, after⟩ - hbegins hstep
    obtain ⟨ht, rfl⟩ := Machine.observe_step.mp hstep
    exact not_once_step hbegins ht

/-- A tab watches a terminal print `one`, loses its socket and attaches again. -/
def reconnects : List PageEvent :=
  [.host (.registry (.open "s1" "/w" 80 24)), .host (.registry (.spawned 0 4711)), .connect,
    .attach "t1", .ready, .host (.publish 1 "one".toUTF8.toList), .host (.registry (.data 1)),
    .host (.registry (.output 0 0 .returned)), .receive, .down, .close, .connect, .attach "t1",
    .receive]

theorem reconnects_isSome : ((watched shellOptions none).run reconnects).isSome = true := by
  decide +kernel

/-- It is handed `one` again. -/
theorem history_twice : ¬ ∀ (options : Options) (id : Option String) (es : List PageEvent),
    (watched options id).Always NoHistoryTwice (watched options id).init es := by
  intro h
  have honce := (h shellOptions none reconnects).after (Option.some_get reconnects_isSome).symm
  have hplaces : places (((watched shellOptions none).run reconnects).get
      reconnects_isSome).1.handed 1 = [0, 1, 2, 0, 1, 2] := by
    decide +kernel
  have hpairwise := (honce 1).once
  rw [hplaces] at hpairwise
  exact absurd hpairwise (by decide)

end RemoteWorkspace.Analysis.ReattachedTab
