import RemoteWorkspace.Analysis.ReplayLive

/-!
# What comes before the report of an exit

`done` and the output of a shell are two channels. What the provider wrote goes through the
output into the buffer and through microtasks to the sinks; the report of the exit waits for
the microtasks that were queued before `done` settled and for nothing else. A chunk that a
pause keeps in the output is neither in the buffer nor handed to anyone when the exit is
reported, and an entry that exited is never resumed.
-/

set_option autoImplicit false

namespace RemoteWorkspace.Analysis.TerminalRegistry

open RemoteWorkspace.Computation RemoteWorkspace.Model RemoteWorkspace.Model.TerminalRegistry

variable {options : Options} {n : ℕ} {sink : TerminalSink}

/-! ### What was written, and what became of it -/

/-- Bytes a provider writes are one chunk, or none. -/
def chunkOf (bytes : Bytes) : List Bytes := if bytes = [] then [] else [bytes]

/-- The chunks the provider of an entry writes in a step. -/
def writes (n : ℕ) : HostEvent → List Bytes
  | .publish m chunk => if m = n then chunkOf chunk else []
  | .finish m last _ => if m = n then chunkOf last else []
  | _ => []

/-- The chunks an entry queues for a sink in a step. -/
def queuesFrom (s : Registry) (n : ℕ) (sink : TerminalSink) : HostEvent → List Bytes
  | .registry (.data m) =>
    if m = n then ((queuedOf s n).take 1).flatMap fun chunk =>
      List.replicate ((s.entries n).attaches.count sink) chunk
    else []
  | _ => []

/-- The chunks of an entry a sink is handed by a microtask. -/
def hands (s : Registry) (n : ℕ) (sink : TerminalSink) : HostEvent → List Bytes
  | .registry (.output d i _) => (s.deliveries[d]?).elim [] fun x =>
      if x.entry = n ∧ (x.takes[i]?).map Prod.fst = some sink then [x.chunk] else []
  | _ => []

/-- What happened to the output of each entry so far: the chunks its provider wrote, the
chunks that were appended to its buffer, the chunks that arrived while a sink was attached,
those of them it was handed, and who was told of the end. What was appended before a sink
attached is handed to it by the attach itself. -/
structure Traffic where
  written : ℕ → List Bytes
  appended : ℕ → List Bytes
  owed : ℕ → TerminalSink → List Bytes
  handed : ℕ → TerminalSink → List Bytes
  told : ℕ → TerminalSink → Prop

/-- One step added. -/
def follow (s : Host) (l : Traffic) (e : HostEvent) (_ : Host) : Traffic where
  written n := l.written n ++ writes n e
  appended n := l.appended n ++ emitted s n e
  owed n k := l.owed n k ++ queuesFrom s.registry n k e
  handed n k := l.handed n k ++ hands s.registry n k e
  told n k := l.told n k ∨ e = .report n ∧ k ∈ (s.registry.entries n).attaches

/-- The loop with its traffic followed. -/
def followed (options : Options) : Machine (Host × Traffic) HostEvent :=
  (host options).observe ⟨fun _ => [], fun _ => [], fun _ _ => [], fun _ _ => [],
    fun _ _ => False⟩ follow

/-- The chunks of an entry that are queued for a sink. -/
def pendingFrom (n : ℕ) (sink : TerminalSink) (tasks : List (ℕ × TerminalSink × Bytes)) :
    List Bytes :=
  tasks.filterMap fun task => if task.1 = n ∧ task.2.1 = sink then some task.2.2 else none

/-- If the step reports the end of a terminal to a sink, everything its provider wrote was
appended to its buffer before, and all of it that came while the sink was attached was handed
to the sink; and if it hands a chunk to a sink, that sink was not told of the end. -/
def OutputFirst (p : Host × Traffic) (e : HostEvent) : Prop :=
  (∀ n, e = .report n → ∀ k ∈ (p.1.registry.entries n).attaches,
    p.2.appended n = p.2.written n ∧ p.2.handed n k = p.2.owed n k) ∧
  ∀ n k, hands p.1.registry n k e ≠ [] → ¬ p.2.told n k

/-- If the step reports the end of a terminal to some sink, its output holds nothing, and
nothing of it is queued for an attached sink. -/
def OutputEmpty (p : Host × Traffic) (e : HostEvent) : Prop :=
  ∀ n, e = .report n → ∀ k ∈ (p.1.registry.entries n).attaches,
    queuedOf p.1.registry n = [] ∧ pendingFrom n k (microtasks p.1.registry.deliveries) = []

/-! ### What a step does to the traffic -/

@[simp] theorem pendingFrom_append (n : ℕ) (sink : TerminalSink)
    (tasks tasks' : List (ℕ × TerminalSink × Bytes)) :
    pendingFrom n sink (tasks ++ tasks') = pendingFrom n sink tasks ++ pendingFrom n sink tasks' :=
  List.filterMap_append

theorem pendingFrom_cons (n m : ℕ) (sink k : TerminalSink) (chunk : Bytes)
    (tasks : List (ℕ × TerminalSink × Bytes)) :
    pendingFrom n sink ((m, k, chunk) :: tasks) =
      (if m = n ∧ k = sink then [chunk] else []) ++ pendingFrom n sink tasks := by
  by_cases h : m = n ∧ k = sink <;> simp [pendingFrom, h]

/-- A chunk is queued for a sink as often as it is attached to its entry. -/
theorem pendingFrom_map (n m : ℕ) (sink : TerminalSink) (chunk : Bytes)
    (sinks : List TerminalSink) :
    pendingFrom n sink (sinks.map fun k => (m, k, chunk)) =
      if m = n then List.replicate (sinks.count sink) chunk else [] := by
  induction sinks with
  | nil => simp [pendingFrom]
  | cons k sinks ih =>
    rw [List.map_cons, pendingFrom_cons, ih, List.count_cons]
    by_cases hm : m = n <;> by_cases hk : k = sink <;> simp [hm, hk, List.replicate_succ]

/-- What a step does to the outputs and to the microtasks, and what it leaves alone. -/
structure Flow (s : Host) (e : HostEvent) (t : Host) : Prop where
  output : ∀ n, emitted s n e ++ queuedOf t.registry n = queuedOf s.registry n ++ writes n e
  tasks : ∀ n k, hands s.registry n k e ++ pendingFrom n k (microtasks t.registry.deliveries) =
    pendingFrom n k (microtasks s.registry.deliveries) ++ queuesFrom s.registry n k e
  known : ∀ n, writes n e ≠ [] → n ≤ s.registry.nextOrdinal ∧ s.finished n = none
  ordinal : s.registry.nextOrdinal ≤ t.registry.nextOrdinal
  exited : ∀ n ≤ s.registry.nextOrdinal, (s.registry.entries n).state = .exited →
    (t.registry.entries n).state = .exited
  finished : ∀ n, s.finished n ≠ none → t.finished n ≠ none

/-- An event that takes nothing off an output, queues nothing and hands nothing out. -/
theorem Flow.of_idle {s t : Host} {e : HostEvent} (h : Idle s.registry t.registry)
    (hfinished : t.finished = s.finished) (hemitted : ∀ n, emitted s n e = [])
    (hwrites : ∀ n, writes n e = []) (hhands : ∀ n k, hands s.registry n k e = [])
    (hqueues : ∀ n k, queuesFrom s.registry n k e = []) : Flow s e t := by
  refine ⟨fun n => ?_, fun n k => ?_, fun n hn => absurd (hwrites n) hn,
    Nat.le_of_eq h.nextOrdinal.symm, fun n _ => h.exited n, fun n hn => hfinished ▸ hn⟩
  · rw [hemitted, hwrites, h.queued, List.nil_append, List.append_nil]
  · rw [hhands, hqueues, h.tasks, List.nil_append, List.append_nil]

/-- What a provider writes goes to the end of its output. -/
theorem writeOutput_flow {s : Host} {n m : ℕ} {bytes : Bytes} :
    queuedOf (writeOutput s.registry m bytes) n =
      queuedOf s.registry n ++ if m = n then chunkOf bytes else [] := by
  obtain ⟨hqueued, htouch, -⟩ := writeOutput_queued s.registry m bytes
  by_cases hn : m = n
  · rw [if_pos hn, ← hn, hqueued]
    rfl
  · rw [if_neg hn, List.append_nil, queuedOf, htouch.others n (Ne.symm hn), queuedOf]

/-- A write of the provider, or its last. -/
theorem Flow.of_write {s t : Host} {e : HostEvent} {m : ℕ} {bytes : Bytes}
    (hregistry : t.registry = writeOutput s.registry m bytes)
    (hm : m ≤ s.registry.nextOrdinal) (hopen : s.finished m = none)
    (hfinished : ∀ n, s.finished n ≠ none → t.finished n ≠ none)
    (hwrites : ∀ n, writes n e = if m = n then chunkOf bytes else [])
    (hemitted : ∀ n, emitted s n e = []) (hhands : ∀ n k, hands s.registry n k e = [])
    (hqueues : ∀ n k, queuesFrom s.registry n k e = []) : Flow s e t := by
  obtain ⟨-, htouch, -, hdeliveries, -⟩ := writeOutput_queued s.registry m bytes
  refine ⟨fun n => ?_, fun n k => ?_, fun n hn => ?_, ?_, fun n _ hexited => ?_, hfinished⟩
  · rw [hemitted, hwrites, hregistry, writeOutput_flow, List.nil_append]
  · rw [hhands, hqueues, hregistry, hdeliveries, List.nil_append, List.append_nil]
  · rw [hwrites] at hn
    by_cases hmn : m = n
    · exact hmn ▸ ⟨hm, hopen⟩
    · exact absurd (if_neg hmn) hn
  · exact Nat.le_of_eq (by rw [hregistry, htouch.nextOrdinal])
  · rw [hregistry]
    by_cases hmn : n = m
    · rw [hmn] at hexited ⊢
      exact htouch.exited.mpr hexited
    · rw [htouch.others n hmn]
      exact hexited

/-- An entry that one step touched keeps its end, and so does every other. -/
theorem Touches.ended {s t : Registry} {m : ℕ} (h : Touches s t m) (n : ℕ)
    (hn : (s.entries n).state = .exited) : (t.entries n).state = .exited := by
  by_cases hm : n = m
  · subst hm
    exact h.exited.mpr hn
  · rw [h.others n hm]
    exact hn

/-- An accepted attach. -/
theorem attach_flow {s : Host} {r : Registry} {id : String} {k : TerminalSink}
    (h : attach s.registry id k = .ok r) :
    Flow s (.registry (.attach id k)) { s with registry := r } := by
  obtain ⟨m, -, -, htouch, hqueued, hdeliveries, -, -⟩ := attach_accepted h
  refine ⟨fun n => ?_, fun n j => ?_, fun n hn => absurd rfl hn,
    Nat.le_of_eq htouch.nextOrdinal.symm, fun n _ => htouch.ended n, fun n hn => hn⟩
  · show [] ++ queuedOf r n = queuedOf s.registry n ++ []
    rw [List.append_nil, List.nil_append]
    by_cases hn : n = m
    · rw [hn, hqueued]
    · rw [queuedOf, htouch.others n hn, queuedOf]
  · show [] ++ pendingFrom n j (microtasks r.deliveries) = _ ++ []
    rw [hdeliveries, List.append_nil, List.nil_append]

/-- A chunk that arrives. -/
theorem data_flow {s : Host} {r : Registry} {m : ℕ}
    (h : step options s.registry (.data m) = some r) :
    Flow s (.registry (.data m)) { s with registry := r } := by
  obtain ⟨chunk, hqueued, htouch, -, -, htasks⟩ := data_queued h
  refine ⟨fun n => ?_, fun n k => ?_, fun n hn => absurd rfl hn,
    Nat.le_of_eq htouch.nextOrdinal.symm, fun n _ => htouch.ended n, fun n hn => hn⟩
  · show (if m = n then (queuedOf s.registry n).take 1 else []) ++ queuedOf r n =
      queuedOf s.registry n ++ []
    rw [List.append_nil]
    by_cases hn : m = n
    · subst hn
      rw [if_pos rfl, hqueued]
      rfl
    · rw [if_neg hn, List.nil_append, queuedOf, htouch.others n (Ne.symm hn), queuedOf]
  · show [] ++ pendingFrom n k (microtasks r.deliveries) = _ ++ if m = n then
      ((queuedOf s.registry n).take 1).flatMap fun chunk =>
        List.replicate ((s.registry.entries n).attaches.count k) chunk else []
    rw [htasks, pendingFrom_append, pendingFrom_map, List.nil_append]
    by_cases hn : m = n
    · subst hn
      rw [if_pos rfl, if_pos rfl, hqueued]
      simp
    · rw [if_neg hn, if_neg hn]

/-- A microtask that runs. -/
theorem output_flow {s : Host} {r : Registry} {d i : ℕ} {answer : Answer}
    (h : step options s.registry (.output d i answer) = some r)
    (hfirst : microtasks (queuedBefore s.registry d i) = []) :
    Flow s (.registry (.output d i answer)) { s with registry := r } := by
  obtain ⟨x, k, hx, htake, htasks, hentries, hordinal, -⟩ := output_handed h hfirst
  refine ⟨fun n => ?_, fun n j => ?_, fun n hn => absurd rfl hn, Nat.le_of_eq hordinal.symm,
    fun n _ hn => ?_, fun n hn => hn⟩
  · show [] ++ queuedOf r n = queuedOf s.registry n ++ []
    rw [queuedOf, hentries, List.append_nil, List.nil_append, queuedOf]
  · show hands s.registry n j (.registry (.output d i answer)) ++ _ = _ ++ []
    rw [htasks, pendingFrom_cons, List.append_nil]
    simp [hands, hx, htake]
  · show (r.entries n).state = .exited
    rw [hentries]
    exact hn

/-- A shell that is registered. -/
theorem spawned_flow {s : Host} {r : Registry} {o pid : ℕ}
    (hfresh : queuedOf s.registry (s.registry.nextOrdinal + 1) = [])
    (h : step options s.registry (.spawned o pid) = some r) :
    Flow s (.registry (.spawned o pid)) { s with registry := r } := by
  obtain ⟨entry, hqueued, -, hentries, hordinal, hdeliveries, -⟩ := spawned_fresh h
  refine ⟨fun n => ?_, fun n k => ?_, fun n hn => absurd rfl hn, ?_, fun n hle hn => ?_,
    fun n hn => hn⟩
  · show [] ++ queuedOf r n = queuedOf s.registry n ++ []
    rw [List.nil_append, List.append_nil, queuedOf, hentries]
    by_cases hn : n = s.registry.nextOrdinal + 1
    · rw [hn, Function.update_self, hqueued, hfresh]
    · rw [Function.update_of_ne hn, queuedOf]
  · show [] ++ pendingFrom n k (microtasks r.deliveries) = _ ++ []
    rw [hdeliveries, List.append_nil, List.nil_append]
  · show s.registry.nextOrdinal ≤ r.nextOrdinal
    omega
  · show (r.entries n).state = .exited
    rw [hentries, Function.update_of_ne (by omega)]
    exact hn

/-- What a step does. -/
theorem step_flow {s t : Host} {e : HostEvent}
    (hfresh : queuedOf s.registry (s.registry.nextOrdinal + 1) = [])
    (h : hostStep options s e = some t) : Flow s e t := by
  cases hostStep_moves h with
  | published hn hopen =>
    exact .of_write rfl hn hopen (fun n hn => hn) (fun n => rfl) (fun n => rfl)
      (fun n k => rfl) (fun n k => rfl)
  | @finished m last outcome hn hopen =>
    refine .of_write rfl hn hopen (fun n hn => ?_) (fun n => rfl) (fun n => rfl)
      (fun n k => rfl) (fun n k => rfl)
    by_cases hnm : n = m
    · exact absurd (hnm ▸ hopen) hn
    · show Function.update s.finished m _ n ≠ none
      rw [Function.update_of_ne hnm]
      exact hn
  | reported hfinished hstep =>
    exact .of_idle (step_idle id hstep) rfl (fun n => rfl) (fun n => rfl) (fun n k => rfl)
      (fun n k => rfl)
  | @stepped e r hruns hstep =>
    cases e with
    | spawned o pid => exact spawned_flow hfresh hstep
    | attach id k =>
      simp only [step] at hstep
      split at hstep
      · rename_i hattach
        exact Option.some.inj hstep ▸ attach_flow hattach
      · obtain rfl := Option.some.inj hstep
        exact .of_idle (.refl _) rfl (fun n => rfl) (fun n => rfl) (fun n k => rfl)
          (fun n k => rfl)
    | produce m chunk => exact absurd hruns id
    | data m => exact data_flow hstep
    | output d i answer => exact output_flow hstep hruns.1
    | _ =>
      exact .of_idle (step_idle id hstep) rfl (fun n => rfl) (fun n => rfl) (fun n k => rfl)
        (fun n k => rfl)

/-! ### The invariant -/

/-- The terminal ended, its output is empty and its provider done with it, and nothing of it
is queued for the sink. -/
structure Over (s : Host) (n : ℕ) (sink : TerminalSink) : Prop where
  queued : queuedOf s.registry n = []
  pending : pendingFrom n sink (microtasks s.registry.deliveries) = []
  exited : (s.registry.entries n).state = .exited
  finished : s.finished n ≠ none
  ordinal : n ≤ s.registry.nextOrdinal

/-- What was written was appended or is in the output; what came while a sink was attached
was handed to it or is queued for it; nothing was written for a shell that is not there; and
a terminal whose end a sink was told is over for it. -/
structure Followed (p : Host × Traffic) : Prop where
  written : ∀ n, p.2.written n = p.2.appended n ++ queuedOf p.1.registry n
  owed : ∀ n k, p.2.owed n k =
    p.2.handed n k ++ pendingFrom n k (microtasks p.1.registry.deliveries)
  fresh : ∀ n, p.1.registry.nextOrdinal < n → queuedOf p.1.registry n = []
  told : ∀ n k, p.2.told n k → Over p.1 n k

/-- A new registry. -/
theorem followed_init : Followed (followed options).init :=
  ⟨fun _ => rfl, fun _ _ => rfl, fun _ _ => rfl, nofun⟩

variable {s t : Host} {e : HostEvent}

/-- A chunk that a sink is handed was queued for it. -/
theorem Flow.pending_of_hands (h : Flow s e t) (hhands : hands s.registry n sink e ≠ []) :
    pendingFrom n sink (microtasks s.registry.deliveries) ≠ [] := by
  have hqueues : queuesFrom s.registry n sink e = [] := by
    cases e with
    | registry e =>
      cases e with
      | data m => exact absurd rfl hhands
      | _ => rfl
    | _ => rfl
  have htasks := h.tasks n sink
  rw [hqueues, List.append_nil] at htasks
  intro hpending
  rw [hpending] at htasks
  exact hhands (List.append_eq_nil_iff.mp htasks).1

/-- The output of an entry whose provider is done stays empty. -/
theorem Flow.queued_nil (h : Flow s e t) (hfinished : s.finished n ≠ none)
    (hqueued : queuedOf s.registry n = []) : queuedOf t.registry n = [] := by
  have hwrites : writes n e = [] := by
    by_contra hne
    exact hfinished (h.known n hne).2
  have houtput := h.output n
  rw [hqueued, hwrites] at houtput
  exact (List.append_eq_nil_iff.mp houtput).2

/-- From an empty output nothing is queued for a sink. -/
theorem Flow.pending_nil (h : Flow s e t) (hqueued : queuedOf s.registry n = [])
    (hpending : pendingFrom n sink (microtasks s.registry.deliveries) = []) :
    pendingFrom n sink (microtasks t.registry.deliveries) = [] := by
  have hqueues : queuesFrom s.registry n sink e = [] := by
    unfold queuesFrom
    split
    · split
      · rw [hqueued]
        rfl
      · rfl
    · rfl
  have htasks := h.tasks n sink
  rw [hpending, hqueues] at htasks
  exact (List.append_eq_nil_iff.mp htasks).2

/-- What is over stays over. -/
theorem Over.step (h : Over s n sink) (hflow : Flow s e t) : Over t n sink where
  queued := hflow.queued_nil h.finished h.queued
  pending := hflow.pending_nil h.queued h.pending
  exited := hflow.exited n h.ordinal h.exited
  finished := hflow.finished n h.finished
  ordinal := Nat.le_trans h.ordinal hflow.ordinal

/-- An entry that settled has exited. -/
theorem settle_exited (r : Registry) (n : ℕ) (report : Report) :
    ((settle r n report).entries n).state = .exited := by
  have hexited (reports : List (TerminalSink × Report)) :
      (({ r.assign n { r.entries n with
          state := .exited, handle := { (r.entries n).handle with ended := true } } with
        reports := reports } : Registry).entries n).state = .exited := by
    simp [Registry.assign]
  simp only [settle]
  split
  · exact (steady_kill _ _).exited n (hexited _)
  · exact hexited _

/-- An end that is reported when the output is empty and nothing of it is queued for a sink
is over for it. -/
theorem over_of_report (h : hostStep options s (.report n) = some t)
    (hflow : Flow s (.report n) t) (hqueued : queuedOf s.registry n = [])
    (hpending : pendingFrom n sink (microtasks s.registry.deliveries) = []) :
    Over t n sink := by
  cases hostStep_moves h with
  | reported hfinished hstep =>
    obtain ⟨⟨-, hn, -⟩, heq⟩ := Option.ite_none_right_eq_some.mp hstep
    obtain rfl := Option.some.inj heq
    exact ⟨hflow.queued_nil hfinished hqueued, hflow.pending_nil hqueued hpending,
      settle_exited _ _ _, hfinished, Nat.le_trans hn hflow.ordinal⟩

variable {p q : Host × Traffic}

/-- Where the traffic balances, the output comes before an end that is reported exactly when
the output of the terminal is empty then. -/
theorem outputFirst_iff (hp : Followed p) (h : hostStep options p.1 e = some t) :
    OutputFirst p e ↔ OutputEmpty p e := by
  have hflow := step_flow (hp.fresh _ (Nat.lt_succ_self _)) h
  have hnever : ∀ n k, hands p.1.registry n k e ≠ [] → ¬ p.2.told n k := by
    intro n k hhands htold
    exact hflow.pending_of_hands hhands (hp.told n k htold).pending
  unfold OutputFirst OutputEmpty
  rw [and_iff_left hnever]
  refine forall₂_congr fun n _ => forall₂_congr fun k _ => ?_
  rw [hp.written n, hp.owed n k, List.self_eq_append_right, List.self_eq_append_right]

/-- A step that reports an end only over an empty output keeps the invariant. -/
theorem followed_step (hp : Followed p) (hempty : OutputEmpty p e)
    (h : (followed options).step p e = some q) : Followed q := by
  obtain ⟨hstep, hlog⟩ := Machine.observe_step.mp h
  have hflow := step_flow (hp.fresh _ (Nat.lt_succ_self _)) hstep
  refine ⟨fun n => ?_, fun n k => ?_, fun n hn => ?_, fun n k htold => ?_⟩
  · rw [hlog]
    show p.2.written n ++ writes n e = p.2.appended n ++ emitted p.1 n e ++ _
    rw [hp.written, List.append_assoc, List.append_assoc, hflow.output]
  · rw [hlog]
    show p.2.owed n k ++ queuesFrom p.1.registry n k e =
      p.2.handed n k ++ hands p.1.registry n k e ++ _
    rw [hp.owed, List.append_assoc, List.append_assoc, hflow.tasks]
  · have hold : queuedOf p.1.registry n = [] :=
      hp.fresh n (Nat.lt_of_le_of_lt hflow.ordinal hn)
    have hwrites : writes n e = [] := by
      by_contra hne
      exact absurd (Nat.le_trans (hflow.known n hne).1 hflow.ordinal) (Nat.not_le.mpr hn)
    have houtput := hflow.output n
    rw [hold, hwrites] at houtput
    exact (List.append_eq_nil_iff.mp houtput).2
  · rw [hlog] at htold
    rcases htold with htold | ⟨rfl, hmem⟩
    · exact (hp.told n k htold).step hflow
    · obtain ⟨hqueued, hpending⟩ := hempty n rfl k hmem
      exact over_of_report hstep hflow hqueued hpending

/-! ### Runs -/

/-- In every run of the loop, whatever a provider writes and whenever an output is paused and
resumed, each report of an end comes after all that the provider wrote was appended and
handed on, with nothing handed on later, exactly when each comes over an empty output of
which nothing is queued. -/
theorem exit_after_output_iff (options : Options) (es : List HostEvent) :
    (followed options).Each OutputFirst (followed options).init es ↔
      (followed options).Each OutputEmpty (followed options).init es := by
  refine Machine.each_iff_each_when (I := Followed) ?_ ?_ followed_init es
  · intro p e q hp hempty h
    exact followed_step hp hempty h
  · intro p e q hp h
    exact outputFirst_iff hp (Machine.observe_step.mp h).1

/-- A sink takes its time with `one`; the shell prints `two` meanwhile and exits. -/
def exitsPaused : List HostEvent :=
  [.registry (.open "s1" "/w" 80 24), .registry (.spawned 0 4711), .registry (.attach "t1" 7),
    .publish 1 "one".toUTF8.toList, .registry (.data 1), .registry (.output 0 0 .promised),
    .publish 1 "two".toUTF8.toList, .finish 1 [] (.ok { exitCode := some 0, signal := none })]

/-- Each of its events can happen. -/
theorem exitsPaused_isSome : ((followed shellOptions).run exitsPaused).isSome = true := by
  decide +kernel

/-- The sink is told of the exit and `two` is in the paused output, where it stays. -/
theorem paused_output_lost :
    ¬ ∀ (options : Options) (es : List HostEvent),
      (followed options).Each OutputFirst (followed options).init es := by
  intro hall
  have heach := hall shellOptions (exitsPaused ++ [.report 1])
  have hfirst := heach.last (Option.some_get exitsPaused_isSome).symm (by decide +kernel)
  have happended := (hfirst.1 1 rfl 7 (by decide +kernel)).1
  revert happended
  decide +kernel

end RemoteWorkspace.Analysis.TerminalRegistry
