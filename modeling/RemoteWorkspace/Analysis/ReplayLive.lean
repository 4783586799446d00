import RemoteWorkspace.Analysis.PumpStall
import RemoteWorkspace.Analysis.TerminalTasks

/-!
# Replay, then live

A sink that attaches is handed the retained buffer at once. From then on each chunk the
stream delivers queues one microtask for it, and microtasks run in the order in which they
were queued; a chunk that arrived before is in the buffer, and its microtasks are for the
sinks that were attached then. So what a sink was handed and what is still queued for it are
together the replay and all that the stream delivered since.
-/

set_option autoImplicit false

namespace RemoteWorkspace.Analysis.TerminalRegistry

open RemoteWorkspace.Computation RemoteWorkspace.Model RemoteWorkspace.Model.TerminalRegistry

variable {options : Options} {s t : Registry} {sink : TerminalSink} {n : ℕ}

/-- The chunk an event of the loop takes off the output of an entry. -/
def emitted (s : Host) (n : ℕ) : HostEvent → List Bytes
  | .registry (.data m) => if m = n then (queuedOf s.registry n).take 1 else []
  | _ => []

/-- The chunks the stream of an entry delivers in a run. -/
def delivered (options : Options) (n : ℕ) : Host → List HostEvent → List Bytes
  | _, [] => []
  | s, e :: es => (hostStep options s e).elim [] fun t => emitted s n e ++ delivered options n t es

/-- The event attaches the sink to some terminal. -/
def Attaches (sink : TerminalSink) : HostEvent → Prop
  | .registry (.attach _ k) => k = sink
  | _ => False

instance (sink : TerminalSink) (e : HostEvent) : Decidable (Attaches sink e) := by
  unfold Attaches
  split <;> infer_instance

/-- The chunks whose microtasks for a sink have not run. -/
def pendingTo (sink : TerminalSink) (tasks : List (ℕ × TerminalSink × Bytes)) : List Bytes :=
  tasks.filterMap fun task => if task.2.1 = sink then some task.2.2 else none

@[simp] theorem pendingTo_append (sink : TerminalSink)
    (tasks tasks' : List (ℕ × TerminalSink × Bytes)) :
    pendingTo sink (tasks ++ tasks') = pendingTo sink tasks ++ pendingTo sink tasks' :=
  List.filterMap_append

theorem pendingTo_cons (sink k : TerminalSink) (m : ℕ) (chunk : Bytes)
    (tasks : List (ℕ × TerminalSink × Bytes)) :
    pendingTo sink ((m, k, chunk) :: tasks) =
      (if k = sink then [chunk] else []) ++ pendingTo sink tasks := by
  by_cases h : k = sink <;> simp [pendingTo, h]

/-- A chunk is queued for a sink as often as it is attached. -/
theorem pendingTo_map (sink : TerminalSink) (m : ℕ) (chunk : Bytes) (sinks : List TerminalSink) :
    pendingTo sink (sinks.map fun k => (m, k, chunk)) =
      List.replicate (sinks.count sink) chunk := by
  induction sinks with
  | nil => rfl
  | cons k sinks ih =>
    rw [List.map_cons, pendingTo_cons, ih, List.count_cons]
    by_cases h : k = sink
    · simp [h, List.replicate_succ]
    · simp [h]

/-- What a sink was handed and what is queued for it. -/
def served (sink : TerminalSink) (s : Registry) : List Bytes :=
  outputsTo sink s.reports ++ pendingTo sink (microtasks s.deliveries)

/-! ### A sink before and after its attach -/

/-- The sink was never attached: no entry has it, and nothing was handed to it or is queued
for it. -/
structure Unknown (sink : TerminalSink) (s : Registry) : Prop where
  attached : ∀ m, (s.entries m).attaches.count sink = 0
  served : served sink s = []

/-- The sink is attached to one entry at most, and once; it was handed the replay first; and
while it is attached, what it was handed and what is queued for it are together the replay
and what came live. -/
structure Served (sink : TerminalSink) (n : ℕ) (replay live : List Bytes) (s : Registry) :
    Prop where
  others : ∀ m, m ≠ n → (s.entries m).attaches.count sink = 0
  once : (s.entries n).attaches.count sink ≤ 1
  replayed : replay <+: outputsTo sink s.reports
  owed : sink ∈ (s.entries n).attaches → served sink s = replay ++ live

/-- The replay of a buffer is one chunk, or none. -/
def replayOf (entry : TerminalEntry) : List Bytes :=
  if entry.buffer = [] then [] else [entry.buffer]

/-- A new sink that attaches is served with the replay. -/
theorem served_attach {id : String} (h : attach s id sink = .ok t) (hs : Unknown sink s)
    (hget : s.get id = some n) : Served sink n (replayOf (s.entries n)) [] t := by
  obtain ⟨m, hm, -, htouch, -, hdeliveries, hattaches, hreports⟩ := attach_accepted h
  obtain rfl := Option.some.inj (hget.symm.trans hm)
  have hnew : sink ∉ (s.entries n).attaches := List.count_eq_zero.mp (hs.attached n)
  obtain ⟨hhanded, hpending⟩ := List.append_eq_nil_iff.mp hs.served
  have hreplay : outputsTo sink t.reports = replayOf (s.entries n) := by
    rw [hreports, outputsTo_append, hhanded, List.nil_append, replayOf]
    by_cases hbuffer : (s.entries n).buffer = []
    · rw [if_pos hbuffer, if_pos hbuffer]
      rfl
    · rw [if_neg hbuffer, if_neg hbuffer, outputsTo_output, if_pos rfl]
  refine ⟨fun k hk => ?_, ?_, ?_, fun _ => ?_⟩
  · rw [htouch.others k hk]
    exact hs.attached k
  · refine Nat.le_of_eq ?_
    rw [hattaches, if_neg hnew, List.count_append, hs.attached n, List.count_singleton_self]
  · exact ⟨[], by rw [List.append_nil, hreplay]⟩
  · rw [served, hdeliveries, hpending, hreplay]

/-! ### What a step does for a sink it does not attach -/

/-- The chunks an event of the loop queues for a sink. -/
def queues (sink : TerminalSink) (s : Registry) : HostEvent → List Bytes
  | .registry (.data m) => ((queuedOf s m).take 1).flatMap fun chunk =>
      List.replicate ((s.entries m).attaches.count sink) chunk
  | _ => []

/-- The sink is attached nowhere it was not before, nothing it was handed is taken back, and
it is served these chunks more. -/
structure Serves (sink : TerminalSink) (chunks : List Bytes) (s t : Registry) : Prop where
  attached : ∀ m, (t.entries m).attaches.count sink ≤ (s.entries m).attaches.count sink
  handed : outputsTo sink s.reports <+: outputsTo sink t.reports
  served : served sink t = served sink s ++ chunks

/-- An idle step serves nobody. -/
theorem Idle.serves (h : Idle s t) : Serves sink [] s t := by
  refine ⟨fun m => (h.attached m).count_le sink, ⟨[], by rw [List.append_nil, h.outputs]⟩, ?_⟩
  rw [served, h.outputs, h.tasks, List.append_nil]
  rfl

/-- The same sinks everywhere. -/
theorem Touches.count {m : ℕ} (h : Touches s t m)
    (hsame : (t.entries m).attaches = (s.entries m).attaches) (k : ℕ) :
    (t.entries k).attaches.count sink ≤ (s.entries k).attaches.count sink := by
  by_cases hk : k = m
  · exact Nat.le_of_eq (by rw [hk, hsame])
  · exact Nat.le_of_eq (by rw [h.others k hk])

/-- What a provider writes is queued for nobody yet. -/
theorem writeOutput_serves (s : Registry) (m : ℕ) (chunk : Bytes) :
    Serves sink [] s (writeOutput s m chunk) := by
  obtain ⟨-, htouch, hattaches, hdeliveries, hreports⟩ := writeOutput_queued s m chunk
  refine ⟨htouch.count hattaches, ⟨[], by rw [List.append_nil, hreports]⟩, ?_⟩
  rw [served, hreports, hdeliveries, List.append_nil]
  rfl

/-- Another sink's attach. -/
theorem attach_serves {id : String} {k : TerminalSink} (hk : k ≠ sink)
    (h : attach s id k = .ok t) : Serves sink [] s t := by
  obtain ⟨m, -, -, htouch, -, hdeliveries, hattaches, hreports⟩ := attach_accepted h
  have hsame : outputsTo sink t.reports = outputsTo sink s.reports := by
    rw [hreports, outputsTo_append]
    split
    · exact List.append_nil _
    · rw [outputsTo_output, if_neg hk, List.append_nil]
  refine ⟨fun j => ?_, ⟨[], by rw [List.append_nil, hsame]⟩, ?_⟩
  · by_cases hj : j = m
    · rw [hj, hattaches]
      split
      · exact Nat.le_refl _
      · refine Nat.le_of_eq ?_
        rw [List.count_append, List.count_singleton, if_neg (by simpa using hk), Nat.add_zero]
    · exact Nat.le_of_eq (by rw [htouch.others j hj])
  · rw [served, hdeliveries, hsame, List.append_nil]
    rfl

/-- A shell that is registered. -/
theorem spawned_serves {o pid : ℕ} (h : step options s (.spawned o pid) = some t) :
    Serves sink [] s t := by
  obtain ⟨entry, -, hattaches, hentries, -, hdeliveries, hreports⟩ := spawned_fresh h
  refine ⟨fun m => ?_, ⟨[], by rw [List.append_nil, hreports]⟩, ?_⟩
  · rw [hentries]
    by_cases hm : m = s.nextOrdinal + 1
    · rw [hm, Function.update_self, hattaches, List.count_nil]
      exact Nat.zero_le _
    · exact Nat.le_of_eq (by rw [Function.update_of_ne hm])
  · rw [served, hreports, hdeliveries, List.append_nil]
    rfl

/-- A chunk that arrives. -/
theorem data_serves {m : ℕ} (h : step options s (.data m) = some t) :
    Serves sink (queues sink s (.registry (.data m))) s t := by
  obtain ⟨chunk, hqueued, htouch, hattaches, hreports, htasks⟩ := data_queued h
  refine ⟨htouch.count hattaches, ⟨[], by rw [List.append_nil, hreports]⟩, ?_⟩
  rw [served, hreports, htasks, pendingTo_append, pendingTo_map, ← List.append_assoc]
  simp [queues, hqueued, served]

/-- A microtask that runs. -/
theorem output_serves {d i : ℕ} {answer : Answer}
    (h : step options s (.output d i answer) = some t)
    (hfirst : microtasks (queuedBefore s d i) = []) : Serves sink [] s t := by
  obtain ⟨x, k, -, -, htasks, hentries, -, hreports⟩ := output_handed h hfirst
  refine ⟨fun m => Nat.le_of_eq (by rw [hentries]), ?_, ?_⟩
  · rw [hreports, outputsTo_append]
    exact List.prefix_append _ _
  · rw [served, served, hreports, htasks, outputsTo_append, outputsTo_output, pendingTo_cons,
      List.append_nil, List.append_assoc]

/-- A step that does not attach the sink. -/
theorem step_serves {s t : Host} {e : HostEvent} (he : ¬ Attaches sink e)
    (h : hostStep options s e = some t) :
    Serves sink (queues sink s.registry e) s.registry t.registry := by
  cases hostStep_moves h with
  | published => exact writeOutput_serves _ _ _
  | finished => exact writeOutput_serves _ _ _
  | reported hfinished hstep => exact (step_idle id hstep).serves
  | @stepped e r hruns hstep =>
    cases e with
    | spawned o pid => exact spawned_serves hstep
    | attach id k =>
      have hk : k ≠ sink := he
      simp only [step] at hstep
      split at hstep
      · rename_i hattach
        exact Option.some.inj hstep ▸ attach_serves hk hattach
      · exact Option.some.inj hstep ▸ (Idle.refl _).serves
    | produce m chunk => exact absurd hruns id
    | data m => exact data_serves hstep
    | output d i answer => exact output_serves hstep hruns.1
    | _ => exact (step_idle id hstep).serves

/-- What is queued for a sink that is attached nowhere. -/
theorem queues_nil {s : Host} {e : HostEvent}
    (h : ∀ m, (s.registry.entries m).attaches.count sink = 0) :
    queues sink s.registry e = [] := by
  unfold queues
  split
  · simp [h]
  · rfl

/-- What is queued for a sink that is attached to one entry, once. -/
theorem queues_emitted {s : Host} {e : HostEvent}
    (hothers : ∀ m, m ≠ n → (s.registry.entries m).attaches.count sink = 0)
    (hone : (s.registry.entries n).attaches.count sink = 1) :
    queues sink s.registry e = emitted s n e := by
  cases e with
  | registry e =>
    cases e with
    | data m =>
      simp only [queues, emitted]
      by_cases hm : m = n
      · subst hm
        simp [hone]
      · simp [hm, hothers m hm]
    | _ => rfl
  | _ => rfl

/-! ### Runs -/

/-- A sink that is not attached stays unknown. -/
theorem unknown_step {s t : Host} {e : HostEvent} (hs : Unknown sink s.registry)
    (he : ¬ Attaches sink e) (h : hostStep options s e = some t) : Unknown sink t.registry := by
  have hserves := step_serves he h
  refine ⟨fun m => ?_, ?_⟩
  · have hle := hserves.attached m
    rw [hs.attached m] at hle
    exact Nat.le_zero.mp hle
  · rw [hserves.served, hs.served, queues_nil hs.attached, List.append_nil]

/-- A sink that is served is served what the stream delivers. -/
theorem served_step {s t : Host} {e : HostEvent} {replay live : List Bytes}
    (hs : Served sink n replay live s.registry) (he : ¬ Attaches sink e)
    (h : hostStep options s e = some t) :
    Served sink n replay (live ++ emitted s n e) t.registry := by
  have hserves := step_serves he h
  refine ⟨fun m hm => ?_, ?_, hs.replayed.trans hserves.handed, fun hmem => ?_⟩
  · have hle := hserves.attached m
    rw [hs.others m hm] at hle
    exact Nat.le_zero.mp hle
  · exact Nat.le_trans (hserves.attached n) hs.once
  · -- it is attached after the step, so it was before, and once
    have hcount : 0 < (s.registry.entries n).attaches.count sink :=
      Nat.lt_of_lt_of_le (List.count_pos_iff.mpr hmem) (hserves.attached n)
    have hone : (s.registry.entries n).attaches.count sink = 1 :=
      Nat.le_antisymm hs.once hcount
    rw [hserves.served, hs.owed (List.count_pos_iff.mp hcount), queues_emitted hs.others hone,
      List.append_assoc]

/-- Along a run. -/
theorem served_run {es : List HostEvent} {s u : Host} {replay live : List Bytes}
    (hs : Served sink n replay live s.registry) (hes : ∀ e ∈ es, ¬ Attaches sink e)
    (h : (host options).runFrom s es = some u) :
    Served sink n replay (live ++ delivered options n s es) u.registry := by
  induction es generalizing s live with
  | nil =>
    obtain rfl := Option.some.inj h
    rw [delivered, List.append_nil]
    exact hs
  | cons e es ih =>
    obtain ⟨t, ht, hrest⟩ := Option.bind_eq_some_iff.mp h
    have hstep : hostStep options s e = some t := ht
    have hnext := served_step hs (hes e (List.mem_cons_self ..)) hstep
    have hrun := ih hnext (fun e' he' => hes e' (List.mem_cons_of_mem _ he')) hrest
    rw [delivered, hstep, Option.elim_some, ← List.append_assoc]
    exact hrun

/-- A sink attaches to a terminal for the first time, and to no other later. As long as it
stays attached, in whatever order chunks, settlements and other sinks come, what it was
handed is the buffer the terminal retained at that moment and after it a first part of what
the stream delivered since. -/
theorem replay_then_live {options : Options} {s t u : Host} {id : String} {sink : TerminalSink}
    {n : ℕ} {es : List HostEvent}
    (hbefore : (host options).ReachableWhen (fun _ e => ¬ Attaches sink e) s)
    (hget : s.registry.get id = some n) (hlive : (s.registry.entries n).state ≠ .exited)
    (hattach : (host options).step s (.registry (.attach id sink)) = some t)
    (hafter : ∀ e ∈ es, ¬ Attaches sink e) (hrun : (host options).runFrom t es = some u)
    (hstays : sink ∈ (u.registry.entries n).attaches) :
    ∃ live, live <+: (delivered options n t es).flatten ∧
      (outputsTo sink u.registry.reports).flatten = (s.registry.entries n).buffer ++ live := by
  have hunknown : Unknown sink s.registry :=
    hbefore.invariant (I := fun s => Unknown sink s.registry) ⟨fun _ => rfl, rfl⟩
      fun s e t hs he ht => unknown_step hs he ht
  obtain ⟨r, hr⟩ : ∃ r, attach s.registry id sink = .ok r := attach_open hget hlive
  have ht : t.registry = r := by
    have hstep : hostStep options s (.registry (.attach id sink)) = some t := hattach
    simp only [hostStep, runs, step, hr, if_true, Option.map_some] at hstep
    exact (congrArg Host.registry (Option.some.inj hstep)).symm
  have hserved := served_run (served_attach (ht ▸ hr) hunknown hget) hafter hrun
  rw [List.nil_append] at hserved
  obtain ⟨handed, hhanded⟩ := hserved.replayed
  have howed := hserved.owed hstays
  rw [served, ← hhanded, List.append_assoc] at howed
  refine ⟨handed.flatten, ?_, ?_⟩
  · refine ⟨(pendingTo sink (microtasks u.registry.deliveries)).flatten, ?_⟩
    rw [← List.append_cancel_left howed, List.flatten_append]
  · rw [← hhanded, List.flatten_append]
    congr 1
    unfold replayOf
    split
    · rename_i hbuffer
      rw [hbuffer]
      rfl
    · exact List.append_nil _

/-- A terminal printed `one` while nobody watched and `two` to one sink, which was not handed
it yet. -/
def printedTwo : List HostEvent :=
  [.registry (.open "s1" "/w" 80 24), .registry (.spawned 0 4711),
    .publish 1 "one".toUTF8.toList, .registry (.data 1), .registry (.attach "t1" 7),
    .publish 1 "two".toUTF8.toList, .registry (.data 1)]

/-- Then both sinks are handed what is queued, and the terminal prints `three`. -/
def printsThree : List HostEvent :=
  [.registry (.output 0 0 .returned), .registry (.react 0), .publish 1 "three".toUTF8.toList,
    .registry (.data 1), .registry (.output 1 0 .returned), .registry (.output 1 1 .returned)]

/-- The first run attaches no other sink. -/
theorem printedTwo_isSome : ((host shellOptions).runGuarded (fun _ e => ¬ Attaches 8 e)
    (host shellOptions).init printedTwo).isSome = true := by
  decide +kernel

/-- The state in which the other sink comes. -/
def secondComes : Host :=
  ((host shellOptions).runGuarded (fun _ e => ¬ Attaches 8 e) (host shellOptions).init
    printedTwo).get printedTwo_isSome

theorem secondComes_attach :
    ((host shellOptions).step secondComes (.registry (.attach "t1" 8))).isSome = true := by
  decide +kernel

theorem printsThree_isSome : ((host shellOptions).runFrom
    (((host shellOptions).step secondComes (.registry (.attach "t1" 8))).get secondComes_attach)
    printsThree).isSome = true := by
  decide +kernel

/-- The second sink is handed `onetwo` at once and `three` later. -/
theorem replay_then_live_second :
    ∃ live, live <+: "three".toUTF8.toList ∧
      (outputsTo 8 (((host shellOptions).runFrom (((host shellOptions).step secondComes
        (.registry (.attach "t1" 8))).get secondComes_attach) printsThree).get
          printsThree_isSome).registry.reports).flatten =
        "onetwo".toUTF8.toList ++ live := by
  have hthree : (delivered shellOptions 1 (((host shellOptions).step secondComes
      (.registry (.attach "t1" 8))).get secondComes_attach) printsThree).flatten =
        "three".toUTF8.toList := by
    decide +kernel
  have honetwo : (secondComes.registry.entries 1).buffer = "onetwo".toUTF8.toList := by
    decide +kernel
  have hlive := replay_then_live (n := 1) (Machine.reachableWhen_get printedTwo_isSome)
    (by decide +kernel) (by decide +kernel) (Option.some_get secondComes_attach).symm
    (by decide +kernel) (Option.some_get printsThree_isSome).symm (by decide +kernel)
  rw [← hthree, ← honetwo]
  exact hlive

end RemoteWorkspace.Analysis.TerminalRegistry
