import RemoteWorkspace.Computation.Slots
import RemoteWorkspace.Model.TerminalHost
import RemoteWorkspace.Analysis.TerminalSteps

/-!
# What a terminal's sinks are still to be handed

Of all that the registry keeps, three things decide what a sink is handed: the chunks an
entry's output holds, the sinks that are attached to the entry, and the microtasks that have
not run. Each event is described once by what it does to them; all but four leave the output
and the microtasks alone and attach nobody.
-/

set_option autoImplicit false

namespace RemoteWorkspace.Analysis.TerminalRegistry

open RemoteWorkspace.Computation RemoteWorkspace.Model RemoteWorkspace.Model.TerminalRegistry

variable {options : Options} {s t : Registry}

/-! ### Microtasks -/

@[simp] theorem microtasks_append (l l' : List Delivery) :
    microtasks (l ++ l') = microtasks l ++ microtasks l' := List.flatMap_append

theorem microtasks_cons (x : Delivery) (l : List Delivery) :
    microtasks (x :: l) = microtasks [x] ++ microtasks l := by
  rw [← microtasks_append, List.singleton_append]

/-- The microtasks of one delivery, at one of its sinks. -/
theorem microtasks_split (x : Delivery) (before after : List (TerminalSink × Take))
    (take : TerminalSink × Take) :
    microtasks [{ x with takes := before ++ take :: after }] =
      microtasks [{ x with takes := before }] ++
        ((if take.2 = .queued then [(x.entry, take.1, x.chunk)] else []) ++
          microtasks [{ x with takes := after }]) := by
  unfold microtasks
  by_cases h : take.2 = .queued <;> simp [h]

/-- A chunk that arrives queues one microtask for each sink that is attached. -/
theorem microtasks_new (n : ℕ) (chunk : Bytes) (sinks : List TerminalSink) :
    microtasks [⟨n, chunk, sinks.map fun k => (k, .queued), false⟩] =
      sinks.map fun k => (n, k, chunk) := by
  induction sinks with
  | nil => rfl
  | cons k sinks ih =>
    have hsplit := microtasks_split ⟨n, chunk, [], false⟩ [] (sinks.map fun k => (k, .queued))
      (k, .queued)
    rw [ih] at hsplit
    exact hsplit

/-- A delivery moves on without any of its microtasks running. -/
theorem microtasks_modify {l : List Delivery} {d : ℕ} {x : Delivery} {f : Delivery → Delivery}
    (hx : l[d]? = some x) (hf : microtasks [f x] = microtasks [x]) :
    microtasks (l.modify d f) = microtasks l := by
  conv_rhs => rw [split_at hx]
  rw [modify_split hx, microtasks_append, microtasks_append, microtasks_cons _ (l.drop (d + 1)),
    microtasks_cons x (l.drop (d + 1)), hf]

/-- The first microtask, which is one of delivery `d`, and those behind it. -/
theorem microtasks_first {d i : ℕ} {x : Delivery} {sink : TerminalSink} {take : Take}
    (hx : s.deliveries[d]? = some x) (hsink : x.takes[i]? = some (sink, .queued))
    (hfirst : microtasks (queuedBefore s d i) = []) (htake : take ≠ .queued) :
    microtasks s.deliveries =
      (x.entry, sink, x.chunk) :: microtasks (s.setTake d i take).deliveries := by
  have hbefore := hfirst
  rw [queuedBefore, hx, microtasks_append, List.append_eq_nil_iff] at hbefore
  obtain ⟨hearlier, hsame⟩ := hbefore
  have hsame' : microtasks [{ x with takes := x.takes.take i }] = [] := hsame
  have hnow : microtasks [x] =
      (x.entry, sink, x.chunk) :: microtasks [{ x with takes := x.takes.drop (i + 1) }] := by
    have hsplit := microtasks_split x (x.takes.take i) (x.takes.drop (i + 1)) (sink, .queued)
    rw [← split_at hsink, hsame', if_pos rfl] at hsplit
    exact hsplit
  have hthen : microtasks [{ x with takes := x.takes.modify i fun y => (y.1, take) }] =
      microtasks [{ x with takes := x.takes.drop (i + 1) }] := by
    rw [modify_split hsink, microtasks_split, hsame', if_neg htake]
    rfl
  have hafter : (s.setTake d i take).deliveries = s.deliveries.take d ++
      { x with takes := x.takes.modify i fun y => (y.1, take) } :: s.deliveries.drop (d + 1) :=
    modify_split hx _
  have hbehind : microtasks s.deliveries =
      microtasks [x] ++ microtasks (s.deliveries.drop (d + 1)) := by
    conv_lhs => rw [split_at hx]
    rw [microtasks_append, hearlier, List.nil_append, microtasks_cons]
  rw [hbehind, hnow, hafter, microtasks_append, hearlier, List.nil_append,
    microtasks_cons _ (s.deliveries.drop (d + 1)), hthen, List.cons_append]

/-! ### What a step does -/

/-- What the output of an entry holds. -/
def queuedOf (s : Registry) (n : ℕ) : List Bytes := (s.entries n).handle.output.queued

/-- A step that leaves the outputs and the microtasks alone, hands nothing to a sink,
attaches nobody and revives no entry. -/
structure Idle (s t : Registry) : Prop where
  queued : ∀ n, queuedOf t n = queuedOf s n
  tasks : microtasks t.deliveries = microtasks s.deliveries
  attached : ∀ n, ((t.entries n).attaches).Sublist (s.entries n).attaches
  outputs : ∀ k, outputsTo k t.reports = outputsTo k s.reports
  exited : ∀ n, (s.entries n).state = .exited → (t.entries n).state = .exited
  nextOrdinal : t.nextOrdinal = s.nextOrdinal

theorem Idle.refl (s : Registry) : Idle s s :=
  ⟨fun _ => rfl, rfl, fun _ => List.Sublist.refl _, fun _ => rfl, fun _ => id, rfl⟩

theorem Idle.trans {u : Registry} (h : Idle s t) (h' : Idle t u) : Idle s u :=
  ⟨fun n => (h'.queued n).trans (h.queued n), h'.tasks.trans h.tasks,
    fun n => (h'.attached n).trans (h.attached n), fun k => (h'.outputs k).trans (h.outputs k),
    fun n hn => h'.exited n (h.exited n hn), h'.nextOrdinal.trans h.nextOrdinal⟩

/-- Assigning fields of an entry that leave its output alone and attach nobody. -/
theorem idle_assign {n : ℕ} {entry : TerminalEntry}
    (hqueued : entry.handle.output.queued = queuedOf s n)
    (hattached : entry.attaches.Sublist (s.entries n).attaches)
    (hexited : (s.entries n).state = .exited → entry.state = .exited) :
    Idle s (s.assign n entry) := by
  refine ⟨fun m => ?_, rfl, fun m => ?_, fun _ => rfl, fun m hm => ?_, rfl⟩
  · by_cases h : m = n
    · subst h
      simpa [Registry.assign, queuedOf] using hqueued
    · simp [Registry.assign, queuedOf, h]
  · by_cases h : m = n
    · subst h
      simpa [Registry.assign] using hattached
    · simp [Registry.assign, h]
  · by_cases h : m = n
    · subst h
      simpa [Registry.assign] using hexited hm
    · simpa [Registry.assign, h] using hm

/-- A steady step is idle. -/
theorem Steady.idle (h : Steady s t) : Idle s t where
  queued n := congrArg TtyOutput.queued (h.output n)
  tasks := congrArg microtasks h.deliveries
  attached := h.attached
  outputs := h.outputs
  exited := h.exited
  nextOrdinal := h.nextOrdinal

/-- A sink that is done with a chunk was handed it before. -/
theorem idle_setTake {d i : ℕ} {x : Delivery} {sink : TerminalSink} {take : Take}
    (hx : s.deliveries[d]? = some x) (hsink : x.takes[i]? = some (sink, .pending))
    (htake : take ≠ .queued) : Idle s (s.setTake d i take) := by
  have hnow := microtasks_split x (x.takes.take i) (x.takes.drop (i + 1)) (sink, .pending)
  have hthen := microtasks_split x (x.takes.take i) (x.takes.drop (i + 1)) (sink, take)
  rw [← split_at hsink, if_neg (by simp)] at hnow
  rw [if_neg htake, ← hnow, ← modify_split hsink fun y => (y.1, take)] at hthen
  exact ⟨fun _ => rfl, microtasks_modify hx hthen, fun _ => List.Sublist.refl _, fun _ => rfl,
    fun _ => id, rfl⟩

/-- A reaction hands nothing to a sink. -/
theorem idle_react {d : ℕ} {x : Delivery} (hx : s.deliveries[d]? = some x) (n : ℕ) :
    Idle s (resumeOutput
      { s with deliveries := s.deliveries.modify d fun x => { x with reacted := true } } n) := by
  have hmark : Idle s
      { s with deliveries := s.deliveries.modify d fun x => { x with reacted := true } } :=
    ⟨fun _ => rfl, microtasks_modify hx rfl, fun _ => List.Sublist.refl _, fun _ => rfl,
      fun _ => id, rfl⟩
  refine hmark.trans ?_
  unfold resumeOutput
  simp only
  split
  · exact idle_assign rfl (List.Sublist.refl _) fun h => h
  · exact .refl _

/-- The events that are not idle. -/
def Feeds : Event → Prop
  | .spawned _ _ => True
  | .attach _ _ => True
  | .produce _ _ => True
  | .data _ => True
  | .output _ _ _ => True
  | _ => False

/-- Every other event is. -/
theorem step_idle {e : Event} (hfeeds : ¬ Feeds e) (h : step options s e = some t) :
    Idle s t := by
  cases e with
  | spawned | attach | produce | data | output => exact absurd trivial hfeeds
  | settled d i fulfilled =>
    simp only [step] at h
    split at h
    · rename_i sink htake
      obtain ⟨x, hx, hsink⟩ := Option.bind_eq_some_iff.mp htake
      refine Option.some.inj h ▸ idle_setTake hx hsink ?_
      cases fulfilled <;> simp
    · cases h
  | react d =>
    simp only [step] at h
    split at h
    · rename_i x hx
      obtain ⟨-, heq⟩ := Option.ite_none_right_eq_some.mp h
      exact Option.some.inj heq ▸ idle_react hx x.entry
    · cases h
  | _ => exact (step_steady id h).idle

/-! ### The events that are not idle -/

/-- A shell that was registered has written nothing, and nobody is attached to it. -/
theorem spawned_fresh {o pid : ℕ} (h : step options s (.spawned o pid) = some t) :
    ∃ entry, entry.handle.output.queued = [] ∧ entry.attaches = [] ∧
      t.entries = Function.update s.entries (s.nextOrdinal + 1) entry ∧
      t.nextOrdinal = s.nextOrdinal + 1 ∧ t.deliveries = s.deliveries ∧
      t.reports = s.reports := by
  simp only [step] at h
  split at h
  · obtain rfl := Option.some.inj h
    exact ⟨_, rfl, rfl, rfl, rfl, rfl, rfl⟩
  · cases h

/-- A step that touches one entry's list of sinks or its output and no other entry, and
keeps who has exited. -/
structure Touches (s t : Registry) (n : ℕ) : Prop where
  others : ∀ m, m ≠ n → t.entries m = s.entries m
  exited : (t.entries n).state = .exited ↔ (s.entries n).state = .exited
  nextOrdinal : t.nextOrdinal = s.nextOrdinal

/-- An accepted attach adds the sink and replays what the buffer holds. -/
theorem attach_accepted {id : String} {sink : TerminalSink} (h : attach s id sink = .ok t) :
    ∃ n, s.get id = some n ∧ (s.entries n).state ≠ .exited ∧ Touches s t n ∧
      queuedOf t n = queuedOf s n ∧ t.deliveries = s.deliveries ∧
      (t.entries n).attaches = (if sink ∈ (s.entries n).attaches then (s.entries n).attaches
        else (s.entries n).attaches ++ [sink]) ∧
      t.reports = s.reports ++ if (s.entries n).buffer = [] then []
        else [(sink, .output (s.entries n).buffer)] := by
  obtain ⟨n, hget, hlive, rfl⟩ := attach_ok h
  refine ⟨n, hget, hlive, ⟨fun m hm => Function.update_of_ne hm .., ?_, rfl⟩, ?_, rfl, ?_, rfl⟩
  · have hstill : (if (s.entries n).state = .detached then .running
        else (s.entries n).state) ≠ TerminalState.exited := by
      split
      · simp
      · exact hlive
    simp [Registry.assign, hlive, hstill]
  · simp [queuedOf, Registry.assign]
  · simp [Registry.assign]

/-- A terminal that is open and has not exited accepts every sink. -/
theorem attach_open {id : String} {sink : TerminalSink} {n : ℕ} (hget : s.get id = some n)
    (hlive : (s.entries n).state ≠ .exited) : ∃ t, attach s id sink = .ok t := by
  unfold attach entryOf requireLive
  simp only [hget, hlive, bind, Except.bind, if_false]
  split <;> exact ⟨_, rfl⟩

/-- A `data` event takes the next chunk off the output and queues one microtask for each
sink that is attached. -/
theorem data_queued {n : ℕ} (h : step options s (.data n) = some t) :
    ∃ chunk, queuedOf s n = chunk :: queuedOf t n ∧ Touches s t n ∧
      (t.entries n).attaches = (s.entries n).attaches ∧ t.reports = s.reports ∧
      microtasks t.deliveries = microtasks s.deliveries ++
        (s.entries n).attaches.map fun k => (n, k, chunk) := by
  simp only [step] at h
  split at h
  · rename_i chunk rest hout
    obtain rfl := Option.some.inj h
    have hqueued : queuedOf s n = chunk :: rest := by rw [queuedOf, hout]
    refine ⟨chunk, ?_⟩
    rw [hqueued]
    by_cases hnone : (s.entries n).attaches = []
    · refine ⟨?_, ⟨fun m hm => ?_, ?_, ?_⟩, ?_, ?_, ?_⟩
      all_goals simp [dataHandler, Registry.assign, queuedOf, *]
    · refine ⟨?_, ⟨fun m hm => ?_, ?_, ?_⟩, ?_, ?_, ?_⟩
      all_goals simp [dataHandler, Registry.assign, queuedOf, microtasks_new, *]
  · cases h

/-- A microtask hands its chunk to its sink. -/
theorem output_handed {d i : ℕ} {answer : Answer}
    (h : step options s (.output d i answer) = some t)
    (hfirst : microtasks (queuedBefore s d i) = []) :
    ∃ x sink, s.deliveries[d]? = some x ∧ x.takes[i]? = some (sink, .queued) ∧
      microtasks s.deliveries = (x.entry, sink, x.chunk) :: microtasks t.deliveries ∧
      t.entries = s.entries ∧ t.nextOrdinal = s.nextOrdinal ∧
      t.reports = s.reports ++ [(sink, .output x.chunk)] := by
  simp only [step] at h
  split at h
  · rename_i chunk sink hdelivery
    obtain ⟨x, hx, htake⟩ := Option.bind_eq_some_iff.mp hdelivery
    obtain ⟨y, hy, heq⟩ := Option.map_eq_some_iff.mp htake
    obtain ⟨rfl, rfl⟩ := Prod.mk.inj heq
    obtain rfl := Option.some.inj h
    refine ⟨x, sink, hx, hy, ?_, rfl, rfl, rfl⟩
    exact microtasks_first hx hy hfirst (by cases answer <;> simp [Answer.take])
  · cases h

/-- What a provider writes goes to the end of the output. -/
theorem writeOutput_queued (s : Registry) (n : ℕ) (chunk : Bytes) :
    queuedOf (writeOutput s n chunk) n = queuedOf s n ++ (if chunk = [] then [] else [chunk]) ∧
      Touches s (writeOutput s n chunk) n ∧
      ((writeOutput s n chunk).entries n).attaches = (s.entries n).attaches ∧
      (writeOutput s n chunk).deliveries = s.deliveries ∧
      (writeOutput s n chunk).reports = s.reports := by
  unfold writeOutput
  split
  · exact ⟨(List.append_nil _).symm, ⟨fun _ _ => rfl, Iff.rfl, rfl⟩, rfl, rfl, rfl⟩
  · refine ⟨?_, ⟨fun m hm => Function.update_of_ne hm .., ?_, rfl⟩, ?_, rfl, rfl⟩
    · simp [queuedOf, Registry.assign]
    · simp [Registry.assign]
    · simp [Registry.assign]

/-! ### The events of the loop -/

/-- What an event of the loop does: a provider writes, or writes for the last time; the end
of a shell is reported; or the registry takes a step of its own. -/
inductive HostMove (options : Options) (s : Host) : HostEvent → Host → Prop
  | published {n : ℕ} {chunk : Bytes} (hn : n ≤ s.registry.nextOrdinal)
      (hopen : s.finished n = none) :
      HostMove options s (.publish n chunk) { s with registry := writeOutput s.registry n chunk }
  | finished {n : ℕ} {last : Bytes} {outcome : Except String TtyOutcome}
      (hn : n ≤ s.registry.nextOrdinal) (hopen : s.finished n = none) :
      HostMove options s (.finish n last outcome)
        { registry := writeOutput s.registry n last
          finished :=
            Function.update s.finished n (some (outcome, s.registry.deliveries.length)) }
  | reported {n : ℕ} {outcome : Except String TtyOutcome} {r : Registry}
      (hfinished : s.finished n ≠ none)
      (hstep : step options s.registry (.done n outcome) = some r) :
      HostMove options s (.report n) { s with registry := r }
  | stepped {e : Event} {r : Registry} (hruns : runs s e)
      (hstep : step options s.registry e = some r) :
      HostMove options s (.registry e) { s with registry := r }

/-- Every event of the loop does one of these. -/
theorem hostStep_moves {s t : Host} {e : HostEvent} (h : hostStep options s e = some t) :
    HostMove options s e t := by
  cases e with
  | registry e =>
    obtain ⟨hruns, hmap⟩ := Option.ite_none_right_eq_some.mp h
    obtain ⟨r, hr, rfl⟩ := Option.map_eq_some_iff.mp hmap
    exact .stepped hruns hr
  | publish n chunk =>
    obtain ⟨⟨-, hn, hopen⟩, heq⟩ := Option.ite_none_right_eq_some.mp h
    cases heq
    exact .published hn hopen
  | finish n last outcome =>
    obtain ⟨⟨-, hn, hopen⟩, heq⟩ := Option.ite_none_right_eq_some.mp h
    cases heq
    exact .finished hn hopen
  | report n =>
    simp only [hostStep] at h
    split at h
    · rename_i hfinished
      obtain ⟨-, hmap⟩ := Option.ite_none_right_eq_some.mp h
      obtain ⟨r, hr, rfl⟩ := Option.map_eq_some_iff.mp hmap
      exact .reported (by simp [hfinished]) hr
    · cases h

/-- An event of the registry is one of the loop's, and a step of the registry. -/
theorem hostStep_registry {s t : Host} {e : Event}
    (h : hostStep options s (.registry e) = some t) :
    step options s.registry e = some t.registry := by
  obtain ⟨-, hmap⟩ := Option.ite_none_right_eq_some.mp h
  obtain ⟨r, hr, rfl⟩ := Option.map_eq_some_iff.mp hmap
  exact hr

end RemoteWorkspace.Analysis.TerminalRegistry
