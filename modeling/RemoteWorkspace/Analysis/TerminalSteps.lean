import RemoteWorkspace.Computation.Fallible
import RemoteWorkspace.Model.TerminalRegistry

/-!
# The steps of the registry

Most events of the registry are steady: they leave every output and every delivery alone,
attach nobody, hand nothing to a sink and revive no entry. Those that are not are described
one by one where they matter; an attach is described here.
-/

set_option autoImplicit false

namespace RemoteWorkspace.Analysis.TerminalRegistry

open RemoteWorkspace.Computation RemoteWorkspace.Model RemoteWorkspace.Model.TerminalRegistry

variable {options : Options} {s t : Registry}

/-! ### What a sink was handed -/

/-- The chunks a sink was handed, in order. -/
def outputsTo (sink : TerminalSink) (reports : List (TerminalSink × Report)) : List Bytes :=
  reports.filterMap fun report =>
    match report with
    | (k, .output chunk) => if k = sink then some chunk else none
    | _ => none

@[simp] theorem outputsTo_append (sink : TerminalSink)
    (reports reports' : List (TerminalSink × Report)) :
    outputsTo sink (reports ++ reports') = outputsTo sink reports ++ outputsTo sink reports' :=
  List.filterMap_append

theorem outputsTo_output (sink k : TerminalSink) (chunk : Bytes) :
    outputsTo sink [(k, .output chunk)] = if k = sink then [chunk] else [] := by
  by_cases h : k = sink <;> simp [outputsTo, h]

/-- The end of a terminal is no output. -/
theorem outputsTo_end (sink : TerminalSink) (sinks : List TerminalSink)
    (outcome : Except String TtyOutcome) :
    outputsTo sink (sinks.map fun k => (k, reportOf outcome)) = [] := by
  unfold outputsTo
  rw [List.filterMap_eq_nil_iff]
  intro report hreport
  obtain ⟨k, -, rfl⟩ := List.mem_map.mp hreport
  cases outcome <;> rfl

/-! ### Steady steps -/

/-- A step that leaves the outputs and the deliveries alone, hands nothing to a sink,
attaches nobody and revives no entry. -/
structure Steady (s t : Registry) : Prop where
  output : ∀ n, (t.entries n).handle.output = (s.entries n).handle.output
  attached : ∀ n, ((t.entries n).attaches).Sublist (s.entries n).attaches
  exited : ∀ n, (s.entries n).state = .exited → (t.entries n).state = .exited
  nextOrdinal : t.nextOrdinal = s.nextOrdinal
  deliveries : t.deliveries = s.deliveries
  outputs : ∀ k, outputsTo k t.reports = outputsTo k s.reports

theorem Steady.refl (s : Registry) : Steady s s :=
  ⟨fun _ => rfl, fun _ => List.Sublist.refl _, fun _ => id, rfl, rfl, fun _ => rfl⟩

theorem Steady.trans {u : Registry} (h : Steady s t) (h' : Steady t u) : Steady s u :=
  ⟨fun n => (h'.output n).trans (h.output n), fun n => (h'.attached n).trans (h.attached n),
    fun n hn => h'.exited n (h.exited n hn), h'.nextOrdinal.trans h.nextOrdinal,
    h'.deliveries.trans h.deliveries, fun k => (h'.outputs k).trans (h.outputs k)⟩

/-- Assigning fields of an entry that leave its output alone and attach nobody. -/
theorem steady_assign {n : ℕ} {entry : TerminalEntry}
    (houtput : entry.handle.output = (s.entries n).handle.output)
    (hattached : entry.attaches.Sublist (s.entries n).attaches)
    (hexited : (s.entries n).state = .exited → entry.state = .exited) :
    Steady s (s.assign n entry) := by
  refine ⟨fun m => ?_, fun m => ?_, fun m hm => ?_, rfl, rfl, fun _ => rfl⟩
  · by_cases h : m = n
    · subst h
      simpa [Registry.assign] using houtput
    · simp [Registry.assign, h]
  · by_cases h : m = n
    · subst h
      simpa [Registry.assign] using hattached
    · simp [Registry.assign, h]
  · by_cases h : m = n
    · subst h
      simpa [Registry.assign] using hexited hm
    · simpa [Registry.assign, h] using hm

/-- A release is steady. -/
theorem steady_kill (s : Registry) (id : String) : Steady s (kill s id) := by
  unfold kill
  split
  · exact .refl s
  · rename_i n _
    have h : Steady s (s.assign n { s.entries n with
        detachTimer := false, attaches := [], state := .exited,
        handle := { (s.entries n).handle with
          terminations := (s.entries n).handle.terminations + 1 } }) :=
      steady_assign rfl (List.nil_sublist _) fun _ => rfl
    exact ⟨h.output, h.attached, h.exited, rfl, rfl, fun _ => rfl⟩

/-- So is any number of them. -/
theorem steady_kills (ids : List String) (s : Registry) : Steady s (ids.foldl kill s) := by
  induction ids generalizing s with
  | nil => exact .refl s
  | cons id ids ih => exact (steady_kill s id).trans (ih _)

/-- A detach is steady: it changes who is told and the entry's state. -/
theorem steady_detach (s : Registry) (id : String) (sink : TerminalSink) :
    Steady s (detach options s id sink) := by
  unfold detach
  split
  · exact .refl s
  · rename_i n _
    simp only
    split
    · exact steady_assign rfl List.filter_sublist fun h => h
    · split
      · refine Steady.trans ?_ (steady_kill _ id)
        exact steady_assign rfl List.filter_sublist fun h => h
      · rename_i hlive
        exact steady_assign rfl List.filter_sublist fun h => absurd h hlive

/-- The end of a process hands no output to a sink. -/
theorem steady_settle (s : Registry) (n : ℕ) (outcome : Except String TtyOutcome) :
    Steady s (settle s n (reportOf outcome)) := by
  have hsteady : Steady s { s.assign n { s.entries n with
      state := .exited, handle := { (s.entries n).handle with ended := true } } with
      reports := s.reports ++ (s.entries n).attaches.map fun k => (k, reportOf outcome) } := by
    have h : Steady s (s.assign n { s.entries n with
        state := .exited, handle := { (s.entries n).handle with ended := true } }) :=
      steady_assign rfl (List.Sublist.refl _) fun _ => rfl
    refine ⟨h.output, h.attached, h.exited, rfl, rfl, fun k => ?_⟩
    show outputsTo k (s.reports ++ _) = _
    rw [outputsTo_append, outputsTo_end, List.append_nil]
  simp only [settle]
  split
  · exact hsteady.trans (steady_kill _ _)
  · exact hsteady

/-- The events that are not steady. -/
def Moves : Event → Prop
  | .spawned _ _ => True
  | .attach _ _ => True
  | .produce _ _ => True
  | .data _ => True
  | .output _ _ _ => True
  | .settled _ _ _ => True
  | .react _ => True
  | _ => False

/-- Every other event is. -/
theorem step_steady {e : Event} (hmoves : ¬ Moves e) (h : step options s e = some t) :
    Steady s t := by
  cases e with
  | spawned | attach | produce | data | output | settled | react => exact absurd trivial hmoves
  | «open» =>
    obtain rfl := Option.some.inj h
    exact ⟨fun _ => rfl, fun _ => List.Sublist.refl _, fun _ => id, rfl, rfl, fun _ => rfl⟩
  | spawnFailed o =>
    simp only [step] at h
    split at h
    · obtain rfl := Option.some.inj h
      exact ⟨fun _ => rfl, fun _ => List.Sublist.refl _, fun _ => id, rfl, rfl, fun _ => rfl⟩
    · cases h
  | detach id sink => exact Option.some.inj h ▸ steady_detach s id sink
  | kill id => exact Option.some.inj h ▸ steady_kill s id
  | releaseSession sessionId => exact Option.some.inj h ▸ steady_kills _ s
  | disposeAll => exact Option.some.inj h ▸ steady_kills _ s
  | done n outcome =>
    obtain ⟨-, heq⟩ := Option.ite_none_right_eq_some.mp h
    exact Option.some.inj heq ▸ steady_settle s n outcome
  | valve n =>
    obtain ⟨-, heq⟩ := Option.ite_none_right_eq_some.mp h
    obtain rfl := Option.some.inj heq
    refine Steady.trans ?_ (steady_kill _ _)
    exact steady_assign rfl (List.Sublist.refl _) fun h => h
  | resized n cols rows =>
    obtain ⟨-, heq⟩ := Option.ite_none_right_eq_some.mp h
    exact Option.some.inj heq ▸ steady_assign rfl (List.Sublist.refl _) fun h => h

/-! ### An attach -/

/-- An accepted attach finds an entry that has not exited, adds the sink and replays what
the buffer holds. -/
theorem attach_ok {id : String} {sink : TerminalSink} (h : attach s id sink = .ok t) :
    ∃ n, s.get id = some n ∧ (s.entries n).state ≠ .exited ∧
      t = { s.assign n { s.entries n with
          detachTimer := false
          state := if (s.entries n).state = .detached then .running else (s.entries n).state
          attaches := if sink ∈ (s.entries n).attaches then (s.entries n).attaches
            else (s.entries n).attaches ++ [sink] } with
        reports := s.reports ++ if (s.entries n).buffer = [] then []
          else [(sink, .output (s.entries n).buffer)] } := by
  obtain ⟨n, hentry, h⟩ := bind_eq_ok_iff.mp h
  obtain ⟨m, hopen, h⟩ := bind_eq_ok_iff.mp h
  obtain ⟨hlive, hm⟩ := check_eq_ok_iff.mp hopen
  obtain rfl := Except.ok.inj hm
  unfold entryOf at hentry
  split at hentry
  · cases hentry
  · rename_i hget
    obtain rfl := Except.ok.inj hentry
    refine ⟨_, hget, hlive, ?_⟩
    simp only at h
    split at h
    · rename_i hbuffer
      rw [if_pos hbuffer, List.append_nil]
      exact (Except.ok.inj h).symm
    · rename_i hbuffer
      rw [if_neg hbuffer]
      exact (Except.ok.inj h).symm

end RemoteWorkspace.Analysis.TerminalRegistry
