import RemoteWorkspace.Computation.Slots
import RemoteWorkspace.Analysis.TerminalSteps

/-!
# When the pump of a live shell stalls

The pump pauses a shell's output while a chunk is on its way to the sinks, and the
reaction on those sinks resumes it, but only if the entry is `running` at that moment. An
entry whose last sink left while a chunk was on its way is `detached` when the reaction
runs, so its output stays paused and nothing will ever resume it: reattaching does not
touch the stream.

`Streams` is what a live entry owes its buffer. It holds throughout a run exactly when no
reaction of the run finds its entry detached. The invariant behind it is that a live
entry's output is paused exactly while one delivery of it has not reacted.
-/

set_option autoImplicit false

namespace RemoteWorkspace.Analysis.TerminalRegistry

open RemoteWorkspace.Computation RemoteWorkspace.Model RemoteWorkspace.Model.TerminalRegistry

variable {options : Options} {s s' : Registry}

/-! ### What a live entry owes its buffer -/

/-- The output of the entry at `n` is not paused, and the next chunk it holds goes into the
entry's buffer. -/
def Flows (options : Options) (s : Registry) (n : ℕ) : Prop :=
  (s.entries n).handle.output.flowing = true ∧
  ∀ chunk rest, (s.entries n).handle.output.queued = chunk :: rest →
    ∃ s', step options s (.data n) = some s' ∧
      (s'.entries n).bytes = (s.entries n).bytes + chunk.length ∧
      (s'.entries n).buffer = (append (s.entries n) chunk).buffer

/-- Every entry that has not exited, and of which no chunk is still on its way to a sink,
flows. -/
def Streams (options : Options) (s : Registry) : Prop :=
  ∀ n, (s.entries n).state ≠ .exited →
    (∀ x ∈ s.deliveries, x.entry = n → x.reacted = true) → Flows options s n

/-- A reaction does not find its entry detached. -/
def ReactsAttached (s : Registry) : Event → Prop
  | .react d => ∀ x ∈ s.deliveries[d]?, (s.entries x.entry).state ≠ .detached
  | _ => True

/-- What the `data` handler leaves of the entry's buffer and count. -/
theorem dataHandler_buffer (s : Registry) (n : ℕ) (chunk : Bytes) :
    ((dataHandler s n chunk).entries n).bytes = (s.entries n).bytes + chunk.length ∧
    ((dataHandler s n chunk).entries n).buffer = (append (s.entries n) chunk).buffer := by
  by_cases hs : (s.entries n).attaches = [] <;> simp [dataHandler, hs, Registry.assign]

/-- An entry flows as soon as its output is not paused. -/
theorem flows_of_flowing {n : ℕ} (h : (s.entries n).handle.output.flowing = true) :
    Flows options s n := by
  refine ⟨h, fun chunk rest hq => ?_⟩
  have hout : (s.entries n).handle.output = ⟨true, chunk :: rest⟩ := by
    rw [← h, ← hq]
  refine ⟨dataHandler (s.assign n ((s.entries n).setOutput ⟨true, rest⟩)) n chunk, ?_, ?_⟩
  · simp only [step, hout]
  · obtain ⟨hbytes, hbuffer⟩ :=
      dataHandler_buffer (s.assign n ((s.entries n).setOutput ⟨true, rest⟩)) n chunk
    rw [hbytes, hbuffer]
    simp [Registry.assign]

/-! ### The invariant -/

/-- Which entry each delivery belongs to and whether its reaction has run. -/
def reactions (s : Registry) : List (ℕ × Bool) :=
  s.deliveries.map fun x => (x.entry, x.reacted)

/-- Delivery `d` of the entry at `n` has not reacted. -/
def Unreacted (s : Registry) (n d : ℕ) : Prop := (reactions s)[d]? = some (n, false)

/-- A live entry is paused exactly while one delivery of it has not reacted. -/
structure Pumping (s : Registry) : Prop where
  known : ∀ (d n : ℕ) (b : Bool), (reactions s)[d]? = some (n, b) → n ≤ s.nextOrdinal
  opened : ∀ n, (s.entries n).handle.output.flowing = true → n ≤ s.nextOrdinal
  flowing : ∀ n, (s.entries n).handle.output.flowing = true → ∀ d, ¬ Unreacted s n d
  paused : ∀ n, (s.entries n).state ≠ .exited →
    (s.entries n).handle.output.flowing = false → ∃ d, Unreacted s n d
  single : ∀ n d d', Unreacted s n d → Unreacted s n d' → d = d'

/-- A live entry pumps into its buffer whenever nothing of it is on its way. -/
theorem Pumping.streams (h : Pumping s) : Streams options s := by
  intro n hlive hidle
  apply flows_of_flowing
  cases hf : (s.entries n).handle.output.flowing with
  | true => rfl
  | false =>
    obtain ⟨d, hd⟩ := h.paused n hlive hf
    obtain ⟨x, hx, heq⟩ : ∃ x, s.deliveries[d]? = some x ∧ (x.entry, x.reacted) = (n, false) := by
      simpa [Unreacted, reactions, List.getElem?_map, Option.map_eq_some_iff] using hd
    obtain ⟨hn, hr⟩ := Prod.mk.inj heq
    rw [hidle x (List.mem_of_getElem? hx) hn] at hr
    cases hr

/-- A new registry pumps. -/
theorem pumping_empty : Pumping .empty :=
  ⟨nofun, nofun, nofun, fun _ hlive => absurd rfl hlive, nofun⟩

/-- A step that starts and stops no output, settles no delivery and brings no exited entry
back. -/
structure Quiet (s s' : Registry) : Prop where
  flowing : ∀ n, (s'.entries n).handle.output.flowing = (s.entries n).handle.output.flowing
  exited : ∀ n, (s.entries n).state = .exited → (s'.entries n).state = .exited
  nextOrdinal : s'.nextOrdinal = s.nextOrdinal
  reactions : reactions s' = reactions s

/-- A quiet step keeps the pump as it is. -/
theorem Pumping.quiet (h : Pumping s) (hq : Quiet s s') : Pumping s' where
  known := by
    rw [hq.reactions, hq.nextOrdinal]
    exact h.known
  opened n := by
    rw [hq.flowing, hq.nextOrdinal]
    exact h.opened n
  flowing n hf d := by
    unfold Unreacted
    rw [hq.reactions]
    exact h.flowing n (hq.flowing n ▸ hf) d
  paused n hlive hf := by
    unfold Unreacted
    rw [hq.reactions]
    exact h.paused n (fun hexit => hlive (hq.exited n hexit)) (hq.flowing n ▸ hf)
  single := by
    unfold Unreacted
    rw [hq.reactions]
    exact h.single

theorem Quiet.refl (s : Registry) : Quiet s s := ⟨fun _ => rfl, fun _ => id, rfl, rfl⟩

/-- Assigning fields of an entry that leave its output and its end alone. -/
theorem quiet_assign {n : ℕ} {entry : TerminalEntry}
    (hf : entry.handle.output.flowing = (s.entries n).handle.output.flowing)
    (hexited : (s.entries n).state = .exited → entry.state = .exited) :
    Quiet s (s.assign n entry) := by
  refine ⟨fun m => ?_, fun m hm => ?_, rfl, rfl⟩
  · by_cases h : m = n
    · subst h
      simpa [Registry.assign] using hf
    · simp [Registry.assign, h]
  · by_cases h : m = n
    · subst h
      simpa [Registry.assign] using hexited hm
    · simpa [Registry.assign, h] using hm

/-- A steady step is quiet. -/
theorem Steady.quiet (h : Steady s s') : Quiet s s' where
  flowing n := congrArg TtyOutput.flowing (h.output n)
  exited := h.exited
  nextOrdinal := h.nextOrdinal
  reactions := by rw [reactions, h.deliveries, reactions]

/-- An attach is quiet: it does not touch the stream either. -/
theorem quiet_attach {id : String} {sink : TerminalSink} (h : attach s id sink = .ok s') :
    Quiet s s' := by
  obtain ⟨n, -, hlive, rfl⟩ := attach_ok h
  have hq : Quiet s (s.assign n { s.entries n with
      detachTimer := false
      state := if (s.entries n).state = .detached then .running else (s.entries n).state
      attaches := if sink ∈ (s.entries n).attaches then (s.entries n).attaches
        else (s.entries n).attaches ++ [sink] }) :=
    quiet_assign rfl fun hexit => absurd hexit hlive
  exact ⟨hq.flowing, hq.exited, rfl, rfl⟩

/-- Moving one sink of a delivery on settles no reaction. -/
theorem quiet_setTake (s : Registry) (d i : ℕ) (take : Take) : Quiet s (s.setTake d i take) :=
  ⟨fun _ => rfl, fun _ => id, rfl, map_modify_of_eq (fun _ => by rfl) s.deliveries d⟩

/-- The only events that start or stop an output, or settle a delivery. -/
def Pumps : Event → Prop
  | .spawned _ _ => True
  | .data _ => True
  | .react _ => True
  | _ => False

/-- Every other event is quiet. -/
theorem step_quiet {event : Event} (hp : ¬ Pumps event) (h : step options s event = some s') :
    Quiet s s' := by
  cases event with
  | spawned | data | react => exact absurd trivial hp
  | attach id sink =>
    simp only [step] at h
    split at h
    · rename_i hattach
      exact Option.some.inj h ▸ quiet_attach hattach
    · exact Option.some.inj h ▸ .refl s
  | produce n chunk =>
    simp only [step] at h
    split at h
    · exact Option.some.inj h ▸ quiet_assign (by rfl) fun hx => hx
    · cases h
  | output d i answer =>
    simp only [step] at h
    split at h
    · obtain rfl := Option.some.inj h
      have hq := quiet_setTake s d i answer.take
      exact ⟨hq.flowing, hq.exited, rfl, hq.reactions⟩
    · cases h
  | settled d i fulfilled =>
    simp only [step] at h
    split at h
    · exact Option.some.inj h ▸ quiet_setTake s d i _
    · cases h
  | _ => exact (step_steady id h).quiet

/-! ### The events that pump -/

/-- A registered shell flows and nothing of it is on its way. -/
theorem step_spawned {o pid : ℕ} (h : step options s (.spawned o pid) = some s') :
    ∃ entry, entry.handle.output.flowing = true ∧ reactions s' = reactions s ∧
      s'.nextOrdinal = s.nextOrdinal + 1 ∧
      s'.entries = Function.update s.entries (s.nextOrdinal + 1) entry := by
  simp only [step] at h
  split at h
  · obtain rfl := Option.some.inj h
    exact ⟨_, rfl, rfl, rfl, rfl⟩
  · cases h

/-- A chunk that nobody watches is appended; one that somebody watches pauses the output
and starts a delivery. -/
theorem dataHandler_cases (s : Registry) (n : ℕ) (chunk : Bytes) :
    Quiet s (dataHandler s n chunk) ∨
      ((dataHandler s n chunk).entries n).handle.output.flowing = false ∧
      ((dataHandler s n chunk).entries n).state = (s.entries n).state ∧
      (∀ m, m ≠ n → (dataHandler s n chunk).entries m = s.entries m) ∧
      (dataHandler s n chunk).nextOrdinal = s.nextOrdinal ∧
      reactions (dataHandler s n chunk) = reactions s ++ [(n, false)] := by
  by_cases hs : (s.entries n).attaches = []
  · left
    have hq : Quiet s (s.assign n (append (s.entries n) chunk)) :=
      quiet_assign (by simp) (by simp)
    simpa [dataHandler, hs] using hq
  · right
    refine ⟨?_, ?_, fun m hm => ?_, ?_, ?_⟩
    · simp [dataHandler, hs, Registry.assign]
    · simp [dataHandler, hs, Registry.assign]
    · simp [dataHandler, hs, Registry.assign, hm]
    · simp [dataHandler, hs, Registry.assign]
    · simp [dataHandler, hs, Registry.assign, reactions]

/-- A chunk leaves a stream that flows. -/
theorem step_data {n : ℕ} (h : step options s (.data n) = some s') :
    (s.entries n).handle.output.flowing = true ∧
    ∃ u chunk, Quiet s u ∧ s' = dataHandler u n chunk := by
  simp only [step] at h
  split at h
  · rename_i chunk rest hout
    refine ⟨by rw [hout], s.assign n ((s.entries n).setOutput ⟨true, rest⟩), chunk, ?_,
      (Option.some.inj h).symm⟩
    exact quiet_assign (by simp [hout]) fun hx => hx
  · cases h

/-- A reaction marks its delivery, and resumes the output of a running entry. -/
theorem step_react {d : ℕ} (h : step options s (.react d) = some s') :
    ∃ x, s.deliveries[d]? = some x ∧ x.reacted = false ∧
      s'.nextOrdinal = s.nextOrdinal ∧
      reactions s' = (reactions s).modify d (fun y => (y.1, true)) ∧
      (∀ m, (s'.entries m).state = (s.entries m).state) ∧
      ∀ m, (s'.entries m).handle.output.flowing =
        if m = x.entry ∧ (s.entries m).state = .running then true
        else (s.entries m).handle.output.flowing := by
  simp only [step] at h
  split at h
  · rename_i x hx
    split at h
    · rename_i hready
      obtain rfl := Option.some.inj h
      refine ⟨x, hx, hready.2, ?_, ?_, fun m => ?_, fun m => ?_⟩
      · simp only [resumeOutput]
        split <;> rfl
      · have hr : reactions { s with
            deliveries := s.deliveries.modify d fun x => { x with reacted := true } } =
            (reactions s).modify d fun y => (y.1, true) :=
          map_modify (fun _ => by rfl) s.deliveries d
        simp only [resumeOutput]
        split <;> exact hr
      · by_cases hm : m = x.entry
        · subst hm
          by_cases hrun : (s.entries x.entry).state = .running <;>
            simp [resumeOutput, hrun, Registry.assign]
        · by_cases hrun : (s.entries x.entry).state = .running <;>
            simp [resumeOutput, hrun, Registry.assign, hm]
      · by_cases hm : m = x.entry
        · subst hm
          by_cases hrun : (s.entries x.entry).state = .running <;>
            simp [resumeOutput, hrun, Registry.assign]
        · by_cases hrun : (s.entries x.entry).state = .running <;>
            simp [resumeOutput, hrun, Registry.assign, hm]
    · cases h
  · cases h

/-- A delivery that no sink is still taking has reacted or is about to: its reaction is the
next microtask. -/
theorem reacts_of_taken {d : ℕ} {x : Delivery} (hx : s.deliveries[d]? = some x)
    (htaken : ∀ take ∈ x.takes, take.2 = .fulfilled ∨ take.2 = .rejected) :
    x.reacted = true ∨ ∃ s', step options s (.react d) = some s' := by
  cases hr : x.reacted with
  | true => exact .inl rfl
  | false =>
    have hsettled : x.settled = true := by
      rw [Delivery.settled, Bool.or_eq_true]
      by_cases hany : x.takes.any (fun take => take.2 == .rejected) = true
      · exact .inr hany
      · left
        rw [List.all_eq_true]
        intro take htake
        rcases htaken take htake with h | h
        · simp [h]
        · exact absurd (List.any_eq_true.mpr ⟨take, htake, by simp [h]⟩) hany
    have henabled : (step options s (.react d)).isSome = true := by
      simp [step, hx, hsettled, hr]
    exact .inr (Option.isSome_iff_exists.mp henabled)

/-! ### The exact condition -/

/-- The reaction that has not run yet is the only one of its entry, whose output is
paused. -/
theorem Pumping.reacting (hp : Pumping s) {d : ℕ} {x : Delivery}
    (hx : s.deliveries[d]? = some x) (hr : x.reacted = false) :
    Unreacted s x.entry d ∧ (s.entries x.entry).handle.output.flowing = false := by
  have hd : Unreacted s x.entry d := by
    simp [Unreacted, reactions, List.getElem?_map, hx, hr]
  refine ⟨hd, ?_⟩
  cases hf : (s.entries x.entry).handle.output.flowing with
  | false => rfl
  | true => exact absurd hd (hp.flowing x.entry hf d)

/-- What has not reacted after a reaction had not before it, and is another delivery. -/
theorem unreacted_of_react {d n d' : ℕ}
    (hrest : reactions s' = (reactions s).modify d fun y => (y.1, true))
    (h : Unreacted s' n d') : d' ≠ d ∧ Unreacted s n d' := by
  unfold Unreacted at h
  rw [hrest] at h
  obtain ⟨y, hy, ⟨-, heq⟩ | ⟨hne, rfl⟩⟩ := getElem?_modify_cases h
  · cases heq
  · exact ⟨Ne.symm hne, hy⟩

/-- A reaction that does not find its entry detached keeps the pump going. -/
theorem pumping_react {d : ℕ} (hp : Pumping s) (hG : ReactsAttached s (.react d))
    (h : step options s (.react d) = some s') : Pumping s' := by
  obtain ⟨x, hx, hr, hnext, hrest, hstate, hflow⟩ := step_react h
  obtain ⟨hd, hpaused⟩ := hp.reacting hx hr
  refine ⟨fun d' n b hd' => ?_, fun n hf => ?_, fun n hf d' hd' => ?_, fun n hlive hf => ?_,
    fun n d' d'' hd' hd'' => ?_⟩
  · rw [hrest] at hd'
    rw [hnext]
    obtain ⟨⟨m, b'⟩, hy, ⟨-, heq⟩ | ⟨-, heq⟩⟩ := getElem?_modify_cases hd' <;>
      obtain ⟨rfl, -⟩ := Prod.mk.inj heq <;> exact hp.known d' n b' hy
  · rw [hflow] at hf
    rw [hnext]
    split at hf
    · rename_i hn
      exact hn.1 ▸ hp.known d x.entry false hd
    · exact hp.opened n hf
  · obtain ⟨hne, hd'⟩ := unreacted_of_react hrest hd'
    rw [hflow] at hf
    split at hf
    · rename_i hn
      obtain ⟨rfl, -⟩ := hn
      exact hne (hp.single x.entry d' d hd' hd)
    · exact hp.flowing n hf d' hd'
  · rw [hstate] at hlive
    rw [hflow] at hf
    split at hf
    · cases hf
    · rename_i hn
      obtain ⟨d', hd'⟩ := hp.paused n hlive hf
      have hne : n ≠ x.entry := by
        -- the entry of the reaction is neither exited nor detached, so it was resumed
        rintro rfl
        have hdetached := hG x hx
        cases hs : (s.entries x.entry).state with
        | running => exact hn ⟨rfl, hs⟩
        | detached => exact hdetached hs
        | exited => exact hlive hs
      have hdd : d' ≠ d := by
        rintro rfl
        exact hne (Prod.mk.inj (Option.some.inj (hd'.symm.trans hd))).1
      refine ⟨d', ?_⟩
      unfold Unreacted
      rw [hrest, List.getElem?_modify_ne _ _ (Ne.symm hdd)]
      exact hd'
  · exact hp.single n d' d'' (unreacted_of_react hrest hd').2 (unreacted_of_react hrest hd'').2

/-- A delivery that starts pauses an output that flowed. -/
theorem pumping_dataHandler {n : ℕ} (chunk : Bytes) (hp : Pumping s)
    (hf : (s.entries n).handle.output.flowing = true) : Pumping (dataHandler s n chunk) := by
  rcases dataHandler_cases s n chunk with hq | ⟨hpaused, hstate, hother, hnext, hrest⟩
  · exact hp.quiet hq
  · have hnone := hp.flowing n hf
    -- a delivery of another entry is an old one; the one of this entry is the new one
    have hunreacted : ∀ m d, Unreacted (dataHandler s n chunk) m d →
        Unreacted s m d ∨ m = n ∧ d = (reactions s).length := by
      intro m d hd
      unfold Unreacted at hd
      rw [hrest] at hd
      rcases getElem?_concat_cases hd with hold | ⟨hlast, hnew⟩
      · exact .inl hold
      · exact .inr ⟨(Prod.mk.inj hnew).1, hlast⟩
    refine ⟨fun d m b hd => ?_, fun m hf' => ?_, fun m hf' d hd => ?_, fun m hlive hf' => ?_,
      fun m d d' hd hd' => ?_⟩
    · rw [hrest] at hd
      rw [hnext]
      rcases List.mem_append.mp (List.mem_of_getElem? hd) with hold | hnew
      · obtain ⟨d', hd'⟩ := List.getElem?_of_mem hold
        exact hp.known d' m b hd'
      · obtain ⟨rfl, -⟩ := Prod.mk.inj (List.mem_singleton.mp hnew)
        exact hp.opened m hf
    · have hm : m ≠ n := by
        rintro rfl
        rw [hpaused] at hf'
        cases hf'
      rw [hother m hm] at hf'
      exact hnext ▸ hp.opened m hf'
    · have hm : m ≠ n := by
        rintro rfl
        rw [hpaused] at hf'
        cases hf'
      rw [hother m hm] at hf'
      rcases hunreacted m d hd with hold | ⟨rfl, -⟩
      · exact hp.flowing m hf' d hold
      · exact hm rfl
    · by_cases hm : m = n
      · subst hm
        refine ⟨(reactions s).length, ?_⟩
        unfold Unreacted
        rw [hrest, List.getElem?_concat_length]
      · rw [hother m hm] at hlive hf'
        obtain ⟨d, hd⟩ := hp.paused m hlive hf'
        have hlt := (List.getElem?_eq_some_iff.mp hd).1
        refine ⟨d, ?_⟩
        unfold Unreacted
        rw [hrest, List.getElem?_append_left hlt]
        exact hd
    · rcases hunreacted m d hd with hold | ⟨rfl, rfl⟩ <;>
        rcases hunreacted m d' hd' with hold' | ⟨hm, rfl⟩
      · exact hp.single m d d' hold hold'
      · exact absurd (hm ▸ hold) (hnone d)
      · exact absurd hold' (hnone d')
      · rfl

/-- A shell that was registered flows and nothing of it is on its way. -/
theorem pumping_spawned {o pid : ℕ} (hp : Pumping s)
    (h : step options s (.spawned o pid) = some s') : Pumping s' := by
  obtain ⟨entry, hflow, hrest, hnext, hentries⟩ := step_spawned h
  have hold : ∀ (d n : ℕ) (b : Bool), (reactions s)[d]? = some (n, b) → n ≠ s.nextOrdinal + 1 := by
    intro d n b hd
    have := hp.known d n b hd
    omega
  refine ⟨fun d n b hd => ?_, fun n hf => ?_, fun n hf d hd => ?_, fun n hlive hf => ?_,
    fun n d d' hd hd' => ?_⟩
  · have := hp.known d n b (hrest ▸ hd)
    omega
  · by_cases hn : n = s.nextOrdinal + 1
    · omega
    · rw [hentries, Function.update_of_ne hn] at hf
      have := hp.opened n hf
      omega
  · unfold Unreacted at hd
    rw [hrest] at hd
    have hn := hold d n false hd
    rw [hentries, Function.update_of_ne hn] at hf
    exact hp.flowing n hf d hd
  · have hn : n ≠ s.nextOrdinal + 1 := by
      rintro rfl
      rw [hentries, Function.update_self, hflow] at hf
      cases hf
    rw [hentries, Function.update_of_ne hn] at hlive hf
    obtain ⟨d, hd⟩ := hp.paused n hlive hf
    refine ⟨d, ?_⟩
    unfold Unreacted
    rw [hrest]
    exact hd
  · unfold Unreacted at hd hd'
    rw [hrest] at hd hd'
    exact hp.single n d d' hd hd'

/-- Every event that meets the condition keeps the pump going. -/
theorem pumping_step {event : Event} (hp : Pumping s) (hG : ReactsAttached s event)
    (h : step options s event = some s') : Pumping s' := by
  by_cases hpumps : Pumps event
  · cases event with
    | spawned o pid => exact pumping_spawned hp h
    | data n =>
      obtain ⟨hf, u, chunk, hq, rfl⟩ := step_data h
      exact pumping_dataHandler chunk (hp.quiet hq) ((hq.flowing n).trans hf)
    | react d => exact pumping_react hp hG h
    | _ => exact hpumps.elim
  · exact hp.quiet (step_quiet hpumps h)

/-- A reaction that finds its entry detached leaves it paused with nothing on its way. -/
theorem stalled_step {event : Event} (hp : Pumping s) (hG : ¬ ReactsAttached s event)
    (h : step options s event = some s') : ¬ Streams options s' := by
  cases event with
  | react d =>
    obtain ⟨x, hx, hr, -, hrest, hstate, hflow⟩ := step_react h
    obtain ⟨hd, hpaused⟩ := hp.reacting hx hr
    have hdetached : (s.entries x.entry).state = .detached := by
      by_contra hne
      refine hG fun y hy => ?_
      obtain rfl := Option.some.inj (hx.symm.trans hy)
      exact hne
    intro hs
    have hflows := (hs x.entry (by rw [hstate, hdetached]; nofun) fun y hy hentry => ?_).1
    · rw [hflow, hdetached, if_neg (by simp), hpaused] at hflows
      cases hflows
    · -- any other delivery of the entry that had not reacted would be this one
      cases hreacted : y.reacted with
      | true => rfl
      | false =>
        obtain ⟨d', hd'⟩ := List.getElem?_of_mem hy
        have hun : Unreacted s' x.entry d' := by
          simp [Unreacted, reactions, List.getElem?_map, hd', hentry, hreacted]
        obtain ⟨hne, hun⟩ := unreacted_of_react hrest hun
        exact absurd (hp.single x.entry d' d hun hd) hne
  | _ => exact absurd trivial hG

/-- Along every run, each entry that has not exited and of which nothing is on its way to a
sink streams into its buffer, exactly when no reaction of the run finds its entry detached
(registry.ts:411-436, 500-535). -/
theorem pump_streams_iff (events : List Event) :
    (machine options).Always (Streams options) .empty events ↔
      (machine options).Each ReactsAttached .empty events :=
  Machine.always_iff_each (I := Pumping) (fun _ h => h.streams)
    (fun _ _ _ hp hG h => pumping_step hp hG h) (fun _ _ _ hp hG h => stalled_step hp hG h)
    pumping_empty events

/-- A registry without a detach valve, for shells on one machine. -/
def shellOptions : Options :=
  ⟨"/bin/sh", [], [], 3000, 0, fun _ => "local", fun cwd => cwd⟩

/-- The last sink leaves while it still takes a chunk, and the chunk is taken after that. -/
def lastSinkLeaves : List Event :=
  [.open "s1" "/w" 80 24, .spawned 0 4711, .attach "t1" 7, .produce 1 [104, 105], .data 1,
    .output 0 0 .promised, .detach "t1" 7, .settled 0 0 true, .react 0]

/-- The shell lives, nobody is taking anything, and its output is paused. -/
theorem pump_stalls :
    ¬ ∀ s, (machine shellOptions).Reachable s → Streams shellOptions s := by
  intro hall
  have hrun : ((machine shellOptions).run lastSinkLeaves).isSome = true := by decide
  have hflows := (hall _ (Machine.reachable_get _ hrun) 1 (by decide +revert)
    (by decide +revert)).1
  revert hflows
  decide +revert

end RemoteWorkspace.Analysis.TerminalRegistry
