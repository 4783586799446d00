import Mathlib.Tactic.Common

/-!
# Labelled machines and what holds along their runs

A `Machine` is a partial step function over a state and an event: `none` means the
event cannot happen in that state. Interleavings of tasks, promises and callbacks
are runs of such a machine, one event per uninterrupted piece of code, so a claim
about every interleaving is a claim about every run.

Three notions of "along a run" are used. `ReachableWhen G` is the state at the end
of a run all of whose steps meet the guard `G`, and its `invariant` rule is the one
induction every safety result goes through. `Always` and `Each` speak of one given
list of events, which is what an exact condition needs: `always_iff_each` turns a
step lemma in each direction into an equivalence over runs. `observe` adds a history
variable, for facts that depend on what was called before and not on the state.
-/

set_option autoImplicit false

namespace RemoteWorkspace.Computation

/-- A labelled machine: its first state and its partial step. -/
structure Machine (σ ε : Type) where
  init : σ
  step : σ → ε → Option σ

namespace Machine

variable {σ ε γ : Type} (M : Machine σ ε)

/-- The state a list of events leads to, or `none` when one of them cannot happen. -/
def runFrom : σ → List ε → Option σ
  | s, [] => some s
  | s, e :: es => (M.step s e).bind fun t => runFrom t es

/-- The state a list of events leads to from the first state. -/
def run (es : List ε) : Option σ := M.runFrom M.init es

/-- A run whose every step meets a decidable guard; `none` once one does not. -/
def runGuarded (G : σ → ε → Prop) [∀ s e, Decidable (G s e)] : σ → List ε → Option σ
  | s, [] => some s
  | s, e :: es => if G s e then (M.step s e).bind fun t => runGuarded G t es else none

/-- The states at the end of a run all of whose steps meet `G`. -/
inductive ReachableWhen (G : σ → ε → Prop) : σ → Prop
  | init : ReachableWhen G M.init
  | step {s t : σ} {e : ε} (hs : ReachableWhen G s) (hG : G s e)
      (ht : M.step s e = some t) : ReachableWhen G t

/-- The states at the end of any run. -/
abbrev Reachable : σ → Prop := M.ReachableWhen fun _ _ => True

/-- `P` holds in `s` and in every state the events lead through from there. -/
def Always (P : σ → Prop) : σ → List ε → Prop
  | s, [] => P s
  | s, e :: es => P s ∧ ∀ t, M.step s e = some t → Always P t es

/-- `G` holds at every step the events take from `s`. -/
def Each (G : σ → ε → Prop) : σ → List ε → Prop
  | _, [] => True
  | s, e :: es => ∀ t, M.step s e = some t → G s e ∧ Each G t es

variable {M}

/-- The induction rule of guarded runs: a property of the first state that every
guarded step preserves holds at the end of every guarded run. -/
theorem ReachableWhen.invariant {G : σ → ε → Prop} {I : σ → Prop} (h0 : I M.init)
    (hstep : ∀ s e t, I s → G s e → M.step s e = some t → I t) {s : σ}
    (h : M.ReachableWhen G s) : I s := by
  induction h with
  | init => exact h0
  | step _ hG ht ih => exact hstep _ _ _ ih hG ht

/-- A run whose steps meet a guard meets every weaker one. -/
theorem ReachableWhen.mono {G G' : σ → ε → Prop} {s : σ} (h : M.ReachableWhen G s)
    (hGG' : ∀ s e, G s e → G' s e) : M.ReachableWhen G' s := by
  induction h with
  | init => exact .init
  | step _ hG ht ih => exact .step ih (hGG' _ _ hG) ht

/-- A guarded run extended by events that keep meeting the guard. -/
theorem ReachableWhen.of_runGuarded {G : σ → ε → Prop} [∀ s e, Decidable (G s e)] {s t : σ}
    {es : List ε} (hs : M.ReachableWhen G s) (h : M.runGuarded G s es = some t) :
    M.ReachableWhen G t := by
  induction es generalizing s with
  | nil =>
    simp only [runGuarded, Option.some.injEq] at h
    exact h ▸ hs
  | cons e es ih =>
    simp only [runGuarded] at h
    split at h
    · rename_i hG
      obtain ⟨u, hu, ht⟩ := Option.bind_eq_some_iff.mp h
      exact ih (hs.step hG hu) ht
    · cases h

/-- What a run leads to is reachable. -/
theorem reachable_of_runFrom {s t : σ} {es : List ε} (hs : M.Reachable s)
    (h : M.runFrom s es = some t) : M.Reachable t := by
  induction es generalizing s with
  | nil =>
    simp only [runFrom, Option.some.injEq] at h
    exact h ▸ hs
  | cons e es ih =>
    obtain ⟨u, hu, ht⟩ := Option.bind_eq_some_iff.mp h
    exact ih (hs.step trivial hu) ht

/-- What a run from the first state leads to is reachable. -/
theorem reachable_of_run {s : σ} {es : List ε} (h : M.run es = some s) : M.Reachable s :=
  reachable_of_runFrom .init h

/-- The end of a concrete run is reachable. -/
theorem reachable_get (es : List ε) (h : (M.run es).isSome = true) :
    M.Reachable ((M.run es).get h) :=
  reachable_of_run (Option.some_get h).symm

/-- The end of a concrete guarded run is reached by a guarded run. -/
theorem reachableWhen_get {G : σ → ε → Prop} [∀ s e, Decidable (G s e)] {es : List ε}
    (h : (M.runGuarded G M.init es).isSome = true) :
    M.ReachableWhen G ((M.runGuarded G M.init es).get h) :=
  ReachableWhen.of_runGuarded .init (Option.some_get h).symm

/-- An exact condition, step by step: where `I` is kept by the steps that meet `G` and
gives `P`, and a step that misses `G` loses `P`, a run keeps `P` throughout exactly
when all of its steps meet `G`. -/
theorem always_iff_each {G : σ → ε → Prop} {I P : σ → Prop} (hP : ∀ s, I s → P s)
    (hkeep : ∀ s e t, I s → G s e → M.step s e = some t → I t)
    (hlose : ∀ s e t, I s → ¬ G s e → M.step s e = some t → ¬ P t) {s : σ} (hs : I s)
    (es : List ε) : M.Always P s es ↔ M.Each G s es := by
  induction es generalizing s with
  | nil => exact ⟨fun _ => trivial, fun _ => hP s hs⟩
  | cons e es ih =>
    constructor
    · rintro ⟨-, h⟩ t ht
      by_cases hG : G s e
      · exact ⟨hG, (ih (hkeep s e t hs hG ht)).mp (h t ht)⟩
      · have hPt : P t := by
          have := h t ht
          cases es with
          | nil => exact this
          | cons _ _ => exact this.1
        exact absurd hPt (hlose s e t hs hG ht)
    · intro h
      refine ⟨hP s hs, fun t ht => ?_⟩
      obtain ⟨hG, hes⟩ := h t ht
      exact (ih (hkeep s e t hs hG ht)).mpr hes

/-- Two conditions on a step that agree wherever an invariant holds agree along every run,
also when only the steps that meet them keep the invariant. -/
theorem each_iff_each_when {G G' : σ → ε → Prop} {I : σ → Prop}
    (hkeep : ∀ s e t, I s → G' s e → M.step s e = some t → I t)
    (hiff : ∀ s e t, I s → M.step s e = some t → (G s e ↔ G' s e)) {s : σ} (hs : I s)
    (es : List ε) : M.Each G s es ↔ M.Each G' s es := by
  induction es generalizing s with
  | nil => exact Iff.rfl
  | cons e es ih =>
    refine forall₂_congr fun t ht => ?_
    rw [hiff s e t hs ht]
    exact and_congr_right fun hG => ih (hkeep s e t hs hG ht)

/-- Two conditions on a step that agree wherever an invariant holds agree along every
run. -/
theorem each_iff_each {G G' : σ → ε → Prop} {I : σ → Prop}
    (hkeep : ∀ s e t, I s → M.step s e = some t → I t)
    (hiff : ∀ s e t, I s → M.step s e = some t → (G s e ↔ G' s e)) {s : σ} (hs : I s)
    (es : List ε) : M.Each G s es ↔ M.Each G' s es :=
  each_iff_each_when (fun s e t hI _ ht => hkeep s e t hI ht) hiff hs es

/-- A run in two parts. -/
theorem runFrom_append {s t : σ} {es es' : List ε} (h : M.runFrom s es = some t) :
    M.runFrom s (es ++ es') = M.runFrom t es' := by
  induction es generalizing s with
  | nil =>
    simp only [runFrom, Option.some.injEq] at h
    exact h ▸ rfl
  | cons e es ih =>
    obtain ⟨u, hu, hrest⟩ := Option.bind_eq_some_iff.mp h
    rw [List.cons_append, runFrom, hu]
    exact ih hrest

/-- A run with one more event leads through the end of the run without it. -/
theorem runFrom_concat {s u : σ} {es : List ε} {e : ε} (h : M.runFrom s (es ++ [e]) = some u) :
    ∃ t, M.runFrom s es = some t ∧ M.step t e = some u := by
  induction es generalizing s with
  | nil =>
    obtain ⟨t, ht, hrest⟩ := Option.bind_eq_some_iff.mp h
    simp only [runFrom, Option.some.injEq] at hrest
    exact ⟨s, rfl, hrest ▸ ht⟩
  | cons e' es ih =>
    obtain ⟨t, ht, hrest⟩ := Option.bind_eq_some_iff.mp h
    obtain ⟨v, hv, hlast⟩ := ih hrest
    refine ⟨v, ?_, hlast⟩
    rw [runFrom, ht]
    exact hv

/-- What holds at every step of a run holds at those from any state it leads through. -/
theorem Each.append {G : σ → ε → Prop} {s t : σ} {es es' : List ε} (h : M.Each G s (es ++ es'))
    (ht : M.runFrom s es = some t) : M.Each G t es' := by
  induction es generalizing s with
  | nil =>
    simp only [runFrom, Option.some.injEq] at ht
    exact ht ▸ h
  | cons e es ih =>
    obtain ⟨u, hu, hrest⟩ := Option.bind_eq_some_iff.mp ht
    exact ih (h u hu).2 hrest

/-- What holds throughout a run holds throughout its second part. -/
theorem Always.append {P : σ → Prop} {s t : σ} {es es' : List ε} (h : M.Always P s (es ++ es'))
    (ht : M.runFrom s es = some t) : M.Always P t es' := by
  induction es generalizing s with
  | nil =>
    simp only [runFrom, Option.some.injEq] at ht
    exact ht ▸ h
  | cons e es ih =>
    obtain ⟨u, hu, hrest⟩ := Option.bind_eq_some_iff.mp ht
    exact ih (h.2 u hu) hrest

/-- What holds throughout a run holds at first. -/
theorem Always.first {P : σ → Prop} {s : σ} {es : List ε} (h : M.Always P s es) : P s := by
  cases es with
  | nil => exact h
  | cons e es => exact h.1

/-- What holds throughout a run holds where it ends. -/
theorem Always.after {P : σ → Prop} {s t : σ} {es : List ε} (h : M.Always P s es)
    (ht : M.runFrom s es = some t) : P t := by
  rw [← List.append_nil es] at h
  exact (h.append ht).first

/-- What holds throughout a run holds after its last step. -/
theorem Always.last {P : σ → Prop} {s t u : σ} {es : List ε} {e : ε}
    (h : M.Always P s (es ++ [e])) (ht : M.runFrom s es = some t) (hu : M.step t e = some u) :
    P u :=
  (h.append ht).2 u hu

/-- What holds at every step of a run holds at its last one. -/
theorem Each.last {G : σ → ε → Prop} {s t : σ} {es : List ε} {e : ε}
    (h : M.Each G s (es ++ [e])) (ht : M.runFrom s es = some t)
    (hstep : (M.step t e).isSome = true) : G t e :=
  (h.append ht _ (Option.some_get hstep).symm).1

/-! ### Runs without some of their events -/

/-- The unwinding rule: where the events that are left out keep a relation on the one side alone,
and every other that meets the condition keeps it on both sides, a run has a counterpart without
the events that are left out. -/
theorem unwinding {G : σ → ε → Prop} {R : σ → σ → Prop} {keep : ε → Bool}
    (hhide : ∀ s u e t, R s u → keep e = false → M.step s e = some t → R t u)
    (hshow : ∀ s u e t, R s u → keep e = true → G s e → M.step s e = some t →
      ∃ v, M.step u e = some v ∧ R t v)
    {s t u : σ} {es : List ε} (hR : R s u) (hG : M.Each G s es) (ht : M.runFrom s es = some t) :
    ∃ v, M.runFrom u (es.filter keep) = some v ∧ R t v := by
  induction es generalizing s u with
  | nil =>
    simp only [runFrom, Option.some.injEq] at ht
    exact ⟨u, rfl, ht ▸ hR⟩
  | cons e es ih =>
    obtain ⟨s', hs', hrest⟩ := Option.bind_eq_some_iff.mp ht
    obtain ⟨hGe, hGs⟩ := hG s' hs'
    cases hkeep : keep e with
    | false =>
      rw [List.filter_cons_of_neg (by simp [hkeep])]
      exact ih (hhide s u e s' hR hkeep hs') hGs hrest
    | true =>
      obtain ⟨v, hv, hRv⟩ := hshow s u e s' hR hkeep hGe hs'
      obtain ⟨w, hw, hRw⟩ := ih hRv hGs hrest
      refine ⟨w, ?_, hRw⟩
      rw [List.filter_cons_of_pos hkeep, runFrom, hv]
      exact hw

/-! ### Runs of a component -/

/-- The simulation rule: where each step of another machine by an event of a kind has a step here
that keeps the states related, so has each of its runs by such events. -/
theorem simulation {τ δ : Type} {N : Machine τ δ} {P : δ → Prop} {R : τ → σ → Prop}
    (hstep : ∀ a b s d, R a s → P d → N.step a d = some b → ∃ e t, M.step s e = some t ∧ R b t)
    {a b : τ} {s : σ} {ds : List δ} (hR : R a s) (hP : ∀ d ∈ ds, P d)
    (hrun : N.runFrom a ds = some b) : ∃ es t, M.runFrom s es = some t ∧ R b t := by
  induction ds generalizing a s with
  | nil =>
    simp only [runFrom, Option.some.injEq] at hrun
    exact ⟨[], s, rfl, hrun ▸ hR⟩
  | cons d ds ih =>
    obtain ⟨a', ha', hrest⟩ := Option.bind_eq_some_iff.mp hrun
    obtain ⟨e, t, ht, hRt⟩ := hstep a a' s d hR (hP d List.mem_cons_self) ha'
    obtain ⟨es, u, hu, hRu⟩ := ih hRt (fun d' hd' => hP d' (List.mem_cons_of_mem _ hd')) hrest
    refine ⟨e :: es, u, ?_, hRu⟩
    rw [runFrom, ht]
    exact hu

/-! ### History variables -/

/-- The machine watched by a history variable, which `f` updates from the state before
a step, the event and the state after it. -/
def observe (M : Machine σ ε) (h₀ : γ) (f : σ → γ → ε → σ → γ) : Machine (σ × γ) ε where
  init := (M.init, h₀)
  step p e := (M.step p.1 e).map fun t => (t, f p.1 p.2 e t)

/-- A step of the watched machine is a step of the machine, with the history updated. -/
theorem observe_step {h₀ : γ} {f : σ → γ → ε → σ → γ} {p q : σ × γ} {e : ε} :
    (M.observe h₀ f).step p e = some q ↔
      M.step p.1 e = some q.1 ∧ q.2 = f p.1 p.2 e q.1 := by
  obtain ⟨t, k⟩ := q
  simp only [observe, Option.map_eq_some_iff, Prod.mk.injEq]
  constructor
  · rintro ⟨u, hu, rfl, rfl⟩
    exact ⟨hu, rfl⟩
  · rintro ⟨hu, rfl⟩
    exact ⟨t, hu, rfl, rfl⟩

/-- A run of the machine is one of the watched machine, with some history. -/
theorem observe_runFrom {h₀ : γ} {f : σ → γ → ε → σ → γ} {s t : σ} {es : List ε}
    (h : M.runFrom s es = some t) (k : γ) :
    ∃ k', (M.observe h₀ f).runFrom (s, k) es = some (t, k') := by
  induction es generalizing s k with
  | nil =>
    simp only [runFrom, Option.some.injEq] at h
    exact ⟨k, h ▸ rfl⟩
  | cons e es ih =>
    obtain ⟨u, hu, hrest⟩ := Option.bind_eq_some_iff.mp h
    obtain ⟨k', hk'⟩ := ih hrest (f s k e u)
    refine ⟨k', ?_⟩
    have hstep : (M.observe h₀ f).step (s, k) e = some (u, f s k e u) :=
      observe_step.mpr ⟨hu, rfl⟩
    rw [runFrom, hstep]
    exact hk'

end Machine

end RemoteWorkspace.Computation
