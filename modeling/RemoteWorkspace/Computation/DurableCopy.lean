import RemoteWorkspace.Computation.WriteBack

/-!
# A copy that outlives the process

The copy of a value that is kept in memory is a document: a write renders the whole value, and a
process that starts reads the document into memory. The process may end at any moment, between
any two pieces of the calls that are in flight; these are lost with it, and the next process
starts from the document.

When what is rendered is read back, the document always stands for the copy
(`Durable.read_disk`), so a restart is always possible, and no write that has landed is lost by
it.
-/

set_option autoImplicit false

namespace RemoteWorkspace.Computation

namespace Durable

open WriteBack

variable {σ κ ρ δ : Type}

/-- The document, and the process that runs. -/
structure Home (κ σ δ : Type) where
  disk : δ
  process : State κ σ

/-- A piece of a call, or the end of the process and the start of another. -/
inductive HomeEvent (κ : Type) where
  | call (e : Event κ)
  | restart
  deriving DecidableEq

/-- How values are rendered and documents are read. -/
structure Format (σ δ : Type) where
  render : σ → δ
  read : δ → Option σ

/-- One piece of a call, or a restart. A write that lands replaces the document. -/
def step (effect : κ → σ → Outcome σ ρ) (format : Format σ δ) (s : Home κ σ δ) :
    HomeEvent κ → Option (Home κ σ δ)
  | .call e =>
    (WriteBack.step effect s.process e).map fun process =>
      match e with
      | .written _ => ⟨format.render process.copy, process⟩
      | _ => ⟨s.disk, process⟩
  | .restart => (format.read s.disk).map fun v => ⟨s.disk, ⟨v, v, []⟩⟩

/-- A home whose first process read a value from the document. -/
def machine (effect : κ → σ → Outcome σ ρ) (format : Format σ δ) (disk : δ) (v : σ) :
    Machine (Home κ σ δ) (HomeEvent κ) :=
  ⟨⟨disk, ⟨v, v, []⟩⟩, step effect format⟩

/-- The document stands for the copy, and every value around has a property. -/
structure Kept (effect : κ → σ → Outcome σ ρ) (format : Format σ δ) (P : σ → Prop)
    (s : Home κ σ δ) : Prop where
  read : format.read s.disk = some s.process.copy
  everywhere : Everywhere effect P s.process

/-- Only a write that lands changes the copy. -/
theorem copy_of_step {effect : κ → σ → Outcome σ ρ} {s t : State κ σ} {e : Event κ}
    (hstep : WriteBack.step effect s e = some t) (he : ∀ k, e ≠ .written k) : t.copy = s.copy := by
  cases e with
  | begin c =>
    obtain rfl := Option.some.inj hstep
    rfl
  | written k => exact absurd rfl (he k)
  | failed k | assigned k =>
    obtain ⟨p, -, hp⟩ := Option.bind_eq_some_iff.mp hstep
    obtain ⟨-, ht⟩ := Option.ite_none_right_eq_some.mp hp
    obtain rfl := Option.some.inj ht
    rfl

/-- What a piece of a call does: to the process what it does without a document, and to the
document nothing, or a write. -/
theorem call_cases {effect : κ → σ → Outcome σ ρ} {format : Format σ δ} {s t : Home κ σ δ}
    {e : Event κ} (hstep : step effect format s (.call e) = some t) :
    WriteBack.step effect s.process e = some t.process ∧
      (t.disk = format.render t.process.copy ∨
        t.disk = s.disk ∧ t.process.copy = s.process.copy) := by
  obtain ⟨process, hprocess, rfl⟩ := Option.map_eq_some_iff.mp hstep
  cases e with
  | written k => exact ⟨hprocess, .inl rfl⟩
  | begin c | failed k | assigned k =>
    exact ⟨hprocess, .inr ⟨rfl, copy_of_step hprocess (by rintro k ⟨⟩)⟩⟩

/-- Every step keeps the document in agreement with the copy, where a value with the property is
read back from what is rendered for it, and the calls keep the property. -/
theorem kept_step {effect : κ → σ → Outcome σ ρ} {format : Format σ δ} {P : σ → Prop}
    (hback : ∀ v, P v → format.read (format.render v) = some v) {s t : Home κ σ δ}
    {e : HomeEvent κ} (h : Kept effect format P s)
    (hbegin : ∀ c, e = .call (.begin c) → P (after effect c s.process.memory))
    (hstep : step effect format s e = some t) : Kept effect format P t := by
  cases e with
  | call e =>
    obtain ⟨hprocess, hdisk⟩ := call_cases hstep
    have hev : Everywhere effect P t.process :=
      everywhere_step h.everywhere (fun c hc => hbegin c (by rw [hc])) hprocess
    refine ⟨?_, hev⟩
    obtain hdisk | ⟨hdisk, hcopy⟩ := hdisk
    · rw [hdisk]
      exact hback _ hev.copy
    · rw [hdisk, hcopy]
      exact h.read
  | restart =>
    obtain ⟨v, hv, rfl⟩ := Option.map_eq_some_iff.mp hstep
    have hcopy : v = s.process.copy := Option.some.inj (hv.symm.trans h.read)
    refine ⟨hv, everywhere_init ?_⟩
    rw [hcopy]
    exact h.everywhere.copy

/-- In every run, restarts at any moment included, the document is read as the copy. -/
theorem read_disk {effect : κ → σ → Outcome σ ρ} {format : Format σ δ} {P : σ → Prop}
    {G : Home κ σ δ → HomeEvent κ → Prop}
    (hback : ∀ v, P v → format.read (format.render v) = some v)
    (hcalls : ∀ s c, G s (.call (.begin c)) → P s.process.memory →
      P (after effect c s.process.memory))
    {disk : δ} {v : σ} (hread : format.read disk = some v) (hv : P v) {s : Home κ σ δ}
    (h : (machine effect format disk v).ReachableWhen G s) : Kept effect format P s := by
  refine h.invariant (I := Kept effect format P) ⟨hread, everywhere_init hv⟩ ?_
  intro s t e hs hG hstep
  refine kept_step hback hs ?_ hstep
  rintro c rfl
  exact hcalls s c hG hs.everywhere.memory

end Durable

end RemoteWorkspace.Computation
