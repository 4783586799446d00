import Mathlib.Data.List.Permutation
import RemoteWorkspace.Model.Stores

/-!
# Overlapping calls on a store

A call on the node registry or on the repository store writes a complete list that it computed
before its first wait. A call that began earlier may write its list in between, and is undone
by it. The calls are serializable when no write is undone in this way and the last list put in
memory is that of the document (`stores_serializable`).
-/

set_option autoImplicit false

namespace RemoteWorkspace.Analysis.Stores

open RemoteWorkspace.Computation RemoteWorkspace.Computation.WriteBack
open RemoteWorkspace.Model.Stores

/-- What overlapping calls on a store do. Once the calls of an undisturbed run have ended,
memory and document agree and are what the calls that succeeded make of the first records in
some order, and calls that are made one at a time are a case of this; a call that fails changes
neither; and after a list is put in memory that is not the document's, with nobody to put that
there, memory and document can stay apart. -/
structure Serializes {α κ ρ : Type} (effect : κ → List α → Outcome (List α) ρ)
    (records : List α) : Prop where
  settled : ∀ s, (WriteBack.machine effect records).ReachableWhen (Undisturbed effect) s →
    Settled s → Serializable effect records s
  alone : ∀ s, (WriteBack.machine effect records).ReachableWhen OneAtATime s →
    (WriteBack.machine effect records).ReachableWhen (Undisturbed effect) s
  failed : ∀ s k t, (WriteBack.machine effect records).step s (.failed k) = some t →
    t.memory = s.memory ∧ t.copy = s.copy
  refused : ∀ s c t, (WriteBack.machine effect records).step s (.begin c) = some t →
    t.memory = s.memory ∧ t.copy = s.copy
  drifts : ∀ s k t, ¬ Undisturbed effect s (.assigned k) →
    (WriteBack.machine effect records).step s (.assigned k) = some t →
    ∃ es u, (WriteBack.machine effect records).runFrom t es = some u ∧ Settled u ∧
      u.memory ≠ u.copy

/-- The calls on any store of this kind. -/
theorem serializes {α κ ρ : Type} (effect : κ → List α → Outcome (List α) ρ)
    (records : List α) : Serializes effect records where
  settled _ hs hsettled := serializable records hs hsettled
  alone _ hs := undisturbed_of_oneAtATime hs
  failed s k t hstep := by
    have hfailed : WriteBack.step effect s (.failed k) = some t := hstep
    exact failed_keeps hfailed
  refused _ _ _ hstep := begin_keeps hstep
  drifts _ _ _ hG hstep := disturbed_assigned records hG hstep

/-- The calls on a node registry and on a repository store are serializable when they are
undisturbed. -/
theorem stores_serializable (nodes : List NodeRecord) (repos : List RepoRecord) :
    Serializes nodeEffect nodes ∧ Serializes repoEffect repos :=
  ⟨serializes nodeEffect nodes, serializes repoEffect repos⟩

/-! ### Two machines that are added at once -/

/-- A machine that is added by its destination. -/
def addNode (target generated : String) : NodeCall :=
  .upsert ⟨none, none, .ssh target none none, "t"⟩ generated "2026-01-01T00:00:00.000Z"

/-- Two machines are added; one write fails, and the other call answers. -/
def failRun : List (Event NodeCall) :=
  [.begin (addNode "a" "id-a"), .begin (addNode "b" "id-b"), .failed 0, .written 1, .assigned 1]

theorem failRun_isSome :
    ((nodeRegistry []).runGuarded (Undisturbed nodeEffect) (nodeRegistry []).init failRun).isSome =
      true := by
  decide +kernel

/-- After a write that failed the registry has the other machine. -/
theorem failRun_serializable : Serializable nodeEffect []
    (((nodeRegistry []).runGuarded (Undisturbed nodeEffect) (nodeRegistry []).init failRun).get
      failRun_isSome) :=
  (stores_serializable [] []).1.settled _ (Machine.reachableWhen_get failRun_isSome)
    (by decide +kernel)

/-- Two machines are added, and both calls read the list before either writes. -/
def lostRun : List (Event NodeCall) :=
  [.begin (addNode "a" "id-a"), .begin (addNode "b" "id-b"),
    .written 0, .assigned 0, .written 1, .assigned 1]

theorem lostRun_isSome : ((nodeRegistry []).run lostRun).isSome = true := by
  decide +kernel

/-- A machine that was added, with a call that answered so, is in neither list. -/
theorem lost_machine :
    ¬ ∀ (nodes : List NodeRecord) (s : State NodeCall (List NodeRecord)),
      (nodeRegistry nodes).Reachable s → Settled s → Serializable nodeEffect nodes s := by
  intro hall
  have hserial := hall [] _ (Machine.reachable_get _ lostRun_isSome) (by decide +kernel)
  obtain ⟨-, order, hperm, hcopy⟩ := hserial
  -- the document has one record, both orders of the two calls give two
  have hlost : ∀ order ∈ (succeeded (((nodeRegistry []).run lostRun).get
      lostRun_isSome)).permutations', afterAll nodeEffect order [] ≠
        (((nodeRegistry []).run lostRun).get lostRun_isSome).copy := by decide +kernel
  exact hlost order (List.mem_permutations'.mpr hperm) hcopy

end RemoteWorkspace.Analysis.Stores
