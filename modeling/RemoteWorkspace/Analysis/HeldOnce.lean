import RemoteWorkspace.Analysis.AnchorOwners

/-!
# One record for each checkout

`adoptRemote` looks for a record of the checkout under the repository that was named, and a
checkout can be named under several repositories: a directory and a linked worktree of it are
two repositories whose git lists the same checkouts. So a second record of a checkout is made
when the first one names another repository, and also when it is still on its way. Checkouts
are held once as long as no creation starts for one that is held or on its way, and only then
(`held_once`).
-/

set_option autoImplicit false

namespace RemoteWorkspace.Analysis.AnchorCalls

open RemoteWorkspace.Computation RemoteWorkspace.Model RemoteWorkspace.Model.Anchors
open RemoteWorkspace.Model.AnchorCalls RemoteWorkspace.Analysis.Anchors

variable {before : String → String → Bool} {root : String} {s t : Calls}

/-- The machine and path of the checkout that a record holds; a directory's record holds
none. -/
def checkoutOf (anchor : AnchorRecord) : Option (String × String) :=
  match anchor.kind with
  | .worktree _ _ => some (anchor.nodeId, anchor.remoteRoot)
  | .directory => none

/-- No two worktree anchors that are held have one machine and one path on it. -/
def HeldOnce (s : Calls) : Prop := (s.anchors.filterMap checkoutOf).Nodup

/-- A creation that passes the check is for a checkout that no record holds and no other
creation in flight is for. -/
def Unclaimed (root : String) (s : Calls) (e : Event) : Prop :=
  ∀ record, begun root s e = some record →
    (∀ r ∈ s.anchors, r.anchorPath ≠ record.anchorPath) →
    (∀ c ∈ s.creates, InFlight c.phase → KeysApart checkoutOf c.record record) ∧
      ∀ r ∈ s.anchors, KeysApart checkoutOf r record

instance (phase : CreatePhase) : Decidable (InFlight phase) := by
  unfold InFlight
  infer_instance

instance (r r' : AnchorRecord) : Decidable (KeysApart checkoutOf r r') := by
  unfold KeysApart
  infer_instance

instance (root : String) (s : Calls) (e : Event) : Decidable (Unclaimed root s e) :=
  decidable_of_iff (∀ record ∈ begun root s e,
    (∀ r ∈ s.anchors, r.anchorPath ≠ record.anchorPath) →
    (∀ c ∈ s.creates, InFlight c.phase → KeysApart checkoutOf c.record record) ∧
      ∀ r ∈ s.anchors, KeysApart checkoutOf r record) Iff.rfl

/-- A creation for an unclaimed checkout keeps that each is of one record, and so does anything
else. -/
theorem single_step {e : Event} (h : Single checkoutOf s.anchors s.creates)
    (hG : Unclaimed root s e) (hstep : AnchorCalls.step root s e = some t) :
    Single checkoutOf t.anchors t.creates := by
  cases hbegun : begun root s e with
  | none => exact h.effect (step_effect hbegun hstep)
  | some record =>
    obtain ⟨hanchors, -, hcreates⟩ := step_begun hbegun hstep
    rw [hanchors]
    rcases hcreates with ⟨hcreates, -⟩ | ⟨hfree, hcreates⟩
    · rw [hcreates]
      exact h
    · obtain ⟨hflights, hheld⟩ := hG record hbegun hfree
      rw [hcreates]
      exact h.start hflights hheld

section Continue

variable (loaded : Loaded before root) {k : ℕ} {record : AnchorRecord}

/-- A record that joins one of the same checkout. -/
theorem not_nodup_concat {anchors : List AnchorRecord} {r : AnchorRecord} (hr : r ∈ anchors)
    (hsame : ¬ KeysApart checkoutOf r record) :
    ¬ ((anchors ++ [record]).filterMap checkoutOf).Nodup := by
  simp only [KeysApart, not_forall, not_not] at hsame
  obtain ⟨x, hx, y, hy, rfl⟩ := hsame
  intro hnodup
  rw [List.filterMap_append, List.nodup_append] at hnodup
  refine hnodup.2.2 x (List.mem_filterMap.mpr ⟨r, hr, hx⟩) x ?_ rfl
  exact List.mem_filterMap.mpr ⟨record, List.mem_singleton_self record, hy⟩

/-- The calls can go on to a state in which a checkout is held twice. -/
def CanHoldTwice (s : Calls) : Prop :=
  ∃ (es : List Event) (u : Calls), (AnchorCalls.machine loaded).runFrom s es = some u ∧
    ¬ HeldOnce u

/-- A creation that is checked can add its record to one of the same checkout. -/
theorem canHoldTwice_held {r : AnchorRecord} (hk : s.creates[k]? = some ⟨record, .checked⟩)
    (hr : r ∈ s.anchors) (hsame : ¬ KeysApart checkoutOf r record) : CanHoldTwice loaded s := by
  obtain ⟨es, u, hrun, hanchors, -⟩ := canAppend_checked loaded hk
  refine ⟨es, u, hrun, ?_⟩
  rw [HeldOnce, hanchors]
  exact not_nodup_concat hr hsame

/-- After a creation for a checkout that is claimed, the calls can go on to hold it twice. -/
theorem canHoldTwice_of_claimed {e : Event} (hG : ¬ Unclaimed root s e)
    (hstep : AnchorCalls.step root s e = some t) : CanHoldTwice loaded t := by
  simp only [Unclaimed, not_forall] at hG
  obtain ⟨record, hbegun, hfree, hG⟩ := hG
  obtain ⟨hanchors, -, hcreates⟩ := step_begun hbegun hstep
  rcases hcreates with ⟨-, r, hr, hpath⟩ | ⟨-, hcreates⟩
  · exact absurd hpath (hfree r hr)
  · have hnew : t.creates[s.creates.length]? = some ⟨record, .checked⟩ := by
      rw [hcreates, List.getElem?_concat_length]
    by_cases hheld : ∀ r ∈ s.anchors, KeysApart checkoutOf r record
    · -- the creation that is in flight adds its record first
      have hflight : ∃ c ∈ s.creates, InFlight c.phase ∧ ¬ KeysApart checkoutOf c.record record := by
        by_contra hnone
        push Not at hnone
        exact hG ⟨hnone, hheld⟩
      obtain ⟨c, hc, hin, hsame⟩ := hflight
      obtain ⟨es, u, hrun, hmem, hunew⟩ := canHold_before loaded hcreates hc hin
      obtain ⟨es', v, hrun', htwice⟩ := canHoldTwice_held loaded hunew hmem hsame
      exact ⟨es ++ es', v, (Machine.runFrom_append hrun).trans hrun', htwice⟩
    · push Not at hheld
      obtain ⟨r, hr, hsame⟩ := hheld
      exact canHoldTwice_held loaded hnew (hanchors ▸ hr) hsame

end Continue

/-- Where the store that was loaded holds checkouts once, they are held once along every run in
which no creation starts for a checkout that is claimed; and as soon as one does, the calls can
go on to hold one twice. -/
theorem held_once (loaded : Loaded before root)
    (honce : (loaded.anchors.filterMap checkoutOf).Nodup) :
    (∀ s, (AnchorCalls.machine loaded).ReachableWhen (Unclaimed root) s → HeldOnce s) ∧
      ∀ s e t, ¬ Unclaimed root s e → (AnchorCalls.machine loaded).step s e = some t →
        ∃ es u, (AnchorCalls.machine loaded).runFrom t es = some u ∧ ¬ HeldOnce u := by
  refine ⟨fun s hs => ?_, fun s e t hG hstep => canHoldTwice_of_claimed loaded hG hstep⟩
  have hsingle : Single checkoutOf s.anchors s.creates := by
    refine Machine.ReachableWhen.invariant (M := AnchorCalls.machine loaded)
      (I := fun s => Single checkoutOf s.anchors s.creates) ⟨honce, ?_, ?_⟩ ?_ hs
    · intro i j c c' hc
      cases hc
    · intro c hc
      cases hc
    · intro s e t h hG hstep
      exact single_step h hG hstep
  exact hsingle.held

/-- A checkout is adopted, adopted again, and then another one of the repository is. -/
def onceRun : List Event :=
  [.adopt "n1" "/srv/app" "/srv/w/login" "login" "a1" "t1", .made 0, .written 0, .appended 0,
    .adopt "n1" "/srv/app" "/srv/w/login" "login" "a2" "t2",
    .adopt "n1" "/srv/app" "/srv/w/hotfix" "hotfix" "a3" "t3", .made 1, .written 1, .appended 1]

theorem onceRun_isSome : ((AnchorCalls.machine emptyLoaded).runGuarded (Unclaimed "/r")
    (AnchorCalls.machine emptyLoaded).init onceRun).isSome = true := by
  decide +kernel

/-- Both checkouts are held once. -/
theorem onceRun_heldOnce : HeldOnce (((AnchorCalls.machine emptyLoaded).runGuarded
    (Unclaimed "/r") (AnchorCalls.machine emptyLoaded).init onceRun).get onceRun_isSome) :=
  (held_once emptyLoaded (by decide +kernel)).1 _ (Machine.reachableWhen_get onceRun_isSome)

/-! ### A checkout of two repositories -/

/-- The machine has one git repository with two checkouts besides the main one, and the first
of them is registered as a repository too. The second is adopted under both. -/
def twoRecordsRun : List Event :=
  [.adopt "n1" "/srv/app" "/srv/w/login" "login" "a1" "t1", .made 0, .written 0, .appended 0,
    .adopt "n1" "/srv/w/hotfix" "/srv/w/login" "login" "a2" "t2", .made 1, .written 1,
    .appended 1]

theorem twoRecordsRun_isSome :
    ((AnchorCalls.machine emptyLoaded).run twoRecordsRun).isSome = true := by
  decide +kernel

/-- One checkout, adopted under two repositories one after the other, is held twice. -/
theorem held_twice :
    ¬ ∀ (before : String → String → Bool) (root : String) (loaded : Loaded before root),
      (loaded.anchors.filterMap checkoutOf).Nodup →
      ∀ s, (AnchorCalls.machine loaded).Reachable s → HeldOnce s := by
  intro hall
  have honce := hall _ _ emptyLoaded (by decide +kernel) _
    (Machine.reachable_get _ twoRecordsRun_isSome)
  rw [HeldOnce] at honce
  revert honce
  decide +kernel

end RemoteWorkspace.Analysis.AnchorCalls
