import RemoteWorkspace.Computation.SharedCopy
import RemoteWorkspace.Model.Stores

/-!
# Two processes over one document

`writeDocument` takes the lock for the replacement alone: the list that it writes was read when
the process loaded the document, or is what that process wrote last. So what another process
wrote in between is undone. The records that calls stored and removed are kept as long as every
write finds the other records in the document as its call read them, and no longer
(`documents_shared`).
-/

set_option autoImplicit false

namespace RemoteWorkspace.Analysis.SharedDocuments

open RemoteWorkspace.Computation RemoteWorkspace.Computation.WriteBack
open RemoteWorkspace.Computation.SharedCopy RemoteWorkspace.Model.Stores

/-! ### What the calls say of a record -/

/-- The record that an upsert of a node stores. -/
def storedNode (draft : NodeDraft) (generated stamp : String) (nodes : List NodeRecord) :
    NodeRecord :=
  nodeRecordOf draft
    (draft.nodeId.bind fun nodeId => nodes.find? fun node => decide (node.nodeId = nodeId))
    generated stamp

/-- What a call on the node registry says of the record under an id. -/
def nodeGives : NodeCall → List NodeRecord → String → Option (Option NodeRecord)
  | .upsert draft generated stamp, nodes, key =>
    if (storedNode draft generated stamp nodes).nodeId = key then
      some (some (storedNode draft generated stamp nodes))
    else none
  | .remove nodeId, _, key => if nodeId = key then some none else none

/-- The record that an upsert of a repository stores. -/
def storedRepo (draft : RepoDraft) (generated stamp : String) (repos : List RepoRecord) :
    RepoRecord :=
  repoRecordOf draft
    (draft.repoId.bind fun repoId => repos.find? fun repo => decide (repo.repoId = repoId))
    generated stamp

/-- The records that `removeByNode` leaves. -/
def withoutNode (nodeId : String) (repos : List RepoRecord) : List RepoRecord :=
  repos.filter fun repo => decide (repo.nodeId ≠ nodeId)

/-- What a call on the repository store says of the record under an id. -/
def repoGives : RepoCall → List RepoRecord → String → Option (Option RepoRecord)
  | .upsert draft generated stamp, repos, key =>
    if (storedRepo draft generated stamp repos).repoId = key then
      some (some (storedRepo draft generated stamp repos))
    else none
  | .remove repoId, _, key => if repoId = key then some none else none
  | .removeByNode nodeId, repos, key =>
    if (newest RepoRecord.repoId repos key).any fun repo => decide (repo.nodeId = nodeId) then
      some (newest RepoRecord.repoId (withoutNode nodeId repos) key)
    else none

/-- Where ids are distinct, `removeByNode` says that the record under each id it takes away is
gone. -/
theorem repoGives_removeByNode {repos : List RepoRecord}
    (hids : (repos.map RepoRecord.repoId).Nodup) {repo : RepoRecord} (hrepo : repo ∈ repos) :
    repoGives (.removeByNode repo.nodeId) repos repo.repoId = some none := by
  have hgone : newest RepoRecord.repoId (withoutNode repo.nodeId repos) repo.repoId = none := by
    rw [newest, List.find?_eq_none]
    intro other hother
    obtain ⟨hmem, hnode⟩ := List.mem_filter.mp (List.mem_reverse.mp hother)
    simp only [decide_eq_true_eq] at hnode ⊢
    intro heq
    obtain rfl := List.inj_on_of_nodup_map hids hmem hrepo heq
    exact hnode rfl
  obtain ⟨found, hfound⟩ := Option.isSome_iff_exists.mp
    (newest_isSome RepoRecord.repoId hrepo)
  have hsame : found = repo :=
    List.inj_on_of_nodup_map hids (mem_of_newest hfound) hrepo (ident_of_newest hfound)
  rw [repoGives, hfound, hsame, hgone]
  simp

/-- A list with a record put in its place, or added: what it has under an id. -/
theorem newest_upsert {α : Type} [DecidableEq α] (ident : α → String) {l : List α}
    {existing : Option α} {x : α} (h : ∀ y ∈ existing, y ∈ l ∧ ident y = ident x) (key : String) :
    newest ident (if existing = none then l ++ [x]
      else l.map fun y => if ident y = ident x then x else y) key =
      (if ident x = key then some (some x) else none).getD (newest ident l key) := by
  have hread : (if ident x = key then some x else newest ident l key) =
      (if ident x = key then some (some x) else none).getD (newest ident l key) := by
    split <;> rfl
  cases hexisting : existing with
  | none => exact (newest_concat l x key).trans hread
  | some y =>
    obtain ⟨hy, hkey⟩ := h y hexisting
    exact (newest_replace hy hkey key).trans hread

/-- A list without the records under an id. -/
theorem newest_remove {α : Type} {ident : α → String} (l : List α) (gone key : String) :
    newest ident (l.filter fun y => decide (ident y ≠ gone)) key =
      (if gone = key then some none else none).getD (newest ident l key) := by
  rw [newest_erase]
  split <;> rfl

/-- A record found by an id is one of the list, under that id. -/
theorem found_by {α : Type} {ident : α → String} {l : List α} {key : Option String} {y : α}
    (h : y ∈ key.bind fun k => l.find? fun z => decide (ident z = k)) : y ∈ l ∧ key = ident y := by
  obtain ⟨k, rfl, hk⟩ := Option.bind_eq_some_iff.mp h
  have hident : ident y = k := by simpa using List.find?_some hk
  exact ⟨List.mem_of_find?_eq_some hk, by rw [hident]⟩

/-- The node document under the ids of its records. -/
def keyedNodes : Keyed nodeEffect String NodeRecord where
  get := newest NodeRecord.nodeId
  gives := nodeGives
  law := by
    intro c nodes answer next heffect key
    cases c with
    | upsert draft generated stamp =>
      simp only [nodeEffect] at heffect
      split at heffect
      · cases heffect
      · obtain ⟨-, rfl⟩ := Outcome.changed.inj heffect
        refine newest_upsert NodeRecord.nodeId (fun y hy => ?_) key
        refine ⟨(found_by hy).1, ?_⟩
        rw [nodeRecordOf, hy]
        rfl
    | remove nodeId =>
      simp only [nodeEffect] at heffect
      split at heffect
      · cases heffect
      · split at heffect
        · cases heffect
        · obtain ⟨-, rfl⟩ := Outcome.changed.inj heffect
          exact newest_remove nodes nodeId key

/-- The repository document under the ids of its records. -/
def keyedRepos : Keyed repoEffect String RepoRecord where
  get := newest RepoRecord.repoId
  gives := repoGives
  law := by
    intro c repos answer next heffect key
    cases c with
    | upsert draft generated stamp =>
      obtain ⟨-, rfl⟩ := Outcome.changed.inj heffect
      refine newest_upsert RepoRecord.repoId (fun y hy => ?_) key
      refine ⟨(found_by hy).1, ?_⟩
      rw [repoRecordOf, hy]
      rfl
    | remove repoId =>
      simp only [repoEffect] at heffect
      split at heffect
      · cases heffect
      · obtain ⟨-, rfl⟩ := Outcome.changed.inj heffect
        exact newest_remove repos repoId key
    | removeByNode nodeId =>
      simp only [repoEffect] at heffect
      split at heffect
      · cases heffect
      · obtain ⟨-, rfl⟩ := Outcome.changed.inj heffect
        rw [repoGives]
        split
        · rfl
        · rename_i hother
          refine newest_filter fun repo hrepo => ?_
          rw [hrepo] at hother
          simpa using hother

/-! ### The documents -/

/-- What processes that share a document keep. The records that their calls stored and removed
are those of the document throughout a run exactly when each write of it finds the other
records in the document as its call read them; and a call that answered is one of those. -/
structure Shares {κ ρ α : Type} {effect : κ → List α → Outcome (List α) ρ}
    (keyed : Keyed effect String α) (ι : Type) [DecidableEq ι] (records : List α) : Prop where
  kept : ∀ es, (SharedCopy.machine effect ι records).Always (Kept keyed records)
      (SharedCopy.machine effect ι records).init es ↔
    (SharedCopy.machine effect ι records).Each (Current keyed)
      (SharedCopy.machine effect ι records).init es
  answered : ∀ s, (SharedCopy.machine effect ι records).Reachable s →
    ∀ p ∈ s.calls, p.2.phase = .assigned → (p.2.call, p.2.read) ∈ s.log

/-- Any document of this kind. -/
theorem shares {κ ρ α : Type} {effect : κ → List α → Outcome (List α) ρ}
    (keyed : Keyed effect String α) (ι : Type) [DecidableEq ι] (records : List α) :
    Shares keyed ι records where
  kept es := always_kept_iff records es
  answered _ hs p hp hphase := logged hs p hp (.inr hphase)

/-- Processes that share a node document or a repository document. -/
theorem documents_shared (ι : Type) [DecidableEq ι] (nodes : List NodeRecord)
    (repos : List RepoRecord) : Shares keyedNodes ι nodes ∧ Shares keyedRepos ι repos :=
  ⟨shares keyedNodes ι nodes, shares keyedRepos ι repos⟩

/-! ### Two processes that each add a machine -/

/-- A machine that is added by its destination. -/
def addMachine (target generated : String) : NodeCall :=
  .upsert ⟨none, none, .ssh target none none, "t"⟩ generated "2026-01-01T00:00:00.000Z"

/-- Both processes load a document without records; then one adds a machine, and the other. -/
def overwrittenRun : List (SharedCopy.Event Bool NodeCall) :=
  [.readCopy false, .loaded 0, .readCopy true, .loaded 0,
    .begin false (addMachine "a" "id-a"), .written 0, .assigned 0,
    .begin true (addMachine "b" "id-b"), .written 1, .assigned 1]

theorem overwrittenRun_isSome :
    ((SharedCopy.machine nodeEffect Bool []).run overwrittenRun).isSome = true := by
  decide +kernel

/-- The machine that the first process added is not in the document. -/
theorem overwritten_machine :
    ¬ ∀ (nodes : List NodeRecord) (s : SharedCopy.State Bool NodeCall (List NodeRecord)),
      (SharedCopy.machine nodeEffect Bool nodes).Reachable s → Kept keyedNodes nodes s := by
  intro hall
  have hkept := hall [] _ (Machine.reachable_get _ overwrittenRun_isSome)
  have hstands := hkept.stands [] (addMachine "a" "id-a") [] [(addMachine "b" "id-b", [])] "id-a"
    (some (storedNode ⟨none, none, .ssh "a" none none, "t"⟩ "id-a" "2026-01-01T00:00:00.000Z" []))
    (by decide +kernel) (by decide +kernel) (by decide +kernel)
  have hlost : keyedNodes.get (((SharedCopy.machine nodeEffect Bool []).run overwrittenRun).get
      overwrittenRun_isSome).copy "id-a" = none := by decide +kernel
  rw [hlost] at hstands
  cases hstands

end RemoteWorkspace.Analysis.SharedDocuments
