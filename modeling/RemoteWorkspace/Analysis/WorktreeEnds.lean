import RemoteWorkspace.Model.WorktreeCalls

/-!
# How the pieces of a worktree call end

One rule for each piece that the calls of the worktree manager are made of: what must hold of
the world and of the host so that the piece ends as asked. A piece that only tries something
never rejects.
-/

set_option autoImplicit false

namespace RemoteWorkspace.Analysis.Worktrees

open RemoteWorkspace.Computation.Calls RemoteWorkspace.Model.Anchors
open RemoteWorkspace.Model.Stores RemoteWorkspace.Model.Worktrees
open RemoteWorkspace.Model.RepoRequests (find)

/-! ### The host after an act -/

section Host

variable {s : Host} {act : Act} {record : AnchorRecord} {anchorId : String}

/-- An act changes no anchor. -/
@[simp]
theorem did_anchors : (s.did act).anchors = s.anchors := rfl

/-- An act changes no repository record. -/
@[simp]
theorem did_repos : (s.did act).repos = s.repos := rfl

/-- An act is the last one of the history. -/
@[simp]
theorem did_acts : (s.did act).acts = s.acts ++ [act] := rfl

/-- A recorded anchor stands behind the others. -/
@[simp]
theorem hold_anchors : (s.hold record).anchors = s.anchors ++ [record] := rfl

/-- Recording an anchor changes no repository record. -/
@[simp]
theorem hold_repos : (s.hold record).repos = s.repos := rfl

/-- Recording an anchor is no further act. -/
@[simp]
theorem hold_acts : (s.hold record).acts = s.acts := rfl

/-- A dropped anchor is not held. -/
@[simp]
theorem forget_anchors : (s.forget anchorId).anchors =
    s.anchors.filter fun anchor => decide (anchor.anchorId ≠ anchorId) := rfl

/-- Dropping an anchor changes no repository record. -/
@[simp]
theorem forget_repos : (s.forget anchorId).repos = s.repos := rfl

/-- Dropping an anchor is no further act. -/
@[simp]
theorem forget_acts : (s.forget anchorId).acts = s.acts := rfl

/-- A record whose id is new is the one that its id finds once it is held. -/
theorem getAnchor_hold (h : getAnchor s record.anchorId = none) :
    getAnchor (s.hold record) record.anchorId = some record := by
  unfold getAnchor at *
  rw [hold_anchors, List.find?_append, h]
  simp

/-- A record whose id is new leaves the others when it is dropped again. -/
theorem forget_hold (h : getAnchor s record.anchorId = none) :
    ((s.hold record).forget record.anchorId).anchors = s.anchors := by
  have hother : ∀ anchor ∈ s.anchors, anchor.anchorId ≠ record.anchorId := by
    intro anchor hmem heq
    have hnone := List.find?_eq_none.mp h anchor hmem
    exact hnone (decide_eq_true heq)
  rw [forget_anchors, hold_anchors, List.filter_append, List.filter_eq_self.mpr]
  · simp
  · intro anchor hmem
    exact decide_eq_true (hother anchor hmem)

end Host

/-! ### Rules -/

section Rules

variable {w : World} {s : Host} {E : Failure → Host → Prop}

/-- An answer of the world. -/
theorem ends_outside {α : Type} {P : α → Host → Prop} {x : Except String α} :
    Ends (attempt (outside x)) s P E ↔
      (∀ a, x = .ok a → P a s) ∧ ∀ message, x = .error message → E (.outside message) s := by
  rw [ends_attempt]
  cases x with
  | ok a => simp [outside]
  | error message => simp [outside]

/-- `channelFor`. -/
theorem ends_channelFor {P : Unit → Host → Prop} {nodeId : String} :
    Ends (attempt (channelFor w nodeId)) s P E ↔
      (w.connected nodeId = true → P () s) ∧
        (w.connected nodeId = false → E (.offline nodeId) s) := by
  unfold channelFor
  cases w.connected nodeId with
  | true => simp [attempt]
  | false => simp [attempt]

/-- Something done in the world. -/
theorem ends_perform {α : Type} {P : α → Host → Prop} {act : Act} {answer : Except String α} :
    Ends (perform act answer) s P E ↔ (∀ a, answer = .ok a → P a (s.did act)) ∧
      ∀ message, answer = .error message → E (.outside message) (s.did act) := by
  rw [perform, ends_bind, ends_modify, ends_outside]

/-- Something done in the world that answers nothing. -/
theorem ends_perform_unit {P : Unit → Host → Prop} {act : Act} {answer : Except String Unit} :
    Ends (perform act answer) s P E ↔ (answer = .ok () → P () (s.did act)) ∧
      ∀ message, answer = .error message → E (.outside message) (s.did act) := by
  rw [ends_perform]
  exact and_congr_left fun _ => ⟨fun h => h (), fun h _ => h⟩

/-- The anchor that a draft becomes. -/
def recordOf (w : World) (draft : AnchorDraft) : AnchorRecord :=
  newRecord w.anchorRoot draft w.anchorUUID w.now

/-- A held anchor owns the directory that a draft's anchor is to have. -/
def Owned (w : World) (s : Host) (draft : AnchorDraft) : Prop :=
  ∃ anchor ∈ s.anchors, anchor.anchorPath = (recordOf w draft).anchorPath

/-- The host when the anchor of a draft was recorded. -/
def recorded (w : World) (s : Host) (draft : AnchorDraft) : Host :=
  (s.did (.record (entryOf (recordOf w draft)))).hold (recordOf w draft)

/-- `create` of the anchor store. -/
theorem ends_createAnchor {P : AnchorRecord → Host → Prop} {draft : AnchorDraft} :
    Ends (createAnchor w draft) s P E ↔
      (Owned w s draft → E (.owned (recordOf w draft).anchorPath) s) ∧
      (¬ Owned w s draft →
        (w.writeAnchor (recordOf w draft) = .ok () →
          P (recordOf w draft) (recorded w s draft)) ∧
        ∀ message, w.writeAnchor (recordOf w draft) = .error message →
          E (.outside message) (s.did (.record (entryOf (recordOf w draft))))) := by
  have howned : s.anchors.any (fun anchor =>
      decide (anchor.anchorPath = (recordOf w draft).anchorPath)) = true ↔ Owned w s draft := by
    simp [List.any_eq_true, Owned]
  unfold createAnchor
  simp only [ends_bind, ends_get, ends_ite, ends_throw, ends_perform_unit, ends_modify, ends_pure]
  rw [show newRecord w.anchorRoot draft w.anchorUUID w.now = recordOf w draft from rfl, howned]
  rfl

/-- `remove` of the anchor store. -/
theorem ends_removeAnchor {P : Unit → Host → Prop} {anchorId : String} :
    Ends (removeAnchor w anchorId) s P E ↔
      (getAnchor s anchorId = none → P () s) ∧
      ∀ record, getAnchor s anchorId = some record →
        (w.rmAnchor record = .ok () → P () ((s.did (.drop (entryOf record))).forget anchorId)) ∧
        ∀ message, w.rmAnchor record = .error message →
          E (.outside message) (s.did (.drop (entryOf record))) := by
  unfold removeAnchor
  rw [ends_bind, ends_get]
  cases getAnchor s anchorId with
  | none => simp
  | some record => simp [ends_perform_unit]

/-- `registerRepoIfUnknown`. -/
theorem ends_registerRepoIfUnknown {P : Unit → Host → Prop} {nodeId repoPath : String} :
    Ends (registerRepoIfUnknown w nodeId repoPath) s P E ↔
      (find s.repos nodeId repoPath ≠ none → P () s) ∧
      (find s.repos nodeId repoPath = none →
        (w.writeRepos (s.repos ++ [unknownRepo w nodeId repoPath]) = .ok () →
          P () { s with repos := s.repos ++ [unknownRepo w nodeId repoPath] }) ∧
        ∀ message, w.writeRepos (s.repos ++ [unknownRepo w nodeId repoPath]) = .error message →
          E (.outside message) s) := by
  unfold registerRepoIfUnknown
  simp only [ends_bind, ends_get, ends_ite, ends_outside, ends_modify, ends_pure]
  constructor
  · rintro ⟨hunknown, hknown⟩
    exact ⟨hknown, fun h => ⟨(hunknown h).1 (), (hunknown h).2⟩⟩
  · rintro ⟨hknown, hunknown⟩
    exact ⟨fun h => ⟨fun _ => (hunknown h).1, (hunknown h).2⟩, hknown⟩

/-- The host when a workspace call was made, which needs a registry. -/
def asked (w : World) (s : Host) (act : Act) : Host :=
  if w.workspace.isSome then s.did act else s

/-- Asking the registry changes no anchor. -/
@[simp]
theorem asked_anchors {act : Act} : (asked w s act).anchors = s.anchors := by
  unfold asked
  split <;> rfl

/-- Asking the registry changes no repository record. -/
@[simp]
theorem asked_repos {act : Act} : (asked w s act).repos = s.repos := by
  unfold asked
  split <;> rfl

/-- `registerWorkspace` never rejects. -/
@[simp]
theorem ends_registerWorkspace {P : Unit → Host → Prop} {anchor : Entry} :
    Ends (registerWorkspace w anchor) s P E ↔ P () (asked w s (.register anchor)) := by
  unfold registerWorkspace asked
  cases w.workspace with
  | none => simp
  | some workspace =>
    cases hregister : workspace.register anchor with
    | ok a => simp [ends_perform_unit, hregister]
    | error message => simp [ends_perform_unit, hregister]

/-- `unregister`, which rejects when a registry refuses. -/
theorem ends_unregister {P : Unit → Host → Prop} {anchor : Entry} :
    Ends (unregister w anchor) s P E ↔
      (w.workspace = none → P () s) ∧
      ∀ workspace, w.workspace = some workspace →
        (workspace.unregister anchor = .ok () → P () (s.did (.unregister anchor))) ∧
        ∀ message, workspace.unregister anchor = .error message →
          E (.outside message) (s.did (.unregister anchor)) := by
  unfold unregister
  cases w.workspace with
  | none => simp
  | some workspace => simp [ends_perform_unit]

/-- `unregisterWorkspace` never rejects. -/
@[simp]
theorem ends_unregisterWorkspace {P : Unit → Host → Prop} {anchor : Entry} :
    Ends (unregisterWorkspace w anchor) s P E ↔ P () (asked w s (.unregister anchor)) := by
  unfold unregisterWorkspace asked
  rw [ends_bestEffort, ends_unregister]
  cases w.workspace with
  | none => simp
  | some workspace =>
    cases hunregister : workspace.unregister anchor with
    | ok a => simp [hunregister]
    | error message => simp [hunregister]

/-- `openAsWorkspace`. -/
theorem ends_openAsWorkspace {P : Entry → Host → Prop} {anchor : Entry} :
    Ends (openAsWorkspace w anchor) s P E ↔
      (w.workspace = none → E .noRegistryForWorktree s) ∧
      ∀ workspace, w.workspace = some workspace →
        (workspace.register anchor = .ok () → P anchor (s.did (.register anchor))) ∧
        ∀ message, workspace.register anchor = .error message →
          E (.outside message) (s.did (.register anchor)) := by
  unfold openAsWorkspace
  cases w.workspace with
  | none => simp
  | some workspace => simp [ends_perform_unit]

/-- `openOrDrop`: a refusal takes the record back first. -/
theorem ends_openOrDrop {α : Type} {P : α → Host → Prop} {anchor : AnchorRecord}
    {openIt : Call α} :
    Ends (openOrDrop w anchor openIt) s P E ↔
      Ends openIt s P fun e t => Ends (removeAnchor w anchor.anchorId) t (fun _ u => E e u) E := by
  unfold openOrDrop
  rw [ends_tryCatch]
  simp only [ends_bind, ends_throw]

/-- `dropBranchOrReport` never rejects. -/
theorem ends_dropBranchOrReport {P : WorktreeRemoval → Host → Prop} {anchor : Entry}
    {options : RemoveOptions} {act : Act} {answer : Except String Unit} :
    Ends (dropBranchOrReport anchor options act answer) s P E ↔
      (options.deleteBranch = false → P ⟨anchor, false, none⟩ s) ∧
      (options.deleteBranch = true →
        (answer = .ok () → P ⟨anchor, true, none⟩ (s.did act)) ∧
        ∀ message, answer = .error message → P ⟨anchor, false, some message⟩ (s.did act)) := by
  unfold dropBranchOrReport
  rw [ends_ite, ends_pure]
  cases options.deleteBranch with
  | false => simp
  | true =>
    rw [ends_tryCatch, ends_bind, ends_perform_unit]
    simp only [ends_pure, Bool.true_eq_false, false_implies, not_false_eq_true, true_implies,
      true_and]
    rfl

end Rules

/-- A creation cuts this checkout of this repository on its machine. -/
def Cut (w : World) (draft : WorktreeDraft) (repoPath : String) (worktree : WireWorktree) : Prop :=
  w.connected draft.nodeId = true ∧ w.resolve draft.nodeId draft.repoPath = .ok repoPath ∧
    w.worktreeAdd draft.nodeId repoPath (plannedPath w draft repoPath) (branchFor draft.name)
      draft.baseRef = .ok worktree

/-- A world that grants everything: this host is `local`, and each machine is connected and has
one linked worktree in each repository. -/
def grantingWorld : World where
  isLocalNode nodeId := decide (nodeId = "local")
  connected _ := true
  worktreeRoot _ := "/w"
  anchorRoot := "/r"
  resolve _ path := .ok path
  worktreeList _ repoPath :=
    .ok [⟨repoPath, some "main", true⟩, ⟨"/srv/w/login", some "login", false⟩]
  worktreeAdd _ _ worktreePath branch _ := .ok ⟨worktreePath, some branch, false⟩
  worktreeRemove _ _ _ _ := .ok ()
  branchDelete _ _ _ _ := .ok ()
  resolveLocalPath path := path
  localPathType _ := some .directory
  isRepository _ := .ok true
  listWorktrees repoPath := .ok [⟨repoPath, some "main"⟩]
  addWorktree _ _ _ _ := .ok ()
  removeWorktree _ _ _ := .ok ()
  deleteBranch _ _ _ := .ok ()
  workspace := some ⟨fun _ => .ok (), fun _ => .ok (), fun _ => .ok false⟩
  writeAnchor _ := .ok ()
  rmAnchor _ := .ok ()
  writeRepos _ := .ok ()
  anchorUUID := "1b4e28ba-2fa1-41d2-883f-0016d3cca427"
  repoUUID := "6fa459ea-ee8a-4ca4-894e-db77e160355e"
  now := "2026-01-01T00:00:00.000Z"

/-- A host that holds nothing. -/
def emptyHost : Host := ⟨[], [], []⟩

end RemoteWorkspace.Analysis.Worktrees
