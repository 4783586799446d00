import RemoteWorkspace.Analysis.WorktreeEnds

/-!
# A removal, however the checkout is known

A checkout is removed through a row of this host, through a held anchor or through a row that a
machine's git reports. The three do the same but for what each knows: the first two ask git to
delete the branch of a detached checkout, which has none; a held anchor has the branch that was
recorded with it, and its record is dropped before the branch is. So the three end alike exactly
when git refuses the removal, or the record is dropped and a branch that is to go is there and is
the recorded one.
-/

set_option autoImplicit false

namespace RemoteWorkspace.Analysis.RemovalParity

open RemoteWorkspace.Computation.Calls
open RemoteWorkspace.Model.Anchors (AnchorRecord)
open RemoteWorkspace.Model.AnchorIds RemoteWorkspace.Model.Stores
open RemoteWorkspace.Model.Worktrees RemoteWorkspace.Analysis.Worktrees

/-! ### What a caller sees of a removal -/

/-- A checkout of a repository: where it is, and the branch it is on, empty when it is
detached. -/
structure Checkout where
  repoPath : String
  path : String
  branch : String
  deriving DecidableEq

/-- How a removal ended: the rejection, or whether the branch was deleted and why it was not; and
which branches git was asked to delete. -/
structure Outcome where
  answer : Except String (Bool × Option String)
  deletions : List (String × String)
  deriving DecidableEq

/-- The branch of a repository that git is asked to delete. -/
def deletion : Act → Option (String × String)
  | .branchDelete _ repoPath branch => some (repoPath, branch)
  | _ => none

/-- The deletions asked for between two states of the host. -/
def deletionsSince (s t : Host) : List (String × String) :=
  (t.acts.drop s.acts.length).filterMap deletion

/-- What a caller sees of `remove`. -/
def outcome (w : World) (s : Host) (anchorId : String) (options : RemoveOptions) : Outcome :=
  match (remove w anchorId options).run s with
  | .ok removal t => ⟨.ok (removal.branchDeleted, removal.branchError), deletionsSince s t⟩
  | .error failure t => ⟨.error failure.message, deletionsSince s t⟩

/-! ### The ways a checkout is known -/

/-- What git answers to the removal of a checkout, and then to the deletion of each branch. -/
structure Answers where
  removed : Except String Unit
  deleted : (branch : String) → Except String Unit

variable {w : World} {s t : Host} {anchorId : String} {c : Checkout} {options : RemoveOptions}
variable {git : Answers} {record : AnchorRecord}

/-- The answers of the git of this host. -/
def hostAnswers (w : World) (c : Checkout) (force : Bool) : Answers where
  removed := w.removeWorktree c.repoPath c.path force
  deleted branch := w.deleteBranch c.repoPath branch force

/-- The answers of the git of a machine. -/
def machineAnswers (w : World) (nodeId : String) (c : Checkout) (force : Bool) : Answers where
  removed := w.worktreeRemove nodeId c.repoPath c.path force
  deleted branch := w.branchDelete nodeId c.repoPath branch force

/-- The id names a row of this host that shows the checkout. -/
structure LocalRow (w : World) (s : Host) (anchorId : String) (c : Checkout) (force : Bool)
    (git : Answers) : Prop where
  isLocal : IsLocalId anchorId
  shown : ∃ entry origin, localEntry w s anchorId = some entry ∧
    entry.kind = .worktree c.branch origin ∧ entry.repoPath = c.repoPath ∧
      entry.anchorPath = c.path
  answers : hostAnswers w c force = git

/-- The id names a held anchor on the checkout, by its own id or by what git reports. -/
structure HeldRow (w : World) (s : Host) (anchorId : String) (c : Checkout) (force : Bool)
    (git : Answers) (record : AnchorRecord) : Prop where
  isRemote : ¬ IsLocalId anchorId
  held : match parseRemoteAnchorId anchorId with
    | some discovered => heldRemote s discovered = some record
    | none => getAnchor s anchorId = some record
  worktree : record.kind ≠ .directory
  repoPath : record.repoPath = c.repoPath
  path : record.remoteRoot = c.path
  connected : w.connected record.nodeId = true
  answers : machineAnswers w record.nodeId c force = git

/-- The id names a checkout that the machine's git reports and nothing holds. -/
structure DiscoveredRow (w : World) (s : Host) (anchorId : String) (c : Checkout) (force : Bool)
    (git : Answers) : Prop where
  isRemote : ¬ IsLocalId anchorId
  reported : ∃ nodeId listed entry,
    parseRemoteAnchorId anchorId = some ⟨nodeId, c.repoPath, c.path⟩ ∧
    heldRemote s ⟨nodeId, c.repoPath, c.path⟩ = none ∧
      listExisting w s nodeId c.repoPath = .ok listed ∧
        listed.find? (fun candidate => decide (candidate.path = c.path)) = some entry ∧
          entry.branch = c.branch ∧ w.connected nodeId = true ∧
            machineAnswers w nodeId c force = git

/-- Three removals of a checkout end alike, and ask git for a branch only when there is one. -/
structure Alike (c : Checkout) (here held discovered : Outcome) : Prop where
  heldAlike : here = held
  discoveredAlike : held = discovered
  asksForBranch : c.branch = "" → here.deletions = []

/-- What dropping the record of a held anchor is answered with. -/
def dropped (w : World) (s : Host) (record : AnchorRecord) : Except String Unit :=
  match getAnchor s record.anchorId with
  | none => .ok ()
  | some found => w.rmAnchor found

/-- How a removal ends in which dropping a record is answered with `dropping`, and git is then
asked to delete a branch when `asks`. -/
def ending (git : Answers) (dropping : Except String Unit) (asks : Bool)
    (repoPath branch : String) : Outcome :=
  match git.removed, dropping with
  | .error message, _ => ⟨.error message, []⟩
  | .ok (), .error message => ⟨.error message, []⟩
  | .ok (), .ok () =>
    if asks = false then ⟨.ok (false, none), []⟩
    else
      match git.deleted branch with
      | .ok () => ⟨.ok (true, none), [(repoPath, branch)]⟩
      | .error message => ⟨.ok (false, some message), [(repoPath, branch)]⟩

/-! ### The history -/

/-- One state of the host comes behind another. -/
def Behind (s t : Host) : Prop := s.acts <+: t.acts

/-- Every state comes behind itself. -/
@[simp] theorem behind_refl : Behind s s := List.prefix_rfl

/-- What is done comes behind. -/
@[simp] theorem Behind.did (h : Behind s t) (act : Act) : Behind s (t.did act) :=
  h.trans (List.prefix_append _ _)

/-- No deletion was asked for yet. -/
@[simp] theorem deletionsSince_self : deletionsSince s s = [] := by
  rw [deletionsSince, List.drop_length, List.filterMap_nil]

/-- What is done is asked for last. -/
theorem deletionsSince_did (h : Behind s t) (act : Act) :
    deletionsSince s (t.did act) = deletionsSince s t ++ (deletion act).toList := by
  rw [deletionsSince, deletionsSince, did_acts, List.drop_append_of_le_length h.length_le,
    List.filterMap_append]
  cases hact : deletion act <;> simp [hact]

/-- Asking the workspace registry comes behind. -/
@[simp] theorem Behind.asked (h : Behind s t) (act : Act) : Behind s (asked w t act) := by
  unfold Worktrees.asked
  split
  · exact h.did act
  · exact h

/-- Dropping a workspace asks for no deletion. -/
theorem deletionsSince_unregister (h : Behind s t) (entry : Entry) :
    deletionsSince s (asked w t (.unregister entry)) = deletionsSince s t := by
  unfold asked
  split
  · rw [deletionsSince_did h]
    exact List.append_nil _
  · rfl

/-- Removing a checkout asks for no deletion. -/
theorem deletionsSince_remove (machine : Option String) (repoPath path : String) :
    deletionsSince s (s.did (.worktreeRemove machine repoPath path)) = [] := by
  rw [deletionsSince_did behind_refl, deletionsSince_self]
  rfl

/-- What is seen of a removal is what it ends in. -/
theorem outcome_eq_iff {o : Outcome} : outcome w s anchorId options = o ↔
    Ends (remove w anchorId options) s
      (fun removal t =>
        o = ⟨.ok (removal.branchDeleted, removal.branchError), deletionsSince s t⟩)
      (fun failure t => o = ⟨.error failure.message, deletionsSince s t⟩) := by
  unfold outcome Ends
  cases (remove w anchorId options).run s with
  | ok removal t => exact eq_comm
  | error failure t => exact eq_comm

/-- A removal that git refuses. -/
theorem ending_refused {dropping : Except String Unit} {asks : Bool} {repoPath branch : String}
    {message : String} (h : git.removed = .error message) :
    ending git dropping asks repoPath branch = ⟨.error message, []⟩ := by
  simp only [ending, h]

/-- A removal whose record is not dropped. -/
theorem ending_kept {asks : Bool} {repoPath branch message : String}
    (h : git.removed = .ok ()) :
    ending git (.error message) asks repoPath branch = ⟨.error message, []⟩ := by
  simp only [ending, h]

/-- A removal that asks for no branch. -/
theorem ending_unasked {repoPath branch : String} (h : git.removed = .ok ()) :
    ending git (.ok ()) false repoPath branch = ⟨.ok (false, none), []⟩ := by
  simp only [ending, h, if_true]

/-- A removal that git grants and whose record is dropped is not rejected. -/
theorem ending_granted (asks : Bool) (repoPath branch : String) (h : git.removed = .ok ()) :
    ∃ fate, (ending git (.ok ()) asks repoPath branch).answer = .ok fate := by
  cases asks with
  | false => exact ⟨_, congrArg Outcome.answer (ending_unasked h)⟩
  | true => cases hdeleted : git.deleted branch <;> simp [ending, h, hdeleted]

/-- A removal that asks for a branch asks for that one. -/
theorem ending_deletions (repoPath branch : String) (h : git.removed = .ok ()) :
    (ending git (.ok ()) true repoPath branch).deletions = [(repoPath, branch)] := by
  cases hdeleted : git.deleted branch <;> simp [ending, h, hdeleted]

/-- What is seen of a branch that is to go, when nothing was asked for before. -/
theorem ends_branch {entry : Entry} {machine : Option String} {repoPath branch : String}
    {E : Failure → Host → Prop} (hremoved : git.removed = .ok ()) (hbehind : Behind s t)
    (hnone : deletionsSince s t = []) :
    Ends (dropBranchOrReport entry options (.branchDelete machine repoPath branch)
      (git.deleted branch)) t
      (fun removal u => ending git (.ok ()) options.deleteBranch repoPath branch =
        ⟨.ok (removal.branchDeleted, removal.branchError), deletionsSince s u⟩) E := by
  have hasked : deletionsSince s (t.did (.branchDelete machine repoPath branch)) =
      [(repoPath, branch)] := by
    rw [deletionsSince_did hbehind, hnone]
    rfl
  rw [ends_dropBranchOrReport]
  refine ⟨fun hkeep => ?_, fun hdelete => ⟨fun hok => ?_, fun message herror => ?_⟩⟩
  · simp [ending, hremoved, hnone, hkeep]
  · simp [ending, hremoved, hasked, hdelete, hok]
  · simp [ending, hremoved, hasked, hdelete, herror]

/-! ### Each way -/

/-- The removal of a checkout that is a row of this host. -/
theorem outcome_local (h : LocalRow w s anchorId c options.force git) :
    outcome w s anchorId options =
      ending git (.ok ()) options.deleteBranch c.repoPath c.branch := by
  obtain ⟨entry, origin, hentry, hkind, hrepo, hpath⟩ := h.shown
  have hworktree : requireWorktree entry = .ok entry := by
    rw [requireWorktree, hkind]
    rfl
  have hbranch : branchOf entry = c.branch := by rw [branchOf, hkind]
  have hremoved : w.removeWorktree c.repoPath c.path options.force = git.removed := by
    rw [← h.answers]
    rfl
  have hdeleted : w.deleteBranch c.repoPath c.branch options.force = git.deleted c.branch := by
    rw [← h.answers]
    rfl
  rw [outcome_eq_iff]
  unfold remove
  rw [ends_bind, ends_get, if_pos h.isLocal, hentry]
  simp only [hworktree, removeLocalWorktree, ends_bind, attempt, ends_pure, ends_perform_unit,
    ends_unregisterWorkspace, hrepo, hpath, hbranch, hremoved, hdeleted]
  refine ⟨fun hok => ?_, fun message herror => ?_⟩
  · refine ends_branch hok ((behind_refl.did _).asked _) ?_
    rw [deletionsSince_unregister (behind_refl.did _), deletionsSince_remove]
  · rw [deletionsSince_remove, ending_refused herror]
    rfl

/-- A held anchor on a checkout is removed as a checkout. -/
theorem ends_remove_held {P : WorktreeRemoval → Host → Prop} {E : Failure → Host → Prop}
    (h : HeldRow w s anchorId c options.force git record) :
    Ends (remove w anchorId options) s P E ↔
      Ends (removeRemote w (entryOf record) options) s P E := by
  have hworktree : requireWorktree (entryOf record) = .ok (entryOf record) := by
    have hkind := h.worktree
    unfold requireWorktree entryOf
    cases hrecord : record.kind with
    | directory => exact absurd hrecord hkind
    | worktree branch origin => rfl
  have hheld := h.held
  unfold remove
  rw [ends_bind, ends_get, if_neg h.isRemote]
  cases hparse : parseRemoteAnchorId anchorId with
  | some discovered =>
    rw [hparse] at hheld
    simp only [hheld]
  | none =>
    rw [hparse] at hheld
    simp only [hheld, hworktree, attempt, ends_bind, ends_pure]

/-- The removal of a checkout through a held anchor on it. -/
theorem outcome_held (h : HeldRow w s anchorId c options.force git record) :
    outcome w s anchorId options =
      ending git (dropped w s record) options.deleteBranch c.repoPath
        (branchOf (entryOf record)) := by
  have hremoved : w.worktreeRemove (entryOf record).nodeId (entryOf record).repoPath
      (entryOf record).remoteRoot options.force = git.removed := by
    rw [← h.answers, machineAnswers, ← h.repoPath, ← h.path]
    rfl
  have hdeleted : w.branchDelete (entryOf record).nodeId (entryOf record).repoPath
      (branchOf (entryOf record)) options.force = git.deleted (branchOf (entryOf record)) := by
    rw [← h.answers, machineAnswers, ← h.repoPath]
    rfl
  have hconnected : w.connected (entryOf record).nodeId = true := h.connected
  rw [outcome_eq_iff, ends_remove_held h]
  simp only [removeRemote, ends_bind, ends_channelFor, hconnected, ends_perform_unit,
    ends_unregisterWorkspace, ends_removeAnchor, hremoved, hdeleted]
  refine ⟨fun _ => ⟨fun hok => ?_, fun message herror => ?_⟩, fun hoffline => by cases hoffline⟩
  · -- the checkout and its workspace are gone, and the anchors are as they were
    obtain ⟨u, hu⟩ : ∃ u, u = asked w (s.did (.worktreeRemove (some (entryOf record).nodeId)
        (entryOf record).repoPath (entryOf record).remoteRoot)) (.unregister (entryOf record)) :=
      ⟨_, rfl⟩
    have hbehind : Behind s u := by
      rw [hu]
      exact (behind_refl.did _).asked _
    have hnone : deletionsSince s u = [] := by
      rw [hu, deletionsSince_unregister (behind_refl.did _), deletionsSince_remove]
    have hget : getAnchor u record.anchorId = getAnchor s record.anchorId := by
      rw [hu, getAnchor, asked_anchors, did_anchors]
      rfl
    have hid : (entryOf record).anchorId = record.anchorId := rfl
    have hrepo : (entryOf record).repoPath = c.repoPath := h.repoPath
    rw [← hu, hid, hget, hrepo, dropped]
    cases hfound : getAnchor s record.anchorId with
    | none => exact ⟨fun _ => ends_branch hok hbehind hnone, fun found hcontra => by cases hcontra⟩
    | some found =>
      refine ⟨fun hcontra => (by cases hcontra), fun other hother => ?_⟩
      obtain rfl := Option.some.inj hother
      have hlater : deletionsSince s (u.did (.drop (entryOf found))) = [] := by
        rw [deletionsSince_did hbehind, hnone]
        rfl
      refine ⟨fun hdrop => ?_, fun message hrefused => ?_⟩
      · dsimp only
        rw [hdrop]
        exact ends_branch hok (hbehind.did _) hlater
      · dsimp only
        rw [hrefused, ending_kept hok, hlater]
        rfl
  · rw [deletionsSince_remove, ending_refused herror]
    rfl

/-- The removal of a checkout that a machine's git reports and nothing holds. -/
theorem outcome_discovered (h : DiscoveredRow w s anchorId c options.force git) :
    outcome w s anchorId options =
      ending git (.ok ()) (options.deleteBranch && decide (c.branch ≠ "")) c.repoPath c.branch := by
  obtain ⟨nodeId, listed, entry, hparse, hheld, hlisted, hfound, hbranch, hconnected, hanswers⟩ :=
    h.reported
  have hremoved : w.worktreeRemove nodeId c.repoPath c.path options.force = git.removed := by
    rw [← hanswers]
    rfl
  have hdeleted : w.branchDelete nodeId c.repoPath c.branch options.force =
      git.deleted c.branch := by
    rw [← hanswers]
    rfl
  rw [outcome_eq_iff]
  unfold remove
  rw [ends_bind, ends_get, if_neg h.isRemote, hparse]
  simp only [hheld, removeDiscovered, ends_bind, ends_get, hlisted, hfound, attempt, ends_pure,
    channelFor, hconnected, if_true, ends_perform_unit, hremoved, hdeleted, hbranch]
  refine ⟨fun hok => ?_, fun message herror => ?_⟩
  · rw [ends_ite]
    refine ⟨fun hnone => ?_, fun hsome => ?_⟩
    · have hasks : (options.deleteBranch && decide (c.branch ≠ "")) = false := by
        rcases hnone with hkeep | hdetached
        · rw [hkeep, Bool.false_and]
        · rw [hdetached, Bool.and_comm]
          rfl
      rw [ends_pure, hasks, ending_unasked hok, deletionsSince_remove]
    · rw [not_or] at hsome
      have hasks : (options.deleteBranch && decide (c.branch ≠ "")) = options.deleteBranch := by
        rw [decide_eq_true hsome.2, Bool.and_true]
      rw [hasks]
      exact ends_branch hok (behind_refl.did _) (deletionsSince_remove _ _ _)
  · rw [deletionsSince_remove, ending_refused herror]
    rfl

/-! ### When the three end alike -/

/-- The three removals of a checkout end alike exactly when git refuses it, or the record of the
held anchor is dropped, and a branch that is to go is there and is the recorded one. -/
theorem removal_alike_iff {w₁ w₂ w₃ : World} {s₁ s₂ s₃ : Host} {id₁ id₂ id₃ : String}
    (c : Checkout) (options : RemoveOptions) (git : Answers) (record : AnchorRecord)
    (here : LocalRow w₁ s₁ id₁ c options.force git)
    (held : HeldRow w₂ s₂ id₂ c options.force git record)
    (discovered : DiscoveredRow w₃ s₃ id₃ c options.force git) :
    Alike c (outcome w₁ s₁ id₁ options) (outcome w₂ s₂ id₂ options)
        (outcome w₃ s₃ id₃ options) ↔
      (∃ message, git.removed = .error message) ∨
        (dropped w₂ s₂ record = .ok () ∧
          (options.deleteBranch = true →
            c.branch ≠ "" ∧ branchOf (entryOf record) = c.branch)) := by
  rw [outcome_local here, outcome_held held, outcome_discovered discovered]
  cases hremoved : git.removed with
  | error message =>
    rw [ending_refused hremoved, ending_refused hremoved, ending_refused hremoved]
    exact iff_of_true ⟨rfl, rfl, fun _ => rfl⟩ (.inl ⟨message, rfl⟩)
  | ok u =>
    constructor
    · intro h
      have hdropped : dropped w₂ s₂ record = .ok () := by
        cases hdrop : dropped w₂ s₂ record with
        | ok u => rfl
        | error message =>
          obtain ⟨fate, hfate⟩ := ending_granted options.deleteBranch c.repoPath c.branch hremoved
          rw [h.heldAlike, hdrop, ending_kept hremoved] at hfate
          cases hfate
      refine .inr ⟨hdropped, fun hdelete => ?_⟩
      have hasked := ending_deletions c.repoPath c.branch hremoved
      have hsame := congrArg Outcome.deletions h.heldAlike
      rw [hdelete, hdropped, hasked, ending_deletions _ _ hremoved] at hsame
      refine ⟨fun hdetached => ?_, ?_⟩
      · have hnone := h.asksForBranch hdetached
        rw [hdelete, hasked] at hnone
        cases hnone
      · simpa using hsame.symm
    · rintro (⟨message, hrefused⟩ | ⟨hdropped, hbranch⟩)
      · cases hrefused
      · rw [hdropped]
        cases hdelete : options.deleteBranch with
        | false =>
          rw [Bool.false_and, ending_unasked hremoved, ending_unasked hremoved]
          exact ⟨rfl, rfl, fun _ => rfl⟩
        | true =>
          obtain ⟨hattached, hrecorded⟩ := hbranch hdelete
          rw [hrecorded, decide_eq_true hattached, Bool.and_true]
          exact ⟨rfl, rfl, fun hdetached => absurd hdetached hattached⟩

/-! ### A checkout known in three ways -/

/-- A checkout of a repository on this host, and one alike on a machine. -/
def loginCheckout (branch : String) : Checkout := ⟨"/srv/app", "/srv/w/login", branch⟩

/-- Git of this host and of a machine list the checkout, remove it and delete every branch that
has a name. -/
def loginWorld (branch : Option String) : World where
  __ := grantingWorld
  listWorktrees _ := .ok [⟨"/srv/app", some "main"⟩, ⟨"/srv/w/login", branch⟩]
  worktreeList _ _ := .ok [⟨"/srv/app", some "main", true⟩, ⟨"/srv/w/login", branch, false⟩]
  deleteBranch _ branch _ := if branch = "" then .error "branch '' not found" else .ok ()
  branchDelete _ _ branch _ := if branch = "" then .error "branch '' not found" else .ok ()

/-- The held anchor on the checkout of the machine. -/
def loginAnchor (branch : String) : AnchorRecord where
  anchorId := "1b4e28ba-2fa1-41d2-883f-0016d3cca427"
  nodeId := "m"
  name := "login"
  anchorPath := "/r/m/app/login"
  remoteRoot := "/srv/w/login"
  repoPath := "/srv/app"
  createdAt := "2026-01-01T00:00:00.000Z"
  kind := .worktree branch .adopted

/-- The record of the repository of this host. -/
def appRepo : RepoRecord := ⟨"r", "local", "/srv/app", "app", "2026-01-01T00:00:00.000Z"⟩

/-- The host that has the repository registered, and may hold the anchor. -/
def loginHost (branch : String) (holds : Bool) : Host where
  anchors := if holds then [loginAnchor branch] else []
  repos := [appRepo]
  acts := []

/-- What git answers about the checkout. -/
def loginGit : Answers where
  removed := .ok ()
  deleted branch := if branch = "" then .error "branch '' not found" else .ok ()

/-- The id of the row on this host. -/
def hereId : String := localAnchorId .worktree "/srv/w/login" "/srv/app"

/-- The id of the checkout that the machine's git reports. -/
def discoveredId : String := remoteAnchorId "m" "/srv/app" "/srv/w/login"

/-- The checkout is a row of this host. -/
theorem login_here (branch : Option String) :
    LocalRow (loginWorld branch) (loginHost (branch.getD "") false) hereId
      (loginCheckout (branch.getD "")) false loginGit := by
  have hdirectory : (localDirectoryAnchor appRepo).anchorId ≠ hereId := by decide +kernel
  have hrows : (localStatuses (loginWorld branch) (loginHost (branch.getD "") false)).map
      WorktreeStatus.anchor =
        [localDirectoryAnchor appRepo, localWorktreeAnchor appRepo ⟨"/srv/w/login", branch⟩] := rfl
  have hentry : localEntry (loginWorld branch) (loginHost (branch.getD "") false) hereId =
      some (localWorktreeAnchor appRepo ⟨"/srv/w/login", branch⟩) := by
    have hfind := List.find?_map (f := WorktreeStatus.anchor)
      (p := fun entry : Entry => decide (entry.anchorId = hereId))
      (l := localStatuses (loginWorld branch) (loginHost (branch.getD "") false))
    rw [hrows, List.find?_cons_of_neg (by simpa using hdirectory),
      List.find?_cons_of_pos (by exact decide_eq_true rfl)] at hfind
    exact hfind.symm
  exact ⟨by decide +kernel, ⟨_, none, hentry, rfl, rfl, rfl⟩, rfl⟩

/-- The checkout is held by its anchor. -/
theorem login_held (branch : Option String) :
    HeldRow (loginWorld branch) (loginHost (branch.getD "") true)
      (loginAnchor (branch.getD "")).anchorId (loginCheckout (branch.getD "")) false loginGit
        (loginAnchor (branch.getD "")) := by
  have hparse : parseRemoteAnchorId (loginAnchor (branch.getD "")).anchorId = none := by
    change parseRemoteAnchorId "1b4e28ba-2fa1-41d2-883f-0016d3cca427" = none
    decide +kernel
  refine ⟨?_, ?_, ?_, rfl, rfl, rfl, rfl⟩
  · change ¬ IsLocalId "1b4e28ba-2fa1-41d2-883f-0016d3cca427"
    decide +kernel
  · rw [hparse]
    rfl
  · intro h
    cases h

/-- The checkout is reported by the machine's git. -/
theorem login_discovered (branch : Option String) :
    DiscoveredRow (loginWorld branch) (loginHost (branch.getD "") false) discoveredId
      (loginCheckout (branch.getD "")) false loginGit := by
  have hparse : parseRemoteAnchorId discoveredId = some ⟨"m", "/srv/app", "/srv/w/login"⟩ := by
    decide +kernel
  exact ⟨by decide +kernel, "m", _, _, hparse, rfl, rfl, rfl, rfl, rfl, rfl⟩

/-- A checkout on a branch is removed alike, its branch with it. -/
theorem login_removed_alike :
    Alike (loginCheckout "login")
      (outcome (loginWorld (some "login")) (loginHost "login" false) hereId ⟨false, true⟩)
      (outcome (loginWorld (some "login")) (loginHost "login" true)
        (loginAnchor "login").anchorId ⟨false, true⟩)
      (outcome (loginWorld (some "login")) (loginHost "login" false) discoveredId
        ⟨false, true⟩) :=
  (removal_alike_iff (loginCheckout "login") ⟨false, true⟩ loginGit (loginAnchor "login")
    (login_here (some "login")) (login_held (some "login"))
    (login_discovered (some "login"))).mpr (.inr ⟨rfl, fun _ => ⟨by decide, rfl⟩⟩)

/-- A detached checkout is not: git is asked for its branch unless it was only discovered. -/
theorem detached_asked :
    LocalRow (loginWorld none) (loginHost "" false) hereId (loginCheckout "") false loginGit ∧
      HeldRow (loginWorld none) (loginHost "" true) (loginAnchor "").anchorId
        (loginCheckout "") false loginGit (loginAnchor "") ∧
      DiscoveredRow (loginWorld none) (loginHost "" false) discoveredId (loginCheckout "")
        false loginGit ∧
      ¬ Alike (loginCheckout "")
        (outcome (loginWorld none) (loginHost "" false) hereId ⟨false, true⟩)
        (outcome (loginWorld none) (loginHost "" true) (loginAnchor "").anchorId ⟨false, true⟩)
        (outcome (loginWorld none) (loginHost "" false) discoveredId ⟨false, true⟩) := by
  refine ⟨login_here none, login_held none, login_discovered none, fun h => ?_⟩
  have hsame := congrArg Outcome.deletions h.discoveredAlike
  have hheld : outcome (loginWorld none) (loginHost "" true) (loginAnchor "").anchorId
      ⟨false, true⟩ = _ := outcome_held (login_held none)
  have hdiscovered : outcome (loginWorld none) (loginHost "" false) discoveredId
      ⟨false, true⟩ = _ := outcome_discovered (login_discovered none)
  rw [hheld, hdiscovered] at hsame
  cases hsame

end RemoteWorkspace.Analysis.RemovalParity
