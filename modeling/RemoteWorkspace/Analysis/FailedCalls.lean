import RemoteWorkspace.Analysis.WorktreeEnds

/-!
# What a rejected worktree call leaves behind

A call of the worktree manager is a chain of steps over three stores, each with a policy of its
own for a step that fails. When the call rejects, the held anchors and the repository records are
what they were, with two exceptions: an anchor that was recorded is not taken back when the
repository cannot be recorded behind it, nor when taking it back fails after the workspace
registry refused it.
-/

set_option autoImplicit false

namespace RemoteWorkspace.Analysis.Worktrees

open RemoteWorkspace.Computation.Calls
open RemoteWorkspace.Model.Anchors (AnchorRecord AnchorDraft)
open RemoteWorkspace.Model.AnchorCalls (adoptDraft directoryDraft)
open RemoteWorkspace.Model.AnchorIds
open RemoteWorkspace.Model.Stores RemoteWorkspace.Model.Worktrees
open RemoteWorkspace.Model.RepoRequests (find)

/-! ### Bookkeeping -/

/-- The held anchors and the repository records are as they were. -/
def Same (s t : Host) : Prop := t.anchors = s.anchors ∧ t.repos = s.repos

/-- When the call rejects, the bookkeeping is as it was. -/
def Restores {α : Type} (c : Call α) (s : Host) : Prop :=
  Ends c s (fun _ _ => True) fun _ t => Same s t

section Restores

variable {α β : Type} {c : Call α} {w : World} {s t : Host} {draft : AnchorDraft}

/-- Restoring, by the runs of the call. -/
theorem restores_iff : Restores c s ↔ ∀ e t, c.run s = .error e t → Same s t := by
  unfold Restores
  rw [ends_iff]
  exact and_iff_right fun _ _ _ => trivial

/-- Restoring does not depend on the answer. -/
theorem restores_map {g : α → β} : Restores (g <$> c) s ↔ Restores c s := by
  unfold Restores
  rw [ends_map]

/-- One more anchor is not the same bookkeeping. -/
theorem not_same {record : AnchorRecord} (h : t.anchors = s.anchors ++ [record]) : ¬ Same s t := by
  intro hsame
  have hlength := congrArg List.length (h.symm.trans hsame.1)
  simp at hlength

/-! ### Recording an anchor and opening it -/

/-- The workspace registry is missing, or it refuses the anchor. -/
def OpeningRefused (w : World) (record : AnchorRecord) : Prop :=
  ∀ workspace, w.workspace = some workspace → workspace.register (entryOf record) ≠ .ok ()

/-- The anchor of a draft is recorded, is refused by the workspace registry, and its directory
cannot be removed again. -/
def LeftHeld (w : World) (s : Host) (draft : AnchorDraft) : Prop :=
  ¬ Owned w s draft ∧ w.writeAnchor (recordOf w draft) = .ok () ∧
    OpeningRefused w (recordOf w draft) ∧ w.rmAnchor (recordOf w draft) ≠ .ok ()

/-- Taking a new anchor back leaves what was there, when its directory can be removed. -/
theorem ends_takeBack (hid : getAnchor s (recordOf w draft).anchorId = none)
    (hanchors : t.anchors = s.anchors ++ [recordOf w draft]) (hrepos : t.repos = s.repos) :
    Ends (removeAnchor w (recordOf w draft).anchorId) t (fun _ u => Same s u)
        (fun _ u => Same s u) ↔ w.rmAnchor (recordOf w draft) = .ok () := by
  have hget : getAnchor t (recordOf w draft).anchorId = some (recordOf w draft) := by
    have h := getAnchor_hold hid
    unfold getAnchor at h ⊢
    rw [hanchors]
    exact h
  rw [ends_removeAnchor, hget]
  constructor
  · rintro ⟨-, h⟩
    cases hrm : w.rmAnchor (recordOf w draft) with
    | ok a => rfl
    | error message => exact absurd ((h _ rfl).2 message hrm) (not_same hanchors)
  · intro hrm
    refine ⟨fun h => (by cases h), fun record hrecord => ?_⟩
    obtain rfl := Option.some.inj hrecord
    refine ⟨fun _ => ⟨?_, hrepos⟩, fun message h => ?_⟩
    · have hforget := forget_hold hid
      rw [forget_anchors, hold_anchors] at hforget
      rw [forget_anchors, did_anchors, hanchors]
      exact hforget
    · rw [hrm] at h
      cases h

/-- A call that records an anchor and opens it restores the bookkeeping, unless the anchor stays
held. -/
theorem restores_recordAndOpen (draft : AnchorDraft) (hid : getAnchor s w.anchorUUID = none) :
    Restores (do
      let anchor ← createAnchor w draft
      openOrDrop w anchor (openAsWorkspace w (entryOf anchor))) s ↔ ¬ LeftHeld w s draft := by
  have hback (act : Act) : Ends (removeAnchor w (recordOf w draft).anchorId)
      ((recorded w s draft).did act) (fun _ u => Same s u) (fun _ u => Same s u) ↔
        w.rmAnchor (recordOf w draft) = .ok () := ends_takeBack hid rfl rfl
  have hback' : Ends (removeAnchor w (recordOf w draft).anchorId)
      (recorded w s draft) (fun _ u => Same s u) (fun _ u => Same s u) ↔
        w.rmAnchor (recordOf w draft) = .ok () := ends_takeBack hid rfl rfl
  unfold Restores
  simp only [ends_bind, ends_createAnchor, ends_openOrDrop, ends_openAsWorkspace, hback, hback',
    implies_true, true_and]
  constructor
  · rintro ⟨-, h⟩ ⟨howned, hwrite, hrefused, hrm⟩
    obtain ⟨hnone, hsome⟩ := (h howned).1 hwrite
    cases hworkspace : w.workspace with
    | none => exact hrm (hnone hworkspace)
    | some workspace =>
      cases hregister : workspace.register (entryOf (recordOf w draft)) with
      | ok a => exact hrefused workspace hworkspace hregister
      | error message => exact hrm (hsome workspace hworkspace message hregister)
  · intro hleft
    refine ⟨fun _ => ⟨rfl, rfl⟩, fun howned => ⟨fun hwrite => ⟨fun hnone => ?_, ?_⟩,
      fun message _ => ⟨rfl, rfl⟩⟩⟩
    · by_contra hrm
      refine hleft ⟨howned, hwrite, fun workspace hsome => ?_, hrm⟩
      rw [hnone] at hsome
      cases hsome
    · intro workspace hsome message hregister
      by_contra hrm
      refine hleft ⟨howned, hwrite, fun other hother => ?_, hrm⟩
      obtain rfl := Option.some.inj (hsome.symm.trans hother)
      rw [hregister]
      exact fun h => by cases h

end Restores

/-! ### The calls -/

/-- A creation whose anchor stays held: the checkout was cut and its anchor recorded, and the
repository it came from has no record and cannot be given one. -/
def CreationLeft (w : World) (s : Host) (draft : WorktreeDraft) : Prop :=
  ∃ repoPath worktree, Cut w draft repoPath worktree ∧
    ¬ Owned w s (createdDraft draft repoPath worktree) ∧
    w.writeAnchor (recordOf w (createdDraft draft repoPath worktree)) = .ok () ∧
    find s.repos draft.nodeId repoPath = none ∧
    w.writeRepos (s.repos ++ [unknownRepo w draft.nodeId repoPath]) ≠ .ok ()

/-- An adoption whose anchor stays held: git lists the checkout, which is not held yet. -/
def AdoptionLeft (w : World) (s : Host) (c : Coordinates) : Prop :=
  ∃ listed entry, listExisting w s c.nodeId c.repoPath = .ok listed ∧
    listed.find? (fun candidate => decide (candidate.path = c.path)) = some entry ∧
    heldRemote s c = none ∧ LeftHeld w s (adoptDraft c.nodeId c.repoPath c.path entry.branch)

/-- A directory whose anchor stays held after it was opened. -/
def DirectoryLeft (w : World) (s : Host) (nodeId repoPath : String) : Prop :=
  w.workspace.isSome = true ∧ directoryAnchorOf s nodeId repoPath = none ∧
    w.connected nodeId = true ∧ ∃ canonicalPath, w.resolve nodeId repoPath = .ok canonicalPath ∧
      LeftHeld w s (directoryDraft nodeId canonicalPath)

/-- A call that rejects and leaves an anchor behind. -/
def LeavesBehind (w : World) (s : Host) : Request → Prop
  | .create draft => w.isLocalNode draft.nodeId = false ∧ CreationLeft w s draft
  | .adopt nodeId repoPath path =>
    w.isLocalNode nodeId = false ∧ AdoptionLeft w s ⟨nodeId, repoPath, path⟩
  | .openDirectory nodeId repoPath =>
    w.isLocalNode nodeId = false ∧ DirectoryLeft w s nodeId repoPath
  | .closeDirectory _ _ => False
  | .row .openEntry anchorId => ∃ c, parseRemoteAnchorId anchorId = some c ∧ AdoptionLeft w s c
  | .row .close _ => False
  | .row .release _ => False
  | .row (.remove _) _ => False

section Calls

variable {w : World} {s : Host}

/-- Opening something as a workspace changes no record. -/
theorem restores_openAsWorkspace (anchor : Entry) : Restores (openAsWorkspace w anchor) s := by
  unfold Restores
  rw [ends_openAsWorkspace]
  exact ⟨fun _ => ⟨rfl, rfl⟩, fun _ _ => ⟨fun _ => trivial, fun _ _ => ⟨rfl, rfl⟩⟩⟩

/-- A creation on this host changes no record before it can no longer reject. -/
theorem restores_createLocalWorktree (draft : WorktreeDraft) :
    Restores (createLocalWorktree w draft) s := by
  unfold Restores createLocalWorktree
  simp only [ends_bind, ends_ite, ends_throw, ends_outside, ends_perform,
    ends_registerRepoIfUnknown, ends_registerWorkspace, ends_pure, implies_true, true_and]
  refine ⟨fun _ _ => ⟨fun _ => ⟨rfl, rfl⟩, fun _ => ⟨fun _ _ _ _ _ => ⟨rfl, rfl⟩, ?_⟩⟩,
    fun _ _ => ⟨rfl, rfl⟩⟩
  exact fun _ _ => ⟨rfl, rfl⟩

/-- A creation on a machine restores the bookkeeping, unless its anchor stays held. -/
theorem restores_createRemote (draft : WorktreeDraft) :
    Restores (createRemote w draft) s ↔ ¬ CreationLeft w s draft := by
  unfold Restores createRemote
  simp only [ends_bind, ends_channelFor, ends_outside, ends_perform, ends_createAnchor,
    ends_registerRepoIfUnknown, ends_registerWorkspace, ends_pure, implies_true, true_and]
  constructor
  · rintro ⟨h, -⟩ ⟨repoPath, worktree, ⟨hconnected, hresolve, hadd⟩, howned, hwrite, hfind, hrepos⟩
    obtain ⟨-, hrecorded⟩ := ((h hconnected).1 repoPath hresolve).1 worktree hadd
    have hregister := ((hrecorded howned).1 hwrite) hfind
    cases hwritten : w.writeRepos (s.repos ++ [unknownRepo w draft.nodeId repoPath]) with
    | ok a => exact hrepos hwritten
    | error message => exact not_same rfl (hregister message hwritten)
  · intro hleft
    refine ⟨fun hconnected => ⟨fun repoPath hresolve => ⟨fun worktree hadd => ⟨fun _ => ⟨rfl, rfl⟩,
      fun howned => ⟨fun hwrite hfind message hrepos => ?_, fun _ _ => ⟨rfl, rfl⟩⟩⟩,
      fun _ _ => ⟨rfl, rfl⟩⟩, fun _ _ => ⟨rfl, rfl⟩⟩, fun _ => ⟨rfl, rfl⟩⟩
    refine absurd
      ⟨repoPath, worktree, ⟨hconnected, hresolve, hadd⟩, howned, hwrite, hfind, ?_⟩ hleft
    intro hok
    have hno : Except.error message = Except.ok () := hrepos.symm.trans hok
    cases hno

/-- An adoption restores the bookkeeping, unless its anchor stays held. -/
theorem restores_adoptRemote (hid : getAnchor s w.anchorUUID = none) (c : Coordinates) :
    Restores (adoptRemote w c) s ↔ ¬ AdoptionLeft w s c := by
  unfold Restores adoptRemote
  rw [ends_bind, ends_get, ends_bind, ends_attempt]
  constructor
  · rintro ⟨h, -⟩ ⟨listed, entry, hlisted, hentry, hheld, hleft⟩
    have hends := h listed hlisted
    rw [hentry, hheld] at hends
    exact (restores_recordAndOpen _ hid).mp hends hleft
  · intro hleft
    refine ⟨fun listed hlisted => ?_, fun _ _ => ⟨rfl, rfl⟩⟩
    cases hentry : listed.find? (fun candidate => decide (candidate.path = c.path)) with
    | none => exact ⟨rfl, rfl⟩
    | some entry =>
      cases hheld : heldRemote s c with
      | some held => exact restores_openAsWorkspace (entryOf held)
      | none =>
        refine (restores_recordAndOpen _ hid).mpr fun h => hleft ?_
        exact ⟨listed, entry, hlisted, hentry, hheld, h⟩

/-- Adopting a checkout of this host changes no record. -/
theorem restores_adoptLocal (nodeId repoPath path : String) :
    Restores (adoptLocal w nodeId repoPath path) s := by
  unfold Restores adoptLocal
  simp only [ends_bind, ends_get, ends_attempt, ends_ite, ends_throw]
  refine ⟨fun listed _ => ⟨fun _ => ⟨rfl, rfl⟩, fun _ => ?_⟩, fun _ _ => ⟨rfl, rfl⟩⟩
  split
  · exact ⟨rfl, rfl⟩
  · rename_i entry hentry
    rw [ends_ite]
    exact ⟨fun _ => ⟨rfl, rfl⟩, fun _ => restores_openAsWorkspace entry⟩

/-- Opening a directory restores the bookkeeping, unless its anchor stays held. -/
theorem restores_openDirectory (hid : getAnchor s w.anchorUUID = none) (nodeId repoPath : String) :
    Restores (openDirectory w nodeId repoPath) s ↔
      ¬ (w.isLocalNode nodeId = false ∧ DirectoryLeft w s nodeId repoPath) := by
  unfold Restores openDirectory
  cases hworkspace : w.workspace with
  | none =>
    refine iff_of_true ⟨rfl, rfl⟩ ?_
    rintro ⟨-, hsome, -⟩
    rw [hworkspace] at hsome
    cases hsome
  | some workspace =>
    rw [ends_bind, ends_get, ends_ite]
    cases hlocal : w.isLocalNode nodeId with
    | true =>
      refine iff_of_true ⟨fun _ => ?_, fun h => absurd rfl h⟩ fun h => Bool.noConfusion h.1
      cases find s.repos nodeId repoPath with
      | none => exact ⟨rfl, rfl⟩
      | some record => exact restores_openAsWorkspace (localDirectoryAnchor record)
    | false =>
      cases hexisting : directoryAnchorOf s nodeId repoPath with
      | some existing =>
        refine iff_of_true ⟨fun h => Bool.noConfusion h, fun _ => ?_⟩ ?_
        · exact restores_openAsWorkspace (entryOf existing)
        · rintro ⟨-, -, hnone, -⟩
          rw [hexisting] at hnone
          cases hnone
      | none =>
        have hopen (anchor : Entry) : (do
            perform (.register anchor) (workspace.register anchor)
            pure anchor : Call Entry) = openAsWorkspace w anchor := by
          rw [openAsWorkspace, hworkspace]
        have hrecord (canonicalPath : String) :=
          restores_recordAndOpen (directoryDraft nodeId canonicalPath) hid
        unfold Restores at hrecord
        simp only [hopen, ends_bind, ends_channelFor, ends_outside] at hrecord ⊢
        simp only [hrecord]
        constructor
        · rintro ⟨-, h⟩ ⟨-, -, -, hconnected, canonicalPath, hresolve, hleft⟩
          exact ((h Bool.false_ne_true).1 hconnected).1 canonicalPath hresolve hleft
        · intro hleft
          refine ⟨fun h => Bool.noConfusion h, fun _ => ⟨fun hconnected =>
            ⟨fun canonicalPath hresolve h => hleft ?_, fun _ _ => ⟨rfl, rfl⟩⟩,
            fun _ => ⟨rfl, rfl⟩⟩⟩
          refine ⟨trivial, ?_, hexisting, hconnected, canonicalPath, hresolve, h⟩
          rw [hworkspace]
          rfl

/-- Closing a directory: its anchor goes last. -/
theorem restores_closeDirectory (nodeId repoPath : String) :
    Restores (closeDirectory w nodeId repoPath) s := by
  unfold Restores closeDirectory
  rw [ends_bind, ends_get, ends_ite]
  refine ⟨fun _ => ?_, fun _ => ?_⟩
  · cases find s.repos nodeId repoPath with
    | none => trivial
    | some record =>
      simp only [ends_bind, ends_outside, ends_ite, ends_unregisterWorkspace, ends_pure]
      exact ⟨fun _ _ => ⟨fun _ => trivial, fun _ => trivial⟩, fun _ _ => ⟨rfl, rfl⟩⟩
  · cases directoryAnchorOf s nodeId repoPath with
    | none => trivial
    | some anchor =>
      simp only [ends_bind, ends_unregisterWorkspace, ends_removeAnchor, ends_pure]
      exact ⟨fun _ => trivial, fun _ _ => ⟨fun _ => trivial, fun _ _ =>
        ⟨asked_anchors, asked_repos⟩⟩⟩

/-- The answer about a branch is no rejection. -/
theorem restores_dropBranchOrReport {t : Host} (anchor : Entry) (options : RemoveOptions)
    (act : Act) (answer : Except String Unit) :
    Ends (dropBranchOrReport anchor options act answer) t (fun _ _ => True) fun _ u => Same s u := by
  rw [ends_dropBranchOrReport]
  exact ⟨fun _ => trivial, fun _ => ⟨fun _ => trivial, fun _ _ => trivial⟩⟩

/-- Removing a checkout of this host changes no record. -/
theorem restores_removeLocalWorktree (anchor : Entry) (options : RemoveOptions) :
    Restores (removeLocalWorktree w anchor options) s := by
  unfold Restores removeLocalWorktree
  simp only [ends_bind, ends_perform, ends_unregisterWorkspace]
  exact ⟨fun _ _ => restores_dropBranchOrReport _ _ _ _, fun _ _ => ⟨rfl, rfl⟩⟩

/-- Removing a held checkout: its record goes when nothing behind it can reject. -/
theorem restores_removeRemote (anchor : Entry) (options : RemoveOptions) :
    Restores (removeRemote w anchor options) s := by
  unfold Restores removeRemote
  simp only [ends_bind, ends_channelFor, ends_perform, ends_unregisterWorkspace, ends_removeAnchor]
  refine ⟨fun _ => ⟨fun _ _ => ⟨fun _ => restores_dropBranchOrReport _ _ _ _, fun _ _ => ⟨fun _ =>
    restores_dropBranchOrReport _ _ _ _, fun _ _ => ⟨asked_anchors, asked_repos⟩⟩⟩,
    fun _ _ => ⟨rfl, rfl⟩⟩, fun _ => ⟨rfl, rfl⟩⟩

/-- Removing a checkout that is not held changes no record. -/
theorem restores_removeDiscovered (c : Coordinates) (options : RemoveOptions) :
    Restores (removeDiscovered w c options) s := by
  unfold Restores removeDiscovered
  rw [ends_bind, ends_get, ends_bind, ends_attempt]
  refine ⟨fun listed _ => ?_, fun _ _ => ⟨rfl, rfl⟩⟩
  cases listed.find? (fun candidate => decide (candidate.path = c.path)) with
  | none => exact ⟨rfl, rfl⟩
  | some entry =>
    simp only [ends_bind, ends_channelFor, ends_perform, ends_ite, ends_pure]
    exact ⟨fun _ => ⟨fun _ _ => ⟨fun _ => trivial, fun _ => restores_dropBranchOrReport _ _ _ _⟩,
      fun _ _ => ⟨rfl, rfl⟩⟩, fun _ => ⟨rfl, rfl⟩⟩

/-- A call on a row restores the bookkeeping, unless it is an adoption whose anchor stays
held. -/
theorem restores_rowCall (hid : getAnchor s w.anchorUUID = none) (call : RowCall)
    (anchorId : String) :
    Restores (runRowCall w anchorId call) s ↔ ¬ LeavesBehind w s (.row call anchorId) := by
  cases call with
  | openEntry =>
    change Restores (openEntry w anchorId) s ↔
      ¬ ∃ c, parseRemoteAnchorId anchorId = some c ∧ AdoptionLeft w s c
    unfold openEntry
    cases hparse : parseRemoteAnchorId anchorId with
    | some c =>
      refine (restores_adoptRemote hid c).trans (not_congr ?_)
      simp
    | none =>
      refine iff_of_true ?_ (by simp)
      unfold Restores
      rw [ends_bind, ends_get]
      cases entryById w s anchorId with
      | none => exact ⟨rfl, rfl⟩
      | some anchor => exact restores_openAsWorkspace anchor
  | close =>
    refine iff_of_true ?_ not_false
    change Restores (close w anchorId) s
    unfold Restores close
    simp only [ends_bind, ends_get, ends_attempt, ends_unregister, ends_pure]
    exact ⟨fun _ _ => ⟨fun _ => trivial, fun _ _ => ⟨fun _ => trivial, fun _ _ => ⟨rfl, rfl⟩⟩⟩,
      fun _ _ => ⟨rfl, rfl⟩⟩
  | release =>
    refine iff_of_true ?_ not_false
    change Restores (release w anchorId) s
    have hdrop (anchor : Entry) (t : Host) (ht : Same s t) :
        Ends (if IsLocalId anchorId then pure anchor else do
          removeAnchor w anchor.anchorId
          pure anchor) t (fun _ _ => True) fun _ u => Same s u := by
      simp only [ends_ite, ends_bind, ends_removeAnchor, ends_pure]
      exact ⟨fun _ => trivial, fun _ => ⟨fun _ => trivial, fun _ _ => ⟨fun _ => trivial,
        fun _ _ => ht⟩⟩⟩
    unfold Restores release
    simp only [ends_bind, ends_get, ends_attempt, ends_unregister]
    exact ⟨fun anchor _ => ⟨fun _ => hdrop anchor s ⟨rfl, rfl⟩, fun _ _ => ⟨fun _ =>
      hdrop anchor _ ⟨rfl, rfl⟩, fun _ _ => ⟨rfl, rfl⟩⟩⟩, fun _ _ => ⟨rfl, rfl⟩⟩
  | remove options =>
    refine iff_of_true ?_ not_false
    change Restores (WorktreeRemoval.anchor <$> remove w anchorId options) s
    rw [restores_map]
    unfold Restores remove
    rw [ends_bind, ends_get, ends_ite]
    refine ⟨fun _ => ?_, fun _ => ?_⟩
    · cases localEntry w s anchorId with
      | none => exact ⟨rfl, rfl⟩
      | some anchor =>
        rw [ends_bind, ends_attempt]
        exact ⟨fun worktree _ => restores_removeLocalWorktree worktree options,
          fun _ _ => ⟨rfl, rfl⟩⟩
    · cases parseRemoteAnchorId anchorId with
      | some discovered =>
        dsimp only
        cases heldRemote s discovered with
        | none => exact restores_removeDiscovered discovered options
        | some held => exact restores_removeRemote (entryOf held) options
      | none =>
        cases getAnchor s anchorId with
        | none => exact ⟨rfl, rfl⟩
        | some record =>
          rw [ends_bind, ends_attempt]
          exact ⟨fun worktree _ => restores_removeRemote worktree options, fun _ _ => ⟨rfl, rfl⟩⟩

/-- A call restores the bookkeeping, unless it leaves an anchor behind. -/
theorem restores_request (hid : getAnchor s w.anchorUUID = none) (request : Request) :
    Restores (runRequest w request) s ↔ ¬ LeavesBehind w s request := by
  cases request with
  | create draft =>
    refine restores_map.trans ?_
    unfold create
    cases hlocal : w.isLocalNode draft.nodeId with
    | true =>
      refine iff_of_true (restores_createLocalWorktree draft) fun h => ?_
      exact Bool.noConfusion (hlocal.symm.trans h.1)
    | false =>
      refine (restores_createRemote draft).trans (not_congr ?_)
      exact (and_iff_right hlocal).symm
  | adopt nodeId repoPath path =>
    refine restores_map.trans ?_
    unfold adopt
    cases hlocal : w.isLocalNode nodeId with
    | true =>
      refine iff_of_true (restores_adoptLocal nodeId repoPath path) fun h => ?_
      exact Bool.noConfusion (hlocal.symm.trans h.1)
    | false =>
      refine (restores_adoptRemote hid ⟨nodeId, repoPath, path⟩).trans (not_congr ?_)
      exact (and_iff_right hlocal).symm
  | openDirectory nodeId repoPath =>
    exact restores_map.trans (restores_openDirectory hid nodeId repoPath)
  | closeDirectory nodeId repoPath =>
    exact iff_of_true (restores_closeDirectory nodeId repoPath) not_false
  | row call anchorId => exact restores_map.trans (restores_rowCall hid call anchorId)

end Calls

/-- For every call and every pattern of failures, a call that rejects leaves the held anchors and
the repository records as they were, if and only if it is none of these: a creation on a machine
that recorded its anchor and could not record the repository, or an adoption or an opened
directory whose new anchor was refused by the workspace registry and could not be removed. -/
theorem bookkeeping_restored (w : World) (s : Host) (hid : getAnchor s w.anchorUUID = none)
    (request : Request) :
    (∀ e t, (runRequest w request).run s = .error e t → Same s t) ↔ ¬ LeavesBehind w s request := by
  rw [← restores_iff]
  exact restores_request hid request

/-- An adoption that the workspace registry refuses, in a world where the new directory can be
removed again. -/
theorem refused_adoption_restored :
    Restores (runRequest
        { grantingWorld with
          workspace := some ⟨fun _ => .error "refused", fun _ => .ok (), fun _ => .ok false⟩ }
        (.adopt "n1" "/srv/app" "/srv/w/login")) emptyHost := by
  refine restores_iff.mpr ((bookkeeping_restored _ emptyHost rfl _).mpr ?_)
  rintro ⟨-, listed, entry, -, -, -, -, -, -, hrm⟩
  exact hrm rfl

/-- A creation that rejects and keeps its anchor: the repository document cannot be written. -/
theorem rejected_and_held :
    ¬ ∀ (w : World) (s : Host) (request : Request), getAnchor s w.anchorUUID = none →
      ∀ e t, (runRequest w request).run s = .error e t → Same s t := by
  intro h
  have hsame := h { grantingWorld with writeRepos := fun _ => .error "EROFS" } emptyHost
    (.create ⟨"n1", "/srv/app", "login", none, none⟩) rfl _ _ rfl
  exact not_same rfl hsame

end RemoteWorkspace.Analysis.Worktrees
