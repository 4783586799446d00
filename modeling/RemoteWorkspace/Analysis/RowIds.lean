import RemoteWorkspace.Analysis.AnchorIds
import RemoteWorkspace.Analysis.WorktreeEnds

/-!
# Ids name their rows

Each row of `list` is addressed by its id, which every call looks up in a way of its own. Whatever
the family of the id, a call on it refuses, or acts on the checkout or directory of the row and on
nothing else; and opening it finds the row.
-/

set_option autoImplicit false

namespace RemoteWorkspace.Analysis.Worktrees

open RemoteWorkspace.Computation.Calls
open RemoteWorkspace.Model.Anchors (AnchorRecord AnchorDraft)
open RemoteWorkspace.Model.AnchorCalls (adoptDraft nameOf)
open RemoteWorkspace.Model.AnchorIds RemoteWorkspace.Model.Stores RemoteWorkspace.Model.Worktrees
open RemoteWorkspace.Analysis.AnchorIds

/-! ### What a call may act on -/

/-- Two node ids name one machine; all ids of this host do. -/
def SameMachine (w : World) (nodeId other : String) : Prop :=
  nodeId = other ∨ w.isLocalNode nodeId = true ∧ w.isLocalNode other = true

/-- Two entries show one checkout or directory. -/
structure SameRow (w : World) (row other : Entry) : Prop where
  machine : SameMachine w row.nodeId other.nodeId
  repoPath : row.repoPath = other.repoPath
  path : row.remoteRoot = other.remoteRoot
  kind : row.kind = .directory ↔ other.kind = .directory

/-- What is asked of a machine, or of this host (`none`), is asked where the row is. -/
def OnMachine (w : World) (row : Entry) (machine : Option String) : Prop :=
  machine = some row.nodeId ∨ machine = none ∧ w.isLocalNode row.nodeId = true

/-- The act is on the checkout or directory of the row; a branch is the one that `list` shows
for it. -/
def About (w : World) (s : Host) (row : Entry) : Act → Prop
  | .register anchor => SameRow w row anchor
  | .unregister anchor => SameRow w row anchor
  | .record anchor => SameRow w row anchor
  | .drop anchor => SameRow w row anchor
  | .worktreeAdd _ _ _ _ => False
  | .worktreeRemove machine repoPath worktreePath =>
    OnMachine w row machine ∧ repoPath = row.repoPath ∧ worktreePath = row.remoteRoot
  | .branchDelete machine repoPath branch =>
    OnMachine w row machine ∧ repoPath = row.repoPath ∧
      ∃ status ∈ list w s, SameRow w row status.anchor ∧ branchOf status.anchor = branch

/-- What was done since a state. -/
def newActs (s t : Host) : List Act := t.acts.drop s.acts.length

/-- Between the two states nothing was done but on the row: each act is about it, every other
anchor is held as it was, and so is every repository record. -/
structure Confined (w : World) (s : Host) (row : Entry) (t : Host) : Prop where
  history : s.acts <+: t.acts
  about : ∀ act ∈ newActs s t, About w s row act
  anchors : ∀ anchor, ¬ SameRow w row (entryOf anchor) → (anchor ∈ t.anchors ↔ anchor ∈ s.anchors)
  repos : t.repos = s.repos

/-- What a call that answers has done: it registered the row's workspace, or dropped it and the
record, or removed the checkout. -/
def Acted (w : World) (answer : Entry) (acts : List Act) : RowCall → Prop
  | .openEntry => .register answer ∈ acts
  | .close => w.workspace.isSome = true → .unregister answer ∈ acts
  | .release => (w.workspace.isSome = true → .unregister answer ∈ acts) ∧
      (¬ IsLocalId answer.anchorId → .drop answer ∈ acts)
  | .remove _ => ∃ machine, .worktreeRemove machine answer.repoPath answer.remoteRoot ∈ acts

/-- A refusal for want of finding the row. -/
def NotFound (e : Failure) : Prop :=
  (∃ anchorId, e = .noWorktree anchorId ∨ e = .noAnchor anchorId) ∨
    (∃ path repoPath, e = .notAWorktreeOf path repoPath) ∨ ∃ path, e = .noLocalCheckout path

section Confined

variable {w : World} {s t : Host} {row e : Entry} {act : Act}

/-- An entry shows what it shows. -/
theorem SameRow.refl (w : World) (row : Entry) : SameRow w row row :=
  ⟨.inl rfl, rfl, rfl, Iff.rfl⟩

/-- What was done, after one more act. -/
theorem newActs_did (h : s.acts <+: t.acts) : newActs s (t.did act) = newActs s t ++ [act] := by
  unfold newActs
  rw [did_acts, List.drop_append_of_le_length h.length_le]

/-- Nothing was done yet. -/
theorem Confined.refl (w : World) (s : Host) (row : Entry) : Confined w s row s := by
  refine ⟨List.prefix_refl _, fun act hact => ?_, fun _ _ => Iff.rfl, rfl⟩
  rw [newActs, List.drop_length] at hact
  cases hact

/-- One more act on the row. -/
theorem Confined.did (h : Confined w s row t) (hact : About w s row act) :
    Confined w s row (t.did act) := by
  refine ⟨h.history.trans (List.prefix_append _ _), fun other hother => ?_, h.anchors, h.repos⟩
  rw [newActs_did h.history, List.mem_append, List.mem_singleton] at hother
  rcases hother with hother | rfl
  · exact h.about other hother
  · exact hact

/-- The row is recorded. -/
theorem Confined.hold (h : Confined w s row t) {record : AnchorRecord}
    (hrecord : SameRow w row (entryOf record)) : Confined w s row (t.hold record) := by
  refine ⟨h.history, h.about, fun anchor hanchor => ?_, h.repos⟩
  rw [hold_anchors, List.mem_append, List.mem_singleton, ← h.anchors anchor hanchor]
  refine or_iff_left ?_
  rintro rfl
  exact hanchor hrecord

/-- The record of the row is dropped. -/
theorem Confined.forget (h : Confined w s row t) {anchorId : String}
    (hid : ∀ anchor ∈ t.anchors, anchor.anchorId = anchorId → SameRow w row (entryOf anchor)) :
    Confined w s row (t.forget anchorId) := by
  refine ⟨h.history, h.about, fun anchor hanchor => ?_, h.repos⟩
  rw [forget_anchors, List.mem_filter, ← h.anchors anchor hanchor]
  refine and_iff_left_of_imp fun hmem => ?_
  exact decide_eq_true fun heq => hanchor (hid anchor hmem heq)

/-- The workspace registry was asked about the row, if there is one. -/
theorem Confined.asked (h : Confined w s row t) (hact : About w s row act) :
    Confined w s row (asked w t act) := by
  unfold Worktrees.asked
  split
  · exact h.did hact
  · exact h

/-- What was done stays done. -/
theorem mem_newActs_did (h : s.acts <+: t.acts) {other : Act} (hother : other ∈ newActs s t) :
    other ∈ newActs s (t.did act) := by
  rw [newActs_did h]
  exact List.mem_append_left _ hother

/-- An act is among what was done. -/
theorem mem_newActs_self (h : s.acts <+: t.acts) : act ∈ newActs s (t.did act) := by
  rw [newActs_did h]
  exact List.mem_append_right _ (List.mem_singleton_self _)

/-- Asking the registry undoes nothing. -/
theorem mem_newActs_asked (h : s.acts <+: t.acts) {other : Act} (hother : other ∈ newActs s t) :
    other ∈ newActs s (Worktrees.asked w t act) := by
  unfold Worktrees.asked
  split
  · exact mem_newActs_did h hother
  · exact hother

/-- What the world answers is no want of the row. -/
theorem notFound_outside (message : String) : ¬ NotFound (.outside message) := by
  simp [NotFound]

/-! ### The pieces of a call -/

/-- Opening the row's entry. -/
theorem confined_openAsWorkspace (h : Confined w s row t) (he : SameRow w row e) :
    Ends (openAsWorkspace w e) t
      (fun answer u => Confined w s row u ∧ answer = e ∧ .register e ∈ newActs s u)
      fun failure u => Confined w s row u ∧ u.anchors = t.anchors ∧ ¬ NotFound failure := by
  rw [ends_openAsWorkspace]
  refine ⟨fun _ => ⟨h, rfl, by simp [NotFound]⟩,
    fun workspace _ => ⟨fun _ => ?_, fun message _ => ?_⟩⟩
  · exact ⟨h.did he, rfl, mem_newActs_self h.history⟩
  · exact ⟨h.did he, rfl, notFound_outside message⟩

/-- Dropping the workspace of the row's entry. -/
theorem confined_unregister (h : Confined w s row t) (he : SameRow w row e) :
    Ends (unregister w e) t
      (fun _ u => Confined w s row u ∧ u.anchors = t.anchors ∧
        (w.workspace.isSome = true → .unregister e ∈ newActs s u))
      fun _ u => Confined w s row u := by
  rw [ends_unregister]
  refine ⟨fun hnone => ⟨h, rfl, fun hsome => ?_⟩, fun workspace _ => ⟨fun _ => ?_, fun _ _ => ?_⟩⟩
  · rw [hnone] at hsome
    cases hsome
  · exact ⟨h.did he, rfl, fun _ => mem_newActs_self h.history⟩
  · exact h.did he

/-- Dropping the row's record. -/
theorem confined_removeAnchor (h : Confined w s row t) (record : AnchorRecord)
    (hget : getAnchor t record.anchorId = some record)
    (hid : ∀ anchor ∈ t.anchors, anchor.anchorId = record.anchorId →
      SameRow w row (entryOf anchor)) :
    Ends (removeAnchor w record.anchorId) t
      (fun _ u => Confined w s row u ∧ .drop (entryOf record) ∈ newActs s u ∧
        ∀ act ∈ newActs s t, act ∈ newActs s u)
      fun failure u => Confined w s row u ∧ ¬ NotFound failure := by
  have hmem : record ∈ t.anchors := List.mem_of_find?_eq_some hget
  have hdrop : Confined w s row (t.did (.drop (entryOf record))) := h.did (hid record hmem rfl)
  rw [ends_removeAnchor, hget]
  refine ⟨fun hnone => (by cases hnone), fun other hother => ?_⟩
  obtain rfl := Option.some.inj hother
  refine ⟨fun _ => ⟨hdrop.forget hid, mem_newActs_self h.history, fun act hact => ?_⟩,
    fun message _ => ⟨hdrop, notFound_outside message⟩⟩
  exact mem_newActs_did h.history hact

/-- Reporting on the row's branch. -/
theorem confined_dropBranchOrReport (h : Confined w s row t) {anchor : Entry}
    {options : RemoveOptions} {answer : Except String Unit} (hact : About w s row act) :
    Ends (dropBranchOrReport anchor options act answer) t
      (fun removal u => Confined w s row u ∧ removal.anchor = anchor ∧
        ∀ other ∈ newActs s t, other ∈ newActs s u)
      fun _ u => Confined w s row u := by
  rw [ends_dropBranchOrReport]
  refine ⟨fun _ => ⟨h, rfl, fun _ hother => hother⟩, fun _ => ⟨fun _ => ?_, fun _ _ => ?_⟩⟩
  · exact ⟨h.did hact, rfl, fun _ hother => mem_newActs_did h.history hother⟩
  · exact ⟨h.did hact, rfl, fun _ hother => mem_newActs_did h.history hother⟩

end Confined

/-! ### Rows and their look-ups -/

/-- Which ids of this host an entry has. -/
def localKind (e : Entry) : LocalKind := if e.kind = .directory then .directory else .worktree

/-- A row of this host: its id is derived from what it shows. -/
structure LocalRow (w : World) (e : Entry) : Prop where
  machine : w.isLocalNode e.nodeId = true
  path : e.anchorPath = e.remoteRoot
  anchorId : e.anchorId = localAnchorId (localKind e) e.remoteRoot e.repoPath
  directory : e.kind = .directory → e.repoPath = e.remoteRoot

/-- A row of a machine's git: nothing holds it, and git lists it. -/
structure DiscoveredRow (w : World) (s : Host) (e : Entry) : Prop where
  anchorId : e.anchorId = remoteAnchorId e.nodeId e.repoPath e.remoteRoot
  worktree : e.kind ≠ .directory
  free : heldRemote s ⟨e.nodeId, e.repoPath, e.remoteRoot⟩ = none
  listed : ∃ listed, listExisting w s e.nodeId e.repoPath = .ok listed ∧
    ∃ entry ∈ listed, entry.path = e.remoteRoot

section Rows

variable {w : World} {s : Host} {e : Entry}

/-- The entry of a row's status. -/
@[simp]
theorem rowStatus_anchor (w : World) (e : Entry) (offline : Option String) :
    (rowStatus w e offline).anchor = e := by
  unfold rowStatus
  split
  · rfl
  · split <;> rfl

/-- A checkout is no directory. -/
theorem entryOf_kind (record : AnchorRecord) :
    (entryOf record).kind = .directory ↔ record.kind = .directory := by
  unfold entryOf
  cases record.kind with
  | worktree branch origin => simp
  | directory => simp

/-- The rows of this host. -/
theorem localRow_of_mem {status : WorktreeStatus} (h : status ∈ localStatuses w s) :
    LocalRow w status.anchor := by
  obtain ⟨repo, hrepo, hstatus⟩ := List.mem_flatMap.mp h
  have hlocal : w.isLocalNode repo.nodeId = true := (List.mem_filter.mp hrepo).2
  rcases List.mem_cons.mp hstatus with rfl | hstatus
  · rw [rowStatus_anchor]
    exact ⟨hlocal, rfl, rfl, fun _ => rfl⟩
  · obtain ⟨checkout, -, rfl⟩ := List.mem_map.mp hstatus
    rw [rowStatus_anchor]
    exact ⟨hlocal, rfl, rfl, fun h => by cases h⟩

/-- Two rows of this host with one id show one checkout or directory. -/
theorem LocalRow.sameRow {other : Entry} (he : LocalRow w e) (hother : LocalRow w other)
    (hid : other.anchorId = e.anchorId) : SameRow w e other := by
  rw [he.anchorId, hother.anchorId, localAnchorId_inj] at hid
  obtain ⟨hkind, hpath, hrepo⟩ := hid
  have hdirectory : e.kind = .directory ↔ other.kind = .directory := by
    unfold localKind at hkind
    by_cases h : e.kind = .directory
    · by_cases h' : other.kind = .directory
      · exact iff_of_true h h'
      · rw [if_pos h, if_neg h'] at hkind
        cases hkind
    · by_cases h' : other.kind = .directory
      · rw [if_neg h, if_pos h'] at hkind
        cases hkind
      · exact iff_of_false h h'
  refine ⟨.inr ⟨he.machine, hother.machine⟩, ?_, hpath.symm, hdirectory⟩
  by_cases h : e.kind = .directory
  · rw [he.directory h, hother.directory (hdirectory.mp h), hpath]
  · refine (hrepo ?_).symm
    rw [localKind, if_neg fun h' => h (hdirectory.mpr h')]

/-- The id of a row of this host finds it. -/
theorem localEntry_of_mem {status : WorktreeStatus} (h : status ∈ localStatuses w s) :
    ∃ found ∈ localStatuses w s, localEntry w s status.anchor.anchorId = some found.anchor ∧
      SameRow w status.anchor found.anchor := by
  unfold localEntry
  cases hfind : (localStatuses w s).find?
      (fun other => decide (other.anchor.anchorId = status.anchor.anchorId)) with
  | none => exact absurd (decide_eq_true rfl) (List.find?_eq_none.mp hfind status h)
  | some found =>
    have hmem := List.mem_of_find?_eq_some hfind
    have hid : found.anchor.anchorId = status.anchor.anchorId := by
      simpa using List.find?_some hfind
    exact ⟨found, hmem, rfl, (localRow_of_mem h).sameRow (localRow_of_mem hmem) hid⟩

/-- The id of a held record finds it, when no other record has it. -/
theorem getAnchor_of_mem (hnodup : (s.anchors.map AnchorRecord.anchorId).Nodup)
    {record : AnchorRecord} (h : record ∈ s.anchors) :
    getAnchor s record.anchorId = some record := by
  unfold getAnchor
  cases hfind : s.anchors.find? (fun anchor => decide (anchor.anchorId = record.anchorId)) with
  | none => exact absurd (decide_eq_true rfl) (List.find?_eq_none.mp hfind record h)
  | some found =>
    have hid : found.anchorId = record.anchorId := by simpa using List.find?_some hfind
    exact congrArg some (List.inj_on_of_nodup_map hnodup (List.mem_of_find?_eq_some hfind) h hid)

/-- What is held for a checkout is an anchor of it. -/
theorem heldRemote_spec {c : Coordinates} {held : AnchorRecord} (h : heldRemote s c = some held) :
    held ∈ s.anchors ∧ held.kind ≠ .directory ∧ held.nodeId = c.nodeId ∧
      held.repoPath = c.repoPath ∧ held.remoteRoot = c.path := by
  unfold heldRemote at h
  refine ⟨List.mem_of_find?_eq_some h, ?_⟩
  simpa using List.find?_some h

/-- The rows of the machines' git. -/
theorem discoveredRow_of_mem {status : WorktreeStatus}
    (h : status ∈ discoveredRemote w s (heldKeys s)) : DiscoveredRow w s status.anchor := by
  obtain ⟨repo, -, hstatus⟩ := List.mem_flatMap.mp h
  obtain ⟨checkout, hcheckout, rfl⟩ := List.mem_map.mp hstatus
  obtain ⟨hmem, hfree⟩ := List.mem_filter.mp hcheckout
  have hkey := of_decide_eq_true hfree
  refine ⟨rfl, fun h => (by cases h), ?_, ?_⟩
  · change heldRemote s ⟨repo.nodeId, repo.repoPath, checkout.path⟩ = none
    cases hheld : heldRemote s ⟨repo.nodeId, repo.repoPath, checkout.path⟩ with
    | none => rfl
    | some held =>
      obtain ⟨hheldmem, hkind, hnode, -, hroot⟩ := heldRemote_spec hheld
      refine absurd (List.mem_map.mpr ⟨held, List.mem_filter.mpr ⟨hheldmem, ?_⟩, ?_⟩) hkey
      · exact decide_eq_true hkind
      · rw [hnode, hroot]
  · cases hlisted : listExisting w s repo.nodeId repo.repoPath with
    | error e =>
      rw [hlisted] at hmem
      cases hmem
    | ok listed =>
      rw [hlisted] at hmem
      exact ⟨listed, hlisted, checkout, hmem, rfl⟩

/-- Each checkout that git lists at the place of a row is shown with its branch. -/
theorem branch_shown {status : WorktreeStatus} (h : status ∈ discoveredRemote w s (heldKeys s))
    {listed : List ExistingWorktree}
    (hlisted : listExisting w s status.anchor.nodeId status.anchor.repoPath = .ok listed)
    {entry : ExistingWorktree} (hmem : entry ∈ listed) (hpath : entry.path = status.anchor.remoteRoot) :
    ∃ shown ∈ discoveredRemote w s (heldKeys s), SameRow w status.anchor shown.anchor ∧
      branchOf shown.anchor = entry.branch := by
  obtain ⟨repo, hrepo, hstatus⟩ := List.mem_flatMap.mp h
  obtain ⟨checkout, hcheckout, rfl⟩ := List.mem_map.mp hstatus
  obtain ⟨-, hfree⟩ := List.mem_filter.mp hcheckout
  have hlisted' : listExisting w s repo.nodeId repo.repoPath = .ok listed := hlisted
  have hsamePath : entry.path = checkout.path := hpath
  refine ⟨⟨remotePlaceholder repo.nodeId repo.repoPath entry.path entry.branch repo.createdAt,
    false, false, false, none⟩, List.mem_flatMap.mpr ⟨repo, hrepo, List.mem_map.mpr
      ⟨entry, List.mem_filter.mpr ⟨?_, ?_⟩, rfl⟩⟩, ⟨.inl rfl, rfl, hsamePath.symm, ?_⟩, rfl⟩
  · rw [hlisted']
    exact hmem
  · rw [hsamePath]
    exact hfree
  · exact iff_of_false (fun h => by cases h) fun h => by cases h

/-- Each row is one of this host, of a held record, or of a machine's git. -/
theorem mem_list {status : WorktreeStatus} : status ∈ list w s ↔
    status ∈ localStatuses w s ∨ (∃ record ∈ s.anchors, status = heldStatus w record) ∨
      status ∈ discoveredRemote w s (heldKeys s) := by
  unfold list
  rw [List.mem_append, List.mem_append, List.mem_map, or_assoc]
  simp only [eq_comm]

/-- The row of a held record shows it. -/
theorem heldStatus_anchor (record : AnchorRecord) :
    (heldStatus w record).anchor = entryOf record := by
  unfold heldStatus
  rw [rowStatus_anchor]

end Rows

/-! ### The calls -/

/-- How a call on a row is to end: what was done is confined to the row, an answer is the row's
entry and says what was done, and an opening that is refused has found the row. -/
def NamesRow (w : World) (s : Host) (row : Entry) (call : RowCall) (c : Call Entry) : Prop :=
  Ends c s
    (fun answer t => Confined w s row t ∧ SameRow w row answer ∧
      Acted w answer (newActs s t) call)
    fun e t => Confined w s row t ∧ (call = .openEntry → ¬ NotFound e)

section Calls

variable {w : World} {s : Host} {row e : Entry} {anchorId : String}

/-- Opening an entry of the row. -/
theorem namesRow_openAsWorkspace (he : SameRow w row e) :
    NamesRow w s row .openEntry (openAsWorkspace w e) := by
  refine (confined_openAsWorkspace (Confined.refl w s row) he).mono ?_ ?_
  · rintro answer t ⟨hconfined, rfl, hmem⟩
    exact ⟨hconfined, he, hmem⟩
  · rintro failure t ⟨hconfined, -, hfound⟩
    exact ⟨hconfined, fun _ => hfound⟩

/-- Narrowing an entry to a worktree first changes nothing: it is the entry itself that goes on,
or the call has refused before it did anything. -/
theorem namesRow_requireWorktree {options : RemoveOptions} {f : Entry → Call WorktreeRemoval}
    (h : NamesRow w s row (.remove options) (WorktreeRemoval.anchor <$> f e)) :
    NamesRow w s row (.remove options)
      (WorktreeRemoval.anchor <$> (attempt (requireWorktree e) >>= f)) := by
  unfold NamesRow at *
  rw [ends_map] at h
  rw [ends_map, ends_bind, ends_attempt]
  refine ⟨fun worktree hworktree => ?_, fun e _ => ⟨Confined.refl _ _ _, fun h => by cases h⟩⟩
  rw [requireWorktree] at hworktree
  split at hworktree
  · cases hworktree
  · obtain rfl := Except.ok.inj hworktree
    exact h

/-- Opening a row that its id finds. -/
theorem namesRow_openEntry (hparse : parseRemoteAnchorId anchorId = none)
    (hentry : entryById w s anchorId = some e) (he : SameRow w row e) :
    NamesRow w s row .openEntry (openEntry w anchorId) := by
  unfold NamesRow openEntry
  rw [hparse]
  dsimp only
  rw [ends_bind, ends_get, hentry]
  exact namesRow_openAsWorkspace he

/-- Closing a row that its id finds. -/
theorem namesRow_close (hentry : entryToClose w s anchorId = .ok e) (he : SameRow w row e) :
    NamesRow w s row .close (close w anchorId) := by
  unfold NamesRow close
  simp only [ends_bind, ends_get, hentry, attempt, ends_pure]
  refine (confined_unregister (Confined.refl w s row) he).mono ?_ ?_
  · rintro - t ⟨hconfined, -, hmem⟩
    exact ⟨hconfined, he, hmem⟩
  · exact fun _ t hconfined => ⟨hconfined, fun h => by cases h⟩

/-- Releasing a row of this host that its id finds. -/
theorem namesRow_release_local (hlocal : IsLocalId anchorId) (hid : IsLocalId e.anchorId)
    (hentry : entryToClose w s anchorId = .ok e) (he : SameRow w row e) :
    NamesRow w s row .release (release w anchorId) := by
  unfold NamesRow release
  simp only [ends_bind, ends_get, hentry, attempt, ends_pure, if_pos hlocal]
  refine (confined_unregister (Confined.refl w s row) he).mono ?_ ?_
  · rintro - t ⟨hconfined, -, hmem⟩
    exact ⟨hconfined, he, hmem, fun h => absurd hid h⟩
  · exact fun _ t hconfined => ⟨hconfined, fun h => by cases h⟩

/-- Releasing a held row that its id finds. -/
theorem namesRow_release_held {record : AnchorRecord} (hlocal : ¬ IsLocalId anchorId)
    (hentry : entryToClose w s anchorId = .ok (entryOf record))
    (hget : getAnchor s record.anchorId = some record)
    (hid : ∀ anchor ∈ s.anchors, anchor.anchorId = record.anchorId →
      SameRow w row (entryOf anchor)) :
    NamesRow w s row .release (release w anchorId) := by
  have he : SameRow w row (entryOf record) := hid record (List.mem_of_find?_eq_some hget) rfl
  unfold NamesRow release
  simp only [ends_bind, ends_get, hentry, attempt, ends_pure, if_neg hlocal]
  refine (confined_unregister (Confined.refl w s row) he).mono ?_ ?_
  · rintro - t ⟨hconfined, hanchors, hmem⟩
    have hget' : getAnchor t record.anchorId = some record := by
      unfold getAnchor at hget ⊢
      rw [hanchors]
      exact hget
    have hid' : ∀ anchor ∈ t.anchors, anchor.anchorId = record.anchorId →
        SameRow w row (entryOf anchor) := by
      rw [hanchors]
      exact hid
    refine (confined_removeAnchor hconfined record hget' hid').mono ?_ ?_
    · rintro - u ⟨hconfined, hdrop, hkeep⟩
      exact ⟨hconfined, he, fun hsome => hkeep _ (hmem hsome), fun _ => hdrop⟩
    · exact fun _ u hrefused => ⟨hrefused.1, fun h => by cases h⟩
  · exact fun _ t hconfined => ⟨hconfined, fun h => by cases h⟩

/-- Removing a checkout of this host. -/
theorem namesRow_removeLocalWorktree (options : RemoveOptions) (hrow : LocalRow w e)
    (he : SameRow w row e) (hlocal : w.isLocalNode row.nodeId = true)
    (hlist : ∃ status ∈ list w s, status.anchor = e) :
    NamesRow w s row (.remove options)
      (WorktreeRemoval.anchor <$> removeLocalWorktree w e options) := by
  have hremove : About w s row (.worktreeRemove none e.repoPath e.anchorPath) :=
    ⟨.inr ⟨rfl, hlocal⟩, he.repoPath.symm, hrow.path.trans he.path.symm⟩
  have hbranch : About w s row (.branchDelete none e.repoPath (branchOf e)) := by
    obtain ⟨status, hmem, rfl⟩ := hlist
    exact ⟨.inr ⟨rfl, hlocal⟩, he.repoPath.symm, status, hmem, he, rfl⟩
  have hdone := (Confined.refl w s row).did hremove
  have hasked : Confined w s row (asked w (s.did (.worktreeRemove none e.repoPath e.anchorPath))
      (.unregister e)) := hdone.asked he
  have hmem : Act.worktreeRemove none e.repoPath e.anchorPath ∈ newActs s
      (asked w (s.did (.worktreeRemove none e.repoPath e.anchorPath)) (.unregister e)) :=
    mem_newActs_asked hdone.history (mem_newActs_self (List.prefix_refl _))
  unfold NamesRow removeLocalWorktree
  simp only [ends_map, ends_bind, ends_perform, ends_unregisterWorkspace]
  refine ⟨fun _ _ => (confined_dropBranchOrReport hasked hbranch).mono ?_ ?_,
    fun _ _ => ⟨hdone, fun h => by cases h⟩⟩
  · rintro removal t ⟨hconfined, hanchor, hkeep⟩
    rw [hanchor]
    refine ⟨hconfined, he, none, ?_⟩
    rw [← hrow.path]
    exact hkeep _ hmem
  · exact fun _ t hconfined => ⟨hconfined, fun h => by cases h⟩

/-- Removing a held checkout. -/
theorem namesRow_removeRemote (options : RemoveOptions) {record : AnchorRecord}
    (hget : getAnchor s record.anchorId = some record)
    (hid : ∀ anchor ∈ s.anchors, anchor.anchorId = record.anchorId →
      SameRow w row (entryOf anchor))
    (hmachine : row.nodeId = record.nodeId) (hlist : ∃ status ∈ list w s, status.anchor = entryOf record) :
    NamesRow w s row (.remove options)
      (WorktreeRemoval.anchor <$> removeRemote w (entryOf record) options) := by
  have he : SameRow w row (entryOf record) := hid record (List.mem_of_find?_eq_some hget) rfl
  have hon : OnMachine w row (some record.nodeId) := .inl (by rw [hmachine])
  have hremove : About w s row
      (.worktreeRemove (some record.nodeId) record.repoPath record.remoteRoot) :=
    ⟨hon, he.repoPath.symm, he.path.symm⟩
  have hbranch : About w s row
      (.branchDelete (some record.nodeId) record.repoPath (branchOf (entryOf record))) := by
    obtain ⟨status, hmem, hstatus⟩ := hlist
    exact ⟨hon, he.repoPath.symm, status, hmem, hstatus ▸ he, hstatus ▸ rfl⟩
  have hdone := (Confined.refl w s row).did hremove
  have hasked : Confined w s row (asked w (s.did (.worktreeRemove (some record.nodeId)
      record.repoPath record.remoteRoot)) (.unregister (entryOf record))) := hdone.asked he
  have hmem : Act.worktreeRemove (some record.nodeId) record.repoPath record.remoteRoot ∈
      newActs s (asked w (s.did (.worktreeRemove (some record.nodeId) record.repoPath
        record.remoteRoot)) (.unregister (entryOf record))) :=
    mem_newActs_asked hdone.history (mem_newActs_self (List.prefix_refl _))
  have hdrop := confined_removeAnchor hasked record
    (by unfold getAnchor at hget ⊢; rw [asked_anchors]; exact hget)
    (by rw [asked_anchors]; exact hid)
  unfold NamesRow removeRemote
  simp only [ends_map, ends_bind, ends_channelFor, ends_perform, ends_unregisterWorkspace]
  refine ⟨fun _ => ⟨fun _ _ => hdrop.mono ?_ ?_, fun _ _ => ⟨hdone, fun h => by cases h⟩⟩,
    fun _ => ⟨Confined.refl w s row, fun h => by cases h⟩⟩
  · rintro - t ⟨hconfined, -, hkeep⟩
    refine (confined_dropBranchOrReport hconfined hbranch).mono ?_ ?_
    · rintro removal u ⟨hconfined, hanchor, hkeep'⟩
      rw [hanchor]
      exact ⟨hconfined, he, some record.nodeId, hkeep' _ (hkeep _ hmem)⟩
    · exact fun _ u hconfined => ⟨hconfined, fun h => by cases h⟩
  · exact fun _ t hrefused => ⟨hrefused.1, fun h => by cases h⟩

/-- Recording the row and opening it, which takes the record back when it is refused. -/
theorem confined_recordAndOpen (draft : AnchorDraft)
    (hsame : SameRow w row (entryOf (recordOf w draft)))
    (hnew : getAnchor s w.anchorUUID = none) :
    Ends (do
      let anchor ← createAnchor w draft
      openOrDrop w anchor (openAsWorkspace w (entryOf anchor))) s
      (fun answer t => Confined w s row t ∧ SameRow w row answer ∧
        .register answer ∈ newActs s t)
      fun failure t => Confined w s row t ∧ ¬ NotFound failure := by
  have hdid : Confined w s row (s.did (.record (entryOf (recordOf w draft)))) :=
    (Confined.refl w s row).did hsame
  have hrecorded : Confined w s row (recorded w s draft) := hdid.hold hsame
  have hget : getAnchor (recorded w s draft) (recordOf w draft).anchorId =
      some (recordOf w draft) := getAnchor_hold hnew
  have hid : ∀ anchor ∈ (recorded w s draft).anchors,
      anchor.anchorId = (recordOf w draft).anchorId → SameRow w row (entryOf anchor) := by
    intro anchor hmem heq
    rcases List.mem_append.mp hmem with hmem | hmem
    · exact absurd (decide_eq_true heq) (List.find?_eq_none.mp hnew anchor hmem)
    · obtain rfl := List.mem_singleton.mp hmem
      exact hsame
  rw [ends_bind, ends_createAnchor]
  refine ⟨fun _ => ⟨Confined.refl w s row, by simp [NotFound]⟩, fun _ => ⟨fun _ => ?_,
    fun message _ => ⟨hdid, notFound_outside message⟩⟩⟩
  rw [ends_openOrDrop]
  refine (confined_openAsWorkspace hrecorded hsame).mono ?_ ?_
  · rintro answer t ⟨hconfined, rfl, hregister⟩
    exact ⟨hconfined, hsame, hregister⟩
  · rintro failure t ⟨hconfined, hanchors, hfound⟩
    rw [← hanchors] at hid
    refine (confined_removeAnchor hconfined (recordOf w draft) ?_ hid).mono ?_ ?_
    · unfold getAnchor at hget ⊢
      rw [hanchors]
      exact hget
    · exact fun _ u hback => ⟨hback.1, hfound⟩
    · exact fun _ u hrefused => hrefused

/-- Adopting a checkout that git lists and nothing holds. -/
theorem namesRow_adoptRemote (hrow : DiscoveredRow w s row)
    (hnew : getAnchor s w.anchorUUID = none) :
    NamesRow w s row .openEntry
      (adoptRemote w ⟨row.nodeId, row.repoPath, row.remoteRoot⟩) := by
  obtain ⟨listed, hlisted, entry, hmem, hpath⟩ := hrow.listed
  unfold NamesRow adoptRemote
  rw [ends_bind, ends_get, ends_bind]
  simp only [hlisted, attempt, ends_pure]
  cases hfind : listed.find? (fun candidate => decide (candidate.path = row.remoteRoot)) with
  | none => exact absurd (decide_eq_true hpath) (List.find?_eq_none.mp hfind entry hmem)
  | some found =>
    rw [hrow.free]
    dsimp only
    have hsame : SameRow w row
        (entryOf (recordOf w (adoptDraft row.nodeId row.repoPath row.remoteRoot found.branch))) :=
      ⟨.inl rfl, rfl, rfl, iff_of_false hrow.worktree fun h => by cases h⟩
    refine (confined_recordAndOpen _ hsame hnew).mono ?_ ?_
    · exact fun answer t h => h
    · exact fun failure t h => ⟨h.1, fun _ => h.2⟩

/-- Removing a checkout that git lists and nothing holds. -/
theorem namesRow_removeDiscovered (options : RemoveOptions) (hrow : DiscoveredRow w s row)
    (hlist : ∀ listed, listExisting w s row.nodeId row.repoPath = .ok listed →
      ∀ entry ∈ listed, entry.path = row.remoteRoot →
        ∃ status ∈ list w s, SameRow w row status.anchor ∧ branchOf status.anchor = entry.branch) :
    NamesRow w s row (.remove options) (WorktreeRemoval.anchor <$>
      removeDiscovered w ⟨row.nodeId, row.repoPath, row.remoteRoot⟩ options) := by
  unfold NamesRow removeDiscovered
  rw [ends_map, ends_bind, ends_get, ends_bind, ends_attempt]
  refine ⟨fun listed hlisted => ?_, fun _ _ => ⟨Confined.refl w s row, fun h => by cases h⟩⟩
  cases hfind : listed.find? (fun candidate => decide (candidate.path = row.remoteRoot)) with
  | none => exact ⟨Confined.refl w s row, fun h => by cases h⟩
  | some found =>
    have hpath : found.path = row.remoteRoot := by simpa using List.find?_some hfind
    have hremove : About w s row
        (.worktreeRemove (some row.nodeId) row.repoPath row.remoteRoot) := ⟨.inl rfl, rfl, rfl⟩
    have hbranch : About w s row (.branchDelete (some row.nodeId) row.repoPath found.branch) :=
      ⟨.inl rfl, rfl, hlist listed hlisted found (List.mem_of_find?_eq_some hfind) hpath⟩
    have hdone := (Confined.refl w s row).did hremove
    have hmem : Act.worktreeRemove (some row.nodeId) row.repoPath row.remoteRoot ∈ newActs s
        (s.did (.worktreeRemove (some row.nodeId) row.repoPath row.remoteRoot)) :=
      mem_newActs_self (List.prefix_refl _)
    have hsame : SameRow w row
        (remotePlaceholder row.nodeId row.repoPath row.remoteRoot found.branch w.now) :=
      ⟨.inl rfl, rfl, rfl, iff_of_false hrow.worktree fun h => by cases h⟩
    simp only [ends_bind, ends_channelFor, ends_perform, ends_ite, ends_pure]
    refine ⟨fun _ => ⟨fun _ _ => ⟨fun _ => ⟨hdone, hsame, some row.nodeId, hmem⟩, fun _ => ?_⟩,
      fun _ _ => ⟨hdone, fun h => by cases h⟩⟩,
      fun _ => ⟨Confined.refl w s row, fun h => by cases h⟩⟩
    refine (confined_dropBranchOrReport hdone hbranch).mono ?_ ?_
    · rintro removal u ⟨hconfined, hanchor, hkeep⟩
      rw [hanchor]
      exact ⟨hconfined, hsame, some row.nodeId, hkeep _ hmem⟩
    · exact fun _ u hconfined => ⟨hconfined, fun h => by cases h⟩

/-- A call on a row of this host. -/
theorem namesRow_local {status : WorktreeStatus} (h : status ∈ localStatuses w s) (call : RowCall) :
    NamesRow w s status.anchor call (runRowCall w status.anchor.anchorId call) := by
  obtain ⟨found, hmem, hentry, he⟩ := localEntry_of_mem h
  have hrow := localRow_of_mem h
  have hfound := localRow_of_mem hmem
  have hstart (e : Entry) (hrow : LocalRow w e) : IsLocalId e.anchorId := by
    rw [hrow.anchorId]
    exact prefix_localAnchorId _ _ _
  have hid := hstart _ hrow
  have hparse : parseRemoteAnchorId status.anchor.anchorId = none :=
    parseRemoteAnchorId_eq_none (not_both hid)
  have hby : entryById w s status.anchor.anchorId = some found.anchor := by
    rw [entryById, if_pos hid, hentry]
  have hclose : entryToClose w s status.anchor.anchorId = .ok found.anchor := by
    rw [entryToClose, hparse]
    dsimp only
    rw [hby]
  cases call with
  | openEntry => exact namesRow_openEntry hparse hby he
  | close => exact namesRow_close hclose he
  | release => exact namesRow_release_local hid (hstart _ hfound) hclose he
  | remove options =>
    change NamesRow w s status.anchor (.remove options)
      (WorktreeRemoval.anchor <$> remove w status.anchor.anchorId options)
    have hremoved := namesRow_removeLocalWorktree options hfound he hrow.machine
      ⟨found, mem_list.mpr (.inl hmem), rfl⟩
    have hrequired := namesRow_requireWorktree
      (f := fun worktree => removeLocalWorktree w worktree options) hremoved
    unfold NamesRow remove at *
    rw [ends_map] at hrequired
    rw [ends_map, ends_bind, ends_get, if_pos hid, hentry]
    exact hrequired

/-- A call on the row of a held record. -/
theorem namesRow_held {record : AnchorRecord} (h : record ∈ s.anchors)
    (huuid : IsUuid record.anchorId) (hnodup : (s.anchors.map AnchorRecord.anchorId).Nodup)
    (call : RowCall) :
    NamesRow w s (entryOf record) call (runRowCall w record.anchorId call) := by
  have hget := getAnchor_of_mem hnodup h
  have hlocal : ¬ IsLocalId record.anchorId := huuid.not_local
  have hparse : parseRemoteAnchorId record.anchorId = none :=
    parseRemoteAnchorId_eq_none huuid.not_remote
  have hid : ∀ anchor ∈ s.anchors, anchor.anchorId = record.anchorId →
      SameRow w (entryOf record) (entryOf anchor) := by
    intro anchor hmem heq
    obtain rfl := List.inj_on_of_nodup_map hnodup hmem h heq
    exact SameRow.refl w _
  have hby : entryById w s record.anchorId = some (entryOf record) := by
    rw [entryById, if_neg hlocal, hget]
    rfl
  have hclose : entryToClose w s record.anchorId = .ok (entryOf record) := by
    rw [entryToClose, hparse]
    dsimp only
    rw [hby]
  cases call with
  | openEntry => exact namesRow_openEntry hparse hby (SameRow.refl w _)
  | close => exact namesRow_close hclose (SameRow.refl w _)
  | release => exact namesRow_release_held hlocal hclose hget hid
  | remove options =>
    change NamesRow w s (entryOf record) (.remove options)
      (WorktreeRemoval.anchor <$> remove w record.anchorId options)
    have hremoved := namesRow_removeRemote options hget hid rfl
      ⟨heldStatus w record, mem_list.mpr (.inr (.inl ⟨record, h, rfl⟩)), heldStatus_anchor record⟩
    have hrequired := namesRow_requireWorktree
      (f := fun worktree => removeRemote w worktree options) hremoved
    unfold NamesRow remove at *
    rw [ends_map] at hrequired
    rw [ends_map, ends_bind, ends_get, if_neg hlocal, hparse]
    dsimp only
    rw [hget]
    exact hrequired

/-- A call on a row of a machine's git. -/
theorem namesRow_discovered {status : WorktreeStatus}
    (h : status ∈ discoveredRemote w s (heldKeys s)) (hnew : getAnchor s w.anchorUUID = none)
    (call : RowCall) :
    NamesRow w s status.anchor call (runRowCall w status.anchor.anchorId call) := by
  have hrow := discoveredRow_of_mem h
  have hparse : parseRemoteAnchorId status.anchor.anchorId =
      some ⟨status.anchor.nodeId, status.anchor.repoPath, status.anchor.remoteRoot⟩ := by
    rw [hrow.anchorId, parseRemoteAnchorId_remoteAnchorId]
  have hlocal : ¬ IsLocalId status.anchor.anchorId := by
    intro hid
    refine not_both hid ?_
    rw [hrow.anchorId]
    exact prefix_remoteAnchorId _ _ _
  have hclose : entryToClose w s status.anchor.anchorId =
      .error (.noWorktree status.anchor.anchorId) := by
    rw [entryToClose, hparse]
    dsimp only
    rw [hrow.free]
    rfl
  cases call with
  | openEntry =>
    change NamesRow w s status.anchor .openEntry (openEntry w status.anchor.anchorId)
    unfold openEntry
    rw [hparse]
    exact namesRow_adoptRemote hrow hnew
  | close =>
    change NamesRow w s status.anchor .close (close w status.anchor.anchorId)
    unfold NamesRow close
    simp only [ends_bind, ends_get, hclose, attempt, ends_throw]
    exact ⟨Confined.refl _ _ _, fun h => by cases h⟩
  | release =>
    change NamesRow w s status.anchor .release (release w status.anchor.anchorId)
    unfold NamesRow release
    simp only [ends_bind, ends_get, hclose, attempt, ends_throw]
    exact ⟨Confined.refl _ _ _, fun h => by cases h⟩
  | remove options =>
    change NamesRow w s status.anchor (.remove options)
      (WorktreeRemoval.anchor <$> remove w status.anchor.anchorId options)
    have hremoved := namesRow_removeDiscovered options hrow
      fun listed hlisted entry hmem hpath => by
        obtain ⟨shown, hshown, hsame⟩ := branch_shown h hlisted hmem hpath
        exact ⟨shown, mem_list.mpr (.inr (.inr hshown)), hsame⟩
    unfold NamesRow remove at *
    rw [ends_map, ends_bind, ends_get, if_neg hlocal, hparse]
    dsimp only
    rw [hrow.free]
    rw [ends_map] at hremoved
    exact hremoved

end Calls

/-- What the store says of its ids: they are UUIDs, each of one record, and the next one is new. -/
structure StoredIds (w : World) (s : Host) : Prop where
  uuids : ∀ record ∈ s.anchors, IsUuid record.anchorId
  distinct : (s.anchors.map AnchorRecord.anchorId).Nodup
  next : getAnchor s w.anchorUUID = none

/-- The ids of rows name them. The coordinates are read off an id of a machine's git, derived ids
are told apart, and no id is in two families. So a call on the id of a row, in the state in which
`list` showed it, does nothing but on that row, whether it answers or refuses; when it answers it
has acted on the row, and an opening never refuses for want of finding it. -/
theorem ids_name_rows (w : World) (s : Host) (hids : StoredIds w s) :
    (∀ n r p, parseRemoteAnchorId (remoteAnchorId n r p) = some ⟨n, r, p⟩) ∧
    (∀ n r p n' r' p', remoteAnchorId n r p = remoteAnchorId n' r' p' ↔ n = n' ∧ r = r' ∧ p = p') ∧
    (∀ k p r k' p' r', localAnchorId k p r = localAnchorId k' p' r' ↔
      k = k' ∧ p = p' ∧ (k = .worktree → r = r')) ∧
    (∀ k p r n r' p', localAnchorId k p r ≠ remoteAnchorId n r' p') ∧
    (∀ record ∈ s.anchors, (∀ k p r, record.anchorId ≠ localAnchorId k p r) ∧
      ∀ n r p, record.anchorId ≠ remoteAnchorId n r p) ∧
    ∀ status ∈ list w s, ∀ call,
      (∀ answer t, (runRowCall w status.anchor.anchorId call).run s = .ok answer t →
        Confined w s status.anchor t ∧ SameRow w status.anchor answer ∧
          Acted w answer (newActs s t) call) ∧
      ∀ e t, (runRowCall w status.anchor.anchorId call).run s = .error e t →
        Confined w s status.anchor t ∧ (call = .openEntry → ¬ NotFound e) := by
  refine ⟨parseRemoteAnchorId_remoteAnchorId, fun _ _ _ _ _ _ => remoteAnchorId_inj,
    fun _ _ _ _ _ _ => localAnchorId_inj, fun k p r n r' p' heq => ?_, fun record hrecord => ?_,
    fun status hstatus call => ?_⟩
  · refine not_both (prefix_localAnchorId k p r) ?_
    rw [heq]
    exact prefix_remoteAnchorId n r' p'
  · have huuid := hids.uuids record hrecord
    refine ⟨fun k p r heq => huuid.not_local ?_, fun n r p heq => huuid.not_remote ?_⟩
    · rw [heq]
      exact prefix_localAnchorId k p r
    · rw [heq]
      exact prefix_remoteAnchorId n r p
  · refine ends_iff.mp ?_
    rcases mem_list.mp hstatus with hlocal | ⟨record, hrecord, rfl⟩ | hdiscovered
    · exact namesRow_local hlocal call
    · rw [heldStatus_anchor]
      exact namesRow_held hrecord (hids.uuids record hrecord) hids.distinct call
    · exact namesRow_discovered hdiscovered hids.next call

/-- A host with a repository of a machine, of which git lists one linked worktree. -/
def registeredHost : Host := ⟨[], [⟨"r1", "n1", "/srv/app", "app", "2026-01-01"⟩], []⟩

/-- The row of that worktree. -/
def loginRow : WorktreeStatus :=
  ⟨remotePlaceholder "n1" "/srv/app" "/srv/w/login" "login" "2026-01-01", false, false, false, none⟩

/-- Removing that worktree by its id does nothing but on its row. -/
theorem login_named :
    Ends (runRowCall grantingWorld loginRow.anchor.anchorId (.remove ⟨false, true⟩)) registeredHost
      (fun _ t => Confined grantingWorld registeredHost loginRow.anchor t)
      fun _ t => Confined grantingWorld registeredHost loginRow.anchor t := by
  have hrows : discoveredRemote grantingWorld registeredHost (heldKeys registeredHost) =
      [loginRow] := rfl
  have hrow : loginRow ∈ list grantingWorld registeredHost := by
    refine mem_list.mpr (.inr (.inr ?_))
    rw [hrows]
    exact List.mem_singleton_self loginRow
  have hids : StoredIds grantingWorld registeredHost :=
    ⟨fun record h => (by cases h), List.nodup_nil, rfl⟩
  obtain ⟨hanswer, hrefusal⟩ := (ids_name_rows grantingWorld registeredHost hids).2.2.2.2.2
    loginRow hrow (.remove ⟨false, true⟩)
  exact ends_iff.mpr ⟨fun answer t h => (hanswer answer t h).1, fun e t h => (hrefusal e t h).1⟩

end RemoteWorkspace.Analysis.Worktrees
