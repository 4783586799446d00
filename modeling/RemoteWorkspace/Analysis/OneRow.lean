import RemoteWorkspace.Analysis.RowIds

/-!
# One row for each checkout

The rows of `list` come from git on this host, from the held anchors, and from git on the
machines. Only the last of the three leaves a checkout out because it was shown before, and only
when it is spelled as the held anchor spells it. So a checkout has one row exactly when what is
listed and held names it once.

Where a path leads on a machine is a parameter: `place nodeId path` is the physical directory.
-/

set_option autoImplicit false

namespace RemoteWorkspace.Analysis.Worktrees

open RemoteWorkspace.Model.Anchors (AnchorRecord)
open RemoteWorkspace.Model.AnchorIds RemoteWorkspace.Model.Stores RemoteWorkspace.Model.Worktrees

variable {P : Type}

/-! ### What is to hold -/

/-- Two rows do not show one physical checkout of one node. -/
def Apart (place : String → String → P) (row other : Entry) : Prop :=
  row.kind ≠ .directory → other.kind ≠ .directory → row.nodeId = other.nodeId →
    place row.nodeId row.remoteRoot ≠ place other.nodeId other.remoteRoot

/-- At most one row of `list` for each physical checkout of each node. -/
def OneRowEach (w : World) (s : Host) (place : String → String → P) : Prop :=
  (list w s).Pairwise fun row other => Apart place row.anchor other.anchor

/-- The checkouts of a repository record that get rows from git: on this host the directories that
git lists, on a connected machine what is not spelled as a held anchor. -/
def shownIn (w : World) (s : Host) (repo : RepoRecord) : List String :=
  if w.isLocalNode repo.nodeId then (localCheckouts w repo.repoPath).map LocalWorktree.path
  else if w.connected repo.nodeId then
    (((listExisting w s repo.nodeId repo.repoPath).toOption.getD []).filter fun checkout =>
      decide (heldKey repo.nodeId checkout.path ∉ heldKeys s)).map ExistingWorktree.path
  else []

/-- What is listed and held names each checkout once: no two records of a node list a checkout
that is shown for both, no listing has one twice, no two anchors hold one, and none that is shown
from a listing is held (so none is held under another spelling). -/
structure NamedOnce (w : World) (s : Host) (place : String → String → P) : Prop where
  records : s.repos.Pairwise fun repo other => repo.nodeId = other.nodeId →
    ∀ path ∈ shownIn w s repo, ∀ path' ∈ shownIn w s other,
      place repo.nodeId path ≠ place other.nodeId path'
  listings : ∀ repo ∈ s.repos, ((shownIn w s repo).map (place repo.nodeId)).Nodup
  anchors : s.anchors.Pairwise fun anchor other => anchor.kind ≠ .directory →
    other.kind ≠ .directory → anchor.nodeId = other.nodeId →
      place anchor.nodeId anchor.remoteRoot ≠ place other.nodeId other.remoteRoot
  held : ∀ repo ∈ s.repos, ∀ path ∈ shownIn w s repo, ∀ anchor ∈ s.anchors,
    anchor.kind ≠ .directory → anchor.nodeId = repo.nodeId →
      place anchor.nodeId anchor.remoteRoot ≠ place repo.nodeId path

section Rows

variable {w : World} {s : Host} {place : String → String → P}

/-- The relation does not depend on which row comes first. -/
theorem apart_comm {row other : Entry} : Apart place row other ↔ Apart place other row := by
  unfold Apart
  constructor
  · exact fun h hother hrow hnode => (h hrow hother hnode.symm).symm
  · exact fun h hrow hother hnode => (h hother hrow hnode.symm).symm

/-- A directory's row shows no checkout. -/
theorem apart_of_directory {row other : Entry} (h : row.kind = .directory) :
    Apart place row other := fun hrow => absurd h hrow

/-- The rows that one repository record gets from git. -/
def gitRows (w : World) (s : Host) (repo : RepoRecord) : List WorktreeStatus :=
  if w.isLocalNode repo.nodeId then
    (localCheckouts w repo.repoPath).map fun checkout =>
      rowStatus w (localWorktreeAnchor repo checkout) none
  else if w.connected repo.nodeId then discoveredIn w s (heldKeys s) repo
  else []

/-- The checkouts of a record's rows are those that are shown for it. -/
theorem mem_gitRows {repo : RepoRecord} {status : WorktreeStatus} (h : status ∈ gitRows w s repo) :
    status.anchor.kind ≠ .directory ∧ status.anchor.nodeId = repo.nodeId ∧
      status.anchor.remoteRoot ∈ shownIn w s repo := by
  unfold gitRows at h
  unfold shownIn
  split_ifs at h ⊢ with hlocal hconnected
  · obtain ⟨checkout, hmem, rfl⟩ := List.mem_map.mp h
    rw [rowStatus_anchor]
    exact ⟨fun hkind => (by cases hkind), rfl, List.mem_map_of_mem hmem⟩
  · obtain ⟨checkout, hmem, rfl⟩ := List.mem_map.mp h
    exact ⟨fun hkind => (by cases hkind), rfl, List.mem_map_of_mem hmem⟩
  · cases h

/-- The rows of a record, by the paths of its checkouts. -/
theorem gitRows_paths (repo : RepoRecord) :
    (gitRows w s repo).map (fun status => status.anchor.remoteRoot) = shownIn w s repo := by
  unfold gitRows shownIn
  split_ifs
  · rw [List.map_map]
    refine List.map_congr_left fun checkout _ => ?_
    rw [Function.comp_apply, rowStatus_anchor]
    rfl
  · rw [discoveredIn, List.map_map]
    rfl
  · rfl

/-- The rows of one record are apart exactly when no checkout is listed twice. -/
theorem gitRows_pairwise (repo : RepoRecord) :
    ((gitRows w s repo).Pairwise fun row other => Apart place row.anchor other.anchor) ↔
      ((shownIn w s repo).map (place repo.nodeId)).Nodup := by
  rw [← gitRows_paths, List.map_map, List.nodup_iff_pairwise_ne, List.pairwise_map]
  refine List.Pairwise.iff_of_mem fun {row other} hrow hother => ?_
  obtain ⟨hkind, hnode, -⟩ := mem_gitRows hrow
  obtain ⟨hkind', hnode', -⟩ := mem_gitRows hother
  unfold Apart
  rw [hnode, hnode']
  constructor
  · exact fun h => h hkind hkind' rfl
  · exact fun h _ _ _ => h

/-- No checkout is shown for both of two records of one node. -/
def RecordsApart (w : World) (s : Host) (place : String → String → P) (repo other : RepoRecord) :
    Prop :=
  repo.nodeId = other.nodeId → ∀ path ∈ shownIn w s repo, ∀ path' ∈ shownIn w s other,
    place repo.nodeId path ≠ place other.nodeId path'

/-- The rows of two records are apart exactly when no checkout is shown for both. -/
theorem gitRows_apart (repo other : RepoRecord) :
    (∀ row ∈ gitRows w s repo, ∀ row' ∈ gitRows w s other, Apart place row.anchor row'.anchor) ↔
      RecordsApart w s place repo other := by
  constructor
  · intro h hnode path hpath path' hpath'
    rw [← gitRows_paths] at hpath hpath'
    obtain ⟨row, hrow, rfl⟩ := List.mem_map.mp hpath
    obtain ⟨row', hrow', rfl⟩ := List.mem_map.mp hpath'
    obtain ⟨hkind, hrownode, -⟩ := mem_gitRows hrow
    obtain ⟨hkind', hrownode', -⟩ := mem_gitRows hrow'
    have hapart := h row hrow row' hrow' hkind hkind'
    rw [hrownode, hrownode'] at hapart
    exact hapart hnode
  · intro h row hrow row' hrow' _ _ hnode
    obtain ⟨-, hrownode, hpath⟩ := mem_gitRows hrow
    obtain ⟨-, hrownode', hpath'⟩ := mem_gitRows hrow'
    rw [hrownode, hrownode'] at hnode ⊢
    exact h hnode _ hpath _ hpath'

/-- The rows of this host: each record's directory, and the checkouts that git lists. -/
theorem localStatuses_eq : localStatuses w s =
    (s.repos.filter fun repo => w.isLocalNode repo.nodeId).flatMap fun repo =>
      rowStatus w (localDirectoryAnchor repo) none :: gitRows w s repo := by
  unfold localStatuses
  refine List.flatMap_congr fun repo hrepo => ?_
  have hlocal : w.isLocalNode repo.nodeId = true := (List.mem_filter.mp hrepo).2
  rw [gitRows, if_pos hlocal]

/-- The rows of the machines' git. -/
theorem discoveredRemote_eq : discoveredRemote w s (heldKeys s) =
    (s.repos.filter fun repo => !w.isLocalNode repo.nodeId).flatMap (gitRows w s) := by
  unfold discoveredRemote
  induction s.repos with
  | nil => rfl
  | cons repo repos ih =>
    cases hlocal : w.isLocalNode repo.nodeId with
    | true => simpa [List.filter_cons, hlocal] using ih
    | false =>
      cases hconnected : w.connected repo.nodeId with
      | true =>
        have hrows : gitRows w s repo = discoveredIn w s (heldKeys s) repo := by
          simp [gitRows, hlocal, hconnected]
        simp [hlocal, hconnected, ih, hrows]
      | false =>
        have hrows : gitRows w s repo = [] := by simp [gitRows, hlocal, hconnected]
        simp [hlocal, hconnected, ih, hrows]

/-- The rows of this host are apart exactly when its records are, and each listing. -/
theorem localStatuses_pairwise :
    ((localStatuses w s).Pairwise fun row other => Apart place row.anchor other.anchor) ↔
      (∀ repo ∈ s.repos, w.isLocalNode repo.nodeId = true →
        ((shownIn w s repo).map (place repo.nodeId)).Nodup) ∧
      s.repos.Pairwise fun repo other => w.isLocalNode repo.nodeId = true →
        w.isLocalNode other.nodeId = true → RecordsApart w s place repo other := by
  have hdirectory (repo : RepoRecord) (other : Entry) :
      Apart place (rowStatus w (localDirectoryAnchor repo) none).anchor other := by
    rw [rowStatus_anchor]
    exact apart_of_directory rfl
  rw [localStatuses_eq, List.pairwise_flatMap, List.pairwise_filter]
  refine and_congr ?_ ?_
  · simp only [List.mem_filter, and_imp, List.pairwise_cons, gitRows_pairwise]
    refine forall₃_congr fun repo _ _ => ?_
    exact and_iff_right fun other _ => hdirectory repo other.anchor
  · refine iff_of_eq (congrArg (fun R => s.repos.Pairwise R) ?_)
    funext repo other
    refine propext (forall₂_congr fun _ _ => ?_)
    rw [← gitRows_apart]
    simp only [List.mem_cons, forall_eq_or_imp]
    constructor
    · exact fun h row hrow row' hrow' => (h.2 row hrow).2 row' hrow'
    · exact fun h => ⟨⟨hdirectory repo _, fun row _ => hdirectory repo row.anchor⟩, fun row hrow =>
        ⟨apart_comm.mp (hdirectory other row.anchor), fun row' hrow' => h row hrow row' hrow'⟩⟩

/-- The rows of the machines' git are apart exactly when their records are, and each listing. -/
theorem discoveredRemote_pairwise :
    ((discoveredRemote w s (heldKeys s)).Pairwise fun row other =>
        Apart place row.anchor other.anchor) ↔
      (∀ repo ∈ s.repos, w.isLocalNode repo.nodeId = false →
        ((shownIn w s repo).map (place repo.nodeId)).Nodup) ∧
      s.repos.Pairwise fun repo other => w.isLocalNode repo.nodeId = false →
        w.isLocalNode other.nodeId = false → RecordsApart w s place repo other := by
  rw [discoveredRemote_eq, List.pairwise_flatMap, List.pairwise_filter]
  simp only [List.mem_filter, and_imp, Bool.not_eq_true', gitRows_pairwise, gitRows_apart]

/-- The rows of held records are apart exactly when no two hold one checkout. -/
theorem heldRows_apart (anchor other : AnchorRecord) :
    Apart place (heldStatus w anchor).anchor (heldStatus w other).anchor ↔
      (anchor.kind ≠ .directory → other.kind ≠ .directory → anchor.nodeId = other.nodeId →
        place anchor.nodeId anchor.remoteRoot ≠ place other.nodeId other.remoteRoot) := by
  rw [heldStatus_anchor, heldStatus_anchor, Apart, Ne, entryOf_kind, Ne, entryOf_kind]
  rfl

/-- A checkout that a record shows is not held. -/
def FreeOf (s : Host) (place : String → String → P) (repo : RepoRecord) (path : String) : Prop :=
  ∀ anchor ∈ s.anchors, anchor.kind ≠ .directory → anchor.nodeId = repo.nodeId →
    place anchor.nodeId anchor.remoteRoot ≠ place repo.nodeId path

/-- The rows of a record are apart from those of held records exactly when none of its checkouts
is held. -/
theorem gitRows_held (repo : RepoRecord) :
    (∀ row ∈ gitRows w s repo, ∀ held ∈ s.anchors.map (heldStatus w),
      Apart place held.anchor row.anchor) ↔
      ∀ path ∈ shownIn w s repo, FreeOf s place repo path := by
  constructor
  · intro h path hpath anchor hanchor hkind hnode
    rw [← gitRows_paths] at hpath
    obtain ⟨row, hrow, rfl⟩ := List.mem_map.mp hpath
    obtain ⟨hrowkind, hrownode, -⟩ := mem_gitRows hrow
    have hapart := h row hrow _ (List.mem_map_of_mem hanchor)
    rw [heldStatus_anchor, Apart, hrownode] at hapart
    exact hapart (mt (entryOf_kind anchor).mp hkind) hrowkind hnode
  · intro h row hrow held hheld hkind _ hnode
    obtain ⟨anchor, hanchor, rfl⟩ := List.mem_map.mp hheld
    obtain ⟨-, hrownode, hpath⟩ := mem_gitRows hrow
    rw [heldStatus_anchor] at hkind hnode ⊢
    rw [hrownode] at hnode ⊢
    exact h _ hpath anchor hanchor (mt (entryOf_kind anchor).mpr hkind) hnode

/-- A row of this host is a directory's, or one that a record gets from git. -/
theorem mem_localStatuses {status : WorktreeStatus} (h : status ∈ localStatuses w s) :
    ∃ repo ∈ s.repos, w.isLocalNode repo.nodeId = true ∧ status.anchor.nodeId = repo.nodeId ∧
      (status.anchor.kind = .directory ∨ status ∈ gitRows w s repo) := by
  rw [localStatuses_eq] at h
  obtain ⟨repo, hrepo, hstatus⟩ := List.mem_flatMap.mp h
  obtain ⟨hmem, hlocal⟩ := List.mem_filter.mp hrepo
  rcases List.mem_cons.mp hstatus with rfl | hstatus
  · rw [rowStatus_anchor]
    exact ⟨repo, hmem, hlocal, rfl, .inl rfl⟩
  · exact ⟨repo, hmem, hlocal, (mem_gitRows hstatus).2.1, .inr hstatus⟩

/-- A row of the machines' git is one that a record gets. -/
theorem mem_discoveredRemote {status : WorktreeStatus} :
    status ∈ discoveredRemote w s (heldKeys s) ↔
      ∃ repo ∈ s.repos, w.isLocalNode repo.nodeId = false ∧ status ∈ gitRows w s repo := by
  rw [discoveredRemote_eq, List.mem_flatMap]
  simp only [List.mem_filter, Bool.not_eq_true', and_assoc]

/-- A row that a record of this host gets from git is one of this host. -/
theorem gitRows_local {repo : RepoRecord} (hmem : repo ∈ s.repos)
    (hlocal : w.isLocalNode repo.nodeId = true) {row : WorktreeStatus}
    (hrow : row ∈ gitRows w s repo) : row ∈ localStatuses w s := by
  rw [localStatuses_eq, List.mem_flatMap]
  exact ⟨repo, List.mem_filter.mpr ⟨hmem, hlocal⟩, List.mem_cons_of_mem _ hrow⟩

/-- A row of this host and a row of a machine's git are of different nodes. -/
theorem local_discovered_apart {row other : WorktreeStatus} (hrow : row ∈ localStatuses w s)
    (hother : other ∈ discoveredRemote w s (heldKeys s)) :
    Apart place row.anchor other.anchor := by
  obtain ⟨repo, -, hlocal, hnode, -⟩ := mem_localStatuses hrow
  obtain ⟨repo', -, hremote, hother'⟩ := mem_discoveredRemote.mp hother
  intro _ _ heq
  rw [hnode, (mem_gitRows hother').2.1] at heq
  rw [heq, hremote] at hlocal
  cases hlocal

end Rows

/-- Two records that belong to one git repository: the second is a linked worktree of the first. -/
def linkedRecords : Host :=
  ⟨[], [⟨"r1", "n1", "/srv/app", "app", "2026-01-01"⟩,
    ⟨"r2", "n1", "/srv/w/hotfix", "hotfix", "2026-01-01"⟩], []⟩

end RemoteWorkspace.Analysis.Worktrees
