import RemoteWorkspace.Analysis.PosixJoin
import RemoteWorkspace.Analysis.WorktreeEnds
import RemoteWorkspace.Computation.Fallible

/-!
# Directories that cannot be held side by side

The local directory of an anchor is derived from its machine, the base name of its repository and
its name. Two remote directories that agree in these get one local directory, and the second one
is refused: `create` finds that out when the checkout was already cut.
-/

set_option autoImplicit false

namespace RemoteWorkspace.Analysis.Worktrees

open RemoteWorkspace.Computation RemoteWorkspace.Computation.Calls
open RemoteWorkspace.Model.Anchors (AnchorRecord AnchorDraft DraftKind basename directorySegment)
open RemoteWorkspace.Model.AnchorCalls (adoptDraft directoryDraft nameOf)
open RemoteWorkspace.Model.AnchorIds
open RemoteWorkspace.Model.Stores RemoteWorkspace.Model.Worktrees
open RemoteWorkspace.Model.RepoRequests (find)
open RemoteWorkspace.Model.PosixPath (join normalize)
open RemoteWorkspace.Analysis.PosixSegments

/-! ### Derived paths -/

/-- Joining plain names onto a root writes them behind the root's segments. -/
theorem toList_join_names {root : String} {names : List String} (hroot : NormalizedRoot root)
    (hne : names ≠ []) (hnames : ∀ name ∈ names, Plain name.toList) :
    (join (root :: names)).toList =
      written (segments '/' root.toList ++ names.map String.toList) false := by
  obtain ⟨rest, hrest⟩ := hroot.canonical.absolute
  rw [toList_join hrest hnames, resolved_of_plain hroot.canonical.plain]
  simp only [hne, false_and, decide_false]

/-- Plain names behind a root are told apart by the joined path. -/
theorem join_names_inj {root : String} {names names' : List String} (hroot : NormalizedRoot root)
    (hne : names ≠ []) (hnames : ∀ name ∈ names, Plain name.toList)
    (hne' : names' ≠ []) (hnames' : ∀ name ∈ names', Plain name.toList) :
    join (root :: names) = join (root :: names') ↔ names = names' := by
  refine ⟨fun h => ?_, fun h => by rw [h]⟩
  have hplain {l : List String} (hl : ∀ name ∈ l, Plain name.toList) :
      ∀ t ∈ segments '/' root.toList ++ l.map String.toList, Plain t := by
    intro t ht
    rcases List.mem_append.mp ht with ht | ht
    · exact hroot.canonical.plain t ht
    · obtain ⟨name, hmem, rfl⟩ := List.mem_map.mp ht
      exact hl name hmem
  have hlists := congrArg String.toList h
  rw [toList_join_names hroot hne hnames, toList_join_names hroot hne' hnames'] at hlists
  have hsegments := congrArg (segments '/') hlists
  rw [segments_written (hplain hnames), segments_written (hplain hnames')] at hsegments
  have hmap := List.append_cancel_left hsegments
  exact List.map_injective_iff.mpr (fun a b hab => String.toList_inj.mp hab) hmap

/-- The segment of an anchor below its repository's: its name, or the one of directories. -/
def lastSegment (draft : AnchorDraft) : String :=
  match draft.kind with
  | .directory => directorySegment
  | .worktree _ _ => draft.name

/-- A draft whose machine, base name and name are plain segments. -/
structure PlainDraft (draft : AnchorDraft) : Prop where
  nodeId : Plain draft.nodeId.toList
  repository : Plain (basename draft.repoPath).toList
  name : Plain (lastSegment draft).toList

/-- Two drafts get one local directory exactly when they agree in the machine, in the base name of
the repository, and in the name. -/
theorem derived_path_eq_iff {root : String} (hroot : NormalizedRoot root) {draft other : AnchorDraft}
    (hdraft : PlainDraft draft) (hother : PlainDraft other) :
    Model.Anchors.anchorPath root draft = Model.Anchors.anchorPath root other ↔
      draft.nodeId = other.nodeId ∧ basename draft.repoPath = basename other.repoPath ∧
        lastSegment draft = lastSegment other := by
  have hnames {d : AnchorDraft} (hd : PlainDraft d) :
      ∀ name ∈ [d.nodeId, basename d.repoPath, lastSegment d], Plain name.toList := by
    intro name hmem
    simp only [List.mem_cons, List.not_mem_nil, or_false] at hmem
    rcases hmem with rfl | rfl | rfl
    · exact hd.nodeId
    · exact hd.repository
    · exact hd.name
  refine (join_names_inj hroot (List.cons_ne_nil _ _) (hnames hdraft) (List.cons_ne_nil _ _)
    (hnames hother)).trans ?_
  simp

/-! ### Refusals -/

/-- The call is refused because another anchor owns the derived directory. -/
def RefusedAsOwned {α : Type} (c : Call α) (s : Host) : Prop :=
  ∃ path t, c.run s = .error (.owned path) t

/-- A rejection for another reason than a directory that is owned. -/
def NotOwned (e : Failure) : Prop := ∀ path, e ≠ .owned path

/-- A held anchor has the directory that is derived from these. -/
def Taken (w : World) (s : Host) (nodeId repoPath name : String) : Prop :=
  ∃ anchor ∈ s.anchors, anchor.anchorPath = join [w.anchorRoot, nodeId, basename repoPath, name]

section Refusals

variable {α : Type} {w : World} {s : Host} {draft : AnchorDraft}

/-- A call is refused as owned when it does not always end otherwise. -/
theorem refusedAsOwned_iff {c : Call α} :
    RefusedAsOwned c s ↔ ¬ Ends c s (fun _ _ => True) fun e _ => NotOwned e := by
  unfold RefusedAsOwned Ends
  cases c.run s with
  | ok a t =>
    refine iff_of_false ?_ (not_not_intro trivial)
    rintro ⟨path, u, h⟩
    cases h
  | error e t =>
    constructor
    · rintro ⟨path, u, h⟩ hnot
      obtain ⟨rfl, -⟩ := EStateM.Result.error.inj h
      exact hnot path rfl
    · intro h
      by_contra hnone
      exact h fun path he => hnone ⟨path, t, by rw [he]⟩

/-- What the world answers is another reason. -/
theorem notOwned_outside (message : String) : NotOwned (.outside message) :=
  fun _ h => by cases h

/-- Opening something as a workspace is refused for other reasons. -/
theorem openAsWorkspace_notOwned (anchor : Entry) :
    Ends (openAsWorkspace w anchor) s (fun _ _ => True) fun e _ => NotOwned e := by
  rw [ends_openAsWorkspace]
  exact ⟨fun _ _ h => (by cases h),
    fun _ _ => ⟨fun _ => trivial, fun message _ => notOwned_outside message⟩⟩

/-- Opening a new anchor is refused for other reasons. -/
theorem openOrDrop_notOwned (record : AnchorRecord) :
    Ends (openOrDrop w record (openAsWorkspace w (entryOf record))) s (fun _ _ => True)
      fun e _ => NotOwned e := by
  have hback (e : Failure) (t : Host) (he : NotOwned e) :
      Ends (removeAnchor w record.anchorId) t (fun _ _ => NotOwned e) fun e _ => NotOwned e := by
    rw [ends_removeAnchor]
    exact ⟨fun _ => he, fun _ _ => ⟨fun _ => he, fun message _ => notOwned_outside message⟩⟩
  rw [ends_openOrDrop, ends_openAsWorkspace]
  exact ⟨fun _ => hback _ _ fun _ h => (by cases h), fun _ _ => ⟨fun _ => trivial,
    fun message _ => hback _ _ (notOwned_outside message)⟩⟩

/-- A creation on a machine is refused as owned exactly when the checkout was cut and the directory
is taken. -/
theorem createRemote_refused (draft : WorktreeDraft) : RefusedAsOwned (createRemote w draft) s ↔
    ∃ repoPath worktree, Cut w draft repoPath worktree ∧
      Taken w s draft.nodeId repoPath draft.name := by
  rw [refusedAsOwned_iff, not_iff_comm]
  unfold createRemote
  simp only [ends_bind, ends_channelFor, ends_outside, ends_perform, ends_createAnchor,
    ends_registerRepoIfUnknown, ends_registerWorkspace, ends_pure, implies_true, true_and]
  constructor
  · intro hfree
    refine ⟨fun hconnected => ⟨fun repoPath hresolve => ⟨fun worktree hadd => ⟨fun howned =>
      absurd ⟨repoPath, worktree, ⟨hconnected, hresolve, hadd⟩, howned⟩ hfree, fun _ => ⟨fun _ _
      message _ => notOwned_outside message, fun message _ => notOwned_outside message⟩⟩,
      fun message _ => notOwned_outside message⟩, fun message _ => notOwned_outside message⟩,
      fun _ _ h => (by cases h)⟩
  · rintro ⟨h, -⟩ ⟨repoPath, worktree, ⟨hconnected, hresolve, hadd⟩, htaken⟩
    exact (((h hconnected).1 repoPath hresolve).1 worktree hadd).1 htaken _ rfl

/-- A creation on a machine that is refused as owned has cut its checkout, and nothing else was
done. -/
theorem createRemote_cut (draft : WorktreeDraft) {path : String} {t : Host}
    (h : (createRemote w draft).run s = .error (.owned path) t) :
    ∃ repoPath worktree, Cut w draft repoPath worktree ∧
      t = s.did (.worktreeAdd (some draft.nodeId) repoPath (plannedPath w draft repoPath)
        (branchFor draft.name)) := by
  have hends : Ends (createRemote w draft) s (fun _ _ => True) fun e t => ¬ NotOwned e →
      ∃ repoPath worktree, Cut w draft repoPath worktree ∧
        t = s.did (.worktreeAdd (some draft.nodeId) repoPath (plannedPath w draft repoPath)
          (branchFor draft.name)) := by
    have hother {P : Prop} (message : String) (h : ¬ NotOwned (.outside message)) : P :=
      absurd (notOwned_outside message) h
    unfold createRemote
    simp only [ends_bind, ends_channelFor, ends_outside, ends_perform, ends_createAnchor,
      ends_registerRepoIfUnknown, ends_registerWorkspace, ends_pure, implies_true, true_and]
    refine ⟨fun hconnected => ⟨fun repoPath hresolve => ⟨fun worktree hadd => ⟨fun _ _ =>
      ⟨repoPath, worktree, ⟨hconnected, hresolve, hadd⟩, rfl⟩, fun _ => ⟨fun _ _ message _ =>
      hother message, fun message _ => hother message⟩⟩, fun message _ => hother message⟩,
      fun message _ => hother message⟩, fun _ h => absurd (fun _ he => (by cases he)) h⟩
  exact (ends_iff.mp hends).2 _ _ h fun hnot => hnot path rfl

/-- A creation on this host is never refused as owned. -/
theorem createLocalWorktree_notRefused (draft : WorktreeDraft) :
    ¬ RefusedAsOwned (createLocalWorktree w draft) s := by
  rw [refusedAsOwned_iff, not_not]
  unfold createLocalWorktree
  simp only [ends_bind, ends_ite, ends_throw, ends_outside, ends_perform,
    ends_registerRepoIfUnknown, ends_registerWorkspace, ends_pure, implies_true, true_and]
  exact ⟨fun _ _ => ⟨fun _ _ h => (by cases h), fun _ => ⟨fun _ _ _ message _ =>
    notOwned_outside message, fun message _ => notOwned_outside message⟩⟩,
    fun message _ => notOwned_outside message⟩

/-- Reading a machine's git fails for other reasons. -/
theorem listExisting_notOwned {nodeId repoPath : String} {e : Failure}
    (h : listExisting w s nodeId repoPath = .error e) : NotOwned e := by
  have houtside {α : Type} {x : Except String α} (hx : outside x = .error e) : NotOwned e := by
    cases x with
    | ok a => cases hx
    | error message =>
      obtain rfl := Except.error.inj hx
      exact notOwned_outside message
  unfold listExisting at h
  split at h
  · cases h
  · rcases bind_eq_error_iff.mp h with hlisted | ⟨listed, -, hok⟩
    · rcases bind_eq_error_iff.mp hlisted with hchannel | ⟨-, -, hread⟩
      · rw [channelFor] at hchannel
        split at hchannel
        · cases hchannel
        · obtain rfl := Except.error.inj hchannel
          exact fun path hpath => by cases hpath
      · rcases bind_eq_error_iff.mp hread with hresolve | ⟨canonicalPath, -, hlist⟩
        · exact houtside hresolve
        · exact houtside hlist
    · cases hok

/-- An adoption on a machine is refused as owned exactly when git lists the checkout, it is not
held, and the directory is taken. -/
theorem adoptRemote_refused (c : Coordinates) : RefusedAsOwned (adoptRemote w c) s ↔
    (∃ listed, listExisting w s c.nodeId c.repoPath = .ok listed ∧
      ∃ entry ∈ listed, entry.path = c.path) ∧
    heldRemote s c = none ∧ Taken w s c.nodeId c.repoPath (nameOf c.path) := by
  rw [refusedAsOwned_iff, not_iff_comm]
  unfold adoptRemote
  rw [ends_bind, ends_get, ends_bind, ends_attempt]
  constructor
  · intro hfree
    refine ⟨fun listed hlisted => ?_, fun e he => listExisting_notOwned he⟩
    cases hentry : listed.find? (fun candidate => decide (candidate.path = c.path)) with
    | none => exact fun path h => (by cases h)
    | some entry =>
      cases hheld : heldRemote s c with
      | some held => exact openAsWorkspace_notOwned (entryOf held)
      | none =>
        have hfound : ∃ entry ∈ listed, entry.path = c.path :=
          ⟨entry, List.mem_of_find?_eq_some hentry, by simpa using List.find?_some hentry⟩
        dsimp only
        rw [ends_bind, ends_createAnchor]
        refine ⟨fun howned => ?_, fun _ => ⟨fun _ => openOrDrop_notOwned _,
          fun message _ => notOwned_outside message⟩⟩
        exact absurd ⟨⟨listed, hlisted, hfound⟩, hheld, howned⟩ hfree
  · rintro ⟨h, -⟩ ⟨⟨listed, hlisted, found, hmem, hpath⟩, hheld, htaken⟩
    have hends := h listed hlisted
    cases hentry : listed.find? (fun candidate => decide (candidate.path = c.path)) with
    | none => exact List.find?_eq_none.mp hentry found hmem (decide_eq_true hpath)
    | some entry =>
      rw [hentry, hheld] at hends
      dsimp only at hends
      rw [ends_bind, ends_createAnchor] at hends
      exact hends.1 htaken _ rfl

/-- An adoption on this host is never refused as owned. -/
theorem adoptLocal_notRefused (nodeId repoPath path : String) :
    ¬ RefusedAsOwned (adoptLocal w nodeId repoPath path) s := by
  rw [refusedAsOwned_iff, not_not]
  unfold adoptLocal
  simp only [ends_bind, ends_get, ends_attempt, ends_ite, ends_throw]
  refine ⟨fun listed _ => ⟨fun _ _ h => (by cases h), fun _ => ?_⟩,
    fun e he => listExisting_notOwned he⟩
  split
  · exact fun _ h => (by cases h)
  · rename_i entry hentry
    rw [ends_ite]
    exact ⟨fun _ _ h => (by cases h), fun _ => openAsWorkspace_notOwned entry⟩

/-- An opened directory on a machine is refused as owned exactly when it is not held and the
directory that is derived from the path the machine resolved is taken. -/
theorem openDirectory_refused (nodeId repoPath : String) :
    RefusedAsOwned (openDirectory w nodeId repoPath) s ↔
      w.workspace.isSome = true ∧ w.isLocalNode nodeId = false ∧
        directoryAnchorOf s nodeId repoPath = none ∧ w.connected nodeId = true ∧
        ∃ canonicalPath, w.resolve nodeId repoPath = .ok canonicalPath ∧
          Taken w s nodeId canonicalPath directorySegment := by
  rw [refusedAsOwned_iff, not_iff_comm]
  unfold openDirectory
  cases hworkspace : w.workspace with
  | none =>
    refine iff_of_true ?_ fun _ h => (by cases h)
    rintro ⟨hsome, -⟩
    cases hsome
  | some workspace =>
    have hopen (anchor : Entry) : (do
        perform (.register anchor) (workspace.register anchor)
        pure anchor : Call Entry) = openAsWorkspace w anchor := by
      rw [openAsWorkspace, hworkspace]
    simp only [hopen]
    rw [ends_bind, ends_get, ends_ite]
    cases hlocal : w.isLocalNode nodeId with
    | true =>
      refine iff_of_true (fun h => Bool.noConfusion h.2.1) ⟨fun _ => ?_, fun h => absurd rfl h⟩
      cases find s.repos nodeId repoPath with
      | none => exact fun _ h => (by cases h)
      | some record => exact openAsWorkspace_notOwned (localDirectoryAnchor record)
    | false =>
      cases hexisting : directoryAnchorOf s nodeId repoPath with
      | some existing =>
        refine iff_of_true ?_ ⟨fun h => Bool.noConfusion h, fun _ => ?_⟩
        · rintro ⟨-, -, hnone, -⟩
          cases hnone
        · exact openAsWorkspace_notOwned (entryOf existing)
      | none =>
        simp only [ends_bind, ends_channelFor, ends_outside, ends_createAnchor]
        constructor
        · intro hfree
          refine ⟨fun h => Bool.noConfusion h, fun _ => ⟨fun hconnected => ⟨fun canonicalPath
            hresolve => ⟨fun howned => ?_, fun _ => ⟨fun _ => openOrDrop_notOwned _,
            fun message _ => notOwned_outside message⟩⟩, fun message _ =>
            notOwned_outside message⟩, fun _ _ h => (by cases h)⟩⟩
          exact absurd ⟨rfl, trivial, trivial, hconnected, canonicalPath, hresolve, howned⟩ hfree
        · rintro ⟨-, h⟩ ⟨-, -, -, hconnected, canonicalPath, hresolve, htaken⟩
          exact (((h Bool.false_ne_true).1 hconnected).1 canonicalPath hresolve).1 htaken _ rfl

end Refusals

/-- Directories and checkouts that are not held can be held beside any others, unless a held
anchor has the local directory that is derived from the machine, the base name of the repository
and the name: then, and only then, a call is refused because the directory is owned. A creation
is refused when its checkout was cut, and does nothing else. For plain names two directories are
derived to one exactly when they agree in all three. -/
theorem held_side_by_side (w : World) (s : Host) :
    (∀ draft, RefusedAsOwned (create w draft) s ↔
      w.isLocalNode draft.nodeId = false ∧ ∃ repoPath worktree, Cut w draft repoPath worktree ∧
        Taken w s draft.nodeId repoPath draft.name) ∧
    (∀ nodeId repoPath path, RefusedAsOwned (adopt w nodeId repoPath path) s ↔
      w.isLocalNode nodeId = false ∧
        (∃ listed, listExisting w s nodeId repoPath = .ok listed ∧
          ∃ entry ∈ listed, entry.path = path) ∧
        heldRemote s ⟨nodeId, repoPath, path⟩ = none ∧ Taken w s nodeId repoPath (nameOf path)) ∧
    (∀ nodeId repoPath, RefusedAsOwned (openDirectory w nodeId repoPath) s ↔
      w.workspace.isSome = true ∧ w.isLocalNode nodeId = false ∧
        directoryAnchorOf s nodeId repoPath = none ∧ w.connected nodeId = true ∧
        ∃ canonicalPath, w.resolve nodeId repoPath = .ok canonicalPath ∧
          Taken w s nodeId canonicalPath directorySegment) ∧
    (∀ draft path t, (create w draft).run s = .error (.owned path) t →
      ∃ repoPath worktree, Cut w draft repoPath worktree ∧
        t = s.did (.worktreeAdd (some draft.nodeId) repoPath (plannedPath w draft repoPath)
          (branchFor draft.name))) ∧
    (NormalizedRoot w.anchorRoot → ∀ draft other, PlainDraft draft → PlainDraft other →
      (Model.Anchors.anchorPath w.anchorRoot draft = Model.Anchors.anchorPath w.anchorRoot other ↔
        draft.nodeId = other.nodeId ∧ basename draft.repoPath = basename other.repoPath ∧
          lastSegment draft = lastSegment other)) := by
  refine ⟨fun draft => ?_, fun nodeId repoPath path => ?_, openDirectory_refused,
    fun draft path t h => ?_, fun hroot _ _ => derived_path_eq_iff hroot⟩
  · rw [create]
    cases hlocal : w.isLocalNode draft.nodeId with
    | true => exact iff_of_false (createLocalWorktree_notRefused draft) fun h => Bool.noConfusion h.1
    | false => exact (createRemote_refused draft).trans (and_iff_right rfl).symm
  · rw [adopt]
    cases hlocal : w.isLocalNode nodeId with
    | true =>
      exact iff_of_false (adoptLocal_notRefused nodeId repoPath path) fun h => Bool.noConfusion h.1
    | false =>
      exact (adoptRemote_refused ⟨nodeId, repoPath, path⟩).trans (and_iff_right rfl).symm
  · rw [create] at h
    cases hlocal : w.isLocalNode draft.nodeId with
    | true =>
      rw [hlocal] at h
      exact absurd ⟨path, t, h⟩ (createLocalWorktree_notRefused draft)
    | false =>
      rw [hlocal] at h
      exact createRemote_cut draft h

/-- The host that holds the directory `/srv/a/app` of a machine. -/
def holdingApp : Host := recorded grantingWorld emptyHost (directoryDraft "n1" "/srv/a/app")

/-- The directory that is derived for `/srv/b/app` is the one of `/srv/a/app`. -/
theorem app_taken : Taken grantingWorld holdingApp "n1" "/srv/b/app" directorySegment := by
  refine ⟨_, List.mem_append_right _ (List.mem_singleton_self _), ?_⟩
  have hbase : basename "/srv/a/app" = basename "/srv/b/app" := by decide +kernel
  change join ["/r", "n1", basename "/srv/a/app", directorySegment] = _
  rw [hbase]
  rfl

/-- Beside `/srv/a/app` the directory `/srv/b/app` of the same machine is refused. -/
theorem side_by_side_app :
    RefusedAsOwned (openDirectory grantingWorld "n1" "/srv/b/app") holdingApp := by
  refine ((held_side_by_side grantingWorld holdingApp).2.2.1 "n1" "/srv/b/app").mpr ?_
  exact ⟨rfl, rfl, rfl, rfl, "/srv/b/app", rfl, app_taken⟩

/-- A directory that is not held is refused beside a held one. -/
theorem not_side_by_side :
    ¬ ∀ (w : World) (s : Host) (nodeId repoPath : String), w.isLocalNode nodeId = false →
      (∀ anchor ∈ s.anchors, ¬ (anchor.nodeId = nodeId ∧ anchor.remoteRoot = repoPath)) →
      ¬ RefusedAsOwned (openDirectory w nodeId repoPath) s := by
  intro h
  refine h grantingWorld holdingApp "n1" "/srv/b/app" rfl (by decide) ?_
  rw [openDirectory_refused]
  exact ⟨rfl, rfl, rfl, rfl, "/srv/b/app", rfl, app_taken⟩

end RemoteWorkspace.Analysis.Worktrees
