import RemoteWorkspace.Analysis.FsPaths
import RemoteWorkspace.Analysis.GitListing
import RemoteWorkspace.Analysis.WorktreeEnds
import RemoteWorkspace.Model.RoutingFs

/-!
# Anchors and canonical paths

The anchor of a checkout that was cut on a machine has the path the daemon was asked for as its
remote root, while targets, write checks and git's listing speak of the canonical path. The two
are one exactly when no link is on the way to the checkout; the listing also needs a path that
survives being read from a line.
-/

set_option autoImplicit false

namespace RemoteWorkspace.Analysis.Worktrees

open RemoteWorkspace.Computation RemoteWorkspace.Computation.Calls
open RemoteWorkspace.Computation.Symlinks RemoteWorkspace.Model
open RemoteWorkspace.Model.Anchors (AnchorRecord)
open RemoteWorkspace.Model.AnchorCalls (nameOf)
open RemoteWorkspace.Model.Worktrees
open RemoteWorkspace.Model.FsPaths RemoteWorkspace.Model.GitWorktrees
open RemoteWorkspace.Model.FsText (absolutePath)
open RemoteWorkspace.Model.Routing (AnchorRoute isWithin explicit toAbsolute classifyPath)
open RemoteWorkspace.Model.RoutingFs RemoteWorkspace.Analysis.FsPaths
open RemoteWorkspace.Analysis.Classify (classifyPath_of_anchor)
open RemoteWorkspace.Analysis.GitListing

/-! ### What is to hold -/

/-- What routing knows of a held anchor. -/
def routeOf (record : AnchorRecord) : AnchorRoute :=
  ⟨record.nodeId, record.anchorPath, record.remoteRoot⟩

/-- What routing asks the machine for, for a place in the checkout of an anchor. -/
def through (record : AnchorRecord) (rest : Place) : String :=
  PosixPath.join [record.remoteRoot, pathOf rest]

/-- A path of the anchor's directory is routed to its machine so. -/
theorem classifyPath_through {record : AnchorRecord} {rest : Place} {anchors : List AnchorRoute}
    {input : String} {cwd : Option String} (hexplicit : explicit input = none)
    (hfind : anchors.find? (fun a => isWithin a.anchorPath (toAbsolute input cwd)) =
      some (routeOf record))
    (hinput : (toAbsolute input cwd).toList = record.anchorPath.toList ++ (pathOf rest).toList) :
    classifyPath input cwd anchors = .remote record.nodeId (through record rest) := by
  rw [classifyPath_of_anchor hexplicit hfind, hinput]
  have hsuffix : (record.anchorPath.toList ++ (pathOf rest).toList).drop
      (routeOf record).anchorPath.length = (pathOf rest).toList := by
    rw [← String.length_toList]
    exact List.drop_left
  rw [hsuffix, String.ofList_toList]
  rfl

/-- The anchor speaks the canonical paths of the checkout that stands at `c` on its machine: what
is asked for through it is resolved to a path within its root, where a workspace may write, and
git's listing names the checkout as the anchor does. -/
structure Speaks (w : World) (m : GitWorktrees.Machine) (t : Host) (record : AnchorRecord) (c : Place) :
    Prop where
  within : ∀ rest, Real m.fs (c ++ rest) → ∃ path,
    resolve m.fs m.root (through record rest) = .ok path ∧ isWithin record.remoteRoot path = true
  writable : ∀ rest verb, Real m.fs (c ++ rest) → ∃ path,
    resolve m.fs m.root (through record rest) = .ok path ∧
      requireRemoteWrite (t.anchors.map routeOf) record.nodeId path verb (some .workspaceWrite) =
        .ok ()
  recognised : ∃ listed, listExisting w t record.nodeId record.repoPath = .ok listed ∧
    ∃ checkout ∈ listed, checkout.path = record.remoteRoot ∧ checkout.registered = true ∧
      heldKey record.nodeId checkout.path ∈ heldKeys t

/-- What git leaves of a checkout it has cut: the path it was given leads to the checkout, on the
way to which no link was made or removed; and the repository lists the checkout behind its main
one, under the canonical path. -/
structure CheckedOut (before after : GitWorktrees.Machine) (repoPath target : String) (c : Place) :
    Prop where
  stands : canonicalize after.fs (placeOf target) = .ok c
  way : ∀ place, place <+: placeOf target → isLink after.fs place = isLink before.fs place
  listed : ∃ repo, resolve after.fs after.root repoPath = .ok repo ∧
    requireRepository after.git repo = .ok () ∧
    (after.git repo ["worktree", "list", "--porcelain"]).ok = true ∧
    Lists (after.git repo ["worktree", "list", "--porcelain"]).stdout (pathOf c)

/-- The path that a checkout is asked for on a machine, after the daemon has placed it. -/
def AsksFor (w : World) (m : GitWorktrees.Machine) (draft : WorktreeDraft)
    (repoPath target : String) : Prop :=
  resolve m.fs m.root draft.repoPath = .ok repoPath ∧
    absolutePath "add a worktree to" (plannedPath w draft repoPath) m.root = .ok target

/-- A call ends in this state, whatever it answers. -/
def EndsIn {α : Type} (call : Call α) (s t : Host) : Prop :=
  (∃ answer, call.run s = .ok answer t) ∨ ∃ failure, call.run s = .error failure t

variable {w : World} {s t : Host} {draft : WorktreeDraft} {m before after : GitWorktrees.Machine}
  {record : AnchorRecord} {repoPath target : String} {c rest : Place}

/-! ### What a creation records -/

/-- What holds of every way a call can end holds of the state it ends in. -/
theorem EndsIn.of_ends {α : Type} {call : Call α} {Q : Host → Prop} (h : EndsIn call s t)
    (hends : Ends call s (fun _ t => Q t) fun _ t => Q t) : Q t := by
  rcases h with ⟨answer, h⟩ | ⟨failure, h⟩
  · exact (ends_iff.mp hends).1 answer t h
  · exact (ends_iff.mp hends).2 failure t h

/-- What a creation has done to the anchors: nothing, or it recorded one for a checkout that was
cut on another machine. -/
def Creates (w : World) (s : Host) (draft : WorktreeDraft) (t : Host) : Prop :=
  t.anchors = s.anchors ∨ ∃ repoPath worktree, w.isLocalNode draft.nodeId = false ∧
    Cut w draft repoPath worktree ∧
    t.anchors = s.anchors ++ [recordOf w (createdDraft draft repoPath worktree)]

/-- A creation does nothing to the anchors but to record one. -/
theorem creates (draft : WorktreeDraft) : Ends (create w draft) s
    (fun _ t => Creates w s draft t) fun _ t => Creates w s draft t := by
  unfold create
  cases hlocal : w.isLocalNode draft.nodeId with
  | true =>
    unfold createLocalWorktree
    simp only [if_true, ends_bind, ends_outside, ends_ite, ends_throw, ends_perform_unit,
      ends_registerRepoIfUnknown, ends_registerWorkspace, ends_pure]
    simp [Creates]
  | false =>
    unfold createRemote
    simp only [Bool.false_eq_true, if_false, ends_bind, ends_channelFor, ends_outside, ends_perform,
      ends_createAnchor, ends_registerRepoIfUnknown, ends_registerWorkspace, ends_pure]
    refine ⟨fun hconnected => ⟨fun repoPath hresolve => ⟨fun worktree hadd => ⟨fun _ => .inl rfl,
      fun _ => ⟨fun _ => ?_, fun _ _ => .inl rfl⟩⟩, fun _ _ => .inl rfl⟩, fun _ _ => .inl rfl⟩,
      fun _ => .inl rfl⟩
    have hcreates (u : Host) (hu : u.anchors =
        s.anchors ++ [recordOf w (createdDraft draft repoPath worktree)]) : Creates w s draft u :=
      .inr ⟨repoPath, worktree, hlocal, ⟨hconnected, hresolve, hadd⟩, hu⟩
    refine ⟨fun _ => hcreates _ ?_, fun _ => ⟨fun _ => hcreates _ ?_, fun _ _ => hcreates _ ?_⟩⟩
    · rw [asked_anchors]
      rfl
    · rw [asked_anchors]
      rfl
    · rfl

/-- A creation whose checkout was cut records its anchor when the directory is free and the anchor
can be written. -/
theorem records {worktree : WireWorktree} (hlocal : w.isLocalNode draft.nodeId = false)
    (hcut : Cut w draft repoPath worktree) (howned : ¬ Owned w s (createdDraft draft repoPath worktree))
    (hwrite : w.writeAnchor (recordOf w (createdDraft draft repoPath worktree)) = .ok ()) :
    ∃ t, EndsIn (create w draft) s t ∧
      t.anchors = s.anchors ++ [recordOf w (createdDraft draft repoPath worktree)] := by
  obtain ⟨hconnected, hresolve, hadd⟩ := hcut
  have hends : Ends (create w draft) s
      (fun _ t => t.anchors = s.anchors ++ [recordOf w (createdDraft draft repoPath worktree)])
      fun _ t => t.anchors = s.anchors ++ [recordOf w (createdDraft draft repoPath worktree)] := by
    unfold create createRemote
    simp only [hlocal, Bool.false_eq_true, if_false, ends_bind, ends_channelFor, ends_outside,
      ends_perform, ends_createAnchor, ends_registerRepoIfUnknown, ends_registerWorkspace, ends_pure,
      hconnected, hresolve, Except.ok.injEq, forall_eq', reduceCtorEq, false_implies, implies_true,
      and_true, true_implies, hadd]
    refine ⟨fun h => absurd h howned, fun _ => ⟨fun _ => ⟨fun _ => asked_anchors,
      fun _ => ⟨fun _ => asked_anchors, fun _ _ => rfl⟩⟩, fun message hmessage => ?_⟩⟩
    rw [hwrite] at hmessage
    cases hmessage
  cases hrun : (create w draft).run s with
  | ok answer t => exact ⟨t, .inl ⟨answer, hrun⟩, (ends_iff.mp hends).1 answer t hrun⟩
  | error failure t => exact ⟨t, .inr ⟨failure, hrun⟩, (ends_iff.mp hends).2 failure t hrun⟩

/-- A worktree is described by the path it was asked for at. -/
theorem worktreeAdd_path {git : Git} {root : Option String} {worktreePath branch : String}
    {baseRef : Option String} {g : GitWorktree}
    (h : worktreeAdd git root repoPath worktreePath branch baseRef = .ok g) :
    absolutePath "add a worktree to" worktreePath root = .ok g.path := by
  unfold worktreeAdd at h
  obtain ⟨repo, -, h⟩ := bind_eq_ok_iff.mp h
  obtain ⟨target, htarget, h⟩ := bind_eq_ok_iff.mp h
  obtain ⟨-, -, h⟩ := bind_eq_ok_iff.mp h
  obtain ⟨-, -, h⟩ := bind_eq_ok_iff.mp h
  unfold describeWorktree at h
  obtain ⟨head, -, h⟩ := bind_eq_ok_iff.mp h
  obtain ⟨branch, -, h⟩ := bind_eq_ok_iff.mp h
  rw [htarget, ← Except.ok.inj h]

/-- An answer that the manager gets is one that the daemon gave. -/
theorem answerOf_eq_ok {α : Type} {x : Except FsText.Failure α} {a : α}
    (h : answerOf x = .ok a) : x = .ok a := by
  cases x with
  | ok b => exact congrArg _ (Except.ok.inj h)
  | error failure => cases h

/-- A worktree that the manager gets is one that the daemon described. -/
theorem answerOf_map_eq_ok {α β : Type} {f : α → β} {x : Except FsText.Failure α} {b : β}
    (h : answerOf (x.map f) = .ok b) : ∃ a, x = .ok a ∧ b = f a := by
  cases x with
  | ok a => exact ⟨a, rfl, (Except.ok.inj h).symm⟩
  | error failure => cases h

/-- The anchor that a creation records is for the path that was asked for. -/
structure Recorded (w : World) (m : GitWorktrees.Machine) (draft : WorktreeDraft)
    (record : AnchorRecord) : Prop where
  remote : w.isLocalNode draft.nodeId = false
  connected : w.connected draft.nodeId = true
  node : record.nodeId = draft.nodeId
  worktree : record.kind ≠ .directory
  asked : AsksFor w m draft record.repoPath record.remoteRoot

/-- Every anchor that a creation records is one for the path that was asked for. -/
theorem recorded_of_create (h : EndsIn (create (served w draft.nodeId m) draft) s t)
    (hrecord : t.anchors = s.anchors ++ [record]) : Recorded w m draft record := by
  rcases h.of_ends (creates draft) with hsame | ⟨repoPath, worktree, hlocal, hcut, hone⟩
  · rw [hrecord] at hsame
    simp at hsame
  · obtain ⟨hconnected, hresolve, hadd⟩ := hcut
    have heq : record = recordOf (served w draft.nodeId m) (createdDraft draft repoPath worktree) := by
      rw [hrecord] at hone
      simpa using hone
    subst heq
    simp only [served, if_true] at hresolve hadd
    obtain ⟨g, hg, rfl⟩ := answerOf_map_eq_ok hadd
    exact ⟨hlocal, hconnected, rfl, fun hkind => (by cases hkind),
      answerOf_eq_ok hresolve, worktreeAdd_path hg⟩

/-! ### The way to the checkout -/

section Way

variable (hcut : CheckedOut before after repoPath target c)
include hcut

/-- No link is on the way before the checkout is cut when none is on it afterwards. -/
theorem CheckedOut.linkFree_iff :
    LinkFree after.fs (placeOf target) ↔ LinkFree before.fs (placeOf target) := by
  refine forall₂_congr fun q hq => ?_
  rw [hcut.way q ((List.mem_inits _ _).mp hq)]

/-- What is asked for through the anchor of the checkout is resolved to where it stands. -/
theorem CheckedOut.resolve_through (htarget : Written target) (hroot : record.remoteRoot = target)
    (hreal : Real after.fs (c ++ rest)) :
    resolve after.fs after.root (through record rest) = .ok (pathOf (c ++ rest)) := by
  obtain ⟨place, hplace, rfl⟩ := htarget
  have hstands := hcut.stands
  rw [placeOf_pathOf hplace] at hstands
  have hnamed : Named (c ++ rest) := AllNamed.real after.named hreal
  rw [through, hroot]
  exact resolve_join hplace (fun name hname => hnamed name (List.mem_append_right _ hname)) hstands
    hreal

/-- The canonical path of a file of the checkout lies within the path that was asked for exactly
when no link is on the way there. -/
theorem CheckedOut.isWithin_iff (htarget : Written target) (hreal : Real after.fs (c ++ rest)) :
    isWithin target (pathOf (c ++ rest)) = true ↔ LinkFree before.fs (placeOf target) := by
  have hnamed : Named (c ++ rest) := AllNamed.real after.named hreal
  obtain ⟨place, hplace, rfl⟩ := htarget
  rw [isWithin_pathOf hplace hnamed, ← hcut.linkFree_iff, placeOf_pathOf hplace]
  have hstands := hcut.stands
  rw [placeOf_pathOf hplace] at hstands
  exact prefix_iff_linkFree hstands hreal

end Way

/-! ### Writes -/

/-- A workspace may write below the root of a held anchor. -/
theorem requireRemoteWrite_within {anchors : List AnchorRoute} {route : AnchorRoute}
    {path verb : String} (hroute : route ∈ anchors) (hwithin : isWithin route.remoteRoot path = true) :
    requireRemoteWrite anchors route.nodeId path verb (some .workspaceWrite) = .ok () := by
  have hfound : (anchorFor anchors route.nodeId path).isSome = true := by
    rw [anchorFor, List.find?_isSome]
    exact ⟨route, hroute, by simp [hwithin]⟩
  obtain ⟨owner, howner⟩ := Option.isSome_iff_exists.mp hfound
  have hbelow := List.find?_some howner
  rw [Bool.and_eq_true] at hbelow
  unfold requireRemoteWrite remoteWriteAllowed
  rw [howner, if_pos]
  simp [hbelow.2]

/-! ### The listing -/

/-- How a worktree that git lists is shown for a node. -/
def shown (t : Host) (nodeId : String) (g : GitWorktree) : ExistingWorktree :=
  ⟨g.path, nameOf g.path, g.branch.getD "",
    t.anchors.any fun anchor => decide (anchor.nodeId = nodeId ∧ anchor.remoteRoot = g.path)⟩

/-- What is listed for the repository once the checkout is cut is what git prints behind its main
worktree. -/
theorem CheckedOut.listExisting (hcut : CheckedOut before after repoPath target c) {nodeId : String}
    (hlocal : w.isLocalNode nodeId = false) (hconnected : w.connected nodeId = true) :
    ∃ porcelain, Lists porcelain (pathOf c) ∧
      listExisting (served w nodeId after) t nodeId repoPath =
        .ok (((parseWorktreeList porcelain).filter fun g => !g.main).map (shown t nodeId)) := by
  obtain ⟨repo, hresolve, hrequire, hok, hlists⟩ := hcut.listed
  refine ⟨_, hlists, ?_⟩
  obtain ⟨place, hplace, rfl⟩ := resolve_written after.named hresolve
  have hlisted : worktreeList after.git after.root (pathOf place) = .ok (parseWorktreeList
      (after.git (pathOf place) ["worktree", "list", "--porcelain"]).stdout) := by
    unfold worktreeList
    rw [absolutePath_pathOf hplace, except_ok_bind, hrequire, except_ok_bind, require, if_pos hok]
    rfl
  have hlistedOn : listedOn (served w nodeId after) nodeId repoPath = .ok ((parseWorktreeList
      (after.git (pathOf place) ["worktree", "list", "--porcelain"]).stdout).map wireOf) := by
    unfold listedOn channelFor
    simp only [served, if_true, hconnected, hresolve]
    change outside (answerOf ((worktreeList after.git after.root (pathOf place)).map _)) = _
    rw [hlisted]
    rfl
  unfold Worktrees.listExisting
  rw [if_neg (by rw [served, hlocal]; exact Bool.false_ne_true), hlistedOn, except_ok_bind,
    List.filter_map, List.map_map]
  rfl

/-- A held anchor of a worktree has a key. -/
theorem mem_heldKeys (hrecord : record ∈ t.anchors) (hkind : record.kind ≠ .directory) :
    heldKey record.nodeId record.remoteRoot ∈ heldKeys t :=
  List.mem_map.mpr ⟨record, List.mem_filter.mpr ⟨hrecord, decide_eq_true hkind⟩, rfl⟩

/-! ### The two spellings -/

/-- The path and the repository that an anchor was recorded with are those that were asked for. -/
theorem Recorded.eq (h : Recorded w m draft record) (hasked : AsksFor w m draft repoPath target) :
    record.repoPath = repoPath ∧ record.remoteRoot = target := by
  obtain ⟨hresolve, habsolute⟩ := h.asked
  have hrepo : record.repoPath = repoPath :=
    Except.ok.inj (hresolve.symm.trans hasked.1)
  rw [hrepo] at habsolute
  exact ⟨hrepo, Except.ok.inj (habsolute.symm.trans hasked.2)⟩

/-- An anchor that speaks canonical paths was asked for along a way without links, under a path
that survives a listing. -/
theorem Speaks.spelt (h : Speaks (served w draft.nodeId after) after t record c)
    (hrecorded : Recorded w before draft record)
    (hcut : CheckedOut before after record.repoPath record.remoteRoot c) :
    LinkFree before.fs (placeOf record.remoteRoot) ∧ Tidy record.remoteRoot := by
  have hwritten : Written record.remoteRoot := absolutePath_written hrecorded.asked.2
  have hreal : Real after.fs (c ++ []) := by
    rw [List.append_nil]
    exact canonicalize_real hcut.stands
  constructor
  · obtain ⟨path, hpath, hwithin⟩ := h.within [] hreal
    rw [hcut.resolve_through hwritten rfl hreal, Except.ok.injEq] at hpath
    rw [← hpath] at hwithin
    exact (hcut.isWithin_iff hwritten hreal).mp hwithin
  · obtain ⟨porcelain, -, hlisting⟩ := hcut.listExisting (t := t) hrecorded.remote hrecorded.connected
    obtain ⟨listed, hlisted, checkout, hmem, hroot, -⟩ := h.recognised
    rw [hrecorded.node, hlisting, Except.ok.injEq] at hlisted
    subst hlisted
    obtain ⟨g, hg, rfl⟩ := List.mem_map.mp hmem
    rw [← hroot]
    exact parseWorktreeList_tidy porcelain g (List.mem_filter.mp hg).1

/-- An anchor that was asked for along a way without links, under a path that survives a listing,
speaks canonical paths. -/
theorem Recorded.speaks (hrecorded : Recorded w before draft record) (hmem : record ∈ t.anchors)
    (hcut : CheckedOut before after record.repoPath record.remoteRoot c)
    (hfree : LinkFree before.fs (placeOf record.remoteRoot)) (htidy : Tidy record.remoteRoot) :
    Speaks (served w draft.nodeId after) after t record c := by
  have hwritten : Written record.remoteRoot := absolutePath_written hrecorded.asked.2
  refine ⟨fun rest hreal => ?_, fun rest verb hreal => ?_, ?_⟩
  · exact ⟨_, hcut.resolve_through hwritten rfl hreal, (hcut.isWithin_iff hwritten hreal).mpr hfree⟩
  · refine ⟨_, hcut.resolve_through hwritten rfl hreal, ?_⟩
    exact requireRemoteWrite_within (List.mem_map_of_mem (f := routeOf) hmem)
      ((hcut.isWithin_iff hwritten hreal).mpr hfree)
  · obtain ⟨porcelain, hlists, hlisting⟩ := hcut.listExisting (t := t) hrecorded.remote hrecorded.connected
    have hcanonical : pathOf c = record.remoteRoot := by
      obtain ⟨place, hplace, hroot⟩ := hwritten
      have hstands := hcut.stands
      have hway := hcut.linkFree_iff.mpr hfree
      rw [hroot, placeOf_pathOf hplace] at hstands hway
      rw [canonicalize_linkFree hstands hway, hroot]
    rw [hcanonical] at hlists
    obtain ⟨g, hg, hpath, hmain⟩ := mem_parseWorktreeList hlists htidy
    rw [hrecorded.node]
    refine ⟨_, hlisting, shown t draft.nodeId g, ?_, hpath, ?_, ?_⟩
    · exact List.mem_map_of_mem (List.mem_filter.mpr ⟨hg, by rw [hmain]; rfl⟩)
    · exact List.any_eq_true.mpr ⟨record, hmem, by simp [hrecorded.node, hpath]⟩
    · have hkey := mem_heldKeys hmem hrecorded.worktree
      rwa [hrecorded.node, ← hpath] at hkey

/-- The anchor that a creation records speaks the canonical paths of its checkout exactly when no
link was on the way to the path the checkout was asked for at, and that path has no line break in
it and no white space at its end. -/
theorem canonical_roots (w : World) (before after : GitWorktrees.Machine) (s t : Host)
    (draft : WorktreeDraft) (record : AnchorRecord) (repoPath target : String) (c : Place)
    (hends : EndsIn (create (served w draft.nodeId before) draft) s t)
    (hrecord : t.anchors = s.anchors ++ [record])
    (hasked : AsksFor w before draft repoPath target)
    (hcut : CheckedOut before after repoPath target c) :
    Speaks (served w draft.nodeId after) after t record c ↔
      LinkFree before.fs (placeOf target) ∧ Tidy target := by
  have hrecorded := recorded_of_create hends hrecord
  obtain ⟨rfl, rfl⟩ := hrecorded.eq hasked
  have hmem : record ∈ t.anchors := by
    rw [hrecord]
    exact List.mem_append_right _ (List.mem_singleton_self record)
  exact ⟨fun h => h.spelt hrecorded hcut, fun h => hrecorded.speaks hmem hcut h.1 h.2⟩

/-! ### A worktree root with and without a link -/

/-- The file system with these entries. -/
def layout (entries : List (String × Node (List Char))) : FileSystem (List Char) :=
  fun place => (entries.find? fun entry => decide (placeOf entry.1 = place)).map Prod.snd

/-- The names of a layout can stand in a directory when those of its entries can. -/
theorem layout_named {entries : List (String × Node (List Char))}
    (h : ∀ entry ∈ entries, ∀ name ∈ placeOf entry.1, IsName name) : AllNamed (layout entries) := by
  intro place hsome
  rw [layout, Option.isSome_map, Option.isSome_iff_exists] at hsome
  obtain ⟨entry, hfind⟩ := hsome
  have hplace : placeOf entry.1 = place := by simpa using List.find?_some hfind
  exact hplace ▸ h entry (List.mem_of_find?_eq_some hfind)

/-- A listing of a repository with one checkout. -/
def porcelainOf (path : String) : String :=
  "worktree " ++ "/srv/app\nHEAD 1f\nbranch refs/heads/main\n" ++ "\n" ++
    ("worktree " ++ path ++ "\n" ++ "HEAD 1f\nbranch refs/heads/worktree/login\n")

/-- The checkout is listed behind the main worktree. -/
theorem lists_porcelainOf (path : String) : Lists (porcelainOf path) path :=
  ⟨"/srv/app\nHEAD 1f\nbranch refs/heads/main\n",
    "HEAD 1f\nbranch refs/heads/worktree/login\n", rfl⟩

/-- A git that does what it is asked, and lists a checkout at the path. -/
def gitOf (path : String) : Git := fun _ args =>
  ⟨true, if args = ["worktree", "list", "--porcelain"] then porcelainOf path else "worktree/login\n",
    "", some 0, false, ""⟩

/-- A machine with these entries, whose git lists a checkout at the path. -/
def machineOf (path : String) (entries : List (String × Node (List Char)))
    (h : ∀ entry ∈ entries, ∀ name ∈ placeOf entry.1, IsName name) : GitWorktrees.Machine :=
  ⟨none, gitOf path, layout entries, layout_named h⟩

/-- A machine with a repository and the worktree root `/w`. -/
def plainMachine : GitWorktrees.Machine :=
  machineOf "/w/app/login" [("/srv", .directory), ("/srv/app", .directory), ("/w", .directory)]
    (by decide +kernel)

/-- That machine when the checkout is cut. -/
def plainCheckout : GitWorktrees.Machine :=
  machineOf "/w/app/login" [("/srv", .directory), ("/srv/app", .directory), ("/w", .directory),
    ("/w/app", .directory), ("/w/app/login", .directory)] (by decide +kernel)

/-- A machine on which the worktree root `/w` is a link to `/data`. -/
def linkedMachine : GitWorktrees.Machine :=
  machineOf "/data/app/login" [("/srv", .directory), ("/srv/app", .directory),
    ("/w", .link true [.name "data".toList]), ("/data", .directory)] (by decide +kernel)

/-- That machine when the checkout is cut. -/
def linkedCheckout : GitWorktrees.Machine :=
  machineOf "/data/app/login" [("/srv", .directory), ("/srv/app", .directory),
    ("/w", .link true [.name "data".toList]), ("/data", .directory), ("/data/app", .directory),
    ("/data/app/login", .directory)] (by decide +kernel)

/-- A worktree `login` of `/srv/app` on `n1`. -/
def loginDraft : WorktreeDraft := ⟨"n1", "/srv/app", "login", none, none⟩

/-- The anchor that its creation records. -/
def loginAnchor : AnchorRecord :=
  recordOf grantingWorld
    (createdDraft loginDraft "/srv/app" ⟨"/w/app/login", some "worktree/login", false⟩)

/-- The creation records the anchor on a machine that grants it. -/
theorem login_records {m : GitWorktrees.Machine}
    (hcut : Cut (served grantingWorld "n1" m) loginDraft "/srv/app"
      ⟨"/w/app/login", some "worktree/login", false⟩) :
    ∃ t, EndsIn (create (served grantingWorld "n1" m) loginDraft) emptyHost t ∧
      t.anchors = emptyHost.anchors ++ [loginAnchor] :=
  records rfl hcut (fun h => by simp [Owned, emptyHost] at h) rfl

/-- What git leaves of a checkout, on a layout of places. -/
theorem checkedOut_machineOf {path target : String} {entries entries' : List (String × Node (List Char))}
    {h : ∀ entry ∈ entries, ∀ name ∈ placeOf entry.1, IsName name}
    {h' : ∀ entry ∈ entries', ∀ name ∈ placeOf entry.1, IsName name}
    (hstands : canonicalize (layout entries') (placeOf target) = .ok (placeOf path))
    (hway : ∀ q ∈ (placeOf target).inits, isLink (layout entries') q = isLink (layout entries) q)
    (hpath : pathOf (placeOf path) = path)
    (hrepo : resolve (layout entries') none "/srv/app" = .ok "/srv/app") :
    CheckedOut (machineOf path entries h) (machineOf path entries' h') "/srv/app" target
      (placeOf path) where
  stands := hstands
  way q hq := hway q ((List.mem_inits _ _).mpr hq)
  listed := by
    refine ⟨"/srv/app", hrepo, rfl, rfl, ?_⟩
    have hlist : ((machineOf path entries' h').git "/srv/app"
        ["worktree", "list", "--porcelain"]).stdout = porcelainOf path := by
      simp [machineOf, gitOf]
    rw [hpath, hlist]
    exact lists_porcelainOf path

/-- On the machine without a link the anchor speaks canonical paths. -/
theorem login_speaks : ∃ t, t.anchors = emptyHost.anchors ++ [loginAnchor] ∧
    Speaks (served grantingWorld "n1" plainCheckout) plainCheckout t loginAnchor
      (placeOf "/w/app/login") := by
  have hcut : Cut (served grantingWorld "n1" plainMachine) loginDraft "/srv/app"
      ⟨"/w/app/login", some "worktree/login", false⟩ := by
    refine ⟨rfl, ?_, ?_⟩ <;> decide +kernel
  obtain ⟨t, hends, hanchors⟩ := login_records hcut
  refine ⟨t, hanchors, ?_⟩
  refine (canonical_roots grantingWorld plainMachine plainCheckout emptyHost t loginDraft loginAnchor
    "/srv/app" "/w/app/login" _ hends hanchors ?_ ?_).mpr ?_
  · unfold AsksFor
    decide +kernel
  · refine checkedOut_machineOf ?_ ?_ ?_ ?_ <;> decide +kernel
  · decide +kernel

/-- On the machine with a link it does not: the root is `/w/app/login`, and what it holds is
resolved below `/data/app/login`. -/
theorem linked_root : ¬ ∀ (w : World) (before after : GitWorktrees.Machine) (s t : Host)
    (draft : WorktreeDraft) (record : AnchorRecord) (repoPath target : String) (c : Place),
    EndsIn (create (served w draft.nodeId before) draft) s t → t.anchors = s.anchors ++ [record] →
      AsksFor w before draft repoPath target → CheckedOut before after repoPath target c →
        Speaks (served w draft.nodeId after) after t record c := by
  intro h
  have hcut : Cut (served grantingWorld "n1" linkedMachine) loginDraft "/srv/app"
      ⟨"/w/app/login", some "worktree/login", false⟩ := by
    refine ⟨rfl, ?_, ?_⟩ <;> decide +kernel
  obtain ⟨t, hends, hanchors⟩ := login_records hcut
  have hasked : AsksFor grantingWorld linkedMachine loginDraft "/srv/app" "/w/app/login" := by
    unfold AsksFor
    decide +kernel
  have hout : CheckedOut linkedMachine linkedCheckout "/srv/app" "/w/app/login"
      (placeOf "/data/app/login") := by
    refine checkedOut_machineOf ?_ ?_ ?_ ?_ <;> decide +kernel
  have hspeaks := h grantingWorld linkedMachine linkedCheckout emptyHost t loginDraft loginAnchor
    "/srv/app" "/w/app/login" _ hends hanchors hasked hout
  have hfree := (hspeaks.spelt (recorded_of_create hends hanchors) hout).1
  exact absurd hfree (by decide +kernel)

end RemoteWorkspace.Analysis.Worktrees
