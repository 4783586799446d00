import Mathlib.Data.List.Nodup
import RemoteWorkspace.Analysis.AnchorScan
import RemoteWorkspace.Computation.Slots

/-!
# A fresh store and the store before it

A record survives when the scan can find it where the store put it. The path is joined from
the caller's strings, so it may lie too deep for the scan, outside the root, or be spelled
with a slash at its end; and a removal takes everything below the anchor with it, other
anchors included. A fresh store loads what the store lists, after every call of a run, exactly
when no call does either (`loads_list_iff`).
-/

set_option autoImplicit false

namespace RemoteWorkspace.Analysis.Anchors

open RemoteWorkspace.Computation RemoteWorkspace.Model RemoteWorkspace.Model.Anchors

variable {before : String → String → Bool} {root : String} {s t : Store}

/-! ### What a call does -/

/-- A creation that succeeds: nobody has the path, and the directory and its metadata file are
made. -/
theorem step_create {draft : AnchorDraft} {anchorId createdAt : String}
    (h : step root s (.create draft anchorId createdAt) = some t) :
    (∀ r ∈ s.anchors, r.anchorId ≠ anchorId) ∧
    (∀ r ∈ s.anchors, r.anchorPath ≠ anchorPath root draft) ∧
    t = { disk := (s.disk.mkdir (segmentsOf (anchorPath root draft))).put
            (segmentsOf (anchorPath root draft))
            (documentOf (newRecord root draft anchorId createdAt))
          anchors := s.anchors ++ [newRecord root draft anchorId createdAt] } := by
  obtain ⟨hget, h⟩ := Option.ite_none_right_eq_some.mp h
  unfold create at h
  simp only at h
  split at h
  · cases h
  · rename_i hany
    split at h
    · cases h
    · refine ⟨fun r hr => ?_, fun r hr => ?_, (Option.some.inj h).symm⟩
      · have hnone := List.find?_eq_none.mp hget r hr
        exact fun heq => hnone (decide_eq_true heq)
      · intro heq
        exact hany (List.any_eq_true.mpr ⟨r, hr, decide_eq_true heq⟩)

/-- A known id is that of a record that is held. -/
theorem get_some {anchorId : String} {r : AnchorRecord} (h : get s anchorId = some r) :
    r ∈ s.anchors ∧ r.anchorId = anchorId := by
  have hid := List.find?_some h
  exact ⟨List.mem_of_find?_eq_some h, of_decide_eq_true hid⟩

/-- A removal of a known id: the directory is removed with everything in it. -/
theorem remove_some {anchorId : String} {r : AnchorRecord} (h : get s anchorId = some r) :
    remove s anchorId =
      { disk := s.disk.rm (dirOf r)
        anchors := s.anchors.filter fun anchor => decide (anchor.anchorId ≠ anchorId) } := by
  rw [remove, h]
  rfl

/-- A removal of an id that is not known. -/
theorem remove_none {anchorId : String} (h : get s anchorId = none) : remove s anchorId = s := by
  rw [remove, h]

/-- The disk is one a file system can have, and each record has an id of its own. -/
structure Sound (s : Store) : Prop where
  closed : s.disk.Closed
  named : Named s.disk
  ids : (s.anchors.map AnchorRecord.anchorId).Nodup

/-- Records under one id are one record. -/
theorem Sound.eq_of_id (h : Sound s) {r b : AnchorRecord} (hr : r ∈ s.anchors)
    (hb : b ∈ s.anchors) (hid : b.anchorId = r.anchorId) : b = r :=
  List.inj_on_of_nodup_map h.ids hb hr hid

/-- Every call keeps the disk and the ids sound. -/
theorem sound_step {e : Call} (h : Sound s) (hstep : step root s e = some t) : Sound t := by
  cases e with
  | create draft anchorId createdAt =>
    obtain ⟨hids, -, rfl⟩ := step_create hstep
    refine ⟨h.closed.put, fun p hp => ?_, ?_⟩
    · rcases Tree.mem_mkdir.mp hp with hp | hp
      · exact h.named p hp
      · exact fun seg hseg => segmentsOf_named _ seg (hp.subset hseg)
    · exact nodup_map_concat h.ids hids
  | remove anchorId =>
    obtain rfl := Option.some.inj hstep
    cases hget : get s anchorId with
    | none => exact (remove_none hget).symm ▸ h
    | some r =>
      rw [remove_some hget]
      refine ⟨h.closed.rm, fun p hp => h.named p (Tree.mem_rm.mp hp).1, ?_⟩
      exact h.ids.sublist (List.filter_sublist.map _)

/-- The store that was loaded is sound. -/
theorem sound_loaded (loaded : Loaded before root) : Sound (machine loaded).init :=
  ⟨loaded.closed, loaded.named, loaded.ids⟩

/-! ### What persists -/

/-- A call whose effect the scan can follow: a creation of a directory in reach, spelled as
the disk spells it; a removal of a directory with no other anchor in it. -/
def Traceable (root : String) (s : Store) : Call → Prop
  | .create draft _ _ =>
    InReach root (segmentsOf (anchorPath root draft)) ∧
      pathText (segmentsOf (anchorPath root draft)) = anchorPath root draft
  | .remove anchorId => ∀ r, get s anchorId = some r →
    ∀ b ∈ s.anchors, b.anchorId ≠ anchorId → ¬ dirOf r <+: dirOf b

/-- Reading a metadata file depends on that file only. -/
theorem readAnchor_congr {disk disk' : Disk} {dir : Path} (h : disk'.mark dir = disk.mark dir) :
    readAnchor disk' dir = readAnchor disk dir := by
  rw [readAnchor, h]
  rfl

/-- A traceable call keeps the records those of the files in reach. -/
theorem matches_step {e : Call} (hsound : Sound s) (h : Matches root s)
    (hG : Traceable root s e) (hstep : step root s e = some t) : Matches root t := by
  cases e with
  | create draft anchorId createdAt =>
    obtain ⟨-, hpaths, rfl⟩ := step_create hstep
    obtain ⟨hreach, hspelled⟩ := hG
    -- nobody has the directory: its record would be spelled as the new one is
    have hfresh : ∀ r ∈ s.anchors, dirOf r ≠ segmentsOf (anchorPath root draft) := by
      intro r hr heq
      have hpath := (readAnchor_ok (h.reads r hr).2).1
      rw [heq, hspelled] at hpath
      exact hpaths r hr hpath
    refine ⟨?_, fun q hq hmark => ?_, fun r hr => ?_⟩
    · exact nodup_map_concat h.nodup hfresh
    · by_cases hnew : q = segmentsOf (anchorPath root draft)
      · exact ⟨_, List.mem_append_right _ List.mem_cons_self, hnew.symm⟩
      · rw [Tree.put_mark_of_ne hnew] at hmark
        obtain ⟨r, hr, hdir⟩ := h.found q hq hmark
        exact ⟨r, List.mem_append_left _ hr, hdir⟩
    · rcases List.mem_append.mp hr with hr | hr
      · obtain ⟨hin, hread⟩ := h.reads r hr
        exact ⟨hin, (readAnchor_congr (Tree.put_mark_of_ne (hfresh r hr))).trans hread⟩
      · obtain rfl := List.mem_singleton.mp hr
        refine ⟨hreach, ?_⟩
        have hread := readAnchor_documentOf (Tree.put_mark_self
          (t := s.disk.mkdir (segmentsOf (anchorPath root draft)))
          (p := segmentsOf (anchorPath root draft))
          (b := documentOf (newRecord root draft anchorId createdAt)))
        rw [hspelled] at hread
        exact hread
  | remove anchorId =>
    obtain rfl := Option.some.inj hstep
    cases hget : get s anchorId with
    | none => exact (remove_none hget).symm ▸ h
    | some r =>
      obtain ⟨hr, hid⟩ := get_some hget
      rw [remove_some hget]
      refine ⟨h.nodup.sublist (List.filter_sublist.map _), fun q hq hmark => ?_, fun b hb => ?_⟩
      · by_cases hin : dirOf r <+: q
        · rw [Tree.rm_mark_inside hin] at hmark
          cases hmark
        · rw [Tree.rm_mark_of_not hin] at hmark
          obtain ⟨b, hb, rfl⟩ := h.found q hq hmark
          refine ⟨b, List.mem_filter.mpr ⟨hb, decide_eq_true fun heq => ?_⟩, rfl⟩
          rw [hsound.eq_of_id hr hb (heq.trans hid.symm)] at hin
          exact hin List.prefix_rfl
      · obtain ⟨hb, hne⟩ := List.mem_filter.mp hb
        obtain ⟨hin, hread⟩ := h.reads b hb
        have hnot := hG r hget b hb (of_decide_eq_true hne)
        exact ⟨hin, (readAnchor_congr (Tree.rm_mark_of_not hnot)).trans hread⟩

/-- After a call that is not traceable a record is missing, or is not where it says. -/
theorem not_matches_step {e : Call} (hG : ¬ Traceable root s e)
    (hstep : step root s e = some t) : ¬ Matches root t := by
  intro ht
  apply hG
  cases e with
  | create draft anchorId createdAt =>
    obtain ⟨-, -, rfl⟩ := step_create hstep
    obtain ⟨hreach, hread⟩ := ht.reads (newRecord root draft anchorId createdAt)
      (List.mem_append_right _ List.mem_cons_self)
    exact ⟨hreach, (readAnchor_ok hread).1.symm⟩
  | remove anchorId =>
    obtain rfl := Option.some.inj hstep
    intro r hget b hb hne hin
    rw [remove_some hget] at ht
    have hmem : b ∈ s.anchors.filter fun anchor => decide (anchor.anchorId ≠ anchorId) :=
      List.mem_filter.mpr ⟨hb, decide_eq_true hne⟩
    have hmark := (readAnchor_ok (ht.reads b hmem).2).2
    rw [Tree.rm_mark_inside hin] at hmark
    cases hmark

/-- A fresh store loads what the store lists, after every call of a run, exactly when every
call is traceable. -/
theorem loads_list_iff (loaded : Loaded before root) (es : List Call) :
    (machine loaded).Always (LoadsList before root) (machine loaded).init es ↔
      (machine loaded).Each (Traceable root) (machine loaded).init es := by
  have hfirst : LoadsList before root (machine loaded).init :=
    ⟨loaded.anchors, loaded.loads, .refl _⟩
  have hsound := sound_loaded loaded
  refine Machine.always_iff_each (I := fun s => Sound s ∧ Matches root s) ?_ ?_ ?_ ?_ es
  · exact fun s hs => (loads_iff hs.1.named hs.1.closed).mpr hs.2
  · exact fun s e t hs hG hstep => ⟨sound_step hs.1 hstep, matches_step hs.1 hs.2 hG hstep⟩
  · intro s e t hs hG hstep hloads
    have ht := sound_step hs.1 hstep
    exact not_matches_step hG hstep ((loads_iff ht.named ht.closed).mp hloads)
  · exact ⟨hsound, (loads_iff hsound.named hsound.closed).mp hfirst⟩

/-! ### A record that is lost -/

/-- A disk with a root that is empty. -/
def emptyDisk : Disk := ⟨[[], [['r']]], fun _ => none⟩

/-- The empty root is closed. -/
theorem emptyDisk_closed : emptyDisk.Closed := by
  refine ⟨fun p hp q hq => ?_, fun p hp => by cases hp⟩
  rcases List.mem_cons.mp hp with rfl | hp
  · rw [List.prefix_nil.mp hq]
    exact List.mem_cons_self
  · obtain rfl := List.mem_singleton.mp hp
    rcases q with _ | ⟨seg, q⟩
    · exact List.mem_cons_self
    · obtain ⟨rfl, hnil⟩ := List.cons_prefix_cons.mp hq
      rw [List.prefix_nil.mp hnil]
      exact List.mem_cons_of_mem _ List.mem_cons_self

/-- A store over an empty root. -/
def emptyLoaded : Loaded (fun _ _ => true) "/r" where
  disk := emptyDisk
  anchors := []
  closed := emptyDisk_closed
  named := by decide +kernel
  loads := by decide +kernel
  ids := List.nodup_nil

/-- A worktree with a slash in its name. -/
def slashDraft : AnchorDraft :=
  ⟨.worktree "worktree/feature/login" none, "n1", "feature/login", "/srv/app", "/srv/w"⟩

theorem slashDraft_isSome :
    ((machine emptyLoaded).run [.create slashDraft "a1" "2026-01-01T00:00:00.000Z"]).isSome =
      true := by
  decide +kernel

/-- A record of a worktree with a slash in its name is not loaded again. -/
theorem slash_not_loaded :
    ¬ ∀ (before : String → String → Bool) (root : String) (loaded : Loaded before root)
      (s : Store), (machine loaded).Reachable s → LoadsList before root s := by
  intro hall
  have hs := Machine.reachable_get _ slashDraft_isSome
  have hloads := hall _ _ emptyLoaded _ hs
  have hsound : Sound _ := Machine.ReachableWhen.invariant (I := Sound)
    (sound_loaded emptyLoaded) (fun _ _ _ h _ hstep => sound_step h hstep) hs
  have hmatches := (loads_iff hsound.named hsound.closed).mp hloads
  have hreach := (hmatches.reads (newRecord "/r" slashDraft "a1" "2026-01-01T00:00:00.000Z")
    (by decide +kernel)).1
  have hdeep : ¬ (dirOf (newRecord "/r" slashDraft "a1" "2026-01-01T00:00:00.000Z")).length ≤
      (segmentsOf "/r").length + scanDepth := by decide +kernel
  exact hdeep hreach.2

end RemoteWorkspace.Analysis.Anchors
