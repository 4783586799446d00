import RemoteWorkspace.Analysis.AnchorPersistence

/-!
# Anchors beside one another

Removing an anchor removes its directory with everything in it, so what keeps the other
anchors is that none of them lies in it. The store refuses a path only when it is another
anchor's, letter by letter; the path itself is joined from the caller's strings, and may lead
out of the root or into another anchor. The anchors stay beside one another, and in place,
exactly when every new one is put beside those that are held (`apart_iff`).
-/

set_option autoImplicit false

namespace RemoteWorkspace.Analysis.Anchors

open RemoteWorkspace.Computation RemoteWorkspace.Model RemoteWorkspace.Model.Anchors

variable {before : String → String → Bool} {root : String} {s t : Store}

/-- The directory of a new record. -/
theorem dirOf_newRecord (root : String) (draft : AnchorDraft) (anchorId createdAt : String) :
    dirOf (newRecord root draft anchorId createdAt) = segmentsOf (anchorPath root draft) := rfl

/-- Every anchor lies strictly below the root and not in another one, and its directory and
metadata are in place: the metadata reads back as the record, at the directory it is in. -/
structure Apart (root : String) (s : Store) : Prop where
  below : ∀ r ∈ s.anchors, segmentsOf root <+: dirOf r ∧ dirOf r ≠ segmentsOf root
  apart : ∀ r ∈ s.anchors, ∀ b ∈ s.anchors, r.anchorId ≠ b.anchorId → ¬ dirOf r <+: dirOf b
  inPlace : ∀ r ∈ s.anchors, dirOf r ∈ s.disk.dirs ∧
    readAnchor s.disk (dirOf r) = .ok { r with anchorPath := pathText (dirOf r) }

/-- A creation strictly below the root, of a directory that is in no anchor's and has none in
it; any removal. -/
def Beside (root : String) (s : Store) : Call → Prop
  | .create draft _ _ =>
    segmentsOf root <+: segmentsOf (anchorPath root draft) ∧
      segmentsOf (anchorPath root draft) ≠ segmentsOf root ∧
      ∀ b ∈ s.anchors, ¬ dirOf b <+: segmentsOf (anchorPath root draft) ∧
        ¬ segmentsOf (anchorPath root draft) <+: dirOf b
  | .remove _ => True

/-- A creation beside the anchors that are held. -/
theorem apart_create {draft : AnchorDraft} {anchorId createdAt : String} (h : Apart root s)
    (hG : Beside root s (.create draft anchorId createdAt))
    (hstep : step root s (.create draft anchorId createdAt) = some t) : Apart root t := by
  obtain ⟨-, -, rfl⟩ := step_create hstep
  obtain ⟨hbelow, hne, hbeside⟩ := hG
  refine ⟨fun r hr => ?_, fun r hr b hb hid => ?_, fun r hr => ?_⟩
  · rcases List.mem_append.mp hr with hr | hr
    · exact h.below r hr
    · obtain rfl := List.mem_singleton.mp hr
      exact ⟨hbelow, hne⟩
  · rcases List.mem_append.mp hr with hr | hr
    · rcases List.mem_append.mp hb with hb | hb
      · exact h.apart r hr b hb hid
      · obtain rfl := List.mem_singleton.mp hb
        exact (hbeside r hr).1
    · obtain rfl := List.mem_singleton.mp hr
      rcases List.mem_append.mp hb with hb | hb
      · exact (hbeside b hb).2
      · exact absurd (congrArg _ (List.mem_singleton.mp hb).symm) hid
  · rcases List.mem_append.mp hr with hr | hr
    · obtain ⟨hdir, hread⟩ := h.inPlace r hr
      -- the new metadata file is not in the directory of another anchor
      have hother : dirOf r ≠ segmentsOf (anchorPath root draft) :=
        fun heq => (hbeside r hr).1 (heq ▸ List.prefix_rfl)
      exact ⟨Tree.mem_mkdir.mpr (.inl hdir),
        (readAnchor_congr (Tree.put_mark_of_ne hother)).trans hread⟩
    · obtain rfl := List.mem_singleton.mp hr
      exact ⟨Tree.mem_mkdir.mpr (.inr List.prefix_rfl),
        readAnchor_documentOf Tree.put_mark_self⟩

/-- A removal takes nothing from the other anchors. -/
theorem apart_remove {anchorId : String} (h : Apart root s) :
    Apart root (remove s anchorId) := by
  cases hget : get s anchorId with
  | none => exact (remove_none hget).symm ▸ h
  | some a =>
    obtain ⟨ha, hid⟩ := get_some hget
    rw [remove_some hget]
    have hheld : ∀ r ∈ s.anchors.filter fun anchor => decide (anchor.anchorId ≠ anchorId),
        r ∈ s.anchors ∧ r.anchorId ≠ anchorId := by
      intro r hr
      obtain ⟨hr, hne⟩ := List.mem_filter.mp hr
      exact ⟨hr, of_decide_eq_true hne⟩
    refine ⟨fun r hr => h.below r (hheld r hr).1, fun r hr b hb =>
      h.apart r (hheld r hr).1 b (hheld b hb).1, fun r hr => ?_⟩
    obtain ⟨hr, hne⟩ := hheld r hr
    obtain ⟨hdir, hread⟩ := h.inPlace r hr
    have hout : ¬ dirOf a <+: dirOf r := h.apart a ha r hr (hid ▸ hne.symm)
    exact ⟨Tree.mem_rm.mpr ⟨hdir, hout⟩,
      (readAnchor_congr (Tree.rm_mark_of_not hout)).trans hread⟩

/-- After a creation that is not beside the anchors that are held, one is outside the root or
in another. -/
theorem not_apart_step {e : Call} (hG : ¬ Beside root s e) (hstep : step root s e = some t) :
    ¬ Apart root t := by
  intro ht
  apply hG
  cases e with
  | create draft anchorId createdAt =>
    obtain ⟨hids, -, rfl⟩ := step_create hstep
    have hnew : newRecord root draft anchorId createdAt ∈
        s.anchors ++ [newRecord root draft anchorId createdAt] :=
      List.mem_append_right _ List.mem_cons_self
    obtain ⟨hbelow, hne⟩ := ht.below _ hnew
    refine ⟨hbelow, hne, fun b hb => ?_⟩
    have hb' : b ∈ s.anchors ++ [newRecord root draft anchorId createdAt] :=
      List.mem_append_left _ hb
    have hid : b.anchorId ≠ (newRecord root draft anchorId createdAt).anchorId := hids b hb
    rw [← dirOf_newRecord root draft anchorId createdAt]
    exact ⟨ht.apart b hb' _ hnew hid, ht.apart _ hnew b hb' hid.symm⟩
  | remove anchorId => exact trivial

/-- The anchors are below the root, beside one another and in place after every call of a run
exactly when they are at first and every creation is beside the anchors that are held. -/
theorem apart_iff (loaded : Loaded before root) (es : List Call) :
    (machine loaded).Always (Apart root) (machine loaded).init es ↔
      Apart root (machine loaded).init ∧
        (machine loaded).Each (Beside root) (machine loaded).init es := by
  have hiff : Apart root (machine loaded).init →
      ((machine loaded).Always (Apart root) (machine loaded).init es ↔
        (machine loaded).Each (Beside root) (machine loaded).init es) := by
    intro hfirst
    refine Machine.always_iff_each (I := Apart root) (fun _ h => h) ?_ ?_ hfirst es
    · intro s e t hs hG hstep
      cases e with
      | create draft anchorId createdAt => exact apart_create hs hG hstep
      | remove anchorId =>
        obtain rfl := Option.some.inj hstep
        exact apart_remove hs
    · exact fun s e t _ hG hstep => not_apart_step hG hstep
  constructor
  · intro h
    have hfirst : Apart root (machine loaded).init := h.first
    exact ⟨hfirst, (hiff hfirst).mp h⟩
  · exact fun ⟨hfirst, h⟩ => (hiff hfirst).mpr h

/-! ### An anchor around another -/

/-- A worktree by the name of the directory above. -/
def upDraft : AnchorDraft := ⟨.worktree "worktree/up" none, "n1", "..", "/srv/app", "/srv/w"⟩

/-- A worktree by a plain name. -/
def plainDraft : AnchorDraft :=
  ⟨.worktree "worktree/login" none, "n1", "login", "/srv/app", "/srv/w"⟩

/-- A worktree, and one whose name leads to the directory above it. -/
def nestRun : List Call := [.create plainDraft "a1" "t1", .create upDraft "a2" "t2"]

theorem nestRun_isSome : ((machine emptyLoaded).run nestRun).isSome = true := by
  decide +kernel

/-- An anchor whose name leads upwards is put around another one. -/
theorem nested_anchors :
    ¬ ∀ (before : String → String → Bool) (root : String) (loaded : Loaded before root)
      (s : Store), (machine loaded).Reachable s → Apart root (machine loaded).init →
      Apart root s := by
  intro hall
  have hfirst : Apart "/r" (machine emptyLoaded).init := by
    refine ⟨?_, ?_, ?_⟩ <;> exact fun r hr => by cases hr
  have hapart := hall _ _ emptyLoaded _ (Machine.reachable_get _ nestRun_isSome) hfirst
  have hnot := hapart.apart (newRecord "/r" upDraft "a2" "t2") (by decide +kernel)
    (newRecord "/r" plainDraft "a1" "t1") (by decide +kernel) (by decide)
  have hin : dirOf (newRecord "/r" upDraft "a2" "t2") <+:
      dirOf (newRecord "/r" plainDraft "a1" "t1") := by decide +kernel
  exact hnot hin

end RemoteWorkspace.Analysis.Anchors
