import Mathlib.Data.List.Perm.Basic
import RemoteWorkspace.Computation.Fallible
import RemoteWorkspace.Model.Anchors

/-!
# What a scan of the anchor tree finds

The scan finds each metadata file once that stands at most three directories below the root,
and no other (`mem_findMetadataFiles`). A fresh store therefore loads, up to their order,
exactly the records a store holds when the store's records are those of the files in reach,
each in its own directory and each spelled as the disk spells it (`loads_iff`).
-/

set_option autoImplicit false

namespace RemoteWorkspace.Analysis.Anchors

open RemoteWorkspace.Computation RemoteWorkspace.Model RemoteWorkspace.Model.Anchors

variable {disk : Disk} {root : String} {before : String → String → Bool}

/-! ### Directories and their spelling -/

/-- The segments of a path hold something, and no separator. -/
theorem segmentsOf_named (path : String) : ∀ s ∈ segmentsOf path, s ≠ [] ∧ '/' ∉ s := by
  intro s hs
  obtain ⟨hmem, hne⟩ := List.mem_filter.mp hs
  exact ⟨of_decide_eq_true hne, not_mem_of_mem_splitOn '/' path.toList s hmem⟩

/-- A directory is read back from its spelling. -/
theorem segmentsOf_pathText {q : Path} (h : ∀ s ∈ q, s ≠ [] ∧ '/' ∉ s) :
    segmentsOf (pathText q) = q := by
  rw [segmentsOf, pathText, String.toList_ofList, segments_cons, segments_intercalate h]

/-- The directories of a disk have names. -/
def Named (disk : Disk) : Prop := ∀ p ∈ disk.dirs, ∀ s ∈ p, s ≠ [] ∧ '/' ∉ s

/-! ### The scan -/

/-- The scan finds the metadata files within the levels it is given. -/
theorem mem_findMetadataFiles (hclosed : disk.Closed) {levels : ℕ} {dir q : Path} :
    q ∈ findMetadataFiles disk levels dir ↔
      (disk.mark q).isSome = true ∧ ∃ rel, q = dir ++ rel ∧ rel.length < levels := by
  induction levels generalizing dir with
  | zero => simp [findMetadataFiles]
  | succ levels ih =>
    rw [findMetadataFiles, List.mem_append, List.mem_flatMap]
    constructor
    · rintro (hq | ⟨name, hname, hq⟩)
      · split at hq
        · rename_i hmark
          obtain rfl := List.mem_singleton.mp hq
          exact ⟨hmark, [], (List.append_nil _).symm, Nat.succ_pos _⟩
        · cases hq
      · obtain ⟨hmark, rel, rfl, hrel⟩ := ih.mp hq
        exact ⟨hmark, name :: rel, by simp, by simpa using hrel⟩
    · rintro ⟨hmark, rel, rfl, hrel⟩
      rcases rel with _ | ⟨name, rel⟩
      · rw [List.append_nil] at hmark ⊢
        exact .inl (by rw [if_pos hmark]; exact List.mem_singleton_self _)
      · -- the directory one level down is there, because the file below it is
        refine .inr ⟨name, Tree.mem_children.mpr ?_, ih.mpr ⟨hmark, rel, by simp, ?_⟩⟩
        · exact hclosed.dirs _ (hclosed.marks _ hmark) _ ⟨rel, by simp⟩
        · simpa using hrel

/-- The scan finds no metadata file twice. -/
theorem nodup_findMetadataFiles (hclosed : disk.Closed) (levels : ℕ) (dir : Path) :
    (findMetadataFiles disk levels dir).Nodup := by
  induction levels generalizing dir with
  | zero => exact List.nodup_nil
  | succ levels ih =>
    rw [findMetadataFiles, List.nodup_append]
    refine ⟨?_, ?_, ?_⟩
    · split
      · exact List.nodup_singleton dir
      · exact List.nodup_nil
    · rw [List.nodup_flatMap]
      refine ⟨fun name _ => ih (dir ++ [name]), ?_⟩
      -- what is found under two names starts with two names
      refine (List.nodup_dedup _).imp fun {name name'} hne => ?_
      refine List.disjoint_left.mpr fun q hq hq' => ?_
      obtain ⟨-, rel, rfl, -⟩ := (mem_findMetadataFiles hclosed).mp hq
      obtain ⟨-, rel', heq, -⟩ := (mem_findMetadataFiles hclosed).mp hq'
      rw [List.append_assoc, List.append_assoc] at heq
      exact hne (List.cons.inj (List.append_cancel_left heq)).1
    · intro p hp q hq heq
      split at hp
      · obtain rfl := List.mem_singleton.mp hp
        obtain ⟨name, -, hq⟩ := List.mem_flatMap.mp hq
        obtain ⟨-, rel, hrel, -⟩ := (mem_findMetadataFiles hclosed).mp hq
        rw [← heq, List.append_assoc] at hrel
        simp at hrel
      · cases hp

/-! ### Reading what was found -/

/-- The directory of a record. -/
def dirOf (record : AnchorRecord) : Path := segmentsOf record.anchorPath

/-- A directory the scan reaches. -/
def InReach (root : String) (q : Path) : Prop :=
  segmentsOf root <+: q ∧ q.length ≤ (segmentsOf root).length + scanDepth

/-- The scan of a store finds the metadata files in reach. -/
theorem mem_scan (hclosed : disk.Closed) {q : Path} :
    q ∈ findMetadataFiles disk (scanDepth + 1) (segmentsOf root) ↔
      (disk.mark q).isSome = true ∧ InReach root q := by
  rw [mem_findMetadataFiles hclosed, InReach]
  constructor
  · rintro ⟨hmark, rel, rfl, hrel⟩
    refine ⟨hmark, List.prefix_append _ _, ?_⟩
    rw [List.length_append]
    omega
  · rintro ⟨hmark, ⟨rel, rfl⟩, hlength⟩
    refine ⟨hmark, rel, rfl, ?_⟩
    rw [List.length_append] at hlength
    omega

/-- A document that was written is read as the record it was written for. -/
theorem parseAnchor_documentOf (record : AnchorRecord) (file : String) :
    parseAnchor (documentOf record) file = .ok record := by
  obtain ⟨_, _, _, _, _, _, _, kind⟩ := record
  rcases kind with ⟨branch, _ | _⟩ | _
  · rfl
  · rfl
  · rfl

/-- The metadata file of a record, read. -/
theorem readAnchor_documentOf {record : AnchorRecord} {dir : Path}
    (h : disk.mark dir = some (documentOf record)) :
    readAnchor disk dir = .ok { record with anchorPath := pathText dir } := by
  rw [readAnchor, h]
  simp only
  rw [parseAnchor_documentOf]
  rfl

/-- A record that was read is spelled as its directory, and its directory has a metadata
file. -/
theorem readAnchor_ok {record : AnchorRecord} {dir : Path}
    (h : readAnchor disk dir = .ok record) :
    record.anchorPath = pathText dir ∧ (disk.mark dir).isSome = true := by
  unfold readAnchor at h
  cases hmark : disk.mark dir with
  | none =>
    rw [hmark] at h
    cases h
  | some document =>
    rw [hmark] at h
    simp only at h
    cases hparse : parseAnchor document (metadataFile dir) with
    | error text =>
      rw [hparse] at h
      cases h
    | ok parsed =>
      rw [hparse] at h
      refine ⟨?_, rfl⟩
      rw [← Except.ok.inj h]

/-- Reading files one after another reads each of them. -/
theorem readAnchors_eq_ok_iff {dirs : List Path} {records : List AnchorRecord} :
    readAnchors disk dirs = .ok records ↔
      List.Forall₂ (fun dir record => readAnchor disk dir = .ok record) dirs records := by
  induction dirs generalizing records with
  | nil =>
    rw [readAnchors, List.forall₂_nil_left_iff]
    exact ⟨fun h => (Except.ok.inj h).symm, fun h => congrArg _ h.symm⟩
  | cons dir dirs ih =>
    rw [readAnchors, bind_eq_ok_iff]
    simp only [bind_eq_ok_iff]
    constructor
    · rintro ⟨record, hrecord, rest, hrest, h⟩
      obtain rfl := Except.ok.inj h
      exact .cons hrecord (ih.mp hrest)
    · intro h
      cases h with
      | cons hrecord hrest => exact ⟨_, hrecord, _, ih.mpr hrest, rfl⟩

/-! ### A fresh store -/

/-- The records of a store are those of the files in reach, each in a directory of its own
and spelled as the disk spells it. -/
structure Matches (root : String) (s : Store) : Prop where
  nodup : (s.anchors.map dirOf).Nodup
  found : ∀ q, InReach root q → (s.disk.mark q).isSome = true → ∃ r ∈ s.anchors, dirOf r = q
  reads : ∀ r ∈ s.anchors, InReach root (dirOf r) ∧ readAnchor s.disk (dirOf r) = .ok r

/-- A fresh store loads what a store lists. -/
def LoadsList (before : String → String → Bool) (root : String) (s : Store) : Prop :=
  ∃ records, load before root s.disk = .ok records ∧ records.Perm s.anchors

/-- Read records are in the directories they were read from. -/
theorem map_dirOf_of_forall₂ (hnamed : Named disk) (hclosed : disk.Closed) {dirs : List Path}
    {records : List AnchorRecord}
    (h : List.Forall₂ (fun dir record => readAnchor disk dir = .ok record) dirs records) :
    records.map dirOf = dirs := by
  induction h with
  | nil => rfl
  | cons hread _ ih =>
    obtain ⟨hpath, hmark⟩ := readAnchor_ok hread
    rw [List.map_cons, ih, dirOf, hpath,
      segmentsOf_pathText (hnamed _ (hclosed.marks _ hmark))]

/-- A fresh store loads what a store lists exactly when the records match the files in
reach. -/
theorem loads_iff {s : Store} (hnamed : Named s.disk) (hclosed : s.disk.Closed) :
    LoadsList before root s ↔ Matches root s := by
  constructor
  · rintro ⟨records, hload, hperm⟩
    have hread := readAnchors_eq_ok_iff.mp hload
    have hdirs := map_dirOf_of_forall₂ hnamed hclosed hread
    have hscan : (s.anchors.map dirOf).Perm
        (findMetadataFiles s.disk (scanDepth + 1) (segmentsOf root)) := by
      refine (hperm.map dirOf).symm.trans ?_
      rw [hdirs]
      exact List.mergeSort_perm _ _
    refine ⟨hscan.nodup_iff.mpr (nodup_findMetadataFiles hclosed _ _), fun q hreach hmark => ?_,
      fun r hr => ?_⟩
    · exact List.mem_map.mp (hscan.mem_iff.mpr ((mem_scan hclosed).mpr ⟨hmark, hreach⟩))
    · have hmem := (mem_scan hclosed).mp (hscan.mem_iff.mp (List.mem_map_of_mem hr))
      rw [← hdirs, List.forall₂_map_left_iff, List.forall₂_same] at hread
      exact ⟨hmem.2, hread r (hperm.mem_iff.mpr hr)⟩
  · intro h
    have hperm : (findMetadataFiles s.disk (scanDepth + 1) (segmentsOf root)).Perm
        (s.anchors.map dirOf) := by
      refine (List.perm_ext_iff_of_nodup (nodup_findMetadataFiles hclosed _ _) h.nodup).mpr ?_
      intro q
      rw [mem_scan hclosed, List.mem_map]
      constructor
      · exact fun hq => h.found q hq.2 hq.1
      · rintro ⟨r, hr, rfl⟩
        obtain ⟨hreach, hread⟩ := h.reads r hr
        exact ⟨(readAnchor_ok hread).2, hreach⟩
    have hall : List.Forall₂ (fun dir record => readAnchor s.disk dir = .ok record)
        (s.anchors.map dirOf) s.anchors := by
      rw [List.forall₂_map_left_iff, List.forall₂_same]
      exact fun r hr => (h.reads r hr).2
    obtain ⟨records, hread, hsame⟩ :=
      List.perm_comp_forall₂ ((List.mergeSort_perm _ _).trans hperm) hall
    exact ⟨records, readAnchors_eq_ok_iff.mpr hread, hsame⟩

end RemoteWorkspace.Analysis.Anchors
