import RemoteWorkspace.Analysis.Classify
import RemoteWorkspace.Analysis.PosixSegments
import RemoteWorkspace.Computation.Fallible
import RemoteWorkspace.Model.FsPaths

/-!
# The paths that the daemon answers

A normalized absolute path without a trailing slash is the place that it spells out, written
down: the daemon places and resolves requests to such paths, and one of them lies within another
exactly when its place lies below the other's.
-/

set_option autoImplicit false

namespace RemoteWorkspace.Analysis.FsPaths

open RemoteWorkspace.Computation RemoteWorkspace.Computation.Symlinks
open RemoteWorkspace.Model RemoteWorkspace.Model.FsPaths
open RemoteWorkspace.Model.FsText (Failure absolutePath)
open RemoteWorkspace.Model.Routing (isWithin)
open RemoteWorkspace.Analysis.PosixSegments RemoteWorkspace.Analysis.Classify

variable {place rest : Place} {path verb : String} {base : Option String}

/-! ### Places written down -/

/-- Every name of the place can stand in a directory. -/
def Named (place : Place) : Prop := ∀ name ∈ place, IsName name

/-- What can stand in a directory is a segment that normalizing keeps. -/
theorem isName_iff_plain {name : List Char} : IsName name ↔ Plain name :=
  ⟨fun h => ⟨h.1, h.2.1, h.2.2.1, h.2.2.2⟩, fun h => ⟨h.ne_nil, h.ne_dot, h.ne_dotdot, h.no_slash⟩⟩

/-- The names of a place are segments that normalizing keeps. -/
theorem Named.plain (h : Named place) : ∀ name ∈ place, Plain name :=
  fun name hname => isName_iff_plain.mp (h name hname)

/-- A place below a place has the names of both. -/
theorem Named.append (h : Named place) (hrest : Named rest) : Named (place ++ rest) := by
  intro name hname
  rcases List.mem_append.mp hname with hname | hname
  · exact h name hname
  · exact hrest name hname

/-- The characters of a place written down. -/
theorem toList_pathOf (place : Place) : (pathOf place).toList = written place false := by
  simp [pathOf, written]

/-- A place written down is a canonical path. -/
theorem Named.canonical (h : Named place) : Canonical (pathOf place) :=
  ⟨place, false, h.plain, toList_pathOf place⟩

/-- A place written down spells the place out. -/
theorem placeOf_pathOf (h : Named place) : placeOf (pathOf place) = place := by
  rw [placeOf, toList_pathOf, segments_written h.plain]

/-- A place below the root is a normalized root of what is below it. -/
theorem Named.normalizedRoot (h : Named place) (hne : place ≠ []) :
    NormalizedRoot (pathOf place) where
  absolute := by rw [toList_pathOf, written, List.head?_cons]
  normalized := by
    have hslash : (written place false).getLast? ≠ some '/' := by
      rw [ne_eq, getLast?_written h.plain]
      simp [hne]
    have hplain := h.canonical.plain
    rw [← String.toList_inj, toList_normalize_of_plain (toList_pathOf place) hplain]
    rw [toList_pathOf, segments_written h.plain, decide_eq_false hslash]
  no_trailing_slash := by
    rw [toList_pathOf, ne_eq, getLast?_written h.plain]
    simp [hne]

/-- A path lies within another when its place lies below the other's. -/
theorem isWithin_pathOf (h : Named place) (hrest : Named rest) :
    isWithin (pathOf place) (pathOf rest) = true ↔ place <+: rest := by
  rcases eq_or_ne place [] with rfl | hne
  · simp [isWithin, pathOf]
  · rw [isWithin_iff (h.normalizedRoot hne) hrest.canonical, Below, toList_pathOf, toList_pathOf,
      segments_written h.plain, segments_written hrest.plain]

/-! ### Requests -/

/-- A path is the place it spells out, written down. -/
def Written (path : String) : Prop := ∃ place, Named place ∧ path = pathOf place

/-- What `normalize` makes of a path is a place written down. -/
theorem normalize_written (chars : List Char) : Written (FsText.normalize chars) := by
  have hplain := foldl_normalizeSegment_keeps_plain
    (not_mem_of_mem_splitOn '/' chars) (List.forall_mem_nil Plain)
  exact ⟨_, fun name hname => isName_iff_plain.mpr (hplain name hname), rfl⟩

/-- A request is placed at a written path. -/
theorem absolutePath_written {target : String}
    (h : absolutePath verb path base = .ok target) : Written target := by
  unfold absolutePath at h
  split at h
  · exact Except.ok.inj h ▸ normalize_written _
  · split at h
    · split at h
      · exact Except.ok.inj h ▸ normalize_written _
      · cases h
    · cases h

/-- A canonical path is placed where it spells out. -/
theorem absolutePath_canonical (h : Canonical path) :
    absolutePath verb path base = .ok (pathOf (placeOf path)) := by
  obtain ⟨rest, hrest⟩ := h.absolute
  have hnormalize : FsText.normalize path.toList = pathOf (placeOf path) := by
    rw [FsText.normalize, foldl_normalizeSegment_plain h.plain, List.nil_append]
    rfl
  unfold absolutePath
  rw [if_pos (by rw [hrest, List.head?_cons]), hnormalize]

/-- A written path is placed at itself. -/
theorem absolutePath_pathOf (h : Named place) :
    absolutePath verb (pathOf place) base = .ok (pathOf place) := by
  rw [absolutePath_canonical h.canonical, placeOf_pathOf h]

/-- What is joined onto a written path is placed below it. -/
theorem absolutePath_join (h : Named place) (hrest : Named rest) :
    absolutePath verb (PosixPath.join [pathOf place, pathOf rest]) base =
      .ok (pathOf (place ++ rest)) := by
  have hplain : ∀ s ∈ segments '/' (pathOf rest).toList, Plain s := hrest.canonical.plain
  obtain ⟨hcanonical, hsegments⟩ := join_suffix h.canonical (toList_pathOf rest) hplain
  have hplace : placeOf (PosixPath.join [pathOf place, pathOf rest]) = place ++ rest := by
    have hfront : segments '/' (pathOf place).toList = place := placeOf_pathOf h
    have hback : segments '/' (pathOf rest).toList = rest := placeOf_pathOf hrest
    rw [placeOf, hsegments, hfront, hback]
  rw [absolutePath_canonical hcanonical, hplace]

/-! ### Canonical targets -/

section Resolve

variable {fs : FileSystem (List Char)} {c : Place}

/-- Every place at which something stands has a name in each directory. -/
def AllNamed (fs : FileSystem (List Char)) : Prop := ∀ place, (fs place).isSome = true → Named place

/-- The names of something real can stand in a directory. -/
theorem AllNamed.real (hfs : AllNamed fs) (h : Real fs place) : Named place := by
  rcases eq_or_ne place [] with rfl | hne
  · exact List.forall_mem_nil _
  · exact hfs place (h.stands hne).1

/-- What exists is resolved to its canonical path. -/
theorem canonicalTarget_of_canonicalize (hplace : Named place)
    (h : canonicalize fs place = .ok c) : canonicalTarget fs verb (pathOf place) = .ok (pathOf c) := by
  rw [canonicalTarget, placeOf_pathOf hplace, h]

/-- Where a path leads, with the names that are missing below it, is written. -/
theorem written_below (hfs : AllNamed fs) {missing : Place} (hmissing : Named missing)
    (h : canonicalize fs place = .ok c) : Written (pathOf (c ++ missing)) :=
  ⟨c ++ missing, (hfs.real (canonicalize_real h)).append hmissing, rfl⟩

/-- An ancestor is resolved to a written path. -/
theorem canonicalAncestor_written (hfs : AllNamed fs) (hpath : Written path)
    {ancestor : List (List Char)} {missing : Place} {target : String} (hancestor : Named ancestor)
    (hmissing : Named missing)
    (h : canonicalAncestor fs verb path ancestor missing = .ok target) : Written target := by
  induction ancestor generalizing missing with
  | nil =>
    rw [canonicalAncestor] at h
    split at h
    · exact Except.ok.inj h ▸ written_below hfs hmissing ‹_›
    · split at h
      · exact Except.ok.inj h ▸ hpath
      · cases h
  | cons name parent ih =>
    rw [canonicalAncestor] at h
    split at h
    · exact Except.ok.inj h ▸ written_below hfs hmissing ‹_›
    · split at h
      · obtain ⟨hname, hparent⟩ := List.forall_mem_cons.mp hancestor
        exact ih hparent (List.forall_mem_cons.mpr ⟨hname, hmissing⟩) h
      · cases h

/-- A request is resolved to a written path. -/
theorem resolve_written (hfs : AllNamed fs) {target : String}
    (h : resolve fs base path = .ok target) : Written target := by
  obtain ⟨absolute, habsolute, htarget⟩ := bind_eq_ok_iff.mp h
  obtain ⟨place, hplace, rfl⟩ := absolutePath_written habsolute
  unfold canonicalTarget at htarget
  rw [placeOf_pathOf hplace] at htarget
  split at htarget
  · exact Except.ok.inj htarget ▸ ⟨_, hfs.real (canonicalize_real ‹_›), rfl⟩
  · split at htarget
    · cases htarget
    · split at htarget
      · cases htarget
      · split at htarget
        · exact Except.ok.inj htarget ▸ ⟨place, hplace, rfl⟩
        · rename_i name parent hreverse
          have hnames : Named (name :: parent) := by
            rw [← hreverse]
            exact fun n hn => hplace n (List.mem_reverse.mp hn)
          obtain ⟨hname, hparent⟩ := List.forall_mem_cons.mp hnames
          exact canonicalAncestor_written hfs ⟨place, hplace, rfl⟩ hparent
            (List.forall_mem_singleton.mpr hname) htarget

/-- What is asked for below a written path is resolved below the place that the path leads to. -/
theorem resolve_join (hplace : Named place) (hrest : Named rest)
    (h : canonicalize fs place = .ok c) (hreal : Real fs (c ++ rest)) :
    resolve fs base (PosixPath.join [pathOf place, pathOf rest]) = .ok (pathOf (c ++ rest)) := by
  unfold resolve
  rw [absolutePath_join hplace hrest, except_ok_bind]
  exact canonicalTarget_of_canonicalize (hplace.append hrest) (canonicalize_append h hreal)

end Resolve

end RemoteWorkspace.Analysis.FsPaths
