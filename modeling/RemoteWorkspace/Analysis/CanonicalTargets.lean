import RemoteWorkspace.Analysis.FsPaths

/-!
# Canonical targets are stable

A path that leads somewhere has the canonical path of where it leads. One that misses something
splits at its deepest ancestor that leads somewhere, and the loop of `canonical_target` finds just
that split. What it answers splits at the same names, below the canonical place of that ancestor,
so asking again answers the same.
-/

set_option autoImplicit false

namespace RemoteWorkspace.Analysis.CanonicalTargets

open RemoteWorkspace.Computation RemoteWorkspace.Computation.Symlinks
open RemoteWorkspace.Model RemoteWorkspace.Model.FsPaths
open RemoteWorkspace.Model.FsText (Failure absolutePath)
open RemoteWorkspace.Analysis.FsPaths

variable {fs : FileSystem (List Char)} {place ancestor missing real : Place}
  {verb path requested : String} {base : Option String}

/-- The loop ends at an ancestor that leads somewhere. -/
theorem canonicalAncestor_leads (h : canonicalize fs ancestor = .ok real) (rest : Place) :
    canonicalAncestor fs verb path ancestor.reverse rest = .ok (pathOf (real ++ rest)) := by
  rw [← List.reverse_reverse ancestor] at h
  generalize ancestor.reverse = up at *
  cases up <;> rw [canonicalAncestor, h]

/-- The loop goes up from an ancestor that misses something. -/
theorem canonicalAncestor_misses {name : List Char}
    (h : canonicalize fs (ancestor ++ [name]) = .error .missing) (rest : Place) :
    canonicalAncestor fs verb path (ancestor ++ [name]).reverse rest =
      canonicalAncestor fs verb path ancestor.reverse (name :: rest) := by
  have hreverse : (ancestor ++ [name]).reverse = name :: ancestor.reverse := by simp
  rw [hreverse, canonicalAncestor, ← hreverse, List.reverse_reverse, h]
  rfl

/-- The loop goes up to the ancestor of a split. -/
theorem canonicalAncestor_of_splits (h : Splits fs ancestor missing real) {q rest : Place}
    (hparts : q ++ rest = missing) :
    canonicalAncestor fs verb path (ancestor ++ q).reverse rest =
      .ok (pathOf (real ++ missing)) := by
  induction q using List.reverseRecOn generalizing rest with
  | nil =>
    rw [List.append_nil, canonicalAncestor_leads h.leads, ← hparts, List.nil_append]
  | append_singleton q name ih =>
    have hmisses := h.misses (q ++ [name]) (by simp) ⟨rest, hparts⟩
    rw [← List.append_assoc] at hmisses ⊢
    rw [canonicalAncestor_misses hmisses]
    exact ih (by rw [← hparts, List.append_assoc, List.singleton_append])

/-- The target of a path that splits. -/
theorem canonicalTarget_of_splits (h : Splits fs ancestor missing real) (hne : missing ≠ [])
    (hplace : placeOf path = ancestor ++ missing) :
    canonicalTarget fs verb path = .ok (pathOf (real ++ missing)) := by
  have hmisses := h.misses missing hne (List.prefix_refl missing)
  rcases List.eq_nil_or_concat missing with hnil | ⟨q, name, rfl⟩
  · exact absurd hnil hne
  · have hreverse : (ancestor ++ (q ++ [name])).reverse = name :: (ancestor ++ q).reverse := by
      simp
    rw [List.concat_eq_append] at h hmisses hplace ⊢
    rw [canonicalTarget, hplace, hmisses, hreverse]
    exact canonicalAncestor_of_splits h rfl

/-- A path has a target when it leads somewhere, or misses something. -/
theorem canonicalize_of_canonicalTarget {c : String}
    (h : canonicalTarget fs verb path = .ok c) :
    (∃ real, canonicalize fs (placeOf path) = .ok real) ∨
      canonicalize fs (placeOf path) = .error .missing := by
  unfold canonicalTarget at h
  cases hplace : canonicalize fs (placeOf path) with
  | ok real => exact .inl ⟨real, rfl⟩
  | error stop =>
    rw [hplace] at h
    cases stop with
    | missing => exact .inr rfl
    | _ => cases h

/-- The names of the parts of a split. -/
theorem named_real (hfs : AllNamed fs) (h : Splits fs ancestor missing real)
    (hmissing : Named missing) : Named (real ++ missing) :=
  (hfs.real (canonicalize_real h.leads)).append hmissing

/-- For every file system and every normalized absolute path: asking for the target of a target
answers it again; what exists has the operating system's canonical path for its target; and what
does not has the canonical path of its deepest existing ancestor, followed by the missing
segments in order. -/
theorem canonical_target_stable (hfs : AllNamed fs)
    (hpath : absolutePath verb requested base = .ok path) :
    (∀ c, canonicalTarget fs verb path = .ok c → canonicalTarget fs verb c = .ok c) ∧
    (∀ real, canonicalize fs (placeOf path) = .ok real →
      canonicalTarget fs verb path = .ok (pathOf real)) ∧
    (∀ c, canonicalTarget fs verb path = .ok c →
      (∀ real, canonicalize fs (placeOf path) ≠ .ok real) →
      ∃ ancestor missing real, placeOf path = ancestor ++ missing ∧ missing ≠ [] ∧
        canonicalize fs ancestor = .ok real ∧
        (∀ q, q ≠ [] → q <+: missing → ∀ r, canonicalize fs (ancestor ++ q) ≠ .ok r) ∧
        c = pathOf (real ++ missing)) := by
  obtain ⟨place, hplace, rfl⟩ := absolutePath_written hpath
  rw [placeOf_pathOf hplace]
  have hleads : ∀ real, canonicalize fs place = .ok real →
      canonicalTarget fs verb (pathOf place) = .ok (pathOf real) :=
    fun real h => canonicalTarget_of_canonicalize hplace h
  have hmisses : canonicalize fs place = .error .missing → ∃ ancestor missing real,
      place = ancestor ++ missing ∧ missing ≠ [] ∧ Splits fs ancestor missing real ∧
      canonicalTarget fs verb (pathOf place) = .ok (pathOf (real ++ missing)) := by
    intro h
    obtain ⟨ancestor, missing, real, hparts, hne, hsplits⟩ := exists_splits h
    refine ⟨ancestor, missing, real, hparts, hne, hsplits, ?_⟩
    exact canonicalTarget_of_splits hsplits hne (by rw [placeOf_pathOf hplace, hparts])
  refine ⟨fun c hc => ?_, hleads, fun c hc hnone => ?_⟩
  · have hcases := canonicalize_of_canonicalTarget hc
    rw [placeOf_pathOf hplace] at hcases
    rcases hcases with ⟨real, hreal⟩ | hmissing
    · obtain rfl := Except.ok.inj ((hleads real hreal).symm.trans hc)
      have hplaced := canonicalize_real hreal
      exact canonicalTarget_of_canonicalize (hfs.real hplaced) (canonicalize_of_real hplaced)
    · obtain ⟨ancestor, missing, real, rfl, hne, hsplits, htarget⟩ := hmisses hmissing
      obtain rfl := Except.ok.inj (htarget.symm.trans hc)
      have hnames : Named missing := fun name hname => hplace name (List.mem_append_right _ hname)
      exact canonicalTarget_of_splits hsplits.below hne
        (placeOf_pathOf (named_real hfs hsplits hnames))
  · have hcases := canonicalize_of_canonicalTarget hc
    rw [placeOf_pathOf hplace] at hcases
    rcases hcases with ⟨real, hreal⟩ | hmissing
    · exact absurd hreal (hnone real)
    · obtain ⟨ancestor, missing, real, hparts, hne, hsplits, htarget⟩ := hmisses hmissing
      refine ⟨ancestor, missing, real, hparts, hne, hsplits.leads, ?_, ?_⟩
      · intro q hq hprefix r hr
        cases hr.symm.trans (hsplits.misses q hq hprefix)
      · exact (Except.ok.inj (htarget.symm.trans hc)).symm

/-- A directory with a link to a file that is missing. -/
def dangling : FileSystem (List Char) := fun place =>
  if place = [['d']] then some .directory
  else if place = [['d'], ['l']] then some (.link false [.name ['x']])
  else none

/-- Its names can stand in a directory. -/
theorem dangling_named : AllNamed dangling := by
  intro place hplace
  unfold dangling at hplace
  split_ifs at hplace with hdirectory hlink
  · subst hdirectory
    exact List.forall_mem_singleton.mpr (by decide)
  · subst hlink
    exact List.forall_mem_cons.mpr ⟨by decide, List.forall_mem_singleton.mpr (by decide)⟩
  · cases hplace

/-- Asking again for a path below the link. -/
theorem canonical_target_dangling : ∃ c, canonicalTarget dangling "resolve" "/d/l/y" = .ok c ∧
    canonicalTarget dangling "resolve" c = .ok c := by
  have hpath : absolutePath "resolve" "/d/l/y" none = .ok "/d/l/y" := by decide
  have htarget : canonicalTarget dangling "resolve" "/d/l/y" = .ok "/d/l/y" := by decide
  exact ⟨_, htarget, (canonical_target_stable dangling_named hpath).1 _ htarget⟩

end RemoteWorkspace.Analysis.CanonicalTargets
