import RemoteWorkspace.Analysis.Classify
import RemoteWorkspace.Analysis.PosixJoin

/-!
# Which file a path of an anchor is

A path below an anchor directory is the path of the same names below the anchor's remote root,
however it is spelt. Two spellings come out otherwise: one that is an explicit spelling by
itself, and one with a backslash in it, which is read as a separator.
-/

set_option autoImplicit false

namespace RemoteWorkspace.Analysis.Classify

open RemoteWorkspace.Computation
open RemoteWorkspace.Model
open RemoteWorkspace.Model.Routing
open RemoteWorkspace.Analysis.PosixSegments

/-! ### Making a path absolute -/

/-- Without a backslash there is nothing to rewrite. -/
theorem unified_eq {input : String} (h : '\\' ∉ input.toList) :
    String.ofList (input.toList.map fun c => if c = '\\' then '/' else c) = input := by
  have hmap : (input.toList.map fun c => if c = '\\' then '/' else c) = input.toList := by
    refine (List.map_congr_left fun c hc => ?_).trans (List.map_id _)
    have hne : c ≠ '\\' := fun heq => h (heq ▸ hc)
    rw [if_neg hne, id]
  rw [hmap, String.ofList_toList]

/-- An absolute path without a backslash is normalized. -/
theorem toAbsolute_of_absolute {input : String} {rest : List Char}
    (h : input.toList = '/' :: rest) (hback : '\\' ∉ input.toList) (cwd : Option String) :
    toAbsolute input cwd = PosixPath.normalize input := by
  have hhead : input.toList.head? = some '/' := by rw [h, List.head?_cons]
  unfold toAbsolute
  simp only [unified_eq hback, if_pos hhead]

/-- Another one is joined to the working directory, whose backslashes stay. -/
theorem toAbsolute_of_relative {input : String} (h : input.toList.head? ≠ some '/')
    (hback : '\\' ∉ input.toList) (cwd : String) :
    toAbsolute input (some cwd) = PosixPath.normalize (PosixPath.join [cwd, input]) := by
  unfold toAbsolute
  simp only [unified_eq hback, if_neg h, Option.getD_some]

/-! ### Relative spellings -/

/-- The relative path that goes up `k` directories and down to the names. -/
def relative (k : ℕ) (names : List String) : String :=
  "/".intercalate (List.replicate k ".." ++ names)

/-- What a relative path is made of stays apart with slashes between. -/
theorem separate_relative {k : ℕ} {names : List String}
    (hnames : ∀ name ∈ names, Plain name.toList) : Separate (List.replicate k ".." ++ names) := by
  intro name hmem
  rcases List.mem_append.mp hmem with hmem | hmem
  · rw [(List.mem_replicate.mp hmem).2]
    decide +kernel
  · exact separate_of_plain hnames name hmem

/-- A relative path behind a slash. -/
theorem cons_toList_relative {l : List String} (h : l ≠ []) :
    '/' :: ("/".intercalate l).toList = behind l := by
  obtain ⟨name, names, rfl⟩ := List.exists_cons_of_ne_nil h
  rw [toList_intercalate, behind_cons]

/-- A relative path does not start at a slash. -/
theorem head?_relative {k : ℕ} {names : List String}
    (hnames : ∀ name ∈ names, Plain name.toList) :
    (relative k names).toList.head? ≠ some '/' := by
  unfold relative
  cases hl : List.replicate k ".." ++ names with
  | nil => simp
  | cons name rest =>
    have hseparate := separate_relative (k := k) hnames
    rw [hl] at hseparate
    obtain ⟨hne, hslash⟩ := hseparate name List.mem_cons_self
    obtain ⟨c, cs, hcons⟩ := List.exists_cons_of_ne_nil hne
    rw [toList_intercalate, hcons, List.cons_append, List.head?_cons]
    intro h
    obtain rfl := Option.some.inj h
    exact hslash (hcons ▸ List.mem_cons_self)

/-- Nor does it have a backslash that no name has. -/
theorem backslash_relative {k : ℕ} {names : List String}
    (hback : ∀ name ∈ names, '\\' ∉ name.toList) : '\\' ∉ (relative k names).toList := by
  unfold relative
  cases hl : List.replicate k ".." ++ names with
  | nil => simp
  | cons first rest =>
    have hall : ∀ name ∈ first :: rest, '\\' ∉ name.toList := by
      rw [← hl]
      intro name hmem
      rcases List.mem_append.mp hmem with hmem | hmem
      · rw [(List.mem_replicate.mp hmem).2]
        decide +kernel
      · exact hback name hmem
    obtain ⟨hfirst, hrest⟩ := List.forall_mem_cons.mp hall
    rw [toList_intercalate, List.mem_append, not_or, behind, List.mem_flatMap]
    refine ⟨hfirst, ?_⟩
    rintro ⟨name, hmem, hc⟩
    rcases List.mem_cons.mp hc with hc | hc
    · exact absurd hc (by decide)
    · exact hrest name hmem hc

/-- A relative path from an absolute directory leads where its names say. -/
theorem toAbsolute_relative {cwd : String} {rest : List Char} (hrest : cwd.toList = '/' :: rest)
    {k : ℕ} {names : List String} (hnames : ∀ name ∈ names, Plain name.toList)
    (hback : ∀ name ∈ names, '\\' ∉ name.toList)
    (hk : k ≤ (resolved (segments '/' cwd.toList)).length) :
    (toAbsolute (relative k names) (some cwd)).toList =
      written ((resolved (segments '/' cwd.toList)).take
        ((resolved (segments '/' cwd.toList)).length - k) ++ names.map String.toList)
        (k = 0 ∧ names = [] ∧ cwd.toList.getLast? = some '/') := by
  have hne : cwd ≠ "" := by
    rintro rfl
    simp at hrest
  have hcanonical : Canonical (PosixPath.join [cwd, relative k names]) := canonical_join hrest
  rw [toAbsolute_of_relative (head?_relative hnames) (backslash_relative hback),
    hcanonical.normalize_eq]
  by_cases hl : List.replicate k ".." ++ names = []
  · -- nothing is joined
    obtain ⟨hzero, rfl⟩ := List.append_eq_nil_iff.mp hl
    have hk0 : k = 0 := by simpa using hzero
    subst hk0
    have hjoin : PosixPath.join [cwd, relative 0 []] = PosixPath.normalize cwd := by
      simp [PosixPath.join, relative, hne]
    rw [hjoin, toList_normalize_absolute hrest]
    simp
  · have hseparate := separate_relative (k := k) hnames
    have hrelative : relative k names ≠ "" := by
      intro h
      have hbehind := cons_toList_relative hl
      rw [← relative, h] at hbehind
      exact getLast?_behind hl hseparate [] (by rw [List.nil_append, ← hbehind]; rfl)
    have hlist : ("/".intercalate [cwd, relative k names]).toList =
        cwd.toList ++ behind (List.replicate k ".." ++ names) := by
      rw [toList_intercalate, behind_cons, ← cons_toList_relative hl]
      simp [behind, relative]
    have hhead : ("/".intercalate [cwd, relative k names]).toList =
        '/' :: (rest ++ behind (List.replicate k ".." ++ names)) := by
      rw [hlist, hrest, List.cons_append]
    have hplain : ∀ s ∈ names.map String.toList, Plain s := by
      intro s hs
      obtain ⟨name, hmem, rfl⟩ := List.mem_map.mp hs
      exact hnames name hmem
    have hkept : resolved (segments '/' cwd.toList ++
        (List.replicate k ".." ++ names).map String.toList) =
        (resolved (segments '/' cwd.toList)).take
          ((resolved (segments '/' cwd.toList)).length - k) ++ names.map String.toList := by
      have hdots : (List.replicate k "..").map String.toList = List.replicate k ['.', '.'] := by
        rw [List.map_replicate]
        rfl
      rw [List.map_append, hdots, ← List.append_assoc, resolved_append_plain hplain,
        ← foldl_dotdots (resolved_plain cwd.toList) hk, resolved, resolved, List.foldl_append]
    have hslash : (k = 0 ∧ names = [] ∧ cwd.toList.getLast? = some '/') = False := by
      refine eq_false fun h => hl ?_
      simp [h.1, h.2.1]
    rw [join_eq hne (List.forall_mem_singleton.mpr hrelative), toList_normalize_absolute hhead,
      hlist, segments_behind hseparate, hkept]
    simp only [getLast?_behind hl hseparate, hslash]

/-! ### Below an anchor directory -/

/-- What lies within lies below. -/
theorem below_of_isWithin {parent child : String} (h : isWithin parent child = true) :
    Below '/' parent.toList child.toList := by
  unfold isWithin at h
  split at h
  · rename_i heq
    rw [heq]
    exact below_refl '/' _
  · simp only at h
    split at h
    · -- the parent ends in a slash, which is the separator
      rename_i hlast
      obtain ⟨init, hinit⟩ := List.getLast?_eq_some_iff.mp hlast
      obtain ⟨rest, hrest⟩ := List.isPrefixOf_iff_prefix.mp h
      rw [← hrest, hinit, Below, segments_concat, List.append_assoc, List.singleton_append,
        segments_append_cons]
      exact List.prefix_append _ _
    · obtain ⟨rest, hrest⟩ := List.isPrefixOf_iff_prefix.mp h
      have hchild : child.toList = parent.toList ++ '/' :: rest := by
        rw [← hrest]
        simp
      rw [hchild]
      exact below_append_cons '/' _ _

/-- The anchor directories are absolute and normalized, and none lies in another one. -/
structure Apart (anchors : List AnchorRoute) : Prop where
  canonical : ∀ a ∈ anchors, Canonical a.anchorPath
  apart : ∀ a ∈ anchors, ∀ b ∈ anchors, a ≠ b → ¬ Below '/' a.anchorPath.toList b.anchorPath.toList

/-- Names are written behind a canonical directory, after a slash if it does not end in one. -/
theorem toList_join_canonical {dir : String} {names : List String} (hdir : Canonical dir)
    (hne : names ≠ []) (hnames : ∀ name ∈ names, Plain name.toList) :
    (PosixPath.join (dir :: names)).toList = dir.toList ++
      ((if dir.toList.getLast? = some '/' then [] else ['/']) ++
        ['/'].intercalate (names.map String.toList)) := by
  obtain ⟨rest, hrest⟩ := hdir.absolute
  have hjoin := toList_join hrest hnames
  rw [resolved_of_plain hdir.plain] at hjoin
  obtain ⟨kept, slash, hkept, hpath⟩ := hdir
  have hmap : names.map String.toList ≠ [] := by simpa using hne
  rw [hjoin, decide_eq_false (by simp [hne]), hpath, segments_written hkept,
    written_append kept hmap slash]
  simp only [getLast?_written hkept]

/-- Names behind a canonical directory: the directory is the beginning of the joined path, which
lies within it, and the names are the segments of the rest. -/
theorem join_names {dir : String} {names : List String} (hdir : Canonical dir)
    (hnames : ∀ name ∈ names, Plain name.toList) :
    isWithin dir (PosixPath.join (dir :: names)) = true ∧
    ∃ suffix, (PosixPath.join (dir :: names)).toList = dir.toList ++ suffix ∧
      segments '/' suffix = names.map String.toList ∧ suffix.getLast? ≠ some '/' ∧
      (names = [] → suffix = []) := by
  by_cases hne : names = []
  · subst hne
    have hsame : PosixPath.join [dir] = dir := by
      obtain ⟨rest, hrest⟩ := hdir.absolute
      have hjoin := toList_join hrest hnames
      rw [resolved_of_plain hdir.plain] at hjoin
      apply String.toList_inj.mp
      rw [hjoin]
      simpa using hdir.toList_eq.symm
    rw [hsame]
    exact ⟨by simp [isWithin], [], by simp⟩
  · have hplain : ∀ s ∈ names.map String.toList, Plain s := by
      intro s hs
      obtain ⟨name, hmem, rfl⟩ := List.mem_map.mp hs
      exact hnames name hmem
    have htail := getLast?_intercalate_ne (by simpa using hne) (Plain.separated hplain)
    have hlist := toList_join_canonical hdir hne hnames
    refine ⟨?_, _, hlist, ?_, ?_, fun h => absurd h hne⟩
    · unfold isWithin
      split
      · rfl
      · simp only [List.isPrefixOf_iff_prefix]
        rw [hlist]
        split
        · exact List.prefix_append _ _
        · simp
    · have hsegments := segments_intercalate (Plain.separated hplain)
      split
      · exact hsegments
      · rw [List.singleton_append, segments_cons, hsegments]
    · obtain ⟨x, hx⟩ := Option.ne_none_iff_exists'.mp (mt List.getLast?_eq_none_iff.mp htail.1)
      rw [List.getLast?_append, hx, Option.some_or, ← hx]
      exact htail.2

variable {anchors : List AnchorRoute} {a : AnchorRoute} {names dirs : List String}

/-- Names behind an anchor directory lie within no other one. -/
theorem find_anchor (hanchors : Apart anchors) (ha : a ∈ anchors)
    (hnames : ∀ name ∈ names, Plain name.toList) :
    anchors.find? (fun b => isWithin b.anchorPath (PosixPath.join (a.anchorPath :: names))) =
      some a := by
  have hwithin := (join_names (hanchors.canonical a ha) hnames).1
  have hbelow := below_of_isWithin hwithin
  have honly : ∀ b ∈ anchors,
      isWithin b.anchorPath (PosixPath.join (a.anchorPath :: names)) = true → b = a := by
    intro b hb hb'
    by_contra hne
    -- both directories are first segments of the path, so one is the first of the other
    rcases List.prefix_or_prefix_of_prefix (below_of_isWithin hb') hbelow with h | h
    · exact hanchors.apart b hb a ha hne h
    · exact hanchors.apart a ha b hb (Ne.symm hne) h
  cases hfind : anchors.find? (fun b =>
      isWithin b.anchorPath (PosixPath.join (a.anchorPath :: names))) with
  | none => exact absurd hwithin (List.find?_eq_none.mp hfind a ha)
  | some b =>
    have hb := List.mem_of_find?_eq_some hfind
    have hb' : isWithin b.anchorPath (PosixPath.join (a.anchorPath :: names)) = true :=
      (List.find?_eq_some_iff_append.mp hfind).1
    rw [honly b hb hb']

/-- A spelling that is made absolute as names behind an anchor directory is those names behind
the anchor's remote root. -/
theorem classifyPath_of_names (hanchors : Apart anchors) (ha : a ∈ anchors)
    (hroot : a.remoteRoot ≠ "") (hnames : ∀ name ∈ names, Plain name.toList) {input : String}
    {cwd : Option String} (hexplicit : explicit input = none)
    (habsolute : toAbsolute input cwd = PosixPath.join (a.anchorPath :: names)) :
    classifyPath input cwd anchors =
      .remote a.nodeId (PosixPath.join (a.remoteRoot :: names)) := by
  obtain ⟨-, suffix, hlist, hsegments, hlast, hempty⟩ :=
    join_names (hanchors.canonical a ha) hnames
  have hfind := find_anchor hanchors ha hnames
  rw [← habsolute] at hfind
  have hdrop : (toAbsolute input cwd).toList.drop a.anchorPath.length = suffix := by
    rw [habsolute, hlist, ← String.length_toList, List.drop_left]
  have hjoin : PosixPath.join [a.remoteRoot, String.ofList suffix] =
      PosixPath.join (a.remoteRoot :: names) := by
    apply join_of_segments hroot (separate_of_plain hnames)
    · rw [String.toList_ofList, hsegments]
    · rw [String.toList_ofList]
      exact hlast
    · intro h
      rw [hempty h]
  rw [classifyPath_of_anchor hexplicit hfind, hdrop, hjoin]

/-- An explicit spelling does not start at a slash. -/
theorem explicit_of_absolute {input : String} {rest : List Char}
    (h : input.toList = '/' :: rest) : explicit input = none := by
  have hscheme : "node:".toList.isPrefixOf input.toList = false := by
    rw [h]
    rfl
  unfold explicit
  simp only [hscheme, Bool.false_eq_true, if_false]

/-- A path from a directory below an anchor directory is made absolute as the names it leads
to. -/
theorem toAbsolute_of_dirs {dir : String} (hdir : Canonical dir)
    (hdirs : ∀ name ∈ dirs, Plain name.toList) (hnames : ∀ name ∈ names, Plain name.toList)
    (hback : ∀ name ∈ names, '\\' ∉ name.toList) {k : ℕ} (hk : k ≤ dirs.length)
    (hslash : k = 0 ∨ dir = "/" ∨ dir.toList.getLast? ≠ some '/') :
    toAbsolute (relative k names) (some (PosixPath.join (dir :: dirs))) =
      PosixPath.join (dir :: (dirs.take (dirs.length - k) ++ names)) := by
  obtain ⟨rest, hrest⟩ := hdir.absolute
  have hall : ∀ name ∈ dirs.take (dirs.length - k) ++ names, Plain name.toList := by
    intro name hmem
    rcases List.mem_append.mp hmem with hmem | hmem
    · exact hdirs name (List.mem_of_mem_take hmem)
    · exact hnames name hmem
  have hcwd := toList_join hrest hdirs
  have hjoin := toList_join hrest hall
  rw [resolved_of_plain hdir.plain] at hcwd hjoin
  obtain ⟨hcanonical, hsegments⟩ := canonical_join_names hrest hdirs
  rw [resolved_of_plain hdir.plain] at hsegments
  have htake : (segments '/' dir.toList ++ dirs.map String.toList).take
      ((segments '/' dir.toList ++ dirs.map String.toList).length - k) =
      segments '/' dir.toList ++ (dirs.take (dirs.length - k)).map String.toList := by
    rw [List.take_append, List.take_of_length_le (by simp; omega), List.map_take]
    congr 2
    simp
    omega
  have hkept : resolved (segments '/' (PosixPath.join (dir :: dirs)).toList) =
      segments '/' dir.toList ++ dirs.map String.toList := by
    rw [resolved_of_plain hcanonical.plain, hsegments]
  obtain ⟨_, hjoined⟩ := hcanonical.absolute
  have habsolute := toAbsolute_relative hjoined hnames hback (k := k) (by
    rw [hkept, List.length_append, List.length_map]
    omega)
  apply String.toList_inj.mp
  rw [habsolute, hkept, htake, hjoin, List.map_append, List.append_assoc]
  apply written_congr
  intro hsome
  have hlast : (PosixPath.join (dir :: dirs)).toList.getLast? = some '/' ↔
      (dirs = [] ∧ dir.toList.getLast? = some '/') ∨
        segments '/' dir.toList ++ dirs.map String.toList = [] := by
    have hplain := hcanonical.plain
    rw [hsegments] at hplain
    rw [hcwd, getLast?_written hplain, decide_eq_true_eq]
  rw [decide_eq_decide, hlast]
  constructor
  · rintro ⟨rfl, rfl, ⟨rfl, hdirlast⟩ | hnone⟩
    · exact ⟨rfl, hdirlast⟩
    · refine absurd ?_ hsome
      simpa using hnone
  · rintro ⟨hnone, hdirlast⟩
    obtain ⟨htaken, rfl⟩ := List.append_eq_nil_iff.mp hnone
    have hne : dir ≠ "/" := by
      rintro rfl
      refine hsome ?_
      rw [htaken]
      decide +kernel
    have hk0 : k = 0 := by
      rcases hslash with h | h | h
      · exact h
      · exact absurd h hne
      · exact absurd hdirlast h
    subst hk0
    have hdirs0 : dirs = [] := by simpa using htaken
    exact ⟨rfl, rfl, .inl ⟨hdirs0, hdirlast⟩⟩

/-- A path of names below an anchor directory is the path of the same names below the anchor's
remote root: given absolute, where no backslash is in it; and given relative to a directory below
the anchor directory, where no backslash is in its names and it is no explicit spelling. -/
theorem classifyPath_exact (hanchors : Apart anchors) (ha : a ∈ anchors)
    (hroot : a.remoteRoot ≠ "") (hnames : ∀ name ∈ names, Plain name.toList)
    (hback : ∀ name ∈ names, '\\' ∉ name.toList) :
    ('\\' ∉ a.anchorPath.toList → ∀ cwd,
      classifyPath (PosixPath.join (a.anchorPath :: names)) cwd anchors =
        .remote a.nodeId (PosixPath.join (a.remoteRoot :: names))) ∧
    ∀ dirs k, (∀ dir ∈ dirs, Plain dir.toList) → k ≤ dirs.length →
      (k = 0 ∨ a.anchorPath = "/" ∨ a.anchorPath.toList.getLast? ≠ some '/') →
      explicit (relative k names) = none →
      classifyPath (relative k names) (some (PosixPath.join (a.anchorPath :: dirs))) anchors =
        .remote a.nodeId
          (PosixPath.join (a.remoteRoot :: (dirs.take (dirs.length - k) ++ names))) := by
  have hcanonical := hanchors.canonical a ha
  refine ⟨fun hpath cwd => ?_, fun dirs k hdirs hk hslash hexplicit => ?_⟩
  · obtain ⟨rest, hrest⟩ := hcanonical.absolute
    have hjoined := (canonical_join_names hrest hnames).1
    obtain ⟨rest', hrest'⟩ := hjoined.absolute
    have hclean : '\\' ∉ (PosixPath.join (a.anchorPath :: names)).toList := by
      obtain ⟨-, suffix, hlist, hsegments, -, -⟩ := join_names hcanonical hnames
      rw [hlist, List.mem_append, not_or]
      refine ⟨hpath, fun hmem => ?_⟩
      have hsep : '\\' ≠ '/' := by decide
      obtain ⟨s, hs, hmem⟩ := mem_segments hmem hsep
      rw [hsegments] at hs
      obtain ⟨name, hname, rfl⟩ := List.mem_map.mp hs
      exact hback name hname hmem
    apply classifyPath_of_names hanchors ha hroot hnames (explicit_of_absolute hrest')
    rw [toAbsolute_of_absolute hrest' hclean, hjoined.normalize_eq]
  · have hall : ∀ name ∈ dirs.take (dirs.length - k) ++ names, Plain name.toList := by
      intro name hmem
      rcases List.mem_append.mp hmem with hmem | hmem
      · exact hdirs name (List.mem_of_mem_take hmem)
      · exact hnames name hmem
    exact classifyPath_of_names hanchors ha hroot hall hexplicit
      (toAbsolute_of_dirs hcanonical hdirs hnames hback hk hslash)

/-- The one anchor of a list. -/
theorem apart_singleton (hdir : Canonical a.anchorPath) : Apart [a] := by
  refine ⟨fun b hb => ?_, fun b hb c hc hne => ?_⟩
  · rw [List.mem_singleton.mp hb]
    exact hdir
  · rw [List.mem_singleton.mp hb, List.mem_singleton.mp hc] at hne
    exact absurd rfl hne

/-- The worktree's directory is canonical. -/
theorem apart_worktree : Apart [worktreeRoute] := by
  apply apart_singleton
  apply NormalizedRoot.canonical
  exact ⟨by decide +kernel, by decide +kernel, by decide +kernel⟩

/-- A name with a colon, from a directory beside it. -/
theorem classifyPath_exact_colon :
    classifyPath "../node:x" (some (PosixPath.join ["/a/wt", "sub"])) [worktreeRoute] =
      .remote "n" (PosixPath.join ["/srv/wt", "node:x"]) := by
  have hname : ∀ name ∈ ["node:x"], Plain name.toList := by decide +kernel
  have hdir : ∀ dir ∈ ["sub"], Plain dir.toList := by decide +kernel
  exact (classifyPath_exact apart_worktree List.mem_cons_self (by decide +kernel) hname
    (by decide +kernel)).2 ["sub"] 1 hdir (by decide) (.inr (.inr (by decide +kernel)))
    (by decide +kernel)

/-- Whatever the names, both spellings are those names behind the remote root. -/
def ExactFor (anchors : List AnchorRoute) (a : AnchorRoute) (dirs names : List String) : Prop :=
  classifyPath (PosixPath.join (a.anchorPath :: (dirs ++ names))) none anchors =
      .remote a.nodeId (PosixPath.join (a.remoteRoot :: (dirs ++ names))) ∧
    classifyPath (relative 0 names) (some (PosixPath.join (a.anchorPath :: dirs))) anchors =
      .remote a.nodeId (PosixPath.join (a.remoteRoot :: (dirs ++ names)))

/-- Names of the worktree that, taken together, are an explicit spelling, and one with a
backslash in it. -/
theorem names_spelt_otherwise :
    (∀ names ∈ [["node:x:", "y"], ["b\\c"]], ∀ name ∈ names, Plain name.toList) ∧
      Apart [worktreeRoute] ∧ ¬ ExactFor [worktreeRoute] worktreeRoute [] ["node:x:", "y"] ∧
      ¬ ExactFor [worktreeRoute] worktreeRoute [] ["b\\c"] := by
  refine ⟨by decide +kernel, apart_worktree, ?_, ?_⟩
  · rintro ⟨-, hrelative⟩
    exact absurd hrelative (by decide +kernel)
  · rintro ⟨habsolute, -⟩
    exact absurd habsolute (by decide +kernel)

end RemoteWorkspace.Analysis.Classify
