import Mathlib.Tactic.Common
import RemoteWorkspace.Computation.Segments
import RemoteWorkspace.Model.Routing
import RemoteWorkspace.Analysis.PosixSegments

/-!
# What classification answers

A path classified to a node lies at or below a root one of that node's anchors holds, and
a path left to this host lies below no anchor. A path that two anchors of one node claim
is called ambiguous all the same.
-/

set_option autoImplicit false

namespace RemoteWorkspace.Analysis.Classify

open RemoteWorkspace.Computation
open RemoteWorkspace.Model
open RemoteWorkspace.Model.Routing
open RemoteWorkspace.Analysis.PosixSegments

/-- The held anchors whose remote root claims the path. -/
def claiming (input : String) (cwd : Option String) (anchors : List AnchorRoute) :
    List AnchorRoute :=
  anchors.filter fun anchor => isWithin anchor.remoteRoot (toAbsolute input cwd)

/-- The path is no explicit spelling and lies in no anchor directory, so that only the
remote roots can place it. -/
def ReachesRoots (input : String) (cwd : Option String) (anchors : List AnchorRoute) : Prop :=
  explicit input = none ∧
    ∀ anchor ∈ anchors, isWithin anchor.anchorPath (toAbsolute input cwd) = false

/-- A path in an anchor directory is mapped onto the root of the first such anchor. -/
theorem classifyPath_of_anchor {input : String} {cwd : Option String}
    {anchors : List AnchorRoute} {anchor : AnchorRoute} (hexplicit : explicit input = none)
    (hfind : anchors.find? (fun a => isWithin a.anchorPath (toAbsolute input cwd)) =
      some anchor) :
    classifyPath input cwd anchors = .remote anchor.nodeId (PosixPath.join [anchor.remoteRoot,
      String.ofList ((toAbsolute input cwd).toList.drop anchor.anchorPath.length)]) := by
  simp only [classifyPath, hexplicit, hfind]

/-- A path that reaches the remote roots is placed by the anchors that claim it. -/
theorem classifyPath_of_roots {input : String} {cwd : Option String}
    {anchors : List AnchorRoute} (h : ReachesRoots input cwd anchors) :
    (claiming input cwd anchors = [] ∧ classifyPath input cwd anchors = .localHost) ∨
    (∃ anchor, claiming input cwd anchors = [anchor] ∧
      classifyPath input cwd anchors = .remote anchor.nodeId (toAbsolute input cwd)) ∨
    (1 < (claiming input cwd anchors).length ∧
      classifyPath input cwd anchors = .ambiguous (toAbsolute input cwd)
        ((claiming input cwd anchors).map AnchorRoute.nodeId)) := by
  have hfind : anchors.find? (fun a => isWithin a.anchorPath (toAbsolute input cwd)) = none := by
    rw [List.find?_eq_none]
    intro anchor hanchor
    simp [h.2 anchor hanchor]
  unfold claiming
  rcases hclaim : anchors.filter (fun a => isWithin a.remoteRoot (toAbsolute input cwd))
    with _ | ⟨a, _ | ⟨b, more⟩⟩
  · exact .inl ⟨hclaim, by simp [classifyPath, h.1, hfind, hclaim]⟩
  · exact .inr (.inl ⟨a, hclaim, by simp [classifyPath, h.1, hfind, hclaim]⟩)
  · exact .inr (.inr ⟨by simp [hclaim], by simp [classifyPath, h.1, hfind, hclaim]⟩)

/-- Without an explicit spelling an anchor directory holds the path or the roots decide. -/
theorem find_or_reachesRoots {input : String} (cwd : Option String) (anchors : List AnchorRoute)
    (hexplicit : explicit input = none) :
    (∃ anchor, anchors.find? (fun a => isWithin a.anchorPath (toAbsolute input cwd)) =
      some anchor) ∨ ReachesRoots input cwd anchors := by
  cases hfind : anchors.find? (fun a => isWithin a.anchorPath (toAbsolute input cwd)) with
  | some anchor => exact .inl ⟨anchor, rfl⟩
  | none =>
    right
    refine ⟨hexplicit, ?_⟩
    intro anchor hanchor
    rw [List.find?_eq_none] at hfind
    simpa using hfind anchor hanchor

/-! ## Soundness -/

/-- Below a normalized root on whole segments is what `isWithin` tests. -/
theorem isWithin_iff {parent child : String} (hparent : NormalizedRoot parent)
    (hchild : Canonical child) :
    isWithin parent child = true ↔ Below '/' parent.toList child.toList := by
  rw [hparent.below_iff hchild]
  unfold isWithin
  rw [if_neg hparent.no_trailing_slash]
  by_cases heq : child = parent
  · simp [heq]
  · have hne : child.toList ≠ parent.toList := fun h => heq (String.toList_inj.mp h)
    simp only [if_neg heq, hne, false_or, List.isPrefixOf_iff_prefix]
    constructor
    · rintro ⟨rest, hrest⟩
      exact ⟨rest, by simpa using hrest.symm⟩
    · rintro ⟨rest, hrest⟩
      exact ⟨rest, by simpa using hrest.symm⟩

/-- Joining onto an absolute path gives a canonical one. -/
theorem canonical_join {dir path : String} {rest : List Char} (hdir : dir.toList = '/' :: rest) :
    Canonical (PosixPath.join [dir, path]) := by
  have hne : dir ≠ "" := by
    rintro rfl
    simp at hdir
  by_cases hpath : path = ""
  · have hjoin : PosixPath.join [dir, path] = PosixPath.normalize dir := by
      simp [PosixPath.join, hne, hpath]
    rw [hjoin]
    exact canonical_normalize hdir
  · have hjoin : PosixPath.join [dir, path] = PosixPath.normalize (dir ++ "/" ++ path) := by
      have hargs : "/".intercalate [dir, path] = dir ++ "/" ++ path := by simp
      simp [PosixPath.join, hne, hpath, hargs]
    have hlist : (dir ++ "/" ++ path).toList = '/' :: (rest ++ '/' :: path.toList) := by
      simp [hdir]
    rw [hjoin]
    exact canonical_normalize hlist

/-- A list that starts with a slash. -/
theorem eq_cons_of_head {l : List Char} (h : l.head? = some '/') : ∃ rest, l = '/' :: rest := by
  rcases l with _ | ⟨c, rest⟩
  · cases h
  · rw [List.head?_cons, Option.some.injEq] at h
    exact ⟨rest, by rw [h]⟩

/-- Every input is resolved to a normalized absolute path. -/
theorem canonical_toAbsolute (input : String) {cwd : Option String}
    (hcwd : ∀ dir ∈ cwd, dir.toList.head? = some '/') : Canonical (toAbsolute input cwd) := by
  unfold toAbsolute
  extract_lets unified
  split
  · rename_i hhead
    obtain ⟨rest, hrest⟩ := eq_cons_of_head hhead
    exact canonical_normalize hrest
  · have hbase : ∃ rest, (cwd.getD "/").toList = '/' :: rest := by
      cases cwd with
      | none => exact ⟨[], by simp⟩
      | some dir => exact eq_cons_of_head (hcwd dir rfl)
    obtain ⟨rest, hrest⟩ := hbase
    obtain ⟨rest', hrest'⟩ := (canonical_join hrest).absolute
    exact canonical_normalize hrest'

/-- A path in an anchor directory lands at or below the anchor's remote root. -/
theorem below_of_anchor {anchor : AnchorRoute} {absolute : String}
    (hpath : NormalizedRoot anchor.anchorPath) (hroot : NormalizedRoot anchor.remoteRoot)
    (habsolute : Canonical absolute) (hwithin : isWithin anchor.anchorPath absolute = true) :
    let p := PosixPath.join [anchor.remoteRoot,
      String.ofList (absolute.toList.drop anchor.anchorPath.length)]
    Canonical p ∧ Below '/' anchor.remoteRoot.toList p.toList := by
  intro p
  rw [isWithin_iff hpath habsolute, hpath.below_iff habsolute] at hwithin
  rcases hwithin with heq | ⟨rest, heq⟩
  · have hsuffix : absolute.toList.drop anchor.anchorPath.length = [] := by
      rw [heq, ← String.length_toList, List.drop_length]
    have hp : p = anchor.remoteRoot := by
      show PosixPath.join [anchor.remoteRoot, _] = anchor.remoteRoot
      rw [hsuffix]
      exact join_empty hroot
    rw [hp]
    exact ⟨hroot.canonical, below_refl '/' _⟩
  · have hsuffix : absolute.toList.drop anchor.anchorPath.length = '/' :: rest := by
      rw [heq, ← String.length_toList, List.drop_left]
    have hplain : ∀ s ∈ segments '/' (String.ofList ('/' :: rest)).toList, Plain s := by
      intro s hs
      apply habsolute.plain s
      rw [heq, segments_append_cons, List.mem_append]
      rw [String.toList_ofList, segments_cons] at hs
      exact .inr hs
    have hjoin := join_suffix hroot.canonical (String.toList_ofList) hplain
    have hp : p = PosixPath.join [anchor.remoteRoot, String.ofList ('/' :: rest)] := by
      show PosixPath.join [anchor.remoteRoot, _] = _
      rw [hsuffix]
    rw [hp]
    refine ⟨hjoin.1, ?_⟩
    rw [Below, hjoin.2]
    exact List.prefix_append _ _

/-- Every anchor's two paths are normalized absolute paths without a trailing slash. -/
def NormalizedAnchors (anchors : List AnchorRoute) : Prop :=
  ∀ anchor ∈ anchors, NormalizedRoot anchor.anchorPath ∧ NormalizedRoot anchor.remoteRoot

/-- A path classified to a node is a normalized one at or below a remote root of that node's
anchors; a path left to this host resolves to one below no anchor directory and no
remote root. -/
theorem classifyPath_sound (input : String) (cwd : Option String) (anchors : List AnchorRoute)
    (hcwd : ∀ dir ∈ cwd, dir.toList.head? = some '/') (hanchors : NormalizedAnchors anchors) :
    (∀ n p, explicit input = none → classifyPath input cwd anchors = .remote n p →
      Canonical p ∧ ∃ anchor ∈ anchors, anchor.nodeId = n ∧
        Below '/' anchor.remoteRoot.toList p.toList) ∧
    (classifyPath input cwd anchors = .localHost →
      Canonical (toAbsolute input cwd) ∧ ∀ anchor ∈ anchors,
        ¬ Below '/' anchor.anchorPath.toList (toAbsolute input cwd).toList ∧
        ¬ Below '/' anchor.remoteRoot.toList (toAbsolute input cwd).toList) := by
  have habsolute := canonical_toAbsolute input hcwd
  refine ⟨?_, ?_⟩
  · intro n p hexplicit hremote
    rcases find_or_reachesRoots cwd anchors hexplicit with ⟨anchor, hfind⟩ | hroots
    · rw [classifyPath_of_anchor hexplicit hfind] at hremote
      injection hremote with hn hp
      have hmem := List.mem_of_find?_eq_some hfind
      obtain ⟨hpath, hroot⟩ := hanchors anchor hmem
      have hwithin : isWithin anchor.anchorPath (toAbsolute input cwd) = true :=
        (List.find?_eq_some_iff_append.mp hfind).1
      have hbelow := below_of_anchor hpath hroot habsolute hwithin
      rw [hp] at hbelow
      exact ⟨hbelow.1, anchor, hmem, hn, hbelow.2⟩
    · rcases classifyPath_of_roots hroots with ⟨-, hclass⟩ | ⟨anchor, hclaim, hclass⟩ | ⟨-, hclass⟩
      · rw [hclass] at hremote
        cases hremote
      · rw [hclass] at hremote
        injection hremote with hn hp
        have hmem : anchor ∈ claiming input cwd anchors := by rw [hclaim]; simp
        rw [claiming, List.mem_filter] at hmem
        subst hp
        have hroot := (hanchors anchor hmem.1).2
        exact ⟨habsolute, anchor, hmem.1, hn, (isWithin_iff hroot habsolute).mp hmem.2⟩
      · rw [hclass] at hremote
        cases hremote
  · intro hlocal
    have hexplicit : explicit input = none := by
      cases hexplicit : explicit input with
      | none => rfl
      | some found => simp [classifyPath, hexplicit] at hlocal
    rcases find_or_reachesRoots cwd anchors hexplicit with ⟨anchor, hfind⟩ | hroots
    · rw [classifyPath_of_anchor hexplicit hfind] at hlocal
      cases hlocal
    · rcases classifyPath_of_roots hroots with ⟨hclaim, -⟩ | ⟨anchor, -, hclass⟩ | ⟨-, hclass⟩
      · refine ⟨habsolute, ?_⟩
        intro anchor hmem
        obtain ⟨hpath, hroot⟩ := hanchors anchor hmem
        refine ⟨?_, ?_⟩
        · rw [← isWithin_iff hpath habsolute, hroots.2 anchor hmem]
          simp
        · rw [← isWithin_iff hroot habsolute]
          rw [claiming, List.filter_eq_nil_iff] at hclaim
          exact hclaim anchor hmem
      · rw [hclass] at hlocal
        cases hlocal
      · rw [hclass] at hlocal
        cases hlocal

/-- A worktree of the node `n`, held under `/a/wt`. -/
def worktreeRoute : AnchorRoute := ⟨"n", "/a/wt", "/srv/wt"⟩

/-- A relative spelling that leaves the anchor directory and comes back is placed below the
anchor's remote root. -/
theorem classifyPath_sound_dots :
    classifyPath "../wt/./x" (some "/a/wt") [worktreeRoute] = .remote "n" "/srv/wt/x" ∧
      Below '/' "/srv/wt".toList "/srv/wt/x".toList := by
  have hremote : classifyPath "../wt/./x" (some "/a/wt") [worktreeRoute] =
      .remote "n" "/srv/wt/x" := by decide +kernel
  have hanchors : NormalizedAnchors [worktreeRoute] := by
    intro anchor hanchor
    obtain rfl := List.mem_singleton.mp hanchor
    refine ⟨⟨?_, ?_, ?_⟩, ⟨?_, ?_, ?_⟩⟩ <;> decide +kernel
  have hcwd : ∀ dir ∈ some "/a/wt", dir.toList.head? = some '/' := by
    rintro dir ⟨⟩
    decide +kernel
  obtain ⟨-, anchor, hmem, -, hbelow⟩ :=
    (classifyPath_sound "../wt/./x" (some "/a/wt") [worktreeRoute] hcwd hanchors).1 "n"
      "/srv/wt/x" (by decide +kernel) hremote
  obtain rfl := List.mem_singleton.mp hmem
  exact ⟨hremote, hbelow⟩

/-! ## Ambiguity -/

/-- A path is called ambiguous only when remote roots of two nodes claim it, and a path the
roots of one node alone claim goes to that node. -/
def AmbiguityMeansTwoNodes (input : String) (cwd : Option String) (anchors : List AnchorRoute) :
    Prop :=
  (∀ p ids, classifyPath input cwd anchors = .ambiguous p ids →
    ∃ a ∈ claiming input cwd anchors, ∃ b ∈ claiming input cwd anchors, a.nodeId ≠ b.nodeId) ∧
  ∀ n, ReachesRoots input cwd anchors → claiming input cwd anchors ≠ [] →
    (∀ a ∈ claiming input cwd anchors, a.nodeId = n) →
    classifyPath input cwd anchors = .remote n (toAbsolute input cwd)

/-- An ambiguous path reached the remote roots, and two anchors claim it. -/
theorem of_ambiguous {input : String} {cwd : Option String} {anchors : List AnchorRoute}
    {p : String} {ids : List Routing.NodeId}
    (h : classifyPath input cwd anchors = .ambiguous p ids) :
    ReachesRoots input cwd anchors ∧ 1 < (claiming input cwd anchors).length := by
  have hexplicit : explicit input = none := by
    cases hexplicit : explicit input with
    | none => rfl
    | some found => simp [classifyPath, hexplicit] at h
  rcases find_or_reachesRoots cwd anchors hexplicit with ⟨anchor, hfind⟩ | hroots
  · rw [classifyPath_of_anchor hexplicit hfind] at h
    cases h
  · refine ⟨hroots, ?_⟩
    rcases classifyPath_of_roots hroots with ⟨-, hclass⟩ | ⟨anchor, -, hclass⟩ | ⟨hmany, -⟩
    · rw [hclass] at h
      cases h
    · rw [hclass] at h
      cases h
    · exact hmany

/-- Ambiguity means two nodes unless the remote roots decide and two anchors of one node,
and of no other, claim the path. -/
theorem ambiguityMeansTwoNodes_iff (input : String) (cwd : Option String)
    (anchors : List AnchorRoute) :
    AmbiguityMeansTwoNodes input cwd anchors ↔
      (ReachesRoots input cwd anchors → (claiming input cwd anchors).length ≤ 1 ∨
        ∃ a ∈ claiming input cwd anchors, ∃ b ∈ claiming input cwd anchors,
          a.nodeId ≠ b.nodeId) := by
  constructor
  · rintro ⟨htwo, -⟩ hroots
    rcases classifyPath_of_roots hroots with ⟨hclaim, -⟩ | ⟨anchor, hclaim, -⟩ | ⟨-, hclass⟩
    · exact .inl (by simp [hclaim])
    · exact .inl (by simp [hclaim])
    · exact .inr (htwo _ _ hclass)
  · intro h
    refine ⟨?_, ?_⟩
    · intro p ids hambiguous
      obtain ⟨hroots, hmany⟩ := of_ambiguous hambiguous
      rcases h hroots with hfew | htwo
      · omega
      · exact htwo
    · intro n hroots hsome hall
      rcases h hroots with hfew | ⟨a, ha, b, hb, hab⟩
      · rcases classifyPath_of_roots hroots with ⟨hclaim, -⟩ | ⟨anchor, hclaim, hclass⟩ | ⟨hmany, -⟩
        · exact absurd hclaim hsome
        · have hn : anchor.nodeId = n := hall anchor (by simp [hclaim])
          rw [hclass, hn]
        · omega
      · exact absurd ((hall a ha).trans (hall b hb).symm) hab

/-- A repository opened as a directory, and a worktree cut inside it on the same node. -/
def nestedRoutes : List AnchorRoute :=
  [⟨"n", "/a/proj", "/srv/proj"⟩, ⟨"n", "/a/wt", "/srv/proj/wt"⟩]

/-- A file of the nested worktree is refused as belonging to more than one node, and both
nodes named are the same one. -/
theorem nestedRoutes_ambiguous :
    ¬ AmbiguityMeansTwoNodes "/srv/proj/wt/x" none nestedRoutes ∧
      classifyPath "/srv/proj/wt/x" none nestedRoutes =
        .ambiguous "/srv/proj/wt/x" ["n", "n"] ∧
      ambiguousPathMessage "/srv/proj/wt/x" ["n", "n"] =
        "\"/srv/proj/wt/x\" belongs to more than one node (n, n); " ++
          "address it as node:<id>:<path>" := by
  have hambiguous : classifyPath "/srv/proj/wt/x" none nestedRoutes =
      .ambiguous "/srv/proj/wt/x" ["n", "n"] := by decide +kernel
  refine ⟨?_, hambiguous, by decide +kernel⟩
  rintro ⟨htwo, -⟩
  obtain ⟨a, ha, b, hb, hab⟩ := htwo _ _ hambiguous
  have hone : ∀ r ∈ nestedRoutes, r.nodeId = "n" := by decide +kernel
  have ha' := hone a (List.mem_filter.mp ha).1
  have hb' := hone b (List.mem_filter.mp hb).1
  exact hab (ha'.trans hb'.symm)

end RemoteWorkspace.Analysis.Classify
