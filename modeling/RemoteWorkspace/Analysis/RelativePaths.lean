import Mathlib.Data.List.Find
import RemoteWorkspace.Analysis.RoutedPaths

/-!
# Relative paths stay where their directory is

Classification joins a relative path to the text of the working directory and places the
result. The placing itself respects directories (`placed_join`): a path that enters no anchor
is placed below the place of its directory.

So a relative path stays with its directory exactly when the text of the directory, normalized
as it stands, is placed where classification says the directory is. That is so for an absolute
directory without a backslash, and for no explicit spelling: its text is joined, the result is
not absolute, and it is left to this host.
-/

set_option autoImplicit false

namespace RemoteWorkspace.Analysis.Classify

open RemoteWorkspace.Computation
open RemoteWorkspace.Model
open RemoteWorkspace.Model.Routing
open RemoteWorkspace.Analysis.PosixSegments

variable {anchors : List AnchorRoute} {names : List String}

/-! ### Placing absolute paths -/

/-- Where the anchors place a path: the part of classification after the path was made
absolute. -/
def placed (anchors : List AnchorRoute) (absolute : String) : Route :=
  match anchors.find? fun anchor => isWithin anchor.anchorPath absolute with
  | some anchor =>
    .remote anchor.nodeId (PosixPath.join [anchor.remoteRoot,
      String.ofList (absolute.toList.drop anchor.anchorPath.length)])
  | none =>
    match anchors.filter fun anchor => isWithin anchor.remoteRoot absolute with
    | [anchor] => .remote anchor.nodeId absolute
    | [] => .localHost
    | claiming => .ambiguous absolute (claiming.map AnchorRoute.nodeId)

/-- Without an explicit spelling the anchors place the path. -/
theorem classifyPath_eq_placed {input : String} (h : explicit input = none) (cwd : Option String)
    (anchors : List AnchorRoute) :
    classifyPath input cwd anchors = placed anchors (toAbsolute input cwd) := by
  simp only [classifyPath, h]
  rfl

/-- Both paths of every anchor are absolute. -/
def AbsoluteAnchors (anchors : List AnchorRoute) : Prop :=
  ∀ a ∈ anchors, a.anchorPath.toList.head? = some '/' ∧ a.remoteRoot.toList.head? = some '/'

instance (anchors : List AnchorRoute) : Decidable (AbsoluteAnchors anchors) :=
  inferInstanceAs (Decidable (∀ a ∈ anchors,
    a.anchorPath.toList.head? = some '/' ∧ a.remoteRoot.toList.head? = some '/'))

/-- What lies within an absolute path is absolute. -/
theorem head?_of_isWithin {parent child : String} (hparent : parent.toList.head? = some '/')
    (h : isWithin parent child = true) : child.toList.head? = some '/' := by
  obtain ⟨rest, hrest⟩ := eq_cons_of_head hparent
  unfold isWithin at h
  split at h
  · rename_i heq
    rw [heq]
    exact hparent
  · simp only at h
    split at h
    · obtain ⟨more, hmore⟩ := List.isPrefixOf_iff_prefix.mp h
      rw [← hmore, hrest]
      rfl
    · obtain ⟨more, hmore⟩ := List.isPrefixOf_iff_prefix.mp h
      have hlist : child.toList = parent.toList ++ '/' :: more := by
        rw [← hmore]
        simp
      rw [hlist, hrest]
      rfl

/-- A path that is not absolute is left to this host. -/
theorem placed_of_relative (hanchors : AbsoluteAnchors anchors) {path : String}
    (h : path.toList.head? ≠ some '/') : placed anchors path = .localHost := by
  have hfind : anchors.find? (fun a => isWithin a.anchorPath path) = none := by
    rw [List.find?_eq_none]
    exact fun a ha hwithin => h (head?_of_isWithin (hanchors a ha).1 hwithin)
  have hfilter : anchors.filter (fun a => isWithin a.remoteRoot path) = [] := by
    rw [List.filter_eq_nil_iff]
    exact fun a ha hwithin => h (head?_of_isWithin (hanchors a ha).2 hwithin)
  simp only [placed, hfind, hfilter]

/-- A path placed on a machine is canonical. -/
theorem canonical_of_placed (hanchors : AbsoluteAnchors anchors) {path n d : String}
    (hpath : Canonical path) (h : placed anchors path = .remote n d) : Canonical d := by
  unfold placed at h
  split at h
  · rename_i a hfind
    injection h with hn hd
    obtain ⟨rest, hrest⟩ := eq_cons_of_head (hanchors a (List.mem_of_find?_eq_some hfind)).2
    rw [← hd]
    exact canonical_join hrest
  · split at h
    · injection h with hn hd
      rwa [← hd]
    · cases h
    · cases h

/-! ### Placing respects directories -/

/-- The place of names below a directory, from that of the directory. -/
def below (names : List String) : Route → Route
  | .localHost => .localHost
  | .remote nodeId path => .remote nodeId (PosixPath.join (path :: names))
  | .ambiguous path nodeIds => .ambiguous (PosixPath.join (path :: names)) nodeIds

/-- The path lies within no anchor directory, and is claimed by no remote root, that the
directory is not. -/
def EntersNone (anchors : List AnchorRoute) (dir path : String) : Prop :=
  ∀ a ∈ anchors,
    (isWithin a.anchorPath path = true → isWithin a.anchorPath dir = true) ∧
    (isWithin a.remoteRoot path = true → isWithin a.remoteRoot dir = true)

instance (anchors : List AnchorRoute) (dir path : String) :
    Decidable (EntersNone anchors dir path) :=
  inferInstanceAs (Decidable (∀ a ∈ anchors,
    (isWithin a.anchorPath path = true → isWithin a.anchorPath dir = true) ∧
    (isWithin a.remoteRoot path = true → isWithin a.remoteRoot dir = true)))

/-- What a directory lies within, names below it lie within. -/
theorem isWithin_join {parent dir : String} (hdir : Canonical dir)
    (hnames : ∀ name ∈ names, Plain name.toList) (h : isWithin parent dir = true) :
    isWithin parent (PosixPath.join (dir :: names)) = true := by
  obtain ⟨hwithin, suffix, hlist, -⟩ := join_names hdir hnames
  by_cases heq : dir = parent
  · rwa [heq] at hwithin ⊢
  · unfold isWithin at h ⊢
    rw [if_neg heq] at h
    split
    · rfl
    · simp only [List.isPrefixOf_iff_prefix] at h ⊢
      rw [hlist]
      exact h.trans (List.prefix_append _ _)

/-- What a path lies within is written at its beginning. -/
theorem exists_rest_of_isWithin {parent child : String} (h : isWithin parent child = true) :
    ∃ rest, child.toList = parent.toList ++ rest := by
  unfold isWithin at h
  split at h
  · rename_i heq
    exact ⟨[], by simp [heq]⟩
  · simp only at h
    split at h
    · obtain ⟨rest, hrest⟩ := List.isPrefixOf_iff_prefix.mp h
      exact ⟨rest, hrest.symm⟩
    · obtain ⟨rest, hrest⟩ := List.isPrefixOf_iff_prefix.mp h
      exact ⟨'/' :: rest, by rw [← hrest]; simp⟩

/-- A text joined to an absolute directory: its segments are read after the directory's. -/
theorem toList_join_text {dir text : String} {rest : List Char} (hdir : dir.toList = '/' :: rest)
    (htext : text ≠ "") : (PosixPath.join [dir, text]).toList =
      written (resolved (segments '/' dir.toList ++ segments '/' text.toList))
        (text.toList.getLast? = some '/') := by
  have hne : dir ≠ "" := by
    rintro rfl
    simp at hdir
  have hlist : ("/".intercalate [dir, text]).toList = dir.toList ++ '/' :: text.toList := by
    rw [toList_intercalate]
    simp [behind]
  have hhead : ("/".intercalate [dir, text]).toList = '/' :: (rest ++ '/' :: text.toList) := by
    rw [hlist, hdir, List.cons_append]
  have hlast : (dir.toList ++ '/' :: text.toList).getLast? = text.toList.getLast? := by
    obtain ⟨x, hx⟩ := Option.ne_none_iff_exists'.mp
      (mt List.getLast?_eq_none_iff.mp (mt String.toList_eq_nil_iff.mp htext))
    have hassoc : dir.toList ++ '/' :: text.toList = dir.toList ++ ['/'] ++ text.toList := by simp
    rw [hassoc, List.getLast?_append, hx, Option.some_or]
  rw [join_eq hne (List.forall_mem_singleton.mpr htext), toList_normalize_absolute hhead, hlist,
    segments_append_cons]
  simp only [hlast]

/-- The segments of such a path, where the text may be empty. -/
theorem segments_join_text {dir : String} {rest : List Char} (hdir : dir.toList = '/' :: rest)
    (text : String) : segments '/' (PosixPath.join [dir, text]).toList =
      resolved (segments '/' dir.toList ++ segments '/' text.toList) := by
  have hplain := resolved_plain (dir.toList ++ '/' :: text.toList)
  rw [segments_append_cons] at hplain
  by_cases htext : text = ""
  · have hne : dir ≠ "" := by
      rintro rfl
      simp at hdir
    have hjoin : PosixPath.join [dir, text] = PosixPath.normalize dir := by
      simp [PosixPath.join, hne, htext]
    rw [hjoin, toList_normalize_absolute hdir, segments_written (resolved_plain _), htext]
    simp
  · rw [toList_join_text hdir htext, segments_written hplain]

/-- Names behind a text are joined behind what is joined of the text. -/
theorem join_join_names {dir text tail : String} {rest sep : List Char}
    (hdir : dir.toList = '/' :: rest) (hne : names ≠ [])
    (hnames : ∀ name ∈ names, Plain name.toList)
    (htail : tail.toList = text.toList ++ (sep ++ ['/'].intercalate (names.map String.toList)))
    (hsegments : segments '/' tail.toList =
      segments '/' text.toList ++ names.map String.toList) :
    PosixPath.join [dir, tail] = PosixPath.join (PosixPath.join [dir, text] :: names) := by
  have hplain : ∀ s ∈ names.map String.toList, Plain s := by
    intro s hs
    obtain ⟨name, hmem, rfl⟩ := List.mem_map.mp hs
    exact hnames name hmem
  have hend := getLast?_intercalate_ne (by simpa using hne) (Plain.separated hplain)
  have hlast : tail.toList.getLast? ≠ some '/' := by
    obtain ⟨x, hx⟩ := Option.ne_none_iff_exists'.mp (mt List.getLast?_eq_none_iff.mp hend.1)
    rw [htail, List.getLast?_append, List.getLast?_append, hx, Option.some_or, Option.some_or, ← hx]
    exact hend.2
  have htail_ne : tail ≠ "" := by
    rintro rfl
    rw [htail] at hlast
    have hnil := (List.append_eq_nil_iff.mp htail.symm).2
    exact hend.1 (List.append_eq_nil_iff.mp hnil).2
  have hcanonical : Canonical (PosixPath.join [dir, text]) := canonical_join hdir
  obtain ⟨_, hjoined⟩ := hcanonical.absolute
  have hresolved := resolved_plain (dir.toList ++ '/' :: text.toList)
  rw [segments_append_cons] at hresolved
  apply String.toList_inj.mp
  rw [toList_join_text hdir htail_ne, toList_join hjoined hnames, hsegments, ← List.append_assoc,
    resolved_append_plain hplain, segments_join_text hdir,
    resolved_of_plain hresolved]
  simp only [hlast, hne, false_and]

/-- Names behind a path are the segments behind those of what the path ends in. -/
theorem segments_rest {dir text : List Char} {parent : List Char} (hdir : dir = parent ++ text)
    {ss : List (List Char)} (hss : ∀ s ∈ ss, Plain s) :
    segments '/' (text ++ ((if dir.getLast? = some '/' then [] else ['/']) ++
      ['/'].intercalate ss)) = segments '/' text ++ ss := by
  have hsegments := segments_intercalate (Plain.separated hss)
  split
  · rename_i hlast
    by_cases htext : text = []
    · rw [htext, List.nil_append, List.nil_append, hsegments, segments_nil, List.nil_append]
    · -- the path ends in the slash that its last part ends in
      obtain ⟨x, hx⟩ := Option.ne_none_iff_exists'.mp (mt List.getLast?_eq_none_iff.mp htext)
      rw [hdir, List.getLast?_append, hx, Option.some_or] at hlast
      obtain ⟨init, hinit⟩ := List.getLast?_eq_some_iff.mp (hx.trans hlast)
      rw [hinit, segments_concat, List.nil_append, List.append_assoc, List.singleton_append,
        segments_append_cons, hsegments]
  · rw [List.singleton_append, segments_append_cons, hsegments]

/-- Placing respects directories: names behind a directory, where they enter no anchor, are
placed behind its place. -/
theorem placed_join (hanchors : AbsoluteAnchors anchors) {dir : String} (hdir : Canonical dir)
    (hne : names ≠ []) (hnames : ∀ name ∈ names, Plain name.toList)
    (henters : EntersNone anchors dir (PosixPath.join (dir :: names))) :
    placed anchors (PosixPath.join (dir :: names)) = below names (placed anchors dir) := by
  have hfind : anchors.find? (fun a => isWithin a.anchorPath (PosixPath.join (dir :: names))) =
      anchors.find? fun a => isWithin a.anchorPath dir := by
    apply List.find?_congr
    intro a ha
    exact Bool.eq_iff_iff.mpr ⟨(henters a ha).1, isWithin_join hdir hnames⟩
  have hfilter : anchors.filter (fun a => isWithin a.remoteRoot (PosixPath.join (dir :: names))) =
      anchors.filter fun a => isWithin a.remoteRoot dir := by
    apply List.filter_congr
    intro a ha
    exact Bool.eq_iff_iff.mpr ⟨(henters a ha).2, isWithin_join hdir hnames⟩
  unfold placed
  rw [hfind, hfilter]
  cases hfound : anchors.find? (fun a => isWithin a.anchorPath dir) with
  | some a =>
    have hwithin : isWithin a.anchorPath dir = true := (List.find?_eq_some_iff_append.mp hfound).1
    obtain ⟨text, htext⟩ := exists_rest_of_isWithin hwithin
    have hlist := toList_join_canonical hdir hne hnames
    have hplain : ∀ s ∈ names.map String.toList, Plain s := by
      intro s hs
      obtain ⟨name, hmem, rfl⟩ := List.mem_map.mp hs
      exact hnames name hmem
    obtain ⟨rest, hrest⟩ := eq_cons_of_head (hanchors a (List.mem_of_find?_eq_some hfound)).2
    have hdrop : dir.toList.drop a.anchorPath.length = text := by
      rw [htext, ← String.length_toList, List.drop_left]
    have hdrop' : (PosixPath.join (dir :: names)).toList.drop a.anchorPath.length = text ++
        ((if dir.toList.getLast? = some '/' then [] else ['/']) ++
          ['/'].intercalate (names.map String.toList)) := by
      rw [hlist, ← String.length_toList]
      generalize (if dir.toList.getLast? = some '/' then ([] : List Char) else ['/']) = sep
      rw [htext, List.append_assoc, List.drop_left]
    simp only [below, hdrop, hdrop']
    congr 1
    apply join_join_names hrest hne hnames
    · rw [String.toList_ofList, String.toList_ofList]
    · rw [String.toList_ofList, String.toList_ofList]
      exact segments_rest htext hplain
  | none =>
    simp only
    split <;> rfl

/-! ### Relative paths -/

/-- Reading a segment keeps segments apart. -/
theorem normalizeSegment_separated {allow : Bool} {kept : List (List Char)} {s : List Char}
    (hkept : ∀ t ∈ kept, t ≠ [] ∧ '/' ∉ t) (hs : '/' ∉ s) :
    ∀ t ∈ PosixPath.normalizeSegment allow kept s, t ≠ [] ∧ '/' ∉ t := by
  unfold PosixPath.normalizeSegment
  have hconcat : s ≠ [] → ∀ t ∈ kept ++ [s], t ≠ [] ∧ '/' ∉ t := by
    intro hne t ht
    rcases List.mem_append.mp ht with ht | ht
    · exact hkept t ht
    · rw [List.mem_singleton.mp ht]
      exact ⟨hne, hs⟩
  split
  · exact hkept
  · rename_i hskip
    have hne : s ≠ [] := (not_or.mp hskip).1
    split
    · split
      · split
        · exact hconcat hne
        · exact fun t ht => hkept t (List.dropLast_subset kept ht)
      · split
        · exact fun t ht => by rw [List.mem_singleton.mp ht]; exact ⟨hne, hs⟩
        · simp
    · exact hconcat hne

/-- Normalizing a path that is not absolute does not make it so. -/
theorem head?_normalize {path : String} (h : path.toList.head? ≠ some '/') :
    (PosixPath.normalize path).toList.head? ≠ some '/' := by
  have hfold : ∀ (allow : Bool) (l kept : List (List Char)), (∀ s ∈ l, '/' ∉ s) →
      (∀ t ∈ kept, t ≠ [] ∧ '/' ∉ t) →
      ∀ t ∈ l.foldl (PosixPath.normalizeSegment allow) kept, t ≠ [] ∧ '/' ∉ t := by
    intro allow l
    induction l with
    | nil => exact fun kept _ hkept => hkept
    | cons s l ih =>
      intro kept hl hkept
      obtain ⟨hs, hl⟩ := List.forall_mem_cons.mp hl
      exact ih _ hl (normalizeSegment_separated hkept hs)
  have hkept := hfold true (path.toList.splitOn '/') [] (not_mem_of_mem_splitOn '/' path.toList)
    (by simp)
  unfold PosixPath.normalize
  simp only [h, decide_false, Bool.not_false, if_false, List.nil_append]
  generalize (path.toList.splitOn '/').foldl (PosixPath.normalizeSegment true) [] = kept at hkept
  split
  · decide +kernel
  · split
    · split <;> decide +kernel
    · rename_i hbody
      rw [String.toList_ofList]
      cases kept with
      | nil => simp at hbody
      | cons s rest =>
        obtain ⟨hs, hslash⟩ := hkept s List.mem_cons_self
        obtain ⟨c, cs, rfl⟩ := List.exists_cons_of_ne_nil hs
        have hc : c ≠ '/' := fun hc => hslash (hc ▸ List.mem_cons_self)
        cases rest with
        | nil => simp [hc]
        | cons s' rest => 
          rw [List.intercalate_cons_of_ne_nil (by simp)]
          simp [hc]

/-- Joining to a directory that is not absolute does not make a relative path absolute. -/
theorem head?_join {cwd path : String} (hcwd : cwd.toList.head? ≠ some '/')
    (hpath : path.toList.head? ≠ some '/') :
    (PosixPath.join [cwd, path]).toList.head? ≠ some '/' := by
  have hjoined : ("/".intercalate ([cwd, path].filter (· ≠ ""))).toList.head? ≠ some '/' := by
    by_cases hcwd_ne : cwd = ""
    · by_cases hpath_ne : path = ""
      · simp [hcwd_ne, hpath_ne]
      · simpa [hcwd_ne, hpath_ne] using hpath
    · obtain ⟨c, cs, hcons⟩ := List.exists_cons_of_ne_nil (mt String.toList_eq_nil_iff.mp hcwd_ne)
      have hc : c ≠ '/' := by simpa [hcons] using hcwd
      by_cases hpath_ne : path = ""
      · simpa [hcwd_ne, hpath_ne] using hcwd
      · simp [hcwd_ne, hpath_ne, hcons, hc]
  unfold PosixPath.join
  simp only
  split
  · decide +kernel
  · exact head?_normalize hjoined

/-- A relative path from an absolute directory is the directory, normalized, with the names
behind it. -/
theorem toAbsolute_names {cwd : String} {rest : List Char} (hcwd : cwd.toList = '/' :: rest)
    (hne : names ≠ []) (hnames : ∀ name ∈ names, Plain name.toList)
    (hback : ∀ name ∈ names, '\\' ∉ name.toList) :
    toAbsolute (relative 0 names) (some cwd) =
      PosixPath.join (PosixPath.normalize cwd :: names) := by
  have hcanonical := canonical_normalize hcwd
  obtain ⟨_, hnormal⟩ := hcanonical.absolute
  have hsegments : segments '/' (PosixPath.normalize cwd).toList =
      resolved (segments '/' cwd.toList) := by
    rw [toList_normalize_absolute hcwd, segments_written (resolved_plain _)]
  apply String.toList_inj.mp
  rw [toAbsolute_relative hcwd hnames hback (Nat.zero_le _), toList_join hnormal hnames, hsegments,
    resolved_of_plain (resolved_plain _), Nat.sub_zero, List.take_length]
  simp only [hne, false_and, and_false]

/-- The path of an explicit spelling is absolute. -/
theorem head?_of_explicit {input id path : String} (h : explicit input = some (id, path)) :
    path.toList.head? = some '/' := by
  unfold explicit at h
  simp only at h
  split at h
  · split at h
    · split at h
      · cases h
      · injection h with h
        injection h with hid hpath
        rw [← hpath, String.toList_ofList, List.head?_cons]
    · cases h
  · cases h

/-- A path classified to a machine is canonical. -/
theorem canonical_of_remote (hanchors : AbsoluteAnchors anchors) {input n d : String}
    (h : classifyPath input none anchors = .remote n d) : Canonical d := by
  cases hexplicit : explicit input with
  | some found =>
    obtain ⟨id, path⟩ := found
    obtain ⟨rest, hrest⟩ := eq_cons_of_head (head?_of_explicit hexplicit)
    simp only [classifyPath, hexplicit] at h
    injection h with hn hd
    rw [← hd]
    exact canonical_normalize hrest
  | none =>
    rw [classifyPath_eq_placed hexplicit] at h
    exact canonical_of_placed hanchors (canonical_toAbsolute input (by simp)) h

/-- Names behind two places are the same path when the places have the same segments. -/
theorem join_names_eq_iff {d d' : String} (hd : Canonical d) (hd' : Canonical d')
    (hne : names ≠ []) (hnames : ∀ name ∈ names, Plain name.toList) :
    PosixPath.join (d' :: names) = PosixPath.join (d :: names) ↔
      segments '/' d'.toList = segments '/' d.toList := by
  obtain ⟨_, hrest⟩ := hd.absolute
  obtain ⟨_, hrest'⟩ := hd'.absolute
  constructor
  · intro h
    have hsegments := (canonical_join_names hrest hnames).2
    rw [← h, (canonical_join_names hrest' hnames).2, resolved_of_plain hd.plain,
      resolved_of_plain hd'.plain] at hsegments
    exact List.append_cancel_right hsegments
  · intro h
    apply String.toList_inj.mp
    rw [toList_join hrest hnames, toList_join hrest' hnames, h]
    simp only [hne, false_and]

/-- A relative path of names that enters no anchor stays with its directory exactly when the text
of the directory, normalized as it stands, is placed on the directory's machine at the directory's
path, up to a trailing slash. -/
theorem relative_stays_iff (hanchors : AbsoluteAnchors anchors) {cwd n d : String}
    (hcwd : classifyPath cwd none anchors = .remote n d) (hne : names ≠ [])
    (hnames : ∀ name ∈ names, Plain name.toList) (hback : ∀ name ∈ names, '\\' ∉ name.toList)
    (hexplicit : explicit (relative 0 names) = none)
    (henters : EntersNone anchors (PosixPath.normalize cwd)
      (toAbsolute (relative 0 names) (some cwd))) :
    classifyPath (relative 0 names) (some cwd) anchors = .remote n (PosixPath.join (d :: names)) ↔
      ∃ d', placed anchors (PosixPath.normalize cwd) = .remote n d' ∧
        segments '/' d'.toList = segments '/' d.toList := by
  rw [classifyPath_eq_placed hexplicit]
  by_cases habsolute : cwd.toList.head? = some '/'
  · obtain ⟨rest, hrest⟩ := eq_cons_of_head habsolute
    have hcanonical := canonical_normalize hrest
    have hd := canonical_of_remote hanchors hcwd
    rw [toAbsolute_names hrest hne hnames hback] at henters ⊢
    rw [placed_join hanchors hcanonical hne hnames henters]
    cases hplaced : placed anchors (PosixPath.normalize cwd) with
    | localHost => simp [below]
    | ambiguous path nodeIds => simp [below]
    | remote n' d' =>
      have hd' := canonical_of_placed hanchors hcanonical hplaced
      simp only [below, Route.remote.injEq, join_names_eq_iff hd hd' hne hnames]
      constructor
      · rintro ⟨rfl, hsegments⟩
        exact ⟨d', ⟨rfl, rfl⟩, hsegments⟩
      · rintro ⟨_, ⟨rfl, rfl⟩, hsegments⟩
        exact ⟨rfl, hsegments⟩
  · -- the joined path is not absolute, and neither is the directory by itself
    have hpath : (toAbsolute (relative 0 names) (some cwd)).toList.head? ≠ some '/' := by
      rw [toAbsolute_of_relative (head?_relative hnames) (backslash_relative hback)]
      exact head?_normalize (head?_join habsolute (head?_relative hnames))
    rw [placed_of_relative hanchors hpath, placed_of_relative hanchors (head?_normalize habsolute)]
    simp

/-- So it does from an absolute directory without a backslash. -/
theorem relative_stays {cwd n d : String}
    (hcwd : classifyPath cwd none anchors = .remote n d)
    (habsolute : cwd.toList.head? = some '/') (hclean : '\\' ∉ cwd.toList) :
    ∃ d', placed anchors (PosixPath.normalize cwd) = .remote n d' ∧
      segments '/' d'.toList = segments '/' d.toList := by
  obtain ⟨rest, hrest⟩ := eq_cons_of_head habsolute
  rw [classifyPath_eq_placed (explicit_of_absolute hrest), toAbsolute_of_absolute hrest hclean]
    at hcwd
  exact ⟨d, hcwd, rfl⟩

/-- And it does not from an explicit spelling of the directory. -/
theorem relative_leaves (hanchors : AbsoluteAnchors anchors) {cwd n : String}
    (hcwd : explicit cwd ≠ none) :
    ¬ ∃ d', placed anchors (PosixPath.normalize cwd) = .remote n d' := by
  have hrelative : cwd.toList.head? ≠ some '/' := by
    intro h
    obtain ⟨rest, hrest⟩ := eq_cons_of_head h
    exact hcwd (explicit_of_absolute hrest)
  rw [placed_of_relative hanchors (head?_normalize hrelative)]
  simp

/-- From the worktree's directory a name leads below its remote root. -/
theorem relative_stays_worktree :
    classifyPath "x" (some "/a/wt") [worktreeRoute] =
      .remote "n" (PosixPath.join ["/srv/wt", "x"]) := by
  have hanchors : AbsoluteAnchors [worktreeRoute] := by decide +kernel
  have hcwd : classifyPath "/a/wt" none [worktreeRoute] = .remote "n" "/srv/wt" := by
    decide +kernel
  have hne : ["x"] ≠ [] := by decide
  exact (relative_stays_iff hanchors hcwd hne (by decide +kernel) (by decide +kernel)
    (by decide +kernel) (by decide +kernel)).mpr ⟨"/srv/wt", by decide +kernel, rfl⟩

/-- The same directory, spelt explicitly: the name is left to this host. -/
theorem relative_leaves_worktree :
    classifyPath "node:n:/srv/wt" none [worktreeRoute] = .remote "n" "/srv/wt" ∧
      classifyPath "x" (some "node:n:/srv/wt") [worktreeRoute] = .localHost ∧
      ¬ ∀ cwd n d, classifyPath cwd none [worktreeRoute] = .remote n d →
        classifyPath "x" (some cwd) [worktreeRoute] = .remote n (PosixPath.join [d, "x"]) := by
  refine ⟨by decide +kernel, by decide +kernel, fun hall => ?_⟩
  exact absurd (hall "node:n:/srv/wt" "n" "/srv/wt" (by decide +kernel)) (by decide +kernel)

end RemoteWorkspace.Analysis.Classify
