import RemoteWorkspace.Analysis.PosixSegments

/-!
# What joining makes of its arguments

Normalizing an absolute path reads its segments one by one, so it depends on nothing but the
segments and the last character. Names that are joined behind a directory become its last
segments; where the directory is absolute, it does not matter whether it was normalized before.
-/

set_option autoImplicit false

namespace RemoteWorkspace.Analysis.PosixSegments

open RemoteWorkspace.Computation
open RemoteWorkspace.Model.PosixPath

/-! ### Reading segments -/

/-- What normalizing keeps of the segments of an absolute path. -/
def resolved (ss : List (List Char)) : List (List Char) := ss.foldl (normalizeSegment false) []

/-- Empty segments are not read. -/
theorem foldl_segments (allow : Bool) (l : List (List Char)) (kept : List (List Char)) :
    l.foldl (normalizeSegment allow) kept =
      (l.filter (· ≠ [])).foldl (normalizeSegment allow) kept := by
  induction l generalizing kept with
  | nil => rfl
  | cons s l ih =>
    by_cases hs : s = []
    · have hskip : normalizeSegment allow kept s = kept := by simp [normalizeSegment, hs]
      rw [List.foldl_cons, hskip, ih, List.filter_cons_of_neg (by simp [hs])]
    · rw [List.foldl_cons, ih, List.filter_cons_of_pos (by simp [hs]), List.foldl_cons]

/-- A path is normalized by its segments, its first and its last character. -/
theorem normalize_congr {p q : String} (hp : p ≠ "") (hq : q ≠ "")
    (hhead : p.toList.head? = some '/' ↔ q.toList.head? = some '/')
    (hlast : p.toList.getLast? = some '/' ↔ q.toList.getLast? = some '/')
    (hsegments : segments '/' p.toList = segments '/' q.toList) : normalize p = normalize q := by
  have hp' : p.toList ≠ [] := mt String.toList_eq_nil_iff.mp hp
  have hq' : q.toList ≠ [] := mt String.toList_eq_nil_iff.mp hq
  have hfold : ∀ allow, (p.toList.splitOn '/').foldl (normalizeSegment allow) [] =
      (q.toList.splitOn '/').foldl (normalizeSegment allow) [] := by
    intro allow
    rw [foldl_segments, foldl_segments allow (q.toList.splitOn '/')]
    exact congrArg _ hsegments
  unfold RemoteWorkspace.Model.PosixPath.normalize
  simp only [if_neg hp', if_neg hq', hhead, hlast, hfold]

/-- What normalizing an absolute path writes, by its segments. -/
theorem toList_normalize_absolute {path : String} {rest : List Char}
    (h : path.toList = '/' :: rest) :
    (normalize path).toList =
      written (resolved (segments '/' path.toList)) (path.toList.getLast? = some '/') := by
  apply toList_normalize h
  · rw [foldl_segments]
    rfl
  · unfold resolved segments
    rw [← foldl_segments]
    exact foldl_normalizeSegment_keeps_plain (not_mem_of_mem_splitOn '/' path.toList)
      (List.forall_mem_nil Plain)

/-- What is kept of the segments of any text is plain. -/
theorem resolved_plain (l : List Char) : ∀ s ∈ resolved (segments '/' l), Plain s := by
  unfold resolved segments
  rw [← foldl_segments]
  exact foldl_normalizeSegment_keeps_plain (not_mem_of_mem_splitOn '/' l)
    (List.forall_mem_nil Plain)

/-- Plain segments are kept behind what was kept before them. -/
theorem foldl_plain {allow : Bool} {ss kept : List (List Char)} (h : ∀ s ∈ ss, Plain s) :
    ss.foldl (normalizeSegment allow) kept = kept ++ ss := by
  induction ss generalizing kept with
  | nil => simp
  | cons s ss ih =>
    obtain ⟨hs, hss⟩ := List.forall_mem_cons.mp h
    rw [List.foldl_cons, normalizeSegment_plain hs, ih hss, List.append_assoc,
      List.singleton_append]

/-- Plain segments at the end are kept as they are. -/
theorem resolved_append_plain {ss names : List (List Char)} (h : ∀ s ∈ names, Plain s) :
    resolved (ss ++ names) = resolved ss ++ names := by
  rw [resolved, List.foldl_append, foldl_plain h]
  rfl

/-- Plain segments are all kept. -/
theorem resolved_of_plain {ss : List (List Char)} (h : ∀ s ∈ ss, Plain s) : resolved ss = ss := by
  rw [resolved, foldl_plain h, List.nil_append]

/-- Each `..` takes back one plain segment. -/
theorem foldl_dotdots {k : ℕ} {kept : List (List Char)} (hkept : ∀ s ∈ kept, Plain s)
    (hk : k ≤ kept.length) :
    (List.replicate k ['.', '.']).foldl (normalizeSegment false) kept =
      kept.take (kept.length - k) := by
  induction k generalizing kept with
  | zero => simp
  | succ k ih =>
    have hne : kept ≠ [] := List.ne_nil_of_length_pos (by omega)
    have hlast := hkept _ (List.getLast_mem hne)
    have hdrop : normalizeSegment false kept ['.', '.'] = kept.dropLast := by
      simp [normalizeSegment, List.getLast?_eq_some_getLast hne, hlast.ne_dotdot]
    have hlength : kept.dropLast.length = kept.length - 1 := List.length_dropLast
    rw [List.replicate_succ, List.foldl_cons, hdrop,
      ih (fun s hs => hkept s (List.dropLast_subset kept hs)) (by omega), hlength,
      List.dropLast_eq_take, List.take_take]
    congr 1
    omega

/-- A trailing slash is only written behind a segment. -/
theorem written_congr {kept : List (List Char)} {slash slash' : Bool}
    (h : kept ≠ [] → slash = slash') : written kept slash = written kept slash' := by
  by_cases hempty : kept = []
  · simp [written, hempty]
  · rw [h hempty]

/-- More segments are written behind a path that ends in a slash as they are, and behind another
one after a slash. -/
theorem written_append (kept : List (List Char)) {more : List (List Char)} (hmore : more ≠ [])
    (slash : Bool) : written (kept ++ more) false = written kept slash ++
      ((if slash = true ∨ kept = [] then [] else ['/']) ++ ['/'].intercalate more) := by
  by_cases hempty : kept = []
  · simp [written, hempty]
  · have hsplit : ['/'].intercalate (kept ++ more) =
        ['/'].intercalate kept ++ '/' :: ['/'].intercalate more := intercalate_append hempty hmore
    cases slash with
    | false => simp [written, hempty, hsplit]
    | true => simp [written, hempty, hsplit]

/-- Normalizing leaves a canonical path as it is. -/
theorem Canonical.normalize_eq {path : String} (h : Canonical path) : normalize path = path := by
  obtain ⟨rest, hrest⟩ := h.absolute
  have hplain := h.plain
  obtain ⟨kept, slash, hkept, hpath⟩ := h
  apply String.toList_inj.mp
  rw [toList_normalize_absolute hrest, resolved_of_plain hplain, hpath, segments_written hkept]
  apply written_congr
  intro hne
  simp [getLast?_written hkept, hne]

/-- A canonical path is its segments written out. -/
theorem Canonical.toList_eq {path : String} (h : Canonical path) :
    path.toList = written (segments '/' path.toList) (path.toList.getLast? = some '/') := by
  obtain ⟨rest, hrest⟩ := h.absolute
  have hnormal := toList_normalize_absolute hrest
  rwa [h.normalize_eq, resolved_of_plain h.plain] at hnormal

/-! ### Joined names -/

/-- Names behind a path, each after a slash. -/
def behind (names : List String) : List Char := names.flatMap fun name => '/' :: name.toList

/-- One more name. -/
theorem behind_cons (name : String) (names : List String) :
    behind (name :: names) = '/' :: (name.toList ++ behind names) := by
  rw [behind, List.flatMap_cons, List.cons_append]
  rfl

/-- Arguments that are not empty are joined by a slash each. -/
theorem toList_intercalate (dir : String) (names : List String) :
    ("/".intercalate (dir :: names)).toList = dir.toList ++ behind names := by
  induction names generalizing dir with
  | nil => simp [behind]
  | cons name names ih =>
    have hslash : "/".toList = ['/'] := rfl
    rw [String.toList_intercalate, List.map_cons, List.intercalate_cons_of_ne_nil (by simp),
      ← String.toList_intercalate, ih, behind_cons, hslash]
    simp

/-- Joining is normalizing the arguments with slashes between them. -/
theorem join_eq {dir : String} {names : List String} (hdir : dir ≠ "")
    (hnames : ∀ name ∈ names, name ≠ "") :
    join (dir :: names) = normalize ("/".intercalate (dir :: names)) := by
  have hargs : (dir :: names).filter (· ≠ "") = dir :: names := by
    rw [List.filter_eq_self]
    intro name hmem
    rcases List.mem_cons.mp hmem with rfl | hmem
    · exact decide_eq_true hdir
    · exact decide_eq_true (hnames name hmem)
  have hne : "/".intercalate (dir :: names) ≠ "" := by
    intro h
    have hlist := toList_intercalate dir names
    rw [h] at hlist
    have hempty := (List.append_eq_nil_iff.mp hlist.symm).1
    exact hdir (String.toList_eq_nil_iff.mp hempty)
  rw [join, hargs]
  exact if_neg hne

/-- Names that stay apart with slashes between them. -/
def Separate (names : List String) : Prop := ∀ name ∈ names, name.toList ≠ [] ∧ '/' ∉ name.toList

/-- Plain names stay apart. -/
theorem separate_of_plain {names : List String} (h : ∀ name ∈ names, Plain name.toList) :
    Separate names :=
  fun name hmem => ⟨(h name hmem).ne_nil, (h name hmem).no_slash⟩

/-- Such names are not empty. -/
theorem Separate.ne_empty {names : List String} (h : Separate names) : ∀ name ∈ names, name ≠ "" := by
  rintro name hmem rfl
  exact (h "" hmem).1 rfl

/-- The segments of names behind a path. -/
theorem segments_behind {names : List String} (hnames : Separate names) (dir : List Char) :
    segments '/' (dir ++ behind names) = segments '/' dir ++ names.map String.toList := by
  induction names generalizing dir with
  | nil => simp [behind]
  | cons name names ih =>
    obtain ⟨hname, hrest⟩ := List.forall_mem_cons.mp hnames
    have hone : segments '/' name.toList = [name.toList] := by
      have hsplit := segments_intercalate (List.forall_mem_singleton.mpr hname)
      simpa using hsplit
    have hassoc : dir ++ behind (name :: names) = (dir ++ '/' :: name.toList) ++ behind names := by
      rw [behind_cons]
      simp
    rw [hassoc, ih hrest, segments_append_cons, hone, List.map_cons, List.append_assoc,
      List.singleton_append]

/-- Names behind a path end it in no slash. -/
theorem getLast?_behind {names : List String} (hne : names ≠ []) (hnames : Separate names)
    (dir : List Char) :
    (dir ++ behind names).getLast? ≠ some '/' := by
  obtain ⟨init, name, rfl⟩ : ∃ init name, names = init ++ [name] :=
    ⟨_, _, (List.dropLast_concat_getLast hne).symm⟩
  have hname := hnames name (by simp)
  have hlast : (dir ++ behind (init ++ [name])).getLast? = name.toList.getLast? := by
    obtain ⟨x, hx⟩ := Option.ne_none_iff_exists'.mp
      (mt List.getLast?_eq_none_iff.mp hname.1)
    have htail : behind (init ++ [name]) = behind init ++ ['/'] ++ name.toList := by
      simp [behind]
    rw [htail, ← List.append_assoc, List.getLast?_append, hx, Option.some_or]
  rw [hlast]
  exact fun h => hname.2 (List.mem_of_getLast? h)

/-- Plain names behind an absolute directory are written behind what is kept of it. -/
theorem toList_join {dir : String} {rest : List Char} {names : List String}
    (hdir : dir.toList = '/' :: rest) (hnames : ∀ name ∈ names, Plain name.toList) :
    (join (dir :: names)).toList =
      written (resolved (segments '/' dir.toList) ++ names.map String.toList)
        (names = [] ∧ dir.toList.getLast? = some '/') := by
  have hne : dir ≠ "" := by
    rintro rfl
    simp at hdir
  have hplain : ∀ s ∈ names.map String.toList, Plain s := by
    intro s hs
    obtain ⟨name, hmem, rfl⟩ := List.mem_map.mp hs
    exact hnames name hmem
  have hseparate := separate_of_plain hnames
  have hlist := toList_intercalate dir names
  have hhead : ("/".intercalate (dir :: names)).toList = '/' :: (rest ++ behind names) := by
    rw [hlist, hdir, List.cons_append]
  rw [join_eq hne hseparate.ne_empty, toList_normalize_absolute hhead, hlist,
    segments_behind hseparate, resolved_append_plain hplain]
  by_cases hempty : names = []
  · simp [hempty, behind]
  · simp only [getLast?_behind hempty hseparate, hempty, false_and]

/-- Plain names behind an absolute directory make a canonical path. -/
theorem canonical_join_names {dir : String} {rest : List Char} {names : List String}
    (hdir : dir.toList = '/' :: rest) (hnames : ∀ name ∈ names, Plain name.toList) :
    Canonical (join (dir :: names)) ∧ segments '/' (join (dir :: names)).toList =
      resolved (segments '/' dir.toList) ++ names.map String.toList := by
  have hplain : ∀ s ∈ resolved (segments '/' dir.toList) ++ names.map String.toList, Plain s := by
    intro s hs
    rcases List.mem_append.mp hs with hs | hs
    · exact resolved_plain _ s hs
    · obtain ⟨name, hmem, rfl⟩ := List.mem_map.mp hs
      exact hnames name hmem
  have hjoin := toList_join hdir hnames
  refine ⟨⟨_, _, hplain, hjoin⟩, ?_⟩
  rw [hjoin, segments_written hplain]

/-- A text that has the names as its segments is joined as they are. -/
theorem join_of_segments {dir suffix : String} {names : List String} (hdir : dir ≠ "")
    (hnames : Separate names) (hsegments : segments '/' suffix.toList = names.map String.toList)
    (hlast : suffix.toList.getLast? ≠ some '/') (hempty : names = [] → suffix = "") :
    join [dir, suffix] = join (dir :: names) := by
  by_cases hne : names = []
  · rw [hempty hne, hne]
    simp [join, hdir]
  · have hsuffix : suffix ≠ "" := by
      rintro rfl
      simp [eq_comm, hne] at hsegments
    have hdir' : dir.toList ≠ [] := mt String.toList_eq_nil_iff.mp hdir
    have hsuffix' : suffix.toList ≠ [] := mt String.toList_eq_nil_iff.mp hsuffix
    have hone := toList_intercalate dir [suffix]
    have hall := toList_intercalate dir names
    have hnonempty : ∀ args, "/".intercalate (dir :: args) ≠ "" := by
      intro args h
      have hlist := toList_intercalate dir args
      rw [h] at hlist
      exact hdir' (List.append_eq_nil_iff.mp hlist.symm).1
    rw [join_eq hdir (List.forall_mem_singleton.mpr hsuffix), join_eq hdir hnames.ne_empty]
    apply normalize_congr (hnonempty _) (hnonempty _)
    · rw [hone, hall, List.head?_append, List.head?_append]
      obtain ⟨c, rest, hcons⟩ := List.exists_cons_of_ne_nil hdir'
      simp [hcons]
    · have hlast' : ("/".intercalate [dir, suffix]).toList.getLast? = suffix.toList.getLast? := by
        obtain ⟨x, hx⟩ := Option.ne_none_iff_exists'.mp (mt List.getLast?_eq_none_iff.mp hsuffix')
        have htail : dir.toList ++ behind [suffix] = dir.toList ++ ['/'] ++ suffix.toList := by
          simp [behind]
        rw [hone, htail, List.getLast?_append, hx, Option.some_or]
      have hbehind := getLast?_behind hne hnames dir.toList
      rw [hlast', hall]
      simp only [hlast, hbehind]
    · rw [hone, hall, segments_behind hnames, ← hsegments]
      simp [behind, segments_append_cons]

end RemoteWorkspace.Analysis.PosixSegments
