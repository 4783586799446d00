import Mathlib.Tactic.Common
import RemoteWorkspace.Computation.Segments
import RemoteWorkspace.Model.PosixPath

/-!
# Normalized absolute paths

An absolute path after `posix.normalize` is the list of its segments written out, none of
them empty, `.` or `..`. Joining a suffix onto such a path appends the suffix's segments.
-/

set_option autoImplicit false

namespace RemoteWorkspace.Analysis.PosixSegments

open RemoteWorkspace.Computation
open RemoteWorkspace.Model.PosixPath

/-- A segment that normalizing keeps as it is. -/
structure Plain (s : List Char) : Prop where
  ne_nil : s ≠ []
  ne_dot : s ≠ ['.']
  ne_dotdot : s ≠ ['.', '.']
  no_slash : '/' ∉ s

instance (s : List Char) : Decidable (Plain s) :=
  decidable_of_iff (s ≠ [] ∧ s ≠ ['.'] ∧ s ≠ ['.', '.'] ∧ '/' ∉ s)
    ⟨fun ⟨hne, hdot, hdots, hslash⟩ => ⟨hne, hdot, hdots, hslash⟩,
      fun h => ⟨h.ne_nil, h.ne_dot, h.ne_dotdot, h.no_slash⟩⟩

/-- The absolute path with these segments, with or without a trailing slash. -/
def written (kept : List (List Char)) (slash : Bool) : List Char :=
  '/' :: (['/'].intercalate kept ++ if slash = true ∧ kept ≠ [] then ['/'] else [])

/-- A normalized absolute path. -/
def Canonical (path : String) : Prop :=
  ∃ kept slash, (∀ s ∈ kept, Plain s) ∧ path.toList = written kept slash

/-- A normalized absolute path that does not end in a slash, so not the root directory. -/
structure NormalizedRoot (path : String) : Prop where
  absolute : path.toList.head? = some '/'
  normalized : normalize path = path
  no_trailing_slash : path.toList.getLast? ≠ some '/'

/-- Plain segments can be told apart when written with slashes between them. -/
theorem Plain.separated {kept : List (List Char)} (h : ∀ s ∈ kept, Plain s) :
    ∀ s ∈ kept, s ≠ [] ∧ '/' ∉ s :=
  fun s hs => ⟨(h s hs).ne_nil, (h s hs).no_slash⟩

/-- A plain segment is kept. -/
theorem normalizeSegment_plain {allow : Bool} {kept : List (List Char)} {s : List Char}
    (hs : Plain s) : normalizeSegment allow kept s = kept ++ [s] := by
  rw [normalizeSegment, if_neg (not_or.mpr ⟨hs.ne_nil, hs.ne_dot⟩), if_neg hs.ne_dotdot]

/-- Plain segments are all kept, the empty ones between them dropped. -/
theorem foldl_normalizeSegment_plain {allow : Bool} {l : List (List Char)} :
    ∀ {kept : List (List Char)}, (∀ s ∈ l.filter (· ≠ []), Plain s) →
      l.foldl (normalizeSegment allow) kept = kept ++ l.filter (· ≠ []) := by
  induction l with
  | nil => intro kept _; simp
  | cons s l ih =>
    intro kept h
    by_cases hs : s = []
    · have hskip : normalizeSegment allow kept s = kept := by simp [normalizeSegment, hs]
      have hrest : ∀ t ∈ l.filter (· ≠ []), Plain t := by
        intro t ht
        exact h t (by simpa [hs] using ht)
      rw [List.foldl_cons, hskip, ih hrest]
      simp [hs]
    · have hplain : Plain s := h s (by simp [hs])
      have hrest : ∀ t ∈ l.filter (· ≠ []), Plain t := by
        intro t ht
        exact h t (by simp [hs] at ht ⊢; exact .inr ht)
      rw [List.foldl_cons, normalizeSegment_plain hplain, ih hrest]
      simp [hs]

/-- Reading one segment of an absolute path keeps the segments plain. -/
theorem normalizeSegment_keeps_plain {kept : List (List Char)} {s : List Char}
    (hkept : ∀ t ∈ kept, Plain t) (hs : '/' ∉ s) :
    ∀ t ∈ normalizeSegment false kept s, Plain t := by
  unfold normalizeSegment
  split
  · exact hkept
  · rename_i hskip
    rw [not_or] at hskip
    split
    · cases hlast : kept.getLast? with
      | none => simp
      | some last =>
        have hplain := hkept last (List.mem_of_getLast? hlast)
        simp only [if_neg hplain.ne_dotdot]
        exact fun t ht => hkept t (List.dropLast_subset kept ht)
    · rename_i hdots
      intro t ht
      rcases List.mem_append.mp ht with ht | ht
      · exact hkept t ht
      · obtain rfl := List.mem_singleton.mp ht
        exact ⟨hskip.1, hskip.2, hdots, hs⟩

/-- Reading all segments of an absolute path leaves plain ones. -/
theorem foldl_normalizeSegment_keeps_plain {l : List (List Char)} (hl : ∀ s ∈ l, '/' ∉ s) :
    ∀ {kept : List (List Char)}, (∀ t ∈ kept, Plain t) →
      ∀ t ∈ l.foldl (normalizeSegment false) kept, Plain t := by
  induction l with
  | nil => intro kept hkept; exact hkept
  | cons s l ih =>
    intro kept hkept
    apply ih (fun t ht => hl t (List.mem_cons_of_mem s ht))
    exact normalizeSegment_keeps_plain hkept (hl s List.mem_cons_self)

/-- What normalizing an absolute path writes. -/
theorem toList_normalize {path : String} {rest : List Char} (h : path.toList = '/' :: rest)
    {kept : List (List Char)}
    (hfold : (path.toList.splitOn '/').foldl (normalizeSegment false) [] = kept)
    (hkept : ∀ s ∈ kept, Plain s) :
    (normalize path).toList = written kept (path.toList.getLast? = some '/') := by
  have hhead : path.toList.head? = some '/' := by rw [h, List.head?_cons]
  have hne : path.toList ≠ [] := by rw [h]; simp
  unfold Model.PosixPath.normalize written
  simp only [hhead, decide_true, Bool.not_true, hfold, if_neg hne]
  by_cases hempty : kept = []
  · subst hempty
    simp
  · have hbody : ['/'].intercalate kept ≠ [] :=
      (getLast?_intercalate_ne hempty (Plain.separated hkept)).1
    rw [if_neg hbody]
    by_cases hlast : path.toList.getLast? = some '/' <;> simp [hempty, hlast]

/-- Normalizing an absolute path gives a canonical one. -/
theorem canonical_normalize {path : String} {rest : List Char} (h : path.toList = '/' :: rest) :
    Canonical (normalize path) := by
  have hkept := foldl_normalizeSegment_keeps_plain
    (not_mem_of_mem_splitOn '/' path.toList) (List.forall_mem_nil Plain)
  exact ⟨_, _, hkept, toList_normalize h rfl hkept⟩

/-- The segments of an absolute path whose segments are plain are what normalizing keeps. -/
theorem toList_normalize_of_plain {path : String} {rest : List Char}
    (h : path.toList = '/' :: rest) (hplain : ∀ s ∈ segments '/' path.toList, Plain s) :
    (normalize path).toList =
      written (segments '/' path.toList) (path.toList.getLast? = some '/') := by
  apply toList_normalize h _ hplain
  rw [foldl_normalizeSegment_plain hplain, List.nil_append, segments]

/-- The segments of a written path. -/
theorem segments_written {kept : List (List Char)} (h : ∀ s ∈ kept, Plain s) (slash : Bool) :
    segments '/' (written kept slash) = kept := by
  have hbody := segments_intercalate (Plain.separated h)
  unfold written
  split
  · rw [segments_cons, segments_concat, hbody]
  · rw [segments_cons, List.append_nil, hbody]

/-- The segments of a canonical path are plain. -/
theorem Canonical.plain {path : String} (h : Canonical path) :
    ∀ s ∈ segments '/' path.toList, Plain s := by
  obtain ⟨kept, slash, hkept, hpath⟩ := h
  rw [hpath, segments_written hkept]
  exact hkept

/-- A canonical path is absolute. -/
theorem Canonical.absolute {path : String} (h : Canonical path) :
    ∃ rest, path.toList = '/' :: rest := by
  obtain ⟨kept, slash, -, hpath⟩ := h
  exact ⟨_, hpath⟩

/-- A written path ends in a slash when it is asked for and there is a segment. -/
theorem getLast?_written {kept : List (List Char)} (h : ∀ s ∈ kept, Plain s) (slash : Bool) :
    (written kept slash).getLast? = some '/' ↔ slash = true ∨ kept = [] := by
  unfold written
  by_cases hempty : kept = []
  · simp [hempty]
  · have hbody := getLast?_intercalate_ne hempty (Plain.separated h)
    obtain ⟨c, cs, hcons⟩ := List.exists_cons_of_ne_nil hbody.1
    rw [hcons] at hbody ⊢
    cases slash with
    | false => simp [hempty, hbody.2]
    | true =>
      rw [if_pos ⟨rfl, hempty⟩, ← List.cons_append, List.getLast?_concat]
      simp

/-- A normalized root is its segments, of which there is at least one, written out. -/
theorem NormalizedRoot.written {path : String} (h : NormalizedRoot path) :
    ∃ kept, kept ≠ [] ∧ (∀ s ∈ kept, Plain s) ∧ path.toList = written kept false := by
  obtain ⟨rest, hrest⟩ : ∃ rest, path.toList = '/' :: rest := by
    have habs := h.absolute
    rcases hpath : path.toList with _ | ⟨c, rest⟩
    · simp [hpath] at habs
    · rw [hpath, List.head?_cons, Option.some.injEq] at habs
      exact ⟨rest, by rw [habs]⟩
  obtain ⟨kept, slash, hkept, hpath⟩ := canonical_normalize hrest
  rw [h.normalized] at hpath
  have hlast := h.no_trailing_slash
  rw [hpath, ne_eq, getLast?_written hkept, not_or] at hlast
  rw [Bool.not_eq_true] at hlast
  exact ⟨kept, hlast.2, hkept, hlast.1 ▸ hpath⟩

/-- A normalized root is canonical. -/
theorem NormalizedRoot.canonical {path : String} (h : NormalizedRoot path) : Canonical path := by
  obtain ⟨kept, -, hkept, hpath⟩ := h.written
  exact ⟨kept, false, hkept, hpath⟩

/-- A canonical path is at or below a normalized root exactly when it is the root, or the
root with a slash and more after it. -/
theorem NormalizedRoot.below_iff {root path : String} (hroot : NormalizedRoot root)
    (hpath : Canonical path) :
    Below '/' root.toList path.toList ↔
      path.toList = root.toList ∨ ∃ rest, path.toList = root.toList ++ '/' :: rest := by
  constructor
  · intro hbelow
    obtain ⟨kept, hne, hkept, hroot⟩ := hroot.written
    obtain ⟨all, slash, hall, hpath⟩ := hpath
    rw [Below, hroot, hpath, segments_written hkept, segments_written hall] at hbelow
    obtain ⟨more, rfl⟩ := hbelow
    rw [hroot, hpath]
    by_cases hmore : more = []
    · subst hmore
      cases slash with
      | false => left; rw [List.append_nil]
      | true => right; exact ⟨[], by simp [PosixSegments.written, hne]⟩
    · right
      refine ⟨['/'].intercalate more ++ if slash = true then ['/'] else [], ?_⟩
      simp [PosixSegments.written, hne, intercalate_append hne hmore]
  · rintro (heq | ⟨rest, heq⟩)
    · rw [heq]
      exact below_refl '/' root.toList
    · rw [heq]
      exact below_append_cons '/' root.toList rest

/-- Joining a suffix that starts at a slash onto a canonical path appends the suffix's
segments. -/
theorem join_suffix {root suffix : String} {rest : List Char} (hroot : Canonical root)
    (hsuffix : suffix.toList = '/' :: rest) (hplain : ∀ s ∈ segments '/' suffix.toList, Plain s) :
    Canonical (join [root, suffix]) ∧
      segments '/' (join [root, suffix]).toList =
        segments '/' root.toList ++ segments '/' suffix.toList := by
  obtain ⟨more, hwritten⟩ := hroot.absolute
  have hroot_ne : root ≠ "" := by
    rintro rfl
    simp at hwritten
  have hsuffix_ne : suffix ≠ "" := by
    rintro rfl
    simp at hsuffix
  have hjoined : join [root, suffix] = normalize (root ++ "/" ++ suffix) := by
    have hne : root ++ "/" ++ suffix ≠ "" := by simp [hroot_ne]
    have hargs : "/".intercalate [root, suffix] = root ++ "/" ++ suffix := by
      simp
    simp [join, hroot_ne, hsuffix_ne, hargs, hne]
  have hlist : (root ++ "/" ++ suffix).toList = root.toList ++ '/' :: suffix.toList := by simp
  have hsegments : segments '/' (root ++ "/" ++ suffix).toList =
      segments '/' root.toList ++ segments '/' suffix.toList := by
    rw [hlist, segments_append_cons]
  have hall : ∀ s ∈ segments '/' (root ++ "/" ++ suffix).toList, Plain s := by
    intro s hs
    rw [hsegments, List.mem_append] at hs
    rcases hs with hs | hs
    · exact hroot.plain s hs
    · exact hplain s hs
  have hhead : (root ++ "/" ++ suffix).toList =
      '/' :: ((root.toList.drop 1) ++ '/' :: suffix.toList) := by
    rw [hlist, hwritten]
    rfl
  have hnormal := toList_normalize_of_plain hhead hall
  rw [hjoined]
  refine ⟨⟨_, _, hall, hnormal⟩, ?_⟩
  rw [hnormal, segments_written hall, hsegments]

/-- Joining nothing onto a root gives the root. -/
theorem join_empty {root : String} (hroot : NormalizedRoot root) : join [root, ""] = root := by
  have hne : root ≠ "" := by
    rintro rfl
    simpa using hroot.absolute
  simp [join, hne, hroot.normalized]

end RemoteWorkspace.Analysis.PosixSegments
