import Mathlib.Data.List.DropRight
import RemoteWorkspace.Computation.Segments
import RemoteWorkspace.Model.GitWorktrees

/-!
# What is read from a worktree listing

The daemon reads git's porcelain listing line by line and trims each path. So no path that it
reports ends in white space or holds a line break, and a worktree that git prints behind the main
one under such a path is reported under it.
-/

set_option autoImplicit false

namespace RemoteWorkspace.Analysis.GitListing

open RemoteWorkspace.Computation
open RemoteWorkspace.Model.GitWorktrees RemoteWorkspace.Model.EnsureAgent

variable {text path line : String} {l : Listing}

/-! ### Trimmed texts -/

/-- A text that survives being a line of a listing: it has no line break in it, and no white
space around it. -/
def Tidy (text : String) : Prop := '\n' ∉ text.toList ∧ trim text = text

instance (text : String) : Decidable (Tidy text) := by
  unfold Tidy
  infer_instance

/-- Trimming drops white space in front and behind. -/
theorem toList_trim (text : String) :
    (trim text).toList = (text.toList.dropWhile isWhitespace).rdropWhile isWhitespace := by
  rw [trim, String.toList_ofList, List.rdropWhile]

/-- A trimmed text is part of the text. -/
theorem trim_subset (text : String) : (trim text).toList ⊆ text.toList := by
  rw [toList_trim]
  exact List.Subset.trans (List.rdropWhile_prefix _ _).subset (List.dropWhile_suffix _).subset

/-- Trimming a trimmed text changes nothing. -/
theorem trim_trim (text : String) : trim (trim text) = trim text := by
  rw [← String.toList_inj, toList_trim, toList_trim]
  have hfront : (text.toList.dropWhile isWhitespace).dropWhile isWhitespace =
      text.toList.dropWhile isWhitespace := List.dropWhile_idempotent _ _
  generalize text.toList.dropWhile isWhitespace = chars at hfront
  have hkeep : (chars.rdropWhile isWhitespace).dropWhile isWhitespace =
      chars.rdropWhile isWhitespace := by
    obtain ⟨rest, hrest⟩ := List.rdropWhile_prefix isWhitespace chars
    generalize chars.rdropWhile isWhitespace = cut at hrest
    subst hrest
    rw [List.dropWhile_eq_self_iff] at hfront ⊢
    intro hlength
    have hfirst := hfront (by rw [List.length_append]; omega)
    rwa [List.getElem_append_left hlength] at hfirst
  rw [hkeep, List.rdropWhile_idempotent]

/-- A trimmed line is tidy. -/
theorem tidy_trim (h : '\n' ∉ text.toList) : Tidy (trim text) :=
  ⟨fun hmem => h (trim_subset text hmem), trim_trim text⟩

/-! ### Lines -/

/-- What follows the start of a line. -/
theorem stripPrefix_eq_some {start rest : String} (h : stripPrefix start text = some rest) :
    text.toList = start.toList ++ rest.toList := by
  unfold stripPrefix at h
  split at h
  · rename_i hstart
    obtain ⟨tail, htail⟩ := hstart
    rw [← Option.some.inj h, String.toList_ofList, ← htail, ← String.length_toList, List.drop_left]
  · cases h

/-- A line that starts as asked is what follows the start. -/
theorem stripPrefix_append (start rest : String) : stripPrefix start (start ++ rest) = some rest := by
  unfold stripPrefix
  rw [String.toList_append, if_pos (List.prefix_append _ _), ← String.length_toList, List.drop_left,
    String.ofList_toList]

/-- A line that begins a worktree completes the one before it. -/
theorem line_worktree {rest : String} (h : stripPrefix "worktree " line = some rest) :
    l.line line = { l.flush with path := some (trim rest) } := by
  simp only [Listing.line, h]

/-- Any other line leaves the path and the worktrees before it. -/
theorem line_other (h : stripPrefix "worktree " line = none) :
    (l.line line).path = l.path ∧ (l.line line).worktrees = l.worktrees := by
  unfold Listing.line
  rw [h]
  dsimp only
  split
  · exact ⟨rfl, rfl⟩
  · split
    · exact ⟨rfl, rfl⟩
    · split
      · exact ⟨rfl, rfl⟩
      · split <;> exact ⟨rfl, rfl⟩

/-- The worktrees when the last one is complete. -/
theorem flush_worktrees : l.flush.worktrees = l.worktrees ++
    (l.path.map fun path => ⟨path, l.branch, l.head, l.worktrees.isEmpty⟩).toList := by
  unfold Listing.flush
  cases l.path with
  | none => simp
  | some path => simp

/-! ### Paths without white space around them -/

/-- What has been read so far is tidy. -/
structure TidySoFar (l : Listing) : Prop where
  worktrees : ∀ g ∈ l.worktrees, Tidy g.path
  path : ∀ path, l.path = some path → Tidy path

/-- Completing a worktree keeps the paths tidy. -/
theorem TidySoFar.flush (h : TidySoFar l) : ∀ g ∈ l.flush.worktrees, Tidy g.path := by
  intro g hg
  rw [flush_worktrees, List.mem_append, Option.mem_toList, Option.map_eq_some_iff] at hg
  rcases hg with hg | ⟨path, hpath, rfl⟩
  · exact h.worktrees g hg
  · exact h.path path hpath

/-- A line keeps the paths tidy. -/
theorem TidySoFar.step (h : TidySoFar l) (hline : '\n' ∉ line.toList) : TidySoFar (l.line line) := by
  cases hstart : stripPrefix "worktree " line with
  | none =>
    obtain ⟨hpath, hworktrees⟩ := line_other (l := l) hstart
    exact ⟨by rw [hworktrees]; exact h.worktrees, by rw [hpath]; exact h.path⟩
  | some rest =>
    rw [line_worktree hstart]
    refine ⟨h.flush, fun path hpath => ?_⟩
    have hrest : '\n' ∉ rest.toList := by
      intro hmem
      rw [stripPrefix_eq_some hstart] at hline
      exact hline (List.mem_append_right _ hmem)
    exact Option.some.inj hpath ▸ tidy_trim hrest

/-- Lines keep the paths tidy. -/
theorem TidySoFar.lines {lines : List String} (h : TidySoFar l)
    (hlines : ∀ line ∈ lines, '\n' ∉ line.toList) : TidySoFar (lines.foldl Listing.line l) := by
  induction lines generalizing l with
  | nil => exact h
  | cons line lines ih =>
    obtain ⟨hline, hlines⟩ := List.forall_mem_cons.mp hlines
    exact ih (h.step hline) hlines

/-- Every path that is reported is tidy. -/
theorem parseWorktreeList_tidy (porcelain : String) :
    ∀ g ∈ parseWorktreeList porcelain, Tidy g.path := by
  have hlines : ∀ line ∈ linesOf porcelain, '\n' ∉ line.toList := by
    intro line hline
    obtain ⟨chars, hchars, rfl⟩ := List.mem_map.mp hline
    rw [String.toList_ofList]
    exact not_mem_of_mem_splitOn '\n' _ chars hchars
  exact (TidySoFar.lines (l := ⟨[], none, "", none⟩) ⟨by simp, by simp⟩ hlines).flush

/-! ### A worktree behind the main one -/

/-- The listing has a worktree at the path that is not the main one, complete or about to be. -/
def Holds (path : String) (l : Listing) : Prop :=
  (l.path = some path ∧ l.worktrees ≠ []) ∨ ∃ g ∈ l.worktrees, g.path = path ∧ g.main = false

/-- Completing a worktree keeps the one at the path. -/
theorem Holds.flush (h : Holds path l) :
    ∃ g ∈ l.flush.worktrees, g.path = path ∧ g.main = false := by
  rw [flush_worktrees]
  rcases h with ⟨hpath, hne⟩ | ⟨g, hg, hat⟩
  · refine ⟨⟨path, l.branch, l.head, l.worktrees.isEmpty⟩, ?_, rfl, ?_⟩
    · rw [hpath]
      exact List.mem_append_right _ (List.mem_singleton_self _)
    · rwa [List.isEmpty_eq_false_iff]
  · exact ⟨g, List.mem_append_left _ hg, hat⟩

/-- A line keeps the worktree at the path. -/
theorem Holds.step (h : Holds path l) (line : String) : Holds path (l.line line) := by
  cases hstart : stripPrefix "worktree " line with
  | none =>
    obtain ⟨hpath, hworktrees⟩ := line_other (l := l) hstart
    rwa [Holds, hpath, hworktrees]
  | some rest =>
    rw [line_worktree hstart]
    exact .inr h.flush

/-- Lines keep the worktree at the path. -/
theorem Holds.lines (h : Holds path l) (lines : List String) :
    Holds path (lines.foldl Listing.line l) := by
  induction lines generalizing l with
  | nil => exact h
  | cons line lines ih => exact ih (h.step line)

/-- Once a worktree has begun, one is always being read. -/
theorem path_lines (h : l.path ≠ none) (lines : List String) :
    (lines.foldl Listing.line l).path ≠ none := by
  induction lines generalizing l with
  | nil => exact h
  | cons line lines ih =>
    refine ih ?_
    cases hstart : stripPrefix "worktree " line with
    | none => rwa [(line_other hstart).1]
    | some rest => simp [line_worktree hstart]

/-- A worktree that begins behind another is at its path. -/
theorem holds_worktree (h : l.path ≠ none) (path : String) :
    Holds (trim path) (l.line ("worktree " ++ path)) := by
  rw [line_worktree (stripPrefix_append "worktree " path)]
  refine .inl ⟨rfl, ?_⟩
  change l.flush.worktrees ≠ []
  rw [flush_worktrees]
  cases hpath : l.path with
  | none => exact absurd hpath h
  | some path => simp

/-- The porcelain listing `porcelain` has a worktree at `path` behind the main one. -/
def Lists (porcelain path : String) : Prop :=
  ∃ main after, porcelain = "worktree " ++ main ++ "\n" ++ ("worktree " ++ path ++ "\n" ++ after)

/-- Two texts with a line break between them are the lines of both. -/
theorem linesOf_append (front back : String) :
    linesOf (front ++ "\n" ++ back) = linesOf front ++ linesOf back := by
  have hbreak : "\n".toList = ['\n'] := rfl
  simp [linesOf, hbreak, List.splitOn_append_cons_self]

/-- A text without a line break is one line. -/
theorem linesOf_singleton (h : '\n' ∉ line.toList) : linesOf line = [line] := by
  rw [linesOf, List.splitOn_eq_singleton h]
  simp

/-- A text without a line break starts the first line of what it starts. -/
theorem splitOn_start {start : List Char} (h : '\n' ∉ start) (chars : List Char) :
    ∃ first lines, (start ++ chars).splitOn '\n' = (start ++ first) :: lines := by
  induction start with
  | nil => exact List.exists_cons_of_ne_nil (List.splitOn_ne_nil '\n' chars)
  | cons c start ih =>
    rw [List.mem_cons, not_or] at h
    obtain ⟨first, lines, hlines⟩ := ih h.2
    refine ⟨first, lines, ?_⟩
    rw [List.cons_append, List.splitOn_cons_eq_if_modifyHead, if_neg (by simpa using Ne.symm h.1),
      hlines]
    rfl

/-- A text without a line break starts the first line of what it starts. -/
theorem linesOf_start {start : String} (h : '\n' ∉ start.toList) (rest : String) :
    ∃ first lines, linesOf (start ++ rest) = (start ++ first) :: lines := by
  obtain ⟨first, lines, hlines⟩ := splitOn_start h rest.toList
  refine ⟨String.ofList first, lines.map String.ofList, ?_⟩
  rw [linesOf, String.toList_append, hlines, List.map_cons, String.ofList_append,
    String.ofList_toList]

/-- What git lists at a tidy path is reported there. -/
theorem mem_parseWorktreeList {porcelain : String} (h : Lists porcelain path) (htidy : Tidy path) :
    ∃ g ∈ parseWorktreeList porcelain, g.path = path ∧ g.main = false := by
  obtain ⟨main, after, rfl⟩ := h
  have hstart : '\n' ∉ "worktree ".toList := by decide
  have hpath : '\n' ∉ ("worktree " ++ path).toList := by
    rw [String.toList_append, List.mem_append, not_or]
    exact ⟨hstart, htidy.1⟩
  obtain ⟨first, lines, hlines⟩ := linesOf_start hstart main
  -- the first line begins the main worktree
  have hbegun : (((("worktree " ++ first) :: lines).foldl Listing.line
      ⟨[], none, "", none⟩).path) ≠ none := by
    refine path_lines ?_ lines
    simp [line_worktree (stripPrefix_append "worktree " first)]
  -- and the line of the checkout is a line of its own
  have hholds := holds_worktree hbegun path
  rw [htidy.2] at hholds
  rw [parseWorktreeList, linesOf_append, linesOf_append, linesOf_singleton hpath, hlines,
    List.foldl_append, List.foldl_append]
  exact (hholds.lines (linesOf after)).flush

end RemoteWorkspace.Analysis.GitListing
