import RemoteWorkspace.Analysis.GitListing
import RemoteWorkspace.Model.LocalGit

/-!
# One listing, two readers

A worktree listing is read on this host by `listWorktrees` and on a remote machine by the daemon.
Of every listing that git prints this host reads each worktree as it is. The daemon reads the
same but for white space: it trims each path and each branch, so it reads a listing faithfully,
and as this host does, exactly when no path of it has white space around it and no branch ends
in it.
-/

set_option autoImplicit false

namespace RemoteWorkspace.Analysis.AlikeListings

open RemoteWorkspace.Computation RemoteWorkspace.Computation.Literal
open RemoteWorkspace.Model.EnsureAgent (trim isWhitespace)
open RemoteWorkspace.Model.GitWorktrees RemoteWorkspace.Model.LocalGit
open RemoteWorkspace.Analysis.GitListing

variable {line text : String} {lines : List String} {c : Checkout} {l : Listing}

/-! ### What a listing says -/

/-- The worktrees that a listing is of: each with its path and its branch, the first the main
one. -/
def described (checkouts : List Checkout) : List LocalWorktree :=
  checkouts.mapIdx fun i c => ⟨c.path, c.head.branch, i = 0⟩

/-- What the daemon reports of a worktree, in what this host also reports. -/
def seen (g : GitWorktree) : LocalWorktree := ⟨g.path, g.branch, g.main⟩

/-- Both readers find the worktrees that the listing is of, and find the same. -/
def ReadAlike (checkouts : List Checkout) : Prop :=
  (parseWorktreeList (printed checkouts)).map seen = described checkouts ∧
    readListing (printed checkouts) = described checkouts ∧
      (parseWorktreeList (printed checkouts)).map seen = readListing (printed checkouts)

/-- A text has no white space at its end. -/
def EndsPlain (text : String) : Prop :=
  ∀ c, text.toList.getLast? = some c → isWhitespace c = false

/-- A text has no white space at its beginning. -/
def StartsPlain (text : String) : Prop :=
  ∀ c, text.toList.head? = some c → isWhitespace c = false

/-- A worktree whose names are not changed by trimming: no white space around its path, and none
behind its branch. -/
def Untrimmed (c : Checkout) : Prop :=
  (StartsPlain c.path ∧ EndsPlain c.path) ∧ ∀ branch, c.head.branch = some branch → EndsPlain branch

/-! ### The lines about a worktree -/

/-- A line about a worktree is a word, or a word and a text on one line. -/
theorem lines_cases (h : line ∈ c.lines) :
    line ∈ ["bare", "detached", "locked"] ∨
      ∃ start ∈ ["worktree ", "HEAD ", "branch refs/heads/", "locked ", "prunable "],
        ∃ text : OneLine, line = start ++ text := by
  simp only [Checkout.lines, Checkout.reasons, List.mem_append, List.mem_cons, List.mem_map] at h
  rcases h with rfl | hhead | ⟨reason, -, rfl⟩ | ⟨reason, -, rfl⟩
  · exact .inr ⟨"worktree ", by simp, c.path, rfl⟩
  · cases hc : c.head with
    | bare =>
      rw [hc] at hhead
      exact .inl (by simp [List.mem_singleton.mp hhead])
    | detached head =>
      rw [hc] at hhead
      rcases List.mem_cons.mp hhead with rfl | hhead
      · exact .inr ⟨"HEAD ", by simp, head, rfl⟩
      · exact .inl (by simp [List.mem_singleton.mp hhead])
    | attached head branch =>
      rw [hc] at hhead
      rcases List.mem_cons.mp hhead with rfl | hhead
      · exact .inr ⟨"HEAD ", by simp, head, rfl⟩
      · exact .inr ⟨"branch refs/heads/", by simp, branch, List.mem_singleton.mp hhead⟩
  · split
    · exact .inl (by simp)
    · exact .inr ⟨"locked ", by simp, reason, rfl⟩
  · exact .inr ⟨"prunable ", by simp, reason, rfl⟩

/-- There is a line about every worktree. -/
theorem lines_ne_nil (c : Checkout) : c.lines ≠ [] := List.cons_ne_nil _ _

/-- Every line about a worktree says something. -/
theorem lines_ne_empty (h : line ∈ c.lines) : line ≠ "" := by
  rintro rfl
  rcases lines_cases h with h | ⟨start, hstart, text, htext⟩
  · simp at h
  · have hempty := congrArg String.toList htext
    rw [String.toList_append, String.toList_empty, eq_comm, List.append_eq_nil_iff] at hempty
    rw [String.toList_eq_nil_iff.mp hempty.1] at hstart
    simp at hstart

/-- Every line about a worktree is one line. -/
theorem lines_unbroken (h : line ∈ c.lines) : '\n' ∉ line.toList := by
  rcases lines_cases h with h | ⟨start, hstart, text, rfl⟩
  · have hword : ∀ word ∈ ["bare", "detached", "locked"], '\n' ∉ word.toList := by decide
    exact hword line h
  · have hword : ∀ start ∈ ["worktree ", "HEAD ", "branch refs/heads/", "locked ", "prunable "],
        '\n' ∉ start.toList := by decide
    rw [String.toList_append, List.mem_append, not_or]
    exact ⟨hword start hstart, text.property⟩

/-- Of the lines about a worktree, the one that begins with `worktree` has its path. -/
theorem valueOf_worktree (c : Checkout) : valueOf "worktree " c.lines = some c.path.val := by
  simp [valueOf, Checkout.lines, stripPrefix_append]

/-- No line about a lock or about pruning begins with `branch`. -/
theorem valueOf_reasons (c : Checkout) : c.reasons.findSome? (stripPrefix "branch ") = none := by
  rw [List.findSome?_eq_none_iff]
  intro line hline
  simp only [Checkout.reasons, List.mem_append, List.mem_map] at hline
  rcases hline with ⟨reason, -, rfl⟩ | ⟨reason, -, rfl⟩
  · split <;> simp [stripPrefix]
  · simp [stripPrefix]

/-- A branch line has a ref behind its word. -/
theorem stripPrefix_branch (branch : String) :
    stripPrefix "branch " ("branch refs/heads/" ++ branch) = some ("refs/heads/" ++ branch) := by
  have hword : "branch refs/heads/" ++ branch = "branch " ++ ("refs/heads/" ++ branch) := by
    rw [← String.append_assoc]
    rfl
  rw [hword, stripPrefix_append]

/-- The one that begins with `branch` has its branch, when there is one. -/
theorem valueOf_branch (c : Checkout) :
    valueOf "branch " c.lines = c.head.branch.map ("refs/heads/" ++ ·) := by
  have hpath : stripPrefix "branch " ("worktree " ++ c.path) = none := by simp [stripPrefix]
  rw [valueOf, Checkout.lines, List.findSome?_cons, hpath, List.findSome?_append, valueOf_reasons,
    Option.or_none]
  cases c.head with
  | bare => simp [Head.lines, Head.branch, stripPrefix]
  | detached head => simp [Head.lines, Head.branch, stripPrefix]
  | attached head branch =>
    have hhead : stripPrefix "branch " ("HEAD " ++ head) = none := by simp [stripPrefix]
    rw [Head.lines, List.findSome?_cons, hhead, List.findSome?_cons, stripPrefix_branch]
    rfl

/-! ### A listing, line by line and block by block -/

/-- Lines with a line break behind each are those lines. -/
theorem linesOf_join (h : ∀ line ∈ lines, '\n' ∉ line.toList) (rest : String) :
    linesOf (String.join (lines.map (· ++ "\n")) ++ rest) = lines ++ linesOf rest := by
  induction lines with
  | nil => rw [List.map_nil, String.join_nil, String.empty_append, List.nil_append]
  | cons line lines ih =>
    obtain ⟨hline, hlines⟩ := List.forall_mem_cons.mp h
    rw [List.map_cons, String.join_cons, String.append_assoc, linesOf_append,
      linesOf_singleton hline, ih hlines]
    rfl

/-- Lines with a line break between each two are those lines. -/
theorem linesOf_intercalate (hne : lines ≠ []) (h : ∀ line ∈ lines, '\n' ∉ line.toList) :
    linesOf ("\n".intercalate lines) = lines := by
  induction lines with
  | nil => exact absurd rfl hne
  | cons line lines ih =>
    obtain ⟨hline, hlines⟩ := List.forall_mem_cons.mp h
    rcases eq_or_ne lines [] with rfl | hrest
    · rw [String.intercalate_singleton, linesOf_singleton hline]
    · rw [String.intercalate_cons_of_ne_nil hrest, linesOf_append, linesOf_singleton hline,
        ih hrest hlines]
      rfl

/-- What stands in front of the first empty line is a block. -/
theorem blocksOf_join (hne : lines ≠ []) (h : ∀ line ∈ lines, line ≠ "" ∧ '\n' ∉ line.toList)
    (rest : String) :
    blocksOf (String.join (lines.map (· ++ "\n")) ++ ("\n" ++ rest)) =
      "\n".intercalate lines :: blocksOf rest := by
  have hbreak : "\n".toList = ['\n'] := rfl
  suffices hpieces : pieces ['\n', '\n']
      (String.join (lines.map (· ++ "\n")) ++ ("\n" ++ rest)).toList =
        ("\n".intercalate lines).toList :: pieces ['\n', '\n'] rest.toList by
    rw [blocksOf, hpieces, List.map_cons, String.ofList_toList, blocksOf]
  induction lines with
  | nil => exact absurd rfl hne
  | cons line lines ih =>
    obtain ⟨⟨-, hline⟩, hlines⟩ := List.forall_mem_cons.mp h
    rw [List.map_cons, String.join_cons, String.append_assoc, String.append_assoc,
      String.toList_append, pieces_append_of_not_mem hline]
    rcases eq_or_ne lines [] with rfl | hrest
    · -- the line break behind the last line and the empty line after it
      have hend : ("\n" ++ (String.join (([] : List String).map (· ++ "\n")) ++
          ("\n" ++ rest))).toList = ['\n', '\n'] ++ rest.toList := by
        simp [hbreak]
      rw [hend, pieces_append (List.cons_ne_nil _ _), List.modifyHead_cons, List.append_nil,
        String.intercalate_singleton]
    · -- the next line follows the line break, and is not empty
      have hnot : ¬ ['\n', '\n'] <+: '\n' ::
          (String.join (lines.map (· ++ "\n")) ++ ("\n" ++ rest)).toList := by
        obtain ⟨next, others, rfl⟩ := List.exists_cons_of_ne_nil hrest
        obtain ⟨hnext, hunbroken⟩ := hlines next List.mem_cons_self
        obtain ⟨first, chars, hchars⟩ :=
          List.exists_cons_of_ne_nil (mt String.toList_eq_nil_iff.mp hnext)
        rw [hchars, List.mem_cons, not_or] at hunbroken
        intro hmatch
        exact hunbroken.1 (by simpa [hchars] using hmatch)
      rw [String.toList_append, hbreak, List.singleton_append, pieces_cons hnot, ih hrest hlines,
        List.modifyHead_cons, List.modifyHead_cons, String.intercalate_cons_of_ne_nil hrest,
        String.toList_append, String.toList_append, hbreak]
      simp

/-- A listing is, line by line, the lines about each worktree and an empty one. -/
theorem linesOf_printed (checkouts : List Checkout) :
    linesOf (printed checkouts) = checkouts.flatMap (fun c => c.lines ++ [""]) ++ [""] := by
  induction checkouts with
  | nil => rfl
  | cons c checkouts ih =>
    have hempty : linesOf ("\n" ++ printed checkouts) = "" :: linesOf (printed checkouts) := by
      have hnone : linesOf "" = [""] := linesOf_singleton (List.not_mem_nil)
      have hline := linesOf_append "" (printed checkouts)
      rwa [String.empty_append, hnone] at hline
    rw [printed, List.map_cons, String.join_cons, String.append_assoc,
      linesOf_join fun line hline => lines_unbroken hline, ← printed, hempty, ih]
    simp

/-- A listing is, block by block, the lines about each worktree, and an empty block. -/
theorem blocksOf_printed (checkouts : List Checkout) :
    blocksOf (printed checkouts) =
      checkouts.map (fun c => "\n".intercalate c.lines) ++ [""] := by
  induction checkouts with
  | nil => rfl
  | cons c checkouts ih =>
    rw [printed, List.map_cons, String.join_cons, String.append_assoc,
      blocksOf_join (lines_ne_nil c) fun line hline => ⟨lines_ne_empty hline, lines_unbroken hline⟩,
      ← printed, ih]
    rfl

/-! ### This host -/

/-- A list of what each element is, the first told apart, is made up one by one. -/
theorem foldl_first {α β : Type} (f : α → Bool → β) (xs : List α) :
    xs.foldl (fun found x => found ++ [f x found.isEmpty]) [] =
      xs.mapIdx fun i x => f x (i = 0) := by
  induction xs using List.reverseRecOn with
  | nil => rfl
  | append_singleton xs x ih =>
    rw [List.foldl_append, ih, List.mapIdx_concat, List.foldl_cons, List.foldl_nil]
    cases xs <;> simp

/-- A short ref is what follows `refs/heads/`. -/
theorem shortRef_append (branch : String) : shortRef ("refs/heads/" ++ branch) = branch := by
  rw [shortRef, stripPrefix_append, Option.getD_some]

/-- The lines about a worktree are read as the worktree. -/
theorem readBlock_lines (found : List LocalWorktree) (c : Checkout) :
    readBlock found ("\n".intercalate c.lines) =
      found ++ [⟨c.path, c.head.branch, found.isEmpty⟩] := by
  have hlines : (linesOf ("\n".intercalate c.lines)).filter (fun line => line ≠ "") = c.lines := by
    rw [linesOf_intercalate (lines_ne_nil c) fun line hline => lines_unbroken hline,
      List.filter_eq_self]
    intro line hline
    exact decide_eq_true (lines_ne_empty hline)
  have hshort : (c.head.branch.map ("refs/heads/" ++ ·)).map shortRef = c.head.branch := by
    cases c.head.branch with
    | none => rfl
    | some branch => exact congrArg some (shortRef_append branch)
  simp only [readBlock, hlines, valueOf_worktree, valueOf_branch, hshort]

/-- This host reads every listing faithfully. -/
theorem readListing_printed (checkouts : List Checkout) :
    readListing (printed checkouts) = described checkouts := by
  rw [readListing, blocksOf_printed, List.foldl_append, List.foldl_map]
  simp only [readBlock_lines]
  rw [foldl_first fun (c : Checkout) main => LocalWorktree.mk c.path c.head.branch main]
  rfl

/-! ### The daemon -/

/-- A text without the white space at its end. -/
def trimEnd (text : String) : String := String.ofList (text.toList.rdropWhile isWhitespace)

/-- A listing in which no worktree has begun holds no branch. -/
def Settled (l : Listing) : Prop := l.path = none → l.branch = none

/-- Completing a worktree forgets its branch. -/
theorem flush_branch (h : Settled l) : l.flush.branch = none := by
  unfold Listing.flush
  cases hpath : l.path with
  | none => exact h hpath
  | some path => rfl

/-- Nothing in front of an element that stays is dropped from the end. -/
theorem rdropWhile_append {p : Char → Bool} {front : List Char} {c : Char} (h : p c = false)
    (back : List Char) :
    (front ++ c :: back).rdropWhile p = front ++ c :: back.rdropWhile p := by
  rw [List.rdropWhile, List.reverse_append, List.reverse_cons, List.append_assoc,
    List.dropWhile_append]
  split
  · rename_i hall
    rw [List.isEmpty_iff] at hall
    rw [List.rdropWhile, hall, List.singleton_append, List.dropWhile_cons_of_neg (by simp [h])]
    simp
  · rw [List.rdropWhile]
    simp

/-- What the daemon reads of a branch line is the branch without the white space behind it. -/
theorem shortBranch_append (branch : String) :
    shortBranch (trim ("refs/heads/" ++ branch)) = some (trimEnd branch) := by
  have htrim : trim ("refs/heads/" ++ branch) = "refs/heads/" ++ trimEnd branch := by
    have hword : "refs/heads/".toList = 'r' :: "efs/heads".toList ++ ['/'] := rfl
    rw [← String.toList_inj, toList_trim, String.toList_append, String.toList_append, hword,
      List.append_assoc, List.cons_append, List.dropWhile_cons_of_neg (by decide),
      List.singleton_append, ← List.cons_append, rdropWhile_append (by decide)]
    simp [trimEnd]
  have hne : ¬ ("refs/heads/" ++ trimEnd branch = "" ∨
      "refs/heads/" ++ trimEnd branch = "HEAD") := by
    simp [← String.toList_inj]
  rw [htrim, shortBranch, if_neg hne, stripPrefix_append, Option.getD_some]

/-- A line that is none of those the daemon looks for changes nothing. -/
theorem line_idle (hworktree : stripPrefix "worktree " line = none)
    (hhead : stripPrefix "HEAD " line = none) (hbranch : stripPrefix "branch " line = none)
    (hword : ¬ (line = "detached" ∨ line = "bare")) : l.line line = l := by
  simp only [Listing.line, hworktree, hhead, hbranch, if_neg hword, ite_self]

/-- The lines about a lock or about pruning, and the empty one behind them, change nothing. -/
theorem foldl_reasons (c : Checkout) (l : Listing) :
    (c.reasons ++ [""]).foldl Listing.line l = l := by
  refine List.foldlRecOn _ Listing.line (motive := fun s => s = l) rfl ?_
  rintro s rfl line hline
  simp only [Checkout.reasons, List.mem_append, List.mem_map, List.mem_singleton] at hline
  rcases hline with (⟨reason, -, rfl⟩ | ⟨reason, -, rfl⟩) | rfl
  · split <;> apply line_idle <;> simp [stripPrefix, ← String.toList_inj]
  · apply line_idle <;> simp [stripPrefix, ← String.toList_inj]
  · apply line_idle <;> simp [stripPrefix]

/-- The lines about a worktree complete the one before it and begin this one. -/
theorem foldl_lines (h : Settled l) (c : Checkout) :
    ∃ head, (c.lines ++ [""]).foldl Listing.line l =
      ⟨l.flush.worktrees, some (trim c.path), head, c.head.branch.map trimEnd⟩ := by
  have hbegun : l.line ("worktree " ++ c.path) =
      ⟨l.flush.worktrees, some (trim c.path), l.flush.head, none⟩ := by
    rw [line_worktree (stripPrefix_append _ _), ← flush_branch h]
  have hword : ∀ word, word = "detached" ∨ word = "bare" → ∀ worktrees path head,
      Listing.line ⟨worktrees, some path, head, none⟩ word =
        ⟨worktrees, some path, head, none⟩ := by
    rintro word (rfl | rfl) <;> simp [Listing.line, stripPrefix]
  have hhead : ∀ (head : String) worktrees path before branch,
      Listing.line ⟨worktrees, some path, before, branch⟩ ("HEAD " ++ head) =
        ⟨worktrees, some path, trim head, branch⟩ := by
    intro head
    have hnone : stripPrefix "worktree " ("HEAD " ++ head) = none := by simp [stripPrefix]
    simp [Listing.line, hnone, stripPrefix_append]
  have hbranch : ∀ (branch : String) worktrees path head before,
      Listing.line ⟨worktrees, some path, head, before⟩ ("branch refs/heads/" ++ branch) =
        ⟨worktrees, some path, head, some (trimEnd branch)⟩ := by
    intro branch
    have hnone : stripPrefix "worktree " ("branch refs/heads/" ++ branch) = none := by
      simp [stripPrefix]
    have hhead : stripPrefix "HEAD " ("branch refs/heads/" ++ branch) = none := by
      simp [stripPrefix]
    simp [Listing.line, hnone, hhead, stripPrefix_branch, shortBranch_append]
  rw [Checkout.lines, List.cons_append, List.append_assoc, List.foldl_cons, List.foldl_append,
    foldl_reasons, hbegun]
  cases c.head with
  | bare => exact ⟨_, hword "bare" (.inr rfl) _ _ _⟩
  | detached head =>
    refine ⟨trim head, ?_⟩
    rw [Head.lines, List.foldl_cons, List.foldl_cons, hhead, hword "detached" (.inl rfl)]
    rfl
  | attached head branch =>
    refine ⟨trim head, ?_⟩
    rw [Head.lines, List.foldl_cons, List.foldl_cons, hhead, hbranch]
    rfl

/-- The worktrees that the daemon has reported when the last one is complete. -/
theorem flush_seen (checkouts : List Checkout) (h : Settled l) :
    ((checkouts.flatMap fun c => c.lines ++ [""]).foldl Listing.line l).flush.worktrees.map seen =
      checkouts.foldl (fun found c =>
        found ++ [⟨trim c.path, c.head.branch.map trimEnd, found.isEmpty⟩])
          (l.flush.worktrees.map seen) := by
  induction checkouts generalizing l with
  | nil => rfl
  | cons c checkouts ih =>
    obtain ⟨head, hlines⟩ := foldl_lines h c
    have hnext : Settled ((c.lines ++ [""]).foldl Listing.line l) := by
      rw [hlines]
      intro hpath
      cases hpath
    rw [List.flatMap_cons, List.foldl_append, ih hnext, hlines, List.foldl_cons]
    congr 1
    simp [Listing.flush, seen]

/-- The daemon reads every listing faithfully but for white space. -/
theorem parseWorktreeList_printed (checkouts : List Checkout) :
    (parseWorktreeList (printed checkouts)).map seen =
      checkouts.mapIdx fun i c => ⟨trim c.path, c.head.branch.map trimEnd, i = 0⟩ := by
  have hstart : Settled ⟨[], none, "", none⟩ := fun _ => rfl
  have hidle : ∀ l : Listing, l.line "" = l := by
    intro l
    apply line_idle <;> simp [stripPrefix]
  rw [parseWorktreeList, linesOf_printed, List.foldl_append, List.foldl_cons, List.foldl_nil, hidle,
    flush_seen checkouts hstart]
  exact foldl_first (fun (c : Checkout) main =>
    LocalWorktree.mk (trim c.path) (c.head.branch.map trimEnd) main) checkouts

/-! ### When both read alike -/

/-- A text is its own trimming at the end when no white space ends it. -/
theorem trimEnd_eq_self_iff (text : String) : trimEnd text = text ↔ EndsPlain text := by
  rw [← String.toList_inj, trimEnd, String.toList_ofList, List.rdropWhile_eq_self_iff]
  constructor
  · intro h c hc
    have hne : text.toList ≠ [] := by
      intro hnil
      rw [hnil] at hc
      cases hc
    rw [List.getLast?_eq_some_getLast hne, Option.some.injEq] at hc
    exact hc ▸ Bool.not_eq_true _ ▸ h hne
  · intro h hne
    rw [h _ (List.getLast?_eq_some_getLast hne)]
    exact Bool.false_ne_true

/-- Text without white space in front of it loses none there. -/
theorem dropWhile_eq_self_iff (text : String) :
    text.toList.dropWhile isWhitespace = text.toList ↔ StartsPlain text := by
  rw [StartsPlain]
  cases htext : text.toList with
  | nil => simp
  | cons c rest =>
    rw [List.dropWhile_eq_self_iff]
    simp

/-- A text is its own trimming when there is no white space around it. -/
theorem trim_eq_self_iff (text : String) :
    trim text = text ↔ StartsPlain text ∧ EndsPlain text := by
  rw [← dropWhile_eq_self_iff, ← trimEnd_eq_self_iff, ← String.toList_inj, ← String.toList_inj,
    toList_trim, trimEnd, String.toList_ofList]
  constructor
  · intro h
    have hfront : text.toList.dropWhile isWhitespace = text.toList := by
      refine (List.dropWhile_suffix _).eq_of_length_le ?_
      calc text.toList.length
          = ((text.toList.dropWhile isWhitespace).rdropWhile isWhitespace).length := by rw [h]
        _ ≤ (text.toList.dropWhile isWhitespace).length := (List.rdropWhile_prefix _ _).length_le
    rw [hfront] at h
    exact ⟨hfront, h⟩
  · rintro ⟨hfront, hback⟩
    rw [hfront, hback]

/-- This host and the daemon read a listing faithfully, and alike, exactly when nothing in it is
changed by trimming. -/
theorem read_alike_iff (checkouts : List Checkout) :
    ReadAlike checkouts ↔ ∀ c ∈ checkouts, Untrimmed c := by
  have hself : ∀ c : Checkout, (trim c.path = c.path.val ∧
      c.head.branch.map trimEnd = c.head.branch) ↔ Untrimmed c := by
    intro c
    rw [trim_eq_self_iff, Untrimmed]
    cases c.head.branch with
    | none => simp
    | some branch => simp [trimEnd_eq_self_iff]
  have hdaemon : (parseWorktreeList (printed checkouts)).map seen = described checkouts ↔
      ∀ c ∈ checkouts, Untrimmed c := by
    rw [parseWorktreeList_printed, described, List.mapIdx_eq_mapIdx_iff,
      List.forall_mem_iff_getElem]
    refine forall_congr' fun i => forall_congr' fun hi => ?_
    simp [← hself]
  rw [ReadAlike, readListing_printed]
  constructor
  · intro h
    exact hdaemon.mp h.1
  · intro h
    exact ⟨hdaemon.mpr h, rfl, hdaemon.mpr h⟩

/-- A worktree at a path that ends in a blank is reported at another path. -/
theorem blank_trimmed :
    ¬ ReadAlike
      [⟨⟨"/srv/app", by decide⟩, .attached ⟨"1f", by decide⟩ ⟨"main", by decide⟩, none, none⟩,
        ⟨⟨"/srv/w ", by decide⟩, .detached ⟨"2e", by decide⟩, none, none⟩] := by
  unfold ReadAlike
  decide +kernel

end RemoteWorkspace.Analysis.AlikeListings
