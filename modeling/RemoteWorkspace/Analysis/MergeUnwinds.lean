import RemoteWorkspace.Analysis.GitScripts

/-!
# What a refused merge leaves of a repository

`merge_branch` unwinds after every merge that did not end well, without a look at whether it
began. Where git refuses to begin because another merge is in progress, that one is aborted. A
refused merge leaves the repository as it was exactly when git left it alone and no other merge
was in progress, or git stopped in the middle and its abort brings back what was before; and
when HEAD can be read after a merge that ended well.
-/

set_option autoImplicit false

namespace RemoteWorkspace.Analysis.MergeUnwinds

open RemoteWorkspace.Computation.Scripts RemoteWorkspace.Model.GitCommands
open RemoteWorkspace.Model.GitWorktrees (GitOutcome)
open RemoteWorkspace.Model.FsText (absolutePath)
open RemoteWorkspace.Analysis.GitScripts

/-- What can be in progress besides a merge. -/
inductive Sequence where
  | cherryPick
  | revert
  | rebase
  deriving DecidableEq

/-- A repository: HEAD, the index, the working tree, and what is in progress; a merge can be
begun while a rebase is stopped. -/
structure Repository (ι ω : Type) where
  head : String
  index : ι
  files : ω
  merging : Bool
  sequence : Option Sequence
  deriving DecidableEq

/-! ### What git documents -/

variable {ι ω : Type} {git : Git (Repository ι ω)} {s : Repository ι ω}
variable {root : Option String} {repoPath branch repo : String}

/-- What git documents of the commands of a merge: those that only read leave the repository
alone; a merge that ends well, of a branch that is no ancestor, brings it in; an abort that is
refused changes nothing, and one that ends well ends the merge that was in progress. -/
structure Documented (git : Git (Repository ι ω)) : Prop where
  reads : ∀ repo branch s,
    ∀ args ∈ [gitDirArgs, headArgs, ancestorArgs branch, unmergedArgs], left git repo args s = s
  merges : ∀ repo branch s, (asked git repo (ancestorArgs branch) s).status = some 1 →
    (asked git repo (mergeArgs branch) s).ok = true → left git repo (mergeArgs branch) s ≠ s
  abortRefused : ∀ repo s, (asked git repo abortArgs s).ok = false →
    (asked git repo abortArgs s).timedOut = false → left git repo abortArgs s = s
  abortEnds : ∀ repo s, (asked git repo abortArgs s).ok = true →
    s.merging = true ∧ (left git repo abortArgs s).merging = false

/-- A merge that is answered with an error has left the repository as it was, unless a command
was killed. -/
def LeftAlone (git : Git (Repository ι ω)) (root : Option String) (repoPath branch : String)
    (s : Repository ι ω) : Prop :=
  ∀ failure, (mergeBranch git root repoPath branch ⟨s, []⟩).1 = .error failure →
    (∀ o ∈ (mergeBranch git root repoPath branch ⟨s, []⟩).2.ran, o.timedOut = false) →
      (mergeBranch git root repoPath branch ⟨s, []⟩).2.store = s

/-! ### The condition -/

/-- The merge is tried: the path is in a repository, and git knows that the branch is no ancestor
of HEAD. -/
structure Tried (git : Git (Repository ι ω)) (root : Option String) (repoPath branch : String)
    (s : Repository ι ω) (repo : String) : Prop where
  path : absolutePath "merge into" repoPath root = .ok repo
  repository : (asked git repo gitDirArgs s).ok = true
  known : (asked git repo (ancestorArgs branch) s).ok = false
  ancestor : (asked git repo (ancestorArgs branch) s).status = some 1

/-- After a merge that ended well HEAD can be read. After one that did not, git has left the
repository alone, and either no merge is in progress or the abort is refused; or git has stopped
in the middle, and its abort brings back what was before. Nothing is asked of commands that are
killed. -/
def Unwinds (git : Git (Repository ι ω)) (repo branch : String) (s : Repository ι ω) : Prop :=
  let tried := asked git repo (mergeArgs branch) s
  let after := left git repo (mergeArgs branch) s
  (tried.ok = true → (asked git repo headArgs after).timedOut = false →
    (asked git repo headArgs after).ok = true) ∧
  (tried.ok = false → tried.timedOut = false →
    (asked git repo unmergedArgs after).timedOut = false →
    (asked git repo abortArgs after).timedOut = false →
      after = s ∧ (s.merging = false ∨ (asked git repo abortArgs s).ok = false) ∨
      after ≠ s ∧ left git repo abortArgs after = s)

/-! ### What the script comes to -/

/-- A command that only reads. -/
theorem Documented.keeps (hgit : Documented git) (repo branch : String) (args : List String)
    (hargs : args ∈ [gitDirArgs, headArgs, ancestorArgs branch, unmergedArgs])
    (s : Repository ι ω) : left git repo args s = s :=
  hgit.reads repo branch s args hargs

/-- In a repository the script comes to the question for an ancestor. -/
theorem mergeBranch_repository (hgit : Documented git)
    (hpath : absolutePath "merge into" repoPath root = .ok repo)
    (hdir : (asked git repo gitDirArgs s).ok = true) :
    mergeBranch git root repoPath branch ⟨s, []⟩ =
      (if (asked git repo (ancestorArgs branch) s).ok then
          headOf git repo >>= fun head => pure ⟨head, true⟩
        else if (asked git repo (ancestorArgs branch) s).status ≠ some 1 then
          fail (ancestorRefused repo branch (asked git repo (ancestorArgs branch) s))
        else tryMerge git repo branch)
        ⟨s, [asked git repo gitDirArgs s, asked git repo (ancestorArgs branch) s]⟩ := by
  have hkept : left git repo gitDirArgs s = s := hgit.keeps repo branch _ (by simp) s
  have hkept' : left git repo (ancestorArgs branch) s = s := hgit.keeps repo branch _ (by simp) s
  rw [mergeBranch, hpath, lift_ok_bind, bind_ok (requireRepository_ok hdir), run_bind, hkept,
    hkept']
  rfl

/-- Where the merge is tried, that is all that is left. -/
theorem mergeBranch_tried (hgit : Documented git) (h : Tried git root repoPath branch s repo) :
    mergeBranch git root repoPath branch ⟨s, []⟩ = tryMerge git repo branch
      ⟨s, [asked git repo gitDirArgs s, asked git repo (ancestorArgs branch) s]⟩ := by
  rw [mergeBranch_repository hgit h.path h.repository, if_neg (by simp [h.known]),
    if_neg (by simp [h.ancestor])]

/-- Where the merge is not tried, the repository stays. -/
theorem store_of_not_tried (hgit : Documented git)
    (h : ∀ repo, ¬ Tried git root repoPath branch s repo) :
    (mergeBranch git root repoPath branch ⟨s, []⟩).2.store = s := by
  cases hpath : absolutePath "merge into" repoPath root with
  | error failure => rw [mergeBranch, hpath, lift_error_bind]
  | ok repo =>
    cases hdir : (asked git repo gitDirArgs s).ok with
    | false =>
      obtain ⟨failure, hrefused⟩ := requireRepository_error (s := ⟨s, []⟩) hdir
      rw [mergeBranch, hpath, lift_ok_bind, bind_error hrefused]
      exact hgit.keeps repo branch _ (by simp) s
    | true =>
      rw [mergeBranch_repository hgit hpath hdir]
      split
      · have hkeeps : Keeps id (headOf git repo) :=
          keeps_headOf fun s => hgit.keeps repo branch _ (by simp) s
        exact (hkeeps.bind fun head => keeps_pure _) _
      · rename_i hknown
        split
        · rfl
        · rename_i hstatus
          refine absurd ?_ (h repo)
          exact ⟨hpath, hdir, by simpa using hknown, not_not.mp hstatus⟩

/-- A merge that ends well: HEAD is read, and that is the answer. -/
theorem tryMerge_ok (hgit : Documented git) (ran : List GitOutcome)
    (hok : (asked git repo (mergeArgs branch) s).ok = true) :
    (tryMerge git repo branch ⟨s, ran⟩).2 =
        ⟨left git repo (mergeArgs branch) s, ran ++ [asked git repo (mergeArgs branch) s] ++
          [asked git repo headArgs (left git repo (mergeArgs branch) s)]⟩ ∧
      ((∃ failure, (tryMerge git repo branch ⟨s, ran⟩).1 = .error failure) ↔
        (asked git repo headArgs (left git repo (mergeArgs branch) s)).ok = false) := by
  have hkept : left git repo headArgs (left git repo (mergeArgs branch) s) =
      left git repo (mergeArgs branch) s := hgit.keeps repo branch _ (by simp) _
  rw [tryMerge, run_bind, if_pos hok]
  cases hhead : (asked git repo headArgs (left git repo (mergeArgs branch) s)).ok with
  | true =>
    obtain ⟨head, hanswer⟩ := headOf_ok (s := ⟨left git repo (mergeArgs branch) s,
      ran ++ [asked git repo (mergeArgs branch) s]⟩) hhead
    rw [bind_ok hanswer, pure_apply]
    refine ⟨?_, ?_⟩
    · rw [hkept]
    · simp
  | false =>
    obtain ⟨failure, hanswer⟩ := headOf_error (s := ⟨left git repo (mergeArgs branch) s,
      ran ++ [asked git repo (mergeArgs branch) s]⟩) hhead
    rw [bind_error hanswer]
    refine ⟨?_, ?_⟩
    · rw [hkept]
    · simp

/-- A merge that does not: the unmerged paths are asked for, and it is aborted. -/
theorem tryMerge_failed (hgit : Documented git) (ran : List GitOutcome)
    (hok : (asked git repo (mergeArgs branch) s).ok = false) :
    (∃ failure, (tryMerge git repo branch ⟨s, ran⟩).1 = .error failure) ∧
      (tryMerge git repo branch ⟨s, ran⟩).2 =
        ⟨left git repo abortArgs (left git repo (mergeArgs branch) s),
          ran ++ [asked git repo (mergeArgs branch) s] ++
            [asked git repo unmergedArgs (left git repo (mergeArgs branch) s)] ++
            [asked git repo abortArgs (left git repo (mergeArgs branch) s)]⟩ := by
  have hkept : left git repo unmergedArgs (left git repo (mergeArgs branch) s) =
      left git repo (mergeArgs branch) s := hgit.keeps repo branch _ (by simp) _
  have hconflicts : ∃ conflicts, conflictedPaths git repo ⟨left git repo (mergeArgs branch) s,
      ran ++ [asked git repo (mergeArgs branch) s]⟩ =
        (.ok conflicts, ⟨left git repo (mergeArgs branch) s,
          ran ++ [asked git repo (mergeArgs branch) s] ++
            [asked git repo unmergedArgs (left git repo (mergeArgs branch) s)]⟩) := by
    rw [conflictedPaths, run_bind, hkept]
    exact ⟨_, rfl⟩
  obtain ⟨conflicts, hanswer⟩ := hconflicts
  rw [tryMerge, run_bind, if_neg (by simp [hok]), bind_ok hanswer, run_bind]
  exact ⟨⟨_, rfl⟩, rfl⟩

/-! ### The exact condition -/

/-- When a merge that was tried unwinds. -/
theorem unwinds_of_tried (hgit : Documented git) (h : Tried git root repoPath branch s repo) :
    LeftAlone git root repoPath branch s ↔ Unwinds git repo branch s := by
  have hdir := not_timedOut_of_ok h.repository
  have hancestor := not_timedOut_of_status h.ancestor
  rw [LeftAlone, mergeBranch_tried hgit h]
  cases hok : (asked git repo (mergeArgs branch) s).ok with
  | true =>
    have hchanged := hgit.merges repo branch s h.ancestor hok
    obtain ⟨hsession, herror⟩ := tryMerge_ok hgit
      [asked git repo gitDirArgs s, asked git repo (ancestorArgs branch) s] hok
    rw [hsession]
    constructor
    · intro hkeeps
      refine ⟨fun _ hlive => ?_, fun hfailed => ?_⟩
      · by_contra hhead
        obtain ⟨failure, hfailure⟩ := herror.mpr (Bool.eq_false_iff.mpr hhead)
        apply hchanged
        apply hkeeps failure hfailure
        simp [hdir, hancestor, hlive, not_timedOut_of_ok hok]
      · rw [hok] at hfailed
        cases hfailed
    · rintro ⟨hread, -⟩ failure hfailure hlive
      have hhead := herror.mp ⟨failure, hfailure⟩
      have hlast : (asked git repo headArgs (left git repo (mergeArgs branch) s)).timedOut = false :=
        hlive _ (by simp)
      rw [hread hok hlast] at hhead
      cases hhead
  | false =>
    obtain ⟨⟨failure, hfailure⟩, hsession⟩ := tryMerge_failed hgit
      [asked git repo gitDirArgs s, asked git repo (ancestorArgs branch) s] hok
    rw [hsession]
    constructor
    · intro hkeeps
      refine ⟨fun hdone => ?_, fun _ hmerge hunmerged habort => ?_⟩
      · rw [hok] at hdone
        cases hdone
      · have hback : left git repo abortArgs (left git repo (mergeArgs branch) s) = s := by
          apply hkeeps failure hfailure
          simp [hdir, hancestor, hmerge, hunmerged, habort]
        by_cases hleft : left git repo (mergeArgs branch) s = s
        · left
          refine ⟨hleft, ?_⟩
          rw [hleft] at hback
          by_contra hboth
          push Not at hboth
          -- the abort has ended what was in progress before
          obtain ⟨hmerging, hended⟩ := hgit.abortEnds repo s (by simpa using hboth.2)
          rw [hback, hmerging] at hended
          cases hended
        · exact .inr ⟨hleft, hback⟩
    · rintro ⟨-, hunwinds⟩ - - hlive
      have hmerge : (asked git repo (mergeArgs branch) s).timedOut = false := hlive _ (by simp)
      have hunmerged : (asked git repo unmergedArgs
          (left git repo (mergeArgs branch) s)).timedOut = false := hlive _ (by simp)
      have habort : (asked git repo abortArgs
          (left git repo (mergeArgs branch) s)).timedOut = false := hlive _ (by simp)
      rcases hunwinds hok hmerge hunmerged habort with ⟨hleft, hnone⟩ | ⟨-, hback⟩
      · rw [hleft] at habort ⊢
        apply hgit.abortRefused repo s _ habort
        rcases hnone with hidle | hrefused
        · by_contra hended
          have hmerging := (hgit.abortEnds repo s (by simpa using hended)).1
          rw [hidle] at hmerging
          cases hmerging
        · exact hrefused
      · exact hback

/-- For every git that does what it documents, every repository, whatever is in progress and
changed in it, and every request: a merge that is answered with an error has left the repository
as it was, unless a command was killed, exactly when the merge is not tried or what was tried
unwinds. -/
theorem merge_unwinds (git : Git (Repository ι ω)) (hgit : Documented git) (root : Option String)
    (repoPath branch : String) (s : Repository ι ω) :
    LeftAlone git root repoPath branch s ↔
      ∀ repo, Tried git root repoPath branch s repo → Unwinds git repo branch s := by
  by_cases htried : ∃ repo, Tried git root repoPath branch s repo
  · obtain ⟨repo, h⟩ := htried
    rw [unwinds_of_tried hgit h]
    constructor
    · intro hunwinds other hother
      cases h.path.symm.trans hother.path
      exact hunwinds
    · exact fun hall => hall repo h
  · push Not at htried
    constructor
    · exact fun _ repo h => absurd h (htried repo)
    · exact fun _ _ _ _ => store_of_not_tried hgit htried

/-! ### Another merge in progress -/

/-- The contents of one file, for the index and for the working tree. -/
abbrev Files := List (String × String)

/-- A git on a repository in which every branch conflicts with HEAD in one file. -/
def conflictGit : Git (Repository Files Files) := fun i s =>
  if i.2 = gitDirArgs then (.exited (some 0) ".git\n" "", s)
  else if i.2 = headArgs then (.exited (some 0) (s.head ++ "\n") "", s)
  else if i.2 = unmergedArgs then
    (.exited (some 0) (if s.index = [("f", "unmerged")] then "f\n" else "") "", s)
  else if i.2 = abortArgs then
    if s.merging then
      (.exited (some 0) "" "",
        { s with index := [("f", "main\n")], files := [("f", "main\n")], merging := false })
    else (.exited (some 128) "" "fatal: There is no merge to abort (MERGE_HEAD missing).\n", s)
  else if i.2.head? = some "merge-base" then (.exited (some 1) "" "", s)
  else if s.merging then
    (.exited (some 128) "" "error: Merging is not possible because you have unmerged files.\n", s)
  else
    (.exited (some 1) "CONFLICT (content): Merge conflict in f\n" "",
      { s with index := [("f", "unmerged")], files := [("f", "<<<<<<<\n")], merging := true })

theorem conflictGit_documented : Documented conflictGit where
  reads repo branch s args hargs := by
    simp only [List.mem_cons, List.not_mem_nil, or_false] at hargs
    rcases hargs with rfl | rfl | rfl | rfl
    · rfl
    · rfl
    · simp [left, invoke, conflictGit, ancestorArgs, gitDirArgs, headArgs, unmergedArgs, abortArgs]
    · rfl
  merges repo branch s _ hok := by
    cases hmerging : s.merging <;>
      simp [asked, invoke, conflictGit, mergeArgs, mergeIdentity, gitDirArgs, headArgs,
        unmergedArgs, abortArgs, hmerging, outcomeOf] at hok
  abortRefused repo s hok _ := by
    cases hmerging : s.merging <;>
      simp [asked, left, invoke, conflictGit, gitDirArgs, headArgs, unmergedArgs, abortArgs,
        hmerging, outcomeOf] at hok ⊢
  abortEnds repo s hok := by
    cases hmerging : s.merging <;>
      simp [asked, left, invoke, conflictGit, gitDirArgs, headArgs, unmergedArgs, abortArgs,
        hmerging, outcomeOf] at hok ⊢

/-- Nothing is in progress and nothing is changed. -/
def idleRepository : Repository Files Files :=
  ⟨"4c2584f", [("f", "main\n")], [("f", "main\n")], false, none⟩

/-- A merge that stops on a conflict there is unwound. -/
theorem idleRepository_unwinds : LeftAlone conflictGit none "/srv/app" "other" idleRepository := by
  apply (merge_unwinds conflictGit conflictGit_documented none "/srv/app" "other" _).mpr
  intro repo htried
  refine ⟨fun hok => (by cases hok), fun _ _ _ _ => .inr ⟨fun hleft => ?_, rfl⟩⟩
  cases congrArg Repository.merging hleft

/-- A person is in the middle of another merge, and has resolved its conflict in the file. -/
def busyRepository : Repository Files Files :=
  ⟨"4c2584f", [("f", "unmerged")], [("f", "resolved\n")], true, none⟩

/-- A merge that git refuses to begin ends the other one, and the resolved file is gone. -/
theorem aborts_another : ¬ ∀ (git : Git (Repository Files Files)), Documented git →
    ∀ (root : Option String) (repoPath branch : String) (s : Repository Files Files),
      LeftAlone git root repoPath branch s := by
  intro h
  have hkept := h conflictGit conflictGit_documented none "/srv/app" "third" busyRepository
    ⟨"GIT_DIRTY", "merge of \"third\" into \"/srv/app\" stopped on conflicts: f"⟩
    (by decide +kernel) (by decide +kernel)
  revert hkept
  decide +kernel

end RemoteWorkspace.Analysis.MergeUnwinds
