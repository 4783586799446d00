import RemoteWorkspace.Analysis.GitScripts
import Mathlib.Data.Set.Basic

/-!
# What a refused change of worktrees has changed

`worktree_add` and `worktree_remove` run a command that changes the repository, and then others
whose refusal is an error as well. A request that is answered with an error has left the
worktrees and branches as they were exactly when the command that was to change them, where it
was refused, had changed none itself, and nothing that follows one which ended well is refused.
`git worktree add -b` misses the first: it creates the branch before it looks at the path.
-/

set_option autoImplicit false

namespace RemoteWorkspace.Analysis.WorktreeChanges

open RemoteWorkspace.Computation.Scripts
open RemoteWorkspace.Model RemoteWorkspace.Model.GitCommands
open RemoteWorkspace.Model.GitWorktrees (GitOutcome)
open RemoteWorkspace.Model.FsText (Failure absolutePath)
open RemoteWorkspace.Analysis.GitScripts

/-- The worktrees of a repository, by their paths, and its branches. -/
@[ext] structure Checkouts where
  worktrees : Set String
  branches : Set String

variable {σ : Type} {git : Git σ} {checkouts : σ → Checkouts} {s : σ}
variable {root : Option String} {repoPath worktreePath branch repo target : String}
variable {baseRef : Option String} {force : Bool}

/-- What git documents of the commands: those that only read leave the repository alone; a
worktree that is added is on a branch that there was not, one that is removed was there; pruning
adds none. -/
structure Documented (git : Git σ) (checkouts : σ → Checkouts) : Prop where
  reads : ∀ repo s, ∀ args ∈ [gitDirArgs, headArgs, branchArgs], left git repo args s = s
  adds : ∀ repo target branch baseRef s,
    (asked git repo (addArgs target branch baseRef) s).ok = true →
    branch ∉ (checkouts s).branches ∧
      branch ∈ (checkouts (left git repo (addArgs target branch baseRef) s)).branches
  removes : ∀ repo target force s, (asked git repo (removeArgs target force) s).ok = true →
    ∃ w ∈ (checkouts s).worktrees,
      w ∉ (checkouts (left git repo (removeArgs target force) s)).worktrees
  prunes : ∀ repo s, (checkouts (left git repo pruneArgs s)).worktrees ⊆ (checkouts s).worktrees

/-- A script that is answered with an error has left the worktrees and branches as they were,
unless a command was killed. -/
def Unchanged {α : Type} (checkouts : σ → Checkouts) (s : σ) (x : GitScript σ α) : Prop :=
  ∀ failure, (x ⟨s, []⟩).1 = .error failure → (∀ o ∈ (x ⟨s, []⟩).2.ran, o.timedOut = false) →
    checkouts (x ⟨s, []⟩).2.store = checkouts s

/-! ### The conditions -/

/-- A request reaches the command that changes the repository. -/
structure Reaches (git : Git σ) (verb : String) (root : Option String)
    (repoPath worktreePath : String) (s : σ) (repo target : String) : Prop where
  path : absolutePath verb repoPath root = .ok repo
  target : absolutePath verb worktreePath root = .ok target
  repository : (asked git repo gitDirArgs s).ok = true

/-- HEAD and the branch of a checkout can be read, unless a command is killed. -/
def Describes (git : Git σ) (target : String) (s : σ) : Prop :=
  (asked git target headArgs s).timedOut = false →
    (asked git target headArgs s).ok = true ∧
      ((asked git target branchArgs s).timedOut = false →
        (asked git target branchArgs s).ok = true)

/-- A worktree that was added can be described, and one that was not has left no trace. -/
def AddsWhole (git : Git σ) (checkouts : σ → Checkouts) (repo target branch : String)
    (baseRef : Option String) (s : σ) : Prop :=
  let added := asked git repo (addArgs target branch baseRef) s
  let after := left git repo (addArgs target branch baseRef) s
  (added.ok = true → Describes git target after) ∧
  (added.ok = false → added.timedOut = false → checkouts after = checkouts s)

/-- After a worktree was removed the others can be pruned, and one that was not removed is still
there. -/
def RemovesWhole (git : Git σ) (checkouts : σ → Checkouts) (repo target : String) (force : Bool)
    (s : σ) : Prop :=
  let removed := asked git repo (removeArgs target force) s
  let after := left git repo (removeArgs target force) s
  (removed.ok = true → (asked git repo pruneArgs after).timedOut = false →
    (asked git repo pruneArgs after).ok = true) ∧
  (removed.ok = false → removed.timedOut = false → checkouts after = checkouts s)

/-! ### Up to the command -/

/-- What a request checks before its command. -/
def guarded {α : Type} (git : Git σ) (verb : String) (root : Option String)
    (repoPath worktreePath : String) (body : String → String → GitScript σ α) : GitScript σ α := do
  let repo ← lift (absolutePath verb repoPath root)
  let target ← lift (absolutePath verb worktreePath root)
  requireRepository git repo
  body repo target

/-- `worktree_add` from its command on. -/
theorem worktreeAdd_eq : worktreeAdd git root repoPath worktreePath branch baseRef =
    guarded git "add a worktree to" root repoPath worktreePath (fun repo target => do
      let _ ← required git repo (addArgs target branch baseRef)
        (GitWorktrees.classifyAdd repo target branch)
      describeWorktree git target) := rfl

/-- `worktree_remove` from its command on. -/
theorem worktreeRemove_eq : worktreeRemove git root repoPath worktreePath force =
    guarded git "remove a worktree from" root repoPath worktreePath (fun repo target => do
      let _ ← required git repo (removeArgs target force) (removeRefused repo target)
      let _ ← required git repo pruneArgs (GitWorktrees.commandFailed repo)) := rfl

section Guarded

variable {α : Type} {verb : String} {body : String → String → GitScript σ α}

/-- A request that reaches its command goes on with it. -/
theorem guarded_reaches (hgit : Documented git checkouts)
    (h : Reaches git verb root repoPath worktreePath s repo target) :
    guarded git verb root repoPath worktreePath body ⟨s, []⟩ =
      body repo target ⟨s, [asked git repo gitDirArgs s]⟩ := by
  have hkept : left git repo gitDirArgs s = s := hgit.reads repo s _ (by simp)
  rw [guarded, h.path, lift_ok_bind, h.target, lift_ok_bind,
    bind_ok (requireRepository_ok h.repository), hkept]
  rfl

/-- One that does not leaves the repository. -/
theorem guarded_store (hgit : Documented git checkouts)
    (h : ∀ repo target, ¬ Reaches git verb root repoPath worktreePath s repo target) :
    (guarded git verb root repoPath worktreePath body ⟨s, []⟩).2.store = s := by
  cases hpath : absolutePath verb repoPath root with
  | error failure => rw [guarded, hpath, lift_error_bind]
  | ok repo =>
    cases htarget : absolutePath verb worktreePath root with
    | error failure => rw [guarded, hpath, lift_ok_bind, htarget, lift_error_bind]
    | ok target =>
      cases hdir : (asked git repo gitDirArgs s).ok with
      | true => exact absurd ⟨hpath, htarget, hdir⟩ (h repo target)
      | false =>
        obtain ⟨failure, hrefused⟩ := requireRepository_error (s := ⟨s, []⟩) hdir
        rw [guarded, hpath, lift_ok_bind, htarget, lift_ok_bind, bind_error hrefused]
        exact hgit.reads repo s _ (by simp)

/-- So whether a request leaves the worktrees as they were is decided from its command on. -/
theorem unchanged_guarded (hgit : Documented git checkouts) {P : String → String → Prop}
    (hbody : ∀ repo target, Reaches git verb root repoPath worktreePath s repo target →
      ((∀ failure, (body repo target ⟨s, [asked git repo gitDirArgs s]⟩).1 = .error failure →
        (∀ o ∈ (body repo target ⟨s, [asked git repo gitDirArgs s]⟩).2.ran, o.timedOut = false) →
          checkouts (body repo target ⟨s, [asked git repo gitDirArgs s]⟩).2.store =
            checkouts s) ↔ P repo target)) :
    Unchanged checkouts s (guarded git verb root repoPath worktreePath body) ↔
      ∀ repo target, Reaches git verb root repoPath worktreePath s repo target → P repo target := by
  by_cases hreaches : ∃ repo target, Reaches git verb root repoPath worktreePath s repo target
  · obtain ⟨repo, target, h⟩ := hreaches
    unfold Unchanged
    rw [guarded_reaches hgit h, hbody repo target h]
    constructor
    · intro hP other target' h'
      cases h.path.symm.trans h'.path
      cases h.target.symm.trans h'.target
      exact hP
    · exact fun hall => hall repo target h
  · push Not at hreaches
    constructor
    · exact fun _ repo target h => absurd h (hreaches repo target)
    · intro _ failure _ _
      rw [guarded_store hgit hreaches]

end Guarded

/-! ### Adding -/

/-- A checkout that is described: nothing changes, and the answer is an error when one of the two
commands is refused. -/
theorem describe_cases (hgit : Documented git checkouts) (target : String) (s : σ)
    (ran : List GitOutcome) :
    (describeWorktree git target ⟨s, ran⟩).2.store = s ∧
      ((asked git target headArgs s).ok = false ∧
          (∃ failure, (describeWorktree git target ⟨s, ran⟩).1 = .error failure) ∧
          (describeWorktree git target ⟨s, ran⟩).2.ran = ran ++ [asked git target headArgs s] ∨
        (asked git target headArgs s).ok = true ∧
          ((∃ failure, (describeWorktree git target ⟨s, ran⟩).1 = .error failure) ↔
            (asked git target branchArgs s).ok = false) ∧
          (describeWorktree git target ⟨s, ran⟩).2.ran =
            ran ++ [asked git target headArgs s] ++ [asked git target branchArgs s]) := by
  have hhead : left git target headArgs s = s := hgit.reads target s _ (by simp)
  have hbranch : left git target branchArgs s = s := hgit.reads target s _ (by simp)
  cases hok : (asked git target headArgs s).ok with
  | false =>
    obtain ⟨failure, hanswer⟩ := headOf_error (s := ⟨s, ran⟩) hok
    rw [describeWorktree, bind_error hanswer]
    refine ⟨hhead, .inl ⟨rfl, ⟨failure, rfl⟩, rfl⟩⟩
  | true =>
    obtain ⟨head, hanswer⟩ := headOf_ok (s := ⟨s, ran⟩) hok
    rw [describeWorktree, bind_ok hanswer, hhead]
    cases hname : (asked git target branchArgs s).ok with
    | false =>
      rw [required_bind_error hname]
      refine ⟨hbranch, .inr ⟨rfl, ?_, rfl⟩⟩
      simp
    | true =>
      rw [required_bind_ok hname]
      refine ⟨hbranch, .inr ⟨rfl, ?_, rfl⟩⟩
      simp

/-- What is asked of a command that has succeeded. -/
theorem outcome_ok {ok : Bool} {P Q : Prop} (h : ok = true) :
    ((ok = true → P) ∧ (ok = false → Q)) ↔ P := by
  simp [h]

/-- What is asked of one that has failed. -/
theorem outcome_failed {ok : Bool} {P Q : Prop} (h : ok = false) :
    ((ok = true → P) ∧ (ok = false → Q)) ↔ Q := by
  simp [h]

/-- When a worktree that was to be added leaves the others as they were. -/
theorem unchanged_add (hgit : Documented git checkouts) :
    Unchanged checkouts s (worktreeAdd git root repoPath worktreePath branch baseRef) ↔
      ∀ repo target, Reaches git "add a worktree to" root repoPath worktreePath s repo target →
        AddsWhole git checkouts repo target branch baseRef s := by
  rw [worktreeAdd_eq, unchanged_guarded hgit]
  intro repo target h
  have hdir := not_timedOut_of_ok h.repository
  cases hok : (asked git repo (addArgs target branch baseRef) s).ok with
  | false =>
    rw [required_bind_error hok, AddsWhole, outcome_failed hok]
    constructor
    · intro hkeeps hlive
      exact hkeeps _ rfl (by simp [hdir, hlive])
    · intro hwhole failure _ hlive
      exact hwhole (hlive _ (by simp))
  | true =>
    rw [required_bind_ok hok]
    obtain ⟨hnew, hadded⟩ := hgit.adds repo target branch baseRef s hok
    have hchanged : checkouts (left git repo (addArgs target branch baseRef) s) ≠ checkouts s := by
      intro hsame
      rw [hsame] at hadded
      exact hnew hadded
    have hlive := not_timedOut_of_ok hok
    obtain ⟨hstore, hcases⟩ := describe_cases hgit target
      (left git repo (addArgs target branch baseRef) s)
      ([asked git repo gitDirArgs s] ++ [asked git repo (addArgs target branch baseRef) s])
    rw [hstore, AddsWhole, outcome_ok hok]
    constructor
    · intro hkeeps hheadLive
      rcases hcases with ⟨hhead, ⟨failure, hfailure⟩, hran⟩ | ⟨hhead, herror, hran⟩
      · apply absurd (hkeeps failure hfailure _) hchanged
        rw [hran]
        simp [hdir, hlive, hheadLive]
      · refine ⟨hhead, fun hnameLive => ?_⟩
        by_contra hname
        obtain ⟨failure, hfailure⟩ := herror.mpr (Bool.eq_false_iff.mpr hname)
        apply absurd (hkeeps failure hfailure _) hchanged
        rw [hran]
        simp [hdir, hlive, hheadLive, hnameLive]
    · intro hdescribes failure hfailure hran'
      exfalso
      rcases hcases with ⟨hhead, -, hran⟩ | ⟨hhead, herror, hran⟩
      · rw [hran] at hran'
        have hread := (hdescribes (hran' _ (by simp))).1
        rw [hhead] at hread
        cases hread
      · rw [hran] at hran'
        have hread := (hdescribes (hran' _ (by simp))).2 (hran' _ (by simp))
        rw [herror.mp ⟨failure, hfailure⟩] at hread
        cases hread

/-! ### Removing -/

/-- When a worktree that was to be removed leaves the others as they were. -/
theorem unchanged_remove (hgit : Documented git checkouts) :
    Unchanged checkouts s (worktreeRemove git root repoPath worktreePath force) ↔
      ∀ repo target, Reaches git "remove a worktree from" root repoPath worktreePath s repo target →
        RemovesWhole git checkouts repo target force s := by
  rw [worktreeRemove_eq, unchanged_guarded hgit]
  intro repo target h
  have hdir := not_timedOut_of_ok h.repository
  cases hok : (asked git repo (removeArgs target force) s).ok with
  | false =>
    rw [required_bind_error hok, RemovesWhole, outcome_failed hok]
    constructor
    · intro hkeeps hlive
      exact hkeeps _ rfl (by simp [hdir, hlive])
    · intro hwhole failure _ hlive
      exact hwhole (hlive _ (by simp))
  | true =>
    rw [required_bind_ok hok]
    obtain ⟨w, hthere, hgone⟩ := hgit.removes repo target force s hok
    have hchanged : checkouts (left git repo pruneArgs
        (left git repo (removeArgs target force) s)) ≠ checkouts s := by
      intro hsame
      apply hgone
      apply hgit.prunes repo
      rw [hsame]
      exact hthere
    have hlive := not_timedOut_of_ok hok
    cases hprune : (asked git repo pruneArgs (left git repo (removeArgs target force) s)).ok with
    | false =>
      rw [required_bind_error hprune, RemovesWhole, outcome_ok hok]
      constructor
      · intro hkeeps hpruneLive
        exact absurd (hkeeps _ rfl (by simp [hdir, hlive, hpruneLive])) hchanged
      · intro hprunes failure _ hran
        rw [hprunes (hran _ (by simp))] at hprune
        cases hprune
    | true =>
      rw [required_bind_ok hprune, RemovesWhole, outcome_ok hok]
      constructor
      · exact fun _ _ => hprune
      · intro _ failure hfailure
        cases hfailure

/-- For every git that does what it documents, every repository and every outcome of the
commands: a request to add or to remove a worktree that is answered with an error has left the
worktrees and branches as they were, unless a command was killed, exactly when it is refused
before its command, or the command is whole and so is what follows. -/
theorem worktree_changes (git : Git σ) (checkouts : σ → Checkouts)
    (hgit : Documented git checkouts) (root : Option String) (repoPath worktreePath : String)
    (s : σ) :
    (∀ branch baseRef,
      Unchanged checkouts s (worktreeAdd git root repoPath worktreePath branch baseRef) ↔
        ∀ repo target, Reaches git "add a worktree to" root repoPath worktreePath s repo target →
          AddsWhole git checkouts repo target branch baseRef s) ∧
    ∀ force, Unchanged checkouts s (worktreeRemove git root repoPath worktreePath force) ↔
      ∀ repo target, Reaches git "remove a worktree from" root repoPath worktreePath s repo target →
        RemovesWhole git checkouts repo target force s :=
  ⟨fun _ _ => unchanged_add hgit, fun _ => unchanged_remove hgit⟩

/-! ### A path that is taken -/

/-- The worktrees and branches of a repository, and the paths where there is something else. -/
structure Places where
  worktrees : List String
  branches : List String
  taken : List String
  deriving DecidableEq

/-- The worktrees and branches as sets. -/
def Places.asCheckouts (s : Places) : Checkouts := ⟨{w | w ∈ s.worktrees}, {b | b ∈ s.branches}⟩

/-- `git worktree add -b`, which creates the branch and then looks at the path. -/
def addAt (branch target : String) (s : Places) : Ended × Places :=
  if branch ∈ s.branches then
    (.exited (some 255) "" ("fatal: a branch named '" ++ branch ++ "' already exists\n"), s)
  else if target ∈ s.taken then
    (.exited (some 128) "" ("fatal: '" ++ target ++ "' already exists\n"),
      { s with branches := branch :: s.branches })
  else
    (.exited (some 0) "" "",
      { s with branches := branch :: s.branches, worktrees := target :: s.worktrees })

/-- `git worktree remove`, of worktrees without changes. -/
def removeAt (target : String) (s : Places) : Ended × Places :=
  if target ∈ s.worktrees then
    (.exited (some 0) "" "",
      { s with worktrees := s.worktrees.filter fun w => decide (w ≠ target) })
  else (.exited (some 128) "" ("fatal: '" ++ target ++ "' is not a working tree\n"), s)

/-- A git on such repositories. -/
def placesGit : Git Places := fun i s =>
  match i.2 with
  | ["rev-parse", "--git-dir"] => (.exited (some 0) ".git\n" "", s)
  | ["rev-parse", "HEAD"] => (.exited (some 0) "4c2584f\n" "", s)
  | ["rev-parse", "--abbrev-ref", "HEAD"] => (.exited (some 0) "feature\n" "", s)
  | "worktree" :: "add" :: "-b" :: branch :: target :: _ => addAt branch target s
  | ["worktree", "remove", target] => removeAt target s
  | ["worktree", "remove", "--force", target] => removeAt target s
  | ["worktree", "prune"] => (.exited (some 0) "" "", s)
  | _ => (.exited (some 1) "" "", s)

theorem placesGit_documented : Documented placesGit Places.asCheckouts where
  reads repo s args hargs := by
    simp only [List.mem_cons, List.not_mem_nil, or_false] at hargs
    rcases hargs with rfl | rfl | rfl
    all_goals rfl
  adds repo target branch baseRef s hok := by
    change (outcomeOf (addAt branch target s).1).ok = true at hok
    change branch ∉ s.asCheckouts.branches ∧ branch ∈ (addAt branch target s).2.asCheckouts.branches
    unfold addAt at hok ⊢
    split at hok
    · cases hok
    · rename_i hnew
      rw [if_neg hnew]
      refine ⟨hnew, ?_⟩
      split
      · exact List.mem_cons_self
      · exact List.mem_cons_self
  removes repo target force s hok := by
    have hremove : placesGit (repo, removeArgs target force) s = removeAt target s := by
      cases force <;> rfl
    rw [asked, invoke, hremove] at hok
    rw [left, invoke, hremove]
    unfold removeAt at hok ⊢
    split at hok
    · rename_i hthere
      rw [if_pos hthere]
      refine ⟨target, hthere, fun hmem => ?_⟩
      have hfiltered := (List.mem_filter.mp hmem).2
      simp at hfiltered
    · cases hok
  prunes repo s := Set.Subset.refl _

/-- A repository with one checkout, and a directory beside it. -/
def takenPlaces : Places := ⟨["/srv/app"], ["main"], ["/srv/wt"]⟩

/-- A worktree that is not there cannot be removed, and nothing is changed. -/
theorem takenPlaces_removal : Unchanged Places.asCheckouts takenPlaces
    (worktreeRemove placesGit none "/srv/app" "/srv/wt" false) := by
  apply ((worktree_changes placesGit Places.asCheckouts placesGit_documented none "/srv/app"
    "/srv/wt" takenPlaces).2 false).mpr
  intro repo target h
  have hpath : absolutePath "remove a worktree from" "/srv/wt" none = .ok "/srv/wt" := by
    decide +kernel
  cases hpath.symm.trans h.target
  have hrefused : (outcomeOf (removeAt "/srv/wt" takenPlaces).1).ok = false := by
    decide +kernel
  constructor
  · intro hok
    cases hrefused.symm.trans hok
  · intro _ _
    rfl

/-- A worktree at the path of that directory is refused, and its branch is there. -/
theorem leaves_branch : ¬ ∀ (git : Git Places), Documented git Places.asCheckouts →
    ∀ (root : Option String) (repoPath worktreePath branch : String) (baseRef : Option String)
      (s : Places),
      Unchanged Places.asCheckouts s
        (worktreeAdd git root repoPath worktreePath branch baseRef) := by
  intro h
  have hsame := h placesGit placesGit_documented none "/srv/app" "/srv/wt" "feature" none
    takenPlaces ⟨"GIT_WORKTREE_EXISTS",
      "cannot add a worktree to \"/srv/app\": \"/srv/wt\" already exists"⟩ (by decide +kernel)
    (by decide +kernel)
  have hbranch : "feature" ∈ (takenPlaces.asCheckouts).branches := by
    rw [← hsame]
    change "feature" ∈ (addAt "feature" "/srv/wt" takenPlaces).2.branches
    decide +kernel
  revert hbranch
  change ¬ "feature" ∈ takenPlaces.branches
  decide +kernel

end RemoteWorkspace.Analysis.WorktreeChanges
