import RemoteWorkspace.Computation.Scripts
import RemoteWorkspace.Model.GitWorktrees

/-!
# The daemon's git, with what its commands change

`worktree_add`, `worktree_remove` and `merge_branch` (agent/src/git.rs) as scripts that run
`git`, which answers and may change the repository. What `git` does is not part of this
repository: it is a parameter, a command on a store of any type, and what `git` documents about
it stands in the results that need it. A command that cannot be started, or is killed when its
time is over, is one that ended otherwise; it may have had an effect all the same.
-/

set_option autoImplicit false

namespace RemoteWorkspace.Model.GitCommands

open RemoteWorkspace.Computation.Scripts
open RemoteWorkspace.Model.FsText (Failure absolutePath)
open RemoteWorkspace.Model.EnsureAgent (trim)
open RemoteWorkspace.Model.GitWorktrees

/-! ### Running git -/

/-- How an invocation of `git` ended: it could not be run, it exited, with no code when a signal
ended it, or its time was over. -/
inductive Ended where
  | notRun (error : String)
  | exited (code : Option ℤ) (stdout stderr : String)
  | timedOut (stdout stderr : String)
  deriving DecidableEq

/-- The end of `run`: the outcome of an invocation. -/
def outcomeOf : Ended → GitOutcome
  | .notRun error => ⟨false, "", "", none, false, error⟩
  | .exited code stdout stderr => ⟨decide (code = some 0), stdout, stderr, code, false, ""⟩
  | .timedOut stdout stderr => ⟨false, stdout, stderr, none, true, ""⟩

/-- `git` in a directory with its arguments: how it ends, and what it leaves of the store. -/
abbrev Git (σ : Type) := String × List String → σ → Ended × σ

/-- A script of the daemon. -/
abbrev GitScript (σ : Type) := Script Failure σ GitOutcome

variable {σ : Type} (git : Git σ)

/-- The outcome of an invocation, and the store after it. -/
def invoke (i : String × List String) (s : σ) : GitOutcome × σ :=
  (outcomeOf (git i s).1, (git i s).2)

/-- `run`: run one git command. -/
def run (repo : String) (args : List String) : GitScript σ GitOutcome :=
  exec (invoke git) (repo, args)

/-- The outcome of a command in a store. -/
def asked (repo : String) (args : List String) (s : σ) : GitOutcome :=
  (invoke git (repo, args) s).1

/-- The store after a command. -/
def left (repo : String) (args : List String) (s : σ) : σ := (invoke git (repo, args) s).2

/-- A command that must succeed, and the failure that its refusal becomes. -/
def required (repo : String) (args : List String) (refused : GitOutcome → Failure) :
    GitScript σ GitOutcome := do
  let outcome ← run git repo args
  if outcome.ok then pure outcome else fail (refused outcome)

def gitDirArgs : List String := ["rev-parse", "--git-dir"]
def headArgs : List String := ["rev-parse", "HEAD"]
def branchArgs : List String := ["rev-parse", "--abbrev-ref", "HEAD"]

/-- `require_repository`. -/
def requireRepository (repo : String) : GitScript σ Unit := do
  let _ ← required git repo gitDirArgs fun outcome =>
    ⟨"GIT_NOT_A_REPOSITORY", "not a git repository: " ++ detail outcome⟩

/-- `head_of`. -/
def headOf (repo : String) : GitScript σ String := do
  let outcome ← required git repo headArgs (commandFailed repo)
  pure (trim outcome.stdout)

/-! ### Worktrees -/

/-- `describe_worktree`. -/
def describeWorktree (path : String) : GitScript σ GitWorktree := do
  let head ← headOf git path
  let branch ← required git path branchArgs (commandFailed path)
  pure ⟨path, shortBranch (trim branch.stdout), head, false⟩

/-- The arguments of `git worktree add`. -/
def addArgs (target branch : String) (baseRef : Option String) : List String :=
  ["worktree", "add", "-b", branch, target] ++ baseRef.toList

/-- `worktree_add`. -/
def worktreeAdd (root : Option String) (repoPath worktreePath branch : String)
    (baseRef : Option String) : GitScript σ GitWorktree := do
  let repo ← lift (absolutePath "add a worktree to" repoPath root)
  let target ← lift (absolutePath "add a worktree to" worktreePath root)
  requireRepository git repo
  let _ ← required git repo (addArgs target branch baseRef) (classifyAdd repo target branch)
  describeWorktree git target

/-- The arguments of `git worktree remove`. -/
def removeArgs (target : String) (force : Bool) : List String :=
  ["worktree", "remove"] ++ (if force then ["--force"] else []) ++ [target]

/-- The failure that a refused `git worktree remove` becomes. -/
def removeRefused (repo target : String) (outcome : GitOutcome) : Failure :=
  if outputSays outcome "contains modified or untracked files" then
    ⟨"GIT_DIRTY", "cannot remove \"" ++ target ++
      "\": it contains modified or untracked files; retry with force"⟩
  else commandFailed repo outcome

def pruneArgs : List String := ["worktree", "prune"]

/-- `worktree_remove`. -/
def worktreeRemove (root : Option String) (repoPath worktreePath : String) (force : Bool) :
    GitScript σ Unit := do
  let repo ← lift (absolutePath "remove a worktree from" repoPath root)
  let target ← lift (absolutePath "remove a worktree from" worktreePath root)
  requireRepository git repo
  let _ ← required git repo (removeArgs target force) (removeRefused repo target)
  let _ ← required git repo pruneArgs (commandFailed repo)

/-! ### Merging -/

/-- `MERGE_IDENTITY`. -/
def mergeIdentity : List String :=
  ["-c", "user.name=dsh-remote-agent", "-c", "user.email=dsh-remote-agent@localhost", "-c",
    "commit.gpgsign=false"]

/-- The arguments of the merge. -/
def mergeArgs (branch : String) : List String := mergeIdentity ++ ["merge", "--no-edit", branch]

def ancestorArgs (branch : String) : List String :=
  ["merge-base", "--is-ancestor", branch, "HEAD"]

def unmergedArgs : List String := ["diff", "--name-only", "--diff-filter=U"]
def abortArgs : List String := ["merge", "--abort"]

/-- What a merge answers. -/
structure Merged where
  head : String
  alreadyMerged : Bool
  deriving DecidableEq

/-- `conflicted_paths`: unmerged paths of an in-progress merge, in git's order. -/
def conflictedPaths (repo : String) : GitScript σ (List String) := do
  let outcome ← run git repo unmergedArgs
  pure (if outcome.ok then
    ((linesOf outcome.stdout).map trim).filter fun line => decide (line ≠ "") else [])

/-- `merge_ref_not_found`. -/
def mergeRefNotFound (repo branch : String) (outcome : GitOutcome) : Failure :=
  ⟨"GIT_REF_NOT_FOUND", "cannot merge \"" ++ branch ++ "\" into \"" ++ repo ++ "\": " ++
    detail outcome⟩

/-- The failure that a merge which did not end well becomes. -/
def mergeRefused (repo branch : String) (conflicts : List String) (outcome : GitOutcome) : Failure :=
  let stopped := "merge of \"" ++ branch ++ "\" into \"" ++ repo ++ "\" stopped"
  if conflicts ≠ [] then
    ⟨"GIT_DIRTY", stopped ++ " on conflicts: " ++ ", ".intercalate conflicts⟩
  else if outputSaysAny outcome ["would be overwritten", "local changes"] then
    ⟨"GIT_DIRTY", stopped ++ ": " ++ detail outcome⟩
  else if isMissingRef outcome then mergeRefNotFound repo branch outcome
  else commandFailed repo outcome

/-- The failure that an answer to the question for an ancestor becomes, which is neither. -/
def ancestorRefused (repo branch : String) (outcome : GitOutcome) : Failure :=
  if isMissingRef outcome then mergeRefNotFound repo branch outcome
  else commandFailed repo outcome

/-- `merge_branch`, from the merge on. -/
def tryMerge (repo branch : String) : GitScript σ Merged := do
  let outcome ← run git repo (mergeArgs branch)
  if outcome.ok then
    let head ← headOf git repo
    pure ⟨head, false⟩
  else
    -- what was stopped is unwound, and so is whatever else is in progress
    let conflicts ← conflictedPaths git repo
    let _ ← run git repo abortArgs
    fail (mergeRefused repo branch conflicts outcome)

/-- `merge_branch`. -/
def mergeBranch (root : Option String) (repoPath branch : String) : GitScript σ Merged := do
  let repo ← lift (absolutePath "merge into" repoPath root)
  requireRepository git repo
  let ancestor ← run git repo (ancestorArgs branch)
  if ancestor.ok then
    let head ← headOf git repo
    pure ⟨head, true⟩
  else if ancestor.status ≠ some 1 then fail (ancestorRefused repo branch ancestor)
  else tryMerge git repo branch

end RemoteWorkspace.Model.GitCommands
