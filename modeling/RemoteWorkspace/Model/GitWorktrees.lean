import RemoteWorkspace.Model.EnsureAgent
import RemoteWorkspace.Model.FsPaths
import RemoteWorkspace.Model.Worktrees

/-!
# The daemon's git

`worktree_add` and `worktree_list` (agent/src/git.rs), over what the git of the machine answers
to a command in a directory. A checkout is described by the path that was asked for, and a
listing by what git prints.
-/

set_option autoImplicit false

namespace RemoteWorkspace.Model.GitWorktrees

open RemoteWorkspace.Computation RemoteWorkspace.Computation.Symlinks
open RemoteWorkspace.Model.FsText RemoteWorkspace.Model.FsPaths
open RemoteWorkspace.Model.EnsureAgent (trim)
open RemoteWorkspace.Model.Worktrees (World WireWorktree)

/-! ### Commands -/

/-- `GitOutcome`: one finished `git` invocation. -/
structure GitOutcome where
  ok : Bool
  stdout : String
  stderr : String
  status : Option ℤ
  timedOut : Bool
  spawnError : String
  deriving DecidableEq

/-- What git answers in a directory to its arguments (`run`). -/
abbrev Git := (repo : String) → (args : List String) → GitOutcome

/-- `str::to_lowercase`, as far as a search for ASCII text can tell: besides the ASCII capitals,
two characters have an ASCII letter in their lower case. -/
def toLowercase (text : String) : List Char :=
  text.toList.flatMap fun c =>
    if c = Char.ofNat 0x212A then ['k']
    else if c = Char.ofNat 0x130 then ['i', Char.ofNat 0x307]
    else [c.toLower]

/-- `contains_ci`: whether a text contains another, ignoring case. -/
def containsCi (haystack needle : String) : Bool :=
  decide (toLowercase needle <:+: toLowercase haystack)

/-- `says`: whether git's output contains one needle, ignoring case. -/
def outputSays (outcome : GitOutcome) (needle : String) : Bool :=
  containsCi outcome.stderr needle || containsCi outcome.stdout needle

/-- `says_any`: whether git's output contains any of the needles, ignoring case. -/
def outputSaysAny (outcome : GitOutcome) (needles : List String) : Bool :=
  needles.any (outputSays outcome)

/-- `is_missing_ref`: whether git's output says the named revision does not exist. -/
def isMissingRef (outcome : GitOutcome) : Bool :=
  outputSaysAny outcome ["not a valid object name", "unknown revision", "ambiguous argument",
    "did not match any", "invalid reference", "not something we can merge"]

/-- `GIT_DETAIL_MAX_CHARS`. -/
def gitDetailMaxChars : ℕ := 2000

/-- `detail`: git's own words for a failure, trimmed and bounded. -/
def detail (outcome : GitOutcome) : String :=
  if outcome.timedOut then "git timed out after 120000ms"
  else if outcome.spawnError ≠ "" then outcome.spawnError
  else
    let text := if trim outcome.stderr ≠ "" then trim outcome.stderr else trim outcome.stdout
    if text = "" then
      "git exited with status " ++ (outcome.status.map toString).getD "unknown"
    else if gitDetailMaxChars < text.length then
      String.ofList (text.toList.take gitDetailMaxChars) ++ "..."
    else text

/-- `command_failed`: the failure a git command that ran and refused produces. -/
def commandFailed (repo : String) (outcome : GitOutcome) : Failure :=
  ⟨"GIT_COMMAND_FAILED", "cannot operate on \"" ++ repo ++ "\": " ++ detail outcome⟩

/-- A command that must succeed, and the failure that its refusal becomes. -/
def require (outcome : GitOutcome) (refused : GitOutcome → Failure) : Except Failure GitOutcome :=
  if outcome.ok then .ok outcome else .error (refused outcome)

/-- `require_repository`: fail unless `repo` is inside a git repository. -/
def requireRepository (git : Git) (repo : String) : Except Failure Unit := do
  let _ ← require (git repo ["rev-parse", "--git-dir"]) fun outcome =>
    ⟨"GIT_NOT_A_REPOSITORY", "not a git repository: " ++ detail outcome⟩

/-! ### Adding a worktree -/

/-- What the daemon says of one worktree. -/
structure GitWorktree where
  path : String
  branch : Option String
  head : String
  main : Bool
  deriving DecidableEq

/-- `str::strip_prefix`. -/
def stripPrefix (start text : String) : Option String :=
  if start.toList <+: text.toList then some (String.ofList (text.toList.drop start.length))
  else none

/-- `short_branch`: the short name a ref spelling names, or `none` for a detached or bare
checkout. -/
def shortBranch (reference : String) : Option String :=
  if reference = "" ∨ reference = "HEAD" then none
  else some ((stripPrefix "refs/heads/" reference).getD reference)

/-- `head_of`: the revision HEAD points at. -/
def headOf (git : Git) (repo : String) : Except Failure String := do
  let outcome ← require (git repo ["rev-parse", "HEAD"]) (commandFailed repo)
  pure (trim outcome.stdout)

/-- `describe_worktree`: read back the worktree a successful `worktree add` created. -/
def describeWorktree (git : Git) (path : String) : Except Failure GitWorktree := do
  let head ← headOf git path
  let branch ← require (git path ["rev-parse", "--abbrev-ref", "HEAD"]) (commandFailed path)
  pure ⟨path, shortBranch (trim branch.stdout), head, false⟩

/-- `classify_add`: a failed `git worktree add`, from git's own output. -/
def classifyAdd (repo target branch : String) (outcome : GitOutcome) : Failure :=
  let refused := "cannot add a worktree to \"" ++ repo ++ "\": "
  -- the branch message also says "already exists", so it is matched first
  if outputSays outcome "a branch named" && outputSays outcome "already exists" then
    ⟨"GIT_BRANCH_EXISTS", refused ++ "branch \"" ++ branch ++ "\" already exists"⟩
  else if outputSaysAny outcome ["already exists", "already registered", "is a main working tree"] then
    ⟨"GIT_WORKTREE_EXISTS", refused ++ "\"" ++ target ++ "\" already exists"⟩
  else if isMissingRef outcome then ⟨"GIT_REF_NOT_FOUND", refused ++ detail outcome⟩
  else commandFailed repo outcome

/-- `worktree_add`: create a worktree checkout on a new branch. -/
def worktreeAdd (git : Git) (root : Option String) (repoPath worktreePath branch : String)
    (baseRef : Option String) : Except Failure GitWorktree := do
  let repo ← absolutePath "add a worktree to" repoPath root
  let target ← absolutePath "add a worktree to" worktreePath root
  requireRepository git repo
  let _ ← require (git repo (["worktree", "add", "-b", branch, target] ++ baseRef.toList))
    (classifyAdd repo target branch)
  describeWorktree git target

/-! ### Listing worktrees -/

/-- What `parse_worktree_list` holds between two lines. -/
structure Listing where
  worktrees : List GitWorktree
  path : Option String
  head : String
  branch : Option String
  deriving DecidableEq

/-- `flush`: the worktree whose lines were read is complete. -/
def Listing.flush (l : Listing) : Listing :=
  match l.path with
  | none => l
  | some current =>
    ⟨l.worktrees ++ [⟨current, l.branch, l.head, l.worktrees.isEmpty⟩], none, "", none⟩

/-- One line of a porcelain listing. -/
def Listing.line (l : Listing) (line : String) : Listing :=
  match stripPrefix "worktree " line with
  | some rest => { l.flush with path := some (trim rest) }
  | none =>
    if l.path = none then l
    else
      match stripPrefix "HEAD " line with
      | some rest => { l with head := trim rest }
      | none =>
        match stripPrefix "branch " line with
        | some rest => { l with branch := shortBranch (trim rest) }
        | none => if line = "detached" ∨ line = "bare" then { l with branch := none } else l

/-- `porcelain.split('\n')`. -/
def linesOf (porcelain : String) : List String :=
  (porcelain.toList.splitOn '\n').map String.ofList

/-- `parse_worktree_list`: `git worktree list --porcelain`, preserving git's order. -/
def parseWorktreeList (porcelain : String) : List GitWorktree :=
  ((linesOf porcelain).foldl Listing.line ⟨[], none, "", none⟩).flush.worktrees

/-- `worktree_list`. -/
def worktreeList (git : Git) (root : Option String) (repoPath : String) :
    Except Failure (List GitWorktree) := do
  let repo ← absolutePath "list the worktrees of" repoPath root
  requireRepository git repo
  let outcome ← require (git repo ["worktree", "list", "--porcelain"]) (commandFailed repo)
  pure (parseWorktreeList outcome.stdout)

example : parseWorktreeList
    "worktree /srv/app\nHEAD 1f\nbranch refs/heads/main\n\nworktree /srv/w\nHEAD 2e\ndetached\n" =
      [⟨"/srv/app", some "main", "1f", true⟩, ⟨"/srv/w", none, "2e", false⟩] := by decide +kernel

/-! ### A machine -/

/-- A machine as its daemon sees it: the root it was started with, the git and the files, all of
which have names. -/
structure Machine where
  root : Option String
  git : Git
  fs : FileSystem (List Char)
  named : ∀ place, (fs place).isSome = true → ∀ name ∈ place, IsName name

/-- What the manager reads of a worktree on the wire. -/
def wireOf (worktree : GitWorktree) : WireWorktree :=
  ⟨worktree.path, worktree.branch, worktree.main⟩

/-- What the daemon's answer is for the manager, which passes on the message of a failure. -/
def answerOf {α : Type} : Except Failure α → Except String α
  | .ok a => .ok a
  | .error failure => .error failure.message

/-- The world in which this machine answers for a node: the requests that creating and listing
worktrees send there. -/
def served (w : World) (node : String) (m : Machine) : World :=
  { w with
    resolve := fun nodeId path =>
      if nodeId = node then answerOf (resolve m.fs m.root path) else w.resolve nodeId path
    worktreeAdd := fun nodeId repoPath worktreePath branch baseRef =>
      if nodeId = node then
        answerOf ((worktreeAdd m.git m.root repoPath worktreePath branch baseRef).map wireOf)
      else w.worktreeAdd nodeId repoPath worktreePath branch baseRef
    worktreeList := fun nodeId repoPath =>
      if nodeId = node then
        answerOf ((worktreeList m.git m.root repoPath).map fun listed => listed.map wireOf)
      else w.worktreeList nodeId repoPath }

end RemoteWorkspace.Model.GitWorktrees
