import RemoteWorkspace.Computation.Literal
import RemoteWorkspace.Model.GitWorktrees

/-!
# This host's git

`listWorktrees` (src/local/git.ts), over what git answers on this host, and the porcelain listing
that git prints: both it and the daemon read their worktrees from one.
-/

set_option autoImplicit false

namespace RemoteWorkspace.Model.LocalGit

open RemoteWorkspace.Computation.Literal
open RemoteWorkspace.Model.GitWorktrees (stripPrefix linesOf)

/-! ### Reading a listing -/

/-- `LocalWorktree`: one checkout git knows about. -/
structure LocalWorktree where
  path : String
  branch : Option String
  main : Bool
  deriving DecidableEq

/-- `ref.replace(/^refs\/heads\//, '')`. -/
def shortRef (ref : String) : String := (stripPrefix "refs/heads/" ref).getD ref

/-- `lines.find(line => line.startsWith(start))?.slice(start.length)`. -/
def valueOf (start : String) (lines : List String) : Option String :=
  lines.findSome? (stripPrefix start)

/-- One block of a porcelain listing. -/
def readBlock (found : List LocalWorktree) (block : String) : List LocalWorktree :=
  let lines := (linesOf block).filter fun line => line ≠ ""
  match valueOf "worktree " lines with
  | none => found
  | some path =>
    -- a detached entry has no `branch` line; a bare one has no work tree
    found ++ [⟨path, (valueOf "branch " lines).map shortRef, found.isEmpty⟩]

/-- `porcelain.split('\n\n')`. -/
def blocksOf (porcelain : String) : List String :=
  (pieces ['\n', '\n'] porcelain.toList).map String.ofList

/-- What `listWorktrees` finds in a porcelain listing. -/
def readListing (porcelain : String) : List LocalWorktree :=
  (blocksOf porcelain).foldl readBlock []

/-- `listWorktrees`: every checkout git knows for a repository. -/
def listWorktrees {ε : Type} (git : (repoPath : String) → (args : List String) → Except ε String)
    (repoPath : String) : Except ε (List LocalWorktree) := do
  let porcelain ← git repoPath ["worktree", "list", "--porcelain"]
  pure (readListing porcelain)

/-! ### What git prints -/

/-- A text on one line. -/
abbrev OneLine := {text : String // '\n' ∉ text.toList}

/-- What a checkout has checked out. -/
inductive Head where
  | bare
  | detached (head : OneLine)
  | attached (head branch : OneLine)

/-- One worktree of a repository: where it is, what it has checked out, and why it is locked or
may be pruned. A lock may have the empty reason, and a reason with a line break in it is quoted
onto one line. -/
structure Checkout where
  path : OneLine
  head : Head
  locked : Option OneLine
  prunable : Option OneLine

/-- The lines about a head. -/
def Head.lines : Head → List String
  | .bare => ["bare"]
  | .detached head => ["HEAD " ++ head, "detached"]
  | .attached head branch => ["HEAD " ++ head, "branch refs/heads/" ++ branch]

/-- The branch that is checked out. -/
def Head.branch : Head → Option String
  | .attached _ branch => some branch
  | _ => none

/-- The lines about a lock and about pruning. -/
def Checkout.reasons (c : Checkout) : List String :=
  c.locked.toList.map (fun reason : OneLine =>
      if reason.val = "" then "locked" else "locked " ++ reason) ++
    c.prunable.toList.map fun reason : OneLine => "prunable " ++ reason

/-- The lines about a worktree. -/
def Checkout.lines (c : Checkout) : List String :=
  ("worktree " ++ c.path) :: (c.head.lines ++ c.reasons)

/-- `git worktree list --porcelain`: the lines about each worktree, and an empty one. -/
def printed (checkouts : List Checkout) : String :=
  String.join (checkouts.map fun c => String.join (c.lines.map (· ++ "\n")) ++ "\n")

example : readListing
    "worktree /srv/app\nHEAD 1f\nbranch refs/heads/main\n\nworktree /srv/w \nHEAD 2e\ndetached\n\n" =
      [⟨"/srv/app", some "main", true⟩, ⟨"/srv/w ", none, false⟩] := by decide +kernel

end RemoteWorkspace.Model.LocalGit
