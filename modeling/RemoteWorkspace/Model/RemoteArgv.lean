import Mathlib.Data.List.DropRight
import RemoteWorkspace.Model.Anchors

/-!
# The argv of a remote spawn

What `createRoutingSubprocessRuntime` (plugin/routing/subprocess.ts) makes of the argv of a spawn
before a node gets it: a packaged `rg` becomes the configured one, a host sandbox is dropped, a
PTC program runs on the node's own program host, and a host executable that the node does not
have becomes its bare name.
-/

set_option autoImplicit false

namespace RemoteWorkspace.Model.RemoteArgv

open RemoteWorkspace.Model.Anchors (basename)

/-! ### The rewrites -/

/-- `HOST_SANDBOX_RUNNERS`. -/
def hostSandboxRunners : List String := ["sandbox-exec", "bwrap", "landlock-run"]

/-- `stripHostSandbox`: drop a host sandbox wrapper from one remote spawn's argv. -/
def stripHostSandbox (argv : List String) : List String :=
  match argv with
  | [] => argv
  | head :: _ =>
    if basename head ∈ hostSandboxRunners then
      match argv.idxOf? "--" with
      | some separator =>
        if separator + 1 < argv.length then argv.drop (separator + 1) else argv
      | none => argv
    else argv

/-- `path.slice(path.lastIndexOf('/') + 1)`. -/
def fileName (path : String) : String :=
  String.ofList (path.toList.rtakeWhile fun c => decide (c ≠ '/'))

/-- `/^[1-9][0-9]*$/`. -/
def isLimit (text : String) : Bool :=
  match text.toList with
  | [] => false
  | c :: rest => c.isDigit && decide (c ≠ '0') && rest.all Char.isDigit

/-- `PTC_BOOTSTRAP`. -/
def ptcBootstrap : String := "process.js"

/-- `PTC_PACKAGE_SEGMENT`. -/
def ptcPackageSegment : String := "/dsh-ptc-runtime-node/"

/-- `ptcBootstrapIndex`: the index of the PTC bootstrap in one argv, when that is what this is. -/
def ptcBootstrapIndex (argv : List String) : Option ℕ :=
  if argv.length < 3 then none
  else
    match argv[argv.length - 1]?, argv[argv.length - 2]? with
    | some limit, some bootstrap =>
      if isLimit limit = false then none
      else if ¬ ptcPackageSegment.toList <:+: bootstrap.toList then none
      else if fileName bootstrap ≠ ptcBootstrap then none
      else some (argv.length - 2)
    | _, _ => none

/-- `SYSTEM_EXECUTABLE_PREFIXES`: directories whose executables every POSIX node already has. -/
def systemExecutablePrefixes : List String :=
  ["/bin/", "/sbin/", "/usr/bin/", "/usr/sbin/", "/usr/local/bin/", "/usr/local/sbin/"]

/-- What the seam asks of a node and its deployment: whether the node has an entry at a path, its
program host, and the configured ripgrep. -/
structure Deps where
  stat : String → Except String Bool
  ptcHost : Except String String
  remoteRipgrep : Option String

/-- `missingOnNode`: whether the node has no readable entry at one absolute path; a path it
refuses to describe is not one to rewrite blindly. -/
def missingOnNode (deps : Deps) (path : String) : Bool :=
  match deps.stat path with
  | .ok found => !found
  | .error _ => false

/-- The paths that are replaced by their names: those of the host's own executables that the node
does not have. -/
def isHostOnly (deps : Deps) (head : String) : Bool :=
  decide ("/".toList <+: head.toList) &&
    !(systemExecutablePrefixes.any fun start => decide (start.toList <+: head.toList)) &&
      missingOnNode deps head

/-- What `translateRemoteArgv` makes of an argv without a host sandbox. -/
def translateUnwrapped (deps : Deps) (translated : List String) : Except String (List String) :=
  match ptcBootstrapIndex translated with
  | some bootstrap => do
    let host ← deps.ptcHost
    -- the heap ceiling and the frame limit survive
    pure (host :: (translated.take bootstrap).drop 1 ++ [translated.getD (bootstrap + 1) ""])
  | none =>
    match translated with
    | [] => .ok translated
    | head :: rest =>
      if isHostOnly deps head then .ok (basename head :: rest) else .ok translated

/-- `translateRemoteArgv`: rewrite one remote child's argv so every path names something the node
has. -/
def translateRemoteArgv (deps : Deps) (argv : List String) : Except String (List String) :=
  translateUnwrapped deps (stripHostSandbox argv)

/-- `rewriteExecutable`: rewrite a host-only executable path into something the node can run. -/
def rewriteExecutable (argv : List String) (remoteRipgrep : String) : List String :=
  match argv with
  | [] => argv
  | head :: rest =>
    if ¬ "/".toList <+: head.toList then argv
    else if fileName head ≠ "rg" then argv
    else remoteRipgrep :: rest

/-- The argv that `spawn` sends to a node, or why it sends none. -/
def sentArgv (deps : Deps) (argv : List String) : Except String (List String) :=
  translateRemoteArgv deps (rewriteExecutable argv (deps.remoteRipgrep.getD "rg"))

example : sentArgv ⟨fun _ => .ok false, .ok "/h", none⟩
    ["sandbox-exec", "-p", "(version 1)", "--", "/opt/node", "--", "x"] =
      .ok ["node", "--", "x"] := by decide +kernel

example : sentArgv ⟨fun _ => .ok false, .ok "/h", none⟩
    ["/usr/bin/node", "--max-old-space-size=512", "/x/dsh-ptc-runtime-node/process.js", "134"] =
      .ok ["/h", "--max-old-space-size=512", "134"] := by decide +kernel

end RemoteWorkspace.Model.RemoteArgv
