import RemoteWorkspace.Computation.Machine
import RemoteWorkspace.Model.Stores

/-!
# One forward from a local port to a machine

`openTunnel` (remote/ssh.ts:386-416) with `allocateLocalPort`, `probePort` and
`waitForForward`, on a host where other processes listen on loopback ports and release them
at any time.

A port has one listener at most, and a connection to it is taken by that listener. `ssh` runs
with `ExitOnForwardFailure=yes`: it listens only while its forward is established, exits when
it cannot bind, and may exit for any reason of its own. The system's steps come between any
two of the program's, which wait for nothing but the clock and the connections they name.
Sending `SIGTERM` is the whole of `close`; what the forward carries is not part of this model.
-/

set_option autoImplicit false

namespace RemoteWorkspace.Model

open RemoteWorkspace.Computation

namespace Tunnel

open Stores (trim)

/-- Whether a text matches a pattern of lower-case letters and spaces, in either case. -/
def test (pattern text : String) : Bool :=
  decide (pattern.toList <:+: text.toList.map Char.toLower)

/-- `sshFailure`: what `ssh` wrote, as a reason an operator can act on (ssh.ts:121-140). -/
def sshFailure (target stderr fallback : String) : String :=
  let text := trim stderr
  let suffix := if text = "" then "" else ": " ++ text
  if test "host key verification failed" text then
    "the SSH host key for \"" ++ target ++ "\" is not known yet; run `ssh " ++ target ++
      "` once to verify and accept it" ++ suffix
  else if test "administratively prohibited" text then
    "\"" ++ target ++ "\" refuses TCP forwarding; its sshd needs AllowTcpForwarding yes" ++ suffix
  else if test "permission denied" text ∨ test "no supported authentication" text then
    "\"" ++ target ++ "\" rejected the key or agent; check the SSH key and ssh-agent" ++ suffix
  else if test "could not resolve hostname" text then
    "\"" ++ target ++ "\" cannot be resolved; check the SSH destination" ++ suffix
  else if test "connection refused" text ∨ test "connection timed out" text ∨
      test "no route to host" text then
    "\"" ++ target ++ "\" is unreachable over SSH" ++ suffix
  else fallback ++ suffix

/-- `tunnelFailure`. -/
def tunnelFailure (target stderr : String) : String :=
  sshFailure target stderr ("could not open an SSH forward to \"" ++ target ++ "\"")

def notAccepting (target : String) (timeoutMs : ℕ) : String :=
  "the SSH forward to \"" ++ target ++ "\" did not start accepting connections within " ++
    toString timeoutMs ++ "ms"

/-- What one forward is opened with: the destination, the budget and the gap between probes. -/
structure Spec where
  target : String
  readyTimeoutMs : ℕ
  readyPollMs : ℕ
  deriving DecidableEq

/-- Who listens on a loopback port: the server that found it free, the `ssh` of this forward, or
any other process. -/
inductive Owner
  | probe
  | ssh
  | foreign
  deriving DecidableEq

/-- The `ssh` process: not started, before its forward, with it, or gone. -/
inductive Ssh
  | unstarted
  | connecting (port : ℕ)
  | forwarding (port : ℕ)
  | gone
  deriving DecidableEq

/-- What `listen(0)` ends with: an error, a server without a port, or a free port. -/
inductive Listening
  | failed (error : String)
  | portless
  | on (port : ℕ)
  deriving DecidableEq

/-- How far the call is. `probing` waits for a connection, `probed` has its outcome, `polling`
waits for the next probe. -/
inductive Phase
  | allocating
  | releasing (port : ℕ)
  | allocated (port : ℕ)
  | probing (port : ℕ)
  | probed (port : ℕ) (accepted : Bool)
  | polling (port : ℕ) (wakeAt : ℕ)
  | resolved (port : ℕ)
  | rejected (message : String)
  deriving DecidableEq

/-- One call of `openTunnel` and the host it runs on: the listener of each loopback port, the
time, the `ssh` process and what was read of its stderr, whether the wait has noticed its end,
and whether the call has killed it. -/
structure Opening where
  phase : Phase
  listener : ℕ → Option Owner
  now : ℕ
  deadline : ℕ
  ssh : Ssh
  stderr : String
  exited : Bool
  killed : Bool

/-- A call that was just made, on a host where other processes listen on the ports `taken`. -/
def Opening.called (taken : ℕ → Bool) : Opening where
  phase := .allocating
  listener port := if taken port then some .foreign else none
  now := 0
  deadline := 0
  ssh := .unstarted
  stderr := ""
  exited := false
  killed := false

def Opening.listens (s : Opening) (port : ℕ) (owner : Option Owner) : Opening :=
  { s with listener := Function.update s.listener port owner }

/-- The `catch` of `openTunnel`: kill the process and say what it wrote, when it wrote. -/
def Opening.fails (spec : Spec) (s : Opening) (message : String) : Opening :=
  { s with
    killed := true
    phase := .rejected
      (if s.stderr ≠ "" then tunnelFailure spec.target s.stderr else message) }

inductive Event
  /-- The steps of the call. -/
  | listening (answer : Listening)
  | released
  | start
  | accepted
  | refused
  | check
  | woken
  | resolve
  /-- The `exited` promise of the process settles. -/
  | noticeExit
  /-- What `ssh` does. -/
  | sshBinds
  | sshExits
  | sshWrites (text : String)
  /-- What other processes and the clock do. -/
  | foreignBinds (port : ℕ)
  | foreignReleases (port : ℕ)
  | pass (ms : ℕ)
  deriving DecidableEq

/-- One event; `none` when it cannot happen. -/
def step (spec : Spec) (s : Opening) : Event → Option Opening
  | .listening answer =>
    if s.phase = .allocating then
      match answer with
      | .failed error => some { s with phase := .rejected error }
      | .portless =>
        some { s with phase := .rejected "could not determine a free local port" }
      | .on port =>
        if s.listener port = none then
          some { s.listens port (some .probe) with phase := .releasing port }
        else none
    else none
  | .released =>
    match s.phase with
    | .releasing port => some { s.listens port none with phase := .allocated port }
    | _ => none
  | .start =>
    match s.phase with
    | .allocated port =>
      some { s with
        phase := .probing port, ssh := .connecting port, deadline := s.now + spec.readyTimeoutMs }
    | _ => none
  | .accepted =>
    match s.phase with
    | .probing port =>
      if s.listener port = none then none else some { s with phase := .probed port true }
    | _ => none
  | .refused =>
    match s.phase with
    | .probing port => some { s with phase := .probed port false }
    | _ => none
  | .check =>
    match s.phase with
    | .probed port false =>
      if s.exited then some (s.fails spec (tunnelFailure spec.target s.stderr))
      else if s.deadline ≤ s.now then
        some (s.fails spec (notAccepting spec.target spec.readyTimeoutMs))
      else some { s with phase := .polling port (s.now + spec.readyPollMs) }
    | _ => none
  | .woken =>
    match s.phase with
    | .polling port wakeAt =>
      if wakeAt ≤ s.now then some { s with phase := .probing port } else none
    | _ => none
  | .resolve =>
    match s.phase with
    -- neither the process nor its end is looked at
    | .probed port true => some { s with phase := .resolved port }
    | _ => none
  | .noticeExit => if s.ssh = .gone then some { s with exited := true } else none
  | .sshBinds =>
    match s.ssh with
    | .connecting port =>
      if s.listener port = none then
        some { s.listens port (some .ssh) with ssh := .forwarding port }
      else some { s with ssh := .gone }
    | _ => none
  | .sshExits =>
    match s.ssh with
    | .connecting _ => some { s with ssh := .gone }
    | .forwarding port => some { s.listens port none with ssh := .gone }
    | _ => none
  | .sshWrites text =>
    if s.ssh = .unstarted then none else some { s with stderr := s.stderr ++ text }
  | .foreignBinds port =>
    if s.listener port = none then some (s.listens port (some .foreign)) else none
  | .foreignReleases port =>
    if s.listener port = some .foreign then some (s.listens port none) else none
  | .pass ms => some { s with now := s.now + ms }

/-- One call as a machine. -/
def machine (spec : Spec) (taken : ℕ → Bool) : Machine Opening Event :=
  ⟨.called taken, step spec⟩

end Tunnel

end RemoteWorkspace.Model
