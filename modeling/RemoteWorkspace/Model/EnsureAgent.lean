import Mathlib.Data.Int.Notation
import Mathlib.Data.List.Nodup
import Mathlib.Tactic.Common

/-!
# Bringing an agent up on a machine

`ensureAgent` (remote/agent/install.ts:390-491) on a machine in any state, and the parts of
the agent that decide whom it serves: the token it reads when it starts
(agent/src/main.rs:237-255) and the handshake (server.rs:134-161).

What the run does not decide comes from a `Course`: which commands fail, whether a `kill`
ends its process, which pid and port the kernel gives, and which agent's document the state
file holds at each poll.
-/

set_option autoImplicit false

namespace RemoteWorkspace.Model.EnsureAgent

/-- `LAUNCH_RECIPE_VERSION`. -/
def launchRecipeVersion : ℕ := 2

/-- `PROTOCOL_VERSION`. -/
def protocolVersion : ℤ := 2

/-! ### The agent -/

/-- An agent that listens: its process, its build, the token it read, the recipe it was
started with. -/
structure Agent where
  pid : ℕ
  port : ℕ
  build : String
  token : String
  recipe : ℕ
  deriving DecidableEq

/-- `char::is_whitespace`. -/
def isWhitespace (c : Char) : Bool :=
  let n := c.toNat
  (9 ≤ n && n ≤ 13) || n = 0x20 || n = 0x85 || n = 0xA0 || n = 0x1680 ||
    (0x2000 ≤ n && n ≤ 0x200A) || n = 0x2028 || n = 0x2029 || n = 0x202F || n = 0x205F ||
    n = 0x3000

/-- `str::trim`. -/
def trim (text : String) : String :=
  String.ofList ((text.toList.dropWhile isWhitespace).reverse.dropWhile isWhitespace).reverse

/-- Read the shared secret, rejecting an empty file. -/
def readToken (file : Option String) : Option String :=
  match file with
  | none => none
  | some text => if trim text = "" then none else some (trim text)

/-- Compare the presented token with the configured one in constant time. -/
def tokenMatches (expected presented : String) : Bool :=
  let left := expected.toByteArray.data.toList
  let right := presented.toByteArray.data.toList
  if left.length ≠ right.length then false
  else (left.zip right).foldl (fun diff p => diff ||| (p.1 ^^^ p.2)) (0 : UInt8) = 0

/-- Validate the first request on a connection. -/
def handshake (agent : Agent) (method : String) (protocol : ℤ) (token : String) :
    Except String Unit :=
  if method ≠ "node.hello" then .error "node.hello must be the first request"
  else if protocol ≠ protocolVersion then
    .error ("protocol " ++ toString protocol ++ " is not supported; this daemon speaks " ++
      toString protocolVersion)
  else if tokenMatches agent.token token then .ok ()
  else .error "invalid token"

/-! ### The machine -/

/-- A JSON document with the members `parseState` looks at; `none` for one that is missing or
of another type. -/
structure StateDocument where
  pid : Option ℤ
  port : Option ℤ
  version : Option String
  deriving DecidableEq

/-- The subset of the agent's published state this module reads. -/
structure AgentState where
  pid : ℕ
  port : ℕ
  version : String
  deriving DecidableEq

/-- Parse the agent's state file. -/
def parseState (file : Option StateDocument) : Option AgentState :=
  match file with
  | some ⟨some pid, some port, some version⟩ =>
    if version = "" then none
    else if port ≤ 0 then none
    else if pid ≤ 0 then none
    else some ⟨pid.toNat, port.toNat, version⟩
  | _ => none

/-- What an agent publishes. -/
def document (agent : Agent) : StateDocument :=
  ⟨some agent.pid, some agent.port, some agent.build⟩

/-- A machine: the agents that run on it, the other processes, and the files of
`~/.dsh/remote-agent`. `binary` is the build of the file at the agent's path, when it can be
executed; the markers are what the plugin reads in them. Two agents listen on two ports. -/
structure Remote where
  agents : List Agent
  others : List ℕ
  state : Option StateDocument
  token : Option String
  binary : Option String
  installed : Option String
  launch : Option ℕ
  distinct : (agents.map Agent.port).Nodup
  deriving DecidableEq

/-- The agent that serves a port. -/
def Remote.serving (m : Remote) (port : ℕ) : Option Agent :=
  m.agents.find? fun agent => agent.port = port

/-- `kill -0`. -/
def Remote.isAlive (m : Remote) (pid : ℕ) : Bool :=
  m.agents.any (fun agent => agent.pid = pid) || m.others.contains pid

/-- The commands of a run. -/
inductive Command where
  | uname
  | readState
  | isAlive
  | readLaunch
  | ensureDir
  | readInstalled
  | upload
  | writeInstalled
  | writeToken
  | kill
  | start
  | writeLaunch
  deriving DecidableEq

/-- What the run meets on its way. `polls` is how many times the state file is read before
the deadline; at a poll `published` is the position of the agent whose document the file
holds, if one published since the run began. -/
structure Course where
  fails : Command → Bool
  resolveFails : Bool
  killEnds : Bool
  pid : ℕ
  port : ℕ
  polls : ℕ
  pollFails : ℕ → Bool
  published : ℕ → Option ℕ

/-- Why a run rejects: a command failed, the build could not be resolved, or no agent
published a port in time. -/
inductive Failure where
  | command (c : Command)
  | resolve
  | noPort
  deriving DecidableEq

/-- A started agent, and where a forward can reach it. -/
structure AgentEndpoint where
  port : ℕ
  version : String
  reused : Bool
  deriving DecidableEq

/-- The pid of the agent that the state file names, when it is alive. -/
def runningPid (course : Course) (m : Remote) : Option ℕ :=
  match parseState m.state with
  | some state =>
    if course.fails .isAlive = false ∧ m.isAlive state.pid = true then some state.pid else none
  | none => none

/-- Whether the machine records the current launch recipe. -/
def launchRecipeMatches (course : Course) (m : Remote) : Bool :=
  course.fails .readLaunch = false && m.launch = some launchRecipeVersion

/-- The state of the agent that is left running, if the run reuses one. -/
def reused (course : Course) (m : Remote) (version : String) : Option AgentState :=
  match parseState m.state with
  | some state =>
    if runningPid course m = some state.pid ∧ state.version = version ∧
        launchRecipeMatches course m = true then some state
    else none
  | none => none

/-- Upload the build and record it, unless the marker names it. -/
def installBinary (course : Course) (version : String) (m : Remote) : Except Failure Remote :=
  if course.fails .readInstalled = false ∧ m.installed = some version then .ok m
  else if course.resolveFails then .error .resolve
  else if course.fails .upload then .error (.command .upload)
  else if course.fails .writeInstalled then .error (.command .writeInstalled)
  else .ok { m with binary := some version, installed := some version }

/-- Write the token. -/
def writeToken (course : Course) (token : String) (m : Remote) : Except Failure Remote :=
  if course.fails .writeToken then .error (.command .writeToken)
  else .ok { m with token := some token }

/-- Kill the process that is being replaced, best effort. -/
def killRunning (course : Course) (running : Option ℕ) (m : Remote) : Remote :=
  match running with
  | some pid =>
    if course.fails .kill = false ∧ course.killEnds = true then
      { m with
        agents := m.agents.filter fun agent => agent.pid ≠ pid
        others := m.others.filter (· ≠ pid)
        distinct := m.distinct.sublist (List.filter_sublist.map _) }
    else m
  | none => m

/-- Start the agent through the login shell; without a build it can execute, a token or a free
port none comes up. -/
def startAgent (course : Course) (m : Remote) : Except Failure Remote :=
  if course.fails .start then .error (.command .start)
  else
    match m.binary, readToken m.token with
    | some build, some token =>
      if h : course.port ∈ m.agents.map Agent.port then .ok m
      else .ok { m with
        agents := m.agents ++ [⟨course.pid, course.port, build, token, launchRecipeVersion⟩]
        distinct := by simpa using List.Nodup.concat h m.distinct }
    | _, _ => .ok m

/-- The state file at a poll. -/
def stateAt (course : Course) (m : Remote) (poll : ℕ) : Option AgentState :=
  if course.pollFails poll then none
  else
    match (course.published poll).bind (m.agents[·]?) with
    | some agent => parseState (some (document agent))
    | none => parseState m.state

/-- Whether a poll ends the wait: the state names the version, a port, and another pid than
the one being replaced. -/
def accepts (version : String) (replacedPid : Option ℕ) (state : AgentState) : Bool :=
  state.version = version && 0 < state.port && some state.pid ≠ replacedPid

/-- Poll the state file, `n` more times from a poll on. -/
def awaitPublished (course : Course) (m : Remote) (version : String)
    (replacedPid : Option ℕ) : ℕ → ℕ → Option AgentState
  | 0, _ => none
  | n + 1, poll =>
    match stateAt course m poll with
    | some state =>
      if accepts version replacedPid state then some state
      else awaitPublished course m version replacedPid n (poll + 1)
    | none => awaitPublished course m version replacedPid n (poll + 1)

/-- Everything from the directory to the start of the agent. -/
def install (course : Course) (m : Remote) (token version : String) : Except Failure Remote :=
  if course.fails .ensureDir then .error (.command .ensureDir)
  else do
    let running := runningPid course m
    let m ← installBinary course version m
    let m ← writeToken course token m
    startAgent course (killRunning course running m)

/-- Ensure the agent is installed and running on one machine. -/
def ensureAgent (course : Course) (m : Remote) (token version : String) :
    Except Failure (AgentEndpoint × Remote) :=
  if course.fails .uname then .error (.command .uname)
  else if course.fails .readState then .error (.command .readState)
  else
    match reused course m version with
    | some state => .ok (⟨state.port, version, true⟩, m)
    | none => do
      let replacedPid := (parseState m.state).map AgentState.pid
      let m ← install course m token version
      match awaitPublished course m version replacedPid course.polls 0 with
      | some published =>
        if course.fails .writeLaunch then .error (.command .writeLaunch)
        else .ok (⟨published.port, version, false⟩,
          { m with launch := some launchRecipeVersion })
      | none => .error .noPort

end RemoteWorkspace.Model.EnsureAgent
