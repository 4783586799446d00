import RemoteWorkspace.Model.TerminalReads

/-!
# The terminal tool and the sockets that come back

`execute` of the tool (tools/terminal.ts) and the `attach` and `open` frames of a socket
(terminal.ts), over the registry they share, as a labelled machine. A call of the tool runs
to its first await at once; a write settles when the provider took it, and a wait when its
check, its budget or its signal ends it. A check may run at any time here, where the registry
runs it when something happened to the terminal. Every call is recorded with the terminal it
acted on and what it was answered.
-/

set_option autoImplicit false

namespace RemoteWorkspace.Model

open RemoteWorkspace.Computation

namespace TerminalRegistry

/-! ### The tool -/

/-- `ACTIONS` (tools/terminal.ts:28). -/
inductive Action
  | list
  | read
  | send
  | keys
  | wait
  deriving DecidableEq

/-- How an action is written. -/
def Action.name : Action → String
  | .list => "list"
  | .read => "read"
  | .send => "send"
  | .keys => "keys"
  | .wait => "wait"

/-- What a call passes. -/
structure ToolArgs where
  action : Action
  terminal : Option String
  text : Option String
  enter : Option Bool
  keys : Option (List String)
  lines : Option JsNumber
  offset : Option JsNumber
  «match» : Option String
  regex : Option String
  timeoutMs : Option JsNumber
  deriving DecidableEq

/-- `PARAM_ACTIONS` (tools/terminal.ts:40-50), with whether a call passes each. -/
def paramActions (args : ToolArgs) : List (String × Bool × List Action) :=
  [("terminal", args.terminal.isSome, [.read, .send, .keys, .wait]),
    ("text", args.text.isSome, [.send]),
    ("enter", args.enter.isSome, [.send]),
    ("keys", args.keys.isSome, [.keys]),
    ("lines", args.lines.isSome, [.read]),
    ("offset", args.offset.isSome, [.read, .wait]),
    ("match", args.match.isSome, [.wait]),
    ("regex", args.regex.isSome, [.wait]),
    ("timeoutMs", args.timeoutMs.isSome, [.wait])]

/-- `rejectForeign` (tools/terminal.ts:180-188). -/
def rejectForeign (args : ToolArgs) : Except String Unit :=
  match (paramActions args).find? fun (_, present, allowed) =>
      present && !allowed.contains args.action with
  | none => .ok ()
  | some (name, _, allowed) =>
    .error ("\"" ++ name ++ "\" is valid only with action " ++
      " or ".intercalate (allowed.map Action.name) ++ ", not \"" ++ args.action.name ++ "\"")

/-- What a call is answered with (tools/terminal.ts:52-62). -/
inductive Value
  | terminals (views : List TerminalView)
  | read (page : TerminalRead)
  | wrote (id : String) (bytes keys : ℕ)
  | wait (outcome : TerminalWait)
  deriving DecidableEq

/-- How far a call got when it first had to wait: it is answered, the provider has to take
what it writes, or a wait goes on. -/
inductive Progress
  | listed (value : Value)
  | answered (entry : ℕ) (value : Value)
  | writing (entry : ℕ) (payload : String) (value : Value)
  | waiting (waiting : Waiting)

/-- What the registry and the tool are built with; `compile` is what a regular expression
does. -/
structure Env where
  options : Options
  compile : String → Except String Test

/-- `send`, `keys` and `wait` of `execute` past the ownership check, and `read`
(tools/terminal.ts:268-302). -/
def perform (env : Env) (s : Registry) (id : String) (args : ToolArgs) : Except String Progress :=
  match args.action with
  | .list => .ok (.listed (.terminals []))
  | .read => do
    let (n, page) ← read s id args.offset args.lines
    pure (.answered n (.read page))
  | .send =>
    match args.text with
    | none => .error "send requires \"text\""
    | some text => do
      let payload := if args.enter = some false then text else text ++ "\r"
      let n ← write s id
      pure (.writing n payload (.wrote id payload.utf8ByteSize 0))
  | .keys =>
    match args.keys with
    | none | some [] => .error "keys requires a non-empty \"keys\" array"
    | some names => do
      let (n, bytes) ← sendKeys s id names
      pure (.writing n bytes (.wrote id bytes.utf8ByteSize names.length))
  | .wait =>
    match args.match, args.regex with
    | none, none => .error "wait requires exactly one of \"match\" and \"regex\""
    | some _, some _ => .error "wait accepts only one of \"match\" and \"regex\""
    | _, _ => do
      let waiting ← wait env.compile s id ⟨args.offset, args.match, args.regex, args.timeoutMs⟩
      pure (.waiting waiting)

/-- `execute`, up to its await (tools/terminal.ts:256-303). -/
def execute (env : Env) (s : Registry) (caller : Option String) (args : ToolArgs) :
    Except String Progress :=
  match caller with
  | none => .error "the terminal tool requires an Agent Session"
  | some sessionId => do
    rejectForeign args
    if args.action = .list then pure (.listed (.terminals (listFor s sessionId)))
    else do
      let n ← requireOwned s sessionId args.terminal
      perform env s (s.entries n).id args

/-! ### A socket -/

/-- What a socket learns when it has a terminal, with the output it is replayed. -/
structure Ready where
  pid : ℕ
  cwd : String
  id : String
  label : String
  replay : Bytes
  deriving DecidableEq

/-- The `ready` frame of an entry. -/
def TerminalEntry.ready (entry : TerminalEntry) : Ready :=
  ⟨entry.handle.pid, entry.cwd, entry.id, entry.label, entry.buffer⟩

/-- `registry.attach` of an id that a frame may lack. -/
def attachId (s : Registry) (id : Option String) (sink : TerminalSink) :
    Except String (ℕ × Registry) :=
  match id with
  | none => .error "terminal \"undefined\" is not open"
  | some id => do
    let n ← entryOf s id
    let t ← attach s id sink
    pure (n, t)

/-- `reattach` (terminal.ts:177-201). -/
def reattach (s : Registry) (sessionId : String) (id : Option String) (sink : TerminalSink) :
    Except String (ℕ × Registry) := do
  let _ ← requireOwned s sessionId id
  attachId s id sink

/-! ### Calls and their records -/

/-- What a call of a Session was answered. -/
inductive Reply
  | begun
  | value (value : Value)
  | ready (frame : Ready)
  | refused (message : String)
  deriving DecidableEq

/-- One thing done for a Session: the terminal it acted on, and the answer. -/
structure Act where
  sessionId : String
  entry : Option ℕ
  reply : Reply
  deriving DecidableEq

/-- A call of the tool that is not answered. -/
inductive Task
  | writing (entry : ℕ) (value : Value)
  | waiting (waiting : Waiting)
  | settled

/-- A call of the tool and the Session it was made by. -/
structure Running where
  sessionId : String
  task : Task

/-- The registry, the calls of the tool, and what was done for whom. -/
structure Desk where
  registry : Registry
  running : List Running
  log : List Act

/-- Nothing was done. -/
def Desk.empty : Desk := ⟨.empty, [], []⟩

/-- What can happen next. -/
inductive DeskEvent
  /-- Something happens to the registry; a sink attaches through the frames below. -/
  | registry (e : Event)
  /-- The tool is called, with a signal that may be aborted. -/
  | execute (caller : Option String) (args : ToolArgs) (aborted : Option (Option String))
  /-- The provider took what call `c` writes, or refused it. -/
  | written (c : ℕ) (error : Option String)
  /-- Wait `c` looks at its terminal, runs out of its budget, or is aborted. -/
  | check (c : ℕ)
  | timeout (c : ℕ)
  | abort (c : ℕ) (reason : Option String)
  /-- A socket names a terminal it knows; one attaches to the entry that was just opened for
  it (terminal.ts:149-150). -/
  | reattach (sessionId : String) (id : Option String) (sink : TerminalSink)
  | attachOpened (n : ℕ) (sink : TerminalSink)

/-- What a wait that settles is answered. -/
def replyOf : Except String TerminalWait → Reply
  | .ok outcome => .value (.wait outcome)
  | .error error => .refused error

/-- What a call of the tool does at once: what becomes of it, the terminal it acts on, and
what it is answered. -/
def begin (env : Env) (s : Registry) (caller : Option String) (args : ToolArgs)
    (aborted : Option (Option String)) : Task × Option ℕ × Reply :=
  match execute env s caller args with
  | .error message => (.settled, none, .refused message)
  | .ok (.listed value) => (.settled, none, .value value)
  | .ok (.answered n value) => (.settled, some n, .value value)
  | .ok (.writing n _ value) => (.writing n value, some n, .begun)
  | .ok (.waiting w) =>
    match (s.entries w.entry).check w.start w.test aborted with
    | some outcome => (.settled, some w.entry, replyOf outcome)
    | none => (.waiting w, some w.entry, .begun)

/-- How a call that is not answered goes on: the terminal it acts on, and the answer. -/
def goOn (s : Registry) (task : Task) : DeskEvent → Option (ℕ × Reply)
  | .written _ error =>
    match task with
    | .writing n value => some (n, error.elim (.value value) .refused)
    | _ => none
  | .check _ =>
    match task with
    | .waiting w =>
      ((s.entries w.entry).check w.start w.test none).map fun outcome => (w.entry, replyOf outcome)
    | _ => none
  | .timeout _ =>
    match task with
    | .waiting w =>
      some (w.entry, .value (.wait ((s.entries w.entry).finish w.start false .timeout)))
    | _ => none
  | .abort _ reason =>
    match task with
    | .waiting w => some (w.entry, .refused (abortError reason))
    | _ => none
  | _ => none

/-- A frame that attaches a sink, answered. -/
def answerFrame (s : Registry) (sessionId : String) (attached : Except String (ℕ × Registry)) :
    Registry × Act :=
  match attached with
  | .error message => (s, ⟨sessionId, none, .refused message⟩)
  | .ok (n, t) => (t, ⟨sessionId, some n, .ready (t.entries n).ready⟩)

/-- The call an event goes on with. -/
def DeskEvent.call : DeskEvent → Option ℕ
  | .written c _ => some c
  | .check c => some c
  | .timeout c => some c
  | .abort c _ => some c
  | _ => none

/-- Something that is done for a Session, recorded. -/
def Desk.record (s : Desk) (act : Act) : Desk := { s with log := s.log ++ [act] }

/-- One event of the desk. -/
def deskStep (env : Env) (s : Desk) : DeskEvent → Option Desk
  | .registry (.attach _ _) => none
  | .registry e => (step env.options s.registry e).map fun r => { s with registry := r }
  | .execute caller args aborted =>
    let (task, entry, reply) := begin env s.registry caller args aborted
    some (Desk.record { s with running := s.running ++ [⟨caller.getD "", task⟩] }
      ⟨caller.getD "", entry, reply⟩)
  | .reattach sessionId id sink =>
    let (r, act) := answerFrame s.registry sessionId (reattach s.registry sessionId id sink)
    some (Desk.record { s with registry := r } act)
  | .attachOpened n sink =>
    if 1 ≤ n ∧ n ≤ s.registry.nextOrdinal then
      let entry := s.registry.entries n
      let (r, act) := answerFrame s.registry entry.sessionId (attachId s.registry entry.id sink)
      some (Desk.record { s with registry := r } act)
    else none
  | .written c error => settleCall s c (.written c error)
  | .check c => settleCall s c (.check c)
  | .timeout c => settleCall s c (.timeout c)
  | .abort c reason => settleCall s c (.abort c reason)
where
  /-- A call that goes on, and is answered. -/
  settleCall (s : Desk) (c : ℕ) (e : DeskEvent) : Option Desk :=
    match s.running[c]? with
    | none => none
    | some call =>
      (goOn s.registry call.task e).map fun (n, reply) =>
        Desk.record { s with running := s.running.set c ⟨call.sessionId, .settled⟩ }
          ⟨call.sessionId, some n, reply⟩

/-- The desk as a machine. -/
def desk (env : Env) : Machine Desk DeskEvent := ⟨.empty, deskStep env⟩

end TerminalRegistry

end RemoteWorkspace.Model
