import RemoteWorkspace.Computation.FrameWriter
import RemoteWorkspace.Computation.Machine
import RemoteWorkspace.Model.JsonRpc
import RemoteWorkspace.Model.Wire

/-!
# One connection of the daemon

`serve_connection` and its handshake (agent/src/server.rs:65-161), the writer task of the
connection (server.rs:163-177, agent/src/outbound.rs), and the messages it writes
(agent/src/jsonrpc.rs:68-99). One event is one piece of code between two awaits: the loop reads a
message or queues the answer to the handshake, a request's task gets the outcome of its call
or queues it, a process pushes a frame, or the writer moves.

The bytes that arrive are given; what a backend answers is part of the event. What the process
ranges and terminals do with their closing is not part of this: `closed` says that it was asked
for.
-/

set_option autoImplicit false

namespace RemoteWorkspace.Model.ServerConnection

open RemoteWorkspace.Computation RemoteWorkspace.Computation.JsonValue
open RemoteWorkspace.Model.Wire RemoteWorkspace.Model.JsonRpc
open RemoteWorkspace.Model.EnsureAgent (protocolVersion tokenMatches)

/-! ### Messages -/

/-- `response`: build a successful response. -/
def response (id result : JsonValue) : JsonValue :=
  .object [("id", id), ("jsonrpc", .string "2.0"), ("result", result)]

/-- `error_response`: build a failure response carrying the protocol's own error data. -/
def errorResponse (id : JsonValue) (failure : Failure) : JsonValue :=
  .object [
    ("error", .object [
      ("code", .ofInt failure.rpcCode),
      ("data", .object [("code", .string failure.code), ("message", .string failure.message)]),
      ("message", .string failure.message)]),
    ("id", id), ("jsonrpc", .string "2.0")]

/-- `notification`: build a notification. -/
def notification (method : String) (params : JsonValue) : JsonValue :=
  .object [("jsonrpc", .string "2.0"), ("method", .string method), ("params", params)]

/-- What answers a request (outbound.rs:46-50). -/
def answerTo (id : JsonValue) : Except Failure JsonValue → JsonValue
  | .ok result => response id result
  | .error failure => errorResponse id failure

/-- A request: a message with a method. -/
structure Request where
  id : JsonValue
  method : String
  params : JsonValue

/-- The request that a message is, if it has a method (server.rs:83-91). -/
def requestOf (message : JsonValue) : Option Request :=
  ((message.get "method").bind asStr).map fun method =>
    ⟨(message.get "id").getD .null, method, (message.get "params").getD .null⟩

/-! ### The handshake -/

/-- What every connection on a daemon shares, its backends apart, with what the daemon reports of
its machine. -/
structure Shared where
  token : String
  agentVersion : String
  platform : String
  arch : String
  homedir : String
  deriving DecidableEq

/-- A handshake that is refused. -/
def refusal (message : String) : Failure := ⟨"FS_IO_ERROR", message, invalidRequest⟩

/-- `handshake`: validate the first request on a connection. -/
def handshake (shared : Shared) (method : String) (params : JsonValue) : Except Failure Unit :=
  if method ≠ "node.hello" then .error (refusal "node.hello must be the first request")
  else do
    let hello ← readHello params
    if hello.protocol ≠ protocolVersion then
      .error (refusal ("protocol " ++ toString hello.protocol ++
        " is not supported; this daemon speaks " ++ toString protocolVersion))
    else if tokenMatches shared.token hello.token then .ok ()
    else .error (refusal "invalid token")

/-- `node_info`: the daemon's identity and capabilities for one successful handshake. -/
def nodeInfo (shared : Shared) : JsonValue :=
  .object [
    ("agentVersion", .string shared.agentVersion), ("arch", .string shared.arch),
    ("capability", .object [("pty", .bool true), ("ripgrep", .null), ("spill", .bool false)]),
    ("homedir", .string shared.homedir), ("node", .string "rust"),
    ("platform", .string shared.platform), ("protocol", .ofInt protocolVersion)]

/-! ### The connection -/

/-- `WRITE_BACKLOG_FRAMES`. -/
def writeBacklogFrames : ℕ := 1024

/-- `SP_PIPE_NOTIFICATION`. -/
def spPipeNotification : String := "sp.pipe"

/-- A frame that is queued: the answer to the handshake, the answer of a request's task, or a
pushed chunk. -/
inductive Frame where
  | greeting (id : JsonValue) (outcome : Except Failure JsonValue)
  | answer (task : ℕ) (id : JsonValue) (outcome : Except Failure JsonValue)
  | pipe (params : JsonValue)

/-- The message of a frame. -/
def Frame.message : Frame → JsonValue
  | .greeting id outcome => answerTo id outcome
  | .answer _ id outcome => answerTo id outcome
  | .pipe params => notification spPipeNotification params

/-- How far the task of a request is: its call is served, it has an outcome to answer with, it
queued the answer, or found nobody to write it. -/
inductive Serving where
  | dispatching
  | responding (outcome : Except Failure JsonValue)
  | answered (outcome : Except Failure JsonValue)
  | unheard (outcome : Except Failure JsonValue)

/-- The task of a request. -/
structure Task where
  request : Request
  state : Serving

/-- Where `serve_connection` is: in the loop, at the answer to a handshake, or past the loop. -/
inductive Main where
  | reading
  | greeting (id : JsonValue) (outcome : Except Failure JsonValue)
  | closing
  | stopping
  | joining
  | finished

/-- A connection: what is still to be read, the tasks of the requests, what goes out. `read` is
what was read of messages. -/
structure Connection where
  reader : PieceReader UInt8
  main : Main
  greeted : Bool
  closed : Bool
  tasks : List Task
  out : FrameWriter Frame UInt8
  read : List JsonValue

/-- An accepted socket, and the bytes that will arrive on it. -/
def Connection.accepted (incoming : PieceReader UInt8) : Connection :=
  ⟨incoming, .reading, false, false, [], .empty, []⟩

inductive Event where
  /-- The loop. -/
  | receive
  | greet
  | greetUnheard
  | close
  | stop
  | stopUnheard
  | join
  /-- The task of a request: its parameters are rejected, or a backend answers. -/
  | reject (task : ℕ)
  | serve (task : ℕ) (outcome : Except Failure JsonValue)
  | answer (task : ℕ)
  | answerUnheard (task : ℕ)
  /-- A process pushes what it wrote. -/
  | push (params : JsonValue)
  /-- The writer. -/
  | writer (move : FrameWriter.Move)

/-- A task moves. -/
def Connection.setTask (c : Connection) (i : ℕ) (state : Serving) : Connection :=
  { c with tasks := c.tasks.modify i fun task => { task with state } }

variable (serde : Serde JsonValue) (shared : Shared)

/-- The bytes of a frame. -/
def Frame.bytes (frame : Frame) : JsonRpc.Bytes :=
  JsonRpc.encode serde frame.message

/-- A message that arrived is served (server.rs:83-119). -/
def Connection.serveMessage (c : Connection) (message : JsonValue) : Connection :=
  match requestOf message with
  | none => c
  | some request =>
    if c.greeted then { c with tasks := c.tasks ++ [⟨request, .dispatching⟩] }
    else
      match handshake shared request.method request.params with
      | .ok () =>
        { c with greeted := true, main := .greeting request.id (.ok (nodeInfo shared)) }
      | .error failure => { c with main := .greeting request.id (.error failure) }

/-- One event; `none` when it cannot happen. -/
def step (c : Connection) : Event → Option Connection
  | .receive =>
    match c.main with
    | .reading =>
      match readMessage serde c.reader with
      | (.message message, rest) =>
        some (Connection.serveMessage shared
          { c with reader := rest, read := c.read ++ [message] } message)
      | (.ended, rest) => some { c with reader := rest, main := .closing }
      | (.failed _, rest) => some { c with reader := rest, main := .closing }
      -- the daemon aborts, and nothing more happens here
      | (.aborted, _) => none
    | _ => none
  | .greet =>
    match c.main with
    | .greeting id outcome =>
      if c.out.hasRoom writeBacklogFrames then
        some { c with
          out := c.out.push (.greeting id outcome)
          main := if c.greeted then .reading else .closing }
      else none
    | _ => none
  | .greetUnheard =>
    match c.main with
    | .greeting _ _ => if c.out.isGone then some { c with main := .closing } else none
    | _ => none
  | .close =>
    match c.main with
    | .closing => some { c with main := .stopping, closed := true }
    | _ => none
  | .stop =>
    match c.main with
    | .stopping =>
      if c.out.hasRoom writeBacklogFrames then some { c with main := .joining, out := c.out.stop }
      else none
    | _ => none
  | .stopUnheard =>
    match c.main with
    | .stopping => if c.out.isGone then some { c with main := .joining } else none
    | _ => none
  | .join =>
    match c.main with
    | .joining => if c.out.isGone then some { c with main := .finished } else none
    | _ => none
  | .reject i =>
    match c.tasks[i]? with
    | some ⟨request, .dispatching⟩ =>
      match readCall request.method request.params with
      | .error failure => some (c.setTask i (.responding (.error failure)))
      | .ok _ => none
    | _ => none
  | .serve i outcome =>
    match c.tasks[i]? with
    | some ⟨request, .dispatching⟩ =>
      match readCall request.method request.params with
      | .error _ => none
      | .ok _ => some (c.setTask i (.responding outcome))
    | _ => none
  | .answer i =>
    match c.tasks[i]? with
    | some ⟨request, .responding outcome⟩ =>
      if c.out.hasRoom writeBacklogFrames then
        some { c.setTask i (.answered outcome) with
          out := c.out.push (.answer i request.id outcome) }
      else none
    | _ => none
  | .answerUnheard i =>
    match c.tasks[i]? with
    | some ⟨_, .responding outcome⟩ =>
      if c.out.isGone then some (c.setTask i (.unheard outcome)) else none
    | _ => none
  | .push params =>
    -- only a process that was started here pushes; without room the frame is lost
    if c.tasks.any fun task => task.request.method = Method.spSpawn.name then
      if c.out.hasRoom writeBacklogFrames then some { c with out := c.out.push (.pipe params) }
      else some c
    else none
  | .writer move => (c.out.move (Frame.bytes serde) move).map fun out => { c with out }

/-- One connection as a machine. -/
def machine (incoming : PieceReader UInt8) : Machine Connection Event :=
  ⟨.accepted incoming, step serde shared⟩

end RemoteWorkspace.Model.ServerConnection
