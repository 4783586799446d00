import RemoteWorkspace.Model.Autoconnect
import RemoteWorkspace.Model.Management
import RemoteWorkspace.Model.NodeRequests

/-!
# Changing a machine while it is connected

The node registry (storage/nodes.ts) beside the connection manager and the passes of
`autoconnect`, with the requests of the management API that reach both (plugin/api.ts:513-612).
A request reads the record of its machine and acts on it without an `await` in between; the
write of the registry takes its time, and the record changes when it has returned. Nothing
that a changed record does reaches the connection manager.

The opener of a transport and the handshake answer with an object of their own each time.
Requests that store nothing and connect nothing are left out.
-/

set_option autoImplicit false

namespace RemoteWorkspace.Model.NodePatches

open RemoteWorkspace.Computation
open RemoteWorkspace.Model.Stores (NodeCall NodeDraft nodeEffect)
open RemoteWorkspace.Model.RepoRequests (ApiError)
open RemoteWorkspace.Model.Management (getNode localNode)
open RemoteWorkspace.Model.NodeRequests (SshField patchTransport)
open RemoteWorkspace.Model.NodeConnections (Connections AttemptPhase ConnectAnswer connectRecord)

/-! ### Records -/

/-- A stored transport, as the connection manager reads it. -/
def toTransport : Stores.NodeTransport → NodeTransport
  | .ssh target sshPort identityFile => .ssh target sshPort identityFile
  | .local => .local
  | .direct host port => .direct host port

/-- A stored record, as the connection manager reads it. -/
def toRecord (record : Stores.NodeRecord) : NodeRecord :=
  ⟨record.nodeId, record.title, toTransport record.transport, record.token⟩

/-- `list` of the node registry, as the connection manager reads it. -/
def listNodes (nodes : List Stores.NodeRecord) : List NodeRecord :=
  (localNode :: nodes).map toRecord

/-! ### Requests -/

/-- The members of the body of a `PATCH`, the token as a text. -/
structure PatchBody where
  title : Option String
  ssh : SshField
  token : Option String
  deriving DecidableEq

/-- The draft that `PATCH /nodes/:id` stores. -/
def patchDraft (record : Stores.NodeRecord) (body : PatchBody) : Except ApiError NodeDraft :=
  if record.transport = .local then
    .error ⟨400, "the local machine is built in and cannot be changed"⟩
  else do
    let transport ← patchTransport body.ssh record.transport
    pure ⟨some record.nodeId, some (body.title.getD record.title), transport,
      body.token.getD record.token⟩

/-- The registry, and the passes with the connection manager under them, whose `records` are
what the registry lists. -/
structure Host where
  nodes : WriteBack.State NodeCall (List Stores.NodeRecord)
  passes : Autoconnect.State

/-- The connection manager. -/
def Host.connections (s : Host) : Connections := s.passes.connections

inductive Event where
  /-- `POST /nodes` with a body that was accepted. -/
  | post (title : Option String) (transport : Stores.NodeTransport) (token : String)
      (generated stamp : String)
  | patch (nodeId : NodeId) (body : PatchBody) (stamp : String)
  | delete (nodeId : NodeId)
  /-- A write of the registry goes on. -/
  | write (e : WriteBack.Event NodeCall)
  | connect (nodeId : NodeId)
  | disconnect (nodeId : NodeId)
  /-- The connection manager or a pass goes on. -/
  | passes (e : Autoconnect.Event)
  deriving DecidableEq

/-- A write that goes on, and does not begin. -/
def goesOn : WriteBack.Event NodeCall → Bool
  | .begin _ => false
  | _ => true

/-- What no request asks for. -/
def ownEvent : Autoconnect.Event → Bool
  | .manager (.connect _) => false
  | .manager (.disconnect _) => false
  | .stored _ => false
  | _ => true

/-- The transport that an attempt holds, by identity. -/
def transportId : AttemptPhase → Option ℕ
  | .opening => none
  | .connecting opened => some opened.id
  | .ready opened _ => some opened.id
  | .failed _ => none

/-- The connection that an attempt made, by identity. -/
def liveId : AttemptPhase → Option ℕ
  | .ready _ live => some live.id
  | _ => none

/-- A dependency answers with an object that no attempt has. -/
def newObject (s : Connections) : Autoconnect.Event → Bool
  | .manager (.opened _ transport) =>
    s.attempts.all fun x => decide (transportId x.phase ≠ some transport.id)
  | .manager (.connected _ live) => s.attempts.all fun x => decide (liveId x.phase ≠ some live.id)
  | _ => true

/-- A call on the registry begins. -/
def Host.begin (s : Host) (call : NodeCall) : Option Host :=
  (WriteBack.step nodeEffect s.nodes (.begin call)).map fun nodes => { s with nodes := nodes }

/-- The passes go on. -/
def Host.pass (deps : Autoconnect.Deps) (s : Host) (e : Autoconnect.Event) : Option Host :=
  (Autoconnect.step deps s.passes e).map fun passes => { s with passes := passes }

/-- One uninterrupted piece of a request, a write, the connection manager or a pass. -/
def step (deps : Autoconnect.Deps) (s : Host) : Event → Option Host
  | .post title transport token generated stamp =>
    s.begin (.upsert ⟨none, title, transport, token⟩ generated stamp)
  | .patch nodeId body stamp =>
    match getNode s.nodes.memory nodeId with
    | none => some s
    | some record =>
      match patchDraft record body with
      | .error _ => some s
      | .ok draft => s.begin (.upsert draft "" stamp)
  | .delete nodeId =>
    match getNode s.nodes.memory nodeId with
    | none => some s
    | some record =>
      if record.transport = .local then some s
      else (s.pass deps (.manager (.disconnect nodeId))).bind fun s => s.begin (.remove nodeId)
  | .write e =>
    if goesOn e then
      (WriteBack.step nodeEffect s.nodes e).map fun nodes =>
        { nodes := nodes, passes := { s.passes with records := listNodes nodes.memory } }
    else none
  | .connect nodeId =>
    match getNode s.nodes.memory nodeId with
    | none => some s
    | some record =>
      if record.transport = .local then some s
      else s.pass deps (.manager (.connect (toRecord record)))
  | .disconnect nodeId =>
    match getNode s.nodes.memory nodeId with
    | none => some s
    | some record =>
      if record.transport = .local then some s else s.pass deps (.manager (.disconnect nodeId))
  | .passes e =>
    if ownEvent e ∧ newObject s.connections e then s.pass deps e else none

/-- A host whose registry holds these records, with the startup passes. -/
def Host.started (deps : Autoconnect.Deps) (nodes : List Stores.NodeRecord) : Host :=
  ⟨⟨nodes, nodes, []⟩, Autoconnect.startup deps (listNodes nodes)⟩

/-- The host as a machine. -/
def machine (deps : Autoconnect.Deps) (nodes : List Stores.NodeRecord) : Machine Host Event :=
  ⟨.started deps nodes, step deps⟩

/-- What `POST /nodes/:id/connect` is answered with when it is made now: the known info, the
promise of an attempt, or nothing of the manager. -/
def connectAnswer (s : Host) (nodeId : NodeId) : Option ConnectAnswer :=
  match getNode s.nodes.memory nodeId with
  | none => none
  | some record =>
    if record.transport = .local then none
    else some (connectRecord s.connections (toRecord record)).2

end RemoteWorkspace.Model.NodePatches
