import RemoteWorkspace.Computation.Utf16
import RemoteWorkspace.Model.EnsureAgent
import RemoteWorkspace.Model.RepoRequests

/-!
# Storing a machine through the management API

`POST /nodes` and `PATCH /nodes/:id` (plugin/api.ts), up to the draft that the registry stores,
and the way of the token from there: written to the token file of a machine and read by the
agent that starts with it, and sent by the host in the first request on a connection. A string
of the language is a list of UTF-16 code units; the token is kept as one.
-/

set_option autoImplicit false

namespace RemoteWorkspace.Model.NodeRequests

open RemoteWorkspace.Computation
open RemoteWorkspace.Model.Stores RemoteWorkspace.Model.RepoRequests
open RemoteWorkspace.Model.EnsureAgent (readToken)

/-- A string of the language. -/
abbrev JsString := List UInt16

/-! ### Requests -/

/-- A number member of a JSON object, as far as a port is read from it. -/
inductive PortField where
  | absent
  | integer (value : ℤ)
  | other
  deriving DecidableEq

/-- The members that a destination is read from; `none` for one that is missing or no string. -/
structure SshBody where
  target : Option String
  port : PortField
  identityFile : Option String
  deriving DecidableEq

/-- The `ssh` member of a body. -/
inductive SshField where
  | absent
  | other
  | object (ssh : SshBody)
  deriving DecidableEq

/-- The members of a parsed body; `none` for one that is missing or no string. -/
structure NodeBody where
  title : Option String
  ssh : SshField
  token : Option JsString
  deriving DecidableEq

/-- A configured machine, as a request reads it. -/
structure NodeView where
  nodeId : String
  title : String
  transport : Stores.NodeTransport
  token : JsString
  deriving DecidableEq

/-- What a request stores. -/
structure Draft where
  nodeId : Option String
  title : Option String
  transport : Stores.NodeTransport
  token : JsString
  deriving DecidableEq

/-- A code unit that `trim` takes away: white space and line ends of the language. -/
def isSpaceUnit (u : UInt16) : Bool := isSpace (Char.ofNat u.toNat)

/-- `trim`, on code units. -/
def trimUnits (text : JsString) : JsString :=
  (text.dropWhile isSpaceUnit).rdropWhile isSpaceUnit

/-- `requireString`, of a member that was looked up. -/
def requireString (key : String) (field : Option JsString) : Except ApiError JsString :=
  match field.map trimUnits with
  | none => .error ⟨400, "\"" ++ key ++ "\" is required and must be a non-empty string"⟩
  | some value =>
    if value = [] then
      .error ⟨400, "\"" ++ key ++ "\" is required and must be a non-empty string"⟩
    else .ok value

/-- The port of a destination. -/
def requirePort (field : PortField) : Except ApiError (Option ℕ) :=
  match field with
  | .absent => .ok none
  | .integer value =>
    if 1 ≤ value ∧ value ≤ 65535 then .ok (some value.toNat)
    else .error ⟨400, "\"ssh.port\" must be between 1 and 65535"⟩
  | .other => .error ⟨400, "\"ssh.port\" must be between 1 and 65535"⟩

/-- `requireTransport`. -/
def requireTransport (ssh : SshField) : Except ApiError Stores.NodeTransport :=
  match ssh with
  | .absent => .error ⟨400, "\"ssh\" is required and must name how to reach the machine"⟩
  | .other => .error ⟨400, "\"ssh\" is required and must name how to reach the machine"⟩
  | .object fields =>
    let target := trim (fields.target.getD "")
    let identity := trim (fields.identityFile.getD "")
    if target = "" then
      .error ⟨400, "\"ssh.target\" is required and must be a non-empty string"⟩
    else do
      let port ← requirePort fields.port
      pure (.ssh target port (if identity = "" then none else some identity))

/-- The destination of a changed machine: a patch that names one replaces it, one that does not
keeps the stored one. -/
def patchTransport (ssh : SshField) (stored : Stores.NodeTransport) :
    Except ApiError Stores.NodeTransport :=
  if ssh = .absent then .ok stored else requireTransport ssh

/-- `POST /nodes`. -/
def postNode (body : NodeBody) : Except ApiError Draft := do
  let transport ← requireTransport body.ssh
  let token ← requireString "token" body.token
  pure ⟨none, body.title, transport, token⟩

/-- `PATCH /nodes/:id`, on the record that the id finds. -/
def patchNode (nodeId : String) (found : Option NodeView) (body : NodeBody) :
    Except ApiError Draft :=
  match found with
  | none => .error ⟨404, "no node \"" ++ nodeId ++ "\""⟩
  | some record =>
    if record.transport = .local then
      .error ⟨400, "the local machine is built in and cannot be changed"⟩
    else do
      let transport ← patchTransport body.ssh record.transport
      pure ⟨some record.nodeId, some (body.title.getD record.title), transport,
        body.token.getD record.token⟩

/-- A request that stores a machine. -/
inductive Request where
  | post (body : NodeBody)
  | patch (nodeId : String) (found : Option NodeView) (body : NodeBody)
  deriving DecidableEq

/-- What the management API accepts of a request. -/
def accept : Request → Except ApiError Draft
  | .post body => postNode body
  | .patch nodeId found body => patchNode nodeId found body

/-! ### The token on its way -/

/-- The token file of a machine after the token was written to it: a string is written to the
input of a command as UTF-8. -/
def tokenFile (token : JsString) : String := String.ofList (Utf16.decode token)

/-- The token of an agent that starts with the file the token was written to. -/
def agentToken (token : JsString) : Option String := readToken (some (tokenFile token))

/-- The token as the agent gets it in `node.hello`: a frame with half of a surrogate pair in a
string is written as an escape, and does not parse. -/
def presentedToken (token : JsString) : Option String :=
  (Utf16.decodeStrict token).map String.ofList

end RemoteWorkspace.Model.NodeRequests
