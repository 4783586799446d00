import RemoteWorkspace.Model.TerminalHost

/-!
# A tab and its sockets

The browser's side of a terminal (plugin/client/terminal/session.ts) next to the host's event
loop. A tab keeps one `xterm` and one id while its sockets come and go: a socket that closes is
replaced, the new one attaches to the id the tab knows, or opens a shell when it knows none, and
every binary frame of the current socket is written to the same `xterm`.

Each socket has a sink of its own, whoever's it is, and attaches it once (terminal.ts:126-150).
What the registry hands a sink is sent as one binary frame as long as the socket is open on the
host's side (terminal.ts:99-104); frames arrive in order, and those that have not arrived when
the socket closes are lost. A socket that asks for a fresh shell attaches to the entry that was
opened for it; which one that is is left to the run.
-/

set_option autoImplicit false

namespace RemoteWorkspace.Model.TerminalTab

open RemoteWorkspace.Computation RemoteWorkspace.Model RemoteWorkspace.Model.TerminalRegistry

/-- The current socket: its sink, the entry it views, and how many frames of it arrived. Its
`limit` is how many were sent, once the host's side is not open any more. `origin` is what the
entry had dropped when the socket attached, and `read` how many bytes arrived since. -/
structure Socket where
  sink : TerminalSink
  viewed : Option ℕ
  received : ℕ
  limit : Option ℕ
  origin : ℕ
  read : ℕ
  deriving DecidableEq

/-- A chunk that was written to the `xterm`: the entry it came from, and the place in all that
the entry's PTY printed that it was sent as. -/
structure Handed where
  entry : ℕ
  start : ℕ
  chunk : Bytes
  deriving DecidableEq

/-- The host and one tab. `sockets` is the sink of the next socket that anybody connects. -/
structure Page where
  host : Host
  sockets : ℕ
  id : Option String
  socket : Option Socket
  handed : List Handed

/-- What can happen next. -/
inductive PageEvent
  /-- An event of the host that attaches nobody, or the attach of some other socket. -/
  | host (e : HostEvent)
  | other (id : String)
  /-- The tab connects a socket: at first, when the timer of a reconnect fires, or on a restart
  (session.ts:386, 522-529, 628-629). -/
  | connect
  /-- The host attaches the socket to a terminal, or finds that it is gone. -/
  | attach (id : String)
  /-- The `ready` frame arrives. -/
  | ready
  /-- A binary frame arrives. -/
  | receive
  /-- The socket is not open any more on the host's side; its `close` reaches the tab. -/
  | down
  | close

/-- The chunks that a sink was handed. -/
def chunksOf (s : Page) (sink : TerminalSink) : List Bytes :=
  s.host.registry.reports.filterMap fun report =>
    match report with
    | (k, .output chunk) => if k = sink then some chunk else none
    | _ => none

/-- Whether an event attaches a sink. -/
def attaches : HostEvent → Bool
  | .registry (.attach _ _) => true
  | _ => false

/-- `wire`, once the socket is open, and the host's answer (session.ts:431-441, 483-496): an
attach to an id that is gone makes the tab forget it. -/
def attachSocket (s : Page) (socket : Socket) (id : String) : Option Page :=
  if socket.viewed = none ∧ (s.id = none ∨ s.id = some id) then
    match TerminalRegistry.attach s.host.registry id socket.sink with
    | .error _ => some { s with id := none }
    | .ok registry => (s.host.registry.get id).map fun n =>
      { s with
        host := { s.host with registry := registry }
        socket := some { socket with
          viewed := some n, origin := (s.host.registry.entries n).dropped } }
  else none

/-- The next binary frame of the socket is written to the `xterm` (session.ts:443-457). -/
def receive (s : Page) (socket : Socket) : Option Page :=
  socket.viewed.bind fun n =>
    if socket.limit.all (socket.received < ·) = true then
      ((chunksOf s socket.sink)[socket.received]?).map fun chunk =>
        { s with
          handed := s.handed ++ [⟨n, socket.origin + socket.read, chunk⟩]
          socket := some { socket with
            received := socket.received + 1, read := socket.read + chunk.length } }
    else none

/-- One event. -/
def step (options : Options) (s : Page) : PageEvent → Option Page
  | .host e =>
    if attaches e = true then none
    else (hostStep options s.host e).map fun host => { s with host := host }
  | .other id =>
    (hostStep options s.host (.registry (.attach id s.sockets))).map fun host =>
      { s with host := host, sockets := s.sockets + 1 }
  | .connect =>
    match s.socket with
    | some _ => none
    | none =>
      some { s with
        socket := some ⟨s.sockets, none, 0, none, 0, 0⟩, sockets := s.sockets + 1 }
  | .attach id => s.socket.bind fun socket => attachSocket s socket id
  | .ready => s.socket.bind fun socket => socket.viewed.map fun n =>
      { s with id := some (s.host.registry.entries n).id }
  | .receive => s.socket.bind (receive s)
  | .down => s.socket.bind fun socket =>
      match socket.limit with
      | some _ => none
      | none =>
        some { s with
          socket := some { socket with limit := some (chunksOf s socket.sink).length } }
  | .close => s.socket.map fun _ => { s with socket := none }

/-- A tab that was just opened, for a terminal that was chosen or for a fresh one
(session.ts:388-391). -/
def opened (id : Option String) : Page := ⟨⟨.empty, fun _ => none⟩, 0, id, none, []⟩

/-- The page as a machine. -/
def machine (options : Options) (id : Option String) : Machine Page PageEvent :=
  ⟨opened id, step options⟩

end RemoteWorkspace.Model.TerminalTab
