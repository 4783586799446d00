import Mathlib.Algebra.Group.Nat.Defs
import Mathlib.Data.Int.Notation
import RemoteWorkspace.Computation.Machine
import RemoteWorkspace.Computation.Slots
import RemoteWorkspace.Model.TerminalBridge

/-!
# The terminals of a page

The browser's terminals (plugin/client/terminal/session.ts): the entry that each tab keeps, the
sockets that it has had, its reconnects, and the map from tabs to entries, as a labelled machine.
One event is one callback of the page.

An entry outlives its place in the map: the listeners of its sockets still hold it. A socket is
opened by its constructor, says so once, brings frames while it is open, and closes once; after
`close` it brings nothing any more. What is drawn, and the bytes that are written to the terminal,
are not part of this model.
-/

set_option autoImplicit false

namespace RemoteWorkspace.Model.TabSockets

open RemoteWorkspace.Computation
open RemoteWorkspace.Model.TerminalBridge (Size)

/-- `TerminalState`. -/
inductive TerminalState where
  | opening
  | live (cwd : String) (fixedSize : Bool)
  | ended (code : Option ℤ) (signal : Option String)
  | closed
  | failed (message : String)
  deriving DecidableEq

/-- `TerminalTarget`. -/
inductive TerminalTarget where
  | existing (id : String)
  | new
  deriving DecidableEq

/-- `ClientFrame` (wire.ts:69). -/
inductive ClientFrame where
  | open (sessionId : String) (size : Size)
  | attach (sessionId id : String) (size : Size)
  | input (data : String)
  | resize (size : Size)
  deriving DecidableEq

/-- `HostFrame` (wire.ts:121), and what is none. -/
inductive HostFrame where
  | ready (id label cwd : String)
  | size (live : Bool)
  | exit (code : Option ℤ) (signal : Option String)
  | error (message : String)
  | other
  deriving DecidableEq

/-- `readyState` of a `WebSocket`. -/
inductive ReadyState where
  | connecting
  | open
  | closing
  | closed
  deriving DecidableEq

/-- A socket, and the frames that were sent over it. -/
structure TabSocket where
  readyState : ReadyState
  sent : List ClientFrame
  deriving DecidableEq

/-- `new WebSocket(socketUrl())`. -/
def TabSocket.new : TabSocket := ⟨.connecting, []⟩

/-- Which frame the first answer of a socket belongs to. -/
inductive Pending where
  | open
  | attach
  deriving DecidableEq

/-- `Entry`, with all the sockets it has had, the current one first. `disableStdin` is an option
of its terminal, and `reconnectTimer` the delay of a reconnect that is scheduled. -/
structure Entry where
  key : String
  tabId : String
  sessionId : String
  sockets : List TabSocket
  id : Option String
  label : Option String
  state : TerminalState
  size : Size
  fixedSize : Bool
  pending : Pending
  replaying : Bool
  disableStdin : Bool
  reconnectAttempts : ℕ
  reconnectTimer : Option ℕ
  deriving DecidableEq

/-- `RECONNECT_BASE_MS`. -/
def reconnectBaseMs : ℕ := 500

/-- `RECONNECT_MAX_MS`. -/
def reconnectMaxMs : ℕ := 5000

/-- `tabKey`. -/
def tabKey (sessionId tabId : String) : String := sessionId ++ "\x00" ++ tabId

/-- `entries`, `targets`, and the terminal that each Session is remembered by. `entries` are all
that were created, and `table` says which of them a tab has now. -/
structure Page where
  entries : List Entry
  table : String → Option ℕ
  targets : String → Option TerminalTarget
  memory : String → Option String

/-- A page that was just loaded, with what an earlier one remembered. -/
def Page.loaded (memory : String → Option String) : Page :=
  ⟨[], fun _ => none, fun _ => none, memory⟩

/-! ### One entry -/

namespace Entry

/-- `send`: a frame is dropped unless the current socket is open. -/
def send (x : Entry) (frame : ClientFrame) : Entry :=
  { x with sockets := x.sockets.modifyHead fun w =>
      if w.readyState = .open then { w with sent := w.sent ++ [frame] } else w }

/-- What becomes of one of the sockets. -/
def mark (x : Entry) (k : ℕ) (readyState : ReadyState) : Entry :=
  { x with sockets := x.sockets.modify k fun w => { w with readyState := readyState } }

/-- The `open` listener of a socket. -/
def onOpen (x : Entry) : Entry :=
  match x.id with
  | none =>
    send { x with pending := .open, replaying := false } (.open x.sessionId x.size)
  | some id =>
    send { x with pending := .attach, replaying := true } (.attach x.sessionId id x.size)

/-- A binary frame: the first one of an attach is the history, which is parsed with the
terminal's own answers suppressed. -/
def onBinary (x : Entry) : Entry :=
  if x.replaying then { x with replaying := false, disableStdin := true } else x

/-- A text frame. -/
def onFrame (x : Entry) : HostFrame → Entry
  | .ready id label cwd =>
    { x with
      replaying := false
      reconnectAttempts := 0
      id := some id
      label := some label
      state := .live cwd x.fixedSize }
  | .size live =>
    match x.state with
    | .live cwd _ => { x with fixedSize := !live, state := .live cwd !live }
    | _ => { x with fixedSize := !live }
  | .exit code signal => { x with state := .ended code signal }
  | .error message =>
    match x.pending with
    | .attach =>
      send { x with id := none, label := none, pending := .open, replaying := false }
        (.open x.sessionId x.size)
    | .open => { x with state := .failed message }
  | .other => x

/-- A shell that ended or was refused: nothing to come back to. -/
def isOver (x : Entry) : Bool :=
  match x.state with
  | .ended _ _ | .failed _ => true
  | _ => false

/-- `scheduleReconnect`, where `listed` says whether the tab still has this entry. -/
def scheduleReconnect (x : Entry) (listed : Bool) : Entry :=
  if !listed || x.reconnectTimer.isSome then x
  else { x with
    reconnectTimer := some (min (reconnectBaseMs * 2 ^ x.reconnectAttempts) reconnectMaxMs) }

/-- The `close` listener of a socket. -/
def onClose (x : Entry) (listed : Bool) : Entry :=
  if x.isOver then x else scheduleReconnect { x with state := .closed } listed

/-- A socket in the place of the one that dropped. -/
def replaceSocket (x : Entry) : Entry :=
  { x with sockets := .new :: x.sockets, state := .opening }

/-- The callback of the reconnect timer. -/
def onTimer (x : Entry) (listed : Bool) : Entry :=
  if listed then
    replaceSocket { x with reconnectTimer := none, reconnectAttempts := x.reconnectAttempts + 1 }
  else { x with reconnectTimer := none }

/-- What `dispose` does to an entry: no reconnect any more, and its socket is closed. -/
def discard (x : Entry) : Entry :=
  { x with
    reconnectTimer := none
    sockets := x.sockets.modifyHead fun w =>
      if w.readyState = .closed then w else { w with readyState := .closing } }

/-- `create`, with the size that the terminal has at first. -/
def create (sessionId tabId : String) (target : TerminalTarget) (size : Size) : Entry where
  key := tabKey sessionId tabId
  tabId := tabId
  sessionId := sessionId
  sockets := [.new]
  id := match target with
    | .existing id => some id
    | .new => none
  label := none
  state := .opening
  size := size
  fixedSize := false
  pending := .open
  replaying := false
  disableStdin := false
  reconnectAttempts := 0
  reconnectTimer := none

/-- Whether the restart button is drawn (TerminalBody.tsx:88). -/
def gone (x : Entry) : Bool := x.isOver || x.state = .closed

end Entry

/-! ### The page -/

namespace Page

/-- Whether the tab of an entry has this entry. -/
def listed (s : Page) (e : ℕ) (x : Entry) : Bool := s.table x.key = some e

/-- One entry is changed. -/
def update (s : Page) (e : ℕ) (x : Entry) : Page := { s with entries := s.entries.set e x }

/-- `forget`. -/
def forget (s : Page) (x : Entry) : Page :=
  if x.id.isSome ∧ s.memory x.sessionId = x.id then
    { s with memory := Function.update s.memory x.sessionId none }
  else s

/-- What a text frame makes the page remember. -/
def remember (s : Page) (x : Entry) : HostFrame → Page
  | .ready id _ _ => { s with memory := Function.update s.memory x.sessionId (some id) }
  | .exit _ _ => s.forget x
  | .error _ => if x.pending = .attach then s.forget x else s
  | _ => s

/-- `dispose`. -/
def dispose (s : Page) (key : String) : Page :=
  match s.table key with
  | none => { s with targets := Function.update s.targets key none }
  | some e =>
    { s with
      targets := Function.update s.targets key none
      table := Function.update s.table key none
      entries := s.entries.modify e Entry.discard }

/-- An entry is created for a tab. -/
def add (s : Page) (x : Entry) : Page :=
  { s with
    entries := s.entries ++ [x]
    table := Function.update s.table x.key (some s.entries.length) }

/-- `restartTerminal`, of a tab that has an entry. -/
def restart (s : Page) (e : ℕ) (x : Entry) (size : Size) : Page :=
  if x.state = .closed ∧ x.id.isSome then
    s.update e (Entry.replaceSocket { x with reconnectTimer := none, reconnectAttempts := 0 })
  else
    ((s.update e { x with reconnectTimer := none }).dispose x.key).add
      (.create x.sessionId x.tabId .new size)

end Page

/-- What can happen next. A number names an entry, and a second one a socket of it, from the
current one on. -/
inductive PageEvent where
  /-- The chooser records which shell a tab shows. -/
  | choose (sessionId tabId : String) (target : TerminalTarget)
  /-- The body of a tab is mounted; the tab disappears; its restart button is pressed. -/
  | mount (sessionId tabId : String) (size : Size)
  | abort (sessionId tabId : String)
  | restart (sessionId tabId : String) (size : Size)
  /-- A socket is open; a frame of it arrives; it is closed. -/
  | opened (e k : ℕ)
  | binary (e k : ℕ)
  | frame (e k : ℕ) (frame : HostFrame)
  | closed (e k : ℕ)
  /-- The reconnect timer fires. -/
  | timer (e : ℕ)
  /-- The history is parsed. -/
  | parsed (e : ℕ)
  /-- The terminal has another size; something is typed. -/
  | resize (e : ℕ) (size : Size)
  | input (e : ℕ) (data : String)
  deriving DecidableEq

/-- An entry and one of its sockets, which is in some state. -/
def withSocket (s : Page) (e k : ℕ) (ready : ReadyState → Bool) (run : Entry → Page) : Option Page :=
  (s.entries[e]?).bind fun x => (x.sockets[k]?).bind fun w =>
    if ready w.readyState then some (run x) else none

/-- One event. -/
def step (s : Page) : PageEvent → Option Page
  | .choose sessionId tabId target =>
    some { s with targets := Function.update s.targets (tabKey sessionId tabId) (some target) }
  | .mount sessionId tabId size =>
    (s.targets (tabKey sessionId tabId)).map fun target =>
      match s.table (tabKey sessionId tabId) with
      | some _ => s
      | none => s.add (.create sessionId tabId target size)
  | .abort sessionId tabId => some (s.dispose (tabKey sessionId tabId))
  | .restart sessionId tabId size =>
    (s.table (tabKey sessionId tabId)).bind fun e => (s.entries[e]?).bind fun x =>
      if x.gone then some (s.restart e x size) else none
  | .opened e k =>
    withSocket s e k (· == .connecting) fun x => s.update e (x.mark k .open).onOpen
  | .binary e k => withSocket s e k (· == .open) fun x => s.update e x.onBinary
  | .frame e k frame =>
    withSocket s e k (· == .open) fun x => (s.remember x frame).update e (x.onFrame frame)
  | .closed e k =>
    withSocket s e k (· != .closed) fun x => s.update e ((x.mark k .closed).onClose (s.listed e x))
  | .timer e =>
    (s.entries[e]?).bind fun x =>
      if x.reconnectTimer.isSome then some (s.update e (x.onTimer (s.listed e x))) else none
  | .parsed e =>
    (s.entries[e]?).map fun x => s.update e { x with disableStdin := false }
  | .resize e size =>
    (s.entries[e]?).bind fun x =>
      if s.listed e x then some (s.update e (Entry.send { x with size := size } (.resize size)))
      else none
  | .input e data =>
    (s.entries[e]?).bind fun x =>
      if s.listed e x && !x.disableStdin then some (s.update e (x.send (.input data))) else none

/-- The page as a machine. -/
def machine (memory : String → Option String) : Machine Page PageEvent :=
  ⟨.loaded memory, step⟩

end RemoteWorkspace.Model.TabSockets
