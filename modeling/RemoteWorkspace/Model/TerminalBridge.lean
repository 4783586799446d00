import RemoteWorkspace.Computation.Machine

/-!
# One socket and its terminal

`attachTerminal` (terminal/host/terminal.ts) as a labelled machine: what a browser asks for over
one socket, the allocation of its shell, and the resizes that its provider has not answered.
One event is a frame, a promise that settles, or something that happens to the socket or the
shell.

The terminal is the one this socket opened or found, with the geometry its PTY has and the one
its registry entry records (registry.ts:455-483, 537-547); no other socket resizes it. A
terminal whose shell ended or that was released is gone. Keystrokes are not part of this
model.
-/

set_option autoImplicit false

namespace RemoteWorkspace.Model.TerminalBridge

open RemoteWorkspace.Computation

/-- `MAX_DIMENSION` (terminal.ts:34). -/
def maxDimension : Int := 1000

/-- `dimension` (terminal.ts:46-49), of a value that may not be a finite number. -/
def dimension (value : Option Rat) (fallback : ℕ) : ℕ :=
  match value with
  | none => fallback
  | some value => (min maxDimension (max 1 value.floor)).toNat

/-- A number of columns and one of rows. -/
structure Size where
  cols : ℕ
  rows : ℕ
  deriving DecidableEq

/-- The size a frame asks for, over the one that stands in for what it does not say. -/
def clamped (cols rows : Option Rat) (fallback : Size) : Size :=
  ⟨dimension cols fallback.cols, dimension rows fallback.rows⟩

/-- What `requested` is at first, and what stands in for the numbers of an `open` frame. -/
def usual : Size := ⟨80, 24⟩

/-- A resize that the provider has not answered, and whether the PTY took its size. -/
structure Resize where
  size : Size
  taken : Bool
  deriving DecidableEq

/-- A live terminal: the size of its PTY, the `cols` and `rows` of its registry entry, and the
resizes in flight, in the order in which they were asked for. -/
structure Terminal where
  pty : Size
  entry : Size
  resizes : List Resize
  deriving DecidableEq

/-- What a `ready` frame says of a shell (wire.ts:69-84). -/
structure Shell where
  pid : ℕ
  cwd : String
  id : String
  label : String
  deriving DecidableEq

/-- The frames the host sends here (wire.ts:69-118). -/
inductive HostFrame
  | ready (shell : Shell)
  | error (message : String)
  | size (size : Size) (live : Bool)
  deriving DecidableEq

/-- How far `open` is: it resolves the Session's workspace, or a shell is spawned at a size. -/
inductive Allocation
  | idle
  | resolving
  | spawning (size : Size)
  deriving DecidableEq

/-- The variables of one socket (terminal.ts:76-84), whether it is open, how far its allocation
is, its terminal, and what was posted to it. -/
structure Bridge where
  entryId : Option String
  opening : Bool
  closed : Bool
  up : Bool
  requested : Size
  applied : Option Size
  allocation : Allocation
  terminal : Option Terminal
  posted : List HostFrame
  deriving DecidableEq

/-- A socket that was just accepted. -/
def Bridge.accepted : Bridge where
  entryId := none
  opening := false
  closed := false
  up := true
  requested := usual
  applied := none
  allocation := .idle
  terminal := none
  posted := []

/-- What can happen next. -/
inductive BridgeEvent
  /-- A frame: `open`, `attach` with what the registry finds for its id, or `resize`. -/
  | open (cols rows : Option Rat)
  | attach (cols rows : Option Rat) (found : Except String (Shell × Size))
  | resize (cols rows : Option Rat)
  /-- The workspace is resolved, or it is not. -/
  | resolved (error : Option String)
  /-- The shell is spawned and registered; it may have ended since, which `attach` refuses. -/
  | spawned (shell : Shell) (refusal : Option String)
  /-- No shell is spawned. -/
  | failed (error : String)
  /-- The PTY takes the size of the `i`-th resize in flight. -/
  | take (i : ℕ)
  /-- The provider answers the `i`-th resize in flight. -/
  | answer (i : ℕ) (accepted : Bool)
  /-- The terminal is gone. -/
  | gone
  /-- The socket drops, and its `close` or `error` is delivered. -/
  | dropped
  | stop

namespace Bridge

/-- `post` (terminal.ts:87-89). -/
def post (s : Bridge) (frame : HostFrame) : Bridge :=
  if s.up = true then { s with posted := s.posted ++ [frame] } else s

/-- What a second terminal is refused with. -/
def alreadyOwns : HostFrame := .error "this connection already owns a terminal"

/-- Whether `claim` answers that the socket may take on a terminal (terminal.ts:126-130). -/
def claim (s : Bridge) : Bool := s.entryId.isNone && !s.opening

/-- `open`, up to its first await (terminal.ts:136-141). -/
def beginOpen (s : Bridge) (cols rows : Option Rat) : Bridge :=
  if s.closed = true then s
  else if s.claim = true then
    { s with requested := clamped cols rows usual, opening := true, allocation := .resolving }
  else s.post alreadyOwns

/-- An `open` that fails (terminal.ts:154-158). -/
def failOpen (s : Bridge) (message : String) : Bridge :=
  { s.post (.error message) with opening := false, allocation := .idle }

/-- The rest of `open`, once the shell is registered at a size (terminal.ts:143-158). -/
def endOpen (s : Bridge) (size : Size) (shell : Shell) (refusal : Option String) : Bridge :=
  if s.closed = true then { s with opening := false, allocation := .idle }
  else
    let t := { s with entryId := some shell.id, applied := some s.requested }
    match refusal with
    | some message => t.failOpen message
    | none =>
      { t.post (.ready shell) with
        opening := false, allocation := .idle, terminal := some ⟨size, size, []⟩ }

/-- `registry.resize`, up to its await; a terminal that is gone throws (registry.ts:537-541). -/
def askResize (s : Bridge) (size : Size) : Bridge :=
  { s with
    terminal := s.terminal.map fun terminal =>
      { terminal with resizes := terminal.resizes ++ [⟨size, false⟩] } }

/-- `applySize`, up to its await (terminal.ts:163-173). -/
def applySize (s : Bridge) (cols rows : Option Rat) : Bridge :=
  let next := clamped cols rows s.requested
  let t := { s with requested := next }
  if s.entryId = none then t
  else if s.applied = some next then t
  else { t with applied := some next }.askResize next

/-- `reattach` (terminal.ts:178-201). -/
def reattach (s : Bridge) (cols rows : Option Rat) (found : Except String (Shell × Size)) :
    Bridge :=
  if s.closed = true then s
  else if s.claim = true then
    match found with
    | .error message => s.post (.error message)
    | .ok (shell, size) =>
      ({ s with
        entryId := some shell.id, applied := some size
        terminal := some ⟨size, size, []⟩ }.post (.ready shell)).applySize cols rows
  else s.post alreadyOwns

/-- The PTY takes a size. -/
def takeSize (s : Bridge) (i : ℕ) : Option Bridge :=
  s.terminal.bind fun terminal => (terminal.resizes[i]?).bind fun resize =>
    if resize.taken = true then none
    else some { s with
      terminal := some { terminal with
        pty := resize.size
        resizes := terminal.resizes.set i { resize with taken := true } } }

/-- The rest of `registry.resize` and of `applySize` (registry.ts:541-546, terminal.ts:173-174).
A resize that was accepted was taken. -/
def settleResize (s : Bridge) (i : ℕ) (accepted : Bool) : Option Bridge :=
  s.terminal.bind fun terminal => (terminal.resizes[i]?).bind fun resize =>
    if accepted = true ∧ resize.taken = false then none
    else
      let entry := if accepted = true then resize.size else terminal.entry
      some ({ s with
        terminal := some { terminal with
          entry := entry, resizes := terminal.resizes.eraseIdx i } }.post
        (.size resize.size accepted))

/-- `stop`: a terminal that is not viewed any more lives on, without this socket
(terminal.ts:117-123). -/
def detach (s : Bridge) : Bridge := { s with closed := true, up := false, entryId := none }

/-- One event. -/
def step (s : Bridge) : BridgeEvent → Option Bridge
  | .open cols rows => some (s.beginOpen cols rows)
  | .attach cols rows found => some (s.reattach cols rows found)
  | .resize cols rows => some (s.applySize cols rows)
  | .resolved error =>
    if s.allocation = .resolving then
      match error with
      | some message => some (s.failOpen message)
      | none => some { s with allocation := .spawning s.requested }
    else none
  | .spawned shell refusal =>
    match s.allocation with
    | .spawning size => some (s.endOpen size shell refusal)
    | _ => none
  | .failed error =>
    match s.allocation with
    | .spawning _ => some (s.failOpen error)
    | _ => none
  | .take i => s.takeSize i
  | .answer i accepted => s.settleResize i accepted
  | .gone => some { s with terminal := none }
  | .dropped => some { s with up := false }
  | .stop => some s.detach

end Bridge

/-- The socket as a machine. -/
def machine : Machine Bridge BridgeEvent := ⟨.accepted, Bridge.step⟩

end RemoteWorkspace.Model.TerminalBridge
