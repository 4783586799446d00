import RemoteWorkspace.Computation.Machine
import RemoteWorkspace.Computation.Utf8Feed
import RemoteWorkspace.Model.CollectedOutput
import RemoteWorkspace.Model.TerminalRegistry

/-!
# The remote terminal provider

`createRemoteTty` (remote/tty.ts) from the answer of `term.spawn` on, with the session it
follows at the daemon (agent/src/terminal.rs), as a labelled machine. On the client one event
is one piece of code between two awaits; at the daemon it is one system call or one section
under a lock of the PTY reader, of the reaper or of a `term.read`.

What the PTY master yields up to its end is one byte stream, and a run says how fast it
arrives. The wire answers every request at some time or refuses it, in any order; a read may
run out of its budget at any moment. Whether a write leaves room in the output, and when the
output drains, is up to the run as well. The text that is written is a list of characters, and
a sequence of bytes that cannot become one is replaced as soon as that shows.

`Books` is for the statements; the code does not keep it.
-/

set_option autoImplicit false

namespace RemoteWorkspace.Model

open RemoteWorkspace.Computation

namespace RemoteTty

open CollectedOutput (Window)
open TerminalRegistry (TtyOutcome)

/-! ### The daemon's session -/

/-- `TERMINAL_WINDOW_BYTES` (terminal.rs:36). -/
def terminalWindowBytes : ℕ := 1 <<< 20

/-- What one `read` of the master takes at most (terminal.rs:392). -/
def readerBufferBytes : ℕ := 64 * 1024

/-- One `ManagedTerminal`: how much of the stream the reader took from the master, and how
much of that it pushed; the window; and the exit facts, which the reaper sets. -/
structure Session where
  taken : ℕ
  pushed : ℕ
  window : Window
  outcome : Option TtyOutcome
  deriving DecidableEq

/-- A session that was just started. -/
def Session.started : Session where
  taken := 0
  pushed := 0
  window := .new terminalWindowBytes
  outcome := none

/-- One round of the reader up to its push (terminal.rs:394). -/
def Session.masterRead (x : Session) (stream : Bytes) (n : ℕ) : Option Session :=
  if x.taken = x.pushed ∧ 0 < n ∧ n ≤ readerBufferBytes ∧ x.taken + n ≤ stream.length then
    some { x with taken := x.taken + n }
  else none

/-- The push of what was read (terminal.rs:398). -/
def Session.push (x : Session) (stream : Bytes) : Option Session :=
  if x.pushed < x.taken then
    some { x with
      window := x.window.push ((stream.take x.taken).drop x.pushed)
      pushed := x.taken }
  else none

/-- The reaper sets the exit facts once, whatever the reader has done (terminal.rs:410-432). -/
def Session.reap (x : Session) (facts : TtyOutcome) : Option Session :=
  if x.outcome = none then some { x with outcome := some facts } else none

/-! ### Requests -/

/-- One read of a terminal's output window, as it is answered (tty.ts:62-74). -/
structure TtyWireRead where
  data : List Char
  nextOffset : ℕ
  lossy : Bool
  outcome : Option TtyOutcome
  deriving DecidableEq

/-- How far a `term.read` is: before it looks at the window, between that and the look at the
exit facts, answered, or refused. -/
inductive ReadStage
  | asked
  | looked (bytes : Bytes) (nextOffset : ℕ) (lossy : Bool)
  | answered (answer : TtyWireRead)
  | refused
  deriving DecidableEq

/-- A `term.read` that its caller waits for. -/
structure ReadRequest where
  fromByte : ℕ
  stage : ReadStage
  deriving DecidableEq

/-- The end of one round of `read` (terminal.rs:124-136): it answers when there is something
to say or its time is over, and looks again otherwise. -/
def respond (x : Session) (expired : Bool) (bytes : Bytes) (nextOffset : ℕ) (lossy : Bool) :
    ReadStage :=
  if bytes ≠ [] ∨ lossy = true ∨ x.outcome ≠ none ∨ expired = true then
    .answered ⟨Base64.encode bytes, nextOffset, lossy, x.outcome⟩
  else .asked

/-! ### The client -/

/-- How far one `pull` is: it waits for its read, for the notice of what was lost, or for the
text to be published, or it is over, with the exit facts it read or failed. A publication
waits for the output to drain when it is `parked`. -/
inductive Pull
  | reading (request : ReadRequest)
  | marking (read : TtyWireRead) (parked : Bool)
  | publishing (outcome : Option TtyOutcome) (parked : Bool)
  | returned (result : Option (Option TtyOutcome))
  deriving DecidableEq

/-- How far the teardown is: at the request, at its last pull, at the question for the exit
facts, or settled, `refused` when the request was. -/
inductive Teardown
  | terminating
  | pulling (last : Pull)
  | asking
  | settled (refused : Bool)
  deriving DecidableEq

/-- Who pulls. -/
inductive Caller
  | follow
  | teardown
  deriving DecidableEq

/-- Which bytes of the stream were published, and which reported as lost, by their places in
it; the offsets so far; whether a read was lossy; and whether the follow loop settled the
handle with exit facts. -/
structure Books where
  published : List ℕ
  lost : List ℕ
  offsets : List ℕ
  lossy : Bool
  exited : Bool
  deriving DecidableEq

/-- The variables of one `createRemoteTty`, its two tasks and the session. `follow` is `none`
once the loop is over, `stopping` until `terminate` was called. -/
structure Tty where
  session : Session
  offset : ℕ
  finished : Bool
  releasing : Bool
  decoder : Option Utf8.Started
  output : List Char
  done : Option TtyOutcome
  follow : Option Pull
  stopping : Option Teardown
  books : Books
  deriving DecidableEq

/-- A handle whose loop has issued its first read. -/
def Tty.spawned : Tty where
  session := .started
  offset := 0
  finished := false
  releasing := false
  decoder := none
  output := []
  done := none
  follow := some (.reading ⟨0, .asked⟩)
  stopping := none
  books := ⟨[], [], [0], false, false⟩

/-- The pull of a caller. -/
def Tty.pullOf (s : Tty) : Caller → Option Pull
  | .follow => s.follow
  | .teardown =>
    match s.stopping with
    | some (.pulling last) => some last
    | _ => none

/-- A caller's pull is at another stage. -/
def Tty.setPull (s : Tty) (caller : Caller) (pull : Pull) : Tty :=
  match caller with
  | .follow => { s with follow := some pull }
  | .teardown => { s with stopping := some (.pulling pull) }

/-- `finish` (tty.ts:150-155). -/
def finish (s : Tty) (outcome : TtyOutcome) : Tty :=
  if s.finished then s
  else
    { s with
      finished := true
      output := s.output ++ Utf8.flush s.decoder
      decoder := none
      done := some outcome }

/-- `publish`, up to its await (tty.ts:158-163): whether it has to wait for the output to
drain. -/
def publish (s : Tty) (text : List Char) (room : Bool) : Tty × Bool :=
  if s.finished ∨ text = [] then (s, false)
  else ({ s with output := s.output ++ text }, !room)

/-- The notice of what was lost (tty.ts:177). -/
def lostNotice (lost : ℤ) : List Char :=
  ("\r\n[output lost: " ++ toString lost ++ " bytes]\r\n").toList

/-- `pull` from the new offset on (tty.ts:179-183). -/
def advance (s : Tty) (caller : Caller) (read : TtyWireRead) (room : Bool) : Tty :=
  let bytes := Base64.decode read.data
  let s := { s with
    offset := read.nextOffset
    books := { s.books with offsets := s.books.offsets ++ [read.nextOffset] } }
  if bytes = [] then s.setPull caller (.returned (some read.outcome))
  else
    let fed := Utf8.feed s.decoder bytes
    let places := List.range' (read.nextOffset - bytes.length) bytes.length
    let s := { s with
      decoder := fed.2
      books := { s.books with
        published := s.books.published ++ if s.finished then [] else places } }
    let (s, parked) := publish s fed.1 room
    s.setPull caller (.publishing read.outcome parked)

/-- `pull` once its read was answered (tty.ts:171-183). -/
def received (s : Tty) (caller : Caller) (read : TtyWireRead) (room : Bool) : Tty :=
  if read.lossy then
    let bytes := Base64.decode read.data
    let lost : ℤ := read.nextOffset - bytes.length - s.offset
    let places := List.range' s.offset (read.nextOffset - bytes.length - s.offset)
    let s := { s with
      books := { s.books with
        lossy := true
        lost := s.books.lost ++ if s.finished then [] else places } }
    let (s, parked) := publish s (lostNotice lost) room
    s.setPull caller (.marking read parked)
  else advance s caller read room

/-- The loop of `follow` once its pull is over (tty.ts:190-206). -/
def followOn (s : Tty) (result : Option (Option TtyOutcome)) : Tty :=
  match result with
  | none => { finish s ⟨none, none⟩ with follow := none }
  | some ended =>
    if s.finished ∨ s.releasing then { s with follow := none }
    else
      match ended with
      | none => { s with follow := some (.reading ⟨s.offset, .asked⟩) }
      | some facts =>
        { finish s facts with
          follow := none
          books := { s.books with exited := true } }

/-- The teardown once its last pull is over (tty.ts:239-246). -/
def teardownOn (s : Tty) (result : Option (Option TtyOutcome)) : Tty :=
  match result.join with
  | none => { s with stopping := some .asking }
  | some facts => { finish s facts with stopping := some (.settled false) }

/-- The next piece of a caller's code, when its await is over. -/
def resume (s : Tty) (caller : Caller) (room : Bool) : Option Tty :=
  match s.pullOf caller with
  | some (.reading ⟨_, .answered read⟩) => some (received s caller read room)
  | some (.reading ⟨_, .refused⟩) => some (s.setPull caller (.returned none))
  | some (.marking read false) => some (advance s caller read room)
  | some (.publishing outcome false) => some (s.setPull caller (.returned (some outcome)))
  | some (.returned result) =>
    match caller with
    | .follow => some (followOn s result)
    | .teardown => some (teardownOn s result)
  | _ => none

/-- `terminate`, up to its request (tty.ts:228-236); later calls join the first. -/
def terminate (s : Tty) : Tty :=
  if s.stopping ≠ none then s
  else if s.finished then { s with stopping := some (.settled false) }
  else { s with releasing := true, stopping := some .terminating }

/-- The output has drained. -/
def Pull.drained : Pull → Pull
  | .marking read _ => .marking read false
  | .publishing outcome _ => .publishing outcome false
  | pull => pull

def Teardown.drained : Teardown → Teardown
  | .pulling last => .pulling last.drained
  | stopping => stopping

/-! ### The machine -/

inductive Event
  /-- The reader takes bytes from the master. -/
  | masterRead (n : ℕ)
  /-- The reader pushes them. -/
  | push
  /-- The reaper waits for the child, or fails to. -/
  | reap (facts : TtyOutcome)
  /-- A read looks at the window. -/
  | look (caller : Caller)
  /-- It looks at the exit facts, and answers if it can or its time is over. -/
  | respond (caller : Caller) (expired : Bool)
  /-- A read is refused, by the daemon or because the transport is gone. -/
  | refuse (caller : Caller)
  /-- The next piece of a caller's code; `room` is what a write to the output answers. -/
  | resume (caller : Caller) (room : Bool)
  /-- The output drains. -/
  | drain
  /-- `terminate` is called. -/
  | terminate
  /-- `term.terminate` is answered, or refused. -/
  | terminated (refused : Bool)
  /-- `term.outcome` is answered, or refused. -/
  | told (refused : Bool)
  deriving DecidableEq

/-- One event; `none` when it cannot happen. -/
def step (stream : Bytes) (s : Tty) : Event → Option Tty
  | .masterRead n => (s.session.masterRead stream n).map fun x => { s with session := x }
  | .push => (s.session.push stream).map fun x => { s with session := x }
  | .reap facts => (s.session.reap facts).map fun x => { s with session := x }
  | .look caller =>
    match s.pullOf caller with
    | some (.reading ⟨fromByte, .asked⟩) =>
      let (bytes, nextOffset, lossy) := s.session.window.read fromByte
      some (s.setPull caller (.reading ⟨fromByte, .looked bytes nextOffset lossy⟩))
    | _ => none
  | .respond caller expired =>
    match s.pullOf caller with
    | some (.reading ⟨fromByte, .looked bytes nextOffset lossy⟩) =>
      some (s.setPull caller
        (.reading ⟨fromByte, respond s.session expired bytes nextOffset lossy⟩))
    | _ => none
  | .refuse caller =>
    match s.pullOf caller with
    | some (.reading ⟨fromByte, .asked⟩) | some (.reading ⟨fromByte, .looked _ _ _⟩) =>
      some (s.setPull caller (.reading ⟨fromByte, .refused⟩))
    | _ => none
  | .resume caller room => resume s caller room
  | .drain =>
    -- an output that has been ended emits no `drain` any more
    if s.finished then none
    else some { s with
      follow := s.follow.map Pull.drained
      stopping := s.stopping.map Teardown.drained }
  | .terminate => some (terminate s)
  | .terminated refused =>
    if s.stopping = some .terminating then
      -- a refusal rejects the promise of the teardown, and nothing runs after it
      if refused then some { s with stopping := some (.settled true) }
      else some { s with stopping := some (.pulling (.reading ⟨s.offset, .asked⟩)) }
    else none
  | .told refused =>
    if s.stopping = some .asking then
      let outcome := if refused then none else s.session.outcome
      some { finish s (outcome.getD ⟨none, none⟩) with stopping := some (.settled false) }
    else none

/-- A remote terminal whose master yields `stream`. -/
def machine (stream : Bytes) : Machine Tty Event := ⟨.spawned, step stream⟩

end RemoteTty

end RemoteWorkspace.Model
