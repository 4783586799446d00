import RemoteWorkspace.Computation.Machine
import RemoteWorkspace.Model.PtcCodec

/-!
# The binding calls of a program

The program host hands every frame that it reads to one handler. A reply settles the call that
waits for its id; any other frame is taken for the boot frame, which starts the program once. A
call puts its promise into the table of replies before its frame is sent.

The handler decodes a reply and builds its error with built-in functions that it looks up by name
at that moment: `Array`, `Error`, `Number`, `Object`, `Reflect` and `Set`, and the error class of
the namespace. A program may have replaced these, and the state says what they compute
(`Builtins`). `JSON.parse` and `JSON.stringify` were captured before the program started.
-/

set_option autoImplicit false

namespace RemoteWorkspace.Model.PtcBindings

open RemoteWorkspace.Computation
open RemoteWorkspace.Computation.Json
open RemoteWorkspace.Model.PtcCodec

/-! ### Calls and their errors -/

/-- A rejection class that a namespace declares. -/
structure ErrorClass where
  name : Text
  memberNameProperty : Text
  deriving DecidableEq

/-- A member of a namespace. -/
structure Binding where
  global : Text
  name : Text
  errorClass : Option ErrorClass
  deriving DecidableEq

/-- What a call is rejected with: an error, one of the namespace's class, or what building either
of them threw. -/
inductive Failure where
  | error (message : Text)
  | binding (errorClass : ErrorClass) (memberName message : Text)
  | thrown
  deriving DecidableEq

/-- The error of a failed call. -/
def bindingFailure (errorClass : Option ErrorClass) (memberName message : Text) : Failure :=
  match errorClass with
  | none => .error message
  | some errorClass => .binding errorClass memberName message

/-- How a call ends. -/
inductive Outcome (ν : Type) where
  | resolved (value : Json ν)
  | rejected (failure : Failure)

variable {ν : Type} [JsNumber ν]

/-- What the built-in functions make of the tokens of a reply and of an error message, as the
program has left them; with `none` they throw. -/
structure Builtins (ν : Type) where
  unflatten : Option (Json ν) → Option (Option (Json ν))
  reject : Binding → Text → Option Failure

/-- The language's own. -/
def Builtins.own : Builtins ν where
  unflatten value := some (value.bind PtcCodec.unflatten)
  reject binding message := some (bindingFailure binding.errorClass binding.name message)

/-! ### Frames -/

/-- The member of a message. -/
def field (key : String) : Json ν → Option (Json ν)
  | .obj members => member (ascii key) members
  | _ => none

/-- Whether a member of a message is this text. -/
def isText (key text : String) (message : Json ν) : Bool :=
  match field key message with
  | some (.str s) => s = ascii text
  | _ => false

/-- Whether a message is a reply. -/
def isReply (message : Json ν) : Bool := isText "type" "reply" message

/-- The id that a reply carries, when it is a number that an id can be. -/
def replyId (message : Json ν) : Option ℕ :=
  match field "id" message with
  | some (.num x) => JsNumber.toNat x
  | _ => none

/-- Whether a reply says that the call ended well. -/
def isOk (message : Json ν) : Bool :=
  match field "ok" message with
  | some (.bool b) => b
  | _ => false

/-- The error message of a reply. -/
def replyMessage (message : Json ν) : Text :=
  match field "message" message with
  | some (.str s) => s
  | _ => ascii "binding call failed"

/-- What a reply settles a call with; with `none` the handler throws. -/
def answer (b : Builtins ν) (binding : Binding) (message : Json ν) : Option (Outcome ν) :=
  if isOk message then
    (b.unflatten (field "value" message)).bind fun value =>
      match value with
      | none => (b.reject binding (ascii "binding resolution must be lossless JSON")).map .rejected
      | some value => some (.resolved value)
  else (b.reject binding (replyMessage message)).map .rejected

/-- Whether a frame is a boot frame. -/
def isBoot (message : Json ν) : Bool :=
  isText "type" "boot" message &&
    match field "data" message with
    | some (.obj _) | some (.arr _) => true
    | _ => false

/-! ### Runs -/

/-- A call that was made: the binding, and its id when it was given one. -/
structure Call where
  binding : Binding
  id : Option ℕ

/-- A call frame that was sent. -/
structure CallFrame (ν : Type) where
  id : ℕ
  global : Text
  name : Text
  args : List (Json ν)

/-- Why a call was settled: a reply, or it could not be sent. -/
inductive Cause (ν : Type) where
  | reply (message : Json ν)
  | unsent

/-- A call that was settled, by its place in the list of calls. -/
structure Settlement (ν : Type) where
  call : ℕ
  outcome : Outcome ν
  cause : Cause ν

/-- The variables of the bootstrap, and what was done. `replies` maps an id to the place of its
call; `awaited` is what the promise of the boot frame was resolved with, and `resumed` whether
`main` went on behind it. -/
structure State (ν : Type) where
  bootSettled : Bool
  awaited : Option (Option Text)
  resumed : Bool
  started : ℕ
  nextId : ℕ
  replies : List (ℕ × ℕ)
  builtins : Builtins ν
  calls : List Call
  sent : List (CallFrame ν)
  settled : List (Settlement ν)
  threw : Bool

/-- The call that waits for an id. -/
def State.waiting (s : State ν) (id : ℕ) : Option ℕ :=
  (s.replies.find? fun entry => entry.1 = id).map Prod.snd

/-- Resolve the promise of the boot frame, once. -/
def settleBoot (text : Option Text) (s : State ν) : State ν :=
  if s.bootSettled then s else { s with bootSettled := true, awaited := some text }

/-- Settle the call that a reply is for, when there is one. -/
def deliverReply (message : Json ν) (s : State ν) : State ν :=
  match (replyId message).bind fun id => (s.waiting id).map fun place => (id, place) with
  | none => s
  | some (id, place) =>
    let others : List (ℕ × ℕ) := s.replies.filter fun entry => entry.1 ≠ id
    match (s.calls[place]?).bind fun c => answer s.builtins c.binding message with
    | none => { s with replies := others, threw := true }
    | some outcome =>
      { s with replies := others, settled := s.settled ++ [⟨place, outcome, .reply message⟩] }

/-- The handler of frames. -/
def onFrame (text : Text) (s : State ν) : State ν :=
  match parse text with
  | none => s
  | some message => if isReply message then deliverReply message s else settleBoot (some text) s

/-- `main` goes on behind the boot frame: it starts the program, or throws, or ends. -/
def resume (awaited : Option Text) (s : State ν) : State ν :=
  match (awaited.bind parse : Option (Json ν)) with
  | none => { s with resumed := true }
  | some boot =>
    if isBoot boot then { s with resumed := true, started := s.started + 1, nextId := 1 }
    else { s with resumed := true }

/-- What a call that cannot be sent is rejected with. -/
def unsent (b : Builtins ν) (binding : Binding) (message : Text) : Outcome ν :=
  .rejected ((b.reject binding message).getD .thrown)

/-- The program calls a binding. `args` is what `flatten` made of the arguments, and `refused` is
the text of the error with which sending the frame threw. A call that throws before it gives a
promise is rejected with `.thrown` here. -/
def call (binding : Binding) (args : Option (List (Json ν))) (refused : Option Text) (s : State ν) :
    State ν :=
  let place := s.calls.length
  match args with
  | none =>
    { s with
      calls := s.calls ++ [⟨binding, none⟩]
      settled := s.settled ++ [⟨place,
        unsent s.builtins binding (ascii "binding arguments must be lossless JSON"), .unsent⟩] }
  | some args =>
    let id := s.nextId
    let others : List (ℕ × ℕ) := s.replies.filter fun entry => entry.1 ≠ id
    match refused with
    | none =>
      { s with
        nextId := id + 1
        calls := s.calls ++ [⟨binding, some id⟩]
        replies := (id, place) :: others
        sent := s.sent ++ [⟨id, binding.global, binding.name, args⟩] }
    | some detail =>
      { s with
        nextId := id + 1
        calls := s.calls ++ [⟨binding, some id⟩]
        replies := others
        settled := s.settled ++ [⟨place, unsent s.builtins binding
          (ascii "binding arguments must be structured-cloneable: " ++ detail), .unsent⟩] }

/-- What may happen: the host delivers a frame or the notice that the channel closed, `main` goes
on, and the program calls a binding or replaces built-in functions. -/
inductive Event (ν : Type) where
  | frame (text : Text)
  | close
  | resume
  | call (binding : Binding) (args : Option (List (Json ν))) (refused : Option Text)
  | replace (builtins : Builtins ν)

/-- One step. The host ends when the handler throws; only a program that was started calls and
replaces. -/
def step (s : State ν) (e : Event ν) : Option (State ν) :=
  if s.threw then none
  else
    match e with
    | .frame text => some (onFrame text s)
    | .close => some (settleBoot none s)
    | .resume =>
      match s.awaited with
      | none => none
      | some awaited => if s.resumed then none else some (resume awaited s)
    | .call binding args refused =>
      if s.started = 0 then none else some (PtcBindings.call binding args refused s)
    | .replace builtins => if s.started = 0 then none else some { s with builtins := builtins }

/-- The bootstrap, when `main` awaits the boot frame. -/
def machine (ν : Type) [JsNumber ν] : Machine (State ν) (Event ν) where
  init :=
    { bootSettled := false
      awaited := none
      resumed := false
      started := 0
      nextId := 1
      replies := []
      builtins := .own
      calls := []
      sent := []
      settled := []
      threw := false }
  step := step

end RemoteWorkspace.Model.PtcBindings
