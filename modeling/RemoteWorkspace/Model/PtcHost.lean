import RemoteWorkspace.Computation.Machine

/-!
# The loop of the program host

The host tests whether the root promise of the bootstrap is pending, reads a frame, hands it to
the handler that the bootstrap published, and tests again. It finds the promise and the two
handlers as properties of the global object, by name and each time anew. The program runs while a
handler is called, while the engine's tasks are pumped, and in an accessor that it has put in the
place of one of the properties.
-/

set_option autoImplicit false

namespace RemoteWorkspace.Model.PtcHost

open RemoteWorkspace.Computation

/-! ### The global object -/

/-- The properties that the bootstrap publishes. -/
inductive Name where
  | onFrame
  | onClose
  | root
  deriving DecidableEq

/-- The name of the property. -/
def Name.text : Name → String
  | .onFrame => "__dsh_onFrame"
  | .onClose => "__dsh_onClose"
  | .root => "__dsh_root"

/-- A function: one of the bootstrap's handlers, or any other. -/
inductive JsFunction where
  | onFrame
  | onClose
  | other (n : ℕ)
  deriving DecidableEq

/-- A promise: the root promise, or any other. -/
inductive Promise where
  | root
  | other (n : ℕ)
  deriving DecidableEq

/-- A value. -/
inductive Value where
  | function (f : JsFunction)
  | promise (p : Promise)
  | other
  deriving DecidableEq

/-- A property: a value, or an accessor that gives a value or throws. -/
inductive Property where
  | data (value : Value)
  | accessor (gives : Option Value)
  deriving DecidableEq

/-- What the host gets of a property; a missing one is `undefined`, and nothing is got of an
accessor that throws. -/
def Property.get : Option Property → Option Value
  | none => some .other
  | some (.data value) => some value
  | some (.accessor gives) => gives

/-- The value that the bootstrap has published under a name. -/
def published : Name → Value
  | .onFrame => .function .onFrame
  | .onClose => .function .onClose
  | .root => .promise .root

/-! ### Runs -/

/-- What the host asks for. -/
inductive Asked where
  | test
  | deliver (text : String)
  | close
  deriving DecidableEq

/-- What it reaches: a promise that is looked at, or a function that is called. -/
inductive Reached where
  | tested (p : Promise)
  | called (f : JsFunction) (text : Option String)
  deriving DecidableEq

/-- How the host ends. -/
inductive Ending where
  | success
  | failure (message : String)
  deriving DecidableEq

/-- The state of the host. `tested` is whether the root promise was found pending and no frame
has been read since; `settled` tells which promises are not pending. -/
structure State where
  global : Name → Option Property
  settled : Promise → Bool
  tested : Bool
  ended : Option Ending
  asked : List Asked
  reached : List Reached

/-- Whether the program is still waiting for a frame, with the promise that tells. -/
def pending (s : State) : Except String (Promise × Bool) :=
  match Property.get (s.global .root) with
  | none => .error "the program host left no root promise"
  | some (.promise p) => .ok (p, !s.settled p)
  | some _ => .error "the program host root is not a promise"

/-- The function of a name. -/
def globalFunction (s : State) (name : Name) : Except String JsFunction :=
  match Property.get (s.global name) with
  | none => .error s!"the program host left no {name.text}"
  | some (.function f) => .ok f
  | some _ => .error s!"{name.text} is not a function"

/-- The host fails. -/
def State.fail (s : State) (message : String) : State := { s with ended := some (.failure message) }

/-- One test of the loop. -/
def test (s : State) : State :=
  let s' : State := { s with asked := s.asked ++ [.test] }
  match pending s with
  | .error message => s'.fail message
  | .ok (p, true) => { s' with tested := true, reached := s.reached ++ [.tested p] }
  | .ok (p, false) => { s' with ended := some .success, reached := s.reached ++ [.tested p] }

/-- The call of a handler that was found, with what it threw. -/
def called (s : State) (name : Name) (f : JsFunction) (text : Option String)
    (thrown : Option String) : State :=
  let s' : State := { s with reached := s.reached ++ [.called f text] }
  match thrown with
  | none => s'
  | some detail => s'.fail s!"the program host threw handling {name.text}: {detail}"

/-- A frame is delivered. `fits` tells whether the engine takes a text for a string. -/
def deliver (fits : String → Bool) (text : String) (thrown : Option String) (s : State) : State :=
  let s' : State :=
    { s with tested := false, asked := s.asked ++ if fits text then [.deliver text] else [] }
  match globalFunction s .onFrame with
  | .error message => s'.fail message
  | .ok f =>
    if fits text then called s' .onFrame f (some text) thrown
    else s'.fail "an incoming control frame did not fit a V8 string"

/-- The bootstrap is told that the channel closed, and the loop ends. -/
def close (thrown : Option String) (s : State) : State :=
  let s' : State := { s with asked := s.asked ++ [.close] }
  match globalFunction s .onClose with
  | .error message => s'.fail message
  | .ok f =>
    match thrown with
    | none => { called s' .onClose f none none with ended := some .success }
    | some detail => called s' .onClose f none (some detail)

/-- What may happen: the program puts a property into the global object or deletes it, a promise
is settled, and the host tests, reads a frame, the end of the channel or an error. What the
function that a frame or the notice is handed to throws is part of the event. -/
inductive Event where
  | assign (name : Name) (property : Option Property)
  | settle (p : Promise)
  | test
  | frame (text : String) (thrown : Option String)
  | close (thrown : Option String)
  | readError (detail : String)

/-- One step; nothing happens behind the end of the host. -/
def step (fits : String → Bool) (s : State) (e : Event) : Option State :=
  if s.ended.isSome then none
  else
    match e with
    | .assign name property => some { s with global := Function.update s.global name property }
    | .settle p => some { s with settled := Function.update s.settled p true }
    | .test => if s.tested then none else some (test s)
    | .frame text thrown => if s.tested then some (deliver fits text thrown s) else none
    | .close thrown => if s.tested then some (close thrown s) else none
    | .readError detail =>
      if s.tested then some (s.fail s!"reading a control frame failed: {detail}") else none

/-- The host behind the bootstrap script. -/
def machine (fits : String → Bool) : Machine State Event where
  init :=
    { global := fun name => some (.data (published name))
      settled := fun _ => false
      tested := false
      ended := none
      asked := []
      reached := [] }
  step := step fits

end RemoteWorkspace.Model.PtcHost
