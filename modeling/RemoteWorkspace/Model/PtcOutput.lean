import Mathlib.Algebra.GroupWithZero.Nat
import RemoteWorkspace.Computation.Machine
import RemoteWorkspace.Model.PtcCodec

/-!
# The output of a program

The program host keeps a ledger of what a program prints: each line is charged with the bytes that
it takes in the JSON array of all lines, and what is left is the room of the completion. Lines may
be printed at any time, also behind the completion, by what the program left running.

The built-in functions are the language's own: a program that replaces them changes what its
output is charged with.
-/

set_option autoImplicit false

namespace RemoteWorkspace.Model.PtcOutput

open RemoteWorkspace.Computation
open RemoteWorkspace.Computation.Json
open RemoteWorkspace.Model.PtcCodec

/-! ### Sizes of strings -/

/-- What a character costs, and how many code units it takes. -/
structure CharacterCost where
  cost : ℕ
  width : ℕ

/-- The cost of the character that starts with a code unit, by the unit that follows. -/
def characterCost (code : UInt16) (low : Option UInt16) : CharacterCost :=
  if (0xD800 ≤ code ∧ code ≤ 0xDBFF) ∧ low.any (fun low => 0xDC00 ≤ low ∧ low ≤ 0xDFFF) then ⟨4, 2⟩
  else if 0xD800 ≤ code ∧ code ≤ 0xDFFF then ⟨6, 1⟩
  else if code = 8 ∨ code = 9 ∨ code = 10 ∨ code = 12 ∨ code = 13 ∨ code = 34 ∨ code = 92 then
    ⟨2, 1⟩
  else if code < 32 then ⟨6, 1⟩
  else if code < 0x80 then ⟨1, 1⟩
  else if code < 0x800 then ⟨2, 1⟩
  else ⟨3, 1⟩

/-- Whether a number of bytes is above a limit; `none` is no limit. -/
def exceeds (limit : Option ℤ) (bytes : ℕ) : Bool := limit.any fun limit => limit < (bytes : ℤ)

/-- The loop of `jsonStringBytesUpTo`. -/
def jsonStringBytesFrom (limit : Option ℤ) (bytes : ℕ) : Text → Option ℕ
  | [] => some bytes
  | [u] =>
    let step := characterCost u none
    if exceeds limit (bytes + step.cost) then none else some (bytes + step.cost)
  | u :: v :: us =>
    let step := characterCost u (some v)
    if exceeds limit (bytes + step.cost) then none
    else if step.width = 2 then jsonStringBytesFrom limit (bytes + step.cost) us
    else jsonStringBytesFrom limit (bytes + step.cost) (v :: us)

/-- The bytes of a string's JSON text, when they are within the limit. -/
def jsonStringBytesUpTo (text : Text) (limit : Option ℤ) : Option ℕ :=
  if exceeds limit 2 then none else jsonStringBytesFrom limit 2 text

/-- The bytes of a string's JSON text; without a limit there always are some. -/
def jsonStringBytes (text : Text) : ℕ := (jsonStringBytesUpTo text none).getD 0

/-- The loop of `truncateJsonString`. -/
def truncateFrom (limit : ℤ) (bytes : ℕ) : Text → Text
  | [] => []
  | [u] =>
    let step := characterCost u none
    if limit < (bytes + step.cost : ℕ) then [] else [u]
  | u :: v :: us =>
    let step := characterCost u (some v)
    if limit < (bytes + step.cost : ℕ) then []
    else if step.width = 2 then u :: v :: truncateFrom limit (bytes + step.cost) us
    else u :: truncateFrom limit (bytes + step.cost) (v :: us)

/-- The longest beginning of a string whose JSON text is within the limit. -/
def truncateJsonString (text : Text) (limit : ℤ) : Text :=
  if limit < 2 then [] else truncateFrom limit 2 text

variable {ν : Type} [JsNumber ν]

/-! ### Completions -/

/-- Why a program failed. -/
inductive ErrorKind where
  | outputLimit
  | invalidOutput
  | exception
  deriving DecidableEq

/-- What a done frame carries. -/
inductive Completion (ν : Type) where
  | empty
  | value (wire : List (Json ν))
  | error (kind : ErrorKind) (message : Text)

/-- What the program host sends of a program's output. -/
inductive Frame (ν : Type) where
  | log (text : Text)
  | outputLimit
  | done (completion : Completion ν)

/-- The bytes that a token of a value is charged with. -/
def tokenBytes : Json ν → ℕ
  | .null => 4
  | .bool b => if b then 4 else 5
  | .num x => (JsNumber.write x).length
  | .str s => jsonStringBytes s
  | .obj members =>
    2 + match member kindKey members, member keysKey members with
      | some (.str kind), some (.arr keys) =>
        if kind = ascii "object" then
          (keys.map fun key => match key with
            | .str s => jsonStringBytes s + 1
            | _ => 0).sum
        else 0
      | _, _ => 0
  | .arr _ => 2

/-- The bytes that a value is charged with. -/
def wireBytes (wire : List (Json ν)) : ℕ := (wire.map tokenBytes).sum

/-- The notice of an exhausted budget. -/
def overflowMessage (maxOutputBytes : ℕ) : Text :=
  ascii ("outer output exceeded " ++ toString maxOutputBytes ++ " bytes")

/-- The completion of an exhausted budget. -/
def overflow (maxOutputBytes : ℕ) : Completion ν :=
  .error .outputLimit (overflowMessage maxOutputBytes)

/-- A failure, when its message fits. -/
def failure (kind : ErrorKind) (message : Text) (remaining : ℤ) (maxOutputBytes : ℕ) :
    Completion ν :=
  match jsonStringBytesUpTo message (some remaining) with
  | none => overflow maxOutputBytes
  | some _ => .error kind message

/-- The completion of a value that the program returned, with what `flatten` made of it. -/
def completionOf (flattened : Option (List (Json ν))) (remaining : ℤ) (maxOutputBytes : ℕ) :
    Completion ν :=
  match flattened with
  | none =>
    failure .invalidOutput (ascii "program completion must be lossless JSON") remaining
      maxOutputBytes
  | some wire => if remaining < wireBytes wire then overflow maxOutputBytes else .value wire

/-- The completion of a value, within `fuel` iterations of `flatten`. -/
def completion {n : ℕ} (heap : Heap ν n) (value : Value ν n) (fuel : ℕ) (remaining : ℤ)
    (maxOutputBytes : ℕ) : Option (Completion ν) :=
  match value with
  | .undefined => some .empty
  | value => (flattenLoop heap fuel ⟨[], ∅, [.value value]⟩).map fun flattened =>
      completionOf flattened remaining maxOutputBytes

/-- The completion of a program that threw: the text that the error was rendered as, or `none`
where rendering it threw, too. -/
def exception (rendered : Option Text) (remaining : ℤ) (maxOutputBytes : ℕ) : Completion ν :=
  failure .exception (rendered.getD (ascii "program threw an unrenderable value")) remaining
    maxOutputBytes

/-! ### The ledger -/

/-- The ledger of a program's output. -/
structure Ledger where
  maxBytes : ℕ
  bytes : ℕ
  entries : ℕ
  truncated : Bool

/-- A ledger without entries: the brackets of the array. -/
def Ledger.new (maxBytes : ℕ) : Ledger := ⟨maxBytes, 2, 0, false⟩

/-- The comma before the next entry. -/
def Ledger.separator (l : Ledger) : ℕ := if 0 < l.entries then 1 else 0

/-- What is left of the budget for the next entry. -/
def Ledger.available (l : Ledger) : ℤ := (l.maxBytes : ℤ) - l.bytes - l.separator

/-- What is left of the budget. -/
def Ledger.remaining (l : Ledger) : ℤ := (l.maxBytes : ℤ) - l.bytes

/-- Charge an entry of that many bytes. -/
def Ledger.charge (l : Ledger) (bytes : ℕ) : Ledger :=
  { l with bytes := l.bytes + (bytes + l.separator), entries := l.entries + 1 }

/-- Print a line: what the ledger is then, and the frames that are sent. -/
def Ledger.push (l : Ledger) (text : Text) : Ledger × List (Frame ν) :=
  if l.truncated then (l, [])
  else
    match jsonStringBytesUpTo text (some l.available) with
    | none =>
      let kept := truncateJsonString text l.available
      if 0 < kept.length then
        ({ l with truncated := true }.charge (jsonStringBytes kept), [.log kept, .outputLimit])
      else ({ l with truncated := true }, [.outputLimit])
    | some bytes => (l.charge bytes, [.log text])

/-! ### Runs -/

/-- The ledger, and what was sent. -/
structure State (ν : Type) where
  ledger : Ledger
  frames : List (Frame ν)

/-- The completion that was sent. -/
def State.done (s : State ν) : Option (Completion ν) :=
  s.frames.findSome? fun frame => match frame with
    | .done completion => some completion
    | _ => none

/-- The lines that were sent. -/
def State.logs (s : State ν) : List Text :=
  s.frames.filterMap fun frame => match frame with
    | .log text => some text
    | _ => none

/-- What a program does: it prints a line, returns a value, or throws. -/
inductive Event (ν : Type) where
  | print (text : Text)
  | returns {n : ℕ} (heap : Heap ν n) (value : Value ν n) (fuel : ℕ)
  | throws (rendered : Option Text)

/-- One step of a program that is given `maxOutputBytes`. A program ends once. -/
def step (maxOutputBytes : ℕ) (s : State ν) : Event ν → Option (State ν)
  | .print text =>
    let pushed := s.ledger.push text
    some ⟨pushed.1, s.frames ++ pushed.2⟩
  | .returns heap value fuel =>
    if s.done.isSome then none
    else
      (completion heap value fuel s.ledger.remaining maxOutputBytes).map fun completion =>
        { s with frames := s.frames ++ [.done completion] }
  | .throws rendered =>
    if s.done.isSome then none
    else
      some { s with
        frames := s.frames ++ [.done (exception rendered s.ledger.remaining maxOutputBytes)] }

/-- The output of a program that is given `maxOutputBytes`. -/
def machine (ν : Type) [JsNumber ν] (maxOutputBytes : ℕ) : Machine (State ν) (Event ν) where
  init := ⟨.new maxOutputBytes, []⟩
  step := step maxOutputBytes

end RemoteWorkspace.Model.PtcOutput
