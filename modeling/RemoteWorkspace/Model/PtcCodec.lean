import Mathlib.Data.Finset.Basic
import RemoteWorkspace.Computation.JsonText

/-!
# The value codec of the program host

A value of a program crosses the control channel as a flat list of tokens in pre-order: a scalar
stands for itself, and a container is a marker followed by its children. `flatten` walks a value
of the language with an explicit stack; `unflatten` builds one from the tokens that a frame
carried, with a stack of the containers that still lack children.

The values that a program can hand over live in a heap of objects, which may be shared and may
hold each other. The ones that the codec rejects on sight are told apart no further.
-/

set_option autoImplicit false

namespace RemoteWorkspace.Model.PtcCodec

open RemoteWorkspace.Computation
open RemoteWorkspace.Computation.Json

/-! ### Values of a program -/

/-- A value, next to a heap of `n` objects. -/
inductive Value (ν : Type) (n : ℕ) where
  | undefined
  | null
  | bool (b : Bool)
  | num (x : ν)
  | str (s : Text)
  | ref (o : Fin n)
  /-- A bigint, a symbol or a function. -/
  | other

/-- The prototype of an object. -/
inductive Prototype where
  | null
  | object
  | array
  | other
  deriving DecidableEq

/-- A property key. -/
inductive Key where
  | str (s : Text)
  | symbol
  deriving DecidableEq

/-- The text of a key that is a string. -/
def Key.text : Key → Option Text
  | .str s => some s
  | .symbol => none

/-- A property of an object that holds a value. -/
structure Property (ν : Type) (n : ℕ) where
  key : Key
  value : Value ν n
  enumerable : Bool

/-- The text of an enumerable key that is a string. -/
def Property.text {ν : Type} {n : ℕ} (p : Property ν n) : Option Text :=
  if p.enumerable then p.key.text else none

/-- An array: its elements, with the holes, and the number of its other own keys besides
`length`. -/
structure ArrayObject (ν : Type) (n : ℕ) where
  prototype : Prototype
  slots : List (Option (Value ν n))
  others : ℕ
  length_lt : slots.length < 1 <<< 32

/-- The number of own keys of an array. -/
def ArrayObject.ownKeys {ν : Type} {n : ℕ} (a : ArrayObject ν n) : ℕ :=
  (a.slots.filter Option.isSome).length + 1 + a.others

/-- Any other object: its own properties in the order of `Reflect.ownKeys`. -/
structure OtherObject (ν : Type) (n : ℕ) where
  prototype : Prototype
  properties : List (Property ν n)
  inOrder : InOrder (properties.filterMap fun p => p.key.text)

/-- An object. -/
inductive Object (ν : Type) (n : ℕ) where
  | array (a : ArrayObject ν n)
  | other (o : OtherObject ν n)

/-- The objects that values refer to. -/
abbrev Heap (ν : Type) (n : ℕ) := Fin n → Object ν n

variable {ν : Type} [JsNumber ν]

/-! ### Markers -/

/-- The member `kind` of a marker. -/
def kindKey : Text := ascii "kind"

/-- The member `length` of an array's marker. -/
def lengthKey : Text := ascii "length"

/-- The member `keys` of an object's marker. -/
def keysKey : Text := ascii "keys"

/-- The marker of an array. -/
def arrayMarker (length : ℕ) : Json ν :=
  .obj [(kindKey, .str (ascii "array")), (lengthKey, .num (JsNumber.ofNat length))]

/-- The marker of an object. -/
def objectMarker (keys : List Text) : Json ν :=
  .obj [(kindKey, .str (ascii "object")), (keysKey, .arr (keys.map .str))]

/-! ### Flattening -/

section Flatten

variable {n : ℕ}

/-- What is on the stack: a value to visit, or an object to leave. -/
inductive Task (ν : Type) (n : ℕ) where
  | value (v : Value ν n)
  | leave (o : Fin n)

/-- The variables of `flatten`; the top of the stack comes first. -/
structure Walk (ν : Type) (n : ℕ) where
  wire : List (Json ν)
  active : Finset (Fin n)
  stack : List (Task ν n)

/-- A scalar goes on the wire as it is. -/
def Walk.push (s : Walk ν n) (token : Json ν) : Walk ν n := { s with wire := s.wire ++ [token] }

/-- Visit a container: its marker goes on the wire, and its children on the stack, above the note
to leave it. -/
def Walk.enter (s : Walk ν n) (o : Fin n) (marker : Json ν) (children : List (Value ν n)) :
    Walk ν n :=
  { wire := s.wire ++ [marker]
    active := insert o s.active
    stack := children.map .value ++ .leave o :: s.stack }

/-- One task; with `none`, `flatten` returns `undefined`. -/
def Walk.step (heap : Heap ν n) (s : Walk ν n) : Task ν n → Option (Walk ν n)
  | .leave o => some { s with active := s.active.erase o }
  | .value .null => some (s.push .null)
  | .value (.bool b) => some (s.push (.bool b))
  | .value (.str t) => some (s.push (.str t))
  | .value (.num x) =>
    if JsNumber.isFinite x = false ∨ JsNumber.isNegativeZero x = true then none
    else some (s.push (.num x))
  | .value .undefined => none
  | .value .other => none
  | .value (.ref o) =>
    if o ∈ s.active then none
    else
      match heap o with
      | .array a =>
        if a.prototype ≠ .array then none
        else if a.ownKeys ≠ a.slots.length + 1 then none
        else (a.slots.mapM id).map fun values => s.enter o (arrayMarker a.slots.length) values
      | .other p =>
        if p.prototype ≠ .null ∧ p.prototype ≠ .object then none
        else
          (p.properties.mapM Property.text).map fun keys =>
            s.enter o (objectMarker keys) (p.properties.map Property.value)

/-- The loop of `flatten`, of which at most `fuel` iterations are run; with `none` it has not
returned by then. -/
def flattenLoop (heap : Heap ν n) : ℕ → Walk ν n → Option (Option (List (Json ν)))
  | 0, _ => none
  | fuel + 1, s =>
    match s.stack with
    | [] => some (some s.wire)
    | task :: stack =>
      match Walk.step heap { s with stack := stack } task with
      | none => some none
      | some s => flattenLoop heap fuel s

/-- What `flatten` returns for a value; `none` is `undefined`. -/
def Flatten (heap : Heap ν n) (root : Value ν n) (result : Option (List (Json ν))) : Prop :=
  ∃ fuel, flattenLoop heap fuel ⟨[], ∅, [.value root]⟩ = some result

end Flatten

/-! ### Unflattening -/

/-- A marker that was checked. -/
inductive Marker where
  | array (length : ℕ)
  | object (keys : List Text)
  deriving DecidableEq

/-- The number of children that a marker asks for. -/
def Marker.length : Marker → ℕ
  | .array length => length
  | .object keys => keys.length

/-- The value of a member. -/
def member (key : Text) (members : List (Text × Json ν)) : Option (Json ν) :=
  (members.find? fun m => m.1 = key).map Prod.snd

/-- One more key of an object's marker: a string, and none of those before it. -/
def addKey (normalized : List Text) : Json ν → Option (List Text)
  | .str key => if key ∈ normalized then none else some (normalized ++ [key])
  | _ => none

/-- The keys of an object's marker. -/
def markerKeys (keys : List (Json ν)) : Option (List Text) := keys.foldlM addKey []

/-- Whether an object has two members, of these keys. -/
def hasBoth (members : List (Text × Json ν)) (key other : Text) : Bool :=
  members.length = 2 ∧ key ∈ members.map Prod.fst ∧ other ∈ members.map Prod.fst

/-- Read a token that is no scalar as a marker. An array that was parsed has no holes and no keys
besides its indices. -/
def containerMarker : Json ν → Option Marker
  | .obj members =>
    match member kindKey members with
    | some (.str kind) =>
      if kind = ascii "array" then
        if !hasBoth members kindKey lengthKey then none
        else
          match member lengthKey members with
          | some (.num length) => (JsNumber.toNat length).map .array
          | _ => none
      else if kind = ascii "object" then
        if !hasBoth members kindKey keysKey then none
        else
          match member keysKey members with
          | some (.arr keys) => (markerKeys keys).map .object
          | _ => none
      else none
    | _ => none
  | _ => none

/-- A value that was built: a scalar or an empty container as it is, and any other container by
the number of its frame. -/
inductive Slot (ν : Type) where
  | value (v : Json ν)
  | container (id : ℕ)

/-- A frame: what its marker asks for, how many children it was given, and the container that it
builds. -/
inductive Frame (ν : Type) where
  | array (length index : ℕ) (target : List (Slot ν))
  | object (keys : List Text) (index : ℕ) (target : List (Text × Slot ν))

/-- The frame of a container that is still empty. -/
def Marker.frame : Marker → Frame ν
  | .array length => .array length 0 []
  | .object keys => .object keys 0 []

/-- Whether a frame has all its children. -/
def Frame.complete : Frame ν → Bool
  | .array length index _ => length ≤ index
  | .object keys index _ => keys.length ≤ index

/-- Give a frame its next child. -/
def Frame.give (value : Slot ν) : Frame ν → Frame ν
  | .array length index target => .array length (index + 1) (target ++ [value])
  | .object keys index target =>
    .object keys (index + 1) (define (keys.getD index []) value target)

/-- The variables of `unflatten`: the frames that were made, the stack of them, the top first, the
variable `frame`, which keeps its value from one iteration to the next, and the root. -/
structure Build (ν : Type) where
  made : List (Frame ν)
  frames : List ℕ
  frame : Option ℕ
  root : Option (Slot ν)

/-- Whether the frame of a number has all its children. -/
def Build.complete (s : Build ν) (id : ℕ) : Bool := (s.made[id]?).all Frame.complete

/-- The value of a token, with its frame when it is a container that is not empty. -/
def Build.value (s : Build ν) (token : Json ν) (remaining : ℕ) : Option (Slot ν × Build ν) :=
  match token with
  | .null | .bool _ | .str _ => some (.value token, s)
  | .num x =>
    if JsNumber.isFinite x = false ∨ JsNumber.isNegativeZero x = true then none
    else some (.value token, s)
  | token =>
    (containerMarker token).bind fun marker =>
      if remaining < marker.length then none
      else if 0 < marker.length then
        some (.container s.made.length,
          { s with
            made := s.made ++ [marker.frame]
            frame := some s.made.length })
      else
        match marker with
        | .array _ => some (.value (.arr []), s)
        | .object _ => some (.value (.obj []), s)

/-- Put a value where it belongs: at the root, or in the frame on top of the stack. -/
def Build.place (s : Build ν) (value : Slot ν) : Option (Build ν) :=
  match s.frames with
  | [] => if s.root.isSome then none else some { s with root := some value }
  | parent :: _ =>
    if s.complete parent then none
    else some { s with made := s.made.modify parent (Frame.give value) }

/-- Push the variable `frame`, and take the complete frames off the stack. -/
def Build.settle (s : Build ν) : Build ν :=
  let frames := s.frame.toList ++ s.frames
  { s with frames := frames.dropWhile s.complete }

/-- One iteration of `unflatten`. -/
def Build.step (s : Build ν) (token : Json ν) (remaining : ℕ) : Option (Build ν) :=
  (s.value token remaining).bind fun v => (v.2.place v.1).map Build.settle

/-- The loop of `unflatten`. -/
def Build.loop : Build ν → List (Json ν) → Option (Build ν)
  | s, [] => some s
  | s, token :: input => (s.step token input.length).bind fun s => s.loop input

/-- The value that was built, at a depth of at most `fuel`. -/
def Build.result (s : Build ν) : ℕ → Slot ν → Option (Json ν)
  | _, .value v => some v
  | 0, .container _ => none
  | fuel + 1, .container id =>
    match s.made[id]? with
    | none => none
    | some (.array _ _ target) => (target.mapM (s.result fuel)).map .arr
    | some (.object _ _ target) =>
      (target.mapM fun m => (s.result fuel m.2).map fun v => (m.1, v)).map .obj

/-- `unflatten`; `none` is `undefined`. -/
def unflatten : Json ν → Option (Json ν)
  | .arr input =>
    (Build.loop ⟨[], [], none, none⟩ input).bind fun s =>
      if s.frames = [] then s.root.bind (s.result s.made.length) else none
  | _ => none

end RemoteWorkspace.Model.PtcCodec
