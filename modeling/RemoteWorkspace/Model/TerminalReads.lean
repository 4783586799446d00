import Mathlib.Data.Rat.Floor
import RemoteWorkspace.Computation.Utf8
import RemoteWorkspace.Model.TerminalRegistry

/-!
# Addressing and reading a terminal

The operations of the registry that a Session's calls go through (registry.ts:549-673):
`listFor` and `requireOwned` look at the terminals of one Session, `write`, `keys`, `read`
and `wait` at the terminal of an id. A text is a list of characters, as decoding yields it;
a number that a caller passes is a finite one, and its rounding is not part of this model.
What a regular expression matches is left to the caller of `matcher`.
-/

set_option autoImplicit false

namespace RemoteWorkspace.Model

open RemoteWorkspace.Computation

namespace TerminalRegistry

/-- A finite number of a caller. -/
abbrev JsNumber := ℚ

/-- `Math.trunc`. -/
def trunc (x : JsNumber) : ℤ := if 0 ≤ x then ⌊x⌋ else ⌈x⌉

/-- A count of a caller, or the default, between 1 and a bound. -/
def clampCount (x : Option JsNumber) (default bound : ℕ) : ℕ :=
  (min (max (trunc (x.getD default)) 1) bound).toNat

/-- registry.ts:309 -/
def defaultReadLines : ℕ := 200

/-- registry.ts:312 -/
def maxReadLines : ℕ := 2000

/-- registry.ts:315 -/
def defaultWaitMs : ℕ := 30000

/-- registry.ts:318 -/
def maxWaitMs : ℕ := 300000

/-! ### Keys -/

/-- `KEYS` (registry.ts:326-350). -/
def keys : List (String × String) :=
  [("enter", "\r"), ("esc", "\x1b"), ("escape", "\x1b"), ("tab", "\t"), ("backspace", "\x7f"),
    ("delete", "\x1b[3~"), ("up", "\x1b[A"), ("down", "\x1b[B"), ("right", "\x1b[C"),
    ("left", "\x1b[D"), ("home", "\x1b[H"), ("end", "\x1b[F"), ("pageup", "\x1b[5~"),
    ("pagedown", "\x1b[6~"), ("space", " ")] ++
  (List.range 26).map fun index =>
    ("ctrl+" ++ String.singleton (Char.ofNat (97 + index)),
      String.singleton (Char.ofNat (index + 1)))

/-- `KEY_NAMES`. -/
def keyNames : List String := keys.map Prod.fst

/-- What every object inherits, written out as a string. -/
def inherited : List (String × String) :=
  ["constructor", "__defineGetter__", "__defineSetter__", "hasOwnProperty", "__lookupGetter__",
    "__lookupSetter__", "isPrototypeOf", "propertyIsEnumerable", "toString", "valueOf",
    "toLocaleString"].map (fun name =>
      (name, "function " ++ (if name = "constructor" then "Object" else name) ++
        "() \x7b [native code] \x7d")) ++
  [("__proto__", "[object Object]")]

/-- `KEYS[name]`, as `join` writes it. -/
def keySequence (name : String) : Option String :=
  (keys.lookup name).or (inherited.lookup name)

/-! ### Retained output -/

/-- `text.split('\n')`. -/
def splitLines : List Char → List (List Char)
  | [] => [[]]
  | c :: rest =>
    if c = '\n' then [] :: splitLines rest
    else
      match splitLines rest with
      | [] => [[c]]
      | line :: lines => (c :: line) :: lines

/-- `tailLines` (registry.ts:388-392). -/
def tailLines (text : List Char) (lines : ℕ) : List Char × Bool :=
  let parts := splitLines text
  if parts.length ≤ lines then (text, false)
  else (['\n'].intercalate (parts.drop (parts.length - lines)), true)

/-- `textFrom` (registry.ts:379-385). -/
def textFrom (entry : TerminalEntry) (start : JsNumber) : List Char × Bool :=
  let first := max start entry.dropped
  (Utf8.decode (entry.buffer.drop (trunc (first - entry.dropped)).toNat),
    decide (start < entry.dropped))

/-- `Buffer.byteLength`. -/
def byteLength (text : List Char) : ℕ := (Utf8.encode text).length

/-- `retainedStart` (registry.ts:400-404). -/
def retainedStart (entry : TerminalEntry) : ℕ :=
  let seen := (textFrom entry entry.dropped).1
  let tail := (tailLines seen defaultReadLines).1
  max entry.dropped (entry.bytes - byteLength tail)

/-- One bounded page of retained output (registry.ts:128-134). -/
structure TerminalRead where
  id : String
  offset : ℕ
  text : List Char
  truncated : Bool
  deriving DecidableEq

/-- What `read` makes of an entry (registry.ts:616-628). -/
def TerminalEntry.read (entry : TerminalEntry) (offset lines : Option JsNumber) : TerminalRead :=
  let cap := clampCount lines defaultReadLines maxReadLines
  let seen := textFrom entry (offset.getD entry.dropped)
  let tail := tailLines seen.1 cap
  ⟨entry.id, entry.bytes, tail.1, seen.2 || tail.2⟩

/-- `read`. -/
def read (s : Registry) (id : String) (offset lines : Option JsNumber) :
    Except String (ℕ × TerminalRead) := do
  let n ← entryOf s id
  pure (n, (s.entries n).read offset lines)

/-! ### What one Session has open -/

/-- One terminal, as the list reports it (registry.ts:76-99). -/
structure TerminalView where
  id : String
  label : String
  cwd : String
  machine : String
  pid : ℕ
  state : TerminalState
  cols : ℕ
  rows : ℕ
  deriving DecidableEq

/-- The view of one entry. -/
def TerminalEntry.view (entry : TerminalEntry) : TerminalView :=
  ⟨entry.id, entry.label, entry.cwd, entry.machine, entry.handle.pid, entry.state, entry.cols,
    entry.rows⟩

/-- The entries of one Session, in the order they were registered. -/
def Registry.mine (s : Registry) (sessionId : String) : List ℕ :=
  s.table.filter fun n => (s.entries n).sessionId = sessionId

/-- `listFor` (registry.ts:549-562). -/
def listFor (s : Registry) (sessionId : String) : List TerminalView :=
  (s.mine sessionId).map fun n => (s.entries n).view

/-- `describe` (registry.ts:730-732). -/
def describe (entries : List TerminalEntry) : String :=
  ", ".intercalate (entries.map fun entry => entry.id ++ " (" ++ entry.label ++ ")")

/-- `requireOwned` (registry.ts:564-591). -/
def requireOwned (s : Registry) (sessionId : String) (id : Option String) : Except String ℕ :=
  let mine := s.mine sessionId
  let shown (l : List ℕ) := describe (l.map s.entries)
  match id with
  | some id =>
    match mine.find? fun n => (s.entries n).id = id with
    | none =>
      .error ("no terminal \"" ++ id ++ "\" is open in this session" ++
        if mine.length = 0 then "; this session has no open terminal"
        else "; open terminals: " ++ shown mine)
    | some n => requireLive s n
  | none =>
    match mine.filter fun n => (s.entries n).state ≠ .exited with
    | [] =>
      .error (if mine.length = 0 then "this session has no open terminal; open one in the sidebar first"
        else "every terminal in this session has exited: " ++ shown mine)
    | [n] => .ok n
    | live =>
      .error ("this session has " ++ toString live.length ++ " open terminals; " ++
        "pass \"terminal\" with one of: " ++ shown live)

/-! ### Input -/

/-- `write`, up to its await: the entry it writes to (registry.ts:593-597). -/
def write (s : Registry) (id : String) : Except String ℕ := do
  let n ← entryOf s id
  requireLive s n

/-- The bytes of some keys (registry.ts:603-611). -/
def keyBytes (names : List String) : Except String String := do
  let sequences ← names.mapM fun name =>
    match keySequence name with
    | none => Except.error ("unknown key \"" ++ name ++ "\"; known keys are " ++
        ", ".intercalate keyNames)
    | some sequence => Except.ok sequence
  pure (String.join sequences)

/-- `keys`, up to its await: the entry it writes to, and what (registry.ts:599-614). -/
def sendKeys (s : Registry) (id : String) (names : List String) : Except String (ℕ × String) := do
  let n ← entryOf s id
  let n ← requireLive s n
  let bytes ← keyBytes names
  pure (n, bytes)

/-- What a call of `keys` answers. -/
structure KeysAnswer where
  bytes : ℕ
  keys : ℕ
  deriving DecidableEq

/-- One call of `keys`, with its await: what is written to which terminal, and the answer. `taken`
is how the handle's `write` settles. -/
def pressKeys (s : Registry) (id : String) (names : List String) (taken : Except String Unit) :
    List (ℕ × String) × Except String KeysAnswer :=
  match sendKeys s id names with
  | .error error => ([], .error error)
  | .ok (n, bytes) =>
    ([(n, bytes)], taken.map fun _ => ⟨byteLength bytes.toList, names.length⟩)

/-! ### Waiting -/

/-- What one wait is asked for (registry.ts:138-150). -/
structure TerminalWaitRequest where
  offset : Option JsNumber
  «match» : Option String
  regex : Option String
  timeoutMs : Option JsNumber
  deriving DecidableEq

/-- How a wait ended. -/
inductive WaitReason
  | matched
  | exit
  | timeout
  deriving DecidableEq

/-- What a wait answers (registry.ts:154-162). -/
structure TerminalWait where
  id : String
  offset : ℕ
  text : List Char
  matched : Bool
  reason : WaitReason
  deriving DecidableEq

/-- `text.includes(needle)`. -/
def includes (text needle : List Char) : Bool := text.tails.any fun rest => needle.isPrefixOf rest

/-- A matcher of texts. -/
abbrev Test := List Char → Bool

/-- `matcher` (registry.ts:706-727). `compile` is what a regular expression does. -/
def matcher (compile : String → Except String Test) (request : TerminalWaitRequest) :
    Except String Test :=
  match request.match, request.regex with
  | some _, some _ => .error "pass either \"match\" or \"regex\", not both"
  | none, none => .error "wait requires \"match\" or \"regex\""
  | some needle, none => .ok fun text => includes text needle.toList
  | none, some regex =>
    match compile regex with
    | .error error => .error ("\"regex\" is not a valid pattern: " ++ error)
    | .ok test => .ok test

/-- A wait that was begun: its entry, where it searches from, what for, and for how long. -/
structure Waiting where
  entry : ℕ
  start : JsNumber
  test : Test
  budget : ℕ

/-- `wait`, up to its first check (registry.ts:630-635). -/
def wait (compile : String → Except String Test) (s : Registry) (id : String)
    (request : TerminalWaitRequest) : Except String Waiting := do
  let n ← entryOf s id
  let test ← matcher compile request
  pure ⟨n, request.offset.getD (retainedStart (s.entries n)), test,
    clampCount request.timeoutMs defaultWaitMs maxWaitMs⟩

/-- `finish` (registry.ts:642-646). -/
def TerminalEntry.finish (entry : TerminalEntry) (start : JsNumber) (matched : Bool)
    (reason : WaitReason) : TerminalWait :=
  ⟨entry.id, entry.bytes, (textFrom entry start).1, matched, reason⟩

/-- What an aborted wait rejects with: the reason, when it is an error (registry.ts:647-652). -/
def abortError (reason : Option String) : String := reason.getD "the wait was cancelled"

/-- `check`: how a wait settles, if it does (registry.ts:653-664). A signal is aborted or it is
not, with a reason that is an error or not. -/
def TerminalEntry.check (entry : TerminalEntry) (start : JsNumber) (test : Test)
    (aborted : Option (Option String)) : Option (Except String TerminalWait) :=
  match aborted with
  | some reason => some (.error (abortError reason))
  | none =>
    if test (textFrom entry start).1 then some (.ok (entry.finish start true .matched))
    else if entry.state = .exited then some (.ok (entry.finish start false .exit))
    else none

end TerminalRegistry

end RemoteWorkspace.Model
