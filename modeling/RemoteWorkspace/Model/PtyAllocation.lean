import Mathlib.Algebra.Group.Nat.Defs
import RemoteWorkspace.Computation.Descriptors
import RemoteWorkspace.Computation.Machine
import RemoteWorkspace.Model.Wire

/-!
# Allocating terminals

`spawn`, `spawn_on_pty` and `open_pty` of the daemon (agent/src/terminal.rs:78-118, 442-690), call
by call of the operating system, for any number of terminals that are allocated at once, and the
output reader that releases a terminal's descriptor (terminal.rs:390-410).

A descriptor is a number of the daemon's table; other parts of the daemon open and close their
own, and start programs of their own. A child that is forked has a copy of the whole table, and
closes on `exec` what is marked. The three standard descriptors are open before anything else, as
the language's runtime has it, and stay so. A process is known by its place in the list of
children. Sizes, the answer to `TIOCSCTTY` and the bytes of the terminals are left out.
-/

set_option autoImplicit false

namespace RemoteWorkspace.Model.PtyAllocation

open RemoteWorkspace.Computation RemoteWorkspace.Computation.Descriptors
open RemoteWorkspace.Model.Wire (Failure TerminalSpawnSpec)

/-- An error number of the operating system. -/
abbrev Errno := Fin (2 ^ 32)

instance neZeroErrno : NeZero (2 ^ 32) := ⟨by decide⟩

/-- What a descriptor stands for: an end of the terminal of an allocation, an end of the pipe
that its child reports through, or anything else. -/
inductive File where
  | master (a : ℕ)
  | slave (a : ℕ)
  | reportRead (a : ℕ)
  | reportWrite (a : ℕ)
  | other (k : ℕ)
  deriving DecidableEq

/-- What the daemon runs on: how the system words an error, and the scrubbed environment that a
child starts from. -/
structure Host where
  osError : Errno → String
  base : List (String × String)

/-! ### What the child executes -/

/-- `Failure::new("SP_TERMINAL_FAILED", _)`. -/
def terminalFailed (message : String) : Failure := .new "SP_TERMINAL_FAILED" message

/-- `cstring`. -/
def cstring (value what : String) : Except Failure String :=
  if '\x00' ∈ value.toList then
    .error (terminalFailed ("cannot allocate a terminal: " ++ what ++ " contains a NUL byte"))
  else .ok value

/-- `argv_pointers`. -/
def argvPointers (program : String) (args : List String) : Except Failure (List String) := do
  let first ← cstring program "the program name"
  let rest ← args.mapM fun argument => cstring argument "an argument"
  return first :: rest

/-- An entry takes the place of an earlier one of its name (terminal.rs:616-619). -/
def layer (entries : List (String × String)) (entry : String × String) : List (String × String) :=
  entries.filter (fun existing => existing.1 ≠ entry.1) ++ [entry]

/-- The environment of a terminal: the base, what the caller layers over it, and `TERM`. -/
def environment (base env : List (String × String)) : List (String × String) :=
  layer (env.foldl layer base) ("TERM", "xterm-256color")

/-- `env_pointers`. -/
def envPointers (base env : List (String × String)) : Except Failure (List String) :=
  (environment base env).mapM fun entry =>
    cstring (entry.1 ++ "=" ++ entry.2) "an environment entry"

/-- What `execve` is called with, and the directory it is called in. -/
structure Image where
  argv : List String
  env : List String
  cwd : String
  deriving DecidableEq

/-- The strings that the child needs (terminal.rs:463-466). -/
def prepare (host : Host) (spec : TerminalSpawnSpec) (cwd : String) : Except Failure Image := do
  let argv ← argvPointers (spec.argv.headD "") spec.argv.tail
  let env ← envPointers host.base spec.env
  let cwd ← cstring cwd "the working directory"
  return ⟨argv, env, cwd⟩

/-- `to_ne_bytes`. -/
def toNeBytes (code : Errno) : List UInt8 :=
  [.ofNat (code.val % 256), .ofNat (code.val / 256 % 256), .ofNat (code.val / 65536 % 256),
    .ofNat (code.val / 16777216)]

/-- `from_ne_bytes`. -/
def fromNeBytes (bytes : List UInt8) : Errno :=
  Fin.ofNat _ (bytes.foldr (fun byte rest => byte.toNat + 256 * rest) 0)

/-! ### Allocations -/

/-- What a child has of its parent: the allocation, its descriptors, and what to execute. -/
structure Fork (n : ℕ) where
  allocation : ℕ
  master : Fd n
  read : Fd n
  write : Fd n
  image : Image
  deriving DecidableEq

/-- The next call of an allocation, with the locals of `spawn_on_pty` that are still used. -/
inductive Stage (n : ℕ) where
  | opening
  | granting (master : Fd n)
  | unlocking (master : Fd n)
  | naming (master : Fd n)
  | preparing (master : Fd n)
  | piping (master : Fd n) (image : Image)
  | flagging (f : Fork n)
  | forking (f : Fork n)
  | closingWrite (master read write : Fd n) (child : ℕ)
  | reading (master read : Fd n) (child : ℕ) (filled : List UInt8)
  | closingRead (master read : Fd n) (child : ℕ) (filled : List UInt8)
  | reaping (master : Fd n) (child : ℕ) (code : Errno)
  /-- Descriptors are closed, each with what it stands for, before the call fails. -/
  | abandoning (fds : List (Fd n × File)) (failure : Failure)
  | failed (failure : Failure)
  /-- The call answered; the watchers run. -/
  | running (master : Fd n) (child : ℕ)
  /-- The output reader came to its end and closed the descriptor. -/
  | released (child : ℕ)
  deriving DecidableEq

/-- One call of `spawn`, the bytes in its report pipe, and whether a call of it was interrupted. -/
structure Allocation (n : ℕ) where
  spec : TerminalSpawnSpec
  cwd : String
  stage : Stage n
  report : List UInt8
  interrupted : Bool
  deriving DecidableEq

/-- The program of an allocation. -/
def Allocation.program {n : ℕ} (x : Allocation n) : String := x.spec.argv.headD ""

/-- An allocation before its first call, or one that is refused at once. -/
def Allocation.start {n : ℕ} (spec : TerminalSpawnSpec) (usableDirectory : Except Failure String) :
    Allocation n :=
  match spec.argv, usableDirectory with
  | [], _ => ⟨spec, "", .failed (terminalFailed
      "cannot allocate a terminal: argv does not name a program"), [], false⟩
  | _ :: _, .error failure => ⟨spec, "", .failed failure, [], false⟩
  | _ :: _, .ok cwd => ⟨spec, cwd, .opening, [], false⟩

/-- What failing to open or to pipe is answered with. -/
def allocateFailure (host : Host) (program : String) (errno : Errno) : Failure :=
  terminalFailed ("cannot allocate a terminal for \"" ++ program ++ "\": " ++ host.osError errno)

/-- What failing to fork is answered with. -/
def forkFailure (host : Host) (program : String) (errno : Errno) : Failure :=
  terminalFailed ("cannot fork a terminal for \"" ++ program ++ "\": " ++ host.osError errno)

/-- What a report of the child is answered with. -/
def startFailure (host : Host) (program : String) (code : Errno) : Failure :=
  terminalFailed ("cannot start \"" ++ program ++ "\" on a terminal: " ++ host.osError code)

/-! ### Children -/

/-- The next call of a child. -/
inductive ChildStage (n : ℕ) where
  | closingMaster (f : Fork n)
  | closingRead (f : Fork n)
  | leading (f : Fork n)
  | openingSlave (f : Fork n)
  | duplicating (f : Fork n) (slave : Fd n)
  | entering (f : Fork n)
  | executing (f : Fork n)
  | reporting (f : Fork n) (code : Errno)
  | exiting (f : Fork n)
  /-- A child of another part of the daemon, before its `exec`. -/
  | starting
  /-- The program runs; another part's program has no image here. -/
  | running (image : Option Image)
  | dead
  | reaped
  deriving DecidableEq

/-- A child: the allocation it is forked for, its table, whether it leads a session, the directory
it entered, what it reported, whether it ever ran its program, and the allocations that had not
marked their pipe when it was forked. -/
structure Child (n : ℕ) where
  owner : Option ℕ
  stage : ChildStage n
  table : Table n File
  leads : Bool
  cwd : Option String
  reported : Option Errno
  ran : Bool
  unflagged : List ℕ

/-- A child as it is forked. -/
def Child.forked {n : ℕ} (owner : Option ℕ) (stage : ChildStage n) (table : Table n File)
    (unflagged : List ℕ) : Child n :=
  ⟨owner, stage, table, false, none, none, false, unflagged⟩

/-- A process that ended holds nothing. -/
def Child.die {n : ℕ} (c : Child n) : Child n := { c with stage := .dead, table := .none }

/-! ### The machine -/

/-- The daemon. -/
structure State (n : ℕ) where
  table : Table n File
  allocations : List (Allocation n)
  children : List (Child n)

/-- The standard descriptors are open. -/
def State.initial (n : ℕ) : State n where
  table fd := if fd.val < 3 then some ⟨.other fd.val, false⟩ else none
  allocations := []
  children := []

/-- What the operating system answers. -/
inductive Answer (n : ℕ) where
  | done
  | fails (errno : Errno)
  | fd (fd : Fd n)
  | fds (read write : Fd n)
  | bytes (count : ℕ)
  | eof
  deriving DecidableEq

/-- What can happen next. -/
inductive Event (n : ℕ) where
  /-- A request names its program and has a directory, or fails to. -/
  | spawn (spec : TerminalSpawnSpec) (usableDirectory : Except Failure String)
  /-- The next call of an allocation is answered. -/
  | call (a : ℕ) (answer : Answer n)
  /-- The next call of a child is answered. -/
  | child (i : ℕ) (answer : Answer n)
  /-- A child ends: it is killed, or its program is over. -/
  | ends (i : ℕ)
  /-- The reaper of a terminal collects its child. -/
  | reap (a : ℕ)
  /-- Other parts of the daemon open, close and start programs. -/
  | openOther (fd : Fd n) (k : ℕ) (cloexec : Bool)
  | closeOther (fd : Fd n)
  | forkOther
  deriving DecidableEq

variable {n : ℕ}

/-- An allocation moves on, with the table as it is then. -/
def State.advance (s : State n) (a : ℕ) (x : Allocation n) (table : Table n File)
    (stage : Stage n) : State n :=
  { s with table := table, allocations := s.allocations.set a { x with stage := stage } }

/-- The allocations that made their pipe and did not mark it yet. -/
def State.unflagged (s : State n) : List ℕ :=
  (List.range s.allocations.length).filter fun a =>
    match s.allocations[a]? with
    | some x => match x.stage with
      | .flagging _ => true
      | _ => false
    | none => false

/-- Some process has the write end of a report pipe. -/
def State.Written (s : State n) (a : ℕ) : Prop :=
  s.table.Holds (.reportWrite a) ∨ ∃ c ∈ s.children, c.table.Holds (.reportWrite a)

instance (s : State n) (a : ℕ) : Decidable (s.Written a) := by
  unfold State.Written
  infer_instance

variable (host : Host)

/-- The calls of `open_pty` and `spawn_on_pty` up to the fork. -/
def beforeFork (s : State n) (a : ℕ) (x : Allocation n) : Stage n → Answer n → Option (State n)
  | .opening, .fails e =>
    some (s.advance a x s.table (.failed (allocateFailure host x.program e)))
  | .opening, .fd m =>
    if s.table m = none then
      some (s.advance a x (s.table.put m ⟨.master a, false⟩) (.granting m))
    else none
  | .granting m, .done => some (s.advance a x s.table (.unlocking m))
  | .unlocking m, .done => some (s.advance a x s.table (.naming m))
  | .naming m, .done => some (s.advance a x s.table (.preparing m))
  | .granting m, .fails e | .unlocking m, .fails e | .naming m, .fails e
  | .piping m _, .fails e =>
    some (s.advance a x s.table
      (.abandoning [(m, .master a)] (allocateFailure host x.program e)))
  | .preparing m, .done =>
    match prepare host x.spec x.cwd with
    | .ok image => some (s.advance a x s.table (.piping m image))
    | .error failure => some (s.advance a x s.table (.abandoning [(m, .master a)] failure))
  | .piping m image, .fds r w =>
    if r ≠ w ∧ s.table r = none ∧ s.table w = none then
      some (s.advance a x ((s.table.put r ⟨.reportRead a, false⟩).put w ⟨.reportWrite a, false⟩)
        (.flagging ⟨a, m, r, w, image⟩))
    else none
  | .flagging f, .done =>
    some (s.advance a x (s.table.put f.write ⟨.reportWrite a, true⟩) (.forking f))
  | .forking f, .fails e =>
    some (s.advance a x s.table (.abandoning
      [(f.master, .master a), (f.read, .reportRead a), (f.write, .reportWrite a)]
      (forkFailure host x.program e)))
  | .forking f, .done =>
    some { s.advance a x s.table (.closingWrite f.master f.read f.write s.children.length) with
      children := s.children ++
        [.forked (some a) (.closingMaster f) s.table s.unflagged] }
  | _, _ => none

/-- The calls of the parent after the fork, and the end of the output reader. -/
def afterFork (s : State n) (a : ℕ) (x : Allocation n) : Stage n → Answer n → Option (State n)
  | .closingWrite m r w i, .done => some (s.advance a x (s.table.close w) (.reading m r i []))
  | .reading m r i filled, .bytes count =>
    if 0 < count ∧ count ≤ x.report.length ∧ filled.length + count ≤ 4 then
      some (s.advance a { x with report := x.report.drop count } s.table
        (if filled.length + count = 4 then .closingRead m r i (filled ++ x.report.take count)
        else .reading m r i (filled ++ x.report.take count)))
    else none
  | .reading m r i filled, .eof =>
    if x.report = [] ∧ ¬ s.Written a then some (s.advance a x s.table (.closingRead m r i filled))
    else none
  | .reading m r i filled, .fails _ =>
    some (s.advance a { x with interrupted := true } s.table (.closingRead m r i filled))
  | .closingRead m r i filled, .done =>
    some (s.advance a x (s.table.close r)
      (if filled.length = 4 then .reaping m i (fromNeBytes filled) else .running m i))
  | .reaping m i code, .done =>
    match s.children[i]? with
    | some c =>
      if c.stage = .dead then
        some { s.advance a x s.table
          (.abandoning [(m, .master a)] (startFailure host x.program code)) with
          children := s.children.set i { c with stage := .reaped } }
      else none
    | none => none
  | .reaping m _ code, .fails _ =>
    some (s.advance a { x with interrupted := true } s.table
      (.abandoning [(m, .master a)] (startFailure host x.program code)))
  | .abandoning ((fd, _) :: rest) failure, .done =>
    some (s.advance a x (s.table.close fd)
      (if rest = [] then .failed failure else .abandoning rest failure))
  | .running m i, .done => some (s.advance a x (s.table.close m) (.released i))
  | _, _ => none

/-- The next call of a child, with the bytes that it writes to its report pipe. -/
def childCall (c : Child n) : ChildStage n → Answer n → Option (Child n × List UInt8)
  | .closingMaster f, .done =>
    some ({ c with table := c.table.close f.master, stage := .closingRead f }, [])
  | .closingRead f, .done =>
    some ({ c with table := c.table.close f.read, stage := .leading f }, [])
  | .leading f, .done => some ({ c with leads := true, stage := .openingSlave f }, [])
  | .leading f, .fails e | .openingSlave f, .fails e | .entering f, .fails e
  | .executing f, .fails e => some ({ c with stage := .reporting f e }, [])
  | .openingSlave f, .fd slave =>
    if c.table slave = none then
      some ({ c with
        table := c.table.put slave ⟨.slave f.allocation, false⟩
        stage := .duplicating f slave }, [])
    else none
  | .duplicating f slave, .done =>
    let onto := ((c.table.dup2 slave 0).dup2 slave 1).dup2 slave 2
    some ({ c with
      table := if 2 < slave.val then onto.close slave else onto
      stage := .entering f }, [])
  | .entering f, .done => some ({ c with cwd := some f.image.cwd, stage := .executing f }, [])
  | .executing f, .done =>
    some ({ c with table := c.table.exec, ran := true, stage := .running (some f.image) }, [])
  | .reporting f code, .done =>
    some ({ c with reported := some code, stage := .exiting f }, toNeBytes code)
  | .exiting _, .done => some (c.die, [])
  | .starting, .done =>
    some ({ c with table := c.table.exec, ran := true, stage := .running none }, [])
  | _, _ => none

/-- The standard descriptors stand for the terminal of an allocation. -/
def OnTerminal (table : Table n File) (a : ℕ) : Prop :=
  table 0 = some ⟨.slave a, false⟩ ∧ table 1 = some ⟨.slave a, false⟩ ∧
    table 2 = some ⟨.slave a, false⟩

/-- Bytes arrive in the report pipe of an allocation. -/
def State.wrote (s : State n) (owner : Option ℕ) (bytes : List UInt8) : List (Allocation n) :=
  match owner with
  | some a => s.allocations.modify a fun x => { x with report := x.report ++ bytes }
  | none => s.allocations

/-- One step. -/
def step (s : State n) : Event n → Option (State n)
  | .spawn spec usableDirectory =>
    some { s with allocations := s.allocations ++ [.start spec usableDirectory] }
  | .call a answer => do
    let x ← s.allocations[a]?
    (beforeFork host s a x x.stage answer).or (afterFork host s a x x.stage answer)
  | .child i answer => do
    let c ← s.children[i]?
    let (d, bytes) ← childCall c c.stage answer
    some { s with
      children := s.children.set i d
      allocations := s.wrote c.owner bytes }
  | .ends i => do
    let c ← s.children[i]?
    if c.stage = .dead ∨ c.stage = .reaped then none
    else some { s with children := s.children.set i c.die }
  | .reap a => do
    let x ← s.allocations[a]?
    match x.stage with
    | .running _ i | .released i => do
      let c ← s.children[i]?
      if c.stage = .dead then
        some { s with children := s.children.set i { c with stage := .reaped } }
      else none
    | _ => none
  | .openOther fd k cloexec =>
    if s.table fd = none then some { s with table := s.table.put fd ⟨.other k, cloexec⟩ } else none
  | .closeOther fd =>
    match s.table fd with
    | some ⟨.other _, _⟩ =>
      if 2 < fd.val then some { s with table := s.table.close fd } else none
    | _ => none
  | .forkOther =>
    some { s with children := s.children ++ [.forked none .starting s.table s.unflagged] }

/-- The daemon as a machine. -/
def machine (n : ℕ) : Machine (State n) (Event n) := ⟨.initial n, step host⟩

end RemoteWorkspace.Model.PtyAllocation
