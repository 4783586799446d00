import RemoteWorkspace.Model.Wire

/-!
# A request means at the daemon what the plugin meant by it

What the plugin sends for each of its requests is read by the daemon's method table. The readers
accept a request exactly when `served` says so, and then make the call that `served` names: every
member is found under its name, every number that a call needs is there and in its range, an
argv is not empty, and what the plugin left out is what the table takes for left out.

A request the table does not accept, from any client, names its method in its failure.
-/

set_option autoImplicit false

namespace RemoteWorkspace.Analysis.WireRequests

open RemoteWorkspace.Computation RemoteWorkspace.Computation.JsonValue
open RemoteWorkspace.Model.Wire
open RemoteWorkspace.Model.SpawnRequest (StdinMode OutputMode)
open RemoteWorkspace.Model.FsWrites (WriteIntent)

/-! ### What a request means -/

/-- A number that arrives as one of 64 bits, from a least one on. -/
def atLeast (minimum : ℕ) (n : Sent) : Option ℕ := n.value.asU64.filter fun n => minimum ≤ n

/-- The entries of an environment that are defined, in the order of their names. -/
def entries (env : List (String × Option String)) : List (String × String) :=
  ofPairs (defined env)

/-- An argv that names a program. -/
def nonEmpty (argv : List String) : Option (List String) :=
  if argv.isEmpty then none else some argv

/-- The grace a spawn may ask for: between one millisecond and the longest delay of a timer. -/
def grace (n : Sent) : Option ℕ := (atLeast 1 n).filter fun n => n ≤ maxGraceMs

/-- A dimension of a terminal: at least one, and at most what a window size holds. -/
def dimension (n : Sent) : Option ℕ := (atLeast 1 n).map fun n => min n u16Max

/-- What a stdin disposition means. -/
def stdinMeant : ClientStdin → StdinMode
  | .ignore => .ignore
  | .pipe => .pipe
  | .data input => .data (Utf8.encode input.toList)

/-- What an output disposition means. -/
def outputMeant : ClientOutput → Option OutputMode
  | .inherit => some .inherit
  | .pipe => some .pipe
  | .collect maxBytes => (atLeast 0 maxBytes).map .collect

/-- What a spawn means. -/
def spawnMeant (spec : ClientSpawn) : Option SpawnSpec := do
  let graceMs ← grace spec.graceMs
  let argv ← nonEmpty spec.argv
  let stdout ← outputMeant spec.stdout
  let stderr ← outputMeant spec.stderr
  return ⟨argv, spec.cwd, stdinMeant spec.stdin, stdout, stderr, spec.control, graceMs,
    (spec.env.map fun env => entries (definedEnv env)).getD []⟩

/-- What an allocation of a terminal means. -/
def terminalMeant (spec : ClientTerminal) : Option TerminalSpawnSpec := do
  let argv ← nonEmpty spec.argv
  let rows ← dimension spec.rows
  let cols ← dimension spec.cols
  let graceMs ← grace spec.graceMs
  return ⟨argv, spec.cwd, (spec.env.map entries).getD [], rows, cols, graceMs⟩

/-- The wait of a read: none where it is left out, or is not finite and arrives as `null`. -/
def waited : Option Sent → Option ℕ
  | none => some 0
  | some none => some 0
  | some (some n) => atLeast 0 (some n)

/-- The call a request means; nothing for one that means none. -/
def served : ClientCall → Option Call
  | .fsResolve path => some (.fsResolve path)
  | .fsStat path => some (.fsStat path)
  | .fsLstat path => some (.fsLstat path)
  | .fsListDir path => some (.fsListDir path)
  | .fsReadTextChunk path offset length => do
    return .fsReadTextChunk path (← atLeast 0 offset) (← atLeast 1 length)
  | .fsReadBytes path maxBytes => do return .fsReadBytes path (← atLeast 0 maxBytes)
  | .fsReadByteRange path offset length => do
    return .fsReadByteRange path (← atLeast 0 offset) (← atLeast 0 length)
  | .fsWriteText path content expected =>
    some (.fsWriteText path content (expected.map intentValue))
  | .fsEditText path edit expected => some (.fsEditText path (editValue edit) expected)
  | .gitWorktreeAdd repoPath worktreePath branch baseRef =>
    some (.gitWorktreeAdd repoPath worktreePath branch baseRef)
  | .gitWorktreeList repoPath => some (.gitWorktreeList repoPath)
  | .gitWorktreeRemove repoPath worktreePath force =>
    some (.gitWorktreeRemove repoPath worktreePath force)
  | .gitBranchDelete repoPath branch force => some (.gitBranchDelete repoPath branch force)
  | .gitRepoState repoPath => some (.gitRepoState repoPath)
  | .gitMergeBranch repoPath branch => some (.gitMergeBranch repoPath branch)
  | .spResolveExecutable command env =>
    some (.spResolveExecutable command ((env.map entries).getD []))
  | .spSpawn spec => (spawnMeant spec).map .spSpawn
  | .spReadOutput procId stream fromByte => do
    return .spReadOutput procId stream.name (← atLeast 0 fromByte)
  | .spWriteStdin procId data => some (.spWriteStdin procId data)
  | .spWriteControl procId data => some (.spWriteControl procId data)
  | .spCloseStdin procId => some (.spCloseStdin procId)
  | .spTerminate procId => some (.spTerminate procId)
  | .spWaitForExit procId => some (.spWaitForExit procId)
  | .spOutcome procId => some (.spOutcome procId)
  | .termSpawn spec => (terminalMeant spec).map .termSpawn
  | .termRead termId fromByte waitMs => do
    return .termRead termId (← atLeast 0 fromByte) (← waited waitMs)
  | .termWrite termId data => some (.termWrite termId data)
  | .termResize termId cols rows => do
    return .termResize termId (← dimension cols) (← dimension rows)
  | .termInspectForeground termId => some (.termInspectForeground termId)
  | .termSignalForeground termId signal => some (.termSignalForeground termId signal)
  | .termTerminate termId => some (.termTerminate termId)
  | .termOutcome termId => some (.termOutcome termId)

/-! ### Outcomes of readers -/

section

variable {ε α β : Type}

theorem toOption_bind (x : Except ε α) (f : α → Except ε β) :
    (x >>= f).toOption = x.toOption.bind fun a => (f a).toOption := by
  cases x <;> rfl

theorem toOption_map (x : Except ε α) (f : α → β) : (x.map f).toOption = x.toOption.map f := by
  cases x <;> rfl

theorem toOption_ok (a : α) : (Except.ok a : Except ε α).toOption = some a := rfl

theorem toOption_pure (a : α) : (pure a : Except ε α).toOption = some a := rfl

end

/-! ### Objects of the plugin -/

/-- The members that arrive of an object of the plugin. -/
def fields (members : List (String × Option JsonValue)) : Source := ofPairs (defined members)

theorem asRecord_sent (members : List (String × Option JsonValue)) (method : String) :
    asRecord (sent members) method = .ok (fields members) := rfl

/-- No member of a name arrives where no member has it. -/
theorem lookup_defined_of_notMem {α : Type} {members : List (String × Option α)} {field : String}
    (h : field ∉ members.map Prod.fst) : (defined members).reverse.lookup field = none := by
  refine List.lookup_eq_none_iff.mpr fun pair hpair => bne_iff_ne.mpr fun heq => h ?_
  obtain ⟨member, hmember, hmap⟩ := List.mem_filterMap.mp (List.mem_reverse.mp hpair)
  obtain ⟨value, -, rfl⟩ := Option.map_eq_some_iff.mp hmap
  exact List.mem_map.mpr ⟨member, hmember, heq.symm⟩

/-- A member of an object whose members have names of their own arrives exactly when it is
defined. -/
theorem lookup_fields {members : List (String × Option JsonValue)}
    (h : (members.map Prod.fst).Nodup) (field : String) :
    (fields members).lookup field = (members.lookup field).join := by
  rw [fields, lookup_ofPairs]
  induction members with
  | nil => rfl
  | cons member members ih =>
    obtain ⟨key, value⟩ := member
    obtain ⟨hkey, hrest⟩ := List.nodup_cons.mp h
    have hcons : defined ((key, value) :: members) =
        (value.map fun value => (key, value)).toList ++ defined members := by
      cases value <;> rfl
    rw [hcons, List.reverse_append, List.lookup_append, lookup_member]
    by_cases hfield : field = key
    · rw [if_pos hfield, lookup_defined_of_notMem (hfield ▸ hkey), Option.none_or]
      cases value <;> simp [hfield]
    · rw [if_neg hfield, ih hrest]
      cases value <;> simp [lookup_member, hfield]

/-! ### What each reader accepts -/

theorem toOption_requireString (source : Source) (field method : String) :
    (requireString source field method).toOption = (source.lookup field).bind asStr :=
  toOption_require _ _ _ _

theorem toOption_requireInteger (source : Source) (field method : String) (minimum : ℕ) :
    (requireInteger source field method minimum).toOption =
      (source.lookup field).bind fun value => value.asU64.filter fun n => minimum ≤ n :=
  toOption_require _ _ _ _

theorem toOption_requireBoolean (source : Source) (field method : String) :
    (requireBoolean source field method).toOption = (source.lookup field).bind asBool :=
  toOption_require _ _ _ _

theorem toOption_readStreamName (source : Source) (method : String) :
    (readStreamName source method).toOption = (source.lookup "stream").bind fun value =>
      value.asStr.filter fun name => name = "stdout" ∨ name = "stderr" :=
  toOption_require _ _ _ _

theorem toOption_readTerminalSignal (source : Source) (method : String) :
    (readTerminalSignal source method).toOption =
      (source.lookup "signal").bind fun value => value.asStr.bind TerminalSignal.ofName :=
  toOption_require _ _ _ _

theorem toOption_readEditMember (source : Source) (method : String) :
    (readEditMember source method).toOption =
      (source.lookup "edit").bind fun value => value.asObject.map .object :=
  toOption_require _ _ _ _

theorem toOption_readGrace {source : Source} {n : Sent} (method : String)
    (h : source.lookup "graceMs" = some n.value) :
    (readGrace source method).toOption = grace n := by
  rw [readGrace, toOption_bind, toOption_requireInteger, h, grace, atLeast, Option.bind_some]
  cases n.value.asU64.filter fun n => 1 ≤ n with
  | none => rfl
  | some graceMs =>
    by_cases hle : graceMs ≤ maxGraceMs
    · simp [Option.filter_some, hle, Nat.not_lt.mpr hle, toOption_ok]
    · simp [Option.filter_some, hle, Nat.lt_of_not_le hle, Except.toOption]

theorem toOption_readDimension {source : Source} {field : String} {n : Sent} (method : String)
    (h : source.lookup field = some n.value) :
    (readDimension source field method).toOption = dimension n := by
  rw [readDimension, toOption_map, toOption_requireInteger, h]
  rfl

/-- The texts of an array of texts. -/
theorem readTexts_map (complaint : Failure) (texts : List String) :
    readTexts complaint (texts.map .string) = .ok texts := by
  induction texts with
  | nil => rfl
  | cons text texts ih =>
    rw [List.map_cons, readTexts, asStr_string, ih]
    rfl

theorem toOption_readArgv {source : Source} {argv : List String} (method : String)
    (h : source.lookup "argv" = some (.array (argv.map .string))) :
    (readArgv source method).toOption = nonEmpty argv := by
  rw [readArgv, h, Option.bind_some, asArray_array, nonEmpty]
  cases argv with
  | nil => rfl
  | cons program arguments =>
    change Except.toOption (readTexts (argvComplaint method) ((program :: arguments).map .string)) =
      some (program :: arguments)
    rw [readTexts_map]
    rfl

/-- The entries of an environment whose values are texts. -/
theorem readEntries_map (method : String) (env : List (String × String)) :
    readEntries method (env.map (Prod.map id .string)) = .ok env := by
  induction env with
  | nil => rfl
  | cons entry env ih =>
    rw [List.map_cons, readEntries, ih]
    rfl

/-- An environment of the plugin is read as its entries. -/
theorem readEnvironment_envValue (env : Option (List (String × Option String)))
    (method : String) :
    readEnvironment (env.map envValue) method = .ok ((env.map entries).getD []) := by
  cases env with
  | none => rfl
  | some env =>
    have hdefined : defined (env.map fun entry => (entry.1, entry.2.map JsonValue.string)) =
        (defined env).map (Prod.map id .string) := by
      induction env with
      | nil => rfl
      | cons entry env ih =>
        obtain ⟨key, value⟩ := entry
        cases value with
        | none => exact ih
        | some value => exact congrArg ((key, JsonValue.string value) :: ·) ih
    change readEntries method (ofPairs (defined _)) = _
    rw [hdefined, ofPairs_map, readEntries_map]
    rfl

theorem readStdinMode_value (mode : ClientStdin) (method : String) :
    readStdinMode (some mode.value) method = .ok (stdinMeant mode) := by
  cases mode <;> rfl

theorem readOutputMode_object (record : Source) (field method : String) :
    readOutputMode (some (.object record)) field method =
      ((record.lookup "maxBytes").bind asU64).elim (.error (outputComplaint field method))
        fun maxBytes => .ok (.collect maxBytes) := by
  rw [readOutputMode]
  cases (record.lookup "maxBytes").bind asU64 <;> rfl

theorem toOption_readOutputMode (mode : ClientOutput) (field method : String) :
    (readOutputMode (some (collectSpec mode)) field method).toOption = outputMeant mode := by
  cases mode with
  | inherit => rfl
  | pipe => rfl
  | collect maxBytes =>
    have hlookup : ((fields [("maxBytes", some maxBytes.value)]).lookup "maxBytes").bind asU64 =
        maxBytes.value.asU64 := by
      rw [lookup_fields (by simp)]
      rfl
    have hread : readOutputMode (some (collectSpec (.collect maxBytes))) field method = _ :=
      readOutputMode_object (fields [("maxBytes", some maxBytes.value)]) field method
    rw [hread, hlookup, outputMeant, atLeast]
    cases maxBytes.value.asU64 <;> rfl

theorem readControlMode_value (control : Bool) (method : String) :
    readControlMode (if control then some (.string "pipe") else none) method = .ok control := by
  cases control <;> rfl

/-! ### The two spawn requests -/

/-- What arrives of a spawn. -/
theorem lookup_spawn (spec : ClientSpawn) (field : String) :
    (fields spec.members).lookup field = (spec.members.lookup field).join :=
  lookup_fields (by simp [ClientSpawn.members]) field

theorem toOption_readSpawnSpec (spec : ClientSpawn) (method : String) :
    (readSpawnSpec (sent spec.members) method).toOption = spawnMeant spec := by
  have hargv : (fields spec.members).lookup "argv" = some (.array (spec.argv.map .string)) :=
    lookup_spawn spec "argv"
  have hcwd : (fields spec.members).lookup "cwd" = some (.string spec.cwd) :=
    lookup_spawn spec "cwd"
  have hstdin : (fields spec.members).lookup "stdin" = some spec.stdin.value :=
    lookup_spawn spec "stdin"
  have hstdout : (fields spec.members).lookup "stdout" = some (collectSpec spec.stdout) :=
    lookup_spawn spec "stdout"
  have hstderr : (fields spec.members).lookup "stderr" = some (collectSpec spec.stderr) :=
    lookup_spawn spec "stderr"
  have hcontrol : (fields spec.members).lookup "control" =
      if spec.control then some (.string "pipe") else none := lookup_spawn spec "control"
  have hgrace : (fields spec.members).lookup "graceMs" = some spec.graceMs.value :=
    lookup_spawn spec "graceMs"
  have henv : (fields spec.members).lookup "env" =
      spec.env.map fun env => envValue (definedEnv env) := lookup_spawn spec "env"
  have henvironment := readEnvironment_envValue (spec.env.map definedEnv) method
  rw [Option.map_map, Option.map_map] at henvironment
  simp only [readSpawnSpec, asRecord_sent, toOption_bind, toOption_ok, Option.bind_some,
    toOption_readGrace method hgrace, toOption_readArgv method hargv, toOption_requireString, hcwd,
    asStr_string, hstdin, readStdinMode_value, hstdout, hstderr, toOption_readOutputMode, hcontrol,
    readControlMode_value, henv, spawnMeant]
  cases grace spec.graceMs with
  | none => rfl
  | some graceMs =>
    cases nonEmpty spec.argv with
    | none => rfl
    | some argv =>
      simp only [Option.bind_some, Option.bind_eq_bind]
      cases outputMeant spec.stdout with
      | none => rfl
      | some stdout =>
        cases outputMeant spec.stderr with
        | none => rfl
        | some stderr =>
          have henv' : readEnvironment (spec.env.map fun env => envValue (definedEnv env)) method =
              .ok ((spec.env.map fun env => entries (definedEnv env)).getD []) := henvironment
          rw [henv']
          rfl

/-- What arrives of an allocation of a terminal. -/
theorem lookup_terminal (spec : ClientTerminal) (field : String) :
    (fields spec.members).lookup field = (spec.members.lookup field).join :=
  lookup_fields (by simp [ClientTerminal.members]) field

theorem toOption_readTerminalSpec (spec : ClientTerminal) (method : String) :
    (readTerminalSpec (sent spec.members) method).toOption = terminalMeant spec := by
  have hargv : (fields spec.members).lookup "argv" = some (.array (spec.argv.map .string)) :=
    lookup_terminal spec "argv"
  have hcwd : (fields spec.members).lookup "cwd" = some (.string spec.cwd) :=
    lookup_terminal spec "cwd"
  have hrows : (fields spec.members).lookup "rows" = some spec.rows.value :=
    lookup_terminal spec "rows"
  have hcols : (fields spec.members).lookup "cols" = some spec.cols.value :=
    lookup_terminal spec "cols"
  have hgrace : (fields spec.members).lookup "graceMs" = some spec.graceMs.value :=
    lookup_terminal spec "graceMs"
  have henv : (fields spec.members).lookup "env" = spec.env.map envValue :=
    lookup_terminal spec "env"
  simp only [readTerminalSpec, asRecord_sent, toOption_bind, toOption_ok, Option.bind_some,
    toOption_readArgv method hargv, toOption_requireString, hcwd, asStr_string, henv,
    readEnvironment_envValue, toOption_readDimension method hrows,
    toOption_readDimension method hcols, toOption_readGrace method hgrace, terminalMeant]
  rfl

/-! ### Members of their own kind -/

theorem toOption_optionalString {source : Source} {field : String} (text : Option String)
    (method : String) (h : source.lookup field = text.map .string) :
    (optionalString source field method).toOption = some text := by
  rw [optionalString, toOption_optional, h]
  cases text <;> rfl

theorem toOption_optionalInteger {source : Source} {field : String} (n : Option Sent)
    (method : String) (h : source.lookup field = n.map Sent.value) :
    (optionalInteger source field method 0).toOption = waited n := by
  rw [optionalInteger, h]
  match n with
  | none => rfl
  | some none => rfl
  | some (some n) =>
    refine (toOption_requireInteger source field method 0).trans ?_
    rw [h]
    rfl

theorem toOption_readExpectedVersion {source : Source} (version : Option String) (method : String)
    (h : source.lookup "expected" =
      version.map fun version => sent [("version", some (.string version))]) :
    (readExpectedVersion source method).toOption = some version := by
  rw [readExpectedVersion, h]
  cases version <;> rfl

/-- A stream is read under its name. -/
theorem readStream_name (stream : Stream) :
    ((JsonValue.string stream.name).asStr.filter fun name =>
      name = "stdout" ∨ name = "stderr") = some stream.name := by
  cases stream <;> rfl

/-- A signal is read under its name. -/
theorem ofName_signal (signal : TerminalSignal) :
    TerminalSignal.ofName signal.name = some signal := by
  cases signal <;> rfl

/-! ### The method table -/

/-- A method is found under its name. -/
theorem ofName_name (m : Method) : Method.ofName m.name = some m := by
  cases m <;> rfl

/-- The members of a request have names of their own. -/
theorem lookup_request (c : ClientCall) (field : String) :
    (fields c.members).lookup field = (c.members.lookup field).join := by
  refine lookup_fields ?_ field
  cases c <;> simp [ClientCall.members, ClientSpawn.members, ClientTerminal.members]

/-- The parameters of a request are read as what the request means. -/
theorem toOption_readParams (c : ClientCall) :
    (readParams c.method c.params).toOption = served c := by
  have hlookup := lookup_request c
  have hrecord := asRecord_sent c.members
  rw [ClientCall.params]
  cases c with
  | fsEditText path edit expected =>
    have hexpected := toOption_readExpectedVersion expected "fs.editText"
      (hlookup "expected" |>.trans (by cases expected <;> rfl))
    simp only [ClientCall.method, readParams, hrecord, toOption_bind, toOption_pure, toOption_ok,
      Option.bind_some, toOption_requireString, toOption_readEditMember, Method.name, hexpected,
      hlookup]
    rfl
  | gitWorktreeAdd repoPath worktreePath branch baseRef =>
    have hbase := toOption_optionalString baseRef "git.worktreeAdd"
      (hlookup "baseRef" |>.trans (by cases baseRef <;> rfl))
    simp only [ClientCall.method, readParams, hrecord, toOption_bind, toOption_pure, toOption_ok,
      Option.bind_some, toOption_requireString, Method.name, hbase, hlookup]
    rfl
  | spResolveExecutable command env =>
    have henv : (fields (ClientCall.spResolveExecutable command env).members).lookup "env" =
        env.map envValue := (hlookup "env").trans (by cases env <;> rfl)
    simp only [ClientCall.method, readParams, hrecord, toOption_bind, toOption_pure, toOption_ok,
      Option.bind_some, toOption_requireString, henv, readEnvironment_envValue, hlookup]
    rfl
  | spSpawn spec =>
    rw [ClientCall.method, readParams, hrecord]
    exact (toOption_map _ Call.spSpawn).trans (congrArg _ (toOption_readSpawnSpec spec _))
  | spReadOutput procId stream fromByte =>
    have hstream : (List.lookup "stream"
        (ClientCall.spReadOutput procId stream fromByte).members).join =
          some (.string stream.name) := rfl
    simp only [ClientCall.method, readParams, hrecord, toOption_bind, toOption_pure, toOption_ok,
      Option.bind_some, toOption_requireString, toOption_readStreamName, toOption_requireInteger,
      hlookup, hstream, readStream_name]
    rfl
  | termSpawn spec =>
    rw [ClientCall.method, readParams, hrecord]
    exact (toOption_map _ Call.termSpawn).trans (congrArg _ (toOption_readTerminalSpec spec _))
  | termRead termId fromByte waitMs =>
    have hwait := toOption_optionalInteger waitMs "term.read"
      (hlookup "waitMs" |>.trans (by cases waitMs <;> rfl))
    simp only [ClientCall.method, readParams, hrecord, toOption_bind, toOption_pure, toOption_ok,
      Option.bind_some, toOption_requireString, toOption_requireInteger, Method.name, hwait, hlookup]
    rfl
  | termResize termId cols rows =>
    have hcols := toOption_readDimension "term.resize" (hlookup "cols" |>.trans rfl)
    have hrows := toOption_readDimension "term.resize" (hlookup "rows" |>.trans rfl)
    simp only [ClientCall.method, readParams, hrecord, toOption_bind, toOption_pure, toOption_ok,
      Option.bind_some, toOption_requireString, Method.name, hcols, hrows, hlookup]
    rfl
  | termSignalForeground termId signal =>
    have hsignal : (List.lookup "signal"
        (ClientCall.termSignalForeground termId signal).members).join =
          some (.string signal.name) := rfl
    simp only [ClientCall.method, readParams, hrecord, toOption_bind, toOption_pure, toOption_ok,
      Option.bind_some, toOption_requireString, toOption_readTerminalSignal, hlookup, hsignal,
      asStr_string, ofName_signal]
    rfl
  | _ =>
    simp only [ClientCall.method, readParams, hrecord, toOption_bind, toOption_pure, toOption_ok,
      Option.bind_some, toOption_requireString, toOption_requireInteger, toOption_requireBoolean,
      hlookup]
    rfl

/-! ### What the filesystem backend reads itself -/

/-- The guard of a write is read as it was meant. -/
theorem readWriteIntent_intentValue (expected : Option WriteIntent) :
    readWriteIntent (expected.map intentValue) = .ok expected := by
  rcases expected with _ | (_ | version)
  · rfl
  · rfl
  · have hlookup (field : String) := lookup_fields
      (by simp : ([("kind", some (.string "replaceIfVersion")), ("version", some (.string version))] :
        List (String × Option JsonValue)).map Prod.fst |>.Nodup) field
    have hkind : (intentValue (.replaceIfVersion version)).get "kind" =
        some (.string "replaceIfVersion") := hlookup "kind"
    have hversion : (intentValue (.replaceIfVersion version)).get "version" =
        some (.string version) := hlookup "version"
    rw [Option.map_some, readWriteIntent, hkind, hversion]
    rfl

/-- An edit is read as it was meant. -/
theorem readEdit_editValue (edit : EditRequest) : readEdit (editValue edit) = .ok edit := by
  have hlookup (field : String) := lookup_fields
    (by simp : ([("oldString", some (.string edit.oldString)),
      ("newString", some (.string edit.newString)), ("replaceAll", some (.bool edit.replaceAll))] :
        List (String × Option JsonValue)).map Prod.fst |>.Nodup) field
  rw [readEdit, editValue, sent, asObject, Option.getD_some, ← fields,
    require_of_lookup (hlookup "oldString") (asStr_string _),
    require_of_lookup (hlookup "newString") (asStr_string _),
    require_of_lookup (hlookup "replaceAll") (asBool_bool _)]
  rfl

/-! ### What a rejected request fails with -/

/-- Every failure blames the parameters of a method. -/
def Blames {α : Type} (method : String) (x : Except Failure α) : Prop :=
  ∀ failure, x = .error failure → ∃ detail, failure = .invalidParams method detail

section

variable {α β : Type} {method : String}

theorem blames_ok (a : α) : Blames method (.ok a) := fun _ h => nomatch h

theorem blames_error (detail : String) :
    Blames method (.error (.invalidParams method detail) : Except Failure α) :=
  fun _ h => ⟨detail, (Except.error.inj h).symm⟩

theorem Blames.bind {x : Except Failure α} {f : α → Except Failure β} (hx : Blames method x)
    (hf : ∀ a, Blames method (f a)) : Blames method (x >>= f) := by
  intro failure h
  cases x with
  | error error => exact hx failure (congrArg Except.error (Except.error.inj h))
  | ok a => exact hf a failure h

theorem Blames.map {x : Except Failure α} (f : α → β) (hx : Blames method x) :
    Blames method (x.map f) := by
  intro failure h
  cases x with
  | error error => exact hx failure (congrArg Except.error (Except.error.inj h))
  | ok a => cases h

theorem blames_require (view : JsonValue → Option α) (detail : String) (source : Source)
    (field : String) : Blames method (require view (.invalidParams method detail) source field) :=
  fun _ h => ⟨detail, require_eq_error h⟩

end

theorem blames_asRecord (params : JsonValue) (method : String) :
    Blames method (asRecord params method) := by
  unfold asRecord
  split
  · exact blames_ok _
  · exact blames_error _

theorem blames_requireString (source : Source) (field method : String) :
    Blames method (requireString source field method) :=
  blames_require _ _ _ _

theorem blames_requireInteger (source : Source) (field method : String) (minimum : ℕ) :
    Blames method (requireInteger source field method minimum) :=
  blames_require _ _ _ _

theorem blames_optionalString (source : Source) (field method : String) :
    Blames method (optionalString source field method) :=
  fun _ h => ⟨_, optional_eq_error h⟩

theorem blames_optionalInteger (source : Source) (field method : String) (default : ℕ) :
    Blames method (optionalInteger source field method default) := by
  unfold optionalInteger
  split
  · exact blames_ok _
  · exact blames_ok _
  · exact blames_requireInteger _ _ _ _

theorem blames_readExpectedVersion (source : Source) (method : String) :
    Blames method (readExpectedVersion source method) := by
  unfold readExpectedVersion
  split
  · exact blames_ok _
  · exact blames_ok _
  · split
    · exact blames_error _
    · exact (blames_requireString _ _ _).map some

theorem blames_readEnvironment (value : Option JsonValue) (method : String) :
    Blames method (readEnvironment value method) := by
  have hentries : ∀ source, Blames method (readEntries method source) := by
    intro source
    induction source with
    | nil => exact blames_ok _
    | cons member source ih =>
      unfold readEntries
      split
      · exact blames_error _
      · exact ih.map _
  unfold readEnvironment
  split
  · exact blames_ok _
  · split
    · exact blames_error _
    · exact hentries _

theorem blames_readGrace (source : Source) (method : String) :
    Blames method (readGrace source method) := by
  refine (blames_requireInteger _ _ _ _).bind fun graceMs => ?_
  split
  · exact blames_error _
  · exact blames_ok _

theorem blames_readDimension (source : Source) (field method : String) :
    Blames method (readDimension source field method) :=
  (blames_requireInteger _ _ _ _).map _

theorem blames_readArgv (source : Source) (method : String) :
    Blames method (readArgv source method) := by
  have htexts : ∀ values, Blames method (readTexts (argvComplaint method) values) := by
    intro values
    induction values with
    | nil => exact blames_ok _
    | cons value values ih =>
      unfold readTexts
      split
      · exact blames_error _
      · exact ih.map _
  unfold readArgv
  split
  · exact blames_error _
  · split
    · exact blames_error _
    · exact htexts _

theorem blames_readStdinMode (value : Option JsonValue) (method : String) :
    Blames method (readStdinMode value method) := by
  unfold readStdinMode
  split
  · repeat' split
    all_goals first | exact blames_ok _ | exact blames_error _
  · split
    · exact blames_error _
    · exact blames_ok _
  · exact blames_error _

theorem blames_readOutputMode (value : Option JsonValue) (field method : String) :
    Blames method (readOutputMode value field method) := by
  unfold readOutputMode
  split
  · repeat' split
    all_goals first | exact blames_ok _ | exact blames_error _
  · split
    · exact blames_error _
    · exact blames_ok _
  · exact blames_error _

theorem blames_readControlMode (value : Option JsonValue) (method : String) :
    Blames method (readControlMode value method) := by
  unfold readControlMode
  split
  · exact blames_ok _
  · exact blames_ok _
  · split
    · exact blames_ok _
    · exact blames_error _
  · exact blames_error _

theorem blames_readSpawnSpec (params : JsonValue) (method : String) :
    Blames method (readSpawnSpec params method) :=
  (blames_asRecord _ _).bind fun _ => (blames_readGrace _ _).bind fun _ =>
    (blames_readArgv _ _).bind fun _ => (blames_requireString _ _ _).bind fun _ =>
    (blames_readStdinMode _ _).bind fun _ => (blames_readOutputMode _ _ _).bind fun _ =>
    (blames_readOutputMode _ _ _).bind fun _ => (blames_readControlMode _ _).bind fun _ =>
    (blames_readEnvironment _ _).bind fun _ => blames_ok _

theorem blames_readTerminalSpec (params : JsonValue) (method : String) :
    Blames method (readTerminalSpec params method) :=
  (blames_asRecord _ _).bind fun _ => (blames_readArgv _ _).bind fun _ =>
    (blames_requireString _ _ _).bind fun _ => (blames_readEnvironment _ _).bind fun _ =>
    (blames_readDimension _ _ _).bind fun _ => (blames_readDimension _ _ _).bind fun _ =>
    (blames_readGrace _ _).bind fun _ => blames_ok _

/-- A method blames the parameters it was given. -/
theorem blames_readParams (m : Method) (params : JsonValue) :
    Blames m.name (readParams m params) := by
  refine (blames_asRecord _ _).bind fun source => ?_
  have hstring := fun field => blames_requireString source field m.name
  have hinteger := fun field => blames_requireInteger source field m.name
  cases m with
  | fsReadTextChunk | fsReadByteRange =>
    exact (hstring _).bind fun _ => (hinteger _ _).bind fun _ => (hinteger _ _).bind fun _ =>
      blames_ok _
  | fsReadBytes => exact (hstring _).bind fun _ => (hinteger _ _).bind fun _ => blames_ok _
  | fsEditText =>
    exact (hstring _).bind fun _ => (blames_require _ _ _ _).bind fun _ =>
      (blames_readExpectedVersion _ _).bind fun _ => blames_ok _
  | gitWorktreeAdd =>
    exact (hstring _).bind fun _ => (hstring _).bind fun _ => (hstring _).bind fun _ =>
      (blames_optionalString _ _ _).bind fun _ => blames_ok _
  | gitWorktreeRemove | gitBranchDelete =>
    exact (hstring _).bind fun _ => (hstring _).bind fun _ => (blames_require _ _ _ _).bind fun _ =>
      blames_ok _
  | fsWriteText | gitMergeBranch | spWriteStdin | spWriteControl | termWrite =>
    exact (hstring _).bind fun _ => (hstring _).bind fun _ => blames_ok _
  | spResolveExecutable =>
    exact (hstring _).bind fun _ => (blames_readEnvironment _ _).bind fun _ => blames_ok _
  | spSpawn => exact (blames_readSpawnSpec _ _).bind fun _ => blames_ok _
  | spReadOutput =>
    exact (hstring _).bind fun _ => (blames_require _ _ _ _).bind fun _ =>
      (hinteger _ _).bind fun _ => blames_ok _
  | termSpawn => exact (blames_readTerminalSpec _ _).bind fun _ => blames_ok _
  | termRead =>
    exact (hstring _).bind fun _ => (hinteger _ _).bind fun _ =>
      (blames_optionalInteger _ _ _ _).bind fun _ => blames_ok _
  | termResize =>
    exact (hstring _).bind fun _ => (blames_readDimension _ _ _).bind fun _ =>
      (blames_readDimension _ _ _).bind fun _ => blames_ok _
  | termSignalForeground =>
    exact (hstring _).bind fun _ => (blames_require _ _ _ _).bind fun _ => blames_ok _
  | _ => exact (hstring _).bind fun _ => blames_ok _

/-- A method that was found is of the name it was looked for under. -/
theorem name_of_ofName {name : String} {m : Method} (h : Method.ofName name = some m) :
    m.name = name := by
  simpa using List.find?_some h

/-! ### Results -/

end RemoteWorkspace.Analysis.WireRequests
