import RemoteWorkspace.Computation.DurableCopy
import RemoteWorkspace.Computation.JsonLayout
import RemoteWorkspace.Model.Stores

/-!
# The documents of the node registry and the repository store

`readDocument` and `writeDocument` (storage/document.ts), the guards and the migration of
storage/nodes.ts and storage/repos.ts, and the records as the values that these documents hold.

A document is its text; a file that does not exist has none. A record that is read is the value
that was parsed: a guard looks at its members and keeps it as it is.
-/

set_option autoImplicit false

namespace RemoteWorkspace.Model.Documents

open RemoteWorkspace.Computation RemoteWorkspace.Computation.Json
open RemoteWorkspace.Model.Stores

variable {ν : Type} [JsNumber ν]

/-- The string of a text. -/
def units (text : String) : Text := Utf16.encode text.toList

/-! ### Values of the language -/

/-- `typeof value === 'object' && value !== null`. -/
def isObject : Json ν → Bool
  | .obj _ | .arr _ => true
  | _ => false

/-- A member of a value, `none` for `undefined`. An array has only its indices and its length,
which no document asks for. -/
def field (key : String) : Json ν → Option (Json ν)
  | .obj members => (members.find? fun m => m.1 = ascii key).map Prod.snd
  | _ => none

/-- `typeof value === 'string'`. -/
def isText : Option (Json ν) → Bool
  | some (.str _) => true
  | _ => false

/-- `typeof value === 'number'`. -/
def isNumber : Option (Json ν) → Bool
  | some (.num _) => true
  | _ => false

/-- `value === text`, for a text of ASCII characters. -/
def isExactly (text : String) : Option (Json ν) → Bool
  | some (.str s) => s = ascii text
  | _ => false

/-- `value === n`. -/
def isCount (n : ℕ) : Option (Json ν) → Bool
  | some (.num x) => JsNumber.toNat x = some n
  | _ => false

mutual

/-- `String(value)`. -/
def shown : Json ν → Text
  | .null => ascii "null"
  | .bool true => ascii "true"
  | .bool false => ascii "false"
  | .num x => JsNumber.write x
  | .str s => s
  | .arr items => shownItems items
  | .obj _ => ascii "[object Object]"

/-- The items of an array with commas between them, and nothing for `null`. -/
def shownItems : List (Json ν) → Text
  | [] => []
  | [.null] => []
  | [v] => shown v
  | .null :: w :: items => 0x2C :: shownItems (w :: items)
  | v :: w :: items => shown v ++ 0x2C :: shownItems (w :: items)

end

/-! ### Documents -/

/-- `DocumentSpec`. -/
structure DocumentSpec (ν : Type) where
  file : String
  version : ℕ
  key : String
  label : String
  isRecord : Json ν → Bool
  migrate : Option (Json ν → ℕ → Except Text (Json ν))

/-- The entries of a list that was parsed, read as what the document's revision says they are. -/
def readEntries (spec : DocumentSpec ν) (version : Option (Json ν)) (entries : List (Json ν)) :
    Except Text (List (Json ν)) :=
  match if isCount 1 version then spec.migrate else none with
  | some migrate => entries.zipIdx.mapM fun entry => migrate entry.1 entry.2
  | none =>
    if isCount spec.version version then
      if entries.all spec.isRecord then .ok entries
      else
        .error (units (spec.file ++ " carries a " ++ spec.label ++
          " entry this build does not understand"))
    else
      .error (units (spec.file ++ " has document version ") ++
        (version.elim (ascii "undefined") shown ++
          units ("; this build reads " ++ toString spec.version)))

/-- `readDocument`. -/
def readDocument (spec : DocumentSpec ν) : Option Text → Except Text (List (Json ν))
  | none => .ok []
  | some text =>
    match parse text with
    | none => .error (units (spec.file ++ " is not valid JSON"))
    | some parsed =>
      if isObject parsed then
        match field spec.key parsed with
        | some (.arr entries) => readEntries spec (field "version" parsed) entries
        | _ => .error (units (spec.file ++ " carries no " ++ spec.key ++ " list"))
      else .error (units (spec.file ++ " is not a " ++ spec.label ++ " document"))

/-- The value that `writeDocument` serializes. -/
def documentValue (spec : DocumentSpec ν) (records : List (Json ν)) : Json ν :=
  .obj [(ascii "version", .num (JsNumber.ofNat spec.version)), (ascii spec.key, .arr records)]

/-- The content that `writeDocument` puts in the file. -/
def writeDocument (spec : DocumentSpec ν) (records : List (Json ν)) : Text :=
  layout 2 0 (documentValue spec records) ++ [0x0A]

/-! ### Nodes -/

/-- A member that holds a text. -/
def textMember (key value : String) : Text × Json ν := (ascii key, .str (units value))

/-- A member that holds a number. -/
def countMember (key : String) (n : ℕ) : Text × Json ν := (ascii key, .num (JsNumber.ofNat n))

/-- A transport as a value. A member without a value is not written. -/
def transportValue : Stores.NodeTransport → Json ν
  | .ssh target sshPort identityFile =>
    .obj ([textMember "kind" "ssh", textMember "target" target] ++
      ((sshPort.map (countMember "sshPort")).toList ++
        (identityFile.map (textMember "identityFile")).toList))
  | .local => .obj [textMember "kind" "local"]
  | .direct host port =>
    .obj [textMember "kind" "direct", textMember "host" host, countMember "port" port]

/-- A node record as a value. -/
def nodeValue (record : Stores.NodeRecord) : Json ν :=
  .obj [textMember "nodeId" record.nodeId, textMember "title" record.title,
    (ascii "transport", transportValue record.transport), textMember "token" record.token,
    textMember "createdAt" record.createdAt, textMember "updatedAt" record.updatedAt]

/-- `isTransport`. -/
def isTransport (value : Json ν) : Bool :=
  if !isObject value then false
  else if isExactly "local" (field "kind" value) then true
  else if isExactly "ssh" (field "kind" value) then
    isText (field "target" value) &&
      ((field "sshPort" value).isNone || isNumber (field "sshPort" value)) &&
      ((field "identityFile" value).isNone || isText (field "identityFile" value))
  else if isExactly "direct" (field "kind" value) then
    isText (field "host" value) && isNumber (field "port" value)
  else false

/-- `isNodeRecord`. -/
def isNodeRecord (value : Json ν) : Bool :=
  isObject value && isText (field "nodeId" value) && isText (field "title" value) &&
    ((field "transport" value).any isTransport) && isText (field "token" value) &&
    isText (field "createdAt" value) && isText (field "updatedAt" value)

/-- The text fields of an entry of revision 1. -/
def fieldsV1 : List String := ["nodeId", "title", "host", "token", "createdAt", "updatedAt"]

/-- What is said of an entry of revision 1 without a usable field. -/
def unusableV1 (index : ℕ) (name : String) : Text :=
  units ("node entry " ++ toString index ++ " from revision 1 carries no usable \"" ++ name ++ "\"")

/-- The record that `migrateV1` returns for an entry with these fields. -/
def recordOfV1 (value : Json ν) : Json ν :=
  let given := fun (name : String) => (ascii name, (field name value).getD .null)
  .obj [given "nodeId", given "title",
    (ascii "transport", .obj [textMember "kind" "direct", given "host", given "port"]),
    given "token", given "createdAt", given "updatedAt"]

/-- `migrateV1`. -/
def migrateV1 (value : Json ν) (index : ℕ) : Except Text (Json ν) :=
  match fieldsV1.find? fun name => !isText (field name value) with
  | some name => .error (unusableV1 index name)
  | none =>
    if isNumber (field "port" value) then .ok (recordOfV1 value)
    else .error (unusableV1 index "port")

/-- The document of the node registry. -/
def nodeDocument (file : String) : DocumentSpec ν where
  file := file
  version := 2
  key := "nodes"
  label := "node"
  isRecord := isNodeRecord
  migrate := some migrateV1

/-! ### Repositories -/

/-- A repository record as a value. -/
def repoValue (record : RepoRecord) : Json ν :=
  .obj [textMember "repoId" record.repoId, textMember "nodeId" record.nodeId,
    textMember "repoPath" record.repoPath, textMember "name" record.name,
    textMember "createdAt" record.createdAt]

/-- `isRepoRecord`. -/
def isRepoRecord (value : Json ν) : Bool :=
  isObject value && isText (field "repoId" value) && isText (field "nodeId" value) &&
    isText (field "repoPath" value) && isText (field "name" value) &&
    isText (field "createdAt" value)

/-- The document of the repository store. -/
def repoDocument (file : String) : DocumentSpec ν where
  file := file
  version := 1
  key := "repos"
  label := "repository"
  isRecord := isRepoRecord
  migrate := none

/-! ### Records that were read -/

/-- The text of a member. -/
def textOf (key : String) (value : Json ν) : Option String :=
  match field key value with
  | some (.str s) => (Utf16.decodeStrict s).map String.ofList
  | _ => none

/-- The whole number of a member. -/
def countOf (key : String) (value : Json ν) : Option ℕ :=
  match field key value with
  | some (.num x) => JsNumber.toNat x
  | _ => none

/-- A member that may be left out, read with `read`. -/
def optionalOf {α : Type} (read : String → Json ν → Option α) (key : String) (value : Json ν) :
    Option (Option α) :=
  match field key value with
  | none => some none
  | some _ => (read key value).map some

/-- The transport that a value is. -/
def transportOf (value : Json ν) : Option Stores.NodeTransport :=
  if isExactly "local" (field "kind" value) then some .local
  else if isExactly "ssh" (field "kind" value) then do
    let target ← textOf "target" value
    let sshPort ← optionalOf countOf "sshPort" value
    let identityFile ← optionalOf textOf "identityFile" value
    return .ssh target sshPort identityFile
  else if isExactly "direct" (field "kind" value) then do
    let host ← textOf "host" value
    let port ← countOf "port" value
    return .direct host port
  else none

/-- The node record that a value is. -/
def nodeOf (value : Json ν) : Option Stores.NodeRecord := do
  let nodeId ← textOf "nodeId" value
  let title ← textOf "title" value
  let transport ← (field "transport" value).bind transportOf
  let token ← textOf "token" value
  let createdAt ← textOf "createdAt" value
  let updatedAt ← textOf "updatedAt" value
  return ⟨nodeId, title, transport, token, createdAt, updatedAt⟩

/-- The repository record that a value is. -/
def repoOf (value : Json ν) : Option RepoRecord := do
  let repoId ← textOf "repoId" value
  let nodeId ← textOf "nodeId" value
  let repoPath ← textOf "repoPath" value
  let name ← textOf "name" value
  let createdAt ← textOf "createdAt" value
  return ⟨repoId, nodeId, repoPath, name, createdAt⟩

/-- How a store of records is kept in a document: a value for each record, and each value that
`readDocument` gives read as the record that it is. -/
def documentFormat {α : Type} (spec : DocumentSpec ν) (value : α → Json ν)
    (record : Json ν → Option α) : Durable.Format (List α) (Option Text) where
  render records := some (writeDocument spec (records.map value))
  read text := (readDocument spec text).toOption.bind fun values => values.mapM record

/-- The document of the node registry, with its records. -/
def nodeFormat (ν : Type) [JsNumber ν] (file : String) :
    Durable.Format (List Stores.NodeRecord) (Option Text) :=
  documentFormat (nodeDocument file : DocumentSpec ν) nodeValue nodeOf

/-- The document of the repository store, with its records. -/
def repoFormat (ν : Type) [JsNumber ν] (file : String) :
    Durable.Format (List RepoRecord) (Option Text) :=
  documentFormat (repoDocument file : DocumentSpec ν) repoValue repoOf

end RemoteWorkspace.Model.Documents
