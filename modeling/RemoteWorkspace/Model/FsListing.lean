import Mathlib.Data.Char
import Mathlib.Data.List.Lex
import RemoteWorkspace.Model.FsPaths
import RemoteWorkspace.Model.RoutingFs

/-!
# Metadata and directory listings

`stat`, `lstat` and `list_dir` (agent/src/fs.rs) with what they ask the operating system for, and
`stat` and `listDir` of the routing file system (plugin/routing/fs.ts), which hand the answers on
under target keys.

A disk does not change while it is listed. Names are texts; a directory gives its names in any
order, and they are sorted as their bytes are, which is by their code points.
-/

set_option autoImplicit false

namespace RemoteWorkspace.Model.FsListing

open RemoteWorkspace.Computation RemoteWorkspace.Computation.Symlinks
open RemoteWorkspace.Model.FsText RemoteWorkspace.Model.FsPaths

/-- What kind of thing an entry is (`FsDirEntry`, `FsPathInfo`). -/
inductive FileType where
  | file
  | directory
  | symlink
  | other
  deriving DecidableEq

/-- `fs::Metadata`, as far as it is read. -/
structure Metadata where
  kind : FileType
  mtime : ℤ
  mtimeNsec : ℤ
  size : ℕ
  ino : ℕ
  deriving DecidableEq

/-- `version_of`: the freshness token of a target. -/
def versionOf (info : Metadata) : String :=
  toString (info.mtime * 1000000000 + info.mtimeNsec) ++ ":" ++ toString info.size ++ ":" ++
    toString info.ino

/-- `file_type`. -/
def fileType (info : Metadata) : FileType :=
  if info.kind = .file then .file else if info.kind = .directory then .directory else .other

/-- `path_type`. -/
def pathType (info : Metadata) : FileType :=
  if info.kind = .symlink then .symlink else fileType info

/-- A disk: what stands where, its metadata, and what reading a directory answers. Its entries
have names, a directory is what says so, and reading one answers the names of its children, each
once. -/
structure Disk where
  fs : FileSystem (List Char)
  info : Place → Metadata
  readDir : Place → Except Errno (List (List Char))
  named : ∀ place, (fs place).isSome = true → ∀ name ∈ place, IsName name
  lists : ∀ place names, readDir place = .ok names →
    names.Nodup ∧ ∀ name, name ∈ names ↔ (fs (place ++ [name])).isSome = true
  directories : ∀ place node, fs place = some node →
    ((info place).kind = .directory ↔ node = .directory ∨ node = .locked)

/-- The place of a path whose last name is not followed. -/
def lplace (fs : FileSystem (List Char)) (place : Place) : Except Stop Place :=
  match place.getLast? with
  | none => .ok []
  | some name => do
    let parent ← canonicalize fs place.dropLast
    match if parent = [] then some .directory else fs parent with
    | some .file => .error .notDirectory
    | some .locked => .error .denied
    | _ => if (fs (parent ++ [name])).isSome then .ok (parent ++ [name]) else .error .missing

/-- `probe`. -/
def probe (disk : Disk) (verb path : String) (follow : Bool) : Except Failure (Option Metadata) :=
  match if follow then canonicalize disk.fs (placeOf path) else lplace disk.fs (placeOf path) with
  | .ok place => .ok (some (disk.info place))
  | .error stop =>
    if errnoOf stop = .noent ∨ errnoOf stop = .notdir then .ok none
    else .error (ioFailure verb path (errnoOf stop))

/-- What `fs.stat` and `fs.lstat` answer of something that is there. -/
structure StatAnswer where
  version : String
  type : FileType
  size : ℕ
  deriving DecidableEq

/-- `stat`. -/
def stat (disk : Disk) (root : Option String) (path : String) :
    Except Failure (Option StatAnswer) := do
  let target ← absolutePath "stat" path root
  let info ← probe disk "stat" target true
  return info.map fun info => ⟨versionOf info, fileType info, info.size⟩

/-- `lstat`. -/
def lstat (disk : Disk) (root : Option String) (path : String) :
    Except Failure (Option StatAnswer) := do
  let target ← absolutePath "lstat" path root
  let info ← probe disk "lstat" target false
  return info.map fun info => ⟨versionOf info, pathType info, info.size⟩

/-- `child_canonical`: a listed child, or the parent's canonical name for an absent one. -/
def childCanonical (fs : FileSystem (List Char)) (verb parent : String) (name : List Char) :
    Except Failure String :=
  match canonicalize fs (placeOf parent ++ [name]) with
  | .ok place => .ok (pathOf place)
  | .error stop =>
    if errnoOf stop = .noent ∨ errnoOf stop = .notdir then
      .ok (pathOf (placeOf parent ++ [name]))
    else .error (ioFailure verb (pathOf (placeOf parent ++ [name])) (errnoOf stop))

/-- One entry of a listing. -/
structure ListEntry where
  name : List Char
  type : FileType
  canonicalPath : String
  version : Option String
  size : Option ℕ
  deriving DecidableEq

/-- What `list_dir` says of one name. -/
def listEntry (disk : Disk) (verb target : String) (name : List Char) :
    Except Failure ListEntry := do
  let childPath ← childCanonical disk.fs verb target name
  let childInfo ← probe disk verb childPath true
  return {
    name := name
    type := childInfo.elim .other fileType
    canonicalPath := childPath
    version := childInfo.map versionOf
    size := childInfo.bind fun info => if info.kind = .file then some info.size else none }

/-- `names.sort()`. -/
def sortNames (names : List (List Char)) : List (List Char) :=
  names.mergeSort fun a b => decide (a ≤ b)

/-- `list_dir`. -/
def listDir (disk : Disk) (root : Option String) (path : String) :
    Except Failure (List ListEntry) := do
  let absolute ← absolutePath "list" path root
  let target ← canonicalTarget disk.fs "list" absolute
  match ← probe disk "list" target true with
  | none => .error (notFound "list" target)
  | some info =>
    if info.kind ≠ .directory then
      .error (.about "FS_NOT_DIRECTORY" "list" target "not a directory")
    else
      match disk.readDir (placeOf target) with
      | .error errno => .error (ioFailure "list" target errno)
      | .ok names => (sortNames names).mapM (listEntry disk "list" target)

/-! ### The routing file system -/

/-- An entry as the routing file system hands it on (`FsDirEntry`). -/
structure FsDirEntry where
  name : List Char
  type : FileType
  targetKey : String
  displayPath : String
  version : Option String
  size : Option ℕ
  deriving DecidableEq

/-- The remote branch of `listDir` (fs.ts:384-401), for a target on a machine; `none` for a target
of the local host. -/
def routedListDir (disk : Disk) (root : Option String) (targetKey : String) :
    Option (Except Failure (List FsDirEntry)) :=
  match RoutingFs.parseKey targetKey with
  | .localHost => none
  | .remote nodeId remotePath => some <| (listDir disk root remotePath).map fun entries =>
    entries.map fun entry =>
      ⟨entry.name, entry.type, RoutingFs.composeKey nodeId entry.canonicalPath,
        entry.canonicalPath, entry.version, entry.size⟩

/-- The remote branch of `stat` (fs.ts:308-320). -/
def routedStat (disk : Disk) (root : Option String) (targetKey : String) :
    Option (Except Failure (Option StatAnswer)) :=
  match RoutingFs.parseKey targetKey with
  | .localHost => none
  | .remote _ remotePath => some (stat disk root remotePath)

end RemoteWorkspace.Model.FsListing
