import RemoteWorkspace.Computation.Utf8
import RemoteWorkspace.Model.PosixPath

/-!
# Reading a remote text file

The daemon's side is `read_text_chunk` (agent/src/fs.rs): a window of the file, cut back to
a code point boundary, decoded, and refused when it is no text. The client's side is
`remoteTextStream` and `readText` (plugin/routing/fs.ts): windows are asked for one after
another, each from where the last one ended, until one is the last.

The failures of the daemon's filesystem methods and the placing of paths are here too; the
methods that write share them.
-/

set_option autoImplicit false

namespace RemoteWorkspace.Model.FsText

open RemoteWorkspace.Computation

abbrev Bytes := List UInt8

/-- A text, as its code points. -/
abbrev Text := List Char

/-! ### Failures (agent/src/failure.rs, agent/src/fs.rs) -/

/-- A failure carrying the protocol's own stable code; every failure of a filesystem method
reports as an internal error of the protocol. -/
structure Failure where
  code : String
  message : String
  deriving DecidableEq

/-- What a system call fails with. -/
inductive Errno where
  | noent
  | notdir
  | acces
  | perm
  | exist
  | other (text : String)
  deriving DecidableEq

/-- How a failed system call reads. -/
def Errno.display : Errno → String
  | .noent => "No such file or directory (os error 2)"
  | .notdir => "Not a directory (os error 20)"
  | .acces => "Permission denied (os error 13)"
  | .perm => "Operation not permitted (os error 1)"
  | .exist => "File exists (os error 17)"
  | .other text => text

/-- A failure that names its operation and its path. -/
def Failure.about (code verb path detail : String) : Failure :=
  ⟨code, "cannot " ++ verb ++ " \"" ++ path ++ "\": " ++ detail⟩

/-- `not_found`. -/
def notFound (verb path : String) : Failure := .about "FS_NOT_FOUND" verb path "not found"

/-- `not_regular_file`. -/
def notRegularFile (verb path : String) : Failure :=
  .about "FS_NOT_REGULAR_FILE" verb path "not a regular file"

/-- `stale_version`. -/
def staleVersion (verb path detail : String) : Failure :=
  .about "FS_STALE_VERSION" verb path detail

/-- `too_large`. -/
def tooLarge (verb path detail : String) : Failure := .about "FS_TOO_LARGE" verb path detail

/-- `not_observed`: the refusal shared by the two paths a guarded create can find content on. -/
def notObserved (target : String) : Failure :=
  ⟨"FS_NOT_OBSERVED",
    "cannot overwrite existing \"" ++ target ++ "\" without reading it first"⟩

/-- `io_failure`: a filesystem rejection under the code the plugin rethrows. -/
def ioFailure (verb path : String) (error : Errno) : Failure :=
  if error = .noent ∨ error = .notdir then notFound verb path
  else if error = .acces ∨ error = .perm then
    .about "FS_PERMISSION_DENIED" verb path "permission denied"
  else .about "FS_IO_ERROR" verb path error.display

/-! ### Paths -/

/-- `normalize`: `.` and `..` segments removed lexically from an absolute path. -/
def normalize (path : List Char) : String :=
  String.ofList ('/' :: ['/'].intercalate
    ((path.splitOn '/').foldl (PosixPath.normalizeSegment false) []))

/-- `absolute_path`: a requested path, placed against the daemon's root when it is relative. -/
def absolutePath (verb path : String) (base : Option String) : Except Failure String :=
  if path.toList.head? = some '/' then .ok (normalize path.toList)
  else
    match base with
    | some value =>
      if value.toList.head? = some '/' then .ok (normalize (value.toList ++ '/' :: path.toList))
      else .error (.about "FS_IO_ERROR" verb path
        "path is relative and the daemon has no root to place it against")
    | none => .error (.about "FS_IO_ERROR" verb path
        "path is relative and the daemon has no root to place it against")

/-! ### Files -/

/-- What a path names, its links followed; a regular file also has what opening or reading
it fails with, when it does. -/
inductive Entry where
  | file (content : Bytes) (unreadable : Option Errno)
  | directory
  | other
  deriving DecidableEq

/-- The filesystem: what reading the metadata of a path answers. -/
abbrev Files := String → Except Errno Entry

/-- `probe`: metadata, or `none` when the path (or a parent segment) is absent. -/
def probe (files : Files) (verb path : String) : Except Failure (Option Entry) :=
  match files path with
  | .ok info => .ok (some info)
  | .error error =>
    if error = .noent ∨ error = .notdir then .ok none
    else .error (ioFailure verb path error)

/-- `MAX_READ_BYTES`: the ceiling on one read. -/
def maxReadBytes : ℕ := 1 <<< 31

/-- `read_window`: exactly `length` bytes at `offset`, or fewer at end of file. -/
def readWindow (content : Bytes) (unreadable : Option Errno) (verb path : String)
    (offset length : ℕ) : Except Failure Bytes :=
  if maxReadBytes < length then
    .error (tooLarge verb path
      (toString length ++ " bytes exceeds the " ++ toString maxReadBytes ++ "-byte read limit"))
  else if length = 0 then .ok []
  else
    match unreadable with
    | some error => .error (ioFailure verb path error)
    | none => .ok ((content.drop offset).take length)

/-! ### Text windows -/

/-- The scan of `trailing_fragment_length`: the bytes not yet looked at, the last one
first, and how far back the next one stands. -/
def scanFragment : ℕ → Bytes → ℕ
  | _, [] => 0
  | back, byte :: rest =>
    if byte &&& 0xc0 = 0x80 then scanFragment (back + 1) rest
    else if byte &&& 0x80 = 0x00 then back - 1
    else
      let width := if 0xf0 ≤ byte then 4 else if 0xe0 ≤ byte then 3 else 2
      if back < width then back else 0

/-- `trailing_fragment_length`: the length of the trailing fragment that belongs to a code
point continued after the window. -/
def trailingFragmentLength (bytes : Bytes) : ℕ := scanFragment 1 (bytes.reverse.take 3)

/-- `decode_text`: a boundary-aligned window as UTF-8 text. -/
def decodeText (verb path : String) (bytes : Bytes) : Except Failure Text :=
  if 0 ∈ bytes then .error (.about "FS_NOT_TEXT" verb path "binary file")
  else if Utf8.WellFormed bytes then .ok (Utf8.decode bytes)
  else .error (.about "FS_NOT_TEXT" verb path "invalid UTF-8 text")

/-- One decoded text window, as the wire has it. -/
structure TextChunk where
  text : Text
  nextOffset : ℕ
  eof : Bool
  deriving DecidableEq

/-- What is left of a window when the fragment it ends in is held back; a window that is a
fragment altogether is left as it is. -/
def usable (window : Bytes) : Bytes :=
  let fragment := trailingFragmentLength window
  if 0 < fragment ∧ fragment < window.length then window.take (window.length - fragment)
  else window

/-- The window of a regular file from an offset inside it (`read_text_chunk`, fs.rs:145-166). -/
def textWindow (content : Bytes) (unreadable : Option Errno) (verb target : String)
    (offset length : ℕ) : Except Failure TextChunk := do
  -- a short window is widened to four bytes, so that it is never a fragment alone
  let wanted := min (max length 4) (content.length - offset)
  let window ← readWindow content unreadable verb target offset wanted
  if 0 < trailingFragmentLength window ∧ content.length ≤ offset + window.length then
    -- the fragment runs into the end of the file: no later window completes it
    .error (.about "FS_NOT_TEXT" verb target "invalid UTF-8 text")
  else
    let nextOffset := offset + (usable window).length
    let text ← decodeText verb target (usable window)
    .ok ⟨text, nextOffset, decide (content.length ≤ nextOffset)⟩

/-- `FsBackend::read_text_chunk`. -/
def readTextChunk (files : Files) (root : Option String) (path : String) (offset length : ℕ) :
    Except Failure TextChunk := do
  let target ← absolutePath "read" path root
  match ← probe files "read" target with
  | none => .error (notFound "read" target)
  | some (.file content unreadable) =>
    if content.length ≤ offset then .ok ⟨[], offset, true⟩
    else textWindow content unreadable "read" target offset length
  | some _ => .error (notRegularFile "read" target)

/-- `fs.readTextChunk` as `dispatch` (agent/src/wire.rs) serves it: a length is at least one. -/
def serveTextChunk (files : Files) (root : Option String) (path : String) (offset length : ℕ) :
    Except Failure TextChunk :=
  if length < 1 then
    .error ⟨"FS_IO_ERROR",
      "fs.readTextChunk: \"length\" must be a safe integer no smaller than 1"⟩
  else readTextChunk files root path offset length

/-! ### The pull loop (plugin/routing/fs.ts) -/

/-- `TEXT_CHUNK_BYTES`: bytes per remote text pull. -/
def textChunkBytes : ℕ := 1 <<< 20

/-- What a reader of a remote file is thrown: the seam's own error, or the transport's. -/
inductive ClientError where
  | fs (message code : String)
  | request (failure : Failure)
  deriving DecidableEq

/-- `toFsError`: a daemon failure inside the filesystem family becomes the typed error. -/
def toFsError (failure : Failure) : ClientError :=
  if "FS_".toList <+: failure.code.toList then .fs failure.message failure.code
  else .request failure

/-- What a pull of a whole file comes to: the texts it yielded, and what it threw after
them, if it did. -/
structure Pulled where
  chunks : List Text
  failure : Option ClientError
  deriving DecidableEq

/-- `remoteTextStream`: the pulls from `offset` on, of which the first is the `round`th.
`signal` tells which pulls find the read aborted. `none` when there are more pulls than
`fuel`. -/
def remoteTextStream (request : ℕ → Except Failure TextChunk) (signal : ℕ → Bool) :
    (fuel round offset : ℕ) → Option Pulled
  | 0, _, _ => none
  | fuel + 1, round, offset =>
    if signal round then some ⟨[], some (.fs "filesystem operation aborted" "FS_ABORTED")⟩
    else
      match request offset with
      | .error failure => some ⟨[], some (toFsError failure)⟩
      | .ok chunk =>
        let yielded := if 0 < chunk.text.length then [chunk.text] else []
        if chunk.eof then some ⟨yielded, none⟩
        else
          (remoteTextStream request signal fuel (round + 1) chunk.nextOffset).map fun rest =>
            ⟨yielded ++ rest.chunks, rest.failure⟩

/-- `readText`: the chunks joined, or what the pull threw. -/
def readText (request : ℕ → Except Failure TextChunk) (signal : ℕ → Bool) (fuel : ℕ) :
    Option (Except ClientError Text) :=
  (remoteTextStream request signal fuel 0 0).map fun pulled =>
    match pulled.failure with
    | some error => .error error
    | none => .ok pulled.chunks.flatten

end RemoteWorkspace.Model.FsText
