import Mathlib.Data.Int.Notation
import RemoteWorkspace.Computation.Utf8
import RemoteWorkspace.Model.PosixPath

/-!
# Resolving a release binary

`resolveAgentBinary` (remote/agent/release.ts): a binary comes from the cache, or from an
archive that is downloaded and checked against the release's `SHA256SUMS`, each file from
its own address or, when that fails, from the first mirror that answers.

The digest and the decompression come from Node's own modules and are parameters here.
-/

set_option autoImplicit false

namespace RemoteWorkspace.Model.Release

open RemoteWorkspace.Computation

abbrev Bytes := List UInt8

/-- Why a binary could not be resolved. -/
inductive Failure where
  | cache
  | download (url : String)
  | noSum (sumsUrl fileName : String)
  | checksum (archiveUrl : String)
  | notGzipped (archiveUrl : String)
  | noMember (archiveUrl member : String)
  deriving DecidableEq

/-! ### Addresses -/

/-- `DOWNLOAD_ROOT`. -/
def downloadRoot : String := "https://github.com/lengmoXXL/dsh-remote-workspace/releases/download"

/-- `AGENT_MEMBER`. -/
def agentMember : String := "dsh-remote-agent"

/-- The release file one asset is published as. -/
def archiveName (assetName : String) : String := assetName ++ ".tar.gz"

/-- The direct download address of one platform's archive. -/
def agentArchiveUrl (version assetName : String) : String :=
  downloadRoot ++ "/v" ++ version ++ "/" ++ archiveName assetName

/-- The direct download address of one version's sums file. -/
def agentSumsUrl (version : String) : String := downloadRoot ++ "/v" ++ version ++ "/SHA256SUMS"

/-- `DOWNLOAD_MIRRORS`. -/
def downloadMirrors : List String :=
  ["https://ghfast.top/", "https://gh-proxy.com/", "https://ghproxy.net/"]

/-- Downloads one URL; `none` when that fails. -/
abbrev AgentFetcher := String → Option Bytes

/-- Download one release file, at its own address first and a mirror after it. -/
def download (fetcher : AgentFetcher) (url : String) : Except Failure Bytes :=
  let addresses := url :: downloadMirrors.map (· ++ url)
  match addresses.findSome? fetcher with
  | some bytes => .ok bytes
  | none => .error (.download url)

/-! ### Text -/

/-- White space and line terminators, which `trim` and `\s` match. -/
def isSpace (c : Char) : Bool :=
  let n := c.toNat
  (9 ≤ n && n ≤ 13) || n = 0x20 || n = 0xA0 || n = 0x1680 || (0x2000 ≤ n && n ≤ 0x200A) ||
    n = 0x2028 || n = 0x2029 || n = 0x202F || n = 0x205F || n = 0x3000 || n = 0xFEFF

/-- `String.prototype.trim`. -/
def trim (text : List Char) : List Char :=
  ((text.dropWhile isSpace).reverse.dropWhile isSpace).reverse

/-- What `.` does not match. -/
def isLineTerminator (c : Char) : Bool :=
  c = '\n' || c = '\r' || c.toNat = 0x2028 || c.toNat = 0x2029

/-- `[0-9a-f]` without regard to case. -/
def isHexDigit (c : Char) : Bool :=
  ('0' ≤ c && c ≤ '9') || ('a' ≤ c && c ≤ 'f') || ('A' ≤ c && c ≤ 'F')

/-- One line of a sums file: 64 hexadecimal digits, white space and a name. -/
def sumsLine (line : List Char) : Option (List Char × List Char) :=
  let digest := line.take 64
  let rest := line.drop 64
  let name := rest.dropWhile isSpace
  if digest.length = 64 ∧ digest.all isHexDigit = true ∧ name.length < rest.length ∧
      name ≠ [] ∧ name.any isLineTerminator = false then
    some (digest, name)
  else none

/-- Read the expected hash for one release file out of a `SHA256SUMS` body. -/
def expectedChecksum (sums : List Char) (fileName sumsUrl : String) :
    Except Failure (List Char) :=
  let found := (sums.splitOn '\n').findSome? fun line =>
    match sumsLine (trim line) with
    | some (digest, name) =>
      if trim name = fileName.toList then some (digest.map Char.toLower) else none
    | none => none
  match found with
  | some digest => .ok digest
  | none => .error (.noSum sumsUrl fileName)

/-! ### The archive -/

/-- `TAR_BLOCK`. -/
def tarBlock : ℤ := 512

/-- `Buffer.prototype.subarray`: negative positions count from the end. -/
def subarray (bytes : Bytes) (start stop : ℤ) : Bytes :=
  let clamp (i : ℤ) : ℕ := if i < 0 then (bytes.length + i).toNat else i.toNat
  (bytes.take (clamp stop)).drop (clamp start)

/-- One tar header field, read to its NUL or its field boundary and trimmed. -/
def headerText (header : Bytes) (start length : ℕ) : List Char :=
  let field := (header.drop start).take length
  trim (Utf8.decode (field.takeWhile (· ≠ 0)))

/-- `Number.parseInt` in base eight; `none` is `NaN`. -/
def parseOctal (text : List Char) : Option ℤ :=
  let unsigned := match text with
    | '-' :: rest => rest
    | '+' :: rest => rest
    | _ => text
  let digits := unsigned.takeWhile fun c => '0' ≤ c ∧ c ≤ '7'
  if digits = [] then none
  else
    let value : ℤ := digits.foldl (fun n c => n * 8 + (c.toNat - '0'.toNat : ℕ)) 0
    some (if text.head? = some '-' then -value else value)

/-- The octal byte count of one tar header's data. -/
def headerSize (header : Bytes) : Option ℤ :=
  let text := headerText header 124 12
  if text = [] then some 0 else parseOctal text

/-- Walk the records of a tar from an offset until the member is found. A record whose size
is no number ends the walk, and negative sizes can make it go round for ever, so it takes at
most `steps` records. -/
def findMember (tar : Bytes) (member : String) : ℕ → ℤ → Option Bytes
  | 0, _ => none
  | steps + 1, offset =>
    if offset + tarBlock ≤ tar.length then
      let header := subarray tar offset (offset + tarBlock)
      if header.all (· = 0) then none
      else
        let start := offset + tarBlock
        let type := header.getD 156 0
        let name := headerText header 0 100
        let regular := (type = '0'.toUInt8 ∨ type = 0) ∧
          (name.splitOn '/').getLast? = some member.toList
        match headerSize header with
        | some size =>
          if regular then some (subarray tar start (start + size))
          else findMember tar member steps (start + (size + tarBlock - 1) / tarBlock * tarBlock)
        | none => if regular then some [] else none
    else none

/-- The header that starts at an offset. -/
def headerAt (tar : Bytes) (offset : ℤ) : Bytes := subarray tar offset (offset + tarBlock)

/-- Whether a header is that of a regular file with the wanted base name. -/
def isMember (header : Bytes) (member : String) : Bool :=
  (header.getD 156 0 = '0'.toUInt8 ∨ header.getD 156 0 = 0) ∧
    ((headerText header 0 100).splitOn '/').getLast? = some member.toList

/-- Where the record after one of this size starts. -/
def nextOffset (offset size : ℤ) : ℤ :=
  offset + tarBlock + (size + tarBlock - 1) / tarBlock * tarBlock

/-- The same walk, which says how it went: `none` when it took all its steps and goes on, and
otherwise what it returns, or `none` where it throws. -/
def archiveLoop (tar : Bytes) (member : String) : ℕ → ℤ → Option (Option Bytes)
  | 0, _ => none
  | steps + 1, offset =>
    if offset + tarBlock ≤ tar.length then
      let header := headerAt tar offset
      if header.all (· = 0) then some none
      else if isMember header member then
        -- a size that is no number ends the slice at the beginning of the buffer
        let stop := (headerSize header).elim 0 (offset + tarBlock + ·)
        some (some (subarray tar (offset + tarBlock) stop))
      else
        match headerSize header with
        | none => some none
        | some size => archiveLoop tar member steps (nextOffset offset size)
    else some none

variable (sha256 : Bytes → List Char) (gunzip : Bytes → Option Bytes)

/-- The agent binary inside one release archive. -/
def archiveMember (steps : ℕ) (archive : Bytes) (sourceUrl member : String) :
    Except Failure Bytes :=
  match gunzip archive with
  | none => .error (.notGzipped sourceUrl)
  | some tar =>
    match findMember tar member steps 0 with
    | some bytes => .ok bytes
    | none => .error (.noMember sourceUrl member)

/-! ### Resolving -/

/-- Options `resolveAgentBinary` reads. -/
structure AgentBinaryOptions where
  version : String
  assetName : String
  member : Option String
  cacheDir : String

/-- The host's cache: what its files hold, and whether reading and writing them fails for
another reason than a missing file. -/
structure Cache where
  files : String → Option Bytes
  readFails : Bool
  writeFails : Bool

/-- Where one binary is cached. -/
def cached (options : AgentBinaryOptions) : String :=
  PosixPath.join [options.cacheDir, options.version, options.assetName]

/-- Download, check and unpack one binary. The two downloads do not wait for each other; when
both fail the archive's failure stands for either. -/
def fetchBinary (fetcher : AgentFetcher) (steps : ℕ) (options : AgentBinaryOptions) :
    Except Failure Bytes := do
  let archiveUrl := agentArchiveUrl options.version options.assetName
  let sumsUrl := agentSumsUrl options.version
  let archive ← download fetcher archiveUrl
  let sums ← download fetcher sumsUrl
  let expected ← expectedChecksum (Utf8.decode sums) (archiveName options.assetName) sumsUrl
  if sha256 archive ≠ expected then .error (.checksum archiveUrl)
  else archiveMember gunzip steps archive archiveUrl (options.member.getD agentMember)

/-- Fetch, verify, unpack, and cache one release binary. -/
def resolveAgentBinary (fetcher : AgentFetcher) (steps : ℕ) (cache : Cache)
    (options : AgentBinaryOptions) : Except Failure (Bytes × Cache) :=
  if cache.readFails then .error .cache
  else
    match cache.files (cached options) with
    | some bytes => .ok (bytes, cache)
    | none => do
      let binary ← fetchBinary sha256 gunzip fetcher steps options
      if cache.writeFails then .error .cache
      else .ok (binary,
        { cache with files := Function.update cache.files (cached options) (some binary) })

end RemoteWorkspace.Model.Release
