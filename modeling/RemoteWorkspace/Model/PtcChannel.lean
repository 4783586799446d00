import RemoteWorkspace.Computation.Framing
import RemoteWorkspace.Computation.PieceReader

/-!
# The control channel of a program host

`Channel` (ptc-host/src/channel.rs): frames of at most `max_frame` bytes over the descriptor that
the program host inherits. What the peer sends arrives in pieces, and after them the peer has
closed its end or a read fails; what is written is taken whole, or up to where the peer stops
taking it. `read_exact` and `write_all` are the standard library's.
-/

set_option autoImplicit false

namespace RemoteWorkspace.Model.PtcChannel

open RemoteWorkspace.Computation RemoteWorkspace.Computation.Framing

abbrev Bytes := List UInt8

/-- `u32::MAX` -/
def u32Max : ℕ := (1 <<< 32) - 1

/-- `std::io::ErrorKind`, as far as the channel tells the kinds apart. -/
inductive ErrorKind where
  | invalidInput
  | invalidData
  | unexpectedEof
  | other
  deriving DecidableEq

/-- `std::io::Error` -/
structure Error where
  kind : ErrorKind
  message : String
  deriving DecidableEq

/-! ### The descriptor -/

/-- A file: what arrives, what its reads fail with after that if the peer has not just closed its
end, what was written, and after how many more bytes a write fails, and with what. -/
structure File where
  incoming : PieceReader UInt8
  broken : Option Error
  outgoing : Bytes
  refuses : Option (ℕ × Error)

/-- `Read::read_exact`. A peer that closed is the end of the file; in every failure what was
there has been read. -/
def File.readExact (file : File) (n : ℕ) : Except Error Bytes × File :=
  match file.incoming.readExact n with
  | some (bytes, incoming) => (.ok bytes, { file with incoming := incoming })
  | none =>
    (.error (file.broken.getD ⟨.unexpectedEof, "failed to fill whole buffer"⟩),
      { file with incoming := ⟨[], []⟩ })

/-- `Write::write_all`. What the peer took before the failure has been written. -/
def File.writeAll (file : File) (bytes : Bytes) : Except Error Unit × File :=
  match file.refuses with
  | none => (.ok (), { file with outgoing := file.outgoing ++ bytes })
  | some (room, error) =>
    if bytes.length ≤ room then
      (.ok (), { file with
        outgoing := file.outgoing ++ bytes
        refuses := some (room - bytes.length, error) })
    else
      (.error error, { file with
        outgoing := file.outgoing ++ bytes.take room
        refuses := some (0, error) })

/-! ### Frames -/

/-- One framed JSON byte stream, owned by this process. -/
structure Channel where
  file : File
  /-- The host's own frame limit, from argv. -/
  maxFrame : ℕ
  fits : maxFrame ≤ u32Max

/-- `Channel::inherit`, of the file behind the control descriptor. -/
def inherit (maxFrame : ℕ) (file : File) : Except Error Channel :=
  if fits : maxFrame ≤ u32Max then .ok ⟨file, maxFrame, fits⟩
  else
    .error ⟨.invalidInput, "the frame limit " ++ toString maxFrame ++
      " does not fit an unsigned 32-bit length"⟩

/-- How a write ends that does not succeed: with an error, or in the panic of its `expect`. -/
inductive Stop where
  | failed (error : Error)
  | panicked
  deriving DecidableEq

/-- `u32::try_from` -/
def u32TryFrom (n : ℕ) : Option UInt32 :=
  if h : n < 1 <<< 32 then some (.ofNatLT n h) else none

/-- `Channel::write_frame`. The flush of a file does nothing. -/
def Channel.writeFrame (channel : Channel) (payload : Bytes) : Except Stop Unit × Channel :=
  if payload = [] ∨ channel.maxFrame < payload.length then
    (.error (.failed ⟨.invalidInput, "a control frame of " ++ toString payload.length ++
      " bytes is empty or exceeds the " ++ toString channel.maxFrame ++ "-byte limit"⟩), channel)
  else
    match u32TryFrom payload.length with
    | none => (.error .panicked, channel)
    | some length =>
      match channel.file.writeAll (toBeBytes 4 length.toNat) with
      | (.error error, file) => (.error (.failed error), { channel with file := file })
      | (.ok (), file) =>
        match file.writeAll payload with
        | (.error error, file) => (.error (.failed error), { channel with file := file })
        | (.ok (), file) => (.ok (), { channel with file := file })

/-- `Channel::read_frame`: one frame, or `none` once the peer closed the channel. -/
def Channel.readFrame (channel : Channel) : Except Error (Option Bytes) × Channel :=
  match channel.file.readExact 4 with
  | (.error error, file) =>
    -- a peer that closed mid-header is the channel ending
    (if error.kind = .unexpectedEof then .ok none else .error error, { channel with file := file })
  | (.ok header, file) =>
    let length := fromBeBytes header
    if length = 0 ∨ channel.maxFrame < length then
      (.error ⟨.invalidData, "an incoming control frame of " ++ toString length ++
        " bytes is empty or exceeds the " ++ toString channel.maxFrame ++ "-byte limit"⟩,
        { channel with file := file })
    else
      match file.readExact length with
      | (.ok payload, file) => (.ok (some payload), { channel with file := file })
      | (.error error, file) =>
        -- a frame cut in half is the channel ending too
        (if error.kind = .unexpectedEof then .ok none else .error error,
          { channel with file := file })

/-! ### One frame after another -/

/-- `write_frame`, of one payload after another until one is not written. -/
def Channel.writeFrames (channel : Channel) : List Bytes → Except Stop Unit × Channel
  | [] => (.ok (), channel)
  | payload :: payloads =>
    match channel.writeFrame payload with
    | (.error stop, channel) => (.error stop, channel)
    | (.ok (), channel) => channel.writeFrames payloads

/-- What `read_frame` returns when it is called so many times. -/
def Channel.readFrames (channel : Channel) : ℕ → List (Except Error (Option Bytes))
  | 0 => []
  | n + 1 => channel.readFrame.1 :: channel.readFrame.2.readFrames n

end RemoteWorkspace.Model.PtcChannel
