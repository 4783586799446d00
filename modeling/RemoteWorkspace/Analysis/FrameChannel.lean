import RemoteWorkspace.Model.PtcChannel

/-!
# The two ends of a control channel stay in step

A write puts one frame on the wire, or the beginning of one when the peer stops taking it. A read
takes one frame off it; where the wire ends, within a header or a payload or between frames, the
channel has ended. So whatever was written and wherever that was cut, the other end gets the
payloads whose frames are whole, in whatever pieces they arrive, and then nothing.
-/

set_option autoImplicit false

namespace RemoteWorkspace.Analysis.FrameChannel

open RemoteWorkspace.Computation RemoteWorkspace.Computation.Framing
open RemoteWorkspace.Model.PtcChannel

/-- A payload that the channel takes. -/
def Sendable (maxFrame : ℕ) (payload : Bytes) : Prop :=
  1 ≤ payload.length ∧ payload.length ≤ maxFrame

instance {maxFrame : ℕ} {payload : Bytes} : Decidable (Sendable maxFrame payload) :=
  inferInstanceAs (Decidable (_ ∧ _))

/-- What is left on a wire behind the last whole frame: nothing, or the beginning of one. -/
def Remnant (maxFrame : ℕ) (part : Bytes) : Prop :=
  part = [] ∨ ∃ payload, Sendable maxFrame payload ∧ Begun 4 payload part

/-- A channel to which a stream is still to arrive from a peer that then has closed its end. -/
structure Receives (channel : Channel) (maxFrame : ℕ) (stream : Bytes) : Prop where
  limit : channel.maxFrame = maxFrame
  stream : channel.file.incoming.stream = stream
  closed : channel.file.broken = none

/-! ### The descriptor -/

section Descriptor

variable {n : ℕ}

/-- As many bytes as are there. -/
theorem readExact_of_le (file : File) (h : n ≤ file.incoming.stream.length) :
    ∃ incoming, file.readExact n =
        (.ok (file.incoming.stream.take n), { file with incoming := incoming }) ∧
      incoming.stream = file.incoming.stream.drop n := by
  obtain ⟨incoming, hread, hstream⟩ := PieceReader.readExact_of_le h
  refine ⟨incoming, ?_, hstream⟩
  rw [File.readExact, hread]

/-- More bytes than are there, of a peer that has closed its end. -/
theorem readExact_of_lt (file : File) (hclosed : file.broken = none)
    (h : file.incoming.stream.length < n) :
    ∃ error, file.readExact n = (.error error, { file with incoming := ⟨[], []⟩ }) ∧
      error.kind = .unexpectedEof := by
  refine ⟨⟨.unexpectedEof, "failed to fill whole buffer"⟩, ?_, rfl⟩
  have hnone : file.broken.getD ⟨.unexpectedEof, "failed to fill whole buffer"⟩ =
      ⟨.unexpectedEof, "failed to fill whole buffer"⟩ := by
    rw [hclosed]
    rfl
  rw [File.readExact, PieceReader.readExact_of_lt h, hnone]

/-- A peer that takes everything. -/
theorem writeAll_taken {file : File} (bytes : Bytes) (h : file.refuses = none) :
    ∃ after, file.writeAll bytes = (.ok (), after) ∧ after.refuses = none := by
  rw [File.writeAll, h]
  exact ⟨_, rfl, rfl⟩

/-- What a write leaves behind: all of the bytes, or part of them and an error. -/
theorem writeAll_cases (file : File) (bytes : Bytes) :
    (∃ after, file.writeAll bytes = (.ok (), after) ∧ after.outgoing = file.outgoing ++ bytes) ∨
      ∃ error after room, file.writeAll bytes = (.error error, after) ∧ room < bytes.length ∧
        after.outgoing = file.outgoing ++ bytes.take room := by
  unfold File.writeAll
  cases file.refuses with
  | none => exact .inl ⟨_, rfl, rfl⟩
  | some refusal =>
    obtain ⟨room, error⟩ := refusal
    by_cases hroom : bytes.length ≤ room
    · exact .inl ⟨_, if_pos hroom, rfl⟩
    · exact .inr ⟨error, _, room, if_neg hroom, Nat.lt_of_not_le hroom, rfl⟩

end Descriptor

/-! ### Writing -/

section Writing

variable {channel : Channel} {payload : Bytes} {payloads : List Bytes}

/-- A length within the limit of a channel is a `u32`. -/
theorem Sendable.lt_u32 (h : Sendable channel.maxFrame payload) : payload.length < 1 <<< 32 := by
  have hfits := channel.fits
  have hle := h.2
  have hmax : u32Max + 1 = 1 <<< 32 := rfl
  omega

/-- So the conversion of a length does not fail, and gives its bytes. -/
theorem u32TryFrom_of_sendable (h : Sendable channel.maxFrame payload) :
    ∃ length, u32TryFrom payload.length = some length ∧ length.toNat = payload.length :=
  ⟨_, dif_pos h.lt_u32, UInt32.toNat_ofNatLT⟩

/-- The guard of a write. -/
theorem sendable_iff :
    Sendable channel.maxFrame payload ↔
      ¬ (payload = [] ∨ channel.maxFrame < payload.length) := by
  rw [not_or, Nat.not_lt, ← List.length_eq_zero_iff]
  exact ⟨fun h => ⟨Nat.ne_of_gt h.1, h.2⟩, fun h => ⟨Nat.pos_of_ne_zero h.1, h.2⟩⟩

/-- A write of a payload that the channel does not take writes nothing. -/
theorem writeFrame_refused (h : ¬ Sendable channel.maxFrame payload) :
    ∃ error, channel.writeFrame payload = (.error (.failed error), channel) :=
  ⟨_, if_pos (not_not.mp (mt sendable_iff.mpr h))⟩

/-- A write of one that it takes is that of the length and then that of the payload. -/
theorem writeFrame_taken (hrefuses : channel.file.refuses = none)
    (h : Sendable channel.maxFrame payload) :
    ∃ after : Channel, channel.writeFrame payload = (.ok (), after) ∧
      after.maxFrame = channel.maxFrame ∧ after.file.refuses = none := by
  obtain ⟨length, hlength, -⟩ := u32TryFrom_of_sendable h
  obtain ⟨headed, hheader, hheaded⟩ :=
    writeAll_taken (toBeBytes 4 length.toNat) hrefuses
  obtain ⟨after, hwrite, hafter⟩ := writeAll_taken payload hheaded
  rw [Channel.writeFrame, if_neg (sendable_iff.mp h), hlength]
  dsimp only
  rw [hheader]
  dsimp only
  rw [hwrite]
  exact ⟨_, rfl, rfl, hafter⟩

/-- What a write leaves on the wire: its frame, or an error, and nothing or the beginning of the
frame. It never runs into its `expect`. -/
theorem writeFrame_cases (channel : Channel) (payload : Bytes) :
    (∃ after : Channel, channel.writeFrame payload = (.ok (), after) ∧
      after.maxFrame = channel.maxFrame ∧ Sendable channel.maxFrame payload ∧
      after.file.outgoing = channel.file.outgoing ++ frame 4 payload) ∨
    ∃ (error : Error) (after : Channel) (part : Bytes),
      channel.writeFrame payload = (.error (.failed error), after) ∧
      Remnant channel.maxFrame part ∧
      after.file.outgoing = channel.file.outgoing ++ part := by
  by_cases h : Sendable channel.maxFrame payload
  · obtain ⟨length, hlength, hnat⟩ := u32TryFrom_of_sendable h
    rw [Channel.writeFrame, if_neg (sendable_iff.mp h), hlength]
    dsimp only
    rw [hnat]
    obtain ⟨headed, hheader, hout⟩ | ⟨error, after, room, hheader, hroom, hout⟩ :=
      writeAll_cases channel.file (toBeBytes 4 payload.length)
    · rw [hheader]
      dsimp only
      obtain ⟨after, hwrite, hafter⟩ | ⟨error, after, room, hwrite, hroom, hafter⟩ :=
        writeAll_cases headed payload
      · rw [hwrite]
        refine .inl ⟨_, rfl, rfl, h, ?_⟩
        rw [hafter, hout, List.append_assoc]
        rfl
      · -- the payload stopped on the way
        rw [hwrite]
        refine .inr ⟨error, _, toBeBytes 4 payload.length ++ payload.take room, rfl,
          .inr ⟨payload, h, ?_, ?_⟩, ?_⟩
        · exact (List.prefix_append_right_inj _).mpr (List.take_prefix room payload)
        · rw [List.length_append, length_toBeBytes, List.length_take]
          omega
        · rw [hafter, hout, List.append_assoc]
    · -- the header did
      rw [hheader]
      refine .inr ⟨error, _, (toBeBytes 4 payload.length).take room, rfl,
        .inr ⟨payload, h, ?_, ?_⟩, hout⟩
      · exact (List.take_prefix room _).trans (List.prefix_append _ _)
      · rw [length_toBeBytes] at hroom
        rw [List.length_take, length_toBeBytes]
        omega
  · obtain ⟨error, hwrite⟩ := writeFrame_refused h
    exact .inr ⟨error, _, [], hwrite, .inl rfl, (List.append_nil _).symm⟩

/-- A run of writes leaves the frames of the payloads that were written, and what the last one
left. -/
theorem writeFrames_cases (channel : Channel) (payloads : List Bytes) :
    ∃ n part, n ≤ payloads.length ∧
      (∀ payload ∈ payloads.take n, Sendable channel.maxFrame payload) ∧
      Remnant channel.maxFrame part ∧
      ((channel.writeFrames payloads).1 = .ok () → n = payloads.length ∧ part = []) ∧
      (channel.writeFrames payloads).2.file.outgoing =
        channel.file.outgoing ++ (frames 4 (payloads.take n) ++ part) := by
  induction payloads generalizing channel with
  | nil =>
    refine ⟨0, [], Nat.le_refl 0, fun payload h => ?_, .inl rfl, fun _ => ⟨rfl, rfl⟩, ?_⟩
    · cases h
    · exact (List.append_nil _).symm
  | cons payload payloads ih =>
    rw [Channel.writeFrames]
    obtain ⟨after, hwrite, hlimit, hsend, hout⟩ | ⟨error, after, part, hwrite, hpart, hout⟩ :=
      writeFrame_cases channel payload
    · obtain ⟨n, part, hn, hsendable, hpart, hok, hrest⟩ := ih after
      rw [hlimit] at hsendable hpart
      rw [hwrite]
      refine ⟨n + 1, part, Nat.succ_le_succ hn, ?_, hpart, fun h => ?_, ?_⟩
      · intro other hother
        rw [List.take_succ_cons, List.mem_cons] at hother
        rcases hother with rfl | hother
        · exact hsend
        · exact hsendable other hother
      · exact ⟨congrArg (· + 1) (hok h).1, (hok h).2⟩
      · dsimp only
        rw [hrest, hout, List.take_succ_cons, frames_cons, List.append_assoc, List.append_assoc]
    · rw [hwrite]
      refine ⟨0, part, Nat.zero_le _, fun payload h => ?_, hpart, fun h => ?_, ?_⟩
      · cases h
      · cases h
      · exact hout

/-- Where the peer takes everything, payloads that the channel takes are written. -/
theorem writeFrames_taken (h : channel.file.refuses = none)
    (hsendable : ∀ payload ∈ payloads, Sendable channel.maxFrame payload) :
    (channel.writeFrames payloads).1 = .ok () := by
  induction payloads generalizing channel with
  | nil => rfl
  | cons payload payloads ih =>
    have hothers : ∀ other ∈ payloads, Sendable channel.maxFrame other :=
      fun other hother => hsendable other (List.mem_cons_of_mem _ hother)
    obtain ⟨after, hwrite, hlimit, hrefuses⟩ :=
      writeFrame_taken h (hsendable payload List.mem_cons_self)
    rw [Channel.writeFrames, hwrite]
    exact ih hrefuses (hlimit ▸ hothers)

end Writing

/-! ### Reading -/

section Reading

variable {channel : Channel} {maxFrame : ℕ} {payload part rest : Bytes} {payloads : List Bytes}

/-- A stream that ends within a header is the end of the channel. -/
theorem readFrame_short (h : Receives channel maxFrame part) (hshort : part.length < 4) :
    channel.readFrame.1 = .ok none ∧ Receives channel.readFrame.2 maxFrame [] := by
  obtain ⟨error, hread, hkind⟩ := readExact_of_lt channel.file h.closed (h.stream.symm ▸ hshort)
  rw [Channel.readFrame, hread]
  exact ⟨if_pos hkind, h.limit, rfl, h.closed⟩

/-- Behind a whole header the rest of a frame is read. -/
theorem readFrame_header {stream : Bytes} (h : Receives channel maxFrame stream)
    (hheader : 4 ≤ stream.length) (hlength : fromBeBytes (stream.take 4) ≠ 0)
    (hlimit : fromBeBytes (stream.take 4) ≤ maxFrame) :
    (∃ after, Receives after maxFrame (stream.drop (4 + fromBeBytes (stream.take 4))) ∧
      4 + fromBeBytes (stream.take 4) ≤ stream.length ∧ channel.readFrame =
        (.ok (some ((stream.drop 4).take (fromBeBytes (stream.take 4)))), after)) ∨
    stream.length < 4 + fromBeBytes (stream.take 4) ∧
      ∃ after, Receives after maxFrame [] ∧ channel.readFrame = (.ok none, after) := by
  obtain ⟨incoming, hread, hrest⟩ := readExact_of_le channel.file (h.stream.symm ▸ hheader)
  rw [h.stream] at hread hrest
  have hguard : ¬ (fromBeBytes (stream.take 4) = 0 ∨
      channel.maxFrame < fromBeBytes (stream.take 4)) := by
    rw [h.limit]
    exact not_or.mpr ⟨hlength, Nat.not_lt.mpr hlimit⟩
  rw [Channel.readFrame, hread]
  dsimp only
  rw [if_neg hguard]
  rcases Nat.lt_or_ge incoming.stream.length (fromBeBytes (stream.take 4)) with hlt | hle
  · obtain ⟨error, hhalf, hkind⟩ :=
      readExact_of_lt { channel.file with incoming := incoming } h.closed hlt
    rw [hrest, List.length_drop] at hlt
    rw [hhalf]
    refine .inr ⟨by omega, { channel with file := { channel.file with incoming := ⟨[], []⟩ } },
      ⟨h.limit, rfl, h.closed⟩, ?_⟩
    exact Prod.ext (if_pos hkind) rfl
  · obtain ⟨after, hwhole, hafter⟩ :=
      readExact_of_le { channel.file with incoming := incoming } hle
    dsimp only at hwhole
    rw [hrest] at hwhole hafter
    rw [List.drop_drop] at hafter
    rw [hrest, List.length_drop] at hle
    rw [hwhole]
    exact .inl ⟨{ channel with file := { channel.file with incoming := after } },
      ⟨h.limit, hafter, h.closed⟩, by omega, rfl⟩

/-- A frame is read whole, and what is behind it is left. -/
theorem readFrame_frame (hsend : Sendable channel.maxFrame payload)
    (h : Receives channel maxFrame (frame 4 payload ++ rest)) :
    ∃ after, Receives after maxFrame rest ∧ channel.readFrame = (.ok (some payload), after) := by
  have hheader : (frame 4 payload ++ rest).take 4 = toBeBytes 4 payload.length := by
    rw [frame, List.append_assoc]
    exact List.take_left' (length_toBeBytes 4 _)
  have hvalue : fromBeBytes ((frame 4 payload ++ rest).take 4) = payload.length := by
    rw [hheader]
    exact fromBeBytes_toBeBytes_of_lt hsend.lt_u32
  have hlength : (frame 4 payload ++ rest).length = 4 + payload.length + rest.length := by
    rw [List.length_append, length_frame]
  obtain ⟨after, hafter, -, hread⟩ | ⟨hlt, -⟩ := readFrame_header h (by omega)
    (by rw [hvalue]; exact Nat.ne_of_gt hsend.1) (by rw [hvalue, ← h.limit]; exact hsend.2)
  · have hbehind : (frame 4 payload ++ rest).drop (4 + payload.length) = rest :=
      List.drop_left' length_frame
    have hbody : ((frame 4 payload ++ rest).drop 4).take payload.length = payload := by
      rw [frame, List.append_assoc, List.drop_left' (length_toBeBytes 4 _)]
      exact List.take_left
    rw [hvalue] at hafter hread
    rw [hbehind] at hafter
    rw [hbody] at hread
    exact ⟨after, hafter, hread⟩
  · rw [hvalue, hlength] at hlt
    omega

/-- What is behind the last whole frame is the end of the channel. -/
theorem readFrame_remnant (hpart : Remnant channel.maxFrame part)
    (h : Receives channel maxFrame part) :
    channel.readFrame.1 = .ok none ∧ Receives channel.readFrame.2 maxFrame [] := by
  rcases Nat.lt_or_ge part.length 4 with hshort | hheader
  · exact readFrame_short h hshort
  · obtain rfl | ⟨payload, hsend, hprefix, hlt⟩ := hpart
    · exact absurd hheader (by decide)
    · -- the header is whole, and says more than there is behind it
      have hvalue : fromBeBytes (part.take 4) = payload.length := by
        have htake : part.take 4 = toBeBytes 4 payload.length := by
          rw [← take_frame, List.prefix_iff_eq_take.mp hprefix, List.take_take,
            Nat.min_eq_left hheader]
        rw [htake]
        exact fromBeBytes_toBeBytes_of_lt hsend.lt_u32
      obtain ⟨_, -, hle, -⟩ | ⟨-, after, hafter, hread⟩ := readFrame_header h hheader
        (by rw [hvalue]; exact Nat.ne_of_gt hsend.1) (by rw [hvalue, ← h.limit]; exact hsend.2)
      · rw [hvalue] at hle
        omega
      · rw [hread]
        exact ⟨rfl, hafter⟩

/-- After the end there is nothing. -/
theorem readFrames_ended (h : Receives channel maxFrame []) (m : ℕ) :
    channel.readFrames m = List.replicate m (.ok none) := by
  induction m generalizing channel with
  | zero => rfl
  | succ m ih =>
    obtain ⟨hread, hafter⟩ := readFrame_short h (by decide)
    rw [Channel.readFrames, hread, ih hafter, List.replicate_succ]

/-- Whole frames, and what may be left behind them: the payloads are read, and then nothing. -/
theorem readFrames_frames (hsendable : ∀ payload ∈ payloads, Sendable maxFrame payload)
    (hpart : Remnant maxFrame part) (h : Receives channel maxFrame (frames 4 payloads ++ part))
    (m : ℕ) :
    channel.readFrames (payloads.length + m) =
      (payloads.map fun payload => .ok (some payload)) ++ List.replicate m (.ok none) := by
  induction payloads generalizing channel with
  | nil =>
    cases m with
    | zero => rfl
    | succ m =>
      obtain ⟨hread, hafter⟩ := readFrame_remnant (h.limit.symm ▸ hpart) h
      rw [List.length_nil, Nat.zero_add, Channel.readFrames, hread, readFrames_ended hafter]
      rfl
  | cons payload payloads ih =>
    rw [frames_cons, List.append_assoc] at h
    have hsend := hsendable payload List.mem_cons_self
    obtain ⟨after, hafter, hread⟩ := readFrame_frame (h.limit.symm ▸ hsend) h
    have hothers : ∀ other ∈ payloads, Sendable maxFrame other :=
      fun other hother => hsendable other (List.mem_cons_of_mem _ hother)
    rw [List.length_cons, Nat.add_right_comm, Channel.readFrames, hread, ih hothers hafter]
    rfl

/-- A header that announces nothing or too much is an error. -/
theorem readFrame_bad {header : Bytes} (hstream : channel.file.incoming.stream = header ++ rest)
    (hheader : header.length = 4)
    (hbad : fromBeBytes header = 0 ∨ channel.maxFrame < fromBeBytes header) :
    ∃ error after, channel.readFrame = (.error error, after) ∧ error.kind = .invalidData := by
  have hle : 4 ≤ channel.file.incoming.stream.length := by
    rw [hstream, List.length_append]
    omega
  obtain ⟨incoming, hread, -⟩ := readExact_of_le channel.file hle
  rw [hstream, List.take_left' hheader] at hread
  rw [Channel.readFrame, hread]
  dsimp only
  rw [if_pos hbad]
  exact ⟨_, _, rfl, rfl⟩

end Reading

/-! ### Both ends -/

/-- A limit that fits is taken. -/
theorem inherit_ok {maxFrame : ℕ} (h : maxFrame ≤ u32Max) (file : File) :
    inherit maxFrame file = .ok ⟨file, maxFrame, h⟩ :=
  dif_pos h

/-- Whatever a writer could write of what it was given, the other end gets the payloads whose
frames are whole and then nothing. -/
theorem session_in_step (writer : Channel) (payloads : List Bytes) :
    ∃ wire n, n ≤ payloads.length ∧
      ((writer.writeFrames payloads).1 = .ok () → n = payloads.length) ∧
      (writer.writeFrames payloads).2.file.outgoing = writer.file.outgoing ++ wire ∧
      ∀ reader, Receives reader writer.maxFrame wire → ∀ m, reader.readFrames (n + m) =
        ((payloads.take n).map fun payload => .ok (some payload)) ++
          List.replicate m (.ok none) := by
  obtain ⟨n, part, hn, hsendable, hpart, hok, hout⟩ := writeFrames_cases writer payloads
  refine ⟨_, n, hn, fun h => (hok h).1, hout, fun reader hreader m => ?_⟩
  have hread := readFrames_frames hsendable hpart hreader m
  rwa [List.length_take, Nat.min_eq_left hn] at hread

/-- The frames of any payloads that the channel takes are written, and read back exactly, and then
the channel has ended; a cut anywhere leaves the frames that end before it; and a header that
announces nothing or more than the limit is an error, whatever was read before it and whatever is
behind it. -/
theorem frames_in_step (maxFrame : ℕ) (hmax : maxFrame ≤ u32Max) :
    (∀ payloads : List Bytes, (∀ payload ∈ payloads, Sendable maxFrame payload) →
      (∀ file, file.refuses = none → ∃ writer, inherit maxFrame file = .ok writer ∧
        (writer.writeFrames payloads).1 = .ok () ∧
        (writer.writeFrames payloads).2.file.outgoing = file.outgoing ++ frames 4 payloads) ∧
      ∀ file, file.broken = none → ∃ reader, inherit maxFrame file = .ok reader ∧
        (file.incoming.stream = frames 4 payloads → ∀ m, reader.readFrames (payloads.length + m) =
          (payloads.map fun payload => .ok (some payload)) ++ List.replicate m (.ok none)) ∧
        ∀ cut, file.incoming.stream = (frames 4 payloads).take cut →
          ∃ n, Ends 4 cut payloads n ∧ ∀ m, reader.readFrames (n + m) =
            ((payloads.take n).map fun payload => .ok (some payload)) ++
              List.replicate m (.ok none)) ∧
    ∀ (channel : Channel) (header rest : Bytes), channel.maxFrame = maxFrame →
      channel.file.incoming.stream = header ++ rest → header.length = 4 →
      (fromBeBytes header = 0 ∨ maxFrame < fromBeBytes header) →
      ∃ error, channel.readFrame.1 = .error error := by
  refine ⟨fun payloads hsendable => ⟨fun file hrefuses => ?_, fun file hclosed => ?_⟩, ?_⟩
  · refine ⟨_, inherit_ok hmax file, writeFrames_taken hrefuses hsendable, ?_⟩
    obtain ⟨n, part, -, -, -, hok, hout⟩ := writeFrames_cases ⟨file, maxFrame, hmax⟩ payloads
    obtain ⟨rfl, rfl⟩ := hok (writeFrames_taken hrefuses hsendable)
    rwa [List.take_length, List.append_nil] at hout
  · refine ⟨_, inherit_ok hmax file, fun hstream m => ?_, fun cut hstream => ?_⟩
    · have hreader : Receives ⟨file, maxFrame, hmax⟩ maxFrame (frames 4 payloads ++ []) :=
        ⟨rfl, hstream.trans (List.append_nil _).symm, hclosed⟩
      exact readFrames_frames hsendable (.inl rfl) hreader m
    · obtain ⟨n, part, hends, htake, hpart⟩ := take_frames 4 cut payloads
      have hreader :
          Receives ⟨file, maxFrame, hmax⟩ maxFrame (frames 4 (payloads.take n) ++ part) :=
        ⟨rfl, hstream.trans htake, hclosed⟩
      have hremnant : Remnant maxFrame part := by
        refine hpart.imp_right ?_
        rintro ⟨payload, hmem, hbegun⟩
        exact ⟨payload, hsendable payload hmem, hbegun⟩
      refine ⟨n, hends, fun m => ?_⟩
      have hread := readFrames_frames
        (fun payload hmem => hsendable payload (List.mem_of_mem_take hmem)) hremnant hreader m
      rwa [List.length_take, Nat.min_eq_left hends.1.1] at hread
  · intro channel header rest hlimit hstream hheader hbad
    obtain ⟨error, after, hread, -⟩ := readFrame_bad hstream hheader (hlimit ▸ hbad)
    exact ⟨error, congrArg Prod.fst hread⟩

/-- Two frames that arrive in pieces that are cut elsewhere, from a peer that then closes. -/
def twoFrames : File where
  incoming := ⟨[0, 0],
    [⟨[0, 2, 10], List.cons_ne_nil _ _⟩, ⟨[20, 0, 0, 0, 1, 30], List.cons_ne_nil _ _⟩]⟩
  broken := none
  outgoing := []
  refuses := none

/-- Both payloads are read, and then nothing. -/
theorem frames_in_step_two : ∃ reader, inherit 2 twoFrames = .ok reader ∧
    ∀ m, reader.readFrames (2 + m) =
      [.ok (some [10, 20]), .ok (some [30])] ++ List.replicate m (.ok none) := by
  obtain ⟨reader, hinherit, hread, -⟩ := ((frames_in_step 2 (by decide)).1 [[10, 20], [30]]
    (by decide)).2 twoFrames rfl
  exact ⟨reader, hinherit, hread (by decide)⟩

end RemoteWorkspace.Analysis.FrameChannel
