import RemoteWorkspace.Computation.Fallible
import RemoteWorkspace.Model.FsText

/-!
# A remote text is read whole

The daemon cuts a window back by the fragment it ends in. In a window that starts between
two characters of a text this is exactly what the window has of its last, unfinished
character (`trailingFragmentLength_encode`), so every window of a text is decoded and the
next one starts between two characters again (`textWindow_of_text`). In any file a window
that is decoded is text and moves the reader on (`textWindow_reads`).

The pull loop therefore ends, and what it read is the file: its decoding when the file is
text, and a refusal when it is not.
-/

set_option autoImplicit false

namespace RemoteWorkspace.Analysis.FsText

open RemoteWorkspace.Computation
open RemoteWorkspace.Model.FsText

/-! ### The scan for a trailing fragment -/

/-- The mask of a following byte. -/
theorem and_mask_following (byte : UInt8) : byte &&& 0xc0 = 0x80 ↔ Utf8.Following byte := by
  have hall : ∀ n < 256, n &&& 0xc0 = 0x80 ↔ 0x80 ≤ n ∧ n < 0xC0 := by decide +kernel
  rw [← UInt8.toNat_inj, UInt8.toNat_and]
  exact hall byte.toNat byte.toNat_lt

/-- The mask of a byte that is a character. -/
theorem and_mask_single (byte : UInt8) : byte &&& 0x80 = 0x00 ↔ byte.toNat < 0x80 := by
  have hall : ∀ n < 256, n &&& 0x80 = 0x00 ↔ n < 0x80 := by decide +kernel
  rw [← UInt8.toNat_inj, UInt8.toNat_and]
  exact hall byte.toNat byte.toNat_lt

/-- The scan passes over following bytes. -/
theorem scanFragment_following {following : Bytes} (h : ∀ b ∈ following, Utf8.Following b)
    (back : ℕ) (rest : Bytes) :
    scanFragment back (following ++ rest) = scanFragment (back + following.length) rest := by
  induction following generalizing back with
  | nil => simp
  | cons b following ih =>
    have hb := (and_mask_following b).mpr (h b List.mem_cons_self)
    rw [List.cons_append, scanFragment, if_pos hb,
      ih (fun b hb => h b (List.mem_cons_of_mem _ hb)), List.length_cons]
    congr 1
    omega

/-- The scan ends at the first byte of a character: what was passed over and that byte are
a fragment when they are less than the character. -/
theorem scanFragment_lead {lead : UInt8} (h : ¬ Utf8.Following lead) {back : ℕ}
    (hback : back ≤ Utf8.width lead) (hpos : 0 < back) (rest : Bytes) :
    scanFragment back (lead :: rest) = if back < Utf8.width lead then back else 0 := by
  have hmask := mt (and_mask_following lead).mp h
  have h224 : (0xe0 ≤ lead) ↔ 0xE0 ≤ lead.toNat := UInt8.le_iff_toNat_le
  have h240 : (0xf0 ≤ lead) ↔ 0xF0 ≤ lead.toNat := UInt8.le_iff_toNat_le
  rw [scanFragment, if_neg hmask]
  simp only [and_mask_single, h224, h240]
  unfold Utf8.width at hback ⊢
  split_ifs at hback ⊢ <;> omega

/-- The trailing fragment of bytes that end in a character or in a part of one: nothing for a
whole character, and all of the part otherwise. -/
theorem trailingFragmentLength_lead {lead : UInt8} {following : Bytes} (before : Bytes)
    (hlead : ¬ Utf8.Following lead) (h : ∀ b ∈ following, Utf8.Following b)
    (hlen : following.length < Utf8.width lead) :
    trailingFragmentLength (before ++ lead :: following) =
      if following.length + 1 < Utf8.width lead then following.length + 1 else 0 := by
  have hwidth := Utf8.width_le lead
  have hrev : ∀ b ∈ following.reverse, Utf8.Following b := fun b hb => h b (List.mem_reverse.mp hb)
  have hreverse : (before ++ lead :: following).reverse =
      following.reverse ++ lead :: before.reverse := by simp
  rw [trailingFragmentLength, hreverse, List.take_append]
  by_cases hshort : following.length < 3
  · -- the first byte of the character is among the three that are looked at
    obtain ⟨n, hn⟩ : ∃ n, 3 - following.reverse.length = n + 1 :=
      ⟨2 - following.length, by rw [List.length_reverse]; omega⟩
    rw [List.take_of_length_le (by rw [List.length_reverse]; omega), hn, List.take_succ_cons,
      scanFragment_following hrev, List.length_reverse,
      scanFragment_lead hlead (by omega) (by omega), Nat.add_comm 1]
  · -- three following bytes are looked at: the character has no more than these
    have hnone : 3 - following.reverse.length = 0 := by rw [List.length_reverse]; omega
    rw [List.take_of_length_le (by rw [List.length_reverse]; omega), hnone, List.take_zero,
      scanFragment_following hrev, if_neg (by omega)]
    rfl

/-- The trailing fragment of a window that starts between two characters of a text is what
the window has of its last character, when that is not all of it. -/
theorem trailingFragmentLength_encode {part : Bytes} (whole : Text) (hpart : Utf8.Fragment part) :
    trailingFragmentLength (Utf8.encode whole ++ part) = part.length := by
  obtain ⟨c, hstart, hlt⟩ := hpart
  obtain ⟨lead, rest, hshape, hlead, hrest, hwidth⟩ := Utf8.encodeChar_shape c
  rw [hshape] at hstart hlt
  rcases part with _ | ⟨byte, following⟩
  · -- the window ends with a whole character, or it is empty
    rw [List.append_nil]
    rcases List.eq_nil_or_concat whole with rfl | ⟨whole, c', rfl⟩
    · rfl
    · obtain ⟨lead', rest', hshape', hlead', hrest', hwidth'⟩ := Utf8.encodeChar_shape c'
      have hencode : Utf8.encode (whole.concat c') = Utf8.encode whole ++ lead' :: rest' := by
        rw [List.concat_eq_append, Utf8.encode_append, Utf8.encode_cons, hshape',
          Utf8.encode_nil, List.append_nil]
      rw [hencode, trailingFragmentLength_lead _ hlead' hrest' (by omega), if_neg (by omega)]
      rfl
  · obtain ⟨rfl, hfollowing⟩ := List.cons_prefix_cons.mp hstart
    have hlen : following.length < rest.length := by simpa using hlt
    rw [trailingFragmentLength_lead _ hlead (fun b hb => hrest b (hfollowing.subset hb))
      (by omega), if_pos (by omega), List.length_cons]

/-! ### One window -/

/-- A window that is decoded is text without a NUL, and its decoding. -/
theorem decodeText_ok {verb path : String} {bytes : Bytes} {text : Text}
    (h : decodeText verb path bytes = .ok text) : Utf8.encode text = bytes ∧ 0 ∉ bytes := by
  obtain ⟨hnul, h⟩ := check_eq_ok_iff.mp h
  split at h
  · rename_i hwf
    obtain ⟨text', rfl⟩ := hwf
    obtain rfl := Except.ok.inj h
    exact ⟨by rw [Utf8.decode_encode], hnul⟩
  · cases h

/-- A text without a NUL is decoded. -/
theorem decodeText_encode {verb path : String} {text : Text} (h : 0 ∉ Utf8.encode text) :
    decodeText verb path (Utf8.encode text) = .ok text := by
  rw [decodeText, if_neg h, if_pos ⟨text, rfl⟩, Utf8.decode_encode]

/-- A window that is not decoded is no text. -/
theorem decodeText_error {verb path : String} {bytes : Bytes} {failure : Failure}
    (h : decodeText verb path bytes = .error failure) : failure.code = "FS_NOT_TEXT" := by
  unfold decodeText at h
  split_ifs at h
  · exact Except.error.inj h ▸ rfl
  · exact Except.error.inj h ▸ rfl

/-- A readable file is read up to the ceiling. -/
theorem readWindow_readable {length : ℕ} (hmax : length ≤ maxReadBytes) (content : Bytes)
    (verb path : String) (offset : ℕ) :
    readWindow content none verb path offset length = .ok ((content.drop offset).take length) := by
  rw [readWindow, if_neg (by omega)]
  split_ifs with hzero
  · rw [hzero, List.take_zero]
  · rfl

variable {content : Bytes} {target : String} {offset length : ℕ}

/-- What a window of a readable file comes to, from the bytes it has. -/
theorem textWindow_eq (hmax : length ≤ maxReadBytes) {window : Bytes}
    (hwindow : (content.drop offset).take (min (max length 4) (content.length - offset)) =
      window) :
    textWindow content none "read" target offset length =
      if 0 < trailingFragmentLength window ∧ content.length ≤ offset + window.length then
        .error (.about "FS_NOT_TEXT" "read" target "invalid UTF-8 text")
      else (decodeText "read" target (usable window)).map fun text =>
        ⟨text, offset + (usable window).length,
          decide (content.length ≤ offset + (usable window).length)⟩ := by
  have hceiling : (4 : ℕ) ≤ maxReadBytes := by decide
  simp only [textWindow]
  rw [readWindow_readable (by omega), hwindow]
  rfl

/-- What is left of a window is its beginning, and something when the window is. -/
theorem usable_prefix {window : Bytes} (hne : window ≠ []) :
    usable window <+: window ∧ 0 < (usable window).length := by
  have hpos := List.length_pos_iff.mpr hne
  simp only [usable]
  split_ifs with hfragment
  · refine ⟨List.take_prefix _ _, ?_⟩
    rw [List.length_take]
    omega
  · exact ⟨List.prefix_rfl, hpos⟩

/-- A decoded window of any file is text without a NUL and moves the reader on; any other
window is refused as no text. -/
theorem textWindow_reads (target : String) (hoffset : offset < content.length) (hmax : length ≤ maxReadBytes) :
    (∃ failure, textWindow content none "read" target offset length = .error failure ∧
      failure.code = "FS_NOT_TEXT") ∨
    ∃ chunk, textWindow content none "read" target offset length = .ok chunk ∧
      offset < chunk.nextOffset ∧ chunk.eof = decide (content.length ≤ chunk.nextOffset) ∧
      content.drop offset = Utf8.encode chunk.text ++ content.drop chunk.nextOffset ∧
      0 ∉ Utf8.encode chunk.text := by
  obtain ⟨window, hwindow⟩ : ∃ window, (content.drop offset).take
      (min (max length 4) (content.length - offset)) = window := ⟨_, rfl⟩
  have hne : window ≠ [] := by
    rw [← List.length_pos_iff, ← hwindow, List.length_take, List.length_drop]
    omega
  obtain ⟨hstart, hpos⟩ := usable_prefix hne
  rw [textWindow_eq hmax hwindow]
  split_ifs
  · exact .inl ⟨_, rfl, rfl⟩
  · cases hdecode : decodeText "read" target (usable window) with
    | error failure => exact .inl ⟨failure, rfl, decodeText_error hdecode⟩
    | ok text =>
      obtain ⟨hencode, hnul⟩ := decodeText_ok hdecode
      refine .inr ⟨_, rfl, Nat.lt_add_of_pos_right hpos, rfl, ?_, hencode ▸ hnul⟩
      -- what was decoded stands at the beginning of what is left of the file
      obtain ⟨rest, hrest⟩ := hstart.trans (hwindow ▸ List.take_prefix _ _)
      rw [hencode, ← List.drop_drop, ← hrest, List.drop_left]

/-- A window that starts between two characters of a text is cut back to its whole
characters. -/
theorem usable_encode {whole : Text} {part : Bytes} (hpart : Utf8.Fragment part)
    (hlen : part = [] ∨ 4 ≤ (Utf8.encode whole ++ part).length) :
    usable (Utf8.encode whole ++ part) = Utf8.encode whole := by
  have hlt := hpart.length_lt
  simp only [usable]
  rw [trailingFragmentLength_encode whole hpart]
  rcases hlen with rfl | hlen
  · rw [if_neg (by simp), List.append_nil]
  · split_ifs with hfragment
    · rw [List.length_append, Nat.add_sub_cancel, List.take_left]
    · have hnil : part = [] := List.length_eq_zero_iff.mp (by omega)
      rw [hnil, List.append_nil]

/-- A window of a text that starts between two characters is decoded, and the next one
starts between two characters again. -/
theorem textWindow_of_text (target : String) {rest : Text} (hoffset : offset < content.length)
    (hmax : length ≤ maxReadBytes) (hrest : content.drop offset = Utf8.encode rest)
    (hnul : 0 ∉ Utf8.encode rest) :
    ∃ chunk, textWindow content none "read" target offset length = .ok chunk ∧
      ∃ rest', content.drop chunk.nextOffset = Utf8.encode rest' ∧ 0 ∉ Utf8.encode rest' := by
  obtain ⟨whole, rest', part, rfl, htake, hpart⟩ :=
    Utf8.take_encode rest (min (max length 4) (content.length - offset))
  have hscan := trailingFragmentLength_encode whole hpart
  have hlength : (Utf8.encode whole ++ part).length =
      min (max length 4) (content.length - offset) := by
    rw [← htake, List.length_take, ← hrest, List.length_drop]
    omega
  -- a window that reaches the end of the file has only whole characters
  have hend : content.length ≤ offset + (Utf8.encode whole ++ part).length → part = [] := by
    intro hend
    have hall : Utf8.encode (whole ++ rest') = Utf8.encode whole ++ part := by
      rw [← htake, ← hrest, List.take_of_length_le]
      rw [List.length_drop]
      omega
    have hnone := trailingFragmentLength_encode (whole ++ rest') Utf8.fragment_nil
    rw [List.append_nil, hall, hscan] at hnone
    exact List.length_eq_zero_iff.mp hnone
  have husable : usable (Utf8.encode whole ++ part) = Utf8.encode whole := by
    refine usable_encode hpart ?_
    by_cases hlast : content.length ≤ offset + (Utf8.encode whole ++ part).length
    · exact .inl (hend hlast)
    · exact .inr (by omega)
  rw [Utf8.encode_append, List.mem_append, not_or] at hnul
  rw [Utf8.encode_append] at hrest
  rw [textWindow_eq hmax ((congrArg _ hrest).trans ((Utf8.encode_append _ _) ▸ htake)), husable,
    decodeText_encode hnul.1, if_neg ?_]
  · refine ⟨_, rfl, rest', ?_, hnul.2⟩
    rw [← List.drop_drop, hrest, List.drop_left]
  · rintro ⟨hpos, hlast⟩
    rw [hscan, hend hlast] at hpos
    exact absurd hpos (Nat.lt_irrefl 0)

/-! ### The pull loop -/

section Pulls

variable {files : Files} {root : Option String} {path : String}

/-- A request inside a readable regular file is answered with a window of it. -/
theorem serveTextChunk_inside (hpath : absolutePath "read" path root = .ok target)
    (hfile : files target = .ok (.file content none)) (hpos : 1 ≤ length)
    (hoffset : offset < content.length) :
    serveTextChunk files root path offset length =
      textWindow content none "read" target offset length := by
  have hprobe : probe files "read" target = .ok (some (.file content none)) := by
    rw [probe, hfile]
  rw [serveTextChunk, if_neg (by omega), readTextChunk, hpath, except_ok_bind, hprobe,
    except_ok_bind]
  exact if_neg (by omega)

/-- A request at or past the end of a regular file is answered with nothing, as the last. -/
theorem serveTextChunk_past (hpath : absolutePath "read" path root = .ok target)
    (hfile : files target = .ok (.file content none)) (hpos : 1 ≤ length)
    (hoffset : content.length ≤ offset) :
    serveTextChunk files root path offset length = .ok ⟨[], offset, true⟩ := by
  have hprobe : probe files "read" target = .ok (some (.file content none)) := by
    rw [probe, hfile]
  rw [serveTextChunk, if_neg (by omega), readTextChunk, hpath, except_ok_bind, hprobe,
    except_ok_bind]
  exact if_pos hoffset

/-- The seam's own error for a window that is no text. -/
theorem toFsError_notText {failure : Failure} (h : failure.code = "FS_NOT_TEXT") :
    toFsError failure = .fs failure.message "FS_NOT_TEXT" := by
  rw [toFsError, h, if_pos (by decide)]

/-- The pulls of a readable regular file end when there are as many as it has bytes left, and
one more: they are refused because the file is no text, or what they yielded is what was
left of the file, and text without a NUL. -/
theorem remoteTextStream_ends (hpath : absolutePath "read" path root = .ok target)
    (hfile : files target = .ok (.file content none)) (hpos : 1 ≤ length)
    (hmax : length ≤ maxReadBytes) {fuel offset : ℕ} (round : ℕ)
    (hfuel : content.length - offset < fuel) :
    ∃ pulled, remoteTextStream (fun offset => serveTextChunk files root path offset length)
        (fun _ => false) fuel round offset = some pulled ∧
      ((∃ message, pulled.failure = some (.fs message "FS_NOT_TEXT")) ∨
        pulled.failure = none ∧ content.drop offset = Utf8.encode pulled.chunks.flatten ∧
          0 ∉ content.drop offset) := by
  induction fuel generalizing round offset with
  | zero => omega
  | succ fuel ih =>
    rw [remoteTextStream, if_neg (by decide)]
    by_cases hoffset : offset < content.length
    · rw [serveTextChunk_inside hpath hfile hpos hoffset]
      rcases textWindow_reads target hoffset hmax with
        ⟨failure, herror, hcode⟩ | ⟨chunk, hchunk, hnext, heof, hread, hnul⟩
      · rw [herror]
        exact ⟨_, rfl, .inl ⟨failure.message, congrArg some (toFsError_notText hcode)⟩⟩
      · rw [hchunk]
        have hyield : (if 0 < chunk.text.length then [chunk.text] else []).flatten =
            chunk.text := by
          split_ifs with htext
          · simp
          · exact (List.length_eq_zero_iff.mp (by omega)).symm
        simp only
        generalize (if 0 < chunk.text.length then [chunk.text] else []) = yielded at hyield
        split_ifs with hlast
        · -- the last window: nothing is left of the file after it
          rw [heof, decide_eq_true_eq] at hlast
          rw [List.drop_of_length_le hlast, List.append_nil] at hread
          refine ⟨_, rfl, .inr ⟨rfl, ?_, ?_⟩⟩
          · rw [hyield, hread]
          · rw [hread]
            exact hnul
        · obtain ⟨rest, hrest, hends⟩ := ih (round + 1)
            (show content.length - chunk.nextOffset < fuel by omega)
          rw [hrest]
          refine ⟨_, rfl, ?_⟩
          rcases hends with hfail | ⟨hnone, htext, hfree⟩
          · exact .inl hfail
          · refine .inr ⟨hnone, ?_, ?_⟩
            · rw [List.flatten_append, hyield, Utf8.encode_append, ← htext, hread]
            · rw [hread, List.mem_append, not_or]
              exact ⟨hnul, hfree⟩
    · rw [serveTextChunk_past hpath hfile hpos (by omega)]
      refine ⟨_, rfl, .inr ⟨rfl, ?_, ?_⟩⟩
      · rw [List.drop_of_length_le (by omega)]
        rfl
      · rw [List.drop_of_length_le (by omega)]
        exact List.not_mem_nil

/-- The pulls of a text, from between two characters on, are never refused. -/
theorem remoteTextStream_of_text (hpath : absolutePath "read" path root = .ok target)
    (hfile : files target = .ok (.file content none)) (hpos : 1 ≤ length)
    (hmax : length ≤ maxReadBytes) {fuel round offset : ℕ} {rest : Text} {pulled : Pulled}
    (hrest : content.drop offset = Utf8.encode rest) (hnul : 0 ∉ Utf8.encode rest)
    (hpulled : remoteTextStream (fun offset => serveTextChunk files root path offset length)
      (fun _ => false) fuel round offset = some pulled) : pulled.failure = none := by
  induction fuel generalizing round offset rest pulled with
  | zero => cases hpulled
  | succ fuel ih =>
    rw [remoteTextStream, if_neg (by decide)] at hpulled
    by_cases hoffset : offset < content.length
    · obtain ⟨chunk, hchunk, rest', hrest', hnul'⟩ :=
        textWindow_of_text target hoffset hmax hrest hnul
      rw [serveTextChunk_inside hpath hfile hpos hoffset, hchunk] at hpulled
      simp only at hpulled
      generalize (if 0 < chunk.text.length then [chunk.text] else []) = yielded at hpulled
      split_ifs at hpulled
      · exact Option.some.inj hpulled ▸ rfl
      · obtain ⟨later, hlater, rfl⟩ := Option.map_eq_some_iff.mp hpulled
        have hnone : later.failure = none := ih hrest' hnul' hlater
        exact hnone
    · rw [serveTextChunk_past hpath hfile hpos (by omega)] at hpulled
      exact Option.some.inj hpulled ▸ rfl

/-- A remote text is read whole, in windows of any length up to the daemon's ceiling: every
window that is not the last moves the reader on by a byte or more, and the pulls end with
the text the file is the encoding of, when it has no NUL, and with `FS_NOT_TEXT` for any
other file. -/
theorem remote_text_whole (hpath : absolutePath "read" path root = .ok target)
    (hfile : files target = .ok (.file content none)) (hpos : 1 ≤ length)
    (hmax : length ≤ maxReadBytes) :
    (∀ offset chunk, serveTextChunk files root path offset length = .ok chunk →
      chunk.eof = false → offset + 1 ≤ chunk.nextOffset) ∧
    ∀ fuel, content.length < fuel →
      (∀ text, Utf8.encode text = content → 0 ∉ content →
        readText (fun offset => serveTextChunk files root path offset length) (fun _ => false)
          fuel = some (.ok text)) ∧
      (¬ Utf8.WellFormed content ∨ 0 ∈ content →
        ∃ message, readText (fun offset => serveTextChunk files root path offset length)
          (fun _ => false) fuel = some (.error (.fs message "FS_NOT_TEXT"))) := by
  constructor
  · intro offset chunk hchunk heof
    by_cases hoffset : offset < content.length
    · rw [serveTextChunk_inside hpath hfile hpos hoffset] at hchunk
      rcases textWindow_reads target hoffset hmax with
        ⟨failure, herror, -⟩ | ⟨chunk', hchunk', hnext, -⟩
      · rw [herror] at hchunk
        cases hchunk
      · rw [hchunk'] at hchunk
        exact Except.ok.inj hchunk ▸ hnext
    · rw [serveTextChunk_past hpath hfile hpos (by omega)] at hchunk
      rw [← Except.ok.inj hchunk] at heof
      cases heof
  · intro fuel hfuel
    obtain ⟨pulled, hpulled, hends⟩ :=
      remoteTextStream_ends hpath hfile hpos hmax 0 (show content.length - 0 < fuel by omega)
    rw [readText, hpulled, Option.map_some]
    rw [List.drop_zero] at hends
    constructor
    · rintro text rfl hnul
      have hnone := remoteTextStream_of_text hpath hfile hpos hmax List.drop_zero hnul hpulled
      rcases hends with ⟨message, hfail⟩ | ⟨-, htext, -⟩
      · rw [hnone] at hfail
        cases hfail
      · have hdecoded := congrArg Utf8.decode htext
        rw [Utf8.decode_encode, Utf8.decode_encode] at hdecoded
        rw [hnone, hdecoded]
    · intro hbad
      rcases hends with ⟨message, hfail⟩ | ⟨-, htext, hfree⟩
      · exact ⟨message, by rw [hfail]⟩
      · rcases hbad with hbad | hbad
        · exact absurd ⟨_, htext.symm⟩ hbad
        · exact absurd hbad hfree

/-- The windows that the host asks for are of such a length. -/
example : 1 ≤ textChunkBytes ∧ textChunkBytes ≤ maxReadBytes := by decide

/-- A file of one character of two bytes, read a byte at a time. -/
theorem two_bytes_whole :
    readText (fun offset => serveTextChunk (fun _ => .ok (.file [0xCE, 0xB1] none)) none "/a"
      offset 1) (fun _ => false) 3 = some (.ok ['α']) := by
  have hpath : absolutePath "read" "/a" none = .ok "/a" := by decide +kernel
  obtain ⟨files, hfiles⟩ : ∃ files : Files, (fun _ => .ok (.file [0xCE, 0xB1] none)) = files :=
    ⟨_, rfl⟩
  have hfile : files "/a" = .ok (.file [0xCE, 0xB1] none) := hfiles ▸ rfl
  rw [hfiles]
  have hone : 1 ≤ maxReadBytes := by decide
  have hwhole := (remote_text_whole hpath hfile Nat.le.refl hone).2 3 (by decide)
  exact hwhole.1 ['α'] (by decide +kernel) (by decide)

end Pulls

end RemoteWorkspace.Analysis.FsText
