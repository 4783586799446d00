import RemoteWorkspace.Analysis.ReattachedTab
import RemoteWorkspace.Analysis.TerminalTable
import RemoteWorkspace.Computation.Utf8Cut
import RemoteWorkspace.Model.TerminalReads

/-!
# The tail that a default wait searches

A default read decodes the whole buffer and keeps its last lines; a default wait writes those
lines again, counts their bytes from the end, and decodes from there. Where the chunks of a
terminal are whole text, the bytes that a cut left of a character come before the first line
end, so a tail that begins behind one is written with as many bytes as it was read from; and a
tail that begins with such bytes is all that the buffer holds.
-/

set_option autoImplicit false

namespace RemoteWorkspace.Analysis.DefaultTail

open RemoteWorkspace.Computation RemoteWorkspace.Model RemoteWorkspace.Model.TerminalRegistry
open RemoteWorkspace.Analysis.TerminalRegistry RemoteWorkspace.Analysis.ReattachedTab

variable {options : Options}

/-! ### Lines -/

/-- A text has a line. -/
theorem splitLines_ne_nil (text : List Char) : splitLines text ≠ [] := by
  cases text with
  | nil => exact List.cons_ne_nil _ _
  | cons c text =>
    unfold splitLines
    split
    · exact List.cons_ne_nil _ _
    · split <;> exact List.cons_ne_nil _ _

/-- A character within a line. -/
theorem splitLines_cons_of_ne {c : Char} (h : c ≠ '\n') (text : List Char) :
    ∃ line lines, splitLines text = line :: lines ∧
      splitLines (c :: text) = (c :: line) :: lines := by
  obtain ⟨line, lines, hsplit⟩ := List.exists_cons_of_ne_nil (splitLines_ne_nil text)
  refine ⟨line, lines, hsplit, ?_⟩
  rw [splitLines, if_neg h, hsplit]

/-- Joining the lines of a text is the text. -/
theorem intercalate_splitLines (text : List Char) :
    ['\n'].intercalate (splitLines text) = text := by
  induction text with
  | nil => rfl
  | cons c text ih =>
    by_cases hc : c = '\n'
    · obtain ⟨line, lines, hsplit⟩ := List.exists_cons_of_ne_nil (splitLines_ne_nil text)
      rw [hsplit] at ih
      rw [splitLines, if_pos hc, hsplit, List.intercalate_cons_cons, ih, hc]
      rfl
    · obtain ⟨line, lines, hsplit, hcons⟩ := splitLines_cons_of_ne hc text
      rw [hsplit] at ih
      rw [hcons, ← ih]
      cases lines with
      | nil => rfl
      | cons _ _ => rfl

/-- The last lines of a text begin behind a line end. -/
theorem lines_behind {text : List Char} {k : ℕ} (hpos : 0 < k)
    (hlt : k < (splitLines text).length) :
    ∃ front, text = front ++ '\n' :: ['\n'].intercalate ((splitLines text).drop k) := by
  induction text generalizing k with
  | nil =>
    rw [splitLines, List.length_singleton] at hlt
    omega
  | cons c text ih =>
    by_cases hc : c = '\n'
    · rw [splitLines, if_pos hc] at hlt ⊢
      obtain ⟨k, rfl⟩ : ∃ m, k = m + 1 := ⟨k - 1, by omega⟩
      rw [List.drop_succ_cons]
      rcases Nat.eq_zero_or_pos k with rfl | hk
      · exact ⟨[], by rw [List.drop_zero, intercalate_splitLines, hc, List.nil_append]⟩
      · rw [List.length_cons] at hlt
        obtain ⟨front, hfront⟩ := ih hk (Nat.lt_of_succ_lt_succ hlt)
        exact ⟨c :: front, by rw [List.cons_append, ← hfront]⟩
    · obtain ⟨line, lines, hsplit, hcons⟩ := splitLines_cons_of_ne hc text
      have hdrop : (splitLines (c :: text)).drop k = (splitLines text).drop k := by
        obtain ⟨k, rfl⟩ : ∃ m, k = m + 1 := ⟨k - 1, by omega⟩
        rw [hcons, hsplit, List.drop_succ_cons, List.drop_succ_cons]
      have hlength : (splitLines (c :: text)).length = (splitLines text).length := by
        rw [hcons, hsplit]
        rfl
      obtain ⟨front, hfront⟩ := ih hpos (hlength ▸ hlt)
      exact ⟨c :: front, by rw [hdrop, List.cons_append, ← hfront]⟩

/-- A tail is the text, or it begins behind a line end. -/
theorem tailLines_cases (text : List Char) {lines : ℕ} (hpos : 0 < lines) :
    tailLines text lines = (text, false) ∨
      ∃ front tail, tailLines text lines = (tail, true) ∧ text = front ++ '\n' :: tail := by
  unfold tailLines
  by_cases hfew : (splitLines text).length ≤ lines
  · exact .inl (if_pos hfew)
  · right
    obtain ⟨front, hfront⟩ := @lines_behind text
      ((splitLines text).length - lines) (by omega) (by omega)
    exact ⟨front, _, if_neg hfew, hfront⟩

/-! ### Places -/

/-- A whole number is its own integer part. -/
theorem trunc_natCast (n : ℕ) : trunc (n : ℚ) = n := by
  unfold trunc
  rw [if_pos (Nat.cast_nonneg n), Int.floor_natCast]

/-- The retained text from a whole number on. -/
theorem textFrom_natCast {entry : TerminalEntry} {start : ℕ} (h : entry.dropped ≤ start) :
    textFrom entry start = (Utf8.decode (entry.buffer.drop (start - entry.dropped)), false) := by
  have hle : (entry.dropped : ℚ) ≤ start := Nat.cast_le.mpr h
  simp only [textFrom]
  rw [max_eq_left hle, ← Nat.cast_sub h, trunc_natCast, Int.toNat_natCast,
    decide_eq_false (not_lt.mpr hle)]

/-- What a default read asks for. -/
theorem clampCount_default : clampCount none defaultReadLines maxReadLines = defaultReadLines := by
  show (min (max (trunc ((200 : ℕ) : ℚ)) 1) ((2000 : ℕ) : ℤ)).toNat = 200
  rw [trunc_natCast]
  rfl

/-- A default read is the tail of what is retained. -/
theorem read_default (entry : TerminalEntry) :
    entry.read none none = ⟨entry.id, entry.bytes,
      (tailLines (textFrom entry entry.dropped).1 defaultReadLines).1,
      (tailLines (textFrom entry entry.dropped).1 defaultReadLines).2⟩ := by
  unfold TerminalEntry.read
  rw [clampCount_default]
  have hwhole : (textFrom entry entry.dropped).2 = false := by
    rw [textFrom_natCast (Nat.le_refl _)]
  simp only [Option.getD_none, hwhole, Bool.false_or]

/-! ### What is retained of a text -/

/-- Line ends are not among what a cut leaves of a character. -/
theorem behind_stray {k : ℕ} {rest front tail : List Char}
    (h : List.replicate k Utf8.replacement ++ rest = front ++ '\n' :: tail) :
    ∃ before, rest = before ++ '\n' :: tail := by
  rcases List.append_eq_append_iff.mp h with ⟨m, -, hrest⟩ | ⟨m, hstray, hrest⟩
  · exact ⟨m, hrest⟩
  · cases m with
    | nil => exact ⟨[], hrest.symm⟩
    | cons c m =>
      have hc : c = '\n' := (List.cons.inj hrest).1.symm
      have hmem : c ∈ List.replicate k Utf8.replacement := by
        rw [hstray]
        exact List.mem_append_right _ List.mem_cons_self
      rw [List.eq_of_mem_replicate hmem] at hc
      exact absurd hc (by decide)

/-- A default wait searches the tail that a default read shows, wherever the buffer begins. -/
theorem textFrom_retainedStart {entry : TerminalEntry} {stream : Bytes}
    (hwhole : Utf8.WellFormed stream) (hbytes : entry.bytes = stream.length)
    (hdropped : entry.dropped ≤ stream.length) (hbuffer : entry.buffer = stream.drop entry.dropped) :
    (textFrom entry (retainedStart entry)).1 =
      (tailLines (textFrom entry entry.dropped).1 defaultReadLines).1 := by
  obtain ⟨text, rfl⟩ := hwhole
  obtain ⟨stray, rest, hdrop, hstray, -⟩ := Utf8.drop_encode text entry.dropped
  have hlength : (Utf8.encode text).length - entry.dropped =
      stray.length + (Utf8.encode rest).length := by
    rw [← List.length_drop, hdrop, List.length_append]
  have hseen : (textFrom entry entry.dropped).1 =
      List.replicate stray.length Utf8.replacement ++ rest := by
    rw [textFrom_natCast (Nat.le_refl _), Nat.sub_self, List.drop_zero, hbuffer, hdrop,
      Utf8.decode_stray_append hstray, Utf8.decode_encode]
  rcases @tailLines_cases (textFrom entry entry.dropped).1 defaultReadLines
    (by decide) with hall | ⟨front, tail, htail, hsplit⟩
  · -- the whole buffer: written again it is no shorter, so the search begins where it begins
    have hstart : retainedStart entry = entry.dropped := by
      have hlong : byteLength (textFrom entry entry.dropped).1 ≥ entry.bytes - entry.dropped := by
        rw [byteLength, textFrom_natCast (Nat.le_refl _), Nat.sub_self, List.drop_zero, hbytes,
          ← List.length_drop, ← hbuffer]
        exact Utf8.length_le_reencode entry.buffer
      simp only [retainedStart, hall]
      omega
    rw [hstart, hall]
  · -- lines at the end: what a cut left of a character is before them
    rw [hseen] at hsplit
    obtain ⟨before, hbefore⟩ := behind_stray hsplit
    have hparts : Utf8.encode rest =
        Utf8.encode (before ++ ['\n']) ++ Utf8.encode tail := by
      rw [← Utf8.encode_append, List.append_assoc, hbefore]
      rfl
    have hpartsLength : (Utf8.encode rest).length =
        (Utf8.encode (before ++ ['\n'])).length + (Utf8.encode tail).length := by
      rw [hparts, List.length_append]
    have hstart : retainedStart entry =
        entry.dropped + (stray ++ Utf8.encode (before ++ ['\n'])).length := by
      simp only [retainedStart, htail, byteLength, List.length_append]
      omega
    rw [htail, textFrom_natCast (by omega), hstart, Nat.add_sub_cancel_left, hbuffer, hdrop, hparts,
      ← List.append_assoc, List.drop_left, Utf8.decode_encode]

/-! ### Over the life of a terminal -/

/-- The host's loop, with the chunks that each terminal printed. -/
def printing (options : Options) : Machine (Host × (ℕ → List Bytes)) HostEvent :=
  (host options).observe (fun _ => []) fun s chunks e _ n => chunks n ++ emitted s n e

/-- What holds of every terminal: its entry keeps the end of what it printed, and the table knows
it by its id. -/
structure Kept (p : Host × (ℕ → List Bytes)) : Prop where
  printed : Printed p.1 fun n => (p.2 n).flatten
  tabled : Tabled p.1.registry

theorem kept_init : Kept (printing options).init := by
  refine ⟨⟨fun n => ?_, fun _ _ => rfl, fun _ _ => rfl⟩, tabled_empty⟩
  exact ⟨rfl, (Nat.zero_sub _).symm, List.drop_nil.symm⟩

theorem Kept.step {p q : Host × (ℕ → List Bytes)} {e : HostEvent} (h : Kept p)
    (hstep : (printing options).step p e = some q) : Kept q := by
  obtain ⟨hhost, hchunks⟩ := Machine.observe_step.mp hstep
  refine ⟨?_, tabled_hostStep h.tabled hhost⟩
  have hprinted := h.printed.step hhost
  rw [hchunks]
  simpa only [List.flatten_append] using hprinted

theorem kept_of_reachable {p : Host × (ℕ → List Bytes)} (h : (printing options).Reachable p) :
    Kept p :=
  h.invariant kept_init fun _ _ _ hp _ hstep => hp.step hstep

/-- What a terminal printed, as far as its entry keeps it, is the end of a whole text. -/
theorem Kept.whole {p : Host × (ℕ → List Bytes)} (h : Kept p) {n : ℕ}
    (hchunks : ∀ chunk ∈ p.2 n, Utf8.WellFormed chunk) :
    Utf8.WellFormed (p.2 n).flatten ∧
      (p.1.registry.entries n).bytes = (p.2 n).flatten.length ∧
      (p.1.registry.entries n).dropped ≤ (p.2 n).flatten.length ∧
      (p.1.registry.entries n).buffer =
        (p.2 n).flatten.drop (p.1.registry.entries n).dropped := by
  obtain ⟨hbytes, hdropped, hbuffer⟩ := h.printed.ring n
  refine ⟨Utf8.wellFormed_flatten hchunks, hbytes, ?_, ?_⟩
  · rw [hdropped]
    exact Nat.sub_le _ _
  · rw [hdropped]
    exact hbuffer

/-- A wait that was begun found its entry and a matcher of its text. -/
theorem wait_ok {compile : String → Except String Test} {s : Registry} {id : String}
    {request : TerminalWaitRequest} {w : Waiting} (h : wait compile s id request = .ok w) :
    entryOf s id = .ok w.entry ∧ matcher compile request = .ok w.test ∧
      w.start = request.offset.getD (retainedStart (s.entries w.entry)) := by
  unfold wait at h
  cases hentry : entryOf s id with
  | error error =>
    rw [hentry] at h
    cases h
  | ok n =>
    cases hmatcher : matcher compile request with
    | error error =>
      rw [hentry, hmatcher] at h
      cases h
    | ok test =>
      rw [hentry, hmatcher] at h
      cases h
      exact ⟨rfl, rfl, rfl⟩

/-- A check that settles a wait answers with the text it tested and with the end of the output,
and says whether it matched. -/
theorem check_ok {entry : TerminalEntry} {start : JsNumber} {test : Test}
    {aborted : Option (Option String)} {outcome : TerminalWait}
    (h : entry.check start test aborted = some (.ok outcome)) :
    outcome.text = (textFrom entry start).1 ∧ outcome.offset = entry.bytes ∧
      outcome.matched = test (textFrom entry start).1 ∧
      (outcome.reason = .matched ↔ outcome.matched = true) := by
  unfold TerminalEntry.check at h
  cases aborted with
  | some reason => cases h
  | none =>
    cases htest : test (textFrom entry start).1 with
    | true =>
      simp only [htest, if_true] at h
      cases h
      exact ⟨rfl, rfl, rfl, iff_of_true rfl rfl⟩
    | false =>
      simp only [htest, Bool.false_eq_true, if_false] at h
      split at h
      · cases h
        exact ⟨rfl, rfl, rfl, iff_of_false (fun hr => by cases hr) Bool.false_ne_true⟩
      · cases h

/-- A wait without an offset searches, and answers with, what a read without arguments shows. -/
theorem default_wait_searches_read {p : Host × (ℕ → List Bytes)}
    (h : (printing options).Reachable p) {compile : String → Except String Test} {id : String}
    {request : TerminalWaitRequest} {w : Waiting} (hdefault : request.offset = none)
    (hwait : wait compile p.1.registry id request = .ok w)
    (hchunks : ∀ chunk ∈ p.2 w.entry, Utf8.WellFormed chunk) :
    ∃ page, read p.1.registry id none none = .ok (w.entry, page) ∧
      (textFrom (p.1.registry.entries w.entry) w.start).1 = page.text ∧
      ∀ aborted outcome,
        (p.1.registry.entries w.entry).check w.start w.test aborted = some (.ok outcome) →
          outcome.text = page.text ∧ outcome.offset = page.offset ∧
            outcome.matched = w.test page.text := by
  obtain ⟨hentry, -, hstart⟩ := wait_ok hwait
  obtain ⟨hwhole, hbytes, hdropped, hbuffer⟩ := (kept_of_reachable h).whole hchunks
  have hread : read p.1.registry id none none =
      .ok (w.entry, (p.1.registry.entries w.entry).read none none) := by
    unfold Model.TerminalRegistry.read
    rw [hentry]
    rfl
  have htext : (textFrom (p.1.registry.entries w.entry) w.start).1 =
      ((p.1.registry.entries w.entry).read none none).text := by
    rw [hstart, hdefault, Option.getD_none,
      textFrom_retainedStart hwhole hbytes hdropped hbuffer, read_default]
  refine ⟨_, hread, htext, fun aborted outcome hcheck => ?_⟩
  obtain ⟨hanswer, hoffset, hmatched, -⟩ := check_ok hcheck
  refine ⟨hanswer.trans htext, ?_, htext ▸ hmatched⟩
  rw [hoffset, read_default]

/-- A terminal printed two whole chunks. -/
def promptRun : List HostEvent :=
  [.registry (.open "s1" "/w" 80 24), .registry (.spawned 0 4711),
    .publish 1 "caf\u00e9\n".toUTF8.toList, .registry (.data 1), .publish 1 "$ ".toUTF8.toList,
    .registry (.data 1)]

theorem promptRun_isSome : ((printing shellOptions).run promptRun).isSome = true := by
  decide +kernel

/-- The registry then, with what was printed. -/
def promptShown : Host × (ℕ → List Bytes) :=
  ((printing shellOptions).run promptRun).get promptRun_isSome

/-- A wait for the prompt that names no offset. -/
def promptWait : Waiting :=
  ⟨1, retainedStart (promptShown.1.registry.entries 1), fun text => includes text "$ ".toList,
    30000⟩

theorem promptWait_begun : wait (fun _ => .error "") promptShown.1.registry "t1"
    ⟨none, some "$ ", none, none⟩ = .ok promptWait := by
  have hget : promptShown.1.registry.get "t1" = some 1 := by decide +kernel
  have hbudget : clampCount none defaultWaitMs maxWaitMs = 30000 := by decide +kernel
  have hentry : entryOf promptShown.1.registry "t1" = .ok 1 := by rw [entryOf, hget]
  unfold wait
  rw [hentry, hbudget]
  rfl

/-- It searches both chunks, as a read shows them. -/
theorem default_wait_searches_prompt :
    ∃ page, read promptShown.1.registry "t1" none none = .ok (1, page) ∧
      (textFrom (promptShown.1.registry.entries 1) promptWait.start).1 = page.text := by
  obtain ⟨page, hread, htext, -⟩ := default_wait_searches_read
    (Machine.reachable_get promptRun promptRun_isSome) rfl promptWait_begun (by decide +kernel)
  exact ⟨page, hread, htext⟩

end RemoteWorkspace.Analysis.DefaultTail
