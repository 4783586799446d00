import RemoteWorkspace.Analysis.DefaultTail

/-!
# Reading a terminal page by page

A caller reads a terminal again and again, each time from the offset that the call before
reported, while the terminal prints. A page that is not truncated holds everything from where it
starts to the end of what was printed, and where chunks are whole text the end is between two
characters; so the pages one behind the other are the text of the stream.
-/

set_option autoImplicit false

namespace RemoteWorkspace.Analysis.PagedReads

open RemoteWorkspace.Computation RemoteWorkspace.Model RemoteWorkspace.Model.TerminalRegistry
open RemoteWorkspace.Analysis.TerminalRegistry RemoteWorkspace.Analysis.DefaultTail

variable {options : Options} {id : String} {first : Option JsNumber}

/-- One call that was answered: the entry it read, where it started, and its answer. -/
structure Page where
  entry : ℕ
  start : JsNumber
  answer : TerminalRead
  deriving DecidableEq

/-- The host, what each terminal printed, the offset of the next call, and the pages so far. -/
structure Pager where
  host : Host × (ℕ → List Bytes)
  next : Option JsNumber
  pages : List Page

/-- What can happen next: something on the host, or the caller reads on. -/
inductive PagerEvent
  | host (e : HostEvent)
  | read (lines : Option JsNumber)

/-- A call that is answered says where the next one starts. -/
def Pager.turn (s : Pager) (n : ℕ) (answer : TerminalRead) : Pager :=
  { s with
    next := some answer.offset
    pages := s.pages ++ [⟨n, s.next.getD (s.host.1.registry.entries n).dropped, answer⟩] }

/-- The caller reads on; a call that is refused throws. -/
def Pager.read (s : Pager) (id : String) (lines : Option JsNumber) : Pager :=
  match TerminalRegistry.read s.host.1.registry id s.next lines with
  | .error _ => s
  | .ok (n, answer) => s.turn n answer

/-- A caller that reads the terminal `id`, with the offset it names in its first call. -/
def pager (options : Options) (id : String) (first : Option JsNumber) :
    Machine Pager PagerEvent where
  init := ⟨(printing options).init, first, []⟩
  step
    | s, .host e => ((printing options).step s.host e).map fun host => { s with host := host }
    | s, .read lines => some (s.read id lines)

/-- What a terminal printed. -/
def Pager.stream (s : Pager) (n : ℕ) : Bytes := (s.host.2 n).flatten

/-- The text of all pages. -/
def Pager.text (s : Pager) : List Char := s.pages.flatMap fun page => page.answer.text

/-- The first byte of a page: the one it starts at, or the end of what was printed then. -/
def Page.place (page : Page) : ℕ := min (trunc page.start).toNat page.answer.offset

/-! ### One page -/

/-- A number that is not negative is cut down to a whole one. -/
theorem trunc_of_le {x : ℚ} {n : ℕ} (h : (n : ℚ) ≤ x) : trunc x = ⌊x⌋ ∧ (n : ℤ) ≤ trunc x := by
  have htrunc : trunc x = ⌊x⌋ := if_pos (le_trans (Nat.cast_nonneg n) h)
  refine ⟨htrunc, ?_⟩
  rw [htrunc]
  exact Int.le_floor.mpr h

/-- A number minus a whole one. -/
theorem trunc_sub_natCast {x : ℚ} {n : ℕ} (h : (n : ℚ) ≤ x) : trunc (x - n) = trunc x - n := by
  rw [(trunc_of_le h).1, trunc, if_pos (sub_nonneg.mpr h), Int.floor_sub_natCast]

/-- A tail that is not cut is the text. -/
theorem tailLines_uncut {text : List Char} {lines : ℕ} (h : (tailLines text lines).2 = false) :
    (tailLines text lines).1 = text := by
  simp only [tailLines] at h ⊢
  split_ifs at h ⊢
  rfl

/-- A page that is not truncated is the text from where it starts. -/
theorem read_untruncated {entry : TerminalEntry} {stream : Bytes} {offset lines : Option JsNumber}
    (hbuffer : entry.buffer = stream.drop entry.dropped)
    (hwhole : (entry.read offset lines).truncated = false) :
    (entry.read offset lines).text =
      Utf8.decode (stream.drop (trunc (offset.getD entry.dropped)).toNat) := by
  simp only [TerminalEntry.read] at hwhole ⊢
  generalize offset.getD (entry.dropped : ℚ) = start at hwhole ⊢
  obtain ⟨hseen, htail⟩ := Bool.or_eq_false_iff.mp hwhole
  have hstart : (entry.dropped : ℚ) ≤ start := by
    simp only [textFrom, decide_eq_false_iff_not, not_lt] at hseen
    exact hseen
  have htrunc := (trunc_of_le hstart).2
  rw [tailLines_uncut htail]
  simp only [textFrom]
  rw [max_eq_left hstart, trunc_sub_natCast hstart, hbuffer, List.drop_drop]
  congr 2
  omega

/-! ### A chain of pages -/

/-- What is between two places and what is behind the second. -/
theorem drop_eq_append {stream : Bytes} {place offset : ℕ} (h : place ≤ offset) :
    stream.drop place = (stream.take offset).drop place ++ stream.drop offset := by
  calc stream.drop place
      = (stream.drop place).take (offset - place) ++ (stream.drop place).drop (offset - place) :=
        (List.take_append_drop _ _).symm
    _ = (stream.take offset).drop place ++ stream.drop offset := by
        rw [List.drop_take, List.drop_drop, Nat.add_sub_cancel' h]

/-- The chunks of a terminal are whole text, and no page was truncated. -/
def Unbroken (s : Pager) (n : ℕ) : Prop :=
  (∀ chunk ∈ s.host.2 n, Utf8.WellFormed chunk) ∧ ∀ page ∈ s.pages, page.answer.truncated = false

/-- Where a chain stands: all its pages are of one terminal, the next one starts where the last
one ended, and if nothing broke it, its pages are the text from the first byte of the first to
the end of the last, which is between two characters. -/
structure Linked (id : String) (s : Pager) (p q : Page) : Prop where
  entry : q.entry = p.entry
  known : id = idOf p.entry
  next : s.next = some (q.answer.offset : ℚ)
  place : p.place ≤ q.answer.offset
  offset : q.answer.offset ≤ (s.stream p.entry).length
  whole : Unbroken s p.entry → Utf8.WellFormed ((s.stream p.entry).take q.answer.offset)
  text : Unbroken s p.entry →
    s.text = Utf8.decode (((s.stream p.entry).take q.answer.offset).drop p.place)

/-- What holds of every caller. -/
structure Chained (id : String) (s : Pager) : Prop where
  kept : Kept s.host
  linked : ∀ p q, s.pages.head? = some p → s.pages.getLast? = some q → Linked id s p q

/-- What happens on the host leaves the chain where it is. -/
theorem Chained.host {s : Pager} {e : HostEvent} {host : Host × (ℕ → List Bytes)}
    (h : Chained id s) (hstep : (printing options).step s.host e = some host) :
    Chained id { s with host := host } := by
  refine ⟨h.kept.step hstep, fun p q hp hq => ?_⟩
  obtain ⟨hentry, hknown, hnext, hplace, hoffset, hwhole, htext⟩ := h.linked p q hp hq
  obtain ⟨-, hchunks⟩ := Machine.observe_step.mp hstep
  have hmore : host.2 p.entry = s.host.2 p.entry ++ emitted s.host.1 p.entry e := by
    rw [hchunks]
  have hstream : ({ s with host := host } : Pager).stream p.entry =
      s.stream p.entry ++ (emitted s.host.1 p.entry e).flatten := by
    rw [Pager.stream, hmore, List.flatten_append]
    rfl
  have htake : (({ s with host := host } : Pager).stream p.entry).take q.answer.offset =
      (s.stream p.entry).take q.answer.offset := by
    rw [hstream, List.take_append_of_le_length hoffset]
  have hunbroken : Unbroken { s with host := host } p.entry → Unbroken s p.entry := by
    rintro ⟨hwf, huncut⟩
    exact ⟨fun chunk hchunk => hwf chunk (hmore ▸ List.mem_append_left _ hchunk), huncut⟩
  refine ⟨hentry, hknown, hnext, hplace, ?_, fun hu => ?_, fun hu => ?_⟩
  · rw [hstream, List.length_append]
    exact Nat.le_add_right_of_le hoffset
  · rw [htake]
    exact hwhole (hunbroken hu)
  · rw [htake]
    exact htext (hunbroken hu)

/-- A call that was answered. -/
theorem read_ok {s : Registry} {offset lines : Option JsNumber} {n : ℕ} {answer : TerminalRead}
    (h : TerminalRegistry.read s id offset lines = .ok (n, answer)) :
    s.get id = some n ∧ answer = (s.entries n).read offset lines := by
  unfold TerminalRegistry.read entryOf at h
  cases hget : s.get id with
  | none =>
    rw [hget] at h
    cases h
  | some m =>
    rw [hget] at h
    cases h
    exact ⟨rfl, rfl⟩

section Turn

variable {s : Pager} {lines : Option JsNumber} {n : ℕ} {answer : TerminalRead}

/-- A new page ends where the stream does, and if nothing broke the chain it is the text from
where it starts. -/
theorem turn_text (h : Kept s.host)
    (hread : TerminalRegistry.read s.host.1.registry id s.next lines = .ok (n, answer)) :
    id = idOf n ∧ answer.offset = (s.stream n).length ∧
      (Unbroken (s.turn n answer) n → answer.text = Utf8.decode ((s.stream n).drop
        (trunc (s.next.getD (s.host.1.registry.entries n).dropped)).toNat)) := by
  obtain ⟨hget, hanswer⟩ := read_ok hread
  refine ⟨((h.tabled.get_eq_some).mp hget).2, ?_, ?_⟩
  · rw [hanswer]
    exact (h.printed.ring n).bytes
  · rintro ⟨hchunks, huncut⟩
    have htruncated : answer.truncated = false :=
      huncut ⟨n, _, answer⟩ (List.mem_append_right _ List.mem_cons_self)
    rw [hanswer] at htruncated ⊢
    exact read_untruncated (h.whole hchunks).2.2.2 htruncated

/-- The first page. -/
theorem linked_first (h : Kept s.host) (hpages : s.pages = [])
    (hread : TerminalRegistry.read s.host.1.registry id s.next lines = .ok (n, answer)) :
    Linked id (s.turn n answer)
      ⟨n, s.next.getD (s.host.1.registry.entries n).dropped, answer⟩
      ⟨n, s.next.getD (s.host.1.registry.entries n).dropped, answer⟩ := by
  obtain ⟨hknown, hend, htext⟩ := turn_text h hread
  have hall : (s.stream n).take answer.offset = s.stream n := by
    rw [hend, List.take_length]
  refine ⟨rfl, hknown, rfl, Nat.min_le_right _ _, Nat.le_of_eq hend, fun hu => ?_, fun hu => ?_⟩
  · show Utf8.WellFormed ((s.stream n).take answer.offset)
    rw [hall]
    exact (h.whole hu.1).1
  · show (s.pages ++ [_]).flatMap _ = Utf8.decode (((s.stream n).take answer.offset).drop _)
    rw [hpages, hall, List.nil_append, List.flatMap_singleton, htext hu, Page.place, hend,
      ← List.drop_eq_drop_min]

/-- One more page. -/
theorem Linked.turn {p q : Page} (hlinked : Linked id s p q) (h : Kept s.host)
    (hread : TerminalRegistry.read s.host.1.registry id s.next lines = .ok (n, answer)) :
    Linked id (s.turn n answer) p
      ⟨n, s.next.getD (s.host.1.registry.entries n).dropped, answer⟩ := by
  obtain ⟨hknown, hend, htext⟩ := turn_text h hread
  obtain rfl : n = p.entry := idOf_injective (hknown.symm.trans hlinked.known)
  have hall : (s.stream p.entry).take answer.offset = s.stream p.entry := by
    rw [hend, List.take_length]
  have hplace : p.place ≤ answer.offset := by
    rw [hend]
    exact hlinked.place.trans hlinked.offset
  refine ⟨rfl, hknown, rfl, hplace, Nat.le_of_eq hend, fun hu => ?_, fun hu => ?_⟩
  · show Utf8.WellFormed ((s.stream p.entry).take answer.offset)
    rw [hall]
    exact (h.whole hu.1).1
  · have hold : Unbroken s p.entry :=
      ⟨hu.1, fun page hpage => hu.2 page (List.mem_append_left _ hpage)⟩
    have hstart : (trunc (s.next.getD (s.host.1.registry.entries p.entry).dropped)).toNat =
        q.answer.offset := by
      rw [hlinked.next, Option.getD_some, trunc_natCast, Int.toNat_natCast]
    show (s.pages ++ [_]).flatMap _ =
      Utf8.decode (((s.stream p.entry).take answer.offset).drop p.place)
    rw [List.flatMap_append, List.flatMap_singleton, htext hu, hstart, hall,
      drop_eq_append hlinked.place, Utf8.decode_drop_append (hlinked.whole hold)]
    exact congrArg (· ++ _) (hlinked.text hold)

end Turn

/-- Reading on keeps the chain. -/
theorem Chained.read {s : Pager} (h : Chained id s) (lines : Option JsNumber) :
    Chained id (s.read id lines) := by
  unfold Pager.read
  cases hread : TerminalRegistry.read s.host.1.registry id s.next lines with
  | error error => exact h
  | ok answered =>
    obtain ⟨n, answer⟩ := answered
    refine ⟨h.kept, fun p q hp hq => ?_⟩
    simp only [Pager.turn, List.getLast?_append, List.getLast?_singleton, Option.some_or] at hp hq
    obtain rfl := Option.some.inj hq
    cases hlast : s.pages.getLast? with
    | none =>
      have hpages := List.getLast?_eq_none_iff.mp hlast
      rw [hpages] at hp
      obtain rfl := Option.some.inj hp
      exact linked_first h.kept hpages hread
    | some last =>
      obtain ⟨page, hpage⟩ : ∃ page, s.pages.head? = some page := by
        cases hpages : s.pages with
        | nil =>
          rw [hpages] at hlast
          cases hlast
        | cons page pages => exact ⟨page, rfl⟩
      rw [List.head?_append, hpage] at hp
      obtain rfl := Option.some.inj hp
      exact (h.linked page last hpage hlast).turn h.kept hread

theorem chained_of_reachable {s : Pager} (h : (pager options id first).Reachable s) :
    Chained id s := by
  refine h.invariant ⟨kept_init, fun p q hp => by cases hp⟩ ?_
  intro s e t hs _ hstep
  cases e with
  | host e =>
    obtain ⟨host, hhost, rfl⟩ := Option.map_eq_some_iff.mp hstep
    exact hs.host hhost
  | read lines => exact Option.some.inj hstep ▸ hs.read lines

/-- Each entry keeps the last bytes that its terminal printed and accounts for the rest; and the
pages of a chain that nothing broke are the text of the stream from where the first one starts
to where the last one ends. -/
theorem pages_are_the_stream {s : Pager} (h : (pager options id first).Reachable s) :
    (∀ n, (s.host.1.registry.entries n).bytes = (s.stream n).length ∧
      (s.host.1.registry.entries n).buffer = (s.stream n).drop
        ((s.stream n).length - min (s.host.1.registry.entries n).bytes bufferBytes) ∧
      (s.host.1.registry.entries n).buffer.length =
        (s.host.1.registry.entries n).bytes - (s.host.1.registry.entries n).dropped) ∧
    ∀ p q, s.pages.head? = some p → s.pages.getLast? = some q → Unbroken s p.entry →
      q.entry = p.entry ∧
        s.text = Utf8.decode (((s.stream p.entry).take q.answer.offset).drop p.place) := by
  have hchained := chained_of_reachable h
  refine ⟨fun n => ?_, fun p q hp hq hu => ?_⟩
  · obtain ⟨hbytes, hdropped, hbuffer⟩ := hchained.kept.printed.ring n
    have hmin (length cap : ℕ) : length - min length cap = length - cap := by omega
    refine ⟨hbytes, ?_, ?_⟩
    · rw [hbytes, hbuffer]
      show _ = (s.stream n).drop ((s.stream n).length - min (s.stream n).length bufferBytes)
      rw [hmin]
      rfl
    · rw [hbytes, hdropped, hbuffer, List.length_drop]
  · have hlinked := hchained.linked p q hp hq
    exact ⟨hlinked.entry, hlinked.text hu⟩

/-- A caller reads one terminal from its beginning, twice while it prints. -/
def twoPages : List PagerEvent :=
  [.host (.registry (.open "s1" "/w" 80 24)), .host (.registry (.spawned 0 4711)),
    .host (.publish 1 "caf\u00e9\n".toUTF8.toList), .host (.registry (.data 1)), .read none,
    .host (.publish 1 "$ ".toUTF8.toList), .host (.registry (.data 1)), .read (some 10)]

theorem twoPages_isSome : ((pager shellOptions "t1" none).run twoPages).isSome = true := by
  decide +kernel

/-- The caller then. -/
def readTwice : Pager := ((pager shellOptions "t1" none).run twoPages).get twoPages_isSome

/-- The two pages are the stream. -/
theorem pages_are_the_prompt :
    readTwice.text = Utf8.decode ((readTwice.stream 1).take 8) := by
  have hhead : readTwice.pages.head? = some ⟨1, 0, ⟨"t1", 6, "caf\u00e9\n".toList, false⟩⟩ := by
    decide +kernel
  have hlast : readTwice.pages.getLast? = some ⟨1, 6, ⟨"t1", 8, "$ ".toList, false⟩⟩ := by
    decide +kernel
  exact ((pages_are_the_stream (Machine.reachable_get twoPages twoPages_isSome)).2 _ _ hhead hlast
    ⟨by decide +kernel, by decide +kernel⟩).2

end RemoteWorkspace.Analysis.PagedReads
