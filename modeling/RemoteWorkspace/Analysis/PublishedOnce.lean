import RemoteWorkspace.Analysis.TtySteps

/-!
# What a remote terminal publishes

While no read is lossy, the text written to the output is the beginning of what the stream
decodes to, and no byte is published twice, exactly as long as every answer is taken at the
offset it was asked for, and nothing is made up for a character that the stream goes on with
when the handle is finished. The last pull of a teardown breaks the first of these when the
loop's read is still out: both ask from one offset, and both are published.
-/

set_option autoImplicit false

namespace RemoteWorkspace.Analysis.PublishedOnce

open RemoteWorkspace.Computation RemoteWorkspace.Model RemoteWorkspace.Model.RemoteTty
open TerminalRegistry (TtyOutcome)
open TtySteps

variable {stream : Bytes} {s t : Tty}

/-- The text is the beginning of the stream's, no byte was published twice or out of order,
and the offset never moved backwards. -/
structure InOrder (stream : Bytes) (s : Tty) : Prop where
  text : s.output <+: Utf8.decode stream
  once : s.books.published.Pairwise (· < ·)
  forward : s.books.offsets.Pairwise (· ≤ ·)

/-- The events that call `finish`. -/
def finishes (s : Tty) : Event → Prop
  | .resume .follow _ =>
    match s.follow with
    | some (.returned none) => True
    | some (.returned (some (some _))) => s.releasing = false
    | _ => False
  | .resume .teardown _ =>
    match s.stopping with
    | some (.pulling (.returned (some (some _)))) => True
    | _ => False
  | .told _ => s.stopping = some .asking
  | _ => False

/-- A read is taken at the offset it was asked for, or after the handle has finished and
without moving the offset back; and what is made up at the end for a character that was
started is what the stream goes on with. -/
def InPlace (stream : Bytes) (s : Tty) (e : Event) : Prop :=
  s.books.lossy = false →
    (∀ c room o read, e = .resume c room →
      s.pullOf c = some (.reading ⟨o, .answered read⟩) → read.lossy = false →
      o = s.offset ∨ s.finished = true ∧ s.offset ≤ read.nextOffset) ∧
    (finishes s e → s.finished = false →
      Utf8.flush s.decoder <+: Utf8.decodeFrom s.decoder (stream.drop s.offset))

/-! ### The invariant -/

/-- What was published is the stream up to the offset until the handle has finished. -/
structure Inner (stream : Bytes) (s : Tty) : Prop where
  asked : ∀ c r, s.pullOf c = some (.reading r) → r.fromByte ≤ s.offset
  unmarked : ∀ c read held, s.pullOf c ≠ some (.marking read held)
  forward : s.books.offsets.Pairwise (· ≤ ·)
  latest : s.offset ∈ s.books.offsets ∧ ∀ o ∈ s.books.offsets, o ≤ s.offset
  places : s.finished = false → s.books.published = List.range s.offset
  text : s.finished = false → Utf8.feed none (stream.take s.offset) = (s.output, s.decoder)
  finished : s.finished = true → s.books.published.Pairwise (· < ·) ∧ s.output <+: Utf8.decode stream

/-- The stream up to the offset was fed to the decoder, and the rest goes on from there. -/
theorem Inner.decode_eq (h : Inner stream s) (hopen : s.finished = false) :
    Utf8.decode stream = s.output ++ Utf8.decodeFrom s.decoder (stream.drop s.offset) := by
  have hfed := h.text hopen
  calc Utf8.decode stream
      = Utf8.decodeFrom none (stream.take s.offset ++ stream.drop s.offset) := by
        rw [List.take_append_drop]
        rfl
    _ = s.output ++ Utf8.decodeFrom s.decoder (stream.drop s.offset) := by
        rw [Utf8.decodeFrom_append, hfed]

/-- The invariant gives the property. -/
theorem Inner.inOrder (h : Inner stream s) : InOrder stream s := by
  cases hf : s.finished with
  | false =>
    refine ⟨?_, ?_, h.forward⟩
    · rw [h.decode_eq hf]
      exact List.prefix_append _ _
    · rw [h.places hf]
      exact List.pairwise_lt_range
  | true => exact ⟨(h.finished hf).2, (h.finished hf).1, h.forward⟩

/-- Two states that agree on what was read and published. -/
structure Alike (s t : Tty) : Prop where
  offset : t.offset = s.offset
  finished : t.finished = s.finished
  decoder : t.decoder = s.decoder
  output : t.output = s.output
  published : t.books.published = s.books.published
  offsets : t.books.offsets = s.books.offsets
  lossy : t.books.lossy = s.books.lossy

/-- A change that leaves alone what was read and published. -/
theorem Inner.alike (h : Inner stream s) (halike : Alike s t)
    (hasked : ∀ c r, t.pullOf c = some (.reading r) → r.fromByte ≤ s.offset)
    (hunmarked : ∀ c read held, t.pullOf c ≠ some (.marking read held)) : Inner stream t where
  asked c r hr := by
    rw [halike.offset]
    exact hasked c r hr
  unmarked := hunmarked
  forward := by
    rw [halike.offsets]
    exact h.forward
  latest := by
    rw [halike.offset, halike.offsets]
    exact h.latest
  places hf := by
    rw [halike.published, halike.offset]
    exact h.places (halike.finished.symm.trans hf)
  text hf := by
    rw [halike.offset, halike.output, halike.decoder]
    exact h.text (halike.finished.symm.trans hf)
  finished hf := by
    rw [halike.published, halike.output]
    exact h.finished (halike.finished.symm.trans hf)

/-- Finishing writes what stands for a character that was started. -/
theorem finish_output (hopen : s.finished = false) (outcome : TtyOutcome) :
    (finish s outcome).output = s.output ++ Utf8.flush s.decoder := by
  rw [finish, if_neg (by rw [hopen]; decide)]

/-- A handle finishes once. -/
theorem finish_eq (hdone : s.finished = true) (outcome : TtyOutcome) : finish s outcome = s := by
  rw [finish, if_pos hdone]

/-- What is written at the end belongs to the stream when what is made up does. -/
theorem Inner.output_finish_iff (h : Inner stream s) (hopen : s.finished = false)
    (outcome : TtyOutcome) :
    (finish s outcome).output <+: Utf8.decode stream ↔
      Utf8.flush s.decoder <+: Utf8.decodeFrom s.decoder (stream.drop s.offset) := by
  rw [finish_output hopen, h.decode_eq hopen]
  exact List.prefix_append_right_inj _

/-- Finishing in place. -/
theorem Inner.finish (h : Inner stream s) (outcome : TtyOutcome)
    (hflush : s.finished = false →
      Utf8.flush s.decoder <+: Utf8.decodeFrom s.decoder (stream.drop s.offset)) :
    Inner stream (RemoteTty.finish s outcome) := by
  cases hf : s.finished with
  | true => rwa [finish_eq hf]
  | false =>
    refine ⟨fun c r hr => ?_, fun c read held => ?_, ?_, ?_, fun hopen => ?_, fun hopen => ?_,
      fun _ => ⟨?_, ?_⟩⟩
    · rw [finish_offset]
      exact h.asked c r ((finish_pullOf ..).symm.trans hr)
    · rw [finish_pullOf]
      exact h.unmarked c read held
    · rw [finish_books]
      exact h.forward
    · rw [finish_books, finish_offset]
      exact h.latest
    · rw [finish_finished] at hopen
      cases hopen
    · rw [finish_finished] at hopen
      cases hopen
    · rw [finish_books, h.places hf]
      exact List.pairwise_lt_range
    · exact (h.output_finish_iff hf outcome).mpr (hflush hf)

/-- A pull of one caller is changed to one that reads from no later offset. -/
theorem Inner.setPull (h : Inner stream s) {c : Caller} {p : Pull}
    (hasked : ∀ r, p = .reading r → r.fromByte ≤ s.offset)
    (hunmarked : ∀ read held, p ≠ .marking read held) : Inner stream (s.setPull c p) := by
  refine h.alike ⟨setPull_offset .., setPull_finished .., setPull_decoder .., setPull_output ..,
    ?_, ?_, ?_⟩ (fun c' r hr => ?_) (fun c' read held hm => ?_)
  · rw [setPull_books]
  · rw [setPull_books]
  · rw [setPull_books]
  · rcases pullOf_setPull_cases hr with ⟨-, hp⟩ | ⟨-, hsame⟩
    · exact hasked r hp.symm
    · exact h.asked c' r hsame
  · rcases pullOf_setPull_cases hm with ⟨-, hp⟩ | ⟨-, hsame⟩
    · exact hunmarked read held hp.symm
    · exact h.unmarked c' read held hsame

/-- A pull that has published reads nothing. -/
theorem Inner.setPublished (h : Inner stream s) {c : Caller} {p : Pull} (hp : Published p) :
    Inner stream (s.setPull c p) := by
  refine h.setPull (fun r hr => ?_) (fun read held hm => ?_)
  · rw [hr] at hp
    exact hp.elim
  · rw [hm] at hp
    exact hp.elim

/-- The bytes of an answer are published in place. -/
theorem Inner.advanced (h : Inner stream s) {o : ℕ} {read : TtyWireRead}
    (hanswers : Answers stream o (Base64.decode read.data) read.nextOffset false)
    (hnext : read.nextOffset ≤ stream.length)
    (hplace : o = s.offset ∨ s.finished = true ∧ s.offset ≤ read.nextOffset) :
    Inner stream (TtySteps.advanced s read) := by
  have hforward : s.offset ≤ read.nextOffset := by
    rcases hplace with rfl | ⟨-, hle⟩
    · exact Nat.le_trans (Nat.le_add_right _ _) hanswers.fits
    · exact hle
  refine ⟨fun c r hr => Nat.le_trans (h.asked c r hr) hforward, h.unmarked, ?_, ?_, ?_, ?_, ?_⟩
  · show (s.books.offsets ++ [read.nextOffset]).Pairwise (· ≤ ·)
    rw [List.pairwise_append]
    refine ⟨h.forward, List.pairwise_singleton _ _, fun a ha b hb => ?_⟩
    rw [List.mem_singleton.mp hb]
    exact Nat.le_trans (h.latest.2 a ha) hforward
  · refine ⟨List.mem_append_right _ (List.mem_singleton_self _), fun a ha => ?_⟩
    rcases List.mem_append.mp ha with hold | hnew
    · exact Nat.le_trans (h.latest.2 a hold) hforward
    · exact Nat.le_of_eq (List.mem_singleton.mp hnew)
  · intro hopen
    have hf : s.finished = false := hopen
    obtain rfl : o = s.offset := hplace.resolve_right fun hd => by simp [hf] at hd
    have hlen := hanswers.length_eq hnext
    have hstart : read.nextOffset - (read.nextOffset - s.offset) = 0 + s.offset := by omega
    have hend : s.offset + (read.nextOffset - s.offset) = read.nextOffset := by omega
    show s.books.published ++ (if s.finished = true then [] else _) = List.range read.nextOffset
    rw [if_neg (by rw [hf]; decide), h.places hf, hlen, hstart, List.range_eq_range',
      List.range'_append_1, hend, List.range_eq_range']
  · intro hopen
    have hf : s.finished = false := hopen
    obtain rfl : o = s.offset := hplace.resolve_right fun hd => by simp [hf] at hd
    have hsplit : stream.take read.nextOffset =
        stream.take s.offset ++ Base64.decode read.data := by
      rw [hanswers.exact rfl]
      have := List.take_append_drop s.offset (stream.take read.nextOffset)
      rwa [List.take_take, Nat.min_eq_left hforward, eq_comm] at this
    show Utf8.feed none (stream.take read.nextOffset) = (s.output ++ _, _)
    rw [hsplit, Utf8.feed_append, h.text hf, if_neg (by rw [hf]; decide)]
    rfl
  · intro hdone
    have hf : s.finished = true := hdone
    show (s.books.published ++ (if s.finished = true then [] else _)).Pairwise _ ∧
      s.output ++ (if s.finished = true then [] else _) <+: _
    rw [if_pos hf, if_pos hf, List.append_nil, List.append_nil]
    exact h.finished hf

/-! ### The ends of the two tasks -/

/-- What a step that publishes nothing does: it leaves alone what was read and published, or
it finishes the handle. -/
def Ends (s : Tty) (e : Event) (t : Tty) : Prop :=
  Alike s t ∨ finishes s e ∧ ∃ outcome, Alike (finish s outcome) t

/-- The loop goes on, stops, or finishes the handle. -/
theorem followOn_ends (room : Bool) {result : Option (Option TtyOutcome)}
    (hpull : s.follow = some (.returned result)) :
    Ends s (.resume .follow room) (followOn s result) := by
  unfold followOn Ends finishes
  rw [hpull]
  cases result with
  | none => exact .inr ⟨trivial, _, rfl, rfl, rfl, rfl, rfl, rfl, rfl⟩
  | some ended =>
    simp only
    split_ifs with hover
    · exact .inl ⟨rfl, rfl, rfl, rfl, rfl, rfl, rfl⟩
    · rw [not_or, Bool.not_eq_true, Bool.not_eq_true] at hover
      cases ended with
      | none => exact .inl ⟨rfl, rfl, rfl, rfl, rfl, rfl, rfl⟩
      | some facts =>
        refine .inr ⟨hover.2, facts, rfl, rfl, rfl, rfl, ?_, ?_, ?_⟩ <;> rw [finish_books]

/-- The teardown asks for the exit facts, or finishes the handle. -/
theorem teardownOn_ends (room : Bool) {result : Option (Option TtyOutcome)}
    (hpull : s.stopping = some (.pulling (.returned result))) :
    Ends s (.resume .teardown room) (teardownOn s result) := by
  unfold teardownOn Ends finishes
  rw [hpull]
  rcases result with _ | _ | facts
  · exact .inl ⟨rfl, rfl, rfl, rfl, rfl, rfl, rfl⟩
  · exact .inl ⟨rfl, rfl, rfl, rfl, rfl, rfl, rfl⟩
  · exact .inr ⟨trivial, facts, rfl, rfl, rfl, rfl, rfl, rfl, rfl⟩

/-- Such a step neither begins nor ends what is said of publishing. -/
theorem Ends.lossy {e : Event} (h : Ends s e t) : t.books.lossy = s.books.lossy := by
  rcases h with halike | ⟨-, outcome, halike⟩
  · exact halike.lossy
  · rw [halike.lossy, finish_books]

/-- Such a step in place keeps the invariant. -/
theorem Inner.ends {e : Event} (h : Inner stream s) (hends : Ends s e t)
    (hplace : finishes s e → s.finished = false →
      Utf8.flush s.decoder <+: Utf8.decodeFrom s.decoder (stream.drop s.offset))
    (hpulls : ∀ c p, t.pullOf c = some p → s.pullOf c = some p ∨ p = .reading ⟨s.offset, .asked⟩) :
    Inner stream t := by
  have hasked : ∀ c r, t.pullOf c = some (.reading r) → r.fromByte ≤ s.offset := by
    intro c r hr
    rcases hpulls c _ hr with hsame | hnew
    · exact h.asked c r hsame
    · cases hnew
      exact Nat.le_refl _
  have hunmarked : ∀ c read held, t.pullOf c ≠ some (.marking read held) := by
    intro c read held hm
    rcases hpulls c _ hm with hsame | hnew
    · exact h.unmarked c read held hsame
    · cases hnew
  rcases hends with halike | ⟨hfinishes, outcome, halike⟩
  · exact h.alike halike hasked hunmarked
  · refine (h.finish outcome (hplace hfinishes)).alike halike (fun c r hr => ?_) hunmarked
    rw [finish_offset]
    exact hasked c r hr

/-! ### Steps -/

/-- The invariant along every run; what is said of publishing ends with the first loss. -/
def Invariant (stream : Bytes) (s : Tty) : Prop :=
  Sound stream s ∧ (s.books.lossy = false → Inner stream s)

/-- A call of `terminate` leaves alone what was read and published. -/
theorem terminate_alike (s : Tty) : Alike s (terminate s) := by
  unfold terminate
  split_ifs <;> exact ⟨rfl, rfl, rfl, rfl, rfl, rfl, rfl⟩

/-- A step in place keeps the invariant. -/
theorem invariant_step {e : Event} (h : Invariant stream s) (hplace : InPlace stream s e)
    (hstep : step stream s e = some t) : Invariant stream t := by
  refine ⟨sound_step h.1 hstep, ?_⟩
  cases step_effect hstep with
  | session hmoves =>
    intro hlossy
    have hinner := h.2 hlossy
    exact hinner.alike ⟨rfl, rfl, rfl, rfl, rfl, rfl, rfl⟩ hinner.asked hinner.unmarked
  | @served _ caller r r' hpull hserved =>
    intro hlossy
    rw [setPull_books] at hlossy
    have hinner := h.2 hlossy
    refine hinner.setPull (fun r'' hr => ?_) (fun read held hm => by cases hm)
    cases hr
    have hfrom : r'.fromByte = r.fromByte := by cases hserved <;> rfl
    rw [hfrom]
    exact hinner.asked caller r hpull
  | @answered caller room o read pull hpull hanswer hpublished hparked =>
    intro hlossy
    rw [setPull_books] at hlossy
    have hadvanced := (h.2 hlossy).advanced (exact_of h.1 hpull hanswer) (answer_le h.1 hpull)
      ((hplace hlossy).1 caller room o read rfl hpull hanswer)
    exact hadvanced.setPublished hpublished
  | lossy hpull hanswer =>
    intro hlossy
    rw [setPull_books] at hlossy
    cases hlossy
  | @marked caller room read pull hpull hpublished hparked =>
    intro hlossy
    rw [setPull_books] at hlossy
    exact absurd hpull ((h.2 hlossy).unmarked caller read false)
  | failed hpull =>
    intro hlossy
    rw [setPull_books] at hlossy
    exact (h.2 hlossy).setPublished trivial
  | published hpull =>
    intro hlossy
    rw [setPull_books] at hlossy
    exact (h.2 hlossy).setPublished trivial
  | @followOn room result hpull =>
    have hends := followOn_ends room hpull
    intro hlossy
    rw [hends.lossy] at hlossy
    exact (h.2 hlossy).ends hends (hplace hlossy).2 fun c p hp => followOn_pullOf hp
  | @teardownOn room result hpull =>
    have hends := teardownOn_ends room hpull
    intro hlossy
    rw [hends.lossy] at hlossy
    exact (h.2 hlossy).ends hends (hplace hlossy).2 fun c p hp => .inl (teardownOn_pullOf hp)
  | drain hopen =>
    intro hlossy
    have hinner := h.2 hlossy
    refine hinner.alike ⟨rfl, rfl, rfl, rfl, rfl, rfl, rfl⟩ (fun c r hr => ?_)
      (fun c read held hm => ?_)
    · obtain ⟨p, hp, hdrained⟩ := pullOf_drained hr
      cases p <;> cases hdrained
      exact hinner.asked c r hp
    · obtain ⟨p, hp, hdrained⟩ := pullOf_drained hm
      cases p <;> cases hdrained
      exact hinner.unmarked c read _ hp
  | terminate =>
    have halike := terminate_alike s
    intro hlossy
    rw [halike.lossy] at hlossy
    exact (h.2 hlossy).ends (.inl halike) (hplace hlossy).2 fun c p hp => .inl (terminate_pullOf hp)
  | refused hstopping =>
    intro hlossy
    exact (h.2 hlossy).ends (.inl ⟨rfl, rfl, rfl, rfl, rfl, rfl, rfl⟩) (hplace hlossy).2
      fun c p hp => .inl (settled_pullOf hp)
  | terminated hstopping =>
    intro hlossy
    exact (h.2 hlossy).ends (.inl ⟨rfl, rfl, rfl, rfl, rfl, rfl, rfl⟩) (hplace hlossy).2
      fun c p hp => terminated_pullOf hp
  | @told refused facts hstopping =>
    have hends : Ends s (.told refused)
        { finish s facts with stopping := some (.settled false) } :=
      .inr ⟨hstopping, facts, rfl, rfl, rfl, rfl, rfl, rfl, rfl⟩
    intro hlossy
    rw [hends.lossy] at hlossy
    refine (h.2 hlossy).ends hends (hplace hlossy).2 fun c p hp => ?_
    have hsame := settled_pullOf hp
    rw [finish_pullOf] at hsame
    exact .inl hsame

/-! ### Steps out of place -/

/-- Taking an answer that is not lossy publishes its bytes. -/
theorem resume_answered {c : Caller} {room : Bool} {o : ℕ} {read : TtyWireRead}
    (hpull : s.pullOf c = some (.reading ⟨o, .answered read⟩)) (hlossy : read.lossy = false)
    (hstep : step stream s (.resume c room) = some t) :
    ∃ pull, t = (advanced s read).setPull c pull := by
  have hresume : resume s c room = some (advance s c read room) := by
    unfold resume
    rw [hpull]
    simp [received, hlossy]
  obtain ⟨pull, heq, -⟩ := advance_eq s c read room
  have ht : some (advance s c read room) = some t := hresume.symm.trans hstep
  rw [Option.some.injEq] at ht
  exact ⟨pull, ht ▸ heq⟩

/-- An answer that is taken out of place moves the offset back or publishes a byte again. -/
theorem answered_inPlace (h : Inner stream s) {c : Caller} {o : ℕ} {read : TtyWireRead}
    {pull : Pull} (hpull : s.pullOf c = some (.reading ⟨o, .answered read⟩))
    (hanswers : Answers stream o (Base64.decode read.data) read.nextOffset false)
    (hnext : read.nextOffset ≤ stream.length)
    (horder : InOrder stream ((advanced s read).setPull c pull)) :
    o = s.offset ∨ s.finished = true ∧ s.offset ≤ read.nextOffset := by
  have hforward : (s.books.offsets ++ [read.nextOffset]).Pairwise (· ≤ ·) := by
    have h' := horder.forward
    rwa [setPull_books] at h'
  have hle : s.offset ≤ read.nextOffset :=
    (List.pairwise_append.mp hforward).2.2 _ h.latest.1 _ (List.mem_singleton_self _)
  cases hf : s.finished with
  | true => exact .inr ⟨rfl, hle⟩
  | false =>
    left
    by_contra hne
    have hasked : o ≤ s.offset := h.asked c _ hpull
    have hlen := hanswers.length_eq hnext
    have honce := horder.once
    rw [setPull_books] at honce
    have hpublished : (advanced s read).books.published = List.range s.offset ++
        List.range' (read.nextOffset - (read.nextOffset - o)) (read.nextOffset - o) := by
      rw [← hlen, ← h.places hf]
      show _ ++ (if s.finished = true then [] else _) = _
      rw [if_neg (by rw [hf]; decide)]
    -- the first byte of the answer was published before
    have hold : o ∈ List.range s.offset := List.mem_range.mpr (by omega)
    have hnew : o ∈ List.range' (read.nextOffset - (read.nextOffset - o)) (read.nextOffset - o) :=
      List.mem_range'_1.mpr (by omega)
    rw [hpublished] at honce
    exact Nat.lt_irrefl o ((List.pairwise_append.mp honce).2.2 o hold o hnew)

/-- A step that finishes the handle writes what stands for a character that was started. -/
theorem finishes_output {e : Event} (hfinishes : finishes s e) (hopen : s.finished = false)
    (hstep : step stream s e = some t) :
    ∃ outcome, t.output = (finish s outcome).output ∧ t.books.lossy = s.books.lossy := by
  unfold finishes at hfinishes
  split at hfinishes
  · rename_i room
    split at hfinishes
    · rename_i hpull
      have ht : some (followOn s none) = some t := by
        rw [← hstep, step, resume, Tty.pullOf, hpull]
      cases ht
      exact ⟨_, rfl, by simp only [followOn, finish_books]⟩
    · rename_i facts hpull
      have ht : some (followOn s (some (some facts))) = some t := by
        rw [← hstep, step, resume, Tty.pullOf, hpull]
      have hgo : ¬ (s.finished = true ∨ s.releasing = true) := by simp [hopen, hfinishes]
      rw [followOn, if_neg hgo, Option.some.injEq] at ht
      exact ⟨facts, ht ▸ rfl, ht ▸ rfl⟩
    · exact hfinishes.elim
  · rename_i room
    split at hfinishes
    · rename_i facts hpull
      have ht : some (teardownOn s (some (some facts))) = some t := by
        rw [← hstep, step, resume, Tty.pullOf, hpull]
      cases ht
      exact ⟨facts, rfl, by simp only [teardownOn, Option.join_some, finish_books]⟩
    · exact hfinishes.elim
  · rename_i refused
    simp only [step, if_pos hfinishes, Option.some.injEq] at hstep
    subst hstep
    exact ⟨_, rfl, by rw [finish_books]⟩
  · exact hfinishes.elim

/-- A step out of place loses the property. -/
theorem inPlace_of_inOrder {e : Event} (h : Invariant stream s)
    (hstep : step stream s e = some t)
    (horder : t.books.lossy = false → InOrder stream t) : InPlace stream s e := by
  intro hlossy
  have hinner := h.2 hlossy
  refine ⟨fun c room o read he hpull hanswer => ?_, fun hfinishes hopen => ?_⟩
  · subst he
    obtain ⟨pull, rfl⟩ := resume_answered hpull hanswer hstep
    rw [setPull_books] at horder
    exact answered_inPlace hinner hpull (exact_of h.1 hpull hanswer) (answer_le h.1 hpull)
      (horder hlossy)
  · obtain ⟨outcome, houtput, hsame⟩ := finishes_output hfinishes hopen hstep
    have htext := (horder (hsame.trans hlossy)).text
    rw [houtput] at htext
    exact (hinner.output_finish_iff hopen outcome).mp htext

/-- A terminal that was just spawned has published nothing. -/
theorem invariant_spawned (stream : Bytes) : Invariant stream Tty.spawned := by
  refine ⟨sound_spawned stream, fun _ => ⟨fun c r hr => ?_, fun c read held hm => ?_, ?_, ?_,
    fun _ => rfl, fun _ => rfl, fun hf => by cases hf⟩⟩
  · cases c with
    | follow =>
      cases hr
      exact Nat.le_refl _
    | teardown => cases hr
  · cases c <;> cases hm
  · exact List.pairwise_singleton _ _
  · exact ⟨List.mem_singleton_self _, fun o ho => Nat.le_of_eq (List.mem_singleton.mp ho)⟩

/-- In every run, the text written to the output is the beginning of what the stream decodes
to, no byte is published twice or out of order and the offset never moves backwards, up to the
first read that is lossy, exactly when every read is taken in place and the handle is finished
in place. -/
theorem published_once (stream : Bytes) (es : List Event) :
    (machine stream).Always (fun s => s.books.lossy = false → InOrder stream s)
        (machine stream).init es ↔
      (machine stream).Each (InPlace stream) (machine stream).init es := by
  refine Machine.always_iff_each (I := Invariant stream) (fun s h hlossy => ?_)
    (fun s e t h hplace hstep => invariant_step h hplace hstep) (fun s e t h hout hstep horder => ?_)
    (invariant_spawned stream) es
  · exact (h.2 hlossy).inOrder
  · exact hout (inPlace_of_inOrder h hstep horder)

/-- The loop waits for `hi`, the terminal is released, and the last pull asks from the same
offset before that answer was taken. -/
def overlapping : List Event :=
  [.terminate, .terminated false, .masterRead 2, .push, .look .follow, .respond .follow false,
    .look .teardown, .respond .teardown false, .resume .follow true, .resume .teardown true]

/-- Both answers are published. -/
theorem published_twice : ¬ ∀ (stream : Bytes) (s : Tty), (machine stream).Reachable s →
    s.books.lossy = false → InOrder stream s := by
  intro h
  have hrun : ((machine [104, 105]).run overlapping).isSome = true := by decide +kernel
  have honce := (h _ _ (Machine.reachable_get overlapping hrun) (by decide +kernel +revert)).once
  revert honce
  decide +kernel +revert

end RemoteWorkspace.Analysis.PublishedOnce
