import RemoteWorkspace.Analysis.TtySteps

/-!
# The output behind the exit facts

The reaper sets the exit facts without waiting for the thread that drains the master, and the
loop settles the handle on the first answer that carries them. So the handle has all of the
output, or a notice of what was lost, exactly when that answer was read from the window after
the reader had pushed the last byte: the loop's offset is then the end of the stream.
-/

set_option autoImplicit false

namespace RemoteWorkspace.Analysis.LastOutput

open RemoteWorkspace.Computation RemoteWorkspace.Model RemoteWorkspace.Model.RemoteTty
open TerminalRegistry (TtyOutcome)
open TtySteps

variable {stream : Bytes} {s t : Tty}

/-- A place in the stream that was published or reported as lost. -/
def Told (s : Tty) (i : ℕ) : Prop := i ∈ s.books.published ∨ i ∈ s.books.lost

instance (s : Tty) (i : ℕ) : Decidable (Told s i) := inferInstanceAs (Decidable (_ ∨ _))

/-- A loop that has settled the handle with exit facts has told all of the stream. -/
def ExitTells (stream : Bytes) (s : Tty) : Prop :=
  s.books.exited = true → ∀ i < stream.length, Told s i

/-- The loop settles the handle only when it has come to the end of the stream. -/
def SettlesAtEnd (stream : Bytes) (s : Tty) (e : Event) : Prop :=
  ∀ room facts, e = .resume .follow room → s.follow = some (.returned (some (some facts))) →
    s.finished = false → s.releasing = false → s.offset = stream.length

/-! ### The loop on its own -/

/-- How far the stream was told. -/
def reached (s : Tty) : ℕ :=
  match s.follow with
  | some (.marking read _) => read.nextOffset - (Base64.decode read.data).length
  | _ => s.offset

/-- Before the handle is released or finished, only the loop reads, and it tells the stream
place by place. -/
structure Alone (s : Tty) : Prop where
  stopping : s.stopping = none
  asked : ∀ r, s.follow = some (.reading r) → r.fromByte = s.offset
  marked : ∀ read held, s.follow = some (.marking read held) →
    s.offset + (Base64.decode read.data).length ≤ read.nextOffset
  told : ∀ i, Told s i ↔ i < reached s

/-- What holds along every run. -/
structure Invariant (stream : Bytes) (s : Tty) : Prop where
  sound : Sound stream s
  alone : s.finished = false → s.releasing = false → Alone s
  tells : ExitTells stream s

/-- Only the loop pulls. -/
theorem Alone.caller (h : Alone s) {c : Caller} {p : Pull} (hp : s.pullOf c = some p) :
    c = .follow ∧ s.follow = some p := by
  cases c with
  | follow => exact ⟨rfl, hp⟩
  | teardown =>
    have hstopping := pullOf_teardown hp
    rw [h.stopping] at hstopping
    cases hstopping

/-- The loop's pull is at a stage where it neither reads nor reports. -/
theorem Alone.setPublished (h : Alone s) {p : Pull} (hp : Published p) (hold : reached s = s.offset) :
    Alone (s.setPull .follow p) := by
  have hreached : reached (s.setPull .follow p) = s.offset := by
    cases p with
    | publishing outcome held => rfl
    | returned result => rfl
    | reading r => exact hp.elim
    | marking read held => exact hp.elim
  refine ⟨h.stopping, fun r hr => ?_, fun read held hm => ?_, fun i => ?_⟩
  · cases hr
    exact hp.elim
  · cases hm
    exact hp.elim
  · rw [hreached, ← hold]
    exact h.told i

/-- The bytes of an answer are told. -/
theorem Alone.advanced (h : Alone s) (hopen : s.finished = false) {read : TtyWireRead} {p : Pull}
    (hp : Published p) (hfits : (Base64.decode read.data).length ≤ read.nextOffset)
    (hreached : reached s = read.nextOffset - (Base64.decode read.data).length) :
    Alone ((TtySteps.advanced s read).setPull .follow p) := by
  have hnow : reached ((TtySteps.advanced s read).setPull .follow p) = read.nextOffset := by
    cases p with
    | publishing outcome held => rfl
    | returned result => rfl
    | reading r => exact hp.elim
    | marking read held => exact hp.elim
  refine ⟨h.stopping, fun r hr => ?_, fun read held hm => ?_, fun i => ?_⟩
  · cases hr
    exact hp.elim
  · cases hm
    exact hp.elim
  · have hpublished : (TtySteps.advanced s read).books.published = s.books.published ++
        List.range' (read.nextOffset - (Base64.decode read.data).length)
          (Base64.decode read.data).length := by
      show _ ++ (if s.finished = true then [] else _) = _
      rw [if_neg (by rw [hopen]; decide)]
    have hbefore := h.told i
    rw [hnow, Told, setPull_books, hpublished, List.mem_append, List.mem_range'_1]
    rw [Told, hreached] at hbefore
    show (_ ∨ _) ∨ i ∈ s.books.lost ↔ _
    rw [or_right_comm, hbefore]
    omega

/-- A loss is told. -/
theorem Alone.reported (h : Alone s) (hopen : s.finished = false) {read : TtyWireRead}
    {held : Bool} (hfits : s.offset + (Base64.decode read.data).length ≤ read.nextOffset)
    (hreached : reached s = s.offset) :
    Alone ((TtySteps.reported s read).setPull .follow (.marking read held)) := by
  refine ⟨h.stopping, fun r hr => (by cases hr), fun read' held' hm => ?_, fun i => ?_⟩
  · cases hm
    exact hfits
  · have hlost : (TtySteps.reported s read).books.lost = s.books.lost ++ List.range' s.offset
        (read.nextOffset - (Base64.decode read.data).length - s.offset) := by
      show _ ++ (if s.finished = true then [] else _) = _
      rw [if_neg (by rw [hopen]; decide)]
    have hbefore := h.told i
    rw [Told, setPull_books, hlost, List.mem_append, List.mem_range'_1]
    rw [Told, hreached] at hbefore
    show i ∈ s.books.published ∨ _ ∨ _ ↔ i < read.nextOffset - (Base64.decode read.data).length
    rw [← or_assoc, hbefore]
    omega

/-! ### Steps -/

/-- What was told stays told. -/
theorem told_step {e : Event} (hstep : step stream s e = some t) {i : ℕ} (h : Told s i) :
    Told t i := by
  have hsame : t.books.published = s.books.published → t.books.lost = s.books.lost → Told t i := by
    intro hp hl
    rw [Told, hp, hl]
    exact h
  cases step_effect hstep with
  | session hmoves => exact h
  | served hpull hserved => exact hsame (by rw [setPull_books]) (by rw [setPull_books])
  | answered hpull hanswer hpublished hparked =>
    rw [Told, setPull_books]
    exact h.imp_left (List.mem_append_left _)
  | lossy hpull hanswer =>
    rw [Told, setPull_books]
    exact h.imp_right (List.mem_append_left _)
  | marked hpull hpublished hparked =>
    rw [Told, setPull_books]
    exact h.imp_left (List.mem_append_left _)
  | failed hpull => exact hsame (by rw [setPull_books]) (by rw [setPull_books])
  | published hpull => exact hsame (by rw [setPull_books]) (by rw [setPull_books])
  | @followOn room result hpull =>
    obtain ⟨exited, hbooks, -⟩ := followOn_books s result
    exact hsame (by rw [hbooks]) (by rw [hbooks])
  | teardownOn hpull => exact hsame (by rw [teardownOn_books]) (by rw [teardownOn_books])
  | drain hopen => exact h
  | terminate => exact hsame (by rw [terminate_books]) (by rw [terminate_books])
  | refused hstopping => exact h
  | terminated hstopping => exact h
  | told facts hstopping => exact hsame (by rw [finish_books]) (by rw [finish_books])

/-- The handle settles with exit facts only when its loop does. -/
theorem exited_step {e : Event} (hstep : step stream s e = some t) (h : t.books.exited = true) :
    s.books.exited = true ∨ ∃ room facts, e = .resume .follow room ∧
      s.follow = some (.returned (some (some facts))) ∧ s.finished = false ∧
        s.releasing = false := by
  cases step_effect hstep with
  | session hmoves => exact .inl h
  | served hpull hserved => exact .inl (by rwa [setPull_books] at h)
  | answered hpull hanswer hpublished hparked => exact .inl (by rwa [setPull_books] at h)
  | lossy hpull hanswer => exact .inl (by rwa [setPull_books] at h)
  | marked hpull hpublished hparked => exact .inl (by rwa [setPull_books] at h)
  | failed hpull => exact .inl (by rwa [setPull_books] at h)
  | published hpull => exact .inl (by rwa [setPull_books] at h)
  | @followOn room result hpull =>
    obtain ⟨exited, hbooks, hexited⟩ := followOn_books s result
    rw [hbooks] at h
    rcases hexited h with hold | ⟨facts, rfl, hopen⟩
    · exact .inl hold
    · exact .inr ⟨room, facts, rfl, hpull, hopen⟩
  | teardownOn hpull => exact .inl (by rwa [teardownOn_books] at h)
  | drain hopen => exact .inl h
  | terminate => exact .inl (by rwa [terminate_books] at h)
  | refused hstopping => exact .inl h
  | terminated hstopping => exact .inl h
  | told facts hstopping => exact .inl (by rwa [finish_books] at h)

/-- The loop stays on its own until the handle is released or finished. -/
theorem alone_step {e : Event} (hsound : Sound stream s)
    (halone : s.finished = false → s.releasing = false → Alone s)
    (hstep : step stream s e = some t) (hopen : t.finished = false)
    (hkept : t.releasing = false) : Alone t := by
  cases step_effect hstep with
  | session hmoves =>
    have h := halone hopen hkept
    exact ⟨h.stopping, h.asked, h.marked, h.told⟩
  | @served _ caller r r' hpull hserved =>
    rw [setPull_finished] at hopen
    rw [setPull_releasing] at hkept
    have h := halone hopen hkept
    obtain ⟨rfl, hfollow⟩ := h.caller hpull
    have hfrom : r'.fromByte = r.fromByte := by cases hserved <;> rfl
    have hreached : reached s = s.offset := by rw [reached, hfollow]
    refine ⟨h.stopping, fun r'' hr => ?_, fun read held hm => (by cases hm), fun i => ?_⟩
    · cases hr
      exact hfrom.trans (h.asked r hfollow)
    · have htold := h.told i
      rw [hreached] at htold
      exact htold
  | @answered caller room o read pull hpull hanswer hpublished hparked =>
    rw [setPull_finished] at hopen
    rw [setPull_releasing] at hkept
    have h := halone hopen hkept
    obtain ⟨rfl, hfollow⟩ := h.caller hpull
    have hfrom : o = s.offset := h.asked _ hfollow
    have hanswers := exact_of hsound hpull hanswer
    have hlen := hanswers.length_eq (answer_le hsound hpull)
    have hfits := hanswers.fits
    refine h.advanced hopen hpublished (by omega) ?_
    rw [reached, hfollow]
    show s.offset = _
    omega
  | @lossy caller room o read hpull hanswer =>
    rw [setPull_finished] at hopen
    rw [setPull_releasing] at hkept
    have h := halone hopen hkept
    obtain ⟨rfl, hfollow⟩ := h.caller hpull
    have hfrom : o = s.offset := h.asked _ hfollow
    have hfits := (answers_of hsound hpull).fits
    refine h.reported hopen (by omega) ?_
    rw [reached, hfollow]
  | @marked caller room read pull hpull hpublished hparked =>
    rw [setPull_finished] at hopen
    rw [setPull_releasing] at hkept
    have h := halone hopen hkept
    obtain ⟨rfl, hfollow⟩ := h.caller hpull
    have hfits := h.marked read false hfollow
    refine h.advanced hopen hpublished (by omega) ?_
    rw [reached, hfollow]
  | @failed caller room o hpull =>
    rw [setPull_finished] at hopen
    rw [setPull_releasing] at hkept
    have h := halone hopen hkept
    obtain ⟨rfl, hfollow⟩ := h.caller hpull
    exact h.setPublished trivial (by rw [reached, hfollow])
  | @published caller room outcome hpull =>
    rw [setPull_finished] at hopen
    rw [setPull_releasing] at hkept
    have h := halone hopen hkept
    obtain ⟨rfl, hfollow⟩ := h.caller hpull
    exact h.setPublished trivial (by rw [reached, hfollow])
  | @followOn room result hpull =>
    obtain ⟨hf, hr, heq⟩ := followOn_open hopen hkept
    have h := halone hf hr
    rw [heq]
    refine ⟨h.stopping, fun r hask => ?_, fun read held hm => (by cases hm), fun i => ?_⟩
    · cases hask
      rfl
    · have htold := h.told i
      rw [reached, hpull] at htold
      exact htold
  | @teardownOn room result hpull =>
    have hopen' : s.finished = false := teardownOn_open hopen
    have hkept' : s.releasing = false := (teardownOn_releasing s result).symm.trans hkept
    exact absurd ((halone hopen' hkept').stopping.symm.trans hpull) (by simp)
  | drain hnot =>
    have h := halone hopen hkept
    refine ⟨by rw [h.stopping]; rfl, fun r hr => ?_, fun read held hm => ?_, fun i => ?_⟩
    · obtain ⟨p, hp, hdrained⟩ := Option.map_eq_some_iff.mp hr
      cases p <;> cases hdrained
      exact h.asked r hp
    · obtain ⟨p, hp, hdrained⟩ := Option.map_eq_some_iff.mp hm
      cases p <;> cases hdrained
      exact h.marked read _ hp
    · have hreached : reached { s with
          follow := s.follow.map Pull.drained
          stopping := s.stopping.map Teardown.drained } = reached s := by
        unfold reached
        cases s.follow with
        | none => rfl
        | some p => cases p <;> rfl
      rw [hreached]
      exact h.told i
  | terminate =>
    -- an open handle is being released from its first `terminate` on
    obtain ⟨hopen', hstopping, hsame⟩ := terminate_open hopen hkept
    rw [hsame] at hkept
    exact absurd (halone hopen' hkept).stopping hstopping
  | refused hstopping =>
    exact absurd ((halone hopen hkept).stopping.symm.trans hstopping) (by simp)
  | terminated hstopping =>
    exact absurd ((halone hopen hkept).stopping.symm.trans hstopping) (by simp)
  | told facts hstopping =>
    rw [finish_finished] at hopen
    cases hopen

/-- A step at which the loop settles at the end of the stream, or does not settle, keeps the
invariant. -/
theorem invariant_step {e : Event} (h : Invariant stream s) (hend : SettlesAtEnd stream s e)
    (hstep : step stream s e = some t) : Invariant stream t := by
  refine ⟨sound_step h.sound hstep, alone_step h.sound h.alone hstep, fun hexited i hi => ?_⟩
  rcases exited_step hstep hexited with hold | ⟨room, facts, rfl, hfollow, hopen, hkept⟩
  · exact told_step hstep (h.tells hold i hi)
  · have hoffset := hend room facts rfl hfollow hopen hkept
    have htold := ((h.alone hopen hkept).told i).mpr
    rw [reached, hfollow] at htold
    exact told_step hstep (htold (by rw [hoffset]; exact hi))

/-- A loop that settles the handle has told nothing past its offset. -/
theorem settlesAtEnd_of_tells {e : Event} (h : Invariant stream s)
    (hstep : step stream s e = some t) (htells : ExitTells stream t) :
    SettlesAtEnd stream s e := by
  intro room facts he hfollow hopen hkept
  subst he
  have halone := h.alone hopen hkept
  have ht : some (followOn s (some (some facts))) = some t := by
    rw [← hstep, step, resume, Tty.pullOf, hfollow]
  have hgo : ¬ (s.finished = true ∨ s.releasing = true) := by simp [hopen, hkept]
  rw [followOn, if_neg hgo, Option.some.injEq] at ht
  subst ht
  have hle : s.offset ≤ stream.length :=
    Nat.le_trans h.sound.offset_le (Nat.le_trans h.sound.pushed_le h.sound.taken_le)
  by_contra hne
  have htold : Told s s.offset := htells rfl s.offset (by omega)
  have hlt := (halone.told s.offset).mp htold
  rw [reached, hfollow] at hlt
  exact Nat.lt_irrefl _ hlt

/-- A terminal that was just spawned has told nothing. -/
theorem invariant_spawned (stream : Bytes) : Invariant stream Tty.spawned := by
  refine ⟨sound_spawned stream, fun _ _ => ⟨rfl, fun r hr => ?_, fun read held hm => ?_,
    fun i => ?_⟩, fun hexited => by cases hexited⟩
  · cases hr
    rfl
  · cases hm
  · simp [Told, Tty.spawned, reached]

/-- In every run, a handle that the loop settled with exit facts has all of the stream in its
output or in the notices of what was lost, exactly when the answer the loop settled on was
read from the window after the last byte had been pushed. -/
theorem exit_carries_output (stream : Bytes) (es : List Event) :
    (machine stream).Always (ExitTells stream) (machine stream).init es ↔
      (machine stream).Each (SettlesAtEnd stream) (machine stream).init es :=
  Machine.always_iff_each (I := Invariant stream) (fun _ h => h.tells)
    (fun _ _ _ h hend hstep => invariant_step h hend hstep)
    (fun _ _ _ h hout hstep htells => hout (settlesAtEnd_of_tells h hstep htells))
    (invariant_spawned stream) es

/-- The child writes `hi` and exits, and it is reaped before the reader has pushed that. -/
def reapedFirst : List Event :=
  [.reap ⟨some 0, none⟩, .look .follow, .respond .follow false, .resume .follow true,
    .resume .follow true, .masterRead 2, .push]

/-- The handle has settled without the child's output. -/
theorem exit_before_output : ¬ ∀ (stream : Bytes) (s : Tty), (machine stream).Reachable s →
    ExitTells stream s := by
  intro h
  have hrun : ((machine [104, 105]).run reapedFirst).isSome = true := by decide +kernel
  have htells := h _ _ (Machine.reachable_get reapedFirst hrun) (by decide +kernel +revert) 0
    (by decide)
  revert htells
  decide +kernel +revert

end RemoteWorkspace.Analysis.LastOutput
