import RemoteWorkspace.Analysis.TtySteps

/-!
# Settling a released terminal

Once every request is answered and nothing is left to run, a terminal that was released has
settled as long as somebody owed that until the end: the loop, when its read fails, or the
teardown. The loop gives up as soon as the handle is being released, so a refused
`term.terminate` leaves nobody; and a teardown that waits for an output that nobody reads
never comes to settle anything. From either of these a run leads to such a state.
-/

set_option autoImplicit false

namespace RemoteWorkspace.Analysis.ReleasedSettles

open RemoteWorkspace.Computation RemoteWorkspace.Model RemoteWorkspace.Model.RemoteTty
open TerminalRegistry (TtyOutcome)
open TtySteps

variable {stream : Bytes} {s t : Tty}

/-- `terminate` was called, every request was answered, and no code is left to run. -/
structure Quiet (s : Tty) : Prop where
  called : s.stopping ≠ none
  terminated : s.stopping ≠ some .terminating
  told : s.stopping ≠ some .asking
  answered : ∀ c r, s.pullOf c = some (.reading r) →
    r.stage = .refused ∨ ∃ read, r.stage = .answered read
  still : ∀ c room, resume s c room = none

/-- The handle and the promise of `terminate` are settled when everything is quiet. -/
def Settles (s : Tty) : Prop :=
  Quiet s → s.done ≠ none ∧ ∃ refused, s.stopping = some (.settled refused)

/-- The read of the loop has failed, and the loop is about to finish the handle. -/
def failing : Option Pull → Bool
  | some (.reading ⟨_, .refused⟩) => true
  | some (.returned none) => true
  | _ => false

/-- The text that the next piece of the teardown publishes. -/
def lastText (s : Tty) : List Char :=
  match s.stopping with
  | some (.pulling (.reading ⟨_, .answered read⟩)) =>
    if read.lossy then noticeOf s read else textOf s read
  | some (.pulling (.marking read false)) => textOf s read
  | _ => []

/-- `term.terminate` is refused only when the handle has finished or its loop is about to, and
the teardown does not have to wait for the output. -/
def Owed (s : Tty) : Event → Prop
  | .terminated true => s.finished = true ∨ failing s.follow = true
  | .resume .teardown room => waits s (lastText s) room = false
  | _ => True

instance (s : Tty) (e : Event) : Decidable (Owed s e) := by
  unfold Owed
  split <;> infer_instance

/-- Draining neither fails a read nor answers one. -/
theorem failing_drained (follow : Option Pull) :
    failing (follow.map Pull.drained) = failing follow := by
  cases follow with
  | none => rfl
  | some p => cases p <;> rfl

/-! ### Settled handles -/

/-- A handle is done when it has finished, and is being released while its teardown runs. -/
structure Kept (s : Tty) : Prop where
  done : s.done.isSome = s.finished
  releasing : ∀ stopping, s.stopping = some stopping → stopping ≠ .settled false →
    s.releasing = true

theorem kept_finish (h : s.done.isSome = s.finished) (outcome : TtyOutcome) :
    (finish s outcome).done.isSome = (finish s outcome).finished := by
  unfold finish
  split
  · exact h
  · rfl

/-- A pull of the teardown is at another stage, or one of the loop. -/
theorem Kept.setPull (h : Kept s) {c : Caller} {p p' : Pull} (hp : s.pullOf c = some p) :
    Kept (s.setPull c p') := by
  refine ⟨by rw [setPull_done, setPull_finished]; exact h.done, fun stopping hs hne => ?_⟩
  rw [setPull_releasing]
  cases c with
  | follow => exact h.releasing stopping hs hne
  | teardown => exact h.releasing (.pulling p) (pullOf_teardown hp) (by simp)

theorem kept_spawned : Kept Tty.spawned := ⟨rfl, fun _ hs => by cases hs⟩

theorem kept_followOn (h : Kept s) (result : Option (Option TtyOutcome)) :
    (followOn s result).done.isSome = (followOn s result).finished := by
  unfold followOn
  split
  · exact kept_finish h.done _
  · split_ifs
    · exact h.done
    · split
      · exact h.done
      · exact kept_finish h.done _

theorem kept_teardownOn (h : Kept s) (result : Option (Option TtyOutcome)) :
    (teardownOn s result).done.isSome = (teardownOn s result).finished := by
  unfold teardownOn
  split
  · exact h.done
  · exact kept_finish h.done _

/-- Every step keeps this. -/
theorem kept_step {e : Event} (h : Kept s) (hstep : step stream s e = some t) : Kept t := by
  cases step_effect hstep with
  | session hmoves => exact ⟨h.done, h.releasing⟩
  | served hpull hserved => exact h.setPull hpull
  | @answered caller room o read pull hpull hanswer hpublished hparked =>
    have hsame : Kept (advanced s read) := ⟨h.done, h.releasing⟩
    exact hsame.setPull (p := .reading ⟨o, .answered read⟩) hpull
  | @lossy caller room o read hpull hanswer =>
    have hsame : Kept (reported s read) := ⟨h.done, h.releasing⟩
    exact hsame.setPull (p := .reading ⟨o, .answered read⟩) hpull
  | @marked caller room read pull hpull hpublished hparked =>
    have hsame : Kept (advanced s read) := ⟨h.done, h.releasing⟩
    exact hsame.setPull (p := .marking read false) hpull
  | failed hpull => exact h.setPull hpull
  | published hpull => exact h.setPull hpull
  | @followOn room result hpull =>
    refine ⟨kept_followOn h result, fun stopping hs hne => ?_⟩
    rw [followOn_stopping] at hs
    rw [followOn_releasing]
    exact h.releasing stopping hs hne
  | @teardownOn room result hpull =>
    have hreleasing := h.releasing _ hpull (by simp)
    exact ⟨kept_teardownOn h result, fun _ _ _ => by rwa [teardownOn_releasing]⟩
  | drain hopen =>
    refine ⟨h.done, fun stopping hs hne => ?_⟩
    obtain ⟨before, hbefore, rfl⟩ := Option.map_eq_some_iff.mp hs
    exact h.releasing before hbefore fun heq => hne (by rw [heq]; rfl)
  | terminate =>
    unfold RemoteTty.terminate
    split_ifs
    · exact h
    · exact ⟨h.done, fun stopping hs hne => absurd (Option.some.inj hs).symm hne⟩
    · exact ⟨h.done, fun _ _ _ => rfl⟩
  | refused hstopping =>
    exact ⟨h.done, fun _ _ _ => h.releasing .terminating hstopping (by simp)⟩
  | terminated hstopping =>
    exact ⟨h.done, fun _ _ _ => h.releasing .terminating hstopping (by simp)⟩
  | told facts hstopping =>
    refine ⟨kept_finish h.done facts, fun stopping hs hne => ?_⟩
    cases hs
    exact absurd rfl hne

theorem kept_of_reachable (hs : (machine stream).Reachable s) : Kept s := by
  refine hs.invariant kept_spawned fun s e t h _ hstep => ?_
  exact @kept_step stream s t e h hstep

/-! ### Somebody owes it -/

/-- While a handle is not settled its teardown runs, and once that was refused the loop is about
to settle it. -/
structure Owing (s : Tty) : Prop where
  free : ∀ p, s.stopping = some (.pulling p) → parked p = false
  settled : ∀ refused, s.stopping = some (.settled refused) →
    s.finished = true ∨ failing s.follow = true

/-- A finished handle stays finished. -/
theorem finished_step {e : Event} (hstep : step stream s e = some t) (h : s.finished = true) :
    t.finished = true := by
  cases step_effect hstep with
  | session hmoves => exact h
  | served hpull hserved => rwa [setPull_finished]
  | answered hpull hanswer hpublished hparked => rw [setPull_finished]; exact h
  | lossy hpull hanswer => rw [setPull_finished]; exact h
  | marked hpull hpublished hparked => rw [setPull_finished]; exact h
  | failed hpull => rwa [setPull_finished]
  | published hpull => rwa [setPull_finished]
  | @followOn room result hpull =>
    by_contra hopen
    rw [Bool.not_eq_true] at hopen
    exact absurd (h.symm.trans (followOn_finished hopen)) (by decide)
  | @teardownOn room result hpull =>
    by_contra hopen
    rw [Bool.not_eq_true] at hopen
    exact absurd (h.symm.trans (teardownOn_open hopen)) (by decide)
  | drain hopen => exact h
  | terminate => rwa [terminate_finished]
  | refused hstopping => exact h
  | terminated hstopping => exact h
  | told facts hstopping => exact finish_finished s facts

/-- A pull of the loop that does not fail does not settle anything. -/
theorem Owing.of_follow (h : Owing s) {p : Pull} (hfollow : s.follow = some p)
    (hnot : failing (some p) = false) (hfinished : s.finished = true → t.finished = true)
    (hstopping : t.stopping = s.stopping) : Owing t := by
  refine ⟨fun p hp => h.free p (hstopping ▸ hp), fun refused hs => .inl (hfinished ?_)⟩
  rcases h.settled refused (hstopping ▸ hs) with hf | hfailing
  · exact hf
  · rw [hfollow, hnot] at hfailing
    cases hfailing

/-- The teardown is at a pull that is not parked. -/
theorem owing_pulling {p : Pull} (hstopping : t.stopping = some (.pulling p))
    (hfree : parked p = false) : Owing t := by
  refine ⟨fun p' hp' => ?_, fun refused hs => ?_⟩
  · rw [hstopping] at hp'
    cases hp'
    exact hfree
  · rw [hstopping] at hs
    cases hs

/-- Every step at which nobody gives up keeps this. -/
theorem owing_step {e : Event} (h : Owing s) (howed : Owed s e)
    (hstep : step stream s e = some t) : Owing t := by
  have hfinished := finished_step hstep
  cases step_effect hstep with
  | session hmoves => exact ⟨h.free, h.settled⟩
  | @served _ caller r r' hpull hserved =>
    cases caller with
    | follow =>
      refine ⟨h.free, fun refused hs => ?_⟩
      rcases h.settled refused hs with hf | hfailing
      · exact .inl hf
      · have hfollow : s.follow = some (.reading r) := hpull
        rw [hfollow] at hfailing
        cases hserved with
        | look o => cases hfailing
        | respond o bytes next lossy expired => cases hfailing
        | refuse => exact .inr rfl
    | teardown => exact owing_pulling (setPull_teardown s _) rfl
  | @answered caller room o read pull hpull hanswer hpublished hparked =>
    cases caller with
    | follow => exact h.of_follow hpull rfl hfinished rfl
    | teardown =>
      refine owing_pulling (setPull_teardown _ _) ?_
      have hnow : lastText s = textOf s read := by
        rw [lastText, pullOf_teardown hpull]
        simp [hanswer]
      rw [hparked.1, ← hnow]
      exact howed
  | @lossy caller room o read hpull hanswer =>
    cases caller with
    | follow => exact h.of_follow hpull rfl hfinished rfl
    | teardown =>
      refine owing_pulling (setPull_teardown _ _) ?_
      have hnow : lastText s = noticeOf s read := by
        rw [lastText, pullOf_teardown hpull]
        simp [hanswer]
      rw [parked, ← hnow]
      exact howed
  | @marked caller room read pull hpull hpublished hparked =>
    cases caller with
    | follow => exact h.of_follow hpull rfl hfinished rfl
    | teardown =>
      refine owing_pulling (setPull_teardown _ _) ?_
      have hnow : lastText s = textOf s read := by rw [lastText, pullOf_teardown hpull]
      rw [hparked.1, ← hnow]
      exact howed
  | @failed caller room o hpull =>
    cases caller with
    | follow => exact ⟨h.free, fun refused hs => .inr rfl⟩
    | teardown => exact owing_pulling (setPull_teardown _ _) rfl
  | @published caller room outcome hpull =>
    cases caller with
    | follow => exact h.of_follow hpull rfl hfinished rfl
    | teardown => exact owing_pulling (setPull_teardown _ _) rfl
  | @followOn room result hpull =>
    cases result with
    | none =>
      refine ⟨fun p hp => h.free p ((followOn_stopping s none).symm.trans hp), fun _ _ => .inl ?_⟩
      exact finish_finished s _
    | some ended => exact h.of_follow hpull rfl hfinished (followOn_stopping ..)
  | @teardownOn room result hpull =>
    unfold RemoteTty.teardownOn
    split
    · exact ⟨fun p hp => (by cases hp), fun refused hs => (by cases hs)⟩
    · exact ⟨fun p hp => (by cases hp), fun _ _ => .inl (finish_finished s _)⟩
  | drain hopen =>
    refine ⟨fun p hp => ?_, fun refused hs => ?_⟩
    · obtain ⟨before, hbefore, hdrained⟩ := Option.map_eq_some_iff.mp hp
      cases before <;> cases hdrained
      rename_i last
      cases last <;> rfl
    · obtain ⟨before, hbefore, hdrained⟩ := Option.map_eq_some_iff.mp hs
      cases before <;> cases hdrained
      refine (h.settled refused hbefore).imp_right fun hfailing => ?_
      rw [failing_drained]
      exact hfailing
  | terminate =>
    unfold RemoteTty.terminate
    split_ifs with hstopping hf
    · exact h
    · exact ⟨fun p hp => (by cases hp), fun _ _ => .inl hf⟩
    · exact ⟨fun p hp => (by cases hp), fun refused hs => (by cases hs)⟩
  | refused hstopping => exact ⟨fun p hp => (by cases hp), fun _ _ => howed⟩
  | terminated hstopping => exact owing_pulling rfl rfl
  | told facts hstopping =>
    exact ⟨fun p hp => (by cases hp), fun _ _ => .inl (finish_finished s facts)⟩

/-- A pull that neither waits for an answer nor for the output goes on. -/
theorem resume_isSome {c : Caller} {p : Pull} (hp : s.pullOf c = some p) (hfree : parked p = false)
    (hanswered : ∀ r, p = .reading r → r.stage = .refused ∨ ∃ read, r.stage = .answered read) :
    resume s c true ≠ none := by
  unfold resume
  rw [hp]
  cases p with
  | reading r =>
    obtain ⟨o, stage⟩ := r
    rcases hanswered _ rfl with hstage | ⟨read, hstage⟩
    · cases hstage
      simp
    · cases hstage
      simp
  | marking read held =>
    cases hfree
    simp
  | publishing outcome held =>
    cases hfree
    simp
  | returned result => cases c <;> simp

/-- Where somebody owes it until it is done, all is settled when everything is quiet. -/
theorem Owing.settles (h : Owing s) (hkept : Kept s) : Settles s := by
  intro hquiet
  -- a pull that is free goes on, and nothing goes on when everything is quiet
  have hnone : ∀ c p, s.pullOf c = some p → parked p = false → False := by
    intro c p hp hfree
    refine resume_isSome hp hfree (fun r hr => ?_) (hquiet.still c true)
    rw [hr] at hp
    exact hquiet.answered c r hp
  cases hstopping : s.stopping with
  | none => exact absurd hstopping hquiet.called
  | some stopping =>
    cases stopping with
    | terminating => exact absurd hstopping hquiet.terminated
    | asking => exact absurd hstopping hquiet.told
    | pulling last =>
      refine (hnone .teardown last ?_ (h.free last hstopping)).elim
      rw [Tty.pullOf, hstopping]
    | settled refused =>
      refine ⟨?_, refused, rfl⟩
      rcases h.settled refused hstopping with hf | hfailing
      · have hdone := hkept.done
        rw [hf] at hdone
        exact Option.isSome_iff_ne_none.mp hdone
      · cases hfollow : s.follow with
        | none =>
          rw [hfollow] at hfailing
          cases hfailing
        | some p =>
          refine (hnone .follow p hfollow ?_).elim
          rw [hfollow] at hfailing
          cases p <;> first | rfl | cases hfailing

/-! ### Nobody owes it -/

/-- How many pieces of code and answers are left of a loop that is to stop, at most. -/
def rank : Option Pull → ℕ
  | none => 0
  | some (.returned _) => 1
  | some (.publishing _ _) => 2
  | some (.marking _ _) => 3
  | some (.reading ⟨_, .answered _⟩) => 4
  | some (.reading ⟨_, .refused⟩) => 4
  | some (.reading ⟨_, .looked _ _ _⟩) => 5
  | some (.reading ⟨_, .asked⟩) => 6

/-- What leads a loop towards its end. -/
structure Towards (stream : Bytes) (s t : Tty) : Prop where
  event : ∃ e, step stream s e = some t
  stopping : t.stopping = s.stopping
  releasing : t.releasing = s.releasing
  rank_lt : rank t.follow < rank s.follow
  same : failing s.follow = false → t.finished = s.finished ∧ failing t.follow = false

/-- A pull that has published leads to its return, and the return to the end. -/
theorem rank_published {p : Pull} (hp : Published p) : rank (some p) ≤ 2 := by
  cases p with
  | publishing outcome held => exact Nat.le_refl _
  | returned result => exact Nat.le_succ _
  | reading r => exact hp.elim
  | marking read held => exact hp.elim

/-- Publishing fails no read. -/
theorem failing_published {p : Pull} (hp : Published p) (hsome : p ≠ .returned none) :
    failing (some p) = false := by
  cases p with
  | publishing outcome held => rfl
  | returned result =>
    cases result with
    | none => exact absurd rfl hsome
    | some ended => rfl
  | reading r => exact hp.elim
  | marking read held => exact hp.elim

/-- A piece of the loop's code, or an answer to it, that leaves everything else alone. -/
theorem towards_setPull {e : Event} {s' : Tty} {p : Pull}
    (hstep : step stream s e = some (s'.setPull .follow p)) (hstopping : s'.stopping = s.stopping)
    (hreleasing : s'.releasing = s.releasing) (hfinished : s'.finished = s.finished)
    (hrank : rank (some p) < rank s.follow)
    (hfailing : failing s.follow = false → failing (some p) = false) :
    Towards stream s (s'.setPull .follow p) where
  event := ⟨e, hstep⟩
  stopping := hstopping
  releasing := hreleasing
  rank_lt := hrank
  same hnot := ⟨hfinished, hfailing hnot⟩

/-- A loop whose pull has returned is over when the handle is being released. -/
theorem towards_returned {result : Option (Option TtyOutcome)}
    (hfollow : s.follow = some (.returned result)) (hreleasing : s.releasing = true) :
    Towards stream s (followOn s result) := by
  have hover : (followOn s result).follow = none := by
    rcases followOn_follow s result with hnone | ⟨-, -, -, hkept⟩
    · exact hnone
    · exact absurd (hreleasing.symm.trans hkept) (by decide)
  refine ⟨⟨.resume .follow true, ?_⟩, followOn_stopping .., followOn_releasing .., ?_,
    fun hnot => ?_⟩
  · rw [step, resume, Tty.pullOf, hfollow]
  · rw [hover, hfollow]
    exact Nat.zero_lt_one
  · rw [hover]
    refine ⟨?_, rfl⟩
    cases result with
    | none =>
      rw [hfollow] at hnot
      cases hnot
    | some ended => simp only [followOn, hreleasing, or_true, if_true]

/-- A loop whose read was answered publishes it, after a notice when something was lost. -/
theorem towards_answered {o : ℕ} {read : TtyWireRead}
    (hfollow : s.follow = some (.reading ⟨o, .answered read⟩)) : ∃ t, Towards stream s t := by
  have hresume : step stream s (.resume .follow true) = some (received s .follow read true) := by
    rw [step, resume, Tty.pullOf, hfollow]
  cases hlossy : read.lossy with
  | true =>
    rw [received_lossy hlossy] at hresume
    refine ⟨_, towards_setPull hresume rfl rfl rfl ?_ fun _ => rfl⟩
    rw [hfollow]
    exact Nat.lt_succ_self _
  | false =>
    obtain ⟨pull, heq, hpublished, -, hsome⟩ := advance_eq s .follow read true
    have hreceived : received s .follow read true = advance s .follow read true := by
      simp [received, hlossy]
    rw [hreceived, heq] at hresume
    refine ⟨_, towards_setPull hresume rfl rfl rfl ?_ fun _ => failing_published hpublished hsome⟩
    rw [hfollow]
    have hrank := rank_published hpublished
    show rank (some pull) < 4
    omega

/-- A loop that is to stop goes on to its end unless it waits for the output. -/
theorem exists_towards {p : Pull} (hfollow : s.follow = some p) (hfree : parked p = false)
    (hreleasing : s.releasing = true) : ∃ t, Towards stream s t := by
  cases p with
  | returned result => exact ⟨_, towards_returned hfollow hreleasing⟩
  | publishing outcome held =>
    cases hfree
    have hresume : step stream s (.resume .follow true) =
        some (s.setPull .follow (.returned (some outcome))) := by
      rw [step, resume, Tty.pullOf, hfollow]
    refine ⟨_, towards_setPull hresume rfl rfl rfl ?_ fun _ => rfl⟩
    rw [hfollow]
    exact Nat.lt_succ_self _
  | marking read held =>
    cases hfree
    obtain ⟨pull, heq, hpublished, -, hsome⟩ := advance_eq s .follow read true
    have hresume : step stream s (.resume .follow true) =
        some ((advanced s read).setPull .follow pull) := by
      rw [← heq, step, resume, Tty.pullOf, hfollow]
    refine ⟨_, towards_setPull hresume rfl rfl rfl ?_ fun _ => failing_published hpublished hsome⟩
    rw [hfollow]
    exact Nat.lt_succ_of_le (rank_published hpublished)
  | reading r =>
    obtain ⟨o, stage⟩ := r
    cases stage with
    | asked =>
      have hlook : step stream s (.look .follow) = some (s.setPull .follow (.reading
          ⟨o, .looked (s.session.window.read o).1 (s.session.window.read o).2.1
            (s.session.window.read o).2.2⟩)) := by
        rw [step, Tty.pullOf, hfollow]
      refine ⟨_, towards_setPull hlook rfl rfl rfl ?_ fun _ => rfl⟩
      rw [hfollow]
      exact Nat.lt_succ_self _
    | looked bytes next lossy =>
      have hrespond : step stream s (.respond .follow true) = some (s.setPull .follow (.reading
          ⟨o, .answered ⟨Base64.encode bytes, next, lossy, s.session.outcome⟩⟩)) := by
        rw [step, Tty.pullOf, hfollow]
        simp [respond]
      refine ⟨_, towards_setPull hrespond rfl rfl rfl ?_ fun _ => rfl⟩
      rw [hfollow]
      exact Nat.lt_succ_self _
    | refused =>
      have hresume : step stream s (.resume .follow true) =
          some (s.setPull .follow (.returned none)) := by
        rw [step, resume, Tty.pullOf, hfollow]
      refine ⟨_, towards_setPull hresume rfl rfl rfl ?_ fun hnot => ?_⟩
      · rw [hfollow]
        show 1 < 4
        omega
      · rw [hfollow] at hnot
        cases hnot
    | answered read => exact towards_answered hfollow

/-- A loop that is to stop comes to its end, or to wait for an output that nobody reads. -/
theorem exists_end (n : ℕ) : ∀ {s : Tty}, rank s.follow ≤ n → s.releasing = true →
    ∃ es t, (machine stream).runFrom s es = some t ∧ t.stopping = s.stopping ∧
      (∀ p, t.follow = some p → parked p = true) ∧
        (failing s.follow = false → t.finished = s.finished) := by
  induction n with
  | zero =>
    intro s hrank hreleasing
    refine ⟨[], s, rfl, rfl, fun p hp => ?_, fun _ => rfl⟩
    rw [hp] at hrank
    cases p with
    | reading r =>
      obtain ⟨o, stage⟩ := r
      cases stage <;> cases hrank
    | marking read held => cases hrank
    | publishing outcome held => cases hrank
    | returned result => cases hrank
  | succ n ih =>
    intro s hrank hreleasing
    by_cases hover : ∀ p, s.follow = some p → parked p = true
    · exact ⟨[], s, rfl, rfl, hover, fun _ => rfl⟩
    · simp only [not_forall, Bool.not_eq_true] at hover
      obtain ⟨p, hfollow, hfree⟩ := hover
      obtain ⟨t, ⟨e, hstep⟩, hstopping, hkept, hlt, hsame⟩ :=
        @exists_towards stream s p hfollow hfree hreleasing
      obtain ⟨es, u, hrun, hstopping', hparked, hfinished⟩ :=
        @ih t (by omega) (hkept.trans hreleasing)
      refine ⟨e :: es, u, ?_, hstopping'.trans hstopping, hparked, fun hnot => ?_⟩
      · show ((machine stream).step s e).bind _ = some u
        rw [show (machine stream).step s e = some t from hstep]
        exact hrun
      · obtain ⟨hf, hnot'⟩ := hsame hnot
        exact (hfinished hnot').trans hf

/-- With the loop over or waiting for the output, and the teardown refused or waiting for the
output, everything is quiet. -/
theorem quiet_of_stuck (hloop : ∀ p, s.follow = some p → parked p = true)
    (hteardown : s.stopping = some (.settled true) ∨
      ∃ p, s.stopping = some (.pulling p) ∧ parked p = true) : Quiet s := by
  have hparked : ∀ c p, s.pullOf c = some p → parked p = true := by
    intro c p hp
    cases c with
    | follow => exact hloop p hp
    | teardown =>
      have hstopping := pullOf_teardown hp
      rcases hteardown with hrefused | ⟨p', hpulling, hp'⟩
      · rw [hstopping] at hrefused
        cases hrefused
      · rw [hstopping] at hpulling
        cases hpulling
        exact hp'
  refine ⟨?_, ?_, ?_, fun c r hr => ?_, fun c room => ?_⟩
  · rcases hteardown with h | ⟨p, h, -⟩ <;> rw [h] <;> simp
  · rcases hteardown with h | ⟨p, h, -⟩ <;> rw [h] <;> simp
  · rcases hteardown with h | ⟨p, h, -⟩ <;> rw [h] <;> simp
  · exact absurd (hparked c _ hr) (by simp [parked])
  · unfold resume
    cases hp : s.pullOf c with
    | none => rfl
    | some p =>
      have hheld := hparked c p hp
      cases p with
      | reading r => cases hheld
      | marking read held =>
        cases hheld
        rfl
      | publishing outcome held =>
        cases hheld
        rfl
      | returned result => cases hheld

/-- From a teardown that waits for the output, or was refused while the handle is open and its
loop is not about to finish it, a run leads to a quiet state that has not settled. -/
theorem exists_not_settles (hs : (machine stream).Reachable s)
    (hteardown : s.stopping = some (.settled true) ∧ s.finished = false ∧ failing s.follow = false ∨
      ∃ p, s.stopping = some (.pulling p) ∧ parked p = true) :
    ∃ es t, (machine stream).runFrom s es = some t ∧ ¬ Settles t := by
  have hreleasing : s.releasing = true := by
    rcases hteardown with ⟨hstopping, -⟩ | ⟨p, hstopping, -⟩
    · exact (kept_of_reachable hs).releasing _ hstopping (by simp)
    · exact (kept_of_reachable hs).releasing _ hstopping (by simp)
  obtain ⟨es, t, hrun, hstopping, hloop, hfinished⟩ :=
    @exists_end stream _ s (Nat.le_refl (rank s.follow)) hreleasing
  refine ⟨es, t, hrun, fun hsettles => ?_⟩
  have hquiet : Quiet t := by
    refine quiet_of_stuck hloop ?_
    rw [hstopping]
    exact hteardown.imp_left And.left
  obtain ⟨hdone, refused, hsettled⟩ := hsettles hquiet
  rcases hteardown with ⟨-, hopen, hnot⟩ | ⟨p, hpulling, -⟩
  · have hkept := (kept_of_reachable (Machine.reachable_of_runFrom hs hrun)).done
    rw [hfinished hnot, hopen] at hkept
    exact hdone (Option.not_isSome_iff_eq_none.mp (by rw [hkept]; decide))
  · rw [hstopping, hpulling] at hsettled
    cases hsettled

/-- A teardown that has a text to publish and finds no room waits for the output. -/
theorem parked_of_waits {room : Bool} (hwaits : waits s (lastText s) room = true)
    (hstep : step stream s (.resume .teardown room) = some t) :
    ∃ p, t.stopping = some (.pulling p) ∧ parked p = true := by
  have hnone : waits s [] room = false := by simp [waits]
  have hresume : resume s .teardown room = some t := hstep
  unfold resume at hresume
  split at hresume
  · rename_i o read hpull
    rw [Option.some.injEq] at hresume
    have hnow : lastText s = if read.lossy then noticeOf s read else textOf s read := by
      rw [lastText, pullOf_teardown hpull]
    rw [hnow] at hwaits
    subst hresume
    cases hlossy : read.lossy with
    | true =>
      rw [hlossy] at hwaits
      rw [received_lossy hlossy]
      exact ⟨_, rfl, hwaits⟩
    | false =>
      obtain ⟨pull, heq, -, hparked, -⟩ := advance_eq s .teardown read room
      have hreceived : received s .teardown read room = advance s .teardown read room := by
        simp [received, hlossy]
      rw [hlossy] at hwaits
      rw [hreceived, heq]
      exact ⟨pull, rfl, hparked.trans hwaits⟩
  · rename_i o hpull
    rw [lastText, pullOf_teardown hpull, hnone] at hwaits
    cases hwaits
  · rename_i read hpull
    rw [Option.some.injEq] at hresume
    obtain ⟨pull, heq, -, hparked, -⟩ := advance_eq s .teardown read room
    rw [lastText, pullOf_teardown hpull] at hwaits
    rw [← hresume, heq]
    exact ⟨pull, rfl, hparked.trans hwaits⟩
  · rename_i outcome hpull
    rw [lastText, pullOf_teardown hpull, hnone] at hwaits
    cases hwaits
  · rename_i result hpull
    rw [lastText, pullOf_teardown hpull, hnone] at hwaits
    cases hwaits
  · cases hresume

/-- From a step at which somebody gives up, a run leads to a quiet state that has not settled. -/
theorem not_settles_of_not_owed {e : Event} (hs : (machine stream).Reachable s)
    (hnot : ¬ Owed s e) (hstep : step stream s e = some t) :
    ∃ es u, (machine stream).runFrom t es = some u ∧ ¬ Settles u := by
  refine exists_not_settles (hs.step trivial hstep) ?_
  unfold Owed at hnot
  split at hnot
  · rw [not_or, Bool.not_eq_true, Bool.not_eq_true] at hnot
    left
    simp only [step] at hstep
    split at hstep
    · cases hstep
      exact ⟨rfl, hnot⟩
    · cases hstep
  · rw [Bool.not_eq_false] at hnot
    exact .inr (parked_of_waits hnot hstep)
  · exact absurd trivial hnot

/-- Along every run at whose steps nobody gives up, the handle of a released terminal and the
promise of its `terminate` are settled in every state in which all requests are answered and no
code is left to run; and from every other step that a run can take, one leads to such a state
in which they are not. -/
theorem released_settles (stream : Bytes) :
    (∀ s, (machine stream).ReachableWhen Owed s → Settles s) ∧
      ∀ s e t, (machine stream).Reachable s → step stream s e = some t → ¬ Owed s e →
        ∃ es u, (machine stream).runFrom t es = some u ∧ ¬ Settles u := by
  constructor
  · intro s hs
    have hinv : Owing s ∧ Kept s := by
      refine hs.invariant (I := fun s => Owing s ∧ Kept s) ⟨?_, kept_spawned⟩
        fun s e t h howed hstep => ⟨owing_step h.1 howed hstep, kept_step h.2 hstep⟩
      exact ⟨fun p hp => (by cases hp), fun refused hs => (by cases hs)⟩
    exact hinv.1.settles hinv.2
  · intro s e t hs hstep hnot
    exact not_settles_of_not_owed hs hnot hstep

/-- The daemon refuses to release the terminal, and the loop takes its last answer. -/
def refusedRun : List Event :=
  [.look .follow, .terminate, .terminated true, .respond .follow true, .resume .follow true,
    .resume .follow true]

theorem refusedRun_isSome : ((machine []).run refusedRun).isSome = true := by decide +kernel

/-- The handle never settles: no request is out, and nothing is left to run. -/
theorem refused_release : ¬ ∀ (stream : Bytes) (s : Tty), (machine stream).Reachable s →
    Settles s := by
  intro h
  have hsettles := h _ _ (Machine.reachable_get refusedRun refusedRun_isSome)
  have hquiet : Quiet (((machine []).run refusedRun).get refusedRun_isSome) := by
    refine quiet_of_stuck (fun p hp => ?_) (.inl (by decide +kernel))
    have hnone : (((machine []).run refusedRun).get refusedRun_isSome).follow = none := by
      decide +kernel
    rw [hnone] at hp
    cases hp
  exact (hsettles hquiet).1 (by decide +kernel)

end RemoteWorkspace.Analysis.ReleasedSettles
