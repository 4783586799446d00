import RemoteWorkspace.Model.SpawnRequest

/-!
# What a refused start leaves behind

A start that is answered with an error has left no child behind, the child was never
registered, and a batch input is written once, exactly as long as nothing fails between the
fork and the answer: adopting the control channel and reading the child's id while the child
runs, and writing the batch input to a child that was registered. The client's own batch
requests find the stdin gone and write nothing.
-/

set_option autoImplicit false

namespace RemoteWorkspace.Analysis.FailedSpawns

open RemoteWorkspace.Computation RemoteWorkspace.Model RemoteWorkspace.Model.SpawnRequest
open FsText (Failure)

variable {spec : SpawnSpec} {s t : Spawning}

/-- An error means that no child runs unmanaged, that none is in the table, and that none was
ever registered; and a batch input is written to the child's stdin at most once, and once when
the start succeeds. -/
structure Honest (spec : SpawnSpec) (s : Spawning) : Prop where
  managed : ∀ failure, s.phase = .answered (.error failure) → s.running = true → s.managed = true
  learned : ∀ failure, s.phase = .answered (.error failure) → s.listed = false
  unregistered : ∀ failure, s.phase = .answered (.error failure) → s.entered = false
  once : ∀ data, spec.stdin = .data data →
    s.piped <+: data ∧ (s.phase = .answered (.ok ()) → s.piped = data)

/-- Nothing fails after the fork: the control channel is adopted and the child's id found as
long as the child runs, and the batch input of a registered child can be written. -/
def Completes (s : Spawning) : Event → Prop
  | .adopt (.error _) => s.running = false
  | .identify false => s.running = false
  | .feedFails _ => s.entered = false
  | _ => True

/-! ### What an event does -/

/-- What each event leaves, by the branch that it takes. -/
inductive Moves (spec : SpawnSpec) (s : Spawning) : Event → Spawning → Prop
  | unprepared {answer : Except Failure String} (hp : s.phase = .preparing) (failure : Failure) :
      Moves spec s (.prepare answer) (s.fails failure)
  | prepared {answer : Except Failure String} (hp : s.phase = .preparing) :
      Moves spec s (.prepare answer)
        { s with phase := if spec.control then .pairing else .starting }
  | unpaired {answer : Except String Unit} (hp : s.phase = .pairing) (failure : Failure) :
      Moves spec s (.openControlPair answer) (s.fails failure)
  | paired {answer : Except String Unit} (hp : s.phase = .pairing) :
      Moves spec s (.openControlPair answer) { s with phase := .starting }
  | unstarted {answer : Except String Unit} (hp : s.phase = .starting) (failure : Failure) :
      Moves spec s (.start answer) (s.fails failure)
  | started {answer : Except String Unit} (hp : s.phase = .starting) :
      Moves spec s (.start answer) { s with
        phase := if spec.control then .adopting else .identifying
        running := true
        reading := SpawnRequest.piped spec.stdin
        stdin := SpawnRequest.piped spec.stdin
        started := true }
  | unadopted (hp : s.phase = .adopting) (error : String) :
      Moves spec s (.adopt (.error error)) { s.fails (adoptFailed error) with stdin := false }
  | adopted (hp : s.phase = .adopting) :
      Moves spec s (.adopt (.ok ())) { s with phase := .identifying }
  | unidentified (hp : s.phase = .identifying) :
      Moves spec s (.identify false) { s.fails (noProcessId spec) with stdin := false }
  | identified (hp : s.phase = .identifying) :
      Moves spec s (.identify true) { s with phase := .entering, managed := true }
  | kept (hp : s.phase = .entering) : Moves spec s .enter { s with phase := .sealed }
  | entered (hp : s.phase = .entering) :
      Moves spec s .enter { s with phase := feeding spec, listed := true, entered := true }
  | disposed (hp : s.phase = .sealed) :
      Moves spec s .dispose { s with phase := feeding spec, running := false }
  | unpiped {n : ℕ} {rest : Bytes} (hp : s.phase = .feeding rest) (hstdin : s.stdin = false) :
      Moves spec s (.feed n) (s.fails notPiped)
  | feeds {n : ℕ} {rest : Bytes} (hp : s.phase = .feeding rest) :
      Moves spec s (.feed n)
        { s with phase := .feeding (rest.drop n), piped := s.piped ++ rest.take n }
  | feedFails {rest : Bytes} (hp : s.phase = .feeding rest) (error : String) :
      Moves spec s (.feedFails error) (s.fails (writeFailed error))
  | fed (hp : s.phase = .feeding []) : Moves spec s .fed { s with phase := .closingStdin }
  | closeStdin (hp : s.phase = .closingStdin) :
      Moves spec s .closeStdin { s with phase := .answered (.ok ()), stdin := false }
  | childClosesStdin : Moves spec s .childClosesStdin { s with reading := false }
  | childExits : Moves spec s .childExits { s with running := false }
  | close : Moves spec s .close
      { s with closed := true, listed := false, running := s.running && !s.listed }
  | receive {answer : Except Failure Unit} {client : Client} (hp : s.phase = .answered answer)
      (hclient : client ≠ .failed → answer = .ok ()) :
      Moves spec s .receive { s with client := client }
  | writeStdin {data : Bytes} (hclient : s.client = .writing) (hdata : spec.stdin = .data data) :
      Moves spec s .writeStdin { s with
        client := .closing
        piped := s.piped ++ if s.listed ∧ s.stdin ∧ s.reading then data else [] }
  | closeStdinAgain (hclient : s.client = .closing) :
      Moves spec s .closeStdinAgain { s with client := .running, stdin := s.stdin && !s.listed }

/-- Every step takes one of these branches. -/
theorem step_moves {e : Event} (hstep : step spec s e = some t) : Moves spec s e t := by
  cases e with
  | prepare answer =>
    obtain ⟨hp, ht⟩ := Option.ite_none_right_eq_some.mp hstep
    split at ht
    · cases ht
      exact .unprepared hp _
    · cases ht
      exact .prepared hp
  | openControlPair answer =>
    obtain ⟨hp, ht⟩ := Option.ite_none_right_eq_some.mp hstep
    cases answer with
    | error error =>
      cases ht
      exact .unpaired hp _
    | ok u =>
      cases ht
      exact .paired hp
  | start answer =>
    obtain ⟨hp, ht⟩ := Option.ite_none_right_eq_some.mp hstep
    cases answer with
    | error error =>
      cases ht
      exact .unstarted hp _
    | ok u =>
      cases ht
      exact .started hp
  | adopt answer =>
    obtain ⟨hp, ht⟩ := Option.ite_none_right_eq_some.mp hstep
    cases answer with
    | error error =>
      cases ht
      exact .unadopted hp error
    | ok u =>
      cases ht
      exact .adopted hp
  | identify found =>
    obtain ⟨hp, ht⟩ := Option.ite_none_right_eq_some.mp hstep
    cases found with
    | true =>
      cases ht
      exact .identified hp
    | false =>
      cases ht
      exact .unidentified hp
  | enter =>
    obtain ⟨hp, ht⟩ := Option.ite_none_right_eq_some.mp hstep
    split at ht
    · cases ht
      exact .kept hp
    · cases ht
      exact .entered hp
  | dispose =>
    obtain ⟨hp, ht⟩ := Option.ite_none_right_eq_some.mp hstep
    cases ht
    exact .disposed hp
  | feed n =>
    simp only [step] at hstep
    split at hstep
    · rename_i rest hp
      split_ifs at hstep with hstdin
      · cases hstep
        exact .unpiped hp hstdin
      · cases hstep
        exact .feeds hp
    · cases hstep
  | feedFails error =>
    simp only [step] at hstep
    split at hstep
    · rename_i rest hp
      obtain ⟨-, ht⟩ := Option.ite_none_right_eq_some.mp hstep
      cases ht
      exact .feedFails hp error
    · cases hstep
  | fed =>
    simp only [step] at hstep
    split at hstep
    · rename_i rest hp
      obtain ⟨hover, ht⟩ := Option.ite_none_right_eq_some.mp hstep
      cases ht
      rw [hover.2] at hp
      exact .fed hp
    · cases hstep
  | closeStdin =>
    obtain ⟨hp, ht⟩ := Option.ite_none_right_eq_some.mp hstep
    cases ht
    exact .closeStdin hp
  | childClosesStdin =>
    cases hstep
    exact .childClosesStdin
  | childExits =>
    obtain ⟨-, ht⟩ := Option.ite_none_right_eq_some.mp hstep
    cases ht
    exact .childExits
  | close =>
    obtain ⟨-, ht⟩ := Option.ite_none_left_eq_some.mp hstep
    cases ht
    exact .close
  | receive =>
    obtain ⟨-, ht⟩ := Option.ite_none_right_eq_some.mp hstep
    split at ht
    · rename_i failure hp
      cases ht
      exact .receive hp fun hne => absurd rfl hne
    · rename_i hp _
      cases ht
      exact .receive hp fun _ => rfl
    · rename_i hp _
      cases ht
      exact .receive hp fun _ => rfl
    · cases ht
  | writeStdin =>
    obtain ⟨hclient, ht⟩ := Option.ite_none_right_eq_some.mp hstep
    split at ht
    · rename_i data hdata
      cases ht
      exact .writeStdin hclient hdata
    · cases ht
  | closeStdinAgain =>
    obtain ⟨hclient, ht⟩ := Option.ite_none_right_eq_some.mp hstep
    cases ht
    exact .closeStdinAgain hclient

/-! ### The invariant -/

/-- What is known of a child before it is registered. -/
def Unregistered (s : Spawning) : Prop := s.listed = false ∧ s.entered = false ∧ s.piped = []

/-- What is known at each step of a spawn. -/
def AtPhase (spec : SpawnSpec) (s : Spawning) : Prop :=
  match s.phase with
  | .preparing | .pairing | .starting =>
    Unregistered s ∧ s.running = false ∧ s.managed = false
  | .adopting | .identifying =>
    Unregistered s ∧ s.stdin = SpawnRequest.piped spec.stdin ∧ s.managed = false
  | .entering | .sealed =>
    Unregistered s ∧ s.stdin = SpawnRequest.piped spec.stdin ∧ s.managed = true
  | .feeding rest => s.managed = true ∧ s.stdin = true ∧ spec.stdin = .data (s.piped ++ rest)
  | .closingStdin => s.managed = true ∧ spec.stdin = .data s.piped
  | .answered (.ok ()) => ∀ data, spec.stdin = .data data → s.piped = data ∧ s.stdin = false
  | .answered (.error _) => (s.running = true → s.managed = true) ∧ s.listed = false ∧
      s.entered = false ∧ ∀ data, spec.stdin = .data data → s.piped <+: data

/-- What holds along every run in which the steps after the fork complete. -/
structure Invariant (spec : SpawnSpec) (s : Spawning) : Prop where
  phase : AtPhase spec s
  listed : s.listed = true → s.entered = true
  client : s.client ≠ .waiting → ∃ answer, s.phase = .answered answer ∧
    (s.client ≠ .failed → answer = .ok ())

/-- The invariant gives the property. -/
theorem Invariant.honest (h : Invariant spec s) : Honest spec s := by
  have hphase := h.phase
  refine ⟨fun failure hp => ?_, fun failure hp => ?_, fun failure hp => ?_, fun data hdata => ?_⟩
  · rw [AtPhase, hp] at hphase
    exact hphase.1
  · rw [AtPhase, hp] at hphase
    exact hphase.2.1
  · rw [AtPhase, hp] at hphase
    exact hphase.2.2.1
  · unfold AtPhase at hphase
    have hnone : Unregistered s → s.piped <+: data := fun hu => hu.2.2 ▸ List.nil_prefix
    split at hphase
    case h_1 hp => exact ⟨hnone hphase.1, fun ha => by rw [hp] at ha; cases ha⟩
    case h_2 hp => exact ⟨hnone hphase.1, fun ha => by rw [hp] at ha; cases ha⟩
    case h_3 hp => exact ⟨hnone hphase.1, fun ha => by rw [hp] at ha; cases ha⟩
    case h_4 hp => exact ⟨hnone hphase.1, fun ha => by rw [hp] at ha; cases ha⟩
    case h_5 hp => exact ⟨hnone hphase.1, fun ha => by rw [hp] at ha; cases ha⟩
    case h_6 hp => exact ⟨hnone hphase.1, fun ha => by rw [hp] at ha; cases ha⟩
    case h_7 hp => exact ⟨hnone hphase.1, fun ha => by rw [hp] at ha; cases ha⟩
    case h_8 rest hp =>
      cases hdata.symm.trans hphase.2.2
      exact ⟨List.prefix_append _ _, fun ha => by rw [hp] at ha; cases ha⟩
    case h_9 hp =>
      cases hdata.symm.trans hphase.2
      exact ⟨List.prefix_refl _, fun _ => rfl⟩
    case h_10 hp =>
      have hwhole := (hphase data hdata).1
      exact ⟨hwhole ▸ List.prefix_refl _, fun _ => hwhole⟩
    case h_11 failure hp =>
      exact ⟨hphase.2.2.2 data hdata, fun ha => by rw [hp] at ha; cases ha⟩

/-- A change that leaves the step and the child's stdin alone, and starts and registers nothing. -/
theorem AtPhase.of_same (h : AtPhase spec s) (hphase : t.phase = s.phase)
    (hstdin : t.stdin = s.stdin) (hmanaged : t.managed = s.managed) (hpiped : t.piped = s.piped)
    (hentered : t.entered = s.entered) (hlisted : s.listed = false → t.listed = false)
    (hrunning : t.running = true → s.running = true) : AtPhase spec t := by
  have hnone : Unregistered s → Unregistered t := fun hu =>
    ⟨hlisted hu.1, hentered.trans hu.2.1, hpiped.trans hu.2.2⟩
  have hstill : s.running = false → t.running = false := by
    intro hs
    by_contra ht
    rw [Bool.not_eq_false] at ht
    exact absurd (hs.symm.trans (hrunning ht)) (by decide)
  unfold AtPhase at h ⊢
  rw [hphase, hstdin, hmanaged, hpiped, hentered]
  cases hp : s.phase with
  | preparing => rw [hp] at h; exact ⟨hnone h.1, hstill h.2.1, h.2.2⟩
  | pairing => rw [hp] at h; exact ⟨hnone h.1, hstill h.2.1, h.2.2⟩
  | starting => rw [hp] at h; exact ⟨hnone h.1, hstill h.2.1, h.2.2⟩
  | adopting => rw [hp] at h; exact ⟨hnone h.1, h.2⟩
  | identifying => rw [hp] at h; exact ⟨hnone h.1, h.2⟩
  | entering => rw [hp] at h; exact ⟨hnone h.1, h.2⟩
  | «sealed» => rw [hp] at h; exact ⟨hnone h.1, h.2⟩
  | feeding rest => rw [hp] at h; exact h
  | closingStdin => rw [hp] at h; exact h
  | answered answer =>
    rw [hp] at h
    cases answer with
    | ok u => exact h
    | error failure => exact ⟨fun hr => h.1 (hrunning hr), hlisted h.2.1, h.2.2⟩

/-- A failure before the child is registered, while it does not run. -/
theorem atPhase_failed (h : Unregistered s) (hrunning : s.running = false) {failure : Failure}
    (stdin : Bool) : AtPhase spec { s.fails failure with stdin } := by
  refine ⟨fun hr => ?_, h.1, h.2.1, fun data _ => ?_⟩
  · cases hrunning.symm.trans hr
  · show s.piped <+: data
    rw [h.2.2]
    exact List.nil_prefix

/-- What follows the registration of a child. -/
theorem atPhase_feeding (hphase : t.phase = feeding spec) (hmanaged : t.managed = true)
    (hstdin : t.stdin = SpawnRequest.piped spec.stdin) (hpiped : t.piped = []) :
    AtPhase spec t := by
  unfold AtPhase
  rw [hphase, feeding]
  cases hmode : spec.stdin with
  | ignore => exact fun data hdata => by cases hdata
  | pipe => exact fun data hdata => by cases hdata
  | data data =>
    rw [hmode] at hstdin
    refine ⟨hmanaged, hstdin, ?_⟩
    rw [hpiped, List.nil_append]

/-- A step before the answer, which the client does not see. -/
theorem Invariant.of_phase (h : Invariant spec s) (hphase : AtPhase spec t)
    (hbefore : ∀ answer, s.phase ≠ .answered answer) (hclient : t.client = s.client)
    (hlisted : t.listed = true → t.entered = true) : Invariant spec t := by
  refine ⟨hphase, hlisted, fun hne => ?_⟩
  rw [hclient] at hne
  obtain ⟨answer, hanswer, -⟩ := h.client hne
  exact absurd hanswer (hbefore answer)

/-- A step of the spawn that completes keeps the invariant. -/
theorem invariant_step {e : Event} (h : Invariant spec s) (hcompletes : Completes s e)
    (hstep : step spec s e = some t) : Invariant spec t := by
  have hphase := h.phase
  unfold AtPhase at hphase
  cases step_moves hstep with
  | unprepared hp failure | unpaired hp failure | unstarted hp failure =>
    rw [hp] at hphase
    exact h.of_phase (atPhase_failed hphase.1 hphase.2.1 s.stdin) (by simp [hp]) rfl h.listed
  | prepared hp =>
    rw [hp] at hphase
    refine h.of_phase ?_ (by simp [hp]) rfl h.listed
    unfold AtPhase
    cases spec.control <;> exact hphase
  | paired hp =>
    rw [hp] at hphase
    exact h.of_phase hphase (by simp [hp]) rfl h.listed
  | started hp =>
    rw [hp] at hphase
    refine h.of_phase ?_ (by simp [hp]) rfl h.listed
    unfold AtPhase
    cases spec.control <;> exact ⟨hphase.1, rfl, hphase.2.2⟩
  | unadopted hp | unidentified hp =>
    rw [hp] at hphase
    exact h.of_phase (atPhase_failed hphase.1 hcompletes false) (by simp [hp]) rfl h.listed
  | adopted hp =>
    rw [hp] at hphase
    exact h.of_phase hphase (by simp [hp]) rfl h.listed
  | identified hp =>
    rw [hp] at hphase
    exact h.of_phase ⟨hphase.1, hphase.2.1, rfl⟩ (by simp [hp]) rfl h.listed
  | kept hp =>
    rw [hp] at hphase
    exact h.of_phase hphase (by simp [hp]) rfl h.listed
  | entered hp =>
    rw [hp] at hphase
    have hfeeding := atPhase_feeding (t := { s with
      phase := feeding spec, listed := true, entered := true }) rfl hphase.2.2 hphase.2.1
      hphase.1.2.2
    exact h.of_phase hfeeding (by simp [hp]) rfl fun _ => rfl
  | disposed hp =>
    rw [hp] at hphase
    have hfeeding := atPhase_feeding (t := { s with phase := feeding spec, running := false }) rfl
      hphase.2.2 hphase.2.1 hphase.1.2.2
    exact h.of_phase hfeeding (by simp [hp]) rfl h.listed
  | unpiped hp hstdin =>
    rw [hp] at hphase
    cases hstdin.symm.trans hphase.2.1
  | @feeds n rest hp =>
    rw [hp] at hphase
    refine h.of_phase ⟨hphase.1, hphase.2.1, ?_⟩ (by simp [hp]) rfl h.listed
    show spec.stdin = .data (s.piped ++ rest.take n ++ rest.drop n)
    rw [List.append_assoc, List.take_append_drop]
    exact hphase.2.2
  | feedFails hp error =>
    rw [hp] at hphase
    have hentered : s.entered = false := hcompletes
    refine h.of_phase ⟨fun _ => hphase.1, ?_, hentered, fun data hdata => ?_⟩ (by simp [hp]) rfl
      h.listed
    · by_contra hlisted
      rw [Bool.not_eq_false] at hlisted
      cases hentered.symm.trans (h.listed hlisted)
    · cases hdata.symm.trans hphase.2.2
      exact List.prefix_append _ _
  | fed hp =>
    rw [hp] at hphase
    have hwhole := hphase.2.2
    rw [List.append_nil] at hwhole
    exact h.of_phase ⟨hphase.1, hwhole⟩ (by simp [hp]) rfl h.listed
  | closeStdin hp =>
    rw [hp] at hphase
    refine h.of_phase (fun data hdata => ?_) (by simp [hp]) rfl h.listed
    cases hdata.symm.trans hphase.2
    exact ⟨rfl, rfl⟩
  | childClosesStdin =>
    exact ⟨h.phase.of_same rfl rfl rfl rfl rfl id id, h.listed, h.client⟩
  | childExits =>
    exact ⟨h.phase.of_same rfl rfl rfl rfl rfl id fun hr => (by cases hr), h.listed, h.client⟩
  | close =>
    refine ⟨h.phase.of_same rfl rfl rfl rfl rfl (fun _ => rfl) fun hr => ?_, fun hl => ?_,
      h.client⟩
    · exact (Bool.and_eq_true_iff.mp hr).1
    · cases hl
  | receive hp hclient =>
    exact ⟨h.phase.of_same rfl rfl rfl rfl rfl id id, h.listed, fun _ => ⟨_, hp, hclient⟩⟩
  | @writeStdin data hclient hdata =>
    obtain ⟨answer, hp, hok⟩ := h.client (by rw [hclient]; simp)
    rw [hok (by rw [hclient]; simp)] at hp
    rw [hp] at hphase
    -- the daemon has closed the stdin before its answer
    have hgone := (hphase data hdata).2
    have hnothing : (if s.listed = true ∧ s.stdin = true ∧ s.reading = true then data else []) =
        ([] : Bytes) := if_neg fun hall => by simp [hgone] at hall
    rw [hnothing, List.append_nil]
    refine ⟨?_, h.listed, fun _ => ⟨_, hp, fun _ => rfl⟩⟩
    simp only [AtPhase, hp]
    exact hphase
  | closeStdinAgain hclient =>
    obtain ⟨answer, hp, hok⟩ := h.client (by rw [hclient]; simp)
    rw [hok (by rw [hclient]; simp)] at hp
    rw [hp] at hphase
    refine ⟨?_, h.listed, fun _ => ⟨_, hp, fun _ => rfl⟩⟩
    simp only [AtPhase, hp]
    intro data hdata
    obtain ⟨hwhole, hgone⟩ := hphase data hdata
    exact ⟨hwhole, by rw [hgone]; rfl⟩

/-- A child that was not managed does not run when its start is answered with an error. -/
theorem Honest.stopped (h : Honest spec t) {failure : Failure}
    (hp : t.phase = .answered (.error failure)) (hmanaged : t.managed = false) :
    t.running = false := by
  by_contra hrunning
  rw [Bool.not_eq_false] at hrunning
  cases hmanaged.symm.trans (h.managed failure hp hrunning)

/-- A step of the spawn that fails after the fork loses the property. -/
theorem completes_of_honest {e : Event} (h : Invariant spec s) (hstep : step spec s e = some t)
    (hhonest : Honest spec t) : Completes s e := by
  have hphase := h.phase
  unfold AtPhase at hphase
  cases step_moves hstep with
  | unadopted hp | unidentified hp =>
    rw [hp] at hphase
    exact hhonest.stopped rfl hphase.2.2
  | feedFails hp error => exact hhonest.unregistered _ rfl
  | _ => trivial

/-- A request that was just received. -/
theorem invariant_received (spec : SpawnSpec) : Invariant spec .received :=
  ⟨⟨⟨rfl, rfl, rfl⟩, rfl, rfl⟩, fun hl => (by cases hl), fun hne => absurd rfl hne⟩

/-- For every specification and in every run, a start that is answered with an error leaves no
child running unmanaged and none in the table, is not that of a child that was registered, and
a batch input is written exactly once by a start that succeeds, exactly when nothing fails
after the fork. -/
theorem failed_spawns (spec : SpawnSpec) (es : List Event) :
    (machine spec).Always (Honest spec) (machine spec).init es ↔
      (machine spec).Each Completes (machine spec).init es :=
  Machine.always_iff_each (I := Invariant spec) (fun _ h => h.honest)
    (fun _ _ _ h hcompletes hstep => invariant_step h hcompletes hstep)
    (fun _ _ _ h hnot hstep hhonest => hnot (completes_of_honest h hstep hhonest))
    (invariant_received spec) es

/-- `true` is started with some input, which it never reads. -/
def trueSpec : SpawnSpec := ⟨["/bin/true"], "/", .data [104, 105], .inherit, .inherit, false⟩

/-- It has exited before the input is written. -/
def exitsUnread : List Event :=
  [.prepare (.ok "/"), .start (.ok ()), .identify true, .enter, .childExits, .childClosesStdin,
    .feedFails "Broken pipe (os error 32)"]

theorem exitsUnread_isSome : ((machine trueSpec).run exitsUnread).isSome = true := by decide

/-- The start is refused, and the child stays in the table. -/
theorem started_but_refused : ¬ ∀ (spec : SpawnSpec) (s : Spawning),
    (machine spec).Reachable s → Honest spec s := by
  intro h
  have hlearned := (h _ _ (Machine.reachable_get exitsUnread exitsUnread_isSome)).learned
    (writeFailed "Broken pipe (os error 32)") (by decide)
  revert hlearned
  decide

end RemoteWorkspace.Analysis.FailedSpawns
