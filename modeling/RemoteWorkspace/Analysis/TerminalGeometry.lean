import RemoteWorkspace.Model.TerminalBridge

/-!
# The size that a browser asked for

A socket is watched with the size its browser asked for last, and with whether every resize was
accepted. The terminal of a socket is settled when it is ready and nothing is in flight; it
should then have that size, in its PTY and in its registry entry.

Two events decide it. A shell that is registered has the size it was spawned with, while
`applied` takes the size asked for meanwhile, so no later frame of that size is forwarded. And
of resizes that overlap, the one that is answered last stands.
-/

set_option autoImplicit false

namespace RemoteWorkspace.Analysis.TerminalGeometry

open RemoteWorkspace.Computation RemoteWorkspace.Model RemoteWorkspace.Model.TerminalBridge

/-- The size asked for last, and whether every answered resize was accepted. -/
structure Asked where
  size : Size
  accepted : Bool
  deriving DecidableEq

/-- What an event adds to it. A frame that is answered with an error asks for nothing. -/
def asks (s : Bridge) (asked : Asked) : BridgeEvent → Asked
  | .open cols rows =>
    if s.closed = false ∧ s.claim = true then { asked with size := clamped cols rows usual }
    else asked
  | .attach cols rows (.ok _) =>
    if s.closed = false ∧ s.claim = true then { asked with size := clamped cols rows asked.size }
    else asked
  | .resize cols rows => { asked with size := clamped cols rows asked.size }
  | .answer _ accepted => { asked with accepted := asked.accepted && accepted }
  | _ => asked

/-- The socket, watched. -/
def watched : Machine (Bridge × Asked) BridgeEvent :=
  machine.observe ⟨usual, true⟩ fun s asked e _ => asks s asked e

/-- The terminal is ready, its socket allocates none, and no resize is in flight or was refused. -/
structure Settled (p : Bridge × Asked) (terminal : Terminal) : Prop where
  found : p.1.terminal = some terminal
  ready : p.1.entryId ≠ none
  allocated : p.1.opening = false
  answered : terminal.resizes = []
  accepted : p.2.accepted = true

/-- A settled terminal has the size that was asked for. -/
def Converged (p : Bridge × Asked) : Prop :=
  ∀ terminal, Settled p terminal → terminal.pty = p.2.size ∧ terminal.entry = p.2.size

/-- A shell that is registered for a socket was spawned with the size asked for last; and an
accepted resize that is answered when no other is in flight is one to the size asked for last,
as is the resize that the PTY took last. -/
def Orderly (p : Bridge × Asked) : BridgeEvent → Prop
  | .spawned _ none => p.1.closed = false → p.1.allocation = .spawning p.1.requested
  | .answer _ true => p.1.entryId ≠ none → p.2.accepted = true →
      ∀ terminal resize, p.1.terminal = some terminal → terminal.resizes = [resize] →
        resize.size = p.1.requested ∧ terminal.pty = p.1.requested
  | _ => True

/-! ### Frames that are posted change nothing else -/

section Post

variable (s : Bridge) (frame : HostFrame)

@[simp] theorem post_entryId : (s.post frame).entryId = s.entryId := by
  unfold Bridge.post
  split <;> rfl

@[simp] theorem post_opening : (s.post frame).opening = s.opening := by
  unfold Bridge.post
  split <;> rfl

@[simp] theorem post_closed : (s.post frame).closed = s.closed := by
  unfold Bridge.post
  split <;> rfl

@[simp] theorem post_requested : (s.post frame).requested = s.requested := by
  unfold Bridge.post
  split <;> rfl

@[simp] theorem post_applied : (s.post frame).applied = s.applied := by
  unfold Bridge.post
  split <;> rfl

@[simp] theorem post_allocation : (s.post frame).allocation = s.allocation := by
  unfold Bridge.post
  split <;> rfl

@[simp] theorem post_terminal : (s.post frame).terminal = s.terminal := by
  unfold Bridge.post
  split <;> rfl

end Post

/-! ### What holds of every socket -/

/-- What holds of every socket that is watched. -/
structure Sound (p : Bridge × Asked) : Prop where
  /-- The size asked for is the one remembered, -/
  asked : p.2.size = p.1.requested
  /-- and the one applied once there is a terminal. -/
  applied : p.1.entryId ≠ none → p.1.applied = some p.1.requested
  /-- Without a terminal nothing was resized. -/
  bare : p.1.entryId = none → p.1.closed = false → p.1.terminal = none ∧ p.2.accepted = true
  /-- A terminal is allocated for a socket that has none. -/
  single : p.1.opening = true → p.1.entryId = none
  allocating : p.1.allocation ≠ .idle → p.1.opening = true
  gone : p.1.closed = true → p.1.entryId = none

/-- `applySize` remembers the size. It forwards it unless there is no terminal yet or the size
was forwarded last. -/
theorem applySize_cases (s : Bridge) (cols rows : Option Rat) :
    ∃ applied terminal,
      s.applySize cols rows = { s with
        requested := clamped cols rows s.requested, applied := applied, terminal := terminal } ∧
      ((applied = s.applied ∧ terminal = s.terminal ∧
          (s.entryId ≠ none → s.applied = some (clamped cols rows s.requested))) ∨
        (s.entryId ≠ none ∧ applied = some (clamped cols rows s.requested) ∧
          terminal = s.terminal.map fun terminal =>
            { terminal with
              resizes := terminal.resizes ++ [⟨clamped cols rows s.requested, false⟩] })) := by
  unfold Bridge.applySize
  by_cases hid : s.entryId = none
  · refine ⟨s.applied, s.terminal, ?_, .inl ⟨rfl, rfl, fun h => absurd hid h⟩⟩
    simp only [hid, if_true]
  · by_cases hsame : s.applied = some (clamped cols rows s.requested)
    · refine ⟨s.applied, s.terminal, ?_, .inl ⟨rfl, rfl, fun _ => hsame⟩⟩
      simp only [hid, hsame, if_true, if_false]
    · refine ⟨_, _, ?_, .inr ⟨hid, rfl, rfl⟩⟩
      simp only [hid, hsame, if_false]
      rfl

/-- A size that is applied keeps what holds of a socket. -/
theorem Sound.applySize {s : Bridge} {asked : Asked} (h : Sound (s, asked))
    (cols rows : Option Rat) :
    Sound (s.applySize cols rows, { asked with size := clamped cols rows asked.size }) := by
  obtain ⟨applied, terminal, heq, hcases⟩ := applySize_cases s cols rows
  have hasked : asked.size = s.requested := h.asked
  rw [heq]
  refine { h with asked := ?_, applied := fun hid => ?_, bare := fun hid hopen => ?_ }
  · rw [hasked]
  · rcases hcases with ⟨happlied, -, hsame⟩ | ⟨-, happlied, -⟩
    · rw [happlied]
      exact hsame hid
    · exact happlied
  · obtain ⟨hterminal, haccepted⟩ := h.bare hid hopen
    rcases hcases with ⟨-, hkept, -⟩ | ⟨hsome, -, -⟩
    · exact ⟨hkept.trans hterminal, haccepted⟩
    · exact absurd hid hsome

/-- A size that is applied to a settled terminal is the one it has, or is in flight. -/
theorem Converged.applySize {s : Bridge} {asked : Asked} (hsound : Sound (s, asked))
    (h : Converged (s, asked)) (cols rows : Option Rat) :
    Converged (s.applySize cols rows, { asked with size := clamped cols rows asked.size }) := by
  obtain ⟨applied, terminal, heq, hcases⟩ := applySize_cases s cols rows
  have hasked : asked.size = s.requested := hsound.asked
  intro t ht
  have hid : s.entryId ≠ none := by
    have hready := ht.ready
    rwa [heq] at hready
  have hterminal : terminal = some t := by
    have hfound := ht.found
    rwa [heq] at hfound
  rcases hcases with ⟨-, hkept, hsame⟩ | ⟨-, -, hadded⟩
  · have hopening : s.opening = false := by
      have hallocated := ht.allocated
      rwa [heq] at hallocated
    have hbefore : Settled (s, asked) t :=
      ⟨hkept ▸ hterminal, hid, hopening, ht.answered, ht.accepted⟩
    -- the size that was forwarded last is the one asked for
    have hnext : clamped cols rows asked.size = asked.size := by
      have happlied := (hsound.applied hid).symm.trans (hsame hid)
      rw [hasked]
      exact (Option.some.inj happlied).symm
    have hsizes := h t hbefore
    simp only [hnext]
    exact hsizes
  · have hresizes := ht.answered
    rw [hadded] at hterminal
    obtain ⟨before, -, rfl⟩ := Option.map_eq_some_iff.mp hterminal
    exact absurd hresizes (List.append_ne_nil_of_right_ne_nil _ (List.cons_ne_nil _ _))

/-- A posted frame keeps what holds of a socket. -/
theorem Sound.post {s : Bridge} {asked : Asked} (h : Sound (s, asked)) (frame : HostFrame) :
    Sound (s.post frame, asked) := by
  obtain ⟨hasked, happlied, hbare, hsingle, hallocating, hgone⟩ := h
  constructor
  all_goals simp only [post_requested, post_entryId, post_applied, post_closed, post_terminal,
    post_opening, post_allocation]
  all_goals assumption

/-- A terminal that is settled after a frame was posted was settled before. -/
theorem Settled.of_post {s : Bridge} {asked : Asked} {frame : HostFrame} {terminal : Terminal}
    (h : Settled (s.post frame, asked) terminal) : Settled (s, asked) terminal := by
  obtain ⟨hfound, hready, hallocated, hanswered, haccepted⟩ := h
  simp only [post_terminal, post_entryId, post_opening] at hfound hready hallocated
  exact ⟨hfound, hready, hallocated, hanswered, haccepted⟩

/-- A socket without a terminal has none that is settled. -/
theorem converged_of_none {s : Bridge} {asked : Asked} (h : s.entryId = none) :
    Converged (s, asked) :=
  fun _ hsettled => absurd h hsettled.ready

/-- A terminal that is gone is not settled. -/
theorem converged_of_gone {s : Bridge} {asked : Asked} (h : s.terminal = none) :
    Converged (s, asked) := by
  intro terminal hsettled
  cases h.symm.trans hsettled.found

/-- A socket that may take on a terminal has none. -/
theorem claim_iff (s : Bridge) : s.claim = true ↔ s.entryId = none ∧ s.opening = false := by
  simp only [Bridge.claim, Bool.and_eq_true, Option.isNone_iff_eq_none, Bool.not_eq_true']

/-! ### What one event keeps -/

variable {s t : Bridge} {asked : Asked}

/-- A workspace that is resolved was being resolved. -/
theorem step_resolved {error : Option String} (h : s.step (.resolved error) = some t) :
    s.allocation = .resolving ∧
      error.elim { s with allocation := .spawning s.requested } s.failOpen = t := by
  simp only [Bridge.step] at h
  split at h
  · rename_i hresolving
    cases error with
    | some message => exact ⟨hresolving, Option.some.inj h⟩
    | none => exact ⟨hresolving, Option.some.inj h⟩
  · cases h

/-- A shell that is registered was being spawned, at the size then. -/
theorem step_spawned {shell : Shell} {refusal : Option String}
    (h : s.step (.spawned shell refusal) = some t) :
    ∃ size, s.allocation = .spawning size ∧ s.endOpen size shell refusal = t := by
  simp only [Bridge.step] at h
  split at h
  · rename_i size hspawning
    exact ⟨size, hspawning, Option.some.inj h⟩
  · cases h

/-- So was one that is not. -/
theorem step_failed {error : String} (h : s.step (.failed error) = some t) :
    ∃ size, s.allocation = .spawning size ∧ s.failOpen error = t := by
  simp only [Bridge.step] at h
  split at h
  · rename_i size hspawning
    exact ⟨size, hspawning, Option.some.inj h⟩
  · cases h

/-- `open`. -/
theorem Sound.beginOpen (h : Sound (s, asked)) (cols rows : Option Rat) :
    Sound (s.beginOpen cols rows, asks s asked (.open cols rows)) := by
  unfold Bridge.beginOpen
  rw [asks]
  by_cases hclosed : s.closed = true
  · rw [if_pos hclosed, if_neg fun hboth => Bool.false_ne_true (hboth.1.symm.trans hclosed)]
    exact h
  · by_cases hclaim : s.claim = true
    · obtain ⟨hnone, -⟩ := (claim_iff s).mp hclaim
      rw [if_neg hclosed, if_pos hclaim, if_pos ⟨Bool.eq_false_iff.mpr hclosed, hclaim⟩]
      exact {
        asked := rfl
        applied := fun hid => absurd hnone hid
        bare := fun hid hopen => h.bare hid hopen
        single := fun _ => hnone
        allocating := fun _ => rfl
        gone := fun _ => hnone }
    · rw [if_neg hclosed, if_neg hclaim, if_neg fun hboth => hclaim hboth.2]
      exact h.post _

/-- An allocation that fails. -/
theorem Sound.failOpen (h : Sound (s, asked)) (message : String) :
    Sound (s.failOpen message, asked) :=
  { h.post (.error message) with
    single := fun hopening => absurd hopening Bool.false_ne_true
    allocating := fun hne => absurd rfl hne }

/-- A shell that is registered. -/
theorem Sound.endOpen (h : Sound (s, asked)) (size : Size) (shell : Shell)
    (refusal : Option String) :
    Sound (s.endOpen size shell refusal, asked) := by
  unfold Bridge.endOpen
  by_cases hclosed : s.closed = true
  · rw [if_pos hclosed]
    exact { h with
      single := fun hopening => absurd hopening Bool.false_ne_true
      allocating := fun hne => absurd rfl hne }
  · rw [if_neg hclosed]
    cases refusal with
    | some message =>
      exact {
        asked := (post_requested _ _).symm ▸ h.asked
        applied := fun _ => by simp [Bridge.failOpen]
        bare := fun hid => by simp [Bridge.failOpen] at hid
        single := fun hopening => absurd hopening Bool.false_ne_true
        allocating := fun hne => absurd rfl hne
        gone := fun hgone => absurd ((post_closed _ _).symm.trans hgone) hclosed }
    | none =>
      exact {
        asked := (post_requested _ _).symm ▸ h.asked
        applied := fun _ => by simp
        bare := fun hid => by simp at hid
        single := fun hopening => absurd hopening Bool.false_ne_true
        allocating := fun hne => absurd rfl hne
        gone := fun hgone => absurd ((post_closed _ _).symm.trans hgone) hclosed }

/-- A terminal that is found takes the size the browser measures, unless it has it. -/
theorem reattach_found (hclosed : ¬ s.closed = true) (hclaim : s.claim = true)
    (cols rows : Option Rat) (shell : Shell) (size : Size) :
    ∃ posted, s.reattach cols rows (.ok (shell, size)) = { s with
      entryId := some shell.id
      requested := clamped cols rows s.requested
      applied := some (clamped cols rows s.requested)
      terminal := some ⟨size, size,
        if size = clamped cols rows s.requested then []
        else [⟨clamped cols rows s.requested, false⟩]⟩
      posted := posted } := by
  unfold Bridge.reattach Bridge.applySize Bridge.post
  by_cases hsize : size = clamped cols rows s.requested
  · by_cases hup : s.up = true
    · refine ⟨s.posted ++ [.ready shell], ?_⟩
      simp [hclosed, hclaim, hup, ← hsize]
    · refine ⟨s.posted, ?_⟩
      simp [hclosed, hclaim, hup, ← hsize]
  · by_cases hup : s.up = true
    · refine ⟨s.posted ++ [.ready shell], ?_⟩
      simp [hclosed, hclaim, hup, hsize, Bridge.askResize]
    · refine ⟨s.posted, ?_⟩
      simp [hclosed, hclaim, hup, hsize, Bridge.askResize]

/-- `attach`. -/
theorem Sound.reattach (h : Sound (s, asked)) (cols rows : Option Rat)
    (found : Except String (Shell × Size)) :
    Sound (s.reattach cols rows found, asks s asked (.attach cols rows found)) := by
  cases found with
  | error message =>
    rw [asks]
    · unfold Bridge.reattach
      split
      · exact h
      · split <;> exact h.post _
    all_goals nofun
  | ok found =>
    obtain ⟨shell, size⟩ := found
    rw [asks]
    by_cases hclosed : s.closed = true
    · rw [if_neg fun hboth => Bool.false_ne_true (hboth.1.symm.trans hclosed),
        Bridge.reattach, if_pos hclosed]
      exact h
    · by_cases hclaim : s.claim = true
      · obtain ⟨-, hidle⟩ := (claim_iff s).mp hclaim
        obtain ⟨posted, heq⟩ := reattach_found hclosed hclaim cols rows shell size
        have hasked : asked.size = s.requested := h.asked
        rw [if_pos ⟨Bool.eq_false_iff.mpr hclosed, hclaim⟩, heq, hasked]
        exact {
          asked := rfl
          applied := fun _ => rfl
          bare := nofun
          single := fun hopening => absurd (hidle.symm.trans hopening) Bool.false_ne_true
          allocating := h.allocating
          gone := fun hgone => absurd hgone hclosed }
      · rw [if_neg fun hboth => hclaim hboth.2, Bridge.reattach, if_neg hclosed, if_neg hclaim]
        exact h.post _

/-- What holds of every socket is kept. -/
theorem Sound.step {e : BridgeEvent} (h : Sound (s, asked)) (hstep : s.step e = some t) :
    Sound (t, asks s asked e) := by
  cases e with
  | «open» cols rows =>
    obtain rfl := Option.some.inj hstep
    exact h.beginOpen cols rows
  | attach cols rows found =>
    obtain rfl := Option.some.inj hstep
    exact h.reattach cols rows found
  | resize cols rows =>
    obtain rfl := Option.some.inj hstep
    exact h.applySize cols rows
  | resolved error =>
    obtain ⟨hresolving, rfl⟩ := step_resolved hstep
    cases error with
    | some message => exact h.failOpen message
    | none =>
      exact { h with
        allocating := fun _ => h.allocating fun hidle => nomatch hresolving.symm.trans hidle }
  | spawned shell refusal =>
    obtain ⟨size, -, rfl⟩ := step_spawned hstep
    exact h.endOpen size shell refusal
  | failed error =>
    obtain ⟨size, -, rfl⟩ := step_failed hstep
    exact h.failOpen error
  | take i =>
    obtain ⟨terminal, hterminal, hrest⟩ := Option.bind_eq_some_iff.mp hstep
    obtain ⟨resize, -, hrest⟩ := Option.bind_eq_some_iff.mp hrest
    split at hrest
    · cases hrest
    · obtain rfl := Option.some.inj hrest
      exact { h with
        bare := fun hid hopen => nomatch hterminal.symm.trans (h.bare hid hopen).1 }
  | answer i accepted =>
    obtain ⟨terminal, hterminal, hrest⟩ := Option.bind_eq_some_iff.mp hstep
    obtain ⟨resize, -, hrest⟩ := Option.bind_eq_some_iff.mp hrest
    split at hrest
    · cases hrest
    · obtain rfl := Option.some.inj hrest
      refine Sound.post ?_ _
      exact { h with
        bare := fun hid hopen => nomatch hterminal.symm.trans (h.bare hid hopen).1 }
  | gone =>
    obtain rfl := Option.some.inj hstep
    exact { h with bare := fun hid hopen => ⟨rfl, (h.bare hid hopen).2⟩ }
  | dropped =>
    obtain rfl := Option.some.inj hstep
    exact { h with }
  | stop =>
    obtain rfl := Option.some.inj hstep
    exact { h with
      applied := fun hid => absurd rfl hid
      bare := fun _ hopen => absurd hopen.symm Bool.false_ne_true
      single := fun _ => rfl
      gone := fun _ => rfl }

/-! ### What one event does to a settled terminal -/

/-- A posted frame changes no terminal. -/
theorem Converged.post (h : Converged (s, asked)) (frame : HostFrame) :
    Converged (s.post frame, asked) :=
  fun terminal hsettled => h terminal hsettled.of_post

/-- A socket that allocates a terminal has none. -/
theorem Sound.entryId_none (h : Sound (s, asked)) (hbusy : s.allocation ≠ .idle) :
    s.entryId = none :=
  h.single (h.allocating hbusy)

/-- An allocation that fails leaves no terminal. -/
theorem Sound.converged_failOpen (h : Sound (s, asked)) (hbusy : s.allocation ≠ .idle)
    (message : String) : Converged (s.failOpen message, asked) := by
  apply converged_of_none
  simp only [Bridge.failOpen, post_entryId]
  exact h.entryId_none hbusy

/-- `open`. -/
theorem Converged.beginOpen (h : Converged (s, asked)) (cols rows : Option Rat) :
    Converged (s.beginOpen cols rows, asks s asked (.open cols rows)) := by
  unfold Bridge.beginOpen
  rw [asks]
  by_cases hclosed : s.closed = true
  · rw [if_pos hclosed, if_neg fun hboth => Bool.false_ne_true (hboth.1.symm.trans hclosed)]
    exact h
  · by_cases hclaim : s.claim = true
    · rw [if_neg hclosed, if_pos hclaim]
      apply converged_of_none
      exact ((claim_iff s).mp hclaim).1
    · rw [if_neg hclosed, if_neg hclaim, if_neg fun hboth => hclaim hboth.2]
      exact h.post _

/-- `attach`. -/
theorem Converged.reattach (hsound : Sound (s, asked)) (h : Converged (s, asked))
    (cols rows : Option Rat) (found : Except String (Shell × Size)) :
    Converged (s.reattach cols rows found, asks s asked (.attach cols rows found)) := by
  cases found with
  | error message =>
    rw [asks]
    · unfold Bridge.reattach
      split
      · exact h
      · split <;> exact h.post _
    all_goals nofun
  | ok found =>
    obtain ⟨shell, size⟩ := found
    rw [asks]
    by_cases hclosed : s.closed = true
    · rw [if_neg fun hboth => Bool.false_ne_true (hboth.1.symm.trans hclosed),
        Bridge.reattach, if_pos hclosed]
      exact h
    · by_cases hclaim : s.claim = true
      · obtain ⟨posted, heq⟩ := reattach_found hclosed hclaim cols rows shell size
        have hasked : asked.size = s.requested := hsound.asked
        rw [if_pos ⟨Bool.eq_false_iff.mpr hclosed, hclaim⟩, heq, hasked]
        intro terminal hsettled
        obtain rfl := Option.some.inj hsettled.found
        by_cases hsize : size = clamped cols rows s.requested
        · exact ⟨hsize, hsize⟩
        · have hanswered := hsettled.answered
          rw [if_neg hsize] at hanswered
          cases hanswered
      · rw [if_neg fun hboth => hclaim hboth.2, Bridge.reattach, if_neg hclosed, if_neg hclaim]
        exact h.post _

/-- A shell that is registered at the size asked for. -/
theorem Converged.endOpen (hsound : Sound (s, asked)) {size : Size}
    (hspawning : s.allocation = .spawning size) (shell : Shell) (refusal : Option String)
    (ho : Orderly (s, asked) (.spawned shell refusal)) :
    Converged (s.endOpen size shell refusal, asked) := by
  have hnone : s.entryId = none := hsound.entryId_none (hspawning ▸ nofun)
  unfold Bridge.endOpen
  by_cases hclosed : s.closed = true
  · rw [if_pos hclosed]
    exact converged_of_none hnone
  · have hopen : s.closed = false := Bool.eq_false_iff.mpr hclosed
    rw [if_neg hclosed]
    cases refusal with
    | some message =>
      apply converged_of_gone
      simp only [Bridge.failOpen, post_terminal]
      exact (hsound.bare hnone hopen).1
    | none =>
      have hsize : size = s.requested :=
        Allocation.spawning.inj (hspawning.symm.trans (ho hopen))
      intro terminal hsettled
      obtain rfl := Option.some.inj hsettled.found
      have hasked : asked.size = s.requested := hsound.asked
      exact ⟨hsize.trans hasked.symm, hsize.trans hasked.symm⟩

/-- An answer to the only resize in flight. -/
theorem settleResize_alone {i : ℕ} {accepted : Bool} (h : s.settleResize i accepted = some t)
    {terminal : Terminal} (hterminal : s.terminal = some terminal) {resize : Resize}
    (halone : terminal.resizes = [resize]) :
    t = ({ s with terminal := some { terminal with
      entry := if accepted = true then resize.size else terminal.entry
      resizes := [] } }).post (.size resize.size accepted) := by
  unfold Bridge.settleResize at h
  obtain ⟨_, hfound, hrest⟩ := Option.bind_eq_some_iff.mp h
  obtain rfl := Option.some.inj (hterminal.symm.trans hfound)
  obtain ⟨asked, hget, hrest⟩ := Option.bind_eq_some_iff.mp hrest
  rw [halone] at hget
  obtain ⟨hi, rfl⟩ := List.getElem?_eq_some_iff.mp hget
  have hzero : i = 0 := Nat.lt_one_iff.mp hi
  subst hzero
  split at hrest
  · cases hrest
  · obtain rfl := Option.some.inj hrest
    simp only [halone, List.eraseIdx_cons_zero, List.getElem_cons_zero]

/-- What is in flight after an answer was before. -/
theorem alone_of_eraseIdx {resizes : List Resize} {i : ℕ} {resize : Resize}
    (hget : resizes[i]? = some resize) (hrest : resizes.eraseIdx i = []) : resizes = [resize] := by
  obtain ⟨hi, rfl⟩ := List.getElem?_eq_some_iff.mp hget
  have hlength := List.length_eraseIdx_of_lt hi
  rw [hrest, List.length_nil] at hlength
  have hone : resizes.length = 1 := by omega
  obtain ⟨only, rfl⟩ := List.length_eq_one_iff.mp hone
  have hzero : i = 0 := Nat.lt_one_iff.mp hi
  subst hzero
  rfl

/-- An answer that leaves nothing in flight. -/
theorem Converged.settleResize (hsound : Sound (s, asked)) {i : ℕ} {accepted : Bool}
    (ho : Orderly (s, asked) (.answer i accepted)) (h : s.settleResize i accepted = some t) :
    Converged (t, asks s asked (.answer i accepted)) := by
  have hstep := h
  unfold Bridge.settleResize at h
  obtain ⟨terminal, hterminal, hrest⟩ := Option.bind_eq_some_iff.mp h
  obtain ⟨resize, hget, hrest⟩ := Option.bind_eq_some_iff.mp hrest
  intro after hsettled
  obtain ⟨hbefore, htrue⟩ := Bool.and_eq_true_iff.mp hsettled.accepted
  subst htrue
  split at hrest
  · cases hrest
  · obtain rfl := Option.some.inj hrest
    have hsettled := hsettled.of_post
    obtain rfl := Option.some.inj hsettled.found
    have halone := alone_of_eraseIdx hget hsettled.answered
    obtain ⟨hsize, hpty⟩ := ho hsettled.ready hbefore terminal resize hterminal halone
    have hasked : asked.size = s.requested := hsound.asked
    exact ⟨hpty.trans hasked.symm, hsize.trans hasked.symm⟩

/-- A settled terminal keeps the size asked for as long as events are orderly. -/
theorem Converged.step {e : BridgeEvent} (hsound : Sound (s, asked)) (h : Converged (s, asked))
    (ho : Orderly (s, asked) e) (hstep : s.step e = some t) :
    Converged (t, asks s asked e) := by
  cases e with
  | «open» cols rows =>
    obtain rfl := Option.some.inj hstep
    exact h.beginOpen cols rows
  | attach cols rows found =>
    obtain rfl := Option.some.inj hstep
    exact h.reattach hsound cols rows found
  | resize cols rows =>
    obtain rfl := Option.some.inj hstep
    exact h.applySize hsound cols rows
  | resolved error =>
    obtain ⟨hresolving, rfl⟩ := step_resolved hstep
    have hbusy : s.allocation ≠ .idle := hresolving ▸ nofun
    cases error with
    | some message => exact hsound.converged_failOpen hbusy message
    | none => exact converged_of_none (hsound.entryId_none hbusy)
  | spawned shell refusal =>
    obtain ⟨size, hspawning, rfl⟩ := step_spawned hstep
    exact Converged.endOpen hsound hspawning shell refusal ho
  | failed error =>
    obtain ⟨size, hspawning, rfl⟩ := step_failed hstep
    exact hsound.converged_failOpen (hspawning ▸ nofun) error
  | take i =>
    obtain ⟨terminal, -, hrest⟩ := Option.bind_eq_some_iff.mp hstep
    obtain ⟨resize, hget, hrest⟩ := Option.bind_eq_some_iff.mp hrest
    split at hrest
    · cases hrest
    · obtain rfl := Option.some.inj hrest
      intro after hsettled
      obtain rfl := Option.some.inj hsettled.found
      have hnone : terminal.resizes = [] := (List.set_eq_nil_iff _ _).mp hsettled.answered
      rw [hnone] at hget
      cases hget
  | answer i accepted => exact Converged.settleResize hsound ho hstep
  | gone =>
    obtain rfl := Option.some.inj hstep
    exact converged_of_gone rfl
  | dropped =>
    obtain rfl := Option.some.inj hstep
    exact fun terminal hsettled => h terminal { hsettled with }
  | stop =>
    obtain rfl := Option.some.inj hstep
    exact converged_of_none rfl

/-- An event that is not orderly leaves a settled terminal with another size. -/
theorem not_converged_step {e : BridgeEvent} (hsound : Sound (s, asked))
    (ho : ¬ Orderly (s, asked) e) (hstep : s.step e = some t) :
    ¬ Converged (t, asks s asked e) := by
  have hasked : asked.size = s.requested := hsound.asked
  intro hconverged
  apply ho
  cases e with
  | spawned shell refusal =>
    cases refusal with
    | some message => exact trivial
    | none =>
      intro hopen
      obtain ⟨size, hspawning, rfl⟩ := step_spawned hstep
      have hnone : s.entryId = none := hsound.entryId_none (hspawning ▸ nofun)
      have hclosed : ¬ s.closed = true := Bool.eq_false_iff.mp hopen
      have hsettled : Settled (s.endOpen size shell none, asked) ⟨size, size, []⟩ := by
        rw [Bridge.endOpen, if_neg hclosed]
        exact {
          found := rfl
          ready := by simp
          allocated := rfl
          answered := rfl
          accepted := (hsound.bare hnone hopen).2 }
      have hsize : size = asked.size := (hconverged _ hsettled).1
      rw [hspawning, hsize, hasked]
  | answer i accepted =>
    cases accepted with
    | false => exact trivial
    | true =>
      intro hready haccepted terminal resize hterminal halone
      have heq := settleResize_alone hstep hterminal halone
      have hidle : s.opening = false :=
        Bool.eq_false_iff.mpr fun hopening => hready (hsound.single hopening)
      have hsettled : Settled (t, asks s asked (.answer i true))
          { terminal with entry := resize.size, resizes := [] } := by
        rw [heq]
        exact {
          found := post_terminal _ _
          ready := by simpa using hready
          allocated := by simpa using hidle
          answered := rfl
          accepted := Bool.and_eq_true_iff.mpr ⟨haccepted, rfl⟩ }
      obtain ⟨hpty, hentry⟩ := hconverged _ hsettled
      exact ⟨hentry.trans hasked, hpty.trans hasked⟩
  | _ => exact trivial

/-! ### Runs -/

/-- A settled terminal has the size asked for last throughout a run exactly when each shell is
registered at the size asked for last, and each accepted resize that is answered when no other
is in flight is one to that size, as is the resize the PTY took last. -/
theorem converged_iff_orderly (es : List BridgeEvent) :
    watched.Always Converged watched.init es ↔ watched.Each Orderly watched.init es := by
  have hinit : Sound watched.init := ⟨rfl, fun h => absurd rfl h, fun _ _ => ⟨rfl, rfl⟩,
    fun h => absurd h Bool.false_ne_true, fun h => absurd rfl h,
    fun h => absurd h Bool.false_ne_true⟩
  refine Machine.always_iff_each (I := fun p => Sound p ∧ Converged p) (fun p hp => hp.2)
    ?_ ?_ ⟨hinit, converged_of_none rfl⟩ es
  · rintro ⟨s, asked⟩ e ⟨t, after⟩ ⟨hsound, hconverged⟩ ho hstep
    obtain ⟨ht, rfl⟩ := Machine.observe_step.mp hstep
    exact ⟨hsound.step ht, hconverged.step hsound ho ht⟩
  · rintro ⟨s, asked⟩ e ⟨t, after⟩ ⟨hsound, -⟩ ho hstep
    obtain ⟨ht, rfl⟩ := Machine.observe_step.mp hstep
    exact not_converged_step hsound ho ht

/-- A browser opens a terminal at 80x24 and measures 120x40 while its shell is spawned. -/
def resizedMeanwhile : List BridgeEvent :=
  [.open (some 80) (some 24), .resolved none, .resize (some 120) (some 40),
    .spawned ⟨4711, "/w", "t1", "Terminal 1"⟩ none]

theorem resizedMeanwhile_isSome : (watched.run resizedMeanwhile).isSome = true := by
  decide +kernel

/-- The shell stays at 80x24. -/
theorem size_lost_meanwhile : ¬ ∀ es, watched.Always Converged watched.init es := by
  intro h
  have hconverged := (h resizedMeanwhile).after (Option.some_get resizedMeanwhile_isSome).symm
  have hsettled : Settled ((watched.run resizedMeanwhile).get resizedMeanwhile_isSome)
      ⟨⟨80, 24⟩, ⟨80, 24⟩, []⟩ :=
    ⟨by decide +kernel, by decide +kernel, by decide +kernel, rfl, by decide +kernel⟩
  have hasked : ((watched.run resizedMeanwhile).get resizedMeanwhile_isSome).2.size =
      ⟨120, 40⟩ := by
    decide +kernel
  have hsize := (hconverged _ hsettled).1
  rw [hasked] at hsize
  exact absurd hsize (by decide)

end RemoteWorkspace.Analysis.TerminalGeometry
