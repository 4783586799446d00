import RemoteWorkspace.Analysis.PumpStall
import RemoteWorkspace.Analysis.TerminalTable

/-!
# What the end of a Session releases

`releaseSession` and `disposeAll` release the entries that are in the table when they run.
`open` registers its entry after the provider answered, and asks again neither whether its
Session ended nor whether the registry was disposed of. A terminal whose allocation was in
flight is registered after the release and stays.
-/

set_option autoImplicit false

namespace RemoteWorkspace.Analysis.TerminalRegistry

open RemoteWorkspace.Computation RemoteWorkspace.Model RemoteWorkspace.Model.TerminalRegistry

variable {options : Options} {s t : Registry}

/-! ### Calls of `open` and the releases after them -/

/-- Whether an event releases the Session of a call of `open`. -/
def overtakes (s : Registry) (o : ℕ) : Event → Bool
  | .releaseSession sessionId => (s.openings[o]?).map Opening.sessionId == some sessionId
  | .disposeAll => decide (o < s.openings.length)
  | _ => false

/-- The calls of `open` that were begun before a release of their Session, and the call each
entry was registered by. -/
structure Calls where
  overtaken : ℕ → Bool
  registeredBy : ℕ → ℕ

/-- One step added. -/
def trace (s : Registry) (l : Calls) (e : Event) (_ : Registry) : Calls where
  overtaken o := l.overtaken o || overtakes s o e
  registeredBy := match e with
    | .spawned o _ => Function.update l.registeredBy (s.nextOrdinal + 1) o
    | _ => l.registeredBy

/-- The registry with its calls traced. -/
def traced (options : Options) : Machine (Registry × Calls) Event :=
  (machine options).observe ⟨fun _ => false, fun _ => 0⟩ trace

/-- An entry that a call begun before a release of its Session registered is not in the
table, and its process was asked to terminate. -/
def NoneLeft (p : Registry × Calls) : Prop :=
  ∀ n, 1 ≤ n → n ≤ p.1.nextOrdinal → p.2.overtaken (p.2.registeredBy n) = true →
    n ∉ p.1.table ∧ 0 < (p.1.entries n).handle.terminations

/-- Once all calls of `open` for a Session have settled and all were begun before a release
of it, no entry of the Session is in the table and every process that was spawned for it was
asked to terminate. -/
def Released (p : Registry × Calls) : Prop :=
  ∀ sessionId, (∀ o opening, p.1.openings[o]? = some opening → opening.sessionId = sessionId →
      opening.settled = true ∧ p.2.overtaken o = true) →
    (∀ n ∈ p.1.table, (p.1.entries n).sessionId ≠ sessionId) ∧
      ∀ n, 1 ≤ n → n ≤ p.1.nextOrdinal → (p.1.entries n).sessionId = sessionId →
        0 < (p.1.entries n).handle.terminations

/-- No provider answers a call of `open` with a shell after a release of its Session. -/
def InTime (p : Registry × Calls) : Event → Prop
  | .spawned o _ => p.2.overtaken o = false
  | _ => True

/-! ### The calls of a step -/

/-- A call that has settled. -/
def settledCall (opening : Opening) : Opening := { opening with settled := true }

@[simp] theorem kill_openings (s : Registry) (id : String) :
    (kill s id).openings = s.openings := by
  unfold kill
  split <;> rfl

@[simp] theorem kills_openings (ids : List String) (s : Registry) :
    (ids.foldl kill s).openings = s.openings := by
  induction ids generalizing s with
  | nil => rfl
  | cons id ids ih => exact (ih _).trans (kill_openings s id)

/-- A step begins a call, settles one, or leaves all calls alone. -/
theorem step_openings {e : Event} (h : step options s e = some t) :
    t.openings = s.openings ∨ (∃ opening, t.openings = s.openings ++ [opening]) ∨
      ∃ o, t.openings = s.openings.modify o settledCall := by
  cases e with
  | «open» =>
    obtain rfl := Option.some.inj h
    exact .inr (.inl ⟨_, rfl⟩)
  | spawned o pid =>
    simp only [step] at h
    split at h
    · exact .inr (.inr ⟨o, Option.some.inj h ▸ rfl⟩)
    · cases h
  | spawnFailed o =>
    simp only [step] at h
    split at h
    · exact .inr (.inr ⟨o, Option.some.inj h ▸ rfl⟩)
    · cases h
  | attach id sink =>
    simp only [step] at h
    split at h
    · rename_i hattach
      obtain ⟨n, -, -, rfl⟩ := attach_ok hattach
      exact .inl (Option.some.inj h ▸ rfl)
    · exact .inl (Option.some.inj h ▸ rfl)
  | detach id sink =>
    refine .inl (Option.some.inj h ▸ ?_)
    unfold detach
    split
    · rfl
    · simp only
      split
      · rfl
      · split
        · exact kill_openings _ _
        · rfl
  | kill id => exact .inl (Option.some.inj h ▸ kill_openings _ _)
  | releaseSession sessionId => exact .inl (Option.some.inj h ▸ kills_openings _ _)
  | disposeAll => exact .inl (Option.some.inj h ▸ kills_openings _ _)
  | produce n chunk =>
    obtain ⟨-, heq⟩ := Option.ite_none_right_eq_some.mp h
    exact .inl (Option.some.inj heq ▸ rfl)
  | data n =>
    simp only [step] at h
    split at h
    · refine .inl (Option.some.inj h ▸ ?_)
      unfold dataHandler
      simp only
      split <;> rfl
    · cases h
  | output d i answer =>
    simp only [step] at h
    split at h
    · exact .inl (Option.some.inj h ▸ rfl)
    · cases h
  | settled d i fulfilled =>
    simp only [step] at h
    split at h
    · exact .inl (Option.some.inj h ▸ rfl)
    · cases h
  | react d =>
    simp only [step] at h
    split at h
    · obtain ⟨-, heq⟩ := Option.ite_none_right_eq_some.mp h
      refine .inl (Option.some.inj heq ▸ ?_)
      unfold resumeOutput
      simp only
      split <;> rfl
    · cases h
  | done n outcome =>
    obtain ⟨-, heq⟩ := Option.ite_none_right_eq_some.mp h
    refine .inl (Option.some.inj heq ▸ ?_)
    rw [settle_eq]
    show (if _ then kill _ _ else _).openings = _
    split
    · exact kill_openings _ _
    · rfl
  | valve n =>
    obtain ⟨-, heq⟩ := Option.ite_none_right_eq_some.mp h
    exact .inl (Option.some.inj heq ▸ kill_openings _ _)
  | resized n cols rows =>
    obtain ⟨-, heq⟩ := Option.ite_none_right_eq_some.mp h
    exact .inl (Option.some.inj heq ▸ rfl)

/-- A call keeps its place and its Session, and stays settled. -/
theorem opening_kept {e : Event} {o : ℕ} {opening : Opening}
    (h : step options s e = some t) (ho : s.openings[o]? = some opening) :
    ∃ opening', t.openings[o]? = some opening' ∧ opening'.sessionId = opening.sessionId ∧
      (opening.settled = true → opening'.settled = true) := by
  rcases step_openings h with heq | ⟨new, heq⟩ | ⟨i, heq⟩
  · exact ⟨opening, heq ▸ ho, rfl, id⟩
  · exact ⟨opening, heq ▸ getElem?_concat_of_some ho, rfl, id⟩
  · rw [heq, List.getElem?_modify, ho]
    by_cases hi : i = o
    · exact ⟨settledCall opening, by simp [hi], rfl, fun _ => rfl⟩
    · exact ⟨opening, by simp [hi], rfl, id⟩

/-- A provider that answers with a shell settles a call and registers its entry. -/
theorem spawned_call {o pid : ℕ} (h : step options s (.spawned o pid) = some t) :
    ∃ opening, s.openings[o]? = some opening ∧ t = opened options s o opening pid := by
  simp only [step] at h
  split at h
  · rename_i sessionId request ho
    exact ⟨_, ho, (Option.some.inj h).symm⟩
  · cases h

/-! ### The invariant -/

/-- Every entry was registered by a call of its Session that has settled. -/
structure Registered (p : Registry × Calls) : Prop where
  tabled : Tabled p.1
  call : ∀ n, 1 ≤ n → n ≤ p.1.nextOrdinal → ∃ opening,
    p.1.openings[p.2.registeredBy n]? = some opening ∧ opening.settled = true ∧
      opening.sessionId = (p.1.entries n).sessionId

/-- A new registry. -/
theorem registered_init : Registered (traced options).init := by
  refine ⟨tabled_empty, fun n h1 h2 => ?_⟩
  exact absurd (Nat.le_trans h1 h2) (by simp [traced, Machine.observe, machine, Registry.empty])

variable {p q : Registry × Calls} {e : Event}

/-- A step of the registry, traced. -/
theorem traced_step (h : (traced options).step p e = some q) :
    step options p.1 e = some q.1 ∧ q.2 = trace p.1 p.2 e q.1 :=
  Machine.observe_step.mp h

/-- The entries that were there keep their call. -/
theorem registeredBy_old {n : ℕ} (h : (traced options).step p e = some q)
    (hn : n ≤ p.1.nextOrdinal) : q.2.registeredBy n = p.2.registeredBy n := by
  obtain ⟨-, hq⟩ := traced_step h
  rw [hq]
  cases e with
  | spawned o pid => exact Function.update_of_ne (by omega) ..
  | _ => rfl

/-- An entry that was not there is the one a call just registered. -/
theorem registered_new {n : ℕ} (h : (traced options).step p e = some q)
    (hold : p.1.nextOrdinal < n) (hn : n ≤ q.1.nextOrdinal) :
    ∃ o pid opening, e = .spawned o pid ∧ p.1.openings[o]? = some opening ∧
      q.1 = opened options p.1 o opening pid ∧ n = p.1.nextOrdinal + 1 ∧
      q.2.registeredBy n = o := by
  obtain ⟨hstep, hq⟩ := traced_step h
  cases e with
  | spawned o pid =>
    obtain ⟨opening, ho, hopened⟩ := spawned_call hstep
    have hle : n ≤ p.1.nextOrdinal + 1 := by
      have : q.1.nextOrdinal = p.1.nextOrdinal + 1 := by rw [hopened]; rfl
      omega
    obtain rfl : n = p.1.nextOrdinal + 1 := by omega
    refine ⟨o, pid, opening, rfl, ho, hopened, rfl, ?_⟩
    rw [hq]
    exact Function.update_self ..
  | _ =>
    rw [step_ordinal hstep fun _ _ => nofun] at hn
    exact absurd hn (Nat.not_le.mpr hold)

/-- Every step keeps the invariant. -/
theorem registered_step (hp : Registered p) (h : (traced options).step p e = some q) :
    Registered q := by
  obtain ⟨hstep, -⟩ := traced_step h
  have hcourse := step_course hp.tabled hstep
  refine ⟨tabled_step hp.tabled hstep, fun n h1 h2 => ?_⟩
  by_cases hn : n ≤ p.1.nextOrdinal
  · obtain ⟨opening, ho, hsettled, hsession⟩ := hp.call n h1 hn
    obtain ⟨opening', ho', hsame, hkept⟩ := opening_kept hstep ho
    rw [registeredBy_old h hn]
    exact ⟨opening', ho', hkept hsettled,
      (hsame.trans hsession).trans (hcourse.ages n hn).sessionId.symm⟩
  · obtain ⟨o, pid, opening, -, ho, hopened, rfl, hby⟩ :=
      registered_new h (Nat.not_le.mp hn) h2
    rw [hby, hopened]
    refine ⟨settledCall opening, ?_, rfl, ?_⟩
    · show (p.1.openings.modify o settledCall)[o]? = _
      simp [ho]
    · simp [opened, Registry.assign, openedEntry, settledCall]

/-- An entry whose call was overtaken in a step was released by it. -/
theorem overtaken_leaves {n : ℕ} (hp : Registered p) (h : step options p.1 e = some t)
    (h1 : 1 ≤ n) (h2 : n ≤ p.1.nextOrdinal)
    (hovertakes : overtakes p.1 (p.2.registeredBy n) e = true) : n ∉ t.table := by
  intro hin
  have hold : n ∈ p.1.table :=
    ((step_course hp.tabled h).entered n hin).resolve_right (Nat.not_lt.mpr h2)
  obtain ⟨opening, ho, -, hsession⟩ := hp.call n h1 h2
  have hcloses : Closes p.1 e n := by
    cases e with
    | releaseSession sessionId =>
      simp only [overtakes, ho, Option.map_some, beq_iff_eq, Option.some.injEq] at hovertakes
      exact hsession.symm.trans hovertakes
    | disposeAll => trivial
    | _ => cases hovertakes
  exact closes_leaves hp.tabled h hold hcloses hin

/-- What is not in the table was asked to terminate, so it is enough to look there. -/
theorem noneLeft_iff (hp : Registered p) :
    NoneLeft p ↔ ∀ n ∈ p.1.table, p.2.overtaken (p.2.registeredBy n) = false := by
  constructor
  · intro h n hn
    obtain ⟨h1, h2⟩ := hp.tabled.listed n hn
    by_contra hover
    exact (h n h1 h2 (by simpa using hover)).1 hn
  · intro h n h1 h2 hover
    have hoff : n ∉ p.1.table := fun hn => by
      rw [h n hn] at hover
      cases hover
    exact ⟨hoff, (hp.tabled.fits n).asked hoff h1 h2⟩

/-- Where none is left that was overtaken, nothing is left of a Session whose calls were. -/
theorem released_of_noneLeft (hp : Registered p) (h : NoneLeft p) : Released p := by
  intro sessionId hall
  have hover (n : ℕ) (h1 : 1 ≤ n) (h2 : n ≤ p.1.nextOrdinal)
      (hsession : (p.1.entries n).sessionId = sessionId) :
      n ∉ p.1.table ∧ 0 < (p.1.entries n).handle.terminations := by
    obtain ⟨opening, ho, -, hsame⟩ := hp.call n h1 h2
    exact h n h1 h2 (hall _ opening ho (hsame.trans hsession)).2
  refine ⟨fun n hn hsession => ?_, fun n h1 h2 hsession => (hover n h1 h2 hsession).2⟩
  obtain ⟨h1, h2⟩ := hp.tabled.listed n hn
  exact (hover n h1 h2 hsession).1 hn

/-- A step in which no shell comes late leaves none that was overtaken. -/
theorem noneLeft_step (hp : Registered p) (hleft : NoneLeft p) (htime : InTime p e)
    (h : (traced options).step p e = some q) : NoneLeft q := by
  obtain ⟨hstep, hq⟩ := traced_step h
  have hcourse := step_course hp.tabled hstep
  rw [noneLeft_iff (registered_step hp h)]
  rw [noneLeft_iff hp] at hleft
  intro n hn
  rcases hcourse.entered n hn with hold | hnew
  · obtain ⟨h1, h2⟩ := hp.tabled.listed n hold
    rw [registeredBy_old h h2, hq]
    show (p.2.overtaken (p.2.registeredBy n) || overtakes p.1 (p.2.registeredBy n) e) = false
    rw [hleft n hold, Bool.false_or]
    by_contra hovertakes
    exact overtaken_leaves hp hstep h1 h2 (by simpa using hovertakes) hn
  · obtain ⟨o, pid, opening, rfl, -, -, -, hby⟩ := registered_new h hnew
      ((registered_step hp h).tabled.listed n hn).2
    rw [hby, hq]
    show (p.2.overtaken o || false) = false
    rw [show p.2.overtaken o = false from htime, Bool.false_or]

/-- A shell that comes late is left. -/
theorem noneLeft_lost (hp : Registered p) (htime : ¬ InTime p e)
    (h : (traced options).step p e = some q) : ¬ NoneLeft q := by
  obtain ⟨hstep, hq⟩ := traced_step h
  rw [noneLeft_iff (registered_step hp h)]
  cases e with
  | spawned o pid =>
    obtain ⟨opening, ho, hopened⟩ := spawned_call hstep
    intro hleft
    have hin : p.1.nextOrdinal + 1 ∈ q.1.table := by
      rw [hopened]
      exact List.mem_append.mpr (.inr (List.mem_singleton.mpr rfl))
    have hnone := hleft _ hin
    rw [hq] at hnone
    have hby : (trace p.1 p.2 (.spawned o pid) q.1).registeredBy (p.1.nextOrdinal + 1) = o :=
      Function.update_self ..
    rw [hby] at hnone
    have hovertaken : (p.2.overtaken o || false) = false := hnone
    rw [Bool.or_false] at hovertaken
    exact htime hovertaken
  | _ => exact absurd trivial htime

/-! ### Runs -/

/-- In every run of the registry, the end of a Session and the unload of the plugin leave
nothing of what was opened before them, and nothing at all of a Session once its calls of
`open` have settled, exactly when no provider answers such a call with a shell after the
release. -/
theorem release_complete_iff (options : Options) (es : List Event) :
    (traced options).Always (fun p => NoneLeft p ∧ Released p) (traced options).init es ↔
      (traced options).Each InTime (traced options).init es := by
  refine Machine.always_iff_each (I := fun p => Registered p ∧ NoneLeft p) ?_ ?_ ?_ ?_ es
  · rintro p ⟨hp, hleft⟩
    exact ⟨hleft, released_of_noneLeft hp hleft⟩
  · rintro p e q ⟨hp, hleft⟩ htime h
    exact ⟨registered_step hp h, noneLeft_step hp hleft htime h⟩
  · rintro p e q ⟨hp, -⟩ htime h ⟨hleft, -⟩
    exact noneLeft_lost hp htime h hleft
  · refine ⟨registered_init, (noneLeft_iff registered_init).mpr ?_⟩
    exact fun n hn => absurd hn List.not_mem_nil

/-- A Session ends while a terminal of it is being allocated; then the provider answers. -/
def lateShell : List Event :=
  [.open "s1" "/w" 80 24, .releaseSession "s1", .spawned 0 4711]

/-- Each of its events can happen. -/
theorem lateShell_isSome : ((traced shellOptions).run lateShell).isSome = true := by
  decide +kernel

/-- The terminal is in the table, and its process was not asked to terminate. -/
theorem late_shell_left :
    ¬ ∀ (options : Options) (p : Registry × Calls),
      (traced options).Reachable p → Released p := by
  intro hall
  have hreleased := hall shellOptions _ (Machine.reachable_get lateShell lateShell_isSome) "s1"
  have hleft := (hreleased fun o opening ho _ => ?_).1 1 (by decide +kernel)
  · revert hleft
    decide +kernel
  · have hopenings : (((traced shellOptions).run lateShell).get lateShell_isSome).1.openings =
        [⟨"s1", spawnRequest shellOptions "/w" 80 24, true⟩] := by
      decide +kernel
    rw [hopenings] at ho
    obtain ⟨rfl, rfl⟩ : o = 0 ∧ opening = _ := by
      rcases o with _ | o
      · exact ⟨rfl, (Option.some.inj ho).symm⟩
      · cases ho
    exact ⟨rfl, by decide +kernel⟩

end RemoteWorkspace.Analysis.TerminalRegistry
