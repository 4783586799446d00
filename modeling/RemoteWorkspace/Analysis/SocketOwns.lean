import RemoteWorkspace.Analysis.TerminalGeometry
import RemoteWorkspace.Analysis.TerminalIsolation
import RemoteWorkspace.Model.TerminalSocket

/-!
# What a socket owns

`entryId` is to say which terminal the socket is attached to. The registry takes a sink off a
terminal that is closed from outside without a word to the socket, and `open` sets `entryId`
before it attaches, which fails when the shell has ended by then. In every run without these two
`entryId` is right throughout.
-/

set_option autoImplicit false

namespace RemoteWorkspace.Analysis.SocketOwns

open RemoteWorkspace.Computation RemoteWorkspace.Model RemoteWorkspace.Model.TerminalRegistry
open RemoteWorkspace.Model.TerminalBridge (Bridge)
open RemoteWorkspace.Model.TerminalSocket RemoteWorkspace.Analysis.TerminalRegistry

variable {options : Options} {s t : Registry} {me : TerminalSink}

/-! ### Who is attached to an entry -/

/-- Only entries of the table have sinks. -/
theorem mem_table (hs : Tabled s) {n : ℕ} {k : TerminalSink} (hk : k ∈ (s.entries n).attaches) :
    n ∈ s.table := by
  by_contra hoff
  have hnone : (s.entries n).attaches = [] := ((hs.fits n).gone hoff).1
  rw [hnone] at hk
  cases hk

/-- A release takes all sinks off the entries it releases and off no others. -/
theorem releases_attaches {P : ℕ → Prop} (hs : Tabled s) (h : Releases P s t) {n : ℕ}
    {k : TerminalSink} :
    k ∈ (t.entries n).attaches ↔ k ∈ (s.entries n).attaches ∧ ¬ P n := by
  by_cases hn : n ∈ s.table ∧ P n
  · have hnone : (t.entries n).attaches = [] :=
      congrArg Standing.attaches (h.taken n hn.1 hn.2)
    rw [hnone]
    exact iff_of_false List.not_mem_nil fun hk => hk.2 hn.2
  · have hsame : (t.entries n).attaches = (s.entries n).attaches :=
      congrArg Standing.attaches (h.others n hn)
    rw [hsame]
    exact (and_iff_left_of_imp fun hk hP => hn ⟨mem_table hs hk, hP⟩).symm

/-- Entries to which nobody is attached may be released. -/
theorem kill_attaches (hs : Tabled s) {id : String}
    (hnone : ∀ n, id = idOf n → (s.entries n).attaches = []) {n : ℕ} {k : TerminalSink} :
    k ∈ ((kill s id).entries n).attaches ↔ k ∈ (s.entries n).attaches := by
  rw [releases_attaches hs (kill_releases hs id)]
  refine and_iff_left_of_imp ?_
  intro hk hid
  rw [hnone n hid.symm] at hk
  cases hk

/-- A detach takes one sink off one entry. -/
theorem detach_attaches (hs : Tabled s) (id : String) (sink : TerminalSink) {n : ℕ}
    {k : TerminalSink} :
    k ∈ ((detach options s id sink).entries n).attaches ↔
      k ∈ (s.entries n).attaches ∧ ¬ (k = sink ∧ id = idOf n) := by
  unfold detach
  cases hget : s.get id with
  | none =>
    refine (and_iff_left_of_imp ?_).symm
    rintro hk ⟨-, hid⟩
    rw [hs.get_eq_some.mpr ⟨mem_table hs hk, hid⟩] at hget
    cases hget
  | some m =>
    obtain ⟨hm, rfl⟩ := hs.get_eq_some.mp hget
    have hleft : ∀ entry : TerminalEntry,
        entry.attaches = (s.entries m).attaches.filter (· ≠ sink) →
        (k ∈ ((s.assign m entry).entries n).attaches ↔
          k ∈ (s.entries n).attaches ∧ ¬ (k = sink ∧ idOf m = idOf n)) := by
      intro entry hentry
      by_cases hn : n = m
      · subst hn
        have hself : (s.assign n entry).entries n = entry := Function.update_self ..
        rw [hself, hentry, List.mem_filter, decide_eq_true_eq]
        exact and_congr_right fun _ => not_congr ⟨fun h => ⟨h, rfl⟩, fun h => h.1⟩
      · have hother : (s.assign m entry).entries n = s.entries n := Function.update_of_ne hn ..
        rw [hother]
        exact (and_iff_left fun h => hn (idOf_injective h.2).symm).symm
    simp only
    by_cases hsome : (s.entries m).attaches.filter (· ≠ sink) = []
    · rw [if_neg (not_not.mpr hsome)]
      by_cases hexited : (s.entries m).state = .exited
      · rw [if_pos hexited, kill_attaches (tabled_left hs hm sink), hleft _ rfl]
        intro m' hid
        obtain rfl := idOf_injective hid
        have hself : (s.assign m { s.entries m with
            attaches := (s.entries m).attaches.filter (· ≠ sink) }).entries m = { s.entries m with
            attaches := (s.entries m).attaches.filter (· ≠ sink) } := Function.update_self ..
        rw [hself]
        exact hsome
      · rw [if_neg hexited]
        exact hleft _ rfl
    · rw [if_pos hsome]
      exact hleft _ rfl

/-- An attach that is accepted adds one sink to one entry. -/
theorem attach_attaches {id : String} {sink : TerminalSink} (h : attach s id sink = .ok t) :
    ∃ m, s.get id = some m ∧ (s.entries m).state ≠ .exited ∧ ∀ n k,
      k ∈ (t.entries n).attaches ↔ k ∈ (s.entries n).attaches ∨ k = sink ∧ n = m := by
  obtain ⟨m, hget, hlive, rfl⟩ := attach_ok h
  refine ⟨m, hget, hlive, ?_⟩
  intro n k
  by_cases hn : n = m
  · subst hn
    change k ∈ (Function.update s.entries n _ n).attaches ↔ _
    rw [Function.update_self]
    by_cases hsink : sink ∈ (s.entries n).attaches
    · simp only [if_pos hsink]
      refine (or_iff_left_of_imp ?_).symm
      rintro ⟨rfl, -⟩
      exact hsink
    · simp only [if_neg hsink, List.mem_append, List.mem_singleton, and_true]
  · change k ∈ (Function.update s.entries m _ n).attaches ↔ _
    rw [Function.update_of_ne hn]
    exact (or_iff_left fun h => hn h.2).symm

/-- Other fields may be assigned. -/
theorem assign_attaches {m : ℕ} {entry : TerminalEntry}
    (h : entry.attaches = (s.entries m).attaches) (n : ℕ) :
    ((s.assign m entry).entries n).attaches = (s.entries n).attaches := by
  by_cases hn : n = m
  · subst hn
    change (Function.update s.entries n entry n).attaches = _
    rw [Function.update_self, h]
  · change (Function.update s.entries m entry n).attaches = _
    rw [Function.update_of_ne hn]

/-- The end of a process takes no sink off an entry. -/
theorem settle_attaches (hs : Tabled s) {m : ℕ} (h1 : 1 ≤ m) (h2 : m ≤ s.nextOrdinal)
    (report : Report) {n : ℕ} {k : TerminalSink} :
    k ∈ ((settle s m report).entries n).attaches ↔ k ∈ (s.entries n).attaches := by
  have hended : ∀ n, ((s.assign m { s.entries m with
      state := .exited, handle := { (s.entries m).handle with ended := true } }).entries n).attaches
        = (s.entries n).attaches := assign_attaches rfl
  rw [settle_eq]
  by_cases hnone : (s.entries m).attaches = []
  · simp only [if_pos hnone]
    rw [kill_attaches (tabled_ended hs m), hended]
    intro m' hid
    have hm : (s.entries m).id = idOf m := (hs.fits m).id h1 h2
    obtain rfl := idOf_injective (hm.symm.trans hid)
    rw [hended]
    exact hnone
  · simp only [if_neg hnone]
    rw [hended]

/-- What an event does to a sink that it does not attach or detach: it leaves the entries that
the event closes. -/
theorem step_attaches (hs : Tabled s) {e : TerminalRegistry.Event}
    (h : TerminalRegistry.step options s e = some t) {k : TerminalSink}
    (hattach : ∀ id, e ≠ .attach id k) (hdetach : ∀ id, e ≠ .detach id k) {n : ℕ} :
    k ∈ (t.entries n).attaches ↔ k ∈ (s.entries n).attaches ∧ ¬ Closes s e n := by
  -- most events close nothing, and then it is enough that no sink comes or goes
  have hkept (hcloses : ¬ Closes s e n)
      (hsame : k ∈ (t.entries n).attaches ↔ k ∈ (s.entries n).attaches) :
      k ∈ (t.entries n).attaches ↔ k ∈ (s.entries n).attaches ∧ ¬ Closes s e n :=
    hsame.trans (and_iff_left hcloses).symm
  cases e with
  | spawned o pid =>
    refine hkept not_false ?_
    simp only [TerminalRegistry.step] at h
    split at h
    · obtain rfl := Option.some.inj h
      by_cases hn : n = s.nextOrdinal + 1
      · subst hn
        have hoff : s.nextOrdinal + 1 ∉ s.table := fun hin =>
          absurd (hs.listed _ hin).2 (Nat.not_succ_le_self _)
        refine iff_of_false ?_ fun hk => hoff (mem_table hs hk)
        change k ∉ (Function.update s.entries _ _ _).attaches
        rw [Function.update_self]
        exact List.not_mem_nil
      · change k ∈ (Function.update s.entries _ _ n).attaches ↔ _
        rw [Function.update_of_ne hn]
    · cases h
  | attach id sink =>
    refine hkept not_false ?_
    simp only [TerminalRegistry.step] at h
    split at h
    · rename_i hok
      obtain rfl := Option.some.inj h
      obtain ⟨m, _, _, hmem⟩ := attach_attaches hok
      rw [hmem]
      refine or_iff_left_of_imp ?_
      rintro ⟨rfl, -⟩
      exact absurd rfl (hattach id)
    · exact Option.some.inj h ▸ Iff.rfl
  | detach id sink =>
    refine hkept not_false ?_
    obtain rfl := Option.some.inj h
    rw [detach_attaches hs]
    refine and_iff_left_of_imp ?_
    rintro - ⟨rfl, -⟩
    exact absurd rfl (hdetach id)
  | kill id =>
    obtain rfl := Option.some.inj h
    rw [releases_attaches hs (kill_releases hs id)]
    refine and_congr_right fun hk => not_congr ?_
    rw [Closes, hs.id_of_mem (mem_table hs hk)]
  | releaseSession sessionId =>
    obtain rfl := Option.some.inj h
    rw [releases_attaches hs (releaseSession_releases hs sessionId), Closes]
  | disposeAll =>
    obtain rfl := Option.some.inj h
    rw [releases_attaches hs (disposeAll_releases hs), Closes]
  | done m outcome =>
    refine hkept not_false ?_
    obtain ⟨⟨h1, h2, -⟩, heq⟩ := Option.ite_none_right_eq_some.mp h
    obtain rfl := Option.some.inj heq
    exact settle_attaches hs h1 h2 (reportOf outcome)
  | valve m =>
    refine hkept not_false ?_
    obtain ⟨htimer, heq⟩ := Option.ite_none_right_eq_some.mp h
    obtain rfl := Option.some.inj heq
    have hnone : (s.entries m).attaches = [] := (hs.fits m).timer htimer
    have hvalve : ∀ n, ((s.assign m { s.entries m with detachTimer := false }).entries n).attaches
        = (s.entries n).attaches := assign_attaches rfl
    rw [kill_attaches (tabled_valve hs m), hvalve]
    intro m' hid
    rw [hs.id_of_mem (hs.mem_of_timer htimer)] at hid
    obtain rfl := idOf_injective hid
    rw [hvalve]
    exact hnone
  | _ =>
    refine hkept not_false ?_
    have hsame : (t.entries n).attaches = (s.entries n).attaches :=
      congrArg Standing.attaches ((step_still id h).standing n)
    rw [hsame]

/-! ### The socket -/

/-- The socket is attached to the terminal of an id. -/
def Views (s : Registry) (me : TerminalSink) (id : String) : Prop :=
  ∃ n, s.get id = some n ∧ me ∈ (s.entries n).attaches

theorem views_iff (hs : Tabled s) {id : String} :
    Views s me id ↔ ∃ n, id = idOf n ∧ me ∈ (s.entries n).attaches := by
  constructor
  · rintro ⟨n, hget, hmem⟩
    exact ⟨n, (hs.get_eq_some.mp hget).2, hmem⟩
  · rintro ⟨n, hid, hmem⟩
    exact ⟨n, hs.get_eq_some.mpr ⟨mem_table hs hmem, hid⟩, hmem⟩

/-- The socket owns what it is attached to: `entryId` says so; a socket that owns nothing and is
not opening a terminal may claim one; and a closed one has left all terminals. No shell runs
unregistered: one that is not in the table was asked to terminate. -/
structure Owned (me : TerminalSink) (p : Socket) : Prop where
  attached : ∀ id, p.bridge.entryId = some id ↔
    p.bridge.closed = false ∧ Views p.registry me id
  able : p.bridge.entryId = none → p.call = .idle → p.bridge.claim = true
  left : p.bridge.closed = true → ∀ n, me ∉ (p.registry.entries n).attaches
  registered : ∀ n, 1 ≤ n → n ≤ p.registry.nextOrdinal →
    n ∈ p.registry.table ∨ 0 < (p.registry.entries n).handle.terminations

/-- The steps that keep it: when the rest of `open` runs on an open socket, its shell has not
ended, and no other event closes a terminal the socket is attached to. -/
def Gentle (me : TerminalSink) (p : Socket) : SocketEvent → Prop
  | .resumed => p.bridge.closed = false →
    ∀ n, p.call = .registered n → (p.registry.entries n).state ≠ .exited
  | .registry e => ∀ n, me ∈ (p.registry.entries n).attaches → ¬ Closes p.registry e n
  | _ => True

/-! ### The variables of the socket -/

section Variables

open RemoteWorkspace.Analysis.TerminalGeometry

variable (b : Bridge)

theorem applySize_variables (cols rows : Option Rat) :
    (b.applySize cols rows).entryId = b.entryId ∧ (b.applySize cols rows).closed = b.closed ∧
      (b.applySize cols rows).opening = b.opening := by
  unfold Bridge.applySize
  simp only
  split
  · exact ⟨rfl, rfl, rfl⟩
  · split
    · exact ⟨rfl, rfl, rfl⟩
    · exact ⟨rfl, rfl, rfl⟩

theorem beginOpen_variables (cols rows : Option Rat) :
    (b.beginOpen cols rows).entryId = b.entryId ∧ (b.beginOpen cols rows).closed = b.closed ∧
      (b.beginOpen cols rows).opening = (b.opening || (!b.closed && b.claim)) := by
  unfold Bridge.beginOpen
  cases hclosed : b.closed with
  | true => simp [hclosed]
  | false =>
    cases hclaim : b.claim with
    | true => simp
    | false => simp [hclosed]

theorem failOpen_variables (message : String) :
    (b.failOpen message).entryId = b.entryId ∧ (b.failOpen message).closed = b.closed ∧
      (b.failOpen message).opening = false :=
  ⟨post_entryId b _, post_closed b _, rfl⟩

theorem endOpen_variables (size : TerminalBridge.Size) (shell : TerminalBridge.Shell)
    (refusal : Option String) :
    (b.endOpen size shell refusal).entryId =
        (if b.closed = true then b.entryId else some shell.id) ∧
      (b.endOpen size shell refusal).closed = b.closed ∧
      (b.endOpen size shell refusal).opening = false := by
  unfold Bridge.endOpen
  by_cases hclosed : b.closed = true
  · rw [if_pos hclosed, if_pos hclosed]
    exact ⟨rfl, rfl, rfl⟩
  · rw [if_neg hclosed, if_neg hclosed]
    cases refusal with
    | none => exact ⟨post_entryId _ _, post_closed _ _, rfl⟩
    | some message => exact failOpen_variables _ message

theorem reattach_variables (cols rows : Option Rat)
    (found : Except String (TerminalBridge.Shell × TerminalBridge.Size)) :
    (b.reattach cols rows found).closed = b.closed ∧
      (b.reattach cols rows found).opening = b.opening ∧
      (b.reattach cols rows found).entryId =
        if b.closed = false ∧ b.claim = true then found.toOption.elim b.entryId (some ·.1.id)
        else b.entryId := by
  unfold Bridge.reattach
  by_cases hclosed : b.closed = true
  · rw [if_pos hclosed, if_neg fun h => Bool.false_ne_true (h.1.symm.trans hclosed)]
    exact ⟨rfl, rfl, rfl⟩
  · rw [if_neg hclosed]
    by_cases hclaim : b.claim = true
    · rw [if_pos hclaim, if_pos ⟨Bool.eq_false_of_not_eq_true hclosed, hclaim⟩]
      cases found with
      | error message => exact ⟨post_closed b _, post_opening b _, post_entryId b _⟩
      | ok shell =>
        obtain ⟨shell, size⟩ := shell
        obtain ⟨hentry, hclosed', hopening⟩ := applySize_variables
          ({ b with
            entryId := some shell.id, applied := some size
            terminal := some ⟨size, size, []⟩ }.post (.ready shell)) cols rows
        exact ⟨hclosed'.trans (post_closed _ _), hopening.trans (post_opening _ _),
          hentry.trans (post_entryId _ _)⟩
    · rw [if_neg hclaim, if_neg fun h => hclaim h.2]
      exact ⟨post_closed b _, post_opening b _, post_entryId b _⟩

end Variables

/-- The same, entry by entry: the socket is attached to the one that `entryId` names and to no
other; and while it opens a terminal it says so, owns none, and the shell that was registered for
it has an entry. -/
structure Kept (me : TerminalSink) (p : Socket) : Prop where
  tabled : Tabled p.registry
  viewed : ∀ n, me ∈ (p.registry.entries n).attaches ↔ p.bridge.entryId = some (idOf n)
  named : ∀ id, p.bridge.entryId = some id → p.bridge.closed = false ∧ ∃ n, id = idOf n
  opening : p.bridge.opening = true ↔ p.call ≠ .idle
  owns : p.call ≠ .idle → p.bridge.entryId = none
  entry : ∀ n, p.call = .registered n → 1 ≤ n ∧ n ≤ p.registry.nextOrdinal

/-- No shell runs unregistered. -/
theorem registered_of_tabled (hs : Tabled s) (n : ℕ) (h1 : 1 ≤ n) (h2 : n ≤ s.nextOrdinal) :
    n ∈ s.table ∨ 0 < (s.entries n).handle.terminations := by
  by_cases hn : n ∈ s.table
  · exact Or.inl hn
  · exact Or.inr ((hs.fits n).asked hn h1 h2)

/-- So the socket owns what it is attached to. -/
theorem Kept.owned {p : Socket} (hp : Kept me p) : Owned me p := by
  refine ⟨?_, ?_, ?_, registered_of_tabled hp.tabled⟩
  · intro id
    rw [views_iff hp.tabled]
    constructor
    · intro hid
      obtain ⟨hclosed, n, rfl⟩ := hp.named id hid
      exact ⟨hclosed, n, rfl, (hp.viewed n).mpr hid⟩
    · rintro ⟨-, n, rfl, hmem⟩
      exact (hp.viewed n).mp hmem
  · intro hnone hidle
    have hdone : p.bridge.opening ≠ true := fun h => hp.opening.mp h hidle
    rw [Bridge.claim, hnone, Bool.eq_false_of_not_eq_true hdone]
    rfl
  · intro hclosed n hmem
    have hopen := (hp.named _ ((hp.viewed n).mp hmem)).1
    rw [hclosed] at hopen
    cases hopen

/-- A socket that was just accepted. -/
theorem kept_accepted : Kept me .accepted := by
  refine ⟨tabled_empty, ?_, ?_, ?_, ?_, ?_⟩
  · intro n
    exact iff_of_false List.not_mem_nil fun h => by cases h
  · intro id hid
    cases hid
  · exact iff_of_false (fun h => by cases h) (not_not.mpr rfl)
  · intro hbusy
    exact absurd rfl hbusy
  · intro n hn
    cases hn

/-- A socket that keeps its terminals and its `entryId`. -/
theorem Kept.same {p q : Socket} (hp : Kept me p) (htabled : Tabled q.registry)
    (hsame : ∀ n, me ∈ (q.registry.entries n).attaches ↔ me ∈ (p.registry.entries n).attaches)
    (hentryId : q.bridge.entryId = p.bridge.entryId) (hclosed : q.bridge.closed = p.bridge.closed)
    (hopening : q.bridge.opening = true ↔ q.call ≠ .idle)
    (howns : q.call ≠ .idle → p.bridge.entryId = none)
    (hentry : ∀ n, q.call = .registered n → 1 ≤ n ∧ n ≤ q.registry.nextOrdinal) : Kept me q := by
  refine ⟨htabled, ?_, ?_, hopening, ?_, hentry⟩
  · intro n
    rw [hsame, hentryId]
    exact hp.viewed n
  · rw [hentryId, hclosed]
    exact hp.named
  · rw [hentryId]
    exact howns

/-- The same where the registry and the `open` that is going on are as they were. -/
theorem Kept.variables {p q : Socket} (hp : Kept me p) (hregistry : q.registry = p.registry)
    (hcall : q.call = p.call) (hentryId : q.bridge.entryId = p.bridge.entryId)
    (hclosed : q.bridge.closed = p.bridge.closed)
    (hopening : q.bridge.opening = p.bridge.opening) : Kept me q := by
  refine hp.same (hregistry ▸ hp.tabled) (fun n => by rw [hregistry]) hentryId hclosed ?_ ?_ ?_
  · rw [hopening, hcall]
    exact hp.opening
  · rw [hcall]
    exact hp.owns
  · rw [hcall, hregistry]
    exact hp.entry

/-- A socket whose `open` is over and came to nothing. -/
theorem Kept.done {p q : Socket} (hp : Kept me p) (htabled : Tabled q.registry)
    (hsame : ∀ n, me ∈ (q.registry.entries n).attaches ↔ me ∈ (p.registry.entries n).attaches)
    (hentryId : q.bridge.entryId = p.bridge.entryId) (hclosed : q.bridge.closed = p.bridge.closed)
    (hopening : q.bridge.opening = false) (hidle : q.call = .idle) : Kept me q := by
  refine hp.same htabled hsame hentryId hclosed ?_ (fun h => absurd hidle h) ?_
  · rw [hopening]
    exact iff_of_false Bool.false_ne_true (not_not.mpr hidle)
  · intro n hn
    rw [hidle] at hn
    cases hn

/-- A socket without a terminal that is attached to one. -/
theorem Kept.attached {p q : Socket} (hp : Kept me p) (hnone : p.bridge.entryId = none)
    {id : String} {n : ℕ} (hattach : attach p.registry id me = .ok q.registry)
    (hget : p.registry.get id = some n)
    (hentryId : q.bridge.entryId = some (p.registry.entries n).id)
    (hclosed : q.bridge.closed = false) (hopening : q.bridge.opening = false)
    (hidle : q.call = .idle) : Kept me q := by
  obtain ⟨m, hget', _, hmem⟩ := attach_attaches hattach
  obtain rfl := Option.some.inj (hget.symm.trans hget')
  have hid : (p.registry.entries n).id = idOf n :=
    hp.tabled.id_of_mem (hp.tabled.get_eq_some.mp hget).1
  rw [hid] at hentryId
  refine ⟨tabled_attach hp.tabled hattach, ?_, ?_, ?_, ?_, ?_⟩
  · intro m
    rw [hmem, hp.viewed, hnone, hentryId]
    constructor
    · rintro (h | ⟨-, rfl⟩)
      · cases h
      · rfl
    · intro h
      exact Or.inr ⟨rfl, idOf_injective (Option.some.inj h).symm⟩
  · intro id' hid'
    rw [hentryId] at hid'
    exact ⟨hclosed, n, (Option.some.inj hid').symm⟩
  · rw [hopening]
    exact iff_of_false Bool.false_ne_true (not_not.mpr hidle)
  · intro hbusy
    exact absurd hidle hbusy
  · intro m hm
    rw [hidle] at hm
    cases hm

/-- A socket that leaves all terminals. -/
theorem Kept.leaves {p q : Socket} (hp : Kept me p) (htabled : Tabled q.registry)
    (hleft : ∀ n, me ∉ (q.registry.entries n).attaches) (hentryId : q.bridge.entryId = none)
    (hopening : q.bridge.opening = p.bridge.opening) (hcall : q.call = p.call)
    (hordinal : q.registry.nextOrdinal = p.registry.nextOrdinal) : Kept me q := by
  refine ⟨htabled, ?_, ?_, ?_, fun _ => hentryId, ?_⟩
  · intro n
    rw [hentryId]
    exact iff_of_false (hleft n) fun h => by cases h
  · intro id hid
    rw [hentryId] at hid
    cases hid
  · rw [hopening, hcall]
    exact hp.opening
  · rw [hcall, hordinal]
    exact hp.entry

/-! ### Steps -/

/-- An id that the registry finds. -/
theorem get_of_entryOf {id : String} {n : ℕ} (h : entryOf s id = .ok n) : s.get id = some n := by
  unfold entryOf at h
  split at h
  · cases h
  · rename_i hget
    obtain rfl := Except.ok.inj h
    exact hget

/-- A frame that asks for a terminal gets past `claim` on an open socket that has none. -/
theorem claims_iff {p : Socket} : p.claims = true ↔
    p.bridge.closed = false ∧ p.bridge.claim = true := by
  rw [Socket.claims, Bool.and_eq_true, Bool.not_eq_true']

/-- An `attach` frame. -/
theorem Kept.reattach {p : Socket} (hp : Kept me p) (sessionId : String) (id : Option String)
    (cols rows : Option Rat) : Kept me (p.reattach me sessionId id cols rows) := by
  unfold Socket.reattach
  cases hclaims : p.claims with
  | false =>
    have hrefused : ¬ (p.bridge.closed = false ∧ p.bridge.claim = true) := fun h =>
      Bool.false_ne_true (hclaims.symm.trans (claims_iff.mpr h))
    obtain ⟨hclosed, hopening, hentryId⟩ := reattach_variables p.bridge cols rows (.error "")
    rw [if_neg hrefused] at hentryId
    exact hp.variables rfl rfl hentryId hclosed hopening
  | true =>
    obtain ⟨hopen, hclaim⟩ := claims_iff.mp hclaims
    rw [if_neg (by decide)]
    cases hfound : TerminalRegistry.reattach p.registry sessionId id me with
    | error message =>
      obtain ⟨hclosed, hopening, hentryId⟩ :=
        reattach_variables p.bridge cols rows (.error message)
      rw [if_pos ⟨hopen, hclaim⟩] at hentryId
      exact hp.variables rfl rfl hentryId hclosed hopening
    | ok found =>
      obtain ⟨n, registry⟩ := found
      obtain ⟨_, _, hattachId⟩ := bind_eq_ok_iff.mp hfound
      obtain ⟨x, rfl, hentry, hattach⟩ := attachId_ok hattachId
      obtain ⟨hclosed, hopening, hentryId⟩ := reattach_variables p.bridge cols rows
        (.ok (shellOf (p.registry.entries n), sizeOf (p.registry.entries n)))
      rw [if_pos ⟨hopen, hclaim⟩] at hentryId
      have hclaim' := (TerminalGeometry.claim_iff p.bridge).mp hclaim
      have hidle : p.call = .idle := by
        by_contra hbusy
        exact Bool.false_ne_true (hclaim'.2.symm.trans (hp.opening.mpr hbusy))
      exact hp.attached hclaim'.1 hattach (get_of_entryOf hentry) hentryId
        (hclosed.trans hopen) (hopening.trans hclaim'.2) hidle

/-- The rest of `open`, when the shell has not ended or the socket is closed. -/
theorem Kept.endOpen {p : Socket} (hp : Kept me p) {n : ℕ} (hcall : p.call = .registered n)
    (hlive : p.bridge.closed = false → (p.registry.entries n).state ≠ .exited) :
    Kept me (p.endOpen me n) := by
  have hnone : p.bridge.entryId = none := hp.owns (by rw [hcall]; exact fun h => by cases h)
  have hvariables := endOpen_variables p.bridge (sizeOf (p.registry.entries n))
    (shellOf (p.registry.entries n))
  unfold Socket.endOpen
  cases hclosed : p.bridge.closed with
  | true =>
    obtain ⟨hentryId, hclosed', hopening⟩ := hvariables none
    rw [if_pos hclosed] at hentryId
    have hleft := hp.owned.left hclosed
    rw [if_pos rfl]
    refine hp.done (hp.tabled.releases (kill_releases hp.tabled _)) ?_ hentryId hclosed'
      hopening rfl
    intro m
    refine iff_of_false ?_ (hleft m)
    rw [releases_attaches hp.tabled (kill_releases hp.tabled _)]
    exact fun h => hleft m h.1
  | false =>
    have hn : n ∈ p.registry.table := by
      by_contra hoff
      have hgone : (p.registry.entries n).state = .exited := ((hp.tabled.fits n).gone hoff).2.1
      exact hlive hclosed hgone
    have hget : p.registry.get (p.registry.entries n).id = some n :=
      hp.tabled.get_eq_some.mpr ⟨hn, hp.tabled.id_of_mem hn⟩
    obtain ⟨registry, hattach⟩ := @attach_open _ _ me _ hget (hlive hclosed)
    obtain ⟨hentryId, hclosed', hopening⟩ := hvariables none
    rw [if_neg (by rw [hclosed]; exact Bool.false_ne_true)] at hentryId
    rw [if_neg Bool.false_ne_true]
    simp only [hattach]
    exact hp.attached hnone hattach hget hentryId (hclosed'.trans hclosed) hopening rfl

/-- `stop`. -/
theorem Kept.stop {p : Socket} (hp : Kept me p) : Kept me (p.stop options me) := by
  unfold Socket.stop
  by_cases hclosed : p.bridge.closed = true
  · rw [if_pos hclosed]
    exact hp
  · rw [if_neg hclosed]
    cases hentryId : p.bridge.entryId with
    | none =>
      refine hp.leaves hp.tabled ?_ rfl rfl rfl rfl
      intro n hmem
      rw [hp.viewed, hentryId] at hmem
      cases hmem
    | some id =>
      refine hp.leaves (tabled_detach hp.tabled id me) ?_ rfl rfl rfl
        (steady_detach p.registry id me).nextOrdinal
      intro n hmem
      rw [detach_attaches hp.tabled, hp.viewed, hentryId] at hmem
      exact hmem.2 ⟨rfl, Option.some.inj hmem.1⟩

/-- A shell that was registered has an ordinal. -/
theorem spawned_ordinal {o pid : ℕ} {r : Registry}
    (h : TerminalRegistry.step options s (.spawned o pid) = some r) : 1 ≤ r.nextOrdinal := by
  simp only [TerminalRegistry.step] at h
  split at h
  · obtain rfl := Option.some.inj h
    exact Nat.succ_pos _
  · cases h

/-- An event of the registry that neither attaches nor detaches the socket, nor closes a terminal
it is attached to. -/
theorem Kept.step_attaches {p : Socket} (hp : Kept me p) {e : TerminalRegistry.Event}
    {r : Registry} (h : TerminalRegistry.step options p.registry e = some r)
    (hattach : ∀ id, e ≠ .attach id me) (hdetach : ∀ id, e ≠ .detach id me)
    (hcloses : ∀ n, me ∈ (p.registry.entries n).attaches → ¬ Closes p.registry e n) (n : ℕ) :
    me ∈ (r.entries n).attaches ↔ me ∈ (p.registry.entries n).attaches := by
  rw [SocketOwns.step_attaches hp.tabled h hattach hdetach]
  exact and_iff_left_of_imp (hcloses n)

/-- Every step that is gentle keeps it. -/
theorem kept_step {p q : Socket} {e : SocketEvent} (hp : Kept me p) (he : Gentle me p e)
    (h : p.step options me e = some q) : Kept me q := by
  cases e with
  | «open» sessionId cols rows =>
    obtain rfl := Option.some.inj h
    obtain ⟨hentryId, hclosed, hopening⟩ := beginOpen_variables p.bridge cols rows
    cases hclaims : p.claims with
    | true =>
      have hclaim := (TerminalGeometry.claim_iff p.bridge).mp (claims_iff.mp hclaims).2
      have hstarted : (p.bridge.beginOpen cols rows).opening = true := by
        rw [hopening]
        exact Bool.or_eq_true_iff.mpr (Or.inr hclaims)
      exact hp.same hp.tabled (fun _ => Iff.rfl) hentryId hclosed
        (iff_of_true hstarted fun h => by cases h) (fun _ => hclaim.1) (fun n hn => by cases hn)
    | false =>
      have hsame : (p.bridge.beginOpen cols rows).opening = p.bridge.opening := by
        rw [hopening]
        exact (congrArg (p.bridge.opening || ·) hclaims).trans (Bool.or_false _)
      exact hp.variables rfl rfl hentryId hclosed hsame
  | attach sessionId id cols rows =>
    obtain rfl := Option.some.inj h
    exact hp.reattach sessionId id cols rows
  | input data =>
    obtain rfl := Option.some.inj h
    unfold Socket.input
    split
    · split
      · exact hp.variables rfl rfl rfl rfl rfl
      · exact hp
    · exact hp.variables rfl rfl rfl rfl rfl
  | resize cols rows =>
    obtain rfl := Option.some.inj h
    obtain ⟨hentryId, hclosed, hopening⟩ := applySize_variables p.bridge cols rows
    exact hp.variables rfl rfl hentryId hclosed hopening
  | resolved cwd =>
    simp only [Socket.step] at h
    split at h
    · rename_i message _
      obtain rfl := Option.some.inj h
      obtain ⟨hentryId, hclosed, hopening⟩ := failOpen_variables p.bridge message
      exact hp.done hp.tabled (fun _ => Iff.rfl) hentryId hclosed hopening rfl
    · rename_i cwd hcall
      obtain ⟨r, hstep, rfl⟩ := Option.map_eq_some_iff.mp h
      have hbusy : p.call ≠ .idle := by
        rw [hcall]
        exact fun h => by cases h
      exact hp.same (tabled_step hp.tabled hstep)
        (hp.step_attaches hstep (fun id h => by cases h) (fun id h => by cases h)
          fun _ _ => not_false)
        rfl rfl (iff_of_true (hp.opening.mpr hbusy) fun h => by cases h) (fun _ => hp.owns hbusy)
        (fun n hn => by cases hn)
    · cases h
  | spawned pid =>
    simp only [Socket.step] at h
    split at h
    · rename_i o hcall
      obtain ⟨r, hstep, rfl⟩ := Option.map_eq_some_iff.mp h
      have hbusy : p.call ≠ .idle := by
        rw [hcall]
        exact fun h => by cases h
      refine hp.same (tabled_step hp.tabled hstep)
        (hp.step_attaches hstep (fun id h => by cases h) (fun id h => by cases h)
          fun _ _ => not_false)
        rfl rfl (iff_of_true (hp.opening.mpr hbusy) fun h => by cases h) (fun _ => hp.owns hbusy) ?_
      intro n hn
      obtain rfl := Call.registered.inj hn
      exact ⟨spawned_ordinal hstep, Nat.le_refl _⟩
    · cases h
  | failed error =>
    simp only [Socket.step] at h
    split at h
    · rename_i o hcall
      obtain ⟨r, hstep, rfl⟩ := Option.map_eq_some_iff.mp h
      obtain ⟨hentryId, hclosed, hopening⟩ := failOpen_variables p.bridge error
      exact hp.done (tabled_step hp.tabled hstep)
        (hp.step_attaches hstep (fun id h => by cases h) (fun id h => by cases h)
          fun _ _ => not_false)
        hentryId hclosed hopening rfl
    · cases h
  | resumed =>
    simp only [Socket.step] at h
    split at h
    · rename_i n hcall
      obtain rfl := Option.some.inj h
      exact hp.endOpen hcall fun hclosed => he hclosed n hcall
    · cases h
  | dropped =>
    obtain rfl := Option.some.inj h
    exact hp.variables rfl rfl rfl rfl rfl
  | stop =>
    obtain rfl := Option.some.inj h
    exact hp.stop
  | registry e =>
    obtain ⟨hforeign, hmap⟩ := Option.ite_none_right_eq_some.mp h
    obtain ⟨r, hstep, rfl⟩ := Option.map_eq_some_iff.mp hmap
    refine hp.same (tabled_step hp.tabled hstep)
      (hp.step_attaches hstep ?_ ?_ he) rfl rfl hp.opening hp.owns ?_
    · rintro id rfl
      exact hforeign rfl
    · rintro id rfl
      exact hforeign rfl
    · intro n hn
      have hmore := (step_course hp.tabled hstep).ordinal
      have hentry := hp.entry n hn
      exact ⟨hentry.1, Nat.le_trans hentry.2 hmore⟩

/-! ### What is lost otherwise -/

/-- An attach to a terminal that has ended is refused. -/
theorem attach_exited (hs : Tabled s) {n : ℕ} (h1 : 1 ≤ n) (h2 : n ≤ s.nextOrdinal)
    (hexited : (s.entries n).state = .exited) :
    ∃ message, attach s (s.entries n).id me = .error message := by
  cases hattach : attach s (s.entries n).id me with
  | error message => exact ⟨message, rfl⟩
  | ok r =>
    obtain ⟨m, hget, hlive, _⟩ := attach_attaches hattach
    have hid : (s.entries n).id = idOf n := (hs.fits n).id h1 h2
    obtain rfl := idOf_injective (hid.symm.trans (hs.get_eq_some.mp hget).2)
    exact absurd hexited hlive

/-- Then `open` leaves `entryId` set all the same. -/
theorem endOpen_exited {p : Socket} (hp : Kept me p) {n : ℕ} (hcall : p.call = .registered n)
    (hclosed : p.bridge.closed = false) (hexited : (p.registry.entries n).state = .exited) :
    (p.endOpen me n).bridge.entryId = some (p.registry.entries n).id ∧
      (p.endOpen me n).registry = p.registry := by
  obtain ⟨h1, h2⟩ := hp.entry n hcall
  obtain ⟨message, hattach⟩ := @attach_exited _ me hp.tabled _ h1 h2 hexited
  have hopen : ¬ p.bridge.closed = true := by
    rw [hclosed]
    exact Bool.false_ne_true
  unfold Socket.endOpen
  rw [if_neg hopen]
  simp only [hattach]
  refine ⟨(endOpen_variables p.bridge _ _ (some message)).1.trans (if_neg hopen), ?_⟩
  trivial

/-- A step that is not gentle leaves `entryId` with a terminal the socket is not attached to. -/
theorem not_owned_step {p q : Socket} {e : SocketEvent} (hp : Kept me p) (he : ¬ Gentle me p e)
    (h : p.step options me e = some q) : ¬ Owned me q := by
  intro hq
  cases e with
  | resumed =>
    simp only [Gentle, not_forall, not_not] at he
    obtain ⟨hclosed, n, hcall, hexited⟩ := he
    simp only [Socket.step, hcall] at h
    obtain rfl := Option.some.inj h
    obtain ⟨hentryId, hregistry⟩ := endOpen_exited hp hcall hclosed hexited
    obtain ⟨-, hviews⟩ := (hq.attached _).mp hentryId
    rw [hregistry] at hviews
    obtain ⟨m, -, hmem⟩ := hviews
    have hnone : p.bridge.entryId = none := hp.owns (by rw [hcall]; exact fun h => by cases h)
    rw [hp.viewed, hnone] at hmem
    cases hmem
  | registry e =>
    simp only [Gentle, not_forall, not_not] at he
    obtain ⟨n, hmem, hcloses⟩ := he
    obtain ⟨hforeign, hmap⟩ := Option.ite_none_right_eq_some.mp h
    obtain ⟨r, hstep, rfl⟩ := Option.map_eq_some_iff.mp hmap
    have hentryId := (hp.viewed n).mp hmem
    obtain ⟨-, hviews⟩ := (hq.attached (idOf n)).mp hentryId
    obtain ⟨m, hid, hstill⟩ := (views_iff (tabled_step hp.tabled hstep)).mp hviews
    obtain rfl := idOf_injective hid
    refine ((SocketOwns.step_attaches hp.tabled hstep ?_ ?_).mp hstill).2 hcloses
    · rintro id rfl
      exact hforeign rfl
    · rintro id rfl
      exact hforeign rfl
  | _ => exact he trivial

/-- In every run the socket owns what it is attached to throughout exactly when no terminal it is
attached to is closed from outside, and no shell has ended before the rest of its `open` runs. -/
theorem owned_iff_gentle (options : Options) (me : TerminalSink) (es : List SocketEvent) :
    (TerminalSocket.machine options me).Always (Owned me) .accepted es ↔
      (TerminalSocket.machine options me).Each (Gentle me) .accepted es :=
  Machine.always_iff_each (I := Kept me) (fun _ hp => hp.owned) (fun _ _ _ => kept_step)
    (fun _ _ _ => not_owned_step) kept_accepted es

/-- A shell that has ended when the rest of its `open` runs. -/
def endedEarly : List SocketEvent :=
  [.open "s" none none, .resolved (.ok "/w"), .spawned 7,
    .registry (.done 1 (.ok ⟨some 0, none⟩)), .resumed]

/-- A terminal that is closed by the chooser while the socket is attached to it. -/
def closedOutside : List SocketEvent :=
  [.open "s" none none, .resolved (.ok "/w"), .spawned 7, .resumed, .registry (.kill "t1")]

/-- A registry with a plain shell. -/
def plain : Options where
  shell := "/bin/sh"
  shellArgs := []
  env := []
  graceMs := 0
  detachGraceMs := 0
  machine := id
  directory := id

/-- After both, the socket says that it owns a terminal and is attached to none. -/
theorem owned_lost :
    (∃ p, (TerminalSocket.machine plain 0).run endedEarly = some p ∧ ¬ Owned 0 p) ∧
      ∃ p, (TerminalSocket.machine plain 0).run closedOutside = some p ∧ ¬ Owned 0 p := by
  constructor
  · refine ⟨_, rfl, fun h => ?_⟩
    obtain ⟨-, n, hget, -⟩ := (h.attached "t1").mp rfl
    cases hget
  · refine ⟨_, rfl, fun h => ?_⟩
    obtain ⟨-, n, hget, -⟩ := (h.attached "t1").mp rfl
    cases hget

end RemoteWorkspace.Analysis.SocketOwns
