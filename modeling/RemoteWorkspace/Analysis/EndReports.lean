import RemoteWorkspace.Analysis.ExitReport
import RemoteWorkspace.Analysis.TerminalTable

/-!
# Who learns that a terminal ended

`settle` tells every sink that is attached; `kill`, which the close route, the end of a
Session and the unload of the plugin go through, clears the sinks and tells none of them. The
`done` of a terminal that was killed under a watcher finds nobody attached when it settles.
-/

set_option autoImplicit false

namespace RemoteWorkspace.Analysis.TerminalRegistry

open RemoteWorkspace.Computation RemoteWorkspace.Model RemoteWorkspace.Model.TerminalRegistry

variable {options : Options} {n : ℕ} {sink : TerminalSink}

/-! ### Ends and what is told of them -/

/-- A report of an end. -/
def isEnd : Report → Bool
  | .output _ => false
  | .exit _ => true
  | .fail _ => true

/-- How often a sink is told of an end. -/
def endsTo (sink : TerminalSink) (reports : List (TerminalSink × Report)) : ℕ :=
  reports.countP fun report => decide (report.1 = sink) && isEnd report.2

/-- How often a sink is told of the end of an entry in a step. -/
def tells (s t : Registry) (n : ℕ) (sink : TerminalSink) : HostEvent → ℕ
  | .report m => if m = n then endsTo sink (t.reports.drop s.reports.length) else 0
  | _ => 0

/-- Whether an entry ends in a step: its end is reported, or it leaves the table. -/
def Ends (s : Host) (e : HostEvent) (t : Host) (n : ℕ) : Prop :=
  e = .report n ∨ n ∈ s.registry.table ∧ n ∉ t.registry.table

/-- What became of the watchers of each entry so far: which sinks were attached when it
ended, how often each sink was told of the end, and whether a sink was handed output of it
after that. -/
structure Endings where
  watched : ℕ → TerminalSink → Prop
  told : ℕ → TerminalSink → ℕ
  late : ℕ → TerminalSink → Prop

/-- One step added. -/
def attend (s : Host) (l : Endings) (e : HostEvent) (t : Host) : Endings where
  watched n k := l.watched n k ∨ k ∈ (s.registry.entries n).attaches ∧ Ends s e t n
  told n k := l.told n k + tells s.registry t.registry n k e
  late n k := l.late n k ∨ l.told n k ≠ 0 ∧ hands s.registry n k e ≠ []

/-- The loop with its endings attended to. -/
def attended (options : Options) : Machine (Host × Endings) HostEvent :=
  (host options).observe ⟨fun _ _ => False, fun _ _ => 0, fun _ _ => False⟩ attend

/-- Every sink that was attached to a terminal when it ended was told so exactly once, was
handed no output of it after that, and none is on its way to it. -/
def WatchersTold (p : Host × Endings) : Prop :=
  ∀ n k, p.2.watched n k → p.2.told n k = 1 ∧ ¬ p.2.late n k ∧
    pendingFrom n k (microtasks p.1.registry.deliveries) = []

/-- What is closed has exited or is watched by nobody; an end is reported when nothing of the
terminal is queued for a sink that is attached; and no chunk of a terminal that has exited
arrives while a sink is attached to it. -/
def ClosesUnwatched (p : Host × Endings) : HostEvent → Prop
  | .report n => ∀ k ∈ (p.1.registry.entries n).attaches,
      pendingFrom n k (microtasks p.1.registry.deliveries) = []
  | .registry (.data n) => (p.1.registry.entries n).state = .exited →
      (p.1.registry.entries n).attaches = []
  | .registry e => ∀ n ∈ p.1.registry.table, Closes p.1.registry e n →
      (p.1.registry.entries n).state = .exited ∨ (p.1.registry.entries n).attaches = []
  | _ => True

/-! ### What a report tells -/

theorem endsTo_end (sink : TerminalSink) (sinks : List TerminalSink)
    (outcome : Except String TtyOutcome) :
    endsTo sink (sinks.map fun k => (k, reportOf outcome)) = sinks.count sink := by
  have hend : isEnd (reportOf outcome) = true := by
    cases outcome <;> rfl
  unfold endsTo List.count
  rw [List.countP_map]
  refine List.countP_congr fun k _ => ?_
  simp [hend]

/-- A report reaches the sinks that are attached, each once. -/
theorem tells_report {s t : Host} (hs : Tabled s.registry)
    (h : hostStep options s (.report n) = some t) (k : TerminalSink) :
    tells s.registry t.registry n k (.report n) =
      if k ∈ (s.registry.entries n).attaches then 1 else 0 := by
  cases hostStep_moves h with
  | @reported _ outcome r _ hstep =>
    obtain ⟨-, heq⟩ := Option.ite_none_right_eq_some.mp hstep
    obtain rfl := Option.some.inj heq
    show (if n = n then endsTo k ((settle s.registry n (reportOf outcome)).reports.drop
      s.registry.reports.length) else 0) = _
    rw [if_pos rfl, settle_eq]
    show endsTo k ((s.registry.reports ++ _).drop _) = _
    rw [List.drop_left, endsTo_end]
    exact List.Nodup.count (hs.fits n).sinks

/-- An end is reported once. -/
theorem ended_of_report {s t : Host} (h : hostStep options s (.report n) = some t) :
    n ≤ s.registry.nextOrdinal ∧ (s.registry.entries n).handle.ended = false := by
  cases hostStep_moves h with
  | reported _ hstep =>
    obtain ⟨⟨-, hn, hended⟩, -⟩ := Option.ite_none_right_eq_some.mp hstep
    exact ⟨hn, hended⟩

/-- No other step tells of the end of an entry. -/
theorem tells_other {s t : Registry} {e : HostEvent} (h : e ≠ .report n) (k : TerminalSink) :
    tells s t n k e = 0 := by
  cases e with
  | report m => exact if_neg fun hm => h (congrArg HostEvent.report hm)
  | _ => rfl

/-! ### The invariant -/

/-- A terminal whose end a sink was told is over for it, and it was told once; whoever is
attached to one that ended was told; and those were told who watched. -/
structure Attended (p : Host × Endings) : Prop where
  tabled : Tabled p.1.registry
  fresh : ∀ n, p.1.registry.nextOrdinal < n → queuedOf p.1.registry n = []
  once : ∀ n k, p.2.told n k ≠ 0 → p.2.told n k = 1
  heard : ∀ n k, p.2.told n k ≠ 0 → n ≤ p.1.registry.nextOrdinal ∧
    (p.1.registry.entries n).handle.ended = true
  silent : ∀ n k, p.2.told n k ≠ 0 → pendingFrom n k (microtasks p.1.registry.deliveries) = []
  told : ∀ n ∈ p.1.registry.table, (p.1.registry.entries n).handle.ended = true →
    ∀ k ∈ (p.1.registry.entries n).attaches, p.2.told n k ≠ 0
  watched : ∀ n k, p.2.watched n k ↔ p.2.told n k ≠ 0
  late : ∀ n k, ¬ p.2.late n k

/-- A new registry. -/
theorem attended_init : Attended (attended options).init := by
  refine ⟨tabled_empty, fun _ _ => rfl, fun _ _ h => absurd rfl h, fun _ _ h => absurd rfl h,
    fun _ _ h => absurd rfl h, nofun, fun _ _ => ?_, fun _ _ => id⟩
  exact iff_of_false id fun h => h rfl

/-- Where the invariant holds, those who watched learnt of the end. -/
theorem watchersTold_of_attended {p : Host × Endings} (hp : Attended p) : WatchersTold p := by
  intro n k hwatched
  have htold := (hp.watched n k).mp hwatched
  exact ⟨hp.once n k htold, hp.late n k, hp.silent n k htold⟩

variable {p q : Host × Endings} {e : HostEvent}

/-- A terminal that has exited was told of to whoever is attached. -/
theorem Attended.told_of_exited (hp : Attended p) (hn : n ∈ p.1.registry.table)
    (hexited : (p.1.registry.entries n).state = .exited)
    (hsink : sink ∈ (p.1.registry.entries n).attaches) : p.2.told n sink ≠ 0 :=
  hp.told n hn (((hp.tabled.fits n).ended hn).mp hexited) sink hsink

/-- Of a terminal that is over for a sink nothing is queued for it, when no chunk arrives
while it is attached. -/
theorem queues_none (hp : Attended p) (hmeets : ClosesUnwatched p e)
    (hended : (p.1.registry.entries n).handle.ended = true) (k : TerminalSink) :
    queuesFrom p.1.registry n k e = [] := by
  cases e with
  | registry e =>
    cases e with
    | data m =>
      show (if m = n then _ else []) = []
      split
      · rename_i hm
        subst hm
        have hnone : (p.1.registry.entries m).attaches = [] := by
          by_cases hin : m ∈ p.1.registry.table
          · exact hmeets (((hp.tabled.fits m).ended hin).mpr hended)
          · exact ((hp.tabled.fits m).gone hin).1
        rw [hnone]
        exact List.flatMap_eq_nil_iff.mpr fun _ _ => rfl
      · rfl
    | _ => rfl
  | _ => rfl

/-- Whom a step tells. -/
theorem told_step (hp : Attended p) (h : hostStep options p.1 e = some q.1)
    (hq : q.2 = attend p.1 p.2 e q.1) (n : ℕ) (k : TerminalSink) :
    q.2.told n k = p.2.told n k ∧ e ≠ .report n ∨
      q.2.told n k = (if k ∈ (p.1.registry.entries n).attaches then 1 else 0) ∧
        p.2.told n k = 0 ∧ e = .report n := by
  rw [hq]
  show p.2.told n k + tells p.1.registry q.1.registry n k e = _ ∧ _ ∨
    p.2.told n k + tells p.1.registry q.1.registry n k e = _ ∧ _
  by_cases he : e = .report n
  · subst he
    have hnone : p.2.told n k = 0 := by
      by_contra htold
      have hended := (hp.heard n k htold).2
      rw [(ended_of_report h).2] at hended
      cases hended
    rw [tells_report hp.tabled h, hnone, Nat.zero_add]
    exact .inr ⟨rfl, rfl, rfl⟩
  · rw [tells_other he]
    exact .inl ⟨rfl, he⟩

/-- The sinks of an entry whose end is reported. -/
theorem attaches_of_report {s t : Host} (h : hostStep options s (.report n) = some t)
    (hsink : sink ∈ (t.registry.entries n).attaches) :
    sink ∈ (s.registry.entries n).attaches := by
  cases hostStep_moves h with
  | reported _ hstep => exact ((step_steady id hstep).attached n).subset hsink

section Step

variable (hp : Attended p) (hstep : hostStep options p.1 e = some q.1)
  (hq : q.2 = attend p.1 p.2 e q.1)

include hp hstep hq

/-- Who was told stays told. -/
theorem told_kept {k : TerminalSink} (htold : p.2.told n k ≠ 0) : q.2.told n k ≠ 0 := by
  rcases told_step hp hstep hq n k with ⟨hsame, -⟩ | ⟨-, hnone, -⟩
  · rwa [hsame]
  · exact absurd hnone htold

/-- A report tells those who are attached. -/
theorem told_new {k : TerminalSink} (he : e = .report n)
    (hk : k ∈ (p.1.registry.entries n).attaches) : q.2.told n k ≠ 0 := by
  rcases told_step hp hstep hq n k with ⟨-, hne⟩ | ⟨hone, -, -⟩
  · exact absurd he hne
  · rw [hone, if_pos hk]
    exact Nat.one_ne_zero

/-- Who is told after a step was told before, or is attached when the end is reported. -/
theorem told_before {k : TerminalSink} (htold : q.2.told n k ≠ 0) :
    p.2.told n k ≠ 0 ∨ e = .report n ∧ k ∈ (p.1.registry.entries n).attaches := by
  rcases told_step hp hstep hq n k with ⟨hsame, -⟩ | ⟨hone, -, he⟩
  · exact .inl (hsame ▸ htold)
  · refine .inr ⟨he, by_contra fun hk => htold ?_⟩
    rw [hone, if_neg hk]

/-- Nobody is told twice. -/
theorem once_step {k : TerminalSink} (htold : q.2.told n k ≠ 0) : q.2.told n k = 1 := by
  rcases told_step hp hstep hq n k with ⟨hsame, -⟩ | ⟨hone, -, -⟩
  · rw [hsame] at htold ⊢
    exact hp.once n k htold
  · rw [hone] at htold ⊢
    exact if_pos (by_contra fun hk => htold (if_neg hk))

/-- What a sink was told is over. -/
theorem heard_step {k : TerminalSink} (htold : q.2.told n k ≠ 0) :
    n ≤ q.1.registry.nextOrdinal ∧ (q.1.registry.entries n).handle.ended = true := by
  have hcourse := hostStep_course hp.tabled hstep
  have hold : n ≤ p.1.registry.nextOrdinal ∧
      ((p.1.registry.entries n).handle.ended = true ∨ e = .report n) := by
    rcases told_before hp hstep hq htold with hbefore | ⟨he, -⟩
    · exact ⟨(hp.heard n k hbefore).1, .inl (hp.heard n k hbefore).2⟩
    · exact ⟨(ended_of_report (he ▸ hstep)).1, .inr he⟩
  exact ⟨Nat.le_trans hold.1 hcourse.ordinal, (hcourse.ages n hold.1).ended.mpr hold.2⟩

/-- Nothing is on its way to a sink that was told. -/
theorem silent_step (hmeets : ClosesUnwatched p e) {k : TerminalSink}
    (htold : q.2.told n k ≠ 0) : pendingFrom n k (microtasks q.1.registry.deliveries) = [] := by
  have htasks := (step_flow (hp.fresh _ (Nat.lt_succ_self _)) hstep).tasks n k
  rcases told_before hp hstep hq htold with hbefore | ⟨rfl, hk⟩
  · rw [hp.silent n k hbefore, queues_none hp hmeets (hp.heard n k hbefore).2] at htasks
    exact (List.append_eq_nil_iff.mp htasks).2
  · rw [hmeets k hk] at htasks
    exact (List.append_eq_nil_iff.mp htasks).2

/-- Whoever is attached to a terminal that ended was told. -/
theorem attached_told_step (hn : n ∈ q.1.registry.table)
    (hended : (q.1.registry.entries n).handle.ended = true) {k : TerminalSink}
    (hk : k ∈ (q.1.registry.entries n).attaches) : q.2.told n k ≠ 0 := by
  have hcourse := hostStep_course hp.tabled hstep
  have hle : n ≤ p.1.registry.nextOrdinal := by
    by_contra hnew
    have hlive := hcourse.fresh n (Nat.not_le.mp hnew)
      ((tabled_hostStep hp.tabled hstep).listed n hn).2
    rw [hended] at hlive
    cases hlive
  have hin : n ∈ p.1.registry.table :=
    (hcourse.entered n hn).resolve_right (Nat.not_lt.mpr hle)
  rcases (hcourse.ages n hle).ended.mp hended with hbefore | rfl
  · have hexited := ((hp.tabled.fits n).ended hin).mpr hbefore
    have hwatching := (hcourse.ages n hle).watched hexited k hk
    exact told_kept hp hstep hq (hp.told_of_exited hin hexited hwatching)
  · exact told_new hp hstep hq rfl (attaches_of_report hstep hk)

omit hq in
/-- A terminal that leaves the table under a sink has exited, when nothing is closed under a
watcher. -/
theorem exited_of_left (hmeets : ClosesUnwatched p e) (hin : n ∈ p.1.registry.table)
    (hoff : n ∉ q.1.registry.table) {k : TerminalSink}
    (hk : k ∈ (p.1.registry.entries n).attaches) :
    (p.1.registry.entries n).state = .exited := by
  have hwatched : (p.1.registry.entries n).attaches ≠ [] := List.ne_nil_of_mem hk
  rcases (hostStep_course hp.tabled hstep).left n hin hoff with hcloses | hexited | hnone
  · cases e with
    | registry e =>
      cases e with
      | kill | releaseSession | disposeAll =>
        exact (hmeets n hin hcloses).resolve_right hwatched
      | _ => exact absurd hcloses id
    | _ => exact absurd hcloses id
  · exact hexited
  · exact absurd hnone hwatched

/-- Those were told who watched. -/
theorem watched_step (hmeets : ClosesUnwatched p e) (n : ℕ) (k : TerminalSink) :
    q.2.watched n k ↔ q.2.told n k ≠ 0 := by
  have hwatched : q.2.watched n k ↔
      p.2.watched n k ∨ k ∈ (p.1.registry.entries n).attaches ∧ Ends p.1 e q.1 n := by
    rw [hq]
    rfl
  rw [hwatched]
  constructor
  · rintro (hbefore | ⟨hk, he | ⟨hin, hoff⟩⟩)
    · exact told_kept hp hstep hq ((hp.watched n k).mp hbefore)
    · exact told_new hp hstep hq he hk
    · have hexited := exited_of_left hp hstep hmeets hin hoff hk
      exact told_kept hp hstep hq (hp.told_of_exited hin hexited hk)
  · intro htold
    rcases told_before hp hstep hq htold with hbefore | ⟨he, hk⟩
    · exact .inl ((hp.watched n k).mpr hbefore)
    · exact .inr ⟨hk, .inl he⟩

end Step

/-- A step that closes nothing under a watcher keeps the invariant. -/
theorem attended_step (hp : Attended p) (hmeets : ClosesUnwatched p e)
    (h : (attended options).step p e = some q) : Attended q := by
  obtain ⟨hstep, hq⟩ := Machine.observe_step.mp h
  have hflow := step_flow (hp.fresh _ (Nat.lt_succ_self _)) hstep
  refine ⟨tabled_hostStep hp.tabled hstep, fun n hn => ?_, fun _ _ => once_step hp hstep hq,
    fun _ _ => heard_step hp hstep hq, fun _ _ => silent_step hp hstep hq hmeets,
    fun _ hn hended _ => attached_told_step hp hstep hq hn hended,
    watched_step hp hstep hq hmeets, fun n k => ?_⟩
  · have hwrites : writes n e = [] := by
      by_contra hne
      exact absurd (Nat.le_trans (hflow.known n hne).1 hflow.ordinal) (Nat.not_le.mpr hn)
    have houtput := hflow.output n
    rw [hp.fresh n (Nat.lt_of_le_of_lt hflow.ordinal hn), hwrites] at houtput
    exact (List.append_eq_nil_iff.mp houtput).2
  · rw [hq]
    rintro (hbefore | ⟨htold, hhands⟩)
    · exact hp.late n k hbefore
    · exact hflow.pending_of_hands hhands (hp.silent n k htold)

/-- An entry that is closed while a sink watches it: the sink does not learn of the end. -/
theorem not_told_of_close {e : Event} (hp : Attended p)
    (h : (attended options).step p (.registry e) = some q) (hin : n ∈ p.1.registry.table)
    (hcloses : Closes p.1.registry e n) (hlive : (p.1.registry.entries n).state ≠ .exited)
    (hsink : sink ∈ (p.1.registry.entries n).attaches) : ¬ WatchersTold q := by
  obtain ⟨hrun, hq⟩ := Machine.observe_step.mp h
  have hstep : hostStep options p.1 (.registry e) = some q.1 := hrun
  have hoff : n ∉ q.1.registry.table :=
    closes_leaves hp.tabled (hostStep_registry hstep) hin hcloses
  have hnone : p.2.told n sink = 0 := by
    by_contra htold
    exact hlive (((hp.tabled.fits n).ended hin).mpr (hp.heard n sink htold).2)
  have hstill : q.2.told n sink = 0 := by
    rcases told_step hp hstep hq n sink with ⟨hsame, -⟩ | ⟨-, -, he⟩
    · rw [hsame, hnone]
    · cases he
  have hwatched : q.2.watched n sink := by
    rw [hq]
    exact .inr ⟨hsink, .inr ⟨hin, hoff⟩⟩
  intro hall
  have hone := (hall n sink hwatched).1
  rw [hstill] at hone
  cases hone

/-- A step that closes something under a watcher leaves one who does not learn of the end, or
has output on its way to one who did. -/
theorem unattended_step (hp : Attended p) (hmeets : ¬ ClosesUnwatched p e)
    (h : (attended options).step p e = some q) : ¬ WatchersTold q := by
  obtain ⟨hstep, hq⟩ := Machine.observe_step.mp h
  have hflow := step_flow (hp.fresh _ (Nat.lt_succ_self _)) hstep
  cases e with
  | publish | finish => exact absurd trivial hmeets
  | report n =>
    obtain ⟨k, hk⟩ := not_forall.mp hmeets
    obtain ⟨hsink, hpending⟩ := Classical.not_imp.mp hk
    intro hall
    have hwatched : q.2.watched n k := by
      rw [hq]
      exact .inr ⟨hsink, .inl rfl⟩
    have htasks := hflow.tasks n k
    rw [(hall n k hwatched).2.2] at htasks
    exact hpending (List.append_eq_nil_iff.mp htasks.symm).1
  | registry e =>
    cases e with
    | data n =>
      obtain ⟨hexited, hwatchers⟩ := Classical.not_imp.mp hmeets
      obtain ⟨k, hk⟩ := List.exists_mem_of_ne_nil _ hwatchers
      have hin : n ∈ p.1.registry.table := by
        by_contra hoff
        exact hwatchers ((hp.tabled.fits n).gone hoff).1
      have hwatched : q.2.watched n k := by
        rw [hq]
        exact .inl ((hp.watched n k).mpr (hp.told_of_exited hin hexited hk))
      intro hall
      have htasks := hflow.tasks n k
      rw [(hall n k hwatched).2.2] at htasks
      have hqueues := (List.append_eq_nil_iff.mp htasks.symm).2
      have hdata : hostStep options p.1 (.registry (.data n)) = some q.1 := hstep
      obtain ⟨chunk, hqueued, -⟩ := data_queued (hostStep_registry hdata)
      have hcount : 0 < (p.1.registry.entries n).attaches.count k := List.count_pos_iff.mpr hk
      simp only [queuesFrom, if_true, hqueued, List.take_succ_cons, List.take_zero,
        List.flatMap_cons, List.flatMap_nil, List.append_nil,
        List.replicate_eq_nil_iff] at hqueues
      exact absurd hqueues (Nat.ne_of_gt hcount)
    | kill | releaseSession | disposeAll =>
      obtain ⟨n, hn⟩ := not_forall.mp hmeets
      obtain ⟨hin, hn⟩ := Classical.not_imp.mp hn
      obtain ⟨hcloses, hover⟩ := Classical.not_imp.mp hn
      obtain ⟨hlive, hwatchers⟩ := not_or.mp hover
      obtain ⟨k, hk⟩ := List.exists_mem_of_ne_nil _ hwatchers
      exact not_told_of_close hp h hin hcloses hlive hk
    | _ => exact absurd (fun n _ hcloses => absurd hcloses id) hmeets

/-! ### Runs -/

/-- In every run of the loop, every sink that is attached when a terminal ends learns so
exactly once, and has no output of it on its way afterwards, exactly when nothing is closed
under a watcher and the output is done with before an end is reported. -/
theorem watchers_told_iff (options : Options) (es : List HostEvent) :
    (attended options).Always WatchersTold (attended options).init es ↔
      (attended options).Each ClosesUnwatched (attended options).init es := by
  refine Machine.always_iff_each (I := Attended) ?_ ?_ ?_ attended_init es
  · intro p hp
    exact watchersTold_of_attended hp
  · intro p e q hp hmeets h
    exact attended_step hp hmeets h
  · intro p e q hp hmeets h
    exact unattended_step hp hmeets h

/-- A terminal is opened and watched. -/
def openWatched : List HostEvent :=
  [.registry (.open "s1" "/w" 80 24), .registry (.spawned 0 4711), .registry (.attach "t1" 7)]

/-- Each of its events can happen. -/
theorem openWatched_isSome : ((attended shellOptions).run openWatched).isSome = true := by
  decide +kernel

/-- Then the route closes it. -/
theorem closedWatched_isSome : ((attended shellOptions).step
    (((attended shellOptions).run openWatched).get openWatched_isSome)
    (.registry (.kill "t1"))).isSome = true := by
  decide +kernel

/-- The sink was attached, and is not told. -/
theorem close_untold :
    ¬ ∀ (options : Options) (es : List HostEvent),
      (attended options).Always WatchersTold (attended options).init es := by
  intro hall
  have hclosed := (Option.some_get closedWatched_isSome).symm
  have htold := (hall shellOptions (openWatched ++ [.registry (.kill "t1")])).last
    (Option.some_get openWatched_isSome).symm hclosed
  obtain ⟨-, hends⟩ := Machine.observe_step.mp hclosed
  have hwatched : (((attended shellOptions).step
      (((attended shellOptions).run openWatched).get openWatched_isSome)
      (.registry (.kill "t1"))).get closedWatched_isSome).2.watched 1 7 := by
    rw [hends]
    exact .inr ⟨by decide +kernel, .inr ⟨by decide +kernel, by decide +kernel⟩⟩
  have hone := (htold 1 7 hwatched).1
  revert hone
  decide +kernel

end RemoteWorkspace.Analysis.TerminalRegistry
