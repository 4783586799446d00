import RemoteWorkspace.Analysis.FailedMachines
import RemoteWorkspace.Model.Autoconnect

/-!
# Machines that were disconnected, and the passes that connect

A pass captures its record once and asks again after every gap without a look at what a person
did meanwhile. The timer looks at the status, which an attempt that a disconnect abandoned sets
to `failed` when it ends. No pass connects a machine that a person disconnected or deleted, as
long as none is disconnected or deleted while a pass has attempts left for it and no abandoned
attempt fails in time for a tick, and no longer (`autoconnect_respects`).
-/

set_option autoImplicit false

namespace RemoteWorkspace.Analysis.Autoconnect

open RemoteWorkspace.Computation RemoteWorkspace.Model RemoteWorkspace.Model.NodeConnections
open RemoteWorkspace.Model.Autoconnect RemoteWorkspace.Analysis.NodeConnections

/-! ### What was asked -/

/-- The machines that a person disconnected or deleted since anybody asked to connect them, and
those that a pass connected all the same. -/
structure History where
  barred : NodeId → Bool
  undone : List NodeId

/-- A machine has a record. -/
def registered (records : List NodeRecord) (nodeId : NodeId) : Bool :=
  records.any fun record => decide (record.nodeId = nodeId)

/-- The machines that are barred after an event. -/
def barredAfter (s : State) (h : History) : Autoconnect.Event → NodeId → Bool
  | .manager (.connect record) => fun n => !decide (n = record.nodeId) && h.barred n
  | .manager (.disconnect nodeId) => fun n => decide (n = nodeId) || h.barred n
  | .stored records => fun n => registered s.records n && !registered records n || h.barred n
  | _ => h.barred

/-- Keep the history. -/
def watch (s : State) (h : History) (e : Autoconnect.Event) (t : State) : History where
  barred := barredAfter s h e
  undone := h.undone ++ (connectsOf s e t).filter h.barred

/-- The passes with their history. -/
def watched (deps : Autoconnect.Deps) (records : List NodeRecord) :
    Machine (State × History) Autoconnect.Event :=
  (Autoconnect.machine deps records).observe ⟨fun _ => false, []⟩ watch

/-- No pass connected a machine that was barred. -/
def Respects (p : State × History) : Prop := p.2.undone = []

/-! ### What would connect it -/

/-- A pass asks for a connection again unless its attempt succeeds: it is in a gap, or it has
attempts left. -/
def MayRetry (deps : Autoconnect.Deps) (s : State) (pass : Pass) : Prop :=
  s.stopped = false ∧
    match pass.phase with
    | .waiting => True
    | .connecting a => pass.attempt + 1 < deps.attempts ∧
        ((s.connections.attempts[a]?).map Attempt.phase).any succeeded = false
    | .ended => False

/-- A tick takes a machine in this state. -/
def Revisits (deps : Autoconnect.Deps) (state : NodeState) (record : NodeRecord) : Prop :=
  deps.refreshes = true ∧ deps.attempts ≠ 0 ∧ record.transport ≠ .local ∧
    (deps.readsStatus = true → state = .failed)

/-- Until the passes are stopped: a machine is disconnected or deleted when no pass has attempts
left for it, and when no tick would take it whatever its state; and the state of a barred machine
does not become `failed` while a tick would take it. -/
def Leaves (deps : Autoconnect.Deps) (p : State × History) (e : Autoconnect.Event) : Prop :=
  p.1.stopped = false →
    match e with
    | .manager (.disconnect nodeId) =>
      (∀ pass ∈ p.1.passes, pass.record.nodeId = nodeId → ¬ MayRetry deps p.1 pass) ∧
        ∀ record ∈ p.1.records, record.nodeId = nodeId → ¬ Revisits deps .disconnected record
    | .manager e => ∀ entry ∈ failsAt p.1.connections e, ∀ record ∈ p.1.records,
        (record.nodeId, entry) ∈ p.1.connections.table → p.2.barred record.nodeId = true →
          ¬ Revisits deps .failed record
    | .stored records =>
      (∀ pass ∈ p.1.passes, registered p.1.records pass.record.nodeId = true →
        registered records pass.record.nodeId = false → ¬ MayRetry deps p.1 pass) ∧
        ∀ record ∈ records, p.2.barred record.nodeId = true →
          ¬ Revisits deps (status p.1.connections record.nodeId).state record
    | _ => True

variable {deps : Autoconnect.Deps} {s t : State} {barred : NodeId → Bool}

/-! ### What the manager does to them -/

/-- A pass that may retry after something happened in the manager may do so before. -/
theorem mayRetry_manager {e : NodeConnections.Event} {connections : Connections}
    (hstep : NodeConnections.step deps.manager s.connections e = some connections) {pass : Pass}
    (h : MayRetry deps { s with connections := connections } pass) : MayRetry deps s pass := by
  obtain ⟨hstopped, h⟩ := h
  refine ⟨hstopped, ?_⟩
  obtain ⟨record, n, phase⟩ := pass
  cases phase with
  | waiting => trivial
  | ended => exact h
  | connecting a =>
    obtain ⟨hlt, hopen⟩ := h
    refine ⟨hlt, ?_⟩
    by_contra hready
    rw [Bool.not_eq_false] at hready
    rw [(attempts_step hstep).succeeded hready] at hopen
    cases hopen

/-- A machine that a tick takes after something happened in the manager was taken before, or its
entry fails. -/
theorem revisits_manager (hs : Agrees s.connections) {e : NodeConnections.Event}
    {connections : Connections}
    (hstep : NodeConnections.step deps.manager s.connections e = some connections)
    {record : NodeRecord} (h : Revisits deps (status connections record.nodeId).state record) :
    Revisits deps (status s.connections record.nodeId).state record ∨
      ∃ entry, failsAt s.connections e = some entry ∧
        (record.nodeId, entry) ∈ s.connections.table ∧ Revisits deps .failed record := by
  obtain ⟨hrefreshes, hattempts, hremote, hstate⟩ := h
  by_cases hreads : deps.readsStatus = true
  · rcases failed_of_step hs hstep (hstate hreads) with hfailed | ⟨entry, hentry, hrow⟩
    · exact .inl ⟨hrefreshes, hattempts, hremote, fun _ => hfailed⟩
    · exact .inr ⟨entry, hentry, hrow, hrefreshes, hattempts, hremote, fun _ => rfl⟩
  · exact .inl ⟨hrefreshes, hattempts, hremote, fun h => absurd h hreads⟩

/-- A machine that was disconnected is not failed. -/
theorem status_disconnect (s : Connections) (nodeId : NodeId) :
    (status (disconnect s nodeId) nodeId).state ≠ .failed := by
  cases hget : s.get nodeId with
  | none =>
    have hsame : disconnect s nodeId = s := by
      rw [disconnect, hget]
    rw [hsame, status, hget]
    exact fun h => by cases h
  | some e =>
    have hrow : (disconnect s nodeId).get nodeId = some e := by
      rw [disconnect, hget]
      exact hget
    rw [status, hrow]
    simp [disconnect, hget, statusOf, Connections.assign]

/-! ### What is known of every state -/

/-- The manager agrees, and passes wait for attempts that there are. -/
structure Sane (s : State) : Prop where
  agrees : Agrees s.connections
  pendings : Pendings s.connections
  awaits : ∀ pass ∈ s.passes, ∀ a, pass.phase = .connecting a → a < s.connections.attempts.length

/-- No pass is to connect a machine that is barred, and no tick is to take one. -/
structure Quiet (deps : Autoconnect.Deps) (barred : NodeId → Bool) (s : State) : Prop where
  passes : ∀ pass ∈ s.passes, barred pass.record.nodeId = true → ¬ MayRetry deps s pass
  records : s.stopped = false → ∀ record ∈ s.records, barred record.nodeId = true →
    ¬ Revisits deps (status s.connections record.nodeId).state record

/-- Where nobody is barred. -/
theorem quiet_nobody (deps : Autoconnect.Deps) (s : State) : Quiet deps (fun _ => false) s where
  passes pass hpass hbarred := by cases hbarred
  records hstopped record hrecord hbarred := by cases hbarred

/-- A connection request of a pass. -/
theorem Sane.connect (h : Sane s) (record : NodeRecord) :
    Sane { s with connections := (connectRecord s.connections record).1 } where
  agrees := agrees_connect h.agrees record
  pendings := (pendings_connect h.pendings record).1
  awaits pass hpass a ha := by
    have hlength := (attempts_connect (s := s.connections) record).length
    exact Nat.lt_of_lt_of_le (h.awaits pass hpass a ha) hlength

/-- The pass that waits for its answer. -/
theorem asked_awaits (h : Sane s) (record : NodeRecord) {a : ℕ}
    (ha : asked (connectRecord s.connections record).2 = .connecting a) :
    a < (connectRecord s.connections record).1.attempts.length := by
  cases hanswer : (connectRecord s.connections record).2 with
  | info info =>
    rw [hanswer] at ha
    cases ha
  | attempt a' =>
    rw [hanswer] at ha
    obtain rfl := PassPhase.connecting.inj ha
    exact (pendings_connect h.pendings record).2 _ hanswer

/-- A connection request of a pass keeps the others quiet. -/
theorem Quiet.connect (h : Quiet deps barred s) (hs : Sane s) (record : NodeRecord) :
    Quiet deps barred { s with connections := (connectRecord s.connections record).1 } where
  passes pass hpass hbarred hretry :=
    h.passes pass hpass hbarred (mayRetry_manager (e := .connect record) rfl hretry)
  records hstopped other hother hbarred hrevisits := by
    rcases revisits_manager (e := .connect record) hs.agrees rfl hrevisits with
      hold | ⟨entry, hentry, -⟩
    · exact h.records hstopped other hother hbarred hold
    · cases hentry

/-! ### What an event does -/

/-- What each event leaves of the passes, by the branch that it takes. -/
inductive Moves (deps : Autoconnect.Deps) (s : State) : Autoconnect.Event → State → Prop
  | manager {e : NodeConnections.Event} {connections : Connections}
      (h : NodeConnections.step deps.manager s.connections e = some connections) :
      Moves deps s (.manager e) { s with connections := connections }
  | stored (records : List NodeRecord) : Moves deps s (.stored records) { s with records := records }
  | tick (h : deps.refreshes = true) (hgo : s.stopped = false) :
      Moves deps s .tick (s.records.foldl (consider deps true) s)
  | connected {p : ℕ} {record : NodeRecord} {n a : ℕ}
      (hp : s.passes[p]? = some ⟨record, n, .connecting a⟩) :
      Moves deps s (.settled p) (s.setPass p ⟨record, n, .ended⟩)
  | failed {p : ℕ} {record : NodeRecord} {n a : ℕ} {error : String}
      (hp : s.passes[p]? = some ⟨record, n, .connecting a⟩)
      (ha : (s.connections.attempts[a]?).map Attempt.phase = some (.failed error)) :
      Moves deps s (.settled p) (s.setPass p (nextAttempt deps s ⟨record, n, .connecting a⟩))
  | ended {p : ℕ} {record : NodeRecord} {n : ℕ}
      (hp : s.passes[p]? = some ⟨record, n, .waiting⟩) (hstopped : s.stopped = true) :
      Moves deps s (.retry p) (s.setPass p ⟨record, n, .ended⟩)
  | again {p : ℕ} {record : NodeRecord} {n : ℕ}
      (hp : s.passes[p]? = some ⟨record, n, .waiting⟩) (hgo : s.stopped = false) :
      Moves deps s (.retry p)
        ({ s with connections := (connectRecord s.connections record).1 }.setPass p
          ⟨record, n, asked (connectRecord s.connections record).2⟩)
  | stop : Moves deps s .stop { s with stopped := true }

/-- Every step takes one of these branches. -/
theorem step_moves {e : Autoconnect.Event} (hstep : Autoconnect.step deps s e = some t) :
    Moves deps s e t := by
  cases e with
  | manager e =>
    obtain ⟨connections, hconnections, rfl⟩ := Option.map_eq_some_iff.mp hstep
    exact .manager hconnections
  | stored records =>
    cases hstep
    exact .stored records
  | tick =>
    obtain ⟨⟨hrefreshes, hgo⟩, ht⟩ := Option.ite_none_right_eq_some.mp hstep
    cases ht
    exact .tick hrefreshes hgo
  | settled p =>
    simp only [Autoconnect.step] at hstep
    split at hstep
    · rename_i record n a hp
      split at hstep
      · cases hstep
        exact .connected hp
      · rename_i error ha
        cases hstep
        exact .failed hp ha
      · cases hstep
    · cases hstep
  | retry p =>
    simp only [Autoconnect.step] at hstep
    split at hstep
    · rename_i record n hp
      split at hstep
      · rename_i hstopped
        cases hstep
        exact .ended hp hstopped
      · rename_i hgo
        cases hstep
        exact .again hp (Bool.not_eq_true _ ▸ hgo)
    · cases hstep
  | stop =>
    cases hstep
    exact .stop

/-- The turn of a pass keeps its record, and waits for no attempt. -/
theorem nextAttempt_record (deps : Autoconnect.Deps) (s : State) (pass : Pass) :
    (nextAttempt deps s pass).record = pass.record ∧
      ∀ a, (nextAttempt deps s pass).phase ≠ .connecting a := by
  unfold nextAttempt
  split
  · exact ⟨rfl, fun a ha => by cases ha⟩
  · exact ⟨rfl, fun a ha => by cases ha⟩

/-! ### Passes that start -/

/-- A machine is passed over, or a pass for it starts. -/
theorem consider_cases (deps : Autoconnect.Deps) (retryOnlyFailed : Bool) (s : State)
    (record : NodeRecord) :
    consider deps retryOnlyFailed s record = s ∨
      (record.transport ≠ .local ∧ deps.attempts ≠ 0 ∧ s.stopped = false ∧
        (retryOnlyFailed = true → deps.readsStatus = true →
          (status s.connections record.nodeId).state = .failed)) ∧
        consider deps retryOnlyFailed s record =
          { s with
            connections := (connectRecord s.connections record).1
            passes := s.passes ++
              [⟨record, 0, asked (connectRecord s.connections record).2⟩] } := by
  unfold consider
  split
  · exact .inl rfl
  · rename_i hremote
    split
    · exact .inl rfl
    · rename_i hstate
      unfold startPass
      split
      · exact .inl rfl
      · rename_i hgo
        push Not at hgo hstate
        refine .inr ⟨⟨hremote, hgo.1, ?_, hstate⟩, rfl⟩
        simpa using hgo.2

/-- A state with more passes, all of them for machines that are not barred. -/
structure Grown (barred : NodeId → Bool) (s t : State) : Prop where
  records : t.records = s.records
  stopped : t.stopped = s.stopped
  passes : ∃ more, t.passes = s.passes ++ more ∧
    ∀ pass ∈ more, barred pass.record.nodeId = false

/-- The same state. -/
theorem Grown.refl (s : State) : Grown barred s s :=
  ⟨rfl, rfl, [], (List.append_nil _).symm, fun pass hpass => by cases hpass⟩

/-- More passes, and more. -/
theorem Grown.trans {u : State} (h : Grown barred s t) (h' : Grown barred t u) :
    Grown barred s u := by
  obtain ⟨more, hmore, hfree⟩ := h.passes
  obtain ⟨more', hmore', hfree'⟩ := h'.passes
  refine ⟨h'.records.trans h.records, h'.stopped.trans h.stopped, more ++ more', ?_, ?_⟩
  · rw [hmore', hmore, List.append_assoc]
  · intro pass hpass
    rcases List.mem_append.mp hpass with hpass | hpass
    · exact hfree pass hpass
    · exact hfree' pass hpass

/-- A pass that starts for a machine that is not barred. -/
theorem started_quiet (hs : Sane s) (hq : Quiet deps barred s) {record : NodeRecord}
    (hfree : barred record.nodeId = false) :
    let u : State := { s with
      connections := (connectRecord s.connections record).1
      passes := s.passes ++ [⟨record, 0, asked (connectRecord s.connections record).2⟩] }
    Sane u ∧ Quiet deps barred u ∧ Grown barred s u := by
  intro u
  have hsane := hs.connect record
  have hquiet := hq.connect hs record
  refine ⟨⟨hsane.agrees, hsane.pendings, ?_⟩, ⟨?_, hquiet.records⟩, rfl, rfl, _, rfl, ?_⟩
  · intro pass hpass a ha
    rcases List.mem_append.mp hpass with hpass | hpass
    · exact hsane.awaits pass hpass a ha
    · obtain rfl := List.mem_singleton.mp hpass
      exact asked_awaits hs record ha
  · intro pass hpass hbarred
    rcases List.mem_append.mp hpass with hpass | hpass
    · exact hquiet.passes pass hpass hbarred
    · obtain rfl := List.mem_singleton.mp hpass
      exact absurd hbarred (by simp [hfree])
  · intro pass hpass
    obtain rfl := List.mem_singleton.mp hpass
    exact hfree

/-- A tick that goes through records of the state. -/
theorem tick_quiet {l : List NodeRecord} (hrefreshes : deps.refreshes = true) (hs : Sane s)
    (hq : Quiet deps barred s) (hl : ∀ record ∈ l, record ∈ s.records) :
    Sane (l.foldl (consider deps true) s) ∧ Quiet deps barred (l.foldl (consider deps true) s) ∧
      Grown barred s (l.foldl (consider deps true) s) := by
  induction l generalizing s with
  | nil => exact ⟨hs, hq, .refl s⟩
  | cons record l ih =>
    rw [List.foldl_cons]
    have hrest : ∀ other ∈ l, other ∈ s.records :=
      fun other hother => hl other (List.mem_cons_of_mem _ hother)
    rcases consider_cases deps true s record with hsame | ⟨⟨hremote, hattempts, hgo, hstate⟩, hstart⟩
    · rw [hsame]
      exact ih hs hq hrest
    · -- a machine that the tick takes is not barred
      have hfree : barred record.nodeId = false := by
        by_contra hbarred
        rw [Bool.not_eq_false] at hbarred
        exact hq.records hgo record (hl record List.mem_cons_self) hbarred
          ⟨hrefreshes, hattempts, hremote, hstate rfl⟩
      obtain ⟨hsane, hquiet, hgrown⟩ := started_quiet hs hq hfree
      rw [hstart]
      obtain ⟨hsane', hquiet', hgrown'⟩ := ih hsane hquiet fun other hother => by
        rw [hgrown.records]
        exact hrest other hother
      exact ⟨hsane', hquiet', hgrown.trans hgrown'⟩

/-- A machine that is considered keeps a state sane. -/
theorem sane_consider (hs : Sane s) (retryOnlyFailed : Bool) (record : NodeRecord) :
    Sane (consider deps retryOnlyFailed s record) := by
  rcases consider_cases deps retryOnlyFailed s record with hsame | ⟨-, hstart⟩
  · rw [hsame]
    exact hs
  · rw [hstart]
    exact (started_quiet hs (quiet_nobody deps s) rfl).1

/-! ### Runs -/

/-- A pass that goes on keeps a state sane when it waits for an attempt that was made. -/
theorem Sane.setPass (hs : Sane s) (p : ℕ) {pass : Pass}
    (hpass : ∀ a, pass.phase = .connecting a → a < s.connections.attempts.length) :
    Sane (s.setPass p pass) := by
  refine ⟨hs.agrees, hs.pendings, fun other hother a ha => ?_⟩
  rcases List.mem_or_eq_of_mem_set hother with hother | rfl
  · exact hs.awaits other hother a ha
  · exact hpass a ha

/-- Every event keeps a state sane. -/
theorem sane_step {e : Autoconnect.Event} (hs : Sane s)
    (hstep : Autoconnect.step deps s e = some t) : Sane t := by
  cases step_moves hstep with
  | manager hconnections =>
    refine ⟨agrees_step hs.agrees hconnections, pendings_step hs.pendings hconnections, ?_⟩
    intro pass hpass a ha
    exact Nat.lt_of_lt_of_le (hs.awaits pass hpass a ha) (attempts_step hconnections).length
  | stored records => exact ⟨hs.agrees, hs.pendings, hs.awaits⟩
  | tick =>
    exact List.foldlRecOn s.records _ hs fun _ hsane record _ => sane_consider hsane true record
  | connected hp =>
    apply hs.setPass
    intro a ha
    cases ha
  | failed hp ha =>
    apply hs.setPass
    intro a ha
    exact absurd ha ((nextAttempt_record ..).2 a)
  | ended hp =>
    apply hs.setPass
    intro a ha
    cases ha
  | again hp =>
    apply (hs.connect _).setPass
    intro a ha
    exact asked_awaits hs _ ha
  | stop => exact ⟨hs.agrees, hs.pendings, hs.awaits⟩

/-- Something in the manager that fails no entry of a barred machine in time for a tick. -/
theorem quiet_manager {e : NodeConnections.Event} {connections : Connections} (hs : Sane s)
    (hq : Quiet deps barred s)
    (hstep : NodeConnections.step deps.manager s.connections e = some connections)
    (hfails : s.stopped = false → ∀ entry ∈ failsAt s.connections e, ∀ record ∈ s.records,
      (record.nodeId, entry) ∈ s.connections.table → barred record.nodeId = true →
        ¬ Revisits deps .failed record) :
    Quiet deps barred { s with connections := connections } where
  passes pass hpass hbarred hretry := hq.passes pass hpass hbarred (mayRetry_manager hstep hretry)
  records hstopped record hrecord hbarred hrevisits := by
    rcases revisits_manager hs.agrees hstep hrevisits with hold | ⟨entry, hentry, hrow, hfailed⟩
    · exact hq.records hstopped record hrecord hbarred hold
    · exact hfails hstopped entry hentry record hrecord hrow hbarred hfailed

/-- A pass that goes on where it may retry only if it might before. -/
theorem quiet_setPass (hq : Quiet deps barred s) {p : ℕ} {old new : Pass}
    (hp : s.passes[p]? = some old) (hrecord : new.record = old.record)
    (hretry : MayRetry deps s new → MayRetry deps s old) : Quiet deps barred (s.setPass p new) where
  passes pass hpass hbarred := by
    rcases List.mem_or_eq_of_mem_set hpass with hpass | rfl
    · exact hq.passes pass hpass hbarred
    · intro hnew
      rw [hrecord] at hbarred
      exact hq.passes old (List.mem_of_getElem? hp) hbarred (hretry hnew)
  records := hq.records

/-- The turn of a pass whose attempt failed. -/
theorem mayRetry_next {record : NodeRecord} {n a : ℕ} {error : String}
    (ha : (s.connections.attempts[a]?).map Attempt.phase = some (.failed error))
    (h : MayRetry deps s (nextAttempt deps s ⟨record, n, .connecting a⟩)) :
    MayRetry deps s ⟨record, n, .connecting a⟩ := by
  by_cases hleft : n + 1 < deps.attempts ∧ s.stopped = false
  · refine ⟨hleft.2, hleft.1, ?_⟩
    rw [ha]
    rfl
  · rw [nextAttempt, if_neg hleft] at h
    exact absurd h.2 id

/-- A step that meets the condition keeps everything quiet, and no pass connects a barred
machine in it. -/
theorem quiet_step {h : History} {e : Autoconnect.Event} (hs : Sane s)
    (hq : Quiet deps h.barred s) (hG : Leaves deps (s, h) e)
    (hstep : Autoconnect.step deps s e = some t) :
    Quiet deps (barredAfter s h e) t ∧ (connectsOf s e t).filter h.barred = [] := by
  cases step_moves hstep with
  | @manager e connections hconnections =>
    refine ⟨?_, rfl⟩
    cases e with
    | connect record =>
      have hquiet := quiet_manager hs hq hconnections fun _ entry hentry => by cases hentry
      have hweaker : ∀ nodeId, barredAfter s h (.manager (.connect record)) nodeId = true →
          h.barred nodeId = true := by
        intro nodeId hbarred
        exact (Bool.and_eq_true_iff.mp hbarred).2
      exact ⟨fun pass hpass hbarred => hquiet.passes pass hpass (hweaker _ hbarred),
        fun hstopped other hother hbarred =>
          hquiet.records hstopped other hother (hweaker _ hbarred)⟩
    | disconnect nodeId =>
      have hquiet := quiet_manager hs hq hconnections fun _ entry hentry => by cases hentry
      refine ⟨fun pass hpass hbarred hretry => ?_, fun hstopped record hrecord hbarred => ?_⟩
      · have hold := mayRetry_manager hconnections hretry
        rcases Bool.or_eq_true_iff.mp hbarred with hnode | hbarred
        · exact (hG hretry.1).1 pass hpass (of_decide_eq_true hnode) hold
        · exact hq.passes pass hpass hbarred hold
      · rcases Bool.or_eq_true_iff.mp hbarred with hnode | hbarred
        · obtain rfl : record.nodeId = nodeId := of_decide_eq_true hnode
          obtain rfl := Option.some.inj hconnections
          rintro ⟨hrefreshes, hattempts, hremote, hstate⟩
          refine (hG hstopped).2 record hrecord rfl ⟨hrefreshes, hattempts, hremote, ?_⟩
          intro hreads
          exact absurd (hstate hreads) (status_disconnect s.connections record.nodeId)
        · exact hquiet.records hstopped record hrecord hbarred
    | _ => exact quiet_manager hs hq hconnections hG
  | stored records =>
    refine ⟨⟨fun pass hpass hbarred hretry => ?_, fun hstopped record hrecord hbarred => ?_⟩, rfl⟩
    · rcases Bool.or_eq_true_iff.mp hbarred with hgone | hbarred
      · obtain ⟨hold, hnew⟩ := Bool.and_eq_true_iff.mp hgone
        exact (hG hretry.1).1 pass hpass hold (by simpa using hnew) hretry
      · exact hq.passes pass hpass hbarred hretry
    · rcases Bool.or_eq_true_iff.mp hbarred with hgone | hbarred
      · obtain ⟨-, hnew⟩ := Bool.and_eq_true_iff.mp hgone
        have hmem : registered records record.nodeId = true :=
          List.any_eq_true.mpr ⟨record, hrecord, decide_eq_true rfl⟩
        simp [hmem] at hnew
      · exact (hG hstopped).2 record hrecord hbarred
  | tick hrefreshes =>
    obtain ⟨-, hquiet, hgrown⟩ := tick_quiet hrefreshes hs hq fun record hrecord => hrecord
    refine ⟨hquiet, ?_⟩
    obtain ⟨more, hmore, hfree⟩ := hgrown.passes
    rw [connectsOf, hmore, List.drop_left, List.filter_eq_nil_iff]
    intro nodeId hnode
    obtain ⟨pass, hpass, rfl⟩ := List.mem_map.mp hnode
    simp [hfree pass hpass]
  | connected hp =>
    exact ⟨quiet_setPass hq hp rfl fun hretry => absurd hretry.2 id, rfl⟩
  | failed hp ha =>
    exact ⟨quiet_setPass hq hp (nextAttempt_record ..).1 (mayRetry_next ha), rfl⟩
  | ended hp hstopped =>
    refine ⟨quiet_setPass hq hp rfl fun hretry => absurd hretry.2 id, ?_⟩
    rw [connectsOf, if_pos hstopped]
    rfl
  | @again p record n hp hgo =>
    -- a machine whose pass is in a gap is not barred
    have hfree : h.barred record.nodeId = false := by
      by_contra hbarred
      rw [Bool.not_eq_false] at hbarred
      exact hq.passes _ (List.mem_of_getElem? hp) hbarred ⟨hgo, trivial⟩
    have hquiet := hq.connect hs record
    refine ⟨⟨fun pass hpass hbarred => ?_, hquiet.records⟩, ?_⟩
    · rcases List.mem_or_eq_of_mem_set hpass with hpass | rfl
      · exact hquiet.passes pass hpass hbarred
      · exact absurd (show h.barred record.nodeId = true from hbarred) (by simp [hfree])
    · rw [connectsOf, if_neg (by simp [hgo]), hp]
      simp [hfree]
  | stop =>
    refine ⟨⟨fun pass hpass hbarred hretry => ?_, fun hstopped => ?_⟩, rfl⟩
    · cases hretry.1
    · cases hstopped

/-! ### Steps that do not -/

section Continue

variable (records : List NodeRecord) {h : History}

/-- Things go on until a pass connects a machine that is barred. -/
def CanUndo (deps : Autoconnect.Deps) (records : List NodeRecord) (p : State × History) : Prop :=
  ∃ (es : List Autoconnect.Event) (q : State × History),
    (watched deps records).runFrom p es = some q ∧ ¬ Respects q

/-- A step of the passes is one of the watched passes. -/
theorem watched_step {e : Autoconnect.Event} (hstep : Autoconnect.step deps s e = some t) :
    (watched deps records).step (s, h) e = some (t, watch s h e t) :=
  Machine.observe_step.mpr ⟨hstep, rfl⟩

/-- A step, and what goes on from there. -/
theorem CanUndo.of_step {e : Autoconnect.Event} (hstep : Autoconnect.step deps s e = some t)
    (hundo : CanUndo deps records (t, watch s h e t)) : CanUndo deps records (s, h) := by
  obtain ⟨es, q, hrun, hq⟩ := hundo
  exact ⟨e :: es, q, Option.bind_eq_some_iff.mpr ⟨_, watched_step records hstep, hrun⟩, hq⟩

/-- A step in which a pass connects a machine that is barred. -/
theorem canUndo_now {e : Autoconnect.Event} (hstep : Autoconnect.step deps s e = some t)
    {nodeId : NodeId} (hconnects : nodeId ∈ connectsOf s e t) (hbarred : h.barred nodeId = true) :
    CanUndo deps records (s, h) := by
  refine ⟨[e], _, Option.bind_eq_some_iff.mpr ⟨_, watched_step records hstep, rfl⟩, ?_⟩
  intro hnone
  have hempty : (connectsOf s e t).filter h.barred = [] := (List.append_eq_nil_iff.mp hnone).2
  exact absurd hbarred (List.filter_eq_nil_iff.mp hempty nodeId hconnects)

/-- A pass in a gap, for a machine that is barred. -/
theorem canUndo_waiting {p : ℕ} {record : NodeRecord} {n : ℕ}
    (hp : s.passes[p]? = some ⟨record, n, .waiting⟩) (hgo : s.stopped = false)
    (hbarred : h.barred record.nodeId = true) : CanUndo deps records (s, h) := by
  have hrun : ¬ s.stopped = true := by simp [hgo]
  have hstep : Autoconnect.step deps s (.retry p) = some ({ s with
      connections := (connectRecord s.connections record).1 }.setPass p
        ⟨record, n, asked (connectRecord s.connections record).2⟩) := by
    simp only [Autoconnect.step, hp, if_neg hrun]
  have hconnects (t : State) : record.nodeId ∈ connectsOf s (.retry p) t := by
    rw [connectsOf, if_neg hrun, hp]
    exact List.mem_singleton_self _
  exact canUndo_now records hstep (hconnects _) hbarred

/-- A pass whose attempt failed, with attempts left, for a machine that is barred. -/
theorem canUndo_failed {p : ℕ} {record : NodeRecord} {n a : ℕ} {error : String}
    (hp : s.passes[p]? = some ⟨record, n, .connecting a⟩)
    (ha : (s.connections.attempts[a]?).map Attempt.phase = some (.failed error))
    (hleft : n + 1 < deps.attempts) (hgo : s.stopped = false)
    (hbarred : h.barred record.nodeId = true) : CanUndo deps records (s, h) := by
  have hstep : Autoconnect.step deps s (.settled p) =
      some (s.setPass p ⟨record, n + 1, .waiting⟩) := by
    simp only [Autoconnect.step, hp, ha, nextAttempt, hleft, hgo, and_self, if_true]
  refine .of_step records hstep (canUndo_waiting records (p := p) (n := n + 1) ?_ hgo hbarred)
  exact List.getElem?_set_self (List.getElem?_eq_some_iff.mp hp).1

/-- A pass that may retry, for a machine that is barred. -/
theorem canUndo_mayRetry (hs : Sane s) {pass : Pass} (hpass : pass ∈ s.passes)
    (hretry : MayRetry deps s pass) (hbarred : h.barred pass.record.nodeId = true) :
    CanUndo deps records (s, h) := by
  obtain ⟨p, hp⟩ := List.mem_iff_getElem?.mp hpass
  obtain ⟨record, n, phase⟩ := pass
  obtain ⟨hgo, hretry⟩ := hretry
  cases phase with
  | waiting => exact canUndo_waiting records hp hgo hbarred
  | ended => exact absurd hretry id
  | connecting a =>
    obtain ⟨hleft, hopen⟩ := hretry
    have hlt : a < s.connections.attempts.length := hs.awaits _ hpass a rfl
    obtain ⟨x, hx⟩ : ∃ x, s.connections.attempts[a]? = some x :=
      ⟨_, List.getElem?_eq_getElem hlt⟩
    -- an attempt that is under way fails first
    have hfail : ∀ (e : NodeConnections.Event) (connections : Connections) (error : String),
        NodeConnections.step deps.manager s.connections e = some connections →
        barredAfter s h (.manager e) = h.barred →
        (connections.attempts[a]?).map Attempt.phase = some (.failed error) →
        CanUndo deps records (s, h) := by
      intro e connections error hconnections hsame herror
      have hstep : Autoconnect.step deps s (.manager e) =
          some { s with connections := connections } := by
        rw [Autoconnect.step, hconnections, Option.map_some]
      refine .of_step records hstep (canUndo_failed records (p := p) hp herror hleft hgo ?_)
      rw [watch, hsame]
      exact hbarred
    obtain ⟨i, owner, xphase, ran⟩ := x
    cases xphase with
    | opening =>
      have hstep : NodeConnections.step deps.manager s.connections (.openFailed a "") =
          some (attemptFailed s.connections a ⟨i, owner, .opening, ran⟩ "") := by
        simp only [NodeConnections.step, hx]
      refine hfail _ _ (describeFailure owner "") hstep rfl ?_
      simp [attemptFailed, fail, clear, Connections.assign, Connections.settleAttempt, hx]
    | connecting transport =>
      have hstep : NodeConnections.step deps.manager s.connections (.connectFailed a "") =
          some (attemptFailed s.connections a ⟨i, owner, .connecting transport, ran⟩ "") := by
        simp only [NodeConnections.step, hx]
      refine hfail _ _ (describeFailure owner "") hstep rfl ?_
      simp [attemptFailed, fail, clear, Connections.assign, Connections.settleAttempt, hx]
    | ready transport live =>
      rw [hx] at hopen
      cases hopen
    | failed error =>
      have herror : (s.connections.attempts[a]?).map Attempt.phase = some (.failed error) := by
        rw [hx]
        rfl
      exact canUndo_failed records hp herror hleft hgo hbarred

/-- A pass that started is there after the rest of a tick. -/
theorem passes_foldl (deps : Autoconnect.Deps) (l : List NodeRecord) (s : State) :
    s.passes <+: (l.foldl (consider deps true) s).passes := by
  induction l generalizing s with
  | nil => exact List.prefix_refl _
  | cons record l ih =>
    rw [List.foldl_cons]
    refine List.IsPrefix.trans ?_ (ih _)
    rcases consider_cases deps true s record with hsame | ⟨-, hstart⟩
    · exact ⟨[], by rw [hsame, List.append_nil]⟩
    · exact ⟨_, by rw [hstart]⟩

/-- A tick that goes through a machine which it takes and which is barred starts a pass for a
machine that is barred. -/
theorem barred_foldl {l : List NodeRecord} (hs : Sane s) (hgo : s.stopped = false)
    {record : NodeRecord} (hrecord : record ∈ l) (hbarred : barred record.nodeId = true)
    (htakes : Revisits deps (status s.connections record.nodeId).state record) :
    ∃ pass ∈ (l.foldl (consider deps true) s).passes.drop s.passes.length,
      barred pass.record.nodeId = true := by
  induction l generalizing s with
  | nil => cases hrecord
  | cons other l ih =>
    rw [List.foldl_cons]
    obtain ⟨hrefreshes, hattempts, hremote, hstate⟩ := htakes
    -- a pass that starts for a barred machine is still there at the end
    have hnow : barred other.nodeId = true → consider deps true s other = { s with
        connections := (connectRecord s.connections other).1
        passes := s.passes ++ [⟨other, 0, asked (connectRecord s.connections other).2⟩] } →
        ∃ pass ∈ (l.foldl (consider deps true) (consider deps true s other)).passes.drop
          s.passes.length, barred pass.record.nodeId = true := by
      intro hother hstart
      obtain ⟨more, hmore⟩ := passes_foldl deps l (consider deps true s other)
      refine ⟨⟨other, 0, asked (connectRecord s.connections other).2⟩, ?_, hother⟩
      rw [← hmore, hstart, List.append_assoc, List.drop_left]
      exact List.mem_cons_self
    rcases consider_cases deps true s other with hsame | ⟨-, hstart⟩
    · rw [hsame]
      rcases List.mem_cons.mp hrecord with rfl | hrest
      · -- a machine that the tick takes is not passed over
        exfalso
        have htaken : consider deps true s record = startPass deps s record := by
          rw [consider, if_neg hremote, if_neg]
          exact fun hskip => hskip.2.2 (hstate hskip.2.1)
        rw [htaken, startPass, if_neg (by simp [hattempts, hgo])] at hsame
        have hpasses := congrArg (fun u : State => u.passes.length) hsame
        simp at hpasses
      · exact ih hs hgo hrest ⟨hrefreshes, hattempts, hremote, hstate⟩
    · by_cases hother : barred other.nodeId = true
      · exact hnow hother hstart
      · have hne : other.nodeId ≠ record.nodeId := fun heq => hother (heq ▸ hbarred)
        have hrest : record ∈ l := by
          rcases List.mem_cons.mp hrecord with rfl | hrest
          · exact absurd rfl hne
          · exact hrest
        have hsane : Sane (consider deps true s other) := sane_consider hs true other
        obtain ⟨pass, hpass, hfound⟩ := ih (s := consider deps true s other) hsane
          (by rw [hstart]; exact hgo) hrest (by
            refine ⟨hrefreshes, hattempts, hremote, fun hreads => ?_⟩
            rw [hstart]
            have hstatus := status_connect_other hs.agrees hne
            exact hstatus ▸ hstate hreads)
        refine ⟨pass, ?_, hfound⟩
        have hlonger : (consider deps true s other).passes.length = s.passes.length + 1 := by
          rw [hstart]
          simp
        rw [hlonger] at hpass
        exact (List.drop_sublist_drop_left _ (Nat.le_succ _)).subset hpass

/-- A machine that is barred and that the next tick takes. -/
theorem canUndo_revisits (hs : Sane s) (hgo : s.stopped = false) {record : NodeRecord}
    (hrecord : record ∈ s.records) (hbarred : h.barred record.nodeId = true)
    (htakes : Revisits deps (status s.connections record.nodeId).state record) :
    CanUndo deps records (s, h) := by
  have hstep : Autoconnect.step deps s .tick = some (s.records.foldl (consider deps true) s) := by
    rw [Autoconnect.step, if_pos ⟨htakes.1, hgo⟩]
  obtain ⟨pass, hpass, hfound⟩ := barred_foldl hs hgo hrecord hbarred htakes
  exact canUndo_now records hstep (List.mem_map_of_mem hpass) hfound

/-- After a step that misses the condition, things go on until a pass connects a machine that is
barred. -/
theorem canUndo_of_not_leaves {e : Autoconnect.Event} (hs : Sane s)
    (hG : ¬ Leaves deps (s, h) e) (hstep : Autoconnect.step deps s e = some t) :
    CanUndo deps records (t, watch s h e t) := by
  have hsane := sane_step hs hstep
  obtain ⟨hgo, hG⟩ := Classical.not_imp.mp hG
  have hgo : s.stopped = false := hgo
  cases e with
  | manager e =>
    obtain ⟨connections, hconnections, rfl⟩ := Option.map_eq_some_iff.mp hstep
    -- an entry that fails is that of a barred machine which the next tick takes
    have hfailing : barredAfter s h (.manager e) = h.barred →
        (¬ ∀ entry ∈ failsAt s.connections e, ∀ record ∈ s.records,
          (record.nodeId, entry) ∈ s.connections.table → h.barred record.nodeId = true →
            ¬ Revisits deps .failed record) →
        CanUndo deps records
          (({ s with connections := connections } : State),
            watch s h (.manager e) { s with connections := connections }) := by
      intro hsame hG
      simp only [not_forall, not_not] at hG
      obtain ⟨entry, hentry, record, hrecord, hrow, hbarred, htakes⟩ := hG
      obtain ⟨hstate, htable⟩ := failsAt_failed hconnections hentry
      have hget : connections.get record.nodeId = some entry :=
        (get_eq_some_iff hsane.agrees.wellFormed).mpr (htable ▸ hrow)
      refine canUndo_revisits records hsane hgo hrecord ?_ ?_
      · rw [watch, hsame]
        exact hbarred
      · have hstatus : (status connections record.nodeId).state = .failed := by
          rw [status, hget]
          exact hstate
        exact hstatus ▸ htakes
    cases e with
    | disconnect nodeId =>
      obtain rfl := Option.some.inj hconnections
      have hbarred : barredAfter s h (.manager (.disconnect nodeId)) nodeId = true := by
        simp [barredAfter]
      rcases not_and_or.mp hG with hG | hG
      · simp only [not_forall, not_not] at hG
        obtain ⟨pass, hpass, rfl, hretry⟩ := hG
        have hattempts : (disconnect s.connections pass.record.nodeId).attempts =
            s.connections.attempts := by
          unfold disconnect
          split <;> rfl
        refine canUndo_mayRetry records hsane hpass ⟨hretry.1, ?_⟩ hbarred
        rw [hattempts]
        exact hretry.2
      · simp only [not_forall, not_not] at hG
        obtain ⟨record, hrecord, rfl, hrefreshes, hattempts, hremote, hstate⟩ := hG
        refine canUndo_revisits records hsane hgo hrecord hbarred
          ⟨hrefreshes, hattempts, hremote, fun hreads => ?_⟩
        cases hstate hreads
    | connect record =>
      exact absurd (fun entry (hentry : entry ∈ none) => by cases hentry) hG
    | _ => exact hfailing rfl hG
  | stored new =>
    obtain rfl := Option.some.inj hstep
    rcases not_and_or.mp hG with hG | hG
    · simp only [not_forall, not_not] at hG
      obtain ⟨pass, hpass, hold, hnew, hretry⟩ := hG
      refine canUndo_mayRetry records hsane hpass hretry ?_
      simp [watch, barredAfter, hold, hnew]
    · simp only [not_forall, not_not] at hG
      obtain ⟨record, hrecord, hbarred, htakes⟩ := hG
      refine canUndo_revisits records hsane hgo hrecord ?_ htakes
      exact Bool.or_eq_true_iff.mpr (.inr hbarred)
  | tick => exact absurd trivial hG
  | settled p => exact absurd trivial hG
  | retry p => exact absurd trivial hG
  | stop => exact absurd trivial hG

end Continue

/-- The startup pass leaves a sane state. -/
theorem sane_startup (deps : Autoconnect.Deps) (records : List NodeRecord) :
    Sane (startup deps records) := by
  have hempty : Sane ⟨.empty, records, [], false⟩ := by
    refine ⟨agrees_empty, fun i a ha => ?_, fun pass hpass => ?_⟩
    · cases ha
    · cases hpass
  exact List.foldlRecOn records _ hempty fun _ hs record _ => sane_consider hs false record

/-- No pass connects a machine that is barred, along every run whose steps meet the condition;
and as soon as one does not, things can go on until a pass does. -/
theorem autoconnect_respects (deps : Autoconnect.Deps) (records : List NodeRecord) :
    (∀ p, (watched deps records).ReachableWhen (Leaves deps) p → Respects p) ∧
      ∀ p, (watched deps records).Reachable p → ∀ e q, ¬ Leaves deps p e →
        (watched deps records).step p e = some q →
        ∃ es r, (watched deps records).runFrom q es = some r ∧ ¬ Respects r := by
  refine ⟨fun p hp => ?_, fun p hp e q hG hstep => ?_⟩
  · have hquiet : Sane p.1 ∧ Quiet deps p.2.barred p.1 ∧ Respects p := by
      refine Machine.ReachableWhen.invariant (M := watched deps records)
        (I := fun p => Sane p.1 ∧ Quiet deps p.2.barred p.1 ∧ Respects p)
        ⟨sane_startup deps records, quiet_nobody deps _, rfl⟩ ?_ hp
      rintro ⟨s, h⟩ e ⟨t, k⟩ ⟨hs, hq, hclean⟩ hG hstep
      obtain ⟨hstep, hk⟩ := Machine.observe_step.mp hstep
      obtain rfl : k = watch s h e t := hk
      obtain ⟨hquiet, hconnects⟩ := quiet_step hs hq hG hstep
      refine ⟨sane_step hs hstep, hquiet, ?_⟩
      have hclean : h.undone = [] := hclean
      change h.undone ++ (connectsOf s e t).filter h.barred = []
      rw [hclean, hconnects]
      rfl
    exact hquiet.2.2
  · have hsane : Sane p.1 := by
      refine Machine.ReachableWhen.invariant (M := watched deps records) (I := fun p => Sane p.1)
        (sane_startup deps records) ?_ hp
      intro p e q hs _ hstep
      exact sane_step hs (Machine.observe_step.mp hstep).1
    obtain ⟨s, h⟩ := p
    obtain ⟨t, k⟩ := q
    obtain ⟨hstep, hk⟩ := Machine.observe_step.mp hstep
    obtain rfl : k = watch s h e t := hk
    exact canUndo_of_not_leaves records hsane hG hstep

/-! ### A disconnect in the gap of a pass -/

/-- The passes as the plugin composes them, over a manager that recovers three times. -/
def pluginDeps : Autoconnect.Deps := ⟨defaultAttempts, true, true, buildDeps⟩

/-- The machine does not answer; a person disconnects it while the pass waits, and the pass asks
for a connection. -/
def gapRun : List Autoconnect.Event :=
  [.manager (.openFailed 0 "unreachable"), .settled 0, .manager (.disconnect "build"), .retry 0]

theorem gapRun_isSome : ((watched pluginDeps [buildBox]).run gapRun).isSome = true := by
  decide +kernel

/-- A machine that was disconnected in the gap of a pass is connected by it. -/
theorem retry_after_disconnect :
    ¬ ∀ (deps : Autoconnect.Deps) (records : List NodeRecord) (p : State × History),
      (watched deps records).Reachable p → Respects p := by
  intro hall
  have hnone := hall _ _ _ (Machine.reachable_get _ gapRun_isSome)
  have hundone : (((watched pluginDeps [buildBox]).run gapRun).get gapRun_isSome).2.undone =
      ["build"] := by decide +kernel
  rw [Respects, hundone] at hnone
  cases hnone

end RemoteWorkspace.Analysis.Autoconnect
