import RemoteWorkspace.Analysis.AgentEndpoint
import RemoteWorkspace.Analysis.WireFraming
import RemoteWorkspace.Computation.Slots
import RemoteWorkspace.Model.ServerConnection

/-!
# Nothing is served before the handshake

Every event of a connection is one of the moves below, and each move says what it asks of the
connection and what it leaves. The writer and its queue are sound in every state, and the messages
that were read are the first ones of the stream.

Whatever arrives on a connection and however its tasks interleave, a backend is called only for
requests behind a first one that is a `node.hello` of this protocol with the daemon's token. A
connection whose first request is anything else reads no further request, starts no task, and
writes nothing but the one frame that refuses it.
-/

set_option autoImplicit false

namespace RemoteWorkspace.Analysis.ServerConnection

open RemoteWorkspace.Computation RemoteWorkspace.Model.Wire RemoteWorkspace.Model.JsonRpc
open RemoteWorkspace.Model.ServerConnection RemoteWorkspace.Analysis.WireFraming
open RemoteWorkspace.Model.EnsureAgent (protocolVersion tokenMatches)
open RemoteWorkspace.Analysis.AgentEndpoint (tokenMatches_iff)

variable {serde : Serde JsonValue} {shared : Shared} {incoming : PieceReader UInt8}
  {c d : Connection}

/-- What one event does. -/
inductive Moves (serde : Serde JsonValue) (shared : Shared) (c : Connection) : Connection → Prop
  /-- A message is read and served. -/
  | read (message : JsonValue) (rest : PieceReader UInt8) (hmain : c.main = .reading)
      (hread : readMessage serde c.reader = (.message message, rest)) :
      Moves serde shared c (Connection.serveMessage shared
        { c with reader := rest, read := c.read ++ [message] } message)
  /-- There is no message to read. -/
  | lost (rest : PieceReader UInt8) (hmain : c.main = .reading) :
      Moves serde shared c { c with reader := rest, main := .closing }
  | greet (id : JsonValue) (outcome : Except Failure JsonValue)
      (hmain : c.main = .greeting id outcome) (hgone : c.out.isGone = false) :
      Moves serde shared c { c with
        out := c.out.push (.greeting id outcome), main := if c.greeted then .reading else .closing }
  | greetUnheard (id : JsonValue) (outcome : Except Failure JsonValue)
      (hmain : c.main = .greeting id outcome) (hgone : c.out.isGone = true) :
      Moves serde shared c { c with main := .closing }
  | close (hmain : c.main = .closing) :
      Moves serde shared c { c with main := .stopping, closed := true }
  | stop (hmain : c.main = .stopping) (hgone : c.out.isGone = false) :
      Moves serde shared c { c with main := .joining, out := c.out.stop }
  | stopUnheard (hmain : c.main = .stopping) (hgone : c.out.isGone = true) :
      Moves serde shared c { c with main := .joining }
  | join (hmain : c.main = .joining) (hgone : c.out.isGone = true) :
      Moves serde shared c { c with main := .finished }
  /-- A request's call is over, or its parameters were rejected. -/
  | respond (i : ℕ) (request : Request) (outcome : Except Failure JsonValue)
      (htask : c.tasks[i]? = some ⟨request, .dispatching⟩)
      (hrejected : ∀ failure, readCall request.method request.params = .error failure →
        outcome = .error failure) :
      Moves serde shared c (c.setTask i (.responding outcome))
  | answer (i : ℕ) (request : Request) (outcome : Except Failure JsonValue)
      (htask : c.tasks[i]? = some ⟨request, .responding outcome⟩) (hgone : c.out.isGone = false) :
      Moves serde shared c { c.setTask i (.answered outcome) with
        out := c.out.push (.answer i request.id outcome) }
  | answerUnheard (i : ℕ) (request : Request) (outcome : Except Failure JsonValue)
      (htask : c.tasks[i]? = some ⟨request, .responding outcome⟩) :
      Moves serde shared c (c.setTask i (.unheard outcome))
  | push (params : JsonValue) (htasks : c.tasks ≠ []) (hgone : c.out.isGone = false) :
      Moves serde shared c { c with out := c.out.push (.pipe params) }
  /-- A pushed frame that found no room. -/
  | pushLost : Moves serde shared c c
  | writer (move : FrameWriter.Move) (out : FrameWriter Frame UInt8)
      (hmove : c.out.move (Frame.bytes serde) move = some out) :
      Moves serde shared c { c with out := out }

theorem not_gone_of_hasRoom {capacity : ℕ} {w : FrameWriter Frame UInt8}
    (h : w.hasRoom capacity = true) : w.isGone = false := by
  unfold FrameWriter.hasRoom at h
  cases hgone : w.isGone with
  | false => rfl
  | true =>
    rw [hgone] at h
    cases h

/-- Every event is one of the moves. -/
theorem moves_of_step {e : Event} (h : step serde shared c e = some d) :
    Moves serde shared c d := by
  cases e with
  | receive =>
    simp only [step] at h
    split at h
    · rename_i hmain
      split at h
      · rename_i message rest hread
        cases h
        exact .read message rest hmain hread
      · rename_i rest hread
        cases h
        exact .lost rest hmain
      · rename_i error rest hread
        cases h
        exact .lost rest hmain
      · cases h
    · cases h
  | greet =>
    simp only [step] at h
    split at h
    · rename_i id outcome hmain
      split at h
      · rename_i hroom
        cases h
        exact .greet id outcome hmain (not_gone_of_hasRoom hroom)
      · cases h
    · cases h
  | greetUnheard =>
    simp only [step] at h
    split at h
    · rename_i id outcome hmain
      split at h
      · rename_i hgone
        cases h
        exact .greetUnheard id outcome hmain hgone
      · cases h
    · cases h
  | close =>
    simp only [step] at h
    split at h
    · rename_i hmain
      cases h
      exact .close hmain
    · cases h
  | stop =>
    simp only [step] at h
    split at h
    · rename_i hmain
      split at h
      · rename_i hroom
        cases h
        exact .stop hmain (not_gone_of_hasRoom hroom)
      · cases h
    · cases h
  | stopUnheard =>
    simp only [step] at h
    split at h
    · rename_i hmain
      split at h
      · rename_i hgone
        cases h
        exact .stopUnheard hmain hgone
      · cases h
    · cases h
  | join =>
    simp only [step] at h
    split at h
    · rename_i hmain
      split at h
      · rename_i hgone
        cases h
        exact .join hmain hgone
      · cases h
    · cases h
  | reject i =>
    simp only [step] at h
    split at h
    · rename_i request htask
      split at h
      · rename_i failure hcall
        cases h
        refine .respond i request _ htask fun failure' hfailure => ?_
        rw [hcall] at hfailure
        exact congrArg Except.error (Except.error.inj hfailure)
      · cases h
    · cases h
  | serve i outcome =>
    simp only [step] at h
    split at h
    · rename_i request htask
      split at h
      · cases h
      · rename_i call hcall
        cases h
        refine .respond i request outcome htask fun failure hfailure => ?_
        rw [hcall] at hfailure
        cases hfailure
    · cases h
  | answer i =>
    simp only [step] at h
    split at h
    · rename_i request outcome htask
      split at h
      · rename_i hroom
        cases h
        exact .answer i request outcome htask (not_gone_of_hasRoom hroom)
      · cases h
    · cases h
  | answerUnheard i =>
    simp only [step] at h
    split at h
    · rename_i request outcome htask
      split at h
      · cases h
        exact .answerUnheard i request outcome htask
      · cases h
    · cases h
  | push params =>
    simp only [step] at h
    split at h
    · rename_i hspawned
      have htasks : c.tasks ≠ [] := by
        rintro hnil
        rw [hnil] at hspawned
        cases hspawned
      split at h
      · rename_i hroom
        cases h
        exact .push params htasks (not_gone_of_hasRoom hroom)
      · cases h
        exact .pushLost
    · cases h
  | writer move =>
    simp only [step] at h
    obtain ⟨out, hmove, rfl⟩ := Option.map_eq_some_iff.mp h
    exact .writer move out hmove

/-- The induction rule of a connection: what holds of an accepted socket and is kept by every
move holds of every reachable state. -/
theorem invariant {I : Connection → Prop} (h0 : I (.accepted incoming))
    (hmoves : ∀ c d, I c → Moves serde shared c d → I d)
    (h : (machine serde shared incoming).Reachable c) : I c :=
  Machine.ReachableWhen.invariant h0 (fun c _ d hc _ hstep => hmoves c d hc (moves_of_step hstep)) h

/-! ### A message that is served -/

/-- What serving a message leaves alone. -/
theorem serveMessage_frame (c : Connection) (message : JsonValue) :
    (c.serveMessage shared message).out = c.out ∧
      (c.serveMessage shared message).reader = c.reader ∧
      (c.serveMessage shared message).read = c.read ∧
      (c.serveMessage shared message).closed = c.closed := by
  unfold Connection.serveMessage
  split
  · exact ⟨rfl, rfl, rfl, rfl⟩
  · split
    · exact ⟨rfl, rfl, rfl, rfl⟩
    · split <;> exact ⟨rfl, rfl, rfl, rfl⟩

/-! ### The writer -/

/-- The writer of a connection is sound, and the order to finish is the loop's last. -/
structure Writes (serde : Serde JsonValue) (c : Connection) : Prop where
  sound : FrameWriter.Sound (Frame.bytes serde) c.out
  ordered : c.out.stopped.isSome → c.main = .joining ∨ c.main = .finished
  joined : c.main = .finished → c.out.isGone = true

theorem Writes.accepted (incoming : PieceReader UInt8) : Writes serde (.accepted incoming) where
  sound := FrameWriter.sound_empty
  ordered h := nomatch h
  joined h := nomatch h

/-- Serving a message is in the loop, or at the answer to a handshake. -/
theorem serveMessage_main (c : Connection) (message : JsonValue) (h : c.main = .reading) :
    (c.serveMessage shared message).main = .reading ∨
      ∃ id outcome, (c.serveMessage shared message).main = .greeting id outcome := by
  unfold Connection.serveMessage
  split
  · exact .inl h
  · split
    · exact .inl h
    · split
      · exact .inr ⟨_, _, rfl⟩
      · exact .inr ⟨_, _, rfl⟩

/-- A writer that is gone stays gone. -/
theorem isGone_move {w v : FrameWriter Frame UInt8} {m : FrameWriter.Move}
    (h : w.move (Frame.bytes serde) m = some v) (hgone : w.isGone = true) : v.isGone = true := by
  unfold FrameWriter.isGone at hgone
  split at hgone
  · rename_i hphase
    cases m <;> simp [FrameWriter.move, hphase] at h
  · cases hgone

/-- A writer that is gone serves its queue no more. -/
theorem rest_of_isGone {w : FrameWriter Frame UInt8} (h : w.isGone = true) :
    w.phase.rest = none := by
  unfold FrameWriter.isGone at h
  split at h
  · rename_i hphase
    rw [hphase]
    rfl
  · cases h

/-- Every move keeps the writer sound. -/
theorem Writes.moves (h : Writes serde c) (hmove : Moves serde shared c d) : Writes serde d := by
  have hnone : c.main ≠ .joining → c.main ≠ .finished → c.out.stopped = none := by
    intro hjoining hfinished
    cases hstopped : c.out.stopped with
    | none => rfl
    | some k =>
      rcases h.ordered (by rw [hstopped]; rfl) with hmain | hmain
      · exact absurd hmain hjoining
      · exact absurd hmain hfinished
  cases hmove with
  | read message rest hmain hread =>
    obtain ⟨hout, -, -, -⟩ := @serveMessage_frame shared
      { c with reader := rest, read := c.read ++ [message] } message
    have hstopped := hnone (by simp [hmain]) (by simp [hmain])
    refine ⟨by rw [hout]; exact h.sound, fun hsome => ?_, fun hfinished => ?_⟩
    · rw [hout, hstopped] at hsome
      cases hsome
    · rcases @serveMessage_main shared
        { c with reader := rest, read := c.read ++ [message] } message hmain with hm | ⟨_, _, hm⟩
      · rw [hm] at hfinished
        cases hfinished
      · rw [hm] at hfinished
        cases hfinished
  | lost rest hmain =>
    have hstopped := hnone (by simp [hmain]) (by simp [hmain])
    exact ⟨h.sound, fun hsome => absurd hsome (by simp [hstopped]), nofun⟩
  | greet id outcome hmain hgone =>
    have hstopped := hnone (by simp [hmain]) (by simp [hmain])
    refine ⟨h.sound.push hgone _, fun hsome => ?_, fun hfinished => ?_⟩
    · have hsome' : c.out.stopped.isSome = true := hsome
      rw [hstopped] at hsome'
      cases hsome'
    · dsimp only at hfinished
      split at hfinished <;> cases hfinished
  | greetUnheard id outcome hmain hgone =>
    have hstopped := hnone (by simp [hmain]) (by simp [hmain])
    exact ⟨h.sound, fun hsome => absurd hsome (by simp [hstopped]), nofun⟩
  | close hmain =>
    have hstopped := hnone (by simp [hmain]) (by simp [hmain])
    exact ⟨h.sound, fun hsome => absurd hsome (by simp [hstopped]), nofun⟩
  | stop hmain hgone =>
    have hstopped := hnone (by simp [hmain]) (by simp [hmain])
    exact ⟨h.sound.stop hgone hstopped, fun _ => .inl rfl, nofun⟩
  | stopUnheard hmain hgone => exact ⟨h.sound, fun _ => .inl rfl, nofun⟩
  | join hmain hgone => exact ⟨h.sound, fun _ => .inr rfl, fun _ => hgone⟩
  | respond i request outcome htask hrejected => exact ⟨h.sound, h.ordered, h.joined⟩
  | answer i request outcome htask hgone =>
    refine ⟨h.sound.push hgone _, h.ordered, fun hfinished => ?_⟩
    rw [h.joined hfinished] at hgone
    cases hgone
  | answerUnheard i request outcome htask => exact ⟨h.sound, h.ordered, h.joined⟩
  | push params htasks hgone =>
    refine ⟨h.sound.push hgone _, h.ordered, fun hfinished => ?_⟩
    rw [h.joined hfinished] at hgone
    cases hgone
  | pushLost => exact h
  | writer move out hmove =>
    obtain ⟨-, hstopped⟩ := FrameWriter.log_move hmove
    exact ⟨h.sound.move hmove, fun hsome => h.ordered (hstopped ▸ hsome),
      fun hfinished => isGone_move hmove (h.joined hfinished)⟩

theorem writes_of_reachable (h : (machine serde shared incoming).Reachable c) : Writes serde c :=
  invariant (Writes.accepted incoming) (fun _ _ hc hmove => hc.moves hmove) h

/-! ### The messages that were read -/

/-- What was read are the first messages of the stream, and in the loop the rest of them is still
to be read. -/
structure Reads (serde : Serde JsonValue) (incoming : PieceReader UInt8) (c : Connection) :
    Prop where
  first : c.read <+: (readAll serde incoming).1
  rest : (c.main = .reading ∨ ∃ id outcome, c.main = .greeting id outcome) →
    (readAll serde incoming).1 = c.read ++ (readAll serde c.reader).1

theorem Reads.moves (h : Reads serde incoming c) (hmove : Moves serde shared c d) :
    Reads serde incoming d := by
  cases hmove with
  | read message rest hmain hread =>
    obtain ⟨-, hreader, hmessages, -⟩ := @serveMessage_frame shared
      { c with reader := rest, read := c.read ++ [message] } message
    have hall : (readAll serde incoming).1 = (c.read ++ [message]) ++ (readAll serde rest).1 := by
      rw [h.rest (.inl hmain), readAll_message hread, List.append_assoc, List.singleton_append]
    refine ⟨?_, fun _ => ?_⟩
    · rw [hmessages, hall]
      exact List.prefix_append _ _
    · rw [hmessages, hreader]
      exact hall
  | greet id outcome hmain hgone => exact ⟨h.first, fun _ => h.rest (.inr ⟨id, outcome, hmain⟩)⟩
  -- past the loop nothing is read any more
  | lost | greetUnheard | close | stop | stopUnheard | join =>
    exact ⟨h.first, fun hloop => by rcases hloop with hloop | ⟨_, _, hloop⟩ <;> cases hloop⟩
  | respond | answer | answerUnheard | push | pushLost | writer => exact ⟨h.first, h.rest⟩

theorem reads_of_reachable (h : (machine serde shared incoming).Reachable c) :
    Reads serde incoming c :=
  invariant ⟨List.nil_prefix, fun _ => rfl⟩ (fun _ _ hc hmove => hc.moves hmove) h

/-! ### The handshake -/

/-- A request that a handshake accepts: it is named so, speaks this protocol and has the token. -/
def Welcome (shared : Shared) (hello : Request) : Prop :=
  hello.method = "node.hello" ∧ readHello hello.params = .ok ⟨protocolVersion, shared.token⟩

theorem handshake_eq_ok (shared : Shared) (hello : Request) :
    handshake shared hello.method hello.params = .ok () ↔ Welcome shared hello := by
  unfold handshake Welcome
  by_cases hmethod : hello.method = "node.hello"
  · rw [if_neg (not_not_intro hmethod)]
    cases hhello : readHello hello.params with
    | error failure =>
      refine iff_of_false (fun h => ?_) fun h => by cases h.2
      cases h
    | ok presented =>
      obtain ⟨protocol, token⟩ := presented
      rw [Except.ok.injEq, Hello.mk.injEq]
      change (if protocol ≠ protocolVersion then _
        else if tokenMatches shared.token token = true then _ else _) = _ ↔ _
      by_cases hprotocol : protocol = protocolVersion
      · rw [if_neg (not_not_intro hprotocol)]
        by_cases htoken : tokenMatches shared.token token = true
        · rw [if_pos htoken]
          exact iff_of_true rfl ⟨hmethod, hprotocol, (tokenMatches_iff _ _).mp htoken⟩
        · rw [if_neg htoken]
          refine iff_of_false (by simp) fun h => htoken ?_
          exact (tokenMatches_iff _ _).mpr h.2.2
      · rw [if_pos hprotocol]
        exact iff_of_false (by simp) fun h => hprotocol h.2.1
  · rw [if_pos hmethod]
    exact iff_of_false (by simp) fun h => hmethod h.1

/-- The requests among the messages that were read. -/
def requests (c : Connection) : List Request := c.read.filterMap requestOf

/-- Past the loop. -/
def IsPast (main : Main) : Prop := main ≠ .reading ∧ ∀ id outcome, main ≠ .greeting id outcome

/-- How a connection stands with its handshake. -/
inductive Gate (shared : Shared) (c : Connection) : Prop
  | unasked (hread : requests c = []) (hgreeted : c.greeted = false) (htasks : c.tasks = [])
      (hlog : c.out.log = []) (hmain : c.main = .reading ∨ IsPast c.main)
  | refused (hello : Request) (failure : Failure) (hread : requests c = [hello])
      (hrefused : handshake shared hello.method hello.params = .error failure)
      (hgreeted : c.greeted = false) (htasks : c.tasks = [])
      (hlog : c.main = .greeting hello.id (.error failure) ∧ c.out.log = [] ∨
        IsPast c.main ∧ (c.out.log = [.greeting hello.id (.error failure)] ∨
          c.out.log = [] ∧ c.out.broken = true))
      (hstopped : ∀ k, c.out.stopped = some k → k = c.out.log.length)
  | welcomed (hello : Request) (hread : requests c = hello :: c.tasks.map Task.request)
      (hwelcome : Welcome shared hello) (hgreeted : c.greeted = true)

theorem isPast_closing : IsPast .closing := ⟨by simp, by simp⟩
theorem isPast_stopping : IsPast .stopping := ⟨by simp, by simp⟩
theorem isPast_joining : IsPast .joining := ⟨by simp, by simp⟩
theorem isPast_finished : IsPast .finished := ⟨by simp, by simp⟩

/-- A step that goes on past the loop keeps the gate: it leaves what was read, the tasks and the
log alone. -/
theorem Gate.past (h : Gate shared c) (hread : d.read = c.read) (hgreeted : d.greeted = c.greeted)
    (htasks : d.tasks = c.tasks) (hlog : d.out.log = c.out.log)
    (hbroken : d.out.broken = c.out.broken)
    (hstopped : d.out.stopped = c.out.stopped ∨ d.out.stopped = some c.out.log.length)
    (hmain : IsPast d.main) (hpast : IsPast c.main ∨ c.main = .reading ∨ c.out.broken = true) :
    Gate shared d := by
  have hrequests : requests d = requests c := by rw [requests, hread, requests]
  cases h with
  | unasked hr hg ht hl hm =>
    exact .unasked (hrequests.trans hr) (hgreeted.trans hg) (htasks.trans ht) (hlog.trans hl)
      (.inr hmain)
  | refused hello failure hr hrefused hg ht hl hs =>
    refine .refused hello failure (hrequests.trans hr) hrefused (hgreeted.trans hg)
      (htasks.trans ht) (.inr ⟨hmain, ?_⟩) fun k hk => ?_
    · rcases hl with ⟨hm, hl⟩ | ⟨-, hl | ⟨hl, hb⟩⟩
      · refine .inr ⟨hlog.trans hl, hbroken.trans ?_⟩
        rcases hpast with hp | hp | hp
        · exact absurd hm (hp.2 _ _)
        · rw [hm] at hp
          cases hp
        · exact hp
      · exact .inl (hlog.trans hl)
      · exact .inr ⟨hlog.trans hl, hbroken.trans hb⟩
    · rw [hlog]
      rcases hstopped with hsame | hnow
      · exact hs k (hsame ▸ hk)
      · rw [hnow] at hk
        exact (Option.some.inj hk).symm
  | welcomed hello hr hw hg =>
    exact .welcomed hello (by rw [hrequests, hr, htasks]) hw (hgreeted.trans hg)

/-- A message that is served keeps the gate. -/
theorem Gate.serveMessage (h : Gate shared c) (hmain : c.main = .reading)
    (hnone : c.out.stopped = none)
    (message : JsonValue) (rest : PieceReader UInt8) :
    Gate shared (Connection.serveMessage shared
      { c with reader := rest, read := c.read ++ [message] } message) := by
  have happend : (c.read ++ [message]).filterMap requestOf =
      requests c ++ (requestOf message).toList := by
    rw [List.filterMap_append, requests]
    cases hm : requestOf message <;> simp [hm]
  unfold Connection.serveMessage
  cases hrequest : requestOf message with
  | none =>
    rw [hrequest, Option.toList_none, List.append_nil] at happend
    cases h with
    | unasked hr hg ht hl hm => exact .unasked (happend.trans hr) hg ht hl hm
    | refused hello failure hr hrefused hg ht hl hs =>
      rcases hl with ⟨hm, -⟩ | ⟨hm, -⟩
      · rw [hmain] at hm
        cases hm
      · exact absurd hmain hm.1
    | welcomed hello hr hw hg => exact .welcomed hello (happend.trans hr) hw hg
  | some request =>
    rw [hrequest, Option.toList_some] at happend
    cases h with
    | unasked hr hg ht hl hm =>
      rw [hr, List.nil_append] at happend
      simp only [hg, Bool.false_eq_true, if_false]
      cases hshake : handshake shared request.method request.params with
      | ok accepted =>
        refine .welcomed request ?_ ((handshake_eq_ok shared request).mp hshake) rfl
        change _ = request :: List.map Task.request c.tasks
        rw [ht]
        exact happend
      | error failure =>
        exact .refused request failure happend hshake rfl ht (.inl ⟨rfl, hl⟩)
          fun k hk => absurd hk (by simp [hnone])
    | refused hello failure hr hrefused hg ht hl hs =>
      rcases hl with ⟨hm, -⟩ | ⟨hm, -⟩
      · rw [hmain] at hm
        cases hm
      · exact absurd hmain hm.1
    | welcomed hello hr hw hg =>
      simp only [hg, if_true]
      refine .welcomed hello ?_ hw rfl
      change _ = hello :: List.map Task.request (c.tasks ++ [⟨request, .dispatching⟩])
      rw [List.map_append, ← List.cons_append, ← hr]
      exact happend

/-- A task that moves keeps the gate. -/
theorem Gate.setTask (h : Gate shared c) {i : ℕ} {task : Task} (htask : c.tasks[i]? = some task)
    (state : Serving) (out : FrameWriter Frame UInt8) :
    Gate shared { c.setTask i state with out := out } := by
  cases h with
  | unasked hr hg ht hl hm =>
    rw [ht] at htask
    cases htask
  | refused hello failure hr hrefused hg ht =>
    rw [ht] at htask
    cases htask
  | welcomed hello hr hw hg =>
    refine .welcomed hello ?_ hw hg
    have hsame : (c.tasks.modify i fun task => { task with state }).map Task.request =
        c.tasks.map Task.request :=
      map_modify_of_eq (g := fun task : Task => { task with state }) (fun _ => rfl) _ _
    exact hr.trans (congrArg _ hsame.symm)

/-- Before the loop is over the order to finish is not queued. -/
theorem Writes.not_stopped (h : Writes serde c) (hjoining : c.main ≠ .joining)
    (hfinished : c.main ≠ .finished) : c.out.stopped = none := by
  cases hstopped : c.out.stopped with
  | none => rfl
  | some k =>
    rcases h.ordered (by rw [hstopped]; rfl) with hmain | hmain
    · exact absurd hmain hjoining
    · exact absurd hmain hfinished

/-- A writer that is gone before the order to finish is broken. -/
theorem Writes.broken (h : Writes serde c) (hgone : c.out.isGone = true)
    (hnone : c.out.stopped = none) : c.out.broken = true := by
  cases hbroken : c.out.broken with
  | true => rfl
  | false =>
    have hrest : c.out.phase.rest = none := rest_of_isGone hgone
    obtain ⟨k, hk, -⟩ := h.sound.ended hrest hbroken
    rw [hnone] at hk
    cases hk

/-- Every move keeps the gate. -/
theorem Gate.moves (h : Gate shared c) (hw : Writes serde c) (hmove : Moves serde shared c d) :
    Gate shared d := by
  cases hmove with
  | read message rest hmain hread =>
    exact h.serveMessage hmain (hw.not_stopped (by simp [hmain]) (by simp [hmain]))
      message rest
  | lost rest hmain =>
    exact h.past rfl rfl rfl rfl rfl (.inl rfl) isPast_closing (.inr (.inl hmain))
  | greet id outcome hmain hgone =>
    have hnone := hw.not_stopped (by simp [hmain]) (by simp [hmain])
    cases h with
    | unasked hr hg ht hl hm =>
      rw [hmain] at hm
      rcases hm with hm | hm
      · cases hm
      · exact absurd rfl (hm.2 id outcome)
    | refused hello failure hr hrefused hg ht hl hs =>
      rcases hl with ⟨hm, hl⟩ | ⟨hm, -⟩
      · rw [hmain] at hm
        cases hm
        refine .refused hello failure hr hrefused hg ht (.inr ⟨?_, .inl ?_⟩) fun k hk => ?_
        · simpa [hg] using isPast_closing
        · simp [FrameWriter.push, hl]
        · have hk' : c.out.stopped = some k := hk
          rw [hnone] at hk'
          cases hk'
      · exact absurd hmain (hm.2 id outcome)
    | welcomed hello hr hw hg => exact .welcomed hello hr hw hg
  | greetUnheard id outcome hmain hgone =>
    have hnone := hw.not_stopped (by simp [hmain]) (by simp [hmain])
    exact h.past rfl rfl rfl rfl rfl (.inl rfl) isPast_closing (.inr (.inr (hw.broken hgone hnone)))
  | close hmain =>
    exact h.past rfl rfl rfl rfl rfl (.inl rfl) isPast_stopping (.inl (hmain ▸ isPast_closing))
  | stop hmain hgone =>
    exact h.past rfl rfl rfl rfl rfl (.inr rfl) isPast_joining (.inl (hmain ▸ isPast_stopping))
  | stopUnheard hmain hgone =>
    exact h.past rfl rfl rfl rfl rfl (.inl rfl) isPast_joining (.inl (hmain ▸ isPast_stopping))
  | join hmain hgone =>
    exact h.past rfl rfl rfl rfl rfl (.inl rfl) isPast_finished (.inl (hmain ▸ isPast_joining))
  | respond i request outcome htask hrejected => exact h.setTask htask _ c.out
  | answer i request outcome htask hgone => exact h.setTask htask _ _
  | answerUnheard i request outcome htask => exact h.setTask htask _ c.out
  | push params htasks hgone =>
    cases h with
    | unasked hr hg ht hl hm => exact absurd ht htasks
    | refused hello failure hr hrefused hg ht => exact absurd ht htasks
    | welcomed hello hr hw hg => exact .welcomed hello hr hw hg
  | pushLost => exact h
  | writer move out hmove =>
    obtain ⟨hlog, hstopped⟩ := FrameWriter.log_move hmove
    cases h with
    | unasked hr hg ht hl hm => exact .unasked hr hg ht (hlog.trans hl) hm
    | refused hello failure hr hrefused hg ht hl hs =>
      refine .refused hello failure hr hrefused hg ht ?_ fun k hk => ?_
      · rcases hl with ⟨hm, hl⟩ | ⟨hm, hl | ⟨hl, hb⟩⟩
        · exact .inl ⟨hm, hlog.trans hl⟩
        · exact .inr ⟨hm, .inl (hlog.trans hl)⟩
        · exact .inr ⟨hm, .inr ⟨hlog.trans hl, FrameWriter.broken_move hmove hb⟩⟩
      · exact (hs k (hstopped ▸ hk)).trans (congrArg List.length hlog.symm)
    | welcomed hello hr hw hg => exact .welcomed hello hr hw hg

theorem gate_of_reachable (h : (machine serde shared incoming).Reachable c) : Gate shared c := by
  have hboth : Writes serde c ∧ Gate shared c := by
    refine invariant (I := fun c => Writes serde c ∧ Gate shared c)
      ⟨Writes.accepted incoming, .unasked rfl rfl rfl rfl (.inl rfl)⟩ (fun c d hc hmove => ?_) h
    exact ⟨hc.1.moves hmove, hc.2.moves hc.1 hmove⟩
  exact hboth.2

/-! ### Results -/

/-- What a connection owes the first request it read: nothing before it; to a request that is
welcome, the tasks of those behind it; to any other, that nothing else happens. -/
structure Guarded (serde : Serde JsonValue) (shared : Shared) (incoming : PieceReader UInt8)
    (c : Connection) : Prop where
  /-- What was read are the first messages of the stream. -/
  read : c.read <+: (readAll serde incoming).1
  /-- Tasks are for the requests behind a welcome one, each for its own, in order. -/
  tasks : c.tasks ≠ [] →
    ∃ hello, Welcome shared hello ∧ requests c = hello :: c.tasks.map Task.request
  /-- Before a request nothing is written. -/
  silent : requests c = [] → c.tasks = [] ∧ c.out.written = []
  /-- A first request that is not welcome is the last one that is read, no task is started for
  it, and what is written is the frame that refuses it, or a part of that; all of it when the
  connection is done and no write failed. -/
  refused : ∀ hello ∈ (requests c).head?, ¬ Welcome shared hello →
    requests c = [hello] ∧ c.tasks = [] ∧
      ∃ failure, handshake shared hello.method hello.params = .error failure ∧
        c.out.written <+: encode serde (errorResponse hello.id failure) ∧
        (c.main = .finished → c.out.broken = false →
          c.out.written = encode serde (errorResponse hello.id failure))

/-- In every state a connection can reach, whatever arrives and however its tasks, its processes
and its writer interleave, no request is served before a welcome handshake. -/
theorem guarded_of_reachable (h : (machine serde shared incoming).Reachable c) :
    Guarded serde shared incoming c := by
  have hgate := gate_of_reachable h
  have hwrites := writes_of_reachable h
  refine ⟨(reads_of_reachable h).first, fun htasks => ?_, fun hnone => ?_, fun hello hhead hnot => ?_⟩
  · cases hgate with
    | unasked _ _ ht => exact absurd ht htasks
    | refused _ _ _ _ _ ht => exact absurd ht htasks
    | welcomed hello hr hw _ => exact ⟨hello, hw, hr⟩
  · cases hgate with
    | unasked _ _ ht hl _ =>
      have hwritten := hwrites.sound.written
      rw [hl] at hwritten
      exact ⟨ht, List.prefix_nil.mp hwritten⟩
    | refused _ _ hr => rw [hnone] at hr; cases hr
    | welcomed _ hr => rw [hnone] at hr; cases hr
  · cases hgate with
    | unasked hr =>
      rw [hr] at hhead
      cases hhead
    | welcomed first hr hw _ =>
      rw [hr] at hhead
      cases hhead
      exact absurd hw hnot
    | refused first failure hr hrefused _ ht hl hs =>
      rw [hr] at hhead
      obtain rfl : hello = first := (Option.some.inj hhead).symm
      have hlog : c.out.log = [.greeting hello.id (.error failure)] ∨
          c.out.log = [] ∧ (c.main = .finished → c.out.broken = true) := by
        rcases hl with ⟨hm, hl⟩ | ⟨-, hl | ⟨hl, hb⟩⟩
        · exact .inr ⟨hl, fun hfinished => by rw [hm] at hfinished; cases hfinished⟩
        · exact .inl hl
        · exact .inr ⟨hl, fun _ => hb⟩
      refine ⟨hr, ht, failure, hrefused, ?_, fun hfinished hbroken => ?_⟩
      · have hwritten := hwrites.sound.written
        rcases hlog with hlog | ⟨hlog, -⟩
        · rw [hlog, List.flatMap_singleton] at hwritten
          exact hwritten
        · rw [hlog] at hwritten
          rw [List.prefix_nil.mp hwritten]
          exact List.nil_prefix
      · obtain ⟨k, hk, hwritten⟩ :=
          hwrites.sound.ended (rest_of_isGone (hwrites.joined hfinished)) hbroken
        rcases hlog with hlog | ⟨-, hbroken'⟩
        · rw [hwritten, hs k hk, List.take_length, hlog, List.flatMap_singleton]
          rfl
        · rw [hbroken' hfinished] at hbroken
          cases hbroken

/-- A message that asks for the metadata of a file, as its text. -/
def statText : Bytes := bytesOf "\x7b\"method\":\"fs.stat\"\x7d"

def statMessage : JsonValue := .object [("method", .string "fs.stat")]

theorem statText_le : statText.length ≤ isizeMax := by decide

def statFromSlice (bytes : Bytes) : Except String JsonValue :=
  if bytes = statText then .ok statMessage else .error "expected value"

theorem statFromSlice_nil : ∃ error, statFromSlice [] = .error error := ⟨_, rfl⟩

/-- `serde_json` on that message. -/
def statSerde : Serde JsonValue := ⟨fun _ => ⟨statText, statText_le⟩, statFromSlice, statFromSlice_nil⟩

theorem statFrame_ne_nil : encode statSerde statMessage ≠ [] := by decide

def statIncoming : PieceReader UInt8 :=
  ⟨[], [⟨encode statSerde statMessage, statFrame_ne_nil⟩]⟩

/-- A daemon with a token. -/
def statShared : Shared := ⟨"secret", "1.0.0", "linux", "x64", "/root"⟩

/-- The connection after it read that message. -/
def statRefused (shared : Shared) (after : PieceReader UInt8) : Connection :=
  Connection.serveMessage shared
    { Connection.accepted statIncoming with reader := after, read := [statMessage] } statMessage

theorem statRefused_reachable (shared : Shared) :
    ∃ after, (machine statSerde shared statIncoming).Reachable (statRefused shared after) := by
  have hstream : statIncoming.stream = encode statSerde statMessage ++ [] := rfl
  obtain ⟨after, -, hread⟩ := readMessage_encode hstream
  have hfrom : statSerde.fromSlice (statSerde.toVec statMessage).val = .ok statMessage := rfl
  rw [hfrom] at hread
  have hstep : step statSerde shared (.accepted statIncoming) .receive =
      some (statRefused shared after) := by
    simp only [step, Connection.accepted, hread, List.nil_append, statRefused]
  exact ⟨after, Machine.ReachableWhen.step (M := machine statSerde shared statIncoming)
    (G := fun _ _ => True) (e := .receive) .init trivial hstep⟩

/-- A client that asks before it is greeted gets no task. -/
theorem stat_before_hello : ∃ c : Connection,
    requests c = [⟨.null, "fs.stat", .null⟩] ∧ c.tasks = [] ∧
      Guarded statSerde statShared statIncoming c := by
  obtain ⟨after, hreachable⟩ := statRefused_reachable statShared
  exact ⟨_, rfl, rfl, guarded_of_reachable hreachable⟩

end RemoteWorkspace.Analysis.ServerConnection
