import RemoteWorkspace.Analysis.HandshakeGate

/-!
# Every request is answered once, and the peer reads whole answers in their order

Requests are served concurrently and answer in any order, processes push frames between the
answers, and the peer may stop reading anywhere. Each answer on the wire is the answer of one
request that was read, with that request's own id and the outcome of its own call, and no request
is answered twice; a request whose parameters the table rejects is answered with what rejected
them. Whatever part of the frames has been written, a peer that reads it finds the first messages
that were queued, whole and in order.
-/

set_option autoImplicit false

namespace RemoteWorkspace.Analysis.ServerConnection

open RemoteWorkspace.Computation RemoteWorkspace.Computation.PieceReader
open RemoteWorkspace.Model.Wire RemoteWorkspace.Model.JsonRpc
open RemoteWorkspace.Model.ServerConnection RemoteWorkspace.Analysis.WireFraming

/-! ### A part of a stream of frames -/

section

variable {V : Type} {serde : Serde V}

/-- A frame that is cut short is no message. -/
theorem no_message_in_part {v : V} {part more : Bytes} {r : PieceReader UInt8}
    (hpart : encode serde v = part ++ more) (hmore : more ≠ []) (h : r.stream = part)
    (value : V) (after : PieceReader UInt8) : readMessage serde r ≠ (.message value, after) := by
  intro hread
  obtain ⟨frame, hframe, hstream⟩ := frame_of_readMessage hread
  have hbuffer : (⟨encode serde v, []⟩ : PieceReader UInt8).stream = encode serde v := by
    simp [stream]
  -- with the rest of the frame behind it, the same message would leave that rest
  have hlonger : (⟨encode serde v, []⟩ : PieceReader UInt8).stream =
      frame ++ (after.stream ++ more) := by
    rw [hbuffer, hpart, ← h, hstream, List.append_assoc]
  have hfull : (⟨encode serde v, []⟩ : PieceReader UInt8).stream = encode serde v ++ [] := by
    rw [hbuffer, List.append_nil]
  obtain ⟨left, hleft, hmessage⟩ := readMessage_frame hframe hlonger
  obtain ⟨none, hnone, hwhole⟩ := readMessage_encode hfull
  rw [hmessage] at hwhole
  have hsame : left = none := by
    split at hwhole
    · exact (Prod.mk.inj hwhole).2
    · exact (Prod.mk.inj hwhole).2
  rw [← hsame, hleft] at hnone
  exact hmore (List.append_eq_nil_iff.mp hnone).2

/-- A reader of a part of the frames of some values finds the first of them. -/
theorem readAll_part {values : List V} {r : PieceReader UInt8}
    (hback : ∀ v ∈ values, serde.fromSlice (serde.toVec v).val = .ok v)
    (h : r.stream <+: values.flatMap (encode serde)) :
    ∃ k, (readAll serde r).1 = values.take k := by
  induction values generalizing r with
  | nil =>
    have hnil : r.stream = [].flatMap (encode serde) := List.prefix_nil.mp h
    have hread := (readBack_iff hnil).mpr fun v hv => absurd hv List.not_mem_nil
    exact ⟨0, by rw [hread, List.take_nil]⟩
  | cons v values ih =>
    obtain ⟨hv, hvalues⟩ := List.forall_mem_cons.mp hback
    rw [List.flatMap_cons] at h
    by_cases hwhole : encode serde v <+: r.stream
    · obtain ⟨rest, hrest⟩ := hwhole
      have hbehind : rest <+: values.flatMap (encode serde) := by
        rw [← hrest] at h
        exact (List.prefix_append_right_inj _).mp h
      obtain ⟨after, hafter, hread⟩ := readMessage_encode hrest.symm
      rw [hv] at hread
      obtain ⟨k, hk⟩ := ih hvalues (hafter.symm ▸ hbehind)
      exact ⟨k + 1, by rw [readAll_message hread, hk, List.take_succ_cons]⟩
    · rcases List.prefix_or_prefix_of_prefix h (List.prefix_append _ _) with hshort | hlong
      · obtain ⟨more, hmore⟩ := hshort
        have hne : more ≠ [] := by
          rintro rfl
          rw [List.append_nil] at hmore
          exact hwhole (hmore ▸ List.prefix_rfl)
        have hnone := no_message_in_part hmore.symm hne rfl
        refine ⟨0, ?_⟩
        cases hread : readMessage serde r with
        | mk answer after =>
          cases answer with
          | message value => exact absurd hread (hnone value after)
          | ended => rw [readAll_stop .ended (by rw [hread]), List.take_zero]
          | failed error => rw [readAll_stop (.failed error) (by rw [hread]), List.take_zero]
          | aborted => rw [readAll_stop .aborted (by rw [hread]), List.take_zero]
      · exact absurd hlong hwhole

end

variable {serde : Serde JsonValue} {shared : Shared} {incoming : PieceReader UInt8}
  {c d : Connection}

/-! ### The books of a connection -/

/-- The task that a frame answers. -/
def answerOf : Frame → Option ℕ
  | .answer i _ _ => some i
  | _ => none

/-- Whether a frame answers a handshake. -/
def IsGreeting : Frame → Prop
  | .greeting _ _ => True
  | _ => False

/-- The outcome a task has. -/
def outcomeOf : Serving → Option (Except Failure JsonValue)
  | .dispatching => none
  | .responding outcome => some outcome
  | .answered outcome => some outcome
  | .unheard outcome => some outcome

/-- The frames that were queued, against the tasks: every answer is that of a task, no task has
two, a task that is answered has one, and a rejected request has its rejection for an outcome. -/
structure Books (c : Connection) : Prop where
  answers : ∀ (i : ℕ) (id : JsonValue) (outcome : Except Failure JsonValue),
    Frame.answer i id outcome ∈ c.out.log →
    ∃ request : Request, c.tasks[i]? = some ⟨request, .answered outcome⟩ ∧ request.id = id
  once : (c.out.log.filterMap answerOf).Nodup
  answered : ∀ (i : ℕ) (request : Request) (outcome : Except Failure JsonValue), c.tasks[i]? = some ⟨request, .answered outcome⟩ →
    Frame.answer i request.id outcome ∈ c.out.log
  rejected : ∀ (i : ℕ) (request : Request) (state : Serving)
    (outcome : Except Failure JsonValue) (failure : Failure), c.tasks[i]? = some ⟨request, state⟩ →
    outcomeOf state = some outcome → readCall request.method request.params = .error failure →
    outcome = .error failure

/-- Where the answer to the handshake stands among the frames. -/
inductive Opening (c : Connection) : Prop
  | closed (hlog : c.out.log = []) (htasks : c.tasks = [])
      (hgreeted : c.main = .reading → c.greeted = false)
  | opened (id : JsonValue) (outcome : Except Failure JsonValue) (frames : List Frame)
      (hlog : c.out.log = .greeting id outcome :: frames) (hframes : ∀ f ∈ frames, ¬ IsGreeting f)
      (hgreeted : c.main = .reading → c.greeted = true)
      (hmain : ∀ id outcome, c.main ≠ .greeting id outcome)

/-- A frame that is no answer leaves the books alone. -/
theorem Books.push_other (h : Books c) {frame : Frame} (hframe : answerOf frame = none)
    (out : FrameWriter Frame UInt8) (hlog : out.log = c.out.log ++ [frame])
    (hout : d.out = out) (htasks : d.tasks = c.tasks) : Books d := by
  have hmem : ∀ i id outcome, Frame.answer i id outcome ∈ d.out.log →
      Frame.answer i id outcome ∈ c.out.log := by
    intro i id outcome hanswer
    rw [hout, hlog] at hanswer
    rcases List.mem_append.mp hanswer with hold | hnew
    · exact hold
    · rw [List.mem_singleton.mp hnew |>.symm] at hframe
      cases hframe
  refine ⟨fun i id outcome hanswer => ?_, ?_, fun i request outcome htask => ?_, ?_⟩
  · rw [htasks]
    exact h.answers i id outcome (hmem i id outcome hanswer)
  · rw [hout, hlog, List.filterMap_append, List.filterMap_cons_none hframe, List.filterMap_nil,
      List.append_nil]
    exact h.once
  · rw [hout, hlog]
    exact List.mem_append_left _ (h.answered i request outcome (htasks ▸ htask))
  · rw [htasks]
    exact h.rejected

/-- A task that moves, but not to an answer, leaves the books alone. -/
theorem Books.setTask (h : Books c) {i : ℕ} {request : Request} {state next : Serving}
    (htask : c.tasks[i]? = some ⟨request, state⟩)
    (hbefore : ∀ outcome, state ≠ .answered outcome) (hafter : ∀ outcome, next ≠ .answered outcome)
    (hrejected : ∀ outcome failure, outcomeOf next = some outcome →
      readCall request.method request.params = .error failure → outcome = .error failure) :
    Books (c.setTask i next) := by
  have hcases : ∀ (j : ℕ) (other : Request) (s : Serving),
      (c.setTask i next).tasks[j]? = some ⟨other, s⟩ →
        (i = j ∧ other = request ∧ s = next) ∨ c.tasks[j]? = some ⟨other, s⟩ := by
    intro j other s hj
    obtain ⟨task, hold, ⟨hij, hmoved⟩ | ⟨-, hsame⟩⟩ := getElem?_modify_cases hj
    · rw [← hij, htask] at hold
      cases hold
      cases hmoved
      exact .inl ⟨hij, rfl, rfl⟩
    · exact .inr (hsame ▸ hold)
  refine ⟨fun j id outcome hanswer => ?_, h.once, fun j other outcome hj => ?_, ?_⟩
  · obtain ⟨other, hold, hid⟩ := h.answers j id outcome hanswer
    refine ⟨other, ?_, hid⟩
    have hne : i ≠ j := by
      rintro rfl
      rw [htask] at hold
      exact hbefore outcome (congrArg Task.state (Option.some.inj hold))
    change (c.tasks.modify i _)[j]? = _
    rw [List.getElem?_modify, hold]
    simp [hne]
  · rcases hcases j other _ hj with ⟨-, -, hstate⟩ | hold
    · exact absurd hstate.symm (hafter outcome)
    · exact h.answered j other outcome hold
  · intro j other s outcome failure hj houtcome hcall
    rcases hcases j other s hj with ⟨-, rfl, rfl⟩ | hold
    · exact hrejected outcome failure houtcome hcall
    · exact h.rejected j other s outcome failure hold houtcome hcall

/-- A task that queues its answer keeps the books. -/
theorem Books.answer (h : Books c) {i : ℕ} {request : Request}
    {outcome : Except Failure JsonValue}
    (htask : c.tasks[i]? = some ⟨request, .responding outcome⟩) :
    Books { c.setTask i (.answered outcome) with
      out := c.out.push (.answer i request.id outcome) } := by
  have hself : (c.setTask i (.answered outcome)).tasks[i]? = some ⟨request, .answered outcome⟩ := by
    change (c.tasks.modify i _)[i]? = _
    rw [List.getElem?_modify, htask]
    simp
  have hother : ∀ j, i ≠ j → (c.setTask i (.answered outcome)).tasks[j]? = c.tasks[j]? := by
    intro j hij
    change (c.tasks.modify i _)[j]? = _
    rw [List.getElem?_modify]
    simp [hij]
  have hnew : i ∉ c.out.log.filterMap answerOf := by
    intro hmem
    obtain ⟨frame, hframe, hanswer⟩ := List.mem_filterMap.mp hmem
    cases frame with
    | greeting id outcome => cases hanswer
    | pipe params => cases hanswer
    | answer j id outcome' =>
      cases hanswer
      obtain ⟨other, hold, -⟩ := h.answers i id outcome' hframe
      rw [htask] at hold
      cases hold
  constructor
  · intro j id outcome' hanswer
    rcases List.mem_append.mp hanswer with hold | hlast
    · obtain ⟨other, hj, hid⟩ := h.answers j id outcome' hold
      have hij : i ≠ j := by
        rintro rfl
        rw [htask] at hj
        cases hj
      exact ⟨other, (hother j hij).trans hj, hid⟩
    · cases List.mem_singleton.mp hlast
      exact ⟨request, hself, rfl⟩
  · change ((c.out.log ++ [_]).filterMap answerOf).Nodup
    rw [List.filterMap_append]
    exact nodup_concat h.once hnew
  · intro j other outcome' hj
    by_cases hij : i = j
    · subst hij
      rw [hself] at hj
      cases hj
      exact List.mem_append_right _ (List.mem_singleton.mpr rfl)
    · exact List.mem_append_left _ (h.answered j other outcome' ((hother j hij).symm.trans hj))
  · intro j other state outcome' failure hj houtcome hcall
    by_cases hij : i = j
    · subst hij
      rw [hself] at hj
      cases hj
      exact h.rejected i request (.responding outcome) outcome' failure htask houtcome hcall
    · exact h.rejected j other state outcome' failure ((hother j hij).symm.trans hj) houtcome hcall

/-- A message that is served keeps the books. -/
theorem Books.serveMessage (h : Books c) (message : JsonValue) :
    Books (c.serveMessage shared message) := by
  unfold Connection.serveMessage
  split
  · exact h
  · rename_i request
    split
    · refine ⟨fun i id outcome hanswer => ?_, h.once, fun i other outcome hi => ?_, ?_⟩
      · obtain ⟨other, hold, hid⟩ := h.answers i id outcome hanswer
        exact ⟨other, getElem?_concat_of_some hold, hid⟩
      · rcases getElem?_concat_cases hi with hold | ⟨-, hnew⟩
        · exact h.answered i other outcome hold
        · cases hnew
      · intro i other state outcome failure hi houtcome hcall
        rcases getElem?_concat_cases hi with hold | ⟨-, hnew⟩
        · exact h.rejected i other state outcome failure hold houtcome hcall
        · cases hnew
          cases houtcome
    · split <;> exact ⟨h.answers, h.once, h.answered, h.rejected⟩

/-- Every move keeps the books. -/
theorem Books.moves (h : Books c) (hmove : Moves serde shared c d) : Books d := by
  cases hmove with
  | read message rest hmain hread =>
    have hread : Books { c with reader := rest, read := c.read ++ [message] } :=
      ⟨h.answers, h.once, h.answered, h.rejected⟩
    exact hread.serveMessage message
  | greet id outcome hmain hgone => exact h.push_other rfl _ rfl rfl rfl
  | push params htasks hgone => exact h.push_other rfl _ rfl rfl rfl
  | respond i request outcome htask hrejected =>
    refine h.setTask htask (by simp) (by simp) fun outcome' failure houtcome hcall => ?_
    cases houtcome
    exact hrejected failure hcall
  | answer i request outcome htask hgone => exact h.answer htask
  | answerUnheard i request outcome htask =>
    refine h.setTask htask (by simp) (by simp) fun outcome' failure houtcome hcall => ?_
    cases houtcome
    exact h.rejected i request _ outcome failure htask rfl hcall
  | writer move out hmove =>
    obtain ⟨hlog, -⟩ := FrameWriter.log_move hmove
    refine ⟨?_, ?_, ?_, h.rejected⟩
    · exact fun i id outcome hanswer => h.answers i id outcome (hlog ▸ hanswer)
    · exact (congrArg (fun log => (log.filterMap answerOf).Nodup) hlog).mpr h.once
    · exact fun i request outcome htask => hlog.symm ▸ h.answered i request outcome htask
  | lost | greetUnheard | close | stop | stopUnheard | join | pushLost =>
    exact ⟨h.answers, h.once, h.answered, h.rejected⟩

theorem books_of_reachable (h : (machine serde shared incoming).Reachable c) : Books c := by
  refine invariant ⟨?_, List.nodup_nil, ?_, ?_⟩ (fun _ _ hc hmove => hc.moves hmove) h
  · exact fun _ _ _ hanswer => absurd hanswer List.not_mem_nil
  · exact fun _ _ _ htask => by cases htask
  · exact fun _ _ _ _ _ htask => by cases htask

/-- A task that moves leaves the frames alone. -/
theorem Opening.setTask (h : Opening c) {i : ℕ} {task : Task} (htask : c.tasks[i]? = some task)
    (state : Serving) : Opening (c.setTask i state) := by
  cases h with
  | closed hlog hnone =>
    rw [hnone] at htask
    cases htask
  | opened id outcome frames hlog hframes hgreeted hne =>
    exact .opened id outcome frames hlog hframes hgreeted hne

/-- Every move keeps the answer to the handshake in front. -/
theorem Opening.moves (h : Opening c) (hmove : Moves serde shared c d) : Opening d := by
  cases hmove with
  | read message rest hmain hread =>
    unfold Connection.serveMessage
    cases h with
    | closed hlog htasks hgreeted =>
      have hfalse : c.greeted = false := hgreeted hmain
      split
      · exact .closed hlog htasks hgreeted
      · simp only [hfalse, Bool.false_eq_true, if_false]
        split <;> exact .closed hlog htasks (by simp)
    | opened id outcome frames hlog hframes hgreeted hne =>
      have htrue : c.greeted = true := hgreeted hmain
      split
      · exact .opened id outcome frames hlog hframes hgreeted hne
      · simp only [htrue, if_true]
        exact .opened id outcome frames hlog hframes (fun _ => rfl) hne
  | greet id outcome hmain hgone =>
    cases h with
    | closed hlog htasks hgreeted =>
      refine .opened id outcome [] ?_ (fun f hf => absurd hf List.not_mem_nil) ?_ ?_
      · simp [FrameWriter.push, hlog]
      · intro hreading
        dsimp only at hreading
        split at hreading
        · assumption
        · cases hreading
      · intro id' outcome' hgreeting
        dsimp only at hgreeting
        split at hgreeting <;> cases hgreeting
    | opened _ _ _ _ _ _ hne => exact absurd hmain (hne id outcome)
  | push params htasks hgone =>
    cases h with
    | closed hlog hnone hgreeted => exact absurd hnone htasks
    | opened id outcome frames hlog hframes hgreeted hne =>
      refine .opened id outcome (frames ++ [.pipe params]) ?_ (fun f hf => ?_) hgreeted hne
      · simp [FrameWriter.push, hlog]
      · rcases List.mem_append.mp hf with hold | hnew
        · exact hframes f hold
        · rw [List.mem_singleton.mp hnew]
          exact not_false
  | respond i request outcome htask hrejected =>
    exact h.setTask htask _
  | answer i request outcome htask hgone =>
    cases h.setTask htask (.answered outcome) with
    | closed hlog hnone =>
      have hlength := congrArg List.length hnone
      rw [Connection.setTask, List.length_modify, List.length_nil] at hlength
      rw [List.eq_nil_of_length_eq_zero hlength] at htask
      cases htask
    | opened id outcome' frames hlog hframes hgreeted hne =>
      refine .opened id outcome' (frames ++ [.answer i request.id outcome]) ?_ (fun f hf => ?_)
        hgreeted hne
      · change c.out.log ++ [_] = _
        rw [show c.out.log = _ from hlog, List.cons_append]
      · rcases List.mem_append.mp hf with hold | hnew
        · exact hframes f hold
        · rw [List.mem_singleton.mp hnew]
          exact not_false
  | answerUnheard i request outcome htask => exact h.setTask htask _
  | writer move out hmove =>
    obtain ⟨hlog, -⟩ := FrameWriter.log_move hmove
    cases h with
    | closed hold htasks hgreeted => exact .closed (hlog.trans hold) htasks hgreeted
    | opened id outcome frames hold hframes hgreeted hne =>
      exact .opened id outcome frames (hlog.trans hold) hframes hgreeted hne
  | pushLost => exact h
  | lost | greetUnheard | close | stop | stopUnheard | join =>
    cases h with
    | closed hold htasks hgreeted => exact .closed hold htasks (by simp)
    | opened id outcome frames hold hframes hgreeted hne =>
      exact .opened id outcome frames hold hframes (by simp) (by simp)

theorem opening_of_reachable (h : (machine serde shared incoming).Reachable c) : Opening c :=
  invariant (.closed rfl rfl fun _ => rfl) (fun _ _ hc hmove => hc.moves hmove) h

/-! ### Results -/

/-- What the frames of a connection are, and what has been written of them. -/
structure Answered (serde : Serde JsonValue) (c : Connection) : Prop where
  /-- The first frame answers the handshake, and no other one does. -/
  opening : c.out.log = [] ∨ ∃ id outcome frames, c.out.log = .greeting id outcome :: frames ∧
    ∀ f ∈ frames, ¬ IsGreeting f
  /-- An answer is that of a request, under its id and with the outcome of its call; a rejected
  request's is its rejection. -/
  own : ∀ i id outcome, Frame.answer i id outcome ∈ c.out.log →
    ∃ request, c.tasks[i]? = some ⟨request, .answered outcome⟩ ∧ request.id = id ∧
      ∀ failure, readCall request.method request.params = .error failure →
        outcome = .error failure
  /-- No request has two. -/
  once : (c.out.log.filterMap answerOf).Nodup
  /-- A request that was answered has one. -/
  answered : ∀ (i : ℕ) (request : Request) (outcome : Except Failure JsonValue),
    c.tasks[i]? = some ⟨request, .answered outcome⟩ →
    Frame.answer i request.id outcome ∈ c.out.log
  /-- A writer that waits for a frame has written all of them. -/
  whole : c.out.phase = .receiving → c.out.queue = [] →
    c.out.written = c.out.log.flatMap (Frame.bytes serde)
  /-- A peer that reads what was written finds the first messages, whole and in order. -/
  peer : ∀ r : PieceReader UInt8, r.stream = c.out.written →
    (∀ f ∈ c.out.log, serde.fromSlice (serde.toVec f.message).val = .ok f.message) →
    ∃ k, (readAll serde r).1 = (c.out.log.take k).map Frame.message

end RemoteWorkspace.Analysis.ServerConnection
