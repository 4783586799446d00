import RemoteWorkspace.Analysis.CollectedComplete
import RemoteWorkspace.Model.RemoteTty

/-!
# What one event does to a remote terminal

The steps of the provider, inverted once (`Effect`), and what holds of the daemon's answers in
every reachable state: an answer ends where the window ended when it was read, and one that is
not lossy is the part of the stream from the offset that was asked for (`Answers`).
-/

set_option autoImplicit false

namespace RemoteWorkspace.Analysis.TtySteps

open RemoteWorkspace.Computation RemoteWorkspace.Model RemoteWorkspace.Model.RemoteTty
open CollectedOutput (Window readOutput)
open CollectedComplete (WindowHolds windowHolds_new windowHolds_push readOutput_eq)
open TerminalRegistry (TtyOutcome)

variable {stream : Bytes} {s t : Tty}

/-! ### Pulls -/

section pulls

variable (s : Tty) (caller : Caller) (pull : Pull)

@[simp] theorem pullOf_setPull : (s.setPull caller pull).pullOf caller = some pull := by
  cases caller <;> rfl

@[simp] theorem setPull_session : (s.setPull caller pull).session = s.session := by
  cases caller <;> rfl

@[simp] theorem setPull_offset : (s.setPull caller pull).offset = s.offset := by
  cases caller <;> rfl

@[simp] theorem setPull_finished : (s.setPull caller pull).finished = s.finished := by
  cases caller <;> rfl

@[simp] theorem setPull_releasing : (s.setPull caller pull).releasing = s.releasing := by
  cases caller <;> rfl

@[simp] theorem setPull_decoder : (s.setPull caller pull).decoder = s.decoder := by
  cases caller <;> rfl

@[simp] theorem setPull_output : (s.setPull caller pull).output = s.output := by
  cases caller <;> rfl

@[simp] theorem setPull_books : (s.setPull caller pull).books = s.books := by
  cases caller <;> rfl

@[simp] theorem setPull_done : (s.setPull caller pull).done = s.done := by
  cases caller <;> rfl

@[simp] theorem setPull_follow : (s.setPull .follow pull).follow = some pull := rfl

@[simp] theorem setPull_follow_stopping : (s.setPull .follow pull).stopping = s.stopping := rfl

@[simp] theorem setPull_teardown_follow : (s.setPull .teardown pull).follow = s.follow := rfl

@[simp] theorem setPull_teardown :
    (s.setPull .teardown pull).stopping = some (.pulling pull) := rfl

end pulls

/-- A pull of one caller leaves that of the other one. -/
theorem pullOf_setPull_ne {c c' : Caller} (h : c' ≠ c) (s : Tty) (pull : Pull) :
    (s.setPull c pull).pullOf c' = s.pullOf c' := by
  cases c <;> cases c' <;> first | rfl | exact absurd rfl h

/-- A pull after one of them was changed. -/
theorem pullOf_setPull_cases {c c' : Caller} {pull p : Pull}
    (h : (s.setPull c pull).pullOf c' = some p) :
    c' = c ∧ p = pull ∨ c' ≠ c ∧ s.pullOf c' = some p := by
  by_cases hc : c' = c
  · subst hc
    rw [pullOf_setPull, Option.some.injEq] at h
    exact .inl ⟨rfl, h.symm⟩
  · rw [pullOf_setPull_ne hc] at h
    exact .inr ⟨hc, h⟩

/-- Whether a pull waits for the output to drain. -/
def parked : Pull → Bool
  | .marking _ held => held
  | .publishing _ held => held
  | _ => false

/-- A pull that has published its bytes. -/
def Published : Pull → Prop
  | .publishing _ _ => True
  | .returned _ => True
  | _ => False

/-! ### Publishing -/

/-- The variables once the bytes of a read were published. -/
def advanced (s : Tty) (read : TtyWireRead) : Tty :=
  let bytes := Base64.decode read.data
  { s with
    offset := read.nextOffset
    decoder := (Utf8.feed s.decoder bytes).2
    output := s.output ++ if s.finished then [] else (Utf8.feed s.decoder bytes).1
    books := { s.books with
      offsets := s.books.offsets ++ [read.nextOffset]
      published := s.books.published ++ if s.finished then []
        else List.range' (read.nextOffset - bytes.length) bytes.length } }

/-- The variables once a loss was reported. -/
def reported (s : Tty) (read : TtyWireRead) : Tty :=
  let lost := read.nextOffset - (Base64.decode read.data).length - s.offset
  { s with
    output := s.output ++ if s.finished then []
      else lostNotice (read.nextOffset - (Base64.decode read.data).length - s.offset)
    books := { s.books with
      lossy := true
      lost := s.books.lost ++ if s.finished then [] else List.range' s.offset lost } }

/-- Whether a write waits for the output to drain. -/
def waits (s : Tty) (text : List Char) (room : Bool) : Bool :=
  !(s.finished || decide (text = [])) && !room

/-- What is published is written unless the handle has finished. -/
theorem publish_eq (s : Tty) (text : List Char) (room : Bool) :
    publish s text room =
      ({ s with output := s.output ++ if s.finished then [] else text }, waits s text room) := by
  unfold publish waits
  split
  · rename_i hnone
    have hnil : (if s.finished = true then [] else text) = [] := by
      rcases hnone with hf | ht
      · exact if_pos hf
      · rw [ht, ite_self]
    have hopen : (s.finished || decide (text = [])) = true := by simpa using hnone
    rw [hnil, List.append_nil, hopen]
    rfl
  · rename_i hsome
    have hopen : (s.finished || decide (text = [])) = false := by simpa using hsome
    rw [if_neg (not_or.mp hsome).1, hopen]
    rfl

/-- The text a read ends. -/
def textOf (s : Tty) (read : TtyWireRead) : List Char :=
  (Utf8.feed s.decoder (Base64.decode read.data)).1

/-- The notice of what a read has lost. -/
def noticeOf (s : Tty) (read : TtyWireRead) : List Char :=
  lostNotice (read.nextOffset - (Base64.decode read.data).length - s.offset)

/-- A pull from the new offset on. -/
theorem advance_eq (s : Tty) (caller : Caller) (read : TtyWireRead) (room : Bool) :
    ∃ pull, advance s caller read room = (advanced s read).setPull caller pull ∧
      Published pull ∧ parked pull = waits s (textOf s read) room ∧ pull ≠ .returned none := by
  unfold advance
  simp only [publish_eq]
  split
  · rename_i hb
    refine ⟨.returned (some read.outcome), ?_, trivial, ?_, by simp⟩
    · simp [advanced, hb]
    · simp [parked, waits, textOf, hb]
  · exact ⟨_, rfl, trivial, rfl, by simp⟩

/-- A pull whose read was answered with a loss. -/
theorem received_lossy {read : TtyWireRead} (h : read.lossy = true) (s : Tty) (caller : Caller)
    (room : Bool) :
    received s caller read room =
      (reported s read).setPull caller (.marking read (waits s (noticeOf s read) room)) := by
  unfold received
  simp only [h, if_true, publish_eq]
  rfl

/-! ### Steps -/

/-- What the threads of a session do to it. -/
inductive Moves (stream : Bytes) (x : Session) : Session → Prop
  | masterRead {n : ℕ} (hle : x.taken + n ≤ stream.length) :
    Moves stream x { x with taken := x.taken + n }
  | push (hlt : x.pushed < x.taken) :
    Moves stream x { x with
      window := x.window.push ((stream.take x.taken).drop x.pushed)
      pushed := x.taken }
  | reap (facts : TtyOutcome) : Moves stream x { x with outcome := some facts }

/-- What the daemon does to a request. -/
inductive Served (x : Session) : ReadRequest → ReadRequest → Prop
  | look (o : ℕ) :
    Served x ⟨o, .asked⟩
      ⟨o, .looked (x.window.read o).1 (x.window.read o).2.1 (x.window.read o).2.2⟩
  | respond (o : ℕ) (bytes : Bytes) (next : ℕ) (lossy expired : Bool) :
    Served x ⟨o, .looked bytes next lossy⟩ ⟨o, respond x expired bytes next lossy⟩
  | refuse {o : ℕ} {stage : ReadStage} : Served x ⟨o, stage⟩ ⟨o, .refused⟩

/-- Everything one event can do. -/
inductive Effect (stream : Bytes) (s : Tty) : Event → Tty → Prop
  | session {e : Event} {x : Session} (hmoves : Moves stream s.session x) :
    Effect stream s e { s with session := x }
  | served {e : Event} {caller : Caller} {r r' : ReadRequest}
    (hpull : s.pullOf caller = some (.reading r)) (hserved : Served s.session r r') :
    Effect stream s e (s.setPull caller (.reading r'))
  | answered {caller : Caller} {room : Bool} {o : ℕ} {read : TtyWireRead} {pull : Pull}
    (hpull : s.pullOf caller = some (.reading ⟨o, .answered read⟩)) (hlossy : read.lossy = false)
    (hpublished : Published pull)
    (hparked : parked pull = waits s (textOf s read) room ∧ pull ≠ .returned none) :
    Effect stream s (.resume caller room) ((advanced s read).setPull caller pull)
  | lossy {caller : Caller} {room : Bool} {o : ℕ} {read : TtyWireRead}
    (hpull : s.pullOf caller = some (.reading ⟨o, .answered read⟩)) (hlossy : read.lossy = true) :
    Effect stream s (.resume caller room)
      ((reported s read).setPull caller (.marking read (waits s (noticeOf s read) room)))
  | marked {caller : Caller} {room : Bool} {read : TtyWireRead} {pull : Pull}
    (hpull : s.pullOf caller = some (.marking read false))
    (hpublished : Published pull)
    (hparked : parked pull = waits s (textOf s read) room ∧ pull ≠ .returned none) :
    Effect stream s (.resume caller room) ((advanced s read).setPull caller pull)
  | failed {caller : Caller} {room : Bool} {o : ℕ}
    (hpull : s.pullOf caller = some (.reading ⟨o, .refused⟩)) :
    Effect stream s (.resume caller room) (s.setPull caller (.returned none))
  | published {caller : Caller} {room : Bool} {outcome : Option TtyOutcome}
    (hpull : s.pullOf caller = some (.publishing outcome false)) :
    Effect stream s (.resume caller room) (s.setPull caller (.returned (some outcome)))
  | followOn {room : Bool} {result : Option (Option TtyOutcome)}
    (hpull : s.follow = some (.returned result)) :
    Effect stream s (.resume .follow room) (followOn s result)
  | teardownOn {room : Bool} {result : Option (Option TtyOutcome)}
    (hpull : s.stopping = some (.pulling (.returned result))) :
    Effect stream s (.resume .teardown room) (teardownOn s result)
  | drain (hopen : s.finished = false) :
    Effect stream s .drain { s with
      follow := s.follow.map Pull.drained
      stopping := s.stopping.map Teardown.drained }
  | terminate : Effect stream s .terminate (terminate s)
  | refused (hstopping : s.stopping = some .terminating) :
    Effect stream s (.terminated true) { s with stopping := some (.settled true) }
  | terminated (hstopping : s.stopping = some .terminating) :
    Effect stream s (.terminated false)
      { s with stopping := some (.pulling (.reading ⟨s.offset, .asked⟩)) }
  | told {refused : Bool} (facts : TtyOutcome) (hstopping : s.stopping = some .asking) :
    Effect stream s (.told refused) { finish s facts with stopping := some (.settled false) }

/-- The pull of the teardown is its last one. -/
theorem pullOf_teardown {p : Pull} (h : s.pullOf .teardown = some p) :
    s.stopping = some (.pulling p) := by
  unfold Tty.pullOf at h
  split at h
  · rename_i hcaller
    cases hcaller
  · split at h
    · rename_i last hlast
      rw [Option.some.injEq] at h
      exact h ▸ hlast
    · cases h

/-- A caller resumes where its await is over. -/
theorem resume_effect {caller : Caller} {room : Bool} (h : resume s caller room = some t) :
    Effect stream s (.resume caller room) t := by
  unfold resume at h
  split at h
  · rename_i o read hpull
    rw [Option.some.injEq] at h
    subst h
    cases hlossy : read.lossy with
    | true =>
      rw [received_lossy hlossy]
      exact .lossy hpull hlossy
    | false =>
      obtain ⟨pull, heq, hpublished, hparked⟩ := advance_eq s caller read room
      have hreceived : received s caller read room = advance s caller read room := by
        rw [received, hlossy]
        exact if_neg (by decide)
      rw [hreceived, heq]
      exact .answered hpull hlossy hpublished hparked
  · rename_i o hpull
    rw [Option.some.injEq] at h
    exact h ▸ .failed hpull
  · rename_i read hpull
    rw [Option.some.injEq] at h
    obtain ⟨pull, heq, hpublished, hparked⟩ := advance_eq s caller read room
    rw [← h, heq]
    exact .marked hpull hpublished hparked
  · rename_i outcome hpull
    rw [Option.some.injEq] at h
    exact h ▸ .published hpull
  · rename_i result hpull
    cases caller with
    | follow =>
      simp only [Option.some.injEq] at h
      exact h ▸ .followOn hpull
    | teardown =>
      simp only [Option.some.injEq] at h
      exact h ▸ .teardownOn (pullOf_teardown hpull)
  · cases h

/-- Every step is one of the effects. -/
theorem step_effect {e : Event} (h : step stream s e = some t) : Effect stream s e t := by
  cases e with
  | masterRead n =>
    simp only [step, Session.masterRead, Option.map_eq_some_iff] at h
    obtain ⟨x, hx, rfl⟩ := h
    split at hx
    · rename_i hguard
      cases hx
      exact .session (.masterRead hguard.2.2.2)
    · cases hx
  | push =>
    simp only [step, Session.push, Option.map_eq_some_iff] at h
    obtain ⟨x, hx, rfl⟩ := h
    split at hx
    · rename_i hlt
      cases hx
      exact .session (.push hlt)
    · cases hx
  | reap facts =>
    simp only [step, Session.reap, Option.map_eq_some_iff] at h
    obtain ⟨x, hx, rfl⟩ := h
    split at hx
    · cases hx
      exact .session (.reap facts)
    · cases hx
  | look caller =>
    simp only [step] at h
    split at h
    · rename_i o hpull
      cases h
      exact .served hpull (.look o)
    · cases h
  | respond caller expired =>
    simp only [step] at h
    split at h
    · rename_i o bytes next lossy hpull
      cases h
      exact .served hpull (.respond o bytes next lossy expired)
    · cases h
  | refuse caller =>
    simp only [step] at h
    split at h
    · rename_i o hpull
      cases h
      exact .served hpull .refuse
    · rename_i o bytes next lossy hpull
      cases h
      exact .served hpull .refuse
    · cases h
  | resume caller room => exact resume_effect h
  | drain =>
    simp only [step] at h
    split at h
    · cases h
    · rename_i hopen
      cases h
      exact .drain (by simpa using hopen)
  | terminate =>
    simp only [step, Option.some.injEq] at h
    exact h ▸ .terminate
  | terminated refused =>
    simp only [step] at h
    split at h
    · rename_i hstopping
      cases refused with
      | true =>
        simp only [if_true, Option.some.injEq] at h
        exact h ▸ .refused hstopping
      | false =>
        simp only [Bool.false_eq_true, if_false, Option.some.injEq] at h
        exact h ▸ .terminated hstopping
    · cases h
  | told refused =>
    simp only [step] at h
    split at h
    · rename_i hstopping
      cases h
      exact .told _ hstopping
    · cases h

/-! ### Settling -/

section finishing

variable (s : Tty) (outcome : TtyOutcome)

@[simp] theorem finish_session : (finish s outcome).session = s.session := by
  unfold finish
  split <;> rfl

@[simp] theorem finish_offset : (finish s outcome).offset = s.offset := by
  unfold finish
  split <;> rfl

@[simp] theorem finish_releasing : (finish s outcome).releasing = s.releasing := by
  unfold finish
  split <;> rfl

@[simp] theorem finish_follow : (finish s outcome).follow = s.follow := by
  unfold finish
  split <;> rfl

@[simp] theorem finish_stopping : (finish s outcome).stopping = s.stopping := by
  unfold finish
  split <;> rfl

@[simp] theorem finish_books : (finish s outcome).books = s.books := by
  unfold finish
  split <;> rfl

@[simp] theorem finish_finished : (finish s outcome).finished = true := by
  unfold finish
  split
  · assumption
  · rfl

end finishing

/-! ### What the daemon answers -/

/-- An answer that ends at `next`: it fits behind the offset that was asked for, and is all of
the stream from there unless it is lossy. -/
structure Answers (stream : Bytes) (fromByte : ℕ) (bytes : Bytes) (next : ℕ) (lossy : Bool) :
    Prop where
  fits : fromByte + bytes.length ≤ next
  exact : lossy = false → bytes = (stream.take next).drop fromByte

/-- A request is about what was pushed, and so is its answer. -/
def RequestHolds (stream : Bytes) (pushed : ℕ) (r : ReadRequest) : Prop :=
  r.fromByte ≤ pushed ∧
    match r.stage with
    | .looked bytes next lossy => next ≤ pushed ∧ Answers stream r.fromByte bytes next lossy
    | .answered read => read.nextOffset ≤ pushed ∧
        Answers stream r.fromByte (Base64.decode read.data) read.nextOffset read.lossy
    | _ => True

def PullHolds (stream : Bytes) (pushed : ℕ) : Pull → Prop
  | .reading r => RequestHolds stream pushed r
  | .marking read _ => read.nextOffset ≤ pushed
  | _ => True

/-- The window holds the tail of what was pushed, and no read is ahead of it. -/
structure Sound (stream : Bytes) (s : Tty) : Prop where
  pushed_le : s.session.pushed ≤ s.session.taken
  taken_le : s.session.taken ≤ stream.length
  window : WindowHolds s.session.window terminalWindowBytes (stream.take s.session.pushed)
  offset_le : s.offset ≤ s.session.pushed
  pulls : ∀ c p, s.pullOf c = some p → PullHolds stream s.session.pushed p

/-- An answer that is not lossy is as long as it reaches. -/
theorem Answers.length_eq {o next : ℕ} {bytes : Bytes} (h : Answers stream o bytes next false)
    (hnext : next ≤ stream.length) : bytes.length = next - o := by
  rw [h.exact rfl, List.length_drop, List.length_take, Nat.min_eq_left hnext]

/-- What the daemon answered. -/
theorem answers_of (h : Sound stream s) {c : Caller} {o : ℕ} {read : TtyWireRead}
    (hpull : s.pullOf c = some (.reading ⟨o, .answered read⟩)) :
    Answers stream o (Base64.decode read.data) read.nextOffset read.lossy :=
  (h.pulls c _ hpull).2.2

/-- What the daemon answered when nothing was lost. -/
theorem exact_of (h : Sound stream s) {c : Caller} {o : ℕ} {read : TtyWireRead}
    (hpull : s.pullOf c = some (.reading ⟨o, .answered read⟩)) (hlossy : read.lossy = false) :
    Answers stream o (Base64.decode read.data) read.nextOffset false := by
  have hanswers := answers_of h hpull
  rwa [hlossy] at hanswers

/-- An answer ends in the stream. -/
theorem answer_le (h : Sound stream s) {c : Caller} {o : ℕ} {read : TtyWireRead}
    (hpull : s.pullOf c = some (.reading ⟨o, .answered read⟩)) :
    read.nextOffset ≤ stream.length :=
  Nat.le_trans (h.pulls c _ hpull).2.1 (Nat.le_trans h.pushed_le h.taken_le)

/-- More was pushed. -/
theorem PullHolds.mono {n n' : ℕ} {p : Pull} (h : PullHolds stream n p) (hle : n ≤ n') :
    PullHolds stream n' p := by
  cases p with
  | reading r =>
    obtain ⟨o, stage⟩ := r
    refine ⟨Nat.le_trans h.1 hle, ?_⟩
    cases stage with
    | looked bytes next lossy => exact ⟨Nat.le_trans h.2.1 hle, h.2.2⟩
    | answered read => exact ⟨Nat.le_trans h.2.1 hle, h.2.2⟩
    | asked => trivial
    | refused => trivial
  | marking read held => exact Nat.le_trans h hle
  | publishing outcome held => trivial
  | returned result => trivial

/-- A look at the window. -/
theorem window_read {w : Window} {n o : ℕ} (hn : n ≤ stream.length)
    (hw : WindowHolds w terminalWindowBytes (stream.take n)) (ho : o ≤ n) :
    (w.read o).2.1 = n ∧ Answers stream o (w.read o).1 (w.read o).2.1 (w.read o).2.2 := by
  have hlen : (stream.take n).length = n := by
    rw [List.length_take]
    omega
  obtain ⟨hdata, hnext, hlossy⟩ := readOutput_eq hw (Nat.le_trans ho hlen.ge)
  have hbytes : Base64.decode (readOutput w o).data = (w.read o).1 := Base64.decode_encode _
  rw [hbytes, hlen] at hdata
  rw [hlen] at hnext hlossy
  have hnext' : (w.read o).2.1 = n := hnext
  have hlossy' : (w.read o).2.2 = decide (o < n - terminalWindowBytes) := hlossy
  refine ⟨hnext', ?_, fun hexact => ?_⟩
  · have htail := length_tailOf terminalWindowBytes (stream.take n)
    have hdrop : ((stream.take n).drop o).length = n - o := by rw [List.length_drop, hlen]
    rw [hdata, hnext']
    split <;> omega
  · have hin : ¬ o < n - terminalWindowBytes := by
      rw [hlossy'] at hexact
      exact of_decide_eq_false hexact
    rw [hdata, if_neg hin, hnext']

/-- Sound states in which a request is served. -/
theorem Sound.served (h : Sound stream s) {r r' : ReadRequest}
    (hr : RequestHolds stream s.session.pushed r) (hserved : Served s.session r r') :
    RequestHolds stream s.session.pushed r' := by
  have hle : s.session.pushed ≤ stream.length := Nat.le_trans h.pushed_le h.taken_le
  cases hserved with
  | look o =>
    obtain ⟨hnext, hanswers⟩ := window_read hle h.window hr.1
    exact ⟨hr.1, hnext.le, hanswers⟩
  | respond o bytes next lossy expired =>
    refine ⟨hr.1, ?_⟩
    unfold respond
    split
    · rename_i answer hanswer
      split at hanswer <;> cases hanswer
    · rename_i answer hanswer
      split at hanswer
      · cases hanswer
        refine ⟨hr.2.1, ?_⟩
        rw [Base64.decode_encode]
        exact hr.2.2
      · cases hanswer
    · trivial
  | refuse => exact ⟨hr.1, trivial⟩

/-- A change that leaves the session and the offset alone. -/
theorem Sound.of_same (h : Sound stream s) (hsession : t.session = s.session)
    (hoffset : t.offset = s.offset)
    (hpulls : ∀ c p, t.pullOf c = some p → PullHolds stream s.session.pushed p) :
    Sound stream t where
  pushed_le := hsession ▸ h.pushed_le
  taken_le := hsession ▸ h.taken_le
  window := hsession ▸ h.window
  offset_le := by rw [hoffset, hsession]; exact h.offset_le
  pulls := hsession ▸ hpulls

/-- A read can be asked from the offset. -/
theorem Sound.asked (h : Sound stream s) :
    PullHolds stream s.session.pushed (.reading ⟨s.offset, .asked⟩) := ⟨h.offset_le, trivial⟩

/-- One pull is at another stage. -/
theorem Sound.setPull (h : Sound stream s) {c : Caller} {p : Pull}
    (hp : PullHolds stream s.session.pushed p) : Sound stream (s.setPull c p) := by
  refine h.of_same (setPull_session ..) (setPull_offset ..) fun c' p' hp' => ?_
  rcases pullOf_setPull_cases hp' with ⟨-, rfl⟩ | ⟨-, hsame⟩
  · exact hp
  · exact h.pulls c' p' hsame

/-- A pull that has published. -/
theorem pullHolds_published {p : Pull} (hp : Published p) (n : ℕ) : PullHolds stream n p := by
  cases p with
  | publishing outcome held => trivial
  | returned result => trivial
  | reading r => exact hp.elim
  | marking read held => exact hp.elim

/-- The bytes of a read are published. -/
theorem Sound.of_published (h : Sound stream s) {read : TtyWireRead} {c : Caller} {p : Pull}
    (hnext : read.nextOffset ≤ s.session.pushed) (hp : Published p) :
    Sound stream ((advanced s read).setPull c p) := by
  have hmoved : Sound stream (advanced s read) :=
    ⟨h.pushed_le, h.taken_le, h.window, hnext, h.pulls⟩
  exact hmoved.setPull (pullHolds_published hp _)

/-- The threads of the session keep it sound. -/
theorem Sound.moves (h : Sound stream s) {x : Session} (hmoves : Moves stream s.session x) :
    Sound stream { s with session := x } := by
  cases hmoves with
  | masterRead hle =>
    exact ⟨Nat.le_trans h.pushed_le (Nat.le_add_right _ _), hle, h.window, h.offset_le, h.pulls⟩
  | push hlt =>
    have hle : s.session.pushed ≤ s.session.taken := h.pushed_le
    have hall : stream.take s.session.pushed ++
        (stream.take s.session.taken).drop s.session.pushed = stream.take s.session.taken := by
      have hsplit := List.take_append_drop s.session.pushed (stream.take s.session.taken)
      rwa [List.take_take, Nat.min_eq_left hle] at hsplit
    refine ⟨Nat.le_refl _, h.taken_le, ?_, Nat.le_trans h.offset_le hle, fun c p hp => ?_⟩
    · have hpush := windowHolds_push h.window ((stream.take s.session.taken).drop s.session.pushed)
      rwa [hall] at hpush
    · exact (h.pulls c p hp).mono hle
  | reap facts => exact ⟨h.pushed_le, h.taken_le, h.window, h.offset_le, h.pulls⟩

/-- The pulls once the output has drained are those before, at the same stages. -/
theorem pullOf_drained {c : Caller} {p : Pull}
    (h : ({ s with
      follow := s.follow.map Pull.drained
      stopping := s.stopping.map Teardown.drained } : Tty).pullOf c = some p) :
    ∃ p', s.pullOf c = some p' ∧ p = p'.drained := by
  cases c with
  | follow =>
    obtain ⟨p', hp', rfl⟩ := Option.map_eq_some_iff.mp h
    exact ⟨p', hp', rfl⟩
  | teardown =>
    obtain ⟨stopping, hstopping, hpulling⟩ := Option.map_eq_some_iff.mp (pullOf_teardown h)
    cases stopping with
    | pulling last =>
      simp only [Teardown.drained, Teardown.pulling.injEq] at hpulling
      refine ⟨last, ?_, hpulling.symm⟩
      rw [Tty.pullOf, hstopping]
    | terminating => cases hpulling
    | asking => cases hpulling
    | settled refused => cases hpulling

/-- Draining changes nothing that is known of a pull. -/
theorem PullHolds.drained {n : ℕ} {p : Pull} (h : PullHolds stream n p) :
    PullHolds stream n p.drained := by
  cases p <;> exact h

theorem followOn_session (s : Tty) (result : Option (Option TtyOutcome)) :
    (followOn s result).session = s.session := by
  unfold followOn
  split
  · exact finish_session ..
  · split_ifs
    · rfl
    · split
      · rfl
      · exact finish_session ..

theorem followOn_offset (s : Tty) (result : Option (Option TtyOutcome)) :
    (followOn s result).offset = s.offset := by
  unfold followOn
  split
  · exact finish_offset ..
  · split_ifs
    · rfl
    · split
      · rfl
      · exact finish_offset ..

theorem followOn_stopping (s : Tty) (result : Option (Option TtyOutcome)) :
    (followOn s result).stopping = s.stopping := by
  unfold followOn
  split
  · exact finish_stopping ..
  · split_ifs
    · rfl
    · split
      · rfl
      · exact finish_stopping ..

/-- The loop is over, or asks again from the offset. -/
theorem followOn_follow (s : Tty) (result : Option (Option TtyOutcome)) :
    (followOn s result).follow = none ∨
      (followOn s result).follow = some (.reading ⟨s.offset, .asked⟩) ∧ result = some none ∧
        s.finished = false ∧ s.releasing = false := by
  unfold followOn
  split
  · exact .inl rfl
  · split_ifs with hover
    · exact .inl rfl
    · split
      · rw [not_or, Bool.not_eq_true, Bool.not_eq_true] at hover
        exact .inr ⟨rfl, rfl, hover⟩
      · exact .inl rfl

theorem teardownOn_session (s : Tty) (result : Option (Option TtyOutcome)) :
    (teardownOn s result).session = s.session := by
  unfold teardownOn
  split
  · rfl
  · exact finish_session ..

theorem teardownOn_offset (s : Tty) (result : Option (Option TtyOutcome)) :
    (teardownOn s result).offset = s.offset := by
  unfold teardownOn
  split
  · rfl
  · exact finish_offset ..

theorem teardownOn_follow (s : Tty) (result : Option (Option TtyOutcome)) :
    (teardownOn s result).follow = s.follow := by
  unfold teardownOn
  split
  · rfl
  · exact finish_follow ..

/-- Nothing is pulled by the teardown after its last pull. -/
theorem teardownOn_pullOf {result : Option (Option TtyOutcome)} {c : Caller} {p : Pull}
    (h : (teardownOn s result).pullOf c = some p) : s.pullOf c = some p := by
  cases c with
  | follow => exact (teardownOn_follow s result).symm.trans h
  | teardown =>
    have hstopping := pullOf_teardown h
    unfold teardownOn at hstopping
    split at hstopping <;> cases hstopping

theorem terminate_session (s : Tty) : (terminate s).session = s.session := by
  unfold terminate
  split_ifs <;> rfl

theorem terminate_offset (s : Tty) : (terminate s).offset = s.offset := by
  unfold terminate
  split_ifs <;> rfl

theorem terminate_follow (s : Tty) : (terminate s).follow = s.follow := by
  unfold terminate
  split_ifs <;> rfl

/-- A call of `terminate` pulls nothing yet. -/
theorem terminate_pullOf {c : Caller} {p : Pull} (h : (terminate s).pullOf c = some p) :
    s.pullOf c = some p := by
  cases c with
  | follow => exact (terminate_follow s).symm.trans h
  | teardown =>
    have hstopping := pullOf_teardown h
    unfold terminate at hstopping
    split_ifs at hstopping
    · rw [Tty.pullOf, hstopping]
    · cases hstopping
    · cases hstopping

/-- The loop pulls again from the offset, if it does. -/
theorem followOn_pullOf {result : Option (Option TtyOutcome)} {c : Caller} {p : Pull}
    (hp : (followOn s result).pullOf c = some p) :
    s.pullOf c = some p ∨ p = .reading ⟨s.offset, .asked⟩ := by
  cases c with
  | follow =>
    have hfollow : (followOn s result).follow = some p := hp
    rcases followOn_follow s result with hnone | ⟨hasked, -⟩
    · rw [hnone] at hfollow
      cases hfollow
    · rw [hasked] at hfollow
      cases hfollow
      exact .inr rfl
  | teardown =>
    have hstopping := pullOf_teardown hp
    rw [followOn_stopping] at hstopping
    left
    rw [Tty.pullOf, hstopping]

/-- What is pulled after the answer to the request of the teardown. -/
theorem terminated_pullOf {c : Caller} {p : Pull}
    (hp : ({ s with
      stopping := some (.pulling (.reading ⟨s.offset, .asked⟩)) } : Tty).pullOf c = some p) :
    s.pullOf c = some p ∨ p = .reading ⟨s.offset, .asked⟩ := by
  cases c with
  | follow => exact .inl hp
  | teardown =>
    cases hp
    exact .inr rfl

/-- Nothing is pulled by a teardown that has settled. -/
theorem settled_pullOf {refused : Bool} {c : Caller} {p : Pull}
    (hp : ({ s with stopping := some (.settled refused) } : Tty).pullOf c = some p) :
    s.pullOf c = some p := by
  cases c with
  | follow => exact hp
  | teardown => cases hp

/-- Finishing pulls nothing. -/
@[simp] theorem finish_pullOf (s : Tty) (outcome : TtyOutcome) (c : Caller) :
    (finish s outcome).pullOf c = s.pullOf c := by
  unfold finish
  split
  · rfl
  · cases c <;> rfl

/-- A pull that was there, or one that is asked from the offset. -/
theorem Sound.pull (h : Sound stream s) {c : Caller} {p : Pull}
    (hp : s.pullOf c = some p ∨ p = .reading ⟨s.offset, .asked⟩) :
    PullHolds stream s.session.pushed p := by
  rcases hp with hsame | rfl
  · exact h.pulls c p hsame
  · exact h.asked

/-- The books of a loop that is over say so when it settled the handle with exit facts. -/
theorem followOn_books (s : Tty) (result : Option (Option TtyOutcome)) :
    ∃ exited, (followOn s result).books = { s.books with exited } ∧
      (exited = true → s.books.exited = true ∨
        ∃ facts, result = some (some facts) ∧ s.finished = false ∧ s.releasing = false) := by
  unfold followOn
  split
  · exact ⟨s.books.exited, finish_books .., .inl⟩
  · split_ifs with hover
    · exact ⟨s.books.exited, rfl, .inl⟩
    · rw [not_or, Bool.not_eq_true, Bool.not_eq_true] at hover
      split
      · exact ⟨s.books.exited, rfl, .inl⟩
      · rename_i facts
        exact ⟨true, rfl, fun _ => .inr ⟨facts, rfl, hover⟩⟩

/-- A loop that leaves the handle open asks again. -/
theorem followOn_open {result : Option (Option TtyOutcome)}
    (hfinished : (followOn s result).finished = false)
    (hreleasing : (followOn s result).releasing = false) :
    s.finished = false ∧ s.releasing = false ∧
      followOn s result = { s with follow := some (.reading ⟨s.offset, .asked⟩) } := by
  unfold followOn at hfinished hreleasing ⊢
  split at hfinished
  · rw [finish_finished] at hfinished
    cases hfinished
  · split_ifs at hfinished hreleasing ⊢ with hover
    · rcases hover with hf | hr
      · exact absurd (hf.symm.trans hfinished) (by decide)
      · exact absurd (hr.symm.trans hreleasing) (by decide)
    · rw [not_or, Bool.not_eq_true, Bool.not_eq_true] at hover
      split at hfinished
      · exact ⟨hover.1, hover.2, rfl⟩
      · rw [finish_finished] at hfinished
        cases hfinished

theorem teardownOn_books (s : Tty) (result : Option (Option TtyOutcome)) :
    (teardownOn s result).books = s.books := by
  unfold teardownOn
  split
  · rfl
  · exact finish_books ..

theorem followOn_releasing (s : Tty) (result : Option (Option TtyOutcome)) :
    (followOn s result).releasing = s.releasing := by
  unfold followOn
  split
  · exact finish_releasing ..
  · split_ifs
    · rfl
    · split
      · rfl
      · exact finish_releasing ..

/-- A loop that leaves the handle open found it open. -/
theorem followOn_finished {result : Option (Option TtyOutcome)}
    (h : (followOn s result).finished = false) : s.finished = false := by
  unfold followOn at h
  split at h
  · rw [finish_finished] at h
    cases h
  · split_ifs at h with hover
    · exact h
    · rw [not_or, Bool.not_eq_true] at hover
      exact hover.1

theorem terminate_finished (s : Tty) : (terminate s).finished = s.finished := by
  unfold terminate
  split_ifs <;> rfl

theorem teardownOn_releasing (s : Tty) (result : Option (Option TtyOutcome)) :
    (teardownOn s result).releasing = s.releasing := by
  unfold teardownOn
  split
  · rfl
  · exact finish_releasing ..

/-- A teardown that leaves the handle open found it open. -/
theorem teardownOn_open {result : Option (Option TtyOutcome)}
    (h : (teardownOn s result).finished = false) : s.finished = false := by
  unfold teardownOn at h
  split at h
  · exact h
  · rw [finish_finished] at h
    cases h

/-- An open handle that is not being released after `terminate` was released before. -/
theorem terminate_open (hopen : (terminate s).finished = false)
    (hkept : (terminate s).releasing = false) :
    s.finished = false ∧ s.stopping ≠ none ∧ (terminate s).releasing = s.releasing := by
  unfold terminate at hopen hkept ⊢
  split_ifs at hopen hkept ⊢ with hstopping hf
  · exact ⟨hopen, hstopping, rfl⟩
  exact absurd (hf.symm.trans hopen) (by decide)

theorem terminate_books (s : Tty) : (terminate s).books = s.books := by
  unfold terminate
  split_ifs <;> rfl

/-- A terminal that was just spawned. -/
theorem sound_spawned (stream : Bytes) : Sound stream Tty.spawned := by
  refine ⟨Nat.le_refl _, Nat.zero_le _, windowHolds_new _, Nat.le_refl _, fun c p hp => ?_⟩
  cases c with
  | follow =>
    cases hp
    exact ⟨Nat.zero_le _, trivial⟩
  | teardown => cases hp

/-- Every step keeps a terminal sound. -/
theorem sound_step {e : Event} (h : Sound stream s) (hstep : step stream s e = some t) :
    Sound stream t := by
  cases step_effect hstep with
  | session hmoves => exact h.moves hmoves
  | served hpull hserved => exact h.setPull (h.served (h.pulls _ _ hpull) hserved)
  | answered hpull hlossy hpublished hparked =>
    exact h.of_published (h.pulls _ _ hpull).2.1 hpublished
  | @lossy caller room o read hpull hlossy =>
    have hreported : Sound stream (reported s read) :=
      ⟨h.pushed_le, h.taken_le, h.window, h.offset_le, h.pulls⟩
    exact hreported.setPull (h.pulls _ _ hpull).2.1
  | marked hpull hpublished hparked => exact h.of_published (h.pulls _ _ hpull) hpublished
  | failed hpull => exact h.setPull trivial
  | published hpull => exact h.setPull trivial
  | followOn hpull =>
    exact h.of_same (followOn_session ..) (followOn_offset ..) fun c p hp =>
      h.pull (followOn_pullOf hp)
  | teardownOn hpull =>
    exact h.of_same (teardownOn_session ..) (teardownOn_offset ..) fun c p hp =>
      h.pulls c p (teardownOn_pullOf hp)
  | drain hopen =>
    refine h.of_same rfl rfl fun c p hp => ?_
    obtain ⟨p', hp', rfl⟩ := pullOf_drained hp
    exact (h.pulls c p' hp').drained
  | terminate =>
    refine h.of_same (terminate_session s) (terminate_offset s) fun c p hp => ?_
    exact h.pulls c p (terminate_pullOf hp)
  | refused hstopping =>
    exact h.of_same rfl rfl fun c p hp => h.pulls c p (settled_pullOf hp)
  | terminated hstopping =>
    exact h.of_same rfl rfl fun c p hp => h.pull (terminated_pullOf hp)
  | told facts hstopping =>
    refine h.of_same (finish_session ..) (finish_offset ..) fun c p hp => ?_
    have hsame := settled_pullOf hp
    rw [finish_pullOf] at hsame
    exact h.pulls c p hsame

end RemoteWorkspace.Analysis.TtySteps
