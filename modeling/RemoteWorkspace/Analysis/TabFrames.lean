import RemoteWorkspace.Analysis.TabLifecycle

/-!
# What a tab says over each of its sockets

A socket says first what it wants: to open a shell in the tab's Session, or to attach to one. It
says so once, but for an attach that was refused, after which it asks for a fresh shell, once. The
invariant ties what was said to `pending`, by which the page tells what an error answers.
-/

set_option autoImplicit false

namespace RemoteWorkspace.Analysis.TabSockets

open RemoteWorkspace.Computation RemoteWorkspace.Model.TabSockets
open RemoteWorkspace.Model.TerminalBridge (Size)

/-- A frame that asks for a shell. -/
def asks : ClientFrame → Bool
  | .open _ _ | .attach _ _ _ => true
  | _ => false

/-- What a socket may ask for in a Session, in order. -/
inductive Asked (sessionId : String) : List ClientFrame → Prop where
  | nothing : Asked sessionId []
  | opened (size : Size) : Asked sessionId [.open sessionId size]
  | attached (id : String) (size : Size) : Asked sessionId [.attach sessionId id size]
  | reopened (id : String) (size size' : Size) :
      Asked sessionId [.attach sessionId id size, .open sessionId size']

/-- A socket that asked for what it may, before anything else. -/
structure Introduced (sessionId : String) (v : TabSocket) : Prop where
  asked : Asked sessionId (v.sent.filter asks)
  first : ∀ frame, v.sent.head? = some frame → asks frame = true

/-- What the current socket asked for, next to what the page thinks it did. -/
structure Talks (x : Entry) (v : TabSocket) : Prop where
  silent : v.readyState = .connecting → v.sent = []
  attaching : v.readyState = .open → x.pending = .attach →
    ∃ id size, v.sent.filter asks = [.attach x.sessionId id size]
  speaking : v.readyState = .open → v.sent ≠ []

/-- All sockets of an entry are introduced, and the current one as the page thinks. -/
def Spoken (x : Entry) : Prop :=
  (∀ v ∈ x.sockets, Introduced x.sessionId v) ∧ ∀ v, x.sockets.head? = some v → Talks x v

/-- What is sent over an open socket. -/
theorem sockets_send {x : Entry} {w : TabSocket} {old : List TabSocket}
    (hsockets : x.sockets = w :: old) (hopen : w.readyState = .open) (frame : ClientFrame) :
    (x.send frame).sockets = { w with sent := w.sent ++ [frame] } :: old := by
  simp only [Entry.send, hsockets, List.modifyHead_cons, if_pos hopen]

/-- A frame that asks for nothing may follow any that do. -/
theorem Introduced.say {sessionId : String} {v : TabSocket} (h : Introduced sessionId v)
    {frame : ClientFrame} (hask : asks frame = false) (hne : v.sent ≠ []) :
    Introduced sessionId { v with sent := v.sent ++ [frame] } := by
  refine ⟨?_, fun f hf => ?_⟩
  · rw [List.filter_append, List.filter_cons_of_neg (by simp [hask]), List.filter_nil,
      List.append_nil]
    exact h.asked
  · rw [List.head?_append_of_ne_nil _ hne] at hf
    exact h.first f hf

/-- A frame that asks for nothing is said, if the socket is open. -/
theorem Spoken.say {x : Entry} (h : Spoken x) {frame : ClientFrame} (hask : asks frame = false) :
    Spoken (x.send frame) := by
  obtain ⟨hall, hcurrent⟩ := h
  cases hsockets : x.sockets with
  | nil =>
    have hsend : (x.send frame).sockets = [] := by rw [Entry.send, hsockets]; rfl
    refine ⟨fun v hv => ?_, fun v hv => ?_⟩
    · rw [hsend] at hv
      cases hv
    · rw [hsend] at hv
      cases hv
  | cons w old =>
    rw [hsockets] at hall hcurrent
    have htalks := hcurrent w rfl
    by_cases hopen : w.readyState = .open
    · have hsend := sockets_send hsockets hopen frame
      refine ⟨fun v hv => ?_, fun v hv => ?_⟩
      · rw [hsend] at hv
        obtain rfl | hv := List.mem_cons.mp hv
        · exact (hall w List.mem_cons_self).say hask (htalks.speaking hopen)
        · exact hall v (List.mem_cons_of_mem _ hv)
      · rw [hsend, List.head?_cons] at hv
        obtain rfl := Option.some.inj hv
        refine ⟨fun hconnecting => ?_, fun _ hpending => ?_, fun _ => by simp⟩
        · rw [hopen] at hconnecting
          cases hconnecting
        · obtain ⟨id, size, hsent⟩ := htalks.attaching hopen hpending
          refine ⟨id, size, ?_⟩
          rw [List.filter_append, hsent, List.filter_cons_of_neg (by simp [hask]), List.filter_nil,
            List.append_nil]
          rfl
    · have hsend : (x.send frame).sockets = w :: old := by
        simp only [Entry.send, hsockets, List.modifyHead_cons, if_neg hopen]
      refine ⟨fun v hv => ?_, fun v hv => ?_⟩
      · rw [hsend] at hv
        exact hall v hv
      · rw [hsend] at hv
        obtain ⟨hsilent, hattaching, hspeaking⟩ := hcurrent v hv
        exact ⟨hsilent, hattaching, hspeaking⟩

/-- Sockets, Session and `pending` are all that it is about. -/
theorem Spoken.congr {x y : Entry} (h : Spoken x) (hsockets : y.sockets = x.sockets)
    (hsession : y.sessionId = x.sessionId) (hpending : y.pending = x.pending) : Spoken y := by
  obtain ⟨hall, hcurrent⟩ := h
  refine ⟨fun v hv => ?_, fun v hv => ?_⟩
  · rw [hsession]
    exact hall v (hsockets ▸ hv)
  · rw [hsockets] at hv
    obtain ⟨hsilent, hattaching, hspeaking⟩ := hcurrent v hv
    refine ⟨hsilent, ?_, hspeaking⟩
    rw [hpending, hsession]
    exact hattaching

/-- The sockets of an entry, the current one with what it was found to be. -/
theorem Spoken.of_current {x : Entry} {w : TabSocket} {old : List TabSocket}
    (hsockets : x.sockets = w :: old) (hcurrent : Introduced x.sessionId w) (htalks : Talks x w)
    (hold : ∀ o ∈ old, Introduced x.sessionId o) : Spoken x := by
  refine ⟨fun v hv => ?_, fun v hv => ?_⟩
  · rw [hsockets] at hv
    exact List.forall_mem_cons.mpr ⟨hcurrent, hold⟩ v hv
  · rw [hsockets, List.head?_cons] at hv
    obtain rfl := Option.some.inj hv
    exact htalks

/-- A socket that is neither connecting nor open has nothing to say. -/
theorem talks_of_done {x : Entry} {v : TabSocket}
    (h : v.readyState = .closing ∨ v.readyState = .closed) : Talks x v := by
  refine ⟨fun hready => ?_, fun hready => ?_, fun hready => ?_⟩
  all_goals
    rw [hready] at h
    obtain ⟨⟨⟩⟩ | ⟨⟨⟩⟩ := h

/-- What an event found a socket to be, it found of the current one. -/
theorem Spoken.current {listed : Bool} {x : Entry} (h : Spoken x) (hsound : EntrySound listed x)
    {k : ℕ} {v : TabSocket} (hv : x.sockets[k]? = some v) (hready : v.readyState ≠ .closed) :
    ∃ old, k = 0 ∧ x.sockets = v :: old ∧ Introduced x.sessionId v ∧ Talks x v ∧
      ∀ o ∈ old, Introduced x.sessionId o := by
  obtain ⟨w, old, hsockets, hold, -⟩ := hsound
  obtain ⟨hall, hcurrent⟩ := h
  rw [hsockets] at hv hall hcurrent
  obtain ⟨rfl, rfl⟩ := current_of_getElem hold hv hready
  exact ⟨old, rfl, hsockets, hall v List.mem_cons_self, hcurrent v rfl,
    fun o ho => hall o (List.mem_cons_of_mem _ ho)⟩

/-- A socket that opens asks for what its tab wants. -/
theorem Spoken.onOpen {listed : Bool} {x : Entry} (h : Spoken x) (hsound : EntrySound listed x)
    {k : ℕ} {v : TabSocket} (hv : x.sockets[k]? = some v) (hready : v.readyState = .connecting) :
    Spoken (x.mark k .open).onOpen := by
  obtain ⟨old, rfl, hsockets, -, htalks, hold⟩ :=
    h.current hsound hv (by rw [hready]; rintro ⟨⟩)
  have hsilent : v.sent = [] := htalks.silent hready
  have hmark : (x.mark 0 .open).sockets = { v with readyState := .open } :: old := by
    rw [Entry.mark, hsockets]
    rfl
  have hask : ∀ (y : Entry) (frame : ClientFrame), y.sockets = (x.mark 0 .open).sockets →
      y.sessionId = x.sessionId → asks frame = true → Asked x.sessionId [frame] →
      (y.pending = .attach → ∃ id size, frame = .attach x.sessionId id size) →
      Spoken (y.send frame) := by
    intro y frame hy hsession hasks hasked hpending
    have hsend := sockets_send (hy.trans hmark) rfl frame
    rw [hsilent, List.nil_append] at hsend
    have hfilter : [frame].filter asks = [frame] := by
      rw [List.filter_cons_of_pos hasks, List.filter_nil]
    have hname : (y.send frame).sessionId = x.sessionId := hsession
    refine .of_current hsend ⟨?_, ?_⟩ ⟨?_, ?_, ?_⟩ (hname ▸ hold)
    · rw [hfilter, hname]
      exact hasked
    · rintro f hf
      obtain rfl := Option.some.inj hf
      exact hasks
    · rintro ⟨⟩
    · intro _ hattach
      obtain ⟨id, size, rfl⟩ := hpending hattach
      exact ⟨id, size, by rw [hfilter, hname]⟩
    · rintro - ⟨⟩
  unfold Entry.onOpen
  split
  · exact hask _ _ rfl rfl rfl (.opened _) (by rintro ⟨⟩)
  · exact hask _ _ rfl rfl rfl (.attached _ _) fun _ => ⟨_, _, rfl⟩

/-- A text frame makes a tab ask again only when its attach was refused. -/
theorem Spoken.onFrame {listed : Bool} {x : Entry} (h : Spoken x) (hsound : EntrySound listed x)
    {k : ℕ} {v : TabSocket} (hv : x.sockets[k]? = some v) (hopen : v.readyState = .open)
    (frame : HostFrame) : Spoken (x.onFrame frame) := by
  cases frame with
  | ready | exit => exact h.congr rfl rfl rfl
  | other => exact h
  | size live =>
    unfold Entry.onFrame
    simp only
    split <;> exact h.congr rfl rfl rfl
  | error message =>
    obtain ⟨old, rfl, hsockets, hintroduced, htalks, hold⟩ :=
      h.current hsound hv (by rw [hopen]; rintro ⟨⟩)
    unfold Entry.onFrame
    simp only
    split
    · rename_i hpending
      obtain ⟨id, size, hasked⟩ := htalks.attaching hopen hpending
      have hne : v.sent ≠ [] := htalks.speaking hopen
      have hsend := sockets_send (x := { x with
        id := none, label := none, pending := .open, replaying := false }) hsockets hopen
        (.open x.sessionId x.size)
      refine .of_current hsend ⟨?_, fun f hf => ?_⟩ ⟨fun hready => ?_, ?_, fun _ => ?_⟩ hold
      · rw [List.filter_append, hasked]
        exact .reopened id size x.size
      · rw [List.head?_append_of_ne_nil _ hne] at hf
        exact hintroduced.first f hf
      · rw [hopen] at hready
        cases hready
      · rintro - ⟨⟩
      · simp
    · exact h.congr rfl rfl rfl

/-- A socket that closes has said what it said. -/
theorem Spoken.onClose {listed : Bool} {x : Entry} (h : Spoken x) (hsound : EntrySound listed x)
    {k : ℕ} {v : TabSocket} (hv : x.sockets[k]? = some v) (hready : v.readyState ≠ .closed) :
    Spoken ((x.mark k .closed).onClose listed) := by
  obtain ⟨old, rfl, hsockets, hintroduced, -, hold⟩ := h.current hsound hv hready
  have hclose : ((x.mark 0 .closed).onClose listed).sockets =
      { v with readyState := .closed } :: old := by
    have hmark : (x.mark 0 .closed).sockets = { v with readyState := .closed } :: old := by
      rw [Entry.mark, hsockets]
      rfl
    unfold Entry.onClose Entry.scheduleReconnect
    split_ifs <;> exact hmark
  have hname : ((x.mark 0 .closed).onClose listed).sessionId = x.sessionId :=
    congrArg (fun p => p.2.1) (name_onClose (x.mark 0 .closed) listed)
  refine .of_current hclose ?_ (talks_of_done (.inr rfl)) (hname ▸ hold)
  rw [hname]
  exact ⟨hintroduced.asked, hintroduced.first⟩

/-- A new socket has said nothing. -/
theorem Spoken.replaceSocket {x y : Entry} (h : Spoken x) (hsockets : y.sockets = x.sockets)
    (hsession : y.sessionId = x.sessionId) : Spoken y.replaceSocket := by
  have hreplaced : y.replaceSocket.sockets = .new :: x.sockets := by
    rw [Entry.replaceSocket, hsockets]
  have hname : y.replaceSocket.sessionId = x.sessionId := hsession
  refine .of_current hreplaced ⟨.nothing, ?_⟩ ⟨fun _ => rfl, ?_, ?_⟩ (hname ▸ h.1)
  · rintro frame ⟨⟩
  · rintro ⟨⟩
  · rintro ⟨⟩

/-- A socket that the page closes says nothing more. -/
theorem Spoken.discard {listed : Bool} {x : Entry} (h : Spoken x) (hsound : EntrySound listed x) :
    Spoken x.discard := by
  obtain ⟨w, old, hsockets, -, -⟩ := hsound
  have hall := h.1
  rw [hsockets] at hall
  obtain ⟨hintroduced, hold⟩ := List.forall_mem_cons.mp hall
  have hdiscard : x.discard.sockets =
      (if w.readyState = .closed then w else { w with readyState := .closing }) :: old := by
    rw [Entry.discard, hsockets]
    rfl
  refine .of_current hdiscard ?_ (talks_of_done ?_) hold
  · split_ifs
    · exact hintroduced
    · exact ⟨hintroduced.asked, hintroduced.first⟩
  · split_ifs with hclosed
    · exact .inr hclosed
    · exact .inl rfl

/-- Every move keeps what was said in order. -/
theorem Spoken.move {l l' : Bool} {x y : Entry} (hmove : Moves l l' x y) (hsound : EntrySound l x)
    (h : Spoken x) : Spoken y := by
  cases hmove with
  | stay => exact h
  | opened hw hready => exact h.onOpen hsound hw hready
  | binary =>
    unfold Entry.onBinary
    split_ifs
    · exact h.congr rfl rfl rfl
    · exact h
  | frame hw hready frame => exact h.onFrame hsound hw hready frame
  | closed hw hready => exact h.onClose hsound hw hready
  | timer htimer =>
    unfold Entry.onTimer
    split_ifs
    · exact h.replaceSocket rfl rfl
    · exact h.congr rfl rfl rfl
  | parsed => exact h.congr rfl rfl rfl
  | resize size =>
    refine Spoken.say ?_ rfl
    exact h.congr rfl rfl rfl
  | input data => exact h.say rfl
  | restart hstate hid => exact h.replaceSocket rfl rfl
  | discard => exact h.discard hsound

/-- In every run of a page each socket that a tab ever had asks the host for a shell before it
says anything else, in the Session of the tab: once, or, when it asked to attach and was refused,
once more for a fresh one. -/
theorem sockets_ask_first (memory : String → Option String) {s : Page}
    (h : (machine memory).Reachable s) (e : ℕ) (x : Entry) (hx : s.entries[e]? = some x) :
    ∀ v ∈ x.sockets, Introduced x.sessionId v := by
  have hinvariant := invariant (I := fun listed x => EntrySound listed x ∧ Spoken x)
    (fun sessionId tabId target size => ⟨entrySound_create sessionId tabId target size, ?_⟩)
    (fun hmove hx => ⟨hx.1.move hmove, hx.2.move hmove hx.1⟩) h
  · exact (hinvariant.2.2 e x hx).2.1
  · refine .of_current rfl ⟨.nothing, ?_⟩ ⟨fun _ => rfl, ?_, ?_⟩ fun o ho =>
      absurd ho List.not_mem_nil
    · rintro frame ⟨⟩
    · rintro ⟨⟩
    · rintro ⟨⟩

/-- A tab whose attach is refused asks for a fresh shell over the same socket. -/
theorem refused_attach_asks_again :
    ∃ s x, (machine fun _ => none).run
      [.choose "s1" "t1" (.existing "r9"), .mount "s1" "t1" ⟨80, 24⟩, .opened 0 0,
        .frame 0 0 (.error "no such terminal"), .input 0 "ls"] = some s ∧
      s.entries[0]? = some x ∧
      x.sockets = [⟨.open, [.attach "s1" "r9" ⟨80, 24⟩, .open "s1" ⟨80, 24⟩, .input "ls"]⟩] ∧
      ∀ v ∈ x.sockets, Introduced x.sessionId v := by
  have hrun : ((machine fun _ => none).run
      [.choose "s1" "t1" (.existing "r9"), .mount "s1" "t1" ⟨80, 24⟩, .opened 0 0,
        .frame 0 0 (.error "no such terminal"), .input 0 "ls"]).isSome = true := by decide
  exact ⟨_, _, (Option.some_get hrun).symm, rfl, rfl,
    sockets_ask_first _ (Machine.reachable_get _ hrun) 0 _ rfl⟩

end RemoteWorkspace.Analysis.TabSockets
