import RemoteWorkspace.Model.TabSockets

/-!
# One socket for a tab, and one reconnect for a socket that dropped

The map from tabs to entries names each entry by its own key, and every event moves each entry in
one of a few ways (`Moves`): a callback of one of its sockets, its timer, its terminal, a restart
that keeps it, or the end of its time in the map. An entry that is new is listed. So a property of
entries that the moves keep, and that new entries have, holds in every run (`invariant`).

A tab keeps at most one socket that is open or about to be; the ones before it are closed. While
the tab is there, a socket that dropped has exactly one reconnect coming, after a delay that
doubles up to a limit, unless its shell ended or was refused; and an entry that its tab let go
has none, and never gets another socket.
-/

set_option autoImplicit false

namespace RemoteWorkspace.Analysis.TabSockets

open RemoteWorkspace.Computation RemoteWorkspace.Model.TabSockets
open RemoteWorkspace.Model.TerminalBridge (Size)

/-- What an event does to an entry, which its tab has or has not before and after. -/
inductive Moves : Bool → Bool → Entry → Entry → Prop where
  | stay (listed : Bool) (x : Entry) : Moves listed listed x x
  | opened {listed : Bool} {x : Entry} {k : ℕ} {w : TabSocket} (hw : x.sockets[k]? = some w)
      (hready : w.readyState = .connecting) : Moves listed listed x (x.mark k .open).onOpen
  | binary {listed : Bool} {x : Entry} {k : ℕ} {w : TabSocket} (hw : x.sockets[k]? = some w)
      (hready : w.readyState = .open) : Moves listed listed x x.onBinary
  | frame {listed : Bool} {x : Entry} {k : ℕ} {w : TabSocket} (hw : x.sockets[k]? = some w)
      (hready : w.readyState = .open) (frame : HostFrame) : Moves listed listed x (x.onFrame frame)
  | closed {listed : Bool} {x : Entry} {k : ℕ} {w : TabSocket} (hw : x.sockets[k]? = some w)
      (hready : w.readyState ≠ .closed) :
      Moves listed listed x ((x.mark k .closed).onClose listed)
  | timer {listed : Bool} {x : Entry} (htimer : x.reconnectTimer.isSome = true) :
      Moves listed listed x (x.onTimer listed)
  | parsed {listed : Bool} (x : Entry) : Moves listed listed x { x with disableStdin := false }
  | resize (x : Entry) (size : Size) :
      Moves true true x (Entry.send { x with size := size } (.resize size))
  | input {x : Entry} (data : String) (hstdin : x.disableStdin = false) :
      Moves true true x (x.send (.input data))
  | restart {x : Entry} (hstate : x.state = .closed) (hid : x.id.isSome = true) :
      Moves true true x
        (Entry.replaceSocket { x with reconnectTimer := none, reconnectAttempts := 0 })
  | discard (x : Entry) : Moves true false x x.discard

/-! ### The name of an entry -/

/-- What an entry is known by. -/
def name (x : Entry) : String × String × String := (x.key, x.sessionId, x.tabId)

theorem name_onOpen (x : Entry) : name x.onOpen = name x := by
  unfold Entry.onOpen
  split <;> rfl

theorem name_onFrame (x : Entry) (frame : HostFrame) : name (x.onFrame frame) = name x := by
  cases frame with
  | ready | exit | other => rfl
  | size | error =>
    unfold Entry.onFrame
    simp only
    split <;> rfl

theorem name_onClose (x : Entry) (listed : Bool) : name (x.onClose listed) = name x := by
  unfold Entry.onClose Entry.scheduleReconnect
  split_ifs <;> rfl

/-- No event changes what an entry is known by. -/
theorem Moves.name_eq {l l' : Bool} {x y : Entry} (h : Moves l l' x y) : name y = name x := by
  cases h with
  | stay | parsed | resize | input | restart | discard => rfl
  | opened => exact name_onOpen _
  | binary =>
    unfold Entry.onBinary
    split_ifs <;> rfl
  | frame => exact name_onFrame _ _
  | closed => exact name_onClose _ _
  | timer =>
    unfold Entry.onTimer
    split_ifs <;> rfl

/-- Nor its key. -/
theorem Moves.key_eq {l l' : Bool} {x y : Entry} (h : Moves l l' x y) : y.key = x.key :=
  congrArg Prod.fst h.name_eq

/-! ### The map -/

/-- The map names entries by their own keys. -/
def TableSound (s : Page) : Prop :=
  ∀ key e, s.table key = some e → ∃ x, s.entries[e]? = some x ∧ x.key = key

/-- What a step does to each entry. -/
def Stepped (s t : Page) : Prop :=
  ∀ e y, t.entries[e]? = some y →
    (∃ x, s.entries[e]? = some x ∧ Moves (s.listed e x) (t.listed e y) x y) ∨
    ∃ sessionId tabId target size, y = .create sessionId tabId target size ∧ t.listed e y = true

/-- An entry is listed at most under its key. -/
theorem listed_iff {s : Page} {e : ℕ} {x : Entry} :
    s.listed e x = true ↔ s.table x.key = some e := by
  rw [Page.listed, decide_eq_true_eq]

/-- A page with the same entries under the same names steps in no way. -/
theorem stepped_of_eq {s t : Page} (hentries : t.entries = s.entries) (htable : t.table = s.table) :
    Stepped s t := by
  intro e y hy
  rw [hentries] at hy
  refine .inl ⟨y, hy, ?_⟩
  rw [Page.listed, Page.listed, htable]
  exact .stay _ y

/-- One entry is moved where it is. -/
theorem stepped_update {s : Page} {e : ℕ} {x y : Entry} (hx : s.entries[e]? = some x)
    (hmoves : Moves (s.listed e x) (s.listed e x) x y) (htable : TableSound s) :
    TableSound (s.update e y) ∧ Stepped s (s.update e y) := by
  have hlt : e < s.entries.length := (List.getElem?_eq_some_iff.mp hx).1
  refine ⟨fun key e' he' => ?_, fun e' z hz => .inl ?_⟩
  · obtain ⟨x', hx', hkey⟩ := htable key e' he'
    by_cases hee : e = e'
    · subst hee
      obtain rfl := Option.some.inj (hx.symm.trans hx')
      exact ⟨y, List.getElem?_set_self hlt, hmoves.key_eq.trans hkey⟩
    · exact ⟨x', (List.getElem?_set_ne hee).trans hx', hkey⟩
  · by_cases hee : e = e'
    · subst hee
      obtain rfl := Option.some.inj ((List.getElem?_set_self hlt).symm.trans hz)
      refine ⟨x, hx, ?_⟩
      have hlisted : (s.update e y).listed e y = s.listed e x := by
        rw [Page.listed, Page.listed, hmoves.key_eq]
        rfl
      rwa [hlisted]
    · have hz' : s.entries[e']? = some z := (List.getElem?_set_ne hee).symm.trans hz
      exact ⟨z, hz', .stay _ z⟩

/-- After `dispose` a tab has no entry. -/
theorem table_dispose (s : Page) (key : String) :
    (s.dispose key).table = Function.update s.table key none := by
  unfold Page.dispose
  split
  · rename_i hkey
    exact (Function.update_eq_self_iff.mpr hkey.symm).symm
  · rfl

/-- A tab that has an entry lets it go. -/
theorem dispose_of_some {s : Page} {key : String} {e : ℕ} (h : s.table key = some e) :
    s.dispose key = { s with
      targets := Function.update s.targets key none
      table := Function.update s.table key none
      entries := s.entries.modify e Entry.discard } := by
  rw [Page.dispose, h]

/-- The entry that it had is discarded. -/
theorem entries_dispose {s : Page} {key : String} {e : ℕ} (h : s.table key = some e) :
    (s.dispose key).entries = s.entries.modify e Entry.discard := by
  rw [dispose_of_some h]

/-- When it had none, all entries stay. -/
theorem entries_dispose_of_none {s : Page} {key : String} (h : s.table key = none) :
    (s.dispose key).entries = s.entries := by
  rw [Page.dispose, h]

/-- A tab lets its entry go. -/
theorem stepped_dispose {s : Page} (key : String) (htable : TableSound s) :
    TableSound (s.dispose key) ∧ Stepped s (s.dispose key) := by
  have hlisted : ∀ e z, s.table key ≠ some e → (s.dispose key).listed e z = s.listed e z := by
    intro e z hne
    rw [Page.listed, Page.listed, table_dispose]
    by_cases hkk : z.key = key
    · rw [hkk, Function.update_self, decide_eq_decide]
      exact ⟨fun h => absurd h (by simp), fun h => absurd h hne⟩
    · rw [Function.update_of_ne hkk]
  have hgone : ∀ x, x.key = key → ∀ e, (s.dispose key).listed e x = false := by
    rintro x rfl e
    rw [Page.listed, table_dispose, Function.update_self]
    rfl
  cases hkey : s.table key with
  | none =>
    have hentries := entries_dispose_of_none hkey
    refine ⟨fun key' e' he' => ?_, fun e' z hz => .inl ⟨z, hentries ▸ hz, ?_⟩⟩
    · rw [table_dispose, Function.update_eq_self_iff.mpr hkey.symm] at he'
      rw [hentries]
      exact htable key' e' he'
    · rw [hlisted e' z (by rw [hkey]; simp)]
      exact .stay _ z
  | some e =>
    obtain ⟨x, hx, rfl⟩ := htable key e hkey
    have hentries := entries_dispose hkey
    refine ⟨fun key' e' he' => ?_, fun e' z hz => .inl ?_⟩
    · have hkk : key' ≠ x.key := by
        rintro rfl
        rw [table_dispose, Function.update_self] at he'
        cases he'
      rw [table_dispose, Function.update_of_ne hkk] at he'
      obtain ⟨x', hx', hkey'⟩ := htable key' e' he'
      have hee : e ≠ e' := by
        rintro rfl
        obtain rfl := Option.some.inj (hx.symm.trans hx')
        exact hkk hkey'.symm
      refine ⟨x', ?_, hkey'⟩
      rw [hentries, List.getElem?_modify_ne _ _ hee, hx']
    · rw [hentries] at hz
      obtain ⟨x', hx', ⟨rfl, rfl⟩ | ⟨hee, rfl⟩⟩ := getElem?_modify_cases hz
      · obtain rfl := Option.some.inj (hx.symm.trans hx')
        refine ⟨x, hx, ?_⟩
        rw [listed_iff.mpr hkey, hgone x.discard rfl]
        exact .discard x
      · refine ⟨z, hx', ?_⟩
        rw [hlisted e' z (by rw [hkey]; simpa using hee)]
        exact .stay _ z

/-- A tab without an entry gets a new one. -/
theorem stepped_add {s t : Page} (hstepped : Stepped s t) (htable : TableSound t)
    {sessionId tabId : String} (target : TerminalTarget) (size : Size)
    (hnone : t.table (tabKey sessionId tabId) = none) :
    TableSound (t.add (.create sessionId tabId target size)) ∧
      Stepped s (t.add (.create sessionId tabId target size)) := by
  have htable' : (t.add (.create sessionId tabId target size)).table =
      Function.update t.table (tabKey sessionId tabId) (some t.entries.length) := rfl
  have hentries : (t.add (.create sessionId tabId target size)).entries =
      t.entries ++ [.create sessionId tabId target size] := rfl
  refine ⟨fun key e he => ?_, fun e y hy => ?_⟩
  · rw [hentries]
    by_cases hkk : key = tabKey sessionId tabId
    · subst hkk
      rw [htable', Function.update_self] at he
      obtain rfl := Option.some.inj he
      exact ⟨_, List.getElem?_concat_length, rfl⟩
    · rw [htable', Function.update_of_ne hkk] at he
      obtain ⟨x, hx, hkey⟩ := htable key e he
      exact ⟨x, getElem?_concat_of_some hx, hkey⟩
  · rw [hentries] at hy
    obtain hy | ⟨rfl, rfl⟩ := getElem?_concat_cases hy
    · have hlt : e < t.entries.length := (List.getElem?_eq_some_iff.mp hy).1
      have hlisted : (t.add (.create sessionId tabId target size)).listed e y = t.listed e y := by
        rw [Page.listed, Page.listed, htable']
        by_cases hkk : y.key = tabKey sessionId tabId
        · rw [hkk, Function.update_self, hnone, decide_eq_decide]
          exact ⟨fun h => absurd (Option.some.inj h) (by omega), fun h => absurd h (by simp)⟩
        · rw [Function.update_of_ne hkk]
      rw [hlisted]
      exact hstepped e y hy
    · refine .inr ⟨sessionId, tabId, target, size, rfl, ?_⟩
      rw [listed_iff, htable']
      exact Function.update_self _ _ _

/-- Every entry has the key of its tab. -/
def Named (s : Page) : Prop :=
  ∀ (e : ℕ) (x : Entry), s.entries[e]? = some x → x.key = tabKey x.sessionId x.tabId

/-- A step keeps that. -/
theorem Named.step {s t : Page} (h : Named s) (hstepped : Stepped s t) : Named t := by
  intro e y hy
  obtain ⟨x, hx, hmoves⟩ | ⟨sessionId, tabId, target, size, rfl, -⟩ := hstepped e y hy
  · have hname := hmoves.name_eq
    simp only [name, Prod.mk.injEq] at hname
    rw [hname.1, hname.2.1, hname.2.2]
    exact h e x hx
  · rfl

/-- An entry that is discarded is discarded whatever its timer was. -/
theorem dispose_update {s : Page} {e : ℕ} {x : Entry} (hkey : s.table x.key = some e)
    (hx : s.entries[e]? = some x) :
    (s.update e { x with reconnectTimer := none }).dispose x.key = s.dispose x.key := by
  have hentries : (s.entries.set e { x with reconnectTimer := none }).modify e Entry.discard =
      s.entries.modify e Entry.discard := by
    refine List.ext_getElem? fun j => ?_
    rw [List.getElem?_modify, List.getElem?_modify]
    by_cases hj : e = j
    · subst hj
      rw [List.getElem?_set_self (List.getElem?_eq_some_iff.mp hx).1, hx]
      simp only [Option.map_eq_map, Option.map_some, if_true]
      rfl
    · rw [List.getElem?_set_ne hj]
  have hkey' : (s.update e { x with reconnectTimer := none }).table x.key = some e := hkey
  rw [dispose_of_some hkey, dispose_of_some hkey']
  exact congrArg (fun entries => Page.mk entries _ _ _) hentries

/-- What a restart does. -/
theorem stepped_restart {s : Page} {key : String} {e : ℕ} {x : Entry} (htable : TableSound s)
    (hnamed : Named s) (hkey : s.table key = some e) (hx : s.entries[e]? = some x) (size : Size) :
    TableSound (s.restart e x size) ∧ Stepped s (s.restart e x size) := by
  obtain ⟨x', hx', rfl⟩ := htable key e hkey
  obtain rfl := Option.some.inj (hx.symm.trans hx')
  unfold Page.restart
  split_ifs with hold
  · refine stepped_update hx ?_ htable
    rw [listed_iff.mpr hkey]
    exact .restart hold.1 hold.2
  · rw [dispose_update hkey hx]
    obtain ⟨htable', hstepped⟩ := stepped_dispose x.key htable
    refine stepped_add hstepped htable' .new size ?_
    rw [table_dispose, ← hnamed e x hx, Function.update_self]

/-- What is remembered is kept beside the entries. -/
theorem remember_eq (s : Page) (x : Entry) (frame : HostFrame) :
    ∃ memory, s.remember x frame = { s with memory := memory } := by
  have hforget : ∃ memory, s.forget x = { s with memory := memory } := by
    unfold Page.forget
    split_ifs
    · exact ⟨_, rfl⟩
    · exact ⟨s.memory, rfl⟩
  cases frame with
  | ready => exact ⟨_, rfl⟩
  | size | other => exact ⟨s.memory, rfl⟩
  | exit => exact hforget
  | error message =>
    unfold Page.remember
    simp only
    split_ifs
    · exact hforget
    · exact ⟨s.memory, rfl⟩

/-- What one event does to the entries. -/
theorem stepped_of_step {s t : Page} {ev : PageEvent} (htable : TableSound s) (hnamed : Named s)
    (hstep : step s ev = some t) : TableSound t ∧ Stepped s t := by
  have hsocket : ∀ {e k : ℕ} {ready : ReadyState → Bool} {run : Entry → Page},
      withSocket s e k ready run = some t → ∃ x w, s.entries[e]? = some x ∧
        x.sockets[k]? = some w ∧ ready w.readyState = true ∧ run x = t := by
    intro e k ready run h
    obtain ⟨x, hx, h⟩ := Option.bind_eq_some_iff.mp h
    obtain ⟨w, hw, h⟩ := Option.bind_eq_some_iff.mp h
    obtain ⟨hready, h⟩ := Option.ite_none_right_eq_some.mp h
    exact ⟨x, w, hx, hw, hready, Option.some.inj h⟩
  cases ev with
  | choose sessionId tabId target =>
    obtain rfl := Option.some.inj hstep
    exact ⟨htable, stepped_of_eq rfl rfl⟩
  | mount sessionId tabId size =>
    obtain ⟨target, -, rfl⟩ := Option.map_eq_some_iff.mp hstep
    split
    · exact ⟨htable, stepped_of_eq rfl rfl⟩
    · rename_i hnone
      exact stepped_add (stepped_of_eq rfl rfl) htable target size hnone
  | abort sessionId tabId =>
    obtain rfl := Option.some.inj hstep
    exact stepped_dispose _ htable
  | restart sessionId tabId size =>
    obtain ⟨e, he, hstep⟩ := Option.bind_eq_some_iff.mp hstep
    obtain ⟨x, hx, hstep⟩ := Option.bind_eq_some_iff.mp hstep
    obtain ⟨-, hstep⟩ := Option.ite_none_right_eq_some.mp hstep
    obtain rfl := Option.some.inj hstep
    exact stepped_restart htable hnamed he hx size
  | opened e k =>
    rw [step] at hstep
    obtain ⟨x, w, hx, hw, hready, rfl⟩ := hsocket hstep
    exact stepped_update hx (.opened hw (beq_iff_eq.mp hready)) htable
  | binary e k =>
    rw [step] at hstep
    obtain ⟨x, w, hx, hw, hready, rfl⟩ := hsocket hstep
    exact stepped_update hx (.binary hw (beq_iff_eq.mp hready)) htable
  | frame e k frame =>
    rw [step] at hstep
    obtain ⟨x, w, hx, hw, hready, rfl⟩ := hsocket hstep
    obtain ⟨memory, hmemory⟩ := remember_eq s x frame
    rw [hmemory]
    exact stepped_update (s := { s with memory := memory }) hx
      (.frame hw (beq_iff_eq.mp hready) frame) htable
  | closed e k =>
    rw [step] at hstep
    obtain ⟨x, w, hx, hw, hready, rfl⟩ := hsocket hstep
    exact stepped_update hx (.closed hw (by simpa using hready)) htable
  | timer e =>
    obtain ⟨x, hx, hstep⟩ := Option.bind_eq_some_iff.mp hstep
    obtain ⟨htimer, hstep⟩ := Option.ite_none_right_eq_some.mp hstep
    obtain rfl := Option.some.inj hstep
    exact stepped_update hx (.timer htimer) htable
  | parsed e =>
    obtain ⟨x, hx, rfl⟩ := Option.map_eq_some_iff.mp hstep
    exact stepped_update hx (.parsed x) htable
  | resize e size =>
    obtain ⟨x, hx, hstep⟩ := Option.bind_eq_some_iff.mp hstep
    obtain ⟨hlisted, hstep⟩ := Option.ite_none_right_eq_some.mp hstep
    obtain rfl := Option.some.inj hstep
    refine stepped_update hx ?_ htable
    rw [hlisted]
    exact .resize x size
  | input e data =>
    obtain ⟨x, hx, hstep⟩ := Option.bind_eq_some_iff.mp hstep
    obtain ⟨hcond, hstep⟩ := Option.ite_none_right_eq_some.mp hstep
    obtain rfl := Option.some.inj hstep
    rw [Bool.and_eq_true, Bool.not_eq_true'] at hcond
    refine stepped_update hx ?_ htable
    rw [hcond.1]
    exact .input data hcond.2

/-- In every run the map names entries by their keys, and a property that new entries have and
every move keeps holds of all of them. -/
theorem invariant {memory : String → Option String} {I : Bool → Entry → Prop}
    (hnew : ∀ sessionId tabId target size, I true (.create sessionId tabId target size))
    (hmoves : ∀ {l l' x y}, Moves l l' x y → I l x → I l' y) {s : Page}
    (h : (machine memory).Reachable s) :
    TableSound s ∧ Named s ∧ ∀ e x, s.entries[e]? = some x → I (s.listed e x) x := by
  refine h.invariant (I := fun s => TableSound s ∧ Named s ∧
    ∀ e x, s.entries[e]? = some x → I (s.listed e x) x) ?_ ?_
  · refine ⟨fun key e he => ?_, fun e x hx => ?_, fun e x hx => ?_⟩
    · cases he
    · cases hx
    · cases hx
  · rintro s ev t ⟨htable, hnamed, hI⟩ - hstep
    obtain ⟨htable', hstepped⟩ := stepped_of_step htable hnamed hstep
    refine ⟨htable', hnamed.step hstepped, fun e y hy => ?_⟩
    obtain ⟨x, hx, hmove⟩ | ⟨sessionId, tabId, target, size, rfl, hlisted⟩ := hstepped e y hy
    · exact hmoves hmove (hI e x hx)
    · rw [hlisted]
      exact hnew sessionId tabId target size

/-! ### What an entry is like -/

/-- How the state and the timer of an entry fit the state of its socket. -/
structure Fits (listed : Bool) (x : Entry) (ready : ReadyState) : Prop where
  /-- An entry that was let go has no reconnect coming, and its socket is closed or about to be. -/
  unlisted : listed = false → x.reconnectTimer = none ∧ (ready = .closing ∨ ready = .closed)
  /-- The socket of a tab is never being closed by the page. -/
  unclosing : listed = true → ready ≠ .closing
  /-- A reconnect is coming only for a socket that dropped, after the delay of its attempt. -/
  timer : ∀ delay, x.reconnectTimer = some delay → ready = .closed ∧ x.state = .closed ∧
    delay = min (reconnectBaseMs * 2 ^ x.reconnectAttempts) reconnectMaxMs
  /-- A tab says that it is disconnected only when it is. -/
  closed : x.state = .closed → ready = .closed
  /-- A socket that dropped has a reconnect coming, or its shell is over. -/
  retried : listed = true → ready = .closed →
    x.isOver = true ∨ x.state = .closed ∧ x.reconnectTimer.isSome = true

/-- The current socket fits, and the ones before it are closed. -/
def EntrySound (listed : Bool) (x : Entry) : Prop :=
  ∃ w old, x.sockets = w :: old ∧ (∀ o ∈ old, o.readyState = .closed) ∧
    Fits listed x w.readyState

/-- A socket that is not closed is the current one. -/
theorem current_of_getElem {w v : TabSocket} {old : List TabSocket} {k : ℕ}
    (hold : ∀ o ∈ old, o.readyState = .closed) (hv : (w :: old)[k]? = some v)
    (hready : v.readyState ≠ .closed) : k = 0 ∧ v = w := by
  cases k with
  | zero => exact ⟨rfl, (Option.some.inj hv).symm⟩
  | succ k =>
    rw [List.getElem?_cons_succ] at hv
    exact absurd (hold v (List.mem_of_getElem? hv)) hready

/-- Sockets, state, timer and attempts are all that soundness is about. -/
theorem EntrySound.congr {listed : Bool} {x y : Entry} (h : EntrySound listed x)
    (hsockets : y.sockets = x.sockets) (hstate : y.state = x.state)
    (htimer : y.reconnectTimer = x.reconnectTimer)
    (hattempts : y.reconnectAttempts = x.reconnectAttempts) : EntrySound listed y := by
  obtain ⟨w, old, hx, hold, hfits⟩ := h
  have hover : y.isOver = x.isOver := by
    unfold Entry.isOver
    rw [hstate]
  refine ⟨w, old, hsockets.trans hx, hold, ?_⟩
  constructor
  · rw [htimer]
    exact hfits.unlisted
  · exact hfits.unclosing
  · rw [htimer, hstate, hattempts]
    exact hfits.timer
  · rw [hstate]
    exact hfits.closed
  · rw [hover, hstate, htimer]
    exact hfits.retried

/-- A frame that is sent changes no socket's state. -/
theorem EntrySound.send {listed : Bool} {x : Entry} (h : EntrySound listed x)
    (frame : ClientFrame) : EntrySound listed (x.send frame) := by
  obtain ⟨w, old, hx, hold, hfits⟩ := h
  by_cases hopen : w.readyState = .open
  · refine ⟨{ w with sent := w.sent ++ [frame] }, old, ?_, hold, ?_⟩
    · simp only [Entry.send, hx, List.modifyHead_cons, if_pos hopen]
    · exact ⟨hfits.unlisted, hfits.unclosing, hfits.timer, hfits.closed, hfits.retried⟩
  · refine ⟨w, old, ?_, hold, ?_⟩
    · simp only [Entry.send, hx, List.modifyHead_cons, if_neg hopen]
    · exact ⟨hfits.unlisted, hfits.unclosing, hfits.timer, hfits.closed, hfits.retried⟩

/-- While the socket is open only the state may change, and not to the one of a socket that
dropped. -/
theorem EntrySound.setState {listed : Bool} {x y : Entry} (h : EntrySound listed x) {k : ℕ}
    {v : TabSocket} (hv : x.sockets[k]? = some v) (hopen : v.readyState = .open)
    (hsockets : y.sockets = x.sockets) (htimer : y.reconnectTimer = x.reconnectTimer)
    (hstate : y.state ≠ .closed) : EntrySound listed y := by
  obtain ⟨w, old, hx, hold, hfits⟩ := h
  rw [hx] at hv
  obtain ⟨rfl, rfl⟩ := current_of_getElem hold hv (by rw [hopen]; decide)
  have hnone : x.reconnectTimer = none := by
    cases htimer' : x.reconnectTimer with
    | none => rfl
    | some delay =>
      have hclosed := (hfits.timer delay htimer').1
      rw [hopen] at hclosed
      cases hclosed
  refine ⟨v, old, hsockets.trans hx, hold, ⟨?_, hfits.unclosing, ?_, fun h => absurd h hstate, ?_⟩⟩
  · rw [htimer]
    exact hfits.unlisted
  · rw [htimer, hnone]
    rintro delay ⟨⟩
  · rw [hopen]
    rintro - ⟨⟩

/-- The state of the current socket, which an event found in another one than closed, is what
becomes of it. -/
theorem mark_current {listed : Bool} {x : Entry} (h : EntrySound listed x) {k : ℕ} {v : TabSocket}
    (hv : x.sockets[k]? = some v) (hready : v.readyState ≠ .closed) (ready : ReadyState) :
    ∃ old, (x.mark k ready).sockets = { v with readyState := ready } :: old ∧
      (∀ o ∈ old, o.readyState = .closed) ∧ Fits listed x v.readyState ∧ x.reconnectTimer = none := by
  obtain ⟨w, old, hx, hold, hfits⟩ := h
  rw [hx] at hv
  obtain ⟨rfl, rfl⟩ := current_of_getElem hold hv hready
  refine ⟨old, ?_, hold, hfits, ?_⟩
  · rw [Entry.mark, hx]
    rfl
  · cases htimer : x.reconnectTimer with
    | none => rfl
    | some delay => exact absurd (hfits.timer delay htimer).1 hready

/-! ### What the callbacks do -/

/-- A socket opens. -/
theorem EntrySound.onOpen {listed : Bool} {x : Entry} (h : EntrySound listed x) {k : ℕ}
    {v : TabSocket} (hv : x.sockets[k]? = some v) (hready : v.readyState = .connecting) :
    EntrySound listed (x.mark k .open).onOpen := by
  obtain ⟨old, hsockets, hold, hfits, htimer⟩ :=
    mark_current h hv (by rw [hready]; decide) .open
  rw [hready] at hfits
  have hmark : EntrySound listed (x.mark k .open) := by
    refine ⟨_, old, hsockets, hold, ⟨fun hl => ?_, fun _ => by rintro ⟨⟩, ?_, fun hstate => ?_, ?_⟩⟩
    · obtain ⟨-, hclosing | hclosed⟩ := hfits.unlisted hl
      · cases hclosing
      · cases hclosed
    · rintro delay hdelay
      rw [Entry.mark, htimer] at hdelay
      cases hdelay
    · cases hfits.closed hstate
    · rintro - ⟨⟩
  unfold Entry.onOpen
  split
  · refine EntrySound.send ?_ _
    exact hmark.congr rfl rfl rfl rfl
  · refine EntrySound.send ?_ _
    exact hmark.congr rfl rfl rfl rfl

/-- A text frame arrives. -/
theorem EntrySound.onFrame {listed : Bool} {x : Entry} (h : EntrySound listed x) {k : ℕ}
    {v : TabSocket} (hv : x.sockets[k]? = some v) (hopen : v.readyState = .open)
    (frame : HostFrame) : EntrySound listed (x.onFrame frame) := by
  cases frame with
  | ready id label cwd => exact h.setState hv hopen rfl rfl (by rintro ⟨⟩)
  | size live =>
    unfold Entry.onFrame
    simp only
    split
    · exact h.setState hv hopen rfl rfl (by rintro ⟨⟩)
    · exact h.congr rfl rfl rfl rfl
  | exit code signal => exact h.setState hv hopen rfl rfl (by rintro ⟨⟩)
  | error message =>
    unfold Entry.onFrame
    simp only
    split
    · refine EntrySound.send ?_ _
      exact h.congr rfl rfl rfl rfl
    · exact h.setState hv hopen rfl rfl (by rintro ⟨⟩)
  | other => exact h

/-- A socket closes. -/
theorem EntrySound.onClose {listed : Bool} {x : Entry} (h : EntrySound listed x) {k : ℕ}
    {v : TabSocket} (hv : x.sockets[k]? = some v) (hready : v.readyState ≠ .closed) :
    EntrySound listed ((x.mark k .closed).onClose listed) := by
  obtain ⟨old, hsockets, hold, -, htimer⟩ := mark_current h hv hready .closed
  have htimer' : (x.mark k .closed).reconnectTimer = none := htimer
  unfold Entry.onClose
  split_ifs with hover
  · refine ⟨_, old, hsockets, hold, ⟨fun _ => ⟨htimer', .inr rfl⟩, fun _ => by rintro ⟨⟩, ?_,
      fun _ => rfl, fun _ _ => .inl hover⟩⟩
    rintro delay hdelay
    rw [htimer'] at hdelay
    cases hdelay
  · cases listed with
    | true =>
      have hscheduled : Entry.scheduleReconnect { x.mark k .closed with state := .closed } true =
          { x.mark k .closed with
            state := .closed
            reconnectTimer :=
              some (min (reconnectBaseMs * 2 ^ x.reconnectAttempts) reconnectMaxMs) } := by
        simp only [Entry.scheduleReconnect, htimer']
        rfl
      rw [hscheduled]
      refine ⟨_, old, hsockets, hold, ⟨?_, fun _ => by rintro ⟨⟩, ?_, fun _ => rfl,
        fun _ _ => .inr ⟨rfl, rfl⟩⟩⟩
      · rintro ⟨⟩
      · rintro delay hdelay
        exact ⟨rfl, rfl, (Option.some.inj hdelay).symm⟩
    | false =>
      refine ⟨_, old, hsockets, hold, ⟨fun _ => ⟨htimer', .inr rfl⟩, fun _ => by rintro ⟨⟩, ?_,
        fun _ => rfl, ?_⟩⟩
      · intro delay hdelay
        rw [show (Entry.scheduleReconnect { x.mark k .closed with state := .closed } false)
          = { x.mark k .closed with state := .closed } from rfl, htimer'] at hdelay
        cases hdelay
      · rintro ⟨⟩

/-- A socket is put in the place of one that dropped. -/
theorem EntrySound.replaceSocket {x y : Entry} (h : EntrySound true x) (hclosed : x.state = .closed)
    (hsockets : y.sockets = x.sockets) (htimer : y.reconnectTimer = none) :
    EntrySound true y.replaceSocket := by
  obtain ⟨w, old, hx, hold, hfits⟩ := h
  refine ⟨.new, w :: old, ?_, List.forall_mem_cons.mpr ⟨hfits.closed hclosed, hold⟩, ?_⟩
  · rw [Entry.replaceSocket, hsockets, hx]
  · refine ⟨?_, fun _ => by rintro ⟨⟩, ?_, ?_, ?_⟩
    · rintro ⟨⟩
    · intro delay hdelay
      rw [Entry.replaceSocket, htimer] at hdelay
      cases hdelay
    · rintro ⟨⟩
    · rintro - ⟨⟩

/-- The tab lets an entry go. -/
theorem EntrySound.discard {x : Entry} (h : EntrySound true x) : EntrySound false x.discard := by
  obtain ⟨w, old, hx, hold, hfits⟩ := h
  have hsockets : x.discard.sockets =
      (if w.readyState = .closed then w else { w with readyState := .closing }) :: old := by
    rw [Entry.discard, hx]
    rfl
  refine ⟨_, old, hsockets, hold, ⟨fun _ => ⟨rfl, ?_⟩, ?_, ?_, fun hstate => ?_, ?_⟩⟩
  · split_ifs with hclosed
    · exact .inr hclosed
    · exact .inl rfl
  · rintro ⟨⟩
  · rintro delay ⟨⟩
  · rw [if_pos (hfits.closed hstate)]
    exact hfits.closed hstate
  · rintro ⟨⟩

/-- Every move keeps an entry sound. -/
theorem EntrySound.move {l l' : Bool} {x y : Entry} (hmove : Moves l l' x y)
    (h : EntrySound l x) : EntrySound l' y := by
  cases hmove with
  | stay => exact h
  | opened hw hready => exact h.onOpen hw hready
  | binary =>
    unfold Entry.onBinary
    split_ifs
    · exact h.congr rfl rfl rfl rfl
    · exact h
  | frame hw hready frame => exact h.onFrame hw hready frame
  | closed hw hready => exact h.onClose hw hready
  | timer htimer =>
    obtain ⟨delay, hdelay⟩ := Option.isSome_iff_exists.mp htimer
    obtain ⟨w, old, -, -, hfits⟩ := id h
    have hlisted : l = true := by
      cases l with
      | true => rfl
      | false =>
        rw [(hfits.unlisted rfl).1] at hdelay
        cases hdelay
    subst hlisted
    exact h.replaceSocket (hfits.timer delay hdelay).2.1 rfl rfl
  | parsed => exact h.congr rfl rfl rfl rfl
  | resize size =>
    refine EntrySound.send ?_ _
    exact h.congr rfl rfl rfl rfl
  | input data => exact h.send _
  | restart hstate hid => exact h.replaceSocket hstate rfl rfl
  | discard => exact h.discard

/-! ### Runs -/

/-- A socket that is open or about to be. -/
def Alive (ready : ReadyState) : Prop := ready = .connecting ∨ ready = .open

/-- What an entry that its tab has is like: its current socket is open or about to be; or it is
closed and the shell is over; or it dropped, and one reconnect is coming after the delay of its
attempt. -/
def Served (x : Entry) (ready : ReadyState) : Prop :=
  Alive ready ∧ x.reconnectTimer = none ∨
  ready = .closed ∧ x.isOver = true ∧ x.reconnectTimer = none ∨
  ready = .closed ∧ x.state = .closed ∧
    x.reconnectTimer = some (min (reconnectBaseMs * 2 ^ x.reconnectAttempts) reconnectMaxMs)

/-- A sound entry that its tab has is served. -/
theorem Fits.served {x : Entry} {ready : ReadyState} (h : Fits true x ready) :
    Served x ready := by
  cases htimer : x.reconnectTimer with
  | some delay =>
    obtain ⟨hready, hstate, rfl⟩ := h.timer delay htimer
    exact .inr (.inr ⟨hready, hstate, htimer⟩)
  | none =>
    cases hready : ready with
    | connecting => exact .inl ⟨.inl rfl, htimer⟩
    | «open» => exact .inl ⟨.inr rfl, htimer⟩
    | closing => exact absurd hready (h.unclosing rfl)
    | closed =>
      obtain hover | ⟨-, htimer'⟩ := h.retried rfl hready
      · exact .inr (.inl ⟨rfl, hover, htimer⟩)
      · rw [htimer] at htimer'
        cases htimer'

/-- A new entry is sound. -/
theorem entrySound_create (sessionId tabId : String) (target : TerminalTarget) (size : Size) :
    EntrySound true (.create sessionId tabId target size) := by
  refine ⟨.new, [], rfl, fun o ho => absurd ho List.not_mem_nil, ?_⟩
  refine ⟨?_, fun _ => by rintro ⟨⟩, ?_, ?_, ?_⟩
  · rintro ⟨⟩
  · rintro delay ⟨⟩
  · rintro ⟨⟩
  · rintro - ⟨⟩

/-- Every entry is sound in every run. -/
theorem sound_of_reachable {memory : String → Option String} {s : Page}
    (h : (machine memory).Reachable s) :
    TableSound s ∧ Named s ∧ ∀ e x, s.entries[e]? = some x → EntrySound (s.listed e x) x :=
  invariant entrySound_create (fun hmove hx => hx.move hmove) h

/-- In every run of a page a tab has at most one socket that is open or about to be, over all the
entries it ever had. An entry that a tab has is served: by that socket, or by one reconnect that is
coming, unless its shell is over. An entry that was let go has no such socket and no reconnect. -/
theorem tabs_keep_one_socket (memory : String → Option String) {s : Page}
    (h : (machine memory).Reachable s) :
    (∀ (e e' k k' : ℕ) (x x' : Entry) (v v' : TabSocket), s.entries[e]? = some x →
      s.entries[e']? = some x' → x.key = x'.key → x.sockets[k]? = some v →
      x'.sockets[k']? = some v' → Alive v.readyState → Alive v'.readyState → e = e' ∧ k = k') ∧
    ∀ (e : ℕ) (x : Entry), s.entries[e]? = some x →
      if s.table x.key = some e then ∃ w old, x.sockets = w :: old ∧ Served x w.readyState
      else x.reconnectTimer = none ∧ ∀ v ∈ x.sockets, ¬ Alive v.readyState := by
  obtain ⟨-, -, hsound⟩ := sound_of_reachable h
  have hdead : ∀ {ready : ReadyState}, ready = .closing ∨ ready = .closed → ¬ Alive ready := by
    rintro ready (rfl | rfl) (h | h)
    all_goals cases h
  have hlisted : ∀ (e k : ℕ) (x : Entry) (v : TabSocket), s.entries[e]? = some x → x.sockets[k]? = some v →
      Alive v.readyState → s.table x.key = some e ∧ k = 0 := by
    intro e k x v hx hv halive
    obtain ⟨w, old, hsockets, hold, hfits⟩ := hsound e x hx
    rw [hsockets] at hv
    obtain ⟨rfl, rfl⟩ := current_of_getElem hold hv fun hclosed => hdead (.inr hclosed) halive
    refine ⟨?_, rfl⟩
    rw [← listed_iff]
    cases hl : s.listed e x with
    | true => rfl
    | false => exact absurd halive (hdead (hfits.unlisted hl).2)
  refine ⟨fun e e' k k' x x' v v' hx hx' hkey hv hv' halive halive' => ?_, fun e x hx => ?_⟩
  · obtain ⟨he, rfl⟩ := hlisted e k x v hx hv halive
    obtain ⟨he', rfl⟩ := hlisted e' k' x' v' hx' hv' halive'
    rw [hkey, he'] at he
    exact ⟨(Option.some.inj he).symm, rfl⟩
  · obtain ⟨w, old, hsockets, hold, hfits⟩ := hsound e x hx
    split_ifs with he
    · rw [listed_iff.mpr he] at hfits
      exact ⟨w, old, hsockets, hfits.served⟩
    · have hl : s.listed e x = false := by
        rw [← Bool.not_eq_true, listed_iff]
        exact he
      refine ⟨(hfits.unlisted hl).1, fun v hv => ?_⟩
      rw [hsockets] at hv
      obtain rfl | hv := List.mem_cons.mp hv
      · exact hdead (hfits.unlisted hl).2
      · exact hdead (.inr (hold v hv))

/-- The events of a tab that is opened, loses its socket, and waits. -/
def droppedTab : List PageEvent :=
  [.choose "s1" "t1" .new, .mount "s1" "t1" ⟨80, 24⟩, .opened 0 0,
    .frame 0 0 (.ready "r1" "shell" "/home"), .closed 0 0]

/-- Its socket dropped, and a reconnect is coming. -/
theorem dropped_tab_reconnects :
    ∃ s x, (machine fun _ => none).run droppedTab = some s ∧ s.entries[0]? = some x ∧
      x.reconnectTimer = some 500 ∧ ∃ w old, x.sockets = w :: old ∧ Served x w.readyState := by
  have hrun : ((machine fun _ => none).run droppedTab).isSome = true := by decide
  refine ⟨_, _, Option.some_get hrun |>.symm, rfl, rfl, ?_⟩
  have hserved := (tabs_keep_one_socket _ (Machine.reachable_get droppedTab hrun)).2 0 _ rfl
  exact hserved

end RemoteWorkspace.Analysis.TabSockets
