import RemoteWorkspace.Analysis.PumpStall
import RemoteWorkspace.Analysis.TerminalTable
import RemoteWorkspace.Model.TerminalTool

/-!
# What one Session sees of the terminals of another

A call made for a Session is checked against the terminals of that Session, and then names
the terminal it found by its id. Since an id is never handed out twice, the id finds the same
terminal again or none. What the call is answered depends on the Session's own terminals
alone, and nothing that happens to the terminals of others changes those.
-/

set_option autoImplicit false

namespace RemoteWorkspace.Analysis.TerminalRegistry

open RemoteWorkspace.Computation RemoteWorkspace.Model RemoteWorkspace.Model.TerminalRegistry

variable {env : Env} {s t : Registry} {sessionId : String} {n : ℕ}

/-! ### A Session's own terminals -/

/-- An entry that was opened under a Session. -/
def Owns (s : Registry) (sessionId : String) (n : ℕ) : Prop :=
  1 ≤ n ∧ n ≤ s.nextOrdinal ∧ (s.entries n).sessionId = sessionId

/-- Two registries in which a Session has the same terminals. -/
structure Alike (sessionId : String) (s t : Registry) : Prop where
  mine : t.mine sessionId = s.mine sessionId
  entries : ∀ n, Owns s sessionId n → Owns t sessionId n ∧ t.entries n = s.entries n

theorem Alike.refl (sessionId : String) (s : Registry) : Alike sessionId s s :=
  ⟨rfl, fun _ hn => ⟨hn, rfl⟩⟩

/-- What a Session has in the table it owns. -/
theorem Tabled.owns (hs : Tabled s) (hn : n ∈ s.mine sessionId) : Owns s sessionId n := by
  obtain ⟨hin, hsession⟩ := List.mem_filter.mp hn
  obtain ⟨h1, h2⟩ := hs.listed n hin
  exact ⟨h1, h2, of_decide_eq_true hsession⟩

/-- The id of an entry that was opened finds it, or nothing. -/
theorem Tabled.entryOf_own (hs : Tabled s) (hn : Owns s sessionId n) :
    entryOf s (s.entries n).id = if n ∈ s.mine sessionId then .ok n
      else .error ("terminal \"" ++ (s.entries n).id ++ "\" is not open") := by
  obtain ⟨h1, h2, hsession⟩ := hn
  have hid : (s.entries n).id = idOf n := (hs.fits n).id h1 h2
  unfold entryOf
  by_cases hin : n ∈ s.table
  · have hmine : n ∈ s.mine sessionId := List.mem_filter.mpr ⟨hin, decide_eq_true hsession⟩
    rw [hs.get_eq_some.mpr ⟨hin, hid⟩, if_pos hmine]
  · have hnone : s.get (s.entries n).id = none := by
      rw [Option.eq_none_iff_forall_ne_some]
      intro m hm
      obtain ⟨hmem, hidm⟩ := hs.get_eq_some.mp hm
      rw [hid] at hidm
      exact hin (idOf_injective hidm ▸ hmem)
    have hmine : n ∉ s.mine sessionId := fun h => hin (List.mem_filter.mp h).1
    rw [hnone, if_neg hmine]

/-- It finds the same in a registry that is alike. -/
theorem Alike.entryOf (h : Alike sessionId s t) (hs : Tabled s) (ht : Tabled t)
    (hn : Owns s sessionId n) : entryOf t (s.entries n).id = entryOf s (s.entries n).id := by
  obtain ⟨howns, hentry⟩ := h.entries n hn
  have hfound := ht.entryOf_own howns
  rw [hentry, h.mine] at hfound
  rw [hfound, hs.entryOf_own hn]

/-- A terminal that has exited has exited in both. -/
theorem Alike.requireLive (h : Alike sessionId s t) (hn : Owns s sessionId n) :
    requireLive t n = requireLive s n := by
  unfold Model.TerminalRegistry.requireLive
  rw [(h.entries n hn).2]

/-- What a refusal shows of a Session's terminals. -/
theorem Alike.describe (h : Alike sessionId s t) {l : List ℕ}
    (hl : ∀ n ∈ l, Owns s sessionId n) : describe (l.map t.entries) = describe (l.map s.entries) := by
  rw [List.map_congr_left fun n hn => (h.entries n (hl n hn)).2]

/-! ### The ownership check -/

/-- The check finds an entry of the Session. -/
theorem requireOwned_mine {id : Option String} (h : requireOwned s sessionId id = .ok n) :
    n ∈ s.mine sessionId ∧ ∀ x ∈ id, (s.entries n).id = x := by
  unfold requireOwned at h
  simp only at h
  split at h
  · split at h
    · cases h
    · rename_i m hfind
      obtain ⟨-, heq⟩ := check_eq_ok_iff.mp h
      obtain rfl := Except.ok.inj heq
      refine ⟨List.mem_of_find?_eq_some hfind, fun x hx => ?_⟩
      obtain rfl := Option.some.inj hx
      simpa using List.find?_some hfind
  · split at h
    · cases h
    · rename_i m hone
      obtain rfl := Except.ok.inj h
      refine ⟨?_, nofun⟩
      have hmem : m ∈ (s.mine sessionId).filter fun n => (s.entries n).state ≠ .exited := by
        rw [hone]
        exact List.mem_singleton.mpr rfl
      exact (List.mem_filter.mp hmem).1
    · cases h

/-- The check, and its refusals, depend on the Session's own terminals. -/
theorem requireOwned_alike (h : Alike sessionId s t) (hs : Tabled s) (id : Option String) :
    requireOwned t sessionId id = requireOwned s sessionId id := by
  have hentries : ∀ n ∈ s.mine sessionId, t.entries n = s.entries n :=
    fun n hn => (h.entries n (hs.owns hn)).2
  have hmine : describe ((s.mine sessionId).map t.entries) =
      describe ((s.mine sessionId).map s.entries) := h.describe fun n hn => hs.owns hn
  unfold requireOwned
  simp only [h.mine, hmine]
  cases id with
  | some id =>
    have hfind : (s.mine sessionId).find? (fun n => decide ((t.entries n).id = id)) =
        (s.mine sessionId).find? fun n => decide ((s.entries n).id = id) := by
      rw [← List.head?_filter, ← List.head?_filter, List.filter_congr fun n hn => ?_]
      rw [hentries n hn]
    simp only [hfind]
    split
    · rfl
    · rename_i n hn
      exact h.requireLive (hs.owns (List.mem_of_find?_eq_some hn))
  | none =>
    have hlive : (s.mine sessionId).filter (fun n => decide ((t.entries n).state ≠ .exited)) =
        (s.mine sessionId).filter fun n => decide ((s.entries n).state ≠ .exited) := by
      refine List.filter_congr fun n hn => ?_
      rw [hentries n hn]
    simp only [hlive]
    split
    · rfl
    · rfl
    · rename_i live _ _
      have hshown : describe (((s.mine sessionId).filter fun n =>
            decide ((s.entries n).state ≠ .exited)).map t.entries) =
          describe (((s.mine sessionId).filter fun n =>
            decide ((s.entries n).state ≠ .exited)).map s.entries) :=
        h.describe fun n hn => hs.owns (List.mem_filter.mp hn).1
      rw [hshown]

/-! ### The tool -/

/-- The terminal a call acts on. -/
def Progress.entry : Progress → Option ℕ
  | .listed _ => none
  | .answered n _ => some n
  | .writing n _ _ => some n
  | .waiting w => some w.entry

/-- A call acts on the terminal its id finds. -/
theorem perform_entry {id : String} {args : ToolArgs} {progress : Progress}
    (h : perform env s id args = .ok progress) :
    ∀ n ∈ Progress.entry progress, entryOf s id = .ok n := by
  unfold perform at h
  split at h
  · obtain rfl := Except.ok.inj h
    exact nofun
  · obtain ⟨⟨n, page⟩, hread, heq⟩ := bind_eq_ok_iff.mp h
    obtain ⟨m, hentry, hpage⟩ := bind_eq_ok_iff.mp hread
    cases hpage
    cases heq
    exact fun n hn => Option.some.inj hn ▸ hentry
  · split at h
    · cases h
    · obtain ⟨n, hwrite, heq⟩ := bind_eq_ok_iff.mp h
      obtain ⟨m, hentry, hlive⟩ := bind_eq_ok_iff.mp hwrite
      obtain ⟨-, hm⟩ := check_eq_ok_iff.mp hlive
      cases hm
      cases heq
      exact fun n hn => Option.some.inj hn ▸ hentry
  · split at h
    · cases h
    · cases h
    · obtain ⟨⟨n, bytes⟩, hkeys, heq⟩ := bind_eq_ok_iff.mp h
      obtain ⟨m, hentry, hrest⟩ := bind_eq_ok_iff.mp hkeys
      obtain ⟨k, hlive, hrest⟩ := bind_eq_ok_iff.mp hrest
      obtain ⟨-, hm⟩ := check_eq_ok_iff.mp hlive
      obtain ⟨sequence, -, hpure⟩ := bind_eq_ok_iff.mp hrest
      cases hm
      cases hpure
      cases heq
      exact fun n hn => Option.some.inj hn ▸ hentry
  · split at h
    · cases h
    · cases h
    · obtain ⟨w, hwait, heq⟩ := bind_eq_ok_iff.mp h
      obtain ⟨m, hentry, hrest⟩ := bind_eq_ok_iff.mp hwait
      obtain ⟨test, -, hpure⟩ := bind_eq_ok_iff.mp hrest
      cases hpure
      cases heq
      exact fun n hn => Option.some.inj hn ▸ hentry

/-- What it does depends on that terminal. -/
theorem perform_alike (h : Alike sessionId s t) (hs : Tabled s) (ht : Tabled t)
    (hn : Owns s sessionId n) (args : ToolArgs) :
    perform env t (s.entries n).id args = perform env s (s.entries n).id args := by
  have hentry := (h.entries n hn).2
  have hfound := h.entryOf hs ht hn
  have hlive := h.requireLive hn
  rw [hs.entryOf_own hn] at hfound
  by_cases hmine : n ∈ s.mine sessionId
  · rw [if_pos hmine] at hfound
    have hown : entryOf s (s.entries n).id = .ok n := by rw [hs.entryOf_own hn, if_pos hmine]
    simp only [perform, Model.TerminalRegistry.read, write, sendKeys, wait, hfound, hown, hlive, hentry, bind,
      Except.bind]
  · rw [if_neg hmine] at hfound
    have hown := hs.entryOf_own hn
    rw [if_neg hmine] at hown
    simp only [perform, Model.TerminalRegistry.read, write, sendKeys, wait, hfound, hown, bind, Except.bind]

/-- A call of the tool acts on a terminal of the caller. -/
theorem execute_mine (hs : Tabled s) {args : ToolArgs} {progress : Progress}
    (h : execute env s (some sessionId) args = .ok progress) :
    ∀ n ∈ Progress.entry progress, n ∈ s.mine sessionId := by
  obtain ⟨-, -, h⟩ := bind_eq_ok_iff.mp h
  split at h
  · cases h
    exact nofun
  · obtain ⟨m, howned, h⟩ := bind_eq_ok_iff.mp h
    have hmine := (requireOwned_mine howned).1
    intro n hn
    have hfound := perform_entry h n hn
    rw [hs.entryOf_own (hs.owns hmine), if_pos hmine] at hfound
    exact Except.ok.inj hfound ▸ hmine

/-- What a call of the tool does depends on the caller's own terminals. -/
theorem execute_alike (h : Alike sessionId s t) (hs : Tabled s) (ht : Tabled t)
    (args : ToolArgs) :
    execute env t (some sessionId) args = execute env s (some sessionId) args := by
  have hlist : listFor t sessionId = listFor s sessionId := by
    unfold listFor
    rw [h.mine]
    exact List.map_congr_left fun n hn => by rw [(h.entries n (hs.owns hn)).2]
  have howned := requireOwned_alike h hs args.terminal
  unfold execute
  simp only [hlist, howned]
  cases hcheck : requireOwned s sessionId args.terminal with
  | error message => rfl
  | ok n =>
    have hn := hs.owns (requireOwned_mine hcheck).1
    have hid : (t.entries n).id = (s.entries n).id := by rw [(h.entries n hn).2]
    simp only [bind, Except.bind, hid, perform_alike h hs ht hn]

/-- The terminal a task goes on with. -/
def taskEntry : Task → Option ℕ
  | .writing n _ => some n
  | .waiting w => some w.entry
  | .settled => none

/-- What a call of the tool does at once it does to a terminal of the caller, and goes on
with that. -/
theorem begin_mine (hs : Tabled s) (args : ToolArgs) (aborted : Option (Option String)) :
    (∀ n ∈ (begin env s (some sessionId) args aborted).2.1, n ∈ s.mine sessionId) ∧
      ∀ n ∈ taskEntry (begin env s (some sessionId) args aborted).1, n ∈ s.mine sessionId := by
  unfold begin
  split
  · exact ⟨nofun, nofun⟩
  · exact ⟨nofun, nofun⟩
  · rename_i h
    exact ⟨execute_mine hs h, nofun⟩
  · rename_i h
    exact ⟨execute_mine hs h, execute_mine hs h⟩
  · rename_i w h
    have hmine := execute_mine hs h
    split
    · exact ⟨hmine, nofun⟩
    · exact ⟨hmine, hmine⟩

/-- What a call does and is answered depends on the caller's own terminals. -/
theorem begin_alike (h : Alike sessionId s t) (hs : Tabled s) (ht : Tabled t)
    (args : ToolArgs) (aborted : Option (Option String)) :
    begin env t (some sessionId) args aborted = begin env s (some sessionId) args aborted := by
  unfold begin
  rw [execute_alike h hs ht]
  split
  · rfl
  · rfl
  · rfl
  · rfl
  · rename_i w hexecute
    have hmine := execute_mine hs hexecute w.entry rfl
    rw [(h.entries _ (hs.owns hmine)).2]

/-- A call goes on with its own terminal. -/
theorem goOn_entry {task : Task} {e : DeskEvent} {reply : Reply}
    (h : goOn s task e = some (n, reply)) : taskEntry task = some n := by
  cases e with
  | registry | execute | reattach | attachOpened => cases h
  | written c error =>
    simp only [goOn] at h
    split at h
    · cases h
      rfl
    · cases h
  | check c =>
    simp only [goOn] at h
    split at h
    · obtain ⟨outcome, -, heq⟩ := Option.map_eq_some_iff.mp h
      cases heq
      rfl
    · cases h
  | timeout c =>
    simp only [goOn] at h
    split at h
    · cases h
      rfl
    · cases h
  | abort c reason =>
    simp only [goOn] at h
    split at h
    · cases h
      rfl
    · cases h

/-- How it goes on depends on that terminal. -/
theorem goOn_alike {task : Task} (h : ∀ n ∈ taskEntry task, t.entries n = s.entries n)
    (e : DeskEvent) : goOn t task e = goOn s task e := by
  cases task with
  | waiting w =>
    have hentry := h w.entry rfl
    cases e <;> simp only [goOn, hentry]
  | writing => cases e <;> rfl
  | settled => cases e <;> rfl

/-! ### A socket -/

/-- An attach of an id that finds an entry. -/
theorem attachId_ok {id : Option String} {sink : TerminalSink}
    (h : attachId s id sink = .ok (n, t)) :
    ∃ x, id = some x ∧ entryOf s x = .ok n ∧ attach s x sink = .ok t := by
  unfold attachId at h
  split at h
  · cases h
  · rename_i x
    obtain ⟨m, hentry, h⟩ := bind_eq_ok_iff.mp h
    obtain ⟨r, hattach, h⟩ := bind_eq_ok_iff.mp h
    cases h
    exact ⟨x, rfl, hentry, hattach⟩

/-- What a frame that attaches to an own terminal is answered. -/
theorem answerFrame_own (hs : Tabled s) (hn : Owns s sessionId n) (caller : String)
    (sink : TerminalSink) :
    (answerFrame s caller (attachId s (some (s.entries n).id) sink)).2 =
      if n ∈ s.mine sessionId then
        if (s.entries n).state = .exited then
          ⟨caller, none, .refused ("terminal \"" ++ (s.entries n).id ++ "\" has already exited")⟩
        else ⟨caller, some n, .ready (s.entries n).ready⟩
      else ⟨caller, none, .refused ("terminal \"" ++ (s.entries n).id ++ "\" is not open")⟩ := by
  have hfound := hs.entryOf_own hn
  by_cases hmine : n ∈ s.mine sessionId
  · rw [if_pos hmine] at hfound ⊢
    by_cases hexited : (s.entries n).state = .exited
    · rw [if_pos hexited]
      simp only [attachId, attach, hfound, requireLive, hexited, bind, Except.bind, if_true,
        answerFrame]
    · rw [if_neg hexited]
      have hget : s.get (s.entries n).id = some n := by
        have hin := (List.mem_filter.mp hmine).1
        exact hs.get_eq_some.mpr ⟨hin, hs.id_of_mem hin⟩
      obtain ⟨t, hattach⟩ : ∃ t, attach s (s.entries n).id sink = .ok t :=
        attach_open hget hexited
      obtain ⟨m, hget', -, ht⟩ := attach_ok hattach
      obtain rfl : n = m := Option.some.inj (hget.symm.trans hget')
      have hready : (t.entries n).ready = (s.entries n).ready := by
        rw [ht]
        simp [Registry.assign, TerminalEntry.ready]
      simp only [attachId, hfound, hattach, bind, Except.bind, pure, Except.pure, answerFrame,
        hready]
  · rw [if_neg hmine] at hfound ⊢
    simp only [attachId, hfound, bind, Except.bind, answerFrame]

/-- It depends on the Session's own terminals. -/
theorem answerFrame_alike (h : Alike sessionId s t) (hs : Tabled s) (ht : Tabled t)
    (hn : Owns s sessionId n) (caller : String) (sink : TerminalSink) :
    (answerFrame t caller (attachId t (some (s.entries n).id) sink)).2 =
      (answerFrame s caller (attachId s (some (s.entries n).id) sink)).2 := by
  obtain ⟨howns, hentry⟩ := h.entries n hn
  have hanswer := answerFrame_own ht howns caller sink
  rw [hentry, h.mine] at hanswer
  rw [hanswer, answerFrame_own hs hn]

/-- What a socket that comes back is answered depends on the Session's own terminals. -/
theorem reattach_alike (h : Alike sessionId s t) (hs : Tabled s) (ht : Tabled t)
    (id : Option String) (sink : TerminalSink) :
    (answerFrame t sessionId (reattach t sessionId id sink)).2 =
      (answerFrame s sessionId (reattach s sessionId id sink)).2 := by
  unfold reattach
  rw [requireOwned_alike h hs]
  cases hcheck : requireOwned s sessionId id with
  | error message => rfl
  | ok n =>
    obtain ⟨hmine, hid⟩ := requireOwned_mine hcheck
    cases id with
    | none => rfl
    | some x =>
      rw [← hid x rfl]
      exact answerFrame_alike h hs ht (hs.owns hmine) sessionId sink

/-! ### What happens to the terminals of others -/

/-- The events that are about a terminal of a Session. -/
def Concerns (s : Registry) (sessionId : String) : Event → Prop
  | .spawned o _ => ∃ opening, s.openings[o]? = some opening ∧ opening.sessionId = sessionId
  | .attach id _ => ∃ n, Owns s sessionId n ∧ idOf n = id
  | .detach id _ => ∃ n, Owns s sessionId n ∧ idOf n = id
  | .kill id => ∃ n, Owns s sessionId n ∧ idOf n = id
  | .releaseSession released => released = sessionId
  | .disposeAll => True
  | .produce n _ => Owns s sessionId n
  | .data n => Owns s sessionId n
  | .done n _ => Owns s sessionId n
  | .valve n => Owns s sessionId n
  | .resized n _ _ => Owns s sessionId n
  | .react d => ∃ delivery, s.deliveries[d]? = some delivery ∧ Owns s sessionId delivery.entry
  | _ => False

theorem Alike.trans {u : Registry} (h : Alike sessionId s t) (h' : Alike sessionId t u) :
    Alike sessionId s u := by
  refine ⟨h'.mine.trans h.mine, fun n hn => ?_⟩
  obtain ⟨ht, hentry⟩ := h.entries n hn
  obtain ⟨hu, hentry'⟩ := h'.entries n ht
  exact ⟨hu, hentry'.trans hentry⟩

/-- Neither the calls of `open`, nor the deliveries, nor what sinks were told are part of a
Session's terminals. -/
theorem alike_rest (s : Registry) (openings : List Opening) (deliveries : List Delivery)
    (reports : List (TerminalSink × Report)) : Alike sessionId s
      { s with openings := openings, deliveries := deliveries, reports := reports } :=
  ⟨rfl, fun _ hn => ⟨hn, rfl⟩⟩

/-- An entry of another Session is assigned. -/
theorem assign_alike {m : ℕ} {entry : TerminalEntry} (hm : ¬ Owns s sessionId m)
    (hsession : entry.sessionId = (s.entries m).sessionId) :
    Alike sessionId s (s.assign m entry) := by
  have hsame : ∀ n, ((s.assign m entry).entries n).sessionId = (s.entries n).sessionId := by
    intro n
    by_cases hn : n = m
    · subst hn
      simpa [Registry.assign] using hsession
    · simp [Registry.assign, hn]
  refine ⟨?_, fun n hn => ?_⟩
  · unfold Registry.mine
    exact List.filter_congr fun n _ => by rw [hsame]
  · have hne : n ≠ m := by
      rintro rfl
      exact hm hn
    have hentry : (s.assign m entry).entries n = s.entries n := Function.update_of_ne hne ..
    exact ⟨⟨hn.1, hn.2.1, by rw [hentry, hn.2.2]⟩, hentry⟩

/-- The release of an entry of another Session. -/
theorem kill_alike (hs : Tabled s) {id : String} (h : ∀ n, Owns s sessionId n → idOf n ≠ id) :
    Alike sessionId s (kill s id) := by
  unfold kill
  split
  · exact .refl _ s
  · rename_i m hget
    obtain ⟨hin, rfl⟩ := hs.get_eq_some.mp hget
    have hm : ¬ Owns s sessionId m := fun howns => h m howns rfl
    have hassign : Alike sessionId s (s.assign m { s.entries m with
        detachTimer := false, attaches := [], state := .exited,
        handle := { (s.entries m).handle with
          terminations := (s.entries m).handle.terminations + 1 } }) := assign_alike hm rfl
    refine ⟨?_, hassign.entries⟩
    rw [← hassign.mine]
    unfold Registry.mine
    rw [List.filter_filter]
    refine List.filter_congr fun n hn => ?_
    by_cases hne : n = m
    · subst hne
      have hother : (s.entries n).sessionId ≠ sessionId := fun hsession =>
        hm ⟨(hs.listed n hin).1, (hs.listed n hin).2, hsession⟩
      simp [Registry.assign, hother]
    · rw [decide_eq_true hne, Bool.and_true]

/-- Whose an entry is does not change when one is assigned. -/
theorem owns_assign {m : ℕ} {entry : TerminalEntry}
    (hsession : entry.sessionId = (s.entries m).sessionId)
    (h : Owns (s.assign m entry) sessionId n) : Owns s sessionId n := by
  refine ⟨h.1, h.2.1, ?_⟩
  rw [← h.2.2]
  by_cases hn : n = m
  · subst hn
    simpa [Registry.assign] using hsession.symm
  · simp [Registry.assign, hn]

/-- An entry of another Session is assigned and then released. -/
theorem assign_kill_alike {m : ℕ} {entry : TerminalEntry} {id : String}
    (hassigned : Tabled (s.assign m entry)) (hid : id = idOf m) (hm : ¬ Owns s sessionId m)
    (hsession : entry.sessionId = (s.entries m).sessionId) :
    Alike sessionId s (kill (s.assign m entry) id) := by
  refine (assign_alike hm hsession).trans (kill_alike hassigned fun n hn hsame => hm ?_)
  obtain rfl := idOf_injective (hsame.trans hid)
  exact owns_assign hsession hn

/-- The release of any number of them. -/
theorem kills_alike (hs : Tabled s) (ids : List String)
    (h : ∀ n, Owns s sessionId n → idOf n ∉ ids) : Alike sessionId s (ids.foldl kill s) := by
  induction ids generalizing s with
  | nil => exact .refl _ s
  | cons id ids ih =>
    have hkill := kill_alike hs fun n hn hid => h n hn (hid ▸ List.mem_cons_self)
    have hreleases := kill_releases hs id
    refine hkill.trans (ih (hs.releases hreleases) fun n hn hmem => ?_)
    have hold : Owns s sessionId n := by
      have hsession : (standing ((kill s id).entries n)).sessionId =
          (standing (s.entries n)).sessionId := by
        by_cases hn' : n ∈ s.table ∧ idOf n = id
        · rw [hreleases.taken n hn'.1 hn'.2]
          rfl
        · rw [hreleases.others n hn']
      exact ⟨hn.1, hreleases.nextOrdinal ▸ hn.2.1, hsession.symm.trans hn.2.2⟩
    exact h n hold (List.mem_cons_of_mem _ hmem)

/-- A shell that is registered for another Session. -/
theorem spawned_alike (hs : Tabled s) {options : Options} {o pid : ℕ} {opening : Opening}
    (h : opening.sessionId ≠ sessionId) : Alike sessionId s (opened options s o opening pid) := by
  have hother : ∀ n, n ≠ s.nextOrdinal + 1 →
      (opened options s o opening pid).entries n = s.entries n :=
    fun n hn => Function.update_of_ne hn ..
  have hself : (opened options s o opening pid).entries (s.nextOrdinal + 1) =
      openedEntry options (s.nextOrdinal + 1) opening pid := Function.update_self ..
  refine ⟨?_, fun n hn => ?_⟩
  · show (s.table ++ [s.nextOrdinal + 1]).filter _ = s.table.filter _
    rw [List.filter_append]
    have hnew : [s.nextOrdinal + 1].filter (fun n => decide
        (((opened options s o opening pid).entries n).sessionId = sessionId)) = [] := by
      rw [List.filter_eq_nil_iff]
      intro n hn
      rw [List.mem_singleton.mp hn, hself]
      simpa [openedEntry] using h
    rw [hnew, List.append_nil]
    refine List.filter_congr fun n hn => ?_
    rw [hother n (Nat.ne_of_lt (Nat.lt_succ_of_le (hs.listed n hn).2))]
  · have hentry := hother n (Nat.ne_of_lt (Nat.lt_succ_of_le hn.2.1))
    exact ⟨⟨hn.1, Nat.le_succ_of_le hn.2.1, by rw [hentry, hn.2.2]⟩, hentry⟩

/-- A chunk that arrives from a terminal of another Session. -/
theorem dataHandler_alike {m : ℕ} (hm : ¬ Owns s sessionId m) (chunk : Bytes) :
    Alike sessionId s (dataHandler s m chunk) := by
  have hsession : (append (s.entries m) chunk).sessionId = (s.entries m).sessionId :=
    congrArg Standing.sessionId (standing_append (s.entries m) chunk)
  unfold dataHandler
  simp only
  split
  · exact assign_alike hm hsession
  · refine Alike.trans ?_ (alike_rest _ _ _ _)
    exact assign_alike hm hsession

/-- The output of one that is resumed. -/
theorem resumeOutput_alike {m : ℕ} (hm : ¬ Owns s sessionId m) :
    Alike sessionId s (resumeOutput s m) := by
  unfold resumeOutput
  simp only
  split
  · exact assign_alike hm rfl
  · exact .refl _ s

/-- What happens to the terminals of others leaves a Session's own alone. -/
theorem others_alike {options : Options} {e : Event} (hs : Tabled s)
    (h : step options s e = some t) (hother : ¬ Concerns s sessionId e) :
    Alike sessionId s t := by
  cases e with
  | «open» => exact Option.some.inj h ▸ alike_rest s _ _ _
  | spawned o pid =>
    simp only [step] at h
    split at h
    · rename_i opened request ho
      refine Option.some.inj h ▸ spawned_alike hs fun hsession => hother ?_
      exact ⟨_, ho, hsession⟩
    · cases h
  | spawnFailed o =>
    simp only [step] at h
    split at h
    · exact Option.some.inj h ▸ alike_rest s _ _ _
    · cases h
  | attach id sink =>
    simp only [step] at h
    split at h
    · rename_i hattach
      obtain ⟨m, hget, -, rfl⟩ := attach_ok hattach
      have hid := (hs.get_eq_some.mp hget).2
      have hm : ¬ Owns s sessionId m := fun howns => hother ⟨m, howns, hid.symm⟩
      refine Option.some.inj h ▸ Alike.trans ?_ (alike_rest _ _ _ _)
      exact assign_alike hm rfl
    · exact Option.some.inj h ▸ .refl _ s
  | detach id sink =>
    refine Option.some.inj h ▸ ?_
    unfold detach
    split
    · exact .refl _ s
    · rename_i m hget
      obtain ⟨hin, rfl⟩ := hs.get_eq_some.mp hget
      have hm : ¬ Owns s sessionId m := fun howns => hother ⟨m, howns, rfl⟩
      simp only
      split
      · exact assign_alike hm rfl
      · split
        · exact assign_kill_alike (tabled_left hs hin sink) rfl hm rfl
        · exact assign_alike hm rfl
  | kill id => exact Option.some.inj h ▸ kill_alike hs fun n hn hid => hother ⟨n, hn, hid⟩
  | releaseSession released =>
    refine Option.some.inj h ▸ kills_alike hs _ fun n hn hmem => hother ?_
    obtain ⟨m, hm, hid⟩ := List.mem_map.mp hmem
    obtain ⟨hin, hreleased⟩ := List.mem_filter.mp hm
    rw [hs.id_of_mem hin] at hid
    obtain rfl := idOf_injective hid
    exact (of_decide_eq_true hreleased).symm.trans hn.2.2
  | disposeAll => exact absurd trivial hother
  | produce n chunk =>
    obtain ⟨-, heq⟩ := Option.ite_none_right_eq_some.mp h
    exact Option.some.inj heq ▸ assign_alike hother rfl
  | data n =>
    simp only [step] at h
    split at h
    · refine Option.some.inj h ▸ Alike.trans ?_ (dataHandler_alike (fun hn => hother ?_) _)
      · exact assign_alike hother rfl
      · refine owns_assign ?_ hn
        rfl
    · cases h
  | output d i answer =>
    simp only [step] at h
    split at h
    · exact Option.some.inj h ▸ alike_rest s _ _ _
    · cases h
  | settled d i fulfilled =>
    simp only [step] at h
    split at h
    · exact Option.some.inj h ▸ alike_rest s _ _ _
    · cases h
  | react d =>
    simp only [step] at h
    split at h
    · rename_i delivery hd
      obtain ⟨-, heq⟩ := Option.ite_none_right_eq_some.mp h
      refine Option.some.inj heq ▸ Alike.trans (alike_rest s _ _ _) (resumeOutput_alike ?_)
      exact fun hn => hother ⟨delivery, hd, hn⟩
    · cases h
  | done n outcome =>
    obtain ⟨⟨h1, h2, -⟩, heq⟩ := Option.ite_none_right_eq_some.mp h
    refine Option.some.inj heq ▸ ?_
    rw [settle_eq]
    refine Alike.trans ?_ (alike_rest _ _ _ _)
    split
    · exact assign_kill_alike (tabled_ended hs n) ((hs.fits n).id h1 h2) hother rfl
    · exact assign_alike hother rfl
  | valve n =>
    obtain ⟨htimer, heq⟩ := Option.ite_none_right_eq_some.mp h
    have hn : n ∈ s.table := hs.mem_of_timer htimer
    exact Option.some.inj heq ▸
      assign_kill_alike (tabled_valve hs n) (hs.id_of_mem hn) hother rfl
  | resized n cols rows =>
    obtain ⟨-, heq⟩ := Option.ite_none_right_eq_some.mp h
    exact Option.some.inj heq ▸ assign_alike hother rfl

/-! ### The desk -/

/-- Every call acted on a terminal of its Session, and those that are not answered go on with
one. -/
structure Confined (p : Desk) : Prop where
  tabled : Tabled p.registry
  log : ∀ act ∈ p.log, ∀ n ∈ act.entry, Owns p.registry act.sessionId n
  running : ∀ call ∈ p.running, ∀ n ∈ taskEntry call.task, Owns p.registry call.sessionId n

/-- Nothing was done. -/
theorem confined_empty : Confined .empty := ⟨tabled_empty, nofun, nofun⟩

/-- An entry stays with its Session. -/
theorem Course.owns {ends closes : ℕ → Prop} (h : Course ends closes s t)
    (hn : Owns s sessionId n) : Owns t sessionId n :=
  ⟨hn.1, Nat.le_trans hn.2.1 h.ordinal, (h.ages n hn.2.1).sessionId.trans hn.2.2⟩

variable {p q : Desk}

/-- Another registry in which every entry stays with its Session, and one more act on a
terminal of its Session. -/
theorem Confined.act (hp : Confined p) {r : Registry} {running : List Running} {act : Act}
    (htabled : Tabled r) (howns : ∀ n x, Owns p.registry x n → Owns r x n)
    (hact : ∀ n ∈ act.entry, Owns r act.sessionId n)
    (hrunning : ∀ call ∈ running, call ∈ p.running ∨
      ∀ n ∈ taskEntry call.task, Owns r call.sessionId n) :
    Confined (Desk.record ⟨r, running, p.log⟩ act) := by
  refine ⟨htabled, fun x hx n hn => ?_, fun call hcall n hn => ?_⟩
  · rcases List.mem_append.mp hx with hold | hnew
    · exact howns n _ (hp.log x hold n hn)
    · obtain rfl := List.mem_singleton.mp hnew
      exact hact n hn
  · rcases hrunning call hcall with hold | hnew
    · exact howns n _ (hp.running call hold n hn)
    · exact hnew n hn

/-- A frame that attaches to a terminal of its Session. -/
theorem confined_frame (hp : Confined p) {caller : String} {id : Option String}
    {sink : TerminalSink} {attached : Except String (ℕ × Registry)}
    (hattached : ∀ n t, attached = .ok (n, t) → attachId p.registry id sink = .ok (n, t) ∧
      Owns p.registry caller n) :
    Confined (Desk.record { p with registry := (answerFrame p.registry caller attached).1 }
      (answerFrame p.registry caller attached).2) := by
  cases attached with
  | error message => exact hp.act hp.tabled (fun _ _ hn => hn) nofun fun _ => .inl
  | ok found =>
    obtain ⟨n, t⟩ := found
    obtain ⟨hok, howns⟩ := hattached n t rfl
    obtain ⟨x, -, -, hattach⟩ := attachId_ok hok
    have hcourse := course_attach hattach
    refine hp.act (tabled_attach hp.tabled hattach) (fun m y hm => hcourse.owns hm)
      (fun m hm => ?_) fun _ => .inl
    obtain rfl := Option.some.inj hm
    exact hcourse.owns howns

/-- A socket that comes back attaches to a terminal of its Session. -/
theorem reattach_owns (hs : Tabled s) {id : Option String} {sink : TerminalSink}
    (h : reattach s sessionId id sink = .ok (n, t)) :
    attachId s id sink = .ok (n, t) ∧ Owns s sessionId n := by
  obtain ⟨m, howned, hattach⟩ := bind_eq_ok_iff.mp h
  obtain ⟨hmine, hid⟩ := requireOwned_mine howned
  obtain ⟨x, rfl, hfound, -⟩ := attachId_ok hattach
  rw [← hid x rfl, hs.entryOf_own (hs.owns hmine), if_pos hmine] at hfound
  exact ⟨hattach, Except.ok.inj hfound ▸ hs.owns hmine⟩

/-- A socket attaches to the terminal that was opened for it. -/
theorem attachOpened_owns (hs : Tabled s) (hn : Owns s sessionId n) {sink : TerminalSink} {m : ℕ}
    (h : attachId s (some (s.entries n).id) sink = .ok (m, t)) : Owns s sessionId m := by
  obtain ⟨x, hx, hfound, -⟩ := attachId_ok h
  obtain rfl := Option.some.inj hx
  rw [hs.entryOf_own hn] at hfound
  split at hfound
  · exact Except.ok.inj hfound ▸ hn
  · cases hfound

/-- An event of the registry at the desk. -/
theorem deskStep_registry {e : Event} (h : deskStep env p (.registry e) = some q) :
    ∃ r, step env.options p.registry e = some r ∧ q = { p with registry := r } := by
  cases e with
  | attach => cases h
  | _ =>
    simp only [deskStep] at h
    obtain ⟨r, hr, heq⟩ := Option.map_eq_some_iff.mp h
    exact ⟨r, hr, heq.symm⟩

/-- A call that goes on. -/
theorem settleCall_cases {c : ℕ} {e : DeskEvent} (h : deskStep.settleCall p c e = some q) :
    ∃ call n reply, p.running[c]? = some call ∧ goOn p.registry call.task e = some (n, reply) ∧
      q = Desk.record { p with running := p.running.set c ⟨call.sessionId, .settled⟩ }
        ⟨call.sessionId, some n, reply⟩ := by
  unfold deskStep.settleCall at h
  split at h
  · cases h
  · rename_i call hcall
    obtain ⟨⟨n, reply⟩, hgo, rfl⟩ := Option.map_eq_some_iff.mp h
    exact ⟨call, n, reply, hcall, hgo, rfl⟩

/-- A call that goes on keeps the invariant. -/
theorem confined_settle (hp : Confined p) {c : ℕ} {e : DeskEvent}
    (h : deskStep.settleCall p c e = some q) : Confined q := by
  obtain ⟨call, n, reply, hcall, hgo, rfl⟩ := settleCall_cases h
  have hmem := List.mem_of_getElem? hcall
  refine hp.act hp.tabled (fun _ _ hn => hn) (fun m hm => ?_) fun x hx => ?_
  · obtain rfl := Option.some.inj hm
    exact hp.running call hmem n (goOn_entry hgo)
  · rcases List.mem_or_eq_of_mem_set hx with hold | rfl
    · exact .inl hold
    · exact .inr nofun

/-- Every step keeps the invariant. -/
theorem confined_step {e : DeskEvent} (hp : Confined p) (h : deskStep env p e = some q) :
    Confined q := by
  cases e with
  | registry e =>
    obtain ⟨r, hr, rfl⟩ := deskStep_registry h
    have hcourse := step_course hp.tabled hr
    exact ⟨tabled_step hp.tabled hr, fun act hact n hn => hcourse.owns (hp.log act hact n hn),
      fun call hcall n hn => hcourse.owns (hp.running call hcall n hn)⟩
  | execute caller args aborted =>
    obtain rfl := Option.some.inj h
    refine hp.act hp.tabled (fun _ _ hn => hn) (fun n hn => ?_) fun call hcall => ?_
    · cases caller with
      | none => cases hn
      | some sessionId => exact hp.tabled.owns ((begin_mine hp.tabled args aborted).1 n hn)
    · rcases List.mem_append.mp hcall with hold | hnew
      · exact .inl hold
      · obtain rfl := List.mem_singleton.mp hnew
        refine .inr fun n hn => ?_
        cases caller with
        | none => cases hn
        | some sessionId => exact hp.tabled.owns ((begin_mine hp.tabled args aborted).2 n hn)
  | written c error => exact confined_settle hp h
  | check c => exact confined_settle hp h
  | timeout c => exact confined_settle hp h
  | abort c reason => exact confined_settle hp h
  | reattach sessionId id sink =>
    obtain rfl := Option.some.inj h
    exact confined_frame hp fun n t hok => reattach_owns hp.tabled hok
  | attachOpened n sink =>
    obtain ⟨⟨h1, h2⟩, heq⟩ := Option.ite_none_right_eq_some.mp h
    obtain rfl := Option.some.inj heq
    refine confined_frame hp fun m t hok => ⟨hok, attachOpened_owns hp.tabled ?_ hok⟩
    exact ⟨h1, h2, rfl⟩

/-- In every state the desk reaches, it holds. -/
theorem confined_reachable (h : (desk env).Reachable p) : Confined p := by
  refine Machine.ReachableWhen.invariant (I := Confined) confined_empty ?_ h
  intro s e t hs _ hstep
  have hdesk : deskStep env s e = some t := hstep
  exact confined_step hs hdesk

/-! ### Who is answered from what -/

/-- The calls and frames that are made for a Session. -/
def MadeFor (p : Desk) (sessionId : String) : DeskEvent → Prop
  | .registry _ => False
  | .execute caller _ _ => caller = some sessionId
  | .reattach caller _ _ => caller = sessionId
  | .attachOpened n _ => Owns p.registry sessionId n
  | .written c _ => ∃ call, p.running[c]? = some call ∧ call.sessionId = sessionId
  | .check c => ∃ call, p.running[c]? = some call ∧ call.sessionId = sessionId
  | .timeout c => ∃ call, p.running[c]? = some call ∧ call.sessionId = sessionId
  | .abort c _ => ∃ call, p.running[c]? = some call ∧ call.sessionId = sessionId

/-- The events of the registry that are about a terminal of a Session, as they come at the
desk. -/
def DeskConcerns (p : Desk) (sessionId : String) : DeskEvent → Prop
  | .registry e => Concerns p.registry sessionId e
  | .reattach caller _ _ => caller = sessionId
  | .attachOpened n _ => Owns p.registry sessionId n
  | _ => False

/-- A call that goes on is answered alike where the Session's terminals are. -/
theorem settle_alike (hp : Confined p) {c : ℕ} {e : DeskEvent} {p' : Desk}
    (halike : Alike sessionId p.registry q.registry)
    (hcall : q.running[c]? = p.running[c]?)
    (hmade : ∃ call, p.running[c]? = some call ∧ call.sessionId = sessionId)
    (h : deskStep.settleCall p c e = some p') :
    ∃ q' act, deskStep.settleCall q c e = some q' ∧ p'.log = p.log ++ [act] ∧
      q'.log = q.log ++ [act] := by
  obtain ⟨call, n, reply, hrunning, hgo, rfl⟩ := settleCall_cases h
  obtain ⟨call', hrunning', rfl⟩ := hmade
  obtain rfl := Option.some.inj (hrunning.symm.trans hrunning')
  have hentries : ∀ n ∈ taskEntry call.task, q.registry.entries n = p.registry.entries n :=
    fun n hn => (halike.entries n (hp.running call (List.mem_of_getElem? hrunning) n hn)).2
  have hgoes : deskStep.settleCall q c e = some (Desk.record
      { q with running := q.running.set c ⟨call.sessionId, .settled⟩ }
      ⟨call.sessionId, some n, reply⟩) := by
    unfold deskStep.settleCall
    rw [hcall, hrunning]
    simp only [goOn_alike hentries, hgo, Option.map_some]
  exact ⟨_, _, hgoes, rfl, rfl⟩

/-- What a Session is answered depends on its own terminals. -/
theorem answers_alike (hp : Confined p) (hq : Confined q) {e : DeskEvent} {p' : Desk}
    (halike : Alike sessionId p.registry q.registry) (hmade : MadeFor p sessionId e)
    (hcall : ∀ c ∈ e.call, q.running[c]? = p.running[c]?) (h : deskStep env p e = some p') :
    ∃ q' act, deskStep env q e = some q' ∧ p'.log = p.log ++ [act] ∧ q'.log = q.log ++ [act] := by
  cases e with
  | registry e => exact absurd hmade id
  | execute caller args aborted =>
    obtain rfl : caller = some sessionId := hmade
    obtain rfl := Option.some.inj h
    have hbegin : begin env q.registry (some sessionId) args aborted =
        begin env p.registry (some sessionId) args aborted :=
      begin_alike halike hp.tabled hq.tabled args aborted
    have hstep : deskStep env q (.execute (some sessionId) args aborted) = some (Desk.record
        { q with running := q.running ++
          [⟨sessionId, (begin env p.registry (some sessionId) args aborted).1⟩] }
        ⟨sessionId, (begin env p.registry (some sessionId) args aborted).2.1,
          (begin env p.registry (some sessionId) args aborted).2.2⟩) := by
      simp only [deskStep, hbegin, Option.getD_some]
    exact ⟨_, _, hstep, rfl, rfl⟩
  | reattach caller id sink =>
    obtain rfl : caller = sessionId := hmade
    obtain rfl := Option.some.inj h
    refine ⟨_, (answerFrame p.registry caller (reattach p.registry caller id sink)).2, rfl, rfl, ?_⟩
    show q.log ++ [(answerFrame q.registry caller (reattach q.registry caller id sink)).2] = _
    rw [reattach_alike halike hp.tabled hq.tabled]
  | attachOpened n sink =>
    obtain ⟨-, heq⟩ := Option.ite_none_right_eq_some.mp h
    obtain rfl := Option.some.inj heq
    obtain ⟨howns, hentry⟩ := halike.entries n hmade
    refine ⟨_, (answerFrame p.registry (p.registry.entries n).sessionId
      (attachId p.registry (some (p.registry.entries n).id) sink)).2,
      if_pos ⟨howns.1, howns.2.1⟩, rfl, ?_⟩
    show q.log ++ [(answerFrame q.registry (q.registry.entries n).sessionId
      (attachId q.registry (some (q.registry.entries n).id) sink)).2] = _
    rw [hentry, answerFrame_alike halike hp.tabled hq.tabled hmade]
  | written c error => exact settle_alike hp halike (hcall c rfl) hmade h
  | check c => exact settle_alike hp halike (hcall c rfl) hmade h
  | timeout c => exact settle_alike hp halike (hcall c rfl) hmade h
  | abort c reason => exact settle_alike hp halike (hcall c rfl) hmade h

/-- A frame that attaches to a terminal of another Session. -/
theorem frame_alike {caller : String} {attached : Except String (ℕ × Registry)}
    (hattached : ∀ n t, attached = .ok (n, t) →
      (∃ id sink, attachId s id sink = .ok (n, t)) ∧ ¬ Owns s sessionId n) :
    Alike sessionId s (answerFrame s caller attached).1 := by
  cases attached with
  | error message => exact .refl _ s
  | ok found =>
    obtain ⟨n, t⟩ := found
    obtain ⟨⟨id, sink, hok⟩, hother⟩ := hattached n t rfl
    obtain ⟨x, -, hfound, hattach⟩ := attachId_ok hok
    obtain ⟨m, hget, -, rfl⟩ := attach_ok hattach
    unfold entryOf at hfound
    rw [hget] at hfound
    obtain rfl := Except.ok.inj hfound
    refine Alike.trans ?_ (alike_rest _ _ _ _)
    exact assign_alike hother rfl

/-- What is done about the terminals of others, and every call of the tool, leaves a
Session's own terminals alone. -/
theorem desk_others_alike (hp : Confined p) {e : DeskEvent}
    (hother : ¬ DeskConcerns p sessionId e) (h : deskStep env p e = some q) :
    Alike sessionId p.registry q.registry := by
  cases e with
  | registry e =>
    obtain ⟨r, hr, rfl⟩ := deskStep_registry h
    exact others_alike hp.tabled hr hother
  | execute caller args aborted =>
    obtain rfl := Option.some.inj h
    exact .refl _ _
  | reattach caller id sink =>
    obtain rfl := Option.some.inj h
    refine frame_alike fun n t hok => ?_
    obtain ⟨hattach, howns⟩ := reattach_owns hp.tabled hok
    exact ⟨⟨id, sink, hattach⟩, fun hn => hother (howns.2.2.symm.trans hn.2.2)⟩
  | attachOpened n sink =>
    obtain ⟨⟨h1, h2⟩, heq⟩ := Option.ite_none_right_eq_some.mp h
    obtain rfl := Option.some.inj heq
    refine frame_alike fun m t hok => ⟨⟨_, _, hok⟩, fun hm => hother ?_⟩
    have howns := attachOpened_owns hp.tabled ⟨h1, h2, rfl⟩ hok
    exact ⟨h1, h2, howns.2.2.symm.trans hm.2.2⟩
  | written | check | timeout | abort =>
    obtain ⟨call, n, reply, -, -, rfl⟩ := settleCall_cases h
    exact .refl _ _

/-! ### Runs -/

/-- In every state the desk reaches, whatever happened to whose terminals: every call and
every frame acted on a terminal that was opened under its Session; what a Session is answered
next is what it is answered in every other state in which its own terminals are the same;
and what happens to the terminals of others leaves its own the same. -/
theorem sessions_isolated (env : Env) (p : Desk) (h : (desk env).Reachable p) :
    (∀ act ∈ p.log, ∀ n ∈ act.entry, Owns p.registry act.sessionId n) ∧
      (∀ sessionId q, (desk env).Reachable q → Alike sessionId p.registry q.registry →
        ∀ e p', MadeFor p sessionId e → (∀ c ∈ e.call, q.running[c]? = p.running[c]?) →
          (desk env).step p e = some p' → ∃ q' act, (desk env).step q e = some q' ∧
            p'.log = p.log ++ [act] ∧ q'.log = q.log ++ [act]) ∧
      ∀ sessionId e q, ¬ DeskConcerns p sessionId e → (desk env).step p e = some q →
        Alike sessionId p.registry q.registry := by
  have hp := confined_reachable h
  refine ⟨hp.log, ?_, ?_⟩
  · intro sessionId q hq halike e p' hmade hcall hstep
    exact answers_alike hp (confined_reachable hq) halike hmade hcall hstep
  · intro sessionId e q hother hstep
    exact desk_others_alike hp hother hstep

/-- A host whose regular expressions match nothing. -/
def shellEnv : Env := ⟨shellOptions, fun _ => .ok fun _ => false⟩

/-- Two Sessions open a terminal each, and the second prints something. -/
def twoSessions : List DeskEvent :=
  [.registry (.open "s1" "/w" 80 24), .registry (.spawned 0 4711),
    .registry (.open "s2" "/v" 80 24), .registry (.spawned 1 4712),
    .registry (.produce 2 "secret".toUTF8.toList), .registry (.data 2),
    .execute (some "s2") ⟨.read, some "t2", none, none, none, none, none, none, none, none⟩ none]

/-- The first Session asks for the terminal of the second. -/
def readsForeign : DeskEvent :=
  .execute (some "s1") ⟨.read, some "t2", none, none, none, none, none, none, none, none⟩ none

/-- Each of its events can happen. -/
theorem twoSessions_isSome : ((desk shellEnv).run twoSessions).isSome = true := by
  decide +kernel

/-- The second Session closes its terminal. -/
theorem closesForeign_isSome : ((desk shellEnv).step
    (((desk shellEnv).run twoSessions).get twoSessions_isSome)
    (.registry (.kill "t2"))).isSome = true := by
  decide +kernel

/-- The first Session may ask. -/
theorem readsForeign_isSome : ((desk shellEnv).step
    (((desk shellEnv).run twoSessions).get twoSessions_isSome) readsForeign).isSome = true := by
  decide +kernel

/-- It is answered the same after that as before. -/
theorem foreign_close_unseen :
    ∃ q' act, (desk shellEnv).step (((desk shellEnv).step
        (((desk shellEnv).run twoSessions).get twoSessions_isSome)
        (.registry (.kill "t2"))).get closesForeign_isSome) readsForeign = some q' ∧
      (((desk shellEnv).step (((desk shellEnv).run twoSessions).get twoSessions_isSome)
          readsForeign).get readsForeign_isSome).log =
        (((desk shellEnv).run twoSessions).get twoSessions_isSome).log ++ [act] ∧
      q'.log = (((desk shellEnv).step
        (((desk shellEnv).run twoSessions).get twoSessions_isSome)
        (.registry (.kill "t2"))).get closesForeign_isSome).log ++ [act] := by
  have hreach := Machine.reachable_get twoSessions twoSessions_isSome
  have hclosed := (Option.some_get closesForeign_isSome).symm
  obtain ⟨-, hanswers, hothers⟩ := sessions_isolated shellEnv _ hreach
  have halike := hothers "s1" _ _ (fun hconcerns => ?_) hclosed
  · refine hanswers "s1" _ (hreach.step trivial hclosed) halike readsForeign _ rfl ?_
      (Option.some_get readsForeign_isSome).symm
    exact nofun
  · obtain ⟨n, hn, hid⟩ := hconcerns
    obtain rfl : n = 2 := idOf_injective (hid.trans (by decide +kernel))
    have hsession := hn.2.2
    revert hsession
    decide +kernel

end RemoteWorkspace.Analysis.TerminalRegistry
