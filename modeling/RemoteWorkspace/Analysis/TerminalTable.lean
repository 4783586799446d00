import Mathlib.Data.List.Nodup
import RemoteWorkspace.Analysis.TerminalTasks

/-!
# The table of terminals

An ordinal is handed out once and names one entry for good, so an id that was released never
comes back. An entry that left the table has nobody attached, no pending release and was
asked to terminate. All but six kinds of events leave the standing of every entry alone, and
the release of any number of entries is described by one equation.
-/

set_option autoImplicit false

namespace RemoteWorkspace.Analysis.TerminalRegistry

open RemoteWorkspace.Computation RemoteWorkspace.Model RemoteWorkspace.Model.TerminalRegistry

variable {options : Options} {s t : Registry}

/-! ### Ids -/

/-- The id `open` gives the terminal of an ordinal. -/
def idOf (n : ℕ) : String := "t" ++ toString n

/-- Two ordinals have two ids. -/
theorem idOf_injective {n m : ℕ} (h : idOf n = idOf m) : n = m := by
  have hdigits : toString n = toString m := (String.append_right_inj "t").mp h
  have hlist : Nat.toDigits 10 n = Nat.toDigits 10 m := by
    have := congrArg String.toList hdigits
    simpa using this
  have hvalue := congrArg (fun l => Nat.ofDigitChars 10 l 0) hlist
  simpa using hvalue

/-! ### Standing -/

/-- What an entry is apart from its streams, its counts and its size. -/
structure Standing where
  id : String
  label : String
  sessionId : String
  machine : String
  cwd : String
  state : TerminalState
  attaches : List TerminalSink
  detachTimer : Bool
  ended : Bool
  terminations : ℕ

/-- The standing of an entry. -/
def standing (entry : TerminalEntry) : Standing where
  id := entry.id
  label := entry.label
  sessionId := entry.sessionId
  machine := entry.machine
  cwd := entry.cwd
  state := entry.state
  attaches := entry.attaches
  detachTimer := entry.detachTimer
  ended := entry.handle.ended
  terminations := entry.handle.terminations

/-- What `kill` makes of a standing. -/
def Standing.released (x : Standing) : Standing :=
  { x with
    detachTimer := false, attaches := [], state := .exited, terminations := x.terminations + 1 }

/-- A step that leaves the table and the standing of every entry alone. -/
structure Still (s t : Registry) : Prop where
  standing : ∀ n, standing (t.entries n) = standing (s.entries n)
  table : t.table = s.table
  nextOrdinal : t.nextOrdinal = s.nextOrdinal

theorem Still.refl (s : Registry) : Still s s := ⟨fun _ => rfl, rfl, rfl⟩

theorem Still.trans {u : Registry} (h : Still s t) (h' : Still t u) : Still s u :=
  ⟨fun n => (h'.standing n).trans (h.standing n), h'.table.trans h.table,
    h'.nextOrdinal.trans h.nextOrdinal⟩

/-- Assigning fields of an entry that are no part of its standing. -/
theorem still_assign {n : ℕ} {entry : TerminalEntry}
    (h : standing entry = standing (s.entries n)) : Still s (s.assign n entry) := by
  refine ⟨fun m => ?_, rfl, rfl⟩
  by_cases hm : m = n
  · subst hm
    simpa [Registry.assign] using h
  · simp [Registry.assign, hm]

/-- Output is no part of a standing. -/
@[simp] theorem standing_setOutput (entry : TerminalEntry) (output : TtyOutput) :
    standing (entry.setOutput output) = standing entry := rfl

/-- Neither is the buffer. -/
@[simp] theorem standing_append (entry : TerminalEntry) (chunk : Bytes) :
    standing (append entry chunk) = standing entry := by
  unfold append
  split <;> simp only [standing]

/-- A write of the provider. -/
theorem still_writeOutput (s : Registry) (n : ℕ) (chunk : Bytes) :
    Still s (writeOutput s n chunk) := by
  unfold writeOutput
  split
  · exact .refl s
  · exact still_assign rfl

/-- A chunk that arrives. -/
theorem still_dataHandler (s : Registry) (n : ℕ) (chunk : Bytes) :
    Still s (dataHandler s n chunk) := by
  unfold dataHandler
  simp only
  split
  · exact still_assign (standing_append _ _)
  · have h : Still s (s.assign n ((append (s.entries n) chunk).setOutput
        { (append (s.entries n) chunk).handle.output with flowing := false })) :=
      still_assign (by rw [standing_setOutput, standing_append])
    exact ⟨h.standing, rfl, rfl⟩

/-- A resumed output. -/
theorem still_resumeOutput (s : Registry) (n : ℕ) : Still s (resumeOutput s n) := by
  unfold resumeOutput
  simp only
  split
  · exact still_assign rfl
  · exact .refl s

/-- The events that are not still. -/
def Regroups : Event → Prop
  | .spawned _ _ => True
  | .attach _ _ => True
  | .detach _ _ => True
  | .kill _ => True
  | .releaseSession _ => True
  | .disposeAll => True
  | .done _ _ => True
  | .valve _ => True
  | _ => False

/-- Every other event is. -/
theorem step_still {e : Event} (hregroups : ¬ Regroups e) (h : step options s e = some t) :
    Still s t := by
  cases e with
  | spawned | attach | detach | kill | releaseSession | disposeAll | done | valve =>
    exact absurd trivial hregroups
  | «open» => exact Option.some.inj h ▸ ⟨fun _ => rfl, rfl, rfl⟩
  | spawnFailed o =>
    simp only [step] at h
    split at h
    · exact Option.some.inj h ▸ ⟨fun _ => rfl, rfl, rfl⟩
    · cases h
  | produce n chunk =>
    obtain ⟨-, heq⟩ := Option.ite_none_right_eq_some.mp h
    exact Option.some.inj heq ▸ still_assign rfl
  | data n =>
    simp only [step] at h
    split at h
    · refine Option.some.inj h ▸ Still.trans ?_ (still_dataHandler _ n _)
      exact still_assign rfl
    · cases h
  | output d i answer =>
    simp only [step] at h
    split at h
    · exact Option.some.inj h ▸ ⟨fun _ => rfl, rfl, rfl⟩
    · cases h
  | settled d i fulfilled =>
    simp only [step] at h
    split at h
    · exact Option.some.inj h ▸ ⟨fun _ => rfl, rfl, rfl⟩
    · cases h
  | react d =>
    simp only [step] at h
    split at h
    · rename_i x _
      obtain ⟨-, heq⟩ := Option.ite_none_right_eq_some.mp h
      refine Option.some.inj heq ▸ Still.trans ?_ (still_resumeOutput _ x.entry)
      exact ⟨fun _ => rfl, rfl, rfl⟩
    · cases h
  | resized n cols rows =>
    obtain ⟨-, heq⟩ := Option.ite_none_right_eq_some.mp h
    exact Option.some.inj heq ▸ still_assign rfl

/-! ### The invariant -/

/-- A standing that may stand at an ordinal: an entry that was opened has the id of its
ordinal; each sink is attached once, and a release is pending only where none is; in the
table those have exited whose end was reported; and one off the table has exited, nobody is
attached to it, no release of it is pending, and its process was asked to terminate. -/
structure Fits (s : Registry) (n : ℕ) (x : Standing) : Prop where
  id : 1 ≤ n → n ≤ s.nextOrdinal → x.id = idOf n
  sinks : x.attaches.Nodup
  timer : x.detachTimer = true → x.attaches = []
  ended : n ∈ s.table → (x.state = .exited ↔ x.ended = true)
  gone : n ∉ s.table → x.attaches = [] ∧ x.state = .exited ∧ x.detachTimer = false
  asked : n ∉ s.table → 1 ≤ n → n ≤ s.nextOrdinal → 0 < x.terminations

/-- The table lists entries that were opened, each once, and every entry fits. -/
structure Tabled (s : Registry) : Prop where
  listed : ∀ n ∈ s.table, 1 ≤ n ∧ n ≤ s.nextOrdinal
  nodup : s.table.Nodup
  fits : ∀ n, Fits s n (standing (s.entries n))

/-- A new registry. -/
theorem tabled_empty : Tabled .empty := by
  refine ⟨nofun, List.nodup_nil, fun n => ?_⟩
  have hnone (h1 : 1 ≤ n) (h2 : n ≤ 0) : False := by omega
  exact ⟨fun h1 h2 => absurd (hnone h1 h2) id, List.nodup_nil, nofun, nofun,
    fun _ => ⟨rfl, rfl, rfl⟩, fun _ h1 h2 => absurd (hnone h1 h2) id⟩

/-- A still step keeps it. -/
theorem Tabled.still (hs : Tabled s) (h : Still s t) : Tabled t := by
  obtain ⟨hstanding, htable, hordinal⟩ := h
  refine ⟨?_, htable ▸ hs.nodup, fun n => ?_⟩
  · rw [htable, hordinal]
    exact hs.listed
  · have hfits := hs.fits n
    rw [← hstanding n] at hfits
    exact ⟨hordinal ▸ hfits.id, hfits.sinks, hfits.timer, htable ▸ hfits.ended,
      htable ▸ hfits.gone, htable ▸ hordinal ▸ hfits.asked⟩

/-- An id of an entry in the table is that of its ordinal. -/
theorem Tabled.id_of_mem (hs : Tabled s) {n : ℕ} (hn : n ∈ s.table) :
    (s.entries n).id = idOf n :=
  (hs.fits n).id (hs.listed n hn).1 (hs.listed n hn).2

/-- A release is pending for entries in the table. -/
theorem Tabled.mem_of_timer (hs : Tabled s) {n : ℕ} (h : (s.entries n).detachTimer = true) :
    n ∈ s.table := by
  by_contra hoff
  have huntimed : (s.entries n).detachTimer = false := ((hs.fits n).gone hoff).2.2
  rw [h] at huntimed
  cases huntimed

/-- An id finds the entry of its ordinal, and only while that is in the table. -/
theorem Tabled.get_eq_some (hs : Tabled s) {id : String} {n : ℕ} :
    s.get id = some n ↔ n ∈ s.table ∧ id = idOf n := by
  constructor
  · intro h
    have hmem := List.mem_of_find?_eq_some h
    have hid := List.find?_some h
    simp only [decide_eq_true_eq] at hid
    exact ⟨hmem, by rw [← hid, hs.id_of_mem hmem]⟩
  · rintro ⟨hmem, rfl⟩
    unfold Registry.get
    obtain ⟨m, hm⟩ : ∃ m, s.table.find? (fun m => decide ((s.entries m).id = idOf n)) = some m := by
      refine Option.isSome_iff_exists.mp ?_
      rw [List.find?_isSome]
      exact ⟨n, hmem, decide_eq_true (hs.id_of_mem hmem)⟩
    rw [hm]
    have hid := List.find?_some hm
    simp only [decide_eq_true_eq] at hid
    rw [hs.id_of_mem (List.mem_of_find?_eq_some hm)] at hid
    rw [idOf_injective hid]

/-! ### Releases -/

/-- A step that takes the entries of `P` off the table, releases those it takes off, and does
nothing else. -/
structure Releases (P : ℕ → Prop) (s t : Registry) : Prop where
  table : ∀ n, n ∈ t.table ↔ n ∈ s.table ∧ ¬ P n
  sublist : t.table.Sublist s.table
  taken : ∀ n ∈ s.table, P n → standing (t.entries n) = (standing (s.entries n)).released
  others : ∀ n, ¬ (n ∈ s.table ∧ P n) → standing (t.entries n) = standing (s.entries n)
  nextOrdinal : t.nextOrdinal = s.nextOrdinal
  openings : t.openings = s.openings
  reports : t.reports = s.reports

/-- Nothing is released. -/
theorem Releases.refl {P : ℕ → Prop} (h : ∀ n ∈ s.table, ¬ P n) : Releases P s s := by
  refine ⟨fun n => ?_, List.Sublist.refl _, fun n hn hP => absurd hP (h n hn),
    fun _ _ => rfl, rfl, rfl, rfl⟩
  constructor
  · intro hn
    exact ⟨hn, h n hn⟩
  · rintro ⟨hn, -⟩
    exact hn

/-- Two releases after each other. -/
theorem Releases.trans {P Q : ℕ → Prop} {u : Registry} (h : Releases P s t)
    (h' : Releases Q t u) : Releases (fun n => P n ∨ Q n) s u := by
  refine ⟨fun n => ?_, h'.sublist.trans h.sublist, fun n hn hPQ => ?_, fun n hn => ?_,
    h'.nextOrdinal.trans h.nextOrdinal, h'.openings.trans h.openings,
    h'.reports.trans h.reports⟩
  · rw [h'.table, h.table, not_or, and_assoc]
  · by_cases hP : P n
    · rw [h'.others n fun hQ => ((h.table n).mp hQ.1).2 hP, h.taken n hn hP]
    · rw [h'.taken n ((h.table n).mpr ⟨hn, hP⟩) (hPQ.resolve_left hP),
        h.others n fun hP' => hP hP'.2]
  · rw [h'.others n fun hQ => hn ⟨((h.table n).mp hQ.1).1, .inr hQ.2⟩,
      h.others n fun hP => hn ⟨hP.1, .inl hP.2⟩]

/-- Two ways to say which entries of the table are released. -/
theorem Releases.congr {P Q : ℕ → Prop} (h : Releases P s t) (hPQ : ∀ n ∈ s.table, P n ↔ Q n) :
    Releases Q s t := by
  refine ⟨fun n => ?_, h.sublist, fun n hn hQ => h.taken n hn ((hPQ n hn).mpr hQ),
    fun n hn => h.others n fun hP => hn ⟨hP.1, (hPQ n hP.1).mp hP.2⟩, h.nextOrdinal, h.openings,
    h.reports⟩
  rw [h.table]
  exact and_congr_right fun hn => not_congr (hPQ n hn)

/-- A release keeps the invariant. -/
theorem Tabled.releases {P : ℕ → Prop} (hs : Tabled s) (h : Releases P s t) : Tabled t := by
  refine ⟨fun n hn => ?_, h.sublist.nodup hs.nodup, fun n => ?_⟩
  · rw [h.nextOrdinal]
    exact hs.listed n ((h.table n).mp hn).1
  · have hfits := hs.fits n
    by_cases hn : n ∈ s.table ∧ P n
    · have hoff : n ∉ t.table := fun hin => ((h.table n).mp hin).2 hn.2
      rw [h.taken n hn.1 hn.2]
      exact ⟨h.nextOrdinal ▸ hfits.id, List.nodup_nil, fun _ => rfl, fun hin => absurd hin hoff,
        fun _ => ⟨rfl, rfl, rfl⟩, fun _ _ _ => Nat.succ_pos _⟩
    · have hsame : n ∈ t.table ↔ n ∈ s.table := by
        rw [h.table]
        exact and_iff_left_of_imp fun hin hP => hn ⟨hin, hP⟩
      rw [h.others n hn]
      exact ⟨h.nextOrdinal ▸ hfits.id, hfits.sinks, hfits.timer,
        fun hin => hfits.ended (hsame.mp hin), fun hoff => hfits.gone (hsame.not.mp hoff),
        fun hoff => h.nextOrdinal ▸ hfits.asked (hsame.not.mp hoff)⟩

/-- `kill` releases the entry of its id. -/
theorem kill_releases (hs : Tabled s) (id : String) :
    Releases (fun n => idOf n = id) s (kill s id) := by
  unfold kill
  split
  · rename_i hget
    refine .refl fun n hn hid => ?_
    rw [hs.get_eq_some.mpr ⟨hn, hid.symm⟩] at hget
    cases hget
  · rename_i n hget
    obtain ⟨hn, rfl⟩ := hs.get_eq_some.mp hget
    refine ⟨fun m => ?_, List.filter_sublist, fun m hm hid => ?_, fun m hm => ?_, rfl, rfl, rfl⟩
    · show m ∈ s.table.filter (· ≠ n) ↔ m ∈ s.table ∧ ¬ idOf m = idOf n
      rw [List.mem_filter, decide_eq_true_eq]
      exact and_congr_right fun _ => not_congr ⟨congrArg idOf, idOf_injective⟩
    · obtain rfl := idOf_injective hid
      simp [Registry.assign, standing, Standing.released]
    · have hmn : m ≠ n := by
        rintro rfl
        exact hm ⟨hn, rfl⟩
      simp [Registry.assign, hmn]

/-- Any number of kills release the entries of their ids. -/
theorem kills_releases (hs : Tabled s) (ids : List String) :
    Releases (fun n => idOf n ∈ ids) s (ids.foldl kill s) := by
  induction ids generalizing s with
  | nil => exact .refl fun n _ => List.not_mem_nil
  | cons id ids ih =>
    have hkill := kill_releases hs id
    have hrest := ih (hs.releases hkill)
    exact (hkill.trans hrest).congr fun n _ => List.mem_cons.symm

/-- `releaseSession` releases the entries of its Session. -/
theorem releaseSession_releases (hs : Tabled s) (sessionId : String) :
    Releases (fun n => (s.entries n).sessionId = sessionId) s (releaseSession s sessionId) := by
  refine (kills_releases hs _).congr fun n hn => ?_
  constructor
  · intro hid
    obtain ⟨m, hm, hidm⟩ := List.mem_map.mp hid
    obtain ⟨hmem, hsession⟩ := List.mem_filter.mp hm
    rw [hs.id_of_mem hmem] at hidm
    obtain rfl := idOf_injective hidm
    exact of_decide_eq_true hsession
  · intro hsession
    refine List.mem_map.mpr ⟨n, ?_, hs.id_of_mem hn⟩
    exact List.mem_filter.mpr ⟨hn, decide_eq_true hsession⟩

/-- `disposeAll` releases every entry. -/
theorem disposeAll_releases (hs : Tabled s) : Releases (fun _ => True) s (disposeAll s) := by
  refine (kills_releases hs _).congr fun n hn => ?_
  exact iff_of_true (List.mem_map.mpr ⟨n, hn, hs.id_of_mem hn⟩) trivial

/-! ### The other steps -/

/-- An entry is assigned a standing that fits. -/
theorem Tabled.place (hs : Tabled s) {n : ℕ} {entry : TerminalEntry}
    (h : Fits s n (standing entry)) : Tabled (s.assign n entry) := by
  have hfits : ∀ m, Fits s m (standing ((s.assign n entry).entries m)) := by
    intro m
    by_cases hm : m = n
    · subst hm
      simpa [Registry.assign] using h
    · simpa [Registry.assign, hm] using hs.fits m
  exact ⟨hs.listed, hs.nodup, fun m =>
    ⟨(hfits m).id, (hfits m).sinks, (hfits m).timer, (hfits m).ended, (hfits m).gone,
      (hfits m).asked⟩⟩

/-- What an entry in the table has to meet. -/
theorem Tabled.fits_listed (hs : Tabled s) {n : ℕ} {x : Standing} (hn : n ∈ s.table)
    (hid : x.id = (s.entries n).id) (hsinks : x.attaches.Nodup)
    (htimer : x.detachTimer = true → x.attaches = [])
    (hended : x.state = .exited ↔ x.ended = true) : Fits s n x :=
  ⟨fun h1 h2 => hid.trans ((hs.fits n).id h1 h2), hsinks, htimer, fun _ => hended, absurd hn,
    absurd hn⟩

/-- A shell that was registered. -/
theorem tabled_spawned (hs : Tabled s) {o pid : ℕ} {opening : Opening} :
    Tabled (opened options s o opening pid) := by
  have hmem : ∀ m, m ∈ (opened options s o opening pid).table ↔
      m ∈ s.table ∨ m = s.nextOrdinal + 1 := fun m => by simp [opened]
  have hordinal : (opened options s o opening pid).nextOrdinal = s.nextOrdinal + 1 := rfl
  have hnew : s.nextOrdinal + 1 ∉ s.table := fun h =>
    absurd (hs.listed _ h).2 (Nat.not_succ_le_self _)
  refine ⟨fun m hm => ?_, ?_, fun m => ?_⟩
  · rcases (hmem m).mp hm with hold | rfl
    · have := hs.listed m hold
      omega
    · omega
  · exact nodup_concat hs.nodup hnew
  · by_cases hm : m = s.nextOrdinal + 1
    · subst hm
      have hself : (opened options s o opening pid).entries (s.nextOrdinal + 1) =
          openedEntry options (s.nextOrdinal + 1) opening pid := Function.update_self ..
      have hin := (hmem (s.nextOrdinal + 1)).mpr (.inr rfl)
      rw [hself]
      exact ⟨fun _ _ => rfl, List.nodup_nil, fun _ => rfl,
        fun _ => by simp [standing, openedEntry], absurd hin, absurd hin⟩
    · have hother : (opened options s o opening pid).entries m = s.entries m :=
        Function.update_of_ne hm ..
      have hsame : m ∈ (opened options s o opening pid).table ↔ m ∈ s.table := by
        rw [hmem]
        exact or_iff_left hm
      have hle (h : m ≤ s.nextOrdinal + 1) : m ≤ s.nextOrdinal := by omega
      have hfits := hs.fits m
      rw [hother]
      exact ⟨fun h1 h2 => hfits.id h1 (hle h2), hfits.sinks, hfits.timer,
        fun hin => hfits.ended (hsame.mp hin), fun hoff => hfits.gone (hsame.not.mp hoff),
        fun hoff h1 h2 => hfits.asked (hsame.not.mp hoff) h1 (hle h2)⟩

/-- What a sink was told is no part of the table. -/
theorem Tabled.told (hs : Tabled s) (reports : List (TerminalSink × Report)) :
    Tabled { s with reports := reports } :=
  hs.still ⟨fun _ => rfl, rfl, rfl⟩

/-- An accepted attach. -/
theorem tabled_attach (hs : Tabled s) {id : String} {sink : TerminalSink}
    (h : attach s id sink = .ok t) : Tabled t := by
  obtain ⟨n, hget, hlive, rfl⟩ := attach_ok h
  have hn := (hs.get_eq_some.mp hget).1
  have hended : (s.entries n).state = .exited ↔ (s.entries n).handle.ended = true :=
    (hs.fits n).ended hn
  refine Tabled.told ?_ _
  apply Tabled.place hs
  refine hs.fits_listed hn rfl ?_ (fun h => ?_) ?_
  · show (if sink ∈ (s.entries n).attaches then (s.entries n).attaches
      else (s.entries n).attaches ++ [sink]).Nodup
    split
    · exact (hs.fits n).sinks
    · rename_i hnew
      exact nodup_concat (hs.fits n).sinks hnew
  · cases h
  · show (if (s.entries n).state = .detached then .running else (s.entries n).state) = _ ↔
      (s.entries n).handle.ended = true
    rw [← hended]
    split
    · rename_i hdetached
      simp [hdetached]
    · exact Iff.rfl

/-- A sink that left. -/
theorem tabled_left (hs : Tabled s) {n : ℕ} (hn : n ∈ s.table) (sink : TerminalSink) :
    Tabled (s.assign n { s.entries n with
      attaches := (s.entries n).attaches.filter (· ≠ sink) }) := by
  have hfits := hs.fits n
  refine hs.place (hs.fits_listed hn rfl (hfits.sinks.filter _) (fun htimer => ?_)
    (hfits.ended hn))
  have hnone : (s.entries n).attaches = [] := hfits.timer htimer
  show (s.entries n).attaches.filter (· ≠ sink) = []
  rw [hnone]
  rfl

/-- A detach. -/
theorem tabled_detach (hs : Tabled s) (id : String) (sink : TerminalSink) :
    Tabled (detach options s id sink) := by
  unfold detach
  split
  · exact hs
  · rename_i n hget
    have hn := (hs.get_eq_some.mp hget).1
    have hfits := hs.fits n
    have hleft := tabled_left hs hn sink
    simp only
    split
    · exact hleft
    · rename_i hnone
      split
      · exact hleft.releases (kill_releases hleft id)
      · rename_i hlive
        refine hs.place (hs.fits_listed hn rfl (hfits.sinks.filter _)
          (fun _ => not_not.mp hnone) ?_)
        refine iff_of_false (fun h => by cases h) fun hended => hlive ?_
        exact (hfits.ended hn).mpr hended

/-- The entry whose process ended, before it is released. -/
theorem tabled_ended (hs : Tabled s) (n : ℕ) :
    Tabled (s.assign n { s.entries n with
      state := .exited, handle := { (s.entries n).handle with ended := true } }) := by
  have hfits := hs.fits n
  exact hs.place ⟨hfits.id, hfits.sinks, hfits.timer, fun _ => iff_of_true rfl rfl,
    fun hoff => ⟨(hfits.gone hoff).1, rfl, (hfits.gone hoff).2.2⟩, hfits.asked⟩

/-- The end of a process. -/
theorem tabled_settle (hs : Tabled s) (n : ℕ) (report : Report) :
    Tabled (settle s n report) := by
  have htold := (tabled_ended hs n).told
    (s.reports ++ (s.entries n).attaches.map fun k => (k, report))
  simp only [settle]
  split
  · exact htold.releases (kill_releases htold _)
  · exact htold

/-- The detach valve. -/
theorem tabled_valve (hs : Tabled s) (n : ℕ) :
    Tabled (s.assign n { s.entries n with detachTimer := false }) := by
  have hfits := hs.fits n
  exact hs.place ⟨hfits.id, hfits.sinks, nofun, hfits.ended,
    fun hoff => ⟨(hfits.gone hoff).1, (hfits.gone hoff).2.1, rfl⟩, hfits.asked⟩

/-- Every step keeps the invariant. -/
theorem tabled_step {e : Event} (hs : Tabled s) (h : step options s e = some t) : Tabled t := by
  cases e with
  | spawned o pid =>
    simp only [step] at h
    split at h
    · exact Option.some.inj h ▸ tabled_spawned hs
    · cases h
  | attach id sink =>
    simp only [step] at h
    split at h
    · rename_i hattach
      exact Option.some.inj h ▸ tabled_attach hs hattach
    · exact Option.some.inj h ▸ hs
  | detach id sink => exact Option.some.inj h ▸ tabled_detach hs id sink
  | kill id => exact Option.some.inj h ▸ hs.releases (kill_releases hs id)
  | releaseSession sessionId =>
    exact Option.some.inj h ▸ hs.releases (releaseSession_releases hs sessionId)
  | disposeAll => exact Option.some.inj h ▸ hs.releases (disposeAll_releases hs)
  | done n outcome =>
    obtain ⟨-, heq⟩ := Option.ite_none_right_eq_some.mp h
    exact Option.some.inj heq ▸ tabled_settle hs n (reportOf outcome)
  | valve n =>
    obtain ⟨-, heq⟩ := Option.ite_none_right_eq_some.mp h
    have hvalve := tabled_valve hs n
    exact Option.some.inj heq ▸ hvalve.releases (kill_releases hvalve _)
  | _ => exact hs.still (step_still id h)

/-! ### The course of an entry -/

/-- What becomes of a standing: it keeps its names, its Session and its place; an end stays,
and `done` says whether there is one more; an entry that has exited is watched by nobody
new. -/
structure Ages (done : Prop) (x y : Standing) : Prop where
  id : y.id = x.id
  label : y.label = x.label
  sessionId : y.sessionId = x.sessionId
  machine : y.machine = x.machine
  cwd : y.cwd = x.cwd
  terminations : x.terminations ≤ y.terminations
  ended : y.ended = true ↔ x.ended = true ∨ done
  watched : x.state = .exited → ∀ k ∈ y.attaches, k ∈ x.attaches

theorem Ages.refl {done : Prop} (x : Standing) (h : ¬ done) : Ages done x x :=
  ⟨rfl, rfl, rfl, rfl, rfl, Nat.le_refl _, (or_iff_left h).symm, fun _ _ hk => hk⟩

/-- What `kill` makes of a standing. -/
theorem ages_released {done : Prop} (x : Standing) (h : ¬ done) : Ages done x x.released :=
  ⟨rfl, rfl, rfl, rfl, rfl, Nat.le_succ _, (or_iff_left h).symm, fun _ => nofun⟩

/-- The entry whose end an event reports. -/
def EndOf : Event → ℕ → Prop
  | .done m _, n => m = n
  | _, _ => False

/-- The entries an event ends from outside: the close route, the end of a Session and the
unload of the plugin. -/
def Closes (s : Registry) : Event → ℕ → Prop
  | .kill id, n => (s.entries n).id = id
  | .releaseSession sessionId, n => (s.entries n).sessionId = sessionId
  | .disposeAll, _ => True
  | _, _ => False

/-- What a step does to the entries that are there and to the table, when it reports the end
of those in `ends` and closes those in `closes`: what leaves the table without being closed
has exited or is watched by nobody, and what is new was just opened. -/
structure Course (ends closes : ℕ → Prop) (s t : Registry) : Prop where
  ordinal : s.nextOrdinal ≤ t.nextOrdinal
  ages : ∀ n ≤ s.nextOrdinal, Ages (ends n) (standing (s.entries n)) (standing (t.entries n))
  entered : ∀ n ∈ t.table, n ∈ s.table ∨ s.nextOrdinal < n
  left : ∀ n ∈ s.table, n ∉ t.table → closes n ∨ (s.entries n).state = .exited ∨
    (s.entries n).attaches = []
  fresh : ∀ n, s.nextOrdinal < n → n ≤ t.nextOrdinal → (t.entries n).handle.ended = false

variable {ends closes : ℕ → Prop}

/-- A still step. -/
theorem Course.of_still (h : Still s t) (hends : ∀ n, ¬ ends n) : Course ends closes s t := by
  refine ⟨Nat.le_of_eq h.nextOrdinal.symm, fun n _ => ?_, fun n hn => ?_, fun n hn hoff => ?_,
    fun n h1 h2 => ?_⟩
  · rw [h.standing]
    exact .refl _ (hends n)
  · exact .inl (h.table ▸ hn)
  · exact absurd (h.table ▸ hn) hoff
  · exact absurd (h.nextOrdinal ▸ h2) (Nat.not_le.mpr h1)

/-- A release of what is closed. -/
theorem Course.of_releases (h : Releases closes s t) (hends : ∀ n, ¬ ends n) :
    Course ends closes s t := by
  refine ⟨Nat.le_of_eq h.nextOrdinal.symm, fun n _ => ?_, fun n hn => ?_, fun n hn hoff => ?_,
    fun n h1 h2 => ?_⟩
  · by_cases hn : n ∈ s.table ∧ closes n
    · rw [h.taken n hn.1 hn.2]
      exact ages_released _ (hends n)
    · rw [h.others n hn]
      exact .refl _ (hends n)
  · exact .inl ((h.table n).mp hn).1
  · exact .inl (by_contra fun hP => hoff ((h.table n).mpr ⟨hn, hP⟩))
  · exact absurd (h.nextOrdinal ▸ h2) (Nat.not_le.mpr h1)

/-- A step that touches one entry, and takes it off the table at most when it has exited or
nobody watches it. -/
theorem Course.of_entry {n : ℕ}
    (hothers : ∀ m, m ≠ n → standing (t.entries m) = standing (s.entries m))
    (hself : Ages (ends n) (standing (s.entries n)) (standing (t.entries n)))
    (hends : ∀ m, m ≠ n → ¬ ends m) (hordinal : t.nextOrdinal = s.nextOrdinal)
    (htable : ∀ m ∈ t.table, m ∈ s.table)
    (hleft : ∀ m ∈ s.table, m ∉ t.table → m = n ∧
      ((s.entries n).state = .exited ∨ (s.entries n).attaches = [])) :
    Course ends closes s t := by
  refine ⟨Nat.le_of_eq hordinal.symm, fun m _ => ?_, fun m hm => .inl (htable m hm),
    fun m hm hoff => ?_, fun m h1 h2 => absurd (hordinal ▸ h2) (Nat.not_le.mpr h1)⟩
  · by_cases hm : m = n
    · rw [hm]
      exact hself
    · rw [hothers m hm]
      exact .refl _ (hends m hm)
  · obtain ⟨rfl, hover⟩ := hleft m hm hoff
    exact .inr hover

/-- One entry assigned. -/
theorem Course.of_assign {n : ℕ} {entry : TerminalEntry}
    (hself : Ages (ends n) (standing (s.entries n)) (standing entry))
    (hends : ∀ m, m ≠ n → ¬ ends m) : Course ends closes s (s.assign n entry) := by
  refine .of_entry (fun m hm => ?_) ?_ hends rfl (fun _ => id) fun m hm hoff => absurd hm hoff
  · simp [Registry.assign, hm]
  · simpa [Registry.assign] using hself

/-- One entry assigned and then released, when it has exited or nobody watches it. -/
theorem Course.of_assign_kill {n : ℕ} {entry : TerminalEntry} {id : String}
    (hassigned : Tabled (s.assign n entry)) (hid : id = idOf n)
    (hself : Ages (ends n) (standing (s.entries n)) (standing entry))
    (hends : ∀ m, m ≠ n → ¬ ends m)
    (hover : (s.entries n).state = .exited ∨ (s.entries n).attaches = []) :
    Course ends closes s (kill (s.assign n entry) id) := by
  subst hid
  have hkill := kill_releases hassigned (idOf n)
  have hentry : (s.assign n entry).entries n = entry := Function.update_self ..
  refine .of_entry (fun m hm => ?_) ?_ hends hkill.nextOrdinal (fun m hm => ?_)
    fun m hm hoff => ?_
  · rw [hkill.others m fun h => hm (idOf_injective h.2)]
    simp [Registry.assign, hm]
  · by_cases hn : n ∈ s.table
    · rw [hkill.taken n hn rfl, hentry]
      exact ⟨hself.id, hself.label, hself.sessionId, hself.machine, hself.cwd,
        Nat.le_succ_of_le hself.terminations, hself.ended,
        fun _ k hk => absurd hk List.not_mem_nil⟩
    · rw [hkill.others n fun h => hn h.1, hentry]
      exact hself
  · exact ((hkill.table m).mp hm).1
  · have hid : idOf m = idOf n := by_contra fun h => hoff ((hkill.table m).mpr ⟨hm, h⟩)
    obtain rfl := idOf_injective hid
    exact ⟨rfl, hover⟩

/-- A shell that was registered. -/
theorem course_spawned {o pid : ℕ} {opening : Opening} :
    Course (fun _ => False) (fun _ => False) s (opened options s o opening pid) := by
  have hother : ∀ m, m ≠ s.nextOrdinal + 1 →
      (opened options s o opening pid).entries m = s.entries m :=
    fun m hm => Function.update_of_ne hm ..
  refine ⟨Nat.le_succ _, fun m hm => ?_, fun m hm => ?_, fun m hm hoff => ?_,
    fun m h1 h2 => ?_⟩
  · rw [hother m (by omega)]
    exact .refl _ not_false
  · rcases List.mem_append.mp hm with hold | hnew
    · exact .inl hold
    · exact .inr (List.mem_singleton.mp hnew ▸ Nat.lt_succ_self _)
  · exact absurd (List.mem_append.mpr (.inl hm)) hoff
  · have hm : m = s.nextOrdinal + 1 := by
      have : m ≤ s.nextOrdinal + 1 := h2
      omega
    subst hm
    simp [opened, Registry.assign, openedEntry]

/-- An accepted attach. -/
theorem course_attach {id : String} {sink : TerminalSink} (h : attach s id sink = .ok t) :
    Course (fun _ => False) (fun _ => False) s t := by
  obtain ⟨n, -, hlive, rfl⟩ := attach_ok h
  have hassign : Course (fun _ => False) (fun _ => False) s (s.assign n { s.entries n with
      detachTimer := false
      state := if (s.entries n).state = .detached then .running else (s.entries n).state
      attaches := if sink ∈ (s.entries n).attaches then (s.entries n).attaches
        else (s.entries n).attaches ++ [sink] }) := by
    refine .of_assign ?_ fun _ _ => not_false
    exact ⟨rfl, rfl, rfl, rfl, rfl, Nat.le_refl _, (or_iff_left not_false).symm,
      fun hexited => absurd hexited hlive⟩
  exact ⟨hassign.ordinal, hassign.ages, hassign.entered, hassign.left, hassign.fresh⟩

/-- A detach. -/
theorem course_detach (hs : Tabled s) (id : String) (sink : TerminalSink) :
    Course (fun _ => False) (fun _ => False) s (detach options s id sink) := by
  have hleft (n : ℕ) (state : TerminalState) (timer : Bool) :
      Ages False (standing (s.entries n)) (standing { s.entries n with
        attaches := (s.entries n).attaches.filter (· ≠ sink), state := state,
        detachTimer := timer }) := by
    refine ⟨rfl, rfl, rfl, rfl, rfl, Nat.le_refl _, (or_false _).to_iff.symm, fun _ k hk => ?_⟩
    exact (List.mem_filter.mp hk).1
  unfold detach
  split
  · exact .of_still (.refl s) fun _ => not_false
  · rename_i n hget
    obtain ⟨hn, rfl⟩ := hs.get_eq_some.mp hget
    simp only
    split
    · exact .of_assign (hleft n _ _) fun _ _ => not_false
    · split
      · rename_i hexited
        exact .of_assign_kill (tabled_left hs hn sink) rfl (hleft n _ _) (fun _ _ => not_false)
          (.inl hexited)
      · exact .of_assign (hleft n _ _) fun _ _ => not_false

/-- What a sink was told is no part of a course. -/
theorem Course.told (h : Course ends closes s t) (reports : List (TerminalSink × Report)) :
    Course ends closes s { t with reports := reports } :=
  ⟨h.ordinal, h.ages, h.entered, h.left, h.fresh⟩

/-- Neither does `kill` look at it. -/
theorem kill_told (s : Registry) (id : String) (reports : List (TerminalSink × Report)) :
    kill { s with reports := reports } id = { kill s id with reports := reports } := by
  have hget : ({ s with reports := reports } : Registry).get id = s.get id := rfl
  unfold kill
  rw [hget]
  split <;> rfl

/-- An entry whose process ended. -/
theorem settle_eq (s : Registry) (n : ℕ) (report : Report) :
    settle s n report = { (if (s.entries n).attaches = [] then
        kill (s.assign n { s.entries n with
          state := .exited, handle := { (s.entries n).handle with ended := true } })
          (s.entries n).id
      else s.assign n { s.entries n with
        state := .exited, handle := { (s.entries n).handle with ended := true } }) with
      reports := s.reports ++ (s.entries n).attaches.map fun sink => (sink, report) } := by
  simp only [settle]
  split
  · exact kill_told _ _ _
  · rfl

/-- The end of a process. -/
theorem course_settle (hs : Tabled s) {n : ℕ} (h1 : 1 ≤ n) (h2 : n ≤ s.nextOrdinal)
    (report : Report) : Course (fun m => n = m) (fun _ => False) s (settle s n report) := by
  have hself : Ages (n = n) (standing (s.entries n)) (standing { s.entries n with
      state := .exited, handle := { (s.entries n).handle with ended := true } }) := by
    refine ⟨rfl, rfl, rfl, rfl, rfl, Nat.le_refl _, ?_, fun _ _ hk => hk⟩
    exact iff_of_true rfl (.inr rfl)
  have hends : ∀ m, m ≠ n → ¬ n = m := fun m hm h => hm h.symm
  rw [settle_eq]
  refine Course.told ?_ _
  split
  · rename_i hnone
    have hid : (s.entries n).id = idOf n := (hs.fits n).id h1 h2
    exact .of_assign_kill (tabled_ended hs n) hid hself hends (.inr hnone)
  · exact .of_assign hself hends

/-- The detach valve. -/
theorem course_valve (hs : Tabled s) {n : ℕ} (htimer : (s.entries n).detachTimer = true) :
    Course (fun _ => False) (fun _ => False) s
      (kill (s.assign n { s.entries n with detachTimer := false }) (s.entries n).id) := by
  have hn : n ∈ s.table := hs.mem_of_timer htimer
  have hself : Ages False (standing (s.entries n))
      (standing { s.entries n with detachTimer := false }) :=
    ⟨rfl, rfl, rfl, rfl, rfl, Nat.le_refl _, (or_false _).to_iff.symm, fun _ _ hk => hk⟩
  exact .of_assign_kill (tabled_valve hs n) (hs.id_of_mem hn) hself (fun _ _ => not_false)
    (.inr ((hs.fits n).timer htimer))

/-- What every step does to the entries and to the table. -/
theorem step_course {e : Event} (hs : Tabled s) (h : step options s e = some t) :
    Course (EndOf e) (Closes s e) s t := by
  cases e with
  | spawned o pid =>
    simp only [step] at h
    split at h
    · exact Option.some.inj h ▸ course_spawned
    · cases h
  | attach id sink =>
    simp only [step] at h
    split at h
    · rename_i hattach
      exact Option.some.inj h ▸ course_attach hattach
    · exact Option.some.inj h ▸ .of_still (.refl s) fun _ => not_false
  | detach id sink => exact Option.some.inj h ▸ course_detach hs id sink
  | kill id =>
    refine Option.some.inj h ▸ .of_releases ((kill_releases hs id).congr fun n hn => ?_)
      fun _ => not_false
    rw [← hs.id_of_mem hn]
    exact Iff.rfl
  | releaseSession sessionId =>
    exact Option.some.inj h ▸
      .of_releases (releaseSession_releases hs sessionId) fun _ => not_false
  | disposeAll =>
    exact Option.some.inj h ▸ .of_releases (disposeAll_releases hs) fun _ => not_false
  | done n outcome =>
    obtain ⟨⟨h1, h2, -⟩, heq⟩ := Option.ite_none_right_eq_some.mp h
    exact Option.some.inj heq ▸ course_settle hs h1 h2 (reportOf outcome)
  | valve n =>
    obtain ⟨htimer, heq⟩ := Option.ite_none_right_eq_some.mp h
    exact Option.some.inj heq ▸ course_valve hs htimer
  | _ => exact .of_still (step_still id h) fun _ => not_false

/-- Every event of the loop keeps it. -/
theorem tabled_hostStep {p q : Host} {e : HostEvent} (hp : Tabled p.registry)
    (h : hostStep options p e = some q) : Tabled q.registry := by
  cases hostStep_moves h with
  | published => exact hp.still (still_writeOutput _ _ _)
  | finished => exact hp.still (still_writeOutput _ _ _)
  | reported _ hstep => exact tabled_step hp hstep
  | stepped _ hstep => exact tabled_step hp hstep

/-- Only a shell that is registered takes an ordinal. -/
theorem step_ordinal {e : Event} (h : step options s e = some t)
    (he : ∀ o pid, e ≠ .spawned o pid) : t.nextOrdinal = s.nextOrdinal := by
  cases e with
  | spawned o pid => exact absurd rfl (he o pid)
  | attach id sink =>
    simp only [step] at h
    split at h
    · rename_i hattach
      obtain ⟨n, -, -, rfl⟩ := attach_ok hattach
      exact Option.some.inj h ▸ rfl
    · exact Option.some.inj h ▸ rfl
  | produce | data | output | settled | react => exact (step_still id h).nextOrdinal
  | _ => exact (step_steady id h).nextOrdinal

/-- Two ways to say whose end is reported. -/
theorem Course.congr {ends' : ℕ → Prop} (h : Course ends closes s t)
    (hends : ∀ n, ends n ↔ ends' n) : Course ends' closes s t := by
  refine ⟨h.ordinal, fun n hn => ?_, h.entered, h.left, h.fresh⟩
  rw [← hends]
  exact h.ages n hn

/-- The entries an event of the loop ends from outside. -/
def HostCloses (s : Registry) : HostEvent → ℕ → Prop
  | .registry e, n => Closes s e n
  | _, _ => False

/-- What every event of the loop does to the entries and to the table. -/
theorem hostStep_course {p q : Host} {e : HostEvent} (hp : Tabled p.registry)
    (h : hostStep options p e = some q) :
    Course (fun n => e = .report n) (HostCloses p.registry e) p.registry q.registry := by
  cases hostStep_moves h with
  | published => exact .of_still (still_writeOutput _ _ _) fun _ => nofun
  | finished => exact .of_still (still_writeOutput _ _ _) fun _ => nofun
  | reported _ hstep =>
    refine (step_course hp hstep).congr fun m => ?_
    constructor
    · rintro rfl
      rfl
    · rintro ⟨⟩
      rfl
  | @stepped e r hruns hstep =>
    refine (step_course hp hstep).congr fun m => iff_of_false ?_ nofun
    cases e with
    | done n outcome => exact absurd hruns id
    | _ => exact id

/-- What an event closes leaves the table. -/
theorem closes_leaves {e : Event} {n : ℕ} (hs : Tabled s) (h : step options s e = some t)
    (hn : n ∈ s.table) (hcloses : Closes s e n) : n ∉ t.table := by
  cases e with
  | kill id =>
    refine Option.some.inj h ▸ fun hin => (((kill_releases hs id).table n).mp hin).2 ?_
    rw [← hs.id_of_mem hn]
    exact hcloses
  | releaseSession sessionId =>
    exact Option.some.inj h ▸ fun hin =>
      (((releaseSession_releases hs sessionId).table n).mp hin).2 hcloses
  | disposeAll =>
    exact Option.some.inj h ▸ fun hin => (((disposeAll_releases hs).table n).mp hin).2 trivial
  | _ => exact absurd hcloses id

end RemoteWorkspace.Analysis.TerminalRegistry
