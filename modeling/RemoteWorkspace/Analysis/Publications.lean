import RemoteWorkspace.Analysis.EditedText
import RemoteWorkspace.Analysis.PublishStep

/-!
# Concurrent writes and edits of one file

Whatever the interleaving of the requests on one path, each publication is of the complete
content of one request, staged under a name of its own, and it replaces the target in one
call; a create finds nothing to replace. Between its check and its publication a request is
alone only if no other publication falls there: then it replaced exactly what it checked, and
an edit is of what it replaced. Where one falls there, the check is of an earlier content and
the update made since is lost.
-/

set_option autoImplicit false

namespace RemoteWorkspace.Analysis.FsWrites

open RemoteWorkspace.Computation RemoteWorkspace.Model RemoteWorkspace.Model.FsText
open RemoteWorkspace.Model.FsWrites

variable {path : String} {found : Found} {s s' : State}

/-! ### What holds of all requests -/

/-- A publication, and the request that made it. -/
structure Entry (path : String) (d : Directory) (p : ℕ) (e : Publication) (t : Task) : Prop where
  based : Based path d t
  read_le : t.readAt ≤ p
  create : t.request.createIfAbsent = true → e.replaced = none
  next : d.targetAt (p + 1) = some e.ino
  content : (d.files[e.ino]?).map File.content = some t.content
  past : Past t.phase

/-- The directory and the requests at any moment. -/
structure Served (path : String) (found : Found) (s : State) : Prop where
  names_lt : ∀ n i, s.directory.names n = some i → i < s.directory.files.length
  targets_lt : ∀ n ≤ s.directory.log.length, ∀ i, s.directory.targetAt n = some i →
    i < s.directory.files.length
  first : s.directory.targetAt 0 = found.target
  initial : ∀ i, found.target = some i → s.directory.files[i]? = found.files[i]?
  fits : ∀ k t, s.tasks[k]? = some t → Fits path s.directory k t
  numbers : ∀ (k l : ℕ) (t u : Task), s.tasks[k]? = some t → s.tasks[l]? = some u → k ≠ l →
    Numbered t.phase → Numbered u.phase → t.number ≠ u.number
  inos : ∀ (k l : ℕ) (t u : Task), s.tasks[k]? = some t → s.tasks[l]? = some u → k ≠ l →
    Staged t.phase → Staged u.phase → t.ino ≠ u.ino
  entries : ∀ p e, s.directory.log[p]? = some e →
    ∃ t, s.tasks[e.task]? = some t ∧ Entry path s.directory p e t
  once : (s.directory.log.map Publication.task).Nodup
  targets_ne : ∀ n m, n < m → m ≤ s.directory.log.length → ∀ i,
    s.directory.targetAt n = some i → s.directory.targetAt m ≠ some i

/-- The daemon that starts. -/
theorem served_init (path : String) (found : Found) :
    Served path found (machine path found).init where
  names_lt := found.names_lt
  targets_lt n hn i hi := by
    have hzero : n = 0 := Nat.le_zero.mp hn
    subst hzero
    exact found.target_lt i hi
  first := rfl
  initial _ _ := rfl
  fits k t h := by simp [machine] at h
  numbers k l t u h := by simp [machine] at h
  inos k l t u h := by simp [machine] at h
  entries p e h := by simp [machine] at h
  once := List.nodup_nil
  targets_ne n m hlt hm := absurd hm (Nat.not_le_of_lt (Nat.lt_of_le_of_lt (Nat.zero_le n) hlt))

/-- What holds of a publication stays. -/
theorem Entry.mono {d d' : Directory} {p : ℕ} {e : Publication} {t : Task}
    (h : Entry path d p e t) (hp : p < d.log.length) (hgrows : Grows d d') :
    Entry path d' p e t where
  based := h.based.mono hgrows
  read_le := h.read_le
  create := h.create
  next := (hgrows.targetAt (p + 1) hp).trans h.next
  content := by rw [hgrows.files (p + 1) hp e.ino h.next, h.content]
  past := h.past

/-- What holds of a publication does not depend on where its request stands since. -/
theorem Entry.of_phase {d : Directory} {p : ℕ} {e : Publication} {t t' : Task}
    (h : Entry path d p e t) (hsame : t' = { t with phase := t'.phase }) (hpast : Past t'.phase) :
    Entry path d p e t' := by
  generalize t'.phase = phase at hsame hpast
  subst hsame
  exact ⟨h.based.of_same rfl rfl rfl rfl rfl, h.read_le, h.create, h.next, h.content, hpast⟩

/-- A request that arrived. -/
theorem served_call (h : Served path found s) (request : Request) :
    Served path found { s with tasks := s.tasks ++ [Task.start request] } where
  names_lt := h.names_lt
  targets_lt := h.targets_lt
  first := h.first
  initial := h.initial
  fits k t ht := by
    rcases getElem?_concat_cases ht with ht | ⟨rfl, rfl⟩
    · exact h.fits k t ht
    · rintro ⟨e, he, hk⟩
      obtain ⟨p, hp⟩ := List.mem_iff_getElem?.mp he
      obtain ⟨t, ht, -⟩ := h.entries p e hp
      rw [hk] at ht
      exact Nat.lt_irrefl _ (List.getElem?_eq_some_iff.mp ht).1
  numbers k l t u ht hu hne htn hun := by
    rcases getElem?_concat_cases ht with ht | ⟨-, rfl⟩
    · rcases getElem?_concat_cases hu with hu | ⟨-, rfl⟩
      · exact h.numbers k l t u ht hu hne htn hun
      · simp [Task.start, Numbered] at hun
    · simp [Task.start, Numbered] at htn
  inos k l t u ht hu hne hts hus := by
    rcases getElem?_concat_cases ht with ht | ⟨-, rfl⟩
    · rcases getElem?_concat_cases hu with hu | ⟨-, rfl⟩
      · exact h.inos k l t u ht hu hne hts hus
      · simp [Task.start, Staged] at hus
    · simp [Task.start, Staged] at hts
  entries p e he := by
    obtain ⟨t, ht, hentry⟩ := h.entries p e he
    exact ⟨t, getElem?_concat_of_some ht, hentry⟩
  once := h.once
  targets_ne := h.targets_ne

/-- A number taken elsewhere. -/
theorem served_elsewhere (h : Served path found s) :
    Served path found
      { s with directory := { s.directory with sequence := s.directory.sequence + 1 } } := by
  have hgrows : Grows s.directory { s.directory with sequence := s.directory.sequence + 1 } :=
    ⟨List.prefix_rfl, fun _ _ => rfl, fun _ _ _ _ => rfl, Nat.le_succ _⟩
  refine ⟨h.names_lt, h.targets_lt, h.first, h.initial, fun k t ht => ?_, h.numbers, h.inos,
    fun p e he => ?_, h.once, h.targets_ne⟩
  · exact (h.fits k t ht).spared hgrows Iff.rfl (fun _ hown => ⟨hown, rfl⟩)
  · obtain ⟨t, ht, hentry⟩ := h.entries p e he
    exact ⟨t, ht, hentry.mono (List.getElem?_eq_some_iff.mp he).1 hgrows⟩

section Act

variable {k : ℕ} {d' : Directory} {t t' : Task} {a : Act}

/-- What a call leaves of the publications: the same ones, or one more by that request. -/
theorem Footprint.published_iff {d : Directory} {l : ℕ} (h : Footprint k d t d' t')
    (hne : l ≠ k) : Published d' l ↔ Published d l := by
  rcases h.log with ⟨hlog, -⟩ | ⟨-, -, -, -, i, -, -, hlog⟩
  · rw [Published, Published, hlog]
  · rw [Published, Published, hlog]
    constructor
    · rintro ⟨e, he, rfl⟩
      rcases List.mem_append.mp he with he | he
      · exact ⟨e, he, rfl⟩
      · rw [List.mem_singleton.mp he] at hne
        exact absurd rfl hne
    · rintro ⟨e, he, rfl⟩
      exact ⟨e, List.mem_append_left _ he, rfl⟩

/-- A publication is of the staging file of its request. -/
theorem Footprint.publishes (h : Served path found s) (ht : s.tasks[k]? = some t)
    (hfoot : Footprint k s.directory t d' t') :
    d'.log = s.directory.log ∧ d'.target = s.directory.target ∨
      t.phase = .complete ∧ t' = { t with phase := .cleaning none } ∧
        d'.files = s.directory.files ∧
        (t.request.createIfAbsent = true → s.directory.target = none) ∧
        d'.target = some t.ino ∧
        d'.log = s.directory.log ++ [⟨k, t.ino, s.directory.target⟩] := by
  rcases hfoot.log with hsame | ⟨hphase, hphase', hfiles, hcreate, i, hname, htarget, hlog⟩
  · exact .inl hsame
  · have hown := ((h.fits k t ht).own (.inr hphase)).1
    obtain rfl := Option.some.inj (hname.symm.trans hown)
    exact .inr ⟨hphase, hphase', hfiles, hcreate, htarget, hlog⟩

/-- At each time up to a call the target was what it was, or it is the staging file that the call
published. -/
theorem served_targetAt (h : Served path found s) (ht : s.tasks[k]? = some t)
    (hfoot : Footprint k s.directory t d' t') (hgrows : Grows s.directory d') {n : ℕ}
    (hn : n ≤ d'.log.length) :
    n ≤ s.directory.log.length ∧ d'.targetAt n = s.directory.targetAt n ∨
      t.phase = .complete ∧ d'.targetAt n = some t.ino := by
  rcases Nat.lt_or_ge s.directory.log.length n with hgt | hle
  · rcases hfoot.publishes h ht with ⟨hlog, -⟩ | ⟨hphase, -, -, -, htarget, hlog⟩
    · rw [hlog] at hn
      omega
    · have hlast : n = s.directory.log.length + 1 := by
        rw [hlog, List.length_append, List.length_singleton] at hn
        omega
      rw [hlast]
      exact .inr ⟨hphase, targetAt_append_last hlog htarget⟩
  · exact .inl ⟨hle, hgrows.targetAt n hle⟩

/-- After a call the target was never a file that does not exist. -/
theorem served_targets_lt (h : Served path found s) (ht : s.tasks[k]? = some t)
    (hfoot : Footprint k s.directory t d' t') (hgrows : Grows s.directory d') :
    ∀ n ≤ d'.log.length, ∀ i, d'.targetAt n = some i → i < d'.files.length := by
  intro n hn i hi
  rcases served_targetAt h ht hfoot hgrows hn with ⟨hle, hsame⟩ | ⟨hphase, hnew⟩
  · rw [hsame] at hi
    exact Nat.lt_of_lt_of_le (h.targets_lt n hle i hi) hfoot.length
  · rw [hnew] at hi
    obtain rfl := Option.some.inj hi
    exact Nat.lt_of_lt_of_le (h.names_lt _ _ ((h.fits k t ht).own (.inr hphase)).1) hfoot.length

/-- Another request keeps its staging file. -/
theorem served_own (h : Served path found s) (ht : s.tasks[k]? = some t)
    (hfoot : Footprint k s.directory t d' t') (hgrows : Grows s.directory d') {l : ℕ} {u : Task}
    (hu : s.tasks[l]? = some u) (hne : k ≠ l) (hstaged : Staged u.phase) :
    Own d' u ∧ d'.files[u.ino]? = s.directory.files[u.ino]? := by
  obtain ⟨hname, htargets⟩ := (h.fits l u hu).own hstaged
  refine ⟨⟨?_, fun n hn => ?_⟩, ?_⟩
  · rw [hfoot.names u.number fun hnum => (h.numbers k l t u ht hu hne hnum hstaged.numbered).symm,
      hname]
  · rcases served_targetAt h ht hfoot hgrows hn with ⟨hle, hsame⟩ | ⟨hphase, hnew⟩
    · rw [hsame]
      exact htargets n hle
    · rw [hnew]
      intro heq
      exact h.inos k l t u ht hu hne (.inr hphase) hstaged (Option.some.inj heq)
  · exact hfoot.files _ (h.names_lt _ _ hname)
      fun hs => (h.inos k l t u ht hu hne hs hstaged).symm

/-- The numbers after a call. -/
theorem served_number_ne (h : Served path found s) (ht : s.tasks[k]? = some t)
    (hfoot : Footprint k s.directory t d' t') {l : ℕ} {u : Task} (hu : s.tasks[l]? = some u)
    (hne : k ≠ l) (hnum : Numbered t'.phase) (hunum : Numbered u.phase) :
    t'.number ≠ u.number := by
  rcases hfoot.number hnum with ⟨htnum, hsame⟩ | ⟨hnew, -⟩
  · rw [hsame]
    exact h.numbers k l t u ht hu hne htnum hunum
  · have hlt := (h.fits l u hu).number_lt hunum
    omega

/-- The staged files after a call. -/
theorem served_ino_ne (h : Served path found s) (ht : s.tasks[k]? = some t)
    (hfoot : Footprint k s.directory t d' t') {l : ℕ} {u : Task} (hu : s.tasks[l]? = some u)
    (hne : k ≠ l) (hstaged : Staged t'.phase) (hustaged : Staged u.phase) : t'.ino ≠ u.ino := by
  rcases hfoot.ino hstaged with ⟨htstaged, hsame⟩ | hnew
  · rw [hsame]
    exact h.inos k l t u ht hu hne htstaged hustaged
  · have hlt := h.names_lt _ _ ((h.fits l u hu).own hustaged).1
    omega

/-- The publications after a call. -/
theorem served_entries (h : Served path found s) (ht : s.tasks[k]? = some t)
    (hfoot : Footprint k s.directory t d' t') (hgrows : Grows s.directory d') {p : ℕ}
    {e : Publication} (he : d'.log[p]? = some e) :
    ∃ u, (s.tasks.set k t')[e.task]? = some u ∧ Entry path d' p e u := by
  have hk : (s.tasks.set k t')[k]? = some t' := by
    rw [List.getElem?_set_self (List.getElem?_eq_some_iff.mp ht).1]
  -- a publication that was there before: its request is past publishing
  have hold : s.directory.log[p]? = some e →
      ∃ u, (s.tasks.set k t')[e.task]? = some u ∧ Entry path d' p e u := by
    intro hp
    obtain ⟨u, hu, hentry⟩ := h.entries p e hp
    have hentry' := hentry.mono (List.getElem?_eq_some_iff.mp hp).1 hgrows
    by_cases hne : e.task = k
    · rw [hne] at hu ⊢
      obtain rfl := Option.some.inj (ht.symm.trans hu)
      obtain ⟨hsame, hpast⟩ := hfoot.past hentry.past
      exact ⟨t', hk, hentry'.of_phase hsame hpast⟩
    · exact ⟨u, by rw [List.getElem?_set_ne (Ne.symm hne), hu], hentry'⟩
  rcases hfoot.publishes h ht with ⟨hlog, -⟩ | ⟨hphase, hphase', hfiles, hcreate, htarget, hlog⟩
  · exact hold (hlog ▸ he)
  · rw [hlog] at he
    rcases getElem?_concat_cases he with hp | ⟨rfl, rfl⟩
    · exact hold hp
    · obtain ⟨hnot, hbased, hnumber, hown, hcontent⟩ := (h.fits k t ht).at hphase
      have hbased' : Based path d' t' := by
        rw [hphase']
        exact (hbased.mono hgrows).of_same rfl rfl rfl rfl rfl
      refine ⟨t', hk, hbased', ?_, ?_, targetAt_append_last hlog htarget, ?_, ?_⟩
      · rw [hphase']
        exact hbased.read_le
      · rw [hphase']
        exact hcreate
      · rw [hphase', hfiles]
        exact hcontent
      · rw [hphase']
        exact .inl rfl

/-- One call of a request. -/
theorem served_act (h : Served path found s) (ht : s.tasks[k]? = some t)
    (hact : act path k s.directory t a = some (d', t')) :
    Served path found ⟨d', s.tasks.set k t'⟩ := by
  have hfoot := act_footprint hact
  have hfits := h.fits k t ht
  have hgrows := hfoot.grows h.targets_lt hfits.own
  have hzero : (0 : ℕ) ≤ s.directory.log.length := Nat.zero_le _
  refine ⟨hfoot.names_lt h.names_lt, served_targets_lt h ht hfoot hgrows,
    (hgrows.targetAt 0 hzero).trans h.first, fun i hi => ?_, fun l u hu => ?_,
    fun l m u v hu hv hne hun hvn => ?_, fun l m u v hu hv hne hus hvs => ?_,
    fun p e he => served_entries h ht hfoot hgrows he, ?_, ?_⟩
  · exact (hgrows.files 0 hzero i (h.first.trans hi)).trans (h.initial i hi)
  · rcases getElem?_set_cases hu with ⟨rfl, rfl⟩ | ⟨hne, hu⟩
    · exact act_fits hact hfits hgrows h.targets_lt
    · exact (h.fits l u hu).spared hgrows (hfoot.published_iff hne.symm)
        fun hstaged _ => served_own h ht hfoot hgrows hu hne hstaged
  · rcases getElem?_set_cases hu with ⟨rfl, rfl⟩ | ⟨hl, hu'⟩
    · rcases getElem?_set_cases hv with ⟨rfl, rfl⟩ | ⟨hm, hv'⟩
      · exact absurd rfl hne
      · exact served_number_ne h ht hfoot hv' hne hun hvn
    · rcases getElem?_set_cases hv with ⟨rfl, rfl⟩ | ⟨hm, hv'⟩
      · exact (served_number_ne h ht hfoot hu' hne.symm hvn hun).symm
      · exact h.numbers l m u v hu' hv' hne hun hvn
  · rcases getElem?_set_cases hu with ⟨rfl, rfl⟩ | ⟨hl, hu'⟩
    · rcases getElem?_set_cases hv with ⟨rfl, rfl⟩ | ⟨hm, hv'⟩
      · exact absurd rfl hne
      · exact served_ino_ne h ht hfoot hv' hne hus hvs
    · rcases getElem?_set_cases hv with ⟨rfl, rfl⟩ | ⟨hm, hv'⟩
      · exact (served_ino_ne h ht hfoot hu' hne.symm hvs hus).symm
      · exact h.inos l m u v hu' hv' hne hus hvs
  · rcases hfoot.publishes h ht with ⟨hlog, -⟩ | ⟨hphase, -, -, -, -, hlog⟩
    · rw [hlog]
      exact h.once
    · rw [hlog, List.map_append, List.map_singleton]
      refine nodup_concat h.once fun hmem => ?_
      obtain ⟨e, he, hk⟩ := List.mem_map.mp hmem
      exact hfits.unpublished (.inr (.inr (.inr (.inr (.inl (.inr hphase)))))) ⟨e, he, hk⟩
  · intro n m hlt hm i hi
    rcases Nat.lt_or_ge s.directory.log.length m with hgt | hle
    · -- the file that was just published was staged, and never the target
      rcases hfoot.publishes h ht with ⟨hlog, -⟩ | ⟨hphase, -, -, -, htarget, hlog⟩
      · rw [hlog] at hm
        omega
      · rw [hlog, List.length_append, List.length_singleton] at hm
        have hlast : m = s.directory.log.length + 1 := by omega
        have hn : n ≤ s.directory.log.length := by omega
        rw [hlast, targetAt_append_last hlog htarget]
        rw [hgrows.targetAt n hn] at hi
        rintro heq
        exact (hfits.own (.inr hphase)).2 n hn (hi.trans heq.symm)
    · have hn : n ≤ s.directory.log.length := by omega
      rw [hgrows.targetAt m hle]
      rw [hgrows.targetAt n hn] at hi
      exact h.targets_ne n m hlt hle i hi

end Act

/-- What holds at any moment of a run. -/
theorem served_of_reachable (h : (machine path found).Reachable s) : Served path found s := by
  refine Machine.ReachableWhen.invariant (I := Served path found) (served_init path found) ?_ h
  intro s e s' hs _ hstep
  have hstep : step path s e = some s' := hstep
  cases e with
  | call request =>
    cases hstep
    exact served_call hs request
  | elsewhere =>
    cases hstep
    exact served_elsewhere hs
  | act k a =>
    simp only [step] at hstep
    cases ht : s.tasks[k]? with
    | none =>
      rw [ht] at hstep
      cases hstep
    | some t =>
      rw [ht] at hstep
      obtain ⟨⟨d', t'⟩, hact, rfl⟩ := Option.map_eq_some_iff.mp hstep
      exact served_act hs ht hact

/-! ### What the target holds -/

/-- A request publishes once. -/
theorem Served.entry_of_task (h : Served path found s) {p q : ℕ} {e e' : Publication}
    (he : s.directory.log[p]? = some e) (he' : s.directory.log[q]? = some e')
    (htask : e'.task = e.task) : p = q := by
  refine (List.getElem?_inj ?_ h.once).mp ?_
  · rw [List.length_map]
    exact (List.getElem?_eq_some_iff.mp he).1
  · rw [List.getElem?_map, List.getElem?_map, he, he', Option.map_some, Option.map_some, htask]

/-- The target never names a file again that was replaced. -/
theorem Served.targetAt_inj (h : Served path found s) {n m i : ℕ}
    (hn : n ≤ s.directory.log.length) (hm : m ≤ s.directory.log.length)
    (hi : s.directory.targetAt n = some i) (hi' : s.directory.targetAt m = some i) : n = m := by
  rcases Nat.lt_trichotomy n m with hlt | heq | hgt
  · exact absurd hi' (h.targets_ne n m hlt hm i hi)
  · exact heq
  · exact absurd hi (h.targets_ne m n hgt hn i hi')

/-- A request that was answered with a success. -/
def Succeeded (t : Task) : Prop :=
  ∃ answer, t.phase = .answered answer ∧ ∀ failure, answer ≠ .failed failure

/-- A request that was answered with a success has published. -/
theorem Succeeded.published {d : Directory} {k : ℕ} {t : Task} (h : Succeeded t)
    (hfits : Fits path d k t) : Published d k := by
  obtain ⟨answer, hphase, hanswer⟩ := h
  have hfits := hfits.at hphase
  cases answer with
  | wrote created version before after => exact hfits
  | edited version before after => exact hfits
  | failed failure => exact absurd rfl (hanswer failure)

/-- A failed metadata read names neither an unread nor a changed file. -/
theorem ioFailure_code (verb path : String) (error : Errno) :
    (ioFailure verb path error).code ≠ "FS_NOT_OBSERVED" ∧
      (ioFailure verb path error).code ≠ "FS_STALE_VERSION" := by
  unfold ioFailure
  split_ifs
  · simp [notFound, Failure.about]
  · simp [Failure.about]
  · simp [Failure.about]

/-- A create that published replaced nothing. -/
theorem Served.replaced_none (hs : Served path found s) {e : Publication}
    (he : e ∈ s.directory.log) {t : Task} (ht : s.tasks[e.task]? = some t)
    (hcreate : t.request.createIfAbsent = true) : e.replaced = none := by
  obtain ⟨p, hp⟩ := List.mem_iff_getElem?.mp he
  obtain ⟨u, hu, hentry⟩ := hs.entries p e hp
  obtain rfl := Option.some.inj (ht.symm.trans hu)
  exact hentry.create hcreate

/-- A request that failed has not published, unless a metadata read failed it afterwards. -/
theorem Served.unpublished (hs : Served path found s) {k : ℕ} {t : Task} {failure : Failure}
    (ht : s.tasks[k]? = some t) (hphase : t.phase = .answered (.failed failure)) :
    (failure.code = "FS_NOT_OBSERVED" ∨ failure.code = "FS_STALE_VERSION" →
      ∀ e ∈ s.directory.log, e.task ≠ k) ∧
    ((∃ e ∈ s.directory.log, e.task = k) →
      ∃ error, failure = ioFailure t.request.verb path error) := by
  have hfits : Published s.directory k →
      ∃ error, failure = ioFailure t.request.verb path error := (hs.fits k t ht).at hphase
  refine ⟨fun hcode e he hk => ?_, hfits⟩
  obtain ⟨error, rfl⟩ := hfits ⟨e, he, hk⟩
  rcases hcode with hcode | hcode
  · exact (ioFailure_code _ _ _).1 hcode
  · exact (ioFailure_code _ _ _).2 hcode

/-- No two publications are of one request, or of one file. -/
theorem Served.publication_unique (hs : Served path found s) {p q : ℕ} {e e' : Publication}
    (he : s.directory.log[p]? = some e) (he' : s.directory.log[q]? = some e')
    (hsame : e'.task = e.task ∨ e'.ino = e.ino) : e' = e := by
  have hplt := (List.getElem?_eq_some_iff.mp he).1
  have hqlt := (List.getElem?_eq_some_iff.mp he').1
  obtain ⟨t, -, hentry⟩ := hs.entries p e he
  obtain ⟨u, -, hentry'⟩ := hs.entries q e' he'
  have hpq : p = q := by
    rcases hsame with htask | hino
    · exact hs.entry_of_task he he' htask
    · have hnext := hentry'.next
      rw [hino] at hnext
      exact Nat.succ.inj (hs.targetAt_inj hplt hqlt hentry.next hnext)
  rw [← hpq, he] at he'
  exact (Option.some.inj he').symm

/-- After the last publication the target names its file, with the content it published. -/
theorem Entry.current {d : Directory} {p : ℕ} {e : Publication} {t : Task}
    (h : Entry path d p e t) (hlast : p + 1 = d.log.length) :
    ∃ file, d.current = some file ∧ file.content = t.content := by
  have htarget := h.next
  rw [hlast, targetAt_length] at htarget
  obtain ⟨file, hfile, hcontent⟩ := Option.map_eq_some_iff.mp h.content
  refine ⟨file, ?_, hcontent⟩
  rw [Directory.current, htarget]
  exact hfile

/-- A create that published replaced nothing; a request that was refused, because the file was
not read or changed since, published nothing; and the target holds what it held when the
daemon started, or the complete content of the request that published last, which published
no other file and whose file no other request published. Only a metadata read can fail a
request that has published. -/
theorem publications_complete (h : (machine path found).Reachable s) :
    (∀ (k : ℕ) (t : Task), s.tasks[k]? = some t → Succeeded t →
      ∃ e ∈ s.directory.log, e.task = k) ∧
    (∀ e ∈ s.directory.log, ∀ t : Task, s.tasks[e.task]? = some t →
      t.request.createIfAbsent = true → e.replaced = none) ∧
    (∀ (k : ℕ) (t : Task) (failure : Failure), s.tasks[k]? = some t →
      t.phase = .answered (.failed failure) →
      (failure.code = "FS_NOT_OBSERVED" ∨ failure.code = "FS_STALE_VERSION" →
        ∀ e ∈ s.directory.log, e.task ≠ k) ∧
      ((∃ e ∈ s.directory.log, e.task = k) →
        ∃ error, failure = ioFailure t.request.verb path error)) ∧
    (s.directory.log = [] → s.directory.target = found.target ∧
      ∀ i, found.target = some i → s.directory.files[i]? = found.files[i]?) ∧
    ∀ e, s.directory.log.getLast? = some e →
      ∃ (t : Task) (file : File), s.tasks[e.task]? = some t ∧ s.directory.current = some file ∧
        file.content = t.content ∧
        (∀ text expected, t.request = .write text expected →
          file.content = Utf8.encode text) ∧
        ∀ e' ∈ s.directory.log, e'.task = e.task ∨ e'.ino = e.ino → e' = e := by
  have hs := served_of_reachable h
  refine ⟨fun k t ht hsucc => hsucc.published (hs.fits k t ht), ?_, ?_, ?_, ?_⟩
  · exact fun e he t ht hcreate => hs.replaced_none he ht hcreate
  · exact fun k t failure ht hphase => hs.unpublished ht hphase
  · intro hlog
    have hlast := targetAt_length s.directory
    rw [hlog] at hlast
    exact ⟨hlast.symm.trans hs.first, hs.initial⟩
  · intro e he
    rw [List.getLast?_eq_getElem?] at he
    obtain ⟨t, ht, hentry⟩ := hs.entries _ e he
    have hlt := (List.getElem?_eq_some_iff.mp he).1
    obtain ⟨file, hfile, hcontent⟩ := hentry.current (by omega)
    refine ⟨t, file, ht, hfile, hcontent, fun text expected hrequest => ?_, fun e' he' hsame => ?_⟩
    · rw [hcontent]
      exact hentry.based.write text expected hrequest
    · obtain ⟨q, hq⟩ := List.mem_iff_getElem?.mp he'
      exact hs.publication_unique he hq hsame

/-- A create of a file that is not there. -/
def createRun : List Event :=
  .call (.write ['a'] (some .createIfAbsent)) ::
    [.check, .prepare false, .number, .stage, .write 1, .sync "v1", .publish, .clean true,
      .report].map (.act 0)

/-- A directory that is empty. -/
def emptyDirectory : Found := ⟨[], none, fun _ => none, by simp, by simp⟩

theorem createRun_isSome : ((machine "/f" emptyDirectory).run createRun).isSome = true := by
  decide +kernel

theorem createRun_answered :
    ((((machine "/f" emptyDirectory).run createRun).get createRun_isSome).tasks[0]?).map Task.phase =
      some (.answered (.wrote true "v1" none ['a'])) := by
  decide +kernel

/-- The create that was answered with a success has published. -/
theorem createRun_complete :
    ∃ e ∈ (((machine "/f" emptyDirectory).run createRun).get createRun_isSome).directory.log,
      e.task = 0 := by
  obtain ⟨t, ht, hphase⟩ := Option.map_eq_some_iff.mp createRun_answered
  have hsucceeded : Succeeded t := ⟨_, hphase, fun failure h => by cases h⟩
  exact (publications_complete (Machine.reachable_get createRun createRun_isSome)).1 0 t ht
    hsucceeded

/-! ### Updates that are lost, and updates that are not -/

/-- An edit replaces the matches of its old text, the only one unless it asks for all. -/
theorem applyLiteralEdit_literal {content oldString newString edited : Text} {replaceAll : Bool}
    (h : applyLiteralEdit path content oldString newString replaceAll = .ok edited) :
    ∃ pieces, content = (normalizeLineEndings oldString).intercalate pieces ∧
      edited = (normalizeLineEndings newString).intercalate pieces ∧ 2 ≤ pieces.length ∧
      (replaceAll = false → pieces.length = 2) := by
  obtain ⟨hold, hsome, hone, hedited⟩ :=
    EditedText.applyLiteralEdit_eq_ok_iff.mp h
  unfold Literal.countMatches at hsome hone
  refine ⟨Literal.pieces (normalizeLineEndings oldString) content,
    (Literal.intercalate_pieces hold content).symm, hedited, by omega, ?_⟩
  intro hall
  rw [hall] at hone
  have hcount := hone.resolve_left Bool.false_ne_true
  omega

/-- The file the target named after `n` publications. -/
def fileAt (d : Directory) (n : ℕ) : Option File := (d.targetAt n).bind fun i => d.files[i]?

/-- Every content the target ever had has a version of its own. -/
def DistinctVersions (d : Directory) : Prop :=
  ∀ n ≤ d.log.length, ∀ m ≤ d.log.length, (fileAt d n).isSome = true →
    (fileAt d n).map File.version = (fileAt d m).map File.version → n = m

instance (d : Directory) : Decidable (DistinctVersions d) := by
  unfold DistinctVersions
  infer_instance

/-- No update is lost: a guarded request replaced the content whose version it is guarded
with, an edit is of the content it replaced, and two requests with the same guard do not
both succeed. -/
structure LosesNoUpdate (path : String) (s : State) : Prop where
  guarded : ∀ (p : ℕ) (e : Publication) (t : Task) (version : String),
    s.directory.log[p]? = some e → s.tasks[e.task]? = some t → Succeeded t →
    guardOf t.request = some version → (fileAt s.directory p).map File.version = some version
  edits : ∀ (p : ℕ) (e : Publication) (t : Task) (oldString newString : Text)
    (replaceAll : Bool) (expected : Option String),
    s.directory.log[p]? = some e → s.tasks[e.task]? = some t → Succeeded t →
    t.request = .edit oldString newString replaceAll expected →
    ∃ file edited, fileAt s.directory p = some file ∧
      editContent path oldString newString replaceAll file.content = .ok edited ∧
      (fileAt s.directory (p + 1)).map File.content = some edited.content
  once : ∀ (k l : ℕ) (t u : Task) (version : String), s.tasks[k]? = some t →
    s.tasks[l]? = some u → Succeeded t → Succeeded u → guardOf t.request = some version →
    guardOf u.request = some version → k = l

/-- No update is lost by a request that is alone between its check and its publication. -/
structure LosesNoUpdateAlone (path : String) (s : State) : Prop where
  guarded : ∀ (p : ℕ) (e : Publication) (t : Task) (version : String),
    s.directory.log[p]? = some e → s.tasks[e.task]? = some t → Succeeded t →
    guardOf t.request = some version →
    t.checkedAt ≤ p ∧ (fileAt s.directory t.checkedAt).map File.version = some version ∧
      (DistinctVersions s.directory →
        ((fileAt s.directory p).map File.version = some version ↔ t.checkedAt = p))
  edits : ∀ (p : ℕ) (e : Publication) (t : Task) (oldString newString : Text)
    (replaceAll : Bool) (expected : Option String),
    s.directory.log[p]? = some e → s.tasks[e.task]? = some t → Succeeded t →
    t.request = .edit oldString newString replaceAll expected →
    t.checkedAt ≤ t.readAt ∧ t.readAt ≤ p ∧
      ∃ file edited, fileAt s.directory t.readAt = some file ∧
        editContent path oldString newString replaceAll file.content = .ok edited ∧
        (fileAt s.directory (p + 1)).map File.content = some edited.content
  once : ∀ (p q : ℕ) (e e' : Publication) (t u : Task) (version : String),
    DistinctVersions s.directory → s.directory.log[p]? = some e →
    s.directory.log[q]? = some e' → s.tasks[e.task]? = some t → s.tasks[e'.task]? = some u →
    guardOf t.request = some version → guardOf u.request = some version → p < q →
    u.checkedAt ≤ p
  published : ∀ (k : ℕ) (t : Task), s.tasks[k]? = some t → Succeeded t →
    ∃ (p : ℕ) (e : Publication), s.directory.log[p]? = some e ∧ e.task = k

/-- A guarded request saw its version. -/
theorem Checked.fileAt_version {d : Directory} {t : Task} (h : Checked d t) {version : String}
    (hversion : guardOf t.request = some version) :
    (fileAt d t.checkedAt).map File.version = some version := by
  obtain ⟨i, file, hi, hfile, hv⟩ := h.version version hversion
  rw [fileAt, h.seen, hi, Option.bind_some, hfile, Option.map_some, hv]

/-- A version that is the target's is that of a file. -/
theorem isSome_of_version {d : Directory} {n : ℕ} {version : String}
    (h : (fileAt d n).map File.version = some version) : (fileAt d n).isSome = true := by
  obtain ⟨file, hfile, -⟩ := Option.map_eq_some_iff.mp h
  rw [hfile]
  rfl

/-- A guarded request replaced the content it saw exactly when no other publication fell
between its check and its own, and an edit is of what it replaced when none fell between its
reading and its publication. Of two requests with one guard the earlier published between the
check and the publication of the later. -/
theorem alone_loses_no_update (h : (machine path found).Reachable s) :
    LosesNoUpdateAlone path s := by
  have hs := served_of_reachable h
  refine ⟨?_, ?_, ?_, ?_⟩
  · intro p e t version he ht _ hversion
    obtain ⟨u, hu, hentry⟩ := hs.entries p e he
    obtain rfl := Option.some.inj (ht.symm.trans hu)
    have hat := hentry.based.toChecked.fileAt_version hversion
    have hle : t.checkedAt ≤ p := Nat.le_trans hentry.based.order hentry.read_le
    have hlt := (List.getElem?_eq_some_iff.mp he).1
    refine ⟨hle, hat, fun hdistinct => ⟨fun hp => ?_, fun hp => hp ▸ hat⟩⟩
    exact hdistinct _ hentry.based.le _ (Nat.le_of_lt hlt) (isSome_of_version hat)
      (hat.trans hp.symm)
  · intro p e t oldString newString replaceAll expected he ht _ hrequest
    obtain ⟨u, hu, hentry⟩ := hs.entries p e he
    obtain rfl := Option.some.inj (ht.symm.trans hu)
    obtain ⟨i, file, edited, hi, hfile, hedit, hcontent⟩ :=
      hentry.based.edit oldString newString replaceAll expected hrequest
    refine ⟨hentry.based.order, hentry.read_le, file, edited, ?_, hedit, ?_⟩
    · rw [fileAt, hi, Option.bind_some, hfile]
    · rw [fileAt, hentry.next, Option.bind_some, hentry.content, hcontent]
  · intro p q e e' t u version hdistinct he he' ht hu hversion hversion' hlt
    obtain ⟨t', ht', hentry⟩ := hs.entries p e he
    obtain rfl := Option.some.inj (ht.symm.trans ht')
    obtain ⟨u', hu', hentry'⟩ := hs.entries q e' he'
    obtain rfl := Option.some.inj (hu.symm.trans hu')
    have hat := hentry.based.toChecked.fileAt_version hversion
    have hat' := hentry'.based.toChecked.fileAt_version hversion'
    -- both saw one version, hence the target between the same two publications
    have hsame := hdistinct _ hentry.based.le _ hentry'.based.le (isSome_of_version hat)
      (hat.trans hat'.symm)
    have hle : t.checkedAt ≤ p := Nat.le_trans hentry.based.order hentry.read_le
    omega
  · intro k t ht hsucc
    obtain ⟨e, he, hk⟩ := hsucc.published (hs.fits k t ht)
    obtain ⟨p, hp⟩ := List.mem_iff_getElem?.mp he
    exact ⟨p, e, hp, hk⟩

/-- Two writes guarded with one version that check before either publishes. -/
def raceRun : List Event :=
  [.call (.write ['a'] (some (.replaceIfVersion "v0"))),
    .call (.write ['b'] (some (.replaceIfVersion "v0"))), .act 0 .check, .act 1 .check] ++
  [.prepare false, .number, .stage, .write 1, .sync "v1", .publish, .clean true,
    .report].map (.act 0) ++
  [.prepare false, .number, .stage, .write 1, .sync "v2", .publish, .clean true,
    .report].map (.act 1)

/-- A directory with one file. -/
def oneFile : Found := ⟨[⟨[0x30], "v0"⟩], some 0, fun _ => none, by simp, by simp⟩

theorem raceRun_isSome : ((machine "/f" oneFile).run raceRun).isSome = true := by
  decide +kernel

/-- Where the race ends. -/
def raced : State := ((machine "/f" oneFile).run raceRun).get raceRun_isSome

theorem raced_first_isSome : (raced.tasks[0]?).isSome = true := by decide +kernel

theorem raced_second_isSome : (raced.tasks[1]?).isSome = true := by decide +kernel

/-- Two writes guarded with one version may both succeed; the first one's update is lost. -/
theorem race_loses_update :
    ¬ ∀ (path : String) (found : Found) (s : State), (machine path found).Reachable s →
      DistinctVersions s.directory → LosesNoUpdate path s := by
  intro hall
  have hdistinct : DistinctVersions raced.directory := by decide +kernel
  have h := hall "/f" oneFile raced (Machine.reachable_get raceRun raceRun_isSome) hdistinct
  have hfirst : Succeeded ((raced.tasks[0]?).get raced_first_isSome) :=
    ⟨.wrote false "v1" (some ['0']) ['a'], by decide +kernel, by simp⟩
  have hsecond : Succeeded ((raced.tasks[1]?).get raced_second_isSome) :=
    ⟨.wrote false "v2" (some ['a']) ['b'], by decide +kernel, by simp⟩
  have heq := h.once 0 1 _ _ "v0" (Option.some_get _).symm (Option.some_get _).symm hfirst hsecond
    (by decide +kernel) (by decide +kernel)
  exact absurd heq (by decide)

/-- In the race the later write checked before the earlier one published. -/
theorem raced_alone : LosesNoUpdateAlone "/f" raced :=
  alone_loses_no_update (Machine.reachable_get raceRun raceRun_isSome)

end RemoteWorkspace.Analysis.FsWrites
