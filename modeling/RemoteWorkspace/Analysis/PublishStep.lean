import Mathlib.Data.List.Nodup
import RemoteWorkspace.Computation.Fallible
import RemoteWorkspace.Computation.Slots
import RemoteWorkspace.Model.FsWrites

/-!
# What one system call of a write does

A system call of a request touches the directory in few ways: it takes a number, it makes,
fills or removes the request's own staging file, or it publishes that file. `Footprint` says
so once for every call, and everything else here is read off it.

Under the runs stand three facts. A staging name and a staged file belong to one request
(`Served.numbers`, `Served.inos`); a file that the target named is never written again
(`Grows`); and each publication is of the complete content of its request, which is what the
request made of the file it read (`Entry`).
-/

set_option autoImplicit false

namespace RemoteWorkspace.Analysis.FsWrites

open RemoteWorkspace.Computation RemoteWorkspace.Model RemoteWorkspace.Model.FsText
open RemoteWorkspace.Model.FsWrites

variable {path : String} {d d' : Directory} {k : ℕ} {t t' u : Task} {a : Act}

/-! ### Phases -/

/-- A request that holds a number. -/
def Numbered (phase : Phase) : Prop :=
  phase = .numbered ∨ phase = .staging ∨ phase = .complete ∨ ∃ error, phase = .cleaning error

/-- A request whose staging file is there and not published. -/
def Staged (phase : Phase) : Prop := phase = .staging ∨ phase = .complete

/-- A request that may have published. -/
def Past (phase : Phase) : Prop :=
  phase = .cleaning none ∨ phase = .published ∨ ∃ answer, phase = .answered answer

/-- A staged request holds a number. -/
theorem Staged.numbered {phase : Phase} (h : Staged phase) : Numbered phase := by
  rcases h with h | h
  · exact .inr (.inl h)
  · exact .inr (.inr (.inl h))

/-! ### Inversion of the calls -/

/-- The check ends in a refusal, or in what it saw. -/
theorem checked_cases (path : String) (d : Directory) (t : Task) :
    (∃ failure, checked path d t = t.refuse failure) ∨
      checkTarget path (d.current.map File.info) t.request = .ok () ∧
        checked path d t = { t with
          phase := .checked, existing := d.current.map File.info, seen := d.target,
          checkedAt := d.log.length } := by
  cases hcheck : checkTarget path (d.current.map File.info) t.request with
  | error failure => exact .inl ⟨failure, by simp only [checked, hcheck]⟩
  | ok _ => exact .inr ⟨rfl, by simp only [checked, hcheck]⟩

/-- A write is prepared; an edit is prepared or refused. -/
theorem prepared_cases (path : String) (d : Directory) (t : Task) (unread : Bool) :
    (∃ failure, prepared path d t unread = t.refuse failure) ∨
      ∃ before after content, prepared path d t unread = { t with
          phase := .prepared, before := before, after := after, content := content,
          readAt := d.log.length } ∧
        (∀ text expected, t.request = .write text expected → content = Utf8.encode text) ∧
        ∀ oldString newString replaceAll expected,
          t.request = .edit oldString newString replaceAll expected →
          ∃ file edited, d.current = some file ∧
            editContent path oldString newString replaceAll file.content = .ok edited ∧
            content = edited.content := by
  cases hrequest : t.request with
  | write text expected =>
    refine .inr ⟨t.existing.bind fun info => readBasis d info.size unread,
      normalizeLineEndings text, Utf8.encode text, by simp only [prepared, hrequest], ?_, ?_⟩
    · rintro _ _ ⟨⟩
      rfl
    · rintro _ _ _ _ ⟨⟩
  | edit oldString newString replaceAll expected =>
    cases hfile : d.current with
    | none => exact .inl ⟨ioFailure "edit" path .noent, by simp only [prepared, hrequest, hfile]⟩
    | some file =>
      cases hedit : editContent path oldString newString replaceAll file.content with
      | error failure => exact .inl ⟨failure, by simp only [prepared, hrequest, hfile, hedit]⟩
      | ok edited =>
        refine .inr ⟨some edited.before, edited.after, edited.content,
          by simp only [prepared, hrequest, hfile, hedit], ?_, ?_⟩
        · rintro _ _ ⟨⟩
        · rintro _ _ _ _ ⟨⟩
          exact ⟨file, edited, rfl, hedit, rfl⟩

/-- Publishing fails and leaves the directory alone, or replaces the target with what the
staging name names; a create finds no target to replace. -/
theorem published_cases (k : ℕ) (d : Directory) (t : Task) :
    (∃ error, published k d t = (d, { t with phase := .cleaning (some error) })) ∨
      ∃ i names, d.names t.number = some i ∧
        (t.request.createIfAbsent = true → d.target = none) ∧
        (names = d.names ∨ names = Function.update d.names t.number none) ∧
        published k d t =
          ({ d with target := some i, names := names, log := d.log ++ [⟨k, i, d.target⟩] },
            { t with phase := .cleaning none }) := by
  cases hname : d.names t.number with
  | none => exact .inl ⟨.noent, by simp only [published, hname]⟩
  | some i =>
    by_cases hcreate : t.request.createIfAbsent = true
    · cases htarget : d.target with
      | some j =>
        exact .inl ⟨.exist, by simp [published, hname, hcreate, htarget]⟩
      | none =>
        refine .inr ⟨i, d.names, rfl, fun _ => rfl, .inl rfl, ?_⟩
        simp [published, hname, hcreate, htarget]
    · refine .inr ⟨i, _, rfl, fun h => absurd h hcreate, .inr rfl, ?_⟩
      simp [published, hname, hcreate]

/-- A failing call refuses the request, or makes it clean up what it staged; only the last
metadata read fails after a publication. -/
theorem act_fail {error : Errno} (h : act path k d t (.fail error) = some (d', t')) :
    d' = d ∧ ((t.phase = .called ∨ t.phase = .checked ∨ t.phase = .prepared) ∧
        (∃ failure, t' = t.refuse failure) ∨
      (t.phase = .numbered ∨ Staged t.phase) ∧
        t' = { t with phase := .cleaning (some error) } ∨
      t.phase = .published ∧ t' = t.refuse (ioFailure t.request.verb path error)) := by
  cases hphase : t.phase with
  | called =>
    simp only [act, hphase] at h
    split at h
    · cases h
    · cases h
      exact ⟨rfl, .inl ⟨.inl rfl, _, rfl⟩⟩
  | checked =>
    simp only [act, hphase] at h
    split at h
    · cases h
    · cases h
      exact ⟨rfl, .inl ⟨.inr (.inl rfl), _, rfl⟩⟩
  | prepared =>
    simp only [act, hphase, Option.some.injEq, Prod.mk.injEq] at h
    exact ⟨h.1.symm, .inl ⟨.inr (.inr rfl), _, h.2.symm⟩⟩
  | numbered =>
    simp only [act, hphase, Option.some.injEq, Prod.mk.injEq] at h
    exact ⟨h.1.symm, .inr (.inl ⟨.inl rfl, h.2.symm⟩)⟩
  | staging =>
    simp only [act, hphase, Option.some.injEq, Prod.mk.injEq] at h
    exact ⟨h.1.symm, .inr (.inl ⟨.inr (.inl rfl), h.2.symm⟩)⟩
  | complete =>
    simp only [act, hphase, Option.some.injEq, Prod.mk.injEq] at h
    exact ⟨h.1.symm, .inr (.inl ⟨.inr (.inr rfl), h.2.symm⟩)⟩
  | cleaning _ => simp [act, hphase] at h
  | published =>
    simp only [act, hphase] at h
    split at h
    · cases h
    · cases h
      exact ⟨rfl, .inr (.inr ⟨rfl, rfl⟩)⟩
  | answered _ => simp [act, hphase] at h

/-- Cleaning up removes the staging name, or fails to; then the last metadata is read, or
the request is refused. -/
theorem act_clean {removed : Bool} (h : act path k d t (.clean removed) = some (d', t')) :
    (∃ names, (names = d.names ∨ names = Function.update d.names t.number none) ∧
      d' = { d with names := names }) ∧
    (t.phase = .cleaning none ∧ t' = { t with phase := .published } ∨
      (∃ error, t.phase = .cleaning (some error)) ∧ ∃ failure, t' = t.refuse failure) := by
  cases hphase : t.phase with
  | cleaning error =>
    simp only [act, hphase, Option.some.injEq, Prod.mk.injEq] at h
    refine ⟨⟨_, ?_, h.1.symm⟩, ?_⟩
    · cases removed
      · exact .inl rfl
      · exact .inr rfl
    · cases error with
      | none => exact .inl ⟨rfl, h.2.symm⟩
      | some error => exact .inr ⟨⟨error, rfl⟩, _, h.2.symm⟩
  | _ => simp [act, hphase] at h

/-- Making the staging file fails when its name exists; else it is a new, empty file. -/
theorem act_stage (h : act path k d t .stage = some (d', t')) :
    t.phase = .numbered ∧
      (d' = d ∧ t' = { t with phase := .cleaning (some .exist) } ∨
        d' = { d with
          files := d.files ++ [⟨[], ""⟩]
          names := Function.update d.names t.number (some d.files.length) } ∧
        t' = { t with phase := .staging, ino := d.files.length }) := by
  simp only [act] at h
  split at h
  · rename_i hphase
    split at h
    · cases h
      exact ⟨hphase, .inl ⟨rfl, rfl⟩⟩
    · cases h
      exact ⟨hphase, .inr ⟨rfl, rfl⟩⟩
  · cases h

/-- Writing puts more of the content into the staging file. -/
theorem act_write {length : ℕ} (h : act path k d t (.write length) = some (d', t')) :
    t.phase = .staging ∧ t' = t ∧ d' = { d with files := d.files.modify t.ino fun file =>
      { file with content := t.content.take length } } := by
  simp only [act] at h
  obtain ⟨⟨hphase, -⟩, h⟩ := Option.ite_none_right_eq_some.mp h
  cases h
  exact ⟨hphase, rfl, rfl⟩

/-- The writing ends when all of the content is in the staging file. -/
theorem act_sync {version : String} (h : act path k d t (.sync version) = some (d', t')) :
    t.phase = .staging ∧ (d.files[t.ino]?).map File.content = some t.content ∧
      t' = { t with phase := .complete } ∧
      d' = { d with files := d.files.modify t.ino fun file => { file with version := version } } := by
  simp only [act] at h
  obtain ⟨⟨hphase, hcontent⟩, h⟩ := Option.ite_none_right_eq_some.mp h
  cases h
  exact ⟨hphase, hcontent, rfl, rfl⟩

/-! ### The footprint of a call -/

section Names

variable {names : ℕ → Option ℕ} {n : ℕ}

/-- Removing a name, or not, changes no other name. -/
theorem names_of_ne (h : names = d.names ∨ names = Function.update d.names t.number none)
    (hn : n ≠ t.number) : names n = d.names n := by
  rcases h with rfl | rfl
  · rfl
  · exact Function.update_of_ne hn _ _

/-- Removing a name, or not, makes no name. -/
theorem names_of_some {i : ℕ} (h : names = d.names ∨ names = Function.update d.names t.number none)
    (hn : names n = some i) : d.names n = some i := by
  rcases h with rfl | rfl
  · exact hn
  · rw [Function.update_apply] at hn
    split at hn
    · cases hn
    · exact hn

end Names

/-- What a call of request `k` may touch. -/
structure Footprint (k : ℕ) (d : Directory) (t : Task) (d' : Directory) (t' : Task) : Prop where
  sequence : d.sequence ≤ d'.sequence
  length : d.files.length ≤ d'.files.length
  names : ∀ n, (Numbered t.phase → n ≠ t.number) → d'.names n = d.names n
  names_lt : (∀ n i, d.names n = some i → i < d.files.length) →
    ∀ n i, d'.names n = some i → i < d'.files.length
  files : ∀ i < d.files.length, (Staged t.phase → i ≠ t.ino) → d'.files[i]? = d.files[i]?
  log : d'.log = d.log ∧ d'.target = d.target ∨
    t.phase = .complete ∧ t' = { t with phase := .cleaning none } ∧ d'.files = d.files ∧
      (t.request.createIfAbsent = true → d.target = none) ∧
      ∃ i, d.names t.number = some i ∧ d'.target = some i ∧ d'.log = d.log ++ [⟨k, i, d.target⟩]
  number : Numbered t'.phase → Numbered t.phase ∧ t'.number = t.number ∨
    t'.number = d.sequence ∧ d'.sequence = d.sequence + 1
  ino : Staged t'.phase → Staged t.phase ∧ t'.ino = t.ino ∨ t'.ino = d.files.length
  past : Past t.phase → t' = { t with phase := t'.phase } ∧ Past t'.phase

/-- A call that leaves the directory alone, of a request that has not published. -/
theorem Footprint.local (hnumber : Numbered t'.phase → Numbered t.phase ∧ t'.number = t.number)
    (hino : ¬ Staged t'.phase) (hpast : Past t.phase → t' = { t with phase := t'.phase } ∧ Past t'.phase) :
    Footprint k d t d t' where
  sequence := Nat.le_refl _
  length := Nat.le_refl _
  names _ _ := rfl
  names_lt h := h
  files _ _ _ := rfl
  log := .inl ⟨rfl, rfl⟩
  number h := .inl (hnumber h)
  ino h := absurd h hino
  past := hpast

/-- Where a request that has not published goes on from. -/
theorem not_past {phase : Phase} (h : phase = .called ∨ phase = .checked ∨ phase = .prepared ∨
    phase = .numbered ∨ Staged phase ∨ ∃ error, phase = .cleaning (some error)) :
    ¬ Past phase := by
  rcases h with rfl | rfl | rfl | rfl | (rfl | rfl) | ⟨error, rfl⟩ <;> simp [Past]

/-- A request that is refused holds no number. -/
theorem refuse_numbered (t : Task) (failure : Failure) : ¬ Numbered (t.refuse failure).phase := by
  simp [Task.refuse, Numbered]

/-- A request that is refused has nothing staged. -/
theorem refuse_staged (t : Task) (failure : Failure) : ¬ Staged (t.refuse failure).phase := by
  simp [Task.refuse, Staged]

/-- A change of the request's own staging file. -/
theorem Footprint.modify (hphase : t.phase = .staging) {phase : Phase} (f : File → File) :
    Footprint k d t { d with files := d.files.modify t.ino f } { t with phase := phase } where
  sequence := Nat.le_refl _
  length := by simp
  names _ _ := rfl
  names_lt h n i hi := by simpa using h n i hi
  files i _ hne := by
    have hown : t.ino ≠ i := (hne (.inl hphase)).symm
    simp [hown]
  log := .inl ⟨rfl, rfl⟩
  number _ := .inl ⟨Staged.numbered (.inl hphase), rfl⟩
  ino _ := .inl ⟨.inl hphase, rfl⟩
  past hpast := absurd hpast (not_past (.inr (.inr (.inr (.inr (.inl (.inl hphase)))))))

/-- What any call touches. -/
theorem act_footprint (h : act path k d t a = some (d', t')) : Footprint k d t d' t' := by
  cases a with
  | check =>
    simp only [act] at h
    obtain ⟨hphase, h⟩ := Option.ite_none_right_eq_some.mp h
    cases h
    have hpast : ¬ Past t.phase := not_past (.inl hphase)
    rcases checked_cases path d t with ⟨failure, hchecked⟩ | ⟨-, hchecked⟩
    · rw [hchecked]
      exact .local (fun hn => absurd hn (refuse_numbered t failure)) (refuse_staged t failure)
        (fun hp => absurd hp hpast)
    · rw [hchecked]
      exact .local (by simp [Numbered]) (by simp [Staged]) (fun hp => absurd hp hpast)
  | prepare unread =>
    simp only [act] at h
    obtain ⟨hphase, h⟩ := Option.ite_none_right_eq_some.mp h
    cases h
    have hpast : ¬ Past t.phase := not_past (.inr (.inl hphase))
    rcases prepared_cases path d t unread with ⟨failure, hprepared⟩ | ⟨_, _, _, hprepared, -⟩
    · rw [hprepared]
      exact .local (fun hn => absurd hn (refuse_numbered t failure)) (refuse_staged t failure)
        (fun hp => absurd hp hpast)
    · rw [hprepared]
      exact .local (by simp [Numbered]) (by simp [Staged]) (fun hp => absurd hp hpast)
  | number =>
    simp only [act] at h
    obtain ⟨hphase, h⟩ := Option.ite_none_right_eq_some.mp h
    cases h
    refine ⟨Nat.le_succ _, Nat.le_refl _, fun _ _ => rfl, fun hlt => hlt, fun _ _ _ => rfl,
      .inl ⟨rfl, rfl⟩, fun _ => .inr ⟨rfl, rfl⟩, by simp [Staged], ?_⟩
    exact fun hp => absurd hp (not_past (.inr (.inr (.inl hphase))))
  | stage =>
    obtain ⟨hphase, ⟨rfl, rfl⟩ | ⟨rfl, rfl⟩⟩ := act_stage h
    · exact .local (fun _ => ⟨.inl hphase, rfl⟩) (by simp [Staged])
        (fun hp => absurd hp (not_past (.inr (.inr (.inr (.inl hphase))))))
    · refine ⟨Nat.le_refl _, by simp, fun n hn => ?_, fun hlt n i hi => ?_, fun i hi _ => ?_,
        .inl ⟨rfl, rfl⟩, fun _ => .inl ⟨.inl hphase, rfl⟩, fun _ => .inr rfl, ?_⟩
      · exact Function.update_of_ne (hn (.inl hphase)) _ _
      · by_cases hn : n = t.number
        · subst hn
          have hnew : d.files.length = i := by simpa using hi
          simp [hnew]
        · have hold : d.names n = some i := by simpa [hn] using hi
          have hlt' := hlt n i hold
          simp only [List.length_append, List.length_singleton]
          omega
      · exact List.getElem?_append_left hi
      · exact fun hp => absurd hp (not_past (.inr (.inr (.inr (.inl hphase)))))
  | write length =>
    obtain ⟨hphase, rfl, rfl⟩ := act_write h
    exact .modify hphase _
  | sync version =>
    obtain ⟨hphase, -, rfl, rfl⟩ := act_sync h
    exact .modify hphase _
  | publish =>
    simp only [act] at h
    obtain ⟨hphase, h⟩ := Option.ite_none_right_eq_some.mp h
    have hnumbered : Numbered t.phase := .inr (.inr (.inl hphase))
    have hpast : ¬ Past t.phase := not_past (.inr (.inr (.inr (.inr (.inl (.inr hphase))))))
    have h := Option.some.inj h
    rcases published_cases k d t with
      ⟨error, hpublished⟩ | ⟨i, names, hname, hcreate, hnames, hpublished⟩
    · rw [hpublished] at h
      cases h
      exact .local (fun _ => ⟨hnumbered, rfl⟩) (by simp [Staged]) (fun hp => absurd hp hpast)
    · rw [hpublished] at h
      cases h
      refine ⟨Nat.le_refl _, Nat.le_refl _, fun n hn => names_of_ne hnames (hn hnumbered),
        fun hlt n i hi => hlt n i (names_of_some hnames hi), fun _ _ _ => rfl,
        .inr ⟨hphase, rfl, rfl, hcreate, i, hname, rfl, rfl⟩, fun _ => .inl ⟨hnumbered, rfl⟩,
        by simp [Staged], fun hp => absurd hp hpast⟩
  | clean removed =>
    obtain ⟨⟨names, hnames, rfl⟩, hphase⟩ := act_clean h
    have hnumbered : Numbered t.phase := by
      rcases hphase with ⟨hphase, -⟩ | ⟨⟨error, hphase⟩, -⟩
      · exact .inr (.inr (.inr ⟨none, hphase⟩))
      · exact .inr (.inr (.inr ⟨some error, hphase⟩))
    refine ⟨Nat.le_refl _, Nat.le_refl _, fun n hn => names_of_ne hnames (hn hnumbered),
      fun hlt n i hi => hlt n i (names_of_some hnames hi), fun _ _ _ => rfl, .inl ⟨rfl, rfl⟩,
      ?_, ?_, ?_⟩
    · rcases hphase with ⟨-, rfl⟩ | ⟨-, failure, rfl⟩
      · simp [Numbered]
      · exact fun hn => absurd hn (refuse_numbered t failure)
    · rcases hphase with ⟨-, rfl⟩ | ⟨-, failure, rfl⟩
      · simp [Staged]
      · exact fun hs => absurd hs (refuse_staged t failure)
    · rcases hphase with ⟨-, rfl⟩ | ⟨hphase, -⟩
      · exact fun _ => ⟨rfl, .inr (.inl rfl)⟩
      · exact fun hp => absurd hp (not_past (.inr (.inr (.inr (.inr (.inr hphase))))))
  | report =>
    simp only [act] at h
    obtain ⟨-, h⟩ := Option.ite_none_right_eq_some.mp h
    cases h
    exact .local (by simp [Numbered]) (by simp [Staged])
      (fun _ => ⟨rfl, .inr (.inr ⟨_, rfl⟩)⟩)
  | fail error =>
    obtain ⟨rfl, ⟨hphase, failure, rfl⟩ | ⟨hphase, rfl⟩ | ⟨-, rfl⟩⟩ := act_fail h
    · refine .local (fun hn => absurd hn (refuse_numbered t failure)) (refuse_staged t failure)
        (fun hp => absurd hp (not_past ?_))
      rcases hphase with hphase | hphase | hphase
      · exact .inl hphase
      · exact .inr (.inl hphase)
      · exact .inr (.inr (.inl hphase))
    · refine .local (fun _ => ⟨?_, rfl⟩) (by simp [Staged]) (fun hp => absurd hp (not_past ?_))
      · rcases hphase with hphase | hphase
        · exact .inl hphase
        · exact hphase.numbered
      · rcases hphase with hphase | hphase
        · exact .inr (.inr (.inr (.inl hphase)))
        · exact .inr (.inr (.inr (.inr (.inl hphase))))
    · exact .local (fun hn => absurd hn (refuse_numbered t _)) (refuse_staged t _)
        (fun _ => ⟨rfl, .inr (.inr ⟨_, rfl⟩)⟩)

/-! ### Files that were published -/

/-- The same publications, and the same target, name the same files. -/
theorem targetAt_same (hlog : d'.log = d.log) (htarget : d'.target = d.target) (n : ℕ) :
    d'.targetAt n = d.targetAt n := by
  rw [Directory.targetAt, hlog, htarget]
  rfl

/-- After the last publication the target names what it names now. -/
theorem targetAt_length (d : Directory) : d.targetAt d.log.length = d.target := by
  rw [Directory.targetAt, List.getElem?_eq_none (Nat.le_refl _)]

section Append

variable {i : ℕ}

/-- A publication changes nothing of what the target named before. -/
theorem targetAt_append (hlog : d'.log = d.log ++ [⟨k, i, d.target⟩]) {n : ℕ}
    (hn : n ≤ d.log.length) : d'.targetAt n = d.targetAt n := by
  rcases Nat.lt_or_eq_of_le hn with hlt | rfl
  · rw [Directory.targetAt, hlog, List.getElem?_append_left hlt, Directory.targetAt,
      List.getElem?_eq_getElem hlt]
  · rw [Directory.targetAt, hlog, List.getElem?_concat_length, targetAt_length]

/-- After a publication the target names the file that was published. -/
theorem targetAt_append_last (hlog : d'.log = d.log ++ [⟨k, i, d.target⟩])
    (htarget : d'.target = some i) : d'.targetAt (d.log.length + 1) = some i := by
  have hlength : d.log.length + 1 = d'.log.length := by simp [hlog]
  rw [hlength, targetAt_length, htarget]

end Append

/-- What the target named stays as it is: the same files at the same time, with the same
bytes and version. -/
structure Grows (d d' : Directory) : Prop where
  log : d.log <+: d'.log
  targetAt : ∀ n ≤ d.log.length, d'.targetAt n = d.targetAt n
  files : ∀ n ≤ d.log.length, ∀ i, d.targetAt n = some i → d'.files[i]? = d.files[i]?
  sequence : d.sequence ≤ d'.sequence

/-- The staging file of a request: its staging name names it, and the target never did. -/
def Own (d : Directory) (t : Task) : Prop :=
  d.names t.number = some t.ino ∧ ∀ n ≤ d.log.length, d.targetAt n ≠ some t.ino

/-- A call of a request that writes only its own staging file. -/
theorem Footprint.grows (h : Footprint k d t d' t')
    (htargets : ∀ n ≤ d.log.length, ∀ i, d.targetAt n = some i → i < d.files.length)
    (hown : Staged t.phase → Own d t) : Grows d d' where
  log := by
    rcases h.log with ⟨hlog, -⟩ | ⟨-, -, -, -, i, -, -, hlog⟩
    · exact ⟨[], by rw [hlog, List.append_nil]⟩
    · exact ⟨_, hlog.symm⟩
  targetAt n hn := by
    rcases h.log with ⟨hlog, htarget⟩ | ⟨-, -, -, -, i, -, -, hlog⟩
    · exact targetAt_same hlog htarget n
    · exact targetAt_append hlog hn
  files n hn i hi := by
    refine h.files i (htargets n hn i hi) ?_
    rintro hstaged rfl
    exact (hown hstaged).2 n hn hi
  sequence := h.sequence

/-! ### What holds of a request -/

/-- The version a request is guarded with. -/
def guardOf : Request → Option String
  | .write _ (some (.replaceIfVersion version)) => some version
  | .write _ _ => none
  | .edit _ _ _ expected => expected

/-- What a request saw when it checked: the file the target named, with the version that the
request is guarded with. -/
structure Checked (d : Directory) (t : Task) : Prop where
  le : t.checkedAt ≤ d.log.length
  seen : d.targetAt t.checkedAt = t.seen
  version : ∀ version, guardOf t.request = some version →
    ∃ i file, t.seen = some i ∧ d.files[i]? = some file ∧ file.version = version

/-- What a request is to publish: the text of a write, or what an edit makes of the file
that the target named when it read. -/
structure Based (path : String) (d : Directory) (t : Task) : Prop extends Checked d t where
  order : t.checkedAt ≤ t.readAt
  read_le : t.readAt ≤ d.log.length
  write : ∀ text expected, t.request = .write text expected → t.content = Utf8.encode text
  edit : ∀ oldString newString replaceAll expected,
    t.request = .edit oldString newString replaceAll expected →
    ∃ i file edited, d.targetAt t.readAt = some i ∧ d.files[i]? = some file ∧
      editContent path oldString newString replaceAll file.content = .ok edited ∧
      t.content = edited.content

/-- What a request saw stays what it saw. -/
theorem Checked.mono (h : Checked d t) (hgrows : Grows d d') : Checked d' t where
  le := Nat.le_trans h.le hgrows.log.length_le
  seen := (hgrows.targetAt _ h.le).trans h.seen
  version version hversion := by
    obtain ⟨i, file, hi, hfile, hv⟩ := h.version version hversion
    have hsame := hgrows.files _ h.le i (h.seen.trans hi)
    exact ⟨i, file, hi, hsame.trans hfile, hv⟩

/-- What a request is to publish stays what it is. -/
theorem Based.mono (h : Based path d t) (hgrows : Grows d d') : Based path d' t where
  toChecked := h.toChecked.mono hgrows
  order := h.order
  read_le := Nat.le_trans h.read_le hgrows.log.length_le
  write := h.write
  edit oldString newString replaceAll expected hrequest := by
    obtain ⟨i, file, edited, hi, hfile, hedit, hcontent⟩ :=
      h.edit oldString newString replaceAll expected hrequest
    have hsame := hgrows.files _ h.read_le i hi
    exact ⟨i, file, edited, (hgrows.targetAt _ h.read_le).trans hi, hsame.trans hfile, hedit,
      hcontent⟩

/-- What a request saw does not depend on where it stands. -/
theorem Checked.of_same (h : Checked d t) (hrequest : t'.request = t.request)
    (hseen : t'.seen = t.seen) (hat : t'.checkedAt = t.checkedAt) : Checked d t' where
  le := hat ▸ h.le
  seen := by rw [hat, hseen, h.seen]
  version := by
    rw [hrequest, hseen]
    exact h.version

/-- What a request is to publish does not depend on where it stands. -/
theorem Based.of_same (h : Based path d t) (hrequest : t'.request = t.request)
    (hseen : t'.seen = t.seen) (hat : t'.checkedAt = t.checkedAt) (hread : t'.readAt = t.readAt)
    (hcontent : t'.content = t.content) : Based path d t' where
  toChecked := h.toChecked.of_same hrequest hseen hat
  order := by rw [hat, hread]; exact h.order
  read_le := hread ▸ h.read_le
  write := by
    rw [hrequest, hcontent]
    exact h.write
  edit := by
    rw [hrequest, hcontent, hread]
    exact h.edit

/-- The request has published. -/
def Published (d : Directory) (k : ℕ) : Prop := ∃ e ∈ d.log, e.task = k

/-- What holds of a request where it stands. -/
def Fits (path : String) (d : Directory) (k : ℕ) (t : Task) : Prop :=
  match t.phase with
  | .called => ¬ Published d k
  | .checked => ¬ Published d k ∧ Checked d t
  | .prepared => ¬ Published d k ∧ Based path d t
  | .numbered => ¬ Published d k ∧ Based path d t ∧ t.number < d.sequence
  | .staging => ¬ Published d k ∧ Based path d t ∧ t.number < d.sequence ∧ Own d t
  | .complete =>
    ¬ Published d k ∧ Based path d t ∧ t.number < d.sequence ∧ Own d t ∧
      (d.files[t.ino]?).map File.content = some t.content
  | .cleaning (some _) => ¬ Published d k ∧ t.number < d.sequence
  | .cleaning none => Published d k ∧ t.number < d.sequence
  | .published => Published d k
  | .answered (.failed failure) =>
    Published d k → ∃ error, failure = ioFailure t.request.verb path error
  | .answered _ => Published d k

/-! ### One call and one request -/

/-- A guard that is passed saw its version. -/
theorem checkTarget_guard {existing : Option Info} {request : Request} {version : String}
    (h : checkTarget path existing request = .ok ()) (hguard : guardOf request = some version) :
    ∃ info, existing = some info ∧ info.version = version := by
  cases request with
  | write text expected =>
    rcases expected with _ | (_ | wanted)
    · cases hguard
    · cases hguard
    · obtain rfl := Option.some.inj hguard
      cases existing with
      | none => cases h
      | some info =>
        simp only [checkTarget, guardWrite] at h
        obtain ⟨-, h⟩ := check_eq_ok_iff.mp h
        exact ⟨info, rfl, not_not.mp (check_eq_ok_iff.mp h).1⟩
  | edit oldString newString replaceAll expected =>
    obtain rfl : expected = some version := hguard
    cases existing with
    | none => cases h
    | some info =>
      simp only [checkTarget] at h
      obtain ⟨-, h⟩ := check_eq_ok_iff.mp h
      exact ⟨info, rfl, not_not.mp (check_eq_ok_iff.mp h).1⟩

/-- The file the target names. -/
theorem current_eq_some {file : File} (h : d.current = some file) :
    ∃ i, d.target = some i ∧ d.files[i]? = some file :=
  Option.bind_eq_some_iff.mp h

/-- A request that publishes nothing keeps what holds of a refusal. -/
theorem fits_refuse (failure : Failure) (h : ¬ Published d k) : Fits path d k (t.refuse failure) :=
  fun hpublished => absurd hpublished h

/-- What holds of another request where it stands holds after a call. -/
theorem Fits.spared {l : ℕ} (hfits : Fits path d l u) (hgrows : Grows d d')
    (hpublished : Published d' l ↔ Published d l)
    (hown : Staged u.phase → Own d u → Own d' u ∧ d'.files[u.ino]? = d.files[u.ino]?) :
    Fits path d' l u := by
  have hsequence := hgrows.sequence
  unfold Fits at hfits ⊢
  cases hphase : u.phase with
  | called =>
    rw [hphase] at hfits
    exact (not_congr hpublished).mpr hfits
  | checked =>
    rw [hphase] at hfits
    exact ⟨(not_congr hpublished).mpr hfits.1, hfits.2.mono hgrows⟩
  | prepared =>
    rw [hphase] at hfits
    exact ⟨(not_congr hpublished).mpr hfits.1, hfits.2.mono hgrows⟩
  | numbered =>
    rw [hphase] at hfits
    exact ⟨(not_congr hpublished).mpr hfits.1, hfits.2.1.mono hgrows,
      Nat.lt_of_lt_of_le hfits.2.2 hsequence⟩
  | staging =>
    rw [hphase] at hfits
    exact ⟨(not_congr hpublished).mpr hfits.1, hfits.2.1.mono hgrows,
      Nat.lt_of_lt_of_le hfits.2.2.1 hsequence, (hown (.inl hphase) hfits.2.2.2).1⟩
  | complete =>
    rw [hphase] at hfits
    obtain ⟨hnot, hbased, hnumber, hmine, hcontent⟩ := hfits
    obtain ⟨hmine', hfile⟩ := hown (.inr hphase) hmine
    exact ⟨(not_congr hpublished).mpr hnot, hbased.mono hgrows,
      Nat.lt_of_lt_of_le hnumber hsequence, hmine', hfile ▸ hcontent⟩
  | cleaning error =>
    rw [hphase] at hfits
    cases error with
    | none => exact ⟨hpublished.mpr hfits.1, Nat.lt_of_lt_of_le hfits.2 hsequence⟩
    | some error =>
      exact ⟨(not_congr hpublished).mpr hfits.1, Nat.lt_of_lt_of_le hfits.2 hsequence⟩
  | published =>
    rw [hphase] at hfits
    exact hpublished.mpr hfits
  | answered answer =>
    rw [hphase] at hfits
    cases answer with
    | wrote created version before after => exact hpublished.mpr hfits
    | edited version before after => exact hpublished.mpr hfits
    | failed failure => exact fun h => hfits (hpublished.mp h)

/-- What holds of a request, at a phase that is known. -/
theorem Fits.at {phase : Phase} (hfits : Fits path d k t) (hphase : t.phase = phase) :
    Fits path d k { t with phase := phase } := by
  subst hphase
  exact hfits

/-- A request that has not published keeps what it is to publish, and loses its number, when
it fails. -/
theorem Fits.unpublished (hfits : Fits path d k t)
    (hphase : t.phase = .called ∨ t.phase = .checked ∨ t.phase = .prepared ∨
      t.phase = .numbered ∨ Staged t.phase ∨ ∃ error, t.phase = .cleaning (some error)) :
    ¬ Published d k := by
  rcases hphase with h | h | h | h | (h | h) | ⟨error, h⟩
  · exact hfits.at h
  · exact (hfits.at h).1
  · exact (hfits.at h).1
  · exact (hfits.at h).1
  · exact (hfits.at h).1
  · exact (hfits.at h).1
  · exact (hfits.at h).1

/-- A numbered request holds a number that was given out. -/
theorem Fits.number_lt (hfits : Fits path d k t) (h : Numbered t.phase) :
    t.number < d.sequence := by
  rcases h with h | h | h | ⟨error, h⟩
  · exact (hfits.at h).2.2
  · exact (hfits.at h).2.2.1
  · exact (hfits.at h).2.2.1
  · cases error with
    | none => exact (hfits.at h).2
    | some error => exact (hfits.at h).2

/-- A staged request owns its staging file. -/
theorem Fits.own (hfits : Fits path d k t) (h : Staged t.phase) : Own d t := by
  rcases h with h | h
  · exact (hfits.at h).2.2.2
  · exact (hfits.at h).2.2.2.1

/-- After one of its calls, what holds of a request where it then stands. -/
theorem act_fits (h : act path k d t a = some (d', t')) (hfits : Fits path d k t)
    (hgrows : Grows d d')
    (htargets : ∀ n ≤ d.log.length, ∀ i, d.targetAt n = some i → i < d.files.length) :
    Fits path d' k t' := by
  cases a with
  | check =>
    simp only [act] at h
    obtain ⟨hphase, h⟩ := Option.ite_none_right_eq_some.mp h
    have hnot : ¬ Published d k := hfits.at hphase
    cases h
    rcases checked_cases path d t with ⟨failure, hchecked⟩ | ⟨hcheck, hchecked⟩
    · rw [hchecked]
      exact fits_refuse failure hnot
    · rw [hchecked]
      refine ⟨hnot, Nat.le_refl _, targetAt_length d, fun version hversion => ?_⟩
      obtain ⟨info, hinfo, hv⟩ := checkTarget_guard hcheck hversion
      obtain ⟨file, hfile, rfl⟩ := Option.map_eq_some_iff.mp hinfo
      obtain ⟨i, hi, hfile⟩ := current_eq_some hfile
      exact ⟨i, file, hi, hfile, hv⟩
  | prepare unread =>
    simp only [act] at h
    obtain ⟨hphase, h⟩ := Option.ite_none_right_eq_some.mp h
    obtain ⟨hnot, hchecked⟩ := hfits.at hphase
    cases h
    rcases prepared_cases path d t unread with
      ⟨failure, hprepared⟩ | ⟨before, after, content, hprepared, hwrite, hedit⟩
    · rw [hprepared]
      exact fits_refuse failure hnot
    · rw [hprepared]
      refine ⟨hnot, hchecked.of_same rfl rfl rfl, hchecked.le, Nat.le_refl _, hwrite, ?_⟩
      intro oldString newString replaceAll expected hrequest
      obtain ⟨file, edited, hfile, hok, hcontent⟩ := hedit _ _ _ _ hrequest
      obtain ⟨i, hi, hfile⟩ := current_eq_some hfile
      exact ⟨i, file, edited, (targetAt_length d).trans hi, hfile, hok, hcontent⟩
  | number =>
    simp only [act] at h
    obtain ⟨hphase, h⟩ := Option.ite_none_right_eq_some.mp h
    obtain ⟨hnot, hbased⟩ := hfits.at hphase
    cases h
    exact ⟨hnot, (hbased.mono hgrows).of_same rfl rfl rfl rfl rfl, Nat.lt_succ_self _⟩
  | stage =>
    obtain ⟨hphase, hstage⟩ := act_stage h
    obtain ⟨hnot, hbased, hnumber⟩ := hfits.at hphase
    rcases hstage with ⟨rfl, rfl⟩ | ⟨rfl, rfl⟩
    · exact ⟨hnot, hnumber⟩
    · refine ⟨hnot, (hbased.mono hgrows).of_same rfl rfl rfl rfl rfl, hnumber, ?_, ?_⟩
      · exact Function.update_self _ _ _
      · -- the new file is none of those the target ever named
        intro n hn heq
        exact Nat.lt_irrefl _ (htargets n hn _ heq)
  | write length =>
    obtain ⟨hphase, rfl, rfl⟩ := act_write h
    obtain ⟨hnot, hbased, hnumber, hmine⟩ := hfits.at hphase
    have hfits' : Fits path { d with files := d.files.modify t'.ino fun file =>
        { file with content := t'.content.take length } } k { t' with phase := .staging } :=
      ⟨hnot, (hbased.mono hgrows).of_same rfl rfl rfl rfl rfl, hnumber, hmine⟩
    rw [← hphase] at hfits'
    exact hfits'
  | sync version =>
    obtain ⟨hphase, hcontent, rfl, rfl⟩ := act_sync h
    obtain ⟨hnot, hbased, hnumber, hmine⟩ := hfits.at hphase
    refine ⟨hnot, (hbased.mono hgrows).of_same rfl rfl rfl rfl rfl, hnumber, hmine, ?_⟩
    obtain ⟨file, hfile, hall⟩ := Option.map_eq_some_iff.mp hcontent
    show ((d.files.modify t.ino _)[t.ino]?).map File.content = some t.content
    rw [List.getElem?_modify, hfile, ← hall]
    simp
  | publish =>
    simp only [act] at h
    obtain ⟨hphase, h⟩ := Option.ite_none_right_eq_some.mp h
    obtain ⟨hnot, -, hnumber, -⟩ := hfits.at hphase
    have h := Option.some.inj h
    rcases published_cases k d t with
      ⟨error, hpublished⟩ | ⟨i, names, -, -, -, hpublished⟩
    · rw [hpublished] at h
      cases h
      exact ⟨hnot, hnumber⟩
    · rw [hpublished] at h
      cases h
      exact ⟨⟨_, List.mem_append_right _ List.mem_cons_self, rfl⟩, hnumber⟩
  | clean removed =>
    obtain ⟨⟨names, -, rfl⟩, ⟨hphase, rfl⟩ | ⟨⟨error, hphase⟩, failure, rfl⟩⟩ := act_clean h
    · exact (hfits.at hphase).1
    · exact fits_refuse failure (hfits.at hphase).1
  | report =>
    simp only [act] at h
    obtain ⟨hphase, h⟩ := Option.ite_none_right_eq_some.mp h
    have hpublished : Published d k := hfits.at hphase
    cases h
    have hsuccess : ∀ answer, success path d t = answer →
        Fits path d k { t with phase := .answered answer } := by
      intro answer hanswer
      unfold success at hanswer
      cases hrequest : t.request with
      | write text expected =>
        simp only [hrequest] at hanswer
        subst hanswer
        exact hpublished
      | edit oldString newString replaceAll expected =>
        simp only [hrequest] at hanswer
        subst hanswer
        exact hpublished
    exact hsuccess _ rfl
  | fail error =>
    obtain ⟨rfl, ⟨hphase, failure, rfl⟩ | ⟨hphase, rfl⟩ | ⟨-, rfl⟩⟩ := act_fail h
    · refine fits_refuse failure (hfits.unpublished ?_)
      rcases hphase with hphase | hphase | hphase
      · exact .inl hphase
      · exact .inr (.inl hphase)
      · exact .inr (.inr (.inl hphase))
    · rcases hphase with hphase | hphase
      · exact ⟨hfits.unpublished (.inr (.inr (.inr (.inl hphase)))),
          hfits.number_lt (.inl hphase)⟩
      · exact ⟨hfits.unpublished (.inr (.inr (.inr (.inr (.inl hphase))))),
          hfits.number_lt hphase.numbered⟩
    · exact fun _ => ⟨error, rfl⟩

end RemoteWorkspace.Analysis.FsWrites
