import RemoteWorkspace.Analysis.AnchorPersistence
import RemoteWorkspace.Computation.Slots
import RemoteWorkspace.Model.AnchorCalls

/-!
# One owner for each anchor directory

A creation looks for the owner of its path among the records in memory, and its own record
joins them two waits later. Two creations of one directory that overlap both find no owner.
Directories keep one owner when no creation starts while another one of its directory is
between its check and its record, and only then (`one_owner`).
-/

set_option autoImplicit false

namespace RemoteWorkspace.Analysis.AnchorCalls

open RemoteWorkspace.Computation RemoteWorkspace.Model RemoteWorkspace.Model.Anchors
open RemoteWorkspace.Model.AnchorCalls RemoteWorkspace.Analysis.Anchors

variable {before : String → String → Bool} {root : String} {s t : Calls}

/-! ### Owners -/

/-- No two records have one path, and no record's metadata file was written again while the
record was held. -/
def OneOwner (s : Calls) : Prop :=
  (s.anchors.map AnchorRecord.anchorPath).Nodup ∧ s.overwritten = []

/-- A creation between its check and its record. -/
def InFlight (phase : CreatePhase) : Prop := phase = .checked ∨ phase = .made ∨ phase = .written

/-- The record of the creation that an event starts, if the check lets it. -/
def begun (root : String) (s : Calls) : Event → Option AnchorRecord
  | .create draft anchorId createdAt => some (newRecord root draft anchorId createdAt)
  | .adopt nodeId repoPath path branch anchorId createdAt =>
    if (heldRemote s nodeId repoPath path).isSome then none
    else some (newRecord root (adoptDraft nodeId repoPath path branch) anchorId createdAt)
  | .resolved i canonicalPath anchorId createdAt =>
    (s.openings[i]?).map fun nodeId =>
      newRecord root (directoryDraft nodeId canonicalPath) anchorId createdAt
  | _ => none

/-- A creation that passes the check is the only one of its directory, and no record has the
directory under another spelling. -/
def Alone (root : String) (s : Calls) (e : Event) : Prop :=
  ∀ record, begun root s e = some record →
    (∀ r ∈ s.anchors, r.anchorPath ≠ record.anchorPath) →
    (∀ c ∈ s.creates, InFlight c.phase → dirOf c.record ≠ dirOf record) ∧
      ∀ r ∈ s.anchors, dirOf r ≠ dirOf record

/-! ### Keys that one record has -/

section Single

variable {K : Type} {key : AnchorRecord → Option K} {anchors : List AnchorRecord}
  {creates : List Creating} {c : Creating} {k : ℕ}

/-- Two records have no key in common. -/
def KeysApart (key : AnchorRecord → Option K) (r r' : AnchorRecord) : Prop :=
  ∀ x ∈ key r, ∀ y ∈ key r', x ≠ y

/-- Records that are apart, the other way round. -/
theorem KeysApart.symm {r r' : AnchorRecord} (h : KeysApart key r r') : KeysApart key r' r :=
  fun x hx y hy => (h y hy x hx).symm

/-- Every key is that of one record that is held, or of one creation in flight. -/
structure Single (key : AnchorRecord → Option K) (anchors : List AnchorRecord)
    (creates : List Creating) : Prop where
  held : (anchors.filterMap key).Nodup
  flights : ∀ (i j : ℕ) (c c' : Creating), creates[i]? = some c → creates[j]? = some c' → i ≠ j →
    InFlight c.phase → InFlight c'.phase → KeysApart key c.record c'.record
  apart : ∀ c ∈ creates, InFlight c.phase → ∀ r ∈ anchors, KeysApart key r c.record

/-- A creation that starts with a key of its own. -/
theorem Single.start (h : Single key anchors creates) {record : AnchorRecord}
    (hflights : ∀ c ∈ creates, InFlight c.phase → KeysApart key c.record record)
    (hheld : ∀ r ∈ anchors, KeysApart key r record) :
    Single key anchors (creates ++ [⟨record, .checked⟩]) where
  held := h.held
  flights i j c c' hc hc' hne hin hin' := by
    rcases getElem?_concat_cases hc with hc | ⟨rfl, rfl⟩
    · rcases getElem?_concat_cases hc' with hc' | ⟨-, rfl⟩
      · exact h.flights i j c c' hc hc' hne hin hin'
      · exact hflights c (List.mem_of_getElem? hc) hin
    · rcases getElem?_concat_cases hc' with hc' | ⟨rfl, -⟩
      · exact (hflights c' (List.mem_of_getElem? hc') hin').symm
      · exact absurd rfl hne
  apart c hc hin r hr := by
    rcases List.mem_append.mp hc with hc | hc
    · exact h.apart c hc hin r hr
    · rw [List.mem_singleton.mp hc]
      exact hheld r hr

/-- A creation in flight goes on, or ends. -/
theorem Single.move (h : Single key anchors creates) (hc : creates[k]? = some c)
    (hin : InFlight c.phase) (phase : CreatePhase) :
    Single key anchors (creates.set k { c with phase := phase }) where
  held := h.held
  flights i j d d' hd hd' hne hind hind' := by
    rcases getElem?_set_cases hd with ⟨rfl, rfl⟩ | ⟨hki, hd⟩
    · rcases getElem?_set_cases hd' with ⟨rfl, -⟩ | ⟨-, hd'⟩
      · exact absurd rfl hne
      · exact h.flights k j c d' hc hd' hne hin hind'
    · rcases getElem?_set_cases hd' with ⟨rfl, rfl⟩ | ⟨-, hd'⟩
      · exact h.flights i k d c hd hc hne hind hin
      · exact h.flights i j d d' hd hd' hne hind hind'
  apart d hd hind r hr := by
    rcases List.mem_or_eq_of_mem_set hd with hd | rfl
    · exact h.apart d hd hind r hr
    · exact h.apart c (List.mem_of_getElem? hc) hin r hr

/-- A creation ends with its record held. -/
theorem Single.append (h : Single key anchors creates) (hc : creates[k]? = some c)
    (hin : InFlight c.phase) :
    Single key (anchors ++ [c.record]) (creates.set k { c with phase := .held }) where
  held := by
    rw [List.filterMap_append, List.nodup_append]
    refine ⟨h.held, ?_, fun x hx y hy => ?_⟩
    · cases hkey : key c.record with
      | none => simp [hkey]
      | some x => simp [hkey]
    · obtain ⟨r, hr, hrx⟩ := List.mem_filterMap.mp hx
      obtain ⟨r', hr', hry⟩ := List.mem_filterMap.mp hy
      rw [List.mem_singleton.mp hr'] at hry
      exact h.apart c (List.mem_of_getElem? hc) hin r hr x hrx y hry
  flights := (h.move hc hin .held).flights
  apart d hd hind r hr := by
    obtain ⟨i, hi⟩ := List.mem_iff_getElem?.mp hd
    rcases getElem?_set_cases hi with ⟨-, rfl⟩ | ⟨hne, hi⟩
    · simp [InFlight] at hind
    · rcases List.mem_append.mp hr with hr | hr
      · exact h.apart d (List.mem_of_getElem? hi) hind r hr
      · rw [List.mem_singleton.mp hr]
        exact h.flights k i c d hc hi hne hin hind

/-- Records are dropped. -/
theorem Single.filter (h : Single key anchors creates) (p : AnchorRecord → Bool) :
    Single key (anchors.filter p) creates where
  held := h.held.sublist (List.filter_sublist.filterMap key)
  flights := h.flights
  apart c hc hin r hr := h.apart c hc hin r (List.mem_filter.mp hr).1

end Single

/-! ### Directories that one record has -/

/-- Every directory has one owner: a record, or a creation in flight. -/
structure Owned (anchors : List AnchorRecord) (creates : List Creating) : Prop where
  held : (anchors.map dirOf).Nodup
  flights : ∀ (i j : ℕ) (c c' : Creating), creates[i]? = some c → creates[j]? = some c' → i ≠ j →
    InFlight c.phase → InFlight c'.phase → dirOf c.record ≠ dirOf c'.record
  apart : ∀ c ∈ creates, InFlight c.phase → ∀ r ∈ anchors, dirOf r ≠ dirOf c.record

/-- The directory of a record, as a key. -/
def dirKey (r : AnchorRecord) : Option Path := some (dirOf r)

/-- Records of two directories. -/
theorem apart_dirKey {r r' : AnchorRecord} : KeysApart dirKey r r' ↔ dirOf r ≠ dirOf r' := by
  simp [KeysApart, dirKey]

/-- Directories have one owner when each is a key of one record. -/
theorem owned_iff {anchors : List AnchorRecord} {creates : List Creating} :
    Owned anchors creates ↔ Single dirKey anchors creates := by
  have hmap : anchors.filterMap dirKey = anchors.map dirOf :=
    congrFun (List.filterMap_eq_map (f := dirOf)) anchors
  constructor
  · rintro ⟨hheld, hflights, hapart⟩
    refine ⟨hmap ▸ hheld, ?_, ?_⟩
    · intro i j c c' hc hc' hne hin hin'
      exact apart_dirKey.mpr (hflights i j c c' hc hc' hne hin hin')
    · intro c hc hin r hr
      exact apart_dirKey.mpr (hapart c hc hin r hr)
  · rintro ⟨hheld, hflights, hapart⟩
    refine ⟨hmap ▸ hheld, ?_, ?_⟩
    · intro i j c c' hc hc' hne hin hin'
      exact apart_dirKey.mp (hflights i j c c' hc hc' hne hin hin')
    · intro c hc hin r hr
      exact apart_dirKey.mp (hapart c hc hin r hr)

/-- Directories with one owner have one path each. -/
theorem Owned.nodup_paths {anchors : List AnchorRecord} {creates : List Creating}
    (h : Owned anchors creates) : (anchors.map AnchorRecord.anchorPath).Nodup := by
  have hheld := h.held
  have hmap : anchors.map dirOf = (anchors.map AnchorRecord.anchorPath).map segmentsOf := by
    rw [List.map_map]
    rfl
  rw [hmap] at hheld
  exact hheld.of_map

/-! ### What a piece of a call does -/

/-- A creation that is begun is refused, or is in flight. -/
theorem beginCreate_some {draft : AnchorDraft} {anchorId createdAt : String}
    (h : beginCreate root s draft anchorId createdAt = some t) :
    t = s ∧ (∃ r ∈ s.anchors, r.anchorPath = (newRecord root draft anchorId createdAt).anchorPath) ∨
      (∀ r ∈ s.anchors, r.anchorPath ≠ (newRecord root draft anchorId createdAt).anchorPath) ∧
        t = { s with
          creates := s.creates ++ [⟨newRecord root draft anchorId createdAt, .checked⟩] } := by
  simp only [beginCreate] at h
  split at h
  · rename_i hany
    obtain ⟨r, hr, heq⟩ := List.any_eq_true.mp hany
    exact .inl ⟨(Option.some.inj h).symm, r, hr, of_decide_eq_true heq⟩
  · rename_i hany
    split at h
    · cases h
    · refine .inr ⟨fun r hr heq => hany ?_, (Option.some.inj h).symm⟩
      exact List.any_eq_true.mpr ⟨r, hr, decide_eq_true heq⟩

/-- An event that begins a creation: the check refuses it, or it is in flight. -/
theorem step_begun {e : Event} {record : AnchorRecord} (hbegun : begun root s e = some record)
    (h : AnchorCalls.step root s e = some t) :
    t.anchors = s.anchors ∧ t.overwritten = s.overwritten ∧
      (t.creates = s.creates ∧ (∃ r ∈ s.anchors, r.anchorPath = record.anchorPath) ∨
        (∀ r ∈ s.anchors, r.anchorPath ≠ record.anchorPath) ∧
          t.creates = s.creates ++ [⟨record, .checked⟩]) := by
  cases e with
  | create draft anchorId createdAt =>
    obtain rfl := Option.some.inj hbegun
    rcases beginCreate_some h with ⟨rfl, hheld⟩ | ⟨hfree, rfl⟩
    · exact ⟨rfl, rfl, .inl ⟨rfl, hheld⟩⟩
    · exact ⟨rfl, rfl, .inr ⟨hfree, rfl⟩⟩
  | adopt nodeId repoPath path branch anchorId createdAt =>
    simp only [begun] at hbegun
    simp only [AnchorCalls.step] at h
    split at hbegun
    · cases hbegun
    · rename_i hheld
      rw [if_neg hheld] at h
      obtain rfl := Option.some.inj hbegun
      rcases beginCreate_some h with ⟨rfl, hheld⟩ | ⟨hfree, rfl⟩
      · exact ⟨rfl, rfl, .inl ⟨rfl, hheld⟩⟩
      · exact ⟨rfl, rfl, .inr ⟨hfree, rfl⟩⟩
  | resolved i canonicalPath anchorId createdAt =>
    obtain ⟨nodeId, hopening, rfl⟩ := Option.map_eq_some_iff.mp hbegun
    simp only [AnchorCalls.step, hopening] at h
    rcases beginCreate_some h with ⟨rfl, hheld⟩ | ⟨hfree, rfl⟩
    · exact ⟨rfl, rfl, .inl ⟨rfl, hheld⟩⟩
    · exact ⟨rfl, rfl, .inr ⟨hfree, rfl⟩⟩
  | _ => cases hbegun

/-- What an event that begins no creation does to the owners: nothing; a creation goes on; it
writes its metadata file over those of the records that have its directory; it adds its
record; records are dropped. -/
inductive Effect (s t : Calls) : Prop
  | none (hanchors : t.anchors = s.anchors) (hcreates : t.creates = s.creates)
      (hover : t.overwritten = s.overwritten)
  | moved (k : ℕ) (c : Creating) (phase : CreatePhase) (hc : s.creates[k]? = some c)
      (hin : InFlight c.phase) (hanchors : t.anchors = s.anchors)
      (hcreates : t.creates = s.creates.set k { c with phase := phase })
      (hover : t.overwritten = s.overwritten)
  | written (k : ℕ) (c : Creating) (hc : s.creates[k]? = some c) (hin : InFlight c.phase)
      (hanchors : t.anchors = s.anchors)
      (hcreates : t.creates = s.creates.set k { c with phase := .written })
      (hover : t.overwritten =
        s.overwritten ++ s.anchors.filter fun r => decide (dirOf r = dirOf c.record))
  | held (k : ℕ) (c : Creating) (hc : s.creates[k]? = some c) (hin : InFlight c.phase)
      (hanchors : t.anchors = s.anchors ++ [c.record])
      (hcreates : t.creates = s.creates.set k { c with phase := .held })
      (hover : t.overwritten = s.overwritten)
  | dropped (p : AnchorRecord → Bool) (hanchors : t.anchors = s.anchors.filter p)
      (hcreates : t.creates = s.creates) (hover : t.overwritten = s.overwritten)

/-- An event that begins no creation. -/
theorem step_effect {e : Event} (hbegun : begun root s e = none)
    (h : AnchorCalls.step root s e = some t) : Effect s t := by
  cases e with
  | create draft anchorId createdAt => cases hbegun
  | adopt nodeId repoPath path branch anchorId createdAt =>
    simp only [begun] at hbegun
    simp only [AnchorCalls.step] at h
    split at hbegun
    · rename_i hheld
      rw [if_pos hheld] at h
      obtain rfl := Option.some.inj h
      exact .none rfl rfl rfl
    · cases hbegun
  | openDirectory nodeId repoPath =>
    simp only [AnchorCalls.step] at h
    split at h <;> obtain rfl := Option.some.inj h <;> exact .none rfl rfl rfl
  | resolved i canonicalPath anchorId createdAt =>
    have hopening := Option.map_eq_none_iff.mp hbegun
    simp only [AnchorCalls.step, hopening] at h
    cases h
  | made k =>
    simp only [AnchorCalls.step] at h
    split at h
    · rename_i record hk
      obtain rfl := Option.some.inj h
      exact .moved k _ .made hk (.inl rfl) rfl rfl rfl
    · cases h
  | written k =>
    simp only [AnchorCalls.step] at h
    split at h
    · rename_i record hk
      obtain rfl := Option.some.inj h
      exact .written k _ hk (.inr (.inl rfl)) rfl rfl rfl
    · cases h
  | appended k =>
    simp only [AnchorCalls.step] at h
    split at h
    · rename_i record hk
      obtain rfl := Option.some.inj h
      exact .held k _ hk (.inr (.inr rfl)) rfl rfl rfl
    · cases h
  | createFailed k =>
    simp only [AnchorCalls.step] at h
    split at h
    · rename_i record hk
      obtain rfl := Option.some.inj h
      exact .moved k _ .failed hk (.inl rfl) rfl rfl rfl
    · rename_i record hk
      obtain rfl := Option.some.inj h
      exact .moved k _ .failed hk (.inr (.inl rfl)) rfl rfl rfl
    · cases h
  | remove anchorId =>
    simp only [AnchorCalls.step] at h
    split at h <;> obtain rfl := Option.some.inj h <;> exact .none rfl rfl rfl
  | gone k =>
    simp only [AnchorCalls.step] at h
    split at h
    · obtain rfl := Option.some.inj h
      exact .none rfl rfl rfl
    · cases h
  | dropped k =>
    simp only [AnchorCalls.step] at h
    split at h
    · obtain rfl := Option.some.inj h
      exact .dropped _ rfl rfl rfl
    · cases h
  | removeFailed k =>
    simp only [AnchorCalls.step] at h
    split at h
    · obtain rfl := Option.some.inj h
      exact .none rfl rfl rfl
    · cases h

/-- An event that begins no creation keeps that keys are those of one record. -/
theorem Single.effect {K : Type} {key : AnchorRecord → Option K}
    (h : Single key s.anchors s.creates) (heffect : Effect s t) :
    Single key t.anchors t.creates := by
  cases heffect with
  | none hanchors hcreates hover =>
    rw [hanchors, hcreates]
    exact h
  | moved k c phase hc hin hanchors hcreates hover =>
    rw [hanchors, hcreates]
    exact h.move hc hin phase
  | written k c hc hin hanchors hcreates hover =>
    rw [hanchors, hcreates]
    exact h.move hc hin .written
  | held k c hc hin hanchors hcreates hover =>
    rw [hanchors, hcreates]
    exact h.append hc hin
  | dropped p hanchors hcreates hover =>
    rw [hanchors, hcreates]
    exact h.filter p

/-! ### Creations that start alone -/

/-- Every directory has one owner, and nobody's metadata file was written over. -/
structure Kept (s : Calls) : Prop where
  owned : Owned s.anchors s.creates
  clean : s.overwritten = []

/-- Directories with one owner have one record each. -/
theorem Kept.oneOwner (h : Kept s) : OneOwner s := ⟨h.owned.nodup_paths, h.clean⟩

/-- An event that begins no creation keeps the owners. -/
theorem Kept.effect (h : Kept s) (heffect : Effect s t) : Kept t := by
  refine ⟨owned_iff.mpr ((owned_iff.mp h.owned).effect heffect), ?_⟩
  cases heffect with
  | none hanchors hcreates hover => exact hover.trans h.clean
  | moved k c phase hc hin hanchors hcreates hover => exact hover.trans h.clean
  | written k c hc hin hanchors hcreates hover =>
    have hnobody : (s.anchors.filter fun r => decide (dirOf r = dirOf c.record)) = [] := by
      refine List.filter_eq_nil_iff.mpr fun r hr hdir => ?_
      exact h.owned.apart c (List.mem_of_getElem? hc) hin r hr (of_decide_eq_true hdir)
    rw [hover, h.clean, hnobody]
    rfl
  | held k c hc hin hanchors hcreates hover => exact hover.trans h.clean
  | dropped p hanchors hcreates hover => exact hover.trans h.clean

/-- A creation that starts alone keeps the owners, and so does anything else. -/
theorem kept_step {e : Event} (h : Kept s) (hG : Alone root s e)
    (hstep : AnchorCalls.step root s e = some t) : Kept t := by
  cases hbegun : begun root s e with
  | none => exact h.effect (step_effect hbegun hstep)
  | some record =>
    obtain ⟨hanchors, hover, hcreates⟩ := step_begun hbegun hstep
    refine ⟨?_, hover.trans h.clean⟩
    rw [hanchors]
    rcases hcreates with ⟨hcreates, -⟩ | ⟨hfree, hcreates⟩
    · rw [hcreates]
      exact h.owned
    · obtain ⟨hflights, hheld⟩ := hG record hbegun hfree
      rw [hcreates]
      refine owned_iff.mpr ((owned_iff.mp h.owned).start ?_ ?_)
      · intro c hc hin
        exact apart_dirKey.mpr (hflights c hc hin)
      · intro r hr
        exact apart_dirKey.mpr (hheld r hr)

/-- A store that was just loaded has one record in each directory. -/
theorem kept_loaded (loaded : Loaded before root) : Kept (AnchorCalls.machine loaded).init := by
  have hmatches : Matches root ⟨loaded.disk, loaded.anchors⟩ :=
    (loads_iff (s := ⟨loaded.disk, loaded.anchors⟩) loaded.named loaded.closed).mp
      ⟨_, loaded.loads, .refl _⟩
  refine ⟨⟨hmatches.nodup, ?_, ?_⟩, rfl⟩
  · intro i j c c' hc
    cases hc
  · intro c hc
    cases hc

/-! ### Creations that do not -/

/-- A creation that is checked makes its directory. -/
theorem step_made (root : String) {k : ℕ} {record : AnchorRecord}
    (hk : s.creates[k]? = some ⟨record, .checked⟩) :
    ∃ t, AnchorCalls.step root s (.made k) = some t ∧ t.anchors = s.anchors ∧
      t.creates = s.creates.set k ⟨record, .made⟩ := by
  simp only [AnchorCalls.step, hk]
  exact ⟨_, rfl, rfl, rfl⟩

/-- A creation whose directory is made writes its metadata file. -/
theorem step_written (root : String) {k : ℕ} {record : AnchorRecord}
    (hk : s.creates[k]? = some ⟨record, .made⟩) :
    ∃ t, AnchorCalls.step root s (.written k) = some t ∧ t.anchors = s.anchors ∧
      t.creates = s.creates.set k ⟨record, .written⟩ ∧
      t.overwritten = s.overwritten ++ s.anchors.filter fun r => decide (dirOf r = dirOf record) := by
  simp only [AnchorCalls.step, hk]
  exact ⟨_, rfl, rfl, rfl, rfl⟩

/-- A creation whose metadata file is written adds its record. -/
theorem step_appended (root : String) {k : ℕ} {record : AnchorRecord}
    (hk : s.creates[k]? = some ⟨record, .written⟩) :
    ∃ t, AnchorCalls.step root s (.appended k) = some t ∧ t.anchors = s.anchors ++ [record] ∧
      t.creates = s.creates.set k ⟨record, .held⟩ := by
  simp only [AnchorCalls.step, hk]
  exact ⟨_, rfl, rfl, rfl⟩

section Continue

variable (loaded : Loaded before root) {k : ℕ} {record : AnchorRecord}

/-- The calls can go on until the record of a creation is added, with nothing else begun. -/
def CanAppend (s : Calls) (k : ℕ) (record : AnchorRecord) : Prop :=
  ∃ (es : List Event) (u : Calls), (AnchorCalls.machine loaded).runFrom s es = some u ∧
    u.anchors = s.anchors ++ [record] ∧ u.creates = s.creates.set k ⟨record, .held⟩

/-- A step, and what can go on from there. -/
theorem CanAppend.of_step {e : Event} {phase : CreatePhase}
    (hstep : AnchorCalls.step root s e = some t) (hanchors : t.anchors = s.anchors)
    (hcreates : t.creates = s.creates.set k ⟨record, phase⟩) (h : CanAppend loaded t k record) :
    CanAppend loaded s k record := by
  obtain ⟨es, u, hrun, huanchors, hucreates⟩ := h
  refine ⟨e :: es, u, ?_, ?_, ?_⟩
  · exact Option.bind_eq_some_iff.mpr ⟨t, hstep, hrun⟩
  · rw [huanchors, hanchors]
  · rw [hucreates, hcreates, List.set_set]

/-- A creation whose metadata file is written. -/
theorem canAppend_written (hk : s.creates[k]? = some ⟨record, .written⟩) :
    CanAppend loaded s k record := by
  obtain ⟨t, hstep, hanchors, hcreates⟩ := step_appended root hk
  refine ⟨[.appended k], t, ?_, hanchors, hcreates⟩
  exact Option.bind_eq_some_iff.mpr ⟨t, hstep, rfl⟩

/-- A creation that was put in another phase is in that phase. -/
theorem phase_set {c : Creating} (hk : s.creates[k]? = some c) {c' : Creating}
    (hcreates : t.creates = s.creates.set k c') : t.creates[k]? = some c' := by
  rw [hcreates, List.getElem?_set_self (List.getElem?_eq_some_iff.mp hk).1]

/-- A creation whose directory is made. -/
theorem canAppend_made (hk : s.creates[k]? = some ⟨record, .made⟩) :
    CanAppend loaded s k record := by
  obtain ⟨t, hstep, hanchors, hcreates, -⟩ := step_written root hk
  exact .of_step loaded hstep hanchors hcreates (canAppend_written loaded (phase_set hk hcreates))

/-- A creation that is checked. -/
theorem canAppend_checked (hk : s.creates[k]? = some ⟨record, .checked⟩) :
    CanAppend loaded s k record := by
  obtain ⟨t, hstep, hanchors, hcreates⟩ := step_made root hk
  exact .of_step loaded hstep hanchors hcreates (canAppend_made loaded (phase_set hk hcreates))

/-- A creation in flight. -/
theorem canAppend_inFlight {c : Creating} (hk : s.creates[k]? = some c) (hin : InFlight c.phase) :
    CanAppend loaded s k c.record := by
  obtain ⟨record, phase⟩ := c
  rcases hin with hphase | hphase | hphase
  · obtain rfl : phase = .checked := hphase
    exact canAppend_checked loaded hk
  · obtain rfl : phase = .made := hphase
    exact canAppend_made loaded hk
  · obtain rfl : phase = .written := hphase
    exact canAppend_written loaded hk

/-- The calls can go on until the record of a creation is held, with nothing else begun. -/
def CanHold (s : Calls) (k : ℕ) (record : AnchorRecord) : Prop :=
  ∃ (es : List Event) (u : Calls), (AnchorCalls.machine loaded).runFrom s es = some u ∧
    record ∈ u.anchors ∧ u.creates = s.creates.set k ⟨record, .held⟩

/-- A creation in flight, until its record is held. -/
theorem canHold_inFlight {c : Creating} (hk : s.creates[k]? = some c) (hin : InFlight c.phase) :
    CanHold loaded s k c.record := by
  obtain ⟨es, u, hrun, hanchors, hcreates⟩ := canAppend_inFlight loaded hk hin
  refine ⟨es, u, hrun, ?_, hcreates⟩
  rw [hanchors]
  exact List.mem_append_right _ List.mem_cons_self

/-- A creation that was in flight when another one started can have its record held first, with
the other one still where it began. -/
theorem canHold_before {c other : Creating} (hcreates : t.creates = s.creates ++ [other])
    (hc : c ∈ s.creates) (hin : InFlight c.phase) :
    ∃ (es : List Event) (u : Calls), (AnchorCalls.machine loaded).runFrom t es = some u ∧
      c.record ∈ u.anchors ∧ u.creates[s.creates.length]? = some other := by
  obtain ⟨k, hk⟩ := List.mem_iff_getElem?.mp hc
  have hlt : k < s.creates.length := (List.getElem?_eq_some_iff.mp hk).1
  have htk : t.creates[k]? = some c := by
    rw [hcreates]
    exact getElem?_concat_of_some hk
  obtain ⟨es, u, hrun, hmem, hucreates⟩ := canHold_inFlight loaded htk hin
  refine ⟨es, u, hrun, hmem, ?_⟩
  rw [hucreates, List.getElem?_set_ne (by omega), hcreates]
  exact List.getElem?_concat_length

/-- The calls can go on to a state in which a directory has two owners, or had. -/
def CanClash (s : Calls) : Prop :=
  ∃ (es : List Event) (u : Calls), (AnchorCalls.machine loaded).runFrom s es = some u ∧
    ¬ OneOwner u

/-- A creation that is checked can write its metadata file over that of a record that has its
directory. -/
theorem canClash_held {r : AnchorRecord} (hk : s.creates[k]? = some ⟨record, .checked⟩)
    (hr : r ∈ s.anchors) (hdir : dirOf r = dirOf record) : CanClash loaded s := by
  obtain ⟨t, hmade, htanchors, htcreates⟩ := step_made root hk
  obtain ⟨u, hwritten, -, -, hover⟩ := step_written root (phase_set hk htcreates)
  refine ⟨[.made k, .written k], u, ?_, fun hone => ?_⟩
  · refine Option.bind_eq_some_iff.mpr ⟨t, hmade, ?_⟩
    exact Option.bind_eq_some_iff.mpr ⟨u, hwritten, rfl⟩
  · have hmem : r ∈ u.overwritten := by
      rw [hover, htanchors]
      exact List.mem_append_right _ (List.mem_filter.mpr ⟨hr, decide_eq_true hdir⟩)
    rw [hone.2] at hmem
    cases hmem

/-- After a creation that did not start alone, the calls can go on to a clash. -/
theorem canClash_of_not_alone {e : Event} (hG : ¬ Alone root s e)
    (hstep : AnchorCalls.step root s e = some t) : CanClash loaded t := by
  simp only [Alone, not_forall] at hG
  obtain ⟨record, hbegun, hfree, hG⟩ := hG
  obtain ⟨hanchors, -, hcreates⟩ := step_begun hbegun hstep
  rcases hcreates with ⟨-, r, hr, hpath⟩ | ⟨-, hcreates⟩
  · exact absurd hpath (hfree r hr)
  · have hnew : t.creates[s.creates.length]? = some ⟨record, .checked⟩ := by
      rw [hcreates, List.getElem?_concat_length]
    by_cases hheld : ∃ r ∈ s.anchors, dirOf r = dirOf record
    · obtain ⟨r, hr, hdir⟩ := hheld
      exact canClash_held loaded hnew (hanchors ▸ hr) hdir
    · -- the other creation gets its record first, and the new one writes over its file
      push Not at hheld
      have hflight : ∃ c ∈ s.creates, InFlight c.phase ∧ dirOf c.record = dirOf record := by
        by_contra hnone
        push Not at hnone
        exact hG ⟨hnone, hheld⟩
      obtain ⟨c, hc, hin, hdir⟩ := hflight
      obtain ⟨es, u, hrun, hmem, hunew⟩ := canHold_before loaded hcreates hc hin
      obtain ⟨es', v, hrun', hclash⟩ := canClash_held loaded hunew hmem hdir
      exact ⟨es ++ es', v, (Machine.runFrom_append hrun).trans hrun', hclash⟩

end Continue

/-- Directories keep one owner along every run in which creations start alone; and as soon as
one does not, the calls can go on to a clash. -/
theorem one_owner (loaded : Loaded before root) :
    (∀ s, (AnchorCalls.machine loaded).ReachableWhen (Alone root) s → OneOwner s) ∧
      ∀ s e t, ¬ Alone root s e → (AnchorCalls.machine loaded).step s e = some t →
        ∃ es u, (AnchorCalls.machine loaded).runFrom t es = some u ∧ ¬ OneOwner u := by
  refine ⟨fun s hs => ?_, fun s e t hG hstep => canClash_of_not_alone loaded hG hstep⟩
  have hkept : Kept s := Machine.ReachableWhen.invariant (I := Kept) (kept_loaded loaded)
    (fun _ _ _ h hG hstep => kept_step h hG hstep) hs
  exact hkept.oneOwner

/-! ### A checkout that is adopted twice at once -/

/-- Two calls adopt one checkout: the second looks before the first has its record. -/
def adoptRun : List Event :=
  [.adopt "n1" "/srv/app" "/srv/w/login" "login" "a1" "t1",
    .adopt "n1" "/srv/app" "/srv/w/login" "login" "a2" "t2",
    .made 0, .written 0, .appended 0, .made 1, .written 1, .appended 1]

theorem adoptRun_isSome : ((AnchorCalls.machine emptyLoaded).run adoptRun).isSome = true := by
  decide +kernel

/-- Two overlapping calls that adopt one checkout leave two records of one directory. -/
theorem adopted_twice :
    ¬ ∀ (before : String → String → Bool) (root : String) (loaded : Loaded before root)
      (s : Calls), (AnchorCalls.machine loaded).Reachable s → OneOwner s := by
  intro hall
  have hone := hall _ _ emptyLoaded _ (Machine.reachable_get _ adoptRun_isSome)
  have hover : (((AnchorCalls.machine emptyLoaded).run adoptRun).get
      adoptRun_isSome).overwritten.length = 1 := by decide +kernel
  rw [hone.2] at hover
  cases hover

end RemoteWorkspace.Analysis.AnchorCalls
