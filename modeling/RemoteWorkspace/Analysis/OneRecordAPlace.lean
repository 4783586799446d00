import RemoteWorkspace.Model.RepoRequests

/-!
# One record for each machine and path

A request looks a repository up by its machine and path and computes the next list in one
piece, so no list that is computed has two records of one place: not the one in memory, not the
document, and none that is still to be written (`one_record_a_place`).
-/

set_option autoImplicit false

namespace RemoteWorkspace.Analysis.OneRecordAPlace

open RemoteWorkspace.Computation RemoteWorkspace.Computation.WriteBack
open RemoteWorkspace.Model RemoteWorkspace.Model.Stores RemoteWorkspace.Model.RepoRequests

/-- The machine and path of a record. -/
def place (repo : RepoRecord) : String × String := (repo.nodeId, repo.repoPath)

/-- A list whose records have ids and places of their own. -/
structure Distinct (repos : List RepoRecord) : Prop where
  ids : (repos.map RepoRecord.repoId).Nodup
  places : (repos.map place).Nodup

instance (repos : List RepoRecord) : Decidable (Distinct repos) :=
  decidable_of_iff ((repos.map RepoRecord.repoId).Nodup ∧ (repos.map place).Nodup)
    ⟨fun h => ⟨h.1, h.2⟩, fun h => ⟨h.ids, h.places⟩⟩

variable {repos : List RepoRecord}

/-- Records that are taken away leave the others distinct. -/
theorem Distinct.filter (h : Distinct repos) (test : RepoRecord → Bool) :
    Distinct (repos.filter test) where
  ids := h.ids.sublist (List.filter_sublist.map _)
  places := h.places.sublist (List.filter_sublist.map _)

/-- A record that is added at another place, with another id. -/
theorem Distinct.concat (h : Distinct repos) {record : RepoRecord}
    (hid : ∀ repo ∈ repos, repo.repoId ≠ record.repoId)
    (hplace : ∀ repo ∈ repos, place repo ≠ place record) : Distinct (repos ++ [record]) :=
  ⟨nodup_map_concat h.ids hid, nodup_map_concat h.places hplace⟩

/-- A record that is put in place of one with its id and its place. -/
theorem Distinct.replace (h : Distinct repos) {existing record : RepoRecord}
    (hexisting : existing ∈ repos) (hid : record.repoId = existing.repoId)
    (hplace : place record = place existing) :
    Distinct (repos.map fun repo => if repo.repoId = record.repoId then record else repo) := by
  -- the only record with the id is the one that is replaced
  have honly : ∀ repo ∈ repos, repo.repoId = record.repoId → repo = existing := by
    intro repo hrepo heq
    exact List.inj_on_of_nodup_map h.ids hrepo hexisting (heq.trans hid)
  refine ⟨?_, ?_⟩
  · rw [List.map_map]
    refine (List.map_congr_left fun repo hrepo => ?_).symm ▸ h.ids
    rw [Function.comp_apply]
    split
    · rename_i heq
      exact heq.symm
    · rfl
  · rw [List.map_map]
    refine (List.map_congr_left fun repo hrepo => ?_).symm ▸ h.places
    rw [Function.comp_apply]
    split
    · rename_i heq
      rw [honly repo hrepo heq]
      exact hplace
    · rfl

/-- A record that a place is found to have. -/
theorem found {nodeId repoPath : String} {repo : RepoRecord}
    (h : find repos nodeId repoPath = some repo) : repo ∈ repos ∧ place repo = (nodeId, repoPath) := by
  have htest := List.find?_some h
  simp only [decide_eq_true_eq] at htest
  exact ⟨List.mem_of_find?_eq_some h, Prod.ext htest.1 htest.2⟩

/-- A place that is found to have no record. -/
theorem not_found {nodeId repoPath : String} (h : find repos nodeId repoPath = none) :
    ∀ repo ∈ repos, place repo ≠ (nodeId, repoPath) := by
  intro repo hrepo heq
  rw [find, List.find?_eq_none] at h
  refine h repo hrepo ?_
  obtain ⟨hnode, hpath⟩ := Prod.mk.inj heq
  simp [hnode, hpath]

/-- A record is found by its id, where ids are distinct. -/
theorem found_by_id (h : Distinct repos) {repo : RepoRecord} (hrepo : repo ∈ repos) :
    (repos.find? fun other => decide (other.repoId = repo.repoId)) = some repo := by
  cases hfind : repos.find? fun other => decide (other.repoId = repo.repoId) with
  | none =>
    rw [List.find?_eq_none] at hfind
    exact absurd (decide_eq_true rfl) (hfind repo hrepo)
  | some other =>
    have hid : other.repoId = repo.repoId := by simpa using List.find?_some hfind
    rw [List.inj_on_of_nodup_map h.ids (List.mem_of_find?_eq_some hfind) hrepo hid]

/-! ### The next list -/

/-- An upsert of a place that has no record, under a new id. -/
theorem distinct_new (h : Distinct repos) {draft : RepoDraft} {generated stamp : String}
    (hdraft : draft.repoId = none) (hfind : find repos draft.nodeId draft.repoPath = none)
    (hfresh : ∀ repo ∈ repos, repo.repoId ≠ generated) :
    Distinct (after repoEffect (.upsert draft generated stamp) repos) := by
  rw [after, repoEffect, hdraft]
  refine h.concat (fun repo hrepo => ?_) (fun repo hrepo => ?_)
  · rw [repoRecordOf, hdraft]
    exact hfresh repo hrepo
  · exact not_found hfind repo hrepo

/-- An upsert of a place that has a record, under the id of that record. -/
theorem distinct_again (h : Distinct repos) {draft : RepoDraft} {generated stamp : String}
    {existing : RepoRecord} (hfind : find repos draft.nodeId draft.repoPath = some existing)
    (hdraft : draft.repoId = some existing.repoId) :
    Distinct (after repoEffect (.upsert draft generated stamp) repos) := by
  obtain ⟨hmem, hplace⟩ := found hfind
  have hsome := found_by_id h hmem
  rw [after, repoEffect, hdraft, Option.bind_some, hsome]
  exact h.replace hmem rfl hplace.symm

/-- A list of which a part has the same length. -/
theorem filter_of_length {α : Type} {test : α → Bool} {l : List α}
    (h : (l.filter test).length = l.length) : l.filter test = l :=
  List.filter_sublist.eq_of_length h

/-- What `remove` leaves. -/
theorem after_remove (repoId : String) (repos : List RepoRecord) :
    after repoEffect (.remove repoId) repos =
      repos.filter fun repo => decide (repo.repoId ≠ repoId) := by
  rw [after, repoEffect]
  by_cases hlength :
      (repos.filter fun repo => decide (repo.repoId ≠ repoId)).length = repos.length
  · simp only [hlength, if_true]
    exact (filter_of_length hlength).symm
  · simp only [hlength, if_false]

/-- What `removeByNode` leaves. -/
theorem after_removeByNode (nodeId : String) (repos : List RepoRecord) :
    after repoEffect (.removeByNode nodeId) repos =
      repos.filter fun repo => decide (repo.nodeId ≠ nodeId) := by
  rw [after, repoEffect]
  by_cases hcount : repos.length -
      (repos.filter fun repo => decide (repo.nodeId ≠ nodeId)).length = 0
  · simp only [hcount, if_true]
    refine (filter_of_length (le_antisymm ?_ ?_)).symm
    · exact List.length_filter_le _ _
    · exact Nat.le_of_sub_eq_zero hcount
  · simp only [hcount, if_false]

/-- The next list of a request. -/
theorem distinct_after {s : State RepoCall (List RepoRecord)} (h : Distinct s.memory)
    {request : Request} (hfresh : FreshId s (.begin request)) {call : RepoCall}
    (hcall : callOf s.memory request = some call) : Distinct (after repoEffect call s.memory) := by
  cases request with
  | post nodeId repoPath target name generated stamp =>
    obtain ⟨-, hcall⟩ := Option.ite_none_right_eq_some.mp hcall
    obtain rfl := Option.some.inj hcall
    cases hfind : find s.memory nodeId repoPath with
    | none => exact distinct_new h (by rw [postDraft, hfind]; rfl) hfind hfresh
    | some existing => exact distinct_again h hfind (by rw [postDraft, hfind]; rfl)
  | registerRepoIfUnknown nodeId repoPath generated stamp =>
    obtain ⟨hfind, hcall⟩ := Option.ite_none_right_eq_some.mp hcall
    obtain rfl := Option.some.inj hcall
    exact distinct_new h rfl hfind hfresh
  | delete repoId =>
    obtain rfl := Option.some.inj hcall
    rw [after_remove]
    exact h.filter _
  | deleteNode nodeId =>
    obtain rfl := Option.some.inj hcall
    rw [after_removeByNode]
    exact h.filter _

/-! ### Every run -/

/-- Every step of a request keeps the records of every list distinct. -/
theorem distinct_step {s t : State RepoCall (List RepoRecord)} {e : Event Request}
    (h : Everywhere repoEffect Distinct s) (hfresh : FreshId s e)
    (hstep : RepoRequests.step s e = some t) : Everywhere repoEffect Distinct t := by
  have hmoves : ∀ move : Event RepoCall, (∀ call, move ≠ .begin call) →
      WriteBack.step repoEffect s move = some t → Everywhere repoEffect Distinct t :=
    fun move hmove hstep => everywhere_step h (fun call hcall => absurd hcall (hmove call)) hstep
  cases e with
  | begin request =>
    rw [RepoRequests.step] at hstep
    cases hcall : callOf s.memory request with
    | none =>
      rw [hcall] at hstep
      obtain rfl := Option.some.inj hstep
      exact h
    | some call =>
      rw [hcall] at hstep
      refine everywhere_step h (fun c hc => ?_) hstep
      obtain rfl := Event.begin.inj hc
      exact distinct_after h.memory hfresh hcall
  | written k => exact hmoves (.written k) (fun _ heq => by cases heq) hstep
  | failed k => exact hmoves (.failed k) (fun _ heq => by cases heq) hstep
  | assigned k => exact hmoves (.assigned k) (fun _ heq => by cases heq) hstep

/-- However requests overlap, neither the list in memory nor the document has two records of
one machine and path. -/
theorem one_record_a_place {repos : List RepoRecord} (hrepos : Distinct repos)
    {s : State RepoCall (List RepoRecord)} (hs : (requests repos).ReachableWhen FreshId s) :
    (s.memory.map place).Nodup ∧ (s.copy.map place).Nodup := by
  have h : Everywhere repoEffect Distinct s := by
    refine Machine.ReachableWhen.invariant (M := requests repos) (everywhere_init hrepos) ?_ hs
    intro s e t h hfresh hstep
    exact distinct_step h hfresh hstep
  exact ⟨h.memory.places, h.copy.places⟩

/-- Two requests register a directory before either has written, and one registers it again. -/
def registerRun : List (Event Request) :=
  [.begin (.post "n" "/srv/app" (some "directory") none "id-a" "2026-01-01T00:00:00.000Z"),
    .begin (.registerRepoIfUnknown "n" "/srv/app" "id-b" "2026-01-01T00:00:01.000Z"),
    .written 0, .written 1, .assigned 0, .assigned 1,
    .begin (.post "n" "/srv/app" (some "directory") (some "App") "id-c" "2026-01-01T00:00:02.000Z"),
    .written 2, .assigned 2]

theorem registerRun_isSome :
    ((requests []).runGuarded FreshId (requests []).init registerRun).isSome = true := by
  decide +kernel

/-- The directory has one record after these requests. -/
theorem registerRun_one_record :
    (((((requests []).runGuarded FreshId (requests []).init registerRun).get
        registerRun_isSome).memory).map place).Nodup ∧
      (((((requests []).runGuarded FreshId (requests []).init registerRun).get
        registerRun_isSome).copy).map place).Nodup :=
  one_record_a_place (by decide) (Machine.reachableWhen_get registerRun_isSome)

end RemoteWorkspace.Analysis.OneRecordAPlace
