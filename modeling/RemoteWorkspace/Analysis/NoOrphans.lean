import RemoteWorkspace.Analysis.AnchorOwners
import RemoteWorkspace.Analysis.OneRecordAPlace
import RemoteWorkspace.Model.Management

/-!
# Worktree anchors and the records they need

A worktree anchor is shown under its repository and reached through its machine, so both should
have a record as long as it is held. The deletion of a repository looks for worktree anchors,
but waits between the look and the removal; the deletion of a machine does not look; and a
creation adds its anchor without a look at the records. No anchor is orphaned as long as anchors
are added where both records are there to stay, and removals begin where no anchor needs what
they remove; and no longer (`no_orphans`).
-/

set_option autoImplicit false

namespace RemoteWorkspace.Analysis.Management

open RemoteWorkspace.Computation RemoteWorkspace.Computation.WriteBack
open RemoteWorkspace.Model RemoteWorkspace.Model.Stores RemoteWorkspace.Model.Anchors
open RemoteWorkspace.Model.RepoRequests RemoteWorkspace.Model.Management
open RemoteWorkspace.Analysis.OneRecordAPlace

variable {before : String → String → Bool} {root : String}

/-! ### Records that an anchor needs -/

/-- A machine has a record. -/
def KnownNode (nodeId : String) (nodes : List Stores.NodeRecord) : Prop :=
  (getNode nodes nodeId).isSome = true

/-- A repository has a record. -/
def KnownRepo (nodeId repoPath : String) (repos : List RepoRecord) : Prop :=
  (find repos nodeId repoPath).isSome = true

/-- The anchor maps a checkout. -/
def IsWorktree (anchor : AnchorRecord) : Prop := anchor.kind ≠ .directory

/-- The machines of all worktree anchors have records. -/
def NodesKnown (anchors : List AnchorRecord) (nodes : List Stores.NodeRecord) : Prop :=
  ∀ anchor ∈ anchors, IsWorktree anchor → KnownNode anchor.nodeId nodes

/-- The repositories of all worktree anchors have records. -/
def ReposKnown (anchors : List AnchorRecord) (repos : List RepoRecord) : Prop :=
  ∀ anchor ∈ anchors, IsWorktree anchor → KnownRepo anchor.nodeId anchor.repoPath repos

/-- No worktree anchor that is held is an orphan. -/
def NoOrphans (s : Host) : Prop :=
  NodesKnown s.anchors.anchors s.nodes.memory ∧ ReposKnown s.anchors.anchors s.repos.memory

/-- A worktree anchor is added where its machine and its repository have records that no running
call is to take away; and a removal begins where no worktree anchor needs what it removes. -/
def Keeps (s : Host) : Event → Prop
  | .anchors (.appended k) => ∀ c ∈ s.anchors.creates[k]?, IsWorktree c.record →
      Coming nodeEffect (KnownNode c.record.nodeId) s.nodes ∧
        Coming repoEffect (KnownRepo c.record.nodeId c.record.repoPath) s.repos
  | .deleteNode nodeId => deleteNodeRefusal s.nodes.memory nodeId = none →
      ∀ anchor ∈ s.anchors.anchors, IsWorktree anchor → anchor.nodeId ≠ nodeId
  | .nodeDeleted i => ∀ d ∈ s.nodeDeletes[i]?,
      ∀ anchor ∈ s.anchors.anchors, IsWorktree anchor → anchor.nodeId ≠ d.1
  | .repoClosed i => ∀ repoId ∈ s.repoDeletes[i]?, ∀ repo ∈ getRepo s.repos.memory repoId,
      ∀ anchor ∈ s.anchors.anchors, IsWorktree anchor →
        (anchor.nodeId, anchor.repoPath) ≠ place repo
  | _ => True

instance (nodeId : String) : DecidablePred (KnownNode nodeId) := by
  unfold KnownNode
  infer_instance

instance (nodeId repoPath : String) : DecidablePred (KnownRepo nodeId repoPath) := by
  unfold KnownRepo
  infer_instance

instance (anchor : AnchorRecord) : Decidable (IsWorktree anchor) := by
  unfold IsWorktree
  infer_instance

instance (s : Host) : Decidable (NoOrphans s) := by
  unfold NoOrphans NodesKnown ReposKnown
  infer_instance

instance (s : Host) (e : Event) : Decidable (Keeps s e) := by
  rcases e with _ | _ | _ | _ | _ | _ | (_ | _ | _ | _ | _ | _ | _ | _ | _ | _ | _ | _) <;>
    unfold Keeps <;> infer_instance

section Known

variable {nodes : List Stores.NodeRecord} {repos : List RepoRecord} {nodeId repoPath : String}

/-- A machine has a record when it is the local one or a record has its id. -/
theorem knownNode_iff :
    KnownNode nodeId nodes ↔ nodeId = localNodeId ∨ ∃ node ∈ nodes, node.nodeId = nodeId := by
  rw [KnownNode, getNode]
  by_cases hlocal : nodeId = localNodeId
  · simp [hlocal]
  · rw [if_neg hlocal, List.find?_isSome]
    simp [hlocal]

/-- A repository has a record when one has its machine and path. -/
theorem knownRepo_iff :
    KnownRepo nodeId repoPath repos ↔ ∃ repo ∈ repos, place repo = (nodeId, repoPath) := by
  rw [KnownRepo, find, List.find?_isSome]
  simp [place]

/-- An upsert keeps the machines that have records. -/
theorem knownNode_upsert (h : KnownNode nodeId nodes) (draft : NodeDraft)
    (generated stamp : String) :
    KnownNode nodeId (after nodeEffect (.upsert draft generated stamp) nodes) := by
  rw [knownNode_iff] at h ⊢
  refine h.imp_right fun ⟨node, hnode, hid⟩ => ?_
  rw [after, nodeEffect]
  by_cases hlocal : draft.nodeId = some localNodeId
  · simp only [hlocal, if_true]
    exact ⟨node, hnode, hid⟩
  · simp only [hlocal, if_false]
    split
    · exact ⟨node, List.mem_append_left _ hnode, hid⟩
    · refine ⟨_, List.mem_map.mpr ⟨node, hnode, rfl⟩, ?_⟩
      split
      · rename_i heq
        exact heq.symm.trans hid
      · exact hid

/-- What `remove` of the node registry leaves. -/
theorem after_removeNode (hlocal : nodeId ≠ localNodeId) (nodes : List Stores.NodeRecord) :
    after nodeEffect (.remove nodeId) nodes =
      nodes.filter fun node => decide (node.nodeId ≠ nodeId) := by
  rw [after, nodeEffect]
  by_cases hlength :
      (nodes.filter fun node => decide (node.nodeId ≠ nodeId)).length = nodes.length
  · simp only [hlocal, hlength, if_true, if_false]
    exact (filter_of_length hlength).symm
  · simp only [hlocal, hlength, if_false]

/-- The removal of one machine keeps the record of another. -/
theorem knownNode_remove (h : KnownNode nodeId nodes) {gone : String} (hgone : gone ≠ localNodeId)
    (hne : nodeId ≠ gone) : KnownNode nodeId (after nodeEffect (.remove gone) nodes) := by
  rw [knownNode_iff] at h ⊢
  refine h.imp_right fun ⟨node, hnode, hid⟩ => ⟨node, ?_, hid⟩
  rw [after_removeNode hgone]
  exact List.mem_filter.mpr ⟨hnode, by simp [hid, hne]⟩

/-- The removal of a machine leaves no record of it. -/
theorem not_knownNode_remove (hlocal : nodeId ≠ localNodeId) :
    ¬ KnownNode nodeId (after nodeEffect (.remove nodeId) nodes) := by
  rw [knownNode_iff, after_removeNode hlocal]
  rintro (heq | ⟨node, hnode, hid⟩)
  · exact hlocal heq
  · have hkept := (List.mem_filter.mp hnode).2
    simp [hid] at hkept

/-- What a request stores keeps the repositories that have records. -/
theorem knownRepo_stored (hdistinct : Distinct repos) (h : KnownRepo nodeId repoPath repos)
    {request : Request} (hstores : storesRepo (.begin request) = true) {call : RepoCall}
    (hcall : callOf repos request = some call) :
    KnownRepo nodeId repoPath (after repoEffect call repos) := by
  rw [knownRepo_iff] at h ⊢
  obtain ⟨repo, hrepo, hplace⟩ := h
  cases request with
  | post node path target name generated stamp =>
    obtain ⟨-, hcall⟩ := Option.ite_none_right_eq_some.mp hcall
    obtain rfl := Option.some.inj hcall
    cases hfind : find repos node path with
    | none =>
      have hdraft : (postDraft repos node path name).repoId = none := by
        rw [postDraft, hfind]
        rfl
      rw [after, repoEffect, hdraft]
      exact ⟨repo, List.mem_append_left _ hrepo, hplace⟩
    | some existing =>
      obtain ⟨hmem, hexisting⟩ := found hfind
      have hdraft : (postDraft repos node path name).repoId = some existing.repoId := by
        rw [postDraft, hfind]
        rfl
      rw [after, repoEffect, hdraft, Option.bind_some, found_by_id hdistinct hmem]
      refine ⟨_, List.mem_map.mpr ⟨repo, hrepo, rfl⟩, ?_⟩
      split
      · rename_i hid
        -- the record that is replaced is the one of the place
        obtain rfl := List.inj_on_of_nodup_map hdistinct.ids hrepo hmem hid
        exact hexisting.symm.trans hplace
      · exact hplace
  | registerRepoIfUnknown node path generated stamp =>
    obtain ⟨-, hcall⟩ := Option.ite_none_right_eq_some.mp hcall
    obtain rfl := Option.some.inj hcall
    exact ⟨repo, List.mem_append_left _ hrepo, hplace⟩
  | delete repoId => cases hstores
  | deleteNode node => cases hstores

/-- The removal of a record keeps the repositories at other places. -/
theorem knownRepo_remove (hdistinct : Distinct repos) (h : KnownRepo nodeId repoPath repos)
    {repoId : String} (hne : ∀ repo ∈ getRepo repos repoId, (nodeId, repoPath) ≠ place repo) :
    KnownRepo nodeId repoPath (after repoEffect (.remove repoId) repos) := by
  rw [knownRepo_iff] at h ⊢
  obtain ⟨repo, hrepo, hplace⟩ := h
  refine ⟨repo, ?_, hplace⟩
  rw [after_remove]
  refine List.mem_filter.mpr ⟨hrepo, ?_⟩
  rw [decide_eq_true_eq]
  rintro rfl
  exact hne repo (found_by_id hdistinct hrepo) hplace.symm

/-- The removal of a record leaves none of its place. -/
theorem not_knownRepo_remove (hdistinct : Distinct repos) {repoId : String} {repo : RepoRecord}
    (hrepo : getRepo repos repoId = some repo) (hplace : (nodeId, repoPath) = place repo) :
    ¬ KnownRepo nodeId repoPath (after repoEffect (.remove repoId) repos) := by
  rw [knownRepo_iff, after_remove]
  rintro ⟨other, hother, hsame⟩
  obtain ⟨hmem, hne⟩ := List.mem_filter.mp hother
  have hid : repo.repoId = repoId := by simpa using List.find?_some hrepo
  obtain rfl := List.inj_on_of_nodup_map hdistinct.places hmem (List.mem_of_find?_eq_some hrepo)
    (hsame.trans hplace)
  simp [hid] at hne

/-- The removal of a machine's repositories keeps those of another. -/
theorem knownRepo_removeByNode (h : KnownRepo nodeId repoPath repos) {gone : String}
    (hne : nodeId ≠ gone) : KnownRepo nodeId repoPath (after repoEffect (.removeByNode gone) repos) := by
  rw [knownRepo_iff] at h ⊢
  obtain ⟨repo, hrepo, hplace⟩ := h
  refine ⟨repo, ?_, hplace⟩
  rw [after_removeByNode]
  have hnode : repo.nodeId = nodeId := (Prod.mk.inj hplace).1
  exact List.mem_filter.mpr ⟨hrepo, by simp [hnode, hne]⟩

/-- The removal of a machine's repositories leaves none of them. -/
theorem not_knownRepo_removeByNode :
    ¬ KnownRepo nodeId repoPath (after repoEffect (.removeByNode nodeId) repos) := by
  rw [knownRepo_iff, after_removeByNode]
  rintro ⟨repo, hrepo, hplace⟩
  have hnode : repo.nodeId = nodeId := (Prod.mk.inj hplace).1
  have hkept := (List.mem_filter.mp hrepo).2
  simp [hnode] at hkept

end Known

/-! ### What an event does to the anchors -/

/-- A creation that begins adds no record yet. -/
theorem anchors_begin {s t : AnchorCalls.Calls} {draft : AnchorDraft} {anchorId createdAt : String}
    (h : AnchorCalls.beginCreate root s draft anchorId createdAt = some t) :
    t.anchors = s.anchors := by
  rcases AnchorCalls.beginCreate_some h with ⟨rfl, -⟩ | ⟨-, rfl⟩
  · rfl
  · rfl

/-- An event of the anchor store adds no record, or adds that of a creation. -/
theorem anchors_step {s t : AnchorCalls.Calls} {e : AnchorCalls.Event}
    (h : AnchorCalls.step root s e = some t) :
    (∀ anchor ∈ t.anchors, anchor ∈ s.anchors) ∨
      ∃ k c, e = .appended k ∧ s.creates[k]? = some c ∧ t.anchors = s.anchors ++ [c.record] := by
  cases e with
  | create draft anchorId createdAt => exact .inl fun _ => (anchors_begin h ▸ ·)
  | adopt nodeId repoPath path branch anchorId createdAt =>
    rw [AnchorCalls.step] at h
    split at h
    · obtain rfl := Option.some.inj h
      exact .inl fun _ => id
    · exact .inl fun _ => (anchors_begin h ▸ ·)
  | openDirectory nodeId repoPath =>
    rw [AnchorCalls.step] at h
    split at h <;> obtain rfl := Option.some.inj h <;> exact .inl fun _ => id
  | resolved i canonicalPath anchorId createdAt =>
    rw [AnchorCalls.step] at h
    split at h
    · cases h
    · exact .inl fun _ => (anchors_begin h ▸ ·)
  | appended k =>
    rw [AnchorCalls.step] at h
    split at h
    · rename_i record hk
      obtain rfl := Option.some.inj h
      exact .inr ⟨k, _, rfl, hk, rfl⟩
    · cases h
  | made k =>
    rw [AnchorCalls.step] at h
    split at h
    · obtain rfl := Option.some.inj h
      exact .inl fun _ => id
    · cases h
  | written k =>
    rw [AnchorCalls.step] at h
    split at h
    · obtain rfl := Option.some.inj h
      exact .inl fun _ => id
    · cases h
  | createFailed k =>
    rw [AnchorCalls.step] at h
    split at h
    · obtain rfl := Option.some.inj h
      exact .inl fun _ => id
    · obtain rfl := Option.some.inj h
      exact .inl fun _ => id
    · cases h
  | remove anchorId =>
    rw [AnchorCalls.step] at h
    split at h <;> obtain rfl := Option.some.inj h <;> exact .inl fun _ => id
  | gone k =>
    rw [AnchorCalls.step] at h
    split at h
    · obtain rfl := Option.some.inj h
      exact .inl fun _ => id
    · cases h
  | dropped k =>
    rw [AnchorCalls.step] at h
    split at h
    · obtain rfl := Option.some.inj h
      exact .inl fun _ hanchor => (List.mem_filter.mp hanchor).1
    · cases h
  | removeFailed k =>
    rw [AnchorCalls.step] at h
    split at h
    · obtain rfl := Option.some.inj h
      exact .inl fun _ => id
    · cases h

/-! ### Runs -/

/-- Every list of machines and of repositories that memory has, or will have, has the records
that the anchors need, and those of repositories are distinct. -/
structure Sound (s : Host) : Prop where
  nodes : Coming nodeEffect (NodesKnown s.anchors.anchors) s.nodes
  repos : Coming repoEffect (ReposKnown s.anchors.anchors) s.repos
  distinct : Everywhere repoEffect Distinct s.repos

/-- Then there are no orphans. -/
theorem Sound.noOrphans {s : Host} (h : Sound s) : NoOrphans s := ⟨h.nodes.memory, h.repos.memory⟩

/-- A step of the repository store begins a call, or a call goes on. -/
theorem repos_step {s t : State RepoCall (List RepoRecord)} {e : WriteBack.Event Request}
    (h : RepoRequests.step s e = some t) :
    t = s ∨ ∃ move, WriteBack.step repoEffect s move = some t ∧ ∀ call, move = .begin call →
      ∃ request, e = .begin request ∧ callOf s.memory request = some call := by
  cases e with
  | begin request =>
    rw [RepoRequests.step] at h
    cases hcall : callOf s.memory request with
    | none =>
      rw [hcall] at h
      exact .inl (Option.some.inj h).symm
    | some call =>
      rw [hcall] at h
      refine .inr ⟨.begin call, h, fun c hc => ?_⟩
      obtain rfl := Event.begin.inj hc
      exact ⟨request, rfl, hcall⟩
  | written k => exact .inr ⟨.written k, h, fun c hc => by cases hc⟩
  | failed k => exact .inr ⟨.failed k, h, fun c hc => by cases hc⟩
  | assigned k => exact .inr ⟨.assigned k, h, fun c hc => by cases hc⟩

/-- A step of the repository store, whose request keeps the records that anchors need. -/
theorem reposKnown_step {anchors : List AnchorRecord} {s t : State RepoCall (List RepoRecord)}
    {e : WriteBack.Event Request} (h : Coming repoEffect (ReposKnown anchors) s)
    (hbegin : ∀ request call, e = .begin request → callOf s.memory request = some call →
      ∀ anchor ∈ anchors, IsWorktree anchor → KnownRepo anchor.nodeId anchor.repoPath s.memory →
        KnownRepo anchor.nodeId anchor.repoPath (after repoEffect call s.memory))
    (hstep : RepoRequests.step s e = some t) : Coming repoEffect (ReposKnown anchors) t := by
  rcases repos_step hstep with rfl | ⟨move, hmove, hcall⟩
  · exact h
  · refine coming_step h (fun call hc anchor hanchor hworktree => ?_) hmove
    obtain ⟨request, he, hrequest⟩ := hcall call hc
    exact hbegin request call he hrequest anchor hanchor hworktree (h.memory anchor hanchor hworktree)

/-- A step that meets the condition keeps the stores sound. -/
theorem sound_step {s t : Host} {e : Event} (h : Sound s) (hfresh : FreshId s e) (hG : Keeps s e)
    (hstep : Management.step root s e = some t) : Sound t := by
  cases e with
  | nodes e =>
    obtain ⟨hstores, hstep⟩ := Option.ite_none_right_eq_some.mp hstep
    obtain ⟨nodes, hnodes, rfl⟩ := Option.map_eq_some_iff.mp hstep
    refine ⟨coming_step h.nodes (fun call hcall anchor hanchor hworktree => ?_) hnodes, h.repos,
      h.distinct⟩
    subst hcall
    cases call with
    | upsert draft generated stamp =>
      exact knownNode_upsert (h.nodes.memory anchor hanchor hworktree) draft generated stamp
    | remove nodeId => cases hstores
  | deleteNode nodeId =>
    rw [Management.step] at hstep
    split at hstep
    · obtain rfl := Option.some.inj hstep
      exact h
    · rename_i hrefusal
      have hnone : deleteNodeRefusal s.nodes.memory nodeId = none := by simpa using hrefusal
      obtain ⟨nodes, hnodes, rfl⟩ := Option.map_eq_some_iff.mp hstep
      refine ⟨coming_step h.nodes (fun call hcall anchor hanchor hworktree => ?_) hnodes, h.repos,
        h.distinct⟩
      obtain rfl := Event.begin.inj hcall
      refine knownNode_remove (h.nodes.memory anchor hanchor hworktree) ?_
        (hG hnone anchor hanchor hworktree)
      rintro rfl
      cases hnone
  | nodeDeleted i =>
    obtain ⟨d, hd, hstep⟩ := Option.bind_eq_some_iff.mp hstep
    obtain ⟨-, hstep⟩ := Option.ite_none_right_eq_some.mp hstep
    obtain ⟨repos, hrepos, rfl⟩ := Option.map_eq_some_iff.mp hstep
    refine ⟨h.nodes, reposKnown_step h.repos ?_ hrepos,
      distinct_step (e := .begin (.deleteNode d.1)) h.distinct trivial hrepos⟩
    rintro request call he hcall anchor hanchor hworktree hknown
    obtain rfl := Event.begin.inj he
    obtain rfl := Option.some.inj hcall
    exact knownRepo_removeByNode hknown (hG d hd anchor hanchor hworktree)
  | repos e =>
    obtain ⟨hstores, hstep⟩ := Option.ite_none_right_eq_some.mp hstep
    obtain ⟨repos, hrepos, rfl⟩ := Option.map_eq_some_iff.mp hstep
    refine ⟨h.nodes, reposKnown_step h.repos ?_ hrepos, distinct_step h.distinct hfresh hrepos⟩
    rintro request call rfl hcall anchor hanchor hworktree hknown
    exact knownRepo_stored h.distinct.memory hknown hstores hcall
  | deleteRepo repoId localRows =>
    rw [Management.step] at hstep
    split at hstep <;> obtain rfl := Option.some.inj hstep
    · exact h
    · exact ⟨h.nodes, h.repos, h.distinct⟩
  | repoClosed i =>
    obtain ⟨repoId, hrepoId, hstep⟩ := Option.bind_eq_some_iff.mp hstep
    obtain ⟨repos, hrepos, rfl⟩ := Option.map_eq_some_iff.mp hstep
    refine ⟨h.nodes, reposKnown_step h.repos ?_ hrepos,
      distinct_step (e := .begin (.delete repoId)) h.distinct trivial hrepos⟩
    rintro request call he hcall anchor hanchor hworktree hknown
    obtain rfl := Event.begin.inj he
    obtain rfl := Option.some.inj hcall
    refine knownRepo_remove h.distinct.memory hknown fun repo hrepo => ?_
    exact hG repoId hrepoId repo hrepo anchor hanchor hworktree
  | anchors e =>
    obtain ⟨anchors, hanchors, rfl⟩ := Option.map_eq_some_iff.mp hstep
    rcases anchors_step hanchors with hsub | ⟨k, c, rfl, hc, happend⟩
    · refine ⟨h.nodes.mono fun nodes hnodes anchor hanchor => hnodes anchor (hsub anchor hanchor),
        h.repos.mono fun repos hrepos anchor hanchor => hrepos anchor (hsub anchor hanchor),
        h.distinct⟩
    · by_cases hworktree : IsWorktree c.record
      · obtain ⟨hnode, hrepo⟩ := hG c hc hworktree
        refine ⟨(h.nodes.and hnode).mono fun nodes ⟨hnodes, hnew⟩ anchor hanchor hkind => ?_,
          (h.repos.and hrepo).mono fun repos ⟨hrepos, hnew⟩ anchor hanchor hkind => ?_, h.distinct⟩
        all_goals
          rw [happend] at hanchor
          rcases List.mem_append.mp hanchor with hanchor | hanchor
        · exact hnodes anchor hanchor hkind
        · rw [List.mem_singleton.mp hanchor]
          exact hnew
        · exact hrepos anchor hanchor hkind
        · rw [List.mem_singleton.mp hanchor]
          exact hnew
      · have hold : ∀ anchor ∈ anchors.anchors, IsWorktree anchor →
            anchor ∈ s.anchors.anchors := by
          intro anchor hanchor hkind
          rw [happend] at hanchor
          rcases List.mem_append.mp hanchor with hanchor | hanchor
          · exact hanchor
          · rw [List.mem_singleton.mp hanchor] at hkind
            exact absurd hkind hworktree
        exact ⟨h.nodes.mono fun nodes hnodes anchor hanchor hkind =>
            hnodes anchor (hold anchor hanchor hkind) hkind,
          h.repos.mono fun repos hrepos anchor hanchor hkind =>
            hrepos anchor (hold anchor hanchor hkind) hkind, h.distinct⟩

/-! ### Steps that do not -/

section Continue

variable (nodes : List Stores.NodeRecord) (repos : List RepoRecord) (loaded : Loaded before root)
  {s t : Host}

/-- The requests go on to a state with an orphan. -/
def CanOrphan (s : Host) : Prop :=
  ∃ (es : List Event) (u : Host), (Management.machine nodes repos loaded).runFrom s es = some u ∧
    ¬ NoOrphans u

/-- Calls on the registry go on. -/
theorem run_nodes {v : List Stores.NodeRecord} {es : List (WriteBack.Event NodeCall)}
    {u : State NodeCall (List Stores.NodeRecord)} (hes : ∀ e ∈ es, ∀ c, e ≠ .begin c)
    (hrun : (WriteBack.machine nodeEffect v).runFrom s.nodes es = some u) :
    ∃ es', (Management.machine nodes repos loaded).runFrom s es' = some { s with nodes := u } := by
  have hmoves : ∀ x y t e, t = { s with nodes := x } → (∀ c, e ≠ .begin c) →
      (WriteBack.machine nodeEffect v).step x e = some y →
        ∃ e' t', (Management.machine nodes repos loaded).step t e' = some t' ∧
          t' = { s with nodes := y } := by
    rintro x y _ e rfl hbegin hy
    have hstores : storesNode e = true := by
      cases e with
      | begin c => exact absurd rfl (hbegin c)
      | _ => rfl
    have hy : WriteBack.step nodeEffect x e = some y := hy
    refine ⟨.nodes e, _, ?_, rfl⟩
    change Management.step root _ (.nodes e) = _
    rw [Management.step, if_pos hstores, hy, Option.map_some]
  obtain ⟨es', t, hes', rfl⟩ := Machine.simulation hmoves rfl hes hrun
  exact ⟨es', hes'⟩

/-- Calls on the repository store go on. -/
theorem run_repos {v : List RepoRecord} {es : List (WriteBack.Event RepoCall)}
    {u : State RepoCall (List RepoRecord)} (hes : ∀ e ∈ es, ∀ c, e ≠ .begin c)
    (hrun : (WriteBack.machine repoEffect v).runFrom s.repos es = some u) :
    ∃ es', (Management.machine nodes repos loaded).runFrom s es' = some { s with repos := u } := by
  have hmoves : ∀ x y t e, t = { s with repos := x } → (∀ c, e ≠ .begin c) →
      (WriteBack.machine repoEffect v).step x e = some y →
        ∃ e' t', (Management.machine nodes repos loaded).step t e' = some t' ∧
          t' = { s with repos := y } := by
    rintro x y _ e rfl hbegin hy
    have hmove : ∃ e' : WriteBack.Event Request, storesRepo e' = true ∧
        RepoRequests.step x e' = some y := by
      cases e with
      | begin c => exact absurd rfl (hbegin c)
      | written k => exact ⟨.written k, rfl, hy⟩
      | failed k => exact ⟨.failed k, rfl, hy⟩
      | assigned k => exact ⟨.assigned k, rfl, hy⟩
    obtain ⟨e', hstores, hy'⟩ := hmove
    refine ⟨.repos e', _, ?_, rfl⟩
    change Management.step root _ (.repos e') = _
    rw [Management.step, if_pos hstores, hy', Option.map_some]
  obtain ⟨es', t, hes', rfl⟩ := Machine.simulation hmoves rfl hes hrun
  exact ⟨es', hes'⟩

/-- A machine whose record an anchor needs and that is not to stay. -/
theorem canOrphan_node {anchor : AnchorRecord} (hanchor : anchor ∈ s.anchors.anchors)
    (hworktree : IsWorktree anchor) (h : ¬ Coming nodeEffect (KnownNode anchor.nodeId) s.nodes) :
    CanOrphan nodes repos loaded s := by
  obtain ⟨es, u, hes, hrun, hu⟩ := goesOn_of_not_coming h
  obtain ⟨es', hrun'⟩ := run_nodes nodes repos loaded hes hrun
  exact ⟨es', _, hrun', fun hnone => hu (hnone.1 anchor hanchor hworktree)⟩

/-- A repository whose record an anchor needs and that is not to stay. -/
theorem canOrphan_repo {anchor : AnchorRecord} (hanchor : anchor ∈ s.anchors.anchors)
    (hworktree : IsWorktree anchor)
    (h : ¬ Coming repoEffect (KnownRepo anchor.nodeId anchor.repoPath) s.repos) :
    CanOrphan nodes repos loaded s := by
  obtain ⟨es, u, hes, hrun, hu⟩ := goesOn_of_not_coming h
  obtain ⟨es', hrun'⟩ := run_repos nodes repos loaded hes hrun
  exact ⟨es', _, hrun', fun hnone => hu (hnone.2 anchor hanchor hworktree)⟩

/-- After a step that misses the condition, the requests go on to an orphan. -/
theorem canOrphan_of_not_keeps {e : Event} (hdistinct : Everywhere repoEffect Distinct s.repos)
    (hG : ¬ Keeps s e) (hstep : Management.step root s e = some t) :
    CanOrphan nodes repos loaded t := by
  cases e with
  | nodes e => exact absurd trivial hG
  | repos e => exact absurd trivial hG
  | deleteRepo repoId localRows => exact absurd trivial hG
  | deleteNode nodeId =>
    simp only [Keeps, not_forall, not_not] at hG
    obtain ⟨hnone, anchor, hanchor, hworktree, rfl⟩ := hG
    rw [Management.step, hnone, Option.isSome_none, if_neg Bool.false_ne_true] at hstep
    obtain ⟨nodes', hnodes, rfl⟩ := Option.map_eq_some_iff.mp hstep
    have hlocal : anchor.nodeId ≠ localNodeId := by
      intro heq
      rw [heq] at hnone
      cases hnone
    exact canOrphan_node nodes repos loaded hanchor hworktree
      (not_coming_begin (not_knownNode_remove hlocal) hnodes)
  | nodeDeleted i =>
    simp only [Keeps, not_forall, not_not] at hG
    obtain ⟨d, hd, anchor, hanchor, hworktree, hnode⟩ := hG
    obtain ⟨d', hd', hstep⟩ := Option.bind_eq_some_iff.mp hstep
    obtain rfl := Option.some.inj (hd'.symm.trans hd)
    obtain ⟨-, hstep⟩ := Option.ite_none_right_eq_some.mp hstep
    obtain ⟨repos', hrepos, rfl⟩ := Option.map_eq_some_iff.mp hstep
    refine canOrphan_repo nodes repos loaded hanchor hworktree ?_
    rw [hnode]
    exact not_coming_begin not_knownRepo_removeByNode hrepos
  | repoClosed i =>
    simp only [Keeps, not_forall, not_not] at hG
    obtain ⟨repoId, hrepoId, repo, hrepo, anchor, hanchor, hworktree, hplace⟩ := hG
    obtain ⟨repoId', hrepoId', hstep⟩ := Option.bind_eq_some_iff.mp hstep
    obtain rfl := Option.some.inj (hrepoId'.symm.trans hrepoId)
    obtain ⟨repos', hrepos, rfl⟩ := Option.map_eq_some_iff.mp hstep
    exact canOrphan_repo nodes repos loaded hanchor hworktree
      (not_coming_begin (not_knownRepo_remove hdistinct.memory hrepo hplace) hrepos)
  | anchors e =>
    cases e with
    | appended k =>
      simp only [Keeps, not_forall] at hG
      obtain ⟨c, hc, hworktree, hG⟩ := hG
      obtain ⟨anchors, hanchors, rfl⟩ := Option.map_eq_some_iff.mp hstep
      have hmem : c.record ∈ anchors.anchors := by
        rw [AnchorCalls.step] at hanchors
        split at hanchors
        · rename_i record hk
          obtain rfl := Option.some.inj (hk.symm.trans hc)
          obtain rfl := Option.some.inj hanchors
          exact List.mem_append_right _ List.mem_cons_self
        · cases hanchors
      rcases not_and_or.mp hG with hnode | hrepo
      · exact canOrphan_node nodes repos loaded (s := { s with anchors := anchors }) hmem hworktree hnode
      · exact canOrphan_repo nodes repos loaded (s := { s with anchors := anchors }) hmem hworktree hrepo
    | _ => exact absurd trivial hG

/-- Every step keeps the records of every list of repositories distinct. -/
theorem distinct_run {s t : Host} {e : Event} (h : Everywhere repoEffect Distinct s.repos)
    (hfresh : FreshId s e) (hstep : Management.step root s e = some t) :
    Everywhere repoEffect Distinct t.repos := by
  cases e with
  | nodes e =>
    obtain ⟨-, hstep⟩ := Option.ite_none_right_eq_some.mp hstep
    obtain ⟨nodes, -, rfl⟩ := Option.map_eq_some_iff.mp hstep
    exact h
  | deleteNode nodeId =>
    rw [Management.step] at hstep
    split at hstep
    · obtain rfl := Option.some.inj hstep
      exact h
    · obtain ⟨nodes, -, rfl⟩ := Option.map_eq_some_iff.mp hstep
      exact h
  | nodeDeleted i =>
    obtain ⟨d, -, hstep⟩ := Option.bind_eq_some_iff.mp hstep
    obtain ⟨-, hstep⟩ := Option.ite_none_right_eq_some.mp hstep
    obtain ⟨repos, hrepos, rfl⟩ := Option.map_eq_some_iff.mp hstep
    exact distinct_step (e := .begin (.deleteNode d.1)) h trivial hrepos
  | repos e =>
    obtain ⟨-, hstep⟩ := Option.ite_none_right_eq_some.mp hstep
    obtain ⟨repos, hrepos, rfl⟩ := Option.map_eq_some_iff.mp hstep
    exact distinct_step h hfresh hrepos
  | deleteRepo repoId localRows =>
    rw [Management.step] at hstep
    split at hstep <;> obtain rfl := Option.some.inj hstep <;> exact h
  | repoClosed i =>
    obtain ⟨repoId, -, hstep⟩ := Option.bind_eq_some_iff.mp hstep
    obtain ⟨repos, hrepos, rfl⟩ := Option.map_eq_some_iff.mp hstep
    exact distinct_step (e := .begin (.delete repoId)) h trivial hrepos
  | anchors e =>
    obtain ⟨anchors, -, rfl⟩ := Option.map_eq_some_iff.mp hstep
    exact h

end Continue

/-- Over stores that were loaded without an orphan, there is none along every run whose steps
meet the condition; and as soon as one does not, the requests go on to an orphan. -/
theorem no_orphans {nodes : List Stores.NodeRecord} {repos : List RepoRecord}
    (hrepos : Distinct repos) (loaded : Loaded before root)
    (hloaded : NoOrphans (Management.machine nodes repos loaded).init) :
    (∀ s, (Management.machine nodes repos loaded).ReachableWhen
        (fun s e => FreshId s e ∧ Keeps s e) s → NoOrphans s) ∧
      ∀ s, (Management.machine nodes repos loaded).ReachableWhen FreshId s → ∀ e t, ¬ Keeps s e →
        (Management.machine nodes repos loaded).step s e = some t →
        ∃ es u, (Management.machine nodes repos loaded).runFrom t es = some u ∧ ¬ NoOrphans u := by
  refine ⟨fun s hs => ?_, fun s hs e t hG hstep => ?_⟩
  · have hsound : Sound s := by
      refine Machine.ReachableWhen.invariant (M := Management.machine nodes repos loaded)
        (I := Sound) ⟨⟨hloaded.1, ?_⟩, ⟨hloaded.2, ?_⟩, everywhere_init hrepos⟩ ?_ hs
      · intro p hp
        cases hp
      · intro p hp
        cases hp
      · intro s e t h hG hstep
        exact sound_step h hG.1 hG.2 hstep
    exact hsound.noOrphans
  · have hdistinct : Everywhere repoEffect Distinct s.repos := by
      refine Machine.ReachableWhen.invariant (M := Management.machine nodes repos loaded)
        (I := fun s => Everywhere repoEffect Distinct s.repos) (everywhere_init hrepos) ?_ hs
      intro s e t h hfresh hstep
      exact distinct_run h hfresh hstep
    exact canOrphan_of_not_keeps nodes repos loaded hdistinct hG hstep

/-! ### A machine that is deleted -/

/-- A machine. -/
def machineRecord : Stores.NodeRecord :=
  ⟨"n1", "a", .ssh "a" none none, "t", "2026-01-01T00:00:00.000Z", "2026-01-01T00:00:00.000Z"⟩

/-- Two repositories on it. -/
def repoRecords : List RepoRecord :=
  [⟨"r1", "n1", "/srv/app", "app", "2026-01-01T00:00:00.000Z"⟩,
    ⟨"r2", "n1", "/srv/web", "web", "2026-01-01T00:00:00.000Z"⟩]

/-- A checkout of the first repository is adopted, and the second repository is deleted. -/
def keptRun : List Event :=
  [.anchors (.adopt "n1" "/srv/app" "/srv/w/login" "login" "a1" "t1"), .anchors (.made 0),
    .anchors (.written 0), .anchors (.appended 0), .deleteRepo "r2" 0, .repoClosed 0,
    .repos (.written 0), .repos (.assigned 0)]

theorem keptRun_isSome : ((Management.machine [machineRecord] repoRecords
    Anchors.emptyLoaded).runGuarded (fun s e => FreshId s e ∧ Keeps s e)
    (Management.machine [machineRecord] repoRecords Anchors.emptyLoaded).init keptRun).isSome =
      true := by
  decide +kernel

/-- The checkout's anchor has the records it needs. -/
theorem keptRun_noOrphans : NoOrphans (((Management.machine [machineRecord] repoRecords
    Anchors.emptyLoaded).runGuarded (fun s e => FreshId s e ∧ Keeps s e)
    (Management.machine [machineRecord] repoRecords Anchors.emptyLoaded).init keptRun).get
      keptRun_isSome) :=
  (no_orphans (by decide +kernel) Anchors.emptyLoaded (by decide +kernel)).1 _
    (Machine.reachableWhen_get keptRun_isSome)

/-- A checkout is adopted, and its machine is deleted. -/
def orphanRun : List Event :=
  [.anchors (.adopt "n1" "/srv/app" "/srv/w/login" "login" "a1" "t1"), .anchors (.made 0),
    .anchors (.written 0), .anchors (.appended 0), .deleteNode "n1", .nodes (.written 0),
    .nodes (.assigned 0), .nodeDeleted 0, .repos (.written 0), .repos (.assigned 0)]

theorem orphanRun_isSome : ((Management.machine [machineRecord] repoRecords
    Anchors.emptyLoaded).run orphanRun).isSome = true := by
  decide +kernel

/-- The checkout's anchor is held, and neither its machine nor its repository has a record. -/
theorem orphaned_anchor :
    ¬ ∀ (before : String → String → Bool) (root : String) (nodes : List Stores.NodeRecord)
      (repos : List RepoRecord) (loaded : Loaded before root), Distinct repos →
      NoOrphans (Management.machine nodes repos loaded).init →
      ∀ s, (Management.machine nodes repos loaded).Reachable s → NoOrphans s := by
  intro hall
  have hnone := hall _ _ [machineRecord] repoRecords Anchors.emptyLoaded (by decide +kernel)
    (by decide +kernel) _ (Machine.reachable_get _ orphanRun_isSome)
  revert hnone
  decide +kernel

end RemoteWorkspace.Analysis.Management
