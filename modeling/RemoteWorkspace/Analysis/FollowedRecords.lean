import RemoteWorkspace.Analysis.CarriedRecords
import RemoteWorkspace.Analysis.Autoconnect
import RemoteWorkspace.Model.NodePatches

/-!
# Connections and the records they were made for

A connection keeps the record it was made for: a request to connect answers with the one there
is, and a recovery asks for it again. So a channel always leads where some record of its
machine has led, and where the present one leads once nothing of an earlier one goes on: no
channel, no attempt, no recovery loop and no pass. From then on it stays so until the record
changes again.
-/

set_option autoImplicit false

namespace RemoteWorkspace.Analysis.FollowedRecords

open RemoteWorkspace.Computation RemoteWorkspace.Model RemoteWorkspace.Model.NodePatches
open RemoteWorkspace.Model.Autoconnect (Pass consider startPass nextAttempt asked)
open RemoteWorkspace.Model.NodeConnections (Connections ConnectAnswer connectRecord channel)
open RemoteWorkspace.Model.Management (getNode localNode)
open RemoteWorkspace.Analysis.NodeConnections
open RemoteWorkspace.Analysis.Autoconnect (consider_cases step_moves nextAttempt_record)

variable {deps : Autoconnect.Deps} {P : NodeRecord → Prop}

/-! ### Where a record leads -/

/-- The destination and the token of a record. -/
def way (record : NodeRecord) : NodeTransport × String := (record.transport, record.token)

/-- The channel of a machine, if it has one, leads to the destination of its record, with its
token. -/
def Follows (s : Host) (nodeId : NodeId) : Prop :=
  ∀ ch, channel s.connections nodeId = some ch →
    ∀ record, getNode s.nodes.memory nodeId = some record → way ch.record = way (toRecord record)

/-- The records of a machine have this destination and token. -/
def Leads (nodeId : NodeId) (w : NodeTransport × String) (s : Host) : Prop :=
  ∀ record ∈ listNodes s.nodes.memory, record.nodeId = nodeId → way record = w

/-- What goes on in the manager and in the passes goes on with records that have a property. -/
structure Alive (P : NodeRecord → Prop) (s : Autoconnect.State) : Prop where
  manager : Carried P s.connections
  passes : ∀ pass ∈ s.passes, pass.phase ≠ .ended → P pass.record

/-- Nothing goes on for a machine with another destination or token than these, which are those
of its record. -/
structure UpToDate (nodeId : NodeId) (w : NodeTransport × String) (s : Host) : Prop where
  leads : Leads nodeId w s
  alive : Alive (fun record => record.nodeId = nodeId → way record = w) s.passes

/-- The record of a machine is listed. -/
theorem listed_of_getNode {nodes : List Stores.NodeRecord} {nodeId : NodeId}
    {record : Stores.NodeRecord} (h : getNode nodes nodeId = some record) :
    toRecord record ∈ listNodes nodes ∧ record.nodeId = nodeId := by
  unfold getNode at h
  split at h
  · rename_i hlocal
    cases h
    exact ⟨List.mem_map_of_mem List.mem_cons_self, hlocal.symm⟩
  · refine ⟨List.mem_map_of_mem (List.mem_cons_of_mem _ (List.mem_of_find?_eq_some h)), ?_⟩
    simpa using List.find?_some h

/-! ### The passes -/

/-- A weaker property. -/
theorem Alive.mono {Q : NodeRecord → Prop} {s : Autoconnect.State} (h : Alive P s)
    (hPQ : ∀ record, P record → Q record) : Alive Q s :=
  ⟨h.manager.mono hPQ, fun pass hpass hgo => hPQ _ (h.passes pass hpass hgo)⟩

/-- A connection request with such a record. -/
theorem carried_connect {s : Connections} (h : Carried P s) {record : NodeRecord}
    (hP : P record) : Carried P (connectRecord s record).1 := by
  have hstep : NodeConnections.step ⟨0, none⟩ s (.connect record) =
      some (connectRecord s record).1 := rfl
  have hnew : Unlike s (.connect record) := trivial
  refine carried_step h (fun other hother => ?_) hnew hstep
  cases hother
  exact hP

/-- A machine is considered that leads nowhere else. -/
theorem alive_consider {s : Autoconnect.State} (h : Alive P s) (retryOnlyFailed : Bool)
    {record : NodeRecord} (hP : P record) : Alive P (consider deps retryOnlyFailed s record) := by
  rcases consider_cases deps retryOnlyFailed s record with hsame | ⟨-, hstart⟩
  · rw [hsame]
    exact h
  · rw [hstart]
    refine ⟨carried_connect h.manager hP, fun pass hpass hgo => ?_⟩
    rcases List.mem_append.mp hpass with hpass | hpass
    · exact h.passes pass hpass hgo
    · obtain rfl := List.mem_singleton.mp hpass
      exact hP

/-- All records are considered. -/
theorem alive_foldl (l : List NodeRecord) {s : Autoconnect.State} (h : Alive P s)
    (retryOnlyFailed : Bool) (hP : ∀ record ∈ l, P record) :
    Alive P (l.foldl (consider deps retryOnlyFailed) s) :=
  List.foldlRecOn l _ h fun _ halive record hrecord =>
    alive_consider halive retryOnlyFailed (hP record hrecord)

/-- A pass moves on, with its record. -/
theorem Alive.setPass {s : Autoconnect.State} (h : Alive P s) (p : ℕ) {pass : Pass}
    (hP : pass.phase ≠ .ended → P pass.record) : Alive P (s.setPass p pass) := by
  refine ⟨h.manager, fun other hother hgo => ?_⟩
  rcases List.mem_or_eq_of_mem_set hother with hold | rfl
  · exact h.passes other hold hgo
  · exact hP hgo

/-- A dependency that answers with a new object answers unlike before. -/
theorem unlike_of_newObject {s : Connections} {e : NodeConnections.Event}
    (h : newObject s (.manager e) = true) : Unlike s e := by
  cases e with
  | opened a transport =>
    intro a' x opened live hx hphase
    have hne := of_decide_eq_true (List.all_eq_true.mp h x (List.mem_of_getElem? hx))
    rw [hphase] at hne
    exact fun heq => hne (congrArg some heq)
  | connected a live =>
    intro a' x opened other hx hphase
    have hne := of_decide_eq_true (List.all_eq_true.mp h x (List.mem_of_getElem? hx))
    rw [hphase] at hne
    exact fun heq => hne (congrArg some heq)
  | _ => trivial

/-- The passes go on with such records, when those of the registry are. -/
theorem alive_pass {s t : Autoconnect.State} {e : Autoconnect.Event} (h : Alive P s)
    (hrecords : ∀ record ∈ s.records, P record)
    (hconnect : ∀ record, e = .manager (.connect record) → P record)
    (hnew : newObject s.connections e = true) (hstep : Autoconnect.step deps s e = some t) :
    Alive P t := by
  have hmem : ∀ {p : ℕ} {pass : Pass}, s.passes[p]? = some pass → pass.phase ≠ .ended →
      P pass.record := fun hp hgo => h.passes _ (List.mem_of_getElem? hp) hgo
  cases step_moves hstep with
  | @manager e connections hconnections =>
    refine ⟨?_, h.passes⟩
    apply carried_step h.manager _ (unlike_of_newObject hnew) hconnections
    exact fun record he => hconnect record (congrArg _ he)
  | stored records => exact ⟨h.manager, h.passes⟩
  | tick => exact alive_foldl s.records h true hrecords
  | connected hp => exact h.setPass _ fun hgo => absurd rfl hgo
  | failed hp ha =>
    apply h.setPass
    intro _
    rw [(nextAttempt_record ..).1]
    exact hmem hp fun hc => by cases hc
  | ended hp => exact h.setPass _ fun hgo => absurd rfl hgo
  | @again p record n hp =>
    have hpass : P record := hmem hp fun hc => by cases hc
    have hasked : Alive P { s with connections := (connectRecord s.connections record).1 } :=
      ⟨carried_connect h.manager hpass, h.passes⟩
    exact hasked.setPass p fun _ => hpass
  | stop => exact ⟨h.manager, h.passes⟩

/-! ### The host -/

/-- The passes look at what the registry lists. -/
def Synced (s : Host) : Prop := s.passes.records = listNodes s.nodes.memory

/-- What a call on the registry that begins leaves alone. -/
theorem begin_eq {s t : Host} {call : Stores.NodeCall} (h : s.begin call = some t) :
    t.passes = s.passes ∧ t.nodes.memory = s.nodes.memory := by
  obtain ⟨nodes, hnodes, rfl⟩ := Option.map_eq_some_iff.mp h
  cases hnodes
  exact ⟨rfl, rfl⟩

/-- One event of the host: nothing that concerns the passes, or a write of the registry, or one
event of the passes, which may ask for a connection with the record of a machine only. -/
inductive Effect (deps : Autoconnect.Deps) (s : Host) : Host → Prop
  | same {t : Host} (hpasses : t.passes = s.passes) (hmemory : t.nodes.memory = s.nodes.memory) :
      Effect deps s t
  | write (nodes : WriteBack.State Stores.NodeCall (List Stores.NodeRecord)) :
      Effect deps s
        { nodes := nodes, passes := { s.passes with records := listNodes nodes.memory } }
  | pass {t : Host} (e : Autoconnect.Event)
      (hconnect : ∀ record, e = .manager (.connect record) → record ∈ listNodes s.nodes.memory)
      (hstored : ∀ records, e ≠ .stored records) (hnew : newObject s.connections e = true)
      (hpass : Autoconnect.step deps s.passes e = some t.passes)
      (hmemory : t.nodes.memory = s.nodes.memory) : Effect deps s t

/-- A disconnect of the manager. -/
theorem effect_disconnect {s t : Host} {nodeId : NodeId}
    (h : s.pass deps (.manager (.disconnect nodeId)) = some t) : Effect deps s t := by
  obtain ⟨passes, hpasses, rfl⟩ := Option.map_eq_some_iff.mp h
  exact .pass (.manager (.disconnect nodeId)) (fun _ hc => by cases hc) (fun _ hc => by cases hc)
    rfl hpasses rfl

/-- Every event has one of these effects. -/
theorem step_effect {s t : Host} {e : NodePatches.Event} (hstep : step deps s e = some t) :
    Effect deps s t := by
  have hsame : some s = some t → Effect deps s t := by
    rintro ⟨⟩
    exact .same rfl rfl
  have hbegin : ∀ call, s.begin call = some t → Effect deps s t := by
    intro call hcall
    obtain ⟨hpasses, hmemory⟩ := begin_eq hcall
    exact .same hpasses hmemory
  cases e with
  | post title transport token generated stamp => exact hbegin _ hstep
  | patch nodeId body stamp =>
    simp only [step] at hstep
    split at hstep
    · exact hsame hstep
    · split at hstep
      · exact hsame hstep
      · exact hbegin _ hstep
  | delete nodeId =>
    simp only [step] at hstep
    split at hstep
    · exact hsame hstep
    · split at hstep
      · exact hsame hstep
      · obtain ⟨u, hu, hcall⟩ := Option.bind_eq_some_iff.mp hstep
        obtain ⟨passes, hpasses, rfl⟩ := Option.map_eq_some_iff.mp hu
        obtain ⟨hsamePasses, hmemory⟩ := begin_eq hcall
        refine .pass (.manager (.disconnect nodeId)) (fun _ hc => by cases hc)
          (fun _ hc => by cases hc) rfl ?_ hmemory
        rw [hsamePasses]
        exact hpasses
  | write e =>
    simp only [step] at hstep
    split at hstep
    · obtain ⟨nodes, -, rfl⟩ := Option.map_eq_some_iff.mp hstep
      exact .write nodes
    · cases hstep
  | connect nodeId =>
    simp only [step] at hstep
    split at hstep
    · exact hsame hstep
    · rename_i record hget
      split at hstep
      · exact hsame hstep
      · obtain ⟨passes, hpasses, rfl⟩ := Option.map_eq_some_iff.mp hstep
        refine .pass (.manager (.connect (toRecord record))) (fun other hother => ?_)
          (fun _ hc => by cases hc) rfl hpasses rfl
        cases hother
        exact (listed_of_getNode hget).1
  | disconnect nodeId =>
    simp only [step] at hstep
    split at hstep
    · exact hsame hstep
    · split at hstep
      · exact hsame hstep
      · exact effect_disconnect hstep
  | passes e =>
    simp only [step] at hstep
    split at hstep
    · rename_i hown
      obtain ⟨passes, hpasses, rfl⟩ := Option.map_eq_some_iff.mp hstep
      refine .pass e (fun record he => ?_) (fun records he => ?_) hown.2 hpasses rfl
      · subst he
        cases hown.1
      · subst he
        cases hown.1
    · cases hstep

/-- The records stay when machines are considered. -/
theorem records_foldl (l : List NodeRecord) (s : Autoconnect.State) (retryOnlyFailed : Bool) :
    (l.foldl (consider deps retryOnlyFailed) s).records = s.records := by
  refine List.foldlRecOn (motive := fun u : Autoconnect.State => u.records = s.records) l _ rfl ?_
  intro u hu record _
  rcases consider_cases deps retryOnlyFailed u record with hsame | ⟨-, hstart⟩
  · rw [hsame, hu]
  · rw [hstart, hu]

/-- The records stay until others are stored. -/
theorem records_pass {s t : Autoconnect.State} {e : Autoconnect.Event}
    (hstored : ∀ records, e ≠ .stored records) (hstep : Autoconnect.step deps s e = some t) :
    t.records = s.records := by
  cases step_moves hstep with
  | stored records => exact absurd rfl (hstored records)
  | tick => exact records_foldl s.records s true
  | _ => rfl

/-- The passes look at what the registry lists, also after an event. -/
theorem synced_step {s t : Host} (h : Synced s) (heffect : Effect deps s t) : Synced t := by
  unfold Synced at *
  cases heffect with
  | same hpasses hmemory => rw [hpasses, hmemory, h]
  | write nodes => rfl
  | pass e hconnect hstored hnew hpass hmemory => rw [hmemory, records_pass hstored hpass, h]

/-- Each event keeps a property of all records that something goes on with, when the records of
the registry have it. -/
theorem alive_step {s t : Host} (h : Alive P s.passes) (hsynced : Synced s)
    (hlisted : ∀ record ∈ listNodes s.nodes.memory, P record) (heffect : Effect deps s t) :
    Alive P t.passes := by
  cases heffect with
  | same hpasses hmemory =>
    rw [hpasses]
    exact h
  | write nodes => exact ⟨h.manager, h.passes⟩
  | pass e hconnect hstored hnew hpass hmemory =>
    apply alive_pass h _ _ hnew hpass
    · rw [hsynced]
      exact hlisted
    · exact fun record he => hlisted record (hconnect record he)

/-! ### Channels and their machines -/

/-- A channel of a machine was made with a record of that machine. -/
structure OwnChannels (s : Connections) : Prop where
  wellFormed : (skeleton s).WellFormed
  own : ∀ row ∈ s.table, ∀ ch, (s.entries row.2).published = some ch → ch.record.nodeId = row.1

/-- A new manager has no channel. -/
theorem ownChannels_empty : OwnChannels .empty :=
  ⟨wellFormed_empty, fun row hrow => by cases hrow⟩

/-- Every event of the manager keeps channels with their machines. -/
theorem ownChannels_step {manager : NodeConnections.Deps} {s t : Connections}
    {e : NodeConnections.Event} (h : OwnChannels s)
    (hstep : NodeConnections.step manager s e = some t) : OwnChannels t := by
  have hwell := wellFormed_step h.wellFormed hstep
  refine ⟨hwell, fun row hrow ch hch => ?_⟩
  obtain ⟨-, hrows⟩ := mem_table_of_step hstep hrow
  rcases (step_touch hstep row.2).published hch with hold | ⟨a, x, hx, -, hentry, hrecord⟩
  · rcases hrows with hmem | ⟨hnew, hnext⟩
    · have hprior : prior s t row.2 = s.entries row.2 :=
        if_neg fun hc => Nat.ne_of_lt (h.wellFormed.below row hmem) hc.1
      rw [hprior] at hold
      exact h.own row hmem ch hold
    · have hprior : prior s t row.2 = .created := if_pos ⟨hnew, by omega⟩
      rw [hprior] at hold
      cases hold
  · rcases hrows with hmem | ⟨hnew, -⟩
    · rw [← hrecord]
      exact (attempt_machine h.wellFormed hx hmem hentry).symm
    · have hbelow := attempt_below h.wellFormed hx
      omega

/-- A pass that asks for a connection keeps channels with their machines. -/
theorem ownChannels_connect {s : Connections} (h : OwnChannels s) (record : NodeRecord) :
    OwnChannels (connectRecord s record).1 :=
  @ownChannels_step ⟨0, none⟩ s _ (.connect record) h rfl

/-- So do all considerations. -/
theorem ownChannels_foldl (l : List NodeRecord) {s : Autoconnect.State}
    (h : OwnChannels s.connections) (retryOnlyFailed : Bool) :
    OwnChannels (l.foldl (consider deps retryOnlyFailed) s).connections := by
  refine List.foldlRecOn (motive := fun u : Autoconnect.State => OwnChannels u.connections) l _ h ?_
  intro u hu record _
  rcases consider_cases deps retryOnlyFailed u record with hsame | ⟨-, hstart⟩
  · rw [hsame]
    exact hu
  · rw [hstart]
    exact ownChannels_connect hu record

/-- So does every event of the passes. -/
theorem ownChannels_pass {s t : Autoconnect.State} {e : Autoconnect.Event}
    (h : OwnChannels s.connections) (hstep : Autoconnect.step deps s e = some t) :
    OwnChannels t.connections := by
  cases step_moves hstep with
  | manager hconnections => exact ownChannels_step h hconnections
  | tick => exact ownChannels_foldl s.records h true
  | @again p record => exact ownChannels_connect h record
  | stored records => exact h
  | connected hp => exact h
  | failed hp ha => exact h
  | ended hp hstopped => exact h
  | stop => exact h

/-- What is known of every state of the host. -/
structure Orderly (s : Host) : Prop where
  synced : Synced s
  channels : OwnChannels s.connections

/-- Every event keeps it. -/
theorem orderly_step {s t : Host} (h : Orderly s) (heffect : Effect deps s t) : Orderly t := by
  refine ⟨synced_step h.synced heffect, ?_⟩
  cases heffect with
  | same hpasses hmemory =>
    rw [Host.connections, hpasses]
    exact h.channels
  | write nodes => exact h.channels
  | pass e hconnect hstored hnew hpass hmemory => exact ownChannels_pass h.channels hpass

/-- The host at first. -/
theorem orderly_started (deps : Autoconnect.Deps) (nodes : List Stores.NodeRecord) :
    Orderly (.started deps nodes) :=
  ⟨records_foldl _ _ false, ownChannels_foldl _ ownChannels_empty false⟩

/-- The channel of a machine was made with a record of it. -/
theorem channel_own {s : Connections} (h : OwnChannels s) {nodeId : NodeId}
    {ch : NodeConnections.NodeChannel} (hch : channel s nodeId = some ch) :
    ch.record.nodeId = nodeId ∧ ∃ e, (s.entries e).published = some ch := by
  obtain ⟨e, hget, hpublished⟩ := Option.bind_eq_some_iff.mp hch
  exact ⟨h.own _ (mem_of_get hget) ch hpublished, e, hpublished⟩

/-! ### Runs -/

/-- At some point of a run the registry listed this record. -/
def WasListed (deps : Autoconnect.Deps) (nodes : List Stores.NodeRecord)
    (es : List NodePatches.Event) (record : NodeRecord) : Prop :=
  ∃ before u, before <+: es ∧ (machine deps nodes).run before = some u ∧
    record ∈ listNodes u.nodes.memory

/-- Whatever goes on goes on with a record that was listed. -/
theorem alive_wasListed {nodes : List Stores.NodeRecord} (es : List NodePatches.Event) {s : Host}
    (hrun : (machine deps nodes).run es = some s) :
    Orderly s ∧ Alive (WasListed deps nodes es) s.passes := by
  induction es using List.reverseRecOn generalizing s with
  | nil =>
    cases hrun
    refine ⟨orderly_started deps nodes, ?_⟩
    apply alive_foldl
    · exact ⟨carried_empty _, fun pass hpass => by cases hpass⟩
    · exact fun record hrecord => ⟨[], _, List.prefix_refl _, rfl, hrecord⟩
  | append_singleton es e ih =>
    obtain ⟨u, hu, hstep⟩ := Machine.runFrom_concat hrun
    obtain ⟨horderly, halive⟩ := ih hu
    have heffect := step_effect hstep
    refine ⟨orderly_step horderly heffect, ?_⟩
    have hlonger : ∀ record, WasListed deps nodes es record →
        WasListed deps nodes (es ++ [e]) record := by
      rintro record ⟨before, v, hbefore, hv, hrecord⟩
      exact ⟨before, v, hbefore.trans (List.prefix_append _ _), hv, hrecord⟩
    apply alive_step (halive.mono hlonger) horderly.synced _ heffect
    exact fun record hrecord => ⟨es, u, List.prefix_append _ _, hu, hrecord⟩

/-- A machine that nothing goes on for elsewhere stays so while its record leads there. -/
theorem upToDate_step {s t : Host} {nodeId : NodeId} {w : NodeTransport × String}
    (h : UpToDate nodeId w s) (horderly : Orderly s) (heffect : Effect deps s t)
    (hleads : Leads nodeId w t) : UpToDate nodeId w t :=
  ⟨hleads, alive_step h.alive horderly.synced h.leads heffect⟩

/-- Its channel then leads where its record does. -/
theorem UpToDate.follows {s : Host} {nodeId : NodeId} {w : NodeTransport × String}
    (h : UpToDate nodeId w s) (horderly : Orderly s) : Follows s nodeId := by
  intro ch hch record hget
  obtain ⟨hnode, e, hpublished⟩ := channel_own horderly.channels hch
  obtain ⟨hlisted, hrecord⟩ := listed_of_getNode hget
  calc way ch.record = w := h.alive.manager.published e ch hpublished hnode
    _ = way (toRecord record) := (h.leads _ hlisted hrecord).symm

/-- For every configuration and every run: a channel leads to the destination, with the token,
of a record that its machine had at some point of the run; and from any state on in which
nothing goes on for a machine with another destination or token than its record has, the
channel follows the record as long as the record keeps them, whatever else happens. -/
theorem follows_record (deps : Autoconnect.Deps) (nodes : List Stores.NodeRecord) :
    (∀ es s, (machine deps nodes).run es = some s → ∀ nodeId ch,
      channel s.connections nodeId = some ch →
        ch.record.nodeId = nodeId ∧ WasListed deps nodes es ch.record) ∧
    ∀ s, (machine deps nodes).Reachable s → ∀ nodeId w, UpToDate nodeId w s → ∀ t,
      (⟨s, step deps⟩ : Machine Host NodePatches.Event).ReachableWhen
        (fun u e => ∀ v, step deps u e = some v → Leads nodeId w v) t → Follows t nodeId := by
  constructor
  · intro es s hrun nodeId ch hch
    obtain ⟨horderly, halive⟩ := alive_wasListed es hrun
    obtain ⟨hnode, e, hpublished⟩ := channel_own horderly.channels hch
    exact ⟨hnode, halive.manager.published e ch hpublished⟩
  · intro s hs nodeId w hcurrent t ht
    have hs : Orderly s := hs.invariant (I := Orderly) (orderly_started deps nodes)
      fun _ _ _ h _ hstep => orderly_step h (step_effect hstep)
    have hboth : UpToDate nodeId w t ∧ Orderly t :=
      ht.invariant (I := fun u => UpToDate nodeId w u ∧ Orderly u) ⟨hcurrent, hs⟩
        fun _ _ _ h hkeeps hstep =>
          ⟨upToDate_step h.1 h.2 (step_effect hstep) (hkeeps _ hstep),
            orderly_step h.2 (step_effect hstep)⟩
    exact hboth.1.follows hboth.2

/-! ### A machine that is pointed elsewhere -/

/-- A machine on the list, which no pass connects. -/
def storedBox : Stores.NodeRecord :=
  ⟨"build", "Build box", .ssh "build.example" none none, "secret", "", ""⟩

/-- The machine once it is pointed elsewhere. -/
def movedBox : Stores.NodeRecord :=
  ⟨"build", "Build box", .ssh "other.example" none none, "secret", "", ""⟩

def quietDeps : Autoconnect.Deps := ⟨0, false, false, buildDeps⟩

/-- A request that points it elsewhere. -/
def elsewhere : PatchBody := ⟨none, .object ⟨some "other.example", .absent, none⟩, none⟩

/-- The machine is connected, and the request stored. -/
def repointed : List NodePatches.Event :=
  [.connect "build", .passes (.manager (.opened 0 (forward 0))),
    .passes (.manager (.connected 0 (link 0))), .patch "build" elsewhere "", .write (.written 0),
    .write (.assigned 0)]

theorem repointed_isSome : ((machine quietDeps [storedBox]).run repointed).isSome = true := by
  decide +kernel

/-- A request to connect that is made then is answered at once, and the channel leads to the
former destination. -/
theorem answered_elsewhere : ¬ ∀ (deps : Autoconnect.Deps) (nodes : List Stores.NodeRecord)
    (s : Host) (nodeId : NodeId) (info : NodeInfo), (machine deps nodes).Reachable s →
      connectAnswer s nodeId = some (.info info) → Follows s nodeId := by
  intro h
  have hfollows := h quietDeps [storedBox] _ "build" (link 0).info
    (Machine.reachable_get repointed repointed_isSome) (by decide +kernel)
    ⟨0, toRecord storedBox, link 0⟩ (by decide +kernel) movedBox (by decide +kernel)
  revert hfollows
  decide +kernel

/-- The request is stored before anything is connected. -/
def repointedFirst : List NodePatches.Event :=
  [.patch "build" elsewhere "", .write (.written 0), .write (.assigned 0)]

theorem repointedFirst_isSome :
    ((machine quietDeps [storedBox]).run repointedFirst).isSome = true := by
  decide +kernel

/-- The host then. -/
def movedHost : Host :=
  ((machine quietDeps [storedBox]).run repointedFirst).get repointedFirst_isSome

/-- Nothing goes on there, so nothing goes on elsewhere. -/
theorem movedHost_upToDate : UpToDate "build" (way (toRecord movedBox)) movedHost := by
  refine ⟨?_, ?_, ?_⟩
  · unfold Leads
    decide +kernel
  · exact carried_empty _
  · intro pass hpass
    cases hpass

/-- The machine is connected from there. -/
def connectMoved : List NodePatches.Event :=
  [.connect "build", .passes (.manager (.opened 0 (forward 0))),
    .passes (.manager (.connected 0 (link 0)))]

/-- An event after which the records lead there. -/
def stays (s : Host) (e : NodePatches.Event) : Bool :=
  (step quietDeps s e).all fun t =>
    (listNodes t.nodes.memory).all fun record =>
      !decide (record.nodeId = "build") || decide (way record = way (toRecord movedBox))

/-- It keeps the condition. -/
theorem leads_of_stays {s t : Host} {e : NodePatches.Event} (h : stays s e = true)
    (hstep : step quietDeps s e = some t) : Leads "build" (way (toRecord movedBox)) t := by
  intro record hrecord hnode
  rw [stays, hstep] at h
  have hall := List.all_eq_true.mp h record hrecord
  simpa [hnode] using hall

theorem connectMoved_isSome : ((⟨movedHost, step quietDeps⟩ : Machine Host _).runGuarded
    (fun s e => stays s e = true) movedHost connectMoved).isSome = true := by
  decide +kernel

/-- Its channel leads where its record does. -/
theorem connectMoved_follows : Follows
    (((⟨movedHost, step quietDeps⟩ : Machine Host _).runGuarded (fun s e => stays s e = true)
      movedHost connectMoved).get connectMoved_isSome) "build" := by
  apply (follows_record quietDeps [storedBox]).2 movedHost
    (Machine.reachable_get repointedFirst repointedFirst_isSome) "build" _ movedHost_upToDate
  exact (Machine.reachableWhen_get connectMoved_isSome).mono
    fun _ _ hstays _ hv => leads_of_stays hstays hv

end RemoteWorkspace.Analysis.FollowedRecords
