import RemoteWorkspace.Analysis.CanonicalTargets
import RemoteWorkspace.Analysis.TargetKeys
import RemoteWorkspace.Model.FsListing

/-!
# A listing agrees with what it lists

A directory of a machine is listed under target keys. Each entry says of its target just what
asking for that key's metadata answers, whether the name is a file, a directory, a link that leads
somewhere, or one that dangles. A single child whose target may not be looked at fails the whole
listing, and it is the first such child, in the order of the names, that the failure speaks of.
-/

set_option autoImplicit false

namespace RemoteWorkspace.Analysis.AgreedListings

open RemoteWorkspace.Computation RemoteWorkspace.Computation.Symlinks
open RemoteWorkspace.Model RemoteWorkspace.Model.FsListing RemoteWorkspace.Model.FsPaths
open RemoteWorkspace.Model.FsText (Errno Failure absolutePath ioFailure)
open RemoteWorkspace.Model.RoutingFs (composeKey)
open RemoteWorkspace.Analysis.FsPaths RemoteWorkspace.Analysis.TargetKeys

variable {disk : Disk} {root : Option String} {verb nodeId path : String}
  {place c : Place} {name : List Char} {children : List (List Char)}

/-- Following a child leads through something that may not be looked at. -/
def Blocked (fs : FileSystem (List Char)) (place : Place) (name : List Char) : Prop :=
  canonicalize fs (place ++ [name]) = .error .denied ∨
    canonicalize fs (place ++ [name]) = .error .loop

instance (fs : FileSystem (List Char)) (place : Place) (name : List Char) :
    Decidable (Blocked fs place name) := by
  unfold Blocked
  infer_instance

/-- What the metadata of a target are answered as. -/
def answerOf (info : Metadata) : StatAnswer := ⟨versionOf info, fileType info, info.size⟩

/-- An entry that says of its target what asking for it answers. -/
structure Agrees (disk : Disk) (root : Option String) (nodeId : String) (place : Place)
    (entry : FsDirEntry) : Prop where
  /-- The name is one of the directory. -/
  stands : (disk.fs (place ++ [entry.name])).isSome = true
  /-- The key is that of the path shown. -/
  shown : entry.targetKey = composeKey nodeId entry.displayPath
  /-- What the key answers is what the name in the directory answers. -/
  followed : routedStat disk root entry.targetKey =
    routedStat disk root (composeKey nodeId (pathOf (place ++ [entry.name])))
  /-- The entry says what the key answers. -/
  answered : ∃ answer, routedStat disk root entry.targetKey = some (.ok answer) ∧
    entry.version = answer.map StatAnswer.version ∧
    entry.type = answer.elim .other StatAnswer.type ∧
    entry.size = answer.bind fun answer => if answer.type = .file then some answer.size else none
  /-- What is no link is shown where it stands. -/
  unlinked : isLink disk.fs (place ++ [entry.name]) = false →
    entry.displayPath = pathOf (place ++ [entry.name])

/-! ### Metadata -/

/-- A disk has names everywhere. -/
theorem allNamed (disk : Disk) : AllNamed disk.fs := disk.named

/-- A place written down is a target path. -/
theorem targetPath_pathOf (h : Named place) : TargetPath (pathOf place) := by
  rcases eq_or_ne place [] with rfl | hne
  · exact .inl rfl
  · exact .inr (h.normalizedRoot hne)

/-- The metadata of what a place leads to. -/
theorem probe_ok (h : canonicalize disk.fs (placeOf path) = .ok c) :
    probe disk verb path true = .ok (some (disk.info c)) := by
  simp only [probe, if_true, h]

/-- There are none when the place leads nowhere. -/
theorem probe_none (h : canonicalize disk.fs (placeOf path) = .error .missing ∨
      canonicalize disk.fs (placeOf path) = .error .notDirectory) :
    probe disk verb path true = .ok none := by
  rcases h with h | h <;> simp [probe, h, errnoOf]

/-- The metadata that a key is answered with. -/
theorem routedStat_composeKey (hid : KeyId nodeId) (hplace : Named place)
    {info : Option Metadata} (h : probe disk "stat" (pathOf place) true = .ok info) :
    routedStat disk root (composeKey nodeId (pathOf place)) =
      some (.ok (info.map answerOf)) := by
  rw [routedStat, parseKey_composeKey hid (targetPath_pathOf hplace)]
  simp only [stat, absolutePath_pathOf hplace, except_ok_bind, h]
  rfl

/-! ### One child -/

/-- What stands in the directory has a name. -/
theorem named_child (hplace : Named place) (h : (disk.fs (place ++ [name])).isSome = true) :
    Named (place ++ [name]) :=
  hplace.append fun n hn => disk.named _ h n (by simp [List.mem_singleton.mp hn])

/-- Below a directory that was not locked to the child stands the child itself. -/
theorem canonicalize_child (hreal : Real disk.fs place)
    (hkind : (disk.info place).kind = .directory)
    (h : (disk.fs (place ++ [name])).isSome = true) (hblocked : ¬ Blocked disk.fs place name)
    (hlink : isLink disk.fs (place ++ [name]) = false) :
    canonicalize disk.fs (place ++ [name]) = .ok (place ++ [name]) := by
  refine canonicalize_of_real (Directories.real_concat ?_ h hlink)
  rcases List.eq_nil_or_concat place with rfl | ⟨up, last, rfl⟩
  · exact directories_nil
  · rw [List.concat_eq_append] at *
    obtain ⟨hsome, -⟩ := hreal.stands (by simp)
    have hthrough : Directories disk.fs up := by simpa using hreal.through
    refine hthrough.concat ?_
    obtain ⟨node, hnode⟩ := Option.isSome_iff_exists.mp hsome
    rcases (disk.directories _ _ hnode).mp hkind with rfl | rfl
    · exact hnode
    · -- a locked directory lets nothing below it be looked at
      exact absurd (.inl (canonicalize_locked hthrough hnode (by simp))) hblocked

/-- A child that may be looked at has a path, at which is what the name leads to. -/
theorem child_leads (hplace : Named place) (hreal : Real disk.fs place)
    (hkind : (disk.info place).kind = .directory)
    (h : (disk.fs (place ++ [name])).isSome = true) (hblocked : ¬ Blocked disk.fs place name) :
    ∃ target info, Named target ∧
      (∀ verb, childCanonical disk.fs verb (pathOf place) name = .ok (pathOf target)) ∧
      (∀ verb, probe disk verb (pathOf target) true = .ok info) ∧
      (∀ verb, probe disk verb (pathOf (place ++ [name])) true = .ok info) ∧
      (isLink disk.fs (place ++ [name]) = false → target = place ++ [name]) := by
  have hchild := named_child hplace h
  have hspelt : placeOf (pathOf (place ++ [name])) = place ++ [name] := placeOf_pathOf hchild
  have hparent : placeOf (pathOf place) = place := placeOf_pathOf hplace
  cases hleads : canonicalize disk.fs (place ++ [name]) with
  | ok c =>
    have hc := canonicalize_real hleads
    have hcnamed : Named c := (allNamed disk).real hc
    refine ⟨c, some (disk.info c), hcnamed, fun verb => ?_, fun verb => ?_, fun verb => ?_,
      fun hlink => ?_⟩
    · simp only [childCanonical, hparent, hleads]
    · exact probe_ok (by rw [placeOf_pathOf hcnamed, canonicalize_of_real hc])
    · exact probe_ok (by rw [hspelt, hleads])
    · have hself := canonicalize_child hreal hkind h hblocked hlink
      exact Except.ok.inj (hleads.symm.trans hself)
  | error stop =>
    -- a link that dangles stands for itself
    have hdangles : stop = .missing ∨ stop = .notDirectory := by
      cases stop with
      | missing => exact .inl rfl
      | notDirectory => exact .inr rfl
      | denied => exact absurd (.inl hleads) hblocked
      | loop => exact absurd (.inr hleads) hblocked
    have hnone : ∀ verb, probe disk verb (pathOf (place ++ [name])) true = .ok none := by
      intro verb
      refine probe_none ?_
      rw [hspelt, hleads]
      rcases hdangles with rfl | rfl
      · exact .inl rfl
      · exact .inr rfl
    refine ⟨place ++ [name], none, hchild, fun verb => ?_, hnone, hnone, fun _ => rfl⟩
    rcases hdangles with rfl | rfl <;> simp [childCanonical, hparent, hleads, errnoOf]

/-- An entry as it is handed on. -/
def handedOn (nodeId : String) (entry : ListEntry) : FsDirEntry :=
  ⟨entry.name, entry.type, composeKey nodeId entry.canonicalPath, entry.canonicalPath,
    entry.version, entry.size⟩

/-- What listing says of a child that may be looked at. -/
theorem listEntry_agrees (hid : KeyId nodeId) (hplace : Named place) (hreal : Real disk.fs place)
    (hkind : (disk.info place).kind = .directory)
    (h : (disk.fs (place ++ [name])).isSome = true) (hblocked : ¬ Blocked disk.fs place name) :
    ∃ entry, listEntry disk verb (pathOf place) name = .ok entry ∧ entry.name = name ∧
      Agrees disk root nodeId place (handedOn nodeId entry) := by
  obtain ⟨target, info, hnamed, hpath, htarget, hfollowed, hunlinked⟩ :=
    child_leads hplace hreal hkind h hblocked
  have hchild := named_child hplace h
  have hkey : routedStat disk root (composeKey nodeId (pathOf target)) =
      some (.ok (info.map answerOf)) := routedStat_composeKey hid hnamed (htarget "stat")
  have hentry : listEntry disk verb (pathOf place) name = .ok
      ⟨name, info.elim .other fileType, pathOf target, info.map versionOf,
        info.bind fun info => if info.kind = .file then some info.size else none⟩ := by
    simp only [listEntry, hpath, htarget, except_ok_bind]
    rfl
  refine ⟨_, hentry, rfl, h, rfl, ?_, ⟨_, hkey, ?_, ?_, ?_⟩, fun hlink => ?_⟩
  · exact hkey.trans (routedStat_composeKey hid hchild (hfollowed "stat")).symm
  · cases info <;> rfl
  · cases info <;> rfl
  · cases info with
    | none => rfl
    | some info =>
      have hfile : info.kind = .file ↔ fileType info = .file := by
        cases hkind : info.kind <;> simp [fileType, hkind]
      simp [handedOn, answerOf, hfile]
  · exact congrArg pathOf (hunlinked hlink)

/-- An entry bears the name that it was listed for. -/
theorem listEntry_name {entry : ListEntry} (h : listEntry disk verb path name = .ok entry) :
    entry.name = name := by
  obtain ⟨childPath, -, h⟩ := bind_eq_ok_iff.mp h
  obtain ⟨info, -, h⟩ := bind_eq_ok_iff.mp h
  exact (congrArg ListEntry.name (Except.ok.inj h)).symm

/-- What listing fails with at a child that may not be looked at. -/
theorem listEntry_blocked (hplace : Named place) (hblocked : Blocked disk.fs place name) :
    ∃ stop, canonicalize disk.fs (place ++ [name]) = .error stop ∧
      listEntry disk verb (pathOf place) name =
        .error (ioFailure verb (pathOf (place ++ [name])) (errnoOf stop)) := by
  have hparent : placeOf (pathOf place) = place := placeOf_pathOf hplace
  rcases hblocked with h | h
  · refine ⟨_, h, ?_⟩
    simp only [listEntry, childCanonical, hparent, h, errnoOf]
    rfl
  · refine ⟨_, h, ?_⟩
    simp only [listEntry, childCanonical, hparent, h, errnoOf]
    rfl

/-! ### The listing -/

/-- The names are handed on once each, in order. -/
theorem sortNames_perm (names : List (List Char)) : (sortNames names).Perm names :=
  List.mergeSort_perm names _

/-- The names are in the order of their code points. -/
theorem sortNames_pairwise (h : children.Nodup) : (sortNames children).Pairwise (· < ·) := by
  have hsorted : (sortNames children).Pairwise fun a b => decide (a ≤ b) = true := by
    refine List.pairwise_mergeSort (fun a b c hab hbc => ?_) (fun a b => ?_) children
    · simpa using le_trans (of_decide_eq_true hab) (of_decide_eq_true hbc)
    · simpa using le_total a b
  have hnodup : (sortNames children).Pairwise (· ≠ ·) :=
    (sortNames_perm children).nodup_iff.mpr h
  exact hsorted.imp₂ (fun a b hle hne => lt_of_le_of_ne (of_decide_eq_true hle) hne) hnodup

/-- What listing a directory comes to. -/
theorem routedListDir_eq (hid : KeyId nodeId) (hpath : TargetPath path)
    (hplace : canonicalize disk.fs (placeOf path) = .ok place)
    (hkind : (disk.info place).kind = .directory) (hread : disk.readDir place = .ok children) :
    routedListDir disk root (composeKey nodeId path) =
      some (((sortNames children).mapM (listEntry disk "list" (pathOf place))).map
        (List.map (handedOn nodeId))) := by
  have hnamed : Named place := (allNamed disk).real (canonicalize_real hplace)
  have habsolute : absolutePath "list" path root = .ok (pathOf (placeOf path)) :=
    absolutePath_canonical hpath.canonical
  have htarget : canonicalTarget disk.fs "list" (pathOf (placeOf path)) = .ok (pathOf place) := by
    have hspelt : placeOf (pathOf (placeOf path)) = placeOf path := by
      rw [placeOf_pathOf]
      exact fun name hname => isName_iff_plain.mpr (hpath.canonical.plain name hname)
    rw [canonicalTarget, hspelt, hplace]
  have hprobe : probe disk "list" (pathOf place) true = .ok (some (disk.info place)) :=
    probe_ok (by rw [placeOf_pathOf hnamed, canonicalize_of_real (canonicalize_real hplace)])
  rw [routedListDir, parseKey_composeKey hid hpath]
  simp only [listDir, habsolute, except_ok_bind, htarget, hprobe, hkind, placeOf_pathOf hnamed,
    hread, ne_eq, not_true_eq_false, if_false]
  rfl

/-- A directory with a file, a link to it and a link that dangles. -/
def linkedFs : FileSystem (List Char)
  | [['d']] => some .directory
  | [['d'], ['f']] => some .file
  | [['d'], ['l']] => some (.link false [.name ['f']])
  | [['d'], ['m']] => some (.link false [.name ['x']])
  | _ => none

/-- The metadata of what is in it. -/
def linkedInfo : Place → Metadata
  | [['d']] => ⟨.directory, 7, 1, 4096, 2⟩
  | [['d'], ['f']] => ⟨.file, 7, 2, 5, 3⟩
  | _ => ⟨.symlink, 7, 3, 1, 4⟩

/-- Reading that directory. -/
def linkedDir : Place → Except Errno (List (List Char))
  | [['d']] => .ok [['m'], ['f'], ['l']]
  | _ => .error .acces

/-- Its names can stand in a directory. -/
theorem linkedFs_named : ∀ place, (linkedFs place).isSome = true → Named place := by
  intro place h
  unfold linkedFs at h
  split at h
  · exact List.forall_mem_singleton.mpr (by decide)
  · exact List.forall_mem_cons.mpr ⟨by decide, List.forall_mem_singleton.mpr (by decide)⟩
  · exact List.forall_mem_cons.mpr ⟨by decide, List.forall_mem_singleton.mpr (by decide)⟩
  · exact List.forall_mem_cons.mpr ⟨by decide, List.forall_mem_singleton.mpr (by decide)⟩
  · cases h

/-- Reading it answers its names. -/
theorem linkedDir_lists : ∀ place names, linkedDir place = .ok names →
    names.Nodup ∧ ∀ name, name ∈ names ↔ (linkedFs (place ++ [name])).isSome = true := by
  intro place names h
  unfold linkedDir at h
  split at h
  · obtain rfl := Except.ok.inj h
    refine ⟨by decide, fun name => ⟨fun hname => ?_, fun hname => ?_⟩⟩
    · simp only [List.mem_cons, List.not_mem_nil, or_false] at hname
      rcases hname with rfl | rfl | rfl <;> rfl
    · rw [List.singleton_append] at hname
      unfold linkedFs at hname
      split at hname <;> simp_all
  · cases h

/-- It says of itself that it is a directory. -/
theorem linkedInfo_directories : ∀ place node, linkedFs place = some node →
    ((linkedInfo place).kind = .directory ↔ node = .directory ∨ node = .locked) := by
  intro place node h
  unfold linkedFs at h
  split at h
  · simp [linkedInfo, ← Option.some.inj h]
  · simp [linkedInfo, ← Option.some.inj h]
  · simp [linkedInfo, ← Option.some.inj h]
  · simp [linkedInfo, ← Option.some.inj h]
  · cases h

/-- The disk. -/
def linkedDisk : Disk :=
  ⟨linkedFs, linkedInfo, linkedDir, linkedFs_named, linkedDir_lists, linkedInfo_directories⟩

end RemoteWorkspace.Analysis.AgreedListings
