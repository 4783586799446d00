import RemoteWorkspace.Model.AnchorIds

/-!
# Three families of ids

The ids of rows come in three families: ids of this host, ids of checkouts that a machine's git
reports, and the generated ids of records. A derived id gives back what it was derived from, and
no id is in two families.
-/

set_option autoImplicit false

namespace RemoteWorkspace.Analysis.AnchorIds

open RemoteWorkspace.Computation RemoteWorkspace.Model.AnchorIds

/-! ### Parts -/

/-- A part that was encoded is decoded. -/
theorem decodePart_encodePart (value : String) : decodePart (encodePart value) = value := by
  unfold decodePart encodePart
  rw [String.toList_ofList, Base64.decode_encodeUrl, Utf8.decode_encode, String.ofList_toList]

/-- Encoded parts are told apart. -/
theorem encodePart_inj {value other : String} (h : encodePart value = encodePart other) :
    value = other := by
  have hdecode := congrArg decodePart h
  rwa [decodePart_encodePart, decodePart_encodePart] at hdecode

/-- No separator is in an encoded part. -/
theorem colon_not_mem (value : String) : ':' ∉ (encodePart value).toList := by
  intro h
  rw [encodePart, String.toList_ofList] at h
  exact (Base64.mem_encodeUrl h).2 rfl

/-! ### Ids of a machine's git -/

/-- The characters of an id of a machine's git. -/
theorem toList_remoteAnchorId (nodeId repoPath path : String) :
    (remoteAnchorId nodeId repoPath path).toList = remoteIdPrefix.toList ++
      ((encodePart nodeId).toList ++ ':' :: ((encodePart repoPath).toList ++ ':' ::
        (encodePart path).toList)) := by
  unfold remoteAnchorId
  have hcolon : (":" : String).toList = [':'] := rfl
  simp only [String.toList_append, hcolon, List.append_assoc, List.cons_append,
    List.nil_append]

/-- The coordinates of a checkout are read off its id. -/
theorem parseRemoteAnchorId_remoteAnchorId (nodeId repoPath path : String) :
    parseRemoteAnchorId (remoteAnchorId nodeId repoPath path) = some ⟨nodeId, repoPath, path⟩ := by
  have hsplit : ((remoteAnchorId nodeId repoPath path).toList.drop
      remoteIdPrefix.toList.length).splitOn ':' =
        [(encodePart nodeId).toList, (encodePart repoPath).toList, (encodePart path).toList] := by
    rw [toList_remoteAnchorId, List.drop_left,
      List.splitOn_append_cons_self_of_not_mem (colon_not_mem nodeId),
      List.splitOn_append_cons_self_of_not_mem (colon_not_mem repoPath),
      List.splitOn_eq_singleton (colon_not_mem path)]
  unfold parseRemoteAnchorId
  rw [if_pos (by rw [toList_remoteAnchorId]; exact List.prefix_append _ _), hsplit]
  simp only [String.ofList_toList, decodePart_encodePart]

/-- Ids of a machine's git are told apart by their coordinates. -/
theorem remoteAnchorId_inj {n n' r r' p p' : String} :
    remoteAnchorId n r p = remoteAnchorId n' r' p' ↔ n = n' ∧ r = r' ∧ p = p' := by
  constructor
  · intro h
    have hparse := congrArg parseRemoteAnchorId h
    rw [parseRemoteAnchorId_remoteAnchorId, parseRemoteAnchorId_remoteAnchorId] at hparse
    simpa using hparse
  · rintro ⟨rfl, rfl, rfl⟩
    rfl

/-! ### Ids of this host -/

/-- The part of an id of this host that says what it names. -/
def kindPart : LocalKind → List Char
  | .directory => "directory".toList
  | .worktree => "worktree".toList

/-- The parts of an id of this host behind its prefix. -/
def localParts (kind : LocalKind) (path repoPath : String) : List (List Char) :=
  match kind with
  | .directory => [kindPart .directory, (encodePart path).toList]
  | .worktree => [kindPart .worktree, (encodePart path).toList, (encodePart repoPath).toList]

/-- The characters of an id of this host. -/
theorem splitOn_localAnchorId (kind : LocalKind) (path repoPath : String) :
    ∃ rest, (localAnchorId kind path repoPath).toList = localIdPrefix.toList ++ rest ∧
      rest.splitOn ':' = localParts kind path repoPath := by
  have hcolon : (":" : String).toList = [':'] := rfl
  have hdirectory : ("directory:" : String).toList = "directory".toList ++ [':'] := by decide
  have hworktree : ("worktree:" : String).toList = "worktree".toList ++ [':'] := by decide
  cases kind with
  | directory =>
    refine ⟨"directory".toList ++ ':' :: (encodePart path).toList, ?_, ?_⟩
    · simp only [localAnchorId, String.toList_append, hdirectory, List.append_assoc,
        List.singleton_append]
    · rw [List.splitOn_append_cons_self_of_not_mem (by decide),
        List.splitOn_eq_singleton (colon_not_mem path)]
      rfl
  | worktree =>
    refine ⟨"worktree".toList ++ ':' :: ((encodePart path).toList ++ ':' ::
      (encodePart repoPath).toList), ?_, ?_⟩
    · simp only [localAnchorId, String.toList_append, hworktree, hcolon, List.append_assoc,
        List.cons_append, List.nil_append]
    · rw [List.splitOn_append_cons_self_of_not_mem (by decide),
        List.splitOn_append_cons_self_of_not_mem (colon_not_mem path),
        List.splitOn_eq_singleton (colon_not_mem repoPath)]
      rfl

/-- Ids of this host are told apart: those of directories by the path, those of checkouts by the
path and the repository. -/
theorem localAnchorId_inj {k k' : LocalKind} {p p' r r' : String} :
    localAnchorId k p r = localAnchorId k' p' r' ↔
      k = k' ∧ p = p' ∧ (k = .worktree → r = r') := by
  constructor
  · intro h
    obtain ⟨rest, hrest, hparts⟩ := splitOn_localAnchorId k p r
    obtain ⟨rest', hrest', hparts'⟩ := splitOn_localAnchorId k' p' r'
    rw [h, hrest'] at hrest
    obtain rfl := List.append_cancel_left hrest
    have hlists : localParts k p r = localParts k' p' r' := hparts.symm.trans hparts'
    have hpart {a b : String} (hab : (encodePart a).toList = (encodePart b).toList) : a = b :=
      encodePart_inj (String.toList_inj.mp hab)
    cases k with
    | directory =>
      cases k' with
      | directory =>
        simp only [localParts, List.cons.injEq, and_true, true_and] at hlists
        exact ⟨rfl, hpart hlists, fun hkind => by cases hkind⟩
      | worktree => exact absurd (congrArg List.length hlists) (by simp [localParts])
    | worktree =>
      cases k' with
      | directory => exact absurd (congrArg List.length hlists) (by simp [localParts])
      | worktree =>
        simp only [localParts, List.cons.injEq, and_true, true_and] at hlists
        exact ⟨rfl, hpart hlists.1, fun _ => hpart hlists.2⟩
  · rintro ⟨rfl, rfl, hrepo⟩
    cases k with
    | directory => rfl
    | worktree => rw [hrepo rfl]

/-! ### Families -/

/-- An id starts as an id of this host does. -/
theorem prefix_localAnchorId (kind : LocalKind) (path repoPath : String) :
    localIdPrefix.toList <+: (localAnchorId kind path repoPath).toList := by
  obtain ⟨rest, hrest, -⟩ := splitOn_localAnchorId kind path repoPath
  rw [hrest]
  exact List.prefix_append _ _

/-- An id starts as an id of a machine's git does. -/
theorem prefix_remoteAnchorId (nodeId repoPath path : String) :
    remoteIdPrefix.toList <+: (remoteAnchorId nodeId repoPath path).toList := by
  rw [toList_remoteAnchorId]
  exact List.prefix_append _ _

/-- No id is of this host and of a machine's git. -/
theorem not_both {anchorId : String} (hlocal : localIdPrefix.toList <+: anchorId.toList) :
    ¬ remoteIdPrefix.toList <+: anchorId.toList := by
  intro hremote
  obtain ⟨a, ha⟩ := hlocal
  obtain ⟨b, hb⟩ := hremote
  have hheads := congrArg List.head? (ha.trans hb.symm)
  exact absurd hheads (by simp [localIdPrefix, remoteIdPrefix])

/-- An id without the prefix of a machine's git has no coordinates. -/
theorem parseRemoteAnchorId_eq_none {anchorId : String}
    (h : ¬ remoteIdPrefix.toList <+: anchorId.toList) : parseRemoteAnchorId anchorId = none :=
  if_neg h

/-- A hexadecimal digit. -/
def IsHex (c : Char) : Prop := '0' ≤ c ∧ c ≤ '9' ∨ 'a' ≤ c ∧ c ≤ 'f' ∨ 'A' ≤ c ∧ c ≤ 'F'

instance (c : Char) : Decidable (IsHex c) := by
  unfold IsHex
  infer_instance

/-- A UUID: hexadecimal digits in groups of 8, 4, 4, 4 and 12. -/
structure IsUuid (anchorId : String) : Prop where
  groups : (anchorId.toList.splitOn '-').map List.length = [8, 4, 4, 4, 12]
  digits : ∀ c ∈ anchorId.toList, c = '-' ∨ IsHex c

/-- A UUID is no id of this host. -/
theorem IsUuid.not_local {anchorId : String} (h : IsUuid anchorId) :
    ¬ localIdPrefix.toList <+: anchorId.toList := by
  intro hstart
  have hmem : 'l' ∈ anchorId.toList := hstart.subset (by decide)
  exact absurd (h.digits 'l' hmem) (by decide)

/-- A UUID is no id of a machine's git. -/
theorem IsUuid.not_remote {anchorId : String} (h : IsUuid anchorId) :
    ¬ remoteIdPrefix.toList <+: anchorId.toList := by
  intro hstart
  have hmem : 'r' ∈ anchorId.toList := hstart.subset (by decide)
  exact absurd (h.digits 'r' hmem) (by decide)

end RemoteWorkspace.Analysis.AnchorIds
