import RemoteWorkspace.Analysis.Classify
import RemoteWorkspace.Model.RoutingFs

/-!
# Target keys

A key is the explicit spelling of what it names: the parser of keys reads back the machine and
the path it was composed of, and so does classification, which reads it by another pattern and
normalizes the path. Two keys are compared by whole segments of their paths.
-/

set_option autoImplicit false

namespace RemoteWorkspace.Analysis.TargetKeys

open RemoteWorkspace.Computation
open RemoteWorkspace.Model
open RemoteWorkspace.Model.Routing
open RemoteWorkspace.Model.RoutingFs
open RemoteWorkspace.Analysis.PosixSegments RemoteWorkspace.Analysis.Classify

/-- What names a machine in a key: not empty, with neither colon nor slash. -/
structure KeyId (nodeId : String) : Prop where
  nonempty : nodeId.toList ≠ []
  no_colon : ':' ∉ nodeId.toList
  no_slash : '/' ∉ nodeId.toList

/-- What names a place on it: a normalized absolute path without a trailing slash, or the root. -/
def TargetPath (remotePath : String) : Prop := remotePath = "/" ∨ NormalizedRoot remotePath

/-- A target path starts at a slash. -/
theorem TargetPath.absolute {p : String} (h : TargetPath p) : ∃ rest, p.toList = '/' :: rest := by
  rcases h with rfl | h
  · exact ⟨[], by simp⟩
  · exact eq_cons_of_head h.absolute

/-- Normalizing leaves a target path as it is. -/
theorem TargetPath.normalized {p : String} (h : TargetPath p) : PosixPath.normalize p = p := by
  rcases h with rfl | h
  · decide +kernel
  · exact h.normalized

/-- A target path is canonical. -/
theorem TargetPath.canonical {p : String} (h : TargetPath p) : Canonical p := by
  obtain ⟨rest, hrest⟩ := h.absolute
  have hcanonical := canonical_normalize hrest
  rwa [h.normalized] at hcanonical

/-- The characters of a key. -/
theorem toList_composeKey (n p : String) :
    (composeKey n p).toList = "node:".toList ++ (n.toList ++ ':' :: p.toList) := by
  simp [composeKey, targetKeyPrefix]

/-- What follows the prefix of a key. -/
theorem drop_composeKey (n p : String) :
    (composeKey n p).toList.drop "node:".length = n.toList ++ ':' :: p.toList := by
  rw [toList_composeKey, ← String.length_toList, List.drop_left]

/-- A key starts with the prefix. -/
theorem isPrefixOf_composeKey (n p : String) :
    "node:".toList.isPrefixOf (composeKey n p).toList = true := by
  rw [toList_composeKey, List.isPrefixOf_iff_prefix]
  exact List.prefix_append _ _

/-- A key is parsed into what it was composed of. -/
theorem parseKey_composeKey {n p : String} (hn : KeyId n) (hp : TargetPath p) :
    parseKey (composeKey n p) = .remote n p := by
  obtain ⟨rest, hrest⟩ := hp.absolute
  have hseparator : (n.toList ++ ':' :: p.toList).idxOf ':' = n.toList.length := by
    rw [List.idxOf_append, if_neg hn.no_colon, List.idxOf_cons_self, Nat.zero_add]
  have hpath : (n.toList ++ ':' :: p.toList).drop (n.toList.length + 1) = p.toList := by
    rw [List.drop_append, List.drop_of_length_le (Nat.le_succ _)]
    simp
  have hlength : n.toList.length ≠ 0 := mt List.eq_nil_of_length_eq_zero hn.nonempty
  unfold parseKey
  simp only [targetKeyPrefix, isPrefixOf_composeKey, if_true, drop_composeKey, hseparator, hpath]
  rw [if_neg]
  · rw [List.take_left, String.ofList_toList, String.ofList_toList]
  · rw [hrest]
    simp [hlength]

/-- A key is an explicit spelling of what it was composed of. -/
theorem explicit_composeKey {n p : String} (hn : KeyId n) (hp : TargetPath p) :
    explicit (composeKey n p) = some (n, p) := by
  obtain ⟨rest, hrest⟩ := hp.absolute
  have hid : (n.toList ++ ':' :: p.toList).takeWhile (fun c => c ≠ ':' ∧ c ≠ '/') = n.toList := by
    rw [List.takeWhile_append_of_pos]
    · simp
    · intro c hc
      have hcolon : c ≠ ':' := fun h => hn.no_colon (h ▸ hc)
      have hslash : c ≠ '/' := fun h => hn.no_slash (h ▸ hc)
      simp [hcolon, hslash]
  unfold explicit
  simp only [isPrefixOf_composeKey, if_true, drop_composeKey]
  rw [hid, List.drop_left, hrest]
  simp only [if_neg hn.nonempty]
  rw [← hrest, String.ofList_toList, String.ofList_toList]

/-- So is it classified, from any directory and against any anchors. -/
theorem classifyPath_composeKey {n p : String} (hn : KeyId n) (hp : TargetPath p)
    (cwd : Option String) (anchors : List AnchorRoute) :
    classifyPath (composeKey n p) cwd anchors = .remote n p := by
  simp only [classifyPath, explicit_composeKey hn hp, hp.normalized]

/-- Every canonical path is below the root directory. -/
theorem below_slash (q : String) : Below '/' "/".toList q.toList := by
  have hroot : segments '/' "/".toList = [] := by decide +kernel
  rw [Below, hroot]
  exact List.nil_prefix

/-- Lying at or below a target path is what `isWithin` tests. -/
theorem isWithin_target_iff {p q : String} (hp : TargetPath p) (hq : TargetPath q) :
    isWithin p q = true ↔ Below '/' p.toList q.toList := by
  rcases hp with rfl | hp
  · obtain ⟨rest, hrest⟩ := hq.absolute
    refine ⟨fun _ => below_slash q, fun _ => ?_⟩
    unfold isWithin
    split
    · rfl
    · simp [hrest]
  · exact isWithin_iff hp hq.canonical

/-- A key holds another one when both name one machine and the path of the first is that of the
second, or an ancestor of it. -/
theorem contains_composeKey {n p m q : String} (hn : KeyId n) (hp : TargetPath p) (hm : KeyId m)
    (hq : TargetPath q) (localContains : String → String → Bool) :
    contains localContains (composeKey n p) (composeKey m q) = true ↔
      n = m ∧ Below '/' p.toList q.toList := by
  unfold contains
  simp only [parseKey_composeKey hn hp, parseKey_composeKey hm hq, Bool.and_eq_true,
    decide_eq_true_eq, isWithin_target_iff hp hq]

/-- A key says which machine and which path it was composed of, to the parser of keys, to
classification from anywhere, and against every other key. -/
theorem target_keys {n p : String} (hn : KeyId n) (hp : TargetPath p) :
    parseKey (composeKey n p) = .remote n p ∧
    (∀ cwd anchors, classifyPath (composeKey n p) cwd anchors = .remote n p) ∧
    ∀ m q, KeyId m → TargetPath q →
      (composeKey n p = composeKey m q → n = m ∧ p = q) ∧
      ∀ localContains, contains localContains (composeKey n p) (composeKey m q) = true ↔
        n = m ∧ Below '/' p.toList q.toList := by
  refine ⟨parseKey_composeKey hn hp, classifyPath_composeKey hn hp, fun m q hm hq => ⟨?_, ?_⟩⟩
  · intro hkey
    have hparsed := congrArg parseKey hkey
    rw [parseKey_composeKey hn hp, parseKey_composeKey hm hq] at hparsed
    injection hparsed with hid hpath
    exact ⟨hid, hpath⟩
  · exact fun localContains => contains_composeKey hn hp hm hq localContains

/-- A path with a colon and a line break in it. -/
theorem target_keys_colon :
    parseKey "node:n1:/srv/a:b\nc" = .remote "n1" "/srv/a:b\nc" ∧
      classifyPath "node:n1:/srv/a:b\nc" none [] = .remote "n1" "/srv/a:b\nc" := by
  have hn : KeyId "n1" := ⟨by decide +kernel, by decide +kernel, by decide +kernel⟩
  have hp : TargetPath "/srv/a:b\nc" :=
    .inr ⟨by decide +kernel, by decide +kernel, by decide +kernel⟩
  obtain ⟨hparse, hclassify, -⟩ := target_keys hn hp
  exact ⟨hparse, hclassify none []⟩

end RemoteWorkspace.Analysis.TargetKeys
