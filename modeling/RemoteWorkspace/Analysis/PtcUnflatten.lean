import Mathlib.Data.List.Permutation
import RemoteWorkspace.Computation.Fallible
import RemoteWorkspace.Computation.Preorder
import RemoteWorkspace.Model.PtcCodec

/-!
# What tokens are unflattened to

`unflatten` reads tokens as the reader of `Computation.Preorder` does. Its stack of frames is that
reader's stack of pending nodes with repetitions: each iteration pushes the variable `frame` again,
which is the last container that was begun. That container is either complete, and then it is
taken off at once, or the one on top of the stack, where it is repeated (`Spread`).

A container is put into its parent when it is begun, not when it is complete. A frame below the
top of the stack therefore holds one child more than the pending node that it stands for
(`Chain`).
-/

set_option autoImplicit false

namespace RemoteWorkspace.Model.PtcCodec

open RemoteWorkspace.Computation
open RemoteWorkspace.Computation.Json
open RemoteWorkspace.Computation.Preorder

variable {ν : Type} [JsNumber ν]

/-! ### Markers -/

/-- What a token is a marker of: an object with these two members and no other, in either
order. -/
inductive Marks : Json ν → Marker → Prop
  | array {members : List (Text × Json ν)} {x : ν} {length : ℕ} :
    JsNumber.toNat x = some length →
    members.Perm [(kindKey, .str (ascii "array")), (lengthKey, .num x)] →
    Marks (.obj members) (.array length)
  | object {members : List (Text × Json ν)} {keys : List Text} : keys.Nodup →
    members.Perm [(kindKey, .str (ascii "object")), (keysKey, .arr (keys.map .str))] →
    Marks (.obj members) (.object keys)

omit [JsNumber ν] in
/-- An object with two members has them in one order or the other. -/
theorem hasBoth_iff {members : List (Text × Json ν)} {key other : Text} (hne : key ≠ other) :
    hasBoth members key other = true ↔ ∃ v w, members.Perm [(key, v), (other, w)] := by
  rw [hasBoth, decide_eq_true_eq]
  constructor
  · rintro ⟨hlength, hkey, hother⟩
    obtain ⟨m, m', rfl⟩ := List.length_eq_two.mp hlength
    obtain ⟨k, v⟩ := m
    obtain ⟨k', w⟩ := m'
    simp only [List.map_cons, List.map_nil, List.mem_cons, List.not_mem_nil, or_false] at hkey hother
    rcases hkey with rfl | rfl
    · rcases hother with rfl | rfl
      · exact absurd rfl hne
      · exact ⟨v, w, .refl _⟩
    · rcases hother with rfl | rfl
      · exact ⟨w, v, .swap _ _ _⟩
      · exact absurd rfl hne
  · rintro ⟨v, w, hperm⟩
    refine ⟨hperm.length_eq, ?_, ?_⟩
    · exact (hperm.map Prod.fst).mem_iff.mpr (by simp)
    · exact (hperm.map Prod.fst).mem_iff.mpr (by simp)

omit [JsNumber ν] in
/-- The members of an object with two of them. -/
theorem member_of_perm {members : List (Text × Json ν)} {key other : Text} {v w : Json ν}
    (hne : key ≠ other) (h : members.Perm [(key, v), (other, w)]) :
    member key members = some v ∧ member other members = some w := by
  rcases List.perm_pair.mp h with rfl | rfl
  · simp [member, hne]
  · simp [member, hne.symm]

omit [JsNumber ν] in
/-- Keys are added to those before them while they are strings that were not seen. -/
theorem foldlM_keys {keys : List (Json ν)} {normalized texts : List Text}
    (hnormalized : normalized.Nodup) :
    keys.foldlM addKey normalized = some texts ↔
      texts.Nodup ∧ ∃ rest, texts = normalized ++ rest ∧ keys = rest.map .str := by
  induction keys generalizing normalized with
  | nil =>
    rw [List.foldlM_nil]
    constructor
    · intro h
      obtain rfl := Option.some.inj h
      exact ⟨hnormalized, [], (List.append_nil _).symm, rfl⟩
    · rintro ⟨-, rest, rfl, hrest⟩
      rw [List.map_eq_nil_iff.mp hrest.symm, List.append_nil]
      rfl
  | cons key keys ih =>
    rw [List.foldlM_cons]
    cases key with
    | str s =>
      rw [addKey]
      by_cases hs : s ∈ normalized
      · rw [if_pos hs]
        simp only [Option.bind_eq_bind, Option.bind_none, reduceCtorEq, false_iff]
        rintro ⟨hnodup, rest, rfl, hrest⟩
        cases rest with
        | nil => cases hrest
        | cons t rest =>
          obtain ⟨ht, -⟩ := List.cons.inj hrest
          obtain rfl := Json.str.inj ht
          exact (List.nodup_append.mp hnodup).2.2 s hs s List.mem_cons_self rfl
      · have hgrown : (normalized ++ [s]).Nodup := by
          rw [List.nodup_append]
          refine ⟨hnormalized, List.nodup_singleton s, ?_⟩
          intro t ht t' ht' heq
          rw [List.mem_singleton.mp ht'] at heq
          exact hs (heq ▸ ht)
        rw [if_neg hs, Option.bind_eq_bind, Option.bind_some, ih hgrown]
        constructor
        · rintro ⟨hnodup, rest, rfl, rfl⟩
          exact ⟨hnodup, s :: rest, by simp, rfl⟩
        · rintro ⟨hnodup, rest, rfl, hrest⟩
          cases rest with
          | nil => cases hrest
          | cons t rest =>
            obtain ⟨ht, htail⟩ := List.cons.inj hrest
            obtain rfl := Json.str.inj ht
            exact ⟨hnodup, rest, by simp, htail⟩
    | _ =>
      simp only [addKey, Option.bind_eq_bind, Option.bind_none, reduceCtorEq, false_iff]
      rintro ⟨-, rest, -, hrest⟩
      cases rest with
      | nil => cases hrest
      | cons t rest => cases (List.cons.inj hrest).1

omit [JsNumber ν] in
/-- The keys of a marker are strings, no two alike. -/
theorem markerKeys_eq_some_iff {keys : List (Json ν)} {texts : List Text} :
    markerKeys keys = some texts ↔ texts.Nodup ∧ keys = texts.map .str := by
  rw [markerKeys, foldlM_keys List.nodup_nil]
  constructor
  · rintro ⟨hnodup, rest, rfl, hkeys⟩
    exact ⟨hnodup, hkeys⟩
  · rintro ⟨hnodup, hkeys⟩
    exact ⟨hnodup, texts, rfl, hkeys⟩

/-- The keys of markers are different. -/
theorem keys_ne : kindKey ≠ lengthKey ∧ kindKey ≠ keysKey ∧ ascii "array" ≠ ascii "object" := by
  decide

/-- A token is taken for a marker exactly when it is one. -/
theorem containerMarker_eq_some_iff {token : Json ν} {marker : Marker} :
    containerMarker token = some marker ↔ Marks token marker := by
  obtain ⟨hlengthKey, hkeysKey, hkinds⟩ := keys_ne
  constructor
  · intro h
    cases token with
    | obj members =>
      rw [containerMarker] at h
      split at h
      · rename_i kind hkind
        split at h
        · rename_i harray
          split at h
          · cases h
          · rename_i hboth
            obtain ⟨v, w, hperm⟩ := (hasBoth_iff hlengthKey).mp (by simpa using hboth)
            obtain ⟨hv, hw⟩ := member_of_perm hlengthKey hperm
            split at h
            · rename_i length hlength
              obtain ⟨l, hl, rfl⟩ := Option.map_eq_some_iff.mp h
              refine .array hl ?_
              obtain rfl := Option.some.inj (hw.symm.trans hlength)
              obtain rfl := Option.some.inj (hv.symm.trans hkind)
              rwa [harray] at hperm
            · cases h
        · split at h
          · rename_i hobject
            split at h
            · cases h
            · rename_i hboth
              obtain ⟨v, w, hperm⟩ := (hasBoth_iff hkeysKey).mp (by simpa using hboth)
              obtain ⟨hv, hw⟩ := member_of_perm hkeysKey hperm
              split at h
              · rename_i keys hkeys
                obtain ⟨texts, htexts, rfl⟩ := Option.map_eq_some_iff.mp h
                obtain ⟨hnodup, rfl⟩ := markerKeys_eq_some_iff.mp htexts
                refine .object hnodup ?_
                obtain rfl := Option.some.inj (hw.symm.trans hkeys)
                obtain rfl := Option.some.inj (hv.symm.trans hkind)
                rwa [hobject] at hperm
              · cases h
          · cases h
      · cases h
    | _ => cases h
  · intro h
    cases h with
    | array hlength hperm =>
      obtain ⟨hkind, hmember⟩ := member_of_perm hlengthKey hperm
      have hboth := (hasBoth_iff hlengthKey).mpr ⟨_, _, hperm⟩
      simp [containerMarker, hkind, hmember, hboth, hlength]
    | object hnodup hperm =>
      obtain ⟨hkind, hmember⟩ := member_of_perm hkeysKey hperm
      have hboth := (hasBoth_iff hkeysKey).mpr ⟨_, _, hperm⟩
      simp [containerMarker, hkind, hmember, hboth, hkinds.symm,
        markerKeys_eq_some_iff.mpr ⟨hnodup, rfl⟩]

/-! ### Encodings -/

/-- The container of a marker with these children. -/
def Marker.build : Marker → List (Json ν) → Json ν
  | .array _, vs => .arr vs
  | .object keys, vs => .obj (defineAll [] (keys.zip vs))

/-- The tokens of a value, in pre-order: a scalar, or a marker and then the tokens of as many
values as it asks for. -/
inductive Encoding : Json ν → List (Json ν) → Prop
  | null : Encoding .null [.null]
  | bool (b : Bool) : Encoding (.bool b) [.bool b]
  | num {x : ν} : JsNumber.isFinite x = true → JsNumber.isNegativeZero x = false →
    Encoding (.num x) [.num x]
  | str (s : Text) : Encoding (.str s) [.str s]
  | container {token : Json ν} {marker : Marker} {parts : List (Json ν × List (Json ν))} :
    Marks token marker → parts.length = marker.length → (∀ p ∈ parts, Encoding p.1 p.2) →
    Encoding (marker.build (parts.map Prod.fst)) (token :: (parts.map Prod.snd).flatten)

/-- What a token stands for. -/
def shape : Json ν → Option (Shape (Json ν))
  | .null => some (.leaf .null)
  | .bool b => some (.leaf (.bool b))
  | .str s => some (.leaf (.str s))
  | .num x =>
    if JsNumber.isFinite x = false ∨ JsNumber.isNegativeZero x = true then none
    else some (.leaf (.num x))
  | token => (containerMarker token).map fun marker => .node marker.length marker.build

/-- Only a marker stands for a container. -/
theorem shape_node {token : Json ν} {arity : ℕ} {build : List (Json ν) → Json ν}
    (h : shape token = some (.node arity build)) :
    ∃ marker, containerMarker token = some marker ∧ arity = marker.length ∧
      build = marker.build := by
  unfold shape at h
  split at h
  · cases h
  · cases h
  · cases h
  · split at h <;> cases h
  · obtain ⟨marker, hmarker, heq⟩ := Option.map_eq_some_iff.mp h
    obtain ⟨rfl, rfl⟩ := Shape.node.inj heq
    exact ⟨marker, hmarker, rfl, rfl⟩

/-- A marker stands for a container. -/
theorem shape_of_marker {token : Json ν} {marker : Marker}
    (h : containerMarker token = some marker) :
    shape token = some (.node marker.length marker.build) := by
  cases token with
  | arr items => cases h
  | obj members => rw [shape, h]; rfl; all_goals nofun
  | _ => cases h

/-- Only a scalar stands for itself. -/
theorem shape_leaf {token v : Json ν} (h : shape token = some (.leaf v)) :
    v = token ∧ Encoding v [token] := by
  unfold shape at h
  split at h
  · cases h
    exact ⟨rfl, .null⟩
  · cases h
    exact ⟨rfl, .bool _⟩
  · cases h
    exact ⟨rfl, .str _⟩
  · split at h
    · cases h
    · rename_i hx
      cases h
      rw [not_or, Bool.not_eq_false, Bool.not_eq_true] at hx
      exact ⟨rfl, .num hx.1 hx.2⟩
  · obtain ⟨marker, -, heq⟩ := Option.map_eq_some_iff.mp h
    cases heq

/-- The encodings of a value are its tokens in pre-order. -/
theorem encoding_iff {w : Json ν} {ts : List (Json ν)} : Encoding w ts ↔ Encodes shape w ts := by
  constructor
  · intro h
    induction h with
    | null => exact .leaf rfl
    | bool b => exact .leaf rfl
    | num hfinite hzero =>
      apply Encodes.leaf
      rw [shape, if_neg (by simp [hfinite, hzero])]
    | str s => exact .leaf rfl
    | container hmarks hlength hparts ih =>
      exact .node (shape_of_marker (containerMarker_eq_some_iff.mpr hmarks)) hlength ih
  · intro h
    induction h with
    | leaf hread =>
      obtain ⟨rfl, h⟩ := shape_leaf hread
      exact h
    | node hread hlength hparts ih =>
      obtain ⟨marker, hmarker, rfl, rfl⟩ := shape_node hread
      exact .container (containerMarker_eq_some_iff.mp hmarker) hlength ih

/-! ### Frames -/

/-- The frame of a marker with these children. -/
def Marker.fill : Marker → List (Slot ν) → Frame ν
  | .array length, slots => .array length slots.length slots
  | .object keys, slots => .object keys slots.length (defineAll [] (keys.zip slots))

omit [JsNumber ν] in
/-- A frame starts without children. -/
theorem fill_nil (marker : Marker) : marker.fill ([] : List (Slot ν)) = marker.frame := by
  cases marker with
  | array length => rfl
  | object keys => rw [Marker.fill, List.zip_nil_right]; rfl

omit [JsNumber ν] in
/-- A frame is complete when it has as many children as its marker asks for. -/
theorem complete_fill (marker : Marker) (slots : List (Slot ν)) :
    (marker.fill slots).complete = decide (marker.length ≤ slots.length) := by
  cases marker with
  | array length => rfl
  | object keys => rfl

/-- One more value goes with the next key. -/
theorem zip_append_singleton {α β : Type} {keys : List α} {values : List β}
    (h : values.length < keys.length) (value : β) (d : α) :
    keys.zip (values ++ [value]) = keys.zip values ++ [(keys.getD values.length d, value)] := by
  induction values generalizing keys with
  | nil =>
    cases keys with
    | nil => exact absurd h (Nat.lt_irrefl _)
    | cons key keys => simp
  | cons v values ih =>
    cases keys with
    | nil => simp at h
    | cons key keys =>
      have hrest := ih (Nat.lt_of_succ_lt_succ h)
      rw [List.cons_append, List.zip_cons_cons, List.zip_cons_cons, hrest, List.cons_append]
      rfl

omit [JsNumber ν] in
/-- A frame is given one more child. -/
theorem give_fill {marker : Marker} {slots : List (Slot ν)} (h : slots.length < marker.length)
    (value : Slot ν) : (marker.fill slots).give value = marker.fill (slots ++ [value]) := by
  cases marker with
  | array length =>
    rw [Marker.fill, Marker.fill, Frame.give, List.length_append, List.length_singleton]
  | object keys =>
    rw [Marker.fill, Marker.fill, Frame.give, List.length_append, List.length_singleton,
      zip_append_singleton h value [], defineAll, defineAll, List.foldl_append]
    rfl

/-! ### Complete containers -/

/-- The value of a slot whose containers are complete. The containers in a container were begun
after it. -/
inductive Reads (made : List (Frame ν)) : Slot ν → Json ν → Prop
  | value (v : Json ν) : Reads made (.value v) v
  | container {id : ℕ} {marker : Marker} {parts : List (Slot ν × Json ν)} :
    made[id]? = some (marker.fill (parts.map Prod.fst)) → marker.length = parts.length →
    (∀ p ∈ parts, ∀ k, p.1 = .container k → id < k) → (∀ p ∈ parts, Reads made p.1 p.2) →
    Reads made (.container id) (marker.build (parts.map Prod.snd))

omit [JsNumber ν] in
/-- Complete frames that are kept keep their values. -/
theorem Reads.mono {made made' : List (Frame ν)}
    (h : ∀ (id : ℕ) (f : Frame ν), made[id]? = some f → f.complete = true → made'[id]? = some f)
    {slot : Slot ν}
    {v : Json ν} (hreads : Reads made slot v) : Reads made' slot v := by
  induction hreads with
  | value v => exact .value v
  | container hid hlength horder hparts ih =>
    refine .container (h _ _ hid ?_) hlength horder ih
    rw [complete_fill, List.length_map, hlength]
    simp

/-- Members with the same values, up to two readings, are so when they are added. -/
theorem defineAll_values {α β γ : Type} (f : α → γ) (g : β → γ) (keys : List Text) {as : List α}
    {bs : List β} (h : as.map f = bs.map g) :
    (defineAll [] (keys.zip as)).map (Prod.map id f) =
      (defineAll [] (keys.zip bs)).map (Prod.map id g) := by
  have hzip : ∀ {δ : Type} (f : δ → γ) (ds : List δ),
      (keys.zip ds).map (Prod.map id f) = keys.zip (ds.map f) := by
    intro δ f ds
    rw [List.zip_map_right]
  rw [defineAll_map, defineAll_map, hzip, hzip, h]
  rfl

omit [JsNumber ν] in
/-- The value of a slot is what is built of it. -/
theorem Reads.result {s : Build ν} {slot : Slot ν} {v : Json ν} (h : Reads s.made slot v) :
    ∀ fuel, (∀ id, slot = .container id → s.made.length ≤ fuel + id) →
      s.result fuel slot = some v := by
  induction h with
  | value v =>
    intro fuel hfuel
    rw [Build.result]
  | container hid hlength horder hparts ih =>
    rename_i i marker parts
    intro fuel hfuel
    have hlt : i < s.made.length := (List.getElem?_eq_some_iff.mp hid).1
    have hle := hfuel i rfl
    obtain ⟨fuel, rfl⟩ : ∃ k, fuel = k + 1 := ⟨fuel - 1, by omega⟩
    have hchildren : (parts.map Prod.fst).map (s.result fuel) = (parts.map Prod.snd).map some := by
      rw [List.map_map, List.map_map]
      apply List.map_congr_left
      intro p hp
      apply ih p hp
      intro k hk
      have hlt := horder p hp k hk
      omega
    rw [Build.result, hid]
    cases marker with
    | array length =>
      simp only [Marker.fill, Marker.build]
      rw [mapM_eq_some_iff.mpr hchildren, Option.map_some]
    | object keys =>
      simp only [Marker.fill, Marker.build]
      have hmembers := congrArg (List.map fun m : Text × Option (Json ν) => m.2.map fun v => (m.1, v))
        (defineAll_values (s.result fuel) some keys hchildren)
      rw [List.map_map, List.map_map] at hmembers
      have hall : (fun m : Text × Option (Json ν) => m.2.map fun v => (m.1, v)) ∘
          Prod.map id some = some := rfl
      rw [hall] at hmembers
      have hmapM : (defineAll [] (keys.zip (parts.map Prod.fst))).mapM
          (fun m => (s.result fuel m.2).map fun v => (m.1, v)) =
            some (defineAll [] (keys.zip (parts.map Prod.snd))) := mapM_eq_some_iff.mpr hmembers
      rw [hmapM, Option.map_some]

/-! ### The stack of frames -/

/-- A stack with repetitions next to one another. -/
inductive Spread : List ℕ → List ℕ → Prop
  | nil : Spread [] []
  | one {i : ℕ} {ids frames : List ℕ} : Spread ids frames → Spread (i :: ids) (i :: frames)
  | again {i : ℕ} {ids frames : List ℕ} :
    Spread (i :: ids) frames → Spread (i :: ids) (i :: frames)

/-- A stack with repetitions has the same top. -/
theorem Spread.head? {ids frames : List ℕ} (h : Spread ids frames) : frames.head? = ids.head? := by
  cases h with
  | nil => rfl
  | one h => rfl
  | again h => rfl

/-- Taking frames off the top takes their repetitions off. -/
theorem Spread.dropWhile {ids frames : List ℕ} (h : Spread ids frames) (p : ℕ → Bool) :
    Spread (ids.dropWhile p) (frames.dropWhile p) := by
  induction h with
  | nil => exact .nil
  | one h ih =>
    rw [List.dropWhile_cons, List.dropWhile_cons]
    split
    · exact ih
    · exact .one h
  | again h ih =>
    rename_i i ids frames
    by_cases hp : p i = true
    · rwa [List.dropWhile_cons_of_pos hp (l := frames)]
    · rw [List.dropWhile_cons_of_neg hp, List.dropWhile_cons_of_neg hp]
      exact .again h

/-- The frames that lack children, the innermost first, as pending nodes. What is begun below a
frame, `inner`, is its last child; at the bottom it is the root. -/
inductive Chain (made : List (Frame ν)) (root : Option (Slot ν)) :
    Option (Slot ν) → List ℕ → List (Pending (Json ν)) → Prop
  | nil {inner : Option (Slot ν)} : root = inner → Chain made root inner [] []
  | cons {inner : Option (Slot ν)} {i : ℕ} {marker : Marker} {parts : List (Slot ν × Json ν)}
    {ids : List ℕ} {pending : List (Pending (Json ν))} :
    made[i]? = some (marker.fill (parts.map Prod.fst ++ inner.toList)) →
    parts.length < marker.length → (∀ p ∈ parts, Reads made p.1 p.2) →
    (∀ slot ∈ parts.map Prod.fst ++ inner.toList, ∀ k, slot = .container k → i < k) →
    Chain made root (some (.container i)) ids pending →
    Chain made root inner (i :: ids) (⟨marker.length, marker.build, parts.map Prod.snd⟩ :: pending)

omit [JsNumber ν] in
/-- The frames below a container were begun before it. -/
theorem Chain.lt {made : List (Frame ν)} {root : Option (Slot ν)} {k : ℕ} {ids : List ℕ}
    {pending : List (Pending (Json ν))}
    (h : Chain made root (some (.container k)) ids pending) : ∀ i ∈ ids, i < k := by
  generalize hinner : some (Slot.container k) = inner at h
  induction h generalizing k with
  | nil hroot => nofun
  | cons hi hlt hparts horder hrest ih =>
    subst hinner
    have hk := horder (.container k) (by simp) k rfl
    intro i' hi'
    rcases List.mem_cons.mp hi' with rfl | hi'
    · exact hk
    · exact Nat.lt_trans (ih rfl i' hi') hk

omit [JsNumber ν] in
/-- A chain stays one while its frames and the complete ones are kept. -/
theorem Chain.mono {made made' : List (Frame ν)} {root : Option (Slot ν)} {inner : Option (Slot ν)}
    {ids : List ℕ} {pending : List (Pending (Json ν))}
    (hreads : ∀ slot v, Reads made slot v → Reads made' slot v)
    (hids : ∀ (i : ℕ) (f : Frame ν), i ∈ ids → made[i]? = some f → made'[i]? = some f)
    (h : Chain made root inner ids pending) : Chain made' root inner ids pending := by
  induction h with
  | nil hroot => exact .nil hroot
  | cons hi hlt hparts horder hrest ih =>
    refine .cons (hids _ _ List.mem_cons_self hi) hlt (fun p hp => hreads _ _ (hparts p hp)) horder ?_
    exact ih fun i f hmem => hids i f (List.mem_cons_of_mem _ hmem)

omit [JsNumber ν] in
/-- The frames of a chain were made. -/
theorem Chain.lt_length {made : List (Frame ν)} {root inner : Option (Slot ν)} {ids : List ℕ}
    {pending : List (Pending (Json ν))} (h : Chain made root inner ids pending) :
    ∀ i ∈ ids, i < made.length := by
  induction h with
  | nil hroot => nofun
  | cons hi hlt hparts horder hrest ih =>
    exact List.forall_mem_cons.mpr ⟨(List.getElem?_eq_some_iff.mp hi).1, ih⟩

omit [JsNumber ν] in
/-- Without frames, what is begun is the root. -/
theorem Chain.root {made : List (Frame ν)} {root inner : Option (Slot ν)}
    {pending : List (Pending (Json ν))} (h : Chain made root inner [] pending) : root = inner := by
  cases h with
  | nil hroot => exact hroot

omit [JsNumber ν] in
/-- The innermost frame lacks children. -/
theorem Chain.top {s : Build ν} {i : ℕ} {ids : List ℕ} {pending : List (Pending (Json ν))}
    (h : Chain s.made s.root none (i :: ids) pending) : s.complete i = false := by
  cases h with
  | cons hi hlt hparts horder hrest =>
    rw [Build.complete, hi, Option.all_some, complete_fill]
    simpa using hlt

/-! ### One token -/

omit [JsNumber ν] in
/-- A value is put at the root, or becomes the next child of the innermost frame. -/
theorem chain_place {s : Build ν} {ids : List ℕ} {pending : List (Pending (Json ν))} {slot : Slot ν}
    (hspread : Spread ids s.frames) (h : Chain s.made s.root none ids pending)
    (hslot : ∀ k, slot = .container k → ∀ i ∈ ids, i < k) :
    ∃ made root, s.place slot = some { s with made := made, root := root } ∧
      Chain made root (some slot) ids pending ∧ made.length = s.made.length ∧
      (∀ (i : ℕ) (f : Frame ν), s.made[i]? = some f → f.complete = true → made[i]? = some f) ∧
      ∀ i, i ∉ ids → made[i]? = s.made[i]? := by
  have htop := hspread.head?
  cases h with
  | nil hroot =>
    have hframes : s.frames = [] := List.head?_eq_none_iff.mp htop
    refine ⟨s.made, some slot, ?_, .nil rfl, rfl, fun i f hi _ => hi, fun i _ => rfl⟩
    rw [Build.place, hframes, hroot]
    rfl
  | cons hi hlt hparts horder hrest =>
    rename_i i marker parts ids pending
    obtain ⟨frames, hframes⟩ := List.head?_eq_some_iff.mp htop
    have hlacks : s.complete i = false := Chain.top (.cons hi hlt hparts horder hrest)
    have hother : ∀ j, i ≠ j → (s.made.modify i (Frame.give slot))[j]? = s.made[j]? :=
      fun j hne => List.getElem?_modify_ne _ _ hne
    have hkept : ∀ (j : ℕ) (f : Frame ν), s.made[j]? = some f → f.complete = true →
        (s.made.modify i (Frame.give slot))[j]? = some f := by
      intro j f hj hf
      have hne : i ≠ j := by
        rintro rfl
        rw [Build.complete, hj, Option.all_some, hf] at hlacks
        cases hlacks
      rw [hother j hne, hj]
    refine ⟨s.made.modify i (Frame.give slot), s.root, ?_, ?_, List.length_modify .., hkept, ?_⟩
    · rw [Build.place, hframes]
      simp only [hlacks, Bool.false_eq_true, if_false]
    · refine .cons (?_ : _ = some (marker.fill (parts.map Prod.fst ++ (some slot).toList))) hlt ?_
        ?_ ?_
      · rw [Option.toList_none, List.append_nil] at hi
        rw [List.getElem?_modify_eq, hi, Option.map_eq_map, Option.map_some,
          give_fill (by rwa [List.length_map])]
        rfl
      · exact fun p hp => (hparts p hp).mono hkept
      · intro slot' hslot' k hk
        rcases List.mem_append.mp hslot' with hold | hnew
        · exact horder slot' (List.mem_append_left _ hold) k hk
        · obtain rfl : slot' = slot := by simpa using hnew
          exact hslot k hk i List.mem_cons_self
      · refine hrest.mono (fun slot v hv => hv.mono hkept) fun j f hj hf => ?_
        rw [hother j (Nat.ne_of_gt (hrest.lt j hj)), hf]
    · intro j hj
      exact hother j fun heq => hj (heq ▸ List.mem_cons_self)

/-- What a reader stands for: the frames that lack children, or the root. -/
def Stands (made : List (Frame ν)) (root : Option (Slot ν)) (ids : List ℕ)
    (r : Reader (Json ν)) : Prop :=
  (r.result = none ∧ Chain made root none ids r.pending) ∨
    (ids = [] ∧ r.pending = [] ∧ ∃ w top, r.result = some w ∧ root = some top ∧ Reads made top w)

omit [JsNumber ν] in
/-- A value that is complete may complete the frames that it was put into. -/
theorem stands_plug {s : Build ν} {ids : List ℕ} {pending : List (Pending (Json ν))}
    {slot : Slot ν} {v : Json ν} (h : Chain s.made s.root (some slot) ids pending)
    (hv : Reads s.made slot v) : Stands s.made s.root (ids.dropWhile s.complete) (plug v pending) := by
  generalize hinner : some slot = inner at h
  induction h generalizing slot v with
  | nil hroot => exact .inr ⟨rfl, rfl, v, slot, rfl, hroot.trans hinner.symm, hv⟩
  | cons hi hlt hparts horder hrest ih =>
    rename_i inner i marker parts ids pending
    subst hinner
    have hfill : s.made[i]? = some (marker.fill ((parts ++ [(slot, v)]).map Prod.fst)) := by
      rw [hi, List.map_append]
      rfl
    have hall : ∀ p ∈ parts ++ [(slot, v)], Reads s.made p.1 p.2 := by
      intro p hp
      rcases List.mem_append.mp hp with hp | hp
      · exact hparts p hp
      · rw [List.mem_singleton.mp hp]
        exact hv
    have hslots : parts.map Prod.fst ++ (some slot).toList = (parts ++ [(slot, v)]).map Prod.fst := by
      rw [List.map_append]
      rfl
    rw [hslots] at horder
    have hcomplete : s.complete i = decide (marker.length ≤ parts.length + 1) := by
      rw [Build.complete, hfill, Option.all_some, complete_fill, List.length_map,
        List.length_append, List.length_singleton]
    have hdone : parts.map Prod.snd ++ [v] = (parts ++ [(slot, v)]).map Prod.snd := by
      rw [List.map_append]
      rfl
    rw [plug, List.length_map, hdone]
    by_cases hmore : parts.length + 1 < marker.length
    · rw [if_pos hmore, List.dropWhile_cons_of_neg (by rw [hcomplete]; simpa using hmore)]
      refine .inl ⟨rfl, .cons ?_ (by simpa using hmore) hall ?_ hrest⟩
      · rwa [Option.toList_none, List.append_nil]
      · rwa [Option.toList_none, List.append_nil]
    · rw [if_neg hmore, List.dropWhile_cons_of_pos (by rw [hcomplete]; simpa using hmore)]
      apply ih _ rfl
      refine .container hfill ?_ ?_ hall
      · rw [List.length_append, List.length_singleton]
        omega
      · intro p hp k hk
        exact horder p.1 (List.mem_map_of_mem hp) k hk

/-- The variables of `unflatten` stand for a reader. -/
def Sim (s : Build ν) (r : Reader (Json ν)) : Prop :=
  ∃ ids, Spread ids s.frames ∧ Stands s.made s.root ids r ∧
    ∀ i, s.frame = some i → i < s.made.length ∧ (s.complete i = true ∨ ids.head? = some i)

omit [JsNumber ν] in
/-- The stack is settled behind a value that was put into its parent, when the variable `frame` is
complete or on top. -/
theorem sim_settle {s : Build ν} {ids : List ℕ} {r : Reader (Json ν)}
    (hspread : Spread ids s.frames) (hstands : Stands s.made s.root (ids.dropWhile s.complete) r)
    (hframe : ∀ i, s.frame = some i →
      i < s.made.length ∧ (s.complete i = true ∨ ids.head? = some i)) : Sim s.settle r := by
  have hsettle : Spread (ids.dropWhile s.complete)
      ((s.frame.toList ++ s.frames).dropWhile s.complete) := by
    cases hf : s.frame with
    | none => exact hspread.dropWhile s.complete
    | some i =>
      rw [Option.toList_some, List.singleton_append]
      rcases (hframe i hf).2 with hcomplete | htop
      · rw [List.dropWhile_cons_of_pos hcomplete]
        exact hspread.dropWhile s.complete
      · obtain ⟨rest, rfl⟩ := List.head?_eq_some_iff.mp htop
        exact (Spread.again hspread).dropWhile s.complete
  refine ⟨ids.dropWhile s.complete, hsettle, hstands, ?_⟩
  intro i hi
  obtain ⟨hlt, hdone⟩ := hframe i hi
  refine ⟨hlt, ?_⟩
  by_cases hcomplete : s.complete i = true
  · exact .inl hcomplete
  · obtain ⟨rest, rfl⟩ := List.head?_eq_some_iff.mp (hdone.resolve_left hcomplete)
    refine .inr ?_
    rw [List.dropWhile_cons_of_neg hcomplete]
    rfl

omit [JsNumber ν] in
/-- A value that is complete is put where the reader plugs it. -/
theorem sim_plug {s : Build ν} {ids : List ℕ} {pending : List (Pending (Json ν))} {v : Json ν}
    (hspread : Spread ids s.frames) (hchain : Chain s.made s.root none ids pending)
    (hframe : ∀ i, s.frame = some i →
      i < s.made.length ∧ (s.complete i = true ∨ ids.head? = some i)) :
    ∃ s', (s.place (.value v)).map Build.settle = some s' ∧ Sim s' (plug v pending) := by
  obtain ⟨made, root, hplace, hplaced, hlength, hkept, -⟩ :=
    chain_place hspread hchain (nofun : ∀ k, Slot.value v = .container k → _)
  refine ⟨_, by rw [hplace, Option.map_some], ?_⟩
  have hplugged := stands_plug (s := { s with made := made, root := root }) hplaced (.value v)
  apply sim_settle (s := { s with made := made, root := root }) hspread hplugged
  intro i hi
  obtain ⟨hlt, hdone⟩ := hframe i hi
  refine ⟨hlength ▸ hlt, hdone.imp_left fun hcomplete => ?_⟩
  rw [Build.complete, List.getElem?_eq_getElem hlt, Option.all_some] at hcomplete
  rw [Build.complete, hkept i _ (List.getElem?_eq_getElem hlt) hcomplete, Option.all_some]
  exact hcomplete

omit [JsNumber ν] in
/-- A container that is not empty is put where the reader has one more pending node. -/
theorem sim_begin {s : Build ν} {ids : List ℕ} {pending : List (Pending (Json ν))}
    {marker : Marker} (hmarker : 0 < marker.length) (hspread : Spread ids s.frames)
    (hchain : Chain s.made s.root none ids pending) :
    ∃ s', (Build.place { s with made := s.made ++ [marker.frame], frame := some s.made.length }
        (.container s.made.length)).map Build.settle = some s' ∧
      Sim s' ⟨⟨marker.length, marker.build, []⟩ :: pending, none⟩ := by
  have hkeep : ∀ (i : ℕ) (f : Frame ν), s.made[i]? = some f →
      (s.made ++ [marker.frame])[i]? = some f := by
    intro i f hi
    rw [List.getElem?_append_left (List.getElem?_eq_some_iff.mp hi).1, hi]
  have hgrown : Chain (s.made ++ [marker.frame]) s.root none ids pending :=
    hchain.mono (fun slot v hv => hv.mono fun i f hi _ => hkeep i f hi) fun i f _ hi => hkeep i f hi
  have hbelow := hchain.lt_length
  have hnew : s.made.length ∉ ids := fun hmem => Nat.lt_irrefl _ (hbelow _ hmem)
  have hslot : ∀ k, (.container s.made.length : Slot ν) = .container k → ∀ i ∈ ids, i < k := by
    intro k hk i hi
    obtain rfl := Slot.container.inj hk
    exact hbelow i hi
  obtain ⟨made, root, hplace, hplaced, hlength, -, hother⟩ := chain_place
    (s := { s with made := s.made ++ [marker.frame], frame := some s.made.length })
    hspread hgrown hslot
  have hlast : made[s.made.length]? = some marker.frame := by
    rw [hother _ hnew, List.getElem?_concat_length]
  have hlacks : Build.complete
      { s with made := made, root := root, frame := some s.made.length } s.made.length = false := by
    rw [Build.complete, hlast, Option.all_some, ← fill_nil, complete_fill]
    simpa using Nat.ne_of_gt hmarker
  refine ⟨_, by rw [hplace, Option.map_some], s.made.length :: ids, ?_, .inl ⟨rfl, ?_⟩, ?_⟩
  · rw [Build.settle, Option.toList_some, List.singleton_append]
    simp only
    rw [List.dropWhile_cons_of_neg (by rw [hlacks]; exact Bool.false_ne_true)]
    exact .one hspread
  · have hfill : made[s.made.length]? =
        some (marker.fill (([] : List (Slot ν × Json ν)).map Prod.fst ++ none.toList)) := by
      rw [List.map_nil, Option.toList_none, List.append_nil, fill_nil]
      exact hlast
    exact .cons hfill hmarker nofun nofun hplaced
  · intro i hi
    obtain rfl := Option.some.inj hi
    refine ⟨?_, .inr rfl⟩
    exact (List.getElem?_eq_some_iff.mp hlast).1

/-- What a token is worth: what it stands for, and the value and the frame that it leads to. -/
theorem value_cases (s : Build ν) (token : Json ν) (remaining : ℕ) :
    (shape token = none ∧ s.value token remaining = none) ∨
    (∃ v, shape token = some (.leaf v) ∧ s.value token remaining = some (.value v, s)) ∨
    (∃ marker : Marker, shape token = some (.node marker.length marker.build) ∧
      marker.length = 0 ∧ s.value token remaining = some (.value (marker.build []), s)) ∨
    (∃ marker : Marker, shape token = some (.node marker.length marker.build) ∧
      0 < marker.length ∧ s.value token remaining = some (.container s.made.length,
        { s with made := s.made ++ [marker.frame], frame := some s.made.length })) ∨
    (∃ marker : Marker, shape token = some (.node marker.length marker.build) ∧
      remaining < marker.length ∧ s.value token remaining = none) := by
  cases token with
  | null => exact .inr (.inl ⟨_, rfl, rfl⟩)
  | bool b => exact .inr (.inl ⟨_, rfl, rfl⟩)
  | str t => exact .inr (.inl ⟨_, rfl, rfl⟩)
  | num x =>
    by_cases hx : JsNumber.isFinite x = false ∨ JsNumber.isNegativeZero x = true
    · refine .inl ⟨?_, ?_⟩
      · rw [shape, if_pos hx]
      · rw [Build.value, if_pos hx]
    · refine .inr (.inl ⟨.num x, ?_, ?_⟩)
      · rw [shape, if_neg hx]
      · rw [Build.value, if_neg hx]
  | arr items => exact .inl ⟨rfl, rfl⟩
  | obj members =>
    have hshape : shape (.obj members) = (containerMarker (.obj members)).map
        fun marker => .node marker.length marker.build := rfl
    rw [hshape]
    simp only [Build.value]
    cases hmarker : containerMarker (.obj members) with
    | none => exact .inl ⟨rfl, rfl⟩
    | some marker =>
      rw [Option.map_some, Option.bind_some]
      by_cases hfits : remaining < marker.length
      · exact .inr (.inr (.inr (.inr ⟨marker, rfl, hfits, if_pos hfits⟩)))
      · rw [if_neg hfits]
        by_cases hpos : 0 < marker.length
        · exact .inr (.inr (.inr (.inl ⟨marker, rfl, hpos, if_pos hpos⟩)))
        · rw [if_neg hpos]
          refine .inr (.inr (.inl ⟨marker, rfl, by omega, ?_⟩))
          cases marker with
          | array length => rfl
          | object keys =>
            rw [Marker.build, List.zip_nil_right]
            rfl

/-- Nothing is read behind a root that is complete. -/
theorem step_complete {s : Build ν} (hframes : s.frames = []) (hroot : s.root.isSome = true)
    (token : Json ν) (remaining : ℕ) : s.step token remaining = none := by
  have hplace : ∀ (made : List (Frame ν)) (frame : Option ℕ) (slot : Slot ν),
      Build.place { s with made := made, frame := frame } slot = none := by
    intro made frame slot
    rw [Build.place, hframes]
    exact if_pos hroot
  rw [Build.step]
  rcases value_cases s token remaining with ⟨-, hvalue⟩ | ⟨v, -, hvalue⟩ | ⟨marker, -, -, hvalue⟩ |
    ⟨marker, -, -, hvalue⟩ | ⟨marker, -, -, hvalue⟩
  · rw [hvalue, Option.bind_none]
  · rw [hvalue, Option.bind_some, hplace s.made s.frame, Option.map_none]
  · rw [hvalue, Option.bind_some, hplace s.made s.frame, Option.map_none]
  · rw [hvalue, Option.bind_some, hplace, Option.map_none]
  · rw [hvalue, Option.bind_none]

/-- One token is read as the reader reads it, or there are too few tokens for its children. -/
theorem sim_step {s : Build ν} {r : Reader (Json ν)} (h : Sim s r) (token : Json ν)
    (remaining : ℕ) :
    (s.step token remaining = none ∧ (feed shape r token = none ∨
      ∃ r', feed shape r token = some r' ∧ remaining < missing r')) ∨
    ∃ s' r', s.step token remaining = some s' ∧ feed shape r token = some r' ∧ Sim s' r' := by
  obtain ⟨ids, hspread, hstands, hframe⟩ := h
  rcases hstands with ⟨hresult, hchain⟩ | ⟨rfl, -, w, top, hresult, hroot, -⟩
  · rw [Build.step, feed, hresult]
    simp only [Option.isSome_none, Bool.false_eq_true, if_false]
    rcases value_cases s token remaining with ⟨hshape, hvalue⟩ | ⟨v, hshape, hvalue⟩ |
      ⟨marker, hshape, hzero, hvalue⟩ | ⟨marker, hshape, hpos, hvalue⟩ |
      ⟨marker, hshape, hfew, hvalue⟩
    · rw [hvalue, hshape]
      exact .inl ⟨rfl, .inl rfl⟩
    · rw [hvalue, hshape, Option.bind_some]
      obtain ⟨s', hs', hsim⟩ := sim_plug (v := v) hspread hchain hframe
      exact .inr ⟨s', _, hs', rfl, hsim⟩
    · rw [hvalue, hshape, Option.bind_some]
      obtain ⟨s', hs', hsim⟩ := sim_plug (v := marker.build []) hspread hchain hframe
      exact .inr ⟨s', _, hs', by simp only [hzero, if_true], hsim⟩
    · rw [hvalue, hshape, Option.bind_some]
      obtain ⟨s', hs', hsim⟩ := sim_begin hpos hspread hchain
      exact .inr ⟨s', _, hs', by simp only [Nat.ne_of_gt hpos, if_false], hsim⟩
    · rw [hvalue, hshape]
      refine .inl ⟨rfl, .inr ⟨⟨⟨marker.length, marker.build, []⟩ :: r.pending, none⟩, ?_, ?_⟩⟩
      · simp only
        rw [if_neg (by omega)]
      · simp [missing, lacking]
        omega
  · have hframes : s.frames = [] := List.head?_eq_none_iff.mp hspread.head?
    refine .inl ⟨step_complete hframes (by rw [hroot]; rfl) token remaining, .inl ?_⟩
    rw [feed, hresult]
    rfl

/-! ### All tokens -/

/-- What is read is what the reader reads. -/
theorem sim_loop {s s' : Build ν} {r : Reader (Json ν)} {input : List (Json ν)} (h : Sim s r)
    (hs' : s.loop input = some s') : ∃ r', feedAll shape r input = some r' ∧ Sim s' r' := by
  induction input generalizing s r with
  | nil =>
    obtain rfl := Option.some.inj hs'
    exact ⟨r, rfl, h⟩
  | cons token input ih =>
    obtain ⟨s₁, hs₁, hrest⟩ := Option.bind_eq_some_iff.mp hs'
    rcases sim_step h token input.length with ⟨hnone, -⟩ | ⟨s₂, r₂, hs₂, hr₂, hsim⟩
    · rw [hnone] at hs₁
      cases hs₁
    · obtain rfl := Option.some.inj (hs₂.symm.trans hs₁)
      rw [feedAll, hr₂, Option.bind_some]
      exact ih hsim hrest

/-- What the reader reads to the end is read. -/
theorem loop_of_feedAll {s : Build ν} {r : Reader (Json ν)} {input : List (Json ν)} {w : Json ν}
    (h : Sim s r) (hlacks : Lacks r) (hr : feedAll shape r input = some ⟨[], some w⟩) :
    ∃ s', s.loop input = some s' ∧ Sim s' ⟨[], some w⟩ := by
  induction input generalizing s r with
  | nil =>
    obtain rfl := Option.some.inj hr
    exact ⟨s, rfl, h⟩
  | cons token input ih =>
    obtain ⟨r₁, hr₁, hrest⟩ := Option.bind_eq_some_iff.mp hr
    obtain ⟨-, hlacks₁⟩ := missing_feed hlacks hr₁
    rcases sim_step h token input.length with ⟨-, hnone | ⟨r₂, hr₂, hfew⟩⟩ |
      ⟨s₂, r₂, hs₂, hr₂, hsim⟩
    · rw [hnone] at hr₁
      cases hr₁
    · obtain rfl := Option.some.inj (hr₂.symm.trans hr₁)
      exact absurd (missing_le hlacks₁ hrest) (Nat.not_le_of_gt hfew)
    · obtain rfl := Option.some.inj (hr₂.symm.trans hr₁)
      rw [Build.loop, hs₂, Option.bind_some]
      exact ih hsim hlacks₁ hrest

omit [JsNumber ν] in
/-- Nothing was read. -/
theorem sim_start : Sim (⟨[], [], none, none⟩ : Build ν) .start :=
  ⟨[], .nil, .inl ⟨rfl, .nil rfl⟩, nofun⟩

/-- Tokens are unflattened to a value exactly when they are an encoding of it. -/
theorem unflatten_arr_iff {input : List (Json ν)} {w : Json ν} :
    unflatten (.arr input) = some w ↔ Encoding w input := by
  rw [encoding_iff, ← feedAll_eq_iff]
  constructor
  · intro h
    obtain ⟨s, hs, h⟩ := Option.bind_eq_some_iff.mp h
    split at h
    · rename_i hframes
      obtain ⟨top, htop, h⟩ := Option.bind_eq_some_iff.mp h
      obtain ⟨r, hr, ids, hspread, hstands, -⟩ := sim_loop sim_start hs
      have hids : ids = [] := List.head?_eq_none_iff.mp (by rw [← hspread.head?, hframes]; rfl)
      subst hids
      rcases hstands with ⟨-, hchain⟩ | ⟨-, hpending, v, slot, hv, hslot, hreads⟩
      · rw [hchain.root] at htop
        cases htop
      · obtain rfl := Option.some.inj (hslot.symm.trans htop)
        have hresult := hreads.result s.made.length fun i _ => by omega
        obtain rfl := Option.some.inj (hresult.symm.trans h)
        rw [hr, ← hv, ← hpending]
    · cases h
  · intro h
    obtain ⟨s, hs, ids, hspread, hstands, -⟩ := loop_of_feedAll sim_start nofun h
    rcases hstands with ⟨hnone, -⟩ | ⟨rfl, -, v, slot, hv, hslot, hreads⟩
    · cases hnone
    · obtain rfl := Option.some.inj hv
      have hframes : s.frames = [] := List.head?_eq_none_iff.mp hspread.head?
      have hresult := hreads.result s.made.length fun i _ => by omega
      rw [unflatten, hs, Option.bind_some, if_pos hframes, hslot, Option.bind_some, hresult]

/-- What is unflattened to a value is an encoding of it. -/
theorem unflatten_iff {input w : Json ν} :
    unflatten input = some w ↔ ∃ ts, input = .arr ts ∧ Encoding w ts := by
  cases input with
  | arr ts =>
    rw [unflatten_arr_iff]
    simp
  | _ => simp [unflatten]

end RemoteWorkspace.Model.PtcCodec
