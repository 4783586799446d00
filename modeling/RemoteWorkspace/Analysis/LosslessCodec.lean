import RemoteWorkspace.Analysis.PtcFlatten
import RemoteWorkspace.Analysis.PtcUnflatten
import RemoteWorkspace.Computation.WholeNumbers

/-!
# The codec loses nothing

What a lossless value is flattened to is written as JSON text, read back from it and unflattened:
the result is the JSON value that it is. Other values are not flattened, and nothing but the
encoding of a value is unflattened.
-/

set_option autoImplicit false

namespace RemoteWorkspace.Model.PtcCodec

open RemoteWorkspace.Computation
open RemoteWorkspace.Computation.Json

variable {ν : Type} [JsNumber ν] {n : ℕ} {heap : Heap ν n}

/-! ### Markers of objects of the heap -/

omit [JsNumber ν] in
/-- The length of an array is a safe integer. -/
theorem length_parts_lt {a : ArrayObject ν n} {parts : List (Value ν n × Json ν)}
    (h : a.slots = parts.map fun p => some p.1) : parts.length < 1 <<< 53 := by
  have hlt := a.length_lt
  rw [h, List.length_map] at hlt
  exact Nat.lt_trans hlt (by decide)

omit [JsNumber ν] in
/-- The keys of an object are in the order of their enumeration. -/
theorem inOrder_parts {p : OtherObject ν n} {parts : List ((Text × Value ν n) × Json ν)}
    (h : p.properties = parts.map fun q => ⟨.str q.1.1, q.1.2, true⟩) :
    InOrder ((parts.map fun q => (q.1.1, q.2)).map Prod.fst) := by
  have horder := p.inOrder
  have hkeys : ((fun q : Property ν n => q.key.text) ∘ fun q : (Text × Value ν n) × Json ν =>
      (⟨.str q.1.1, q.1.2, true⟩ : Property ν n)) = fun q => some q.1.1 := rfl
  rw [h, List.filterMap_map, hkeys, List.filterMap_eq_map'] at horder
  rw [List.map_map]
  exact horder

/-- An array's marker is one. -/
theorem marks_arrayMarker {length : ℕ} (h : length < 1 <<< 53) :
    Marks (arrayMarker length : Json ν) (.array length) :=
  .array (JsNumber.toNat_ofNat length h) (.refl _)

/-- An object's marker is one. -/
theorem marks_objectMarker {keys : List Text} (h : InOrder keys) :
    Marks (objectMarker keys : Json ν) (.object keys) :=
  .object (h.imp fun h => h.1) (.refl _)

/-- An array's marker is read back from its text. -/
theorem tidy_arrayMarker {length : ℕ} (h : length < 1 <<< 53) :
    Tidy (arrayMarker length : Json ν) := by
  have horder : InOrder [kindKey, lengthKey] := by decide
  refine .obj horder ?_
  intro m hm
  rcases List.mem_cons.mp hm with rfl | hm
  · exact .str _
  · obtain rfl := List.mem_singleton.mp hm
    exact .num (JsNumber.isFinite_ofNat length h) (JsNumber.isNegativeZero_ofNat length h)

/-- An object's marker is read back from its text. -/
theorem tidy_objectMarker (keys : List Text) : Tidy (objectMarker keys : Json ν) := by
  have horder : InOrder [kindKey, keysKey] := by decide
  refine .obj horder ?_
  intro m hm
  rcases List.mem_cons.mp hm with rfl | hm
  · exact .str _
  · obtain rfl := List.mem_singleton.mp hm
    refine .arr fun key hkey => ?_
    obtain ⟨s, -, rfl⟩ := List.mem_map.mp hkey
    exact .str s

/-! ### Tokens of a lossless value -/

/-- The tokens of a lossless value are an encoding of it. -/
theorem encoding_tokens {v : Value ν n} {j : Json ν} (h : Lossless heap v j) :
    Encoding j (tokens j) := by
  induction h with
  | null => rw [tokens]; exact .null
  | bool b => rw [tokens]; exact .bool b
  | num hfinite hzero => rw [tokens]; exact .num hfinite hzero
  | str s => rw [tokens]; exact .str s
  | array ho hproto hslots hothers hparts ih =>
    rename_i o a parts
    have hmarks := marks_arrayMarker (ν := ν) (length_parts_lt hslots)
    have hlength : (parts.map fun p => (p.2, tokens p.2)).length =
        (Marker.array parts.length).length := List.length_map _
    have hcontainer := Encoding.container hmarks hlength ?_
    · rw [List.map_map, List.map_map] at hcontainer
      rw [tokens, tokensItems_eq, List.map_map, List.length_map]
      exact hcontainer
    · intro q hq
      obtain ⟨p, hp, rfl⟩ := List.mem_map.mp hq
      exact ih p hp
  | object ho hproto hproperties hparts ih =>
    rename_i o p parts
    have horder := inOrder_parts hproperties
    have hmarks := marks_objectMarker (ν := ν) horder
    have hlength : (parts.map fun q => (q.2, tokens q.2)).length =
        (Marker.object ((parts.map fun q => (q.1.1, q.2)).map Prod.fst)).length := by
      rw [Marker.length, List.length_map, List.length_map, List.length_map]
    have hcontainer := Encoding.container hmarks hlength ?_
    · have hbuild : Marker.build (.object ((parts.map fun q => (q.1.1, q.2)).map Prod.fst))
          (parts.map Prod.snd) = .obj (parts.map fun q => (q.1.1, q.2)) := by
        have hzip : ((parts.map fun q => (q.1.1, q.2)).map Prod.fst).zip (parts.map Prod.snd) =
            parts.map fun q => (q.1.1, q.2) := by
          rw [List.map_map, List.zip_map']
          rfl
        rw [Marker.build, hzip, defineAll_of_inOrder [] _ horder, List.nil_append]
      have hfst : (parts.map fun q => (q.2, tokens q.2)).map Prod.fst = parts.map Prod.snd := by
        rw [List.map_map]
        rfl
      have hsnd : (parts.map fun q => (q.2, tokens q.2)).map Prod.snd =
          (parts.map fun q => (q.1.1, q.2)).map fun m => tokens m.2 := by
        rw [List.map_map, List.map_map]
        rfl
      rw [hfst, hsnd, hbuild] at hcontainer
      rw [tokens, tokensMembers_eq]
      exact hcontainer
    · intro m hm
      obtain ⟨q, hq, rfl⟩ := List.mem_map.mp hm
      exact ih q hq

/-- The tokens of a lossless value are read back from their text. -/
theorem tidy_tokens {v : Value ν n} {j : Json ν} (h : Lossless heap v j) :
    ∀ t ∈ tokens j, Tidy t := by
  induction h with
  | null =>
    rw [tokens]
    exact List.forall_mem_singleton.mpr .null
  | bool b =>
    rw [tokens]
    exact List.forall_mem_singleton.mpr (.bool b)
  | num hfinite hzero =>
    rw [tokens]
    exact List.forall_mem_singleton.mpr (.num hfinite hzero)
  | str s =>
    rw [tokens]
    exact List.forall_mem_singleton.mpr (.str s)
  | array ho hproto hslots hothers hparts ih =>
    rw [tokens, tokensItems_eq, List.map_map, List.length_map]
    refine List.forall_mem_cons.mpr ⟨tidy_arrayMarker (length_parts_lt hslots), ?_⟩
    intro t ht
    obtain ⟨ts, hts, ht⟩ := List.mem_flatten.mp ht
    obtain ⟨p, hp, rfl⟩ := List.mem_map.mp hts
    exact ih p hp t ht
  | object ho hproto hproperties hparts ih =>
    rw [tokens, tokensMembers_eq]
    refine List.forall_mem_cons.mpr ⟨tidy_objectMarker _, ?_⟩
    intro t ht
    obtain ⟨ts, hts, ht⟩ := List.mem_flatten.mp ht
    obtain ⟨m, hm, rfl⟩ := List.mem_map.mp hts
    obtain ⟨q, hq, rfl⟩ := List.mem_map.mp hm
    exact ih q hq t ht

/-- The JSON value of a lossless value is read back from its text. -/
theorem tidy_of_lossless {v : Value ν n} {j : Json ν} (h : Lossless heap v j) : Tidy j := by
  induction h with
  | null => exact .null
  | bool b => exact .bool b
  | num hfinite hzero => exact .num hfinite hzero
  | str s => exact .str s
  | array ho hproto hslots hothers hparts ih =>
    apply Tidy.arr
    intro v hv
    obtain ⟨p, hp, rfl⟩ := List.mem_map.mp hv
    exact ih p hp
  | object ho hproto hproperties hparts ih =>
    apply Tidy.obj (inOrder_parts hproperties)
    intro m hm
    obtain ⟨q, hq, rfl⟩ := List.mem_map.mp hm
    exact ih q hq

/-- A lossless value crosses the channel as the JSON value that it is, every other value is
flattened to `undefined`, and what is unflattened is exactly the encoding of a value. -/
theorem codec_exact {n : ℕ} (heap : Heap ν n) (v : Value ν n) :
    (∀ r r', Flatten heap v r → Flatten heap v r' → r = r') ∧
    (∀ j, Lossless heap v j → ∃ wire, Flatten heap v (some wire) ∧
      (parse (stringify (.arr wire))).bind unflatten = some j) ∧
    ((¬ ∃ j, Lossless heap v j) → Flatten heap v none) ∧
    ∀ (input w : Json ν), unflatten input = some w ↔ ∃ ts, input = .arr ts ∧ Encoding w ts := by
  refine ⟨fun _ _ => Ends.unique, ?_, flatten_of_not_lossless, fun _ _ => unflatten_iff⟩
  intro j hj
  refine ⟨tokens j, flatten_of_lossless hj, ?_⟩
  rw [parse_stringify (.arr (tidy_tokens hj)), Option.bind_some]
  exact unflatten_arr_iff.mpr (encoding_tokens hj)

/-- An array that holds one object twice; the object has a member `__proto__` and a string that is
a lone surrogate. -/
def sharedHeap : Heap WholeNumber 2 := fun o =>
  if o = 0 then .array ⟨.array, [some (.ref 1), some (.ref 1)], 0, by decide⟩
  else
    .other ⟨.object, [⟨.str (ascii "__proto__"), .num (.whole 1), true⟩,
      ⟨.str (ascii "a"), .str [0xD800], true⟩], by decide⟩

/-- The object that is held twice. -/
def sharedObject : Json WholeNumber :=
  .obj [(ascii "__proto__", .num (.whole 1)), (ascii "a", .str [0xD800])]

/-- The array is lossless. -/
theorem lossless_shared : Lossless sharedHeap (.ref 0) (.arr [sharedObject, sharedObject]) := by
  have hobject : Lossless sharedHeap (.ref 1) sharedObject := by
    have hone : JsNumber.isFinite (WholeNumber.whole 1) = true ∧
        JsNumber.isNegativeZero (WholeNumber.whole 1) = false := by decide
    refine @Lossless.object _ _ _ sharedHeap 1 _
      [((ascii "__proto__", .num (.whole 1)), .num (.whole 1)),
        ((ascii "a", .str [0xD800]), .str [0xD800])] rfl (.inr rfl) rfl ?_
    intro q hq
    rcases List.mem_cons.mp hq with rfl | hq
    · exact .num hone.1 hone.2
    · obtain rfl := List.mem_singleton.mp hq
      exact .str _
  refine @Lossless.array _ _ _ sharedHeap 0 _ [(.ref 1, sharedObject), (.ref 1, sharedObject)]
    rfl rfl rfl rfl ?_
  intro p hp
  rcases List.mem_cons.mp hp with rfl | hp
  · exact hobject
  · obtain rfl := List.mem_singleton.mp hp
    exact hobject

/-- The array crosses the channel. -/
theorem codec_exact_shared : ∃ wire, Flatten sharedHeap (.ref 0) (some wire) ∧
    (parse (stringify (.arr wire))).bind unflatten =
      some (.arr [sharedObject, sharedObject]) :=
  (codec_exact sharedHeap (.ref 0)).2.1 _ lossless_shared

end RemoteWorkspace.Model.PtcCodec
