import Mathlib.Data.Finset.Card
import Mathlib.Data.Fintype.Basic
import Mathlib.Data.Fintype.Card
import RemoteWorkspace.Computation.Fallible
import RemoteWorkspace.Model.PtcCodec

/-!
# What a value is flattened to

A value is lossless when it unfolds to a finite JSON value; a value that holds itself does not.
`flatten` returns the tokens of that JSON value, in pre-order, and `undefined` for every value
that is not lossless.

The walk of a value either passes it, having put its tokens on the wire and left the stack below
it alone, or ends with `undefined`. That it ends at all is an induction on the objects that are
not being visited; that it passes a lossless value is one on its JSON value, since the objects
that are being visited are larger.
-/

set_option autoImplicit false

namespace RemoteWorkspace.Model.PtcCodec

open RemoteWorkspace.Computation
open RemoteWorkspace.Computation.Json

variable {ν : Type} [JsNumber ν] {n : ℕ} {heap : Heap ν n}

/-! ### Lossless values -/

/-- The JSON value that a lossless value is: a scalar, a dense plain array or a plain object with
enumerable string keys, of lossless values. -/
inductive Lossless (heap : Heap ν n) : Value ν n → Json ν → Prop
  | null : Lossless heap .null .null
  | bool (b : Bool) : Lossless heap (.bool b) (.bool b)
  | num {x : ν} : JsNumber.isFinite x = true → JsNumber.isNegativeZero x = false →
    Lossless heap (.num x) (.num x)
  | str (s : Text) : Lossless heap (.str s) (.str s)
  | array {o : Fin n} {a : ArrayObject ν n} {parts : List (Value ν n × Json ν)} :
    heap o = .array a → a.prototype = .array → a.slots = parts.map (fun p => some p.1) →
    a.others = 0 → (∀ p ∈ parts, Lossless heap p.1 p.2) →
    Lossless heap (.ref o) (.arr (parts.map Prod.snd))
  | object {o : Fin n} {p : OtherObject ν n} {parts : List ((Text × Value ν n) × Json ν)} :
    heap o = .other p → p.prototype = .null ∨ p.prototype = .object →
    p.properties = parts.map (fun q => ⟨.str q.1.1, q.1.2, true⟩) →
    (∀ q ∈ parts, Lossless heap q.1.2 q.2) →
    Lossless heap (.ref o) (.obj (parts.map fun q => (q.1.1, q.2)))

/-- What is determined by a key agrees on lists whose keys agree. -/
theorem map_eq_of_key {α κ β : Type} (key : α → κ) (f : α → β) {parts parts' : List α}
    (hkeys : parts.map key = parts'.map key)
    (h : ∀ p ∈ parts, ∀ p' ∈ parts', key p = key p' → f p = f p') :
    parts.map f = parts'.map f := by
  induction parts generalizing parts' with
  | nil =>
    rw [List.map_eq_nil_iff.mp hkeys.symm]
  | cons p parts ih =>
    cases parts' with
    | nil => simp at hkeys
    | cons p' parts' =>
      obtain ⟨hhead, htail⟩ := List.cons.inj hkeys
      have hfirst := h p List.mem_cons_self p' List.mem_cons_self hhead
      have hrest := ih htail fun q hq q' hq' =>
        h q (List.mem_cons_of_mem p hq) q' (List.mem_cons_of_mem p' hq')
      rw [List.map_cons, List.map_cons, hfirst, hrest]

/-- A value unfolds to one JSON value at most. -/
theorem Lossless.unique {v : Value ν n} {j j' : Json ν} (h : Lossless heap v j)
    (h' : Lossless heap v j') : j = j' := by
  induction h generalizing j' with
  | null => cases h'; rfl
  | bool b => cases h'; rfl
  | num hfinite hzero => cases h'; rfl
  | str s => cases h'; rfl
  | array ho hproto hslots hothers hparts ih =>
    cases h' with
    | array ho' hproto' hslots' hothers' hparts' =>
      obtain rfl := Object.array.inj (ho.symm.trans ho')
      apply congrArg Json.arr
      apply map_eq_of_key _ _ (hslots.symm.trans hslots')
      intro p hp p' hp' hkey
      apply ih p hp
      rw [Option.some.inj hkey]
      exact hparts' p' hp'
    | object ho' => exact absurd (ho.symm.trans ho') (by simp)
  | object ho hproto hproperties hparts ih =>
    cases h' with
    | array ho' => exact absurd (ho.symm.trans ho') (by simp)
    | object ho' hproto' hproperties' hparts' =>
      obtain rfl := Object.other.inj (ho.symm.trans ho')
      apply congrArg Json.obj
      apply map_eq_of_key _ _ (hproperties.symm.trans hproperties')
      intro q hq q' hq' hkey
      simp only [Property.mk.injEq, Key.str.injEq, and_true] at hkey
      have hvalue : q.2 = q'.2 := by
        apply ih q hq
        rw [hkey.2]
        exact hparts' q' hq'
      rw [hkey.1, hvalue]

/-! ### Tokens -/

mutual

/-- The tokens of a JSON value, in pre-order. -/
def tokens : Json ν → List (Json ν)
  | .null => [.null]
  | .bool b => [.bool b]
  | .num x => [.num x]
  | .str s => [.str s]
  | .arr items => arrayMarker items.length :: tokensItems items
  | .obj members => objectMarker (members.map Prod.fst) :: tokensMembers members

/-- The tokens of the items of an array. -/
def tokensItems : List (Json ν) → List (Json ν)
  | [] => []
  | v :: items => tokens v ++ tokensItems items

/-- The tokens of the members of an object. -/
def tokensMembers : List (Text × Json ν) → List (Json ν)
  | [] => []
  | (_, v) :: members => tokens v ++ tokensMembers members

end

/-- The tokens of the items are those of each in turn. -/
theorem tokensItems_eq (items : List (Json ν)) : tokensItems items = (items.map tokens).flatten := by
  induction items with
  | nil => rw [tokensItems, List.map_nil, List.flatten_nil]
  | cons v items ih => rw [tokensItems, ih, List.map_cons, List.flatten_cons]

/-- The tokens of the members are those of each in turn. -/
theorem tokensMembers_eq (members : List (Text × Json ν)) :
    tokensMembers members = (members.map fun m => tokens m.2).flatten := by
  induction members with
  | nil => rw [tokensMembers, List.map_nil, List.flatten_nil]
  | cons m members ih => rw [tokensMembers, ih, List.map_cons, List.flatten_cons]

/-! ### Opening an object -/

/-- The marker and the children of an object, when `flatten` does not reject it on sight. -/
def opened (heap : Heap ν n) (o : Fin n) : Option (Json ν × List (Value ν n)) :=
  match heap o with
  | .array a =>
    if a.prototype ≠ .array then none
    else if a.ownKeys ≠ a.slots.length + 1 then none
    else (a.slots.mapM id).map fun values => (arrayMarker a.slots.length, values)
  | .other p =>
    if p.prototype ≠ .null ∧ p.prototype ≠ .object then none
    else
      (p.properties.mapM Property.text).map fun keys =>
        (objectMarker keys, p.properties.map Property.value)

/-- An object is opened, unless it is being visited. -/
theorem step_ref (s : Walk ν n) (o : Fin n) :
    Walk.step heap s (.value (.ref o)) =
      if o ∈ s.active then none else (opened heap o).map fun c => s.enter o c.1 c.2 := by
  simp only [Walk.step, opened]
  split
  · rfl
  · cases heap o with
    | array a =>
      simp only
      split
      · rfl
      · split
        · rfl
        · rw [Option.map_map]
          rfl
    | other p =>
      simp only
      split
      · rfl
      · rw [Option.map_map]
        rfl

/-- An array that is opened is plain and dense. -/
theorem opened_array {o : Fin n} {a : ArrayObject ν n} (ho : heap o = .array a) {marker : Json ν}
    {children : List (Value ν n)} : opened heap o = some (marker, children) ↔
      a.prototype = .array ∧ a.others = 0 ∧ a.slots = children.map some ∧
        marker = arrayMarker children.length := by
  rw [opened, ho]
  simp only
  split
  · rename_i hproto
    simp [hproto]
  · rename_i hproto
    have hproto := not_not.mp hproto
    have hkeys : a.slots = children.map some →
        (a.ownKeys = a.slots.length + 1 ↔ a.others = 0) := by
      intro h
      have hall : ∀ slot ∈ a.slots, slot.isSome = true := by
        rw [h]
        simp
      rw [ArrayObject.ownKeys, List.filter_eq_self.mpr hall]
      omega
    split
    · rename_i hown
      simp only [reduceCtorEq, false_iff]
      rintro ⟨-, hothers, hslots, -⟩
      exact hown ((hkeys hslots).mpr hothers)
    · rename_i hown
      have hown := not_not.mp hown
      rw [Option.map_eq_some_iff]
      constructor
      · rintro ⟨values, hvalues, heq⟩
        obtain ⟨rfl, rfl⟩ := Prod.mk.inj heq
        have hslots : a.slots = values.map some := by
          simpa using mapM_eq_some_iff.mp hvalues
        exact ⟨hproto, (hkeys hslots).mp hown, hslots, by rw [hslots, List.length_map]⟩
      · rintro ⟨-, -, hslots, rfl⟩
        refine ⟨children, mapM_eq_some_iff.mpr (by simpa using hslots), ?_⟩
        rw [hslots, List.length_map]

omit [JsNumber ν] in
/-- An enumerable property with a string key. -/
theorem Property.eq_of_text {p : Property ν n} {s : Text} (h : p.text = some s) :
    p = ⟨.str s, p.value, true⟩ := by
  obtain ⟨key, value, enumerable⟩ := p
  cases key with
  | str t =>
    cases enumerable with
    | true =>
      obtain rfl := Option.some.inj h
      rfl
    | false => cases h
  | symbol =>
    cases enumerable with
    | true => cases h
    | false => cases h

/-- Another object that is opened is plain, with enumerable string keys. -/
theorem opened_other {o : Fin n} {p : OtherObject ν n} (ho : heap o = .other p) {marker : Json ν}
    {children : List (Value ν n)} : opened heap o = some (marker, children) ↔
      (p.prototype = .null ∨ p.prototype = .object) ∧
        ∃ members : List (Text × Value ν n),
          p.properties = members.map (fun m => ⟨.str m.1, m.2, true⟩) ∧
          marker = objectMarker (members.map Prod.fst) ∧ children = members.map Prod.snd := by
  rw [opened, ho]
  simp only
  split
  · rename_i hproto
    simp only [reduceCtorEq, false_iff]
    rintro ⟨h, -⟩
    rcases h with h | h
    · exact hproto.1 h
    · exact hproto.2 h
  · rename_i hproto
    have hproto : p.prototype = .null ∨ p.prototype = .object := by
      rwa [not_and_or, not_not, not_not] at hproto
    rw [Option.map_eq_some_iff]
    constructor
    · rintro ⟨keys, hkeys, heq⟩
      obtain ⟨rfl, rfl⟩ := Prod.mk.inj heq
      have hkeys := mapM_eq_some_iff.mp hkeys
      have htext : ∀ q ∈ p.properties, q = ⟨.str (q.text.getD []), q.value, true⟩ := by
        intro q hq
        obtain ⟨s, -, hs⟩ := List.mem_map.mp (hkeys ▸ List.mem_map_of_mem hq)
        rw [← hs, Option.getD_some]
        exact Property.eq_of_text hs.symm
      have hnames : keys = p.properties.map fun q => q.text.getD [] := by
        have hget := congrArg (List.map fun key => Option.getD key []) hkeys
        simpa [Function.comp_def] using hget.symm
      refine ⟨hproto, p.properties.map fun q => (q.text.getD [], q.value), ?_, ?_, ?_⟩
      · rw [List.map_map]
        exact (List.map_id _).symm.trans (List.map_congr_left htext)
      · rw [hnames, List.map_map]
        rfl
      · rw [List.map_map]
        rfl
    · rintro ⟨-, members, hmembers, rfl, rfl⟩
      refine ⟨members.map Prod.fst, mapM_eq_some_iff.mpr ?_, ?_⟩
      · rw [hmembers, List.map_map, List.map_map]
        rfl
      · rw [hmembers, List.map_map]
        rfl

/-- Lists of pairs that share a component are the two sides of one list. -/
theorem exists_joined {α β γ : Type} {members : List (α × β)} {parts : List (β × γ)}
    (h : parts.map Prod.fst = members.map Prod.snd) :
    ∃ qs : List ((α × β) × γ), qs.map Prod.fst = members ∧
      qs.map (fun q => (q.1.2, q.2)) = parts := by
  induction members generalizing parts with
  | nil => exact ⟨[], rfl, (List.map_eq_nil_iff.mp h).symm⟩
  | cons m members ih =>
    cases parts with
    | nil => simp at h
    | cons p parts =>
      obtain ⟨hhead, htail⟩ := List.cons.inj h
      obtain ⟨qs, rfl, rfl⟩ := ih htail
      refine ⟨(m, p.2) :: qs, rfl, ?_⟩
      rw [List.map_cons, ← hhead]

/-- An object is lossless when it is opened and its children are lossless. -/
theorem lossless_of_opened {o : Fin n} {marker : Json ν} {parts : List (Value ν n × Json ν)}
    (h : opened heap o = some (marker, parts.map Prod.fst))
    (hparts : ∀ p ∈ parts, Lossless heap p.1 p.2) :
    ∃ j, Lossless heap (.ref o) j ∧ tokens j = marker :: (parts.map fun p => tokens p.2).flatten := by
  cases ho : heap o with
  | array a =>
    obtain ⟨hproto, hothers, hslots, rfl⟩ := (opened_array ho).mp h
    rw [List.map_map] at hslots
    refine ⟨_, .array ho hproto hslots hothers hparts, ?_⟩
    rw [tokens, tokensItems_eq, List.map_map, List.length_map, List.length_map]
    rfl
  | other p =>
    obtain ⟨hproto, members, hmembers, rfl, hchildren⟩ := (opened_other ho).mp h
    obtain ⟨qs, rfl, rfl⟩ := exists_joined hchildren
    rw [List.map_map] at hmembers
    have hqs : ∀ q ∈ qs, Lossless heap q.1.2 q.2 := fun q hq =>
      hparts _ (List.mem_map_of_mem hq)
    refine ⟨_, .object ho hproto hmembers hqs, ?_⟩
    rw [tokens, tokensMembers_eq, List.map_map, List.map_map, List.map_map, List.map_map]
    rfl

/-- A lossless object is opened, and its children are lossless and unfold to less. -/
theorem opened_of_lossless {o : Fin n} {j : Json ν} (h : Lossless heap (.ref o) j) :
    ∃ (marker : Json ν) (parts : List (Value ν n × Json ν)),
      opened heap o = some (marker, parts.map Prod.fst) ∧
      tokens j = marker :: (parts.map fun p => tokens p.2).flatten ∧
      ∀ p ∈ parts, Lossless heap p.1 p.2 ∧ sizeOf p.2 < sizeOf j := by
  cases h with
  | array ho hproto hslots hothers hparts =>
    rename_i a parts
    refine ⟨arrayMarker parts.length, parts, (opened_array ho).mpr ⟨hproto, hothers, ?_, ?_⟩, ?_, ?_⟩
    · rw [hslots, List.map_map]
      rfl
    · rw [List.length_map]
    · rw [tokens, tokensItems_eq, List.map_map, List.length_map]
      rfl
    · intro p hp
      have hlt := List.sizeOf_lt_of_mem (List.mem_map_of_mem (f := Prod.snd) hp)
      refine ⟨hparts p hp, ?_⟩
      simp only [Json.arr.sizeOf_spec]
      omega
  | object ho hproto hproperties hparts =>
    rename_i p parts
    refine ⟨objectMarker (parts.map fun q => q.1.1), parts.map fun q => (q.1.2, q.2),
      (opened_other ho).mpr ⟨hproto, parts.map Prod.fst, ?_, ?_, ?_⟩, ?_, ?_⟩
    · rw [hproperties, List.map_map]
      rfl
    · rw [List.map_map]
      rfl
    · rw [List.map_map, List.map_map]
      rfl
    · rw [tokens, tokensMembers_eq, List.map_map, List.map_map, List.map_map]
      rfl
    · intro part hpart
      obtain ⟨q, hq, rfl⟩ := List.mem_map.mp hpart
      have hlt := List.sizeOf_lt_of_mem (List.mem_map_of_mem
        (f := fun q : (Text × Value ν n) × Json ν => (q.1.1, q.2)) hq)
      refine ⟨hparts q hq, ?_⟩
      simp only [Json.obj.sizeOf_spec, Prod.mk.sizeOf_spec] at hlt ⊢
      omega

/-! ### The walk -/

/-- The loop returns. -/
def Ends (heap : Heap ν n) (s : Walk ν n) (result : Option (List (Json ν))) : Prop :=
  ∃ fuel, flattenLoop heap fuel s = some result

/-- What the loop returns does not depend on the fuel. -/
theorem flattenLoop_mono {fuel k : ℕ} {s : Walk ν n} {result : Option (List (Json ν))}
    (h : flattenLoop heap fuel s = some result) :
    flattenLoop heap (fuel + k) s = some result := by
  induction fuel generalizing s with
  | zero => cases h
  | succ fuel ih =>
    rw [Nat.succ_add, flattenLoop]
    rw [flattenLoop] at h
    cases hstack : s.stack with
    | nil =>
      rw [hstack] at h
      exact h
    | cons task stack =>
      rw [hstack] at h
      simp only at h ⊢
      cases hstep : Walk.step heap { s with stack := stack } task with
      | none =>
        rw [hstep] at h
        exact h
      | some s' =>
        rw [hstep] at h
        exact ih h

/-- `flatten` returns one thing. -/
theorem Ends.unique {s : Walk ν n} {r r' : Option (List (Json ν))} (h : Ends heap s r)
    (h' : Ends heap s r') : r = r' := by
  obtain ⟨fuel, h⟩ := h
  obtain ⟨fuel', h'⟩ := h'
  have hsum := flattenLoop_mono (k := fuel') h
  have hsum' := flattenLoop_mono (k := fuel) h'
  rw [Nat.add_comm] at hsum'
  exact Option.some.inj (hsum.symm.trans hsum')

/-- The loop goes on behind a task. -/
theorem ends_step {wire : List (Json ν)} {active : Finset (Fin n)} {stack : List (Task ν n)}
    {task : Task ν n} {s : Walk ν n} {r : Option (List (Json ν))}
    (hstep : Walk.step heap ⟨wire, active, stack⟩ task = some s) (h : Ends heap s r) :
    Ends heap ⟨wire, active, task :: stack⟩ r := by
  obtain ⟨fuel, h⟩ := h
  refine ⟨fuel + 1, ?_⟩
  rw [flattenLoop]
  simp only [hstep]
  exact h

/-- A task that is refused ends the loop. -/
theorem ends_none {wire : List (Json ν)} {active : Finset (Fin n)} {stack : List (Task ν n)}
    {task : Task ν n} (hstep : Walk.step heap ⟨wire, active, stack⟩ task = none) :
    Ends heap ⟨wire, active, task :: stack⟩ none := by
  refine ⟨1, ?_⟩
  rw [flattenLoop]
  simp only [hstep]

/-- The walk passes a value, and puts these tokens on the wire. -/
def Passes (heap : Heap ν n) (active : Finset (Fin n)) (v : Value ν n) (ts : List (Json ν)) :
    Prop :=
  ∀ wire stack r, Ends heap ⟨wire ++ ts, active, stack⟩ r →
    Ends heap ⟨wire, active, .value v :: stack⟩ r

/-- The walk ends at a value. -/
def Fails (heap : Heap ν n) (active : Finset (Fin n)) (v : Value ν n) : Prop :=
  ∀ wire stack, Ends heap ⟨wire, active, .value v :: stack⟩ none

/-- Values are passed one after the other. -/
theorem passes_all {active : Finset (Fin n)} {parts : List (Value ν n × Json ν)}
    (h : ∀ p ∈ parts, Passes heap active p.1 (tokens p.2)) (wire : List (Json ν))
    (stack : List (Task ν n)) {r : Option (List (Json ν))}
    (hrest : Ends heap ⟨wire ++ (parts.map fun p => tokens p.2).flatten, active, stack⟩ r) :
    Ends heap ⟨wire, active, (parts.map Prod.fst).map .value ++ stack⟩ r := by
  induction parts generalizing wire with
  | nil =>
    rw [List.map_nil, List.flatten_nil, List.append_nil] at hrest
    exact hrest
  | cons p parts ih =>
    obtain ⟨hp, hparts⟩ := List.forall_mem_cons.mp h
    apply hp
    apply ih hparts
    rw [List.append_assoc]
    rwa [List.map_cons, List.flatten_cons] at hrest

/-- The walk of an object passes its children, and leaves it. -/
theorem passes_ref {active : Finset (Fin n)} {o : Fin n} {marker : Json ν}
    {parts : List (Value ν n × Json ν)} (hactive : o ∉ active)
    (hopened : opened heap o = some (marker, parts.map Prod.fst))
    (h : ∀ p ∈ parts, Passes heap (insert o active) p.1 (tokens p.2)) :
    Passes heap active (.ref o) (marker :: (parts.map fun p => tokens p.2).flatten) := by
  intro wire stack r hrest
  refine ends_step (s := Walk.enter ⟨wire, active, stack⟩ o marker (parts.map Prod.fst)) ?_ ?_
  · rw [step_ref, if_neg hactive, hopened]
    rfl
  · apply passes_all h
    have hleave : Walk.step heap ⟨wire ++ marker :: (parts.map fun p => tokens p.2).flatten,
        insert o active, stack⟩ (.leave o) =
          some ⟨wire ++ marker :: (parts.map fun p => tokens p.2).flatten, active, stack⟩ := by
      rw [Walk.step, Finset.erase_insert hactive]
    rw [List.append_assoc, List.singleton_append]
    exact ends_step hleave hrest

/-- A scalar is passed. -/
theorem passes_scalar {active : Finset (Fin n)} {v : Value ν n} {token : Json ν}
    (h : ∀ s : Walk ν n, Walk.step heap s (.value v) = some (s.push token)) :
    Passes heap active v [token] := fun _ _ _ hrest => ends_step (h _) hrest

/-! ### Lossless values are passed -/

/-- A lossless value is passed: the objects that are being visited hold it, so that it is none of
them. -/
theorem passes_of_lossless (v : Value ν n) (j : Json ν) (h : Lossless heap v j)
    (active : Finset (Fin n))
    (hactive : ∀ o ∈ active, ∃ j', Lossless heap (.ref o) j' ∧ sizeOf j < sizeOf j') :
    Passes heap active v (tokens j) := by
  cases v with
  | undefined => cases h
  | other => cases h
  | null =>
    cases h
    rw [tokens]
    exact passes_scalar fun _ => rfl
  | bool b =>
    cases h
    rw [tokens]
    exact passes_scalar fun _ => rfl
  | str s =>
    cases h
    rw [tokens]
    exact passes_scalar fun _ => rfl
  | num x =>
    cases h with
    | num hfinite hzero =>
      rw [tokens]
      apply passes_scalar
      intro s
      rw [Walk.step, if_neg (by simp [hfinite, hzero])]
  | ref o =>
    obtain ⟨marker, parts, hopened, htokens, hparts⟩ := opened_of_lossless h
    have hfresh : o ∉ active := by
      intro ho
      obtain ⟨j', hj', hlt⟩ := hactive o ho
      rw [h.unique hj'] at hlt
      exact Nat.lt_irrefl _ hlt
    rw [htokens]
    apply passes_ref hfresh hopened
    intro p hp
    obtain ⟨hlossless, hlt⟩ := hparts p hp
    apply passes_of_lossless p.1 p.2 hlossless
    intro o' ho'
    rcases Finset.mem_insert.mp ho' with rfl | ho'
    · exact ⟨j, h, hlt⟩
    · obtain ⟨j', hj', hlt'⟩ := hactive o' ho'
      exact ⟨j', hj', Nat.lt_trans hlt hlt'⟩
termination_by sizeOf j

/-! ### Every walk ends -/

/-- Values are passed, and are lossless, or the walk ends at the first that is not. -/
theorem passes_or_fails {active : Finset (Fin n)} {children : List (Value ν n)}
    (h : ∀ v ∈ children,
      (∃ j, Lossless heap v j ∧ Passes heap active v (tokens j)) ∨ Fails heap active v) :
    (∃ parts : List (Value ν n × Json ν), parts.map Prod.fst = children ∧
      ∀ p ∈ parts, Lossless heap p.1 p.2 ∧ Passes heap active p.1 (tokens p.2)) ∨
    ∀ wire stack, Ends heap ⟨wire, active, children.map .value ++ stack⟩ none := by
  induction children with
  | nil => exact .inl ⟨[], rfl, nofun⟩
  | cons v children ih =>
    obtain ⟨hv, hchildren⟩ := List.forall_mem_cons.mp h
    rcases hv with ⟨j, hlossless, hpasses⟩ | hfails
    · rcases ih hchildren with ⟨parts, rfl, hparts⟩ | hfails
      · exact .inl ⟨(v, j) :: parts, rfl, List.forall_mem_cons.mpr ⟨⟨hlossless, hpasses⟩, hparts⟩⟩
      · exact .inr fun wire stack => hpasses wire _ none (hfails _ stack)
    · exact .inr fun wire stack => hfails wire _

/-- A value is lossless and passed, or the walk ends at it. -/
theorem lossless_or_fails (active : Finset (Fin n)) (v : Value ν n) :
    (∃ j, Lossless heap v j ∧ Passes heap active v (tokens j)) ∨ Fails heap active v := by
  cases v with
  | undefined => exact .inr fun wire stack => ends_none rfl
  | other => exact .inr fun wire stack => ends_none rfl
  | null => exact .inl ⟨.null, .null, by rw [tokens]; exact passes_scalar fun _ => rfl⟩
  | bool b => exact .inl ⟨.bool b, .bool b, by rw [tokens]; exact passes_scalar fun _ => rfl⟩
  | str s => exact .inl ⟨.str s, .str s, by rw [tokens]; exact passes_scalar fun _ => rfl⟩
  | num x =>
    by_cases hx : JsNumber.isFinite x = false ∨ JsNumber.isNegativeZero x = true
    · refine .inr fun wire stack => ends_none ?_
      rw [Walk.step, if_pos hx]
    · refine .inl ⟨.num x, .num (by simp_all) (by simp_all), ?_⟩
      rw [tokens]
      apply passes_scalar
      intro s
      rw [Walk.step, if_neg hx]
  | ref o =>
    by_cases hactive : o ∈ active
    · refine .inr fun wire stack => ends_none ?_
      rw [step_ref, if_pos hactive]
    · cases hopened : opened heap o with
      | none =>
        refine .inr fun wire stack => ends_none ?_
        rw [step_ref, if_neg hactive, hopened]
        rfl
      | some c =>
        obtain ⟨marker, children⟩ := c
        have hchildren : ∀ v ∈ children, (∃ j, Lossless heap v j ∧
            Passes heap (insert o active) v (tokens j)) ∨ Fails heap (insert o active) v :=
          fun v _ => lossless_or_fails (insert o active) v
        rcases passes_or_fails hchildren with ⟨parts, rfl, hparts⟩ | hfails
        · obtain ⟨j, hlossless, htokens⟩ := lossless_of_opened hopened fun p hp => (hparts p hp).1
          refine .inl ⟨j, hlossless, ?_⟩
          rw [htokens]
          exact passes_ref hactive hopened fun p hp => (hparts p hp).2
        · refine .inr fun wire stack => ends_step
            (s := Walk.enter ⟨wire, active, stack⟩ o marker children) ?_ (hfails _ _)
          rw [step_ref, if_neg hactive, hopened]
          rfl
termination_by activeᶜ.card
decreasing_by
  apply Finset.card_lt_card
  exact Finset.compl_ssubset_compl.mpr (Finset.ssubset_insert hactive)

/-! ### What `flatten` returns -/

/-- A lossless value is flattened to its tokens. -/
theorem flatten_of_lossless {v : Value ν n} {j : Json ν} (h : Lossless heap v j) :
    Flatten heap v (some (tokens j)) := by
  apply passes_of_lossless v j h ∅ nofun
  exact ⟨1, rfl⟩

/-- Any other value is flattened to `undefined`. -/
theorem flatten_of_not_lossless {v : Value ν n} (h : ¬ ∃ j, Lossless heap v j) :
    Flatten heap v none := by
  rcases lossless_or_fails ∅ v with ⟨j, hj, -⟩ | hfails
  · exact absurd ⟨j, hj⟩ h
  · exact hfails [] []

end RemoteWorkspace.Model.PtcCodec
