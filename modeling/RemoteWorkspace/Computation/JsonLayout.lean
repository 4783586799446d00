import RemoteWorkspace.Computation.JsonText

/-!
# JSON laid out over lines

`stringify` of ECMAScript with an indentation: every item and every member stands on a line of its
own, behind the indentation of its depth, and an array or an object that is empty is written as
without it. White space between the parts of a value means nothing to the reader, so what is laid
out for a tidy value is read as that value.
-/

set_option autoImplicit false

namespace RemoteWorkspace.Computation.Json

variable {ν : Type}

/-! ### Writing -/

/-- A line end and the indentation of a depth. -/
def newline (width depth : ℕ) : Text := 0x0A :: List.replicate (width * depth) 0x20

mutual

/-- `JSON.stringify` with an indentation of some blanks, at a depth. -/
def layout [JsNumber ν] (width depth : ℕ) : Json ν → Text
  | .null => stringify (.null : Json ν)
  | .bool b => stringify (.bool b : Json ν)
  | .num x => stringify (.num x)
  | .str s => quote s
  | .arr [] => [0x5B, 0x5D]
  | .arr (v :: items) =>
    0x5B :: (newline width (depth + 1) ++
      (layoutItems width (depth + 1) (v :: items) ++ (newline width depth ++ [0x5D])))
  | .obj [] => [0x7B, 0x7D]
  | .obj (m :: members) =>
    0x7B :: (newline width (depth + 1) ++
      (layoutMembers width (depth + 1) (m :: members) ++ (newline width depth ++ [0x7D])))

/-- Items on their lines. -/
def layoutItems [JsNumber ν] (width depth : ℕ) : List (Json ν) → Text
  | [] => []
  | [v] => layout width depth v
  | v :: w :: items =>
    layout width depth v ++ 0x2C :: (newline width depth ++ layoutItems width depth (w :: items))

/-- Members on their lines. -/
def layoutMembers [JsNumber ν] (width depth : ℕ) : List (Text × Json ν) → Text
  | [] => []
  | [(key, v)] => quote key ++ 0x3A :: 0x20 :: layout width depth v
  | (key, v) :: m :: members =>
    quote key ++ 0x3A :: 0x20 :: (layout width depth v ++
      0x2C :: (newline width depth ++ layoutMembers width depth (m :: members)))

end

/-! ### White space -/

/-- White space of JSON. -/
def isBlank (u : UInt16) : Bool := u == 0x20 || u == 0x09 || u == 0x0A || u == 0x0D

/-- White space in front of a text is skipped. -/
theorem skip_append {blank : Text} (h : blank.all isBlank = true) (text : Text) :
    skip (blank ++ text) = skip text :=
  List.dropWhile_append_of_pos fun u hu => List.all_eq_true.mp h u hu

/-- A line end and an indentation are white space. -/
theorem all_newline (width depth : ℕ) : (newline width depth).all isBlank = true := by
  rw [newline, List.all_cons, Bool.and_eq_true]
  refine ⟨by decide, List.all_eq_true.mpr fun u hu => ?_⟩
  rw [List.eq_of_mem_replicate hu]
  decide

/-- A number may be followed by white space. -/
theorem ends_newline (width depth : ℕ) (rest : Text) : Ends (newline width depth ++ rest) := by
  rw [newline, List.cons_append]
  exact ends_cons (by decide) _

variable [JsNumber ν]

/-- A value is read behind white space as without it. -/
theorem readValue_blank {blank : Text} (h : blank.all isBlank = true) (fuel : ℕ) (text : Text) :
    readValue (ν := ν) fuel (blank ++ text) = readValue fuel text := by
  cases fuel with
  | zero => rw [readValue, readValue]
  | succ fuel => rw [readValue.eq_def, readValue.eq_def]; simp only [skip_append h]

/-- Items are read behind white space as without it. -/
theorem readItems_blank {blank : Text} (h : blank.all isBlank = true) (fuel : ℕ) (text : Text) :
    readItems (ν := ν) fuel (blank ++ text) = readItems fuel text := by
  cases fuel with
  | zero => rw [readItems, readItems]
  | succ fuel => rw [readItems.eq_def, readItems.eq_def]; simp only [readValue_blank h]

/-- Members are read behind white space as without it. -/
theorem readMembers_blank {blank : Text} (h : blank.all isBlank = true) (fuel : ℕ) (text : Text) :
    readMembers (ν := ν) fuel (blank ++ text) = readMembers fuel text := by
  cases fuel with
  | zero => rw [readMembers, readMembers]
  | succ fuel => rw [readMembers.eq_def, readMembers.eq_def]; simp only [skip_append h]

/-! ### What is laid out is read back -/

/-- What is laid out for a value starts with no white space and no closing bracket. -/
theorem layout_cons (width depth : ℕ) (v : Json ν) (hv : Tidy v) :
    ∃ u us, layout width depth v = u :: us ∧ 0x20 < u ∧ u ≠ 0x5D := by
  cases hv with
  | null | bool b | num hfinite hzero =>
    rw [layout]
    exact stringify_cons _ (by constructor <;> assumption)
  | str s =>
    rw [layout]
    exact ⟨_, _, rfl, by decide, by decide⟩
  | @arr items hitems =>
    cases items <;> rw [layout] <;> exact ⟨_, _, rfl, by decide, by decide⟩
  | @obj members horder hmembers =>
    cases members <;> rw [layout] <;> exact ⟨_, _, rfl, by decide, by decide⟩

/-- Reading a value that is laid out gives it back. -/
def LaidBack (v : Json ν) : Prop :=
  ∀ width depth fuel rest, Ends rest → 2 * (layout width depth v).length ≤ fuel →
    readValue fuel (layout width depth v ++ rest) = some (v, rest)

/-- The items of an array are read back when each of them is. -/
theorem readItems_layout {items : List (Json ν)} (hne : items ≠ [])
    (hback : ∀ v ∈ items, LaidBack v) (width depth : ℕ) {fuel : ℕ} {blank rest : Text}
    (hblank : blank.all isBlank = true) (hends : Ends (blank ++ 0x5D :: rest))
    (hfuel : 2 * (layoutItems width depth items).length + 1 ≤ fuel) :
    readItems fuel (layoutItems width depth items ++ (blank ++ 0x5D :: rest)) =
      some (items, rest) := by
  induction items generalizing fuel with
  | nil => exact absurd rfl hne
  | cons v items ih =>
    obtain ⟨hv, hitems⟩ := List.forall_mem_cons.mp hback
    obtain ⟨fuel, rfl, hfuel⟩ := exists_fuel hfuel
    have hclose : skip (blank ++ 0x5D :: rest) = 0x5D :: rest := by
      rw [skip_append hblank, skip_cons (by decide)]
    cases items with
    | nil =>
      have hread := hv width depth fuel (blank ++ 0x5D :: rest) hends
        (by rw [layoutItems] at hfuel; omega)
      rw [layoutItems, readItems.eq_def]
      simp only [hread, Option.bind_some, hclose,
        if_neg (show ¬ (0x5D : UInt16) = 0x2C by decide), if_true]
    | cons w items =>
      have hlength : (layoutItems width depth (v :: w :: items)).length =
          (layout width depth v).length + (newline width depth).length +
            (layoutItems width depth (w :: items)).length + 1 := by
        rw [layoutItems, List.length_append, List.length_cons, List.length_append]
        omega
      have hread := hv width depth fuel
        (0x2C :: (newline width depth ++ layoutItems width depth (w :: items) ++
          (blank ++ 0x5D :: rest))) (ends_cons (by decide) _) (by omega)
      have hrest : readItems fuel (newline width depth ++ layoutItems width depth (w :: items) ++
          (blank ++ 0x5D :: rest)) = some (w :: items, rest) := by
        rw [List.append_assoc, readItems_blank (all_newline width depth)]
        exact ih (by simp) hitems (by omega)
      have hcons : layoutItems width depth (v :: w :: items) ++ (blank ++ 0x5D :: rest) =
          layout width depth v ++ 0x2C :: (newline width depth ++
            layoutItems width depth (w :: items) ++ (blank ++ 0x5D :: rest)) := by
        rw [layoutItems, List.append_assoc, List.cons_append]
      rw [hcons, readItems.eq_def]
      simp only [hread, Option.bind_some, skip_cons (show (0x20 : UInt16) < 0x2C by decide), if_true,
        hrest, Option.map_some]

/-- The members of an object are read back when each value is. -/
theorem readMembers_layout {members : List (Text × Json ν)} (hne : members ≠ [])
    (hback : ∀ m ∈ members, LaidBack m.2) (width depth : ℕ) {fuel : ℕ} {blank rest : Text}
    (hblank : blank.all isBlank = true) (hends : Ends (blank ++ 0x7D :: rest))
    (hfuel : 2 * (layoutMembers width depth members).length + 1 ≤ fuel) :
    readMembers fuel (layoutMembers width depth members ++ (blank ++ 0x7D :: rest)) =
      some (members, rest) := by
  induction members generalizing fuel with
  | nil => exact absurd rfl hne
  | cons m members ih =>
    obtain ⟨hm, hmembers⟩ := List.forall_mem_cons.mp hback
    obtain ⟨fuel, rfl, hfuel⟩ := exists_fuel hfuel
    obtain ⟨key, v⟩ := m
    have hm : LaidBack v := hm
    have hquote : ∀ tail : Text, quote key ++ tail = 0x22 :: (escape key ++ 0x22 :: tail) := by
      intro tail
      simp [quote]
    have hcolon : ∀ tail, skip (0x3A :: tail) = 0x3A :: tail := skip_cons (by decide)
    have hclose : skip (blank ++ 0x7D :: rest) = 0x7D :: rest := by
      rw [skip_append hblank, skip_cons (by decide)]
    have hspace : ∀ tail : Text, readValue (ν := ν) fuel (0x20 :: tail) = readValue fuel tail :=
      fun tail => readValue_blank (by decide : ([0x20] : Text).all isBlank = true) fuel tail
    cases members with
    | nil =>
      have hlength : (layoutMembers width depth [(key, v)]).length =
          (quote key).length + (layout width depth v).length + 2 := by
        rw [layoutMembers, List.length_append, List.length_cons, List.length_cons]
        omega
      have hread := hm width depth fuel (blank ++ 0x7D :: rest) hends (by omega)
      have hcons : layoutMembers width depth [(key, v)] ++ (blank ++ 0x7D :: rest) =
          0x22 :: (escape key ++ 0x22 :: 0x3A :: 0x20 ::
            (layout width depth v ++ (blank ++ 0x7D :: rest))) := by
        rw [layoutMembers, List.append_assoc, hquote, List.cons_append, List.cons_append]
      rw [hcons, readMembers.eq_def]
      simp only [skip_cons (show (0x20 : UInt16) < 0x22 by decide), if_true, readString_escape,
        Option.bind_some, hcolon, hspace, hread, hclose,
        if_neg (show ¬ (0x7D : UInt16) = 0x2C by decide)]
    | cons m' members =>
      have hlength : (layoutMembers width depth ((key, v) :: m' :: members)).length =
          (quote key).length + (layout width depth v).length + (newline width depth).length +
            (layoutMembers width depth (m' :: members)).length + 3 := by
        rw [layoutMembers, List.length_append, List.length_cons, List.length_cons,
          List.length_append, List.length_cons, List.length_append]
        omega
      have hread := hm width depth fuel
        (0x2C :: (newline width depth ++ layoutMembers width depth (m' :: members) ++
          (blank ++ 0x7D :: rest))) (ends_cons (by decide) _) (by omega)
      have hrest : readMembers fuel (newline width depth ++
          layoutMembers width depth (m' :: members) ++ (blank ++ 0x7D :: rest)) =
            some (m' :: members, rest) := by
        rw [List.append_assoc, readMembers_blank (all_newline width depth)]
        exact ih (by simp) hmembers (by omega)
      have hcons : layoutMembers width depth ((key, v) :: m' :: members) ++
          (blank ++ 0x7D :: rest) =
            0x22 :: (escape key ++ 0x22 :: 0x3A :: 0x20 :: (layout width depth v ++
              0x2C :: (newline width depth ++ layoutMembers width depth (m' :: members) ++
                (blank ++ 0x7D :: rest)))) := by
        rw [layoutMembers, List.append_assoc, hquote, List.cons_append, List.cons_append,
          List.append_assoc, List.cons_append]
      rw [hcons, readMembers.eq_def]
      simp only [skip_cons (show (0x20 : UInt16) < 0x22 by decide), if_true, readString_escape,
        Option.bind_some, hcolon, hspace, hread, skip_cons (show (0x20 : UInt16) < 0x2C by decide),
        hrest, Option.map_some]

/-- What is laid out as it is written is read back. -/
theorem laidBack_of_readBack {v : Json ν} (h : ReadBack v)
    (hlayout : ∀ width depth, layout width depth v = stringify v) : LaidBack v := by
  intro width depth fuel rest hrest hfuel
  rw [hlayout] at hfuel ⊢
  exact h fuel rest hrest hfuel

/-- An array is read back when its items are. -/
theorem laidBack_arr {items : List (Json ν)} (htidy : ∀ v ∈ items, Tidy v)
    (hback : ∀ v ∈ items, LaidBack v) : LaidBack (.arr items) := by
  cases items with
  | nil =>
    refine laidBack_of_readBack (readBack_arr htidy fun v hv => absurd hv List.not_mem_nil) ?_
    intro width depth
    rw [layout, stringify, stringifyItems]
    rfl
  | cons v items =>
    intro width depth fuel rest hrest hfuel
    have hcons : layout width depth (.arr (v :: items)) ++ rest =
        0x5B :: (newline width (depth + 1) ++ (layoutItems width (depth + 1) (v :: items) ++
          (newline width depth ++ 0x5D :: rest))) := by
      rw [layout]
      simp
    have hlength : (layoutItems width (depth + 1) (v :: items)).length + 2 ≤
        (layout width depth (.arr (v :: items))).length := by
      rw [layout]
      simp only [List.length_cons, List.length_append, List.length_nil]
      omega
    obtain ⟨fuel, rfl, -⟩ := exists_fuel (n := 0) (le_trans (by omega) hfuel)
    have hread : readItems fuel (newline width (depth + 1) ++
        (layoutItems width (depth + 1) (v :: items) ++ (newline width depth ++ 0x5D :: rest))) =
          some (v :: items, rest) := by
      rw [readItems_blank (all_newline _ _)]
      exact readItems_layout (by simp) hback _ _ (all_newline _ _) (ends_newline _ _ _) (by omega)
    have hhead : (skip (newline width (depth + 1) ++ (layoutItems width (depth + 1) (v :: items) ++
        (newline width depth ++ 0x5D :: rest)))).head? ≠ some 0x5D := by
      obtain ⟨u, us, hu, hspace, hclose⟩ :=
        layout_cons width (depth + 1) v (htidy v List.mem_cons_self)
      have hfirst : ∃ tail, layoutItems width (depth + 1) (v :: items) ++
          (newline width depth ++ 0x5D :: rest) = u :: tail := by
        cases items with
        | nil => exact ⟨_, by rw [layoutItems, hu, List.cons_append]⟩
        | cons w items => exact ⟨_, by rw [layoutItems, hu, List.cons_append, List.cons_append]⟩
      obtain ⟨tail, htail⟩ := hfirst
      rw [skip_append (all_newline _ _), htail, skip_cons hspace, List.head?_cons]
      exact fun h => hclose (Option.some.inj h)
    rw [hcons, readValue.eq_def]
    simp only [skip_cons (show (0x20 : UInt16) < 0x5B by decide), if_true,
      if_neg (show ¬ (0x5B : UInt16) = 0x22 by decide), if_neg hhead, hread, Option.map_some]

/-- An object whose members are in order is read back when their values are. -/
theorem laidBack_obj {members : List (Text × Json ν)} (horder : InOrder (members.map Prod.fst))
    (hback : ∀ m ∈ members, LaidBack m.2) : LaidBack (.obj members) := by
  cases members with
  | nil =>
    refine laidBack_of_readBack (readBack_obj horder fun m hm => absurd hm List.not_mem_nil) ?_
    intro width depth
    rw [layout, stringify, stringifyMembers]
    rfl
  | cons m members =>
    intro width depth fuel rest hrest hfuel
    have hcons : layout width depth (.obj (m :: members)) ++ rest =
        0x7B :: (newline width (depth + 1) ++ (layoutMembers width (depth + 1) (m :: members) ++
          (newline width depth ++ 0x7D :: rest))) := by
      rw [layout]
      simp
    have hlength : (layoutMembers width (depth + 1) (m :: members)).length + 2 ≤
        (layout width depth (.obj (m :: members))).length := by
      rw [layout]
      simp only [List.length_cons, List.length_append, List.length_nil]
      omega
    obtain ⟨fuel, rfl, -⟩ := exists_fuel (n := 0) (le_trans (by omega) hfuel)
    have hread : readMembers fuel (newline width (depth + 1) ++
        (layoutMembers width (depth + 1) (m :: members) ++
          (newline width depth ++ 0x7D :: rest))) = some (m :: members, rest) := by
      rw [readMembers_blank (all_newline _ _)]
      exact readMembers_layout (by simp) hback _ _ (all_newline _ _) (ends_newline _ _ _) (by omega)
    have hhead : (skip (newline width (depth + 1) ++
        (layoutMembers width (depth + 1) (m :: members) ++
          (newline width depth ++ 0x7D :: rest)))).head? ≠ some 0x7D := by
      have hfirst : ∃ tail, layoutMembers width (depth + 1) (m :: members) ++
          (newline width depth ++ 0x7D :: rest) = 0x22 :: tail := by
        obtain ⟨key, v⟩ := m
        cases members with
        | nil => exact ⟨_, by rw [layoutMembers, quote, List.cons_append, List.cons_append]⟩
        | cons w members =>
          exact ⟨_, by rw [layoutMembers, quote, List.cons_append, List.cons_append]⟩
      obtain ⟨tail, htail⟩ := hfirst
      rw [skip_append (all_newline _ _), htail, skip_cons (by decide), List.head?_cons]
      decide
    rw [hcons, readValue.eq_def]
    simp only [skip_cons (show (0x20 : UInt16) < 0x7B by decide), if_true,
      if_neg (show ¬ (0x7B : UInt16) = 0x22 by decide),
      if_neg (show ¬ (0x7B : UInt16) = 0x5B by decide), if_neg hhead, hread, Option.map_some,
      defineAll_of_inOrder [] _ horder, List.nil_append]

/-- Every tidy value that is laid out is read back. -/
theorem laidBack_of_tidy (v : Json ν) : Tidy v → LaidBack v := by
  induction v using induct with
  | null => exact fun _ => laidBack_of_readBack readBack_keyword.1 fun _ _ => by rw [layout]
  | bool b => exact fun _ => laidBack_of_readBack (readBack_keyword.2 b) fun _ _ => by rw [layout]
  | num x =>
    rintro ⟨⟩
    rename_i hfinite hzero
    exact laidBack_of_readBack (readBack_num hfinite hzero) fun _ _ => by rw [layout]
  | str s =>
    exact fun _ => laidBack_of_readBack (readBack_str s) fun _ _ => by rw [layout, stringify]
  | arr items ih =>
    rintro ⟨⟩
    rename_i hitems
    exact laidBack_arr hitems fun v hv => ih v hv (hitems v hv)
  | obj members ih =>
    rintro ⟨⟩
    rename_i horder hmembers
    exact laidBack_obj horder fun m hm => ih m hm (hmembers m hm)

/-- What is laid out for a tidy value, with white space behind it, is read as that value. -/
theorem parse_layout (width : ℕ) {v : Json ν} (hv : Tidy v) {blank : Text}
    (hblank : blank.all isBlank = true) (hends : Ends blank) :
    parse (layout width 0 v ++ blank) = some v := by
  have hread := laidBack_of_tidy v hv width 0 (2 * (layout width 0 v ++ blank).length + 2) blank
    hends (by rw [List.length_append]; omega)
  have hskip : skip blank = [] := by
    rw [← List.append_nil blank, skip_append hblank]
    rfl
  rw [parse, hread, Option.bind_some]
  exact if_pos hskip

end RemoteWorkspace.Computation.Json
