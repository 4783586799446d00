import Mathlib.Data.Int.Notation
import Mathlib.Data.List.Basic
import Mathlib.Tactic.Common

/-!
# Values that were read from JSON

The value a strict reader keeps of a JSON text: a number is an integer of 64 bits, told apart by
its sign, or a double; a string is a text; an object is its members in the order of their keys.
A view of a value is what it is as one type, and nothing where it is of another one.

A reader of a member takes the member's view or fails with one complaint. What a complaint says
is the reader's own; that a member is read exactly when it is there and of its type is proved
once.
-/

set_option autoImplicit false

namespace RemoteWorkspace.Computation

/-- A number as a strict reader keeps it: not below zero, below zero, or a double. -/
inductive JsonNumber where
  | posInt (n : UInt64)
  | negInt (n : ℤ)
  | float (bits : UInt64)
  deriving DecidableEq

/-- A value that was read. -/
inductive JsonValue where
  | null
  | bool (b : Bool)
  | number (n : JsonNumber)
  | string (s : String)
  | array (items : List JsonValue)
  | object (members : List (String × JsonValue))
  deriving Inhabited

namespace JsonValue

/-- The number of a whole number that 64 bits hold. -/
def ofNat (n : ℕ) : JsonValue := .number (.posInt (UInt64.ofNat n))

/-- The number of an integer that 64 bits hold. -/
def ofInt (n : ℤ) : JsonValue := if 0 ≤ n then ofNat n.toNat else .number (.negInt n)

/-! ### Views -/

def asBool : JsonValue → Option Bool
  | .bool b => some b
  | _ => none

def asStr : JsonValue → Option String
  | .string s => some s
  | _ => none

def asU64 : JsonValue → Option ℕ
  | .number (.posInt n) => some n.toNat
  | _ => none

def asI64 : JsonValue → Option ℤ
  | .number (.posInt n) => if n.toNat < 1 <<< 63 then some n.toNat else none
  | .number (.negInt n) => some n
  | _ => none

def asArray : JsonValue → Option (List JsonValue)
  | .array items => some items
  | _ => none

def asObject : JsonValue → Option (List (String × JsonValue))
  | .object members => some members
  | _ => none

/-- A member of an object; nothing for any other value. -/
def get (value : JsonValue) (field : String) : Option JsonValue :=
  value.asObject.bind (List.lookup field)

@[simp] theorem asStr_string (s : String) : (string s).asStr = some s := rfl
@[simp] theorem asBool_bool (b : Bool) : (bool b).asBool = some b := rfl
@[simp] theorem asArray_array (items : List JsonValue) : (array items).asArray = some items := rfl
@[simp] theorem get_object (members : List (String × JsonValue)) (field : String) :
    (object members).get field = members.lookup field := rfl

/-! ### Objects as they are built -/

/-- Give an object a member, in the place of its key, or an existing one a new value. -/
def insert {β : Type} (key : String) (value : β) : List (String × β) → List (String × β)
  | [] => [(key, value)]
  | (other, v) :: members =>
    if key = other then (key, value) :: members
    else if key < other then (key, value) :: (other, v) :: members
    else (other, v) :: insert key value members

/-- The members of an object that was given some members in turn. -/
def ofPairs {β : Type} (pairs : List (String × β)) : List (String × β) :=
  pairs.foldl (fun members pair => insert pair.1 pair.2 members) []

/-- What a list of members says of a key, its first member apart. -/
theorem lookup_member {β : Type} (key other : String) (value : β) (members : List (String × β)) :
    List.lookup other ((key, value) :: members) =
      if other = key then some value else members.lookup other := by
  by_cases h : other = key
  · simp [h]
  · rw [List.lookup_cons, beq_false_of_ne h, if_neg h]

/-- What an object says of a key after it was given one. -/
theorem lookup_insert {β : Type} (key other : String) (value : β) (members : List (String × β)) :
    (insert key value members).lookup other =
      if other = key then some value else members.lookup other := by
  induction members with
  | nil => rw [insert, lookup_member]
  | cons member members ih =>
    obtain ⟨k, v⟩ := member
    unfold insert
    split
    · rename_i hkey
      subst hkey
      by_cases h : other = key <;> simp [lookup_member, h]
    · rename_i hne
      split
      · rw [lookup_member]
      · rw [lookup_member, lookup_member, ih]
        by_cases hk : other = k
        · have hok : other ≠ key := fun h => hne (h ▸ hk)
          rw [if_pos hk, if_neg hok, if_pos hk]
        · rw [if_neg hk, if_neg hk]

/-- What an object says of a key after it was given some members: the last one of that key. -/
theorem lookup_foldl_insert {β : Type} (other : String) (pairs members : List (String × β)) :
    (pairs.foldl (fun members pair => insert pair.1 pair.2 members) members).lookup other =
      (pairs.reverse ++ members).lookup other := by
  induction pairs generalizing members with
  | nil => rfl
  | cons pair pairs ih =>
    rw [List.foldl_cons, ih, List.reverse_cons, List.append_assoc, List.lookup_append,
      List.lookup_append, lookup_insert]
    congr 1
    exact (lookup_member pair.1 other pair.2 members).symm

/-- What an object says of a key: the last member of that key. -/
theorem lookup_ofPairs {β : Type} (other : String) (pairs : List (String × β)) :
    (ofPairs pairs).lookup other = pairs.reverse.lookup other := by
  rw [ofPairs, lookup_foldl_insert, List.append_nil]

/-- A member is added to mapped members as to the members themselves. -/
theorem insert_map {α β : Type} (f : α → β) (key : String) (value : α)
    (members : List (String × α)) :
    insert key (f value) (members.map (Prod.map id f)) =
      (insert key value members).map (Prod.map id f) := by
  induction members with
  | nil => rfl
  | cons member members ih =>
    obtain ⟨other, v⟩ := member
    simp only [insert, List.map_cons, Prod.map_apply, id, ih]
    split
    · rfl
    · split <;> rfl

/-- An object of mapped members is the object of the members, mapped. -/
theorem ofPairs_map {α β : Type} (f : α → β) (pairs : List (String × α)) :
    ofPairs (pairs.map (Prod.map id f)) = (ofPairs pairs).map (Prod.map id f) := by
  suffices h : ∀ members : List (String × α),
      (pairs.map (Prod.map id f)).foldl (fun members pair => insert pair.1 pair.2 members)
        (members.map (Prod.map id f)) =
      (pairs.foldl (fun members pair => insert pair.1 pair.2 members) members).map
        (Prod.map id f) from h []
  induction pairs with
  | nil => exact fun members => rfl
  | cons pair pairs ih =>
    intro members
    rw [List.map_cons, List.foldl_cons, List.foldl_cons, ← ih, ← insert_map]
    rfl

/-! ### Members that are read through a view -/

variable {α ε : Type}

/-- A member that has to be there. -/
def require (view : JsonValue → Option α) (complaint : ε) (source : List (String × JsonValue))
    (field : String) : Except ε α :=
  match (source.lookup field).bind view with
  | some value => .ok value
  | none => .error complaint

/-- A member that may be left out, or be null. -/
def optional (view : JsonValue → Option α) (complaint : ε) (source : List (String × JsonValue))
    (field : String) : Except ε (Option α) :=
  match source.lookup field with
  | none => .ok none
  | some .null => .ok none
  | some value =>
    match view value with
    | some value => .ok (some value)
    | none => .error complaint

/-- A required member is read exactly when it is there and of its type. -/
theorem toOption_require (view : JsonValue → Option α) (complaint : ε)
    (source : List (String × JsonValue)) (field : String) :
    (require view complaint source field).toOption = (source.lookup field).bind view := by
  unfold require
  cases (source.lookup field).bind view <;> rfl

/-- A required member that is there and of its type is read. -/
theorem require_of_lookup {view : JsonValue → Option α} {complaint : ε}
    {source : List (String × JsonValue)} {field : String} {member : JsonValue} {value : α}
    (h : source.lookup field = some member) (hview : view member = some value) :
    require view complaint source field = .ok value := by
  rw [require, h, Option.bind_some, hview]

/-- An optional member is read when it is left out or null, or is of its type. -/
theorem toOption_optional (view : JsonValue → Option α) (complaint : ε)
    (source : List (String × JsonValue)) (field : String) :
    (optional view complaint source field).toOption =
      match source.lookup field with
      | none => some none
      | some .null => some none
      | some value => (view value).map some := by
  unfold optional
  cases source.lookup field with
  | none => rfl
  | some value =>
    rcases value with _ | b | n | s | items | members
    · rfl
    all_goals
      dsimp only
      split
      · rename_i value hview
        rw [hview]
        rfl
      · rename_i hview
        rw [hview]
        rfl

/-- What a required member fails with is its complaint. -/
theorem require_eq_error {view : JsonValue → Option α} {complaint error : ε}
    {source : List (String × JsonValue)} {field : String}
    (h : require view complaint source field = .error error) : error = complaint := by
  unfold require at h
  split at h
  · cases h
  · exact (Except.error.inj h).symm

/-- What an optional member fails with is its complaint. -/
theorem optional_eq_error {view : JsonValue → Option α} {complaint error : ε}
    {source : List (String × JsonValue)} {field : String}
    (h : optional view complaint source field = .error error) : error = complaint := by
  unfold optional at h
  split at h
  · cases h
  · cases h
  · split at h
    · cases h
    · exact (Except.error.inj h).symm

end JsonValue

end RemoteWorkspace.Computation
