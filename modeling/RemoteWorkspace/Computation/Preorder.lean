import Mathlib.Algebra.GroupWithZero.Nat
import Mathlib.Tactic.Common

/-!
# Trees as tokens in pre-order

A tree is written as one token for its root and then, in order, the tokens of its children. A
token is read as a leaf, or as a node that says how many children follow and what is built of
them; a token may also be no token at all.

The tokens are read from the left with the nodes that still lack children on a stack. That reader
ends with a tree, and no node left, exactly on the tokens of that tree (`feedAll_eq_iff`).
-/

set_option autoImplicit false

namespace RemoteWorkspace.Computation.Preorder

/-- What a token is read as. -/
inductive Shape (α : Type) where
  | leaf (v : α)
  | node (arity : ℕ) (build : List α → α)

variable {τ α : Type} (read : τ → Option (Shape α))

/-- The tokens of a tree. -/
inductive Encodes : α → List τ → Prop
  | leaf {t : τ} {v : α} : read t = some (.leaf v) → Encodes v [t]
  | node {t : τ} {arity : ℕ} {build : List α → α} {parts : List (α × List τ)} :
    read t = some (.node arity build) → parts.length = arity →
    (∀ p ∈ parts, Encodes p.1 p.2) →
    Encodes (build (parts.map Prod.fst)) (t :: (parts.map Prod.snd).flatten)

/-- A node that lacks children, and the children it has. -/
structure Pending (α : Type) where
  arity : ℕ
  build : List α → α
  done : List α

/-- The pending nodes, the innermost first, and the tree when it is complete. -/
structure Reader (α : Type) where
  pending : List (Pending α)
  result : Option α

/-- A reader that has read nothing. -/
def Reader.start : Reader α := ⟨[], none⟩

/-- Hand a complete tree to the innermost pending node, which may complete it in turn. -/
def plug (v : α) : List (Pending α) → Reader α
  | [] => ⟨[], some v⟩
  | p :: pending =>
    if p.done.length + 1 < p.arity then ⟨{ p with done := p.done ++ [v] } :: pending, none⟩
    else plug (p.build (p.done ++ [v])) pending

/-- Read one token; nothing is read behind a complete tree. -/
def feed (s : Reader α) (t : τ) : Option (Reader α) :=
  if s.result.isSome then none
  else
    match read t with
    | none => none
    | some (.leaf v) => some (plug v s.pending)
    | some (.node arity build) =>
      if arity = 0 then some (plug (build []) s.pending)
      else some ⟨⟨arity, build, []⟩ :: s.pending, none⟩

/-- Read tokens one after the other. -/
def feedAll : Reader α → List τ → Option (Reader α)
  | s, [] => some s
  | s, t :: ts => (feed read s t).bind fun s => feedAll s ts

variable {read}

/-! ### The tokens of a tree are read as it -/

/-- The children of a node are read into it one after the other. -/
theorem feedAll_children {parts : List (α × List τ)} {rest : List τ} {p : Pending α}
    {pending : List (Pending α)}
    (hparts : ∀ part ∈ parts, ∀ rest pending,
      feedAll read ⟨pending, none⟩ (part.2 ++ rest) = feedAll read (plug part.1 pending) rest)
    (hne : parts ≠ []) (harity : p.done.length + parts.length = p.arity) :
    feedAll read ⟨p :: pending, none⟩ ((parts.map Prod.snd).flatten ++ rest) =
      feedAll read (plug (p.build (p.done ++ parts.map Prod.fst)) pending) rest := by
  induction parts generalizing p with
  | nil => exact absurd rfl hne
  | cons part parts ih =>
    obtain ⟨hpart, hparts⟩ := List.forall_mem_cons.mp hparts
    rw [List.length_cons] at harity
    rw [List.map_cons, List.flatten_cons, List.append_assoc, hpart, plug]
    by_cases hlast : parts = []
    · subst hlast
      rw [if_neg (by simp at harity; omega)]
      simp
    · have hpos : 0 < parts.length := Nat.pos_of_ne_zero (mt List.eq_nil_of_length_eq_zero hlast)
      rw [if_pos (by omega), ih hparts hlast (by simp; omega)]
      simp

/-- The tokens of a tree hand it to the innermost pending node. -/
theorem feedAll_encodes {v : α} {ts : List τ} (h : Encodes read v ts) :
    ∀ rest pending, feedAll read ⟨pending, none⟩ (ts ++ rest) =
      feedAll read (plug v pending) rest := by
  induction h with
  | leaf hread =>
    intro rest pending
    simp [feedAll, feed, hread]
  | node hread hlength hparts ih =>
    rename_i t arity build parts
    intro rest pending
    rw [List.cons_append, feedAll, feed]
    simp only [hread, Option.isSome_none, Bool.false_eq_true, if_false]
    by_cases harity : arity = 0
    · have hnil : parts = [] := List.eq_nil_of_length_eq_zero (hlength.trans harity)
      rw [if_pos harity, hnil]
      rfl
    · have hne : parts ≠ [] := by
        rintro rfl
        exact harity hlength.symm
      rw [if_neg harity, Option.bind_some,
        feedAll_children (p := ⟨arity, build, []⟩) ih hne (by simpa using hlength)]
      rfl

/-! ### What is read is the tokens of a tree -/

/-- The tokens that were read into pending nodes. -/
inductive Written (read : τ → Option (Shape α)) : List (Pending α) → List τ → Prop
  | nil : Written read [] []
  | cons {pending : List (Pending α)} {ts : List τ} {t : τ} {arity : ℕ} {build : List α → α}
    {parts : List (α × List τ)} : Written read pending ts → read t = some (.node arity build) →
    parts.length < arity → (∀ p ∈ parts, Encodes read p.1 p.2) →
    Written read (⟨arity, build, parts.map Prod.fst⟩ :: pending)
      (ts ++ t :: (parts.map Prod.snd).flatten)

/-- The tokens that a reader has read: those of its pending nodes, or of its result. -/
def HasRead (read : τ → Option (Shape α)) (s : Reader α) (ts : List τ) : Prop :=
  (s.result = none ∧ Written read s.pending ts) ∨
    (s.pending = [] ∧ ∃ v, s.result = some v ∧ Encodes read v ts)

/-- A tree that is handed on was read behind the pending nodes. -/
theorem hasRead_plug {pending : List (Pending α)} {ts : List τ} (hpending : Written read pending ts)
    {v : α} {us : List τ} (hv : Encodes read v us) : HasRead read (plug v pending) (ts ++ us) := by
  induction hpending generalizing v us with
  | nil => exact .inr ⟨rfl, v, rfl, hv⟩
  | cons hrest hread hlt hparts ih =>
    rename_i pending ts t arity build parts
    have hall : ∀ p ∈ parts ++ [(v, us)], Encodes read p.1 p.2 := by
      intro p hp
      rcases List.mem_append.mp hp with hp | hp
      · exact hparts p hp
      · rw [List.mem_singleton.mp hp]
        exact hv
    have htokens : (ts ++ t :: (parts.map Prod.snd).flatten) ++ us =
        ts ++ t :: ((parts ++ [(v, us)]).map Prod.snd).flatten := by
      simp
    have hdone : parts.map Prod.fst ++ [v] = (parts ++ [(v, us)]).map Prod.fst := by
      simp
    rw [plug, htokens, hdone]
    split
    · rename_i hmore
      rw [List.length_map] at hmore
      exact .inl ⟨rfl, .cons hrest hread (by simpa using hmore) hall⟩
    · rename_i hmore
      simp only [List.length_map] at hmore
      refine ih (.node hread ?_ hall)
      rw [List.length_append, List.length_singleton]
      omega

/-- One more token. -/
theorem hasRead_feed {s s' : Reader α} {ts : List τ} {t : τ} (hs : HasRead read s ts)
    (h : feed read s t = some s') : HasRead read s' (ts ++ [t]) := by
  unfold feed at h
  split at h
  · cases h
  · rename_i hresult
    have hwritten : Written read s.pending ts := by
      rcases hs with ⟨-, hwritten⟩ | ⟨-, v, hv, -⟩
      · exact hwritten
      · rw [hv] at hresult
        simp at hresult
    split at h
    · cases h
    · rename_i v hread
      obtain rfl := Option.some.inj h
      exact hasRead_plug hwritten (.leaf hread)
    · rename_i arity build hread
      have hparts : ∀ p ∈ ([] : List (α × List τ)), Encodes read p.1 p.2 := nofun
      split at h
      · rename_i harity
        obtain rfl := Option.some.inj h
        exact hasRead_plug hwritten (@Encodes.node τ α read t arity build [] hread harity.symm hparts)
      · rename_i harity
        obtain rfl := Option.some.inj h
        have hlt : ([] : List (α × List τ)).length < arity := Nat.pos_of_ne_zero harity
        exact .inl ⟨rfl, .cons hwritten hread hlt hparts⟩

/-- Any number of tokens. -/
theorem hasRead_feedAll {s s' : Reader α} {ts us : List τ} (hs : HasRead read s ts)
    (h : feedAll read s us = some s') : HasRead read s' (ts ++ us) := by
  induction us generalizing s ts with
  | nil =>
    obtain rfl := Option.some.inj h
    rwa [List.append_nil]
  | cons u us ih =>
    obtain ⟨t, ht, h⟩ := Option.bind_eq_some_iff.mp h
    have hrest := ih (hasRead_feed hs ht) h
    rwa [List.append_assoc] at hrest

/-- The reader ends with a tree exactly on the tokens of that tree. -/
theorem feedAll_eq_iff {v : α} {ts : List τ} :
    feedAll read .start ts = some ⟨[], some v⟩ ↔ Encodes read v ts := by
  constructor
  · intro h
    rcases hasRead_feedAll (.inl ⟨rfl, .nil⟩) h with ⟨hresult, -⟩ | ⟨-, w, hw, hencodes⟩
    · cases hresult
    · obtain rfl := Option.some.inj hw
      exact hencodes
  · intro h
    have hread := feedAll_encodes h [] []
    rwa [List.append_nil] at hread

/-! ### Tokens that are still to come -/

/-- How many trees the pending nodes still lack, besides the one that is being read. -/
def lacking (pending : List (Pending α)) : ℕ :=
  (pending.map fun p => p.arity - p.done.length - 1).sum

/-- Pending nodes lack a child. -/
def Lacks (s : Reader α) : Prop := ∀ p ∈ s.pending, p.done.length < p.arity

/-- How many trees a reader lacks. -/
def missing (s : Reader α) : ℕ := if s.result.isSome then 0 else lacking s.pending + 1

/-- A tree that is handed on is one less. -/
theorem missing_plug {pending : List (Pending α)} (h : ∀ p ∈ pending, p.done.length < p.arity)
    (v : α) : missing (plug v pending) = lacking pending ∧ Lacks (plug v pending) := by
  induction pending generalizing v with
  | nil => exact ⟨rfl, nofun⟩
  | cons p pending ih =>
    obtain ⟨hp, hpending⟩ := List.forall_mem_cons.mp h
    rw [plug]
    split
    · rename_i hmore
      refine ⟨?_, ?_⟩
      · simp [missing, lacking]
        omega
      · intro q hq
        rcases List.mem_cons.mp hq with rfl | hq
        · simpa using hmore
        · exact hpending q hq
    · rename_i hmore
      obtain ⟨hmissing, hlacks⟩ := ih hpending (p.build (p.done ++ [v]))
      refine ⟨?_, hlacks⟩
      rw [hmissing]
      simp [lacking]
      omega

/-- No token makes up for more than one tree. -/
theorem missing_feed {s s' : Reader α} {t : τ} (hs : Lacks s) (h : feed read s t = some s') :
    missing s ≤ missing s' + 1 ∧ Lacks s' := by
  unfold feed at h
  split at h
  · cases h
  · rename_i hresult
    have hmissing : missing s = lacking s.pending + 1 := by
      rw [missing, if_neg hresult]
    split at h
    · cases h
    · rename_i v hread
      obtain rfl := Option.some.inj h
      obtain ⟨heq, hlacks⟩ := missing_plug hs v
      exact ⟨by omega, hlacks⟩
    · rename_i arity build hread
      split at h
      · obtain rfl := Option.some.inj h
        obtain ⟨heq, hlacks⟩ := missing_plug hs (build [])
        exact ⟨by omega, hlacks⟩
      · rename_i harity
        obtain rfl := Option.some.inj h
        refine ⟨?_, ?_⟩
        · rw [hmissing]
          simp [missing, lacking]
          omega
        · intro q hq
          rcases List.mem_cons.mp hq with rfl | hq
          · exact Nat.pos_of_ne_zero harity
          · exact hs q hq

/-- A reader that ends with a tree was given at least as many tokens as it lacked trees. -/
theorem missing_le {s : Reader α} {ts : List τ} {v : α} (hs : Lacks s)
    (h : feedAll read s ts = some ⟨[], some v⟩) : missing s ≤ ts.length := by
  induction ts generalizing s with
  | nil =>
    obtain rfl := Option.some.inj h
    exact Nat.le_refl _
  | cons t ts ih =>
    obtain ⟨s', hs', h⟩ := Option.bind_eq_some_iff.mp h
    obtain ⟨hle, hlacks⟩ := missing_feed hs hs'
    have hrest := ih hlacks h
    rw [List.length_cons]
    omega

end RemoteWorkspace.Computation.Preorder
