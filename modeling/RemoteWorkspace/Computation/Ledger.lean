import Mathlib.Tactic.Common

/-!
# The books of a channel

Items are put into a channel and come out of it in the same order; on the way some may be
thrown away. A `Ledger` holds what was put in, what came out, what was thrown away and what
is still on the way. Its books balance when what came out and what is on the way are in the
order of what was put in, and every item is in one of the three places; then everything came
out exactly when nothing was thrown away and nothing is on the way.
-/

set_option autoImplicit false

namespace RemoteWorkspace.Computation

/-- What was put into a channel, came out of it, was thrown away, and is on the way, the
first to come out in front. -/
structure Ledger (α : Type) where
  sent : List α
  arrived : List α
  dropped : List α
  onWay : List α

namespace Ledger

variable {α : Type}

/-- The order of the items is kept, and none of them is missing from the books. -/
structure Balanced (l : Ledger α) : Prop where
  order : (l.arrived ++ l.onWay).Sublist l.sent
  count : l.arrived.length + l.onWay.length + l.dropped.length = l.sent.length

/-- Nothing was thrown away and nothing is on the way. -/
def Settled (l : Ledger α) : Prop := l.dropped = [] ∧ l.onWay = []

/-- The books of a new channel. -/
theorem balanced_empty : Balanced (⟨[], [], [], []⟩ : Ledger α) := ⟨List.nil_sublist _, rfl⟩

/-- What is put in goes to the end of what is on the way. -/
theorem Balanced.send {sent arrived dropped onWay : List α}
    (h : Balanced ⟨sent, arrived, dropped, onWay⟩) (items : List α) :
    Balanced ⟨sent ++ items, arrived, dropped, onWay ++ items⟩ := by
  refine ⟨?_, ?_⟩
  · show (arrived ++ (onWay ++ items)).Sublist (sent ++ items)
    rw [← List.append_assoc]
    exact List.Sublist.append h.order (List.Sublist.refl items)
  · have hcount : arrived.length + onWay.length + dropped.length = sent.length := h.count
    simp only [List.length_append]
    omega

/-- The first items on the way come out. -/
theorem Balanced.arrive {sent arrived dropped items rest : List α}
    (h : Balanced ⟨sent, arrived, dropped, items ++ rest⟩) :
    Balanced ⟨sent, arrived ++ items, dropped, rest⟩ := by
  refine ⟨?_, ?_⟩
  · show (arrived ++ items ++ rest).Sublist sent
    rw [List.append_assoc]
    exact h.order
  · have hcount : arrived.length + (items ++ rest).length + dropped.length = sent.length :=
      h.count
    simp only [List.length_append] at hcount ⊢
    omega

/-- Items on the way are thrown away. -/
theorem Balanced.drop {sent arrived dropped before items rest : List α}
    (h : Balanced ⟨sent, arrived, dropped, before ++ items ++ rest⟩) :
    Balanced ⟨sent, arrived, dropped ++ items, before ++ rest⟩ := by
  refine ⟨?_, ?_⟩
  · have hsub : (before ++ rest).Sublist (before ++ items ++ rest) := by
      rw [List.append_assoc]
      exact List.Sublist.append (List.Sublist.refl _) (List.sublist_append_right _ _)
    exact (List.Sublist.append (List.Sublist.refl arrived) hsub).trans h.order
  · have hcount : arrived.length + (before ++ items ++ rest).length + dropped.length =
        sent.length := h.count
    simp only [List.length_append] at hcount ⊢
    omega

/-- Two channels in a row, the second fed with what comes out of the first. -/
theorem Balanced.trans {sent middle arrived dropped dropped' onWay onWay' : List α}
    (h : Balanced ⟨sent, middle, dropped, onWay⟩)
    (h' : Balanced ⟨middle, arrived, dropped', onWay'⟩) :
    Balanced ⟨sent, arrived, dropped ++ dropped', onWay' ++ onWay⟩ := by
  refine ⟨?_, ?_⟩
  · show (arrived ++ (onWay' ++ onWay)).Sublist sent
    rw [← List.append_assoc]
    exact (List.Sublist.append h'.order (List.Sublist.refl onWay)).trans h.order
  · have hcount : middle.length + onWay.length + dropped.length = sent.length := h.count
    have hcount' : arrived.length + onWay'.length + dropped'.length = middle.length := h'.count
    simp only [List.length_append]
    omega

/-- Everything came out exactly when nothing was thrown away and nothing is on the way. -/
theorem Balanced.arrived_eq_sent_iff {l : Ledger α} (h : l.Balanced) :
    l.arrived = l.sent ↔ l.Settled := by
  constructor
  · intro heq
    have hcount := h.count
    rw [heq] at hcount
    refine ⟨List.length_eq_zero_iff.mp ?_, List.length_eq_zero_iff.mp ?_⟩ <;> omega
  · rintro ⟨hdropped, honWay⟩
    have horder := h.order
    have hcount := h.count
    rw [honWay, List.append_nil] at horder
    rw [hdropped, honWay] at hcount
    exact horder.eq_of_length hcount

end Ledger

end RemoteWorkspace.Computation
