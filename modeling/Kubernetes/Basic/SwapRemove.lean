import Mathlib.Data.List.Induction
import Mathlib.Data.List.Perm.Basic

/-!
# Removal from a slice by a swap with its last element

An element of a slice is removed by moving the last element to its position.  Up to the order
`swapRemoveFirst` is the removal of the first element that satisfies a predicate.
-/

open scoped List

namespace Kubernetes.SwapRemove

open List

variable {α : Type*}

/-- Move the last element to position `i` and drop the last position. -/
def swapRemove (items : List α) (i : ℕ) : List α :=
  match items.getLast? with
  | none => items
  | some last => (items.set i last).dropLast

def swapRemoveFirst (p : α → Bool) (items : List α) : Option (List α) :=
  (items.findIdx? p).map (swapRemove items)

theorem perm_cons_swapRemove {items : List α} {i : ℕ} (hi : i < items.length) :
    items.Perm (items[i] :: swapRemove items i) := by
  induction items using List.reverseRecOn with
  | nil => simp at hi
  | append_singleton front last _ =>
    rw [length_append, length_singleton] at hi
    rcases Nat.lt_succ_iff_lt_or_eq.mp hi with hfront | rfl
    · have hrem : swapRemove (front ++ [last]) i = front.set i last := by
        simp [swapRemove, set_append_left _ _ hfront]
      rw [hrem, getElem_append_left hfront, set_eq_take_append_cons_drop, if_pos hfront]
      calc front ++ [last]
          = front.take i ++ front[i] :: front.drop (i + 1) ++ [last] := by
            rw [getElem_cons_drop, take_append_drop]
        _ ~ front[i] :: (front.take i ++ front.drop (i + 1) ++ [last]) := by
            rw [append_assoc, append_assoc]
            exact perm_middle
        _ ~ front[i] :: (front.take i ++ last :: front.drop (i + 1)) := by
            refine List.Perm.cons _ ?_
            rw [append_assoc]
            exact List.Perm.append_left _ (perm_append_singleton _ _)
    · have hrem : swapRemove (front ++ [last]) front.length = front := by
        simp [swapRemove]
      rw [hrem, getElem_concat_length rfl]
      exact perm_append_singleton _ _

theorem swapRemoveFirst_eq_none {p : α → Bool} {items : List α} :
    swapRemoveFirst p items = none ↔ ∀ item ∈ items, p item = false := by
  rw [swapRemoveFirst, Option.map_eq_none_iff, List.findIdx?_eq_none_iff]

/-- The removed element is the first that satisfies the predicate. -/
theorem perm_of_swapRemoveFirst {p : α → Bool} {items rest : List α}
    (h : swapRemoveFirst p items = some rest) :
    ∃ item, p item = true ∧ items.Perm (item :: rest) := by
  rw [swapRemoveFirst, Option.map_eq_some_iff] at h
  obtain ⟨i, hfind, rfl⟩ := h
  rw [List.findIdx?_eq_some_iff_getElem] at hfind
  obtain ⟨hi, hitem, _⟩ := hfind
  exact ⟨items[i], hitem, perm_cons_swapRemove hi⟩

end Kubernetes.SwapRemove
