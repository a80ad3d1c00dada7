import Mathlib.Data.List.Basic
import Mathlib.Tactic.Common

/-! A stream of items that is cut after each item that ends a group. -/

namespace Usbip.Lib

variable {α : Type*}

/-- The groups in the order of the stream, and the items after the last group. -/
def splitAfter (last : α → Bool) (items : List α) : List (List α) × List α :=
  items.foldl (fun (groups, cur) item =>
    if last item then (groups ++ [cur ++ [item]], []) else (groups, cur ++ [item])) ([], [])

theorem splitAfter_concat (last : α → Bool) (items : List α) (item : α) :
    splitAfter last (items ++ [item]) =
      if last item then
        ((splitAfter last items).1 ++ [(splitAfter last items).2 ++ [item]], [])
      else ((splitAfter last items).1, (splitAfter last items).2 ++ [item]) := by
  rw [splitAfter, List.foldl_append]
  rfl

/-- The items of the `i`th group, where the items after the last group count as one more. -/
def InGroup (last : α → Bool) (items : List α) (i : Nat) (item : α) : Prop :=
  ∃ group, ((splitAfter last items).1 ++ [(splitAfter last items).2])[i]? = some group ∧
    item ∈ group

/-- A new item is in the group after those that have ended. -/
theorem inGroup_concat {last : α → Bool} {items : List α} {item : α} {i : Nat} {x : α}
    (h : InGroup last (items ++ [item]) i x) :
    InGroup last items i x ∨ x = item ∧ i = (splitAfter last items).1.length := by
  obtain ⟨group, hget, hx⟩ := h
  rw [splitAfter_concat] at hget
  rcases Nat.lt_trichotomy i (splitAfter last items).1.length with hlt | heq | hgt
  · refine .inl ⟨group, ?_, hx⟩
    rw [List.getElem?_append_left hlt]
    split at hget <;> simpa [List.getElem?_append_left, hlt, Nat.lt_succ_of_lt hlt] using hget
  · subst heq
    have hgroup : group = (splitAfter last items).2 ++ [item] := by
      split at hget <;> simpa using hget.symm
    rw [hgroup] at hx
    rcases List.mem_append.mp hx with hx | hx
    · exact .inl ⟨_, by simp, hx⟩
    · exact .inr ⟨List.mem_singleton.mp hx, rfl⟩
  · have hnil : group = [] := by
      split at hget
      · rw [List.getElem?_append_right (by simp; omega)] at hget
        exact List.mem_singleton.mp (List.mem_of_getElem? hget)
      · rw [List.getElem?_append_right (by simp; omega)] at hget
        obtain ⟨hlt, -⟩ := List.getElem?_eq_some_iff.mp hget
        simp at hlt
        omega
    rw [hnil] at hx
    cases hx

end Usbip.Lib
