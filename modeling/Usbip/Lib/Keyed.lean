import Mathlib.Data.List.Nodup
import Mathlib.Tactic.Common

/-! Lists whose items have keys: looking an item up by its key, and bringing an old list up to date
with a new one. -/

namespace Usbip.Lib

variable {α κ : Type*} [DecidableEq κ]

/-- The first item with a key. -/
def lookup (key : α → κ) (l : List α) (k : κ) : Option α := l.find? fun a => key a = k

/-- Every old item, marked with what the new list has for its key, and then the new items that the
old list has nothing for. -/
def reconcile (key : α → κ) (mark : Option α → α → α) (add : α → α) (new old : List α) : List α :=
  old.map (fun a => mark (lookup key new (key a)) a) ++
    (new.filter fun b => (lookup key old (key b)).isNone).map add

variable {key : α → κ} {l m new old : List α} {a : α} {k : κ}

theorem lookup_eq_none : lookup key l k = none ↔ k ∉ l.map key := by
  rw [lookup, List.find?_eq_none, List.mem_map]
  simp

theorem lookup_of_mem (hnodup : (l.map key).Nodup) (ha : a ∈ l) :
    lookup key l (key a) = some a := by
  induction l with
  | nil => cases ha
  | cons b l ih =>
    obtain ⟨hb, hrest⟩ := List.nodup_cons.mp hnodup
    rw [lookup, List.find?_cons]
    rcases List.mem_cons.mp ha with rfl | ha
    · rw [decide_eq_true rfl]
    · have hne : key b ≠ key a := fun h => hb (h ▸ List.mem_map_of_mem ha)
      rw [decide_eq_false hne]
      exact ih hrest ha

theorem lookup_concat_of_ne (h : key a ≠ k) : lookup key (l ++ [a]) k = lookup key l k := by
  have hnone : [a].find? (fun b => key b = k) = none := by simp [h]
  rw [lookup, List.find?_append, hnone, Option.or_none]
  rfl

/-- An item with another key does not matter. -/
theorem lookup_of_ne {b : α} (ha : key a ≠ k) (hb : key b ≠ k) :
    lookup key (l ++ a :: m) k = lookup key (l ++ b :: m) k := by
  rw [lookup, lookup, List.find?_append, List.find?_append, List.find?_cons, List.find?_cons,
    decide_eq_false ha, decide_eq_false hb]

section Reconcile

variable {mark : Option α → α → α} {add : α → α} (hmark : ∀ o a, key (mark o a) = key a)
  (hadd : ∀ a, key (add a) = key a)

include hmark hadd

theorem reconcile_keys : (reconcile key mark add new old).map key =
    old.map key ++ (new.map key).filter fun k => k ∉ old.map key := by
  rw [reconcile, List.map_append, List.map_map, List.map_map, List.filter_map]
  congr 1
  · exact List.map_congr_left fun a _ => hmark _ a
  · have hkeys : key ∘ add = key := funext hadd
    rw [hkeys]
    congr 1
    refine List.filter_congr fun b _ => ?_
    rw [Bool.eq_iff_iff, Option.isNone_iff_eq_none, lookup_eq_none]
    simp

theorem mem_reconcile_keys :
    k ∈ (reconcile key mark add new old).map key ↔ k ∈ old.map key ∨ k ∈ new.map key := by
  rw [reconcile_keys hmark hadd, List.mem_append, List.mem_filter, decide_eq_true_eq]
  constructor
  · rintro (h | h)
    · exact Or.inl h
    · exact Or.inr h.1
  · intro h
    by_cases hold : k ∈ old.map key
    · exact Or.inl hold
    · exact Or.inr ⟨h.resolve_left hold, hold⟩

theorem nodup_reconcile (hnew : (new.map key).Nodup) (hold : (old.map key).Nodup) :
    ((reconcile key mark add new old).map key).Nodup := by
  rw [reconcile_keys hmark hadd, List.nodup_append]
  refine ⟨hold, hnew.filter _, ?_⟩
  rintro k hk k' hk' rfl
  exact of_decide_eq_true (List.mem_filter.mp hk').2 hk

end Reconcile

end Usbip.Lib
