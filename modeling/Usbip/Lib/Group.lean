import Mathlib.Data.List.Induction
import Mathlib.Data.List.Perm.Basic
import Mathlib.Tactic.Common

/-! Items grouped by a key, the groups in the order in which the keys first appear, and the items of
a group in their own order. -/

namespace Usbip.Lib

variable {α β κ : Type*} [DecidableEq κ] {key : α → κ} {l : List α}

def groups (key : α → κ) (l : List α) : List (List α) :=
  (l.map key).eraseDups.map fun k => l.filter fun a => key a = k

theorem eraseDups_concat (ks : List κ) (k : κ) :
    (ks ++ [k]).eraseDups = if k ∈ ks then ks.eraseDups else ks.eraseDups ++ [k] := by
  rw [List.eraseDups_append]
  by_cases hk : k ∈ ks
  · rw [if_pos hk]
    simp [List.removeAll, hk]
  · rw [if_neg hk]
    simp [List.removeAll, hk, List.eraseDups_cons]

theorem nodup_eraseDups (ks : List κ) : ks.eraseDups.Nodup := by
  induction ks using List.reverseRecOn with
  | nil => exact List.nodup_nil
  | append_singleton ks k ih =>
    rw [eraseDups_concat]
    split
    · exact ih
    · rename_i hk
      apply (List.perm_append_singleton k ks.eraseDups).nodup_iff.mpr
      exact List.nodup_cons.mpr ⟨fun h => hk (List.mem_eraseDups.mp h), ih⟩

theorem groups_map (f : β → α) (l : List β) :
    groups key (l.map f) = (groups (fun b => key (f b)) l).map (List.map f) := by
  rw [groups, groups, List.map_map, List.map_map]
  refine List.map_congr_left fun k _ => ?_
  exact List.filter_map

/-- One after the other the items with different keys are all the items with these keys. -/
theorem flatMap_filter_perm {ks : List κ} (hks : ks.Nodup) (hall : ∀ a ∈ l, key a ∈ ks) :
    (ks.flatMap fun k => l.filter fun a => key a = k).Perm l := by
  induction ks generalizing l with
  | nil =>
    have hnil : l = [] := List.eq_nil_iff_forall_not_mem.mpr fun a ha => by cases hall a ha
    rw [hnil]
    exact List.Perm.refl _
  | cons k ks ih =>
    obtain ⟨hk, hks⟩ := List.nodup_cons.mp hks
    have hothers : (ks.flatMap fun k' => l.filter fun a => key a = k') =
        ks.flatMap fun k' => (l.filter fun a => !decide (key a = k)).filter fun a => key a = k' := by
      refine List.flatMap_congr fun k' hk' => ?_
      have hne : k' ≠ k := fun h => hk (h ▸ hk')
      rw [List.filter_filter]
      refine List.filter_congr fun a _ => ?_
      by_cases h : key a = k'
      · simp [h, hne]
      · simp [h]
    have hrest := ih (l := l.filter fun a => !decide (key a = k)) hks fun a ha => by
      obtain ⟨hmem, hne⟩ := List.mem_filter.mp ha
      exact (List.mem_cons.mp (hall a hmem)).resolve_left (by simpa using hne)
    rw [List.flatMap_cons, hothers]
    exact (hrest.append_left _).trans (List.filter_append_perm (fun a => decide (key a = k)) l)

/-- Each item is in one group, once for each time it is in the list. -/
theorem groups_perm (key : α → κ) (l : List α) : (groups key l).flatten.Perm l :=
  flatMap_filter_perm (nodup_eraseDups _) fun _ ha => List.mem_eraseDups.mpr (List.mem_map_of_mem ha)

end Usbip.Lib
