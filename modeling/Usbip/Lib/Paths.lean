import Mathlib.Data.List.Basic
import Mathlib.Tactic.Common

/-! Paths as lists: components without the separator, joined by it; the empty list is the root. -/

namespace Usbip.Lib

variable {α : Type*} (sep : α)

/-- One component: not empty, and without a separator. -/
def Plain (n : List α) : Prop := n ≠ [] ∧ sep ∉ n

instance [DecidableEq α] (n : List α) : Decidable (Plain sep n) :=
  inferInstanceAs (Decidable (_ ∧ _))

/-- A component under a directory. -/
def joinPath (dir n : List α) : List α :=
  match dir with
  | [] => n
  | _ :: _ => dir ++ sep :: n

/-- A path and what is below it. -/
def Under (q p : List α) : Prop := ∃ r, p = q ++ r ∧ (r = [] ∨ ∃ s, r = sep :: s)

variable {sep} {dir dir' n n' p q : List α}

@[simp] theorem joinPath_nil (n : List α) : joinPath sep [] n = n := rfl

theorem joinPath_of_ne_nil (h : dir ≠ []) : joinPath sep dir n = dir ++ sep :: n := by
  cases dir with
  | nil => exact absurd rfl h
  | cons a dir => rfl

/-- A path below a directory begins with what stands before the component. -/
theorem joinPath_eq_append (dir n : List α) :
    joinPath sep dir n = (if dir = [] then [] else dir ++ [sep]) ++ n := by
  cases dir with
  | nil => rfl
  | cons a dir => simp [joinPath]

theorem joinPath_ne_nil (dir : List α) (h : n ≠ []) : joinPath sep dir n ≠ [] := by
  rw [joinPath_eq_append]
  exact List.append_ne_nil_of_right_ne_nil _ h

theorem length_lt_joinPath (sep : α) (dir : List α) (h : n ≠ []) :
    dir.length < (joinPath sep dir n).length := by
  cases dir with
  | nil => exact List.length_pos_of_ne_nil h
  | cons a dir => simp [joinPath]

/-- Two components with what follows each: the components end at the same place. -/
theorem component_unique {r r' : List α} (hn : sep ∉ n) (hn' : sep ∉ n')
    (hr : r = [] ∨ ∃ s, r = sep :: s) (hr' : r' = [] ∨ ∃ s, r' = sep :: s)
    (h : n ++ r = n' ++ r') : n = n' := by
  rcases List.append_eq_append_iff.mp h with ⟨t, rfl, rfl⟩ | ⟨t, rfl, rfl⟩
  · rcases hr with ht | ⟨s, hs⟩
    · rw [(List.append_eq_nil_iff.mp ht).1, List.append_nil]
    · cases t with
      | nil => exact (List.append_nil n).symm
      | cons c t =>
        obtain ⟨rfl, -⟩ := List.cons.inj hs
        exact absurd (List.mem_append_right n List.mem_cons_self) hn'
  · rcases hr' with ht | ⟨s, hs⟩
    · rw [(List.append_eq_nil_iff.mp ht).1, List.append_nil]
    · cases t with
      | nil => exact List.append_nil n'
      | cons c t =>
        obtain ⟨rfl, -⟩ := List.cons.inj hs
        exact absurd (List.mem_append_right n' List.mem_cons_self) hn

theorem Under.refl (p : List α) : Under sep p p := ⟨[], by simp, .inl rfl⟩

theorem Under.length_le (h : Under sep q p) : q.length ≤ p.length := by
  obtain ⟨r, rfl, -⟩ := h
  simp

/-- What is below a path is below with one more component. -/
theorem Under.append (h : Under sep q p) (n : List α) : Under sep q (p ++ sep :: n) := by
  obtain ⟨r, rfl, rfl | ⟨s, rfl⟩⟩ := h
  · exact ⟨sep :: n, by simp, .inr ⟨n, rfl⟩⟩
  · exact ⟨sep :: s ++ sep :: n, by simp, .inr ⟨s ++ sep :: n, rfl⟩⟩

/-- What is below a component of a path is below the path. -/
theorem Under.of_joinPath (hq : q ≠ []) (h : Under sep (joinPath sep q n) p) : Under sep q p := by
  obtain ⟨r, rfl, -⟩ := h
  exact ⟨sep :: n ++ r, by simp [joinPath_of_ne_nil hq], .inr ⟨n ++ r, rfl⟩⟩

/-- A path is below one component of a directory at most. -/
theorem Under.unique (hn : sep ∉ n) (hn' : sep ∉ n') (h : Under sep (joinPath sep dir n) p)
    (h' : Under sep (joinPath sep dir n') p) : n = n' := by
  obtain ⟨r, rfl, hr⟩ := h
  obtain ⟨r', heq, hr'⟩ := h'
  rw [joinPath_eq_append, joinPath_eq_append, List.append_assoc, List.append_assoc] at heq
  exact component_unique hn hn' hr hr' (List.append_cancel_left heq)

theorem append_sep_injective (hn : sep ∉ n) (hn' : sep ∉ n')
    (h : dir ++ sep :: n = dir' ++ sep :: n') :
    dir = dir' ∧ n = n' := by
  rcases List.append_eq_append_iff.mp h with ⟨t, rfl, ht⟩ | ⟨t, rfl, ht⟩
  · cases t with
    | nil => exact ⟨(List.append_nil dir).symm, (List.cons.inj ht).2⟩
    | cons c t => exact absurd ((List.cons.inj ht).2 ▸ by simp) hn
  · cases t with
    | nil => exact ⟨List.append_nil dir', (List.cons.inj ht).2.symm⟩
    | cons c t => exact absurd ((List.cons.inj ht).2 ▸ by simp) hn'

/-- A path tells its last component and the directory that it is in. -/
theorem joinPath_injective (hn : sep ∉ n) (hn' : sep ∉ n')
    (h : joinPath sep dir n = joinPath sep dir' n') : dir = dir' ∧ n = n' := by
  by_cases hd : dir = [] <;> by_cases hd' : dir' = []
  · subst hd hd'
    exact ⟨rfl, h⟩
  · rw [hd, joinPath_nil, joinPath_of_ne_nil hd'] at h
    exact absurd (h ▸ by simp) hn
  · rw [hd', joinPath_nil, joinPath_of_ne_nil hd] at h
    exact absurd (h ▸ by simp) hn'
  · rw [joinPath_of_ne_nil hd, joinPath_of_ne_nil hd'] at h
    exact append_sep_injective hn hn' h

end Usbip.Lib
