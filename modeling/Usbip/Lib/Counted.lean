import Mathlib.Data.List.Count
import Mathlib.Logic.Function.Basic
import Mathlib.Tactic.Common

/-! Objects that are counted: each has a counter of the references to it, and who gives the last one
back frees the object, at a later moment. -/

namespace Usbip.Lib

variable {α β : Type*}

/-- The counters of the objects that are allocated, the references that there are to each, and how
many are about to free it. -/
structure Counts (β : Type*) where
  counter : β → Option Int
  owned : β → Nat
  dying : β → Nat

namespace Counts

/-- An object is allocated as long as there is a reference to it, or the one who is to free it, and
its counter is the number of references. -/
structure Sound (c : Counts β) : Prop where
  counter : ∀ x, c.counter x =
    if c.owned x = 0 ∧ c.dying x = 0 then none else some (c.owned x : Int)
  dying : ∀ x, c.dying x = 0 ∨ c.owned x = 0 ∧ c.dying x = 1

/-- What may be done to the counters: nothing, one more reference, one less, the end of an object
that nobody refers to, and the end of objects with one reference each together with these. -/
inductive Step [DecidableEq β] (c c' : Counts β) : Prop
  | keep (counter : c'.counter = c.counter) (owned : ∀ x, c'.owned x = c.owned x)
    (dying : ∀ x, c'.dying x = c.dying x)
  | take (d : β) (alive : c.dying d = 0)
    (counter : c'.counter = Function.update c.counter d (some (c.owned d + 1)))
    (owned : ∀ x, c'.owned x = c.owned x + if x = d then 1 else 0)
    (dying : ∀ x, c'.dying x = c.dying x)
  | give (d : β) (positive : 0 < c.owned d)
    (counter : c'.counter = Function.update c.counter d (some (c.owned d - 1)))
    (owned : ∀ x, c'.owned x + (if x = d then 1 else 0) = c.owned x)
    (dying : ∀ x, c'.dying x = c.dying x + if x = d ∧ c.owned d = 1 then 1 else 0)
  | free (d : β) (last : c.dying d = 1) (counter : c'.counter = Function.update c.counter d none)
    (owned : ∀ x, c'.owned x = c.owned x)
    (dying : ∀ x, c'.dying x + (if x = d then 1 else 0) = c.dying x)
  | drop (l : List β) (single : ∀ x ∈ l, c.owned x = 1)
    (counter : ∀ x, c'.counter x = if x ∈ l then none else c.counter x)
    (owned : ∀ x, c'.owned x = if x ∈ l then 0 else c.owned x)
    (dying : ∀ x, c'.dying x = c.dying x)

variable {c c' : Counts β}

/-- The reading of a counter of an object that somebody refers to. -/
theorem Sound.counter_of_owned (h : c.Sound) {x : β} (hx : c.owned x ≠ 0) :
    c.counter x = some (c.owned x : Int) ∧ c.dying x = 0 := by
  have hdying := h.dying x
  rw [h.counter x, if_neg fun hnone => hx hnone.1]
  exact ⟨rfl, by omega⟩

theorem Sound.counter_of_dying (h : c.Sound) {x : β} (hx : c.dying x ≠ 0) :
    c.counter x = some 0 ∧ c.owned x = 0 ∧ c.dying x = 1 := by
  have hdying := h.dying x
  have howned : c.owned x = 0 := by omega
  rw [h.counter x, if_neg fun hnone => hx hnone.2, howned]
  exact ⟨rfl, rfl, by omega⟩

theorem Sound.of_counter_none (h : c.Sound) {x : β} (hx : c.counter x = none) :
    c.owned x = 0 ∧ c.dying x = 0 := by
  rw [h.counter x] at hx
  split at hx
  · assumption
  · cases hx

theorem Sound.step [DecidableEq β] (h : c.Sound) (hstep : c.Step c') : c'.Sound := by
  cases hstep with
  | keep counter owned dying =>
    exact ⟨fun x => by rw [counter, owned, dying, h.counter], fun x => by
      rw [owned, dying]
      exact h.dying x⟩
  | take d alive counter owned dying =>
    refine ⟨fun x => ?_, fun x => ?_⟩
    · rw [counter, owned, dying]
      by_cases hx : x = d
      · subst hx
        simp
      · simpa [Function.update_of_ne hx, hx] using h.counter x
    · have := h.dying x
      rw [owned, dying]
      split
      · rename_i hx
        subst hx
        omega
      · omega
  | give d positive counter owned dying =>
    have halive := (h.counter_of_owned (Nat.ne_of_gt positive)).2
    refine ⟨fun x => ?_, fun x => ?_⟩
    · have hx := owned x
      rw [counter, dying]
      by_cases hd : x = d
      · subst hd
        rw [if_pos rfl] at hx
        rw [Function.update_self, halive, ← hx]
        have hsub : ((c'.owned x + 1 : Nat) : Int) - 1 = c'.owned x := by omega
        rw [hsub]
        by_cases hlast : c'.owned x = 0
        · simp [hlast]
        · simp [hlast]
      · rw [if_neg hd, Nat.add_zero] at hx
        simpa [Function.update_of_ne hd, hd, hx] using h.counter x
    · have hx := owned x
      have := h.dying x
      rw [dying]
      by_cases hd : x = d
      · subst hd
        rw [if_pos rfl] at hx
        split
        · omega
        · omega
      · rw [if_neg hd] at hx
        rw [if_neg fun hboth => hd hboth.1]
        omega
  | free d last counter owned dying =>
    have hlast := h.counter_of_dying (x := d) (by omega)
    refine ⟨fun x => ?_, fun x => ?_⟩
    · have hx := dying x
      rw [counter, owned]
      by_cases hd : x = d
      · subst hd
        rw [if_pos rfl] at hx
        rw [Function.update_self, if_pos ⟨hlast.2.1, by omega⟩]
      · rw [if_neg hd, Nat.add_zero] at hx
        rw [Function.update_of_ne hd, hx, h.counter]
    · have hx := dying x
      have := h.dying x
      rw [owned]
      split at hx <;> omega
  | drop l single counter owned dying =>
    refine ⟨fun x => ?_, fun x => ?_⟩
    · have := h.dying x
      rw [counter, owned, dying]
      split
      · have := single x (by assumption)
        rw [if_pos ⟨rfl, by omega⟩]
      · exact h.counter x
    · have := h.dying x
      rw [owned, dying]
      split <;> omega

end Counts

/-! ### Who holds what -/

section

variable [DecidableEq β]

/-- How often the holders have `b` together. -/
def tally (holds : α → List β) (l : List α) (b : β) : Nat := (l.flatMap holds).count b

variable (holds : α → List β) {l : List α} {a : α} {i : Nat}

theorem tally_concat (a : α) (b : β) :
    tally holds (l ++ [a]) b = tally holds l b + (holds a).count b := by
  simp [tally]

/-- One holder changes what it has. -/
theorem tally_set (h : l[i]? = some a) (a' : α) (b : β) :
    tally holds (l.set i a') b + (holds a).count b = tally holds l b + (holds a').count b := by
  induction l generalizing i with
  | nil => simp at h
  | cons x l ih =>
    cases i with
    | zero =>
      cases h
      simp only [tally, List.set_cons_zero, List.flatMap_cons, List.count_append]
      omega
    | succ i =>
      have := ih h
      simp only [tally, List.set_cons_succ, List.flatMap_cons, List.count_append] at this ⊢
      omega

theorem count_le_tally (h : l[i]? = some a) (b : β) : (holds a).count b ≤ tally holds l b := by
  induction l generalizing i with
  | nil => simp at h
  | cons x l ih =>
    simp only [tally, List.flatMap_cons, List.count_append]
    cases i with
    | zero =>
      cases h
      omega
    | succ i =>
      have := ih h
      simp only [tally] at this
      omega

/-- Two holders have no more than all. -/
theorem add_count_le_tally {j : Nat} {a' : α} (h : l[i]? = some a) (h' : l[j]? = some a')
    (hne : i ≠ j) (b : β) : (holds a).count b + (holds a').count b ≤ tally holds l b := by
  induction l generalizing i j with
  | nil => simp at h
  | cons x l ih =>
    simp only [tally, List.flatMap_cons, List.count_append]
    cases i with
    | zero =>
      cases h
      cases j with
      | zero => exact absurd rfl hne
      | succ j =>
        have := count_le_tally holds (l := l) (i := j) h' b
        simp only [tally] at this
        omega
    | succ i =>
      cases j with
      | zero =>
        cases h'
        have := count_le_tally holds (l := l) (i := i) h b
        simp only [tally] at this
        omega
      | succ j =>
        have := ih h h' (by omega)
        simp only [tally] at this
        omega

end

end Usbip.Lib
