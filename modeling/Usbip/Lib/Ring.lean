import Mathlib.Data.List.Basic
import Mathlib.Tactic.Common

/-! Ring buffers: an array, the index of the first entry and the number of entries.
`RingBuffer.Holds` says which list a ring stands for, and the rules say what a push and a pop do to
that list. -/

namespace Usbip.Lib

variable {α : Type*}

structure RingBuffer (α : Type*) where
  cells : List α
  head : Nat
  count : Nat
  deriving DecidableEq, Repr

namespace RingBuffer

/-- Writes behind the last entry; whether there is room is left to the caller. -/
def push (ring : RingBuffer α) (capacity : Nat) (value : α) : RingBuffer α :=
  { ring with
    cells := ring.cells.set ((ring.head + ring.count) % capacity) value
    count := ring.count + 1 }

/-- Reads the first entry; whether there is one is left to the caller. -/
def pop (ring : RingBuffer α) (capacity : Nat) : Option (α × RingBuffer α) :=
  ring.cells[ring.head]?.map fun value =>
    (value, { ring with head := (ring.head + 1) % capacity, count := ring.count - 1 })

/-- The entries, the first one first. -/
def toList (ring : RingBuffer α) (capacity : Nat) : List α :=
  (List.range ring.count).filterMap fun i => ring.cells[(ring.head + i) % capacity]?

structure Holds (ring : RingBuffer α) (capacity : Nat) (l : List α) : Prop where
  length : ring.cells.length = capacity
  head_lt : ring.head < capacity
  count : ring.count = l.length
  le : l.length ≤ capacity
  get : ∀ (i : Nat) (a : α), l[i]? = some a → ring.cells[(ring.head + i) % capacity]? = some a

variable {ring : RingBuffer α} {capacity : Nat} {l : List α}

/-- A full ring whose first entry is at the start of the array. -/
theorem Holds.full (cells : List α) (hne : 0 < cells.length) :
    Holds ⟨cells, 0, cells.length⟩ cells.length cells where
  length := rfl
  head_lt := hne
  count := rfl
  le := Nat.le_refl _
  get i a ha := by
    have hi : i < cells.length := (List.getElem?_eq_some_iff.mp ha).1
    rw [Nat.zero_add, Nat.mod_eq_of_lt hi]
    exact ha

theorem Holds.empty {cells : List α} (hne : 0 < cells.length) :
    Holds ⟨cells, 0, 0⟩ cells.length [] where
  length := rfl
  head_lt := hne
  count := rfl
  le := Nat.zero_le _
  get i a ha := by simp at ha

theorem Holds.toList (h : ring.Holds capacity l) : ring.toList capacity = l := by
  have hget : ∀ n ≤ l.length,
      ((List.range n).filterMap fun i => ring.cells[(ring.head + i) % capacity]?) = l.take n := by
    intro n
    induction n with
    | zero => intro _; rfl
    | succ n ih =>
      intro hn
      have hlt : n < l.length := hn
      rw [List.range_succ, List.filterMap_append, ih (Nat.le_of_lt hlt), List.filterMap_cons,
        h.get n l[n] (List.getElem?_eq_getElem hlt), List.filterMap_nil, List.take_add_one,
        List.getElem?_eq_getElem hlt]
      rfl
  rw [RingBuffer.toList, h.count, hget l.length (Nat.le_refl _), List.take_length]

/-- Two entries of a ring that is not longer than its array have different places. -/
theorem index_ne {head i j capacity : Nat} (hij : i < j) (hj : j < capacity) :
    (head + i) % capacity ≠ (head + j) % capacity := by
  intro heq
  have hdvd : capacity ∣ head + j - (head + i) :=
    Nat.dvd_of_mod_eq_zero (Nat.sub_mod_eq_zero_of_mod_eq heq.symm)
  have hzero := Nat.eq_zero_of_dvd_of_lt hdvd (by omega)
  omega

theorem Holds.push (h : ring.Holds capacity l) (hroom : l.length < capacity) (value : α) :
    (ring.push capacity value).Holds capacity (l ++ [value]) where
  length := by rw [RingBuffer.push, List.length_set, h.length]
  head_lt := h.head_lt
  count := by rw [RingBuffer.push, h.count, List.length_append, List.length_singleton]
  le := by
    rw [List.length_append, List.length_singleton]
    exact hroom
  get i a ha := by
    simp only [RingBuffer.push, h.count]
    rcases Nat.lt_or_ge i l.length with hi | hi
    · rw [List.getElem?_append_left hi] at ha
      rw [List.getElem?_set_ne (index_ne hi hroom).symm]
      exact h.get i a ha
    · rw [List.getElem?_append_right hi] at ha
      obtain ⟨hlen, rfl⟩ := List.getElem?_eq_some_iff.mp ha
      rw [List.length_singleton] at hlen
      obtain rfl : i = l.length := by omega
      have hlt : (ring.head + l.length) % capacity < ring.cells.length := by
        rw [h.length]
        exact Nat.mod_lt _ (by omega)
      rw [List.getElem?_set_self hlt]
      simp

theorem Holds.pop {a : α} (h : ring.Holds capacity (a :: l)) :
    ∃ ring', ring.pop capacity = some (a, ring') ∧ ring'.Holds capacity l := by
  have hcount := h.count
  have hle := h.le
  rw [List.length_cons] at hcount hle
  have hfirst : ring.cells[ring.head]? = some a := by
    have := h.get 0 a rfl
    rwa [Nat.add_zero, Nat.mod_eq_of_lt h.head_lt] at this
  refine ⟨_, by rw [RingBuffer.pop, hfirst, Option.map_some], ?_⟩
  refine ⟨h.length, Nat.mod_lt _ (by omega), ?_, by omega, fun i b hb => ?_⟩
  · rw [hcount, Nat.add_sub_cancel]
  · have := h.get (i + 1) b hb
    rw [Nat.mod_add_mod, show ring.head + 1 + i = ring.head + (i + 1) by omega]
    exact this

end RingBuffer

end Usbip.Lib
