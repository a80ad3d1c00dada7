import Mathlib.Data.List.Flatten
import Mathlib.Data.List.TakeDrop
import Mathlib.Tactic.Common

/-! Frames that tell their own size, laid one after another on a stream that arrives in pieces. -/

namespace Usbip.Lib

variable {α : Type*} {size : List α → Option Nat}

/-- Whole frames off the front, and what is left. -/
def cutFrames (size : List α → Option Nat) : Nat → List α → List (List α) × List α
  | 0, s => ([], s)
  | fuel + 1, s =>
    match size s with
    | none => ([], s)
    | some n =>
      if s.length < n then ([], s)
      else
        let more := cutFrames size fuel (s.drop n)
        (s.take n :: more.1, more.2)

/-- The size is read from bytes at the front, and no frame is empty. -/
structure Framing (size : List α → Option Nat) : Prop where
  pos : ∀ {s n}, size s = some n → 0 < n
  append : ∀ {s n} (t), size s = some n → size (s ++ t) = some n

/-- A frame is as long as it says. -/
def IsFrame (size : List α → Option Nat) (f : List α) : Prop := size f = some f.length

/-- No whole frame has arrived. -/
def Unfinished (size : List α → Option Nat) (s : List α) : Prop :=
  ∀ n, size s = some n → s.length < n

/-- How much of the first `n` items lies behind the last whole frame. -/
def carried : List (List α) → Nat → Nat
  | [], n => n
  | f :: fs, n => if n < f.length then n else carried fs (n - f.length)

theorem cutFrames_unfinished {s : List α} (h : Unfinished size s) (fuel : Nat) :
    cutFrames size fuel s = ([], s) := by
  cases fuel with
  | zero => rfl
  | succ fuel =>
    rw [cutFrames]
    cases hs : size s with
    | none => rfl
    | some n => exact if_pos (h n hs)

theorem cutFrames_cons (hF : Framing size) {f : List α} (hf : IsFrame size f) (s : List α)
    (fuel : Nat) : cutFrames size (fuel + 1) (f ++ s) =
      (f :: (cutFrames size fuel s).1, (cutFrames size fuel s).2) := by
  have hlen : ¬(f ++ s).length < f.length := by
    rw [List.length_append]
    omega
  simp only [cutFrames, hF.append s hf, if_neg hlen, List.take_left, List.drop_left]

/-- Frames in a row are cut off one by one, up to the first one that is not whole. -/
theorem cutFrames_flatten (hF : Framing size) {fs : List (List α)} {tail : List α}
    (hfs : ∀ f ∈ fs, IsFrame size f) (ht : Unfinished size tail) {fuel : Nat}
    (hfuel : (fs.flatten ++ tail).length ≤ fuel) :
    cutFrames size fuel (fs.flatten ++ tail) = (fs, tail) := by
  induction fs generalizing fuel with
  | nil => exact cutFrames_unfinished ht fuel
  | cons f fs ih =>
    obtain ⟨hf, hfs⟩ := List.forall_mem_cons.mp hfs
    have hpos := hF.pos hf
    rw [List.flatten_cons, List.append_assoc] at hfuel ⊢
    rw [List.length_append] at hfuel
    obtain ⟨fuel, rfl⟩ := Nat.exists_eq_succ_of_ne_zero (show fuel ≠ 0 by omega)
    rw [cutFrames_cons hF hf, ih hfs (by omega)]

/-- Nothing is lost or added by the cutting. -/
theorem cutFrames_append (size : List α → Option Nat) (fuel : Nat) (s : List α) :
    (cutFrames size fuel s).1.flatten ++ (cutFrames size fuel s).2 = s := by
  induction fuel generalizing s with
  | zero => rfl
  | succ fuel ih =>
    rw [cutFrames]
    cases size s with
    | none => rfl
    | some n =>
      dsimp only
      split
      · rfl
      · rw [List.flatten_cons, List.append_assoc, ih, List.take_append_drop]

/-- A frame that is cut short is unfinished. -/
theorem unfinished_of_prefix (hF : Framing size) {f s : List α} (hf : IsFrame size f)
    (h : s <+: f) (hlt : s.length < f.length) : Unfinished size s := by
  intro n hn
  obtain ⟨t, rfl⟩ := h
  have := (hF.append t hn).symm.trans hf
  rwa [Option.some.inj this]

theorem carried_zero (fs : List (List α)) : carried fs 0 = 0 := by
  induction fs with
  | nil => rfl
  | cons f fs ih =>
    rw [carried, Nat.zero_sub, ih, ite_self]

theorem carried_append (fs gs : List (List α)) (n : Nat) :
    carried (fs ++ gs) (fs.flatten.length + n) = carried gs n := by
  induction fs with
  | nil => rw [List.nil_append, List.flatten_nil, List.length_nil, Nat.zero_add]
  | cons f fs ih =>
    rw [List.cons_append, List.flatten_cons, List.length_append, carried, if_neg (by omega), ← ih]
    congr 1
    omega

/-- Where a stream of frames is interrupted: behind some whole frames, within the next. -/
theorem exists_cut (hF : Framing size) {fs : List (List α)} (hfs : ∀ f ∈ fs, IsFrame size f)
    {s : List α} (h : s <+: fs.flatten) :
    ∃ done later tail, fs = done ++ later ∧ s = done.flatten ++ tail ∧ Unfinished size tail ∧
      carried fs s.length = tail.length := by
  induction fs generalizing s with
  | nil =>
    obtain rfl := List.prefix_nil.mp h
    refine ⟨[], [], [], rfl, rfl, ?_, rfl⟩
    intro n hn
    exact hF.pos hn
  | cons f fs ih =>
    obtain ⟨hf, hrest⟩ := List.forall_mem_cons.mp hfs
    by_cases hlt : s.length < f.length
    · have hsf : s <+: f :=
        List.prefix_of_prefix_length_le h (List.prefix_append f fs.flatten) (Nat.le_of_lt hlt)
      refine ⟨[], f :: fs, s, rfl, rfl, unfinished_of_prefix hF hf hsf hlt, ?_⟩
      rw [carried, if_pos hlt]
    · obtain ⟨t, rfl⟩ : f <+: s :=
        List.prefix_of_prefix_length_le (List.prefix_append f fs.flatten) h (Nat.not_lt.mp hlt)
      obtain ⟨done, later, tail, rfl, rfl, hu, hc⟩ :=
        ih hrest ((List.prefix_append_right_inj f).mp h)
      refine ⟨f :: done, later, tail, rfl, ?_, hu, ?_⟩
      · rw [List.flatten_cons, List.append_assoc]
      · rw [carried, if_neg hlt, ← hc, List.length_append, Nat.add_sub_cancel_left]

/-! ### A message in pieces -/

section
variable {σ : Type*} {f : σ → List α → σ} {holding : List α → σ} {message : List α}

theorem foldl_nils {s : σ} (h : f s [] = s) {chunks : List (List α)} (hnil : chunks.flatten = []) :
    chunks.foldl f s = s := by
  induction chunks with
  | nil => rfl
  | cons chunk chunks ih =>
    obtain ⟨rfl, hrest⟩ := List.append_eq_nil_iff.mp hnil
    rw [List.foldl_cons, h]
    exact ih hrest

/-- A receiver that holds what has come of a message, and acts when it has come to the end: however
the message is cut, it ends as if the message had come at once. -/
theorem foldl_message
    (hpart : ∀ held chunk, held ++ chunk <+: message → held ++ chunk ≠ message →
      f (holding held) chunk = holding (held ++ chunk))
    (hlast : ∀ held chunk, held ++ chunk = message → held ≠ message →
      f (holding held) chunk = f (holding []) message)
    (hend : f (f (holding []) message) [] = f (holding []) message) {held : List α}
    (hheld : held ≠ message) {chunks : List (List α)} (hcut : held ++ chunks.flatten = message) :
    chunks.foldl f (holding held) = f (holding []) message := by
  induction chunks generalizing held with
  | nil =>
    rw [List.flatten_nil, List.append_nil] at hcut
    exact absurd hcut hheld
  | cons chunk chunks ih =>
    rw [List.flatten_cons, ← List.append_assoc] at hcut
    rw [List.foldl_cons]
    by_cases hall : held ++ chunk = message
    · rw [hall, List.append_right_eq_self] at hcut
      rw [hlast held chunk hall hheld]
      exact foldl_nils hend hcut
    · rw [hpart held chunk ⟨chunks.flatten, hcut⟩ hall]
      exact ih hall hcut

end

end Usbip.Lib
