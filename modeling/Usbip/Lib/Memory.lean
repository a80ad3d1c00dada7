import Mathlib.Data.List.GetD
import Mathlib.Data.List.Pairwise
import Usbip.Lib.Buffer

/-! What a memory holds after some writes.  A builder that fills an interval, in any order of its
writes, leaves one string of bytes there, whatever was there before. -/

namespace Usbip.Lib

variable {s t : List Store} {a n : Nat} {x y : List UInt8} {c : Nat → UInt8}

/-- One write to a memory. -/
def Store.put (c : Nat → UInt8) (w : Store) : Nat → UInt8 := fun i =>
  if w.off ≤ i ∧ i < w.stop then w.bytes.getD (i - w.off) 0 else c i

/-- The writes of a builder, in order. -/
def putAll (stores : List Store) (c : Nat → UInt8) : Nat → UInt8 := stores.foldl Store.put c

/-- The first `n` bytes of a memory. -/
def readout (c : Nat → UInt8) (n : Nat) : List UInt8 := (List.range n).map c

/-- The writes leave `image` at offset `a`, and nothing else. -/
def Writes (stores : List Store) (a : Nat) (image : List UInt8) : Prop :=
  ∀ c, putAll stores c = Store.put c ⟨a, image⟩

/-- Two writes touch no byte in common. -/
def Store.Apart (w v : Store) : Prop := w.stop ≤ v.off ∨ v.stop ≤ w.off

instance : Std.Symm Store.Apart := ⟨fun _ _ => Or.symm⟩

theorem put_apply (c : Nat → UInt8) (a : Nat) (x : List UInt8) (i : Nat) :
    Store.put c ⟨a, x⟩ i = if a ≤ i ∧ i < a + x.length then x.getD (i - a) 0 else c i := rfl

theorem putAll_append (s t : List Store) (c : Nat → UInt8) :
    putAll (s ++ t) c = putAll t (putAll s c) := List.foldl_append

theorem put_nil (a : Nat) : Store.put c ⟨a, []⟩ = c := by
  funext i
  rw [Store.put, if_neg (by simp only [Store.stop, List.length_nil]; omega)]

theorem put_append (a : Nat) (x y : List UInt8) (c : Nat → UInt8) :
    Store.put (Store.put c ⟨a, x⟩) ⟨a + x.length, y⟩ = Store.put c ⟨a, x ++ y⟩ := by
  funext i
  simp only [put_apply, List.length_append]
  by_cases hy : a + x.length ≤ i ∧ i < a + x.length + y.length
  · rw [if_pos hy, if_pos (by omega), List.getD_append_right _ _ _ _ (by omega), Nat.sub_add_eq]
  · rw [if_neg hy]
    by_cases hx : a ≤ i ∧ i < a + x.length
    · rw [if_pos hx, if_pos (by omega), List.getD_append _ _ _ _ (by omega)]
    · rw [if_neg hx, if_neg (by omega)]

/-- A write inside what has just been written. -/
theorem put_over {k : Nat} (h : k + y.length ≤ x.length) (a : Nat) (c : Nat → UInt8) :
    Store.put (Store.put c ⟨a, x⟩) ⟨a + k, y⟩ =
      Store.put c ⟨a, x.take k ++ y ++ x.drop (k + y.length)⟩ := by
  have hk : (x.take k).length = k := List.length_take_of_le (by omega)
  have hdrop : (x.drop (k + y.length)).length = x.length - (k + y.length) := List.length_drop
  funext i
  simp only [put_apply, List.length_append, hk, hdrop]
  by_cases hy : a + k ≤ i ∧ i < a + k + y.length
  · rw [if_pos hy, if_pos (by omega), List.getD_append _ _ _ _ (by simp [hk]; omega),
      List.getD_append_right _ _ _ _ (by omega), hk]
    congr 1
    omega
  · rw [if_neg hy]
    by_cases hx : a ≤ i ∧ i < a + x.length
    · rw [if_pos hx, if_pos (by omega)]
      by_cases hlt : i < a + k
      · rw [List.getD_append _ _ _ _ (by simp [hk]; omega), List.getD_append _ _ _ _ (by omega),
          List.getD_eq_getElem?_getD, List.getD_eq_getElem?_getD,
          List.getElem?_take_of_lt (by omega)]
      · rw [List.getD_append_right _ _ _ _ (by simp [hk]; omega), List.length_append, hk,
          List.getD_eq_getElem?_getD, List.getD_eq_getElem?_getD, List.getElem?_drop]
        congr 2
        omega
    · rw [if_neg hx, if_neg (by omega)]

theorem put_comm {w v : Store} (h : w.Apart v) (c : Nat → UInt8) :
    Store.put (Store.put c w) v = Store.put (Store.put c v) w := by
  funext i
  simp only [Store.put]
  rcases h with h | h <;> by_cases hw : w.off ≤ i ∧ i < w.stop <;>
    by_cases hv : v.off ≤ i ∧ i < v.stop <;> simp only [hw, hv, if_true, if_false, and_self] <;>
    omega

namespace Writes

theorem nil (a : Nat) : Writes [] a [] := fun _ => (put_nil a).symm

theorem append (hs : Writes s a x) (ht : Writes t (a + x.length) y) : Writes (s ++ t) a (x ++ y) := by
  intro c
  rw [putAll_append, hs, ht, put_append]

theorem cons (bytes : List UInt8) (ht : Writes t (a + bytes.length) y) :
    Writes (⟨a, bytes⟩ :: t) a (bytes ++ y) :=
  append (s := [⟨a, bytes⟩]) (fun _ => rfl) ht

theorem single (a : Nat) (bytes : List UInt8) : Writes [⟨a, bytes⟩] a bytes := fun _ => rfl

theorem inside {k : Nat} (hs : Writes s a x) (ht : Writes t (a + k) y)
    (h : k + y.length ≤ x.length) :
    Writes (s ++ t) a (x.take k ++ y ++ x.drop (k + y.length)) := by
  intro c
  rw [putAll_append, hs, ht, put_over h]

/-- A header that is written behind the body. -/
theorem append_comm (hs : Writes s a x) (ht : Writes t (a + x.length) y) :
    Writes (t ++ s) a (x ++ y) := by
  intro c
  have hapart : (⟨a + x.length, y⟩ : Store).Apart ⟨a, x⟩ := .inr (Nat.le_refl _)
  rw [putAll_append, ht, hs, put_comm hapart, put_append]

/-- Writes that touch no byte in common may be done in any order. -/
theorem perm (hs : Writes s a x) (h : s.Perm t) (hapart : s.Pairwise Store.Apart) :
    Writes t a x := by
  intro c
  have hcomm : ∀ w ∈ s, ∀ v ∈ s, ∀ c, Store.put (Store.put c w) v = Store.put (Store.put c v) w :=
    fun w hw v hv c => by
      rcases eq_or_ne w v with rfl | hne
      · rfl
      · exact put_comm (hapart.forall hw hv hne) c
  rw [← hs c]
  exact (h.foldl_eq' hcomm c).symm

theorem shift (hs : Writes s a x) (n : Nat) : Writes (s.map (Store.shift n)) (n + a) x := by
  have hput : ∀ (c : Nat → UInt8) (w : Store),
      (fun i => Store.put c (w.shift n) (n + i)) = Store.put (fun i => c (n + i)) w := by
    intro c w
    funext i
    simp only [Store.put, Store.shift_off, Store.shift_stop, Nat.add_le_add_iff_left,
      Nat.add_lt_add_iff_left, Nat.add_sub_add_left]
    rfl
  have hbelow : ∀ (c : Nat → UInt8) (w : Store) i, i < n → Store.put c (w.shift n) i = c i := by
    intro c w i hi
    rw [Store.put, if_neg (by rw [Store.shift_off]; omega)]
  have hall : ∀ (s : List Store) (c : Nat → UInt8),
      (∀ i, i < n → putAll (s.map (Store.shift n)) c i = c i) ∧
      (fun i => putAll (s.map (Store.shift n)) c (n + i)) = putAll s (fun i => c (n + i)) := by
    intro s
    induction s with
    | nil => exact fun c => ⟨fun _ _ => rfl, rfl⟩
    | cons w s ih =>
      intro c
      obtain ⟨hlow, hhigh⟩ := ih (Store.put c (w.shift n))
      refine ⟨fun i hi => (hlow i hi).trans (hbelow c w i hi), ?_⟩
      rw [hput] at hhigh
      exact hhigh
  intro c
  obtain ⟨hlow, hhigh⟩ := hall s c
  funext i
  rcases Nat.lt_or_ge i n with hi | hi
  · rw [hlow i hi]
    exact (hbelow c ⟨a, x⟩ i hi).symm
  · obtain ⟨k, rfl⟩ := Nat.exists_eq_add_of_le hi
    have := congrFun hhigh k
    rw [hs] at this
    exact this.trans (congrFun (hput c ⟨a, x⟩) k).symm

theorem readout_eq (hs : Writes s 0 x) (c : Nat → UInt8) : readout (putAll s c) x.length = x := by
  rw [hs c]
  refine List.ext_getElem (by simp [readout]) fun i hi hx => ?_
  simp only [readout, List.getElem_map, List.getElem_range, put_apply, Nat.zero_add]
  rw [if_pos ⟨Nat.zero_le i, hx⟩, Nat.sub_zero, List.getD_eq_getElem _ _ hx]

end Writes

/-! ### Writes that overlap -/

/-- Where both write, they write the same. -/
def Store.Agree (w v : Store) : Prop :=
  ∀ i j (hi : i < w.bytes.length) (hj : j < v.bytes.length), w.off + i = v.off + j →
    w.bytes[i] = v.bytes[j]

/-- The memory holds what the write has put there. -/
def Store.Held (c : Nat → UInt8) (w : Store) : Prop :=
  ∀ i (hi : i < w.bytes.length), c (w.off + i) = w.bytes[i]

theorem put_held (c : Nat → UInt8) (w : Store) : w.Held (Store.put c w) := by
  intro i hi
  rw [Store.put, if_pos ⟨Nat.le_add_right _ _, Nat.add_lt_add_left hi _⟩, Nat.add_sub_cancel_left,
    List.getD_eq_getElem _ _ hi]

theorem putAll_outside {x : Nat} (h : ∀ w ∈ s, ¬(w.off ≤ x ∧ x < w.stop)) (c : Nat → UInt8) :
    putAll s c x = c x := by
  induction s generalizing c with
  | nil => rfl
  | cons w s ih =>
    obtain ⟨hw, hs⟩ := List.forall_mem_cons.mp h
    exact (ih hs _).trans (if_neg hw)

end Usbip.Lib
