import Mathlib.Data.List.Basic
import Mathlib.Tactic.Common

/-! Writes into a buffer.  A builder writes its bytes at offsets, in any order; `Fills` says that
the writes of a builder stay in an interval and leave no gap in it. -/

namespace Usbip.Lib

structure Store where
  off : Nat
  bytes : List UInt8
  deriving DecidableEq, Repr

namespace Store

def stop (w : Store) : Nat := w.off + w.bytes.length

/-- The write through a pointer that is `n` further on. -/
def shift (n : Nat) (w : Store) : Store := ⟨n + w.off, w.bytes⟩

/-- The buffer after the write. -/
def patch (buf : List UInt8) (w : Store) : List UInt8 :=
  w.bytes.zipIdx.foldl (fun buf b => buf.set (w.off + b.2) b.1) buf

/-- The write stays in a buffer; a write of no bytes touches nothing. -/
def Inside (cap : Nat) (w : Store) : Prop := w.bytes = [] ∨ w.stop ≤ cap

instance (cap : Nat) (w : Store) : Decidable (w.Inside cap) :=
  inferInstanceAs (Decidable (_ ∨ _))

@[simp] theorem shift_off (n : Nat) (w : Store) : (w.shift n).off = n + w.off := rfl
@[simp] theorem shift_stop (n : Nat) (w : Store) : (w.shift n).stop = n + w.stop :=
  Nat.add_assoc n w.off w.bytes.length

end Store

/-- The writes stay in the interval, and each byte of it is written. -/
structure Fills (stores : List Store) (a b : Nat) : Prop where
  within : ∀ w ∈ stores, a ≤ w.off ∧ w.stop ≤ b
  covered : ∀ i, a ≤ i → i < b → ∃ w ∈ stores, w.off ≤ i ∧ i < w.stop

/-- A list of writes of which each may fail. -/
theorem mapM_eq_some_iff {α β : Type} {g : α → Option β} {h : α → β} {p : α → Prop}
    (hg : ∀ a b, g a = some b ↔ b = h a ∧ p a) {l : List α} {bs : List β} :
    l.mapM g = some bs ↔ bs = l.map h ∧ ∀ a ∈ l, p a := by
  induction l generalizing bs with
  | nil => simp [eq_comm]
  | cons a l ih =>
    rw [List.mapM_cons]
    constructor
    · intro hbs
      obtain ⟨b, hb, hbs⟩ := Option.bind_eq_some_iff.mp hbs
      obtain ⟨rest, hrest, hbs⟩ := Option.bind_eq_some_iff.mp hbs
      obtain ⟨rfl, ha⟩ := (hg a b).mp hb
      obtain ⟨rfl, hl⟩ := ih.mp hrest
      exact ⟨(Option.some.inj hbs).symm, List.forall_mem_cons.mpr ⟨ha, hl⟩⟩
    · rintro ⟨rfl, hall⟩
      obtain ⟨ha, hl⟩ := List.forall_mem_cons.mp hall
      apply Option.bind_eq_some_iff.mpr ⟨h a, (hg a _).mpr ⟨rfl, ha⟩, ?_⟩
      exact Option.bind_eq_some_iff.mpr ⟨_, ih.mpr ⟨rfl, hl⟩, rfl⟩

namespace Fills

variable {s t : List Store} {a b c n : Nat}

theorem nil (a : Nat) : Fills [] a a :=
  ⟨fun _ h => absurd h List.not_mem_nil, fun _ h h' => absurd h' (Nat.not_lt.mpr h)⟩

theorem append (hs : Fills s a b) (ht : Fills t b c) (hab : a ≤ b) (hbc : b ≤ c) :
    Fills (s ++ t) a c := by
  constructor
  · intro w h
    rcases List.mem_append.mp h with h | h
    · have := hs.within w h
      omega
    · have := ht.within w h
      omega
  · intro i hai hic
    by_cases hib : i < b
    · obtain ⟨w, hw, hi⟩ := hs.covered i hai hib
      exact ⟨w, List.mem_append_left t hw, hi⟩
    · obtain ⟨w, hw, hi⟩ := ht.covered i (Nat.not_lt.mp hib) hic
      exact ⟨w, List.mem_append_right s hw, hi⟩

theorem cons {bytes : List UInt8} (ht : Fills t (a + bytes.length) c)
    (hc : a + bytes.length ≤ c) : Fills (⟨a, bytes⟩ :: t) a c := by
  have hone : Fills [⟨a, bytes⟩] a (a + bytes.length) := by
    constructor
    · intro w h
      rw [List.mem_singleton.mp h]
      exact ⟨Nat.le_refl a, Nat.le_refl _⟩
    · intro i hi hi'
      exact ⟨_, List.mem_singleton_self _, hi, hi'⟩
  exact hone.append ht (Nat.le_add_right _ _) hc

/-- Pieces of one size, one behind the other. -/
theorem tiles {f : Nat → List Store} {size : Nat} (hf : ∀ k < n, Fills (f k) (a + k * size)
    (a + (k + 1) * size)) : Fills ((List.range n).flatMap f) a (a + n * size) := by
  induction n with
  | zero =>
    rw [Nat.zero_mul]
    exact nil a
  | succ n ih =>
    have hrest := ih fun k hk => hf k (Nat.lt_succ_of_lt hk)
    have hlast := hf n (Nat.lt_succ_self n)
    rw [List.range_succ, List.flatMap_append, List.flatMap_singleton]
    refine hrest.append hlast (Nat.le_add_right _ _) ?_
    rw [Nat.succ_mul]
    omega

theorem overwrite (hs : Fills s a b) (ht : ∀ w ∈ t, a ≤ w.off ∧ w.stop ≤ b) :
    Fills (s ++ t) a b := by
  refine ⟨fun w h => (List.mem_append.mp h).elim (hs.within w) (ht w), fun i hai hib => ?_⟩
  obtain ⟨w, hw, hi⟩ := hs.covered i hai hib
  exact ⟨w, List.mem_append_left t hw, hi⟩

theorem shift (hs : Fills s a b) (n : Nat) : Fills (s.map (Store.shift n)) (n + a) (n + b) := by
  constructor
  · intro w h
    obtain ⟨v, hv, rfl⟩ := List.mem_map.mp h
    have := hs.within v hv
    rw [Store.shift_off, Store.shift_stop]
    omega
  · intro i hai hib
    obtain ⟨w, hw, hi⟩ := hs.covered (i - n) (by omega) (by omega)
    refine ⟨w.shift n, List.mem_map_of_mem hw, ?_⟩
    rw [Store.shift_off, Store.shift_stop]
    omega

theorem perm (hs : Fills s a b) (h : s.Perm t) : Fills t a b :=
  ⟨fun w hw => hs.within w (h.mem_iff.mpr hw), fun i hai hib =>
    (hs.covered i hai hib).imp fun _ hw => ⟨h.mem_iff.mp hw.1, hw.2⟩⟩

/-- The writes stay in a buffer exactly when the buffer is large enough for the interval. -/
theorem inside_iff (hs : Fills s 0 b) (cap : Nat) : (∀ w ∈ s, w.Inside cap) ↔ b ≤ cap := by
  constructor
  · intro h
    by_contra hb
    obtain ⟨w, hw, hoff, hstop⟩ := hs.covered (b - 1) (Nat.zero_le _) (by omega)
    rcases h w hw with hnil | hin
    · rw [Store.stop, hnil, List.length_nil] at hstop
      omega
    · omega
  · intro hb w hw
    exact .inr (Nat.le_trans (hs.within w hw).2 hb)

end Fills

end Usbip.Lib
