import Mathlib.Algebra.Order.Ring.Int
import Mathlib.Data.List.TakeDrop
import Mathlib.Tactic.Common

/-! Bytes on a stream: big-endian words and what a reader takes from the front. -/

namespace Usbip.Lib

/-- The big-endian bytes of a word. -/
def be16 (w : UInt16) : List UInt8 := [(w >>> 8).toUInt8, w.toUInt8]

def be32 (w : UInt32) : List UInt8 :=
  [(w >>> 24).toUInt8, (w >>> 16).toUInt8, (w >>> 8).toUInt8, w.toUInt8]

/-- The word at the front. -/
def getBe16 : List UInt8 → UInt16
  | a :: b :: _ => UInt16.ofNat (a.toNat * 256 + b.toNat)
  | _ => 0

def getBe32 : List UInt8 → UInt32
  | a :: b :: c :: d :: _ =>
    UInt32.ofNat (a.toNat * 2 ^ 24 + b.toNat * 2 ^ 16 + c.toNat * 2 ^ 8 + d.toNat)
  | _ => 0

/-- The little-endian word at the front. -/
def getLe32 : List UInt8 → UInt32
  | a :: b :: c :: d :: _ =>
    UInt32.ofNat (a.toNat + b.toNat * 2 ^ 8 + c.toNat * 2 ^ 16 + d.toNat * 2 ^ 24)
  | _ => 0

def getLe16 : List UInt8 → UInt16
  | a :: b :: _ => UInt16.ofNat (a.toNat + b.toNat * 256)
  | _ => 0

/-- `n` bytes from the front of what has arrived, and the rest; `none` when the stream ends before
that. -/
def readn (n : Nat) (s : List UInt8) : Option (List UInt8 × List UInt8) :=
  if s.length < n then none else some (s.take n, s.drop n)

@[simp] theorem be16_length (w : UInt16) : (be16 w).length = 2 := rfl
@[simp] theorem be32_length (w : UInt32) : (be32 w).length = 4 := rfl

@[simp] theorem getBe16_be16 (w : UInt16) (s : List UInt8) : getBe16 (be16 w ++ s) = w := by
  apply UInt16.toNat_inj.mp
  have := w.toNat_lt
  simp only [be16, List.cons_append, getBe16, UInt16.toNat_ofNat', UInt16.toNat_toUInt8,
    UInt16.toNat_shiftRight, UInt16.toNat_ofNat, Nat.shiftRight_eq_div_pow, Nat.reducePow,
    Nat.reduceMod]
  omega

@[simp] theorem getBe32_be32 (w : UInt32) (s : List UInt8) : getBe32 (be32 w ++ s) = w := by
  apply UInt32.toNat_inj.mp
  have := w.toNat_lt
  simp only [be32, List.cons_append, getBe32, UInt32.toNat_ofNat', UInt32.toNat_toUInt8,
    UInt32.toNat_shiftRight, UInt32.toNat_ofNat, Nat.shiftRight_eq_div_pow, Nat.reducePow,
    Nat.reduceMod]
  omega

@[simp] theorem readn_append (block s : List UInt8) :
    readn block.length (block ++ s) = some (block, s) := by
  rw [readn, if_neg (by rw [List.length_append]; omega), List.take_left, List.drop_left]

theorem readn_eq_some {n : Nat} {s block rest : List UInt8} (h : readn n s = some (block, rest)) :
    s = block ++ rest ∧ block.length = n := by
  rw [readn] at h
  split at h
  · cases h
  · cases h
    exact ⟨(List.take_append_drop n s).symm, List.length_take_of_le (by omega)⟩

/-- A sum of words that are added one by one. -/
theorem foldl_add_ofNat {α : Type*} (f : α → UInt32) (l : List α) (n : Nat) :
    l.foldl (fun total a => total + f a) (UInt32.ofNat n) =
      UInt32.ofNat (n + (l.map fun a => (f a).toNat).sum) := by
  induction l generalizing n with
  | nil => rfl
  | cons a l ih =>
    have hadd : UInt32.ofNat n + f a = UInt32.ofNat (n + (f a).toNat) := by
      rw [UInt32.ofNat_add, UInt32.ofNat_toNat]
    rw [List.foldl_cons, hadd, ih, List.map_cons, List.sum_cons, Nat.add_assoc]

/-! ### Fields of a block -/

/-- `n` bytes at an offset of a block. -/
def bytesAt (b : List UInt8) (off n : Nat) : List UInt8 := (b.drop off).take n

/-- The block with `bs` written at an offset. -/
def putBytes (b : List UInt8) (off : Nat) (bs : List UInt8) : List UInt8 :=
  b.take off ++ bs ++ b.drop (off + bs.length)

/-- The big-endian word at an offset. -/
def word (b : List UInt8) (off : Nat) : UInt32 := getBe32 (bytesAt b off 4)

/-- The block with a word written at an offset. -/
def putBe32 (b : List UInt8) (off : Nat) (w : UInt32) : List UInt8 := putBytes b off (be32 w)

theorem length_bytesAt {b : List UInt8} {off n : Nat} (h : off + n ≤ b.length) :
    (bytesAt b off n).length = n := by
  rw [bytesAt, List.length_take, List.length_drop]
  omega

@[simp] theorem length_putBytes (b bs : List UInt8) (off : Nat) :
    (putBytes b off bs).length = min off b.length + bs.length + (b.length - (off + bs.length)) := by
  simp [putBytes, Nat.add_assoc]

theorem bytesAt_putBytes_self {b bs : List UInt8} {off : Nat} (h : off + bs.length ≤ b.length) :
    bytesAt (putBytes b off bs) off bs.length = bs := by
  have hoff : (b.take off).length = off := List.length_take_of_le (by omega)
  rw [bytesAt, putBytes, List.append_assoc, List.drop_left' hoff, List.take_left]

theorem take_putBytes {b : List UInt8} {off : Nat} (bs : List UInt8) (h : off ≤ b.length) :
    (putBytes b off bs).take (off + bs.length) = b.take off ++ bs := by
  have hlen : (b.take off ++ bs).length = off + bs.length := by
    rw [List.length_append, List.length_take_of_le h]
  rw [putBytes, ← hlen, List.take_left]

/-- Bytes put at the end of a block are added to it. -/
theorem putBytes_length (b bs : List UInt8) : putBytes b b.length bs = b ++ bs := by
  rw [putBytes, List.take_length, List.drop_eq_nil_of_le (Nat.le_add_right _ _), List.append_nil]

theorem bytesAt_length_bytesAt (b : List UInt8) (off n : Nat) :
    bytesAt b off (bytesAt b off n).length = bytesAt b off n := by
  rw [bytesAt, bytesAt, List.length_take]
  exact List.take_eq_take_iff.mpr (by omega)

theorem bytesAt_putBytes_before {b bs : List UInt8} {off i n : Nat}
    (h : off + bs.length ≤ b.length) (hi : i + n ≤ off) :
    bytesAt (putBytes b off bs) i n = bytesAt b i n := by
  have hoff : (b.take off).length = off := List.length_take_of_le (by omega)
  rw [bytesAt, putBytes, List.append_assoc, List.drop_append_of_le_length (by omega),
    List.take_append_of_le_length (by rw [List.length_drop]; omega), List.drop_take, List.take_take,
    Nat.min_eq_left (by omega), bytesAt]

theorem bytesAt_putBytes_after {b bs : List UInt8} {off i : Nat} (n : Nat)
    (h : off + bs.length ≤ b.length) (hi : off + bs.length ≤ i) :
    bytesAt (putBytes b off bs) i n = bytesAt b i n := by
  have hlen : (b.take off ++ bs).length = off + bs.length := by
    rw [List.length_append, List.length_take_of_le (by omega)]
  obtain ⟨k, rfl⟩ := Nat.exists_eq_add_of_le hi
  rw [bytesAt, putBytes, ← hlen, ← List.drop_drop, List.drop_left, List.drop_drop, bytesAt]

@[simp] theorem length_putBe32 (b : List UInt8) (off : Nat) (w : UInt32) :
    (putBe32 b off w).length = min off b.length + 4 + (b.length - (off + 4)) :=
  length_putBytes b (be32 w) off

@[simp] theorem word_putBe32_self {b : List UInt8} {off : Nat} {w : UInt32} (h : off + 4 ≤ b.length) :
    word (putBe32 b off w) off = w := by
  have : bytesAt (putBytes b off (be32 w)) off 4 = be32 w := bytesAt_putBytes_self h
  rw [word, putBe32, this]
  exact getBe32_be32 w []

@[simp] theorem word_putBe32_before {b : List UInt8} {off i : Nat} {w : UInt32} (h : off + 4 ≤ b.length)
    (hi : i + 4 ≤ off) : word (putBe32 b off w) i = word b i := by
  rw [word, putBe32, bytesAt_putBytes_before h hi, word]

@[simp] theorem word_putBe32_after {b : List UInt8} {off i : Nat} {w : UInt32} (h : off + 4 ≤ b.length)
    (hi : off + 4 ≤ i) : word (putBe32 b off w) i = word b i := by
  rw [word, putBe32, bytesAt_putBytes_after 4 h hi, word]

@[simp] theorem bytesAt_putBe32_after {b : List UInt8} {off i n : Nat} {w : UInt32}
    (h : off + 4 ≤ b.length) (hi : off + 4 ≤ i) : bytesAt (putBe32 b off w) i n = bytesAt b i n :=
  bytesAt_putBytes_after n h hi

@[simp] theorem bytesAt_putBe32_before {b : List UInt8} {off i n : Nat} {w : UInt32}
    (h : off + 4 ≤ b.length) (hi : i + n ≤ off) : bytesAt (putBe32 b off w) i n = bytesAt b i n :=
  bytesAt_putBytes_before h hi

@[simp] theorem word_putBytes_before {b bs : List UInt8} {off i : Nat}
    (h : off + bs.length ≤ b.length) (hi : i + 4 ≤ off) :
    word (putBytes b off bs) i = word b i := by
  rw [word, bytesAt_putBytes_before h hi, word]

theorem bytesAt_replicate (a : UInt8) {off n len : Nat} (h : off + n ≤ len) :
    bytesAt (List.replicate len a) off n = List.replicate n a := by
  rw [bytesAt, List.drop_replicate, List.take_replicate, Nat.min_eq_left (by omega)]

theorem word_replicate_zero {off len : Nat} (h : off + 4 ≤ len) :
    word (List.replicate len 0) off = 0 := by
  rw [word, bytesAt_replicate 0 h]
  rfl

theorem takeD_of_length_le {α : Type*} {n : Nat} {l : List α} (a : α) (h : l.length ≤ n) :
    l.takeD n a = l ++ List.replicate (n - l.length) a := by
  induction n generalizing l with
  | zero => rw [List.eq_nil_of_length_eq_zero (Nat.le_zero.mp h)]; rfl
  | succ n ih =>
    cases l with
    | nil =>
      have := ih (l := []) (Nat.zero_le _)
      rw [List.takeD_succ, List.tail_nil, this]
      rfl
    | cons b l =>
      rw [List.takeD_succ, List.tail_cons, ih (Nat.le_of_succ_le_succ h), List.length_cons,
        Nat.add_sub_add_right]
      rfl

/-- One more item takes the first free place, if there is one. -/
theorem takeD_concat {α : Type*} (n : Nat) (l : List α) (a b : α) :
    (l ++ [b]).takeD n a = if l.length < n then (l.takeD n a).set l.length b else l.takeD n a := by
  induction n generalizing l with
  | zero => rfl
  | succ n ih =>
    cases l with
    | nil => cases n <;> rfl
    | cons c l =>
      rw [List.cons_append, List.takeD_succ, List.tail_cons, ih, List.takeD_succ, List.tail_cons,
        List.length_cons]
      by_cases h : l.length < n
      · rw [if_pos h, if_pos (Nat.succ_lt_succ h)]
        rfl
      · rw [if_neg h, if_neg fun h' => h (Nat.lt_of_succ_lt_succ h')]
        rfl

/-! ### The arithmetic of `int` -/

/-- The value of an `int` expression, `none` when it overflows. -/
def intOf (v : Int) : Option Int := if -2147483648 ≤ v ∧ v ≤ 2147483647 then some v else none

theorem ofInt_natCast (n : Nat) : UInt32.ofInt n = .ofNat n := by
  apply UInt32.toNat_inj.mp
  rw [UInt32.ofInt, UInt32.toNat_ofNat', UInt32.toNat_ofNat']
  omega

theorem intOf_iff {v w : Int} :
    intOf v = some w ↔ w = v ∧ -2147483648 ≤ v ∧ v ≤ 2147483647 := by
  unfold intOf
  split
  · rename_i h
    simp [h, eq_comm]
  · rename_i h
    simp [h]

theorem intOf_natCast {n : Nat} {w : Int} :
    intOf (n : Int) = some w ↔ w = n ∧ n ≤ 2147483647 := by
  rw [intOf_iff]
  omega

end Usbip.Lib
