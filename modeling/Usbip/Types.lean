import Mathlib.Algebra.Order.Ring.Int
import Mathlib.Tactic.Common

/-! The values that the library passes around: error codes, directions, wire words read as C
integers, submitted URBs, and pieces of buffers. -/

namespace Usbip

def usbSuccess : Int := 0
def usbErrorIo : Int := -1
def usbErrorInvalidParam : Int := -2
def usbErrorNoMem : Int := -11
def usbErrorOther : Int := -99

/-- `usb_dir`. -/
inductive Dir
  | usbOut
  | usbIn
  deriving DecidableEq, Repr

/-- A connection: the identity of its `struct conn`. -/
abbrev ConnId := Nat

/-- An endpoint object of the device, by its index in `dev->eps`. -/
abbrev EpId := Nat

/-- `USBIP_STATUS_STALL`, `-EPIPE` on the wire. -/
def usbipStatusStall : Int := -32

/-- A 32-bit word read as an `int`. -/
def int32 (w : UInt32) : Int := w.toBitVec.toInt

theorem int32_eq (w : UInt32) :
    int32 w = if w.toNat < 2 ^ 31 then (w.toNat : Int) else w.toNat - 2 ^ 32 := by
  rw [int32, BitVec.toInt_eq_toNat_cond, UInt32.toNat_toBitVec]
  split <;> split <;> omega

theorem int32_toNat {w : UInt32} (h : w.toNat < 2 ^ 31) : (int32 w).toNat = w.toNat := by
  rw [int32_eq, if_pos h]
  exact Int.toNat_natCast _

/-- The fields of a `CMD_SUBMIT` that the bulk and interrupt path reads, which are also the fields
of `struct pending`. `tag` numbers the submissions an endpoint accepts, in order; no branch of the
code reads it. -/
structure Urb where
  tag : Nat
  conn : ConnId
  seqnum : UInt32
  devid : UInt32
  direction : Dir
  ep : UInt32
  /-- `transfer_buffer_length`, as on the wire -/
  length : UInt32
  /-- the OUT payload -/
  data : List UInt8
  deriving DecidableEq, Repr

/-- An IN URB for endpoint 1 of the device `1-2`, which the fixed runs below submit. -/
def Urb.bulkIn (conn : ConnId) (seqnum length : UInt32) : Urb :=
  { tag := 0, conn, seqnum, devid := 0x10002, direction := .usbIn, ep := 1, length, data := [] }

/-- A pointer into a block of bytes. -/
structure Slice where
  block : List UInt8
  off : Int
  deriving DecidableEq, Repr

namespace Slice

/-- The null pointer, which no reply reads. -/
def null : Slice := ⟨[], 0⟩

/-- `n` bytes from the pointer lie inside the block. -/
def Inside (s : Slice) (n : Int) : Prop := 0 ≤ s.off ∧ s.off + n ≤ s.block.length

/-- The `n` bytes from the pointer, when they lie inside the block. -/
def bytes (s : Slice) (n : Int) : List UInt8 := (s.block.drop s.off.toNat).take n.toNat

/-- `src += n`. -/
def advance (s : Slice) (n : Int) : Slice := ⟨s.block, s.off + n⟩

@[simp] theorem advance_block (s : Slice) (n : Int) : (s.advance n).block = s.block := rfl
@[simp] theorem advance_off (s : Slice) (n : Int) : (s.advance n).off = s.off + n := rfl

@[simp] theorem bytes_null (n : Int) : null.bytes n = [] := by simp [bytes, null]

theorem length_bytes {s : Slice} {n : Int} (hn : 0 ≤ n) (h : s.Inside n) :
    ((s.bytes n).length : Int) = n := by
  obtain ⟨h0, h1⟩ := h
  simp only [bytes, List.length_take, List.length_drop]
  omega

/-- The bytes of a piece, and then those after it. -/
theorem bytes_advance {s : Slice} {m n : Int} (hs : 0 ≤ s.off) (hm : 0 ≤ m) (hn : 0 ≤ n) :
    s.bytes m ++ (s.advance m).bytes n = s.bytes (m + n) := by
  simp only [bytes, advance_block, advance_off]
  rw [show (s.off + m).toNat = s.off.toNat + m.toNat by omega, ← List.drop_drop,
    show (m + n).toNat = m.toNat + n.toNat by omega, List.take_add]

theorem bytes_within (s : Slice) (n : Int) : s.bytes n <:+: s.block :=
  (List.take_prefix _ _).isInfix.trans (List.drop_suffix _ _).isInfix

theorem bytes_rest {s : Slice} (h : 0 ≤ s.off) :
    s.bytes (s.block.length - s.off) = s.block.drop s.off.toNat := by
  refine List.take_of_length_le ?_
  rw [List.length_drop]
  omega

end Slice

/-- The chunk of `avail` bytes that one URB takes: all of them, unless the URB asks for fewer. -/
def capLength (length : UInt32) (avail : Int) : Int :=
  if length ≠ 0 ∧ int32 length < avail then int32 length else avail

theorem capLength_le (length : UInt32) (avail : Int) : capLength length avail ≤ avail := by
  unfold capLength
  split <;> omega

theorem capLength_pos {length : UInt32} {avail : Int} (hl : 0 < int32 length) (ha : 0 < avail) :
    0 < capLength length avail := by
  unfold capLength
  split <;> omega

theorem capLength_le_length {length : UInt32} {avail : Int} (hl : 0 < int32 length) :
    capLength length avail ≤ int32 length := by
  unfold capLength
  split
  · omega
  · rename_i h
    have hne : length ≠ 0 := by
      rintro rfl
      exact absurd hl (by decide)
    exact Int.not_lt.mp fun hlt => h ⟨hne, hlt⟩

end Usbip
