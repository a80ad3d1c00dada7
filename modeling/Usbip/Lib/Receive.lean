import Usbip.Lib.Bytes
import Usbip.Lib.Buffer

/-! What a call does to its caller's buffer while it takes a message from a peer: the message is
received into blocks, and copied from there.  A peer that is not trusted chooses where from and
where to. -/

namespace Usbip.Lib

inductive Touch
  /-- `bytes` are received straight to the front of the buffer -/
  | fill (bytes : List UInt8)
  /-- `n` bytes are copied from a block that was received -/
  | copy (block : List UInt8) (src dst n : Nat)
  /-- `n` bytes of a block that was received are read -/
  | load (block : List UInt8) (off : Int) (n : Nat)
  /-- `n` bytes of the buffer are read -/
  | look (off n : Nat)
  deriving DecidableEq, Repr

namespace Touch

/-- The bytes of the buffer that are written. -/
def Puts : Touch → Nat → Prop
  | fill bytes, x => x < bytes.length
  | copy _ _ dst n, x => dst ≤ x ∧ x < dst + n
  | load .., _ => False
  | look .., _ => False

/-- The bytes that are written. -/
def store : Touch → Option Store
  | fill bytes => some ⟨0, bytes⟩
  | copy block src dst n => some ⟨dst, bytesAt block src n⟩
  | load .. => none
  | look .. => none

/-- What is read has been received: it lies in the block, or it has arrived in the buffer. -/
def Reads (arrived : Nat → Prop) : Touch → Prop
  | fill _ => True
  | copy block src _ n => src + n ≤ block.length
  | load block off n => 0 ≤ off ∧ off + n ≤ block.length
  | look off n => ∀ x, off ≤ x → x < off + n → arrived x

end Touch

/-- Only bytes that the caller owns are written, and only what was received is read. -/
def Contained (own : Nat → Prop) : (arrived : Nat → Prop) → List Touch → Prop
  | _, [] => True
  | arrived, t :: rest =>
    (∀ x, t.Puts x → own x) ∧ t.Reads arrived ∧
      Contained own (fun x => arrived x ∨ t.Puts x) rest

namespace Contained

variable {own arrived arrived' : Nat → Prop} {s t : List Touch}

theorem congr (h : ∀ x, arrived x ↔ arrived' x) :
    Contained own arrived t ↔ Contained own arrived' t := by
  rw [funext fun x => propext (h x)]

theorem append_iff :
    Contained own arrived (s ++ t) ↔ Contained own arrived s ∧
      Contained own (fun x => arrived x ∨ ∃ w ∈ s, w.Puts x) t := by
  induction s generalizing arrived with
  | nil => simp [Contained]
  | cons w s ih =>
    rw [List.cons_append, Contained, Contained, ih]
    simp only [List.mem_cons, exists_eq_or_imp, or_assoc, and_assoc]

/-- Touches that write nothing. -/
theorem reads_iff (h : ∀ w ∈ t, ∀ x, ¬w.Puts x) :
    Contained own arrived t ↔ ∀ w ∈ t, w.Reads arrived := by
  induction t generalizing arrived with
  | nil => simp [Contained]
  | cons w t ih =>
    obtain ⟨hw, ht⟩ := List.forall_mem_cons.mp h
    have hsame : ∀ x, (arrived x ∨ w.Puts x) ↔ arrived x := fun x => or_iff_left (hw x)
    rw [Contained, congr hsame, ih ht, List.forall_mem_cons]
    exact and_iff_right fun x hx => absurd hx (hw x)

end Contained

end Usbip.Lib
