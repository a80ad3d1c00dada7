import Mathlib.Algebra.Order.Ring.Nat
import Usbip.Lib.Bytes

/-! The buffer of an isochronous IN transfer.  It is allocated for the requested sizes together, a
class puts one packet behind the other into it, and the lengths cut the packets out again. -/

namespace Usbip.Classes

open Lib

/-- The packets of an answer, one behind the other. -/
def packetsOf (data : List UInt8) : List UInt32 → List (List UInt8)
  | [] => []
  | len :: lens => data.take len.toNat :: packetsOf (data.drop len.toNat) lens

/-- `malloc(total_req ? total_req : 1)`, for the sum of the requested sizes in 32 bits. -/
def allocated (lens : List UInt32) (scratch : Nat → UInt8) : List UInt8 :=
  let totalReq := lens.foldl (fun total len => total + len) 0
  (List.range (if totalReq ≠ 0 then totalReq else 1).toNat).map scratch

theorem flatten_packetsOf (data : List UInt8) (lens : List UInt32) :
    (packetsOf data lens).flatten = data.take (lens.map UInt32.toNat).sum := by
  induction lens generalizing data with
  | nil => exact List.take_zero.symm
  | cons len lens ih =>
    rw [packetsOf, List.flatten_cons, ih, List.map_cons, List.sum_cons, List.take_add]

theorem length_packetsOf {data : List UInt8} {lens : List UInt32}
    (h : (lens.map UInt32.toNat).sum ≤ data.length) :
    (packetsOf data lens).map List.length = lens.map UInt32.toNat := by
  induction lens generalizing data with
  | nil => rfl
  | cons len lens ih =>
    rw [List.map_cons, List.sum_cons] at h
    rw [packetsOf, List.map_cons, List.map_cons, List.length_take_of_le (by omega),
      ih (by rw [List.length_drop]; omega)]

/-- Packets that are in the buffer one behind the other are cut out by their lengths. -/
theorem packetsOf_flatten {packets : List (List UInt8)} {lens : List UInt32} (rest : List UInt8)
    (h : lens.map UInt32.toNat = packets.map List.length) :
    packetsOf (packets.flatten ++ rest) lens = packets := by
  induction lens generalizing packets with
  | nil => exact (List.map_eq_nil_iff.mp h.symm).symm
  | cons len lens ih =>
    obtain ⟨packet, packets, rfl, hlen, hlens⟩ := List.map_eq_cons_iff.mp h.symm
    rw [packetsOf, List.flatten_cons, List.append_assoc, List.take_left' hlen,
      List.drop_left' hlen, ih hlens.symm]

/-- The room that a transfer has in its buffer. -/
theorem length_allocated (lens : List UInt32) (scratch : Nat → UInt8) :
    (allocated lens scratch).length = if (lens.map UInt32.toNat).sum % 2 ^ 32 = 0 then 1
      else (lens.map UInt32.toNat).sum % 2 ^ 32 := by
  have hsum : lens.foldl (fun total len => total + len) 0 =
      UInt32.ofNat (lens.map UInt32.toNat).sum := by
    have := foldl_add_ofNat id lens 0
    rwa [Nat.zero_add] at this
  have hnat : (lens.foldl (fun total len => total + len) 0).toNat =
      (lens.map UInt32.toNat).sum % 2 ^ 32 := by
    rw [hsum, UInt32.toNat_ofNat']
  rw [allocated, List.length_map, List.length_range, ← hnat]
  by_cases hzero : lens.foldl (fun total len => total + len) 0 = 0
  · rw [if_neg (not_not.mpr hzero), if_pos (by rw [hzero]; rfl)]
    rfl
  · have hnonzero : (lens.foldl (fun total len => total + len) 0).toNat ≠ 0 := fun h =>
      hzero (UInt32.toNat_inj.mp h)
    rw [if_pos hzero, if_neg hnonzero]

end Usbip.Classes
