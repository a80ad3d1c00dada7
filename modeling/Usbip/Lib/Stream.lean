import Mathlib.Data.List.TakeDrop
import Usbip.Lib.Bytes

/-! Items framed one after another on a byte stream.  A reader takes an item off the front; what
its own record holds before (`σ`) may show in what it returns. -/

namespace Usbip.Lib

variable {σ α β : Type*} {enc : α → List UInt8} {dec : σ → List UInt8 → Option (β × List UInt8)}
  {img : α → β} {rest : List UInt8}

/-- One item off the front for each record, and what is left of the stream. -/
def decodeMany (dec : σ → List UInt8 → Option (β × List UInt8)) :
    List σ → List UInt8 → Option (List β × List UInt8)
  | [], s => some ([], s)
  | r :: rs, s =>
    (dec r s).bind fun one => (decodeMany dec rs one.2).map fun more => (one.1 :: more.1, more.2)

/-- Whatever its record holds, the reader returns the image of each item in turn, and then stands at
the first byte of the next item. -/
def InStep (enc : α → List UInt8) (dec : σ → List UInt8 → Option (β × List UInt8)) (img : α → β)
    (rest : List UInt8) (items : List α) : Prop :=
  ∀ records : List σ, records.length ≤ items.length →
    decodeMany dec records (items.flatMap enc ++ rest) =
      some ((items.take records.length).map img, (items.drop records.length).flatMap enc ++ rest)

theorem inStep_nil : InStep enc dec img rest [] := by
  intro records h
  rw [List.eq_nil_of_length_eq_zero (Nat.le_zero.mp h)]
  rfl

theorem inStep_cons {item : α} {items : List α}
    (h : ∀ r, dec r (enc item ++ (items.flatMap enc ++ rest)) =
      some (img item, items.flatMap enc ++ rest))
    (hs : InStep enc dec img rest items) : InStep enc dec img rest (item :: items) := by
  intro records hlen
  cases records with
  | nil => rfl
  | cons r rs =>
    have := hs rs (Nat.le_of_succ_le_succ hlen)
    rw [decodeMany, List.flatMap_cons, List.append_assoc, h, Option.bind_some, this]
    rfl

theorem InStep.head {item : α} {items : List α} (h : InStep enc dec img rest (item :: items))
    (r : σ) : dec r (enc item ++ (items.flatMap enc ++ rest)) =
      some (img item, items.flatMap enc ++ rest) := by
  have := h [r] (Nat.succ_le_succ (Nat.zero_le _))
  rw [decodeMany, List.flatMap_cons, List.append_assoc] at this
  obtain ⟨⟨b, s⟩, hd, hm⟩ := Option.bind_eq_some_iff.mp this
  rw [hd]
  cases hm
  rfl

theorem InStep.tail [Nonempty σ] {item : α} {items : List α}
    (h : InStep enc dec img rest (item :: items)) : InStep enc dec img rest items := by
  intro records hlen
  obtain ⟨r⟩ := ‹Nonempty σ›
  have := h (r :: records) (Nat.succ_le_succ hlen)
  rw [decodeMany, List.flatMap_cons, List.append_assoc, h.head r, Option.bind_some] at this
  obtain ⟨⟨bs, s⟩, hd, hm⟩ := Option.map_eq_some_iff.mp this
  rw [hd]
  cases hm
  rfl

/-- When each item is read back whatever follows it, they all are in step. -/
theorem inStep_of_forall {items : List α}
    (h : ∀ item ∈ items, ∀ r rest, dec r (enc item ++ rest) = some (img item, rest)) :
    InStep enc dec img rest items := by
  induction items with
  | nil => exact inStep_nil
  | cons item items ih =>
    obtain ⟨hitem, hitems⟩ := List.forall_mem_cons.mp h
    exact inStep_cons (fun r => hitem r _) (ih hitems)

/-- When one item is read back exactly under a condition on it, a sequence is read back in step
exactly when all its items meet the condition. -/
theorem inStep_iff [Nonempty σ] {C : α → Prop}
    (h : ∀ item rest, (∀ r, dec r (enc item ++ rest) = some (img item, rest)) ↔ C item)
    {items : List α} : InStep enc dec img rest items ↔ ∀ item ∈ items, C item := by
  induction items with
  | nil => exact ⟨fun _ _ hm => absurd hm List.not_mem_nil, fun _ => inStep_nil⟩
  | cons item items ih =>
    rw [List.forall_mem_cons]
    constructor
    · intro hin
      exact ⟨(h item _).mp hin.head, ih.mp hin.tail⟩
    · rintro ⟨hitem, hitems⟩
      exact inStep_cons ((h item _).mpr hitem) (ih.mpr hitems)

/-- A reader that takes as many bytes off the front as its item has takes those of all of them. -/
theorem length_of_decodeMany {size : β → Nat}
    (h : ∀ r s item rest, dec r s = some (item, rest) → s.length = size item + rest.length)
    {records : List σ} {s rest : List UInt8} {items : List β}
    (hread : decodeMany dec records s = some (items, rest)) :
    s.length = (items.map size).sum + rest.length := by
  induction records generalizing s items with
  | nil =>
    cases hread
    exact (Nat.zero_add _).symm
  | cons r records ih =>
    rw [decodeMany] at hread
    obtain ⟨⟨item, left⟩, hitem, hmore⟩ := Option.bind_eq_some_iff.mp hread
    obtain ⟨⟨more, last⟩, hmany, heq⟩ := Option.map_eq_some_iff.mp hmore
    cases heq
    rw [h r s item left hitem, ih hmany, List.map_cons, List.sum_cons, Nat.add_assoc]

/-! ### Records of one size -/

/-- The record `i` of a block of records that take `size` bytes each. -/
def recordAt (size : Nat) (block : List UInt8) (i : Nat) : List UInt8 := bytesAt block (i * size) size

theorem take_append_recordAt (size : Nat) (block : List UInt8) (i : Nat) :
    block.take (i * size) ++ recordAt size block i = block.take ((i + 1) * size) := by
  rw [recordAt, bytesAt, Nat.succ_mul, List.take_add]

/-- The first records put together. -/
theorem flatten_recordAt (size : Nat) (block : List UInt8) (n : Nat) :
    ((List.range n).map (recordAt size block)).flatten = block.take (n * size) := by
  induction n with
  | zero => rw [Nat.zero_mul, List.take_zero]; rfl
  | succ n ih =>
    rw [List.range_succ, List.map_append, List.flatten_append, ih, List.map_singleton,
      List.flatten_singleton, take_append_recordAt]

theorem length_recordAt (size : Nat) (block : List UInt8) (i : Nat) :
    (recordAt size block i).length = min size (block.length - i * size) := by
  rw [recordAt, bytesAt, List.length_take, List.length_drop]

theorem length_flatMap_const {size : Nat} (h : ∀ item, (enc item).length = size) (items : List α) :
    (items.flatMap enc).length = items.length * size := by
  induction items with
  | nil => simp
  | cons item items ih =>
    rw [List.flatMap_cons, List.length_append, h, ih, List.length_cons, Nat.succ_mul, Nat.add_comm]

theorem map_recordAt_flatMap {size : Nat} (h : ∀ item, (enc item).length = size) (items : List α) :
    (List.range items.length).map (recordAt size (items.flatMap enc)) = items.map enc := by
  induction items with
  | nil => rfl
  | cons item items ih =>
    rw [List.length_cons, List.range_succ_eq_map, List.map_cons, List.map_map, List.flatMap_cons,
      List.map_cons, ← ih]
    congr 1
    · rw [recordAt, bytesAt, Nat.zero_mul, List.drop_zero, List.take_left' (h item)]
    · refine List.map_congr_left fun i _ => ?_
      rw [Function.comp, recordAt, recordAt, bytesAt, bytesAt, Nat.succ_mul, Nat.add_comm,
        ← List.drop_drop, List.drop_left' (h item)]

end Usbip.Lib
