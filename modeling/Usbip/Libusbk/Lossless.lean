import Usbip.Libusbk.Slots

/-! One reader of an IN stream.  A read that asks for fewer bytes than its slot holds gets the
beginning of them, and the rest is gone with the slot. -/

namespace Usbip.Libusbk

open Lib

/-- The bytes that the calls of `StmK_Read` have returned, in order. -/
def returned (log : List KstmEvent) : List UInt8 := (deliveries log).flatMap Prod.snd

/-- The bytes that the device has sent. -/
def received (log : List KstmEvent) : List UInt8 := (fills log).flatten

namespace Kstm

/-- The bytes that are in slots: in that of a call which has not copied them yet, in the ready ones,
and in the one that the thread is about to make ready. -/
def inSlots (s : Kstm) (n : Nat) : List UInt8 :=
  (s.copying.map StmkRead.slot ++ s.ready.toList n ++ s.thread.filled).flatMap fun i =>
    (s.slot i).data

/-- No call has a slot and no transfer is between its end and the ready ring. -/
def Quiet (s : Kstm) : Prop := s.copying = [] ∧ s.thread.filled = []

/-- Each call comes when the one before it has returned, with a length for `memcpy`. -/
def OneReader (s : Kstm) : KstmAct → Prop
  | .read _ length => s.copying = [] ∧ s.copied = [] ∧ 0 ≤ length
  | _ => True

instance (s : Kstm) : ∀ act, Decidable (s.OneReader act)
  | .read .. => inferInstanceAs (Decidable (_ ∧ _))
  | .start _ | .stop | .join | .threadTake | .threadSubmit .. | .threadPush | .readCopy _
  | .readPush _ | .write _ => inferInstanceAs (Decidable True)

/-- A call that copies asks for as much as its slot holds. -/
def Roomy (s : Kstm) : KstmAct → Prop
  | .readCopy read => (s.slot read.slot).transferLength ≤ read.length
  | _ => True

instance (s : Kstm) : ∀ act, Decidable (s.Roomy act)
  | .readCopy _ => inferInstanceAs (Decidable (_ ≤ _))
  | .start _ | .stop | .join | .threadTake | .threadSubmit .. | .threadPush | .read ..
  | .readPush _ | .write _ => inferInstanceAs (Decidable True)

end Kstm

/-- No byte is lost. -/
def KstmTrace.Lossless (t : KstmTrace) (n : Nat) : Prop :=
  returned t.log ++ t.state.inSlots n = received t.log

instance (t : KstmTrace) (n : Nat) : Decidable (t.Lossless n) :=
  inferInstanceAs (Decidable (_ = _))

/-- Between the calls and the transfers what is in the slots is in the ready ones. -/
theorem KstmTrace.Lossless.quiet {t : KstmTrace} {n : Nat} (h : t.Lossless n)
    (hquiet : t.state.Quiet) :
    returned t.log ++ (t.state.ready.toList n).flatMap (fun i => (t.state.slot i).data) =
      received t.log := by
  rw [← h, Kstm.inSlots, hquiet.1, hquiet.2, List.append_nil]
  rfl

namespace Kstm

variable {s s' : Kstm} {act : KstmAct} {events log : List KstmEvent} {n : Nat} {F R : List Nat}

/-- What one reader has got, when it has never asked for too little. -/
structure OneRead (s : Kstm) (log : List KstmEvent) : Prop where
  dir : s.dir = .usbIn
  sized : ∀ i, (s.slot i).transferLength.toNat ≤ (s.slot i).buffer.length
  returned : returned log = ((fills log).take (s.takes - s.copying.length)).flatten
  copying : s.copying = [] ∨
    ∃ read, s.copying = [read] ∧ read.ticket + 1 = s.takes ∧ 0 ≤ read.length

theorem OneRead.stay (h : s.OneRead log) (hlog : fills events = [])
    (hdeliveries : deliveries events = []) (hdir : s'.dir = s.dir)
    (hslots : ∀ i, (s'.slot i).transferLength.toNat ≤ (s'.slot i).buffer.length)
    (htakes : s'.takes = s.takes) (hcopying : s'.copying = s.copying) :
    s'.OneRead (log ++ events) where
  dir := hdir.trans h.dir
  sized := hslots
  returned := by
    rw [Libusbk.returned, deliveries_append, hdeliveries, List.append_nil, fills_append, hlog,
      List.append_nil, htakes, hcopying]
    exact h.returned
  copying := by
    rw [hcopying, htakes]
    exact h.copying

/-- A slot that is written keeps its length, or gets the one of what is written. -/
theorem OneRead.setSlot (h : s.OneRead log) (i : Nat) (xc : XferContext)
    (hxc : xc.transferLength.toNat ≤ xc.buffer.length) (j : Nat) :
    ((s.setSlot i xc).slot j).transferLength.toNat ≤ ((s.setSlot i xc).slot j).buffer.length := by
  by_cases hi : i < s.slots.length
  · rw [setSlot_slot hi]
    split
    · exact hxc
    · exact h.sized j
  · have hsame : s.setSlot i xc = s := by
      rw [Kstm.setSlot, List.set_eq_of_length_le (Nat.not_lt.mp hi)]
    rw [hsame]
    exact h.sized j

theorem length_le_fill (xc : XferContext) (data : List UInt8) :
    xc.buffer.length ≤ (xc.fill data).buffer.length ∧
      data.length ≤ (xc.fill data).buffer.length := by
  rw [XferContext.fill, List.length_append, List.length_drop]
  omega

/-- The next transfer is not for a read that has been made. -/
theorem OneRead.filled (h : s.OneRead log) (hd : s.Delivers log R) {slot : Nat} {act : Int}
    {data : List UInt8} (hact : act.toNat = data.length) {pc : KstmThread} :
    { s.setSlot slot { (s.slot slot).fill data with transferLength := act } with
      thread := pc }.OneRead (log ++ [KstmEvent.filled slot data]) where
  dir := h.dir
  sized := by
    have hlen := (length_le_fill (s.slot slot) data).2
    exact h.setSlot slot { (s.slot slot).fill data with transferLength := act } (hact ▸ hlen)
  returned := by
    have htaken := hd.taken
    have hnone : deliveries [KstmEvent.filled slot data] = [] := rfl
    rw [Libusbk.returned, deliveries_append, hnone, List.append_nil, fills_append,
      List.take_append_of_le_length (by dsimp only [Kstm.setSlot]; omega)]
    exact h.returned
  copying := h.copying

theorem OneRead.read (h : s.OneRead log) (hcopying : s.copying = []) (slot : Nat)
    (ready : RingBuffer Nat) (offset : Int) {length : Int} (hlength : 0 ≤ length) :
    { s with
      ready
      takes := s.takes + 1
      copying := ⟨s.takes, slot, offset, length⟩ :: s.copying }.OneRead (log ++ []) where
  dir := h.dir
  sized := h.sized
  returned := by
    have hold := h.returned
    rw [hcopying] at hold
    rw [List.append_nil, hcopying]
    exact hold
  copying := .inr ⟨_, by rw [hcopying], rfl, hlength⟩

theorem returned_delivered (log : List KstmEvent) (read : StmkRead) (data : List UInt8) :
    Libusbk.returned (log ++ [.delivered read data]) = Libusbk.returned log ++ data := by
  rw [Libusbk.returned, deliveries_append, List.flatMap_append]
  exact congrArg (Libusbk.returned log ++ ·) (List.append_nil data)

/-- The transfers that have been taken, with the one that is being copied. -/
theorem OneRead.take_takes (h : s.OneRead log) (hd : s.Delivers log R) {read : StmkRead}
    (hcopying : s.copying = [read]) :
    ((fills log).take s.takes).flatten = Libusbk.returned log ++ (s.slot read.slot).data := by
  obtain ⟨hticket, hget⟩ : read.ticket + 1 = s.takes ∧
      (fills log)[read.ticket]? = some (s.slot read.slot).data := by
    refine ⟨?_, hd.copying read (by rw [hcopying]; exact List.mem_singleton_self read)⟩
    rcases h.copying with hnone | ⟨read', hone, hticket, -⟩
    · rw [hcopying] at hnone
      cases hnone
    · rw [hcopying] at hone
      cases hone
      exact hticket
  have hreturned := h.returned
  rw [hcopying, List.length_singleton, ← hticket, Nat.add_sub_cancel] at hreturned
  rw [hreturned, ← hticket, List.take_add_one, hget, List.flatten_append]
  simp

theorem OneRead.copying_eq (h : s.OneRead log) {read : StmkRead} (hread : read ∈ s.copying) :
    s.copying = [read] := by
  rcases h.copying with hnone | ⟨read', hone, -⟩
  · rw [hnone] at hread
    cases hread
  · rw [hone] at hread ⊢
    rw [List.mem_singleton.mp hread]

theorem OneRead.readCopy (h : s.OneRead log) (hd : s.Delivers log R) {read : StmkRead}
    (hread : read ∈ s.copying) (hroom : (s.slot read.slot).transferLength ≤ read.length) :
    { s with copying := s.copying.erase read, copied := read.slot :: s.copied }.OneRead
      (log ++ [KstmEvent.delivered read ((s.slot read.slot).buffer.take
        (min (s.slot read.slot).transferLength read.length).toNat)]) := by
  have hcopying := h.copying_eq hread
  have herase : s.copying.erase read = [] := by rw [hcopying, List.erase_cons_head]
  have hwhole := h.take_takes hd hcopying
  have hfills : ∀ data, fills (log ++ [KstmEvent.delivered read data]) = fills log := by
    intro data
    rw [fills_append]
    exact List.append_nil _
  rw [min_eq_left hroom, herase]
  refine ⟨h.dir, h.sized, ?_, .inl rfl⟩
  rw [returned_delivered, hfills]
  exact hwhole.symm

theorem OneRead.step (h : s.OneRead log) (hd : s.Delivers log R)
    (hone : s.OneReader act) (hroom : s.Roomy act) (hs : KstmStep s act s' events) :
    s'.OneRead (log ++ events) := by
  cases hs with
  | startRunning | readNone | writeNone | start | join | threadExit | threadFree | pushFailed
  | pushFilled | pushSent | readPush | threadReady | outFailed =>
    exact h.stay rfl rfl rfl h.sized rfl rfl
  | stop =>
    split
    · exact h.stay rfl rfl rfl h.sized rfl rfl
    · exact h.stay rfl rfl rfl h.sized rfl rfl
  | @inFailed slot rc data act submitting =>
    have hlen := (h.sized slot).trans (length_le_fill (s.slot slot) data).1
    exact h.stay rfl rfl rfl (h.setSlot slot ((s.slot slot).fill data) hlen) rfl rfl
  | inFilled submitting dir act_eq => exact h.filled hd act_eq
  | outSent submitting dir => cases h.dir.symm.trans dir
  | read offset length dir nonempty pop => exact h.read hone.1 _ _ offset hone.2.2
  | readCopy copying got => exact h.readCopy hd copying hroom
  | write dir nonempty pop xc => cases h.dir.symm.trans dir

theorem OneRead.init {pipeId : UInt8} {maxTransferSize maxPendingTransfers : Int}
    {fresh : Nat → List UInt8}
    (h : stmkInit pipeId maxTransferSize maxPendingTransfers fresh = some s)
    (hin : pipeId &&& 0x80 ≠ 0) : s.OneRead [] := by
  unfold stmkInit at h
  split at h
  · cases h
  · cases h
    refine ⟨rfl, fun i => ?_, rfl, .inl rfl⟩
    have hlength : ∀ xc ∈ (List.range maxPendingTransfers.toNat).map fun i =>
        (⟨fresh i, 0⟩ : XferContext), xc.transferLength.toNat = 0 := by
      intro xc hxc
      obtain ⟨k, -, rfl⟩ := List.mem_map.mp hxc
      rfl
    rw [slot, List.getD_eq_getElem?_getD]
    cases hget : ((List.range maxPendingTransfers.toNat).map fun i =>
        (⟨fresh i, 0⟩ : XferContext))[i]? with
    | none => exact Nat.zero_le _
    | some xc =>
      rw [Option.getD_some, hlength xc (List.mem_of_getElem? hget)]
      exact Nat.zero_le _

end Kstm

end Usbip.Libusbk
