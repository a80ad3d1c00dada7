import Usbip.Lib.Memory
import Usbip.Wire.Completion

/-! An isochronous transfer, from the client's buffer to the callback of the endpoint and back.  The
client puts the slots of an OUT transfer one after another on the wire; the server takes them from
where their offsets are in the host's buffer.

There is memory for the blocks of a transfer.  A device with pacing sends the same reply later. -/

namespace Usbip.Wire

open Lib

/-- The callback `on_iso` of an IN endpoint: the packets that it produces for the lengths that the
host asks for, none longer than that. -/
structure IsoSource where
  packets : List UInt32 → List (List UInt8)
  fits : ∀ lens, List.Forall₂ (fun len packet => packet.length ≤ len.toNat) lens (packets lens)

/-- What `usbip_device_dispatch` makes of an isochronous transfer: the packets that an OUT callback
gets, and the reply. -/
structure IsoServed where
  received : List (List UInt8)
  reply : List UInt8

/-- The header of an isochronous reply. -/
def isoHdr (urb : Urb) (total : UInt32) : List UInt8 :=
  let hdr := putBasicHdr usbipRetSubmit urb.seqnum urb.devid urb.direction urb.ep
  let hdr := putBe32 hdr usbipRetStatusOff 0
  let hdr := putBe32 hdr usbipRetActualOff total
  putBe32 hdr usbipRetNumpktsOff (.ofInt urb.numberOfPackets)

/-- What `usbip_send_ret_iso` writes. It packs the descriptors into a block of their own, where
`DescsInside` their number. -/
def usbipSendRetIso (urb : Urb) (iso : List IsoPkt) (data : List UInt8) : List UInt8 :=
  let total := iso.foldl (fun total pkt => total + pkt.actualLength) 0
  isoHdr urb total ++
    ((if urb.direction = usbIn ∧ 0 < total then data.take total.toNat else []) ++
      iso.flatMap isoDescPack)

/-- The callback fills the packets, which stand one after another in its buffer. -/
def dispatchIsoIn (src : IsoSource) (urb : Urb) : IsoServed :=
  let iso := urb.iso.getD []
  let produced := src.packets (iso.map IsoPkt.length)
  let iso := iso.zipWith
    (fun pkt packet => { pkt with actualLength := .ofNat packet.length, status := 0 }) produced
  ⟨[], usbipSendRetIso urb iso produced.flatten⟩

/-- The packet lies inside the payload, as the server sees it. -/
def Covered (data : Option (List UInt8)) (dataLen : UInt32) (pkt : IsoPkt) : Prop :=
  data.isSome ∧ pkt.offset + pkt.length ≤ dataLen

instance (data : Option (List UInt8)) (dataLen : UInt32) (pkt : IsoPkt) :
    Decidable (Covered data dataLen pkt) := inferInstanceAs (Decidable (_ ∧ _))

/-- The writes that pack the packets one after another, from `off` on. -/
def depad (data : Option (List UInt8)) (dataLen : UInt32) : UInt32 → List IsoPkt → List Store
  | _, [] => []
  | off, pkt :: iso =>
    (if Covered data dataLen pkt then
        [⟨off.toNat, bytesAt (data.getD []) pkt.offset.toNat pkt.length.toNat⟩]
      else []) ++ depad data dataLen (off + pkt.length) iso

/-- The packets of the given lengths that stand one after another in a memory, from `off` on. -/
def packetsAt (mem : Nat → UInt8) : Nat → List UInt32 → List (List UInt8)
  | _, [] => []
  | off, len :: lens =>
    readout (fun i => mem (off + i)) len.toNat :: packetsAt mem (off + len.toNat) lens

/-- The callback gets the packets in a block that held `junk` when it was allocated. -/
def dispatchIsoOut (junk : Nat → UInt8) (urb : Urb) : IsoServed :=
  let iso := urb.iso.getD []
  let buf := putAll (depad urb.data (.ofInt urb.dataLen) 0 iso) junk
  let done := iso.map fun pkt => { pkt with actualLength := pkt.length, status := 0 }
  ⟨packetsAt buf 0 (iso.map IsoPkt.length), usbipSendRetIso urb done []⟩

/-- The isochronous branches of `usbip_device_dispatch`, for an endpoint that is not halted. -/
def dispatchIso (srv : Served) (src : IsoSource) (junk : Nat → UInt8) (urb : Urb) :
    Option IsoServed :=
  if urb.ep ≠ 0 ∧ srv.Iso urb.ep urb.direction ∧ 0 < urb.numberOfPackets then
    if urb.direction = usbIn then some (dispatchIsoIn src urb)
    else if urb.direction = usbOut then some (dispatchIsoOut junk urb)
    else none
  else none

/-- A transfer to an isochronous endpoint of the device, with packets anywhere in the host's buffer.
The buffer's length and the number of bytes to transfer are `int`s. -/
structure IsoXfer (srv : Served) extends SubmitIsoArgs where
  ep_ne : ep ≠ 0
  dir_two : dir = usbOut ∨ dir = usbIn
  iso : srv.Iso ep dir
  inside : ∀ pkt ∈ pkts, pkt.offset.toNat + pkt.length.toNat ≤ buf.length
  buf_lt : buf.length < 2 ^ 31
  total_lt : toSubmitIsoArgs.total < 2 ^ 31

namespace IsoXfer

variable {srv : Served}

/-- The transfer from `usbip_client_submit_iso` to the callback, and back. -/
def run (x : IsoXfer srv) (src : IsoSource) (capture : Bool) (junk : Nat → UInt8) (old : Urb)
    (seq : UInt32) : Option (IsoServed × Completion) :=
  (readCmd srv old (x.bytes seq)).2.bind fun cmd =>
    (dispatchIso srv src junk cmd.1).map fun served =>
      (served, (AwaitedIso.mk x.dir x.pkts x.npkts).complete ⟨capture, fun _ => true⟩ served.reply)

/-- What the callback has produced, each packet at the offset of its slot. -/
def placed (x : IsoXfer srv) (produced : List (List UInt8)) : List Store :=
  x.pkts.zipWith (fun pkt packet => ⟨pkt.offset.toNat, packet⟩) produced

/-- What is in the host's buffer in the end. -/
def buffer (x : IsoXfer srv) (done : Completion) : Nat → UInt8 :=
  putAll (done.touches.filterMap Touch.store) fun i => x.buf.getD i 0

/-- The buffer has the packets that were produced, each in its slot, and is as before elsewhere. -/
structure Filled (x : IsoXfer srv) (produced : List (List UInt8)) (done : Completion) : Prop where
  counts : done.pkts.map (fun pkt => pkt.actualLength.toNat) = produced.map List.length
  short : List.Forall₂ (fun pkt packet => packet.length ≤ pkt.length.toNat) x.pkts produced
  held : ∀ w ∈ x.placed produced, w.Held (x.buffer done)
  frame : ∀ i, (∀ w ∈ x.placed produced, ¬(w.off ≤ i ∧ i < w.stop)) →
    x.buffer done i = x.buf.getD i 0

/-- A transfer with packets gets to the callback and back with each descriptor inside its block, and
each packet has its own bytes. -/
def Exact (x : IsoXfer srv) (src : IsoSource) : Prop :=
  x.pkts ≠ [] → DescsInside x.pkts.length ∧ ∀ capture junk old seq, ∃ served done,
    x.run src capture junk old seq = some (served, done) ∧
    (x.dir = usbOut → served.received =
      x.pkts.map fun pkt => bytesAt x.buf pkt.offset.toNat pkt.length.toNat) ∧
    (x.dir = usbIn → x.Filled (src.packets (x.pkts.map IsoPkt.length)) done)

/-- The offset of a packet descriptor is an `int`.  For OUT, the slots that stand one after another on
the wire have the bytes of each packet where the buffer has them; for IN, packets that overlap have
the same bytes there. -/
structure Consistent (x : IsoXfer srv) (src : IsoSource) : Prop where
  few : x.pkts.length ≤ 2 ^ 27
  out : x.dir = usbOut → ∀ pkt ∈ x.pkts,
    bytesAt x.payload pkt.offset.toNat pkt.length.toNat =
      bytesAt x.buf pkt.offset.toNat pkt.length.toNat
  into : x.dir = usbIn →
    (x.placed (src.packets (x.pkts.map IsoPkt.length))).Pairwise Store.Agree

/-! ### The way to the server -/

section

variable {x : IsoXfer srv} {src : IsoSource}

end

/-! ### An OUT transfer -/

section

variable {data : Option (List UInt8)} {dataLen : UInt32}

/-- What the callback gets: the bytes of the payload, or what the block held before. -/
def delivered (data : Option (List UInt8)) (dataLen : UInt32) (c : Nat → UInt8) :
    Nat → List IsoPkt → List (List UInt8)
  | _, [] => []
  | off, pkt :: iso =>
    (if Covered data dataLen pkt then
        bytesAt (data.getD []) pkt.offset.toNat pkt.length.toNat
      else readout (fun i => c (off + i)) pkt.length.toNat) ::
    delivered data dataLen c (off + pkt.length.toNat) iso

theorem depad_off {off : UInt32} {iso : List IsoPkt}
    (hroom : off.toNat + (iso.map fun pkt => pkt.length.toNat).sum < 2 ^ 32) :
    ∀ w ∈ depad data dataLen off iso, off.toNat ≤ w.off := by
  induction iso generalizing off with
  | nil => simp [depad]
  | cons pkt iso ih =>
    rw [List.map_cons, List.sum_cons] at hroom
    have hoff : (off + pkt.length).toNat = off.toNat + pkt.length.toNat := by
      rw [UInt32.toNat_add, Nat.mod_eq_of_lt (by omega)]
    intro w hw
    rcases List.mem_append.mp hw with hw | hw
    · split at hw
      · rw [List.mem_singleton.mp hw]
      · cases hw
    · have := ih (by omega) w hw
      omega

theorem delivered_congr {c c' : Nat → UInt8} {off : Nat} (iso : List IsoPkt)
    (h : ∀ i, off ≤ i → c i = c' i) :
    delivered data dataLen c off iso = delivered data dataLen c' off iso := by
  induction iso generalizing off with
  | nil => rfl
  | cons pkt iso ih =>
    have hout : (fun i => c (off + i)) = fun i => c' (off + i) :=
      funext fun i => h _ (Nat.le_add_right off i)
    rw [delivered, delivered, hout, ih fun i hi => h i (by omega)]

/-- The callback finds each packet where `lens` puts it. -/
theorem packetsAt_depad (off : UInt32) {iso : List IsoPkt} (c : Nat → UInt8)
    (hroom : off.toNat + (iso.map fun pkt => pkt.length.toNat).sum < 2 ^ 32)
    (hdata : ∀ pkt ∈ iso, Covered data dataLen pkt →
      (bytesAt (data.getD []) pkt.offset.toNat pkt.length.toNat).length = pkt.length.toNat) :
    packetsAt (putAll (depad data dataLen off iso) c) off.toNat (iso.map IsoPkt.length) =
      delivered data dataLen c off.toNat iso := by
  induction iso generalizing off c with
  | nil => rfl
  | cons pkt iso ih =>
    obtain ⟨hpkt, hiso⟩ := List.forall_mem_cons.mp hdata
    rw [List.map_cons, List.sum_cons] at hroom
    have hoff : (off + pkt.length).toNat = off.toNat + pkt.length.toNat := by
      rw [UInt32.toNat_add, Nat.mod_eq_of_lt (by omega)]
    have hlater : ∀ w ∈ depad data dataLen (off + pkt.length) iso,
        (off + pkt.length).toNat ≤ w.off :=
      depad_off (by omega)
    -- the later packets go behind this one
    have hhead : ∀ c, readout (fun i => putAll (depad data dataLen (off + pkt.length) iso) c
        (off.toNat + i)) pkt.length.toNat = readout (fun i => c (off.toNat + i)) pkt.length.toNat :=
      fun c => List.map_congr_left fun i hi => by
        have := List.mem_range.mp hi
        exact putAll_outside (fun w hw => by have := hlater w hw; omega) c
    rw [depad, putAll_append, List.map_cons, packetsAt, hhead, ← hoff, ih _ _ (by omega) hiso,
      delivered, hoff]
    split
    · rename_i hc
      have hlen := hpkt hc
      congr 1
      · refine List.ext_getElem (by simp [readout, hlen]) fun i hi hi' => ?_
        simp only [readout, List.getElem_map, List.getElem_range]
        exact put_held c ⟨off.toNat, _⟩ i hi'
      · refine delivered_congr iso fun i hi => if_neg ?_
        simp only [Store.stop, hlen]
        omega
    · rfl

/-- One packet is what is expected, whatever the block held, exactly when the payload has it. -/
theorem delivered_head {bytes : List UInt8} {pkt : IsoPkt} {off : Nat}
    (hlen : bytes.length = pkt.length.toNat)
    (hcovered : pkt.length ≠ 0 → (Covered data dataLen pkt ↔
      pkt.offset.toNat + pkt.length.toNat ≤ (data.getD []).length)) :
    (∀ c : Nat → UInt8, (if Covered data dataLen pkt then
          bytesAt (data.getD []) pkt.offset.toNat pkt.length.toNat
        else readout (fun i => c (off + i)) pkt.length.toNat) = bytes) ↔
      bytesAt (data.getD []) pkt.offset.toNat pkt.length.toNat = bytes := by
  by_cases hc : Covered data dataLen pkt
  · simp only [if_pos hc, forall_const]
  · simp only [if_neg hc]
    by_cases hz : pkt.length = 0
    · rw [hz] at hlen
      have hnil : bytes = [] := List.eq_nil_of_length_eq_zero hlen
      simp [hz, hnil, readout, bytesAt]
    · have hpos : 0 < pkt.length.toNat := UInt32.lt_iff_toNat_lt.mp (UInt32.pos_iff_ne_zero.mpr hz)
      have hshort := mt (hcovered hz).mpr hc
      refine iff_of_false (fun h => ?_) fun h => ?_
      · -- a block that held other bytes
        have hbad := h fun i => bytes.getD (i - off) 0 + 1
        have h0 : 0 < bytes.length := hlen ▸ hpos
        have hget := congrArg (fun l => l.getD 0 0) hbad
        rw [← hlen] at hget
        simp only [readout, List.getD_eq_getElem?_getD, List.getElem?_map, List.getElem?_range h0,
          Option.map_some, Option.getD_some, Nat.add_zero, Nat.sub_self] at hget
        exact absurd hget (by simp)
      · have hbytes := congrArg List.length h
        rw [bytesAt, List.length_take, List.length_drop, hlen] at hbytes
        omega

theorem delivered_eq_iff {iso : List IsoPkt} {want : IsoPkt → List UInt8} (off : Nat)
    (hlen : ∀ pkt ∈ iso, (want pkt).length = pkt.length.toNat)
    (hcovered : ∀ pkt ∈ iso, pkt.length ≠ 0 → (Covered data dataLen pkt ↔
      pkt.offset.toNat + pkt.length.toNat ≤ (data.getD []).length)) :
    (∀ c, delivered data dataLen c off iso = iso.map want) ↔
      ∀ pkt ∈ iso, bytesAt (data.getD []) pkt.offset.toNat pkt.length.toNat = want pkt := by
  induction iso generalizing off with
  | nil => simp [delivered]
  | cons pkt iso ih =>
    obtain ⟨hl, hlen⟩ := List.forall_mem_cons.mp hlen
    obtain ⟨hc, hcovered⟩ := List.forall_mem_cons.mp hcovered
    simp only [delivered, List.map_cons, List.cons.injEq]
    rw [forall_and, delivered_head hl hc, ih _ hlen hcovered, List.forall_mem_cons]

end

/-! ### An IN transfer -/

/-- The packets with what was produced for them. -/
def answered (pkts : List IsoPkt) (produced : List (List UInt8)) : List IsoPkt :=
  pkts.zipWith (fun pkt packet => { pkt with actualLength := .ofNat packet.length, status := 0 })
    produced

section

variable {pkts : List IsoPkt} {produced : List (List UInt8)}

theorem answered_length
    (h : List.Forall₂ (fun pkt packet => packet.length ≤ pkt.length.toNat) pkts produced) :
    (answered pkts produced).length = pkts.length := by
  rw [answered, List.length_zipWith, ← h.length_eq, Nat.min_self]

theorem answered_actual
    (h : List.Forall₂ (fun pkt packet => packet.length ≤ pkt.length.toNat) pkts produced) :
    (answered pkts produced).map (fun pkt => pkt.actualLength.toNat) =
      produced.map List.length := by
  induction h with
  | nil => rfl
  | @cons pkt packet pkts produced hpkt hrest ih =>
    have hlt := pkt.length.toNat_lt
    have hfit : packet.length < UInt32.size := by rw [UInt32.size]; omega
    rw [answered, List.zipWith_cons_cons, List.map_cons, List.map_cons,
      UInt32.toNat_ofNat_of_lt' hfit]
    exact congrArg _ ih

theorem flatten_le
    (h : List.Forall₂ (fun pkt packet => packet.length ≤ pkt.length.toNat) pkts produced) :
    produced.flatten.length ≤ (pkts.map fun pkt => pkt.length.toNat).sum := by
  induction h with
  | nil => exact Nat.le_refl _
  | cons hpkt hrest ih =>
    rw [List.flatten_cons, List.length_append, List.map_cons, List.sum_cons]
    exact Nat.add_le_add hpkt ih

/-- The total that `usbip_send_ret_iso` adds up. -/
theorem total_answered
    (h : List.Forall₂ (fun pkt packet => packet.length ≤ pkt.length.toNat) pkts produced) :
    (answered pkts produced).foldl (fun total pkt => total + pkt.actualLength) 0 =
      UInt32.ofNat produced.flatten.length := by
  have := foldl_add_ofNat IsoPkt.actualLength (answered pkts produced) 0
  rwa [answered_actual h, Nat.zero_add, ← List.length_flatten] at this

end

theorem isoHdr_fields (urb : Urb) (total : UInt32) :
    (isoHdr urb total).length = usbipHdrLen ∧
      word (isoHdr urb total) usbipRetStatusOff = 0 ∧
      word (isoHdr urb total) usbipRetActualOff = total ∧
      word (isoHdr urb total) usbipRetNumpktsOff = .ofInt urb.numberOfPackets := by
  refine ⟨?_, ?_, ?_, ?_⟩ <;> simp [isoHdr, usbipHdrLen]

/-- The reply to an IN transfer: the header, the packets one after another, their descriptors. -/
theorem usbipSendRetIso_in {urb : Urb} {pkts : List IsoPkt} {produced : List (List UInt8)}
    (hin : urb.direction = usbIn) (hlt : produced.flatten.length < 2 ^ 32)
    (h : List.Forall₂ (fun pkt packet => packet.length ≤ pkt.length.toNat) pkts produced) :
    usbipSendRetIso urb (answered pkts produced) produced.flatten =
      isoHdr urb (.ofNat produced.flatten.length) ++
        (produced.flatten ++ (answered pkts produced).flatMap isoDescPack) := by
  have htotal : (UInt32.ofNat produced.flatten.length).toNat = produced.flatten.length :=
    UInt32.toNat_ofNat_of_lt' hlt
  have hsent : (if urb.direction = usbIn ∧ 0 < UInt32.ofNat produced.flatten.length then
      produced.flatten.take (UInt32.ofNat produced.flatten.length).toNat else []) =
        produced.flatten := by
    rw [htotal, List.take_length]
    split
    · rfl
    · rename_i hz
      have : ¬0 < produced.flatten.length := fun hpos =>
        hz ⟨hin, by rwa [UInt32.lt_iff_toNat_lt, htotal]⟩
      exact (List.eq_nil_of_length_eq_zero (by omega)).symm
  simp only [usbipSendRetIso, total_answered h, hsent]

end IsoXfer

namespace IsoXfer

section

variable {x : IsoXfer srv} {src : IsoSource} {produced : List (List UInt8)}

end

/-- The packets lie one after another in the buffer, from `off` on. -/
def BackToBack : Nat → List IsoPkt → Prop
  | _, [] => True
  | off, pkt :: pkts => pkt.offset.toNat = off ∧ BackToBack (off + pkt.length.toNat) pkts

theorem slot_eq (args : SubmitIsoArgs) (pkt : IsoPkt) :
    args.slot pkt = bytesAt args.buf pkt.offset.toNat pkt.length.toNat := by
  unfold SubmitIsoArgs.slot
  split
  · rfl
  · rename_i hz
    rw [Decidable.not_not.mp hz]
    rfl

theorem flatMap_slot (args : SubmitIsoArgs) {off : Nat} {pkts : List IsoPkt}
    (h : BackToBack off pkts) :
    pkts.flatMap args.slot = bytesAt args.buf off (pkts.map fun pkt => pkt.length.toNat).sum := by
  induction pkts generalizing off with
  | nil => rfl
  | cons pkt pkts ih =>
    obtain ⟨hoff, hrest⟩ := h
    rw [List.flatMap_cons, slot_eq, hoff, ih hrest, List.map_cons, List.sum_cons, bytesAt, bytesAt,
      bytesAt, List.take_add, List.drop_drop]

theorem BackToBack.stop_le {off : Nat} {pkts : List IsoPkt} (h : BackToBack off pkts) :
    ∀ pkt ∈ pkts, pkt.offset.toNat + pkt.length.toNat ≤
      off + (pkts.map fun pkt => pkt.length.toNat).sum := by
  induction pkts generalizing off with
  | nil => simp
  | cons pkt pkts ih =>
    obtain ⟨hoff, hrest⟩ := h
    rw [List.forall_mem_cons, List.map_cons, List.sum_cons]
    refine ⟨by omega, fun p hp => ?_⟩
    have := ih hrest p hp
    omega

/-- Packets without a gap between them arrive as they are. -/
theorem BackToBack.packed {x : IsoXfer srv} (h : BackToBack 0 x.pkts) (hout : x.dir = usbOut) :
    ∀ pkt ∈ x.pkts, bytesAt x.payload pkt.offset.toNat pkt.length.toNat =
      bytesAt x.buf pkt.offset.toNat pkt.length.toNat := by
  intro pkt hpkt
  have hstop := h.stop_le pkt hpkt
  rw [SubmitIsoArgs.payload, if_pos hout, flatMap_slot _ h, bytesAt, bytesAt, bytesAt,
    List.drop_zero, List.drop_take, List.take_take, Nat.min_eq_left (by omega)]

end IsoXfer

/-- A device with the isochronous OUT endpoint 1. -/
def Served.isoOut : Served where
  dev := ((Device.create ⟨0, 0, 0, 0, 0, 0, 0, 0, 0⟩).addEndpoint [7, 5, 1, 1, 64, 0, 1]).1
  stray _ _ := none

/-- A callback that produces nothing. -/
def IsoSource.silent : IsoSource where
  packets lens := lens.map fun _ => []
  fits _ := List.forall₂_map_right_iff.mpr (List.forall₂_same.mpr fun _ _ => Nat.zero_le _)

end Usbip.Wire
