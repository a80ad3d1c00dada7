import Usbip.Lib.Pcapng
import Usbip.Wire.Completion

/-! The capture file.  Each transfer is logged as events in the header format of Linux usbmon, and
each event is an enhanced packet block of a pcapng file; the blocks are written one after another
under a lock. -/

namespace Usbip.Capture

open Lib
open Wire (sizeT)

/-- The texts that `uname` and the library's version give, with room in a `struct utsname`. -/
structure Host where
  sysname : List UInt8
  release : List UInt8
  machine : List UInt8
  sysname_le : sysname.length ≤ 64
  release_le : release.length ≤ 64
  machine_le : machine.length ≤ 64

/-- What `malloc` gives: all sizes that an `int` counts, and none that a negative `int` turns into
as a `size_t`. -/
structure Heap where
  malloc : Nat → Bool
  small : ∀ n, n < 2 ^ 31 → malloc n = true
  huge : ∀ n, 2 ^ 63 ≤ n → malloc n = false

/-- A call of `usbip_pcap_packet`, with the time that it reads off the clock. `status` and `urb_len`
are the words that are stored. -/
structure Event where
  devid : UInt32
  seqnum : UInt32
  xferType : Int
  event : UInt8
  epAddr : Int
  status : UInt32
  setup : Option (Vector UInt8 8)
  data : List UInt8
  dataLen : Int
  urbLen : UInt32
  sec : UInt64
  usec : UInt32
  /-- `data_len` is an `int`, and `data` points to as many bytes -/
  dataLen_lt : dataLen < 2 ^ 31
  dataLen_le : dataLen ≤ data.length

/-- A value as an `int`. -/
def wrap32 (n : Int) : Int := int32 (UInt32.ofInt n)

/-! ### Blocks -/

def writeBlock (btype : Nat) (body : List UInt8) : List UInt8 :=
  let total := body.length + 12
  leBytes 4 btype ++ (leBytes 4 total ++ (body ++ leBytes 4 total))

def putOpt (code : Nat) (val : List UInt8) : List UInt8 :=
  leBytes 2 code ++ (leBytes 2 val.length ++ (val ++ zeros (pad4 val.length)))

/-- "USBIP 0.7.0 (github.com/jabezwinston/usbip-c)" -/
def userAppl : List UInt8 :=
  [0x55, 0x53, 0x42, 0x49, 0x50, 0x20, 0x30, 0x2e, 0x37, 0x2e, 0x30, 0x20, 0x28, 0x67, 0x69, 0x74,
    0x68, 0x75, 0x62, 0x2e, 0x63, 0x6f, 0x6d, 0x2f, 0x6a, 0x61, 0x62, 0x65, 0x7a, 0x77, 0x69, 0x6e,
    0x73, 0x74, 0x6f, 0x6e, 0x2f, 0x75, 0x73, 0x62, 0x69, 0x70, 0x2d, 0x63, 0x29]

/-- "usbmon" and "Virtual USB (USB/IP)" -/
def ifName : List UInt8 := [0x75, 0x73, 0x62, 0x6d, 0x6f, 0x6e]
def ifDescription : List UInt8 :=
  [0x56, 0x69, 0x72, 0x74, 0x75, 0x61, 0x6c, 0x20, 0x55, 0x53, 0x42, 0x20, 0x28, 0x55, 0x53, 0x42,
    0x2f, 0x49, 0x50, 0x29]

/-- `osbuf`: "%s %s". -/
def Host.osText (host : Host) : List UInt8 := host.sysname ++ 0x20 :: host.release

def writeShb (host : Host) : List UInt8 :=
  writeBlock 0x0a0d0d0a (leBytes 4 0x1a2b3c4d ++ (leBytes 2 1 ++ (leBytes 2 0 ++
    (leBytes 4 0xffffffff ++ (leBytes 4 0xffffffff ++ (putOpt 2 host.machine ++
      (putOpt 3 host.osText ++ (putOpt 4 userAppl ++ (leBytes 2 0 ++ leBytes 2 0)))))))))

def linktypeUsbLinuxMmapped : Nat := 220

def writeIdb : List UInt8 :=
  writeBlock 1 (leBytes 2 linktypeUsbLinuxMmapped ++ (leBytes 2 0 ++ (leBytes 4 0 ++
    (putOpt 2 ifName ++ (putOpt 3 ifDescription ++ (putOpt 9 [6] ++
      (leBytes 2 0 ++ leBytes 2 0)))))))

/-- `write_epb`; nothing is written when there is no memory for the body. -/
def writeEpb (heap : Heap) (data : List UInt8) (caplen : Int) (tsUsec : Nat) : List UInt8 :=
  let pad := pad4 caplen.toNat
  let bodyLen := wrap32 (20 + caplen + pad)
  if heap.malloc (sizeT bodyLen) then
    writeBlock 6 (leBytes 4 0 ++ (leBytes 4 (tsUsec / 2 ^ 32) ++ (leBytes 4 (tsUsec % 2 ^ 32) ++
      (leBytes 4 caplen.toNat ++ (leBytes 4 caplen.toNat ++ (data ++ zeros pad))))))
  else []

/-! ### Events -/

namespace Event

variable (e : Event)

/-- The bytes of the payload. -/
def payload : List UInt8 := e.data.take e.dataLen.toNat

/-- The usbmon header, from front to back. -/
def hdr : List UInt8 :=
  leBytes 8 e.seqnum.toNat ++
    ([e.event, UInt8.ofInt e.xferType, UInt8.ofInt e.epAddr, (e.devid &&& 0xff).toUInt8] ++
      (leBytes 2 ((e.devid >>> 16) &&& 0xffff).toNat ++
        ([if e.setup.isSome then 0 else 0x2d, if 0 < e.dataLen then 0 else 0x2d] ++
          (leBytes 8 e.sec.toNat ++ (leBytes 4 e.usec.toNat ++ (leBytes 4 e.status.toNat ++
            (leBytes 4 e.urbLen.toNat ++ (leBytes 4 (max e.dataLen 0).toNat ++
              ((e.setup.map Vector.toList).getD (zeros 8) ++ zeros 16)))))))))

/-- `ts_usec`, as a `uint64_t`. -/
def tsUsec : Nat := (e.sec * 1000000 + e.usec.toUInt64).toNat

end Event

/-- `usbip_pcap_packet`; nothing is written when there is no memory for the record. -/
def pcapPacket (heap : Heap) (e : Event) : List UInt8 :=
  let caplen := wrap32 (64 + max e.dataLen 0)
  if heap.malloc (sizeT caplen) then writeEpb heap (e.hdr ++ e.payload) caplen e.tsUsec else []

/-- The file after `usbip_pcap_open` and these events. -/
def captureFile (heap : Heap) (host : Host) (events : List Event) : List UInt8 :=
  writeShb host ++ writeIdb ++ events.flatMap (pcapPacket heap)

/-! ### Reading a capture -/

/-- What a usbmon packet says. -/
structure Usbmon where
  id : Nat
  event : UInt8
  xferType : Int
  epAddr : Int
  device : UInt8
  bus : Nat
  setup : Option (List UInt8)
  status : UInt32
  urbLen : UInt32
  payload : List UInt8
  deriving DecidableEq, Repr

/-- A packet of 64 bytes of header and the payload, whose length the header has too. -/
def readUsbmon (p : Pcapng.Packet) : Option Usbmon :=
  let data := p.data
  let flag := byteAt data 14
  let dataFlag := byteAt data 15
  let dataLen := leAt data 36 4
  if data.length = 64 + dataLen ∧ p.origLen = data.length ∧ (flag = 0 ∨ flag = 0x2d) ∧
      dataFlag = (if 0 < dataLen then 0 else 0x2d) then
    some
      { id := leAt data 0 8
        event := byteAt data 8
        xferType := (byteAt data 9).toNat
        epAddr := (byteAt data 10).toNat
        device := byteAt data 11
        bus := leAt data 12 2
        setup := if flag = 0 then some (bytesAt data 40 8) else none
        status := .ofNat (leAt data 28 4)
        urbLen := .ofNat (leAt data 32 4)
        payload := data.drop 64 }
  else none

/-- The events of a capture of one usbmon interface. -/
def readEvents (file : List UInt8) : Option (List Usbmon) :=
  (Pcapng.read file).bind fun capture =>
    if capture.linkType = linktypeUsbLinuxMmapped then capture.packets.mapM readUsbmon else none

/-- What a capture is to say about an event: the low byte of the device number, and all else as it
was. -/
def Event.shown (e : Event) : Usbmon where
  id := e.seqnum.toNat
  event := e.event
  xferType := e.xferType
  epAddr := e.epAddr
  device := (e.devid &&& 0xff).toUInt8
  bus := (e.devid >>> 16).toNat
  setup := e.setup.map Vector.toList
  status := e.status
  urbLen := e.urbLen
  payload := e.payload

/-- The body of the event's block has a length that an `int` counts, and its type and its endpoint
address are bytes. -/
structure Event.Fits (e : Event) : Prop where
  body : 20 + (64 + e.payload.length) + pad4 (64 + e.payload.length) < 2 ^ 31
  xferType : 0 ≤ e.xferType ∧ e.xferType < 256
  epAddr : 0 ≤ e.epAddr ∧ e.epAddr < 256

/-! ### What is written -/

theorem wrap32_of_lt {n : Int} (h0 : 0 ≤ n) (h : n < 2 ^ 31) : wrap32 n = n := by
  have hword : (UInt32.ofInt n).toNat = n.toNat := by
    rw [UInt32.ofInt, UInt32.toNat_ofNat']
    omega
  rw [wrap32, int32_eq, hword, if_pos (by omega)]
  exact Int.toNat_of_nonneg h0

theorem wrap32_of_le {n : Int} (h0 : 2 ^ 31 ≤ n) (h : n < 2 ^ 32) : wrap32 n = n - 2 ^ 32 := by
  have hword : (UInt32.ofInt n).toNat = n.toNat := by
    rw [UInt32.ofInt, UInt32.toNat_ofNat']
    omega
  rw [wrap32, int32_eq, hword, if_neg (by omega)]
  omega

/-- There is memory for a size exactly when its computation has not overflown. -/
theorem Heap.malloc_wrap32 (heap : Heap) {n : Int} (h0 : 0 ≤ n) (h : n < 2 ^ 32) :
    heap.malloc (sizeT (wrap32 n)) = true ↔ n < 2 ^ 31 := by
  by_cases hlt : n < 2 ^ 31
  · rw [wrap32_of_lt h0 hlt]
    refine iff_of_true (heap.small _ ?_) hlt
    rw [sizeT]
    omega
  · rw [wrap32_of_le (by omega) h]
    refine iff_of_false (fun htrue => ?_) hlt
    rw [heap.huge _ (by rw [sizeT]; omega)] at htrue
    cases htrue

namespace Event

variable (e : Event)

theorem payload_length : (e.payload.length : Int) = max e.dataLen 0 := by
  have := e.dataLen_le
  rw [payload, List.length_take]
  omega

theorem hdr_length : e.hdr.length = 64 := by
  have hsetup : ((e.setup.map Vector.toList).getD (zeros 8)).length = 8 := by
    cases e.setup with
    | none => rfl
    | some setup => exact setup.length_toList
  simp only [hdr, List.length_append, leBytes_length, List.length_cons, List.length_nil, hsetup,
    zeros_length]

/-- The packet of the event. -/
def record : List UInt8 := e.hdr ++ e.payload

theorem record_length : e.record.length = 64 + e.payload.length := by
  rw [record, List.length_append, hdr_length]

/-- The block of the event, which is written when its body has a length that an `int` counts. -/
def block : Pcapng.Block := ⟨Pcapng.packetBlock, Pcapng.packetBody e.tsUsec e.record⟩

/-- The length of the body is an `int`. -/
def bodyFits : Bool := 20 + (64 + e.payload.length) + pad4 (64 + e.payload.length) < 2 ^ 31

end Event

theorem pcapPacket_eq (heap : Heap) (e : Event) :
    pcapPacket heap e = if e.bodyFits then e.block.bytes else [] := by
  have hlen := e.payload_length
  have hlt := e.dataLen_lt
  have hpad := pad4_lt (64 + e.payload.length)
  rw [pcapPacket, ← hlen]
  have hbodyLen : heap.malloc (sizeT (wrap32 (20 + (64 + (e.payload.length : Int)) +
      pad4 (64 + e.payload.length)))) = true ↔
      (20 + (64 + (e.payload.length : Int)) + pad4 (64 + e.payload.length)) < 2 ^ 31 :=
    heap.malloc_wrap32 (by omega) (by omega)
  by_cases hcap : (64 : Int) + e.payload.length < 2 ^ 31
  · have hcaplen : (64 + (e.payload.length : Int)).toNat = 64 + e.payload.length := by omega
    rw [if_pos ((heap.malloc_wrap32 (by omega) (by omega)).mpr hcap),
      wrap32_of_lt (by omega) hcap, writeEpb, hcaplen]
    by_cases hbody : e.bodyFits = true
    · have hfits := of_decide_eq_true hbody
      rw [if_pos hbody, if_pos (hbodyLen.mpr (by omega)),
        Event.block, Pcapng.packetBody, e.record_length]
      rfl
    · have hover := fun h => hbody (decide_eq_true h)
      rw [if_neg hbody, if_neg fun h => hover (by have := hbodyLen.mp h; omega)]
  · rw [if_neg (by rw [heap.malloc_wrap32 (by omega) (by omega)]; exact hcap), if_neg]
    rw [Event.bodyFits, decide_eq_true_iff]
    omega

/-- The options of the two blocks at the front. -/
def Host.sectionOpts (host : Host) : List (Nat × List UInt8) :=
  [(2, host.machine), (3, host.osText), (4, userAppl)]

def ifaceOpts : List (Nat × List UInt8) := [(2, ifName), (3, ifDescription), (9, [6])]

theorem writeShb_eq (host : Host) : writeShb host =
    Pcapng.Block.bytes ⟨Pcapng.sectionHeader, Pcapng.sectionBody host.sectionOpts⟩ := by
  have hsize : leBytes 4 0xffffffff ++ leBytes 4 0xffffffff = leBytes 8 (2 ^ 64 - 1) := by decide
  have hopts : putOpt 2 host.machine ++ (putOpt 3 host.osText ++ (putOpt 4 userAppl ++
      (leBytes 2 0 ++ leBytes 2 0))) = Pcapng.optionsBytes host.sectionOpts := by
    rw [Pcapng.optionsBytes, Host.sectionOpts, List.flatMap_cons, List.flatMap_cons,
      List.flatMap_cons, List.flatMap_nil, List.append_nil, List.append_assoc, List.append_assoc]
    rfl
  rw [writeShb, hopts, Pcapng.sectionBody, ← hsize, List.append_assoc]
  rfl

theorem writeIdb_eq : writeIdb = Pcapng.Block.bytes
    ⟨Pcapng.interfaceBlock, Pcapng.interfaceBody linktypeUsbLinuxMmapped ifaceOpts⟩ := by
  decide

theorem captureFile_eq (heap : Heap) (host : Host) (events : List Event) :
    captureFile heap host events =
      (⟨Pcapng.sectionHeader, Pcapng.sectionBody host.sectionOpts⟩ ::
        ⟨Pcapng.interfaceBlock, Pcapng.interfaceBody linktypeUsbLinuxMmapped ifaceOpts⟩ ::
        ((events.filter Event.bodyFits).map fun e => (e.tsUsec, e.record)).map fun p =>
          (⟨Pcapng.packetBlock, Pcapng.packetBody p.1 p.2⟩ : Pcapng.Block)).flatMap
        Pcapng.Block.bytes := by
  have hevents : events.flatMap (pcapPacket heap) =
      ((events.filter Event.bodyFits).map Event.block).flatMap Pcapng.Block.bytes := by
    induction events with
    | nil => rfl
    | cons e events ih =>
      rw [List.flatMap_cons, ih, pcapPacket_eq]
      by_cases hfits : e.bodyFits = true
      · rw [if_pos hfits, List.filter_cons_of_pos hfits]
        rfl
      · rw [if_neg hfits, List.filter_cons_of_neg hfits]
        rfl
  rw [captureFile, hevents, writeShb_eq, writeIdb_eq, List.flatMap_cons, List.flatMap_cons,
    List.append_assoc, List.map_map]
  rfl

/-! ### What is read -/

/-- What a reader finds in the packet of an event. -/
def Event.read (e : Event) : Usbmon :=
  { e.shown with
    xferType := (UInt8.ofInt e.xferType).toNat
    epAddr := (UInt8.ofInt e.epAddr).toNat }

section record

variable (e : Event)

/-- The bytes of the record, field by field. -/
theorem Event.record_eq : e.record = leBytes 8 e.seqnum.toNat ++
    ([e.event, UInt8.ofInt e.xferType, UInt8.ofInt e.epAddr, (e.devid &&& 0xff).toUInt8] ++
      (leBytes 2 ((e.devid >>> 16) &&& 0xffff).toNat ++
        ([if e.setup.isSome then 0 else 0x2d, if 0 < e.dataLen then 0 else 0x2d] ++
          (leBytes 8 e.sec.toNat ++ (leBytes 4 e.usec.toNat ++ (leBytes 4 e.status.toNat ++
            (leBytes 4 e.urbLen.toNat ++ (leBytes 4 (max e.dataLen 0).toNat ++
              ((e.setup.map Vector.toList).getD (zeros 8) ++ (zeros 16 ++ e.payload)))))))))) := by
  simp only [Event.record, Event.hdr, List.append_assoc]

theorem byteAt_append {front rest : List UInt8} {b : UInt8} {off : Nat}
    (hoff : front.length = off) : byteAt (front ++ b :: rest) off = b := by
  subst hoff
  simp [byteAt]

theorem Event.record_id : leAt e.record 0 8 = e.seqnum.toNat := by
  rw [e.record_eq]
  exact leAt_front _ (Nat.lt_trans e.seqnum.toNat_lt (by decide))

theorem Event.record_bytes : byteAt e.record 8 = e.event ∧
    byteAt e.record 9 = UInt8.ofInt e.xferType ∧ byteAt e.record 10 = UInt8.ofInt e.epAddr ∧
    byteAt e.record 11 = (e.devid &&& 0xff).toUInt8 := by
  rw [e.record_eq]
  refine ⟨byteAt_append (leBytes_length 8 _), ?_, ?_, ?_⟩
  · rw [List.cons_append, List.append_cons]
    exact byteAt_append (by simp)
  · rw [List.cons_append, List.append_cons, List.cons_append, List.append_cons]
    exact byteAt_append (by simp)
  · rw [List.cons_append, List.append_cons, List.cons_append, List.append_cons, List.cons_append,
      List.append_cons]
    exact byteAt_append (by simp)

theorem Event.record_bus : leAt e.record 12 2 = (e.devid >>> 16).toNat := by
  have hbus : (e.devid >>> 16).toNat < 2 ^ 16 := by
    have := e.devid.toNat_lt
    rw [UInt32.toNat_shiftRight]
    simp only [UInt32.reduceToNat, Nat.reduceMod, Nat.shiftRight_eq_div_pow, Nat.reducePow]
    omega
  have hmask : ((e.devid >>> 16) &&& 0xffff).toNat = (e.devid >>> 16).toNat := by
    rw [UInt32.toNat_and]
    exact Nat.and_two_pow_sub_one_of_lt_two_pow hbus
  rw [e.record_eq, ← List.append_assoc, hmask]
  exact leAt_append _ hbus (by simp)

theorem Event.record_flags : byteAt e.record 14 = (if e.setup.isSome then 0 else 0x2d) ∧
    byteAt e.record 15 = if 0 < e.dataLen then 0 else 0x2d := by
  rw [e.record_eq, ← List.append_assoc, ← List.append_assoc]
  refine ⟨byteAt_append (by simp), ?_⟩
  rw [List.cons_append, List.append_cons]
  exact byteAt_append (by simp)

theorem Event.record_words : leAt e.record 28 4 = e.status.toNat ∧
    leAt e.record 32 4 = e.urbLen.toNat ∧ leAt e.record 36 4 = e.payload.length := by
  have hlen := e.payload_length
  have hlt := e.dataLen_lt
  have hword : (max e.dataLen 0).toNat = e.payload.length := by omega
  rw [e.record_eq, ← List.append_assoc, ← List.append_assoc, ← List.append_assoc,
    ← List.append_assoc, ← List.append_assoc, hword]
  refine ⟨leAt_append _ e.status.toNat_lt (by simp), ?_, ?_⟩
  · rw [← List.append_assoc]
    exact leAt_append _ e.urbLen.toNat_lt (by simp)
  · rw [← List.append_assoc, ← List.append_assoc]
    exact leAt_append _ (by omega) (by simp)

theorem Event.record_setup (setup : Vector UInt8 8) (h : e.setup = some setup) :
    bytesAt e.record 40 8 = setup.toList := by
  rw [e.record_eq, h, ← List.append_assoc, ← List.append_assoc, ← List.append_assoc,
    ← List.append_assoc, ← List.append_assoc, ← List.append_assoc, ← List.append_assoc,
    ← List.append_assoc]
  exact bytesAt_append _ (by simp) setup.length_toList

theorem Event.record_drop : e.record.drop 64 = e.payload :=
  List.drop_left' e.hdr_length

end record

theorem readUsbmon_record (e : Event) :
    readUsbmon ⟨0, e.tsUsec, e.record.length, e.record⟩ = some e.read := by
  obtain ⟨hevent, htype, hep, hdev⟩ := e.record_bytes
  obtain ⟨hsetupFlag, hdataFlag⟩ := e.record_flags
  obtain ⟨hstatus, hurb, hlen⟩ := e.record_words
  have hpos : 0 < e.payload.length ↔ 0 < e.dataLen := by
    have := e.payload_length
    omega
  have hflag : (if e.setup.isSome then (0 : UInt8) else 0x2d) = 0 ∨
      (if e.setup.isSome then (0 : UInt8) else 0x2d) = 0x2d := by
    split
    · exact .inl rfl
    · exact .inr rfl
  have hcond : e.record.length = 64 + leAt e.record 36 4 ∧ e.record.length = e.record.length ∧
      (byteAt e.record 14 = 0 ∨ byteAt e.record 14 = 0x2d) ∧
      byteAt e.record 15 = if 0 < leAt e.record 36 4 then 0 else 0x2d := by
    rw [hsetupFlag, hdataFlag, hlen]
    exact ⟨e.record_length, rfl, hflag, if_congr hpos.symm rfl rfl⟩
  rw [readUsbmon, if_pos hcond, hsetupFlag, e.record_id, hevent, htype, hep, hdev,
    e.record_bus, hstatus, hurb, e.record_drop, UInt32.ofNat_toNat, UInt32.ofNat_toNat]
  have hsetup : (if (if e.setup.isSome then (0 : UInt8) else 0x2d) = 0 then
      some (bytesAt e.record 40 8) else none) = e.setup.map Vector.toList := by
    cases hs : e.setup with
    | none => rfl
    | some setup => rw [Option.isSome_some, if_pos rfl, if_pos rfl, e.record_setup setup hs]; rfl
  rw [hsetup]
  rfl

theorem toNat_ofInt_iff (n : Int) : ((UInt8.ofInt n).toNat : Int) = n ↔ 0 ≤ n ∧ n < 256 := by
  rw [UInt8.ofInt, UInt8.toNat_ofNat']
  omega

/-- A reader finds the event as it was when its type and its address are bytes. -/
theorem Event.read_eq_shown_iff (e : Event) : e.read = e.shown ↔
    (0 ≤ e.xferType ∧ e.xferType < 256) ∧ 0 ≤ e.epAddr ∧ e.epAddr < 256 := by
  rw [← toNat_ofInt_iff, ← toNat_ofInt_iff]
  constructor
  · intro h
    exact ⟨congrArg Usbmon.xferType h, congrArg Usbmon.epAddr h⟩
  · rintro ⟨htype, hep⟩
    rw [Event.read, htype, hep]
    rfl

/-- The file holds the events whose blocks have been written, as a reader finds them. -/
theorem readEvents_captureFile (heap : Heap) (host : Host) (events : List Event) :
    readEvents (captureFile heap host events) =
      some ((events.filter Event.bodyFits).map Event.read) := by
  have hos : host.osText.length ≤ 129 := by
    have := host.sysname_le
    have := host.release_le
    simp only [Host.osText, List.length_append, List.length_cons]
    omega
  have hmachine := host.machine_le
  have hsection : ∀ opt ∈ host.sectionOpts, Pcapng.ProperOption opt := by
    simp only [Host.sectionOpts, List.forall_mem_cons]
    exact ⟨⟨⟨Nat.succ_pos 1, by simp only; omega⟩, by simp only; omega⟩,
      ⟨⟨Nat.succ_pos 2, by simp only; omega⟩, by simp only; omega⟩,
      ⟨by decide, by decide⟩, fun _ h => nomatch h⟩
  have hiface : ∀ opt ∈ ifaceOpts, Pcapng.ProperOption opt := by
    simp only [ifaceOpts, List.forall_mem_cons]
    exact ⟨⟨by decide, by decide⟩, ⟨by decide, by decide⟩, ⟨by decide, by decide⟩,
      fun _ h => nomatch h⟩
  have hsecLen : (Pcapng.sectionBody host.sectionOpts).length + 12 < 256 ^ 4 := by
    have := pad4_lt host.machine.length
    have := pad4_lt host.osText.length
    have : (Pcapng.optionBytes 4 userAppl).length = 52 := by decide
    simp only [Pcapng.sectionBody, Pcapng.optionsBytes, Host.sectionOpts, List.flatMap_cons,
      List.flatMap_nil, List.length_append, leBytes_length, Pcapng.optionBytes_length 2,
      Pcapng.optionBytes_length 3, List.length_nil, zeros_length]
    omega
  have hpackets : ∀ p ∈ (events.filter Event.bodyFits).map fun e => (e.tsUsec, e.record),
      p.1 < 2 ^ 64 ∧ (Pcapng.packetBody p.1 p.2).length + 12 < 256 ^ 4 := by
    rw [List.forall_mem_map]
    intro e he
    have hfits := of_decide_eq_true (List.mem_filter.mp he).2
    refine ⟨(e.sec * 1000000 + e.usec.toUInt64).toNat_lt, ?_⟩
    rw [Pcapng.packetBody_length, e.record_length]
    omega
  rw [readEvents, captureFile_eq, Pcapng.read_blocks hsection hiface (by decide) hsecLen (by decide)
    hpackets, Option.bind_some, if_pos rfl, List.map_map]
  exact mapM_map fun e _ => readUsbmon_record e

/-- A capture reads back as the events it was made of if and only if the length of each block's body
is an `int`, and each type and each endpoint address is a byte. -/
theorem captured_iff_fits (heap : Heap) (host : Host) (events : List Event) :
    readEvents (captureFile heap host events) = some (events.map Event.shown) ↔
      ∀ e ∈ events, e.Fits := by
  rw [readEvents_captureFile, Option.some_inj]
  constructor
  · intro h e he
    have hall : events.filter Event.bodyFits = events := by
      have hlen := congrArg List.length h
      rw [List.length_map, List.length_map, List.length_filter_eq_length_iff] at hlen
      exact List.filter_eq_self.mpr hlen
    rw [hall, List.map_inj_left] at h
    obtain ⟨htype, hep⟩ := e.read_eq_shown_iff.mp (h e he)
    rw [← hall] at he
    exact ⟨of_decide_eq_true (List.mem_filter.mp he).2, htype, hep⟩
  · intro h
    have hall : events.filter Event.bodyFits = events :=
      List.filter_eq_self.mpr fun e he => decide_eq_true (h e he).body
    rw [hall, List.map_inj_left]
    exact fun e he => e.read_eq_shown_iff.mpr ⟨(h e he).xferType, (h e he).epAddr⟩

/-- A completed bulk IN transfer. -/
def Event.bulkIn (data : List UInt8) (h : data.length < 2 ^ 31) : Event where
  devid := 0x10002
  seqnum := 1
  xferType := 3
  event := 0x43
  epAddr := 0x81
  status := 0
  setup := none
  data
  dataLen := data.length
  urbLen := .ofNat data.length
  sec := 0
  usec := 0
  dataLen_lt := by omega
  dataLen_le := le_refl _

theorem Event.bulkIn_payload (data : List UInt8) (h : data.length < 2 ^ 31) :
    (Event.bulkIn data h).payload = data := by
  rw [payload, bulkIn, Int.toNat_natCast, List.take_length]

/-- The length of a block for 2147483647 bytes is a 32-bit number, but the length of the packet is
no `int`, and the block is not written. -/
theorem captured_fails : ¬∀ (heap : Heap) (host : Host) (events : List Event),
    (∀ e ∈ events, e.block.bytes.length < 2 ^ 32) →
      readEvents (captureFile heap host events) = some (events.map Event.shown) := by
  intro h
  obtain ⟨data, hdata⟩ : ∃ data : List UInt8, data.length = 2 ^ 31 - 1 :=
    ⟨List.replicate (2 ^ 31 - 1) 0, List.length_replicate⟩
  have hlt : data.length < 2 ^ 31 := by omega
  have hpayload := Event.bulkIn_payload data hlt
  generalize Event.bulkIn data hlt = e at hpayload
  have hblock : ∀ e' ∈ [e], e'.block.bytes.length < 2 ^ 32 := by
    intro e' he
    have hpad := pad4_lt e.record.length
    rw [List.mem_singleton.mp he, Pcapng.Block.bytes_length, Event.block, Pcapng.packetBody_length]
    rw [Event.record_length, hpayload] at hpad ⊢
    omega
  have hfits : ¬e.bodyFits = true := by
    rw [Event.bodyFits, decide_eq_true_iff, hpayload]
    omega
  have hread := h ⟨fun n => n < 2 ^ 31, fun n hn => decide_eq_true hn,
    fun n hn => decide_eq_false (by omega)⟩ ⟨[], [], [], by decide, by decide, by decide⟩ _ hblock
  rw [readEvents_captureFile, List.filter_cons_of_neg hfits] at hread
  cases hread

end Usbip.Capture
