import Usbip.Lib.Stream
import Usbip.Build.Device
import Usbip.Serve.Step

/-! The command reader of the server: a 48-byte header, the payload of an OUT transfer, and the
packet descriptors of a transfer that the endpoint map routes to an isochronous endpoint. -/

namespace Usbip.Wire

open Lib

def usbipCmdSubmit : UInt32 := 1
def usbipCmdUnlink : UInt32 := 2
def usbipRetSubmit : UInt32 := 3

def usbipHdrLen : Nat := 48
@[simp] def usbipHdrCommandOff : Nat := 0
@[simp] def usbipHdrSeqnumOff : Nat := 4
@[simp] def usbipHdrDevidOff : Nat := 8
@[simp] def usbipHdrDirectionOff : Nat := 12
@[simp] def usbipHdrEpOff : Nat := 16
@[simp] def usbipCmdFlagsOff : Nat := 20
@[simp] def usbipCmdLengthOff : Nat := 24
@[simp] def usbipCmdNumpktsOff : Nat := 32
@[simp] def usbipCmdIntervalOff : Nat := 36
@[simp] def usbipCmdSetupOff : Nat := 40
@[simp] def usbipUnlinkSeqnumOff : Nat := 20
@[simp] def usbipIsoDescLen : Nat := 16

/-- `USB_OUT` and `USB_IN` as words. -/
def usbOut : UInt32 := 0
def usbIn : UInt32 := 1

/-- `USB_ISO`, in `bmAttributes`. -/
def usbIso : UInt8 := 1

/-- `struct urb`. A pointer is `none` when it is null. -/
structure Urb where
  command : UInt32
  seqnum : UInt32
  devid : UInt32
  direction : UInt32
  ep : UInt32
  flags : UInt32
  unlinkSeqnum : UInt32
  length : Int
  interval : Int
  numberOfPackets : Int
  iso : Option (List IsoPkt)
  setup : List UInt8
  data : Option (List UInt8)
  dataLen : Int
  deriving DecidableEq, Repr

def Urb.zero : Urb where
  command := 0
  seqnum := 0
  devid := 0
  direction := 0
  ep := 0
  flags := 0
  unlinkSeqnum := 0
  length := 0
  interval := 0
  numberOfPackets := 0
  iso := none
  setup := List.replicate 8 0
  data := none
  dataLen := 0

/-- A device that is served, and what the memory around its `ep_map` reads as. -/
structure Served where
  dev : Device
  stray : Int → Int → Option Ep

/-- A device with the bulk OUT endpoint 1. -/
def Served.bulkOut : Served where
  dev := ((Device.create ⟨0, 0, 0, 0, 0, 0, 0, 0, 0⟩).addEndpoint (endpointDesc 1)).1
  stray _ _ := none

/-- A cell of `ep_map` that the code reads: the row and the column that it computes. -/
structure Look where
  ep : Int
  dir : Int
  deriving DecidableEq, Repr

/-- The cell is one of the 16 × 2. -/
def Look.InRange (look : Look) : Prop :=
  (0 ≤ look.ep ∧ look.ep < 16) ∧ (look.dir = 0 ∨ look.dir = 1)

instance (look : Look) : Decidable look.InRange := inferInstanceAs (Decidable (_ ∧ _))

/-- `dev->ep_map[ep][dir]`. -/
def Served.epMap (srv : Served) (look : Look) : Option Ep :=
  if look.InRange then srv.dev.held look.ep.toNat (if look.dir = 1 then .usbIn else .usbOut)
  else srv.stray look.ep look.dir

/-- `urb->ep < 16 ? dev->ep_map[urb->ep][urb->direction] : NULL`: the cell that it reads. -/
def epCell (ep direction : UInt32) : Option Look :=
  if ep < 16 then some ⟨ep.toNat, direction.toNat⟩ else none

/-- What the lookup finds. -/
def Served.epFor (srv : Served) (ep direction : UInt32) : Option Ep :=
  (epCell ep direction).bind srv.epMap

/-- The lookup finds an isochronous endpoint. -/
def Served.Iso (srv : Served) (ep direction : UInt32) : Prop :=
  ∃ e ∈ srv.epFor ep direction, e.type = usbIso

instance (srv : Served) (ep direction : UInt32) : Decidable (srv.Iso ep direction) :=
  decidable_of_iff ((srv.epFor ep direction).any fun e => e.type = usbIso)
    (by simp [Served.Iso, Option.any_eq_true])

/-- `memset(hdr, 0, USBIP_HDR_LEN)`. -/
def zeroHdr : List UInt8 := List.replicate usbipHdrLen 0

def putBasicHdr (command seqnum devid direction ep : UInt32) : List UInt8 :=
  let hdr := putBe32 zeroHdr usbipHdrCommandOff command
  let hdr := putBe32 hdr usbipHdrSeqnumOff seqnum
  let hdr := putBe32 hdr usbipHdrDevidOff devid
  let hdr := putBe32 hdr usbipHdrDirectionOff direction
  putBe32 hdr usbipHdrEpOff ep

def isoDescPack (pkt : IsoPkt) : List UInt8 :=
  be32 pkt.offset ++ be32 pkt.length ++ be32 pkt.actualLength ++ be32 pkt.status

def isoDescParse (raw : List UInt8) : IsoPkt where
  offset := word raw 0
  length := word raw 4
  actualLength := word raw 8
  status := word raw 12

/-- `i * USBIP_ISO_DESC_LEN`, where the loops over packet descriptors read or write descriptor `i` of
a block. The product is an `int`, and beyond its range C leaves it undefined. -/
def isoDescOff (i : Nat) : Int := int32 (.ofNat (i * usbipIsoDescLen))

/-- The loops find each of `np` descriptors inside the block of all of them. -/
def DescsInside (np : Nat) : Prop :=
  ∀ i, i < np → 0 ≤ isoDescOff i ∧ isoDescOff i + usbipIsoDescLen ≤ (np * usbipIsoDescLen : Nat)

theorem isoDescOff_eq {i : Nat} (hi : i ≤ 2 ^ 27) :
    isoDescOff i = if i < 2 ^ 27 then (i * 16 : Int) else -2 ^ 31 := by
  rw [isoDescOff, usbipIsoDescLen, int32_eq,
    UInt32.toNat_ofNat_of_lt' (by rw [UInt32.size]; omega)]
  split <;> split <;> omega

/-- The offset of the descriptor behind the first 2²⁷ is negative. -/
theorem descsInside_iff {np : Nat} : DescsInside np ↔ np ≤ 2 ^ 27 := by
  constructor
  · intro h
    by_contra hlt
    have hneg := (h (2 ^ 27) (by omega)).1
    rw [isoDescOff_eq (Nat.le_refl _), if_neg (Nat.lt_irrefl _)] at hneg
    omega
  · intro hle i hi
    rw [isoDescOff_eq (by omega), if_pos (by omega), usbipIsoDescLen]
    omega

instance (np : Nat) : Decidable (DescsInside np) := decidable_of_iff _ descsInside_iff.symm

/-- The packet descriptors in a block of `np` of them, where `DescsInside np`. -/
def isoDescs (np : Nat) (raw : List UInt8) : List IsoPkt :=
  (List.range np).map fun i => isoDescParse (recordAt usbipIsoDescLen raw i)

/-- The fields that `usbip_read_cmd` sets for every command. -/
def readBasic (urb : Urb) (hdr : List UInt8) : Urb :=
  { urb with
    command := word hdr usbipHdrCommandOff
    seqnum := word hdr usbipHdrSeqnumOff
    devid := word hdr usbipHdrDevidOff
    direction := word hdr usbipHdrDirectionOff
    ep := word hdr usbipHdrEpOff
    data := none
    dataLen := 0
    numberOfPackets := 0
    iso := none }

/-- What `usbip_read_cmd` takes from the header. The fields that the command does not carry keep
what the record holds. -/
def readHeader (urb : Urb) (hdr : List UInt8) : Urb :=
  if word hdr usbipHdrCommandOff = usbipCmdSubmit then
    { readBasic urb hdr with
      flags := word hdr usbipCmdFlagsOff
      length := int32 (word hdr usbipCmdLengthOff)
      numberOfPackets := int32 (word hdr usbipCmdNumpktsOff)
      interval := int32 (word hdr usbipCmdIntervalOff)
      setup := bytesAt hdr usbipCmdSetupOff 8 }
  else if word hdr usbipHdrCommandOff = usbipCmdUnlink then
    { readBasic urb hdr with unlinkSeqnum := word hdr usbipUnlinkSeqnumOff }
  else readBasic urb hdr

/-- The transfer buffer of an OUT transfer. -/
def readPayload (urb : Urb) (s : List UInt8) : Option (Urb × List UInt8) :=
  if urb.direction = usbOut ∧ 0 < urb.length then
    (readn urb.length.toNat s).map fun got =>
      ({ urb with data := some got.1, dataLen := urb.length }, got.2)
  else some (urb, s)

/-- The packet descriptors, which are on the wire only when the endpoint is isochronous. -/
def readIso (srv : Served) (urb : Urb) (s : List UInt8) : Option (Urb × List UInt8) :=
  if srv.Iso urb.ep urb.direction ∧ 0 < urb.numberOfPackets then
    (readn (urb.numberOfPackets.toNat * usbipIsoDescLen) s).map fun got =>
      ({ urb with iso := some (isoDescs urb.numberOfPackets.toNat got.1) }, got.2)
  else some (urb, s)

/-- `usbip_read_cmd` on the record `old`: the cells of the map that it reads, and the command with
the rest of the stream, or `none` when the stream ends before. -/
def readCmd (srv : Served) (old : Urb) (s : List UInt8) :
    List Look × Option (Urb × List UInt8) :=
  match readn usbipHdrLen s with
  | none => ([], none)
  | some (hdr, s) =>
    if word hdr usbipHdrCommandOff = usbipCmdSubmit then
      match readPayload (readHeader old hdr) s with
      | none => ([], none)
      | some (urb, s) => ((epCell urb.ep urb.direction).toList, readIso srv urb s)
    else ([], some (readHeader old hdr, s))

/-- The lookup stays in the map exactly when the direction is one of the two, for an endpoint that
has a row. -/
theorem epCell_inRange {ep direction : UInt32} :
    (∀ look ∈ epCell ep direction, look.InRange) ↔
      (ep < 16 → direction = usbOut ∨ direction = usbIn) := by
  have hdir : ∀ n : Nat, n < UInt32.size → ((direction.toNat : Int) = n ↔ direction = n.toUInt32) := by
    intro n hn
    rw [← UInt32.toNat_inj, Int.natCast_inj]
    exact ⟨fun h => by rw [h]; exact (UInt32.toNat_ofNat_of_lt' hn).symm,
      fun h => h.trans (UInt32.toNat_ofNat_of_lt' hn)⟩
  have hcell : (⟨ep.toNat, direction.toNat⟩ : Look).InRange ↔
      ep < 16 ∧ (direction = usbOut ∨ direction = usbIn) := by
    have h0 := hdir 0 (by decide)
    have h1 := hdir 1 (by decide)
    refine and_congr ?_ (or_congr h0 h1)
    rw [UInt32.lt_iff_toNat_lt]
    exact ⟨fun h => Int.ofNat_lt.mp h.2, fun h => ⟨Int.natCast_nonneg _, Int.ofNat_lt.mpr h⟩⟩
  unfold epCell
  split
  · rename_i hep
    simp [hcell, hep]
  · rename_i hep
    exact ⟨fun _ h => absurd h hep, fun _ _ h => nomatch h⟩

/-! ### Headers -/

@[simp] theorem zeroHdr_length : zeroHdr.length = 48 := by
  simp [zeroHdr, usbipHdrLen]

@[simp] theorem putBasicHdr_length (command seqnum devid direction ep : UInt32) :
    (putBasicHdr command seqnum devid direction ep).length = 48 := by
  simp [putBasicHdr]

theorem putBasicHdr_basic (command seqnum devid direction ep : UInt32) :
    let hdr := putBasicHdr command seqnum devid direction ep
    word hdr 0 = command ∧ word hdr 4 = seqnum ∧ word hdr 8 = devid ∧ word hdr 12 = direction ∧
      word hdr 16 = ep := by
  refine ⟨?_, ?_, ?_, ?_, ?_⟩ <;> simp [putBasicHdr]

theorem putBasicHdr_rest (command seqnum devid direction ep : UInt32) :
    let hdr := putBasicHdr command seqnum devid direction ep
    word hdr 20 = 0 ∧ word hdr 32 = 0 ∧ bytesAt hdr 40 8 = List.replicate 8 0 := by
  have h20 : word zeroHdr 20 = 0 := word_replicate_zero (by decide)
  have h32 : word zeroHdr 32 = 0 := word_replicate_zero (by decide)
  have h40 : bytesAt zeroHdr 40 8 = List.replicate 8 0 := bytesAt_replicate 0 (by decide)
  refine ⟨?_, ?_, ?_⟩ <;> simp [putBasicHdr, h20, h32, h40]

section
variable {old urb : Urb} {hdr s : List UInt8}

/-- Every command has the five basic fields of its own header. -/
theorem readHeader_basic (old : Urb) (hdr : List UInt8) :
    (readHeader old hdr).command = word hdr usbipHdrCommandOff ∧
      (readHeader old hdr).seqnum = word hdr usbipHdrSeqnumOff ∧
      (readHeader old hdr).devid = word hdr usbipHdrDevidOff ∧
      (readHeader old hdr).direction = word hdr usbipHdrDirectionOff ∧
      (readHeader old hdr).ep = word hdr usbipHdrEpOff := by
  unfold readHeader
  split
  · exact ⟨rfl, rfl, rfl, rfl, rfl⟩
  · split <;> exact ⟨rfl, rfl, rfl, rfl, rfl⟩

@[simp] theorem readHeader_command : (readHeader old hdr).command = word hdr usbipHdrCommandOff :=
  (readHeader_basic old hdr).1

/-- The record of a `CMD_SUBMIT` before its payload is read: only the target of an unlink is left of
the old record. -/
theorem readHeader_submit (old : Urb) (h : word hdr usbipHdrCommandOff = usbipCmdSubmit) :
    readHeader old hdr =
      { command := usbipCmdSubmit
        seqnum := word hdr usbipHdrSeqnumOff
        devid := word hdr usbipHdrDevidOff
        direction := word hdr usbipHdrDirectionOff
        ep := word hdr usbipHdrEpOff
        flags := word hdr usbipCmdFlagsOff
        unlinkSeqnum := old.unlinkSeqnum
        length := int32 (word hdr usbipCmdLengthOff)
        interval := int32 (word hdr usbipCmdIntervalOff)
        numberOfPackets := int32 (word hdr usbipCmdNumpktsOff)
        iso := none
        setup := bytesAt hdr usbipCmdSetupOff 8
        data := none
        dataLen := 0 } := by
  rw [readHeader, if_pos h, readBasic, h]

theorem readCmd_other (srv : Served) (old : Urb) {body : List UInt8}
    (hread : readn usbipHdrLen s = some (hdr, body))
    (hc : word hdr usbipHdrCommandOff ≠ usbipCmdSubmit) :
    readCmd srv old s = ([], some (readHeader old hdr, body)) := by
  rw [readCmd, hread]
  exact if_neg hc

theorem readCmd_truncated {srv : Served} {body : List UInt8}
    (hread : readn usbipHdrLen s = some (hdr, body))
    (hc : word hdr usbipHdrCommandOff = usbipCmdSubmit)
    (hp : readPayload (readHeader old hdr) body = none) : readCmd srv old s = ([], none) := by
  rw [readCmd, hread]
  refine (if_pos hc).trans ?_
  rw [hp]

theorem readCmd_submit {srv : Served} {body : List UInt8} {s' : List UInt8}
    (hread : readn usbipHdrLen s = some (hdr, body))
    (hc : word hdr usbipHdrCommandOff = usbipCmdSubmit)
    (hp : readPayload (readHeader old hdr) body = some (urb, s')) :
    readCmd srv old s = ((epCell urb.ep urb.direction).toList, readIso srv urb s') := by
  rw [readCmd, hread]
  refine (if_pos hc).trans ?_
  rw [hp]

/-- The payload changes nothing else in the record. -/
theorem readPayload_frame {urb' : Urb} {s' : List UInt8}
    (h : readPayload urb s = some (urb', s')) :
    ∃ data dataLen, urb' = { urb with data, dataLen } := by
  unfold readPayload at h
  split at h
  · obtain ⟨got, -, hgot⟩ := Option.map_eq_some_iff.mp h
    cases hgot
    exact ⟨_, _, rfl⟩
  · cases h
    exact ⟨_, _, rfl⟩

/-- Packet descriptors are read only for an isochronous endpoint, and change nothing else in the
record. -/
theorem readIso_frame {srv : Served} {urb' : Urb} {s' : List UInt8}
    (h : readIso srv urb s = some (urb', s')) :
    ∃ iso, urb' = { urb with iso } ∧ (iso ≠ urb.iso → srv.Iso urb.ep urb.direction) := by
  unfold readIso at h
  split at h
  · rename_i hiso
    obtain ⟨got, -, hgot⟩ := Option.map_eq_some_iff.mp h
    cases hgot
    exact ⟨_, rfl, fun _ => hiso.1⟩
  · cases h
    exact ⟨_, rfl, fun hne => absurd rfl hne⟩

/-- The payload is what stands at the front of the stream, when its length is the one announced. -/
theorem readPayload_append (urb : Urb) (payload s : List UInt8)
    (hout : urb.direction = usbOut ∧ 0 < urb.length → (payload.length : Int) = urb.length)
    (hno : ¬(urb.direction = usbOut ∧ 0 < urb.length) →
      payload = [] ∧ urb.data = none ∧ urb.dataLen = 0) :
    ∃ data, readPayload urb (payload ++ s) =
      some ({ urb with data, dataLen := payload.length }, s) ∧ data.getD [] = payload := by
  unfold readPayload
  split
  · rename_i h
    refine ⟨some payload, ?_, rfl⟩
    rw [← hout h, Int.toNat_natCast, readn_append]
    rfl
  · rename_i h
    obtain ⟨rfl, hdata, hlen⟩ := hno h
    refine ⟨urb.data, ?_, by rw [hdata]; rfl⟩
    rw [List.nil_append, List.length_nil, ← Int.natCast_zero.symm, ← hlen]

@[simp] theorem isoDescPack_length (pkt : IsoPkt) : (isoDescPack pkt).length = usbipIsoDescLen := rfl

@[simp] theorem isoDescParse_pack (pkt : IsoPkt) : isoDescParse (isoDescPack pkt) = pkt := by
  have h0 := getBe32_be32 pkt.offset []
  have h4 := getBe32_be32 pkt.length []
  have h8 := getBe32_be32 pkt.actualLength []
  have h12 := getBe32_be32 pkt.status []
  cases pkt
  exact congr (congr (congr (congrArg IsoPkt.mk h0) h4) h8) h12

theorem isoDescs_flatMap (pkts : List IsoPkt) :
    isoDescs pkts.length (pkts.flatMap isoDescPack) = pkts := by
  have h := congrArg (List.map isoDescParse) (map_recordAt_flatMap isoDescPack_length pkts)
  rw [List.map_map, List.map_map] at h
  exact h.trans (List.map_id'' isoDescParse_pack pkts)

theorem readIso_none {srv : Served} (hnp : ¬0 < urb.numberOfPackets) :
    readIso srv urb s = some (urb, s) := if_neg fun h => hnp h.2

/-- The packet descriptors are what stands at the front of the stream, when the endpoint is
isochronous. -/
theorem readIso_append (srv : Served) (urb : Urb) (pkts : List IsoPkt) (s : List UInt8)
    (hiso : pkts ≠ [] → srv.Iso urb.ep urb.direction) (hnp : urb.numberOfPackets = pkts.length)
    (hnone : urb.iso = none) :
    ∃ iso, readIso srv urb (pkts.flatMap isoDescPack ++ s) = some ({ urb with iso }, s) ∧
      iso.getD [] = pkts := by
  have hnat : urb.numberOfPackets.toNat = pkts.length := by rw [hnp, Int.toNat_natCast]
  by_cases hpkts : pkts = []
  · refine ⟨urb.iso, ?_, by rw [hnone, hpkts]; rfl⟩
    rw [readIso_none (by rw [hnp, hpkts]; exact Int.lt_irrefl 0), hpkts]
    rfl
  · have hpos : 0 < urb.numberOfPackets := by
      rw [hnp]
      exact Int.natCast_pos.mpr (List.length_pos_iff.mpr hpkts)
    refine ⟨some pkts, ?_, rfl⟩
    rw [readIso, if_pos ⟨hiso hpkts, hpos⟩, hnat, ← length_flatMap_const isoDescPack_length pkts,
      readn_append, Option.map_some, isoDescs_flatMap]

end

end Usbip.Wire
