import Usbip.Wire.Depad

/-! The reply to an isochronous IN transfer, which goes out at once, or with the pacer from the copy
that `pace_submit` has made.  The block that the callback fills has the size of all that the host
asks for, added up in 32 bits. -/

namespace Usbip.Wire

open Lib

/-- `struct paced_ret`, as far as the reply goes. `data` is `none` when it is null. -/
structure PacedIso where
  seqnum : UInt32
  devid : UInt32
  direction : UInt32
  ep : UInt32
  npkts : Int
  iso : List IsoPkt
  data : Option (List UInt8)
  dataLen : UInt32
  deriving DecidableEq, Repr

/-- The copy of the descriptors and of `dataLen` bytes. -/
def paceSubmit (urb : Urb) (iso : List IsoPkt) (data : List UInt8) (dataLen : UInt32) :
    PacedIso where
  seqnum := urb.seqnum
  devid := urb.devid
  direction := urb.direction
  ep := urb.ep
  npkts := urb.numberOfPackets
  iso := iso
  data := if dataLen ≠ 0 then some (data.take dataLen.toNat) else none
  dataLen := dataLen

/-- What `pacer_run` writes for an entry, from a record of its own. -/
def PacedIso.send (entry : PacedIso) : List UInt8 :=
  usbipSendRetIso
    { Urb.zero with
      seqnum := entry.seqnum
      devid := entry.devid
      direction := entry.direction
      ep := entry.ep
      numberOfPackets := entry.npkts
      iso := some entry.iso }
    entry.iso (entry.data.getD [])

/-- The end of the IN branch of `usbip_device_dispatch`, with pacing or without. -/
def answerIsoIn (paced : Bool) (src : IsoSource) (urb : Urb) : List UInt8 :=
  let iso := urb.iso.getD []
  let produced := src.packets (iso.map IsoPkt.length)
  let actual := produced.foldl (fun actual packet => actual + .ofNat packet.length) 0
  if paced then (paceSubmit urb (IsoXfer.answered iso produced) produced.flatten actual).send
  else (dispatchIsoIn src urb).reply

namespace IsoUrb

variable {srv : Served}

/-- What the callback produces for the URB. -/
def produced (x : IsoUrb srv usbIn) (src : IsoSource) : List (List UInt8) :=
  src.packets (x.pkts.map IsoPkt.length)

/-- The reply has a header, the packets, and the descriptors with the lengths that were produced. -/
structure Tells (x : IsoUrb srv usbIn) (src : IsoSource) (reply hdr raw : List UInt8) :
    Prop where
  parts : reply = hdr ++ ((x.produced src).flatten ++ raw)
  hdr_length : hdr.length = usbipHdrLen
  command : word hdr usbipHdrCommandOff = usbipRetSubmit
  seqnum : word hdr usbipHdrSeqnumOff = x.urb.seqnum
  status : word hdr usbipRetStatusOff = 0
  actual : (word hdr usbipRetActualOff).toNat = ((x.produced src).map List.length).sum
  numpkts : word hdr usbipRetNumpktsOff = .ofNat x.pkts.length
  raw_length : raw.length = x.pkts.length * usbipIsoDescLen
  descs : isoDescs x.pkts.length raw = IsoXfer.answered x.pkts (x.produced src)
  lengths : (isoDescs x.pkts.length raw).map (fun pkt => pkt.actualLength.toNat) =
    (x.produced src).map List.length

/-- The descriptors are parsed from inside their block and packed into one again, the block of the
packets has room for all that the host asks for, and both ways the reply has what the callback has
produced. -/
structure Answered (x : IsoUrb srv usbIn) (src : IsoSource) : Prop where
  inside : DescsInside x.pkts.length
  room : (x.pkts.map fun pkt => pkt.length.toNat).sum ≤ blockSize x.pkts
  reply : ∀ paced, ∃ hdr raw, x.Tells src (answerIsoIn paced src x.urb) hdr raw

/-! ### The number of packets -/

theorem readIso_counted {urb urb' : Urb} {s s' : List UInt8}
    (h : readIso srv urb s = some (urb', s')) (hiso : srv.Iso urb.ep urb.direction)
    (hnp : 0 < urb'.numberOfPackets) : urb'.numberOfPackets = ((urb'.iso.getD []).length : Int) := by
  rw [readIso] at h
  split at h
  · obtain ⟨got, -, heq⟩ := Option.map_eq_some_iff.mp h
    cases heq
    show urb.numberOfPackets = ((isoDescs urb.numberOfPackets.toNat got.1).length : Int)
    rw [isoDescs, List.length_map, List.length_range, Int.toNat_of_nonneg (Int.le_of_lt hnp)]
  · rename_i hno
    cases h
    exact absurd ⟨hiso, hnp⟩ hno

/-- The record has as many descriptors as it tells. -/
theorem numberOfPackets_eq {dir : UInt32} (x : IsoUrb srv dir) :
    x.urb.numberOfPackets = (x.pkts.length : Int) := by
  obtain ⟨old, s, urb, rest, h, -, hiso, hnp, -⟩ := x
  show urb.numberOfPackets = ((urb.iso.getD []).length : Int)
  replace hnp : 0 < urb.numberOfPackets := hnp
  cases hread : readn usbipHdrLen s with
  | none =>
    rw [readCmd, hread] at h
    cases h
  | some got =>
    obtain ⟨hdr, body⟩ := got
    by_cases hc : word hdr usbipHdrCommandOff = usbipCmdSubmit
    · cases hp : readPayload (readHeader old hdr) body with
      | none =>
        rw [readCmd_truncated hread hc hp] at h
        cases h
      | some got =>
        obtain ⟨sub, s'⟩ := got
        rw [readCmd_submit hread hc hp] at h
        have hframe := readIso_frame h
        obtain ⟨iso, rfl, -⟩ := hframe
        exact readIso_counted h hiso hnp
    · rw [readCmd_other _ _ hread hc] at h
      cases h
      rw [readHeader, if_neg hc] at hnp
      split at hnp <;> exact absurd hnp (Int.lt_irrefl 0)

/-! ### The pacer -/

theorem send_paceSubmit {urb : Urb} {iso : List IsoPkt} (data : List UInt8) {dataLen : UInt32}
    (h : iso.foldl (fun total pkt => total + pkt.actualLength) 0 = dataLen) :
    (paceSubmit urb iso data dataLen).send = usbipSendRetIso urb iso data := by
  rw [PacedIso.send, usbipSendRetIso, usbipSendRetIso]
  refine congrArg (isoHdr urb _ ++ ·) (congrArg (· ++ _) ?_)
  show (if urb.direction = usbIn ∧ _ then _ else _) = _
  simp only [paceSubmit, h]
  split
  · rename_i hsent
    have hne : dataLen ≠ 0 := UInt32.pos_iff_ne_zero.mp hsent.2
    rw [if_pos hne, Option.getD_some, List.take_take, Nat.min_self]
  · rfl

theorem foldl_answered {pkts : List IsoPkt} {produced : List (List UInt8)} (n : UInt32)
    (h : List.Forall₂ (fun pkt packet => packet.length ≤ pkt.length.toNat) pkts produced) :
    (IsoXfer.answered pkts produced).foldl (fun total pkt => total + pkt.actualLength) n =
      produced.foldl (fun actual packet => actual + .ofNat packet.length) n := by
  induction h generalizing n with
  | nil => rfl
  | cons hpkt hrest ih => exact ih _

/-- The entry of the pacer tells what would have been sent at once. -/
theorem answerIsoIn_eq (paced : Bool) (src : IsoSource) (urb : Urb) :
    answerIsoIn paced src urb = (dispatchIsoIn src urb).reply := by
  unfold answerIsoIn
  dsimp only
  split
  · have hfit := List.forall₂_map_left_iff.mp (src.fits ((urb.iso.getD []).map IsoPkt.length))
    exact send_paceSubmit _ (foldl_answered 0 hfit)
  · rfl

/-! ### The reply -/

theorem isoHdr_basic (urb : Urb) (total : UInt32) :
    word (isoHdr urb total) usbipHdrCommandOff = usbipRetSubmit ∧
      word (isoHdr urb total) usbipHdrSeqnumOff = urb.seqnum := by
  have hbasic := putBasicHdr_basic usbipRetSubmit urb.seqnum urb.devid urb.direction urb.ep
  constructor
  · simpa [isoHdr] using hbasic.1
  · simpa [isoHdr] using hbasic.2.1

/-- What is produced has the length of a word, when all that is asked for has. -/
theorem tells_of_lt {x : IsoUrb srv usbIn} (src : IsoSource) (paced : Bool)
    (h : (x.pkts.map fun pkt => pkt.length.toNat).sum < 2 ^ 32) :
    ∃ hdr raw, x.Tells src (answerIsoIn paced src x.urb) hdr raw := by
  have hfit : List.Forall₂ (fun pkt packet => packet.length ≤ pkt.length.toNat) x.pkts
      (x.produced src) := List.forall₂_map_left_iff.mp (src.fits (x.pkts.map IsoPkt.length))
  have hlt : (x.produced src).flatten.length < 2 ^ 32 :=
    Nat.lt_of_le_of_lt (IsoXfer.flatten_le hfit) h
  have hreply : answerIsoIn paced src x.urb =
      isoHdr x.urb (.ofNat (x.produced src).flatten.length) ++ ((x.produced src).flatten ++
        (IsoXfer.answered x.pkts (x.produced src)).flatMap isoDescPack) :=
    (answerIsoIn_eq paced src x.urb).trans (IsoXfer.usbipSendRetIso_in x.direction hlt hfit)
  have hlen := IsoXfer.answered_length hfit
  have hdescs := isoDescs_flatMap (IsoXfer.answered x.pkts (x.produced src))
  rw [hlen] at hdescs
  obtain ⟨hhdr, hstatus, hactual, hcount⟩ :=
    IsoXfer.isoHdr_fields x.urb (.ofNat (x.produced src).flatten.length)
  obtain ⟨hcommand, hseqnum⟩ := isoHdr_basic x.urb (.ofNat (x.produced src).flatten.length)
  refine ⟨_, _, hreply, hhdr, hcommand, hseqnum, hstatus, ?_, ?_, ?_, hdescs, ?_⟩
  · rw [hactual, UInt32.toNat_ofNat_of_lt' hlt, List.length_flatten]
  · rw [hcount, x.numberOfPackets_eq, ofInt_natCast]
  · rw [length_flatMap_const isoDescPack_length, hlen]
  · rw [hdescs, IsoXfer.answered_actual hfit]

/-- Whatever the host asks for and the callback produces, the block is large enough and both replies
are right exactly when there are at most 2²⁷ descriptors, and the lengths that are asked for add up
to a word. -/
theorem answered_iff (x : IsoUrb srv usbIn) (src : IsoSource) :
    x.Answered src ↔
      x.pkts.length ≤ 2 ^ 27 ∧ (x.pkts.map fun pkt => pkt.length.toNat).sum < 2 ^ 32 :=
  ⟨fun h => ⟨descsInside_iff.mp h.inside, Nat.lt_of_le_of_lt h.room (blockSize_lt x.pkts)⟩,
    fun ⟨hfew, h⟩ =>
      ⟨descsInside_iff.mpr hfew, blockSize_of_lt h, fun paced => tells_of_lt src paced h⟩⟩

end IsoUrb

/-- A device with the isochronous IN endpoint 1. -/
def Served.isoIn : Served where
  dev := ((Device.create ⟨0, 0, 0, 0, 0, 0, 0, 0, 0⟩).addEndpoint [7, 5, 0x81, 1, 64, 0, 1]).1
  stray _ _ := none

namespace IsoUrb

/-- Two packets that make 4 GiB together. -/
def wideStream : List UInt8 :=
  putBe32 (putBasicHdr usbipCmdSubmit 1 0x10002 usbIn 1) usbipCmdNumpktsOff 2 ++
    isoDescPack ⟨0, 0x80000000, 0, 0⟩ ++ isoDescPack ⟨0, 0x80000000, 0, 0⟩

def wide : IsoUrb .isoIn usbIn where
  old := .zero
  stream := wideStream
  urb := ((readCmd .isoIn .zero wideStream).2.getD (.zero, [])).1
  rest := []
  read := by decide
  ep_ne := by decide
  iso := by decide
  packets := by decide
  direction := by decide

/-- The block has one byte. -/
theorem answered_fails : ¬∀ (srv : Served) (x : IsoUrb srv usbIn) (src : IsoSource),
    x.Answered src := by
  intro h
  have hroom := (h .isoIn wide .silent).room
  exact absurd hroom (by decide)

end IsoUrb

end Usbip.Wire
