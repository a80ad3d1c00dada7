import Usbip.Wire.Cmd

/-! The submissions of a client, and how the command reader of the server takes them off the stream
again. -/

namespace Usbip.Wire

open Lib

/-- The arguments of `usbip_client_submit`: an OUT transfer has its bytes in the buffer. -/
structure SubmitArgs where
  devid : UInt32
  dir : UInt32
  ep : UInt32
  setup : Option (Vector UInt8 8)
  interval : UInt32
  buf : List UInt8
  /-- an `int` -/
  len : UInt32
  filled : dir = usbOut → int32 len ≤ buf.length

/-- The arguments of `usbip_client_submit_iso`: the slots of an OUT transfer lie in the buffer. -/
structure SubmitIsoArgs where
  devid : UInt32
  dir : UInt32
  ep : UInt32
  interval : UInt32
  buf : List UInt8
  pkts : List IsoPkt
  /-- `npkts` is an `int` -/
  npkts : pkts.length < 2 ^ 31
  filled : dir = usbOut → ∀ pkt ∈ pkts, pkt.offset.toNat + pkt.length.toNat ≤ buf.length

inductive Call
  | submit (args : SubmitArgs)
  | submitIso (args : SubmitIsoArgs)

namespace SubmitArgs

def hdr (args : SubmitArgs) (seq : UInt32) : List UInt8 :=
  let hdr := putBasicHdr usbipCmdSubmit seq args.devid args.dir args.ep
  let hdr := putBe32 hdr usbipCmdLengthOff args.len
  let hdr := putBe32 hdr usbipCmdIntervalOff args.interval
  match args.setup with
  | some setup => putBytes hdr usbipCmdSetupOff setup.toList
  | none => hdr

/-- The payload that follows the header. -/
def payload (args : SubmitArgs) : List UInt8 :=
  if args.dir = usbOut ∧ 0 < int32 args.len then args.buf.take (int32 args.len).toNat else []

/-- What `usbip_client_submit` writes. -/
def bytes (args : SubmitArgs) (seq : UInt32) : List UInt8 := args.hdr seq ++ args.payload

end SubmitArgs

namespace SubmitIsoArgs

def total (args : SubmitIsoArgs) : Nat := (args.pkts.map fun pkt => pkt.length.toNat).sum

/-- `total_len`, which the loop adds up in 32 bits. -/
def totalLen (args : SubmitIsoArgs) : UInt32 :=
  args.pkts.foldl (fun total pkt => total + pkt.length) 0

def hdr (args : SubmitIsoArgs) (seq : UInt32) : List UInt8 :=
  let hdr := putBasicHdr usbipCmdSubmit seq args.devid args.dir args.ep
  let hdr := putBe32 hdr usbipCmdLengthOff args.totalLen
  let hdr := putBe32 hdr usbipCmdNumpktsOff (UInt32.ofNat args.pkts.length)
  putBe32 hdr usbipCmdIntervalOff args.interval

/-- The bytes of one slot, which an empty packet does not write. -/
def slot (args : SubmitIsoArgs) (pkt : IsoPkt) : List UInt8 :=
  if pkt.length ≠ 0 then bytesAt args.buf pkt.offset.toNat pkt.length.toNat else []

/-- The slots of an OUT transfer, gathered. -/
def payload (args : SubmitIsoArgs) : List UInt8 :=
  if args.dir = usbOut then args.pkts.flatMap args.slot else []

/-- A packet as it is requested: `actual_length` and `status` are not known yet. -/
def request (pkt : IsoPkt) : IsoPkt := ⟨pkt.offset, pkt.length, 0, 0⟩

/-- What `usbip_client_submit_iso` writes. It packs the descriptors into a block of their own, where
`DescsInside` their number. -/
def bytes (args : SubmitIsoArgs) (seq : UInt32) : List UInt8 :=
  args.hdr seq ++ (args.payload ++ (args.pkts.map request).flatMap isoDescPack)

end SubmitIsoArgs

/-- A transfer as the client submits it, and as the server gets it. -/
structure Transfer where
  seqnum : UInt32
  devid : UInt32
  direction : UInt32
  ep : UInt32
  length : Int
  interval : Int
  setup : List UInt8
  /-- the OUT payload -/
  data : List UInt8
  dataLen : Int
  numberOfPackets : Int
  iso : List IsoPkt
  deriving DecidableEq, Repr

namespace Call

/-- What the call writes, under its sequence number. -/
def bytes : UInt32 × Call → List UInt8
  | (seq, .submit args) => args.bytes seq
  | (seq, .submitIso args) => args.bytes seq

/-- What the call submits. The length of an isochronous transfer is that of its packets. -/
def transfer : UInt32 × Call → Transfer
  | (seq, .submit args) =>
    { seqnum := seq, devid := args.devid, direction := args.dir, ep := args.ep
      length := int32 args.len, interval := int32 args.interval
      setup := (args.setup.map Vector.toList).getD (List.replicate 8 0)
      data := args.payload, dataLen := args.payload.length
      numberOfPackets := 0, iso := [] }
  | (seq, .submitIso args) =>
    { seqnum := seq, devid := args.devid, direction := args.dir, ep := args.ep
      length := args.total, interval := int32 args.interval
      setup := List.replicate 8 0
      data := args.payload, dataLen := args.payload.length
      numberOfPackets := args.pkts.length, iso := args.pkts.map SubmitIsoArgs.request }

/-- The calls with the numbers that `++*seqctr` gives them. -/
def numbered (seqctr : UInt32) : List Call → List (UInt32 × Call)
  | [] => []
  | call :: calls => (seqctr + 1, call) :: numbered (seqctr + 1) calls

end Call

/-- The transfer in the record of a `CMD_SUBMIT`. -/
def Urb.transfer (urb : Urb) : Transfer where
  seqnum := urb.seqnum
  devid := urb.devid
  direction := urb.direction
  ep := urb.ep
  length := urb.length
  interval := urb.interval
  setup := urb.setup
  data := urb.data.getD []
  dataLen := urb.dataLen
  numberOfPackets := urb.numberOfPackets
  iso := urb.iso.getD []

/-- The next `CMD_SUBMIT` on the stream, when `usbip_read_cmd` gets it without a read outside the
endpoint map or outside the block of packet descriptors. -/
def nextTransfer (srv : Served) (old : Urb) (s : List UInt8) : Option (Transfer × List UInt8) :=
  let (looks, got) := readCmd srv old s
  match got with
  | some (urb, rest) =>
    if (∀ look ∈ looks, look.InRange) ∧ urb.command = usbipCmdSubmit ∧
        DescsInside (urb.iso.getD []).length then some (urb.transfer, rest)
    else none
  | none => none

/-- The calls whose framing the server sees as the client does: the direction is one of the two when
the endpoint has a row in the map; packets go to an endpoint that the map has as isochronous, and
their bytes and the bytes of their descriptors are an `int`. -/
def Call.Framed (srv : Served) : Call → Prop
  | .submit args => args.ep < 16 → args.dir = usbOut ∨ args.dir = usbIn
  | .submitIso args =>
    (args.ep < 16 → args.dir = usbOut ∨ args.dir = usbIn) ∧
      (args.pkts ≠ [] → srv.Iso args.ep args.dir) ∧ args.total < 2 ^ 31 ∧
      args.pkts.length ≤ 2 ^ 27

/-! ### Headers -/

/-- The record that the server makes of a header with the command `CMD_SUBMIT`. -/
def Urb.submitted (old : Urb) (seqnum devid direction ep length numpkts interval : UInt32)
    (setup : List UInt8) : Urb where
  command := usbipCmdSubmit
  seqnum
  devid
  direction
  ep
  flags := 0
  unlinkSeqnum := old.unlinkSeqnum
  length := int32 length
  interval := int32 interval
  numberOfPackets := int32 numpkts
  iso := none
  setup
  data := none
  dataLen := 0

section
variable {srv : Served} {old : Urb} {seq : UInt32} {hdr s rest : List UInt8}

theorem SubmitArgs.hdr_length (args : SubmitArgs) : (args.hdr seq).length = usbipHdrLen := by
  unfold SubmitArgs.hdr
  split <;> simp [usbipHdrLen]

theorem SubmitArgs.readHeader_hdr (args : SubmitArgs) :
    word (args.hdr seq) usbipHdrCommandOff = usbipCmdSubmit ∧
      readHeader old (args.hdr seq) =
        .submitted old seq args.devid args.dir args.ep args.len 0 args.interval
          ((args.setup.map Vector.toList).getD (List.replicate 8 0)) := by
  have hbasic := putBasicHdr_basic usbipCmdSubmit seq args.devid args.dir args.ep
  have hrest := putBasicHdr_rest usbipCmdSubmit seq args.devid args.dir args.ep
  have hsetup : ∀ (b : List UInt8) (setup : Vector UInt8 8), 40 + 8 ≤ b.length →
      bytesAt (putBytes b 40 setup.toList) 40 8 = setup.toList := fun b setup hb => by
    have : bytesAt (putBytes b 40 setup.toList) 40 setup.toList.length = setup.toList :=
      bytesAt_putBytes_self (by simpa using hb)
    rwa [Vector.length_toList] at this
  have hc : word (args.hdr seq) usbipHdrCommandOff = usbipCmdSubmit := by
    unfold SubmitArgs.hdr
    split <;> simp [hbasic]
  refine ⟨hc, (readHeader_submit old hc).trans ?_⟩
  unfold SubmitArgs.hdr Urb.submitted
  split <;> rename_i hargs <;> simp [hargs, hbasic, hrest, hsetup]

theorem SubmitIsoArgs.hdr_length (args : SubmitIsoArgs) :
    (args.hdr seq).length = usbipHdrLen := by
  simp [SubmitIsoArgs.hdr, usbipHdrLen]

theorem SubmitIsoArgs.readHeader_hdr (args : SubmitIsoArgs) :
    word (args.hdr seq) usbipHdrCommandOff = usbipCmdSubmit ∧
      readHeader old (args.hdr seq) =
        .submitted old seq args.devid args.dir args.ep args.totalLen
          (UInt32.ofNat args.pkts.length) args.interval (List.replicate 8 0) := by
  have hbasic := putBasicHdr_basic usbipCmdSubmit seq args.devid args.dir args.ep
  have hrest := putBasicHdr_rest usbipCmdSubmit seq args.devid args.dir args.ep
  have hc : word (args.hdr seq) usbipHdrCommandOff = usbipCmdSubmit := by
    simp [SubmitIsoArgs.hdr, hbasic]
  refine ⟨hc, (readHeader_submit old hc).trans ?_⟩
  simp [SubmitIsoArgs.hdr, Urb.submitted, hbasic, hrest]

end

/-! ### One command -/

section
variable {srv : Served} {old sub urb urb' : Urb} {hdr s s' rest : List UInt8}

theorem nextTransfer_of (hlen : hdr.length = usbipHdrLen)
    (hsub : word hdr usbipHdrCommandOff = usbipCmdSubmit ∧ readHeader old hdr = sub)
    (hp : readPayload sub s = some (urb, s'))
    (hr : ∀ look ∈ epCell urb.ep urb.direction, look.InRange)
    (hi : readIso srv urb s' = some (urb', rest)) (hd : DescsInside (urb'.iso.getD []).length) :
    nextTransfer srv old (hdr ++ s) = some (urb'.transfer, rest) := by
  obtain ⟨hc, rfl⟩ := hsub
  have hread : readn usbipHdrLen (hdr ++ s) = some (hdr, s) := hlen ▸ readn_append hdr s
  have hcmd : readCmd srv old (hdr ++ s) =
      ((epCell urb.ep urb.direction).toList, some (urb', rest)) := by
    rw [readCmd_submit hread hc hp, hi]
  rw [nextTransfer, hcmd]
  refine if_pos ⟨fun look hl => hr look (Option.mem_toList.mp hl), ?_, hd⟩
  obtain ⟨data, dataLen, rfl⟩ := readPayload_frame hp
  obtain ⟨iso, rfl, -⟩ := readIso_frame hi
  exact readHeader_command.trans hc

theorem of_nextTransfer {t : Transfer} (hlen : hdr.length = usbipHdrLen)
    (hsub : word hdr usbipHdrCommandOff = usbipCmdSubmit ∧ readHeader old hdr = sub)
    (h : nextTransfer srv old (hdr ++ s) = some (t, rest)) :
    ∃ urb s' urb', readPayload sub s = some (urb, s') ∧
      (∀ look ∈ epCell urb.ep urb.direction, look.InRange) ∧
      readIso srv urb s' = some (urb', rest) ∧ t = urb'.transfer ∧
      DescsInside (urb'.iso.getD []).length := by
  obtain ⟨hc, rfl⟩ := hsub
  have hread : readn usbipHdrLen (hdr ++ s) = some (hdr, s) := hlen ▸ readn_append hdr s
  rw [nextTransfer] at h
  cases hp : readPayload (readHeader old hdr) s with
  | none => simp [readCmd_truncated hread hc hp] at h
  | some got =>
    obtain ⟨urb, s'⟩ := got
    rw [readCmd_submit hread hc hp] at h
    cases hi : readIso srv urb s' with
    | none => simp [hi] at h
    | some got =>
      obtain ⟨urb', rest'⟩ := got
      simp only [hi] at h
      split at h
      · rename_i hok
        cases h
        exact ⟨urb, s', urb', rfl, fun look hl => hok.1 look (Option.mem_toList.mpr hl), hi, rfl,
          hok.2.2⟩
      · cases h

theorem SubmitArgs.payload_length (args : SubmitArgs)
    (h : args.dir = usbOut ∧ 0 < int32 args.len) :
    (args.payload.length : Int) = int32 args.len := by
  have := args.filled h.1
  rw [SubmitArgs.payload, if_pos h, List.length_take]
  omega

/-- A plain submission is read back exactly when its lookup stays in the map. -/
theorem submit_framed (seq : UInt32) (args : SubmitArgs) (rest : List UInt8) :
    (∀ old, nextTransfer srv old (Call.bytes (seq, .submit args) ++ rest) =
      some (Call.transfer (seq, .submit args), rest)) ↔ Call.Framed srv (.submit args) := by
  rw [Call.bytes, SubmitArgs.bytes, List.append_assoc]
  constructor
  · intro h
    obtain ⟨urb, s', urb', hp, hr, -, -, -⟩ :=
      of_nextTransfer args.hdr_length args.readHeader_hdr (h .zero)
    obtain ⟨data, dataLen, rfl⟩ := readPayload_frame hp
    exact epCell_inRange.mp hr
  · intro h old
    obtain ⟨data, hp, hdata⟩ := readPayload_append
      (.submitted old seq args.devid args.dir args.ep args.len 0 args.interval
        ((args.setup.map Vector.toList).getD (List.replicate 8 0)))
      args.payload rest args.payload_length fun hno => ⟨if_neg hno, rfl, rfl⟩
    refine (nextTransfer_of args.hdr_length args.readHeader_hdr hp (epCell_inRange.mpr h)
      (readIso_none (Int.lt_irrefl 0)) (descsInside_iff.mpr (Nat.zero_le _))).trans ?_
    rw [Call.transfer, Urb.transfer, hdata]
    rfl

/-! ### One isochronous command -/

theorem int32_ofNat {n : Nat} (h : n < 2 ^ 31) : int32 (UInt32.ofNat n) = n := by
  have hn : (UInt32.ofNat n).toNat = n := UInt32.toNat_ofNat_of_lt' (by
    rw [UInt32.size]
    omega)
  rw [int32_eq, hn, if_pos h]

theorem int32_lt (w : UInt32) : int32 w < 2 ^ 31 := by
  have := w.toNat_lt
  rw [int32_eq]
  split <;> omega

theorem SubmitIsoArgs.totalLen_eq (args : SubmitIsoArgs) :
    args.totalLen = UInt32.ofNat args.total := by
  have := foldl_add_ofNat IsoPkt.length args.pkts 0
  rwa [Nat.zero_add] at this

theorem SubmitIsoArgs.slot_length {args : SubmitIsoArgs} {pkt : IsoPkt} (hdir : args.dir = usbOut)
    (h : pkt ∈ args.pkts) : (args.slot pkt).length = pkt.length.toNat := by
  unfold SubmitIsoArgs.slot
  split
  · exact length_bytesAt (args.filled hdir pkt h)
  · rename_i hz
    rw [Decidable.not_not.mp hz]
    rfl

theorem SubmitIsoArgs.payload_length {args : SubmitIsoArgs} (hdir : args.dir = usbOut) :
    args.payload.length = args.total := by
  rw [SubmitIsoArgs.payload, if_pos hdir, List.length_flatMap, SubmitIsoArgs.total]
  exact congrArg List.sum (List.map_congr_left fun pkt h => args.slot_length hdir h)

/-- An isochronous submission is read back exactly when its lookup stays in the map and finds an
isochronous endpoint for its packets, and their bytes and those of their descriptors are an `int`. -/
theorem submitIso_framed (seq : UInt32) (args : SubmitIsoArgs) (rest : List UInt8) :
    (∀ old, nextTransfer srv old (Call.bytes (seq, .submitIso args) ++ rest) =
      some (Call.transfer (seq, .submitIso args), rest)) ↔ Call.Framed srv (.submitIso args) := by
  rw [Call.bytes, SubmitIsoArgs.bytes, List.append_assoc, List.append_assoc]
  constructor
  · intro h
    obtain ⟨urb, s', urb', hp, hr, hi, ht, hdescs⟩ :=
      of_nextTransfer args.hdr_length args.readHeader_hdr (h .zero)
    obtain ⟨data, dataLen, rfl⟩ := readPayload_frame hp
    obtain ⟨iso, rfl, hiso⟩ := readIso_frame hi
    refine ⟨epCell_inRange.mp hr, ?_, ?_, ?_⟩
    · intro hpkts
      refine hiso ?_
      rintro rfl
      have : args.pkts.map SubmitIsoArgs.request = [] := congrArg Transfer.iso ht
      exact hpkts (List.map_eq_nil_iff.mp this)
    · have : (args.total : Int) = int32 args.totalLen := congrArg Transfer.length ht
      have := int32_lt args.totalLen
      omega
    · have hiso : args.pkts.map SubmitIsoArgs.request = iso.getD [] := congrArg Transfer.iso ht
      have hlen := congrArg List.length hiso
      rw [List.length_map] at hlen
      rw [hlen]
      exact descsInside_iff.mp hdescs
  · rintro ⟨hdir, hiso, htotal, hfew⟩ old
    have hlen : int32 args.totalLen = args.total := by rw [args.totalLen_eq, int32_ofNat htotal]
    have hnp := int32_ofNat args.npkts
    have hpay : ¬(args.dir = usbOut ∧ 0 < int32 args.totalLen) → args.payload = [] := by
      intro hno
      by_cases hd : args.dir = usbOut
      · have := args.payload_length hd
        have : ¬0 < int32 args.totalLen := fun hpos => hno ⟨hd, hpos⟩
        exact List.eq_nil_of_length_eq_zero (by omega)
      · exact if_neg hd
    obtain ⟨data, hp, hdata⟩ := readPayload_append
      (.submitted old seq args.devid args.dir args.ep args.totalLen
        (UInt32.ofNat args.pkts.length) args.interval (List.replicate 8 0))
      args.payload ((args.pkts.map SubmitIsoArgs.request).flatMap isoDescPack ++ rest)
      (fun hout => (congrArg Nat.cast (args.payload_length hout.1)).trans hlen.symm)
      (fun hno => ⟨hpay hno, rfl, rfl⟩)
    have hnp' : int32 (UInt32.ofNat args.pkts.length) =
        (args.pkts.map SubmitIsoArgs.request).length := by rw [hnp, List.length_map]
    obtain ⟨iso, hi, hreq⟩ := readIso_append srv
      { Urb.submitted old seq args.devid args.dir args.ep args.totalLen
        (UInt32.ofNat args.pkts.length) args.interval (List.replicate 8 0) with
        data, dataLen := args.payload.length }
      (args.pkts.map SubmitIsoArgs.request) rest
      (fun hne => hiso fun hnil => hne (by rw [hnil]; rfl)) hnp' rfl
    have hdescs : DescsInside (iso.getD []).length := by
      rw [hreq, List.length_map]
      exact descsInside_iff.mpr hfew
    rw [nextTransfer_of args.hdr_length args.readHeader_hdr hp (epCell_inRange.mpr hdir) hi hdescs]
    simp only [Call.transfer, Urb.transfer, Urb.submitted, hlen, hnp, hdata, hreq]

end

/-! ### A sequence of commands -/

theorem call_framed (srv : Served) : ∀ (item : UInt32 × Call) (rest : List UInt8),
    (∀ old, nextTransfer srv old (Call.bytes item ++ rest) = some (Call.transfer item, rest)) ↔
      item.2.Framed srv
  | (seq, .submit args), rest => submit_framed seq args rest
  | (seq, .submitIso args), rest => submitIso_framed seq args rest

theorem Call.forall_numbered {P : Call → Prop} (seqctr : UInt32) (calls : List Call) :
    (∀ item ∈ Call.numbered seqctr calls, P item.2) ↔ ∀ call ∈ calls, P call := by
  induction calls generalizing seqctr with
  | nil => exact ⟨fun _ _ h => absurd h List.not_mem_nil, fun _ _ h => absurd h List.not_mem_nil⟩
  | cons call calls ih =>
    rw [Call.numbered, List.forall_mem_cons, List.forall_mem_cons, ih]

/-- The command reader stays in step with the client exactly through the calls that it frames as the
client does. -/
theorem in_step_iff_framed (srv : Served) (seqctr : UInt32) (calls : List Call)
    (rest : List UInt8) :
    InStep Call.bytes (nextTransfer srv) Call.transfer rest (Call.numbered seqctr calls) ↔
      ∀ call ∈ calls, call.Framed srv := by
  have : Nonempty Urb := ⟨.zero⟩
  rw [inStep_iff (C := fun item => item.2.Framed srv) (call_framed srv), Call.forall_numbered]

/-- An isochronous OUT transfer of one packet of four bytes to endpoint 1. -/
def SubmitIsoArgs.onePacket : SubmitIsoArgs where
  devid := 0x10002
  dir := usbOut
  ep := 1
  interval := 0
  buf := [1, 2, 3, 4]
  pkts := [⟨0, 4, 0, 0⟩]
  npkts := by decide
  filled := by decide

/-- The packet descriptor stays on the stream, and is read as the next command. -/
theorem in_step_fails :
    ¬InStep Call.bytes (nextTransfer .bulkOut) Call.transfer []
      (Call.numbered 0 [.submitIso .onePacket]) := by
  intro h
  have := (submitIso_framed 1 .onePacket []).mp h.head
  exact absurd (this.2.1 (List.cons_ne_nil _ _)) (by decide)

end Usbip.Wire
