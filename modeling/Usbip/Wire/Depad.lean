import Usbip.Wire.Iso

/-! What the loop that packs the packets of an isochronous OUT transfer touches, and what the
callback gets.  The descriptors are the host's: each is checked against the payload in 32 bits, and
their lengths are added up in 32 bits for the block that the packets go to. -/

namespace Usbip.Wire

open Lib

/-- A URB that `usbip_read_cmd` has returned and that goes to an isochronous endpoint of the given
direction. -/
structure IsoUrb (srv : Served) (dir : UInt32) where
  old : Urb
  stream : List UInt8
  urb : Urb
  rest : List UInt8
  read : (readCmd srv old stream).2 = some (urb, rest)
  ep_ne : urb.ep ≠ 0
  iso : srv.Iso urb.ep urb.direction
  packets : 0 < urb.numberOfPackets
  direction : urb.direction = dir

/-- `memcpy(buf + dst, urb->data + src, len)`. -/
structure Copy where
  dst : Nat
  src : Nat
  len : Nat
  deriving DecidableEq, Repr

/-- The copies that pack the packets, from `off` on. -/
def depadCopies (data : Option (List UInt8)) (dataLen : UInt32) : UInt32 → List IsoPkt → List Copy
  | _, [] => []
  | off, pkt :: iso =>
    (if Covered data dataLen pkt then [⟨off.toNat, pkt.offset.toNat, pkt.length.toNat⟩] else []) ++
      depadCopies data dataLen (off + pkt.length) iso

/-- `malloc(total ? total : 1)`. -/
def blockSize (iso : List IsoPkt) : Nat :=
  let total := iso.foldl (fun total pkt => total + pkt.length) 0
  if total ≠ 0 then total.toNat else 1

/-- The packet lies inside the payload. -/
def Within (payload : List UInt8) (pkt : IsoPkt) : Prop :=
  pkt.offset.toNat + pkt.length.toNat ≤ payload.length

/-- The write of a copy. -/
def Copy.store (payload : List UInt8) (copy : Copy) : Store :=
  ⟨copy.dst, bytesAt payload copy.src copy.len⟩

namespace IsoUrb

variable {srv : Served} {dir : UInt32}

def pkts (x : IsoUrb srv dir) : List IsoPkt := x.urb.iso.getD []

def payload (x : IsoUrb srv dir) : List UInt8 := x.urb.data.getD []

def copies (x : IsoUrb srv dir) : List Copy :=
  depadCopies x.urb.data (.ofInt x.urb.dataLen) 0 x.pkts

/-- The descriptors are parsed from inside their block, the copies read inside the payload and write
inside the block, and whatever the block held before, the callback gets each packet that lies inside
the payload, and nothing but bytes of the payload for the others. -/
structure Depadded (x : IsoUrb srv usbOut) : Prop where
  parsed : DescsInside x.pkts.length
  reads : ∀ copy ∈ x.copies, copy.len = 0 ∨ copy.src + copy.len ≤ x.payload.length
  writes : ∀ copy ∈ x.copies, copy.len = 0 ∨ copy.dst + copy.len ≤ blockSize x.pkts
  received : ∃ packets,
    (∀ src junk, (dispatchIso srv src junk x.urb).map IsoServed.received = some packets) ∧
    List.Forall₂ (fun pkt packet =>
      (Within x.payload pkt → packet = bytesAt x.payload pkt.offset.toNat pkt.length.toNat) ∧
        (¬Within x.payload pkt → ∀ b ∈ packet, b ∈ x.payload)) x.pkts packets

/-- The offset of a packet descriptor is an `int`, every packet that has bytes lies inside the payload,
and the lengths add up to a word. -/
structure Packed (x : IsoUrb srv usbOut) : Prop where
  few : x.pkts.length ≤ 2 ^ 27
  within : ∀ pkt ∈ x.pkts, pkt.length ≠ 0 → Within x.payload pkt
  total_lt : (x.pkts.map fun pkt => pkt.length.toNat).sum < 2 ^ 32

/-! ### What has been read -/

theorem readHeader_empty (old : Urb) (hdr : List UInt8) :
    (readHeader old hdr).data = none ∧ (readHeader old hdr).dataLen = 0 := by
  unfold readHeader
  split
  · exact ⟨rfl, rfl⟩
  · split <;> exact ⟨rfl, rfl⟩

/-- The length of the payload is the one that the record tells, and below 2³¹. -/
def Sized (urb : Urb) : Prop :=
  urb.dataLen = ((urb.data.getD []).length : Int) ∧ (urb.data.getD []).length < 2 ^ 31

theorem readPayload_sized {old urb : Urb} {hdr s s' : List UInt8}
    (hc : word hdr usbipHdrCommandOff = usbipCmdSubmit)
    (h : readPayload (readHeader old hdr) s = some (urb, s')) : Sized urb := by
  rw [readHeader_submit old hc, readPayload] at h
  split at h
  · rename_i hout
    obtain ⟨⟨block, rest⟩, hread, heq⟩ := Option.map_eq_some_iff.mp h
    cases heq
    obtain ⟨-, hlen⟩ := readn_eq_some hread
    have hpos : 0 < int32 (word hdr usbipCmdLengthOff) := hout.2
    have hlt := int32_lt (word hdr usbipCmdLengthOff)
    show int32 (word hdr usbipCmdLengthOff) = (block.length : Int) ∧ block.length < 2 ^ 31
    dsimp only at hlen
    omega
  · cases h
    exact ⟨rfl, Nat.two_pow_pos 31⟩

theorem readCmd_sized {srv : Served} {old urb : Urb} {s rest : List UInt8}
    (h : (readCmd srv old s).2 = some (urb, rest)) : Sized urb := by
  cases hread : readn usbipHdrLen s with
  | none =>
    rw [readCmd, hread] at h
    cases h
  | some got =>
    obtain ⟨hdr, body⟩ := got
    by_cases hc : word hdr usbipHdrCommandOff = usbipCmdSubmit
    · cases hp : readPayload (readHeader old hdr) body with
      | none =>
        rw [readCmd_truncated hread hc hp] at h
        cases h
      | some got =>
        obtain ⟨sub, s'⟩ := got
        rw [readCmd_submit hread hc hp] at h
        have hsized := readPayload_sized hc hp
        obtain ⟨iso, rfl, -⟩ := readIso_frame h
        exact hsized
    · rw [readCmd_other _ _ hread hc] at h
      cases h
      obtain ⟨hdata, hlen⟩ := readHeader_empty old hdr
      rw [Sized, hdata, hlen]
      exact ⟨rfl, Nat.two_pow_pos 31⟩

variable {data : Option (List UInt8)} {dataLen : UInt32}

/-! ### The copies -/

theorem depad_eq_map (off : UInt32) (iso : List IsoPkt) :
    depad data dataLen off iso =
      (depadCopies data dataLen off iso).map (Copy.store (data.getD [])) := by
  induction iso generalizing off with
  | nil => rfl
  | cons pkt iso ih =>
    rw [depad, depadCopies, List.map_append, ih]
    split <;> rfl

/-- Each copy is one of a packet that passes the check, to where the lengths before it add up. -/
theorem of_mem_depadCopies {off : UInt32} {iso : List IsoPkt} {copy : Copy}
    (h : copy ∈ depadCopies data dataLen off iso) :
    ∃ pkt ∈ iso, Covered data dataLen pkt ∧ copy.src = pkt.offset.toNat ∧
      copy.len = pkt.length.toNat ∧
      copy.dst + copy.len ≤ off.toNat + (iso.map fun pkt => pkt.length.toNat).sum := by
  induction iso generalizing off with
  | nil => cases h
  | cons pkt iso ih =>
    rw [depadCopies] at h
    rw [List.map_cons, List.sum_cons]
    rcases List.mem_append.mp h with h | h
    · split at h
      · rename_i hc
        rw [List.mem_singleton.mp h]
        exact ⟨pkt, List.mem_cons_self .., hc, rfl, rfl, by dsimp only; omega⟩
      · cases h
    · obtain ⟨p, hp, hc, hsrc, hlen, hdst⟩ := ih h
      have hoff : (off + pkt.length).toNat ≤ off.toNat + pkt.length.toNat := by
        rw [UInt32.toNat_add]
        exact Nat.mod_le ..
      exact ⟨p, List.mem_cons_of_mem _ hp, hc, hsrc, hlen, by omega⟩

/-- Each packet that passes the check is copied. -/
theorem copy_of_covered (off : UInt32) {iso : List IsoPkt} {pkt : IsoPkt} (h : pkt ∈ iso)
    (hc : Covered data dataLen pkt) :
    ∃ copy ∈ depadCopies data dataLen off iso,
      copy.src = pkt.offset.toNat ∧ copy.len = pkt.length.toNat := by
  induction iso generalizing off with
  | nil => cases h
  | cons first iso ih =>
    rw [depadCopies]
    rcases List.mem_cons.mp h with rfl | h
    · rw [if_pos hc]
      exact ⟨_, List.mem_append_left _ (List.mem_singleton_self _), rfl, rfl⟩
    · obtain ⟨copy, hcopy, heq⟩ := ih (off + first.length) h
      exact ⟨copy, List.mem_append_right _ hcopy, heq⟩

theorem blockSize_of_lt {iso : List IsoPkt}
    (h : (iso.map fun pkt => pkt.length.toNat).sum < 2 ^ 32) :
    (iso.map fun pkt => pkt.length.toNat).sum ≤ blockSize iso := by
  have hfold := foldl_add_ofNat IsoPkt.length iso 0
  rw [Nat.zero_add] at hfold
  have htotal : (iso.foldl (fun total (pkt : IsoPkt) => total + pkt.length) 0).toNat =
      (iso.map fun pkt => pkt.length.toNat).sum :=
    (congrArg UInt32.toNat hfold).trans (UInt32.toNat_ofNat_of_lt' h)
  rw [← htotal, blockSize]
  split
  · exact Nat.le_refl _
  · rename_i hz
    rw [Decidable.not_not.mp hz]
    exact Nat.zero_le _

theorem blockSize_lt (iso : List IsoPkt) : blockSize iso < 2 ^ 32 := by
  rw [blockSize]
  split
  · exact UInt32.toNat_lt _
  · decide

/-! ### What the callback gets -/

/-- The packets one after another are the memory from the first on. -/
theorem flatten_packetsAt (mem : Nat → UInt8) (off : Nat) (lens : List UInt32) :
    (packetsAt mem off lens).flatten =
      readout (fun i => mem (off + i)) (lens.map UInt32.toNat).sum := by
  induction lens generalizing off with
  | nil => rfl
  | cons len lens ih =>
    rw [packetsAt, List.flatten_cons, ih, List.map_cons, List.sum_cons]
    simp only [readout]
    rw [List.range_add, List.map_append, List.map_map]
    simp only [Function.comp_def, Nat.add_assoc]

/-- When what is delivered does not depend on the block, no packet with bytes has been left out. -/
theorem covered_of_delivered {off : Nat} {iso : List IsoPkt}
    (h : ∀ c c', IsoXfer.delivered data dataLen c off iso = IsoXfer.delivered data dataLen c' off iso) :
    ∀ pkt ∈ iso, pkt.length ≠ 0 → Covered data dataLen pkt := by
  induction iso generalizing off with
  | nil => simp
  | cons pkt iso ih =>
    simp only [IsoXfer.delivered, List.cons.injEq] at h
    rw [List.forall_mem_cons]
    refine ⟨fun hz => ?_, ih fun c c' => (h c c').2⟩
    by_contra hc
    have hpos : 0 < pkt.length.toNat := UInt32.lt_iff_toNat_lt.mp (UInt32.pos_iff_ne_zero.mpr hz)
    have hhead := (h (fun _ => 0) fun _ => 1).1
    rw [if_neg hc, if_neg hc] at hhead
    have := List.map_inj_left.mp hhead 0 (List.mem_range.mpr hpos)
    exact absurd this (by decide)

theorem dispatchIso_out (x : IsoUrb srv usbOut) (src : IsoSource) (junk : Nat → UInt8) :
    dispatchIso srv src junk x.urb = some (dispatchIsoOut junk x.urb) := by
  have hnot : ¬x.urb.direction = usbIn := by
    rw [x.direction]
    decide
  rw [dispatchIso, if_pos ⟨x.ep_ne, x.iso, x.packets⟩, if_neg hnot, if_pos x.direction]

/-- A packet that passes the check is read where the payload has it. -/
theorem length_of_reads {x : IsoUrb srv dir}
    (h : ∀ copy ∈ x.copies, copy.len = 0 ∨ copy.src + copy.len ≤ x.payload.length) {pkt : IsoPkt}
    (hpkt : pkt ∈ x.pkts) (hc : Covered x.urb.data (.ofInt x.urb.dataLen) pkt) :
    pkt.length.toNat = 0 ∨ Within x.payload pkt := by
  obtain ⟨copy, hcopy, hsrc, hlen⟩ := copy_of_covered 0 hpkt hc
  have := h copy hcopy
  rwa [hsrc, hlen] at this

theorem length_slot {payload : List UInt8} {pkt : IsoPkt}
    (h : pkt.length.toNat = 0 ∨ Within payload pkt) :
    (bytesAt payload pkt.offset.toNat pkt.length.toNat).length = pkt.length.toNat := by
  rcases h with hz | hin
  · rw [hz]
    rfl
  · exact length_bytesAt hin

/-- The check of a packet that lies inside the payload does not wrap. -/
theorem covered_of_within {x : IsoUrb srv dir} {pkt : IsoPkt} (hz : pkt.length ≠ 0)
    (h : Within x.payload pkt) : Covered x.urb.data (.ofInt x.urb.dataLen) pkt := by
  obtain ⟨hlen, hlt⟩ := readCmd_sized x.read
  have hpos : 0 < pkt.length.toNat := UInt32.lt_iff_toNat_lt.mp (UInt32.pos_iff_ne_zero.mpr hz)
  rw [Within, payload] at h
  constructor
  · cases hdata : x.urb.data with
    | some data => rfl
    | none =>
      rw [hdata] at h
      exact absurd h (Nat.not_le.mpr (Nat.add_pos_right _ hpos))
  · have hsize : (UInt32.ofInt x.urb.dataLen).toNat = (x.urb.data.getD []).length := by
      rw [hlen, ofInt_natCast]
      exact UInt32.toNat_ofNat_of_lt' (Nat.lt_trans hlt (by decide))
    rw [UInt32.le_iff_toNat_le, hsize, UInt32.toNat_add, Nat.mod_eq_of_lt (by omega)]
    exact h

theorem packed_of_depadded {x : IsoUrb srv usbOut} (h : x.Depadded) : x.Packed := by
  obtain ⟨packets, hreceived, -⟩ := h.received
  replace hreceived : ∀ junk, packetsAt (putAll (depad x.urb.data (.ofInt x.urb.dataLen) 0 x.pkts)
      junk) 0 (x.pkts.map IsoPkt.length) = packets := by
    intro junk
    have := hreceived .silent junk
    rw [dispatchIso_out] at this
    exact Option.some.inj this
  have htotal : (x.pkts.map fun pkt => pkt.length.toNat).sum < 2 ^ 32 := by
    -- no copy gets to the last byte that a word can tell
    by_contra hbig
    have houtside : ∀ w ∈ depad x.urb.data (.ofInt x.urb.dataLen) 0 x.pkts,
        ¬(w.off ≤ 2 ^ 32 - 1 ∧ 2 ^ 32 - 1 < w.stop) := by
      intro w hw
      rw [depad_eq_map] at hw
      obtain ⟨copy, hcopy, rfl⟩ := List.mem_map.mp hw
      have hsize := blockSize_lt x.pkts
      have hstop : (copy.store (x.urb.data.getD [])).stop ≤ copy.dst + copy.len :=
        Nat.add_le_add_left (List.length_take_le _ _) _
      have hoff : (copy.store (x.urb.data.getD [])).off = copy.dst := rfl
      have := h.writes copy hcopy
      omega
    have hsame : ∀ junk, readout (putAll (depad x.urb.data (.ofInt x.urb.dataLen) 0 x.pkts) junk)
        (x.pkts.map fun pkt => pkt.length.toNat).sum = packets.flatten := by
      intro junk
      rw [← hreceived junk, flatten_packetsAt, List.map_map]
      simp only [Nat.zero_add]
      rfl
    have hbyte := List.map_inj_left.mp ((hsame fun _ => 0).trans (hsame fun _ => 1).symm) (2 ^ 32 - 1)
      (List.mem_range.mpr (by omega))
    rw [putAll_outside houtside, putAll_outside houtside] at hbyte
    exact absurd hbyte (by decide)
  refine ⟨descsInside_iff.mp h.parsed, fun pkt hpkt hz => ?_, htotal⟩
  have hdelivered : ∀ junk, IsoXfer.delivered x.urb.data (.ofInt x.urb.dataLen) junk 0 x.pkts =
      packets := by
    intro junk
    rw [← hreceived junk]
    exact (IsoXfer.packetsAt_depad 0 junk (by rwa [UInt32.toNat_zero, Nat.zero_add])
      fun pkt hpkt hc => length_slot (length_of_reads h.reads hpkt hc)).symm
  have hc := covered_of_delivered (fun c c' => (hdelivered c).trans (hdelivered c').symm) pkt hpkt hz
  have hpos : 0 < pkt.length.toNat := UInt32.lt_iff_toNat_lt.mp (UInt32.pos_iff_ne_zero.mpr hz)
  exact (length_of_reads h.reads hpkt hc).resolve_left (Nat.ne_of_gt hpos)

theorem depadded_of_packed {x : IsoUrb srv usbOut} (h : x.Packed) : x.Depadded := by
  have hin : ∀ pkt ∈ x.pkts, pkt.length.toNat = 0 ∨ Within x.payload pkt := by
    intro pkt hpkt
    by_cases hz : pkt.length = 0
    · exact .inl (congrArg UInt32.toNat hz)
    · exact .inr (h.within pkt hpkt hz)
  constructor
  · exact descsInside_iff.mpr h.few
  · intro copy hcopy
    obtain ⟨pkt, hpkt, -, hsrc, hlen, -⟩ := of_mem_depadCopies hcopy
    rw [hsrc, hlen]
    exact hin pkt hpkt
  · intro copy hcopy
    obtain ⟨-, -, -, -, -, hdst⟩ := of_mem_depadCopies hcopy
    rw [UInt32.toNat_zero, Nat.zero_add] at hdst
    exact .inr (Nat.le_trans hdst (blockSize_of_lt h.total_lt))
  · refine ⟨x.pkts.map fun pkt => bytesAt x.payload pkt.offset.toNat pkt.length.toNat,
      fun src junk => ?_, ?_⟩
    · have hread : packetsAt (putAll (depad x.urb.data (.ofInt x.urb.dataLen) 0 x.pkts) junk) 0
          (x.pkts.map IsoPkt.length) =
            IsoXfer.delivered x.urb.data (.ofInt x.urb.dataLen) junk 0 x.pkts :=
        IsoXfer.packetsAt_depad 0 junk
          (by rw [UInt32.toNat_zero, Nat.zero_add]; exact h.total_lt)
          fun pkt hpkt _ => length_slot (hin pkt hpkt)
      have hslots : IsoXfer.delivered x.urb.data (.ofInt x.urb.dataLen) junk 0 x.pkts =
          x.pkts.map fun pkt => bytesAt x.payload pkt.offset.toNat pkt.length.toNat :=
        (IsoXfer.delivered_eq_iff 0 (fun pkt hpkt => length_slot (hin pkt hpkt))
          fun pkt hpkt hz => iff_of_true (covered_of_within hz (h.within pkt hpkt hz))
            (h.within pkt hpkt hz)).mpr (fun _ _ => rfl) junk
      rw [dispatchIso_out]
      exact congrArg some (hread.trans hslots)
    · rw [List.forall₂_map_right_iff, List.forall₂_same]
      refine fun pkt hpkt => ⟨fun _ => rfl, fun hnot b hb => ?_⟩
      rw [(hin pkt hpkt).resolve_right hnot] at hb
      cases hb

/-- Whatever the descriptors and the payload, the loop stays in its two buffers and the callback
gets what the host has sent exactly when there are at most 2²⁷ descriptors, every packet that has
bytes lies inside the payload and the block is as large as all of them. -/
theorem depadded_iff_packed (x : IsoUrb srv usbOut) : x.Depadded ↔ x.Packed :=
  ⟨packed_of_depadded, depadded_of_packed⟩

/-- A payload of one byte, and a packet of two bytes at the end of the address space. -/
def wrapStream : List UInt8 :=
  putBe32 (putBe32 (putBasicHdr usbipCmdSubmit 1 0x10002 usbOut 1) usbipCmdLengthOff 1)
    usbipCmdNumpktsOff 1 ++ [7] ++ isoDescPack ⟨0xffffffff, 2, 0, 0⟩

def wrapped : IsoUrb .isoOut usbOut where
  old := .zero
  stream := wrapStream
  urb := ((readCmd .isoOut .zero wrapStream).2.getD (.zero, [])).1
  rest := []
  read := by decide
  ep_ne := by decide
  iso := by decide
  packets := by decide
  direction := by decide

/-- The offset and the length add up to one, and the loop reads far behind the payload. -/
theorem depadded_fails : ¬∀ (srv : Served) (x : IsoUrb srv usbOut), x.Depadded := by
  intro h
  have hreads := (h .isoOut wrapped).reads ⟨0, 0xffffffff, 2⟩ (by decide)
  exact absurd hreads (by decide)

end IsoUrb

end Usbip.Wire
