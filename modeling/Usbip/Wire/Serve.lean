import Usbip.Wire.Cmd

/-! The serve loop: it reads a command, captures the request, and unlinks or dispatches.  The record
of the command is not initialised, so that each turn starts with what the stack holds. -/

namespace Usbip.Wire

open Lib

def usbmonXferIso : Nat := 0
def usbmonXferIntr : Nat := 1
def usbmonXferCtrl : Nat := 2
def usbmonXferBulk : Nat := 3

def bmattrToUsbmon (bmattr : UInt8) (ep : Int) : Nat :=
  if ep = 0 then usbmonXferCtrl
  else
    match (bmattr &&& 3).toNat with
    | 0 => usbmonXferCtrl
    | 1 => usbmonXferIso
    | 2 => usbmonXferBulk
    | _ => usbmonXferIntr

/-- The cell that `pcap_xfer_dev` reads. -/
def pcapCell (ep dir : Int) : Option Look :=
  if ep = 0 then none else if ep < 16 then some ⟨ep, dir⟩ else none

def pcapXferDev (srv : Served) (ep dir : Int) : Nat :=
  if ep = 0 then usbmonXferCtrl
  else
    match (pcapCell ep dir).bind srv.epMap with
    | some e => bmattrToUsbmon e.type ep
    | none => usbmonXferBulk

/-- The setup packet in its eight bytes, which are little-endian. -/
def setupOf (raw : List UInt8) : Setup where
  bmRequestType := byteAt raw 0
  bRequest := byteAt raw 1
  wValue := (byteAt raw 2).toUInt16 ||| (byteAt raw 3).toUInt16 <<< 8
  wIndex := (byteAt raw 4).toUInt16 ||| (byteAt raw 5).toUInt16 <<< 8
  wLength := (byteAt raw 6).toUInt16 ||| (byteAt raw 7).toUInt16 <<< 8

/-- The cell that `ep_by_addr` reads. -/
def addrCell (addr : UInt8) : Look :=
  ⟨(addr &&& 0x0f).toNat, if addr &&& 0x80 ≠ 0 then 1 else 0⟩

/-- The cells that `handle_control` reads: for `GET_STATUS` and for the halt of an endpoint. -/
def controlCells (setup : Setup) : List Look :=
  if (setup.bmRequestType >>> 5) &&& 3 = 0 ∧ setup.bRequest = 0 then
    [addrCell setup.wIndex.toUInt8]
  else
    match haltRequest setup with
    | some (.clearFeature addr) | some (.setFeature addr) => [addrCell addr]
    | _ => []

/-- The cells that `usbip_device_dispatch` reads. -/
def dispatchCells (urb : Urb) : List Look :=
  if urb.ep = 0 then controlCells (setupOf urb.setup) else (epCell urb.ep urb.direction).toList

/-- The cells that `usbip_device_handle_unlink` reads. -/
def unlinkCells : List Look :=
  epSlots.map fun slot => ⟨slot.1, if slot.2 = .usbIn then 1 else 0⟩

/-- What `usbip_device_dispatch` and the capture use of a command. -/
structure Used where
  seqnum : UInt32
  devid : UInt32
  direction : UInt32
  ep : UInt32
  length : Int
  setup : List UInt8
  data : Option (List UInt8)
  dataLen : Int
  numberOfPackets : Int
  iso : Option (List IsoPkt)
  deriving DecidableEq, Repr

def Urb.used (urb : Urb) : Used where
  seqnum := urb.seqnum
  devid := urb.devid
  direction := urb.direction
  ep := urb.ep
  length := urb.length
  setup := urb.setup
  data := urb.data
  dataLen := urb.dataLen
  numberOfPackets := urb.numberOfPackets
  iso := urb.iso

/-- The arguments of `usbip_pcap_packet` for a request. -/
structure Capture where
  devid : UInt32
  seqnum : UInt32
  xferType : Nat
  ep : UInt32
  direction : UInt32
  setup : Option (List UInt8)
  data : Option (List UInt8)
  dataLen : Int
  urbLen : Int
  deriving DecidableEq, Repr

/-- The capture of a request: a setup packet for endpoint 0, and the payload of an OUT transfer. -/
def captureOf (srv : Served) (urb : Used) : Capture where
  devid := urb.devid
  seqnum := urb.seqnum
  xferType := pcapXferDev srv (int32 urb.ep) (int32 urb.direction)
  ep := urb.ep
  direction := urb.direction
  setup := if urb.ep = 0 then some urb.setup else none
  data := if urb.direction = usbOut then urb.data else none
  dataLen := if urb.direction = usbOut then urb.dataLen else 0
  urbLen := urb.length

/-- What a turn of the loop finds around it: what the record holds, whether the request is captured,
and whether a `usbip_send_ret` answers it that captures the completion. -/
structure TurnEnv where
  old : Urb
  pcap : Bool
  retPcap : Bool
  deriving DecidableEq, Repr

/-- What the loop does with a command. -/
inductive Action
  /-- `usbip_device_handle_unlink` -/
  | unlink (seqnum unlinkSeqnum : UInt32)
  /-- `usbip_device_dispatch`, after the capture if there is one -/
  | dispatch (urb : Urb) (capture : Option Capture)
  deriving DecidableEq, Repr

/-- A turn of the loop that has read a header. -/
structure Turn where
  hdr : List UInt8
  /-- what follows the header on the stream -/
  body : List UInt8
  /-- the cells of `ep_map` that are read -/
  looks : List Look
  /-- `pcap_xfer_dev` is called -/
  captured : Bool
  /-- `none` when the stream ends within the command -/
  action : Option Action
  deriving DecidableEq, Repr

/-- The cells that the capture of a request or of a completion reads. -/
def captureCells (urb : Urb) (on : Bool) : List Look :=
  if on then (pcapCell (int32 urb.ep) (int32 urb.direction)).toList else []

/-- The rest of a turn, with the command in the record. -/
def act (srv : Served) (env : TurnEnv) (urb : Urb) : List Look × Bool × Action :=
  if urb.command = usbipCmdUnlink then (unlinkCells, false, .unlink urb.seqnum urb.unlinkSeqnum)
  else
    (captureCells urb env.pcap ++ dispatchCells urb ++ captureCells urb env.retPcap,
      env.pcap || env.retPcap,
      .dispatch urb (if env.pcap then some (captureOf srv urb.used) else none))

/-- `serve_conn` on the bytes that the peer sends, for `n` turns or until the stream ends. -/
def serveConn (srv : Served) : (Nat → TurnEnv) → Nat → List UInt8 → List Turn
  | _, 0, _ => []
  | env, n + 1, s =>
    match readn usbipHdrLen s with
    | none => []
    | some (hdr, body) =>
      match readCmd srv (env 0).old s with
      | (looks, none) => [⟨hdr, body, looks, false, none⟩]
      | (looks, some (urb, rest)) =>
        let (more, captured, action) := act srv (env 0) urb
        ⟨hdr, body, looks ++ more, captured, some action⟩ ::
          serveConn srv (fun i => env (i + 1)) n rest

/-! ### What one turn looks up -/

/-- The words of a header that keep the loop inside the map: unless the command is a `CMD_UNLINK`,
the direction is one of the two when the endpoint has a row (endpoint 0 has no lookup of its own but
in a `CMD_SUBMIT`), and an endpoint that is captured is a non-negative `int`. -/
def Addressed (hdr : List UInt8) (captured : Bool) : Prop :=
  word hdr usbipHdrCommandOff = usbipCmdUnlink ∨
    ((word hdr usbipHdrCommandOff = usbipCmdSubmit ∨ word hdr usbipHdrEpOff ≠ 0) →
      word hdr usbipHdrEpOff < 16 →
      word hdr usbipHdrDirectionOff = usbOut ∨ word hdr usbipHdrDirectionOff = usbIn) ∧
    (captured = true → (word hdr usbipHdrEpOff).toNat < 2 ^ 31)

instance (hdr : List UInt8) (captured : Bool) : Decidable (Addressed hdr captured) := by
  unfold Addressed
  infer_instance

/-- All cells that the turn reads are in the map. -/
def Turn.InMap (turn : Turn) : Prop := ∀ look ∈ turn.looks, look.InRange

theorem addrCell_inRange (addr : UInt8) : (addrCell addr).InRange := by
  have h : (addr &&& 0x0f).toNat < 16 := by
    rw [UInt8.toNat_and]
    exact lt_of_le_of_lt Nat.and_le_right (by decide)
  refine ⟨⟨Int.natCast_nonneg _, Int.ofNat_lt.mpr h⟩, ?_⟩
  unfold addrCell
  split
  · exact .inr rfl
  · exact .inl rfl

theorem controlCells_inRange (setup : Setup) : ∀ look ∈ controlCells setup, look.InRange := by
  intro look h
  unfold controlCells at h
  split at h
  · rw [List.mem_singleton.mp h]
    exact addrCell_inRange _
  · split at h
    · rw [List.mem_singleton.mp h]
      exact addrCell_inRange _
    · rw [List.mem_singleton.mp h]
      exact addrCell_inRange _
    · exact absurd h List.not_mem_nil

theorem unlinkCells_inRange : ∀ look ∈ unlinkCells, look.InRange := by
  decide

theorem int32_eq_natCast {w : UInt32} {n : Nat} (hn : n < 2 ^ 31) :
    int32 w = n ↔ w = UInt32.ofNat n := by
  have hw := w.toNat_lt
  have hof : (UInt32.ofNat n).toNat = n := UInt32.toNat_ofNat_of_lt' (by rw [UInt32.size]; omega)
  rw [← UInt32.toNat_inj, hof, int32_eq]
  split <;> omega

/-- The capture stays in the map exactly when the endpoint is 0, or a non-negative `int` and the
direction is one of the two if the endpoint has a row. -/
theorem pcapCell_inRange {ep direction : UInt32} :
    (∀ look ∈ pcapCell (int32 ep) (int32 direction), look.InRange) ↔
      ep = 0 ∨ ep.toNat < 2 ^ 31 ∧ (ep < 16 → direction = usbOut ∨ direction = usbIn) := by
  have hep0 : int32 ep = 0 ↔ ep = 0 := int32_eq_natCast (n := 0) (by decide)
  have hd0 : int32 direction = 0 ↔ direction = usbOut := int32_eq_natCast (n := 0) (by decide)
  have hd1 : int32 direction = 1 ↔ direction = usbIn := int32_eq_natCast (n := 1) (by decide)
  have hlt : ep < 16 ↔ ep.toNat < 16 := UInt32.lt_iff_toNat_lt
  have hw := ep.toNat_lt
  have heq := int32_eq ep
  unfold pcapCell
  split
  · rename_i h0
    exact ⟨fun _ => .inl (hep0.mp h0), fun _ _ h => nomatch h⟩
  · rename_i h0
    rw [hep0] at h0
    split
    · rename_i h16
      simp only [Option.mem_def, Option.some.injEq, forall_eq', Look.InRange, hd0, hd1, h0,
        false_or]
      split at heq
      · constructor
        · rintro ⟨-, hdir⟩
          exact ⟨‹_›, fun _ => hdir⟩
        · rintro ⟨-, hdir⟩
          exact ⟨⟨by omega, h16⟩, hdir (hlt.mpr (by omega))⟩
      · constructor
        · rintro ⟨hrow, -⟩
          omega
        · rintro ⟨hpos, -⟩
          omega
    · rename_i h16
      refine ⟨fun _ => .inr ?_, fun _ _ h => nomatch h⟩
      split at heq
      · exact ⟨‹_›, fun h => absurd (hlt.mp h) (by omega)⟩
      · omega

section
variable {srv : Served} {old urb : Urb} {env : TurnEnv} {s hdr body rest : List UInt8}

/-- The lookup of the command reader stays in the map exactly when the direction of a `CMD_SUBMIT`
is one of the two if the endpoint has a row. -/
theorem readCmd_inRange (hread : readn usbipHdrLen s = some (hdr, body)) :
    (∀ look ∈ (readCmd srv old s).1, look.InRange) ↔
      (word hdr usbipHdrCommandOff = usbipCmdSubmit → word hdr usbipHdrEpOff < 16 →
        word hdr usbipHdrDirectionOff = usbOut ∨ word hdr usbipHdrDirectionOff = usbIn) := by
  by_cases hc : word hdr usbipHdrCommandOff = usbipCmdSubmit
  · cases hp : readPayload (readHeader old hdr) body with
    | none =>
      -- only an OUT transfer has a payload that can be cut short
      have hout : word hdr usbipHdrDirectionOff = usbOut := by
        by_contra hno
        have : readPayload (readHeader old hdr) body = some (readHeader old hdr, body) :=
          if_neg fun h => hno ((readHeader_basic old hdr).2.2.2.1.symm.trans h.1)
        rw [this] at hp
        cases hp
      rw [readCmd_truncated hread hc hp]
      exact ⟨fun _ _ _ => .inl hout, fun _ _ h => absurd h List.not_mem_nil⟩
    | some got =>
      obtain ⟨urb, s'⟩ := got
      rw [readCmd_submit hread hc hp]
      obtain ⟨data, dataLen, rfl⟩ := readPayload_frame hp
      have hbasic := readHeader_basic old hdr
      simp only [Option.mem_toList]
      rw [← hbasic.2.2.2.1, ← hbasic.2.2.2.2]
      exact epCell_inRange.trans ⟨fun h _ => h, fun h => h hc⟩
  · rw [readCmd_other _ _ hread hc]
    exact ⟨fun _ h => absurd h hc, fun _ _ h => absurd h List.not_mem_nil⟩

theorem readCmd_basic (hread : readn usbipHdrLen s = some (hdr, body))
    (h : (readCmd srv old s).2 = some (urb, rest)) :
    urb.command = word hdr usbipHdrCommandOff ∧ urb.direction = word hdr usbipHdrDirectionOff ∧
      urb.ep = word hdr usbipHdrEpOff := by
  have hbasic := readHeader_basic old hdr
  by_cases hc : word hdr usbipHdrCommandOff = usbipCmdSubmit
  · cases hp : readPayload (readHeader old hdr) body with
    | none =>
      rw [readCmd_truncated hread hc hp] at h
      cases h
    | some got =>
      obtain ⟨sub, s'⟩ := got
      rw [readCmd_submit hread hc hp] at h
      obtain ⟨data, dataLen, rfl⟩ := readPayload_frame hp
      obtain ⟨iso, rfl, -⟩ := readIso_frame h
      exact ⟨hbasic.1, hbasic.2.2.2.1, hbasic.2.2.2.2⟩
  · rw [readCmd_other _ _ hread hc] at h
    cases h
    exact ⟨hbasic.1, hbasic.2.2.2.1, hbasic.2.2.2.2⟩

theorem captureCells_inRange {on : Bool} :
    (∀ look ∈ captureCells urb on, look.InRange) ↔
      (on = true → urb.ep = 0 ∨ urb.ep.toNat < 2 ^ 31 ∧
        (urb.ep < 16 → urb.direction = usbOut ∨ urb.direction = usbIn)) := by
  cases on with
  | false => exact ⟨fun _ h => absurd h Bool.false_ne_true, fun _ _ h => absurd h List.not_mem_nil⟩
  | true =>
    simp only [captureCells, if_true, Option.mem_toList, true_implies]
    exact pcapCell_inRange

theorem dispatchCells_inRange :
    (∀ look ∈ dispatchCells urb, look.InRange) ↔
      (urb.ep ≠ 0 → urb.ep < 16 → urb.direction = usbOut ∨ urb.direction = usbIn) := by
  unfold dispatchCells
  split
  · rename_i h0
    exact ⟨fun _ hne => absurd h0 hne, fun _ => controlCells_inRange _⟩
  · rename_i h0
    simp only [Option.mem_toList]
    exact epCell_inRange.trans ⟨fun h _ => h, fun h => h h0⟩

theorem act_inRange :
    (∀ look ∈ (act srv env urb).1, look.InRange) ↔
      urb.command = usbipCmdUnlink ∨
        ((urb.ep ≠ 0 → urb.ep < 16 → urb.direction = usbOut ∨ urb.direction = usbIn) ∧
          ((act srv env urb).2.1 = true → urb.ep.toNat < 2 ^ 31)) := by
  unfold act
  split
  · rename_i hu
    exact ⟨fun _ => .inl hu, fun _ => unlinkCells_inRange⟩
  · rename_i hu
    have h0 : urb.ep = 0 → urb.ep.toNat < 2 ^ 31 := fun h => by rw [h]; decide
    rw [List.forall_mem_append, List.forall_mem_append, captureCells_inRange,
      dispatchCells_inRange, captureCells_inRange, Bool.or_eq_true, or_iff_right hu]
    grind

/-- A turn that the stream lets the loop finish stays in the map exactly when its header is
addressed. -/
theorem turn_inRange (srv : Served) (env : TurnEnv) (hread : readn usbipHdrLen s = some (hdr, body))
    (h : (readCmd srv env.old s).2 = some (urb, rest)) :
    (∀ look ∈ (readCmd srv env.old s).1 ++ (act srv env urb).1, look.InRange) ↔
      Addressed hdr (act srv env urb).2.1 := by
  obtain ⟨hcmd, hdir, hep⟩ := readCmd_basic hread h
  rw [List.forall_mem_append, readCmd_inRange hread, act_inRange, hcmd, hdir, hep, Addressed]
  have hne : usbipCmdUnlink ≠ usbipCmdSubmit := by decide
  by_cases hu : word hdr usbipHdrCommandOff = usbipCmdUnlink
  · simp only [hu, hne, false_implies, true_or, and_self]
  · grind

theorem cut_inRange (srv : Served) (old : Urb) (hread : readn usbipHdrLen s = some (hdr, body))
    (h : (readCmd srv old s).2 = none) :
    (∀ look ∈ (readCmd srv old s).1, look.InRange) ↔ Addressed hdr false := by
  have hc : word hdr usbipHdrCommandOff = usbipCmdSubmit := by
    by_contra hc
    rw [readCmd_other _ _ hread hc] at h
    cases h
  have hne : usbipCmdSubmit ≠ usbipCmdUnlink := by decide
  rw [readCmd_inRange hread, Addressed, hc]
  simp [hne]

end

theorem of_mem_serveConn {srv : Served} {env : Nat → TurnEnv} {n : Nat} {s : List UInt8}
    {turn : Turn} (h : turn ∈ serveConn srv env n s) :
    ∃ i s', readn usbipHdrLen s' = some (turn.hdr, turn.body) ∧
      ((∃ looks, readCmd srv (env i).old s' = (looks, none) ∧
          turn = ⟨turn.hdr, turn.body, looks, false, none⟩) ∨
        ∃ looks urb rest, readCmd srv (env i).old s' = (looks, some (urb, rest)) ∧
          turn = ⟨turn.hdr, turn.body, looks ++ (act srv (env i) urb).1,
            (act srv (env i) urb).2.1, some (act srv (env i) urb).2.2⟩) := by
  induction n generalizing env s with
  | zero => exact absurd h List.not_mem_nil
  | succ n ih =>
    rw [serveConn] at h
    split at h
    · exact absurd h List.not_mem_nil
    · rename_i hdr body hread
      split at h
      · rename_i looks hcmd
        obtain rfl := List.mem_singleton.mp h
        exact ⟨0, s, hread, .inl ⟨looks, hcmd, rfl⟩⟩
      · rename_i looks urb rest hcmd
        rcases List.mem_cons.mp h with rfl | h
        · exact ⟨0, s, hread, .inr ⟨looks, urb, rest, hcmd, rfl⟩⟩
        · obtain ⟨i, hi⟩ := ih h
          exact ⟨i + 1, hi⟩

/-- The serve loop stays in the endpoint map exactly while the headers that it reads are
addressed. -/
theorem inMap_iff_addressed (srv : Served) (env : Nat → TurnEnv) (n : Nat) (s : List UInt8) :
    (∀ turn ∈ serveConn srv env n s, turn.InMap) ↔
      ∀ turn ∈ serveConn srv env n s, Addressed turn.hdr turn.captured := by
  refine forall₂_congr fun turn h => ?_
  obtain ⟨i, s', hread, ⟨looks, hcmd, hturn⟩ | ⟨looks, urb, rest, hcmd, hturn⟩⟩ :=
    of_mem_serveConn h
  · have := cut_inRange srv (env i).old hread (by rw [hcmd])
    rw [hturn, Turn.InMap]
    rwa [hcmd] at this
  · have := turn_inRange srv (env i) hread (by rw [hcmd])
    rw [hturn, Turn.InMap]
    rwa [hcmd] at this

/-- A `CMD_SUBMIT` to endpoint 1 in the direction 5. -/
def strayHdr : List UInt8 := putBasicHdr usbipCmdSubmit 1 0x10002 5 1

/-- The header makes the command reader read the map outside its columns. -/
theorem inMap_fails :
    ¬∀ turn ∈ serveConn .bulkOut (fun _ => ⟨.zero, false, false⟩) 1 strayHdr, turn.InMap := by
  intro h
  have hturn := h _ (List.mem_of_getElem? (i := 0) rfl)
  exact absurd (hturn ⟨1, 5⟩ (by decide)) (by decide)

end Usbip.Wire
