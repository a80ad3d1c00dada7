import Usbip.Control.Scratch
import Usbip.Msc.Bot

/-! The control handlers of the built-in classes.  A handler gets a buffer and a length and does not
know which way the data goes.  The callbacks of the application that only look at what the handler
has stored are left out. -/

namespace Usbip.Classes

open Lib Control Msc
open Device (u16le)

/-- What a buffer holds. -/
abbrev Contents : Type := Nat → UInt8

def fetch (buf : Contents) (off n : Nat) : List UInt8 := (List.range n).map fun i => buf (off + i)

/-- `memcpy(buf, bytes, n)`. -/
def fill (bytes : List UInt8) : List Access := [.write ⟨0, bytes⟩]

/-- A negative return, which the core answers with a stall. -/
def stalled {σ : Type} (st : σ) : Handled σ := ⟨[], st, -1⟩

/-- A request that is accepted without a look at the buffer. -/
def accepted {σ : Type} (st : σ) : Handled σ := ⟨[], st, 0⟩

/-! ### CDC ACM -/

structure CdcLineCoding where
  baud : UInt32
  stopBits : UInt8
  parity : UInt8
  dataBits : UInt8
  deriving DecidableEq, Repr

/-- The part of `struct cdc_state` that control requests see. -/
structure CdcState where
  lineCoding : CdcLineCoding
  isOpen : Bool
  deriving DecidableEq, Repr

def codingFromWire (wire : Contents) : CdcLineCoding :=
  ⟨getLe32 (fetch wire 0 4), wire 4, wire 5, wire 6⟩

def codingToWire (lc : CdcLineCoding) : List Store :=
  [⟨0, u32le lc.baud⟩, ⟨4, [lc.stopBits]⟩, ⟨5, [lc.parity]⟩, ⟨6, [lc.dataBits]⟩]

def cdcControl (st : CdcState) (setup : Setup) (buf : Contents) (len : UInt16) :
    Handled CdcState :=
  if setup.bRequest = 0x20 then
    if 7 ≤ len.toNat then ⟨[.read 0 7], { st with lineCoding := codingFromWire buf }, 0⟩
    else accepted st
  else if setup.bRequest = 0x21 then ⟨(codingToWire st.lineCoding).map .write, st, 7⟩
  else if setup.bRequest = 0x22 then accepted { st with isOpen := setup.wValue &&& 1 ≠ 0 }
  else stalled st

/-! ### UAC -/

/-- The part of `struct uac_state` that control requests see. -/
structure UacState where
  mute : Nat → UInt8
  volume : Nat → UInt16

/-- The index of the Feature Unit that a request addresses. -/
def uacUnit (setup : Setup) : Option Nat :=
  if msb setup.wIndex = 2 then some 0 else if msb setup.wIndex = 5 then some 1 else none

def uacMute (st : UacState) (idx : Nat) (bRequest : UInt8) (buf : Contents) (len : UInt16) :
    Handled UacState :=
  if bRequest = 0x01 then
    if 1 ≤ len.toNat then
      ⟨[.read 0 1], { st with mute := tableSet st.mute idx (if buf 0 ≠ 0 then 1 else 0) }, 0⟩
    else accepted st
  else if bRequest = 0x81 then ⟨fill [st.mute idx], st, 1⟩
  else stalled st

/-- The volume that a `GET` request asks for. -/
def uacVolumeValue (st : UacState) (idx : Nat) (bRequest : UInt8) : Option UInt16 :=
  if bRequest = 0x81 then some (st.volume idx)
  else if bRequest = 0x82 then some 0xc100
  else if bRequest = 0x83 then some 0x0000
  else if bRequest = 0x84 then some 0x0100
  else none

def uacVolume (st : UacState) (idx : Nat) (bRequest : UInt8) (buf : Contents) (len : UInt16) :
    Handled UacState :=
  if bRequest = 0x01 then
    if 2 ≤ len.toNat then
      ⟨[.read 0 2], { st with volume := tableSet st.volume idx (getLe16 (fetch buf 0 2)) }, 0⟩
    else accepted st
  else
    match uacVolumeValue st idx bRequest with
    | some value => ⟨fill (u16le value), st, 2⟩
    | none => stalled st

def uacControl (st : UacState) (setup : Setup) (buf : Contents) (len : UInt16) :
    Handled UacState :=
  match uacUnit setup with
  | none => stalled st
  | some idx =>
    if msb setup.wValue = 0x01 then uacMute st idx setup.bRequest buf len
    else if msb setup.wValue = 0x02 then uacVolume st idx setup.bRequest buf len
    else stalled st

/-! ### DFU -/

def dfuIdle : UInt8 := 2
def dfuDnloadSync : UInt8 := 3
def dfuDnloadIdle : UInt8 := 5
def dfuManifestSync : UInt8 := 6
def dfuUploadIdle : UInt8 := 9
def dfuError : UInt8 := 10

/-- A target, as far as its optional callbacks are set. -/
structure DfuTarget where
  hasBegin : Bool
  hasFinish : Bool
  deriving DecidableEq, Repr

structure DfuState where
  transferSize : UInt16
  tgt : Fin 16 → DfuTarget
  cur : Fin 16
  state : UInt8
  status : UInt8
  /-- the cap of `dfu_build` -/
  transferSize_le : transferSize.toNat ≤ scratchLen

/-- A call of a callback of the current target. -/
inductive DfuCall
  | beginDownload
  | write (off : UInt32) (data : List UInt8)
  | read (off : UInt32) (want : Nat)
  | finish
  deriving DecidableEq, Repr

/-- What the callbacks of the current target answer. -/
structure DfuAnswers where
  write : Int
  read : (want : Nat) → Filling want

/-- A transition of the DFU state machine, with the status. -/
def DfuState.enter (st : DfuState) (state status : UInt8) : DfuState := { st with state, status }

def dfuDnload (st : DfuState) (answers : DfuAnswers) (wValue : UInt16) (buf : Contents)
    (len : UInt16) : Handled (DfuState × List DfuCall) :=
  let target := st.tgt st.cur
  if len = 0 then
    accepted (st.enter dfuManifestSync 0, if target.hasFinish then [.finish] else [])
  else
    let calls := (if wValue = 0 ∧ target.hasBegin then [DfuCall.beginDownload] else []) ++
      [.write (wValue.toUInt32 * st.transferSize.toUInt32) (fetch buf 0 len.toNat)]
    let rc := answers.write
    let st' :=
      if rc = 0 then st.enter dfuDnloadSync 0
      else if 0 < rc ∧ rc ≤ 0x0f then st.enter dfuError rc.toNat.toUInt8
      else st.enter dfuError 0x03
    ⟨[.read 0 len.toNat], (st', calls), 0⟩

def dfuUpload (st : DfuState) (answers : DfuAnswers) (wValue len : UInt16) :
    Handled (DfuState × List DfuCall) :=
  let want := min st.transferSize.toNat len.toNat
  let filling := answers.read want
  let st' := st.enter (if filling.rc ≠ 0 then dfuUploadIdle else dfuIdle) 0
  ⟨filling.stores.map .write,
    (st', [.read (wValue.toUInt32 * st.transferSize.toUInt32) want]), filling.rc⟩

/-- The state after `DFU_GETSTATUS`. -/
def DfuState.polled (st : DfuState) : DfuState :=
  if st.state = dfuDnloadSync then { st with state := dfuDnloadIdle }
  else if st.state = dfuManifestSync then { st with state := dfuIdle }
  else st

def dfuControl (st : DfuState) (answers : DfuAnswers) (setup : Setup) (buf : Contents)
    (len : UInt16) : Handled (DfuState × List DfuCall) :=
  if setup.reqType ≠ 1 then stalled (st, [])
  else if setup.bRequest = 1 then dfuDnload st answers setup.wValue buf len
  else if setup.bRequest = 2 then dfuUpload st answers setup.wValue len
  else if setup.bRequest = 3 then
    let st := st.polled
    ⟨fill [st.status, 0, 0, 0, st.state, 0], (st, []), 6⟩
  else if setup.bRequest = 5 then ⟨fill [st.state], (st, []), 1⟩
  else if setup.bRequest = 4 ∨ setup.bRequest = 6 then accepted (st.enter dfuIdle 0, [])
  else if setup.bRequest = 0 then accepted (st, [])
  else stalled (st, [])

/-! ### MTP -/

/-- The part of `struct mtp_state` that control requests see. -/
structure MtpSession where
  session : UInt32
  rxActive : Bool
  sendTarget : UInt32
  deriving DecidableEq, Repr

def mtpControl (st : MtpSession) (setup : Setup) : Handled MtpSession :=
  if setup.reqType ≠ 1 then stalled st
  else if setup.bRequest = 0x67 then
    ⟨[.write ⟨0, u16le 4⟩, .write ⟨2, u16le 0x2001⟩], st, 4⟩
  else if setup.bRequest = 0x66 then accepted ⟨0, false, 0⟩
  else if setup.bRequest = 0x64 then accepted st
  else stalled st

/-! ### UVC -/

/-- The negotiated part of `struct uvc_state`. -/
structure UvcState where
  curFormat : UInt8
  curFrame : UInt8
  curInterval : UInt32
  maxFrameSize : UInt32
  isoMps : UInt16
  deriving DecidableEq, Repr

def fillProbe (st : UvcState) : List Store :=
  [⟨0, List.replicate 34 0⟩, ⟨0, [1]⟩, ⟨2, [st.curFormat]⟩, ⟨3, [st.curFrame]⟩,
    ⟨4, u32le st.curInterval⟩, ⟨18, u32le st.maxFrameSize⟩, ⟨22, u32le st.isoMps.toUInt32⟩,
    ⟨26, u32le 48000000⟩]

/-- `v ? v : old`. -/
def orOld {α : Type} [OfNat α 0] [DecidableEq α] (v old : α) : α := if v ≠ 0 then v else old

def uvcSetCur (st : UvcState) (buf : Contents) (len : UInt16) : Handled UvcState :=
  let formats : Handled UvcState :=
    if 4 ≤ len.toNat then
      ⟨[.read 2 1, .read 3 1],
        { st with curFormat := orOld (buf 2) st.curFormat, curFrame := orOld (buf 3) st.curFrame },
        0⟩
    else accepted st
  if 8 ≤ len.toNat then
    ⟨formats.accesses ++ [.read 4 4],
      { formats.state with
        curInterval := orOld (getLe32 (fetch buf 4 4)) formats.state.curInterval }, 0⟩
  else formats

def uvcControl (st : UvcState) (setup : Setup) (buf : Contents) (len : UInt16) :
    Handled UvcState :=
  let cs := msb setup.wValue
  let rq := setup.bRequest
  if cs ≠ 1 ∧ cs ≠ 2 then
    if rq = 0x86 then ⟨fill [3], st, 1⟩ else stalled st
  else if rq = 0x86 then ⟨fill [3], st, 1⟩
  else if rq = 0x85 then ⟨[.write ⟨0, [34]⟩, .write ⟨1, [0]⟩], st, 2⟩
  else if rq = 0x81 ∨ rq = 0x82 ∨ rq = 0x83 ∨ rq = 0x87 ∨ rq = 0x84 then
    ⟨(fillProbe st).map .write, st, 34⟩
  else if rq = 0x01 then uvcSetCur st buf len
  else stalled st

/-! ### HID -/

/-- `struct hid_state`, with the callbacks of the application as they answer. -/
structure HidState where
  reportDesc : List UInt8
  country : UInt8
  getReport : Option (UInt8 → UInt8 → (len : UInt16) → Filling len.toNat)
  hasSetReport : Bool
  hasOnOutput : Bool
  idle : UInt8
  protocol : UInt8
  lastInput : List UInt8
  /-- `report_desc_len` has 16 bits -/
  reportDesc_lt : reportDesc.length < 2 ^ 16
  /-- what `hid_send_report` keeps -/
  lastInput_le : lastInput.length ≤ 64

def hidDesc (st : HidState) : List UInt8 :=
  [9, 0x21, 0x11, 0x01, st.country, 1, 0x22] ++ u16le st.reportDesc.length.toUInt16

/-- `memcpy(buf, bytes, count)` for as much as is asked for. -/
def copyOut {σ : Type} (st : σ) (bytes : List UInt8) (len : UInt16) : Handled σ :=
  ⟨fill (bytes.take len.toNat), st, min bytes.length len.toNat⟩

@[simp] theorem copyOut_accesses {σ : Type} (st : σ) (bytes : List UInt8) (len : UInt16) :
    (copyOut st bytes len).accesses = fill (bytes.take len.toNat) := rfl

def hidGetReport (st : HidState) (wValue len : UInt16) : Handled HidState :=
  let echo := copyOut st st.lastInput len
  match st.getReport with
  | none => echo
  | some getReport =>
    let filling := getReport (msb wValue) (lsb wValue) len
    let asked := filling.stores.map Access.write
    if 0 ≤ filling.rc then ⟨asked, st, filling.rc⟩
    else { echo with accesses := asked ++ echo.accesses }

def hidControl (st : HidState) (setup : Setup) (len : UInt16) : Handled HidState :=
  if setup.reqType = 0 ∧ setup.bRequest = 0x06 then
    if msb setup.wValue = 0x22 then copyOut st st.reportDesc len
    else if msb setup.wValue = 0x21 then copyOut st (hidDesc st) len
    else stalled st
  else if setup.reqType ≠ 1 then stalled st
  else if setup.bRequest = 0x01 then hidGetReport st setup.wValue len
  else if setup.bRequest = 0x09 then
    ⟨if st.hasSetReport ∨ st.hasOnOutput then [.read 0 len.toNat] else [], st, 0⟩
  else if setup.bRequest = 0x02 then ⟨fill [st.idle], st, 1⟩
  else if setup.bRequest = 0x0a then accepted { st with idle := msb setup.wValue }
  else if setup.bRequest = 0x03 then ⟨fill [st.protocol], st, 1⟩
  else if setup.bRequest = 0x0b then accepted { st with protocol := lsb setup.wValue }
  else stalled st

/-! ### Bluetooth -/

/-- `struct bt_state`, as far as control requests see it. -/
structure BtState where
  hasOnCommand : Bool
  deriving DecidableEq, Repr

def btControl (st : BtState) (setup : Setup) (len : UInt16) : Handled BtState :=
  if setup.reqType = 1 ∧ ¬setup.isIn then
    ⟨if st.hasOnCommand then [.read 0 len.toNat] else [], st, 0⟩
  else stalled st

/-! ### The function behind a control slot -/

/-- A function of a built-in class, with its state. -/
inductive Function
  | cdc (st : CdcState)
  | msc (st : MscState)
  | uac (st : UacState)
  | dfu (st : DfuState) (answers : DfuAnswers)
  | mtp (st : MtpSession)
  | uvc (st : UvcState)
  | hid (st : HidState)
  | bt (st : BtState)

def Function.control (f : Function) (setup : Setup) (buf : Contents) (len : UInt16) :
    Handled Function :=
  match f with
  | .cdc st => (cdcControl st setup buf len).map .cdc
  | .msc st => (st.control setup).map .msc
  | .uac st => (uacControl st setup buf len).map .uac
  | .dfu st answers => (dfuControl st answers setup buf len).map fun r => .dfu r.1 answers
  | .mtp st => (mtpControl st setup).map .mtp
  | .uvc st => (uvcControl st setup buf len).map .uvc
  | .hid st => (hidControl st setup len).map .hid
  | .bt st => (btControl st setup len).map .bt

/-- The length that `handle_control` tells a handler. -/
def told (setup : Setup) (data : List UInt8) : UInt16 :=
  if setup.isIn then setup.wLength else data.length.toUInt16

end Usbip.Classes
