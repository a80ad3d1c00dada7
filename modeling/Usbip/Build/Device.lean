import Mathlib.Data.List.TakeDrop
import Usbip.Types

/-! The building of a device: descriptors appended to the configuration blob, endpoint numbers and
their reservations, routing tables, and descriptor groups that can be rolled back. -/

namespace Usbip

def usbDtInterface : UInt8 := 4
def usbDtEndpoint : UInt8 := 5

/-- `USBIP_EP_NO_IFNUM`: `ep->ifnum` when no interface owned the append cursor. -/
def usbipEpNoIfnum : UInt8 := 0xff

/-- The built part of `struct usbip_ep`. -/
structure Ep where
  addr : UInt8
  number : Nat
  dir : Dir
  type : UInt8
  mps : UInt16
  interval : UInt8
  ifnum : UInt8
  deriving DecidableEq, Repr

structure IfAlt where
  ifnum : UInt8
  alt : UInt8
  off : Nat
  deriving DecidableEq, Repr

structure MsosEntry where
  group : Int
  compatible : String
  guid : Option String
  deriving DecidableEq, Repr

/-- `struct ctrl_slot` and `struct set_alt_slot`: a callback, if there is one, and its context. -/
structure CtrlSlot where
  cb : Option Nat
  ctx : Nat
  deriving DecidableEq, Repr

structure DescrGroup where
  firstIfnum : UInt8
  nIfs : Nat
  descrOff : Nat
  deriving DecidableEq, Repr

/-- The fields of the device descriptor that the setters write. -/
structure DeviceHeader where
  vid : UInt16
  pid : UInt16
  bcdDevice : UInt16
  devClass : UInt8
  devSub : UInt8
  devProto : UInt8
  iMfr : UInt8
  iProd : UInt8
  iSer : UInt8
  deriving DecidableEq, Repr

/-- A table with a slot for each endpoint number and direction. -/
abbrev EpTable (α : Type) := Nat → Dir → α

/-- `table[number][dir] = v`. -/
def EpTable.set {α : Type} (table : EpTable α) (number : Nat) (dir : Dir) (v : α) : EpTable α :=
  fun n d => if n = number ∧ d = dir then v else table n d

@[simp] theorem EpTable.set_self {α : Type} (table : EpTable α) (number : Nat) (dir : Dir) (v : α) :
    table.set number dir v number dir = v := if_pos ⟨rfl, rfl⟩

theorem EpTable.set_of_ne {α : Type} (table : EpTable α) {number n : Nat} {dir d : Dir} (v : α)
    (h : ¬(n = number ∧ d = dir)) : table.set number dir v n d = table n d := if_neg h

/-- `table[i] = v`. -/
def tableSet {α : Type} (table : Nat → α) (i : Nat) (v : α) : Nat → α :=
  fun j => if j = i then v else table j

/-- The snapshot of `usbip_device_group_begin`. -/
structure GMark where
  descrLen : Nat
  nIfalts : Nat
  nEps : Nat
  nMsos : Nat
  nIfnums : Nat
  cur : Option (UInt8 × UInt8)
  ifPresent : Nat → Bool
  epReserved : EpTable UInt8
  ctrl : Nat → CtrlSlot
  ctrlDefault : CtrlSlot
  setAltTab : Nat → CtrlSlot

/-- `struct usbip_device`, as far as building and describing a device go. -/
structure Device where
  header : DeviceHeader
  bcdUSB : UInt16
  msos : List MsosEntry
  msos1Vendor : UInt8
  msos2Vendor : UInt8
  webusb : Bool
  /-- the first `descr_len` bytes of `descr` -/
  descr : List UInt8
  ifalts : List IfAlt
  /-- `cur_ifnum` and `cur_alt`, `none` for -1 -/
  cur : Option (UInt8 × UInt8)
  ifPresent : Nat → Bool
  nIfnums : Nat
  eps : List Ep
  epMap : EpTable (Option EpId)
  /-- the owner of a reserved number plus 1, and 0 for a number that is free -/
  epReserved : EpTable UInt8
  ctrl : Nat → CtrlSlot
  ctrlDefault : CtrlSlot
  setAltTab : Nat → CtrlSlot
  groups : List DescrGroup
  gmark : GMark

def CtrlSlot.none : CtrlSlot := ⟨.none, 0⟩

def GMark.zero : GMark :=
  ⟨0, 0, 0, 0, 0, some (0, 0), fun _ => false, fun _ _ => 0, fun _ => .none, .none, fun _ => .none⟩

/-- The byte `i` of a descriptor. -/
def byteAt (desc : List UInt8) (i : Nat) : UInt8 := desc.getD i 0

/-- `bEndpointAddress & 0x0f`. -/
def epNumber (addr : UInt8) : Nat := (addr &&& 0x0f).toNat

/-- `(addr & 0x80) ? USB_IN : USB_OUT`. -/
def epDir (addr : UInt8) : Dir := if addr &&& 0x80 ≠ 0 then .usbIn else .usbOut

/-- `number | (dir == USB_IN ? 0x80 : 0x00)`. -/
def epAddr (number : Nat) (dir : Dir) : UInt8 :=
  number.toUInt8 ||| match dir with
    | .usbIn => 0x80
    | .usbOut => 0

def descLen (desc : List UInt8) : Nat :=
  if byteAt desc 0 ≠ 0 then (byteAt desc 0).toNat
  else
    match byteAt desc 1 with
    | 1 => 18
    | 2 => 9
    | 4 => 9
    | 5 => 7
    | _ => (byteAt desc 0).toNat

/-- The bytes appended for a descriptor: `memcpy(dst, desc, blen)` and `dst[0] = blen`. -/
def normalize (desc : List UInt8) : List UInt8 :=
  (desc.takeD (descLen desc) 0).set 0 (descLen desc).toUInt8

def newEp (desc : List UInt8) (owner : UInt8) (number : Nat) : Ep where
  addr := epAddr number (epDir (byteAt desc 2))
  number
  dir := epDir (byteAt desc 2)
  type := byteAt desc 3 &&& 0x03
  mps := (byteAt desc 4).toUInt16 ||| (byteAt desc 5).toUInt16 <<< 8
  interval := byteAt desc 6
  ifnum := owner

/-- The sizes of `descr`, `ifalts`, `eps`, `msos` and `groups`. -/
def descrCap : Nat := 2048
def ifaltsCap : Nat := 64
def epsCap : Nat := 128
def msosCap : Nat := 8
def groupsCap : Nat := 8

namespace Device

def create (header : DeviceHeader) : Device where
  header
  bcdUSB := 0x0200
  msos := []
  msos1Vendor := 0
  msos2Vendor := 0
  webusb := false
  descr := []
  ifalts := []
  cur := none
  ifPresent _ := false
  nIfnums := 0
  eps := []
  epMap _ _ := none
  epReserved _ _ := 0
  ctrl _ := .none
  ctrlDefault := .none
  setAltTab _ := .none
  groups := []
  gmark := .zero

def msosAdd (dev : Device) (group : Int) (compatible guid : Option String) : Device × Int :=
  let entry : MsosEntry := ⟨group, compatible.getD "WINUSB", guid⟩
  let add (msos : List MsosEntry) : Device × Int :=
    ({ dev with
        msos
        bcdUSB := 0x0210
        msos1Vendor := if dev.msos1Vendor = 0 then 0x20 else dev.msos1Vendor
        msos2Vendor := if dev.msos2Vendor = 0 then 0x21 else dev.msos2Vendor }, usbSuccess)
  match dev.msos.findIdx? fun e => e.group = group with
  | some i => add (dev.msos.set i entry)
  | none =>
    if msosCap ≤ dev.msos.length then (dev, usbErrorNoMem)
    else add (dev.msos ++ [entry])

def enableWebusb (dev : Device) : Device := { dev with webusb := true, bcdUSB := 0x0210 }

/-- `ifalt_for`: the index of the record. -/
def ifaltFor (dev : Device) (ifnum alt : UInt8) : Option Nat :=
  dev.ifalts.findIdx? fun ia => ia.ifnum = ifnum ∧ ia.alt = alt

/-- The record that `ifalt_for` points to. -/
def recordOf (dev : Device) (ifnum alt : UInt8) : Option IfAlt :=
  (dev.ifaltFor ifnum alt).bind fun i => dev.ifalts[i]?

def registerIfnum (dev : Device) (ifnum : UInt8) : Device :=
  let dev := { dev with nIfnums := max dev.nIfnums (ifnum.toNat + 1) }
  if 16 ≤ ifnum.toNat ∨ dev.ifPresent ifnum.toNat then dev
  else
    { dev with
      ifPresent := tableSet dev.ifPresent ifnum.toNat true
      groups := dev.groups.modify (dev.groups.length - 1) fun group =>
        { group with
          firstIfnum := if group.nIfs = 0 then ifnum else group.firstIfnum
          nIfs := group.nIfs + 1 } }

def epReservationAllows (dev : Device) (owner : UInt8) (epNum : Nat) (dir : Dir) : Bool :=
  dev.epReserved epNum dir = 0 ∨ dev.epReserved epNum dir = owner + 1

/-- `dev->ep_map[number][dir]`, the object. -/
def held (dev : Device) (number : Nat) (dir : Dir) : Option Ep :=
  (dev.epMap number dir).bind fun e => dev.eps[e]?

def epAllocNumber (dev : Device) (owner : UInt8) (want : Nat) (dir : Dir) : Option Nat :=
  if want ≠ 0 ∧ (dev.held want dir).all (fun ep => ep.ifnum = owner) ∧
      dev.epReservationAllows owner want dir then
    some want
  else
    (List.range' 1 15).find? fun epNum =>
      dev.epMap epNum dir = none ∧ dev.epReservationAllows owner epNum dir

/-- The owner of what is appended now. -/
def owner (dev : Device) : UInt8 := (dev.cur.map Prod.fst).getD usbipEpNoIfnum

/-- The interface branch of `usbip_device_add_descriptor`, for a descriptor appended at `dst`. -/
def appendInterface (dev : Device) (dst : Nat) (ifnum alt : UInt8) : Device :=
  let dev := { dev.registerIfnum ifnum with cur := some (ifnum, alt) }
  match dev.ifaltFor ifnum alt with
  | some i => { dev with ifalts := dev.ifalts.modify i fun ia => { ia with off := dst } }
  | none =>
    if dev.ifalts.length < ifaltsCap then { dev with ifalts := dev.ifalts ++ [⟨ifnum, alt, dst⟩] }
    else dev

/-- `dev->descr[ia->off + 4]++` for the record of the current alternate setting. -/
def countEndpoint (dev : Device) : Device :=
  match dev.cur with
  | none => dev
  | some (ifnum, alt) =>
    match dev.recordOf ifnum alt with
    | none => dev
    | some ia => { dev with descr := dev.descr.modify (ia.off + 4) (· + 1) }

/-- The new endpoint of `usbip_device_add_descriptor` enters the tables, and the address in its
descriptor at `dst` is made to match. -/
def enterEndpoint (dev : Device) (dst : Nat) (ep : Ep) : Device :=
  { dev with
    descr := dev.descr.set (dst + 2) ep.addr
    eps := dev.eps ++ [ep]
    epMap := dev.epMap.set ep.number ep.dir (some dev.eps.length)
    epReserved := dev.epReserved.set ep.number ep.dir 0 }

/-- The new endpoint is entered and counted. -/
def attachEndpoint (dev : Device) (dst : Nat) (ep : Ep) : Device :=
  (dev.enterEndpoint dst ep).countEndpoint

/-- The number for the endpoint that a descriptor describes. -/
def allocFor (dev : Device) (desc : List UInt8) : Option Nat :=
  dev.epAllocNumber dev.owner (epNumber (byteAt desc 2)) (epDir (byteAt desc 2))

/-- The endpoint branch of `usbip_device_add_descriptor`, for `blen` bytes appended at `dst`. -/
def appendEndpoint (dev : Device) (dst blen : Nat) (desc : List UInt8) : Device × Int :=
  let undo := { dev with descr := dev.descr.take (dev.descr.length - blen) }
  if epsCap ≤ dev.eps.length then (undo, usbErrorNoMem)
  else
    match dev.allocFor desc with
    | none => (undo, usbErrorNoMem)
    | some number => (dev.attachEndpoint dst (newEp desc dev.owner number), usbSuccess)

def addDescriptor (dev : Device) (desc : List UInt8) : Device × Int :=
  let blen := descLen desc
  if descrCap < dev.descr.length + blen then (dev, usbErrorNoMem)
  else
    let dst := dev.descr.length
    let dev := { dev with descr := dev.descr ++ normalize desc }
    if byteAt desc 1 = usbDtInterface then
      (dev.appendInterface dst (byteAt desc 2) (byteAt desc 3), usbSuccess)
    else if byteAt desc 1 = usbDtEndpoint then dev.appendEndpoint dst blen desc
    else (dev, usbSuccess)

def addEndpoint (dev : Device) (desc : List UInt8) : Device × Option EpId :=
  let (dev, rc) := dev.addDescriptor desc
  if rc ≠ usbSuccess then (dev, none)
  else
    match dev.eps.getLast? with
    | none => (dev, none)
    | some ep => (dev, if ep.dir = epDir (byteAt desc 2) then some (dev.eps.length - 1) else none)

def reserveEndpoint (dev : Device) (wantAddr : UInt8) : Device × UInt8 :=
  match dev.cur with
  | none => (dev, 0)
  | some (owner, _) =>
    let dir := epDir wantAddr
    match dev.epAllocNumber owner (epNumber wantAddr) dir with
    | none => (dev, 0)
    | some epNum =>
      ({ dev with epReserved := dev.epReserved.set epNum dir (owner + 1) }, epAddr epNum dir)

def setInterfaceString (dev : Device) (ifnum alt istr : UInt8) : Device :=
  match dev.recordOf ifnum alt with
  | none => dev
  | some ia => { dev with descr := dev.descr.set (ia.off + 8) istr }

def onControl (dev : Device) (ifnum : Int) (slot : CtrlSlot) : Device :=
  if ifnum < 0 then { dev with ctrlDefault := slot }
  else if ifnum < 16 then { dev with ctrl := tableSet dev.ctrl ifnum.toNat slot }
  else dev

def onSetAlt (dev : Device) (ifnum : Int) (slot : CtrlSlot) : Device :=
  if 0 ≤ ifnum ∧ ifnum < 16 then { dev with setAltTab := tableSet dev.setAltTab ifnum.toNat slot }
  else dev

/-- What `usbip_device_group_begin` writes to `dev->gmark`. -/
def snapshot (dev : Device) : GMark where
  descrLen := dev.descr.length
  nIfalts := dev.ifalts.length
  nEps := dev.eps.length
  nMsos := dev.msos.length
  nIfnums := dev.nIfnums
  cur := dev.cur
  ifPresent := dev.ifPresent
  epReserved := dev.epReserved
  ctrl := dev.ctrl
  ctrlDefault := dev.ctrlDefault
  setAltTab := dev.setAltTab

def groupBegin (dev : Device) : Device × Int :=
  if groupsCap ≤ dev.groups.length then (dev, usbErrorNoMem)
  else
    ({ dev with
        gmark := dev.snapshot
        groups := dev.groups ++ [⟨0, 0, dev.descr.length⟩] },
      dev.groups.length)

/-- The first loop of `usbip_device_group_abort`: the slots of the endpoints that go. -/
def clearSlots (eps : List Ep) (epMap : EpTable (Option EpId)) (gone : List EpId) :
    EpTable (Option EpId) :=
  gone.foldl (fun epMap e =>
    match eps[e]? with
    | none => epMap
    | some ep =>
      if epMap ep.number ep.dir = some e then epMap.set ep.number ep.dir none else epMap) epMap

/-- The second loop: an entry of the group gives its place to the last entry. -/
def dropMsos (gid : Int) : Nat → Nat → List MsosEntry → List MsosEntry
  | 0, _, msos => msos
  | fuel + 1, i, msos =>
    match msos[i]? with
    | none => msos
    | some entry =>
      if entry.group = gid then
        dropMsos gid fuel i ((msos.set i (msos.getLastD entry)).take (msos.length - 1))
      else dropMsos gid fuel (i + 1) msos

def groupAbort (dev : Device) : Device :=
  if dev.groups.length = 0 then dev
  else
    let gid := dev.groups.length - 1
    { dev with
      groups := dev.groups.take gid
      epMap := clearSlots dev.eps dev.epMap
        (List.range' dev.gmark.nEps (dev.eps.length - dev.gmark.nEps))
      eps := dev.eps.take dev.gmark.nEps
      msos := dropMsos gid dev.msos.length 0 dev.msos
      descr := dev.descr.take dev.gmark.descrLen
      ifalts := dev.ifalts.take dev.gmark.nIfalts
      nIfnums := dev.gmark.nIfnums
      cur := dev.gmark.cur
      ifPresent := dev.gmark.ifPresent
      epReserved := dev.gmark.epReserved
      ctrl := dev.gmark.ctrl
      ctrlDefault := dev.gmark.ctrlDefault
      setAltTab := dev.gmark.setAltTab }

def u16le (w : UInt16) : List UInt8 := [w.toUInt8, (w >>> 8).toUInt8]

def buildDeviceDesc (dev : Device) : List UInt8 :=
  [18, 1] ++ u16le dev.bcdUSB ++ [dev.header.devClass, dev.header.devSub, dev.header.devProto, 64] ++
    u16le dev.header.vid ++ u16le dev.header.pid ++ u16le dev.header.bcdDevice ++
    [dev.header.iMfr, dev.header.iProd, dev.header.iSer, 1]

def buildConfigDesc (dev : Device) (cap : Nat) : List UInt8 :=
  let total := min (9 + dev.descr.length) cap
  [9, 2] ++ u16le total.toUInt16 ++ [dev.nIfnums.toUInt8, 1, 0, 0x80, 50] ++
    dev.descr.take (total - 9)

/-- The reply to GET_DESCRIPTOR(CONFIGURATION), which is built in a buffer of 4096 bytes. -/
def configReply (dev : Device) : List UInt8 := dev.buildConfigDesc 4096

def checkEndpointConflicts (dev : Device) : Int :=
  if dev.eps.any fun ep => (dev.held ep.number ep.dir).any fun other => other.ifnum ≠ ep.ifnum then
    usbErrorInvalidParam
  else usbSuccess

end Device

/-- The calls that append to a configuration or reserve an endpoint number for it. -/
inductive AddAct
  | addDescriptor (desc : List UInt8)
  | addEndpoint (desc : List UInt8)
  | reserveEndpoint (wantAddr : UInt8)
  deriving DecidableEq, Repr

/-- A vendor-specific interface descriptor and a bulk endpoint descriptor, which the fixed runs
below append. -/
def interfaceDesc (ifnum alt : UInt8) : List UInt8 := [9, 4, ifnum, alt, 0, 0xff, 0, 0, 0]

def endpointDesc (addr : UInt8) : List UInt8 := [7, 5, addr, 2, 64, 0, 0]

/-- The descriptor that a call appends. -/
def AddAct.desc : AddAct → Option (List UInt8)
  | addDescriptor desc | addEndpoint desc => some desc
  | reserveEndpoint _ => none

/-- The calls that build a device. `configure` stands for the setters of the device descriptor's
fields. -/
inductive BuildAct
  | add (act : AddAct)
  | onControl (ifnum : Int) (slot : CtrlSlot)
  | onSetAlt (ifnum : Int) (slot : CtrlSlot)
  | enableMsos (group : Int) (compatible guid : Option String)
  | enableWebusb
  | setInterfaceString (ifnum alt istr : UInt8)
  | configure (header : DeviceHeader)
  | groupBegin
  | groupAbort
  deriving DecidableEq, Repr

inductive BuildRet
  | void
  | code (rc : Int)
  | handle (e : Option EpId)
  | addr (a : UInt8)
  deriving DecidableEq, Repr

/-- The call did not fail. -/
def BuildRet.ok : BuildRet → Bool
  | .void => true
  | .code rc => 0 ≤ rc
  | .handle e => e.isSome
  | .addr a => a ≠ 0

def Device.applyAdd (dev : Device) : AddAct → Device × BuildRet
  | .addDescriptor desc => let (dev, rc) := dev.addDescriptor desc; (dev, .code rc)
  | .addEndpoint desc => let (dev, e) := dev.addEndpoint desc; (dev, .handle e)
  | .reserveEndpoint wantAddr => let (dev, a) := dev.reserveEndpoint wantAddr; (dev, .addr a)

def Device.apply (dev : Device) : BuildAct → Device × BuildRet
  | .add act => dev.applyAdd act
  | .onControl ifnum slot => (dev.onControl ifnum slot, .void)
  | .onSetAlt ifnum slot => (dev.onSetAlt ifnum slot, .void)
  | .enableMsos group compatible guid =>
    let (dev, rc) := dev.msosAdd group compatible guid; (dev, .code rc)
  | .enableWebusb => (dev.enableWebusb, .void)
  | .setInterfaceString ifnum alt istr => (dev.setInterfaceString ifnum alt istr, .void)
  | .configure header => ({ dev with header }, .void)
  | .groupBegin => let (dev, rc) := dev.groupBegin; (dev, .code rc)
  | .groupAbort => (dev.groupAbort, .void)

def Device.run (dev : Device) : List BuildAct → Device × List BuildRet
  | [] => (dev, [])
  | act :: acts =>
    let (dev, ret) := dev.apply act
    let (dev, rets) := dev.run acts
    (dev, ret :: rets)

end Usbip
