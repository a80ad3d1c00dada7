import Usbip.Build.Alloc
import Usbip.Build.Group

/-! The class layer over the device core: functions, their interfaces and endpoints, and the
trampolines that it registers with the core.  A function stands in a table in the order of creation,
and its place there stands for the pointer to it. -/

namespace Usbip

open Lib

namespace Layer

/-- `uc_ctrl_tramp` and `uc_set_alt_tramp`, as callbacks of the core. -/
def ucCtrlTramp : Nat := 0
def ucSetAltTramp : Nat := 1

/-- The sizes of `func->eps`, `func->ifaces` and `reg->funcs`. -/
def funcEpsCap : Nat := 16
def ifacesCap : Nat := 8
def regCap : Nat := 8

/-- The callbacks that a `usbip_device_class` has. -/
structure DeviceClass where
  control : Bool
  setAlt : Bool
  onOut : Bool
  onIso : Bool
  deriving DecidableEq, Repr

/-- `struct usbip_interface`. -/
structure Iface where
  ifnum : UInt8
  icls : UInt8
  isub : UInt8
  iproto : UInt8
  curAlt : UInt8
  deriving DecidableEq, Repr

/-- `struct usbip_function`; `curIface` is a place in `ifaces`. -/
structure Func where
  group : Nat
  baseIfnum : Nat
  cls : Option DeviceClass
  controlCb : Bool
  eps : List EpId
  ifaces : List Iface
  curIface : Option Nat
  deriving DecidableEq, Repr

/-- The vtable of the function has the callback. -/
def Func.declares (func : Func) (callback : DeviceClass → Bool) : Bool :=
  func.cls.any callback

end Layer

/-- A device and its functions. -/
structure Layer where
  dev : Device
  funcs : List Layer.Func
  /-- the number of functions in the device's registry, `none` when no registry is left for it -/
  reg : Option Nat
  /-- the functions whose `uc_out_tramp` and `uc_iso_tramp` are the callbacks of an endpoint -/
  onOut : EpId → Option Nat
  onIso : EpId → Option Nat

namespace Layer

/-- A new device. A registry is found by the address of its device and never given up, so the one
found may still hold `n` functions of an earlier device. -/
def new (header : DeviceHeader) (reg : Option Nat) : Layer :=
  ⟨.create header, [], reg, fun _ => none, fun _ => none⟩

/-- `usbip_device_add_function`, and with a vtable the start of `usbip_device_add_class`. -/
def addFunction (l : Layer) (cls : Option DeviceClass) : Layer × Option Nat :=
  match l.reg with
  | none => (l, none)
  | some n =>
    if regCap ≤ n then (l, none)
    else
      let (dev, group) := l.dev.groupBegin
      if group < 0 then ({ l with dev }, none)
      else
        let f := l.funcs.length
        ({ l with
            dev := if n = 0 then dev.onControl (-1) ⟨some ucCtrlTramp, f⟩ else dev
            funcs := l.funcs ++ [⟨group.toNat, dev.nIfnums, cls, false, [], [], none⟩]
            reg := some (n + 1) }, some f)

/-- `usbip_function_on_control`. -/
def functionOnControl (l : Layer) (f : Nat) : Layer :=
  { l with funcs := l.funcs.modify f fun func => { func with controlCb := true } }

/-- `uc_iface_for`: the place of the interface in the function's table. -/
def ucIfaceFor (dev : Device) (f : Nat) (func : Func) (ifnum : UInt8) :
    Device × Func × Option Nat :=
  match func.ifaces.findIdx? fun iface => iface.ifnum = ifnum with
  | some i => (dev, func, some i)
  | none =>
    if ifacesCap ≤ func.ifaces.length then (dev, func, none)
    else
      let dev := dev.onControl ifnum.toNat ⟨some ucCtrlTramp, f⟩
      let dev :=
        if func.declares DeviceClass.setAlt then
          dev.onSetAlt ifnum.toNat ⟨some ucSetAltTramp, f⟩
        else dev
      (dev, { func with ifaces := func.ifaces ++ [⟨ifnum, 0, 0, 0, 0⟩] }, some func.ifaces.length)

/-- `func->cur_iface = iface` and `iface->cur_alt = alt`, unless `iface` is `NULL`. -/
def Func.setCurrent (func : Func) (iface : Option Nat) (alt : UInt8) : Func :=
  match iface with
  | none => func
  | some i =>
    { func with
      ifaces := func.ifaces.modify i fun iface => { iface with curAlt := alt }
      curIface := some i }

def functionAddDescriptor (l : Layer) (f : Nat) (desc : List UInt8) : Layer × Int :=
  match l.funcs[f]? with
  | none => (l, usbErrorInvalidParam)
  | some func =>
    if byteAt desc 1 = usbDtEndpoint then
      if funcEpsCap ≤ func.eps.length then (l, usbErrorNoMem)
      else
        match l.dev.addEndpoint desc with
        | (dev, none) => ({ l with dev }, usbErrorNoMem)
        | (dev, some e) =>
          let ctx (callback : DeviceClass → Bool) : Option Nat :=
            if func.declares callback then some f else none
          ({ l with
              dev
              funcs := l.funcs.set f { func with eps := func.eps ++ [e] }
              onOut := tableSet l.onOut e (ctx DeviceClass.onOut)
              onIso := tableSet l.onIso e (ctx DeviceClass.onIso) }, usbSuccess)
    else
      let (dev, rc) := l.dev.addDescriptor desc
      if rc ≠ usbSuccess then ({ l with dev }, rc)
      else if byteAt desc 1 = usbDtInterface then
        let (dev, func, iface) := ucIfaceFor dev f func (byteAt desc 2)
        ({ l with dev, funcs := l.funcs.set f (func.setCurrent iface (byteAt desc 3)) }, usbSuccess)
      else ({ l with dev }, usbSuccess)

/-- `usbip_endpoint_address`. -/
def endpointAddress (l : Layer) (e : EpId) : UInt8 := ((l.dev.eps[e]?).map Ep.addr).getD 0

def functionAddEndpoint (l : Layer) (f : Nat) (desc : List UInt8) : Layer × Option EpId :=
  let (l, rc) := l.functionAddDescriptor f desc
  if rc ≠ usbSuccess then (l, none)
  else
    match (l.funcs[f]?).bind fun func => func.eps.getLast? with
    | none => (l, none)
    | some e =>
      (l, if epDir (l.endpointAddress e) = epDir (byteAt desc 2) then some e else none)

def functionEndpoint (l : Layer) (f : Nat) (addr : UInt8) : Option EpId :=
  (l.funcs[f]?).bind fun func => func.eps.find? fun e =>
    epNumber (l.endpointAddress e) = epNumber addr ∧ epDir (l.endpointAddress e) = epDir addr

def functionReserveEndpoint (l : Layer) (f : Nat) (wantAddr : UInt8) : Layer × UInt8 :=
  match (l.funcs[f]?).bind Func.curIface with
  | none => (l, 0)
  | some _ => let (dev, addr) := l.dev.reserveEndpoint wantAddr; ({ l with dev }, addr)

def functionEnableMsos (l : Layer) (f : Nat) (compatible guid : Option String) : Layer × Int :=
  match l.funcs[f]? with
  | none => (l, usbErrorInvalidParam)
  | some func => let (dev, rc) := l.dev.msosAdd func.group compatible guid; ({ l with dev }, rc)

/-- The bytes of a `usb_interface_descriptor` whose `bLength` is left 0. -/
def interfaceBytes (ifnum alt cls sub proto : UInt8) : List UInt8 :=
  [0, usbDtInterface, ifnum, alt, 0, cls, sub, proto, 0]

/-- What `usbip_function_add_interface` hands to `usbip_function_add_descriptor`. -/
def nextInterface (l : Layer) (cls sub proto : UInt8) : List UInt8 :=
  interfaceBytes l.dev.nIfnums.toUInt8 0 cls sub proto

/-- `usbip_function_add_interface`, `none` when it writes through a `cur_iface` that is `NULL`. The
descriptor may have been refused. -/
def functionAddInterface (l : Layer) (f : Nat) (cls sub proto : UInt8) : Option (Layer × Nat) :=
  let (l, _) := l.functionAddDescriptor f (l.nextInterface cls sub proto)
  (l.funcs[f]?).bind fun func => func.curIface.map fun i =>
    ({ l with
        funcs := l.funcs.set f { func with
          ifaces := func.ifaces.modify i fun iface =>
            { iface with icls := cls, isub := sub, iproto := proto } } }, i)

/-- The interface that a pointer stands for. -/
def iface (l : Layer) (f i : Nat) : Option Iface := (l.funcs[f]?).bind fun func => func.ifaces[i]?

/-- What `usbip_interface_add_altsetting` hands to `usbip_function_add_descriptor`. -/
def Iface.setting (iface : Iface) (alt : UInt8) : List UInt8 :=
  interfaceBytes iface.ifnum alt iface.icls iface.isub iface.iproto

def interfaceAddAltsetting (l : Layer) (f i : Nat) (alt : UInt8) : Layer × Int :=
  match l.iface f i with
  | none => (l, usbErrorInvalidParam)
  | some iface => l.functionAddDescriptor f (iface.setting alt)

def interfaceSetString (l : Layer) (f i : Nat) (istr : UInt8) : Layer :=
  match l.iface f i with
  | none => l
  | some iface => { l with dev := l.dev.setInterfaceString iface.ifnum iface.curAlt istr }

/-- `USB_DT_INTERFACE_ASSOCIATION`. -/
def usbDtInterfaceAssociation : UInt8 := 11

/-- The descriptor that `usbip_function_associate` makes. -/
def associationBytes (first count cls sub proto iFunction : UInt8) : List UInt8 :=
  [8, usbDtInterfaceAssociation, first, count, cls, sub, proto, iFunction]

def functionAssociate (l : Layer) (f : Nat) (count cls sub proto iFunction : UInt8) : Layer :=
  (l.functionAddDescriptor f
    (associationBytes l.dev.nIfnums.toUInt8 count cls sub proto iFunction)).1

/-! ### What adding a descriptor can do -/

/-- What `usbip_function_add_descriptor` checks before it adds. -/
def Takes (l : Layer) (f : Nat) (desc : List UInt8) : Prop :=
  l.dev.Accepts desc ∧ ∃ func, l.funcs[f]? = some func ∧
    (byteAt desc 1 = usbDtEndpoint → func.eps.length < funcEpsCap)

/-- The layer with a new endpoint of a function. -/
def attach (l : Layer) (f : Nat) (func : Func) (desc : List UInt8) (number : Nat) : Layer :=
  { l with
    dev := (l.dev.append desc).attachEndpoint l.dev.descr.length (newEp desc l.dev.owner number)
    funcs := l.funcs.set f { func with eps := func.eps ++ [l.dev.eps.length] }
    onOut := tableSet l.onOut l.dev.eps.length
      (if func.declares DeviceClass.onOut then some f else none)
    onIso := tableSet l.onIso l.dev.eps.length
      (if func.declares DeviceClass.onIso then some f else none) }

/-- The core with a new interface descriptor. -/
def opened (l : Layer) (desc : List UInt8) : Device :=
  (l.dev.append desc).appendInterface l.dev.descr.length (byteAt desc 2) (byteAt desc 3)

/-- The layer with a new interface descriptor of a function. -/
def enter (l : Layer) (f : Nat) (func : Func) (desc : List UInt8) : Layer :=
  let (dev, func, iface) := ucIfaceFor (l.opened desc) f func (byteAt desc 2)
  { l with dev, funcs := l.funcs.set f (func.setCurrent iface (byteAt desc 3)) }

/-- The outcomes of `usbip_function_add_descriptor`. -/
inductive AddStep (l : Layer) (f : Nat) (desc : List UInt8) : Layer × Int → Prop
  | refused {rc : Int} (not_taken : ¬l.Takes f desc) (failed : rc ≠ usbSuccess) :
    AddStep l f desc (l, rc)
  | endpoint {func : Func} {number : Nat} (taken : l.Takes f desc) (get : l.funcs[f]? = some func)
    (kind : byteAt desc 1 = usbDtEndpoint) (alloc : l.dev.allocFor desc = some number) :
    AddStep l f desc (l.attach f func desc number, usbSuccess)
  | interface {func : Func} (taken : l.Takes f desc) (get : l.funcs[f]? = some func)
    (kind : byteAt desc 1 = usbDtInterface) : AddStep l f desc (l.enter f func desc, usbSuccess)
  | other (taken : l.Takes f desc) (not_interface : byteAt desc 1 ≠ usbDtInterface)
    (not_endpoint : byteAt desc 1 ≠ usbDtEndpoint) :
    AddStep l f desc ({ l with dev := l.dev.append desc }, usbSuccess)

theorem addDescriptor_step (l : Layer) (f : Nat) (desc : List UInt8) :
    AddStep l f desc (l.functionAddDescriptor f desc) := by
  unfold functionAddDescriptor
  cases hget : l.funcs[f]? with
  | none =>
    exact .refused (fun ⟨_, _, h, _⟩ => by rw [hget] at h; cases h) (by decide)
  | some func =>
    have htakes (hacc : l.dev.Accepts desc)
        (hroom : byteAt desc 1 = usbDtEndpoint → func.eps.length < funcEpsCap) : l.Takes f desc :=
      ⟨hacc, func, hget, hroom⟩
    have hroom : l.Takes f desc → byteAt desc 1 = usbDtEndpoint → func.eps.length < funcEpsCap := by
      rintro ⟨-, func', hget', hroom⟩
      cases hget.symm.trans hget'
      exact hroom
    simp only
    split
    · rename_i kind
      split
      · rename_i hfull
        exact .refused (fun h => absurd (hroom h kind) (Nat.not_lt.mpr hfull)) (by decide)
      · rename_i hfull
        have hhandle := l.dev.addEndpoint_handle kind
        have hfst := l.dev.addEndpoint_fst desc
        by_cases hacc : l.dev.Accepts desc
        · obtain ⟨number, halloc⟩ := Option.isSome_iff_exists.mp (hacc.2 kind).2
          rw [if_pos hacc] at hhandle
          rw [Device.addDescriptor_endpoint hacc kind halloc] at hfst
          rw [show l.dev.addEndpoint desc = (_, _) from Prod.ext hfst hhandle]
          exact .endpoint (htakes hacc fun _ => Nat.lt_of_not_le hfull) hget kind halloc
        · rw [if_neg hacc] at hhandle
          rw [Device.addDescriptor_refused hacc] at hfst
          rw [show l.dev.addEndpoint desc = (_, _) from Prod.ext hfst hhandle]
          exact .refused (fun h => hacc h.1) (by decide)
    · rename_i not_endpoint
      by_cases hacc : l.dev.Accepts desc
      · have htaken := htakes hacc fun kind => absurd kind not_endpoint
        split
        · rename_i hfail
          exact absurd ((Device.addDescriptor_success_iff l.dev desc).mpr hacc) hfail
        · split
          · rename_i kind
            rw [Device.addDescriptor_interface hacc kind]
            exact .interface htaken hget kind
          · rename_i not_interface
            rw [Device.addDescriptor_other hacc not_interface not_endpoint]
            exact .other htaken not_interface not_endpoint
      · rw [Device.addDescriptor_refused hacc]
        exact .refused (fun h => hacc h.1) (by decide : usbErrorNoMem ≠ usbSuccess)

end Layer

end Usbip
