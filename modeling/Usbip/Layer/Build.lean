import Usbip.Build.Addresses
import Usbip.Control.Scratch
import Usbip.Layer.Function

/-! The building of a device through the class layer, call after call, with a record of which
function declared an interface and which one made an endpoint; and what of the layer the routing of
requests and transfers reads. -/

namespace Usbip

open Lib Layer

/-- The calls of the class layer that build a device. -/
inductive LayerAct
  | addFunction (cls : Option DeviceClass)
  | onControl (f : Nat)
  | addInterface (f : Nat) (cls sub proto : UInt8)
  | addAltsetting (f i : Nat) (alt : UInt8)
  | addDescriptor (f : Nat) (desc : List UInt8)
  | addEndpoint (f : Nat) (desc : List UInt8)
  | associate (f : Nat) (count cls sub proto iFunction : UInt8)
  | reserveEndpoint (f : Nat) (wantAddr : UInt8)
  | setString (f i : Nat) (istr : UInt8)
  | enableMsos (f : Nat) (compatible guid : Option String)
  deriving DecidableEq, Repr

/-- The layer after a call, `none` when the call writes through `NULL`. -/
def Layer.apply (l : Layer) : LayerAct → Option Layer
  | .addFunction cls => some (l.addFunction cls).1
  | .onControl f => some (l.functionOnControl f)
  | .addInterface f cls sub proto => (l.functionAddInterface f cls sub proto).map Prod.fst
  | .addAltsetting f i alt => some (l.interfaceAddAltsetting f i alt).1
  | .addDescriptor f desc => some (l.functionAddDescriptor f desc).1
  | .addEndpoint f desc => some (l.functionAddEndpoint f desc).1
  | .associate f count cls sub proto iFunction =>
    some (l.functionAssociate f count cls sub proto iFunction)
  | .reserveEndpoint f wantAddr => some (l.functionReserveEndpoint f wantAddr).1
  | .setString f i istr => some (l.interfaceSetString f i istr)
  | .enableMsos f compatible guid => some (l.functionEnableMsos f compatible guid).1

/-- The function and the descriptor that a call hands to `usbip_function_add_descriptor`. -/
def LayerAct.adds (l : Layer) : LayerAct → Option (Nat × List UInt8)
  | .addInterface f cls sub proto => some (f, l.nextInterface cls sub proto)
  | .addAltsetting f i alt => (l.iface f i).map fun iface => (f, iface.setting alt)
  | .addDescriptor f desc | .addEndpoint f desc => some (f, desc)
  | .associate f count cls sub proto iFunction =>
    some (f, associationBytes l.dev.nIfnums.toUInt8 count cls sub proto iFunction)
  | _ => none

/-- A device under construction: the interfaces declared, each with the function that did it, and
for each endpoint of the core the function that made it. -/
structure LayerTrace where
  layer : Layer
  declared : List (UInt8 × Nat)
  makers : List Nat

namespace LayerTrace

def new (header : DeviceHeader) (reg : Option Nat) : LayerTrace := ⟨.new header reg, [], []⟩

/-- A descriptor is added for a function, and goes on record if it is taken. -/
def add (t : LayerTrace) (f : Nat) (desc : List UInt8) : LayerTrace :=
  let (layer, rc) := t.layer.functionAddDescriptor f desc
  if rc = usbSuccess then
    { layer
      declared :=
        if byteAt desc 1 = usbDtInterface then t.declared ++ [(byteAt desc 2, f)] else t.declared
      makers := if byteAt desc 1 = usbDtEndpoint then t.makers ++ [f] else t.makers }
  else { t with layer }

def step (t : LayerTrace) (act : LayerAct) : Option LayerTrace :=
  (t.layer.apply act).map fun layer =>
    match act.adds t.layer with
    | none => { t with layer }
    | some (f, desc) => { t.add f desc with layer }

end LayerTrace

/-! ### What routing reads -/

namespace Layer

/-- What routing reads of a function. -/
structure Outline where
  cls : Option DeviceClass
  eps : List EpId
  ifnums : List UInt8
  deriving DecidableEq, Repr

/-- The vtable of the function has the callback. -/
def Outline.declares (o : Outline) (callback : DeviceClass → Bool) : Bool := o.cls.any callback

def Func.outline (func : Func) : Outline := ⟨func.cls, func.eps, func.ifaces.map Iface.ifnum⟩

theorem Func.outline_declares (func : Func) (callback : DeviceClass → Bool) :
    func.outline.declares callback = func.declares callback := rfl

/-- What routing reads of a device and its functions. -/
structure Routes where
  outlines : List Outline
  reg : Option Nat
  onOut : EpId → Option Nat
  onIso : EpId → Option Nat
  ctrl : Nat → CtrlSlot
  ctrlDefault : CtrlSlot
  setAltTab : Nat → CtrlSlot
  eps : List Ep
  epMap : EpTable (Option EpId)
  nIfnums : Nat

/-- The class of function `f` has the callback. -/
def Routes.declares (r : Routes) (f : Nat) (callback : DeviceClass → Bool) : Bool :=
  (r.outlines[f]?).any fun o => o.declares callback

def routes (l : Layer) : Routes where
  outlines := l.funcs.map Func.outline
  reg := l.reg
  onOut := l.onOut
  onIso := l.onIso
  ctrl := l.dev.ctrl
  ctrlDefault := l.dev.ctrlDefault
  setAltTab := l.dev.setAltTab
  eps := l.dev.eps
  epMap := l.dev.epMap
  nIfnums := l.dev.nIfnums

/-- The slots that the core goes through for a function. -/
def ctrlSlot (f : Nat) : CtrlSlot := ⟨some ucCtrlTramp, f⟩
def setAltSlot (f : Nat) : CtrlSlot := ⟨some ucSetAltTramp, f⟩

variable {l l' : Layer} {f : Nat} {func : Func} {desc : List UInt8}

theorem routes_outlines (get : l.funcs[f]? = some func) :
    l.routes.outlines[f]? = some func.outline := by
  show (l.funcs.map Func.outline)[f]? = _
  rw [List.getElem?_map, get]
  rfl

/-- A function that changes in what its outline does not show. -/
theorem map_outline_set {funcs : List Func} {func' : Func} (get : funcs[f]? = some func)
    (h : func'.outline = func.outline) : (funcs.set f func').map Func.outline = funcs.map Func.outline := by
  apply List.ext_getElem?
  intro j
  rw [List.getElem?_map, List.getElem?_map, List.getElem?_set]
  split
  · subst j
    obtain ⟨hlt, -⟩ := List.getElem?_eq_some_iff.mp get
    rw [if_pos hlt, get, Option.map_some, Option.map_some, h]
  · rfl

theorem routes_functionOnControl (l : Layer) (f : Nat) :
    (l.functionOnControl f).routes = l.routes := by
  have hsame : ∀ func : Func, Func.outline { func with controlCb := true } = func.outline :=
    fun _ => rfl
  simp only [routes, functionOnControl, map_modify_eq hsame]

theorem routes_functionReserveEndpoint (l : Layer) (f : Nat) (wantAddr : UInt8) :
    (l.functionReserveEndpoint f wantAddr).1.routes = l.routes := by
  unfold functionReserveEndpoint
  split
  · rfl
  · obtain ⟨epReserved, heq⟩ := l.dev.reserveEndpoint_eq wantAddr
    simp only [routes, heq]

theorem routes_interfaceSetString (l : Layer) (f i : Nat) (istr : UInt8) :
    (l.interfaceSetString f i istr).routes = l.routes := by
  unfold interfaceSetString Device.setInterfaceString
  split
  · rfl
  · simp only [routes]
    split <;> rfl

theorem routes_functionEnableMsos (l : Layer) (f : Nat) (compatible guid : Option String) :
    (l.functionEnableMsos f compatible guid).1.routes = l.routes := by
  unfold functionEnableMsos
  split
  · rfl
  · rename_i func _
    have hstep := l.dev.msosAdd_step func.group compatible guid
    simp only
    generalize l.dev.msosAdd func.group compatible guid = r at hstep
    cases hstep <;> rfl

/-- The class triple that `usbip_function_add_interface` leaves in the interface plays no part. -/
theorem functionAddInterface_eq_some {cls sub proto : UInt8} {i : Nat}
    (h : l.functionAddInterface f cls sub proto = some (l', i)) :
    l'.routes = (l.functionAddDescriptor f (l.nextInterface cls sub proto)).1.routes ∧
      l'.dev = (l.functionAddDescriptor f (l.nextInterface cls sub proto)).1.dev := by
  unfold functionAddInterface at h
  simp only [Option.bind_eq_some_iff, Option.map_eq_some_iff] at h
  obtain ⟨func, get, i', -, heq⟩ := h
  cases heq
  refine ⟨?_, rfl⟩
  have htriple : ∀ iface : Iface,
      Iface.ifnum { iface with icls := cls, isub := sub, iproto := proto } = iface.ifnum :=
    fun _ => rfl
  have hsame : Func.outline { func with
      ifaces := func.ifaces.modify i fun iface =>
        { iface with icls := cls, isub := sub, iproto := proto } } = func.outline :=
    congrArg (Outline.mk func.cls func.eps) (map_modify_eq htriple func.ifaces i)
  simp only [routes, map_outline_set get hsame]

/-! ### What the calls do to what routing reads -/

namespace Routes

/-- One more function, with no interface yet. The first one answers for the device. -/
def addFunction (r : Routes) (cls : Option DeviceClass) (n : Nat) : Routes :=
  { r with
    outlines := r.outlines ++ [⟨cls, [], []⟩]
    reg := some (n + 1)
    ctrlDefault := if n = 0 then ctrlSlot r.outlines.length else r.ctrlDefault }

/-- A new endpoint of function `f`, whose outline is `o`. -/
def attach (r : Routes) (f : Nat) (o : Outline) (ep : Ep) : Routes :=
  let ctx (callback : DeviceClass → Bool) : Option Nat := if o.declares callback then some f else none
  { r with
    outlines := r.outlines.set f { o with eps := o.eps ++ [r.eps.length] }
    onOut := tableSet r.onOut r.eps.length (ctx DeviceClass.onOut)
    onIso := tableSet r.onIso r.eps.length (ctx DeviceClass.onIso)
    eps := r.eps ++ [ep]
    epMap := r.epMap.set ep.number ep.dir (some r.eps.length) }

/-- An interface descriptor with a number that the function has already. -/
def again (r : Routes) (i : UInt8) : Routes := { r with nIfnums := max r.nIfnums (i.toNat + 1) }

/-- A new interface of function `f`. -/
def declare (r : Routes) (f : Nat) (o : Outline) (i : UInt8) : Routes :=
  { r.again i with
    outlines := r.outlines.set f { o with ifnums := o.ifnums ++ [i] }
    ctrl := tableSet r.ctrl i.toNat (ctrlSlot f)
    setAltTab :=
      if o.declares DeviceClass.setAlt then tableSet r.setAltTab i.toNat (setAltSlot f)
      else r.setAltTab }

end Routes

section calls

variable {l : Layer} {f : Nat} {func : Func} {desc : List UInt8}

theorem routes_addFunction (l : Layer) (cls : Option DeviceClass) :
    (l.addFunction cls).1.routes = l.routes ∨
      ∃ n, l.reg = some n ∧ (l.addFunction cls).1.routes = l.routes.addFunction cls n := by
  unfold addFunction
  split
  · exact .inl rfl
  · rename_i n hreg
    split
    · exact .inl rfl
    · by_cases hfull : groupsCap ≤ l.dev.groups.length
      · rw [Device.groupBegin, if_pos hfull]
        exact .inl rfl
      · refine .inr ⟨n, hreg, ?_⟩
        have hpos : ¬((l.dev.groups.length : Int) < 0) := by omega
        simp only [Device.groupBegin, hfull, if_false, hpos]
        by_cases hn : n = 0
        · subst hn
          simp [routes, Routes.addFunction, Device.onControl, Func.outline, ctrlSlot]
        · simp [routes, Routes.addFunction, Func.outline, hn]

theorem routes_attach (l : Layer) (f : Nat) (func : Func) (desc : List UInt8) (number : Nat) :
    (l.attach f func desc number).routes =
      l.routes.attach f func.outline (newEp desc l.dev.owner number) := by
  obtain ⟨descr, -, hcount⟩ := ((l.dev.append desc).enterEndpoint l.dev.descr.length
    (newEp desc l.dev.owner number)).countEndpoint_eq
  simp only [attach, Device.attachEndpoint, hcount, routes, List.map_set]
  rfl

/-- A new interface descriptor changes the count of interfaces, of what routing reads in the core. -/
theorem opened_core (l : Layer) (desc : List UInt8) :
    (l.opened desc).ctrl = l.dev.ctrl ∧ (l.opened desc).ctrlDefault = l.dev.ctrlDefault ∧
      (l.opened desc).setAltTab = l.dev.setAltTab ∧ (l.opened desc).eps = l.dev.eps ∧
      (l.opened desc).epMap = l.dev.epMap ∧ (l.opened desc).epReserved = l.dev.epReserved ∧
      (l.opened desc).nIfnums = max l.dev.nIfnums ((byteAt desc 2).toNat + 1) := by
  unfold opened Device.appendInterface Device.registerIfnum Device.append
  simp only
  refine ⟨?_, ?_, ?_, ?_, ?_, ?_, ?_⟩ <;> split <;> split <;> (try split) <;> rfl

theorem outline_setCurrent (func : Func) (i : Nat) (alt : UInt8) :
    (func.setCurrent (some i) alt).outline = func.outline := by
  have hcursor : ∀ iface : Iface, Iface.ifnum { iface with curAlt := alt } = iface.ifnum :=
    fun _ => rfl
  exact congrArg (Outline.mk func.cls func.eps) (map_modify_eq hcursor func.ifaces i)

theorem routes_enter_again (get : l.funcs[f]? = some func)
    (hold : byteAt desc 2 ∈ func.outline.ifnums) :
    (l.enter f func desc).routes = l.routes.again (byteAt desc 2) := by
  obtain ⟨iface, hmem, hnum⟩ := List.mem_map.mp hold
  have hsome : (func.ifaces.findIdx? fun iface => iface.ifnum = byteAt desc 2).isSome = true := by
    rw [List.findIdx?_isSome]
    exact List.any_eq_true.mpr ⟨iface, hmem, decide_eq_true hnum⟩
  obtain ⟨i, hi⟩ := Option.isSome_iff_exists.mp hsome
  obtain ⟨hctrl, hdefault, halt, heps, hmap, -, hnums⟩ := l.opened_core desc
  simp only [enter, ucIfaceFor, hi, routes, map_outline_set get (outline_setCurrent func i _),
    Routes.again, hctrl, hdefault, halt, heps, hmap, hnums]

theorem routes_enter_declare (hnew : byteAt desc 2 ∉ func.outline.ifnums) (hroom : func.outline.ifnums.length < ifacesCap)
    (hlt : (byteAt desc 2).toNat < 16) :
    (l.enter f func desc).routes = l.routes.declare f func.outline (byteAt desc 2) := by
  have hnone : (func.ifaces.findIdx? fun iface => iface.ifnum = byteAt desc 2) = none :=
    List.findIdx?_eq_none_iff.mpr fun iface hmem =>
      decide_eq_false fun hnum => hnew (List.mem_map.mpr ⟨iface, hmem, hnum⟩)
  have hlen : ¬ifacesCap ≤ func.ifaces.length := by
    rw [Func.outline, List.length_map] at hroom
    omega
  have hpos : ¬((byteAt desc 2).toNat : Int) < 0 := by omega
  have hin : ((byteAt desc 2).toNat : Int) < 16 := by omega
  have hslot : (0 : Int) ≤ (byteAt desc 2).toNat ∧ ((byteAt desc 2).toNat : Int) < 16 := by omega
  have houtline : Func.outline { func with
      ifaces := func.ifaces ++ [⟨byteAt desc 2, 0, 0, 0, 0⟩] } =
        { func.outline with ifnums := func.outline.ifnums ++ [byteAt desc 2] } := by
    simp [Func.outline]
  obtain ⟨hctrl, hdefault, halt, heps, hmap, -, hnums⟩ := l.opened_core desc
  simp only [enter, ucIfaceFor, hnone, hlen, if_false, Device.onControl, hpos, hin, if_true,
    Device.onSetAlt, hslot]
  by_cases hset : func.declares DeviceClass.setAlt = true
  · simp [routes, Routes.declare, Routes.again, hset, List.map_set, outline_setCurrent, houtline,
      Func.outline_declares, ctrlSlot, setAltSlot, hctrl, hdefault, halt, heps, hmap, hnums]
  · simp [routes, Routes.declare, Routes.again, hset, List.map_set, outline_setCurrent, houtline,
      Func.outline_declares, ctrlSlot, hctrl, hdefault, halt, heps, hmap, hnums]

theorem tables_enter (h : l.dev.Tables) (f : Nat) (func : Func) (desc : List UInt8) :
    (l.enter f func desc).dev.Tables := by
  obtain ⟨-, -, -, heps, hmap, hreserved, -⟩ := l.opened_core desc
  have hopened : (l.opened desc).Tables := h.congr heps hmap hreserved
  have hcontrol : ∀ {dev : Device} (i : Int) (slot : CtrlSlot), dev.Tables →
      (dev.onControl i slot).Tables := fun {dev} i slot ht => by
    unfold Device.onControl
    split
    · exact ht.congr rfl rfl rfl
    · split
      · exact ht.congr rfl rfl rfl
      · exact ht
  have hsetAlt : ∀ {dev : Device} (i : Int) (slot : CtrlSlot), dev.Tables →
      (dev.onSetAlt i slot).Tables := fun {dev} i slot ht => by
    unfold Device.onSetAlt
    split
    · exact ht.congr rfl rfl rfl
    · exact ht
  show (ucIfaceFor (l.opened desc) f func (byteAt desc 2)).1.Tables
  unfold ucIfaceFor
  split
  · exact hopened
  · split
    · exact hopened
    · dsimp only
      split
      · exact hsetAlt _ _ (hcontrol _ _ hopened)
      · exact hcontrol _ _ hopened

theorem tables_addFunction (h : l.dev.Tables) (cls : Option DeviceClass) :
    (l.addFunction cls).1.dev.Tables := by
  have hbegin : l.dev.groupBegin.1.Tables := by
    unfold Device.groupBegin
    split
    · exact h
    · exact h.congr rfl rfl rfl
  unfold addFunction
  split
  · exact h
  · split
    · exact h
    · dsimp only
      split
      · exact hbegin
      · dsimp only
        split
        · exact hbegin.congr rfl rfl rfl
        · exact hbegin

theorem tables_functionReserveEndpoint (h : l.dev.Tables) (f : Nat) (wantAddr : UInt8) :
    (l.functionReserveEndpoint f wantAddr).1.dev.Tables := by
  unfold functionReserveEndpoint
  split
  · exact h
  · show (l.dev.reserveEndpoint wantAddr).1.Tables
    unfold Device.reserveEndpoint
    split
    · exact h
    · dsimp only
      split
      · exact h
      · rename_i alloc
        exact h.reserve (Device.epAllocNumber_some (epNumber_lt wantAddr) alloc).1

theorem tables_interfaceSetString (h : l.dev.Tables) (f i : Nat) (istr : UInt8) :
    (l.interfaceSetString f i istr).dev.Tables := by
  unfold interfaceSetString Device.setInterfaceString
  split
  · exact h
  · dsimp only
    split
    · exact h
    · exact h.congr rfl rfl rfl

theorem tables_functionEnableMsos (h : l.dev.Tables) (f : Nat) (compatible guid : Option String) :
    (l.functionEnableMsos f compatible guid).1.dev.Tables := by
  unfold functionEnableMsos
  split
  · exact h
  · rename_i func _
    have hstep := l.dev.msosAdd_step func.group compatible guid
    show (l.dev.msosAdd func.group compatible guid).1.Tables
    generalize l.dev.msosAdd func.group compatible guid = r at hstep
    cases hstep with
    | full => exact h
    | replaced | added => exact h.congr rfl rfl rfl

end calls

end Layer

end Usbip
