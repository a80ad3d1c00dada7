import Usbip.Lib.Run
import Usbip.Lib.Sections
import Usbip.Build.Device

/-! The calls that append to a configuration, one at a time: what each of them can do, and the
record of the descriptors placed and the endpoint addresses reserved. -/

namespace Usbip

open Lib

theorem epNumber_lt (addr : UInt8) : epNumber addr < 16 := by
  rw [epNumber, UInt8.toNat_and]
  exact Nat.lt_of_le_of_lt Nat.and_le_right (by decide)

@[simp] theorem epNumber_epAddr {number : Nat} (dir : Dir) (h : number < 16) :
    epNumber (epAddr number dir) = number := by
  revert number
  cases dir <;> decide

@[simp] theorem epDir_epAddr {number : Nat} (dir : Dir) (h : number < 16) :
    epDir (epAddr number dir) = dir := by
  revert number
  cases dir <;> decide

theorem epAddr_ne_zero {number : Nat} (dir : Dir) (hpos : 0 < number) (h : number < 16) :
    epAddr number dir ≠ 0 := by
  intro h0
  have := epNumber_epAddr dir h
  rw [h0] at this
  exact absurd this (Nat.ne_of_lt hpos)

theorem normalize_length (desc : List UInt8) : (normalize desc).length = descLen desc := by
  rw [normalize, List.length_set, List.takeD_length]

namespace Device

variable {dev : Device} {desc : List UInt8} {owner : UInt8} {want number : Nat} {dir : Dir}

/-- The number is no endpoint's but the owner's, and no other interface has reserved it. -/
structure MayTake (dev : Device) (owner : UInt8) (number : Nat) (dir : Dir) : Prop where
  pos : 0 < number
  lt : number < 16
  own : ∀ ep, dev.held number dir = some ep → ep.ifnum = owner
  allows : dev.epReservationAllows owner number dir = true

/-- A request that may be honoured is. -/
theorem epAllocNumber_of_mayTake (h : dev.MayTake owner want dir) :
    dev.epAllocNumber owner want dir = some want := by
  rw [epAllocNumber, if_pos]
  exact ⟨Nat.ne_of_gt h.pos,
    Option.all_eq_true _ _ |>.mpr fun ep hep => decide_eq_true (h.own ep hep), h.allows⟩

/-- The number found may be taken, and when it is not the one wanted, no endpoint has it. -/
theorem epAllocNumber_some (hwant : want < 16)
    (h : dev.epAllocNumber owner want dir = some number) :
    dev.MayTake owner number dir ∧ (number ≠ want → dev.epMap number dir = none) := by
  rw [epAllocNumber] at h
  split at h
  · rename_i hw
    obtain ⟨hne, hown, hallows⟩ := hw
    cases h
    exact ⟨⟨Nat.pos_of_ne_zero hne, hwant, fun ep hep =>
        of_decide_eq_true ((Option.all_eq_true _ _).mp hown ep hep), hallows⟩,
      fun hne => absurd rfl hne⟩
  · have hfree := List.find?_some h
    have hrange := List.mem_range'_1.mp (List.mem_of_find?_eq_some h)
    obtain ⟨hnone, hallows⟩ := of_decide_eq_true hfree
    exact ⟨⟨hrange.1, by omega, by simp [held, hnone], hallows⟩, fun _ => hnone⟩

/-- What `usbip_device_add_descriptor` checks before it appends. -/
def Accepts (dev : Device) (desc : List UInt8) : Prop :=
  dev.descr.length + descLen desc ≤ descrCap ∧
    (byteAt desc 1 = usbDtEndpoint → dev.eps.length < epsCap ∧ (dev.allocFor desc).isSome)

instance (dev : Device) (desc : List UInt8) : Decidable (dev.Accepts desc) :=
  inferInstanceAs (Decidable (_ ∧ _))

/-- The descriptor's bytes at the end of the blob. -/
def append (dev : Device) (desc : List UInt8) : Device :=
  { dev with descr := dev.descr ++ normalize desc }

/-- The outcomes of `usbip_device_add_descriptor`. -/
inductive DescStep (dev : Device) (desc : List UInt8) : Device × Int → Prop
  | refused (not_accepted : ¬dev.Accepts desc) : DescStep dev desc (dev, usbErrorNoMem)
  | interface (accepted : dev.Accepts desc) (kind : byteAt desc 1 = usbDtInterface) :
    DescStep dev desc
      ((dev.append desc).appendInterface dev.descr.length (byteAt desc 2) (byteAt desc 3),
        usbSuccess)
  | endpoint {number : Nat} (accepted : dev.Accepts desc) (kind : byteAt desc 1 = usbDtEndpoint)
    (alloc : dev.allocFor desc = some number) :
    DescStep dev desc
      ((dev.append desc).attachEndpoint dev.descr.length (newEp desc dev.owner number), usbSuccess)
  | other (accepted : dev.Accepts desc) (not_interface : byteAt desc 1 ≠ usbDtInterface)
    (not_endpoint : byteAt desc 1 ≠ usbDtEndpoint) : DescStep dev desc (dev.append desc, usbSuccess)

theorem addDescriptor_step (dev : Device) (desc : List UInt8) :
    DescStep dev desc (dev.addDescriptor desc) := by
  rw [addDescriptor]
  split
  · exact .refused fun h => by have := h.1; omega
  · rename_i hfits
    have hfits : dev.descr.length + descLen desc ≤ descrCap := Nat.le_of_not_lt hfits
    split
    · rename_i kind
      exact .interface ⟨hfits, fun hep => absurd (kind.symm.trans hep) (by decide)⟩ kind
    · rename_i not_interface
      split
      · rename_i kind
        have hundo : ({ dev with
            descr := (dev.descr ++ normalize desc).take
              ((dev.descr ++ normalize desc).length - descLen desc) } : Device) = dev := by
          rw [List.length_append, normalize_length, Nat.add_sub_cancel, List.take_left]
        rw [appendEndpoint]
        split
        · rename_i hcap
          rw [hundo]
          exact .refused fun h => absurd (h.2 kind).1 (Nat.not_lt.mpr hcap)
        · rename_i hcap
          split
          · rename_i halloc
            rw [hundo]
            exact .refused fun h => by
              have := (h.2 kind).2
              rw [show dev.allocFor desc = none from halloc] at this
              cases this
          · rename_i number halloc
            have halloc : dev.allocFor desc = some number := halloc
            exact .endpoint ⟨hfits, fun _ => ⟨Nat.lt_of_not_le hcap, by rw [halloc]; rfl⟩⟩ kind
              halloc
      · rename_i not_endpoint
        exact .other ⟨hfits, fun hep => absurd hep not_endpoint⟩ not_interface not_endpoint

theorem addDescriptor_refused (h : ¬dev.Accepts desc) :
    dev.addDescriptor desc = (dev, usbErrorNoMem) := by
  generalize hr : dev.addDescriptor desc = r
  have hstep := hr ▸ dev.addDescriptor_step desc
  cases hstep with
  | refused => rfl
  | interface h' | endpoint h' | other h' => exact absurd h' h

theorem addDescriptor_interface (h : dev.Accepts desc) (kind : byteAt desc 1 = usbDtInterface) :
    dev.addDescriptor desc =
      ((dev.append desc).appendInterface dev.descr.length (byteAt desc 2) (byteAt desc 3),
        usbSuccess) := by
  generalize hr : dev.addDescriptor desc = r
  have hstep := hr ▸ dev.addDescriptor_step desc
  cases hstep with
  | refused hnot => exact absurd h hnot
  | interface => rfl
  | endpoint _ hep => exact absurd (kind.symm.trans hep) (by decide)
  | other _ hif => exact absurd kind hif

theorem addDescriptor_endpoint (h : dev.Accepts desc) (kind : byteAt desc 1 = usbDtEndpoint)
    (alloc : dev.allocFor desc = some number) :
    dev.addDescriptor desc =
      ((dev.append desc).attachEndpoint dev.descr.length (newEp desc dev.owner number),
        usbSuccess) := by
  generalize hr : dev.addDescriptor desc = r
  have hstep := hr ▸ dev.addDescriptor_step desc
  cases hstep with
  | refused hnot => exact absurd h hnot
  | interface _ hif => exact absurd (hif.symm.trans kind) (by decide)
  | endpoint _ _ alloc' =>
    cases alloc.symm.trans alloc'
    rfl
  | other _ _ hep => exact absurd kind hep

theorem addDescriptor_other (h : dev.Accepts desc) (hi : byteAt desc 1 ≠ usbDtInterface)
    (he : byteAt desc 1 ≠ usbDtEndpoint) : dev.addDescriptor desc = (dev.append desc, usbSuccess) := by
  generalize hr : dev.addDescriptor desc = r
  have hstep := hr ▸ dev.addDescriptor_step desc
  cases hstep with
  | refused hnot => exact absurd h hnot
  | interface _ hif => exact absurd hif hi
  | endpoint _ hep => exact absurd hep he
  | other => rfl

theorem addEndpoint_fst (dev : Device) (desc : List UInt8) :
    (dev.addEndpoint desc).1 = (dev.addDescriptor desc).1 := by
  simp only [addEndpoint]
  split
  · rfl
  · split <;> rfl

theorem accepts_of_ok {act : AddAct} (h : (dev.applyAdd act).2.ok = true) :
    ∀ desc ∈ act.desc, dev.Accepts desc := by
  rintro desc hdesc
  by_contra hnot
  have hrefused := addDescriptor_refused hnot
  cases act with
  | reserveEndpoint => cases hdesc
  | addDescriptor =>
    cases hdesc
    rw [applyAdd, hrefused] at h
    cases h
  | addEndpoint =>
    cases hdesc
    rw [applyAdd, addEndpoint, hrefused] at h
    cases h

theorem addDescriptor_success_iff (dev : Device) (desc : List UInt8) :
    (dev.addDescriptor desc).2 = usbSuccess ↔ dev.Accepts desc := by
  generalize hr : dev.addDescriptor desc = r
  have hstep := hr ▸ dev.addDescriptor_step desc
  cases hstep with
  | refused h => exact ⟨fun heq : usbErrorNoMem = usbSuccess => absurd heq (by decide), (absurd · h)⟩
  | interface h | endpoint h | other h => exact ⟨fun _ => h, fun _ => rfl⟩

/-! What the branches leave as it was. -/

section frame

variable (dev : Device) (ifnum alt : UInt8) (dst : Nat) (ep : Ep)

@[simp] theorem registerIfnum_descr : (dev.registerIfnum ifnum).descr = dev.descr := by
  unfold registerIfnum; dsimp only; split <;> rfl

@[simp] theorem registerIfnum_ifalts : (dev.registerIfnum ifnum).ifalts = dev.ifalts := by
  unfold registerIfnum; dsimp only; split <;> rfl

@[simp] theorem registerIfnum_eps : (dev.registerIfnum ifnum).eps = dev.eps := by
  unfold registerIfnum; dsimp only; split <;> rfl

@[simp] theorem registerIfnum_epMap : (dev.registerIfnum ifnum).epMap = dev.epMap := by
  unfold registerIfnum; dsimp only; split <;> rfl

@[simp] theorem registerIfnum_epReserved :
    (dev.registerIfnum ifnum).epReserved = dev.epReserved := by
  unfold registerIfnum; dsimp only; split <;> rfl

@[simp] theorem appendInterface_descr :
    (dev.appendInterface dst ifnum alt).descr = dev.descr := by
  unfold appendInterface; dsimp only; split <;> [skip; split] <;> simp

@[simp] theorem appendInterface_cur :
    (dev.appendInterface dst ifnum alt).cur = some (ifnum, alt) := by
  unfold appendInterface; dsimp only; split <;> [skip; split] <;> rfl

@[simp] theorem appendInterface_eps : (dev.appendInterface dst ifnum alt).eps = dev.eps := by
  unfold appendInterface; dsimp only; split <;> [skip; split] <;> simp

@[simp] theorem appendInterface_epMap :
    (dev.appendInterface dst ifnum alt).epMap = dev.epMap := by
  unfold appendInterface; dsimp only; split <;> [skip; split] <;> simp

@[simp] theorem appendInterface_epReserved :
    (dev.appendInterface dst ifnum alt).epReserved = dev.epReserved := by
  unfold appendInterface; dsimp only; split <;> [skip; split] <;> simp

@[simp] theorem countEndpoint_descr_length :
    dev.countEndpoint.descr.length = dev.descr.length := by
  unfold countEndpoint; split <;> [rfl; split] <;> simp

@[simp] theorem countEndpoint_eps : dev.countEndpoint.eps = dev.eps := by
  unfold countEndpoint; split <;> [rfl; split] <;> rfl

@[simp] theorem countEndpoint_epMap : dev.countEndpoint.epMap = dev.epMap := by
  unfold countEndpoint; split <;> [rfl; split] <;> rfl

@[simp] theorem countEndpoint_epReserved : dev.countEndpoint.epReserved = dev.epReserved := by
  unfold countEndpoint; split <;> [rfl; split] <;> rfl

@[simp] theorem countEndpoint_cur : dev.countEndpoint.cur = dev.cur := by
  unfold countEndpoint; split <;> [skip; split] <;> rfl

end frame

end Device

/-- A descriptor that a call has placed in the configuration, with its bytes: those given, with the
length explicit and an endpoint's address as it was allocated. -/
inductive Placed
  | interface (ifnum alt : UInt8) (bytes : List UInt8)
  | endpoint (addr : UInt8) (bytes : List UInt8)
  | other (bytes : List UInt8)
  deriving DecidableEq, Repr

namespace Placed

def bytes : Placed → List UInt8
  | interface _ _ bytes | endpoint _ bytes | other bytes => bytes

/-- The interface number and alternate setting that an interface descriptor opens. -/
def setting : Placed → Option (UInt8 × UInt8)
  | interface ifnum alt _ => some (ifnum, alt)
  | _ => none

def addr : Placed → Option UInt8
  | endpoint addr _ => some addr
  | _ => none

/-- What a call for `desc` that succeeds and leaves the device `dev` has placed. -/
def ofCall (desc : List UInt8) (dev : Device) : Placed :=
  if byteAt desc 1 = usbDtInterface then interface (byteAt desc 2) (byteAt desc 3) (normalize desc)
  else if byteAt desc 1 = usbDtEndpoint then
    let addr := (dev.eps.getLast?.map Ep.addr).getD 0
    endpoint addr ((normalize desc).set 2 addr)
  else other (normalize desc)

end Placed

/-- A device under construction: the descriptors placed, in order, and the endpoint addresses handed
out as reservations, each with the interface that asked. -/
structure AddTrace where
  dev : Device
  placed : List Placed
  reserved : List (UInt8 × UInt8)

namespace AddTrace

def new (header : DeviceHeader) : AddTrace := ⟨.create header, [], []⟩

/-- One descriptor, through either of the calls that append. -/
def add (t : AddTrace) (desc : List UInt8) : AddTrace :=
  let (dev, rc) := t.dev.addDescriptor desc
  { t with
    dev
    placed := if rc = usbSuccess then t.placed ++ [.ofCall desc dev] else t.placed }

def reserve (t : AddTrace) (wantAddr : UInt8) : AddTrace :=
  let (dev, a) := t.dev.reserveEndpoint wantAddr
  { t with
    dev
    reserved := if a = 0 then t.reserved else t.reserved ++ [(t.dev.owner, a)] }

def apply (t : AddTrace) : AddAct → AddTrace
  | .addDescriptor desc | .addEndpoint desc => t.add desc
  | .reserveEndpoint wantAddr => t.reserve wantAddr

/-- A call that succeeds; the others cannot be taken. -/
def succeed (t : AddTrace) (act : AddAct) : Option AddTrace :=
  if (t.dev.applyAdd act).2.ok then some (t.apply act) else none

/-- What one descriptor can do. -/
inductive AddStep (t : AddTrace) (desc : List UInt8) : AddTrace → Prop
  | refused (not_accepted : ¬t.dev.Accepts desc) : AddStep t desc t
  | interface (accepted : t.dev.Accepts desc) (kind : byteAt desc 1 = usbDtInterface) :
    AddStep t desc { t with
      dev := (t.dev.append desc).appendInterface t.dev.descr.length (byteAt desc 2) (byteAt desc 3)
      placed := t.placed ++ [.interface (byteAt desc 2) (byteAt desc 3) (normalize desc)] }
  | endpoint {number : Nat} {ep : Ep} {dev' : Device} (accepted : t.dev.Accepts desc)
    (kind : byteAt desc 1 = usbDtEndpoint) (alloc : t.dev.allocFor desc = some number)
    (ep_eq : newEp desc t.dev.owner number = ep)
    (attached : (t.dev.append desc).attachEndpoint t.dev.descr.length ep = dev') :
    AddStep t desc { t with
      dev := dev'
      placed := t.placed ++ [.endpoint ep.addr ((normalize desc).set 2 ep.addr)] }
  | other (accepted : t.dev.Accepts desc) (not_interface : byteAt desc 1 ≠ usbDtInterface)
    (not_endpoint : byteAt desc 1 ≠ usbDtEndpoint) :
    AddStep t desc { t with
      dev := t.dev.append desc
      placed := t.placed ++ [.other (normalize desc)] }

theorem add_step (t : AddTrace) (desc : List UInt8) : AddStep t desc (t.add desc) := by
  rw [add]
  generalize hr : t.dev.addDescriptor desc = r
  have hstep := hr ▸ t.dev.addDescriptor_step desc
  cases hstep with
  | refused h => exact .refused h
  | interface h kind =>
    simp only [if_pos, Placed.ofCall, kind]
    exact .interface h kind
  | endpoint h kind alloc =>
    simp only [if_pos, Placed.ofCall, kind, if_neg (show ¬usbDtEndpoint = usbDtInterface by decide)]
    have := AddStep.endpoint h kind alloc rfl rfl
    rwa [show (((t.dev.append desc).attachEndpoint t.dev.descr.length
      (newEp desc t.dev.owner _)).eps.getLast?.map Ep.addr).getD 0 = _ from ?_]
    simp [Device.attachEndpoint, Device.enterEndpoint]
  | other h hi he =>
    simp only [if_pos, Placed.ofCall, if_neg hi, if_neg he]
    exact .other h hi he

/-- What one reservation can do. -/
inductive ReserveStep (t : AddTrace) (wantAddr : UInt8) : AddTrace → Prop
  | refused : ReserveStep t wantAddr t
  | reserved {ifnum alt : UInt8} {number : Nat} (cur : t.dev.cur = some (ifnum, alt))
    (alloc : t.dev.epAllocNumber ifnum (epNumber wantAddr) (epDir wantAddr) = some number) :
    ReserveStep t wantAddr { t with
      dev := { t.dev with
        epReserved := t.dev.epReserved.set number (epDir wantAddr) (ifnum + 1) }
      reserved := t.reserved ++ [(ifnum, epAddr number (epDir wantAddr))] }

theorem reserve_step (t : AddTrace) (wantAddr : UInt8) :
    ReserveStep t wantAddr (t.reserve wantAddr) := by
  rw [reserve]
  cases hcur : t.dev.cur with
  | none =>
    simp only [Device.reserveEndpoint, hcur]
    exact .refused
  | some setting =>
    obtain ⟨ifnum, alt⟩ := setting
    cases halloc : t.dev.epAllocNumber ifnum (epNumber wantAddr) (epDir wantAddr) with
    | none =>
      simp only [Device.reserveEndpoint, hcur, halloc]
      exact .refused
    | some number =>
      obtain ⟨take, -⟩ := Device.epAllocNumber_some (epNumber_lt wantAddr) halloc
      have howner : t.dev.owner = ifnum := by rw [Device.owner, hcur]; rfl
      simp only [Device.reserveEndpoint, hcur, halloc]
      rw [if_neg (epAddr_ne_zero _ take.pos take.lt), howner, ← hcur]
      exact .reserved hcur halloc

end AddTrace

end Usbip
