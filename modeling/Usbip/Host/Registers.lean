import Usbip.Host.Pipes
import Usbip.Host.Requests
import Usbip.Layer.Routing

/-! The settings that a host reads and writes through the control requests of the built-in classes.
Over the wire they are registers: each function keeps its own, and a write changes no other. -/

namespace Usbip.Host

open Lib Layer Wire Control
open Classes (Function Contents CdcState UacState HidState)
open Device (u16le)

/-- A setting of a function that requests of its class get and set. -/
inductive Reg
  | lineCoding
  | controlLine
  | mute (idx : Fin 2)
  | volume (idx : Fin 2)
  | idle
  | protocol
  deriving DecidableEq, Repr

namespace Reg

def width : Reg → Nat
  | .lineCoding => 7
  | .volume _ => 2
  | _ => 1

/-- The value is in `wValue`, and nothing follows the setup packet. -/
def inline : Reg → Bool
  | .controlLine | .idle | .protocol => true
  | _ => false

/-- What a function makes of a byte. -/
def kept : Reg → UInt8 → UInt8
  | .controlLine, b => if b &&& 1 ≠ 0 then 1 else 0
  | .mute _, b => if b ≠ 0 then 1 else 0
  | _, b => b

/-- What the register holds after `bytes` were sent to it, where it held `old`. -/
def store (r : Reg) (old bytes : List UInt8) : List UInt8 :=
  if r.width ≤ bytes.length then (bytes.take r.width).map r.kept else old

/-- The request that reads it, `none` for the one that is only written. -/
def getRequest : Reg → Option UInt8
  | .lineCoding => some 0x21
  | .controlLine => none
  | .mute _ | .volume _ => some 0x81
  | .idle => some 0x02
  | .protocol => some 0x03

def setRequest : Reg → UInt8
  | .lineCoding => 0x20
  | .controlLine => 0x22
  | .mute _ | .volume _ => 0x01
  | .idle => 0x0a
  | .protocol => 0x0b

/-- The control selector. -/
def selector : Reg → UInt8
  | .mute _ => 0x01
  | .volume _ => 0x02
  | _ => 0

/-- The entity that a request addresses, behind the interface. -/
def unit : Reg → UInt8
  | .mute idx | .volume idx => if idx = 0 then 2 else 5
  | _ => 0

/-- `wValue` of the request that sets it. -/
def argument (r : Reg) (bytes : List UInt8) : UInt16 :=
  let b := bytes.headD 0
  match r with
  | .idle => b.toUInt16 <<< 8 ||| (0 : UInt8).toUInt16
  | .controlLine | .protocol => (0 : UInt8).toUInt16 <<< 8 ||| b.toUInt16
  | _ => r.selector.toUInt16 <<< 8 ||| (0 : UInt8).toUInt16

def index (r : Reg) (i : UInt8) : UInt16 := r.unit.toUInt16 <<< 8 ||| i.toUInt16

def getSetup (r : Reg) (bRequest i : UInt8) : Setup :=
  ⟨0xa1, bRequest, r.selector.toUInt16 <<< 8 ||| (0 : UInt8).toUInt16, r.index i, r.width.toUInt16⟩

/-- The bytes of the data stage. -/
def sent (r : Reg) (bytes : List UInt8) : List UInt8 := if r.inline then [] else bytes

def setSetup (r : Reg) (i : UInt8) (bytes : List UInt8) : Setup :=
  ⟨0x21, r.setRequest, r.argument bytes, r.index i, (r.sent bytes).length.toUInt16⟩

end Reg

/-- A register read or written at interface `i`. -/
inductive RegCall
  | get (i : UInt8) (r : Reg)
  | set (i : UInt8) (r : Reg) (bytes : List UInt8)

namespace RegCall

def iface : RegCall → UInt8
  | .get i _ | .set i _ _ => i

def reg : RegCall → Reg
  | .get _ r | .set _ r _ => r

def setup : RegCall → Setup
  | .get i r => r.getSetup (r.getRequest.getD 0) i
  | .set i r bytes => r.setSetup i bytes

def sent : RegCall → List UInt8
  | .get _ _ => []
  | .set _ r bytes => r.sent bytes

/-- The control transfer that makes the call. -/
def transfer (q : RegCall) : ControlCall where
  setup := q.setup
  buf := q.sent
  filled hout := by
    cases q with
    | get i r => exact absurd hout (by simp [setup, Reg.getSetup, Setup.isIn]; decide)
    | set i r bytes => simpa [setup, Reg.setSetup, sent] using Nat.mod_le _ _

/-- The register can be read, and what is written to it fits a request. -/
def Sound : RegCall → Prop
  | .get _ r => r.getRequest.isSome
  | .set _ r bytes => if r.inline then bytes.length = 1 else bytes.length < 2 ^ 16

instance (q : RegCall) : Decidable q.Sound := by
  cases q <;> unfold Sound <;> infer_instance

end RegCall

/-- What the registers of the functions hold, `none` for a register that a function does not have. -/
abbrev Regs : Type := Nat → Reg → Option (List UInt8)

/-- The registers behind the interfaces, where the function `owner i` has interface `i`. -/
def serveRegs (owner : UInt8 → Nat) (m : Regs) : RegCall → Regs × Outcome
  | .get i r => (m, .of 0 ((m (owner i) r).getD []).length ((m (owner i) r).getD []))
  | .set i r bytes =>
    (fun f r' => if f = owner i ∧ r' = r then (m f r').map (r.store · bytes) else m f r',
      .of 0 (r.sent bytes).length [])

/-- The value of a register in the state of a function. -/
def Reg.value (f : Function) : Reg → Option (List UInt8)
  | .lineCoding =>
    match f with
    | .cdc st => some (u32le st.lineCoding.baud ++
        [st.lineCoding.stopBits, st.lineCoding.parity, st.lineCoding.dataBits])
    | _ => none
  | .controlLine =>
    match f with
    | .cdc st => some [if st.isOpen then 1 else 0]
    | _ => none
  | .mute idx =>
    match f with
    | .uac st => some [st.mute idx]
    | _ => none
  | .volume idx =>
    match f with
    | .uac st => some (u16le (st.volume idx))
    | _ => none
  | .idle =>
    match f with
    | .hid st => some [st.idle]
    | _ => none
  | .protocol =>
    match f with
    | .hid st => some [st.protocol]
    | _ => none

def regsOf (fns : Nat → Function) : Regs := fun f r => r.value (fns f)

/-- A device whose control handlers are those of functions of the built-in classes, with the states `β`
of the application behind them. -/
structure ClassDevice (β : Type) where
  described : Described
  setAlt : β → CtrlSlot → UInt8 → UInt8 → β × List PipeAct
  hasOnOut : EpId → Bool
  onOut : β → EpId → List UInt8 → β × List PipeAct
  /-- what the memory around `ep_map` reads as -/
  stray : Int → Int → Option Ep

/-- The device, where a control slot has its function as its context. -/
def ClassDevice.device {β : Type} (c : ClassDevice β) : PipeDevice ((Nat → Function) × β) where
  described := c.described
  control st slot setup buf len :=
    let h := (st.1 slot.ctx).control setup buf len
    (⟨h.accesses, (tableSet st.1 slot.ctx h.state, st.2), h.rc⟩, [])
  setAlt st slot ifnum alt :=
    let set := c.setAlt st.2 slot ifnum alt
    ((st.1, set.1), set.2)
  hasOnOut := c.hasOnOut
  onOut st e data :=
    let called := c.onOut st.2 e data
    ((st.1, called.1), called.2)
  stray := c.stray

/-! ### The handlers -/

theorem u16le_getLe16 (l : List UInt8) (h : l.length = 2) : u16le (getLe16 l) = l := by
  obtain ⟨a, b, rfl⟩ := List.length_eq_two.mp h
  have ha := a.toNat_lt
  have hb := b.toNat_lt
  have hn : (getLe16 [a, b]).toNat = a.toNat + b.toNat * 256 := by
    simp only [getLe16, UInt16.toNat_ofNat']
    omega
  have hlow : (getLe16 [a, b]).toUInt8 = a := by
    apply UInt8.toNat.inj
    rw [UInt16.toNat_toUInt8, hn]
    omega
  have hhigh : ((getLe16 [a, b]) >>> 8).toUInt8 = b := by
    apply UInt8.toNat.inj
    rw [UInt16.toNat_toUInt8, UInt16.toNat_shiftRight, hn]
    simp [Nat.shiftRight_eq_div_pow]
    omega
  rw [u16le, hlow, hhigh]

theorem u32le_getLe32 (a b c d : UInt8) : u32le (getLe32 [a, b, c, d]) = [a, b, c, d] := by
  have ha := a.toNat_lt
  have hb := b.toNat_lt
  have hc := c.toNat_lt
  have hd := d.toNat_lt
  have hn : (getLe32 [a, b, c, d]).toNat =
      a.toNat + b.toNat * 2 ^ 8 + c.toNat * 2 ^ 16 + d.toNat * 2 ^ 24 := by
    simp only [getLe32, UInt32.toNat_ofNat']
    omega
  have hbyte : ∀ (k : UInt32) (x : UInt8), (getLe32 [a, b, c, d]).toNat / 2 ^ (k.toNat % 32) % 256 =
      x.toNat → (getLe32 [a, b, c, d] >>> k).toUInt8 = x := by
    intro k x h
    apply UInt8.toNat.inj
    rw [UInt32.toNat_toUInt8, UInt32.toNat_shiftRight, Nat.shiftRight_eq_div_pow]
    exact h
  have hlow : (getLe32 [a, b, c, d]).toUInt8 = a := by
    apply UInt8.toNat.inj
    rw [UInt32.toNat_toUInt8, hn]
    omega
  rw [u32le, hlow, hbyte 8 b, hbyte 16 c, hbyte 24 d]
  all_goals
    rw [hn]
    simp
    omega

theorem seven_of_le : ∀ {bytes : List UInt8}, 7 ≤ bytes.length → ∃ a b c d e f g rest,
    bytes = [a, b, c, d, e, f, g] ++ rest
  | a :: b :: c :: d :: e :: f :: g :: rest, _ => ⟨a, b, c, d, e, f, g, rest, rfl⟩

theorem request_bytes (r : Reg) (i : UInt8) : msb (r.index i) = r.unit ∧ lsb (r.index i) = i ∧
    msb (r.selector.toUInt16 <<< 8 ||| (0 : UInt8).toUInt16) = r.selector :=
  ⟨(wValue_bytes _ _).1, (wValue_bytes _ _).2, (wValue_bytes _ _).1⟩

/-- The Feature Unit that a request for a mute or a volume addresses. -/
theorem uacUnit_index {setup : Setup} {idx : Fin 2}
    (h : msb setup.wIndex = if idx = 0 then (2 : UInt8) else 5) :
    Classes.uacUnit setup = some idx.val := by
  unfold Classes.uacUnit
  match idx with
  | 0 => rw [h]; rfl
  | 1 => rw [h]; rfl

theorem getSetup_class (r : Reg) (g i : UInt8) :
    (r.getSetup g i).reqType = 1 ∧ (r.getSetup g i).recip = 1 ∧ (r.getSetup g i).isIn = true :=
  (by decide : ((0xa1 : UInt8) >>> 5 &&& 3) = 1 ∧ ((0xa1 : UInt8) &&& 0x1f) = 1 ∧
    decide (((0xa1 : UInt8) &&& 0x80) ≠ 0) = true)

theorem setSetup_class (r : Reg) (i : UInt8) (bytes : List UInt8) :
    (r.setSetup i bytes).reqType = 1 ∧ (r.setSetup i bytes).recip = 1 ∧
      (r.setSetup i bytes).isIn = false :=
  (by decide : ((0x21 : UInt8) >>> 5 &&& 3) = 1 ∧ ((0x21 : UInt8) &&& 0x1f) = 1 ∧
    decide (((0x21 : UInt8) &&& 0x80) ≠ 0) = false)

/-- The answer to a request that reads a register. -/
theorem control_get {f : Function} {r : Reg} {v : List UInt8} {g : UInt8} (hv : r.value f = some v)
    (hg : r.getRequest = some g) (i : UInt8) (buf : Contents) (len : UInt16) :
    ∃ ws : List Store, f.control (r.getSetup g i) buf len = ⟨ws.map .write, f, r.width⟩ ∧
      Writes ws 0 v ∧ v.length = r.width ∧ ∀ w ∈ ws, w.Inside 7 := by
  obtain ⟨hunit, -, hselector⟩ := request_bytes r i
  cases r with
  | lineCoding =>
    cases f <;> cases hv
    cases hg
    rename_i st
    refine ⟨Classes.codingToWire st.lineCoding, rfl, ?_, rfl, ?_⟩
    · exact .cons _ (.cons _ (.cons _ (.single _ _)))
    · simp [Classes.codingToWire, Store.Inside, Store.stop, u32le]
  | controlLine => cases hg
  | mute idx =>
    cases f <;> cases hv
    cases hg
    rename_i st
    refine ⟨[⟨0, [st.mute idx]⟩], ?_, .single _ _, rfl, by simp [Store.Inside, Store.stop]⟩
    have hidx : Classes.uacUnit ((Reg.mute idx).getSetup 0x81 i) = some idx.val := uacUnit_index hunit
    have hcs : msb ((Reg.mute idx).getSetup 0x81 i).wValue = 0x01 := hselector
    simp only [Function.control, Classes.uacControl, hidx, hcs, if_true]
    rfl
  | volume idx =>
    cases f <;> cases hv
    cases hg
    rename_i st
    refine ⟨[⟨0, u16le (st.volume idx)⟩], ?_, .single _ _, rfl, by simp [Store.Inside, Store.stop, u16le]⟩
    have hidx : Classes.uacUnit ((Reg.volume idx).getSetup 0x81 i) = some idx.val :=
      uacUnit_index hunit
    have hcs : msb ((Reg.volume idx).getSetup 0x81 i).wValue = 0x02 := hselector
    simp only [Function.control, Classes.uacControl, hidx, hcs]
    rfl
  | idle =>
    cases f <;> cases hv
    cases hg
    rename_i st
    refine ⟨[⟨0, [st.idle]⟩], ?_, .single _ _, rfl, by simp [Store.Inside, Store.stop]⟩
    have hclass := (getSetup_class .idle 0x02 i).1
    simp only [Function.control, Classes.hidControl, hclass]
    rfl
  | protocol =>
    cases f <;> cases hv
    cases hg
    rename_i st
    refine ⟨[⟨0, [st.protocol]⟩], ?_, .single _ _, rfl, by simp [Store.Inside, Store.stop]⟩
    have hclass := (getSetup_class .protocol 0x03 i).1
    simp only [Function.control, Classes.hidControl, hclass]
    rfl

/-- The handler of a function takes what is written to a register, and changes no other register. -/
def Takes (f : Function) (r : Reg) (i : UInt8) (bytes : List UInt8) : Prop :=
  ∃ accesses f', f.control (r.setSetup i bytes) (fun k => (r.sent bytes).getD k 0)
      (r.sent bytes).length.toUInt16 = ⟨accesses, f', 0⟩ ∧
    (∀ a ∈ accesses, a.Inside (r.sent bytes).length) ∧
    ∀ r' : Reg, r'.value f' = if r' = r then (r.value f).map (r.store · bytes) else r'.value f

section

variable {bytes : List UInt8} {i : UInt8}

theorem takes_lineCoding (st : CdcState) (hs : bytes.length < 2 ^ 16) :
    Takes (.cdc st) .lineCoding i bytes := by
  have hlen : bytes.length.toUInt16.toNat = bytes.length := UInt16.toNat_ofNat_of_lt' hs
  by_cases h7 : 7 ≤ bytes.length
  · obtain ⟨a, b, c, d, e, f, g, rest, rfl⟩ := seven_of_le h7
    refine ⟨[.read 0 7], .cdc { st with lineCoding := ⟨getLe32 [a, b, c, d], e, f, g⟩ }, ?_, ?_, ?_⟩
    · simp only [Function.control, Classes.cdcControl, Reg.setSetup, Reg.setRequest, if_true,
        Reg.sent, Reg.inline, Bool.false_eq_true, if_false, hlen, if_pos h7]
      rfl
    · simp [Access.Inside, Reg.sent, Reg.inline]
    · intro r'
      cases r' <;> simp [Reg.value, Reg.store, Reg.width, Reg.kept, u32le_getLe32]
  · refine ⟨[], .cdc st, ?_, by simp, ?_⟩
    · simp only [Function.control, Classes.cdcControl, Reg.setSetup, Reg.setRequest, if_true,
        Reg.sent, Reg.inline, Bool.false_eq_true, if_false, hlen, if_neg h7]
      rfl
    · intro r'
      cases r' <;> simp [Reg.value, Reg.store, Reg.width, h7]

theorem takes_controlLine (st : CdcState) (b : UInt8) : Takes (.cdc st) .controlLine i [b] := by
  have hbit : (Reg.controlLine.argument [b] &&& 1 ≠ 0) ↔ b &&& 1 ≠ 0 := by
    have hword : Reg.controlLine.argument [b] = b.toUInt16 := by
      simp [Reg.argument]
    rw [hword, show (1 : UInt16) = (1 : UInt8).toUInt16 from rfl, ← UInt8.toUInt16_and,
      show (0 : UInt16) = (0 : UInt8).toUInt16 from rfl, ne_eq, UInt8.toUInt16_inj]
  refine ⟨[], .cdc { st with isOpen := Reg.controlLine.argument [b] &&& 1 ≠ 0 }, rfl, by simp, ?_⟩
  intro r'
  simp only [hbit]
  cases r' <;> simp [Reg.value, Reg.store, Reg.width, Reg.kept]

theorem takes_mute (st : UacState) (idx : Fin 2) (hs : bytes.length < 2 ^ 16) :
    Takes (.uac st) (.mute idx) i bytes := by
  obtain ⟨hunit, -, hselector⟩ := request_bytes (.mute idx) i
  have hlen : bytes.length.toUInt16.toNat = bytes.length := UInt16.toNat_ofNat_of_lt' hs
  have hidx : Classes.uacUnit ((Reg.mute idx).setSetup i bytes) = some idx.val :=
    uacUnit_index hunit
  have hcs : msb ((Reg.mute idx).setSetup i bytes).wValue = 0x01 := hselector
  have hsent : (Reg.mute idx).sent bytes = bytes := rfl
  rw [Takes, hsent]
  simp only [Function.control, Classes.uacControl, hidx, hcs, if_true]
  by_cases h1 : 1 ≤ bytes.length
  · obtain ⟨b, rest, rfl⟩ := List.exists_cons_of_length_pos h1
    refine ⟨[.read 0 1], .uac { st with mute := tableSet st.mute idx (if b ≠ 0 then 1 else 0) },
      ?_, by simp [Access.Inside], ?_⟩
    · simp only [Classes.uacMute, Reg.setSetup, Reg.setRequest, if_true, hlen, if_pos h1]
      rfl
    · intro r'
      rcases eq_or_ne r' (.mute idx) with rfl | hne
      · simp [Reg.value, Reg.store, Reg.width, Reg.kept, tableSet]
      · rw [if_neg hne]
        cases r' with
        | mute idx' =>
          have hne : idx'.val ≠ idx.val := fun h => hne (congrArg _ (Fin.ext h))
          simp [Reg.value, tableSet, hne]
        | _ => rfl
  · refine ⟨[], .uac st, ?_, by simp, ?_⟩
    · simp only [Classes.uacMute, Reg.setSetup, Reg.setRequest, if_true, hlen, if_neg h1]
      rfl
    · intro r'
      split
      · rename_i hr
        simp [hr, Reg.value, Reg.store, Reg.width, h1]
      · rfl

theorem takes_volume (st : UacState) (idx : Fin 2) (hs : bytes.length < 2 ^ 16) :
    Takes (.uac st) (.volume idx) i bytes := by
  obtain ⟨hunit, -, hselector⟩ := request_bytes (.volume idx) i
  have hlen : bytes.length.toUInt16.toNat = bytes.length := UInt16.toNat_ofNat_of_lt' hs
  have hidx : Classes.uacUnit ((Reg.volume idx).setSetup i bytes) = some idx.val :=
    uacUnit_index hunit
  have hcs : msb ((Reg.volume idx).setSetup i bytes).wValue = 0x02 := hselector
  have hsent : (Reg.volume idx).sent bytes = bytes := rfl
  have hnot : ¬(0x02 : UInt8) = 0x01 := by decide
  rw [Takes, hsent]
  simp only [Function.control, Classes.uacControl, hidx, hcs, if_true, if_neg hnot]
  by_cases h2 : 2 ≤ bytes.length
  · obtain ⟨a, tail, rfl⟩ := List.exists_cons_of_length_pos (by omega : 0 < bytes.length)
    obtain ⟨b, rest, rfl⟩ := List.exists_cons_of_length_pos (Nat.le_of_succ_le_succ h2)
    refine ⟨[.read 0 2], .uac { st with volume := tableSet st.volume idx (getLe16 [a, b]) },
      ?_, by simp [Access.Inside], ?_⟩
    · simp only [Classes.uacVolume, Reg.setSetup, Reg.setRequest, if_true, hlen, if_pos h2]
      rfl
    · intro r'
      rcases eq_or_ne r' (.volume idx) with rfl | hne
      · simp [Reg.value, Reg.store, Reg.width, Reg.kept, tableSet, u16le_getLe16]
      · rw [if_neg hne]
        cases r' with
        | volume idx' =>
          have hne : idx'.val ≠ idx.val := fun h => hne (congrArg _ (Fin.ext h))
          simp [Reg.value, tableSet, hne]
        | _ => rfl
  · refine ⟨[], .uac st, ?_, by simp, ?_⟩
    · simp only [Classes.uacVolume, Reg.setSetup, Reg.setRequest, if_true, hlen, if_neg h2]
      rfl
    · intro r'
      split
      · rename_i hr
        simp [hr, Reg.value, Reg.store, Reg.width, h2]
      · rfl

theorem takes_idle (st : HidState) (b : UInt8) : Takes (.hid st) .idle i [b] := by
  have hclass := (setSetup_class .idle i [b]).1
  have hkept : msb (Reg.idle.setSetup i [b]).wValue = b := (wValue_bytes b 0).1
  refine ⟨[], .hid { st with idle := b }, ?_, by simp, ?_⟩
  · simp only [Function.control, Classes.hidControl, hclass, hkept]
    rfl
  · intro r'
    cases r' <;> simp [Reg.value, Reg.store, Reg.width, Reg.kept]

theorem takes_protocol (st : HidState) (b : UInt8) : Takes (.hid st) .protocol i [b] := by
  have hclass := (setSetup_class .protocol i [b]).1
  have hkept : lsb (Reg.protocol.setSetup i [b]).wValue = b := (wValue_bytes 0 b).2
  refine ⟨[], .hid { st with protocol := b }, ?_, by simp, ?_⟩
  · simp only [Function.control, Classes.hidControl, hclass, hkept]
    rfl
  · intro r'
    cases r' <;> simp [Reg.value, Reg.store, Reg.width, Reg.kept]

/-- A register that a function has is written by the request for it. -/
theorem takes_of_sound {f : Function} {r : Reg} (hr : (r.value f).isSome)
    (hs : (RegCall.set i r bytes).Sound) : Takes f r i bytes := by
  have hinline : r.inline = true → ∃ b, bytes = [b] := fun h => by
    rw [RegCall.Sound, if_pos h] at hs
    exact List.length_eq_one_iff.mp hs
  cases r with
  | lineCoding =>
    cases f with
    | cdc st => exact takes_lineCoding st hs
    | _ => cases hr
  | controlLine =>
    obtain ⟨b, rfl⟩ := hinline rfl
    cases f with
    | cdc st => exact takes_controlLine st b
    | _ => cases hr
  | mute idx =>
    cases f with
    | uac st => exact takes_mute st idx hs
    | _ => cases hr
  | volume idx =>
    cases f with
    | uac st => exact takes_volume st idx hs
    | _ => cases hr
  | idle =>
    obtain ⟨b, rfl⟩ := hinline rfl
    cases f with
    | hid st => exact takes_idle st b
    | _ => cases hr
  | protocol =>
    obtain ⟨b, rfl⟩ := hinline rfl
    cases f with
    | hid st => exact takes_protocol st b
    | _ => cases hr

end

/-! ### The device -/

section

variable {σ : Type} {dev : PipeDevice σ} {f : Facing σ} {setup : Setup} {data : List UInt8}
  {scratch : Contents} {slot : CtrlSlot}

theorem asked_class (hclass : setup.reqType = 1) : (dev.seen f).asked setup = none := by
  rw [Described.asked, if_neg (by rw [hclass]; decide), if_neg (by rw [hclass]; simp)]

theorem target_class (hclass : setup.reqType = 1) (hroute : dev.described.route setup = some slot) :
    dev.target f setup = some slot := by
  rw [PipeDevice.target, asked_class hclass]
  exact hroute

theorem changes_class (hclass : setup.reqType = 1) (hroute : dev.described.route setup = some slot) :
    dev.changes f setup data scratch = ⟨(dev.handled f.app slot setup data scratch).1.state, f.config,
      (dev.handled f.app slot setup data scratch).2⟩ := by
  have hseen : (dev.seen f).route setup = some slot := hroute
  simp only [PipeDevice.changes, asked_class hclass, hseen]

/-- A handler that fills what is asked for. -/
theorem answer_fills (htarget : dev.target f setup = some slot) (hin : setup.isIn = true)
    {ws : List Store} {st : σ} {acts : List PipeAct}
    (hh : dev.handled f.app slot setup data scratch =
      (⟨ws.map .write, st, (setup.wLength.toNat : Nat)⟩, acts)) :
    dev.answer f setup data scratch = .ret setup data ws (some (setup.wLength.toNat, scratchLen)) 0
      setup.wLength.toNat f.config := by
  have hpos : ¬((setup.wLength.toNat : Nat) : Int) < 0 := by omega
  simp only [PipeDevice.answer, htarget, hh, if_pos hin, writes_map, if_neg hpos, Int.toNat_natCast]

/-- A handler that takes a payload. -/
theorem answer_takes (htarget : dev.target f setup = some slot) (hin : setup.isIn = false)
    {accesses : List Access} {st : σ} {acts : List PipeAct}
    (hh : dev.handled f.app slot setup data scratch = (⟨accesses, st, 0⟩, acts)) :
    dev.answer f setup data scratch = .ret setup data []
      (some ((Classes.told setup data).toNat, data.length)) 0 0 f.config := by
  have hout : ¬setup.isIn = true := by simp [hin]
  have hpos : ¬(0 : Int) < 0 := by omega
  simp only [PipeDevice.answer, htarget, hh, if_neg hout, if_neg hpos]

theorem outcomeOf_in (hin : setup.isIn = true) {ws : List Store} {told : Option (Nat × Nat)}
    {config : UInt8} : outcomeOf (.ret setup data ws told 0 setup.wLength.toNat config) setup scratch =
      .of 0 setup.wLength.toNat (readout (putAll ws scratch) setup.wLength.toNat) := by
  simp [outcomeOf, answerData, Answer.ret, hin]

theorem outcomeOf_out (hout : setup.isIn = false) {told : Option (Nat × Nat)} {config : UInt8} :
    outcomeOf (.ret setup data [] told 0 0 config) setup scratch = .of 0 data.length [] := by
  simp [outcomeOf, Answer.ret, hout]

end

/-- The calls that hosts make: at an interface that its function declared, for a register that the
function has. -/
structure Regs.Proper (declared : List (UInt8 × Nat)) (owner : UInt8 → Nat) (m : Regs)
    (q : RegCall) : Prop where
  owned : (q.iface, owner q.iface) ∈ declared
  had : (m (owner q.iface) q.reg).isSome
  sound : q.Sound

variable {β : Type}

/-- The registers of a device, and what else there is to it. -/
structure HasRegs (rest p : Pipes ((Nat → Function) × β)) (m : Regs) : Prop where
  rest : ∃ fns, p = { rest with app := (fns, rest.app.2) }
  regs : regsOf p.app.1 = m

/-- The device serves the call as registers `m` do. -/
structure ServedAs (c : ClassDevice β) (p : Pipes ((Nat → Function) × β)) (stack : Stack) (q : RegCall)
    (served : Regs × Outcome) : Prop where
  ready : c.device.Ready stack.scratch p (.control q.transfer)
  after : HasRegs p (c.device.serve stack p (.control q.transfer)).1 served.1
  outcome : (c.device.serve stack p (.control q.transfer)).2 = served.2

section

variable {c : ClassDevice β} {p : Pipes ((Nat → Function) × β)} {i : UInt8} {r : Reg}
  {owner : UInt8 → Nat}

theorem Reg.width_le (r : Reg) : r.width ≤ 7 := by
  cases r <;> simp [Reg.width]

theorem served_get (hroute : ∀ setup : Setup, setup.recip = 1 → lsb setup.wIndex = i →
      c.described.route setup = some (ctrlSlot (owner i)))
    (hhad : (regsOf p.app.1 (owner i) r).isSome) (hsound : (RegCall.get i r).Sound) (stack : Stack) :
    ServedAs c p stack (.get i r) (serveRegs owner (regsOf p.app.1) (.get i r)) := by
  obtain ⟨g, hg⟩ := Option.isSome_iff_exists.mp hsound
  obtain ⟨v, hv⟩ := Option.isSome_iff_exists.mp hhad
  have hsetup : (RegCall.get i r).transfer.setup = r.getSetup g i :=
    congrArg (r.getSetup · i) (by rw [hg]; rfl)
  obtain ⟨hclass, hrecip, hin⟩ := getSetup_class r g i
  have hto : c.device.described.route (r.getSetup g i) = some (ctrlSlot (owner i)) :=
    hroute _ hrecip (request_bytes r i).2.1
  have htarget : c.device.target p.facing (r.getSetup g i) = some (ctrlSlot (owner i)) :=
    target_class hclass hto
  have hwidth : (r.getSetup g i).wLength.toNat = r.width :=
    UInt16.toNat_ofNat_of_lt' (Nat.lt_of_le_of_lt r.width_le (by decide))
  have hpayload : (RegCall.get i r).transfer.payload = [] := by
    rw [ControlCall.payload, hsetup, if_pos hin]
  obtain ⟨ws, hcontrol, hwrites, hlen, hinside⟩ :=
    control_get hv hg i stack.scratch (Classes.told (r.getSetup g i) [])
  have hsame : tableSet p.app.1 (owner i) (p.app.1 (owner i)) = p.app.1 := by
    funext k
    unfold tableSet
    split
    · rw [‹k = _›]
    · rfl
  have hh : c.device.handled p.facing.app (ctrlSlot (owner i)) (r.getSetup g i) [] stack.scratch =
      (⟨ws.map .write, p.app, ((r.getSetup g i).wLength.toNat : Nat)⟩, []) := by
    have hf : (p.facing.app.1 (ctrlSlot (owner i)).ctx).control (r.getSetup g i) stack.scratch
        (Classes.told (r.getSetup g i) []) = ⟨ws.map .write, p.app.1 (owner i), r.width⟩ := hcontrol
    rw [PipeDevice.handled, if_pos hin, hwidth]
    simp only [ClassDevice.device, hf]
    exact congrArg (fun fns => ((⟨ws.map .write, (fns, p.app.2), r.width⟩ : Handled _), [])) hsame
  have hanswer := answer_fills htarget hin hh
  have hafter : c.device.changes p.facing (r.getSetup g i) [] stack.scratch =
      ⟨p.app, p.config, []⟩ := by
    rw [changes_class hclass hto, hh]
    rfl
  have hroom : ∀ w ∈ ws, w.Inside scratchLen := fun w hw =>
    (hinside w hw).imp_right fun h => h.trans (by decide)
  refine ⟨?_, ⟨⟨p.app.1, ?_⟩, ?_⟩, ?_⟩
  · rw [PipeDevice.Ready, hsetup, hpayload, PipeDevice.Safe, hanswer]
    refine ⟨inBounds_ret _ _ _ hroom ?_ _ _ _, ?_⟩
    · rw [Nat.min_self, hwidth]
      exact r.width_le.trans (by decide)
    · rw [htarget, if_pos hin]
      rintro slot ⟨⟩ a ha
      rw [hh] at ha
      obtain ⟨w, hw, rfl⟩ := List.mem_map.mp ha
      exact hroom w hw
  · rw [PipeDevice.serve, hsetup, hpayload, hafter]
    rfl
  · rw [PipeDevice.serve, hsetup, hpayload, hafter]
    rfl
  · have hdata : readout (putAll ws stack.scratch) r.width = v :=
      Built.reply_eq (b := ⟨ws, r.width⟩) hwrites hlen.symm stack.scratch
    have hvalue : regsOf p.app.1 (owner i) r = some v := hv
    rw [PipeDevice.serve, hsetup, hpayload, hanswer, outcomeOf_in hin, hwidth, hdata]
    simp only [serveRegs, hvalue, Option.getD_some, hlen]

theorem sent_length {bytes : List UInt8} (hsound : (RegCall.set i r bytes).Sound) :
    (r.sent bytes).length < 2 ^ 16 := by
  unfold Reg.sent
  split
  · decide
  · rw [RegCall.Sound, if_neg ‹_›] at hsound
    exact hsound

theorem served_set (hroute : ∀ setup : Setup, setup.recip = 1 → lsb setup.wIndex = i →
      c.described.route setup = some (ctrlSlot (owner i)))
    {bytes : List UInt8}
    (hhad : (regsOf p.app.1 (owner i) r).isSome) (hsound : (RegCall.set i r bytes).Sound)
    (stack : Stack) :
    ServedAs c p stack (.set i r bytes) (serveRegs owner (regsOf p.app.1) (.set i r bytes)) := by
  obtain ⟨accesses, f', hcontrol, hinside, hregs⟩ := takes_of_sound hhad hsound (i := i)
  obtain ⟨hclass, hrecip, hout⟩ := setSetup_class r i bytes
  have hto : c.device.described.route (r.setSetup i bytes) = some (ctrlSlot (owner i)) :=
    hroute _ hrecip (request_bytes r i).2.1
  have htarget : c.device.target p.facing (r.setSetup i bytes) = some (ctrlSlot (owner i)) :=
    target_class hclass hto
  have hlen : (r.sent bytes).length.toUInt16.toNat = (r.sent bytes).length :=
    UInt16.toNat_ofNat_of_lt' (sent_length hsound)
  have hpayload : (RegCall.set i r bytes).transfer.payload = r.sent bytes := by
    have hout' : ¬(RegCall.set i r bytes).transfer.setup.isIn = true := ne_true_of_eq_false hout
    rw [ControlCall.payload, if_neg hout']
    exact List.take_of_length_le hlen.ge
  have hh : c.device.handled p.facing.app (ctrlSlot (owner i)) (r.setSetup i bytes) (r.sent bytes)
      stack.scratch = (⟨accesses, (tableSet p.app.1 (owner i) f', p.app.2), 0⟩, []) := by
    have hf : (p.facing.app.1 (ctrlSlot (owner i)).ctx).control (r.setSetup i bytes)
        (fun k => (r.sent bytes).getD k 0) (r.sent bytes).length.toUInt16 = ⟨accesses, f', 0⟩ := hcontrol
    rw [PipeDevice.handled, Classes.told, hout]
    simp only [ClassDevice.device, Bool.false_eq_true, if_false, hf]
    rfl
  have hanswer := answer_takes htarget hout hh
  have hafter : c.device.changes p.facing (r.setSetup i bytes) (r.sent bytes) stack.scratch =
      ⟨(tableSet p.app.1 (owner i) f', p.app.2), p.config, []⟩ := by
    rw [changes_class hclass hto, hh]
    rfl
  have hserved : (c.device.serve stack p (.control (RegCall.set i r bytes).transfer)).1 =
      { p with app := (tableSet p.app.1 (owner i) f', p.app.2) } := by
    show p.change (c.device.changes p.facing (r.setSetup i bytes) _ stack.scratch) = _
    rw [hpayload, hafter]
    rfl
  refine ⟨?_, ⟨⟨tableSet p.app.1 (owner i) f', hserved⟩, ?_⟩, ?_⟩
  · have hsetup : (RegCall.set i r bytes).transfer.setup = r.setSetup i bytes := rfl
    rw [PipeDevice.Ready, hsetup, hpayload, PipeDevice.Safe, hanswer]
    refine ⟨inBounds_ret _ _ _ (fun w hw => absurd hw List.not_mem_nil) (by simp) _ _ _, ?_⟩
    rw [htarget, if_neg (ne_true_of_eq_false hout)]
    rintro slot ⟨⟩ a ha
    rw [hh] at ha
    exact hinside a ha
  · rw [hserved]
    funext k r'
    show r'.value (tableSet p.app.1 (owner i) f' k) =
      if k = owner i ∧ r' = r then (r'.value (p.app.1 k)).map (r.store · bytes)
      else r'.value (p.app.1 k)
    unfold tableSet
    by_cases hk : k = owner i
    · subst hk
      rw [if_pos rfl, hregs r']
      by_cases hr : r' = r
      · rw [if_pos hr, if_pos ⟨rfl, hr⟩, hr]
      · rw [if_neg hr, if_neg fun h => hr h.2]
    · rw [if_neg hk, if_neg fun h => hk h.1]
  · show outcomeOf (c.device.answer p.facing (r.setSetup i bytes) _ stack.scratch) _ _ =
      .of 0 (r.sent bytes).length []
    rw [hpayload, hanswer]
    exact outcomeOf_out hout

end

/-- The connection of a driver that reads and writes registers. -/
def registerLink (c : ClassDevice β) (devid : UInt32) :
    Link (Piped ((Nat → Function) × β) × (Nat → Stack)) UInt32 RegCall Outcome UInt8 UInt8 :=
  (pipeLink c.device devid).through (fun q => .control q.transfer) fun _ r => r

section

variable {c : ClassDevice β} {declared : List (UInt8 × Nat)} {owner : UInt8 → Nat}

theorem HasRegs.trans {rest p p' : Pipes ((Nat → Function) × β)} {m m' : Regs} (h : HasRegs rest p m)
    (h' : HasRegs p p' m') : HasRegs rest p' m' := by
  obtain ⟨⟨fns, rfl⟩, -⟩ := h
  obtain ⟨⟨fns', rfl⟩, hregs⟩ := h'
  exact ⟨⟨fns', rfl⟩, hregs⟩

/-- A device whose interfaces lead to their functions serves calls as its registers do. -/
theorem registerLink_carries (devid : UInt32)
    (hroute : ∀ i f, (i, f) ∈ declared → ∀ setup : Setup, setup.recip = 1 → lsb setup.wIndex = i →
      c.described.route setup = some (ctrlSlot f)) (rest : Pipes ((Nat → Function) × β)) :
    (registerLink c devid).Carries
      (fun s m => ∃ t : Pipes ((Nat → Function) × β) × (Nat → Stack),
        (c.device.Mirrors s.1 t.1 ∧ s.2 = t.2) ∧ HasRegs rest t.1 m)
      (serveRegs owner) (Regs.Proper declared owner) := by
  refine (pipeLink_carries c.device devid).through ?_
  rintro ⟨p, frames⟩ m q hm hq
  obtain rfl := hm.regs
  have h : ServedAs c p (frames 0) q (serveRegs owner (regsOf p.app.1) q) := by
    cases q with
    | get i r => exact served_get (hroute i _ hq.owned) hq.had hq.sound _
    | set i r bytes => exact served_set (hroute i _ hq.owned) hq.had hq.sound _
  exact ⟨h.ready, hm.trans h.after, h.outcome⟩

end

/-- A program that reads and writes registers of a device, which was built through the class layer,
gets over the wire what it gets from the registers, and leaves what it leaves in them.  It changes
nothing else. -/
theorem registers_run {header : DeviceHeader} {reg : Option Nat} {acts : List LayerAct}
    {t : LayerTrace} (hguard : Guarded LayerTrace.step LayerTrace.Admits (.new header reg) acts)
    (hbuilt : exec LayerTrace.step (.new header reg) acts = some t) {c : ClassDevice β}
    (hdev : c.described.dev = t.layer.dev) {s : Piped ((Nat → Function) × β)}
    {before : Pipes ((Nat → Function) × β)} (hs : c.device.Mirrors s before) {owner : UInt8 → Nat}
    {α : Type} {p : Calls RegCall Outcome α}
    (hp : p.Meets (serveRegs owner) (Regs.Proper t.declared owner) (regsOf before.app.1))
    (devid seq : UInt32) (frames : Nat → Stack) : ∃ s' frames' seq' fns,
      (registerLink c devid).run ⟨(s, frames), seq, [], []⟩ p =
        some (⟨(s', frames'), seq', [], []⟩, (p.run (serveRegs owner) (regsOf before.app.1)).2) ∧
      c.device.Mirrors s' { before with app := (fns, before.app.2) } ∧
      regsOf fns = (p.run (serveRegs owner) (regsOf before.app.1)).1 := by
  have hordered : t.Ordered := guarded_invariant
    (fun _ _ _ hs hact hstep => LayerTrace.Ordered.step hs hact hstep) (.new header reg) hguard hbuilt
  have hcarries : (registerLink c devid).Carries _ (serveRegs owner) _ := registerLink_carries devid
    (fun i f hmem setup => hordered.delivers.control i f hmem _ setup hdev) before
  obtain ⟨⟨s', frames'⟩, seq', ⟨⟨p', _⟩, ⟨hmirrors, -⟩, ⟨fns, rfl⟩, hregs⟩, hrun⟩ :=
    hcarries.run (s := (s, frames)) ⟨(before, frames), ⟨hs, rfl⟩, ⟨⟨_, rfl⟩, rfl⟩⟩ hp seq
  exact ⟨s', frames', seq', fns, hrun, hmirrors, hregs⟩

/-- A serial port as the first function, and a sound card as the second. -/
def portAndSpeaker : Nat → Function
  | 0 => .cdc ⟨⟨9600, 0, 0, 8⟩, false⟩
  | _ => .uac ⟨fun _ => 0, fun _ => 0⟩

def tune : Calls RegCall Outcome (List UInt8 × List UInt8) :=
  .call (.set 0 .lineCoding [0x00, 0xc2, 0x01, 0x00, 0, 0, 8]) fun _ =>
    .call (.set 1 (.mute 1) [7]) fun _ =>
      .call (.get 0 .lineCoding) fun coding =>
        .call (.get 1 (.mute 1)) fun mute => .done (coding.data, mute.data)

/-- A device on which no transfer has been made, and no callback is set. -/
def quiet (dev : Device) : ClassDevice Unit where
  described := { withFallback with dev }
  setAlt _ _ _ _ := ((), [])
  hasOnOut _ := false
  onOut _ _ _ := ((), [])
  stray _ _ := none

theorem registers_run_tune : ∃ t,
    exec LayerTrace.step (.new ⟨0, 0, 0, 0, 0, 0, 0, 0, 0⟩ (some 0)) LayerTrace.compositeRun = some t ∧
    ∃ s frames seq, (registerLink (quiet t.layer.dev) 0x10001).run
        ⟨(⟨(portAndSpeaker, ()), fun _ => .new false, 0⟩, fun _ => ⟨.zero, fun _ => 0⟩), 0, [], []⟩
        tune =
      some (⟨(s, frames), seq, [], []⟩, ([0x00, 0xc2, 0x01, 0x00, 0, 0, 8], [1])) := by
  have hdeclared : (exec LayerTrace.step (.new ⟨0, 0, 0, 0, 0, 0, 0, 0, 0⟩ (some 0))
      LayerTrace.compositeRun).map (·.declared) = some [(0, 0), (1, 1), (0, 0)] := by
    decide +kernel
  obtain ⟨t, ht, hd⟩ := Option.map_eq_some_iff.mp hdeclared
  have hp : tune.Meets (serveRegs fun i => i.toNat) (Regs.Proper t.declared fun i => i.toNat)
      (regsOf portAndSpeaker) := by
    rw [hd]
    refine ⟨⟨?_, rfl, ?_⟩, ⟨?_, rfl, ?_⟩, ⟨?_, rfl, ?_⟩, ⟨?_, rfl, ?_⟩, trivial⟩ <;> decide
  have hmirrors : (quiet t.layer.dev).device.Mirrors
      ⟨(portAndSpeaker, ()), fun _ => .new false, 0⟩ ⟨(portAndSpeaker, ()), 0, fun _ => .empty⟩ :=
    ⟨rfl, rfl, fun _ => .new false, fun _ => rfl⟩
  obtain ⟨s, frames, seq, -, hrun, -⟩ := registers_run (by decide +kernel) ht rfl hmirrors hp 0x10001
    0 fun _ => ⟨.zero, fun _ => 0⟩
  exact ⟨t, ht, s, frames, seq, hrun⟩

end Usbip.Host
