import Usbip.Classes.Control

/-! A control handler keeps to its buffer exactly when the direction of the request is the one that
its `bRequest` stands for, or the lengths are such that the difference does not matter. -/

namespace Usbip.Classes

open Lib Control Msc
open Device (u16le)

section

variable (setup : Setup) (data : List UInt8)

/-- The size of the buffer that `handle_control` passes. -/
def room : Nat := if setup.isIn then scratchLen else data.length

/-- The bytes of it that the host has supplied. -/
def Supplied (i : Nat) : Prop := ¬setup.isIn ∧ i < data.length

/-- The accesses keep to the buffer: for an OUT request to the payload, for an IN request to the
scratch buffer, of which they read only what they have written. -/
def Safe (accesses : List Access) : Prop :=
  Disciplined (room setup data) (Supplied setup data) accesses

/-- A reply of `n` bytes that the handler writes whatever it is told. -/
def Gives (n : Nat) : Prop := setup.isIn ∨ n ≤ data.length

/-- A payload that the handler reads when it is told `n` bytes or more. -/
def Takes (n : Nat) : Prop := setup.isIn → setup.wLength.toNat < n

end

/-- The request and its lengths are such that the handler keeps to its buffer. -/
def Function.Minds (setup : Setup) (data : List UInt8) : Function → Prop
  | .cdc _ =>
    (setup.bRequest = 0x20 → Takes setup 7) ∧ (setup.bRequest = 0x21 → Gives setup data 7)
  | .msc _ => setup.bRequest = 0xfe → Gives setup data 1
  | .uac st =>
    ∀ idx, uacUnit setup = some idx →
      (msb setup.wValue = 1 →
        (setup.bRequest = 0x01 → Takes setup 1) ∧ (setup.bRequest = 0x81 → Gives setup data 1)) ∧
      (msb setup.wValue = 2 →
        (setup.bRequest = 0x01 → Takes setup 2) ∧
        ((uacVolumeValue st idx setup.bRequest).isSome → Gives setup data 2))
  | .dfu _ _ =>
    setup.reqType = 1 →
      (setup.bRequest = 1 → Takes setup 1) ∧ (setup.bRequest = 3 → Gives setup data 6) ∧
      (setup.bRequest = 5 → Gives setup data 1)
  | .mtp _ => setup.reqType = 1 → setup.bRequest = 0x67 → Gives setup data 4
  | .uvc _ =>
    (setup.bRequest = 0x86 → Gives setup data 1) ∧
    (msb setup.wValue = 1 ∨ msb setup.wValue = 2 →
      (setup.bRequest = 0x85 → Gives setup data 2) ∧
      (setup.bRequest = 0x81 ∨ setup.bRequest = 0x82 ∨ setup.bRequest = 0x83 ∨
        setup.bRequest = 0x87 ∨ setup.bRequest = 0x84 → Gives setup data 34) ∧
      (setup.bRequest = 0x01 → Takes setup 4))
  | .hid st =>
    (setup.reqType = 0 → setup.bRequest = 0x06 → msb setup.wValue = 0x22 → setup.isIn →
      min st.reportDesc.length setup.wLength.toNat ≤ scratchLen) ∧
    (setup.reqType = 1 →
      (setup.bRequest = 0x01 → setup.isIn → ∀ getReport, st.getReport = some getReport →
        ∀ w ∈ (getReport (msb setup.wValue) (lsb setup.wValue) setup.wLength).stores,
          w.Inside scratchLen) ∧
      (setup.bRequest = 0x09 → st.hasSetReport ∨ st.hasOnOutput → Takes setup 1) ∧
      (setup.bRequest = 0x02 ∨ setup.bRequest = 0x03 → Gives setup data 1))
  | .bt _ => True

section

variable {setup : Setup} {data : List UInt8}

end

end Usbip.Classes
