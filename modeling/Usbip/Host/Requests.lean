import Usbip.Control.Consistent
import Usbip.Host.Session
import Usbip.Libusb.Async

/-! The requests that the libusb wrapper makes of its own, and the answers of the core to them. -/

namespace Usbip.Host

open Lib Wire Control
open Libusb (libusbErrorInvalidParam)

def libusbErrorIo : Int := -1
def libusbErrorNoMem : Int := -11

/-- A control request that reads. -/
def ControlCall.read (bReq : UInt8) (wValue wIndex wLen : UInt16) : ControlCall where
  setup := ⟨0x80, bReq, wValue, wIndex, wLen⟩
  buf := []
  filled h := by simp [Setup.isIn] at h

theorem ControlCall.isIn_read (bReq : UInt8) (wValue wIndex wLen : UInt16) :
    (read bReq wValue wIndex wLen).setup.isIn = true := by
  simp [read, Setup.isIn]

/-- `GET_DESCRIPTOR`. -/
def getDescriptor (type index : UInt8) (wIndex wLen : UInt16) : ControlCall :=
  .read 0x06 (type.toUInt16 <<< 8 ||| index.toUInt16) wIndex wLen

theorem wValue_toNat (type index : UInt8) :
    (type.toUInt16 <<< 8 ||| index.toUInt16).toNat = type.toNat * 256 + index.toNat := by
  have htype := type.toNat_lt
  have hindex := index.toNat_lt
  have hhigh : (type.toUInt16 <<< 8).toNat = type.toNat <<< 8 := by
    simp [UInt16.toNat_shiftLeft, Nat.shiftLeft_eq]
    omega
  rw [UInt16.toNat_or, hhigh, UInt8.toNat_toUInt16, ← Nat.shiftLeft_add_eq_or_of_lt hindex,
    Nat.shiftLeft_eq]

/-- The core looks for the descriptor that is asked for. -/
theorem wValue_bytes (type index : UInt8) : msb (type.toUInt16 <<< 8 ||| index.toUInt16) = type ∧
    lsb (type.toUInt16 <<< 8 ||| index.toUInt16) = index := by
  have htype := type.toNat_lt
  have hindex := index.toNat_lt
  have hvalue := wValue_toNat type index
  refine ⟨UInt8.toNat_inj.mp ?_, UInt8.toNat_inj.mp ?_⟩
  · simp only [msb, UInt16.toNat_toUInt8, UInt16.toNat_shiftRight, hvalue]
    show (type.toNat * 256 + index.toNat) >>> 8 % 256 = type.toNat
    rw [Nat.shiftRight_eq_div_pow]
    omega
  · simp only [lsb, UInt16.toNat_toUInt8, hvalue]
    omega

theorem asked_getDescriptor (d : Described) (type index : UInt8) (wIndex wLen : UInt16) :
    d.asked (getDescriptor type index wIndex wLen).setup =
      if type = 1 then some .device
      else if type = 2 then some .config
      else if type = 3 then some (d.askedString index)
      else if type = 0x0f ∧ (d.msos.length ≠ 0 ∨ d.dev.webusb) then some .bos
      else if type < 0x21 then some .unsupported
      else none := by
  obtain ⟨hmsb, hlsb⟩ := wValue_bytes type index
  have hreq : (getDescriptor type index wIndex wLen).setup.reqType = 0 :=
    (by decide : ((0x80 : UInt8) >>> 5) &&& 3 = 0)
  rw [Described.asked, if_pos hreq, Described.askedStandard]
  simp only [getDescriptor, ControlCall.read, if_true, Described.askedDescriptor, hmsb, hlsb]

/-- What `libusb_get_string_descriptor_ascii` makes of its answer, for a caller with `length` bytes of
room: the return value, and the characters before the NUL. -/
def asciiReply (length : Nat) (got : Outcome) : Int × List UInt8 :=
  if got.rc < 0 then (got.rc, [])
  else if got.actual < 2 ∨ byteAt got.data 1 ≠ 3 then (libusbErrorIo, [])
  else
    let count := min (byteAt got.data 0).toNat got.actual.toNat
    let text := (asciiOf ((got.data.take count).drop 2)).take (length - 1)
    (text.length, text)

def libusbGetStringDescriptorAscii (index : UInt8) (length : Nat) :
    Calls ControlCall Outcome (Int × List UInt8) :=
  if length < 1 then .done (libusbErrorInvalidParam, [])
  else .call (getDescriptor 3 index 0x0409 256) fun got => .done (asciiReply length got)

section

variable {σ : Type} {dev : ControlDevice σ} {st : σ} {q : ControlCall} {asked : Asked}

theorem readout_take (c : Nat → UInt8) (n k : Nat) : (readout c n).take k = readout c (min n k) := by
  rw [readout, readout, ← List.map_take, List.take_range, Nat.min_comm]

/-- The core answers a reading request with what it has built, cut to `wLength`. -/
theorem serve_answer {built : Built} (hasked : (dev.described st).asked q.setup = some asked)
    (hkeeps : changes asked = false) (hanswer : (dev.described st).answer asked = some built)
    (hin : q.setup.isIn = true) (stack : Stack) :
    dev.serve stack st q = (st, .of 0 (min built.len q.setup.wLength.toNat : Nat)
      ((built.reply stack.scratch).take q.setup.wLength.toNat)) := by
  have hafter : dev.after st q.setup q.payload = st := by
    rw [ControlDevice.after, hasked]
    simp only [hkeeps, Bool.false_eq_true, if_false]
  have hhandle : dev.handle st q.setup q.payload =
      .ret q.setup q.payload built.stores none 0 built.len ((dev.described st).configAfter asked) := by
    rw [ControlDevice.handle, handleControl, hasked]
    simp only [hanswer]
  rw [ControlDevice.serve, hafter, hhandle, outcomeOf, if_pos hin, Built.reply, readout_take]
  simp only [answerData, Answer.ret, hin, if_true, and_self, ne_eq, not_true, if_false]

/-- What the core does not have is a stall. -/
theorem serve_unsupported (hasked : (dev.described st).asked q.setup = some asked)
    (hkeeps : changes asked = false) (hanswer : (dev.described st).answer asked = none)
    (hin : q.setup.isIn = true) (stack : Stack) :
    dev.serve stack st q = (st, .of usbipStatusStall 0 []) := by
  have hafter : dev.after st q.setup q.payload = st := by
    rw [ControlDevice.after, hasked]
    simp only [hkeeps, Bool.false_eq_true, if_false]
  have hhandle : dev.handle st q.setup q.payload =
      .ret q.setup q.payload [] none usbipStatusStall 0 ((dev.described st).configAfter asked) := by
    rw [ControlDevice.handle, handleControl, hasked]
    simp only [hanswer]
  have hstall : usbipStatusStall ≠ 0 := by decide
  rw [ControlDevice.serve, hafter, hhandle, outcomeOf, if_pos hin]
  simp only [answerData, Answer.ret, hstall, false_and, if_false, ne_eq, not_false_eq_true, if_true,
    readout, List.range_zero, List.map_nil, Int.ofNat_zero]

end

end Usbip.Host
