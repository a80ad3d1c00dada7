import Usbip.Control.Filled

/-! `handle_control` answers a control request from its scratch buffer: with a builder of the core,
or with what a registered handler puts there.  What a request does to the endpoints is
`haltRequest`. -/

namespace Usbip

/-- The bytes of a 16-bit field: `USB_U16_LSB` and `USB_U16_MSB`. -/
def lsb (w : UInt16) : UInt8 := w.toUInt8
def msb (w : UInt16) : UInt8 := (w >>> 8).toUInt8

namespace Setup

variable (setup : Setup)

/-- `USB_REQ_TYPE` and `USB_REQ_RECIP`. -/
def reqType : UInt8 := (setup.bmRequestType >>> 5) &&& 3
def recip : UInt8 := setup.bmRequestType &&& 0x1f

def isIn : Bool := setup.bmRequestType &&& 0x80 ≠ 0

end Setup

namespace Control

open Lib

/-- `sizeof(buf)`. -/
def scratchLen : Nat := 4096

/-- A request that the core answers itself. -/
inductive Asked
  | device
  | config
  | langIds
  | osString
  | string (str : Text)
  | bos
  | setConfiguration (value : UInt8)
  | getConfiguration
  | getInterface
  | status (halted : Bool)
  | accept
  | compatId
  | extProps (guid : Option Text)
  | descriptorSet
  | url
  | unsupported
  deriving DecidableEq, Repr

namespace Described

variable (d : Described)

def askedString (idx : UInt8) : Asked :=
  if idx = 0 then .langIds
  else if idx = 0xee ∧ d.msos.length ≠ 0 then .osString
  else
    match d.strings[idx.toNat]? with
    | some (some str) => .string str
    | _ => .unsupported

/-- The case `USB_REQ_GET_DESCRIPTOR`. -/
def askedDescriptor (setup : Setup) : Option Asked :=
  let dt := msb setup.wValue
  if dt = 1 then some .device
  else if dt = 2 then some .config
  else if dt = 3 then some (d.askedString (lsb setup.wValue))
  else if dt = 0x0f ∧ (d.msos.length ≠ 0 ∨ d.dev.webusb) then some .bos
  else if dt < 0x21 then some .unsupported
  else none

/-- The switch over the standard requests. -/
def askedStandard (setup : Setup) : Option Asked :=
  if setup.bRequest = 0x06 then d.askedDescriptor setup
  else if setup.bRequest = 0x09 then some (.setConfiguration (lsb setup.wValue))
  else if setup.bRequest = 0x08 then some .getConfiguration
  else if setup.bRequest = 0x0a then some .getInterface
  else if setup.bRequest = 0x0b then some .accept
  else if setup.bRequest = 0x00 then
    some (.status (setup.recip = 2 && d.halted (lsb setup.wIndex)))
  else if setup.bRequest = 0x01 ∨ setup.bRequest = 0x03 ∨ setup.bRequest = 0x05 then some .accept
  else none

/-- The vendor requests that belong to the core. -/
def askedVendor (setup : Setup) : Option Asked :=
  let msos := d.msos.length ≠ 0
  if msos ∧ setup.bRequest = d.dev.msos1Vendor ∧ setup.wIndex = 4 then some .compatId
  else if msos ∧ setup.bRequest = d.dev.msos1Vendor ∧ setup.wIndex = 5 then
    some (.extProps ((d.msosEntryForInterface (msb setup.wValue)).bind OsEntry.guid))
  else if msos ∧ setup.bRequest = d.dev.msos2Vendor ∧ setup.wIndex = 7 then some .descriptorSet
  else if d.dev.webusb ∧ setup.bRequest = d.webusbVendor ∧ setup.wIndex = 2 then some .url
  else none

/-- What the core answers itself, and `none` where `core_handled` stays 0. -/
def asked (setup : Setup) : Option Asked :=
  if setup.reqType = 0 then d.askedStandard setup
  else if setup.isIn ∧ setup.reqType = 2 then d.askedVendor setup
  else none

/-- The answer of the core, and `none` for a stall. -/
def answer : Asked → Option Built
  | .device => some d.buildDeviceDesc
  | .config => some (d.buildConfigDesc scratchLen)
  | .langIds => some langIds
  | .osString => some d.msos1String
  | .string str => some (stringDesc str)
  | .bos => some d.buildBosDesc
  | .setConfiguration _ => some ⟨[], 0⟩
  | .getConfiguration => some ⟨[⟨0, [d.config]⟩], 1⟩
  | .getInterface => some ⟨[⟨0, [0]⟩], 1⟩
  | .status halted =>
    some ⟨[⟨0, [0]⟩, ⟨1, [0]⟩] ++ if halted then [⟨0, [1]⟩] else [], 2⟩
  | .accept => some ⟨[], 0⟩
  | .compatId => some d.msos1Compatid
  | .extProps guid =>
    if int32 (msos1ExtpropsSize guid) ≤ scratchLen then some (msos1Extprops guid) else none
  | .descriptorSet => if int32 d.msos2SetSize ≤ scratchLen then some d.msos2Set else none
  | .url => some (buildWebusbUrl d.webusbUrl)
  | .unsupported => none

/-- `dev->config` after the request. -/
def configAfter : Asked → UInt8
  | .setConfiguration value => value
  | _ => d.config

def route (setup : Setup) : Option CtrlSlot :=
  let ifnum := (lsb setup.wIndex).toNat
  if setup.recip = 1 ∧ ifnum < 16 ∧ (d.dev.ctrl ifnum).cb.isSome then some (d.dev.ctrl ifnum)
  else if d.dev.ctrlDefault.cb.isSome then some d.dev.ctrlDefault
  else none

end Described

/-! ### Registered handlers -/

/-- What a handler does with a buffer of `len` bytes to fill, under its contract. -/
structure Filling (len : Nat) where
  stores : List Store
  rc : Int
  inside : ∀ w ∈ stores, w.Inside len
  rc_le : rc ≤ len

/-- Nothing is stored, and no length is returned. -/
def Filling.nothing (len : Nat) : Filling len where
  stores := []
  rc := 0
  inside _ hw := absurd hw List.not_mem_nil
  rc_le := Int.natCast_nonneg len

/-- A `usbip_device_control_fn`, as it behaves when a request comes in. -/
structure Handler where
  fill : Setup → (len : UInt16) → Filling len.toNat
  take : Setup → List UInt8 → (len : UInt16) → Int

/-- What `handle_control` writes, what it tells a handler, and what the `RET_SUBMIT` carries. -/
structure Answer where
  /-- the writes in the scratch buffer -/
  stores : List Store
  /-- the length that a handler is told, and that of the buffer that it gets -/
  told : Option (Nat × Nat)
  status : Int
  /-- `reply_len` before it is cut to `wLength` -/
  produced : Nat
  /-- the bytes of the scratch buffer that are sent -/
  sent : Nat
  actualLength : Nat
  config : UInt8

/-- The end of `handle_control`. -/
def Answer.ret (setup : Setup) (data : List UInt8) (stores : List Store)
    (told : Option (Nat × Nat)) (status : Int) (replyLen : Nat) (config : UInt8) : Answer :=
  let sent := if status = 0 ∧ setup.isIn then min replyLen setup.wLength.toNat else 0
  { stores, told, status, produced := replyLen, sent, config
    actualLength := if status ≠ 0 then 0 else if setup.isIn then sent else data.length }

/-- `handle_control`, with `data` the payload of an OUT request. -/
def handleControl (d : Described) (call : CtrlSlot → Handler) (setup : Setup)
    (data : List UInt8) : Answer :=
  match d.asked setup with
  | some asked =>
    match d.answer asked with
    | some built => .ret setup data built.stores none 0 built.len (d.configAfter asked)
    | none => .ret setup data [] none usbipStatusStall 0 (d.configAfter asked)
  | none =>
    match d.route setup with
    | none => .ret setup data [] none usbipStatusStall 0 d.config
    | some slot =>
      if setup.isIn then
        let filling := (call slot).fill setup setup.wLength
        let status := if filling.rc < 0 then usbipStatusStall else 0
        .ret setup data filling.stores (some (setup.wLength.toNat, scratchLen)) status
          filling.rc.toNat d.config
      else
        let len := data.length.toUInt16
        let status := if (call slot).take setup data len < 0 then usbipStatusStall else 0
        .ret setup data [] (some (len.toNat, data.length)) status 0 d.config

/-- The answer stays in the scratch buffer and sends only what was produced. -/
structure Answer.Contained (a : Answer) (setup : Setup) : Prop where
  inside : ∀ w ∈ a.stores, w.Inside scratchLen
  told : ∀ t ∈ a.told, t.1 ≤ t.2
  sent : a.sent ≤ min setup.wLength.toNat a.produced
  /-- what the core produces, it has written -/
  written : a.told = none → ∀ i < a.produced, ∃ w ∈ a.stores, w.off ≤ i ∧ i < w.stop

/-- The size of an answer of the core is one that the scratch buffer holds. -/
def Described.Holds (d : Described) : Asked → Prop
  | .string str => str.length ≤ 2047
  | .url => (stripScheme d.webusbUrl.val).2.length ≤ 4093
  | .extProps guid =>
    int32 (msos1ExtpropsSize guid) ≤ scratchLen → msos1ExtpropsBytes guid ≤ scratchLen
  | .descriptorSet => int32 d.msos2SetSize ≤ scratchLen → d.msos2SetBytes ≤ scratchLen
  | _ => True

/-- The request fits the scratch buffer: the answer of the core does, and a handler that has to
fill the buffer is asked for no more than it holds. -/
def Described.Fits (d : Described) (setup : Setup) : Prop :=
  match d.asked setup with
  | some asked => d.Holds asked
  | none => setup.isIn → (d.route setup).isSome → setup.wLength.toNat ≤ scratchLen

/-! ### The answers of the core -/

section

variable {d : Described} {setup : Setup} {data : List UInt8} {asked : Asked} {built : Built}

theorem statusReply_exact (halted : Bool) :
    Built.Exact ⟨[⟨0, [0]⟩, ⟨1, [0]⟩] ++ if halted then [⟨0, [1]⟩] else [], 2⟩ := by
  have hzero : Fills [⟨0, [0]⟩, ⟨1, [0]⟩] 0 2 := by
    constructor <;> simp [Store.stop]
    omega
  refine hzero.overwrite fun w hw => ?_
  cases halted with
  | false => exact absurd hw List.not_mem_nil
  | true =>
    rw [List.mem_singleton.mp hw]
    decide

theorem byteReply_exact (b : UInt8) : Built.Exact ⟨[⟨0, [b]⟩], 1⟩ := by
  constructor <;> simp [Store.stop]

/-- The core writes each byte of its answer, and nothing outside it. -/
theorem answer_exact (h : d.answer asked = some built) : built.Exact := by
  cases asked <;> simp only [Described.answer] at h
  case device => cases h; exact buildDeviceDesc_exact d
  case config => cases h; exact buildConfigDesc_exact d (by decide)
  case langIds => cases h; exact langIds_exact
  case osString => cases h; exact msos1String_exact d
  case string str => cases h; exact stringDesc_exact str
  case bos => cases h; exact buildBosDesc_exact d
  case setConfiguration => cases h; exact Built.Exact.nil
  case getConfiguration => cases h; exact byteReply_exact d.config
  case getInterface => cases h; exact byteReply_exact 0
  case status halted => cases h; exact statusReply_exact halted
  case accept => cases h; exact Built.Exact.nil
  case compatId => cases h; exact msos1Compatid_exact d
  case extProps guid =>
    split at h
    · cases h; exact msos1Extprops_exact guid
    · cases h
  case descriptorSet =>
    split at h
    · cases h; exact msos2Set_exact d
    · cases h
  case url => cases h; exact buildWebusbUrl_exact d.webusbUrl
  case unsupported => cases h

theorem answer_len_le_iff (d : Described) (asked : Asked) :
    (∀ built, d.answer asked = some built → built.len ≤ scratchLen) ↔ d.Holds asked := by
  have hguard {size : UInt32} {bytes : Nat} {b : Built} (hlen : b.len = bytes) :
      (∀ built, (if int32 size ≤ scratchLen then some b else none) = some built →
        built.len ≤ scratchLen) ↔ (int32 size ≤ scratchLen → bytes ≤ scratchLen) := by
    split
    · simp [*]
    · simp [*]
  cases asked <;> simp only [Described.answer, Described.Holds, Option.some.injEq, forall_eq',
    iff_true, reduceCtorEq, false_implies, implies_true]
  case device => exact (by decide : 18 ≤ scratchLen)
  case config => exact buildConfigDesc_len_le d scratchLen
  case langIds => decide
  case osString => exact (by decide : 18 ≤ scratchLen)
  case string str =>
    simp only [Described.stringDesc, scratchLen]
    omega
  case bos => exact Nat.le_trans (buildBosDesc_len_le d) (by decide)
  case setConfiguration => decide
  case getConfiguration => decide
  case getInterface => decide
  case status => decide
  case accept => decide
  case compatId => exact Nat.le_trans (msos1Compatid_len_le d) (by decide)
  case extProps guid => exact hguard (msos1Extprops_len guid)
  case descriptorSet => exact hguard (msos2Set_len d)
  case url =>
    simp only [buildWebusbUrl, scratchLen]
    omega

theorem ret_sent_le (stores : List Store) (told : Option (Nat × Nat)) (status : Int)
    (replyLen : Nat) (config : UInt8) :
    (Answer.ret setup data stores told status replyLen config).sent ≤
      min setup.wLength.toNat replyLen := by
  simp only [Answer.ret]
  split <;> omega

theorem contained_stall (config : UInt8) :
    (Answer.ret setup data [] none usbipStatusStall 0 config).Contained setup where
  inside _ h := absurd h List.not_mem_nil
  told _ h := absurd h (by simp [Answer.ret])
  sent := ret_sent_le ..
  written _ i h := absurd h (Nat.not_lt_zero i)

/-- The answer of the core is contained exactly when the scratch buffer holds it. -/
theorem contained_core_iff (hbuilt : built.Exact) (config : UInt8) :
    (Answer.ret setup data built.stores none 0 built.len config).Contained setup ↔
      built.len ≤ scratchLen := by
  rw [← hbuilt.inside_iff]
  constructor
  · exact fun h => h.inside
  · intro hinside
    exact
      { inside := hinside
        told := fun _ h => absurd h (by simp [Answer.ret])
        sent := ret_sent_le ..
        written := fun _ i hi => hbuilt.covered i (Nat.zero_le i) hi }

/-- What a handler fills is contained exactly when it was told no more than the buffer holds. -/
theorem contained_filling_iff (filling : Filling setup.wLength.toNat) (status : Int)
    (config : UInt8) :
    (Answer.ret setup data filling.stores (some (setup.wLength.toNat, scratchLen)) status
      filling.rc.toNat config).Contained setup ↔ setup.wLength.toNat ≤ scratchLen := by
  constructor
  · exact fun h => h.told _ rfl
  · intro hle
    exact
      { inside := fun w hw => (filling.inside w hw).imp_right fun h => Nat.le_trans h hle
        told := by
          rintro t ⟨⟩
          exact hle
        sent := ret_sent_le ..
        written := fun h => absurd h (by simp [Answer.ret]) }

/-- The payload that a handler takes has the length that it is told, at least. -/
theorem contained_take (status : Int) (config : UInt8) :
    (Answer.ret setup data [] (some (data.length.toUInt16.toNat, data.length)) status 0
      config).Contained setup where
  inside _ h := absurd h List.not_mem_nil
  told := by
    rintro t ⟨⟩
    exact Nat.mod_le data.length (2 ^ 16)
  sent := ret_sent_le ..
  written h := absurd h (by simp [Answer.ret])

end

/-- Every byte that answers a control request falls inside the scratch buffer, a handler is told no
more than the buffer holds, and the reply carries what was asked for and produced at most, exactly
when the request fits. -/
theorem contained_iff_fits (d : Described) (call : CtrlSlot → Handler) (setup : Setup)
    (data : List UInt8) : (handleControl d call setup data).Contained setup ↔ d.Fits setup := by
  rw [handleControl, Described.Fits]
  cases d.asked setup with
  | some asked =>
    dsimp only
    rw [← answer_len_le_iff]
    cases hanswer : d.answer asked with
    | some built => simpa using contained_core_iff (answer_exact hanswer) _
    | none => simpa using contained_stall _
  | none =>
    cases d.route setup with
    | none => simpa using contained_stall d.config
    | some slot =>
      by_cases hin : setup.isIn = true
      · simpa [hin] using contained_filling_iff _ _ _
      · simpa [hin] using contained_take _ _

/-- A handler that fills the whole buffer that it is told of. -/
def fillAll : Handler where
  fill _ len :=
    { stores := [⟨0, List.replicate len.toNat 0⟩]
      rc := len.toNat
      inside := by simp [Store.Inside, Store.stop]
      rc_le := Int.le_refl _ }
  take _ _ _ := 0

/-- A device with a handler for every request that the core leaves. -/
def withFallback : Described where
  dev := (Device.create ⟨0, 0, 0, 0, 0, 0, 0, 0, 0⟩).onControl (-1) ⟨some 0, 0⟩
  strings := []
  msos := []
  webusbVendor := 0
  webusbUrl := ⟨[], by decide⟩
  config := 0
  halted _ := false

/-- A vendor request for 65535 bytes makes the handler write behind the scratch buffer. -/
theorem contained_fails :
    ¬ ∀ (d : Described) (call : CtrlSlot → Handler) (setup : Setup) (data : List UInt8),
      (handleControl d call setup data).Contained setup := by
  intro h
  have hle := (h withFallback (fun _ => fillAll) ⟨0xc0, 1, 0, 0, 65535⟩ []).told (65535, 4096) rfl
  exact absurd hle (by decide)

end Control

end Usbip
