import Usbip.Control.Partition

/-! The lengths that the core's own descriptors tell of themselves, and the strings that a host
reads back.  The length of a string or of a URL is put in one byte. -/

namespace Usbip.Control

open Lib
open Device (u16le)

def bLength (bytes : List UInt8) : Nat := (bytes.headD 0).toNat

/-- The loop of `libusb_get_string_descriptor_ascii`. -/
def asciiOf : List UInt8 → List UInt8
  | lo :: hi :: rest => (if hi ≠ 0 then 0x3f else lo) :: asciiOf rest
  | _ => []

/-- What `libusb_get_string_descriptor_ascii` makes of the descriptor, for a caller who has room. -/
def getStringDescriptorAscii (bytes : List UInt8) : List UInt8 :=
  asciiOf ((bytes.take (min (bLength bytes) bytes.length)).drop 2)

/-- The bytes of a BOS descriptor are its header and its capabilities. -/
def BosWhole (bos : List UInt8) : Prop :=
  bLength bos = 5 ∧ le16At bos 2 = bos.length ∧
    ∃ caps, cut bLength (bos.drop 5) = some caps ∧ caps.flatten = bos.drop 5 ∧
      (bos.getD 4 0).toNat = caps.length

/-- A descriptor that the core returns tells its own length, and gives back the string. -/
def SelfConsistent : Asked → List UInt8 → Prop
  | .device, bytes | .langIds, bytes | .osString, bytes | .url, bytes => bLength bytes = bytes.length
  | .string str, bytes =>
    bLength bytes = bytes.length ∧ getStringDescriptorAscii bytes = str.val
  | .bos, bytes => BosWhole bytes
  | _, _ => True

/-- The length of the descriptor is that of a byte. -/
def Described.Short (d : Described) : Asked → Prop
  | .string str => str.length ≤ 126
  | .url => (stripScheme d.webusbUrl.val).2.length ≤ 252
  | _ => True

/-- What has been produced before it is cut to `wLength`, in a scratch buffer that held `c`. -/
def Answer.image (a : Answer) (c : Nat → UInt8) : List UInt8 := readout (putAll a.stores c) a.produced

/-- Every descriptor that the core returns for the request. -/
def Described.Consistent (d : Described) (setup : Setup) : Prop :=
  ∀ asked, d.asked setup = some asked → ∀ call data c,
    (handleControl d call setup data).status = 0 →
      SelfConsistent asked ((handleControl d call setup data).image c)

/-! ### The bytes of the descriptors -/

section

variable {d : Described} {c : Nat → UInt8}

theorem buildDeviceDesc_reply (d : Described) (c : Nat → UInt8) :
    d.buildDeviceDesc.reply c = d.dev.buildDeviceDesc :=
  Built.reply_eq (.single _ _) (by simp [Described.buildDeviceDesc, Device.buildDeviceDesc]) c

theorem langIds_reply (c : Nat → UInt8) :
    Described.langIds.reply c = [4] ++ ([3] ++ ([0x09] ++ [0x04])) :=
  Built.reply_eq (.cons _ <| .cons _ <| .cons _ <| .single _ _) rfl c

theorem msos1String_reply (d : Described) (c : Nat → UInt8) :
    d.msos1String.reply c =
      [0x12] ++ ([3] ++ (utf16 msft100 0 ++ ([d.dev.msos1Vendor] ++ [0]))) :=
  Built.reply_eq (.cons _ <| .cons _ <| .cons _ <| .cons _ <| .single _ _) rfl c

theorem stringDesc_reply (str : Text) (c : Nat → UInt8) :
    (Described.stringDesc str).reply c =
      [(2 + 2 * str.length).toUInt8] ++ ([3] ++ utf16 str.val 0) := by
  refine Built.reply_eq (.cons _ <| .cons _ <| .single _ _) ?_ c
  simp only [Described.stringDesc, List.length_append, List.length_singleton, utf16_length,
    utf16Bytes, Text.length]
  omega

theorem buildWebusbUrl_reply (url : Text) (c : Nat → UInt8) :
    (buildWebusbUrl url).reply c =
      [(3 + (stripScheme url.val).2.length).toUInt8] ++ ([3] ++ ([(stripScheme url.val).1] ++
        (stripScheme url.val).2)) := by
  refine Built.reply_eq (.cons _ <| .cons _ <| .cons _ <| .single _ _) ?_ c
  simp only [buildWebusbUrl, List.length_append, List.length_singleton]
  omega

/-! ### One byte for a length -/

theorem toUInt8_toNat_iff (n : Nat) : n.toUInt8.toNat = n ↔ n < 256 := by
  rw [show n.toUInt8.toNat = n % 256 from rfl, Nat.mod_eq_iff_lt (by decide)]

/-- The string that a host reads is the one that was put there. -/
theorem asciiOf_utf16 (str : List UInt8) : asciiOf (utf16 str 0) = str := by
  rw [utf16, Nat.mul_zero, List.replicate_zero, List.append_nil]
  induction str with
  | nil => rfl
  | cons a str ih =>
    rw [List.flatMap_cons]
    exact congrArg (a :: ·) ih

theorem stringDesc_consistent_iff (str : Text) (c : Nat → UInt8) :
    SelfConsistent (.string str) ((Described.stringDesc str).reply c) ↔ str.length ≤ 126 := by
  have hlen : ([(2 + 2 * str.length).toUInt8] ++ ([3] ++ utf16 str.val 0)).length =
      2 + 2 * str.length := by
    simp only [List.length_append, List.length_singleton, utf16_length, utf16Bytes, Text.length]
    omega
  rw [SelfConsistent, stringDesc_reply, getStringDescriptorAscii, hlen]
  have htells := toUInt8_toNat_iff (2 + 2 * str.length)
  constructor
  · rintro ⟨h, -⟩
    have := htells.mp h
    omega
  · intro hshort
    have h : bLength ([(2 + 2 * str.length).toUInt8] ++ ([3] ++ utf16 str.val 0)) =
        2 + 2 * str.length := htells.mpr (by omega)
    refine ⟨h, ?_⟩
    rw [h, Nat.min_self, List.take_of_length_le (Nat.le_of_eq hlen)]
    exact asciiOf_utf16 str.val

theorem buildWebusbUrl_consistent_iff (url : Text) (c : Nat → UInt8) :
    SelfConsistent .url ((buildWebusbUrl url).reply c) ↔ (stripScheme url.val).2.length ≤ 252 := by
  have htells := toUInt8_toNat_iff (3 + (stripScheme url.val).2.length)
  have hlen : ([(3 + (stripScheme url.val).2.length).toUInt8] ++ ([3] ++ ([(stripScheme url.val).1] ++
      (stripScheme url.val).2))).length = 3 + (stripScheme url.val).2.length := by
    simp only [List.length_append, List.length_singleton]
    omega
  rw [SelfConsistent, buildWebusbUrl_reply, hlen]
  refine htells.trans ?_
  omega

/-- The header of the BOS descriptor tells the whole length, and the capabilities divide the rest.
-/
theorem buildBosDesc_whole (d : Described) (c : Nat → UInt8) : BosWhole (d.buildBosDesc.reply c) := by
  obtain ⟨hwrites, hlen⟩ := d.buildBosDesc_writes
  have hsmall : d.buildBosDesc.len < 2 ^ 16 :=
    Nat.lt_of_le_of_lt (buildBosDesc_len_le d) (by decide)
  rw [Built.reply_eq hwrites hlen]
  refine ⟨rfl, ?_, d.bosCaps, cut_flatten d.bosCaps_measured, rfl, ?_⟩
  · rw [← hlen]
    exact le16At_append ([5] ++ [0x0f]) rfl hsmall _
  · show ((if d.dev.webusb then 1 else 0) + if d.msos.length ≠ 0 then 1 else 0 : UInt8).toNat = _
    rw [Described.bosCaps]
    by_cases hwebusb : d.dev.webusb = true
    · by_cases hmsos : d.msos.length ≠ 0
      · simp only [if_pos hwebusb, if_pos hmsos]
        rfl
      · simp only [if_pos hwebusb, if_neg hmsos]
        rfl
    · by_cases hmsos : d.msos.length ≠ 0
      · simp only [if_neg hwebusb, if_pos hmsos]
        rfl
      · simp only [if_neg hwebusb, if_neg hmsos]
        rfl

/-! ### Every request -/

theorem answer_consistent_iff {asked : Asked} {built : Built} (h : d.answer asked = some built)
    (c : Nat → UInt8) : SelfConsistent asked (built.reply c) ↔ d.Short asked := by
  cases asked
  case device =>
    cases h
    rw [buildDeviceDesc_reply]
    exact iff_of_true rfl trivial
  case langIds =>
    cases h
    rw [langIds_reply]
    exact iff_of_true rfl trivial
  case osString =>
    cases h
    rw [msos1String_reply]
    exact iff_of_true rfl trivial
  case string str =>
    cases h
    exact stringDesc_consistent_iff str c
  case bos =>
    cases h
    exact iff_of_true (buildBosDesc_whole d c) trivial
  case url =>
    cases h
    exact buildWebusbUrl_consistent_iff d.webusbUrl c
  all_goals exact iff_of_true trivial trivial

theorem handleControl_image {setup : Setup} {asked : Asked} {built : Built}
    (hasked : d.asked setup = some asked) (h : d.answer asked = some built)
    (call : CtrlSlot → Handler) (data : List UInt8) (c : Nat → UInt8) :
    (handleControl d call setup data).status = 0 ∧
      (handleControl d call setup data).image c = built.reply c := by
  rw [handleControl, hasked]
  dsimp only
  rw [h]
  exact ⟨rfl, rfl⟩

theorem handleControl_stall {setup : Setup} {asked : Asked} (hasked : d.asked setup = some asked)
    (h : d.answer asked = none) (call : CtrlSlot → Handler) (data : List UInt8) :
    (handleControl d call setup data).status ≠ 0 := by
  rw [handleControl, hasked]
  dsimp only
  rw [h]
  exact (by decide : usbipStatusStall ≠ 0)

end

/-- Whatever a device is configured to and a host asks for, the descriptor that the core returns is
consistent exactly when its length is that of a byte. -/
theorem consistent_iff_short (d : Described) (setup : Setup) :
    d.Consistent setup ↔ ∀ asked, d.asked setup = some asked → d.Short asked := by
  refine forall₂_congr fun asked hasked => ?_
  cases h : d.answer asked with
  | none =>
    refine iff_of_true (fun call data c hstatus => ?_) ?_
    · exact absurd hstatus (handleControl_stall hasked h call data)
    · cases asked
      case string str => cases h
      case url => cases h
      all_goals trivial
  | some built =>
    constructor
    · intro hall
      obtain ⟨hstatus, himage⟩ := handleControl_image hasked h (fun _ => fillAll) [] fun _ => 0
      have := hall (fun _ => fillAll) [] (fun _ => 0) hstatus
      rw [himage] at this
      exact (answer_consistent_iff h _).mp this
    · intro hshort call data c _
      rw [(handleControl_image hasked h call data c).2]
      exact (answer_consistent_iff h c).mpr hshort

def longText : Text := ⟨List.replicate 127 0x61, by simp⟩

/-- A device with a string of 127 characters. -/
def longString : Described := { withFallback with strings := [none, some longText] }

/-- The length of its descriptor, 256, is told as 0. -/
theorem consistent_fails : ¬∀ (d : Described) (setup : Setup), d.Consistent setup := by
  intro h
  have hasked : longString.asked ⟨0x80, 6, 0x0301, 0x0409, 255⟩ = some (.string longText) := rfl
  obtain ⟨hstatus, himage⟩ := handleControl_image hasked rfl (fun _ => fillAll) [] fun _ => 0
  have hself := h longString _ _ hasked (fun _ => fillAll) [] (fun _ => 0) hstatus
  rw [himage] at hself
  have hshort := (stringDesc_consistent_iff longText _).mp hself
  rw [Text.length, longText, List.length_replicate] at hshort
  omega

end Usbip.Control
