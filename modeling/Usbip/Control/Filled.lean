import Usbip.Control.Reply

/-! Every builder of `handle_control` writes each byte of the reply that it returns, and nothing
outside it; the size functions agree with the builders that they stand for. -/

namespace Usbip.Control

open Lib
open Device (u16le)

/-- The writes of a builder are those of its reply, each byte of it. -/
def Built.Exact (b : Built) : Prop := Fills b.stores 0 b.len

@[simp] theorem u16le_length (w : UInt16) : (u16le w).length = 2 := rfl
@[simp] theorem u32le_length (w : UInt32) : (u32le w).length = 4 := rfl

@[simp] theorem utf16_length (str : List UInt8) (nNul : Nat) :
    (utf16 str nNul).length = utf16Bytes str nNul := by
  have h : (str.flatMap fun c => [c, (0 : UInt8)]).length = 2 * str.length := by
    induction str with
    | nil => rfl
    | cons c str ih =>
      rw [List.flatMap_cons, List.length_append, ih, List.length_cons]
      exact Nat.add_comm 2 (2 * str.length)
  rw [utf16, List.length_append, h, List.length_replicate, utf16Bytes, Nat.mul_add]

namespace Built.Exact

variable {s t : List Store} {a b n m : Nat}

/-- A reply that a header and a body make, the header written last. -/
theorem headed (hs : Fills s 0 n) (ht : Fills t n m) (hnm : n ≤ m) : Exact ⟨t ++ s, m⟩ :=
  (hs.append ht (Nat.zero_le n) hnm).perm List.perm_append_comm

/-- A reply behind a header that is written last. -/
theorem behind {body : Built} (hbody : body.Exact) (hs : Fills s 0 n) :
    Exact ⟨body.stores.map (Store.shift n) ++ s, n + body.len⟩ :=
  headed hs (Fills.shift hbody n) (Nat.le_add_right n body.len)

theorem nil : Exact ⟨[], 0⟩ := Fills.nil 0

end Built.Exact

theorem buildDeviceDesc_exact (d : Described) : d.buildDeviceDesc.Exact := by
  constructor <;> simp [Described.buildDeviceDesc, Store.stop, Device.buildDeviceDesc]

theorem buildConfigDesc_exact (d : Described) {cap : Nat} (hcap : 9 ≤ cap) :
    (d.buildConfigDesc cap).Exact := by
  constructor <;> simp [Described.buildConfigDesc, Store.stop] <;> omega

theorem buildConfigDesc_len_le (d : Described) (cap : Nat) : (d.buildConfigDesc cap).len ≤ cap :=
  Nat.min_le_right _ _

theorem msos1String_exact (d : Described) : d.msos1String.Exact := by
  constructor
  · simp [Described.msos1String, Store.stop, utf16Bytes, msft100]
  · simp [Described.msos1String, Store.stop, utf16Bytes, msft100]
    omega

theorem langIds_exact : Described.langIds.Exact := by
  constructor
  · simp [Described.langIds, Store.stop]
  · simp [Described.langIds, Store.stop]
    omega

theorem stringDesc_exact (str : Text) : (Described.stringDesc str).Exact := by
  constructor <;> simp [Described.stringDesc, Store.stop, utf16Bytes, Text.length] <;> omega

theorem buildWebusbUrl_exact (url : Text) : (buildWebusbUrl url).Exact := by
  constructor <;> simp [buildWebusbUrl, Store.stop] <;> omega

/-! ### Microsoft OS 1.0 -/

theorem msos1Extprops_exact (guid : Option Text) : (msos1Extprops guid).Exact := by
  cases guid with
  | none =>
    constructor
    · simp [msos1Extprops, Store.stop]
    · simp [msos1Extprops, Store.stop]
      omega
  | some guid =>
    constructor <;> simp [msos1Extprops, Store.stop, utf16Bytes, deviceInterfaceGuid] <;> omega

theorem msos1Extprops_len (guid : Option Text) :
    (msos1Extprops guid).len = msos1ExtpropsBytes guid := by
  cases guid with
  | none => rfl
  | some guid =>
    simp only [msos1Extprops, msos1ExtpropsBytes]
    omega

theorem compatidSections_length_le (d : Described) : d.compatidSections.length ≤ 8 :=
  List.length_take_le _ _

theorem compatidSection_within (first : UInt8) (entry : OsEntry) :
    ∀ w ∈ compatidSection first entry, w.stop ≤ 24 := by
  simp [compatidSection, Store.stop]
  omega

theorem msos1Compatid_exact (d : Described) : d.msos1Compatid.Exact := by
  have hclear : Fills [⟨0, List.replicate d.msos1Compatid.len 0⟩] 0 d.msos1Compatid.len :=
    Fills.cons (by simpa using Fills.nil _) (by simp)
  refine hclear.overwrite fun w hw => ⟨Nat.zero_le _, ?_⟩
  rcases (List.mem_append (s := [_, _, _, _])).mp hw with hw | hw
  · -- the header
    have : 16 ≤ d.msos1Compatid.len := Nat.le_add_right 16 _
    simp only [List.mem_cons, List.not_mem_nil, or_false] at hw
    rcases hw with rfl | rfl | rfl | rfl <;> simp [Store.stop] <;> omega
  · -- a section
    obtain ⟨ws, hws, hw⟩ := List.mem_flatten.mp hw
    obtain ⟨i, hi, rfl⟩ := List.mem_mapIdx.mp hws
    obtain ⟨v, hv, rfl⟩ := List.mem_map.mp hw
    have hstop := compatidSection_within _ _ v hv
    have hlen : d.msos1Compatid.len = 16 + 24 * d.compatidSections.length := rfl
    rw [Store.shift_stop, hlen]
    omega

theorem msos1Compatid_len_le (d : Described) : d.msos1Compatid.len ≤ 208 := by
  have := compatidSections_length_le d
  simp only [Described.msos1Compatid]
  omega

/-! ### Microsoft OS 2.0 -/

theorem msos2RegProp_exact (guid : Text) : (msos2RegProp guid).Exact := by
  constructor <;>
    simp [msos2RegProp, Store.stop, utf16Bytes, deviceInterfaceGuids, deviceInterfaceGuid] <;> omega

theorem msos2Compat_fills (compatible : Text) :
    Fills [⟨0, u16le 0x0014⟩, ⟨2, u16le 0x0003⟩, ⟨4, List.replicate 16 0⟩,
      ⟨4, compatible.val.take 8⟩] 0 20 := by
  constructor <;> simp [Store.stop] <;> omega

theorem msos2Feature_exact (compatible : Text) (guid : Option Text) :
    (msos2Feature compatible guid).Exact := by
  cases guid with
  | none => exact msos2Compat_fills compatible
  | some guid =>
    exact (msos2Compat_fills compatible).append (Fills.shift (msos2RegProp_exact guid) 20)
      (Nat.zero_le _) (Nat.le_add_right 20 _)

theorem msos2Feature_len (compatible : Text) (guid : Option Text) :
    (msos2Feature compatible guid).len = msos2FeatureBytes guid := by
  cases guid <;> rfl

theorem functionSubset_exact (first : UInt8) (entry : OsEntry) :
    (functionSubset first entry).Exact := by
  refine (msos2Feature_exact entry.compatible entry.guid).behind ?_
  constructor <;> simp [Store.stop]
  omega

theorem functionSubset_len (first : UInt8) (entry : OsEntry) :
    (functionSubset first entry).len = 8 + msos2FeatureBytes entry.guid := by
  rw [functionSubset, msos2Feature_len]

theorem functionSubsets_le (d : Described) (is : List Nat) :
    ∀ coff, coff ≤ (d.functionSubsets is coff).len := by
  induction is with
  | nil => exact Nat.le_refl
  | cons i is ih =>
    intro coff
    rw [Described.functionSubsets]
    cases d.msosEntryForGroup i with
    | none => exact ih coff
    | some entry => exact Nat.le_trans (Nat.le_add_right _ _) (ih _)

theorem functionSubsets_fills (d : Described) (is : List Nat) :
    ∀ coff, Fills (d.functionSubsets is coff).stores coff (d.functionSubsets is coff).len := by
  induction is with
  | nil => exact Fills.nil
  | cons i is ih =>
    intro coff
    rw [Described.functionSubsets]
    cases d.msosEntryForGroup i with
    | none => exact ih coff
    | some entry =>
      have hone := Fills.shift (functionSubset_exact (d.groupFirstIfnum i) entry) coff
      exact hone.append (ih _) (Nat.le_add_right _ _) (functionSubsets_le d is _)

theorem functionSubsets_len (d : Described) (is : List Nat) :
    ∀ coff, (d.functionSubsets is coff).len = d.functionSubsetsBytes is coff := by
  induction is with
  | nil => exact fun _ => rfl
  | cons i is ih =>
    intro coff
    rw [Described.functionSubsets, Described.functionSubsetsBytes]
    cases d.msosEntryForGroup i with
    | none => exact ih coff
    | some entry =>
      show (d.functionSubsets is _).len = d.functionSubsetsBytes is _
      rw [ih, functionSubset_len]

theorem msos2Set_exact (d : Described) : d.msos2Set.Exact := by
  have hhead : Fills [⟨0, u16le 0x000a⟩, ⟨2, u16le 0⟩, ⟨4, u32le 0x06030000⟩,
      ⟨8, u16le d.msos2Set.len.toUInt16⟩] 0 10 := by
    constructor <;> simp [Store.stop]
    omega
  refine Built.Exact.behind ?_ hhead
  split
  · -- the configuration subset
    refine Built.Exact.headed (n := 8) ?_ (functionSubsets_fills d _ 8) (functionSubsets_le d _ 8)
    constructor <;> simp [Store.stop]
    omega
  · cases d.msosFlat with
    | none => exact Built.Exact.nil
    | some entry => exact msos2Feature_exact entry.compatible entry.guid

theorem msos2Set_len (d : Described) : d.msos2Set.len = d.msos2SetBytes := by
  rw [Described.msos2Set, Described.msos2SetBytes]
  split
  · exact congrArg (10 + ·) (functionSubsets_len d _ 8)
  · cases d.msosFlat with
    | none => rfl
    | some entry => exact congrArg (10 + ·) (msos2Feature_len entry.compatible entry.guid)

/-! ### Sizes in `int` -/

theorem utf16Len_eq (str : List UInt8) (n : Nat) :
    utf16Len str n.toUInt32 = (utf16Bytes str n).toUInt32 := by
  simp only [utf16Len, utf16Bytes, Nat.toUInt32_eq, UInt32.ofNat_mul, UInt32.ofNat_add]
  rfl

theorem msos1ExtpropsSize_eq (guid : Option Text) :
    msos1ExtpropsSize guid = (msos1ExtpropsBytes guid).toUInt32 := by
  cases guid with
  | none => rfl
  | some guid =>
    have hdata := utf16Len_eq guid.val 1
    simp only [msos1ExtpropsSize, msos1ExtpropsBytes, Nat.toUInt32_eq, UInt32.ofNat_add] at hdata ⊢
    rw [← hdata]
    rfl

theorem msos2FeatureSize_eq (guid : Option Text) :
    msos2FeatureSize guid = (msos2FeatureBytes guid).toUInt32 := by
  cases guid with
  | none => rfl
  | some guid =>
    have hdata := utf16Len_eq guid.val 2
    simp only [msos2FeatureSize, msos2FeatureBytes, Nat.toUInt32_eq, UInt32.ofNat_add] at hdata ⊢
    rw [← hdata]
    rfl

theorem functionSubsetsSize_eq (d : Described) (is : List Nat) :
    ∀ coff : Nat,
      d.functionSubsetsSize is coff.toUInt32 = (d.functionSubsetsBytes is coff).toUInt32 := by
  induction is with
  | nil => exact fun _ => rfl
  | cons i is ih =>
    intro coff
    rw [Described.functionSubsetsSize, Described.functionSubsetsBytes]
    cases d.msosEntryForGroup i with
    | none => exact ih coff
    | some entry =>
      have hnext := ih (coff + (8 + msos2FeatureBytes entry.guid))
      simp only [msos2FeatureSize_eq, Nat.toUInt32_eq, UInt32.ofNat_add] at hnext ⊢
      exact hnext

theorem msos2SetSize_eq (d : Described) : d.msos2SetSize = d.msos2SetBytes.toUInt32 := by
  rw [Described.msos2SetSize, Described.msos2SetBytes]
  split
  · have hloop := functionSubsetsSize_eq d (List.range d.msosNGroups) 8
    simp only [Nat.toUInt32_eq, UInt32.ofNat_add] at hloop ⊢
    rw [← hloop]
    rfl
  · cases d.msosFlat with
    | none => rfl
    | some entry =>
      simp only [msos2FeatureSize_eq, Nat.toUInt32_eq, UInt32.ofNat_add]
      rfl

/-- A size is right exactly when an `int` holds it. -/
theorem int32_toUInt32_iff (n : Nat) : int32 n.toUInt32 = n ↔ n < 2 ^ 31 := by
  have hword : n.toUInt32.toNat = n % 2 ^ 32 := UInt32.toNat_ofNat'
  rw [int32_eq, hword]
  split <;> omega

/-! ### BOS -/

theorem webusbCap_fills (d : Described) : Fills d.webusbCap 0 24 := by
  constructor <;> simp [Described.webusbCap, Store.stop, webusbUuid]
  omega

theorem msos2Cap_fills (d : Described) : Fills d.msos2Cap 0 28 := by
  constructor <;> simp [Described.msos2Cap, Store.stop, msos20Uuid]
  omega

theorem buildBosDesc_exact (d : Described) : d.buildBosDesc.Exact := by
  -- a capability that the device does not have is written nowhere
  have hwebusb : (if d.dev.webusb then ⟨d.webusbCap, 24⟩ else ⟨[], 0⟩ : Built).Exact := by
    split
    · exact webusbCap_fills d
    · exact Built.Exact.nil
  have hmsos : (if d.msos.length ≠ 0 then ⟨d.msos2Cap, 28⟩ else ⟨[], 0⟩ : Built).Exact := by
    split
    · exact msos2Cap_fills d
    · exact Built.Exact.nil
  have hcaps := (Fills.shift hwebusb 5).append (Fills.shift hmsos (5 + _))
    (Nat.le_add_right 5 _) (Nat.le_add_right _ _)
  refine Built.Exact.headed (n := 5) ?_ hcaps (by omega)
  constructor <;> simp [Store.stop]
  omega

theorem buildBosDesc_len_le (d : Described) : d.buildBosDesc.len ≤ 57 := by
  simp only [Described.buildBosDesc]
  split <;> split <;> simp

end Usbip.Control
