import Usbip.Lib.Buffer
import Usbip.Build.Device
import Usbip.Serve.Step

/-! The replies that `handle_control` builds in its scratch buffer, as the writes that make them.
The writes have natural numbers as offsets.  The size functions count in `int`: their results are
the 32 bits of one, and what an `int` cannot hold wraps. -/

namespace Usbip.Control

open Lib
open Device (u16le)

/-- The bytes of a C string before its NUL. -/
abbrev Text : Type := { bytes : List UInt8 // (0 : UInt8) ∉ bytes }

def Text.length (str : Text) : Nat := str.val.length

/-- `struct msos_entry`, with its texts. -/
structure OsEntry where
  group : Int
  compatible : Text
  guid : Option Text
  deriving DecidableEq, Repr

/-- What `handle_control` reads of a device. -/
structure Described where
  dev : Device
  /-- the slots `strings[0]` to `strings[n_strings - 1]` -/
  strings : List (Option Text)
  /-- the table `msos`, with its texts -/
  msos : List OsEntry
  webusbVendor : UInt8
  webusbUrl : Text
  config : UInt8
  /-- `ep_by_addr` finds an endpoint that is halted -/
  halted : UInt8 → Bool

/-- The writes of a builder and the length that it returns. -/
structure Built where
  stores : List Store
  len : Nat
  deriving DecidableEq, Repr

def u32le (w : UInt32) : List UInt8 :=
  [w.toUInt8, (w >>> 8).toUInt8, (w >>> 16).toUInt8, (w >>> 24).toUInt8]

def utf16 (str : List UInt8) (nNul : Nat) : List UInt8 :=
  (str.flatMap fun c => [c, 0]) ++ List.replicate (2 * nNul) 0

/-- The number of bytes that `put_utf16` writes. -/
def utf16Bytes (str : List UInt8) (nNul : Nat) : Nat := 2 * (str.length + nNul)

def utf16Len (str : List UInt8) (nNul : UInt32) : UInt32 := 2 * (str.length.toUInt32 + nNul)

/-- "MSFT100" -/
def msft100 : List UInt8 := [0x4d, 0x53, 0x46, 0x54, 0x31, 0x30, 0x30]

/-- "DeviceInterfaceGUID" -/
def deviceInterfaceGuid : List UInt8 :=
  [0x44, 0x65, 0x76, 0x69, 0x63, 0x65, 0x49, 0x6e, 0x74, 0x65, 0x72, 0x66, 0x61, 0x63, 0x65,
    0x47, 0x55, 0x49, 0x44]

/-- "DeviceInterfaceGUIDs" -/
def deviceInterfaceGuids : List UInt8 := deviceInterfaceGuid ++ [0x73]

def msos20Uuid : List UInt8 :=
  [0xdf, 0x60, 0xdd, 0xd8, 0x89, 0x45, 0xc7, 0x4c, 0x9c, 0xd2, 0x65, 0x9d, 0x9e, 0x64, 0x8a, 0x9f]

def webusbUuid : List UInt8 :=
  [0x38, 0xb6, 0x08, 0x34, 0xa9, 0x09, 0xa0, 0x47, 0x8b, 0xfd, 0xa0, 0x76, 0x88, 0x15, 0xb6, 0x65]

/-- "https://" and "http://" -/
def httpsPrefix : List UInt8 := [0x68, 0x74, 0x74, 0x70, 0x73, 0x3a, 0x2f, 0x2f]
def httpPrefix : List UInt8 := [0x68, 0x74, 0x74, 0x70, 0x3a, 0x2f, 0x2f]

namespace Described

variable (d : Described)

/-! ### The table of Microsoft OS descriptors -/

def msosNGroups : Nat := if d.dev.groups.length ≠ 0 then d.dev.groups.length else 1

def groupFirstIfnum (group : Nat) : UInt8 :=
  match d.dev.groups[group]? with
  | some g => if g.nIfs = 0 then 0 else g.firstIfnum
  | none => 0

/-- The device-wide entry. -/
def msosWide : Option OsEntry := d.msos.find? fun e => e.group < 0

def msosEntryForGroup (group : Nat) : Option OsEntry :=
  (d.msos.find? fun e => e.group = (group : Int)).or d.msosWide

/-- The group of an entry holds the interface. -/
def groupHolds (e : OsEntry) (ifnum : UInt8) : Bool :=
  if e.group < 0 then false
  else
    match d.dev.groups[e.group.toNat]? with
    | some g => g.firstIfnum.toNat ≤ ifnum.toNat ∧ ifnum.toNat < g.firstIfnum.toNat + g.nIfs
    | none => false

def msosEntryForInterface (ifnum : UInt8) : Option OsEntry :=
  (d.msos.find? fun e => d.groupHolds e ifnum).or d.msosWide

def msosNeedsSubsets : Bool := 1 < d.dev.groups.length ∧ 0 < d.msos.length

/-! ### Descriptors -/

def buildDeviceDesc : Built := ⟨[⟨0, d.dev.buildDeviceDesc⟩], 18⟩

def buildConfigDesc (cap : Nat) : Built :=
  let total := min (9 + d.dev.descr.length) cap
  ⟨[⟨0, [9, 2] ++ u16le total.toUInt16 ++ [d.dev.nIfnums.toUInt8, 1, 0, 0x80, 50]⟩,
    ⟨9, d.dev.descr.take (total - 9)⟩], total⟩

def msos1String : Built :=
  ⟨[⟨0, [0x12]⟩, ⟨1, [3]⟩, ⟨2, utf16 msft100 0⟩, ⟨16, [d.dev.msos1Vendor]⟩, ⟨17, [0]⟩], 18⟩

def langIds : Built := ⟨[⟨0, [4]⟩, ⟨1, [3]⟩, ⟨2, [0x09]⟩, ⟨3, [0x04]⟩], 4⟩

def stringDesc (str : Text) : Built :=
  ⟨[⟨0, [(2 + 2 * str.length).toUInt8]⟩, ⟨1, [3]⟩, ⟨2, utf16 str.val 0⟩], 2 + 2 * str.length⟩

/-- The WebUSB platform capability of `build_bos_desc`. -/
def webusbCap : List Store :=
  [⟨0, [24]⟩, ⟨1, [0x10]⟩, ⟨2, [5]⟩, ⟨3, [0]⟩, ⟨4, webusbUuid⟩, ⟨20, u16le 0x0100⟩,
    ⟨22, [d.webusbVendor]⟩, ⟨23, [if d.webusbUrl.val = [] then 0 else 1]⟩]

end Described

/-! ### Microsoft OS 1.0 -/

def msos1ExtpropsSize (guid : Option Text) : UInt32 :=
  match guid with
  | none => 10
  | some guid => 10 + 10 + utf16Len deviceInterfaceGuid 1 + 4 + utf16Len guid.val 1

/-- The bytes that the extended properties take. -/
def msos1ExtpropsBytes (guid : Option Text) : Nat :=
  match guid with
  | none => 10
  | some guid => 10 + 10 + utf16Bytes deviceInterfaceGuid 1 + 4 + utf16Bytes guid.val 1

def msos1Extprops (guid : Option Text) : Built :=
  match guid with
  | none => ⟨[⟨0, u32le 10⟩, ⟨4, u16le 0x0100⟩, ⟨6, u16le 5⟩, ⟨8, u16le 0⟩], 10⟩
  | some guid =>
    let nlen := utf16Bytes deviceInterfaceGuid 1
    let dataLenOff := 20 + nlen
    let dataOff := dataLenOff + 4
    let dlen := utf16Bytes guid.val 1
    let seclen := 10 + nlen + 4 + dlen
    let total := 10 + seclen
    ⟨[⟨20, utf16 deviceInterfaceGuid 1⟩, ⟨dataOff, utf16 guid.val 1⟩,
      ⟨10, u32le seclen.toUInt32⟩, ⟨14, u32le 1⟩, ⟨18, u16le nlen.toUInt16⟩,
      ⟨dataLenOff, u32le dlen.toUInt32⟩, ⟨0, u32le total.toUInt32⟩, ⟨4, u16le 0x0100⟩,
      ⟨6, u16le 5⟩, ⟨8, u16le 1⟩], total⟩

/-- One section of `msos1_compatid`. -/
def compatidSection (first : UInt8) (entry : OsEntry) : List Store :=
  [⟨0, [first]⟩, ⟨1, [1]⟩, ⟨2, entry.compatible.val.take 8⟩]

/-- The sections of `msos1_compatid`, one for each group that has an entry, eight at most. -/
def Described.compatidSections (d : Described) : List (UInt8 × OsEntry) :=
  ((List.range d.msosNGroups).filterMap fun i =>
    (d.msosEntryForGroup i).map fun entry => (d.groupFirstIfnum i, entry)).take 8

def Described.msos1Compatid (d : Described) : Built :=
  let secs := d.compatidSections
  let total := 16 + 24 * secs.length
  ⟨[⟨0, List.replicate total 0⟩, ⟨0, u32le total.toUInt32⟩, ⟨4, u16le 0x0100⟩, ⟨6, u16le 4⟩,
      ⟨8, [secs.length.toUInt8]⟩] ++
    (secs.mapIdx fun i sec =>
      (compatidSection sec.1 sec.2).map (Store.shift (16 + 24 * i))).flatten, total⟩

/-! ### Microsoft OS 2.0 -/

def msos2FeatureSize (guid : Option Text) : UInt32 :=
  match guid with
  | none => 20
  | some guid => 20 + (8 + utf16Len deviceInterfaceGuids 1 + 2 + utf16Len guid.val 2)

/-- The bytes that a feature takes. -/
def msos2FeatureBytes (guid : Option Text) : Nat :=
  match guid with
  | none => 20
  | some guid => 20 + (8 + utf16Bytes deviceInterfaceGuids 1 + 2 + utf16Bytes guid.val 2)

/-- The registry property of `msos2_feature`. -/
def msos2RegProp (guid : Text) : Built :=
  let nlen := utf16Bytes deviceInterfaceGuids 1
  let dataLenOff := 8 + nlen
  let dataOff := dataLenOff + 2
  let dlen := utf16Bytes guid.val 2
  let reglen := 8 + nlen + 2 + dlen
  ⟨[⟨8, utf16 deviceInterfaceGuids 1⟩, ⟨dataOff, utf16 guid.val 2⟩, ⟨0, u16le reglen.toUInt16⟩,
    ⟨2, u16le 4⟩, ⟨4, u16le 7⟩, ⟨6, u16le nlen.toUInt16⟩, ⟨dataLenOff, u16le dlen.toUInt16⟩],
    reglen⟩

def msos2Feature (compatible : Text) (guid : Option Text) : Built :=
  let compat : List Store :=
    [⟨0, u16le 0x0014⟩, ⟨2, u16le 0x0003⟩, ⟨4, List.replicate 16 0⟩, ⟨4, compatible.val.take 8⟩]
  match guid with
  | none => ⟨compat, 20⟩
  | some guid =>
    let prop := msos2RegProp guid
    ⟨compat ++ prop.stores.map (Store.shift 20), 20 + prop.len⟩

/-- A function subset of `msos2_set`. -/
def functionSubset (first : UInt8) (entry : OsEntry) : Built :=
  let feature := msos2Feature entry.compatible entry.guid
  let foff := 8 + feature.len
  ⟨feature.stores.map (Store.shift 8) ++ [⟨0, u16le 8⟩, ⟨2, u16le 2⟩, ⟨4, [first]⟩, ⟨5, [0]⟩,
    ⟨6, u16le foff.toUInt16⟩], foff⟩

/-- The loop of `msos2_set` over the groups, from the offset `coff` in the configuration subset. -/
def Described.functionSubsets (d : Described) : List Nat → Nat → Built
  | [], coff => ⟨[], coff⟩
  | i :: rest, coff =>
    match d.msosEntryForGroup i with
    | none => d.functionSubsets rest coff
    | some entry =>
      let fs := functionSubset (d.groupFirstIfnum i) entry
      let more := d.functionSubsets rest (coff + fs.len)
      ⟨fs.stores.map (Store.shift coff) ++ more.stores, more.len⟩

/-- The loop of `msos2_set_size`. -/
def Described.functionSubsetsSize (d : Described) : List Nat → UInt32 → UInt32
  | [], coff => coff
  | i :: rest, coff =>
    match d.msosEntryForGroup i with
    | none => d.functionSubsetsSize rest coff
    | some entry => d.functionSubsetsSize rest (coff + (8 + msos2FeatureSize entry.guid))

/-- Where the function subsets end when the first of them starts at `coff`. -/
def Described.functionSubsetsBytes (d : Described) : List Nat → Nat → Nat
  | [], coff => coff
  | i :: rest, coff =>
    match d.msosEntryForGroup i with
    | none => d.functionSubsetsBytes rest coff
    | some entry => d.functionSubsetsBytes rest (coff + (8 + msos2FeatureBytes entry.guid))

/-- The entry of a device that needs no subsets. -/
def Described.msosFlat (d : Described) : Option OsEntry := (d.msosEntryForGroup 0).or d.msos.head?

def Described.msos2SetSize (d : Described) : UInt32 :=
  if d.msosNeedsSubsets then 10 + d.functionSubsetsSize (List.range d.msosNGroups) 8
  else
    match d.msosFlat with
    | none => 10
    | some entry => 10 + msos2FeatureSize entry.guid

/-- The bytes that the descriptor set takes. -/
def Described.msos2SetBytes (d : Described) : Nat :=
  if d.msosNeedsSubsets then 10 + d.functionSubsetsBytes (List.range d.msosNGroups) 8
  else
    match d.msosFlat with
    | none => 10
    | some entry => 10 + msos2FeatureBytes entry.guid

def Described.msos2Set (d : Described) : Built :=
  let body : Built :=
    if d.msosNeedsSubsets then
      let cfg := d.functionSubsets (List.range d.msosNGroups) 8
      ⟨cfg.stores ++ [⟨0, u16le 8⟩, ⟨2, u16le 1⟩, ⟨4, [0]⟩, ⟨5, [0]⟩, ⟨6, u16le cfg.len.toUInt16⟩],
        cfg.len⟩
    else
      match d.msosFlat with
      | none => ⟨[], 0⟩
      | some entry => msos2Feature entry.compatible entry.guid
  let off := 10 + body.len
  ⟨body.stores.map (Store.shift 10) ++ [⟨0, u16le 0x000a⟩, ⟨2, u16le 0⟩, ⟨4, u32le 0x06030000⟩,
    ⟨8, u16le off.toUInt16⟩], off⟩

/-! ### BOS and WebUSB -/

/-- The Microsoft OS 2.0 platform capability of `build_bos_desc`. -/
def Described.msos2Cap (d : Described) : List Store :=
  [⟨0, [28]⟩, ⟨1, [0x10]⟩, ⟨2, [5]⟩, ⟨3, [0]⟩, ⟨4, msos20Uuid⟩, ⟨20, u32le 0x06030000⟩,
    ⟨24, u16le d.msos2SetSize.toUInt16⟩, ⟨26, [d.dev.msos2Vendor]⟩, ⟨27, [0]⟩]

def Described.buildBosDesc (d : Described) : Built :=
  let webusb : Built := if d.dev.webusb then ⟨d.webusbCap, 24⟩ else ⟨[], 0⟩
  let msos : Built := if d.msos.length ≠ 0 then ⟨d.msos2Cap, 28⟩ else ⟨[], 0⟩
  let ncaps := (if d.dev.webusb then 1 else 0) + if d.msos.length ≠ 0 then 1 else 0
  let off := 5 + webusb.len + msos.len
  ⟨webusb.stores.map (Store.shift 5) ++ msos.stores.map (Store.shift (5 + webusb.len)) ++
    [⟨0, [5]⟩, ⟨1, [0x0f]⟩, ⟨2, u16le off.toUInt16⟩, ⟨4, [ncaps]⟩], off⟩

/-- The scheme of a URL and the URL without the prefix that names it. -/
def stripScheme (url : List UInt8) : UInt8 × List UInt8 :=
  if httpsPrefix <+: url then (1, url.drop 8)
  else if httpPrefix <+: url then (0, url.drop 7)
  else (255, url)

def buildWebusbUrl (url : Text) : Built :=
  let (scheme, rest) := stripScheme url.val
  ⟨[⟨0, [(3 + rest.length).toUInt8]⟩, ⟨1, [3]⟩, ⟨2, [scheme]⟩, ⟨3, rest⟩], 3 + rest.length⟩

end Usbip.Control
