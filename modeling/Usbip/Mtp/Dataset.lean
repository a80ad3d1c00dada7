import Usbip.Control.Reply
import Usbip.Mtp.Objects

/-! The datasets of the media-transfer class, as they go over the wire. -/

namespace Usbip.Mtp

open Lib Control
open Device (u16le)

def b64 (v : UInt64) : List UInt8 := u32le v.toUInt32 ++ u32le (v >>> 32).toUInt32

/-- A string as `bstr` puts it: at most 254 characters, and a terminating NUL unless it is empty. -/
def bstr (s : CStr) : List UInt8 :=
  let s := s.take 254
  if s = [] then [0] else UInt8.ofNat (s.length + 1) :: (s.flatMap fun c => [c, 0]) ++ u16le 0

def barr16 (values : List UInt16) : List UInt8 :=
  u32le (UInt32.ofNat values.length) ++ values.flatMap u16le

/-! ### Codes -/

def opGetDeviceInfo : UInt16 := 0x1001
def opOpenSession : UInt16 := 0x1002
def opCloseSession : UInt16 := 0x1003
def opGetStorageIds : UInt16 := 0x1004
def opGetStorageInfo : UInt16 := 0x1005
def opGetNumObjects : UInt16 := 0x1006
def opGetObjectHandles : UInt16 := 0x1007
def opGetObjectInfo : UInt16 := 0x1008
def opGetObject : UInt16 := 0x1009
def opDeleteObject : UInt16 := 0x100b
def opSendObjectInfo : UInt16 := 0x100c
def opSendObject : UInt16 := 0x100d
def opGetPartialObject : UInt16 := 0x101b
def opGetDevicePropDesc : UInt16 := 0x1014
def opGetDevicePropValue : UInt16 := 0x1015
def opSetDevicePropValue : UInt16 := 0x1016
def opGetObjectPropsSupported : UInt16 := 0x9801
def opGetObjectPropDesc : UInt16 := 0x9802
def opGetObjectPropValue : UInt16 := 0x9803
def opGetObjectPropList : UInt16 := 0x9805
def opGetObjectReferences : UInt16 := 0x9810
def opMoveObject : UInt16 := 0x1019
def opCopyObject : UInt16 := 0x101a
def opSetObjectPropValue : UInt16 := 0x9804
def opGetPartialObject64 : UInt16 := 0x95c1
def opSendPartialObject : UInt16 := 0x95c2
def opTruncateObject : UInt16 := 0x95c3
def opBeginEditObject : UInt16 := 0x95c4
def opEndEditObject : UInt16 := 0x95c5

/-- `DEV_OPS`, in the order of `MTP_OP_LIST`. -/
def devOps : List UInt16 :=
  [opGetDeviceInfo, opOpenSession, opCloseSession, opGetStorageIds, opGetStorageInfo,
    opGetNumObjects, opGetObjectHandles, opGetObjectInfo, opGetObject, opDeleteObject,
    opSendObjectInfo, opSendObject, opGetPartialObject, opGetDevicePropDesc, opGetDevicePropValue,
    opSetDevicePropValue, opGetObjectPropsSupported, opGetObjectPropDesc, opGetObjectPropValue,
    opGetObjectPropList, opGetObjectReferences, opMoveObject, opCopyObject, opSetObjectPropValue,
    opGetPartialObject64, opSendPartialObject, opTruncateObject, opBeginEditObject,
    opEndEditObject]

def rcOk : UInt16 := 0x2001
def rcGeneralError : UInt16 := 0x2002
def rcSessionNotOpen : UInt16 := 0x2003
def rcOperationNotSupported : UInt16 := 0x2005
def rcInvalidStorageId : UInt16 := 0x2008
def rcInvalidObjectHandle : UInt16 := 0x2009
def rcDevicepropNotSupported : UInt16 := 0x200a
def rcStoreReadOnly : UInt16 := 0x200e
def rcInvalidParent : UInt16 := 0x201a
def rcInvalidParameter : UInt16 := 0x201d
def rcSessionAlreadyOpen : UInt16 := 0x201e
def rcNoValidObjectInfo : UInt16 := 0x2015
def rcInvalidObjectPropCode : UInt16 := 0xa801
def rcObjectPropNotSupported : UInt16 := 0xa80a

def evObjectAdded : UInt16 := 0x4002
def evObjectRemoved : UInt16 := 0x4003
def evStoreAdded : UInt16 := 0x4004

/-- `T_U16` to `T_STR`. -/
def tU16 : UInt16 := 0x0004
def tU32 : UInt16 := 0x0006
def tU64 : UInt16 := 0x0008
def tU128 : UInt16 := 0x000a
def tStr : UInt16 := 0xffff

def dpcSyncPartner : UInt16 := 0xd401
def dpcFriendlyName : UInt16 := 0xd402

def opcStorageId : UInt16 := 0xdc01
def opcObjectFormat : UInt16 := 0xdc02
def opcProtection : UInt16 := 0xdc03
def opcObjectSize : UInt16 := 0xdc04
def opcFilename : UInt16 := 0xdc07
def opcDateModified : UInt16 := 0xdc09
def opcParent : UInt16 := 0xdc0b
def opcPuid : UInt16 := 0xdc41
def opcName : UInt16 := 0xdc44

def propList : List UInt16 :=
  [opcStorageId, opcObjectFormat, opcProtection, opcObjectSize, opcFilename, opcDateModified,
    opcParent, opcPuid, opcName]

/-! ### The device and its storages -/

/-- What the device says of itself. -/
structure Identity where
  model : CStr
  manufacturer : CStr
  serial : CStr
  friendly : CStr
  syncPartner : CStr
  deriving DecidableEq, Repr

def buildDeviceInfo (id : Identity) : List UInt8 :=
  u16le 100 ++ u32le 6 ++ u16le 100 ++ bstr (ascii "microsoft.com: 1.0; android.com: 1.0;") ++
    u16le 0 ++ barr16 devOps ++ barr16 [evObjectAdded, evObjectRemoved, evStoreAdded] ++
    barr16 [dpcFriendlyName, dpcSyncPartner] ++ barr16 [] ++
    barr16 [fmtUndefined, fmtAssociation, fmtText, 0x3009, 0x3801, 0x380b, 0xb982] ++
    bstr id.manufacturer ++ bstr id.model ++ bstr (ascii "1.0") ++ bstr id.serial

/-- A hexadecimal digit of `%x`. -/
def hexDigit (n : Nat) : UInt8 := UInt8.ofNat (if n < 10 then 0x30 + n else 0x57 + n)

/-- `%08x`. -/
def hex08 (v : UInt32) : CStr :=
  (List.range 8).map fun i => hexDigit (v.toNat / 16 ^ (7 - i) % 16)

/-- The storage info, with what the backend says of the size and the label. -/
def buildStorageInfo (readOnly : Bool) (id : UInt32) (total free : UInt64) (desc : CStr) :
    List UInt8 :=
  u16le 3 ++ u16le 2 ++ u16le (if readOnly then 1 else 0) ++ b64 total ++ b64 free ++ u32le all ++
    bstr desc ++ bstr (snprintf 24 (ascii "vol-" ++ hex08 id))

/-! ### Objects -/

section
variable (dateText : UInt32 → CStr)

def buildObjectInfo (o : Obj) : List UInt8 :=
  let size := if o.size > all.toUInt64 then all else o.size.toUInt32
  u32le o.storage ++ u16le o.fmt ++ u16le 0 ++ u32le size ++ u16le 0 ++ u32le 0 ++ u32le 0 ++
    u32le 0 ++ u32le 0 ++ u32le 0 ++ u32le 0 ++ u32le o.parent ++
    u16le (if o.isDir then 1 else 0) ++ u32le 0 ++ u32le 0 ++ bstr o.name ++
    bstr (dateText o.mtime) ++ bstr (dateText o.mtime) ++ bstr []

/-- A property with its datatype, if it is supported. -/
def buildProp (readOnly : Bool) (o : Obj) (pc : UInt16) : Option (List UInt8) :=
  if pc = opcStorageId then some (u16le tU32 ++ u32le o.storage)
  else if pc = opcObjectFormat then some (u16le tU16 ++ u16le o.fmt)
  else if pc = opcProtection then some (u16le tU16 ++ u16le (if readOnly then 1 else 0))
  else if pc = opcObjectSize then some (u16le tU64 ++ b64 o.size)
  else if pc = opcParent then some (u16le tU32 ++ u32le o.parent)
  else if pc = opcPuid then
    let (h1, h2) := puidOf o.si o.path
    some (u16le tU128 ++ (b64 h1 ++ b64 h2))
  else if pc = opcFilename ∨ pc = opcName then some (u16le tStr ++ bstr o.name)
  else if pc = opcDateModified then some (u16le tStr ++ bstr (dateText o.mtime))
  else none

/-- A property without its datatype. -/
def buildPropValue (readOnly : Bool) (o : Obj) (pc : UInt16) : Option (List UInt8) :=
  (buildProp dateText readOnly o pc).map (List.drop 2)

def datatypeOf (pc : UInt16) : UInt16 :=
  if pc = opcObjectFormat ∨ pc = opcProtection then tU16
  else if pc = opcStorageId ∨ pc = opcParent then tU32
  else if pc = opcObjectSize then tU64
  else if pc = opcPuid then tU128
  else tStr

def buildPropDesc (pc : UInt16) : List UInt8 :=
  let dt := datatypeOf pc
  let factory :=
    if dt = tU16 then u16le 0
    else if dt = tU32 then u32le 0
    else if dt = tU64 then b64 0
    else if dt = tU128 then List.replicate 16 0
    else [0]
  u16le pc ++ u16le dt ++ [if pc = opcFilename ∨ pc = opcName then 1 else 0] ++ factory ++
    u32le 0 ++ [0]

/-- The quadruples of one object, each with its handle and code. -/
def propEntries (readOnly : Bool) (o : Obj) (propcode : UInt32) : List (List UInt8) :=
  let codes := if propcode = 0 ∨ propcode = all then propList else [propcode.toUInt16]
  codes.filterMap fun pc =>
    (buildProp dateText readOnly o pc).map fun value => u32le o.handle ++ u16le pc ++ value

/-- Whether `build_prop_list` lists an object, unless the climb to its ancestor does not end. -/
def propSelected (objs : List Obj) (handle fmt depth : UInt32) (o : Obj) : Option Bool :=
  let inTree : Option Bool :=
    if handle = all then some true
    else if handle = 0 then some (o.parent = 0)
    else if o.handle = handle then some true
    else if depth = all then isDescendant objs o.handle handle
    else some false
  if ¬o.alive then some false
  else inTree.map fun ok => ok && (fmt == 0 || o.fmt.toUInt32 == fmt)

/-- The body of `build_prop_list`: the quadruples. -/
def propEntriesOf (readOnly : Bool) (objs : List Obj) (handle fmt propcode depth : UInt32) :
    List Obj → Option (List (List UInt8))
  | [] => some []
  | o :: rest => do
    let selected ← propSelected objs handle fmt depth o
    let more ← propEntriesOf readOnly objs handle fmt propcode depth rest
    return (if selected then propEntries dateText readOnly o propcode else []) ++ more

def buildPropList (readOnly : Bool) (objs : List Obj) (handle fmt propcode depth : UInt32) :
    Option (List UInt8) :=
  (propEntriesOf dateText readOnly objs handle fmt propcode depth objs).map fun entries =>
    u32le (UInt32.ofNat entries.length) ++ entries.flatten

end

def listHandles (objs : List Obj) (storage fmt parent : UInt32) : List UInt8 :=
  let matching := objs.filter fun o => handleMatches o storage fmt parent
  u32le (UInt32.ofNat matching.length) ++ matching.flatMap fun o => u32le o.handle

def countHandles (objs : List Obj) (storage fmt parent : UInt32) : UInt32 :=
  UInt32.ofNat (objs.countP fun o => handleMatches o storage fmt parent)

end Usbip.Mtp
