import Mathlib.Data.List.Sort
import Usbip.Lib.Bytes
import Usbip.Lib.Entries

/-! The object table of the media-transfer class, and the strings that it is about.  A C string is
the bytes before its NUL. -/

namespace Usbip.Mtp

open Lib

abbrev CStr : Type := List UInt8

/-- The bytes of a literal. -/
def ascii (s : String) : CStr := s.toList.map fun c => UInt8.ofNat c.toNat

/-- `snprintf(dst, size, "%s", s)`. -/
def snprintf (size : Nat) (s : CStr) : CStr := s.take (size - 1)

def slash : UInt8 := 0x2f

/-- `dir + "/" + name`; an entry under the store root joins without a slash. -/
def pathJoin (size : Nat) (dir name : CStr) : CStr :=
  snprintf size (if dir = [] then name else dir ++ slash :: name)

/-- The low bytes of `count` wide characters, up to a NUL or the end of the input. -/
def ptpChars (raw : List UInt8) : Nat → CStr
  | 0 => []
  | count + 1 =>
    match raw with
    | [] => []
    | lo :: rest => if lo = 0 then [] else lo :: ptpChars (rest.drop 1) count

/-- A length-prefixed UTF-16LE string, as an output of `outsz` bytes takes it. -/
def ptpStrAscii (raw : List UInt8) (outsz : Nat) : CStr :=
  match raw with
  | [] => []
  | nc :: rest => ptpChars rest (min nc.toNat (outsz - 1))

/-! ### Formats and identities -/

def fmtUndefined : UInt16 := 0x3000
def fmtAssociation : UInt16 := 0x3001
def fmtText : UInt16 := 0x3004

/-- `tolower` of the C locale. -/
def toLower (c : UInt8) : UInt8 := if 0x41 ≤ c ∧ c ≤ 0x5a then c + 0x20 else c

/-- The map of `fmt_of`. -/
def extFormats : List (CStr × UInt16) :=
  [(ascii "txt", fmtText), (ascii "htm", 0x3005), (ascii "html", 0x3005), (ascii "wav", 0x3008),
    (ascii "mp3", 0x3009), (ascii "avi", 0x300a), (ascii "mpg", 0x300b), (ascii "mpeg", 0x300b),
    (ascii "jpg", 0x3801), (ascii "jpeg", 0x3801), (ascii "bmp", 0x3804), (ascii "gif", 0x3807),
    (ascii "png", 0x380b), (ascii "tif", 0x380d), (ascii "tiff", 0x380d), (ascii "wma", 0xb901),
    (ascii "ogg", 0xb902), (ascii "aac", 0xb903), (ascii "flac", 0xb906), (ascii "wmv", 0xb981),
    (ascii "mp4", 0xb982), (ascii "m4a", 0xb982), (ascii "3gp", 0xb984), (ascii "xml", 0xba82)]

/-- What stands behind the last dot, if there is one. -/
def extension (name : CStr) : Option CStr :=
  if 0x2e ∈ name then some (name.reverse.takeWhile (· ≠ 0x2e)).reverse else none

def fmtOf (name : CStr) : UInt16 :=
  match extension name with
  | none => fmtUndefined
  | some ext => (extFormats.lookup ((ext.take 7).map toLower)).getD fmtUndefined

/-- The two halves of the PUID. -/
def puidOf (si : Nat) (path : CStr) : UInt64 × UInt64 :=
  let h1 := path.foldl (fun h c => (h ^^^ c.toUInt64) * 1099511628211)
    (1469598103934665603 ^^^ UInt64.ofNat si)
  (h1, path.foldl (fun h c => (h <<< 5) + h + c.toUInt64) (h1 ^^^ 0x9e3779b97f4a7c15))

/-! ### The table -/

/-- `ALL`, which also stands for a store root. -/
def all : UInt32 := 0xffffffff

/-- `STORAGE_ID`. -/
def storageId (si : Nat) : UInt32 := (UInt32.ofNat (si + 1) <<< 16) ||| 1

def siOf (nStores : Nat) (id : UInt32) : Option Nat :=
  (List.range nStores).find? fun i => storageId i = id

/-- What `get_info` tells of an object. -/
structure Info where
  isDir : Bool
  size : UInt64
  mtime : UInt32
  deriving DecidableEq, Repr

/-- `struct obj`. -/
structure Obj where
  handle : UInt32
  parent : UInt32
  size : UInt64
  mtime : UInt32
  fmt : UInt16
  isDir : Bool
  alive : Bool
  si : Nat
  storage : UInt32
  path : CStr
  name : CStr
  deriving DecidableEq, Repr

/-- The store and the path that an entry stands for. -/
def Obj.at (o : Obj) (si : Nat) (path : CStr) : Bool := o.si = si ∧ o.path = path

/-- The first entry with the path, alive or not. -/
def objByPath (objs : List Obj) (si : Nat) (path : CStr) : Option Obj :=
  objs.find? fun o => o.at si path

def objByHandle (objs : List Obj) (handle : UInt32) : Option Obj :=
  objs.find? fun o => o.alive && o.handle == handle

/-- A new entry, before it is filled. -/
def Obj.fresh (handle : UInt32) (si : Nat) (full : CStr) : Obj :=
  { handle, parent := 0, size := 0, mtime := 0, fmt := 0, isDir := false, alive := false, si
    storage := storageId si, path := snprintf 4096 full, name := [] }

def Obj.fill (o : Obj) (name : CStr) (parent : UInt32) (info : Info) : Obj :=
  { o with
    name := snprintf 256 name
    parent
    isDir := info.isDir
    size := if info.isDir then 0 else info.size
    mtime := info.mtime
    fmt := if info.isDir then fmtAssociation else fmtOf name
    alive := true }

/-- The table, the next handle, and the handle of the entry. -/
def objUpsert (objs : List Obj) (nextHandle : UInt32) (si : Nat) (full name : CStr)
    (parent : UInt32) (info : Info) : List Obj × UInt32 × UInt32 :=
  match objByPath objs si full with
  | some o =>
    (modifyFirst (fun o => o.at si full) (fun o => o.fill name parent info) objs, nextHandle,
      o.handle)
  | none =>
    (objs ++ [(Obj.fresh nextHandle si full).fill name parent info], nextHandle + 1, nextHandle)

/-- A write target: the store index and the directory. -/
def target (nStores : Nat) (objs : List Obj) (storage parent : UInt32) : Option (Nat × CStr) :=
  if parent = 0 ∨ parent = all then some ((siOf nStores storage).getD 0, [])
  else
    match objByHandle objs parent with
    | some o => if o.isDir then some (o.si, o.path) else none
    | none => none

/-- The loop of `is_descendant`, and `none` when it does not end in as many rounds as there are
entries. -/
def climb (objs : List Obj) (ancestor : UInt32) : Nat → Option Obj → Option Bool
  | _, none => some false
  | 0, some _ => none
  | fuel + 1, some o =>
    if o.parent = 0 then some false
    else if o.parent = ancestor then some true
    else climb objs ancestor fuel (objByHandle objs o.parent)

def isDescendant (objs : List Obj) (handle ancestor : UInt32) : Option Bool :=
  climb objs ancestor (objs.length + 1) (objByHandle objs handle)

/-- What `retag_paths` makes of a path after a rename from `old` to `neu`. -/
def retagPath (old neu path : CStr) : CStr :=
  if path = old then snprintf 4096 neu
  else if (old ++ [slash]).isPrefixOf path then
    snprintf 4096 (snprintf 4096 (neu ++ path.drop old.length))
  else path

def retagPaths (objs : List Obj) (si : Nat) (old neu : CStr) : List Obj :=
  objs.map fun o => if o.si = si then { o with path := retagPath old neu o.path } else o

def handleMatches (o : Obj) (storage fmt parent : UInt32) : Bool :=
  o.alive ∧ (storage = 0 ∨ storage = all ∨ o.storage = storage) ∧
    (if parent = all then o.parent = 0 else parent = 0 ∨ o.parent = parent) ∧
    (fmt = 0 ∨ o.fmt.toUInt32 = fmt)

end Usbip.Mtp
