import Usbip.Lib.Bytes
import Usbip.Control.Reply

/-! The SCSI commands of the mass-storage class: what each of them comes to, with the data that it
offers.  The log lines are left out. -/

namespace Usbip.Msc

open Lib
open Control (Text)

/-! ### Logical units -/

/-- A sense triple: key, additional code and qualifier. -/
structure Sense where
  key : UInt8
  asc : UInt8
  ascq : UInt8
  deriving DecidableEq, Repr

namespace Sense

def ok : Sense := ⟨0x00, 0x00, 0x00⟩
def unrecoveredRead : Sense := ⟨0x03, 0x11, 0x00⟩
def invalidCommand : Sense := ⟨0x05, 0x20, 0x00⟩
def lbaRange : Sense := ⟨0x05, 0x21, 0x00⟩
def invalidField : Sense := ⟨0x05, 0x24, 0x00⟩
def lunNotSupported : Sense := ⟨0x05, 0x25, 0x00⟩
def writeProtect : Sense := ⟨0x07, 0x27, 0x00⟩

end Sense

/-- `MSC_MEDIUM_DISK`, `MSC_MEDIUM_CDROM` and `MSC_MEDIUM_FLOPPY`. -/
def mediumDisk : Int := 0
def mediumCdrom : Int := 1
def mediumFloppy : Int := 2

/-- `struct lun_state`, with the sense data in one field. -/
structure LunState where
  user : Nat
  medium : Int
  readOnly : Bool
  product : Text
  serial : Text
  sense : Sense
  deriving DecidableEq, Repr

structure MscLun where
  user : Nat
  medium : Int
  readOnly : Bool
  product : Option Text
  serial : Option Text
  deriving DecidableEq, Repr

/-- `msc_opts`, without the backend and the log. -/
structure MscOpts where
  user : Nat
  medium : Int
  readOnly : Bool
  vendor : Option Text
  product : Option Text
  revision : Option Text
  serial : Option Text
  luns : List MscLun
  deriving DecidableEq, Repr

/-- The callbacks of the backend, as they answer at one moment; `read` also says what the buffer
holds afterwards. -/
structure Backend where
  numBlocks : Nat → UInt32
  blockSize : Nat → UInt32
  read : Nat → UInt32 → UInt32 → Int × (Nat → UInt8)
  write : Nat → UInt32 → UInt32 → List UInt8 → Int

/-- "USB-IP" -/
def defaultVendor : Text := ⟨[0x55, 0x53, 0x42, 0x2d, 0x49, 0x50], by decide⟩

/-- "0001" -/
def defaultRevision : Text := ⟨[0x30, 0x30, 0x30, 0x31], by decide⟩

/-- "0123456789ABCDEF" -/
def defaultSerial : Text :=
  ⟨[0x30, 0x31, 0x32, 0x33, 0x34, 0x35, 0x36, 0x37, 0x38, 0x39, 0x41, 0x42, 0x43, 0x44, 0x45, 0x46],
    by decide⟩

/-- `default_product`: "CD-ROM", "FLOPPY" or "DISK". -/
def defaultProduct (medium : Int) : Text :=
  if medium = mediumCdrom then ⟨[0x43, 0x44, 0x2d, 0x52, 0x4f, 0x4d], by decide⟩
  else if medium = mediumFloppy then ⟨[0x46, 0x4c, 0x4f, 0x50, 0x50, 0x59], by decide⟩
  else ⟨[0x44, 0x49, 0x53, 0x4b], by decide⟩

def lunInit (src : Option MscLun) (opts : MscOpts) : LunState :=
  let medium := match src with
    | some l => if l.medium ≠ 0 then l.medium else opts.medium
    | none => opts.medium
  { user := (src.map MscLun.user).getD opts.user
    medium
    readOnly := src.any MscLun.readOnly || opts.readOnly || medium = mediumCdrom
    product := ((src.bind MscLun.product).or opts.product).getD (defaultProduct medium)
    serial := ((src.bind MscLun.serial).or opts.serial).getD defaultSerial
    sense := .ok }

/-! ### Replies -/

/-- `set_str`: a text cut to the field, or padded with blanks. -/
def setStr (src : Text) (cap : Nat) : List UInt8 := src.val.takeD cap 0x20

def be24 (w : UInt32) : List UInt8 := [(w >>> 16).toUInt8, (w >>> 8).toUInt8, w.toUInt8]

def inqPdt (lun : LunState) : UInt8 := if lun.medium = mediumCdrom then 0x05 else 0x00

def buildInquiry (opts : MscOpts) (lun : LunState) : List UInt8 :=
  [inqPdt lun, 0x80, 0x04, 0x02, 31, 0, 0, 0] ++ setStr (opts.vendor.getD defaultVendor) 8 ++
    setStr lun.product 16 ++ setStr (opts.revision.getD defaultRevision) 4

def buildVpd (lun : LunState) (page : UInt8) : Option (List UInt8) :=
  if page = 0x00 then some [inqPdt lun, page, 0, 2, 0x00, 0x80]
  else if page = 0x80 then
    let serial := lun.serial.val.take 20
    some ([inqPdt lun, page, 0, serial.length.toUInt8] ++ serial)
  else none

/-- An entry of `FLOPPY_FORMATS`. -/
structure FloppyFormat where
  blocks : UInt32
  mediumType : UInt8
  cylinders : UInt32
  heads : UInt8
  sectors : UInt8
  rateKbps : UInt16
  deriving DecidableEq, Repr

def floppyFormats : List FloppyFormat :=
  [⟨5760, 0x00, 80, 2, 36, 1000⟩, ⟨2880, 0x94, 80, 2, 18, 500⟩, ⟨2400, 0x93, 80, 2, 15, 500⟩,
    ⟨1440, 0x1e, 80, 2, 9, 250⟩, ⟨720, 0x00, 40, 2, 9, 250⟩]

/-- The format that `floppy_format_index` finds. -/
def floppyFormat (blocks bs : UInt32) : Option FloppyFormat :=
  if bs ≠ 512 then none else floppyFormats.find? fun f => f.blocks = blocks

def floppyMediumType (blocks bs : UInt32) : UInt8 :=
  match floppyFormat blocks bs with
  | some f => f.mediumType
  | none => 0x00

/-- `build_flex_page`; a medium of no standard format borrows the heads and sectors of 1.44M. -/
def buildFlexPage (blocks bs : UInt32) : List UInt8 :=
  let f := (floppyFormat blocks bs).getD ⟨blocks, 0x00, blocks / (2 * 18), 2, 18, 500⟩
  let cylinders := if f.cylinders > 0xffff then 0xffff else f.cylinders
  [0x05, 0x1e] ++ be16 f.rateKbps ++ [f.heads, f.sectors] ++ be16 bs.toUInt16 ++
    be16 cylinders.toUInt16 ++ List.replicate 18 0 ++ be16 300 ++ [0, 0]

def capacityDesc (blocks bs : UInt32) (type : UInt8) : List UInt8 :=
  be32 blocks ++ [type] ++ be24 bs

def buildFormatCapacities (lun : LunState) (blocks bs : UInt32) : List UInt8 :=
  let descs := capacityDesc blocks bs 0x02 ++
    if lun.medium = mediumFloppy then
      floppyFormats.flatMap fun f => capacityDesc f.blocks 512 0x00
    else []
  [0, 0, 0, descs.length.toUInt8] ++ descs

def requestSense (sense : Sense) : List UInt8 :=
  [0x70, 0, sense.key, 0, 0, 0, 0, 10, 0, 0, 0, 0, sense.asc, sense.ascq, 0, 0, 0, 0]

/-- The reply to `MODE_SENSE_6` and `MODE_SENSE_10`. -/
def modeSense (lun : LunState) (op page : UInt8) (nb bs : UInt32) : List UInt8 :=
  let floppy := lun.medium = mediumFloppy
  let medium := if floppy then floppyMediumType nb bs else 0
  let devSpec := if lun.readOnly then 0x80 else 0
  let flex := if floppy ∧ (page = 0x05 ∨ page = 0x3f) then buildFlexPage nb bs else []
  if op = 0x5a then be16 (6 + flex.length).toUInt16 ++ [medium, devSpec, 0, 0, 0, 0] ++ flex
  else [(3 + flex.length).toUInt8, medium, devSpec, 0] ++ flex

def readToc : List UInt8 :=
  [0x00, 18, 0x01, 0x01, 0x00, 0x14, 0x01, 0, 0, 0, 0, 0, 0x00, 0x14, 0xaa, 0, 0, 0, 0, 0]

/-! ### Commands -/

/-- What a command comes to. -/
inductive Outcome
  /-- `msc_csw` with no residue -/
  | passed
  /-- `msc_fail` -/
  | failed (sense : Sense)
  /-- `msc_data_in` with this data -/
  | dataIn (data : List UInt8)
  /-- `msc_data_in` with this data, after the sense data of the unit is cleared -/
  | senseIn (data : List UInt8)
  /-- a read of the backend into a buffer of this size, and then `msc_data_in` or `msc_fail` -/
  | read (lba count : UInt32) (rlen : Nat)
  /-- the start of a data phase that writes -/
  | write (lba count : UInt32)
  deriving DecidableEq, Repr

/-- `usb_get_be32(cdb + CDB10_LBA_OFF)`. -/
def cdbLba (cdb : List UInt8) : UInt32 := word cdb 2

/-- The transfer length of a 10-byte or 12-byte command. -/
def cdbCount (wide : Bool) (cdb : List UInt8) : UInt32 :=
  if wide then word cdb 6 else (getBe16 (bytesAt cdb 7 2)).toUInt32

/-- The case of `READ_10` and `READ_12`, where `size_t` has 64 bits and `(size_t)count * bs` does not
wrap. -/
def readCommand (wide : Bool) (nb bs : UInt32) (cdb : List UInt8) : Outcome :=
  let lba := cdbLba cdb
  let count := cdbCount wide cdb
  if lba.toNat + count.toNat > nb.toNat then .failed .lbaRange
  else .read lba count (count.toNat * bs.toNat)

/-- The case of `WRITE_10` and `WRITE_12`. -/
def writeCommand (wide : Bool) (lun : LunState) (nb : UInt32) (cdb : List UInt8) : Outcome :=
  let lba := cdbLba cdb
  let count := cdbCount wide cdb
  if lun.readOnly then .failed .writeProtect
  else if lba.toNat + count.toNat > nb.toNat then .failed .lbaRange
  else .write lba count

/-- The switch of `dispatch` over the opcode. -/
def scsi (opts : MscOpts) (lun : LunState) (env : Backend) (cdb : List UInt8) : Outcome :=
  let bs := env.blockSize lun.user
  let nb := env.numBlocks lun.user
  match byteAt cdb 0 with
  | 0x00 => .passed
  | 0x12 =>
    if byteAt cdb 1 &&& 0x01 ≠ 0 then
      match buildVpd lun (byteAt cdb 2) with
      | none => .failed .invalidField
      | some vpd => .dataIn vpd
    else .dataIn (buildInquiry opts lun)
  | 0x23 => .dataIn (buildFormatCapacities lun nb bs)
  | 0x25 => .dataIn (be32 (nb - 1) ++ be32 bs)
  | 0x9e =>
    if byteAt cdb 1 &&& 0x1f = 0x10 then
      .dataIn ([0, 0, 0, 0] ++ be32 (nb - 1) ++ be32 bs ++ List.replicate 20 0)
    else .failed .invalidCommand
  | 0x28 => readCommand false nb bs cdb
  | 0xa8 => readCommand true nb bs cdb
  | 0x2a => writeCommand false lun nb cdb
  | 0xaa => writeCommand true lun nb cdb
  | 0x03 => .senseIn (requestSense lun.sense)
  | 0x1a => .dataIn (modeSense lun 0x1a (byteAt cdb 2 &&& 0x3f) nb bs)
  | 0x5a => .dataIn (modeSense lun 0x5a (byteAt cdb 2 &&& 0x3f) nb bs)
  | 0x04 => if lun.readOnly then .failed .writeProtect else .passed
  | 0x1e => .passed
  | 0x1b => .passed
  | 0x35 => .passed
  | 0x01 => .passed
  | 0x2b => .passed
  | 0x2f => .passed
  | 0x43 => if lun.medium = mediumCdrom then .dataIn readToc else .failed .invalidCommand
  | 0x46 =>
    if lun.medium = mediumCdrom then .dataIn [0, 0, 0, 0, 0, 0, 0, 0x08]
    else .failed .invalidCommand
  | 0x4a => .dataIn [0, 6, 0x80, 0, 0, 0, 0, 0]
  | _ => .failed .invalidCommand

/-! ### The length of the replies -/

@[simp] theorem setStr_length (src : Text) (cap : Nat) : (setStr src cap).length = cap :=
  List.takeD_length cap src.val 0x20

@[simp] theorem buildInquiry_length (opts : MscOpts) (lun : LunState) :
    (buildInquiry opts lun).length = 36 := by
  simp [buildInquiry]

theorem buildVpd_length_le {lun : LunState} {page : UInt8} {vpd : List UInt8}
    (h : buildVpd lun page = some vpd) : vpd.length ≤ 24 := by
  unfold buildVpd at h
  split at h
  · cases h
    simp
  · split at h
    · cases h
      have hserial : (lun.serial.val.take 20).length ≤ 20 := List.length_take_le 20 _
      rw [List.length_append]
      exact Nat.add_le_add_left hserial 4
    · cases h

@[simp] theorem capacityDesc_length (blocks bs : UInt32) (type : UInt8) :
    (capacityDesc blocks bs type).length = 8 := rfl

theorem buildFormatCapacities_length_le (lun : LunState) (blocks bs : UInt32) :
    (buildFormatCapacities lun blocks bs).length ≤ 52 := by
  unfold buildFormatCapacities
  split
  · simp [floppyFormats]
  · simp

@[simp] theorem buildFlexPage_length (blocks bs : UInt32) :
    (buildFlexPage blocks bs).length = 32 := by
  simp [buildFlexPage]

theorem modeSense_length_le (lun : LunState) (op page : UInt8) (nb bs : UInt32) :
    (modeSense lun op page nb bs).length ≤ 40 := by
  have hflex : (if lun.medium = mediumFloppy ∧ (page = 0x05 ∨ page = 0x3f) then
      buildFlexPage nb bs else []).length ≤ 32 := by
    split <;> simp
  unfold modeSense
  dsimp only
  split
  · simp only [List.length_append, be16_length, List.length_cons, List.length_nil]
    omega
  · simp only [List.length_append, List.length_cons, List.length_nil]
    omega

/-! ### What a command comes to -/

/-- The outcome is one that the command can have: a failure has a sense key, the data that is
offered without the backend is short, and a read or a write stays in the medium. -/
def Outcome.Sound (lun : LunState) (env : Backend) (cdb : List UInt8) : Outcome → Prop
  | .passed => True
  | .failed sense => sense.key ≠ 0
  | .dataIn data => data.length ≤ 52
  | .senseIn data => data = requestSense lun.sense
  | .read lba count rlen =>
    lba.toNat + count.toNat ≤ (env.numBlocks lun.user).toNat ∧
      rlen = count.toNat * (env.blockSize lun.user).toNat
  | .write lba count =>
    lun.readOnly = false ∧ lba.toNat + count.toNat ≤ (env.numBlocks lun.user).toNat ∧
      lba = cdbLba cdb ∧ count = cdbCount (byteAt cdb 0 = 0xaa) cdb

theorem readCommand_sound (wide : Bool) (lun : LunState) (env : Backend) (cdb : List UInt8) :
    (readCommand wide (env.numBlocks lun.user) (env.blockSize lun.user) cdb).Sound lun env cdb := by
  unfold readCommand
  dsimp only
  split
  · exact (by decide : (5 : UInt8) ≠ 0)
  · rename_i hrange
    exact ⟨Nat.not_lt.mp hrange, rfl⟩

theorem writeCommand_sound {wide : Bool} (lun : LunState) (env : Backend) {cdb : List UInt8}
    (hwide : decide (byteAt cdb 0 = 0xaa) = wide) :
    (writeCommand wide lun (env.numBlocks lun.user) cdb).Sound lun env cdb := by
  unfold writeCommand
  dsimp only
  split
  · exact (by decide : (7 : UInt8) ≠ 0)
  · rename_i hreadOnly
    split
    · exact (by decide : (5 : UInt8) ≠ 0)
    · rename_i hrange
      exact ⟨Bool.eq_false_iff.mpr hreadOnly, Nat.not_lt.mp hrange, rfl, by rw [hwide]⟩

theorem scsi_sound (opts : MscOpts) (lun : LunState) (env : Backend) (cdb : List UInt8) :
    (scsi opts lun env cdb).Sound lun env cdb := by
  have hinvalid : Sense.invalidCommand.key ≠ 0 := by decide
  unfold scsi
  dsimp only
  split
  case h_2 =>
    split
    · split
      · exact (by decide : (5 : UInt8) ≠ 0)
      · rename_i hvpd
        exact Nat.le_trans (buildVpd_length_le hvpd) (by decide)
    · exact Nat.le_trans (Nat.le_of_eq (buildInquiry_length opts lun)) (by decide)
  case h_3 => exact buildFormatCapacities_length_le _ _ _
  case h_4 => simp [Outcome.Sound]
  case h_5 =>
    split
    · simp [Outcome.Sound]
    · exact hinvalid
  case h_6 => exact readCommand_sound false lun env cdb
  case h_7 => exact readCommand_sound true lun env cdb
  case h_8 h => exact writeCommand_sound lun env (by rw [h]; rfl)
  case h_9 h => exact writeCommand_sound lun env (by rw [h]; rfl)
  case h_10 => rfl
  case h_11 => exact Nat.le_trans (modeSense_length_le ..) (by decide)
  case h_12 => exact Nat.le_trans (modeSense_length_le ..) (by decide)
  case h_13 =>
    split
    · exact (by decide : (7 : UInt8) ≠ 0)
    · trivial
  case h_20 =>
    split
    · simp [Outcome.Sound, readToc]
    · exact hinvalid
  case h_21 =>
    split
    · simp [Outcome.Sound]
    · exact hinvalid
  case h_22 => simp [Outcome.Sound]
  case h_23 => exact hinvalid
  all_goals trivial

end Usbip.Msc
