import Usbip.Control.Partition
import Usbip.Lib.Memory
import Usbip.Lib.Rpc
import Usbip.Msc.Transfer
import Usbip.Msc.Turn

/-! Blocks that a host writes to a mass-storage function and reads back: over the Bulk-Only Transport
it gets what the media behind the backend would give, unit by unit, with the sense data of every
command that is refused. -/

namespace Usbip.Msc

open Lib
open Control (u32le)

/-! ### The media -/

/-- A backend with states `β`.  `bytes` is what the media hold, for the context of a unit, and `fresh`
what a block holds that `malloc` returns. -/
structure Medium (β : Type) where
  numBlocks : Nat → UInt32
  blockSize : Nat → UInt32
  read : β → Nat → UInt32 → UInt32 → Int × (Nat → UInt8)
  write : β → Nat → UInt32 → UInt32 → List UInt8 → Int × β
  fresh : β → Nat → UInt8
  bytes : β → Nat → Nat → UInt8

namespace Medium

variable {β : Type} (m : Medium β)

/-- The bytes of so many blocks. -/
def size (user : Nat) (count : UInt32) : Nat := count.toNat * (m.blockSize user).toNat

/-- The blocks are blocks of the medium. -/
def Holds (user : Nat) (lba count : UInt32) : Prop :=
  lba.toNat + count.toNat ≤ (m.numBlocks user).toNat

instance (user : Nat) (lba count : UInt32) : Decidable (m.Holds user lba count) :=
  inferInstanceAs (Decidable (_ ≤ _))

/-- The callbacks do what they are documented to do: a read brings the bytes of the blocks, a write
leaves its bytes there, and nowhere else. -/
structure Lawful : Prop where
  read : ∀ s user lba count, m.Holds user lba count → (m.read s user lba count).1 = 0 ∧
    ∀ i < m.size user count, (m.read s user lba count).2 i = m.bytes s user (m.size user lba + i)
  write : ∀ s user lba count buf, m.Holds user lba count → m.size user count ≤ buf.length →
    (m.write s user lba count buf).1 = 0 ∧
      m.bytes (m.write s user lba count buf).2 = tableSet (m.bytes s) user
        (Store.put (m.bytes s user) ⟨m.size user lba, buf.take (m.size user count)⟩)

/-- The callbacks as they answer in a state. -/
def env (s : β) : Env where
  numBlocks := m.numBlocks
  blockSize := m.blockSize
  read := m.read s
  write user lba count buf := (m.write s user lba count buf).1
  fresh := m.fresh s

/-- The state after what the function did. -/
def after (lun : Nat → LunState) (s : β) (events : List Event) : β :=
  events.foldl (fun s ev =>
    match ev with
    | .write unit lba count buf => (m.write s (lun unit).user lba count buf).2
    | _ => s) s

/-- A chunk reaches the function. -/
def onOut (s : MscState × β) (chunk : List UInt8) : (MscState × β) × List Event :=
  let one := s.1.onOut chunk (m.env s.2)
  ((one.1, m.after s.1.lun s.2 one.2), one.2)

def onOuts : MscState × β → List (List UInt8) → (MscState × β) × List Event
  | s, [] => (s, [])
  | s, chunk :: rest =>
    let one := m.onOut s chunk
    let more := onOuts one.1 rest
    (more.1, one.2 ++ more.2)

/-- A command with its OUT data, which a pipe that has been stalled does not bring. -/
def turn (s : MscState × β) : List (List UInt8) →
    Option ((MscState × β) × List Event × List (List UInt8))
  | [] => none
  | wrapper :: data =>
    let one := m.onOut s wrapper
    if .stall .usbOut ∈ one.2 then some (one.1, one.2, [])
    else
      let more := m.onOuts one.1 data
      some (more.1, one.2 ++ more.2, [])

end Medium

/-! ### The host -/

/-- A command of a host.  A read announces `len` bytes; the data of a write goes out in `chunks`.
`wide` is for the forms of 12 bytes. -/
inductive BlockCall
  | testUnitReady (lun : Nat)
  | requestSense (lun : Nat)
  | readCapacity (lun : Nat)
  | read (wide : Bool) (lun : Nat) (lba count len : UInt32)
  | write (wide : Bool) (lun : Nat) (lba count : UInt32) (chunks : List (List UInt8))

/-- The command block of a read or of a write. -/
def cdbOf (wide : Bool) (op : UInt8) (lba count : UInt32) : List UInt8 :=
  if wide then [op, 0] ++ be32 lba ++ be32 count ++ List.replicate 6 0
  else [op, 0] ++ be32 lba ++ [0] ++ be16 count.toUInt16 ++ List.replicate 7 0

namespace BlockCall

def lun : BlockCall → Nat
  | testUnitReady lun | requestSense lun | readCapacity lun | read _ lun _ _ _ | write _ lun _ _ _ =>
    lun

def cdb : BlockCall → List UInt8
  | testUnitReady _ => List.replicate 16 0
  | requestSense _ => [0x03, 0, 0, 0, 18] ++ List.replicate 11 0
  | readCapacity _ => 0x25 :: List.replicate 15 0
  | read wide _ lba count _ => cdbOf wide (if wide then 0xa8 else 0x28) lba count
  | write wide _ lba count _ => cdbOf wide (if wide then 0xaa else 0x2a) lba count

/-- The OUT data. -/
def chunks : BlockCall → List (List UInt8)
  | write _ _ _ _ chunks => chunks
  | _ => []

/-- `dCBWDataTransferLength`. -/
def dlen : BlockCall → UInt32
  | testUnitReady _ => 0
  | requestSense _ => 18
  | readCapacity _ => 8
  | read _ _ _ _ len => len
  | write _ _ _ _ chunks => UInt32.ofNat chunks.flatten.length

def flagIn : BlockCall → Bool
  | write .. => false
  | _ => true

/-- The wrapper of a command. -/
def wrapper (tag : UInt32) (q : BlockCall) : List UInt8 :=
  cbwSig ++ u32le tag ++ u32le q.dlen ++ [if q.flagIn then 0x80 else 0, q.lun.toUInt8, 16] ++ q.cdb

end BlockCall

structure BlockReply where
  status : UInt8
  data : List UInt8
  deriving DecidableEq, Repr

/-- The event shows on a pipe. -/
def Event.onPipe : Event → Bool
  | .csw .. | .dataIn _ | .stall _ => true
  | _ => false

/-- What goes before a status: nothing, where no IN data was announced, the data, or a stall of the
pipe that was to carry some. -/
inductive Lead (flagIn : Bool) (dlen : UInt32) : List UInt8 → List Event → Prop
  | nothing (h : flagIn = true → dlen = 0) : Lead flagIn dlen [] []
  | data {bytes : List UInt8} (hin : flagIn = true) (hsome : bytes ≠ [])
    (hle : bytes.length ≤ dlen.toNat) : Lead flagIn dlen bytes [.dataIn bytes]
  | stall (h : dlen ≠ 0) : Lead flagIn dlen [] [.stall (if flagIn then .usbIn else .usbOut)]

/-- A host on the pipes of the function: it numbers its commands, and takes the status that has the
number of the last one. -/
def blockLink {β : Type} (m : Medium β) :
    Link (MscState × β) UInt32 BlockCall BlockReply (List UInt8) Event where
  send tag q := (tag + 1, q.wrapper (tag + 1) :: q.chunks)
  turn := m.turn
  recv tag _ events :=
    match csws events with
    | [.csw got _ status] =>
      if got = u32le tag then some (⟨status, sentBytes events⟩, []) else none
    | _ => none

/-! ### The store -/

/-- What the units stand for: the bytes of the media, and the sense data of each unit. -/
structure Disks where
  bytes : Nat → Nat → UInt8
  sense : Nat → Sense

def Disks.fail (d : Disks) (lun : Nat) (sense : Sense) : Disks × BlockReply :=
  ({ d with sense := tableSet d.sense lun sense }, ⟨statusFailed, []⟩)

def Disks.store (d : Disks) (user : Nat) (w : Store) : Disks :=
  { d with bytes := tableSet d.bytes user (w.put (d.bytes user)) }

section

variable {β : Type} (m : Medium β) (start : MscState)

/-- A command on the media themselves, with the units of `start`. -/
def Disks.perform (d : Disks) : BlockCall → Disks × BlockReply
  | .testUnitReady _ => (d, ⟨statusPassed, []⟩)
  | .requestSense lun =>
    ({ d with sense := tableSet d.sense lun .ok }, ⟨statusPassed, requestSense (d.sense lun)⟩)
  | .readCapacity lun =>
    let user := (start.lun lun).user
    (d, ⟨statusPassed, be32 (m.numBlocks user - 1) ++ be32 (m.blockSize user)⟩)
  | .read _ lun lba count _ =>
    let user := (start.lun lun).user
    if m.Holds user lba count then
      (d, ⟨statusPassed, readout (fun i => d.bytes user (m.size user lba + i)) (m.size user count)⟩)
    else d.fail lun .lbaRange
  | .write _ lun lba count chunks =>
    let user := (start.lun lun).user
    if (start.lun lun).readOnly then d.fail lun .writeProtect
    else if m.Holds user lba count then
      (d.store user ⟨m.size user lba, chunks.flatten⟩, ⟨statusPassed, []⟩)
    else d.fail lun .lbaRange

/-- The same, and what becomes of a command for a unit that there is not. -/
def serveBlocks (d : Disks) (q : BlockCall) : Disks × BlockReply :=
  if q.lun ≥ start.nLuns then d.fail 0 .lunNotSupported else d.perform m start q

/-- The host addresses a unit that a wrapper can name, a count that the command block can hold, and
announces the data that the command has: less than 2 GiB for a read, some for a write. -/
def BlockCall.Proper (q : BlockCall) : Prop :=
  q.lun < 16 ∧
    match q with
    | .read wide lun _ count len =>
      (wide = false → count.toNat < 2 ^ 16) ∧ (lun < start.nLuns →
        len.toNat = m.size (start.lun lun).user count ∧ len.toNat < 2 ^ 31)
    | .write wide lun _ count chunks =>
      (wide = false → count.toNat < 2 ^ 16) ∧ 0 < chunks.flatten.length ∧
        chunks.flatten.length < 2 ^ 32 ∧ (lun < start.nLuns →
          chunks.flatten.length = m.size (start.lun lun).user count)
    | _ => True

/-- The function is between two commands, and has the sense data; the media hold the bytes. -/
structure Related (s : MscState × β) (d : Disks) : Prop where
  idle : s.1.writing = false
  nLuns : s.1.nLuns = start.nLuns
  lun : ∀ i, s.1.lun i = { start.lun i with sense := d.sense i }
  bytes : m.bytes s.2 = d.bytes

end

/-! ### Wrappers -/

@[simp] theorem cdbOf_length (wide : Bool) (op : UInt8) (lba count : UInt32) :
    (cdbOf wide op lba count).length = 16 := by
  cases wide <;> rfl

@[simp] theorem BlockCall.cdb_length (q : BlockCall) : q.cdb.length = 16 := by
  cases q with
  | testUnitReady | requestSense | readCapacity => rfl
  | read | write => exact cdbOf_length ..

theorem cdbOf_op (wide : Bool) (op : UInt8) (lba count : UInt32) :
    byteAt (cdbOf wide op lba count) 0 = op := by
  cases wide <;> rfl

theorem cdbLba_cdbOf (wide : Bool) (op : UInt8) (lba count : UInt32) :
    cdbLba (cdbOf wide op lba count) = lba := by
  have hword : ∀ rest, cdbLba ([op, 0] ++ be32 lba ++ rest) = lba := fun rest => getBe32_be32 lba []
  rw [cdbOf]
  split
  · rw [List.append_assoc ([op, 0] ++ be32 lba)]
    exact hword _
  · rw [List.append_assoc ([op, 0] ++ be32 lba), List.append_assoc ([op, 0] ++ be32 lba)]
    exact hword _

/-- The count of a command comes back, if its form has room for it. -/
theorem cdbCount_cdbOf {wide : Bool} {count : UInt32} (hroom : wide = false → count.toNat < 2 ^ 16)
    (op : UInt8) (lba : UInt32) : cdbCount wide (cdbOf wide op lba count) = count := by
  cases wide with
  | true => exact getBe32_be32 count []
  | false =>
    have hcount : cdbCount false (cdbOf false op lba count) = count.toUInt16.toUInt32 :=
      congrArg UInt16.toUInt32 (getBe16_be16 count.toUInt16 [])
    rw [hcount, ← UInt32.toNat_inj, UInt16.toNat_toUInt32, UInt32.toNat_toUInt16]
    exact Nat.mod_eq_of_lt (hroom rfl)

theorem parse_wrapper {q : BlockCall} (hlun : q.lun < 16) (tag : UInt32) :
    parseCbw (q.wrapper tag) = some ⟨u32le tag, q.dlen, q.flagIn, q.lun, q.cdb⟩ := by
  have hlen : (q.wrapper tag).length = 31 := by
    simp only [BlockCall.wrapper, List.length_append, BlockCall.cdb_length]
    rfl
  have hsig : (q.wrapper tag).take 4 = cbwSig := rfl
  have hdlen : getLe32 (bytesAt (q.wrapper tag) 8 4) = q.dlen := Control.getLe32_u32le q.dlen []
  have hflag : decide (byteAt (q.wrapper tag) 12 &&& 0x80 ≠ 0) = q.flagIn := by
    have hbyte : byteAt (q.wrapper tag) 12 = if q.flagIn then 0x80 else 0 := rfl
    rw [hbyte]
    cases q.flagIn <;> rfl
  have hunit : (byteAt (q.wrapper tag) 13 &&& 0x0f).toNat = q.lun := by
    have hbyte : byteAt (q.wrapper tag) 13 = q.lun.toUInt8 := rfl
    rw [hbyte, UInt8.toNat_and]
    have hsmall : q.lun.toUInt8.toNat = q.lun := Nat.mod_eq_of_lt (by omega)
    rw [hsmall]
    exact (Nat.and_two_pow_sub_one_eq_mod q.lun 4).trans (Nat.mod_eq_of_lt hlun)
  have hcdb : bytesAt (q.wrapper tag) 15 16 = q.cdb := by
    show q.cdb.take 16 = q.cdb
    rw [← q.cdb_length, List.take_length]
  rw [parseCbw, if_neg (by simp [hlen, hsig]), hdlen, hflag, hunit, hcdb]
  rfl

/-! ### What a command comes to -/

section

variable {β : Type} {m : Medium β} {start : MscState} {s : MscState × β} {d : Disks} {q : BlockCall}

/-- What the command of a unit comes to. -/
def BlockCall.outcome (m : Medium β) (start : MscState) (d : Disks) : BlockCall → Outcome
  | .testUnitReady _ => .passed
  | .requestSense lun => .senseIn (Msc.requestSense (d.sense lun))
  | .readCapacity lun =>
    .dataIn (be32 (m.numBlocks (start.lun lun).user - 1) ++ be32 (m.blockSize (start.lun lun).user))
  | .read _ lun lba count _ =>
    if m.Holds (start.lun lun).user lba count then
      .read lba count (m.size (start.lun lun).user count)
    else .failed .lbaRange
  | .write _ lun lba count _ =>
    if (start.lun lun).readOnly then .failed .writeProtect
    else if m.Holds (start.lun lun).user lba count then .write lba count
    else .failed .lbaRange

theorem readCommand_cdbOf {wide : Bool} {count : UInt32} (hroom : wide = false → count.toNat < 2 ^ 16)
    (m : Medium β) (user : Nat) (op : UInt8) (lba : UInt32) :
    readCommand wide (m.numBlocks user) (m.blockSize user) (cdbOf wide op lba count) =
      if m.Holds user lba count then .read lba count (m.size user count) else .failed .lbaRange := by
  rw [readCommand, cdbLba_cdbOf, cdbCount_cdbOf hroom]
  by_cases h : m.Holds user lba count
  · rw [if_pos h]
    exact if_neg (Nat.not_lt.mpr h)
  · rw [if_neg h]
    exact if_pos (Nat.not_le.mp h)

theorem writeCommand_cdbOf {wide : Bool} {count : UInt32}
    (hroom : wide = false → count.toNat < 2 ^ 16) (m : Medium β) (lun : LunState) (op : UInt8)
    (lba : UInt32) : writeCommand wide lun (m.numBlocks lun.user) (cdbOf wide op lba count) =
      if lun.readOnly then .failed .writeProtect
      else if m.Holds lun.user lba count then .write lba count else .failed .lbaRange := by
  rw [writeCommand, cdbLba_cdbOf, cdbCount_cdbOf hroom]
  by_cases h : m.Holds lun.user lba count
  · rw [if_pos h, if_neg (Nat.not_lt.mpr h)]
  · rw [if_neg h, if_pos (Nat.not_le.mp h)]

/-- The command block is taken for the command that it was made for. -/
theorem scsi_cdb (h : Related m start s d) (hproper : q.Proper m start) :
    scsi s.1.opts (s.1.lun q.lun) (m.env s.2).toBackend q.cdb = q.outcome m start d := by
  have hlun := h.lun q.lun
  cases q with
  | testUnitReady lun =>
    have hop : byteAt (BlockCall.testUnitReady lun).cdb 0 = 0x00 := rfl
    simp only [scsi, hop]
    rfl
  | requestSense lun =>
    have hop : byteAt (BlockCall.requestSense lun).cdb 0 = 0x03 := rfl
    simp only [scsi, hop, hlun]
    rfl
  | readCapacity lun =>
    have hop : byteAt (BlockCall.readCapacity lun).cdb 0 = 0x25 := rfl
    simp only [scsi, hop, hlun]
    rfl
  | read wide lun lba count len =>
    have hread := readCommand_cdbOf hproper.2.1 m (start.lun lun).user
      (if wide then 0xa8 else 0x28) lba
    have hop := cdbOf_op wide (if wide then 0xa8 else 0x28) lba count
    rw [hlun]
    cases wide with
    | false =>
      rw [if_neg (by decide)] at hop hread
      simp only [BlockCall.cdb, Bool.false_eq_true, if_false, scsi, hop]
      exact hread
    | true =>
      rw [if_pos rfl] at hop hread
      simp only [BlockCall.cdb, if_true, scsi, hop]
      exact hread
  | write wide lun lba count chunks =>
    have hwrite := writeCommand_cdbOf hproper.2.1 m { start.lun lun with sense := d.sense lun }
      (if wide then 0xaa else 0x2a) lba
    have hop := cdbOf_op wide (if wide then 0xaa else 0x2a) lba count
    rw [hlun]
    cases wide with
    | false =>
      rw [if_neg (by decide)] at hop hwrite
      simp only [BlockCall.cdb, Bool.false_eq_true, if_false, scsi, hop]
      exact hwrite
    | true =>
      rw [if_pos rfl] at hop hwrite
      simp only [BlockCall.cdb, if_true, scsi, hop]
      exact hwrite

/-- The wrapper of a command makes the function do what its outcome says. -/
theorem onOut_wrapper (h : Related m start s d) (hproper : q.Proper m start) (tag : UInt32) :
    s.1.onOut (q.wrapper tag) (m.env s.2) =
      { s.1 with cbwIn := q.flagIn }.perform (if q.lun ≥ start.nLuns then 0 else q.lun)
        (u32le tag) q.dlen (m.env s.2)
        (if q.lun ≥ start.nLuns then .failed .lunNotSupported else q.outcome m start d) := by
  rw [MscState.onOut_of_idle h.idle, parse_wrapper hproper.1]
  dsimp only
  rw [MscState.command_eq, MscState.unit, MscState.outcome, h.nLuns, scsi_cdb h hproper]

/-! ### Turns -/

/-- Only a call of `write` changes the media. -/
theorem after_of_not_write (lun : Nat → LunState) (b : β) {events : List Event}
    (h : ∀ unit lba count buf, .write unit lba count buf ∉ events) : m.after lun b events = b := by
  induction events with
  | nil => rfl
  | cons ev events ih =>
    have hrest := ih fun unit lba count buf hmem => h unit lba count buf (List.mem_cons_of_mem _ hmem)
    cases ev with
    | write unit lba count buf => exact absurd List.mem_cons_self (h unit lba count buf)
    | csw | dataIn | stall | stored | read => exact hrest

/-- A wrapper leaves the media as they are. -/
theorem after_perform (st : MscState) (unit : Nat) (tag : List UInt8) (dlen : UInt32) (env : Env)
    (o : Outcome) (lun : Nat → LunState) (b : β) :
    m.after lun b (st.perform unit tag dlen env o).2 = b := by
  apply after_of_not_write
  intro unit' lba count buf hmem
  obtain ⟨_, _, _, -, hread⟩ := MscState.perform_calls hmem rfl
  cases hread

/-- Chunks of no bytes do nothing between two commands. -/
theorem onOuts_empty (h : s.1.writing = false) {chunks : List (List UInt8)}
    (hempty : chunks.flatten = []) : m.onOuts s chunks = (s, []) := by
  induction chunks with
  | nil => rfl
  | cons chunk rest ih =>
    obtain ⟨hchunk, hrest⟩ := List.append_eq_nil_iff.mp hempty
    have hone : m.onOut s chunk = (s, []) := by
      rw [Medium.onOut, MscState.onOut_of_idle h, hchunk]
      rfl
    rw [Medium.onOuts, hone, ih hrest]
    rfl

/-- What is left of a data phase brings the data to the medium, and then the status. -/
theorem onOuts_write (hm : m.Lawful) (chunks : List (List UInt8)) (st : MscState) (b : β)
    (done : List UInt8) {user : Nat} (huser : (st.lun st.wlun).user = user)
    (hwriting : st.writing = true) (hgot : st.wgot.toNat = done.length)
    (hstored : st.wbuf.take done.length = done) (hroom : st.wneed.toNat ≤ st.wbuf.length)
    (hmore : done.length < st.wneed.toNat)
    (htotal : done.length + chunks.flatten.length = st.wneed.toNat)
    (hholds : m.Holds user st.wlba st.wcount)
    (hsize : st.wneed.toNat = m.size user st.wcount) :
    ∃ s' events, m.onOuts (st, b) chunks = (s', events) ∧ s'.1.writing = false ∧
      s'.1.lun = st.lun ∧ s'.1.nLuns = st.nLuns ∧
      m.bytes s'.2 = tableSet (m.bytes b) user (Store.put
        (m.bytes b user)
        ⟨m.size user st.wlba, done ++ chunks.flatten⟩) ∧
      events.filter Event.onPipe = [.csw st.wtag 0 statusPassed] := by
  induction chunks generalizing st done with
  | nil =>
    rw [List.flatten_nil, List.length_nil] at htotal
    omega
  | cons chunk rest ih =>
    rw [List.flatten_cons, List.length_append] at htotal
    have hlt := st.wneed.toNat_lt
    have hone : m.onOut (st, b) chunk =
        (((st.data chunk (m.env b)).1, m.after st.lun b (st.data chunk (m.env b)).2),
          (st.data chunk (m.env b)).2) := by
      rw [Medium.onOut, MscState.onOut_of_writing hwriting]
    have hwgot : (st.store chunk).wgot.toNat = (done ++ chunk).length := by
      rw [MscState.store_wgot (by omega) (by omega), hgot, List.length_append]
      omega
    have htaken : chunk.take (st.take chunk).toNat = chunk := by
      rw [MscState.take_toNat (by omega) (by omega)]
      exact List.take_of_length_le (by omega)
    have hblock : (st.store chunk).wbuf.take (done ++ chunk).length = done ++ chunk := by
      have hwbuf : (st.store chunk).wbuf = putBytes st.wbuf done.length chunk := by
        rw [← hgot]
        exact congrArg (putBytes st.wbuf st.wgot.toNat) htaken
      rw [hwbuf, List.length_append, take_putBytes chunk (by omega), hstored]
    by_cases hend : done.length + chunk.length < st.wneed.toNat
    · have hdata : st.data chunk (m.env b) = _ := MscState.data_more (m.env b) (by omega)
      rw [hdata] at hone
      obtain ⟨s', events, hrun, hidle, hlun, hn, hbytes, hcsw⟩ := ih (st.store chunk)
        (done ++ chunk) huser hwriting hwgot hblock (hroom.trans (MscState.store_room st chunk))
        (by rw [List.length_append]; exact hend)
        (by rw [List.length_append, MscState.store_wneed]; omega) hholds hsize
      refine ⟨s', .stored chunk :: events, ?_, hidle, hlun, hn, ?_, hcsw⟩
      · rw [Medium.onOuts, hone]
        exact congrArg (fun more => (more.1, .stored chunk :: more.2)) hrun
      · rw [List.flatten_cons, ← List.append_assoc]
        exact hbytes
    · -- the chunk is the last one that brings bytes
      have hrest : rest.flatten = [] := List.eq_nil_of_length_eq_zero (by omega)
      have hneed : (done ++ chunk).length = m.size user st.wcount := by
        rw [List.length_append]
        omega
      subst huser
      have hdata : st.data chunk (m.env b) = _ :=
        MscState.data_last (m.env b) (by omega) (by omega) (by omega)
      obtain ⟨hrc, hwritten⟩ := hm.write b (st.lun st.wlun).user st.wlba st.wcount
        (st.store chunk).wbuf hholds
        (by have := MscState.store_room st chunk; omega)
      rw [hdata] at hone
      have hdone : ((st.store chunk).complete (m.env b)).1.writing = false := rfl
      have hempty := onOuts_empty (m := m) (s := (((st.store chunk).complete (m.env b)).1,
        (m.write b (st.lun st.wlun).user st.wlba st.wcount (st.store chunk).wbuf).2)) hdone hrest
      refine ⟨(((st.store chunk).complete (m.env b)).1,
        (m.write b (st.lun st.wlun).user st.wlba st.wcount (st.store chunk).wbuf).2),
        .stored (chunk.take (st.wneed.toNat - st.wgot.toNat)) ::
          ((st.store chunk).complete (m.env b)).2, ?_, hdone, rfl, rfl, ?_, ?_⟩
      · rw [Medium.onOuts, hone]
        refine (congrArg (fun more => (more.1, _ ++ more.2)) hempty).trans ?_
        rw [List.append_nil]
      · rw [← hneed, hblock] at hwritten
        rw [List.flatten_cons, hrest, List.append_nil]
        exact hwritten
      · have hstatus : (if (m.env b).write (st.lun st.wlun).user st.wlba st.wcount
            (st.store chunk).wbuf = 0 then statusPassed else statusFailed) = statusPassed :=
          if_pos hrc
        exact congrArg (fun status => [Event.csw st.wtag 0 status]) hstatus

/-- The events bring a host its data, or a stall in its place, and then one status. -/
def Answers (events : List Event) (tag : List UInt8) (flagIn : Bool) (dlen : UInt32)
    (r : BlockReply) : Prop :=
  ∃ lead residue, Lead flagIn dlen r.data lead ∧
    events.filter Event.onPipe = lead ++ [.csw tag residue r.status]

section

variable {events : List Event} {tag : List UInt8} {flagIn : Bool} {dlen : UInt32} {r : BlockReply}

theorem csws_onPipe (events : List Event) : csws (events.filter Event.onPipe) = csws events := by
  rw [csws, csws, List.filter_filter]
  refine List.filter_congr fun ev _ => ?_
  cases ev <;> rfl

theorem sentBytes_onPipe (events : List Event) :
    sentBytes (events.filter Event.onPipe) = sentBytes events := by
  induction events with
  | nil => rfl
  | cons ev rest ih =>
    cases ev with
    | dataIn bytes => exact congrArg (bytes ++ ·) ih
    | csw | stall | stored | read | write => exact ih

theorem Answers.csw (h : Answers events tag flagIn dlen r) :
    ∃ residue, csws events = [.csw tag residue r.status] := by
  obtain ⟨lead, residue, hlead, horder⟩ := h
  refine ⟨residue, ?_⟩
  rw [← csws_onPipe, horder]
  generalize r.data = data at hlead
  cases hlead <;> rfl

theorem Answers.data (h : Answers events tag flagIn dlen r) : sentBytes events = r.data := by
  obtain ⟨lead, residue, hlead, horder⟩ := h
  rw [← sentBytes_onPipe, horder]
  generalize r.data = data at hlead
  cases hlead with
  | data => exact List.append_nil data
  | nothing | stall => rfl

end

theorem Answers.recv {events : List Event} {tag : UInt32} {flagIn : Bool} {dlen : UInt32}
    {r : BlockReply} (h : Answers events (u32le tag) flagIn dlen r) (m : Medium β) (q : BlockCall) :
    (blockLink m).recv tag q events = some (r, []) := by
  obtain ⟨residue, hcsw⟩ := h.csw
  simp only [blockLink, hcsw, if_true, h.data]

theorem answers_failed (st : MscState) (lun : Nat) (tag : List UInt8) (dlen : UInt32)
    (sense : Sense) :
    Answers (st.fail lun tag dlen sense).2 tag st.cbwIn dlen ⟨statusFailed, []⟩ := by
  simp only [MscState.fail, MscState.stallDataPhase]
  split
  · exact ⟨[], dlen, .nothing fun _ => ‹_›, rfl⟩
  · exact ⟨_, dlen, .stall ‹_›, rfl⟩

/-- Data of the length that was announced is sent as it is. -/
theorem answers_dataIn (st : MscState) (hin : st.cbwIn = true) (tag : List UInt8) (dlen : UInt32)
    (data : List UInt8) (hlen : dlen.toNat = data.length) (hsmall : dlen.toNat < 2 ^ 31) :
    Answers (st.dataIn tag dlen data dlen) tag st.cbwIn dlen ⟨statusPassed, data⟩ := by
  have hsend : (if dlen < dlen then dlen else dlen) = dlen := by rw [ite_self]
  simp only [MscState.dataIn, hsend, int32_toNat hsmall]
  by_cases hzero : dlen = 0
  · subst hzero
    have hnil : data = [] := List.eq_nil_of_length_eq_zero hlen.symm
    subst hnil
    exact ⟨[], _, .nothing fun _ => rfl, rfl⟩
  · rw [if_pos hzero, hlen, List.take_length]
    have hsome : data ≠ [] := by
      rintro rfl
      exact hzero (UInt32.toNat_inj.mp hlen)
    exact ⟨_, _, .data hin hsome hlen.ge, rfl⟩

/-- What a command reports does not depend on the calls of `read`. -/
theorem Answers.read {events : List Event} {tag : List UInt8} {flagIn : Bool} {dlen : UInt32}
    {r : BlockReply} (h : Answers events tag flagIn dlen r) {lun : Nat} {lba count : UInt32}
    {rlen : Nat} : Answers (.read lun lba count rlen :: events) tag flagIn dlen r := h

theorem related_fail (h : Related m start s d) (flagIn : Bool) (lun : Nat) (sense : Sense) :
    Related m start ({ s.1 with cbwIn := flagIn }.setSense lun sense, s.2) (d.fail lun sense).1 where
  idle := h.idle
  nLuns := h.nLuns
  bytes := h.bytes
  lun i := by
    by_cases hi : i = lun
    · subst hi
      simp [MscState.setSense, Disks.fail, tableSet, h.lun]
    · simp [MscState.setSense, Disks.fail, tableSet, hi, h.lun]

/-- A command gets its answer, and is over with its wrapper when that has stalled the OUT pipe. -/
structure Turned (m : Medium β) (start : MscState) (s : MscState × β) (tag : UInt32) (q : BlockCall)
    (s' : MscState × β) (events : List Event) (served : Disks × BlockReply) : Prop where
  turn : m.turn s (q.wrapper tag :: q.chunks) = some (s', events, [])
  related : Related m start s' served.1
  answers : Answers events (u32le tag) q.flagIn q.dlen served.2
  stalls : .stall .usbOut ∈ events → .stall .usbOut ∈ (m.onOut s (q.wrapper tag)).2

/-- A command that is over with its wrapper. -/
theorem turn_closed {st' : MscState} {events : List Event} {tag : UInt32} {served : Disks × BlockReply}
    (hone : s.1.onOut (q.wrapper tag) (m.env s.2) = (st', events))
    (hmedia : m.after s.1.lun s.2 events = s.2) (hdata : q.chunks = [] ∨ .stall .usbOut ∈ events)
    (hrelated : Related m start (st', s.2) served.1)
    (hanswers : Answers events (u32le tag) q.flagIn q.dlen served.2) :
    Turned m start s tag q (st', s.2) events served := by
  have hout : m.onOut s (q.wrapper tag) = ((st', s.2), events) := by
    rw [Medium.onOut, hone, hmedia]
  refine ⟨?_, hrelated, hanswers, fun h => by rw [hout]; exact h⟩
  rw [Medium.turn, hout]
  dsimp only
  split
  · rfl
  · rename_i hstall
    rw [hdata.resolve_right hstall, Medium.onOuts, List.append_nil]

/-- A refused command leaves its sense data, and its data is not taken. -/
theorem turn_failed (h : Related m start s d) {sense : Sense} {unit : Nat} (tag : UInt32)
    (hone : s.1.onOut (q.wrapper tag) (m.env s.2) =
      { s.1 with cbwIn := q.flagIn }.fail unit (u32le tag) q.dlen sense)
    (hdata : q.chunks ≠ [] → q.flagIn = false ∧ q.dlen ≠ 0) :
    ∃ s' events, Turned m start s tag q s' events (d.fail unit sense) := by
  refine ⟨_, _, turn_closed hone ?_ ?_ (related_fail h q.flagIn unit sense)
    (answers_failed { s.1 with cbwIn := q.flagIn } unit _ _ sense)⟩
  · exact after_perform _ unit (u32le tag) q.dlen (m.env s.2) (.failed sense) s.1.lun s.2
  · by_cases hchunks : q.chunks = []
    · exact .inl hchunks
    · obtain ⟨hflag, hdlen⟩ := hdata hchunks
      refine .inr (List.mem_append_left _ ?_)
      rw [MscState.stallDataPhase, if_neg hdlen, hflag]
      exact List.mem_singleton_self _

theorem BlockCall.Proper.announces (h : q.Proper m start) (hchunks : q.chunks ≠ []) :
    q.flagIn = false ∧ q.dlen ≠ 0 := by
  cases q with
  | testUnitReady | requestSense | readCapacity | read => exact absurd rfl hchunks
  | write wide lun lba count chunks =>
    obtain ⟨-, -, hpos, hlt, -⟩ := h
    refine ⟨rfl, fun hzero => ?_⟩
    have hlen : (UInt32.ofNat chunks.flatten.length).toNat = chunks.flatten.length :=
      UInt32.toNat_ofNat_of_lt' hlt
    have hdlen : UInt32.ofNat chunks.flatten.length = 0 := hzero
    rw [hdlen] at hlen
    exact absurd hlen.symm (Nat.ne_of_gt hpos)

/-- A write that is not refused puts its data on the medium of the unit. -/
theorem turn_write (hm : m.Lawful) (h : Related m start s d) {wide : Bool} {lun : Nat}
    {lba count : UInt32} {chunks : List (List UInt8)}
    (hproper : (BlockCall.write wide lun lba count chunks).Proper m start) (hlun : lun < start.nLuns)
    (hreadOnly : (start.lun lun).readOnly = false) (hholds : m.Holds (start.lun lun).user lba count)
    (tag : UInt32) : ∃ s' events, Turned m start s tag (.write wide lun lba count chunks) s' events
      (d.store (start.lun lun).user ⟨m.size (start.lun lun).user lba, chunks.flatten⟩,
        ⟨statusPassed, []⟩) := by
  have hone := onOut_wrapper h hproper tag
  have hunit : ¬(BlockCall.write wide lun lba count chunks).lun ≥ start.nLuns := Nat.not_le.mpr hlun
  obtain ⟨-, -, hpos, hlt, hdata⟩ := hproper
  have hsize := hdata hlun
  have houtcome : (BlockCall.write wide lun lba count chunks).outcome m start d =
      .write lba count := by
    rw [BlockCall.outcome, if_neg (by simp [hreadOnly]), if_pos hholds]
  rw [if_neg hunit, if_neg hunit, houtcome] at hone
  have huser : ∀ i, (s.1.lun i).user = (start.lun i).user := fun i => by rw [h.lun i]
  have hbegun : s.1.onOut ((BlockCall.write wide lun lba count chunks).wrapper tag) (m.env s.2) =
      ({ s.1 with cbwIn := false }.beginWrite lun (u32le tag) lba count
        (m.blockSize (start.lun lun).user) (m.fresh s.2), []) := by
    rw [hone, ← huser lun]
    rfl
  have hroom := MscState.beginWrite_room { s.1 with cbwIn := false } lun (u32le tag) lba count
    (m.blockSize (start.lun lun).user) (m.fresh s.2)
  have hneed : (count * m.blockSize (start.lun lun).user).toNat =
      m.size (start.lun lun).user count := by
    rw [UInt32.toNat_mul]
    rw [hsize] at hlt
    exact Nat.mod_eq_of_lt hlt
  have hout : m.onOut s ((BlockCall.write wide lun lba count chunks).wrapper tag) =
      (({ s.1 with cbwIn := false }.beginWrite lun (u32le tag) lba count
        (m.blockSize (start.lun lun).user) (m.fresh s.2), s.2), []) := by
    rw [Medium.onOut, hbegun]
    rfl
  obtain ⟨s', events, hrun, hidle, hlun', hn, hbytes, hcsw⟩ := onOuts_write hm chunks
    ({ s.1 with cbwIn := false }.beginWrite lun (u32le tag) lba count
      (m.blockSize (start.lun lun).user) (m.fresh s.2)) s.2 [] (huser lun) rfl rfl rfl hroom
    (by rw [List.length_nil]; exact lt_of_lt_of_eq hpos (hsize.trans hneed.symm))
    (by rw [List.length_nil, Nat.zero_add]; exact hsize.trans hneed.symm)
    hholds hneed
  refine ⟨s', events, ⟨?_, ⟨hidle, hn.trans h.nLuns, fun i => ?_, ?_⟩,
    ⟨[], 0, .nothing (fun hin => nomatch hin), hcsw⟩, fun hstall => ?_⟩⟩
  · rw [Medium.turn, hout]
    exact congrArg (fun more => some (more.1, more.2, [])) hrun
  · rw [hlun']
    exact h.lun i
  · refine hbytes.trans ?_
    rw [h.bytes]
    rfl
  · have hmem : Event.stall .usbOut ∈ events.filter Event.onPipe := List.mem_filter.mpr ⟨hstall, rfl⟩
    rw [hcsw] at hmem
    simp at hmem

theorem turn_call (hm : m.Lawful) (h : Related m start s d) (hproper : q.Proper m start)
    (tag : UInt32) : ∃ s' events, Turned m start s tag q s' events (serveBlocks m start d q) := by
  have hone := onOut_wrapper h hproper tag
  by_cases hlun : q.lun ≥ start.nLuns
  · rw [if_pos hlun, if_pos hlun] at hone
    rw [serveBlocks, if_pos hlun]
    exact turn_failed h tag hone hproper.announces
  rw [if_neg hlun, if_neg hlun] at hone
  rw [serveBlocks, if_neg hlun]
  have hmedia := after_perform (m := m) { s.1 with cbwIn := q.flagIn } q.lun (u32le tag) q.dlen
    (m.env s.2) (q.outcome m start d) s.1.lun s.2
  cases q with
  | testUnitReady lun =>
    refine ⟨_, _, turn_closed hone hmedia (.inl rfl) ⟨h.idle, h.nLuns, h.lun, h.bytes⟩ ?_⟩
    exact ⟨[], 0, .nothing fun _ => rfl, rfl⟩
  | requestSense lun =>
    refine ⟨_, _, turn_closed hone hmedia (.inl rfl) ⟨h.idle, h.nLuns, ?_, h.bytes⟩ ?_⟩
    · exact (related_fail h true lun .ok).lun
    · exact answers_dataIn { s.1 with cbwIn := true } rfl _ _ _ rfl
        (by decide : (18 : UInt32).toNat < 2 ^ 31)
  | readCapacity lun =>
    refine ⟨_, _, turn_closed hone hmedia (.inl rfl) ⟨h.idle, h.nLuns, h.lun, h.bytes⟩ ?_⟩
    exact answers_dataIn { s.1 with cbwIn := true } rfl _ _ _ rfl
      (by decide : (8 : UInt32).toNat < 2 ^ 31)
  | read wide lun lba count len =>
    simp only [Disks.perform]
    by_cases hholds : m.Holds (start.lun lun).user lba count
    · rw [if_pos hholds]
      have houtcome : (BlockCall.read wide lun lba count len).outcome m start d =
          .read lba count (m.size (start.lun lun).user count) := if_pos hholds
      have huser : (s.1.lun lun).user = (start.lun lun).user := by rw [h.lun lun]
      obtain ⟨hrc, hread⟩ := hm.read s.2 (start.lun lun).user lba count hholds
      obtain ⟨-, -, hlen⟩ := hproper
      obtain ⟨hlen, hsmall⟩ := hlen (Nat.not_le.mp hlun)
      have hdlen : count * m.blockSize (start.lun lun).user = len := by
        apply UInt32.toNat_inj.mp
        rw [UInt32.toNat_mul, hlen]
        exact Nat.mod_eq_of_lt (lt_trans (hlen ▸ hsmall) (by decide))
      have hdata : (List.range (m.size (start.lun lun).user count)).map
          (m.read s.2 (start.lun lun).user lba count).2 =
            readout (fun i => d.bytes (start.lun lun).user (m.size (start.lun lun).user lba + i))
              (m.size (start.lun lun).user count) := by
        rw [← h.bytes]
        exact List.map_congr_left fun i hi => hread i (List.mem_range.mp hi)
      have hsent := answers_dataIn { s.1 with cbwIn := true } rfl (u32le tag) len
        (readout (fun i => d.bytes (start.lun lun).user (m.size (start.lun lun).user lba + i))
          (m.size (start.lun lun).user count)) (by simp [readout, hlen]) hsmall
      have hperform : { s.1 with cbwIn := true }.perform lun (u32le tag) len (m.env s.2)
          (.read lba count (m.size (start.lun lun).user count)) =
            ({ s.1 with cbwIn := true }, .read lun lba count (m.size (start.lun lun).user count) ::
              { s.1 with cbwIn := true }.dataIn (u32le tag) len
                (readout (fun i => d.bytes (start.lun lun).user
                  (m.size (start.lun lun).user lba + i)) (m.size (start.lun lun).user count)) len) := by
        simp only [MscState.perform, huser, Medium.env, hrc, hdata, hdlen, if_true]
      rw [houtcome] at hone hmedia
      refine ⟨_, _, turn_closed (hone.trans hperform) ?_ (.inl rfl)
        ⟨h.idle, h.nLuns, h.lun, h.bytes⟩ hsent.read⟩
      exact (congrArg (fun r => m.after s.1.lun s.2 r.2) hperform).symm.trans hmedia
    · rw [if_neg hholds]
      have houtcome : (BlockCall.read wide lun lba count len).outcome m start d =
          .failed .lbaRange := if_neg hholds
      rw [houtcome] at hone
      exact turn_failed h tag hone hproper.announces
  | write wide lun lba count chunks =>
    simp only [Disks.perform]
    have hunit : lun < start.nLuns := Nat.not_le.mp hlun
    by_cases hreadOnly : (start.lun lun).readOnly = true
    · have houtcome : (BlockCall.write wide lun lba count chunks).outcome m start d =
          .failed .writeProtect := if_pos hreadOnly
      rw [houtcome] at hone
      rw [if_pos hreadOnly]
      exact turn_failed h tag hone hproper.announces
    · rw [if_neg hreadOnly]
      by_cases hholds : m.Holds (start.lun lun).user lba count
      · rw [if_pos hholds]
        exact turn_write hm h hproper hunit (by simpa using hreadOnly) hholds tag
      · have houtcome : (BlockCall.write wide lun lba count chunks).outcome m start d =
            .failed .lbaRange := (if_neg hreadOnly).trans (if_neg hholds)
        rw [houtcome] at hone
        rw [if_neg hholds]
        exact turn_failed h tag hone hproper.announces

/-- A function between two commands has the media and the sense data that it has. -/
theorem related_self (m : Medium β) {st : MscState} (hidle : st.writing = false) (b : β) :
    Related m st (st, b) ⟨m.bytes b, fun i => (st.lun i).sense⟩ :=
  ⟨hidle, rfl, fun _ => rfl, rfl⟩

/-- A command of a host goes to the media, and its status and data come back. -/
theorem blockLink_carries (hm : m.Lawful) (start : MscState) :
    (blockLink m).Carries (Related m start) (serveBlocks m start) fun _ q => q.Proper m start := by
  intro s d tag q h hproper
  obtain ⟨s', events, hturned⟩ := turn_call hm h hproper (tag + 1)
  exact ⟨s', events, hturned.turn, hturned.related, hturned.answers.recv m q⟩

/-- A program of a host that reads and writes blocks gets over the Bulk-Only Transport what it would
get from the media themselves, however it splits the data that it sends; the media hold the same
bytes in the end, and nothing is left on the pipes. -/
theorem blocks_run (hm : m.Lawful) (h : Related m start s d) {α : Type}
    (program : Calls BlockCall BlockReply α)
    (hproper : program.Meets (serveBlocks m start) (fun _ q => q.Proper m start) d) (tag : UInt32) :
    ∃ s' tag', Related m start s' (program.run (serveBlocks m start) d).1 ∧
      (blockLink m).run ⟨s, tag, [], []⟩ program =
        some (⟨s', tag', [], []⟩, (program.run (serveBlocks m start) d).2) :=
  (blockLink_carries hm start).run h hproper tag

end

/-! ### A disk in memory -/

/-- 8 blocks of 4 bytes for each context. -/
def ram : Medium (Nat → Nat → UInt8) where
  numBlocks _ := 8
  blockSize _ := 4
  read s user lba _ := (0, fun i => s user (lba.toNat * 4 + i))
  write s user lba count buf :=
    (0, tableSet s user (Store.put (s user) ⟨lba.toNat * 4, buf.take (count.toNat * 4)⟩))
  fresh _ _ := 0
  bytes s := s

theorem ram_lawful : ram.Lawful where
  read _ _ _ _ _ := ⟨rfl, fun _ _ => rfl⟩
  write _ _ _ _ _ _ _ := ⟨rfl, rfl⟩

/-- A program that writes a block, and reads it back with the next one. -/
def writeRead : Calls BlockCall BlockReply (List UInt8) :=
  .call (.write false 0 1 1 [[1, 2, 3], [4]]) fun written =>
    if written.status = statusPassed then .call (.read true 0 1 2 8) fun got => .done got.data
    else .done []

theorem writeRead_proper (d : Disks) :
    writeRead.Meets (serveBlocks ram disk) (fun _ q => q.Proper ram disk) d := by
  refine ⟨⟨by decide, by decide, by decide, by decide, fun _ => rfl⟩, ?_⟩
  dsimp only
  split
  · exact ⟨⟨by decide, by decide, fun _ => ⟨rfl, by decide⟩⟩, trivial⟩
  · trivial

theorem blocks_run_ram : ∃ s tag, (blockLink ram).run ⟨(disk, fun _ _ => 0), 0, [], []⟩ writeRead =
    some (⟨s, tag, [], []⟩, [1, 2, 3, 4, 0, 0, 0, 0]) := by
  have hrelated : Related ram disk (disk, fun _ _ => 0) _ := related_self ram rfl fun _ _ => 0
  obtain ⟨s, tag, -, hrun⟩ := blocks_run ram_lawful hrelated writeRead (writeRead_proper _) 0
  exact ⟨s, tag, hrun⟩

end Usbip.Msc
