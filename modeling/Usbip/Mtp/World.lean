import Usbip.Lib.Stream
import Usbip.Mtp.Dataset

/-! The media-transfer class with its backend: what it calls, what it sends, and the scan that fills
the object table.  A backend may do anything on a call that its prototype allows. -/

namespace Usbip.Mtp

open Lib Control

/-- A C conversion to `int` and to `long`. -/
def toInt32 (n : Int) : Int := (BitVec.ofInt 32 n).toInt
def toInt64 (n : Int) : Int := (BitVec.ofInt 64 n).toInt

/-- What fits is kept. -/
theorem toInt32_of_lt {n : Nat} (h : n < 2 ^ 31) : toInt32 n = n := by
  rw [toInt32, BitVec.toInt_ofInt, Int.bmod_def]
  omega

theorem toInt64_of_lt {n : Int} (hlo : -2 ^ 63 ≤ n) (hhi : n < 2 ^ 63) : toInt64 n = n := by
  rw [toInt64, BitVec.toInt_ofInt, Int.bmod_def]
  omega

theorem toInt32_le {n : Int} (h : 0 ≤ n) : toInt32 n ≤ n := by
  rw [toInt32, BitVec.toInt_ofInt, Int.bmod_def]
  omega

/-! ### The backend -/

/-- A call of a backend callback, with the index of the store. -/
inductive Call
  | listdir (si : Nat) (path : CStr)
  | getInfo (si : Nat) (path : CStr)
  | read (si : Nat) (path : CStr) (off want : Int)
  | write (si : Nat) (path : CStr) (data : List UInt8) (len : Int)
  | makeDir (si : Nat) (path : CStr)
  | remove (si : Nat) (path : CStr)
  | rename (si : Nat) (path newpath : CStr)
  | pwrite (si : Nat) (path : CStr) (off : Int) (data : List UInt8) (len : Int)
  | truncate (si : Nat) (path : CStr) (size : UInt64)
  | diskUsage (si : Nat)
  | description (si : Nat)
  deriving DecidableEq, Repr

/-- What `read` returns, and what it has put into the buffer. -/
structure ReadResult where
  rc : Int
  data : List UInt8
  deriving DecidableEq, Repr

/-- What a call answers. The names come as they are emitted, and `none` is a negative return of
`get_info` and a null pointer of `description`. -/
def Call.Result : Call → Type
  | .listdir .. => List CStr
  | .getInfo .. => Option Info
  | .read .. => ReadResult
  | .diskUsage _ => UInt64 × UInt64
  | .description _ => Option CStr
  | _ => Int

/-- The callbacks of `mtp_opts` over what they keep, the local time of the C library, and the stack
that a scan has. -/
structure Backend (β : Type) where
  call : β → (c : Call) → c.Result × β
  hasPwrite : Bool
  hasTruncate : Bool
  hasDiskUsage : Bool
  hasDescription : Bool
  /-- `strftime` of `localtime` -/
  dateText : UInt32 → CStr
  /-- how many directories deep a scan can go -/
  depth : Nat

/-! ### The state -/

/-- `struct mtp_state`. `rxBuf` holds the first `rx_len` bytes of the buffer. -/
structure MtpState where
  readOnly : Bool
  nStores : Nat
  identity : Identity
  objs : List Obj
  nextHandle : UInt32
  sendTarget : UInt32
  session : UInt32
  rxActive : Bool
  rxCode : UInt16
  rxTxid : UInt32
  rxP : List UInt32
  rxBuf : List UInt8
  rxNeed : Int
  deriving DecidableEq, Repr

inductive Pipe
  | bulkIn
  | interrupt
  deriving DecidableEq, Repr

/-- The types of the containers that go to the host. -/
def ctData : UInt16 := 2
def ctResponse : UInt16 := 3
def ctEvent : UInt16 := 4

structure Container where
  type : UInt16
  code : UInt16
  txid : UInt32
  payload : List UInt8
  deriving DecidableEq, Repr

/-- A container as it goes over the wire, either way. -/
def Container.bytes (c : Container) : List UInt8 :=
  u32le (UInt32.ofNat (12 + c.payload.length)) ++ Device.u16le c.type ++ Device.u16le c.code ++
    u32le c.txid ++ c.payload

/-- What the class has done. -/
inductive Effect (β : Type)
  /-- a callback, and the state in which it was called -/
  | called (c : Call) (st : MtpState)
  | sent (pipe : Pipe) (c : Container)
  /-- the end of a `rescan`, with the table and the backend that it leaves -/
  | rescanned (st : MtpState) (disk : β)

/-- A run so far. It is stuck behind a recursion or a loop that does not end, a null callback, or a
size that is no size of the buffer; what the steps below do then stands for nothing. -/
structure World (β : Type) where
  st : MtpState
  disk : β
  log : List (Effect β)
  stuck : Bool

namespace World

variable {β : Type} (B : Backend β) (w : World β)

def setSt (st : MtpState) : World β := { w with st }

def note (e : Effect β) : World β := { w with log := w.log ++ [e] }

def fail : World β := { w with stuck := true }

def ask (c : Call) : c.Result × World β :=
  let answer := B.call w.disk c
  (answer.1, { w.note (.called c w.st) with disk := answer.2 })

/-- A call whose result is dropped. -/
def tell (c : Call) : World β := (w.ask B c).2

/-! ### Containers -/

/-- `send_one`: no memory can be had for a negative total. -/
def sendOne (pipe : Pipe) (type code : UInt16) (txid : UInt32) (payload : List UInt8) (plen : Int) :
    World β :=
  if plen < -12 then w
  else if plen < 0 ∨ payload.length < plen ∨ 2 ^ 31 ≤ 12 + plen then w.fail
  else w.note (.sent pipe ⟨type, code, txid, payload.take plen.toNat⟩)

@[simp] theorem sendOne_st (pipe : Pipe) (type code : UInt16) (txid : UInt32)
    (payload : List UInt8) (plen : Int) :
    (w.sendOne pipe type code txid payload plen).st = w.st := by
  unfold sendOne
  split
  · rfl
  · split <;> rfl

/-- What fits goes out. -/
theorem sendOne_of_le (pipe : Pipe) (type code : UInt16) (txid : UInt32) {payload : List UInt8}
    {plen : Nat} (hlen : plen ≤ payload.length) (hfits : plen < 2 ^ 31 - 12) :
    w.sendOne pipe type code txid payload plen =
      w.note (.sent pipe ⟨type, code, txid, payload.take plen⟩) := by
  rw [sendOne, if_neg (by omega), if_neg (by omega), Int.toNat_natCast]

def sendData (code : UInt16) (txid : UInt32) (payload : List UInt8) (len : Int) : World β :=
  w.sendOne .bulkIn ctData code txid payload len

def respond (rc : UInt16) (txid : UInt32) (values : List UInt32) : World β :=
  let values := values.take 5
  w.sendOne .bulkIn ctResponse rc txid (values.flatMap u32le) (4 * values.length)

@[simp] theorem respond_st (rc : UInt16) (txid : UInt32) (values : List UInt32) :
    (w.respond rc txid values).st = w.st := sendOne_st ..

theorem respond_eq (rc : UInt16) (txid : UInt32) (values : List UInt32) :
    w.respond rc txid values =
      w.note (.sent .bulkIn ⟨ctResponse, rc, txid, (values.take 5).flatMap u32le⟩) := by
  have hword : ∀ v, (u32le v).length = 4 := fun _ => rfl
  have hwords := length_flatMap_const hword (values.take 5)
  have htake : (values.take 5).length ≤ 5 := List.length_take_le ..
  have hsend := w.sendOne_of_le .bulkIn ctResponse rc txid hwords.ge (by omega)
  rwa [List.take_of_length_le hwords.le, Nat.mul_comm, Nat.cast_mul] at hsend

def sendEvent (code : UInt16) (param : UInt32) : World β :=
  w.sendOne .interrupt ctEvent code all (u32le param) 4

def dataOk (code : UInt16) (txid : UInt32) (payload : List UInt8) : World β :=
  (w.sendData code txid payload (toInt32 payload.length)).respond rcOk txid []

/-! ### The scan -/

def upsert (si : Nat) (full name : CStr) (parent : UInt32) (info : Info) : UInt32 × World β :=
  let (objs, nextHandle, handle) := objUpsert w.st.objs w.st.nextHandle si full name parent info
  (handle, w.setSt { w.st with objs, nextHandle })

end World

/-- `qsort` by `strcmp`, of names cut to the size of their slots. -/
def sortNames (names : List CStr) : List CStr :=
  (names.map (snprintf 256)).insertionSort fun a b => a ≤ b

section
variable {β : Type} (B : Backend β)

/-- One name of a directory, where `scan` scans the directory that it may be. -/
def scanName (scan : World β → CStr → UInt32 → World β) (si : Nat) (relpath : CStr)
    (parent : UInt32) (w : World β) (name : CStr) : World β :=
  let full := pathJoin 4096 relpath name
  let answer := w.ask B (.getInfo si full)
  let found : Option Info := answer.1
  match found with
  | none => answer.2
  | some info =>
    let (handle, w) := answer.2.upsert si full name parent info
    if info.isDir then scan w full handle else w

/-- `scan_dir`, at most `fuel` directories deep. -/
def scanDir (si : Nat) : Nat → World β → CStr → UInt32 → World β
  | 0, w, _, _ => w.fail
  | fuel + 1, w, relpath, parent =>
    let (names, w) := w.ask B (.listdir si relpath)
    (sortNames names).foldl (scanName B (scanDir si fuel) si relpath parent) w

def rescan (w : World β) : World β :=
  let w := w.setSt { w.st with objs := w.st.objs.map fun o => { o with alive := false } }
  let w := (List.range w.st.nStores).foldl (fun w si => scanDir B si B.depth w [] 0) w
  w.note (.rescanned w.st w.disk)

/-! ### Reading and copying -/

/-- `read_object`: the bytes from an offset, all of them when `want` is negative. -/
def readObject (w : World β) (o : Obj) (off want : Int) : ReadResult × World β :=
  let avail := max 0 (toInt64 (toInt64 o.size.toNat - off))
  let want := if want < 0 ∨ want > avail then avail else want
  let (r, w) := w.ask B (.read o.si o.path off (toInt32 want))
  (⟨r.rc, r.data.take want.toNat⟩, w)

/-- The children that `copy_tree` copies, where `copy` copies one of them. -/
def copyChildren (copy : World β → Obj → World β) (handle : UInt32) (w : World β) : World β :=
  w.st.objs.foldl (fun w child =>
    if child.alive && child.parent == handle then copy w child else w) w

/-- `copy_tree`, at most `fuel` objects deep. -/
def copyTree (dsi : Nat) : Nat → World β → Obj → CStr → CStr → World β
  | 0, w, _, _, _ => w.fail
  | fuel + 1, w, o, dest, name =>
    let neu := pathJoin 8192 dest name
    if o.isDir then
      copyChildren (fun w child => copyTree dsi fuel w child neu child.name) o.handle
        (w.tell B (.makeDir dsi neu))
    else
      let (r, w) := readObject B w o 0 (-1)
      w.tell B (.write dsi neu (r.data.take r.rc.toNat) r.rc)

end

end Usbip.Mtp
