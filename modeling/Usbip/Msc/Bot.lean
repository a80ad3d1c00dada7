import Usbip.Lib.Access
import Usbip.Msc.Scsi
import Usbip.Serve.Step

/-! The Bulk-Only Transport of the mass-storage class: a chunk from the OUT pipe is a command
wrapper, or data of the write in flight. -/

namespace Usbip.Msc

open Lib

/-- What the function does outside its own state. -/
inductive Event
  /-- a status wrapper on the IN pipe -/
  | csw (tag : List UInt8) (residue : UInt32) (status : UInt8)
  /-- the bytes that `usbip_device_write` puts on the IN pipe -/
  | dataIn (bytes : List UInt8)
  /-- `usbip_ep_stall` -/
  | stall (dir : Dir)
  /-- bytes copied to `wbuf` -/
  | stored (bytes : List UInt8)
  /-- a call of `read`, with the size of the buffer -/
  | read (lun : Nat) (lba count : UInt32) (rlen : Nat)
  /-- a call of `write`, with the block behind `buf` -/
  | write (lun : Nat) (lba count : UInt32) (buf : List UInt8)
  deriving DecidableEq, Repr

/-- A call of the backend. -/
def Event.isCall : Event → Bool
  | .read .. => true
  | .write .. => true
  | _ => false

/-- `BOT_STATUS_PASSED` and `BOT_STATUS_FAILED`. -/
def statusPassed : UInt8 := 0
def statusFailed : UInt8 := 1

/-- `struct msc_state`, without `pub` and the pipes. -/
structure MscState where
  opts : MscOpts
  lun : Nat → LunState
  nLuns : Nat
  cbwIn : Bool
  writing : Bool
  wlun : Nat
  wtag : List UInt8
  wlba : UInt32
  wcount : UInt32
  wneed : UInt32
  wgot : UInt32
  /-- the block behind `wbuf`, `[]` for a null pointer -/
  wbuf : List UInt8

/-- The backend, and what a block holds that `malloc` returns. -/
structure Env extends Backend where
  fresh : Nat → UInt8

structure Cbw where
  tag : List UInt8
  dlen : UInt32
  flagIn : Bool
  lun : Nat
  cdb : List UInt8
  deriving DecidableEq, Repr

/-- "USBC" -/
def cbwSig : List UInt8 := [0x55, 0x53, 0x42, 0x43]

/-- The wrapper in a chunk, if the chunk is one. -/
def parseCbw (chunk : List UInt8) : Option Cbw :=
  if chunk.length ≠ 31 ∨ chunk.take 4 ≠ cbwSig then none
  else
    some
      { tag := bytesAt chunk 4 4
        dlen := getLe32 (bytesAt chunk 8 4)
        flagIn := byteAt chunk 12 &&& 0x80 ≠ 0
        lun := (byteAt chunk 13 &&& 0x0f).toNat
        cdb := bytesAt chunk 15 16 }

namespace MscState

variable (st : MscState)

/-- `msc_build`, as far as the transport goes. -/
def build (opts : MscOpts) : Option MscState :=
  if opts.luns.length > 16 then none
  else
    some
      { opts
        lun := fun i => lunInit opts.luns[i]? opts
        nLuns := if opts.luns.length = 0 then 1 else opts.luns.length
        cbwIn := false
        writing := false
        wlun := 0
        wtag := List.replicate 4 0
        wlba := 0
        wcount := 0
        wneed := 0
        wgot := 0
        wbuf := [] }

def setSense (lun : Nat) (sense : Sense) : MscState :=
  { st with lun := tableSet st.lun lun { st.lun lun with sense } }

def stallDataPhase (dlen : UInt32) : List Event :=
  if dlen = 0 then [] else [.stall (if st.cbwIn then .usbIn else .usbOut)]

def fail (lun : Nat) (tag : List UInt8) (dlen : UInt32) (sense : Sense) :
    MscState × List Event :=
  (st.setSense lun sense, st.stallDataPhase dlen ++ [.csw tag dlen statusFailed])

def dataIn (tag : List UInt8) (dlen : UInt32) (data : List UInt8) (datalen : UInt32) :
    List Event :=
  let send := if datalen < dlen then datalen else dlen
  (if send ≠ 0 then [.dataIn (data.take (int32 send).toNat)] else st.stallDataPhase dlen) ++
    [.csw tag (dlen - send) statusPassed]

/-- The start of the data phase of a write. -/
def beginWrite (lun : Nat) (tag : List UInt8) (lba count bs : UInt32) (fresh : Nat → UInt8) :
    MscState :=
  let wneed := count * bs
  { st with
    writing := true
    wlun := lun
    wtag := tag
    wlba := lba
    wcount := count
    wneed
    wgot := 0
    wbuf := (List.range (if wneed ≠ 0 then wneed.toNat else 1)).map fresh }

/-- What `dispatch` does for a command that comes to an outcome. -/
def perform (lun : Nat) (tag : List UInt8) (dlen : UInt32) (env : Env) :
    Outcome → MscState × List Event
  | .passed => (st, [.csw tag 0 statusPassed])
  | .failed sense => st.fail lun tag dlen sense
  | .dataIn data => (st, st.dataIn tag dlen data data.length.toUInt32)
  | .senseIn data => (st.setSense lun .ok, st.dataIn tag dlen data data.length.toUInt32)
  | .read lba count rlen =>
    let (rc, buf) := env.read (st.lun lun).user lba count
    let (st', events) :=
      if rc = 0 then
        let data := (List.range rlen).map buf
        (st, st.dataIn tag dlen data (count * env.blockSize (st.lun lun).user))
      else st.fail lun tag dlen .unrecoveredRead
    (st', .read lun lba count rlen :: events)
  | .write lba count =>
    (st.beginWrite lun tag lba count (env.blockSize (st.lun lun).user) env.fresh, [])

def dispatch (lun : Nat) (tag : List UInt8) (dlen : UInt32) (cdb : List UInt8) (env : Env) :
    MscState × List Event :=
  st.perform lun tag dlen env (scsi st.opts (st.lun lun) env.toBackend cdb)

/-- A command wrapper outside a data phase. -/
def command (cbw : Cbw) (env : Env) : MscState × List Event :=
  let st := { st with cbwIn := cbw.flagIn }
  if cbw.lun ≥ st.nLuns then st.fail 0 cbw.tag cbw.dlen .lunNotSupported
  else st.dispatch cbw.lun cbw.tag cbw.dlen cbw.cdb env

/-- The bytes of a chunk that the write in flight takes. -/
def take (chunk : List UInt8) : UInt32 :=
  let len := UInt32.ofNat chunk.length
  if st.wgot + len > st.wneed then st.wneed - st.wgot else len

/-- A chunk in the data phase of a write is copied to `wbuf`. -/
def store (chunk : List UInt8) : MscState :=
  { st with
    wbuf := putBytes st.wbuf st.wgot.toNat (chunk.take (st.take chunk).toNat)
    wgot := st.wgot + st.take chunk }

/-- The end of the data phase of a write. -/
def complete (env : Env) : MscState × List Event :=
  let rc := env.write (st.lun st.wlun).user st.wlba st.wcount st.wbuf
  ({ st with wbuf := [], writing := false },
    [.write st.wlun st.wlba st.wcount st.wbuf,
      .csw st.wtag 0 (if rc = 0 then statusPassed else statusFailed)])

/-- A chunk in the data phase of a write. -/
def data (chunk : List UInt8) (env : Env) : MscState × List Event :=
  let stored := Event.stored (chunk.take (st.take chunk).toNat)
  let st := st.store chunk
  if st.wgot ≥ st.wneed then
    let (st, events) := st.complete env
    (st, stored :: events)
  else (st, [stored])

def onOut (chunk : List UInt8) (env : Env) : MscState × List Event :=
  if st.writing then st.data chunk env
  else
    match parseCbw chunk with
    | none => (st, [])
    | some cbw => st.command cbw env

def control (setup : Setup) : Handled MscState :=
  if setup.bRequest = 0xfe then
    ⟨[.write ⟨0, [(st.nLuns - 1).toUInt8]⟩], st, 1⟩
  else if setup.bRequest = 0xff then ⟨[], { st with writing := false, wbuf := [] }, 0⟩
  else ⟨[], st, -1⟩

end MscState

/-- What reaches the function: a chunk from the OUT pipe, or a control request. -/
inductive Act
  | out (chunk : List UInt8) (env : Env)
  | control (setup : Setup)

def MscState.step (st : MscState) : Act → MscState × List Event
  | .out chunk env => st.onOut chunk env
  | .control setup => ((st.control setup).state, [])

def MscState.next (st : MscState) (act : Act) : Option MscState := some (st.step act).1

namespace MscState

variable {st : MscState} {chunk : List UInt8}

/-! ### Which way a chunk goes -/

theorem onOut_of_writing (h : st.writing = true) (chunk : List UInt8) (env : Env) :
    st.onOut chunk env = st.data chunk env := if_pos h

theorem onOut_of_idle (h : st.writing = false) (chunk : List UInt8) (env : Env) :
    st.onOut chunk env = match parseCbw chunk with
      | none => (st, [])
      | some cbw => st.command cbw env := if_neg (by simp [h])

/-- The unit that a command is charged to. -/
def unit (st : MscState) (cbw : Cbw) : Nat := if cbw.lun ≥ st.nLuns then 0 else cbw.lun

/-- What a wrapper outside a data phase comes to. -/
def outcome (st : MscState) (cbw : Cbw) (env : Env) : Outcome :=
  if cbw.lun ≥ st.nLuns then .failed .lunNotSupported
  else scsi st.opts (st.lun cbw.lun) env.toBackend cbw.cdb

/-- A command does what its outcome says. -/
theorem command_eq (st : MscState) (cbw : Cbw) (env : Env) :
    st.command cbw env =
      { st with cbwIn := cbw.flagIn }.perform (st.unit cbw) cbw.tag cbw.dlen env
        (st.outcome cbw env) := by
  by_cases h : cbw.lun ≥ st.nLuns
  · rw [outcome, unit, if_pos h, if_pos h]
    exact if_pos h
  · rw [outcome, unit, if_neg h, if_neg h]
    exact if_neg h

theorem outcome_sound (st : MscState) (cbw : Cbw) (env : Env) :
    (st.outcome cbw env).Sound (st.lun (st.unit cbw)) env.toBackend cbw.cdb := by
  by_cases h : cbw.lun ≥ st.nLuns
  · rw [outcome, unit, if_pos h, if_pos h]
    exact (by decide : (5 : UInt8) ≠ 0)
  · rw [outcome, unit, if_neg h, if_neg h]
    exact scsi_sound st.opts _ env.toBackend cbw.cdb

theorem lun_of_outcome {cbw : Cbw} {env : Env} {o : Outcome} (ho : st.outcome cbw env = o)
    (h : ∀ sense, o ≠ .failed sense) : ¬cbw.lun ≥ st.nLuns :=
  fun hge => h .lunNotSupported (ho.symm.trans (if_pos hge))

/-! ### What a command makes happen -/

theorem mem_stallDataPhase {dlen : UInt32} {ev : Event} (h : ev ∈ st.stallDataPhase dlen) :
    ∃ dir, ev = .stall dir := by
  unfold stallDataPhase at h
  split at h
  · cases h
  · exact ⟨_, List.mem_singleton.mp h⟩

theorem mem_dataIn {tag data : List UInt8} {dlen datalen : UInt32} {ev : Event}
    (h : ev ∈ st.dataIn tag dlen data datalen) :
    (∃ bytes, ev = .dataIn bytes) ∨ (∃ dir, ev = .stall dir) ∨
      ∃ residue, ev = .csw tag residue statusPassed := by
  unfold dataIn at h
  generalize (if datalen < dlen then datalen else dlen) = send at h
  rcases List.mem_append.mp h with h | h
  · split at h
    · exact .inl ⟨_, List.mem_singleton.mp h⟩
    · exact .inr (.inl (mem_stallDataPhase h))
  · exact .inr (.inr ⟨_, List.mem_singleton.mp h⟩)

theorem smaller_toNat (a b : UInt32) : (if a < b then a else b).toNat = min a.toNat b.toNat := by
  by_cases h : a < b
  · rw [if_pos h]
    exact (Nat.min_eq_left (Nat.le_of_lt h)).symm
  · rw [if_neg h]
    exact (Nat.min_eq_right (Nat.not_lt.mp h)).symm

/-! ### The data phase of a write -/

theorem beginWrite_room (st : MscState) (lun : Nat) (tag : List UInt8) (lba count bs : UInt32)
    (fresh : Nat → UInt8) :
    (st.beginWrite lun tag lba count bs fresh).wneed.toNat ≤
      (st.beginWrite lun tag lba count bs fresh).wbuf.length := by
  simp only [beginWrite, List.length_map, List.length_range]
  split
  · exact Nat.le_refl _
  · rename_i hzero
    rw [not_not.mp hzero]
    exact Nat.zero_le 1

theorem store_room (st : MscState) (chunk : List UInt8) :
    st.wbuf.length ≤ (st.store chunk).wbuf.length := by
  simp only [store, length_putBytes]
  omega

/-- A chunk is taken up to the end of the data phase, unless the machine addition wraps. -/
theorem take_toNat (hle : st.wgot.toNat ≤ st.wneed.toNat)
    (hwrap : st.wgot.toNat + chunk.length < 2 ^ 32) :
    (st.take chunk).toNat = min chunk.length (st.wneed.toNat - st.wgot.toNat) := by
  have hlen : (UInt32.ofNat chunk.length).toNat = chunk.length := by
    rw [UInt32.toNat_ofNat']
    omega
  have hsum : (st.wgot + UInt32.ofNat chunk.length).toNat = st.wgot.toNat + chunk.length := by
    rw [UInt32.toNat_add, hlen]
    omega
  unfold take
  dsimp only
  split
  · rename_i h
    have hlt : st.wneed.toNat < st.wgot.toNat + chunk.length := by
      rw [← hsum]
      exact h
    rw [UInt32.toNat_sub_of_le _ _ hle]
    omega
  · rename_i h
    have hge : ¬st.wneed.toNat < st.wgot.toNat + chunk.length := by
      rw [← hsum]
      exact h
    rw [hlen]
    omega

theorem store_wgot (hle : st.wgot.toNat ≤ st.wneed.toNat)
    (hwrap : st.wgot.toNat + chunk.length < 2 ^ 32) :
    (st.store chunk).wgot.toNat = st.wgot.toNat +
      min chunk.length (st.wneed.toNat - st.wgot.toNat) := by
  have hlt := st.wneed.toNat_lt
  rw [store, UInt32.toNat_add, take_toNat hle hwrap]
  omega

@[simp] theorem store_wneed (st : MscState) (chunk : List UInt8) :
    (st.store chunk).wneed = st.wneed := rfl

@[simp] theorem store_writing (st : MscState) (chunk : List UInt8) :
    (st.store chunk).writing = st.writing := rfl

@[simp] theorem store_wtag (st : MscState) (chunk : List UInt8) :
    (st.store chunk).wtag = st.wtag := rfl

theorem data_more (env : Env) (hmore : st.wgot.toNat + chunk.length < st.wneed.toNat) :
    st.data chunk env = (st.store chunk, [.stored chunk]) := by
  have hlt := st.wneed.toNat_lt
  have hle : st.wgot.toNat ≤ st.wneed.toNat := by omega
  have hwrap : st.wgot.toNat + chunk.length < 2 ^ 32 := by omega
  have hwgot : ¬(st.store chunk).wgot ≥ (st.store chunk).wneed := by
    intro h
    have : st.wneed.toNat ≤ (st.store chunk).wgot.toNat := h
    rw [store_wgot hle hwrap] at this
    omega
  have htake : chunk.take (st.take chunk).toNat = chunk := by
    rw [take_toNat hle hwrap]
    exact List.take_of_length_le (by omega)
  simp only [data, if_neg hwgot, htake]

theorem data_last (env : Env) (hle : st.wgot.toNat ≤ st.wneed.toNat)
    (hwrap : st.wgot.toNat + chunk.length < 2 ^ 32)
    (hlast : st.wneed.toNat ≤ st.wgot.toNat + chunk.length) :
    st.data chunk env =
      (((st.store chunk).complete env).1,
        .stored (chunk.take (st.wneed.toNat - st.wgot.toNat)) ::
          ((st.store chunk).complete env).2) := by
  have hwgot : (st.store chunk).wgot ≥ (st.store chunk).wneed := by
    show st.wneed.toNat ≤ (st.store chunk).wgot.toNat
    rw [store_wgot hle hwrap]
    omega
  have htake : chunk.take (st.take chunk).toNat =
      chunk.take (st.wneed.toNat - st.wgot.toNat) := by
    rw [take_toNat hle hwrap]
    rcases Nat.le_total chunk.length (st.wneed.toNat - st.wgot.toNat) with h | h
    · rw [Nat.min_eq_left h, List.take_length, List.take_of_length_le h]
    · rw [Nat.min_eq_right h]
  simp only [data, if_pos hwgot, htake]

end MscState

/-! ### A disk of 8 blocks of 4 bytes -/

/-- The options that the disk is built with, and the disk. -/
def diskOpts : MscOpts := ⟨0, mediumDisk, false, none, none, none, none, []⟩

def disk : MscState := (MscState.build diskOpts).get rfl

def diskEnv : Env where
  numBlocks _ := 8
  blockSize _ := 4
  read _ _ _ := (0, fun _ => 0)
  write _ _ _ _ := 0
  fresh _ := 0

/-- A wrapper for `WRITE_10` at block 0. -/
def writeChunk (dlen count : UInt8) : List UInt8 :=
  cbwSig ++ [1, 0, 0, 0, dlen, 0, 0, 0, 0, 0, 10] ++
    [0x2a, 0, 0, 0, 0, 0, 0, 0, count, 0, 0, 0, 0, 0, 0, 0]

end Usbip.Msc
