import Usbip.Lib.Ring
import Usbip.Lib.Run
import Usbip.Types

/-! The pipe streams of the libusbK wrapper.  A thread of the stream and the callers of `StmK_Read`
and `StmK_Write` pass slots to each other through two rings.  A step is one section under the lock
of the stream, or what one party does between two of them. -/

namespace Usbip.Libusbk

open Lib

/-- `kstm_push`.  The index is a sum of two `int`s; it does not overflow in a ring of up to `2^30`
slots. -/
def kstmPush (ring : RingBuffer Nat) (capacity value : Nat) : RingBuffer Nat :=
  ring.push capacity value

/-- `kstm_pop`, with the same bound on the slots. -/
def kstmPop (ring : RingBuffer Nat) (capacity : Nat) : Option (Nat × RingBuffer Nat) :=
  ring.pop capacity

/-- What the stream reads of a `KSTM_XFER_CONTEXT`. -/
structure XferContext where
  buffer : List UInt8
  transferLength : Int
  deriving DecidableEq, Repr

namespace XferContext

/-- What a transfer has left in the buffer. -/
def data (xc : XferContext) : List UInt8 := xc.buffer.take xc.transferLength.toNat

/-- `memcpy` to the start of the buffer. -/
def fill (xc : XferContext) (data : List UInt8) : XferContext :=
  { xc with buffer := data ++ xc.buffer.drop data.length }

end XferContext

/-- Where `kstm_thread` is. -/
inductive KstmThread
  /-- at the head of its loop -/
  | waiting
  | submitting (slot : Nat)
  | failed (slot : Nat)
  | completed (slot : Nat)
  /-- it has returned, or there has been none -/
  | exited
  deriving DecidableEq, Repr

/-- A call of `StmK_Read` that has a slot; the calls are numbered in the order in which they got
theirs. -/
structure StmkRead where
  ticket : Nat
  slot : Nat
  offset : Int
  length : Int
  deriving DecidableEq, Repr

/-- `copying` are the calls of `StmK_Read` that have a slot and have not copied it, and `copied` the
slots of those that have. -/
structure Kstm where
  dir : Dir
  maxXfer : Nat
  nSlots : Nat
  thread : KstmThread
  running : Bool
  stop : Bool
  slots : List XferContext
  free : RingBuffer Nat
  ready : RingBuffer Nat
  takes : Nat
  copying : List StmkRead
  copied : List Nat

inductive KstmEvent
  /-- a transfer of an IN stream has filled a slot -/
  | filled (slot : Nat) (data : List UInt8)
  /-- a transfer of an OUT stream is sent -/
  | sent (slot : Nat) (data : List UInt8)
  /-- `StmK_Read` has copied to the buffer of its caller -/
  | delivered (read : StmkRead) (data : List UInt8)
  deriving DecidableEq, Repr

/-- `created` is what `pthread_create` answers; `rc`, `data` and `act` are what `lk_submit` answers,
puts into the buffer and reports. -/
inductive KstmAct
  | start (created : Bool)
  | stop
  | join
  | threadTake
  | threadSubmit (rc : Int) (data : List UInt8) (act : Int)
  | threadPush
  | read (offset length : Int)
  | readCopy (read : StmkRead)
  | readPush (slot : Nat)
  | write (data : List UInt8)
  deriving DecidableEq, Repr

/-- `StmK_Init`; `fresh` is what `malloc` leaves in the buffer of a slot. -/
def stmkInit (pipeId : UInt8) (maxTransferSize maxPendingTransfers : Int)
    (fresh : Nat → List UInt8) : Option Kstm :=
  if maxTransferSize ≤ 0 ∨ maxPendingTransfers ≤ 0 then none
  else
    let n := maxPendingTransfers.toNat
    some {
      dir := if pipeId &&& 0x80 ≠ 0 then .usbIn else .usbOut
      maxXfer := maxTransferSize.toNat
      nSlots := n
      thread := .exited
      running := false
      stop := false
      slots := (List.range n).map fun i => ⟨fresh i, 0⟩
      free := ⟨List.range n, 0, n⟩
      ready := ⟨List.replicate n 0, 0, 0⟩
      takes := 0
      copying := []
      copied := [] }

namespace Kstm

def slot (s : Kstm) (i : Nat) : XferContext := s.slots.getD i ⟨[], 0⟩

def setSlot (s : Kstm) (i : Nat) (xc : XferContext) : Kstm := { s with slots := s.slots.set i xc }

/-- `kstm_push` to the free ring. -/
def pushFree (s : Kstm) (slot : Nat) : Kstm := { s with free := kstmPush s.free s.nSlots slot }

def pushReady (s : Kstm) (slot : Nat) : Kstm := { s with ready := kstmPush s.ready s.nSlots slot }

/-- `kstm_pop` from the free ring. -/
def popFree (s : Kstm) : Option (Nat × Kstm) :=
  if 0 < s.free.count then
    (kstmPop s.free s.nSlots).map fun (slot, free) => (slot, { s with free })
  else none

def popReady (s : Kstm) : Option (Nat × Kstm) :=
  if 0 < s.ready.count then
    (kstmPop s.ready s.nSlots).map fun (slot, ready) => (slot, { s with ready })
  else none

/-- IN consumes a free slot, OUT consumes a ready one. -/
def threadPop (s : Kstm) : Option (Nat × Kstm) :=
  match s.dir with
  | .usbIn => s.popFree
  | .usbOut => s.popReady

/-- The transfer of `kstm_thread`, up to the section that gives the slot back. -/
def threadSubmit (s : Kstm) (slot : Nat) (rc : Int) (data : List UInt8) (act : Int) :
    Option (Kstm × List KstmEvent) :=
  let xc := s.slot slot
  match s.dir with
  | .usbIn =>
    if data.length ≤ s.maxXfer ∧ (0 ≤ rc → act.toNat = data.length) then
      let xc := xc.fill data
      if rc < 0 then some ({ s.setSlot slot xc with thread := .failed slot }, [])
      else
        some ({ s.setSlot slot { xc with transferLength := act } with thread := .completed slot },
          [.filled slot data])
    else none
  | .usbOut =>
    if rc < 0 then some ({ s with thread := .failed slot }, [.sent slot xc.data])
    else
      some ({ s.setSlot slot { xc with transferLength := act } with thread := .completed slot },
        [.sent slot xc.data])

/-- One step. A negative length is no length for `memcpy`, and the run ends there. -/
def step (s : Kstm) : KstmAct → Option (Kstm × List KstmEvent)
  | .start created =>
    if s.running then some (s, [])
    else
      some ({ s with
        stop := false
        thread := if created then .waiting else s.thread
        running := created }, [])
  | .stop => some (if s.running then { s with stop := true } else s, [])
  | .join =>
    if s.running ∧ s.thread = .exited then some ({ s with running := false }, []) else none
  | .threadTake =>
    if s.thread = .waiting then
      if s.stop then some ({ s with thread := .exited }, [])
      else
        s.threadPop.map fun (slot, s) => ({ s with thread := .submitting slot }, [])
    else none
  | .threadSubmit rc data act =>
    match s.thread with
    | .submitting slot => s.threadSubmit slot rc data act
    | _ => none
  | .threadPush =>
    match s.thread with
    | .failed slot => some ({ s.pushFree slot with thread := .waiting }, [])
    | .completed slot =>
      match s.dir with
      | .usbIn => some ({ s.pushReady slot with thread := .waiting }, [])
      | .usbOut => some ({ s.pushFree slot with thread := .waiting }, [])
    | _ => none
  | .read offset length =>
    match s.dir with
    | .usbOut => some (s, [])
    | .usbIn =>
      if s.ready.count = 0 then if s.stop then some (s, []) else none
      else
        s.popReady.map fun (slot, s) =>
          ({ s with
            takes := s.takes + 1
            copying := ⟨s.takes, slot, offset, length⟩ :: s.copying }, [])
  | .readCopy read =>
    let xc := s.slot read.slot
    let got := min xc.transferLength read.length
    if read ∈ s.copying ∧ 0 ≤ got then
      some ({ s with copying := s.copying.erase read, copied := read.slot :: s.copied },
        [.delivered read (xc.buffer.take got.toNat)])
    else none
  | .readPush slot =>
    if slot ∈ s.copied then some ({ s.pushFree slot with copied := s.copied.erase slot }, [])
    else none
  | .write data =>
    match s.dir with
    | .usbIn => some (s, [])
    | .usbOut =>
      let data := data.take s.maxXfer
      if s.free.count = 0 then if s.stop then some (s, []) else none
      else
        s.popFree.map fun (slot, s) =>
          let xc := (s.slot slot).fill data
          ((s.setSlot slot { xc with transferLength := data.length }).pushReady slot, [])

end Kstm

/-- A stream with what it has done so far. -/
structure KstmTrace where
  state : Kstm
  log : List KstmEvent

namespace KstmTrace

def step (t : KstmTrace) (act : KstmAct) : Option KstmTrace :=
  (t.state.step act).map fun (state, events) => ⟨state, t.log ++ events⟩

end KstmTrace

/-- What a step can do, with the state before it taken apart. -/
inductive KstmStep (s : Kstm) : KstmAct → Kstm → List KstmEvent → Prop
  | startRunning {created : Bool} : KstmStep s (.start created) s []
  | start (created : Bool) (idle : s.running = false) :
    KstmStep s (.start created) { s with
      stop := false
      thread := if created then .waiting else s.thread
      running := created } []
  | stop : KstmStep s .stop (if s.running then { s with stop := true } else s) []
  | join (exited : s.thread = .exited) : KstmStep s .join { s with running := false } []
  | threadExit (waiting : s.thread = .waiting) (stop : s.stop) :
    KstmStep s .threadTake { s with thread := .exited } []
  | threadFree {slot : Nat} {free : RingBuffer Nat} (waiting : s.thread = .waiting)
    (dir : s.dir = .usbIn) (nonempty : 0 < s.free.count)
    (pop : s.free.pop s.nSlots = some (slot, free)) :
    KstmStep s .threadTake { s with free, thread := .submitting slot } []
  | threadReady {slot : Nat} {ready : RingBuffer Nat} (waiting : s.thread = .waiting)
    (dir : s.dir = .usbOut) (nonempty : 0 < s.ready.count)
    (pop : s.ready.pop s.nSlots = some (slot, ready)) :
    KstmStep s .threadTake { s with ready, thread := .submitting slot } []
  | inFailed {slot : Nat} {rc : Int} {data : List UInt8} {act : Int}
    (submitting : s.thread = .submitting slot) :
    KstmStep s (.threadSubmit rc data act)
      { s.setSlot slot ((s.slot slot).fill data) with thread := .failed slot } []
  | inFilled {slot : Nat} {rc : Int} {data : List UInt8} {act : Int}
    (submitting : s.thread = .submitting slot) (dir : s.dir = .usbIn)
    (act_eq : act.toNat = data.length) :
    KstmStep s (.threadSubmit rc data act)
      { s.setSlot slot { (s.slot slot).fill data with transferLength := act } with
        thread := .completed slot } [.filled slot data]
  | outFailed {slot : Nat} {rc : Int} {data : List UInt8} {act : Int}
    (submitting : s.thread = .submitting slot) :
    KstmStep s (.threadSubmit rc data act) { s with thread := .failed slot }
      [.sent slot (s.slot slot).data]
  | outSent {slot : Nat} {rc : Int} {data : List UInt8} {act : Int}
    (submitting : s.thread = .submitting slot) (dir : s.dir = .usbOut) :
    KstmStep s (.threadSubmit rc data act)
      { s.setSlot slot { s.slot slot with transferLength := act } with thread := .completed slot }
      [.sent slot (s.slot slot).data]
  | pushFailed {slot : Nat} (failed : s.thread = .failed slot) :
    KstmStep s .threadPush { s.pushFree slot with thread := .waiting } []
  | pushFilled {slot : Nat} (completed : s.thread = .completed slot) (dir : s.dir = .usbIn) :
    KstmStep s .threadPush { s.pushReady slot with thread := .waiting } []
  | pushSent {slot : Nat} (completed : s.thread = .completed slot) (dir : s.dir = .usbOut) :
    KstmStep s .threadPush { s.pushFree slot with thread := .waiting } []
  | readNone {offset length : Int} : KstmStep s (.read offset length) s []
  | read {slot : Nat} {ready : RingBuffer Nat} (offset length : Int) (dir : s.dir = .usbIn)
    (nonempty : 0 < s.ready.count) (pop : s.ready.pop s.nSlots = some (slot, ready)) :
    KstmStep s (.read offset length) { s with
      ready
      takes := s.takes + 1
      copying := ⟨s.takes, slot, offset, length⟩ :: s.copying } []
  | readCopy {read : StmkRead} (copying : read ∈ s.copying)
    (got : 0 ≤ min (s.slot read.slot).transferLength read.length) :
    KstmStep s (.readCopy read)
      { s with copying := s.copying.erase read, copied := read.slot :: s.copied }
      [.delivered read ((s.slot read.slot).buffer.take
        (min (s.slot read.slot).transferLength read.length).toNat)]
  | readPush {slot : Nat} (copied : slot ∈ s.copied) :
    KstmStep s (.readPush slot) { s.pushFree slot with copied := s.copied.erase slot } []
  | writeNone {data : List UInt8} : KstmStep s (.write data) s []
  | write {data : List UInt8} {slot : Nat} {free : RingBuffer Nat} (dir : s.dir = .usbOut)
    (nonempty : 0 < s.free.count) (pop : s.free.pop s.nSlots = some (slot, free))
    (xc : XferContext) :
    KstmStep s (.write data) (({ s with free }.setSlot slot xc).pushReady slot) []

namespace Kstm

variable {s s' : Kstm} {act : KstmAct} {events : List KstmEvent}

theorem popFree_some {slot : Nat} (h : s.popFree = some (slot, s')) :
    0 < s.free.count ∧ ∃ free, s.free.pop s.nSlots = some (slot, free) ∧ s' = { s with free } := by
  unfold popFree at h
  split at h
  · rename_i hsome
    obtain ⟨⟨slot', free⟩, hpop, heq⟩ := Option.map_eq_some_iff.mp h
    cases heq
    exact ⟨hsome, free, hpop, rfl⟩
  · cases h

theorem popReady_some {slot : Nat} (h : s.popReady = some (slot, s')) :
    0 < s.ready.count ∧
      ∃ ready, s.ready.pop s.nSlots = some (slot, ready) ∧ s' = { s with ready } := by
  unfold popReady at h
  split at h
  · rename_i hsome
    obtain ⟨⟨slot', ready⟩, hpop, heq⟩ := Option.map_eq_some_iff.mp h
    cases heq
    exact ⟨hsome, ready, hpop, rfl⟩
  · cases h

theorem threadSubmit_step {slot : Nat} {rc : Int} {data : List UInt8} {actual : Int}
    (hsub : s.thread = .submitting slot)
    (h : s.threadSubmit slot rc data actual = some (s', events)) :
    KstmStep s (.threadSubmit rc data actual) s' events := by
  unfold threadSubmit at h
  dsimp only at h
  split at h
  · rename_i hdir
    split at h
    · rename_i hguard
      split at h
      · cases h
        exact .inFailed hsub
      · rename_i hrc
        cases h
        exact .inFilled hsub hdir (hguard.2 (by omega))
    · cases h
  · rename_i hdir
    split at h <;> cases h
    · exact .outFailed hsub
    · exact .outSent hsub hdir

theorem threadTake_step (h : s.step .threadTake = some (s', events)) :
    KstmStep s .threadTake s' events := by
  simp only [step] at h
  split at h
  · rename_i hwaiting
    split at h
    · rename_i hstop
      cases h
      exact .threadExit hwaiting hstop
    · obtain ⟨⟨slot, s''⟩, hpop, heq⟩ := Option.map_eq_some_iff.mp h
      cases heq
      unfold threadPop at hpop
      split at hpop
      · rename_i hdir
        obtain ⟨hsome, free, hfree, rfl⟩ := popFree_some hpop
        exact .threadFree hwaiting hdir hsome hfree
      · rename_i hdir
        obtain ⟨hsome, ready, hready, rfl⟩ := popReady_some hpop
        exact .threadReady hwaiting hdir hsome hready
  · cases h

theorem read_step {offset length : Int} (h : s.step (.read offset length) = some (s', events)) :
    KstmStep s (.read offset length) s' events := by
  simp only [step] at h
  split at h
  · cases h
    exact .readNone
  · rename_i hdir
    split at h
    · split at h <;> cases h
      exact .readNone
    · obtain ⟨⟨slot, s''⟩, hpop, heq⟩ := Option.map_eq_some_iff.mp h
      cases heq
      obtain ⟨hsome, ready, hready, rfl⟩ := popReady_some hpop
      exact .read offset length hdir hsome hready

theorem write_step {data : List UInt8} (h : s.step (.write data) = some (s', events)) :
    KstmStep s (.write data) s' events := by
  simp only [step] at h
  split at h
  · cases h
    exact .writeNone
  · rename_i hdir
    split at h
    · split at h <;> cases h
      exact .writeNone
    · obtain ⟨⟨slot, s''⟩, hpop, heq⟩ := Option.map_eq_some_iff.mp h
      cases heq
      obtain ⟨hsome, free, hfree, rfl⟩ := popFree_some hpop
      exact .write hdir hsome hfree _

theorem step_step (h : s.step act = some (s', events)) : KstmStep s act s' events := by
  cases act with
  | start created =>
    simp only [step] at h
    split at h <;> cases h
    · exact .startRunning
    · rename_i hidle
      exact .start created (Bool.eq_false_iff.mpr hidle)
  | stop =>
    cases h
    exact .stop
  | join =>
    simp only [step] at h
    split at h <;> cases h
    rename_i hexited
    exact .join hexited.2
  | threadTake => exact threadTake_step h
  | threadSubmit rc data actual =>
    simp only [step] at h
    split at h
    · rename_i hsub
      exact threadSubmit_step hsub h
    · cases h
  | threadPush =>
    simp only [step] at h
    split at h
    · rename_i hfailed
      cases h
      exact .pushFailed hfailed
    · rename_i hcompleted
      split at h <;> rename_i hdir <;> cases h
      · exact .pushFilled hcompleted hdir
      · exact .pushSent hcompleted hdir
    · cases h
  | read offset length => exact read_step h
  | readCopy read =>
    simp only [step] at h
    split at h <;> cases h
    rename_i hguard
    exact .readCopy hguard.1 hguard.2
  | readPush slot =>
    simp only [step] at h
    split at h <;> cases h
    rename_i hcopied
    exact .readPush hcopied
  | write data => exact write_step h

end Kstm

theorem KstmTrace.step_some {t t' : KstmTrace} {act : KstmAct} (h : t.step act = some t') :
    ∃ events, KstmStep t.state act t'.state events ∧ t'.log = t.log ++ events := by
  obtain ⟨⟨s, events⟩, hs, rfl⟩ := Option.map_eq_some_iff.mp h
  exact ⟨events, Kstm.step_step hs, rfl⟩

end Usbip.Libusbk
