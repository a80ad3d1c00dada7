import Mathlib.Algebra.Order.Ring.Int
import Mathlib.Data.List.Basic
import Usbip.Lib.Run

/-! The overlapped handles of the libusbK wrapper: a pool of them, operations that the worker thread
completes into them, and the threads that wait for that.  A step is one section under a lock, or one
access to what the threads share. -/

namespace Usbip.Libusbk

open Lib

/-- A `KOVL_HANDLE`, by its place in the pool. -/
abbrev OvlId := Nat

def statusPending : Nat := 0x103
def lkStatusFail : Nat := 0xC0000001

def releaseOnSuccess : Nat := 0x1
def releaseOnFail : Nat := 0x2
def cancelOnTimeout : Nat := 0x4
def releaseOnTimeout : Nat := 0xC
def releaseAlways : Nat := 0xF

/-- A conversion to `ULONG_PTR`. -/
def ulongPtr (x : Int) : Nat := (x % 2 ^ 64).toNat

/-- `struct kovl`; `hEvent` is `none` when there is no event, and else says whether it is set. -/
structure Kovl where
  internal : Nat
  internalHigh : Nat
  hEvent : Option Bool
  nextFree : Option OvlId
  deriving DecidableEq, Repr

/-- A `struct aop`, of which the results only need its handle; `num` numbers the operations. -/
structure Aop where
  num : Nat
  ovl : OvlId
  deriving DecidableEq, Repr

/-- Where `kusb_worker` is. -/
inductive OvlWorker
  | idle
  | running (op : Aop)
  | answered (op : Aop) (rc actual : Int)
  /-- behind the write of `InternalHigh` -/
  | wroteHigh (op : Aop) (rc : Int)
  /-- behind the write of `Internal` -/
  | wroteStatus (op : Aop)
  deriving DecidableEq, Repr

/-- Where a thread in `lk_ovl_wait` is. -/
inductive WaitPc
  | waiting
  | woken
  /-- with the transferred length -/
  | read (transferred : Nat)
  | releasing
  deriving DecidableEq, Repr

structure OvlWait where
  ovl : OvlId
  timeoutMs : Int
  flags : Nat
  pc : WaitPc
  deriving DecidableEq, Repr

/-- A pool and the worker of its device; `acquiring` are the handles that `OvlK_Acquire` has taken
off the list and not yet returned, and `preparing` the operations that are not yet queued. -/
structure OvlPool where
  ovls : List Kovl
  freeList : Option OvlId
  acquiring : List OvlId
  ops : Nat
  preparing : List Aop
  queue : List Aop
  workerStarted : Bool
  worker : OvlWorker
  waits : List OvlWait

inductive OvlEvent
  /-- `OvlK_Acquire` has returned the handle -/
  | acquired (o : OvlId)
  | refused
  | released (o : OvlId)
  /-- the operation is on the queue of the worker -/
  | queued (num : Nat) (o : OvlId)
  | dropped (num : Nat)
  /-- the device has answered the operation -/
  | completed (num : Nat) (rc actual : Int)
  /-- the worker has written to the handle of the operation -/
  | delivered (num : Nat) (o : OvlId)
  /-- a wait has found the operation of the handle complete, and succeeded or not -/
  | reported (o : OvlId) (ok : Bool) (transferred : Nat)
  | timedOut (o : OvlId)
  deriving DecidableEq, Repr

/-- `created` is what `pthread_create` answers, `rc` and `actual` what the device answers. -/
inductive OvlAct
  | acquire
  | acquireReset (o : OvlId)
  | release (o : OvlId)
  | queue (o : OvlId)
  | enqueue (op : Aop) (created : Bool)
  | workerTake
  | workerRun (rc actual : Int)
  | workerHigh
  | workerStatus
  | workerEvent
  | wait (o : OvlId) (timeoutMs : Int) (flags : Nat)
  | wake (w : OvlWait)
  | timeout (w : OvlWait)
  | readHigh (w : OvlWait)
  | readStatus (w : OvlWait)
  | waitRelease (w : OvlWait)
  deriving DecidableEq, Repr

/-- `OvlK_WaitAndRelease`. -/
def OvlAct.waitAndRelease (o : OvlId) (timeoutMs : Int) : OvlAct := .wait o timeoutMs releaseAlways

/-- `OvlK_WaitOrCancel`. -/
def OvlAct.waitOrCancel (o : OvlId) (timeoutMs : Int) : OvlAct := .wait o timeoutMs cancelOnTimeout

namespace OvlPool

def empty : OvlPool := ⟨[], none, [], 0, [], [], false, .idle, []⟩

/-- One turn of the loop of `OvlK_Init`; `hasEvent` is what `CreateEvent` answers. -/
def push (s : OvlPool) (hasEvent : Bool) : OvlPool :=
  { s with
    ovls := s.ovls ++ [⟨0, 0, if hasEvent then some false else none, s.freeList⟩]
    freeList := some s.ovls.length }

/-- `OvlK_Init`, with an answer of `CreateEvent` for each handle that is allocated. -/
def ovlkInit (events : List Bool) : OvlPool := events.foldl push empty

def get (s : OvlPool) (o : OvlId) : Kovl := s.ovls.getD o ⟨0, 0, none, none⟩

def modify (s : OvlPool) (o : OvlId) (f : Kovl → Kovl) : OvlPool :=
  { s with ovls := s.ovls.modify o f }

/-- `OvlK_Release`. -/
def free (s : OvlPool) (o : OvlId) : OvlPool :=
  { s.modify o fun ovl => { ovl with nextFree := s.freeList } with freeList := some o }

/-- What `OvlK_Acquire` and `kusb_queue` write before the handle is used. -/
def reset (s : OvlPool) (o : OvlId) (internal : Nat) : OvlPool :=
  s.modify o fun ovl =>
    { ovl with internal, internalHigh := 0, hEvent := ovl.hEvent.map fun _ => false }

/-- A wait goes on to `pc`. -/
def setWait (s : OvlPool) (w : OvlWait) (pc : WaitPc) : OvlPool :=
  { s with waits := { w with pc } :: s.waits.erase w }

/-- A wait returns, by way of `OvlK_Release` when its flags say so. -/
def endWait (s : OvlPool) (w : OvlWait) (mask : Nat) : OvlPool :=
  if w.flags &&& mask ≠ 0 then s.setWait w .releasing else { s with waits := s.waits.erase w }

/-- What a wait for the handle waits for. -/
def complete (s : OvlPool) (o : OvlId) : Bool :=
  match (s.get o).hEvent with
  | some isSet => isSet
  | none => (s.get o).internal ≠ statusPending

/-- `OvlK_Acquire` up to the end of its section. -/
def acquire (s : OvlPool) : OvlPool × List OvlEvent :=
  match s.freeList with
  | some o => ({ s with freeList := (s.get o).nextFree, acquiring := o :: s.acquiring }, [])
  | none => (s, [.refused])

/-- `kusb_queue` behind the preparation of the operation. -/
def enqueue (s : OvlPool) (op : Aop) (created : Bool) : OvlPool × List OvlEvent :=
  let s := { s with preparing := s.preparing.erase op }
  if s.workerStarted ∨ created then
    ({ s with workerStarted := true, queue := s.queue ++ [op] }, [.queued op.num op.ovl])
  else (s, [.dropped op.num])

/-- One step of a thread. The application hands over handles of the pool.  What `kusb_queue` writes to
a handle is one step: what holds when it begins is to hold until it has written. -/
def step (s : OvlPool) : OvlAct → Option (OvlPool × List OvlEvent)
  | .acquire => some s.acquire
  | .acquireReset o =>
    if o ∈ s.acquiring then
      some ({ s.reset o 0 with acquiring := s.acquiring.erase o }, [.acquired o])
    else none
  | .release o => if o < s.ovls.length then some (s.free o, [.released o]) else none
  | .queue o =>
    if o < s.ovls.length then
      some ({ s.reset o statusPending with
        ops := s.ops + 1
        preparing := ⟨s.ops, o⟩ :: s.preparing }, [])
    else none
  | .enqueue op created => if op ∈ s.preparing then some (s.enqueue op created) else none
  | .workerTake =>
    match s.worker, s.queue with
    | .idle, op :: rest =>
      if s.workerStarted then some ({ s with queue := rest, worker := .running op }, []) else none
    | _, _ => none
  | .workerRun rc actual =>
    match s.worker with
    | .running op =>
      some ({ s with worker := .answered op rc actual }, [.completed op.num rc actual])
    | _ => none
  | .workerHigh =>
    match s.worker with
    | .answered op rc actual =>
      let s := s.modify op.ovl fun ovl =>
        { ovl with internalHigh := if rc < 0 then 0 else ulongPtr actual }
      some ({ s with worker := .wroteHigh op rc }, [.delivered op.num op.ovl])
    | _ => none
  | .workerStatus =>
    match s.worker with
    | .wroteHigh op rc =>
      let s := s.modify op.ovl fun ovl =>
        { ovl with internal := if rc < 0 then lkStatusFail else 0 }
      some ({ s with worker := .wroteStatus op }, [.delivered op.num op.ovl])
    | _ => none
  | .workerEvent =>
    match s.worker with
    | .wroteStatus op =>
      let s := s.modify op.ovl fun ovl => { ovl with hEvent := ovl.hEvent.map fun _ => true }
      some ({ s with worker := .idle }, [.delivered op.num op.ovl])
    | _ => none
  | .wait o timeoutMs flags =>
    if o < s.ovls.length then
      some ({ s with waits := ⟨o, timeoutMs, flags, .waiting⟩ :: s.waits }, [])
    else none
  | .wake w =>
    if w ∈ s.waits ∧ w.pc = .waiting ∧ s.complete w.ovl then some (s.setWait w .woken, []) else none
  | .timeout w =>
    if w ∈ s.waits ∧ w.pc = .waiting ∧ 0 ≤ w.timeoutMs ∧ ¬s.complete w.ovl then
      some (s.endWait w releaseOnTimeout, [.timedOut w.ovl])
    else none
  | .readHigh w =>
    if w ∈ s.waits ∧ w.pc = .woken then
      some (s.setWait w (.read ((s.get w.ovl).internalHigh % 2 ^ 32)), [])
    else none
  | .readStatus w =>
    match w.pc with
    | .read transferred =>
      if w ∈ s.waits then
        let ok := (s.get w.ovl).internal = 0
        some (s.endWait w (if ok then releaseOnSuccess else releaseOnFail),
          [.reported w.ovl ok transferred])
      else none
    | _ => none
  | .waitRelease w =>
    if w ∈ s.waits ∧ w.pc = .releasing then
      some ({ s.free w.ovl with waits := s.waits.erase w }, [.released w.ovl])
    else none

end OvlPool

/-- A pool with what has happened so far. -/
structure OvlTrace where
  state : OvlPool
  log : List OvlEvent

namespace OvlTrace

def new (events : List Bool) : OvlTrace := ⟨.ovlkInit events, []⟩

def step (t : OvlTrace) (act : OvlAct) : Option OvlTrace :=
  (t.state.step act).map fun (state, events) => ⟨state, t.log ++ events⟩

end OvlTrace

/-- What a step can do, with the state before it taken apart. -/
inductive OvlStep (s : OvlPool) : OvlAct → OvlPool → List OvlEvent → Prop
  | acquire {o : OvlId} (head : s.freeList = some o) :
    OvlStep s .acquire
      { s with freeList := (s.get o).nextFree, acquiring := o :: s.acquiring } []
  | refuse : OvlStep s .acquire s [.refused]
  | acquireReset {o : OvlId} (acquiring : o ∈ s.acquiring) :
    OvlStep s (.acquireReset o) { s.reset o 0 with acquiring := s.acquiring.erase o }
      [.acquired o]
  | release {o : OvlId} (lt : o < s.ovls.length) : OvlStep s (.release o) (s.free o) [.released o]
  | queue {o : OvlId} (lt : o < s.ovls.length) :
    OvlStep s (.queue o) { s.reset o statusPending with
      ops := s.ops + 1
      preparing := ⟨s.ops, o⟩ :: s.preparing } []
  | enqueue {op : Aop} {created : Bool} (preparing : op ∈ s.preparing) :
    OvlStep s (.enqueue op created) { s with
      preparing := s.preparing.erase op
      workerStarted := true
      queue := s.queue ++ [op] } [.queued op.num op.ovl]
  | drop {op : Aop} {created : Bool} (preparing : op ∈ s.preparing) :
    OvlStep s (.enqueue op created) { s with preparing := s.preparing.erase op } [.dropped op.num]
  | workerTake {op : Aop} {rest : List Aop} (idle : s.worker = .idle)
    (queue : s.queue = op :: rest) :
    OvlStep s .workerTake { s with queue := rest, worker := .running op } []
  | workerRun {op : Aop} (rc actual : Int) (running : s.worker = .running op) :
    OvlStep s (.workerRun rc actual) { s with worker := .answered op rc actual }
      [.completed op.num rc actual]
  | workerHigh {op : Aop} {rc actual : Int} (answered : s.worker = .answered op rc actual) :
    OvlStep s .workerHigh
      { s.modify op.ovl fun ovl =>
          { ovl with internalHigh := if rc < 0 then 0 else ulongPtr actual } with
        worker := .wroteHigh op rc } [.delivered op.num op.ovl]
  | workerStatus {op : Aop} {rc : Int} (wroteHigh : s.worker = .wroteHigh op rc) :
    OvlStep s .workerStatus
      { s.modify op.ovl fun ovl => { ovl with internal := if rc < 0 then lkStatusFail else 0 } with
        worker := .wroteStatus op } [.delivered op.num op.ovl]
  | workerEvent {op : Aop} (wroteStatus : s.worker = .wroteStatus op) :
    OvlStep s .workerEvent
      { s.modify op.ovl fun ovl => { ovl with hEvent := ovl.hEvent.map fun _ => true } with
        worker := .idle } [.delivered op.num op.ovl]
  | wait {o : OvlId} (timeoutMs : Int) (flags : Nat) :
    OvlStep s (.wait o timeoutMs flags)
      { s with waits := ⟨o, timeoutMs, flags, .waiting⟩ :: s.waits } []
  | wake {w : OvlWait} (mem : w ∈ s.waits) (complete : s.complete w.ovl) :
    OvlStep s (.wake w) (s.setWait w .woken) []
  | timeout {w : OvlWait} (mem : w ∈ s.waits) :
    OvlStep s (.timeout w) (s.endWait w releaseOnTimeout) [.timedOut w.ovl]
  | readHigh {w : OvlWait} (mem : w ∈ s.waits) (woken : w.pc = .woken) :
    OvlStep s (.readHigh w) (s.setWait w (.read ((s.get w.ovl).internalHigh % 2 ^ 32))) []
  | readStatus {w : OvlWait} {transferred : Nat} (mem : w ∈ s.waits)
    (read : w.pc = .read transferred) (mask : Nat) :
    OvlStep s (.readStatus w) (s.endWait w mask)
      [.reported w.ovl ((s.get w.ovl).internal = 0) transferred]
  | waitRelease {w : OvlWait} (mem : w ∈ s.waits) :
    OvlStep s (.waitRelease w) { s.free w.ovl with waits := s.waits.erase w } [.released w.ovl]

namespace OvlPool

variable {s s' : OvlPool} {act : OvlAct} {events : List OvlEvent}

theorem step_step (h : s.step act = some (s', events)) : OvlStep s act s' events := by
  cases act with
  | acquire =>
    have h := Option.some.inj h
    unfold acquire at h
    split at h <;> cases h
    · exact .acquire ‹_›
    · exact .refuse
  | acquireReset o =>
    simp only [step] at h
    split at h <;> cases h
    exact .acquireReset ‹_›
  | release o =>
    simp only [step] at h
    split at h <;> cases h
    exact .release ‹_›
  | queue o =>
    simp only [step] at h
    split at h <;> cases h
    exact .queue ‹_›
  | enqueue op created =>
    simp only [step] at h
    split at h
    · have h := Option.some.inj h
      unfold enqueue at h
      dsimp only at h
      split at h <;> cases h
      · exact .enqueue ‹_›
      · exact .drop ‹_›
    · cases h
  | workerTake =>
    simp only [step] at h
    split at h
    · split at h <;> cases h
      exact .workerTake ‹_› ‹_›
    · cases h
  | workerRun rc actual =>
    simp only [step] at h
    split at h <;> cases h
    exact .workerRun rc actual ‹_›
  | workerHigh =>
    simp only [step] at h
    split at h <;> cases h
    exact .workerHigh ‹_›
  | workerStatus =>
    simp only [step] at h
    split at h <;> cases h
    exact .workerStatus ‹_›
  | workerEvent =>
    simp only [step] at h
    split at h <;> cases h
    exact .workerEvent ‹_›
  | wait o timeoutMs flags =>
    simp only [step] at h
    split at h <;> cases h
    exact .wait timeoutMs flags
  | wake w =>
    simp only [step] at h
    split at h <;> cases h
    rename_i hguard
    exact .wake hguard.1 hguard.2.2
  | timeout w =>
    simp only [step] at h
    split at h <;> cases h
    rename_i hguard
    exact .timeout hguard.1
  | readHigh w =>
    simp only [step] at h
    split at h <;> cases h
    rename_i hguard
    exact .readHigh hguard.1 hguard.2
  | readStatus w =>
    simp only [step] at h
    split at h
    · rename_i hread
      split at h <;> cases h
      exact .readStatus ‹_› hread _
    · cases h
  | waitRelease w =>
    simp only [step] at h
    split at h <;> cases h
    rename_i hguard
    exact .waitRelease hguard.1

end OvlPool

theorem OvlTrace.step_some {t t' : OvlTrace} {act : OvlAct} (h : t.step act = some t') :
    ∃ events, OvlStep t.state act t'.state events ∧ t'.log = t.log ++ events := by
  obtain ⟨⟨s, events⟩, hs, rfl⟩ := Option.map_eq_some_iff.mp h
  exact ⟨events, OvlPool.step_step hs, rfl⟩

end Usbip.Libusbk
