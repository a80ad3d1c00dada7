import Mathlib.Logic.Function.Basic
import Usbip.Lib.Run

/-! The asynchronous interface of the libusb wrapper.  A transfer goes from the application to the
submit queue, from there through the worker thread to the done queue, and from there to a thread in
`libusb_handle_events`, which calls back.  A step is one section under the lock of the context, or
what a thread does between two of them; callbacks are calls of the application like others. -/

namespace Usbip.Libusb

open Lib

abbrev XferId := Nat

/-- `ST_IDLE`, `ST_QUEUED`, `ST_INFLIGHT` and `ST_DONE`. -/
inductive XferState
  | idle
  | queued
  | inflight
  | done
  deriving DecidableEq, Repr

/-- `enum libusb_transfer_status`. -/
inductive XferStatus
  | completed
  | error
  | timedOut
  | cancelled
  | stall
  | noDevice
  | overflow
  deriving DecidableEq, Repr

/-- `struct itransfer` and the public transfer behind it, with what the application has filled in:
whether it names a device, whether there is a callback, and `LIBUSB_TRANSFER_FREE_TRANSFER`. -/
structure ITransfer where
  next : Option XferId
  /-- `it->ctx` is set -/
  ctx : Bool
  state : XferState
  cancelled : Bool
  devHandle : Bool
  callback : Bool
  freeTransfer : Bool
  status : XferStatus
  actualLength : Nat
  deriving DecidableEq, Repr

/-- What `libusb_alloc_transfer` returns, filled in. -/
def ITransfer.alloc (devHandle callback freeTransfer : Bool) : ITransfer :=
  ⟨none, false, .idle, false, devHandle, callback, freeTransfer, .completed, 0⟩

def libusbSuccess : Int := 0
def libusbErrorInvalidParam : Int := -2
def libusbErrorNotFound : Int := -5
def libusbErrorOther : Int := -99

/-- A queue of the context: its head and its tail. -/
structure Queue where
  head : Option XferId
  tail : Option XferId
  deriving DecidableEq, Repr

/-- Where the worker thread is. -/
inductive Worker
  /-- at the head of its loop -/
  | idle
  /-- with a transfer off the submit queue, and what `it->cancelled` was -/
  | taken (it : XferId) (cancelled : Bool)
  /-- with a transfer that has its status -/
  | ran (it : XferId)
  /-- about to write to the pipe -/
  | waking
  deriving DecidableEq, Repr

/-- Where a thread in `handle_events` is. -/
inductive Handler
  /-- in `poll` -/
  | polling
  /-- in the loop that reads the pipe -/
  | draining
  /-- behind that loop, the done queue not yet taken -/
  | drained
  /-- at the head of the loop over the list it has taken -/
  | walking (list : Option XferId)
  /-- in a callback -/
  | calling (it : XferId) (list : Option XferId)
  /-- behind the callback, the flags not yet read -/
  | called (it : XferId) (list : Option XferId)
  | returned
  deriving DecidableEq, Repr

/-- A context and the transfers allocated; `submitting` and `cancelling` are the calls of
`libusb_submit_transfer` and `libusb_cancel_transfer` that wait for the lock. -/
structure Async where
  heap : XferId → Option ITransfer
  brk : XferId
  submitting : List XferId
  cancelling : List XferId
  subq : Queue
  doneq : Queue
  workerStarted : Bool
  worker : Worker
  hasPipe : Bool
  /-- the bytes in the pipe -/
  pipe : Nat
  handlers : List Handler

inductive AsyncEvent
  /-- `libusb_submit_transfer` has put the transfer on the queue -/
  | submitted (it : XferId)
  | refused (it : XferId) (rc : Int)
  /-- `libusb_cancel_transfer` has returned; the transfer was in the state `ST_QUEUED` -/
  | cancel (it : XferId) (rc : Int) (queued : Bool)
  /-- the transfer is sent to the device -/
  | sent (it : XferId)
  /-- the transfer is given back with a status, and its callback called if there is one -/
  | called (it : XferId) (callback : Bool) (status : XferStatus)
  /-- the library has touched a transfer that is not allocated -/
  | stale (it : XferId)
  deriving DecidableEq, Repr

/-- `created` is what `pthread_create` answers, `status` and `actual` what the device answers, and
`timedOut` says that `poll` has given up. -/
inductive AsyncAct
  | alloc (devHandle callback freeTransfer : Bool)
  | free (it : XferId)
  | submit (it : XferId)
  | enqueue (it : XferId) (created : Bool)
  | cancel (it : XferId)
  | cancelLocked (it : XferId)
  | workerTake
  | workerRun (status : XferStatus) (actual : Nat)
  | workerDone
  | workerWrite
  | handle
  | poll (h : Nat) (timedOut : Bool)
  | read (h : Nat)
  | take (h : Nat)
  | walk (h : Nat)
  | callbackReturns (h : Nat)
  | flags (h : Nat)
  deriving DecidableEq, Repr

/-- The bytes that a pipe holds. -/
def pipeCap : Nat := 65536

namespace Async

def new (hasPipe : Bool) : Async :=
  ⟨fun _ => none, 0, [], [], ⟨none, none⟩, ⟨none, none⟩, false, .idle, hasPipe, 0, []⟩

/-- What is read through a pointer; what is read of a transfer that is not allocated is nobody's
business, and `touches` records it. -/
def get (s : Async) (it : XferId) : ITransfer := (s.heap it).getD (.alloc false false false)

/-- What is written through a pointer. -/
def modify (s : Async) (it : XferId) (f : ITransfer → ITransfer) : Async :=
  { s with heap := Function.update s.heap it ((s.heap it).map f) }

def touches (s : Async) (its : List XferId) : List AsyncEvent :=
  (its.filter fun it => s.heap it = none).map .stale

/-- `it->next = NULL` and the transfer behind the tail of a queue. -/
def link (s : Async) (q : Queue) (it : XferId) : Async × Queue :=
  let s := s.modify it fun x => { x with next := none }
  match q.tail with
  | some last => (s.modify last fun x => { x with next := some it }, ⟨q.head, some it⟩)
  | none => (s, ⟨some it, some it⟩)

def setHandler (s : Async) (h : Nat) (pc : Handler) : Async :=
  { s with handlers := s.handlers.set h pc }

/-- `libusb_submit_transfer` up to the lock. -/
def submit (s : Async) (it : XferId) : Async × List AsyncEvent :=
  if (s.get it).devHandle then
    ({ s.modify it fun x => { x with ctx := true, cancelled := false, status := .completed } with
        submitting := it :: s.submitting }, [])
  else (s, [.refused it libusbErrorInvalidParam])

/-- `libusb_submit_transfer` under the lock. -/
def enqueue (s : Async) (it : XferId) (created : Bool) : Async × List AsyncEvent :=
  let s := { s with submitting := s.submitting.erase it }
  if s.workerStarted ∨ created then
    let touched := s.touches (it :: s.subq.tail.toList)
    let s := { s with workerStarted := true }.modify it fun x => { x with state := .queued }
    let (s, subq) := s.link s.subq it
    ({ s with subq }, touched ++ [.submitted it])
  else (s, [.refused it libusbErrorOther])

/-- `libusb_cancel_transfer` up to the lock. -/
def cancel (s : Async) (it : XferId) : Async × List AsyncEvent :=
  if (s.get it).ctx then ({ s with cancelling := it :: s.cancelling }, [])
  else (s, [.cancel it libusbErrorNotFound false])

/-- `libusb_cancel_transfer` under the lock. -/
def cancelLocked (s : Async) (it : XferId) : Async × List AsyncEvent :=
  let x := s.get it
  let touched := s.touches [it]
  let s := { s with cancelling := s.cancelling.erase it }
  if x.state = .done then (s, touched ++ [.cancel it libusbErrorNotFound false])
  else
    (s.modify it fun x => { x with cancelled := true },
      touched ++ [.cancel it libusbSuccess (x.state = .queued)])

/-- The first section of `worker_main`. -/
def workerTake (s : Async) (it : XferId) : Async × List AsyncEvent :=
  let x := s.get it
  let subq := ⟨x.next, if x.next = none then none else s.subq.tail⟩
  ({ s.modify it fun x => { x with state := .inflight } with
      subq, worker := .taken it x.cancelled }, s.touches [it])

/-- `worker_main` between its two sections, with `run_transfer`. -/
def workerRun (s : Async) (it : XferId) (cancelled : Bool) (status : XferStatus) (actual : Nat) :
    Async × List AsyncEvent :=
  let finish (status : XferStatus) (actualLength : Nat) : Async :=
    { s.modify it fun x => { x with status, actualLength } with worker := .ran it }
  if cancelled then (finish .cancelled 0, s.touches [it])
  else if (s.get it).devHandle then (finish status actual, s.touches [it] ++ [.sent it])
  else (finish .error 0, s.touches [it])

/-- The second section of `worker_main`. -/
def workerDone (s : Async) (it : XferId) : Async × List AsyncEvent :=
  let touched := s.touches (it :: s.doneq.tail.toList)
  let (s, doneq) := s.link s.doneq it
  ({ s with doneq, worker := .waking }, touched)

/-- The loop of `handle_events` up to the callback. -/
def walk (s : Async) (h : Nat) (it : XferId) : Async × List AsyncEvent :=
  let x := s.get it
  let pc : Handler := if x.callback then .calling it x.next else .called it x.next
  ((s.modify it fun x => { x with state := .done }).setHandler h pc,
    s.touches [it] ++ [.called it x.callback x.status])

/-- The loop of `handle_events` behind the callback. -/
def flags (s : Async) (h : Nat) (it : XferId) (list : Option XferId) : Async × List AsyncEvent :=
  let heap := if (s.get it).freeTransfer then Function.update s.heap it none else s.heap
  ({ s with heap }.setHandler h (.walking list), s.touches [it])

/-- One step of a thread. The application hands over pointers to transfers that are allocated. -/
def step (s : Async) : AsyncAct → Option (Async × List AsyncEvent)
  | .alloc devHandle callback freeTransfer =>
    some ({ s with
      heap := Function.update s.heap s.brk (some (.alloc devHandle callback freeTransfer))
      brk := s.brk + 1 }, [])
  | .free it =>
    if (s.heap it).isSome then some ({ s with heap := Function.update s.heap it none }, [])
    else none
  | .submit it => if (s.heap it).isSome then some (s.submit it) else none
  | .enqueue it created => if it ∈ s.submitting then some (s.enqueue it created) else none
  | .cancel it => if (s.heap it).isSome then some (s.cancel it) else none
  | .cancelLocked it => if it ∈ s.cancelling then some (s.cancelLocked it) else none
  | .workerTake =>
    if s.workerStarted ∧ s.worker = .idle then s.subq.head.map s.workerTake else none
  | .workerRun status actual =>
    match s.worker with
    | .taken it cancelled => some (s.workerRun it cancelled status actual)
    | _ => none
  | .workerDone =>
    match s.worker with
    | .ran it => some (s.workerDone it)
    | _ => none
  | .workerWrite =>
    if s.worker = .waking then
      some ({ s with
        worker := .idle
        pipe := if s.hasPipe ∧ s.pipe < pipeCap then s.pipe + 1 else s.pipe }, [])
    else none
  | .handle =>
    some ({ s with handlers := s.handlers ++ [if s.hasPipe then .polling else .drained] }, [])
  | .poll h timedOut =>
    if s.handlers[h]? = some .polling ∧ (timedOut ∨ 0 < s.pipe) then
      some (s.setHandler h .draining, [])
    else none
  | .read h =>
    if s.handlers[h]? = some .draining then
      if 0 < s.pipe then some ({ s with pipe := s.pipe - 64 }, [])
      else some (s.setHandler h .drained, [])
    else none
  | .take h =>
    if s.handlers[h]? = some .drained then
      some ({ s with doneq := ⟨none, none⟩ }.setHandler h (.walking s.doneq.head), [])
    else none
  | .walk h =>
    match s.handlers[h]? with
    | some (.walking none) => some (s.setHandler h .returned, [])
    | some (.walking (some it)) => some (s.walk h it)
    | _ => none
  | .callbackReturns h =>
    match s.handlers[h]? with
    | some (.calling it list) => some (s.setHandler h (.called it list), [])
    | _ => none
  | .flags h =>
    match s.handlers[h]? with
    | some (.called it list) => some (s.flags h it list)
    | _ => none

end Async

/-- A context with what it has done so far. -/
structure AsyncTrace where
  state : Async
  log : List AsyncEvent

namespace AsyncTrace

def new (hasPipe : Bool) : AsyncTrace := ⟨.new hasPipe, []⟩

def step (t : AsyncTrace) (act : AsyncAct) : Option AsyncTrace :=
  (t.state.step act).map fun (state, events) => ⟨state, t.log ++ events⟩

end AsyncTrace

/-- What a step can do, with the state before it taken apart. -/
inductive AsyncStep (s : Async) : AsyncAct → Async → List AsyncEvent → Prop
  | alloc (devHandle callback freeTransfer : Bool) :
    AsyncStep s (.alloc devHandle callback freeTransfer)
      { s with
        heap := Function.update s.heap s.brk (some (.alloc devHandle callback freeTransfer))
        brk := s.brk + 1 } []
  | free {it : XferId} {x : ITransfer} (live : s.heap it = some x) :
    AsyncStep s (.free it) { s with heap := Function.update s.heap it none } []
  | submit {it : XferId} {x : ITransfer} (live : s.heap it = some x) :
    AsyncStep s (.submit it) (s.submit it).1 (s.submit it).2
  | enqueue {it : XferId} (created : Bool) (waits : it ∈ s.submitting) :
    AsyncStep s (.enqueue it created) (s.enqueue it created).1 (s.enqueue it created).2
  | cancel {it : XferId} {x : ITransfer} (live : s.heap it = some x) :
    AsyncStep s (.cancel it) (s.cancel it).1 (s.cancel it).2
  | cancelLocked {it : XferId} (waits : it ∈ s.cancelling) :
    AsyncStep s (.cancelLocked it) (s.cancelLocked it).1 (s.cancelLocked it).2
  | workerTake {it : XferId} (idle : s.worker = .idle) (head : s.subq.head = some it) :
    AsyncStep s .workerTake (s.workerTake it).1 (s.workerTake it).2
  | workerRun {it : XferId} {cancelled : Bool} (status : XferStatus) (actual : Nat)
    (taken : s.worker = .taken it cancelled) :
    AsyncStep s (.workerRun status actual) (s.workerRun it cancelled status actual).1
      (s.workerRun it cancelled status actual).2
  | workerDone {it : XferId} (ran : s.worker = .ran it) :
    AsyncStep s .workerDone (s.workerDone it).1 (s.workerDone it).2
  | workerWrite (waking : s.worker = .waking) :
    AsyncStep s .workerWrite { s with
      worker := .idle
      pipe := if s.hasPipe ∧ s.pipe < pipeCap then s.pipe + 1 else s.pipe } []
  | handle :
    AsyncStep s .handle
      { s with handlers := s.handlers ++ [if s.hasPipe then .polling else .drained] } []
  | poll {h : Nat} {timedOut : Bool} (polling : s.handlers[h]? = some .polling) :
    AsyncStep s (.poll h timedOut) (s.setHandler h .draining) []
  | read {h : Nat} (draining : s.handlers[h]? = some .draining) (nonempty : 0 < s.pipe) :
    AsyncStep s (.read h) { s with pipe := s.pipe - 64 } []
  | readEmpty {h : Nat} (draining : s.handlers[h]? = some .draining) (empty : s.pipe = 0) :
    AsyncStep s (.read h) (s.setHandler h .drained) []
  | take {h : Nat} (drained : s.handlers[h]? = some .drained) :
    AsyncStep s (.take h)
      ({ s with doneq := ⟨none, none⟩ }.setHandler h (.walking s.doneq.head)) []
  | walkEnd {h : Nat} (walking : s.handlers[h]? = some (.walking none)) :
    AsyncStep s (.walk h) (s.setHandler h .returned) []
  | walk {h : Nat} {it : XferId} (walking : s.handlers[h]? = some (.walking (some it))) :
    AsyncStep s (.walk h) (s.walk h it).1 (s.walk h it).2
  | callbackReturns {h : Nat} {it : XferId} {list : Option XferId}
    (calling : s.handlers[h]? = some (.calling it list)) :
    AsyncStep s (.callbackReturns h) (s.setHandler h (.called it list)) []
  | flags {h : Nat} {it : XferId} {list : Option XferId}
    (called : s.handlers[h]? = some (.called it list)) :
    AsyncStep s (.flags h) (s.flags h it list).1 (s.flags h it list).2

theorem Async.step_step {s s' : Async} {act : AsyncAct} {events : List AsyncEvent}
    (h : s.step act = some (s', events)) : AsyncStep s act s' events := by
  cases act with
  | alloc =>
    cases h
    exact .alloc ..
  | free it =>
    simp only [step] at h
    split at h <;> cases h
    rename_i hlive
    obtain ⟨x, hx⟩ := Option.isSome_iff_exists.mp hlive
    exact .free hx
  | submit it =>
    simp only [step] at h
    split at h
    · rename_i hlive
      obtain ⟨rfl, rfl⟩ := Prod.ext_iff.mp (Option.some.inj h)
      obtain ⟨x, hx⟩ := Option.isSome_iff_exists.mp hlive
      exact .submit hx
    · cases h
  | enqueue it created =>
    simp only [step] at h
    split at h
    · rename_i hwaits
      obtain ⟨rfl, rfl⟩ := Prod.ext_iff.mp (Option.some.inj h)
      exact .enqueue created hwaits
    · cases h
  | cancel it =>
    simp only [step] at h
    split at h
    · rename_i hlive
      obtain ⟨rfl, rfl⟩ := Prod.ext_iff.mp (Option.some.inj h)
      obtain ⟨x, hx⟩ := Option.isSome_iff_exists.mp hlive
      exact .cancel hx
    · cases h
  | cancelLocked it =>
    simp only [step] at h
    split at h
    · rename_i hwaits
      obtain ⟨rfl, rfl⟩ := Prod.ext_iff.mp (Option.some.inj h)
      exact .cancelLocked hwaits
    · cases h
  | workerTake =>
    simp only [step] at h
    split at h
    · rename_i hidle
      obtain ⟨it, hhead, heq⟩ := Option.map_eq_some_iff.mp h
      obtain ⟨rfl, rfl⟩ := Prod.ext_iff.mp heq
      exact .workerTake hidle.2 hhead
    · cases h
  | workerRun status actual =>
    simp only [step] at h
    split at h
    · rename_i htaken
      obtain ⟨rfl, rfl⟩ := Prod.ext_iff.mp (Option.some.inj h)
      exact .workerRun status actual htaken
    · cases h
  | workerDone =>
    simp only [step] at h
    split at h
    · rename_i hran
      obtain ⟨rfl, rfl⟩ := Prod.ext_iff.mp (Option.some.inj h)
      exact .workerDone hran
    · cases h
  | workerWrite =>
    simp only [step] at h
    split at h <;> cases h
    rename_i hwaking
    exact .workerWrite hwaking
  | handle =>
    cases h
    exact .handle
  | poll h' timedOut =>
    simp only [step] at h
    split at h <;> cases h
    rename_i hpoll
    exact .poll hpoll.1
  | read h' =>
    simp only [step] at h
    split at h
    · rename_i hdraining
      split at h <;> cases h <;> rename_i hpipe
      · exact .read hdraining hpipe
      · exact .readEmpty hdraining (Nat.eq_zero_of_not_pos hpipe)
    · cases h
  | take h' =>
    simp only [step] at h
    split at h <;> cases h
    rename_i hdrained
    exact .take hdrained
  | walk h' =>
    simp only [step] at h
    split at h
    · rename_i hwalking
      cases h
      exact .walkEnd hwalking
    · rename_i hwalking
      obtain ⟨rfl, rfl⟩ := Prod.ext_iff.mp (Option.some.inj h)
      exact .walk hwalking
    · cases h
  | callbackReturns h' =>
    simp only [step] at h
    split at h <;> cases h
    rename_i hcalling
    exact .callbackReturns hcalling
  | flags h' =>
    simp only [step] at h
    split at h
    · rename_i hcalled
      obtain ⟨rfl, rfl⟩ := Prod.ext_iff.mp (Option.some.inj h)
      exact .flags hcalled
    · cases h

theorem AsyncTrace.step_some {t t' : AsyncTrace} {act : AsyncAct} (h : t.step act = some t') :
    ∃ events, AsyncStep t.state act t'.state events ∧ t'.log = t.log ++ events := by
  obtain ⟨⟨s, events⟩, hs, rfl⟩ := Option.map_eq_some_iff.mp h
  exact ⟨events, Async.step_step hs, rfl⟩

end Usbip.Libusb
