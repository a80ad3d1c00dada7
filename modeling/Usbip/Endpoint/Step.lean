import Usbip.Endpoint.Pending
import Usbip.Lib.Run

/-! One bulk or interrupt endpoint as a transition system.  A step is a section under `ep->lock` or
one reply sent outside it, so that the steps of any number of threads interleave as the locks
allow.  A call of `usbip_device_write`, `usbip_ep_stall` or `usbip_device_dispatch` that has begun
is a `Call`, which keeps what the thread holds between its sections. -/

namespace Usbip

open Lib

/-- `struct dbuf`: a queued chunk, of which earlier URBs took `off` bytes. -/
structure Dbuf where
  data : List UInt8
  off : Int
  deriving DecidableEq, Repr

def Dbuf.len (d : Dbuf) : Int := d.data.length

/-- Where a thread is inside a call on the endpoint. -/
inductive Call
  /-- `usbip_device_write` between two sections; `held` is the URB it popped and the chunk it is
  about to send -/
  | write (src : Slice) (remaining : Int) (held : Option (Urb × Int))
  /-- `usbip_ep_stall` with the parked URBs it has still to answer -/
  | stall (rest : List Urb)
  /-- `usbip_device_dispatch` after it found the endpoint halted -/
  | halted (urb : Urb)
  /-- `usbip_device_dispatch` after it found the endpoint not halted -/
  | checked (urb : Urb)
  /-- `usbip_device_dispatch` with a slice of queued data to send -/
  | serving (urb : Urb) (slice : Slice) (chunk : Int)
  /-- `usbip_device_dispatch` after it delivered an OUT payload -/
  | delivered (urb : Urb)
  | done
  deriving DecidableEq, Repr

/-- The URBs that a call has in hand and answers or parks. -/
def Call.holds : Call → List Urb
  | .write _ _ (some (urb, _)) => [urb]
  | .write _ _ none => []
  | .stall rest => rest
  | .halted urb => [urb]
  | .checked urb => [urb]
  | .serving urb _ _ => [urb]
  | .delivered urb => [urb]
  | .done => []

/-- The data path of a `struct usbip_ep`, with the calls in progress on it and the number of URBs
submitted to it. -/
structure EpState where
  pend : PendQueue
  inq : List Dbuf
  outq : List (List UInt8)
  /-- whether `usbip_ep_on_out` registered a callback -/
  onOut : Bool
  halted : Bool
  calls : List Call
  accepted : Nat

def EpState.new (onOut : Bool) : EpState := ⟨.empty, [], [], onOut, false, [], 0⟩

/-- The URBs that an endpoint has: parked, or in the hands of a call. -/
def EpState.carried (ep : EpState) : List Urb := ep.pend.urbs ++ ep.calls.flatMap Call.holds

theorem EpState.mem_carried {ep : EpState} {u : Urb} :
    u ∈ ep.carried ↔ u ∈ ep.pend.urbs ∨ ∃ call ∈ ep.calls, u ∈ call.holds := by
  rw [carried, List.mem_append, List.mem_flatMap]

theorem EpState.carried_of_parked {ep : EpState} {u : Urb} (h : u ∈ ep.pend.urbs) :
    u ∈ ep.carried := mem_carried.mpr (Or.inl h)

theorem EpState.carried_of_held {ep : EpState} {u : Urb} {call : Call} (h : call ∈ ep.calls)
    (hu : u ∈ call.holds) : u ∈ ep.carried := mem_carried.mpr (Or.inr ⟨call, h, hu⟩)

/-- What an endpoint does outside itself, the writes it is given, and the nodes that an unlink
frees. -/
inductive EpEvent
  /-- a call of `usbip_device_write` begins -/
  | written (buf : List UInt8)
  /-- `usbip_send_ret` for `urb` -/
  | ret (urb : Urb) (status : Int) (data : Slice) (actual : Int)
  /-- an unlink of `unlinkSeqnum` freed the node of `urb` -/
  | freed (urb : Urb) (unlinkSeqnum : UInt32)
  /-- a call of the `on_out` callback -/
  | onOut (data : List UInt8)
  deriving DecidableEq, Repr

/-- What threads do to an endpoint: begin a call, run one section to its end, or let the call `i`
in progress take its next step. -/
inductive EpAct
  | dispatch (urb : Urb)
  | write (buf : List UInt8)
  | stall
  | clearHalt
  | unlink (unlinkSeqnum : UInt32)
  | run (i : Nat)
  deriving DecidableEq, Repr

namespace EpState

/-- The halt check of `usbip_device_dispatch`, which `usbip_ep_is_halted` makes in a section of its
own. -/
def entered (ep : EpState) (urb : Urb) : Call :=
  if ep.halted then .halted { urb with tag := ep.accepted }
  else .checked { urb with tag := ep.accepted }

theorem entered_cases (ep : EpState) (urb : Urb) :
    ep.entered urb = .halted { urb with tag := ep.accepted } ∨
      ep.entered urb = .checked { urb with tag := ep.accepted } := by
  unfold entered
  split
  · exact Or.inl rfl
  · exact Or.inr rfl

theorem holds_entered (ep : EpState) (urb : Urb) :
    (ep.entered urb).holds = [{ urb with tag := ep.accepted }] := by
  rcases ep.entered_cases urb with h | h <;> rw [h] <;> rfl

/-- The IN section of `usbip_device_dispatch`: a slice of the first queued buffer, or parking.  The
slice stands for a pointer into the dbuf, which is not in the state; when the dbuf is freed is what
`Loans` says. -/
def dispatchIn (ep : EpState) (urb : Urb) : EpState × Call × List EpEvent :=
  match ep.inq with
  | dbuf :: rest =>
    let avail := dbuf.len - dbuf.off
    let chunk := capLength urb.length avail
    let slice : Slice := ⟨dbuf.data, dbuf.off⟩
    let drained := dbuf.len ≤ dbuf.off + chunk
    ({ ep with inq := if drained then rest else { dbuf with off := dbuf.off + chunk } :: rest },
      .serving urb slice chunk, [])
  | [] => ({ ep with pend := ep.pend.park urb }, .done, [])

/-- The OUT branch of `usbip_device_dispatch`: the callback, or the queue for
`usbip_device_read`. -/
def dispatchOut (ep : EpState) (urb : Urb) : EpState × Call × List EpEvent :=
  if ep.onOut then (ep, .delivered urb, [.onOut urb.data])
  else ({ ep with outq := ep.outq ++ [urb.data] }, .delivered urb, [])

/-- The section of `usbip_device_write`: pop a parked URB, or queue what remains. -/
def writeSection (ep : EpState) (src : Slice) (remaining : Int) :
    EpState × Call × List EpEvent :=
  if 0 < remaining then
    match ep.pend.pop with
    | some (urb, pend) =>
      ({ ep with pend }, .write src remaining (some (urb, capLength urb.length remaining)), [])
    | none => ({ ep with inq := ep.inq ++ [⟨src.bytes remaining, 0⟩] }, .done, [])
  else (ep, .done, [])

/-- The next step of a call in progress. -/
def runCall (ep : EpState) : Call → Option (EpState × Call × List EpEvent)
  | .write src remaining (some (urb, chunk)) =>
    some (ep, .write (src.advance chunk) (remaining - chunk) none, [.ret urb 0 src chunk])
  | .write src remaining none => some (ep.writeSection src remaining)
  | .stall (urb :: rest) => some (ep, .stall rest, [.ret urb usbipStatusStall .null 0])
  | .stall [] => some (ep, .done, [])
  | .halted urb => some (ep, .done, [.ret urb usbipStatusStall .null 0])
  | .checked urb =>
    match urb.direction with
    | .usbIn => some (ep.dispatchIn urb)
    | .usbOut => some (ep.dispatchOut urb)
  | .serving urb slice chunk => some (ep, .done, [.ret urb 0 slice chunk])
  | .delivered urb => some (ep, .done, [.ret urb 0 .null urb.data.length])
  | .done => none

def step (ep : EpState) : EpAct → Option (EpState × List EpEvent)
  | .dispatch urb =>
    some ({ ep with calls := ep.calls ++ [ep.entered urb], accepted := ep.accepted + 1 }, [])
  | .write buf =>
    some ({ ep with calls := ep.calls ++ [.write ⟨buf, 0⟩ buf.length none] }, [.written buf])
  | .stall =>
    let (rest, pend) := ep.pend.takeAll
    some ({ ep with pend, halted := true, calls := ep.calls ++ [.stall rest] }, [])
  | .clearHalt => some ({ ep with halted := false }, [])
  | .unlink unlinkSeqnum =>
    let (pend, freed) := ep.pend.unlink unlinkSeqnum
    some ({ ep with pend }, freed.map fun urb => .freed urb unlinkSeqnum)
  | .run i =>
    match ep.calls[i]? with
    | none => none
    | some call =>
      match ep.runCall call with
      | none => none
      | some (ep', call', events) => some ({ ep' with calls := ep.calls.set i call' }, events)

end EpState

/-- An endpoint with what it has done so far. -/
structure EpTrace where
  ep : EpState
  log : List EpEvent

namespace EpTrace

def new (onOut : Bool) : EpTrace := ⟨.new onOut, []⟩

def step (t : EpTrace) (a : EpAct) : Option EpTrace :=
  (t.ep.step a).map fun (ep, events) => ⟨ep, t.log ++ events⟩

theorem step_some {t t' : EpTrace} {a : EpAct} (h : t.step a = some t') :
    ∃ events, t.ep.step a = some (t'.ep, events) ∧ t'.log = t.log ++ events := by
  obtain ⟨⟨ep, events⟩, h1, rfl⟩ := Option.map_eq_some_iff.mp h
  exact ⟨events, h1, rfl⟩

end EpTrace

/-! ### What a step can do -/

inductive CallStep (ep : EpState) : Call → EpState → Call → List EpEvent → Prop
  | sendChunk (src : Slice) (remaining : Int) (urb : Urb) (chunk : Int) :
    CallStep ep (.write src remaining (some (urb, chunk))) ep
      (.write (src.advance chunk) (remaining - chunk) none) [.ret urb 0 src chunk]
  | feed {src : Slice} {remaining : Int} {urb : Urb} {pend : PendQueue} (some_left : 0 < remaining)
    (popped : ep.pend.pop = some (urb, pend)) :
    CallStep ep (.write src remaining none) { ep with pend }
      (.write src remaining (some (urb, capLength urb.length remaining))) []
  | queueRest {src : Slice} {remaining : Int} (some_left : 0 < remaining)
    (none_parked : ep.pend.urbs = []) :
    CallStep ep (.write src remaining none)
      { ep with inq := ep.inq ++ [⟨src.bytes remaining, 0⟩] } .done []
  | finish {src : Slice} {remaining : Int} (none_left : remaining ≤ 0) :
    CallStep ep (.write src remaining none) ep .done []
  | sendStall (urb : Urb) (rest : List Urb) :
    CallStep ep (.stall (urb :: rest)) ep (.stall rest) [.ret urb usbipStatusStall .null 0]
  | stallDone : CallStep ep (.stall []) ep .done []
  | sendHalted (urb : Urb) :
    CallStep ep (.halted urb) ep .done [.ret urb usbipStatusStall .null 0]
  | serve {urb : Urb} {dbuf : Dbuf} {rest : List Dbuf} (is_in : urb.direction = .usbIn)
    (queued : ep.inq = dbuf :: rest) :
    CallStep ep (.checked urb)
      { ep with inq :=
          if dbuf.len ≤ dbuf.off + capLength urb.length (dbuf.len - dbuf.off) then rest
          else { dbuf with off := dbuf.off + capLength urb.length (dbuf.len - dbuf.off) } :: rest }
      (.serving urb ⟨dbuf.data, dbuf.off⟩ (capLength urb.length (dbuf.len - dbuf.off))) []
  | park {urb : Urb} (is_in : urb.direction = .usbIn) (none_queued : ep.inq = []) :
    CallStep ep (.checked urb) { ep with pend := ep.pend.park urb } .done []
  | callback {urb : Urb} (is_out : urb.direction = .usbOut) (registered : ep.onOut = true) :
    CallStep ep (.checked urb) ep (.delivered urb) [.onOut urb.data]
  | enqueueOut {urb : Urb} (is_out : urb.direction = .usbOut) (unregistered : ep.onOut = false) :
    CallStep ep (.checked urb) { ep with outq := ep.outq ++ [urb.data] } (.delivered urb) []
  | sendServed (urb : Urb) (slice : Slice) (chunk : Int) :
    CallStep ep (.serving urb slice chunk) ep .done [.ret urb 0 slice chunk]
  | sendDelivered (urb : Urb) :
    CallStep ep (.delivered urb) ep .done [.ret urb 0 .null urb.data.length]

theorem EpState.runCall_step {ep ep' : EpState} {call call' : Call} {events : List EpEvent}
    (h : ep.runCall call = some (ep', call', events)) : CallStep ep call ep' call' events := by
  cases call with
  | write src remaining held =>
    cases held with
    | some held => cases h; exact .sendChunk ..
    | none =>
      simp only [runCall, writeSection, Option.some.injEq] at h
      split at h
      · rename_i hpos
        split at h
        · rename_i hpop
          cases h
          exact .feed hpos hpop
        · rename_i hpop
          cases h
          exact .queueRest hpos (PendQueue.pop_none.mp hpop)
      · cases h
        exact .finish (by omega)
  | stall rest =>
    cases rest <;> cases h
    · exact .stallDone
    · exact .sendStall ..
  | halted urb => cases h; exact .sendHalted ..
  | checked urb =>
    cases hdir : urb.direction with
    | usbIn =>
      simp only [runCall, hdir, dispatchIn, Option.some.injEq] at h
      split at h
      · rename_i hq
        cases h
        exact .serve hdir hq
      · rename_i hq
        cases h
        exact .park hdir hq
    | usbOut =>
      simp only [runCall, hdir, dispatchOut, Option.some.injEq] at h
      split at h
      · rename_i hcb
        cases h
        exact .callback hdir hcb
      · rename_i hcb
        cases h
        exact .enqueueOut hdir (by simpa using hcb)
  | serving urb slice chunk => cases h; exact .sendServed ..
  | delivered urb => cases h; exact .sendDelivered ..
  | done => cases h

/-- The calls in progress, the counter, and the fixed fields play no part in a call's step. -/
theorem CallStep.frame {ep ep' : EpState} {call call' : Call} {events : List EpEvent}
    (h : CallStep ep call ep' call' events) :
    ep'.calls = ep.calls ∧ ep'.accepted = ep.accepted ∧ ep'.halted = ep.halted ∧
      ep'.onOut = ep.onOut := by
  cases h <;> exact ⟨rfl, rfl, rfl, rfl⟩

theorem CallStep.urb_mem {ep ep' : EpState} {call call' : Call} {events : List EpEvent}
    (h : CallStep ep call ep' call' events) {u : Urb}
    (hu : u ∈ ep'.pend.urbs ∨ u ∈ call'.holds) : u ∈ ep.pend.urbs ∨ u ∈ call.holds := by
  cases h with
  | feed _ popped =>
    obtain ⟨hurbs, -⟩ := PendQueue.pop_some popped
    simp [Call.holds, hurbs] at hu ⊢
    tauto
  | park =>
    rw [PendQueue.urbs_park] at hu
    split at hu <;> simp [Call.holds] at hu ⊢ <;> tauto
  | sendStall urb rest =>
    simp [Call.holds] at hu ⊢
    tauto
  | _ => simp_all [Call.holds]

theorem CallStep.tight {ep ep' : EpState} {call call' : Call} {events : List EpEvent}
    (h : CallStep ep call ep' call' events) (ht : ep.pend.Tight) : ep'.pend.Tight := by
  cases h with
  | feed _ popped => exact ht.pop popped
  | park => exact PendQueue.tight_park _ _
  | _ => exact ht

inductive EpStep (ep : EpState) : EpAct → EpState → List EpEvent → Prop
  | dispatch (urb : Urb) :
    EpStep ep (.dispatch urb)
      { ep with calls := ep.calls ++ [ep.entered urb], accepted := ep.accepted + 1 } []
  | write (buf : List UInt8) :
    EpStep ep (.write buf) { ep with calls := ep.calls ++ [.write ⟨buf, 0⟩ buf.length none] }
      [.written buf]
  | stall :
    EpStep ep .stall { ep with
      pend := ep.pend.takeAll.2, halted := true, calls := ep.calls ++ [.stall ep.pend.urbs] } []
  | clearHalt : EpStep ep .clearHalt { ep with halted := false } []
  | unlink (unlinkSeqnum : UInt32) :
    EpStep ep (.unlink unlinkSeqnum) { ep with pend := (ep.pend.unlink unlinkSeqnum).1 }
      ((ep.pend.unlink unlinkSeqnum).2.map fun urb => .freed urb unlinkSeqnum)
  | run {pre post : List Call} {call call' : Call} {next : EpState} {events : List EpEvent}
    (calls_eq : ep.calls = pre ++ call :: post) (step : CallStep ep call next call' events) :
    EpStep ep (.run pre.length) { next with calls := pre ++ call' :: post } events

theorem EpState.step_step {ep ep' : EpState} {a : EpAct} {events : List EpEvent}
    (h : ep.step a = some (ep', events)) : EpStep ep a ep' events := by
  cases a with
  | dispatch urb => cases h; exact .dispatch urb
  | write buf => cases h; exact .write buf
  | stall => cases h; exact .stall
  | clearHalt => cases h; exact .clearHalt
  | unlink n => cases h; exact .unlink n
  | run i =>
    simp only [step] at h
    split at h
    · cases h
    · rename_i call hcall
      split at h
      · cases h
      · rename_i next call' events' hrun
        cases h
        obtain ⟨hlt, hget⟩ := List.getElem?_eq_some_iff.mp hcall
        have hcalls : ep.calls = ep.calls.take i ++ call :: ep.calls.drop (i + 1) := by
          rw [← hget, List.cons_getElem_drop_succ, List.take_append_drop]
        have hlen : (ep.calls.take i).length = i := by
          rw [List.length_take]
          omega
        have hset : ep.calls.set i call' = ep.calls.take i ++ call' :: ep.calls.drop (i + 1) := by
          rw [List.set_eq_take_append_cons_drop, if_pos hlt]
        rw [hset]
        have := EpStep.run hcalls (EpState.runCall_step hrun)
        rwa [hlen] at this

section EpStep

variable {ep ep' : EpState} {a : EpAct} {events : List EpEvent}

theorem EpStep.carried (h : EpStep ep a ep' events) {u : Urb} (hu : u ∈ ep'.carried) :
    u ∈ ep.carried ∨ ∃ urb, a = .dispatch urb ∧ u = { urb with tag := ep.accepted } := by
  simp only [EpState.carried, List.mem_append] at hu ⊢
  cases h with
  | dispatch urb =>
    simp only [List.flatMap_append, List.flatMap_singleton, EpState.holds_entered, List.mem_append,
      List.mem_singleton] at hu
    rcases hu with hu | hu | hu
    · exact Or.inl (Or.inl hu)
    · exact Or.inl (Or.inr hu)
    · exact Or.inr ⟨urb, rfl, hu⟩
  | write buf =>
    simp only [List.flatMap_append, List.flatMap_singleton, Call.holds, List.append_nil] at hu
    exact Or.inl hu
  | stall =>
    simp only [PendQueue.urbs_takeAll, List.flatMap_append, List.flatMap_singleton, Call.holds,
      List.mem_append, List.not_mem_nil, false_or] at hu
    exact Or.inl hu.symm
  | clearHalt => exact Or.inl hu
  | unlink n =>
    rw [PendQueue.urbs_unlink, List.mem_filter] at hu
    tauto
  | run calls_eq step =>
    have := step.urb_mem (u := u)
    simp only [calls_eq, List.flatMap_append, List.flatMap_cons, List.mem_append] at hu ⊢
    tauto

/-- A step keeps `pend_tail` the last node of the list, unless it is an unlink that does not. -/
theorem EpStep.tight (h : EpStep ep a ep' events) (ht : ep.pend.Tight)
    (ha : ∀ n, a = .unlink n → ep.pend.SparesTail n) : ep'.pend.Tight := by
  cases h with
  | stall => exact PendQueue.tight_takeAll _
  | unlink n => exact ht.unlink.mpr (ha n rfl)
  | run calls_eq step => exact step.tight ht
  | _ => exact ht

theorem EpStep.ret_carried (h : EpStep ep a ep' events) {urb : Urb} {status : Int} {data : Slice}
    {actual : Int} (hret : .ret urb status data actual ∈ events) : urb ∈ ep.carried := by
  cases h with
  | run calls_eq step =>
    refine List.mem_append_right _ ?_
    rw [calls_eq]
    cases step <;> simp at hret <;> simp [hret.1, Call.holds]
  | _ => simp at hret

end EpStep

end Usbip
