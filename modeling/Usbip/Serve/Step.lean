import Usbip.Endpoint.Step

/-! A plugged device with its endpoints and its connections.  Each connection has a serve thread,
which reads commands and handles them one by one, and a pacer thread.  A step is one section under
a lock or one reply; application threads step on the endpoints in between. -/

namespace Usbip

open Lib

structure Setup where
  bmRequestType : UInt8
  bRequest : UInt8
  wValue : UInt16
  wIndex : UInt16
  wLength : UInt16
  deriving DecidableEq, Repr

structure IsoPkt where
  offset : UInt32
  length : UInt32
  actualLength : UInt32
  status : UInt32
  deriving DecidableEq, Repr

/-- A `CMD_SUBMIT` as `usbip_read_cmd` returns it. -/
structure Submit where
  urb : Urb
  setup : Setup
  numberOfPackets : Int
  iso : List IsoPkt
  deriving DecidableEq, Repr

/-- A `CMD_SUBMIT` of an IN URB for endpoint 1, which the fixed runs below send. -/
def Submit.bulkIn (seqnum length : UInt32) : Submit :=
  { urb := .bulkIn 0 seqnum length, setup := ⟨0, 0, 0, 0, 0⟩, numberOfPackets := 0, iso := [] }

/-- `struct paced_ret`: an iso completion that waits for its deadline. -/
structure PacedRet where
  deadline : UInt64
  seqnum : UInt32
  devid : UInt32
  direction : Dir
  ep : UInt32
  iso : List IsoPkt
  data : List UInt8
  deriving DecidableEq, Repr

/-- The slots of `ep_map` in the order in which `usbip_device_handle_unlink` visits them. -/
def epSlots : List (Nat × Dir) :=
  (List.range 16).flatMap fun number => [(number, .usbOut), (number, .usbIn)]

/-- What serving reads of a device and does not change. -/
structure Plugged where
  epMap : Nat → Dir → Option EpId
  /-- the endpoints of `dev->eps` -/
  eps : List EpId
  isIso : EpId → Bool
  onOut : EpId → Bool
  isoPaced : Bool

namespace Plugged

/-- `urb->ep < 16 ? dev->ep_map[urb->ep][urb->direction] : NULL`. -/
def route (dev : Plugged) (ep : UInt32) (dir : Dir) : Option EpId :=
  if ep < 16 then dev.epMap ep.toNat dir else none

def epByAddr (dev : Plugged) (addr : UInt8) : Option EpId :=
  dev.epMap (addr &&& 0x0f).toNat (if addr &&& 0x80 ≠ 0 then .usbIn else .usbOut)

/-- The endpoints that some of the slots name. -/
def mapped (dev : Plugged) (slots : List (Nat × Dir)) : List EpId :=
  slots.filterMap fun slot => dev.epMap slot.1 slot.2

/-- The endpoints that a URB can reach. -/
def routed (dev : Plugged) : List EpId := dev.mapped epSlots

/-- A device with one bulk IN endpoint, number 1. -/
def oneIn : Plugged where
  epMap number dir := if number = 1 ∧ dir = .usbIn then some 0 else none
  eps := [0]
  isIso _ := false
  onOut _ := false
  isoPaced := false

theorem route_routed {dev : Plugged} {ep : UInt32} {dir : Dir} {e : EpId}
    (h : dev.route ep dir = some e) : e ∈ dev.routed := by
  unfold route at h
  split at h
  · rename_i hlt
    refine List.mem_filterMap.mpr ⟨(ep.toNat, dir), ?_, h⟩
    have : ep.toNat < 16 := UInt32.lt_iff_toNat_lt.mp hlt
    refine List.mem_flatMap.mpr ⟨ep.toNat, List.mem_range.mpr this, ?_⟩
    cases dir <;> simp
  · cases h

end Plugged

/-- Where the serve thread of a connection is. -/
inductive Serving
  /-- in `usbip_read_cmd` -/
  | idle
  /-- in `usbip_device_dispatch`, as the call `i` on endpoint `e` -/
  | inCall (e : EpId) (i : Nat)
  /-- in `usbip_device_dispatch`, with an iso URB for an endpoint that is not halted -/
  | iso (sub : Submit)
  /-- in `handle_control` -/
  | control (sub : Submit)
  /-- in `SET_CONFIGURATION`, with the endpoints whose halt it has still to clear -/
  | clearing (sub : Submit) (rest : List EpId)
  /-- in the `usbip_ep_stall` of `SET_FEATURE(ENDPOINT_HALT)`, as the call `i` on endpoint `e` -/
  | stalling (sub : Submit) (e : EpId) (i : Nat)
  /-- about to send a `RET_SUBMIT` -/
  | answer (urb : Urb) (status : Int) (data : Slice) (actual : Int)
  /-- in `usbip_device_handle_unlink`, with the slots it has still to visit -/
  | unlinking (seqnum unlinkSeqnum : UInt32) (slots : List (Nat × Dir))
  /-- about to send a `RET_UNLINK` -/
  | replyUnlink (seqnum unlinkSeqnum : UInt32)
  /-- in `usbip_device_pacer_stop` -/
  | closing
  /-- `serve_conn` has returned -/
  | returned
  deriving DecidableEq, Repr

/-- `struct conn` with its two threads. -/
structure Conn where
  serving : Serving
  paceStop : Bool
  paceHead : List PacedRet
  /-- the entry that the pacer has taken off the list and not sent -/
  sending : Option PacedRet
  deriving DecidableEq, Repr

def Conn.new : Conn := ⟨.idle, false, [], none⟩

/-- What a device receives and sends outside the data path of an endpoint, and what its endpoints
do. -/
inductive DevEvent
  | ep (e : EpId) (event : EpEvent)
  /-- `usbip_read_cmd` returned a `CMD_SUBMIT` -/
  | submitted (c : ConnId) (seqnum : UInt32)
  /-- `usbip_send_ret` by the serve thread -/
  | ret (c : ConnId) (urb : Urb) (status : Int) (data : Slice) (actual : Int)
  /-- `usbip_send_ret_iso` -/
  | retIso (c : ConnId) (entry : PacedRet)
  /-- `usbip_send_ret_unlink` for the `CMD_UNLINK` that names `unlinkSeqnum` -/
  | retUnlink (c : ConnId) (seqnum unlinkSeqnum : UInt32) (status : Int)
  deriving DecidableEq, Repr

/-- What the threads of one connection do. `handler` and `fill` are the results of the
application's control and iso callbacks, `now` is what the clock shows. -/
inductive ConnAct
  /-- `usbip_read_cmd` returns a `CMD_SUBMIT` -/
  | submit (sub : Submit)
  /-- `usbip_read_cmd` returns a `CMD_UNLINK` -/
  | unlink (seqnum unlinkSeqnum : UInt32)
  /-- `usbip_read_cmd` fails -/
  | disconnect
  /-- the serve thread takes its next step -/
  | serve
  | handler (status : Int) (data : Slice) (actual : Int)
  | fill (lens : List UInt32) (data : List UInt8) (deadline : UInt64)
  /-- the pacer takes its next step -/
  | pacer (now : UInt64)
  deriving DecidableEq, Repr

/-- A section that a connection's thread runs on an endpoint. -/
abbrev Section := Option (EpId × EpAct)

/-- The halt requests of `handle_control`, by what they do to the endpoint they name; `none` for
the other requests. -/
inductive HaltRequest
  | setConfiguration
  | clearFeature (addr : UInt8)
  | setFeature (addr : UInt8)
  | otherFeature
  deriving DecidableEq, Repr

/-- The standard requests that `handle_control` itself applies to the endpoints. -/
def haltRequest (setup : Setup) : Option HaltRequest :=
  if (setup.bmRequestType >>> 5) &&& 3 = 0 then
    if setup.bRequest = 9 then some .setConfiguration
    else if setup.bRequest = 1 ∨ setup.bRequest = 3 then
      if setup.bmRequestType &&& 0x1f = 2 ∧ setup.wValue = 0 then
        if setup.bRequest = 1 then some (.clearFeature setup.wIndex.toUInt8)
        else some (.setFeature setup.wIndex.toUInt8)
      else some .otherFeature
    else none
  else none

/-- The reply to a control request that returns no data. -/
def Serving.ack (sub : Submit) : Serving :=
  .answer sub.urb 0 .null (if sub.setup.bmRequestType &&& 0x80 ≠ 0 then 0 else sub.urb.data.length)

/-- The packets of an iso completion: an IN callback fills `lens`, an OUT transfer takes all. -/
def isoPackets (sub : Submit) (lens : List UInt32) : List IsoPkt :=
  match sub.urb.direction with
  | .usbIn => sub.iso.mapIdx fun i pkt => { pkt with actualLength := lens.getD i 0, status := 0 }
  | .usbOut => sub.iso.map fun pkt => { pkt with actualLength := pkt.length, status := 0 }

/-- The copy that `pace_submit` makes. -/
def PacedRet.of (sub : Submit) (lens : List UInt32) (data : List UInt8) (deadline : UInt64) :
    PacedRet :=
  { deadline, seqnum := sub.urb.seqnum, devid := sub.urb.devid, direction := sub.urb.direction,
    ep := sub.urb.ep, iso := isoPackets sub lens, data }

/-- The choice of `pacer_run`: the first entry with the earliest deadline, and the others. -/
def popEarliest : List PacedRet → Option (PacedRet × List PacedRet)
  | [] => none
  | entry :: rest =>
    match popEarliest rest with
    | some (first, others) =>
      if first.deadline < entry.deadline then some (first, entry :: others)
      else some (entry, rest)
    | none => some (entry, [])

namespace Conn

/-- `usbip_device_dispatch` up to its first section. -/
def dispatch (dev : Plugged) (eps : EpId → EpState) (sub : Submit) : Serving × Section :=
  if sub.urb.ep = 0 then (.control sub, none)
  else
    match dev.route sub.urb.ep sub.urb.direction with
    | none => (.answer sub.urb (-19) .null 0, none)
    | some e =>
      if dev.isIso e ∧ 0 < sub.numberOfPackets then
        if (eps e).halted then (.answer sub.urb usbipStatusStall .null 0, none)
        else (.iso sub, none)
      else (.inCall e (eps e).calls.length, some (e, .dispatch sub.urb))

/-- The standard requests of `handle_control` that act on endpoints. -/
def handleControl (dev : Plugged) (eps : EpId → EpState) (sub : Submit) :
    HaltRequest → Serving × Section
  | .setConfiguration => (.clearing sub dev.eps, none)
  | .otherFeature => (.ack sub, none)
  | .clearFeature addr =>
    match dev.epByAddr addr with
    | none => (.ack sub, none)
    | some e => (.ack sub, some (e, .clearHalt))
  | .setFeature addr =>
    match dev.epByAddr addr with
    | none => (.ack sub, none)
    | some e => (.stalling sub e (eps e).calls.length, some (e, .stall))

/-- The next step of the serve thread. -/
def serve (dev : Plugged) (eps : EpId → EpState) (c : ConnId) (conn : Conn) :
    Option (Conn × Section × List DevEvent) :=
  match conn.serving with
  | .inCall e i =>
    if (eps e).calls[i]? = some .done then some ({ conn with serving := .idle }, none, []) else none
  | .control sub =>
    (haltRequest sub.setup).map fun request =>
      let (serving, sect) := handleControl dev eps sub request
      ({ conn with serving }, sect, [])
  | .clearing sub (e :: rest) =>
    some ({ conn with serving := .clearing sub rest }, some (e, .clearHalt), [])
  | .clearing sub [] => some ({ conn with serving := .ack sub }, none, [])
  | .stalling sub e i =>
    if (eps e).calls[i]? = some .done then some ({ conn with serving := .ack sub }, none, [])
    else none
  | .answer urb status data actual =>
    some ({ conn with serving := .idle }, none, [.ret c urb status data actual])
  | .unlinking seqnum unlinkSeqnum ((number, dir) :: slots) =>
    let conn' := { conn with serving := .unlinking seqnum unlinkSeqnum slots }
    match dev.epMap number dir with
    | none => some (conn', none, [])
    | some e => some (conn', some (e, .unlink unlinkSeqnum), [])
  | .unlinking seqnum unlinkSeqnum [] =>
    some ({ conn with
      serving := .replyUnlink seqnum unlinkSeqnum
      paceHead := conn.paceHead.filter fun entry => entry.seqnum ≠ unlinkSeqnum }, none, [])
  | .replyUnlink seqnum unlinkSeqnum =>
    some ({ conn with serving := .idle }, none, [.retUnlink c seqnum unlinkSeqnum 0])
  | .closing =>
    if conn.paceHead = [] ∧ conn.sending = none then
      some ({ conn with serving := .returned }, none, [])
    else none
  | .idle | .iso _ | .returned => none

/-- `pacer_run`: send the entry in hand, or take the earliest entry that is due. -/
def pace (c : ConnId) (conn : Conn) (now : UInt64) : Option (Conn × Section × List DevEvent) :=
  match conn.sending with
  | some entry => some ({ conn with sending := none }, none, [.retIso c entry])
  | none =>
    match popEarliest conn.paceHead with
    | none => none
    | some (entry, rest) =>
      if conn.paceStop ∨ entry.deadline ≤ now then
        some ({ conn with paceHead := rest, sending := some entry }, none, [])
      else none

/-- One step of a thread of connection `c`, the section it runs on an endpoint, and what it
sends. -/
def step (dev : Plugged) (eps : EpId → EpState) (c : ConnId) (conn : Conn) :
    ConnAct → Option (Conn × Section × List DevEvent)
  | .submit sub =>
    match conn.serving with
    | .idle =>
      let (serving, sect) := dispatch dev eps { sub with urb := { sub.urb with conn := c } }
      some ({ conn with serving }, sect, [.submitted c sub.urb.seqnum])
    | _ => none
  | .unlink seqnum unlinkSeqnum =>
    match conn.serving with
    | .idle => some ({ conn with serving := .unlinking seqnum unlinkSeqnum epSlots }, none, [])
    | _ => none
  | .disconnect =>
    match conn.serving with
    | .idle => some ({ conn with serving := .closing, paceStop := true }, none, [])
    | _ => none
  | .serve => conn.serve dev eps c
  | .handler status data actual =>
    match conn.serving with
    | .control sub =>
      match haltRequest sub.setup with
      | none => some ({ conn with serving := .answer sub.urb status data actual }, none, [])
      | some _ => none
    | _ => none
  | .fill lens data deadline =>
    match conn.serving with
    | .iso sub =>
      let entry := PacedRet.of sub lens data deadline
      if dev.isoPaced then
        some ({ conn with serving := .idle, paceHead := entry :: conn.paceHead }, none, [])
      else some ({ conn with serving := .idle }, none, [.retIso c entry])
    | _ => none
  | .pacer now => conn.pace c now

end Conn

structure DevState where
  eps : EpId → EpState
  conns : List Conn

/-- What can happen to a device: a host attaches, a thread of a connection steps, or an application
thread begins a call on an endpoint or continues one. -/
inductive DevAct
  | connect
  | conn (c : ConnId) (a : ConnAct)
  | app (e : EpId) (a : EpAct)
  deriving DecidableEq, Repr

/-- The sections that threads other than the serve threads begin, and the steps of calls. -/
def EpAct.fromApp : EpAct → Bool
  | .dispatch _ | .unlink _ => false
  | .write _ | .stall | .clearHalt | .run _ => true

namespace DevState

def new (dev : Plugged) : DevState := ⟨fun e => .new (dev.onOut e), []⟩

def setEp (s : DevState) (e : EpId) (ep : EpState) : DevState :=
  { s with eps := fun e' => if e' = e then ep else s.eps e' }

def setConn (s : DevState) (c : ConnId) (conn : Conn) : DevState :=
  { s with conns := s.conns.set c conn }

/-- One section on an endpoint. -/
def onEp (s : DevState) (e : EpId) (a : EpAct) : Option (DevState × List DevEvent) :=
  ((s.eps e).step a).map fun (ep, events) => (s.setEp e ep, events.map (.ep e))

def runSection (s : DevState) : Section → Option (DevState × List DevEvent)
  | none => some (s, [])
  | some (e, a) => s.onEp e a

def step (dev : Plugged) (s : DevState) : DevAct → Option (DevState × List DevEvent)
  | .connect => some ({ s with conns := s.conns ++ [.new] }, [])
  | .conn c a =>
    match s.conns[c]? with
    | none => none
    | some conn =>
      match conn.step dev s.eps c a with
      | none => none
      | some (conn', sect, sent) =>
        ((s.setConn c conn').runSection sect).map fun (s', events) => (s', events ++ sent)
  | .app e a => if a.fromApp then s.onEp e a else none

@[simp] theorem setEp_conns (s : DevState) (e : EpId) (ep : EpState) :
    (s.setEp e ep).conns = s.conns := rfl

@[simp] theorem setConn_eps (s : DevState) (c : ConnId) (conn : Conn) :
    (s.setConn c conn).eps = s.eps := rfl

@[simp] theorem setEp_eps_self (s : DevState) (e : EpId) (ep : EpState) :
    (s.setEp e ep).eps e = ep := if_pos rfl

theorem setEp_eps_of_ne (s : DevState) {e e' : EpId} (ep : EpState) (h : e' ≠ e) :
    (s.setEp e ep).eps e' = s.eps e' := if_neg h

theorem setConn_conns {s : DevState} {c : ConnId} {conn : Conn} (found : s.conns[c]? = some conn)
    (conn' : Conn) (c' : ConnId) :
    (s.setConn c conn').conns[c']? = if c' = c then some conn' else s.conns[c']? := by
  have hlt := (List.getElem?_eq_some_iff.mp found).1
  simp only [setConn, List.getElem?_set]
  by_cases hc : c = c'
  · simp [hc ▸ hlt, hc]
  · simp [hc, Ne.symm hc]

end DevState

/-- A device with what it has done so far. -/
structure DevTrace where
  dev : DevState
  log : List DevEvent

namespace DevTrace

def new (dev : Plugged) : DevTrace := ⟨.new dev, []⟩

def step (dev : Plugged) (t : DevTrace) (a : DevAct) : Option DevTrace :=
  (t.dev.step dev a).map fun (s, events) => ⟨s, t.log ++ events⟩

theorem step_some {dev : Plugged} {t t' : DevTrace} {a : DevAct} (h : t.step dev a = some t') :
    ∃ events, t.dev.step dev a = some (t'.dev, events) ∧ t'.log = t.log ++ events := by
  obtain ⟨⟨s, events⟩, h1, rfl⟩ := Option.map_eq_some_iff.mp h
  exact ⟨events, h1, rfl⟩

end DevTrace

/-! ### What a step can do -/

inductive ConnStep (dev : Plugged) (eps : EpId → EpState) (c : ConnId) (conn : Conn) :
    ConnAct → Conn → Section → List DevEvent → Prop
  | submit (sub : Submit) (idle : conn.serving = .idle) :
    ConnStep dev eps c conn (.submit sub)
      { conn with
        serving := (Conn.dispatch dev eps { sub with urb := { sub.urb with conn := c } }).1 }
      (Conn.dispatch dev eps { sub with urb := { sub.urb with conn := c } }).2
      [.submitted c sub.urb.seqnum]
  | unlink (seqnum unlinkSeqnum : UInt32) (idle : conn.serving = .idle) :
    ConnStep dev eps c conn (.unlink seqnum unlinkSeqnum)
      { conn with serving := .unlinking seqnum unlinkSeqnum epSlots } none []
  | disconnect (idle : conn.serving = .idle) :
    ConnStep dev eps c conn .disconnect { conn with serving := .closing, paceStop := true } none []
  | resume {e : EpId} {i : Nat} (in_call : conn.serving = .inCall e i)
    (is_done : (eps e).calls[i]? = some .done) :
    ConnStep dev eps c conn .serve { conn with serving := .idle } none []
  | control {sub : Submit} {request : HaltRequest} (in_control : conn.serving = .control sub)
    (halt : haltRequest sub.setup = some request) :
    ConnStep dev eps c conn .serve
      { conn with serving := (Conn.handleControl dev eps sub request).1 }
      (Conn.handleControl dev eps sub request).2 []
  | clear {sub : Submit} {e : EpId} {rest : List EpId}
    (clearing : conn.serving = .clearing sub (e :: rest)) :
    ConnStep dev eps c conn .serve { conn with serving := .clearing sub rest }
      (some (e, .clearHalt)) []
  | cleared {sub : Submit} (clearing : conn.serving = .clearing sub []) :
    ConnStep dev eps c conn .serve { conn with serving := .ack sub } none []
  | stalled {sub : Submit} {e : EpId} {i : Nat} (stalling : conn.serving = .stalling sub e i)
    (is_done : (eps e).calls[i]? = some .done) :
    ConnStep dev eps c conn .serve { conn with serving := .ack sub } none []
  | answer {urb : Urb} {status : Int} {data : Slice} {actual : Int}
    (answering : conn.serving = .answer urb status data actual) :
    ConnStep dev eps c conn .serve { conn with serving := .idle } none
      [.ret c urb status data actual]
  | skipSlot {seqnum unlinkSeqnum : UInt32} {number : Nat} {dir : Dir} {slots : List (Nat × Dir)}
    (unlinking : conn.serving = .unlinking seqnum unlinkSeqnum ((number, dir) :: slots))
    (unmapped : dev.epMap number dir = none) :
    ConnStep dev eps c conn .serve { conn with serving := .unlinking seqnum unlinkSeqnum slots }
      none []
  | unlinkSlot {seqnum unlinkSeqnum : UInt32} {number : Nat} {dir : Dir}
    {slots : List (Nat × Dir)} {e : EpId}
    (unlinking : conn.serving = .unlinking seqnum unlinkSeqnum ((number, dir) :: slots))
    (mapped : dev.epMap number dir = some e) :
    ConnStep dev eps c conn .serve { conn with serving := .unlinking seqnum unlinkSeqnum slots }
      (some (e, .unlink unlinkSeqnum)) []
  | unlinkPaced {seqnum unlinkSeqnum : UInt32}
    (unlinking : conn.serving = .unlinking seqnum unlinkSeqnum []) :
    ConnStep dev eps c conn .serve
      { conn with
        serving := .replyUnlink seqnum unlinkSeqnum
        paceHead := conn.paceHead.filter fun entry => entry.seqnum ≠ unlinkSeqnum } none []
  | replyUnlink {seqnum unlinkSeqnum : UInt32}
    (replying : conn.serving = .replyUnlink seqnum unlinkSeqnum) :
    ConnStep dev eps c conn .serve { conn with serving := .idle } none
      [.retUnlink c seqnum unlinkSeqnum 0]
  | finish (closing : conn.serving = .closing) (none_paced : conn.paceHead = [])
    (none_sending : conn.sending = none) :
    ConnStep dev eps c conn .serve { conn with serving := .returned } none []
  | handler {sub : Submit} (status : Int) (data : Slice) (actual : Int)
    (in_control : conn.serving = .control sub) (no_halt : haltRequest sub.setup = none) :
    ConnStep dev eps c conn (.handler status data actual)
      { conn with serving := .answer sub.urb status data actual } none []
  | pace {sub : Submit} (lens : List UInt32) (data : List UInt8) (deadline : UInt64)
    (in_iso : conn.serving = .iso sub) (paced : dev.isoPaced = true) :
    ConnStep dev eps c conn (.fill lens data deadline)
      { conn with serving := .idle, paceHead := .of sub lens data deadline :: conn.paceHead }
      none []
  | sendIso {sub : Submit} (lens : List UInt32) (data : List UInt8) (deadline : UInt64)
    (in_iso : conn.serving = .iso sub) (unpaced : dev.isoPaced = false) :
    ConnStep dev eps c conn (.fill lens data deadline) { conn with serving := .idle } none
      [.retIso c (.of sub lens data deadline)]
  | pacerSend {entry : PacedRet} (now : UInt64) (in_hand : conn.sending = some entry) :
    ConnStep dev eps c conn (.pacer now) { conn with sending := none } none [.retIso c entry]
  | pacerPop {entry : PacedRet} {rest : List PacedRet} (now : UInt64)
    (none_sending : conn.sending = none) (popped : popEarliest conn.paceHead = some (entry, rest))
    (due : conn.paceStop ∨ entry.deadline ≤ now) :
    ConnStep dev eps c conn (.pacer now) { conn with paceHead := rest, sending := some entry }
      none []

section ConnStep

variable {dev : Plugged} {eps : EpId → EpState} {c : ConnId} {conn conn' : Conn} {sect : Section}
  {sent : List DevEvent}

theorem Conn.serve_step (h : conn.serve dev eps c = some (conn', sect, sent)) :
    ConnStep dev eps c conn .serve conn' sect sent := by
  unfold Conn.serve at h
  split at h
  · rename_i hpc
    split at h <;> cases h
    rename_i hdone
    exact .resume hpc hdone
  · rename_i hpc
    obtain ⟨request, hreq, heq⟩ := Option.map_eq_some_iff.mp h
    cases heq
    exact .control hpc hreq
  · rename_i hpc
    cases h
    exact .clear hpc
  · rename_i hpc
    cases h
    exact .cleared hpc
  · rename_i hpc
    split at h <;> cases h
    rename_i hdone
    exact .stalled hpc hdone
  · rename_i hpc
    cases h
    exact .answer hpc
  · rename_i hpc
    simp only at h
    split at h <;> cases h <;> rename_i hmap
    · exact .skipSlot hpc hmap
    · exact .unlinkSlot hpc hmap
  · rename_i hpc
    cases h
    exact .unlinkPaced hpc
  · rename_i hpc
    cases h
    exact .replyUnlink hpc
  · rename_i hpc
    split at h <;> cases h
    rename_i hempty
    exact .finish hpc hempty.1 hempty.2
  all_goals cases h

theorem Conn.pace_step {now : UInt64} (h : conn.pace c now = some (conn', sect, sent)) :
    ConnStep dev eps c conn (.pacer now) conn' sect sent := by
  unfold Conn.pace at h
  split at h
  · rename_i hhand
    cases h
    exact .pacerSend now hhand
  · rename_i hnone
    split at h
    · cases h
    · rename_i hpop
      split at h <;> cases h
      rename_i hdue
      exact .pacerPop now hnone hpop hdue

theorem Conn.step_step {a : ConnAct} (h : conn.step dev eps c a = some (conn', sect, sent)) :
    ConnStep dev eps c conn a conn' sect sent := by
  cases a with
  | submit sub =>
    simp only [Conn.step] at h
    split at h <;> cases h
    rename_i hpc
    exact .submit sub hpc
  | unlink seqnum unlinkSeqnum =>
    simp only [Conn.step] at h
    split at h <;> cases h
    rename_i hpc
    exact .unlink seqnum unlinkSeqnum hpc
  | disconnect =>
    simp only [Conn.step] at h
    split at h <;> cases h
    rename_i hpc
    exact .disconnect hpc
  | serve => exact Conn.serve_step h
  | handler status data actual =>
    simp only [Conn.step] at h
    split at h
    · rename_i hpc
      split at h <;> cases h
      rename_i hreq
      exact .handler status data actual hpc hreq
    · cases h
  | fill lens data deadline =>
    simp only [Conn.step] at h
    split at h
    · rename_i hpc
      split at h <;> cases h <;> rename_i hpaced
      · exact .pace lens data deadline hpc hpaced
      · exact .sendIso lens data deadline hpc (by simpa using hpaced)
    · cases h
  | pacer now => exact Conn.pace_step h

end ConnStep

inductive DevStep (dev : Plugged) (s : DevState) : DevAct → DevState → List DevEvent → Prop
  | connect : DevStep dev s .connect { s with conns := s.conns ++ [.new] } []
  | conn {c : ConnId} {a : ConnAct} {conn conn' : Conn} {sent : List DevEvent}
    (found : s.conns[c]? = some conn) (step : ConnStep dev s.eps c conn a conn' none sent) :
    DevStep dev s (.conn c a) (s.setConn c conn') sent
  | connEp {c : ConnId} {a : ConnAct} {conn conn' : Conn} {sent : List DevEvent} {e : EpId}
    {b : EpAct} {ep : EpState} {events : List EpEvent} (found : s.conns[c]? = some conn)
    (step : ConnStep dev s.eps c conn a conn' (some (e, b)) sent)
    (sect : EpStep (s.eps e) b ep events) :
    DevStep dev s (.conn c a) ((s.setConn c conn').setEp e ep)
      (events.map (.ep e) ++ sent)
  | app {e : EpId} {a : EpAct} {ep : EpState} {events : List EpEvent} (allowed : a.fromApp = true)
    (sect : EpStep (s.eps e) a ep events) :
    DevStep dev s (.app e a) (s.setEp e ep) (events.map (.ep e))

theorem DevState.step_step {dev : Plugged} {s s' : DevState} {a : DevAct} {events : List DevEvent}
    (h : s.step dev a = some (s', events)) : DevStep dev s a s' events := by
  cases a with
  | connect => cases h; exact .connect
  | conn c a =>
    simp only [step] at h
    split at h
    · cases h
    · rename_i conn hfound
      split at h
      · cases h
      · rename_i conn' sect sent hstep
        obtain ⟨⟨s'', events'⟩, hrun, heq⟩ := Option.map_eq_some_iff.mp h
        cases heq
        have hconn := Conn.step_step hstep
        cases sect with
        | none => cases hrun; exact .conn hfound hconn
        | some sect =>
          obtain ⟨⟨ep, events⟩, hep, heq⟩ := Option.map_eq_some_iff.mp hrun
          cases heq
          exact .connEp hfound hconn (EpState.step_step hep)
  | app e a =>
    simp only [step] at h
    split at h
    · rename_i hallowed
      obtain ⟨⟨ep, events⟩, hep, heq⟩ := Option.map_eq_some_iff.mp h
      cases heq
      exact .app hallowed (EpState.step_step hep)
    · cases h

end Usbip
