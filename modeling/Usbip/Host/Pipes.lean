import Usbip.Classes.Control
import Usbip.Endpoint.Queue
import Usbip.Host.Session
import Usbip.Layer.Routing

/-! A whole device at the end of a connection: the serve loop, `handle_control` with the handlers of
the application, and the bulk and interrupt pipes with its callbacks.  For a host that makes its
transfers one after the other, the pipes are queues of byte strings. -/

namespace Usbip.Host

open Lib Wire Control
open Classes (Contents told)

/-! ### The device -/

/-- What is done to a pipe: `usbip_device_write`, `usbip_ep_stall` or `usbip_ep_clear_halt`. -/
inductive PipeAct
  | write (e : EpId) (bytes : List UInt8)
  | stall (e : EpId)
  | clearHalt (e : EpId)
  deriving DecidableEq, Repr

/-- A device with its application, which has the states `σ`, and whose callbacks act on the pipes.  A
handler of control requests gets the scratch buffer, or the payload, as it lies there. -/
structure PipeDevice (σ : Type) where
  /-- what requests see of it, the configuration and the halts aside -/
  described : Described
  control : σ → CtrlSlot → Setup → Contents → UInt16 → Handled σ × List PipeAct
  setAlt : σ → CtrlSlot → UInt8 → UInt8 → σ × List PipeAct
  hasOnOut : EpId → Bool
  onOut : σ → EpId → List UInt8 → σ × List PipeAct
  /-- what the memory around `ep_map` reads as -/
  stray : Int → Int → Option Ep

/-- The writes among what a handler does. -/
def writes (accesses : List Access) : List Store :=
  accesses.filterMap fun
    | .read _ _ => none
    | .write w => some w

instance (cap : Nat) : DecidablePred (Access.Inside cap)
  | .read _ _ => inferInstanceAs (Decidable (_ ∨ _))
  | .write w => inferInstanceAs (Decidable (w.Inside cap))

/-- The handler that is never called. -/
def uncalled : Handler := ⟨fun _ len => .nothing len.toNat, fun _ _ _ => 0⟩

/-- The part of the state that control requests see: the application, the configuration, and the
endpoints that are halted. -/
structure Facing (σ : Type) where
  app : σ
  config : UInt8
  halted : EpId → Bool

/-- What a request leaves: the application, the configuration, and what it does to the pipes. -/
structure Changed (σ : Type) where
  app : σ
  config : UInt8
  acts : List PipeAct

namespace PipeDevice

variable {σ : Type} (dev : PipeDevice σ)

/-- `ep_by_addr`. -/
def epByAddr (addr : UInt8) : Option EpId :=
  dev.described.dev.epMap (epNumber addr) (epDir addr)

def seen (f : Facing σ) : Described :=
  { dev.described with
    config := f.config
    halted := fun addr => (dev.epByAddr addr).any f.halted }

/-- The slot that `handle_control` calls for a request, `none` for one that it answers or stalls
itself. -/
def target (f : Facing σ) (setup : Setup) : Option CtrlSlot :=
  match (dev.seen f).asked setup with
  | some _ => none
  | none => (dev.seen f).route setup

/-- The call of a handler: with the scratch buffer for an IN request, and with the payload for an OUT
request. -/
def handled (app : σ) (slot : CtrlSlot) (setup : Setup) (data : List UInt8) (scratch : Contents) :
    Handled σ × List PipeAct :=
  dev.control app slot setup (if setup.isIn then scratch else fun i => data.getD i 0) (told setup data)

def answer (f : Facing σ) (setup : Setup) (data : List UInt8) (scratch : Contents) : Answer :=
  match dev.target f setup with
  | none => handleControl (dev.seen f) (fun _ => uncalled) setup data
  | some slot =>
    let h := (dev.handled f.app slot setup data scratch).1
    let status := if h.rc < 0 then usbipStatusStall else 0
    if setup.isIn then
      .ret setup data (writes h.accesses) (some (setup.wLength.toNat, scratchLen)) status
        h.rc.toNat f.config
    else
      .ret setup data [] (some ((told setup data).toNat, data.length)) status 0 f.config

/-- Nothing outside the scratch buffer, or the payload, is read or written or sent. -/
def Safe (f : Facing σ) (setup : Setup) (data : List UInt8) (scratch : Contents) : Prop :=
  InBounds (dev.answer f setup data scratch) ∧
    ∀ slot ∈ dev.target f setup, ∀ a ∈ (dev.handled f.app slot setup data scratch).1.accesses,
      a.Inside (if setup.isIn then scratchLen else data.length)

instance (f : Facing σ) (setup : Setup) (data : List UInt8) (scratch : Contents) :
    Decidable (dev.Safe f setup data scratch) :=
  have (o : Option CtrlSlot) (g : CtrlSlot → List Access) (cap : Nat) :
      Decidable (∀ slot ∈ o, ∀ a ∈ g slot, a.Inside cap) := Option.decidableForallMem o
  inferInstanceAs (Decidable (_ ∧ _))

def changes (f : Facing σ) (setup : Setup) (data : List UInt8) (scratch : Contents) : Changed σ :=
  match (dev.seen f).asked setup with
  | some (.setConfiguration value) =>
    ⟨f.app, value, (List.range dev.described.dev.eps.length).map .clearHalt⟩
  | some .accept =>
    match haltRequest setup with
    | some (.clearFeature addr) => ⟨f.app, f.config, (dev.epByAddr addr).toList.map .clearHalt⟩
    | some (.setFeature addr) => ⟨f.app, f.config, (dev.epByAddr addr).toList.map .stall⟩
    | _ =>
      if setup.bRequest = 0x0b then
        match dev.described.dev.setAltFor (lsb setup.wIndex) with
        | some slot =>
          let set := dev.setAlt f.app slot (lsb setup.wIndex) (lsb setup.wValue)
          ⟨set.1, f.config, set.2⟩
        | none => ⟨f.app, f.config, []⟩
      else ⟨f.app, f.config, []⟩
  | some _ => ⟨f.app, f.config, []⟩
  | none =>
    match (dev.seen f).route setup with
    | some slot =>
      let h := dev.handled f.app slot setup data scratch
      ⟨h.1.state, f.config, h.2⟩
    | none => ⟨f.app, f.config, []⟩

/-- The endpoint of a transfer. -/
def route (number : UInt32) (dir : Dir) : Option EpId :=
  if number < 16 then dev.described.dev.epMap number.toNat dir else none

end PipeDevice

/-! ### The server -/

structure Piped (σ : Type) where
  app : σ
  eps : EpId → EpState
  config : UInt8

namespace Piped

variable {σ : Type} (s : Piped σ)

def facing : Facing σ := ⟨s.app, s.config, fun e => (s.eps e).halted⟩

/-- A call on an endpoint. -/
def onEp (e : EpId) (ran : EpState × List EpEvent) : Piped σ × List EpEvent :=
  ({ s with eps := tableSet s.eps e ran.1 }, ran.2)

def act : PipeAct → Piped σ × List EpEvent
  | .write e bytes => s.onEp e ((s.eps e).writeAlone bytes)
  | .stall e => s.onEp e (s.eps e).stallAlone
  | .clearHalt e => s.onEp e ({ s.eps e with halted := false }, [])

def acts : Piped σ → List PipeAct → Piped σ × List EpEvent
  | s, [] => (s, [])
  | s, a :: rest =>
    let one := s.act a
    let more := acts one.1 rest
    (more.1, one.2 ++ more.2)

/-- What a request changes. -/
def change (c : Changed σ) : Piped σ × List EpEvent :=
  { s with app := c.app, config := c.config }.acts c.acts

end Piped

/-- The reply that an event sends. -/
def retBytes : EpEvent → List UInt8
  | .ret urb status data actual =>
    usbipSendRet urb.seqnum urb.devid (if urb.direction = .usbIn then usbIn else usbOut) urb.ep status
      (data.bytes actual) actual
  | _ => []

namespace PipeDevice

variable {σ : Type} (dev : PipeDevice σ)

/-- What an endpoint does, where a payload calls the application. -/
def deliver (e : EpId) : Piped σ → List EpEvent → Piped σ × List EpEvent
  | s, [] => (s, [])
  | s, event :: rest =>
    let one : Piped σ × List EpEvent :=
      match event with
      | .onOut data =>
        let called := dev.onOut s.app e data
        { s with app := called.1 }.acts called.2
      | _ => (s, [event])
    let more := deliver e one.1 rest
    (more.1, one.2 ++ more.2)

def dispatch (s : Piped σ) (e : EpId) (urb : Usbip.Urb) : Piped σ × List EpEvent :=
  let one := s.onEp e ((s.eps e).dispatchAlone urb)
  dev.deliver e one.1 one.2

/-- A turn of the serve loop on a transfer without iso packets, where it does nothing undefined. -/
def turn (stack : Stack) (s : Piped σ) (bytes : List UInt8) :
    Option (Piped σ × List UInt8 × List UInt8) :=
  (readCmd ⟨dev.described.dev, dev.stray⟩ stack.old bytes).2.bind fun got =>
    let urb := got.1
    let data := urb.data.getD []
    if urb.command = usbipCmdUnlink ∨ 0 < urb.numberOfPackets ∨
        (urb.direction ≠ usbIn ∧ urb.direction ≠ usbOut) then none
    else if urb.ep = 0 then
      let setup := setupOf urb.setup
      if dev.Safe s.facing setup data stack.scratch then
        let a := dev.answer s.facing setup data stack.scratch
        let after := s.change (dev.changes s.facing setup data stack.scratch)
        some (after.1, after.2.flatMap retBytes ++
          usbipSendRet urb.seqnum urb.devid urb.direction urb.ep a.status
            (answerData a stack.scratch) a.actualLength, got.2)
      else none
    else
      let dir : Dir := if urb.direction = usbIn then .usbIn else .usbOut
      match dev.route urb.ep dir with
      | none =>
        some (s, usbipSendRet urb.seqnum urb.devid urb.direction urb.ep (-19) [] 0, got.2)
      | some e =>
        let served := dev.dispatch s e
          ⟨0, 0, urb.seqnum, urb.devid, dir, urb.ep, .ofInt urb.length, data⟩
        some (served.1, served.2.flatMap retBytes, got.2)

end PipeDevice

/-! ### The queues -/

/-- A device as a host finds it that makes one transfer after the other. -/
structure Pipes (σ : Type) where
  app : σ
  config : UInt8
  queue : EpId → PipeQueue

namespace Pipes

variable {σ : Type} (p : Pipes σ)

def facing : Facing σ := ⟨p.app, p.config, fun e => (p.queue e).halted⟩

def set (e : EpId) (q : PipeQueue) : Pipes σ := { p with queue := tableSet p.queue e q }

def act : PipeAct → Pipes σ
  | .write e bytes => p.set e ((p.queue e).write bytes)
  | .stall e => p.set e { p.queue e with halted := true }
  | .clearHalt e => p.set e { p.queue e with halted := false }

def acts (as : List PipeAct) : Pipes σ := as.foldl act p

def change (c : Changed σ) : Pipes σ := { p with app := c.app, config := c.config }.acts c.acts

end Pipes

/-- A transfer of `usbip_client_submit` without iso packets. -/
inductive Transfer
  | control (q : ControlCall)
  | output (number interval : UInt32) (buf : List UInt8) (h : buf.length < 2 ^ 31)
  | input (number interval : UInt32) (len : Nat) (h : len < 2 ^ 31)

namespace PipeDevice

variable {σ : Type} (dev : PipeDevice σ)

/-- A payload comes to an endpoint that is not halted. -/
def take (p : Pipes σ) (e : EpId) (data : List UInt8) : Pipes σ :=
  if dev.hasOnOut e then
    let called := dev.onOut p.app e data
    { p with app := called.1 }.acts called.2
  else p.set e { p.queue e with outq := (p.queue e).outq ++ [data] }

/-- A transfer at its endpoint, which `served` serves when it is not halted. -/
def atPipe (p : Pipes σ) (number : UInt32) (dir : Dir) (served : EpId → Pipes σ × Outcome) :
    Pipes σ × Outcome :=
  match dev.route number dir with
  | none => (p, .of (-19) 0 [])
  | some e => if (p.queue e).halted then (p, .of usbipStatusStall 0 []) else served e

/-- A transfer as it is served on the spot. -/
def serve (stack : Stack) (p : Pipes σ) : Transfer → Pipes σ × Outcome
  | .control q =>
    (p.change (dev.changes p.facing q.setup q.payload stack.scratch),
      outcomeOf (dev.answer p.facing q.setup q.payload stack.scratch) q.setup stack.scratch)
  | .output number _ buf _ =>
    dev.atPipe p number .usbOut fun e => (dev.take p e buf, .of 0 buf.length [])
  | .input number _ len _ =>
    dev.atPipe p number .usbIn fun e =>
      (p.set e ((p.queue e).drop len), .of 0 ((p.queue e).got len).length ((p.queue e).got len))

/-- A transfer that comes to an end: a control request that is served safely, a payload for a
number of an endpoint, or a read that finds some bytes, where the endpoint is not halted. -/
def Ready (scratch : Contents) (p : Pipes σ) : Transfer → Prop
  | .control q => dev.Safe p.facing q.setup q.payload scratch
  | .output number _ _ _ => number ≠ 0
  | .input number _ len _ => number ≠ 0 ∧ 0 < len ∧
    ∀ e ∈ dev.route number .usbIn, (p.queue e).halted = true ∨ (p.queue e).inq ≠ []

instance (scratch : Contents) (p : Pipes σ) : ∀ q, Decidable (dev.Ready scratch p q)
  | .control _ => inferInstanceAs (Decidable (dev.Safe _ _ _ _))
  | .output _ _ _ _ => inferInstanceAs (Decidable (_ ≠ _))
  | .input number _ _ _ =>
    have (o : Option EpId) (c : EpId → Prop) [DecidablePred c] : Decidable (∀ e ∈ o, c e) :=
      Option.decidableForallMem o
    inferInstanceAs (Decidable (_ ∧ _ ∧ ∀ e ∈ dev.route number .usbIn, _ ∨ _))

/-- The endpoints show the queues. -/
structure Mirrors (s : Piped σ) (p : Pipes σ) : Prop where
  app : s.app = p.app
  config : s.config = p.config
  shows : ∀ e, (s.eps e).Shows (p.queue e)
  onOut : ∀ e, (s.eps e).onOut = dev.hasOnOut e

end PipeDevice

namespace Transfer

/-- The arguments of `usbip_client_submit`, on a device that was imported as `devid`. -/
def args (devid : UInt32) : Transfer → SubmitArgs
  | .control q => q.args devid
  | .output number interval buf _ =>
    { devid, dir := usbOut, ep := number, setup := none, interval, buf
      len := .ofNat buf.length
      filled := fun _ => by
        have hlt := buf.length.toUInt32.toNat_lt
        have hle : buf.length.toUInt32.toNat ≤ buf.length := by
          simpa using Nat.mod_le _ _
        have hint : int32 (.ofNat buf.length) ≤ buf.length.toUInt32.toNat := by
          rw [int32_eq]
          split <;> simp
        omega }
  | .input number interval len _ =>
    { devid, dir := usbIn, ep := number, setup := none, interval, buf := []
      len := .ofNat len
      filled := fun h => absurd h (by decide) }

/-- The transfer as the client awaits its reply. -/
def awaited : Transfer → Awaited
  | .control q => q.awaited
  | .output number _ buf h => ⟨usbOut, number, none, buf.length, h, fun h => absurd rfl h⟩
  | .input number _ len h => ⟨usbIn, number, none, len, h, fun h => absurd rfl h⟩

end Transfer

/-- The connection of a host that has imported the device as `devid`. -/
def pipeLink {σ : Type} (dev : PipeDevice σ) (devid : UInt32) :
    Link (Piped σ × (Nat → Stack)) UInt32 Transfer Outcome UInt8 UInt8 where
  send seq q := (seq + 1, (q.args devid).bytes (seq + 1))
  turn s bytes := (dev.turn (s.2 0) s.1 bytes).map fun served =>
    ((served.1, fun i => s.2 (i + 1)), served.2)
  recv _ q := q.awaited.recv

/-- The device on the spot, with the frames that the turns of a serve loop would have. -/
def servePipes {σ : Type} (dev : PipeDevice σ) (s : Pipes σ × (Nat → Stack)) (q : Transfer) :
    (Pipes σ × (Nat → Stack)) × Outcome :=
  (((dev.serve (s.2 0) s.1 q).1, fun i => s.2 (i + 1)), (dev.serve (s.2 0) s.1 q).2)

/-- The transfers that come to an end there. -/
def readyPipes {σ : Type} (dev : PipeDevice σ) (s : Pipes σ × (Nat → Stack)) (q : Transfer) : Prop :=
  dev.Ready (s.2 0).scratch s.1 q

instance {σ : Type} (dev : PipeDevice σ) (s : Pipes σ × (Nat → Stack)) (q : Transfer) :
    Decidable (readyPipes dev s q) :=
  inferInstanceAs (Decidable (dev.Ready _ _ q))

/-! ### The pipes are queues -/

theorem writes_map (ws : List Store) : writes (ws.map .write) = ws := by
  induction ws with
  | nil => rfl
  | cons w ws ih => exact congrArg (w :: ·) ih

namespace PipeDevice

variable {σ : Type} {dev : PipeDevice σ} {s : Piped σ} {p : Pipes σ} {e : EpId}

namespace Mirrors

theorem facing (h : dev.Mirrors s p) : s.facing = p.facing := by
  rw [Piped.facing, Pipes.facing, h.app, h.config]
  exact congrArg _ (funext fun e => (h.shows e).halted)

/-- A call on an endpoint, whose queue it changes to `q`. -/
theorem onEp (h : dev.Mirrors s p) (e : EpId) {ran : EpState × List EpEvent} {q : PipeQueue}
    (hran : ran.1.Shows q) (hout : ran.1.onOut = (s.eps e).onOut) :
    dev.Mirrors (s.onEp e ran).1 (p.set e q) where
  app := h.app
  config := h.config
  shows e' := by
    show (tableSet s.eps e ran.1 e').Shows (tableSet p.queue e q e')
    unfold tableSet
    split
    · exact hran
    · exact h.shows e'
  onOut e' := by
    show (tableSet s.eps e ran.1 e').onOut = _
    unfold tableSet
    split
    · rename_i he
      rw [he, hout]
      exact h.onOut e
    · exact h.onOut e'

theorem act (h : dev.Mirrors s p) (a : PipeAct) :
    dev.Mirrors (s.act a).1 (p.act a) ∧ (s.act a).2 = [] := by
  cases a with
  | write e bytes =>
    obtain ⟨hshows, hnone⟩ := (h.shows e).writeAlone bytes
    exact ⟨h.onEp e hshows (runAlone_onOut _ _), hnone⟩
  | stall e =>
    obtain ⟨hshows, hnone⟩ := (h.shows e).stallAlone
    exact ⟨h.onEp e hshows (runAlone_onOut _ _), hnone⟩
  | clearHalt e => exact ⟨h.onEp e (h.shows e).clearHalt rfl, rfl⟩

theorem acts (h : dev.Mirrors s p) (as : List PipeAct) :
    dev.Mirrors (s.acts as).1 (p.acts as) ∧ (s.acts as).2 = [] := by
  induction as generalizing s p with
  | nil => exact ⟨h, rfl⟩
  | cons a rest ih =>
    obtain ⟨hone, hnone⟩ := h.act a
    obtain ⟨hmore, hrest⟩ := ih hone
    refine ⟨hmore, ?_⟩
    rw [Piped.acts, hnone, hrest]
    rfl

theorem withApp (h : dev.Mirrors s p) (app : σ) :
    dev.Mirrors { s with app } { p with app } := ⟨rfl, h.config, h.shows, h.onOut⟩

theorem change (h : dev.Mirrors s p) (c : Changed σ) :
    dev.Mirrors (s.change c).1 (p.change c) ∧ (s.change c).2 = [] :=
  have hset : dev.Mirrors { s with app := c.app, config := c.config }
      { p with app := c.app, config := c.config } := ⟨rfl, rfl, h.shows, h.onOut⟩
  hset.acts c.acts

end Mirrors

theorem set_self (p : Pipes σ) (e : EpId) : p.set e (p.queue e) = p := by
  have hsame : tableSet p.queue e (p.queue e) = p.queue := by
    funext e'
    unfold tableSet
    split
    · rw [‹e' = e›]
    · rfl
  exact congrArg (fun queue => { p with queue }) hsame

theorem dispatch_eq (s : Piped σ) (e : EpId) {urb : Usbip.Urb} {events : List EpEvent}
    (h : ((s.eps e).dispatchAlone urb).2 = events) :
    dev.dispatch s e urb = dev.deliver e (s.onEp e ((s.eps e).dispatchAlone urb)).1 events := by
  rw [← h]
  rfl

/-- The callback of the application acts before the reply is sent. -/
theorem deliver_onOut (s : Piped σ) (e : EpId) (data : List UInt8) (urb : Usbip.Urb) (actual : Int) :
    dev.deliver e s [.onOut data, .ret urb 0 .null actual] =
      (({ s with app := (dev.onOut s.app e data).1 }.acts (dev.onOut s.app e data).2).1,
        ({ s with app := (dev.onOut s.app e data).1 }.acts (dev.onOut s.app e data).2).2 ++
          [.ret urb 0 .null actual]) := rfl

/-- An endpoint takes a URB, before the application is called. -/
theorem Mirrors.dispatchAlone (h : dev.Mirrors s p) (urb : Usbip.Urb) {q : PipeQueue}
    (hshows : ((s.eps e).dispatchAlone urb).1.Shows q) :
    dev.Mirrors (s.onEp e ((s.eps e).dispatchAlone urb)).1 (p.set e q) :=
  h.onEp e hshows (runAlone_onOut _ _)

/-- A transfer for an endpoint that is halted is stalled. -/
theorem Mirrors.dispatch_halted (h : dev.Mirrors s p) (hhalted : (p.queue e).halted = true)
    (urb : Usbip.Urb) : dev.Mirrors (dev.dispatch s e urb).1 p ∧
      (dev.dispatch s e urb).2 = [.ret ((s.eps e).submitted urb) usbipStatusStall .null 0] := by
  obtain ⟨hshows, hret⟩ := (h.shows e).dispatch_halted urb hhalted
  have hone := h.dispatchAlone urb hshows
  rw [set_self] at hone
  rw [dispatch_eq s e hret]
  exact ⟨hone, rfl⟩

/-- A payload comes to the application, or to the queue, and is accounted for. -/
theorem Mirrors.dispatch_out (h : dev.Mirrors s p) (hopen : (p.queue e).halted = false)
    (urb : Usbip.Urb) (hdir : urb.direction = .usbOut) :
    dev.Mirrors (dev.dispatch s e urb).1 (dev.take p e urb.data) ∧
      (dev.dispatch s e urb).2 = [.ret ((s.eps e).submitted urb) 0 .null urb.data.length] := by
  obtain ⟨hshows, hret⟩ := (h.shows e).dispatch_out urb hopen hdir
  rw [h.onOut e] at hshows hret
  have hone := h.dispatchAlone urb hshows
  cases hout : dev.hasOnOut e with
  | true =>
    rw [hout, if_pos rfl] at hone hret
    rw [set_self] at hone
    have happ : (s.onEp e ((s.eps e).dispatchAlone urb)).1.app = p.app := h.app
    obtain ⟨hacts, hnone⟩ := (hone.withApp (dev.onOut p.app e urb.data).1).acts
      (dev.onOut p.app e urb.data).2
    rw [dispatch_eq s e hret, List.singleton_append, deliver_onOut, happ, hnone, take, if_pos hout]
    exact ⟨hacts, rfl⟩
  | false =>
    have hout' : ¬dev.hasOnOut e = true := by simp [hout]
    rw [hout, if_neg Bool.false_ne_true] at hone hret
    rw [dispatch_eq s e hret, take, if_neg hout']
    exact ⟨hone, rfl⟩

/-- A read takes its slice of the first piece. -/
theorem Mirrors.dispatch_in (h : dev.Mirrors s p) (hopen : (p.queue e).halted = false)
    (hsome : (p.queue e).inq ≠ []) (urb : Usbip.Urb) (hdir : urb.direction = .usbIn) {len : Nat}
    (hlen : int32 urb.length = len) (hpos : 0 < len) :
    dev.Mirrors (dev.dispatch s e urb).1 (p.set e ((p.queue e).drop len)) ∧ ∃ slice,
      (dev.dispatch s e urb).2 =
        [.ret ((s.eps e).submitted urb) 0 slice ((p.queue e).got len).length] ∧
      slice.bytes ((p.queue e).got len).length = (p.queue e).got len := by
  obtain ⟨hshows, slice, hret, hbytes⟩ := (h.shows e).dispatch_in urb hopen hdir hsome hlen hpos
  rw [dispatch_eq s e hret]
  exact ⟨h.dispatchAlone urb hshows, slice, rfl, hbytes⟩

/-! ### The wire -/

theorem answer_reported (dev : PipeDevice σ) (f : Facing σ) (setup : Setup) (data : List UInt8)
    (scratch : Contents) : Reported (dev.answer f setup data scratch) setup data := by
  have hstall : ∀ rc : Int, (if rc < 0 then usbipStatusStall else 0) = 0 ∨
      (if rc < 0 then usbipStatusStall else 0) = usbipStatusStall := by
    intro rc
    split <;> simp
  unfold answer
  split
  · exact handleControl_reported ..
  · dsimp only
    split
    · exact reported_ret _ _ _ _ (hstall _) _ _
    · exact reported_ret _ _ _ _ (hstall _) _ _

/-- The turn of the serve loop on a submission of the client. -/
theorem turn_args (stack : Stack) (s : Piped σ) (seq : UInt32) (args : SubmitArgs)
    (hdir : args.dir = usbIn ∨ args.dir = usbOut) :
    dev.turn stack s (args.bytes seq) =
      if args.ep = 0 then
        let setup := setupOf ((args.setup.map Vector.toList).getD (List.replicate 8 0))
        if dev.Safe s.facing setup args.payload stack.scratch then
          let a := dev.answer s.facing setup args.payload stack.scratch
          let after := s.change (dev.changes s.facing setup args.payload stack.scratch)
          some (after.1, after.2.flatMap retBytes ++ usbipSendRet seq args.devid args.dir args.ep
            a.status (answerData a stack.scratch) a.actualLength, [])
        else none
      else
        let dir : Dir := if args.dir = usbIn then .usbIn else .usbOut
        match dev.route args.ep dir with
        | none => some (s, usbipSendRet seq args.devid args.dir args.ep (-19) [] 0, [])
        | some e =>
          let served := dev.dispatch s e
            ⟨0, 0, seq, args.devid, dir, args.ep, .ofInt (int32 args.len), args.payload⟩
          some (served.1, served.2.flatMap retBytes, []) := by
  obtain ⟨urb, hread, hcmd, hseq, hdevid, hdirection, hep, hsetup, hdata, hlen, hpkts⟩ :=
    readCmd_args ⟨dev.described.dev, dev.stray⟩ stack.old seq args []
  rw [List.append_nil] at hread
  have hserved : ¬(urb.command = usbipCmdUnlink ∨ 0 < urb.numberOfPackets ∨
      (urb.direction ≠ usbIn ∧ urb.direction ≠ usbOut)) := by
    rw [hcmd, hpkts, hdirection]
    rintro (h | h | h)
    · exact absurd h (by decide)
    · exact absurd h (Int.lt_irrefl 0)
    · exact hdir.elim h.1 h.2
  rw [turn, hread, Option.bind_some]
  dsimp only
  rw [if_neg hserved, hep, hsetup, hdata, hseq, hdevid, hdirection, hlen]

/-- A turn on a control transfer. -/
theorem turn_control {stack : Stack} {s : Piped σ} {q : ControlCall}
    (hsafe : dev.Safe s.facing q.setup q.payload stack.scratch) (devid seq : UInt32) :
    dev.turn stack s ((q.args devid).bytes seq) =
      let a := dev.answer s.facing q.setup q.payload stack.scratch
      let after := s.change (dev.changes s.facing q.setup q.payload stack.scratch)
      some (after.1, after.2.flatMap retBytes ++ usbipSendRet seq devid q.dir 0 a.status
        (answerData a stack.scratch) a.actualLength, []) := by
  have hdir : q.dir = usbIn ∨ q.dir = usbOut := by
    unfold ControlCall.dir
    split <;> simp
  have hsetup : setupOf (((q.args devid).setup.map Vector.toList).getD (List.replicate 8 0)) = q.setup :=
    setupOf_setupBytes q.setup
  have hep : (q.args devid).ep = 0 := rfl
  rw [turn_args stack s seq (q.args devid) hdir]
  simp only [hep, if_pos, hsetup, q.payload_args, if_pos hsafe]
  rfl

/-- A turn on a transfer for another endpoint. -/
theorem turn_data (stack : Stack) (s : Piped σ) (seq : UInt32) {args : SubmitArgs} {dir : Dir}
    (hep : args.ep ≠ 0) (hdir : args.dir = if dir = .usbIn then usbIn else usbOut) :
    dev.turn stack s (args.bytes seq) = match dev.route args.ep dir with
      | none => some (s, usbipSendRet seq args.devid args.dir args.ep (-19) [] 0, [])
      | some e =>
        let served := dev.dispatch s e
          ⟨0, 0, seq, args.devid, dir, args.ep, .ofInt (int32 args.len), args.payload⟩
        some (served.1, served.2.flatMap retBytes, []) := by
  have hboth : args.dir = usbIn ∨ args.dir = usbOut := by
    rw [hdir]
    split <;> simp
  have hsame : (if args.dir = usbIn then Dir.usbIn else .usbOut) = dir := by
    rw [hdir]
    cases dir <;> decide
  rw [turn_args stack s seq args hboth, if_neg hep, hsame]

end PipeDevice

section

variable {σ : Type} (dev : PipeDevice σ) (devid : UInt32)

theorem pipeLink_turn (s : Piped σ × (Nat → Stack)) (bytes : List UInt8) :
    (pipeLink dev devid).turn s bytes = (dev.turn (s.2 0) s.1 bytes).map fun served =>
      ((served.1, fun i => s.2 (i + 1)), served.2) := rfl

theorem pipeLink_send (seq : UInt32) (q : Transfer) :
    ((pipeLink dev devid).send seq q).2 = (q.args devid).bytes (seq + 1) := rfl

theorem pipeLink_recv (seq : UInt32) (q : Transfer) :
    (pipeLink dev devid).recv seq q = q.awaited.recv := rfl

end

section

variable {σ : Type} {dev : PipeDevice σ} {s : Piped σ} {p : Pipes σ} {stack : Stack}

/-- The server does with a transfer what the device does on the spot, and its reply gets back. -/
def Carried (dev : PipeDevice σ) (devid seq : UInt32) (stack : Stack) (s : Piped σ)
    (q : Transfer) (served : Pipes σ × Outcome) : Prop :=
  ∃ s' reply, dev.turn stack s ((q.args devid).bytes seq) = some (s', reply, []) ∧
    dev.Mirrors s' served.1 ∧ q.awaited.recv reply = some (served.2, [])

theorem carried_control (h : dev.Mirrors s p) (devid seq : UInt32) {q : ControlCall}
    (hsafe : dev.Safe p.facing q.setup q.payload stack.scratch) :
    Carried dev devid seq stack s (.control q) (dev.serve stack p (.control q)) := by
  rw [← h.facing] at hsafe
  have hturn := PipeDevice.turn_control hsafe devid seq
  rw [h.facing] at hturn
  obtain ⟨hchange, hnone⟩ := h.change (dev.changes p.facing q.setup q.payload stack.scratch)
  dsimp only at hturn
  rw [hnone] at hturn
  refine ⟨_, _, hturn, hchange, ?_⟩
  exact recv_answer devid (dev.answer_reported p.facing q.setup q.payload stack.scratch) seq
    stack.scratch

/-- The reply of an endpoint to a transfer, as the client gets it. -/
theorem recv_ret (w : Awaited) (ep : EpState) {urb : Usbip.Urb}
    (hdir : w.dir = if urb.direction = .usbIn then usbIn else usbOut)
    {status : Int} (hstatus : -2 ^ 31 ≤ status ∧ status < 2 ^ 31) {actual : Nat}
    (hlt : actual < 2 ^ 31) {data : Slice} {bytes : List UInt8} (hbytes : data.bytes actual = bytes)
    (hin : w.dir = usbIn → actual ≤ w.len ∧ actual = bytes.length)
    (hout : w.dir ≠ usbIn → bytes = []) :
    w.recv ([EpEvent.ret (ep.submitted urb) status data actual].flatMap retBytes) =
      some (.of status actual bytes, []) := by
  have hrecv := w.recv_usbipSendRet urb.seqnum urb.devid urb.ep bytes hstatus
    (Int.natCast_nonneg actual) (Int.ofNat_lt.mpr hlt) (fun hd => by
      obtain ⟨hle, heq⟩ := hin hd
      exact ⟨Int.ofNat_le.mpr hle, Int.ofNat_le.mpr heq.le⟩) []
  rw [List.append_nil] at hrecv
  have hbuf : (if w.dir = usbIn then bytes.take (actual : Int).toNat else []) = bytes := by
    by_cases hd : w.dir = usbIn
    · rw [if_pos hd, Int.toNat_natCast, (hin hd).2, List.take_length]
    · rw [if_neg hd, hout hd]
  rw [hbuf] at hrecv
  rw [List.flatMap_singleton, retBytes, hbytes, ← hrecv, hdir]
  rfl

/-- The URB of a submission. -/
def urbOf (args : SubmitArgs) (seq : UInt32) (dir : Dir) : Usbip.Urb :=
  ⟨0, 0, seq, args.devid, dir, args.ep, .ofInt (int32 args.len), args.payload⟩

/-- A transfer for a number of an endpoint, which the endpoint serves when it is not halted. -/
theorem carried_data (h : dev.Mirrors s p) {devid seq : UInt32} (q : Transfer) (dir : Dir)
    (hep : (q.args devid).ep ≠ 0) (hdir : (q.args devid).dir = if dir = .usbIn then usbIn else usbOut)
    (hawaited : q.awaited.dir = (q.args devid).dir) {served : EpId → Pipes σ × Outcome}
    (hserved : ∀ e, dev.route (q.args devid).ep dir = some e → (p.queue e).halted = false →
      dev.Mirrors (dev.dispatch s e (urbOf (q.args devid) seq dir)).1 (served e).1 ∧
        q.awaited.recv ((dev.dispatch s e (urbOf (q.args devid) seq dir)).2.flatMap retBytes) =
          some ((served e).2, [])) :
    Carried dev devid seq stack s q (dev.atPipe p (q.args devid).ep dir served) := by
  have hturn : dev.turn stack s ((q.args devid).bytes seq) = _ :=
    PipeDevice.turn_data stack s seq hep hdir
  have hnothing : (if q.awaited.dir = usbIn then ([] : List UInt8).take 0 else []) = [] := by
    split <;> rfl
  unfold PipeDevice.atPipe
  cases hto : dev.route (q.args devid).ep dir with
  | none =>
    rw [hto] at hturn
    refine ⟨_, _, hturn, h, ?_⟩
    have hrecv := q.awaited.recv_usbipSendRet seq (q.args devid).devid (q.args devid).ep []
      (by decide : (-2 ^ 31 : Int) ≤ -19 ∧ (-19 : Int) < 2 ^ 31) (Int.le_refl 0) (by decide)
      (fun _ => ⟨Int.natCast_nonneg _, Int.le_refl 0⟩) []
    rw [List.append_nil, hawaited] at hrecv
    refine hrecv.trans ?_
    rw [← hawaited]
    exact congrArg (fun got => some (Outcome.of (-19) 0 got, [])) hnothing
  | some e =>
    rw [hto] at hturn
    refine ⟨_, _, hturn, ?_⟩
    by_cases hhalted : (p.queue e).halted = true
    · obtain ⟨hmirrors, hret⟩ := h.dispatch_halted hhalted (urbOf (q.args devid) seq dir)
      simp only [if_pos hhalted]
      refine ⟨hmirrors, ?_⟩
      show q.awaited.recv ((dev.dispatch s e (urbOf (q.args devid) seq dir)).2.flatMap retBytes) = _
      rw [hret]
      exact recv_ret q.awaited _ (hawaited.trans hdir) (by decide) (by decide : 0 < 2 ^ 31) rfl
        (fun _ => ⟨Nat.zero_le _, rfl⟩) fun _ => rfl
    · simp only [if_neg hhalted]
      exact hserved e hto (Bool.eq_false_iff.mpr hhalted)

theorem carried_output (h : dev.Mirrors s p) (devid seq : UInt32) {number interval : UInt32}
    {buf : List UInt8} {hlt : buf.length < 2 ^ 31} (hnumber : number ≠ 0) :
    Carried dev devid seq stack s (.output number interval buf hlt)
      (dev.serve stack p (.output number interval buf hlt)) := by
  have hpayload : ((Transfer.output number interval buf hlt).args devid).payload = buf := by
    have hlen : int32 ((Transfer.output number interval buf hlt).args devid).len = buf.length := int32_ofNat hlt
    have hall : ((Transfer.output number interval buf hlt).args devid).buf.take buf.length = buf :=
      List.take_length
    rw [SubmitArgs.payload, hlen, Int.toNat_natCast, hall]
    cases buf with
    | nil => exact ite_self _
    | cons b rest => exact if_pos ⟨rfl, Int.ofNat_lt.mpr (Nat.succ_pos _)⟩
  refine carried_data h (.output number interval buf hlt) .usbOut hnumber rfl rfl
    fun e _ hopen => ?_
  obtain ⟨hmirrors, hret⟩ := h.dispatch_out hopen
    (urbOf ((Transfer.output number interval buf hlt).args devid) seq .usbOut) rfl
  have hdata : (urbOf ((Transfer.output number interval buf hlt).args devid) seq .usbOut).data = buf := hpayload
  rw [hdata] at hmirrors hret
  have hw : (Transfer.output number interval buf hlt).awaited.dir ≠ usbIn := show usbOut ≠ usbIn by decide
  have hnull : Slice.null.bytes buf.length = [] := List.take_nil
  refine ⟨hmirrors, ?_⟩
  rw [hret]
  exact recv_ret _ _ rfl (by decide) hlt hnull (fun hd => absurd hd hw) fun _ => rfl

theorem carried_input (h : dev.Mirrors s p) (devid seq : UInt32) {number interval : UInt32} {len : Nat}
    {hlt : len < 2 ^ 31} (hnumber : number ≠ 0) (hpos : 0 < len)
    (hsome : ∀ e ∈ dev.route number .usbIn, (p.queue e).halted = true ∨ (p.queue e).inq ≠ []) :
    Carried dev devid seq stack s (.input number interval len hlt)
      (dev.serve stack p (.input number interval len hlt)) := by
  refine carried_data h (.input number interval len hlt) .usbIn hnumber rfl rfl
    fun e hto hopen => ?_
  have hinq : (p.queue e).inq ≠ [] := (hsome e hto).resolve_left (ne_true_of_eq_false hopen)
  have hlen : int32 (urbOf ((Transfer.input number interval len hlt).args devid) seq .usbIn).length = len := by
    show int32 (.ofInt (int32 (.ofNat len))) = len
    rw [int32_ofNat hlt]
    exact int32_ofInt (by omega) (Int.ofNat_lt.mpr hlt)
  obtain ⟨hmirrors, slice, hret, hbytes⟩ := h.dispatch_in hopen hinq
    (urbOf ((Transfer.input number interval len hlt).args devid) seq .usbIn) rfl hlen hpos
  have hgot : ((p.queue e).got len).length ≤ len := List.length_take_le _ _
  refine ⟨hmirrors, ?_⟩
  rw [hret]
  exact recv_ret _ _ rfl (by decide) (by omega) hbytes (fun _ => ⟨hgot, rfl⟩)
    fun hd => absurd rfl hd

end

/-- A transfer that comes to an end gets over the wire what it gets on the spot. -/
theorem pipeLink_carries {σ : Type} (dev : PipeDevice σ) (devid : UInt32) :
    (pipeLink dev devid).Carries (fun s p => dev.Mirrors s.1 p.1 ∧ s.2 = p.2) (servePipes dev)
      (readyPipes dev) := by
  rintro ⟨s, frames⟩ ⟨p, _⟩ seq q ⟨h, rfl⟩ hq
  have hcarried : Carried dev devid (seq + 1) (frames 0) s q (dev.serve (frames 0) p q) := by
    cases q with
    | control q => exact carried_control h devid _ hq
    | output number interval buf hlt => exact carried_output h devid _ hq
    | input number interval len hlt => exact carried_input h devid _ hq.1 hq.2.1 hq.2.2
  obtain ⟨s', reply, hturn, hmirrors, hrecv⟩ := hcarried
  refine ⟨(s', fun i => frames (i + 1)), reply, ?_, ⟨hmirrors, rfl⟩, hrecv⟩
  rw [pipeLink_turn, pipeLink_send, hturn]
  rfl

end Usbip.Host
