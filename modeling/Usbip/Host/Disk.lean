import Usbip.Host.Pipes
import Usbip.Msc.Recovery
import Usbip.Msc.Store

/-! A disk over the wire: the driver of a host that speaks the Bulk-Only Transport through bulk
transfers, and the function on the other side.  Its commands get what they get from the media. -/

namespace Usbip.Host

open Lib Wire Control
open Classes (Contents)
open Msc (Medium MscState Event BlockCall BlockReply Disks)

/-! ### The requests for a halt -/

/-- `CLEAR_FEATURE` of the halt of an endpoint. -/
def clearHalt (addr : UInt8) : ControlCall where
  setup := ⟨0x02, 0x01, 0, addr.toUInt16, 0⟩
  buf := []
  filled _ := Nat.le_refl 0

theorem clearHalt_class (addr : UInt8) : (clearHalt addr).setup.reqType = 0 ∧
    (clearHalt addr).setup.recip = 2 ∧ (clearHalt addr).setup.isIn = false :=
  (by decide : ((0x02 : UInt8) >>> 5 &&& 3) = 0 ∧ ((0x02 : UInt8) &&& 0x1f) = 2 ∧
    decide (((0x02 : UInt8) &&& 0x80) ≠ 0) = false)

theorem clearHalt_request (addr : UInt8) :
    haltRequest (clearHalt addr).setup = some (.clearFeature addr) := by
  have hclass : (clearHalt addr).setup.bmRequestType >>> 5 &&& 3 = 0 := (clearHalt_class addr).1
  have hrecip : (clearHalt addr).setup.bmRequestType &&& 0x1f = 2 := (clearHalt_class addr).2.1
  have haddr : (clearHalt addr).setup.wIndex.toUInt8 = addr := UInt8.toUInt8_toUInt16 addr
  have hnot : ¬(clearHalt addr).setup.bRequest = 9 := show ¬(0x01 : UInt8) = 9 by decide
  rw [haltRequest, if_pos hclass, if_neg hnot, if_pos (.inl rfl), if_pos ⟨hrecip, rfl⟩, haddr]
  rfl

section

variable {σ : Type} (dev : PipeDevice σ)

theorem clearHalt_asked (f : Facing σ) (addr : UInt8) :
    (dev.seen f).asked (clearHalt addr).setup = some .accept := by
  rw [Described.asked, if_pos (clearHalt_class addr).1]
  rfl

theorem clearHalt_answer (f : Facing σ) (addr : UInt8) (scratch : Contents) :
    dev.answer f (clearHalt addr).setup (clearHalt addr).payload scratch =
      .ret (clearHalt addr).setup (clearHalt addr).payload [] none 0 0 f.config := by
  rw [PipeDevice.answer, PipeDevice.target, clearHalt_asked, handleControl, clearHalt_asked]
  rfl

theorem clearHalt_ready (scratch : Contents) (p : Pipes σ) (addr : UInt8) :
    dev.Ready scratch p (.control (clearHalt addr)) := by
  refine ⟨?_, ?_⟩
  · rw [clearHalt_answer]
    exact inBounds_ret _ _ _ (fun w hw => absurd hw List.not_mem_nil) (by simp) _ _ _
  · rw [PipeDevice.target, clearHalt_asked]
    exact fun slot hslot => nomatch hslot

theorem serve_clearHalt (stack : Stack) (p : Pipes σ) {addr : UInt8} {e : EpId}
    (h : dev.epByAddr addr = some e) : dev.serve stack p (.control (clearHalt addr)) =
      (p.set e { p.queue e with halted := false }, .of 0 0 []) := by
  have hchanges : dev.changes p.facing (clearHalt addr).setup (clearHalt addr).payload
      stack.scratch = ⟨p.app, p.config, [.clearHalt e]⟩ := by
    rw [PipeDevice.changes, clearHalt_asked]
    simp only [clearHalt_request, h]
    rfl
  have hpayload : (clearHalt addr).payload = [] := by
    rw [ControlCall.payload, (clearHalt_class addr).2.2]
    rfl
  rw [PipeDevice.serve, hchanges, clearHalt_answer, hpayload]
  refine congrArg (Prod.mk _) ?_
  simp [outcomeOf, Answer.ret, (clearHalt_class addr).2.2]

end

/-! ### The driver -/

/-- The addresses of the pipes. -/
structure BotAddrs where
  inAddr : UInt8
  outAddr : UInt8

namespace BotAddrs

variable (a : BotAddrs)

/-- `endpoint & 0x0f`. -/
def inNumber : UInt32 := (a.inAddr &&& 0x0f).toUInt32

def outNumber : UInt32 := (a.outAddr &&& 0x0f).toUInt32

/-- The wrapper and the data go out one after the other, up to a stall, which is cleared. -/
def send : List (List UInt8) → Calls Transfer Outcome Unit
  | [] => .done ()
  | chunk :: rest =>
    if h : chunk.length < 2 ^ 31 then
      .call (.output a.outNumber 0 chunk h) fun r =>
        if r.rc = usbSuccess then send rest
        else .call (.control (clearHalt a.outAddr)) fun _ => .done ()
    else .done ()

/-- The IN data that a command announces, and nothing after a stall, which is cleared. -/
def fetch (len : Nat) : Calls Transfer Outcome (List UInt8) :=
  if h : 0 < len ∧ len < 2 ^ 31 then
    .call (.input a.inNumber 0 len h.2) fun r =>
      if r.rc = usbSuccess then .done r.data
      else .call (.control (clearHalt a.inAddr)) fun _ => .done []
  else .done []

/-- The status, when it has the tag of the command. -/
def status (tag : UInt32) (csw : List UInt8) : Option UInt8 :=
  if csw.length = 13 ∧ csw.take 4 = Msc.cswSig ∧ (csw.drop 4).take 4 = u32le tag then csw[12]? else none

/-- A command: the wrapper, the data, and the status. -/
def command (tag : UInt32) (q : BlockCall) :
    Calls Transfer Outcome (UInt32 × Option BlockReply) :=
  (a.send (q.wrapper (tag + 1) :: q.chunks)).bind fun _ =>
    (a.fetch (if q.flagIn then q.dlen.toNat else 0)).bind fun data =>
      .call (.input a.inNumber 0 13 (by decide)) fun r =>
        .done (tag + 1, (status (tag + 1) r.data).map (⟨·, data⟩))

end BotAddrs

/-! ### The device -/

/-- A device with a mass storage function, on the media of an application. -/
structure DiskDevice (β : Type) extends BotAddrs where
  medium : Medium β
  described : Described
  /-- what the memory around `ep_map` reads as -/
  stray : Int → Int → Option Ep
  inEp : EpId
  outEp : EpId
  in_dir : epDir inAddr = .usbIn
  out_dir : epDir outAddr = .usbOut
  in_number : epNumber inAddr ≠ 0
  out_number : epNumber outAddr ≠ 0
  in_mapped : described.dev.epMap (epNumber inAddr) .usbIn = some inEp
  out_mapped : described.dev.epMap (epNumber outAddr) .usbOut = some outEp
  ne : inEp ≠ outEp

namespace DiskDevice

variable {β : Type} (c : DiskDevice β)

/-- What an event does to a pipe. -/
def pipeAct : Event → Option PipeAct
  | .csw tag residue status => some (.write c.inEp (Msc.cswBytes tag residue status))
  | .dataIn bytes => some (.write c.inEp bytes)
  | .stall .usbIn => some (.stall c.inEp)
  | .stall .usbOut => some (.stall c.outEp)
  | _ => none

def device : PipeDevice (MscState × β) where
  described := c.described
  control st _ setup _ _ :=
    let h := st.1.control setup
    (⟨h.accesses, (h.state, st.2), h.rc⟩, [])
  setAlt st _ _ _ := (st, [])
  hasOnOut e := e = c.outEp
  onOut st _ chunk :=
    let one := c.medium.onOut st chunk
    (one.1, one.2.filterMap c.pipeAct)
  stray := c.stray

/-- What a host can find on the pipes of the function. -/
structure Stands (p : Pipes (MscState × β)) (app : MscState × β) (pieces : List (List UInt8))
    (inHalted outHalted : Bool) : Prop where
  app : p.app = app
  inq : (p.queue c.inEp).inq = pieces
  inHalted : (p.queue c.inEp).halted = inHalted
  outHalted : (p.queue c.outEp).halted = outHalted

/-- What is left of a command for the host to read: its data, or a stall, and the status. -/
inductive Awaits (p : Pipes (MscState × β)) (app : MscState × β) (tag : UInt32) (flagIn : Bool)
    (dlen : UInt32) (r : BlockReply) : Prop
  | nothing {residue : UInt32} (hlen : flagIn = true → dlen = 0) (hdata : r.data = [])
    (h : c.Stands p app [Msc.cswBytes (u32le tag) residue r.status] false false)
  | data {residue : UInt32} (hin : flagIn = true) (hsome : r.data ≠ [])
    (hle : r.data.length ≤ dlen.toNat)
    (h : c.Stands p app [r.data, Msc.cswBytes (u32le tag) residue r.status] false false)
  | stall {residue : UInt32} (hin : flagIn = true) (hlen : dlen ≠ 0) (hdata : r.data = [])
    (h : c.Stands p app [Msc.cswBytes (u32le tag) residue r.status] true false)

/-! ### The pipes of the function -/

variable {c} {p : Pipes (MscState × β)} {app app' : MscState × β} {piece : List UInt8}
  {pieces rest : List (List UInt8)}
  {inHalted outHalted : Bool}

namespace Stands

theorem withApp (h : c.Stands p app pieces inHalted outHalted) (app' : MscState × β) :
    c.Stands { p with app := app' } app' pieces inHalted outHalted :=
  ⟨rfl, h.inq, h.inHalted, h.outHalted⟩

/-- Another queue of the IN pipe. -/
theorem setIn (h : c.Stands p app pieces inHalted outHalted) (q : PipeQueue) :
    c.Stands (p.set c.inEp q) app q.inq q.halted outHalted where
  app := h.app
  inq := congrArg PipeQueue.inq (if_pos rfl)
  inHalted := congrArg PipeQueue.halted (if_pos rfl)
  outHalted := (congrArg PipeQueue.halted (if_neg c.ne.symm)).trans h.outHalted

/-- Another queue of the OUT pipe. -/
theorem setOut (h : c.Stands p app pieces inHalted outHalted) (q : PipeQueue) :
    c.Stands (p.set c.outEp q) app pieces inHalted q.halted where
  app := h.app
  inq := (congrArg PipeQueue.inq (if_neg c.ne)).trans h.inq
  inHalted := (congrArg PipeQueue.halted (if_neg c.ne)).trans h.inHalted
  outHalted := congrArg PipeQueue.halted (if_pos rfl)

theorem write (h : c.Stands p app pieces inHalted outHalted) {bytes : List UInt8}
    (hsome : bytes ≠ []) :
    c.Stands (p.act (.write c.inEp bytes)) app (pieces ++ [bytes]) inHalted outHalted := by
  have hset := h.setIn ((p.queue c.inEp).write bytes)
  have hinq : ((p.queue c.inEp).write bytes).inq = pieces ++ [bytes] := by
    rw [PipeQueue.write, if_neg hsome, h.inq]
  rw [hinq] at hset
  exact ⟨hset.app, hset.inq, hset.inHalted.trans h.inHalted, hset.outHalted⟩

theorem stallIn (h : c.Stands p app pieces inHalted outHalted) :
    c.Stands (p.act (.stall c.inEp)) app pieces true outHalted := by
  have hset := h.setIn { p.queue c.inEp with halted := true }
  exact ⟨hset.app, hset.inq.trans h.inq, hset.inHalted, hset.outHalted⟩

theorem stallOut (h : c.Stands p app pieces inHalted outHalted) :
    c.Stands (p.act (.stall c.outEp)) app pieces inHalted true :=
  h.setOut { p.queue c.outEp with halted := true }

theorem clearIn (h : c.Stands p app pieces inHalted outHalted) :
    c.Stands (p.set c.inEp { p.queue c.inEp with halted := false }) app pieces false outHalted := by
  have hset := h.setIn { p.queue c.inEp with halted := false }
  exact ⟨hset.app, hset.inq.trans h.inq, hset.inHalted, hset.outHalted⟩

theorem clearOut (h : c.Stands p app pieces inHalted outHalted) :
    c.Stands (p.set c.outEp { p.queue c.outEp with halted := false }) app pieces inHalted false :=
  h.setOut { p.queue c.outEp with halted := false }

end Stands

/-! ### The wrapper and the data go out -/

theorem acts_append (p : Pipes σ) (as bs : List PipeAct) : p.acts (as ++ bs) = (p.acts as).acts bs :=
  List.foldl_append

/-- What is done to the pipes and the state of the application do not touch. -/
theorem acts_withApp (p : Pipes σ) (app : σ) (as : List PipeAct) :
    { p.acts as with app } = { p with app }.acts as := by
  induction as generalizing p with
  | nil => rfl
  | cons a rest ih =>
    have hone : { p.act a with app } = { p with app }.act a := by
      cases a <;> rfl
    exact (ih (p.act a)).trans (congrArg (·.acts rest) hone)

theorem acts_app (p : Pipes σ) (as : List PipeAct) : (p.acts as).app = p.app := by
  have h := congrArg Pipes.app (acts_withApp p p.app as)
  exact h.symm

theorem route_out (c : DiskDevice β) : c.device.route c.outNumber .usbOut = some c.outEp := by
  have hlt : c.outNumber < 16 := UInt32.lt_iff_toNat_lt.mpr (epNumber_lt c.outAddr)
  rw [PipeDevice.route, if_pos hlt]
  exact c.out_mapped

theorem route_in (c : DiskDevice β) : c.device.route c.inNumber .usbIn = some c.inEp := by
  have hlt : c.inNumber < 16 := UInt32.lt_iff_toNat_lt.mpr (epNumber_lt c.inAddr)
  rw [PipeDevice.route, if_pos hlt]
  exact c.in_mapped

theorem pipeActs_onPipe (c : DiskDevice β) (events : List Event) :
    events.filterMap c.pipeAct = (events.filter Event.onPipe).filterMap c.pipeAct := by
  rw [List.filterMap_filter]
  refine List.filterMap_congr fun ev _ => ?_
  cases ev <;> rfl

theorem outcome_ok (n : Int) (got : List UInt8) : (Outcome.of 0 n got).rc = usbSuccess := rfl

theorem outcome_stall (n : Int) (got : List UInt8) :
    (Outcome.of usbipStatusStall n got).rc ≠ usbSuccess :=
  show clientStatusError usbipStatusStall ≠ usbSuccess by decide

/-- Only a stall of the OUT pipe touches it. -/
theorem acts_outHalted (p : Pipes (MscState × β)) {events : List Event}
    (h : .stall .usbOut ∉ events) :
    ((p.acts (events.filterMap c.pipeAct)).queue c.outEp).halted = (p.queue c.outEp).halted := by
  induction events generalizing p with
  | nil => rfl
  | cons ev rest ih =>
    obtain ⟨hev, hrest⟩ := not_or.mp (mt List.mem_cons.mpr h)
    have hother : ∀ q, ((p.set c.inEp q).queue c.outEp).halted = (p.queue c.outEp).halted := fun q =>
      congrArg PipeQueue.halted (if_neg c.ne.symm)
    cases ev with
    | csw tag residue status => exact (ih _ hrest).trans (hother _)
    | dataIn bytes => exact (ih _ hrest).trans (hother _)
    | stall dir =>
      cases dir with
      | usbIn => exact (ih _ hrest).trans (hother _)
      | usbOut => exact absurd rfl hev
    | stored | read | write => exact ih _ hrest

theorem output_ready (c : DiskDevice β) (t : Pipes (MscState × β) × (Nat → Stack))
    {chunk : List UInt8} (h : chunk.length < 2 ^ 31) :
    readyPipes c.device t (.output c.outNumber 0 chunk h) := by
  have hnumber : c.outNumber.toNat ≠ 0 := c.out_number
  exact fun hzero => hnumber (congrArg UInt32.toNat hzero)

theorem serve_output (stack : Stack) (hopen : (p.queue c.outEp).halted = false)
    {chunk : List UInt8} (h : chunk.length < 2 ^ 31) :
    c.device.serve stack p (.output c.outNumber 0 chunk h) =
      ({ p with app := (c.medium.onOut p.app chunk).1 }.acts
        ((c.medium.onOut p.app chunk).2.filterMap c.pipeAct), .of 0 chunk.length []) := by
  have hout : c.device.hasOnOut c.outEp = true := decide_eq_true rfl
  rw [PipeDevice.serve, PipeDevice.atPipe, route_out]
  simp only [hopen, Bool.false_eq_true, if_false, PipeDevice.take, hout, if_true]
  rfl

/-- A chunk goes out on a pipe that is not stalled. -/
theorem send_cons (hopen : (p.queue c.outEp).halted = false) {chunk : List UInt8}
    (hlen : chunk.length < 2 ^ 31) {rest : List (List UInt8)} {frames : Nat → Stack}
    {post : Pipes (MscState × β) × (Nat → Stack) → Unit → Prop}
    (h : Calls.Leads (servePipes c.device) (readyPipes c.device)
      ({ p with app := (c.medium.onOut p.app chunk).1 }.acts
        ((c.medium.onOut p.app chunk).2.filterMap c.pipeAct), fun i => frames (i + 1))
      (c.send rest) post) :
    Calls.Leads (servePipes c.device) (readyPipes c.device) (p, frames) (c.send (chunk :: rest))
      post := by
  rw [BotAddrs.send, dif_pos hlen]
  refine .call (output_ready c _ hlen) ?_
  rw [servePipes, serve_output (frames 0) hopen hlen]
  dsimp only
  rw [if_pos (outcome_ok _ _)]
  exact h

/-- The data goes out chunk by chunk while the pipe is not stalled. -/
theorem send_chunks {chunks : List (List UInt8)} (hsmall : ∀ chunk ∈ chunks, chunk.length < 2 ^ 31)
    (hopen : (p.queue c.outEp).halted = false)
    (hstall : .stall .usbOut ∉ (c.medium.onOuts p.app chunks).2) (frames : Nat → Stack) :
    Calls.Leads (servePipes c.device) (readyPipes c.device) (p, frames) (c.send chunks) fun t _ =>
      t.1 = { p with app := (c.medium.onOuts p.app chunks).1 }.acts
        ((c.medium.onOuts p.app chunks).2.filterMap c.pipeAct) := by
  induction chunks generalizing p frames with
  | nil => exact .done rfl
  | cons chunk rest ih =>
    rw [Medium.onOuts] at hstall ⊢
    obtain ⟨hone, hmore⟩ := not_or.mp (mt List.mem_append.mpr hstall)
    have hsame : ({ p with app := (c.medium.onOut p.app chunk).1 }.acts
        ((c.medium.onOut p.app chunk).2.filterMap c.pipeAct)).app = (c.medium.onOut p.app chunk).1 :=
      acts_app _ _
    have hrest := ih (p := { p with app := (c.medium.onOut p.app chunk).1 }.acts
      ((c.medium.onOut p.app chunk).2.filterMap c.pipeAct))
      (fun chunk' h => hsmall chunk' (List.mem_cons_of_mem _ h))
      ((acts_outHalted { p with app := (c.medium.onOut p.app chunk).1 } hone).trans hopen)
      (by rw [hsame]; exact hmore) fun i => frames (i + 1)
    refine send_cons hopen (hsmall chunk List.mem_cons_self) (hrest.mono fun t _ ht => ?_)
    rw [ht, hsame, acts_withApp, List.filterMap_append, acts_append]

/-- A pipe that is stalled is cleared, and the rest of the data is kept. -/
theorem send_stalled (h : c.Stands p app pieces inHalted true) {chunk : List UInt8}
    (hlen : chunk.length < 2 ^ 31) (rest : List (List UInt8)) (frames : Nat → Stack) :
    Calls.Leads (servePipes c.device) (readyPipes c.device) (p, frames) (c.send (chunk :: rest))
      fun t _ => c.Stands t.1 app pieces inHalted false := by
  have hserve : c.device.serve (frames 0) p (.output c.outNumber 0 chunk hlen) =
      (p, .of usbipStatusStall 0 []) := by
    rw [PipeDevice.serve, PipeDevice.atPipe, route_out]
    exact if_pos h.outHalted
  have haddr : c.device.epByAddr c.outAddr = some c.outEp := by
    rw [PipeDevice.epByAddr, c.out_dir]
    exact c.out_mapped
  have hclear := serve_clearHalt c.device (frames 1) p haddr
  rw [BotAddrs.send, dif_pos hlen]
  refine .call (output_ready c _ hlen) ?_
  rw [servePipes, hserve]
  dsimp only
  rw [if_neg (outcome_stall _ _)]
  refine .call (clearHalt_ready c.device _ _ _) (.done ?_)
  show c.Stands (c.device.serve (frames 1) p (.control (clearHalt c.outAddr))).1 _ _ _ _
  rw [hclear]
  exact h.clearOut

theorem cswBytes_ne_nil (tag : List UInt8) (residue : UInt32) (status : UInt8) :
    Msc.cswBytes tag residue status ≠ [] := by
  simp [Msc.cswBytes]

/-- What the events of a command leave on the pipes. -/
theorem awaits_acts (h : c.Stands p app [] false false) {events : List Event} {tag : UInt32}
    {flagIn : Bool} {dlen : UInt32} {r : BlockReply}
    (hanswers : Msc.Answers events (u32le tag) flagIn dlen r) :
    (.stall .usbOut ∉ events → c.Awaits (p.acts (events.filterMap c.pipeAct)) app tag flagIn dlen r) ∧
      (.stall .usbOut ∈ events → flagIn = false ∧ r.data = [] ∧ ∃ residue,
        c.Stands (p.acts (events.filterMap c.pipeAct)) app
          [Msc.cswBytes (u32le tag) residue r.status] false true) := by
  obtain ⟨status, data⟩ := r
  obtain ⟨lead, residue, hlead, horder⟩ := hanswers
  have hmem : .stall .usbOut ∈ events ↔ .stall .usbOut ∈ lead ++ [.csw (u32le tag) residue status] := by
    rw [← horder, List.mem_filter]
    exact (and_iff_left rfl).symm
  have hcsw := cswBytes_ne_nil (u32le tag) residue status
  rw [hmem, pipeActs_onPipe, horder]
  cases hlead with
  | nothing hlen =>
    refine ⟨fun _ => .nothing hlen rfl (h.write hcsw), fun hstall => ?_⟩
    simp at hstall
  | data hin hsome hle =>
    refine ⟨fun _ => .data hin hsome hle ((h.write hsome).write hcsw), fun hstall => ?_⟩
    simp at hstall
  | stall hlen =>
    cases flagIn with
    | true =>
      refine ⟨fun _ => .stall rfl hlen rfl (h.stallIn.write hcsw), fun hstall => ?_⟩
      simp at hstall
    | false =>
      refine ⟨fun hstall => absurd (by simp) hstall, fun _ => ⟨rfl, rfl, residue, ?_⟩⟩
      exact h.stallOut.write hcsw

/-- The wrapper of a command and its data go out. -/
theorem send_command (h : c.Stands p app [] false false) {start : MscState} {tag : UInt32}
    {q : BlockCall} {served : Disks × BlockReply} {events : List Event}
    (hturned : Msc.Turned c.medium start app tag q app' events served)
    (hsmall : ∀ chunk ∈ q.wrapper tag :: q.chunks, chunk.length < 2 ^ 31)
    (hchunks : q.flagIn = false → q.chunks ≠ []) (frames : Nat → Stack) :
    Calls.Leads (servePipes c.device) (readyPipes c.device) (p, frames)
      (c.send (q.wrapper tag :: q.chunks)) fun t _ =>
        c.Awaits t.1 app' tag q.flagIn q.dlen served.2 := by
  have hturn := hturned.turn
  have happ := h.app
  subst happ
  rw [Medium.turn] at hturn
  by_cases hstall : .stall .usbOut ∈ (c.medium.onOut p.app (q.wrapper tag)).2
  · -- the wrapper has stalled the pipe, and the first chunk finds it so
    rw [if_pos hstall] at hturn
    obtain ⟨rfl, rfl⟩ : _ = app' ∧ _ = events := by simpa using hturn
    obtain ⟨hflag, hdata, residue, hstands⟩ :=
      (awaits_acts (h.withApp _) hturned.answers).2 hstall
    obtain ⟨chunk, rest, hchunk⟩ := List.exists_cons_of_ne_nil (hchunks hflag)
    rw [hchunk] at hsmall ⊢
    have hlen := hsmall chunk (List.mem_cons_of_mem _ List.mem_cons_self)
    refine send_cons h.outHalted (hsmall _ List.mem_cons_self)
      ((send_stalled hstands hlen rest _).mono fun t _ ht => ?_)
    exact .nothing (fun hin => absurd hin (by simp [hflag])) hdata ht
  · rw [if_neg hstall] at hturn
    obtain ⟨happ, hevents⟩ : (c.medium.onOuts p.app (q.wrapper tag :: q.chunks)).1 = app' ∧
        (c.medium.onOuts p.app (q.wrapper tag :: q.chunks)).2 = events := by
      rw [Medium.onOuts]
      simpa using hturn
    have hnone : .stall .usbOut ∉ events := fun hmem => hstall (hturned.stalls hmem)
    have hsend := send_chunks hsmall h.outHalted (by rw [hevents]; exact hnone) frames
    rw [happ, hevents] at hsend
    refine hsend.mono fun t _ ht => ?_
    rw [ht]
    exact (awaits_acts (h.withApp app') hturned.answers).1 hnone

/-! ### The data and the status come in -/

theorem input_ready (h : c.Stands p app pieces inHalted outHalted) (frames : Nat → Stack) {len : Nat}
    (hlen : len < 2 ^ 31) (hpos : 0 < len) (hsome : inHalted = true ∨ pieces ≠ []) :
    readyPipes c.device (p, frames) (.input c.inNumber 0 len hlen) := by
  have hnumber : c.inNumber.toNat ≠ 0 := c.in_number
  refine ⟨fun hzero => hnumber (congrArg UInt32.toNat hzero), hpos, fun e he => ?_⟩
  rw [route_in] at he
  obtain rfl := Option.some.inj he
  rw [h.inHalted, h.inq]
  exact hsome

/-- A piece that is asked for is read. -/
theorem input_piece (h : c.Stands p app (piece :: rest) false outHalted) {len : Nat}
    (hlen : len < 2 ^ 31) (hle : piece.length ≤ len) (stack : Stack) :
    c.Stands (c.device.serve stack p (.input c.inNumber 0 len hlen)).1 app rest false outHalted ∧
      (c.device.serve stack p (.input c.inNumber 0 len hlen)).2 = .of 0 piece.length piece := by
  have hgot : (p.queue c.inEp).got len = piece := by
    rw [PipeQueue.got, h.inq]
    exact List.take_of_length_le hle
  have hdrop : ((p.queue c.inEp).drop len).inq = rest := by
    rw [PipeQueue.drop, h.inq]
    exact if_pos hle
  have hserve : c.device.serve stack p (.input c.inNumber 0 len hlen) =
      (p.set c.inEp ((p.queue c.inEp).drop len), .of 0 piece.length piece) := by
    rw [PipeDevice.serve, PipeDevice.atPipe, route_in]
    simp only [h.inHalted, Bool.false_eq_true, if_false, hgot]
  rw [hserve]
  have hset := h.setIn ((p.queue c.inEp).drop len)
  rw [hdrop] at hset
  exact ⟨⟨hset.app, hset.inq, hset.inHalted.trans h.inHalted, hset.outHalted⟩, rfl⟩

/-- The data of a command is read, and the status is left. -/
theorem fetch_command {tag : UInt32} {flagIn : Bool} {dlen : UInt32} {r : BlockReply}
    (h : c.Awaits p app tag flagIn dlen r) (hsmall : dlen.toNat < 2 ^ 31) (frames : Nat → Stack) :
    Calls.Leads (servePipes c.device) (readyPipes c.device) (p, frames)
      (c.fetch (if flagIn then dlen.toNat else 0)) fun t data => data = r.data ∧ ∃ residue,
        c.Stands t.1 app [Msc.cswBytes (u32le tag) residue r.status] false false := by
  cases h with
  | nothing hlen hdata h =>
    have hzero : (if flagIn then dlen.toNat else 0) = 0 := by
      split
      · rw [hlen ‹_›]
        rfl
      · rfl
    rw [hzero, BotAddrs.fetch, dif_neg (by simp)]
    exact .done ⟨hdata.symm, _, h⟩
  | data hin hsome hle h =>
    have hpos : 0 < dlen.toNat := (List.length_pos_iff.mpr hsome).trans_le hle
    rw [if_pos hin, BotAddrs.fetch, dif_pos ⟨hpos, hsmall⟩]
    refine .call (input_ready h frames hsmall hpos (.inr (List.cons_ne_nil _ _))) ?_
    obtain ⟨hstands, hgot⟩ := input_piece h hsmall hle (frames 0)
    rw [servePipes, hgot]
    exact .done ⟨rfl, _, hstands⟩
  | @stall residue hin hlen hdata h =>
    have hpos : 0 < dlen.toNat := Nat.pos_of_ne_zero fun hzero => hlen (UInt32.toNat_inj.mp hzero)
    have hserve : c.device.serve (frames 0) p (.input c.inNumber 0 dlen.toNat hsmall) =
        (p, .of usbipStatusStall 0 []) := by
      rw [PipeDevice.serve, PipeDevice.atPipe, route_in]
      exact if_pos h.inHalted
    have haddr : c.device.epByAddr c.inAddr = some c.inEp := by
      rw [PipeDevice.epByAddr, c.in_dir]
      exact c.in_mapped
    have hclear := serve_clearHalt c.device (frames 1) p haddr
    rw [if_pos hin, BotAddrs.fetch, dif_pos ⟨hpos, hsmall⟩]
    refine .call (input_ready h frames hsmall hpos (.inl rfl)) ?_
    rw [servePipes, hserve]
    dsimp only
    rw [if_neg (outcome_stall _ _)]
    refine .call (clearHalt_ready c.device _ _ _) (.done ⟨hdata.symm, residue, ?_⟩)
    show c.Stands (c.device.serve (frames 1) p (.control (clearHalt c.inAddr))).1 _ _ _ _
    rw [hclear]
    exact h.clearIn

theorem status_cswBytes (tag residue : UInt32) (st : UInt8) :
    BotAddrs.status tag (Msc.cswBytes (u32le tag) residue st) = some st :=
  if_pos ⟨rfl, rfl, rfl⟩

/-- The commands that the driver makes: those of a host that keeps to the transport, for less than 2 GiB
of data. -/
def Drivable (m : Medium β) (start : MscState) (q : BlockCall) : Prop :=
  q.Proper m start ∧ q.dlen.toNat < 2 ^ 31

/-- The media, for a driver that may fail. -/
def serveDisk (m : Medium β) (start : MscState) (d : Disks) (q : BlockCall) :
    Disks × Option BlockReply :=
  ((Msc.serveBlocks m start d q).1, some (Msc.serveBlocks m start d q).2)

/-- Nothing is on the pipes, and the media hold the bytes. -/
def Rests (c : DiskDevice β) (start : MscState) (p : Pipes (MscState × β)) (d : Disks) : Prop :=
  ∃ app, c.Stands p app [] false false ∧ Msc.Related c.medium start app d

/-- A driver can send what a command has to send. -/
theorem Drivable.lengths {m : Medium β} {start : MscState} {q : BlockCall} (h : Drivable m start q)
    (tag : UInt32) : ∀ chunk ∈ q.wrapper tag :: q.chunks, chunk.length < 2 ^ 31 := by
  intro chunk hmem
  rcases List.mem_cons.mp hmem with rfl | hmem
  · have hlen : (q.wrapper tag).length = 31 := by
      simp [BlockCall.wrapper, Msc.cbwSig, u32le]
    rw [hlen]
    decide
  · cases q with
    | testUnitReady | requestSense | readCapacity | read => exact absurd hmem List.not_mem_nil
    | write wide lun lba count chunks =>
      obtain ⟨⟨-, -, -, hlt, -⟩, hsmall⟩ := h
      have hdlen : (UInt32.ofNat chunks.flatten.length).toNat = chunks.flatten.length :=
        UInt32.toNat_ofNat_of_lt' hlt
      have hsmall : chunks.flatten.length < 2 ^ 31 := hdlen ▸ hsmall
      exact Nat.lt_of_le_of_lt (List.sublist_flatten_of_mem hmem).length_le hsmall

/-- A command that announces OUT data has some. -/
theorem Drivable.chunks_ne {m : Medium β} {start : MscState} {q : BlockCall}
    (h : Drivable m start q) (hout : q.flagIn = false) : q.chunks ≠ [] := by
  cases q with
  | testUnitReady | requestSense | readCapacity | read => cases hout
  | write wide lun lba count chunks =>
    obtain ⟨⟨-, -, hpos, -⟩, -⟩ := h
    rintro hnil
    have hnil : chunks = [] := hnil
    rw [hnil] at hpos
    exact Nat.lt_irrefl 0 hpos

/-- The driver carries a command out. -/
theorem command_leads (hm : c.medium.Lawful) {start : MscState} {d : Disks}
    (h : Rests c start p d) {q : BlockCall} (hq : Drivable c.medium start q) (tag : UInt32)
    (frames : Nat → Stack) :
    Calls.Leads (servePipes c.device) (readyPipes c.device) (p, frames) (c.command tag q) fun t got =>
      Rests c start t.1 (serveDisk c.medium start d q).1 ∧
        got.2 = (serveDisk c.medium start d q).2 := by
  obtain ⟨app, hstands, hrelated⟩ := h
  obtain ⟨app', events, hturned⟩ := Msc.turn_call hm hrelated hq.1 (tag + 1)
  refine (send_command hstands hturned (hq.lengths _) hq.chunks_ne frames).bind fun t _ hawaits => ?_
  refine (fetch_command hawaits hq.2 t.2).bind fun t data ⟨hdata, residue, hcsw⟩ => ?_
  have hlen : (Msc.cswBytes (u32le (tag + 1)) residue
      (Msc.serveBlocks c.medium start d q).2.status).length ≤ 13 := Nat.le_refl 13
  refine .call (input_ready hcsw t.2 _ (by decide) (.inr (List.cons_ne_nil _ _))) ?_
  obtain ⟨hrests, hgot⟩ := input_piece hcsw (by decide) hlen (t.2 0)
  rw [servePipes, hgot]
  refine .done ⟨⟨app', hrests, hturned.related⟩, ?_⟩
  show (BotAddrs.status (tag + 1) (Msc.cswBytes (u32le (tag + 1)) residue _)).map _ = _
  rw [status_cswBytes, hdata]
  rfl

end DiskDevice

/-- A program of a host that reads and writes blocks of a disk over the wire gets what it would get
from the media themselves, which hold the same bytes in the end.  The driver leaves nothing on the
pipes, and the host nothing on the wire. -/
theorem disk_run {β : Type} {c : DiskDevice β} (hm : c.medium.Lawful)
    {s : Piped (MscState × β)} {before : Pipes (MscState × β)} (hs : c.device.Mirrors s before)
    {start : MscState} {d : Disks} (hrests : DiskDevice.Rests c start before d) {α : Type}
    {program : Calls BlockCall (Option BlockReply) α}
    (hprogram : program.Meets (DiskDevice.serveDisk c.medium start)
      (fun _ q => DiskDevice.Drivable c.medium start q) d)
    (devid seq tag : UInt32) (frames : Nat → Stack) : ∃ s' after frames' seq' tag',
      (pipeLink c.device devid).run ⟨(s, frames), seq, [], []⟩ (program.expand c.command tag) =
        some (⟨(s', frames'), seq', [], []⟩,
          (tag', (program.run (DiskDevice.serveDisk c.medium start) d).2)) ∧
      c.device.Mirrors s' after ∧
      DiskDevice.Rests c start after (program.run (DiskDevice.serveDisk c.medium start) d).1 := by
  have hleads := Calls.Leads.expand c.command (fun t d => DiskDevice.Rests c start t.1 d)
    (fun tag t d q h hq => DiskDevice.command_leads hm h hq tag t.2) (s := (before, frames)) hrests
    hprogram tag
  obtain ⟨⟨s', frames'⟩, ⟨after, _⟩, seq', ⟨tag', _⟩, ⟨hmirrors, -⟩, ⟨hafter, rfl⟩, hrun⟩ :=
    (pipeLink_carries c.device devid).leads (s := (s, frames)) ⟨hs, rfl⟩ hleads seq
  exact ⟨s', after, frames', seq', tag', hrun, hmirrors, hafter⟩

/-- A disk in memory behind endpoints 0x81 and 0x02. -/
def ramDisk : DiskDevice (Nat → Nat → UInt8) where
  inAddr := 0x81
  outAddr := 0x02
  medium := Msc.ram
  described :=
    { withFallback with
      dev := { withFallback.dev with
        epMap := fun n dir =>
          if n = 1 ∧ dir = .usbIn then some 0 else if n = 2 ∧ dir = .usbOut then some 1 else none } }
  stray _ _ := none
  inEp := 0
  outEp := 1
  in_dir := by decide
  out_dir := by decide
  in_number := by decide
  out_number := by decide
  in_mapped := rfl
  out_mapped := rfl
  ne := by decide

/-- A program that writes a block, and reads it back with the next one. -/
def saveLoad : Calls BlockCall (Option BlockReply) (List UInt8) :=
  .call (.write false 0 1 1 [[1, 2, 3], [4]]) fun _ =>
    .call (.read true 0 1 2 8) fun got => .done (got.elim [] BlockReply.data)

theorem disk_run_saveLoad : ∃ s frames seq tag,
    (pipeLink ramDisk.device 0x10001).run
      ⟨(⟨(Msc.disk, fun _ _ => 0), fun e => .new (e = 1), 0⟩, fun _ => ⟨.zero, fun _ => 0⟩), 0, [], []⟩
      (saveLoad.expand ramDisk.command 0) =
        some (⟨(s, frames), seq, [], []⟩, (tag, [1, 2, 3, 4, 0, 0, 0, 0])) := by
  have hs : ramDisk.device.Mirrors ⟨(Msc.disk, fun _ _ => 0), fun e => .new (e = 1), 0⟩
      ⟨(Msc.disk, fun _ _ => 0), 0, fun _ => .empty⟩ :=
    ⟨rfl, rfl, fun _ => .new _, fun _ => rfl⟩
  have hrests : DiskDevice.Rests ramDisk Msc.disk ⟨(Msc.disk, fun _ _ => 0), 0, fun _ => .empty⟩ _ :=
    ⟨_, ⟨rfl, rfl, rfl, rfl⟩, Msc.related_self Msc.ram rfl fun _ _ => 0⟩
  have hwrite : DiskDevice.Drivable Msc.ram Msc.disk (.write false 0 1 1 [[1, 2, 3], [4]]) :=
    ⟨⟨by decide, by decide, by decide, by decide, fun _ => rfl⟩, by decide⟩
  have hread : DiskDevice.Drivable Msc.ram Msc.disk (.read true 0 1 2 8) :=
    ⟨⟨by decide, by decide, fun _ => ⟨rfl, by decide⟩⟩, by decide⟩
  have hprogram : ∀ d, saveLoad.Meets (DiskDevice.serveDisk Msc.ram Msc.disk)
      (fun _ q => DiskDevice.Drivable Msc.ram Msc.disk q) d := fun _ => ⟨hwrite, hread, trivial⟩
  obtain ⟨s, _, frames, seq, tag, hrun, -⟩ := disk_run (c := ramDisk) Msc.ram_lawful hs hrests
    (hprogram _) 0x10001 0 0 fun _ => ⟨.zero, fun _ => 0⟩
  exact ⟨s, frames, seq, tag, hrun⟩

end Usbip.Host
