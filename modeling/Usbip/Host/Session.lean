import Usbip.Lib.Memory
import Usbip.Lib.Rpc
import Usbip.Wire.Ret
import Usbip.Wire.Serve
import Usbip.Control.Scratch

/-! Control transfers from end to end: a program of the host calls the device through the client,
the wire, and the serve loop. -/

namespace Usbip.Host

open Lib Wire Control

/-- What a turn of the serve loop finds on its stack: the record of the command, and the scratch
buffer of `handle_control`. -/
structure Stack where
  old : Wire.Urb
  scratch : Nat → UInt8

/-- The requests that the core accepts for what they change: the configuration, an alternate setting,
or a halt. -/
def changes : Asked → Bool
  | .setConfiguration _ | .accept => true
  | _ => false

/-- A device as control requests see it, with the states `σ` of the application behind it. -/
structure ControlDevice (σ : Type) where
  described : σ → Described
  call : σ → CtrlSlot → Handler
  /-- the state that a handler leaves, which had the OUT payload -/
  handled : σ → Setup → List UInt8 → σ
  /-- the state after a request that the core accepts -/
  accepted : σ → Setup → σ
  /-- what the memory around `ep_map` reads as -/
  stray : Int → Int → Option Ep

/-- A control transfer: the setup packet, whose `wLength` is the length of the buffer. -/
structure ControlCall where
  setup : Setup
  /-- the OUT payload -/
  buf : List UInt8
  filled : setup.isIn = false → setup.wLength.toNat ≤ buf.length

/-- `USB_SETUP_BYTES`. -/
def setupBytes (setup : Setup) : Vector UInt8 8 :=
  #v[setup.bmRequestType, setup.bRequest, lsb setup.wValue, msb setup.wValue, lsb setup.wIndex,
    msb setup.wIndex, lsb setup.wLength, msb setup.wLength]

namespace ControlCall

variable (q : ControlCall)

def dir : UInt32 := if q.setup.isIn then usbIn else usbOut

/-- The bytes that an OUT transfer carries. -/
def payload : List UInt8 := if q.setup.isIn then [] else q.buf.take q.setup.wLength.toNat

/-- The transfer as the client awaits its reply. -/
def awaited : Awaited where
  dir := q.dir
  ep := 0
  setup := some (setupBytes q.setup)
  len := q.setup.wLength.toNat
  len_lt := Nat.lt_trans q.setup.wLength.toNat_lt (by decide)
  control _ := q.setup.wLength.toNat_lt

end ControlCall

/-- The bytes that an answer sends, where nothing was written those that the scratch buffer had. -/
def answerData (a : Answer) (scratch : Nat → UInt8) : List UInt8 :=
  readout (putAll a.stores scratch) a.sent

/-- The writes of an answer, and the bytes that it sends, are those of the scratch buffer. -/
def InBounds (a : Answer) : Prop := (∀ w ∈ a.stores, w.Inside scratchLen) ∧ a.sent ≤ scratchLen

instance : DecidablePred InBounds := fun _ => inferInstanceAs (Decidable (_ ∧ _))

/-- What the host gets for an answer. -/
def outcomeOf (a : Answer) (setup : Setup) (scratch : Nat → UInt8) : Outcome :=
  .of a.status a.actualLength (if setup.isIn then answerData a scratch else [])

namespace ControlDevice

variable {σ : Type} (dev : ControlDevice σ)

/-- The state that a request leaves. -/
def after (st : σ) (setup : Setup) (data : List UInt8) : σ :=
  match (dev.described st).asked setup with
  | some asked => if changes asked then dev.accepted st setup else st
  | none => dev.handled st setup data

def handle (st : σ) (setup : Setup) (data : List UInt8) : Answer :=
  handleControl (dev.described st) (dev.call st) setup data

/-- A turn of the serve loop on a transfer for endpoint 0.  What it does is not defined where it writes
outside the scratch buffer. -/
def turn (stack : Stack) (st : σ) (s : List UInt8) : Option (σ × List UInt8 × List UInt8) :=
  (readCmd ⟨(dev.described st).dev, dev.stray⟩ stack.old s).2.bind fun got =>
    let urb := got.1
    if urb.command ≠ usbipCmdUnlink ∧ urb.ep = 0 then
      let setup := setupOf urb.setup
      let data := urb.data.getD []
      let a := dev.handle st setup data
      if InBounds a then
        some (dev.after st setup data,
          usbipSendRet urb.seqnum urb.devid urb.direction urb.ep a.status
            (answerData a stack.scratch) a.actualLength, got.2)
      else none
    else none

/-- A request is one that the scratch buffer holds the answer to. -/
def Fits (st : σ) (setup : Setup) : Prop := (dev.described st).Fits setup

/-- The device as the application would be called on the spot, without a host. -/
def serve (stack : Stack) (st : σ) (q : ControlCall) : σ × Outcome :=
  (dev.after st q.setup q.payload,
    outcomeOf (dev.handle st q.setup q.payload) q.setup stack.scratch)

/-- A device whose application keeps no state. -/
def still (d : Described) (call : CtrlSlot → Handler) : ControlDevice Unit where
  described _ := d
  call _ := call
  handled _ _ _ := ()
  accepted _ _ := ()
  stray _ _ := none

end ControlDevice

namespace ControlCall

variable (q : ControlCall)

theorem dir_eq_usbIn : q.dir = usbIn ↔ q.setup.isIn = true := by
  unfold dir
  split
  · exact iff_of_true rfl ‹_›
  · exact iff_of_false (by decide) ‹_›

theorem dir_eq_usbOut : q.dir = usbOut ↔ q.setup.isIn = false := by
  unfold dir
  split
  · rename_i h
    exact iff_of_false (by decide) (by simp [h])
  · rename_i h
    exact iff_of_true rfl (by simpa using h)

theorem int32_wLength : int32 q.setup.wLength.toUInt32 = q.setup.wLength.toNat := by
  have hlt := q.setup.wLength.toNat_lt
  rw [int32_eq, UInt16.toNat_toUInt32, if_pos (by omega)]

/-- The arguments of `usbip_client_submit` for the transfer, on a device that was imported as
`devid`. -/
def args (devid : UInt32) : SubmitArgs where
  devid
  dir := q.dir
  ep := 0
  setup := some (setupBytes q.setup)
  interval := 0
  buf := q.buf
  len := q.setup.wLength.toUInt32
  filled hout := by
    rw [int32_wLength, Int.ofNat_le]
    exact q.filled (q.dir_eq_usbOut.mp hout)

theorem payload_args (devid : UInt32) : (q.args devid).payload = q.payload := by
  have hlen : int32 (q.args devid).len = q.setup.wLength.toNat := q.int32_wLength
  unfold SubmitArgs.payload payload
  simp only [hlen, Int.toNat_natCast, Int.natCast_pos]
  by_cases hin : q.setup.isIn = true
  · rw [if_neg fun h => by simp [q.dir_eq_usbOut.mp h.1] at hin, if_pos hin]
  · have hout : q.dir = usbOut := q.dir_eq_usbOut.mpr (by simpa using hin)
    rw [if_neg hin]
    by_cases hz : 0 < q.setup.wLength.toNat
    · rw [if_pos ⟨hout, hz⟩]
      rfl
    · rw [if_neg fun h => hz h.2, Nat.eq_zero_of_not_pos hz, List.take_zero]

end ControlCall

/-- The connection of a host that has imported the device as `devid`: the client counts its
transfers, and each turn of the serve loop has a stack of its own. -/
def controlLink {σ : Type} (dev : ControlDevice σ) (devid : UInt32) :
    Link (σ × (Nat → Stack)) UInt32 ControlCall Outcome UInt8 UInt8 where
  send seq q := (seq + 1, (q.args devid).bytes (seq + 1))
  turn s bytes := (dev.turn (s.2 0) s.1 bytes).map fun served =>
    ((served.1, fun i => s.2 (i + 1)), served.2)
  recv _ q := q.awaited.recv

section

variable {σ : Type} (dev : ControlDevice σ) (devid : UInt32)

theorem controlLink_send (seq : UInt32) (q : ControlCall) :
    ((controlLink dev devid).send seq q).2 = (q.args devid).bytes (seq + 1) := rfl

theorem controlLink_turn (s : σ × (Nat → Stack)) (bytes : List UInt8) :
    (controlLink dev devid).turn s bytes = (dev.turn (s.2 0) s.1 bytes).map fun served =>
      ((served.1, fun i => s.2 (i + 1)), served.2) := rfl

theorem controlLink_recv (seq : UInt32) (q : ControlCall) :
    (controlLink dev devid).recv seq q = q.awaited.recv := rfl

end

/-- The device called on the spot, with the frames that the turns of a serve loop would have. -/
def serveLocal {σ : Type} (dev : ControlDevice σ) (s : σ × (Nat → Stack)) (q : ControlCall) :
    (σ × (Nat → Stack)) × Outcome :=
  (((dev.serve (s.2 0) s.1 q).1, fun i => s.2 (i + 1)), (dev.serve (s.2 0) s.1 q).2)

/-! ### The request -/

theorem lsb_or_msb (w : UInt16) : (lsb w).toUInt16 ||| (msb w).toUInt16 <<< 8 = w := by
  have hw := w.toNat_lt
  have hlow : (lsb w).toUInt16.toNat = w.toNat % 256 := by simp [lsb]
  have hhigh : ((msb w).toUInt16 <<< 8).toNat = (w.toNat / 256) <<< 8 := by
    simp [msb, UInt16.toNat_shiftLeft, UInt16.toNat_shiftRight, Nat.shiftLeft_eq,
      Nat.shiftRight_eq_div_pow]
    omega
  rw [← UInt16.toNat_inj, UInt16.toNat_or, hlow, hhigh, Nat.or_comm,
    ← Nat.shiftLeft_add_eq_or_of_lt (i := 8) (by omega), Nat.shiftLeft_eq]
  omega

theorem setupOf_setupBytes (setup : Setup) : setupOf (setupBytes setup).toList = setup := by
  have h : setupOf (setupBytes setup).toList = ⟨setup.bmRequestType, setup.bRequest,
    (lsb setup.wValue).toUInt16 ||| (msb setup.wValue).toUInt16 <<< 8,
    (lsb setup.wIndex).toUInt16 ||| (msb setup.wIndex).toUInt16 <<< 8,
    (lsb setup.wLength).toUInt16 ||| (msb setup.wLength).toUInt16 <<< 8⟩ := rfl
  rw [h, lsb_or_msb, lsb_or_msb, lsb_or_msb]

/-- The command reader takes a submission off the stream as it was made. -/
theorem readCmd_args (srv : Served) (old : Wire.Urb) (seq : UInt32) (args : SubmitArgs)
    (rest : List UInt8) : ∃ urb, (readCmd srv old (args.bytes seq ++ rest)).2 = some (urb, rest) ∧
      urb.command = usbipCmdSubmit ∧ urb.seqnum = seq ∧ urb.devid = args.devid ∧
      urb.direction = args.dir ∧ urb.ep = args.ep ∧
      urb.setup = (args.setup.map Vector.toList).getD (List.replicate 8 0) ∧
      urb.data.getD [] = args.payload ∧ urb.length = int32 args.len ∧ urb.numberOfPackets = 0 := by
  obtain ⟨hc, hhdr⟩ : word (args.hdr seq) usbipHdrCommandOff = usbipCmdSubmit ∧ _ :=
    args.readHeader_hdr
  obtain ⟨data, hp, hdata⟩ := readPayload_append
    (.submitted old seq args.devid args.dir args.ep args.len 0 args.interval
      ((args.setup.map Vector.toList).getD (List.replicate 8 0)))
    args.payload rest args.payload_length fun hno => ⟨if_neg hno, rfl, rfl⟩
  have hread : readn usbipHdrLen (args.bytes seq ++ rest) =
      some (args.hdr seq, args.payload ++ rest) := by
    have hlen : (args.hdr seq).length = usbipHdrLen := args.hdr_length
    rw [SubmitArgs.bytes, List.append_assoc, ← hlen, readn_append]
  rw [← hhdr] at hp
  rw [readCmd_submit hread hc hp]
  simp only [hhdr]
  rw [readIso_none (Int.lt_irrefl 0)]
  exact ⟨_, rfl, rfl, rfl, rfl, rfl, rfl, rfl, hdata, rfl, rfl⟩

/-! ### The reply -/

theorem answerData_length (a : Answer) (scratch : Nat → UInt8) :
    (answerData a scratch).length = a.sent := by
  rw [answerData, readout, List.length_map, List.length_range]

/-- The status of an answer is 0 or a stall; it reports what it sends, or the OUT payload. -/
structure Reported (a : Answer) (setup : Setup) (data : List UInt8) : Prop where
  status : a.status = 0 ∨ a.status = usbipStatusStall
  actual_in : setup.isIn = true → a.actualLength = a.sent ∧ a.sent ≤ setup.wLength.toNat
  actual_out : setup.isIn = false → a.actualLength ≤ data.length

theorem reported_ret (setup : Setup) (data : List UInt8) (stores : List Store)
    (told : Option (Nat × Nat)) {status : Int} (hstatus : status = 0 ∨ status = usbipStatusStall)
    (replyLen : Nat) (config : UInt8) :
    Reported (.ret setup data stores told status replyLen config) setup data where
  status := hstatus
  actual_in hin := by
    have hle : (Answer.ret setup data stores told status replyLen config).sent ≤
        min setup.wLength.toNat replyLen := ret_sent_le stores told status replyLen config
    refine ⟨?_, by omega⟩
    simp only [Answer.ret, hin]
    split <;> simp_all
  actual_out hout := by
    simp only [Answer.ret, hout]
    split <;> simp

theorem handleControl_reported (d : Described) (call : CtrlSlot → Handler) (setup : Setup)
    (data : List UInt8) : Reported (handleControl d call setup data) setup data := by
  have hstall : ∀ rc : Int, (if rc < 0 then usbipStatusStall else 0) = 0 ∨
      (if rc < 0 then usbipStatusStall else 0) = usbipStatusStall := by
    intro rc
    split <;> simp
  unfold handleControl
  split
  · split
    · exact reported_ret _ _ _ _ (.inl rfl) _ _
    · exact reported_ret _ _ _ _ (.inr rfl) _ _
  · split
    · exact reported_ret _ _ _ _ (.inr rfl) _ _
    · split
      · exact reported_ret _ _ _ _ (hstall _) _ _
      · exact reported_ret _ _ _ _ (hstall _) _ _

theorem inBounds_ret (setup : Setup) (data : List UInt8) {stores : List Store} (replyLen : Nat)
    (hstores : ∀ w ∈ stores, w.Inside scratchLen)
    (hlen : min setup.wLength.toNat replyLen ≤ scratchLen) (told : Option (Nat × Nat)) (status : Int)
    (config : UInt8) : InBounds (.ret setup data stores told status replyLen config) :=
  ⟨hstores, (ret_sent_le stores told status replyLen config).trans hlen⟩

/-- An answer to a request that fits stays inside the scratch buffer. -/
theorem inBounds_of_fits {d : Described} {setup : Setup} (hfits : d.Fits setup)
    (call : CtrlSlot → Handler) (data : List UInt8) : InBounds (handleControl d call setup data) := by
  have hnone : ∀ w ∈ ([] : List Store), w.Inside scratchLen := fun _ hw => nomatch hw
  have hstall := inBounds_ret setup data 0 hnone (by omega)
  rw [Described.Fits] at hfits
  rw [handleControl]
  cases hasked : d.asked setup with
  | some asked =>
    rw [hasked] at hfits
    dsimp only
    cases hanswer : d.answer asked with
    | none => exact hstall _ _ _
    | some built =>
      have hlen := (answer_len_le_iff d asked).mpr hfits built hanswer
      apply inBounds_ret
      · exact ((answer_exact hanswer).inside_iff _).mpr hlen
      · omega
  | none =>
    rw [hasked] at hfits
    dsimp only
    cases hroute : d.route setup with
    | none => exact hstall _ _ _
    | some slot =>
      dsimp only
      by_cases hin : setup.isIn = true
      · have hle := hfits hin (by rw [hroute]; rfl)
        rw [if_pos hin]
        apply inBounds_ret
        · intro w hw
          exact (((call slot).fill setup setup.wLength).inside w hw).imp_right fun h => h.trans hle
        · omega
      · rw [if_neg hin]
        exact hstall _ _ _

section

variable {σ : Type} (dev : ControlDevice σ) (devid : UInt32)

/-- The reply to a control transfer is received as the outcome on the spot. -/
theorem recv_answer {a : Answer} {q : ControlCall} (h : Reported a q.setup q.payload)
    (seq : UInt32) (scratch : Nat → UInt8) :
    q.awaited.recv (usbipSendRet seq devid q.dir 0 a.status (answerData a scratch) a.actualLength) =
      some (outcomeOf a q.setup scratch, []) := by
  have hlen := q.setup.wLength.toNat_lt
  have hstatus : -2 ^ 31 ≤ a.status ∧ a.status < 2 ^ 31 := by
    rcases h.status with h | h <;> rw [h] <;> decide
  have hpayload : q.payload.length ≤ q.setup.wLength.toNat := by
    unfold ControlCall.payload
    split
    · exact Nat.zero_le _
    · exact List.length_take_le _ _
  have hlt : (a.actualLength : Int) < 2 ^ 31 := by
    cases hin : q.setup.isIn with
    | true =>
      have := h.actual_in hin
      omega
    | false =>
      have := h.actual_out hin
      omega
  have hrecv := q.awaited.recv_usbipSendRet seq devid 0 (answerData a scratch) hstatus
    (Int.natCast_nonneg a.actualLength) hlt (fun hdir => ?_) []
  · rw [List.append_nil] at hrecv
    refine hrecv.trans ?_
    by_cases hin : q.setup.isIn = true
    · have htake : (answerData a scratch).take a.actualLength = answerData a scratch := by
        rw [(h.actual_in hin).1, ← answerData_length a scratch, List.take_length]
      have hdir : q.awaited.dir = usbIn := q.dir_eq_usbIn.mpr hin
      rw [if_pos hdir, Int.toNat_natCast, htake, outcomeOf, if_pos hin]
    · have hdir : q.awaited.dir ≠ usbIn := fun hd => hin (q.dir_eq_usbIn.mp hd)
      rw [if_neg hdir, outcomeOf, if_neg hin]
  · obtain ⟨heq, hle⟩ := h.actual_in (q.dir_eq_usbIn.mp hdir)
    have hdata := answerData_length a scratch
    exact ⟨Int.ofNat_le.mpr (by rw [heq]; exact hle), Int.ofNat_le.mpr (by rw [heq, hdata])⟩

/-- The turn of the serve loop on a request. -/
theorem turn_args {st : σ} {q : ControlCall} (hfits : dev.Fits st q.setup) (stack : Stack)
    (seq : UInt32) : dev.turn stack st ((q.args devid).bytes seq) =
      some (dev.after st q.setup q.payload,
        usbipSendRet seq devid q.dir 0 (dev.handle st q.setup q.payload).status
          (answerData (dev.handle st q.setup q.payload) stack.scratch)
          (dev.handle st q.setup q.payload).actualLength, []) := by
  obtain ⟨urb, hread, hcmd, hseq, hdevid, hdir, hep, hsetup, hdata, -⟩ :=
    readCmd_args ⟨(dev.described st).dev, dev.stray⟩ stack.old seq (q.args devid) []
  rw [List.append_nil] at hread
  have hsetup : setupOf urb.setup = q.setup := by
    rw [hsetup]
    exact setupOf_setupBytes q.setup
  rw [q.payload_args] at hdata
  have hserved : urb.command ≠ usbipCmdUnlink ∧ urb.ep = 0 := ⟨by rw [hcmd]; decide, hep⟩
  have hinside : InBounds (dev.handle st q.setup q.payload) := inBounds_of_fits hfits _ _
  rw [ControlDevice.turn, hread, Option.bind_some]
  dsimp only
  rw [if_pos hserved, hsetup, hdata, if_pos hinside, hseq, hdevid, hdir, hep]
  rfl

/-- A request that fits makes the serve loop call the device, and its reply tells the host what it
said. -/
theorem controlLink_carries :
    (controlLink dev devid).Carries Eq (serveLocal dev) fun s q => dev.Fits s.1 q.setup := by
  rintro s _ seq q rfl hfits
  refine ⟨(serveLocal dev s q).1, usbipSendRet (seq + 1) devid q.dir 0 (dev.handle s.1 q.setup q.payload).status
    (answerData (dev.handle s.1 q.setup q.payload) (s.2 0).scratch)
    (dev.handle s.1 q.setup q.payload).actualLength, ?_, rfl, ?_⟩
  · rw [controlLink_turn, controlLink_send, turn_args _ _ hfits]
    rfl
  · rw [controlLink_recv]
    exact recv_answer devid (handleControl_reported (dev.described s.1) (dev.call s.1) q.setup
      q.payload) (seq + 1) (s.2 0).scratch

/-- A program of the host that makes control transfers over the wire, all of which fit, gets what it
would get from the device on the spot, and leaves the device in the same state and nothing on the
wire. -/
theorem controlLink_run {α : Type} (program : Calls ControlCall Outcome α) {st : σ}
    {frames : Nat → Stack} (hfits : program.Meets (serveLocal dev)
      (fun s q => dev.Fits s.1 q.setup) (st, frames)) (seq : UInt32) :
    ∃ seq', (controlLink dev devid).run ⟨(st, frames), seq, [], []⟩ program =
      some (⟨(program.run (serveLocal dev) (st, frames)).1, seq', [], []⟩,
        (program.run (serveLocal dev) (st, frames)).2) :=
  (controlLink_carries dev devid).run_eq hfits seq

end

/-- A program that reads 16 bytes from the application, and sets the configuration that the first of
them names. -/
def probe : Calls ControlCall Outcome Int :=
  .call ⟨⟨0xc0, 1, 0, 0, 16⟩, [], by decide⟩ fun got =>
    .call ⟨⟨0, 9, (got.data.headD 0).toUInt16, 0, 0⟩, [], fun _ => Nat.le_refl 0⟩ fun set =>
      .done set.rc

theorem meets_probe (s : Unit × (Nat → Stack)) :
    probe.Meets (serveLocal (.still withFallback fun _ => fillAll))
      (fun s q => (ControlDevice.still withFallback fun _ => fillAll).Fits s.1 q.setup) s := by
  have hvendor : withFallback.Fits ⟨0xc0, 1, 0, 0, 16⟩ := by
    rw [Described.Fits, show withFallback.asked ⟨0xc0, 1, 0, 0, 16⟩ = none from rfl]
    intro _ _
    decide
  have hset : ∀ value, withFallback.Fits ⟨0, 9, value, 0, 0⟩ := by
    intro value
    have hasked : withFallback.asked ⟨0, 9, value, 0, 0⟩ = some (.setConfiguration (lsb value)) := by
      have hreq : Setup.reqType ⟨0, 9, value, 0, 0⟩ = 0 := (by decide : (0 : UInt8) >>> 5 &&& 3 = 0)
      rw [Described.asked, if_pos hreq, Described.askedStandard]
      rfl
    rw [Described.Fits, hasked]
    trivial
  exact ⟨hvendor, hset _, trivial⟩

theorem controlLink_run_probe : ∃ seq,
    (controlLink (.still withFallback fun _ => fillAll) 0x10001).run
        ⟨((), fun _ => ⟨.zero, fun _ => 0⟩), 0, [], []⟩ probe =
      some (⟨((), fun _ => ⟨.zero, fun _ => 0⟩), seq, [], []⟩, 0) :=
  controlLink_run (.still withFallback fun _ => fillAll) 0x10001 probe
    (meets_probe ((), fun _ => ⟨.zero, fun _ => 0⟩)) 0

end Usbip.Host
