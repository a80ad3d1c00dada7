import Usbip.Endpoint.Stream

/-! A call on an endpoint that runs to its end while no other call is in progress: the steps of
`EpState.runCall` one after the other. -/

namespace Usbip

open Lib

namespace EpState

/-- At most `fuel` steps of a call. -/
def runSteps : Nat → EpState → Call → EpState × Call × List EpEvent
  | 0, ep, call => (ep, call, [])
  | fuel + 1, ep, call =>
    match ep.runCall call with
    | none => (ep, call, [])
    | some (ep', call', events) =>
      let last := runSteps fuel ep' call'
      (last.1, last.2.1, events ++ last.2.2)

/-- The steps that a call has before it. -/
def stepsLeft (ep : EpState) : Call → Nat
  | .write _ _ none => 2 * ep.pend.urbs.length + 1
  | .write _ _ (some _) => 2 * ep.pend.urbs.length + 2
  | .stall rest => rest.length + 1
  | .checked _ => 2
  | .halted _ | .serving .. | .delivered _ => 1
  | .done => 0

/-- The whole call. -/
def runAlone (ep : EpState) (call : Call) : EpState × List EpEvent :=
  let last := runSteps (ep.stepsLeft call) ep call
  (last.1, last.2.2)

/-- `usbip_device_dispatch`. -/
def dispatchAlone (ep : EpState) (urb : Urb) : EpState × List EpEvent :=
  { ep with accepted := ep.accepted + 1 }.runAlone (ep.entered urb)

/-- `usbip_device_write`. -/
def writeAlone (ep : EpState) (buf : List UInt8) : EpState × List EpEvent :=
  ep.runAlone (.write ⟨buf, 0⟩ buf.length none)

/-- `usbip_ep_stall`. -/
def stallAlone (ep : EpState) : EpState × List EpEvent :=
  { ep with pend := ep.pend.takeAll.2, halted := true }.runAlone (.stall ep.pend.takeAll.1)

end EpState

variable {ep ep' next : EpState} {call call' : Call} {events : List EpEvent}

theorem CallStep.stepsLeft_lt (h : CallStep ep call ep' call' events) :
    ep'.stepsLeft call' < ep.stepsLeft call := by
  cases h with
  | feed _ popped =>
    obtain ⟨hurbs, -⟩ := PendQueue.pop_some popped
    simp only [EpState.stepsLeft, hurbs, List.length_cons]
    omega
  | _ => simp [EpState.stepsLeft]

theorem EpState.runCall_eq_none (h : ep.runCall call = none) : call = .done := by
  match call, h with
  | .done, _ => rfl
  | .write _ _ none, h => cases h
  | .write _ _ (some _), h => cases h
  | .stall [], h => cases h
  | .stall (_ :: _), h => cases h
  | .halted _, h => cases h
  | .serving .., h => cases h
  | .delivered _, h => cases h
  | .checked urb, h =>
    simp only [runCall] at h
    split at h <;> cases h

/-- The steps are enough for the call to end. -/
theorem runSteps_done {fuel : Nat} (h : ep.stepsLeft call ≤ fuel) :
    (EpState.runSteps fuel ep call).2.1 = .done := by
  induction fuel generalizing ep call with
  | zero =>
    cases call with
    | write _ _ held => cases held <;> simp [EpState.stepsLeft] at h
    | done => rfl
    | _ => simp [EpState.stepsLeft] at h
  | succ fuel ih =>
    rw [EpState.runSteps]
    split
    · rename_i hnone
      exact EpState.runCall_eq_none hnone
    · rename_i hsome
      have := (EpState.runCall_step hsome).stepsLeft_lt
      exact ih (by omega)

/-- What every step of a call keeps, the whole call keeps. -/
theorem runSteps_keeps {P : EpState → Call → Prop}
    (keep : ∀ {ep ep' call call' events}, CallStep ep call ep' call' events → P ep call →
      P ep' call') (fuel : Nat) (h : P ep call) :
    P (EpState.runSteps fuel ep call).1 (EpState.runSteps fuel ep call).2.1 := by
  induction fuel generalizing ep call with
  | zero => exact h
  | succ fuel ih =>
    rw [EpState.runSteps]
    split
    · exact h
    · rename_i hsome
      exact ih (keep (EpState.runCall_step hsome) h)

theorem runAlone_keeps {P : EpState → Call → Prop}
    (keep : ∀ {ep ep' call call' events}, CallStep ep call ep' call' events → P ep call →
      P ep' call') (h : P ep call) : P (ep.runAlone call).1 .done := by
  have hlast := runSteps_keeps (P := P) keep (ep.stepsLeft call) h
  rwa [runSteps_done (Nat.le_refl _)] at hlast

theorem runAlone_onOut (ep : EpState) (call : Call) : (ep.runAlone call).1.onOut = ep.onOut :=
  runAlone_keeps (P := fun next _ => next.onOut = ep.onOut)
    (fun h hp => h.frame.2.2.2.trans hp) rfl

/-! ### Writing -/

/-- Some bytes of the buffer are still to be read. -/
def Dbuf.Waiting (d : Dbuf) : Prop := d.off < d.len ∧ 0 < d.len

/-- A write adds at most one buffer to the queue, which holds some bytes. -/
theorem writeAlone_inq (ep : EpState) (buf : List UInt8) :
    (ep.writeAlone buf).1.inq = ep.inq ∨
      ∃ d, (ep.writeAlone buf).1.inq = ep.inq ++ [d] ∧ d.Waiting := by
  let P (next : EpState) : Call → Prop
    | .write src remaining held => next.inq = ep.inq ∧ src.off + remaining = src.block.length ∧
        (held.isSome ∨ 0 < remaining → 0 < src.block.length)
    | .done => next.inq = ep.inq ∨ ∃ d, next.inq = ep.inq ++ [d] ∧ d.Waiting
    | _ => False
  have hstart : P ep (.write ⟨buf, 0⟩ buf.length none) := ⟨rfl, by simp, by simp⟩
  refine runAlone_keeps (P := P) ?_ hstart
  intro ep₁ ep₂ call call' events hstep hp
  cases hstep with
  | sendChunk src remaining urb chunk =>
    obtain ⟨hinq, hsum, hpos⟩ := hp
    refine ⟨hinq, ?_, fun _ => hpos (.inl rfl)⟩
    rw [Slice.advance_off, Slice.advance_block]
    omega
  | feed some_left popped =>
    obtain ⟨hinq, hsum, hpos⟩ := hp
    exact ⟨hinq, hsum, fun _ => hpos (.inr some_left)⟩
  | @queueRest src remaining some_left none_parked =>
    obtain ⟨hinq, hsum, hpos⟩ := hp
    have hlen := hpos (.inr some_left)
    have hbytes : 0 < (src.bytes remaining).length := by
      rw [Slice.bytes, List.length_take, List.length_drop]
      omega
    exact .inr ⟨⟨src.bytes remaining, 0⟩, by rw [hinq], Int.ofNat_lt.mpr hbytes,
      Int.ofNat_lt.mpr hbytes⟩
  | finish none_left => exact .inl hp.1
  | _ => exact hp.elim

/-! ### Stalling -/

theorem stallAlone_inq (ep : EpState) : ep.stallAlone.1.inq = ep.inq := by
  let P (next : EpState) : Call → Prop
    | .stall _ | .done => next.inq = ep.inq
    | _ => False
  have hstart : P { ep with pend := ep.pend.takeAll.2, halted := true }
      (.stall ep.pend.takeAll.1) := rfl
  refine runAlone_keeps (P := P) ?_ hstart
  intro ep₁ ep₂ call call' events hstep hp
  cases hstep with
  | sendStall urb rest => exact hp
  | stallDone => exact hp
  | _ => exact hp.elim

/-! ### Dispatching -/

section
variable (urb : Urb)

/-- An URB that the endpoint takes, with the tag it gets. -/
def EpState.submitted (ep : EpState) (urb : Urb) : Urb := { urb with tag := ep.accepted }

theorem dispatchAlone_halted (h : ep.halted = true) :
    ep.dispatchAlone urb = ({ ep with accepted := ep.accepted + 1 },
      [.ret (ep.submitted urb) usbipStatusStall .null 0]) := by
  rw [EpState.dispatchAlone, EpState.entered, if_pos h]
  rfl

theorem dispatchAlone_park (h : ep.halted = false) (hdir : urb.direction = .usbIn)
    (hinq : ep.inq = []) :
    ep.dispatchAlone urb = ({ ep with
      accepted := ep.accepted + 1, pend := ep.pend.park (ep.submitted urb) }, []) := by
  have hent : ep.entered urb = .checked (ep.submitted urb) := if_neg (by simp [h])
  rw [EpState.dispatchAlone, hent]
  simp [EpState.runAlone, EpState.stepsLeft, EpState.runSteps, EpState.runCall,
    EpState.submitted, hdir, EpState.dispatchIn, hinq]

theorem dispatchAlone_serve (h : ep.halted = false) (hdir : urb.direction = .usbIn) {d : Dbuf}
    {rest : List Dbuf} (hinq : ep.inq = d :: rest) :
    let chunk := capLength urb.length (d.len - d.off)
    ep.dispatchAlone urb = ({ ep with
      accepted := ep.accepted + 1
      inq := if d.len ≤ d.off + chunk then rest else { d with off := d.off + chunk } :: rest },
      [.ret (ep.submitted urb) 0 ⟨d.data, d.off⟩ chunk]) := by
  have hent : ep.entered urb = .checked (ep.submitted urb) := if_neg (by simp [h])
  rw [EpState.dispatchAlone, hent]
  simp [EpState.runAlone, EpState.stepsLeft, EpState.runSteps, EpState.runCall,
    EpState.submitted, hdir, EpState.dispatchIn, hinq]

theorem dispatchAlone_out (h : ep.halted = false) (hdir : urb.direction = .usbOut)
    (hout : ep.onOut = true) :
    ep.dispatchAlone urb = ({ ep with accepted := ep.accepted + 1 },
      [.onOut urb.data, .ret (ep.submitted urb) 0 .null urb.data.length]) := by
  have hent : ep.entered urb = .checked (ep.submitted urb) := if_neg (by simp [h])
  rw [EpState.dispatchAlone, hent]
  simp [EpState.runAlone, EpState.stepsLeft, EpState.runSteps, EpState.runCall,
    EpState.submitted, hdir, EpState.dispatchOut, hout]

end

end Usbip
