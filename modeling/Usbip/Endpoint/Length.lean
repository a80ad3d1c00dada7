import Usbip.Endpoint.Halt
import Usbip.Endpoint.Loans

/-! The lengths of the replies to IN URBs.  A URB gets a chunk of a queued buffer at once, or a
chunk of a write after it was parked; both ways cap the chunk by the signed length word of the URB,
unless the word is 0.  What is sent from a queued buffer lies in a dbuf that another dispatch may
free. -/

namespace Usbip

open Lib

/-- A reply gives an IN URB no more than it asked for, out of the block it is taken from. -/
def Urb.Bounds (urb : Urb) (data : Slice) (actual : Int) : Prop :=
  urb.direction = .usbIn →
    0 ≤ actual ∧ actual ≤ max 0 (int32 urb.length) ∧ data.Inside actual

/-- The reply with data that a call is about to send. -/
def Call.due : Call → Option (Urb × Slice × Int)
  | .write src _ (some (urb, chunk)) => some (urb, src, chunk)
  | .serving urb slice chunk => some (urb, slice, chunk)
  | _ => none

namespace EpTrace

/-- The queued buffers have bytes left, and each reply sent or about to be sent keeps its bounds. -/
structure Bounded (t : EpTrace) : Prop where
  queue : ∀ d ∈ t.ep.inq, 0 ≤ d.off ∧ d.off < d.len
  due : ∀ c ∈ t.ep.calls, ∀ urb data actual, c.due = some (urb, data, actual) →
    urb.Bounds data actual
  sent : ∀ urb status data actual, .ret urb status data actual ∈ t.log → urb.Bounds data actual

end EpTrace

/-- An IN URB that there are bytes for, queued or in a write, asks for some. -/
def Call.AsksForSome (ep : EpState) : Call → Prop
  | .checked urb => urb.direction = .usbIn → ep.inq ≠ [] → 0 < int32 urb.length
  | .write _ remaining none => 0 < remaining → ∀ urb pend, ep.pend.pop = some (urb, pend) →
    urb.direction = .usbIn → 0 < int32 urb.length
  | _ => True

namespace EpTrace

def AsksForSome (t : EpTrace) (a : EpAct) : Prop :=
  ∀ i call, a = .run i → t.ep.calls[i]? = some call → call.AsksForSome t.ep

end EpTrace

/-- A chunk of what there is keeps the bounds exactly when the URB asks for some. -/
theorem Urb.bounds_capLength_iff {urb : Urb} {data : Slice} {avail : Int} (hoff : 0 ≤ data.off)
    (hpos : 0 < avail) (hin : data.off + avail ≤ data.block.length) :
    urb.Bounds data (capLength urb.length avail) ↔
      (urb.direction = .usbIn → 0 < int32 urb.length) := by
  have hle := capLength_le urb.length avail
  refine imp_congr_right fun _ => ⟨fun ⟨h0, h1, _⟩ => ?_, fun hlen => ?_⟩
  · by_contra hneg
    have hzero : capLength urb.length avail = 0 := by omega
    unfold capLength at hzero
    split at hzero
    · rename_i hlt
      -- a length word that is read as 0 is 0
      refine hlt.1 (UInt32.toNat_inj.mp ?_)
      have := urb.length.toNat_lt
      rw [int32_eq] at hzero
      rw [UInt32.toNat_zero]
      split at hzero <;> omega
    · omega
  · have h0 := capLength_pos hlen hpos
    have h1 : capLength urb.length avail ≤ int32 urb.length := capLength_le_length hlen
    exact ⟨by omega, by omega, hoff, by omega⟩

namespace EpTrace

variable {t t' : EpTrace} {pre post : List Call} {call call' : Call} {next : EpState}
  {events : List EpEvent}

/-- What a run keeps in which every URB that is served asks for some bytes. -/
structure LengthInv (t : EpTrace) : Prop extends Bounded t where
  range : ∀ c ∈ t.ep.calls, c.InRange
  parked : ∀ urb ∈ t.ep.pend.urbs, urb.direction = .usbIn
  delivered : ∀ urb, .delivered urb ∈ t.ep.calls → urb.direction = .usbOut

theorem length_inv_new (onOut : Bool) : (new onOut).LengthInv where
  queue _ h := nomatch h
  due _ h := nomatch h
  sent _ _ _ _ h := nomatch h
  range _ h := nomatch h
  parked _ h := by simp [new, EpState.new] at h
  delivered _ h := nomatch h

/-- The chunk that a dispatch takes off the queue. -/
theorem LengthInv.serve_iff (h : t.LengthInv) {urb : Urb} {dbuf : Dbuf} {rest : List Dbuf}
    (queued : t.ep.inq = dbuf :: rest) :
    urb.Bounds ⟨dbuf.data, dbuf.off⟩ (capLength urb.length (dbuf.len - dbuf.off)) ↔
      (urb.direction = .usbIn → 0 < int32 urb.length) := by
  obtain ⟨hoff, hlt⟩ := h.queue dbuf (by simp [queued])
  refine Urb.bounds_capLength_iff hoff (by omega) ?_
  simp only [Dbuf.len]
  omega

/-- The chunk that a write sends to a URB that was parked. -/
theorem LengthInv.feed_iff (h : t.LengthInv) {urb : Urb} {src : Slice} {remaining : Int}
    (hmem : .write src remaining none ∈ t.ep.calls) (some_left : 0 < remaining) :
    urb.Bounds src (capLength urb.length remaining) ↔
      (urb.direction = .usbIn → 0 < int32 urb.length) := by
  obtain ⟨hoff, -, hend, -⟩ := h.range _ hmem
  exact Urb.bounds_capLength_iff hoff some_left hend.le

theorem LengthInv.run_queue (h : t.LengthInv) (hmem : call ∈ t.ep.calls)
    (step : CallStep t.ep call next call' events) (hasks : call.AsksForSome t.ep) :
    ∀ d ∈ next.inq, 0 ≤ d.off ∧ d.off < d.len := by
  intro d hd
  cases step with
  | @queueRest src remaining some_left none_parked =>
    obtain ⟨hoff, hrem, hend, -⟩ := h.range _ hmem
    rcases List.mem_append.mp hd with hd | hd
    · exact h.queue d hd
    · obtain rfl := List.mem_singleton.mp hd
      have hlen := Slice.length_bytes hrem ⟨hoff, hend.le⟩
      exact ⟨le_refl _, by rw [Dbuf.len, hlen]; exact some_left⟩
  | @serve urb dbuf rest is_in queued =>
    obtain ⟨hoff, hlt⟩ := h.queue dbuf (by simp [queued])
    have hlen := hasks is_in (by simp [queued])
    have hchunk := capLength_pos hlen (show 0 < dbuf.len - dbuf.off by omega)
    dsimp only at hd
    split at hd
    · exact h.queue d (by simp [queued, hd])
    · rename_i hnot
      rcases List.mem_cons.mp hd with rfl | hd
      · exact ⟨by simp only; omega, by simp only [Dbuf.len] at hnot ⊢; omega⟩
      · exact h.queue d (by simp [queued, hd])
  | _ => exact h.queue d hd

theorem LengthInv.run_due (h : t.LengthInv) (hmem : call ∈ t.ep.calls)
    (step : CallStep t.ep call next call' events) (hasks : call.AsksForSome t.ep) :
    ∀ urb data actual, call'.due = some (urb, data, actual) → urb.Bounds data actual := by
  intro urb data actual hdue
  cases step with
  | feed some_left popped =>
    cases hdue
    exact (h.feed_iff hmem some_left).mpr (hasks some_left _ _ popped)
  | serve is_in queued =>
    cases hdue
    exact (h.serve_iff queued).mpr fun hin => hasks hin (by simp [queued])
  | _ => cases hdue

theorem LengthInv.run_range (h : t.LengthInv) (hmem : call ∈ t.ep.calls)
    (step : CallStep t.ep call next call' events) (hasks : call.AsksForSome t.ep) :
    call'.InRange := by
  have hrange := h.range call hmem
  cases step with
  | sendChunk src remaining urb chunk =>
    obtain ⟨hoff, hrem, hend, hheld⟩ := hrange
    obtain ⟨h0, hle⟩ := hheld urb chunk rfl
    refine ⟨?_, ?_, ?_, fun _ _ hc => by cases hc⟩
    · rw [Slice.advance_off]
      omega
    · omega
    · rw [Slice.advance_off, Slice.advance_block]
      omega
  | @feed src remaining urb pend some_left popped =>
    obtain ⟨hoff, hrem, hend, -⟩ := hrange
    obtain ⟨hurbs, -⟩ := PendQueue.pop_some popped
    have hlen := hasks some_left _ _ popped (h.parked urb (by simp [hurbs]))
    refine ⟨hoff, hrem, hend, fun urb' chunk hc => ?_⟩
    cases hc
    exact ⟨(capLength_pos hlen some_left).le, capLength_le _ _⟩
  | _ => trivial

/-- A reply that a call sends was due, or has no data. -/
theorem LengthInv.run_sent (h : t.LengthInv) (hmem : call ∈ t.ep.calls)
    (step : CallStep t.ep call next call' events) :
    ∀ urb status data actual, .ret urb status data actual ∈ events → urb.Bounds data actual := by
  intro urb status data actual hret
  have hnull : ∀ urb : Urb, urb.Bounds .null 0 := fun _ _ =>
    ⟨le_refl _, le_max_left _ _, le_refl _, le_refl _⟩
  cases step with
  | sendChunk src remaining urb' chunk =>
    cases List.mem_singleton.mp hret
    exact h.due _ hmem _ _ _ rfl
  | sendServed urb' slice chunk =>
    cases List.mem_singleton.mp hret
    exact h.due _ hmem _ _ _ rfl
  | sendStall | sendHalted =>
    cases List.mem_singleton.mp hret
    exact hnull _
  | sendDelivered urb' =>
    cases List.mem_singleton.mp hret
    intro hin
    rw [h.delivered _ hmem] at hin
    cases hin
  | _ => simp at hret

theorem LengthInv.afterRun (h : t.LengthInv) (hcalls : t.ep.calls = pre ++ call :: post)
    (step : CallStep t.ep call next call' events) (hasks : call.AsksForSome t.ep) :
    (t.afterRun pre post call' next events).LengthInv := by
  have hmem : call ∈ t.ep.calls := by simp [hcalls]
  have hothers : ∀ c ∈ pre ++ call' :: post, c ∈ t.ep.calls ∨ c = call' := by
    intro c hc
    rw [hcalls]
    simp at hc ⊢
    tauto
  constructor
  · constructor
    · have hqueue := h.run_queue hmem step hasks
      exact hqueue
    · intro c hc
      rcases hothers c hc with hold | rfl
      · exact h.due c hold
      · exact h.run_due hmem step hasks
    · intro urb status data actual hret
      rcases List.mem_append.mp hret with hold | hnew
      · exact h.sent urb status data actual hold
      · exact h.run_sent hmem step urb status data actual hnew
  · intro c hc
    rcases hothers c hc with hold | rfl
    · exact h.range c hold
    · exact h.run_range hmem step hasks
  · intro urb hurb
    change urb ∈ next.pend.urbs at hurb
    cases step with
    | feed some_left popped =>
      obtain ⟨hurbs, -⟩ := PendQueue.pop_some popped
      exact h.parked urb (by simp [hurbs, hurb])
    | @park urb' is_in none_queued =>
      rw [PendQueue.urbs_park] at hurb
      rcases List.mem_append.mp hurb with hurb | hurb
      · split at hurb
        · cases hurb
        · exact h.parked urb hurb
      · rw [List.mem_singleton.mp hurb]
        exact is_in
    | _ => exact h.parked urb hurb
  · intro urb hurb
    rcases hothers _ hurb with hold | rfl
    · exact h.delivered urb hold
    · cases step with
      | callback is_out => exact is_out
      | enqueueOut is_out => exact is_out

/-- A call begins, and parked URBs may go. -/
theorem LengthInv.enter (h : t.LengthInv) {c : Call} {ep : EpState} {events : List EpEvent}
    (hinq : ep.inq = t.ep.inq) (hcalls : ∀ c' ∈ ep.calls, c' ∈ t.ep.calls ∨ c' = c)
    (hpend : ∀ urb ∈ ep.pend.urbs, urb ∈ t.ep.pend.urbs) (hdue : c.due = none)
    (hrange : c.InRange) (hdelivered : ∀ urb, c ≠ .delivered urb)
    (hret : ∀ urb status data actual, .ret urb status data actual ∉ events) :
    LengthInv ⟨ep, t.log ++ events⟩ := by
  constructor
  · constructor
    · change ∀ d ∈ ep.inq, _
      rw [hinq]
      exact h.queue
    · intro c' hc' urb data actual heq
      rcases hcalls c' hc' with hold | rfl
      · exact h.due c' hold urb data actual heq
      · rw [hdue] at heq
        cases heq
    · intro urb status data actual hmem
      rcases List.mem_append.mp hmem with hold | hnew
      · exact h.sent urb status data actual hold
      · exact absurd hnew (hret urb status data actual)
  · intro c' hc'
    rcases hcalls c' hc' with hold | rfl
    · exact h.range c' hold
    · exact hrange
  · exact fun urb hurb => h.parked urb (hpend urb hurb)
  · intro urb hurb
    rcases hcalls _ hurb with hold | heq
    · exact h.delivered urb hold
    · exact absurd heq.symm (hdelivered urb)

/-- A step that gives bytes to no URB but one that asks for some. -/
theorem LengthInv.step (h : t.LengthInv) {a : EpAct} {ep' : EpState} (hasks : t.AsksForSome a)
    (hs : EpStep t.ep a ep' events) : LengthInv ⟨ep', t.log ++ events⟩ := by
  have hkept (c : Call) : ∀ c' ∈ t.ep.calls, c' ∈ t.ep.calls ∨ c' = c := fun _ => .inl
  have hone (c : Call) : ∀ c' ∈ t.ep.calls ++ [c], c' ∈ t.ep.calls ∨ c' = c := by simp
  cases hs with
  | dispatch urb =>
    rcases t.ep.entered_cases urb with hc | hc <;>
      exact h.enter rfl (hone _) (fun _ => id) (by rw [hc]; rfl) (by rw [hc]; trivial)
        (by rw [hc]; simp) (by simp)
  | write buf =>
    exact h.enter rfl (hone _) (fun _ => id) rfl (by simp [Call.InRange]) (by simp) (by simp)
  | stall =>
    exact h.enter rfl (hone _) (by simp) rfl trivial (by simp) (by simp)
  | clearHalt => exact h.enter rfl (hkept .done) (fun _ => id) rfl trivial (by simp) (by simp)
  | unlink n =>
    refine h.enter rfl (hkept .done) (fun urb hurb => ?_) rfl trivial (by simp) (by simp)
    rw [PendQueue.urbs_unlink] at hurb
    exact List.mem_of_mem_filter hurb
  | @run pre post call call' next _ calls_eq step =>
    exact h.afterRun calls_eq step (hasks _ call rfl (by simp [calls_eq]))

/-- A URB that asks for nothing is given some bytes, or a length below 0. -/
theorem LengthInv.break_ (h : t.LengthInv) {a : EpAct} {ep' : EpState} (hasks : ¬t.AsksForSome a)
    (hs : EpStep t.ep a ep' events) : ¬Bounded ⟨ep', t.log ++ events⟩ := by
  unfold AsksForSome at hasks
  push Not at hasks
  obtain ⟨i, call, rfl, hget, hnot⟩ := hasks
  intro hb
  cases hs with
  | @run pre post call' after next _ calls_eq step =>
    obtain rfl : call' = call := by simpa [calls_eq] using hget
    have hmem : call' ∈ t.ep.calls := by simp [calls_eq]
    have hdue := hb.due after (by simp)
    cases step with
    | feed some_left popped =>
      refine hnot fun _ urb pend hpop => ?_
      cases popped.symm.trans hpop
      exact (h.feed_iff hmem some_left).mp (hdue _ _ _ rfl)
    | serve is_in queued => exact hnot fun _ _ => (h.serve_iff queued).mp (hdue _ _ _ rfl) is_in
    | park is_in none_queued => exact hnot fun _ hne => absurd none_queued hne
    | queueRest some_left none_parked =>
      refine hnot fun _ urb pend hpop => ?_
      rw [PendQueue.pop_none.mpr none_parked] at hpop
      cases hpop
    | finish none_left => exact hnot fun hpos => absurd hpos (by omega)
    | callback is_out => exact hnot fun hin => by rw [is_out] at hin; cases hin
    | enqueueOut is_out => exact hnot fun hin => by rw [is_out] at hin; cases hin
    | _ => exact hnot trivial

end EpTrace

/-- An endpoint with what it has done so far, and the dbufs of its queue. -/
structure LoanTrace where
  trace : EpTrace
  loans : Loans

namespace LoanTrace

def new (onOut : Bool) : LoanTrace := ⟨.new onOut, .new⟩

def step (t : LoanTrace) (a : EpAct) : Option LoanTrace :=
  (t.trace.step a).map fun trace => ⟨trace, t.loans.next t.trace.ep a⟩

/-- The replies keep their bounds and the queued buffers their offsets, and what is to be sent from
a queued buffer is not freed. -/
structure Bounded (t : LoanTrace) : Prop where
  bounds : t.trace.Bounded
  allocated : t.trace.ep.Allocated t.loans

/-- No bytes are given to a URB that asks for none, and no dbuf is freed that another dispatch has a
slice of. -/
def AsksForSome (t : LoanTrace) (a : EpAct) : Prop :=
  t.trace.AsksForSome a ∧ t.trace.ep.FreesNoLoan t.loans a

/-- In every run, the replies keep their bounds, the queued buffers their offsets, and the slices
that are to be sent their dbufs, if and only if no URB with a length of 0 or less meets bytes,
queued or in a write, and no dispatch frees a dbuf that another has a slice of. -/
theorem bounded_iff_asks_for_some {onOut : Bool} {acts : List EpAct} {u : LoanTrace}
    (h : exec step (new onOut) acts = some u) :
    Throughout step Bounded (new onOut) acts ↔ Guarded step AsksForSome (new onOut) acts := by
  refine throughout_iff_guarded (I := fun t => t.trace.LengthInv ∧ t.trace.ep.LoanInv t.loans)
    (fun _ hi => ⟨hi.1.toBounded, hi.2.allocated⟩) (fun s a s' hi hasks hst => ?_)
    (fun s a s' hi hasks hst hkept => ?_)
    ⟨EpTrace.length_inv_new onOut, EpState.loan_inv_new onOut⟩ h
  all_goals
    obtain ⟨⟨ep', log'⟩, htrace, rfl⟩ := Option.map_eq_some_iff.mp hst
    obtain ⟨events, hstep, hlog⟩ := EpTrace.step_some htrace
    have hep := EpState.step_step hstep
    subst hlog
  · exact ⟨hi.1.step hasks.1 hep, hi.2.step hasks.2 hep⟩
  · rcases not_and_or.mp hasks with hlength | hfree
    · exact hi.1.break_ hlength hep hkept.bounds
    · exact hi.2.break_ hfree hep hkept.allocated

/-- One byte is written, and a URB of the given length is served. -/
def servedRun (length : UInt32) : List EpAct :=
  [.write [7], .run 0, .dispatch (.bulkIn 0 1 length), .run 1, .run 1]

theorem bounded_iff_asks_for_some_servedRun :
    Throughout step Bounded (new false) (servedRun 1) ↔
      Guarded step AsksForSome (new false) (servedRun 1) :=
  have ⟨_, h⟩ := Option.isSome_iff_exists.mp (show (exec step (new false) (servedRun 1)).isSome by
    decide)
  bounded_iff_asks_for_some h

/-- Two bytes are written.  The dispatch of one connection takes the first, that of another takes
the second, sends it and frees the dbuf, and then the first is sent. -/
def overtakenRun : List EpAct :=
  [.write [7, 8], .run 0, .dispatch (.bulkIn 0 1 1), .dispatch (.bulkIn 1 2 1), .run 1, .run 2,
    .run 2]

/-- A URB of length 0 gets the byte, and a slice of which the dbuf is freed is still to be sent. -/
theorem bounded_fails :
    (¬∀ (onOut : Bool) (acts : List EpAct) u, exec step (new onOut) acts = some u →
      u.trace.Bounded) ∧
    ¬∀ (onOut : Bool) (acts : List EpAct) u, exec step (new onOut) acts = some u →
      u.trace.ep.Allocated u.loans := by
  constructor <;> intro h
  · have hget : (exec step (new false) (servedRun 0)).map (fun t => t.trace.log) =
        some [.written [7], .ret (.bulkIn 0 1 0) 0 ⟨[7], 0⟩ 1] := by decide
    obtain ⟨u, hexec, hlog⟩ := Option.map_eq_some_iff.mp hget
    have hsent := (h false _ u hexec).sent (.bulkIn 0 1 0) 0 ⟨[7], 0⟩ 1 (by simp [hlog]) rfl
    exact absurd hsent.2.1 (by decide)
  · have hget : (exec step (new false) overtakenRun).map
        (fun t => (t.trace.ep.calls[1]?, t.loans.lent 1, t.loans.freed)) =
        some (some (.serving (.bulkIn 0 1 1) ⟨[7, 8], 0⟩ 1), some 0, [0]) := by decide
    obtain ⟨u, hexec, hstate⟩ := Option.map_eq_some_iff.mp hget
    simp only [Prod.mk.injEq] at hstate
    obtain ⟨hcall, hlent, hfreed⟩ := hstate
    obtain ⟨n, hn, hnot⟩ := h false _ u hexec 1 _ _ _ hcall
    cases hlent.symm.trans hn
    exact hnot (hfreed ▸ List.mem_singleton_self 0)

end LoanTrace

end Usbip
