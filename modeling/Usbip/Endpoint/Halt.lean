import Usbip.Endpoint.Alone

/-! A halted IN endpoint.  The halt is looked at in one section of a dispatch, and the URB is served
or parked in the next one, so a stall may fall between the two.  Where no dispatch goes on from a
look that a stall has overtaken, a halted endpoint has no URB parked and answers no URB but with a
stall, and the queue keeps its bytes in order through any number of halts. -/

namespace Usbip

open Lib

/-- What has been seen of an endpoint: the URBs of the dispatches that began or went on while it was
halted, the bytes that writes have queued, and the bytes that each URB has taken off the queue. -/
structure Watch where
  refused : List Nat
  queued : List UInt8
  taken : List (Nat × List UInt8)

namespace Watch

def new : Watch := ⟨[], [], []⟩

def refuse (w : Watch) (halted : Bool) (n : Nat) : Watch :=
  if halted then { w with refused := w.refused ++ [n] } else w

theorem mem_refuse {w : Watch} {halted : Bool} {m n : Nat} :
    n ∈ (w.refuse halted m).refused ↔ n ∈ w.refused ∨ halted = true ∧ n = m := by
  unfold refuse
  split <;> simp_all

@[simp] theorem refuse_queued (w : Watch) (halted : Bool) (n : Nat) :
    (w.refuse halted n).queued = w.queued := by
  unfold refuse
  split <;> rfl

@[simp] theorem refuse_taken (w : Watch) (halted : Bool) (n : Nat) :
    (w.refuse halted n).taken = w.taken := by
  unfold refuse
  split <;> rfl

/-- A dispatch takes a slice of the first queued buffer. -/
def take (w : Watch) (urb : Urb) : List Dbuf → Watch
  | [] => w
  | d :: _ =>
    let slice : Slice := ⟨d.data, d.off⟩
    let bytes := payload urb slice (capLength urb.length (d.len - d.off))
    { w with taken := w.taken ++ [(urb.tag, bytes)] }

/-- What the next step of a call shows. -/
def run (w : Watch) (ep : EpState) : Call → Watch
  | .checked urb => (w.refuse ep.halted urb.tag).take urb ep.inq
  | .write src remaining none =>
    if 0 < remaining ∧ ep.pend.pop.isNone then
      { w with queued := w.queued ++ src.bytes remaining }
    else w
  | _ => w

def next (w : Watch) (ep : EpState) : EpAct → Watch
  | .dispatch _ => w.refuse ep.halted ep.accepted
  | .run i =>
    match ep.calls[i]? with
    | some call => w.run ep call
    | none => w
  | _ => w

@[simp] theorem take_refused (w : Watch) (urb : Urb) (inq : List Dbuf) :
    (w.take urb inq).refused = w.refused := by
  cases inq <;> rfl

end Watch

namespace EpTrace

/-- A halted endpoint has no URB parked; a URB dispatched while it is halted is answered with a
stall, and with nothing else; the queue is first in, first out, and what a URB takes off it is sent
in the reply to that URB; and when the halt is cleared, the next URB gets the first bytes of the
queue. -/
structure HaltKept (t : EpTrace) (w : Watch) : Prop where
  parked : t.ep.halted = true → t.ep.pend.urbs = []
  answered : ∀ n ∈ w.refused, ∃ urb, urb.tag = n ∧
    (.halted urb ∈ t.ep.calls ∨ .ret urb usbipStatusStall .null 0 ∈ t.log)
  hands : ∀ c ∈ t.ep.calls, ∀ u ∈ c.holds, u.tag ∈ w.refused → c = .halted u
  only : ∀ urb status data actual, .ret urb status data actual ∈ t.log → urb.tag ∈ w.refused →
    status = usbipStatusStall
  queue : w.taken.flatMap Prod.snd ++ t.ep.inq.flatMap Dbuf.rest = w.queued
  sent : ∀ x ∈ w.taken, ∃ urb slice chunk, x = (urb.tag, payload urb slice chunk) ∧
    (.serving urb slice chunk ∈ t.ep.calls ∨ .ret urb 0 slice chunk ∈ t.log)
  served : t.ep.halted = false → t.ep.inq ≠ [] → ∀ urb : Urb, urb.direction = .usbIn →
    0 < int32 urb.length → ∃ slice chunk,
      (t.ep.dispatchAlone urb).2 = [.ret (t.ep.submitted urb) 0 slice chunk] ∧
      payload urb slice chunk ≠ [] ∧
      payload urb slice chunk ++ (t.ep.dispatchAlone urb).1.inq.flatMap Dbuf.rest =
        t.ep.inq.flatMap Dbuf.rest

/-- A dispatch that has found the endpoint not halted does not go on while it is. -/
def NoStaleCheck (t : EpTrace) (a : EpAct) : Prop :=
  ∀ i urb, a = .run i → t.ep.halted = true → t.ep.calls[i]? ≠ some (.checked urb)

/-- The endpoint is an IN endpoint, and no URB asks for a negative length. -/
def ReadsIn : EpAct → Prop
  | .dispatch urb => urb.direction = .usbIn ∧ 0 ≤ int32 urb.length
  | _ => True

end EpTrace

/-- What a write in progress knows of its buffer. -/
def Call.InRange : Call → Prop
  | .write src remaining held =>
    0 ≤ src.off ∧ 0 ≤ remaining ∧ src.off + remaining = src.block.length ∧
      ∀ urb chunk, held = some (urb, chunk) → 0 ≤ chunk ∧ chunk ≤ remaining
  | _ => True

/-- Some bytes are taken, unless there are none. -/
theorem capLength_pos_of_nonneg {length : UInt32} {avail : Int} (hl : 0 ≤ int32 length)
    (ha : 0 < avail) : 0 < capLength length avail := by
  unfold capLength
  split
  · rename_i h
    have hne : length.toNat ≠ 0 := fun h0 => h.1 (UInt32.toNat_inj.mp h0)
    have hlt := length.toNat_lt
    rw [int32_eq] at hl ⊢
    split <;> split at hl <;> omega
  · exact ha

namespace EpTrace

/-- What a run keeps where stalls overtake no dispatch. -/
structure HaltInv (t : EpTrace) (w : Watch) : Prop where
  parked : t.ep.halted = true → t.ep.pend.urbs = []
  answered : ∀ n ∈ w.refused, ∃ urb, urb.tag = n ∧
    (.halted urb ∈ t.ep.calls ∨ .ret urb usbipStatusStall .null 0 ∈ t.log)
  hands : ∀ c ∈ t.ep.calls, ∀ u ∈ c.holds, u.tag ∈ w.refused → c = .halted u
  waiting : ∀ u ∈ t.ep.pend.urbs, u.tag ∉ w.refused
  only : ∀ urb status data actual, .ret urb status data actual ∈ t.log → urb.tag ∈ w.refused →
    status = usbipStatusStall
  queue : w.taken.flatMap Prod.snd ++ t.ep.inq.flatMap Dbuf.rest = w.queued
  sent : ∀ x ∈ w.taken, ∃ urb slice chunk, x = (urb.tag, payload urb slice chunk) ∧
    (.serving urb slice chunk ∈ t.ep.calls ∨ .ret urb 0 slice chunk ∈ t.log)
  urb : ∀ u ∈ t.ep.carried, u.direction = .usbIn ∧ 0 ≤ int32 u.length ∧ u.tag < t.ep.accepted
  seen : ∀ urb status data actual, .ret urb status data actual ∈ t.log → urb.tag < t.ep.accepted
  refused : ∀ n ∈ w.refused, n < t.ep.accepted
  dbuf : ∀ d ∈ t.ep.inq, 0 ≤ d.off ∧ d.off < d.len
  range : ∀ c ∈ t.ep.calls, c.InRange

theorem HaltInv.kept {t : EpTrace} {w : Watch} (h : t.HaltInv w) : t.HaltKept w where
  parked := h.parked
  answered := h.answered
  hands := h.hands
  only := h.only
  queue := h.queue
  sent := h.sent
  served hhalt hinq urb hdir hlen := by
    obtain ⟨d, rest, hq⟩ := List.exists_cons_of_ne_nil hinq
    obtain ⟨hoff, hlt⟩ := h.dbuf d (by simp [hq])
    have hchunk := capLength_pos hlen (show 0 < d.len - d.off by omega)
    have hle := capLength_le urb.length (d.len - d.off)
    have hin : (⟨d.data, d.off⟩ : Slice).Inside (capLength urb.length (d.len - d.off)) :=
      ⟨hoff, by simp only [Dbuf.len] at hle ⊢; omega⟩
    have hlength := Slice.length_bytes hchunk.le hin
    have hserve := Dbuf.serve_rest hoff hchunk.le hle rest
    have halone := dispatchAlone_serve urb hhalt hdir hq
    refine ⟨⟨d.data, d.off⟩, _, by rw [halone], fun hnil => ?_, ?_⟩
    · rw [payload, hdir] at hnil
      simp only [hnil, List.length_nil] at hlength
      omega
    · rw [halone, hq, payload, hdir, List.flatMap_cons]
      exact hserve.symm

theorem halt_inv_new (onOut : Bool) : (EpTrace.new onOut).HaltInv .new := by
  constructor <;> simp [EpTrace.new, EpState.new, EpState.carried, Watch.new]

section Run

variable {t : EpTrace} {w : Watch} {pre post : List Call} {call call' : Call} {next : EpState}
  {events : List EpEvent}

/-- A step that no stall has overtaken refuses no URB. -/
theorem run_refused (hc : t.ep.halted = true → ∀ urb, call ≠ .checked urb) :
    (w.run t.ep call).refused = w.refused := by
  cases call with
  | checked urb =>
    have hopen : t.ep.halted = false := Bool.eq_false_iff.mpr fun hh => hc hh urb rfl
    rw [Watch.run, Watch.take_refused, Watch.refuse, hopen]
    rfl
  | write src remaining held =>
    cases held with
    | none =>
      rw [Watch.run]
      split <;> rfl
    | some held => rfl
  | _ => rfl

theorem HaltInv.not_out (h : t.HaltInv w) {urb : Urb} (hmem : .checked urb ∈ t.ep.calls) :
    urb.direction ≠ .usbOut := by
  rw [(h.urb urb (EpState.carried_of_held hmem (List.mem_singleton_self _))).1]
  nofun

theorem HaltInv.run_hands (h : t.HaltInv w) (hmem : call ∈ t.ep.calls)
    (step : CallStep t.ep call next call' events) :
    ∀ u ∈ call'.holds, u.tag ∈ w.refused → call' = .halted u := by
  have hhands := h.hands call hmem
  intro u hu hrefused
  cases step with
  | feed some_left popped =>
    obtain ⟨hurbs, -⟩ := PendQueue.pop_some popped
    obtain rfl := List.mem_singleton.mp hu
    exact absurd hrefused (h.waiting _ (by simp [hurbs]))
  | sendStall urb rest => cases hhands u (List.mem_cons_of_mem _ hu) hrefused
  | serve => cases hhands u hu hrefused
  | callback => cases hhands u hu hrefused
  | enqueueOut => cases hhands u hu hrefused
  | _ => cases hu

theorem HaltInv.run_waiting (h : t.HaltInv w) (hmem : call ∈ t.ep.calls)
    (step : CallStep t.ep call next call' events) : ∀ u ∈ next.pend.urbs, u.tag ∉ w.refused := by
  intro u hu hrefused
  cases step with
  | feed some_left popped =>
    obtain ⟨hurbs, -⟩ := PendQueue.pop_some popped
    exact h.waiting u (by simp [hurbs, hu]) hrefused
  | @park urb is_in none_queued =>
    rw [PendQueue.urbs_park] at hu
    rcases List.mem_append.mp hu with hu | hu
    · split at hu
      · cases hu
      · exact h.waiting u hu hrefused
    · cases h.hands _ hmem u hu hrefused
  | _ => exact h.waiting u hu hrefused

theorem HaltInv.run_only (h : t.HaltInv w) (hmem : call ∈ t.ep.calls)
    (step : CallStep t.ep call next call' events) : ∀ urb status data actual,
      .ret urb status data actual ∈ events → urb.tag < t.ep.accepted ∧
        (urb.tag ∈ w.refused → status = usbipStatusStall) := by
  intro urb status data actual hret
  have hheld : urb ∈ call.holds := by cases step <;> simp at hret <;> simp [hret.1, Call.holds]
  refine ⟨(h.urb urb (EpState.carried_of_held hmem hheld)).2.2, fun hrefused => ?_⟩
  have hcall := h.hands call hmem urb hheld hrefused
  subst hcall
  cases step
  simp at hret
  exact hret.1

theorem HaltInv.run_dbuf (h : t.HaltInv w) (hmem : call ∈ t.ep.calls)
    (step : CallStep t.ep call next call' events) : ∀ d ∈ next.inq, 0 ≤ d.off ∧ d.off < d.len := by
  intro d hd
  cases step with
  | @queueRest src remaining some_left none_parked =>
    obtain ⟨hoff, hrem, hend, -⟩ := h.range _ hmem
    rcases List.mem_append.mp hd with hd | hd
    · exact h.dbuf d hd
    · obtain rfl := List.mem_singleton.mp hd
      have hlen := Slice.length_bytes hrem ⟨hoff, hend.le⟩
      exact ⟨le_refl _, by rw [Dbuf.len, hlen]; exact some_left⟩
  | @serve urb dbuf rest is_in queued =>
    obtain ⟨hoff, hlt⟩ := h.dbuf dbuf (by simp [queued])
    obtain ⟨-, hlen, -⟩ := h.urb urb (EpState.carried_of_held hmem (by simp [Call.holds]))
    have hchunk := capLength_pos_of_nonneg hlen (show 0 < dbuf.len - dbuf.off by omega)
    dsimp only at hd
    split at hd
    · exact h.dbuf d (by simp [queued, hd])
    · rename_i hnot
      rcases List.mem_cons.mp hd with rfl | hd
      · exact ⟨by simp only; omega, by simp only [Dbuf.len] at hnot ⊢; omega⟩
      · exact h.dbuf d (by simp [queued, hd])
  | _ => exact h.dbuf d hd

theorem HaltInv.run_range (h : t.HaltInv w) (hmem : call ∈ t.ep.calls)
    (step : CallStep t.ep call next call' events) : call'.InRange := by
  have hrange := h.range call hmem
  cases step with
  | sendChunk src remaining urb chunk =>
    obtain ⟨hoff, hrem, hend, hheld⟩ := hrange
    obtain ⟨h0, hle⟩ := hheld urb chunk rfl
    refine ⟨?_, ?_, ?_, fun _ _ hc => by cases hc⟩
    · rw [Slice.advance_off]
      omega
    · omega
    · rw [Slice.advance_off, Slice.advance_block]
      omega
  | @feed src remaining urb pend some_left popped =>
    obtain ⟨hoff, hrem, hend, -⟩ := hrange
    obtain ⟨hurbs, -⟩ := PendQueue.pop_some popped
    obtain ⟨-, hlen, -⟩ := h.urb urb (EpState.carried_of_parked (by simp [hurbs]))
    refine ⟨hoff, hrem, hend, fun urb' chunk hc => ?_⟩
    cases hc
    exact ⟨(capLength_pos_of_nonneg hlen some_left).le, capLength_le _ _⟩
  | _ => trivial

/-- The queue gives its first bytes and takes new ones at its end. -/
theorem HaltInv.run_queue (h : t.HaltInv w) (hmem : call ∈ t.ep.calls)
    (hc : t.ep.halted = true → ∀ urb, call ≠ .checked urb)
    (step : CallStep t.ep call next call' events) :
    (w.run t.ep call).taken.flatMap Prod.snd ++ next.inq.flatMap Dbuf.rest =
      (w.run t.ep call).queued := by
  have hqueue := h.queue
  have hopen : ∀ urb, call = .checked urb → t.ep.halted = false :=
    fun urb heq => Bool.eq_false_iff.mpr fun hh => hc hh urb heq
  cases step with
  | @feed src remaining urb pend some_left popped =>
    rw [Watch.run, if_neg (by simp [popped])]
    exact hqueue
  | @queueRest src remaining some_left none_parked =>
    rw [Watch.run, if_pos ⟨some_left, by rw [PendQueue.pop_none.mpr none_parked]; rfl⟩]
    rw [List.flatMap_append, ← List.append_assoc, hqueue]
    simp [Dbuf.rest]
  | @finish src remaining none_left =>
    rw [Watch.run, if_neg (by omega)]
    exact hqueue
  | @serve urb dbuf rest is_in queued =>
    obtain ⟨hoff, hlt⟩ := h.dbuf dbuf (by simp [queued])
    obtain ⟨-, hlen, -⟩ := h.urb urb (EpState.carried_of_held hmem (by simp [Call.holds]))
    have hchunk := capLength_pos_of_nonneg hlen (show 0 < dbuf.len - dbuf.off by omega)
    have hserve := Dbuf.serve_rest hoff hchunk.le (capLength_le _ _) rest
    rw [queued, List.flatMap_cons, hserve] at hqueue
    rw [Watch.run, Watch.refuse, hopen urb rfl, queued]
    simpa [Watch.take, payload, is_in] using hqueue
  | @park urb is_in none_queued =>
    rw [Watch.run, Watch.refuse, hopen urb rfl, none_queued]
    simpa [Watch.take, none_queued] using hqueue
  | @callback urb is_out => exact absurd is_out (h.not_out hmem)
  | @enqueueOut urb is_out => exact absurd is_out (h.not_out hmem)
  | _ => exact hqueue

/-- A slice that a URB takes is in the hands of its dispatch, until it is sent. -/
theorem HaltInv.run_sent (h : t.HaltInv w) (hcalls : t.ep.calls = pre ++ call :: post)
    (hc : t.ep.halted = true → ∀ urb, call ≠ .checked urb)
    (step : CallStep t.ep call next call' events) :
    ∀ x ∈ (w.run t.ep call).taken, ∃ urb slice chunk, x = (urb.tag, payload urb slice chunk) ∧
      (.serving urb slice chunk ∈ pre ++ call' :: post ∨
        .ret urb 0 slice chunk ∈ t.log ++ events) := by
  have hmem : call ∈ t.ep.calls := by simp [hcalls]
  have hopen : ∀ urb, call = .checked urb → t.ep.halted = false :=
    fun urb heq => Bool.eq_false_iff.mpr fun hh => hc hh urb heq
  have hold : ∀ x ∈ w.taken, ∃ urb slice chunk, x = (urb.tag, payload urb slice chunk) ∧
      (.serving urb slice chunk ∈ pre ++ call' :: post ∨
        .ret urb 0 slice chunk ∈ t.log ++ events) := by
    intro x hx
    obtain ⟨urb, slice, chunk, rfl, hwhere⟩ := h.sent x hx
    refine ⟨urb, slice, chunk, rfl, ?_⟩
    rcases hwhere with hserving | hlog
    · rw [hcalls] at hserving
      rcases List.mem_append.mp hserving with hpre | hpost
      · exact .inl (List.mem_append_left _ hpre)
      · rcases List.mem_cons.mp hpost with hcall | hpost
        · subst hcall
          cases step
          exact .inr (by simp)
        · exact .inl (List.mem_append_right _ (List.mem_cons_of_mem _ hpost))
    · exact .inr (List.mem_append_left _ hlog)
  cases step with
  | @feed src remaining urb pend some_left popped =>
    rw [Watch.run, if_neg (by simp [popped])]
    exact hold
  | @queueRest src remaining some_left none_parked =>
    rw [Watch.run]
    split <;> exact hold
  | @finish src remaining none_left =>
    rw [Watch.run, if_neg (by omega)]
    exact hold
  | @serve urb dbuf rest is_in queued =>
    rw [Watch.run, Watch.refuse, hopen urb rfl, queued]
    intro x hx
    rcases List.mem_append.mp hx with hx | hx
    · exact hold x hx
    · obtain rfl := List.mem_singleton.mp hx
      exact ⟨urb, ⟨dbuf.data, dbuf.off⟩, _, rfl, .inl (by simp)⟩
  | @park urb is_in none_queued =>
    rw [Watch.run, Watch.refuse, hopen urb rfl, none_queued]
    exact hold
  | @callback urb is_out => exact absurd is_out (h.not_out hmem)
  | @enqueueOut urb is_out => exact absurd is_out (h.not_out hmem)
  | _ => exact hold

theorem HaltInv.run_answered (h : t.HaltInv w) (hcalls : t.ep.calls = pre ++ call :: post)
    (step : CallStep t.ep call next call' events) :
    ∀ n ∈ w.refused, ∃ urb, urb.tag = n ∧ (.halted urb ∈ pre ++ call' :: post ∨
      .ret urb usbipStatusStall .null 0 ∈ t.log ++ events) := by
  intro n hn
  obtain ⟨urb, rfl, hwhere⟩ := h.answered n hn
  refine ⟨urb, rfl, ?_⟩
  rcases hwhere with hhalted | hlog
  · rw [hcalls] at hhalted
    rcases List.mem_append.mp hhalted with hpre | hpost
    · exact .inl (List.mem_append_left _ hpre)
    · rcases List.mem_cons.mp hpost with hcall | hpost
      · subst hcall
        cases step
        exact .inr (by simp)
      · exact .inl (List.mem_append_right _ (List.mem_cons_of_mem _ hpost))
  · exact .inr (List.mem_append_left _ hlog)

/-- A step of a call that no stall has overtaken. -/
theorem HaltInv.afterRun (h : t.HaltInv w) (hcalls : t.ep.calls = pre ++ call :: post)
    (hc : t.ep.halted = true → ∀ urb, call ≠ .checked urb)
    (step : CallStep t.ep call next call' events) :
    (t.afterRun pre post call' next events).HaltInv (w.run t.ep call) := by
  have hmem : call ∈ t.ep.calls := by simp [hcalls]
  have hrefused := run_refused (w := w) hc
  obtain ⟨-, haccepted, hhalted, -⟩ := step.frame
  have hothers : ∀ c ∈ pre ++ call' :: post, c ∈ t.ep.calls ∨ c = call' := by
    intro c hc
    rw [hcalls]
    simp at hc ⊢
    tauto
  constructor
  · intro hh
    have hh : t.ep.halted = true := hhalted.symm.trans hh
    have hnone := h.parked hh
    cases step with
    | feed some_left popped =>
      obtain ⟨hurbs, -⟩ := PendQueue.pop_some popped
      simp [hurbs] at hnone
    | park => exact absurd rfl (hc hh _)
    | _ => exact hnone
  · rw [hrefused]
    exact h.run_answered hcalls step
  · rw [hrefused]
    intro c hmem' u hu hin
    rcases hothers c hmem' with hold | rfl
    · exact h.hands c hold u hu hin
    · exact h.run_hands hmem step u hu hin
  · have hwaiting := h.run_waiting hmem step
    rw [hrefused]
    exact hwaiting
  · rw [hrefused]
    intro urb status data actual hret hin
    rcases List.mem_append.mp hret with hold | hnew
    · exact h.only urb status data actual hold hin
    · exact (h.run_only hmem step urb status data actual hnew).2 hin
  · have hqueue := h.run_queue hmem hc step
    exact hqueue
  · exact h.run_sent hcalls hc step
  · intro u hu
    rw [show (t.afterRun pre post call' next events).ep.accepted = t.ep.accepted from haccepted]
    rcases (EpStep.run hcalls step).carried hu with hu | ⟨_, hrun, -⟩
    · exact h.urb u hu
    · cases hrun
  · intro urb status data actual hret
    rw [show (t.afterRun pre post call' next events).ep.accepted = t.ep.accepted from haccepted]
    rcases List.mem_append.mp hret with hold | hnew
    · exact h.seen urb status data actual hold
    · exact (h.run_only hmem step urb status data actual hnew).1
  · rw [hrefused]
    intro n hn
    exact (h.refused n hn).trans_eq haccepted.symm
  · have hdbuf := h.run_dbuf hmem step
    exact hdbuf
  · intro c hmem'
    rcases hothers c hmem' with hold | rfl
    · exact h.range c hold
    · exact h.run_range hmem step

end Run

/-! ### One step of the endpoint -/

section Step

variable {t : EpTrace} {w : Watch}

/-- A call begins that is no dispatch. -/
theorem HaltInv.enter (h : t.HaltInv w) (c : Call) (events : List EpEvent)
    (hret : ∀ urb status data actual, .ret urb status data actual ∉ events)
    (hholds : ∀ u ∈ c.holds, u ∈ t.ep.carried ∧ u.tag ∉ w.refused) (hrange : c.InRange) :
    EpTrace.HaltInv ⟨{ t.ep with calls := t.ep.calls ++ [c] }, t.log ++ events⟩ w := by
  have hlog : ∀ urb status data actual, .ret urb status data actual ∈ t.log ++ events →
      .ret urb status data actual ∈ t.log := fun urb status data actual hmem =>
    (List.mem_append.mp hmem).elim id fun hnew => absurd hnew (hret urb status data actual)
  constructor
  · exact h.parked
  · intro n hn
    obtain ⟨urb, rfl, hwhere⟩ := h.answered n hn
    exact ⟨urb, rfl, hwhere.imp (List.mem_append_left _) (List.mem_append_left _)⟩
  · intro c' hc' u hu hin
    rcases List.mem_append.mp hc' with hc' | hc'
    · exact h.hands c' hc' u hu hin
    · obtain rfl := List.mem_singleton.mp hc'
      exact absurd hin (hholds u hu).2
  · exact h.waiting
  · exact fun urb status data actual hmem => h.only urb status data actual (hlog _ _ _ _ hmem)
  · exact h.queue
  · intro x hx
    obtain ⟨urb, slice, chunk, rfl, hwhere⟩ := h.sent x hx
    exact ⟨urb, slice, chunk, rfl, hwhere.imp (List.mem_append_left _) (List.mem_append_left _)⟩
  · intro u hu
    rw [EpState.carried, List.flatMap_append, ← List.append_assoc, List.mem_append,
      List.flatMap_singleton] at hu
    exact h.urb u (hu.elim id fun hu => (hholds u hu).1)
  · exact fun urb status data actual hmem => h.seen urb status data actual (hlog _ _ _ _ hmem)
  · exact h.refused
  · exact h.dbuf
  · intro c' hc'
    rcases List.mem_append.mp hc' with hc' | hc'
    · exact h.range c' hc'
    · obtain rfl := List.mem_singleton.mp hc'
      exact hrange

/-- URBs leave the pending list, and a halt is set over an empty one or cleared. -/
theorem HaltInv.unpark (h : t.HaltInv w) (pend : PendQueue) (halted : Bool)
    (events : List EpEvent) (hsub : ∀ u ∈ pend.urbs, u ∈ t.ep.pend.urbs)
    (hhalt : halted = true → pend.urbs = [])
    (hret : ∀ urb status data actual, .ret urb status data actual ∉ events) :
    EpTrace.HaltInv ⟨{ t.ep with pend, halted }, t.log ++ events⟩ w := by
  have hlog : ∀ urb status data actual, .ret urb status data actual ∈ t.log ++ events →
      .ret urb status data actual ∈ t.log := fun urb status data actual hmem =>
    (List.mem_append.mp hmem).elim id fun hnew => absurd hnew (hret urb status data actual)
  constructor
  · exact hhalt
  · intro n hn
    obtain ⟨urb, rfl, hwhere⟩ := h.answered n hn
    exact ⟨urb, rfl, hwhere.imp_right (List.mem_append_left _)⟩
  · exact h.hands
  · exact fun u hu => h.waiting u (hsub u hu)
  · exact fun urb status data actual hmem => h.only urb status data actual (hlog _ _ _ _ hmem)
  · exact h.queue
  · intro x hx
    obtain ⟨urb, slice, chunk, rfl, hwhere⟩ := h.sent x hx
    exact ⟨urb, slice, chunk, rfl, hwhere.imp_right (List.mem_append_left _)⟩
  · intro u hu
    refine h.urb u ?_
    rw [EpState.mem_carried] at hu ⊢
    exact hu.imp_left (hsub u)
  · exact fun urb status data actual hmem => h.seen urb status data actual (hlog _ _ _ _ hmem)
  · exact h.refused
  · exact h.dbuf
  · exact h.range

/-- A dispatch begins, and is refused while the endpoint is halted. -/
theorem HaltInv.dispatch (h : t.HaltInv w) {urb : Urb} (hread : ReadsIn (.dispatch urb)) :
    EpTrace.HaltInv
      ⟨{ t.ep with calls := t.ep.calls ++ [t.ep.entered urb], accepted := t.ep.accepted + 1 },
        t.log⟩ (w.refuse t.ep.halted t.ep.accepted) := by
  -- what was there before has smaller tags
  have hold : ∀ u : Urb, u.tag < t.ep.accepted →
      u.tag ∈ (w.refuse t.ep.halted t.ep.accepted).refused → u.tag ∈ w.refused := by
    intro u hlt hin
    rcases Watch.mem_refuse.mp hin with hin | ⟨-, heq⟩
    · exact hin
    · omega
  constructor
  · exact h.parked
  · intro n hn
    rcases Watch.mem_refuse.mp hn with hn | ⟨hh, rfl⟩
    · obtain ⟨urb', rfl, hwhere⟩ := h.answered n hn
      exact ⟨urb', rfl, hwhere.imp_left (List.mem_append_left _)⟩
    · exact ⟨{ urb with tag := t.ep.accepted }, rfl, .inl (by simp [EpState.entered, hh])⟩
  · intro c hc u hu hin
    rcases List.mem_append.mp hc with hc | hc
    · have hlt := (h.urb u (EpState.carried_of_held hc hu)).2.2
      exact h.hands c hc u hu (hold u hlt hin)
    · obtain rfl := List.mem_singleton.mp hc
      rw [EpState.holds_entered] at hu
      obtain rfl := List.mem_singleton.mp hu
      rcases Watch.mem_refuse.mp hin with hin | ⟨hh, -⟩
      · exact absurd (h.refused _ hin) (Nat.lt_irrefl _)
      · exact if_pos hh
  · intro u hu hin
    have hlt := (h.urb u (EpState.carried_of_parked hu)).2.2
    exact h.waiting u hu (hold u hlt hin)
  · intro u status data actual hret hin
    have hlt := h.seen u status data actual hret
    exact h.only u status data actual hret (hold u hlt hin)
  · rw [Watch.refuse_taken, Watch.refuse_queued]
    exact h.queue
  · rw [Watch.refuse_taken]
    intro x hx
    obtain ⟨u, slice, chunk, rfl, hwhere⟩ := h.sent x hx
    exact ⟨u, slice, chunk, rfl, hwhere.imp_left (List.mem_append_left _)⟩
  · intro u hu
    rcases (EpStep.dispatch urb).carried hu with hu | ⟨urb', heq, rfl⟩
    · obtain ⟨hdir, hlen, hlt⟩ := h.urb u hu
      exact ⟨hdir, hlen, Nat.lt_succ_of_lt hlt⟩
    · cases heq
      exact ⟨hread.1, hread.2, Nat.lt_succ_self _⟩
  · intro u status data actual hret
    exact Nat.lt_succ_of_lt (h.seen u status data actual hret)
  · intro n hn
    rcases Watch.mem_refuse.mp hn with hn | ⟨-, rfl⟩
    · exact Nat.lt_succ_of_lt (h.refused n hn)
    · exact Nat.lt_succ_self _
  · exact h.dbuf
  · intro c hc
    rcases List.mem_append.mp hc with hc | hc
    · exact h.range c hc
    · obtain rfl := List.mem_singleton.mp hc
      rcases t.ep.entered_cases urb with hent | hent <;> rw [hent] <;> trivial

theorem HaltInv.step (h : t.HaltInv w) {a : EpAct} (hread : ReadsIn a) (hc : t.NoStaleCheck a)
    {ep' : EpState} {events : List EpEvent} (hs : EpStep t.ep a ep' events) :
    EpTrace.HaltInv ⟨ep', t.log ++ events⟩ (w.next t.ep a) := by
  cases hs with
  | dispatch urb =>
    rw [List.append_nil]
    exact h.dispatch hread
  | write buf => exact h.enter _ _ (by simp) (by simp [Call.holds]) (by simp [Call.InRange])
  | stall =>
    have hmid := h.enter (.stall t.ep.pend.urbs) [] (by simp)
      (fun u hu => ⟨EpState.carried_of_parked hu, h.waiting u hu⟩) trivial
    have hstall := hmid.unpark t.ep.pend.takeAll.2 true [] (by simp) (by simp) (by simp)
    rw [List.append_nil] at hstall
    exact hstall
  | clearHalt => exact h.unpark _ _ _ (fun _ hu => hu) (by simp) (by simp)
  | unlink n =>
    refine h.unpark _ _ _ (fun u hu => ?_) (fun hh => ?_) (by simp)
    · rw [PendQueue.urbs_unlink] at hu
      exact List.mem_of_mem_filter hu
    · rw [PendQueue.urbs_unlink, h.parked hh, List.filter_nil]
  | @run pre post call call' next events calls_eq step =>
    have hget : t.ep.calls[pre.length]? = some call := by simp [calls_eq]
    have hnext : w.next t.ep (.run pre.length) = w.run t.ep call := by rw [Watch.next, hget]
    rw [hnext]
    exact h.afterRun calls_eq (fun hh urb heq => hc _ urb rfl hh (heq ▸ hget)) step

/-- A dispatch that goes on while the endpoint is halted parks its URB or takes bytes for it. -/
theorem HaltInv.break_ (h : t.HaltInv w) {a : EpAct} (hc : ¬t.NoStaleCheck a) {ep' : EpState}
    {events : List EpEvent} (hs : EpStep t.ep a ep' events) :
    ¬EpTrace.HaltKept ⟨ep', t.log ++ events⟩ (w.next t.ep a) := by
  unfold NoStaleCheck at hc
  push Not at hc
  obtain ⟨i, urb, rfl, hhalt, hget⟩ := hc
  intro hkept
  cases hs with
  | @run pre post call call' next events calls_eq step =>
    obtain rfl : call = .checked urb := by simpa [calls_eq] using hget
    have hmem : .checked urb ∈ t.ep.calls := by simp [calls_eq]
    cases step with
    | @serve _ dbuf rest is_in queued =>
      have hnext : w.next t.ep (.run pre.length) = w.run t.ep (.checked urb) := by
        rw [Watch.next, hget]
      have hrefused : urb.tag ∈ (w.next t.ep (.run pre.length)).refused := by
        rw [hnext, Watch.run, Watch.take_refused, Watch.mem_refuse]
        exact .inr ⟨hhalt, rfl⟩
      cases hkept.hands (.serving urb ⟨dbuf.data, dbuf.off⟩
        (capLength urb.length (dbuf.len - dbuf.off))) (by simp) urb (List.mem_singleton_self _)
        hrefused
    | park is_in none_queued =>
      have hnone := hkept.parked hhalt
      rw [PendQueue.urbs_park] at hnone
      simp at hnone
    | callback is_out => exact absurd is_out (h.not_out hmem)
    | enqueueOut is_out => exact absurd is_out (h.not_out hmem)

end Step

end EpTrace

end Usbip
