import Mathlib.Data.List.Perm.Basic
import Usbip.Endpoint.Step

/-! Where a submitted URB is: on the pending list, in the hands of a call, answered, or freed by an
unlink.  As long as no unlink frees the last node of a list of which it leaves some, every URB is in
exactly one of these places and `pend_tail` is the last node.  An unlink that does so sets
`pend_tail` to null over a list with nodes, and the next URB parked replaces them. -/

namespace Usbip

open Lib

namespace EpEvent

/-- The tag of the URB that an event answers. -/
def answers : EpEvent → List Nat
  | .ret urb _ _ _ => [urb.tag]
  | _ => []

/-- The tag of the URB that an event frees. -/
def frees : EpEvent → List Nat
  | .freed urb _ => [urb.tag]
  | _ => []

end EpEvent

namespace EpTrace

/-- The URBs reachable from `pend_head` by following `next`. -/
def parkedTags (t : EpTrace) : List Nat := t.ep.pend.urbs.map Urb.tag

/-- The URBs that a call has popped, or not yet parked, and is about to answer. -/
def heldTags (t : EpTrace) : List Nat := (t.ep.calls.flatMap Call.holds).map Urb.tag

/-- The URBs answered, once for each `RET_SUBMIT`. -/
def answeredTags (t : EpTrace) : List Nat := t.log.flatMap EpEvent.answers

/-- The URBs that an unlink freed. -/
def freedTags (t : EpTrace) : List Nat := t.log.flatMap EpEvent.frees

/-- In how many places the URB `n` is. -/
def places (t : EpTrace) (n : Nat) : Nat :=
  t.parkedTags.count n + t.heldTags.count n + t.answeredTags.count n + t.freedTags.count n

/-- Every accepted URB is in exactly one place, an unlink freed only URBs that it names, and
`pend_tail` is the last node reachable from `pend_head`, null exactly when that is. -/
structure Custody (t : EpTrace) : Prop where
  one : ∀ n < t.ep.accepted, t.places n = 1
  named : ∀ urb unlinkSeqnum, .freed urb unlinkSeqnum ∈ t.log → urb.seqnum = unlinkSeqnum
  tail : t.ep.pend.Tight
  null : t.ep.pend.list.pendTail = none ↔ t.ep.pend.list.pendHead = none

/-- Each unlink spares the last node of the pending list or frees them all. -/
def UnlinkSparesTail (t : EpTrace) (a : EpAct) : Prop :=
  ∀ n, a = .unlink n → t.ep.pend.SparesTail n

/-- What a run keeps while unlinks spare the tail. -/
structure Inv (t : EpTrace) : Prop where
  places : ∀ n, t.places n = if n < t.ep.accepted then 1 else 0
  named : ∀ urb unlinkSeqnum, .freed urb unlinkSeqnum ∈ t.log → urb.seqnum = unlinkSeqnum
  tail : t.ep.pend.Tight

theorem Inv.custody {t : EpTrace} (h : t.Inv) : t.Custody :=
  ⟨fun n hn => by rw [h.places, if_pos hn], h.named, h.tail, h.tail.null_iff⟩

theorem inv_new (onOut : Bool) : (EpTrace.new onOut).Inv :=
  ⟨fun n => rfl, fun _ _ h => absurd h (by simp [EpTrace.new]), PendQueue.tight_empty⟩

end EpTrace

/-- A call's step moves URBs between places and, from a tight list, loses none. -/
theorem CallStep.places {ep ep' : EpState} {call call' : Call} {events : List EpEvent}
    (h : CallStep ep call ep' call' events) (ht : ep.pend.Tight) (n : Nat) :
    (ep'.pend.urbs.map Urb.tag).count n + (call'.holds.map Urb.tag).count n +
        (events.flatMap EpEvent.answers).count n + (events.flatMap EpEvent.frees).count n =
      (ep.pend.urbs.map Urb.tag).count n + (call.holds.map Urb.tag).count n := by
  cases h with
  | feed _ popped =>
    obtain ⟨hurbs, -⟩ := PendQueue.pop_some popped
    simp [Call.holds, hurbs, List.count_cons]
  | park => simp [Call.holds, ht.urbs_park]
  | sendStall urb rest =>
    simp [Call.holds, EpEvent.answers, EpEvent.frees, List.count_cons]
    omega
  | _ => simp [Call.holds, EpEvent.answers, EpEvent.frees]

theorem CallStep.freed_nil {ep ep' : EpState} {call call' : Call} {events : List EpEvent}
    (h : CallStep ep call ep' call' events) {urb : Urb} {n : UInt32} :
    .freed urb n ∉ events := by
  cases h <;> simp

namespace EpTrace

theorem Inv.step {t t' : EpTrace} {a : EpAct} (h : t.Inv) (hc : UnlinkSparesTail t a)
    (hs : t.step a = some t') : t'.Inv := by
  obtain ⟨events, hstep, hlog⟩ := step_some hs
  obtain ⟨ep', log'⟩ := t'
  subst hlog
  have hstep := EpState.step_step hstep
  have htight : ep'.pend.Tight := hstep.tight h.tail hc
  have hplaces := h.places
  simp only [EpTrace.places, parkedTags, heldTags, answeredTags, freedTags] at hplaces
  cases hstep with
  | dispatch urb =>
    refine ⟨fun n => ?_, by simpa using h.named, htight⟩
    have := hplaces n
    have hholds : (t.ep.entered urb).holds.map Urb.tag = [t.ep.accepted] := by
      unfold EpState.entered
      split <;> rfl
    simp only [EpTrace.places, parkedTags, heldTags, answeredTags, freedTags, List.append_nil,
      List.flatMap_append, List.map_append, List.flatMap_cons, List.flatMap_nil, hholds,
      List.count_append, List.count_singleton, beq_iff_eq]
    split at this <;> split <;> split <;> omega
  | write buf =>
    refine ⟨fun n => ?_, by simpa using h.named, htight⟩
    simpa [EpTrace.places, parkedTags, heldTags, answeredTags, freedTags, Call.holds,
      EpEvent.answers, EpEvent.frees] using hplaces n
  | stall =>
    refine ⟨fun n => ?_, by simpa using h.named, htight⟩
    have := hplaces n
    simp only [EpTrace.places, parkedTags, heldTags, answeredTags, freedTags, List.append_nil,
      PendQueue.urbs_takeAll, List.flatMap_append, List.map_append, List.flatMap_cons,
      List.flatMap_nil, Call.holds, List.count_append, List.map_nil, List.count_nil]
    omega
  | clearHalt =>
    exact ⟨by simpa [EpTrace.places, parkedTags, heldTags, answeredTags, freedTags] using hplaces,
      by simpa using h.named, htight⟩
  | unlink m =>
    refine ⟨fun n => ?_, fun urb k hmem => ?_, htight⟩
    · have := hplaces n
      have hsplit := List.filter_append_perm
        (fun u : Urb => u.seqnum == m) t.ep.pend.urbs
      have hcount := (hsplit.map Urb.tag).count_eq n
      rw [List.map_append, List.count_append] at hcount
      have hanswers : ((t.ep.pend.unlink m).2.map fun urb => EpEvent.freed urb m).flatMap
          EpEvent.answers = [] := by simp [List.flatMap_map, EpEvent.answers]
      have hfrees : ((t.ep.pend.unlink m).2.map fun urb => EpEvent.freed urb m).flatMap
          EpEvent.frees = (t.ep.pend.unlink m).2.map Urb.tag := by
        simp only [List.flatMap_map, EpEvent.frees]
        exact List.map_eq_flatMap.symm
      simp only [EpTrace.places, parkedTags, heldTags, answeredTags, freedTags,
        List.flatMap_append, List.count_append, hanswers, hfrees, List.count_nil]
      rw [PendQueue.unlink, PendQueue.urbs_unlinkWhere, PendQueue.unlinkWhere_freed]
      omega
    · rcases List.mem_append.mp hmem with hmem | hmem
      · exact h.named urb k hmem
      · obtain ⟨u, hu, heq⟩ := List.mem_map.mp hmem
        cases heq
        rw [PendQueue.unlink, PendQueue.unlinkWhere_freed] at hu
        simpa using (List.mem_filter.mp hu).2
  | @run pre post call call' next events calls_eq step =>
    refine ⟨fun n => ?_, fun urb k hmem => ?_, htight⟩
    · have hmove := step.places h.tail n
      have := hplaces n
      simp only [EpTrace.places, parkedTags, heldTags, answeredTags, freedTags, calls_eq,
        List.flatMap_append, List.flatMap_cons, List.map_append, List.count_append,
        step.frame.2.1] at this ⊢
      omega
    · rcases List.mem_append.mp hmem with hmem | hmem
      · exact h.named urb k hmem
      · exact absurd hmem step.freed_nil

/-- In every run, every URB stays in exactly one place and `pend_tail` stays the last node of the
pending list if and only if each unlink spares that node or frees all nodes. -/
theorem custody_iff_unlinks_spare_tail (onOut : Bool) {acts : List EpAct} {t : EpTrace}
    (h : exec EpTrace.step (.new onOut) acts = some t) :
    Throughout EpTrace.step Custody (.new onOut) acts ↔
      Guarded EpTrace.step UnlinkSparesTail (.new onOut) acts := by
  refine throughout_iff_guarded (I := Inv) (fun _ => Inv.custody)
    (fun _ _ _ hi hc hs => hi.step hc hs) (fun t a t' hi hc hs hcustody => hc ?_) (inv_new onOut) h
  obtain ⟨events, hstep, -⟩ := step_some hs
  obtain ⟨ep', log'⟩ := t'
  cases a with
  | unlink n =>
    cases EpState.step_step hstep
    rintro m ⟨⟩
    exact hi.tail.unlink.mp hcustody.tail
  | _ => rintro m ⟨⟩

/-- Two URBs are parked, the second is unlinked, and a third is parked. -/
def unlinkLastRun : List EpAct :=
  [.dispatch (.bulkIn 0 1 64), .run 0, .dispatch (.bulkIn 0 2 64), .run 1, .unlink 2,
    .dispatch (.bulkIn 0 3 64), .run 2]

/-- The first URB of `unlinkLastRun` ends in no place: it is neither parked nor held, nothing
answers it, and no unlink names it. -/
theorem custody_fails : ¬∀ acts t, exec EpTrace.step (.new false) acts = some t → t.Custody := by
  intro h
  have hlost : ((exec EpTrace.step (.new false) unlinkLastRun).map fun t =>
      decide (0 < t.ep.accepted ∧ t.places 0 = 0)) = some true := by decide
  obtain ⟨t, ht, hp⟩ := Option.map_eq_some_iff.mp hlost
  obtain ⟨hacc, hzero⟩ := of_decide_eq_true hp
  have := (h unlinkLastRun t ht).one 0 hacc
  omega

/-- Parking, feeding and unlinking in an order that spares the tail. -/
def unlinkFirstRun : List EpAct :=
  [.dispatch (.bulkIn 0 1 64), .run 0, .dispatch (.bulkIn 0 2 64), .run 1, .unlink 1,
    .dispatch (.bulkIn 0 3 64), .run 2, .write [7, 8], .run 3, .run 3]

theorem custody_iff_on_unlinkFirstRun :
    Throughout EpTrace.step Custody (.new false) unlinkFirstRun ↔
      Guarded EpTrace.step UnlinkSparesTail (.new false) unlinkFirstRun := by
  have hrun : (exec EpTrace.step (.new false) unlinkFirstRun).isSome = true := by decide
  obtain ⟨t, ht⟩ := Option.isSome_iff_exists.mp hrun
  exact custody_iff_unlinks_spare_tail false ht

end EpTrace

end Usbip
