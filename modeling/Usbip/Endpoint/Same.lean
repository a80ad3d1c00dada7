import Usbip.Endpoint.Step

/-! Pending lists that differ only in where their nodes lie in memory.  The URBs in order, and
whether `pend_tail` is null, are all that the code sees of a list. -/

namespace Usbip

namespace PendQueue

/-- Two lists that the code cannot tell apart. -/
structure Same (q r : PendQueue) : Prop where
  urbs : q.urbs = r.urbs
  tail : q.list.pendTail = none ↔ r.list.pendTail = none

theorem Same.refl (q : PendQueue) : q.Same q := ⟨rfl, Iff.rfl⟩

theorem Tight.same {q r : PendQueue} (hq : q.Tight) (hr : r.Tight) (h : q.urbs = r.urbs) :
    q.Same r where
  urbs := h
  tail := by rw [hq.null_iff, hr.null_iff, head_none, head_none, h]

variable {q r : PendQueue}

theorem Same.park (h : q.Same r) (urb : Urb) : (q.park urb).Same (r.park urb) where
  urbs := by simp only [urbs_park, h.urbs, h.tail]
  tail := by simp [PendQueue.park]

theorem Same.takeAll (h : q.Same r) : q.takeAll.1 = r.takeAll.1 ∧ q.takeAll.2.Same r.takeAll.2 :=
  ⟨h.urbs, (tight_takeAll q).same (tight_takeAll r) (by simp)⟩

theorem Same.unlink (h : q.Same r) (n : UInt32) :
    (q.unlink n).2 = (r.unlink n).2 ∧ (q.unlink n).1.Same (r.unlink n).1 := by
  refine ⟨?_, by simp only [urbs_unlink, h.urbs], ?_⟩
  · simp only [PendQueue.unlink, unlinkWhere_freed, h.urbs]
  · simp only [PendQueue.unlink, unlinkWhere_pendTail, h.urbs]
    split
    · simp
    · exact h.tail

/-- Both pops return the same URB and leave lists that are the same again. -/
theorem Same.pop (h : q.Same r) :
    Option.Rel (fun x y => x.1 = y.1 ∧ x.2.Same y.2) q.pop r.pop := by
  cases hq : q.pop with
  | none =>
    rw [pop_none, h.urbs, ← pop_none] at hq
    rw [hq]
    exact .none
  | some x =>
    obtain ⟨u, q'⟩ := x
    obtain ⟨hqu, hqt⟩ := pop_some hq
    cases hr : r.pop with
    | none =>
      rw [pop_none, ← h.urbs, hqu] at hr
      cases hr
    | some y =>
      obtain ⟨v, r'⟩ := y
      obtain ⟨hru, hrt⟩ := pop_some hr
      rw [h.urbs, hru] at hqu
      obtain ⟨rfl, hrest⟩ := List.cons.inj hqu
      refine .some ⟨rfl, hrest.symm, ?_⟩
      rw [hqt, hrt, hrest]
      split
      · simp
      · exact h.tail

end PendQueue

/-- Two endpoints that the code cannot tell apart. -/
structure EpState.Same (x y : EpState) : Prop where
  pend : x.pend.Same y.pend
  rest : { x with pend := .empty } = { y with pend := .empty }

namespace EpState

variable {x y : EpState}

theorem Same.refl (x : EpState) : x.Same x := ⟨.refl _, rfl⟩

theorem Same.of_pend {q : PendQueue} (h : x.pend.Same q) : x.Same { x with pend := q } := ⟨h, rfl⟩

/-- The second of two endpoints that are the same is the first with another list. -/
theorem Same.eq (h : x.Same y) : y = { x with pend := y.pend } := by
  obtain ⟨-, hrest⟩ := h
  obtain ⟨⟩ := x
  obtain ⟨⟩ := y
  cases hrest
  rfl

/-- The results of a call's step on two endpoints that are the same. -/
def SameCall (x y : EpState × Call × List EpEvent) : Prop := x.1.Same y.1 ∧ x.2 = y.2

theorem Same.runCall (h : x.Same y) (call : Call) :
    Option.Rel SameCall (x.runCall call) (y.runCall call) := by
  have hpend := h.pend
  rw [h.eq]
  generalize y.pend = q at hpend
  cases call with
  | write src remaining held =>
    cases held with
    | some held => exact .some ⟨.of_pend hpend, rfl⟩
    | none =>
      refine .some ?_
      unfold writeSection
      by_cases hleft : 0 < remaining
      · simp only [if_pos hleft]
        have hpop := hpend.pop
        cases hx : x.pend.pop <;> cases hq : q.pop <;> rw [hx, hq] at hpop
        · exact ⟨⟨hpend, rfl⟩, rfl⟩
        · cases hpop
        · cases hpop
        · obtain ⟨hurb, hrest⟩ := Option.rel_some_some.mp hpop
          simp only [hurb]
          exact ⟨⟨hrest, rfl⟩, rfl⟩
      · simp only [if_neg hleft]
        exact ⟨.of_pend hpend, rfl⟩
  | stall rest => cases rest <;> exact .some ⟨.of_pend hpend, rfl⟩
  | checked urb =>
    simp only [EpState.runCall]
    split
    · simp only [dispatchIn]
      split
      · exact .some ⟨⟨hpend, rfl⟩, rfl⟩
      · exact .some ⟨⟨hpend.park urb, rfl⟩, rfl⟩
    · simp only [dispatchOut]
      split
      · exact .some ⟨⟨hpend, rfl⟩, rfl⟩
      · exact .some ⟨⟨hpend, rfl⟩, rfl⟩
  | done => exact .none
  | _ => exact .some ⟨.of_pend hpend, rfl⟩

/-- Endpoints that are the same take the same steps and do the same. -/
theorem Same.step (h : x.Same y) (a : EpAct) :
    Option.Rel (fun x y => x.1.Same y.1 ∧ x.2 = y.2) (x.step a) (y.step a) := by
  have hpend := h.pend
  cases a with
  | dispatch urb =>
    rw [h.eq]
    exact .some ⟨⟨hpend, rfl⟩, rfl⟩
  | write buf =>
    rw [h.eq]
    exact .some ⟨⟨hpend, rfl⟩, rfl⟩
  | stall =>
    rw [h.eq]
    generalize y.pend = q at hpend
    obtain ⟨hurbs, hsame⟩ := hpend.takeAll
    refine .some ⟨⟨hsame, ?_⟩, rfl⟩
    exact congrArg (fun rest => EpState.mk .empty x.inq x.outq x.onOut true
      (x.calls ++ [.stall rest]) x.accepted) hurbs
  | clearHalt =>
    rw [h.eq]
    exact .some ⟨⟨hpend, rfl⟩, rfl⟩
  | unlink n =>
    rw [h.eq]
    generalize y.pend = q at hpend
    obtain ⟨hfreed, hsame⟩ := hpend.unlink n
    exact .some ⟨⟨hsame, rfl⟩, congrArg (List.map _) hfreed⟩
  | run i =>
    have hcalls : y.calls = x.calls := by rw [h.eq]
    simp only [EpState.step, hcalls]
    cases x.calls[i]? with
    | none => exact .none
    | some call =>
      have hrun := h.runCall call
      cases hx : x.runCall call <;> cases hy : y.runCall call <;> simp only [hx, hy] at hrun ⊢
      · exact .none
      · cases hrun
      · cases hrun
      · rename_i r r'
        obtain ⟨x', call', events⟩ := r
        obtain ⟨y', call'', events'⟩ := r'
        obtain ⟨hsame, heq⟩ := Option.rel_some_some.mp hrun
        cases heq
        refine .some ⟨⟨hsame.pend, ?_⟩, rfl⟩
        exact congrArg (fun z : EpState => { z with calls := x.calls.set i call' }) hsame.rest

end EpState

end Usbip
