import Usbip.Serve.Step

/-! Who has a URB: a dispatch in progress belongs to the connection whose serve thread runs it, and
URBs are only on the endpoints that `ep_map` names for them. -/

namespace Usbip

open Lib

/-- The URB of a call of `usbip_device_dispatch` in progress. -/
def Call.dispatched : Call → Option Urb
  | .halted urb => some urb
  | .checked urb => some urb
  | .serving urb _ _ => some urb
  | .delivered urb => some urb
  | _ => none

theorem Call.not_done_of_dispatched {call : Call} {u : Urb} (h : call.dispatched = some u) :
    call ≠ .done := by
  rintro rfl
  cases h

section Entries

variable {l pre post : List Call} {c x : Call} {i : Nat}

theorem getElem?_snoc (h : (l ++ [c])[i]? = some x) :
    l[i]? = some x ∨ (i = l.length ∧ x = c) := by
  rcases Nat.lt_trichotomy i l.length with hlt | rfl | hgt
  · exact Or.inl (by rwa [List.getElem?_append_left hlt] at h)
  · simp at h
    exact Or.inr ⟨rfl, h.symm⟩
  · rw [List.getElem?_eq_none (by rw [List.length_append, List.length_singleton]; omega)] at h
    cases h

theorem getElem?_replaced (c' : Call) (h : (pre ++ c' :: post)[i]? = some x) :
    (pre ++ c :: post)[i]? = some x ∨ (i = pre.length ∧ x = c') := by
  rcases Nat.lt_trichotomy i pre.length with hlt | rfl | hgt
  · rw [List.getElem?_append_left hlt] at h ⊢
    exact Or.inl h
  · simp at h
    exact Or.inr ⟨rfl, h.symm⟩
  · obtain ⟨k, rfl⟩ := Nat.exists_eq_add_of_lt hgt
    rw [List.getElem?_append_right (by omega)] at h ⊢
    rw [show pre.length + k + 1 - pre.length = k + 1 by omega] at h ⊢
    exact Or.inl h

end Entries

theorem CallStep.dispatched {ep ep' : EpState} {call call' : Call} {events : List EpEvent}
    (h : CallStep ep call ep' call' events) {u : Urb} (hu : call'.dispatched = some u) :
    call.dispatched = some u := by
  cases h <;> first | exact hu | cases hu

theorem EpStep.dispatched {ep ep' : EpState} {a : EpAct} {events : List EpEvent}
    (h : EpStep ep a ep' events) {i : Nat} {call' : Call} {u : Urb}
    (hi : ep'.calls[i]? = some call') (hu : call'.dispatched = some u) :
    (∃ call, ep.calls[i]? = some call ∧ call.dispatched = some u) ∨
      ∃ urb, a = .dispatch urb ∧ i = ep.calls.length ∧ u.conn = urb.conn := by
  cases h with
  | dispatch urb =>
    rcases getElem?_snoc hi with hi | ⟨rfl, rfl⟩
    · exact Or.inl ⟨call', hi, hu⟩
    · refine Or.inr ⟨urb, rfl, rfl, ?_⟩
      rcases ep.entered_cases urb with he | he <;> rw [he] at hu <;> cases hu <;> rfl
  | write buf =>
    rcases getElem?_snoc hi with hi | ⟨rfl, rfl⟩
    · exact Or.inl ⟨call', hi, hu⟩
    · cases hu
  | stall =>
    rcases getElem?_snoc hi with hi | ⟨rfl, rfl⟩
    · exact Or.inl ⟨call', hi, hu⟩
    · cases hu
  | clearHalt => exact Or.inl ⟨call', hi, hu⟩
  | unlink n => exact Or.inl ⟨call', hi, hu⟩
  | @run pre post call call'' next events calls_eq step =>
    rcases getElem?_replaced (c := call) _ hi with hi | ⟨rfl, rfl⟩
    · exact Or.inl ⟨call', by rwa [calls_eq], hu⟩
    · exact Or.inl ⟨call, by simp [calls_eq], step.dispatched hu⟩

theorem EpStep.parked {ep ep' : EpState} {a : EpAct} {events : List EpEvent}
    (h : EpStep ep a ep' events) {u : Urb} (hu : u ∈ ep'.pend.urbs) :
    u ∈ ep.pend.urbs ∨ ∃ i : Nat, ep.calls[i]? = some (.checked u) := by
  cases h with
  | dispatch urb => exact Or.inl hu
  | write buf => exact Or.inl hu
  | stall => simp at hu
  | clearHalt => exact Or.inl hu
  | unlink n =>
    rw [PendQueue.unlink, PendQueue.urbs_unlinkWhere] at hu
    exact Or.inl (List.mem_of_mem_filter hu)
  | @run pre post call call' next events calls_eq step =>
    cases step with
    | feed _ popped =>
      rw [(PendQueue.pop_some popped).1]
      exact Or.inl (List.mem_cons_of_mem _ hu)
    | @park urb is_in none_queued =>
      rw [PendQueue.urbs_park, List.mem_append, List.mem_singleton] at hu
      rcases hu with hu | rfl
      · split at hu
        · cases hu
        · exact Or.inl hu
      · exact Or.inr ⟨pre.length, by simp [calls_eq]⟩
    | _ => exact Or.inl hu

/-- What a call holds, it held before, or it was parked, or the call has just begun with it. -/
theorem EpStep.held {ep ep' : EpState} {a : EpAct} {events : List EpEvent}
    (h : EpStep ep a ep' events) {i : Nat} {call' : Call} {u : Urb}
    (hi : ep'.calls[i]? = some call') (hu : u ∈ call'.holds) :
    (∃ call, ep.calls[i]? = some call ∧ u ∈ call.holds) ∨ u ∈ ep.pend.urbs ∨
      ∃ urb, a = .dispatch urb ∧ u = { urb with tag := ep.accepted } := by
  cases h with
  | dispatch urb =>
    rcases getElem?_snoc hi with hi | ⟨rfl, rfl⟩
    · exact Or.inl ⟨call', hi, hu⟩
    · rw [EpState.holds_entered, List.mem_singleton] at hu
      exact Or.inr (Or.inr ⟨urb, rfl, hu⟩)
  | write buf =>
    rcases getElem?_snoc hi with hi | ⟨rfl, rfl⟩
    · exact Or.inl ⟨call', hi, hu⟩
    · cases hu
  | stall =>
    rcases getElem?_snoc hi with hi | ⟨rfl, rfl⟩
    · exact Or.inl ⟨call', hi, hu⟩
    · exact Or.inr (Or.inl hu)
  | clearHalt => exact Or.inl ⟨call', hi, hu⟩
  | unlink n => exact Or.inl ⟨call', hi, hu⟩
  | @run pre post call call'' next events calls_eq step =>
    rcases getElem?_replaced (c := call) _ hi with hi | ⟨rfl, rfl⟩
    · exact Or.inl ⟨call', by rwa [calls_eq], hu⟩
    · rcases step.urb_mem (Or.inr hu) with hu | hu
      · exact Or.inr (Or.inl hu)
      · exact Or.inl ⟨call, by simp [calls_eq], hu⟩

section ConnStep

variable {dev : Plugged} {eps : EpId → EpState} {c : ConnId} {conn conn' : Conn} {a : ConnAct}
  {sect : Section} {sent : List DevEvent}

/-- While its call is not done, the serve thread does nothing else. -/
theorem ConnStep.inCall (h : ConnStep dev eps c conn a conn' sect sent) {e : EpId} {i : Nat}
    (hpc : conn.serving = .inCall e i) (hrun : (eps e).calls[i]? ≠ some .done) :
    conn'.serving = .inCall e i ∧ sect = none := by
  cases h <;> simp_all

theorem Conn.dispatch_section {sub : Submit} {e : EpId} {b : EpAct}
    (h : (Conn.dispatch dev eps sub).2 = some (e, b)) :
    b = .dispatch sub.urb ∧ dev.route sub.urb.ep sub.urb.direction = some e ∧
      (Conn.dispatch dev eps sub).1 = .inCall e (eps e).calls.length := by
  unfold Conn.dispatch at h ⊢
  split at h
  · cases h
  · rename_i hep
    rw [if_neg hep]
    split at h
    · cases h
    · rename_i e' hroute
      split at h
      · split at h <;> cases h
      · rename_i hiso
        cases h
        rw [if_neg hiso]
        exact ⟨rfl, hroute, rfl⟩

theorem Conn.handleControl_section {sub : Submit} {request : HaltRequest} {e : EpId} {b : EpAct}
    (h : (Conn.handleControl dev eps sub request).2 = some (e, b)) : b = .clearHalt ∨ b = .stall := by
  cases request with
  | setConfiguration => cases h
  | otherFeature => cases h
  | clearFeature addr =>
    simp only [Conn.handleControl] at h
    split at h <;> cases h
    exact Or.inl rfl
  | setFeature addr =>
    simp only [Conn.handleControl] at h
    split at h <;> cases h
    exact Or.inr rfl

/-- A serve thread dispatches the URB that it has just read, on the endpoint that `ep_map` names. -/
theorem ConnStep.dispatch_section {e : EpId} {urb : Urb}
    (h : ConnStep dev eps c conn a conn' (some (e, .dispatch urb)) sent) :
    (∃ sub : Submit, a = .submit sub ∧ urb = { sub.urb with conn := c }) ∧
      conn.serving = .idle ∧ dev.route urb.ep urb.direction = some e ∧
      conn'.serving = .inCall e (eps e).calls.length := by
  generalize hsect : (some (e, EpAct.dispatch urb) : Section) = sect at h
  cases h with
  | submit sub idle =>
    obtain ⟨hb, hroute, hserv⟩ := Conn.dispatch_section hsect.symm
    cases hb
    exact ⟨⟨sub, rfl, rfl⟩, idle, hroute, hserv⟩
  | control in_control halt =>
    rcases Conn.handleControl_section hsect.symm with hb | hb <;> cases hb
  | _ => cases hsect

/-- A serve thread unlinks on the endpoint of the slot that its walk has come to. -/
theorem ConnStep.unlink_section {e : EpId} {n : UInt32}
    (h : ConnStep dev eps c conn a conn' (some (e, .unlink n)) sent) :
    a = .serve ∧ ∃ q number dir slots, conn.serving = .unlinking q n ((number, dir) :: slots) ∧
      dev.epMap number dir = some e := by
  generalize hsect : (some (e, EpAct.unlink n) : Section) = sect at h
  cases h with
  | submit sub idle =>
    obtain ⟨hb, -⟩ := Conn.dispatch_section hsect.symm
    cases hb
  | control in_control halt =>
    rcases Conn.handleControl_section hsect.symm with hb | hb <;> cases hb
  | unlinkSlot unlinking mapped =>
    cases hsect
    exact ⟨rfl, _, _, _, _, unlinking, mapped⟩
  | _ => cases hsect

end ConnStep

namespace DevState

/-- A dispatch in progress is what the serve thread of its connection is doing. -/
def Owned (s : DevState) : Prop :=
  ∀ (e : EpId) (i : Nat) (call : Call) (u : Urb),
    (s.eps e).calls[i]? = some call → call.dispatched = some u →
    ∃ conn : Conn, s.conns[u.conn]? = some conn ∧ conn.serving = .inCall e i

/-- URBs are on the endpoints that `ep_map` names for them. -/
def Routed (dev : Plugged) (s : DevState) : Prop :=
  ∀ e, ∀ u ∈ (s.eps e).carried, dev.route u.ep u.direction = some e

@[simp] theorem new_calls (dev : Plugged) (e : EpId) : ((new dev).eps e).calls = [] := rfl
@[simp] theorem new_carried (dev : Plugged) (e : EpId) : ((new dev).eps e).carried = [] := rfl

theorem owned_new (dev : Plugged) : (new dev).Owned := by
  intro e i call u hcall
  simp at hcall

theorem routed_new (dev : Plugged) : (new dev).Routed dev := by
  intro e u hu
  simp at hu

variable {dev : Plugged} {s s' : DevState} {a : DevAct} {events : List DevEvent}

/-- A step of connection `c` keeps what the serve threads do about the dispatches in progress. -/
theorem Owned.setConn (h : s.Owned) {c : ConnId} {a : ConnAct} {conn conn' : Conn} {sect : Section}
    {sent : List DevEvent} (found : s.conns[c]? = some conn)
    (step : ConnStep dev s.eps c conn a conn' sect sent) : (s.setConn c conn').Owned := by
  intro e i call u hcall hu
  obtain ⟨conn₀, hfound, hpc⟩ := h e i call u hcall hu
  rw [setConn_conns found conn']
  split
  · rename_i hc
    rw [hc, found] at hfound
    cases hfound
    refine ⟨conn', rfl, (step.inCall hpc fun hdone => ?_).1⟩
    exact Call.not_done_of_dispatched hu (Option.some.inj (hcall.symm.trans hdone))
  · exact ⟨conn₀, hfound, hpc⟩

/-- A section on an endpoint keeps them too, when a dispatch that it begins is owned. -/
theorem Owned.onEp (h : s.Owned) {e : EpId} {b : EpAct} {ep : EpState} {events : List EpEvent}
    (sect : EpStep (s.eps e) b ep events)
    (hnew : ∀ urb, b = .dispatch urb →
      ∃ conn, s.conns[urb.conn]? = some conn ∧ conn.serving = .inCall e (s.eps e).calls.length) :
    (s.setEp e ep).Owned := by
  intro e' i call u hcall hu
  by_cases he : e' = e
  · subst he
    rw [setEp_eps_self] at hcall
    rcases sect.dispatched hcall hu with ⟨call₀, hcall₀, hu₀⟩ | ⟨urb, hb, rfl, hconn⟩
    · exact h e' i call₀ u hcall₀ hu₀
    · rw [hconn]
      exact hnew urb hb
  · rw [setEp_eps_of_ne _ _ he] at hcall
    exact h e' i call u hcall hu

theorem Owned.step (h : s.Owned) (hs : DevStep dev s a s' events) : s'.Owned := by
  cases hs with
  | connect =>
    intro e i call u hcall hu
    obtain ⟨conn, hfound, hpc⟩ := h e i call u hcall hu
    exact ⟨conn, List.getElem?_append_left (List.getElem?_eq_some_iff.mp hfound).1 ▸ hfound, hpc⟩
  | conn found step => exact h.setConn found step
  | @connEp c a conn conn' sent e b ep events found step sect =>
    refine (h.setConn found step).onEp sect fun urb hb => ?_
    subst hb
    obtain ⟨⟨sub, -, hurb⟩, -, -, hpc⟩ := step.dispatch_section
    refine ⟨conn', ?_, hpc⟩
    rw [setConn_conns found conn', hurb, if_pos rfl]
  | @app e a ep events allowed sect =>
    refine h.onEp sect fun urb ha => ?_
    subst ha
    cases allowed

theorem Routed.onEp (h : s.Routed dev) {e : EpId} {b : EpAct} {ep : EpState}
    {events : List EpEvent} (sect : EpStep (s.eps e) b ep events)
    (hnew : ∀ urb, b = .dispatch urb → dev.route urb.ep urb.direction = some e) :
    (s.setEp e ep).Routed dev := by
  intro e' u hu
  by_cases he : e' = e
  · subst he
    rw [setEp_eps_self] at hu
    rcases sect.carried hu with hu | ⟨urb, hb, rfl⟩
    · exact h e' u hu
    · exact hnew urb hb
  · rw [setEp_eps_of_ne _ _ he] at hu
    exact h e' u hu

theorem Routed.step (h : s.Routed dev) (hs : DevStep dev s a s' events) : s'.Routed dev := by
  cases hs with
  | connect => exact h
  | conn => exact h
  | @connEp c a conn conn' sent e b ep events found step sect =>
    refine Routed.onEp (s := s.setConn c conn') h sect fun urb hb => ?_
    subst hb
    exact step.dispatch_section.2.2.1
  | @app e a ep events allowed sect =>
    refine h.onEp sect fun urb ha => ?_
    subst ha
    cases allowed

end DevState

end Usbip
