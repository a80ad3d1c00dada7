import Usbip.Serve.Owner

/-! Parked URBs and the connections they came from.  `serve_conn` drains the pacer before it
returns, but it leaves the pending lists of the endpoints as they are. -/

namespace Usbip

open Lib

section ConnStep

variable {dev : Plugged} {eps : EpId → EpState} {c : ConnId} {conn conn' : Conn} {a : ConnAct}
  {sect : Section} {sent : List DevEvent}

theorem Conn.dispatch_not_returned (sub : Submit) :
    (Conn.dispatch dev eps sub).1 ≠ .returned := by
  unfold Conn.dispatch
  repeat' split
  all_goals simp

theorem Conn.handleControl_not_returned (sub : Submit) (request : HaltRequest) :
    (Conn.handleControl dev eps sub request).1 ≠ .returned := by
  cases request <;> simp only [Conn.handleControl, Serving.ack] <;> (try split) <;> simp

/-- `serve_conn` returns only from `usbip_device_pacer_stop`. -/
theorem ConnStep.not_returned (h : ConnStep dev eps c conn a conn' sect sent)
    (hlive : conn.serving ≠ .returned) (hfin : ¬(a = .serve ∧ conn.serving = .closing)) :
    conn'.serving ≠ .returned := by
  cases h with
  | submit sub => exact Conn.dispatch_not_returned _
  | control => exact Conn.handleControl_not_returned _ _
  | finish closing => exact absurd ⟨rfl, closing⟩ hfin
  | pacerSend => exact hlive
  | pacerPop => exact hlive
  | _ => simp [Serving.ack]

theorem ConnStep.stays_returned (h : ConnStep dev eps c conn a conn' sect sent)
    (hret : conn.serving = .returned) : conn'.serving = .returned := by
  cases h <;> simp_all

theorem ConnStep.returned_of_closing (h : ConnStep dev eps c conn .serve conn' sect sent)
    (hpc : conn.serving = .closing) : conn'.serving = .returned := by
  cases h <;> simp_all

end ConnStep

namespace DevState

/-- The serve thread of the connection is where `pc` says. -/
def At (s : DevState) (c : ConnId) (pc : Serving) : Prop :=
  s.conns[c]?.map Conn.serving = some pc

instance (s : DevState) (c : ConnId) (pc : Serving) : Decidable (s.At c pc) :=
  inferInstanceAs (Decidable (_ = _))

theorem at_iff {s : DevState} {c : ConnId} {pc : Serving} :
    s.At c pc ↔ ∃ conn, s.conns[c]? = some conn ∧ conn.serving = pc := Option.map_eq_some_iff

/-- The connection is being served: it has been accepted, and `serve_conn` has not returned. -/
def Served (s : DevState) (c : ConnId) : Prop :=
  ∃ conn, s.conns[c]? = some conn ∧ conn.serving ≠ .returned

/-- Every parked entry refers to a connection that is still being served. -/
def ParkedServed (s : DevState) : Prop :=
  ∀ e, ∀ u ∈ (s.eps e).pend.urbs, s.Served u.conn

end DevState

/-- When `serve_conn` returns, no pending list has an entry of its connection. -/
def FinishUnparked (dev : Plugged) (t : DevTrace) : DevAct → Prop
  | .conn c .serve =>
    t.dev.At c .closing → ∀ e ∈ dev.routed, ∀ u ∈ (t.dev.eps e).pend.urbs, u.conn ≠ c
  | _ => True

instance (dev : Plugged) (t : DevTrace) : DecidablePred (FinishUnparked dev t)
  | .conn _ .serve => inferInstanceAs (Decidable (_ → _))
  | .conn _ (.submit _) | .conn _ (.unlink ..) | .conn _ .disconnect | .conn _ (.handler ..)
  | .conn _ (.fill ..) | .conn _ (.pacer _) | .connect | .app .. => isTrue trivial

namespace DevState

variable {dev : Plugged} {s s' : DevState} {a : DevAct} {events : List DevEvent} {c : ConnId}

theorem Served.step (h : s.Served c) (hs : DevStep dev s a s' events)
    (hfin : ¬(a = .conn c .serve ∧ s.At c .closing)) : s'.Served c := by
  obtain ⟨conn, hfound, hlive⟩ := h
  have stays : ∀ {c' : ConnId} {b : ConnAct} {conn₀ conn' : Conn} {sect sent},
      s.conns[c']? = some conn₀ → ConnStep dev s.eps c' conn₀ b conn' sect sent →
      a = .conn c' b → (s.setConn c' conn').Served c := by
    intro c' b conn₀ conn' sect sent found step ha
    by_cases hc : c = c'
    · subst hc
      obtain rfl : conn₀ = conn := Option.some.inj (found.symm.trans hfound)
      refine ⟨conn', by rw [setConn_conns found, if_pos rfl], step.not_returned hlive ?_⟩
      rintro ⟨rfl, hpc⟩
      exact hfin ⟨ha, at_iff.mpr ⟨_, found, hpc⟩⟩
    · exact ⟨conn, by rw [setConn_conns found, if_neg hc, hfound], hlive⟩
  cases hs with
  | connect =>
    exact ⟨conn, List.getElem?_append_left (List.getElem?_eq_some_iff.mp hfound).1 ▸ hfound, hlive⟩
  | conn found step => exact stays found step rfl
  | connEp found step sect => exact stays found step rfl
  | app => exact ⟨conn, hfound, hlive⟩

theorem Returned.step (h : s.At c .returned) (hs : DevStep dev s a s' events) :
    s'.At c .returned := by
  obtain ⟨conn, hfound, hret⟩ := at_iff.mp h
  have stays : ∀ {c' : ConnId} {b : ConnAct} {conn₀ conn' : Conn} {sect sent},
      s.conns[c']? = some conn₀ → ConnStep dev s.eps c' conn₀ b conn' sect sent →
      (s.setConn c' conn').At c .returned := by
    intro c' b conn₀ conn' sect sent found step
    rw [at_iff, setConn_conns found]
    by_cases hc : c = c'
    · subst hc
      obtain rfl : conn₀ = conn := Option.some.inj (found.symm.trans hfound)
      exact ⟨conn', if_pos rfl, step.stays_returned hret⟩
    · exact ⟨conn, by rw [if_neg hc, hfound], hret⟩
  cases hs with
  | connect =>
    exact at_iff.mpr ⟨conn,
      List.getElem?_append_left (List.getElem?_eq_some_iff.mp hfound).1 ▸ hfound, hret⟩
  | conn found step => exact stays found step
  | connEp found step sect => exact stays found step
  | app => exact h

theorem Served.not_returned (h : s.Served c) : ¬s.At c .returned := by
  obtain ⟨conn, hfound, hlive⟩ := h
  intro hret
  obtain ⟨conn', hfound', hret⟩ := at_iff.mp hret
  obtain rfl : conn' = conn := Option.some.inj (hfound'.symm.trans hfound)
  exact hlive hret

theorem Owned.served (h : s.Owned) {e : EpId} {i : Nat} {call : Call} {u : Urb}
    (hcall : (s.eps e).calls[i]? = some call) (hu : call.dispatched = some u) :
    s.Served u.conn := by
  obtain ⟨conn, hfound, hpc⟩ := h e i call u hcall hu
  exact ⟨conn, hfound, by rw [hpc]; simp⟩

/-- A device step seen from one endpoint: nothing, or one section. A dispatch is of a URB that an
idle serve thread has just read, and an unlink comes from a serve thread whose walk has reached the
endpoint. -/
theorem epStep_of_devStep (hs : DevStep dev s a s' events) (e : EpId) :
    s'.eps e = s.eps e ∨ ∃ b evs, EpStep (s.eps e) b (s'.eps e) evs ∧
      (∀ urb, b = .dispatch urb → s.At urb.conn .idle) ∧
      ∀ n, b = .unlink n → ∃ c q slots, a = .conn c .serve ∧ s.At c (.unlinking q n slots) ∧
        e ∈ dev.mapped (slots.take 1) := by
  cases hs with
  | connect => exact Or.inl rfl
  | conn => exact Or.inl rfl
  | @connEp c a conn conn' sent e' b ep events found step sect =>
    by_cases he : e = e'
    · subst he
      refine Or.inr ⟨b, events, by rwa [setEp_eps_self], fun urb hb => ?_, fun n hb => ?_⟩
      · subst hb
        obtain ⟨⟨sub, -, rfl⟩, idle, -⟩ := step.dispatch_section
        exact at_iff.mpr ⟨conn, found, idle⟩
      · subst hb
        obtain ⟨rfl, q, number, dir, slots, hpc, hmap⟩ := step.unlink_section
        refine ⟨c, q, _, rfl, at_iff.mpr ⟨conn, found, hpc⟩, ?_⟩
        exact List.mem_filterMap.mpr ⟨(number, dir), List.mem_cons_self, hmap⟩
    · exact Or.inl (setEp_eps_of_ne _ _ he)
  | @app e' b ep events allowed sect =>
    by_cases he : e = e'
    · subst he
      refine Or.inr ⟨b, events, by rwa [setEp_eps_self], fun urb hb => ?_, fun n hb => ?_⟩ <;>
        (subst hb; cases allowed)
    · exact Or.inl (setEp_eps_of_ne _ _ he)

/-- The part of a run's state that says whose URBs are parked. -/
structure ParkedInv (dev : Plugged) (t : DevTrace) : Prop where
  owned : t.dev.Owned
  routed : t.dev.Routed dev
  served : t.dev.ParkedServed

theorem parkedInv_new (dev : Plugged) : ParkedInv dev (.new dev) where
  owned := owned_new dev
  routed := routed_new dev
  served := by
    intro e u hu
    exact absurd hu (by simp [DevTrace.new, DevState.new, EpState.new])

theorem ParkedInv.step {t t' : DevTrace} (h : ParkedInv dev t) (hc : FinishUnparked dev t a)
    (hs : t.step dev a = some t') : ParkedInv dev t' := by
  obtain ⟨events, hstep, -⟩ := DevTrace.step_some hs
  have hdev := step_step hstep
  refine ⟨h.owned.step hdev, h.routed.step hdev, fun e u hu => ?_⟩
  -- the connection was served before the step: the URB was parked, or in a dispatch
  have hwas : t.dev.Served u.conn ∧ (u ∈ (t.dev.eps e).pend.urbs ∨
      ∃ i : Nat, (t.dev.eps e).calls[i]? = some (.checked u)) := by
    rcases epStep_of_devStep hdev e with heq | ⟨b, evs, hep, -⟩
    · rw [heq] at hu
      exact ⟨h.served e u hu, Or.inl hu⟩
    · rcases hep.parked hu with hu | ⟨i, hi⟩
      · exact ⟨h.served e u hu, Or.inl hu⟩
      · exact ⟨h.owned.served hi rfl, Or.inr ⟨i, hi⟩⟩
  refine hwas.1.step hdev ?_
  rintro ⟨rfl, hclosing⟩
  rcases hwas.2 with hparked | ⟨i, hi⟩
  · have hrouted := Plugged.route_routed (h.routed e u (EpState.carried_of_parked hparked))
    exact hc hclosing e hrouted u hparked rfl
  · obtain ⟨conn, hfound, hpc⟩ := h.owned e i _ u hi rfl
    obtain ⟨conn', hfound', hpc'⟩ := at_iff.mp hclosing
    obtain rfl : conn = conn' := Option.some.inj (hfound.symm.trans hfound')
    rw [hpc] at hpc'
    cases hpc'

/-- A `serve_conn` that returns with an entry of its connection parked leaves it parked. -/
theorem ParkedInv.break_ {t t' : DevTrace} (hc : ¬FinishUnparked dev t a)
    (hs : t.step dev a = some t') : ¬t'.dev.ParkedServed := by
  obtain ⟨events, hstep, -⟩ := DevTrace.step_some hs
  obtain ⟨s', log'⟩ := t'
  have hdev := step_step hstep
  unfold FinishUnparked at hc
  split at hc
  · rename_i c
    simp only [not_forall, not_not] at hc
    obtain ⟨hclosing, e, -, u, hu, hconn⟩ := hc
    obtain ⟨conn, hfound, hpc⟩ := at_iff.mp hclosing
    have hsame : s'.eps = t.dev.eps ∧ s'.At c .returned := by
      cases hdev with
      | @conn _ _ conn₀ conn' sent found step =>
        obtain rfl : conn₀ = conn := Option.some.inj (found.symm.trans hfound)
        exact ⟨rfl, at_iff.mpr ⟨conn', (setConn_conns found conn' c).trans (if_pos rfl),
          step.returned_of_closing hpc⟩⟩
      | @connEp _ _ conn₀ conn' sent e' b ep events found step sect =>
        obtain rfl : conn₀ = conn := Option.some.inj (found.symm.trans hfound)
        generalize hsect : (some (e', b) : Section) = sct at step
        cases step <;> simp_all
    intro hserved
    refine Served.not_returned (hserved e u (hsame.1 ▸ hu)) ?_
    rw [hconn]
    exact hsame.2
  · exact (hc trivial).elim

end DevState

/-! ### What later calls can consume -/

/-- `c` has returned and nothing of it is parked; calls that began after the first `n e` on each
endpoint have none of its URBs. -/
structure DevState.Gone (c : ConnId) (n : EpId → Nat) (s : DevState) : Prop where
  owned : s.Owned
  returned : s.At c .returned
  parked : ∀ e, ∀ u ∈ (s.eps e).pend.urbs, u.conn ≠ c
  later : ∀ (e : EpId) (i : Nat) (call : Call), n e ≤ i → (s.eps e).calls[i]? = some call →
    ∀ u ∈ call.holds, u.conn ≠ c

theorem DevState.Gone.step {dev : Plugged} {s s' : DevState} {a : DevAct}
    {events : List DevEvent} {c : ConnId} {n : EpId → Nat} (h : s.Gone c n)
    (hs : DevStep dev s a s' events) : s'.Gone c n where
  owned := h.owned.step hs
  returned := Returned.step h.returned hs
  parked e u hu := by
    rcases epStep_of_devStep hs e with heq | ⟨b, evs, hep, -⟩
    · rw [heq] at hu
      exact h.parked e u hu
    · rcases hep.parked hu with hu | ⟨i, hi⟩
      · exact h.parked e u hu
      · rintro rfl
        exact (h.owned.served hi rfl).not_returned h.returned
  later e i call hn hi u hu := by
    rcases epStep_of_devStep hs e with heq | ⟨b, evs, hep, hidle, -⟩
    · rw [heq] at hi
      exact h.later e i call hn hi u hu
    · rcases hep.held hi hu with ⟨call₀, hi₀, hu₀⟩ | hparked | ⟨urb, rfl, rfl⟩
      · exact h.later e i call₀ hn hi₀ u hu₀
      · exact h.parked e u hparked
      · rintro rfl
        have := (hidle urb rfl).symm.trans h.returned
        cases this

/-- A call that begins after `serve_conn` for a connection has returned never gets hold of a URB of
that connection: whatever is written then goes to other connections or stays queued. -/
def LaterCallsSpare (dev : Plugged) (acts : List DevAct) : Prop :=
  ∀ before after t t', acts = before ++ after →
    exec (DevTrace.step dev) (.new dev) before = some t →
    exec (DevTrace.step dev) t after = some t' →
    ∀ c, t.dev.At c .returned → ∀ (e : EpId) (i : Nat) (call : Call),
      (t.dev.eps e).calls.length ≤ i → (t'.dev.eps e).calls[i]? = some call →
      ∀ u ∈ call.holds, u.conn ≠ c

namespace DevTrace

variable {dev : Plugged}

/-- In every run, parked entries refer to connections that are served, and later writes spare the
connections that are gone, if and only if no `serve_conn` returns with an entry of its connection
parked. -/
theorem parked_served_iff_finish_unparked {acts : List DevAct} {t : DevTrace}
    (h : exec (DevTrace.step dev) (.new dev) acts = some t) :
    (Throughout (DevTrace.step dev) (fun t => t.dev.ParkedServed) (.new dev) acts ∧
      LaterCallsSpare dev acts) ↔
    Guarded (DevTrace.step dev) (FinishUnparked dev) (.new dev) acts := by
  have hiff := throughout_iff_guarded (I := DevState.ParkedInv dev) (fun _ hi => hi.served)
    (fun _ _ _ hi hc hs => hi.step hc hs) (fun _ _ _ _ hc hs => DevState.ParkedInv.break_ hc hs)
    (DevState.parkedInv_new dev) h
  rw [← hiff, and_iff_left_iff_imp]
  rintro hserved before after t₀ t' rfl hbefore hafter c hret
  have hinv : DevState.ParkedInv dev t₀ := guarded_invariant
    (fun _ _ _ hi hc hs => hi.step hc hs) (DevState.parkedInv_new dev)
    (hiff.mp hserved).left_of_append hbefore
  have hgone : t₀.dev.Gone c fun e => (t₀.dev.eps e).calls.length :=
    { owned := hinv.owned
      returned := hret
      parked := by
        rintro e u hu rfl
        exact (hinv.served e u hu).not_returned hret
      later := by
        intro e i call hn hi
        rw [List.getElem?_eq_none hn] at hi
        cases hi }
  have hlast := exec_invariant (I := fun t : DevTrace =>
    t.dev.Gone c fun e => (t₀.dev.eps e).calls.length) (fun _ _ _ hi hs =>
      let ⟨_, hstep, _⟩ := step_some hs
      hi.step (DevState.step_step hstep)) hgone hafter
  exact fun e i call hn hi => hlast.later e i call hn hi

/-- A host attaches, submits an IN URB that is parked, and detaches. -/
def detachRun : List DevAct :=
  [.connect, .conn 0 (.submit (.bulkIn 1 64)), .app 0 (.run 0), .conn 0 .serve,
    .conn 0 .disconnect, .conn 0 .serve]

/-- Another host attaches and submits its first URB, and the application writes a byte. -/
def reattachRun : List DevAct :=
  [.connect, .conn 1 (.submit (.bulkIn 1 64)), .app 0 (.run 1), .conn 1 .serve,
    .app 0 (.write [7]), .app 0 (.run 2)]

/-- After `detachRun`, the write of `reattachRun` takes up the URB of the host that is gone. -/
theorem later_calls_spare_fails : ¬∀ acts t,
    exec (DevTrace.step .oneIn) (.new .oneIn) acts = some t →
      Throughout (DevTrace.step .oneIn) (fun t => t.dev.ParkedServed) (.new .oneIn) acts ∧
        LaterCallsSpare .oneIn acts := by
  intro h
  have hrun : ((exec (DevTrace.step .oneIn) (.new .oneIn) detachRun).bind fun t =>
      (exec (DevTrace.step .oneIn) t reattachRun).map fun t' =>
        decide (t.dev.At 0 .returned ∧ (t.dev.eps 0).calls.length ≤ 2 ∧
          (t'.dev.eps 0).calls[2]?.map (fun call => call.holds.map Urb.conn) = some [0])) =
      some true := by decide
  obtain ⟨t, ht, hrun⟩ := Option.bind_eq_some_iff.mp hrun
  obtain ⟨t', ht', hend⟩ := Option.map_eq_some_iff.mp hrun
  obtain ⟨hret, hlen, hcall⟩ := of_decide_eq_true hend
  obtain ⟨call, hcall, hholds⟩ := Option.map_eq_some_iff.mp hcall
  obtain ⟨u, hu, hconn⟩ := List.mem_map.mp (hholds ▸ List.mem_singleton_self 0)
  have hwhole : exec (DevTrace.step .oneIn) (.new .oneIn) (detachRun ++ reattachRun) = some t' := by
    rw [exec_append, ht, Option.bind_some, ht']
  exact (h _ t' hwhole).2 _ _ t t' rfl ht ht' 0 hret 0 2 call hlen hcall u hu hconn

/-- A run in which the parked URB is fed before the host detaches. -/
def fedRun : List DevAct :=
  [.connect, .conn 0 (.submit (.bulkIn 1 64)), .app 0 (.run 0), .conn 0 .serve,
    .app 0 (.write [7]), .app 0 (.run 1), .app 0 (.run 1), .app 0 (.run 1),
    .conn 0 .disconnect, .conn 0 .serve]

theorem parked_served_iff_on_fedRun :
    (Throughout (DevTrace.step .oneIn) (fun t => t.dev.ParkedServed) (.new .oneIn) fedRun ∧
      LaterCallsSpare .oneIn fedRun) ↔
    Guarded (DevTrace.step .oneIn) (FinishUnparked .oneIn) (.new .oneIn) fedRun := by
  have hrun : (exec (DevTrace.step .oneIn) (.new .oneIn) fedRun).isSome = true := by decide
  obtain ⟨t, ht⟩ := Option.isSome_iff_exists.mp hrun
  exact parked_served_iff_finish_unparked ht

end DevTrace

end Usbip
