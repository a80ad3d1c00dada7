import Usbip.Endpoint.Halt
import Usbip.Endpoint.Loans
import Usbip.Serve.Parked

/-! A halted IN endpoint of a plugged device.  The halt is set by the application and by
`SET_FEATURE`, and cleared by the application, by `CLEAR_FEATURE` and by `SET_CONFIGURATION`; the
serve threads dispatch and the application writes in between.  Two serve threads may have slices of
one queued buffer in hand. -/

namespace Usbip

open Lib

/-- What one event is to endpoint `e`. -/
def DevEvent.onEp (e : EpId) : DevEvent → Option EpEvent
  | .ep e' event => if e' = e then some event else none
  | _ => none

/-- The section that an action runs on endpoint `e`. -/
def DevState.sectionOn (dev : Plugged) (s : DevState) (e : EpId) : DevAct → Option EpAct
  | .connect => none
  | .conn c a =>
    match s.conns[c]?.bind fun conn => conn.step dev s.eps c a with
    | some (_, some (e', b), _) => if e' = e then some b else none
    | _ => none
  | .app e' b => if e' = e then some b else none

/-- What endpoint `e` has done so far. -/
def DevTrace.onEp (t : DevTrace) (e : EpId) : EpTrace :=
  ⟨t.dev.eps e, t.log.filterMap (DevEvent.onEp e)⟩

/-- No URB for endpoint `e` asks for 2 GiB or more, which `usbip_device_dispatch` takes for a
negative length. -/
def DevAct.SmallLength (dev : Plugged) (e : EpId) : DevAct → Prop
  | .conn _ (.submit sub) =>
    dev.route sub.urb.ep sub.urb.direction = some e → 0 ≤ int32 sub.urb.length
  | _ => True

/-- A device, what has been seen of one of its endpoints, and the dbufs of its queue. -/
structure Watched where
  trace : DevTrace
  watch : Watch
  loans : Loans

theorem filterMap_onEp_self (e : EpId) (events : List EpEvent) :
    (events.map (.ep e)).filterMap (DevEvent.onEp e) = events := by
  simp [List.filterMap_map, DevEvent.onEp, Function.comp_def]

theorem filterMap_onEp_of_ne {e e' : EpId} (h : e' ≠ e) (events : List EpEvent) :
    (events.map (.ep e')).filterMap (DevEvent.onEp e) = [] := by
  simp [List.filterMap_map, DevEvent.onEp, Function.comp_def, h]

/-- What a connection sends is no event of an endpoint. -/
theorem ConnStep.filterMap_onEp {dev : Plugged} {eps : EpId → EpState} {c : ConnId}
    {conn conn' : Conn} {a : ConnAct} {sect : Section} {sent : List DevEvent}
    (h : ConnStep dev eps c conn a conn' sect sent) (e : EpId) :
    sent.filterMap (DevEvent.onEp e) = [] := by
  cases h <;> rfl

/-- A serve thread dispatches a URB of small length, and an IN one on an IN endpoint. -/
theorem ConnStep.readsIn {dev : Plugged} {eps : EpId → EpState} {c : ConnId}
    {conn conn' : Conn} {a : ConnAct} {sent : List DevEvent} {e : EpId} {b : EpAct}
    (h : ConnStep dev eps c conn a conn' (some (e, b)) sent)
    (hin : ∀ number, dev.epMap number .usbOut ≠ some e)
    (hlen : (DevAct.conn c a).SmallLength dev e) :
    EpTrace.ReadsIn b := by
  cases b with
  | dispatch urb =>
    obtain ⟨⟨sub, rfl, rfl⟩, -, hroute, -⟩ := h.dispatch_section
    refine ⟨?_, hlen hroute⟩
    cases hdir : sub.urb.direction with
    | usbIn => rfl
    | usbOut =>
      rw [Plugged.route, hdir] at hroute
      split at hroute
      · exact absurd hroute (hin _)
      · cases hroute
  | _ => trivial

namespace DevState

variable {dev : Plugged} {s s' : DevState} {a : DevAct} {events : List DevEvent}

/-- A step of the device is nothing to endpoint `e`, or it is the section that it runs there. -/
theorem step_sectionOn (h : s.step dev a = some (s', events)) (e : EpId)
    (hin : ∀ number, dev.epMap number .usbOut ≠ some e) (hlen : a.SmallLength dev e) :
    (s.sectionOn dev e a = none ∧ s'.eps e = s.eps e ∧ events.filterMap (DevEvent.onEp e) = []) ∨
    ∃ b evs, s.sectionOn dev e a = some b ∧ EpStep (s.eps e) b (s'.eps e) evs ∧
      events.filterMap (DevEvent.onEp e) = evs ∧ EpTrace.ReadsIn b := by
  cases a with
  | connect =>
    cases h
    exact .inl ⟨rfl, rfl, rfl⟩
  | conn c a =>
    simp only [step] at h
    split at h
    · cases h
    · rename_i conn hfound
      split at h
      · cases h
      · rename_i conn' sect sent hstep
        obtain ⟨⟨s'', events'⟩, hrun, heq⟩ := Option.map_eq_some_iff.mp h
        cases heq
        have hconn := Conn.step_step hstep
        have hsent := hconn.filterMap_onEp e
        have hsect : s.sectionOn dev e (.conn c a) =
            sect.bind fun sect => if sect.1 = e then some sect.2 else none := by
          rw [sectionOn, hfound, Option.bind_some, hstep]
          cases sect <;> rfl
        cases sect with
        | none =>
          cases hrun
          exact .inl ⟨hsect, rfl, hsent⟩
        | some sect =>
          obtain ⟨e', b⟩ := sect
          obtain ⟨⟨ep, evs⟩, hep, heq⟩ := Option.map_eq_some_iff.mp hrun
          cases heq
          by_cases he : e' = e
          · subst he
            refine .inr ⟨b, evs, by simp [hsect], ?_, ?_, hconn.readsIn hin hlen⟩
            · rw [setEp_eps_self]
              exact EpState.step_step hep
            · rw [List.filterMap_append, filterMap_onEp_self, hsent, List.append_nil]
          · refine .inl ⟨by simp [hsect, he], setEp_eps_of_ne _ _ (Ne.symm he), ?_⟩
            rw [List.filterMap_append, filterMap_onEp_of_ne he, hsent, List.append_nil]
  | app e' b =>
    simp only [step] at h
    split at h
    · rename_i hallowed
      obtain ⟨⟨ep, evs⟩, hep, heq⟩ := Option.map_eq_some_iff.mp h
      cases heq
      by_cases he : e' = e
      · subst he
        refine .inr ⟨b, evs, if_pos rfl, ?_, filterMap_onEp_self _ _, ?_⟩
        · rw [setEp_eps_self]
          exact EpState.step_step hep
        · cases b with
          | dispatch => cases hallowed
          | _ => trivial
      · exact .inl ⟨if_neg he, setEp_eps_of_ne _ _ (Ne.symm he), filterMap_onEp_of_ne he _⟩
    · cases h

end DevState

namespace Watched

def new (dev : Plugged) : Watched := ⟨.new dev, .new, .new⟩

def step (dev : Plugged) (e : EpId) (t : Watched) (a : DevAct) : Option Watched :=
  (t.trace.step dev a).map fun trace =>
    { trace
      watch := match t.trace.dev.sectionOn dev e a with
        | some b => t.watch.next (t.trace.dev.eps e) b
        | none => t.watch
      loans := match t.trace.dev.sectionOn dev e a with
        | some b => t.loans.next (t.trace.dev.eps e) b
        | none => t.loans }

/-- A dispatch on endpoint `e` that has found it not halted does not go on while it is. -/
def NoStaleCheck (dev : Plugged) (e : EpId) (t : Watched) (a : DevAct) : Prop :=
  ∀ b, t.trace.dev.sectionOn dev e a = some b → (t.trace.onEp e).NoStaleCheck b

/-- A dispatch does not free a dbuf of endpoint `e` that another has a slice of. -/
def FreesNoLoan (dev : Plugged) (e : EpId) (t : Watched) (a : DevAct) : Prop :=
  ∀ b, t.trace.dev.sectionOn dev e a = some b → (t.trace.dev.eps e).FreesNoLoan t.loans b

/-- The halt is kept, and the bytes that are to be sent are not freed. -/
structure HaltKept (e : EpId) (t : Watched) : Prop where
  kept : (t.trace.onEp e).HaltKept t.watch
  allocated : (t.trace.dev.eps e).Allocated t.loans

structure HaltInv (e : EpId) (t : Watched) : Prop where
  kept : (t.trace.onEp e).HaltInv t.watch
  loans : (t.trace.dev.eps e).LoanInv t.loans

variable {dev : Plugged} {e : EpId} {t t' : Watched} {a : DevAct}

theorem haltInv_new (dev : Plugged) (e : EpId) : (new dev).HaltInv e :=
  ⟨EpTrace.halt_inv_new (dev.onOut e), EpState.loan_inv_new (dev.onOut e)⟩

/-- A step of the watched device is nothing to endpoint `e`, or it is one of its steps. -/
theorem step_onEp (h : t.step dev e a = some t')
    (hin : ∀ number, dev.epMap number .usbOut ≠ some e) (hlen : a.SmallLength dev e) :
    (t.trace.dev.sectionOn dev e a = none ∧ t'.trace.onEp e = t.trace.onEp e ∧
      t'.watch = t.watch ∧ t'.loans = t.loans) ∨
    ∃ b ep' evs, t.trace.dev.sectionOn dev e a = some b ∧
      EpStep (t.trace.onEp e).ep b ep' evs ∧
      t'.trace.onEp e = ⟨ep', (t.trace.onEp e).log ++ evs⟩ ∧
      t'.watch = t.watch.next (t.trace.onEp e).ep b ∧
      t'.loans = t.loans.next (t.trace.onEp e).ep b ∧ EpTrace.ReadsIn b := by
  obtain ⟨trace, htrace, rfl⟩ := Option.map_eq_some_iff.mp h
  obtain ⟨events, hstep, hlog⟩ := DevTrace.step_some htrace
  have honEp : trace.onEp e = ⟨trace.dev.eps e,
      (t.trace.onEp e).log ++ events.filterMap (DevEvent.onEp e)⟩ := by
    rw [DevTrace.onEp, hlog, List.filterMap_append]
    rfl
  rcases DevState.step_sectionOn hstep e hin hlen with
    ⟨hnone, hsame, hevents⟩ | ⟨b, evs, hsome, hep, hevents, hread⟩
  · refine .inl ⟨hnone, ?_, by rw [hnone], by rw [hnone]⟩
    rw [honEp, hevents, List.append_nil, hsame]
    rfl
  · exact .inr ⟨b, _, evs, hsome, hep, by rw [honEp, hevents], by rw [hsome]; rfl,
      by rw [hsome]; rfl, hread⟩

theorem HaltInv.step (h : t.HaltInv e) (hin : ∀ number, dev.epMap number .usbOut ≠ some e)
    (hlen : a.SmallLength dev e) (hc : t.NoStaleCheck dev e a ∧ t.FreesNoLoan dev e a)
    (hs : t.step dev e a = some t') : t'.HaltInv e := by
  rcases step_onEp hs hin hlen with
    ⟨-, htrace, hwatch, hloans⟩ | ⟨b, ep', evs, hsect, hep, htrace, hwatch, hloans, hread⟩
  · have heps : t'.trace.dev.eps e = t.trace.dev.eps e := congrArg EpTrace.ep htrace
    refine ⟨?_, ?_⟩
    · rw [htrace, hwatch]
      exact h.kept
    · rw [heps, hloans]
      exact h.loans
  · have heps : t'.trace.dev.eps e = ep' := congrArg EpTrace.ep htrace
    refine ⟨?_, ?_⟩
    · rw [htrace, hwatch]
      exact EpTrace.HaltInv.step h.kept hread (hc.1 b hsect) hep
    · rw [heps, hloans]
      exact EpState.LoanInv.step h.loans (hc.2 b hsect) hep

theorem HaltInv.break_ (h : t.HaltInv e) (hin : ∀ number, dev.epMap number .usbOut ≠ some e)
    (hlen : a.SmallLength dev e) (hc : ¬(t.NoStaleCheck dev e a ∧ t.FreesNoLoan dev e a))
    (hs : t.step dev e a = some t') : ¬t'.HaltKept e := by
  rintro ⟨hkept, hallocated⟩
  rcases step_onEp hs hin hlen with
    ⟨hnone, -⟩ | ⟨b, ep', evs, hsect, hep, htrace, hwatch, hloans, -⟩
  · refine hc ⟨fun b hb => ?_, fun b hb => ?_⟩ <;> cases hnone.symm.trans hb
  · have heps : t'.trace.dev.eps e = ep' := congrArg EpTrace.ep htrace
    rcases not_and_or.mp hc with hstale | hfree
    · refine hstale fun b' hb' => ?_
      cases hsect.symm.trans hb'
      by_contra hnot
      rw [htrace, hwatch] at hkept
      exact EpTrace.HaltInv.break_ h.kept hnot hep hkept
    · refine hfree fun b' hb' => ?_
      cases hsect.symm.trans hb'
      by_contra hnot
      rw [heps, hloans] at hallocated
      exact EpState.LoanInv.break_ h.loans hnot hep hallocated

/-- In every run of a device with an IN endpoint, no URB is parked on it or served by it while it is
halted, every URB dispatched then is stalled, its queue keeps all bytes in order, and what is to be
sent is not freed, if and only if no dispatch that has found it not halted goes on while it is, and
none frees a queued buffer that another dispatch has a slice of. -/
theorem halt_kept_iff_no_stale_check {acts : List DevAct}
    (hin : ∀ number, dev.epMap number .usbOut ≠ some e) (hlen : ∀ a ∈ acts, a.SmallLength dev e)
    (h : exec (Watched.step dev e) (.new dev) acts = some t) :
    Throughout (Watched.step dev e) (HaltKept e) (.new dev) acts ↔
      Guarded (Watched.step dev e) (fun t a => t.NoStaleCheck dev e a ∧ t.FreesNoLoan dev e a)
        (.new dev) acts :=
  throughout_iff_guarded_of (D := fun _ a => a.SmallLength dev e)
    (fun _ hi => ⟨hi.kept.kept, hi.loans.allocated⟩)
    (fun _ _ _ hi hD hC hs => HaltInv.step hi hin hD hC hs)
    (fun _ _ _ hi hD hC hs => HaltInv.break_ hi hin hD hC hs) (haltInv_new dev e)
    (.of_forall hlen _) h

/-- A URB is dispatched, and the application stalls the endpoint between the two sections of the
dispatch. -/
def staleRun : List DevAct :=
  [.connect, .conn 0 (.submit (.bulkIn 1 64)), .app 0 .stall, .app 0 (.run 0)]

/-- After `staleRun` the endpoint is halted, and a URB is parked on it. -/
theorem halt_kept_fails : ¬∀ acts t, exec (Watched.step .oneIn 0) (.new .oneIn) acts = some t →
    Throughout (Watched.step .oneIn 0) (HaltKept 0) (.new .oneIn) acts := by
  intro h
  have hrun : ((exec (Watched.step .oneIn 0) (.new .oneIn) staleRun).map fun t =>
      decide ((t.trace.dev.eps 0).halted = true ∧ (t.trace.dev.eps 0).pend.urbs.length = 1)) =
      some true := by decide
  obtain ⟨t, ht, hend⟩ := Option.map_eq_some_iff.mp hrun
  obtain ⟨hhalt, hlen⟩ := of_decide_eq_true hend
  have hkept := (h staleRun t ht).last ht
  have hnone : (t.trace.dev.eps 0).pend.urbs = [] := hkept.kept.parked hhalt
  rw [hnone] at hlen
  cases hlen

/-- The halt is set with a URB parked, a URB is refused, bytes are queued, and after the clear
the next URB is served. -/
def haltRun : List DevAct :=
  [.connect, .conn 0 (.submit (.bulkIn 1 64)), .app 0 (.run 0), .conn 0 .serve,
    .app 0 .stall, .app 0 (.run 1), .app 0 (.run 1),
    .conn 0 (.submit (.bulkIn 2 64)), .app 0 (.run 2), .conn 0 .serve,
    .app 0 (.write [7, 8]), .app 0 (.run 3), .app 0 .clearHalt,
    .conn 0 (.submit (.bulkIn 3 64)), .app 0 (.run 4), .app 0 (.run 4), .conn 0 .serve]

theorem halt_kept_on_haltRun :
    Throughout (Watched.step .oneIn 0) (HaltKept 0) (.new .oneIn) haltRun ↔
      Guarded (Watched.step .oneIn 0)
        (fun t a => t.NoStaleCheck .oneIn 0 a ∧ t.FreesNoLoan .oneIn 0 a) (.new .oneIn) haltRun := by
  have hrun : (exec (Watched.step .oneIn 0) (.new .oneIn) haltRun).isSome = true := by decide
  obtain ⟨t, ht⟩ := Option.isSome_iff_exists.mp hrun
  refine halt_kept_iff_no_stale_check (fun number => by simp [Plugged.oneIn]) ?_ ht
  simp [haltRun, DevAct.SmallLength, Submit.bulkIn, Urb.bulkIn, int32_eq]

end Watched

end Usbip
