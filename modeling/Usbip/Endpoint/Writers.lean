import Mathlib.Data.List.Permutation
import Usbip.Endpoint.Stream

/-! Any number of threads that write to one IN endpoint.  A write that feeds a parked URB releases
`ep->lock` while it sends, so that another write may have its section then.  As long as no write
has its first section while another is midway, the endpoint does what it does for one writer: a
write that waits is one that this writer has still to begin. -/

namespace Usbip

open Lib

namespace Call

/-- A write of some bytes that has not had its first section. -/
def isFresh : Call → Bool
  | .write src remaining none => src.off = 0 ∧ 0 < remaining
  | _ => false

/-- A write that has had its first section, with bytes that it has neither sent nor queued. -/
def isMidway : Call → Bool
  | .write _ _ (some _) => true
  | .write src remaining none => src.off ≠ 0 ∧ 0 < remaining
  | _ => false

/-- A call that has begun and still has something to do: a write is midway, a dispatch or a stall
is not over. -/
def isActive : Call → Bool
  | .write src remaining held => (Call.write src remaining held).isMidway
  | .done => false
  | _ => true

theorem isMidway_of_active_write {c : Call} (ha : c.isActive) (hw : c.isWrite) : c.isMidway := by
  cases c <;> simp_all [isWrite, isActive]

theorem not_isActive_of_isFresh {c : Call} (h : c.isFresh) : ¬c.isActive := by
  cases c with
  | write src remaining held => cases held <;> simp_all [isFresh, isActive, isMidway]
  | _ => simp [isFresh] at h

theorem inHand_of_idle {c : Call} (h : ¬c.isActive) : c.inHand = [] := by
  cases c <;> simp_all [isActive, inHand]

/-- A call that is neither waiting to begin nor active has nothing left to send. -/
theorem unsent_of_idle {c : Call} (h : ¬c.isActive) (hf : ¬c.isFresh) : c.unsent = [] := by
  cases c with
  | write src remaining held =>
    cases held with
    | some held => simp [isActive, isMidway] at h
    | none =>
      have hle : remaining ≤ 0 := by
        simp [isActive, isMidway, isFresh] at h hf
        by_cases hoff : src.off = 0
        · exact hf hoff
        · exact h hoff
      simp [unsent, Slice.bytes, Int.toNat_of_nonpos hle]
  | _ => rfl

end Call

/-- One connection's serve thread dispatches IN URBs that ask for some bytes, one after the
other. -/
def OneReader (t : EpTrace) : EpAct → Prop
  | .dispatch urb =>
    urb.direction = .usbIn ∧ 0 < int32 urb.length ∧ ∀ call ∈ t.ep.calls, ¬call.isDispatch
  | _ => True

instance (t : EpTrace) : DecidablePred (OneReader t)
  | .dispatch _ => inferInstanceAs (Decidable (_ ∧ _ ∧ _))
  | .write _ | .stall | .clearHalt | .unlink _ | .run _ => isTrue trivial

/-- There is one reader, and a write has its first section only while no other write is midway. -/
def WritersInTurn (t : EpTrace) : EpAct → Prop
  | .run i => t.ep.calls[i]?.any Call.isFresh → ∀ call ∈ t.ep.calls, ¬call.isMidway
  | a => OneReader t a

instance (t : EpTrace) : DecidablePred (WritersInTurn t)
  | .run _ => inferInstanceAs (Decidable (_ → _))
  | .dispatch urb => inferInstanceAs (Decidable (OneReader t (.dispatch urb)))
  | .write _ | .stall | .clearHalt | .unlink _ => isTrue trivial

/-- The buffer of a call of `usbip_device_write`. -/
def EpEvent.buffer : EpEvent → Option (List UInt8)
  | .written buf => some buf
  | _ => none

theorem EpEvent.flatMap_wrote (log : List EpEvent) :
    log.flatMap EpEvent.wrote = (log.filterMap EpEvent.buffer).flatten := by
  induction log with
  | nil => rfl
  | cons e log ih =>
    rw [List.flatMap_cons, ih]
    cases e <;> simp [wrote, buffer, List.filterMap_cons]

namespace EpTrace

/-- The buffers of all writes so far. -/
def writes (t : EpTrace) : List (List UInt8) := t.log.filterMap EpEvent.buffer

/-- The buffers of the writes that have not begun. -/
def waiting (t : EpTrace) : List (List UInt8) := (t.ep.calls.filter Call.isFresh).map Call.unsent

/-- What the writes that have begun have neither sent nor queued. -/
def startedBytes (t : EpTrace) : List UInt8 :=
  (t.ep.calls.filter fun c => !c.isFresh).flatMap Call.unsent

/-- What the host received, then what is queued and what the writes that have begun have left, is
the writes one after the other in some order, but for those that have not begun. -/
def Unsplit (t : EpTrace) : Prop :=
  ∃ ws : List (List UInt8),
    t.sentBytes ++ t.inHandBytes ++ t.queuedBytes ++ t.startedBytes = ws.flatten ∧
    (ws ++ t.waiting).Perm t.writes

/-- When no call is in progress, what the host received and what is queued are whole writes. -/
theorem Unsplit.settled {t : EpTrace} (h : t.Unsplit) (hdone : ∀ c ∈ t.ep.calls, c = .done) :
    ∃ ws : List (List UInt8), t.sentBytes ++ t.queuedBytes = ws.flatten ∧ ws.Perm t.writes := by
  obtain ⟨ws, hbytes, hperm⟩ := h
  have hhand : t.inHandBytes = [] := flatMap_nil_of fun c hc => by rw [hdone c hc]; rfl
  have hstarted : t.startedBytes = [] := flatMap_nil_of fun c hc => by
    rw [hdone c (List.mem_of_mem_filter hc)]
    rfl
  have hwaiting : t.waiting = [] := by
    rw [waiting, List.filter_eq_nil_iff.mpr]
    · rfl
    · intro c hc
      rw [hdone c hc]
      simp [Call.isFresh]
  refine ⟨ws, ?_, ?_⟩
  · simpa [hhand, hstarted] using hbytes
  · simpa [hwaiting] using hperm

end EpTrace

/-! ### The endpoint of one writer -/

/-- Calls for which `f` gives nothing may be left out. -/
theorem flatMap_filter_of {β : Type} {p : Call → Bool} {f : Call → List β} {calls : List Call}
    (h : ∀ c ∈ calls, ¬p c → f c = []) : (calls.filter p).flatMap f = calls.flatMap f := by
  induction calls with
  | nil => rfl
  | cons c calls ih =>
    have hrest := ih fun c' hc' => h c' (List.mem_cons_of_mem c hc')
    by_cases hp : p c
    · rw [List.filter_cons_of_pos hp, List.flatMap_cons, List.flatMap_cons, hrest]
    · rw [List.filter_cons_of_neg hp, List.flatMap_cons, h c List.mem_cons_self hp, hrest]
      rfl

/-- The endpoint with the calls that have begun and are not over. -/
def EpState.solo (ep : EpState) : EpState := { ep with calls := ep.calls.filter Call.isActive }

theorem CallStep.solo {ep next : EpState} {call call' : Call} {events : List EpEvent}
    (h : CallStep ep call next call' events) (calls : List Call) :
    CallStep { ep with calls } call { next with calls } call' events := by
  cases h with
  | sendChunk src remaining urb chunk => exact .sendChunk src remaining urb chunk
  | feed some_left popped => exact .feed some_left popped
  | queueRest some_left none_parked => exact .queueRest some_left none_parked
  | finish none_left => exact .finish none_left
  | sendStall urb rest => exact .sendStall urb rest
  | stallDone => exact .stallDone
  | sendHalted urb => exact .sendHalted urb
  | serve is_in queued => exact .serve is_in queued
  | park is_in none_queued => exact .park is_in none_queued
  | callback is_out registered => exact .callback is_out registered
  | enqueueOut is_out unregistered => exact .enqueueOut is_out unregistered
  | sendServed urb slice chunk => exact .sendServed urb slice chunk
  | sendDelivered urb => exact .sendDelivered urb

theorem CallStep.filterMap_buffer {ep next : EpState} {call call' : Call} {events : List EpEvent}
    (h : CallStep ep call next call' events) : events.filterMap EpEvent.buffer = [] := by
  cases h <;> rfl

/-- A write that has begun and has nothing left takes the one step that ends it. -/
theorem CallStep.of_idle {ep next : EpState} {call call' : Call} {events : List EpEvent}
    (h : CallStep ep call next call' events) (hidle : ¬call.isActive) (hf : ¬call.isFresh) :
    next = ep ∧ call' = .done ∧ events = [] := by
  cases h with
  | feed some_left _ | queueRest some_left _ =>
    simp [Call.isActive, Call.isMidway, Call.isFresh, some_left] at hidle hf
    exact absurd hidle hf
  | finish _ => exact ⟨rfl, rfl, rfl⟩
  | _ => simp [Call.isActive, Call.isMidway] at hidle

theorem filter_middle (p : Call → Bool) (pre : List Call) (c : Call) (post : List Call) :
    (pre ++ c :: post).filter p = pre.filter p ++ ([c].filter p ++ post.filter p) := by
  rw [← List.filter_append, ← List.filter_append, List.singleton_append]

namespace EpTrace

/-- A call with nothing to send may be left out. -/
theorem StreamInv.leave {t : EpTrace} (hi : t.StreamInv) {pre post : List Call} {c : Call}
    (hcalls : t.ep.calls = pre ++ c :: post) (hunsent : c.unsent = []) (hhand : c.inHand = []) :
    EpTrace.StreamInv ⟨{ t.ep with calls := pre ++ post }, t.log⟩ := by
  have hsub : (pre ++ post).Sublist t.ep.calls := by
    rw [hcalls]
    exact (List.sublist_cons_self c post).append_left pre
  constructor
  · have hbytes := hi.bytes
    simp only [sentBytes, inHandBytes, queuedBytes, unsentBytes, writtenBytes, hcalls,
      List.flatMap_append, List.flatMap_cons, hunsent, hhand, List.nil_append] at hbytes ⊢
    exact hbytes
  · exact hi.piece
  · exact hi.apart
  · intro u hu
    rcases EpState.mem_carried.mp hu with hparked | ⟨c', hc', hin⟩
    · exact hi.urb u (EpState.carried_of_parked hparked)
    · exact hi.urb u (EpState.carried_of_held (hsub.subset hc') hin)
  · exact hi.dbuf
  · exact fun c' hc' => hi.call c' (hsub.subset hc')
  · exact (hsub.countP_le).trans hi.writers
  · exact (hsub.countP_le).trans hi.readers
  · intro c' hc' hh
    obtain ⟨hinq, hserving⟩ := hi.holding c' (hsub.subset hc') hh
    exact ⟨hinq, fun c'' hc'' => hserving c'' (hsub.subset hc'')⟩
  · exact fun c' hc' => hi.serving c' (hsub.subset hc')

/-- A call never becomes one that has still to begin. -/
theorem CallOk.not_isFresh {t : EpTrace} {ep next : EpState} {call call' : Call}
    {events : List EpEvent} (hok : t.CallOk call) (step : CallStep ep call next call' events) :
    ¬call'.isFresh := by
  cases step with
  | sendChunk src remaining urb chunk =>
    obtain ⟨hoff, -, -, -, hheld⟩ := hok
    obtain ⟨hpos, -⟩ := hheld urb chunk rfl
    have hmoved : src.off + chunk ≠ 0 := by omega
    simp [Call.isFresh, Slice.advance, hmoved]
  | _ => simp [Call.isFresh]

section Run

variable {ep next : EpState} {call call' : Call} {events log : List EpEvent}

/-- A step of a call that then leaves if it has nothing left to do. -/
theorem StreamInv.afterSolo {pre post : List Call}
    (hi : EpTrace.StreamInv ⟨{ ep with calls := pre ++ call :: post }, log⟩)
    (step : CallStep ep call next call' events) :
    EpTrace.StreamInv ⟨{ next with calls := pre ++ ([call'].filter Call.isActive ++ post) },
      log ++ events⟩ := by
  have hrun := hi.afterRun rfl (step.solo (pre ++ call :: post))
  have hfresh := (hi.call call (by simp)).not_isFresh step
  by_cases hactive : call'.isActive
  · rw [List.filter_cons_of_pos hactive]
    exact hrun
  · rw [List.filter_cons_of_neg hactive]
    exact hrun.leave rfl (Call.unsent_of_idle hactive hfresh) (Call.inHand_of_idle hactive)

end Run

/-- What a run in which writers take turns keeps: with each write noted when it begins, the
endpoint is that of one writer. -/
structure InTurn (t : EpTrace) (log : List EpEvent) : Prop where
  solo : EpTrace.StreamInv ⟨t.ep.solo, log⟩
  sent : log.flatMap EpEvent.sent = t.sentBytes
  writes : (log.filterMap EpEvent.buffer ++ t.waiting).Perm t.writes
  fresh : ∀ c ∈ t.ep.calls, c.isFresh → ∃ buf, c = .write ⟨buf, 0⟩ buf.length none

theorem in_turn_new (onOut : Bool) : InTurn (.new onOut) [] where
  solo := stream_inv_new onOut
  sent := rfl
  writes := List.Perm.refl _
  fresh := by simp [EpTrace.new, EpState.new]

theorem InTurn.unsplit {t : EpTrace} {log : List EpEvent} (h : InTurn t log) : t.Unsplit := by
  refine ⟨log.filterMap EpEvent.buffer, ?_, h.writes⟩
  have hbytes := h.solo.bytes
  have hhand : (t.ep.calls.filter Call.isActive).flatMap Call.inHand = t.inHandBytes :=
    flatMap_filter_of fun c _ => Call.inHand_of_idle
  have hstarted : (t.ep.calls.filter Call.isActive).flatMap Call.unsent = t.startedBytes := by
    have hboth : t.ep.calls.filter Call.isActive =
        (t.ep.calls.filter fun c => !c.isFresh).filter Call.isActive := by
      rw [List.filter_filter]
      refine List.filter_congr fun c _ => ?_
      by_cases hf : c.isFresh
      · simp [hf, Call.not_isActive_of_isFresh hf]
      · simp [hf]
    rw [hboth]
    refine flatMap_filter_of fun c hc hidle => Call.unsent_of_idle hidle ?_
    simpa using List.of_mem_filter hc
  simp only [sentBytes, inHandBytes, queuedBytes, unsentBytes, writtenBytes, EpState.solo, h.sent,
    hhand, hstarted, EpEvent.flatMap_wrote] at hbytes
  exact hbytes

/-- A step of the endpoint, with what it notes of it for one writer. -/
theorem InTurn.next {t : EpTrace} {log : List EpEvent} (h : InTurn t log) {ep : EpState}
    {events noted : List EpEvent} (hsolo : EpTrace.StreamInv ⟨ep.solo, log ++ noted⟩)
    (hsent : noted.flatMap EpEvent.sent = events.flatMap EpEvent.sent)
    (hwaiting : (noted.filterMap EpEvent.buffer ++ (ep.calls.filter Call.isFresh).map Call.unsent).Perm
      (t.waiting ++ events.filterMap EpEvent.buffer))
    (hfresh : ∀ c ∈ ep.calls, c.isFresh →
      c ∈ t.ep.calls ∨ ∃ buf, c = .write ⟨buf, 0⟩ buf.length none) :
    InTurn ⟨ep, t.log ++ events⟩ (log ++ noted) where
  solo := hsolo
  sent := by
    have := h.sent
    simp only [sentBytes, List.flatMap_append] at this ⊢
    rw [this, hsent]
  writes := by
    simp only [EpTrace.writes, waiting, List.filterMap_append, List.append_assoc]
    refine (hwaiting.append_left _).trans ?_
    rw [← List.append_assoc]
    exact h.writes.append_right _
  fresh c hc hf := (hfresh c hc hf).elim (fun hmem => h.fresh c hmem hf) id

/-- A new call that does not wait to begin, or a step that begins none. -/
theorem InTurn.same {t : EpTrace} {log : List EpEvent} (h : InTurn t log) {ep : EpState}
    {events : List EpEvent} (hsolo : EpTrace.StreamInv ⟨ep.solo, log ++ events⟩)
    (hbuffer : events.filterMap EpEvent.buffer = [])
    (hcalls : ep.calls.filter Call.isFresh = t.ep.calls.filter Call.isFresh) :
    InTurn ⟨ep, t.log ++ events⟩ (log ++ events) := by
  apply h.next hsolo rfl
  · rw [hbuffer, hcalls, List.append_nil]
    exact List.Perm.refl _
  · intro c hc hf
    have hmem : c ∈ ep.calls.filter Call.isFresh := List.mem_filter.mpr ⟨hc, hf⟩
    rw [hcalls] at hmem
    exact Or.inl (List.mem_of_mem_filter hmem)

theorem InTurn.write {t : EpTrace} {log : List EpEvent} (h : InTurn t log) (buf : List UInt8) :
    ∃ log', InTurn ⟨{ t.ep with calls := t.ep.calls ++ [.write ⟨buf, 0⟩ buf.length none] },
      t.log ++ [.written buf]⟩ log' := by
  have hsolo : EpState.solo
      { t.ep with calls := t.ep.calls ++ [.write ⟨buf, 0⟩ buf.length none] } = t.ep.solo := by
    simp [EpState.solo, Call.isActive, Call.isMidway]
  cases hbuf : buf with
  | nil =>
    -- a write of nothing is over at once
    subst hbuf
    refine ⟨log ++ [.written []], h.next ?_ rfl ?_ ?_⟩
    · rw [hsolo]
      exact h.solo.quiet (fun _ hu => hu) (by simp [EpEvent.sent, EpEvent.wrote])
    · have hswap : ([[]] ++ t.waiting).Perm (t.waiting ++ [[]]) := List.perm_append_comm
      simpa [Call.isFresh, EpEvent.buffer, waiting] using hswap
    · intro c hc hf
      rcases List.mem_append.mp hc with hc | hc
      · exact Or.inl hc
      · rw [List.mem_singleton.mp hc] at hf
        simp [Call.isFresh] at hf
  | cons byte rest =>
    rw [← hbuf]
    have hpos : 0 < buf.length := by simp [hbuf]
    refine ⟨log ++ [], h.next ?_ rfl ?_ ?_⟩
    · rw [hsolo, List.append_nil]
      exact h.solo
    · simp [Call.isFresh, EpEvent.buffer, waiting, Call.unsent, Slice.bytes, hpos]
    · intro c hc _
      rcases List.mem_append.mp hc with hc | hc
      · exact Or.inl hc
      · exact Or.inr ⟨buf, List.mem_singleton.mp hc⟩

/-- The first section of a write while no other is midway: the one writer begins it now. -/
theorem InTurn.begin {t : EpTrace} {log : List EpEvent} (h : InTurn t log) {pre post : List Call}
    {call call' : Call} {next : EpState} {events : List EpEvent}
    (hcalls : t.ep.calls = pre ++ call :: post) (step : CallStep t.ep call next call' events)
    (hf : call.isFresh) (hturn : ∀ c ∈ t.ep.calls, ¬c.isMidway) :
    ∃ log', InTurn ⟨{ next with calls := pre ++ call' :: post }, t.log ++ events⟩ log' := by
  obtain ⟨buf, rfl⟩ := h.fresh call (by simp [hcalls]) hf
  have hidle := Call.not_isActive_of_isFresh hf
  have hsplit : t.ep.solo.calls = pre.filter Call.isActive ++ post.filter Call.isActive := by
    rw [EpState.solo, hcalls, List.filter_append, List.filter_cons_of_neg hidle]
  have hbegun : EpTrace.StreamInv ⟨{ t.ep with
      calls := pre.filter Call.isActive ++
        .write ⟨buf, 0⟩ buf.length none :: post.filter Call.isActive },
      log ++ [.written buf]⟩ := by
    refine h.solo.enter hsplit rfl ?_ (by simp) (by simp [Call.isServing])
      (by simp [Call.isHolding]) ?_ (by simp [Call.holds]) ?_ (by simp [Call.isDispatch])
    · simp [EpEvent.wrote, Call.unsent, Slice.bytes]
    · simp [CallOk]
    · intro _ c hc hw
      obtain ⟨hmem, hactive⟩ := List.mem_filter.mp hc
      exact hturn c hmem (Call.isMidway_of_active_write hactive hw)
  have hnext := hbegun.afterSolo step
  have hfresh : ¬call'.isFresh := (hbegun.call _ (by simp)).not_isFresh step
  refine ⟨log ++ (.written buf :: events), h.next ?_ ?_ ?_ ?_⟩
  · rw [EpState.solo, filter_middle, List.append_cons log]
    exact hnext
  · rfl
  · have hbuffer : (EpEvent.written buf :: events).filterMap EpEvent.buffer = [buf] := by
      rw [List.filterMap_cons, step.filterMap_buffer]
      rfl
    rw [hbuffer, step.filterMap_buffer, waiting, hcalls]
    simp only [List.filter_append, List.filter_cons_of_pos hf, List.filter_cons_of_neg hfresh,
      List.map_append, List.map_cons, List.append_nil, List.singleton_append]
    have hunsent : (Call.write ⟨buf, 0⟩ buf.length none).unsent = buf := by
      simp [Call.unsent, Slice.bytes]
    rw [hunsent]
    exact List.perm_middle.symm
  · intro c hc hf'
    have hc' : c ∈ pre ∨ c = call' ∨ c ∈ post := by simpa using hc
    rcases hc' with hc' | rfl | hc'
    · exact Or.inl (by simp [hcalls, hc'])
    · exact absurd hf' hfresh
    · exact Or.inl (by simp [hcalls, hc'])

/-- Any other step of a call. -/
theorem InTurn.go {t : EpTrace} {log : List EpEvent} (h : InTurn t log) {pre post : List Call}
    {call call' : Call} {next : EpState} {events : List EpEvent}
    (hcalls : t.ep.calls = pre ++ call :: post) (step : CallStep t.ep call next call' events)
    (hf : ¬call.isFresh) :
    InTurn ⟨{ next with calls := pre ++ call' :: post }, t.log ++ events⟩ (log ++ events) := by
  have hstep : EpTrace.StreamInv
      ⟨EpState.solo { next with calls := pre ++ call' :: post }, log ++ events⟩ ∧
        ¬call'.isFresh := by
    by_cases hactive : call.isActive
    · have hsolo := h.solo
      rw [EpState.solo, hcalls, List.filter_append, List.filter_cons_of_pos hactive] at hsolo
      refine ⟨?_, (hsolo.call call (by simp)).not_isFresh step⟩
      have hnext := hsolo.afterSolo step
      rw [EpState.solo, filter_middle]
      exact hnext
    · obtain ⟨rfl, rfl, rfl⟩ := step.of_idle hactive hf
      refine ⟨?_, by simp [Call.isFresh]⟩
      have hsolo := h.solo
      rw [EpState.solo, hcalls, List.filter_append, List.filter_cons_of_neg hactive] at hsolo
      rw [EpState.solo, filter_middle, List.append_nil]
      exact hsolo
  apply h.same hstep.1 step.filterMap_buffer
  simp only [hcalls, List.filter_append, List.filter_cons_of_neg hf,
    List.filter_cons_of_neg hstep.2]

theorem InTurn.step {t t' : EpTrace} {log : List EpEvent} {a : EpAct} (h : InTurn t log)
    (hc : WritersInTurn t a) (hs : t.step a = some t') : ∃ log', InTurn t' log' := by
  obtain ⟨events, hstep, hlog⟩ := step_some hs
  obtain ⟨ep', log'⟩ := t'
  subst hlog
  cases EpState.step_step hstep with
  | dispatch urb =>
    obtain ⟨hdir, hlen, hidle⟩ := hc
    have hone : OneReaderOneWriter ⟨t.ep.solo, log⟩ (.dispatch urb) :=
      ⟨hdir, hlen, fun c hc' => hidle c (List.mem_of_mem_filter hc')⟩
    have hnext := h.solo.step hone rfl
    have hactive : (t.ep.entered urb).isActive ∧ ¬(t.ep.entered urb).isFresh := by
      rcases t.ep.entered_cases urb with he | he <;> simp [he, Call.isActive, Call.isFresh]
    refine ⟨log ++ [], h.same ?_ rfl ?_⟩
    · rw [EpState.solo, filter_middle, List.filter_cons_of_pos hactive.1]
      exact hnext
    · rw [filter_middle, List.filter_cons_of_neg hactive.2]
      simp
  | write buf => exact h.write buf
  | stall =>
    have hone : OneReaderOneWriter ⟨t.ep.solo, log⟩ .stall := trivial
    have hnext := h.solo.step hone rfl
    refine ⟨log ++ [], h.same ?_ rfl ?_⟩
    · rw [EpState.solo, filter_middle]
      exact hnext
    · simp [Call.isFresh]
  | clearHalt =>
    have hone : OneReaderOneWriter ⟨t.ep.solo, log⟩ .clearHalt := trivial
    exact ⟨log ++ [], h.same (h.solo.step hone rfl) rfl rfl⟩
  | unlink n =>
    have hone : OneReaderOneWriter ⟨t.ep.solo, log⟩ (.unlink n) := trivial
    refine ⟨_, h.same (h.solo.step hone rfl) ?_ rfl⟩
    simp [EpEvent.buffer, List.filterMap_map, Function.comp_def]
  | @run pre post call call' next events calls_eq step =>
    by_cases hf : call.isFresh
    · refine h.begin calls_eq step hf (hc ?_)
      simpa [calls_eq] using hf
    · exact ⟨_, h.go calls_eq step hf⟩

/-- At every moment of every run in which writers take turns, the host received whole writes, but
for the rest of one that is queued or in progress. -/
theorem unsplit_throughout (onOut : Bool) {acts : List EpAct}
    (hg : Guarded EpTrace.step WritersInTurn (.new onOut) acts) :
    Throughout EpTrace.step Unsplit (.new onOut) acts := by
  refine throughout_of_guarded (I := fun t => ∃ log, InTurn t log) ?_ ?_ ⟨[], in_turn_new onOut⟩ hg
  · rintro t ⟨log, h⟩
    exact h.unsplit
  · rintro t a t' ⟨log, h⟩ hc hs
    exact h.step hc hs

/-- Two writes are in progress at once, and the second has its first section after the first has
its last. -/
def turnsRun : List EpAct :=
  [.dispatch (.bulkIn 0 1 1), .run 0, .write [1, 2], .write [3], .run 1, .run 1, .run 1, .run 2,
    .dispatch (.bulkIn 0 2 8), .run 3, .run 3]

theorem unsplit_throughout_turnsRun :
    Throughout EpTrace.step Unsplit (.new false) turnsRun := by
  refine unsplit_throughout false ?_
  decide

/-- A write of two bytes feeds a parked URB that asks for one, and another write queues its byte
while the first sends. -/
def splitRun : List EpAct :=
  [.dispatch (.bulkIn 0 1 1), .run 0, .write [1, 2], .run 1, .run 1, .write [3], .run 2, .run 1]

/-- The host received `1`, and `3` is queued before `2`. -/
theorem writers_split : ¬∀ onOut acts, Guarded EpTrace.step OneReader (.new onOut) acts →
    Throughout EpTrace.step Unsplit (.new onOut) acts := by
  intro h
  have hrun : (exec EpTrace.step (.new false) splitRun).map (fun t =>
      decide ((∀ c ∈ t.ep.calls, c = .done) ∧ t.sentBytes ++ t.queuedBytes = [1, 3, 2] ∧
        t.writes = [[1, 2], [3]])) = some true := by decide
  obtain ⟨t, ht, hend⟩ := Option.map_eq_some_iff.mp hrun
  obtain ⟨hdone, hbytes, hwrites⟩ := of_decide_eq_true hend
  obtain ⟨ws, hflat, hperm⟩ := ((h false splitRun (by decide)).last ht).settled hdone
  rw [hbytes] at hflat
  rw [hwrites, ← List.mem_permutations'] at hperm
  have hnone : ∀ ws ∈ List.permutations' [[1, 2], [(3 : UInt8)]], [1, 3, 2] ≠ ws.flatten := by
    decide
  exact hnone ws hperm hflat

end EpTrace

end Usbip
