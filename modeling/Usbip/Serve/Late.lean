import Usbip.Serve.Parked

/-! Replies after an unlink.  The handler searches the pending lists and the paced list, and then
sends `RET_UNLINK`.  A writer, a stall or the pacer that has taken the URB off its list before the
search sends its `RET_SUBMIT` in its own time. -/

namespace Usbip

open Lib

/-- The URB that the serve thread itself has still to answer. -/
def Serving.urb? : Serving → Option Urb
  | .iso sub => some sub.urb
  | .control sub => some sub.urb
  | .clearing sub _ => some sub.urb
  | .stalling sub _ _ => some sub.urb
  | .answer urb _ _ _ => some urb
  | _ => none

/-- Some thread or the paced list of the connection has the URB `n`. -/
def Conn.Has (conn : Conn) (n : UInt32) : Prop :=
  (∃ u, conn.serving.urb? = some u ∧ u.seqnum = n) ∨ (∃ entry ∈ conn.paceHead, entry.seqnum = n) ∨
    ∃ entry, conn.sending = some entry ∧ entry.seqnum = n

/-- The URB `n` of connection `c` is somewhere in the device, not yet answered. -/
def DevState.Has (s : DevState) (c : ConnId) (n : UInt32) : Prop :=
  (∃ e, ∃ u ∈ (s.eps e).carried, u.conn = c ∧ u.seqnum = n) ∨
    ∃ conn, s.conns[c]? = some conn ∧ conn.Has n

namespace DevEvent

/-- A `RET_SUBMIT` for the URB `n` on connection `c`. -/
def Answers (c : ConnId) (n : UInt32) : DevEvent → Prop
  | .ep _ (.ret urb _ _ _) => urb.conn = c ∧ urb.seqnum = n
  | .ret c' urb _ _ _ => c' = c ∧ urb.seqnum = n
  | .retIso c' entry => c' = c ∧ entry.seqnum = n
  | _ => False

/-- A `RET_UNLINK` on connection `c` for a `CMD_UNLINK` that names `n`. -/
def Unlinks (c : ConnId) (n : UInt32) : DevEvent → Prop
  | .retUnlink c' _ n' _ => c' = c ∧ n' = n
  | _ => False

/-- A `CMD_SUBMIT` of the URB `n` on connection `c`. -/
def Submits (c : ConnId) (n : UInt32) : DevEvent → Prop
  | .submitted c' n' => c' = c ∧ n' = n
  | _ => False

instance (c : ConnId) (n : UInt32) : DecidablePred (Answers c n)
  | .ep _ (.ret ..) | .ret .. | .retIso .. => inferInstanceAs (Decidable (_ ∧ _))
  | .ep _ (.written _) | .ep _ (.freed ..) | .ep _ (.onOut _) | .retUnlink .. | .submitted .. =>
    isFalse id

instance (c : ConnId) (n : UInt32) : DecidablePred (Submits c n)
  | .submitted .. => inferInstanceAs (Decidable (_ ∧ _))
  | .ep .. | .ret .. | .retIso .. | .retUnlink .. => isFalse id

end DevEvent

/-- After the `RET_UNLINK` for a URB, unless the host submits its seqnum anew, no `RET_SUBMIT` for
it is sent. -/
def DevTrace.NoLateRet (t : DevTrace) : Prop :=
  ∀ before ev after c n, t.log = before ++ ev :: after → ev.Unlinks c n →
    (∀ x ∈ after, ¬x.Submits c n) → ∀ x ∈ after, ¬x.Answers c n

/-- A connection about to send `RET_UNLINK`, with the seqnum that the unlink names. -/
def Serving.confirms : Serving → Option UInt32
  | .replyUnlink _ unlinkSeqnum => some unlinkSeqnum
  | _ => none

/-- No writer, no stall and no pacer has the URB `n` of connection `c` in hand. -/
def OutOfHand (dev : Plugged) (t : DevTrace) (c : ConnId) (conn : Conn) (n : UInt32) : Prop :=
  (∀ e ∈ dev.routed, ∀ call ∈ (t.dev.eps e).calls, ∀ u ∈ call.holds,
    ¬(u.conn = c ∧ u.seqnum = n)) ∧
  ∀ entry ∈ conn.sending, entry.seqnum ≠ n

instance (dev : Plugged) (t : DevTrace) (c : ConnId) (conn : Conn) (n : UInt32) :
    Decidable (OutOfHand dev t c conn n) := inferInstanceAs (Decidable (_ ∧ _))

/-- When `RET_UNLINK` is sent for a URB, nobody has the URB in hand. -/
def NoneInHand (dev : Plugged) (t : DevTrace) : DevAct → Prop
  | .conn c .serve =>
    ∀ conn ∈ t.dev.conns[c]?, ∀ n ∈ conn.serving.confirms, OutOfHand dev t c conn n
  | _ => True

-- the instances are named, so that no search over all sequence numbers is found instead
instance (dev : Plugged) (t : DevTrace) : DecidablePred (NoneInHand dev t)
  | .conn c .serve =>
    have (conn : Conn) : Decidable (∀ n ∈ conn.serving.confirms, OutOfHand dev t c conn n) :=
      Option.decidableForallMem _
    Option.decidableForallMem (t.dev.conns[c]?)
  | .conn _ (.submit _) | .conn _ (.unlink ..) | .conn _ .disconnect | .conn _ (.handler ..)
  | .conn _ (.fill ..) | .conn _ (.pacer _) | .connect | .app .. => isTrue trivial

theorem popEarliest_perm {l rest : List PacedRet} {entry : PacedRet}
    (h : popEarliest l = some (entry, rest)) : l.Perm (entry :: rest) := by
  induction l generalizing entry rest with
  | nil => cases h
  | cons x l ih =>
    simp only [popEarliest] at h
    split at h
    · rename_i first others hpop
      split at h <;> cases h
      · exact ((ih hpop).cons x).trans (List.Perm.swap _ _ _)
      · exact List.Perm.refl _
    · rename_i hpop
      cases h
      cases l with
      | nil => exact List.Perm.refl _
      | cons y l =>
        simp only [popEarliest] at hpop
        repeat' split at hpop
        all_goals cases hpop

section ConnStep

variable {dev : Plugged} {eps : EpId → EpState} {c : ConnId} {conn conn' : Conn} {a : ConnAct}
  {sect : Section} {sent : List DevEvent} {n : UInt32}

theorem Conn.dispatch_urb? {sub : Submit} {u : Urb}
    (h : (Conn.dispatch dev eps sub).1.urb? = some u) : u = sub.urb := by
  unfold Conn.dispatch at h
  repeat' split at h
  all_goals cases h <;> rfl

theorem Conn.handleControl_urb? {sub : Submit} {request : HaltRequest} {u : Urb}
    (h : (Conn.handleControl dev eps sub request).1.urb? = some u) : u = sub.urb := by
  cases request <;> simp only [Conn.handleControl, Serving.ack] at h <;> (try split at h) <;>
    cases h <;> rfl

theorem ConnStep.has (h : ConnStep dev eps c conn a conn' sect sent) (hn : conn'.Has n) :
    conn.Has n ∨ ∃ sub, a = .submit sub ∧ sub.urb.seqnum = n := by
  obtain ⟨u, hu, rfl⟩ | ⟨entry, hentry, rfl⟩ | ⟨entry, hentry, rfl⟩ := hn
  · -- the serve thread has it
    cases h with
    | submit sub idle =>
      obtain rfl := Conn.dispatch_urb? hu
      exact Or.inr ⟨sub, rfl, rfl⟩
    | control in_control halt =>
      obtain rfl := Conn.handleControl_urb? hu
      exact Or.inl (Or.inl ⟨_, by rw [in_control]; rfl, rfl⟩)
    | clear clearing => exact Or.inl (Or.inl ⟨u, by rw [clearing]; exact hu, rfl⟩)
    | cleared clearing => exact Or.inl (Or.inl ⟨u, by rw [clearing]; exact hu, rfl⟩)
    | stalled stalling => exact Or.inl (Or.inl ⟨u, by rw [stalling]; exact hu, rfl⟩)
    | handler status data actual in_control =>
      exact Or.inl (Or.inl ⟨u, by rw [in_control]; exact hu, rfl⟩)
    | pacerSend => exact Or.inl (Or.inl ⟨u, hu, rfl⟩)
    | pacerPop => exact Or.inl (Or.inl ⟨u, hu, rfl⟩)
    | _ => cases hu
  · -- it is on the paced list
    cases h with
    | unlinkPaced =>
      exact Or.inl (Or.inr (Or.inl ⟨entry, List.mem_of_mem_filter hentry, rfl⟩))
    | @pace sub lens data deadline in_iso paced =>
      rcases List.mem_cons.mp hentry with rfl | hentry
      · exact Or.inl (Or.inl ⟨sub.urb, by rw [in_iso]; rfl, rfl⟩)
      · exact Or.inl (Or.inr (Or.inl ⟨entry, hentry, rfl⟩))
    | pacerPop now none_sending popped =>
      have := (popEarliest_perm popped).mem_iff.mpr (List.mem_cons_of_mem _ hentry)
      exact Or.inl (Or.inr (Or.inl ⟨entry, this, rfl⟩))
    | _ => exact Or.inl (Or.inr (Or.inl ⟨entry, hentry, rfl⟩))
  · -- the pacer has it in hand
    cases h with
    | pacerSend => cases hentry
    | pacerPop now none_sending popped =>
      cases hentry
      have := (popEarliest_perm popped).mem_iff.mpr List.mem_cons_self
      exact Or.inl (Or.inr (Or.inl ⟨entry, this, rfl⟩))
    | _ => exact Or.inl (Or.inr (Or.inr ⟨entry, hentry, rfl⟩))

theorem ConnStep.answers (h : ConnStep dev eps c conn a conn' sect sent) {ev : DevEvent}
    {c' : ConnId} (hev : ev ∈ sent) (hans : ev.Answers c' n) : c' = c ∧ conn.Has n := by
  cases h with
  | answer answering =>
    obtain rfl := List.mem_singleton.mp hev
    obtain ⟨rfl, rfl⟩ := hans
    exact ⟨rfl, Or.inl ⟨_, by rw [answering]; rfl, rfl⟩⟩
  | sendIso lens data deadline in_iso =>
    obtain rfl := List.mem_singleton.mp hev
    obtain ⟨rfl, rfl⟩ := hans
    exact ⟨rfl, Or.inl ⟨_, by rw [in_iso]; rfl, rfl⟩⟩
  | pacerSend now in_hand =>
    obtain rfl := List.mem_singleton.mp hev
    obtain ⟨rfl, rfl⟩ := hans
    exact ⟨rfl, Or.inr (Or.inr ⟨_, in_hand, rfl⟩)⟩
  | replyUnlink | submit =>
    obtain rfl := List.mem_singleton.mp hev
    exact hans.elim
  | _ => cases hev

theorem ConnStep.submitted {sub : Submit}
    (h : ConnStep dev eps c conn (.submit sub) conn' sect sent) :
    .submitted c sub.urb.seqnum ∈ sent := by
  cases h
  exact List.mem_singleton_self _

/-- A `RET_UNLINK` is the only thing that its step sends, and its step does nothing else. -/
theorem ConnStep.unlinks (h : ConnStep dev eps c conn a conn' sect sent) {ev : DevEvent}
    {c' : ConnId} (hev : ev ∈ sent) (hun : ev.Unlinks c' n) :
    c' = c ∧ a = .serve ∧ conn.serving.confirms = some n ∧ sect = none ∧ sent = [ev] := by
  cases h with
  | replyUnlink replying =>
    obtain rfl := List.mem_singleton.mp hev
    obtain ⟨rfl, rfl⟩ := hun
    exact ⟨rfl, rfl, by rw [replying]; rfl, rfl, rfl⟩
  | answer | sendIso | pacerSend | submit =>
    obtain rfl := List.mem_singleton.mp hev
    exact hun.elim
  | _ => cases hev

end ConnStep

namespace DevState

variable {dev : Plugged} {s s' : DevState} {a : DevAct} {events : List DevEvent} {c : ConnId}
  {n : UInt32}

/-- A device step seen from one connection: it is new, it did nothing, or one of its threads took
the step. -/
theorem connStep_of_devStep (hs : DevStep dev s a s' events) {conn' : Conn}
    (h : s'.conns[c]? = some conn') :
    conn' = .new ∨ s.conns[c]? = some conn' ∨
      ∃ conn b sect sent, s.conns[c]? = some conn ∧ a = .conn c b ∧
        ConnStep dev s.eps c conn b conn' sect sent ∧
        ∀ e x, sect = some (e, x) → ∃ evs, EpStep (s.eps e) x (s'.eps e) evs := by
  have split : ∀ {c' : ConnId} {conn₀ conn₁ : Conn}, s.conns[c']? = some conn₀ →
      (s.setConn c' conn₁).conns[c]? = some conn' →
      (c = c' ∧ conn' = conn₁) ∨ s.conns[c]? = some conn' := by
    intro c' conn₀ conn₁ found h
    rw [setConn_conns found] at h
    split at h
    · rename_i hc
      exact Or.inl ⟨hc, (Option.some.inj h).symm⟩
    · exact Or.inr h
  cases hs with
  | connect =>
    rcases Nat.lt_trichotomy c s.conns.length with hlt | rfl | hgt
    · rw [List.getElem?_append_left hlt] at h
      exact Or.inr (Or.inl h)
    · simp at h
      exact Or.inl h.symm
    · rw [List.getElem?_eq_none (by rw [List.length_append, List.length_singleton]; omega)] at h
      cases h
  | conn found step =>
    rcases split found h with ⟨rfl, rfl⟩ | h
    · exact Or.inr (Or.inr ⟨_, _, _, _, found, rfl, step, fun e x hx => by cases hx⟩)
    · exact Or.inr (Or.inl h)
  | connEp found step sect =>
    rcases split found h with ⟨rfl, rfl⟩ | h
    · refine Or.inr (Or.inr ⟨_, _, _, _, found, rfl, step, fun e x hx => ?_⟩)
      cases hx
      exact ⟨_, by rwa [setEp_eps_self]⟩
    · exact Or.inr (Or.inl h)
  | app => exact Or.inr (Or.inl h)

theorem Has.of_step (h : s'.Has c n) (hs : DevStep dev s a s' events) :
    s.Has c n ∨ ∃ sub, a = .conn c (.submit sub) ∧ sub.urb.seqnum = n := by
  rcases h with ⟨e, u, hu, hconn, hseq⟩ | ⟨conn', hfound', hhas⟩
  · cases hs with
    | connect => exact Or.inl (Or.inl ⟨e, u, hu, hconn, hseq⟩)
    | conn => exact Or.inl (Or.inl ⟨e, u, hu, hconn, hseq⟩)
    | @connEp c' b conn₀ conn' sent e' x ep evs found step sect =>
      by_cases he : e = e'
      · subst he
        rw [setEp_eps_self] at hu
        rcases sect.carried hu with hu | ⟨urb, rfl, rfl⟩
        · exact Or.inl (Or.inl ⟨e, u, hu, hconn, hseq⟩)
        · obtain ⟨⟨sub, rfl, rfl⟩, -⟩ := step.dispatch_section
          exact Or.inr ⟨sub, by rw [show c' = c from hconn], hseq⟩
      · rw [setEp_eps_of_ne _ _ he] at hu
        exact Or.inl (Or.inl ⟨e, u, hu, hconn, hseq⟩)
    | @app e' x ep evs allowed sect =>
      by_cases he : e = e'
      · subst he
        rw [setEp_eps_self] at hu
        rcases sect.carried hu with hu | ⟨urb, rfl, -⟩
        · exact Or.inl (Or.inl ⟨e, u, hu, hconn, hseq⟩)
        · cases allowed
      · rw [setEp_eps_of_ne _ _ he] at hu
        exact Or.inl (Or.inl ⟨e, u, hu, hconn, hseq⟩)
  · rcases connStep_of_devStep hs hfound' with rfl | hfound | ⟨conn, b, sect, sent, hfound, rfl,
      step, -⟩
    · simp [Conn.Has, Conn.new, Serving.urb?] at hhas
    · exact Or.inl (Or.inr ⟨conn', hfound, hhas⟩)
    · rcases step.has hhas with hhas | ⟨sub, rfl, hseq⟩
      · exact Or.inl (Or.inr ⟨conn, hfound, hhas⟩)
      · exact Or.inr ⟨sub, rfl, hseq⟩

theorem answers_ep {e : EpId} {evs : List EpEvent} {ev : DevEvent}
    (hev : ev ∈ evs.map (DevEvent.ep e)) (hans : ev.Answers c n) :
    ∃ urb status data actual, .ret urb status data actual ∈ evs ∧ urb.conn = c ∧
      urb.seqnum = n := by
  obtain ⟨x, hx, rfl⟩ := List.mem_map.mp hev
  cases x with
  | ret urb status data actual => exact ⟨urb, status, data, actual, hx, hans⟩
  | _ => exact hans.elim

theorem not_unlinks_ep {e : EpId} {evs : List EpEvent} {ev : DevEvent}
    (hev : ev ∈ evs.map (DevEvent.ep e)) : ¬ev.Unlinks c n := by
  obtain ⟨x, -, rfl⟩ := List.mem_map.mp hev
  exact id

theorem submitted_of_submit {sub : Submit} (hs : DevStep dev s (.conn c (.submit sub)) s' events) :
    .submitted c sub.urb.seqnum ∈ events := by
  cases hs with
  | conn found step => exact step.submitted
  | connEp found step sect => exact List.mem_append_right _ step.submitted

theorem has_of_answers (hs : DevStep dev s a s' events) {ev : DevEvent} (hev : ev ∈ events)
    (hans : ev.Answers c n) : s.Has c n := by
  have fromEp : ∀ {e b ep evs}, EpStep (s.eps e) b ep evs → ev ∈ evs.map (DevEvent.ep e) →
      s.Has c n := by
    intro e b ep evs sect hev
    obtain ⟨urb, status, data, actual, hret, hconn, hseq⟩ := answers_ep hev hans
    exact Or.inl ⟨e, urb, sect.ret_carried hret, hconn, hseq⟩
  cases hs with
  | connect => cases hev
  | conn found step =>
    obtain ⟨rfl, hhas⟩ := step.answers hev hans
    exact Or.inr ⟨_, found, hhas⟩
  | connEp found step sect =>
    rcases List.mem_append.mp hev with hev | hev
    · exact fromEp sect hev
    · obtain ⟨rfl, hhas⟩ := step.answers hev hans
      exact Or.inr ⟨_, found, hhas⟩
  | app allowed sect => exact fromEp sect hev

/-- The step that sends a `RET_UNLINK` does only that. -/
theorem confirms_of_unlinks (hs : DevStep dev s a s' events) {ev : DevEvent} (hev : ev ∈ events)
    (hun : ev.Unlinks c n) :
    a = .conn c .serve ∧ s'.eps = s.eps ∧ events = [ev] ∧
      ∃ conn, s.conns[c]? = some conn ∧ conn.serving.confirms = some n := by
  cases hs with
  | connect => cases hev
  | conn found step =>
    obtain ⟨rfl, rfl, hpc, -, hsent⟩ := step.unlinks hev hun
    exact ⟨rfl, rfl, hsent, _, found, hpc⟩
  | connEp found step sect =>
    rcases List.mem_append.mp hev with hev | hev
    · exact absurd hun (not_unlinks_ep hev)
    · obtain ⟨-, -, -, hsect, -⟩ := step.unlinks hev hun
      cases hsect
  | app allowed sect => exact absurd hun (not_unlinks_ep hev)

/-- An URB that is parked after a step and whose connection was in no call was parked before. -/
theorem parked_before (ho : s.Owned) (hs : DevStep dev s a s' events) {e : EpId} {u : Urb}
    (hu : u ∈ (s'.eps e).pend.urbs) {pc : Serving} (hpc : s.At u.conn pc)
    (hcall : ∀ e i, pc ≠ .inCall e i) : u ∈ (s.eps e).pend.urbs := by
  rcases epStep_of_devStep hs e with heq | ⟨b, evs, hep, -⟩
  · rwa [heq] at hu
  · rcases hep.parked hu with hu | ⟨i, hi⟩
    · exact hu
    · obtain ⟨conn, hfound, hin⟩ := ho e i _ u hi rfl
      obtain ⟨conn₀, hfound₀, hpc⟩ := at_iff.mp hpc
      obtain rfl : conn = conn₀ := Option.some.inj (hfound.symm.trans hfound₀)
      exact absurd (hpc.symm.trans hin) (hcall e i)

end DevState

/-! ### The walk of the unlink handler -/

/-- What an unlink in progress has already removed: on the endpoints of the slots that it has
visited nothing of `c` with its seqnum is parked, and in the end nothing is paced either. -/
structure DevState.Walked (dev : Plugged) (s : DevState) (c : ConnId) : Prop where
  walking : ∀ q n slots, s.At c (.unlinking q n slots) → ∀ e, ∀ u ∈ (s.eps e).pend.urbs,
    u.conn = c → u.seqnum = n → e ∈ dev.mapped slots
  confirming : ∀ q n, s.At c (.replyUnlink q n) →
    (∀ e, ∀ u ∈ (s.eps e).pend.urbs, u.conn = c → u.seqnum ≠ n) ∧
    ∀ conn, s.conns[c]? = some conn → ∀ entry ∈ conn.paceHead, entry.seqnum ≠ n

namespace DevState

variable {dev : Plugged} {s s' : DevState} {a : DevAct} {events : List DevEvent} {c : ConnId}

theorem At.of_conns {conn : Conn} (h : s.conns[c]? = some conn) : s.At c conn.serving :=
  at_iff.mpr ⟨conn, h, rfl⟩

theorem At.eq {conn : Conn} {pc : Serving} (h : s.At c pc) (hfound : s.conns[c]? = some conn) :
    conn.serving = pc := by
  obtain ⟨conn', hfound', hpc⟩ := at_iff.mp h
  obtain rfl : conn' = conn := Option.some.inj (hfound'.symm.trans hfound)
  exact hpc

theorem Walked.walking_step (hw : s.Walked dev c) (ho : s.Owned) (hr : s.Routed dev)
    (hs : DevStep dev s a s' events) {q n : UInt32} {slots : List (Nat × Dir)}
    (hpc : s'.At c (.unlinking q n slots)) {e : EpId} {u : Urb} (hu : u ∈ (s'.eps e).pend.urbs)
    (hconn : u.conn = c) (hseq : u.seqnum = n) : e ∈ dev.mapped slots := by
  obtain ⟨conn', hfound', hpc'⟩ := at_iff.mp hpc
  have stay : ∀ {conn : Conn}, s.conns[c]? = some conn →
      conn.serving = .unlinking q n slots → e ∈ dev.mapped slots := by
    intro conn hfound hpc
    have hat : s.At c (.unlinking q n slots) := at_iff.mpr ⟨conn, hfound, hpc⟩
    exact hw.walking q n slots hat e u
      (parked_before ho hs hu (hconn ▸ hat) (by simp)) hconn hseq
  rcases connStep_of_devStep hs hfound' with rfl | hfound | ⟨conn, b, sect, sent, hfound, rfl,
    step, hsect⟩
  · cases hpc'
  · exact stay hfound hpc'
  · have was := fun (hnc : ∀ e i, conn.serving ≠ .inCall e i) =>
      parked_before ho hs hu (hconn ▸ At.of_conns hfound) hnc
    cases step with
    | submit sub idle =>
      unfold Conn.dispatch at hpc'
      repeat' split at hpc'
      all_goals cases hpc'
    | @control sub request in_control halt =>
      cases request <;> simp only [Conn.handleControl, Serving.ack] at hpc' <;>
        (try split at hpc') <;> cases hpc'
    | unlink seqnum unlinkSeqnum idle =>
      cases hpc'
      exact Plugged.route_routed (hr e u (EpState.carried_of_parked (was (by simp [idle]))))
    | @skipSlot seqnum unlinkSeqnum number dir slots unlinking unmapped =>
      cases hpc'
      have hin := hw.walking q n _ (at_iff.mpr ⟨conn, hfound, unlinking⟩) e u
        (was (by simp [unlinking])) hconn hseq
      rwa [Plugged.mapped, List.filterMap_cons_none (by exact unmapped)] at hin
    | @unlinkSlot seqnum unlinkSeqnum number dir slots e₀ unlinking mapped =>
      cases hpc'
      have hin := hw.walking q n _ (at_iff.mpr ⟨conn, hfound, unlinking⟩) e u
        (was (by simp [unlinking])) hconn hseq
      rw [Plugged.mapped, List.filterMap_cons_some (by exact mapped)] at hin
      rcases List.mem_cons.mp hin with rfl | hin
      · -- the section on this endpoint has just removed it
        obtain ⟨evs, hep⟩ := hsect e _ rfl
        generalize hep' : s'.eps e = ep at hep hu
        cases hep
        rw [PendQueue.unlink, PendQueue.urbs_unlinkWhere] at hu
        simpa [hseq] using (List.mem_filter.mp hu).2
      · exact hin
    | pacerSend => exact stay hfound hpc'
    | pacerPop => exact stay hfound hpc'
    | _ => cases hpc'

theorem Walked.confirming_step (hw : s.Walked dev c) (ho : s.Owned)
    (hs : DevStep dev s a s' events) {q n : UInt32} (hpc : s'.At c (.replyUnlink q n)) :
    (∀ e, ∀ u ∈ (s'.eps e).pend.urbs, u.conn = c → u.seqnum ≠ n) ∧
      ∀ conn, s'.conns[c]? = some conn → ∀ entry ∈ conn.paceHead, entry.seqnum ≠ n := by
  obtain ⟨conn', hfound', hpc'⟩ := at_iff.mp hpc
  have done : ∀ {conn : Conn}, s.conns[c]? = some conn → conn.serving = .replyUnlink q n →
      (∀ entry ∈ conn'.paceHead, entry ∈ conn.paceHead) →
      (∀ e, ∀ u ∈ (s'.eps e).pend.urbs, u.conn = c → u.seqnum ≠ n) ∧
        ∀ conn, s'.conns[c]? = some conn → ∀ entry ∈ conn.paceHead, entry.seqnum ≠ n := by
    intro conn hfound hpc hsub
    have hat : s.At c (.replyUnlink q n) := at_iff.mpr ⟨conn, hfound, hpc⟩
    obtain ⟨hparked, hpaced⟩ := hw.confirming q n hat
    refine ⟨fun e u hu hconn => ?_, fun conn₁ hconn₁ entry hentry => ?_⟩
    · exact hparked e u (parked_before ho hs hu (hconn ▸ hat) (by simp)) hconn
    · obtain rfl : conn₁ = conn' := Option.some.inj (hconn₁.symm.trans hfound')
      exact hpaced conn hfound entry (hsub entry hentry)
  rcases connStep_of_devStep hs hfound' with rfl | hfound | ⟨conn, b, sect, sent, hfound, rfl,
    step, hsect⟩
  · cases hpc'
  · exact done hfound hpc' fun _ h => h
  · cases step with
    | submit sub idle =>
      unfold Conn.dispatch at hpc'
      repeat' split at hpc'
      all_goals cases hpc'
    | @control sub request in_control halt =>
      cases request <;> simp only [Conn.handleControl, Serving.ack] at hpc' <;>
        (try split at hpc') <;> cases hpc'
    | @unlinkPaced seqnum unlinkSeqnum unlinking =>
      cases hpc'
      have hat : s.At c (.unlinking q n []) := at_iff.mpr ⟨conn, hfound, unlinking⟩
      refine ⟨fun e u hu hconn hseq => ?_, fun conn₁ hconn₁ entry hentry => ?_⟩
      · have hin := hw.walking q n [] hat e u
          (parked_before ho hs hu (hconn ▸ hat) (by simp)) hconn hseq
        cases hin
      · obtain rfl := Option.some.inj (hconn₁.symm.trans hfound')
        simpa using (List.mem_filter.mp hentry).2
    | pacerSend => exact done hfound hpc' fun _ h => h
    | pacerPop now none_sending popped =>
      exact done hfound hpc' fun entry h =>
        (popEarliest_perm popped).mem_iff.mpr (List.mem_cons_of_mem _ h)
    | _ => cases hpc'

theorem Walked.step (hw : s.Walked dev c) (ho : s.Owned) (hr : s.Routed dev)
    (hs : DevStep dev s a s' events) : s'.Walked dev c where
  walking _ _ _ hpc _ _ hu hconn hseq := hw.walking_step ho hr hs hpc hu hconn hseq
  confirming _ _ hpc := hw.confirming_step ho hs hpc

theorem walked_new (dev : Plugged) (c : ConnId) : (new dev).Walked dev c where
  walking q n slots hpc := by simp [At, new] at hpc
  confirming q n hpc := by simp [At, new] at hpc

end DevState

/-! ### Runs -/

namespace DevTrace

variable {dev : Plugged} {t t' : DevTrace} {a : DevAct}

/-- What a run keeps whose steps meet `NoneInHand`. -/
structure LateInv (dev : Plugged) (t : DevTrace) : Prop where
  owned : t.dev.Owned
  routed : t.dev.Routed dev
  walked : ∀ c, t.dev.Walked dev c
  /-- a URB whose unlink is confirmed is nowhere in the device, unless it is submitted anew -/
  gone : ∀ before ev after c n, t.log = before ++ ev :: after → ev.Unlinks c n →
    (∀ x ∈ after, ¬x.Submits c n) → ¬t.dev.Has c n
  noLate : t.NoLateRet

theorem lateInv_new (dev : Plugged) : LateInv dev (.new dev) where
  owned := DevState.owned_new dev
  routed := DevState.routed_new dev
  walked := DevState.walked_new dev
  gone := by simp [new]
  noLate := by simp [NoLateRet, new]

/-- A `RET_UNLINK` for a URB that nobody has in hand leaves no trace of the URB. -/
theorem LateInv.gone_new (h : LateInv dev t) (hc : NoneInHand dev t a)
    {s' : DevState} {events : List DevEvent} (hs : DevStep dev t.dev a s' events) {c : ConnId}
    {n : UInt32} {ev : DevEvent} (hev : ev ∈ events) (hun : ev.Unlinks c n) : ¬s'.Has c n := by
  obtain ⟨rfl, -, -, conn, hfound, hconf⟩ := DevState.confirms_of_unlinks hs hev hun
  obtain ⟨hcalls, hsending⟩ := hc conn hfound n hconf
  obtain ⟨q, hpc⟩ : ∃ q, conn.serving = .replyUnlink q n := by
    unfold Serving.confirms at hconf
    split at hconf
    · rename_i q n' hpc
      cases hconf
      exact ⟨q, hpc⟩
    · cases hconf
  obtain ⟨hparked, hpaced⟩ := (h.walked c).confirming q n
    (DevState.at_iff.mpr ⟨conn, hfound, hpc⟩)
  intro hhas
  rcases hhas.of_step hs with hhas | ⟨sub, hact, -⟩
  · rcases hhas with ⟨e, u, hu, hconn, hseq⟩ | ⟨conn₀, hfound₀, hhas⟩
    · rcases EpState.mem_carried.mp hu with hp | ⟨call, hcall, hheld⟩
      · exact hparked e u hp hconn hseq
      · exact hcalls e (Plugged.route_routed (h.routed e u hu)) call hcall u hheld ⟨hconn, hseq⟩
    · obtain rfl : conn₀ = conn := Option.some.inj (hfound₀.symm.trans hfound)
      rcases hhas with ⟨u, hu, -⟩ | ⟨entry, hentry, hseq⟩ | ⟨entry, hentry, hseq⟩
      · rw [hpc] at hu
        cases hu
      · exact hpaced conn₀ hfound entry hentry hseq
      · exact hsending entry hentry hseq
  · cases hact

theorem split_append {log events before after : List DevEvent} {ev : DevEvent}
    (h : log ++ events = before ++ ev :: after) :
    (∃ rest, log = before ++ ev :: rest ∧ after = rest ++ events) ∨
      ∃ more, events = more ++ ev :: after := by
  rcases List.append_eq_append_iff.mp h with ⟨more, -, hev⟩ | ⟨rest, hlog, hev⟩
  · exact Or.inr ⟨more, hev⟩
  · cases rest with
    | nil => exact Or.inr ⟨[], hev.symm⟩
    | cons x rest =>
      obtain ⟨rfl, hafter⟩ := List.cons.inj hev
      exact Or.inl ⟨rest, hlog, hafter⟩

theorem LateInv.step (h : LateInv dev t) (hc : NoneInHand dev t a)
    (hs : t.step dev a = some t') : LateInv dev t' := by
  obtain ⟨events, hstep, hlog⟩ := step_some hs
  have hdev := DevState.step_step hstep
  refine ⟨h.owned.step hdev, h.routed.step hdev,
    fun c => (h.walked c).step h.owned h.routed hdev, ?_, ?_⟩
  · intro before ev after c n hsplit hun hfresh
    rw [hlog] at hsplit
    rcases split_append hsplit with ⟨rest, hold, rfl⟩ | ⟨more, hnew⟩
    · intro hhas
      rcases hhas.of_step hdev with hhas | ⟨sub, rfl, rfl⟩
      · exact h.gone before ev rest c n hold hun
          (fun x hx => hfresh x (List.mem_append_left _ hx)) hhas
      · exact hfresh _ (List.mem_append_right _ (DevState.submitted_of_submit hdev)) ⟨rfl, rfl⟩
    · exact h.gone_new hc hdev (by simp [hnew]) hun
  · intro before ev after c n hsplit hun hfresh x hx
    rw [hlog] at hsplit
    rcases split_append hsplit with ⟨rest, hold, rfl⟩ | ⟨more, hnew⟩
    · have hfresh' : ∀ y ∈ rest, ¬y.Submits c n := fun y hy =>
        hfresh y (List.mem_append_left _ hy)
      rcases List.mem_append.mp hx with hx | hx
      · exact h.noLate before ev rest c n hold hun hfresh' x hx
      · exact fun hans => h.gone before ev rest c n hold hun hfresh'
          (DevState.has_of_answers hdev hx hans)
    · -- the step that sends a `RET_UNLINK` sends nothing after it
      have hmem : ev ∈ events := by simp [hnew]
      obtain ⟨-, -, hone, -⟩ := DevState.confirms_of_unlinks hdev hmem hun
      rw [hnew] at hone
      have hlen := congrArg List.length hone
      rw [List.length_append, List.length_cons, List.length_singleton] at hlen
      rw [List.length_eq_zero_iff.mp (show after.length = 0 by omega)] at hx
      cases hx

/-- While nobody has a URB in hand when its unlink is confirmed, no `RET_SUBMIT` follows a
`RET_UNLINK`, whatever the order of the steps. -/
theorem no_late_ret {acts : List DevAct}
    (hg : Guarded (DevTrace.step dev) (NoneInHand dev) (.new dev) acts) :
    Throughout (DevTrace.step dev) NoLateRet (.new dev) acts :=
  throughout_of_guarded (fun _ => LateInv.noLate) (fun _ _ _ hi hc hs => hi.step hc hs)
    (lateInv_new dev) hg

/-- The steps of a serve thread from `CMD_UNLINK` to `RET_UNLINK`, but for the last. -/
def unlinkWalk (c : ConnId) (seqnum unlinkSeqnum : UInt32) : List DevAct :=
  .conn c (.unlink seqnum unlinkSeqnum) :: List.replicate 33 (.conn c .serve)

/-- A writer takes the URB off the pending list, the host unlinks the URB, and the writer sends. -/
def writerLateRun : List DevAct :=
  [.connect, .conn 0 (.submit (.bulkIn 1 64)), .app 0 (.run 0), .conn 0 .serve,
    .app 0 (.write [7]), .app 0 (.run 1)] ++ unlinkWalk 0 2 1 ++ [.conn 0 .serve, .app 0 (.run 1)]

/-- `writerLateRun` sends `RET_UNLINK` and then `RET_SUBMIT`. -/
theorem no_late_ret_fails : ¬∀ acts t,
    exec (DevTrace.step .oneIn) (.new .oneIn) acts = some t → t.NoLateRet := by
  intro h
  have hrun : ((exec (DevTrace.step .oneIn) (.new .oneIn) writerLateRun).map DevTrace.log) =
      some ([.submitted 0 1, .ep 0 (.written [7])] ++ .retUnlink 0 2 1 0 ::
        [.ep 0 (.ret { Urb.bulkIn 0 1 64 with conn := 0 } 0 ⟨[7], 0⟩ 1)]) := by decide
  obtain ⟨t, ht, hlog⟩ := Option.map_eq_some_iff.mp hrun
  exact h _ t ht _ _ _ 0 1 hlog ⟨rfl, rfl⟩ (by simp [DevEvent.Submits]) _
    (List.mem_singleton_self _) ⟨rfl, rfl⟩

/-- The host unlinks a URB that is parked, and the application writes afterwards. -/
def unlinkedRun : List DevAct :=
  [.connect, .conn 0 (.submit (.bulkIn 1 64)), .app 0 (.run 0), .conn 0 .serve] ++
    unlinkWalk 0 2 1 ++ [.conn 0 .serve, .app 0 (.write [7]), .app 0 (.run 1)]

theorem no_late_ret_unlinkedRun :
    Throughout (DevTrace.step .oneIn) NoLateRet (.new .oneIn) unlinkedRun := by
  refine no_late_ret ?_
  decide

end DevTrace

end Usbip
