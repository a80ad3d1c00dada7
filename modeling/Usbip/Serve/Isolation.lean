import Usbip.Endpoint.Same
import Usbip.Serve.Late

/-! Unlinks and the other connections.  All connections share the pending lists, and each numbers
its URBs for itself; the unlink handler compares sequence numbers only. -/

namespace Usbip

open Lib

/-- The URB was submitted on connection `c` with the seqnum `n`. -/
def Urb.isOwn (c : ConnId) (n : UInt32) (u : Urb) : Bool := u.conn == c && u.seqnum == n

/-! ### Devices that behave the same -/

/-- Two devices that differ only in where the nodes of their pending lists lie. -/
structure DevState.Same (s r : DevState) : Prop where
  eps : ∀ e, (s.eps e).Same (r.eps e)
  conns : s.conns = r.conns

/-- The threads of a connection see of an endpoint whether it is halted, and its calls. -/
theorem Conn.step_congr (dev : Plugged) {eps eps' : EpId → EpState}
    (h : ∀ e, (eps e).halted = (eps' e).halted ∧ (eps e).calls = (eps' e).calls) (c : ConnId)
    (conn : Conn) (a : ConnAct) : conn.step dev eps c a = conn.step dev eps' c a := by
  have hdispatch : ∀ sub, Conn.dispatch dev eps sub = Conn.dispatch dev eps' sub := fun sub => by
    unfold Conn.dispatch
    simp only [(h _).1, (h _).2]
  have hcontrol : ∀ sub request,
      Conn.handleControl dev eps sub request = Conn.handleControl dev eps' sub request :=
    fun sub request => by cases request <;> simp only [Conn.handleControl, (h _).2]
  cases a with
  | submit sub => simp only [Conn.step, hdispatch]
  | serve => simp only [Conn.step, Conn.serve, hcontrol, (h _).2]
  | _ => rfl

namespace DevState

variable {dev : Plugged} {s r : DevState}

theorem Same.onEp (h : s.Same r) (e : EpId) (b : EpAct) :
    Option.Rel (fun x y => x.1.Same y.1 ∧ x.2 = y.2) (s.onEp e b) (r.onEp e b) := by
  have hstep := (h.eps e).step b
  unfold DevState.onEp
  cases hs : (s.eps e).step b <;> cases hr : (r.eps e).step b <;> rw [hs, hr] at hstep
  · exact .none
  · cases hstep
  · cases hstep
  · obtain ⟨hsame, hevents⟩ := Option.rel_some_some.mp hstep
    refine .some ⟨⟨fun e' => ?_, h.conns⟩, congrArg (List.map (DevEvent.ep e)) hevents⟩
    by_cases he : e' = e
    · subst he
      simpa using hsame
    · simpa [setEp_eps_of_ne _ _ he] using h.eps e'

theorem Same.step (h : s.Same r) (a : DevAct) :
    Option.Rel (fun x y => x.1.Same y.1 ∧ x.2 = y.2) (s.step dev a) (r.step dev a) := by
  cases a with
  | connect => exact .some ⟨⟨h.eps, by simp only [h.conns]⟩, rfl⟩
  | app e b =>
    simp only [DevState.step]
    split
    · exact h.onEp e b
    · exact .none
  | conn c b =>
    have hread : ∀ e, (s.eps e).halted = (r.eps e).halted ∧ (s.eps e).calls = (r.eps e).calls :=
      fun e => by rw [(h.eps e).eq]; exact ⟨rfl, rfl⟩
    simp only [DevState.step, ← h.conns]
    split
    · exact .none
    · rename_i conn hfound
      rw [← Conn.step_congr dev hread]
      split
      · exact .none
      · rename_i conn' sect sent hconn
        have hset : (s.setConn c conn').Same (r.setConn c conn') :=
          ⟨h.eps, by simp only [setConn, h.conns]⟩
        cases sect with
        | none => exact .some ⟨hset, rfl⟩
        | some sect =>
          obtain ⟨e, b⟩ := sect
          have hep := hset.onEp e b
          simp only [runSection]
          cases hs : (s.setConn c conn').onEp e b <;> cases hr : (r.setConn c conn').onEp e b <;>
            rw [hs, hr] at hep
          · exact .none
          · cases hep
          · cases hep
          · obtain ⟨hsame, hevents⟩ := Option.rel_some_some.mp hep
            exact .some ⟨hsame, congrArg (· ++ sent) hevents⟩

end DevState

/-- Two runs that cannot be told apart from outside. -/
structure DevTrace.Same (t u : DevTrace) : Prop where
  dev : t.dev.Same u.dev
  log : t.log = u.log

theorem DevTrace.Same.exec_log {dev : Plugged} {t u : DevTrace} (h : t.Same u)
    (acts : List DevAct) :
    (exec (DevTrace.step dev) t acts).map DevTrace.log =
      (exec (DevTrace.step dev) u acts).map DevTrace.log := by
  have hrel : Option.Rel DevTrace.Same (exec (DevTrace.step dev) t acts)
      (exec (DevTrace.step dev) u acts) := by
    refine exec_rel (fun t u a h => ?_) h
    have hstep : Option.Rel (fun x y => x.1.Same y.1 ∧ x.2 = y.2) (t.dev.step dev a)
        (u.dev.step dev a) := h.dev.step a
    unfold DevTrace.step
    cases ht : t.dev.step dev a <;> cases hu : u.dev.step dev a <;> rw [ht, hu] at hstep
    · exact .none
    · cases hstep
    · cases hstep
    · obtain ⟨hsame, hevents⟩ := Option.rel_some_some.mp hstep
      exact .some ⟨hsame, congrArg₂ (· ++ ·) h.log hevents⟩
  generalize exec (DevTrace.step dev) t acts = x at hrel ⊢
  generalize exec (DevTrace.step dev) u acts = y at hrel ⊢
  cases hrel with
  | none => rfl
  | some hsame => exact congrArg some hsame.log

/-! ### Exact unlinks -/

namespace DevTrace

/-- The device with another pending list on endpoint `e`. -/
def withPend (t : DevTrace) (e : EpId) (q : PendQueue) : DevTrace :=
  ⟨t.dev.setEp e { t.dev.eps e with pend := q }, t.log⟩

/-- What one section of an unlink of `n` on connection `c` may do, when the walk has `slots` left:
it removes the URBs of `c` with the seqnum `n` from the list that it visits and touches nothing
else, and from then on the device behaves as one whose list holds exactly the other URBs. -/
structure UnlinkExact (dev : Plugged) (t t' : DevTrace) (c : ConnId) (n : UInt32)
    (slots : List (Nat × Dir)) : Prop where
  visited : ∀ e ∈ dev.mapped (slots.take 1), (t'.dev.eps e).pend.urbs =
    (t.dev.eps e).pend.urbs.filter fun u => !u.isOwn c n
  others : ∀ e ∉ dev.mapped (slots.take 1), t'.dev.eps e = t.dev.eps e
  /-- a URB that is parked later joins behind those that are left -/
  joins : ∀ e u, ((t'.dev.eps e).pend.park u).urbs = (t'.dev.eps e).pend.urbs ++ [u]
  later : ∀ e ∈ dev.mapped (slots.take 1), ∀ q : PendQueue, q.Tight →
    (q.urbs = (t.dev.eps e).pend.urbs.filter fun u => !u.isOwn c n) → ∀ acts,
      (exec (DevTrace.step dev) t' acts).map DevTrace.log =
        (exec (DevTrace.step dev) (t'.withPend e q) acts).map DevTrace.log
  otherConns : ∀ c', c' ≠ c → t'.dev.conns[c']? = t.dev.conns[c']?
  paced : slots = [] → ∀ conn ∈ t.dev.conns[c]?, ∀ conn' ∈ t'.dev.conns[c]?,
    conn'.paceHead = conn.paceHead.filter fun entry => entry.seqnum ≠ n
  /-- in the end no URB of `c` with the seqnum `n` is parked -/
  complete : slots = [] → ∀ e, ∀ u ∈ (t'.dev.eps e).pend.urbs, ¬u.isOwn c n

/-- The sections of unlinks are exact. -/
def SparesOthers (dev : Plugged) (t : DevTrace) : DevAct → Prop
  | .conn c .serve => ∀ q n slots, t.dev.At c (.unlinking q n slots) → ∀ t',
    t.step dev (.conn c .serve) = some t' → UnlinkExact dev t t' c n slots
  | _ => True

end DevTrace

/-- The seqnum and the slots of an unlink in progress. -/
def Serving.visiting : Serving → Option (UInt32 × List (Nat × Dir))
  | .unlinking _ unlinkSeqnum slots => some (unlinkSeqnum, slots)
  | _ => none

/-- On the list that an unlink visits, its seqnum belongs to its own connection only, and the unlink
spares the last node or frees them all. -/
def UnlinkOwnOnly (dev : Plugged) (t : DevTrace) : DevAct → Prop
  | .conn c .serve =>
    ∀ conn ∈ t.dev.conns[c]?, ∀ x ∈ conn.serving.visiting, ∀ e ∈ dev.mapped (x.2.take 1),
      (∀ u ∈ (t.dev.eps e).pend.urbs, u.seqnum = x.1 → u.conn = c) ∧
        (t.dev.eps e).pend.SparesTail x.1
  | _ => True

namespace DevTrace

variable {dev : Plugged} {t t' : DevTrace} {a : DevAct} {c : ConnId} {conn : Conn}
  {q n : UInt32} {number : Nat} {dir : Dir} {slots : List (Nat × Dir)} {e : EpId}

/-- What a run keeps whose unlinks find only URBs of their own connections. -/
structure IsolationInv (dev : Plugged) (t : DevTrace) : Prop where
  owned : t.dev.Owned
  routed : t.dev.Routed dev
  walked : ∀ c, t.dev.Walked dev c
  tight : ∀ e, (t.dev.eps e).pend.Tight

theorem isolationInv_new (dev : Plugged) : IsolationInv dev (.new dev) where
  owned := DevState.owned_new dev
  routed := DevState.routed_new dev
  walked := DevState.walked_new dev
  tight _ := PendQueue.tight_empty

theorem IsolationInv.step (h : IsolationInv dev t) (hc : UnlinkOwnOnly dev t a)
    (hs : t.step dev a = some t') : IsolationInv dev t' := by
  obtain ⟨events, hstep, -⟩ := step_some hs
  have hdev := DevState.step_step hstep
  refine ⟨h.owned.step hdev, h.routed.step hdev,
    fun c => (h.walked c).step h.owned h.routed hdev, fun e => ?_⟩
  rcases DevState.epStep_of_devStep hdev e with heq | ⟨b, evs, hep, -, hunlink⟩
  · rw [heq]
    exact h.tight e
  · refine hep.tight (h.tight e) fun n hb => ?_
    obtain ⟨c, q, slots, rfl, hat, he⟩ := hunlink n hb
    obtain ⟨conn, hfound, hpc⟩ := DevState.at_iff.mp hat
    exact (hc conn hfound (n, slots) (by rw [hpc]; rfl) e he).2

theorem step_unlinkSlot (found : t.dev.conns[c]? = some conn)
    (hpc : conn.serving = .unlinking q n ((number, dir) :: slots))
    (hmap : dev.epMap number dir = some e) : t.step dev (.conn c .serve) =
      some ⟨(t.dev.setConn c { conn with serving := .unlinking q n slots }).setEp e
        { t.dev.eps e with pend := ((t.dev.eps e).pend.unlink n).1 },
        t.log ++ (((t.dev.eps e).pend.unlink n).2.map fun urb => .ep e (.freed urb n))⟩ := by
  simp [DevTrace.step, DevState.step, Conn.step, Conn.serve, found, hpc, hmap,
    DevState.runSection, DevState.onEp, EpState.step]

theorem step_skipSlot (found : t.dev.conns[c]? = some conn)
    (hpc : conn.serving = .unlinking q n ((number, dir) :: slots))
    (hmap : dev.epMap number dir = none) : t.step dev (.conn c .serve) =
      some ⟨t.dev.setConn c { conn with serving := .unlinking q n slots }, t.log⟩ := by
  simp [DevTrace.step, DevState.step, Conn.step, Conn.serve, found, hpc, hmap,
    DevState.runSection]

theorem step_unlinkPaced (found : t.dev.conns[c]? = some conn)
    (hpc : conn.serving = .unlinking q n []) : t.step dev (.conn c .serve) =
      some ⟨t.dev.setConn c { conn with
        serving := .replyUnlink q n
        paceHead := conn.paceHead.filter fun entry => entry.seqnum ≠ n }, t.log⟩ := by
  simp [DevTrace.step, DevState.step, Conn.step, Conn.serve, found, hpc, DevState.runSection]

/-- When all URBs with the seqnum are the connection's own, the code removes what it should. -/
theorem filter_seqnum_eq {l : List Urb} (h : ∀ u ∈ l, u.seqnum = n → u.conn = c) :
    (l.filter fun u => !(u.seqnum == n)) = l.filter fun u => !u.isOwn c n := by
  refine List.filter_congr fun u hu => ?_
  by_cases hseq : u.seqnum = n
  · simp [Urb.isOwn, hseq, h u hu hseq]
  · simp [Urb.isOwn, hseq]

theorem own_of_filter_eq {l : List Urb}
    (h : (l.filter fun u => !(u.seqnum == n)) = l.filter fun u => !u.isOwn c n) :
    ∀ u ∈ l, u.seqnum = n → u.conn = c := by
  intro u hu hseq
  by_contra hconn
  have hin : u ∈ l.filter fun u => !u.isOwn c n :=
    List.mem_filter.mpr ⟨hu, by simp [Urb.isOwn, hconn]⟩
  rw [← h] at hin
  simpa [hseq] using (List.mem_filter.mp hin).2

theorem tight_of_joins {p : PendQueue} (h : ∀ u, (p.park u).urbs = p.urbs ++ [u]) : p.Tight := by
  refine PendQueue.tight_iff.mpr fun hnone => ?_
  have := h (.bulkIn 0 0 0)
  rw [PendQueue.urbs_park, if_pos hnone, List.nil_append] at this
  exact (List.append_eq_singleton_iff.mp this.symm).elim (·.1) fun h => by simp at h

/-- The connection's next section is exact when it meets the condition. -/
theorem unlinkExact_of_own (h : IsolationInv dev t) (hc : UnlinkOwnOnly dev t (.conn c .serve))
    (hat : t.dev.At c (.unlinking q n slots)) (hs : t.step dev (.conn c .serve) = some t') :
    UnlinkExact dev t t' c n slots := by
  have htight := (h.step hc hs).tight
  have hwalked := (h.step hc hs).walked c
  obtain ⟨conn, found, hpc⟩ := DevState.at_iff.mp hat
  have hown := hc conn found (n, slots) (by rw [hpc]; rfl)
  cases slots with
  | nil =>
    rw [step_unlinkPaced found hpc, Option.some.injEq] at hs
    subst hs
    refine ⟨by simp [Plugged.mapped], fun _ _ => rfl, fun e u => (htight e).urbs_park u,
      by simp [Plugged.mapped], fun c' hc' => ?_, fun _ conn₀ h₀ conn' h' => ?_, ?_⟩
    · rw [DevState.setConn_conns found, if_neg hc']
    · obtain rfl : conn = conn₀ := Option.some.inj (found.symm.trans h₀)
      rw [Option.mem_def, DevState.setConn_conns found, if_pos rfl] at h'
      cases h'
      rfl
    · intro _ e u hu hown
      have hdone := (hwalked.confirming q n (DevState.at_iff.mpr
        ⟨_, by rw [DevState.setConn_conns found, if_pos rfl], rfl⟩)).1 e u hu
      simp only [Urb.isOwn, Bool.and_eq_true, beq_iff_eq] at hown
      exact hdone hown.1 hown.2
  | cons slot slots =>
    obtain ⟨number, dir⟩ := slot
    cases hmap : dev.epMap number dir with
    | none =>
      have hnone : dev.mapped (((number, dir) :: slots).take 1) = [] := by
        simp [Plugged.mapped, hmap]
      rw [step_skipSlot found hpc hmap, Option.some.injEq] at hs
      subst hs
      exact ⟨by rw [hnone]; simp, fun _ _ => rfl, fun e u => (htight e).urbs_park u,
        by rw [hnone]; simp, fun c' hc' => by rw [DevState.setConn_conns found, if_neg hc'],
        by simp, by simp⟩
    | some e =>
      have hone : dev.mapped (((number, dir) :: slots).take 1) = [e] := by
        simp [Plugged.mapped, hmap]
      rw [hone] at hown
      obtain ⟨hconn, -⟩ := hown e (List.mem_singleton_self e)
      rw [step_unlinkSlot found hpc hmap, Option.some.injEq] at hs
      subst hs
      have hurbs : ((t.dev.eps e).pend.unlink n).1.urbs =
          (t.dev.eps e).pend.urbs.filter fun u => !u.isOwn c n := by
        rw [PendQueue.urbs_unlink, filter_seqnum_eq hconn]
      refine ⟨?_, ?_, fun e u => (htight e).urbs_park u, ?_, ?_, by simp, by simp⟩
      · rw [hone]
        intro e' he'
        obtain rfl := List.mem_singleton.mp he'
        simpa using hurbs
      · rw [hone]
        intro e' he'
        exact DevState.setEp_eps_of_ne _ _ (by simpa using he')
      · rw [hone]
        intro e' he' p hp hpurbs acts
        obtain rfl := List.mem_singleton.mp he'
        apply Same.exec_log
        refine ⟨⟨fun e₁ => ?_, rfl⟩, rfl⟩
        by_cases he₁ : e₁ = e'
        · subst he₁
          simp only [withPend, DevState.setEp_eps_self]
          refine .of_pend (PendQueue.Tight.same ?_ hp ?_)
          · simpa using htight e₁
          · exact hurbs.trans hpurbs.symm
        · simp only [withPend, DevState.setEp_eps_of_ne _ _ he₁]
          exact .refl _
      · intro c' hc'
        rw [DevState.setEp_conns, DevState.setConn_conns found, if_neg hc']

/-- A connection's next section meets the condition when it is exact. -/
theorem own_of_unlinkExact (h : IsolationInv dev t)
    (hs : SparesOthers dev t (.conn c .serve)) : UnlinkOwnOnly dev t (.conn c .serve) := by
  intro conn found x hx e he
  obtain ⟨n, slots⟩ := x
  obtain ⟨q, hpc⟩ : ∃ q, conn.serving = .unlinking q n slots := by
    unfold Serving.visiting at hx
    split at hx
    · rename_i q n' slots' hpc
      cases hx
      exact ⟨q, hpc⟩
    · cases hx
  cases slots with
  | nil => simp [Plugged.mapped] at he
  | cons slot slots =>
    obtain ⟨number, dir⟩ := slot
    have hmap : dev.epMap number dir = some e := by simpa [Plugged.mapped] using he
    have hexact := hs q n _ (DevState.at_iff.mpr ⟨conn, found, hpc⟩) _
      (step_unlinkSlot found hpc hmap)
    refine ⟨own_of_filter_eq ?_, (h.tight e).unlink.mp (tight_of_joins fun u => ?_)⟩
    · rw [← PendQueue.urbs_unlink]
      simpa using hexact.visited e he
    · simpa using hexact.joins e u

/-- In every run, the sections of unlinks are exact if and only if each finds its seqnum on its own
connection's URBs only, and spares the last node of the list or frees all nodes. -/
theorem unlinks_spare_others_iff (dev : Plugged) (acts : List DevAct) :
    Guarded (DevTrace.step dev) (SparesOthers dev) (.new dev) acts ↔
      Guarded (DevTrace.step dev) (UnlinkOwnOnly dev) (.new dev) acts := by
  refine guarded_congr (I := IsolationInv dev) (fun t a hi => ?_)
    (fun _ _ _ hi hc hs => hi.step hc hs) (isolationInv_new dev)
  cases a with
  | conn c b =>
    cases b with
    | serve => exact ⟨own_of_unlinkExact hi, fun hc q n slots hat t' hs =>
        unlinkExact_of_own hi hc hat hs⟩
    | _ => exact Iff.rfl
  | _ => exact Iff.rfl

/-- Two hosts each submit their first URB to the same endpoint, and the first host begins to unlink
its own. -/
def sameSeqnumRun : List DevAct :=
  [.connect, .connect, .conn 0 (.submit (.bulkIn 1 64)), .app 0 (.run 0), .conn 0 .serve,
    .conn 1 (.submit (.bulkIn 1 64)), .app 0 (.run 1), .conn 1 .serve] ++
    .conn 0 (.unlink 2 1) :: List.replicate 3 (.conn 0 .serve)

/-- The next section of `sameSeqnumRun` removes the second host's URB too. -/
theorem unlinks_spare_others_fails : ¬∀ acts,
    Guarded (DevTrace.step .oneIn) (SparesOthers .oneIn) (.new .oneIn) acts := by
  intro h
  have hrun : ((exec (DevTrace.step .oneIn) (.new .oneIn) sameSeqnumRun).bind fun t =>
      (t.step .oneIn (.conn 0 .serve)).map fun t' =>
        decide (t.dev.At 0 (.unlinking 2 1 (epSlots.drop 3)) ∧
          (t.dev.eps 0).pend.urbs.map Urb.conn = [0, 1] ∧ (t'.dev.eps 0).pend.urbs = [])) =
      some true := by decide
  obtain ⟨t, ht, hrun⟩ := Option.bind_eq_some_iff.mp hrun
  obtain ⟨t', ht', hend⟩ := Option.map_eq_some_iff.mp hrun
  obtain ⟨hat, hbefore, hafter⟩ := of_decide_eq_true hend
  have hexact := (h (sameSeqnumRun ++ [.conn 0 .serve])).at ht 2 1 _ hat t' ht'
  have hfilter := hexact.visited 0 (by decide)
  rw [hafter] at hfilter
  obtain ⟨u, hu, hconn⟩ := List.mem_map.mp (show 1 ∈ (t.dev.eps 0).pend.urbs.map Urb.conn by
    simp [hbefore])
  have := List.filter_eq_nil_iff.mp hfilter.symm u hu
  simp [Urb.isOwn, hconn] at this

end DevTrace

end Usbip
