import Usbip.Lib.History
import Usbip.Libusb.Queues

/-! What becomes of the transfers.  An application that leaves a transfer alone from the submission
to the callback gets one callback for each submission; the library neither looks whether a transfer
is already submitted nor expects it to be freed by its callback. -/

namespace Usbip.Libusb

open Lib

/-! ### The log -/

def submits (log : List AsyncEvent) (it : XferId) : Nat := log.count (.submitted it)

def AsyncEvent.isCall (it : XferId) : AsyncEvent → Bool
  | .called j _ _ => j = it
  | _ => false

def calls (log : List AsyncEvent) (it : XferId) : Nat := log.countP (AsyncEvent.isCall it)

def doomStep (it : XferId) (doomed : Bool) : AsyncEvent → Bool
  | .cancel j _ queued => if j = it ∧ queued then true else doomed
  | .called j _ _ => if j = it then false else doomed
  | _ => doomed

/-- The transfer has been cancelled while it was queued, and not been given back since. -/
def doomed (log : List AsyncEvent) (it : XferId) : Bool := log.foldl (doomStep it) false

/-- What may happen after the events of `log`: a transfer that is queued or in flight is not queued
once more, one that was cancelled while it was queued is not sent and comes back as cancelled, a
callback answers a submission, and no transfer is touched that has been freed. -/
def Allowed (log : List AsyncEvent) : AsyncEvent → Prop
  | .submitted it => submits log it = calls log it
  | .sent it => doomed log it = false
  | .called it _ status =>
    calls log it < submits log it ∧ (doomed log it = true → status = .cancelled)
  | .stale _ => False
  | .refused .. | .cancel .. => True

/-- The event counts for the transfer. -/
def AsyncEvent.Concerns (it : XferId) : AsyncEvent → Prop
  | .submitted j | .called j _ _ => j = it
  | .cancel j _ queued => j = it ∧ queued = true
  | .refused .. | .sent _ | .stale _ => False

/-- Two logs tell the same of a transfer. -/
structure SameFor (it : XferId) (log log' : List AsyncEvent) : Prop where
  submits : submits log' it = submits log it
  calls : calls log' it = calls log it
  doomed : doomed log' it = doomed log it
  called : ∀ callback status, .called it callback status ∈ log' → .called it callback status ∈ log

section Log

variable {log : List AsyncEvent} {e : AsyncEvent} {it : XferId}

theorem submits_concat :
    submits (log ++ [e]) it = submits log it + if e = .submitted it then 1 else 0 := by
  rw [submits, List.count_append, List.count_singleton, submits]
  simp

theorem calls_concat :
    calls (log ++ [e]) it = calls log it + if e.isCall it then 1 else 0 := by
  rw [calls, List.countP_append, List.countP_singleton, calls]

theorem doomed_concat : doomed (log ++ [e]) it = doomStep it (doomed log it) e :=
  List.foldl_concat ..

theorem SameFor.refl (it : XferId) (log : List AsyncEvent) : SameFor it log log :=
  ⟨rfl, rfl, rfl, fun _ _ => id⟩

theorem SameFor.concat (h : ¬e.Concerns it) : SameFor it log (log ++ [e]) where
  submits := by
    rw [submits_concat, if_neg, Nat.add_zero]
    rintro rfl
    exact h rfl
  calls := by
    rw [calls_concat, if_neg, Nat.add_zero]
    intro hcall
    cases e with
    | called j callback status =>
      have heq : j = it := by simpa [AsyncEvent.isCall] using hcall
      exact h heq
    | submitted | refused | cancel | sent | stale => simp [AsyncEvent.isCall] at hcall
  doomed := by
    rw [doomed_concat]
    cases e with
    | called j callback status => exact if_neg h
    | cancel j rc queued => exact if_neg h
    | submitted | refused | sent | stale => rfl
  called callback status hmem := by
    rcases List.mem_append.mp hmem with hmem | hmem
    · exact hmem
    · rw [List.mem_singleton] at hmem
      subst hmem
      exact absurd rfl h

theorem calls_pos {callback : Bool} {status : XferStatus} (h : .called it callback status ∈ log) :
    0 < calls log it :=
  List.countP_pos_iff.mpr ⟨_, h, by simp [AsyncEvent.isCall]⟩

end Log

/-! ### What the application does -/

namespace Async

/-- The handler has called the transfer back and has yet to look at it once more. -/
def Busies (s : Async) (h : Nat) (it : XferId) : Prop :=
  ∃ pc, s.handlers[h]? = some pc ∧ pc.busy = some it

def Busy (s : Async) (it : XferId) : Prop := ∃ pc ∈ s.handlers, pc.busy = some it

instance (s : Async) (it : XferId) : Decidable (s.Busy it) :=
  inferInstanceAs (Decidable (∃ pc ∈ s.handlers, pc.busy = some it))

theorem Busies.busy {s : Async} {h : Nat} {it : XferId} (hb : s.Busies h it) : s.Busy it := by
  obtain ⟨pc, hpc, hbusy⟩ := hb
  exact ⟨pc, List.mem_of_getElem? hpc, hbusy⟩

end Async

/-- A transfer is submitted only while no submission of it is under way, and when the library is to
free it, not from its callback; it is freed only while no submission and no cancellation of it is
under way, and not from its callback. -/
def Proper (t : AsyncTrace) : AsyncAct → Prop
  | .submit it => it ∉ t.state.submitting ∧ submits t.log it = calls t.log it ∧
    ((t.state.get it).freeTransfer = true → ¬t.state.Busy it)
  | .free it => (it ∉ t.state.submitting ∧ submits t.log it = calls t.log it ∧ ¬t.state.Busy it) ∧
    it ∉ t.state.cancelling
  | .flags h => ∀ pc ∈ t.state.handlers[h]?, ∀ it ∈ pc.busy,
    (t.state.get it).freeTransfer = true → it ∉ t.state.cancelling
  | _ => True

instance (t : AsyncTrace) : DecidablePred (Proper t)
  | .submit _ | .free _ => inferInstanceAs (Decidable (_ ∧ _))
  | .flags h => inferInstanceAs (Decidable (∀ pc ∈ t.state.handlers[h]?, ∀ it ∈ pc.busy, _))
  | .alloc .. | .enqueue .. | .cancel _ | .cancelLocked _ | .workerTake | .workerRun ..
  | .workerDone | .workerWrite | .handle | .poll .. | .read _ | .take _ | .walk _
  | .callbackReturns _ => isTrue trivial

/-! ### What a run keeps -/

/-- A transfer that was cancelled in time comes back as cancelled. -/
def Dies (s : Async) (it : XferId) (x : ITransfer) : Place → Prop
  | .app | .submitting => False
  | .subq => x.cancelled = true
  | .worker => s.worker = .taken it true ∨ s.worker = .ran it ∧ x.status = .cancelled
  | .doneq | .taken _ => x.status = .cancelled

/-- What is known of a transfer. -/
structure Transfer (s : Async) (log : List AsyncEvent) (loc : XferId → Place) (it : XferId) :
    Prop where
  live : s.heap it = none → loc it = .app ∧ ∀ h, ¬s.Busies h it
  queued : ∀ x, s.heap it = some x → (x.state = .queued ↔ loc it = .subq)
  /-- what a handler is about to free, it alone has -/
  owned : ∀ x, s.heap it = some x → x.freeTransfer = true → ∀ h, s.Busies h it →
    loc it = .app ∧ ∀ h', s.Busies h' it → h' = h
  dies : doomed log it = true → ∃ x, s.heap it = some x ∧ Dies s it x (loc it)
  counted : submits log it = calls log it + (loc it).due
  callback : ∀ x, s.heap it = some x → ∀ callback status, .called it callback status ∈ log →
    callback = x.callback

structure Kept (s : Async) (log : List AsyncEvent) (loc : XferId → Place) : Prop where
  arranged : s.Arranged loc
  transfers : ∀ it, Transfer s log loc it
  fresh : ∀ it, s.brk ≤ it → s.heap it = none ∧ submits log it = 0
  started : s.subq.head ≠ none → s.workerStarted = true
  lawful : Lawful Allowed log

section Transfer

variable {s s' : Async} {log log' : List AsyncEvent} {loc loc' : XferId → Place} {it j : XferId}

/-- A step that does not concern the transfer writes at most its `next` field. -/
theorem Transfer.congr_next (ht : Transfer s log loc j)
    (hnone : s'.heap j = none → s.heap j = none)
    (hview : ∀ x, s'.heap j = some x → ∃ y n, s.heap j = some y ∧ x = { y with next := n })
    (hlive : ∀ y, s.heap j = some y → ∃ n, s'.heap j = some { y with next := n })
    (hloc : loc' j = loc j) (hbusy : ∀ h, s'.Busies h j → s.Busies h j)
    (hworker : loc j = .worker → s'.worker = s.worker) (hlog : SameFor j log log') :
    Transfer s' log' loc' j where
  live h := by
    obtain ⟨happ, hidle⟩ := ht.live (hnone h)
    exact ⟨hloc.trans happ, fun h hb => hidle h (hbusy h hb)⟩
  queued x hx := by
    obtain ⟨y, n, hy, rfl⟩ := hview x hx
    rw [hloc]
    exact ht.queued y hy
  owned x hx hfree h hb := by
    obtain ⟨y, n, hy, rfl⟩ := hview x hx
    obtain ⟨happ, hone⟩ := ht.owned y hy hfree h (hbusy h hb)
    exact ⟨hloc.trans happ, fun h' hb' => hone h' (hbusy h' hb')⟩
  dies hd := by
    rw [hlog.doomed] at hd
    obtain ⟨y, hy, hdies⟩ := ht.dies hd
    obtain ⟨n, hn⟩ := hlive y hy
    refine ⟨_, hn, ?_⟩
    rw [hloc]
    cases hp : loc j with
    | app | submitting =>
      rw [hp] at hdies
      exact hdies
    | subq | doneq | taken =>
      rw [hp] at hdies
      exact hdies
    | worker =>
      rw [hp] at hdies
      rw [Dies, hworker hp]
      exact hdies
  counted := by
    rw [hlog.submits, hlog.calls, hloc]
    exact ht.counted
  callback x hx callback status hmem := by
    obtain ⟨y, n, hy, rfl⟩ := hview x hx
    exact ht.callback y hy callback status (hlog.called callback status hmem)

/-- A step that does not concern the transfer. -/
theorem Transfer.congr (ht : Transfer s log loc j) (hheap : s'.heap j = s.heap j)
    (hloc : loc' j = loc j) (hbusy : ∀ h, s'.Busies h j → s.Busies h j)
    (hworker : loc j = .worker → s'.worker = s.worker) (hlog : SameFor j log log') :
    Transfer s' log' loc' j := by
  exact ht.congr_next (fun h => hheap.symm.trans h)
    (fun x hx => ⟨x, x.next, hheap.symm.trans hx, rfl⟩) (fun y hy => ⟨y.next, hheap.trans hy⟩)
    hloc hbusy hworker hlog

/-- Putting another transfer on a queue writes at most the `next` field of this one. -/
theorem Transfer.link {q : Queue} (ht : Transfer s log loc j)
    (hheap : s'.heap = (s.link q it).1.heap) (hloc : loc' j = loc j)
    (hbusy : ∀ h, s'.Busies h j → s.Busies h j) (hworker : loc j = .worker → s'.worker = s.worker)
    (hlog : SameFor j log log') : Transfer s' log' loc' j := by
  refine ht.congr_next ?_ ?_ ?_ hloc hbusy hworker hlog
  · rw [hheap]
    exact Async.link_eq_none.mp
  · rw [hheap]
    exact fun _ => Async.link_view
  · rw [hheap]
    exact fun _ => Async.link_live q it

theorem Transfer.of_some {x : ITransfer} (hx : s.heap it = some x)
    (queued : x.state = .queued ↔ loc it = .subq)
    (owned : x.freeTransfer = true → ∀ h, s.Busies h it →
      loc it = .app ∧ ∀ h', s.Busies h' it → h' = h)
    (dies : doomed log it = true → Dies s it x (loc it))
    (counted : submits log it = calls log it + (loc it).due)
    (callback : ∀ callback status, .called it callback status ∈ log → callback = x.callback) :
    Transfer s log loc it where
  live h := by
    rw [hx] at h
    cases h
  queued y hy := by
    cases hx.symm.trans hy
    exact queued
  owned y hy := by
    cases hx.symm.trans hy
    exact owned
  dies h := ⟨x, hx, dies h⟩
  counted := counted
  callback y hy := by
    cases hx.symm.trans hy
    exact callback

/-- While the library has a transfer that it is to free, no handler is about to look at it. -/
theorem Transfer.not_busies (ht : Transfer s log loc it) {x : ITransfer} (hx : s.heap it = some x)
    (hfree : x.freeTransfer = true) (hloc : loc it ≠ .app) (h : Nat) : ¬s.Busies h it :=
  fun hb => hloc (ht.owned x hx hfree h hb).1

end Transfer

namespace Async

variable {s : Async} {it : XferId} {x : ITransfer}

theorem get_of_heap (hx : s.heap it = some x) : s.get it = x := by
  rw [get, hx]
  rfl

theorem touches_eq_nil {its : List XferId} (h : ∀ it ∈ its, s.heap it ≠ none) :
    s.touches its = [] := by
  rw [touches, List.map_eq_nil_iff, List.filter_eq_nil_iff]
  intro it hit
  simpa using h it hit

theorem modify_heap_some {f : ITransfer → ITransfer} (hx : s.heap it = some x) :
    (s.modify it f).heap it = some (f x) := by
  rw [modify_heap_self, hx]
  rfl

end Async

section Kept

variable {s s' : Async} {log : List AsyncEvent} {loc : XferId → Place} {it : XferId} {x : ITransfer}

theorem Kept.new (hasPipe : Bool) : Kept (.new hasPipe) [] fun _ => .app where
  arranged := .new hasPipe
  transfers it := {
    live := fun _ => ⟨rfl, fun h ⟨pc, hpc, _⟩ => by simp [Async.new] at hpc⟩
    queued := fun x hx => by cases hx
    owned := fun x hx => by cases hx
    dies := fun h => by cases h
    counted := rfl
    callback := fun x hx => by cases hx }
  fresh it _ := ⟨rfl, rfl⟩
  started h := absurd rfl h
  lawful := .nil

theorem Kept.live (hk : Kept s log loc) (hloc : loc it ≠ .app) : ∃ x, s.heap it = some x := by
  cases hx : s.heap it with
  | none => exact absurd ((hk.transfers it).live hx).1 hloc
  | some x => exact ⟨x, rfl⟩

theorem Kept.lt (hk : Kept s log loc) (hx : s.heap it = some x) : it < s.brk := by
  by_contra hge
  rw [(hk.fresh it (Nat.le_of_not_lt hge)).1] at hx
  cases hx

/-- A transfer that no submission is under way of is with the application. -/
theorem Kept.app (hk : Kept s log loc) (hwaits : it ∉ s.submitting)
    (hcount : submits log it = calls log it) : loc it = .app := by
  have hcounted := (hk.transfers it).counted
  cases hloc : loc it with
  | app => rfl
  | submitting => exact absurd ((hk.arranged.submitting it).mpr hloc) hwaits
  | subq | worker | doneq | taken =>
    rw [hloc, Place.due] at hcounted
    omega

/-- An event that counts for no transfer. -/
theorem Kept.told (hk : Kept s log loc) {e : AsyncEvent} (hnone : ∀ j, ¬e.Concerns j)
    (hallowed : Allowed log e) : Kept s (log ++ [e]) loc where
  arranged := hk.arranged
  transfers j := (hk.transfers j).congr rfl rfl (fun _ => id) (fun _ => rfl) (.concat (hnone j))
  fresh j hj := by
    rw [(SameFor.concat (hnone j)).submits]
    exact hk.fresh j hj
  started := hk.started
  lawful := hk.lawful.concat hallowed

/-- A step that touches no transfer. -/
theorem Kept.congr (hk : Kept s log loc) (ha : s'.Arranged loc) (hheap : s'.heap = s.heap)
    (hbrk : s'.brk = s.brk) (hbusy : ∀ h j, s'.Busies h j → s.Busies h j)
    (hworker : ∀ j, loc j = .worker → s'.worker = s.worker)
    (hstarted : s'.subq.head ≠ none → s'.workerStarted = true) : Kept s' log loc where
  arranged := ha
  transfers j := (hk.transfers j).congr (by rw [hheap]) rfl (fun h => hbusy h j) (hworker j)
    (.refl ..)
  fresh j hj := by
    rw [hheap]
    exact hk.fresh j (hbrk ▸ hj)
  started := hstarted
  lawful := hk.lawful

theorem Kept.alloc (hk : Kept s log loc) (devHandle callback freeTransfer : Bool) :
    Kept { s with
      heap := Function.update s.heap s.brk (some (.alloc devHandle callback freeTransfer))
      brk := s.brk + 1 } log loc := by
  obtain ⟨hnone, hzero⟩ := hk.fresh s.brk le_rfl
  obtain ⟨happ, hidle⟩ := (hk.transfers s.brk).live hnone
  have hcounted := (hk.transfers s.brk).counted
  exact {
    arranged := hk.arranged.congr rfl rfl rfl rfl rfl fun j hj =>
      links_update_of_ne fun heq => hj (heq ▸ happ)
    transfers := fun j => by
      by_cases hj : j = s.brk
      · subst hj
        refine .of_some (Function.update_self ..) ?_ ?_ ?_ hcounted ?_
        · simp [ITransfer.alloc, happ]
        · exact fun _ h hb => absurd hb (hidle h)
        · intro hdoomed
          obtain ⟨x, hx, -⟩ := (hk.transfers s.brk).dies hdoomed
          cases hnone.symm.trans hx
        · intro cb status hcalled
          have := calls_pos hcalled
          omega
      · exact (hk.transfers j).congr (Function.update_of_ne hj ..) rfl (fun _ => id) (fun _ => rfl)
          (.refl ..)
    fresh := fun j hj => by
      have hlt : s.brk < j := hj
      dsimp only
      rw [Function.update_of_ne (Nat.ne_of_gt hlt)]
      exact hk.fresh j (Nat.le_of_lt hlt)
    started := hk.started
    lawful := hk.lawful }

theorem Kept.free (hk : Kept s log loc) (hwaits : it ∉ s.submitting)
    (hcount : submits log it = calls log it) (hbusy : ¬s.Busy it) :
    Kept { s with heap := Function.update s.heap it none } log loc := by
  have happ := hk.app hwaits hcount
  have hnone : Function.update s.heap it none it = none := Function.update_self ..
  exact {
    arranged := hk.arranged.congr rfl rfl rfl rfl rfl fun j hj =>
      links_update_of_ne fun heq => hj (heq ▸ happ)
    transfers := fun j => by
      by_cases hj : j = it
      · subst hj
        exact {
          live := fun _ => ⟨happ, fun h hb => hbusy (Async.Busies.busy hb)⟩
          queued := fun x hx => by cases hnone.symm.trans hx
          owned := fun x hx => by cases hnone.symm.trans hx
          dies := fun hdoomed => by
            obtain ⟨x, -, hdies⟩ := (hk.transfers j).dies hdoomed
            rw [happ] at hdies
            exact hdies.elim
          counted := (hk.transfers j).counted
          callback := fun x hx => by cases hnone.symm.trans hx }
      · exact (hk.transfers j).congr (Function.update_of_ne hj ..) rfl (fun _ => id) (fun _ => rfl)
          (.refl ..)
    fresh := fun j hj => by
      by_cases heq : j = it
      · subst heq
        exact ⟨hnone, (hk.fresh j hj).2⟩
      · dsimp only
        rw [Function.update_of_ne heq]
        exact hk.fresh j hj
    started := hk.started
    lawful := hk.lawful }

/-- Cancelling a transfer that no submission is under way of dooms nothing. -/
theorem Kept.not_doomed (hk : Kept s log loc) (hdue : (loc it).due = 0) :
    doomed log it = false := by
  by_contra hdoomed
  rw [Bool.not_eq_false] at hdoomed
  obtain ⟨x, -, hdies⟩ := (hk.transfers it).dies hdoomed
  cases hloc : loc it with
  | app | submitting =>
    rw [hloc] at hdies
    exact hdies
  | subq | worker | doneq | taken =>
    rw [hloc] at hdue
    cases hdue

theorem Kept.submit (hk : Kept s log loc) (hx : s.heap it = some x) (hwaits : it ∉ s.submitting)
    (hcount : submits log it = calls log it) (hbusy : x.freeTransfer = true → ¬s.Busy it) :
    ∃ loc', Kept (s.submit it).1 (log ++ (s.submit it).2) loc' := by
  have happ := hk.app hwaits hcount
  have ht := hk.transfers it
  unfold Async.submit
  rw [Async.get_of_heap hx]
  split
  · refine ⟨Function.update loc it .submitting, ?_⟩
    rw [List.append_nil]
    let f : ITransfer → ITransfer := fun x =>
      { x with ctx := true, cancelled := false, status := .completed }
    have ha : (s.modify it f).Arranged loc := hk.arranged.modify fun _ => rfl
    exact {
      arranged := ha.enter happ
      transfers := fun j => by
        by_cases hj : j = it
        · subst hj
          refine .of_some (Async.modify_heap_some hx) ?_ ?_ ?_ ?_ (ht.callback x hx)
          · have hqueued := ht.queued x hx
            rw [happ] at hqueued
            simpa [Function.update_self] using hqueued
          · exact fun hfree h hb => absurd (Async.Busies.busy hb) (hbusy hfree)
          · intro hdoomed
            rw [hk.not_doomed (by rw [happ]; rfl)] at hdoomed
            cases hdoomed
          · rw [Function.update_self]
            simpa [happ, Place.due] using ht.counted
        · exact (hk.transfers j).congr (Async.modify_heap_of_ne hj) (Function.update_of_ne hj ..)
            (fun _ => id) (fun _ => rfl) (.refl ..)
      fresh := fun j hj => by
        obtain ⟨hnone, hzero⟩ := hk.fresh j hj
        exact ⟨Async.modify_eq_none.mpr hnone, hzero⟩
      started := hk.started
      lawful := hk.lawful }
  · exact ⟨loc, hk.told (fun _ => id) trivial⟩

theorem Kept.enqueue (hk : Kept s log loc) (hwaits : it ∈ s.submitting) (created : Bool) :
    ∃ loc', Kept (s.enqueue it created).1 (log ++ (s.enqueue it created).2) loc' := by
  have hit : loc it = .submitting := (hk.arranged.submitting it).mp hwaits
  obtain ⟨x, hx⟩ := hk.live (by rw [hit]; simp)
  have ht := hk.transfers it
  have hleft := hk.arranged.leave hit
  unfold Async.enqueue
  dsimp only
  split
  · refine ⟨Function.update loc it .subq, ?_⟩
    have htouches : ({ s with submitting := s.submitting.erase it } : Async).touches
        (it :: s.subq.tail.toList) = [] := by
      refine Async.touches_eq_nil fun j hj => ?_
      rcases List.mem_cons.mp hj with rfl | hj
      · simp [hx]
      · have hlines := hk.arranged.subq
        rw [Option.mem_toList.mp hj] at hlines
        have hloc : loc j = .subq := hlines.tail_mem
        obtain ⟨y, hy⟩ := hk.live (by rw [hloc]; simp)
        simp [hy]
    rw [htouches, List.nil_append]
    -- the transfer is out of the call, and queued
    let s1 : Async :=
      { s with submitting := s.submitting.erase it, workerStarted := true }.modify it
        fun x => { x with state := .queued }
    have hx1 : s1.heap it = some { x with state := .queued } := Async.modify_heap_some hx
    have ha1 : s1.Arranged (Function.update loc it .app) := by
      have ha0 : { s with submitting := s.submitting.erase it, workerStarted := true }.Arranged
          (Function.update loc it .app) := hleft.congr rfl rfl rfl rfl rfl fun _ _ => rfl
      exact ha0.modify fun _ => rfl
    have ha2 := ha1.link_subq (Function.update_self ..) hx1
    rw [Function.update_idem] at ha2
    obtain ⟨n, hx2⟩ := Async.link_live s1.subq it hx1
    obtain ⟨heap, hlink⟩ := Async.link_fst s1 s1.subq it
    have hheap : heap = (s1.link s1.subq it).1.heap := by rw [hlink]
    have hconcerns : ∀ j, j ≠ it → ¬(AsyncEvent.submitted it).Concerns j := fun j hj h => hj h.symm
    show Kept { (s1.link s1.subq it).1 with subq := (s1.link s1.subq it).2 } _ _
    rw [hlink] at ha2 hx2 ⊢
    exact {
      arranged := ha2
      transfers := fun j => by
        by_cases hj : j = it
        · subst hj
          refine .of_some hx2 ?_ ?_ ?_ ?_ ?_
          · simp
          · exact fun hfree h hb => absurd hb (ht.not_busies hx hfree (by rw [hit]; simp) h)
          · rw [doomed_concat]
            show doomed log j = true → _
            rw [hk.not_doomed (by rw [hit]; rfl)]
            simp
          · have hcounted := ht.counted
            rw [hit] at hcounted
            rw [submits_concat, calls_concat, Function.update_self, if_pos rfl, hcounted]
            simp [Place.due, AsyncEvent.isCall]
          · intro callback status hmem
            simp only [List.mem_append, List.mem_singleton, reduceCtorEq, or_false] at hmem
            exact ht.callback x hx callback status hmem
        · have h1 : Transfer s1 log loc j := (hk.transfers j).congr (Async.modify_heap_of_ne hj) rfl
            (fun _ => id) (fun _ => rfl) (.refl ..)
          exact h1.link hheap (Function.update_of_ne hj ..) (fun _ => id) (fun _ => rfl)
            (.concat (hconcerns j hj))
      fresh := fun j hj => by
        have hne : j ≠ it := Nat.ne_of_gt (Nat.lt_of_lt_of_le (hk.lt hx) hj)
        obtain ⟨hnone, hzero⟩ := hk.fresh j hj
        rw [(SameFor.concat (hconcerns j hne)).submits, hheap, Async.link_eq_none,
          Async.modify_heap_of_ne hne]
        exact ⟨hnone, hzero⟩
      started := fun _ => rfl
      lawful := hk.lawful.concat (by
        have hcounted := ht.counted
        rw [hit] at hcounted
        exact hcounted) }
  · refine ⟨Function.update loc it .app, ?_⟩
    refine Kept.told (e := .refused it libusbErrorOther) ?_ (fun _ => id) trivial
    exact {
      arranged := hleft
      transfers := fun j => by
        by_cases hj : j = it
        · subst hj
          refine .of_some hx ?_ ?_ ?_ ?_ (ht.callback x hx)
          · have hqueued := ht.queued x hx
            rw [hit] at hqueued
            simpa [Function.update_self] using hqueued
          · exact fun hfree h hb => absurd hb (ht.not_busies hx hfree (by rw [hit]; simp) h)
          · rw [hk.not_doomed (by rw [hit]; rfl)]
            simp
          · have hcounted := ht.counted
            rw [hit] at hcounted
            rw [Function.update_self]
            exact hcounted
        · exact (hk.transfers j).congr rfl (Function.update_of_ne hj ..) (fun _ => id)
            (fun _ => rfl) (.refl ..)
      fresh := hk.fresh
      started := hk.started
      lawful := hk.lawful }

theorem Dies.cancel {p : Place} (h : Dies s it x p) :
    Dies s it { x with cancelled := true } p := by
  cases p with
  | app | submitting => exact h
  | subq => rfl
  | worker | doneq | taken => exact h

theorem cancel_not_concerns (it : XferId) (rc : Int) (j : XferId) :
    ¬(AsyncEvent.cancel it rc false).Concerns j := fun h => by cases h.2

/-- Which calls wait for the lock to cancel is nothing to the transfers. -/
theorem Kept.cancelling (hk : Kept s log loc) (cancelling : List XferId) :
    Kept { s with cancelling } log loc :=
  hk.congr (hk.arranged.congr rfl rfl rfl rfl rfl fun _ _ => rfl) rfl rfl (fun _ _ => id)
    (fun _ _ => rfl) hk.started

theorem Kept.cancel (hk : Kept s log loc) (it : XferId) :
    Kept (s.cancel it).1 (log ++ (s.cancel it).2) loc := by
  unfold Async.cancel
  split
  · rw [List.append_nil]
    exact hk.cancelling _
  · exact hk.told (cancel_not_concerns it _) trivial

theorem Kept.cancelLocked (hk : Kept s log loc) (hx : s.heap it = some x) :
    Kept (s.cancelLocked it).1 (log ++ (s.cancelLocked it).2) loc := by
  have hleft := hk.cancelling (s.cancelling.erase it)
  have ht := hleft.transfers it
  unfold Async.cancelLocked
  rw [Async.get_of_heap hx, Async.touches_eq_nil (by simp [hx])]
  dsimp only
  rw [List.nil_append, List.nil_append]
  split
  · exact hleft.told (cancel_not_concerns it _) trivial
  · have hself := Async.modify_heap_some (s := { s with cancelling := s.cancelling.erase it })
      (f := fun x => { x with cancelled := true }) hx
    have hconcerns : ∀ j, j ≠ it →
        ¬(AsyncEvent.cancel it libusbSuccess (decide (x.state = .queued))).Concerns j :=
      fun j hj h => hj h.1.symm
    exact {
      arranged := hleft.arranged.modify fun _ => rfl
      transfers := fun j => by
        by_cases hj : j = it
        · subst hj
          refine .of_some hself (ht.queued x hx) (ht.owned x hx) ?_ ?_ ?_
          · rw [doomed_concat]
            intro hdoomed
            by_cases hqueued : x.state = .queued
            · rw [(ht.queued x hx).mp hqueued]
              rfl
            · rw [doomStep, if_neg (by simp [hqueued])] at hdoomed
              obtain ⟨y, hy, hdies⟩ := ht.dies hdoomed
              cases hx.symm.trans hy
              exact hdies.cancel
          · rw [submits_concat, calls_concat]
            simpa [AsyncEvent.isCall] using ht.counted
          · intro callback status hmem
            simp only [List.mem_append, List.mem_singleton, reduceCtorEq, or_false] at hmem
            exact ht.callback x hx callback status hmem
        · exact (hleft.transfers j).congr (Async.modify_heap_of_ne hj) rfl (fun _ => id)
            (fun _ => rfl) (.concat (hconcerns j hj))
      fresh := fun j hj => by
        have hne : j ≠ it := Nat.ne_of_gt (Nat.lt_of_lt_of_le (hk.lt hx) hj)
        obtain ⟨hnone, hzero⟩ := hk.fresh j hj
        rw [(SameFor.concat (hconcerns j hne)).submits]
        exact ⟨Async.modify_eq_none.mpr hnone, hzero⟩
      started := hk.started
      lawful := hk.lawful.concat trivial }

theorem Kept.workerTake (hk : Kept s log loc) (idle : s.worker = .idle)
    (head : s.subq.head = some it) :
    Kept (s.workerTake it).1 (log ++ (s.workerTake it).2) (Function.update loc it .worker) := by
  obtain ⟨hit, x, hx, hpop⟩ := hk.arranged.pop_subq head
  have ht := hk.transfers it
  have hworker : ∀ j, loc j ≠ .worker := fun j hj => by
    simpa [idle, Worker.its] using (hk.arranged.worker j).mpr hj
  have hself := Async.modify_heap_some (f := fun x => { x with state := .inflight }) hx
  have hmodify : ({ s with subq := ⟨x.next, if x.next = none then none else s.subq.tail⟩ }.modify it
      fun x => { x with state := .inflight }).Arranged (Function.update loc it .app) :=
    hpop.modify fun _ => rfl
  have hhold := hmodify.hold (w := .taken it x.cancelled) (Function.update_self ..)
    (by simp [Async.modify, idle, Worker.its]) rfl
  rw [Function.update_idem] at hhold
  unfold Async.workerTake
  rw [Async.get_of_heap hx, Async.touches_eq_nil (by simp [hx]), List.append_nil]
  exact {
    arranged := hhold
    transfers := fun j => by
      by_cases hj : j = it
      · subst hj
        refine .of_some hself ?_ ?_ ?_ ?_ (ht.callback x hx)
        · simp
        · exact fun hfree h hb => absurd hb (ht.not_busies hx hfree (by rw [hit]; simp) h)
        · intro hdoomed
          obtain ⟨y, hy, hdies⟩ := ht.dies hdoomed
          cases hx.symm.trans hy
          rw [hit] at hdies
          rw [Function.update_self]
          have hcancelled : x.cancelled = true := hdies
          left
          show Worker.taken j x.cancelled = .taken j true
          rw [hcancelled]
        · have hcounted := ht.counted
          rw [hit] at hcounted
          rw [Function.update_self]
          exact hcounted
      · exact (hk.transfers j).congr (Async.modify_heap_of_ne hj) (Function.update_of_ne hj ..)
          (fun _ => id) (fun h => absurd h (hworker j)) (.refl ..)
    fresh := fun j hj => by
      obtain ⟨hnone, hzero⟩ := hk.fresh j hj
      exact ⟨Async.modify_eq_none.mpr hnone, hzero⟩
    started := fun _ => hk.started (by rw [head]; simp)
    lawful := hk.lawful }

theorem Kept.at_worker (hk : Kept s log loc) {j : XferId} (hold : s.worker.its = [it])
    (hj : loc j = .worker) : j = it := by
  have hmem := (hk.arranged.worker j).mpr hj
  rw [hold] at hmem
  exact List.mem_singleton.mp hmem

/-- The worker has the result. -/
theorem Kept.finish (hk : Kept s log loc) {cancelled : Bool}
    (taken : s.worker = .taken it cancelled) {status : XferStatus}
    (hstatus : cancelled = true → status = .cancelled) (actualLength : Nat) :
    Kept { s.modify it fun x => { x with status, actualLength } with worker := .ran it }
      log loc := by
  have hits : s.worker.its = [it] := by rw [taken]; rfl
  have hit : loc it = .worker := (hk.arranged.worker it).mp (by simp [hits])
  obtain ⟨x, hx⟩ := hk.live (by rw [hit]; simp)
  have ht := hk.transfers it
  have hself := Async.modify_heap_some (f := fun x => { x with status, actualLength }) hx
  have hmodify : (s.modify it fun x => { x with status, actualLength }).Arranged loc :=
    hk.arranged.modify fun _ => rfl
  exact {
    arranged := hmodify.congr rfl rfl hits.symm rfl rfl fun _ _ => rfl
    transfers := fun j => by
      by_cases hj : j = it
      · subst hj
        refine .of_some hself (ht.queued x hx) (ht.owned x hx) ?_ ht.counted (ht.callback x hx)
        intro hdoomed
        obtain ⟨y, hy, hdies⟩ := ht.dies hdoomed
        rw [hit] at hdies ⊢
        rcases hdies with htaken | ⟨hran, -⟩
        · rw [taken] at htaken
          cases htaken
          exact .inr ⟨rfl, hstatus rfl⟩
        · rw [taken] at hran
          cases hran
      · exact (hk.transfers j).congr (Async.modify_heap_of_ne hj) rfl (fun _ => id)
          (fun h => absurd (hk.at_worker hits h) hj) (.refl ..)
    fresh := fun j hj => by
      obtain ⟨hnone, hzero⟩ := hk.fresh j hj
      exact ⟨Async.modify_eq_none.mpr hnone, hzero⟩
    started := hk.started
    lawful := hk.lawful }

theorem Kept.workerRun (hk : Kept s log loc) {cancelled : Bool}
    (taken : s.worker = .taken it cancelled) (status : XferStatus) (actual : Nat) :
    Kept (s.workerRun it cancelled status actual).1
      (log ++ (s.workerRun it cancelled status actual).2) loc := by
  have hit : loc it = .worker := (hk.arranged.worker it).mp (by simp [taken, Worker.its])
  obtain ⟨x, hx⟩ := hk.live (by rw [hit]; simp)
  unfold Async.workerRun
  rw [Async.touches_eq_nil (by simp [hx])]
  dsimp only
  split
  · rw [List.append_nil]
    exact hk.finish taken (fun _ => rfl) 0
  · rename_i hcancelled
    split
    · refine (hk.finish taken (fun h => absurd h hcancelled) actual).told (fun _ => id) ?_
      show doomed log it = false
      by_contra hdoomed
      rw [Bool.not_eq_false] at hdoomed
      obtain ⟨y, hy, hdies⟩ := (hk.transfers it).dies hdoomed
      rw [hit, Dies, taken] at hdies
      rcases hdies with htaken | ⟨hran, -⟩
      · cases htaken
        exact hcancelled rfl
      · cases hran
    · rw [List.append_nil]
      exact hk.finish taken (fun h => absurd h hcancelled) 0

theorem Kept.workerDone (hk : Kept s log loc) (ran : s.worker = .ran it) :
    Kept (s.workerDone it).1 (log ++ (s.workerDone it).2) (Function.update loc it .doneq) := by
  have hits : s.worker.its = [it] := by rw [ran]; rfl
  have hit : loc it = .worker := (hk.arranged.worker it).mp (by simp [hits])
  obtain ⟨x, hx⟩ := hk.live (by rw [hit]; simp)
  have ht := hk.transfers it
  have htouches : s.touches (it :: s.doneq.tail.toList) = [] := by
    refine Async.touches_eq_nil fun j hj => ?_
    rcases List.mem_cons.mp hj with rfl | hj
    · simp [hx]
    · have hlines := hk.arranged.doneq
      rw [Option.mem_toList.mp hj] at hlines
      have hloc : loc j = .doneq := hlines.tail_mem
      obtain ⟨y, hy⟩ := hk.live (by rw [hloc]; simp)
      simp [hy]
  obtain ⟨heap, hlink⟩ := Async.link_fst s s.doneq it
  have hheap : heap = (s.link s.doneq it).1.heap := by rw [hlink]
  -- the transfer leaves the worker, and is queued
  have hleft : { s with worker := .waking }.Arranged (Function.update loc it .app) :=
    hk.arranged.release hits rfl
  have hlinked := hleft.link_doneq (Function.update_self ..) hx
  rw [Function.update_idem] at hlinked
  obtain ⟨heap', hlink'⟩ := Async.link_fst { s with worker := .waking } s.doneq it
  have hsame : heap' = heap := by
    have hcongr := Async.link_heap_congr s.doneq it
      (show { s with worker := .waking }.heap = s.heap from rfl)
    rwa [hlink, hlink'] at hcongr
  rw [hlink', hsame, Async.link_snd] at hlinked
  obtain ⟨n, hself⟩ := Async.link_live s.doneq it hx
  rw [hlink] at hself
  unfold Async.workerDone
  rw [htouches, List.append_nil]
  dsimp only
  rw [hlink, Async.link_snd]
  exact {
    arranged := hlinked
    transfers := fun j => by
      by_cases hj : j = it
      · subst hj
        refine .of_some hself ?_ ?_ ?_ ?_ (ht.callback x hx)
        · have hqueued := ht.queued x hx
          rw [hit] at hqueued
          simpa [Function.update_self] using hqueued
        · exact fun hfree h hb => absurd hb (ht.not_busies hx hfree (by rw [hit]; simp) h)
        · intro hdoomed
          obtain ⟨y, hy, hdies⟩ := ht.dies hdoomed
          cases hx.symm.trans hy
          rw [hit] at hdies
          rw [Function.update_self]
          rcases hdies with htaken | ⟨-, hstatus⟩
          · rw [ran] at htaken
            cases htaken
          · exact hstatus
        · have hcounted := ht.counted
          rw [hit] at hcounted
          rw [Function.update_self]
          exact hcounted
      · exact (hk.transfers j).link hheap (Function.update_of_ne hj ..) (fun _ => id)
          (fun h => absurd (hk.at_worker hits h) hj) (.refl ..)
    fresh := fun j hj => by
      obtain ⟨hnone, hzero⟩ := hk.fresh j hj
      rw [hheap, Async.link_eq_none]
      exact ⟨hnone, hzero⟩
    started := hk.started
    lawful := hk.lawful }

/-! ### The handlers -/

theorem Async.busies_setHandler {h : Nat} {old pc : Handler} (hold : s.handlers[h]? = some old)
    (i : Nat) (j : XferId) :
    (s.setHandler h pc).Busies i j ↔ if h = i then pc.busy = some j else s.Busies i j := by
  rw [Busies, setHandler_handlers hold]
  split
  · simp
  · rfl

/-- A handler goes on with what it has. -/
theorem Kept.setHandler (hk : Kept s log loc) {h : Nat} {old pc : Handler}
    (hold : s.handlers[h]? = some old) (hlist : pc.list = old.list) (hbusy : pc.busy = old.busy) :
    Kept (s.setHandler h pc) log loc := by
  refine hk.congr (hk.arranged.setHandler hold hlist) rfl rfl ?_ (fun _ _ => rfl) hk.started
  intro i j hb
  rw [Async.busies_setHandler hold] at hb
  split at hb
  · rename_i hi
    subst hi
    exact ⟨old, hold, hbusy ▸ hb⟩
  · exact hb

theorem Kept.workerWrite (hk : Kept s log loc) (waking : s.worker = .waking) (pipe : Nat) :
    Kept { s with worker := .idle, pipe } log loc := by
  have hits : s.worker.its = [] := by rw [waking]; rfl
  refine hk.congr (hk.arranged.congr rfl rfl hits.symm rfl rfl fun _ _ => rfl) rfl rfl
    (fun _ _ => id) ?_ hk.started
  intro j hj
  have hmem := (hk.arranged.worker j).mpr hj
  rw [hits] at hmem
  cases hmem

theorem Kept.read (hk : Kept s log loc) (pipe : Nat) : Kept { s with pipe } log loc :=
  hk.congr (hk.arranged.congr rfl rfl rfl rfl rfl fun _ _ => rfl) rfl rfl (fun _ _ => id)
    (fun _ _ => rfl) hk.started

theorem Kept.handle (hk : Kept s log loc) {pc : Handler} (hlist : pc.list = none)
    (hbusy : pc.busy = none) : Kept { s with handlers := s.handlers ++ [pc] } log loc := by
  refine hk.congr (hk.arranged.handle hlist) rfl rfl ?_ (fun _ _ => rfl) hk.started
  rintro i j ⟨pc', hpc', hb⟩
  rw [List.getElem?_append] at hpc'
  split at hpc'
  · exact ⟨pc', hpc', hb⟩
  · have hsame : pc' = pc := List.mem_singleton.mp (List.mem_of_getElem? hpc')
    rw [hsame, hbusy] at hb
    cases hb

theorem Kept.take (hk : Kept s log loc) {h : Nat} (drained : s.handlers[h]? = some .drained) :
    Kept ({ s with doneq := ⟨none, none⟩ }.setHandler h (.walking s.doneq.head)) log
      (Async.grabbed loc h) := by
  have hbusy : ∀ i j, ({ s with doneq := ⟨none, none⟩ }.setHandler h
      (.walking s.doneq.head)).Busies i j → s.Busies i j := by
    intro i j hb
    rw [Async.busies_setHandler (s := { s with doneq := ⟨none, none⟩ }) drained] at hb
    split at hb
    · cases hb
    · exact hb
  exact {
    arranged := hk.arranged.grab drained rfl rfl
    transfers := fun j => by
      have ht := hk.transfers j
      by_cases hj : loc j = .doneq
      · have hloc : Async.grabbed loc h j = .taken h := if_pos hj
        obtain ⟨x, hx⟩ : ∃ x, s.heap j = some x := hk.live (by rw [hj]; simp)
        refine .of_some hx ?_ ?_ ?_ ?_ (ht.callback x hx)
        · have hqueued := ht.queued x hx
          rw [hj] at hqueued
          rw [hloc]
          simpa using hqueued
        · exact fun hfree i hb =>
            absurd (hbusy i j hb) (ht.not_busies hx hfree (by rw [hj]; simp) i)
        · intro hdoomed
          obtain ⟨y, hy, hdies⟩ := ht.dies hdoomed
          cases hx.symm.trans hy
          rw [hj] at hdies
          rw [hloc]
          exact hdies
        · have hcounted := ht.counted
          rw [hj] at hcounted
          rw [hloc]
          exact hcounted
      · exact ht.congr rfl (if_neg hj) (fun i => hbusy i j) (fun _ => rfl) (.refl ..)
    fresh := hk.fresh
    started := hk.started
    lawful := hk.lawful }

theorem Kept.walk (hk : Kept s log loc) {h : Nat}
    (walking : s.handlers[h]? = some (.walking (some it))) :
    Kept (s.walk h it).1 (log ++ (s.walk h it).2) (Function.update loc it .app) := by
  obtain ⟨hit, x, hx, hpop⟩ := hk.arranged.pop_taken walking rfl
  have ht := hk.transfers it
  have hself := Async.modify_heap_some (f := fun x => { x with state := .done }) hx
  unfold Async.walk
  rw [Async.get_of_heap hx, Async.touches_eq_nil (by simp [hx])]
  dsimp only
  rw [List.nil_append]
  generalize hpc : (if x.callback = true then Handler.calling it x.next
    else Handler.called it x.next) = pc
  have hlist : pc.list = x.next := by
    subst hpc
    split <;> rfl
  have hbusy : pc.busy = some it := by
    subst hpc
    split <;> rfl
  let done : ITransfer → ITransfer := fun x => { x with state := .done }
  have hbusies : ∀ i j, ((s.modify it done).setHandler h pc).Busies i j →
      if h = i then it = j else s.Busies i j := by
    intro i j hb
    rw [Async.busies_setHandler (s := s.modify it done) walking] at hb
    split at hb <;> rename_i hi
    · rw [hbusy] at hb
      rw [if_pos hi]
      exact Option.some.inj hb
    · rw [if_neg hi]
      exact hb
  have hone : x.freeTransfer = true → ∀ i, ((s.modify it done).setHandler h pc).Busies i it →
      h = i := by
    intro hfree i hb
    by_contra hi
    have hbefore := hbusies i it hb
    rw [if_neg hi] at hbefore
    exact ht.not_busies hx hfree (by rw [hit]; simp) i hbefore
  have hconcerns : ∀ j, j ≠ it → ¬(AsyncEvent.called it x.callback x.status).Concerns j :=
    fun j hj h => hj h.symm
  exact {
    arranged := (hpop pc hlist).modify fun _ => rfl
    transfers := fun j => by
      by_cases hj : j = it
      · subst hj
        refine .of_some hself ?_ ?_ ?_ ?_ ?_
        · simp
        · intro hfree i hb
          refine ⟨Function.update_self .., fun i' hb' => ?_⟩
          rw [← hone hfree i hb, ← hone hfree i' hb']
        · rw [doomed_concat]
          intro hdoomed
          simp [doomStep] at hdoomed
        · have hcounted := ht.counted
          rw [hit] at hcounted
          rw [submits_concat, calls_concat, Function.update_self]
          simpa [AsyncEvent.isCall, Place.due] using hcounted
        · intro callback status hmem
          rcases List.mem_append.mp hmem with hmem | hmem
          · exact ht.callback x hx callback status hmem
          · cases List.mem_singleton.mp hmem
            rfl
      · refine (hk.transfers j).congr (Async.modify_heap_of_ne hj) (Function.update_of_ne hj ..) ?_
          (fun _ => rfl) (.concat (hconcerns j hj))
        intro i hb
        have := hbusies i j hb
        split at this
        · exact absurd this.symm hj
        · exact this
    fresh := fun j hj => by
      have hne : j ≠ it := Nat.ne_of_gt (Nat.lt_of_lt_of_le (hk.lt hx) hj)
      obtain ⟨hnone, hzero⟩ := hk.fresh j hj
      rw [(SameFor.concat (hconcerns j hne)).submits]
      exact ⟨Async.modify_eq_none.mpr hnone, hzero⟩
    started := hk.started
    lawful := hk.lawful.concat (by
      have hcounted := ht.counted
      rw [hit, Place.due] at hcounted
      refine ⟨by omega, fun hdoomed => ?_⟩
      obtain ⟨y, hy, hdies⟩ := ht.dies hdoomed
      cases hx.symm.trans hy
      rw [hit] at hdies
      exact hdies) }

theorem Kept.flags (hk : Kept s log loc) {h : Nat} {list : Option XferId}
    (called : s.handlers[h]? = some (.called it list)) :
    Kept (s.flags h it list).1 (log ++ (s.flags h it list).2) loc := by
  have ht := hk.transfers it
  have hbusy : s.Busies h it := ⟨_, called, rfl⟩
  obtain ⟨x, hx⟩ : ∃ x, s.heap it = some x := by
    cases hx : s.heap it with
    | none => exact absurd hbusy ((ht.live hx).2 h)
    | some x => exact ⟨x, rfl⟩
  have hset : ∀ i j, (s.setHandler h (.walking list)).Busies i j → i ≠ h ∧ s.Busies i j := by
    intro i j hb
    rw [Async.busies_setHandler called] at hb
    split at hb <;> rename_i hi
    · cases hb
    · exact ⟨Ne.symm hi, hb⟩
  have hnext : Kept (s.setHandler h (.walking list)) log loc :=
    hk.congr (hk.arranged.setHandler called rfl) rfl rfl (fun i j hb => (hset i j hb).2)
      (fun _ _ => rfl) hk.started
  unfold Async.flags
  rw [Async.get_of_heap hx, Async.touches_eq_nil (by simp [hx]), List.append_nil]
  dsimp only
  split
  · rename_i hfree
    obtain ⟨happ, hone⟩ := ht.owned x hx hfree h hbusy
    refine hnext.free ?_ ?_ ?_
    · intro hmem
      have hwaits : loc it = .submitting := (hk.arranged.submitting it).mp hmem
      rw [happ] at hwaits
      cases hwaits
    · have hcounted := ht.counted
      rw [happ] at hcounted
      exact hcounted
    · rintro ⟨pc, hpc, hb⟩
      obtain ⟨i, hi⟩ := List.mem_iff_getElem?.mp hpc
      obtain ⟨hne, hb'⟩ := hset i it ⟨pc, hi, hb⟩
      exact hne (hone i hb')
  · exact hnext

end Kept

/-! ### Cancellations under way -/

/-- What waits for the lock to be cancelled is allocated. -/
def Async.Cancels (s : Async) : Prop := ∀ it ∈ s.cancelling, s.heap it ≠ none

section Cancels

variable {s s' : Async} {log : List AsyncEvent} {act : AsyncAct} {events : List AsyncEvent}

theorem Async.link_cancelling (s : Async) (q : Queue) (it : XferId) :
    (s.link q it).1.cancelling = s.cancelling := by
  obtain ⟨heap, hlink⟩ := Async.link_fst s q it
  rw [hlink]

theorem Async.Cancels.congr (hc : s.Cancels) (hsub : ∀ it ∈ s'.cancelling, it ∈ s.cancelling)
    (hheap : ∀ it ∈ s'.cancelling, s'.heap it = none → s.heap it = none) : s'.Cancels :=
  fun it hit hnone => hc it (hsub it hit) (hheap it hit hnone)

/-- A transfer goes that no call is about to cancel. -/
theorem Async.Cancels.free (hc : s.Cancels) {it : XferId} (hnone : it ∉ s.cancelling) :
    Async.Cancels { s with heap := Function.update s.heap it none } :=
  hc.congr (fun _ => id) fun j hj hfreed => by
    have hne : j ≠ it := fun heq => hnone (heq ▸ hj)
    exact (Function.update_of_ne hne ..).symm.trans hfreed

theorem Async.Cancels.modify (hc : s.Cancels) (it : XferId) (f : ITransfer → ITransfer) :
    (s.modify it f).Cancels :=
  hc.congr (fun _ => id) fun _ _ => Async.modify_eq_none.mp

theorem Async.Cancels.link (hc : s.Cancels) (q : Queue) (it : XferId) :
    (s.link q it).1.Cancels := by
  refine hc.congr (fun j hj => ?_) fun _ _ => Async.link_eq_none.mp
  rwa [Async.link_cancelling] at hj

theorem Async.Cancels.step (hc : s.Cancels) (hproper : Proper ⟨s, log⟩ act)
    (hs : AsyncStep s act s' events) : s'.Cancels := by
  cases hs with
  | alloc =>
    refine hc.congr (fun _ => id) fun it _ hnone => ?_
    by_cases hit : it = s.brk
    · subst hit
      cases (Function.update_self ..).symm.trans hnone
    · exact (Function.update_of_ne hit ..).symm.trans hnone
  | free live => exact hc.free hproper.2
  | submit live =>
    unfold Async.submit
    split
    · exact hc.modify _ _
    · exact hc
  | @enqueue it created waits =>
    unfold Async.enqueue
    dsimp only
    split
    · have hleft : Async.Cancels
          { s with submitting := s.submitting.erase it, workerStarted := true } := hc
      have hlink := (hleft.modify it fun x => { x with state := .queued }).link s.subq it
      exact hlink
    · exact hc
  | @cancel it x live =>
    unfold Async.cancel
    split
    · intro j hj
      rcases List.mem_cons.mp hj with rfl | hj
      · simp [live]
      · exact hc j hj
    · exact hc
  | @cancelLocked it waits =>
    have hleft : Async.Cancels { s with cancelling := s.cancelling.erase it } :=
      hc.congr (fun _ => List.mem_of_mem_erase) fun _ _ => id
    unfold Async.cancelLocked
    dsimp only
    split
    · exact hleft
    · exact hleft.modify _ _
  | workerTake idle head => exact hc.modify _ _
  | workerRun status actual taken =>
    unfold Async.workerRun
    dsimp only
    split
    · exact hc.modify _ _
    · split <;> exact hc.modify _ _
  | @workerDone it ran =>
    have hlink := hc.link s.doneq it
    exact hlink
  | walk walking => exact hc.modify _ _
  | @flags h it list called =>
    unfold Async.flags
    dsimp only
    split
    · rename_i hfree
      exact hc.free (hproper _ called it rfl hfree)
    · exact hc
  | workerWrite | handle | poll | read | readEmpty | take | walkEnd | callbackReturns => exact hc

end Cancels

end Usbip.Libusb
