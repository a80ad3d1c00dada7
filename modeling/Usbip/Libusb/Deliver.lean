import Mathlib.Algebra.BigOperators.Group.Finset.Basic
import Mathlib.Algebra.Order.Ring.Int
import Usbip.Libusb.Transfers

/-! Every submission is answered.  The worker and the threads in `handle_events` always have a step
to take until no callback is due, and each of their steps leaves less to do. -/

namespace Usbip.Libusb

open Lib

/-! ### What there is to do -/

/-- The steps that a transfer at the place is still to go through. -/
def Place.weight : Place → Nat
  | .app | .submitting => 0
  | .subq => 8
  | .worker => 6
  | .doneq | .taken _ => 3

def Worker.weight : Worker → Nat
  | .idle | .ran _ => 0
  | .taken .. => 1
  | .waking => 2

def Handler.weight : Handler → Nat
  | .returned => 0
  | .walking _ => 2
  | .drained | .called .. => 3
  | .draining | .calling .. => 4
  | .polling => 5

def Async.work (s : Async) (loc : XferId → Place) : Nat :=
  ∑ it ∈ Finset.range s.brk, (loc it).weight + s.worker.weight + s.pipe +
    (s.handlers.map Handler.weight).sum

section Work

variable {s : Async} {loc : XferId → Place} {it : XferId}

theorem sum_weight_update (loc : Nat → Place) {it n : Nat} (hlt : it < n) (p : Place) :
    ∑ j ∈ Finset.range n, (Function.update loc it p j).weight + (loc it).weight =
      ∑ j ∈ Finset.range n, (loc j).weight + p.weight := by
  have hmem : it ∈ Finset.range n := Finset.mem_range.mpr hlt
  have hrest : ∑ j ∈ (Finset.range n).erase it, (Function.update loc it p j).weight =
      ∑ j ∈ (Finset.range n).erase it, (loc j).weight :=
    Finset.sum_congr rfl fun j hj => by rw [Function.update_of_ne (Finset.ne_of_mem_erase hj)]
  rw [← Finset.add_sum_erase _ _ hmem, ← Finset.add_sum_erase _ (fun j => (loc j).weight) hmem,
    hrest, Function.update_self]
  omega

theorem sum_weight_grabbed (n h : Nat) :
    ∑ j ∈ Finset.range n, (Async.grabbed loc h j).weight =
      ∑ j ∈ Finset.range n, (loc j).weight := by
  refine Finset.sum_congr rfl fun j _ => ?_
  unfold Async.grabbed
  split
  · rename_i hj
    rw [hj]
    rfl
  · rfl

theorem sum_set {α : Type*} (f : α → Nat) {l : List α} {i : Nat} {a b : α} (hi : l[i]? = some a) :
    ((l.set i b).map f).sum + f a = (l.map f).sum + f b := by
  induction l generalizing i with
  | nil => simp at hi
  | cons x l ih =>
    cases i with
    | zero =>
      simp only [List.getElem?_cons_zero, Option.some.injEq] at hi
      subst hi
      simp
      omega
    | succ i =>
      have := ih hi
      simp only [List.set_cons_succ, List.map_cons, List.sum_cons]
      omega

end Work

/-! ### There is always something that can be done -/

/-- The handler has yet to take the done queue. -/
def Handler.Comes : Handler → Prop
  | .polling | .draining | .drained => True
  | .walking _ | .calling .. | .called .. | .returned => False

/-- A step of the worker, of a thread in `handle_events`, or of one that waits to cancel. -/
def AsyncAct.Library : AsyncAct → Prop
  | .alloc .. | .free _ | .submit _ | .enqueue .. | .cancel _ => False
  | .cancelLocked _ | .workerTake | .workerRun .. | .workerDone | .workerWrite | .handle | .poll .. | .read _
  | .take _ | .walk _ | .callbackReturns _ | .flags _ => True

namespace Async

def Awaited (s : Async) : Prop := ∃ (h : Nat) (pc : Handler), s.handlers[h]? = some pc ∧ pc.Comes

/-- The worker has nothing to do. -/
def Rests (s : Async) : Prop := s.worker = .idle ∧ s.subq.head = none

end Async

section Progress

variable {s : Async} {log : List AsyncEvent} {loc : XferId → Place} {it : XferId}

theorem Async.Awaited.setHandler (ha : s.Awaited) {h : Nat} {old pc : Handler}
    (hold : s.handlers[h]? = some old) (hcomes : old.Comes → pc.Comes) :
    (s.setHandler h pc).Awaited := by
  obtain ⟨i, pc', hi, hpc'⟩ := ha
  by_cases hih : h = i
  · subst hih
    cases hold.symm.trans hi
    exact ⟨h, pc, by rw [setHandler_handlers hold, if_pos rfl], hcomes hpc'⟩
  · exact ⟨i, pc', by rw [setHandler_handlers hold, if_neg hih, hi], hpc'⟩

theorem Async.work_setHandler (loc : XferId → Place) {h : Nat} {old : Handler}
    (hold : s.handlers[h]? = some old) (pc : Handler) :
    (s.setHandler h pc).work loc + old.weight = s.work loc + pc.weight := by
  have hsum := sum_set Handler.weight (b := pc) hold
  have hwork : (s.setHandler h pc).work loc = ∑ it ∈ Finset.range s.brk, (loc it).weight +
    s.worker.weight + s.pipe + ((s.handlers.set h pc).map Handler.weight).sum := rfl
  rw [hwork, work]
  omega

/-- A step of the library that leaves less to do. -/
structure Advance (s : Async) (log : List AsyncEvent) (loc : XferId → Place) (act : AsyncAct)
    (s' : Async) (events : List AsyncEvent) (loc' : XferId → Place) : Prop where
  library : act.Library
  step : s.step act = some (s', events)
  kept : Kept s' (log ++ events) loc'
  less : s'.work loc' < s.work loc

theorem Kept.worker_advances (hk : Kept s log loc) (hrests : ¬s.Rests) :
    ∃ act s' events loc', Advance s log loc act s' events loc' ∧ s'.handlers = s.handlers := by
  cases hworker : s.worker with
  | idle =>
    cases hhead : s.subq.head with
    | none => exact absurd ⟨hworker, hhead⟩ hrests
    | some it =>
      have hstarted := hk.started (by rw [hhead]; simp)
      obtain ⟨hit, x, hx, -⟩ := hk.arranged.pop_subq hhead
      have hsum := sum_weight_update loc (hk.lt hx) .worker
      rw [hit] at hsum
      refine ⟨.workerTake, _, _, _, ⟨trivial, ?_, hk.workerTake hworker hhead, ?_⟩, rfl⟩
      · simp [Async.step, hstarted, hworker, hhead]
      · have hwork : (s.workerTake it).1.work (Function.update loc it .worker) =
          ∑ j ∈ Finset.range s.brk, (Function.update loc it .worker j).weight + 1 + s.pipe +
            (s.handlers.map Handler.weight).sum := rfl
        rw [hwork, Async.work, hworker]
        simp only [Place.weight, Worker.weight] at hsum ⊢
        omega
  | taken it cancelled =>
    have hran : ∃ f, (s.workerRun it cancelled .completed 0).1 =
        { s.modify it f with worker := .ran it } := by
      unfold Async.workerRun
      dsimp only
      split
      · exact ⟨_, rfl⟩
      · split <;> exact ⟨_, rfl⟩
    obtain ⟨f, hf⟩ := hran
    refine ⟨.workerRun .completed 0, _, _, _, ⟨trivial, ?_, hk.workerRun hworker .completed 0, ?_⟩,
      ?_⟩
    · simp [Async.step, hworker]
    · rw [hf]
      simp [Async.work, Async.modify, hworker, Worker.weight]
    · rw [hf]
      rfl
  | ran it =>
    have hit : loc it = .worker := (hk.arranged.worker it).mp (by simp [hworker, Worker.its])
    obtain ⟨x, hx⟩ := hk.live (by rw [hit]; simp)
    have hsum := sum_weight_update loc (hk.lt hx) .doneq
    rw [hit] at hsum
    obtain ⟨heap, hlink⟩ := Async.link_fst s s.doneq it
    refine ⟨.workerDone, _, _, _, ⟨trivial, ?_, hk.workerDone hworker, ?_⟩, ?_⟩
    · simp [Async.step, hworker]
    · unfold Async.workerDone
      dsimp only
      rw [hlink]
      simp only [Async.work, hworker, Place.weight, Worker.weight] at hsum ⊢
      omega
    · unfold Async.workerDone
      dsimp only
      rw [hlink]
  | waking =>
    refine ⟨.workerWrite, _, _, loc, ⟨trivial, if_pos hworker, ?_, ?_⟩, rfl⟩
    · rw [List.append_nil]
      exact hk.workerWrite hworker _
    · simp only [Async.work, hworker, Worker.weight]
      split <;> omega

/-- A handler that has not returned goes on; it takes the done queue, or leaves it alone. -/
theorem Kept.handler_advances (hk : Kept s log loc) {h : Nat} {pc : Handler}
    (hold : s.handlers[h]? = some pc) (hpc : pc ≠ .returned) :
    ∃ act s' events loc', Advance s log loc act s' events loc' ∧ (s.Rests → s'.Rests) ∧
      (s'.doneq.head = none ∨ s'.doneq = s.doneq ∧ (s.Awaited → s'.Awaited)) := by
  have hset : ∀ pc' : Handler, pc'.list = pc.list → pc'.busy = pc.busy →
      Kept (s.setHandler h pc') (log ++ []) loc := fun _ hlist hbusy => by
    rw [List.append_nil]
    exact hk.setHandler hold hlist hbusy
  have hless : ∀ pc' : Handler, pc'.weight < pc.weight →
      (s.setHandler h pc').work loc < s.work loc := fun pc' hlt => by
    have := Async.work_setHandler loc hold pc'
    omega
  cases pc with
  | polling =>
    refine ⟨.poll h true, _, _, _, ⟨trivial, if_pos ⟨hold, .inl rfl⟩, hset _ rfl rfl, hless _ ?_⟩,
      id, .inr ⟨rfl, fun ha => ha.setHandler hold id⟩⟩
    decide
  | draining =>
    rcases Nat.eq_zero_or_pos s.pipe with hzero | hpos
    · refine ⟨.read h, _, _, _, ⟨trivial, ?_, hset .drained rfl rfl, hless _ ?_⟩, id,
        .inr ⟨rfl, fun ha => ha.setHandler hold id⟩⟩
      · simp [Async.step, hold, hzero]
      · decide
    · refine ⟨.read h, { s with pipe := s.pipe - 64 }, [], loc, ⟨trivial, ?_, ?_, ?_⟩, id,
        .inr ⟨rfl, id⟩⟩
      · simp [Async.step, hold, hpos]
      · rw [List.append_nil]
        exact hk.read _
      · simp only [Async.work]
        omega
  | drained =>
    refine ⟨.take h, _, _, Async.grabbed loc h, ⟨trivial, if_pos hold, ?_, ?_⟩, id, .inl rfl⟩
    · rw [List.append_nil]
      exact hk.take hold
    · have hwork := Async.work_setHandler (s := { s with doneq := ⟨none, none⟩ })
        (Async.grabbed loc h) hold (.walking s.doneq.head)
      have hsame : ({ s with doneq := ⟨none, none⟩ } : Async).work (Async.grabbed loc h) =
          s.work loc := by
        simp only [Async.work]
        rw [sum_weight_grabbed]
      rw [hsame] at hwork
      simp only [Handler.weight] at hwork
      omega
  | walking list =>
    cases list with
    | none =>
      refine ⟨.walk h, _, _, _, ⟨trivial, ?_, hset .returned rfl rfl, hless _ ?_⟩, id,
        .inr ⟨rfl, fun ha => ha.setHandler hold id⟩⟩
      · simp [Async.step, hold]
      · decide
    | some it =>
      obtain ⟨hit, x, hx, -⟩ := hk.arranged.pop_taken hold rfl
      have hsum := sum_weight_update loc (hk.lt hx) .app
      rw [hit] at hsum
      refine ⟨.walk h, _, _, _, ⟨trivial, ?_, hk.walk hold, ?_⟩, id, .inr ⟨rfl, fun ha => ?_⟩⟩
      · simp [Async.step, hold]
      · unfold Async.walk
        dsimp only
        generalize hpc' : (if (s.get it).callback = true then Handler.calling it (s.get it).next
          else Handler.called it (s.get it).next) = pc'
        have hweight : pc'.weight ≤ 4 := by
          subst hpc'
          split <;> simp [Handler.weight]
        have hwork := Async.work_setHandler (s := s.modify it fun x => { x with state := .done })
          (Function.update loc it .app) hold pc'
        have hmodify : (s.modify it fun x => { x with state := .done }).work
            (Function.update loc it .app) + 3 = s.work loc := by
          simp only [Async.work, Async.modify, Place.weight] at hsum ⊢
          omega
        rw [Handler.weight] at hwork
        omega
      · exact Async.Awaited.setHandler (s := s.modify it _) ha hold False.elim
  | calling it list =>
    refine ⟨.callbackReturns h, _, _, _, ⟨trivial, ?_, hset (.called it list) rfl rfl,
      hless _ ?_⟩, id, .inr ⟨rfl, fun ha => ha.setHandler hold id⟩⟩
    · simp [Async.step, hold]
    · simp [Handler.weight]
  | called it list =>
    refine ⟨.flags h, _, _, _, ⟨trivial, ?_, hk.flags hold, ?_⟩, id, .inr ⟨rfl, fun ha => ?_⟩⟩
    · simp [Async.step, hold]
    · exact hless (.walking list) (by simp [Handler.weight])
    · exact Async.Awaited.setHandler (s := { s with heap := _ }) ha hold False.elim
  | returned => exact absurd rfl hpc

/-- Somebody comes for the done queue, or nothing will be put on it. -/
def Async.Attended (s : Async) : Prop := s.Awaited ∨ s.Rests ∧ s.doneq.head = none

/-- Nobody is in the library. -/
def Async.Settled (s : Async) : Prop :=
  s.Rests ∧ ∀ (h : Nat) (pc : Handler), s.handlers[h]? = some pc → pc = .returned

theorem Kept.advances (hk : Kept s log loc) (hattended : s.Attended) (hsettled : ¬s.Settled) :
    ∃ act s' events loc', Advance s log loc act s' events loc' ∧ s'.Attended := by
  by_cases hrests : s.Rests
  · have hbusy : ∃ (h : Nat) (pc : Handler), s.handlers[h]? = some pc ∧ pc ≠ .returned := by
      by_contra hnone
      refine hsettled ⟨hrests, fun h pc hpc => ?_⟩
      by_contra hne
      exact hnone ⟨h, pc, hpc, hne⟩
    obtain ⟨h, pc, hpc, hne⟩ := hbusy
    obtain ⟨act, s', events, loc', hadvance, hrests', hdone⟩ := hk.handler_advances hpc hne
    refine ⟨act, s', events, loc', hadvance, ?_⟩
    rcases hdone with hnone | ⟨hsame, hawaited⟩
    · exact .inr ⟨hrests' hrests, hnone⟩
    · rcases hattended with ha | ⟨-, hnone⟩
      · exact .inl (hawaited ha)
      · exact .inr ⟨hrests' hrests, by rw [hsame, hnone]⟩
  · obtain ⟨act, s', events, loc', hadvance, hhandlers⟩ := hk.worker_advances hrests
    refine ⟨act, s', events, loc', hadvance, .inl ?_⟩
    rcases hattended with ha | ⟨h, -⟩
    · rw [Async.Awaited, hhandlers]
      exact ha
    · exact absurd h hrests

theorem Kept.settles {n : Nat} (hk : Kept s log loc) (hwork : s.work loc ≤ n)
    (hattended : s.Attended) : ∃ (acts : List AsyncAct) (t : AsyncTrace) (loc' : XferId → Place),
      (∀ act ∈ acts, act.Library) ∧ exec AsyncTrace.step ⟨s, log⟩ acts = some t ∧
      Kept t.state t.log loc' ∧ t.state.Attended ∧ t.state.Settled := by
  induction n generalizing s log loc with
  | zero =>
    have hsettled : s.Settled := by
      by_contra hsettled
      obtain ⟨act, s', events, loc', hadvance, -⟩ := hk.advances hattended hsettled
      have := hadvance.less
      omega
    exact ⟨[], _, loc, by simp, rfl, hk, hattended, hsettled⟩
  | succ n ih =>
    by_cases hsettled : s.Settled
    · exact ⟨[], _, loc, by simp, rfl, hk, hattended, hsettled⟩
    · obtain ⟨act, s', events, loc', hadvance, hattended'⟩ := hk.advances hattended hsettled
      have hless := hadvance.less
      obtain ⟨acts, t, loc'', hlibrary, hexec, hlast⟩ := ih hadvance.kept (by omega) hattended'
      refine ⟨act :: acts, t, loc'', ?_, ?_, hlast⟩
      · intro a ha
        rcases List.mem_cons.mp ha with rfl | ha
        · exact hadvance.library
        · exact hlibrary a ha
      · rw [exec_cons, AsyncTrace.step, hadvance.step]
        exact hexec

/-- When nobody is in the library and nothing is on the done queue, no callback is due. -/
theorem Kept.none_due (hk : Kept s log loc) (hattended : s.Attended) (hsettled : s.Settled)
    (it : XferId) : (loc it).due = 0 := by
  obtain ⟨⟨hidle, hsubq⟩, hreturned⟩ := hsettled
  have hdoneq : s.doneq.head = none := by
    rcases hattended with ⟨h, pc, hpc, hcomes⟩ | ⟨-, hnone⟩
    · rw [hreturned h pc hpc] at hcomes
      exact hcomes.elim
    · exact hnone
  have hempty : ∀ {p : Option XferId} {place : Place}, p = none →
      Visits (links s.heap) p (placed loc place) → loc it ≠ place := by
    rintro p place rfl hvisits hit
    exact Set.eq_empty_iff_forall_notMem.mp hvisits.eq_empty it hit
  cases hloc : loc it with
  | app | submitting => rfl
  | subq => exact absurd hloc (hempty hsubq hk.arranged.subq.visits)
  | worker =>
    have hmem := (hk.arranged.worker it).mpr hloc
    rw [hidle] at hmem
    cases hmem
  | doneq => exact absurd hloc (hempty hdoneq hk.arranged.doneq.visits)
  | taken h =>
    have hlt := hk.arranged.handler it h hloc
    have hpc : s.handlers[h]? = some s.handlers[h] := List.getElem?_eq_getElem hlt
    have hvisits := hk.arranged.taken h _ hpc
    rw [hreturned h _ hpc] at hvisits
    exact absurd hloc (hempty rfl hvisits)

end Progress

/-! ### Runs -/

/-- The library alone, with a call of `libusb_handle_events`, gets to where every submission has
been answered. -/
def AsyncTrace.Answers (t : AsyncTrace) : Prop :=
  ∃ (acts : List AsyncAct) (t' : AsyncTrace), (∀ act ∈ acts, act.Library) ∧
    exec step t acts = some t' ∧ ∀ it, submits t'.log it = calls t'.log it

/-- Each transfer is in one place, where the queues have it, and has got a callback for each
submission but the one under way; nothing has happened that may not happen, and every submission
will be answered. -/
structure Sound (t : AsyncTrace) : Prop where
  places : ∃ loc, t.state.Arranged loc ∧ ∀ it,
    submits t.log it = calls t.log it + (loc it).due ∧
    ∀ x, t.state.heap it = some x → (x.state = .queued ↔ loc it = .subq)
  lawful : Lawful Allowed t.log
  callback : ∀ it x, t.state.heap it = some x → ∀ callback status,
    .called it callback status ∈ t.log → callback = x.callback
  answers : t.Answers

namespace AsyncTrace

variable {t t' : AsyncTrace} {act : AsyncAct} {loc : XferId → Place}

theorem kept_step (hk : Kept t.state t.log loc) (hc : t.state.Cancels) (hproper : Proper t act)
    (hst : t.step act = some t') : ∃ loc', Kept t'.state t'.log loc' := by
  obtain ⟨events, hs, hlog⟩ := step_some hst
  obtain ⟨s', log'⟩ := t'
  dsimp only at hs hlog ⊢
  rw [hlog]
  cases hs with
  | alloc devHandle callback freeTransfer =>
    rw [List.append_nil]
    exact ⟨loc, hk.alloc ..⟩
  | free live =>
    rw [List.append_nil]
    exact ⟨loc, hk.free hproper.1.1 hproper.1.2.1 hproper.1.2.2⟩
  | submit live =>
    refine hk.submit live hproper.1 hproper.2.1 ?_
    rw [← Async.get_of_heap live]
    exact hproper.2.2
  | enqueue created waits => exact hk.enqueue waits created
  | cancel live => exact ⟨loc, hk.cancel _⟩
  | @cancelLocked it waits =>
    obtain ⟨x, hx⟩ := Option.ne_none_iff_exists'.mp (hc it waits)
    exact ⟨loc, hk.cancelLocked hx⟩
  | workerTake idle head => exact ⟨_, hk.workerTake idle head⟩
  | workerRun status actual taken => exact ⟨_, hk.workerRun taken status actual⟩
  | workerDone ran => exact ⟨_, hk.workerDone ran⟩
  | workerWrite waking =>
    rw [List.append_nil]
    exact ⟨loc, hk.workerWrite waking _⟩
  | handle =>
    rw [List.append_nil]
    refine ⟨loc, hk.handle ?_ ?_⟩
    · split <;> rfl
    · split <;> rfl
  | poll polling =>
    rw [List.append_nil]
    exact ⟨loc, hk.setHandler polling rfl rfl⟩
  | read draining =>
    rw [List.append_nil]
    exact ⟨loc, hk.read _⟩
  | readEmpty draining =>
    rw [List.append_nil]
    exact ⟨loc, hk.setHandler draining rfl rfl⟩
  | take drained =>
    rw [List.append_nil]
    exact ⟨_, hk.take drained⟩
  | walkEnd walking =>
    rw [List.append_nil]
    exact ⟨loc, hk.setHandler walking rfl rfl⟩
  | walk walking => exact ⟨_, hk.walk walking⟩
  | callbackReturns calling =>
    rw [List.append_nil]
    exact ⟨loc, hk.setHandler calling rfl rfl⟩
  | flags called => exact ⟨loc, hk.flags called⟩

/-- The calls that wait to cancel get the lock and return. -/
theorem cancels_return {n : Nat} (hk : Kept t.state t.log loc) (hc : t.state.Cancels)
    (hlen : t.state.cancelling.length = n) : ∃ (acts : List AsyncAct) (t' : AsyncTrace),
      (∀ act ∈ acts, act.Library) ∧ exec step t acts = some t' ∧ Kept t'.state t'.log loc ∧
        t'.state.cancelling = [] := by
  induction n generalizing t with
  | zero => exact ⟨[], t, by simp, rfl, hk, List.eq_nil_of_length_eq_zero hlen⟩
  | succ n ih =>
    obtain ⟨it, rest, hcons⟩ := List.exists_cons_of_length_eq_add_one hlen
    have hwaits : it ∈ t.state.cancelling := by simp [hcons]
    obtain ⟨x, hx⟩ := Option.ne_none_iff_exists'.mp (hc it hwaits)
    have hcancelling : (t.state.cancelLocked it).1.cancelling = rest := by
      unfold Async.cancelLocked
      dsimp only
      split <;> exact (congrArg (List.erase · it) hcons).trans (List.erase_cons_head ..)
    have hstep : t.step (.cancelLocked it) =
        some ⟨(t.state.cancelLocked it).1, t.log ++ (t.state.cancelLocked it).2⟩ := by
      rw [step, Async.step, if_pos hwaits]
      rfl
    have hnext : (t.state.cancelLocked it).1.Cancels :=
      hc.step (show Proper ⟨t.state, t.log⟩ (.cancelLocked it) from trivial) (.cancelLocked hwaits)
    obtain ⟨acts, t', hlibrary, hexec, hlast⟩ := ih
      (t := ⟨(t.state.cancelLocked it).1, t.log ++ (t.state.cancelLocked it).2⟩)
      (hk.cancelLocked hx) hnext (by
        rw [hcons, List.length_cons] at hlen
        rw [hcancelling]
        omega)
    refine ⟨.cancelLocked it :: acts, t', List.forall_mem_cons.mpr ⟨trivial, hlibrary⟩, ?_, hlast⟩
    rw [exec_cons, hstep]
    exact hexec

theorem answers_of_kept (hkept : Kept t.state t.log loc) (hc : t.state.Cancels) : t.Answers := by
  -- those who cancel return, a thread comes to `handle_events`, and everybody goes on
  obtain ⟨cancels, ⟨s, log⟩, hreturn, hcancels, hk, -⟩ := cancels_return hkept hc rfl
  let pc : Handler := if s.hasPipe then .polling else .drained
  have hnew : Kept { s with handlers := s.handlers ++ [pc] } log loc := by
    refine hk.handle ?_ ?_
    · dsimp only [pc]
      split <;> rfl
    · dsimp only [pc]
      split <;> rfl
  have hawaited : ({ s with handlers := s.handlers ++ [pc] } : Async).Awaited := by
    refine ⟨s.handlers.length, pc, by simp, ?_⟩
    dsimp only [pc]
    split <;> trivial
  obtain ⟨acts, t', loc', hlibrary, hexec, hk', hattended, hsettled⟩ :=
    hnew.settles le_rfl (.inl hawaited)
  refine ⟨cancels ++ .handle :: acts, t', ?_, ?_, fun it => ?_⟩
  · intro a ha
    rcases List.mem_append.mp ha with ha | ha
    · exact hreturn a ha
    · rcases List.mem_cons.mp ha with rfl | ha
      · trivial
      · exact hlibrary a ha
  · rw [exec_append, hcancels, Option.bind_some, exec_cons]
    have hstep : step ⟨s, log⟩ .handle = some ⟨{ s with handlers := s.handlers ++ [pc] }, log⟩ := by
      simp [step, Async.step, pc]
    rw [hstep]
    exact hexec
  · rw [(hk'.transfers it).counted, hk'.none_due hattended hsettled it, Nat.add_zero]

theorem sound_of_kept (hk : Kept t.state t.log loc) (hc : t.state.Cancels) : Sound t where
  places := ⟨loc, hk.arranged, fun it => ⟨(hk.transfers it).counted, (hk.transfers it).queued⟩⟩
  lawful := hk.lawful
  callback it x hx := (hk.transfers it).callback x hx
  answers := answers_of_kept hk hc

/-- Whatever the order of the steps, an application that submits a transfer only while no submission
of it is under way, and frees none that the library has, is calling back or is about to cancel, gets
every transfer back exactly once for each submission. -/
theorem transfers_sound (hasPipe : Bool) (acts : List AsyncAct)
    (h : Guarded step Proper (.new hasPipe) acts) : Throughout step Sound (.new hasPipe) acts := by
  refine throughout_of_guarded
    (I := fun t => t.state.Cancels ∧ ∃ loc, Kept t.state t.log loc) (C := Proper)
    ?_ ?_ ⟨fun _ h => (by cases h), _, Kept.new hasPipe⟩ h
  · rintro t ⟨hc, loc, hk⟩
    exact sound_of_kept hk hc
  · rintro t act t' ⟨hc, loc, hk⟩ hproper hst
    obtain ⟨events, hs, -⟩ := step_some hst
    exact ⟨hc.step hproper hs, kept_step hk hc hproper hst⟩

/-- A transfer is cancelled on the submit queue, submitted again by its callback, and freed when it
has come back. -/
def resubmitted : List AsyncAct :=
  [.alloc true true false, .submit 0, .enqueue 0 true, .cancel 0, .cancelLocked 0, .workerTake,
    .workerRun .completed 8, .workerDone, .workerWrite, .handle, .poll 0 false, .read 0, .read 0,
    .take 0, .walk 0, .submit 0, .enqueue 0 true, .callbackReturns 0, .flags 0, .walk 0,
    .workerTake, .workerRun .completed 8, .workerDone, .workerWrite, .handle, .poll 1 false,
    .read 1, .read 1, .take 1, .walk 1, .callbackReturns 1, .flags 1, .walk 1, .free 0]

theorem transfers_sound_resubmitted :
    (exec step (.new true) resubmitted).map (·.log) =
      some [.submitted 0, .cancel 0 0 true, .called 0 true .cancelled, .submitted 0, .sent 0,
        .called 0 true .completed] ∧
    Throughout step Sound (.new true) resubmitted :=
  ⟨by decide, transfers_sound true resubmitted (by decide)⟩

/-- A transfer is freed by its callback. -/
def freedInCallback : List AsyncAct :=
  [.alloc true true false, .submit 0, .enqueue 0 true, .workerTake, .workerRun .completed 8,
    .workerDone, .workerWrite, .handle, .take 0, .walk 0, .free 0, .callbackReturns 0, .flags 0]

/-- A transfer is submitted while it is on the submit queue. -/
def submittedTwice : List AsyncAct :=
  [.alloc true true false, .submit 0, .enqueue 0 true, .submit 0, .enqueue 0 true]

/-- A transfer is freed after its callback, while a call waits for the lock to cancel it. -/
def freedWhileCancelling : List AsyncAct :=
  [.alloc true true false, .submit 0, .enqueue 0 true, .cancel 0, .workerTake,
    .workerRun .completed 8, .workerDone, .workerWrite, .handle, .take 0, .walk 0,
    .callbackReturns 0, .flags 0, .free 0, .cancelLocked 0]

theorem transfers_unsound :
    ¬Throughout step Sound (.new false) freedInCallback ∧
      ¬Throughout step Sound (.new false) submittedTwice ∧
        ¬Throughout step Sound (.new false) freedWhileCancelling := by
  refine ⟨?_, ?_, ?_⟩
  · intro h
    have hrun : ∃ t, exec step (new false) freedInCallback = some t ∧
        t.log = [.submitted 0, .sent 0, .called 0 true .completed] ++ .stale 0 :: [] :=
      ⟨_, rfl, rfl⟩
    obtain ⟨t, ht, hlog⟩ := hrun
    exact (h.last ht).lawful _ _ _ hlog
  · intro h
    have hrun : ∃ t, exec step (new false) submittedTwice = some t ∧
        t.log = [.submitted 0] ++ .submitted 0 :: [] := ⟨_, rfl, rfl⟩
    obtain ⟨t, ht, hlog⟩ := hrun
    have hidle : submits [.submitted 0] 0 = calls [.submitted 0] 0 :=
      (h.last ht).lawful _ _ _ hlog
    exact absurd hidle (by decide)
  · intro h
    have hrun : ∃ t, exec step (new false) freedWhileCancelling = some t ∧
        t.log = [.submitted 0, .sent 0, .called 0 true .completed] ++
          .stale 0 :: [.cancel 0 libusbSuccess false] := ⟨_, rfl, rfl⟩
    obtain ⟨t, ht, hlog⟩ := hrun
    exact (h.last ht).lawful _ _ _ hlog

end AsyncTrace

end Usbip.Libusb
