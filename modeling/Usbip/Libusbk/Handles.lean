import Mathlib.Data.List.Perm.Subperm
import Usbip.Lib.Chain
import Usbip.Lib.History
import Usbip.Libusbk.Ovl

/-! Who has an overlapped handle.  A handle goes back to the pool while the worker still has an
operation for it when a wait with a release flag times out (and `KOVL_WAIT_FLAG_CANCEL_ON_TIMEOUT`
is one of the bits of `KOVL_WAIT_FLAG_RELEASE_ON_TIMEOUT`); a program that releases only what it
holds and what is idle has every completion where it belongs. -/

namespace Usbip.Libusbk

open Lib

def holdStep (o : OvlId) (held : Bool) : OvlEvent → Bool
  | .acquired p => if p = o then true else held
  | .released p => if p = o then false else held
  | _ => held

/-- The handle has been acquired, and not released since. -/
def holds (log : List OvlEvent) (o : OvlId) : Bool := log.foldl (holdStep o) false

def lastStep (o : OvlId) (last : Option Nat) : OvlEvent → Option Nat
  | .acquired p => if p = o then none else last
  | .queued num p => if p = o then some num else last
  | _ => last

/-- The operation last queued with the handle since it was acquired. -/
def lastOp (log : List OvlEvent) (o : OvlId) : Option Nat := log.foldl (lastStep o) none

/-- What may happen after the events of `log`: a handle is not handed out while it is held, what the
worker delivers to a handle belongs to the operation last queued with it, and a wait that succeeds
reports what became of this operation. -/
def Allowed (log : List OvlEvent) : OvlEvent → Prop
  | .acquired o => holds log o = false
  | .delivered num o => lastOp log o = some num
  | .reported o true transferred => ∃ num rc actual, lastOp log o = some num ∧
    .completed num rc actual ∈ log ∧ 0 ≤ rc ∧ transferred = ulongPtr actual % 2 ^ 32
  | _ => True

def Orderly (log : List OvlEvent) : Prop := Lawful Allowed log

namespace OvlWorker

/-- The operation that the worker has. -/
def op : OvlWorker → List Aop
  | .idle => []
  | .running op | .answered op _ _ | .wroteHigh op _ | .wroteStatus op => [op]

/-- The operation whose status the worker has yet to write. -/
def unwritten : OvlWorker → List Aop
  | .idle | .wroteStatus _ => []
  | .running op | .answered op _ _ | .wroteHigh op _ => [op]

end OvlWorker

namespace OvlPool

/-- The operations that have been started and not completed. -/
def outstanding (s : OvlPool) : List Aop := s.preparing ++ s.queue ++ s.worker.op

/-- The operations that have been queued and not completed. -/
def submitted (s : OvlPool) : List Aop := s.queue ++ s.worker.op

def unwritten (s : OvlPool) : List Aop := s.preparing ++ s.queue ++ s.worker.unwritten

/-- No operation of the handle is under way. -/
def Idle (s : OvlPool) (o : OvlId) : Prop := ∀ op ∈ s.outstanding, op.ovl ≠ o

instance (s : OvlPool) (o : OvlId) : Decidable (s.Idle o) :=
  inferInstanceAs (Decidable (∀ op ∈ s.outstanding, op.ovl ≠ o))

end OvlPool

/-- Between the end of a wait and what it reports. -/
def WaitPc.Reads : WaitPc → Prop
  | .woken | .read _ => True
  | .waiting | .releasing => False

instance : DecidablePred WaitPc.Reads
  | .woken | .read _ => isTrue trivial
  | .waiting | .releasing => isFalse id

/-- A handle is released, by `OvlK_Release` or by a wait, only while it is held, no operation of it
is under way and no other wait for it is going on; it is used for an operation only while it is
held, no operation of it is under way and no wait is about to report; and it is waited for only
while it is held and, when it has no event, only after an operation has been queued with it. -/
def Proper (t : OvlTrace) : OvlAct → Prop
  | .release o => holds t.log o ∧ t.state.Idle o ∧ ∀ w ∈ t.state.waits, w.ovl ≠ o
  | .waitRelease w =>
    holds t.log w.ovl ∧ t.state.Idle w.ovl ∧ ∀ w' ∈ t.state.waits.erase w, w'.ovl ≠ w.ovl
  | .queue o =>
    holds t.log o ∧ t.state.Idle o ∧ ∀ w ∈ t.state.waits, w.ovl = o → ¬w.pc.Reads
  | .wait o _ _ => holds t.log o ∧ ((t.state.get o).hEvent ≠ none ∨ lastOp t.log o ≠ none)
  | _ => True

instance (t : OvlTrace) : DecidablePred (Proper t)
  | .release _ | .waitRelease _ | .queue _ => inferInstanceAs (Decidable (_ ∧ _ ∧ _))
  | .wait .. => inferInstanceAs (Decidable (_ ∧ _))
  | .acquire | .acquireReset _ | .enqueue .. | .workerTake | .workerRun .. | .workerHigh
  | .workerStatus | .workerEvent | .wake _ | .timeout _ | .readHigh _ | .readStatus _ =>
    isTrue trivial

/-! ### The log -/

section Log

theorem holds_concat (log : List OvlEvent) (e : OvlEvent) (o : OvlId) :
    holds (log ++ [e]) o = holdStep o (holds log o) e := List.foldl_concat ..

theorem lastOp_concat (log : List OvlEvent) (e : OvlEvent) (o : OvlId) :
    lastOp (log ++ [e]) o = lastStep o (lastOp log o) e := List.foldl_concat ..

end Log

/-! ### The state of a handle -/

/-- Nobody who waits for the handle goes on. -/
def Kovl.Quiet (ovl : Kovl) : Prop := ovl.internal = statusPending ∧ ovl.hEvent ≠ some true

/-- The handle has the result of the operation. -/
def Kovl.Result (ovl : Kovl) (log : List OvlEvent) (num : Nat) : Prop :=
  ∃ rc actual, .completed num rc actual ∈ log ∧
    ovl.internalHigh = (if rc < 0 then 0 else ulongPtr actual) ∧
    ovl.internal = if rc < 0 then lkStatusFail else 0

/-- The state of a handle that is held, whose last operation is `last`. -/
inductive Phase (log : List OvlEvent) (ovl : Kovl) (last : Option Nat) : Prop
  | fresh (none : last = none) (unset : ovl.hEvent ≠ some true)
  | quiet (quiet : ovl.Quiet)
  | finished {num : Nat} (some : last = some num) (result : ovl.Result log num)

theorem Kovl.Result.mono {ovl : Kovl} {log log' : List OvlEvent} {num : Nat}
    (h : ovl.Result log num) (hsub : log ⊆ log') : ovl.Result log' num := by
  obtain ⟨rc, actual, hmem, hvalues⟩ := h
  exact ⟨rc, actual, hsub hmem, hvalues⟩

theorem Phase.mono {log log' : List OvlEvent} {ovl : Kovl} {last : Option Nat}
    (h : Phase log ovl last) (hsub : log ⊆ log') : Phase log' ovl last := by
  cases h with
  | fresh none unset => exact .fresh none unset
  | quiet quiet => exact .quiet quiet
  | finished some result => exact .finished some (result.mono hsub)

theorem Kovl.Result.not_quiet {ovl : Kovl} {log : List OvlEvent} {num : Nat}
    (h : ovl.Result log num) : ¬ovl.Quiet := by
  obtain ⟨rc, actual, -, -, hinternal⟩ := h
  rintro ⟨hpending, -⟩
  rw [hpending] at hinternal
  split at hinternal
  · exact absurd hinternal (by decide)
  · exact absurd hinternal (by decide)

/-- What a wait has seen: the result of the last operation, and its length once that is read. -/
def Seen (log : List OvlEvent) (ovl : Kovl) (last : Option Nat) : WaitPc → Prop
  | .waiting | .releasing => True
  | .woken => ∃ num, last = some num ∧ ovl.Result log num
  | .read transferred =>
    (∃ num, last = some num ∧ ovl.Result log num) ∧ transferred = ovl.internalHigh % 2 ^ 32

theorem Seen.mono {log log' : List OvlEvent} {ovl : Kovl} {last : Option Nat} {pc : WaitPc}
    (h : Seen log ovl last pc) (hsub : log ⊆ log') : Seen log' ovl last pc := by
  cases pc with
  | waiting | releasing => trivial
  | woken =>
    obtain ⟨num, hlast, hresult⟩ := h
    exact ⟨num, hlast, hresult.mono hsub⟩
  | read transferred =>
    obtain ⟨⟨num, hlast, hresult⟩, htransferred⟩ := h
    exact ⟨⟨num, hlast, hresult.mono hsub⟩, htransferred⟩

theorem Seen.not_reads {log : List OvlEvent} {ovl : Kovl} {last : Option Nat} {pc : WaitPc}
    (h : Seen log ovl last pc) (hquiet : ovl.Quiet) : ¬pc.Reads := by
  cases pc with
  | waiting | releasing => exact id
  | woken =>
    obtain ⟨num, -, hresult⟩ := h
    exact absurd hquiet hresult.not_quiet
  | read transferred =>
    obtain ⟨⟨num, -, hresult⟩, -⟩ := h
    exact absurd hquiet hresult.not_quiet

theorem seen_of_not_reads {log : List OvlEvent} {ovl : Kovl} {last : Option Nat} {pc : WaitPc}
    (h : ¬pc.Reads) : Seen log ovl last pc := by
  cases pc with
  | waiting | releasing => trivial
  | woken | read => exact absurd trivial h

/-! ### What a run keeps -/

/-- The links of the pool's list. -/
def links (ovls : List Kovl) (o : OvlId) : Option (Cell OvlId Unit) :=
  ovls[o]?.map fun ovl => ⟨ovl.nextFree, ()⟩

/-- The handles of the pool are the ones that nobody holds. -/
structure Pooled (s : OvlPool) (log : List OvlEvent) (fl : List OvlId) : Prop where
  chain : Chain (links s.ovls) s.freeList (fl.map (·, ()))
  apart : (fl ++ s.acquiring).Nodup
  unheld : ∀ o ∈ fl ++ s.acquiring, o < s.ovls.length ∧ holds log o = false
  lt : ∀ o, holds log o = true → o < s.ovls.length

/-- What the worker has of its operation agrees with the log and with the handle. -/
def WorkerOk (s : OvlPool) (log : List OvlEvent) : OvlWorker → Prop
  | .idle | .running _ => True
  | .answered op rc actual => .completed op.num rc actual ∈ log
  | .wroteHigh op rc => ∃ actual, .completed op.num rc actual ∈ log ∧
    (s.get op.ovl).internalHigh = if rc < 0 then 0 else ulongPtr actual
  | .wroteStatus op => (s.get op.ovl).Result log op.num

/-- Every operation under way has a handle of its own, which is held. -/
structure Operated (s : OvlPool) (log : List OvlEvent) : Prop where
  apart : (s.outstanding.map Aop.ovl).Nodup
  held : ∀ op ∈ s.outstanding, holds log op.ovl = true
  last : ∀ op ∈ s.submitted, lastOp log op.ovl = some op.num
  quiet : ∀ op ∈ s.unwritten, (s.get op.ovl).Quiet
  worker : WorkerOk s log s.worker

structure WaitOk (s : OvlPool) (log : List OvlEvent) (w : OvlWait) : Prop where
  held : holds log w.ovl = true
  used : (s.get w.ovl).hEvent ≠ none ∨ lastOp log w.ovl ≠ none
  seen : Seen log (s.get w.ovl) (lastOp log w.ovl) w.pc

structure Kept (s : OvlPool) (log : List OvlEvent) (fl : List OvlId) : Prop where
  pooled : Pooled s log fl
  operated : Operated s log
  phase : ∀ o, holds log o = true → Phase log (s.get o) (lastOp log o)
  waits : ∀ w ∈ s.waits, WaitOk s log w
  orderly : Orderly log

section Access

variable {s s' : OvlPool} {log log' : List OvlEvent} {fl : List OvlId} {o p : OvlId}

theorem getElem?_modify_ovls (s : OvlPool) (o p : OvlId) (f : Kovl → Kovl) :
    (s.modify o f).ovls[p]? = s.ovls[p]?.map fun ovl => if o = p then f ovl else ovl :=
  List.getElem?_modify f o s.ovls p

theorem get_modify_self (h : o < s.ovls.length) (f : Kovl → Kovl) :
    (s.modify o f).get o = f (s.get o) := by
  rw [OvlPool.get, OvlPool.get, List.getD_eq_getElem?_getD, List.getD_eq_getElem?_getD,
    getElem?_modify_ovls, List.getElem?_eq_getElem h]
  simp

theorem get_modify_ne (h : p ≠ o) (f : Kovl → Kovl) : (s.modify o f).get p = s.get p := by
  rw [OvlPool.get, OvlPool.get, List.getD_eq_getElem?_getD, List.getD_eq_getElem?_getD,
    getElem?_modify_ovls]
  simp [Ne.symm h]

theorem length_modify (f : Kovl → Kovl) : (s.modify o f).ovls.length = s.ovls.length :=
  List.length_modify ..

/-- What is written to the other fields leaves the list of the pool alone. -/
theorem links_modify {f : Kovl → Kovl} (hf : ∀ ovl, (f ovl).nextFree = ovl.nextFree) :
    links (s.modify o f).ovls = links s.ovls := by
  funext p
  rw [links, links, getElem?_modify_ovls, Option.map_map]
  congr 1
  funext ovl
  by_cases hp : o = p
  · simp [hp, hf]
  · simp [hp]

theorem links_free (h : o < s.ovls.length) : links (s.free o).ovls o = some ⟨s.freeList, ()⟩ := by
  have hself : (s.free o).ovls[o]? = some { s.ovls[o] with nextFree := s.freeList } := by
    refine (getElem?_modify_ovls s o o _).trans ?_
    rw [List.getElem?_eq_getElem h]
    simp
  rw [links, hself]
  rfl

theorem links_free_ne (h : p ≠ o) : links (s.free o).ovls p = links s.ovls p := by
  have hsame : (s.free o).ovls[p]? = s.ovls[p]? := by
    refine (getElem?_modify_ovls s o p _).trans ?_
    simp [Ne.symm h]
  rw [links, hsame]
  rfl

theorem nextFree_of_links {n : Option OvlId} (h : links s.ovls o = some ⟨n, ()⟩) :
    (s.get o).nextFree = n := by
  obtain ⟨ovl, hovl, heq⟩ := Option.map_eq_some_iff.mp h
  cases heq
  rw [OvlPool.get, List.getD_eq_getElem?_getD, hovl]
  rfl

theorem Pooled.congr (h : Pooled s log fl) (hlinks : links s'.ovls = links s.ovls)
    (hlen : s'.ovls.length = s.ovls.length) (hfree : s'.freeList = s.freeList)
    (hacquiring : s'.acquiring = s.acquiring) (hholds : ∀ o, holds log' o = holds log o) :
    Pooled s' log' fl where
  chain := by
    rw [hlinks, hfree]
    exact h.chain
  apart := by
    rw [hacquiring]
    exact h.apart
  unheld o ho := by
    rw [hacquiring] at ho
    rw [hlen, hholds]
    exact h.unheld o ho
  lt o ho := by
    rw [hlen]
    exact h.lt o (hholds o ▸ ho)

theorem Pooled.take (h : Pooled s log fl) (head : s.freeList = some o) :
    ∃ fl', Pooled { s with freeList := (s.get o).nextFree, acquiring := o :: s.acquiring } log
      fl' := by
  cases fl with
  | nil =>
    have hnone : s.freeList = none := h.chain
    rw [head] at hnone
    cases hnone
  | cons a fl =>
    obtain ⟨hfirst, n, hn, hrest⟩ := h.chain
    rw [head] at hfirst
    cases hfirst
    have hperm : (fl ++ o :: s.acquiring).Perm (o :: fl ++ s.acquiring) := List.perm_middle
    refine ⟨fl, ?_, hperm.nodup_iff.mpr h.apart, fun p hp => h.unheld p (hperm.mem_iff.mp hp), h.lt⟩
    rw [nextFree_of_links hn]
    exact hrest

theorem Pooled.hand (h : Pooled s log fl) (hacquiring : o ∈ s.acquiring)
    (hlinks : links s'.ovls = links s.ovls) (hlen : s'.ovls.length = s.ovls.length)
    (hfree : s'.freeList = s.freeList) (hacquiring' : s'.acquiring = s.acquiring.erase o)
    (hholds : ∀ p, holds log' p = if o = p then true else holds log p) : Pooled s' log' fl := by
  have hperm : (fl ++ s.acquiring).Perm (o :: (fl ++ s.acquiring.erase o)) :=
    ((List.perm_cons_erase hacquiring).append_left fl).trans List.perm_middle
  have hnodup := List.nodup_cons.mp (hperm.nodup_iff.mp h.apart)
  refine ⟨?_, ?_, fun p hp => ?_, fun p hp => ?_⟩
  · rw [hlinks, hfree]
    exact h.chain
  · rw [hacquiring']
    exact hnodup.2
  · rw [hacquiring'] at hp
    have hne : o ≠ p := by
      rintro rfl
      exact hnodup.1 hp
    rw [hlen, hholds, if_neg hne]
    exact h.unheld p (hperm.mem_iff.mpr (List.mem_cons_of_mem _ hp))
  · rw [hlen]
    by_cases hop : o = p
    · subst hop
      exact (h.unheld o (List.mem_append_right _ hacquiring)).1
    · rw [hholds, if_neg hop] at hp
      exact h.lt p hp

theorem Pooled.free (h : Pooled s log fl) (hheld : holds log o = true) (waits : List OvlWait)
    (hholds : ∀ p, holds log' p = if o = p then false else holds log p) :
    Pooled { s.free o with waits } log' (o :: fl) := by
  have hlt := h.lt o hheld
  have hnew : o ∉ fl ++ s.acquiring := by
    intro hmem
    have := (h.unheld o hmem).2
    rw [hheld] at this
    cases this
  have hlen : (s.free o).ovls.length = s.ovls.length := List.length_modify ..
  refine ⟨⟨rfl, s.freeList, links_free hlt, h.chain.congr fun p hp => ?_⟩, ?_, fun p hp => ?_,
    fun p hp => ?_⟩
  · refine links_free_ne ?_
    rintro rfl
    rw [List.map_map] at hp
    exact hnew (List.mem_append_left _ (by simpa using hp))
  · exact List.nodup_cons.mpr ⟨hnew, h.apart⟩
  · dsimp only
    rw [hlen, hholds]
    rcases List.mem_cons.mp hp with rfl | hp
    · exact ⟨hlt, if_pos rfl⟩
    · obtain ⟨hplt, hpheld⟩ := h.unheld p hp
      refine ⟨hplt, ?_⟩
      split
      · rfl
      · exact hpheld
  · dsimp only
    rw [hlen]
    rw [hholds] at hp
    split at hp
    · cases hp
    · exact h.lt p hp

theorem WorkerOk.congr {worker : OvlWorker} (h : WorkerOk s log worker) (hsub : log ⊆ log')
    (hget : ∀ op ∈ worker.op, s'.get op.ovl = s.get op.ovl) : WorkerOk s' log' worker := by
  cases worker with
  | idle | running => trivial
  | answered op rc actual => exact hsub h
  | wroteHigh op rc =>
    obtain ⟨actual, hmem, hhigh⟩ := h
    exact ⟨actual, hsub hmem, by rw [hget op List.mem_cons_self, hhigh]⟩
  | wroteStatus op =>
    rw [WorkerOk, hget op List.mem_cons_self]
    exact Kovl.Result.mono h hsub

theorem OvlWorker.unwritten_subset (worker : OvlWorker) : worker.unwritten ⊆ worker.op := by
  cases worker <;> simp [unwritten, op]

theorem submitted_subset (s : OvlPool) : s.submitted ⊆ s.outstanding := by
  intro op hop
  rw [OvlPool.outstanding, List.append_assoc]
  exact List.mem_append_right _ hop

theorem unwritten_subset (s : OvlPool) : s.unwritten ⊆ s.outstanding := by
  intro op hop
  rcases List.mem_append.mp hop with hop | hop
  · exact List.mem_append_left _ hop
  · exact List.mem_append_right _ (s.worker.unwritten_subset hop)

/-- Nothing happens to the operations under way, nor to their handles. -/
theorem Operated.congr (h : Operated s log) (hpreparing : s'.preparing = s.preparing)
    (hqueue : s'.queue = s.queue) (hworker : s'.worker = s.worker) (hsub : log ⊆ log')
    (hsame : ∀ op ∈ s.outstanding, holds log' op.ovl = holds log op.ovl ∧
      lastOp log' op.ovl = lastOp log op.ovl ∧ s'.get op.ovl = s.get op.ovl) :
    Operated s' log' := by
  have hout : s'.outstanding = s.outstanding := by
    rw [OvlPool.outstanding, OvlPool.outstanding, hpreparing, hqueue, hworker]
  have hsubmitted : s'.submitted = s.submitted := by
    rw [OvlPool.submitted, OvlPool.submitted, hqueue, hworker]
  have hunwritten : s'.unwritten = s.unwritten := by
    rw [OvlPool.unwritten, OvlPool.unwritten, hpreparing, hqueue, hworker]
  refine ⟨hout ▸ h.apart, fun op hop => ?_, fun op hop => ?_, fun op hop => ?_, ?_⟩
  · rw [hout] at hop
    rw [(hsame op hop).1]
    exact h.held op hop
  · rw [hsubmitted] at hop
    rw [(hsame op (submitted_subset s hop)).2.1]
    exact h.last op hop
  · rw [hunwritten] at hop
    rw [(hsame op (unwritten_subset s hop)).2.2]
    exact h.quiet op hop
  · rw [hworker]
    refine h.worker.congr hsub fun op hop => ?_
    exact (hsame op (List.mem_append_right _ hop)).2.2

theorem WaitOk.congr {w : OvlWait} (h : WaitOk s log w) (hsub : log ⊆ log')
    (hholds : holds log' w.ovl = holds log w.ovl) (hlast : lastOp log' w.ovl = lastOp log w.ovl)
    (hget : s'.get w.ovl = s.get w.ovl) : WaitOk s' log' w where
  held := hholds ▸ h.held
  used := by
    rw [hget, hlast]
    exact h.used
  seen := by
    rw [hget, hlast]
    exact h.seen.mono hsub

end Access

/-! ### What a step does -/

section Steps

variable {s s' : OvlPool} {log : List OvlEvent} {fl : List OvlId} {o : OvlId} {e : OvlEvent}

/-- An event that tells nothing about who has a handle. -/
def OvlEvent.Neutral : OvlEvent → Prop
  | .acquired _ | .released _ | .queued .. => False
  | _ => True

theorem OvlEvent.Neutral.holds (he : e.Neutral) (log : List OvlEvent) (o : OvlId) :
    holds (log ++ [e]) o = Libusbk.holds log o := by
  rw [holds_concat]
  cases e <;> first | rfl | exact he.elim

theorem OvlEvent.Neutral.lastOp (he : e.Neutral) (log : List OvlEvent) (o : OvlId) :
    lastOp (log ++ [e]) o = Libusbk.lastOp log o := by
  rw [lastOp_concat]
  cases e <;> first | rfl | exact he.elim

/-- An event that changes nothing. -/
theorem Kept.note (h : Kept s log fl) (he : e.Neutral) (ha : Allowed log e) :
    Kept s (log ++ [e]) fl := by
  have hsub : log ⊆ log ++ [e] := List.subset_append_left _ _
  refine ⟨h.pooled.congr rfl rfl rfl rfl (he.holds log), ?_, fun o ho => ?_, fun w hw => ?_,
    h.orderly.concat ha⟩
  · exact h.operated.congr rfl rfl rfl hsub fun op _ => ⟨he.holds log _, he.lastOp log _, rfl⟩
  · rw [he.holds] at ho
    rw [he.lastOp]
    exact (h.phase o ho).mono hsub
  · exact (h.waits w hw).congr hsub (he.holds log _) (he.lastOp log _) rfl

theorem Kept.setWaits (h : Kept s log fl) {waits : List OvlWait}
    (hwaits : ∀ w ∈ waits, WaitOk s log w) : Kept { s with waits } log fl where
  pooled := h.pooled.congr rfl rfl rfl rfl fun _ => rfl
  operated := h.operated.congr rfl rfl rfl (List.Subset.refl _) fun _ _ => ⟨rfl, rfl, rfl⟩
  phase := h.phase
  waits w hw := (hwaits w hw).congr (List.Subset.refl _) rfl rfl rfl
  orderly := h.orderly

theorem Kept.setWait (h : Kept s log fl) {w : OvlWait} {pc : WaitPc} (hmem : w ∈ s.waits)
    (hseen : Seen log (s.get w.ovl) (lastOp log w.ovl) pc) : Kept (s.setWait w pc) log fl := by
  refine h.setWaits (List.forall_mem_cons.mpr ⟨?_, fun w' hw' => ?_⟩)
  · exact ⟨(h.waits w hmem).held, (h.waits w hmem).used, hseen⟩
  · exact h.waits w' (List.mem_of_mem_erase hw')

theorem Kept.endWait (h : Kept s log fl) {w : OvlWait} (hmem : w ∈ s.waits) (mask : Nat) :
    Kept (s.endWait w mask) log fl := by
  unfold OvlPool.endWait
  split
  · exact h.setWait hmem trivial
  · exact h.setWaits fun w' hw' => h.waits w' (List.mem_of_mem_erase hw')

theorem Kept.acquire (h : Kept s log fl) (head : s.freeList = some o) : ∃ fl',
    Kept { s with freeList := (s.get o).nextFree, acquiring := o :: s.acquiring } log fl' := by
  obtain ⟨fl', hpooled⟩ := h.pooled.take head
  refine ⟨fl', hpooled, ?_, h.phase, fun w hw => ?_, h.orderly⟩
  · exact h.operated.congr rfl rfl rfl (List.Subset.refl _) fun _ _ => ⟨rfl, rfl, rfl⟩
  · exact (h.waits w hw).congr (List.Subset.refl _) rfl rfl rfl

theorem get_reset (hlt : o < s.ovls.length) (internal : Nat) :
    ((s.reset o internal).get o).internal = internal ∧
      ((s.reset o internal).get o).hEvent ≠ some true ∧
      (((s.reset o internal).get o).hEvent = none ↔ (s.get o).hEvent = none) := by
  have hget : (s.reset o internal).get o = { s.get o with
      internal, internalHigh := 0, hEvent := (s.get o).hEvent.map fun _ => false } :=
    get_modify_self hlt _
  rw [hget]
  exact ⟨rfl, by simp, by simp⟩

theorem Kept.acquireReset (h : Kept s log fl) (hacquiring : o ∈ s.acquiring) :
    Kept { s.reset o 0 with acquiring := s.acquiring.erase o } (log ++ [.acquired o]) fl := by
  obtain ⟨hlt, hfree⟩ := h.pooled.unheld o (List.mem_append_right _ hacquiring)
  have hsub : log ⊆ log ++ [.acquired o] := List.subset_append_left _ _
  have hholds : ∀ p, holds (log ++ [.acquired o]) p = if o = p then true else holds log p :=
    fun p => holds_concat log _ p
  have hlast : ∀ p, lastOp (log ++ [.acquired o]) p = if o = p then none else lastOp log p :=
    fun p => lastOp_concat log _ p
  -- what is held already is another handle
  have hother : ∀ p, holds log p = true → o ≠ p := by
    rintro p hp rfl
    rw [hfree] at hp
    cases hp
  have hget : ∀ p, holds log p = true → (s.reset o 0).get p = s.get p :=
    fun p hp => get_modify_ne (hother p hp).symm _
  refine ⟨h.pooled.hand hacquiring (links_modify fun _ => rfl) (length_modify _) rfl rfl hholds, ?_,
    fun p hp => ?_, fun w hw => ?_, h.orderly.concat hfree⟩
  · refine h.operated.congr rfl rfl rfl hsub fun op hop => ?_
    have hheld := h.operated.held op hop
    exact ⟨by rw [hholds, if_neg (hother _ hheld)], by rw [hlast, if_neg (hother _ hheld)],
      hget _ hheld⟩
  · rw [hlast]
    by_cases hop : o = p
    · subst hop
      rw [if_pos rfl]
      exact .fresh rfl (get_reset hlt 0).2.1
    · rw [hholds, if_neg hop] at hp
      rw [if_neg hop]
      have := (h.phase p hp).mono hsub
      rwa [← hget p hp] at this
  · have hok := h.waits w hw
    refine hok.congr hsub ?_ ?_ (hget _ hok.held)
    · rw [hholds, if_neg (hother _ hok.held)]
    · rw [hlast, if_neg (hother _ hok.held)]

theorem Kept.free (h : Kept s log fl) (hheld : holds log o = true) (hidle : s.Idle o)
    {waits : List OvlWait} (hwaits : ∀ w ∈ waits, w ∈ s.waits ∧ w.ovl ≠ o) :
    Kept { s.free o with waits } (log ++ [.released o]) (o :: fl) := by
  have hsub : log ⊆ log ++ [.released o] := List.subset_append_left _ _
  have hholds : ∀ p, holds (log ++ [.released o]) p = if o = p then false else holds log p :=
    fun p => holds_concat log _ p
  have hlast : ∀ p, lastOp (log ++ [.released o]) p = lastOp log p := fun p => lastOp_concat log _ p
  have hget : ∀ p, p ≠ o → (s.free o).get p = s.get p := fun p hp => get_modify_ne hp _
  refine ⟨h.pooled.free hheld waits hholds, ?_, fun p hp => ?_, fun w hw => ?_,
    h.orderly.concat trivial⟩
  · refine h.operated.congr rfl rfl rfl hsub fun op hop => ?_
    exact ⟨by rw [hholds, if_neg (hidle op hop).symm], hlast _, hget _ (hidle op hop)⟩
  · rw [hholds] at hp
    split at hp
    · cases hp
    · rename_i hne
      have := (h.phase p hp).mono hsub
      rw [hlast]
      rwa [← hget p (Ne.symm hne)] at this
  · obtain ⟨hmem, hne⟩ := hwaits w hw
    exact (h.waits w hmem).congr hsub (by rw [hholds, if_neg hne.symm]) (hlast _) (hget _ hne)

theorem Kept.queue (h : Kept s log fl) (hheld : holds log o = true) (hidle : s.Idle o)
    (hwaits : ∀ w ∈ s.waits, w.ovl = o → ¬w.pc.Reads) :
    Kept { s.reset o statusPending with
      ops := s.ops + 1
      preparing := ⟨s.ops, o⟩ :: s.preparing } log fl := by
  have hlt := h.pooled.lt o hheld
  have hself := get_reset hlt statusPending
  have hget : ∀ p, p ≠ o → (s.reset o statusPending).get p = s.get p :=
    fun p hp => get_modify_ne hp _
  have hquiet : ((s.reset o statusPending).get o).Quiet := ⟨hself.1, hself.2.1⟩
  refine ⟨h.pooled.congr (links_modify fun _ => rfl) (length_modify _) rfl rfl fun _ => rfl, ?_,
    fun p hp => ?_, fun w hw => ?_, h.orderly⟩
  · refine ⟨List.nodup_cons.mpr ⟨fun hmem => ?_, h.operated.apart⟩,
      List.forall_mem_cons.mpr ⟨hheld, h.operated.held⟩, h.operated.last,
      List.forall_mem_cons.mpr ⟨hquiet, fun op hop => ?_⟩, ?_⟩
    · obtain ⟨op, hop, hovl⟩ := List.mem_map.mp hmem
      exact hidle op hop hovl
    · have := h.operated.quiet op hop
      rwa [← hget _ (hidle op (unwritten_subset s hop))] at this
    · refine h.operated.worker.congr (List.Subset.refl _) fun op hop => ?_
      exact hget _ (hidle op (List.mem_append_right _ hop))
  · by_cases hpo : p = o
    · subst hpo
      exact .quiet hquiet
    · have := h.phase p hp
      rwa [← hget p hpo] at this
  · have hok := h.waits w hw
    by_cases hpo : w.ovl = o
    · refine ⟨hok.held, ?_, seen_of_not_reads (hwaits w hw hpo)⟩
      rcases hok.used with hevent | hlast
      · refine .inl fun hnone => hevent ?_
        rw [hpo] at hnone ⊢
        exact hself.2.2.mp hnone
      · exact .inr hlast
    · exact hok.congr (List.Subset.refl _) rfl rfl (hget _ hpo)

/-- Operations change hands: those under way stay among themselves, and their handles as they are.
-/
theorem Operated.move (h : Operated s log) {ovls : List Kovl} (hovls : s'.ovls = ovls)
    (hsame : ovls = s.ovls) (hout : List.Subperm s'.outstanding s.outstanding)
    (hsubmitted : s'.submitted ⊆ s.submitted) (hunwritten : s'.unwritten ⊆ s.unwritten)
    (hworker : WorkerOk s' log s'.worker) : Operated s' log := by
  have hget : s'.get = s.get := by
    funext p
    rw [OvlPool.get, OvlPool.get, hovls, hsame]
  refine ⟨?_, fun op hop => h.held op (hout.subset hop), fun op hop => h.last op (hsubmitted hop),
    fun op hop => ?_, hworker⟩
  · obtain ⟨l, hperm, hsub⟩ := hout
    exact (hperm.map Aop.ovl).nodup_iff.mp (h.apart.sublist (hsub.map Aop.ovl))
  · rw [hget]
    exact h.quiet op (hunwritten hop)

theorem Kept.drop (h : Kept s log fl) (op : Aop) :
    Kept { s with preparing := s.preparing.erase op } (log ++ [.dropped op.num]) fl := by
  have hsub : s.preparing.erase op ⊆ s.preparing := List.erase_subset
  have hdrop : Kept { s with preparing := s.preparing.erase op } log fl := by
    refine ⟨h.pooled.congr rfl rfl rfl rfl fun _ => rfl, ?_, h.phase, fun w hw => ?_, h.orderly⟩
    · refine h.operated.move rfl rfl ?_ (List.Subset.refl _) ?_ ?_
      · exact ((List.erase_sublist.append_right _).append_right _).subperm
      · intro op' hop'
        simp only [OvlPool.unwritten, List.mem_append] at hop' ⊢
        exact hop'.imp_left (Or.imp_left (@hsub op'))
      · exact h.operated.worker.congr (List.Subset.refl _) fun _ _ => rfl
    · exact (h.waits w hw).congr (List.Subset.refl _) rfl rfl rfl
  exact hdrop.note trivial trivial

theorem Kept.workerTake (h : Kept s log fl) {op : Aop} {rest : List Aop}
    (hidle : s.worker = .idle) (hqueue : s.queue = op :: rest) :
    Kept { s with queue := rest, worker := .running op } log fl := by
  have hperm : (s.preparing ++ rest ++ [op]).Perm s.outstanding := by
    rw [OvlPool.outstanding, hqueue, hidle, OvlWorker.op, List.append_nil, List.append_assoc]
    exact (List.perm_append_singleton op rest).append_left _
  have hsubmitted : (rest ++ [op]).Perm s.submitted := by
    rw [OvlPool.submitted, hqueue, hidle, OvlWorker.op, List.append_nil]
    exact List.perm_append_singleton op rest
  have hunwritten : (s.preparing ++ rest ++ [op]).Perm s.unwritten := by
    rw [OvlPool.unwritten, hqueue, hidle, OvlWorker.unwritten, List.append_nil, List.append_assoc]
    exact (List.perm_append_singleton op rest).append_left _
  refine ⟨h.pooled.congr rfl rfl rfl rfl fun _ => rfl, ?_, h.phase, fun w hw => ?_, h.orderly⟩
  · exact h.operated.move rfl rfl hperm.subperm hsubmitted.subset hunwritten.subset trivial
  · exact (h.waits w hw).congr (List.Subset.refl _) rfl rfl rfl

theorem Kept.workerRun (h : Kept s log fl) {op : Aop} (rc actual : Int)
    (hrunning : s.worker = .running op) :
    Kept { s with worker := .answered op rc actual } (log ++ [.completed op.num rc actual]) fl := by
  have hnote := h.note (e := .completed op.num rc actual) trivial trivial
  refine ⟨hnote.pooled.congr rfl rfl rfl rfl fun _ => rfl, ?_, hnote.phase, fun w hw => ?_,
    hnote.orderly⟩
  · refine hnote.operated.move rfl rfl ?_ ?_ ?_ (List.mem_append_right _ List.mem_cons_self)
    all_goals
      simp only [OvlPool.outstanding, OvlPool.submitted, OvlPool.unwritten, hrunning, OvlWorker.op,
        OvlWorker.unwritten]
    · exact List.Subperm.refl _
    · exact List.Subset.refl _
    · exact List.Subset.refl _
  · exact (hnote.waits w hw).congr (List.Subset.refl _) rfl rfl rfl

/-- The worker writes to the handle of its operation, which has been the last one of it all along.
-/
theorem Kept.deliver (h : Kept s log fl) {op : Aop} {f : Kovl → Kovl} {worker : OvlWorker}
    (hf : ∀ ovl, (f ovl).nextFree = ovl.nextFree) (hop : s.worker.op = [op])
    (hworker : worker.op ⊆ [op]) (hunwritten : worker.unwritten ⊆ s.worker.unwritten)
    (hquiet : op ∈ worker.unwritten → (f (s.get op.ovl)).Quiet)
    (hok : WorkerOk (s.modify op.ovl f) (log ++ [.delivered op.num op.ovl]) worker)
    (hphase : Phase log (f (s.get op.ovl)) (some op.num))
    (hevent : (f (s.get op.ovl)).hEvent = none ↔ (s.get op.ovl).hEvent = none)
    (hseen : ∀ pc, Seen log (s.get op.ovl) (some op.num) pc →
      Seen log (f (s.get op.ovl)) (some op.num) pc) :
    Kept { s.modify op.ovl f with worker } (log ++ [.delivered op.num op.ovl]) fl := by
  have hmem : op ∈ s.submitted := List.mem_append_right _ (by rw [hop]; exact List.mem_cons_self)
  have hheld := h.operated.held op (submitted_subset s hmem)
  have hlast := h.operated.last op hmem
  have hlt := h.pooled.lt _ hheld
  have hself : (s.modify op.ovl f).get op.ovl = f (s.get op.ovl) := get_modify_self hlt f
  have hget : ∀ p, p ≠ op.ovl → (s.modify op.ovl f).get p = s.get p :=
    fun p hp => get_modify_ne hp f
  have hsub : log ⊆ log ++ [.delivered op.num op.ovl] := List.subset_append_left _ _
  have hholds : ∀ p, holds (log ++ [.delivered op.num op.ovl]) p = holds log p :=
    fun p => holds_concat log _ p
  have hlasts : ∀ p, lastOp (log ++ [.delivered op.num op.ovl]) p = lastOp log p :=
    fun p => lastOp_concat log _ p
  -- the other operations have other handles
  have hapart : ∀ op' ∈ s.preparing ++ s.queue, op'.ovl ≠ op.ovl := by
    intro op' hop' heq
    have hnodup := h.operated.apart
    rw [OvlPool.outstanding, hop, List.map_append, List.nodup_append] at hnodup
    exact hnodup.2.2 _ (List.mem_map_of_mem hop') op.ovl (by simp) heq
  refine ⟨h.pooled.congr (links_modify hf) (length_modify f) rfl rfl hholds, ?_, fun p hp => ?_,
    fun w hw => ?_, h.orderly.concat hlast⟩
  · refine ⟨?_, fun op' hop' => ?_, fun op' hop' => ?_, fun op' hop' => ?_, hok⟩
    · refine h.operated.apart.sublist (List.Sublist.map _ (List.Sublist.append_left ?_ _))
      rw [hop]
      cases worker <;> simp_all [OvlWorker.op]
    · rw [hholds]
      rcases List.mem_append.mp hop' with hop' | hop'
      · exact h.operated.held op' (List.mem_append_left _ hop')
      · obtain rfl := List.mem_singleton.mp (hworker hop')
        exact hheld
    · rw [hlasts]
      rcases List.mem_append.mp hop' with hop' | hop'
      · exact h.operated.last op' (List.mem_append_left _ hop')
      · obtain rfl := List.mem_singleton.mp (hworker hop')
        exact hlast
    · rcases List.mem_append.mp hop' with hop' | hop'
      · have := h.operated.quiet op' (List.mem_append_left _ hop')
        rwa [← hget _ (hapart op' hop')] at this
      · obtain rfl := List.mem_singleton.mp (hworker (worker.unwritten_subset hop'))
        have := hquiet hop'
        rwa [← hself] at this
  · rw [hlasts]
    rw [hholds] at hp
    by_cases hpo : p = op.ovl
    · subst hpo
      rw [hlast, show ({ s.modify op.ovl f with worker } : OvlPool).get op.ovl =
        f (s.get op.ovl) from hself]
      exact hphase.mono hsub
    · have := (h.phase p hp).mono hsub
      rwa [← hget p hpo] at this
  · have hok' := h.waits w hw
    by_cases hpo : w.ovl = op.ovl
    · refine ⟨by rw [hholds]; exact hok'.held, ?_, ?_⟩
      · rw [hlasts, hpo, hlast]
        exact .inr (by simp)
      · have hseen' := hok'.seen
        rw [hpo, hlast] at hseen'
        rw [hlasts, hpo, hlast, show ({ s.modify op.ovl f with worker } : OvlPool).get op.ovl =
          f (s.get op.ovl) from hself]
        exact (hseen _ hseen').mono hsub
    · exact hok'.congr hsub (hholds _) (hlasts _) (hget _ hpo)

theorem Kept.enqueue (h : Kept s log fl) {op : Aop} (hpreparing : op ∈ s.preparing) :
    Kept { s with
      preparing := s.preparing.erase op
      workerStarted := true
      queue := s.queue ++ [op] } (log ++ [.queued op.num op.ovl]) fl := by
  have hsub : log ⊆ log ++ [.queued op.num op.ovl] := List.subset_append_left _ _
  have hholds : ∀ p, holds (log ++ [.queued op.num op.ovl]) p = holds log p :=
    fun p => holds_concat log _ p
  have hlast : ∀ p, lastOp (log ++ [.queued op.num op.ovl]) p =
      if op.ovl = p then some op.num else lastOp log p := fun p => lastOp_concat log _ p
  have hquiet : (s.get op.ovl).Quiet :=
    h.operated.quiet op (List.mem_append_left _ (List.mem_append_left _ hpreparing))
  have hperm : (s.preparing.erase op ++ (s.queue ++ [op])).Perm (s.preparing ++ s.queue) := by
    refine List.Perm.trans ?_ ((List.perm_cons_erase hpreparing).append_right s.queue).symm
    rw [← List.append_assoc]
    exact List.perm_append_singleton op _
  have hout : (s.preparing.erase op ++ (s.queue ++ [op]) ++ s.worker.op).Perm s.outstanding :=
    hperm.append_right _
  -- the operations queued before have other handles
  have hapart : ∀ op' ∈ s.submitted, op.ovl ≠ op'.ovl := by
    intro op' hop' heq
    have hnodup := h.operated.apart
    rw [OvlPool.outstanding, List.append_assoc, List.map_append, List.nodup_append] at hnodup
    exact hnodup.2.2 op.ovl (List.mem_map_of_mem hpreparing) op'.ovl (List.mem_map_of_mem hop') heq
  refine ⟨h.pooled.congr rfl rfl rfl rfl hholds, ?_, fun p hp => ?_, fun w hw => ?_,
    h.orderly.concat trivial⟩
  · refine ⟨(hout.map Aop.ovl).nodup_iff.mpr h.operated.apart, fun op' hop' => ?_,
      fun op' hop' => ?_, fun op' hop' => ?_, ?_⟩
    · rw [hholds]
      exact h.operated.held op' (hout.mem_iff.mp hop')
    · rw [hlast]
      have hor : op' = op ∨ op' ∈ s.submitted := by
        simp only [OvlPool.submitted, List.mem_append, List.mem_singleton] at hop' ⊢
        rcases hop' with (hqueue | rfl) | hworker
        · exact .inr (.inl hqueue)
        · exact .inl rfl
        · exact .inr (.inr hworker)
      rcases hor with rfl | hop'
      · exact if_pos rfl
      · rw [if_neg (hapart op' hop')]
        exact h.operated.last op' hop'
    · exact h.operated.quiet op' ((hperm.append_right _).mem_iff.mp hop')
    · exact h.operated.worker.congr hsub fun _ _ => rfl
  · rw [hholds] at hp
    rw [hlast]
    by_cases hpo : op.ovl = p
    · subst hpo
      exact .quiet hquiet
    · rw [if_neg hpo]
      exact (h.phase p hp).mono hsub
  · have hok := h.waits w hw
    by_cases hpo : op.ovl = w.ovl
    · refine ⟨by rw [hholds]; exact hok.held, .inr ?_, seen_of_not_reads ?_⟩
      · rw [hlast, if_pos hpo]
        simp
      · exact hok.seen.not_reads (hpo ▸ hquiet)
    · exact hok.congr hsub (hholds _) (by rw [hlast, if_neg hpo]) rfl

/-- While the worker has yet to write the status, nobody has seen a result. -/
theorem seen_of_quiet {ovl ovl' : Kovl} {last : Option Nat} (hquiet : ovl.Quiet) (pc : WaitPc)
    (h : Seen log ovl last pc) : Seen log ovl' last pc :=
  seen_of_not_reads (h.not_reads hquiet)

theorem Kept.workerHigh (h : Kept s log fl) {op : Aop} {rc actual : Int}
    (hanswered : s.worker = .answered op rc actual) :
    Kept { s.modify op.ovl fun ovl =>
        { ovl with internalHigh := if rc < 0 then 0 else ulongPtr actual } with
      worker := .wroteHigh op rc } (log ++ [.delivered op.num op.ovl]) fl := by
  have hunwritten : op ∈ s.unwritten :=
    List.mem_append_right _ (by rw [hanswered]; exact List.mem_cons_self)
  have hquiet := h.operated.quiet op hunwritten
  have hlt : op.ovl < s.ovls.length :=
    h.pooled.lt _ (h.operated.held op (unwritten_subset s hunwritten))
  have hanswer := h.operated.worker
  rw [hanswered] at hanswer
  refine h.deliver (fun _ => rfl) (by rw [hanswered]; rfl) (List.Subset.refl _)
    (by rw [hanswered]; exact List.Subset.refl _) (fun _ => hquiet) ?_ (.quiet hquiet) Iff.rfl
    (seen_of_quiet hquiet)
  refine ⟨actual, List.mem_append_left _ hanswer, ?_⟩
  rw [get_modify_self hlt]

theorem Kept.workerStatus (h : Kept s log fl) {op : Aop} {rc : Int}
    (hwrote : s.worker = .wroteHigh op rc) :
    Kept { s.modify op.ovl fun ovl =>
        { ovl with internal := if rc < 0 then lkStatusFail else 0 } with
      worker := .wroteStatus op } (log ++ [.delivered op.num op.ovl]) fl := by
  have hunwritten : op ∈ s.unwritten :=
    List.mem_append_right _ (by rw [hwrote]; exact List.mem_cons_self)
  have hquiet := h.operated.quiet op hunwritten
  have hlt : op.ovl < s.ovls.length :=
    h.pooled.lt _ (h.operated.held op (unwritten_subset s hunwritten))
  have hanswer := h.operated.worker
  rw [hwrote] at hanswer
  obtain ⟨actual, hmem, hhigh⟩ := hanswer
  have hresult : Kovl.Result { s.get op.ovl with
      internal := if rc < 0 then lkStatusFail else 0 } log op.num := ⟨rc, actual, hmem, hhigh, rfl⟩
  refine h.deliver (fun _ => rfl) (by rw [hwrote]; rfl) (List.Subset.refl _)
    (List.nil_subset _) (fun hmem => by cases hmem) ?_ (.finished rfl hresult) Iff.rfl (seen_of_quiet hquiet)
  rw [WorkerOk, get_modify_self hlt]
  exact hresult.mono (List.subset_append_left _ _)

theorem Kept.workerEvent (h : Kept s log fl) {op : Aop} (hwrote : s.worker = .wroteStatus op) :
    Kept { s.modify op.ovl fun ovl => { ovl with hEvent := ovl.hEvent.map fun _ => true } with
      worker := .idle } (log ++ [.delivered op.num op.ovl]) fl := by
  have hanswer := h.operated.worker
  rw [hwrote] at hanswer
  have hresult : Kovl.Result { s.get op.ovl with
      hEvent := (s.get op.ovl).hEvent.map fun _ => true } log op.num := hanswer
  refine h.deliver (fun _ => rfl) (by rw [hwrote]; rfl) (List.nil_subset _) (List.nil_subset _)
    (fun hmem => by cases hmem) trivial (.finished rfl hresult) (by simp) fun pc hseen => ?_
  cases pc with
  | waiting | releasing => trivial
  | woken => exact hseen
  | read transferred => exact hseen

theorem Kept.wait (h : Kept s log fl) (hheld : holds log o = true)
    (hused : (s.get o).hEvent ≠ none ∨ lastOp log o ≠ none) (timeoutMs : Int) (flags : Nat) :
    Kept { s with waits := ⟨o, timeoutMs, flags, .waiting⟩ :: s.waits } log fl :=
  h.setWaits (List.forall_mem_cons.mpr ⟨⟨hheld, hused, trivial⟩, h.waits⟩)

/-- A wait that ends has the result of the last operation before it. -/
theorem Kept.wake (h : Kept s log fl) {w : OvlWait} (hmem : w ∈ s.waits)
    (hcomplete : s.complete w.ovl = true) : Kept (s.setWait w .woken) log fl := by
  refine h.setWait hmem ?_
  have hok := h.waits w hmem
  unfold OvlPool.complete at hcomplete
  cases h.phase w.ovl hok.held with
  | fresh none unset =>
    have hevent := hok.used.resolve_right fun hlast => hlast none
    split at hcomplete
    · rename_i b hb
      rw [hcomplete] at hb
      exact absurd hb unset
    · exact absurd ‹_› hevent
  | quiet quiet =>
    split at hcomplete
    · rename_i b hb
      rw [hcomplete] at hb
      exact absurd hb quiet.2
    · exact absurd quiet.1 (of_decide_eq_true hcomplete)
  | finished some result => exact ⟨_, some, result⟩

theorem Kept.readHigh (h : Kept s log fl) {w : OvlWait} (hmem : w ∈ s.waits)
    (hwoken : w.pc = .woken) :
    Kept (s.setWait w (.read ((s.get w.ovl).internalHigh % 2 ^ 32))) log fl := by
  refine h.setWait hmem ⟨?_, rfl⟩
  have hseen := (h.waits w hmem).seen
  rwa [hwoken] at hseen

theorem Kept.readStatus (h : Kept s log fl) {w : OvlWait} {transferred : Nat}
    (hmem : w ∈ s.waits) (hread : w.pc = .read transferred) (mask : Nat) :
    Kept (s.endWait w mask) (log ++ [.reported w.ovl ((s.get w.ovl).internal = 0) transferred])
      fl := by
  have hseen := (h.waits w hmem).seen
  rw [hread] at hseen
  obtain ⟨⟨num, hlast, rc, actual, hcompleted, hhigh, hinternal⟩, htransferred⟩ := hseen
  refine (h.note (e := .reported w.ovl ((s.get w.ovl).internal = 0) transferred) trivial
    ?_).endWait hmem mask
  by_cases hok : (s.get w.ovl).internal = 0
  · have hrc : ¬rc < 0 := by
      intro hneg
      rw [if_pos hneg, hok] at hinternal
      exact absurd hinternal (by decide)
    rw [decide_eq_true hok]
    exact ⟨num, rc, actual, hlast, hcompleted, by omega, by rw [htransferred, hhigh, if_neg hrc]⟩
  · rw [decide_eq_false hok]
    trivial

end Steps

/-! ### Runs -/

theorem Kept.step {t t' : OvlTrace} {act : OvlAct} {fl : List OvlId}
    (h : Kept t.state t.log fl) (hproper : Proper t act) (hst : t.step act = some t') :
    ∃ fl', Kept t'.state t'.log fl' := by
  obtain ⟨events, hs, hlog⟩ := OvlTrace.step_some hst
  rw [hlog]
  generalize t'.state = s' at hs
  cases hs with
  | acquire head =>
    rw [List.append_nil]
    exact h.acquire head
  | refuse => exact ⟨fl, h.note trivial trivial⟩
  | acquireReset acquiring => exact ⟨fl, h.acquireReset acquiring⟩
  | @release o lt =>
    obtain ⟨hheld, hidle, hwaits⟩ := hproper
    exact ⟨o :: fl, h.free hheld hidle fun w hw => ⟨hw, hwaits w hw⟩⟩
  | queue lt =>
    obtain ⟨hheld, hidle, hwaits⟩ := hproper
    rw [List.append_nil]
    exact ⟨fl, h.queue hheld hidle hwaits⟩
  | enqueue preparing => exact ⟨fl, h.enqueue preparing⟩
  | @drop op => exact ⟨fl, h.drop op⟩
  | workerTake idle queue =>
    rw [List.append_nil]
    exact ⟨fl, h.workerTake idle queue⟩
  | workerRun rc actual running => exact ⟨fl, h.workerRun rc actual running⟩
  | workerHigh answered => exact ⟨fl, h.workerHigh answered⟩
  | workerStatus wroteHigh => exact ⟨fl, h.workerStatus wroteHigh⟩
  | workerEvent wroteStatus => exact ⟨fl, h.workerEvent wroteStatus⟩
  | wait timeoutMs flags =>
    rw [List.append_nil]
    exact ⟨fl, h.wait hproper.1 hproper.2 timeoutMs flags⟩
  | wake mem complete =>
    rw [List.append_nil]
    exact ⟨fl, h.wake mem complete⟩
  | @timeout w mem => exact ⟨fl, (h.note (e := .timedOut w.ovl) trivial trivial).endWait mem _⟩
  | readHigh mem woken =>
    rw [List.append_nil]
    exact ⟨fl, h.readHigh mem woken⟩
  | readStatus mem read mask => exact ⟨fl, h.readStatus mem read mask⟩
  | @waitRelease w mem =>
    obtain ⟨hheld, hidle, hwaits⟩ := hproper
    exact ⟨w.ovl :: fl, h.free hheld hidle fun w' hw' => ⟨List.mem_of_mem_erase hw', hwaits w' hw'⟩⟩

/-- `OvlK_Init` strings its handles together. -/
theorem ovlkInit_pool (events : List Bool) : ∃ ovls freeList, ∃ fl : List OvlId,
    OvlPool.ovlkInit events = { OvlPool.empty with ovls, freeList } ∧
      Chain (links ovls) freeList (fl.map (·, ())) ∧ ∀ o ∈ fl, o < ovls.length := by
  induction events using List.reverseRecOn with
  | nil => exact ⟨[], none, [], rfl, rfl, by simp⟩
  | append_singleton events hasEvent ih =>
    obtain ⟨ovls, freeList, fl, hinit, hchain, hlt⟩ := ih
    have hpush : OvlPool.ovlkInit (events ++ [hasEvent]) =
        (OvlPool.ovlkInit events).push hasEvent := List.foldl_concat ..
    rw [hinit] at hpush
    refine ⟨_, _, ovls.length :: fl, hpush, ⟨rfl, freeList, ?_, hchain.congr fun o ho => ?_⟩, ?_⟩
    · rw [links, List.getElem?_concat_length]
      rfl
    · rw [List.map_map] at ho
      rw [links, links, List.getElem?_append_left (hlt o (by simpa using ho))]
    · rw [List.length_append, List.length_singleton]
      exact List.forall_mem_cons.mpr ⟨Nat.lt_succ_self _, fun o ho => Nat.lt_succ_of_lt (hlt o ho)⟩

theorem Kept.new (events : List Bool) : ∃ fl, Kept (OvlTrace.new events).state [] fl := by
  obtain ⟨ovls, freeList, fl, hinit, hchain, hlt⟩ := ovlkInit_pool events
  refine ⟨fl, ?_⟩
  rw [OvlTrace.new, hinit]
  refine ⟨⟨hchain, ?_, ?_, by simp [holds]⟩, ?_, by simp [holds], by simp [OvlPool.empty], ?_⟩
  · have hnodup := hchain.nodup
    have hfst : (Prod.fst ∘ fun o : OvlId => (o, ())) = id := rfl
    rw [List.map_map, hfst, List.map_id] at hnodup
    simpa [OvlPool.empty] using hnodup
  · intro o ho
    exact ⟨hlt o (by simpa [OvlPool.empty] using ho), rfl⟩
  · exact ⟨.nil, by simp [OvlPool.outstanding, OvlPool.empty, OvlWorker.op],
      by simp [OvlPool.submitted, OvlPool.empty, OvlWorker.op],
      by simp [OvlPool.unwritten, OvlPool.empty, OvlWorker.unwritten], trivial⟩
  · intro before e after heq
    simp at heq

/-- In a run whose steps are all proper every completion is where it belongs. -/
theorem OvlTrace.handles_orderly (events : List Bool) (acts : List OvlAct)
    (hproper : Guarded step Proper (new events) acts) :
    Throughout step (fun t => Orderly t.log) (new events) acts :=
  throughout_of_guarded (I := fun t => ∃ fl, Kept t.state t.log fl)
    (fun _ ⟨_, h⟩ => h.orderly) (fun _ _ _ ⟨_, h⟩ hp hst => h.step hp hst) (Kept.new events) hproper

/-- Two operations on one handle, one after the other, and waits that report them and give the
handle back. -/
def twoOps : List OvlAct :=
  [.acquire, .acquireReset 1, .queue 1, .enqueue ⟨0, 1⟩ true, .wait 1 (-1) 0, .workerTake,
    .workerRun 0 5, .workerHigh, .workerStatus, .workerEvent, .wake ⟨1, -1, 0, .waiting⟩,
    .readHigh ⟨1, -1, 0, .woken⟩, .readStatus ⟨1, -1, 0, .read 5⟩, .queue 1,
    .enqueue ⟨1, 1⟩ false, .workerTake, .workerRun (-1) 0, .workerHigh, .workerStatus, .workerEvent,
    .waitAndRelease 1 100, .wake ⟨1, 100, 0xF, .waiting⟩, .readHigh ⟨1, 100, 0xF, .woken⟩,
    .readStatus ⟨1, 100, 0xF, .read 0⟩, .waitRelease ⟨1, 100, 0xF, .releasing⟩]

theorem OvlTrace.handles_orderly_twoOps :
    (exec step (new [true, true]) twoOps).isSome ∧
      Throughout step (fun t => Orderly t.log) (new [true, true]) twoOps :=
  ⟨by decide, handles_orderly _ _ (by decide)⟩

/-- A wait that is to cancel on a timeout times out and gives the handle back; the application,
which still has it, gives it back too, and then two acquisitions get the same handle. -/
def cancelled : List OvlAct :=
  [.acquire, .acquireReset 1, .queue 1, .enqueue ⟨0, 1⟩ true, .waitOrCancel 1 0,
    .timeout ⟨1, 0, 4, .waiting⟩, .waitRelease ⟨1, 0, 4, .releasing⟩, .release 1, .acquire,
    .acquireReset 1, .acquire, .acquireReset 1]

theorem OvlTrace.handles_disorderly :
    ¬∀ (events : List Bool) (acts : List OvlAct),
      Throughout step (fun t => Orderly t.log) (new events) acts := by
  intro h
  have hrun : ∃ t, exec step (new [true, true]) cancelled = some t ∧
      t.log = [.acquired 1, .queued 0 1, .timedOut 1, .released 1, .released 1, .acquired 1] ++
        .acquired 1 :: [] := ⟨_, rfl, rfl⟩
  obtain ⟨t, ht, hlog⟩ := hrun
  have hheld : holds [.acquired 1, .queued 0 1, .timedOut 1, .released 1, .released 1, .acquired 1]
      1 = false := (h _ _).last ht _ _ _ hlog
  exact absurd hheld (by decide)

end Usbip.Libusbk
