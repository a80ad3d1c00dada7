import Usbip.Libusb.Async

/-! Completions and the pipe that wakes the threads in `handle_events`.  The worker first appends to
the done queue and then writes to the pipe; a handler first empties the pipe and then takes the done
queue. -/

namespace Usbip.Libusb

open Lib

/-- Between `poll` and the section that takes the done queue. -/
def Handler.Drains : Handler → Prop
  | .draining | .drained => True
  | _ => False

namespace Async

/-- The pipe holds a byte, or the worker is about to write one, or a handler has emptied the pipe
and has yet to take the done queue. -/
def Signalled (s : Async) : Prop :=
  0 < s.pipe ∨ s.worker = .waking ∨ ∃ (h : Nat) (pc : Handler), s.handlers[h]? = some pc ∧ pc.Drains

/-- The handler leaves `poll` without a timeout, at once or once the worker has written its byte, or
another handler needs only to go on and there are no completions left. -/
def Wakes (s : Async) (h : Nat) : Prop :=
  (s.step (.poll h false)).isSome ∨
  (∃ t events, s.step .workerWrite = some (t, events) ∧ (t.step (.poll h false)).isSome) ∨
  ∃ (h' : Nat) (acts : List AsyncAct) (t : Async), (∀ act ∈ acts, act = .read h' ∨ act = .take h') ∧
    exec (fun s act => (s.step act).map Prod.fst) s acts = some t ∧ t.doneq.head = none

/-- No completion is stranded. A context without a pipe has no handler that waits for it. -/
structure Awake (s : Async) : Prop where
  signalled : s.hasPipe → s.doneq.head ≠ none → s.Signalled
  unwaited : ¬s.hasPipe → ∀ h : Nat, s.handlers[h]? ≠ some .polling
  wakes : ∀ h : Nat, s.handlers[h]? = some .polling → s.doneq.head ≠ none → s.Wakes h

/-- What the steps keep of it. -/
structure Wired (s : Async) : Prop where
  signalled : s.hasPipe → s.doneq.head ≠ none → s.Signalled
  unwaited : ¬s.hasPipe → ∀ h : Nat, s.handlers[h]? ≠ some .polling

variable {s s' : Async} {act : AsyncAct} {events : List AsyncEvent}

theorem setHandler_handlers {h : Nat} {old pc : Handler} (hold : s.handlers[h]? = some old)
    (i : Nat) :
    (s.setHandler h pc).handlers[i]? = if h = i then some pc else s.handlers[i]? := by
  have hlt := (List.getElem?_eq_some_iff.mp hold).1
  by_cases hi : h = i
  · subst hi
    rw [if_pos rfl]
    exact List.getElem?_set_self hlt
  · rw [if_neg hi]
    exact List.getElem?_set_ne hi

/-- A handler outside the stretch between `poll` and the done queue has no part in the signal. -/
theorem Signalled.setHandler (hs : s.Signalled) {h : Nat} {old pc : Handler}
    (hold : s.handlers[h]? = some old) (hdrains : ¬old.Drains) : (s.setHandler h pc).Signalled := by
  rcases hs with hpipe | hwaking | ⟨i, pc', hi, hpc'⟩
  · exact .inl hpipe
  · exact .inr (.inl hwaking)
  · refine .inr (.inr ⟨i, pc', ?_, hpc'⟩)
    rw [setHandler_handlers hold, if_neg, hi]
    rintro rfl
    cases hold.symm.trans hi
    exact hdrains hpc'

theorem signalled_of_drains {h : Nat} {old pc : Handler} (hold : s.handlers[h]? = some old)
    (hpc : pc.Drains) : (s.setHandler h pc).Signalled :=
  .inr (.inr ⟨h, pc, by rw [setHandler_handlers hold, if_pos rfl], hpc⟩)

theorem unwaited_setHandler (hs : ∀ h : Nat, s.handlers[h]? ≠ some .polling) {h : Nat}
    {old pc : Handler} (hold : s.handlers[h]? = some old) (hpc : pc ≠ .polling) (i : Nat) :
    (s.setHandler h pc).handlers[i]? ≠ some .polling := by
  rw [setHandler_handlers hold]
  split
  · simpa using hpc
  · exact hs i

/-- A step of a handler that neither empties the pipe nor touches the done queue. -/
theorem Wired.setHandler (hw : s.Wired) {h : Nat} {old pc : Handler}
    (hold : s.handlers[h]? = some old) (hdrains : ¬old.Drains) (hpc : pc ≠ .polling) :
    (s.setHandler h pc).Wired where
  signalled hpipe hdone := (hw.signalled hpipe hdone).setHandler hold hdrains
  unwaited hpipe := unwaited_setHandler (hw.unwaited hpipe) hold hpc

theorem Wired.congr (hw : s.Wired) (hpipe : s'.hasPipe = s.hasPipe) (hbytes : s'.pipe = s.pipe)
    (hworker : s'.worker = s.worker) (hdone : s'.doneq = s.doneq)
    (hhandlers : s'.handlers = s.handlers) : s'.Wired where
  signalled h hne := by
    rw [Signalled, hbytes, hworker, hhandlers]
    exact hw.signalled (hpipe ▸ h) (hdone ▸ hne)
  unwaited h := by
    rw [hhandlers]
    exact hw.unwaited (hpipe ▸ h)

theorem Wired.heap (hw : s.Wired) (heap : XferId → Option ITransfer) : { s with heap }.Wired :=
  hw.congr rfl rfl rfl rfl rfl

theorem link_fst (s : Async) (q : Queue) (it : XferId) :
    ∃ heap, (s.link q it).1 = { s with heap } := by
  unfold link
  split
  · exact ⟨_, rfl⟩
  · exact ⟨_, rfl⟩

theorem Wired.submit (hw : s.Wired) (it : XferId) : (s.submit it).1.Wired := by
  unfold Async.submit
  split
  · exact hw.congr rfl rfl rfl rfl rfl
  · exact hw

theorem Wired.enqueue (hw : s.Wired) (it : XferId) (created : Bool) :
    (s.enqueue it created).1.Wired := by
  unfold Async.enqueue
  dsimp only
  split
  · obtain ⟨heap, hlink⟩ := link_fst
      ({ s with submitting := s.submitting.erase it, workerStarted := true }.modify it
        fun x => { x with state := .queued }) s.subq it
    have hmodify : ∀ t : Async, ∀ f, (t.modify it f).subq = t.subq := fun _ _ => rfl
    rw [hmodify]
    exact hw.congr (by rw [hlink]; rfl) (by rw [hlink]; rfl) (by rw [hlink]; rfl)
      (by rw [hlink]; rfl) (by rw [hlink]; rfl)
  · exact hw.congr rfl rfl rfl rfl rfl

theorem Wired.cancel (hw : s.Wired) (it : XferId) : (s.cancel it).1.Wired := by
  unfold Async.cancel
  split
  · exact hw.congr rfl rfl rfl rfl rfl
  · exact hw

theorem Wired.cancelLocked (hw : s.Wired) (it : XferId) : (s.cancelLocked it).1.Wired := by
  unfold Async.cancelLocked
  dsimp only
  split <;> exact hw.congr rfl rfl rfl rfl rfl

/-- Up to its second section the worker neither appends nor wakes. -/
theorem Wired.work (hw : s.Wired) (hidle : s.worker ≠ .waking) (hpipe : s'.hasPipe = s.hasPipe)
    (hbytes : s'.pipe = s.pipe) (hdone : s'.doneq = s.doneq)
    (hhandlers : s'.handlers = s.handlers) : s'.Wired where
  signalled h hne := by
    rw [Signalled, hbytes, hhandlers]
    rcases hw.signalled (hpipe ▸ h) (hdone ▸ hne) with hpos | hwaking | hdrains
    · exact .inl hpos
    · exact absurd hwaking hidle
    · exact .inr (.inr hdrains)
  unwaited h := by
    rw [hhandlers]
    exact hw.unwaited (hpipe ▸ h)

theorem Wired.workerDone (hw : s.Wired) (it : XferId) : (s.workerDone it).1.Wired := by
  obtain ⟨heap, hlink⟩ := link_fst s s.doneq it
  refine ⟨fun _ _ => .inr (.inl rfl), fun h => ?_⟩
  have hpipe : (s.workerDone it).1.hasPipe = s.hasPipe := by
    simp only [Async.workerDone, hlink]
  have hhandlers : (s.workerDone it).1.handlers = s.handlers := by
    simp only [Async.workerDone, hlink]
  rw [hhandlers]
  exact hw.unwaited (hpipe ▸ h)

/-- The pipe does not take a byte only when it is full. -/
theorem Wired.workerWrite (hw : s.Wired) :
    { s with
      worker := .idle
      pipe := if s.hasPipe ∧ s.pipe < pipeCap then s.pipe + 1 else s.pipe }.Wired where
  signalled h _ := by
    refine .inl ?_
    dsimp only
    split
    · omega
    · rename_i hfull
      have : ¬s.pipe < pipeCap := fun hlt => hfull ⟨h, hlt⟩
      rw [pipeCap] at this
      omega
  unwaited := hw.unwaited

theorem Wired.handle (hw : s.Wired) :
    { s with handlers := s.handlers ++
      [if s.hasPipe then Handler.polling else Handler.drained] }.Wired where
  signalled h hne := by
    rcases hw.signalled h hne with hpos | hwaking | ⟨i, pc, hi, hpc⟩
    · exact .inl hpos
    · exact .inr (.inl hwaking)
    · refine .inr (.inr ⟨i, pc, ?_, hpc⟩)
      rw [List.getElem?_append_left (List.getElem?_eq_some_iff.mp hi).1, hi]
  unwaited h i := by
    dsimp only at h ⊢
    rw [if_neg h, List.getElem?_append]
    split
    · exact hw.unwaited h i
    · rw [List.getElem?_singleton]
      split
      · simp
      · simp

theorem Wired.step (hw : s.Wired) (hs : AsyncStep s act s' events) : s'.Wired := by
  cases hs with
  | alloc => exact hw.congr rfl rfl rfl rfl rfl
  | free => exact hw.heap _
  | submit => exact hw.submit _
  | enqueue created => exact hw.enqueue _ created
  | cancel => exact hw.cancel _
  | cancelLocked => exact hw.cancelLocked _
  | workerTake idle => exact hw.work (by rw [idle]; simp) rfl rfl rfl rfl
  | workerRun status actual taken =>
    refine hw.work (by rw [taken]; simp) ?_ ?_ ?_ ?_
    all_goals
      unfold Async.workerRun
      dsimp only
      split
      · rfl
      · split <;> rfl
  | workerDone => exact hw.workerDone _
  | workerWrite => exact hw.workerWrite
  | handle => exact hw.handle
  | poll polling =>
    refine ⟨fun _ _ => signalled_of_drains polling trivial, fun h => ?_⟩
    exact unwaited_setHandler (hw.unwaited h) polling (by simp)
  | read draining => exact ⟨fun _ _ => .inr (.inr ⟨_, _, draining, trivial⟩), hw.unwaited⟩
  | readEmpty draining =>
    refine ⟨fun _ _ => signalled_of_drains draining trivial, fun h => ?_⟩
    exact unwaited_setHandler (hw.unwaited h) draining (by simp)
  | take drained =>
    refine ⟨fun _ hne => absurd rfl hne, fun h => ?_⟩
    exact unwaited_setHandler (hw.unwaited h) drained (by simp)
  | walkEnd walking => exact hw.setHandler walking id (by simp)
  | @walk h it walking =>
    refine (hw.heap _).setHandler (s := s.modify it _) walking id ?_
    split <;> simp
  | callbackReturns calling => exact hw.setHandler calling id (by simp)
  | flags called => exact (hw.heap _).setHandler (s := { s with heap := _ }) called id (by simp)

theorem Wired.wakes (hw : s.Wired) {h : Nat} (hpolling : s.handlers[h]? = some .polling)
    (hne : s.doneq.head ≠ none) : s.Wakes h := by
  have hpipe : s.hasPipe := by
    by_contra hnone
    exact hw.unwaited hnone h hpolling
  have awakes : ∀ t : Async, t.handlers = s.handlers → 0 < t.pipe →
      (t.step (.poll h false)).isSome := by
    intro t hsame hpos
    simp [Async.step, hsame, hpolling, hpos]
  rcases Nat.eq_zero_or_pos s.pipe with hzero | hpos
  · rcases hw.signalled hpipe hne with hpos | hwaking | ⟨h', pc, hpc, hdrains⟩
    · omega
    · have hwrite : s.step .workerWrite =
          some ({ s with worker := .idle, pipe := s.pipe + 1 }, []) := by
        rw [Async.step, if_pos hwaking, if_pos ⟨hpipe, by rw [hzero, pipeCap]; omega⟩]
      exact .inr (.inl ⟨_, _, hwrite, awakes _ rfl (Nat.succ_pos _)⟩)
    · refine .inr (.inr ?_)
      cases pc with
      | draining =>
        -- the pipe is empty: the read fails, and the thread takes the done queue
        have hnext : (s.setHandler h' .drained).handlers[h']? = some .drained := by
          rw [setHandler_handlers hpc, if_pos rfl]
        have hrun : exec (fun s act => (s.step act).map Prod.fst) s [.read h', .take h'] =
            some ({ s.setHandler h' .drained with doneq := ⟨none, none⟩ }.setHandler h'
              (.walking s.doneq.head)) := by
          rw [exec_cons, Async.step, if_pos hpc, if_neg (by omega), Option.map_some,
            Option.bind_some, exec_cons, Async.step, if_pos hnext]
          rfl
        exact ⟨h', _, _, by simp, hrun, rfl⟩
      | drained =>
        have hrun : exec (fun s act => (s.step act).map Prod.fst) s [.take h'] =
            some ({ s with doneq := ⟨none, none⟩ }.setHandler h' (.walking s.doneq.head)) := by
          rw [exec_cons, Async.step, if_pos hpc]
          rfl
        exact ⟨h', _, _, by simp, hrun, rfl⟩
      | polling | walking | calling | called | returned => exact hdrains.elim
  · exact .inl (awakes s rfl hpos)

theorem Wired.awake (hw : s.Wired) : s.Awake := ⟨hw.signalled, hw.unwaited, fun _ => hw.wakes⟩

theorem Wired.new (hasPipe : Bool) : (Async.new hasPipe).Wired where
  signalled _ hne := absurd rfl hne
  unwaited _ h := by simp [Async.new]

end Async

/-- Whatever the application, the worker and the threads in `handle_events` do, in whatever order,
no completion is ever stranded. -/
theorem AsyncTrace.no_stranded (hasPipe : Bool) (acts : List AsyncAct) :
    Throughout step (fun t => t.state.Awake) (.new hasPipe) acts := by
  refine throughout_of_guarded (I := fun t => t.state.Wired) (C := fun _ _ => True)
    (fun _ => Async.Wired.awake) (fun t act t' hw _ hst => ?_) (Async.Wired.new hasPipe)
    (.of_forall (fun _ _ => trivial) _)
  obtain ⟨events, hs, -⟩ := step_some hst
  exact hw.step hs

end Usbip.Libusb
