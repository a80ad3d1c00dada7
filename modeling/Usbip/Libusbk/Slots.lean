import Usbip.Libusbk.Kstm

/-! The slots of a stream.  They circulate between the free ring, the ready ring, the thread and the
callers of `StmK_Read`, and what an IN stream has received goes to the callers in the order in which
it came. -/

namespace Usbip.Libusbk

open Lib

def KstmThread.slots : KstmThread → List Nat
  | .submitting slot | .failed slot | .completed slot => [slot]
  | .waiting | .exited => []

/-- A slot with a transfer that is not yet on a ring. -/
def KstmThread.filled : KstmThread → List Nat
  | .completed slot => [slot]
  | _ => []

namespace Kstm

/-- The slots that the thread or a caller has. -/
def held (s : Kstm) : List Nat := s.thread.slots ++ s.copying.map StmkRead.slot ++ s.copied

/-- Every slot is in one place. -/
structure Conserved (s : Kstm) (n : Nat) : Prop where
  perm : (s.free.toList n ++ s.ready.toList n ++ s.held).Perm (List.range n)
  free_le : s.free.count ≤ n
  ready_le : s.ready.count ≤ n

end Kstm

def KstmEvent.fill? : KstmEvent → Option (List UInt8)
  | .filled _ data => some data
  | _ => none

def KstmEvent.delivery? : KstmEvent → Option (StmkRead × List UInt8)
  | .delivered read data => some (read, data)
  | _ => none

/-- What the transfers of an IN stream have received, in order. -/
def fills (log : List KstmEvent) : List (List UInt8) := log.filterMap KstmEvent.fill?

def deliveries (log : List KstmEvent) : List (StmkRead × List UInt8) :=
  log.filterMap KstmEvent.delivery?

/-- The calls of `StmK_Read` get what the transfers have received in the order in which it came: the
call that was the `k`-th to take a slot copies from the `k`-th, each of them does so once, and what
no call has taken waits on the ready ring, or with the thread, in order. -/
structure KstmTrace.InOrder (t : KstmTrace) (n : Nat) : Prop where
  taken : t.state.takes ≤ (fills t.log).length
  delivered : ∀ d ∈ deliveries t.log, ∃ data,
    (fills t.log)[d.1.ticket]? = some data ∧ d.2 = data.take d.1.length.toNat
  once : ((deliveries t.log).map (fun d => d.1.ticket) ++
    t.state.copying.map StmkRead.ticket).Perm (List.range t.state.takes)
  waiting : t.state.dir = .usbIn → (fills t.log).drop t.state.takes =
    (t.state.ready.toList n ++ t.state.thread.filled).map fun i => (t.state.slot i).data

namespace Kstm

variable {s s' : Kstm} {act : KstmAct} {events log : List KstmEvent} {n : Nat} {F R : List Nat}

/-- The rings stand for the lists `F` and `R`, and the slots circulate. -/
structure Circulates (s : Kstm) (n : Nat) (F R : List Nat) : Prop where
  nSlots : s.nSlots = n
  room : s.slots.length = n
  free : s.free.Holds n F
  ready : s.ready.Holds n R
  perm : (F ++ R ++ s.held).Perm (List.range n)
  idle : s.running = false → s.thread = .exited

theorem Circulates.conserved (h : s.Circulates n F R) : s.Conserved n where
  perm := by
    rw [h.free.toList, h.ready.toList]
    exact h.perm
  free_le := by
    rw [h.free.count]
    exact h.free.le
  ready_le := by
    rw [h.ready.count]
    exact h.ready.le

theorem Circulates.nodup (h : s.Circulates n F R) : (F ++ R ++ s.held).Nodup :=
  h.perm.nodup_iff.mpr List.nodup_range

theorem Circulates.lt (h : s.Circulates n F R) {slot : Nat} (hmem : slot ∈ F ++ R ++ s.held) :
    slot < s.slots.length := by
  rw [h.room]
  exact List.mem_range.mp (h.perm.mem_iff.mp hmem)

/-- A slot that somebody has leaves room for itself on both rings. -/
theorem Circulates.rooms (h : s.Circulates n F R) {slot : Nat} (hheld : slot ∈ s.held) :
    F.length < n ∧ R.length < n := by
  have hlen := h.perm.length_eq
  have hpos := List.length_pos_of_mem hheld
  simp only [List.length_append, List.length_range] at hlen
  omega

/-- Nothing moves. -/
theorem Circulates.stay (h : s.Circulates n F R) (hn : s'.nSlots = s.nSlots)
    (hroom : s'.slots.length = s.slots.length) (hfree : s'.free = s.free)
    (hready : s'.ready = s.ready) (hheld : s'.held.Perm s.held)
    (hidle : s'.running = false → s'.thread = .exited) : s'.Circulates n F R where
  nSlots := hn.trans h.nSlots
  room := hroom.trans h.room
  free := hfree ▸ h.free
  ready := hready ▸ h.ready
  perm := (hheld.append_left _).trans h.perm
  idle := hidle

theorem Circulates.toFree (h : s.Circulates n F R) {slot : Nat} (hn : s'.nSlots = s.nSlots)
    (hroom : s'.slots.length = s.slots.length) (hfree : s'.free = s.free.push s.nSlots slot)
    (hready : s'.ready = s.ready) (hheld : s.held.Perm (slot :: s'.held))
    (hidle : s'.running = false → s'.thread = .exited) : s'.Circulates n (F ++ [slot]) R where
  nSlots := hn.trans h.nSlots
  room := hroom.trans h.room
  free := by
    rw [hfree, h.nSlots]
    exact h.free.push (h.rooms (hheld.mem_iff.mpr List.mem_cons_self)).1 slot
  ready := hready ▸ h.ready
  perm := by
    refine List.Perm.trans ?_ h.perm
    rw [List.perm_iff_count]
    intro i
    have := hheld.count_eq i
    simp only [List.count_append, List.count_cons, List.count_nil] at this ⊢
    omega
  idle := hidle

theorem Circulates.toReady (h : s.Circulates n F R) {slot : Nat} (hn : s'.nSlots = s.nSlots)
    (hroom : s'.slots.length = s.slots.length) (hfree : s'.free = s.free)
    (hready : s'.ready = s.ready.push s.nSlots slot) (hheld : s.held.Perm (slot :: s'.held))
    (hidle : s'.running = false → s'.thread = .exited) : s'.Circulates n F (R ++ [slot]) where
  nSlots := hn.trans h.nSlots
  room := hroom.trans h.room
  free := hfree ▸ h.free
  ready := by
    rw [hready, h.nSlots]
    exact h.ready.push (h.rooms (hheld.mem_iff.mpr List.mem_cons_self)).2 slot
  perm := by
    refine List.Perm.trans ?_ h.perm
    rw [List.perm_iff_count]
    intro i
    have := hheld.count_eq i
    simp only [List.count_append, List.count_cons, List.count_nil] at this ⊢
    omega
  idle := hidle

theorem Circulates.fromFree (h : s.Circulates n F R) {slot : Nat} {free : RingBuffer Nat}
    (hpos : 0 < s.free.count) (hpop : s.free.pop s.nSlots = some (slot, free))
    (hn : s'.nSlots = s.nSlots) (hroom : s'.slots.length = s.slots.length) (hfree : s'.free = free)
    (hready : s'.ready = s.ready) (hheld : s'.held.Perm (slot :: s.held))
    (hidle : s'.running = false → s'.thread = .exited) :
    ∃ F', F = slot :: F' ∧ s'.Circulates n F' R := by
  cases F with
  | nil =>
    have := h.free.count
    simp only [List.length_nil] at this
    omega
  | cons a F' =>
    obtain ⟨free', hpop', hholds⟩ := h.free.pop
    rw [h.nSlots, hpop'] at hpop
    cases hpop
    refine ⟨F', rfl, hn.trans h.nSlots, hroom.trans h.room, hfree ▸ hholds, hready ▸ h.ready, ?_,
      hidle⟩
    refine List.Perm.trans ?_ h.perm
    rw [List.perm_iff_count]
    intro i
    have := hheld.count_eq i
    simp only [List.count_append, List.count_cons] at this ⊢
    omega

theorem Circulates.fromReady (h : s.Circulates n F R) {slot : Nat} {ready : RingBuffer Nat}
    (hpos : 0 < s.ready.count) (hpop : s.ready.pop s.nSlots = some (slot, ready))
    (hn : s'.nSlots = s.nSlots) (hroom : s'.slots.length = s.slots.length)
    (hfree : s'.free = s.free) (hready : s'.ready = ready) (hheld : s'.held.Perm (slot :: s.held))
    (hidle : s'.running = false → s'.thread = .exited) :
    ∃ R', R = slot :: R' ∧ s'.Circulates n F R' := by
  cases R with
  | nil =>
    have := h.ready.count
    simp only [List.length_nil] at this
    omega
  | cons a R' =>
    obtain ⟨ready', hpop', hholds⟩ := h.ready.pop
    rw [h.nSlots, hpop'] at hpop
    cases hpop
    refine ⟨R', rfl, hn.trans h.nSlots, hroom.trans h.room, hfree ▸ h.free, hready ▸ hholds, ?_,
      hidle⟩
    refine List.Perm.trans ?_ h.perm
    rw [List.perm_iff_count]
    intro i
    have := hheld.count_eq i
    simp only [List.count_append, List.count_cons] at this ⊢
    omega

/-- The order in which an IN stream delivers, with the ready ring as a list. -/
structure Delivers (s : Kstm) (log : List KstmEvent) (R : List Nat) : Prop where
  taken : s.takes ≤ (fills log).length
  delivered : ∀ d ∈ deliveries log, ∃ data,
    (fills log)[d.1.ticket]? = some data ∧ d.2 = data.take d.1.length.toNat
  once : ((deliveries log).map (fun d => d.1.ticket) ++
    s.copying.map StmkRead.ticket).Perm (List.range s.takes)
  waiting : s.dir = .usbIn →
    (fills log).drop s.takes = (R ++ s.thread.filled).map fun i => (s.slot i).data
  copying : ∀ read ∈ s.copying, (fills log)[read.ticket]? = some (s.slot read.slot).data

theorem setSlot_slot {i : Nat} (hi : i < s.slots.length) (xc : XferContext) (j : Nat) :
    (s.setSlot i xc).slot j = if i = j then xc else s.slot j := by
  unfold setSlot slot
  by_cases hij : i = j
  · subst hij
    rw [if_pos rfl, List.getD_eq_getElem?_getD, List.getElem?_set_self hi]
    rfl
  · rw [if_neg hij, List.getD_eq_getElem?_getD, List.getElem?_set_ne hij,
      List.getD_eq_getElem?_getD]

theorem fills_append (log events : List KstmEvent) :
    fills (log ++ events) = fills log ++ fills events := List.filterMap_append

theorem deliveries_append (log events : List KstmEvent) :
    deliveries (log ++ events) = deliveries log ++ deliveries events := List.filterMap_append

/-- Nothing is filled, taken or copied, and what waits stays as it is. -/
theorem Delivers.stay (h : s.Delivers log R) {R' : List Nat} (hfills : fills events = [])
    (hdeliveries : deliveries events = []) (htakes : s'.takes = s.takes)
    (hcopying : s'.copying = s.copying) (hdir : s'.dir = s.dir)
    (hwaiting : s.dir = .usbIn → (R' ++ s'.thread.filled).map (fun i => (s'.slot i).data) =
      (R ++ s.thread.filled).map fun i => (s.slot i).data)
    (hslots : ∀ read ∈ s.copying, s'.slot read.slot = s.slot read.slot) :
    s'.Delivers (log ++ events) R' := by
  have hfills' : fills (log ++ events) = fills log := by
    rw [fills_append, hfills, List.append_nil]
  have hdeliveries' : deliveries (log ++ events) = deliveries log := by
    rw [deliveries_append, hdeliveries, List.append_nil]
  refine ⟨?_, ?_, ?_, fun hin => ?_, fun read hread => ?_⟩
  · rw [htakes, hfills']
    exact h.taken
  · rw [hdeliveries', hfills']
    exact h.delivered
  · rw [hcopying, htakes, hdeliveries']
    exact h.once
  · rw [hwaiting (hdir ▸ hin), htakes, hfills']
    exact h.waiting (hdir ▸ hin)
  · rw [hcopying] at hread
    rw [hslots read hread, hfills']
    exact h.copying read hread

/-- A step that touches no slot, no ring and nothing that waits. -/
theorem Delivers.same (h : s.Delivers log R) (htakes : s'.takes = s.takes)
    (hcopying : s'.copying = s.copying) (hdir : s'.dir = s.dir) (hslots : s'.slots = s.slots)
    (hfilled : s'.thread.filled = s.thread.filled) : s'.Delivers (log ++ []) R := by
  have hslot : s'.slot = s.slot := by
    unfold slot
    rw [hslots]
  refine h.stay rfl rfl htakes hcopying hdir (fun _ => ?_) fun read _ => ?_
  · rw [hfilled, hslot]
  · rw [hslot]

/-- The slot that the thread has is on neither ring, and no caller has it. -/
theorem Circulates.alone (h : s.Circulates n F R) {slot : Nat} (hthread : s.thread.slots = [slot]) :
    slot ∉ R ∧ ∀ read ∈ s.copying, read.slot ≠ slot := by
  have hnodup := h.nodup
  rw [List.nodup_append] at hnodup
  obtain ⟨-, hheld, hdisj⟩ := hnodup
  have hmem : slot ∈ s.held := by
    rw [held, hthread]
    simp
  refine ⟨fun hR => hdisj slot (List.mem_append_right _ hR) slot hmem rfl, fun read hread heq => ?_⟩
  rw [held, hthread, List.append_assoc, List.singleton_append, List.nodup_cons] at hheld
  exact hheld.1 (List.mem_append_left _ (heq ▸ List.mem_map_of_mem hread))

/-- The thread writes to the slot that it has, and nothing else sees it. -/
theorem Circulates.write (h : s.Circulates n F R) {slot : Nat} (hthread : s.thread.slots = [slot])
    (xc : XferContext) :
    (∀ i ∈ R, (s.setSlot slot xc).slot i = s.slot i) ∧
      (∀ read ∈ s.copying, (s.setSlot slot xc).slot read.slot = s.slot read.slot) ∧
      (s.setSlot slot xc).slot slot = xc := by
  obtain ⟨hR, hcopying⟩ := h.alone hthread
  have hlt : slot < s.slots.length := h.lt (by simp [held, hthread])
  have hset := setSlot_slot hlt xc
  refine ⟨fun i hi => ?_, fun read hread => ?_, by rw [hset, if_pos rfl]⟩
  · rw [hset, if_neg]
    rintro rfl
    exact hR hi
  · rw [hset, if_neg (hcopying read hread).symm]

theorem Delivers.write (h : s.Delivers log R) (hc : s.Circulates n F R) {slot : Nat}
    (hthread : s.thread = .submitting slot) (xc : XferContext) {pc : KstmThread}
    (hpc : s.dir = .usbIn → pc.filled = []) (hfills : fills events = [])
    (hdeliveries : deliveries events = []) :
    { s.setSlot slot xc with thread := pc }.Delivers (log ++ events) R := by
  have hslots : s.thread.slots = [slot] := by rw [hthread]; rfl
  obtain ⟨hready, hcopying, -⟩ := hc.write hslots xc
  refine h.stay hfills hdeliveries rfl rfl rfl (fun hin => ?_) hcopying
  have hold : s.thread.filled = [] := by rw [hthread]; rfl
  rw [hold, hpc hin, List.append_nil]
  exact List.map_congr_left fun i hi => congrArg XferContext.data (hready i hi)

theorem Delivers.filled (h : s.Delivers log R) (hc : s.Circulates n F R) {slot : Nat}
    (hthread : s.thread = .submitting slot) (xc : XferContext) :
    { s.setSlot slot xc with thread := .completed slot }.Delivers
      (log ++ [KstmEvent.filled slot xc.data]) R := by
  have hslots : s.thread.slots = [slot] := by rw [hthread]; rfl
  obtain ⟨hready, hcopying, hslot⟩ := hc.write hslots xc
  have hfills : fills (log ++ [KstmEvent.filled slot xc.data]) = fills log ++ [xc.data] :=
    fills_append _ _
  have hdeliveries : deliveries (log ++ [KstmEvent.filled slot xc.data]) = deliveries log := by
    rw [deliveries_append]
    exact List.append_nil _
  have hold : ∀ {k : Nat} {x : List UInt8}, (fills log)[k]? = some x →
      (fills log ++ [xc.data])[k]? = some x := by
    intro k x hk
    rw [List.getElem?_append_left (List.getElem?_eq_some_iff.mp hk).1, hk]
  refine ⟨?_, fun d hd => ?_, ?_, fun hin => ?_, fun read hread => ?_⟩
  · rw [hfills, List.length_append]
    exact Nat.le_add_right_of_le h.taken
  · rw [hdeliveries] at hd
    obtain ⟨x, hx, hxd⟩ := h.delivered d hd
    exact ⟨x, hfills ▸ hold hx, hxd⟩
  · rw [hdeliveries]
    exact h.once
  · have hwaiting := h.waiting hin
    have hnone : s.thread.filled = [] := by rw [hthread]; rfl
    rw [hnone, List.append_nil] at hwaiting
    have hsame : R.map (fun i => ((s.setSlot slot xc).slot i).data) =
        R.map fun i => (s.slot i).data :=
      List.map_congr_left fun i hi => congrArg XferContext.data (hready i hi)
    rw [hfills]
    calc (fills log ++ [xc.data]).drop s.takes
        = (fills log).drop s.takes ++ [xc.data] := List.drop_append_of_le_length h.taken
      _ = R.map (fun i => ((s.setSlot slot xc).slot i).data) ++
            [((s.setSlot slot xc).slot slot).data] := by rw [hsame, ← hwaiting, hslot]
      _ = (R ++ [slot]).map fun i => ((s.setSlot slot xc).slot i).data := by
          rw [List.map_append, List.map_singleton]
  · rw [hfills]
    refine hold ((h.copying read hread).trans ?_)
    exact congrArg (fun xc : XferContext => some xc.data) (hcopying read hread).symm

theorem Delivers.read {i : Nat} (h : s.Delivers log (i :: R)) (ready : RingBuffer Nat)
    (hdir : s.dir = .usbIn) (offset length : Int) :
    { s with
      ready
      takes := s.takes + 1
      copying := ⟨s.takes, i, offset, length⟩ :: s.copying }.Delivers (log ++ []) R := by
  have hdrop : (fills log).drop s.takes =
      (s.slot i).data :: (R ++ s.thread.filled).map fun i => (s.slot i).data := h.waiting hdir
  have hget : (fills log)[s.takes]? = some (s.slot i).data := by
    rw [← List.head?_drop, hdrop, List.head?_cons]
  rw [List.append_nil]
  refine ⟨?_, h.delivered, ?_, fun _ => ?_, ?_⟩
  · exact (List.getElem?_eq_some_iff.mp hget).1
  · dsimp only
    rw [List.map_cons, List.range_succ]
    exact List.perm_middle.trans ((h.once.cons s.takes).trans (List.perm_append_singleton _ _).symm)
  · dsimp only
    rw [← List.drop_drop, hdrop]
    rfl
  · exact List.forall_mem_cons.mpr ⟨hget, h.copying⟩

theorem Delivers.readCopy (h : s.Delivers log R) {read : StmkRead} (hread : read ∈ s.copying)
    (hgot : 0 ≤ min (s.slot read.slot).transferLength read.length) :
    { s with copying := s.copying.erase read, copied := read.slot :: s.copied }.Delivers
      (log ++ [KstmEvent.delivered read ((s.slot read.slot).buffer.take
        (min (s.slot read.slot).transferLength read.length).toNat)]) R := by
  have hperm := List.perm_cons_erase hread
  have hfills : ∀ data, fills (log ++ [KstmEvent.delivered read data]) = fills log := by
    intro data
    rw [fills_append]
    exact List.append_nil _
  have hdeliveries : ∀ data, deliveries (log ++ [KstmEvent.delivered read data]) =
      deliveries log ++ [(read, data)] := fun _ => deliveries_append _ _
  refine ⟨?_, fun d hd => ?_, ?_, fun hin => ?_, fun other hother => ?_⟩
  · rw [hfills]
    exact h.taken
  · rw [hfills]
    rw [hdeliveries] at hd
    rcases List.mem_append.mp hd with hd | hd
    · exact h.delivered d hd
    · obtain rfl := List.mem_singleton.mp hd
      refine ⟨_, h.copying read hread, ?_⟩
      dsimp only
      rw [XferContext.data, List.take_take]
      congr 1
      omega
  · rw [hdeliveries, List.map_append, List.append_assoc]
    refine List.Perm.trans (List.Perm.append_left _ ?_) h.once
    exact (hperm.map StmkRead.ticket).symm
  · rw [hfills]
    exact h.waiting hin
  · rw [hfills]
    exact h.copying other (List.mem_of_mem_erase hother)

theorem fill_data (xc : XferContext) {data : List UInt8} {act : Int}
    (hact : act.toNat = data.length) : { xc.fill data with transferLength := act }.data = data := by
  rw [XferContext.data, XferContext.fill, hact]
  exact List.take_left

/-- A stream whose thread has not returned is not idle. -/
theorem Circulates.busy (h : s.Circulates n F R) {pc : KstmThread} (hthread : s.thread = pc)
    (hpc : pc ≠ .exited) {p : Prop} (hidle : s.running = false) : p :=
  absurd (hthread ▸ h.idle hidle) hpc

theorem setSlot_length (slot : Nat) (xc : XferContext) :
    (s.setSlot slot xc).slots.length = s.slots.length := List.length_set

/-- `StmK_Start` moves no slot. -/
theorem Circulates.start (h : s.Circulates n F R) (hd : s.Delivers log R) {created : Bool}
    (hs : KstmStep s (.start created) s' events) :
    s'.Circulates n F R ∧ s'.Delivers (log ++ events) R := by
  cases hs with
  | startRunning => exact ⟨h, hd.same rfl rfl rfl rfl rfl⟩
  | start _ idle =>
    have hexited := h.idle idle
    have hslots : (if created then KstmThread.waiting else s.thread).slots = s.thread.slots := by
      rw [hexited]
      cases created <;> rfl
    have hfilled : (if created then KstmThread.waiting else s.thread).filled = s.thread.filled := by
      rw [hexited]
      cases created <;> rfl
    refine ⟨h.stay rfl rfl rfl rfl ?_ ?_, hd.same rfl rfl rfl rfl hfilled⟩
    · rw [held, held]
      dsimp only
      rw [hslots]
    · rintro rfl
      exact hexited

/-- The thread takes a slot, from the free ring or from the ready ring, or leaves its loop. -/
theorem Circulates.threadTake (h : s.Circulates n F R) (hd : s.Delivers log R)
    (hs : KstmStep s .threadTake s' events) :
    ∃ F' R', s'.Circulates n F' R' ∧ s'.Delivers (log ++ events) R' := by
  cases hs with
  | threadExit waiting stop =>
    refine ⟨F, R, h.stay rfl rfl rfl rfl ?_ fun _ => rfl, hd.same rfl rfl rfl rfl ?_⟩
    · rw [held, held, waiting]
      exact .refl _
    · rw [waiting]
      rfl
  | @threadFree slot free waiting dir nonempty pop =>
    have hmove : ∃ F', F = slot :: F' ∧
        Circulates { s with free, thread := .submitting slot } n F' R := by
      refine h.fromFree nonempty pop rfl rfl rfl rfl ?_ (h.busy waiting (by simp))
      rw [held, held, waiting]
      exact .refl _
    obtain ⟨F', rfl, h'⟩ := hmove
    refine ⟨F', R, h', hd.same rfl rfl rfl rfl ?_⟩
    rw [waiting]
    rfl
  | @threadReady slot ready waiting dir nonempty pop =>
    have hmove : ∃ R', R = slot :: R' ∧
        Circulates { s with ready, thread := .submitting slot } n F R' := by
      refine h.fromReady nonempty pop rfl rfl rfl rfl ?_ (h.busy waiting (by simp))
      rw [held, held, waiting]
      exact .refl _
    obtain ⟨R', rfl, h'⟩ := hmove
    refine ⟨F, R', h', hd.stay rfl rfl rfl rfl rfl (fun hin => ?_) fun _ _ => rfl⟩
    rw [dir] at hin
    cases hin

/-- The transfer of the thread writes to the slot that it has. -/
theorem Circulates.threadSubmit (h : s.Circulates n F R) (hd : s.Delivers log R) {rc : Int}
    {data : List UInt8} {actual : Int} (hs : KstmStep s (.threadSubmit rc data actual) s' events) :
    s'.Circulates n F R ∧ s'.Delivers (log ++ events) R := by
  cases hs with
  | inFailed submitting =>
    refine ⟨h.stay rfl (setSlot_length _ _) rfl rfl ?_ (h.busy submitting (by simp)),
      hd.write h submitting _ (fun _ => rfl) rfl rfl⟩
    rw [held, held, submitting]
    exact .refl _
  | @inFilled slot _ _ _ submitting dir act_eq =>
    refine ⟨h.stay rfl (setSlot_length _ _) rfl rfl ?_ (h.busy submitting (by simp)), ?_⟩
    · rw [held, held, submitting]
      exact .refl _
    · have hfilled := hd.filled h submitting
        { (s.slot slot).fill data with transferLength := actual }
      rwa [fill_data _ act_eq] at hfilled
  | outFailed submitting =>
    refine ⟨h.stay rfl rfl rfl rfl ?_ (h.busy submitting (by simp)),
      hd.stay rfl rfl rfl rfl rfl ?_ fun _ _ => rfl⟩
    · rw [held, held, submitting]
      exact .refl _
    · intro _
      rw [submitting]
      rfl
  | outSent submitting dir =>
    refine ⟨h.stay rfl (setSlot_length _ _) rfl rfl ?_ (h.busy submitting (by simp)),
      hd.write h submitting _ ?_ rfl rfl⟩
    · rw [held, held, submitting]
      exact .refl _
    · intro hin
      rw [dir] at hin
      cases hin

/-- The thread gives its slot to a ring. -/
theorem Circulates.threadPush (h : s.Circulates n F R) (hd : s.Delivers log R)
    (hs : KstmStep s .threadPush s' events) :
    ∃ F' R', s'.Circulates n F' R' ∧ s'.Delivers (log ++ events) R' := by
  cases hs with
  | pushFailed failed =>
    refine ⟨F ++ [_], R, h.toFree rfl rfl rfl rfl ?_ (h.busy failed (by simp)),
      hd.same rfl rfl rfl rfl ?_⟩
    · rw [held, held, failed]
      exact .refl _
    · rw [failed]
      rfl
  | pushFilled completed dir =>
    refine ⟨F, R ++ [_], h.toReady rfl rfl rfl rfl ?_ (h.busy completed (by simp)),
      hd.stay rfl rfl rfl rfl rfl ?_ fun _ _ => rfl⟩
    · rw [held, held, completed]
      exact .refl _
    · intro _
      rw [completed]
      exact congrArg (List.map _) (List.append_nil _)
  | pushSent completed dir =>
    refine ⟨F ++ [_], R, h.toFree rfl rfl rfl rfl ?_ (h.busy completed (by simp)),
      hd.stay rfl rfl rfl rfl rfl ?_ fun _ _ => rfl⟩
    · rw [held, held, completed]
      exact .refl _
    · intro hin
      rw [dir] at hin
      cases hin

/-- A call of `StmK_Read` takes the first slot of the ready ring. -/
theorem Circulates.read (h : s.Circulates n F R) (hd : s.Delivers log R) {offset length : Int}
    (hs : KstmStep s (.read offset length) s' events) :
    ∃ R', s'.Circulates n F R' ∧ s'.Delivers (log ++ events) R' := by
  cases hs with
  | readNone => exact ⟨R, h, hd.same rfl rfl rfl rfl rfl⟩
  | @read slot ready _ _ dir nonempty pop =>
    have hmove : ∃ R', R = slot :: R' ∧ Circulates { s with
        ready
        takes := s.takes + 1
        copying := ⟨s.takes, slot, offset, length⟩ :: s.copying } n F R' := by
      refine h.fromReady nonempty pop rfl rfl rfl rfl ?_ h.idle
      rw [held, held, List.append_assoc, List.append_assoc]
      exact List.perm_middle
    obtain ⟨R', rfl, h'⟩ := hmove
    exact ⟨R', h', hd.read _ dir offset length⟩

/-- A call of `StmK_Read` copies, and stays with its slot. -/
theorem Circulates.readCopy (h : s.Circulates n F R) (hd : s.Delivers log R) {read : StmkRead}
    (hs : KstmStep s (.readCopy read) s' events) :
    s'.Circulates n F R ∧ s'.Delivers (log ++ events) R := by
  cases hs with
  | readCopy copying got =>
    refine ⟨h.stay rfl rfl rfl rfl ?_ h.idle, hd.readCopy copying got⟩
    have hperm := (List.perm_cons_erase copying).map StmkRead.slot
    rw [held, held, List.append_assoc, List.append_assoc]
    refine List.Perm.append_left _ (List.perm_middle.trans ?_)
    exact (hperm.append_right s.copied).symm

/-- `StmK_Write` takes a free slot, fills it and puts it on the ready ring. -/
theorem Circulates.stmkWrite (h : s.Circulates n F R) (hd : s.Delivers log R) {data : List UInt8}
    (hs : KstmStep s (.write data) s' events) :
    ∃ F' R', s'.Circulates n F' R' ∧ s'.Delivers (log ++ events) R' := by
  cases hs with
  | writeNone => exact ⟨F, R, h, hd.same rfl rfl rfl rfl rfl⟩
  | @write _ slot free dir nonempty pop xc =>
    -- between the two rings the slot is the caller's
    have hmove : ∃ F', F = slot :: F' ∧
        Circulates { s with free, copied := slot :: s.copied } n F' R :=
      h.fromFree nonempty pop rfl rfl rfl rfl List.perm_middle h.idle
    obtain ⟨F', rfl, h'⟩ := hmove
    refine ⟨F', R ++ [slot],
      h'.toReady rfl (setSlot_length _ _) rfl rfl List.perm_middle h.idle, ?_⟩
    refine hd.stay rfl rfl rfl rfl rfl (fun hin => ?_) fun read hread => ?_
    · rw [dir] at hin
      cases hin
    · have hlt : slot < s.slots.length := h.lt (by simp)
      refine (setSlot_slot (s := { s with free }) hlt xc _).trans (if_neg ?_)
      rintro rfl
      have hnodup := h.nodup
      rw [List.cons_append, List.cons_append, List.nodup_cons] at hnodup
      refine hnodup.1 (List.mem_append_right _ ?_)
      rw [held, List.append_assoc]
      exact List.mem_append_right _ (List.mem_append_left _ (List.mem_map_of_mem hread))

/-- What a step does to the rings and to the order, the steps of the thread and those of the
callers put together. -/
theorem Circulates.step (h : s.Circulates n F R) (hd : s.Delivers log R)
    (hs : KstmStep s act s' events) :
    ∃ F' R', s'.Circulates n F' R' ∧ s'.Delivers (log ++ events) R' := by
  cases act with
  | start created => exact ⟨F, R, h.start hd hs⟩
  | stop =>
    cases hs
    refine ⟨F, R, ?_⟩
    split
    · exact ⟨h.stay rfl rfl rfl rfl (.refl _) h.idle, hd.same rfl rfl rfl rfl rfl⟩
    · exact ⟨h, hd.same rfl rfl rfl rfl rfl⟩
  | join =>
    cases hs with
    | join exited =>
      refine ⟨F, R, ?_, hd.same rfl rfl rfl rfl rfl⟩
      exact h.stay rfl rfl rfl rfl (.refl _) fun _ => exited
  | threadTake => exact h.threadTake hd hs
  | threadSubmit rc data actual => exact ⟨F, R, h.threadSubmit hd hs⟩
  | threadPush => exact h.threadPush hd hs
  | read offset length => exact ⟨F, h.read hd hs⟩
  | readCopy read => exact ⟨F, R, h.readCopy hd hs⟩
  | readPush slot =>
    cases hs with
    | readPush copied =>
      refine ⟨F ++ [_], R, h.toFree rfl rfl rfl rfl ?_ h.idle, hd.same rfl rfl rfl rfl rfl⟩
      rw [held, held]
      exact ((List.perm_cons_erase copied).append_left _).trans List.perm_middle
  | write data => exact h.stmkWrite hd hs

theorem Circulates.init {pipeId : UInt8} {maxTransferSize maxPendingTransfers : Int}
    {fresh : Nat → List UInt8}
    (h : stmkInit pipeId maxTransferSize maxPendingTransfers fresh = some s) :
    s.Circulates maxPendingTransfers.toNat (List.range maxPendingTransfers.toNat) [] ∧
      s.Delivers [] [] := by
  unfold stmkInit at h
  split at h
  · cases h
  · rename_i hargs
    cases h
    obtain ⟨n, hn⟩ : ∃ n, maxPendingTransfers.toNat = n := ⟨_, rfl⟩
    have hpos : 0 < n := by omega
    rw [hn]
    have hfree := RingBuffer.Holds.full (List.range n) (by simpa using hpos)
    have hready : RingBuffer.Holds ⟨List.replicate n 0, 0, 0⟩ (List.replicate n 0).length [] :=
      RingBuffer.Holds.empty (by simpa using hpos)
    rw [List.length_range] at hfree
    rw [List.length_replicate] at hready
    constructor
    · exact ⟨rfl, by simp, hfree, hready, by simp [held, KstmThread.slots], fun _ => rfl⟩
    · exact ⟨Nat.zero_le _, by simp [deliveries], by simp [deliveries], fun _ => rfl, by simp⟩

end Kstm

/-- In every run of a stream its slots stay where they can be found again, and an IN stream delivers
what it has received in order. -/
theorem KstmTrace.stream_conserved {pipeId : UInt8} {maxTransferSize maxPendingTransfers : Int}
    {fresh : Nat → List UInt8} {s : Kstm}
    (h : stmkInit pipeId maxTransferSize maxPendingTransfers fresh = some s) (acts : List KstmAct) :
    Throughout step (fun t => t.state.Conserved maxPendingTransfers.toNat ∧
      t.InOrder maxPendingTransfers.toNat) ⟨s, []⟩ acts := by
  refine throughout_of_guarded (C := fun _ _ => True)
    (I := fun t => ∃ F R, t.state.Circulates maxPendingTransfers.toNat F R ∧
      t.state.Delivers t.log R) ?_ ?_ ⟨_, _, Kstm.Circulates.init h⟩
    (.of_forall (fun _ _ => trivial) _)
  · rintro t ⟨F, R, hc, hd⟩
    refine ⟨hc.conserved, hd.taken, hd.delivered, hd.once, ?_⟩
    rw [hc.ready.toList]
    exact hd.waiting
  · rintro t act t' ⟨F, R, hc, hd⟩ - hst
    obtain ⟨events, hs, hlog⟩ := step_some hst
    rw [hlog]
    exact hc.step hd hs

/-- A stream with two slots: a transfer fills one, the next transfer fails, a caller reads two of
three bytes, and the stream is stopped. -/
def readRun : List KstmAct :=
  [.start true, .threadTake, .threadSubmit 0 [1, 2, 3] 3, .threadPush, .threadTake, .read 0 2,
    .threadSubmit (-1) [] 0, .readCopy ⟨0, 0, 0, 2⟩, .stop, .threadPush, .readPush 0, .threadTake,
    .join]

theorem KstmTrace.stream_conserved_readRun :
    ∃ s, stmkInit 0x81 4 2 (fun _ => [0, 0, 0, 0]) = some s ∧
      (exec step ⟨s, []⟩ readRun).map (fun t => (t.state.free.toList 2, deliveries t.log)) =
        some ([1, 0], [(⟨0, 0, 0, 2⟩, [1, 2])]) ∧
      Throughout step (fun t => t.state.Conserved 2 ∧ t.InOrder 2) ⟨s, []⟩ readRun :=
  ⟨_, rfl, by decide,
    stream_conserved (show stmkInit 0x81 4 2 (fun _ => [0, 0, 0, 0]) = some _ from rfl) _⟩

end Usbip.Libusbk
