import Usbip.Lib.Chain
import Usbip.Libusb.Wake

/-! Where the transfers are.  Each is in one place at a time: with the application, in a call of
`libusb_submit_transfer`, on the submit queue, with the worker, on the done queue or on the list
that a thread in `handle_events` has taken; the links in the heap follow the places. -/

namespace Usbip.Libusb

open Lib

inductive Place
  | app
  | submitting
  | subq
  | worker
  | doneq
  | taken (h : Nat)
  deriving DecidableEq, Repr

/-- The callbacks that a transfer has yet to get. -/
def Place.due : Place → Nat
  | .app | .submitting => 0
  | .subq | .worker | .doneq | .taken _ => 1

def placed (loc : XferId → Place) (p : Place) : Set XferId := {it | loc it = p}

/-- The links of the transfers. -/
def links (heap : XferId → Option ITransfer) (it : XferId) : Option (Cell XferId Unit) :=
  (heap it).map fun x => ⟨x.next, ()⟩

/-- The transfer that the worker has. -/
def Worker.its : Worker → List XferId
  | .taken it _ | .ran it => [it]
  | .idle | .waking => []

/-- What is left of the list that a handler has taken. -/
def Handler.list : Handler → Option XferId
  | .walking list | .calling _ list | .called _ list => list
  | .polling | .draining | .drained | .returned => none

/-- The transfer that a handler has called back and has yet to look at once more. -/
def Handler.busy : Handler → Option XferId
  | .calling it _ | .called it _ => some it
  | .polling | .draining | .drained | .walking _ | .returned => none

namespace Async

/-- The places of the transfers are where the context has them, each place at most once. -/
structure Arranged (s : Async) (loc : XferId → Place) : Prop where
  once : s.submitting.Nodup
  submitting : ∀ it, it ∈ s.submitting ↔ loc it = .submitting
  subq : Lines (links s.heap) s.subq.head s.subq.tail (placed loc .subq)
  worker : ∀ it, it ∈ s.worker.its ↔ loc it = .worker
  doneq : Lines (links s.heap) s.doneq.head s.doneq.tail (placed loc .doneq)
  taken : ∀ (h : Nat) (pc : Handler), s.handlers[h]? = some pc →
    Visits (links s.heap) pc.list (placed loc (.taken h))
  handler : ∀ it h, loc it = .taken h → h < s.handlers.length

end Async

/-! ### Places -/

section Places

variable {loc : XferId → Place} {it : XferId} {p q : Place}

theorem placed_update_of_ne (hp : p ≠ q) (hq : loc it ≠ q) :
    placed (Function.update loc it p) q = placed loc q := by
  ext j
  by_cases hj : j = it
  · subst hj
    simp [placed, hp, hq]
  · simp [placed, hj]

theorem placed_update_self : placed (Function.update loc it p) p = insert it (placed loc p) := by
  ext j
  by_cases hj : j = it
  · subst hj
    simp [placed]
  · simp [placed, hj]

theorem placed_update_old (hp : p ≠ q) :
    placed (Function.update loc it p) q = placed loc q \ {it} := by
  ext j
  by_cases hj : j = it
  · subst hj
    simp [placed, hp]
  · simp [placed, hj]

theorem update_eq_iff (hp : p ≠ q) (hq : loc it ≠ q) (j : XferId) :
    Function.update loc it p j = q ↔ loc j = q :=
  Set.ext_iff.mp (placed_update_of_ne hp hq) j

end Places

/-! ### The links -/

section Links

variable {s : Async} {q : Queue} {it last j : XferId}

theorem links_update_of_ne {heap : XferId → Option ITransfer} {x : Option ITransfer} (hj : j ≠ it) :
    links (Function.update heap it x) j = links heap j := by
  rw [links, Function.update_of_ne hj, links]

/-- A write to other fields than `next`. -/
theorem links_modify {f : ITransfer → ITransfer} (hf : ∀ x, (f x).next = x.next) :
    links (s.modify it f).heap = links s.heap := by
  funext j
  by_cases hj : j = it
  · subst hj
    simp only [links, Async.modify, Function.update_self]
    cases s.heap j with
    | none => rfl
    | some x => simp [hf]
  · exact links_update_of_ne hj

namespace Async

theorem link_snd : (s.link q it).2 = ⟨if q.tail = none then some it else q.head, some it⟩ := by
  unfold link
  split
  · rename_i last hlast
    rw [hlast]
    rfl
  · rename_i hnone
    rw [hnone]
    rfl

theorem modify_heap_self {f : ITransfer → ITransfer} :
    (s.modify it f).heap it = (s.heap it).map f := Function.update_self ..

theorem modify_heap_of_ne {f : ITransfer → ITransfer} (hj : j ≠ it) :
    (s.modify it f).heap j = s.heap j := Function.update_of_ne hj ..

theorem link_of_tail (hlast : q.tail = some last) :
    (s.link q it).1 = (s.modify it fun x => { x with next := none }).modify last
      fun x => { x with next := some it } := by
  rw [link, hlast]

theorem link_of_empty (hnone : q.tail = none) :
    (s.link q it).1 = s.modify it fun x => { x with next := none } := by
  rw [link, hnone]

theorem link_heap_of_ne (hj : j ≠ it) (hlast : q.tail ≠ some j) :
    (s.link q it).1.heap j = s.heap j := by
  cases htail : q.tail with
  | none => rw [link_of_empty htail, modify_heap_of_ne hj]
  | some last =>
    have hne : j ≠ last := fun heq => hlast (heq ▸ htail)
    rw [link_of_tail htail, modify_heap_of_ne hne, modify_heap_of_ne hj]

theorem link_heap_self (hlast : q.tail ≠ some it) :
    (s.link q it).1.heap it = (s.heap it).map fun x => { x with next := none } := by
  cases htail : q.tail with
  | none => rw [link_of_empty htail, modify_heap_self]
  | some last =>
    have hne : it ≠ last := fun heq => hlast (heq ▸ htail)
    rw [link_of_tail htail, modify_heap_of_ne hne, modify_heap_self]

theorem link_heap_last (hlast : q.tail = some last) (hne : last ≠ it) :
    (s.link q it).1.heap last = (s.heap last).map fun x => { x with next := some it } := by
  rw [link_of_tail hlast, modify_heap_self, modify_heap_of_ne hne]

theorem link_heap_congr (q : Queue) (it : XferId) {s' : Async} (h : s'.heap = s.heap) :
    (s'.link q it).1.heap = (s.link q it).1.heap := by
  cases htail : q.tail with
  | none => rw [link_of_empty htail, link_of_empty htail, modify, modify, h]
  | some last => simp only [link_of_tail htail, modify, h]

/-- Only `next` fields are written. -/
theorem link_view {x : ITransfer} (hx : (s.link q it).1.heap j = some x) :
    ∃ y n, s.heap j = some y ∧ x = { y with next := n } := by
  have hmodify : ∀ (t : Async) (k : XferId) (n : Option XferId) (x : ITransfer),
      (t.modify k fun x => { x with next := n }).heap j = some x →
      ∃ y n', t.heap j = some y ∧ x = { y with next := n' } := by
    intro t k n x hx
    by_cases hj : j = k
    · subst hj
      rw [modify_heap_self] at hx
      obtain ⟨y, hy, rfl⟩ := Option.map_eq_some_iff.mp hx
      exact ⟨y, n, hy, rfl⟩
    · rw [modify_heap_of_ne hj] at hx
      exact ⟨x, x.next, hx, rfl⟩
  cases htail : q.tail with
  | none =>
    rw [link_of_empty htail] at hx
    exact hmodify _ _ _ _ hx
  | some last =>
    rw [link_of_tail htail] at hx
    obtain ⟨y, n, hy, rfl⟩ := hmodify _ _ _ _ hx
    obtain ⟨z, n', hz, rfl⟩ := hmodify _ _ _ _ hy
    exact ⟨z, n, hz, rfl⟩

theorem modify_eq_none {f : ITransfer → ITransfer} :
    (s.modify it f).heap j = none ↔ s.heap j = none := by
  by_cases hj : j = it
  · subst hj
    rw [modify_heap_self, Option.map_eq_none_iff]
  · rw [modify_heap_of_ne hj]

theorem link_eq_none : (s.link q it).1.heap j = none ↔ s.heap j = none := by
  cases htail : q.tail with
  | none => rw [link_of_empty htail, modify_eq_none]
  | some last => rw [link_of_tail htail, modify_eq_none, modify_eq_none]

theorem link_live (q : Queue) (it : XferId) {x : ITransfer} (hx : s.heap j = some x) :
    ∃ n, (s.link q it).1.heap j = some { x with next := n } := by
  cases hj : (s.link q it).1.heap j with
  | none => rw [link_eq_none.mp hj] at hx; cases hx
  | some y =>
    obtain ⟨z, n, hz, rfl⟩ := link_view hj
    cases hx.symm.trans hz
    exact ⟨n, rfl⟩

/-- The transfer is behind the last one of the queue. -/
theorem link_lines {S : Set XferId} {x : ITransfer} (h : Lines (links s.heap) q.head q.tail S)
    (hit : it ∉ S) (live : s.heap it = some x) :
    Lines (links (s.link q it).1.heap) (s.link q it).2.head (s.link q it).2.tail (insert it S) := by
  have htail : ∀ last, q.tail = some last → last ∈ S := by
    intro last hlast
    rw [hlast] at h
    exact h.tail_mem
  have hne : ∀ j ∈ S, j ≠ it := fun j hj heq => hit (heq ▸ hj)
  rw [link_snd]
  refine h.append (v := ()) ?_ ?_ ?_
  · rw [links, link_heap_self fun heq => hit (htail it heq), live]
    rfl
  · intro last hlast c hc
    rw [links, link_heap_last hlast (hne last (htail last hlast))]
    obtain ⟨y, hy, rfl⟩ := Option.map_eq_some_iff.mp hc
    rw [hy]
    rfl
  · intro j hj hlast
    rw [links, link_heap_of_ne (hne j hj) hlast, links]

/-- The links of the transfers that are not in the queue stay. -/
theorem link_links {S : Set XferId} (h : Lines (links s.heap) q.head q.tail S) (hj : j ≠ it)
    (hS : j ∉ S) : links (s.link q it).1.heap j = links s.heap j := by
  have htail : q.tail ≠ some j := by
    intro htail
    rw [htail] at h
    exact hS h.tail_mem
  rw [links, link_heap_of_ne hj htail, links]

end Async

end Links

/-! ### Moves -/

namespace Async

variable {s s' : Async} {loc : XferId → Place} {it : XferId}

theorem Arranged.new (hasPipe : Bool) : (Async.new hasPipe).Arranged fun _ => .app where
  once := List.nodup_nil
  submitting it := by simp [Async.new]
  subq := by
    have hnone : placed (fun _ => .app) .subq = ∅ := by simp [placed]
    rw [hnone]
    exact Lines.empty
  worker it := by simp [Async.new, Worker.its]
  doneq := by
    have hnone : placed (fun _ => .app) .doneq = ∅ := by simp [placed]
    rw [hnone]
    exact Lines.empty
  taken h pc hpc := by simp [Async.new] at hpc
  handler it h hit := by simp at hit

/-- What moves no transfer. -/
theorem Arranged.congr (ha : s.Arranged loc) (hsubmitting : s'.submitting = s.submitting)
    (hsubq : s'.subq = s.subq) (hworker : s'.worker.its = s.worker.its)
    (hdoneq : s'.doneq = s.doneq) (hhandlers : s'.handlers = s.handlers)
    (hlinks : ∀ it, loc it ≠ .app → links s'.heap it = links s.heap it) : s'.Arranged loc where
  once := by
    rw [hsubmitting]
    exact ha.once
  submitting it := by
    rw [hsubmitting]
    exact ha.submitting it
  subq := by
    rw [hsubq]
    exact ha.subq.congr fun it hit => hlinks it (by rw [hit]; simp)
  worker it := by
    rw [hworker]
    exact ha.worker it
  doneq := by
    rw [hdoneq]
    exact ha.doneq.congr fun it hit => hlinks it (by rw [hit]; simp)
  taken h pc hpc := by
    rw [hhandlers] at hpc
    exact (ha.taken h pc hpc).congr fun it hit => hlinks it (by rw [hit]; simp)
  handler := by
    rw [hhandlers]
    exact ha.handler

theorem Arranged.modify (ha : s.Arranged loc) {f : ITransfer → ITransfer}
    (hf : ∀ x, (f x).next = x.next) : (s.modify it f).Arranged loc :=
  ha.congr rfl rfl rfl rfl rfl fun _ _ => by rw [links_modify hf]

section Elsewhere

/-! A place that a move does not concern. -/

variable {p : Place} (ha : s.Arranged loc)
include ha

theorem Arranged.submitting_update (hp : p ≠ .submitting) (hit : loc it ≠ .submitting)
    (j : XferId) : j ∈ s.submitting ↔ Function.update loc it p j = .submitting := by
  rw [update_eq_iff hp hit]
  exact ha.submitting j

theorem Arranged.subq_update (hp : p ≠ .subq) (hit : loc it ≠ .subq) :
    Lines (links s.heap) s.subq.head s.subq.tail (placed (Function.update loc it p) .subq) := by
  rw [placed_update_of_ne hp hit]
  exact ha.subq

theorem Arranged.worker_update (hp : p ≠ .worker) (hit : loc it ≠ .worker) (j : XferId) :
    j ∈ s.worker.its ↔ Function.update loc it p j = .worker := by
  rw [update_eq_iff hp hit]
  exact ha.worker j

theorem Arranged.doneq_update (hp : p ≠ .doneq) (hit : loc it ≠ .doneq) :
    Lines (links s.heap) s.doneq.head s.doneq.tail (placed (Function.update loc it p) .doneq) := by
  rw [placed_update_of_ne hp hit]
  exact ha.doneq

theorem Arranged.taken_update {h : Nat} (hp : p ≠ .taken h) (hit : loc it ≠ .taken h)
    {pc : Handler} (hpc : s.handlers[h]? = some pc) :
    Visits (links s.heap) pc.list (placed (Function.update loc it p) (.taken h)) := by
  rw [placed_update_of_ne hp hit]
  exact ha.taken h pc hpc

theorem Arranged.handler_update {h : Nat} (hp : p ≠ .taken h) (j : XferId)
    (hj : Function.update loc it p j = .taken h) : h < s.handlers.length := by
  by_cases hji : j = it
  · subst hji
    rw [Function.update_self] at hj
    exact absurd hj hp
  · rw [Function.update_of_ne hji] at hj
    exact ha.handler j h hj

end Elsewhere

/-- The application calls `libusb_submit_transfer`. -/
theorem Arranged.enter (ha : s.Arranged loc) (hit : loc it = .app) :
    { s with submitting := it :: s.submitting }.Arranged
      (Function.update loc it .submitting) where
  once := List.nodup_cons.mpr ⟨by rw [ha.submitting, hit]; simp, ha.once⟩
  submitting j := by
    rw [List.mem_cons, ha.submitting]
    exact (Set.ext_iff.mp placed_update_self j).symm
  subq := ha.subq_update (by simp) (by simp [hit])
  worker := ha.worker_update (by simp) (by simp [hit])
  doneq := ha.doneq_update (by simp) (by simp [hit])
  taken _ _ := ha.taken_update (by simp) (by simp [hit])
  handler j _ := ha.handler_update (by simp) j

theorem Arranged.leave (ha : s.Arranged loc) (hit : loc it = .submitting) :
    { s with submitting := s.submitting.erase it }.Arranged (Function.update loc it .app) where
  once := ha.once.erase it
  submitting j := by
    rw [ha.once.mem_erase_iff, ha.submitting, and_comm]
    exact (Set.ext_iff.mp (placed_update_old (by simp)) j).symm
  subq := ha.subq_update (by simp) (by simp [hit])
  worker := ha.worker_update (by simp) (by simp [hit])
  doneq := ha.doneq_update (by simp) (by simp [hit])
  taken _ _ := ha.taken_update (by simp) (by simp [hit])
  handler j _ := ha.handler_update (by simp) j

/-- A transfer is put on the submit queue. -/
theorem Arranged.link_subq (ha : s.Arranged loc) (hit : loc it = .app) {x : ITransfer}
    (live : s.heap it = some x) :
    { (s.link s.subq it).1 with subq := (s.link s.subq it).2 }.Arranged
      (Function.update loc it .subq) := by
  obtain ⟨heap, hlink⟩ := link_fst s s.subq it
  have hother : ∀ j, loc j ≠ .app → loc j ≠ .subq → links heap j = links s.heap j := by
    intro j happ hsubq
    have hne : j ≠ it := by
      rintro rfl
      exact happ hit
    have := link_links ha.subq hne hsubq
    rwa [hlink] at this
  have hlines := link_lines ha.subq (by simp [placed, hit]) live
  rw [hlink] at hlines ⊢
  exact {
    once := ha.once
    submitting := ha.submitting_update (by simp) (by simp [hit])
    subq := by
      rw [placed_update_self]
      exact hlines
    worker := ha.worker_update (by simp) (by simp [hit])
    doneq := by
      refine (ha.doneq_update (by simp) (by simp [hit])).congr fun j hj => ?_
      rw [placed_update_of_ne (by simp) (by simp [hit])] at hj
      have hj : loc j = .doneq := hj
      exact hother j (by simp [hj]) (by simp [hj])
    taken := by
      intro h pc hpc
      refine (ha.taken_update (by simp) (by simp [hit]) hpc).congr fun j hj => ?_
      rw [placed_update_of_ne (by simp) (by simp [hit])] at hj
      have hj : loc j = .taken h := hj
      exact hother j (by simp [hj]) (by simp [hj])
    handler := fun j _ => ha.handler_update (by simp) j }

/-- A transfer is put on the done queue. -/
theorem Arranged.link_doneq (ha : s.Arranged loc) (hit : loc it = .app) {x : ITransfer}
    (live : s.heap it = some x) :
    { (s.link s.doneq it).1 with doneq := (s.link s.doneq it).2 }.Arranged
      (Function.update loc it .doneq) := by
  obtain ⟨heap, hlink⟩ := link_fst s s.doneq it
  have hother : ∀ j, loc j ≠ .app → loc j ≠ .doneq → links heap j = links s.heap j := by
    intro j happ hdoneq
    have hne : j ≠ it := by
      rintro rfl
      exact happ hit
    have := link_links ha.doneq hne hdoneq
    rwa [hlink] at this
  have hlines := link_lines ha.doneq (by simp [placed, hit]) live
  rw [hlink] at hlines ⊢
  exact {
    once := ha.once
    submitting := ha.submitting_update (by simp) (by simp [hit])
    subq := by
      refine (ha.subq_update (by simp) (by simp [hit])).congr fun j hj => ?_
      rw [placed_update_of_ne (by simp) (by simp [hit])] at hj
      have hj : loc j = .subq := hj
      exact hother j (by simp [hj]) (by simp [hj])
    worker := ha.worker_update (by simp) (by simp [hit])
    doneq := by
      rw [placed_update_self]
      exact hlines
    taken := by
      intro h pc hpc
      refine (ha.taken_update (by simp) (by simp [hit]) hpc).congr fun j hj => ?_
      rw [placed_update_of_ne (by simp) (by simp [hit])] at hj
      have hj : loc j = .taken h := hj
      exact hother j (by simp [hj]) (by simp [hj])
    handler := fun j _ => ha.handler_update (by simp) j }

/-- The first transfer leaves the submit queue. -/
theorem Arranged.pop_subq (ha : s.Arranged loc) (head : s.subq.head = some it) :
    loc it = .subq ∧ ∃ x, s.heap it = some x ∧
      { s with subq := ⟨x.next, if x.next = none then none else s.subq.tail⟩ }.Arranged
        (Function.update loc it .app) := by
  have hlines := ha.subq
  rw [head] at hlines
  obtain ⟨hit, c, hc, hrest⟩ := hlines.pop
  obtain ⟨x, hx, rfl⟩ := Option.map_eq_some_iff.mp hc
  have hit : loc it = .subq := hit
  refine ⟨hit, x, hx, ?_⟩
  exact {
    once := ha.once
    submitting := ha.submitting_update (by simp) (by simp [hit])
    subq := by
      rw [placed_update_old (by simp)]
      exact hrest
    worker := ha.worker_update (by simp) (by simp [hit])
    doneq := ha.doneq_update (by simp) (by simp [hit])
    taken := fun _ _ => ha.taken_update (by simp) (by simp [hit])
    handler := fun j _ => ha.handler_update (by simp) j }

/-- The worker gets a transfer. -/
theorem Arranged.hold (ha : s.Arranged loc) (hit : loc it = .app) (hidle : s.worker.its = [])
    {w : Worker} (hw : w.its = [it]) :
    { s with worker := w }.Arranged (Function.update loc it .worker) where
  once := ha.once
  submitting := ha.submitting_update (by simp) (by simp [hit])
  subq := ha.subq_update (by simp) (by simp [hit])
  worker j := by
    have hnone : ∀ j, loc j ≠ .worker := fun j hj => by simpa [hidle] using (ha.worker j).mpr hj
    rw [hw, List.mem_singleton]
    by_cases hj : j = it
    · subst hj
      simp
    · rw [Function.update_of_ne hj]
      simp [hj, hnone j]
  doneq := ha.doneq_update (by simp) (by simp [hit])
  taken _ _ := ha.taken_update (by simp) (by simp [hit])
  handler j _ := ha.handler_update (by simp) j

theorem Arranged.release (ha : s.Arranged loc) (hold : s.worker.its = [it]) {w : Worker}
    (hw : w.its = []) : { s with worker := w }.Arranged (Function.update loc it .app) := by
  have hit : loc it = .worker := (ha.worker it).mp (by simp [hold])
  exact {
    once := ha.once
    submitting := ha.submitting_update (by simp) (by simp [hit])
    subq := ha.subq_update (by simp) (by simp [hit])
    worker := fun j => by
      rw [hw]
      by_cases hj : j = it
      · subst hj
        simp
      · rw [Function.update_of_ne hj, ← ha.worker, hold]
        simp [hj]
    doneq := ha.doneq_update (by simp) (by simp [hit])
    taken := fun _ _ => ha.taken_update (by simp) (by simp [hit])
    handler := fun j _ => ha.handler_update (by simp) j }

/-- A handler goes on with the list that it has. -/
theorem Arranged.setHandler (ha : s.Arranged loc) {h : Nat} {old pc : Handler}
    (hold : s.handlers[h]? = some old) (hlist : pc.list = old.list) :
    (s.setHandler h pc).Arranged loc where
  once := ha.once
  submitting := ha.submitting
  subq := ha.subq
  worker := ha.worker
  doneq := ha.doneq
  taken i pc' hpc' := by
    rw [setHandler_handlers hold] at hpc'
    split at hpc' <;> rename_i hi
    · subst hi
      cases hpc'
      rw [hlist]
      exact ha.taken h old hold
    · exact ha.taken i pc' hpc'
  handler j i hj := by
    have := ha.handler j i hj
    simpa [Async.setHandler] using this

/-- A handler goes on to the next transfer of its list. -/
theorem Arranged.pop_taken (ha : s.Arranged loc) {h : Nat} {old : Handler}
    (hold : s.handlers[h]? = some old) (hlist : old.list = some it) :
    loc it = .taken h ∧ ∃ x, s.heap it = some x ∧ ∀ pc : Handler, pc.list = x.next →
      (s.setHandler h pc).Arranged (Function.update loc it .app) := by
  have hvisits := ha.taken h old hold
  rw [hlist] at hvisits
  obtain ⟨hit, c, hc, hrest⟩ := hvisits.pop
  obtain ⟨x, hx, rfl⟩ := Option.map_eq_some_iff.mp hc
  have hit : loc it = .taken h := hit
  refine ⟨hit, x, hx, fun pc hpc => ?_⟩
  exact {
    once := ha.once
    submitting := ha.submitting_update (by simp) (by simp [hit])
    subq := ha.subq_update (by simp) (by simp [hit])
    worker := ha.worker_update (by simp) (by simp [hit])
    doneq := ha.doneq_update (by simp) (by simp [hit])
    taken := fun i pc' hpc' => by
      rw [setHandler_handlers hold] at hpc'
      split at hpc' <;> rename_i hi
      · subst hi
        cases hpc'
        rw [hpc, placed_update_old (by simp)]
        exact hrest
      · exact ha.taken_update (by simp) (by simp [hit, hi]) hpc'
    handler := fun j i hj => by
      have := ha.handler_update (by simp) j hj
      simpa [Async.setHandler] using this }

/-- The places after a handler has taken the done queue. -/
def grabbed (loc : XferId → Place) (h : Nat) (it : XferId) : Place :=
  if loc it = .doneq then .taken h else loc it

theorem grabbed_eq_iff {h : Nat} {p : Place} (hdoneq : p ≠ .doneq) (htaken : p ≠ .taken h) :
    grabbed loc h it = p ↔ loc it = p := by
  unfold grabbed
  split
  · rename_i heq
    rw [heq]
    exact ⟨fun h => absurd h.symm htaken, fun h => absurd h.symm hdoneq⟩
  · rfl

theorem placed_grabbed {h : Nat} {p : Place} (hdoneq : p ≠ .doneq) (htaken : p ≠ .taken h) :
    placed (grabbed loc h) p = placed loc p :=
  Set.ext fun _ => grabbed_eq_iff hdoneq htaken

theorem Arranged.grab (ha : s.Arranged loc) {h : Nat} {old pc : Handler}
    (hold : s.handlers[h]? = some old) (hlist : old.list = none) (hpc : pc.list = s.doneq.head) :
    ({ s with doneq := ⟨none, none⟩ }.setHandler h pc).Arranged (grabbed loc h) where
  once := ha.once
  submitting it := by
    rw [grabbed_eq_iff (by simp) (by simp)]
    exact ha.submitting it
  subq := by
    rw [placed_grabbed (by simp) (by simp)]
    exact ha.subq
  worker it := by
    rw [grabbed_eq_iff (by simp) (by simp)]
    exact ha.worker it
  doneq := by
    have hnone : placed (grabbed loc h) .doneq = ∅ := by
      ext it
      simp only [placed, grabbed, Set.mem_ofPred_eq, Set.mem_empty_iff_false, iff_false]
      split
      · simp
      · assumption
    rw [hnone]
    exact Lines.empty
  taken i pc' hpc' := by
    rw [setHandler_handlers (s := { s with doneq := ⟨none, none⟩ }) hold] at hpc'
    split at hpc' <;> rename_i hi
    · subst hi
      cases hpc'
      -- the handler had nothing before
      have hvisits := ha.taken h old hold
      rw [hlist] at hvisits
      have hnone := hvisits.eq_empty
      have hall : placed (grabbed loc h) (.taken h) = placed loc .doneq := by
        ext it
        simp only [placed, grabbed, Set.mem_ofPred_eq]
        split
        · simp [*]
        · rename_i hne
          exact ⟨fun h => (Set.eq_empty_iff_forall_notMem.mp hnone it h).elim,
            fun h => absurd h hne⟩
      rw [hpc, hall]
      exact ha.doneq.visits
    · rw [placed_grabbed (by simp) (by simp [Ne.symm hi])]
      exact ha.taken i pc' hpc'
  handler it i hit := by
    have hlt := (List.getElem?_eq_some_iff.mp hold).1
    have hsame : ({ s with doneq := ⟨none, none⟩ }.setHandler h pc).handlers.length =
        s.handlers.length := List.length_set
    rw [hsame]
    unfold grabbed at hit
    split at hit
    · cases hit
      exact hlt
    · exact ha.handler it i hit

/-- Another thread comes to `handle_events`. -/
theorem Arranged.handle (ha : s.Arranged loc) {pc : Handler} (hlist : pc.list = none) :
    { s with handlers := s.handlers ++ [pc] }.Arranged loc where
  once := ha.once
  submitting := ha.submitting
  subq := ha.subq
  worker := ha.worker
  doneq := ha.doneq
  taken i pc' hpc' := by
    rw [List.getElem?_append] at hpc'
    split at hpc'
    · exact ha.taken i pc' hpc'
    · rename_i hge
      have hnone : placed loc (.taken i) = ∅ :=
        Set.eq_empty_of_forall_notMem fun it hit => hge (ha.handler it i hit)
      have hsame : pc' = pc := List.mem_singleton.mp (List.mem_of_getElem? hpc')
      rw [hnone, hsame, hlist]
      exact Visits.empty
  handler it i hit := by
    have := ha.handler it i hit
    rw [List.length_append]
    omega

end Async

end Usbip.Libusb
