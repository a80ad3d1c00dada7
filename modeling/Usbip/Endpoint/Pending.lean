import Mathlib.Data.Finset.Card
import Mathlib.Data.Finset.Range
import Usbip.Lib.Chain
import Usbip.Types

/-! The pending list of an IN endpoint: the `struct pending` nodes of the URBs parked until data
exists, with the `pend_head` and `pend_tail` pointers.  `PendList` has the source's operations on
nodes and pointers, `PendQueue` adds the invariant that they keep, and the lemmas about `nodes`
and `pendTail` say what each operation does to the list that `next` leads through. -/

namespace Usbip

open Lib

/-- The nodes allocated so far, the next address of the allocator, and the two list pointers.
Addresses are never used twice, so a freed node is one that no pointer leads to. -/
structure PendList where
  heap : Nat → Option (Cell Nat Urb)
  brk : Nat
  pendHead : Option Nat
  pendTail : Option Nat

namespace PendList

/-- The nodes reachable from `pend_head` by following `next`, with their addresses. -/
def nodes (q : PendList) : List (Nat × Urb) := follow q.heap q.brk q.pendHead

/-- `next` leads from `pend_head` through `l` to a null pointer, and `pend_tail` is null or the
last node of `l`. -/
structure Holds (q : PendList) (l : List (Nat × Urb)) : Prop where
  chain : Chain q.heap q.pendHead l
  bound : ∀ x ∈ l, x.1 < q.brk
  tail : q.pendTail = none ∨ q.pendTail = l.getLast?.map Prod.fst

/-- What every operation keeps. -/
def WF (q : PendList) : Prop := ∃ l, q.Holds l

theorem Holds.length_le {q : PendList} {l : List (Nat × Urb)} (h : q.Holds l) :
    l.length ≤ q.brk := by
  have hsub : (l.map Prod.fst).toFinset ⊆ Finset.range q.brk := by
    intro a ha
    obtain ⟨x, hx, rfl⟩ := List.mem_map.mp (List.mem_toFinset.mp ha)
    exact Finset.mem_range.mpr (h.bound x hx)
  have := Finset.card_le_card hsub
  rwa [List.toFinset_card_of_nodup h.chain.nodup, List.length_map, Finset.card_range] at this

theorem Holds.nodes_eq {q : PendList} {l : List (Nat × Urb)} (h : q.Holds l) : q.nodes = l :=
  follow_eq_of_chain h.chain h.length_le

theorem Holds.head_none {q : PendList} {l : List (Nat × Urb)} (h : q.Holds l) :
    q.pendHead = none ↔ l = [] := by
  have hc := h.chain
  cases l with
  | nil => simpa using hc
  | cons x l => simp [hc.1]

def setNext (heap : Nat → Option (Cell Nat Urb)) (a : Nat) (p : Option Nat) :
    Nat → Option (Cell Nat Urb) :=
  match heap a with
  | some c => Function.update heap a (some ⟨p, c.val⟩)
  | none => heap

/-! ### Parking -/

/-- The parking branch of `usbip_device_dispatch`: a new node goes after `pend_tail`, or becomes
`pend_head` when `pend_tail` is null. -/
def park (q : PendList) (urb : Urb) : PendList :=
  let pend := q.brk
  let heap := Function.update q.heap pend (some ⟨none, urb⟩)
  match q.pendTail with
  | some tail =>
    ⟨setNext heap tail (some pend), pend + 1, q.pendHead, some pend⟩
  | none => ⟨heap, pend + 1, some pend, some pend⟩

/-- A parked URB joins the list, but replaces it when `pend_tail` is null. -/
theorem Holds.park {q : PendList} {l : List (Nat × Urb)} (h : q.Holds l) (urb : Urb) :
    (q.park urb).Holds ((if q.pendTail = none then [] else l) ++ [(q.brk, urb)]) := by
  cases ht : q.pendTail with
  | none =>
    simp only [PendList.park, ht, if_true, List.nil_append]
    exact ⟨⟨rfl, none, by simp, rfl⟩, by simp, Or.inr rfl⟩
  | some tail =>
    have hlast : l.getLast?.map Prod.fst = some tail := by
      rcases h.tail with h' | h' <;> simp_all
    obtain ⟨⟨a, v⟩, hx, rfl⟩ := Option.map_eq_some_iff.mp hlast
    obtain ⟨l', rfl⟩ := List.getLast?_eq_some_iff.mp hx
    have hfresh : ∀ x ∈ l' ++ [(a, v)], x.1 ≠ q.brk := fun x hx => by
      have := h.bound x hx
      omega
    have hchain : Chain (Function.update q.heap q.brk (some ⟨none, urb⟩)) q.pendHead
        (l' ++ [(a, v)]) := by
      refine Seg.congr h.chain fun b hb => ?_
      obtain ⟨x, hx, rfl⟩ := List.mem_map.mp hb
      exact Function.update_of_ne (hfresh x hx) _ _
    have hnew := not_mem_of_nodup_concat hchain.nodup
    obtain ⟨n, hn⟩ := Seg.allocated hchain (a := a) (v := v) (by simp)
    simp only [PendList.park, ht, setNext, hn, reduceCtorEq, if_false]
    refine ⟨seg_append.mpr ⟨some q.brk, Seg.redirect hchain hnew _, rfl, none, ?_, rfl⟩, ?_, ?_⟩
    · have hne : q.brk ≠ a := fun hba => hfresh (a, v) (by simp) hba.symm
      show Function.update _ a _ q.brk = _
      rw [Function.update_of_ne hne, Function.update_self]
    · intro x hx
      rcases List.mem_append.mp hx with hx | hx
      · have := h.bound x hx
        show x.1 < q.brk + 1
        omega
      · obtain rfl : x = (q.brk, urb) := by simpa using hx
        exact Nat.lt_succ_self _
    · exact Or.inr (by simp)

@[simp] theorem park_pendTail (q : PendList) (urb : Urb) : (q.park urb).pendTail = some q.brk := by
  unfold park
  cases q.pendTail <;> rfl

/-! ### Popping -/

/-- The pop of `usbip_device_write`: the head node, and the list without it. -/
def pop (q : PendList) : Option (Urb × PendList) :=
  match q.pendHead with
  | none => none
  | some pend =>
    match q.heap pend with
    | none => none
    | some node =>
      let pendTail := if node.next = none then none else q.pendTail
      some (node.val, { q with pendHead := node.next, pendTail })

theorem Holds.pop_nil {q : PendList} (h : q.Holds []) : q.pop = none := by
  have : q.pendHead = none := h.head_none.mpr rfl
  simp [pop, this]

theorem Holds.pop_cons {q : PendList} {a : Nat} {v : Urb} {l : List (Nat × Urb)}
    (h : q.Holds ((a, v) :: l)) :
    ∃ q', q.pop = some (v, q') ∧ q'.Holds l ∧
      q'.pendTail = if l = [] then none else q.pendTail := by
  obtain ⟨ha, n, hn, hl⟩ := h.chain
  have hnil : n = none ↔ l = [] := by
    cases l with
    | nil => simpa using hl
    | cons x l => simp [hl.1]
  refine ⟨⟨q.heap, q.brk, n, if n = none then none else q.pendTail⟩, by simp only [pop, ha, hn],
    ⟨hl, fun x hx => h.bound x (by simp [hx]), ?_⟩, ?_⟩
  · by_cases hempty : l = []
    · simp [hnil, hempty]
    · simp only [hnil, hempty, if_false]
      obtain ⟨x, l', rfl⟩ := List.exists_cons_of_ne_nil hempty
      rcases h.tail with ht | ht
      · exact Or.inl ht
      · exact Or.inr (by rw [ht, List.getLast?_cons_cons])
  · simp only [hnil]

/-! ### Taking the whole list -/

/-- `usbip_ep_stall` under the lock: the list becomes empty, and the caller keeps the nodes. -/
def takeAll (q : PendList) : List Urb × PendList :=
  (q.nodes.map Prod.snd, { q with pendHead := none, pendTail := none })

theorem Holds.takeAll {q : PendList} {l : List (Nat × Urb)} (h : q.Holds l) :
    q.takeAll.1 = l.map Prod.snd ∧ q.takeAll.2.Holds [] :=
  ⟨by rw [PendList.takeAll, h.nodes_eq], rfl, by simp, Or.inl rfl⟩

/-! ### Removing at every position -/

/-- A `struct pending **`: `&ep->pend_head` or `&node->next`. -/
inductive Link
  | head
  | next (a : Nat)

/-- `*pp`. -/
def deref (q : PendList) : Link → Option Nat
  | .head => q.pendHead
  | .next a => (q.heap a).bind Cell.next

/-- `*pp = p`. -/
def assign (q : PendList) : Link → Option Nat → PendList
  | .head, p => { q with pendHead := p }
  | .next a, p => { q with heap := setNext q.heap a p }

/-- `if (ep->pend_tail == dead) ep->pend_tail = NULL`. -/
def clearTail (q : PendList) (dead : Nat) : PendList :=
  if q.pendTail = some dead then { q with pendTail := none } else q

/-- The loop of `usbip_device_handle_unlink` over one endpoint, for the nodes that `hit` selects,
with the URBs of the nodes that it frees.  Each round passes or frees one node. -/
def unlinkLoop (hit : Urb → Bool) : Nat → PendList → Link → PendList × List Urb
  | 0, q, _ => (q, [])
  | fuel + 1, q, pp =>
    match q.deref pp with
    | none => (q, [])
    | some a =>
      match q.heap a with
      | none => (q, [])
      | some node =>
        if hit node.val then
          let (q', freed) := unlinkLoop hit fuel ((q.assign pp node.next).clearTail a) pp
          (q', node.val :: freed)
        else unlinkLoop hit fuel q (.next a)

/-- The section of `usbip_device_handle_unlink` under one endpoint's lock. -/
def unlinkWhere (q : PendList) (hit : Urb → Bool) : PendList × List Urb :=
  unlinkLoop hit q.brk q .head

/-- `pp` points to the pointer that leads out of the nodes `kept`. -/
def At (kept : List (Nat × Urb)) : Link → Prop
  | .head => kept = []
  | .next a => ∃ l v, kept = l ++ [(a, v)]

/-- `pend_tail` after the loop: null when the last of the nodes it visits is freed. -/
def tailAfter (hit : Urb → Bool) (rest : List (Nat × Urb)) (tail : Option Nat) : Option Nat :=
  if rest.getLast?.any (fun x => hit x.2) then none else tail

theorem tailAfter_cons (hit : Urb → Bool) (x : Nat × Urb) {rest : List (Nat × Urb)}
    (h : rest ≠ []) (tail : Option Nat) :
    tailAfter hit (x :: rest) tail = tailAfter hit rest tail := by
  obtain ⟨y, rest', rfl⟩ := List.exists_cons_of_ne_nil h
  simp [tailAfter]

theorem deref_of_seg {q : PendList} {kept : List (Nat × Urb)} {pp : Link} {p : Option Nat}
    (hpp : At kept pp) (h : Seg q.heap q.pendHead kept p) : q.deref pp = p := by
  cases pp with
  | head => cases hpp; exact h
  | next a =>
    obtain ⟨l, v, rfl⟩ := hpp
    obtain ⟨m, -, rfl, n, hn, rfl⟩ := seg_append.mp h
    simp [deref, hn]

/-- Freeing the node after `kept` leaves the nodes before and after it in the list. -/
theorem Holds.assign {q : PendList} {kept rest : List (Nat × Urb)} {a : Nat} {v : Urb}
    {pp : Link} {n : Option Nat} (hpp : At kept pp) (h : q.Holds (kept ++ (a, v) :: rest))
    (hn : q.heap a = some ⟨n, v⟩) :
    Seg (q.assign pp n).heap (q.assign pp n).pendHead kept n ∧
      Chain (q.assign pp n).heap n rest := by
  obtain ⟨p, hkept, rfl, m, hm, hrest⟩ := seg_append.mp h.chain
  obtain rfl : n = m := by simpa using hn.symm.trans hm
  cases pp with
  | head => cases hpp; exact ⟨rfl, hrest⟩
  | next b =>
    obtain ⟨l, w, rfl⟩ := hpp
    have hnodup := h.chain.nodup
    rw [List.map_append, List.nodup_append] at hnodup
    obtain ⟨hkeptNodup, -, hdisjoint⟩ := hnodup
    have hb := not_mem_of_nodup_concat hkeptNodup
    have hbrest : b ∉ rest.map Prod.fst := fun hb' =>
      hdisjoint b (by simp) b (List.mem_cons_of_mem _ hb') rfl
    obtain ⟨k, hk⟩ := Seg.allocated hkept (a := b) (v := w) (by simp)
    simp only [PendList.assign, setNext, hk]
    refine ⟨Seg.redirect hkept hb n, Seg.congr hrest fun c hc => ?_⟩
    exact Function.update_of_ne (fun hcb : c = b => hbrest (hcb ▸ hc)) _ _

@[simp] theorem assign_brk (q : PendList) (pp : Link) (p : Option Nat) :
    (q.assign pp p).brk = q.brk := by cases pp <;> rfl

@[simp] theorem assign_pendTail (q : PendList) (pp : Link) (p : Option Nat) :
    (q.assign pp p).pendTail = q.pendTail := by cases pp <;> rfl

@[simp] theorem clearTail_heap (q : PendList) (a : Nat) : (q.clearTail a).heap = q.heap := by
  unfold clearTail
  split <;> rfl

@[simp] theorem clearTail_brk (q : PendList) (a : Nat) : (q.clearTail a).brk = q.brk := by
  unfold clearTail
  split <;> rfl

@[simp] theorem clearTail_pendHead (q : PendList) (a : Nat) :
    (q.clearTail a).pendHead = q.pendHead := by
  unfold clearTail
  split <;> rfl

theorem clearTail_pendTail (q : PendList) (a : Nat) :
    (q.clearTail a).pendTail = if q.pendTail = some a then none else q.pendTail := by
  unfold clearTail
  split <;> rfl

/-- `pend_tail` is the freed node exactly when that node ends the list. -/
theorem Holds.tail_freed {q : PendList} {kept rest : List (Nat × Urb)} {a : Nat} {v : Urb}
    (h : q.Holds (kept ++ (a, v) :: rest)) :
    (if q.pendTail = some a then none else q.pendTail) =
      if rest = [] then none else q.pendTail := by
  by_cases hrest : rest = []
  · subst hrest
    rcases h.tail with ht | ht <;> simp [ht]
  · rw [if_neg hrest, if_neg]
    intro hta
    obtain ⟨l, x, rfl⟩ := List.eq_nil_or_concat rest |>.resolve_left hrest
    have ht : q.pendTail = some x.1 := by
      rcases h.tail with ht | ht
      · rw [ht] at hta; cases hta
      · rw [ht]
        simp [List.getLast?_append, List.getLast?_cons]
    have hnodup := h.chain.nodup
    rw [List.map_append, List.nodup_append] at hnodup
    refine (List.nodup_cons.mp hnodup.2.1).1 ?_
    obtain rfl : x.1 = a := by rw [ht] at hta; exact Option.some.inj hta
    simp

/-- One removal of the loop keeps the list invariant, and nulls `pend_tail` at the end of the
list. -/
theorem Holds.free {q : PendList} {kept rest : List (Nat × Urb)} {a : Nat} {v : Urb}
    {pp : Link} {n : Option Nat} (hpp : At kept pp) (h : q.Holds (kept ++ (a, v) :: rest))
    (hn : q.heap a = some ⟨n, v⟩) :
    ((q.assign pp n).clearTail a).Holds (kept ++ rest) ∧
      ((q.assign pp n).clearTail a).pendTail = if rest = [] then none else q.pendTail := by
  obtain ⟨h1, h2⟩ := h.assign hpp hn
  have htail : ((q.assign pp n).clearTail a).pendTail = if rest = [] then none else q.pendTail := by
    rw [clearTail_pendTail, assign_pendTail, h.tail_freed]
  refine ⟨⟨?_, fun x hx => ?_, ?_⟩, htail⟩
  · rw [clearTail_heap, clearTail_pendHead]
    exact seg_append.mpr ⟨n, h1, h2⟩
  · rw [clearTail_brk, assign_brk]
    exact h.bound x (by simp at hx ⊢; tauto)
  · rw [htail]
    split
    · exact Or.inl rfl
    · rename_i hrest
      obtain ⟨y, rest', rfl⟩ := List.exists_cons_of_ne_nil hrest
      rcases h.tail with ht | ht
      · exact Or.inl ht
      · right
        rw [ht]
        simp [List.getLast?_append, List.getLast?_cons_cons]

/-- The loop frees the nodes that `hit` selects and keeps the others in order. -/
theorem Holds.unlinkLoop (hit : Urb → Bool) {rest : List (Nat × Urb)} :
    ∀ {fuel : Nat} {q : PendList} {kept : List (Nat × Urb)} {pp : Link},
      rest.length ≤ fuel → At kept pp → q.Holds (kept ++ rest) →
      (PendList.unlinkLoop hit fuel q pp).1.Holds (kept ++ rest.filter fun x => !hit x.2) ∧
      (PendList.unlinkLoop hit fuel q pp).2 = (rest.map Prod.snd).filter hit ∧
      (PendList.unlinkLoop hit fuel q pp).1.pendTail = tailAfter hit rest q.pendTail := by
  induction rest with
  | nil =>
    intro fuel q kept pp _ hpp h
    have hnull : q.deref pp = none := deref_of_seg hpp (by simpa using h.chain)
    cases fuel <;> simpa [PendList.unlinkLoop, hnull, tailAfter] using h
  | cons x rest ih =>
    obtain ⟨a, v⟩ := x
    intro fuel q kept pp hfuel hpp h
    obtain ⟨p, hkept, rfl, n, hn, hrest⟩ := seg_append.mp h.chain
    cases fuel with
    | zero => simp at hfuel
    | succ fuel =>
      have hfuel' : rest.length ≤ fuel := by simp at hfuel; omega
      simp only [PendList.unlinkLoop, deref_of_seg hpp hkept, hn]
      by_cases hhit : hit v
      · -- the node is freed: `pp` stays, and the next round sees the node after it
        obtain ⟨hfree, htail⟩ := h.free hpp hn
        obtain ⟨h1, h2, h3⟩ := ih hfuel' hpp hfree
        simp only [hhit, if_true]
        refine ⟨by simpa [hhit] using h1, by simp [hhit, h2], ?_⟩
        rw [h3, htail]
        by_cases hempty : rest = []
        · simp [tailAfter, hempty, hhit]
        · rw [tailAfter_cons _ _ hempty, if_neg hempty]
      · -- the node stays: `pp` moves to its `next`
        have h' : q.Holds (kept ++ [(a, v)] ++ rest) := by simpa using h
        have hpp' : At (kept ++ [(a, v)]) (.next a) := ⟨kept, v, rfl⟩
        obtain ⟨h1, h2, h3⟩ := ih hfuel' hpp' h'
        simp only [hhit, Bool.false_eq_true, if_false]
        refine ⟨by simpa [hhit] using h1, by simp [hhit, h2], ?_⟩
        rw [h3]
        by_cases hempty : rest = []
        · simp [tailAfter, hempty, hhit]
        · rw [tailAfter_cons _ _ hempty]

theorem Holds.unlinkWhere {q : PendList} {l : List (Nat × Urb)} (h : q.Holds l)
    (hit : Urb → Bool) :
    (q.unlinkWhere hit).1.Holds (l.filter fun x => !hit x.2) ∧
      (q.unlinkWhere hit).2 = (l.map Prod.snd).filter hit ∧
      (q.unlinkWhere hit).1.pendTail = tailAfter hit l q.pendTail :=
  Holds.unlinkLoop hit h.length_le (show At [] .head from rfl) h

end PendList

/-- A pending list with its invariant. -/
structure PendQueue where
  list : PendList
  wf : list.WF

namespace PendQueue

def empty : PendQueue := ⟨⟨fun _ => none, 0, none, none⟩, [], rfl, by simp, Or.inl rfl⟩

/-- The parked URBs, from `pend_head` on. -/
def urbs (q : PendQueue) : List Urb := q.list.nodes.map Prod.snd

/-- `pend_tail` is the last node reachable from `pend_head`, or null when there is none. -/
def Tight (q : PendQueue) : Prop := q.list.pendTail = q.list.nodes.getLast?.map Prod.fst

def park (q : PendQueue) (urb : Urb) : PendQueue :=
  ⟨q.list.park urb, let ⟨_, h⟩ := q.wf; ⟨_, h.park urb⟩⟩

theorem wf_pop {q : PendList} (h : q.WF) {urb : Urb} {q' : PendList}
    (hp : q.pop = some (urb, q')) : q'.WF := by
  obtain ⟨l, hl⟩ := h
  cases l with
  | nil => rw [hl.pop_nil] at hp; cases hp
  | cons x l =>
    obtain ⟨q'', h1, h2, -⟩ := hl.pop_cons
    obtain rfl : q'' = q' := by rw [h1] at hp; cases hp; rfl
    exact ⟨l, h2⟩

def pop (q : PendQueue) : Option (Urb × PendQueue) :=
  match h : q.list.pop with
  | none => none
  | some (urb, q') => some (urb, ⟨q', wf_pop q.wf h⟩)

def takeAll (q : PendQueue) : List Urb × PendQueue :=
  (q.list.takeAll.1, ⟨q.list.takeAll.2, let ⟨_, h⟩ := q.wf; ⟨[], h.takeAll.2⟩⟩)

def unlinkWhere (q : PendQueue) (hit : Urb → Bool) : PendQueue × List Urb :=
  (⟨(q.list.unlinkWhere hit).1, let ⟨_, h⟩ := q.wf; ⟨_, (h.unlinkWhere hit).1⟩⟩,
    (q.list.unlinkWhere hit).2)

/-- `usbip_device_handle_unlink` on one endpoint: it compares sequence numbers only. -/
def unlink (q : PendQueue) (unlinkSeqnum : UInt32) : PendQueue × List Urb :=
  q.unlinkWhere fun urb => urb.seqnum == unlinkSeqnum

theorem holds (q : PendQueue) : q.list.Holds q.list.nodes := by
  obtain ⟨l, h⟩ := q.wf
  rwa [h.nodes_eq]

@[simp] theorem urbs_empty : empty.urbs = [] := rfl

theorem tight_empty : empty.Tight := rfl

theorem head_none {q : PendQueue} : q.list.pendHead = none ↔ q.urbs = [] := by
  rw [q.holds.head_none, urbs, List.map_eq_nil_iff]

/-- Only a null `pend_tail` with nodes on the list is wrong. -/
theorem tight_iff {q : PendQueue} : q.Tight ↔ (q.list.pendTail = none → q.urbs = []) := by
  constructor
  · intro h hnone
    rw [Tight, hnone, eq_comm, Option.map_eq_none_iff, List.getLast?_eq_none_iff] at h
    rw [urbs, h, List.map_nil]
  · intro h
    rcases q.holds.tail with ht | ht
    · have hnil := h ht
      rw [urbs, List.map_eq_nil_iff] at hnil
      rw [Tight, ht, hnil]
      rfl
    · exact ht

theorem Tight.null_iff {q : PendQueue} (h : q.Tight) :
    q.list.pendTail = none ↔ q.list.pendHead = none := by
  rw [head_none]
  refine ⟨tight_iff.mp h, fun hnil => ?_⟩
  rw [urbs, List.map_eq_nil_iff] at hnil
  rw [h, hnil]
  rfl

theorem urbs_park (q : PendQueue) (urb : Urb) :
    (q.park urb).urbs = (if q.list.pendTail = none then [] else q.urbs) ++ [urb] := by
  rw [urbs, park, (q.holds.park urb).nodes_eq]
  split <;> simp [urbs]

theorem tight_park (q : PendQueue) (urb : Urb) : (q.park urb).Tight :=
  tight_iff.mpr fun h => by simp [park] at h

theorem Tight.urbs_park {q : PendQueue} (h : q.Tight) (urb : Urb) :
    (q.park urb).urbs = q.urbs ++ [urb] := by
  rw [PendQueue.urbs_park]
  split
  · rename_i hnone
    rw [tight_iff.mp h hnone]
  · rfl

theorem pop_none {q : PendQueue} : q.pop = none ↔ q.urbs = [] := by
  have hq := q.holds
  unfold pop urbs
  cases hn : q.list.nodes with
  | nil =>
    rw [hn] at hq
    have := hq.pop_nil
    split <;> simp_all
  | cons x l =>
    rw [hn] at hq
    obtain ⟨q', h1, -, -⟩ := hq.pop_cons
    split <;> simp_all

/-- A pop returns the first parked URB and leaves the others; `pend_tail` becomes null with the
list, and otherwise stays. -/
theorem pop_some {q q' : PendQueue} {urb : Urb} (h : q.pop = some (urb, q')) :
    q.urbs = urb :: q'.urbs ∧
      q'.list.pendTail = if q'.urbs = [] then none else q.list.pendTail := by
  have hq := q.holds
  unfold pop at h
  split at h
  · cases h
  · rename_i v q'' hpop
    cases h
    cases hn : q.list.nodes with
    | nil =>
      rw [hn] at hq
      rw [hq.pop_nil] at hpop
      cases hpop
    | cons x l =>
      rw [hn] at hq
      obtain ⟨q3, h1, h2, h3⟩ := hq.pop_cons
      rw [h1] at hpop
      cases hpop
      simp only [urbs, hn, h2.nodes_eq, List.map_cons, List.map_eq_nil_iff]
      exact ⟨trivial, h3⟩

theorem Tight.pop {q q' : PendQueue} {urb : Urb} (ht : q.Tight) (h : q.pop = some (urb, q')) :
    q'.Tight := by
  obtain ⟨h1, h2⟩ := pop_some h
  refine tight_iff.mpr fun hnone => ?_
  by_contra hne
  rw [if_neg hne] at h2
  have := tight_iff.mp ht (h2 ▸ hnone)
  rw [h1] at this
  cases this

@[simp] theorem takeAll_fst (q : PendQueue) : q.takeAll.1 = q.urbs := rfl

@[simp] theorem urbs_takeAll (q : PendQueue) : q.takeAll.2.urbs = [] := by
  rw [urbs, takeAll, q.holds.takeAll.2.nodes_eq, List.map_nil]

theorem tight_takeAll (q : PendQueue) : q.takeAll.2.Tight :=
  tight_iff.mpr fun _ => q.urbs_takeAll

section Unlink

variable (q : PendQueue) (hit : Urb → Bool)

theorem urbs_unlinkWhere : (q.unlinkWhere hit).1.urbs = q.urbs.filter fun u => !hit u := by
  rw [urbs, unlinkWhere, (q.holds.unlinkWhere hit).1.nodes_eq, urbs, List.filter_map]
  rfl

theorem unlinkWhere_freed : (q.unlinkWhere hit).2 = q.urbs.filter hit :=
  (q.holds.unlinkWhere hit).2.1

theorem unlinkWhere_pendTail : (q.unlinkWhere hit).1.list.pendTail =
    if q.urbs.getLast?.any hit then none else q.list.pendTail := by
  rw [unlinkWhere, (q.holds.unlinkWhere hit).2.2, PendList.tailAfter, urbs, List.getLast?_map,
    Option.any_map]

/-- A removal keeps a tight list tight exactly when it spares the last node or frees them all. -/
theorem Tight.unlinkWhere {q : PendQueue} (ht : q.Tight) {hit : Urb → Bool} :
    (q.unlinkWhere hit).1.Tight ↔ (q.urbs.getLast?.any hit → ∀ u ∈ q.urbs, hit u) := by
  rw [tight_iff, unlinkWhere_pendTail, urbs_unlinkWhere, List.filter_eq_nil_iff]
  by_cases hlast : q.urbs.getLast?.any hit
  · simp [hlast]
  · simp only [hlast, Bool.false_eq_true, if_false, false_imp_iff, iff_true]
    intro hnone
    rw [tight_iff.mp ht hnone]
    simp

end Unlink

/-- An unlink of `n` spares the last node of the list or frees them all. -/
def SparesTail (q : PendQueue) (n : UInt32) : Prop :=
  (q.urbs.getLast?.any fun urb => urb.seqnum == n) → ∀ urb ∈ q.urbs, urb.seqnum = n

instance (q : PendQueue) (n : UInt32) : Decidable (q.SparesTail n) :=
  inferInstanceAs (Decidable (_ → ∀ _ ∈ _, _))

theorem Tight.unlink {q : PendQueue} (ht : q.Tight) {n : UInt32} :
    (q.unlink n).1.Tight ↔ q.SparesTail n := by
  rw [PendQueue.unlink, ht.unlinkWhere, SparesTail]
  simp only [beq_iff_eq]

@[simp] theorem urbs_unlink (q : PendQueue) (n : UInt32) :
    (q.unlink n).1.urbs = q.urbs.filter fun urb => !(urb.seqnum == n) := urbs_unlinkWhere ..

end PendQueue

end Usbip
