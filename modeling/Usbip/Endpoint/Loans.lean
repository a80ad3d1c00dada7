import Usbip.Endpoint.Step

/-! The queued buffers as objects that are freed.  `usbip_device_dispatch` sends a slice of a dbuf
outside `ep->lock`, and the dispatch that has drained the dbuf frees it after it has sent its own
slice.  The dispatch of another connection may still have an earlier slice of it to send then. -/

namespace Usbip

open Lib

/-- `drained` of `usbip_device_dispatch`: the slice goes to the end of its dbuf. -/
def Slice.Drains (slice : Slice) (chunk : Int) : Prop :=
  slice.block.length ≤ slice.off + chunk

instance (slice : Slice) (chunk : Int) : Decidable (slice.Drains chunk) :=
  inferInstanceAs (Decidable (_ ≤ _))

/-- The dbufs of a queue, numbered in the order in which they become its first: `popped` have left
the queue, call `i` has a slice of number `lent i`, and `freed` are gone. -/
structure Loans where
  popped : Nat
  lent : Nat → Option Nat
  freed : List Nat

namespace Loans

def new : Loans := ⟨0, fun _ => none, []⟩

/-- Call `i` takes a slice of the first queued dbuf, which leaves the queue when it is drained. -/
def lend (l : Loans) (i : Nat) (urb : Urb) : List Dbuf → Loans
  | [] => l
  | d :: _ =>
    let slice : Slice := ⟨d.data, d.off⟩
    { l with
      popped := if slice.Drains (capLength urb.length (d.len - d.off)) then l.popped + 1 else l.popped
      lent := fun j => if j = i then some l.popped else l.lent j }

/-- Call `i` has sent its slice, and frees the dbuf that it has drained. -/
def giveBack (l : Loans) (i : Nat) (slice : Slice) (chunk : Int) : Loans where
  popped := l.popped
  lent j := if j = i then none else l.lent j
  freed := if slice.Drains chunk then l.freed ++ (l.lent i).toList else l.freed

/-- What a step of the endpoint does to the dbufs.  The reply is sent and the dbuf freed in one step:
a dispatch that sends between the two sends before both here. -/
def next (l : Loans) (ep : EpState) : EpAct → Loans
  | .run i =>
    match ep.calls[i]? with
    | some (.checked urb) => if urb.direction = .usbIn then l.lend i urb ep.inq else l
    | some (.serving _ slice chunk) => l.giveBack i slice chunk
    | _ => l
  | _ => l

end Loans

namespace EpState

/-- Every slice that a call has to send is one of a dbuf that is not freed. -/
def Allocated (ep : EpState) (l : Loans) : Prop :=
  ∀ i urb slice chunk, ep.calls[i]? = some (.serving urb slice chunk) →
    ∃ n, l.lent i = some n ∧ n ∉ l.freed

/-- A dispatch does not free the dbuf that it has drained while another has a slice of it. -/
def FreesNoLoan (ep : EpState) (l : Loans) (a : EpAct) : Prop :=
  ∀ i urb slice chunk, a = .run i → ep.calls[i]? = some (.serving urb slice chunk) →
    slice.Drains chunk → ∀ j urb' slice' chunk', j ≠ i →
      ep.calls[j]? = some (.serving urb' slice' chunk') → l.lent j ≠ l.lent i

/-- What a run keeps that frees no slice in hand: a dbuf that is freed has left the queue, and one
that a call will free has left it too. -/
structure LoanInv (ep : EpState) (l : Loans) : Prop where
  lent : ∀ i urb slice chunk, ep.calls[i]? = some (.serving urb slice chunk) →
    ∃ n, l.lent i = some n ∧ n ∉ l.freed ∧ n ≤ l.popped ∧ (slice.Drains chunk → n < l.popped)
  freed : ∀ n ∈ l.freed, n < l.popped

variable {ep ep' : EpState} {l : Loans} {a : EpAct} {events : List EpEvent}

theorem LoanInv.allocated (h : ep.LoanInv l) : ep.Allocated l := fun i urb slice chunk hi =>
  have ⟨n, hlent, hfreed, _⟩ := h.lent i urb slice chunk hi
  ⟨n, hlent, hfreed⟩

theorem loan_inv_new (onOut : Bool) : (EpState.new onOut).LoanInv .new where
  lent _ _ _ _ h := nomatch h
  freed _ h := nomatch h

/-- What holds of the calls that serve holds after a step in which no call takes a slice. -/
theorem LoanInv.frame (h : ep.LoanInv l)
    (hcalls : ∀ (i : Nat) urb slice chunk, ep'.calls[i]? = some (.serving urb slice chunk) →
      ep.calls[i]? = some (.serving urb slice chunk)) : ep'.LoanInv l :=
  ⟨fun i urb slice chunk hi => h.lent i urb slice chunk (hcalls i urb slice chunk hi), h.freed⟩

/-- A call that begins has no slice. -/
theorem serving_of_append {calls : List Call} {c : Call} {i : Nat} {urb : Urb} {slice : Slice}
    {chunk : Int} (hc : ∀ urb slice chunk, c ≠ .serving urb slice chunk)
    (h : (calls ++ [c])[i]? = some (.serving urb slice chunk)) :
    calls[i]? = some (.serving urb slice chunk) := by
  rw [List.getElem?_append] at h
  split at h
  · exact h
  · obtain rfl := List.mem_singleton.mp (List.mem_of_getElem? h)
    exact absurd rfl (hc urb slice chunk)

section run

variable {pre post : List Call} {call call' : Call} {i : Nat}

theorem getElem?_replaced (c c' : Call) (hi : i ≠ pre.length) :
    (pre ++ c' :: post)[i]? = (pre ++ c :: post)[i]? := by
  rw [List.getElem?_append, List.getElem?_append]
  split
  · rfl
  · obtain ⟨k, hk⟩ : ∃ k, i - pre.length = k + 1 := ⟨i - pre.length - 1, by omega⟩
    rw [hk]
    rfl

theorem getElem?_own (c : Call) : (pre ++ c :: post)[pre.length]? = some c := by
  rw [List.getElem?_append_right (Nat.le_refl _), Nat.sub_self]
  rfl

/-- A call that steps to one without a slice. -/
theorem LoanInv.run_none (h : ep.LoanInv l) (calls_eq : ep.calls = pre ++ call :: post)
    (hcalls : ep'.calls = pre ++ call' :: post)
    (hnone : ∀ urb slice chunk, call' ≠ .serving urb slice chunk) : ep'.LoanInv l := by
  refine h.frame fun i urb slice chunk hi => ?_
  rw [hcalls] at hi
  by_cases hown : i = pre.length
  · rw [hown, getElem?_own] at hi
    exact absurd (Option.some.inj hi) (hnone urb slice chunk)
  · rw [calls_eq]
    exact (getElem?_replaced call' call hown).trans hi

/-- A call takes a slice of the first dbuf, which is not freed: it has not left the queue. -/
theorem LoanInv.run_serve (h : ep.LoanInv l) (calls_eq : ep.calls = pre ++ call :: post)
    {urb : Urb} {dbuf : Dbuf} {rest : List Dbuf}
    (hcalls : ep'.calls = pre ++ .serving urb ⟨dbuf.data, dbuf.off⟩
      (capLength urb.length (dbuf.len - dbuf.off)) :: post) :
    ep'.LoanInv (l.lend pre.length urb (dbuf :: rest)) := by
  have hle : l.popped ≤ (l.lend pre.length urb (dbuf :: rest)).popped := by
    dsimp only [Loans.lend]
    split <;> omega
  constructor
  · intro i urb' slice chunk hi
    rw [hcalls] at hi
    by_cases hown : i = pre.length
    · subst hown
      rw [getElem?_own] at hi
      cases hi
      refine ⟨l.popped, if_pos rfl, fun hmem => Nat.lt_irrefl _ (h.freed _ hmem), hle, fun hdrains => ?_⟩
      rw [Loans.lend, if_pos hdrains]
      exact Nat.lt_succ_self _
    · rw [getElem?_replaced call _ hown, ← calls_eq] at hi
      obtain ⟨n, hlent, hfreed, hn, hdrains⟩ := h.lent i urb' slice chunk hi
      exact ⟨n, (if_neg hown).trans hlent, hfreed, hn.trans hle, fun hd => (hdrains hd).trans_le hle⟩
  · exact fun n hn => (h.freed n hn).trans_le hle

/-- A call that has sent its slice frees the dbuf that it has drained, and no other call has a slice
of it. -/
theorem LoanInv.run_sent (h : ep.LoanInv l) {urb : Urb} {slice : Slice} {chunk : Int}
    (calls_eq : ep.calls = pre ++ .serving urb slice chunk :: post)
    (hcalls : ep'.calls = pre ++ .done :: post) (hfree : ep.FreesNoLoan l (.run pre.length)) :
    ep'.LoanInv (l.giveBack pre.length slice chunk) := by
  have hself : ep.calls[pre.length]? = some (.serving urb slice chunk) := by
    rw [calls_eq, getElem?_own]
  obtain ⟨m, hm, -, -, hleft⟩ := h.lent _ _ _ _ hself
  constructor
  · intro i urb' slice' chunk' hi
    rw [hcalls] at hi
    by_cases hown : i = pre.length
    · rw [hown, getElem?_own] at hi
      cases hi
    · rw [getElem?_replaced (.serving urb slice chunk) _ hown, ← calls_eq] at hi
      obtain ⟨n, hlent, hfreed, hn⟩ := h.lent i urb' slice' chunk' hi
      refine ⟨n, (if_neg hown).trans hlent, ?_, hn⟩
      dsimp only [Loans.giveBack]
      split
      · rename_i hdrains
        have hne := hfree _ _ _ _ rfl hself hdrains i _ _ _ hown hi
        rw [hm, Option.toList_some, List.mem_append, List.mem_singleton]
        rintro (hmem | rfl)
        · exact hfreed hmem
        · exact hne (hlent.trans hm.symm)
      · exact hfreed
  · intro n hn
    dsimp only [Loans.giveBack] at hn ⊢
    split at hn
    · rename_i hdrains
      rw [hm, Option.toList_some, List.mem_append, List.mem_singleton] at hn
      rcases hn with hn | rfl
      · exact h.freed n hn
      · exact hleft hdrains
    · exact h.freed n hn

end run

theorem LoanInv.step (h : ep.LoanInv l) (hfree : ep.FreesNoLoan l a)
    (hs : EpStep ep a ep' events) : ep'.LoanInv (l.next ep a) := by
  cases hs with
  | dispatch urb =>
    refine h.frame fun i urb' slice chunk hi => serving_of_append (fun _ _ _ hc => ?_) hi
    rcases ep.entered_cases urb with he | he <;> rw [he] at hc <;> cases hc
  | write buf => exact h.frame fun i urb slice chunk => serving_of_append fun _ _ _ hc => by cases hc
  | stall => exact h.frame fun i urb slice chunk => serving_of_append fun _ _ _ hc => by cases hc
  | clearHalt => exact h.frame fun _ _ _ _ => id
  | unlink => exact h.frame fun _ _ _ _ => id
  | @run pre post call call' next events calls_eq step =>
    have hget : ep.calls[pre.length]? = some call := by rw [calls_eq, getElem?_own]
    rw [Loans.next, hget]
    cases step with
    | serve is_in queued =>
      dsimp only
      rw [if_pos is_in, queued]
      exact h.run_serve calls_eq rfl
    | park is_in none_queued =>
      dsimp only
      rw [if_pos is_in, none_queued]
      exact h.run_none calls_eq rfl fun _ _ _ hc => by cases hc
    | callback is_out | enqueueOut is_out =>
      dsimp only
      rw [is_out, if_neg (by decide)]
      exact h.run_none calls_eq rfl fun _ _ _ hc => by cases hc
    | sendServed urb slice chunk => exact h.run_sent calls_eq rfl hfree
    | _ => exact h.run_none calls_eq rfl fun _ _ _ hc => by cases hc

/-- A dispatch that frees a dbuf which another has a slice of leaves that slice in freed memory. -/
theorem LoanInv.break_ (h : ep.LoanInv l) (hfree : ¬ep.FreesNoLoan l a)
    (hs : EpStep ep a ep' events) : ¬ep'.Allocated (l.next ep a) := by
  unfold FreesNoLoan at hfree
  push Not at hfree
  obtain ⟨i, urb, slice, chunk, rfl, hget, hdrains, j, urb', slice', chunk', hne, hgetj, hsame⟩ := hfree
  obtain ⟨n, hn, -⟩ := h.lent i urb slice chunk hget
  intro hallocated
  cases hs with
  | @run pre post call call' next events calls_eq step =>
    have hafter : (pre ++ call' :: post)[j]? = some (.serving urb' slice' chunk') := by
      rw [getElem?_replaced call _ hne, ← calls_eq]
      exact hgetj
    obtain ⟨m, hm, hnot⟩ := hallocated j urb' slice' chunk' hafter
    rw [Loans.next, hget] at hm hnot
    dsimp only [Loans.giveBack] at hm hnot
    rw [if_neg hne, hsame, hn] at hm
    rw [if_pos hdrains, hn] at hnot
    cases hm
    exact hnot (List.mem_append_right _ (List.mem_singleton_self n))

end EpState

end Usbip
