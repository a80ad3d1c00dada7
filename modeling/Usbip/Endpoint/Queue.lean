import Usbip.Endpoint.Alone

/-! An endpoint on which no URB waits, as a queue of byte strings: what each call does to the queue
when it runs to its end. -/

namespace Usbip

/-- What a host can find on an endpoint. -/
structure PipeQueue where
  /-- the bytes for the host, in the pieces in which they were written -/
  inq : List (List UInt8)
  /-- the payloads for `usbip_device_read` -/
  outq : List (List UInt8)
  halted : Bool

namespace PipeQueue

def empty : PipeQueue := ⟨[], [], false⟩

def write (q : PipeQueue) (bytes : List UInt8) : PipeQueue :=
  { q with inq := q.inq ++ if bytes = [] then [] else [bytes] }

/-- What a transfer of `len` bytes gets: the first piece, or the start of it. -/
def got (len : Nat) (q : PipeQueue) : List UInt8 := (q.inq.headD []).take len

/-- What such a transfer leaves. -/
def drop (len : Nat) (q : PipeQueue) : PipeQueue :=
  { q with
    inq := match q.inq with
      | [] => []
      | piece :: rest => if piece.length ≤ len then rest else piece.drop len :: rest }

end PipeQueue

/-- No URB is parked, and the queues hold the bytes. -/
structure EpState.Shows (ep : EpState) (q : PipeQueue) : Prop where
  parked : ep.pend.urbs = []
  inq : ep.inq.map Dbuf.rest = q.inq
  left : ∀ d ∈ ep.inq, 0 ≤ d.off ∧ d.off < d.len
  outq : ep.outq = q.outq
  halted : ep.halted = q.halted

variable {ep : EpState} {q : PipeQueue}

theorem EpState.Shows.new (onOut : Bool) : (EpState.new onOut).Shows .empty where
  parked := PendQueue.urbs_empty
  inq := rfl
  left _ h := nomatch h
  outq := rfl
  halted := rfl

theorem EpState.Shows.clearHalt (h : ep.Shows q) :
    EpState.Shows { ep with halted := false } { q with halted := false } :=
  ⟨h.parked, h.inq, h.left, h.outq, rfl⟩

/-- A write with no URB parked joins the queue, and no reply is sent. -/
theorem EpState.Shows.writeAlone (h : ep.Shows q) (bytes : List UInt8) :
    (ep.writeAlone bytes).1.Shows (q.write bytes) ∧ (ep.writeAlone bytes).2 = [] := by
  have hpop : ep.pend.pop = none := PendQueue.pop_none.mpr h.parked
  have hsteps : ep.stepsLeft (.write ⟨bytes, 0⟩ bytes.length none) = 1 := by
    rw [EpState.stepsLeft, h.parked]
    rfl
  rw [EpState.writeAlone, EpState.runAlone, hsteps]
  cases bytes with
  | nil =>
    refine ⟨⟨h.parked, ?_, h.left, h.outq, h.halted⟩, rfl⟩
    exact h.inq.trans (List.append_nil _).symm
  | cons b rest =>
    have hsection : ep.writeSection ⟨b :: rest, 0⟩ (b :: rest).length =
        ({ ep with inq := ep.inq ++ [⟨b :: rest, 0⟩] }, .done, []) := by
      have hpos : 0 < ((b :: rest).length : Int) := Int.ofNat_lt.mpr (Nat.succ_pos _)
      rw [EpState.writeSection, if_pos hpos, hpop]
      simp [Slice.bytes]
    rw [EpState.runSteps, EpState.runCall, hsection]
    refine ⟨⟨h.parked, ?_, ?_, h.outq, h.halted⟩, rfl⟩
    · show (ep.inq ++ [(⟨b :: rest, 0⟩ : Dbuf)]).map Dbuf.rest = q.inq ++ [b :: rest]
      rw [List.map_append, h.inq]
      rfl
    · intro d hd
      rcases List.mem_append.mp hd with hd | hd
      · exact h.left d hd
      · obtain rfl := List.mem_singleton.mp hd
        exact ⟨Int.le_refl 0, Int.ofNat_lt.mpr (Nat.succ_pos _)⟩

/-- A halt with no URB parked has none to answer. -/
theorem EpState.Shows.stallAlone (h : ep.Shows q) :
    ep.stallAlone.1.Shows { q with halted := true } ∧ ep.stallAlone.2 = [] := by
  have hnone : ep.pend.takeAll.1 = [] := h.parked
  have hstall : ep.stallAlone = ({ ep with pend := ep.pend.takeAll.2, halted := true }, []) := by
    rw [EpState.stallAlone, hnone]
    rfl
  rw [hstall]
  exact ⟨⟨ep.pend.urbs_takeAll, h.inq, h.left, h.outq, rfl⟩, rfl⟩

section

variable (urb : Urb)

theorem EpState.Shows.dispatch_halted (h : ep.Shows q) (hhalted : q.halted = true) :
    (ep.dispatchAlone urb).1.Shows q ∧
      (ep.dispatchAlone urb).2 = [.ret (ep.submitted urb) usbipStatusStall .null 0] := by
  rw [dispatchAlone_halted urb (h.halted.trans hhalted)]
  exact ⟨⟨h.parked, h.inq, h.left, h.outq, h.halted⟩, rfl⟩

/-- A payload goes to the callback, or to the queue of an endpoint that has none. -/
theorem EpState.Shows.dispatch_out (h : ep.Shows q) (hopen : q.halted = false)
    (hdir : urb.direction = .usbOut) :
    (ep.dispatchAlone urb).1.Shows
        (if ep.onOut then q else { q with outq := q.outq ++ [urb.data] }) ∧
      (ep.dispatchAlone urb).2 = (if ep.onOut then [.onOut urb.data] else []) ++
        [.ret (ep.submitted urb) 0 .null urb.data.length] := by
  have hhalted : ep.halted = false := h.halted.trans hopen
  cases hout : ep.onOut with
  | true =>
    rw [dispatchAlone_out urb hhalted hdir hout]
    exact ⟨⟨h.parked, h.inq, h.left, h.outq, h.halted⟩, rfl⟩
  | false =>
    have hent : ep.entered urb = .checked (ep.submitted urb) := if_neg (by simp [hhalted])
    have hdispatch : ep.dispatchAlone urb = ({ ep with
        accepted := ep.accepted + 1, outq := ep.outq ++ [urb.data] },
        [.ret (ep.submitted urb) 0 .null urb.data.length]) := by
      rw [EpState.dispatchAlone, hent]
      simp [EpState.runAlone, EpState.stepsLeft, EpState.runSteps, EpState.runCall,
        EpState.submitted, hdir, EpState.dispatchOut, hout]
    rw [hdispatch]
    exact ⟨⟨h.parked, h.inq, h.left, congrArg (· ++ [urb.data]) h.outq, h.halted⟩, rfl⟩

/-- The chunk of a buffer that an IN transfer takes is as long as what it gets. -/
theorem capLength_rest {d : Dbuf} (hoff : 0 ≤ d.off) (hleft : d.off < d.len) {length : UInt32}
    {len : Nat} (hlen : int32 length = len) (hpos : 0 < len) :
    capLength length (d.len - d.off) = (d.rest.take len).length := by
  have hne : length ≠ 0 := by
    rintro rfl
    rw [show int32 0 = 0 from rfl] at hlen
    omega
  have hrest : (d.rest.length : Int) = d.len - d.off := by
    rw [Dbuf.rest, List.length_drop, Dbuf.len] at *
    omega
  rw [capLength, List.length_take, hlen]
  by_cases hlt : (len : Int) < d.len - d.off
  · rw [if_pos ⟨hne, hlt⟩]
    omega
  · rw [if_neg fun h => hlt h.2]
    omega

/-- An IN transfer takes its slice of the first piece. -/
theorem EpState.Shows.dispatch_in (h : ep.Shows q) (hopen : q.halted = false)
    (hdir : urb.direction = .usbIn) (hsome : q.inq ≠ []) {len : Nat} (hlen : int32 urb.length = len)
    (hpos : 0 < len) : (ep.dispatchAlone urb).1.Shows (q.drop len) ∧ ∃ slice,
      (ep.dispatchAlone urb).2 = [.ret (ep.submitted urb) 0 slice (q.got len).length] ∧
      slice.bytes (q.got len).length = q.got len := by
  have hhalted : ep.halted = false := h.halted.trans hopen
  have hinq := h.inq
  have hleft := h.left
  cases hqueue : ep.inq with
  | nil =>
    rw [hqueue] at hinq
    exact absurd hinq.symm hsome
  | cons d rest =>
    rw [hqueue] at hinq hleft
    obtain ⟨hoff, hlt⟩ := hleft d List.mem_cons_self
    have hgot : q.got len = d.rest.take len := by
      rw [PipeQueue.got, ← hinq]
      rfl
    have hchunk := capLength_rest hoff hlt hlen hpos
    have hdispatch := dispatchAlone_serve urb hhalted hdir hqueue
    dsimp only at hdispatch
    rw [hchunk] at hdispatch
    rw [hdispatch, hgot]
    have hlength : d.rest.length = d.data.length - d.off.toNat := List.length_drop
    have htake : (d.rest.take len).length = min len d.rest.length := List.length_take
    have hdrained : d.len ≤ d.off + (d.rest.take len).length ↔ d.rest.length ≤ len := by
      rw [Dbuf.len] at hlt ⊢
      omega
    refine ⟨⟨h.parked, ?_, ?_, h.outq, h.halted⟩, ⟨d.data, d.off⟩, rfl, ?_⟩
    · show (if _ then _ else _ : List Dbuf).map Dbuf.rest = (q.drop len).inq
      rw [PipeQueue.drop, ← hinq]
      simp only [List.map_cons, hdrained]
      by_cases hall : d.rest.length ≤ len
      · rw [if_pos hall, if_pos hall]
      · rw [if_neg hall, if_neg hall, List.map_cons]
        refine congrArg (· :: _) ?_
        rw [Dbuf.rest, Dbuf.rest, List.drop_drop]
        refine congrArg (fun n => d.data.drop n) ?_
        show (d.off + ((d.rest.take len).length : Int)).toNat = d.off.toNat + len
        omega
    · intro d' hd'
      by_cases hall : d.len ≤ d.off + (d.rest.take len).length
      · rw [if_pos hall] at hd'
        exact hleft d' (List.mem_cons_of_mem _ hd')
      · rw [if_neg hall] at hd'
        rcases List.mem_cons.mp hd' with rfl | hd'
        · exact ⟨Int.add_nonneg hoff (Int.natCast_nonneg _), Int.not_le.mp hall⟩
        · exact hleft d' (List.mem_cons_of_mem _ hd')
    · show (d.data.drop d.off.toNat).take ((d.rest.take len).length : Int).toNat = d.rest.take len
      rw [Int.toNat_natCast, htake]
      exact List.take_eq_take_min.symm

end

end Usbip
