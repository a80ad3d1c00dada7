import Usbip.Endpoint.Step

/-! The bytes of an IN endpoint that one connection reads and one thread writes.  They reach the
host by two ways: the writer feeds URBs that wait, and the dispatcher slices buffers that wait.
Order is kept because URBs and buffers never wait at the same time. -/

namespace Usbip

open Lib

/-- The bytes that `usbip_send_ret` puts after the header. -/
def payload (urb : Urb) (data : Slice) (actual : Int) : List UInt8 :=
  match urb.direction with
  | .usbIn => data.bytes actual
  | .usbOut => []

@[simp] theorem payload_null (urb : Urb) (actual : Int) : payload urb .null actual = [] := by
  unfold payload
  cases urb.direction <;> simp

theorem payload_within (urb : Urb) (data : Slice) (actual : Int) :
    payload urb data actual <:+: data.block := by
  unfold payload
  cases urb.direction
  · exact List.nil_infix
  · exact Slice.bytes_within _ _

theorem length_payload_le (urb : Urb) (data : Slice) {actual : Int} (h : 0 ≤ actual) :
    ((payload urb data actual).length : Int) ≤ actual := by
  unfold payload
  cases urb.direction
  · simpa using h
  · simp only [Slice.bytes, List.length_take]
    omega

namespace EpEvent

/-- The payload of a `RET_SUBMIT` with status 0. -/
def sent : EpEvent → List UInt8
  | .ret urb status data actual => if status = 0 then payload urb data actual else []
  | _ => []

/-- The bytes given to `usbip_device_write`. -/
def wrote : EpEvent → List UInt8
  | .written buf => buf
  | _ => []

end EpEvent

/-- The bytes of a queued chunk that no URB took. -/
def Dbuf.rest (d : Dbuf) : List UInt8 := d.data.drop d.off.toNat

namespace Call

/-- The bytes that a dispatch took off the queue and has not sent. -/
def inHand : Call → List UInt8
  | .serving urb slice chunk => payload urb slice chunk
  | _ => []

/-- The bytes that a write in progress has not sent. -/
def unsent : Call → List UInt8
  | .write src remaining _ => src.bytes remaining
  | _ => []

def isWrite : Call → Bool
  | .write .. => true
  | _ => false

/-- A write that has popped a URB and not answered it. -/
def isHolding : Call → Bool
  | .write _ _ (some _) => true
  | _ => false

def isDispatch : Call → Bool
  | .halted _ | .checked _ | .serving .. | .delivered _ => true
  | _ => false

/-- A dispatch that has taken a slice and not sent it. -/
def isServing : Call → Bool
  | .serving .. => true
  | _ => false

theorem unsent_of_not_write {c : Call} (h : ¬c.isWrite) : c.unsent = [] := by
  cases c <;> simp_all [isWrite, unsent]

theorem inHand_of_not_serving {c : Call} (h : ¬c.isServing) : c.inHand = [] := by
  cases c <;> simp_all [isServing, inHand]

theorem isWrite_of_isHolding {c : Call} (h : c.isHolding) : c.isWrite := by
  cases c <;> simp_all [isHolding, isWrite]

theorem isDispatch_of_isServing {c : Call} (h : c.isServing) : c.isDispatch := by
  cases c <;> simp_all [isServing, isDispatch]

end Call

/-- One connection's serve thread dispatches IN URBs that ask for some bytes, one after the other,
and one thread writes. -/
def OneReaderOneWriter (t : EpTrace) : EpAct → Prop
  | .dispatch urb =>
    urb.direction = .usbIn ∧ 0 < int32 urb.length ∧ ∀ call ∈ t.ep.calls, ¬call.isDispatch
  | .write _ => ∀ call ∈ t.ep.calls, ¬call.isWrite
  | _ => True

instance (t : EpTrace) : DecidablePred (OneReaderOneWriter t)
  | .dispatch _ => inferInstanceAs (Decidable (_ ∧ _ ∧ _))
  | .write _ => inferInstanceAs (Decidable (∀ _ ∈ _, _))
  | .stall | .clearHalt | .unlink _ | .run _ => isTrue trivial

namespace EpTrace

/-- The payloads of the status-0 replies, in the order sent. -/
def sentBytes (t : EpTrace) : List UInt8 := t.log.flatMap EpEvent.sent

/-- The bytes of all writes so far. -/
def writtenBytes (t : EpTrace) : List UInt8 := t.log.flatMap EpEvent.wrote

/-- The slice in the dispatcher's hands between its section and its reply. -/
def inHandBytes (t : EpTrace) : List UInt8 := t.ep.calls.flatMap Call.inHand

def queuedBytes (t : EpTrace) : List UInt8 := t.ep.inq.flatMap Dbuf.rest

/-- The unsent part of the write in progress. -/
def unsentBytes (t : EpTrace) : List UInt8 := t.ep.calls.flatMap Call.unsent

/-- A piece of one write. -/
def FromWrite (t : EpTrace) (bytes : List UInt8) : Prop :=
  ∃ buf, .written buf ∈ t.log ∧ bytes <:+: buf

/-- Bytes leave in the order written, none is lost or sent twice, each reply carries a piece of one
write no longer than its URB asks for, and parked URBs and queued bytes never wait together. -/
structure Stream (t : EpTrace) : Prop where
  bytes : t.sentBytes ++ t.inHandBytes ++ t.queuedBytes ++ t.unsentBytes = t.writtenBytes
  piece : ∀ urb data actual, .ret urb 0 data actual ∈ t.log →
    t.FromWrite (payload urb data actual) ∧
      ((payload urb data actual).length : Int) ≤ int32 urb.length
  apart : t.ep.pend.urbs = [] ∨ t.ep.inq = []
  window : ∀ src remaining held, .write src remaining (some held) ∈ t.ep.calls → t.ep.inq = []

/-- What a call in progress knows about its own values. -/
def CallOk (t : EpTrace) : Call → Prop
  | .write src remaining held =>
    0 ≤ src.off ∧ 0 ≤ remaining ∧ src.off + remaining = src.block.length ∧
      .written src.block ∈ t.log ∧
      ∀ urb chunk, held = some (urb, chunk) →
        0 < chunk ∧ chunk ≤ remaining ∧ chunk ≤ int32 urb.length
  | .serving urb slice chunk =>
    0 < chunk ∧ chunk ≤ int32 urb.length ∧ t.FromWrite slice.block
  | .delivered _ => False
  | _ => True

/-- What a run with one reader and one writer keeps. -/
structure StreamInv (t : EpTrace) : Prop where
  bytes : t.sentBytes ++ t.inHandBytes ++ t.queuedBytes ++ t.unsentBytes = t.writtenBytes
  piece : ∀ urb data actual, .ret urb 0 data actual ∈ t.log →
    t.FromWrite (payload urb data actual) ∧
      ((payload urb data actual).length : Int) ≤ int32 urb.length
  apart : t.ep.pend.urbs = [] ∨ t.ep.inq = []
  urb : ∀ u ∈ t.ep.carried, u.direction = .usbIn ∧ 0 < int32 u.length
  dbuf : ∀ d ∈ t.ep.inq, 0 ≤ d.off ∧ d.off < d.len ∧ t.FromWrite d.data
  call : ∀ c ∈ t.ep.calls, t.CallOk c
  writers : t.ep.calls.countP Call.isWrite ≤ 1
  readers : t.ep.calls.countP Call.isDispatch ≤ 1
  holding : ∀ c ∈ t.ep.calls, c.isHolding →
    t.ep.inq = [] ∧ ∀ c' ∈ t.ep.calls, ¬c'.isServing
  serving : ∀ c ∈ t.ep.calls, c.isServing → t.ep.pend.urbs = []

theorem FromWrite.mono {t t' : EpTrace} {bytes bytes' : List UInt8} (h : t.FromWrite bytes)
    (hlog : t.log ⊆ t'.log) (hb : bytes' <:+: bytes) : t'.FromWrite bytes' := by
  obtain ⟨buf, hbuf, hin⟩ := h
  exact ⟨buf, hlog hbuf, hb.trans hin⟩

theorem CallOk.mono {t t' : EpTrace} {c : Call} (h : t.CallOk c) (hlog : t.log ⊆ t'.log) :
    t'.CallOk c := by
  cases c with
  | write src remaining held => exact ⟨h.1, h.2.1, h.2.2.1, hlog h.2.2.2.1, h.2.2.2.2⟩
  | serving urb slice chunk => exact ⟨h.1, h.2.1, h.2.2.mono hlog List.infix_rfl⟩
  | delivered urb => exact h
  | _ => trivial

theorem stream_inv_new (onOut : Bool) : (EpTrace.new onOut).StreamInv := by
  constructor <;> simp [EpTrace.new, EpState.new, EpState.carried, sentBytes, inHandBytes, queuedBytes, unsentBytes,
    writtenBytes]

end EpTrace

/-! ### One step of a call -/

/-- At most one element of the list has the property, so none of the others has. -/
theorem not_of_countP_le_one {p : Call → Bool} {pre post : List Call} {call : Call}
    (h : (pre ++ call :: post).countP p ≤ 1) (hc : p call) : ∀ c ∈ pre ++ post, ¬p c := by
  rw [List.countP_append, List.countP_cons_of_pos hc] at h
  intro c hmem hp
  have : 0 < (pre ++ post).countP p := List.countP_pos_iff.mpr ⟨c, hmem, hp⟩
  rw [List.countP_append] at this
  omega

/-- A call that steps into a property had it before, so no more calls have it. -/
theorem countP_step_le {p : Call → Bool} {pre post : List Call} {call call' : Call}
    (h : p call' → p call) : (pre ++ call' :: post).countP p ≤ (pre ++ call :: post).countP p := by
  simp only [List.countP_append, List.countP_cons]
  by_cases hc : p call'
  · simp [hc, h hc]
  · simp only [hc, Bool.false_eq_true, if_false]
    omega

theorem flatMap_nil_of {β : Type} {f : Call → List β} {l : List Call} (h : ∀ c ∈ l, f c = []) :
    l.flatMap f = [] := List.flatMap_eq_nil_iff.mpr h

section CallStep

variable {ep ep' : EpState} {call call' : Call} {events : List EpEvent}

theorem CallStep.isWrite (h : CallStep ep call ep' call' events) (hw : call'.isWrite) :
    call.isWrite := by
  cases h <;> simp_all [Call.isWrite]

theorem CallStep.isDispatch (h : CallStep ep call ep' call' events) (hd : call'.isDispatch) :
    call.isDispatch := by
  cases h <;> simp_all [Call.isDispatch]

end CallStep

/-- The slice of a buffer that an URB takes, and what stays queued of it. -/
theorem Dbuf.serve_rest {d : Dbuf} (hoff : 0 ≤ d.off) {chunk : Int} (hc : 0 ≤ chunk)
    (hle : chunk ≤ d.len - d.off) (rest : List Dbuf) :
    d.rest ++ rest.flatMap Dbuf.rest = (⟨d.data, d.off⟩ : Slice).bytes chunk ++
      (if d.len ≤ d.off + chunk then rest else { d with off := d.off + chunk } :: rest).flatMap
        Dbuf.rest := by
  have hall := Slice.bytes_rest (s := ⟨d.data, d.off⟩) hoff
  split
  · obtain rfl : chunk = d.len - d.off := by omega
    rw [Dbuf.len, hall, Dbuf.rest]
  · have hsplit := Slice.bytes_advance (s := ⟨d.data, d.off⟩) hoff hc
      (show 0 ≤ d.len - d.off - chunk by omega)
    have hrest := Slice.bytes_rest (s := (⟨d.data, d.off + chunk⟩ : Slice))
      (show 0 ≤ d.off + chunk by omega)
    rw [show chunk + (d.len - d.off - chunk) = d.len - d.off by omega, Dbuf.len, hall] at hsplit
    simp only [Slice.advance] at hsplit
    simp only [List.flatMap_cons, Dbuf.rest] at hrest ⊢
    rw [← hsplit, ← hrest, List.append_assoc]
    congr 2
    congr 1
    omega

namespace EpTrace

section Run

variable {t : EpTrace} {pre post : List Call} {call call' : Call} {next : EpState}
  {events : List EpEvent}

/-- The trace after call `pre.length` took a step. -/
def afterRun (t : EpTrace) (pre post : List Call) (call' : Call) (next : EpState)
    (events : List EpEvent) : EpTrace :=
  ⟨{ next with calls := pre ++ call' :: post }, t.log ++ events⟩

theorem StreamInv.inHand_of_holding (hi : t.StreamInv) {c : Call} (hc : c ∈ t.ep.calls)
    (hh : c.isHolding) : t.inHandBytes = [] :=
  flatMap_nil_of fun c' hc' => Call.inHand_of_not_serving ((hi.holding c hc hh).2 c' hc')

theorem StreamInv.run_bytes (hi : t.StreamInv) (hcalls : t.ep.calls = pre ++ call :: post)
    (step : CallStep t.ep call next call' events) :
    (t.afterRun pre post call' next events).sentBytes ++
        (t.afterRun pre post call' next events).inHandBytes ++
        (t.afterRun pre post call' next events).queuedBytes ++
        (t.afterRun pre post call' next events).unsentBytes =
      (t.afterRun pre post call' next events).writtenBytes := by
  have hbytes := hi.bytes
  have hmem : call ∈ t.ep.calls := by simp [hcalls]
  have hok := hi.call call hmem
  have hwriter : call.isWrite → pre.flatMap Call.unsent = [] ∧ post.flatMap Call.unsent = [] :=
    fun hw => by
      have hn := not_of_countP_le_one (hcalls ▸ hi.writers) hw
      exact ⟨flatMap_nil_of fun c hc => Call.unsent_of_not_write (hn c (by simp [hc])),
        flatMap_nil_of fun c hc => Call.unsent_of_not_write (hn c (by simp [hc]))⟩
  have hreader : call.isDispatch → pre.flatMap Call.inHand = [] ∧ post.flatMap Call.inHand = [] :=
    fun hd => by
      have hn := not_of_countP_le_one (hcalls ▸ hi.readers) hd
      have hs : ∀ c ∈ pre ++ post, c.inHand = [] := fun c hc =>
        Call.inHand_of_not_serving fun h => hn c hc (Call.isDispatch_of_isServing h)
      exact ⟨flatMap_nil_of fun c hc => hs c (by simp [hc]),
        flatMap_nil_of fun c hc => hs c (by simp [hc])⟩
  have hholding : call.isHolding → t.inHandBytes = [] ∧ t.ep.inq = [] := fun hh =>
    ⟨hi.inHand_of_holding hmem hh, (hi.holding call hmem hh).1⟩
  simp only [afterRun, sentBytes, inHandBytes, queuedBytes, unsentBytes, writtenBytes,
    List.flatMap_append, List.flatMap_cons, hcalls] at hbytes hholding ⊢
  cases step with
  | sendChunk src remaining urb chunk =>
    obtain ⟨hpre, hpost⟩ := hwriter rfl
    obtain ⟨hhand, hinq⟩ := hholding rfl
    obtain ⟨hoff, hrem, hend, -, hheld⟩ := hok
    obtain ⟨hpos, hle, -⟩ := hheld urb chunk rfl
    have hdir := (hi.urb urb (EpState.carried_of_held hmem (by simp [Call.holds]))).1
    have hsplit := Slice.bytes_advance hoff hpos.le (show 0 ≤ remaining - chunk by omega)
    rw [show chunk + (remaining - chunk) = remaining by omega] at hsplit
    simp only [List.append_eq_nil_iff] at hhand
    simp only [hpre, hpost, hinq, hhand, Call.inHand, Call.unsent, EpEvent.sent, EpEvent.wrote,
      payload, hdir, if_true, List.flatMap_nil, List.flatMap_cons, List.append_nil,
      List.nil_append] at hbytes ⊢
    rw [List.append_assoc, hsplit, hbytes]
  | feed => simpa [Call.inHand, Call.unsent] using hbytes
  | queueRest some_left none_parked =>
    obtain ⟨hpre, hpost⟩ := hwriter rfl
    simpa [hpre, hpost, Call.inHand, Call.unsent, Dbuf.rest] using hbytes
  | @finish src remaining none_left =>
    obtain ⟨hpre, hpost⟩ := hwriter rfl
    have hnone : src.bytes remaining = [] := by
      simp [Slice.bytes, Int.toNat_of_nonpos none_left]
    simpa [hpre, hpost, hnone, Call.inHand, Call.unsent] using hbytes
  | sendStall => simpa [Call.inHand, Call.unsent, EpEvent.sent, EpEvent.wrote,
      usbipStatusStall] using hbytes
  | stallDone => simpa [Call.inHand, Call.unsent] using hbytes
  | sendHalted => simpa [Call.inHand, Call.unsent, EpEvent.sent, EpEvent.wrote,
      usbipStatusStall] using hbytes
  | @serve urb dbuf rest is_in queued =>
    obtain ⟨hpre, hpost⟩ := hreader rfl
    obtain ⟨hoff, hlt, -⟩ := hi.dbuf dbuf (by simp [queued])
    obtain ⟨-, hlen⟩ := hi.urb urb (EpState.carried_of_held hmem (by simp [Call.holds]))
    have hchunk := capLength_pos hlen (show 0 < dbuf.len - dbuf.off by omega)
    have hserve := Dbuf.serve_rest hoff hchunk.le (capLength_le _ _) rest
    simp only [queued, hpre, hpost, Call.inHand, Call.unsent, payload, is_in, List.flatMap_nil,
      List.flatMap_cons, List.append_nil, List.nil_append] at hbytes ⊢
    rw [hserve] at hbytes
    simpa using hbytes
  | park is_in none_queued => simpa [none_queued, Call.inHand, Call.unsent] using hbytes
  | callback => simpa [Call.inHand, Call.unsent, EpEvent.sent, EpEvent.wrote] using hbytes
  | enqueueOut => simpa [Call.inHand, Call.unsent] using hbytes
  | sendServed urb slice chunk =>
    obtain ⟨hpre, hpost⟩ := hreader rfl
    simpa [hpre, hpost, Call.inHand, Call.unsent, EpEvent.sent, EpEvent.wrote] using hbytes
  | sendDelivered => simpa [Call.inHand, Call.unsent, EpEvent.sent, EpEvent.wrote] using
      hbytes

/-- A log that grew by `events` has the pieces of writes that it had. -/
theorem log_afterRun : t.log ⊆ (t.afterRun pre post call' next events).log :=
  List.subset_append_left _ _

theorem StreamInv.run_call (hi : t.StreamInv) (hcalls : t.ep.calls = pre ++ call :: post)
    (step : CallStep t.ep call next call' events) :
    ∀ c ∈ pre ++ call' :: post, (t.afterRun pre post call' next events).CallOk c := by
  have hmem : call ∈ t.ep.calls := by simp [hcalls]
  have hok := hi.call call hmem
  have hheld : ∀ u ∈ call.holds, u.direction = .usbIn ∧ 0 < int32 u.length := fun u hu =>
    hi.urb u (EpState.carried_of_held hmem hu)
  intro c hc
  by_cases hother : c ∈ pre ∨ c ∈ post
  · refine (hi.call c ?_).mono log_afterRun
    rw [hcalls]
    simp
    tauto
  obtain rfl : c = call' := by simp at hc hother; tauto
  cases step with
  | sendChunk src remaining urb chunk =>
    obtain ⟨hoff, hrem, hend, hlog, hheld⟩ := hok
    obtain ⟨hpos, hle, -⟩ := hheld urb chunk rfl
    exact ⟨by simp; omega, by omega, by simp; omega, log_afterRun hlog, by simp⟩
  | @feed src remaining urb pend some_left popped =>
    obtain ⟨hoff, hrem, hend, hlog, -⟩ := hok
    refine ⟨hoff, hrem, hend, log_afterRun hlog, ?_⟩
    rintro u chunk ⟨⟩
    have hparked : urb ∈ t.ep.pend.urbs := by simp [(PendQueue.pop_some popped).1]
    obtain ⟨-, hlen⟩ := hi.urb urb (EpState.carried_of_parked hparked)
    exact ⟨capLength_pos hlen some_left, capLength_le _ _, capLength_le_length hlen⟩
  | @serve urb dbuf rest is_in queued =>
    obtain ⟨hoff, hlt, hfrom⟩ := hi.dbuf dbuf (by simp [queued])
    obtain ⟨-, hlen⟩ := hheld urb (by simp [Call.holds])
    exact ⟨capLength_pos hlen (by omega), capLength_le_length hlen,
      hfrom.mono log_afterRun List.infix_rfl⟩
  | callback is_out =>
    have := (hheld _ (List.mem_singleton_self _)).1
    rw [is_out] at this
    cases this
  | enqueueOut is_out =>
    have := (hheld _ (List.mem_singleton_self _)).1
    rw [is_out] at this
    cases this
  | _ => trivial

theorem StreamInv.run_dbuf (hi : t.StreamInv) (hcalls : t.ep.calls = pre ++ call :: post)
    (step : CallStep t.ep call next call' events) :
    ∀ d ∈ next.inq, 0 ≤ d.off ∧ d.off < d.len ∧
      (t.afterRun pre post call' next events).FromWrite d.data := by
  have hmem : call ∈ t.ep.calls := by simp [hcalls]
  have hold : ∀ d ∈ t.ep.inq, 0 ≤ d.off ∧ d.off < d.len ∧
      (t.afterRun pre post call' next events).FromWrite d.data := fun d hd => by
    obtain ⟨h1, h2, h3⟩ := hi.dbuf d hd
    exact ⟨h1, h2, h3.mono log_afterRun List.infix_rfl⟩
  cases step with
  | @queueRest src remaining some_left none_parked =>
    intro d hd
    obtain ⟨hoff, hrem, hend, hlog, -⟩ := hi.call _ hmem
    rcases List.mem_append.mp hd with hd | hd
    · exact hold d hd
    · obtain rfl := List.mem_singleton.mp hd
      refine ⟨le_refl _, ?_, src.block, log_afterRun hlog, Slice.bytes_within _ _⟩
      rw [Dbuf.len, Slice.length_bytes hrem ⟨hoff, hend.le⟩]
      exact some_left
  | @serve urb dbuf rest is_in queued =>
    intro d hd
    have hd' : d ∈ rest ∨ (¬dbuf.len ≤ dbuf.off + capLength urb.length (dbuf.len - dbuf.off) ∧
        d = { dbuf with off := dbuf.off + capLength urb.length (dbuf.len - dbuf.off) }) := by
      split at hd
      · exact Or.inl hd
      · rename_i hnot
        exact (List.mem_cons.mp hd).elim (fun h => Or.inr ⟨hnot, h⟩) Or.inl
    rcases hd' with hd | ⟨hnot, rfl⟩
    · exact hold d (by simp [queued, hd])
    · obtain ⟨hoff, hlt, hfrom⟩ := hold dbuf (by simp [queued])
      obtain ⟨-, hlen⟩ := hi.urb urb (EpState.carried_of_held hmem (by simp [Call.holds]))
      have := capLength_pos hlen (show 0 < dbuf.len - dbuf.off by omega)
      exact ⟨by simp only; omega, by simp only [Dbuf.len] at hnot ⊢; omega, hfrom⟩
  | _ => exact hold

theorem StreamInv.run_piece (hi : t.StreamInv) (hcalls : t.ep.calls = pre ++ call :: post)
    (step : CallStep t.ep call next call' events) : ∀ urb data actual,
      .ret urb 0 data actual ∈ (t.afterRun pre post call' next events).log →
      (t.afterRun pre post call' next events).FromWrite (payload urb data actual) ∧
        ((payload urb data actual).length : Int) ≤ int32 urb.length := by
  have hmem : call ∈ t.ep.calls := by simp [hcalls]
  have hok := hi.call call hmem
  intro urb data actual hret
  rcases List.mem_append.mp hret with hold | hnew
  · obtain ⟨h1, h2⟩ := hi.piece urb data actual hold
    exact ⟨h1.mono log_afterRun List.infix_rfl, h2⟩
  clear hret
  cases step with
  | sendChunk src remaining urb chunk =>
    obtain ⟨hoff, hrem, hend, hlog, hheld⟩ := hok
    obtain ⟨hpos, -, hlen⟩ := hheld _ chunk rfl
    obtain ⟨⟩ := List.mem_singleton.mp hnew
    exact ⟨⟨_, log_afterRun hlog, payload_within _ _ _⟩,
      (length_payload_le _ _ hpos.le).trans hlen⟩
  | sendServed urb slice chunk =>
    obtain ⟨hpos, hlen, hfrom⟩ := hok
    obtain ⟨⟩ := List.mem_singleton.mp hnew
    exact ⟨hfrom.mono log_afterRun (payload_within _ _ _),
      (length_payload_le _ _ hpos.le).trans hlen⟩
  | sendDelivered urb => exact hok.elim
  | _ => simp [usbipStatusStall] at hnew

theorem StreamInv.run_apart (hi : t.StreamInv)
    (step : CallStep t.ep call next call' events) : next.pend.urbs = [] ∨ next.inq = [] := by
  have hapart := hi.apart
  cases step with
  | feed _ popped =>
    obtain ⟨hurbs, -⟩ := PendQueue.pop_some popped
    simp [hurbs] at hapart
    exact Or.inr hapart
  | queueRest _ none_parked => exact Or.inl none_parked
  | serve _ queued =>
    simp [queued] at hapart
    exact Or.inl hapart
  | park _ none_queued => exact Or.inr none_queued
  | _ => exact hapart

/-- A write comes to hold an URB only while nothing is queued and no slice is on its way. -/
theorem StreamInv.run_holding (hi : t.StreamInv) (hcalls : t.ep.calls = pre ++ call :: post)
    (step : CallStep t.ep call next call' events) :
    ∀ c ∈ pre ++ call' :: post, c.isHolding →
      next.inq = [] ∧ ∀ c' ∈ pre ++ call' :: post, ¬c'.isServing := by
  have hmem : call ∈ t.ep.calls := by simp [hcalls]
  have hsplit : ∀ c, c ∈ pre ++ call' :: post ↔ c ∈ pre ++ post ∨ c = call' := by simp; tauto
  have hin : ∀ c ∈ pre ++ post, c ∈ t.ep.calls := fun c hc => by
    simp [hcalls] at hc ⊢
    tauto
  -- what a holding call in `pre ++ post` says
  have hothers : ∀ c ∈ pre ++ post, c.isHolding → t.ep.inq = [] ∧ ¬call.isWrite ∧
      ∀ c' ∈ pre ++ post, ¬c'.isServing := fun c hc hh => by
    obtain ⟨h1, h2⟩ := hi.holding c (hin c hc) hh
    refine ⟨h1, fun hw => ?_, fun c' hc' => h2 c' (hin c' hc')⟩
    exact not_of_countP_le_one (hcalls ▸ hi.writers) hw c hc (Call.isWrite_of_isHolding hh)
  intro c hc hh
  rcases (hsplit c).mp hc with hc | rfl
  · obtain ⟨hinq, hw, hs⟩ := hothers c hc hh
    cases step with
    | serve _ queued => simp [queued] at hinq
    | queueRest => exact absurd rfl hw
    | _ =>
      refine ⟨hinq, fun c' hc' => ?_⟩
      rcases (hsplit c').mp hc' with hc' | rfl
      · exact hs c' hc'
      · simp [Call.isServing]
  · cases step with
    | feed _ popped =>
      obtain ⟨hurbs, -⟩ := PendQueue.pop_some popped
      have hinq : t.ep.inq = [] := by simpa [hurbs] using hi.apart
      refine ⟨hinq, fun c' hc' => ?_⟩
      rcases (hsplit c').mp hc' with hc' | rfl
      · intro hs
        have := hi.serving c' (hin c' hc') hs
        simp [hurbs] at this
      · simp [Call.isServing]
    | _ => simp [Call.isHolding] at hh

/-- A dispatch comes to hold a slice only while no URB is parked. -/
theorem StreamInv.run_serving (hi : t.StreamInv) (hcalls : t.ep.calls = pre ++ call :: post)
    (step : CallStep t.ep call next call' events) :
    ∀ c ∈ pre ++ call' :: post, c.isServing → next.pend.urbs = [] := by
  have hin : ∀ c ∈ pre ++ post, c ∈ t.ep.calls := fun c hc => by
    simp [hcalls] at hc ⊢
    tauto
  intro c hc hs
  by_cases hother : c ∈ pre ++ post
  · have hnil := hi.serving c (hin c hother) hs
    cases step with
    | feed _ popped =>
      obtain ⟨hurbs, -⟩ := PendQueue.pop_some popped
      simp [hurbs] at hnil
    | park =>
      exact absurd (Call.isDispatch_of_isServing hs)
        (not_of_countP_le_one (hcalls ▸ hi.readers) rfl c hother)
    | _ => exact hnil
  · obtain rfl : c = call' := by simp at hc hother; tauto
    cases step with
    | serve _ queued => simpa [queued] using hi.apart
    | _ => simp [Call.isServing] at hs

theorem StreamInv.afterRun (hi : t.StreamInv) (hcalls : t.ep.calls = pre ++ call :: post)
    (step : CallStep t.ep call next call' events) :
    (t.afterRun pre post call' next events).StreamInv where
  bytes := hi.run_bytes hcalls step
  piece := hi.run_piece hcalls step
  apart := by have := hi.run_apart step; exact this
  urb u hu := by
    rcases (EpStep.run hcalls step).carried hu with hu | ⟨_, h, -⟩
    · exact hi.urb u hu
    · cases h
  dbuf := by have := hi.run_dbuf hcalls step; exact this
  call := hi.run_call hcalls step
  writers := (countP_step_le step.isWrite).trans (hcalls ▸ hi.writers)
  readers := (countP_step_le step.isDispatch).trans (hcalls ▸ hi.readers)
  holding := by have := hi.run_holding hcalls step; exact this
  serving := by have := hi.run_serving hcalls step; exact this

end Run

/-! ### One step of the endpoint -/

/-- A new call that is neither a write in progress with a URB nor a dispatch with a slice. -/
theorem StreamInv.enter {t : EpTrace} (hi : t.StreamInv) {pre post : List Call} {c : Call}
    {accepted : Nat} {events : List EpEvent} (hcalls : t.ep.calls = pre ++ post)
    (hsent : events.flatMap EpEvent.sent = []) (hwrote : events.flatMap EpEvent.wrote = c.unsent)
    (hret : ∀ urb data actual, .ret urb 0 data actual ∉ events) (hhand : ¬c.isServing)
    (hheld : ¬c.isHolding)
    (hok : EpTrace.CallOk ⟨t.ep, t.log ++ events⟩ c)
    (hholds : ∀ u ∈ c.holds, u.direction = .usbIn ∧ 0 < int32 u.length)
    (hwriter : c.isWrite → ∀ c' ∈ t.ep.calls, ¬c'.isWrite)
    (hreader : c.isDispatch → ∀ c' ∈ t.ep.calls, ¬c'.isDispatch) :
    EpTrace.StreamInv ⟨{ t.ep with calls := pre ++ c :: post, accepted }, t.log ++ events⟩ := by
  have hlog : t.log ⊆ t.log ++ events := List.subset_append_left _ _
  have hmem : ∀ c' ∈ pre ++ c :: post, c' ∈ t.ep.calls ∨ c' = c := by
    intro c' hc'
    rw [hcalls]
    simp at hc' ⊢
    tauto
  have hafter : c.isWrite → post.flatMap Call.unsent = [] := fun hw => flatMap_nil_of fun c' hc' =>
    Call.unsent_of_not_write (hwriter hw c' (by simp [hcalls, hc']))
  have count : ∀ p : Call → Bool, t.ep.calls.countP p ≤ 1 →
      (p c → ∀ c' ∈ t.ep.calls, ¬p c') → (pre ++ c :: post).countP p ≤ 1 := fun p h1 h2 => by
    rw [hcalls, List.countP_append] at h1
    rw [List.countP_append, List.countP_cons]
    split
    · rename_i hp
      have hnone := List.countP_eq_zero.mpr (h2 hp)
      rw [hcalls, List.countP_append] at hnone
      omega
    · omega
  constructor
  · have hbytes := hi.bytes
    have hmove : c.unsent ++ post.flatMap Call.unsent = post.flatMap Call.unsent ++ c.unsent := by
      by_cases hw : c.isWrite
      · simp [hafter hw]
      · simp [Call.unsent_of_not_write hw]
    simp only [sentBytes, inHandBytes, queuedBytes, unsentBytes, writtenBytes, hcalls,
      List.flatMap_append, List.flatMap_cons, List.nil_append, List.append_nil, hsent, hwrote,
      Call.inHand_of_not_serving hhand, hmove] at hbytes ⊢
    rw [← hbytes]
    simp only [List.append_assoc]
  · intro urb data actual hmem
    rcases List.mem_append.mp hmem with hmem | hmem
    · obtain ⟨h1, h2⟩ := hi.piece urb data actual hmem
      exact ⟨h1.mono hlog List.infix_rfl, h2⟩
    · exact absurd hmem (hret urb data actual)
  · exact hi.apart
  · intro u hu
    rcases EpState.mem_carried.mp hu with hparked | ⟨c', hc', hin⟩
    · exact hi.urb u (EpState.carried_of_parked hparked)
    · rcases hmem c' hc' with hc' | rfl
      · exact hi.urb u (EpState.carried_of_held hc' hin)
      · exact hholds u hin
  · intro d hd
    obtain ⟨h1, h2, h3⟩ := hi.dbuf d hd
    exact ⟨h1, h2, h3.mono hlog List.infix_rfl⟩
  · intro c' hc'
    rcases hmem c' hc' with hc' | rfl
    · exact (hi.call c' hc').mono hlog
    · exact hok.mono (List.Subset.refl _)
  · exact count _ hi.writers hwriter
  · exact count _ hi.readers hreader
  · intro c' hc' hh
    rcases hmem c' hc' with hc' | rfl
    · obtain ⟨h1, h2⟩ := hi.holding c' hc' hh
      refine ⟨h1, fun c'' hc'' => ?_⟩
      rcases hmem c'' hc'' with hc'' | rfl
      · exact h2 c'' hc''
      · exact hhand
    · exact absurd hh hheld
  · intro c' hc' hs
    rcases hmem c' hc' with hc' | rfl
    · exact hi.serving c' hc' hs
    · exact absurd hs hhand

/-- Events with no bytes, and URBs taken off the pending list, with no call concerned. -/
theorem StreamInv.quiet {t : EpTrace} (hi : t.StreamInv) {pend : PendQueue} {halted : Bool}
    {events : List EpEvent} (hsub : ∀ u ∈ pend.urbs, u ∈ t.ep.pend.urbs)
    (hquiet : ∀ e ∈ events, e.sent = [] ∧ e.wrote = [] ∧
      ∀ urb data actual, e ≠ .ret urb 0 data actual) :
    EpTrace.StreamInv ⟨{ t.ep with pend, halted }, t.log ++ events⟩ := by
  have hlog : t.log ⊆ t.log ++ events := List.subset_append_left _ _
  have hsent : events.flatMap EpEvent.sent = [] :=
    List.flatMap_eq_nil_iff.mpr fun e he => (hquiet e he).1
  have hwrote : events.flatMap EpEvent.wrote = [] :=
    List.flatMap_eq_nil_iff.mpr fun e he => (hquiet e he).2.1
  have hempty : t.ep.pend.urbs = [] → pend.urbs = [] := fun h =>
    List.eq_nil_iff_forall_not_mem.mpr fun u hu => by simpa [h] using hsub u hu
  constructor
  · have := hi.bytes
    simp only [sentBytes, inHandBytes, queuedBytes, unsentBytes, writtenBytes,
      List.flatMap_append, hsent, hwrote, List.append_nil] at this ⊢
    exact this
  · intro urb data actual hmem
    rcases List.mem_append.mp hmem with hmem | hmem
    · obtain ⟨h1, h2⟩ := hi.piece urb data actual hmem
      exact ⟨h1.mono hlog List.infix_rfl, h2⟩
    · exact absurd rfl ((hquiet _ hmem).2.2 urb data actual)
  · exact hi.apart.imp_left hempty
  · intro u hu
    refine hi.urb u ?_
    rw [EpState.mem_carried] at hu ⊢
    exact hu.imp_left (hsub u)
  · intro d hd
    obtain ⟨h1, h2, h3⟩ := hi.dbuf d hd
    exact ⟨h1, h2, h3.mono hlog List.infix_rfl⟩
  · exact fun c hc => (hi.call c hc).mono hlog
  · exact hi.writers
  · exact hi.readers
  · exact hi.holding
  · exact fun c hc hs => hempty (hi.serving c hc hs)

theorem StreamInv.step {t t' : EpTrace} {a : EpAct} (hi : t.StreamInv)
    (hc : OneReaderOneWriter t a) (hs : t.step a = some t') : t'.StreamInv := by
  obtain ⟨events, hstep, hlog⟩ := step_some hs
  obtain ⟨ep', log'⟩ := t'
  subst hlog
  cases EpState.step_step hstep with
  | dispatch urb =>
    obtain ⟨hdir, hlen, hidle⟩ := hc
    have hc := EpState.entered_cases t.ep urb
    refine hi.enter (List.append_nil _).symm rfl ?_ (by simp) ?_ ?_ ?_ ?_ ?_ (fun _ => hidle) <;>
      rcases hc with hc | hc <;>
      simp_all [Call.unsent, Call.isServing, Call.isHolding, CallOk, Call.holds, Call.isWrite]
  | write buf =>
    refine hi.enter (List.append_nil _).symm ?_ ?_ ?_ ?_ ?_ ?_ ?_ (fun _ => hc) ?_ <;>
      simp [Call.unsent, Call.isServing, Call.isHolding, CallOk, Call.holds, Call.isDispatch,
        EpEvent.sent, EpEvent.wrote, Slice.bytes]
  | stall =>
    have hfirst : EpTrace.StreamInv
        ⟨{ t.ep with calls := t.ep.calls ++ [.stall t.ep.pend.urbs] }, t.log ++ []⟩ := by
      refine hi.enter (List.append_nil _).symm ?_ ?_ ?_ ?_ ?_ ?_
        (fun u hu => hi.urb u (EpState.carried_of_parked hu)) ?_ ?_ <;>
        simp [Call.unsent, Call.isServing, Call.isHolding, CallOk, Call.isWrite, Call.isDispatch]
    have : EpTrace.StreamInv ⟨{ t.ep with
        pend := t.ep.pend.takeAll.2, halted := true, calls := t.ep.calls ++ [.stall t.ep.pend.urbs] },
        t.log ++ [] ++ []⟩ := hfirst.quiet (by simp) (by simp)
    simpa using this
  | clearHalt => exact hi.quiet (fun _ h => h) (by simp)
  | unlink n =>
    refine hi.quiet (fun u hu => ?_) ?_
    · rw [PendQueue.unlink, PendQueue.urbs_unlinkWhere] at hu
      exact List.mem_of_mem_filter hu
    · intro e he
      obtain ⟨urb, -, rfl⟩ := List.mem_map.mp he
      exact ⟨rfl, rfl, fun _ _ _ h => by cases h⟩
  | run calls_eq step => exact hi.afterRun calls_eq step

theorem StreamInv.stream {t : EpTrace} (hi : t.StreamInv) : t.Stream where
  bytes := hi.bytes
  piece := hi.piece
  apart := hi.apart
  window _ _ _ hmem := (hi.holding _ hmem rfl).1

/-- At every moment of every run with one reader and one writer, what was sent, then what a
dispatch is about to send, then what is queued, then what the write in progress has left, is what
was written. -/
theorem stream_throughout (onOut : Bool) {acts : List EpAct}
    (hg : Guarded EpTrace.step OneReaderOneWriter (.new onOut) acts) :
    Throughout EpTrace.step Stream (.new onOut) acts :=
  throughout_of_guarded (fun _ => StreamInv.stream) (fun _ _ _ hi hc hs => hi.step hc hs)
    (stream_inv_new onOut) hg

/-- A write that is queued and sliced, then one that feeds a parked URB and is cut in two. -/
def chunkedRun : List EpAct :=
  [.write [1, 2, 3], .run 0, .dispatch (.bulkIn 0 1 2), .run 1, .run 1, .dispatch (.bulkIn 0 2 8),
    .run 2, .run 2, .dispatch (.bulkIn 0 3 1), .run 3, .write [4, 5], .run 4, .run 4, .run 4]

theorem stream_throughout_chunkedRun :
    Throughout EpTrace.step Stream (.new false) chunkedRun := by
  refine stream_throughout false ?_
  decide

end EpTrace

end Usbip
