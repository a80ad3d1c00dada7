import Usbip.Endpoint.Step

/-! The bytes of an OUT endpoint without a callback.  Each payload waits as a block of its own, and
`usbip_device_read` takes a whole block off the queue, however much of it the buffer holds. -/

namespace Usbip

open Lib

/-- `usbip_device_read` into a buffer of `len` bytes, `none` while it waits for a payload. -/
def EpState.read (ep : EpState) (len : Nat) : Option (EpState × List UInt8) :=
  match ep.outq with
  | [] => none
  | data :: rest => some ({ ep with outq := rest }, data.take (min data.length len))

/-- The payload that a step of the endpoint queues. -/
def EpState.enqueued (ep : EpState) : EpAct → List (List UInt8)
  | .run i =>
    match ep.calls[i]? with
    | some (.checked urb) => if urb.direction = .usbOut ∧ ep.onOut = false then [urb.data] else []
    | _ => []
  | _ => []

inductive ReadAct
  | ep (act : EpAct)
  | read (len : Nat)
  deriving DecidableEq, Repr

/-- An endpoint with the payloads delivered to it and what the reads have returned. -/
structure OutTrace where
  ep : EpState
  delivered : List (List UInt8)
  got : List (List UInt8)

namespace OutTrace

def new (onOut : Bool) : OutTrace := ⟨.new onOut, [], []⟩

def step (t : OutTrace) : ReadAct → Option OutTrace
  | .ep act => (t.ep.step act).map fun (ep, _) =>
    { t with ep, delivered := t.delivered ++ t.ep.enqueued act }
  | .read len => (t.ep.read len).map fun (ep, bytes) => { t with ep, got := t.got ++ [bytes] }

/-- The reads have returned the bytes of the payloads in order, but for those still queued. -/
def Conserved (t : OutTrace) : Prop :=
  t.got.flatten ++ t.ep.outq.flatten = t.delivered.flatten

/-- The buffer of a read holds the payload that comes next. -/
def Fits (t : OutTrace) : ReadAct → Prop
  | .ep _ => True
  | .read len => ∀ data ∈ t.ep.outq.head?, data.length ≤ len

instance (t : OutTrace) : DecidablePred t.Fits
  | .ep _ => isTrue trivial
  | .read _ => inferInstanceAs (Decidable (∀ _ ∈ _, _))

end OutTrace

theorem EpStep.outq {ep ep' : EpState} {a : EpAct} {events : List EpEvent}
    (h : EpStep ep a ep' events) : ep'.outq = ep.outq ++ ep.enqueued a := by
  cases h with
  | @run pre post call call' next _ calls_eq step =>
    have hget : ep.calls[pre.length]? = some call := by simp [calls_eq]
    simp only [EpState.enqueued, hget]
    cases step with
    | enqueueOut is_out unregistered => simp [is_out, unregistered]
    | callback is_out registered => simp [registered]
    | serve is_in | park is_in => simp [is_in]
    | _ => simp
  | _ => simp [EpState.enqueued]

namespace OutTrace

variable {t t' : OutTrace}

/-- What a step does to the queue and to the two records. -/
inductive Step (t : OutTrace) : ReadAct → OutTrace → Prop
  | ep {act : EpAct} {ep : EpState} (outq : ep.outq = t.ep.outq ++ t.ep.enqueued act) :
    Step t (.ep act) { t with ep, delivered := t.delivered ++ t.ep.enqueued act }
  | read {data : List UInt8} {rest : List (List UInt8)} (len : Nat)
    (outq : t.ep.outq = data :: rest) :
    Step t (.read len)
      { t with ep := { t.ep with outq := rest }, got := t.got ++ [data.take (min data.length len)] }

theorem step_step {a : ReadAct} (h : t.step a = some t') : Step t a t' := by
  cases a with
  | ep act =>
    obtain ⟨⟨ep, events⟩, hstep, rfl⟩ := Option.map_eq_some_iff.mp h
    exact .ep (EpState.step_step hstep).outq
  | read len =>
    obtain ⟨⟨ep, bytes⟩, hread, rfl⟩ := Option.map_eq_some_iff.mp h
    rw [EpState.read] at hread
    cases hq : t.ep.outq with
    | nil =>
      rw [hq] at hread
      cases hread
    | cons data rest =>
      rw [hq] at hread
      cases hread
      exact .read len hq

theorem Conserved.step {a : ReadAct} (h : t.Conserved) (hs : Step t a t') (hfits : t.Fits a) :
    t'.Conserved := by
  cases hs with
  | ep outq =>
    rw [Conserved, outq, List.flatten_append, List.flatten_append, ← List.append_assoc, h]
  | @read data rest len outq =>
    have hlen : data.length ≤ len := hfits data (by rw [outq]; rfl)
    rw [Conserved, Nat.min_eq_left hlen, List.take_length, List.flatten_append,
      List.flatten_singleton, List.append_assoc]
    rw [Conserved, outq] at h
    exact h

/-- Bytes are missing. -/
def Short (t : OutTrace) : Prop :=
  t.got.flatten.length + t.ep.outq.flatten.length < t.delivered.flatten.length

theorem Short.not_conserved (h : t.Short) : ¬t.Conserved := by
  intro hc
  have hlen := congrArg List.length hc
  rw [List.length_append] at hlen
  exact absurd hlen (Nat.ne_of_lt h)

/-- What is lost never comes back. -/
theorem Short.step {a : ReadAct} (h : t.Short) (hs : Step t a t') : t'.Short := by
  unfold Short at h ⊢
  cases hs with
  | ep outq =>
    rw [outq]
    simp only [List.flatten_append, List.length_append]
    omega
  | read len outq =>
    rw [outq] at h
    simp only [List.flatten_append, List.flatten_cons, List.flatten_nil, List.length_append,
      List.length_take, List.length_nil] at h ⊢
    omega

/-- A read whose buffer is too small loses the rest of the payload. -/
theorem Conserved.short {a : ReadAct} (h : t.Conserved) (hs : Step t a t') (hfits : ¬t.Fits a) :
    t'.Short := by
  have hlen := congrArg List.length h
  rw [List.length_append] at hlen
  unfold Short
  cases hs with
  | ep => exact absurd trivial hfits
  | @read data rest len outq =>
    have hlt : len < data.length := by
      by_contra hle
      refine hfits fun data' hdata' => ?_
      rw [outq] at hdata'
      cases hdata'
      exact Nat.le_of_not_lt hle
    rw [outq] at hlen
    simp only [List.flatten_append, List.flatten_cons, List.flatten_nil, List.length_append,
      List.length_take, List.length_nil] at hlen ⊢
    omega

/-- The reads return the payloads without loss if and only if every buffer holds the payload that
is next when it is offered. -/
theorem conserved_iff_fits {acts : List ReadAct} (h : exec step (new false) acts = some t) :
    t.Conserved ↔ Guarded step Fits (new false) acts := by
  have hrun : ∀ {s : OutTrace}, s.Conserved → exec step s acts = some t →
      (t.Conserved ↔ Guarded step Fits s acts) := by
    clear h
    induction acts with
    | nil =>
      intro s hs h
      cases h
      exact iff_of_true hs trivial
    | cons a acts ih =>
      intro s hs h
      obtain ⟨u, hsu, hut⟩ := exec_cons_some h
      have hstep := step_step hsu
      by_cases hfits : s.Fits a
      · rw [ih (hs.step hstep hfits) hut]
        refine ⟨fun hg => ⟨hfits, fun u' hu' => ?_⟩, fun hg => hg.2 u hsu⟩
        cases hsu.symm.trans hu'
        exact hg
      · have hshort : t.Short :=
          exec_invariant (I := Short) (fun _ _ _ hshort hst => hshort.step (step_step hst))
            (hs.short hstep hfits) hut
        exact iff_of_false hshort.not_conserved fun hg => hfits hg.1
  exact hrun rfl h

/-- A payload of two bytes, and then a read. -/
def pairRun (len : Nat) : List ReadAct :=
  [.ep (.dispatch { Urb.bulkIn 0 1 2 with direction := .usbOut, data := [1, 2] }), .ep (.run 0),
    .ep (.run 0), .read len]

theorem conserved_iff_fits_pairRun :
    ∃ t, exec step (new false) (pairRun 2) = some t ∧
      (t.Conserved ↔ Guarded step Fits (new false) (pairRun 2)) :=
  have ⟨t, h⟩ := Option.isSome_iff_exists.mp (show (exec step (new false) (pairRun 2)).isSome by
    decide)
  ⟨t, h, conserved_iff_fits h⟩

/-- A buffer of one byte loses the other. -/
theorem conserved_fails :
    ¬∀ acts t, exec step (new false) acts = some t → t.Conserved := by
  intro h
  have hget : (exec step (new false) (pairRun 1)).map
      (fun t => (t.got, t.ep.outq, t.delivered)) = some ([[1]], [], [[1, 2]]) := by decide
  obtain ⟨t, hexec, heq⟩ := Option.map_eq_some_iff.mp hget
  have hc := h _ t hexec
  rw [Conserved] at hc
  obtain ⟨hgot, hq, hdel⟩ : t.got = [[1]] ∧ t.ep.outq = [] ∧ t.delivered = [[1, 2]] := by
    simpa using heq
  rw [hgot, hq, hdel] at hc
  exact absurd hc (by decide)

end OutTrace

end Usbip
