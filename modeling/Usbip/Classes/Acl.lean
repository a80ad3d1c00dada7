import Usbip.Lib.Bytes
import Usbip.Lib.Frames
import Usbip.Lib.Run

/-! Reassembly of the ACL data that a Bluetooth function gets from the host.  The buffer holds one
PDU of the largest size, and a payload that does not fit behind what it holds starts it again. -/

namespace Usbip.Classes

open Lib

def btAclReasmMax : Nat := 1024

/-- The part of `struct bt_state` that ACL data goes through. `aclRx` holds the first `acl_have`
bytes of the buffer. -/
structure AclState where
  hasOnAcl : Bool
  aclRx : List UInt8
  deriving DecidableEq, Repr

/-- `bt_build`. -/
def AclState.build (hasOnAcl : Bool) : AclState := ⟨hasOnAcl, []⟩

/-- The header and the length that it tells, once the header is there. -/
def aclTotal (rx : List UInt8) : Option Nat :=
  if 4 ≤ rx.length then some (4 + (getLe16 (rx.drop 2)).toNat) else none

/-- What the buffer still holds when a payload is put behind it: "resync on overflow". -/
def AclState.resync (st : AclState) (len : Nat) : List UInt8 :=
  if btAclReasmMax < st.aclRx.length + len then [] else st.aclRx

/-- The loop of `bt_on_out`: the state it leaves, and the PDUs that it hands to `on_acl`. -/
def AclState.release (st : AclState) (rx : List UInt8) : AclState × List (List UInt8) :=
  let cut := cutFrames aclTotal rx.length rx
  ({ st with aclRx := cut.2 }, if st.hasOnAcl then cut.1 else [])

/-- A payload larger than the buffer runs past its end. -/
def btOnOut (st : AclState) (data : List UInt8) : Option (AclState × List (List UInt8)) :=
  if data = [] then some (st, [])
  else if btAclReasmMax < data.length then none
  else some (st.release (st.resync data.length ++ data))

/-- The state, and the PDUs handed to `on_acl` so far. -/
structure AclRun where
  st : AclState
  onAcl : List (List UInt8)
  deriving DecidableEq, Repr

def AclRun.next (r : AclRun) (data : List UInt8) : Option AclRun :=
  (btOnOut r.st data).map fun out => ⟨out.1, r.onAcl ++ out.2⟩

/-- A controller that takes ACL data, before the first payload. -/
def AclRun.built : AclRun := ⟨.build true, []⟩

theorem aclTotal_framing : Framing aclTotal where
  pos := by
    intro s n h
    rw [aclTotal] at h
    split at h
    · cases h
      omega
    · cases h
  append := by
    intro s n t h
    rw [aclTotal] at h
    split at h
    · rename_i hlen
      match s, hlen with
      | a :: b :: c :: d :: s, _ =>
        rw [← h, aclTotal, if_pos (by simp)]
        rfl
    · cases h

/-- PDUs, and their bytes cut into payloads anywhere. -/
structure AclTraffic where
  pdus : List (List UInt8)
  payloads : List (List UInt8)
  isPdu : ∀ p ∈ pdus, IsFrame aclTotal p ∧ p.length ≤ btAclReasmMax
  isPayload : ∀ p ∈ payloads, 0 < p.length ∧ p.length ≤ btAclReasmMax
  same : payloads.flatten = pdus.flatten

/-- Each payload fits in the buffer behind the start of a PDU that came before it, when `n` bytes
came before the first. -/
def FitBehind (pdus : List (List UInt8)) : Nat → List (List UInt8) → Prop
  | _, [] => True
  | n, p :: ps =>
    carried pdus n + p.length ≤ btAclReasmMax ∧ FitBehind pdus (n + p.length) ps

/-- What has reached `on_acl` or the buffer. -/
def AclRun.held (r : AclRun) : Nat := r.onAcl.flatten.length + r.st.aclRx.length

/-- Of the bytes sent, the whole PDUs have been handed on, and the rest is in the buffer. -/
structure AclRun.InSync (pdus : List (List UInt8)) (sent : List UInt8) (r : AclRun) : Prop where
  on : r.st.hasOnAcl = true
  bytes : r.onAcl.flatten ++ r.st.aclRx = sent
  calls : ∃ later, pdus = r.onAcl ++ later
  have_eq : r.st.aclRx.length = carried pdus sent.length

section
variable {pdus payloads : List (List UInt8)} {r r' : AclRun} {data sent : List UInt8}

theorem next_of_payload (h0 : 0 < data.length) (h1 : data.length ≤ btAclReasmMax) :
    r.next data =
      let out := r.st.release (r.st.resync data.length ++ data)
      some ⟨out.1, r.onAcl ++ out.2⟩ := by
  rw [AclRun.next, btOnOut, if_neg (List.ne_nil_of_length_pos h0), if_neg (Nat.not_lt.mpr h1)]
  rfl

theorem held_next (h0 : 0 < data.length) (h1 : data.length ≤ btAclReasmMax)
    (h : r.next data = some r') :
    r'.held ≤ r.onAcl.flatten.length + (r.st.resync data.length).length + data.length := by
  rw [next_of_payload h0 h1] at h
  cases h
  generalize r.st.resync data.length = rx
  have hcut := congrArg List.length
    (cutFrames_append aclTotal (rx ++ data).length (rx ++ data))
  simp only [List.length_append] at hcut
  simp only [AclRun.held, AclState.release, List.flatten_append, List.length_append]
  split
  · omega
  · rw [List.flatten_nil, List.length_nil]
    omega

/-- A payload adds its bytes at most. -/
theorem held_next_le (h0 : 0 < data.length) (h1 : data.length ≤ btAclReasmMax)
    (h : r.next data = some r') : r'.held ≤ r.held + data.length := by
  have := held_next h0 h1 h
  have : (r.st.resync data.length).length ≤ r.st.aclRx.length := by
    unfold AclState.resync
    split
    · exact Nat.zero_le _
    · exact Nat.le_refl _
  unfold AclRun.held at *
  omega

/-- One that does not fit costs what the buffer held. -/
theorem held_next_lt (h0 : 0 < data.length) (h1 : data.length ≤ btAclReasmMax)
    (hover : btAclReasmMax < r.st.aclRx.length + data.length) (h : r.next data = some r') :
    r'.held < r.held + data.length := by
  have := held_next h0 h1 h
  rw [AclState.resync, if_pos hover, List.length_nil] at this
  unfold AclRun.held at *
  omega

/-- The run gives away at most what it is given. -/
theorem held_exec_le (hp : ∀ p ∈ payloads, 0 < p.length ∧ p.length ≤ btAclReasmMax)
    (h : exec AclRun.next r payloads = some r') :
    r'.held ≤ r.held + payloads.flatten.length := by
  induction payloads generalizing r with
  | nil =>
    cases h
    exact Nat.le_refl _
  | cons p ps ih =>
    obtain ⟨⟨h0, h1⟩, hps⟩ := List.forall_mem_cons.mp hp
    obtain ⟨r₁, h₁, hrest⟩ := exec_cons_some h
    have hone := held_next_le h0 h1 h₁
    have hmore := ih hps hrest
    rw [List.flatten_cons, List.length_append]
    omega

theorem exec_payloads_some (hp : ∀ p ∈ payloads, 0 < p.length ∧ p.length ≤ btAclReasmMax)
    (r : AclRun) : ∃ r', exec AclRun.next r payloads = some r' := by
  induction payloads generalizing r with
  | nil => exact ⟨r, rfl⟩
  | cons p ps ih =>
    obtain ⟨⟨h0, h1⟩, hps⟩ := List.forall_mem_cons.mp hp
    rw [exec_cons, next_of_payload h0 h1]
    exact ih hps _

/-- A payload that fits keeps the buffer in step with the host. -/
theorem AclRun.InSync.next (hpdu : ∀ p ∈ pdus, IsFrame aclTotal p) (hs : r.InSync pdus sent)
    (hpre : sent ++ data <+: pdus.flatten) (h0 : 0 < data.length)
    (hfit : carried pdus sent.length + data.length ≤ btAclReasmMax)
    (h : r.next data = some r') : r'.InSync pdus (sent ++ data) := by
  obtain ⟨later, hlater⟩ := hs.calls
  have hrx : r.st.resync data.length = r.st.aclRx := by
    rw [AclState.resync, if_neg (by have := hs.have_eq; omega)]
  rw [next_of_payload h0 (by omega), hrx] at h
  have hpre' : r.st.aclRx ++ data <+: later.flatten := by
    rw [← hs.bytes, hlater, List.flatten_append, List.append_assoc] at hpre
    exact (List.prefix_append_right_inj _).mp hpre
  have hlaterPdu : ∀ p ∈ later, IsFrame aclTotal p := by
    intro p hp
    refine hpdu p ?_
    rw [hlater]
    exact List.mem_append_right _ hp
  obtain ⟨done, rest, tail, hsplit, hcut, hu, hc⟩ := exists_cut aclTotal_framing hlaterPdu hpre'
  have hdone : ∀ p ∈ done, IsFrame aclTotal p := by
    intro p hp
    refine hlaterPdu p ?_
    rw [hsplit]
    exact List.mem_append_left _ hp
  rw [hcut, AclState.release, cutFrames_flatten aclTotal_framing hdone hu (Nat.le_refl _),
    if_pos hs.on] at h
  cases h
  constructor
  · exact hs.on
  · rw [← hs.bytes, List.flatten_append, List.append_assoc, List.append_assoc, hcut]
  · refine ⟨rest, ?_⟩
    rw [List.append_assoc, ← hsplit]
    exact hlater
  · have := carried_append r.onAcl later (r.st.aclRx ++ data).length
    rw [hc, ← hlater, ← List.length_append, ← List.append_assoc, hs.bytes] at this
    exact this.symm

/-- When everything has been sent, everything has been handed on. -/
theorem AclRun.InSync.all (hpdu : ∀ p ∈ pdus, IsFrame aclTotal p) (hs : r.InSync pdus pdus.flatten) :
    r.onAcl = pdus := by
  obtain ⟨later, hlater⟩ := hs.calls
  have hrx : r.st.aclRx.length = 0 := by
    have := carried_append pdus [] 0
    rw [List.append_nil, Nat.add_zero] at this
    rw [hs.have_eq, this, carried]
  have hflat : later.flatten = [] := by
    have := congrArg List.length hs.bytes
    rw [hlater, List.flatten_append, List.length_append, List.length_append] at this
    exact List.eq_nil_of_length_eq_zero (by omega)
  have hnil : later = [] := by
    refine List.eq_nil_iff_forall_not_mem.mpr fun p hp => ?_
    have hframe := hpdu p (hlater ▸ List.mem_append_right _ hp)
    have hpos := aclTotal_framing.pos hframe
    rw [List.flatten_eq_nil_iff.mp hflat p hp] at hpos
    exact absurd hpos (Nat.lt_irrefl 0)
  rw [hlater, hnil, List.append_nil]

theorem delivered_iff_fitBehind (hpdu : ∀ p ∈ pdus, IsFrame aclTotal p)
    (hp : ∀ p ∈ payloads, 0 < p.length ∧ p.length ≤ btAclReasmMax) (hs : r.InSync pdus sent)
    (hall : sent ++ payloads.flatten = pdus.flatten) :
    (exec AclRun.next r payloads).map AclRun.onAcl = some pdus ↔
      FitBehind pdus sent.length payloads := by
  induction payloads generalizing r sent with
  | nil =>
    rw [List.flatten_nil, List.append_nil] at hall
    subst hall
    rw [exec_nil, Option.map_some, hs.all hpdu]
    exact ⟨fun _ => trivial, fun _ => rfl⟩
  | cons p ps ih =>
    obtain ⟨⟨h0, h1⟩, hps⟩ := List.forall_mem_cons.mp hp
    have hnext := next_of_payload (r := r) h0 h1
    rw [List.flatten_cons, ← List.append_assoc] at hall
    rw [FitBehind, exec_cons, hnext, Option.bind_some]
    by_cases hfit : carried pdus sent.length + p.length ≤ btAclReasmMax
    · have hs' := hs.next hpdu (hall ▸ List.prefix_append _ _) h0 hfit hnext
      rw [ih hps hs' hall, List.length_append]
      exact (and_iff_right hfit).symm
    · refine iff_of_false (fun h => ?_) fun h => hfit h.1
      obtain ⟨r', hr', rfl⟩ := Option.map_eq_some_iff.mp h
      have hlost := held_next_lt h0 h1 (by have := hs.have_eq; omega) hnext
      have hrest := held_exec_le hps hr'
      have hheld : r.held = sent.length := by
        rw [← hs.bytes, AclRun.held, List.length_append]
      have htotal := congrArg List.length hall
      rw [List.length_append, List.length_append] at htotal
      have : r'.onAcl.flatten.length ≤ r'.held := Nat.le_add_right _ _
      omega

end

theorem AclRun.built_inSync (pdus : List (List UInt8)) : AclRun.built.InSync pdus [] where
  on := rfl
  bytes := rfl
  calls := ⟨pdus, rfl⟩
  have_eq := (carried_zero pdus).symm

theorem AclTraffic.delivered_iff (t : AclTraffic) :
    (exec AclRun.next .built t.payloads).map AclRun.onAcl = some t.pdus ↔
      FitBehind t.pdus 0 t.payloads :=
  delivered_iff_fitBehind (fun p hp => (t.isPdu p hp).1) t.isPayload (AclRun.built_inSync t.pdus)
    t.same

/-- The second payload holds the last byte of a PDU and most of the next one. -/
def straddling : AclTraffic where
  pdus := [[0, 0x20, 1, 0, 0xaa], [0, 0x20, 0xfc, 3] ++ List.replicate 1020 7]
  payloads := [[0, 0x20, 1, 0], [0xaa, 0, 0x20, 0xfc, 3] ++ List.replicate 1019 7, [7]]
  isPdu := by
    rw [List.forall_mem_cons, List.forall_mem_singleton]
    refine ⟨⟨rfl, by decide⟩, ?_, ?_⟩
    · rw [IsFrame, aclTotal, List.length_append, List.length_replicate]
      rfl
    · rw [List.length_append, List.length_replicate]
      decide
  isPayload := by
    rw [List.forall_mem_cons, List.forall_mem_cons, List.forall_mem_singleton, List.length_append,
      List.length_replicate]
    decide
  same := by
    have : List.replicate 1020 (7 : UInt8) = List.replicate 1019 7 ++ [7] := List.replicate_succ'
    rw [this]
    simp only [List.flatten_cons, List.flatten_nil, List.cons_append, List.nil_append,
      List.append_nil]

/-- The first PDU of these never comes out. -/
theorem straddling_not_delivered :
    (exec AclRun.next .built straddling.payloads).map AclRun.onAcl ≠ some straddling.pdus := by
  intro h
  have hfit := (delivered_iff_fitBehind (fun p hp => (straddling.isPdu p hp).1)
    straddling.isPayload (AclRun.built_inSync straddling.pdus) straddling.same).mp h
  have := hfit.2.1
  rw [List.length_append, List.length_replicate] at this
  exact absurd this (by decide)

end Usbip.Classes
