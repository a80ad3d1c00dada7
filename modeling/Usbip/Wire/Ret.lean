import Usbip.Wire.Completion

/-! The reply to a transfer that is not isochronous, from `usbip_send_ret` to the end of
`usbip_client_submit`. -/

namespace Usbip.Wire

open Lib

/-- What `usbip_send_ret` writes. -/
def usbipSendRet (seqnum devid direction ep : UInt32) (status : Int) (data : List UInt8)
    (actual : Int) : List UInt8 :=
  let hdr := putBasicHdr usbipRetSubmit seqnum devid direction ep
  let hdr := putBe32 hdr usbipRetStatusOff (UInt32.ofInt status)
  let hdr := putBe32 hdr usbipRetActualOff (UInt32.ofInt actual)
  hdr ++ if direction = usbIn ∧ 0 < actual then data.take actual.toNat else []

/-- What a call of `usbip_client_submit` that gets its reply returns: its return value, what
`*actual` is set to, and the bytes that have come into the buffer. -/
structure Outcome where
  rc : Int
  actual : Int
  data : List UInt8
  deriving DecidableEq, Repr

def Outcome.of (status act : Int) (got : List UInt8) : Outcome where
  rc := if status ≠ 0 then clientStatusError status else usbSuccess
  actual := act
  data := got

namespace Awaited

variable (w : Awaited)

/-- `usbip_client_submit` from the reply on, with what it leaves on the stream, or `none` when it
waits for more. -/
def recv (s : List UInt8) : Option (Outcome × List UInt8) :=
  (readn usbipHdrLen s).bind fun head =>
    let status := int32 (word head.1 usbipRetStatusOff)
    let act := int32 (word head.1 usbipRetActualOff)
    if w.dir = usbIn ∧ 0 < act then
      let into : Int := min act w.len
      (readn into.toNat head.2).bind fun got =>
        (drain (act - into).toNat got.2).map fun rest => (.of status into got.1, rest)
    else some (.of status act [], head.2)

variable {w} {env : ClientEnv} {s rest : List UInt8} {o : Outcome}

/-- What is received is what the call completes with. -/
theorem complete_of_recv (h : w.recv s = some (o, rest)) :
    (w.complete env s).rc = o.rc ∧ (w.complete env s).actual = some o.actual ∧
      (w.complete env s).touches.head? = some (.fill o.data) := by
  obtain ⟨⟨ret, s'⟩, hret, h⟩ := Option.bind_eq_some_iff.mp h
  simp only [complete, hret]
  by_cases hin : w.dir = usbIn ∧ 0 < int32 (word ret usbipRetActualOff)
  · simp only [if_pos hin] at h ⊢
    obtain ⟨⟨got, s''⟩, hgot, h⟩ := Option.bind_eq_some_iff.mp h
    obtain ⟨rest', hrest, h⟩ := Option.map_eq_some_iff.mp h
    cases h
    simp only [hgot, hrest]
    exact ⟨rfl, rfl, rfl⟩
  · simp only [if_neg hin] at h ⊢
    cases h
    exact ⟨rfl, rfl, rfl⟩

end Awaited

theorem int32_ofInt {n : Int} (hlo : -2 ^ 31 ≤ n) (hhi : n < 2 ^ 31) : int32 (UInt32.ofInt n) = n := by
  have hlt : (n % 2 ^ 32).toNat < UInt32.size := by
    have := Int.emod_lt_of_pos n (show (0 : Int) < 2 ^ 32 by decide)
    rw [UInt32.size]
    omega
  have hw : (UInt32.ofInt n).toNat = (n % 2 ^ 32).toNat := UInt32.toNat_ofNat_of_lt' hlt
  rw [int32_eq, hw]
  split <;> omega

@[simp] theorem drain_zero (s : List UInt8) : drain 0 s = some s := by
  rw [drain, if_pos rfl]

/-- The header of a reply has the status and the length that it was given. -/
theorem usbipSendRet_hdr (seqnum devid direction ep : UInt32) (status actual : Int)
    (data : List UInt8) : ∃ hdr, hdr.length = usbipHdrLen ∧
      word hdr usbipRetStatusOff = UInt32.ofInt status ∧
      word hdr usbipRetActualOff = UInt32.ofInt actual ∧
      usbipSendRet seqnum devid direction ep status data actual =
        hdr ++ if direction = usbIn ∧ 0 < actual then data.take actual.toNat else [] :=
  ⟨_, by simp [usbipHdrLen], by simp, by simp, rfl⟩

/-- A reply that carries no more than was asked for is received to its end. -/
theorem Awaited.recv_usbipSendRet (w : Awaited) (seqnum devid ep : UInt32) {status actual : Int}
    (data : List UInt8) (hstatus : -2 ^ 31 ≤ status ∧ status < 2 ^ 31) (hpos : 0 ≤ actual)
    (hlt : actual < 2 ^ 31)
    (hin : w.dir = usbIn → actual ≤ w.len ∧ actual ≤ data.length) (rest : List UInt8) :
    w.recv (usbipSendRet seqnum devid w.dir ep status data actual ++ rest) =
      some (.of status actual (if w.dir = usbIn then data.take actual.toNat else []), rest) := by
  obtain ⟨hdr, hlen, hs, ha, heq⟩ := usbipSendRet_hdr seqnum devid w.dir ep status actual data
  have hact := int32_ofInt (n := actual) (by omega) hlt
  rw [heq, recv, List.append_assoc, ← hlen, readn_append, Option.bind_some]
  simp only [hs, ha, int32_ofInt hstatus.1 hstatus.2, hact]
  by_cases hd : w.dir = usbIn
  · obtain ⟨hbuf, hdata⟩ := hin hd
    by_cases hz : 0 < actual
    · have hinto : min actual (w.len : Int) = actual := Int.min_eq_left hbuf
      have htake : (data.take actual.toNat).length = actual.toNat := by
        rw [List.length_take]
        omega
      rw [if_pos ⟨hd, hz⟩, if_pos ⟨hd, hz⟩, hinto]
      have hread := readn_append (data.take actual.toNat) rest
      rw [htake] at hread
      rw [hread, Option.bind_some, Int.sub_self, Int.toNat_zero, drain_zero, if_pos hd]
      rfl
    · have : actual = 0 := by omega
      rw [if_neg (fun h => hz h.2), if_neg (fun h => hz h.2), if_pos hd, this]
      rfl
  · rw [if_neg (fun h => hd h.1), if_neg (fun h => hd h.1), if_neg hd]
    rfl

end Usbip.Wire
