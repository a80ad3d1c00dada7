import Usbip.Classes.Control
import Usbip.Classes.IsoBuffer
import Usbip.Lib.Run

/-! The microphone of a UAC function.  Each packet of an isochronous transfer takes the next samples
of the built-in tone, and the packets follow each other in the buffer of the transfer. -/

namespace Usbip.Classes

open Lib Control
open Device (u16le)

namespace Uac

/-! ### The built-in source -/

/-- `SINE256`. -/
def sine256 : List Int16 :=
  [0, 393, 785, 1177, 1568, 1959, 2348, 2735, 3121, 3506, 3888, 4267, 4645, 5019, 5390, 5758, 6123,
    6484, 6841, 7194, 7542, 7886, 8226, 8560, 8889, 9213, 9531, 9844, 10150, 10451, 10745, 11033,
    11314, 11588, 11855, 12115, 12368, 12614, 12851, 13081, 13304, 13518, 13724, 13921, 14111,
    14292, 14464, 14627, 14782, 14928, 15065, 15192, 15311, 15420, 15521, 15611, 15693, 15764,
    15827, 15880, 15923, 15957, 15981, 15995, 16000, 15995, 15981, 15957, 15923, 15880, 15827,
    15764, 15693, 15611, 15521, 15420, 15311, 15192, 15065, 14928, 14782, 14627, 14464, 14292,
    14111, 13921, 13724, 13518, 13304, 13081, 12851, 12614, 12368, 12115, 11855, 11588, 11314,
    11033, 10745, 10451, 10150, 9844, 9531, 9213, 8889, 8560, 8226, 7886, 7542, 7194, 6841, 6484,
    6123, 5758, 5390, 5019, 4645, 4267, 3888, 3506, 3121, 2735, 2348, 1959, 1568, 1177, 785, 393, 0,
    -393, -785, -1177, -1568, -1959, -2348, -2735, -3121, -3506, -3888, -4267, -4645, -5019, -5390,
    -5758, -6123, -6484, -6841, -7194, -7542, -7886, -8226, -8560, -8889, -9213, -9531, -9844,
    -10150, -10451, -10745, -11033, -11314, -11588, -11855, -12115, -12368, -12614, -12851, -13081,
    -13304, -13518, -13724, -13921, -14111, -14292, -14464, -14627, -14782, -14928, -15065, -15192,
    -15311, -15420, -15521, -15611, -15693, -15764, -15827, -15880, -15923, -15957, -15981, -15995,
    -16000, -15995, -15981, -15957, -15923, -15880, -15827, -15764, -15693, -15611, -15521, -15420,
    -15311, -15192, -15065, -14928, -14782, -14627, -14464, -14292, -14111, -13921, -13724, -13518,
    -13304, -13081, -12851, -12614, -12368, -12115, -11855, -11588, -11314, -11033, -10745, -10451,
    -10150, -9844, -9531, -9213, -8889, -8560, -8226, -7886, -7542, -7194, -6841, -6484, -6123,
    -5758, -5390, -5019, -4645, -4267, -3888, -3506, -3121, -2735, -2348, -1959, -1568, -1177, -785,
    -393]

/-- The sample of the tone at an index. -/
def sampleAt (index : UInt32) : Int16 :=
  let phase := (index.toUInt64 * 39370534).toUInt32
  sine256.getD (phase >>> 24 &&& 0xff).toNat 0

/-- The bytes that `uac_tone` puts into its buffer, `none` when `k * 2` overflows. -/
def uacTone (frames : Nat) (index : UInt32) : Option (List UInt8) :=
  ((List.range frames).mapM fun k : Nat =>
    (intOf (k * 2)).map fun _ => u16le (sampleAt (index + .ofNat k)).toUInt16).map List.flatten

end Uac

/-- What `uac_build` has set up. A call of `mic_source` returns a length, and leaves bytes at the
start of its buffer. -/
structure UacSource (σ : Type) where
  spkIf : UInt8
  micIf : UInt8
  ifs_eq : micIf = spkIf + 1
  micSource : Option (σ → (frames : Nat) → (index : UInt32) → σ × List UInt8 × Int)

/-- The part of `struct uac_state` that the microphone sees. -/
structure UacStream (σ : Type) where
  control : UacState
  spkOn : Bool
  micOn : Bool
  micSamples : UInt32
  user : σ

/-- A function with the packets that its host has got, and what it has requested for each. -/
structure UacTrace (σ : Type) where
  st : UacStream σ
  requested : List UInt32
  packets : List (List UInt8)

/-- `SET_INTERFACE`, a control request, or a transfer from the microphone; `scratch` is what
`malloc` leaves in the buffer of the transfer. -/
inductive UacAct
  | setAlt (ifnum : Int) (alt : Int)
  | control (setup : Setup) (buf : Contents) (len : UInt16)
  | isoIn (lens : List UInt32) (np : lens.length < 2 ^ 31) (scratch : Nat → UInt8)

namespace UacStream

open Uac

variable {σ : Type}

/-- A write into the buffer of a transfer, `none` when it goes beyond it. -/
def poke (buf : List UInt8) (off : Nat) (bytes : List UInt8) : Option (List UInt8) :=
  if off + bytes.length ≤ buf.length then some (putBytes buf off bytes) else none

/-- What is put into a packet, and the number of its samples. -/
def source (src : UacSource σ) (st : UacStream σ) (buf : List UInt8) (off frames : Nat) :
    Option (σ × List UInt8 × Int) :=
  if st.control.mute 1 ≠ 0 then
    (poke buf off (List.replicate (frames * 2) 0)).map fun buf => (st.user, buf, frames)
  else do
    let (user, bytes, produced) := match src.micSource with
      | some next => next st.user frames st.micSamples
      | none => (st.user, [], -1)
    let buf ← poke buf off bytes
    let (buf, produced) ←
      if produced < 0 then do
        let tone ← uacTone frames st.micSamples
        let buf ← poke buf off tone
        let produced ← intOf (frames * 2)
        some (buf, produced)
      else some (buf, produced)
    some (user, buf, produced.tdiv 2)

/-- The loop body of `uac_in_iso`: the packet's length and the next offset. -/
def packet (src : UacSource σ) (st : UacStream σ) (buf : List UInt8) (off req : UInt32) :
    Option (UacStream σ × List UInt8 × UInt32 × UInt32) :=
  let frames := req.toNat / 2
  if ¬st.micOn ∨ frames = 0 then some (st, buf, off, 0)
  else do
    let (user, buf, frames) ← st.source src buf off.toNat frames
    let len := UInt32.ofInt frames * 2
    some ({ st with user, micSamples := st.micSamples + .ofInt frames }, buf, off + len, len)

/-- `uac_in_iso`. -/
def inIso (src : UacSource σ) (st : UacStream σ) (buf : List UInt8) (off : UInt32) :
    List UInt32 → Option (UacStream σ × List UInt8 × List UInt32)
  | [] => some (st, buf, [])
  | req :: lens => do
    let (st, buf, off, len) ← st.packet src buf off req
    let (st, buf, lens) ← st.inIso src buf off lens
    some (st, buf, len :: lens)

/-- `uac_set_alt`. -/
def setAlt (src : UacSource σ) (st : UacStream σ) (ifnum alt : Int) : UacStream σ :=
  if ifnum = src.spkIf.toNat then
    if alt = 1 ∧ ¬st.spkOn then { st with spkOn := true }
    else if alt = 0 ∧ st.spkOn then { st with spkOn := false }
    else st
  else if ifnum = src.micIf.toNat then
    if alt = 1 ∧ ¬st.micOn then { st with micOn := true, micSamples := 0 }
    else if alt = 0 ∧ st.micOn then { st with micOn := false }
    else st
  else st

end UacStream

namespace UacTrace

variable {σ : Type}

/-- A transfer, with the packets that go to the host. -/
def isoIn (src : UacSource σ) (t : UacTrace σ) (lens : List UInt32) (scratch : Nat → UInt8) :
    Option (UacTrace σ) := do
  let (st, buf, actual) ← t.st.inIso src (allocated lens scratch) 0 lens
  some ⟨st, t.requested ++ lens, t.packets ++ packetsOf buf actual⟩

def step (src : UacSource σ) (t : UacTrace σ) : UacAct → Option (UacTrace σ)
  | .setAlt ifnum alt => some { t with st := t.st.setAlt src ifnum alt }
  | .control setup buf len =>
    some { t with st := { t.st with control := (uacControl t.st.control setup buf len).state } }
  | .isoIn lens _ scratch => t.isoIn src lens scratch

end UacTrace

namespace Uac

/-- The samples of the tone from an index on. -/
def toneFrom (index : UInt32) (n : Nat) : List UInt8 :=
  (List.range n).flatMap fun k => u16le (sampleAt (index + .ofNat k)).toUInt16

/-- The samples that are in packets of the requested sizes. -/
def count (reqs : List UInt32) : Nat := (reqs.map fun req => req.toNat / 2).sum

theorem length_toneFrom (index : UInt32) (n : Nat) : (toneFrom index n).length = n * 2 := by
  have hlen : ∀ k : Nat, (u16le (sampleAt (index + .ofNat k)).toUInt16).length = 2 := fun _ => rfl
  simp [toneFrom, List.length_flatMap, hlen]

/-- First some samples and then some more are as many at once. -/
theorem toneFrom_add (index : UInt32) (a b : Nat) :
    toneFrom index (a + b) = toneFrom index a ++ toneFrom (index + .ofNat a) b := by
  have htail : ((List.range b).flatMap fun k =>
      u16le (sampleAt (index + .ofNat (a + k))).toUInt16) = toneFrom (index + .ofNat a) b :=
    List.flatMap_congr fun k _ => by rw [UInt32.ofNat_add, ← UInt32.add_assoc]
  rw [← htail, toneFrom, toneFrom, List.range_add, List.flatMap_append, List.flatMap_map]

theorem count_append (xs ys : List UInt32) : count (xs ++ ys) = count xs + count ys := by
  rw [count, List.map_append, List.sum_append]
  rfl

theorem uacTone_iff {frames : Nat} {index : UInt32} {bytes : List UInt8} :
    uacTone frames index = some bytes ↔ bytes = toneFrom index frames ∧ frames ≤ 1073741824 := by
  have hsample : ∀ (k : Nat) (b : List UInt8),
      ((intOf (k * 2)).map fun _ => u16le (sampleAt (index + .ofNat k)).toUInt16) = some b ↔
        b = u16le (sampleAt (index + .ofNat k)).toUInt16 ∧ k * 2 ≤ 2147483647 := by
    intro k b
    rw [Option.map_eq_some_iff]
    constructor
    · rintro ⟨v, hv, rfl⟩
      exact ⟨rfl, (intOf_natCast (n := k * 2).mp hv).2⟩
    · rintro ⟨rfl, hle⟩
      exact ⟨_, intOf_natCast (n := k * 2).mpr ⟨rfl, hle⟩, rfl⟩
  have hall : (∀ k ∈ List.range frames, k * 2 ≤ 2147483647) ↔ frames ≤ 1073741824 := by
    constructor
    · intro h
      by_contra hlt
      have := h 1073741824 (List.mem_range.mpr (by omega))
      omega
    · intro h k hk
      have := List.mem_range.mp hk
      omega
  rw [uacTone, Option.map_eq_some_iff]
  constructor
  · rintro ⟨rows, hrows, rfl⟩
    obtain ⟨rfl, hfits⟩ := (mapM_eq_some_iff hsample).mp hrows
    exact ⟨rfl, hall.mp hfits⟩
  · rintro ⟨rfl, hle⟩
    exact ⟨_, (mapM_eq_some_iff hsample).mpr ⟨rfl, hall.mpr hle⟩, rfl⟩

end Uac

open Uac

variable {σ : Type} {src : UacSource σ} {st : UacStream σ}

/-- The application has no samples of its own; what it has begun to write, the tone covers. -/
def UacSource.BuiltIn (src : UacSource σ) : Prop :=
  ∀ next, src.micSource = some next → ∀ user frames index,
    (next user frames index).2.2 < 0 ∧ (next user frames index).2.1.length ≤ frames * 2

namespace UacStream

theorem poke_iff {buf buf' : List UInt8} {off : Nat} {bytes : List UInt8} :
    poke buf off bytes = some buf' ↔
      buf' = putBytes buf off bytes ∧ off + bytes.length ≤ buf.length := by
  unfold poke
  split
  · rename_i h
    simp [h, eq_comm]
  · rename_i h
    simp [h]

theorem length_poke {buf buf' : List UInt8} {off : Nat} {bytes : List UInt8}
    (h : poke buf off bytes = some buf') : buf'.length = buf.length := by
  obtain ⟨rfl, hle⟩ := poke_iff.mp h
  rw [length_putBytes]
  omega

theorem take_poke {buf buf' : List UInt8} {off : Nat} {bytes : List UInt8}
    (h : poke buf off bytes = some buf') :
    buf'.take off = buf.take off ∧ buf'.take (off + bytes.length) = buf.take off ++ bytes := by
  obtain ⟨rfl, hle⟩ := poke_iff.mp h
  have hoff : (buf.take off).length = off := List.length_take_of_le (by omega)
  refine ⟨?_, take_putBytes bytes (by omega)⟩
  rw [putBytes, List.append_assoc, List.take_left' hoff]

/-- The call of an application without samples of its own. -/
theorem source_builtIn (hsrc : src.BuiltIn) (st : UacStream σ) (frames : Nat) :
    ∃ user bytes produced, (match src.micSource with
      | some next => next st.user frames st.micSamples
      | none => (st.user, [], -1)) = (user, bytes, produced) ∧ produced < 0 ∧
        bytes.length ≤ frames * 2 := by
  cases hnext : src.micSource with
  | none => exact ⟨_, _, _, rfl, by decide, Nat.zero_le _⟩
  | some next =>
    obtain ⟨hneg, hlen⟩ := hsrc next hnext st.user frames st.micSamples
    exact ⟨_, _, _, rfl, hneg, hlen⟩

/-- A packet of the tone fits into what is left of the buffer, and its length into an `int`. -/
theorem source_fits (hsrc : src.BuiltIn) (hmute : st.control.mute 1 = 0) {buf : List UInt8}
    {off frames : Nat} {r : σ × List UInt8 × Int} (h : st.source src buf off frames = some r) :
    frames ≤ 1073741823 ∧ off + frames * 2 ≤ buf.length := by
  obtain ⟨user, bytes, produced, hcall, hneg, hlen⟩ := source_builtIn hsrc st frames
  rw [source, if_neg (not_not.mpr hmute), hcall] at h
  obtain ⟨buf₁, hbuf₁, h⟩ := Option.bind_eq_some_iff.mp h
  rw [if_pos hneg] at h
  obtain ⟨tone, htone, h⟩ := Option.bind_eq_some_iff.mp h
  obtain ⟨buf₂, hbuf₂, h⟩ := Option.bind_eq_some_iff.mp h
  obtain ⟨produced₂, hproduced, -⟩ := Option.bind_eq_some_iff.mp h
  obtain ⟨rfl, -⟩ := uacTone_iff.mp htone
  have hroom := (poke_iff.mp hbuf₂).2
  have hint := (intOf_natCast (n := frames * 2).mp hproduced).2
  rw [length_toneFrom, length_poke hbuf₁] at hroom
  exact ⟨by omega, hroom⟩

theorem source_some (hsrc : src.BuiltIn) (hmute : st.control.mute 1 = 0) {buf : List UInt8}
    {off frames : Nat} (hint : frames ≤ 1073741823) (hroom : off + frames * 2 ≤ buf.length) :
    ∃ user buf', st.source src buf off frames = some (user, buf', (frames : Int)) ∧
      buf'.length = buf.length ∧
      buf'.take (off + frames * 2) = buf.take off ++ toneFrom st.micSamples frames := by
  obtain ⟨user, bytes, produced, hcall, hneg, hlen⟩ := source_builtIn hsrc st frames
  have htone := length_toneFrom st.micSamples frames
  obtain ⟨buf₁, hbuf₁⟩ : ∃ buf₁, poke buf off bytes = some buf₁ :=
    ⟨_, poke_iff.mpr ⟨rfl, by omega⟩⟩
  have hlen₁ := length_poke hbuf₁
  obtain ⟨buf₂, hbuf₂⟩ : ∃ buf₂, poke buf₁ off (toneFrom st.micSamples frames) = some buf₂ :=
    ⟨_, poke_iff.mpr ⟨rfl, by omega⟩⟩
  refine ⟨user, buf₂, ?_, (length_poke hbuf₂).trans hlen₁, ?_⟩
  · have hproduced : intOf ((frames * 2 : Nat) : Int) = some ((frames * 2 : Nat) : Int) :=
      intOf_natCast.mpr ⟨rfl, by omega⟩
    have hhalf : ((frames * 2 : Nat) : Int).tdiv 2 = frames := by
      rw [Int.natCast_mul]
      exact Int.mul_tdiv_cancel _ (by decide)
    rw [source, if_neg (not_not.mpr hmute), hcall]
    apply Option.bind_eq_some_iff.mpr ⟨buf₁, hbuf₁, ?_⟩
    rw [if_pos hneg]
    apply Option.bind_eq_some_iff.mpr ⟨_, uacTone_iff.mpr ⟨rfl, by omega⟩, ?_⟩
    apply Option.bind_eq_some_iff.mpr ⟨_, hbuf₂, ?_⟩
    apply Option.bind_eq_some_iff.mpr ⟨_, hproduced, ?_⟩
    show some (user, buf₂, ((frames * 2 : Nat) : Int).tdiv 2) = _
    rw [hhalf]
  · have htake := (take_poke hbuf₂).2
    rw [htone, (take_poke hbuf₁).1] at htake
    exact htake

/-- The microphone streams, and has streamed `n` samples. -/
structure Plays (st : UacStream σ) (n : Nat) : Prop where
  on : st.micOn = true
  unmuted : st.control.mute 1 = 0
  samples : st.micSamples = .ofNat n

theorem packet_fits (hsrc : src.BuiltIn) {n : Nat} (hst : st.Plays n) {buf : List UInt8}
    {off req : UInt32} (hoff : off.toNat ≤ buf.length)
    {r : UacStream σ × List UInt8 × UInt32 × UInt32} (h : st.packet src buf off req = some r) :
    req.toNat < 2 ^ 31 ∧ off.toNat + req.toNat / 2 * 2 ≤ buf.length := by
  rw [packet] at h
  by_cases hskip : ¬st.micOn ∨ req.toNat / 2 = 0
  · have hnone : req.toNat / 2 = 0 := hskip.resolve_left (not_not.mpr hst.on)
    omega
  · rw [if_neg hskip] at h
    obtain ⟨_, hsource, -⟩ := Option.bind_eq_some_iff.mp h
    have hfits := source_fits hsrc hst.unmuted hsource
    omega

theorem packet_some (hsrc : src.BuiltIn) {n : Nat} (hst : st.Plays n) {buf : List UInt8}
    {off : Nat} {req : UInt32} (hreq : req.toNat < 2 ^ 31)
    (hroom : off + req.toNat / 2 * 2 ≤ buf.length) (hbuf : buf.length < 2 ^ 32) :
    ∃ st' buf' len, st.packet src buf (.ofNat off) req =
        some (st', buf', .ofNat (off + req.toNat / 2 * 2), len) ∧
      len.toNat = req.toNat / 2 * 2 ∧ st'.Plays (n + req.toNat / 2) ∧
      buf'.length = buf.length ∧ buf'.take (off + req.toNat / 2 * 2) =
        buf.take off ++ toneFrom (.ofNat n) (req.toNat / 2) := by
  have hoff : (UInt32.ofNat off).toNat = off := UInt32.toNat_ofNat_of_lt' (by
    simp only [UInt32.size]
    omega)
  rw [packet]
  by_cases hnone : req.toNat / 2 = 0
  · rw [if_pos (.inr hnone), hnone]
    refine ⟨st, buf, 0, rfl, rfl, hst, rfl, ?_⟩
    exact (List.append_nil _).symm
  · obtain ⟨user, buf', hsource, hlen, htake⟩ :=
      source_some hsrc hst.unmuted (by omega : req.toNat / 2 ≤ 1073741823) hroom
    have hlength : (UInt32.ofInt (req.toNat / 2 : Nat) * 2) = .ofNat (req.toNat / 2 * 2) := by
      rw [UInt32.ofNat_mul, ofInt_natCast]
      rfl
    rw [if_neg (not_or.mpr ⟨not_not.mpr hst.on, hnone⟩), hoff, hsource]
    refine ⟨{ st with user, micSamples := st.micSamples + .ofInt (req.toNat / 2 : Nat) }, buf',
      .ofInt (req.toNat / 2 : Nat) * 2, ?_, ?_, ?_, hlen, ?_⟩
    · rw [UInt32.ofNat_add, ← hlength]
      rfl
    · rw [hlength]
      exact UInt32.toNat_ofNat_of_lt' (by simp only [UInt32.size]; omega)
    · refine ⟨hst.on, hst.unmuted, ?_⟩
      rw [UInt32.ofNat_add, ← hst.samples, ← ofInt_natCast (req.toNat / 2)]
    · rw [htake, hst.samples]

/-- The packets of a transfer go through when they fit, and hold the next samples. -/
theorem inIso_fits (hsrc : src.BuiltIn) {n : Nat} (hst : st.Plays n) {buf : List UInt8}
    {off : Nat} {lens : List UInt32} (hoff : off ≤ buf.length) (hbuf : buf.length < 2 ^ 32)
    {r : UacStream σ × List UInt8 × List UInt32}
    (h : st.inIso src buf (.ofNat off) lens = some r) :
    (∀ len ∈ lens, len.toNat < 2 ^ 31) ∧ off + count lens * 2 ≤ buf.length := by
  induction lens generalizing st buf off n r with
  | nil => exact ⟨fun _ h => absurd h List.not_mem_nil, hoff⟩
  | cons req lens ih =>
    have hoff' : (UInt32.ofNat off).toNat = off := UInt32.toNat_ofNat_of_lt' (by
      simp only [UInt32.size]
      omega)
    obtain ⟨r₁, hpacket, h⟩ := Option.bind_eq_some_iff.mp h
    have hfits := packet_fits hsrc hst (by omega) hpacket
    rw [hoff'] at hfits
    obtain ⟨st', buf', len, hsome, -, hst', hlen, -⟩ :=
      packet_some hsrc hst hfits.1 hfits.2 hbuf
    obtain rfl := Option.some.inj (hsome.symm.trans hpacket)
    obtain ⟨r₂, hrest, -⟩ := Option.bind_eq_some_iff.mp h
    obtain ⟨hall, hroom⟩ := ih hst' (by omega) (by omega) hrest
    refine ⟨List.forall_mem_cons.mpr ⟨hfits.1, hall⟩, ?_⟩
    have hcount : count (req :: lens) = req.toNat / 2 + count lens := List.sum_cons
    omega

theorem inIso_some (hsrc : src.BuiltIn) {n : Nat} (hst : st.Plays n) {buf : List UInt8}
    {off : Nat} {lens : List UInt32} (hlens : ∀ len ∈ lens, len.toNat < 2 ^ 31)
    (hroom : off + count lens * 2 ≤ buf.length) (hbuf : buf.length < 2 ^ 32) :
    ∃ st' buf' actual, st.inIso src buf (.ofNat off) lens = some (st', buf', actual) ∧
      actual.map UInt32.toNat = lens.map (fun len => len.toNat / 2 * 2) ∧
      st'.Plays (n + count lens) ∧ buf'.length = buf.length ∧
      buf'.take (off + count lens * 2) = buf.take off ++ toneFrom (.ofNat n) (count lens) := by
  induction lens generalizing st buf off n with
  | nil => exact ⟨st, buf, [], rfl, rfl, hst, rfl, (List.append_nil _).symm⟩
  | cons req lens ih =>
    obtain ⟨hreq, hlens⟩ := List.forall_mem_cons.mp hlens
    have hcount : count (req :: lens) = req.toNat / 2 + count lens := List.sum_cons
    rw [hcount] at hroom ⊢
    have hroom₀ : off + req.toNat / 2 * 2 ≤ buf.length := by omega
    obtain ⟨st₁, buf₁, len, hpacket, hlen, hst₁, hlen₁, htake₁⟩ :=
      packet_some hsrc hst hreq hroom₀ hbuf
    have hroom₁ : off + req.toNat / 2 * 2 + count lens * 2 ≤ buf₁.length := by omega
    obtain ⟨st₂, buf₂, actual, hrest, hactual, hst₂, hlen₂, htake₂⟩ :=
      ih hst₁ hlens hroom₁ (hlen₁ ▸ hbuf)
    refine ⟨st₂, buf₂, len :: actual, ?_, ?_, ?_, hlen₂.trans hlen₁, ?_⟩
    · apply Option.bind_eq_some_iff.mpr ⟨_, hpacket, ?_⟩
      exact Option.bind_eq_some_iff.mpr ⟨_, hrest, rfl⟩
    · rw [List.map_cons, List.map_cons, hlen, hactual]
    · rw [← Nat.add_assoc]
      exact hst₂
    · rw [toneFrom_add, ← List.append_assoc, ← htake₁, ← UInt32.ofNat_add, ← htake₂]
      congr 1
      omega

end UacStream

/-- The sizes that a host may request of one transfer: each is an `int`, and so is the buffer for
all of them a 32-bit size. -/
def Uac.Fits (lens : List UInt32) : Prop :=
  (∀ len ∈ lens, len.toNat < 2147483648) ∧ (lens.map UInt32.toNat).sum < 4294967296

theorem Uac.sum_even (lens : List UInt32) :
    (lens.map fun len => len.toNat / 2 * 2).sum = count lens * 2 := by
  induction lens with
  | nil => rfl
  | cons len lens ih =>
    have hcount : count (len :: lens) = len.toNat / 2 + count lens := List.sum_cons
    rw [List.map_cons, List.sum_cons, ih, hcount, Nat.add_mul]

theorem Uac.sum_le_count (lens : List UInt32) :
    count lens * 2 ≤ (lens.map UInt32.toNat).sum ∧
      (lens.map UInt32.toNat).sum ≤ count lens * 2 + lens.length := by
  induction lens with
  | nil => exact ⟨Nat.le_refl 0, Nat.le_refl 0⟩
  | cons len lens ih =>
    have hcount : count (len :: lens) = len.toNat / 2 + count lens := List.sum_cons
    rw [List.map_cons, List.sum_cons, List.length_cons, hcount]
    omega

namespace UacTrace

variable {t : UacTrace σ}

/-- The packets are the tone from its first sample on, each with the whole samples for which there
is room in what has been requested. -/
structure IsTone (t : UacTrace σ) : Prop where
  tone : t.packets.flatten = toneFrom 0 (count t.requested)
  sizes : t.packets.map List.length = t.requested.map fun req => req.toNat / 2 * 2

/-- The microphone streams, and what it has streamed is the tone. -/
structure Playing (t : UacTrace σ) : Prop extends t.IsTone where
  plays : t.st.Plays (count t.requested)

/-- A transfer goes through exactly when its sizes fit. -/
theorem isoIn_fits (hsrc : src.BuiltIn) (h : t.Playing) {lens : List UInt32}
    (np : lens.length < 2 ^ 31) {scratch : Nat → UInt8} {t' : UacTrace σ}
    (hstep : t.isoIn src lens scratch = some t') : Uac.Fits lens := by
  obtain ⟨r, hiso, -⟩ := Option.bind_eq_some_iff.mp hstep
  have hroom := length_allocated lens scratch
  have hcount := Uac.sum_le_count lens
  have hbuf : (allocated lens scratch).length < 2 ^ 32 := by
    rw [hroom]
    split <;> omega
  obtain ⟨hall, hfits⟩ := UacStream.inIso_fits hsrc h.plays (Nat.zero_le _) hbuf hiso
  refine ⟨hall, ?_⟩
  rw [hroom] at hfits
  -- a packet leaves out one byte at most, and there are fewer packets than would make up a wrap
  split at hfits <;> omega

theorem isoIn_some (hsrc : src.BuiltIn) (h : t.Playing) {lens : List UInt32}
    (hfits : Uac.Fits lens) (scratch : Nat → UInt8) :
    ∃ t', t.isoIn src lens scratch = some t' ∧ t'.Playing := by
  have hroom := length_allocated lens scratch
  have hcount := Uac.sum_le_count lens
  have hsum := hfits.2
  have hle : 0 + count lens * 2 ≤ (allocated lens scratch).length := by
    rw [hroom]
    split <;> omega
  have hbuf : (allocated lens scratch).length < 2 ^ 32 := by
    rw [hroom]
    split <;> omega
  obtain ⟨st, buf, actual, hiso, hactual, hst, hlen, htake⟩ :=
    UacStream.inIso_some hsrc h.plays hfits.1 hle hbuf
  have htotal : (actual.map UInt32.toNat).sum = count lens * 2 := by
    rw [hactual, Uac.sum_even]
  have hrequested : count (t.requested ++ lens) = count t.requested + count lens :=
    count_append _ _
  refine ⟨⟨st, t.requested ++ lens, t.packets ++ packetsOf buf actual⟩,
    Option.bind_eq_some_iff.mpr ⟨_, hiso, rfl⟩, ⟨?_, ?_⟩, ?_⟩
  · rw [hrequested, toneFrom_add, List.flatten_append, h.tone, flatten_packetsOf, htotal]
    congr 1
    rw [Nat.zero_add] at htake
    rw [htake, UInt32.zero_add]
    rfl
  · rw [List.map_append, List.map_append, h.sizes, length_packetsOf (by omega), hactual]
  · rw [hrequested]
    exact hst

end UacTrace

/-- The microphone is not switched off or muted. -/
def UacAct.InSession (src : UacSource σ) : UacAct → Prop
  | .setAlt ifnum alt => ifnum = src.micIf.toNat → alt ≠ 0
  | .control setup buf len => ∀ st : UacState, st.mute 1 = 0 →
    (uacControl st setup buf len).state.mute 1 = 0
  | .isoIn .. => True

def UacAct.Fits : UacAct → Prop
  | .isoIn lens _ _ => Uac.Fits lens
  | _ => True

namespace UacTrace

variable {t : UacTrace σ}

theorem Playing.setAlt (h : t.Playing) {ifnum alt : Int}
    (hmic : ifnum = src.micIf.toNat → alt ≠ 0) :
    Playing { t with st := t.st.setAlt src ifnum alt } := by
  have hplays : (t.st.setAlt src ifnum alt).Plays (count t.requested) := by
    obtain ⟨hon, hunmuted, hsamples⟩ := h.plays
    unfold UacStream.setAlt
    by_cases hspk : ifnum = src.spkIf.toNat
    · rw [if_pos hspk]
      split
      · exact ⟨hon, hunmuted, hsamples⟩
      · split
        · exact ⟨hon, hunmuted, hsamples⟩
        · exact h.plays
    · rw [if_neg hspk]
      by_cases hifnum : ifnum = src.micIf.toNat
      · rw [if_pos hifnum, if_neg (fun hc => hc.2 hon), if_neg (fun hc => hmic hifnum hc.1)]
        exact h.plays
      · rw [if_neg hifnum]
        exact h.plays
  exact { h with plays := hplays }

theorem keep_step (hsrc : src.BuiltIn) (h : t.Playing) {a : UacAct} (hsession : a.InSession src)
    (hfits : a.Fits) : ∃ t', t.step src a = some t' ∧ t'.Playing := by
  cases a with
  | setAlt ifnum alt => exact ⟨_, rfl, h.setAlt hsession⟩
  | control setup buf len =>
    obtain ⟨hon, hunmuted, hsamples⟩ := h.plays
    exact ⟨_, rfl, { h with plays := ⟨hon, hsession _ hunmuted, hsamples⟩ }⟩
  | isoIn lens np scratch => exact isoIn_some hsrc h hfits scratch

theorem playing_start {st : UacStream σ} (hoff : st.micOn = false) (hmute : st.control.mute 1 = 0) :
    Playing ⟨st.setAlt src src.micIf.toNat 1, [], []⟩ := by
  have hapart : (src.micIf.toNat : Int) ≠ src.spkIf.toNat := by
    intro h
    have heq : src.micIf = src.spkIf := UInt8.toNat_inj.mp (Int.ofNat_inj.mp h)
    have hnext := congrArg UInt8.toNat (heq.symm.trans src.ifs_eq)
    have hone : (1 : UInt8).toNat = 1 := rfl
    rw [UInt8.toNat_add, hone] at hnext
    omega
  have hstart : st.setAlt src src.micIf.toNat 1 = { st with micOn := true, micSamples := 0 } := by
    rw [UacStream.setAlt, if_neg hapart, if_pos rfl, if_pos ⟨rfl, by simp [hoff]⟩]
  refine ⟨⟨rfl, rfl⟩, ?_⟩
  rw [hstart]
  exact ⟨rfl, hmute, rfl⟩

/-- While the microphone streams the built-in tone, the transfers all go through and their packets
are the one tone all the time, exactly when the sizes of each transfer fit; and a tone can be made
in two parts. -/
theorem tone_seamless (hsrc : src.BuiltIn) {st : UacStream σ} (hoff : st.micOn = false)
    (hmute : st.control.mute 1 = 0) {acts : List UacAct} (hacts : ∀ a ∈ acts, a.InSession src) :
    ((∃ t, exec (step src) ⟨st.setAlt src src.micIf.toNat 1, [], []⟩ acts = some t) ∧
        Throughout (step src) IsTone ⟨st.setAlt src src.micIf.toNat 1, [], []⟩ acts ↔
      ∀ a ∈ acts, a.Fits) ∧
    ∀ (index : UInt32) (a b : Nat), a + b ≤ 1073741824 →
      uacTone (a + b) index =
        (uacTone a index).bind fun first =>
          (uacTone b (index + .ofNat a)).map fun second => first ++ second := by
  constructor
  · refine succeeds_iff_forall (I := Playing) (D := UacAct.InSession src) (fun _ h => h.toIsTone)
      (fun _ _ h hs hf => keep_step hsrc h hs hf) ?_ (playing_start hoff hmute) hacts
    intro t a t' h hs hf hstep
    cases a with
    | isoIn lens np scratch => exact absurd (isoIn_fits hsrc h np hstep) hf
    | setAlt => exact absurd trivial hf
    | control => exact absurd trivial hf
  · intro index a b hle
    have hleft : a ≤ 1073741824 := by omega
    have hright : b ≤ 1073741824 := by omega
    rw [uacTone_iff.mpr ⟨rfl, hle⟩, uacTone_iff.mpr ⟨rfl, hleft⟩, uacTone_iff.mpr ⟨rfl, hright⟩,
      toneFrom_add]
    rfl

/-- A function without an application. -/
def sampleMic : UacSource Unit := ⟨1, 2, rfl, none⟩

def idleMic : UacStream Unit := ⟨⟨fun _ => 0, fun _ => 0xf600⟩, false, false, 7, ()⟩

theorem sampleMic_builtIn : sampleMic.BuiltIn := by
  intro next h
  cases h

/-- Two transfers with packets of odd and tiny sizes. -/
theorem tone_seamless_odd : ((∃ t, exec (step sampleMic) ⟨idleMic.setAlt sampleMic 2 1, [], []⟩
      [.isoIn [5, 1, 0, 4] (by decide) fun _ => 0, .setAlt 1 1, .isoIn [3] (by decide) fun _ => 0] =
        some t) ∧
    Throughout (step sampleMic) IsTone ⟨idleMic.setAlt sampleMic 2 1, [], []⟩
      [.isoIn [5, 1, 0, 4] (by decide) fun _ => 0, .setAlt 1 1,
        .isoIn [3] (by decide) fun _ => 0]) := by
  have hsession : ∀ a ∈ [UacAct.isoIn [5, 1, 0, 4] (by decide) fun _ => 0, .setAlt 1 1,
      .isoIn [3] (by decide) fun _ => 0], a.InSession sampleMic := by
    simp [UacAct.InSession, sampleMic]
  have hfirst : Uac.Fits [5, 1, 0, 4] := by simp [Uac.Fits]
  have hsecond : Uac.Fits [3] := by simp [Uac.Fits]
  refine (tone_seamless sampleMic_builtIn (show idleMic.micOn = false from rfl) rfl
    hsession).1.mpr ?_
  simp [UacAct.Fits, hfirst, hsecond]

/-- A packet of `2 ^ 31 + 2` bytes: `k * 2` overflows in `uac_tone`. -/
theorem tone_huge : ¬((∃ t, exec (step sampleMic) ⟨idleMic.setAlt sampleMic 2 1, [], []⟩
      [.isoIn [0x80000002] (by decide) fun _ => 0] = some t) ∧
    Throughout (step sampleMic) IsTone ⟨idleMic.setAlt sampleMic 2 1, [], []⟩
      [.isoIn [0x80000002] (by decide) fun _ => 0]) := by
  rintro ⟨⟨t, hrun⟩, -⟩
  obtain ⟨t', hstep, -⟩ := exec_cons_some hrun
  have hplaying : Playing ⟨idleMic.setAlt sampleMic 2 1, [], []⟩ :=
    playing_start (show idleMic.micOn = false from rfl) rfl
  have hfits := isoIn_fits sampleMic_builtIn hplaying (by decide) hstep
  exact absurd (hfits.1 _ List.mem_cons_self) (by decide)

end UacTrace

end Usbip.Classes
