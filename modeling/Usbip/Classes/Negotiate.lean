import Usbip.Classes.Image
import Usbip.Classes.Uvc
import Usbip.Control.Partition

/-! What a UVC function advertises in its descriptors, and what a host negotiates with it. -/

namespace Usbip.Classes

open Lib Control
open Device (u16le)

/-- What `uvc_opts` says about the formats. -/
structure UvcOpts where
  width : UInt16
  height : UInt16
  fps : UInt32
  formats : UInt32
  deriving DecidableEq, Repr

/-- A format and a frame of it, with its one interval and the size of its frames. -/
structure UvcOffer where
  format : UInt8
  frame : UInt8
  interval : UInt32
  size : UInt32
  deriving DecidableEq, Repr

namespace UvcOpts

variable (opts : UvcOpts)

/-- `opts->formats`, which is `UVC_HAS_YUYV` when it is 0. -/
def offered : UInt32 := orOld opts.formats 1

def hasYuyv : Bool := opts.offered &&& 1 ≠ 0

def hasMjpeg : Bool := opts.offered &&& 2 ≠ 0

def yuyvIdx : UInt8 := if opts.hasYuyv then 1 else 0

def mjpegIdx : UInt8 := if opts.hasMjpeg then opts.yuyvIdx + 1 else 0

def nfmt : UInt8 := if opts.hasMjpeg then opts.mjpegIdx else opts.yuyvIdx

def fmtChar : Vector UInt8 4 :=
  let none := Vector.replicate 4 0
  let yuyv := if opts.hasYuyv then none.setIfInBounds opts.yuyvIdx.toNat 0x59 else none
  if opts.hasMjpeg then yuyv.setIfInBounds opts.mjpegIdx.toNat 0x4d else yuyv

def rate : UInt32 := orOld opts.fps 30

def interval : UInt32 := 10000000 / opts.rate

def frameBytes : UInt32 := opts.width.toUInt32 * opts.height.toUInt32 * 2

def bitrate : UInt32 := opts.frameBytes * 8 * opts.rate

/-! ### The descriptors of the streaming interface -/

def inputHeader (vsEp : UInt8) : List UInt8 :=
  let vsTotal : UInt16 := 13 + opts.nfmt.toUInt16 + (if opts.hasYuyv then 27 + 30 + 6 else 0) +
    if opts.hasMjpeg then 11 + 30 + 6 else 0
  [13 + opts.nfmt, 0x24, 0x01, opts.nfmt] ++ u16le vsTotal ++ [vsEp, 0, 2, 0, 0, 0, 1] ++
    List.replicate opts.nfmt.toNat 0

/-- The frame descriptor behind a format. -/
def frameDesc (subtype : UInt8) : List UInt8 :=
  [30, 0x24, subtype, 1, 0] ++ u16le opts.width ++ u16le opts.height ++ u32le opts.bitrate ++
    u32le opts.bitrate ++ u32le opts.frameBytes ++ u32le opts.interval ++ [1] ++
    u32le opts.interval

def colorDesc : List UInt8 := [6, 0x24, 0x0d, 1, 1, 4]

def formatUncomp : List UInt8 :=
  [27, 0x24, 0x04, opts.yuyvIdx, 1, 0x59, 0x55, 0x59, 0x32, 0, 0, 0x10, 0, 0x80, 0, 0, 0xaa, 0,
    0x38, 0x9b, 0x71, 16, 1, 0, 0, 0, 0]

def formatMjpeg : List UInt8 := [11, 0x24, 0x06, opts.mjpegIdx, 1, 0, 1, 0, 0, 0, 0]

def vsDescs (vsEp : UInt8) : List (List UInt8) :=
  opts.inputHeader vsEp ::
    (if opts.hasYuyv then [opts.formatUncomp, opts.frameDesc 0x05, colorDesc] else []) ++
    if opts.hasMjpeg then [opts.formatMjpeg, opts.frameDesc 0x07, colorDesc] else []

/-- What a host finds in the descriptors, after one of a format. -/
def readOffers (format : UInt8) : List (List UInt8) → List UvcOffer
  | [] => []
  | desc :: descs =>
    let subtype := desc.getD 2 0
    if subtype = 0x04 ∨ subtype = 0x06 then readOffers (desc.getD 3 0) descs
    else if subtype = 0x05 ∨ subtype = 0x07 then
      ⟨format, desc.getD 3 0, getLe32 (desc.drop 26), getLe32 (desc.drop 17)⟩ ::
        readOffers format descs
    else readOffers format descs

end UvcOpts

/-- A function that `uvc_build` has built: the arithmetic and the allocation of the frame buffer
have succeeded. -/
structure UvcCam (σ : Type) where
  opts : UvcOpts
  highSpeed : Bool
  vsEp : UInt8
  cap : Nat
  cap_eq : (cap : Int) = opts.frameBytes.toInt32.toInt + 1024
  cap_lt : cap < 2 ^ 31
  nextFrame : Option (σ → List UInt8 → UInt8 → UInt32 → σ × List UInt8 × Int)

namespace UvcCam

variable {σ : Type} (cam : UvcCam σ)

def isoMps : UInt16 := if cam.highSpeed then 1024 else 1023

/-- The descriptor of the isochronous endpoint. -/
def endpoint : List UInt8 := [7, 5, cam.vsEp, 1 ||| 4 ||| 0] ++ u16le cam.isoMps ++ [1]

def source : UvcSource σ where
  width := cam.opts.width
  height := cam.opts.height
  fmtChar := cam.opts.fmtChar
  cap := cam.cap
  cap_lt := cam.cap_lt
  nextFrame := cam.nextFrame

/-- What `uvc_build` leaves in the state. -/
def negotiated : UvcState where
  curFormat := 1
  curFrame := 1
  curInterval := cam.opts.interval
  maxFrameSize := cam.opts.frameBytes
  isoMps := cam.isoMps

def start (frame : List UInt8) (user : σ) : UvcTrace σ :=
  ⟨⟨cam.negotiated, false, 0, frame, 0, 0, 0, user⟩, [], [], [], true⟩

/-- The frames that the descriptors list. -/
def offers : List UvcOffer := UvcOpts.readOffers 0 (cam.opts.vsDescs cam.vsEp)

/-- The accesses to `fmt_char` for the log: a commit, and the start of a stream. -/
def logsFormat (st : UvcStream σ) : UvcAct → Prop
  | .control setup _ _ => msb setup.wValue = 2 ∧ setup.bRequest = 0x01
  | .setAlt alt => alt = 1 ∧ ¬st.streaming
  | .iso .. => False

instance (st : UvcStream σ) : ∀ a, Decidable (logsFormat st a)
  | .control .. => inferInstanceAs (Decidable (_ ∧ _))
  | .setAlt _ => inferInstanceAs (Decidable (_ ∧ _))
  | .iso .. => inferInstanceAs (Decidable False)

/-- A step with its accesses to `fmt_char`, `none` when one is out of range. -/
def step (t : UvcTrace σ) (a : UvcAct) : Option (UvcTrace σ) :=
  (t.step cam.source a).bind fun next =>
    if logsFormat t.st a then
      cam.opts.fmtChar[next.st.negotiated.curFormat.toNat]?.map fun _ => next
    else some next

/-- `GET_CUR` of the probe or the commit control. -/
def IsGetCur (setup : Setup) : Prop :=
  (msb setup.wValue = 1 ∨ msb setup.wValue = 2) ∧ setup.bRequest = 0x81

/-- What a host reads from a probe: the frame, and the payload size. -/
def readProbe (reply : List UInt8) : UvcOffer × UInt32 :=
  (⟨reply.getD 2 0, reply.getD 3 0, getLe32 (reply.drop 4), getLe32 (reply.drop 18)⟩,
    getLe32 (reply.drop 22))

/-- The negotiated state is one that the function advertises, and so is what `GET_CUR` reports. -/
structure Supported (st : UvcState) : Prop where
  format : 1 ≤ st.curFormat.toNat ∧
    st.curFormat.toNat ≤ ((cam.opts.inputHeader cam.vsEp).getD 3 0).toNat
  frame : ∃ offer ∈ cam.offers, offer.format = st.curFormat ∧ offer.frame = st.curFrame
  reported : ∀ setup buf len, IsGetCur setup →
    (readProbe (replied (uvcControl st setup buf len) buf)).1 ∈ cam.offers ∧
      (readProbe (replied (uvcControl st setup buf len) buf)).2 =
        (getLe16 (cam.endpoint.drop 4)).toUInt32

/-- A `SET_CUR` of the probe or the commit control asks for nothing but what there is, 0 being what
there is already. -/
def Asks : UvcAct → Prop
  | .control setup buf len =>
    msb setup.wValue = 1 ∨ msb setup.wValue = 2 → setup.bRequest = 0x01 →
      (4 ≤ len.toNat → (buf 2).toNat ≤ cam.opts.nfmt.toNat ∧ (buf 3).toNat ≤ 1) ∧
      (8 ≤ len.toNat → getLe32 (fetch buf 4 4) = 0 ∨ getLe32 (fetch buf 4 4) = cam.opts.interval)
  | _ => True

/-! ### What is advertised -/

theorem readOffers_frame {format : UInt8} {desc : List UInt8} (hfmt : ¬(desc.getD 2 0 = 0x04 ∨
    desc.getD 2 0 = 0x06)) (hframe : desc.getD 2 0 = 0x05 ∨ desc.getD 2 0 = 0x07)
    (descs : List (List UInt8)) : UvcOpts.readOffers format (desc :: descs) =
      ⟨format, desc.getD 3 0, getLe32 (desc.drop 26), getLe32 (desc.drop 17)⟩ ::
        UvcOpts.readOffers format descs := by
  rw [UvcOpts.readOffers]
  exact (if_neg hfmt).trans (if_pos hframe)

/-- The host finds the one frame of a format that `uvc_build` describes. -/
theorem readOffers_frameDesc (opts : UvcOpts) (format : UInt8) {subtype : UInt8}
    (h : subtype = 0x05 ∨ subtype = 0x07) (descs : List (List UInt8)) :
    UvcOpts.readOffers format (opts.frameDesc subtype :: UvcOpts.colorDesc :: descs) =
      ⟨format, 1, opts.interval, opts.frameBytes⟩ :: UvcOpts.readOffers format descs := by
  have hinterval : getLe32 ((opts.frameDesc subtype).drop 26) = opts.interval :=
    getLe32_u32le opts.interval []
  have hsize : getLe32 ((opts.frameDesc subtype).drop 17) = opts.frameBytes :=
    getLe32_u32le opts.frameBytes _
  have hsub : (opts.frameDesc subtype).getD 2 0 = subtype := rfl
  rw [readOffers_frame (by rw [hsub]; rcases h with rfl | rfl <;> decide) (by rwa [hsub]),
    hinterval, hsize]
  rfl

theorem offers_eq : cam.offers = (List.range cam.opts.nfmt.toNat).map fun i =>
    ⟨(i + 1).toUInt8, 1, cam.opts.interval, cam.opts.frameBytes⟩ := by
  have hcons : ∀ format desc descs, desc.getD 2 0 = 0x04 ∨ desc.getD 2 0 = 0x06 →
      UvcOpts.readOffers format (desc :: descs) = UvcOpts.readOffers (desc.getD 3 0) descs :=
    fun _ _ _ h => if_pos h
  have hheader : ∀ descs, UvcOpts.readOffers 0 (cam.opts.inputHeader cam.vsEp :: descs) =
    UvcOpts.readOffers 0 descs := fun _ => rfl
  have huncomp : (cam.opts.formatUncomp).getD 3 0 = cam.opts.yuyvIdx := rfl
  have hcompressed : (cam.opts.formatMjpeg).getD 3 0 = cam.opts.mjpegIdx := rfl
  rw [offers, UvcOpts.vsDescs, List.cons_append, hheader]
  cases hyuyv : cam.opts.hasYuyv <;> cases hmjpeg : cam.opts.hasMjpeg
  · simp [UvcOpts.nfmt, UvcOpts.yuyvIdx, hyuyv, hmjpeg, UvcOpts.readOffers]
  · rw [if_neg (by decide), if_pos rfl, List.nil_append, hcons _ _ _ (.inr rfl),
      readOffers_frameDesc _ _ (.inr rfl), hcompressed]
    simp [UvcOpts.nfmt, UvcOpts.yuyvIdx, UvcOpts.mjpegIdx, hyuyv, hmjpeg, UvcOpts.readOffers]
  · rw [if_pos rfl, if_neg (by decide), List.append_nil, hcons _ _ _ (.inl rfl),
      readOffers_frameDesc _ _ (.inl rfl), huncomp]
    simp [UvcOpts.nfmt, UvcOpts.yuyvIdx, hyuyv, hmjpeg, UvcOpts.readOffers]
  · rw [if_pos rfl, if_pos rfl, List.cons_append, hcons _ _ _ (.inl rfl), List.cons_append,
      List.cons_append, readOffers_frameDesc _ _ (.inl rfl), List.nil_append,
      hcons _ _ _ (.inr rfl), readOffers_frameDesc _ _ (.inr rfl), huncomp, hcompressed]
    simp [UvcOpts.nfmt, UvcOpts.yuyvIdx, UvcOpts.mjpegIdx, hyuyv, hmjpeg, UvcOpts.readOffers]
    rfl

/-- A frame is advertised when its format is one of those of the header. -/
theorem mem_offers_iff {offer : UvcOffer} : offer ∈ cam.offers ↔
    (1 ≤ offer.format.toNat ∧ offer.format.toNat ≤ cam.opts.nfmt.toNat) ∧ offer.frame = 1 ∧
      offer.interval = cam.opts.interval ∧ offer.size = cam.opts.frameBytes := by
  have hn := cam.opts.nfmt.toNat_lt
  have hindex : ∀ i < cam.opts.nfmt.toNat, (i + 1).toUInt8.toNat = i + 1 := fun i hi =>
    UInt8.toNat_ofNat_of_lt' (by simp only [UInt8.size]; omega)
  rw [offers_eq, List.mem_map]
  constructor
  · rintro ⟨i, hi, rfl⟩
    have hi := List.mem_range.mp hi
    refine ⟨?_, rfl, rfl, rfl⟩
    rw [hindex i hi]
    omega
  · obtain ⟨format, frame, interval, size⟩ := offer
    rintro ⟨⟨hpos, hle⟩, rfl, rfl, rfl⟩
    refine ⟨format.toNat - 1, List.mem_range.mpr (by dsimp only at *; omega), ?_⟩
    have hformat : (format.toNat - 1 + 1).toUInt8 = format := by
      rw [Nat.sub_add_cancel hpos]
      exact UInt8.ofNat_toNat
    rw [hformat]

/-- `GET_CUR` reports the state. -/
theorem readProbe_getCur (st : UvcState) {setup : Setup} (h : IsGetCur setup) (buf : Contents)
    (len : UInt16) : readProbe (replied (uvcControl st setup buf len) buf) =
      (⟨st.curFormat, st.curFrame, st.curInterval, st.maxFrameSize⟩, st.isoMps.toUInt32) := by
  obtain ⟨hcs, hrq⟩ := h
  have hhandled : uvcControl st setup buf len = ⟨(fillProbe st).map .write, st, 34⟩ := by
    unfold uvcControl
    rw [hrq, if_neg (fun h => hcs.elim h.1 h.2), if_neg (by decide), if_neg (by decide),
      if_pos (.inl rfl)]
  rw [hhandled]
  have hreply : ∃ rest, replied ⟨(fillProbe st).map .write, st, 34⟩ buf =
      [1, 0, st.curFormat, st.curFrame] ++ u32le st.curInterval ++ List.replicate 10 0 ++
        u32le st.maxFrameSize ++ u32le st.isoMps.toUInt32 ++ rest := ⟨_, rfl⟩
  obtain ⟨rest, hreply⟩ := hreply
  have hinterval : getLe32 ((replied ⟨(fillProbe st).map .write, st, 34⟩ buf).drop 4) =
      st.curInterval := by
    rw [hreply]
    exact getLe32_u32le st.curInterval _
  have hsize : getLe32 ((replied ⟨(fillProbe st).map .write, st, 34⟩ buf).drop 18) =
      st.maxFrameSize := by
    rw [hreply]
    exact getLe32_u32le st.maxFrameSize _
  have hpayload : getLe32 ((replied ⟨(fillProbe st).map .write, st, 34⟩ buf).drop 22) =
      st.isoMps.toUInt32 := by
    rw [hreply]
    exact getLe32_u32le st.isoMps.toUInt32 _
  rw [readProbe, hinterval, hsize, hpayload, hreply]
  rfl

theorem supported_iff {st : UvcState} : cam.Supported st ↔
    (1 ≤ st.curFormat.toNat ∧ st.curFormat.toNat ≤ cam.opts.nfmt.toNat) ∧ st.curFrame = 1 ∧
      st.curInterval = cam.opts.interval ∧ st.maxFrameSize = cam.opts.frameBytes ∧
      st.isoMps = cam.isoMps := by
  have hmps : getLe16 (cam.endpoint.drop 4) = cam.isoMps := getLe16_u16le cam.isoMps [1]
  constructor
  · intro h
    obtain ⟨hoffer, hpayload⟩ :=
      h.reported ⟨0xa1, 0x81, 0x0100, 0, 34⟩ (fun _ => 0) 34 ⟨.inl rfl, rfl⟩
    rw [readProbe_getCur st ⟨.inl rfl, rfl⟩] at hoffer hpayload
    rw [hmps] at hpayload
    obtain ⟨hformat, hframe, hinterval, hsize⟩ := cam.mem_offers_iff.mp hoffer
    exact ⟨hformat, hframe, hinterval, hsize, UInt16.toUInt32_inj.mp hpayload⟩
  · rintro ⟨hformat, hframe, hinterval, hsize, hpayload⟩
    have hoffer : ⟨st.curFormat, st.curFrame, st.curInterval, st.maxFrameSize⟩ ∈ cam.offers :=
      cam.mem_offers_iff.mpr ⟨hformat, hframe, hinterval, hsize⟩
    refine ⟨hformat, ⟨_, hoffer, rfl, rfl⟩, fun setup buf len hget => ?_⟩
    rw [readProbe_getCur st hget, hmps, ← hpayload]
    exact ⟨hoffer, rfl⟩

/-! ### Runs -/

theorem packPacket_negotiated (st : UvcStream σ) (req : UInt32) :
    (Uvc.packPacket st req).1.negotiated = st.negotiated := by
  unfold Uvc.packPacket
  dsimp only
  generalize (if st.frameLen - st.framePos < req - 2 then _ else _) = chunk
  split <;> rfl

theorem fill_negotiated {f : UvcFill σ} (hfmt : f.st.negotiated.curFormat.toNat < 4)
    (src : UvcSource σ) (req : UInt32) :
    ∃ f' len, UvcTrace.fill src f req = some (f', len) ∧ f'.st.negotiated = f.st.negotiated := by
  rw [UvcTrace.fill]
  by_cases hskip : ¬f.st.streaming ∨ req < 2
  · rw [if_pos hskip]
    exact ⟨_, _, rfl, rfl⟩
  · rw [if_neg hskip, Uvc.frameAtHand]
    by_cases hlen : f.st.frameLen = 0
    · rw [if_pos hlen, Uvc.produceFrame, Vector.getElem?_eq_getElem hfmt]
      exact ⟨_, _, rfl, packPacket_negotiated _ _⟩
    · rw [if_neg hlen]
      exact ⟨_, _, rfl, packPacket_negotiated _ _⟩

theorem onIso_negotiated {f : UvcFill σ} (hfmt : f.st.negotiated.curFormat.toNat < 4)
    (src : UvcSource σ) (lens : List UInt32) :
    ∃ f' actual, UvcTrace.onIso src f lens = some (f', actual) ∧
      f'.st.negotiated = f.st.negotiated := by
  induction lens generalizing f with
  | nil => exact ⟨f, [], rfl, rfl⟩
  | cons req lens ih =>
    obtain ⟨f₁, len, hfill, hsame⟩ := fill_negotiated hfmt src req
    obtain ⟨f₂, actual, hiso, hsame₂⟩ := ih (hsame ▸ hfmt)
    refine ⟨f₂, len :: actual, ?_, hsame₂.trans hsame⟩
    exact Option.bind_eq_some_iff.mpr ⟨_, hfill, Option.bind_eq_some_iff.mpr ⟨_, hiso, rfl⟩⟩

theorem isoIn_negotiated {t : UvcTrace σ} (hfmt : t.st.negotiated.curFormat.toNat < 4)
    (src : UvcSource σ) (lens : List UInt32) (scratch : Nat → UInt8) :
    ∃ t', t.isoIn src lens scratch = some t' ∧ t'.st.negotiated = t.st.negotiated := by
  obtain ⟨f, actual, hiso, hsame⟩ := onIso_negotiated
    (f := ⟨t.st, t.drawn, allocated lens scratch, t.inside, 0⟩) hfmt src lens
  exact ⟨_, Option.bind_eq_some_iff.mpr ⟨_, hiso, rfl⟩, hsame⟩

/-- The state that a control request leaves. -/
theorem uvcControl_state (st : UvcState) (setup : Setup) (buf : Contents) (len : UInt16) :
    (uvcControl st setup buf len).state =
      if (msb setup.wValue = 1 ∨ msb setup.wValue = 2) ∧ setup.bRequest = 0x01 then
        { st with
          curFormat := if 4 ≤ len.toNat then orOld (buf 2) st.curFormat else st.curFormat
          curFrame := if 4 ≤ len.toNat then orOld (buf 3) st.curFrame else st.curFrame
          curInterval :=
            if 8 ≤ len.toNat then orOld (getLe32 (fetch buf 4 4)) st.curInterval
            else st.curInterval }
      else st := by
  unfold uvcControl
  dsimp only
  by_cases hcs : msb setup.wValue = 1 ∨ msb setup.wValue = 2
  · rw [if_neg (fun h => hcs.elim h.1 h.2)]
    by_cases hrq : setup.bRequest = 0x01
    · rw [hrq, if_neg (by decide), if_neg (by decide), if_neg (by decide), if_pos rfl,
        if_pos ⟨hcs, rfl⟩]
      unfold uvcSetCur
      by_cases h8 : 8 ≤ len.toNat
      · have h4 : 4 ≤ len.toNat := by omega
        simp only [if_pos h8, if_pos h4]
      · by_cases h4 : 4 ≤ len.toNat
        · simp only [if_neg h8, if_pos h4]
        · simp only [if_neg h8, if_neg h4]
          rfl
    · have hother : ¬((msb setup.wValue = 1 ∨ msb setup.wValue = 2) ∧ setup.bRequest = 0x01) :=
        fun h => hrq h.2
      rw [if_neg hother, if_neg hrq]
      split
      · rfl
      · split
        · rfl
        · split <;> rfl
  · have hother : ¬((msb setup.wValue = 1 ∨ msb setup.wValue = 2) ∧ setup.bRequest = 0x01) :=
      fun h => hcs h.1
    rw [if_pos (not_or.mp hcs), if_neg hother]
    split <;> rfl

theorem orOld_range_iff {v old n : UInt8} (hold : 1 ≤ old.toNat ∧ old.toNat ≤ n.toNat) :
    (1 ≤ (orOld v old).toNat ∧ (orOld v old).toNat ≤ n.toNat) ↔ v.toNat ≤ n.toNat := by
  unfold orOld
  by_cases hv : v = 0
  · have hzero : v.toNat = 0 := UInt8.toNat_inj.mpr hv
    rw [if_neg (not_not.mpr hv)]
    omega
  · have hzero : v.toNat ≠ 0 := fun h => hv (UInt8.toNat_inj.mp h)
    rw [if_pos hv]
    omega

theorem orOld_one_iff (v : UInt8) : orOld v 1 = 1 ↔ v.toNat ≤ 1 := by
  have hone : v = 1 ↔ v.toNat = 1 := UInt8.toNat_inj.symm
  unfold orOld
  by_cases hv : v = 0
  · have hzero : v.toNat = 0 := UInt8.toNat_inj.mpr hv
    rw [if_neg (not_not.mpr hv)]
    exact iff_of_true rfl (by omega)
  · have hzero : v.toNat ≠ 0 := fun h => hv (UInt8.toNat_inj.mp h)
    rw [if_pos hv, hone]
    omega

theorem orOld_same_iff (v old : UInt32) : orOld v old = old ↔ v = 0 ∨ v = old := by
  unfold orOld
  by_cases hzero : v = 0
  · simp [hzero]
  · simp [hzero]

/-- A supported state is kept by the requests that ask for what there is, and by no others. -/
theorem supported_control_iff {st : UvcState} (h : cam.Supported st) (setup : Setup)
    (buf : Contents) (len : UInt16) :
    cam.Supported (uvcControl st setup buf len).state ↔ cam.Asks (.control setup buf len) := by
  rw [uvcControl_state]
  by_cases hset : (msb setup.wValue = 1 ∨ msb setup.wValue = 2) ∧ setup.bRequest = 0x01
  · obtain ⟨hformat, hframe, hinterval, hsize, hmps⟩ := cam.supported_iff.mp h
    rw [if_pos hset, supported_iff]
    have hasks : cam.Asks (.control setup buf len) ↔
        (4 ≤ len.toNat → (buf 2).toNat ≤ cam.opts.nfmt.toNat ∧ (buf 3).toNat ≤ 1) ∧
          (8 ≤ len.toNat →
            getLe32 (fetch buf 4 4) = 0 ∨ getLe32 (fetch buf 4 4) = cam.opts.interval) :=
      ⟨fun hall => hall hset.1 hset.2, fun hall _ _ => hall⟩
    rw [hasks, hframe, hinterval]
    by_cases h4 : 4 ≤ len.toNat
    · by_cases h8 : 8 ≤ len.toNat
      · simp only [h4, h8, ↓reduceIte, orOld_range_iff hformat, orOld_one_iff, orOld_same_iff,
          hsize, hmps, and_true, and_assoc, forall_const]
      · simp only [h4, h8, ↓reduceIte, orOld_range_iff hformat, orOld_one_iff, hsize, hmps,
          and_true, forall_const, false_imp_iff]
    · have h8 : ¬8 ≤ len.toNat := by omega
      simp only [h4, h8, ↓reduceIte, hformat.1, hformat.2, hsize, hmps, and_true, false_imp_iff]
  · rw [if_neg hset]
    exact iff_of_true h fun hcs hrq => absurd ⟨hcs, hrq⟩ hset

theorem nfmt_le : cam.opts.nfmt.toNat ≤ 2 := by
  unfold UvcOpts.nfmt UvcOpts.mjpegIdx UvcOpts.yuyvIdx
  cases cam.opts.hasYuyv <;> cases cam.opts.hasMjpeg <;> decide

theorem Supported.inTable {cam : UvcCam σ} {st : UvcState} (h : cam.Supported st) :
    st.curFormat.toNat < 4 := by
  have := (cam.supported_iff.mp h).1.2
  have := cam.nfmt_le
  omega

/-- With a supported state after it, a step has made no access out of range. -/
theorem step_eq_some {t next : UvcTrace σ} {a : UvcAct} (hstep : t.step cam.source a = some next)
    (h : cam.Supported next.st.negotiated) : cam.step t a = some next := by
  rw [step, hstep, Option.bind_some]
  split
  · rw [Vector.getElem?_eq_getElem h.inTable]
    rfl
  · rfl

theorem step_of_eq_some {t next : UvcTrace σ} {a : UvcAct} (h : cam.step t a = some next) :
    t.step cam.source a = some next := by
  obtain ⟨next', hnext, h⟩ := Option.bind_eq_some_iff.mp h
  rw [hnext]
  split at h
  · obtain ⟨_, -, rfl⟩ := Option.map_eq_some_iff.mp h
    rfl
  · exact h

theorem keep_step {t : UvcTrace σ} {a : UvcAct} (h : cam.Supported t.st.negotiated)
    (ha : cam.Asks a) : ∃ next, cam.step t a = some next ∧ cam.Supported next.st.negotiated := by
  cases a with
  | control setup buf len =>
    have hnext := (cam.supported_control_iff h setup buf len).mpr ha
    exact ⟨_, cam.step_eq_some rfl hnext, hnext⟩
  | setAlt alt =>
    have hnext : cam.Supported (UvcTrace.setAlt t.st alt).negotiated := by
      unfold UvcTrace.setAlt
      split
      · exact h
      · split
        · exact h
        · exact h
    exact ⟨_, cam.step_eq_some rfl hnext, hnext⟩
  | iso lens scratch =>
    obtain ⟨next, hiso, hsame⟩ := isoIn_negotiated h.inTable cam.source lens scratch
    have hnext : cam.Supported next.st.negotiated := by
      rw [hsame]
      exact h
    exact ⟨next, cam.step_eq_some hiso hnext, hnext⟩

theorem break_step {t next : UvcTrace σ} {a : UvcAct} (h : cam.Supported t.st.negotiated)
    (ha : ¬cam.Asks a) (hstep : cam.step t a = some next) :
    ¬cam.Supported next.st.negotiated := by
  have hstep := cam.step_of_eq_some hstep
  cases a with
  | control setup buf len =>
    obtain rfl := Option.some.inj hstep
    exact fun hnext => ha ((cam.supported_control_iff h setup buf len).mp hnext)
  | setAlt alt => exact absurd trivial ha
  | iso lens scratch => exact absurd trivial ha

/-- What is built supports what it has set up when there is a format. -/
theorem supported_start_iff (frame : List UInt8) (user : σ) :
    cam.Supported (cam.start frame user).st.negotiated ↔ cam.opts.nfmt ≠ 0 := by
  have hzero : cam.opts.nfmt = 0 ↔ cam.opts.nfmt.toNat = 0 := UInt8.toNat_inj.symm
  rw [supported_iff]
  constructor
  · rintro ⟨⟨-, hle⟩, -⟩ h
    have hone : 1 ≤ cam.opts.nfmt.toNat := hle
    have hnone := hzero.mp h
    omega
  · intro h
    refine ⟨⟨Nat.le_refl 1, ?_⟩, rfl, rfl, rfl, rfl⟩
    show 1 ≤ cam.opts.nfmt.toNat
    exact Nat.pos_of_ne_zero (mt hzero.mpr h)

/-- Whatever a host requests and streams, the requests all go through with accesses in range, and
the state is supported all the time, exactly when the function has a format and every `SET_CUR` asks
for what it advertises. -/
theorem supported_throughout_iff (frame : List UInt8) (user : σ) (acts : List UvcAct) :
    (∃ t, exec cam.step (cam.start frame user) acts = some t) ∧
      Throughout cam.step (fun t => cam.Supported t.st.negotiated) (cam.start frame user) acts ↔
    cam.opts.nfmt ≠ 0 ∧ ∀ a ∈ acts, cam.Asks a := by
  constructor
  · intro h
    have hstart : cam.Supported (cam.start frame user).st.negotiated := h.2.first
    refine ⟨(cam.supported_start_iff frame user).mp hstart, ?_⟩
    exact (succeeds_iff_forall (fun _ => id) (fun _ _ h _ => cam.keep_step h)
      (fun _ _ _ h _ => cam.break_step h) hstart fun _ _ => trivial).mp h
  · rintro ⟨hfmt, hacts⟩
    exact (succeeds_iff_forall (fun _ => id) (fun _ _ h _ => cam.keep_step h)
      (fun _ _ _ h _ => cam.break_step h) ((cam.supported_start_iff frame user).mpr hfmt)
      fun _ _ => trivial).mpr hacts

/-- A camera of 320 by 240 pixels in YUYV. -/
def sample : UvcCam Unit where
  opts := ⟨320, 240, 30, 1⟩
  highSpeed := true
  vsEp := 0x81
  cap := 154624
  cap_eq := by decide
  cap_lt := by decide
  nextFrame := none

/-- A probe of format 200 is taken over. -/
theorem probe_unadvertised : ¬Throughout sample.step
    (fun t => sample.Supported t.st.negotiated) (sample.start [] ())
    [.control ⟨0x21, 0x01, 0x0100, 1, 34⟩ (fun i => if i = 2 then 200 else 0) 34] := by
  intro h
  have hlast : sample.Supported _ := (h.2 _ rfl)
  have hformat := (sample.supported_iff.mp hlast).1.2
  exact absurd hformat (by decide)

end UvcCam

end Usbip.Classes
