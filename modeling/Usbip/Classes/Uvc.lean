import Usbip.Classes.Control
import Usbip.Classes.IsoBuffer
import Usbip.Lib.Run
import Usbip.Lib.Split

/-! UVC streaming.  Each packet of an isochronous transfer takes the next bytes of the current frame
behind a header of two bytes, which says where a frame ends and tells one frame from the next.  The
packets follow each other in the buffer of the transfer. -/

namespace Usbip.Classes

open Lib

/-- The frame source of an application with the state `σ`, and what `uvc_build` has set up. -/
structure UvcSource (σ : Type) where
  width : UInt16
  height : UInt16
  fmtChar : Vector UInt8 4
  /-- `frame_cap`, an `int` -/
  cap : Nat
  cap_lt : cap < 2 ^ 31
  /-- `next_frame` on the frame buffer, with the length it returns -/
  nextFrame : Option (σ → List UInt8 → UInt8 → UInt32 → σ × List UInt8 × Int)

/-- The part of `struct uvc_state` that streaming changes. -/
structure UvcStream (σ : Type) where
  negotiated : UvcState
  streaming : Bool
  frameIndex : UInt32
  frame : List UInt8
  frameLen : UInt32
  framePos : UInt32
  fid : UInt8
  user : σ

namespace Uvc

/-! ### The built-in source -/

/-- The limited-range `{Y, U, V}` of the bars. -/
def bars : List (UInt8 × UInt8 × UInt8) :=
  [(235, 128, 128), (210, 16, 146), (170, 166, 16), (145, 54, 34),
    (106, 202, 222), (81, 90, 240), (41, 240, 110), (16, 128, 128)]

def bar (width shift x : Nat) : UInt8 × UInt8 × UInt8 :=
  bars.getD ((x + shift) * 8 / width &&& 7) (0, 0, 0)

/-- Two pixels of a row. -/
def putPair (width shift row x : Nat) (buf : List UInt8) : List UInt8 :=
  let c0 := bar width shift x
  let c1 := bar width shift (x + 1)
  (((buf.set (row + x * 2) c0.1).set (row + x * 2 + 1) c0.2.1).set (row + x * 2 + 2) c1.1).set
    (row + x * 2 + 3) c0.2.2

def putRow (width shift y : Nat) (buf : List UInt8) : List UInt8 :=
  (List.range ((width + 1) / 2)).foldl (fun buf k =>
    putPair width shift (y * width * 2) (2 * k) buf) buf

/-- `uvc_color_bars_yuyv`. -/
def colorBarsYuyv (buf : List UInt8) (width height : Nat) (idx : UInt32) : List UInt8 :=
  let shift := idx.toNat % if width ≠ 0 then width else 1
  (List.range height).foldl (fun buf y => putRow width shift y buf) buf

variable {σ : Type}

/-! ### Packets -/

/-- The next frame of the application, or of the built-in source. -/
def drawFrame (src : UvcSource σ) (user : σ) (frame : List UInt8) (fmt : UInt8) (idx : UInt32) :
    σ × List UInt8 × Int :=
  let (user, frame, produced) := match src.nextFrame with
    | some next => next user frame fmt idx
    | none => (user, frame, -1)
  if produced < 0 then
    (user, colorBarsYuyv frame src.width.toNat src.height.toNat idx,
      src.width.toNat * src.height.toNat * 2)
  else (user, frame, produced)

/-- `produce_frame`; `none` is a format index that `fmt_char` does not have. -/
def produceFrame (src : UvcSource σ) (st : UvcStream σ) : Option (UvcStream σ) :=
  src.fmtChar[st.negotiated.curFormat.toNat]?.map fun fmt =>
    let (user, frame, produced) := drawFrame src st.user st.frame fmt st.frameIndex
    { st with user, frame, frameLen := .ofNat produced.toNat, framePos := 0 }

/-- The frame that is being sent. -/
def current (st : UvcStream σ) : List UInt8 := st.frame.take st.frameLen.toNat

/-- `if (st->frame_len == 0) produce_frame(st)`, with the frame that it draws. -/
def frameAtHand (src : UvcSource σ) (st : UvcStream σ) : Option (UvcStream σ × List (List UInt8)) :=
  if st.frameLen = 0 then (produceFrame src st).map fun st => (st, [current st]) else some (st, [])

/-- The rest of the loop body of `uvc_on_iso`, with a frame at hand: the packet's bytes and its
length. -/
def packPacket (st : UvcStream σ) (req : UInt32) : UvcStream σ × List UInt8 × UInt32 :=
  let cap := req - 2
  let remain := st.frameLen - st.framePos
  let chunk := if remain < cap then remain else cap
  let flags := if st.frameLen ≤ st.framePos + chunk then st.fid ||| 2 else st.fid
  let data := (st.frame.drop st.framePos.toNat).take chunk.toNat
  let st := { st with framePos := st.framePos + chunk }
  (if st.frameLen ≤ st.framePos then
      { st with frameLen := 0, fid := st.fid ^^^ 1, frameIndex := st.frameIndex + 1 }
    else st, 2 :: flags :: data, 2 + chunk)

end Uvc

/-- A UVC function with the packets that its host has got, what it has requested for each, the frames
that were drawn, and whether every byte was put inside the buffer of its transfer. -/
structure UvcTrace (σ : Type) where
  st : UvcStream σ
  requested : List UInt32
  packets : List (List UInt8)
  drawn : List (List UInt8)
  inside : Bool

/-- What can happen to the function: `SET_INTERFACE`, a control request, an isochronous transfer;
`scratch` is what `malloc` leaves in the buffer of the transfer. -/
inductive UvcAct
  | setAlt (alt : Int)
  | control (setup : Setup) (buf : Contents) (len : UInt16)
  | iso (lens : List UInt32) (scratch : Nat → UInt8)

/-- A transfer that is being filled, up to the offset `off` of its buffer. -/
structure UvcFill (σ : Type) where
  st : UvcStream σ
  drawn : List (List UInt8)
  buf : List UInt8
  inside : Bool
  off : UInt32

namespace UvcTrace

open Uvc

variable {σ : Type}

/-- The loop body of `uvc_on_iso`, with what is left in `lens[i]`. -/
def fill (src : UvcSource σ) (f : UvcFill σ) (req : UInt32) : Option (UvcFill σ × UInt32) :=
  if ¬f.st.streaming ∨ req < 2 then some (f, 0)
  else
    (frameAtHand src f.st).map fun (st, drawn) =>
      let (st, packet, len) := packPacket st req
      (⟨st, f.drawn ++ drawn, putBytes f.buf f.off.toNat packet,
        f.inside && decide (f.off.toNat + packet.length ≤ f.buf.length), f.off + len⟩, len)

/-- `uvc_on_iso`. -/
def onIso (src : UvcSource σ) (f : UvcFill σ) : List UInt32 → Option (UvcFill σ × List UInt32)
  | [] => some (f, [])
  | req :: lens => do
    let (f, len) ← fill src f req
    let (f, lens) ← onIso src f lens
    some (f, len :: lens)

/-- A transfer, with the packets that go to the host. -/
def isoIn (src : UvcSource σ) (t : UvcTrace σ) (lens : List UInt32) (scratch : Nat → UInt8) :
    Option (UvcTrace σ) := do
  let (f, actual) ← onIso src ⟨t.st, t.drawn, allocated lens scratch, t.inside, 0⟩ lens
  some ⟨f.st, t.requested ++ lens, t.packets ++ packetsOf f.buf actual, f.drawn, f.inside⟩

/-- `uvc_set_alt`. -/
def setAlt (st : UvcStream σ) (alt : Int) : UvcStream σ :=
  if alt = 1 ∧ ¬st.streaming then
    { st with streaming := true, frameLen := 0, framePos := 0, fid := 0, frameIndex := 0 }
  else if alt = 0 ∧ st.streaming then { st with streaming := false }
  else st

def step (src : UvcSource σ) (t : UvcTrace σ) : UvcAct → Option (UvcTrace σ)
  | .setAlt alt => some { t with st := setAlt t.st alt }
  | .control setup buf len =>
    some { t with
      st := { t.st with negotiated := (uvcControl t.st.negotiated setup buf len).state } }
  | .iso lens scratch => t.isoIn src lens scratch

end UvcTrace

/-! ### What the host makes of the packets -/

namespace Uvc

variable {σ : Type}

/-- The bit of the payload header that ends a frame. -/
def isEof (packet : List UInt8) : Bool := packet.getD 1 0 &&& 2 ≠ 0

/-- The bit of the payload header that tells a frame from the next one. -/
def fidBit (packet : List UInt8) : UInt8 := packet.getD 1 0 &&& 1

/-- The payload of some packets. -/
def body (packets : List (List UInt8)) : List UInt8 := packets.flatMap fun packet => packet.drop 2

def parity (n : Nat) : UInt8 := if n % 2 = 0 then 0 else 1

theorem parity_cases (n : Nat) : parity n = 0 ∨ parity n = 1 := by
  unfold parity
  split
  · exact .inl rfl
  · exact .inr rfl

theorem parity_succ (n : Nat) : parity (n + 1) = parity n ^^^ 1 := by
  unfold parity
  rcases Nat.mod_two_eq_zero_or_one n with h | h
  · rw [if_neg (by omega), if_pos h]
    rfl
  · rw [if_pos (by omega), if_neg (by omega)]
    rfl

theorem isEof_header (n : Nat) (eof : Prop) [Decidable eof] (data : List UInt8) :
    isEof (2 :: (if eof then parity n ||| 2 else parity n) :: data) = decide eof := by
  rw [isEof, List.getD_cons_succ, List.getD_cons_zero]
  rcases parity_cases n with hn | hn <;> rw [hn] <;> by_cases he : eof <;> simp [he] <;> decide

theorem fidBit_header (n : Nat) (eof : Prop) [Decidable eof] (data : List UInt8) :
    fidBit (2 :: (if eof then parity n ||| 2 else parity n) :: data) = parity n := by
  rw [fidBit, List.getD_cons_succ, List.getD_cons_zero]
  rcases parity_cases n with hn | hn <;> rw [hn] <;> by_cases he : eof <;> simp [he] <;> decide

theorem drawFrame_nonneg (src : UvcSource σ) (user : σ) (frame : List UInt8) (fmt : UInt8)
    (idx : UInt32) : 0 ≤ (drawFrame src user frame fmt idx).2.2 := by
  unfold drawFrame
  split
  split
  · exact Int.mul_nonneg (Int.mul_nonneg (Int.natCast_nonneg _) (Int.natCast_nonneg _)) (by decide)
  · rename_i h
    exact Int.not_lt.mp h

end Uvc

open Uvc

/-- Every frame that is drawn, by the application or by the built-in source, fits into the frame
buffer. -/
def UvcSource.Fits {σ : Type} (src : UvcSource σ) : Prop :=
  ∀ user frame fmt idx, frame.length = src.cap →
    (drawFrame src user frame fmt idx).2.1.length = src.cap ∧
    (drawFrame src user frame fmt idx).2.2 ≤ src.cap

/-- The session goes on, and no request negotiates a format index that `fmt_char` does not have. -/
def UvcAct.InSession : UvcAct → Prop
  | .setAlt alt => alt ≠ 0
  | .control setup buf len => ∀ st : UvcState, st.curFormat.toNat < 4 →
    (uvcControl st setup buf len).state.curFormat.toNat < 4
  | .iso .. => True

/-- The packet sizes that a transfer requests. -/
def UvcAct.requested : UvcAct → List UInt32
  | .iso lens _ => lens
  | _ => []

/-- The packet sizes of one transfer add up to a 32-bit size. -/
def UvcAct.Fits (a : UvcAct) : Prop := (a.requested.map UInt32.toNat).sum < 2 ^ 32

namespace UvcTrace

variable {σ : Type} {src : UvcSource σ} {t : UvcTrace σ}

/-- The packets that are not empty. -/
def sent (t : UvcTrace σ) : List (List UInt8) := t.packets.filter fun packet => packet ≠ []

/-- The packets of the frames that have ended. -/
def done (t : UvcTrace σ) : List (List (List UInt8)) := (splitAfter isEof t.sent).1

/-- The packets since. -/
def cur (t : UvcTrace σ) : List (List UInt8) := (splitAfter isEof t.sent).2

/-- What holds between the packets, and also while a packet is filled. -/
structure Base (src : UvcSource σ) (t : UvcTrace σ) : Prop where
  streaming : t.st.streaming = true
  format : t.st.negotiated.curFormat.toNat < 4
  buffer : t.st.frame.length = src.cap
  len : t.st.frameLen.toNat ≤ src.cap
  toggled : t.st.fid = parity t.done.length
  inside : t.inside = true
  sized : List.Forall₂ (fun packet req => packet.length ≤ req.toNat) t.packets t.requested
  headed : ∀ p ∈ t.sent, ∃ flags data, p = 2 :: flags :: data
  fid : ∀ i p, InGroup isEof t.sent i p → fidBit p = parity i

/-- A frame is being sent. -/
structure Holding (src : UvcSource σ) (t : UvcTrace σ) : Prop extends Base src t where
  pos : t.st.framePos ≤ t.st.frameLen
  drawn : t.drawn = t.done.map body ++ [current t.st]
  begun : body t.cur = (current t.st).take t.st.framePos.toNat

/-- Between the packets: no frame has been begun, or one is being sent. -/
structure Inv (src : UvcSource σ) (t : UvcTrace σ) : Prop extends Base src t where
  between : t.st.frameLen = 0 ∧ t.drawn = t.done.map body ∧ t.cur = [] ∨
    t.st.frameLen ≠ 0 ∧ Holding src t

/-- A trace with one more packet. -/
def pushed (t : UvcTrace σ) (st : UvcStream σ) (req : UInt32) (packet : List UInt8) : UvcTrace σ :=
  { t with st, requested := t.requested ++ [req], packets := t.packets ++ [packet] }

@[simp] theorem pushed_st (t : UvcTrace σ) (st : UvcStream σ) (req : UInt32)
    (packet : List UInt8) : (t.pushed st req packet).st = st := rfl

theorem sent_pushed (t : UvcTrace σ) (st : UvcStream σ) (req : UInt32) (packet : List UInt8) :
    sent (t.pushed st req packet) = t.sent ++ if packet = [] then [] else [packet] := by
  rw [sent, sent, pushed, List.filter_append]
  split <;> simp_all

theorem sized_pushed
    (h : List.Forall₂ (fun packet req => packet.length ≤ req.toNat) t.packets t.requested)
    (st : UvcStream σ) {req : UInt32} {packet : List UInt8} (hle : packet.length ≤ req.toNat) :
    List.Forall₂ (fun packet req => packet.length ≤ req.toNat) (t.pushed st req packet).packets
      (t.pushed st req packet).requested :=
  List.rel_append h (.cons hle .nil)

/-- An empty packet. -/
theorem Inv.skip (h : Inv src t) (req : UInt32) : Inv src (t.pushed t.st req []) := by
  have hsent : sent (t.pushed t.st req []) = t.sent := by
    rw [sent_pushed, if_pos rfl, List.append_nil]
  have hbase : Base src (t.pushed t.st req []) := by
    constructor
    · exact h.streaming
    · exact h.format
    · exact h.buffer
    · exact h.len
    · rw [done, hsent]
      exact h.toggled
    · exact h.inside
    · exact sized_pushed h.sized t.st (Nat.zero_le _)
    · rw [hsent]
      exact h.headed
    · rw [hsent]
      exact h.fid
  refine { hbase with between := ?_ }
  rcases h.between with ⟨hlen, hdrawn, hcur⟩ | ⟨hlen, hold⟩
  · refine .inl ⟨hlen, ?_, ?_⟩
    · rw [done, hsent]
      exact hdrawn
    · rw [cur, hsent]
      exact hcur
  · refine .inr ⟨hlen, { hbase with pos := hold.pos, drawn := ?_, begun := ?_ }⟩
    · rw [done, hsent]
      exact hold.drawn
    · rw [cur, hsent]
      exact hold.begun

/-- A new frame is at hand. -/
theorem Inv.draw (h : Inv src t) (fits : src.Fits) (hlen : t.st.frameLen = 0) :
    ∃ st, produceFrame src t.st = some st ∧
      Holding src { t with st, drawn := t.drawn ++ [current st] } := by
  have hfmt : ∃ fmt, src.fmtChar[t.st.negotiated.curFormat.toNat]? = some fmt :=
    ⟨_, Vector.getElem?_eq_getElem h.format⟩
  obtain ⟨fmt, hfmt⟩ := hfmt
  obtain ⟨hbuffer, hcap⟩ := fits t.st.user t.st.frame fmt t.st.frameIndex h.buffer
  have hnonneg := drawFrame_nonneg src t.st.user t.st.frame fmt t.st.frameIndex
  have hcap_lt := src.cap_lt
  obtain ⟨hdrawn, hcur⟩ : t.drawn = t.done.map body ∧ t.cur = [] := by
    rcases h.between with ⟨-, hnone⟩ | ⟨hne, -⟩
    · exact hnone
    · exact absurd hlen hne
  refine ⟨_, by rw [produceFrame, hfmt]; rfl, ?_⟩
  constructor
  · constructor
    · exact h.streaming
    · exact h.format
    · exact hbuffer
    · show (UInt32.ofNat (drawFrame src t.st.user t.st.frame fmt t.st.frameIndex).2.2.toNat).toNat ≤
        src.cap
      rw [UInt32.toNat_ofNat_of_lt' (by simp only [UInt32.size]; omega)]
      omega
    · exact h.toggled
    · exact h.inside
    · exact h.sized
    · exact h.headed
    · exact h.fid
  · exact UInt32.zero_le
  · rw [hdrawn]
    rfl
  · show body t.cur = _
    rw [hcur]
    rfl

/-- What filling a packet with `chunk` bytes of the frame at hand does. -/
structure Packed (st : UvcStream σ) (req chunk : UInt32) (st' : UvcStream σ)
    (packet : List UInt8) (len : UInt32) : Prop where
  chunk_eq : chunk.toNat = min (st.frameLen.toNat - st.framePos.toNat) (req.toNat - 2)
  next_eq : (st.framePos + chunk).toNat = st.framePos.toNat + chunk.toNat
  len_eq : len.toNat = 2 + chunk.toNat
  packet_eq : packet = 2 :: (if st.frameLen ≤ st.framePos + chunk then st.fid ||| 2 else st.fid) ::
    (st.frame.drop st.framePos.toNat).take chunk.toNat
  same : st'.streaming = st.streaming ∧ st'.negotiated = st.negotiated ∧ st'.frame = st.frame
  pos_eq : st'.framePos = st.framePos + chunk
  frameLen_eq : st'.frameLen = if st.frameLen ≤ st.framePos + chunk then 0 else st.frameLen
  fid_eq : st'.fid = if st.frameLen ≤ st.framePos + chunk then st.fid ^^^ 1 else st.fid

theorem packPacket_packed (st : UvcStream σ) {req : UInt32} (hreq : 2 ≤ req.toNat)
    (hpos : st.framePos.toNat ≤ st.frameLen.toNat) :
    ∃ chunk, Packed st req chunk (packPacket st req).1 (packPacket st req).2.1
      (packPacket st req).2.2 := by
  have hremain := UInt32.toNat_sub_of_le _ _ (UInt32.le_iff_toNat_le.mpr hpos)
  have hcap : (req - 2).toNat = req.toNat - 2 :=
    UInt32.toNat_sub_of_le _ _ (UInt32.le_iff_toNat_le.mpr hreq)
  have hlt := st.frameLen.toNat_lt
  have hreq_lt := req.toNat_lt
  have hchunk : (if st.frameLen - st.framePos < req - 2 then st.frameLen - st.framePos
      else req - 2).toNat = min (st.frameLen.toNat - st.framePos.toNat) (req.toNat - 2) := by
    split <;> rename_i h <;> rw [UInt32.lt_iff_toNat_lt, hremain, hcap] at h
    · rw [hremain, min_eq_left h.le]
    · rw [hcap, min_eq_right (Nat.not_lt.mp h)]
  refine ⟨_, hchunk, ?_, ?_, rfl, ?_, ?_, ?_, ?_⟩
  · rw [UInt32.toNat_add, Nat.mod_eq_of_lt]
    omega
  · show (2 + _ : UInt32).toNat = _
    rw [UInt32.toNat_add, Nat.mod_eq_of_lt]
    · rfl
    · rw [hchunk, show (2 : UInt32).toNat = 2 from rfl]
      omega
  all_goals
    unfold packPacket
    dsimp only
    generalize (if st.frameLen - st.framePos < req - 2 then _ else _) = chunk
    by_cases hended : st.frameLen ≤ st.framePos + chunk
    · simp only [if_pos hended, and_self]
    · simp only [if_neg hended, and_self]

section Pushed

variable {packet : List UInt8} {eof : Prop} [Decidable eof] {data : List UInt8}

/-- A packet with a header goes to the frame that has begun, and may end it. -/
theorem Base.splitAfter_pushed (h : Base src t) (st : UvcStream σ) (req : UInt32)
    (hbytes : packet = 2 :: (if eof then t.st.fid ||| 2 else t.st.fid) :: data) :
    splitAfter isEof (sent (t.pushed st req packet)) =
      if eof then (t.done ++ [t.cur ++ [packet]], []) else (t.done, t.cur ++ [packet]) := by
  have heof : isEof packet = decide eof := by
    rw [hbytes, h.toggled]
    exact isEof_header _ _ _
  rw [sent_pushed, if_neg (by simp [hbytes]), Lib.splitAfter_concat, heof]
  by_cases he : eof
  · rw [if_pos he, if_pos (by simpa using he)]
    rfl
  · rw [if_neg he, if_neg (by simpa using he)]
    rfl

theorem Base.push (h : Base src t) {st : UvcStream σ} {req : UInt32}
    (hbytes : packet = 2 :: (if eof then t.st.fid ||| 2 else t.st.fid) :: data)
    (hsized : packet.length ≤ req.toNat)
    (hst : st.streaming = t.st.streaming ∧ st.negotiated = t.st.negotiated ∧
      st.frame = t.st.frame ∧ st.frameLen.toNat ≤ src.cap)
    (hfid : st.fid = if eof then t.st.fid ^^^ 1 else t.st.fid) :
    Base src (t.pushed st req packet) := by
  have hsplit := h.splitAfter_pushed st req hbytes
  have hsent : sent (t.pushed st req packet) = t.sent ++ [packet] := by
    rw [sent_pushed, if_neg (by simp [hbytes])]
  constructor
  · exact hst.1.trans h.streaming
  · show st.negotiated.curFormat.toNat < 4
    rw [hst.2.1]
    exact h.format
  · show st.frame.length = src.cap
    rw [hst.2.2.1]
    exact h.buffer
  · exact hst.2.2.2
  · show st.fid = _
    rw [done, hsplit, hfid, h.toggled]
    split
    · rw [List.length_append, List.length_singleton, parity_succ]
    · rfl
  · exact h.inside
  · exact sized_pushed h.sized st hsized
  · rw [hsent]
    intro p hp
    rcases List.mem_append.mp hp with hp | hp
    · exact h.headed p hp
    · obtain rfl := List.mem_singleton.mp hp
      exact ⟨_, _, hbytes⟩
  · rw [hsent]
    intro i p hp
    rcases inGroup_concat hp with hp | ⟨rfl, rfl⟩
    · exact h.fid i p hp
    · rw [hbytes, h.toggled]
      exact fidBit_header _ _ _

end Pushed

/-- A packet of the frame at hand. -/
theorem Holding.pack (h : Holding src t) {req : UInt32} (hreq : 2 ≤ req.toNat) :
    (packPacket t.st req).2.2.toNat = (packPacket t.st req).2.1.length ∧
      (packPacket t.st req).2.1.length ≤ req.toNat ∧
      Inv src (t.pushed (packPacket t.st req).1 req (packPacket t.st req).2.1) := by
  have hpos := UInt32.le_iff_toNat_le.mp h.pos
  obtain ⟨chunk, hpacked⟩ := packPacket_packed t.st hreq hpos
  generalize (packPacket t.st req).1 = st at hpacked
  generalize (packPacket t.st req).2.1 = packet at hpacked
  generalize (packPacket t.st req).2.2 = len at hpacked
  have hcap := h.len
  have hchunk := hpacked.chunk_eq
  have hdata : ((t.st.frame.drop t.st.framePos.toNat).take chunk.toNat).length = chunk.toNat := by
    rw [List.length_take, List.length_drop, h.buffer]
    omega
  have hbytes := hpacked.packet_eq
  have hlength : packet.length = 2 + chunk.toNat := by
    rw [hbytes, List.length_cons, List.length_cons, hdata]
    omega
  have hle : packet.length ≤ req.toNat := by omega
  refine ⟨hpacked.len_eq.trans hlength.symm, hle, ?_⟩
  have hbase : Base src (t.pushed st req packet) := by
    obtain ⟨hstreaming, hnegotiated, hframe⟩ := hpacked.same
    refine h.push hbytes hle ⟨hstreaming, hnegotiated, hframe, ?_⟩ hpacked.fid_eq
    rw [hpacked.frameLen_eq]
    split
    · exact Nat.zero_le _
    · exact hcap
  have hsplit := h.splitAfter_pushed st req hbytes
  have htail : ((current t.st).drop t.st.framePos.toNat).take chunk.toNat =
      (t.st.frame.drop t.st.framePos.toNat).take chunk.toNat := by
    rw [current, List.drop_take, List.take_take, min_eq_left (by omega)]
  -- the payload so far is the frame up to the new position
  have hmore : body (t.cur ++ [packet]) =
      (current t.st).take (t.st.framePos + chunk).toNat := by
    rw [body, List.flatMap_append, List.flatMap_singleton, hbytes]
    show body t.cur ++ _ = _
    rw [h.begun, hpacked.next_eq, List.take_add, htail]
    rfl
  refine { hbase with between := ?_ }
  by_cases hended : t.st.frameLen ≤ t.st.framePos + chunk
  · rw [if_pos hended] at hsplit
    refine .inl ⟨by rw [pushed_st, hpacked.frameLen_eq, if_pos hended], ?_, by rw [cur, hsplit]⟩
    have hwhole : (current t.st).take (t.st.framePos + chunk).toNat = current t.st :=
      List.take_of_length_le
        ((List.length_take_le _ _).trans (UInt32.le_iff_toNat_le.mp hended))
    rw [done, hsplit, List.map_append, List.map_singleton, hmore, hwhole]
    exact h.drawn
  · rw [if_neg hended] at hsplit
    have hlen : st.frameLen = t.st.frameLen := by rw [hpacked.frameLen_eq, if_neg hended]
    have hcurrent : current st = current t.st := by rw [current, current, hlen, hpacked.same.2.2]
    have hlt := UInt32.lt_iff_toNat_lt.mp (UInt32.not_le.mp hended)
    refine .inr ⟨fun hzero => ?_, { hbase with pos := ?_, drawn := ?_, begun := ?_ }⟩
    · rw [← hlen, ← t.pushed_st st req packet, hzero] at hlt
      exact absurd hlt (Nat.not_lt_zero _)
    · rw [pushed_st, hlen, hpacked.pos_eq]
      exact UInt32.le_iff_toNat_le.mpr hlt.le
    · rw [done, hsplit, pushed_st, hcurrent]
      exact h.drawn
    · rw [cur, hsplit, pushed_st, hcurrent, hpacked.pos_eq]
      exact hmore

/-! ### A transfer -/

/-- What some packets add to a trace and to the buffer of their transfer. -/
structure Adds (t t' : UvcTrace σ) (reqs : List UInt32) (lens : List UInt32)
    (buf buf' : List UInt8) (off off' : Nat) : Prop where
  requested : t'.requested = t.requested ++ reqs
  length : buf'.length = buf.length
  room : off' ≤ off + (reqs.map UInt32.toNat).sum
  packets : ∃ packets, t'.packets = t.packets ++ packets ∧
    lens.map UInt32.toNat = packets.map List.length ∧ off' = off + packets.flatten.length ∧
    buf'.take off' = buf.take off ++ packets.flatten

theorem Adds.cons {t t' t'' : UvcTrace σ} {req len : UInt32} {reqs lens : List UInt32}
    {buf buf' buf'' : List UInt8} {off off' off'' : Nat} (h : Adds t t' [req] [len] buf buf' off off')
    (hs : Adds t' t'' reqs lens buf' buf'' off' off'') :
    Adds t t'' (req :: reqs) (len :: lens) buf buf'' off off'' := by
  obtain ⟨packets, hpackets, hlens, hoff, htake⟩ := h.packets
  obtain ⟨more, hmore, hmorelens, hmoreoff, hmoretake⟩ := hs.packets
  refine ⟨?_, hs.length.trans h.length, ?_, packets ++ more, ?_, ?_, ?_, ?_⟩
  · rw [hs.requested, h.requested, List.append_assoc, List.singleton_append]
  · have hone := h.room
    have hrest := hs.room
    rw [List.map_singleton, List.sum_singleton] at hone
    rw [List.map_cons, List.sum_cons]
    omega
  · rw [hmore, hpackets, List.append_assoc]
  · rw [List.map_cons, hmorelens, List.map_append, ← hlens]
    rfl
  · rw [List.flatten_append, List.length_append]
    omega
  · rw [hmoretake, htake, List.flatten_append, List.append_assoc]

/-- A packet that is put at its offset, with room for what is requested. -/
theorem adds_pushed {st : UvcStream σ} {drawn : List (List UInt8)} {req len : UInt32}
    {packet buf : List UInt8} {off : Nat} (hlen : len.toNat = packet.length)
    (hle : packet.length ≤ req.toNat) (hroom : off + req.toNat ≤ buf.length) :
    Adds t (pushed { t with drawn } st req packet) [req] [len] buf (putBytes buf off packet) off
      (off + packet.length) where
  requested := rfl
  length := by
    rw [length_putBytes]
    omega
  room := by
    rw [List.map_singleton, List.sum_singleton]
    omega
  packets := ⟨[packet], rfl, by rw [List.map_singleton, hlen]; rfl, by simp,
    by rw [take_putBytes _ (by omega), List.flatten_singleton]⟩

/-- There is a frame to send. -/
theorem Inv.atHand (h : Inv src t) (fits : src.Fits) :
    ∃ st drawn, frameAtHand src t.st = some (st, drawn) ∧
      Holding src { t with st, drawn := t.drawn ++ drawn } := by
  rw [frameAtHand]
  by_cases hlen : t.st.frameLen = 0
  · obtain ⟨st, hproduce, hold⟩ := h.draw fits hlen
    exact ⟨st, _, by rw [if_pos hlen, hproduce]; rfl, hold⟩
  · refine ⟨t.st, [], if_neg hlen, ?_⟩
    rcases h.between with ⟨hnone, -⟩ | ⟨-, hold⟩
    · exact absurd hnone hlen
    · rw [List.append_nil]
      exact hold

theorem Inv.fill (h : Inv src t) (fits : src.Fits) {buf : List UInt8} {off req : UInt32}
    (hroom : off.toNat + req.toNat ≤ buf.length) (hbuf : buf.length < 2 ^ 32) :
    ∃ t' buf' off' len, UvcTrace.fill src ⟨t.st, t.drawn, buf, t.inside, off⟩ req =
        some (⟨t'.st, t'.drawn, buf', t'.inside, off'⟩, len) ∧ Inv src t' ∧
      Adds t t' [req] [len] buf buf' off.toNat off'.toNat := by
  rw [UvcTrace.fill]
  by_cases hskip : ¬t.st.streaming ∨ req < 2
  · rw [if_pos hskip]
    refine ⟨t.pushed t.st req [], buf, off, 0, rfl, h.skip req, rfl, rfl, Nat.le_add_right _ _,
      [[]], rfl, rfl, rfl, ?_⟩
    exact (List.append_nil _).symm
  · rw [if_neg hskip]
    have hreq : 2 ≤ req.toNat := UInt32.le_iff_toNat_le.mp (UInt32.not_lt.mp (not_or.mp hskip).2)
    obtain ⟨st, drawn, hframe, hold⟩ := h.atHand fits
    obtain ⟨hlen, hle, hinv⟩ := hold.pack hreq
    dsimp only at hlen hle hinv
    rcases hpack : packPacket st req with ⟨st', packet, len⟩
    rw [hpack] at hlen hle hinv
    dsimp only at hlen hle hinv
    have hoff : (off + len).toNat = off.toNat + packet.length := by
      rw [UInt32.toNat_add, hlen]
      exact Nat.mod_eq_of_lt (by omega)
    have hin : decide (off.toNat + packet.length ≤ buf.length) = true := decide_eq_true (by omega)
    refine ⟨_, putBytes buf off.toNat packet, off + len, len, ?_, hinv, ?_⟩
    · rw [hframe, Option.map_some]
      simp only [hpack, hin, Bool.and_true]
      rfl
    · rw [hoff]
      exact adds_pushed hlen hle hroom

theorem Inv.onIso (h : Inv src t) (fits : src.Fits) {buf : List UInt8} {off : UInt32}
    {lens : List UInt32} (hroom : off.toNat + (lens.map UInt32.toNat).sum ≤ buf.length)
    (hbuf : buf.length < 2 ^ 32) :
    ∃ t' buf' off' actual, UvcTrace.onIso src ⟨t.st, t.drawn, buf, t.inside, off⟩ lens =
        some (⟨t'.st, t'.drawn, buf', t'.inside, off'⟩, actual) ∧ Inv src t' ∧
      Adds t t' lens actual buf buf' off.toNat off'.toNat := by
  induction lens generalizing t buf off with
  | nil =>
    refine ⟨t, buf, off, [], rfl, h, (List.append_nil _).symm, rfl, Nat.le_refl _, [],
      (List.append_nil _).symm, rfl, rfl, (List.append_nil _).symm⟩
  | cons req lens ih =>
    rw [List.map_cons, List.sum_cons] at hroom
    have hfirst : off.toNat + req.toNat ≤ buf.length := by omega
    obtain ⟨t₁, buf₁, off₁, len, hfill, h₁, hadds⟩ := h.fill fits hfirst hbuf
    have hone := hadds.room
    rw [List.map_singleton, List.sum_singleton] at hone
    have hlength := hadds.length
    have hrest : off₁.toNat + (lens.map UInt32.toNat).sum ≤ buf₁.length := by omega
    obtain ⟨t₂, buf₂, off₂, actual, hiso, h₂, hmore⟩ := ih h₁ hrest (by omega)
    refine ⟨t₂, buf₂, off₂, len :: actual, ?_, h₂, hadds.cons hmore⟩
    exact Option.bind_eq_some_iff.mpr ⟨_, hfill, Option.bind_eq_some_iff.mpr ⟨_, hiso, rfl⟩⟩

/-- A transfer of packets that fit together: the host cuts out of the buffer what was put there. -/
theorem Inv.isoIn (h : Inv src t) (fits : src.Fits) {lens : List UInt32}
    (hfits : (lens.map UInt32.toNat).sum < 2 ^ 32) (scratch : Nat → UInt8) :
    ∃ t', t.isoIn src lens scratch = some t' ∧ Inv src t' ∧
      t'.requested = t.requested ++ lens := by
  have hlen := length_allocated lens scratch
  rw [Nat.mod_eq_of_lt hfits] at hlen
  have hroom : (0 : UInt32).toNat + (lens.map UInt32.toNat).sum ≤
      (allocated lens scratch).length := by
    rw [hlen]
    split <;> simp_all
  obtain ⟨t', buf, off, actual, hiso, h', hadds⟩ :=
    h.onIso fits hroom (by rw [hlen]; split <;> omega)
  obtain ⟨packets, hpackets, hactual, hoff, htake⟩ := hadds.packets
  have hcut : packetsOf buf actual = packets := by
    have hbuf := (List.take_append_drop off.toNat buf).symm
    rw [htake] at hbuf
    rw [hbuf]
    exact packetsOf_flatten _ hactual
  refine ⟨t', ?_, h', hadds.requested⟩
  rw [UvcTrace.isoIn, hiso]
  show some (UvcTrace.mk _ _ _ _ _) = _
  rw [hcut, ← hpackets, ← hadds.requested]

theorem Inv.step (h : Inv src t) (fits : src.Fits) {a : UvcAct} (ha : a.InSession)
    (hroom : a.Fits) :
    ∃ t', t.step src a = some t' ∧ Inv src t' ∧ t'.requested = t.requested ++ a.requested := by
  cases a with
  | iso lens scratch => exact h.isoIn fits hroom scratch
  | setAlt alt =>
    have hsame : setAlt t.st alt = t.st := by
      rw [setAlt, if_neg (fun hc => hc.2 h.streaming), if_neg (fun hc => ha hc.1)]
    refine ⟨t, ?_, h, (List.append_nil _).symm⟩
    rw [UvcTrace.step, hsame]
  | control setup buf len =>
    refine ⟨_, rfl, ?_, (List.append_nil _).symm⟩
    have hbase : Base src { t with st := { t.st with
        negotiated := (uvcControl t.st.negotiated setup buf len).state } } :=
      { streaming := h.streaming, format := ha _ h.format, buffer := h.buffer, len := h.len,
        toggled := h.toggled, inside := h.inside, sized := h.sized, headed := h.headed,
        fid := h.fid }
    refine { hbase with between := h.between.imp id fun ⟨hlen, hold⟩ => ⟨hlen, ?_⟩ }
    exact { hbase with pos := hold.pos, drawn := hold.drawn, begun := hold.begun }

/-- The transfers of a session, one after the other. -/
theorem Inv.run (h : Inv src t) (fits : src.Fits) {acts : List UvcAct}
    (hacts : ∀ a ∈ acts, a.InSession) (hroom : ∀ a ∈ acts, a.Fits) :
    ∃ t', exec (UvcTrace.step src) t acts = some t' ∧ Inv src t' ∧
      t'.requested = t.requested ++ acts.flatMap UvcAct.requested := by
  induction acts generalizing t with
  | nil => exact ⟨t, rfl, h, (List.append_nil _).symm⟩
  | cons a acts ih =>
    obtain ⟨ha, hacts⟩ := List.forall_mem_cons.mp hacts
    obtain ⟨hfit, hroom⟩ := List.forall_mem_cons.mp hroom
    obtain ⟨t₁, hstep, h₁, hreq₁⟩ := h.step fits ha hfit
    obtain ⟨t₂, hexec, h₂, hreq₂⟩ := ih h₁ hacts hroom
    refine ⟨t₂, by rw [exec_cons, hstep]; exact hexec, h₂, ?_⟩
    rw [hreq₂, hreq₁, List.append_assoc, List.flatMap_cons]

end UvcTrace

end Usbip.Classes
