import Usbip.Lib.Stream
import Usbip.Classes.Dfu

/-! A firmware image that a host downloads and uploads again, block by block. -/

namespace Usbip.Classes

open Lib Control

/-- What is in the buffer after the accesses. -/
def stored (buf : Contents) : List Access → Contents
  | [] => buf
  | .read .. :: rest => stored buf rest
  | .write w :: rest =>
    stored (fun i => if w.off ≤ i ∧ i < w.stop then w.bytes.getD (i - w.off) 0 else buf i) rest

/-- The bytes that an IN request returns from the buffer. -/
def replied {σ : Type} (h : Handled σ) (buf : Contents) : List UInt8 :=
  fetch (stored buf h.accesses) 0 h.rc.toNat

/-- A target that holds a linear image: `begin` empties it, a block is stored at the offset it is
given, and what is read is what there is from the offset. -/
structure DfuStore (τ : Type*) where
  contents : τ → List UInt8
  /-- the effect of a call -/
  call : τ → DfuCall → τ
  read : τ → (off : UInt32) → (want : Nat) → List UInt8
  begin_eq : ∀ t, contents (call t .beginDownload) = []
  write_eq : ∀ t off data, off.toNat ≤ (contents t).length →
    contents (call t (.write off data)) = putBytes (contents t) off.toNat data
  keep_read : ∀ t off want, contents (call t (.read off want)) = contents t
  keep_finish : ∀ t, contents (call t .finish) = contents t
  read_eq : ∀ t off want, read t off want = bytesAt (contents t) off.toNat want

section
variable {τ : Type*} (s : DfuStore τ)

theorem DfuStore.length_read_le (t : τ) (off : UInt32) (want : Nat) :
    (s.read t off want).length ≤ want := by
  rw [s.read_eq, bytesAt]
  exact List.length_take_le ..

/-- What `read` puts into the buffer. -/
def DfuStore.filling (t : τ) (off : UInt32) (want : Nat) : Filling want where
  stores := [⟨0, s.read t off want⟩]
  rc := (s.read t off want).length
  inside := by
    intro w hw
    rw [List.mem_singleton.mp hw]
    exact .inr (by rw [Store.stop, Nat.zero_add]; exact s.length_read_le t off want)
  rc_le := Int.ofNat_le.mpr (s.length_read_le t off want)

/-- What it answers to the calls that a request makes: every block is stored. -/
def DfuStore.answers (t : τ) (calls : List DfuCall) : DfuAnswers where
  write := 0
  read want :=
    match calls with
    | [.read off _] => s.filling t off want
    | _ => .nothing want

/-- The function, its current target, and the calls that the target got. -/
structure DfuLink (τ : Type*) where
  st : DfuState
  target : τ
  calls : List DfuCall

/-- A control request. What the function calls does not depend on what it is answered. -/
def DfuLink.request (l : DfuLink τ) (setup : Setup) (buf : Contents) (len : UInt16) :
    DfuLink τ × List UInt8 :=
  let asked := (dfuControl l.st (s.answers l.target []) setup buf len).state.2
  let handled := dfuControl l.st (s.answers l.target asked) setup buf len
  (⟨handled.state.1, asked.foldl s.call l.target, l.calls ++ asked⟩, replied handled buf)

/-- `wBlockNum`. -/
def blockNum (i : Nat) : UInt16 := UInt16.ofNat i

def DfuLink.dnload (l : DfuLink τ) (i : Nat) (data : List UInt8) : DfuLink τ :=
  (l.request s ⟨0x21, 1, blockNum i, 0, data.length.toUInt16⟩ (fun k => data.getD k 0)
    data.length.toUInt16).1

def DfuLink.getStatus (l : DfuLink τ) (scratch : Contents) : DfuLink τ :=
  (l.request s ⟨0xa1, 3, 0, 0, 6⟩ scratch 6).1

def DfuLink.upload (l : DfuLink τ) (i : Nat) (scratch : Contents) : DfuLink τ × List UInt8 :=
  l.request s ⟨0xa1, 2, blockNum i, 0, l.st.transferSize⟩ scratch l.st.transferSize

/-- The blocks before block `n`, each with its poll. -/
def DfuLink.dnloadBlocks (l : DfuLink τ) (image : List UInt8) (scratch : Nat → Contents) :
    Nat → DfuLink τ
  | 0 => l
  | n + 1 =>
    let l := l.dnloadBlocks image scratch n
    (l.dnload s n (recordAt l.st.transferSize.toNat image n)).getStatus s (scratch n)

/-- A whole download: the blocks of the image, and a block of no bytes. -/
def DfuLink.download (l : DfuLink τ) (image : List UInt8) (scratch : Nat → Contents) :
    DfuLink τ :=
  let size := l.st.transferSize.toNat
  let n := (image.length + size - 1) / size
  (l.dnloadBlocks s image scratch n).dnload s n []

/-- What the blocks before block `n` are answered with. -/
def DfuLink.uploadBlocks (l : DfuLink τ) (scratch : Nat → Contents) :
    Nat → DfuLink τ × List (List UInt8)
  | 0 => (l, [])
  | n + 1 =>
    let before := l.uploadBlocks scratch n
    let block := before.1.upload s n (scratch n)
    (block.1, before.2 ++ [block.2])

/-- A function whose current target has a `begin`, as `dfu_build` leaves the block size. -/
structure Attached where
  st : DfuState
  size_pos : 0 < st.transferSize.toNat
  hasBegin : (st.tgt st.cur).hasBegin = true

/-- An image that DFU can address. -/
structure Firmware where
  bytes : List UInt8
  nonempty : bytes ≠ []
  length_lt : bytes.length < 2 ^ 32

def Attached.size (a : Attached) : Nat := a.st.transferSize.toNat

/-- The link after the download. -/
def Attached.downloaded (a : Attached) (t : τ) (image : Firmware) (scratch : Nat → Contents) :
    DfuLink τ :=
  DfuLink.download s ⟨a.st, t, []⟩ image.bytes scratch

/-- The blocks that come back, with one more than the whole ones of the image. -/
def Attached.uploaded (a : Attached) (t : τ) (image : Firmware) (scratch : Nat → Contents) :
    List (List UInt8) :=
  ((a.downloaded s t image scratch).uploadBlocks s scratch (image.bytes.length / a.size + 1)).2

/-- The target holds the image, begun once and then written in place, and an upload returns it, with
a short block at its end and only there. -/
structure Kept (a : Attached) (t : τ) (image : Firmware) (scratch : Nat → Contents) : Prop where
  held : s.contents (a.downloaded s t image scratch).target = image.bytes
  begun : ∃ rest, (a.downloaded s t image scratch).calls = .beginDownload :: rest ∧
    .beginDownload ∉ rest
  in_place : ∀ off data, .write off data ∈ (a.downloaded s t image scratch).calls →
    bytesAt image.bytes off.toNat data.length = data
  whole : ∀ b ∈ (a.uploaded s t image scratch).dropLast, b.length = a.size
  short : ∀ b ∈ (a.uploaded s t image scratch).getLast?, b.length < a.size
  returned : (a.uploaded s t image scratch).flatten = image.bytes

end

/-! ### Single requests -/

/-- The offset of a block. -/
def blockOff (st : DfuState) (i : Nat) : UInt32 := (blockNum i).toUInt32 * st.transferSize.toUInt32

/-- What a block makes the function call. -/
def blockCalls (st : DfuState) (i : Nat) (data : List UInt8) : List DfuCall :=
  (if blockNum i = 0 ∧ (st.tgt st.cur).hasBegin then [DfuCall.beginDownload] else []) ++
    [.write (blockOff st i) data]

theorem fetch_getD (data : List UInt8) :
    fetch (fun k => data.getD k 0) 0 data.length = data := by
  rw [fetch]
  refine List.ext_getElem (by simp) fun i _ h => ?_
  simp [List.getElem?_eq_getElem h]

theorem reqType_of_class {setup : Setup}
    (h : setup.bmRequestType = 0x21 ∨ setup.bmRequestType = 0xa1) : setup.reqType = 1 := by
  rw [Setup.reqType]
  rcases h with h | h <;> rw [h] <;> decide

theorem toNat_blockOff (st : DfuState) (i : Nat) :
    (blockOff st i).toNat = i % 2 ^ 16 * st.transferSize.toNat := by
  have hi : i % 2 ^ 16 < 2 ^ 16 := Nat.mod_lt _ (by decide)
  have hsize := st.transferSize_le
  have : i % 2 ^ 16 * st.transferSize.toNat ≤ 2 ^ 16 * scratchLen :=
    Nat.mul_le_mul (Nat.le_of_lt hi) hsize
  rw [blockOff, UInt32.toNat_mul, UInt16.toNat_toUInt32, UInt16.toNat_toUInt32, blockNum,
    UInt16.toNat_ofNat', Nat.mod_eq_of_lt]
  exact Nat.lt_of_le_of_lt this (by decide)

section
variable {st : DfuState} {answers : DfuAnswers} {wValue wIndex wLength len : UInt16}
  {buf : Contents}

theorem dfuControl_dnload : dfuControl st answers ⟨0x21, 1, wValue, wIndex, wLength⟩ buf len =
    dfuDnload st answers wValue buf len := by
  rw [dfuControl, if_neg (not_not.mpr (reqType_of_class (.inl rfl))), if_pos rfl]

theorem dfuControl_upload : dfuControl st answers ⟨0xa1, 2, wValue, wIndex, wLength⟩ buf len =
    dfuUpload st answers wValue len := by
  rw [dfuControl, if_neg (not_not.mpr (reqType_of_class (.inr rfl))), if_neg (by decide : ¬(2 : UInt8) = 1),
    if_pos rfl]

theorem dfuControl_getStatus :
    dfuControl st answers ⟨0xa1, 3, wValue, wIndex, wLength⟩ buf len =
      ⟨fill [st.polled.status, 0, 0, 0, st.polled.state, 0], (st.polled, []), 6⟩ := by
  rw [dfuControl, if_neg (not_not.mpr (reqType_of_class (.inr rfl))), 
    if_neg (by decide : ¬(3 : UInt8) = 1), if_neg (by decide : ¬(3 : UInt8) = 2), if_pos rfl]

end

section
variable {τ : Type*} {s : DfuStore τ} {l : DfuLink τ} {i : Nat}

theorem dnload_block {data : List UInt8} (h0 : data ≠ []) (hlen : data.length < 2 ^ 16) :
    l.dnload s i data = ⟨l.st.enter dfuDnloadSync 0,
      (blockCalls l.st i data).foldl s.call l.target, l.calls ++ blockCalls l.st i data⟩ := by
  have hlen' : data.length.toUInt16.toNat = data.length := Nat.mod_eq_of_lt hlen
  have hne : data.length.toUInt16 ≠ 0 := by
    intro h
    rw [h] at hlen'
    exact h0 (List.eq_nil_of_length_eq_zero hlen'.symm)
  simp only [DfuLink.dnload, DfuLink.request, dfuControl_dnload, dfuDnload, if_neg hne, hlen',
    fetch_getD]
  rfl

theorem dnload_nil : l.dnload s i [] =
    let calls := if (l.st.tgt l.st.cur).hasFinish then [DfuCall.finish] else []
    ⟨l.st.enter dfuManifestSync 0, calls.foldl s.call l.target, l.calls ++ calls⟩ := by
  simp only [DfuLink.dnload, DfuLink.request, dfuControl_dnload]
  rfl

theorem getStatus_eq (scratch : Contents) :
    l.getStatus s scratch = { l with st := l.st.polled } := by
  simp only [DfuLink.getStatus, DfuLink.request, dfuControl_getStatus, List.append_nil]
  rfl

theorem fetch_stored (buf : Contents) (bytes : List UInt8) :
    fetch (stored buf [.write ⟨0, bytes⟩]) 0 bytes.length = bytes := by
  refine Eq.trans ?_ (fetch_getD bytes)
  refine List.map_congr_left fun i hi => ?_
  have : i < bytes.length := List.mem_range.mp hi
  simp [stored, Store.stop, this]

theorem upload_eq (scratch : Contents) :
    (l.upload s i scratch).2 = s.read l.target (blockOff l.st i) l.st.transferSize.toNat ∧
      (l.upload s i scratch).1.target =
        s.call l.target (.read (blockOff l.st i) l.st.transferSize.toNat) ∧
      (l.upload s i scratch).1.st.transferSize = l.st.transferSize := by
  have hreply : (l.upload s i scratch).2 =
      s.read l.target (blockOff l.st i) (min l.st.transferSize.toNat l.st.transferSize.toNat) := by
    simp only [DfuLink.upload, DfuLink.request, dfuControl_upload, dfuUpload]
    exact fetch_stored scratch _
  rw [Nat.min_self] at hreply
  refine ⟨hreply, ?_⟩
  simp only [DfuLink.upload, DfuLink.request, dfuControl_upload, dfuUpload, Nat.min_self]
  exact ⟨rfl, rfl⟩

/-! ### Runs of blocks -/

/-- The states agree in what no control request changes. -/
structure DfuState.Alike (st st' : DfuState) : Prop where
  transferSize : st'.transferSize = st.transferSize
  tgt : st'.tgt = st.tgt
  cur : st'.cur = st.cur

theorem DfuState.Alike.polled {st st' : DfuState} (h : st.Alike st') : st.Alike st'.polled := by
  unfold DfuState.polled
  split
  · exact ⟨h.transferSize, h.tgt, h.cur⟩
  · split
    · exact ⟨h.transferSize, h.tgt, h.cur⟩
    · exact h

theorem DfuState.Alike.blockCalls_eq {st st' : DfuState} (h : st.Alike st') (i : Nat)
    (data : List UInt8) : blockCalls st' i data = blockCalls st i data := by
  rw [blockCalls, blockCalls, blockOff, blockOff, h.transferSize, h.tgt, h.cur]

theorem blockCalls_zero {st : DfuState} (h : (st.tgt st.cur).hasBegin = true)
    (data : List UInt8) : blockCalls st 0 data = [.beginDownload, .write (blockOff st 0) data] := by
  rw [blockCalls, if_pos ⟨rfl, h⟩]
  rfl

theorem blockCalls_pos {st : DfuState} (h0 : 0 < i) (h : i < 2 ^ 16) (data : List UInt8) :
    blockCalls st i data = [.write (blockOff st i) data] := by
  have : blockNum i ≠ 0 := by
    intro h'
    have := congrArg UInt16.toNat h'
    rw [blockNum, UInt16.toNat_ofNat', Nat.mod_eq_of_lt h] at this
    exact absurd this (Nat.pos_iff_ne_zero.mp h0)
  rw [blockCalls, if_neg fun h' => this h'.1]
  rfl

theorem contents_write_end {t : τ} {off : UInt32} (h : off.toNat = (s.contents t).length)
    (data : List UInt8) : s.contents (s.call t (.write off data)) = s.contents t ++ data := by
  rw [s.write_eq t off data (Nat.le_of_eq h), h, putBytes_length]

/-- The writes of the blocks before block `n`. -/
def blockWrites (st : DfuState) (image : List UInt8) (n : Nat) : List DfuCall :=
  (List.range n).map fun i => .write (blockOff st i) (recordAt st.transferSize.toNat image i)

/-- What holds behind the first `n` blocks. -/
structure Downloading (s : DfuStore τ) (st : DfuState) (image : List UInt8) (n : Nat)
    (l : DfuLink τ) : Prop where
  alike : st.Alike l.st
  calls : l.calls = if n = 0 then [] else .beginDownload :: blockWrites st image n
  contents : 0 < n → s.contents l.target = image.take (n * st.transferSize.toNat)

theorem Downloading.next {st : DfuState} {image : List UInt8} {n : Nat}
    (h : Downloading s st image n l) (hb : (st.tgt st.cur).hasBegin = true)
    (hlt : n * st.transferSize.toNat < image.length) (hn : n < 2 ^ 16)
    (hsize : 0 < st.transferSize.toNat) (scratch : Contents) :
    Downloading s st image (n + 1)
      ((l.dnload s n (recordAt l.st.transferSize.toNat image n)).getStatus s scratch) := by
  have hlen := length_recordAt st.transferSize.toNat image n
  have hcap := st.transferSize_le
  have h0 : recordAt st.transferSize.toNat image n ≠ [] := by
    refine List.ne_nil_of_length_pos ?_
    omega
  have hscratch : scratchLen < 2 ^ 16 := by decide
  rw [h.alike.transferSize, dnload_block h0 (by omega), getStatus_eq, h.alike.blockCalls_eq]
  have henter : st.Alike (l.st.enter dfuDnloadSync 0) :=
    ⟨h.alike.transferSize, h.alike.tgt, h.alike.cur⟩
  cases n with
  | zero =>
    rw [blockCalls_zero hb]
    refine ⟨henter.polled, ?_, fun _ => ?_⟩
    · rw [h.calls]
      rfl
    · have hoff := toNat_blockOff st 0
      rw [Nat.zero_mod, Nat.zero_mul] at hoff
      have hwrite := contents_write_end (s := s) (t := s.call l.target .beginDownload)
        (by rw [hoff, s.begin_eq]; rfl) (recordAt st.transferSize.toNat image 0)
      rw [s.begin_eq, List.nil_append] at hwrite
      refine hwrite.trans ?_
      have := take_append_recordAt st.transferSize.toNat image 0
      rwa [Nat.zero_mul, List.take_zero, List.nil_append] at this
  | succ n =>
    rw [blockCalls_pos (Nat.succ_pos n) hn]
    refine ⟨henter.polled, ?_, fun _ => ?_⟩
    · have hcalls := h.calls
      rw [if_neg (Nat.succ_ne_zero n)] at hcalls
      rw [hcalls, if_neg (Nat.succ_ne_zero _), blockWrites, blockWrites, List.range_succ (n := n + 1),
        List.map_append]
      rfl
    · have hheld := h.contents (Nat.succ_pos n)
      have hoff : (blockOff st (n + 1)).toNat = (s.contents l.target).length := by
        rw [toNat_blockOff, Nat.mod_eq_of_lt hn, hheld, List.length_take_of_le (Nat.le_of_lt hlt)]
      have hwrite := contents_write_end (s := s) hoff (recordAt st.transferSize.toNat image (n + 1))
      rw [hheld, take_append_recordAt] at hwrite
      exact hwrite

theorem dnloadBlocks_downloading {image : List UInt8} (hb : (l.st.tgt l.st.cur).hasBegin = true)
    (hcalls : l.calls = []) (hsize : 0 < l.st.transferSize.toNat) (scratch : Nat → Contents)
    {n : Nat} (hn : n ≤ 2 ^ 16) (hlt : ∀ i < n, i * l.st.transferSize.toNat < image.length) :
    Downloading s l.st image n (l.dnloadBlocks s image scratch n) := by
  induction n with
  | zero => exact ⟨⟨rfl, rfl, rfl⟩, hcalls, fun h => absurd h (Nat.lt_irrefl 0)⟩
  | succ n ih =>
    have := ih (Nat.le_of_succ_le hn) fun i hi => hlt i (Nat.lt_succ_of_lt hi)
    exact this.next hb (hlt n (Nat.lt_succ_self n)) hn hsize (scratch n)

theorem dfuControl_transferSize (st : DfuState) (answers : DfuAnswers) (setup : Setup)
    (buf : Contents) (len : UInt16) :
    (dfuControl st answers setup buf len).state.1.transferSize = st.transferSize := by
  have hpolled : st.polled.transferSize = st.transferSize :=
    (DfuState.Alike.polled ⟨rfl, rfl, rfl⟩).transferSize
  unfold dfuControl dfuDnload dfuUpload
  dsimp only
  split_ifs <;> first | rfl | exact hpolled

theorem dnloadBlocks_transferSize (image : List UInt8) (scratch : Nat → Contents) (n : Nat) :
    (l.dnloadBlocks s image scratch n).st.transferSize = l.st.transferSize := by
  induction n with
  | zero => rfl
  | succ n ih =>
    rw [DfuLink.dnloadBlocks, getStatus_eq]
    refine (DfuState.Alike.polled ⟨rfl, rfl, rfl⟩).transferSize.trans ?_
    exact (dfuControl_transferSize ..).trans ih

/-- What comes back for the blocks before block `n`, while the target holds `image`. -/
theorem uploadBlocks_eq {image : List UInt8} (h : s.contents l.target = image)
    (scratch : Nat → Contents) (n : Nat) :
    (l.uploadBlocks s scratch n).2 =
        (List.range n).map (fun i =>
          bytesAt image (i % 2 ^ 16 * l.st.transferSize.toNat) l.st.transferSize.toNat) ∧
      s.contents (l.uploadBlocks s scratch n).1.target = image ∧
      (l.uploadBlocks s scratch n).1.st.transferSize = l.st.transferSize := by
  induction n with
  | zero => exact ⟨rfl, h, rfl⟩
  | succ n ih =>
    obtain ⟨hblocks, hheld, hsize⟩ := ih
    obtain ⟨hreply, htarget, hsize'⟩ :=
      upload_eq (s := s) (l := (l.uploadBlocks s scratch n).1) (i := n) (scratch n)
    refine ⟨?_, ?_, hsize'.trans hsize⟩
    · rw [DfuLink.uploadBlocks, hblocks, hreply, s.read_eq, hheld, toNat_blockOff, hsize,
        List.range_succ, List.map_append]
      rfl
    · rw [DfuLink.uploadBlocks, htarget, s.keep_read, hheld]

/-! ### The whole image -/

theorem lt_blockCount_iff {size : Nat} (hs : 0 < size) (len i : Nat) :
    i < (len + size - 1) / size ↔ i * size < len := by
  rw [← Nat.succ_le_iff, Nat.le_div_iff_mul_le hs, Nat.succ_mul]
  omega

/-- What the download of an image leaves, up to block 2^16. -/
theorem download_eq {image : List UInt8} (hb : (l.st.tgt l.st.cur).hasBegin = true)
    (hcalls : l.calls = []) (hsize : 0 < l.st.transferSize.toNat) (scratch : Nat → Contents)
    (h0 : image ≠ []) (hlt : image.length < 2 ^ 16 * l.st.transferSize.toNat) :
    s.contents (l.download s image scratch).target = image ∧
      ∃ n, (l.download s image scratch).calls = .beginDownload :: (blockWrites l.st image n ++
        if (l.st.tgt l.st.cur).hasFinish then [DfuCall.finish] else []) ∧ n ≤ 2 ^ 16 := by
  have hcount := lt_blockCount_iff hsize image.length
  rw [DfuLink.download]
  generalize (image.length + l.st.transferSize.toNat - 1) / l.st.transferSize.toNat = n at hcount
  have hpos : 0 < n := by
    rw [hcount, Nat.zero_mul]
    exact List.length_pos_iff.mpr h0
  have hle : n ≤ 2 ^ 16 := by
    refine Nat.not_lt.mp fun h => ?_
    have := (hcount (2 ^ 16)).mp h
    omega
  have hall : image.length ≤ n * l.st.transferSize.toNat :=
    Nat.not_lt.mp fun h => Nat.lt_irrefl n ((hcount n).mpr h)
  have hd := dnloadBlocks_downloading (s := s) hb hcalls hsize scratch hle
    fun i hi => (hcount i).mp hi
  have hheld := hd.contents hpos
  rw [List.take_of_length_le hall] at hheld
  have hlog := hd.calls
  rw [if_neg (Nat.pos_iff_ne_zero.mp hpos)] at hlog
  rw [dnload_nil, hd.alike.tgt, hd.alike.cur, hlog]
  refine ⟨?_, n, rfl, hle⟩
  refine Eq.trans ?_ hheld
  split
  · exact s.keep_finish _
  · rfl

end

section
variable {τ : Type*} {s : DfuStore τ} {a : Attached} {t : τ} {image : Firmware}
  {scratch : Nat → Contents}

/-- The blocks that come back from a target that holds the image. -/
theorem uploaded_eq (hheld : s.contents (a.downloaded s t image scratch).target = image.bytes) :
    a.uploaded s t image scratch = (List.range (image.bytes.length / a.size + 1)).map fun i =>
      bytesAt image.bytes (i % 2 ^ 16 * a.size) a.size := by
  have := (uploadBlocks_eq hheld scratch (image.bytes.length / a.size + 1)).1
  have hsize : (a.downloaded s t image scratch).st.transferSize = a.st.transferSize :=
    (dfuControl_transferSize ..).trans (dnloadBlocks_transferSize ..)
  rw [hsize] at this
  exact this

/-- When there are few enough blocks, each comes back from its own offset. -/
theorem uploaded_records
    (hheld : s.contents (a.downloaded s t image scratch).target = image.bytes)
    (hlt : image.bytes.length < 2 ^ 16 * a.size) :
    a.uploaded s t image scratch =
      (List.range (image.bytes.length / a.size + 1)).map (recordAt a.size image.bytes) := by
  rw [uploaded_eq hheld]
  refine List.map_congr_left fun i hi => ?_
  have hi' : i ≤ image.bytes.length / a.size := Nat.le_of_lt_succ (List.mem_range.mp hi)
  have hdiv : image.bytes.length / a.size < 2 ^ 16 := (Nat.div_lt_iff_lt_mul a.size_pos).mpr hlt
  rw [recordAt, Nat.mod_eq_of_lt (Nat.lt_of_le_of_lt hi' hdiv)]

theorem kept_of_lt (hlt : image.bytes.length < 2 ^ 16 * a.size) : Kept s a t image scratch := by
  obtain ⟨hheld, n, hcalls, hn⟩ := download_eq (s := s) (l := ⟨a.st, t, []⟩) a.hasBegin rfl
    a.size_pos scratch image.nonempty hlt
  have hback := uploaded_records hheld hlt
  have hmod := Nat.div_add_mod image.bytes.length a.size
  have hrest : image.bytes.length % a.size < a.size := Nat.mod_lt _ a.size_pos
  rw [Nat.mul_comm] at hmod
  constructor
  · exact hheld
  · refine ⟨_, hcalls, ?_⟩
    rw [List.mem_append, blockWrites]
    rintro (h | h)
    · simp at h
    · split at h <;> simp at h
  · intro off data h
    rw [Attached.downloaded, hcalls, List.mem_cons, List.mem_append] at h
    rcases h with h | h | h
    · cases h
    · obtain ⟨i, hi, hw⟩ := List.mem_map.mp h
      cases hw
      have hi' : i < 2 ^ 16 := Nat.lt_of_lt_of_le (List.mem_range.mp hi) hn
      rw [toNat_blockOff, Nat.mod_eq_of_lt hi']
      exact bytesAt_length_bytesAt ..
    · split at h <;> simp at h
  · intro b hb
    rw [hback, List.range_succ, List.map_append, List.map_singleton, List.dropLast_concat] at hb
    obtain ⟨i, hi, rfl⟩ := List.mem_map.mp hb
    have hi' := Nat.mul_le_mul_right a.size (List.mem_range.mp hi)
    rw [length_recordAt]
    rw [Nat.succ_mul] at hi'
    omega
  · intro b hb
    rw [hback, List.range_succ, List.map_append, List.map_singleton, List.getLast?_concat] at hb
    cases hb
    rw [length_recordAt]
    omega
  · rw [hback, flatten_recordAt]
    refine List.take_of_length_le ?_
    rw [Nat.succ_mul]
    omega

theorem lt_of_kept (h : Kept s a t image scratch) : image.bytes.length < 2 ^ 16 * a.size := by
  by_contra hlarge
  -- the last block wraps around to a whole one of the image
  have hlast := h.short
  rw [uploaded_eq h.held, List.range_succ, List.map_append, List.map_singleton,
    List.getLast?_concat] at hlast
  have hshort := hlast _ rfl
  have hdiv : 2 ^ 16 ≤ image.bytes.length / a.size :=
    (Nat.le_div_iff_mul_le a.size_pos).mpr (Nat.not_lt.mp hlarge)
  have hwrap : image.bytes.length / a.size % 2 ^ 16 + 1 ≤ image.bytes.length / a.size := by
    have := Nat.mod_lt (image.bytes.length / a.size) (show 0 < 2 ^ 16 by decide)
    omega
  have hfits : image.bytes.length / a.size % 2 ^ 16 * a.size + a.size ≤ image.bytes.length := by
    have := Nat.mul_le_mul_right a.size hwrap
    have hle := Nat.div_mul_le_self image.bytes.length a.size
    rw [Nat.succ_mul] at this
    omega
  rw [length_bytesAt hfits] at hshort
  exact Nat.lt_irrefl _ hshort

end

/-- The image survives the round trip exactly when it has fewer than 2^16 whole blocks. -/
theorem kept_iff {τ : Type*} (s : DfuStore τ) (a : Attached) (t : τ) (image : Firmware)
    (scratch : Nat → Contents) :
    Kept s a t image scratch ↔ image.bytes.length < 2 ^ 16 * a.size :=
  ⟨lt_of_kept, kept_of_lt⟩

/-- A target that is a list of bytes. -/
def listStore : DfuStore (List UInt8) where
  contents := id
  call t
    | .beginDownload => []
    | .write off data => putBytes t off.toNat data
    | .read .. => t
    | .finish => t
  read t off want := bytesAt t off.toNat want
  begin_eq _ := rfl
  write_eq _ _ _ _ := rfl
  keep_read _ _ _ := rfl
  keep_finish _ := rfl
  read_eq _ _ _ := rfl

/-- Blocks of one byte. -/
def byteBlocks : Attached where
  st := (dfuBuild 1 (fun _ => ⟨true, false⟩) 1).st
  size_pos := dfuTransferSize_pos 1
  hasBegin := rfl

/-- 2^16 bytes are one block too many. -/
def wrapping : Firmware where
  bytes := List.replicate (2 ^ 16) 0
  nonempty := List.ne_nil_of_length_pos (by rw [List.length_replicate]; decide)
  length_lt := by rw [List.length_replicate]; decide

theorem wrapping_not_kept :
    ¬Kept listStore byteBlocks [] wrapping (fun _ _ => 0) := by
  intro h
  have := lt_of_kept h
  rw [wrapping, List.length_replicate] at this
  exact absurd this (by decide)

end Usbip.Classes
