import Usbip.Classes.Control

/-! The DFU state machine over a run of requests: what latches in dfuERROR, and when `finish` is
called. -/

namespace Usbip.Classes

open Lib Control

/-- `struct dfu_state` with its number of targets. -/
structure DfuFunction where
  st : DfuState
  nTargets : Nat
  nTargets_le : nTargets ≤ 16

/-- `MAX_TARGETS`. -/
def maxTargets : Nat := 16

/-- The `transfer_size` that `dfu_build` settles on: 1024 for 0, capped by the control buffer. -/
def dfuTransferSize (asked : UInt16) : UInt16 :=
  let size := if asked ≠ 0 then asked else 1024
  if 4096 < size then 4096 else size

theorem dfuTransferSize_le (asked : UInt16) : (dfuTransferSize asked).toNat ≤ scratchLen := by
  unfold dfuTransferSize
  generalize (if asked ≠ 0 then asked else 1024) = size
  dsimp only
  split
  · decide
  · rename_i h
    exact UInt16.le_iff_toNat_le.mp (UInt16.not_lt.mp h)

theorem dfuTransferSize_pos (asked : UInt16) : 0 < (dfuTransferSize asked).toNat := by
  have hsize : (if asked ≠ 0 then asked else 1024) ≠ 0 := by
    split
    · assumption
    · decide
  unfold dfuTransferSize
  generalize (if asked ≠ 0 then asked else 1024) = size at hsize
  dsimp only
  split
  · decide
  · exact Nat.pos_of_ne_zero fun h0 => hsize (UInt16.toNat_inj.mp h0)

def dfuBuild (transferSize : UInt16) (targets : Fin 16 → DfuTarget) (nTargets : Nat) :
    DfuFunction where
  st :=
    { transferSize := dfuTransferSize transferSize
      tgt := targets
      cur := 0
      state := dfuIdle
      status := 0
      transferSize_le := dfuTransferSize_le transferSize }
  nTargets := min nTargets maxTargets
  nTargets_le := Nat.min_le_right ..

def DfuFunction.selectable (f : DfuFunction) (alt : Int) : Prop := 0 ≤ alt ∧ alt < f.nTargets

instance (f : DfuFunction) (alt : Int) : Decidable (f.selectable alt) :=
  inferInstanceAs (Decidable (_ ∧ _))

def dfuSetAlt (f : DfuFunction) (alt : Int) : DfuFunction :=
  if h : f.selectable alt then
    have hlt : alt.toNat < 16 := by
      have := f.nTargets_le
      obtain ⟨h0, h1⟩ := h
      omega
    { f with st := { f.st with cur := ⟨alt.toNat, hlt⟩, state := dfuIdle, status := 0 } }
  else f

/-- What the function is called with. -/
inductive DfuRequest
  /-- a control request, with what the current target answers while it is handled -/
  | control (setup : Setup) (buf : Contents) (len : UInt16) (answers : DfuAnswers)
  | setInterface (alt : Int)

/-- The function after a request, and the calls of its target. -/
def DfuFunction.handle (f : DfuFunction) : DfuRequest → DfuFunction × List DfuCall
  | .control setup buf len answers =>
    let handled := dfuControl f.st answers setup buf len
    ({ f with st := handled.state.1 }, handled.state.2)
  | .setInterface alt => (dfuSetAlt f alt, [])

/-- What a request means for the download that is going on. -/
inductive DfuRequest.Kind
  | block (accepted : Bool)
  | lastBlock
  | upload
  | reset
  | other
  deriving DecidableEq, Repr

def DfuRequest.kind (f : DfuFunction) : DfuRequest → Kind
  | .control setup _ len answers =>
    if setup.reqType ≠ 1 then .other
    else if setup.bRequest = 1 then
      if len = 0 then .lastBlock else .block (answers.write = 0)
    else if setup.bRequest = 2 then .upload
    else if setup.bRequest = 4 ∨ setup.bRequest = 6 then .reset
    else .other
  | .setInterface alt => if f.selectable alt then .reset else .other

/-- The blocks of the current download. An upload and a reset give it up. -/
structure Download where
  written : Nat
  failed : Bool
  deriving DecidableEq, Repr

/-- No block of a download yet. -/
def Download.fresh : Download := ⟨0, false⟩

def Download.after (d : Download) : DfuRequest.Kind → Download
  | .block true => { d with written := d.written + 1 }
  | .block false => { d with failed := true }
  | .lastBlock | .upload | .reset => .fresh
  | .other => d

structure DfuRun where
  fn : DfuFunction
  download : Download

def DfuRun.next (r : DfuRun) (req : DfuRequest) : Option DfuRun :=
  some ⟨(r.fn.handle req).1, r.download.after (req.kind r.fn)⟩

def DfuRun.start (f : DfuFunction) : DfuRun := ⟨f, .fresh⟩

def DfuCall.isRead : DfuCall → Bool
  | .read .. => true
  | _ => false

/-- In dfuERROR a request that is no reset changes nothing and asks nothing of the target but to
read, and a download is finished only with all its blocks written. -/
structure Obeys (r : DfuRun) (req : DfuRequest) : Prop where
  latched : r.fn.st.state = dfuError → req.kind r.fn ≠ .reset →
    (r.fn.handle req).1.st.state = r.fn.st.state ∧
      (r.fn.handle req).1.st.status = r.fn.st.status ∧
      ∀ c ∈ (r.fn.handle req).2, c.isRead
  finish : .finish ∈ (r.fn.handle req).2 → 0 < r.download.written ∧ r.download.failed = false

/-- The states between two blocks of a download. -/
def DfuState.downloading (st : DfuState) : Prop :=
  st.state = dfuDnloadSync ∨ st.state = dfuDnloadIdle

/-- The host sends no block and asks for none in dfuERROR, and ends a download only behind a block.
-/
structure Orderly (r : DfuRun) (req : DfuRequest) : Prop where
  error : r.fn.st.state = dfuError → req.kind r.fn = .reset ∨ req.kind r.fn = .other
  last : req.kind r.fn = .lastBlock → (r.fn.st.tgt r.fn.st.cur).hasFinish → r.fn.st.downloading

section
variable {f : DfuFunction} {req : DfuRequest} {r r' : DfuRun}

/-! ### What a request does, by its kind -/

theorem handle_block {accepted : Bool} (h : req.kind f = .block accepted) :
    (f.handle req).1.st.state = (if accepted then dfuDnloadSync else dfuError) ∧
      .finish ∉ (f.handle req).2 ∧ ∃ off data, .write off data ∈ (f.handle req).2 := by
  cases req with
  | setInterface alt =>
    rw [DfuRequest.kind] at h
    split at h <;> cases h
  | control setup buf len answers =>
    simp only [DfuRequest.kind] at h
    split_ifs at h with hclass hdn hlen
    cases h
    simp only [DfuFunction.handle, dfuControl, if_neg hclass, if_pos hdn, dfuDnload, if_neg hlen,
      decide_eq_true_eq]
    refine ⟨?_, ?_, _, _, List.mem_append_right _ (List.mem_singleton_self _)⟩
    · split_ifs <;> rfl
    · split_ifs <;> simp

theorem handle_lastBlock (h : req.kind f = .lastBlock) :
    (f.handle req).1.st.state = dfuManifestSync ∧
      (.finish ∈ (f.handle req).2 ↔ (f.st.tgt f.st.cur).hasFinish) := by
  cases req with
  | setInterface alt =>
    rw [DfuRequest.kind] at h
    split at h <;> cases h
  | control setup buf len answers =>
    simp only [DfuRequest.kind] at h
    split_ifs at h with hclass hdn hlen
    simp only [DfuFunction.handle, dfuControl, if_neg hclass, if_pos hdn, dfuDnload, if_pos hlen]
    refine ⟨rfl, ?_⟩
    show _ ∈ (if _ then _ else _) ↔ _
    split <;> simp [*]

theorem handle_upload (h : req.kind f = .upload) :
    ((f.handle req).1.st.state = dfuUploadIdle ∨ (f.handle req).1.st.state = dfuIdle) ∧
      .finish ∉ (f.handle req).2 := by
  cases req with
  | setInterface alt =>
    rw [DfuRequest.kind] at h
    split at h <;> cases h
  | control setup buf len answers =>
    simp only [DfuRequest.kind] at h
    split_ifs at h with hclass hdn hlen hup
    simp only [DfuFunction.handle, dfuControl, if_neg hclass, if_neg hdn, if_pos hup, dfuUpload]
    refine ⟨?_, by simp⟩
    split
    · exact .inl rfl
    · exact .inr rfl

theorem handle_reset (h : req.kind f = .reset) :
    (f.handle req).1.st.state = dfuIdle ∧ (f.handle req).2 = [] := by
  cases req with
  | setInterface alt =>
    rw [DfuRequest.kind] at h
    split at h
    · rename_i halt
      rw [DfuFunction.handle, dfuSetAlt, dif_pos halt]
      exact ⟨rfl, rfl⟩
    · cases h
  | control setup buf len answers =>
    simp only [DfuRequest.kind] at h
    split_ifs at h with hclass hdn hlen hup hreset
    have hne : setup.bRequest ≠ 3 ∧ setup.bRequest ≠ 5 := by
      rcases hreset with h | h <;> rw [h] <;> decide
    simp only [DfuFunction.handle, dfuControl, if_neg hclass, if_neg hdn, if_neg hup, if_neg hne.1,
      if_neg hne.2, if_pos hreset]
    exact ⟨rfl, rfl⟩

theorem handle_other (h : req.kind f = .other) :
    ((f.handle req).1.st = f.st ∨ (f.handle req).1.st = f.st.polled) ∧
      (f.handle req).2 = [] := by
  cases req with
  | setInterface alt =>
    rw [DfuRequest.kind] at h
    split at h
    · cases h
    · rename_i halt
      exact ⟨.inl (by rw [DfuFunction.handle, dfuSetAlt, dif_neg halt]), rfl⟩
  | control setup buf len answers =>
    simp only [DfuRequest.kind] at h
    simp only [DfuFunction.handle, dfuControl]
    by_cases hclass : setup.reqType ≠ 1
    · rw [if_pos hclass]
      exact ⟨.inl rfl, rfl⟩
    rw [if_neg hclass] at h ⊢
    split_ifs at h with hdn hlen hup hreset
    rw [if_neg hdn, if_neg hup]
    split_ifs
    · exact ⟨.inr rfl, rfl⟩
    · exact ⟨.inl rfl, rfl⟩
    · exact ⟨.inl rfl, rfl⟩
    · exact ⟨.inl rfl, rfl⟩

/-- The state tells how far the current download is. -/
structure DfuRun.Tracked (r : DfuRun) : Prop where
  downloading : r.fn.st.downloading ↔ 0 < r.download.written ∧ r.download.failed = false
  failed : r.fn.st.state ≠ dfuError → r.download.failed = false

theorem tracked_of_fresh (hd : ¬r.fn.st.downloading) (h : r.download = .fresh) : r.Tracked where
  downloading := iff_of_false hd (by rw [h]; simp [Download.fresh])
  failed _ := by rw [h]; rfl

theorem not_downloading_of_state {st : DfuState} {s : UInt8} (h : st.state = s)
    (hs : s ≠ dfuDnloadSync ∧ s ≠ dfuDnloadIdle) : ¬st.downloading := by
  rw [DfuState.downloading, h]
  exact not_or.mpr hs

theorem DfuState.polled_downloading (st : DfuState) : st.polled.downloading ↔ st.downloading := by
  unfold DfuState.polled
  split
  · rename_i h
    exact iff_of_true (.inr rfl) (.inl h)
  · split
    · rename_i h
      exact iff_of_false (not_downloading_of_state (s := dfuIdle) rfl (by decide))
        (not_downloading_of_state h (by decide))
    · rfl

theorem DfuState.polled_of_error {st : DfuState} (h : st.state = dfuError) : st.polled = st := by
  rw [DfuState.polled, if_neg (by rw [h]; decide), if_neg (by rw [h]; decide)]

theorem DfuRun.Tracked.next (ht : r.Tracked) (ho : Orderly r req) (h : r.next req = some r') :
    r'.Tracked := by
  cases h
  cases hk : req.kind r.fn with
  | block accepted =>
    have herr : r.fn.st.state ≠ dfuError := by
      intro he
      rcases ho.error he with h | h <;> rw [hk] at h <;> cases h
    obtain ⟨hstate, -, -⟩ := handle_block hk
    cases accepted with
    | true =>
      constructor
      · exact iff_of_true (.inl hstate) ⟨Nat.succ_pos _, ht.failed herr⟩
      · exact fun _ => ht.failed herr
    | false =>
      constructor
      · refine iff_of_false (not_downloading_of_state hstate (by decide)) ?_
        exact fun h => nomatch h.2
      · exact fun hne => absurd hstate hne
  | lastBlock =>
    exact tracked_of_fresh (not_downloading_of_state (handle_lastBlock hk).1 (by decide)) rfl
  | upload =>
    refine tracked_of_fresh ?_ rfl
    rcases (handle_upload hk).1 with h | h
    · exact not_downloading_of_state h (by decide)
    · exact not_downloading_of_state h (by decide)
  | reset =>
    exact tracked_of_fresh (not_downloading_of_state (handle_reset hk).1 (by decide)) rfl
  | other =>
    have hst := (handle_other hk).1
    constructor
    · show (r.fn.handle req).1.st.downloading ↔ _
      rcases hst with h | h
      · rw [h]
        exact ht.downloading
      · rw [h, DfuState.polled_downloading]
        exact ht.downloading
    · intro hne
      refine ht.failed fun he => hne ?_
      rcases hst with h | h
      · exact (congrArg DfuState.state h).trans he
      · exact (congrArg DfuState.state (h.trans (DfuState.polled_of_error he))).trans he

/-- In a tracked state the code does what it should for a request exactly when the request is in
order. -/
theorem DfuRun.Tracked.obeys_iff (ht : r.Tracked) : Obeys r req ↔ Orderly r req := by
  cases hk : req.kind r.fn with
  | block accepted =>
    obtain ⟨hstate, hfin, off, data, hwrite⟩ := handle_block hk
    constructor
    · intro h
      refine ⟨fun he => ?_, fun h' => nomatch hk.symm.trans h'⟩
      have := (h.latched he (by rw [hk]; exact fun h => nomatch h)).2.2 _ hwrite
      cases this
    · intro h
      refine ⟨fun he => ?_, fun h' => absurd h' hfin⟩
      rcases h.error he with h | h <;> rw [hk] at h <;> cases h
  | lastBlock =>
    obtain ⟨hstate, hfin⟩ := handle_lastBlock hk
    constructor
    · intro h
      refine ⟨fun he => ?_, fun _ hf => ht.downloading.mpr (h.finish (hfin.mpr hf))⟩
      have := (h.latched he (by rw [hk]; exact fun h => nomatch h)).1
      rw [hstate, he] at this
      cases this
    · intro h
      refine ⟨fun he => ?_, fun hf => ht.downloading.mp (h.last hk (hfin.mp hf))⟩
      rcases h.error he with h | h <;> rw [hk] at h <;> cases h
  | upload =>
    obtain ⟨hstate, hfin⟩ := handle_upload hk
    constructor
    · intro h
      refine ⟨fun he => ?_, fun h' => nomatch hk.symm.trans h'⟩
      have := (h.latched he (by rw [hk]; exact fun h => nomatch h)).1
      rw [he] at this
      rcases hstate with h | h <;> rw [h] at this <;> cases this
    · intro h
      refine ⟨fun he => ?_, fun h' => absurd h' hfin⟩
      rcases h.error he with h | h <;> rw [hk] at h <;> cases h
  | reset =>
    have hcalls := (handle_reset hk).2
    refine iff_of_true ⟨fun _ hne => absurd hk hne, fun h => ?_⟩
      ⟨fun _ => .inl hk, fun h => nomatch hk.symm.trans h⟩
    rw [hcalls] at h
    cases h
  | other =>
    obtain ⟨hst, hcalls⟩ := handle_other hk
    refine iff_of_true ⟨fun he _ => ?_, fun h => ?_⟩
      ⟨fun _ => .inr hk, fun h => nomatch hk.symm.trans h⟩
    · have hsame : (r.fn.handle req).1.st = r.fn.st := by
        rcases hst with h | h
        · exact h
        · exact h.trans (DfuState.polled_of_error he)
      rw [hsame, hcalls]
      exact ⟨rfl, rfl, fun c hc => absurd hc List.not_mem_nil⟩
    · rw [hcalls] at h
      cases h

end

/-- The machine does what it should throughout a run exactly when the host keeps to the order. -/
theorem obeys_iff_orderly (transferSize : UInt16) (targets : Fin 16 → DfuTarget) (nTargets : Nat)
    (reqs : List DfuRequest) :
    Guarded DfuRun.next Obeys (.start (dfuBuild transferSize targets nTargets)) reqs ↔
      Guarded DfuRun.next Orderly (.start (dfuBuild transferSize targets nTargets)) reqs := by
  have hstart : (DfuRun.start (dfuBuild transferSize targets nTargets)).Tracked :=
    tracked_of_fresh (not_downloading_of_state (s := dfuIdle) rfl (by decide)) rfl
  exact guarded_congr (fun _ _ ht => ht.obeys_iff) (fun _ _ _ ht ho h => ht.next ho h) hstart

/-- One target without `begin` and with `finish`. -/
def oneTarget : DfuFunction := dfuBuild 64 (fun _ => ⟨false, true⟩) 1

/-- A `DNLOAD` of block 0 that is answered with `rc`. -/
def dnload (len : UInt16) (rc : Int) : DfuRequest :=
  .control ⟨0x21, 1, 0, 0, len⟩ (fun _ => 0) len
    ⟨rc, .nothing⟩

/-- A block behind a block that failed is written and leaves dfuERROR, and an end of the download
without a block is taken for a finished one. -/
theorem not_obeys :
    ¬Guarded DfuRun.next Obeys (.start oneTarget) [dnload 8 8, dnload 8 0] ∧
      ¬Guarded DfuRun.next Obeys (.start oneTarget) [dnload 0 0] := by
  constructor
  · intro h
    have := ((h.2 _ rfl).1.latched rfl (by decide)).1
    exact absurd this (by decide)
  · intro h
    have := (h.1.finish (List.mem_singleton_self _)).1
    exact absurd this (by decide)

end Usbip.Classes
