import Usbip.Lib.Run
import Usbip.Msc.Bot

/-! The calls of the backend.  A write hands over the OUT bytes that followed its command wrapper,
in order, however they were cut into chunks; reads and writes stay in the medium. -/

namespace Usbip.Msc

open Lib

/-- The bytes that came in through the OUT pipe. -/
def payload (acts : List Act) : List UInt8 :=
  acts.flatMap fun
    | .out chunk _ => chunk
    | .control _ => []

namespace MscState

/-- The machine arithmetic of a step does not wrap: a write that begins is shorter than 4 GiB, and
so is what a data phase has got with the chunk that comes. -/
def Fits (st : MscState) : Act → Prop
  | .control _ => True
  | .out chunk env =>
    if st.writing then st.wgot.toNat + chunk.length < 2 ^ 32
    else
      ∀ cbw, parseCbw chunk = some cbw → ∀ lba count, st.outcome cbw env = .write lba count →
        count.toNat * (env.blockSize (st.lun cbw.lun).user).toNat < 2 ^ 32

/-- A data phase that a command wrapper has begun and that lasts since then.  `begun` is the state
before the wrapper, `after` what came since. -/
structure Lasts (start : MscState) (acts : List Act) (chunk : List UInt8) (env : Env) (cbw : Cbw)
    (begun : MscState) (before after : List Act) : Prop where
  acts_eq : acts = before ++ .out chunk env :: after
  reached : exec next start before = some begun
  idle : begun.writing = false
  parsed : parseCbw chunk = some cbw
  lasts : Throughout next (fun st => st.writing = true) (begun.onOut chunk env).1 after

/-- A call of `write` that the chunk `last` brings about in the state `st`.  It is for the wrapper
of the data phase, to a unit that is not read-only, in the range of blocks that the medium had
then, and it hands over the first bytes that followed the wrapper. -/
def WriteOk (start : MscState) (acts : List Act) (st : MscState) (last : List UInt8)
    (lun : Nat) (lba count : UInt32) (buf : List UInt8) : Prop :=
  ∃ chunk env cbw begun before after, Lasts start acts chunk env cbw begun before after ∧
    lun = cbw.lun ∧ lba = cdbLba cbw.cdb ∧ count = cdbCount (byteAt cbw.cdb 0 = 0xaa) cbw.cdb ∧
    lun < st.nLuns ∧ (st.lun lun).readOnly = false ∧
    lba.toNat + count.toNat ≤ (env.numBlocks (st.lun lun).user).toNat ∧
    let size := count.toNat * (env.blockSize (st.lun lun).user).toNat
    let bytes := payload after ++ last
    size ≤ buf.length ∧ size ≤ bytes.length ∧ buf.take size = bytes.take size

/-- A call of `read`: it is in the range of blocks of the medium, and the buffer is large enough. -/
def ReadOk (st : MscState) (env : Env) (lun : Nat) (lba count : UInt32) (rlen : Nat) : Prop :=
  lun < st.nLuns ∧ lba.toNat + count.toNat ≤ (env.numBlocks (st.lun lun).user).toNat ∧
    count.toNat * (env.blockSize (st.lun lun).user).toNat ≤ rlen

/-- The calls of the backend that a step makes after some actions. -/
def CallsOk (start : MscState) (acts : List Act) (st : MscState) : Act → Prop
  | .control setup => (st.step (.control setup)).2 = []
  | .out chunk env => ∀ ev ∈ (st.step (.out chunk env)).2, match ev with
    | .write lun lba count buf => WriteOk start acts st chunk lun lba count buf
    | .read lun lba count rlen => ReadOk st env lun lba count rlen
    | _ => True

/-! ### The data phase -/

/-- The write in flight: what a data phase has got so far. -/
structure InFlight (start : MscState) (acts : List Act) (st : MscState) (chunk : List UInt8)
    (env : Env) (cbw : Cbw) (begun : MscState) (before after : List Act) : Prop
    extends Lasts start acts chunk env cbw begun before after where
  run : exec next (begun.onOut chunk env).1 after = some st
  outcome : begun.outcome cbw env = .write st.wlba st.wcount
  wlun : st.wlun = cbw.lun
  lun : st.lun = begun.lun
  nLuns : st.nLuns = begun.nLuns
  need : st.wneed.toNat = st.wcount.toNat * (env.blockSize (begun.lun cbw.lun).user).toNat
  room : st.wneed.toNat ≤ st.wbuf.length
  got : st.wgot.toNat = (payload after).length
  got_le : st.wgot.toNat ≤ st.wneed.toNat
  stored : st.wbuf.take st.wgot.toNat = payload after

theorem perform_writing {st : MscState} (hidle : st.writing = false) {lun : Nat}
    {tag : List UInt8} {dlen : UInt32} {env : Env} {o : Outcome}
    (h : (st.perform lun tag dlen env o).1.writing = true) : ∃ lba count, o = .write lba count := by
  cases o with
  | write lba count => exact ⟨lba, count, rfl⟩
  | read lba count rlen =>
    simp only [perform] at h
    split at h <;> simp [fail, setSense, hidle] at h
  | _ => simp [perform, fail, setSense, hidle] at h

theorem fail_isCall {st : MscState} {lun : Nat} {tag : List UInt8} {dlen : UInt32} {sense : Sense}
    {ev : Event} (h : ev ∈ (st.fail lun tag dlen sense).2) : ev.isCall = false := by
  rcases List.mem_append.mp h with h | h
  · obtain ⟨dir, rfl⟩ := mem_stallDataPhase h
    rfl
  · rw [List.mem_singleton.mp h]
    rfl

theorem dataIn_isCall {st : MscState} {tag : List UInt8} {dlen : UInt32} {data : List UInt8}
    {datalen : UInt32} {ev : Event} (h : ev ∈ st.dataIn tag dlen data datalen) :
    ev.isCall = false := by
  rcases mem_dataIn h with ⟨bytes, rfl⟩ | ⟨dir, rfl⟩ | ⟨residue, rfl⟩ <;> rfl

/-- Outside a data phase the backend is called for a read only. -/
theorem perform_calls {st : MscState} {lun : Nat} {tag : List UInt8} {dlen : UInt32} {env : Env}
    {o : Outcome} {ev : Event} (h : ev ∈ (st.perform lun tag dlen env o).2)
    (hcall : ev.isCall = true) :
    ∃ lba count rlen, o = .read lba count rlen ∧ ev = .read lun lba count rlen := by
  have hquiet {P : Prop} (hev : ev.isCall = false) : P := by
    rw [hev] at hcall
    cases hcall
  cases o with
  | passed =>
    rw [List.mem_singleton.mp h] at hcall
    cases hcall
  | failed sense => exact hquiet (fail_isCall h)
  | dataIn data => exact hquiet (dataIn_isCall h)
  | senseIn data => exact hquiet (dataIn_isCall h)
  | read lba count rlen =>
    simp only [perform] at h
    rcases List.mem_cons.mp h with rfl | h
    · exact ⟨lba, count, rlen, rfl, rfl⟩
    · split at h
      · exact hquiet (dataIn_isCall h)
      · exact hquiet (fail_isCall h)
  | write lba count => cases h

/-- A wrapper outside a data phase calls the backend only for a read in the range of blocks. -/
theorem command_calls {st : MscState} {cbw : Cbw} {env : Env} {ev : Event}
    (h : ev ∈ (st.command cbw env).2) (hcall : ev.isCall = true) :
    ∃ lun lba count rlen, ev = .read lun lba count rlen ∧ ReadOk st env lun lba count rlen := by
  rw [command_eq] at h
  obtain ⟨lba, count, rlen, ho, rfl⟩ := perform_calls h hcall
  have hsound := outcome_sound st cbw env
  have hlun : ¬cbw.lun ≥ st.nLuns := lun_of_outcome ho (by simp)
  rw [ho, unit, if_neg hlun] at hsound
  rw [unit, if_neg hlun]
  exact ⟨cbw.lun, lba, count, rlen, rfl, Nat.not_le.mp hlun, hsound.1, Nat.le_of_eq hsound.2.symm⟩

/-! ### Steps -/

variable {start st : MscState} {acts : List Act} {chunk : List UInt8} {env : Env} {cbw : Cbw}
  {begun : MscState} {before after : List Act}

theorem take_store {last : List UInt8}
    (h : InFlight start acts st chunk env cbw begun before after)
    (hwrap : st.wgot.toNat + last.length < 2 ^ 32) :
    (st.store last).wbuf.take (min (st.wgot.toNat + last.length) st.wneed.toNat) =
      (payload after ++ last).take (min (st.wgot.toNat + last.length) st.wneed.toNat) := by
  have hgot := h.got_le
  have hroom := h.room
  have hsize : min (st.wgot.toNat + last.length) st.wneed.toNat =
      st.wgot.toNat + (last.take (st.take last).toNat).length := by
    rw [List.length_take, take_toNat hgot hwrap]
    omega
  have hblock : (st.store last).wbuf =
      putBytes st.wbuf st.wgot.toNat (last.take (st.take last).toNat) := rfl
  rw [hsize, hblock, take_putBytes _ (by omega), h.stored]
  conv_rhs => rw [h.got, List.take_length_add_append]
  rw [List.length_take, ← List.take_take, List.take_length]

theorem inFlight_begin (hrun : exec next start acts = some st) (hidle : st.writing = false)
    (hparsed : parseCbw chunk = some cbw) (hfits : st.Fits (.out chunk env))
    (hwriting : (st.onOut chunk env).1.writing = true) :
    InFlight start (acts ++ [.out chunk env]) (st.onOut chunk env).1 chunk env cbw st acts [] := by
  have hstep : st.onOut chunk env = st.command cbw env := by
    rw [onOut_of_idle hidle, hparsed]
  have hcommand := hstep
  rw [command_eq] at hcommand
  have hwriting' := hwriting
  rw [hcommand] at hwriting'
  have hidle' : { st with cbwIn := cbw.flagIn }.writing = false := hidle
  obtain ⟨lba, count, ho⟩ := perform_writing hidle' hwriting'
  have hlun : ¬cbw.lun ≥ st.nLuns := lun_of_outcome ho (by simp)
  have hunit : st.unit cbw = cbw.lun := if_neg hlun
  have hsize : count.toNat * (env.blockSize (st.lun cbw.lun).user).toNat < 2 ^ 32 := by
    have := hfits
    simp only [Fits, hidle, Bool.false_eq_true, if_false] at this
    exact this cbw hparsed lba count ho
  rw [ho, hunit] at hcommand
  have hneed : (st.onOut chunk env).1.wneed.toNat =
      count.toNat * (env.blockSize (st.lun cbw.lun).user).toNat := by
    rw [hcommand]
    show (count * env.blockSize (st.lun cbw.lun).user).toNat = _
    rw [UInt32.toNat_mul, Nat.mod_eq_of_lt hsize]
  have hstate : (st.onOut chunk env).1 = { st with cbwIn := cbw.flagIn }.beginWrite cbw.lun cbw.tag
      lba count (env.blockSize (st.lun cbw.lun).user) env.fresh := by
    rw [hcommand]
    rfl
  exact
    { acts_eq := rfl
      reached := hrun
      idle := hidle
      parsed := hparsed
      lasts := hwriting
      run := rfl
      outcome := by rw [hstate]; exact ho
      wlun := by rw [hstate]; rfl
      lun := by rw [hstate]; rfl
      nLuns := by rw [hstate]; rfl
      need := by rw [hneed, hstate]; rfl
      room := by rw [hstate]; exact beginWrite_room ..
      got := by rw [hstate]; rfl
      got_le := by rw [hstate]; exact Nat.zero_le _
      stored := by rw [hstate]; rfl }

theorem Lasts.concat (h : Lasts start acts chunk env cbw begun before after)
    (hrun : exec next (begun.onOut chunk env).1 after = some st) {act : Act}
    (hwriting : (st.step act).1.writing = true) :
    Lasts start (acts ++ [act]) chunk env cbw begun before (after ++ [act]) where
  acts_eq := by rw [h.acts_eq, List.append_assoc, List.cons_append]
  reached := h.reached
  idle := h.idle
  parsed := h.parsed
  lasts := h.lasts.concat hrun rfl hwriting

theorem inFlight_more {last : List UInt8} {lastEnv : Env}
    (h : InFlight start acts st chunk env cbw begun before after) (hwriting : st.writing = true)
    (hmore : st.wgot.toNat + last.length < st.wneed.toNat) :
    InFlight start (acts ++ [.out last lastEnv]) (st.store last) chunk env cbw begun before
      (after ++ [.out last lastEnv]) := by
  have hlt := st.wneed.toNat_lt
  have hwrap : st.wgot.toNat + last.length < 2 ^ 32 := by omega
  have hstep : (st.step (.out last lastEnv)).1 = st.store last := by
    show (st.onOut last lastEnv).1 = _
    rw [onOut_of_writing hwriting, data_more lastEnv hmore]
  have hgot : (st.store last).wgot.toNat = st.wgot.toNat + last.length := by
    rw [store_wgot h.got_le hwrap]
    omega
  have hpayload : payload (after ++ [.out last lastEnv]) = payload after ++ last := by
    simp [payload]
  have hbytes := take_store h hwrap
  rw [Nat.min_eq_left (Nat.le_of_lt hmore)] at hbytes
  exact
    { toLasts := h.toLasts.concat h.run (by rw [hstep]; exact hwriting)
      run := by
        rw [exec_concat h.run]
        exact congrArg some hstep
      outcome := h.outcome
      wlun := h.wlun
      lun := h.lun
      nLuns := h.nLuns
      need := h.need
      room := Nat.le_trans h.room (store_room st last)
      got := by rw [hgot, hpayload, List.length_append, ← h.got]
      got_le := by rw [hgot]; exact Nat.le_of_lt hmore
      stored := by
        rw [hgot, hbytes, hpayload, h.got, ← List.length_append, List.take_length] }

theorem inFlight_control {setup : Setup}
    (h : InFlight start acts st chunk env cbw begun before after) (hwriting : st.writing = true)
    (hsame : (st.control setup).state = st) :
    InFlight start (acts ++ [.control setup]) st chunk env cbw begun before
      (after ++ [.control setup]) := by
  have hpayload : payload (after ++ [.control setup]) = payload after := by simp [payload]
  exact
    { toLasts := h.toLasts.concat h.run (by rw [← hsame] at hwriting; exact hwriting)
      run := by
        rw [exec_concat h.run]
        exact congrArg some hsame
      outcome := h.outcome
      wlun := h.wlun
      lun := h.lun
      nLuns := h.nLuns
      need := h.need
      room := h.room
      got := by rw [hpayload]; exact h.got
      got_le := h.got_le
      stored := by rw [hpayload]; exact h.stored }

theorem control_writing {setup : Setup} (h : (st.control setup).state.writing = true) :
    (st.control setup).state = st := by
  unfold control at h ⊢
  by_cases hmax : setup.bRequest = 0xfe
  · rw [if_pos hmax]
  · rw [if_neg hmax] at h ⊢
    by_cases hreset : setup.bRequest = 0xff
    · rw [if_pos hreset] at h
      cases h
    · rw [if_neg hreset]

/-- After any actions, a data phase that is open has begun with a wrapper and lasts since then. -/
theorem inFlight_of_writing (hidle : start.writing = false) (hfits : Guarded next Fits start acts)
    (hrun : exec next start acts = some st) (hwriting : st.writing = true) :
    ∃ chunk env cbw begun before after,
      InFlight start acts st chunk env cbw begun before after := by
  refine exec_history (I := fun acts st => st.writing = true → ∃ chunk env cbw begun before after,
    InFlight start acts st chunk env cbw begun before after)
    (by simp [hidle]) ?_ hfits hrun hwriting
  intro acts st act st' hrun ih hfits hstep hwriting
  cases hstep
  cases act with
  | control setup =>
    have hsame := control_writing hwriting
    have hstep : (st.step (.control setup)).1 = st := hsame
    rw [hstep] at hwriting ⊢
    obtain ⟨chunk, env, cbw, begun, before, after, h⟩ := ih hwriting
    exact ⟨chunk, env, cbw, begun, before, _, inFlight_control h hwriting hsame⟩
  | out last env =>
    cases hopen : st.writing with
    | false =>
      cases hparsed : parseCbw last with
      | none =>
        have hstep : (st.step (.out last env)).1 = st := by
          show (st.onOut last env).1 = st
          rw [onOut_of_idle hopen, hparsed]
        rw [hstep, hopen] at hwriting
        cases hwriting
      | some cbw =>
        exact ⟨last, env, cbw, st, acts, [], inFlight_begin hrun hopen hparsed hfits hwriting⟩
    | true =>
      obtain ⟨chunk, env₀, cbw, begun, before, after, h⟩ := ih hopen
      have hwrap : st.wgot.toNat + last.length < 2 ^ 32 := by
        simpa only [Fits, hopen, if_true] using hfits
      by_cases hmore : st.wgot.toNat + last.length < st.wneed.toNat
      · have hstep : (st.step (.out last env)).1 = st.store last := by
          show (st.onOut last env).1 = _
          rw [onOut_of_writing hopen, data_more env hmore]
        rw [hstep]
        exact ⟨chunk, env₀, cbw, begun, before, _, inFlight_more h hopen hmore⟩
      · have hstep : (st.step (.out last env)).1.writing = false := by
          show (st.onOut last env).1.writing = _
          rw [onOut_of_writing hopen, data_last env h.got_le hwrap (by omega)]
          rfl
        rw [hstep] at hwriting
        cases hwriting

/-- The chunk that ends the data phase hands over what followed the wrapper. -/
theorem writeOk_of_last {last : List UInt8}
    (h : InFlight start acts st chunk env cbw begun before after)
    (hwrap : st.wgot.toNat + last.length < 2 ^ 32)
    (hlast : st.wneed.toNat ≤ st.wgot.toNat + last.length) :
    WriteOk start acts st last st.wlun st.wlba st.wcount (st.store last).wbuf := by
  have hlun : ¬cbw.lun ≥ begun.nLuns := lun_of_outcome h.outcome (by simp)
  have hsound := outcome_sound begun cbw env
  rw [h.outcome, unit, if_neg hlun] at hsound
  obtain ⟨hreadOnly, hrange, hlba, hcount⟩ := hsound
  have hbytes := take_store h hwrap
  rw [Nat.min_eq_right hlast, h.need] at hbytes
  refine ⟨chunk, env, cbw, begun, before, after, h.toLasts, h.wlun, hlba, hcount, ?_⟩
  rw [h.wlun, h.nLuns, h.lun]
  refine ⟨Nat.not_le.mp hlun, hreadOnly, hrange, ?_, ?_, hbytes⟩
  · rw [← h.need]
    exact Nat.le_trans h.room (store_room st last)
  · rw [← h.need, List.length_append, ← h.got]
    exact hlast

end MscState

/-- In every run whose steps do not wrap, every call of the backend is as it should be. -/
theorem calls_ok (start st : MscState) (acts : List Act) (act : Act) (hidle : start.writing = false)
    (hrun : exec MscState.next start acts = some st)
    (hfits : Guarded MscState.next MscState.Fits start (acts ++ [act])) :
    MscState.CallsOk start acts st act := by
  cases act with
  | control setup => rfl
  | out last env =>
    have hfit : st.Fits (.out last env) := hfits.at hrun
    intro ev hev
    replace hev : ev ∈ (st.onOut last env).2 := hev
    cases hopen : st.writing with
    | false =>
      have hcall : ev.isCall = true → ∃ lun lba count rlen, ev = .read lun lba count rlen ∧
          MscState.ReadOk st env lun lba count rlen := by
        intro hcall
        rw [MscState.onOut_of_idle hopen] at hev
        cases hparsed : parseCbw last with
        | none =>
          rw [hparsed] at hev
          cases hev
        | some cbw =>
          rw [hparsed] at hev
          exact MscState.command_calls hev hcall
      cases ev with
      | read lun lba count rlen =>
        obtain ⟨lun, lba, count, rlen, ⟨⟩, hok⟩ := hcall rfl
        exact hok
      | write lun lba count buf =>
        obtain ⟨lun, lba, count, rlen, ⟨⟩, _⟩ := hcall rfl
      | _ => trivial
    | true =>
      obtain ⟨chunk, env₀, cbw, begun, before, after, h⟩ :=
        MscState.inFlight_of_writing hidle hfits.left_of_append hrun hopen
      have hwrap : st.wgot.toNat + last.length < 2 ^ 32 := by
        simpa only [MscState.Fits, hopen, if_true] using hfit
      rw [MscState.onOut_of_writing hopen] at hev
      by_cases hmore : st.wgot.toNat + last.length < st.wneed.toNat
      · rw [MscState.data_more env hmore] at hev
        rw [List.mem_singleton.mp hev]
        trivial
      · have hok := MscState.writeOk_of_last h hwrap (by omega)
        rw [MscState.data_last env h.got_le hwrap (by omega)] at hev
        simp only [MscState.complete, List.mem_cons, List.not_mem_nil, or_false] at hev
        rcases hev with rfl | rfl | rfl
        · trivial
        · exact hok
        · trivial

/-- The write of one block, with its data in one chunk. -/
theorem calls_ok_block :
    MscState.CallsOk disk [.out (writeChunk 4 1) diskEnv]
      (disk.step (.out (writeChunk 4 1) diskEnv)).1 (.out [1, 2, 3, 4] diskEnv) := by
  have hparsed : parseCbw (writeChunk 4 1) =
      some ⟨[1, 0, 0, 0], 4, false, 0, [0x2a, 0, 0, 0, 0, 0, 0, 0, 1, 0, 0, 0, 0, 0, 0, 0]⟩ := by
    decide +kernel
  have ho : disk.outcome
      ⟨[1, 0, 0, 0], 4, false, 0, [0x2a, 0, 0, 0, 0, 0, 0, 0, 1, 0, 0, 0, 0, 0, 0, 0]⟩ diskEnv =
      .write 0 1 := by
    decide +kernel
  refine calls_ok disk _ _ _ rfl rfl ⟨?_, ?_⟩
  · intro cbw hcbw lba count hwrite
    cases hparsed.symm.trans hcbw
    cases ho.symm.trans hwrite
    decide
  · rintro st ⟨⟩
    have hopen : (disk.step (.out (writeChunk 4 1) diskEnv)).1.writing = true := by decide +kernel
    refine ⟨?_, fun _ _ => trivial⟩
    simp only [MscState.Fits, hopen, if_true]
    decide +kernel

/-- A disk with blocks of 512 bytes, of which `2 ^ 23` are 4 GiB. -/
def bigEnv : Env := { diskEnv with numBlocks := fun _ => 0x1000000, blockSize := fun _ => 512 }

/-- A wrapper for `WRITE_12` of `2 ^ 23` blocks. -/
def bigChunk : List UInt8 :=
  cbwSig ++ [1, 0, 0, 0, 0, 0, 0, 0, 0, 0, 12] ++
    [0xaa, 0, 0, 0, 0, 0, 0x00, 0x80, 0, 0, 0, 0, 0, 0, 0, 0]

/-- The size of a write of 4 GiB wraps to 0: the next chunk makes the backend write `2 ^ 23` blocks
from a block of one byte. -/
theorem calls_fail :
    ¬ ∀ (opts : MscOpts) (start st : MscState) (acts : List Act) (act : Act),
      MscState.build opts = some start → exec MscState.next start acts = some st →
      MscState.CallsOk start acts st act := by
  intro h
  have hok := h diskOpts disk _ [.out bigChunk bigEnv] (.out [] bigEnv) rfl rfl
  have hwrite := hok (.write 0 0 0x800000 [0]) (by decide +kernel)
  obtain ⟨chunk, env, cbw, begun, before, after, hlasts, _, _, _, _, _, _, hsize, _⟩ := hwrite
  have henv : env = bigEnv := by
    cases before with
    | nil =>
      cases hlasts.acts_eq
      rfl
    | cons act before =>
      have := congrArg List.length hlasts.acts_eq
      simp at this
  rw [henv] at hsize
  exact absurd hsize (by decide)

end Usbip.Msc
