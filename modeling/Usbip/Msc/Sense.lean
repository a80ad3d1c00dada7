import Usbip.Lib.Run
import Usbip.Msc.Bot

/-! Sense data.  A command that fails leaves a sense key on the unit that it addresses, and no
command touches the sense data of another unit, as long as no write of the backend fails. -/

namespace Usbip.Msc

open Lib

namespace MscState

/-- The unit that the command addresses which a step works on, if there is such a unit. -/
def addressed (st : MscState) : Act → Option Nat
  | .control _ => none
  | .out chunk _ =>
    if st.writing then some st.wlun
    else (parseCbw chunk).bind fun cbw => if cbw.lun < st.nLuns then some cbw.lun else none

/-- A `REQUEST_SENSE` to the unit, if there is one and the host asks for the sense key at least,
reports a key other than `NO SENSE`. -/
def Reports (st : MscState) (lun : Nat) : Prop :=
  ∀ chunk env cbw, st.writing = false → parseCbw chunk = some cbw → cbw.lun = lun →
    lun < st.nLuns → byteAt cbw.cdb 0 = 0x03 → 3 ≤ cbw.dlen.toNat →
    ∃ bytes, .dataIn bytes ∈ (st.onOut chunk env).2 ∧ byteAt bytes 2 ≠ 0

/-- A step of a command to the unit leaves a sense key there when it reports a failure, which the
next `REQUEST_SENSE` to the unit brings out, and no sense data anywhere else. -/
structure StepOk (st : MscState) (act : Act) (lun : Nat) : Prop where
  failed : ∀ tag residue, .csw tag residue statusFailed ∈ (st.step act).2 →
    ((st.step act).1.lun lun).sense.key ≠ 0
  reported : ∀ tag residue, .csw tag residue statusFailed ∈ (st.step act).2 →
    ∀ more st', exec next (st.step act).1 more = some st' →
      Guarded next (fun st act => st.addressed act ≠ some lun) (st.step act).1 more →
      st'.Reports lun
  others : ∀ i, i ≠ lun → ((st.step act).1.lun i).sense = (st.lun i).sense

/-- A step is as it should be for the unit that it works on. -/
def SenseOk (st : MscState) (act : Act) : Prop :=
  ∀ lun, st.addressed act = some lun → st.StepOk act lun

/-- The write that a step completes, if it completes one, succeeds, or the unit has a sense key. -/
def Succeeds (st : MscState) : Act → Prop
  | .control _ => True
  | .out chunk env =>
    st.writing = true → (st.store chunk).wgot ≥ (st.store chunk).wneed →
      env.write (st.lun st.wlun).user st.wlba st.wcount (st.store chunk).wbuf = 0 ∨
        (st.lun st.wlun).sense.key ≠ 0

variable {st : MscState} {lun : Nat} {tag : List UInt8} {dlen : UInt32} {env : Env} {o : Outcome}

/-! ### Commands -/

@[simp] theorem setSense_same (st : MscState) (lun : Nat) (sense : Sense) :
    ((st.setSense lun sense).lun lun).sense = sense := by
  simp [setSense, tableSet]

theorem setSense_other {i : Nat} (h : i ≠ lun) (sense : Sense) :
    (st.setSense lun sense).lun i = st.lun i := if_neg h

theorem perform_other {i : Nat} (h : i ≠ lun) :
    (st.perform lun tag dlen env o).1.lun i = st.lun i := by
  cases o with
  | failed sense => exact setSense_other h sense
  | senseIn data => exact setSense_other h .ok
  | read lba count rlen =>
    simp only [perform]
    split
    · rfl
    · exact setSense_other h .unrecoveredRead
  | _ => rfl

theorem dataIn_passed {data tag' : List UInt8} {datalen residue : UInt32} {status : UInt8}
    (h : .csw tag' residue status ∈ st.dataIn tag dlen data datalen) : status = statusPassed := by
  rcases mem_dataIn h with ⟨bytes, h⟩ | ⟨dir, h⟩ | ⟨residue, h⟩ <;> cases h
  rfl

theorem perform_failed {cdb tag' : List UInt8} {residue : UInt32}
    (hsound : o.Sound (st.lun lun) env.toBackend cdb)
    (h : .csw tag' residue statusFailed ∈ (st.perform lun tag dlen env o).2) :
    ((st.perform lun tag dlen env o).1.lun lun).sense.key ≠ 0 := by
  have hpassed {P : Prop} (h : statusFailed = statusPassed) : P := absurd h (by decide)
  cases o with
  | passed =>
    simp only [perform, List.mem_singleton, Event.csw.injEq] at h
    exact hpassed h.2.2
  | failed sense =>
    have hkey : sense.key ≠ 0 := hsound
    simpa [perform, fail] using hkey
  | dataIn data => exact hpassed (dataIn_passed h)
  | senseIn data => exact hpassed (dataIn_passed h)
  | read lba count rlen =>
    simp only [perform] at h ⊢
    split
    · rename_i hrc
      rw [if_pos hrc] at h
      exact hpassed (dataIn_passed ((List.mem_cons.mp h).resolve_left (by simp)))
    · simp [fail, Sense.unrecoveredRead]
  | write lba count => cases h

theorem command_other {cbw : Cbw} {i : Nat} (h : i ≠ st.unit cbw) :
    (st.command cbw env).1.lun i = st.lun i := by
  rw [command_eq]
  exact perform_other h

theorem command_failed {cbw : Cbw} {residue : UInt32}
    (h : .csw tag residue statusFailed ∈ (st.command cbw env).2) :
    ((st.command cbw env).1.lun (st.unit cbw)).sense.key ≠ 0 := by
  rw [command_eq] at h ⊢
  exact perform_failed (outcome_sound st cbw env) h

/-! ### The data phase -/

theorem data_lun (st : MscState) (chunk : List UInt8) (env : Env) :
    (st.data chunk env).1.lun = st.lun := by
  unfold data
  dsimp only
  split <;> rfl

/-- The data phase reports a failure exactly when the write of the backend fails. -/
theorem data_failed_iff (st : MscState) (chunk : List UInt8) (env : Env) :
    (∃ tag residue, .csw tag residue statusFailed ∈ (st.data chunk env).2) ↔
      (st.store chunk).wgot ≥ (st.store chunk).wneed ∧
        env.write (st.lun st.wlun).user st.wlba st.wcount (st.store chunk).wbuf ≠ 0 := by
  have hstatus (rc : Int) : statusFailed = (if rc = 0 then statusPassed else statusFailed) ↔
      rc ≠ 0 := by
    split <;> simp [*, statusFailed, statusPassed]
  unfold data
  dsimp only
  split
  · rename_i hlast
    simp only [complete, List.mem_cons, List.not_mem_nil, or_false, reduceCtorEq, false_or,
      Event.csw.injEq, hstatus]
    exact ⟨fun ⟨_, _, _, _, h⟩ => ⟨hlast, h⟩, fun h => ⟨_, _, rfl, rfl, h.2⟩⟩
  · rename_i hmore
    exact iff_of_false (by simp) fun h => hmore h.1

/-! ### Steps -/

theorem control_lun (st : MscState) (setup : Setup) : (st.control setup).state.lun = st.lun := by
  unfold control
  split
  · rfl
  · split <;> rfl

/-- A sense key stays until a command to the unit. -/
theorem step_keeps_key {act : Act} (h : st.addressed act ≠ some lun)
    (hkey : (st.lun lun).sense.key ≠ 0) : ((st.step act).1.lun lun).sense.key ≠ 0 := by
  cases act with
  | control setup =>
    show ((st.control setup).state.lun lun).sense.key ≠ 0
    rw [control_lun]
    exact hkey
  | out chunk env =>
    show ((st.onOut chunk env).1.lun lun).sense.key ≠ 0
    cases hopen : st.writing with
    | true =>
      rw [onOut_of_writing hopen, data_lun]
      exact hkey
    | false =>
      rw [onOut_of_idle hopen]
      cases hparsed : parseCbw chunk with
      | none => exact hkey
      | some cbw =>
        show ((st.command cbw env).1.lun lun).sense.key ≠ 0
        by_cases hlun : lun = st.unit cbw
        · -- only a wrapper for a unit that does not exist is charged to a unit it does not name
          have hge : cbw.lun ≥ st.nLuns := by
            by_contra hlt
            rw [unit, if_neg hlt] at hlun
            refine h ?_
            simp [addressed, hopen, hparsed, hlun, Nat.not_le.mp hlt]
          rw [command_eq, outcome, if_pos hge, ← hlun]
          simp [perform, fail, Sense.lunNotSupported]
        · rw [command_other hlun]
          exact hkey

theorem requestSense_sent {sense : Sense} (hkey : sense.key ≠ 0) (hdlen : 3 ≤ dlen.toNat) :
    ∃ bytes, .dataIn bytes ∈ st.dataIn tag dlen (requestSense sense) 18 ∧ byteAt bytes 2 ≠ 0 := by
  have hmin := smaller_toNat 18 dlen
  unfold dataIn
  generalize (if (18 : UInt32) < dlen then 18 else dlen) = send at hmin ⊢
  have hlow : 3 ≤ send.toNat ∧ send.toNat ≤ 18 := by
    have : UInt32.toNat 18 = 18 := rfl
    omega
  have hsend : send ≠ 0 := by
    rintro rfl
    exact absurd hlow.1 (by decide)
  obtain ⟨m, hm⟩ := Nat.exists_eq_add_of_le' hlow.1
  refine ⟨(requestSense sense).take (m + 3), ?_, hkey⟩
  simp [hsend, hm, int32_toNat (show send.toNat < 2 ^ 31 by omega)]

theorem reports_of_key (hkey : (st.lun lun).sense.key ≠ 0) : st.Reports lun := by
  intro chunk env cbw hidle hparsed hcbw hlt hop hdlen
  subst hcbw
  have hge : ¬cbw.lun ≥ st.nLuns := Nat.not_le.mpr hlt
  have ho : st.outcome cbw env = .senseIn (requestSense (st.lun cbw.lun).sense) := by
    rw [outcome, if_neg hge, scsi, hop]
    rfl
  have hevents : (st.onOut chunk env).2 =
      dataIn { st with cbwIn := cbw.flagIn } cbw.tag cbw.dlen
        (requestSense (st.lun cbw.lun).sense) 18 := by
    rw [onOut_of_idle hidle, hparsed]
    show (st.command cbw env).2 = _
    rw [command_eq, ho]
    rfl
  rw [hevents]
  exact requestSense_sent hkey hdlen

/-- A sense key is there for the next `REQUEST_SENSE`, whatever other units do in between. -/
theorem reports_later {more : List Act} {st' : MscState} (hkey : (st.lun lun).sense.key ≠ 0)
    (hrun : exec next st more = some st')
    (hother : Guarded next (fun st act => st.addressed act ≠ some lun) st more) :
    st'.Reports lun := by
  apply reports_of_key
  refine guarded_invariant (I := fun st => (st.lun lun).sense.key ≠ 0) ?_ hkey hother hrun
  rintro st act st' hkey haddressed ⟨⟩
  exact step_keeps_key haddressed hkey

theorem stepOk_of_failed {act : Act}
    (hfailed : ∀ tag residue, .csw tag residue statusFailed ∈ (st.step act).2 →
      ((st.step act).1.lun lun).sense.key ≠ 0)
    (hothers : ∀ i, i ≠ lun → ((st.step act).1.lun i).sense = (st.lun i).sense) :
    st.StepOk act lun where
  failed := hfailed
  reported tag residue h _ _ hrun hother := reports_later (hfailed tag residue h) hrun hother
  others := hothers

/-- A step of the data phase is as it should be unless it completes a write that fails. -/
theorem senseOk_data (chunk : List UInt8) (env : Env) (hopen : st.writing = true) :
    st.SenseOk (.out chunk env) ↔ st.Succeeds (.out chunk env) := by
  have hstep : st.step (.out chunk env) = st.data chunk env := onOut_of_writing hopen chunk env
  have haddressed : st.addressed (.out chunk env) = some st.wlun := if_pos hopen
  have hfailed := data_failed_iff st chunk env
  constructor
  · intro hok _ hlast
    by_contra hfails
    rw [not_or, not_not] at hfails
    obtain ⟨tag, residue, hcsw⟩ := hfailed.mpr ⟨hlast, hfails.1⟩
    have hkey := (hok st.wlun haddressed).failed tag residue (hstep ▸ hcsw)
    rw [hstep, data_lun] at hkey
    exact hkey hfails.2
  · intro hok lun hlun
    obtain rfl : st.wlun = lun := Option.some.inj (haddressed.symm.trans hlun)
    apply stepOk_of_failed
    · intro tag residue hcsw
      rw [hstep] at hcsw ⊢
      obtain ⟨hlast, hrc⟩ := hfailed.mp ⟨tag, residue, hcsw⟩
      rw [data_lun]
      exact (hok hopen hlast).resolve_left hrc
    · intro i _
      rw [hstep, data_lun]

theorem senseOk_command (chunk : List UInt8) (env : Env) (hidle : st.writing = false) :
    st.SenseOk (.out chunk env) := by
  intro lun hlun
  have hstep : st.step (.out chunk env) = st.onOut chunk env := rfl
  rw [onOut_of_idle hidle] at hstep
  rw [addressed, if_neg (by simp [hidle])] at hlun
  obtain ⟨cbw, hparsed, hfound⟩ := Option.bind_eq_some_iff.mp hlun
  obtain ⟨hlt, ⟨⟩⟩ := Option.ite_none_right_eq_some.mp hfound
  rw [hparsed] at hstep
  have hunit : st.unit cbw = cbw.lun := if_neg (Nat.not_le.mpr hlt)
  apply stepOk_of_failed
  · intro tag residue hcsw
    rw [hstep] at hcsw ⊢
    rw [← hunit]
    exact command_failed hcsw
  · intro i hi
    rw [hstep]
    exact congrArg LunState.sense (command_other (hunit ▸ hi))

/-- A step is as it should be exactly when no write fails on a unit without a sense key. -/
theorem senseOk_iff (st : MscState) (act : Act) : st.SenseOk act ↔ st.Succeeds act := by
  cases act with
  | control setup => exact iff_of_true (fun _ h => nomatch h) trivial
  | out chunk env =>
    cases hopen : st.writing with
    | true => exact senseOk_data chunk env hopen
    | false =>
      refine iff_of_true (senseOk_command chunk env hopen) fun hwriting => ?_
      rw [hopen] at hwriting
      cases hwriting

end MscState

/-- The steps of a run are as they should be exactly when every write of the backend that the run
completes succeeds or finds a sense key. -/
theorem sense_ok_iff (st : MscState) (acts : List Act) :
    Guarded MscState.next MscState.SenseOk st acts ↔
      Guarded MscState.next MscState.Succeeds st acts :=
  guarded_congr (I := fun _ => True) (fun st act _ => st.senseOk_iff act)
    (fun _ _ _ _ _ _ => trivial) trivial

/-- The disk fails to write. -/
def brokenEnv : Env := { diskEnv with write := fun _ _ _ _ => -1 }

/-- A write that fails leaves the unit without a sense key. -/
theorem sense_fails :
    ¬ ∀ (opts : MscOpts) (st : MscState) (acts : List Act), MscState.build opts = some st →
      Guarded MscState.next MscState.SenseOk st acts := by
  intro h
  have hok := h diskOpts disk [.out (writeChunk 4 1) brokenEnv, .out [1, 2, 3, 4] brokenEnv] rfl
  have hlast := (hok.2 _ rfl).1 0 (by decide +kernel)
  exact hlast.failed [1, 0, 0, 0] 0 (by decide +kernel) (by decide +kernel)

end Usbip.Msc
