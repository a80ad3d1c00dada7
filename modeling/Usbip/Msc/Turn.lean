import Usbip.Lib.Run
import Usbip.Msc.Bot

/-! The turns of a session with a mass-storage function: a command wrapper, and the OUT data that
the host sends for it.  A turn goes as the transport demands when the data phase that the host
announces is the one that the command has. -/

namespace Usbip.Msc

open Lib

/-- A command of the host: the chunk with the wrapper, and the chunks of OUT data that follow it.
Each chunk comes with what the backend answers at that time. -/
structure Turn where
  chunk : List UInt8
  cbw : Cbw
  parsed : parseCbw chunk = some cbw
  env : Env
  data : List (List UInt8 × Env)

/-- The bytes of OUT data that a wrapper announces. -/
def Cbw.announced (cbw : Cbw) : Nat := if cbw.flagIn then 0 else cbw.dlen.toNat

def total (chunks : List (List UInt8 × Env)) : Nat := (chunks.map fun c => c.1.length).sum

theorem total_eq (chunks : List (List UInt8 × Env)) :
    total chunks = (chunks.map Prod.fst).flatten.length := by
  rw [total, List.length_flatten, List.map_map]
  rfl

theorem flatten_of_total_zero {chunks : List (List UInt8 × Env)} (h : total chunks = 0) :
    (chunks.map Prod.fst).flatten = [] :=
  List.eq_nil_of_length_eq_zero ((total_eq chunks).symm.trans h)

def csws (events : List Event) : List Event :=
  events.filter fun
    | .csw .. => true
    | _ => false

/-- The OUT data that is taken. -/
def storedBytes (events : List Event) : List UInt8 :=
  events.flatMap fun
    | .stored bytes => bytes
    | _ => []

/-- The IN data that is sent. -/
def sentBytes (events : List Event) : List UInt8 :=
  events.flatMap fun
    | .dataIn bytes => bytes
    | _ => []

/-- The number of data bytes that are transferred, either way. -/
def transferred (events : List Event) : Nat :=
  (storedBytes events).length + (sentBytes events).length

namespace MscState

variable (st : MscState)

/-- The chunks of OUT data, one after the other. -/
def feed : MscState → List (List UInt8 × Env) → MscState × List Event
  | st, [] => (st, [])
  | st, (chunk, env) :: rest =>
    let one := st.onOut chunk env
    let more := feed one.1 rest
    (more.1, one.2 ++ more.2)

def turn (t : Turn) : MscState × List Event :=
  let one := st.onOut t.chunk t.env
  let more := feed one.1 t.data
  (more.1, one.2 ++ more.2)

def afterTurn (st : MscState) (t : Turn) : Option MscState := some (st.turn t).1

/-- The host sends the OUT data that it has announced, unless the OUT pipe was stalled. -/
def HostKeeps (st : MscState) (t : Turn) : Prop :=
  if .stall .usbOut ∈ (st.onOut t.chunk t.env).2 then t.data = []
  else total t.data = t.cbw.announced

/-- A turn as the transport demands it. -/
structure TurnOk (st : MscState) (t : Turn) : Prop where
  /-- the wrapper is read as a wrapper, not as data -/
  interpreted : st.writing = false
  /-- one status wrapper, for this command, that accounts for the data announced -/
  csw : ∃ residue status, csws (st.turn t).2 = [.csw t.cbw.tag residue status] ∧
    transferred (st.turn t).2 + residue.toNat = t.cbw.dlen.toNat
  /-- the data is read as data, all of it -/
  stored : storedBytes (st.turn t).2 = (t.data.map Prod.fst).flatten

end MscState

/-- The host expects IN data, when the command has any to send, and it is less than 2 GiB. -/
def Cbw.ExpectsIn (cbw : Cbw) (datalen : UInt32) : Prop :=
  cbw.dlen ≠ 0 → datalen ≠ 0 → cbw.flagIn ∧ min datalen.toNat cbw.dlen.toNat < 2 ^ 31

/-- The data phase that the host announces is the one that the outcome has. -/
def Cbw.AgreesWith (cbw : Cbw) (user : Nat) (env : Env) : Outcome → Prop
  | .passed => cbw.dlen = 0
  | .failed _ => True
  | .dataIn data => cbw.ExpectsIn data.length.toUInt32
  | .senseIn data => cbw.ExpectsIn data.length.toUInt32
  | .read lba count _ =>
    (env.read user lba count).1 = 0 → cbw.ExpectsIn (count * env.blockSize user)
  | .write _ count =>
    cbw.flagIn = false ∧ cbw.dlen ≠ 0 ∧ cbw.dlen = count * env.blockSize user

/-- The data phase that the host announces is the one that the command has. -/
def MscState.Agrees (st : MscState) (t : Turn) : Prop :=
  t.cbw.AgreesWith (st.lun t.cbw.lun).user t.env (st.outcome t.cbw t.env)

namespace MscState

variable {st : MscState}

/-! ### The command -/

theorem onOut_turn (h : st.writing = false) (t : Turn) :
    st.onOut t.chunk t.env = st.command t.cbw t.env := by
  rw [onOut_of_idle h, t.parsed]

/-- Chunks of no bytes do nothing outside a data phase. -/
theorem feed_empty (h : st.writing = false) {chunks : List (List UInt8 × Env)}
    (hempty : total chunks = 0) : st.feed chunks = (st, []) := by
  induction chunks with
  | nil => rfl
  | cons c rest ih =>
    obtain ⟨chunk, env⟩ := c
    have hsum : chunk.length + total rest = 0 := hempty
    have hchunk : chunk.length ≠ 31 := by omega
    rw [feed, onOut_of_idle h, parseCbw, if_pos (.inl hchunk), ih (by omega)]
    rfl

/-! ### Commands without OUT data -/

/-- The events of a command that is over: one status wrapper that accounts for the IN data, and no
OUT data to come. -/
structure Closes (events : List Event) (tag : List UInt8) (dlen : UInt32) (cbwIn : Bool) :
    Prop where
  csw : ∃ residue status, csws events = [.csw tag residue status] ∧
    (sentBytes events).length + residue.toNat = dlen.toNat
  stored : storedBytes events = []
  noData : .stall .usbOut ∉ events → cbwIn = false → dlen = 0

theorem stallDataPhase_noData (st : MscState) (dlen : UInt32)
    (h : .stall .usbOut ∉ st.stallDataPhase dlen) (hin : st.cbwIn = false) : dlen = 0 := by
  unfold stallDataPhase at h
  split at h
  · assumption
  · simp [hin] at h

theorem stalled_closes (st : MscState) (tag : List UInt8) (dlen : UInt32) (status : UInt8) :
    Closes (st.stallDataPhase dlen ++ [.csw tag dlen status]) tag dlen st.cbwIn where
  csw := by
    refine ⟨dlen, status, ?_⟩
    unfold stallDataPhase
    split <;> simp [csws, sentBytes]
  stored := by
    unfold stallDataPhase
    split <;> simp [storedBytes]
  noData h := stallDataPhase_noData st dlen fun h' => h (List.mem_append_left _ h')

theorem sent_closes {tag bytes : List UInt8} {dlen send : UInt32} (status : UInt8)
    (hlen : bytes.length = send.toNat) (hle : send ≤ dlen) :
    Closes [.dataIn bytes, .csw tag (dlen - send) status] tag dlen true where
  csw := by
    refine ⟨dlen - send, status, rfl, ?_⟩
    have hle' : send.toNat ≤ dlen.toNat := hle
    have hsent : (sentBytes [.dataIn bytes, .csw tag (dlen - send) status]).length =
        send.toNat := by simp [sentBytes, hlen]
    rw [hsent, UInt32.toNat_sub_of_le _ _ hle]
    omega
  stored := rfl
  noData _ h := by cases h

theorem dataIn_closes (st : MscState) (tag : List UInt8) {dlen datalen : UInt32}
    {data : List UInt8} (hdata : datalen.toNat ≤ data.length)
    (hexpects : dlen ≠ 0 → datalen ≠ 0 → st.cbwIn ∧ min datalen.toNat dlen.toNat < 2 ^ 31) :
    Closes (st.dataIn tag dlen data datalen) tag dlen st.cbwIn := by
  unfold dataIn
  have hmin := smaller_toNat datalen dlen
  generalize (if datalen < dlen then datalen else dlen) = send at hmin ⊢
  by_cases hsend : send = 0
  · subst hsend
    simpa using stalled_closes st tag dlen statusPassed
  · have hpos : 0 < send.toNat := Nat.pos_of_ne_zero fun h => hsend (UInt32.toNat_inj.mp h)
    have hdlen : dlen ≠ 0 := by
      rintro rfl
      simp at hmin
      omega
    have hdatalen : datalen ≠ 0 := by
      rintro rfl
      simp at hmin
      omega
    obtain ⟨hin, hshort⟩ := hexpects hdlen hdatalen
    have hle : send ≤ dlen := UInt32.le_iff_toNat_le.mpr (by omega)
    have hlen : (data.take (int32 send).toNat).length = send.toNat := by
      rw [int32_toNat (by omega), List.length_take]
      omega
    dsimp only
    rw [if_pos hsend, hin]
    exact sent_closes statusPassed hlen hle

theorem length_toUInt32_le (data : List UInt8) : data.length.toUInt32.toNat ≤ data.length :=
  Nat.mod_le _ _

theorem mul_toNat_le (count bs : UInt32) : (count * bs).toNat ≤ count.toNat * bs.toNat := by
  rw [UInt32.toNat_mul]
  exact Nat.mod_le _ _

theorem fail_closes (st : MscState) (lun : Nat) (tag : List UInt8) (dlen : UInt32)
    (sense : Sense) : Closes (st.fail lun tag dlen sense).2 tag dlen st.cbwIn :=
  stalled_closes st tag dlen statusFailed

theorem Closes.read {events : List Event} {tag : List UInt8} {dlen : UInt32} {cbwIn : Bool}
    (h : Closes events tag dlen cbwIn) (lun : Nat) (lba count : UInt32) (rlen : Nat) :
    Closes (.read lun lba count rlen :: events) tag dlen cbwIn where
  csw := h.csw
  stored := h.stored
  noData hstall := h.noData fun h' => hstall (List.mem_cons_of_mem _ h')

/-- A command whose data phase is the one announced is over at once, unless it writes. -/
theorem perform_closes {st : MscState} {cbw : Cbw} {lun : Nat} {env : Env} {o : Outcome}
    {cdb : List UInt8} (hin : st.cbwIn = cbw.flagIn)
    (hsound : o.Sound (st.lun lun) env.toBackend cdb)
    (hagrees : cbw.AgreesWith (st.lun lun).user env o)
    (hwrite : ∀ lba count, o ≠ .write lba count) :
    Closes (st.perform lun cbw.tag cbw.dlen env o).2 cbw.tag cbw.dlen st.cbwIn ∧
      (st.perform lun cbw.tag cbw.dlen env o).1.writing = st.writing := by
  cases o with
  | passed =>
    refine ⟨⟨⟨0, statusPassed, rfl, ?_⟩, rfl, fun _ _ => hagrees⟩, rfl⟩
    have hzero : cbw.dlen = 0 := hagrees
    rw [hzero]
    rfl
  | failed sense => exact ⟨fail_closes st lun _ _ sense, rfl⟩
  | dataIn data =>
    refine ⟨dataIn_closes st _ (length_toUInt32_le data) ?_, rfl⟩
    rw [hin]
    exact hagrees
  | senseIn data =>
    refine ⟨dataIn_closes st _ (length_toUInt32_le data) ?_, rfl⟩
    rw [hin]
    exact hagrees
  | read lba count rlen =>
    by_cases hrc : (env.read (st.lun lun).user lba count).1 = 0
    · have hdata : (count * env.blockSize (st.lun lun).user).toNat ≤
          ((List.range rlen).map (env.read (st.lun lun).user lba count).2).length := by
        rw [List.length_map, List.length_range, hsound.2]
        exact mul_toNat_le count _
      have hcloses := dataIn_closes st cbw.tag hdata (by rw [hin]; exact hagrees hrc)
      simp only [perform, if_pos hrc]
      exact ⟨hcloses.read lun lba count rlen, trivial⟩
    · simp only [perform, if_neg hrc]
      exact ⟨(fail_closes st lun _ _ _).read lun lba count rlen, rfl⟩
  | write lba count => exact absurd rfl (hwrite lba count)

/-! ### The data phase of a write -/

/-- The chunks of a data phase, no more than the write needs, are stored one after the other, and
the last one brings the status. -/
theorem feed_write {chunks : List (List UInt8 × Env)} {st : MscState} (h : st.writing = true)
    (hneed : st.wgot.toNat < st.wneed.toNat)
    (htotal : st.wgot.toNat + total chunks = st.wneed.toNat) :
    (∃ status, csws (st.feed chunks).2 = [.csw st.wtag 0 status]) ∧
      storedBytes (st.feed chunks).2 = (chunks.map Prod.fst).flatten ∧
      sentBytes (st.feed chunks).2 = [] ∧ (st.feed chunks).1.writing = false := by
  induction chunks generalizing st with
  | nil =>
    have : st.wgot.toNat + 0 = st.wneed.toNat := htotal
    omega
  | cons c rest ih =>
    obtain ⟨chunk, env⟩ := c
    have hsum : st.wgot.toNat + (chunk.length + total rest) = st.wneed.toNat := htotal
    have hwneed := st.wneed.toNat_lt
    rw [feed, onOut_of_writing h]
    by_cases hmore : st.wgot.toNat + chunk.length < st.wneed.toNat
    · have hwgot : (st.store chunk).wgot.toNat = st.wgot.toNat + chunk.length := by
        rw [store_wgot (by omega) (by omega)]
        omega
      rw [data_more env hmore]
      have hopen : (st.store chunk).writing = true := h
      obtain ⟨⟨status, hcsw⟩, hstored, hsent, hidle⟩ := ih hopen
        (by rw [hwgot]; exact hmore) (by rw [hwgot, store_wneed]; omega)
      exact ⟨⟨status, hcsw⟩, congrArg (chunk ++ ·) hstored, hsent, hidle⟩
    · -- the chunk is the last one that brings bytes
      have hrest : total rest = 0 := by omega
      have hchunk : chunk.take (st.wneed.toNat - st.wgot.toNat) = chunk :=
        List.take_of_length_le (by omega)
      rw [data_last env (by omega) (by omega) (by omega), hchunk, feed_empty rfl hrest]
      refine ⟨⟨_, rfl⟩, ?_, rfl, rfl⟩
      simp [storedBytes, complete, flatten_of_total_zero hrest]

/-! ### Turns -/

theorem turn_of_closes {t : Turn} (hidle : st.writing = false)
    (hafter : (st.onOut t.chunk t.env).1.writing = false)
    (hcloses : Closes (st.onOut t.chunk t.env).2 t.cbw.tag t.cbw.dlen t.cbw.flagIn)
    (hkeeps : st.HostKeeps t) : st.TurnOk t ∧ (st.turn t).1.writing = false := by
  have hzero : total t.data = 0 := by
    unfold HostKeeps at hkeeps
    split at hkeeps
    · rw [hkeeps]
      rfl
    · rename_i hstall
      rw [hkeeps, Cbw.announced]
      split
      · rfl
      · rename_i hin
        rw [hcloses.noData hstall (Bool.eq_false_iff.mpr hin)]
        rfl
  obtain ⟨residue, status, hcsw, hsum⟩ := hcloses.csw
  have hturn : st.turn t = ((st.onOut t.chunk t.env).1, (st.onOut t.chunk t.env).2 ++ []) := by
    rw [turn, feed_empty hafter hzero]
  refine ⟨⟨hidle, ⟨residue, status, ?_, ?_⟩, ?_⟩, ?_⟩
  · rw [hturn, List.append_nil, hcsw]
  · rw [hturn, List.append_nil, transferred, hcloses.stored, List.length_nil, Nat.zero_add, hsum]
  · rw [hturn, List.append_nil, hcloses.stored, flatten_of_total_zero hzero]
  · rw [hturn]
    exact hafter

theorem turn_of_write {t : Turn} (hidle : st.writing = false) (hagrees : st.Agrees t)
    (hkeeps : st.HostKeeps t) {lba count : UInt32}
    (ho : st.outcome t.cbw t.env = .write lba count) :
    st.TurnOk t ∧ (st.turn t).1.writing = false := by
  have hone := onOut_turn hidle t
  rw [command_eq, ho] at hone
  have hagreed := hagrees
  rw [Agrees, ho] at hagreed
  obtain ⟨hin, hne, hdlen⟩ := hagreed
  have hunit : st.unit t.cbw = t.cbw.lun := if_neg (lun_of_outcome ho (by simp))
  have hneed : (st.onOut t.chunk t.env).1.wneed = t.cbw.dlen := by
    rw [hone, hdlen]
    exact congrArg (fun lun => count * t.env.blockSize (st.lun lun).user) hunit
  have hdata : total t.data = t.cbw.dlen.toNat := by
    unfold HostKeeps at hkeeps
    rw [hone] at hkeeps
    simpa [perform, Cbw.announced, hin] using hkeeps
  have hpos : 0 < t.cbw.dlen.toNat := Nat.pos_of_ne_zero fun h => hne (UInt32.toNat_inj.mp h)
  have hwriting : (st.onOut t.chunk t.env).1.writing = true := by rw [hone]; rfl
  have hwgot : (st.onOut t.chunk t.env).1.wgot.toNat = 0 := by rw [hone]; rfl
  have htag : (st.onOut t.chunk t.env).1.wtag = t.cbw.tag := by rw [hone]; rfl
  have hevents : (st.onOut t.chunk t.env).2 = [] := by rw [hone]; rfl
  obtain ⟨⟨status, hcsw⟩, hstored, hsent, hafter⟩ := feed_write hwriting
    (by rw [hwgot, hneed]; exact hpos) (by rw [hwgot, hneed, hdata, Nat.zero_add])
  have hturn : (st.turn t).2 = ((st.onOut t.chunk t.env).1.feed t.data).2 := by
    rw [turn, hevents]
    rfl
  refine ⟨⟨hidle, ⟨0, status, ?_, ?_⟩, ?_⟩, hafter⟩
  · rw [hturn, hcsw, htag]
  · rw [hturn, transferred, hstored, hsent, ← total_eq, hdata]
    rfl
  · rw [hturn, hstored]

/-- In a session between commands, a turn whose data phase is agreed on goes as it should, and
leaves the function between commands. -/
theorem turn_ok {t : Turn} (hidle : st.writing = false) (hkeeps : st.HostKeeps t)
    (hagrees : st.Agrees t) : st.TurnOk t ∧ (st.turn t).1.writing = false := by
  by_cases hwrite : ∃ lba count, st.outcome t.cbw t.env = .write lba count
  · obtain ⟨lba, count, ho⟩ := hwrite
    exact turn_of_write hidle hagrees hkeeps ho
  · have hone := onOut_turn hidle t
    rw [command_eq] at hone
    have huser : t.cbw.AgreesWith (st.lun (st.unit t.cbw)).user t.env (st.outcome t.cbw t.env) := by
      by_cases hlun : t.cbw.lun ≥ st.nLuns
      · rw [outcome, if_pos hlun]
        trivial
      · rw [unit, if_neg hlun]
        exact hagrees
    have hin : { st with cbwIn := t.cbw.flagIn }.cbwIn = t.cbw.flagIn := rfl
    obtain ⟨hcloses, hwriting⟩ := perform_closes hin (outcome_sound st t.cbw t.env) huser
      fun lba count h => hwrite ⟨lba, count, h⟩
    refine turn_of_closes hidle ?_ ?_ hkeeps
    · rw [hone, hwriting]
      exact hidle
    · rw [hone]
      exact hcloses

end MscState

/-- In a session with a host that sends the OUT data it announces, when every command has the data
phase that its wrapper announces, every turn goes as the transport demands. -/
theorem session_ok (st : MscState) (turns : List Turn) (hidle : st.writing = false)
    (hkeeps : Guarded MscState.afterTurn MscState.HostKeeps st turns)
    (hagrees : Guarded MscState.afterTurn MscState.Agrees st turns) :
    Guarded MscState.afterTurn MscState.TurnOk st turns := by
  refine Guarded.imp (I := fun st => st.writing = false) ?_ hidle (hkeeps.and hagrees)
  intro st t hidle ⟨hkeeps, hagrees⟩
  obtain ⟨hok, hafter⟩ := MscState.turn_ok hidle hkeeps hagrees
  refine ⟨hok, fun st' hst' => ?_⟩
  cases hst'
  exact hafter

def writeTurn (dlen count : UInt8) (data : List (List UInt8 × Env)) : Turn where
  chunk := writeChunk dlen count
  cbw :=
    { tag := [1, 0, 0, 0]
      dlen := getLe32 [dlen, 0, 0, 0]
      flagIn := false
      lun := 0
      cdb := [0x2a, 0, 0, 0, 0, 0, 0, 0, count, 0, 0, 0, 0, 0, 0, 0] }
  parsed := by
    simp [parseCbw, writeChunk, cbwSig, bytesAt, byteAt]
  env := diskEnv
  data

/-- One block, in two chunks. -/
theorem session_ok_block :
    Guarded MscState.afterTurn MscState.TurnOk disk
      [writeTurn 4 1 [([1, 2, 3], diskEnv), ([4], diskEnv)]] := by
  refine session_ok disk _ rfl ⟨?_, fun _ _ => trivial⟩ ⟨?_, fun _ _ => trivial⟩
  · show if _ then _ else _
    rw [if_neg (by decide +kernel)]
    rfl
  · exact (⟨rfl, by decide, rfl⟩ :
      false = false ∧ (4 : UInt32) ≠ 0 ∧ (4 : UInt32) = 1 * 4)

/-- A write of no blocks, for which the host sends no data, gets no status before the next
command. -/
theorem session_fails :
    ¬ ∀ (opts : MscOpts) (st : MscState) (turns : List Turn), MscState.build opts = some st →
      Guarded MscState.afterTurn MscState.HostKeeps st turns →
      Guarded MscState.afterTurn MscState.TurnOk st turns := by
  intro h
  have hkeeps : disk.HostKeeps (writeTurn 0 0 []) := by
    show if _ then _ else _
    rw [if_neg (by decide +kernel)]
    rfl
  have hok := (h diskOpts disk [writeTurn 0 0 []] rfl ⟨hkeeps, fun _ _ => trivial⟩).1
  obtain ⟨residue, status, hcsw, _⟩ := hok.csw
  have hnone : csws (disk.turn (writeTurn 0 0 [])).2 = [] := by decide +kernel
  rw [hnone] at hcsw
  cases hcsw

end Usbip.Msc
