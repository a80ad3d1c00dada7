import Usbip.Mtp.Attempts
import Usbip.Mtp.Slices

/-! A backend whose calls fail, and a class that may not notice.  A chunk is handled honestly where
no callback is missing, no length is negative, every container is as long as it says, OK stands for
calls that have all succeeded, and a count for bytes that have been moved.  The class looks at the
results of `remove`, `rename` and `truncate`, and at no others. -/

namespace Usbip.Mtp

open Lib Control

/-! ### What a chunk comes to -/

/-- The command in a chunk, if there is one. -/
def commandOutcome (dateText : UInt32 → CStr) (st : MtpState) (chunk : List UInt8) :
    Option Outcome :=
  if chunk.length < 12 then none
  else if getLe16 (chunk.drop 6) ≠ opGetDeviceInfo ∧ getLe16 (chunk.drop 6) ≠ opOpenSession ∧
      st.session = 0 then
    some (.answer rcSessionNotOpen [])
  else some (plan dateText st (getLe16 (chunk.drop 6)) (paramsOf chunk))

/-- The end of the data phase, if a chunk brings it. -/
def dataOutcome (st : MtpState) (chunk : List UInt8) : Option RxOutcome :=
  if (st.fill chunk).whole then
    some (planRx (st.fill chunk).endRx (rxPayload (st.fill chunk).endRx))
  else none

/-- The operations whose response counts the bytes of an object. -/
def Counts (st : MtpState) (chunk : List UInt8) : Prop :=
  if st.rxActive then st.rxCode = opSendPartialObject
  else getLe16 (chunk.drop 6) = opGetPartialObject ∨ getLe16 (chunk.drop 6) = opGetPartialObject64

section
variable {β : Type} (B : Backend β)

/-- The length of the data that an outcome has for the host. -/
def Outcome.dataLength (w : World β) : Outcome → Int
  | .dataset payload => toInt32 payload.length
  | .storageInfo si id => toInt32 (Mtp.storageInfo B w si id).1.length
  | .read o off want _ => (fetched B w.disk o off want).rc
  | _ => 0

/-- What leads from one world to another, with data of a length for the host, is honest. -/
structure HonestStep (w w' : World β) (dataLength : Int) (counts : Prop) : Prop where
  /-- no callback is missing, and no container has a size that is none -/
  goesOn : w'.stuck = false
  allowed : ∀ c ∈ callsBetween w w', B.Allows c
  length : 0 ≤ dataLength
  formed : ∀ pipe c, .sent pipe c ∈ w'.log.drop w.log.length →
    (getLe32 c.bytes).toNat = c.bytes.length
  meant : AnsweredOk w w' → B.AllSucceed w.disk (callsBetween w w')
  counted : counts → ∀ txid n,
    .sent .bulkIn ⟨ctResponse, rcOk, txid, u32le n⟩ ∈ w'.log.drop w.log.length →
      n.toNat ≤ B.movedBy w.disk (callsBetween w w')

/-- What the class does with a chunk is honest. -/
def Honest (w : World β) (chunk : List UInt8) : Prop :=
  HonestStep B w (onOut B w chunk)
    (if w.st.rxActive then 0
      else ((commandOutcome B.dateText w.st chunk).map fun o => o.dataLength B w).getD 0)
    (Counts w.st chunk)

/-! ### Where the backend does its part -/

/-- A scan that follows a call ends, if the call succeeds. -/
def ScansAfter (nStores : Nat) (disk : β) (c : Call) : Prop :=
  B.Succeeds disk c → (rescanned B nStores (B.call disk c).2).isSome

/-- Data fits a container and an `int`, the callbacks that are called are there, the calls succeed
whose results are not looked at, and the climbs, copies and scans end. -/
def Outcome.Granted (st : MtpState) (disk : β) : Outcome → Prop
  | .answer .. | .storageInfo .. | .setSession _ | .beginRx => True
  | .dataset payload => 0 ≤ toInt32 payload.length ∧ toInt32 payload.length < 2 ^ 31 - 12
  | .read o off want _ =>
    (B.attempt disk (readCall o off want)).isSome ∧
      (fetched B disk o off want).rc ≤ (fetched B disk o off want).data.length ∧
      (fetched B disk o off want).rc < 2 ^ 31 - 12
  | .remove o _ => ScansAfter B st.nStores disk (.remove o.si o.path)
  | .rename o neu => ScansAfter B st.nStores disk (.rename o.si o.path neu)
  | .moveAcross o dsi dest =>
    copyEnds st.objs (st.objs.length + 1) o ∧
      (((copied B st.objs dsi (st.objs.length + 1) disk o dest o.name).bind fun disk =>
        B.attempt disk (.remove o.si o.path)).bind (rescanned B st.nStores)).isSome
  | .copy o dsi dest =>
    copyEnds st.objs (st.objs.length + 1) o ∧
      ((copied B st.objs dsi (st.objs.length + 1) disk o dest o.name).bind
        (rescanned B st.nStores)).isSome
  | .truncate o size =>
    B.hasTruncate = true ∧ ScansAfter B st.nStores disk (.truncate o.si o.path size)
  | .hang => False

def RxOutcome.Granted (nStores : Nat) (payload : List UInt8) (disk : β) : RxOutcome → Prop
  | .answer _ | .setDeviceProp _ | .none => True
  | .makeObject isDir si full =>
    ((B.attempt disk (if isDir then .makeDir si full else .write si full [] 0)).bind
      (rescanned B nStores)).isSome
  | .store o _ =>
    ((B.attempt disk (.write o.si o.path payload payload.length)).bind
      (rescanned B nStores)).isSome
  | .rename o neu => ScansAfter B nStores disk (.rename o.si o.path neu)
  | .pwrite o off =>
    ((B.attempt disk (.pwrite o.si o.path off payload payload.length)).bind
      (rescanned B nStores)).isSome

instance (nStores : Nat) (disk : β) (c : Call) : Decidable (ScansAfter B nStores disk c) :=
  inferInstanceAs (Decidable (_ → _))

instance (st : MtpState) (disk : β) : ∀ o : Outcome, Decidable (o.Granted B st disk)
  | .answer .. | .storageInfo .. | .setSession _ | .beginRx => isTrue trivial
  | .dataset _ | .read .. | .moveAcross .. | .copy .. | .truncate .. =>
    inferInstanceAs (Decidable (_ ∧ _))
  | .remove o _ => inferInstanceAs (Decidable (ScansAfter B _ disk (.remove o.si o.path)))
  | .rename o neu => inferInstanceAs (Decidable (ScansAfter B _ disk (.rename o.si o.path neu)))
  | .hang => isFalse id

instance (nStores : Nat) (payload : List UInt8) (disk : β) :
    ∀ o : RxOutcome, Decidable (o.Granted B nStores payload disk)
  | .answer _ | .setDeviceProp _ | .none => isTrue trivial
  | .makeObject .. | .store .. | .pwrite .. => inferInstanceAs (Decidable (_ = true))
  | .rename o neu =>
    inferInstanceAs (Decidable (ScansAfter B nStores disk (.rename o.si o.path neu)))

/-- The backend does its part in what a chunk comes to. -/
def Granted (w : World β) (chunk : List UInt8) : Prop :=
  if w.st.rxActive then
    ∀ o ∈ dataOutcome w.st chunk,
      o.Granted B w.st.nStores (rxPayload (w.st.fill chunk).endRx) w.disk
  else ∀ o ∈ commandOutcome B.dateText w.st chunk, o.Granted B w.st w.disk

instance (w : World β) (chunk : List UInt8) : Decidable (Granted B w chunk) :=
  inferInstanceAs (Decidable (if w.st.rxActive then
    ∀ o ∈ dataOutcome w.st chunk,
      o.Granted B w.st.nStores (rxPayload (w.st.fill chunk).endRx) w.disk
    else ∀ o ∈ commandOutcome B.dateText w.st chunk, o.Granted B w.st w.disk))

end

/-! ### One piece of an action -/

/-- OK is among what is sent. -/
def SaysOk (l : List (Pipe × Container)) : Prop :=
  ∃ txid payload, (Pipe.bulkIn, ⟨ctResponse, rcOk, txid, payload⟩) ∈ l

section
variable {β : Type} {B : Backend β} {w w' : World β} {cs qs : List Call}
  {l : List (Pipe × Container)} {n : Int} {counts : Prop}

/-- A count is of bytes that have been moved, where the calls before it succeed. -/
def CountsMoved (B : Backend β) (w : World β) (cs : List Call)
    (l : List (Pipe × Container)) : Prop :=
  B.AllSucceed w.disk cs → ∀ txid n,
    (Pipe.bulkIn, ⟨ctResponse, rcOk, txid, u32le n⟩) ∈ l → n.toNat ≤ B.movedBy w.disk cs

theorem Runs.honestStep_iff (h : Runs B w w' cs l) (hstuck : w.stuck = false)
    (hcount : counts → CountsMoved B w cs l) :
    HonestStep B w w' n counts ↔
      (∀ c ∈ cs, B.Allows c) ∧ 0 ≤ n ∧ (SaysOk l → B.AllSucceed w.disk cs) := by
  have hok : AnsweredOk w w' ↔ SaysOk l :=
    exists_congr fun txid => exists_congr fun payload => h.mem_log _ _
  have hcalls := h.replays.callsBetween
  constructor
  · intro hh
    exact ⟨hcalls ▸ hh.allowed, hh.length, fun hl => hcalls ▸ hh.meant (hok.mpr hl)⟩
  · rintro ⟨hallows, hlength, hmeant⟩
    refine ⟨h.stuck.trans hstuck, hcalls ▸ hallows, hlength, fun pipe c hc => ?_,
      fun ha => hcalls ▸ hmeant (hok.mp ha), fun hcounts txid n hmem => ?_⟩
    · have hsmall := h.small pipe c ((h.mem_log pipe c).mp hc)
      rw [declared_bytes, length_bytes, UInt32.toNat_ofNat']
      omega
    · have hl := (h.mem_log _ _).mp hmem
      rw [hcalls]
      exact hcount hcounts (hmeant ⟨txid, _, hl⟩) txid n hl

/-- What is answered with OK is honest where the calls come off, but for those of a scan. -/
theorem Runs.honest_ok (h : Runs B w w' (cs ++ qs) l) (hstuck : w.stuck = false)
    (hqs : ∀ c ∈ qs, c.isLookup = true) (hok : SaysOk l)
    (hcount : counts → CountsMoved B w (cs ++ qs) l) :
    HonestStep B w w' n counts ↔ 0 ≤ n ∧ (cs.foldlM B.attempt w.disk).isSome := by
  rw [h.honestStep_iff hstuck hcount, foldlM_attempt_isSome, Backend.allSucceed_append]
  constructor
  · rintro ⟨hallows, hn, hmeant⟩
    exact ⟨hn, fun c hc => hallows c (List.mem_append_left qs hc), (hmeant hok).1⟩
  · rintro ⟨hn, hallows, hall⟩
    refine ⟨fun c hc => ?_, hn, fun _ =>
      ⟨hall, B.allSucceed_of_forall fun c hc _ => succeeds_lookup (hqs c hc)⟩⟩
    exact (List.mem_append.mp hc).elim (hallows c) fun hc => allows_lookup (hqs c hc)

/-- Without a call there is nothing to fail. -/
theorem Runs.honest_silent (h : Runs B w w' [] l) (hstuck : w.stuck = false)
    (hcount : counts → ¬SaysOk l) : HonestStep B w w' 0 counts :=
  (h.honestStep_iff hstuck fun hc _ txid _ hl => absurd ⟨txid, _, hl⟩ (hcount hc)).mpr
    ⟨by simp, le_refl 0, fun _ => trivial⟩

/-- What is answered otherwise says nothing of its calls. -/
theorem Runs.honest_error (h : Runs B w w' cs l) (hstuck : w.stuck = false) (hok : ¬SaysOk l)
    (hallows : ∀ c ∈ cs, B.Allows c) : HonestStep B w w' 0 counts := by
  refine (h.honestStep_iff hstuck fun _ hall txid n hl => ?_).mpr
    ⟨hallows, le_refl 0, fun hl => absurd hl hok⟩
  exact absurd ⟨txid, _, hl⟩ hok

end

/-! ### Commands -/

section
variable {β : Type} {B : Backend β} {w w' w1 : World β} {cs : List Call}
  {l : List (Pipe × Container)} {n : Int} {counts : Prop} {o : Obj}

theorem respond_stuck (w : World β) (rc : UInt16) (txid : UInt32) (values : List UInt32) :
    (w.respond rc txid values).stuck = w.stuck := by
  rw [World.respond_eq]
  rfl

theorem u32le_injective {m n : UInt32} (h : u32le m = u32le n) : m = n := by
  rw [← getLe32_u32le m [], h, getLe32_u32le]

/-- Data that goes out in front of OK. -/
theorem honest_data (h : Runs B w w1 cs []) (hstuck : w.stuck = false) (code : UInt16)
    (txid : UInt32) (payload : List UInt8) (values : List UInt32)
    (hcount : counts → ∀ data, CountsMoved B w cs [(.bulkIn, ⟨ctData, code, txid, data⟩),
      (.bulkIn, ⟨ctResponse, rcOk, txid, (values.take 5).flatMap u32le⟩)]) :
    HonestStep B w ((w1.sendData code txid payload n).respond rcOk txid values) n counts ↔
      (0 ≤ n ∧ n ≤ payload.length ∧ n < 2 ^ 31 - 12) ∧ (cs.foldlM B.attempt w.disk).isSome := by
  by_cases hfits : 0 ≤ n ∧ n ≤ payload.length ∧ n < 2 ^ 31 - 12
  · have hall := (h.trans (.sendData w1 code txid hfits.1 hfits.2.1 hfits.2.2)).trans
      (.respond _ rcOk txid values)
    rw [List.append_nil] at hall
    refine (hall.honest_ok hstuck (by simp)
      ⟨txid, _, List.mem_append_right _ (List.mem_singleton_self _)⟩ fun hc => ?_).trans ?_
    · rw [List.append_nil]
      exact hcount hc _
    · rw [and_iff_right hfits.1, and_iff_right hfits]
  · refine ⟨fun hh => ?_, fun hc => absurd hc.1 hfits⟩
    -- a size that does not fit leaves the run stuck
    have hgoes := hh.goesOn
    have hn := hh.length
    rw [respond_stuck, World.sendData, World.sendOne, if_neg (by omega), if_pos (by omega)] at hgoes
    cases hgoes

/-- What is scanned after its calls and then answered with OK. -/
theorem honest_scanned {k : Nat} (h : Runs B w w1 cs []) (hstuck : w.stuck = false)
    (hk : w1.st.nStores = k) (hend : Runs B (rescan B w1) w' [] l) (hok : SaysOk l)
    (hcount : counts → ∀ qs, CountsMoved B w (cs ++ qs) l) :
    HonestStep B w w' 0 counts ↔ ((cs.foldlM B.attempt w.disk).bind (rescanned B k)).isSome := by
  subst hk
  have hscan := EndsIn.rescan (B := B) w1
  -- where the calls come off, the scan starts from what they leave
  have hbind : ((cs.foldlM B.attempt w.disk).bind (rescanned B w1.st.nStores)).isSome ↔
      (cs.foldlM B.attempt w.disk).isSome ∧ (rescanned B w1.st.nStores w1.disk).isSome := by
    rcases hcs : cs.foldlM B.attempt w.disk with _ | disk
    · simp
    · rw [h.disk, (foldlM_attempt.mp hcs).2.2]
      simp
  rw [hbind]
  cases hends : rescanned B w1.st.nStores w1.disk with
  | none =>
    refine iff_of_false (fun hh => ?_) (by simp)
    have hgoes := hh.goesOn
    rw [hend.stuck, hscan.stuck hends] at hgoes
    cases hgoes
  | some disk =>
    obtain ⟨qs, hasks, hqs⟩ := Runs.rescan (B := B) (w := w1) (by rw [hends]; rfl)
    have hall := (h.trans hasks).trans hend
    rw [List.append_nil] at hall
    rw [hall.honest_ok hstuck hqs hok fun hc => hcount hc qs, and_iff_right (le_refl 0)]
    exact (and_iff_left rfl).symm

theorem attempt_isSome {disk : β} {c : Call} :
    (B.attempt disk c).isSome ↔ B.Allows c ∧ B.Succeeds disk c := by
  rw [Backend.attempt]
  by_cases hc : B.Allows c ∧ B.Succeeds disk c
  · rw [if_pos hc]
    exact ⟨fun _ => hc, fun _ => rfl⟩
  · rw [if_neg hc]
    exact ⟨fun h => absurd h Bool.false_ne_true, fun h => absurd h hc⟩

theorem not_saysOk_nil : ¬SaysOk [] := by
  rintro ⟨_, _, h⟩
  cases h

theorem saysOk_respond (txid : UInt32) (payload : List UInt8) :
    SaysOk [(.bulkIn, ⟨ctResponse, rcOk, txid, payload⟩)] :=
  ⟨txid, payload, List.mem_singleton_self _⟩

theorem not_saysOk_respond {rc : UInt16} (hrc : rc ≠ rcOk) (txid : UInt32) (payload : List UInt8) :
    ¬SaysOk [(.bulkIn, ⟨ctResponse, rc, txid, payload⟩)] := by
  rintro ⟨txid', payload', h⟩
  obtain ⟨-, hc⟩ := Prod.mk.inj (List.mem_singleton.mp h)
  exact hrc (congrArg Container.code hc).symm

/-- A call that is seen to succeed, and a scan. -/
theorem honest_done {c : Call} {k : Nat} (hc : B.Succeeds w.disk c) (hallows : B.Allows c)
    (hcall : Runs B w w1 [c] []) (hstuck : w.stuck = false) (hk : w1.st.nStores = k)
    (hend : Runs B (rescan B w1) w' [] l) (hok : SaysOk l) (hcounts : ¬counts) :
    HonestStep B w w' 0 counts ↔ ScansAfter B k w.disk c := by
  rw [honest_scanned hcall hstuck hk hend hok fun h => absurd h hcounts, attempts_singleton,
    Backend.attempt, if_pos ⟨hallows, hc⟩, ScansAfter]
  exact ⟨fun h _ => h, fun h => h hc⟩

/-- A call that is seen to fail. -/
theorem honest_failed {c : Call} {k : Nat} (hc : ¬B.Succeeds w.disk c) (hallows : B.Allows c)
    (hcall : Runs B w w1 [c] []) (hstuck : w.stuck = false) (txid : UInt32) :
    HonestStep B w (w1.respond rcGeneralError txid []) 0 counts ↔ ScansAfter B k w.disk c := by
  refine iff_of_true ?_ fun h => absurd h hc
  refine (hcall.trans (.respond w1 rcGeneralError txid [])).honest_error hstuck
    (not_saysOk_respond (by decide : rcGeneralError ≠ rcOk) txid []) fun c' hc' => ?_
  obtain rfl := List.mem_singleton.mp hc'
  exact hallows

theorem honest_renameObj (hstuck : w.stuck = false) (txid : UInt32) (o : Obj)
    (neu : CStr) (hcounts : ¬counts) :
    HonestStep B w (renameObj B w txid o neu) 0 counts ↔
      ScansAfter B w.st.nStores w.disk (.rename o.si o.path neu) := by
  have hask : Runs B w (w.ask B (.rename o.si o.path neu)).2 [.rename o.si o.path neu] [] :=
    .ask w _
  unfold renameObj
  dsimp only
  split
  · next hrc =>
    exact honest_done hrc trivial (hask.trans (.setSt _ _)) hstuck (by rfl)
      (.respond _ rcOk txid []) (saysOk_respond ..) hcounts
  · next hrc =>
    exact honest_failed (w := w) (c := .rename o.si o.path neu) hrc trivial hask hstuck txid

theorem runs_copyTree (hends : copyEnds w.st.objs (w.st.objs.length + 1) o = true) (dsi : Nat)
    (dest : CStr) :
    ∃ cs, Runs B w (copyTree B dsi (w.st.objs.length + 1) w o dest o.name) cs [] ∧
      cs.foldlM B.attempt w.disk =
        copied B w.st.objs dsi (w.st.objs.length + 1) w.disk o dest o.name := by
  obtain ⟨-, ⟨cs, hr, hcs⟩, hstuck⟩ := copiesTo_copyTree (B := B) (w := w) rfl dsi
    (w.st.objs.length + 1) o dest o.name
  have hsilent := (Extends.copyTree (P := fun e => e.sent? = none) (w := w) B
    (fun _ _ _ _ _ => rfl) (fun _ _ _ _ => rfl) (fun _ _ _ _ _ _ => rfl) dsi
    (w.st.objs.length + 1) o dest o.name).logs
  refine ⟨cs, .of_replays hr hsilent ?_, hcs⟩
  rw [hstuck, hends, Bool.not_true, Bool.or_false]

/-- What cannot go on is not honest. -/
theorem not_honest_fail : ¬HonestStep B w w1.fail n counts := fun hh =>
  absurd hh.goesOn (by decide : ¬true = false)

/-- A copy that does not end leaves nothing that is honest. -/
theorem not_honest_of_copy (hends : ¬copyEnds w.st.objs (w.st.objs.length + 1) o = true)
    (dsi : Nat) (dest : CStr)
    (hmono : (copyTree B dsi (w.st.objs.length + 1) w o dest o.name).stuck = true →
      w'.stuck = true) : ¬HonestStep B w w' n counts := by
  intro hh
  have hstuck := (copiesTo_copyTree (B := B) (w := w) rfl dsi (w.st.objs.length + 1) o dest
    o.name).stuck
  rw [eq_false_of_ne_true hends, Bool.not_false, Bool.or_true] at hstuck
  exact absurd ((hmono hstuck).symm.trans hh.goesOn) (by decide)

end

section
variable {β : Type} {B : Backend β} {w : World β} {counts : Prop}

/-- The count of a read is of the bytes that it has brought. -/
theorem countsMoved_read (w : World β) (o : Obj) (off want : Int) (code : UInt16) (txid : UInt32)
    (data : List UInt8) :
    CountsMoved B w [readCall o off want] [(.bulkIn, ⟨ctData, code, txid, data⟩), (.bulkIn,
      ⟨ctResponse, rcOk, txid,
        ([UInt32.ofInt (fetched B w.disk o off want).rc].take 5).flatMap u32le⟩)] := by
  rintro ⟨hrc, -⟩ txid' n hmem
  have hrc : 0 ≤ (fetched B w.disk o off want).rc := hrc
  have hmoved : B.movedBy w.disk [readCall o off want] =
    (fetched B w.disk o off want).rc.toNat := rfl
  rcases List.mem_cons.mp hmem with heq | hmem
  · exact absurd (congrArg (fun x => x.2.type) heq) (show ctResponse ≠ ctData by decide)
  · have hn : u32le n = u32le (UInt32.ofInt (fetched B w.disk o off want).rc) ++ [] :=
      congrArg (fun x => x.2.payload) (List.mem_singleton.mp hmem)
    rw [List.append_nil] at hn
    obtain rfl := u32le_injective hn
    rw [hmoved, UInt32.ofInt, UInt32.toNat_ofNat']
    omega

/-- What a store says of itself cannot fail, and is asked for where it can be. -/
theorem runs_storageInfo (w : World β) (si : Nat) (id : UInt32) :
    ∃ cs, Runs B w (storageInfo B w si id).2 cs [] ∧ (cs.foldlM B.attempt w.disk).isSome := by
  have husage : ∃ cs, Runs B w (diskUsage B w si).2 cs [] ∧
      ∀ c ∈ cs, B.Allows c ∧ ∀ disk, B.Succeeds disk c := by
    unfold diskUsage
    cases hhas : B.hasDiskUsage with
    | true =>
      exact ⟨_, .ask w (.diskUsage si), List.forall_mem_singleton.mpr ⟨hhas, fun _ => rfl⟩⟩
    | false => exact ⟨[], .refl w, by simp⟩
  have hdesc : ∀ w', ∃ cs, Runs B w' (description B w' si).2 cs [] ∧
      ∀ c ∈ cs, B.Allows c ∧ ∀ disk, B.Succeeds disk c := by
    intro w'
    unfold description
    cases hhas : B.hasDescription with
    | true =>
      exact ⟨_, .ask w' (.description si), List.forall_mem_singleton.mpr ⟨hhas, fun _ => rfl⟩⟩
    | false => exact ⟨[], .refl w', by simp⟩
  obtain ⟨cs, hr, hcs⟩ := husage
  obtain ⟨cs', hr', hcs'⟩ := hdesc (diskUsage B w si).2
  have hall := List.forall_mem_append.mpr ⟨hcs, hcs'⟩
  exact ⟨cs ++ cs', hr.trans hr', foldlM_attempt_isSome.mpr
    ⟨fun c hc => (hall c hc).1, B.allSucceed_of_forall fun c hc => (hall c hc).2⟩⟩

/-- An outcome whose response counts bytes, or is not OK. -/
def Outcome.Counted : Outcome → Prop
  | .answer rc _ => rc ≠ rcOk
  | .read _ _ _ counted => counted = true
  | _ => False

/-- What a command comes to is honest exactly where the backend does its part. -/
theorem honest_perform_iff (hstuck : w.stuck = false) (code : UInt16) (txid : UInt32)
    (p : List UInt32) {o : Outcome} (hcounts : counts → o.Counted) :
    HonestStep B w (perform B w code txid p o) (o.dataLength B w) counts ↔
      o.Granted B w.st w.disk := by
  cases o with
  | answer rc values =>
    exact iff_of_true ((Runs.respond w rc txid values).honest_silent hstuck
      fun hc => not_saysOk_respond (hcounts hc) txid _) trivial
  | dataset payload =>
    have hle : toInt32 payload.length ≤ payload.length := toInt32_le (by omega)
    refine (honest_data (.refl w) hstuck code txid payload [] fun hc => (hcounts hc).elim).trans ?_
    exact ⟨fun h => ⟨h.1.1, h.1.2.2⟩, fun h => ⟨⟨h.1, hle, h.2⟩, rfl⟩⟩
  | storageInfo si id =>
    obtain ⟨cs, hr, hcs⟩ := runs_storageInfo (B := B) w si id
    have hshort := length_storageInfo_le (B := B) w si id
    have hlength : (Outcome.storageInfo si id).dataLength B w = (storageInfo B w si id).1.length :=
      toInt32_of_lt (by omega)
    refine iff_of_true ?_ trivial
    have hall := honest_data hr hstuck (n := (Outcome.storageInfo si id).dataLength B w) code txid
      (storageInfo B w si id).1 [] (fun hc => (hcounts hc).elim)
    refine hall.mpr ⟨?_, hcs⟩
    rw [hlength]
    omega
  | setSession id =>
    have hset : Runs B w (w.setSt { w.st with session := id }) [] [] := .setSt w _
    exact iff_of_true ((hset.trans (.respond _ rcOk txid [])).honest_silent hstuck
      fun hc => (hcounts hc).elim) trivial
  | read file off want counted =>
    have hread : Runs B w (readObject B w file off want).2 [readCall file off want] [] := .ask w _
    refine (honest_data hread hstuck code txid (fetched B w.disk file off want).data
      (if counted then [UInt32.ofInt (fetched B w.disk file off want).rc] else [])
      fun hc data => ?_).trans ?_
    · rw [if_pos (show counted = true from hcounts hc)]
      exact countsMoved_read w file off want code txid data
    · rw [attempts_singleton]
      exact ⟨fun h => ⟨h.2, h.1.2⟩, fun h => ⟨⟨(attempt_isSome.mp h.1).2, h.2⟩, h.1⟩⟩
  | remove file handle =>
    have hask : Runs B w (w.ask B (.remove file.si file.path)).2 [.remove file.si file.path] [] :=
      .ask w _
    unfold perform
    dsimp only
    split
    · next hrc =>
      exact honest_done hrc trivial hask hstuck rfl ((Runs.respond _ rcOk txid []).trans
        (.sendEvent _ evObjectRemoved handle)) ⟨txid, _, List.mem_cons_self⟩ hcounts
    · next hrc =>
      exact honest_failed (w := w) (c := .remove file.si file.path) hrc trivial hask hstuck txid
  | beginRx =>
    have hset := Runs.setSt (B := B) w { w.st with
      rxActive := true, rxCode := code, rxTxid := txid, rxP := p, rxBuf := [], rxNeed := -1 }
    exact iff_of_true (hset.honest_silent hstuck fun _ => not_saysOk_nil) trivial
  | rename file neu => exact honest_renameObj hstuck txid file neu hcounts
  | moveAcross file dsi dest =>
    have hsame := MtpState.SameBut.copyTree B w dsi (w.st.objs.length + 1) file dest file.name
    by_cases hends : copyEnds w.st.objs (w.st.objs.length + 1) file = true
    · obtain ⟨cs, hcopy, hcs⟩ := runs_copyTree (B := B) hends dsi dest
      refine (honest_scanned (hcopy.trans (.ask _ (.remove file.si file.path))) hstuck hsame.nStores
        (.respond _ rcOk txid []) (saysOk_respond ..) fun hc => (hcounts hc).elim).trans ?_
      rw [attempts_append (f := fun disk => B.attempt disk _) hcopy.replays
        (attempts_singleton _ _), hcs]
      exact (and_iff_right hends).symm
    · refine iff_of_false (not_honest_of_copy hends dsi dest fun hs => ?_) fun h => hends h.1
      exact (respond_stuck ..).trans ((EndsIn.rescan (B := B) _).mono hs)
  | copy file dsi dest =>
    have hsame := MtpState.SameBut.copyTree B w dsi (w.st.objs.length + 1) file dest file.name
    by_cases hends : copyEnds w.st.objs (w.st.objs.length + 1) file = true
    · obtain ⟨cs, hcopy, hcs⟩ := runs_copyTree (B := B) hends dsi dest
      refine (honest_scanned hcopy hstuck hsame.nStores (.respond _ rcOk txid _)
        (saysOk_respond ..) fun hc => (hcounts hc).elim).trans ?_
      rw [hcs]
      exact (and_iff_right hends).symm
    · refine iff_of_false (not_honest_of_copy hends dsi dest fun hs => ?_) fun h => hends h.1
      exact (respond_stuck ..).trans ((EndsIn.rescan (B := B) _).mono hs)
  | truncate file size =>
    have hask : Runs B w (w.ask B (.truncate file.si file.path size)).2
      [.truncate file.si file.path size] [] := .ask w _
    unfold perform
    dsimp only
    split
    · next hhas =>
      refine Iff.trans ?_ (and_iff_right hhas).symm
      split
      · next hrc =>
        exact honest_done hrc hhas hask hstuck rfl (.respond _ rcOk txid []) (saysOk_respond ..)
          hcounts
      · next hrc =>
        exact honest_failed (w := w) (c := .truncate file.si file.path size) hrc hhas hask hstuck
          txid
    · next hhas => exact iff_of_false not_honest_fail fun hg => hhas hg.1
  | hang => exact iff_of_false not_honest_fail id

end

/-! ### Data phases -/

section
variable {β : Type} {B : Backend β} {w w' : World β} {counts : Prop}

/-- The count of a part that is written is of the bytes that have been taken. -/
theorem countsMoved_pwrite (w : World β) (o : Obj) (off : Int) (payload : List UInt8)
    (qs : List Call) (txid : UInt32) :
    CountsMoved B w ([.pwrite o.si o.path off payload payload.length] ++ qs) [(.bulkIn,
      ⟨ctResponse, rcOk, txid, ([UInt32.ofNat payload.length].take 5).flatMap u32le⟩)] := by
  rintro ⟨hrc, -⟩ txid' n hmem
  have hmoved : B.moved w.disk (.pwrite o.si o.path off payload payload.length) = payload.length :=
    if_pos hrc
  have hn : u32le n = u32le (UInt32.ofNat payload.length) ++ [] :=
    congrArg (fun x => x.2.payload) (List.mem_singleton.mp hmem)
  rw [List.append_nil] at hn
  obtain rfl := u32le_injective hn
  rw [List.singleton_append, Backend.movedBy, hmoved, UInt32.toNat_ofNat']
  omega

theorem runs_answerMade (w : World β) (si : Nat) (handle : UInt32) :
    ∃ l, Runs B w (answerMade w si handle) [] l ∧ SaysOk l := by
  have hok := Runs.respond (B := B) w rcOk w.st.rxTxid [storageId si, par w.st.rxP 1, handle]
  unfold answerMade
  dsimp only
  split
  · exact ⟨_, hok.trans (.sendEvent _ evObjectAdded handle), _, _, List.mem_cons_self⟩
  · exact ⟨_, hok, saysOk_respond ..⟩

def RxOutcome.Counted : RxOutcome → Prop
  | .answer rc => rc ≠ rcOk
  | .pwrite .. => True
  | _ => False

/-- What the end of a data phase comes to. -/
theorem honest_performRx_iff (hstuck : w.stuck = false) (payload : List UInt8) {o : RxOutcome}
    (hcounts : counts → o.Counted) :
    HonestStep B w (performRx B w payload o) 0 counts ↔
      o.Granted B w.st.nStores payload w.disk := by
  cases o with
  | answer rc =>
    exact iff_of_true ((Runs.respond w rc _ []).honest_silent hstuck
      fun hc => not_saysOk_respond (hcounts hc) _ _) trivial
  | makeObject isDir si full =>
    cases isDir with
    | true =>
      have hmake : Runs B w (w.tell B (.makeDir si full)) [.makeDir si full] [] := .ask w _
      have hset := hmake.trans (.setSt _ { (w.tell B (.makeDir si full)).st with sendTarget := 0 })
      obtain ⟨l, hend, hok⟩ := runs_answerMade (B := B) (rescan B ((w.tell B
        (.makeDir si full)).setSt { (w.tell B (.makeDir si full)).st with sendTarget := 0 })) si _
      refine (honest_scanned hset hstuck rfl hend hok fun hc => (hcounts hc).elim).trans ?_
      rw [List.append_nil, attempts_singleton]
      exact Iff.rfl
    | false =>
      have hwrite : Runs B w (w.tell B (.write si full [] 0)) [.write si full [] 0] [] := .ask w _
      obtain ⟨l, hend, hok⟩ := runs_answerMade (B := B) ((rescan B (w.tell B
        (.write si full [] 0))).setSt { (rescan B (w.tell B (.write si full [] 0))).st with
          sendTarget := handleAt (rescan B (w.tell B (.write si full [] 0))).st.objs si full }) si _
      refine (honest_scanned hwrite hstuck rfl ((Runs.setSt _ _).trans hend) hok
        fun hc => (hcounts hc).elim).trans ?_
      rw [attempts_singleton]
      exact Iff.rfl
  | store file handle =>
    have hwrite : Runs B w (w.tell B (.write file.si file.path payload payload.length))
      [.write file.si file.path payload payload.length] [] := .ask w _
    refine (honest_scanned hwrite hstuck rfl ((Runs.respond _ rcOk _ []).trans
      (.sendEvent _ evObjectAdded handle)) ⟨_, _, List.mem_cons_self⟩
      fun hc => (hcounts hc).elim).trans ?_
    rw [attempts_singleton]
    exact Iff.rfl
  | setDeviceProp text =>
    have hset := Runs.setSt (B := B) w
      { w.st with identity := w.st.identity.setProp (par w.st.rxP 0) text }
    exact iff_of_true ((hset.trans (.respond _ rcOk _ [])).honest_silent hstuck
      fun hc => (hcounts hc).elim) trivial
  | rename file neu =>
    exact honest_renameObj hstuck _ file neu hcounts
  | pwrite file off =>
    have hwrite : Runs B w (w.tell B (.pwrite file.si file.path off payload payload.length))
      [.pwrite file.si file.path off payload payload.length] [] := .ask w _
    unfold performRx
    dsimp only
    split
    · refine (honest_scanned hwrite hstuck rfl
        (.respond _ rcOk _ [UInt32.ofNat payload.length]) (saysOk_respond ..)
        fun _ qs => countsMoved_pwrite w file off payload qs _).trans ?_
      rw [attempts_singleton]
      exact Iff.rfl
    · next hhas =>
      have hnone : B.attempt w.disk (.pwrite file.si file.path off payload payload.length) = none :=
        if_neg fun h => hhas h.1.1
      refine iff_of_false not_honest_fail ?_
      rw [RxOutcome.Granted, hnone]
      exact Bool.false_ne_true
  | none =>
    exact iff_of_true ((Runs.refl w).honest_silent hstuck fun _ => not_saysOk_nil) trivial

/-! ### Chunks -/

theorem plan_counted (dateText : UInt32 → CStr) (st : MtpState) {code : UInt16}
    (p : List UInt32) (h : code = opGetPartialObject ∨ code = opGetPartialObject64) :
    (plan dateText st code p).Counted := by
  have hneed : ∀ go : Obj → Outcome, (∀ o, (go o).Counted) →
      (needObj st.objs (par p 0) true go).Counted := by
    intro go hgo
    unfold needObj
    split
    · exact (by decide : rcInvalidObjectHandle ≠ rcOk)
    · split
      · exact (by decide : rcInvalidObjectHandle ≠ rcOk)
      · exact hgo _
  rcases h with rfl | rfl
  · exact hneed _ fun _ => rfl
  · exact hneed _ fun _ => rfl

theorem planRx_counted {st : MtpState} (h : st.rxCode = opSendPartialObject)
    (payload : List UInt8) : (planRx st payload).Counted := by
  have hplan : planRx st payload = needObjRx st.objs (par st.rxP 0) true fun o =>
      .pwrite o (toLong (par64 st.rxP 1)) := by
    rw [planRx, h]
    rfl
  rw [hplan, needObjRx]
  split
  · exact (by decide : rcInvalidObjectHandle ≠ rcOk)
  · split
    · exact (by decide : rcInvalidObjectHandle ≠ rcOk)
    · trivial

/-- Whatever the state of a chunk is, only where it goes matters. -/
theorem HonestStep.setSt {st : MtpState} {n : Int} :
    HonestStep B (w.setSt st) w' n counts ↔ HonestStep B w w' n counts :=
  ⟨fun h => ⟨h.1, h.2, h.3, h.4, h.5, h.6⟩, fun h => ⟨h.1, h.2, h.3, h.4, h.5, h.6⟩⟩

theorem honest_nothing (hstuck : w.stuck = false) (st : MtpState) :
    HonestStep B w (w.setSt st) 0 counts :=
  (Runs.setSt w st).honest_silent hstuck fun _ => not_saysOk_nil

end

section
variable {β : Type} {B : Backend β} {w : World β}

theorem honest_command_iff (hstuck : w.stuck = false) (hidle : w.st.rxActive = false)
    (chunk : List UInt8) : Honest B w chunk ↔ Granted B w chunk := by
  have hnot : ¬w.st.rxActive = true := by simp [hidle]
  rw [Honest, Granted, Counts, if_neg hnot, if_neg hnot, if_neg hnot, onOut_of_inactive B hidle,
    dispatch]
  generalize hcode : getLe16 (chunk.drop 6) = code
  unfold commandOutcome
  rw [hcode]
  split
  · exact iff_of_true (honest_nothing hstuck w.st) (by simp)
  · dsimp only
    split
    · refine iff_of_true ?_ (by simp [Outcome.Granted])
      exact (Runs.respond w rcSessionNotOpen _ []).honest_silent hstuck
        fun _ => not_saysOk_respond (by decide : rcSessionNotOpen ≠ rcOk) _ []
    · have hdone := honest_perform_iff (B := B) hstuck code (getLe32 (chunk.drop 8))
        (paramsOf chunk) fun hc : code = opGetPartialObject ∨ code = opGetPartialObject64 =>
          plan_counted B.dateText w.st (paramsOf chunk) hc
      exact hdone.trans (by simp)

theorem honest_data_iff (hstuck : w.stuck = false) (hrx : w.st.rxActive = true)
    (chunk : List UInt8) : Honest B w chunk ↔ Granted B w chunk := by
  rw [Honest, Granted, Counts, if_pos hrx, if_pos hrx, if_pos hrx, dataOutcome]
  cases hwhole : (w.st.fill chunk).whole with
  | true =>
    rw [onOut_of_whole B hrx hwhole, if_pos rfl, completeRx]
    have hcounts : w.st.rxCode = opSendPartialObject → _ := fun hc =>
      planRx_counted (show (w.st.fill chunk).endRx.rxCode = opSendPartialObject from hc)
        (rxPayload (w.st.fill chunk).endRx)
    have hdone : ∀ w1 : World β, w1.stuck = false → _ := fun w1 hw1 =>
      honest_performRx_iff (B := B) hw1 (rxPayload (w.st.fill chunk).endRx) hcounts
    have hsome : ∀ {p : RxOutcome → Prop} {o : RxOutcome}, (∀ a ∈ some o, p a) ↔ p o := by simp
    rw [hsome]
    dsimp only
    split
    · exact HonestStep.setSt.symm.trans (HonestStep.setSt.symm.trans (hdone _ hstuck))
    · exact HonestStep.setSt.symm.trans (hdone _ hstuck)
  | false =>
    rw [onOut_of_not_whole B hrx hwhole, if_neg Bool.false_ne_true]
    exact iff_of_true (honest_nothing hstuck _) (by simp)

/-- Over a backend that is shallow, in every state that is reached, scans and copies end. -/
theorem ends_run (hB : Shallow B) {opts : MtpOpts} {disk : β} {acts : List (Act β)}
    (hrun : exec (next B) (build B opts disk) acts = some w) (hlen : w.st.objs.length < 2 ^ 32) :
    (∀ disk', (rescanned B w.st.nStores disk').isSome) ∧ ∀ handle o,
      objByHandle w.st.objs handle = some o →
        copyEnds w.st.objs (w.st.objs.length + 1) o = true := by
  constructor
  · intro disk'
    have hscan := EndsIn.rescan (B := B) ⟨w.st, disk', [], false⟩
    have hstuck : (rescan B ⟨w.st, disk', [], false⟩).stuck = false := stuck_rescan hB _
    rw [Option.isSome_iff_ne_none]
    exact fun hnone => absurd ((hscan.stuck hnone).symm.trans hstuck) (by decide)
  · intro handle o ho
    have hsane := sane_run hB hrun
    have hkeeps := (says_copy (B := B) (w := ⟨w.st, w.disk, [], false⟩) hsane hlen ho 0 []).stuck
    have hcopy := (copiesTo_copyTree (B := B) (w := ⟨w.st, w.disk, [], false⟩) rfl 0
      (w.st.objs.length + 1) o [] o.name).stuck
    rw [hkeeps, Bool.false_or, eq_comm, Bool.not_eq_false'] at hcopy
    exact hcopy

/-- In every state, whatever the backend: the class handles a chunk honestly exactly where the
backend does its part. -/
theorem honest_iff (hstuck : w.stuck = false) (chunk : List UInt8) :
    Honest B w chunk ↔ Granted B w chunk := by
  cases hrx : w.st.rxActive with
  | true => exact honest_data_iff hstuck hrx chunk
  | false => exact honest_command_iff hstuck hrx chunk

end

/-! ### Backends that fail, and one that does not -/

/-- A backend without the two callbacks that may be missing. -/
def bareBackend : Backend Nat := { lossyBackend with hasPwrite := false, hasTruncate := false }

def bareWorld : World Nat :=
  act bareBackend (build bareBackend ⟨false, none, none, none, 2⟩ 0) lossyOpen

/-- A file is moved to another store, where no write succeeds. -/
def moveChunk : List UInt8 :=
  Container.bytes ⟨1, opMoveObject, 2, u32le 1 ++ u32le (storageId 1) ++ u32le 0⟩

/-- A file is cut to no bytes. -/
def truncateChunk : List UInt8 :=
  Container.bytes ⟨1, opTruncateObject, 2, u32le 1 ++ u32le 0 ++ u32le 0⟩

/-- The move is answered with OK, and the callback that is not there is called. -/
theorem not_honest :
    exec (next lossyBackend) lossyStart [lossyOpen] = some lossyWorld ∧
      ¬Honest lossyBackend lossyWorld moveChunk ∧
      exec (next bareBackend) (build bareBackend ⟨false, none, none, none, 2⟩ 0) [lossyOpen] =
        some bareWorld ∧
      ¬Honest bareBackend bareWorld truncateChunk := by
  refine ⟨lossy_run, fun hh => ?_, ?_, fun hh => ?_⟩
  · exact absurd ((honest_command_iff (by decide) (by decide) _).mp hh) (by decide)
  · rw [exec_cons, next_of_not_stuck _ (by decide)]
    rfl
  · exact absurd ((honest_command_iff (by decide) (by decide) _).mp hh) (by decide)

/-- A part of a file is read. -/
theorem honest_file :
    Honest fileBackend fileWorld (ReadRequest.command (.part64 1 0 3) 2 1) :=
  (honest_iff (by decide) _).mpr (by decide)

end Usbip.Mtp
