import Usbip.Mtp.Permission
import Usbip.Mtp.Course
import Usbip.Mtp.Slices

/-! The object that the data of `SendObject` goes to.  What the host sends and gets tells which
object is due: the one that the last `SendObjectInfo` of the session has made, until its data has
come.  The class has a target of its own, which outlives a session and a rejected `SendObjectInfo`.
-/

namespace Usbip.Mtp

open Lib Control

/-! ### Which object is due -/

/-- A response. -/
def Effect.response {β : Type} : Effect β → Option Container
  | .sent .bulkIn c => if c.type = ctResponse then some c else none
  | _ => none

def responsesBetween {β : Type} (w w' : World β) : List Container :=
  (w'.log.drop w.log.length).filterMap Effect.response

/-- The handle in the response to a `SendObjectInfo` that has succeeded. -/
def madeBy : List Container → UInt32
  | [c] => if c.code = rcOk then getLe32 (c.payload.drop 8) else 0
  | _ => 0

/-- The object that is due after an action, 0 for none: a `SendObjectInfo` makes it, and it is due
until the next `SendObjectInfo` or `SendObject` ends, or the session does. -/
def dueAfter {β : Type} (due : UInt32) (w w' : World β) (a : Act β) : UInt32 :=
  if w'.st.session ≠ w.st.session then 0
  else
    match a with
    | .out chunk =>
      if w.st.rxActive then
        if (w.st.fill chunk).whole then
          if w.st.rxCode = opSendObjectInfo then madeBy (responsesBetween w w')
          else if w.st.rxCode = opSendObject then 0
          else due
        else due
      else if 12 ≤ chunk.length ∧ getLe16 (chunk.drop 6) = opSendObjectInfo ∧
          responsesBetween w w' ≠ [] then 0
      else due
    | .control _ | .outside _ => due

structure Sending (β : Type) where
  world : World β
  due : UInt32

def Sending.start {β : Type} (B : Backend β) (opts : MtpOpts) (disk : β) : Sending β :=
  ⟨build B opts disk, 0⟩

def Sending.next {β : Type} (B : Backend β) (s : Sending β) (a : Act β) : Option (Sending β) :=
  (Mtp.next B s.world a).map fun w' => ⟨w', dueAfter s.due s.world w' a⟩

/-- What a `SendObject` that comes next does. Its data goes into the object that is due, and where
none is due it is answered so at once: behind the answers of a function without a session or that
can only be read. -/
structure Sending.Right {β : Type} (B : Backend β) (s : Sending β) (chunk : List UInt8) : Prop where
  stores : s.world.st.rxActive = true → s.world.st.rxCode = opSendObject →
    ∀ c st, .called c st ∈ (onOut B s.world chunk).log.drop s.world.log.length →
      c.mutates = true → ∃ o, s.due ≠ 0 ∧ objByHandle s.world.st.objs s.due = some o ∧
        c = .write o.si o.path (rxPayload (s.world.st.fill chunk))
          (rxPayload (s.world.st.fill chunk)).length
  refuses : s.world.st.rxActive = false → 12 ≤ chunk.length →
    getLe16 (chunk.drop 6) = opSendObject → s.due = 0 →
      (onOut B s.world chunk).log = s.world.log ++ [.sent .bulkIn
        ⟨ctResponse,
          if s.world.st.session = 0 then rcSessionNotOpen
          else if s.world.st.readOnly then rcStoreReadOnly
          else rcNoValidObjectInfo,
          getLe32 (chunk.drop 8), []⟩]

/-- What `SendObjectInfo` asks of its data before it makes anything. -/
def MtpState.Accepts (st : MtpState) (payload : List UInt8) : Prop :=
  53 ≤ payload.length ∧ (target st.nStores st.objs (par st.rxP 0) (par st.rxP 1)).isSome ∧
    ptpStrAscii (payload.drop 52) 256 ≠ []

instance (st : MtpState) (payload : List UInt8) : Decidable (st.Accepts payload) :=
  inferInstanceAs (Decidable (_ ∧ _))

/-- While the class has a target, its session is not closed by a command and no `SendObjectInfo` is
rejected for its data. -/
def Act.Orderly {β : Type} (st : MtpState) : Act β → Prop
  | .out chunk =>
    if st.rxActive then
      st.rxCode = opSendObjectInfo → (st.fill chunk).whole = true →
        st.sendTarget = 0 ∨ (st.fill chunk).Accepts (rxPayload (st.fill chunk))
    else 12 ≤ chunk.length → getLe16 (chunk.drop 6) = opCloseSession → st.sendTarget = 0
  | .control _ | .outside _ => True

instance {β : Type} (st : MtpState) : ∀ a : Act β, Decidable (a.Orderly st)
  | .out chunk =>
    if h : st.rxActive = true then
      decidable_of_iff (st.rxCode = opSendObjectInfo → (st.fill chunk).whole = true →
        st.sendTarget = 0 ∨ (st.fill chunk).Accepts (rxPayload (st.fill chunk)))
        (by rw [Act.Orderly, if_pos h])
    else
      decidable_of_iff (12 ≤ chunk.length → getLe16 (chunk.drop 6) = opCloseSession →
        st.sendTarget = 0) (by rw [Act.Orderly, if_neg h])
  | .control _ | .outside _ => isTrue trivial

/-! ### What one action does -/

section
variable {β : Type} {B : Backend β} {w w' : World β}

/-- A call that changes a store is one of those that an action is about. -/
def Changes (made : Call → Prop) : Effect β → Prop
  | .called c _ => c.mutates = true → made c
  | _ => True

theorem Course.changes {made : Call → Prop} (h : Course B made w w') :
    Logs (Changes made) w w' := by
  have hcalls : ∀ (objs : List Obj) (e : Effect β), Calls objs made e → Changes made e := by
    intro objs e he
    cases e with
    | called c st => exact fun _ => he.2
    | sent pipe c => trivial
    | rescanned st disk => trivial
  cases h with
  | quiet hq => exact hq.logs.mono (hcalls _)
  | @scan w1 objs hq hobjs hend =>
    have hscan : Logs (Changes made) (w1.setSt { w1.st with objs })
        (rescan B (w1.setSt { w1.st with objs })) :=
      (Extends.rescan B (fun _ _ _ => nofun) (fun _ _ _ => nofun) trivial).logs
    have hsent : ∀ e : Effect β, IsSent e → Changes made e := by
      intro e he
      cases e with
      | called c st => exact he.elim
      | sent pipe c => trivial
      | rescanned st disk => trivial
    exact (hq.logs.mono (hcalls _)).trans ((Logs.setSt _).trans (hscan.trans (hend.logs.mono hsent)))

/-- A command leaves the target and the permission to write as they are. -/
theorem perform_keeps (w : World β) (code : UInt16) (txid : UInt32) (p : List UInt32) (o : Outcome) :
    (perform B w code txid p o).st.sendTarget = w.st.sendTarget ∧
      (perform B w code txid p o).st.readOnly = w.st.readOnly := by
  have hsame := MtpState.SameBut.perform B w code txid p o
  rw [hsame.sendTarget, hsame.readOnly]
  cases o <;> exact ⟨rfl, rfl⟩

theorem plan_sendObject (dateText : UInt32 → CStr) (st : MtpState) (p : List UInt32) :
    plan dateText st opSendObject p =
      needWritable st (if st.sendTarget = 0 then .answer rcNoValidObjectInfo [] else .beginRx) := rfl

theorem plan_sendObjectInfo (dateText : UInt32 → CStr) (st : MtpState) (p : List UInt32) :
    plan dateText st opSendObjectInfo p = needWritable st .beginRx := rfl

theorem plan_openSession (dateText : UInt32 → CStr) {st : MtpState} {p : List UInt32} {id : UInt32}
    (h : plan dateText st opOpenSession p = .setSession id) : st.session = 0 := by
  by_contra hne
  have hplan : plan dateText st opOpenSession p = .answer rcSessionAlreadyOpen [st.session] :=
    if_pos hne
  rw [hplan] at h
  cases h

theorem planRx_sendObject {st : MtpState} (h : st.rxCode = opSendObject) (payload : List UInt8) :
    (∃ o, objByHandle st.objs st.sendTarget = some o ∧
        planRx st payload = .store o st.sendTarget) ∨
      planRx st payload = .answer rcNoValidObjectInfo := by
  rw [planRx, if_neg (by rw [h]; decide), if_pos h]
  rcases hobj : objByHandle st.objs st.sendTarget with _ | o
  · exact .inr rfl
  · exact .inl ⟨o, rfl, rfl⟩

theorem planRx_sendObjectInfo {st : MtpState} (h : st.rxCode = opSendObjectInfo)
    (payload : List UInt8) : planRx st payload = planObjectInfo st payload := if_pos h

theorem planObjectInfo_cases (st : MtpState) (payload : List UInt8) :
    (st.Accepts payload ∧ ∃ isDir si full, planObjectInfo st payload = .makeObject isDir si full) ∨
      ¬st.Accepts payload ∧ ∃ rc, planObjectInfo st payload = .answer rc ∧ rc ≠ rcOk := by
  unfold MtpState.Accepts planObjectInfo
  by_cases hlen : payload.length < 53
  · rw [if_pos hlen]
    exact .inr ⟨fun h => by omega, _, rfl, by decide⟩
  · rw [if_neg hlen]
    dsimp only
    cases target st.nStores st.objs (par st.rxP 0) (par st.rxP 1) with
    | none => exact .inr ⟨by simp, _, rfl, by decide⟩
    | some t =>
      dsimp only
      split
      · next hname => exact .inr ⟨fun h => h.2.2 hname, _, rfl, by decide⟩
      · next hname => exact .inl ⟨⟨by omega, rfl, hname⟩, _, _, _, rfl⟩

/-- The response to a `SendObjectInfo` that has made an object names it. -/
theorem responses_answerMade (h : Logs (fun e => e.response = none) w w') (si : Nat)
    (handle : UInt32) : madeBy (responsesBetween w (answerMade w' si handle)) = handle := by
  obtain ⟨es, hes, hnone⟩ := h.log
  generalize hwords : [storageId si, par w'.st.rxP 1, handle] = words
  obtain ⟨ev, hev, hquiet⟩ : ∃ ev : List (Effect β), (answerMade w' si handle).log =
      w'.log ++ .sent .bulkIn ⟨ctResponse, rcOk, w'.st.rxTxid, (words.take 5).flatMap u32le⟩ :: ev ∧
        ev.filterMap Effect.response = [] := by
    unfold answerMade
    dsimp only
    rw [hwords, World.respond_eq]
    split
    · exact ⟨_, List.append_assoc .., rfl⟩
    · exact ⟨[], rfl, rfl⟩
  have hresponses : responsesBetween w (answerMade w' si handle) =
      [⟨ctResponse, rcOk, w'.st.rxTxid, (words.take 5).flatMap u32le⟩] := by
    rw [responsesBetween, hev, hes, List.append_assoc, List.drop_left, List.filterMap_append,
      List.filterMap_eq_nil_iff.mpr hnone, List.nil_append, List.filterMap_cons]
    exact congrArg (_ :: ·) hquiet
  rw [hresponses, madeBy, if_pos rfl, ← hwords]
  exact getLe32_drop_words [storageId si, par w'.st.rxP 1, handle] 2

/-- The target after the data of a `SendObjectInfo` that is accepted is the object that the response
names, and there is none where it is a directory. -/
theorem target_made (hcode : w.st.rxCode = opSendObjectInfo)
    (haccepts : w.st.Accepts (rxPayload w.st)) :
    (completeRx B w).st.sendTarget = 0 ∨
      (completeRx B w).st.sendTarget = madeBy (responsesBetween w (completeRx B w)) := by
  have hne : w.st.rxCode ≠ opSendObject := by rw [hcode]; decide
  obtain ⟨-, isDir, si, full, hplan⟩ | ⟨hnot, -⟩ := planObjectInfo_cases w.st (rxPayload w.st)
  · rw [completeRx_of_ne B hne, planRx_sendObjectInfo hcode, hplan]
    cases isDir with
    | true =>
      left
      rw [(MtpState.SameBut.performRx B w _ (.makeObject true si full)).sendTarget]
      rfl
    | false =>
      right
      have hwrite : Extends (fun e => e.response = none) w (w.tell B (.write si full [] 0)) :=
        .ask B rfl
      have hscan := hwrite.trans (.rescan B (fun _ _ _ => rfl) (fun _ _ _ => rfl) rfl)
      unfold performRx
      dsimp only
      rw [if_neg (by decide), responses_answerMade (hscan.logs.trans (.setSt _)), answerMade_st]
      rfl
  · exact absurd haccepts hnot

theorem target_rejected (hcode : w.st.rxCode = opSendObjectInfo)
    (hnot : ¬w.st.Accepts (rxPayload w.st)) :
    (completeRx B w).st.sendTarget = w.st.sendTarget := by
  have hne : w.st.rxCode ≠ opSendObject := by rw [hcode]; decide
  obtain ⟨haccepts, -⟩ | ⟨-, rc, hplan, -⟩ := planObjectInfo_cases w.st (rxPayload w.st)
  · exact absurd haccepts hnot
  · rw [(MtpState.SameBut.completeRx B w).sendTarget, planRx_sendObjectInfo hcode, hplan, if_neg hne]
    rfl

theorem target_taken (hcode : w.st.rxCode = opSendObject) :
    (completeRx B w).st.sendTarget = 0 := by
  rw [(MtpState.SameBut.completeRx B w).sendTarget, if_pos hcode]
  have hplanned := PlannedRx.planRx w.st (rxPayload w.st)
  generalize planRx w.st (rxPayload w.st) = o at *
  cases o with
  | makeObject isDir si full => exact absurd (hcode.symm.trans hplanned.1) (by decide)
  | answer | store | setDeviceProp | rename | pwrite | none => rfl

theorem target_other (hinfo : w.st.rxCode ≠ opSendObjectInfo) (hsend : w.st.rxCode ≠ opSendObject) :
    (completeRx B w).st.sendTarget = w.st.sendTarget := by
  rw [(MtpState.SameBut.completeRx B w).sendTarget, if_neg hsend]
  have hplanned := PlannedRx.planRx w.st (rxPayload w.st)
  generalize planRx w.st (rxPayload w.st) = o at *
  cases o with
  | makeObject isDir si full => exact absurd hplanned.1 hinfo
  | answer | store | setDeviceProp | rename | pwrite | none => rfl

/-- A Device Reset ends everything, and no other control request changes anything. -/
theorem control_cases (st : MtpState) (setup : Setup) :
    st.control setup = { st with session := 0, rxActive := false, sendTarget := 0 } ∨
      st.control setup = st := by
  unfold MtpState.control Classes.mtpControl
  dsimp only
  split_ifs
  · exact .inr rfl
  · exact .inr rfl
  · exact .inl rfl
  · exact .inr rfl
  · exact .inr rfl

/-- What a chunk between commands leaves, where it is a command of a session. -/
theorem dispatch_keeps (w : World β) (chunk : List UInt8) :
    (dispatch B w chunk).st.sendTarget = w.st.sendTarget ∧
      (dispatch B w chunk).st.readOnly = w.st.readOnly := by
  unfold dispatch
  split
  · exact ⟨rfl, rfl⟩
  · dsimp only
    split
    · rw [World.respond_st]
      exact ⟨rfl, rfl⟩
    · exact perform_keeps w ..

/-- With a target, a session ends with a command only where `CloseSession` ends it. -/
theorem dispatch_session {chunk : List UInt8} (hsession : w.st.session ≠ 0)
    (hclose : 12 ≤ chunk.length → getLe16 (chunk.drop 6) ≠ opCloseSession) :
    (dispatch B w chunk).st.session = w.st.session := by
  by_cases hlen : 12 ≤ chunk.length
  · rw [dispatch_of_session B hlen hsession, (MtpState.SameBut.perform B w ..).session]
    have hplanned := Planned.plan w.st (getLe16 (chunk.drop 6)) (paramsOf chunk) B.dateText
    generalize hcode : getLe16 (chunk.drop 6) = code at *
    generalize hplan : plan B.dateText w.st code (paramsOf chunk) = o at *
    cases o with
    | setSession id =>
      rcases hplanned with ⟨rfl, -⟩ | ⟨rfl, -⟩
      · exact absurd (plan_openSession B.dateText hplan) hsession
      · exact absurd rfl (hclose hlen)
    | answer | dataset | storageInfo | read | remove | beginRx | rename | moveAcross | copy
    | truncate | hang => rfl
  · rw [dispatch, if_pos (not_le.mp hlen)]

/-- A `SendObjectInfo` that may write has its data first. -/
theorem responses_sendObjectInfo {chunk : List UInt8} (hw : w.st.Writable)
    (hlen : 12 ≤ chunk.length) (hcode : getLe16 (chunk.drop 6) = opSendObjectInfo) :
    responsesBetween w (dispatch B w chunk) = [] := by
  rw [dispatch_of_session B hlen hw.2, hcode, plan_sendObjectInfo, needWritable, if_neg (by simp [hw.1]),
    responsesBetween]
  show (w.log.drop w.log.length).filterMap _ = []
  rw [List.drop_length]
  rfl

/-- A data phase of `SendObject` is begun for a target. -/
theorem dispatch_begins {chunk : List UInt8} (hidle : w.st.rxActive = false)
    (hrx : (dispatch B w chunk).st.rxActive = true)
    (hcode : (dispatch B w chunk).st.rxCode = opSendObject) : w.st.sendTarget ≠ 0 := by
  unfold dispatch at hrx hcode
  split at hrx
  · exact absurd (hidle.symm.trans hrx) (by decide)
  · next hlen =>
    rw [if_neg hlen] at hcode
    dsimp only at hrx hcode
    split at hrx
    · rw [World.respond_st] at hrx
      exact absurd (hidle.symm.trans hrx) (by decide)
    · next hopen =>
      rw [if_neg hopen] at hcode
      rw [(MtpState.SameBut.perform B w ..).rxActive] at hrx
      rw [(MtpState.SameBut.perform B w ..).rxCode] at hcode
      generalize getLe16 (chunk.drop 6) = code at *
      generalize hplan : plan B.dateText w.st code (paramsOf chunk) = o at *
      cases o with
      | beginRx =>
        obtain rfl : code = opSendObject := hcode
        intro h0
        rw [plan_sendObject, if_pos h0, needWritable] at hplan
        split at hplan <;> cases hplan
      | answer | dataset | storageInfo | setSession | read | remove | rename | moveAcross | copy
      | truncate | hang => exact absurd (hidle.symm.trans hrx) (by decide)

/-! ### What is due in a session that goes on -/

section
variable {due : UInt32} {chunk : List UInt8} (hsession : w'.st.session = w.st.session)
include hsession

theorem dueAfter_command (hidle : w.st.rxActive = false) (hinfo : 12 ≤ chunk.length →
    getLe16 (chunk.drop 6) = opSendObjectInfo → responsesBetween w w' = []) :
    dueAfter due w w' (.out chunk) = due := by
  rw [dueAfter, if_neg (not_not.mpr hsession), if_neg (by simp [hidle]), if_neg]
  exact fun h => h.2.2 (hinfo h.1 h.2.1)

theorem dueAfter_part (hrx : w.st.rxActive = true) (hpart : (w.st.fill chunk).whole = false) :
    dueAfter due w w' (.out chunk) = due := by
  rw [dueAfter, if_neg (not_not.mpr hsession), if_pos hrx, if_neg (by simp [hpart])]

theorem dueAfter_data (hrx : w.st.rxActive = true) (hwhole : (w.st.fill chunk).whole = true) :
    dueAfter due w w' (.out chunk) =
      if w.st.rxCode = opSendObjectInfo then madeBy (responsesBetween w w')
      else if w.st.rxCode = opSendObject then 0
      else due := by
  rw [dueAfter, if_neg (not_not.mpr hsession), if_pos hrx, if_pos hwhole]

end

/-! ### Runs -/

/-- What holds while the class forgets no target: it has none, or the one that is due. -/
structure Sending.Waits (s : Sending β) : Prop where
  permitted : RxPermitted s.world.st
  target : s.world.st.sendTarget = 0 ∨
    s.world.st.sendTarget = s.due ∧ s.world.st.Writable
  begun : s.world.st.rxActive = true → s.world.st.rxCode = opSendObject →
    s.world.st.sendTarget ≠ 0

namespace Sending.Waits

variable {s t : Sending β}

/-- A chunk between commands. -/
theorem command (h : s.Waits) (hidle : s.world.st.rxActive = false) {chunk : List UInt8}
    (hclose : 12 ≤ chunk.length → getLe16 (chunk.drop 6) = opCloseSession →
      s.world.st.sendTarget = 0) :
    Waits ⟨dispatch B s.world chunk, dueAfter s.due s.world (dispatch B s.world chunk)
      (.out chunk)⟩ := by
  obtain ⟨htarget, hro⟩ := dispatch_keeps (B := B) s.world chunk
  have hperm := (permitted_dispatch B hidle chunk).2
  by_cases h0 : s.world.st.sendTarget = 0
  · refine ⟨hperm, .inl (htarget.trans h0), fun hrx hcode => ?_⟩
    exact absurd h0 (dispatch_begins hidle hrx hcode)
  · obtain ⟨hdue, hw⟩ := h.target.resolve_left h0
    have hsession := dispatch_session (B := B) hw.2 fun hlen hcode => h0 (hclose hlen hcode)
    have hstays : dueAfter s.due s.world (dispatch B s.world chunk) (.out chunk) = s.due :=
      dueAfter_command hsession hidle fun hlen hcode => responses_sendObjectInfo hw hlen hcode
    refine ⟨hperm, .inr ⟨htarget.trans (hdue.trans hstays.symm), hro.trans hw.1, ?_⟩,
      fun _ _ => htarget.trans_ne h0⟩
    exact hsession.trans_ne hw.2

/-- A chunk in a data phase. -/
theorem data (h : s.Waits) (hrx : s.world.st.rxActive = true) {chunk : List UInt8}
    (haccepts : s.world.st.rxCode = opSendObjectInfo → (s.world.st.fill chunk).whole = true →
      s.world.st.sendTarget = 0 ∨
        (s.world.st.fill chunk).Accepts (rxPayload (s.world.st.fill chunk))) :
    Waits ⟨onOut B s.world chunk, dueAfter s.due s.world (onOut B s.world chunk)
      (.out chunk)⟩ := by
  have hperm := (permitted_onOut B h.permitted chunk).2
  cases hwhole : (s.world.st.fill chunk).whole with
  | false =>
    rw [onOut_of_not_whole B hrx hwhole] at hperm ⊢
    have hsession : (s.world.setSt (s.world.st.fill chunk)).st.session = s.world.st.session := rfl
    rw [dueAfter_part hsession hrx hwhole]
    exact ⟨hperm, h.target, h.begun⟩
  | true =>
    rw [onOut_of_whole B hrx hwhole] at hperm ⊢
    have hkeeps := completeRx_keeps B (s.world.setSt (s.world.st.fill chunk).endRx)
    generalize hw0 : s.world.setSt (s.world.st.fill chunk).endRx = w0 at *
    have hst : w0.st = (s.world.st.fill chunk).endRx := by rw [← hw0]; rfl
    have hsession : (completeRx B w0).st.session = s.world.st.session := by
      rw [hkeeps.1, hst]
      rfl
    have hcode : w0.st.rxCode = s.world.st.rxCode := by rw [hst]; rfl
    have htarget : w0.st.sendTarget = s.world.st.sendTarget := by rw [hst]; rfl
    have hresponses : responsesBetween s.world (completeRx B w0) =
        responsesBetween w0 (completeRx B w0) := by
      rw [responsesBetween, responsesBetween, ← hw0]
      rfl
    have hended : (completeRx B w0).st.rxActive = false := by
      rw [hkeeps.2.2, hst]
      rfl
    have hwritable : s.world.st.Writable → (completeRx B w0).st.Writable := fun hw =>
      ⟨hkeeps.2.1.trans (by rw [hst]; exact hw.1), hsession.trans_ne hw.2⟩
    rw [dueAfter_data hsession hrx hwhole, hresponses]
    refine ⟨hperm, ?_, fun hopen => absurd (hended.symm.trans hopen) (by decide)⟩
    show (completeRx B w0).st.sendTarget = 0 ∨ _
    by_cases hinfo : s.world.st.rxCode = opSendObjectInfo
    · have hw := (h.permitted hrx).resolve_left (by rw [hinfo]; decide)
      rw [if_pos hinfo]
      by_cases hacc : w0.st.Accepts (rxPayload w0.st)
      · exact (target_made (hcode.trans hinfo) hacc).imp_right fun hmade => ⟨hmade, hwritable hw⟩
      · rw [target_rejected (hcode.trans hinfo) hacc, htarget]
        rw [hst] at hacc
        exact .inl ((haccepts hinfo hwhole).resolve_right hacc)
    · rw [if_neg hinfo]
      by_cases hsend : s.world.st.rxCode = opSendObject
      · exact .inl (target_taken (hcode.trans hsend))
      · rw [if_neg hsend, target_other (hcode ▸ hinfo) (hcode ▸ hsend), htarget]
        exact h.target.imp_right fun ht => ⟨ht.1, hwritable ht.2⟩

theorem next (h : s.Waits) {a : Act β} (ha : a.Orderly s.world.st)
    (hstep : Sending.next B s a = some t) : t.Waits := by
  obtain ⟨w', hnext, rfl⟩ := Option.map_eq_some_iff.mp hstep
  obtain ⟨-, rfl⟩ := next_some B hnext
  cases a with
  | out chunk =>
    rw [Act.Orderly] at ha
    cases hrx : s.world.st.rxActive with
    | true => exact h.data hrx (by rwa [if_pos hrx] at ha)
    | false =>
      have hdispatch := onOut_of_inactive B hrx chunk
      rw [act, hdispatch]
      exact h.command hrx (by rwa [if_neg (by simp [hrx])] at ha)
  | control setup =>
    have hperm := h.permitted.control setup
    rcases control_cases s.world.st setup with hreset | hsame
    · have htarget : (s.world.st.control setup).sendTarget = 0 :=
        congrArg MtpState.sendTarget hreset
      have hidle : (s.world.st.control setup).rxActive = false :=
        congrArg MtpState.rxActive hreset
      exact ⟨hperm, .inl htarget, fun hrx => absurd (hidle.symm.trans hrx) (by decide)⟩
    · have hworld : act B s.world (.control setup) = s.world := congrArg s.world.setSt hsame
      rw [hworld, dueAfter, if_neg (not_not.mpr rfl)]
      exact ⟨h.permitted, h.target, h.begun⟩
  | outside disk =>
    have hsession : (act B s.world (.outside disk)).st.session = s.world.st.session := rfl
    rw [dueAfter, if_neg (not_not.mpr hsession)]
    exact ⟨h.permitted, h.target, h.begun⟩

/-- Whatever comes next, a `SendObject` does right. -/
theorem right (h : s.Waits) (chunk : List UInt8) : s.Right B chunk := by
  constructor
  · intro hrx hcode c st hc hmut
    have hmade : (Act.out (β := β) chunk).Makes B.dateText s.world.st c := by
      obtain ⟨es, hes, hall⟩ := (course_onOut (w := s.world) B chunk).changes.log
      rw [hes, List.drop_left] at hc
      exact hall _ hc hmut
    rw [Act.Makes, if_pos hrx] at hmade
    dsimp only at hmade
    have h0 := h.begun hrx hcode
    obtain ⟨hdue, -⟩ := h.target.resolve_left h0
    have hcode' : ((s.world.st.fill chunk).endRx).rxCode = opSendObject := hcode
    rcases planRx_sendObject hcode' (rxPayload (s.world.st.fill chunk).endRx) with
      ⟨o, ho, hplan⟩ | hplan
    · rw [hplan] at hmade
      exact ⟨o, hdue ▸ h0, hdue ▸ ho, hmade⟩
    · rw [hplan] at hmade
      exact hmade.elim
  · intro hidle hlen hcode hdue
    have h0 : s.world.st.sendTarget = 0 := by
      rcases h.target with h0 | ⟨ht, -⟩
      · exact h0
      · exact ht.trans hdue
    rw [onOut_of_inactive B hidle]
    by_cases hsession : s.world.st.session = 0
    · rw [if_pos hsession, dispatch, if_neg (not_lt.mpr hlen)]
      dsimp only
      rw [hcode, if_pos ⟨by decide, by decide, hsession⟩, World.respond_eq]
      rfl
    · rw [if_neg hsession, dispatch_of_session B hlen hsession, hcode, plan_sendObject, if_pos h0,
        needWritable]
      split
      · show (World.respond _ _ _ _).log = _
        rw [World.respond_eq]
        rfl
      · show (World.respond _ _ _ _).log = _
        rw [World.respond_eq]
        rfl

end Sending.Waits

end

/-! ### Two runs in which a target is left -/

end Usbip.Mtp
