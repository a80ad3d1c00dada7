import Usbip.Mtp.Log

/-! What a command and a data phase can come to, with the guards that have been passed then. -/

namespace Usbip.Mtp

open Lib Control

/-- The guards behind each outcome of `plan`. -/
def Planned (st : MtpState) (code : UInt16) (p : List UInt32) : Outcome → Prop
  | .answer .. | .dataset _ | .hang => True
  | .storageInfo si id => siOf st.nStores id = some si
  | .setSession id => code = opOpenSession ∧ id ≠ 0 ∨ code = opCloseSession ∧ id = 0
  | .read o .. => objByHandle st.objs (par p 0) = some o ∧ o.isDir = false
  | .remove o handle =>
    code = opDeleteObject ∧ st.readOnly = false ∧ handle = par p 0 ∧
      objByHandle st.objs handle = some o
  | .beginRx =>
    (code = opSetDevicePropValue ∨
      (code = opSendObjectInfo ∨ code = opSendObject ∨ code = opSetObjectPropValue ∨
        code = opSendPartialObject) ∧ st.readOnly = false)
  | .rename o neu =>
    code = opMoveObject ∧ st.readOnly = false ∧ objByHandle st.objs (par p 0) = some o ∧
      ∃ dest, target st.nStores st.objs (par p 1) (par p 2) = some (o.si, dest) ∧
        neu = pathJoin 4400 dest o.name
  | .moveAcross o dsi dest =>
    code = opMoveObject ∧ st.readOnly = false ∧ objByHandle st.objs (par p 0) = some o ∧
      target st.nStores st.objs (par p 1) (par p 2) = some (dsi, dest) ∧ dsi ≠ o.si
  | .copy o dsi dest =>
    code = opCopyObject ∧ st.readOnly = false ∧ objByHandle st.objs (par p 0) = some o ∧
      target st.nStores st.objs (par p 1) (par p 2) = some (dsi, dest)
  | .truncate o _ =>
    code = opTruncateObject ∧ st.readOnly = false ∧ objByHandle st.objs (par p 0) = some o ∧
      o.isDir = false

namespace Planned

variable {st : MtpState} {code : UInt16} {p : List UInt32}

theorem needObj {handle : UInt32} {needFile : Bool} {go : Obj → Outcome}
    (h : ∀ o, objByHandle st.objs handle = some o → (needFile = true → o.isDir = false) →
      Planned st code p (go o)) :
    Planned st code p (needObj st.objs handle needFile go) := by
  unfold Mtp.needObj
  split
  · trivial
  · next o ho =>
    split
    · trivial
    · next hfile => exact h o ho fun hneed => by simpa [hneed] using hfile

theorem needWritable {go : Outcome} (h : st.readOnly = false → Planned st code p go) :
    Planned st code p (needWritable st go) := by
  unfold Mtp.needWritable
  split
  · trivial
  · next hro => exact h (by simpa using hro)

theorem needTarget {go : Obj → Nat → CStr → Outcome}
    (h : ∀ o dsi dest, objByHandle st.objs (par p 0) = some o →
      target st.nStores st.objs (par p 1) (par p 2) = some (dsi, dest) →
      Planned st code p (go o dsi dest)) :
    Planned st code p (needTarget st p go) := by
  refine needObj fun o ho _ => ?_
  split
  · trivial
  · next dsi dest ht => exact h o dsi dest ho ht

theorem ofDataset (payload : Option (List UInt8)) : Planned st code p (ofDataset payload) := by
  cases payload <;> trivial

theorem ite {c : Prop} [Decidable c] {a b : Outcome} (ha : c → Planned st code p a)
    (hb : ¬c → Planned st code p b) : Planned st code p (if c then a else b) := by
  split
  · next hc => exact ha hc
  · next hc => exact hb hc

/-- Every outcome has passed its guards. -/
theorem plan (st : MtpState) (code : UInt16) (p : List UInt32) (dateText : UInt32 → CStr) : Planned st code p (plan dateText st code p) := by
  unfold Mtp.plan
  refine ite (fun _ => trivial) fun _ => ite (fun hopen => ?_) fun _ => ?_
  · refine ite (fun _ => trivial) fun _ => ite (fun _ => trivial) fun hid => ?_
    exact .inl ⟨hopen, hid⟩
  refine ite (fun hclose => .inr ⟨hclose, rfl⟩) fun _ => ite (fun _ => trivial) fun _ => ?_
  refine ite (fun _ => ?_) fun _ => ?_
  · split
    · trivial
    · next hsi => exact hsi
  refine ite (fun _ => trivial) fun _ => ite (fun _ => trivial) fun _ => ?_
  refine ite (fun _ => needObj fun _ _ _ => trivial) fun _ => ?_
  refine ite (fun _ => needObj fun o ho hfile => ⟨ho, hfile rfl⟩) fun _ => ?_
  refine ite (fun _ => needObj fun o ho hfile => ⟨ho, hfile rfl⟩) fun _ => ?_
  refine ite (fun _ => needObj fun o ho hfile => ⟨ho, hfile rfl⟩) fun _ => ?_
  refine ite (fun hdel => needWritable fun hw => needObj fun o ho _ => ⟨hdel, hw, rfl, ho⟩)
    fun _ => ?_
  refine ite (fun hinfo => needWritable fun hw => .inr ⟨.inl hinfo, hw⟩) fun _ => ?_
  refine ite (fun hsend => needWritable fun hw => ite (fun _ => trivial) fun _ =>
    .inr ⟨.inr (.inl hsend), hw⟩) fun _ => ?_
  refine ite (fun hmove => needWritable fun hw => needTarget fun o dsi dest ho ht => ?_)
    fun _ => ?_
  · refine ite (fun hsame => ⟨hmove, hw, ho, dest, hsame ▸ ht, rfl⟩) fun hother => ?_
    exact ⟨hmove, hw, ho, ht, hother⟩
  refine ite (fun hcopy => needWritable fun hw => needTarget fun o dsi dest ho ht =>
    ⟨hcopy, hw, ho, ht⟩) fun _ => ?_
  refine ite (fun hset => needWritable fun hw => .inr ⟨.inr (.inr (.inl hset)), hw⟩) fun _ => ?_
  refine ite (fun _ => trivial) fun _ => ?_
  refine ite (fun hpart => needWritable fun hw => needObj fun _ _ _ =>
    .inr ⟨.inr (.inr (.inr hpart)), hw⟩) fun _ => ?_
  refine ite (fun htrunc => needWritable fun hw => needObj fun o ho hfile =>
    ⟨htrunc, hw, ho, hfile rfl⟩) fun _ => ?_
  refine ite (fun _ => ?_) fun _ => ite (fun _ => ?_) fun _ => ?_
  · split <;> trivial
  · split <;> trivial
  refine ite (fun hset => .inl hset) fun _ => ite (fun _ => trivial) fun _ => ?_
  refine ite (fun _ => ite (fun _ => trivial) fun _ => trivial) fun _ => ?_
  refine ite (fun _ => needObj fun o _ _ => ?_) fun _ => ?_
  · split <;> trivial
  exact ite (fun _ => ofDataset _) fun _ => ite (fun _ => trivial) fun _ => trivial

end Planned

/-- The guards behind each outcome of `planRx`. -/
def PlannedRx (st : MtpState) (payload : List UInt8) : RxOutcome → Prop
  | .answer _ | .none => True
  | .makeObject isDir si full =>
    st.rxCode = opSendObjectInfo ∧
      isDir = decide (getLe16 (payload.drop 4) = fmtAssociation) ∧
      ∃ dir, target st.nStores st.objs (par st.rxP 0) (par st.rxP 1) = some (si, dir) ∧
        ptpStrAscii (payload.drop 52) 256 ≠ [] ∧
        full = pathJoin 4400 dir (ptpStrAscii (payload.drop 52) 256)
  | .store o handle =>
    st.rxCode = opSendObject ∧ handle = st.sendTarget ∧ objByHandle st.objs handle = some o
  | .setDeviceProp _ => st.rxCode = opSetDevicePropValue
  | .rename o neu =>
    st.rxCode = opSetObjectPropValue ∧ objByHandle st.objs (par st.rxP 0) = some o ∧
      ptpStrAscii payload 256 ≠ [] ∧
      neu = pathJoin 4400 (parentDir st.objs o) (ptpStrAscii payload 256)
  | .pwrite o _ =>
    st.rxCode = opSendPartialObject ∧ objByHandle st.objs (par st.rxP 0) = some o ∧
      o.isDir = false

namespace PlannedRx

variable {st : MtpState} {payload : List UInt8}

theorem needObj {handle : UInt32} {needFile : Bool} {go : Obj → RxOutcome}
    (h : ∀ o, objByHandle st.objs handle = some o → (needFile = true → o.isDir = false) →
      PlannedRx st payload (go o)) :
    PlannedRx st payload (needObjRx st.objs handle needFile go) := by
  unfold Mtp.needObjRx
  split
  · trivial
  · next o ho =>
    split
    · trivial
    · next hfile => exact h o ho fun hneed => by simpa [hneed] using hfile

theorem planObjectInfo (hcode : st.rxCode = opSendObjectInfo) :
    PlannedRx st payload (planObjectInfo st payload) := by
  unfold Mtp.planObjectInfo
  split
  · trivial
  · dsimp only
    split
    · trivial
    · next si dir ht =>
      split
      · trivial
      · next hname => exact ⟨hcode, rfl, dir, ht, hname, rfl⟩

theorem planSetProp (hcode : st.rxCode = opSetObjectPropValue) :
    PlannedRx st payload (planSetProp st payload) := by
  refine needObj fun o ho _ => ?_
  dsimp only
  split
  · trivial
  · split
    · trivial
    · next hname => exact ⟨hcode, ho, hname, rfl⟩

theorem planRx (st : MtpState) (payload : List UInt8) :
    PlannedRx st payload (planRx st payload) := by
  unfold Mtp.planRx
  split
  · next hinfo => exact planObjectInfo hinfo
  · split
    · next hsend =>
      split
      · next o ho => exact ⟨hsend, rfl, ho⟩
      · trivial
    · split
      · next hdev => exact hdev
      · split
        · next hset => exact planSetProp hset
        · split
          · next hpart => exact needObj fun o ho hfile => ⟨hpart, ho, hfile rfl⟩
          · trivial

end PlannedRx

end Usbip.Mtp
