import Usbip.Build.Alloc

/-! Devices that differ only in what building does not read: the mark of the last descriptor group,
and vendor codes. -/

namespace Usbip

namespace Device

/-- The device with another mark and other vendor codes. -/
def remark (dev : Device) (g : GMark) (v1 v2 : UInt8) : Device :=
  { dev with gmark := g, msos1Vendor := v1, msos2Vendor := v2 }

section equations

variable {dev : Device} {dst : Nat} {ifnum alt : UInt8}

theorem registerIfnum_old (h : 16 ≤ ifnum.toNat ∨ dev.ifPresent ifnum.toNat) :
    dev.registerIfnum ifnum = { dev with nIfnums := max dev.nIfnums (ifnum.toNat + 1) } := if_pos h

theorem registerIfnum_new (h : ¬(16 ≤ ifnum.toNat ∨ dev.ifPresent ifnum.toNat)) :
    dev.registerIfnum ifnum =
      { dev with
        nIfnums := max dev.nIfnums (ifnum.toNat + 1)
        ifPresent := tableSet dev.ifPresent ifnum.toNat true
        groups := dev.groups.modify (dev.groups.length - 1) fun group =>
          { group with
            firstIfnum := if group.nIfs = 0 then ifnum else group.firstIfnum
            nIfs := group.nIfs + 1 } } := if_neg h

theorem ifaltFor_registerIfnum (n : UInt8) (a b : UInt8) :
    ({ dev.registerIfnum n with cur := some (a, b) } : Device).ifaltFor ifnum alt =
      dev.ifaltFor ifnum alt := by
  simp only [ifaltFor, registerIfnum_ifalts]

theorem appendInterface_known {i : Nat} (h : dev.ifaltFor ifnum alt = some i) :
    dev.appendInterface dst ifnum alt =
      { dev.registerIfnum ifnum with
        cur := some (ifnum, alt)
        ifalts := dev.ifalts.modify i fun ia => { ia with off := dst } } := by
  simp only [appendInterface, ifaltFor_registerIfnum, h]
  rw [registerIfnum_ifalts]

theorem appendInterface_record (h : dev.ifaltFor ifnum alt = none)
    (hroom : dev.ifalts.length < ifaltsCap) :
    dev.appendInterface dst ifnum alt =
      { dev.registerIfnum ifnum with
        cur := some (ifnum, alt)
        ifalts := dev.ifalts ++ [⟨ifnum, alt, dst⟩] } := by
  rw [← registerIfnum_ifalts dev ifnum] at hroom ⊢
  simp only [appendInterface, ifaltFor_registerIfnum, h, if_pos hroom]

theorem appendInterface_full (h : dev.ifaltFor ifnum alt = none)
    (hroom : ¬dev.ifalts.length < ifaltsCap) :
    dev.appendInterface dst ifnum alt =
      { dev.registerIfnum ifnum with cur := some (ifnum, alt) } := by
  rw [← registerIfnum_ifalts dev ifnum] at hroom
  simp only [appendInterface, ifaltFor_registerIfnum, h, if_neg hroom]

end equations

section remark

variable (dev : Device) (g : GMark) (v1 v2 : UInt8)

theorem accepts_remark (desc : List UInt8) :
    (dev.remark g v1 v2).Accepts desc ↔ dev.Accepts desc := Iff.rfl

theorem registerIfnum_remark (ifnum : UInt8) :
    (dev.remark g v1 v2).registerIfnum ifnum = (dev.registerIfnum ifnum).remark g v1 v2 := by
  by_cases h : 16 ≤ ifnum.toNat ∨ dev.ifPresent ifnum.toNat
  · have h' : 16 ≤ ifnum.toNat ∨ (dev.remark g v1 v2).ifPresent ifnum.toNat := h
    rw [registerIfnum_old h, registerIfnum_old h']
    rfl
  · have h' : ¬(16 ≤ ifnum.toNat ∨ (dev.remark g v1 v2).ifPresent ifnum.toNat) := h
    rw [registerIfnum_new h, registerIfnum_new h']
    rfl

theorem appendInterface_remark (dst : Nat) (ifnum alt : UInt8) :
    (dev.remark g v1 v2).appendInterface dst ifnum alt =
      (dev.appendInterface dst ifnum alt).remark g v1 v2 := by
  have hsame : (dev.remark g v1 v2).ifaltFor ifnum alt = dev.ifaltFor ifnum alt := rfl
  cases hrec : dev.ifaltFor ifnum alt with
  | some i =>
    rw [appendInterface_known hrec, appendInterface_known (hsame.trans hrec), registerIfnum_remark]
    rfl
  | none =>
    by_cases hroom : dev.ifalts.length < ifaltsCap
    · rw [appendInterface_record hrec hroom, appendInterface_record (hsame.trans hrec) hroom,
        registerIfnum_remark]
      rfl
    · rw [appendInterface_full hrec hroom, appendInterface_full (hsame.trans hrec) hroom,
        registerIfnum_remark]
      rfl

theorem countEndpoint_remark :
    (dev.remark g v1 v2).countEndpoint = dev.countEndpoint.remark g v1 v2 := by
  unfold countEndpoint
  rw [show (dev.remark g v1 v2).cur = dev.cur from rfl]
  cases dev.cur with
  | none => rfl
  | some setting =>
    dsimp only
    rw [show (dev.remark g v1 v2).recordOf setting.1 setting.2 = dev.recordOf setting.1 setting.2
      from rfl]
    cases dev.recordOf setting.1 setting.2 <;> rfl

theorem attachEndpoint_remark (dst : Nat) (ep : Ep) :
    (dev.remark g v1 v2).attachEndpoint dst ep = (dev.attachEndpoint dst ep).remark g v1 v2 :=
  (dev.enterEndpoint dst ep).countEndpoint_remark g v1 v2

theorem addDescriptor_remark (desc : List UInt8) :
    (dev.remark g v1 v2).addDescriptor desc =
      ((dev.addDescriptor desc).1.remark g v1 v2, (dev.addDescriptor desc).2) := by
  have hstep := dev.addDescriptor_step desc
  generalize hr : dev.addDescriptor desc = r at hstep
  cases hstep with
  | refused h => exact addDescriptor_refused h
  | interface h kind =>
    rw [addDescriptor_interface ((accepts_remark dev g v1 v2 desc).mpr h) kind]
    exact congrArg (·, usbSuccess) ((dev.append desc).appendInterface_remark g v1 v2 _ _ _)
  | @endpoint number h kind alloc =>
    have alloc' : (dev.remark g v1 v2).allocFor desc = some number := alloc
    rw [addDescriptor_endpoint ((accepts_remark dev g v1 v2 desc).mpr h) kind alloc']
    exact congrArg (·, usbSuccess) ((dev.append desc).attachEndpoint_remark g v1 v2 _ _)
  | other h hi he => exact addDescriptor_other ((accepts_remark dev g v1 v2 desc).mpr h) hi he

theorem addEndpoint_remark (desc : List UInt8) :
    (dev.remark g v1 v2).addEndpoint desc =
      ((dev.addEndpoint desc).1.remark g v1 v2, (dev.addEndpoint desc).2) := by
  unfold addEndpoint
  rw [addDescriptor_remark]
  dsimp only
  by_cases h : (dev.addDescriptor desc).2 ≠ usbSuccess
  · rw [if_pos h, if_pos h]
  · rw [if_neg h, if_neg h]
    rw [show ((dev.addDescriptor desc).1.remark g v1 v2).eps = (dev.addDescriptor desc).1.eps
      from rfl]
    cases (dev.addDescriptor desc).1.eps.getLast? <;> rfl

theorem reserveEndpoint_remark (wantAddr : UInt8) :
    (dev.remark g v1 v2).reserveEndpoint wantAddr =
      ((dev.reserveEndpoint wantAddr).1.remark g v1 v2, (dev.reserveEndpoint wantAddr).2) := by
  unfold reserveEndpoint
  rw [show (dev.remark g v1 v2).cur = dev.cur from rfl]
  cases dev.cur with
  | none => rfl
  | some setting =>
    dsimp only
    rw [show (dev.remark g v1 v2).epAllocNumber = dev.epAllocNumber from rfl]
    cases dev.epAllocNumber setting.1 (epNumber wantAddr) (epDir wantAddr) <;> rfl

theorem applyAdd_remark (act : AddAct) :
    (dev.remark g v1 v2).applyAdd act =
      ((dev.applyAdd act).1.remark g v1 v2, (dev.applyAdd act).2) := by
  cases act with
  | addDescriptor desc => simp only [applyAdd, addDescriptor_remark]
  | addEndpoint desc => simp only [applyAdd, addEndpoint_remark]
  | reserveEndpoint wantAddr => simp only [applyAdd, reserveEndpoint_remark]

theorem onControl_remark (ifnum : Int) (slot : CtrlSlot) :
    (dev.remark g v1 v2).onControl ifnum slot = (dev.onControl ifnum slot).remark g v1 v2 := by
  unfold onControl
  by_cases hneg : ifnum < 0
  · simp only [if_pos hneg, remark]
  · by_cases hlt : ifnum < 16
    · simp only [if_neg hneg, if_pos hlt, remark]
    · simp only [if_neg hneg, if_neg hlt, remark]

theorem onSetAlt_remark (ifnum : Int) (slot : CtrlSlot) :
    (dev.remark g v1 v2).onSetAlt ifnum slot = (dev.onSetAlt ifnum slot).remark g v1 v2 := by
  unfold onSetAlt
  by_cases h : 0 ≤ ifnum ∧ ifnum < 16
  · simp only [if_pos h, remark]
  · simp only [if_neg h, remark]

theorem setInterfaceString_remark (ifnum alt istr : UInt8) :
    (dev.remark g v1 v2).setInterfaceString ifnum alt istr =
      (dev.setInterfaceString ifnum alt istr).remark g v1 v2 := by
  unfold setInterfaceString
  rw [show (dev.remark g v1 v2).recordOf ifnum alt = dev.recordOf ifnum alt from rfl]
  cases dev.recordOf ifnum alt <;> rfl

/-- An advertisement may set vendor codes. -/
theorem msosAdd_remark (group : Int) (compatible guid : Option String) :
    ∃ v1' v2', (dev.remark g v1 v2).msosAdd group compatible guid =
      ((dev.msosAdd group compatible guid).1.remark g v1' v2',
        (dev.msosAdd group compatible guid).2) := by
  simp only [msosAdd, show (dev.remark g v1 v2).msos = dev.msos from rfl]
  cases dev.msos.findIdx? fun e => e.group = group with
  | some i => exact ⟨_, _, rfl⟩
  | none =>
    by_cases h : msosCap ≤ dev.msos.length
    · simp only [if_pos h]
      exact ⟨v1, v2, rfl⟩
    · simp only [if_neg h]
      exact ⟨_, _, rfl⟩

theorem apply_remark {act : BuildAct} (hbegin : act ≠ .groupBegin) (habort : act ≠ .groupAbort) :
    ∃ v1' v2', (dev.remark g v1 v2).apply act =
      ((dev.apply act).1.remark g v1' v2', (dev.apply act).2) := by
  cases act with
  | add act => exact ⟨v1, v2, dev.applyAdd_remark g v1 v2 act⟩
  | onControl ifnum slot =>
    exact ⟨v1, v2, congrArg (·, BuildRet.void) (dev.onControl_remark g v1 v2 ifnum slot)⟩
  | onSetAlt ifnum slot =>
    exact ⟨v1, v2, congrArg (·, BuildRet.void) (dev.onSetAlt_remark g v1 v2 ifnum slot)⟩
  | enableMsos group compatible guid =>
    obtain ⟨v1', v2', h⟩ := dev.msosAdd_remark g v1 v2 group compatible guid
    exact ⟨v1', v2', by simp only [apply, h]⟩
  | enableWebusb | configure => exact ⟨v1, v2, rfl⟩
  | setInterfaceString ifnum alt istr =>
    exact ⟨v1, v2, congrArg (·, BuildRet.void) (dev.setInterfaceString_remark g v1 v2 ifnum alt istr)⟩
  | groupBegin => exact absurd rfl hbegin
  | groupAbort => exact absurd rfl habort

theorem groupBegin_remark (hroom : dev.groups.length < groupsCap) :
    (dev.remark g v1 v2).groupBegin =
      (dev.groupBegin.1.remark dev.groupBegin.1.gmark v1 v2, dev.groupBegin.2) := by
  have hroom := Nat.not_le.mpr hroom
  unfold groupBegin
  rw [show (dev.remark g v1 v2).groups = dev.groups from rfl, if_neg hroom, if_neg hroom]
  rfl

theorem groupBegin_full (hfull : ¬dev.groups.length < groupsCap) :
    dev.groupBegin = (dev, usbErrorNoMem) := if_pos (Nat.le_of_not_lt hfull)

/-- With the same mark, the same group is rolled back. -/
theorem groupAbort_remark :
    (dev.remark dev.gmark v1 v2).groupAbort = dev.groupAbort.remark dev.gmark v1 v2 := by
  unfold groupAbort
  rw [show (dev.remark dev.gmark v1 v2).groups = dev.groups from rfl]
  by_cases h : dev.groups.length = 0
  · rw [if_pos h, if_pos h]
  · rw [if_neg h, if_neg h]
    rfl

end remark

end Device

end Usbip
