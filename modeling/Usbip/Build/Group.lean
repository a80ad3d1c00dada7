import Usbip.Build.Remark
import Usbip.Lib.Walk

/-! Descriptor groups that are rolled back. The abort of a group restores the device as it was
before the group began, but for the mark and unused vendor codes, when no call of the group has
written over anything older than the group. -/

namespace Usbip

open Lib

namespace Device

variable {dev s₀ s : Device} {desc : List UInt8}

/-- The answer to GET_DESCRIPTOR(BOS) is not a stall. -/
def bosAvailable (dev : Device) : Bool := !dev.msos.isEmpty || dev.webusb

/-- A call, as a step that is always possible. -/
def step (dev : Device) (act : BuildAct) : Option Device := some (dev.apply act).1

theorem exec_step (dev : Device) (acts : List BuildAct) :
    exec step dev acts = some (dev.run acts).1 := by
  induction acts generalizing dev with
  | nil => rfl
  | cons act acts ih => exact ih (dev.apply act).1

/-- What appending to the configuration leaves alone. -/
structure SameHeader (dev dev' : Device) : Prop where
  header : dev'.header = dev.header
  bcdUSB : dev'.bcdUSB = dev.bcdUSB
  msos : dev'.msos = dev.msos
  msos1Vendor : dev'.msos1Vendor = dev.msos1Vendor
  msos2Vendor : dev'.msos2Vendor = dev.msos2Vendor
  webusb : dev'.webusb = dev.webusb
  gmark : dev'.gmark = dev.gmark

theorem registerIfnum_sameHeader (dev : Device) (ifnum : UInt8) :
    SameHeader dev (dev.registerIfnum ifnum) := by
  by_cases h : 16 ≤ ifnum.toNat ∨ dev.ifPresent ifnum.toNat
  · rw [registerIfnum_old h]
    constructor <;> rfl
  · rw [registerIfnum_new h]
    constructor <;> rfl

theorem appendInterface_sameHeader (dev : Device) (dst : Nat) (ifnum alt : UInt8) :
    SameHeader dev (dev.appendInterface dst ifnum alt) := by
  have h := dev.registerIfnum_sameHeader ifnum
  have hmade : ∀ ifalts, SameHeader dev
      { dev.registerIfnum ifnum with cur := some (ifnum, alt), ifalts } := fun _ =>
    ⟨h.header, h.bcdUSB, h.msos, h.msos1Vendor, h.msos2Vendor, h.webusb, h.gmark⟩
  cases hrec : dev.ifaltFor ifnum alt with
  | some i => rw [appendInterface_known hrec]; exact hmade _
  | none =>
    by_cases hroom : dev.ifalts.length < ifaltsCap
    · rw [appendInterface_record hrec hroom]; exact hmade _
    · rw [appendInterface_full hrec hroom]; exact hmade _

/-- Counting an endpoint changes a byte of the blob. -/
theorem countEndpoint_eq (dev : Device) :
    ∃ descr, descr.length = dev.descr.length ∧ dev.countEndpoint = { dev with descr } := by
  unfold countEndpoint
  split
  · exact ⟨dev.descr, rfl, rfl⟩
  · split
    · exact ⟨dev.descr, rfl, rfl⟩
    · exact ⟨_, List.length_modify .., rfl⟩

theorem attachEndpoint_sameHeader (dev : Device) (dst : Nat) (ep : Ep) :
    SameHeader dev (dev.attachEndpoint dst ep) := by
  obtain ⟨descr, -, heq⟩ := (dev.enterEndpoint dst ep).countEndpoint_eq
  rw [attachEndpoint, heq]
  constructor <;> rfl

theorem addDescriptor_sameHeader (dev : Device) (desc : List UInt8) :
    SameHeader dev (dev.addDescriptor desc).1 := by
  have hstep := dev.addDescriptor_step desc
  generalize dev.addDescriptor desc = r at hstep
  cases hstep with
  | refused | other => constructor <;> rfl
  | interface =>
    have h := (dev.append desc).appendInterface_sameHeader dev.descr.length (byteAt desc 2)
      (byteAt desc 3)
    exact ⟨h.header, h.bcdUSB, h.msos, h.msos1Vendor, h.msos2Vendor, h.webusb, h.gmark⟩
  | @endpoint number _ _ _ =>
    have h := (dev.append desc).attachEndpoint_sameHeader dev.descr.length
      (newEp desc dev.owner number)
    exact ⟨h.header, h.bcdUSB, h.msos, h.msos1Vendor, h.msos2Vendor, h.webusb, h.gmark⟩

theorem reserveEndpoint_eq (dev : Device) (wantAddr : UInt8) :
    ∃ epReserved, (dev.reserveEndpoint wantAddr).1 = { dev with epReserved } := by
  unfold reserveEndpoint
  split
  · exact ⟨_, rfl⟩
  · dsimp only
    split <;> exact ⟨_, rfl⟩

theorem applyAdd_sameHeader (dev : Device) (act : AddAct) :
    SameHeader dev (dev.applyAdd act).1 := by
  cases act with
  | addDescriptor desc => exact dev.addDescriptor_sameHeader desc
  | addEndpoint desc =>
    rw [applyAdd, dev.addEndpoint_fst desc]
    exact dev.addDescriptor_sameHeader desc
  | reserveEndpoint wantAddr =>
    obtain ⟨epReserved, heq⟩ := dev.reserveEndpoint_eq wantAddr
    rw [applyAdd, heq]
    constructor <;> rfl

/-- The device with these advertisements, as `msos_add` leaves it. -/
def advertise (dev : Device) (msos : List MsosEntry) : Device :=
  { dev with
    msos
    bcdUSB := 0x0210
    msos1Vendor := if dev.msos1Vendor = 0 then 0x20 else dev.msos1Vendor
    msos2Vendor := if dev.msos2Vendor = 0 then 0x21 else dev.msos2Vendor }

/-- The outcomes of `msos_add`. -/
inductive MsosStep (dev : Device) (group : Int) (entry : MsosEntry) : Device × Int → Prop
  | full (full : msosCap ≤ dev.msos.length) : MsosStep dev group entry (dev, usbErrorNoMem)
  | replaced {i : Nat} {old : MsosEntry} (get : dev.msos[i]? = some old) (scope : old.group = group) :
    MsosStep dev group entry (dev.advertise (dev.msos.set i entry), usbSuccess)
  | added (room : dev.msos.length < msosCap) (fresh : ∀ old ∈ dev.msos, old.group ≠ group) :
    MsosStep dev group entry (dev.advertise (dev.msos ++ [entry]), usbSuccess)

theorem msosAdd_step (dev : Device) (group : Int) (compatible guid : Option String) :
    MsosStep dev group ⟨group, compatible.getD "WINUSB", guid⟩
      (dev.msosAdd group compatible guid) := by
  rw [msosAdd]
  split
  · rename_i i hfind
    obtain ⟨hi, hgroup, -⟩ := List.findIdx?_eq_some_iff_getElem.mp hfind
    exact .replaced (List.getElem?_eq_getElem hi) (of_decide_eq_true hgroup)
  · rename_i hfind
    split
    · rename_i hfull
      exact .full hfull
    · rename_i hroom
      refine .added (Nat.lt_of_not_le hroom) fun old hold => ?_
      simpa using List.findIdx?_eq_none_iff.mp hfind old hold

/-- What holds of every device that has been built: the routing table names endpoints by their
number and direction, and the vendor codes are either both unset, with nothing advertised, or the
defaults. -/
structure Sound (dev : Device) : Prop where
  slot : ∀ {n d e}, dev.epMap n d = some e → ∃ ep, dev.eps[e]? = some ep ∧ ep.number = n ∧ ep.dir = d
  vendors : dev.msos1Vendor = 0x20 ∧ dev.msos2Vendor = 0x21 ∨
    dev.msos1Vendor = 0 ∧ dev.msos2Vendor = 0 ∧ dev.msos = []

theorem Sound.create (header : DeviceHeader) : (create header).Sound where
  slot h := nomatch h
  vendors := .inr ⟨rfl, rfl, rfl⟩

/-- Where nothing but the header of a device has changed. -/
theorem Sound.congr {dev' : Device} (h : dev.Sound) (hmap : dev'.epMap = dev.epMap)
    (heps : dev'.eps = dev.eps) (hhead : SameHeader dev dev') : dev'.Sound where
  slot := by rw [hmap, heps]; exact h.slot
  vendors := by rw [hhead.msos1Vendor, hhead.msos2Vendor, hhead.msos]; exact h.vendors

theorem Sound.attach (h : dev.Sound) (dst : Nat) (ep : Ep) : (dev.attachEndpoint dst ep).Sound where
  slot {n d e} hmap := by
    rw [attachEndpoint_epMap, EpTable.set] at hmap
    rw [attachEndpoint_eps]
    split at hmap
    · rename_i hnd
      cases hmap
      exact ⟨ep, by simp, hnd.1.symm, hnd.2.symm⟩
    · obtain ⟨other, heps, hnum⟩ := h.slot hmap
      exact ⟨other, by rw [List.getElem?_append_left (List.getElem?_eq_some_iff.mp heps).1, heps],
        hnum⟩
  vendors := by
    have hhead := dev.attachEndpoint_sameHeader dst ep
    rw [hhead.msos1Vendor, hhead.msos2Vendor, hhead.msos]
    exact h.vendors

theorem Sound.addDescriptor (h : dev.Sound) (desc : List UInt8) :
    (dev.addDescriptor desc).1.Sound := by
  have hhead := dev.addDescriptor_sameHeader desc
  have hstep := dev.addDescriptor_step desc
  generalize dev.addDescriptor desc = r at hstep hhead
  cases hstep with
  | refused => exact h
  | interface => exact h.congr (appendInterface_epMap ..) (appendInterface_eps ..) hhead
  | endpoint =>
    have happ : (dev.append desc).Sound := ⟨h.slot, h.vendors⟩
    exact happ.attach _ _
  | other => exact ⟨h.slot, h.vendors⟩

theorem Sound.applyAdd (h : dev.Sound) (act : AddAct) : (dev.applyAdd act).1.Sound := by
  cases act with
  | addDescriptor desc => exact h.addDescriptor desc
  | addEndpoint desc =>
    rw [Device.applyAdd, dev.addEndpoint_fst desc]
    exact h.addDescriptor desc
  | reserveEndpoint wantAddr =>
    obtain ⟨epReserved, heq⟩ := dev.reserveEndpoint_eq wantAddr
    rw [Device.applyAdd, heq]
    exact ⟨h.slot, h.vendors⟩

theorem Sound.advertise (h : dev.Sound) (msos : List MsosEntry) : (dev.advertise msos).Sound where
  slot := h.slot
  vendors := by
    left
    rcases h.vendors with ⟨h1, h2⟩ | ⟨h1, h2, -⟩
    · simp [Device.advertise, h1, h2]
    · simp [Device.advertise, h1, h2]

theorem filter_ne_of_forall {o : Option EpId} {g : EpId} (h : ∀ e, o = some e → e ≠ g) :
    o = o.filter (· ≠ g) := by
  cases o with
  | none => rfl
  | some e => simp [Option.filter, h e rfl]

/-- The endpoints that go lose their slots, and no other slot changes. -/
theorem clearSlots_eq {eps : List Ep} {epMap : EpTable (Option EpId)} {gone : List EpId}
    (hslot : ∀ {n d e}, epMap n d = some e → ∃ ep, eps[e]? = some ep ∧ ep.number = n ∧ ep.dir = d)
    (n : Nat) (d : Dir) :
    clearSlots eps epMap gone n d = (epMap n d).filter (· ∉ gone) := by
  induction gone generalizing epMap with
  | nil =>
    rw [clearSlots, List.foldl_nil]
    cases epMap n d <;> simp [Option.filter]
  | cons g gone ih =>
    -- one endpoint goes
    have hone : ∀ next : EpTable (Option EpId),
        (∀ n d, next n d = (epMap n d).filter (· ≠ g)) →
        clearSlots eps next gone n d = (epMap n d).filter (· ∉ g :: gone) := by
      intro next hnext
      rw [ih fun {n d e} he => hslot (Option.filter_eq_some_iff.mp ((hnext n d).symm.trans he)).1,
        hnext]
      cases hmap : epMap n d with
      | none => rfl
      | some e => by_cases he : e = g <;> by_cases hg : e ∈ gone <;> simp [Option.filter, he, hg]
    rw [clearSlots, List.foldl_cons, ← clearSlots]
    cases heps : eps[g]? with
    | none =>
      refine hone epMap fun n d => filter_ne_of_forall ?_
      rintro _ hmap rfl
      obtain ⟨ep, hep, -⟩ := hslot hmap
      cases heps.symm.trans hep
    | some ep =>
      -- the one slot that may hold `g` is the slot of its number and direction
      have hother : ∀ {n d}, epMap n d = some g → n = ep.number ∧ d = ep.dir := by
        intro n d hmap
        obtain ⟨other, hep, rfl, rfl⟩ := hslot hmap
        cases heps.symm.trans hep
        exact ⟨rfl, rfl⟩
      dsimp only
      split
      · rename_i hheld
        refine hone _ fun n d => ?_
        by_cases hnd : n = ep.number ∧ d = ep.dir
        · rw [hnd.1, hnd.2, EpTable.set_self, hheld]
          simp [Option.filter]
        · rw [EpTable.set_of_ne _ _ hnd]
          refine filter_ne_of_forall ?_
          rintro _ hmap rfl
          exact hnd (hother hmap)
      · rename_i hheld
        refine hone epMap fun n d => filter_ne_of_forall ?_
        rintro _ hmap rfl
        obtain ⟨rfl, rfl⟩ := hother hmap
        exact hheld hmap

/-- The entries of the group go, when they are the last ones. -/
theorem dropMsos_append {gid : Int} {older own : List MsosEntry}
    (holder : ∀ entry ∈ older, entry.group ≠ gid) (hown : ∀ entry ∈ own, entry.group = gid)
    {fuel i : Nat} (hi : i ≤ older.length) (hfuel : older.length - i + own.length ≤ fuel) :
    dropMsos gid fuel i (older ++ own) = older := by
  induction fuel generalizing i own with
  | zero =>
    have : own = [] := List.eq_nil_of_length_eq_zero (by omega)
    rw [dropMsos, this, List.append_nil]
  | succ fuel ih =>
    rw [dropMsos]
    by_cases hlt : i < older.length
    · rw [List.getElem?_append_left hlt, List.getElem?_eq_getElem hlt]
      dsimp only
      rw [if_neg (holder _ (List.getElem_mem hlt))]
      exact ih hown hlt (by omega)
    · obtain rfl : i = older.length := Nat.le_antisymm hi (Nat.le_of_not_lt hlt)
      rw [List.getElem?_append_right (Nat.le_refl _), Nat.sub_self]
      cases own with
      | nil => exact List.append_nil _
      | cons entry own =>
        rw [List.getElem?_cons_zero]
        dsimp only
        rw [if_pos (hown entry List.mem_cons_self), List.set_append_right _ _ (Nat.le_refl _),
          Nat.sub_self, List.set_cons_zero, List.length_append, List.length_cons,
          Nat.add_sub_assoc (Nat.succ_pos _), List.take_length_add_append]
        -- the last entry is one of the group's
        refine ih (fun other hother => ?_) (Nat.le_refl _) ?_
        · rcases List.mem_cons.mp (List.mem_of_mem_take hother) with rfl | hmem
          · rw [List.getLastD_eq_getLast?, List.getLast?_append]
            rw [List.getLast?_cons]
            exact hown _ (by
              rw [Option.some_or, Option.getD_some, ← List.getLastD_eq_getLast?]
              exact List.getLastD_mem_cons)
          · exact hown other (List.mem_cons_of_mem _ hmem)
        · simp only [List.length_take, List.length_cons] at hfuel ⊢
          omega

theorem Sound.groupAbort (h : dev.Sound) : dev.groupAbort.Sound := by
  rw [Device.groupAbort]
  split
  · exact h
  · refine ⟨fun {n d e} hmap => ?_, ?_⟩
    · dsimp only at hmap ⊢
      rw [clearSlots_eq h.slot] at hmap
      obtain ⟨hmap, hgone⟩ := Option.filter_eq_some_iff.mp hmap
      obtain ⟨ep, hep, hnum⟩ := h.slot hmap
      have hlt := (List.getElem?_eq_some_iff.mp hep).1
      have hgone : e ∉ List.range' dev.gmark.nEps (dev.eps.length - dev.gmark.nEps) :=
        of_decide_eq_true hgone
      rw [List.mem_range'_1] at hgone
      exact ⟨ep, by rw [List.getElem?_take_of_lt (by omega), hep], hnum⟩
    · rcases h.vendors with hv | ⟨h1, h2, hnil⟩
      · exact .inl hv
      · exact .inr ⟨h1, h2, by dsimp only; rw [hnil]; rfl⟩

theorem Sound.apply (h : dev.Sound) (act : BuildAct) : (dev.apply act).1.Sound := by
  cases act with
  | add act => exact h.applyAdd act
  | onControl ifnum slot =>
    rw [Device.apply, Device.onControl]
    split
    · exact ⟨h.slot, h.vendors⟩
    · split <;> exact ⟨h.slot, h.vendors⟩
  | onSetAlt ifnum slot =>
    rw [Device.apply, Device.onSetAlt]
    split <;> exact ⟨h.slot, h.vendors⟩
  | enableMsos group compatible guid =>
    have hstep := dev.msosAdd_step group compatible guid
    rw [Device.apply]
    generalize dev.msosAdd group compatible guid = r at hstep
    cases hstep with
    | full => exact h
    | replaced | added => exact h.advertise _
  | enableWebusb | configure => exact ⟨h.slot, h.vendors⟩
  | setInterfaceString ifnum alt istr =>
    rw [Device.apply, Device.setInterfaceString]
    split <;> exact ⟨h.slot, h.vendors⟩
  | groupBegin =>
    have hbegin : dev.groupBegin.1.Sound := by
      rw [Device.groupBegin]
      split <;> exact ⟨h.slot, h.vendors⟩
    exact hbegin
  | groupAbort => exact h.groupAbort

theorem Sound.run (h : dev.Sound) (acts : List BuildAct) : (dev.run acts).1.Sound :=
  exec_invariant (f := step) (fun _ act _ hs hst => Option.some.inj hst ▸ hs.apply act) h
    (dev.exec_step acts)

/-- A device as it was before the group, and the device inside the group: everything older than the
group is still there, and what is newer can be told by its place. -/
structure Kept (s₀ s : Device) : Prop where
  gmark : s.gmark = s₀.snapshot
  groups : ∃ group, s.groups = s₀.groups ++ [group]
  header : s.header = s₀.header
  bcdUSB : s.bcdUSB = s₀.bcdUSB
  webusb : s.webusb = s₀.webusb
  descr : s₀.descr <+: s.descr
  ifalts : s₀.ifalts <+: s.ifalts
  eps : s₀.eps <+: s.eps
  slots : ∀ n d, s.epMap n d = s₀.epMap n d ∨
    s₀.epMap n d = none ∧ ∃ e, s.epMap n d = some e ∧ s₀.eps.length ≤ e
  msos : ∃ own, s.msos = s₀.msos ++ own ∧ ∀ entry ∈ own, entry.group = s₀.groups.length
  sound : s.Sound

theorem Kept.begin (h : s₀.Sound) (hroom : s₀.groups.length < groupsCap) :
    Kept s₀ s₀.groupBegin.1 := by
  rw [groupBegin, if_neg (Nat.not_le.mpr hroom)]
  exact {
    gmark := rfl
    groups := ⟨_, rfl⟩
    header := rfl
    bcdUSB := rfl
    webusb := rfl
    descr := List.prefix_refl _
    ifalts := List.prefix_refl _
    eps := List.prefix_refl _
    slots := fun _ _ => .inl rfl
    msos := ⟨[], (List.append_nil _).symm, fun _ h => nomatch h⟩
    sound := ⟨h.slot, h.vendors⟩ }

/-- The abort of the group takes the device back to where the group began. -/
theorem Kept.groupAbort (h : Kept s₀ s) (hsound : s₀.Sound)
    (hfresh : ∀ entry ∈ s₀.msos, entry.group ≠ s₀.groups.length) :
    s.groupAbort = s₀.remark s.gmark s.msos1Vendor s.msos2Vendor := by
  obtain ⟨group, hgroups⟩ := h.groups
  obtain ⟨own, hmsos, hown⟩ := h.msos
  have hlen : s.groups.length = s₀.groups.length + 1 := by
    rw [hgroups, List.length_append, List.length_singleton]
  have hmap : clearSlots s.eps s.epMap
      (List.range' s₀.eps.length (s.eps.length - s₀.eps.length)) = s₀.epMap := by
    funext n d
    rw [clearSlots_eq h.sound.slot]
    rcases h.slots n d with heq | ⟨hnone, e, he, hge⟩
    · rw [heq]
      cases hmap : s₀.epMap n d with
      | none => rfl
      | some e =>
        obtain ⟨ep, hep, -⟩ := hsound.slot hmap
        have hlt := (List.getElem?_eq_some_iff.mp hep).1
        have hnot : e ∉ List.range' s₀.eps.length (s.eps.length - s₀.eps.length) := by
          rw [List.mem_range'_1]
          omega
        simp [Option.filter, hnot]
    · rw [hnone, he]
      obtain ⟨ep, hep, -⟩ := h.sound.slot he
      have hlt := (List.getElem?_eq_some_iff.mp hep).1
      have hmem : e ∈ List.range' s₀.eps.length (s.eps.length - s₀.eps.length) := by
        rw [List.mem_range'_1]
        omega
      simp [Option.filter, hmem]
  have hdrop : dropMsos (s₀.groups.length : Int) s.msos.length 0 s.msos = s₀.msos := by
    rw [hmsos]
    exact dropMsos_append hfresh hown (Nat.zero_le _) (by rw [List.length_append]; omega)
  have htake : s.groups.take s₀.groups.length = s₀.groups := by rw [hgroups, List.take_left]
  rw [Device.groupAbort, if_neg (by omega), hlen, Nat.add_sub_cancel, h.gmark]
  dsimp only [snapshot]
  rw [hmap, hdrop, htake, ← List.prefix_iff_eq_take.mp h.eps, ← List.prefix_iff_eq_take.mp h.descr,
    ← List.prefix_iff_eq_take.mp h.ifalts, h.header, h.bcdUSB, h.webusb]
  rfl

theorem registerIfnum_groups {older : List DescrGroup} {group : DescrGroup} (ifnum : UInt8)
    (h : dev.groups = older ++ [group]) :
    ∃ group', (dev.registerIfnum ifnum).groups = older ++ [group'] := by
  by_cases hold : 16 ≤ ifnum.toNat ∨ dev.ifPresent ifnum.toNat
  · rw [registerIfnum_old hold]
    exact ⟨group, h⟩
  · rw [registerIfnum_new hold]
    dsimp only
    rw [h, List.length_append, List.length_singleton, Nat.add_sub_cancel,
      ← Nat.add_zero older.length, modify_append_right]
    exact ⟨_, rfl⟩

theorem registerIfnum_groups_length (ifnum : UInt8) :
    (dev.registerIfnum ifnum).groups.length = dev.groups.length := by
  by_cases hold : 16 ≤ ifnum.toNat ∨ dev.ifPresent ifnum.toNat
  · rw [registerIfnum_old hold]
  · rw [registerIfnum_new hold]
    exact List.length_modify ..

theorem appendInterface_groups (dst : Nat) (ifnum alt : UInt8) :
    (dev.appendInterface dst ifnum alt).groups = (dev.registerIfnum ifnum).groups := by
  cases hrec : dev.ifaltFor ifnum alt with
  | some i => rw [appendInterface_known hrec]
  | none =>
    by_cases hroom : dev.ifalts.length < ifaltsCap
    · rw [appendInterface_record hrec hroom]
    · rw [appendInterface_full hrec hroom]

/-- The records before the one of the setting stay. -/
theorem appendInterface_older {older : List IfAlt} {dst : Nat} {ifnum alt : UInt8}
    (h : older <+: dev.ifalts) (hnew : ∀ i ∈ dev.ifaltFor ifnum alt, older.length ≤ i) :
    older <+: (dev.appendInterface dst ifnum alt).ifalts := by
  cases hrec : dev.ifaltFor ifnum alt with
  | some i =>
    rw [appendInterface_known hrec]
    exact prefix_modify _ h (hnew i hrec)
  | none =>
    by_cases hroom : dev.ifalts.length < ifaltsCap
    · rw [appendInterface_record hrec hroom]
      exact h.trans (List.prefix_append _ _)
    · rw [appendInterface_full hrec hroom]
      dsimp only
      rw [registerIfnum_ifalts]
      exact h

/-- The endpoints of the current alternate setting are counted at `n` or behind it. -/
def CountsFrom (dev : Device) (n : Nat) : Prop :=
  ∀ setting ∈ dev.cur, ∀ ia ∈ dev.recordOf setting.1 setting.2, n ≤ ia.off + 4

theorem countEndpoint_older {older : List UInt8} (h : older <+: dev.descr)
    (hcount : dev.CountsFrom older.length) : older <+: dev.countEndpoint.descr := by
  unfold countEndpoint
  split
  · exact h
  · rename_i ifnum alt hcur
    split
    · exact h
    · rename_i ia hrec
      exact prefix_modify _ h (hcount (ifnum, alt) hcur ia hrec)

section kept

variable {s' : Device}

/-- What a call that appends must keep, besides what it cannot touch. -/
theorem Kept.grow (h : Kept s₀ s) (hhead : SameHeader s s')
    (groups : ∃ group, s'.groups = s₀.groups ++ [group]) (descr : s₀.descr <+: s'.descr)
    (ifalts : s₀.ifalts <+: s'.ifalts) (eps : s₀.eps <+: s'.eps)
    (slots : ∀ n d, s'.epMap n d = s₀.epMap n d ∨
      s₀.epMap n d = none ∧ ∃ e, s'.epMap n d = some e ∧ s₀.eps.length ≤ e)
    (sound : s'.Sound) : Kept s₀ s' where
  gmark := hhead.gmark.trans h.gmark
  groups := groups
  header := hhead.header.trans h.header
  bcdUSB := hhead.bcdUSB.trans h.bcdUSB
  webusb := hhead.webusb.trans h.webusb
  descr := descr
  ifalts := ifalts
  eps := eps
  slots := slots
  msos := by rw [hhead.msos]; exact h.msos
  sound := sound

theorem Kept.append (h : Kept s₀ s) (desc : List UInt8) : Kept s₀ (s.append desc) :=
  h.grow ⟨rfl, rfl, rfl, rfl, rfl, rfl, rfl⟩ h.groups (h.descr.trans (List.prefix_append _ _))
    h.ifalts h.eps h.slots ⟨h.sound.slot, h.sound.vendors⟩

theorem Kept.interface (h : Kept s₀ s) {dst : Nat} {ifnum alt : UInt8}
    (hnew : ∀ i ∈ s.ifaltFor ifnum alt, s₀.ifalts.length ≤ i) :
    Kept s₀ (s.appendInterface dst ifnum alt) := by
  have hhead := s.appendInterface_sameHeader dst ifnum alt
  obtain ⟨group, hgroups⟩ := h.groups
  refine h.grow hhead ?_ ?_ (appendInterface_older h.ifalts hnew) ?_ ?_ ?_
  · rw [appendInterface_groups]
    exact registerIfnum_groups ifnum hgroups
  · rw [appendInterface_descr]
    exact h.descr
  · rw [appendInterface_eps]
    exact h.eps
  · rw [appendInterface_epMap]
    exact h.slots
  · exact h.sound.congr (appendInterface_epMap ..) (appendInterface_eps ..) hhead

theorem Kept.endpoint (h : Kept s₀ s) (hsound : s₀.Sound) {dst : Nat} {ep : Ep}
    (hdst : s₀.descr.length ≤ dst) (hcount : s.CountsFrom s₀.descr.length)
    (hslot : ∀ e ∈ s.epMap ep.number ep.dir, s₀.eps.length ≤ e) :
    Kept s₀ (s.attachEndpoint dst ep) := by
  have henter : s₀.descr <+: (s.enterEndpoint dst ep).descr :=
    prefix_set h.descr (Nat.le_add_right_of_le hdst)
  obtain ⟨descr, -, heq⟩ := (s.enterEndpoint dst ep).countEndpoint_eq
  have hfields : s.attachEndpoint dst ep = { s.enterEndpoint dst ep with descr } := heq
  refine h.grow (s.attachEndpoint_sameHeader dst ep) ?_ ?_ ?_ ?_ (fun n d => ?_)
    (h.sound.attach dst ep)
  · rw [hfields]
    exact h.groups
  · exact countEndpoint_older henter hcount
  · rw [hfields]
    exact h.ifalts
  · rw [attachEndpoint_eps]
    exact h.eps.trans (List.prefix_append _ _)
  · rw [attachEndpoint_epMap]
    by_cases hnd : n = ep.number ∧ d = ep.dir
    · obtain ⟨rfl, rfl⟩ := hnd
      rw [EpTable.set_self]
      refine .inr ⟨?_, _, rfl, h.eps.length_le⟩
      rcases h.slots ep.number ep.dir with hsame | ⟨hnone, -⟩
      · -- an older endpoint in the slot would be displaced
        cases hmap : s₀.epMap ep.number ep.dir with
        | none => rfl
        | some e =>
          obtain ⟨old, hold, -⟩ := hsound.slot hmap
          have := (List.getElem?_eq_some_iff.mp hold).1
          have := hslot e (hsame.trans hmap)
          omega
      · exact hnone
    · rw [EpTable.set_of_ne _ _ hnd]
      exact h.slots n d

/-- What a call must not do inside a group: move the record of an older interface descriptor, count
an endpoint in an older interface descriptor, take the slot of an older endpoint, or be the first to
raise `bcdUSB`. -/
def Spares (dev : Device) : BuildAct → Prop
  | .add act => ∀ desc ∈ act.desc, dev.Accepts desc →
    (byteAt desc 1 = usbDtInterface →
      ∀ i ∈ dev.ifaltFor (byteAt desc 2) (byteAt desc 3), dev.gmark.nIfalts ≤ i) ∧
    (byteAt desc 1 = usbDtEndpoint →
      dev.CountsFrom dev.gmark.descrLen ∧
      ∀ number ∈ dev.allocFor desc, ∀ e ∈ dev.epMap number (epDir (byteAt desc 2)),
        dev.gmark.nEps ≤ e)
  | .enableMsos group _ _ =>
    dev.msos.length < msosCap ∨ (∃ entry ∈ dev.msos, entry.group = group) → dev.bcdUSB = 0x0210
  | _ => True

instance (dev : Device) (n : Nat) : Decidable (dev.CountsFrom n) :=
  have (setting : UInt8 × UInt8) :
      Decidable (∀ ia ∈ dev.recordOf setting.1 setting.2, n ≤ ia.off + 4) :=
    Option.decidableForallMem _
  Option.decidableForallMem dev.cur

instance (dev : Device) : ∀ act, Decidable (dev.Spares act)
  | .add act =>
    have (o : Option Nat) (n : Nat) : Decidable (∀ i ∈ o, n ≤ i) := Option.decidableForallMem o
    have (desc : List UInt8) :
        Decidable (∀ number ∈ dev.allocFor desc,
          ∀ e ∈ dev.epMap number (epDir (byteAt desc 2)), dev.gmark.nEps ≤ e) :=
      Option.decidableForallMem _
    Option.decidableForallMem act.desc
  | .enableMsos group _ _ =>
    inferInstanceAs (Decidable
      (dev.msos.length < msosCap ∨ (∃ entry ∈ dev.msos, entry.group = group) → dev.bcdUSB = 0x0210))
  | .onControl .. | .onSetAlt .. | .enableWebusb | .setInterfaceString .. | .configure .. |
    .groupBegin | .groupAbort => isTrue trivial

/-- The calls of a group, with its advertisements its own. -/
def InGroup (gid : Nat) : BuildAct → Prop
  | .add _ | .onControl _ _ | .onSetAlt _ _ => True
  | .enableMsos group _ _ => group = gid
  | _ => False

theorem Kept.addDescriptor (h : Kept s₀ s) (hsound : s₀.Sound)
    (hspares : s.Spares (.add (.addDescriptor desc))) : Kept s₀ (s.addDescriptor desc).1 := by
  have hspares := hspares desc rfl
  rw [h.gmark] at hspares
  have hstep := s.addDescriptor_step desc
  generalize s.addDescriptor desc = r at hstep
  cases hstep with
  | refused => exact h
  | interface accepted kind => exact (h.append desc).interface ((hspares accepted).1 kind)
  | endpoint accepted kind alloc =>
    obtain ⟨hcount, hslot⟩ := (hspares accepted).2 kind
    exact (h.append desc).endpoint hsound h.descr.length_le hcount (hslot _ alloc)
  | other => exact h.append desc

theorem Kept.add (h : Kept s₀ s) (hsound : s₀.Sound) {act : AddAct} (hspares : s.Spares (.add act)) :
    Kept s₀ (s.applyAdd act).1 := by
  cases act with
  | addDescriptor desc => exact h.addDescriptor hsound hspares
  | addEndpoint desc =>
    rw [applyAdd, s.addEndpoint_fst desc]
    exact h.addDescriptor hsound hspares
  | reserveEndpoint wantAddr =>
    obtain ⟨epReserved, heq⟩ := s.reserveEndpoint_eq wantAddr
    rw [applyAdd, heq]
    exact h.grow ⟨rfl, rfl, rfl, rfl, rfl, rfl, rfl⟩ h.groups h.descr h.ifalts h.eps h.slots
      ⟨h.sound.slot, h.sound.vendors⟩

theorem Kept.advertise (h : Kept s₀ s) (hbcd : s.bcdUSB = 0x0210) {msos : List MsosEntry}
    (hmsos : ∃ own, msos = s₀.msos ++ own ∧ ∀ entry ∈ own, entry.group = s₀.groups.length) :
    Kept s₀ (s.advertise msos) where
  gmark := h.gmark
  groups := h.groups
  header := h.header
  bcdUSB := hbcd.symm.trans h.bcdUSB
  webusb := h.webusb
  descr := h.descr
  ifalts := h.ifalts
  eps := h.eps
  slots := h.slots
  msos := hmsos
  sound := h.sound.advertise msos

theorem Kept.enableMsos (h : Kept s₀ s)
    (hfresh : ∀ entry ∈ s₀.msos, entry.group ≠ s₀.groups.length) {compatible guid : Option String}
    (hspares : s.Spares (.enableMsos s₀.groups.length compatible guid)) :
    Kept s₀ (s.msosAdd s₀.groups.length compatible guid).1 := by
  obtain ⟨own, hmsos, hown⟩ := h.msos
  have hstep := s.msosAdd_step s₀.groups.length compatible guid
  generalize s.msosAdd s₀.groups.length compatible guid = r at hstep
  cases hstep with
  | full => exact h
  | @replaced i old get scope =>
    refine h.advertise (hspares (.inr ⟨old, List.mem_of_getElem? get, scope⟩)) ?_
    -- an older entry is another scope's
    have hi : s₀.msos.length ≤ i := by
      by_contra hlt
      rw [hmsos, List.getElem?_append_left (by omega)] at get
      exact hfresh old (List.mem_of_getElem? get) scope
    rw [hmsos, List.set_append_right _ _ hi]
    refine ⟨_, rfl, fun entry hentry => ?_⟩
    rcases List.mem_or_eq_of_mem_set hentry with hmem | rfl
    · exact hown entry hmem
    · rfl
  | added room =>
    refine h.advertise (hspares (.inl room)) ⟨own ++ [_], by rw [hmsos, List.append_assoc], ?_⟩
    exact List.forall_mem_append.mpr ⟨hown, List.forall_mem_singleton.mpr rfl⟩

theorem Kept.apply (h : Kept s₀ s) (hsound : s₀.Sound)
    (hfresh : ∀ entry ∈ s₀.msos, entry.group ≠ s₀.groups.length) {act : BuildAct}
    (hin : InGroup s₀.groups.length act) (hspares : s.Spares act) : Kept s₀ (s.apply act).1 := by
  have hgrow : ∀ ctrl ctrlDefault setAltTab,
      Kept s₀ { s with ctrl, ctrlDefault, setAltTab } := fun _ _ _ =>
    h.grow ⟨rfl, rfl, rfl, rfl, rfl, rfl, rfl⟩ h.groups h.descr h.ifalts h.eps h.slots
      ⟨h.sound.slot, h.sound.vendors⟩
  cases act with
  | add act => exact h.add hsound hspares
  | onControl ifnum slot =>
    rw [Device.apply, onControl]
    split
    · exact hgrow _ _ _
    · split
      · exact hgrow _ _ _
      · exact h
  | onSetAlt ifnum slot =>
    rw [Device.apply, onSetAlt]
    split
    · exact hgrow _ _ _
    · exact h
  | enableMsos group compatible guid =>
    obtain rfl : group = s₀.groups.length := hin
    exact h.enableMsos hfresh hspares
  | enableWebusb | setInterfaceString | configure | groupBegin | groupAbort => exact hin.elim

end kept

theorem apply_groups_length (dev : Device) {act : BuildAct} (hbegin : act ≠ .groupBegin)
    (habort : act ≠ .groupAbort) : (dev.apply act).1.groups.length = dev.groups.length := by
  have hadd : ∀ desc, (dev.addDescriptor desc).1.groups.length = dev.groups.length := by
    intro desc
    have hstep := dev.addDescriptor_step desc
    generalize dev.addDescriptor desc = r at hstep
    cases hstep with
    | refused | other => rfl
    | interface =>
      rw [appendInterface_groups]
      exact registerIfnum_groups_length _
    | @endpoint number _ _ _ =>
      obtain ⟨descr, -, heq⟩ := ((dev.append desc).enterEndpoint dev.descr.length
        (newEp desc dev.owner number)).countEndpoint_eq
      rw [attachEndpoint, heq]
      rfl
  cases act with
  | add act =>
    cases act with
    | addDescriptor desc => exact hadd desc
    | addEndpoint desc =>
      rw [apply, applyAdd, dev.addEndpoint_fst desc]
      exact hadd desc
    | reserveEndpoint wantAddr =>
      obtain ⟨epReserved, heq⟩ := dev.reserveEndpoint_eq wantAddr
      rw [apply, applyAdd, heq]
  | onControl ifnum slot =>
    rw [apply, onControl]
    split
    · rfl
    · split <;> rfl
  | onSetAlt ifnum slot =>
    rw [apply, onSetAlt]
    split <;> rfl
  | enableMsos group compatible guid =>
    have hstep := dev.msosAdd_step group compatible guid
    rw [apply]
    generalize dev.msosAdd group compatible guid = r at hstep
    cases hstep <;> rfl
  | enableWebusb | configure => rfl
  | setInterfaceString ifnum alt istr =>
    rw [apply, setInterfaceString]
    split <;> rfl
  | groupBegin => exact absurd rfl hbegin
  | groupAbort => exact absurd rfl habort

theorem apply_gmark {act : BuildAct} (hbegin : act ≠ .groupBegin) :
    (dev.apply act).1.gmark = dev.gmark := by
  cases act with
  | add act => exact (dev.applyAdd_sameHeader act).gmark
  | onControl ifnum slot =>
    rw [apply, onControl]
    split
    · rfl
    · split <;> rfl
  | onSetAlt ifnum slot =>
    rw [apply, onSetAlt]
    split <;> rfl
  | enableMsos group compatible guid =>
    have hstep := dev.msosAdd_step group compatible guid
    rw [apply]
    generalize dev.msosAdd group compatible guid = r at hstep
    cases hstep <;> rfl
  | enableWebusb | configure => rfl
  | setInterfaceString ifnum alt istr =>
    rw [apply, setInterfaceString]
    split <;> rfl
  | groupBegin => exact absurd rfl hbegin
  | groupAbort =>
    rw [apply, groupAbort]
    split <;> rfl

/-- What a host and the rest of the library see of a device that has been built. -/
structure SameView (dev dev' : Device) : Prop where
  config : dev'.configReply = dev.configReply
  device : dev'.buildDeviceDesc = dev.buildDeviceDesc
  bos : dev'.bosAvailable = dev.bosAvailable
  eps : dev'.eps = dev.eps
  epMap : dev'.epMap = dev.epMap
  ifalts : dev'.ifalts = dev.ifalts
  epReserved : dev'.epReserved = dev.epReserved
  ctrl : dev'.ctrl = dev.ctrl
  ctrlDefault : dev'.ctrlDefault = dev.ctrlDefault
  setAltTab : dev'.setAltTab = dev.setAltTab
  msos : dev'.msos = dev.msos
  groups : dev'.groups = dev.groups
  vendors : dev.msos ≠ [] →
    dev'.msos1Vendor = dev.msos1Vendor ∧ dev'.msos2Vendor = dev.msos2Vendor

/-- The two devices answer further calls alike, and look alike after them. -/
def Agree (dev dev' : Device) (further : List BuildAct) : Prop :=
  (dev'.run further).2 = (dev.run further).2 ∧ SameView (dev.run further).1 (dev'.run further).1

/-- The calls begin a group before they abort one, or there is none to abort. -/
def AbortsOwn (dev : Device) (acts : List BuildAct) : Prop :=
  dev.groups = [] ∨ .groupAbort ∉ acts.takeWhile (· ≠ .groupBegin)

instance (dev : Device) (acts : List BuildAct) : Decidable (dev.AbortsOwn acts) :=
  inferInstanceAs (Decidable (_ ∨ _))

section remark

variable {g : GMark} {v1 v2 : UInt8}

theorem sameView_remark (h : dev.Sound) (h' : (dev.remark g v1 v2).Sound) :
    SameView dev (dev.remark g v1 v2) where
  config := rfl
  device := rfl
  bos := rfl
  eps := rfl
  epMap := rfl
  ifalts := rfl
  epReserved := rfl
  ctrl := rfl
  ctrlDefault := rfl
  setAltTab := rfl
  msos := rfl
  groups := rfl
  vendors hne := by
    rcases h.vendors with ⟨h1, h2⟩ | ⟨-, -, hnil⟩
    · rcases h'.vendors with ⟨h1', h2'⟩ | ⟨-, -, hnil⟩
      · exact ⟨h1'.trans h1.symm, h2'.trans h2.symm⟩
      · exact absurd hnil hne
    · exact absurd hnil hne

theorem run_remark_self (dev : Device) (v1 v2 : UInt8) (acts : List BuildAct) :
    ∃ v1' v2', (dev.remark dev.gmark v1 v2).run acts =
      ((dev.run acts).1.remark (dev.run acts).1.gmark v1' v2', (dev.run acts).2) := by
  induction acts generalizing dev v1 v2 with
  | nil => exact ⟨v1, v2, rfl⟩
  | cons act acts ih =>
    have hact : ∃ v1' v2', (dev.remark dev.gmark v1 v2).apply act =
        ((dev.apply act).1.remark (dev.apply act).1.gmark v1' v2', (dev.apply act).2) := by
      by_cases hbegin : act = .groupBegin
      · subst hbegin
        by_cases hroom : dev.groups.length < groupsCap
        · exact ⟨v1, v2, by simp only [apply, dev.groupBegin_remark _ v1 v2 hroom]⟩
        · exact ⟨v1, v2, by
            simp only [apply, groupBegin_full dev hroom,
              groupBegin_full (dev.remark dev.gmark v1 v2) hroom]⟩
      · rw [apply_gmark hbegin]
        by_cases habort : act = .groupAbort
        · subst habort
          exact ⟨v1, v2, congrArg (·, BuildRet.void) (dev.groupAbort_remark v1 v2)⟩
        · exact dev.apply_remark _ v1 v2 hbegin habort
    obtain ⟨v1', v2', hact⟩ := hact
    obtain ⟨v1'', v2'', hrest⟩ := ih (dev.apply act).1 v1' v2'
    exact ⟨v1'', v2'', by simp only [run, hact, hrest]⟩

/-- With another mark, calls do the same as long as they do not roll back with it. -/
theorem run_remark (dev : Device) (g : GMark) (v1 v2 : UInt8) {acts : List BuildAct}
    (hroom : dev.groups.length < groupsCap) (hown : dev.AbortsOwn acts) :
    ∃ g' v1' v2', (dev.remark g v1 v2).run acts =
      ((dev.run acts).1.remark g' v1' v2', (dev.run acts).2) := by
  induction acts generalizing dev v1 v2 with
  | nil => exact ⟨g, v1, v2, rfl⟩
  | cons act acts ih =>
    by_cases hbegin : act = .groupBegin
    · subst hbegin
      obtain ⟨v1', v2', hrest⟩ := run_remark_self dev.groupBegin.1 v1 v2 acts
      refine ⟨(dev.groupBegin.1.run acts).1.gmark, v1', v2', ?_⟩
      simp only [run, apply, dev.groupBegin_remark g v1 v2 hroom, hrest]
    · by_cases habort : act = .groupAbort
      · subst habort
        have hnil : dev.groups = [] := hown.resolve_right fun h => h (by simp)
        have hnone : ∀ d : Device, d.groups = [] → d.groupAbort = d := fun d hd =>
          if_pos (by rw [hd]; rfl)
        obtain ⟨g', v1', v2', hrest⟩ := ih dev v1 v2 hroom (.inl hnil)
        refine ⟨g', v1', v2', ?_⟩
        simp only [run, apply, hnone (dev.remark g v1 v2) hnil, hnone dev hnil, hrest]
      · obtain ⟨v1', v2', hact⟩ := dev.apply_remark g v1 v2 hbegin habort
        have hlen := dev.apply_groups_length hbegin habort
        have hown' : (dev.apply act).1.AbortsOwn acts := by
          rcases hown with hnil | hnot
          · exact .inl (List.eq_nil_of_length_eq_zero (by rw [hlen, hnil]; rfl))
          · refine .inr fun hmem => hnot ?_
            rw [List.takeWhile_cons_of_pos (by simpa using hbegin)]
            exact List.mem_cons_of_mem _ hmem
        obtain ⟨g', v1'', v2'', hrest⟩ := ih _ v1' v2' (by rw [hlen]; exact hroom) hown'
        exact ⟨g', v1'', v2'', by simp only [run, hact, hrest]⟩

end remark

/-- The device at the end of a group whose calls spare what is older. -/
theorem Kept.run (h : Kept s₀ s) (hsound : s₀.Sound)
    (hfresh : ∀ entry ∈ s₀.msos, entry.group ≠ s₀.groups.length) {acts : List BuildAct}
    (hin : ∀ act ∈ acts, InGroup s₀.groups.length act) (hspares : Guarded step Spares s acts) :
    Kept s₀ (s.run acts).1 :=
  guarded_invariant (f := step)
    (fun _ _ _ hkept hact hst => Option.some.inj hst ▸ hkept.apply hsound hfresh hact.1 hact.2) h
    ((Guarded.of_forall hin s).and hspares) (s.exec_step acts)

/-- The device before a group that is begun after the calls `pre`, and the device after the group's
own calls `acts` and its abort. -/
def beforeGroup (header : DeviceHeader) (pre : List BuildAct) : Device :=
  ((create header).run pre).1

def afterAbort (header : DeviceHeader) (pre acts : List BuildAct) : Device :=
  (((beforeGroup header pre).groupBegin.1.run acts).1).groupAbort

/-- A group whose calls spare what is older leaves no trace when it is aborted, as long as the calls
after it do not abort an older group. -/
theorem abort_restores {header : DeviceHeader} {pre acts further : List BuildAct}
    (hroom : (beforeGroup header pre).groups.length < groupsCap)
    (hin : ∀ act ∈ acts, InGroup (beforeGroup header pre).groups.length act)
    (hfresh : ∀ entry ∈ (beforeGroup header pre).msos,
      entry.group ≠ (beforeGroup header pre).groups.length)
    (hspares : Guarded step Spares (beforeGroup header pre).groupBegin.1 acts)
    (hown : (beforeGroup header pre).AbortsOwn further) :
    Agree (beforeGroup header pre) (afterAbort header pre acts) further := by
  have hsound : (beforeGroup header pre).Sound := (Sound.create header).run pre
  have hkept := (Kept.begin hsound hroom).run hsound hfresh hin hspares
  have heq : afterAbort header pre acts = _ := hkept.groupAbort hsound hfresh
  have hafter : (afterAbort header pre acts).Sound := hkept.sound.groupAbort
  rw [heq] at hafter ⊢
  obtain ⟨g, v1, v2, hrun⟩ := run_remark _ _ _ _ hroom hown
  have hlast := hafter.run further
  rw [hrun] at hlast
  rw [Agree, hrun]
  exact ⟨rfl, sameView_remark (hsound.run further) hlast⟩

/-- An advertisement for the aborted group leaves its `bcdUSB`. -/
theorem abort_restores_fails :
    ¬∀ header pre acts further, (beforeGroup header pre).groups.length < groupsCap →
      (∀ act ∈ acts, InGroup (beforeGroup header pre).groups.length act) →
        Agree (beforeGroup header pre) (afterAbort header pre acts) further := by
  intro h
  have hagree := h ⟨0, 0, 0, 0, 0, 0, 0, 0, 0⟩ [] [.enableMsos 0 none none] [] (by decide)
    (List.forall_mem_singleton.mpr rfl)
  exact absurd hagree.2.device (by decide)

/-- A group with an interface of its own, on a device that has one already. -/
def groupPre : List BuildAct :=
  [.add (.addDescriptor (interfaceDesc 0 0)), .add (.addEndpoint (endpointDesc 0x81)), .enableWebusb]

def groupActs : List BuildAct :=
  [.add (.addDescriptor (interfaceDesc 1 0)), .add (.addEndpoint (endpointDesc 0x81)),
    .add (.reserveEndpoint 0x02), .onControl 1 ⟨some 0, 0⟩, .enableMsos 0 none none]

def groupFurther : List BuildAct :=
  [.groupBegin, .add (.addDescriptor (interfaceDesc 1 0)), .groupAbort]

theorem abort_restores_groupActs :
    Agree (beforeGroup ⟨0, 0, 0, 0, 0, 0, 0, 0, 0⟩ groupPre)
      (afterAbort ⟨0, 0, 0, 0, 0, 0, 0, 0, 0⟩ groupPre groupActs) groupFurther :=
  abort_restores (by decide) (by simp [groupActs, InGroup]; rfl) (fun _ h => nomatch h) (by decide)
    (by decide)

end Device

end Usbip
