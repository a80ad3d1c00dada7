import Usbip.Build.Trace

/-! Endpoint numbers. Through any sequence of calls, a number in one direction belongs to one
interface: its endpoints, its reservation, and who may take it next agree. -/

namespace Usbip

open Lib

namespace Device

variable {dev : Device} {owner : UInt8} {number n : Nat} {dir d : Dir}

/-- The endpoint table, the routing table and the reservations agree. -/
structure Tables (dev : Device) : Prop where
  slot : ∀ {n d e}, dev.epMap n d = some e → ∃ ep, dev.eps[e]? = some ep ∧ ep.number = n ∧ ep.dir = d
  pos : ∀ ep ∈ dev.eps, 0 < ep.number
  lt : ∀ ep ∈ dev.eps, ep.number < 16
  addr : ∀ ep ∈ dev.eps, ep.addr = epAddr ep.number ep.dir
  holder : ∀ ep ∈ dev.eps, ∃ other, dev.held ep.number ep.dir = some other ∧ other.ifnum = ep.ifnum
  reserved : ∀ {n d ep}, dev.held n d = some ep →
    dev.epReserved n d = 0 ∨ dev.epReserved n d = ep.ifnum + 1

theorem Tables.create (header : DeviceHeader) : (create header).Tables where
  slot h := nomatch h
  pos _ h := nomatch h
  lt _ h := nomatch h
  addr _ h := nomatch h
  holder _ h := nomatch h
  reserved h := nomatch h

theorem epReservationAllows_iff :
    dev.epReservationAllows owner n d = true ↔
      dev.epReserved n d = 0 ∨ dev.epReserved n d = owner + 1 := decide_eq_true_iff

theorem MayTake.congr {dev' : Device} (h : dev.MayTake owner number dir)
    (hheld : dev'.held number dir = dev.held number dir)
    (hres : dev'.epReserved number dir = dev.epReserved number dir) :
    dev'.MayTake owner number dir where
  pos := h.pos
  lt := h.lt
  own := hheld ▸ h.own
  allows := by rw [epReservationAllows_iff, hres]; exact epReservationAllows_iff.mp h.allows

/-- Nothing of the tables depends on the other fields. -/
theorem Tables.congr {dev' : Device} (h : dev.Tables) (heps : dev'.eps = dev.eps)
    (hmap : dev'.epMap = dev.epMap) (hres : dev'.epReserved = dev.epReserved) : dev'.Tables := by
  have hheld : dev'.held = dev.held := by
    funext n d
    rw [held, held, heps, hmap]
  constructor
  · rw [hmap, heps]; exact h.slot
  · rw [heps]; exact h.pos
  · rw [heps]; exact h.lt
  · rw [heps]; exact h.addr
  · rw [heps, hheld]; exact h.holder
  · rw [hheld, hres]; exact h.reserved

theorem Tables.append (h : dev.Tables) (desc : List UInt8) : (dev.append desc).Tables :=
  h.congr rfl rfl rfl

theorem MayTake.append (h : dev.MayTake owner number dir) (desc : List UInt8) :
    (dev.append desc).MayTake owner number dir := h.congr rfl rfl

theorem epAddr_inj {number n : Nat} {dir d : Dir} (hnumber : number < 16) (hn : n < 16)
    (h : epAddr number dir = epAddr n d) : number = n ∧ dir = d :=
  ⟨by rw [← epNumber_epAddr dir hnumber, h, epNumber_epAddr d hn],
    by rw [← epDir_epAddr dir hnumber, h, epDir_epAddr d hn]⟩

/-- A slot of the routing table is empty when no endpoint has its number. -/
theorem Tables.not_mem_of_epMap (h : dev.Tables) (hmap : dev.epMap n d = none) {ep : Ep}
    (hep : ep ∈ dev.eps) : ¬(ep.number = n ∧ ep.dir = d) := by
  rintro ⟨rfl, rfl⟩
  obtain ⟨other, hheld, -⟩ := h.holder ep hep
  rw [held, hmap] at hheld
  cases hheld

theorem Tables.ifnum_eq (h : dev.Tables) {ep ep' : Ep} (hep : ep ∈ dev.eps) (hep' : ep' ∈ dev.eps)
    (haddr : ep.addr = ep'.addr) : ep.ifnum = ep'.ifnum := by
  rw [h.addr ep hep, h.addr ep' hep'] at haddr
  obtain ⟨hnum, hdir⟩ := epAddr_inj (h.lt ep hep) (h.lt ep' hep') haddr
  obtain ⟨other, hheld, hif⟩ := h.holder ep hep
  obtain ⟨other', hheld', hif'⟩ := h.holder ep' hep'
  rw [← hnum, ← hdir, hheld] at hheld'
  cases hheld'
  exact hif.symm.trans hif'

section attach

variable {dst : Nat} {ep : Ep}

@[simp] theorem attachEndpoint_eps : (dev.attachEndpoint dst ep).eps = dev.eps ++ [ep] := by
  simp [attachEndpoint, enterEndpoint]

@[simp] theorem attachEndpoint_cur : (dev.attachEndpoint dst ep).cur = dev.cur := by
  simp [attachEndpoint, enterEndpoint]

@[simp] theorem attachEndpoint_epMap : (dev.attachEndpoint dst ep).epMap =
    dev.epMap.set ep.number ep.dir (some dev.eps.length) := by simp [attachEndpoint, enterEndpoint]

@[simp] theorem attachEndpoint_epReserved : (dev.attachEndpoint dst ep).epReserved =
    dev.epReserved.set ep.number ep.dir 0 := by simp [attachEndpoint, enterEndpoint]

theorem addEndpoint_handle {desc : List UInt8} (kind : byteAt desc 1 = usbDtEndpoint) :
    (dev.addEndpoint desc).2 = if dev.Accepts desc then some dev.eps.length else none := by
  rw [addEndpoint]
  generalize hr : dev.addDescriptor desc = r
  have hstep := hr ▸ dev.addDescriptor_step desc
  cases hstep with
  | refused hnot =>
    rw [if_neg hnot]
    rfl
  | interface _ hif => exact absurd (hif.symm.trans kind) (by decide)
  | other _ _ hep => exact absurd kind hep
  | endpoint accepted =>
    rw [if_pos accepted]
    simp [newEp, Device.append]

/-- A new endpoint holds its own slot, and every other slot is held as before. -/
theorem Tables.held_attach (h : dev.Tables) (n : Nat) (d : Dir) :
    (dev.attachEndpoint dst ep).held n d =
      if n = ep.number ∧ d = ep.dir then some ep else dev.held n d := by
  rw [held, held, attachEndpoint_epMap, attachEndpoint_eps, EpTable.set]
  split
  · simp
  · cases hmap : dev.epMap n d with
    | none => rfl
    | some e =>
      obtain ⟨other, heps, -⟩ := h.slot hmap
      exact List.getElem?_append_left (List.getElem?_eq_some_iff.mp heps).1

theorem Tables.attach (h : dev.Tables) (htake : dev.MayTake ep.ifnum ep.number ep.dir)
    (haddr : ep.addr = epAddr ep.number ep.dir) : (dev.attachEndpoint dst ep).Tables where
  slot {n d e} hmap := by
    rw [attachEndpoint_epMap, EpTable.set] at hmap
    rw [attachEndpoint_eps]
    split at hmap
    · rename_i hnd
      cases hmap
      exact ⟨ep, by simp, hnd.1.symm, hnd.2.symm⟩
    · obtain ⟨other, heps, hnum⟩ := h.slot hmap
      exact ⟨other, by rw [List.getElem?_append_left (List.getElem?_eq_some_iff.mp heps).1, heps],
        hnum⟩
  pos := by
    rw [attachEndpoint_eps]
    exact List.forall_mem_append.mpr ⟨h.pos, List.forall_mem_singleton.mpr htake.pos⟩
  lt := by
    rw [attachEndpoint_eps]
    exact List.forall_mem_append.mpr ⟨h.lt, List.forall_mem_singleton.mpr htake.lt⟩
  addr := by
    rw [attachEndpoint_eps]
    exact List.forall_mem_append.mpr ⟨h.addr, List.forall_mem_singleton.mpr haddr⟩
  holder := by
    rw [attachEndpoint_eps]
    refine List.forall_mem_append.mpr ⟨fun old hold => ?_, List.forall_mem_singleton.mpr
      ⟨ep, by rw [h.held_attach, if_pos ⟨rfl, rfl⟩], rfl⟩⟩
    obtain ⟨other, hheld, hif⟩ := h.holder old hold
    rw [h.held_attach]
    split
    · rename_i hnd
      rw [hnd.1, hnd.2] at hheld
      exact ⟨ep, rfl, (htake.own other hheld).symm.trans hif⟩
    · exact ⟨other, hheld, hif⟩
  reserved {n d other} hheld := by
    rw [h.held_attach] at hheld
    rw [attachEndpoint_epReserved, EpTable.set]
    split at hheld <;> rename_i hnd
    · exact .inl (if_pos hnd)
    · rw [if_neg hnd]
      exact h.reserved hheld

end attach

theorem Tables.reserve (h : dev.Tables) (htake : dev.MayTake owner number dir) :
    { dev with epReserved := dev.epReserved.set number dir (owner + 1) }.Tables where
  slot := h.slot
  pos := h.pos
  lt := h.lt
  addr := h.addr
  holder := h.holder
  reserved {n d ep} hheld := by
    have hheld : dev.held n d = some ep := hheld
    dsimp only
    by_cases hnd : n = number ∧ d = dir
    · rw [hnd.1, hnd.2] at hheld ⊢
      rw [EpTable.set_self, htake.own ep hheld]
      exact .inr rfl
    · rw [EpTable.set_of_ne _ _ hnd]
      exact h.reserved hheld

/-- No device built by these calls is rejected. -/
theorem Tables.no_conflict (h : dev.Tables) : dev.checkEndpointConflicts = usbSuccess := by
  rw [checkEndpointConflicts, if_neg]
  simp only [List.any_eq_true, not_exists, not_and]
  rintro ep hep hany
  obtain ⟨other, hheld, hif⟩ := h.holder ep hep
  rw [hheld, Option.any_some] at hany
  exact of_decide_eq_true hany hif

/-- The interface has a claim on the number: it reserved it, or has an endpoint there. -/
structure Claimed (dev : Device) (ifnum : UInt8) (number : Nat) (dir : Dir) : Prop where
  take : dev.MayTake ifnum number dir
  claim : (dev.held number dir).isSome ∨ dev.epReserved number dir = ifnum + 1

theorem succ_ne_zero {ifnum : UInt8} (h : ifnum ≠ usbipEpNoIfnum) : ifnum + 1 ≠ 0 := fun h0 =>
  h (by rw [← UInt8.add_sub_cancel ifnum 1, h0]; rfl)

theorem Claimed.eq_of_mayTake {ifnum : UInt8} (h : dev.Claimed ifnum number dir)
    (hne : ifnum ≠ usbipEpNoIfnum) (htake : dev.MayTake owner number dir) : owner = ifnum := by
  rcases h.claim with hheld | hres
  · obtain ⟨ep, hep⟩ := Option.isSome_iff_exists.mp hheld
    exact (htake.own ep hep).symm.trans (h.take.own ep hep)
  · rcases epReservationAllows_iff.mp htake.allows with h0 | hown
    · exact absurd (hres.symm.trans h0) (succ_ne_zero hne)
    · exact (UInt8.add_left_inj 1).mp (hown.symm.trans hres)

theorem Claimed.congr {ifnum : UInt8} {dev' : Device} (h : dev.Claimed ifnum number dir)
    (hheld : dev'.held number dir = dev.held number dir)
    (hres : dev'.epReserved number dir = dev.epReserved number dir) :
    dev'.Claimed ifnum number dir where
  take := h.take.congr hheld hres
  claim := by rw [hheld, hres]; exact h.claim

theorem Claimed.attach {ifnum : UInt8} {dst : Nat} {ep : Ep} (h : dev.Claimed ifnum number dir)
    (hne : ifnum ≠ usbipEpNoIfnum) (htables : dev.Tables)
    (htake : dev.MayTake ep.ifnum ep.number ep.dir) :
    (dev.attachEndpoint dst ep).Claimed ifnum number dir := by
  by_cases hnd : number = ep.number ∧ dir = ep.dir
  · obtain ⟨rfl, rfl⟩ := hnd
    have hif := h.eq_of_mayTake hne htake
    have hheld : (dev.attachEndpoint dst ep).held ep.number ep.dir = some ep := by
      rw [htables.held_attach, if_pos ⟨rfl, rfl⟩]
    refine ⟨⟨htake.pos, htake.lt, fun other hother => ?_, ?_⟩, .inl (by rw [hheld]; rfl)⟩
    · cases hheld.symm.trans hother
      exact hif
    · rw [epReservationAllows_iff, attachEndpoint_epReserved, EpTable.set_self]
      exact .inl rfl
  · exact h.congr (by rw [htables.held_attach, if_neg hnd])
      (by rw [attachEndpoint_epReserved, EpTable.set_of_ne _ _ hnd])

theorem Claimed.reserve {ifnum : UInt8} (h : dev.Claimed ifnum n d) (hne : ifnum ≠ usbipEpNoIfnum)
    (htake : dev.MayTake owner number dir) :
    { dev with epReserved := dev.epReserved.set number dir (owner + 1) }.Claimed ifnum n d := by
  by_cases hnd : n = number ∧ d = dir
  · obtain ⟨rfl, rfl⟩ := hnd
    obtain rfl := h.eq_of_mayTake hne htake
    have hset := EpTable.set_self dev.epReserved n d (owner + 1)
    exact ⟨⟨htake.pos, htake.lt, htake.own, epReservationAllows_iff.mpr (.inr hset)⟩, .inr hset⟩
  · exact h.congr rfl (EpTable.set_of_ne _ _ hnd)

theorem MayTake.claimed (htake : dev.MayTake owner number dir) :
    { dev with epReserved := dev.epReserved.set number dir (owner + 1) }.Claimed owner number
      dir :=
  have hset := EpTable.set_self dev.epReserved number dir (owner + 1)
  ⟨⟨htake.pos, htake.lt, htake.own, epReservationAllows_iff.mpr (.inr hset)⟩, .inr hset⟩

end Device

end Usbip
