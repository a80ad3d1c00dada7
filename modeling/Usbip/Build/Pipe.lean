import Usbip.Build.Addresses
import Usbip.Serve.Owner

/-! The pipe behind an address. A device that has been built serves URBs through its routing table,
which has one slot for each number and direction and which selecting an alternate setting does not
change; an endpoint is the pipe behind its address as long as that slot names it. -/

namespace Usbip

open Lib Device

namespace AddTrace

/-- The endpoint table and the routing table, by the descriptors placed. -/
structure Mapped (t : AddTrace) : Prop where
  addrs_eq : t.dev.eps.map Ep.addr = addrs t.placed
  /-- the slot of an address names the last endpoint that carries it -/
  latest : ∀ before a bytes after, t.placed = before ++ .endpoint a bytes :: after →
    a ∉ addrs after → t.dev.epMap (epNumber a) (epDir a) = some (addrs before).length

variable {t t' : AddTrace} {desc : List UInt8}

theorem Mapped.new (header : DeviceHeader) : (new header).Mapped where
  addrs_eq := rfl
  latest before a bytes after h := absurd h (by simp [AddTrace.new])

theorem Mapped.length_eq (h : t.Mapped) : t.dev.eps.length = (addrs t.placed).length := by
  rw [← h.addrs_eq, List.length_map]

/-- A descriptor that is no endpoint's leaves both tables as they are. -/
theorem Mapped.concat (h : t.Mapped) {p : Placed} (hp : p.addr = none) {dev : Device}
    (heps : dev.eps = t.dev.eps) (hmap : dev.epMap = t.dev.epMap) :
    Mapped { t with dev, placed := t.placed ++ [p] } where
  addrs_eq := by rw [heps, h.addrs_eq, addrs_concat, hp, Option.toList_none, List.append_nil]
  latest before a bytes after heq hnot := by
    rw [hmap]
    cases after using List.reverseRecOn with
    | nil =>
      obtain ⟨-, hlast⟩ := List.append_inj' heq rfl
      cases hlast
      cases hp
    | append_singleton after q =>
      rw [← List.cons_append, ← List.append_assoc] at heq
      obtain ⟨hplaced, -⟩ := List.append_inj' heq rfl
      rw [addrs_concat, List.mem_append, not_or] at hnot
      exact h.latest before a bytes after hplaced hnot.1

/-- An address that is carried is one that names a number and a direction. -/
theorem Mapped.epAddr_eq (h : t.Mapped) (hn : t.Numbered) {a : UInt8} (ha : a ∈ addrs t.placed) :
    epAddr (epNumber a) (epDir a) = a := by
  rw [← h.addrs_eq] at ha
  obtain ⟨ep, hep, rfl⟩ := List.mem_map.mp ha
  have hlt := hn.tables.lt ep hep
  rw [hn.tables.addr ep hep, epNumber_epAddr _ hlt, epDir_epAddr _ hlt]

theorem mem_addrs {a : UInt8} {bytes : List UInt8} {before after : List Placed} :
    a ∈ addrs (before ++ .endpoint a bytes :: after) := by
  simp [addrs, Placed.addr]

theorem Mapped.add (h : t.Mapped) (hn : t.Numbered) (hs : AddStep t desc t') : t'.Mapped := by
  cases hs with
  | refused => exact h
  | interface => exact h.concat rfl (by simp; rfl) (by simp; rfl)
  | other => exact h.concat rfl rfl rfl
  | @endpoint number ep dev' _ _ alloc ep_eq attached =>
    subst ep_eq attached
    obtain ⟨take, -⟩ := mayTake_of_allocFor alloc
    constructor
    · simp [Device.append, h.addrs_eq, addrs_concat, Placed.addr]
    · intro before a bytes after heq hnot
      simp only [attachEndpoint_epMap]
      cases after using List.reverseRecOn with
      | nil =>
        obtain ⟨hplaced, hlast⟩ := List.append_inj' heq rfl
        cases hlast
        simp only [newEp, epNumber_epAddr _ take.lt, epDir_epAddr _ take.lt, EpTable.set_self]
        exact congrArg some (h.length_eq.trans (congrArg (fun l => (addrs l).length) hplaced))
      | append_singleton after q =>
        rw [← List.cons_append, ← List.append_assoc] at heq
        obtain ⟨hplaced, hlast⟩ := List.append_inj' heq rfl
        cases hlast
        rw [addrs_concat, List.mem_append, not_or] at hnot
        rw [EpTable.set_of_ne, Device.append]
        · exact h.latest before a bytes after hplaced hnot.1
        · rintro ⟨hnum, hdir⟩
          refine hnot.2 (Option.mem_toList.mpr ?_)
          have ha : a ∈ addrs t.placed := hplaced ▸ mem_addrs
          rw [← h.epAddr_eq hn ha, hnum, hdir]
          rfl

theorem Mapped.apply (h : t.Mapped) (hn : t.Numbered) (act : AddAct) : (t.apply act).Mapped := by
  cases act with
  | addDescriptor desc | addEndpoint desc => exact h.add hn (t.add_step desc)
  | reserveEndpoint wantAddr =>
    have hs := t.reserve_step wantAddr
    generalize ht : t.apply (.reserveEndpoint wantAddr) = t'
    rw [show t.reserve wantAddr = t' from ht] at hs
    cases hs with
    | refused => exact h
    | reserved => exact ⟨h.addrs_eq, h.latest⟩

theorem exists_last_endpoint {a : UInt8} {placed : List Placed} (h : a ∈ addrs placed) :
    ∃ before bytes after, placed = before ++ .endpoint a bytes :: after ∧ a ∉ addrs after := by
  induction placed with
  | nil => cases h
  | cons p placed ih =>
    by_cases hin : a ∈ addrs placed
    · obtain ⟨before, bytes, after, rfl, hnot⟩ := ih hin
      exact ⟨p :: before, bytes, after, rfl, hnot⟩
    · obtain ⟨q, hq, ha⟩ := List.mem_filterMap.mp h
      rcases List.mem_cons.mp hq with rfl | hq
      · cases q with
        | endpoint addr bytes =>
          cases ha
          exact ⟨[], bytes, placed, rfl, hin⟩
        | interface | other => cases ha
      · exact absurd (List.mem_filterMap.mpr ⟨q, hq, ha⟩) hin

/-- The slot of an address that comes again names a later endpoint. -/
theorem Mapped.later (h : t.Mapped) {before after : List Placed} {a : UInt8} {bytes : List UInt8}
    (hplaced : t.placed = before ++ .endpoint a bytes :: after) (hagain : a ∈ addrs after) :
    ∃ e, t.dev.epMap (epNumber a) (epDir a) = some e ∧ (addrs before).length < e := by
  obtain ⟨mid, bytes', rest, rfl, hnot⟩ := exists_last_endpoint hagain
  refine ⟨_, h.latest (before ++ .endpoint a bytes :: mid) a bytes' rest (by simp [hplaced]) hnot,
    ?_⟩
  simp [addrs, Placed.addr]

theorem exec_mapped {acts : List AddAct} (h : exec step t acts = some t')
    (hi : t.Numbered ∧ t.Mapped) : t'.Numbered ∧ t'.Mapped := by
  refine exec_invariant (I := fun t => t.Numbered ∧ t.Mapped) (fun t act t' hi hs => ?_) hi h
  cases hs
  exact ⟨hi.1.apply act, hi.2.apply hi.1 act⟩

theorem placed_within (act : AddAct) : t.placed <+: (t.apply act).placed := by
  cases act with
  | reserveEndpoint wantAddr => exact List.prefix_rfl
  | addDescriptor desc | addEndpoint desc =>
    have hs := t.add_step desc
    rw [apply]
    generalize t.add desc = t' at hs
    cases hs with
    | refused => exact List.prefix_rfl
    | interface | endpoint | other => exact List.prefix_append _ _

theorem exec_placed_within {acts : List AddAct} (h : exec step t acts = some t') :
    t.placed <+: t'.placed :=
  exec_invariant (I := fun t' => t.placed <+: t'.placed)
    (fun t act t' hi hs => by cases hs; exact hi.trans (placed_within act)) List.prefix_rfl h

/-- `usbip_device_add_endpoint` returned the handle `e` while the device was built, for an endpoint
of the alternate setting. -/
def Handle (header : DeviceHeader) (t : AddTrace) (e : EpId) (ifnum alt : UInt8) : Prop :=
  ∃ before desc after t₀, exec step (new header) before = some t₀ ∧
    t₀.dev.cur = some (ifnum, alt) ∧ byteAt desc 1 = usbDtEndpoint ∧
    (t₀.dev.addEndpoint desc).2 = some e ∧
    exec step (t₀.apply (.addEndpoint desc)) after = some t

/-- The descriptor that a handle stands for is the one with as many endpoint descriptors before
it. -/
theorem Handle.placed {header : DeviceHeader} {e : EpId} {ifnum alt : UInt8}
    (h : t.Handle header e ifnum alt) : t.Numbered ∧ t.Mapped ∧
      ∃ before a bytes after, t.placed = before ++ .endpoint a bytes :: after ∧
        e = (addrs before).length := by
  obtain ⟨pre, desc, post, t₀, hpre, -, kind, hret, hpost⟩ := h
  obtain ⟨hn, hm⟩ := exec_mapped hpre ⟨.new header, .new header⟩
  obtain ⟨hn', hm'⟩ := exec_mapped hpost ⟨hn.apply _, hm.apply hn _⟩
  obtain ⟨after, hafter⟩ := exec_placed_within hpost
  refine ⟨hn', hm', ?_⟩
  rw [addEndpoint_handle kind] at hret
  obtain ⟨accepted, hret⟩ := Option.ite_none_right_eq_some.mp hret
  cases hret
  have hs := t₀.add_step desc
  rw [apply] at hafter
  generalize t₀.add desc = t₁ at hs hafter
  cases hs with
  | refused hnot => exact absurd accepted hnot
  | interface _ hif => exact absurd (hif.symm.trans kind) (by decide)
  | other _ _ hep => exact absurd kind hep
  | endpoint =>
    exact ⟨t₀.placed, _, _, after, by rw [← hafter, List.append_assoc]; rfl, hm.length_eq⟩

end AddTrace

/-- What serving reads of a device that has been built. `onOut` says which endpoints have an
`usbip_ep_on_out` callback. -/
def Device.plugged (dev : Device) (onOut : EpId → Bool) (isoPaced : Bool) : Plugged where
  epMap := dev.epMap
  eps := List.range dev.eps.length
  isIso e := dev.eps[e]?.any fun ep => ep.type = 1
  onOut
  isoPaced

/-- `USB_REQ_SET_INTERFACE`, as the interface and the alternate setting it selects. -/
def setInterface (setup : Setup) : Option (UInt8 × UInt8) :=
  if (setup.bmRequestType >>> 5) &&& 3 = 0 ∧ setup.bRequest = 11 then
    some (setup.wIndex.toUInt8, setup.wValue.toUInt8)
  else none

/-- A device that serves, and the alternate setting of each interface that the hosts have
selected. -/
structure HostTrace where
  dev : DevState
  selected : UInt8 → UInt8

namespace HostTrace

def new (dev : Plugged) : HostTrace := ⟨.new dev, fun _ => 0⟩

/-- A SET_INTERFACE that is answered selects, and a SET_CONFIGURATION selects the settings 0. -/
def select (t : HostTrace) : DevAct → UInt8 → UInt8
  | .conn c a =>
    match t.dev.conns[c]?.map Conn.serving, a with
    | some (.control sub), .handler .. =>
      match setInterface sub.setup with
      | some (ifnum, alt) => fun n => if n = ifnum then alt else t.selected n
      | none => t.selected
    | some (.control sub), .serve =>
      if haltRequest sub.setup = some .setConfiguration then fun _ => 0 else t.selected
    | _, _ => t.selected
  | .connect | .app .. => t.selected

def step (dev : Plugged) (t : HostTrace) (a : DevAct) : Option HostTrace :=
  (t.dev.step dev a).map fun (s, _) => ⟨s, t.select a⟩

end HostTrace

/-- Endpoint `e` is the pipe behind an address: what the serve threads do for that address, they do
on `e`, and the URBs on `e`, which its writes feed, are URBs for that address. -/
structure Pipe (dev : Plugged) (s : DevState) (e : EpId) (addr : UInt8) : Prop where
  urb : ∀ (c : ConnId) (conn : Conn) (sub : Submit), s.conns[c]? = some conn →
    conn.serving = .idle → sub.urb.ep.toNat = epNumber addr → sub.urb.direction = epDir addr →
    ¬(dev.isIso e ∧ 0 < sub.numberOfPackets) →
      (conn.step dev s.eps c (.submit sub)).map (·.2.1) =
        some (some (e, .dispatch { sub.urb with conn := c }))
  /-- an isochronous URB is stalled while `e` is halted, and filled at once while it is not -/
  iso : ∀ (c : ConnId) (conn : Conn) (sub : Submit), s.conns[c]? = some conn →
    conn.serving = .idle → sub.urb.ep.toNat = epNumber addr → sub.urb.direction = epDir addr →
    dev.isIso e = true → 0 < sub.numberOfPackets →
      dev.route sub.urb.ep sub.urb.direction = some e ∧
        (conn.step dev s.eps c (.submit sub)).map (fun r => (r.1.serving, r.2.1)) =
          some (if (s.eps e).halted then
              .answer { sub.urb with conn := c } usbipStatusStall .null 0
            else .iso { sub with urb := { sub.urb with conn := c } }, none)
  own : ∀ u ∈ (s.eps e).carried, u.ep.toNat = epNumber addr ∧ u.direction = epDir addr
  setHalt : ∀ (c : ConnId) (conn : Conn) (sub : Submit) (a : UInt8), s.conns[c]? = some conn →
    conn.serving = .control sub → haltRequest sub.setup = some (.setFeature a) →
    epNumber a = epNumber addr → epDir a = epDir addr →
      (conn.step dev s.eps c .serve).map (·.2.1) = some (some (e, .stall))
  clearHalt : ∀ (c : ConnId) (conn : Conn) (sub : Submit) (a : UInt8), s.conns[c]? = some conn →
    conn.serving = .control sub → haltRequest sub.setup = some (.clearFeature a) →
    epNumber a = epNumber addr → epDir a = epDir addr →
      (conn.step dev s.eps c .serve).map (·.2.1) = some (some (e, .clearHalt))
  unlink : ∀ (c : ConnId) (conn : Conn) (seqnum unlinkSeqnum : UInt32) (slots : List (Nat × Dir)),
    s.conns[c]? = some conn →
    conn.serving = .unlinking seqnum unlinkSeqnum ((epNumber addr, epDir addr) :: slots) →
      (conn.step dev s.eps c .serve).map (·.2.1) = some (some (e, .unlink unlinkSeqnum))

section slot

variable {dev : Plugged} {s : DevState} {e : EpId} {addr : UInt8} {c : ConnId} {conn : Conn}

theorem route_of_epMap {sub : Submit} (hmap : dev.epMap (epNumber addr) (epDir addr) = some e)
    (hep : sub.urb.ep.toNat = epNumber addr) (hdir : sub.urb.direction = epDir addr) :
    dev.route sub.urb.ep sub.urb.direction = some e := by
  rw [Plugged.route, if_pos (UInt32.lt_iff_toNat_lt.mpr (hep ▸ epNumber_lt addr)), hep, hdir, hmap]

theorem ep_ne_zero {sub : Submit} (hpos : 0 < epNumber addr)
    (hep : sub.urb.ep.toNat = epNumber addr) : sub.urb.ep ≠ 0 := fun h0 => by
  rw [h0] at hep
  exact absurd hep (Nat.ne_of_lt hpos)

/-- A URB is dispatched on the endpoint that the slot of its address names. -/
theorem submit_section {sub : Submit} (hpos : 0 < epNumber addr)
    (hmap : dev.epMap (epNumber addr) (epDir addr) = some e) (hidle : conn.serving = .idle)
    (hep : sub.urb.ep.toNat = epNumber addr) (hdir : sub.urb.direction = epDir addr)
    (hiso : ¬(dev.isIso e ∧ 0 < sub.numberOfPackets)) :
    (conn.step dev s.eps c (.submit sub)).map (·.2.1) =
      some (some (e, .dispatch { sub.urb with conn := c })) := by
  have hne := ep_ne_zero hpos hep
  have hroute := route_of_epMap hmap hep hdir
  simp [Conn.step, hidle, Conn.dispatch, hne, hroute, hiso]

/-- An isochronous URB is taken for the endpoint that the slot of its address names. -/
theorem submit_iso {sub : Submit} (hpos : 0 < epNumber addr)
    (hmap : dev.epMap (epNumber addr) (epDir addr) = some e) (hidle : conn.serving = .idle)
    (hep : sub.urb.ep.toNat = epNumber addr) (hdir : sub.urb.direction = epDir addr)
    (hiso : dev.isIso e = true) (hpackets : 0 < sub.numberOfPackets) :
    (conn.step dev s.eps c (.submit sub)).map (fun r => (r.1.serving, r.2.1)) =
      some (if (s.eps e).halted then .answer { sub.urb with conn := c } usbipStatusStall .null 0
        else .iso { sub with urb := { sub.urb with conn := c } }, none) := by
  have hne := ep_ne_zero hpos hep
  have hroute := route_of_epMap hmap hep hdir
  by_cases hhalt : (s.eps e).halted <;>
    simp [Conn.step, hidle, Conn.dispatch, hne, hroute, hiso, hpackets, hhalt]

theorem Pipe.of_epMap (hpos : 0 < epNumber addr)
    (hmap : dev.epMap (epNumber addr) (epDir addr) = some e)
    (hown : ∀ u ∈ (s.eps e).carried, u.ep.toNat = epNumber addr ∧ u.direction = epDir addr) :
    Pipe dev s e addr where
  own := hown
  urb c conn sub _ hidle hep hdir hiso := submit_section hpos hmap hidle hep hdir hiso
  iso c conn sub _ hidle hep hdir hiso hpackets :=
    ⟨route_of_epMap hmap hep hdir, submit_iso hpos hmap hidle hep hdir hiso hpackets⟩
  setHalt c conn sub a _ hcontrol hreq hnum hdir := by
    have he : dev.epByAddr a = some e := by rw [← hmap, ← hnum, ← hdir]; rfl
    simp [Conn.step, Conn.serve, hcontrol, hreq, Conn.handleControl, he]
  clearHalt c conn sub a _ hcontrol hreq hnum hdir := by
    have he : dev.epByAddr a = some e := by rw [← hmap, ← hnum, ← hdir]; rfl
    simp [Conn.step, Conn.serve, hcontrol, hreq, Conn.handleControl, he]
  unlink c conn seqnum unlinkSeqnum slots _ hunlinking := by
    simp [Conn.step, Conn.serve, hunlinking, hmap]

/-- An idle connection finds out which endpoint is the pipe. -/
theorem Pipe.eq_of_epMap {e' : EpId} (h : Pipe dev s e addr) (hpos : 0 < epNumber addr)
    (hmap : dev.epMap (epNumber addr) (epDir addr) = some e') (hfound : s.conns[c]? = some conn)
    (hidle : conn.serving = .idle) : e = e' := by
  let sub : Submit :=
    { urb := { Urb.bulkIn 0 1 64 with ep := (epNumber addr).toUInt32, direction := epDir addr }
      setup := ⟨0, 0, 0, 0, 0⟩, numberOfPackets := 0, iso := [] }
  have hep : sub.urb.ep.toNat = epNumber addr :=
    UInt32.toNat_ofNat_of_lt' (Nat.lt_trans (epNumber_lt addr) (by decide))
  have hthis := h.urb c conn sub hfound hidle hep rfl (fun hiso => absurd hiso.2 (Int.lt_irrefl 0))
  have hother := submit_section (s := s) (c := c) hpos hmap hidle hep rfl
    (fun hiso => absurd hiso.2 (Int.lt_irrefl 0))
  have := hthis.symm.trans hother
  simp only [Option.some.injEq, Prod.mk.injEq] at this
  exact this.1

end slot

/-- A host sends this to select an alternate setting. -/
def Submit.setInterface (ifnum alt : UInt8) : Submit where
  urb := { Urb.bulkIn 0 1 0 with ep := 0, direction := .usbOut }
  setup := ⟨1, 11, alt.toUInt16, ifnum.toUInt16, 0⟩
  numberOfPackets := 0
  iso := []

/-- Two hosts attach, and the first one selects the alternate setting. -/
def selectRun (ifnum alt : UInt8) : List DevAct :=
  [.connect, .connect, .conn 0 (.submit (.setInterface ifnum alt)),
    .conn 0 (.handler 0 .null 0)]

theorem haltRequest_setInterface (wValue wIndex : UInt16) :
    haltRequest ⟨1, 11, wValue, wIndex, 0⟩ = none := by
  have htype : (1 : UInt8) >>> 5 &&& 3 = 0 := by decide
  simp [haltRequest, htype]

theorem setInterface_setup (ifnum alt : UInt8) :
    setInterface ⟨1, 11, alt.toUInt16, ifnum.toUInt16, 0⟩ = some (ifnum, alt) := by
  have htype : (1 : UInt8) >>> 5 &&& 3 = 0 := by decide
  simp [setInterface, htype]

theorem exec_selectRun (dev : Plugged) (ifnum alt : UInt8) :
    ∃ s, exec (HostTrace.step dev) (.new dev) (selectRun ifnum alt) = some s ∧
      s.selected ifnum = alt ∧ s.dev.conns[1]? = some .new := by
  have hsubmitted : exec (HostTrace.step dev) (.new dev) (selectRun ifnum alt) =
      (HostTrace.step dev ⟨⟨fun e => .new (dev.onOut e),
        [{ Conn.new with serving := .control (.setInterface ifnum alt) }, .new]⟩, fun _ => 0⟩
        (.conn 0 (.handler 0 .null 0))).bind some := rfl
  rw [hsubmitted]
  simp [HostTrace.step, DevState.step, Conn.step, Submit.setInterface, haltRequest_setInterface,
    HostTrace.select, setInterface_setup, DevState.runSection, DevState.setConn]

/-- The endpoint is the pipe behind its address whenever its alternate setting is selected. -/
def StaysPipe (dev : Plugged) (e : EpId) (addr ifnum alt : UInt8) : Prop :=
  ∀ acts s, exec (HostTrace.step dev) (.new dev) acts = some s → s.selected ifnum = alt →
    Pipe dev s.dev e addr

theorem routed_of_exec {dev : Plugged} {acts : List DevAct} {s : HostTrace}
    (h : exec (HostTrace.step dev) (.new dev) acts = some s) : s.dev.Routed dev := by
  refine exec_invariant (I := fun s => s.dev.Routed dev) (fun s a s' hi hs => ?_)
    (DevState.routed_new dev) h
  obtain ⟨⟨d, events⟩, hstep, rfl⟩ := Option.map_eq_some_iff.mp hs
  exact hi.step (DevState.step_step hstep)

namespace AddTrace

/-- The endpoints after `e` carry the addresses of the descriptors after its own. -/
theorem Mapped.later_iff {t : AddTrace} (h : t.Mapped) {before after : List Placed} {a : UInt8}
    {bytes : List UInt8} (hplaced : t.placed = before ++ .endpoint a bytes :: after) :
    a ∉ addrs after ↔
      ∀ e ep, (addrs before).length < e → t.dev.eps[e]? = some ep → ep.addr ≠ a := by
  have haddrs : t.dev.eps.map Ep.addr = addrs before ++ a :: addrs after := by
    rw [h.addrs_eq, hplaced]
    simp [addrs, Placed.addr]
  constructor
  · rintro hnot e ep hlt hep rfl
    obtain ⟨k, rfl⟩ := Nat.exists_eq_add_of_lt hlt
    have hk : (t.dev.eps.map Ep.addr)[(addrs before).length + k + 1]? = some ep.addr := by
      rw [List.getElem?_map, hep, Option.map_some]
    rw [haddrs, List.getElem?_append_right (by omega),
      show (addrs before).length + k + 1 - (addrs before).length = k + 1 by omega,
      List.getElem?_cons_succ] at hk
    exact hnot (List.mem_of_getElem? hk)
  · intro hall hmem
    obtain ⟨k, hk⟩ := List.mem_iff_getElem?.mp hmem
    have he : (t.dev.eps.map Ep.addr)[(addrs before).length + (k + 1)]? = some a := by
      rw [haddrs, List.getElem?_append_right (by omega), Nat.add_sub_cancel_left,
        List.getElem?_cons_succ, hk]
    rw [List.getElem?_map, Option.map_eq_some_iff] at he
    obtain ⟨ep, hep, haddr⟩ := he
    exact hall _ ep (by omega) hep haddr

/-- The last endpoint with an address is the pipe behind it in every run. -/
theorem pipe_of_last {t : AddTrace} (hn : t.Numbered) (hm : t.Mapped) {before after : List Placed}
    {a : UInt8} {bytes : List UInt8} (hplaced : t.placed = before ++ .endpoint a bytes :: after)
    (hlast : a ∉ addrs after) (onOut : EpId → Bool) (isoPaced : Bool) (ifnum alt : UInt8) :
    StaysPipe (t.dev.plugged onOut isoPaced) (addrs before).length a ifnum alt := by
  intro acts s hs _
  have hslot := hm.latest before a bytes after hplaced hlast
  obtain ⟨ep, hep, hnumber, -⟩ := hn.tables.slot hslot
  have hpos := hn.tables.pos ep (List.mem_of_getElem? hep)
  rw [hnumber] at hpos
  refine .of_epMap hpos hslot fun u hu => ?_
  have hroute := routed_of_exec hs _ u hu
  rw [Plugged.route] at hroute
  split at hroute
  · obtain ⟨ep', hep', hnumber', hdir'⟩ := hn.tables.slot hroute
    obtain ⟨ep'', hep'', hnumber'', hdir''⟩ := hn.tables.slot hslot
    cases hep'.symm.trans hep''
    exact ⟨hnumber'.symm.trans hnumber'', hdir'.symm.trans hdir''⟩
  · cases hroute

/-- An endpoint whose address comes again is not the pipe once its setting is selected. -/
theorem not_pipe_of_again {t : AddTrace} (hn : t.Numbered) (hm : t.Mapped)
    {before after : List Placed} {a : UInt8} {bytes : List UInt8}
    (hplaced : t.placed = before ++ .endpoint a bytes :: after) (hagain : a ∈ addrs after)
    (onOut : EpId → Bool) (isoPaced : Bool) (ifnum alt : UInt8) :
    ¬StaysPipe (t.dev.plugged onOut isoPaced) (addrs before).length a ifnum alt := by
  intro h
  obtain ⟨e, hslot, hlt⟩ := hm.later hplaced hagain
  obtain ⟨ep, hep, hnumber, -⟩ := hn.tables.slot hslot
  have hpos := hn.tables.pos ep (List.mem_of_getElem? hep)
  rw [hnumber] at hpos
  obtain ⟨s, hs, hselected, hconn⟩ := exec_selectRun (t.dev.plugged onOut isoPaced) ifnum alt
  exact Nat.ne_of_lt hlt ((h _ s hs hselected).eq_of_epMap hpos hslot hconn rfl)

/-- An endpoint handle is the pipe behind its address, in every run and whenever its alternate
setting is selected, if and only if no endpoint added later has its address. -/
theorem stays_pipe_iff {header : DeviceHeader} {t : AddTrace} {e : EpId} {ifnum alt : UInt8}
    {ep : Ep} (h : t.Handle header e ifnum alt) (hep : t.dev.eps[e]? = some ep)
    (onOut : EpId → Bool) (isoPaced : Bool) :
    StaysPipe (t.dev.plugged onOut isoPaced) e ep.addr ifnum alt ↔
      ∀ e' ep', e < e' → t.dev.eps[e']? = some ep' → ep'.addr ≠ ep.addr := by
  obtain ⟨hn, hm, before, a, bytes, after, hplaced, rfl⟩ := h.placed
  have haddr : ep.addr = a := by
    have := congrArg (·[(addrs before).length]?) hm.addrs_eq
    simp [hplaced, addrs, Placed.addr] at this
    obtain ⟨ep', hep', haddr⟩ := this
    cases hep.symm.trans hep'
    exact haddr
  rw [haddr, ← hm.later_iff hplaced]
  refine ⟨fun hstays hagain => ?_, fun hlast => ?_⟩
  · exact not_pipe_of_again hn hm hplaced hagain onOut isoPaced ifnum alt hstays
  · exact pipe_of_last hn hm hplaced hlast onOut isoPaced ifnum alt

/-- Two alternate settings of one interface with one address. -/
def reusedRun : List AddAct :=
  [.addDescriptor (interfaceDesc 0 0), .addEndpoint (endpointDesc 0x81),
    .addDescriptor (interfaceDesc 0 1), .addEndpoint (endpointDesc 0x81)]

/-- The first endpoint of `reusedRun` is not the pipe behind its address. -/
theorem stays_pipe_fails :
    ¬∀ header t e ifnum alt ep onOut isoPaced, Distinct t → Handle header t e ifnum alt →
      t.dev.eps[e]? = some ep →
        StaysPipe (t.dev.plugged onOut isoPaced) e ep.addr ifnum alt := by
  intro h
  let header : DeviceHeader := ⟨0, 0, 0, 0, 0, 0, 0, 0, 0⟩
  let t := reusedRun.foldl apply (new header)
  have hexec : exec step (new header) reusedRun = some t := rfl
  obtain ⟨hn, hm⟩ := exec_mapped hexec ⟨.new header, .new header⟩
  have hplaced : t.placed = [.interface 0 0 (interfaceDesc 0 0)] ++
      .endpoint 0x81 (endpointDesc 0x81) ::
        [.interface 0 1 (interfaceDesc 0 1), .endpoint 0x81 (endpointDesc 0x81)] := by decide
  have hhandle : t.Handle header 0 0 0 :=
    ⟨[.addDescriptor (interfaceDesc 0 0)], endpointDesc 0x81,
      [.addDescriptor (interfaceDesc 0 1), .addEndpoint (endpointDesc 0x81)], _, rfl, by decide,
      by decide, by decide, rfl⟩
  refine not_pipe_of_again hn hm hplaced (by decide) (fun _ => false) false 0 0 ?_
  exact h header t 0 0 0 (newEp (endpointDesc 0x81) 0 1) (fun _ => false) false (by decide) hhandle
    (by decide)

/-- Two alternate settings with addresses of their own. -/
def ownAddressesRun : List AddAct :=
  [.addDescriptor (interfaceDesc 0 0), .addEndpoint (endpointDesc 0x81),
    .addDescriptor (interfaceDesc 0 1), .addEndpoint (endpointDesc 0x82)]

theorem stays_pipe_iff_on_ownAddressesRun :
    let t := ownAddressesRun.foldl apply (new ⟨0, 0, 0, 0, 0, 0, 0, 0, 0⟩)
    StaysPipe (t.dev.plugged (fun _ => false) false) 0 0x81 0 0 ↔
      ∀ e' ep', 0 < e' → t.dev.eps[e']? = some ep' → ep'.addr ≠ 0x81 := by
  have hhandle : Handle ⟨0, 0, 0, 0, 0, 0, 0, 0, 0⟩
      (ownAddressesRun.foldl apply (new ⟨0, 0, 0, 0, 0, 0, 0, 0, 0⟩)) 0 0 0 :=
    ⟨[.addDescriptor (interfaceDesc 0 0)], endpointDesc 0x81,
      [.addDescriptor (interfaceDesc 0 1), .addEndpoint (endpointDesc 0x82)], _, rfl, by decide,
      by decide, by decide, rfl⟩
  have hep : (ownAddressesRun.foldl apply (new ⟨0, 0, 0, 0, 0, 0, 0, 0, 0⟩)).dev.eps[0]? =
      some (newEp (endpointDesc 0x81) 0 1) := by decide
  exact stays_pipe_iff hhandle hep (fun _ => false) false

end AddTrace

end Usbip
