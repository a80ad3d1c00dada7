import Usbip.Build.Alloc

/-! The addresses of a configuration: which interface each endpoint descriptor belongs to, what a
reservation promises, and when the addresses of one alternate setting are distinct. -/

namespace Usbip

open Lib Device

/-- An endpoint descriptor with address `a` follows an interface descriptor with number `o`, with no
other interface descriptor between them (`none`: it precedes every interface descriptor). -/
def Belongs (placed : List Placed) (o : Option UInt8) (a : UInt8) : Prop :=
  ∃ before bytes after, placed = before ++ .endpoint a bytes :: after ∧
    (lastHead Placed.setting before).map Prod.fst = o

/-- The addresses of the endpoint descriptors among the items. -/
def addrs (items : List Placed) : List UInt8 := items.filterMap Placed.addr

theorem addrs_concat (items : List Placed) (p : Placed) :
    addrs (items ++ [p]) = addrs items ++ p.addr.toList := by
  rw [addrs, List.filterMap_append]
  cases p <;> rfl

/-- The address that a descriptor asks for. -/
def requested (desc : List UInt8) : UInt8 :=
  epAddr (epNumber (byteAt desc 2)) (epDir (byteAt desc 2))

theorem belongs_concat {placed : List Placed} {p : Placed} {o : Option UInt8} {a : UInt8} :
    Belongs (placed ++ [p]) o a ↔ Belongs placed o a ∨
      p.addr = some a ∧ (lastHead Placed.setting placed).map Prod.fst = o := by
  constructor
  · rintro ⟨before, bytes, after, heq, howner⟩
    cases after using List.reverseRecOn with
    | nil =>
      obtain ⟨rfl, hp⟩ := List.append_inj' heq rfl
      cases hp
      exact .inr ⟨rfl, howner⟩
    | append_singleton after q =>
      rw [← List.cons_append, ← List.append_assoc] at heq
      obtain ⟨rfl, -⟩ := List.append_inj' heq rfl
      exact .inl ⟨before, bytes, after, rfl, howner⟩
  · rintro (⟨before, bytes, after, rfl, howner⟩ | ⟨hp, howner⟩)
    · exact ⟨before, bytes, after ++ [p], by simp, howner⟩
    · cases p with
      | endpoint addr bytes =>
        cases hp
        exact ⟨placed, bytes, [], rfl, howner⟩
      | interface | other => cases hp

theorem belongs_of_mem_lastItems {placed : List Placed} {a : UInt8}
    (h : a ∈ addrs (lastItems Placed.setting placed)) :
    Belongs placed ((lastHead Placed.setting placed).map Prod.fst) a := by
  induction placed using List.reverseRecOn with
  | nil => cases h
  | append_singleton placed p ih =>
    rw [belongs_concat, lastHead_concat]
    cases hp : p.setting with
    | some s =>
      rw [lastItems_concat_head _ hp] at h
      cases h
    | none =>
      rw [lastItems_concat _ hp, addrs_concat, List.mem_append, Option.mem_toList] at h
      rw [Option.none_or]
      exact h.imp ih fun haddr => ⟨haddr, rfl⟩

namespace AddTrace

/-- The record of what is placed agrees with the device's tables. -/
structure Numbered (t : AddTrace) : Prop where
  tables : t.dev.Tables
  current : t.dev.cur = lastHead Placed.setting t.placed
  belongs : ∀ o a, Belongs t.placed o a →
    ∃ ep ∈ t.dev.eps, ep.addr = a ∧ ep.ifnum = o.getD usbipEpNoIfnum

variable {t t' : AddTrace} {desc : List UInt8}

theorem Numbered.new (header : DeviceHeader) : (new header).Numbered where
  tables := .create header
  current := rfl
  belongs o a h := by
    obtain ⟨before, bytes, after, heq, -⟩ := h
    exact absurd heq (by simp [AddTrace.new])

theorem Numbered.owner (h : t.Numbered) :
    t.dev.owner = ((lastHead Placed.setting t.placed).map Prod.fst).getD usbipEpNoIfnum := by
  rw [Device.owner, h.current]

/-- The number found for a descriptor, and what is known of it. -/
theorem mayTake_of_allocFor {dev : Device} {number : Nat} (alloc : dev.allocFor desc = some number) :
    dev.MayTake dev.owner number (epDir (byteAt desc 2)) ∧
      (epAddr number (epDir (byteAt desc 2)) ≠ requested desc →
        dev.epMap number (epDir (byteAt desc 2)) = none) := by
  obtain ⟨take, fresh⟩ := epAllocNumber_some (epNumber_lt _) alloc
  exact ⟨take, fun hne => fresh fun heq => hne (by rw [heq, requested])⟩

theorem Numbered.add (h : t.Numbered) (hs : AddStep t desc t') : t'.Numbered := by
  cases hs with
  | refused => exact h
  | interface _ kind =>
    refine ⟨h.tables.congr (by simp; rfl) (by simp; rfl) (by simp; rfl), ?_, fun o a hb => ?_⟩
    · simp [lastHead_concat, Placed.setting]
    · rcases belongs_concat.mp hb with hb | ⟨hp, -⟩
      · simpa [Device.append] using h.belongs o a hb
      · cases hp
  | other =>
    refine ⟨h.tables.congr rfl rfl rfl, ?_, fun o a hb => ?_⟩
    · simp [lastHead_concat, Placed.setting, h.current, Device.append]
    · rcases belongs_concat.mp hb with hb | ⟨hp, -⟩
      · exact h.belongs o a hb
      · cases hp
  | @endpoint number ep dev' _ kind alloc ep_eq attached =>
    subst ep_eq attached
    obtain ⟨take, -⟩ := mayTake_of_allocFor alloc
    refine ⟨(h.tables.append desc).attach (take.append desc) rfl, ?_, fun o a hb => ?_⟩
    · simp [lastHead_concat, Placed.setting, h.current, Device.append]
    · simp only [attachEndpoint_eps, List.mem_append, List.mem_singleton]
      rcases belongs_concat.mp hb with hb | ⟨hp, rfl⟩
      · obtain ⟨old, hold, hold'⟩ := h.belongs o a hb
        exact ⟨old, .inl hold, hold'⟩
      · cases hp
        exact ⟨_, .inr rfl, rfl, h.owner⟩

theorem Numbered.reserve {wantAddr : UInt8} (h : t.Numbered) (hs : ReserveStep t wantAddr t') :
    t'.Numbered := by
  cases hs with
  | refused => exact h
  | reserved cur alloc =>
    obtain ⟨take, -⟩ := epAllocNumber_some (epNumber_lt wantAddr) alloc
    exact ⟨h.tables.reserve take, h.current, h.belongs⟩

theorem Numbered.apply (h : t.Numbered) (act : AddAct) : (t.apply act).Numbered := by
  cases act with
  | addDescriptor desc | addEndpoint desc => exact h.add (t.add_step desc)
  | reserveEndpoint wantAddr => exact h.reserve (t.reserve_step wantAddr)

/-- An endpoint that is relocated gets an address that no endpoint has. -/
theorem Numbered.relocated (h : t.Numbered) {number : Nat} (alloc : t.dev.allocFor desc = some number)
    (hne : epAddr number (epDir (byteAt desc 2)) ≠ requested desc) :
    ∀ ep ∈ t.dev.eps, ep.addr ≠ epAddr number (epDir (byteAt desc 2)) := by
  intro ep hep haddr
  obtain ⟨take, fresh⟩ := mayTake_of_allocFor alloc
  rw [h.tables.addr ep hep] at haddr
  exact h.tables.not_mem_of_epMap (fresh hne) hep (epAddr_inj (h.tables.lt ep hep) take.lt haddr)

/-- The interfaces that have reserved addresses keep their claims to them. -/
structure Claims (t : AddTrace) : Prop where
  numbered : t.Numbered
  setting : ∀ p ∈ t.placed, ∀ s, p.setting = some s → s.1 ≠ usbipEpNoIfnum
  claimed : ∀ ifnum a, (ifnum, a) ∈ t.reserved → ifnum ≠ usbipEpNoIfnum ∧
    ∃ number dir, a = epAddr number dir ∧ t.dev.Claimed ifnum number dir

/-- The interface numbers are below 255. -/
def NamesInterface (act : AddAct) : Prop :=
  ∀ desc ∈ act.desc, byteAt desc 1 = usbDtInterface → byteAt desc 2 ≠ usbipEpNoIfnum

theorem Claims.new (header : DeviceHeader) : (new header).Claims where
  numbered := .new header
  setting _ h := nomatch h
  claimed _ _ h := nomatch h

theorem Claims.add (h : t.Claims) (hs : AddStep t desc t')
    (hdesc : byteAt desc 1 = usbDtInterface → byteAt desc 2 ≠ usbipEpNoIfnum) : t'.Claims := by
  refine ⟨h.numbered.add hs, ?_, ?_⟩
  · cases hs with
    | refused => exact h.setting
    | interface _ kind =>
      refine List.forall_mem_append.mpr ⟨h.setting, List.forall_mem_singleton.mpr ?_⟩
      rintro s ⟨⟩
      exact hdesc kind
    | endpoint | other =>
      refine List.forall_mem_append.mpr ⟨h.setting, List.forall_mem_singleton.mpr ?_⟩
      rintro s ⟨⟩
  · intro ifnum a hmem
    cases hs with
    | refused => exact h.claimed ifnum a hmem
    | interface =>
      obtain ⟨hne, number, dir, ha, hclaim⟩ := h.claimed ifnum a hmem
      exact ⟨hne, number, dir, ha, hclaim.congr (by simp [held, Device.append])
        (by simp [Device.append])⟩
    | other =>
      obtain ⟨hne, number, dir, ha, hclaim⟩ := h.claimed ifnum a hmem
      exact ⟨hne, number, dir, ha, hclaim.congr rfl rfl⟩
    | endpoint _ _ alloc ep_eq attached =>
      subst ep_eq attached
      obtain ⟨hne, number, dir, ha, hclaim⟩ := h.claimed ifnum a hmem
      obtain ⟨take, -⟩ := mayTake_of_allocFor alloc
      exact ⟨hne, number, dir, ha, (hclaim.congr rfl rfl : (t.dev.append desc).Claimed _ _ _).attach
        hne (h.numbered.tables.append desc) (take.append desc)⟩

theorem Claims.reserve {wantAddr : UInt8} (h : t.Claims) (hs : ReserveStep t wantAddr t') :
    t'.Claims := by
  refine ⟨h.numbered.reserve hs, ?_, ?_⟩
  · cases hs <;> exact h.setting
  · intro ifnum a hmem
    cases hs with
    | refused => exact h.claimed ifnum a hmem
    | @reserved owner alt number cur alloc =>
      obtain ⟨take, -⟩ := epAllocNumber_some (epNumber_lt wantAddr) alloc
      rcases List.mem_append.mp hmem with hmem | hmem
      · obtain ⟨hne, number, dir, ha, hclaim⟩ := h.claimed ifnum a hmem
        exact ⟨hne, number, dir, ha, hclaim.reserve hne take⟩
      · cases List.mem_singleton.mp hmem
        obtain ⟨p, hp, hs⟩ := exists_of_lastHead (h.numbered.current.symm.trans cur)
        exact ⟨h.setting p hp _ hs, number, _, rfl, take.claimed⟩

theorem Claims.apply (h : t.Claims) {act : AddAct} (hact : NamesInterface act) :
    (t.apply act).Claims := by
  cases act with
  | addDescriptor desc | addEndpoint desc => exact h.add (t.add_step desc) (hact desc rfl)
  | reserveEndpoint wantAddr => exact h.reserve (t.reserve_step wantAddr)

/-- What the endpoint numbers of a device promise. -/
structure AllocSound (t : AddTrace) : Prop where
  /-- Endpoint descriptors with one address belong to one interface. -/
  one_interface : ∀ a o o', Belongs t.placed o a → Belongs t.placed o' a → o = o'
  no_conflict : t.dev.checkEndpointConflicts = usbSuccess
  /-- An endpoint that gets another address than it asks for gets one that no endpoint has and that
  no other interface has reserved. -/
  relocated : ∀ desc addr bytes, (t.add desc).placed = t.placed ++ [.endpoint addr bytes] →
    addr ≠ requested desc →
      (∀ ep ∈ t.dev.eps, ep.addr ≠ addr) ∧
        ∀ ifnum, (ifnum, addr) ∈ t.reserved → ∃ alt, t.dev.cur = some (ifnum, alt)
  /-- An interface that asks for an address reserved for it gets that address, as long as the blob
  and the endpoint table have room. -/
  reserved : ∀ ifnum a, (ifnum, a) ∈ t.reserved → ∀ alt, t.dev.cur = some (ifnum, alt) →
    ∀ desc, byteAt desc 1 = usbDtEndpoint → requested desc = a →
      t.dev.descr.length + descLen desc ≤ descrCap → t.dev.eps.length < epsCap →
        ∃ bytes, (t.add desc).placed = t.placed ++ [.endpoint a bytes]

/-- The interface of a descriptor that is placed has a number of its own. -/
theorem Claims.belongs_ne (h : t.Claims) {o : Option UInt8} {a : UInt8} (hb : Belongs t.placed o a) :
    o ≠ some usbipEpNoIfnum := by
  rintro rfl
  obtain ⟨before, bytes, after, hplaced, howner⟩ := hb
  obtain ⟨s, hs, hnum⟩ := Option.map_eq_some_iff.mp howner
  obtain ⟨p, hp, hset⟩ := exists_of_lastHead hs
  exact h.setting p (hplaced ▸ List.mem_append_left _ hp) s hset hnum

/-- The descriptor placed by a call that has placed an endpoint. -/
theorem allocFor_of_placed {addr : UInt8} {bytes : List UInt8}
    (h : (t.add desc).placed = t.placed ++ [.endpoint addr bytes]) :
    ∃ number, t.dev.allocFor desc = some number ∧ addr = epAddr number (epDir (byteAt desc 2)) := by
  generalize ht : t.add desc = t' at h
  have hs := ht ▸ t.add_step desc
  cases hs with
  | refused => simp at h
  | interface | other => cases List.append_cancel_left h
  | endpoint _ _ alloc ep_eq =>
    subst ep_eq
    cases List.append_cancel_left h
    exact ⟨_, alloc, rfl⟩

theorem Claims.sound (h : t.Claims) : t.AllocSound where
  one_interface a o o' hb hb' := by
    obtain ⟨ep, hep, haddr, hif⟩ := h.numbered.belongs o a hb
    obtain ⟨ep', hep', haddr', hif'⟩ := h.numbered.belongs o' a hb'
    have hnum := h.numbered.tables.ifnum_eq hep hep' (haddr.trans haddr'.symm)
    have hne := h.belongs_ne hb
    have hne' := h.belongs_ne hb'
    rw [hif, hif'] at hnum
    cases o <;> cases o' <;> simp_all
  no_conflict := h.numbered.tables.no_conflict
  relocated desc addr bytes hplaced hne := by
    obtain ⟨number, alloc, rfl⟩ := allocFor_of_placed hplaced
    obtain ⟨take, -⟩ := mayTake_of_allocFor alloc
    refine ⟨h.numbered.relocated alloc hne, fun ifnum hmem => ?_⟩
    obtain ⟨hif, n, d, haddr, hclaim⟩ := h.claimed ifnum _ hmem
    obtain ⟨rfl, rfl⟩ := epAddr_inj take.lt hclaim.take.lt haddr
    have howner := hclaim.eq_of_mayTake hif take
    rw [Device.owner] at howner
    cases hcur : t.dev.cur with
    | none => rw [hcur] at howner; exact absurd howner.symm hif
    | some s => rw [hcur] at howner; exact ⟨s.2, by rw [← howner]; rfl⟩
  reserved ifnum a hmem alt hcur desc kind hreq hroom hcap := by
    obtain ⟨-, n, d, rfl, hclaim⟩ := h.claimed ifnum a hmem
    obtain ⟨rfl, rfl⟩ := epAddr_inj (epNumber_lt _) hclaim.take.lt hreq
    have howner : t.dev.owner = ifnum := by rw [Device.owner, hcur]; rfl
    have halloc : t.dev.allocFor desc = some (epNumber (byteAt desc 2)) := by
      rw [allocFor, howner]
      exact epAllocNumber_of_mayTake hclaim.take
    have haccepts : t.dev.Accepts desc := ⟨hroom, fun _ => ⟨hcap, by rw [halloc]; rfl⟩⟩
    generalize ht : t.add desc = t'
    have hs := ht ▸ t.add_step desc
    cases hs with
    | refused hnot => exact absurd haccepts hnot
    | interface _ hif => exact absurd (hif.symm.trans kind) (by decide)
    | other _ _ hep => exact absurd kind hep
    | endpoint _ _ alloc ep_eq =>
      subst ep_eq
      cases halloc.symm.trans alloc
      exact ⟨_, rfl⟩

def step (t : AddTrace) (act : AddAct) : Option AddTrace := some (t.apply act)

/-- Through every sequence of calls that names interfaces below 255, addresses are one interface's,
relocation takes nothing from anyone, and reservations are kept. -/
theorem alloc_sound (header : DeviceHeader) {acts : List AddAct}
    (h : ∀ act ∈ acts, NamesInterface act) :
    Throughout step AllocSound (new header) acts := by
  refine throughout_of_guarded (I := Claims) (C := fun _ act => NamesInterface act)
    (fun _ => Claims.sound) (fun t act t' hi hact hs => ?_) (.new header) (.of_forall h _)
  cases hs
  exact hi.apply hact

/-- Two interfaces that ask for one address; the second reserves one before it asks. -/
def sharedRun : List AddAct :=
  [.addDescriptor (interfaceDesc 0 0), .addEndpoint (endpointDesc 0x81),
    .addDescriptor (interfaceDesc 1 0), .reserveEndpoint 0x83, .addEndpoint (endpointDesc 0x81),
    .addEndpoint (endpointDesc 0x83)]

instance : DecidablePred NamesInterface := fun act =>
  Option.decidableForallMem act.desc

theorem alloc_sound_sharedRun :
    Throughout step AllocSound (new ⟨0, 0, 0, 0, 0, 0, 0, 0, 0⟩) sharedRun :=
  alloc_sound _ (by decide)

/-- The endpoint descriptors that follow one interface descriptor carry distinct addresses. -/
def Distinct (t : AddTrace) : Prop :=
  ∀ s ∈ sections Placed.setting t.placed, (addrs s.2).Nodup

instance : DecidablePred Distinct := fun t =>
  inferInstanceAs (Decidable (∀ s ∈ sections Placed.setting t.placed, (addrs s.2).Nodup))

/-- An endpoint descriptor does not ask for an address that the alternate setting it goes to has
already. -/
def FreshRequest (t : AddTrace) (act : AddAct) : Prop :=
  ∀ desc ∈ act.desc, byteAt desc 1 = usbDtEndpoint → t.dev.cur ≠ none →
    requested desc ∉ addrs (lastItems Placed.setting t.placed)

/-- An address that the current interface has is granted to it again. -/
theorem Numbered.granted (h : t.Numbered) {s : UInt8 × UInt8} (hcur : t.dev.cur = some s)
    (hmem : requested desc ∈ addrs (lastItems Placed.setting t.placed)) :
    t.dev.allocFor desc = some (epNumber (byteAt desc 2)) := by
  have howner : t.dev.owner = s.1 := by rw [Device.owner, hcur]; rfl
  have hb := belongs_of_mem_lastItems hmem
  rw [← h.current, hcur] at hb
  obtain ⟨ep, hep, haddr, hif⟩ := h.belongs _ _ hb
  rw [h.tables.addr ep hep] at haddr
  obtain ⟨hnum, hdir⟩ := epAddr_inj (h.tables.lt ep hep) (epNumber_lt _) haddr
  obtain ⟨holder, hheld, hholder⟩ := h.tables.holder ep hep
  rw [hnum, hdir] at hheld
  have hown : holder.ifnum = t.dev.owner := by rw [hholder, hif, howner]; rfl
  refine epAllocNumber_of_mayTake ⟨hnum ▸ h.tables.pos ep hep, epNumber_lt _, ?_, ?_⟩
  · intro other hother
    cases hheld.symm.trans hother
    exact hown
  · rw [epReservationAllows_iff, ← hown]
    exact h.tables.reserved hheld

/-- Among distinct addresses, a further one is distinct exactly when it is new to the section it
goes to. -/
theorem distinct_endpoint_iff {addr : UInt8} {bytes : List UInt8} {dev : Device}
    (h : t.Distinct) :
    Distinct { t with dev, placed := t.placed ++ [.endpoint addr bytes] } ↔
      (lastHead Placed.setting t.placed ≠ none →
        addr ∉ addrs (lastItems Placed.setting t.placed)) := by
  obtain ⟨shut, hshut, hconcat⟩ := sections_concat Placed.setting t.placed
  simp only [Distinct, hconcat (.endpoint addr bytes) rfl]
  rw [Distinct, hshut] at h
  cases hlast : lastHead Placed.setting t.placed with
  | none => simpa [hlast] using h
  | some s =>
    simp only [hlast, Option.toList_some, List.map_cons, List.map_nil, List.mem_append,
      List.mem_singleton] at h ⊢
    have hopen : (addrs (lastItems Placed.setting t.placed)).Nodup := h _ (.inr rfl)
    constructor
    · intro hd _ hmem
      have := hd _ (.inr rfl)
      rw [addrs_concat, List.nodup_append] at this
      exact this.2.2 addr hmem addr List.mem_cons_self rfl
    · rintro hnew s' (hs' | rfl)
      · exact h s' (.inl hs')
      · rw [addrs_concat, List.nodup_append]
        refine ⟨hopen, List.nodup_cons.mpr ⟨List.not_mem_nil, List.nodup_nil⟩, fun a ha b hb => ?_⟩
        rintro rfl
        exact hnew (Option.some_ne_none s) (List.mem_singleton.mp hb ▸ ha)

theorem Distinct.add (h : t.Distinct) (hn : t.Numbered) (hs : AddStep t desc t')
    (hfresh : byteAt desc 1 = usbDtEndpoint → t.dev.cur ≠ none →
      requested desc ∉ addrs (lastItems Placed.setting t.placed)) : t'.Distinct := by
  cases hs with
  | refused => exact h
  | interface _ kind =>
    rw [Distinct, sections_concat_head Placed.setting t.placed rfl]
    exact List.forall_mem_append.mpr ⟨h, List.forall_mem_singleton.mpr List.nodup_nil⟩
  | other =>
    obtain ⟨shut, hshut, hconcat⟩ := sections_concat Placed.setting t.placed
    rw [Distinct, hshut] at h
    rw [Distinct, hconcat _ rfl]
    refine List.forall_mem_append.mpr ⟨(List.forall_mem_append.mp h).1, ?_⟩
    rw [List.forall_mem_map]
    intro s hs
    have hsame := addrs_concat (lastItems Placed.setting t.placed) (.other (normalize desc))
    rw [show (Placed.other _).addr = none from rfl, Option.toList_none, List.append_nil] at hsame
    rw [hsame]
    exact (List.forall_mem_append.mp h).2 _ (List.mem_map_of_mem hs)
  | @endpoint number ep dev' accepted kind alloc ep_eq attached =>
    subst ep_eq
    refine (distinct_endpoint_iff h).mpr fun hlast hmem => ?_
    rw [← hn.current] at hlast
    by_cases hreq : epAddr number (epDir (byteAt desc 2)) = requested desc
    · exact hfresh kind hlast (hreq ▸ hmem)
    · obtain ⟨ep, hep, haddr, -⟩ := hn.belongs _ _ (belongs_of_mem_lastItems hmem)
      exact hn.relocated alloc hreq ep hep haddr

theorem not_distinct_add (h : t.Distinct) (hn : t.Numbered) (hs : AddStep t desc t')
    (accepted : t.dev.Accepts desc) (kind : byteAt desc 1 = usbDtEndpoint)
    (hcur : t.dev.cur ≠ none)
    (hmem : requested desc ∈ addrs (lastItems Placed.setting t.placed)) : ¬t'.Distinct := by
  cases hs with
  | refused hnot => exact absurd accepted hnot
  | interface _ hif => exact absurd (hif.symm.trans kind) (by decide)
  | other _ _ hep => exact absurd kind hep
  | endpoint _ _ alloc ep_eq =>
    subst ep_eq
    obtain ⟨s, hs⟩ := Option.ne_none_iff_exists'.mp hcur
    cases (hn.granted hs hmem).symm.trans alloc
    exact fun hd => (distinct_endpoint_iff h).mp hd (hn.current ▸ hcur) hmem

theorem succeed_some {act : AddAct} (h : t.succeed act = some t') :
    t' = t.apply act ∧ ∀ desc ∈ act.desc, t.dev.Accepts desc := by
  rw [succeed] at h
  split at h
  · rename_i hok
    exact ⟨(Option.some.inj h).symm, accepts_of_ok hok⟩
  · cases h

/-- In every run of successful calls, the addresses of each alternate setting stay distinct if and
only if no endpoint descriptor asks for an address that its alternate setting has already. -/
theorem distinct_iff_fresh_requests (header : DeviceHeader) {acts : List AddAct} {t : AddTrace}
    (h : exec succeed (new header) acts = some t) :
    Throughout succeed Distinct (new header) acts ↔
      Guarded succeed FreshRequest (new header) acts := by
  refine throughout_iff_guarded (I := fun t => t.Numbered ∧ t.Distinct) (fun t => And.right)
    (fun t act t' hi hfresh hs => ?_) (fun t act t' hi hstale hs hd => hstale ?_)
    ⟨.new header, fun s hs => nomatch hs⟩ h
  · obtain ⟨rfl, -⟩ := succeed_some hs
    refine ⟨hi.1.apply act, ?_⟩
    cases act with
    | addDescriptor desc | addEndpoint desc =>
      exact hi.2.add hi.1 (t.add_step desc) (hfresh desc rfl)
    | reserveEndpoint wantAddr => exact hi.2
  · obtain ⟨rfl, haccepts⟩ := succeed_some hs
    intro desc hdesc kind hcur hmem
    have hadd : t.apply act = t.add desc := by cases act <;> cases hdesc <;> rfl
    exact not_distinct_add hi.2 hi.1 (t.add_step desc) (haccepts desc hdesc) kind hcur hmem
      (hadd ▸ hd)

/-- An endpoint asks for 0x81, which another interface has, and is relocated to 0x82; the next one
of its alternate setting asks for 0x82. -/
def relocatedRun : List AddAct :=
  [.addDescriptor (interfaceDesc 0 0), .addEndpoint (endpointDesc 0x81),
    .addDescriptor (interfaceDesc 1 0), .addEndpoint (endpointDesc 0x81),
    .addEndpoint (endpointDesc 0x82)]

theorem distinct_fails :
    ¬∀ header acts t, exec succeed (new header) acts = some t → t.Distinct := by
  intro h
  have hlost : ((exec succeed (new ⟨0, 0, 0, 0, 0, 0, 0, 0, 0⟩) relocatedRun).map fun t =>
      decide t.Distinct) = some false := by decide
  obtain ⟨t, ht, hd⟩ := Option.map_eq_some_iff.mp hlost
  exact of_decide_eq_false hd (h _ _ t ht)

theorem distinct_iff_on_sharedRun :
    Throughout succeed Distinct (new ⟨0, 0, 0, 0, 0, 0, 0, 0, 0⟩) sharedRun ↔
      Guarded succeed FreshRequest (new ⟨0, 0, 0, 0, 0, 0, 0, 0, 0⟩) sharedRun := by
  have hrun : (exec succeed (new ⟨0, 0, 0, 0, 0, 0, 0, 0, 0⟩) sharedRun).isSome = true := by
    decide
  obtain ⟨t, ht⟩ := Option.isSome_iff_exists.mp hrun
  exact distinct_iff_fresh_requests _ ht

end AddTrace

end Usbip
