import Usbip.Build.Group
import Usbip.Capture.Learn

/-! What a capture calls each endpoint. The client of a device that has been built reads the types
of its endpoints from the configuration descriptor, and they are the types that the server finds in
its endpoint table, as long as no group is rolled back that has taken anything from an older one. -/

namespace Usbip.Capture

open Lib Device

/-- What matters of a descriptor: its length, its kind, and the two bytes that name an endpoint and
its type. -/
structure Head where
  size : Nat
  kind : UInt8
  addr : UInt8
  attributes : UInt8

def headOf (block : List UInt8) : Head :=
  ⟨block.length, byteAt block 1, byteAt block 2, byteAt block 3⟩

/-- Where descriptor `k` starts. -/
def offset (heads : List Head) (k : Nat) : Nat := ((heads.take k).map Head.size).sum

/-- The endpoints among the descriptors: the addresses and the types. -/
def endpoints (heads : List Head) : List (UInt8 × UInt8) :=
  (heads.filter (·.kind = usbDtEndpoint)).map fun h => (h.addr, h.attributes &&& 3)

/-- An interface descriptor starts there. -/
def InterfaceAt (heads : List Head) (off : Nat) : Prop :=
  ∃ k h, heads[k]? = some h ∧ h.kind = usbDtInterface ∧ offset heads k = off

/-- Between two descriptors, behind that many endpoints. -/
def CutAt (heads : List Head) (off n : Nat) : Prop :=
  ∃ k, offset heads k = off ∧ (endpoints (heads.take k)).length = n

/-- The bytes are whole descriptors with these heads. -/
def Blob (descr : List UInt8) (heads : List Head) : Prop :=
  ∃ blocks : List (List UInt8),
    descr = blocks.flatten ∧ (∀ b ∈ blocks, Whole b) ∧ blocks.map headOf = heads

section heads

variable {heads : List Head} {h : Head} {descr : List UInt8}

theorem endpoints_concat (heads : List Head) (h : Head) :
    endpoints (heads ++ [h]) = endpoints heads ++
      if h.kind = usbDtEndpoint then [(h.addr, h.attributes &&& 3)] else [] := by
  rw [endpoints, List.filter_append, List.map_append, ← endpoints]
  by_cases hk : h.kind = usbDtEndpoint <;> simp [hk]

theorem InterfaceAt.concat {off : Nat} (hat : InterfaceAt heads off) (h : Head) :
    InterfaceAt (heads ++ [h]) off := by
  obtain ⟨k, g, hget, hkind, hoff⟩ := hat
  have hk := (List.getElem?_eq_some_iff.mp hget).1
  refine ⟨k, g, (List.getElem?_append_left hk).trans hget, hkind, ?_⟩
  rw [offset, List.take_append_of_le_length (by omega)]
  exact hoff

theorem offset_length (heads : List Head) : offset heads heads.length = (heads.map Head.size).sum := by
  rw [offset, List.take_length]

theorem offset_mono (heads : List Head) {j k : Nat} (h : j ≤ k) : offset heads j ≤ offset heads k := by
  obtain ⟨i, rfl⟩ := Nat.exists_eq_add_of_le h
  rw [offset, offset, List.take_add, List.map_append, List.sum_append]
  exact Nat.le_add_right _ _

theorem InterfaceAt.last (hkind : h.kind = usbDtInterface) :
    InterfaceAt (heads ++ [h]) (heads.map Head.size).sum := by
  refine ⟨heads.length, h, List.getElem?_concat_length, hkind, ?_⟩
  rw [offset, List.take_left]

theorem CutAt.concat {off n : Nat} (hcut : CutAt heads off n) (h : Head) :
    CutAt (heads ++ [h]) off n := by
  obtain ⟨k, hoff, hn⟩ := hcut
  rcases Nat.lt_or_ge heads.length k with hk | hk
  · refine ⟨heads.length, ?_, ?_⟩
    · rw [← hoff, offset, offset, List.take_left, List.take_of_length_le (by omega)]
    · rw [← hn, List.take_left, List.take_of_length_le (by omega)]
  · refine ⟨k, ?_, ?_⟩
    · rw [← hoff, offset, offset, List.take_append_of_le_length hk]
    · rw [← hn, List.take_append_of_le_length hk]

theorem Blob.length (hblob : Blob descr heads) : descr.length = (heads.map Head.size).sum := by
  obtain ⟨blocks, rfl, -, rfl⟩ := hblob
  rw [List.length_flatten, List.map_map]
  rfl

theorem Blob.append (hblob : Blob descr heads) {block : List UInt8} (hwhole : Whole block) :
    Blob (descr ++ block) (heads ++ [headOf block]) := by
  obtain ⟨blocks, rfl, hall, rfl⟩ := hblob
  refine ⟨blocks ++ [block], by simp, ?_, by simp⟩
  exact List.forall_mem_append.mpr ⟨hall, List.forall_mem_singleton.mpr hwhole⟩

theorem Blob.take (hblob : Blob descr heads) (k : Nat) :
    Blob (descr.take (offset heads k)) (heads.take k) := by
  obtain ⟨blocks, rfl, hall, rfl⟩ := hblob
  refine ⟨blocks.take k, ?_, fun b hb => hall b (List.mem_of_mem_take hb), List.map_take⟩
  have hlen : offset (blocks.map headOf) k = (blocks.take k).flatten.length := by
    rw [offset, ← List.map_take, List.map_map, List.length_flatten]
    rfl
  rw [hlen]
  calc blocks.flatten.take (blocks.take k).flatten.length
      = ((blocks.take k).flatten ++ (blocks.drop k).flatten).take
          (blocks.take k).flatten.length := by rw [← List.flatten_append, List.take_append_drop]
    _ = (blocks.take k).flatten := List.take_left

/-- A byte behind the first four of a descriptor is changed. -/
theorem Whole.modify {block : List UInt8} (hwhole : Whole block) {i : Nat} (hi : 4 ≤ i)
    (f : UInt8 → UInt8) : Whole (block.modify i f) ∧ headOf (block.modify i f) = headOf block := by
  have hbyte : ∀ j < 4, byteAt (block.modify i f) j = byteAt block j := by
    intro j hj
    rw [byteAt, byteAt, List.getD_eq_getElem?_getD, List.getD_eq_getElem?_getD,
      List.getElem?_modify_ne _ _ (by omega)]
  have hlen : (block.modify i f).length = block.length := List.length_modify ..
  refine ⟨⟨?_, ?_, ?_, ?_⟩, ?_⟩
  · obtain ⟨a, l, rfl, hsize⟩ := hwhole.framed
    obtain ⟨i, rfl⟩ := Nat.exists_eq_add_of_le hi
    refine ⟨a, l.modify (3 + i) f, ?_, hsize.trans hlen.symm⟩
    rw [show 4 + i = (3 + i) + 1 by omega, List.modify_succ_cons]
  · rw [hlen]
    exact hwhole.long
  · rw [hlen, hbyte 1 (by omega)]
    exact hwhole.interface
  · rw [hlen, hbyte 1 (by omega)]
    exact hwhole.endpoint
  · rw [headOf, hlen, hbyte 1 (by omega), hbyte 2 (by omega), hbyte 3 (by omega)]
    rfl

/-- The count and the string of an interface descriptor are inside of it. -/
theorem Blob.modify (hblob : Blob descr heads) {off i : Nat} (hat : InterfaceAt heads off)
    (hi : 4 ≤ i) (hlt : i < 9) (f : UInt8 → UInt8) : Blob (descr.modify (off + i) f) heads := by
  obtain ⟨blocks, rfl, hall, rfl⟩ := hblob
  obtain ⟨k, h, hget, hkind, rfl⟩ := hat
  rw [List.getElem?_map, Option.map_eq_some_iff] at hget
  obtain ⟨block, hblock, rfl⟩ := hget
  obtain ⟨hk, rfl⟩ := List.getElem?_eq_some_iff.mp hblock
  have hmem := List.getElem_mem hk
  obtain ⟨hwhole, hhead⟩ := (hall _ hmem).modify hi f
  have hsplit : blocks = blocks.take k ++ blocks[k] :: blocks.drop (k + 1) := by
    rw [List.getElem_cons_drop, List.take_append_drop]
  have hlen : offset (blocks.map headOf) k = (blocks.take k).flatten.length := by
    rw [offset, ← List.map_take, List.map_map, List.length_flatten]
    rfl
  have hlong : i < blocks[k].length := by
    have := (hall _ hmem).interface hkind
    omega
  refine ⟨blocks.take k ++ blocks[k].modify i f :: blocks.drop (k + 1), ?_, ?_, ?_⟩
  · have hflat : blocks.flatten =
        (blocks.take k).flatten ++ blocks[k] ++ (blocks.drop (k + 1)).flatten := by
      conv => lhs; rw [hsplit]
      simp only [List.flatten_append, List.flatten_cons, List.append_assoc]
    rw [hlen, hflat, modify_within f _ _ _ hlong]
    simp only [List.flatten_append, List.flatten_cons, List.append_assoc]
  · intro b hb
    rcases List.mem_append.mp hb with hb | hb
    · exact hall b (List.mem_of_mem_take hb)
    · rcases List.mem_cons.mp hb with rfl | hb
      · exact hwhole
      · exact hall b (List.mem_of_mem_drop hb)
  · conv => rhs; rw [hsplit]
    rw [List.map_append, List.map_append, List.map_cons, List.map_cons, hhead]

end heads

/-! ### The device and its descriptors -/

/-- The blob is whole descriptors, the records point to interface descriptors, the endpoint table is
the endpoint descriptors, and the mark of the last group is between two descriptors. -/
structure Typed (dev : Device) (heads : List Head) : Prop where
  blob : Blob dev.descr heads
  fits : dev.descr.length ≤ descrCap
  records : ∀ ia ∈ dev.ifalts, InterfaceAt heads ia.off
  eps : dev.eps.map (fun ep => (ep.addr, ep.type)) = endpoints heads
  named : ∀ ep ∈ dev.eps, ep.number < 16 ∧ ep.addr = epAddr ep.number ep.dir
  /-- The slot of an endpoint holds it or a later one. -/
  held : ∀ (e : Nat) (ep : Ep), dev.eps[e]? = some ep →
    ∃ later : Nat, e ≤ later ∧ dev.epMap ep.number ep.dir = some later
  mark : CutAt heads dev.gmark.descrLen dev.gmark.nEps

/-- What a caller promises of a descriptor. -/
structure WellFormed (desc : List UInt8) : Prop where
  interface : byteAt desc 1 = usbDtInterface → 9 ≤ descLen desc
  endpoint : byteAt desc 1 = usbDtEndpoint → 7 ≤ descLen desc
  other : 2 ≤ descLen desc

/-- The descriptors that a call hands over are well formed. -/
def WellFormedAct : BuildAct → Prop
  | .add act => ∀ desc ∈ act.desc, WellFormed desc
  | _ => True

/-- The group that is rolled back has moved no older record behind its own start, and none of its
endpoints has the slot of an older endpoint. -/
def AbortSpares (dev : Device) : BuildAct → Prop
  | .groupAbort => dev.groups.length ≠ 0 →
    (∀ ia ∈ dev.ifalts.take dev.gmark.nIfalts, ia.off < dev.gmark.descrLen) ∧
      ∀ ep ∈ dev.eps.take dev.gmark.nEps,
        ∀ e ∈ dev.epMap ep.number ep.dir, e < dev.gmark.nEps
  | _ => True

instance : DecidablePred WellFormed := fun desc =>
  decidable_of_iff
    ((byteAt desc 1 = usbDtInterface → 9 ≤ descLen desc) ∧
      (byteAt desc 1 = usbDtEndpoint → 7 ≤ descLen desc) ∧ 2 ≤ descLen desc)
    ⟨fun h => ⟨h.1, h.2.1, h.2.2⟩, fun h => ⟨h.interface, h.endpoint, h.other⟩⟩

instance : DecidablePred WellFormedAct := fun act =>
  match act with
  | .add act => Option.decidableForallMem act.desc
  | .onControl .. | .onSetAlt .. | .enableMsos .. | .enableWebusb | .setInterfaceString .. |
    .configure .. | .groupBegin | .groupAbort => isTrue trivial

instance (dev : Device) : DecidablePred (AbortSpares dev) := fun act =>
  match act with
  | .groupAbort =>
    have (ep : Ep) : Decidable (∀ e ∈ dev.epMap ep.number ep.dir, e < dev.gmark.nEps) :=
      Option.decidableForallMem _
    inferInstanceAs (Decidable (dev.groups.length ≠ 0 →
      (∀ ia ∈ dev.ifalts.take dev.gmark.nIfalts, ia.off < dev.gmark.descrLen) ∧
        ∀ ep ∈ dev.eps.take dev.gmark.nEps, ∀ e ∈ dev.epMap ep.number ep.dir, e < dev.gmark.nEps))
  | .add .. | .onControl .. | .onSetAlt .. | .enableMsos .. | .enableWebusb |
    .setInterfaceString .. | .configure .. | .groupBegin => isTrue trivial

section typed

variable {dev : Device} {heads : List Head} {desc : List UInt8}

theorem Typed.create (header : DeviceHeader) : Typed (create header) [] where
  blob := ⟨[], rfl, (fun _ h => nomatch h), rfl⟩
  fits := Nat.zero_le _
  records _ h := nomatch h
  eps := rfl
  named _ h := nomatch h
  held _ _ h := nomatch h
  mark := ⟨0, rfl, rfl⟩

/-- A device that differs in nothing that matters here. -/
theorem Typed.congr {dev' : Device} (h : Typed dev heads)
    (hdescr : dev'.descr = dev.descr) (hifalts : dev'.ifalts = dev.ifalts)
    (heps : dev'.eps = dev.eps) (hmap : dev'.epMap = dev.epMap) (hmark : dev'.gmark = dev.gmark) :
    Typed dev' heads where
  blob := hdescr ▸ h.blob
  fits := hdescr ▸ h.fits
  records := hifalts ▸ h.records
  eps := heps ▸ h.eps
  named := heps ▸ h.named
  held := by rw [heps, hmap]; exact h.held
  mark := hmark ▸ h.mark

/-- A byte of an interface descriptor behind the first four is changed. -/
theorem Typed.modify (h : Typed dev heads) {ia : IfAlt} (hia : ia ∈ dev.ifalts) {i : Nat}
    (hi : 4 ≤ i) (hlt : i < 9) (f : UInt8 → UInt8) :
    Typed { dev with descr := dev.descr.modify (ia.off + i) f } heads where
  blob := h.blob.modify (h.records ia hia) hi hlt f
  fits := by
    rw [List.length_modify]
    exact h.fits
  records := h.records
  eps := h.eps
  named := h.named
  held := h.held
  mark := h.mark

theorem mem_of_recordOf {ifnum alt : UInt8} {ia : IfAlt} (h : dev.recordOf ifnum alt = some ia) :
    ia ∈ dev.ifalts := by
  rw [recordOf_eq_find?] at h
  exact List.mem_of_find?_eq_some h

theorem Typed.countEndpoint (h : Typed dev heads) : Typed dev.countEndpoint heads := by
  rw [Device.countEndpoint]
  split
  · exact h
  · split
    · exact h
    · rename_i hrec
      exact h.modify (mem_of_recordOf hrec) (by omega) (by omega) _

theorem Typed.setInterfaceString (h : Typed dev heads) (ifnum alt istr : UInt8) :
    Typed (dev.setInterfaceString ifnum alt istr) heads := by
  rw [Device.setInterfaceString]
  split
  · exact h
  · rename_i hrec
    rw [List.set_eq_modify]
    exact h.modify (mem_of_recordOf hrec) (by omega) (by omega) _

theorem WellFormed.whole (hw : WellFormed desc) : Whole (normalize desc) := by
  have hlong := hw.other
  have hbyte : byteAt (normalize desc) 1 = byteAt desc 1 := by
    rw [byteAt, List.getD_eq_getElem?_getD, normalize_getElem? (by omega)]
    rfl
  refine ⟨framed_normalize (by omega), ?_, ?_, ?_⟩
  · rw [normalize_length]
    exact hlong
  · rw [normalize_length, hbyte]
    exact hw.interface
  · rw [normalize_length, hbyte]
    exact hw.endpoint

/-- The kind of a descriptor is kept as it is appended. -/
theorem WellFormed.kind (hw : WellFormed desc) :
    (headOf (normalize desc)).kind = byteAt desc 1 := by
  have hlong := hw.other
  rw [headOf, byteAt, List.getD_eq_getElem?_getD, normalize_getElem? (by omega)]
  rfl

/-- A descriptor that is no endpoint's is appended. -/
theorem Typed.append (h : Typed dev heads) (hw : WellFormed desc)
    (hroom : dev.descr.length + descLen desc ≤ descrCap) (kind : byteAt desc 1 ≠ usbDtEndpoint) :
    Typed (dev.append desc) (heads ++ [headOf (normalize desc)]) where
  blob := h.blob.append hw.whole
  fits := by
    rw [Device.append, List.length_append, normalize_length]
    exact hroom
  records ia hia := (h.records ia hia).concat _
  eps := by
    rw [endpoints_concat, hw.kind, if_neg kind, List.append_nil]
    exact h.eps
  named := h.named
  held := h.held
  mark := h.mark.concat _

/-- A record is an older one or points to the new descriptor. -/
theorem mem_appendInterface {dst : Nat} {ifnum alt : UInt8} {ia : IfAlt}
    (h : ia ∈ (dev.appendInterface dst ifnum alt).ifalts) : ia ∈ dev.ifalts ∨ ia.off = dst := by
  cases hrec : dev.ifaltFor ifnum alt with
  | some i =>
    rw [appendInterface_known hrec] at h
    obtain ⟨j, hj⟩ := List.mem_iff_getElem?.mp h
    rw [List.getElem?_modify] at hj
    obtain ⟨old, hold, rfl⟩ := Option.map_eq_some_iff.mp hj
    split
    · exact .inr rfl
    · exact .inl (List.mem_of_getElem? hold)
  | none =>
    by_cases hroom : dev.ifalts.length < ifaltsCap
    · rw [appendInterface_record hrec hroom] at h
      rcases List.mem_append.mp h with h | h
      · exact .inl h
      · exact .inr (by rw [List.mem_singleton.mp h])
    · rw [appendInterface_full hrec hroom] at h
      exact .inl (dev.registerIfnum_ifalts ifnum ▸ h)

theorem Typed.interface (h : Typed dev heads) (hw : WellFormed desc)
    (hroom : dev.descr.length + descLen desc ≤ descrCap) (kind : byteAt desc 1 = usbDtInterface) :
    Typed ((dev.append desc).appendInterface dev.descr.length (byteAt desc 2) (byteAt desc 3))
      (heads ++ [headOf (normalize desc)]) := by
  have happ := h.append hw hroom fun hep => absurd (kind.symm.trans hep) (by decide)
  have hhead := (dev.append desc).appendInterface_sameHeader dev.descr.length (byteAt desc 2)
    (byteAt desc 3)
  constructor
  · rw [appendInterface_descr]
    exact happ.blob
  · rw [appendInterface_descr]
    exact happ.fits
  · intro ia hia
    rcases mem_appendInterface hia with hold | hnew
    · exact happ.records ia hold
    · rw [hnew, h.blob.length]
      exact .last (hw.kind.trans kind)
  · rw [appendInterface_eps]
    exact happ.eps
  · rw [appendInterface_eps]
    exact happ.named
  · rw [appendInterface_eps, appendInterface_epMap]
    exact happ.held
  · rw [hhead.gmark]
    exact happ.mark

/-- The address in the bytes of an endpoint descriptor is made to match the endpoint. -/
theorem WellFormed.patched (hw : WellFormed desc) (kind : byteAt desc 1 = usbDtEndpoint)
    (addr : UInt8) : Whole ((normalize desc).set 2 addr) ∧
      headOf ((normalize desc).set 2 addr) =
        ⟨descLen desc, usbDtEndpoint, addr, byteAt desc 3⟩ := by
  have h7 := hw.endpoint kind
  have hlen := normalize_length desc
  have h1 : byteAt ((normalize desc).set 2 addr) 1 = usbDtEndpoint := by
    rw [byteAt, List.getD_eq_getElem?_getD, List.getElem?_set_ne (by omega),
      normalize_getElem? (by omega)]
    exact kind
  have h2 : byteAt ((normalize desc).set 2 addr) 2 = addr := by
    rw [byteAt, List.getD_eq_getElem?_getD, List.getElem?_set_self (by omega)]
    rfl
  have h3 : byteAt ((normalize desc).set 2 addr) 3 = byteAt desc 3 := by
    rw [byteAt, List.getD_eq_getElem?_getD, List.getElem?_set_ne (by omega),
      normalize_getElem? (by omega)]
    rfl
  have hset : ((normalize desc).set 2 addr).length = descLen desc := by
    rw [List.length_set, hlen]
  refine ⟨⟨(framed_normalize (by omega)).set 1 _, by omega, fun hif => ?_, fun _ => by omega⟩, ?_⟩
  · rw [h1] at hif
    exact absurd hif (by decide)
  · rw [headOf, hset, h1, h2, h3]

/-- A new endpoint enters the tables and its descriptor the blob. -/
theorem Typed.enter (h : Typed dev heads) (hw : WellFormed desc)
    (hroom : dev.descr.length + descLen desc ≤ descrCap) (kind : byteAt desc 1 = usbDtEndpoint)
    {number : Nat} (hlt : number < 16) :
    Typed ((dev.append desc).enterEndpoint dev.descr.length (newEp desc dev.owner number))
      (heads ++ [⟨descLen desc, usbDtEndpoint, epAddr number (epDir (byteAt desc 2)),
        byteAt desc 3⟩]) := by
  have hdescr := AddTrace.patched_descr dev desc (epAddr number (epDir (byteAt desc 2)))
  obtain ⟨hwhole, hhead⟩ := hw.patched kind (epAddr number (epDir (byteAt desc 2)))
  constructor
  · rw [← hhead, enterEndpoint]
    rw [show (newEp desc dev.owner number).addr = epAddr number (epDir (byteAt desc 2)) from rfl,
      hdescr]
    exact h.blob.append hwhole
  · have hlen := congrArg List.length hdescr
    rw [List.length_append, List.length_set, List.length_set, normalize_length] at hlen
    exact (List.length_set.trans hlen).trans_le hroom
  · exact fun ia hia => (h.records ia hia).concat _
  · rw [endpoints_concat, if_pos rfl, ← h.eps]
    exact List.map_append
  · exact List.forall_mem_append.mpr ⟨h.named, List.forall_mem_singleton.mpr ⟨hlt, rfl⟩⟩
  · intro e ep hep
    have hep : (dev.eps ++ [newEp desc dev.owner number])[e]? = some ep := hep
    have hle : e ≤ dev.eps.length := by
      have := (List.getElem?_eq_some_iff.mp hep).1
      rw [List.length_append, List.length_singleton] at this
      omega
    simp only [enterEndpoint, EpTable.set, Device.append]
    split
    · exact ⟨_, hle, rfl⟩
    · rename_i hother
      rcases Nat.lt_or_eq_of_le hle with hlt | rfl
      · rw [List.getElem?_append_left hlt] at hep
        exact h.held e ep hep
      · rw [List.getElem?_concat_length] at hep
        cases hep
        exact absurd ⟨rfl, rfl⟩ hother
  · exact h.mark.concat _

/-- An endpoint descriptor is appended, entered and counted. -/
theorem Typed.addDescriptor (h : Typed dev heads) (hw : WellFormed desc) :
    ∃ heads', Typed (dev.addDescriptor desc).1 heads' := by
  have hstep := dev.addDescriptor_step desc
  generalize dev.addDescriptor desc = r at hstep
  cases hstep with
  | refused => exact ⟨heads, h⟩
  | interface accepted kind => exact ⟨_, h.interface hw accepted.1 kind⟩
  | endpoint accepted kind alloc =>
    obtain ⟨take, -⟩ := AddTrace.mayTake_of_allocFor alloc
    exact ⟨_, (h.enter hw accepted.1 kind take.lt).countEndpoint⟩
  | other accepted _ not_endpoint => exact ⟨_, h.append hw accepted.1 not_endpoint⟩

theorem Typed.applyAdd (h : Typed dev heads) {act : AddAct}
    (hw : ∀ desc ∈ act.desc, WellFormed desc) : ∃ heads', Typed (dev.applyAdd act).1 heads' := by
  cases act with
  | addDescriptor desc => exact h.addDescriptor (hw desc rfl)
  | addEndpoint desc =>
    rw [Device.applyAdd, dev.addEndpoint_fst desc]
    exact h.addDescriptor (hw desc rfl)
  | reserveEndpoint wantAddr =>
    obtain ⟨epReserved, heq⟩ := dev.reserveEndpoint_eq wantAddr
    rw [Device.applyAdd, heq]
    exact ⟨heads, h.congr rfl rfl rfl rfl rfl⟩

theorem Typed.groupBegin (h : Typed dev heads) : Typed dev.groupBegin.1 heads := by
  rw [Device.groupBegin]
  split
  · exact h
  · refine { h with mark := ⟨heads.length, ?_, ?_⟩ }
    · rw [offset_length, ← h.blob.length]
      rfl
    · rw [List.take_length, ← h.eps, List.length_map]
      rfl

/-- The records and the slots that stay point to what stays. -/
theorem Typed.groupAbort (h : Typed dev heads) (hsound : dev.Sound)
    (hspares : AbortSpares dev .groupAbort) : ∃ heads', Typed dev.groupAbort heads' := by
  rw [Device.groupAbort]
  split
  · exact ⟨heads, h⟩
  · rename_i hgroups
    obtain ⟨hrecords, hslots⟩ := hspares hgroups
    obtain ⟨k, hoff, hn⟩ := h.mark
    have htake : endpoints (heads.take k) = (endpoints heads).take dev.gmark.nEps := by
      have hsplit : endpoints heads = endpoints (heads.take k) ++ endpoints (heads.drop k) := by
        conv => lhs; rw [← List.take_append_drop k heads]
        rw [endpoints, List.filter_append, List.map_append]
        rfl
      rw [hsplit, ← hn, List.take_left]
    refine ⟨heads.take k, ?_, ?_, ?_, ?_, ?_, ?_, ?_⟩
    · dsimp only
      rw [← hoff]
      exact h.blob.take k
    · exact (List.length_take_le' ..).trans h.fits
    · intro ia hia
      obtain ⟨j, g, hget, hkind, hat⟩ := h.records ia (List.mem_of_mem_take hia)
      have hlt := hrecords ia hia
      have hj : j < k := by
        by_contra hle
        have := offset_mono heads (Nat.le_of_not_lt hle)
        omega
      refine ⟨j, g, by rw [List.getElem?_take_of_lt hj, hget], hkind, ?_⟩
      rw [offset, List.take_take, Nat.min_eq_left (by omega)]
      exact hat
    · dsimp only
      rw [List.map_take, h.eps, htake]
    · exact fun ep hep => h.named ep (List.mem_of_mem_take hep)
    · intro e ep hep
      have hmem := List.mem_of_getElem? hep
      have hlt := (List.getElem?_eq_some_iff.mp hep).1
      rw [List.length_take] at hlt
      have hget : dev.eps[e]? = some ep := by
        rw [← hep, List.getElem?_take_of_lt (by omega)]
      obtain ⟨later, hle, hmap⟩ := h.held e ep hget
      refine ⟨later, hle, ?_⟩
      dsimp only
      rw [clearSlots_eq hsound.slot, hmap]
      have hkept : (later : Nat) < dev.gmark.nEps := hslots ep hmem later hmap
      have hnot : later ∉ List.range' dev.gmark.nEps (dev.eps.length - dev.gmark.nEps) := by
        rw [List.mem_range'_1]
        omega
      simp [Option.filter, hnot]
    · refine ⟨k, ?_, ?_⟩
      · rw [offset, List.take_take, Nat.min_self]
        exact hoff
      · rw [List.take_take, Nat.min_self]
        exact hn

/-! ### The two tables -/

/-- What the client has read, by the endpoints of the device. -/
def noted (eps : List Ep) : EpTable UInt8 :=
  eps.foldl (fun table ep => table.set ep.number ep.dir (ep.type + 1)) fun _ _ => 0

theorem foldl_note (blocks : List (List UInt8)) (table : EpTable UInt8) :
    blocks.foldl note table = (endpoints (blocks.map headOf)).foldl
      (fun table ep => table.set (epNumber ep.1) (epDir ep.1) (ep.2 + 1)) table := by
  induction blocks generalizing table with
  | nil => rfl
  | cons block blocks ih =>
    rw [List.foldl_cons, ih, List.map_cons, endpoints, endpoints, List.filter_cons]
    by_cases hk : byteAt block 1 = usbDtEndpoint <;> simp [note, isEndpoint, headOf, hk]

/-- The client's table after the descriptors of the device. -/
theorem Typed.foldl_blocks (h : Typed dev heads) {blocks : List (List UInt8)}
    (hheads : blocks.map headOf = heads) :
    blocks.foldl note (fun _ _ => 0) = noted dev.eps := by
  have hnamed := h.named
  rw [foldl_note, hheads, ← h.eps, List.foldl_map, noted]
  generalize dev.eps = eps at hnamed
  generalize (fun _ _ => 0 : EpTable UInt8) = table
  induction eps generalizing table with
  | nil => rfl
  | cons ep eps ih =>
    obtain ⟨⟨hlt, haddr⟩, hrest⟩ := List.forall_mem_cons.mp hnamed
    rw [List.foldl_cons, List.foldl_cons, haddr, epNumber_epAddr _ hlt, epDir_epAddr _ hlt]
    exact ih hrest _

/-- The last endpoint of a number and direction is the one noted. -/
theorem noted_last {eps : List Ep} {e : Nat} {ep : Ep} (hget : eps[e]? = some ep)
    (hlast : ∀ (later : Nat) (other : Ep), eps[later]? = some other → other.number = ep.number →
      other.dir = ep.dir → later ≤ e) : noted eps ep.number ep.dir = ep.type + 1 := by
  induction eps using List.reverseRecOn with
  | nil => cases hget
  | append_singleton eps q ih =>
    have hfold : noted (eps ++ [q]) = (noted eps).set q.number q.dir (q.type + 1) := by
      rw [noted, List.foldl_append]
      rfl
    have hle : e ≤ eps.length := by
      have := (List.getElem?_eq_some_iff.mp hget).1
      rw [List.length_append, List.length_singleton] at this
      omega
    rw [hfold]
    rcases Nat.lt_or_eq_of_le hle with hlt | rfl
    · have hnot : ¬(ep.number = q.number ∧ ep.dir = q.dir) := fun hand => by
        have := hlast eps.length q List.getElem?_concat_length hand.1.symm hand.2.symm
        omega
      rw [EpTable.set_of_ne _ _ hnot]
      rw [List.getElem?_append_left hlt] at hget
      refine ih hget fun later other hother => hlast later other ?_
      rw [List.getElem?_append_left (List.getElem?_eq_some_iff.mp hother).1, hother]
    · rw [List.getElem?_concat_length] at hget
      cases hget
      rw [EpTable.set_self]

/-- The types of the endpoint table are types. -/
theorem Typed.masked (h : Typed dev heads) {ep : Ep} (hep : ep ∈ dev.eps) :
    ep.type &&& 3 = ep.type := by
  have hmem : (ep.addr, ep.type) ∈ endpoints heads := by
    rw [← h.eps]
    exact List.mem_map_of_mem hep
  obtain ⟨head, -, heq⟩ := List.mem_map.mp hmem
  rw [← (Prod.mk.inj heq).2, UInt8.and_assoc, UInt8.and_self]

/-- A client with nothing learned reads the whole configuration descriptor. -/
def Agrees (dev : Device) : Prop :=
  ∀ ep ∈ dev.eps, ∀ (devid : UInt32) (interval : Int) (setup : List UInt8),
    byteAt setup 0 = 0x80 → byteAt setup 1 = 6 → byteAt setup 3 = 2 →
      ∃ maps, snoop [] devid 0 .usbIn 0 dev.configReply.length (some setup) dev.configReply =
          some maps ∧
        pcapXferClient maps devid ep.number ep.dir interval = pcapXferDev dev ep.number ep.dir

theorem Typed.agrees (h : Typed dev heads) (hsound : dev.Sound) : Agrees dev := by
  intro ep hep devid interval setup hdir hreq htype
  have hreply := configReply_eq h.fits
  obtain ⟨blocks, hdescr, hall, hheads⟩ := h.blob
  have hlen : 0 < dev.configReply.length := by
    rw [hreply]
    exact Nat.zero_lt_succ _
  -- the header is a descriptor like the others
  have hheader : Whole (dev.configReply.take 9) := by
    rw [hreply]
    have hkind : (2 : UInt8) ≠ usbDtInterface ∧ (2 : UInt8) ≠ usbDtEndpoint := by decide
    exact ⟨⟨9, _, rfl, rfl⟩, by simp [u16le], fun hif => absurd hif hkind.1,
      fun hendp => absurd hendp hkind.2⟩
  have hsplit : dev.configReply = [] ++ (dev.configReply.take 9 :: blocks).flatten := by
    rw [List.flatten_cons, ← hdescr, hreply]
    rfl
  obtain ⟨map, maps, hknows, hlearn⟩ := pcapEpmapLearn_blocks
    (List.forall_mem_cons.mpr ⟨hheader, hall⟩) (.fresh : Knows devid _ none []) []
  refine ⟨maps, ?_, ?_⟩
  · rw [snoop, if_pos ⟨rfl, rfl, rfl, hlen, setup, rfl, hdir, hreq, htype⟩, List.take_length]
    rw [← hsplit] at hlearn
    exact hlearn
  · obtain ⟨e, he⟩ := List.mem_iff_getElem?.mp hep
    obtain ⟨e', -, hmap⟩ := h.held e ep he
    obtain ⟨last, hlast, hnum, hdir⟩ := hsound.slot hmap
    obtain ⟨hlt, -⟩ := h.named ep hep
    have hnoted : noted dev.eps last.number last.dir = last.type + 1 := by
      refine noted_last hlast fun later other hother hn hd => ?_
      obtain ⟨e'', hle, hmap'⟩ := h.held later other hother
      rw [hn, hd, hnum, hdir, hmap] at hmap'
      cases hmap'
      exact hle
    have htable : (dev.configReply.take 9 :: blocks).foldl note (fun _ _ => 0) ep.number ep.dir =
        (last.type &&& 3) + 1 := by
      have hskip : note (fun _ _ => 0) (dev.configReply.take 9) = fun _ _ => 0 := by
        rw [hreply]
        rfl
      rw [List.foldl_cons, hskip, h.foldl_blocks hheads, h.masked (List.mem_of_getElem? hlast), ← hnoted,
        hnum, hdir]
    rw [hknows.xferClient hlt ep.dir interval htable, h.masked (List.mem_of_getElem? hlast),
      pcapXferDev, Device.held, hmap, Option.bind_some, hlast]
    by_cases h0 : ep.number = 0
    · rw [if_pos h0, bmattrToUsbmon, if_pos h0]
    · rw [if_neg h0, if_pos hlt]

end typed

/-! ### Runs -/

theorem Typed.apply {dev : Device} {heads : List Head} (h : Typed dev heads) (hsound : dev.Sound)
    {act : BuildAct} (hw : WellFormedAct act) (hspares : AbortSpares dev act) :
    ∃ heads', Typed (dev.apply act).1 heads' := by
  cases act with
  | add act => exact h.applyAdd hw
  | onControl ifnum slot =>
    rw [Device.apply, Device.onControl]
    split
    · exact ⟨heads, h.congr rfl rfl rfl rfl rfl⟩
    · split
      · exact ⟨heads, h.congr rfl rfl rfl rfl rfl⟩
      · exact ⟨heads, h⟩
  | onSetAlt ifnum slot =>
    rw [Device.apply, Device.onSetAlt]
    split
    · exact ⟨heads, h.congr rfl rfl rfl rfl rfl⟩
    · exact ⟨heads, h⟩
  | enableMsos group compatible guid =>
    have hstep := dev.msosAdd_step group compatible guid
    rw [Device.apply]
    generalize dev.msosAdd group compatible guid = r at hstep
    cases hstep with
    | full => exact ⟨heads, h⟩
    | replaced | added => exact ⟨heads, h.congr rfl rfl rfl rfl rfl⟩
  | enableWebusb | configure => exact ⟨heads, h.congr rfl rfl rfl rfl rfl⟩
  | setInterfaceString ifnum alt istr => exact ⟨heads, h.setInterfaceString ifnum alt istr⟩
  | groupBegin => exact ⟨heads, h.groupBegin⟩
  | groupAbort => exact h.groupAbort hsound hspares

/-- In every run of calls in which no rolled-back group has taken anything from an older one, the
client and the server call every endpoint of the device the same; and the client's walk comes to an
end inside every string of bytes. -/
theorem types_agree (header : DeviceHeader) {acts : List BuildAct}
    (hw : ∀ act ∈ acts, WellFormedAct act)
    (hspares : Guarded step AbortSpares (create header) acts) :
    Throughout step Agrees (create header) acts ∧
      ∀ devid cfg maps, (pcapEpmapLearn devid cfg 0 none maps).isSome := by
  refine ⟨?_, fun devid cfg maps => pcapEpmapLearn_isSome devid cfg 0 none maps⟩
  refine throughout_of_guarded (I := fun dev => dev.Sound ∧ ∃ heads, Typed dev heads)
    (C := fun dev act => WellFormedAct act ∧ AbortSpares dev act) ?_ ?_
    ⟨.create header, [], .create header⟩ ((Guarded.of_forall hw _).and hspares)
  · rintro dev ⟨hsound, heads, h⟩
    exact h.agrees hsound
  · rintro dev act dev' ⟨hsound, heads, h⟩ ⟨hact, hsp⟩ hst
    cases hst
    exact ⟨hsound.apply act, h.apply hsound hact hsp⟩

def interruptDesc (addr : UInt8) : List UInt8 := [7, 5, addr, 3, 8, 0, 10]

/-- An interrupt endpoint, and a group that is rolled back. -/
def rolledRun (ifnum alt addr : UInt8) : List BuildAct :=
  [.groupBegin, .add (.addDescriptor (interfaceDesc 0 0)), .add (.addEndpoint (interruptDesc 0x81)),
    .groupBegin, .add (.addDescriptor (interfaceDesc ifnum alt)),
    .add (.addEndpoint (interruptDesc addr)), .groupAbort]

/-- An alternate setting that is rolled back takes the slot of the endpoint whose address it
reuses. -/
theorem types_disagree :
    ¬∀ (header : DeviceHeader) (acts : List BuildAct), (∀ act ∈ acts, WellFormedAct act) →
      Throughout step Agrees (create header) acts := by
  intro h
  have hw : ∀ act ∈ rolledRun 0 1 0x81, WellFormedAct act := by decide
  have hend := (h ⟨0, 0, 0, 0, 0, 0, 0, 0, 0⟩ _ hw).last (exec_step _ _)
  have hep : newEp (interruptDesc 0x81) 0 1 ∈
      ((create ⟨0, 0, 0, 0, 0, 0, 0, 0, 0⟩).run (rolledRun 0 1 0x81)).1.eps := by decide
  obtain ⟨maps, hread, hsame⟩ := hend _ hep 0 0 [0x80, 6, 0, 2, 0, 0, 255, 0] rfl rfl rfl
  have hserver : pcapXferDev ((create ⟨0, 0, 0, 0, 0, 0, 0, 0, 0⟩).run (rolledRun 0 1 0x81)).1 1
      .usbIn = .bulk := by decide
  -- what the client reads
  have hwhole : ∀ b ∈ [[9, 2, 25, 0, 1, 1, 0, 0x80, 50], [9, 4, 0, 0, 1, 0xff, 0, 0, 0],
      interruptDesc 0x81], Whole b := by
    simp only [List.forall_mem_cons]
    exact ⟨⟨⟨9, _, rfl, rfl⟩, by decide, by decide, by decide⟩,
      ⟨⟨9, _, rfl, rfl⟩, by decide, by decide, by decide⟩,
      ⟨⟨7, _, rfl, rfl⟩, by decide, by decide, by decide⟩, fun _ h => nomatch h⟩
  obtain ⟨map, maps', hknows, hlearn⟩ := pcapEpmapLearn_blocks hwhole (.fresh : Knows 0 _ none []) []
  have hread' : some maps' = some maps := hlearn.symm.trans hread
  cases hread'
  have hclient : pcapXferClient maps 0 1 .usbIn 0 = bmattrToUsbmon (3 &&& 3) 1 :=
    hknows.xferClient (by decide) .usbIn 0 (by decide)
  exact absurd (hclient.symm.trans (hsame.trans hserver)) (by decide)

theorem types_agree_rolledRun :
    Throughout step Agrees (create ⟨0, 0, 0, 0, 0, 0, 0, 0, 0⟩) (rolledRun 1 0 0x82) ∧
      ∀ devid cfg maps, (pcapEpmapLearn devid cfg 0 none maps).isSome :=
  types_agree _ (by decide) (by decide)

end Usbip.Capture
