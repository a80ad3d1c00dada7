import Usbip.Capture.Types
import Usbip.Control.Consistent
import Usbip.Host.Requests
import Usbip.Libusb.Tree

/-! What the application adds is what the host enumerates: the configuration from the calls that
build it, over the two control transfers that fetch it, to the tree that libusb makes of it. -/

namespace Usbip

open Lib Libusb
open Capture (Whole Head)

/-! ### The descriptors placed -/

namespace Placed

/-- The bytes are those of a descriptor of its kind, with the numbers that the record has. -/
structure Kind (p : Placed) : Prop where
  whole : Whole p.bytes
  interface : ∀ s, p.setting = some s → byteAt p.bytes 1 = usbDtInterface ∧
    byteAt p.bytes 2 = s.1 ∧ byteAt p.bytes 3 = s.2
  not_interface : p.setting = none → byteAt p.bytes 1 ≠ usbDtInterface
  endpoint : ∀ a, p.addr = some a → byteAt p.bytes 1 = usbDtEndpoint ∧ byteAt p.bytes 2 = a
  not_endpoint : p.addr = none → byteAt p.bytes 1 ≠ usbDtEndpoint

/-- The endpoint that a host reads there. -/
def endpointDesc : Placed → Option EndpointDescriptor
  | .endpoint _ bytes => some (.read bytes)
  | _ => none

end Placed

section

variable {desc : List UInt8}

theorem byteAt_normalize (i : Nat) (h : i + 1 < descLen desc) :
    byteAt (normalize desc) (i + 1) = byteAt desc (i + 1) := by
  rw [byteAt, List.getD_eq_getElem?_getD, normalize_getElem? h]
  rfl

theorem Capture.WellFormed.kind_interface (hw : Capture.WellFormed desc)
    (kind : byteAt desc 1 = usbDtInterface) :
    (Placed.interface (byteAt desc 2) (byteAt desc 3) (normalize desc)).Kind where
  whole := hw.whole
  interface s hs := by
    cases hs
    have := hw.interface kind
    exact ⟨(byteAt_normalize 0 (by omega)).trans kind, byteAt_normalize 1 (by omega),
      byteAt_normalize 2 (by omega)⟩
  not_interface h := nomatch h
  endpoint a h := nomatch h
  not_endpoint _ := by
    have := hw.interface kind
    have h1 : byteAt (normalize desc) 1 = usbDtInterface :=
      (byteAt_normalize 0 (by omega)).trans kind
    intro hep
    exact absurd (h1.symm.trans hep) (by decide)

theorem Capture.WellFormed.kind_endpoint (hw : Capture.WellFormed desc)
    (kind : byteAt desc 1 = usbDtEndpoint) (addr : UInt8) :
    (Placed.endpoint addr ((normalize desc).set 2 addr)).Kind where
  whole := (hw.patched kind addr).1
  interface s h := nomatch h
  not_interface _ := by
    have h1 : byteAt ((normalize desc).set 2 addr) 1 = usbDtEndpoint :=
      congrArg Head.kind (hw.patched kind addr).2
    intro hif
    exact absurd (hif.symm.trans h1) (by decide)
  endpoint a ha := by
    cases ha
    have h := (hw.patched kind addr).2
    exact ⟨congrArg Head.kind h, congrArg Head.addr h⟩
  not_endpoint h := nomatch h

theorem Capture.WellFormed.kind_other (hw : Capture.WellFormed desc)
    (not_interface : byteAt desc 1 ≠ usbDtInterface) (not_endpoint : byteAt desc 1 ≠ usbDtEndpoint) :
    (Placed.other (normalize desc)).Kind := by
  have h1 : byteAt (normalize desc) 1 = byteAt desc 1 :=
    byteAt_normalize 0 (by have := hw.other; omega)
  exact
    { whole := hw.whole
      interface := fun s h => nomatch h
      not_interface := fun _ h => not_interface (h1.symm.trans h)
      endpoint := fun a h => nomatch h
      not_endpoint := fun _ h => not_endpoint (h1.symm.trans h) }

end

theorem kind_step {t t' : AddTrace} {desc : List UInt8} (h : ∀ p ∈ t.placed, p.Kind)
    (hw : Capture.WellFormed desc) (hs : AddTrace.AddStep t desc t') : ∀ p ∈ t'.placed, p.Kind := by
  cases hs with
  | refused => exact h
  | interface _ kind =>
    exact List.forall_mem_append.mpr ⟨h, List.forall_mem_singleton.mpr (hw.kind_interface kind)⟩
  | endpoint _ kind =>
    exact List.forall_mem_append.mpr ⟨h, List.forall_mem_singleton.mpr (hw.kind_endpoint kind _)⟩
  | other _ hi he =>
    exact List.forall_mem_append.mpr ⟨h, List.forall_mem_singleton.mpr (hw.kind_other hi he)⟩

/-- What is kept by every call that builds the device. -/
structure Enumerable (t : AddTrace) : Prop extends t.Configured where
  kind : ∀ p ∈ t.placed, p.Kind

theorem AddTrace.WellFormed.capture {desc : List UInt8} (h : AddTrace.WellFormed desc) :
    Capture.WellFormed desc :=
  ⟨fun kind => (h.interface kind).1, h.endpoint, h.other⟩

theorem enumerable_of_recorded (header : DeviceHeader) {acts : List AddAct}
    (h : AddTrace.WellFormedCalls acts)
    (hrec : Guarded AddTrace.step AddTrace.Recorded (.new header) acts) {t : AddTrace}
    (ht : exec AddTrace.step (.new header) acts = some t) : Enumerable t := by
  have hwell := AddTrace.guarded_of_wellFormed h (t := .new header) fun _ _ _ _ hmem => nomatch hmem
  refine guarded_invariant (I := Enumerable) (C := fun t act => AddTrace.WellFormedCall t act ∧
    AddTrace.Recorded t act) (fun t act t' hi hC hs => ?_)
    ⟨.new header, fun _ hp => nomatch hp⟩ (hwell.and hrec) ht
  obtain ⟨hw, hrec⟩ := hC
  cases hs
  cases act with
  | addDescriptor desc | addEndpoint desc =>
    obtain ⟨hdesc, hnew⟩ := hw desc rfl
    exact ⟨hi.add (t.add_step desc) hdesc hnew (hrec desc rfl),
      kind_step hi.kind hdesc.capture (t.add_step desc)⟩
  | reserveEndpoint wantAddr =>
    refine ⟨hi.reserve, ?_⟩
    have hs := t.reserve_step wantAddr
    show ∀ p ∈ (t.reserve wantAddr).placed, p.Kind
    generalize t.reserve wantAddr = t' at hs
    cases hs with
    | refused | reserved => exact hi.kind

/-! ### The sections of the blob -/

section

variable {p : Placed} {l : List Placed}

theorem Placed.Kind.withCount (h : p.Kind) (n : Nat) : Whole (p.withCount n) ∧
    byteAt (p.withCount n) 1 = byteAt p.bytes 1 ∧ byteAt (p.withCount n) 2 = byteAt p.bytes 2 ∧
      byteAt (p.withCount n) 3 = byteAt p.bytes 3 := by
  cases p with
  | endpoint | other => exact ⟨h.whole, rfl, rfl, rfl⟩
  | interface ifnum alt bytes =>
    have hbyte : ∀ i, i ≠ 4 → byteAt (bytes.set 4 n.toUInt8) i = byteAt bytes i := by
      intro i hi
      rw [byteAt, byteAt, List.getD_eq_getElem?_getD, List.getElem?_set_ne (Ne.symm hi),
        List.getD_eq_getElem?_getD]
    have hlen : (bytes.set 4 n.toUInt8).length = bytes.length := List.length_set
    obtain ⟨hframed, hlong, hif, hep⟩ := h.whole
    refine ⟨⟨hframed.set 3 _, hlen ▸ hlong, ?_, ?_⟩, hbyte 1 (by decide), hbyte 2 (by decide),
      hbyte 3 (by decide)⟩
    · intro h1
      exact hlen ▸ hif ((hbyte 1 (by decide)).symm.trans h1)
    · intro h1
      exact hlen ▸ hep ((hbyte 1 (by decide)).symm.trans h1)

theorem whole_counted (h : ∀ p ∈ l, p.Kind) : ∀ b ∈ counted l, Whole b := by
  induction l with
  | nil => exact List.forall_mem_nil _
  | cons p l ih =>
    obtain ⟨hp, hl⟩ := List.forall_mem_cons.mp h
    exact List.forall_mem_cons.mpr ⟨(hp.withCount _).1, ih hl⟩

/-- The blob has an interface descriptor where one was placed. -/
theorem Placed.Kind.ifaceHead (h : p.Kind) (n : Nat) :
    ifaceHead (p.withCount n) = p.setting.map fun _ => p.withCount n := by
  rw [Libusb.ifaceHead, (h.withCount n).2.1]
  cases hs : p.setting with
  | none => exact if_neg (h.not_interface hs)
  | some s => exact if_pos (h.interface s hs).1

/-- Behind an interface descriptor the blob has the descriptors that were placed there. -/
theorem upToHead_counted (h : ∀ p ∈ l, p.Kind) :
    upToHead ifaceHead (counted l) = (upToHead Placed.setting l).map Placed.bytes := by
  induction l with
  | nil => rfl
  | cons p l ih =>
    obtain ⟨hp, hl⟩ := List.forall_mem_cons.mp h
    have ih := ih hl
    simp only [upToHead] at ih
    simp only [upToHead, counted, List.takeWhile_cons, hp.ifaceHead, Option.isNone_map]
    cases hs : p.setting with
    | none =>
      simp only [Option.isNone_none, if_true, ih, List.map_cons]
      rw [withCount_of_none hs]
    | some s => rfl

theorem filter_endpoints (h : ∀ p ∈ l, p.Kind) :
    ((l.map Placed.bytes).filter Capture.isEndpoint).map EndpointDescriptor.read =
      l.filterMap Placed.endpointDesc := by
  induction l with
  | nil => rfl
  | cons p l ih =>
    obtain ⟨hp, hl⟩ := List.forall_mem_cons.mp h
    rw [List.map_cons]
    cases p with
    | endpoint addr bytes =>
      have hep : Capture.isEndpoint bytes = true := decide_eq_true (hp.endpoint addr rfl).1
      show ((bytes :: l.map Placed.bytes).filter Capture.isEndpoint).map EndpointDescriptor.read = _
      rw [List.filter_cons_of_pos hep, List.map_cons, ih hl]
      rfl
    | interface ifnum alt bytes | other bytes =>
      have hep : Capture.isEndpoint bytes = false := decide_eq_false (hp.not_endpoint rfl)
      rw [List.filter_cons_of_neg (by simpa [Placed.bytes] using hep), ih hl]
      rfl

/-- The addresses of the endpoints that a host reads are those that were allocated. -/
theorem endpointDesc_addrs (h : ∀ p ∈ l, p.Kind) :
    (l.filterMap Placed.endpointDesc).map EndpointDescriptor.bEndpointAddress = addrs l := by
  induction l with
  | nil => rfl
  | cons p l ih =>
    obtain ⟨hp, hl⟩ := List.forall_mem_cons.mp h
    cases p with
    | endpoint addr bytes => exact congrArg₂ List.cons (hp.endpoint addr rfl).2 (ih hl)
    | interface | other => exact ih hl

end

/-! ### The tree -/

/-- What a host finds of an alternate setting. -/
structure Found where
  ifnum : UInt8
  alt : UInt8
  endpoint : List EndpointDescriptor
  extra : List UInt8
  deriving DecidableEq, Repr

namespace Found

/-- An interface descriptor that was placed, and the descriptors behind it. -/
def placed (s : (UInt8 × UInt8) × List Placed) : Found where
  ifnum := s.1.1
  alt := s.1.2
  endpoint := s.2.filterMap Placed.endpointDesc
  extra := (s.2.filter fun p => p.addr.isNone).flatMap Placed.bytes

def read (as : InterfaceDescriptor) : Found where
  ifnum := as.bInterfaceNumber
  alt := as.bAlternateSetting
  endpoint := as.endpoint
  extra := as.extra

theorem read_settingOf (b : List UInt8) (descs : List (List UInt8)) :
    read (settingOf (b, descs)) = ⟨byteAt b 2, byteAt b 3,
      (descs.filter Capture.isEndpoint).map EndpointDescriptor.read,
      (descs.filter fun desc => !Capture.isEndpoint desc).flatten⟩ := rfl

end Found

section

variable {l : List Placed}

theorem filter_extra (h : ∀ p ∈ l, p.Kind) :
    ((l.map Placed.bytes).filter fun desc => !Capture.isEndpoint desc).flatten =
      (l.filter fun p => p.addr.isNone).flatMap Placed.bytes := by
  induction l with
  | nil => rfl
  | cons p l ih =>
    obtain ⟨hp, hl⟩ := List.forall_mem_cons.mp h
    rw [List.map_cons]
    cases ha : p.addr with
    | some a =>
      have hep : Capture.isEndpoint p.bytes = true := decide_eq_true (hp.endpoint a ha).1
      rw [List.filter_cons_of_neg (by simp [hep]), List.filter_cons_of_neg (by simp [ha]), ih hl]
    | none =>
      have hep : Capture.isEndpoint p.bytes = false := decide_eq_false (hp.not_endpoint ha)
      rw [List.filter_cons_of_pos (by simp [hep]), List.filter_cons_of_pos (by simp [ha]),
        List.flatten_cons, List.flatMap_cons, ih hl]

/-- The host reads the alternate settings that were placed. -/
theorem sections_counted (h : ∀ p ∈ l, p.Kind) :
    (sections ifaceHead (counted l)).map (fun s => Found.read (settingOf s)) =
      (sections Placed.setting l).map Found.placed := by
  induction l with
  | nil => rfl
  | cons p l ih =>
    obtain ⟨hp, hl⟩ := List.forall_mem_cons.mp h
    have hhead := hp.ifaceHead (addrs (upToHead Placed.setting l)).length
    rw [counted, sections, sections, hhead]
    cases hs : p.setting with
    | none => exact ih hl
    | some s =>
      obtain ⟨-, hnum, halt⟩ := hp.interface s hs
      have hup : ∀ q ∈ upToHead Placed.setting l, q.Kind := fun q hq =>
        hl q (List.takeWhile_sublist _ |>.subset hq)
      obtain ⟨-, -, hnum', halt'⟩ := hp.withCount (addrs (upToHead Placed.setting l)).length
      refine congrArg₂ List.cons ?_ (ih hl)
      rw [upToHead_counted hl]
      show Found.read (settingOf (p.withCount (addrs (upToHead Placed.setting l)).length,
        (upToHead Placed.setting l).map Placed.bytes)) = Found.placed (s, upToHead Placed.setting l)
      rw [Found.read_settingOf, filter_endpoints hup, filter_extra hup,
        hnum'.trans hnum, halt'.trans halt]
      rfl

end

/-- A blob is parsed to the alternate settings that were placed, grouped by interface. -/
theorem parse_placed {header : List UInt8} {l : List Placed} (hlen : header.length = 9)
    (hfirst : byteAt header 0 = 9) (htype : byteAt header 1 = libusbDtConfig)
    (h : ∀ p ∈ l, p.Kind) (hfew : ((settings l).map Prod.fst).dedup.length ≤ 64) :
    ∃ tree, parseConfig (header ++ (counted l).flatten) = some tree ∧
      tree.interface.map (fun iface => iface.altsetting.map Found.read) =
        groups Found.ifnum ((sections Placed.setting l).map Found.placed) ∧
      tree.extra = (upToHead Placed.setting l).flatMap Placed.bytes ∧
      (tree.interface.flatMap Interface.altsetting).Perm
        ((sections ifaceHead (counted l)).map settingOf) := by
  have hbyte : ∀ k < 9, byteAt (header ++ (counted l).flatten) k = byteAt header k := by
    intro k hk
    rw [byteAt, byteAt, List.getD_eq_getElem?_getD, List.getD_eq_getElem?_getD,
      List.getElem?_append_left (by omega)]
  have hpos : headerLen (header ++ (counted l).flatten) = header.length := by
    rw [headerLen, hbyte 0 (by omega), hfirst, hlen]
    rfl
  have hlong : 9 ≤ (header ++ (counted l).flatten).length := by
    rw [List.length_append]
    omega
  obtain ⟨tree, htree, ⟨hinterface, -⟩, hextra⟩ :=
    exists_parseConfig hlong ((hbyte 1 (by omega)).trans htype)
  have hwhole := whole_counted h
  have hrest : (header ++ (counted l).flatten).drop header.length = (counted l).flatten :=
    List.drop_left ..
  have hparsed := parseDescs_drop hwhole hrest ⟨[], []⟩
  have hfound := sections_counted h
  have hnums : ((sections ifaceHead (counted l)).map TmpAlt.of).map TmpAlt.num =
      (settings l).map Prod.fst := by
    have h1 := congrArg (List.map Found.ifnum) hfound
    rw [List.map_map, List.map_map] at h1
    rw [settings, ← sections_heads, List.map_map, List.map_map]
    exact h1
  have hfew : (((sections ifaceHead (counted l)).map TmpAlt.of).map TmpAlt.num).dedup.length ≤ 64 := by
    rw [hnums]
    exact hfew
  have hordered := buckets_ordered hfew
  rw [hpos, hparsed, pushAll_alts hwhole, hordered.interfaces, List.map_map] at hinterface
  refine ⟨tree, htree, ?_, ?_, ?_⟩
  · rw [hinterface, ← hfound, List.map_map, groups_map, groups_map, List.map_map]
    apply List.map_congr_left
    intro group _
    exact List.map_map
  · rw [hextra, hpos, hparsed, pushAll_cfgExtra hwhole, List.nil_append, upToHead_counted h]
    exact (List.flatMap_def ..).symm
  · rw [hinterface, flatMap_altsetting]
    exact groups_perm _ _

/-! ### The host -/

namespace Host

open Wire Control

/-- `GET_DESCRIPTOR(CONFIGURATION)`. -/
def getConfigDescriptor (len : UInt16) : ControlCall := getDescriptor 2 0 0 len

/-- `fetch_config_blob` on a connection, with the cached blob: `malloc` is whether there is memory for
so many bytes. -/
def fetchConfigBlob (malloc : Nat → Bool) (cfgRaw : Option (List UInt8)) :
    Calls ControlCall Outcome (Option (List UInt8) × Int) :=
  if cfgRaw.isSome then .done (cfgRaw, libusbSuccess)
  else
    .call (getConfigDescriptor 9) fun hdr =>
      if hdr.rc < 0 ∨ hdr.actual < 4 then .done (none, libusbErrorIo)
      else
        let total := if getLe16 (hdr.data.drop 2) < 9 then 9 else getLe16 (hdr.data.drop 2)
        if malloc total.toNat then
          .call (getConfigDescriptor total) fun blob =>
            if blob.rc < 0 ∨ blob.actual < 9 then .done (none, libusbErrorIo)
            else .done (some blob.data, libusbSuccess)
        else .done (none, libusbErrorNoMem)

def buildConfig (malloc : Nat → Bool) (cfgRaw : Option (List UInt8)) :
    Calls ControlCall Outcome (Option (List UInt8) × Except Int ConfigDescriptor) :=
  (fetchConfigBlob malloc cfgRaw).bind fun got =>
    .done (got.1,
      if got.2 < 0 then .error got.2
      else
        match got.1.bind parseConfig with
        | none => .error libusbErrorIo
        | some cfg => .ok cfg)

def libusbGetConfigDescriptor (malloc : Nat → Bool) (index : UInt8)
    (cfgRaw : Option (List UInt8)) :
    Calls ControlCall Outcome (Option (List UInt8) × Except Int ConfigDescriptor) :=
  if index ≠ 0 then .done (cfgRaw, .error libusbErrorNotFound) else buildConfig malloc cfgRaw

/-- The search of `libusb_get_max_packet_size`. -/
def maxPacketSize (cfg : ConfigDescriptor) (endpoint : UInt8) : Int :=
  let eps := cfg.interface.flatMap fun iface =>
    iface.altsetting.flatMap fun as => as.endpoint.take as.bNumEndpoints.toNat
  match eps.find? fun ep => ep.bEndpointAddress = endpoint with
  | some ep => ep.wMaxPacketSize.toNat
  | none => libusbErrorNotFound

section

variable {σ : Type} {dev : ControlDevice σ} {st : σ}

/-- The answer of the device to a request for its configuration. -/
theorem serve_config (hfits : (dev.described st).dev.descr.length ≤ descrCap) (len : UInt16)
    (stack : Stack) : dev.serve stack st (getConfigDescriptor len) =
      (st, .of 0 (min (dev.described st).dev.configReply.length len.toNat : Nat)
        ((dev.described st).dev.configReply.take len.toNat)) := by
  have hlen : ((dev.described st).buildConfigDesc scratchLen).len =
      (dev.described st).dev.configReply.length := by
    rw [Device.configReply_eq hfits]
    simp only [Described.buildConfigDesc, scratchLen, List.length_append, List.length_cons,
      List.length_nil, Device.u16le]
    simp only [descrCap] at hfits
    omega
  have hreply : ((dev.described st).buildConfigDesc scratchLen).reply stack.scratch =
      (dev.described st).dev.configReply :=
    Built.reply_eq (.cons _ <| .single _ _) hlen stack.scratch
  have hasked : (dev.described st).asked (getConfigDescriptor len).setup = some .config :=
    asked_getDescriptor _ _ _ _ _
  have h := serve_answer hasked rfl rfl (ControlCall.isIn_read _ _ _ _) stack
  rw [hreply, hlen] at h
  exact h

/-- The two requests of `fetch_config_blob` get the whole descriptor. -/
theorem run_fetchConfigBlob (hfits : (dev.described st).dev.descr.length ≤ descrCap)
    {malloc : Nat → Bool} (hmalloc : malloc (dev.described st).dev.configReply.length = true)
    (frames : Nat → Stack) : (fetchConfigBlob malloc none).run (serveLocal dev) (st, frames) =
      ((st, fun i => frames (i + 2)), (some (dev.described st).dev.configReply, libusbSuccess)) := by
  generalize hreply : (dev.described st).dev.configReply = reply
  have hserve : ∀ len frames, serveLocal dev (st, frames) (getConfigDescriptor len) =
      ((st, fun i => frames (i + 1)), ⟨0, (min reply.length len.toNat : Nat),
        reply.take len.toNat⟩) := by
    intro len frames
    rw [serveLocal, serve_config hfits, hreply]
    rfl
  rw [hreply] at hmalloc
  rw [Device.configReply_eq hfits] at hreply
  have hlen : reply.length = 9 + (dev.described st).dev.descr.length := by
    rw [← hreply]
    simp only [List.length_append, List.length_cons, List.length_nil, Device.u16le]
  have hcap : reply.length < 2 ^ 16 := by
    simp only [descrCap] at hfits
    omega
  have htotal : getLe16 ((reply.take 9).drop 2) = reply.length.toUInt16 := by
    have hword := le16_u16le hcap
    rw [hlen] at hword
    rw [hlen, ← hreply]
    show UInt16.ofNat (_ + _ * 256) = _
    rw [Nat.mul_comm]
    exact congrArg UInt16.ofNat hword
  have htotal' : reply.length.toUInt16.toNat = reply.length := UInt16.toNat_ofNat_of_lt' hcap
  have hmin : min reply.length 9 = 9 := by omega
  have hsmall : ¬reply.length.toUInt16 < 9 := by
    rw [UInt16.lt_iff_toNat_lt, htotal']
    have h9 : (9 : UInt16).toNat = 9 := rfl
    omega
  have hfirst := hserve 9 frames
  have hsecond := hserve reply.length.toUInt16 fun i => frames (i + 1)
  rw [htotal', Nat.min_self, List.take_length] at hsecond
  have h9 : (9 : UInt16).toNat = 9 := rfl
  rw [h9, hmin] at hfirst
  rw [fetchConfigBlob, if_neg (by simp), Calls.run, hfirst]
  simp only [htotal]
  rw [if_neg (by decide), if_neg hsmall, htotal', if_pos hmalloc, Calls.run, hsecond]
  simp only
  rw [if_neg (by omega)]
  rfl

/-- The addresses of the endpoints that are placed behind an interface descriptor. -/
def settingAddrs (placed : List Placed) : List UInt8 :=
  (sections Placed.setting placed).flatMap fun s => addrs s.2

/-- The tree has what was placed, and nothing else. -/
structure Enumerated (placed : List Placed) (tree : ConfigDescriptor) : Prop where
  interface : tree.interface.map (fun iface => iface.altsetting.map Found.read) =
    groups Found.ifnum ((sections Placed.setting placed).map Found.placed)
  extra : tree.extra = (upToHead Placed.setting placed).flatMap Placed.bytes
  addresses : ((tree.interface.flatMap Interface.altsetting).flatMap fun as =>
    as.endpoint.map EndpointDescriptor.bEndpointAddress).Perm (settingAddrs placed)
  sized : ∀ a, maxPacketSize tree a = libusbErrorNotFound ↔ a ∉ settingAddrs placed

/-- What stands behind an interface descriptor has been placed. -/
theorem sublist_of_mem_sections {l : List Placed} {s : (UInt8 × UInt8) × List Placed}
    (hs : s ∈ sections Placed.setting l) : s.2.Sublist l := by
  obtain ⟨before, p, after, rfl, -, hrest⟩ := mem_sections hs
  rw [hrest]
  exact (List.takeWhile_sublist _).trans ((List.sublist_cons_self p after).trans
    (List.sublist_append_right before _))

theorem addresses_counted {l : List Placed} (h : ∀ p ∈ l, p.Kind) :
    ((sections ifaceHead (counted l)).map settingOf).flatMap (fun as =>
      as.endpoint.map EndpointDescriptor.bEndpointAddress) = settingAddrs l := by
  have hfound := congrArg (List.flatMap fun found : Found =>
    found.endpoint.map EndpointDescriptor.bEndpointAddress) (sections_counted h)
  rw [List.flatMap_map, List.flatMap_map] at hfound
  rw [List.flatMap_map]
  refine hfound.trans ?_
  apply List.flatMap_congr
  intro s hs
  exact endpointDesc_addrs fun p hp => h p ((sublist_of_mem_sections hs).subset hp)

/-- No alternate setting has more endpoints than its byte counts. -/
theorem numEndpoints_counted {l : List Placed} (h : ∀ p ∈ l, p.Kind)
    (hcount : (addrs l).length < 256) : ∀ s ∈ sections ifaceHead (counted l),
      (settingOf s).bNumEndpoints.toNat = (settingOf s).endpoint.length := by
  intro s hs
  have hmem : Found.read (settingOf s) ∈ (sections Placed.setting l).map Found.placed := by
    rw [← sections_counted h]
    exact List.mem_map_of_mem hs
  obtain ⟨s', hs', heq⟩ := List.mem_map.mp hmem
  have hsub := sublist_of_mem_sections hs'
  have hlen : (addrs s'.2).length = (settingOf s).endpoint.length := by
    rw [← endpointDesc_addrs fun p hp => h p (hsub.subset hp), List.length_map]
    exact congrArg (fun found => found.endpoint.length) heq
  apply settingOf_numEndpoints
  have hle : (addrs s'.2).length ≤ (addrs l).length := (hsub.filterMap _).length_le
  have hfilter : (settingOf s).endpoint.length = (s.2.filter Capture.isEndpoint).length :=
    List.length_map _
  omega

theorem enumerated_of_placed (header : List UInt8) {l : List Placed} (hlen : header.length = 9)
    (hfirst : byteAt header 0 = 9) (htype : byteAt header 1 = libusbDtConfig)
    (h : ∀ p ∈ l, p.Kind) (hcount : (addrs l).length < 256)
    (hfew : ((settings l).map Prod.fst).dedup.length ≤ 64) :
    ∃ tree, parseConfig (header ++ (counted l).flatten) = some tree ∧ Enumerated l tree := by
  obtain ⟨tree, htree, hinterface, hextra, hperm⟩ := parse_placed hlen hfirst htype h hfew
  have haddresses := (hperm.flatMap_right fun as =>
    as.endpoint.map EndpointDescriptor.bEndpointAddress).trans (.of_eq (addresses_counted h))
  refine ⟨tree, htree, hinterface, hextra, haddresses, fun a => ?_⟩
  have hall : ∀ as ∈ tree.interface.flatMap Interface.altsetting,
      as.endpoint.take as.bNumEndpoints.toNat = as.endpoint := by
    intro as has
    obtain ⟨s, hs, rfl⟩ := List.mem_map.mp (hperm.mem_iff.mp has)
    rw [numEndpoints_counted h hcount s hs, List.take_length]
  have heps : (tree.interface.flatMap fun iface => iface.altsetting.flatMap fun as =>
      as.endpoint.take as.bNumEndpoints.toNat) =
      (tree.interface.flatMap Interface.altsetting).flatMap InterfaceDescriptor.endpoint := by
    rw [← List.flatMap_assoc]
    exact List.flatMap_congr hall
  have hmem : a ∈ settingAddrs l ↔ ∃ ep ∈ (tree.interface.flatMap Interface.altsetting).flatMap
      InterfaceDescriptor.endpoint, ep.bEndpointAddress = a := by
    rw [← haddresses.mem_iff, ← List.map_flatMap, List.mem_map]
  rw [maxPacketSize, heps, hmem]
  split
  · rename_i ep hfind
    refine iff_of_false ?_ (not_not_intro ⟨ep, List.mem_of_find?_eq_some hfind, ?_⟩)
    · simp only [libusbErrorNotFound]
      omega
    · have haddr := List.find?_some hfind
      exact of_decide_eq_true haddr
  · rename_i hfind
    refine iff_of_true rfl ?_
    rintro ⟨ep, hep, haddr⟩
    exact List.find?_eq_none.mp hfind ep hep (decide_eq_true haddr)

theorem fits_config (st : σ) (len : UInt16) : dev.Fits st (getConfigDescriptor len).setup := by
  have hasked : (dev.described st).asked (getConfigDescriptor len).setup = some .config :=
    asked_getDescriptor _ _ _ _ _
  rw [ControlDevice.Fits, Described.Fits, hasked]
  trivial

theorem meets_fetchConfigBlob (malloc : Nat → Bool) (s : σ × (Nat → Stack)) :
    (fetchConfigBlob malloc none).Meets (serveLocal dev) (fun s q => dev.Fits s.1 q.setup) s := by
  refine ⟨fits_config s.1 9, ?_⟩
  dsimp only
  split
  · trivial
  · generalize (if getLe16 ((serveLocal dev s (getConfigDescriptor 9)).2.data.drop 2) < 9 then 9
      else getLe16 ((serveLocal dev s (getConfigDescriptor 9)).2.data.drop 2)) = total
    split
    · refine ⟨fits_config _ _, ?_⟩
      dsimp only
      split
      · trivial
      · trivial
    · trivial

/-- What the application has added is what a host finds that asks for the configuration over the
wire: each interface with its alternate settings, each of these with its endpoints under the addresses
that were allocated, and nothing else.  The device is as before. -/
theorem enumerated (header : DeviceHeader) {acts : List AddAct} (h : AddTrace.WellFormedCalls acts)
    (hrec : Guarded AddTrace.step AddTrace.Recorded (.new header) acts) {t : AddTrace}
    (ht : exec AddTrace.step (.new header) acts = some t)
    (hfew : ((settings t.placed).map Prod.fst).dedup.length ≤ 64)
    (hdev : (dev.described st).dev = t.dev) {malloc : Nat → Bool}
    (hmalloc : malloc t.dev.configReply.length = true) (devid : UInt32) (frames : Nat → Stack)
    (seq : UInt32) : ∃ seq' tree,
      (controlLink dev devid).run ⟨(st, frames), seq, [], []⟩
          (libusbGetConfigDescriptor malloc 0 none) =
        some (⟨(st, fun i => frames (i + 2)), seq', [], []⟩,
          (some t.dev.configReply, .ok tree)) ∧
      Enumerated t.placed tree := by
  have ht := enumerable_of_recorded header h hrec ht
  have hmeets : (libusbGetConfigDescriptor malloc 0 none).Meets (serveLocal dev)
      (fun s q => dev.Fits s.1 q.setup) (st, frames) :=
    Calls.Meets.bind (meets_fetchConfigBlob malloc _) trivial
  obtain ⟨seq', hrun⟩ := (controlLink_carries dev devid).run_eq hmeets seq
  have hfits := ht.laid.fits
  have hblob := Device.configReply_eq hfits
  rw [ht.laid.descr] at hblob
  obtain ⟨tree, htree, hof⟩ := enumerated_of_placed
    ([9, 2] ++ Device.u16le (9 + (counted t.placed).flatten.length).toUInt16 ++
      [t.dev.nIfnums.toUInt8, 1, 0, 0x80, 50]) rfl rfl rfl ht.kind
    (ht.laid.described ht.mapped).countable hfew
  rw [← hblob] at htree
  refine ⟨seq', tree, hrun.trans ?_, hof⟩
  rw [libusbGetConfigDescriptor, if_neg (by decide), buildConfig, Calls.run_bind,
    run_fetchConfigBlob (hdev ▸ hfits) (by rw [hdev]; exact hmalloc), hdev]
  simp only [Calls.run]
  rw [if_neg (by decide)]
  simp only [Option.bind_some, htree]

end

instance (t : AddTrace) : DecidablePred t.Recorded := fun act =>
  Option.decidableForallMem act.desc

def sharedTrace : AddTrace := AddTrace.sharedRun.foldl .apply (.new ⟨0, 0, 0, 0, 0, 0, 0, 0, 0⟩)

theorem exec_sharedTrace :
    exec AddTrace.step (.new ⟨0, 0, 0, 0, 0, 0, 0, 0, 0⟩) AddTrace.sharedRun = some sharedTrace := rfl

theorem enumerated_sharedRun : ∃ seq tree,
    (controlLink (.still { withFallback with dev := sharedTrace.dev } fun _ => fillAll) 0x10001).run
        ⟨((), fun _ => ⟨.zero, fun _ => 0⟩), 0, [], []⟩
        (libusbGetConfigDescriptor (fun _ => true) 0 none) =
      some (⟨((), fun _ => ⟨.zero, fun _ => 0⟩), seq, [], []⟩,
        (some sharedTrace.dev.configReply, .ok tree)) ∧
    Enumerated sharedTrace.placed tree :=
  enumerated _ (show AddTrace.WellFormedCalls AddTrace.sharedRun by decide) (by decide +kernel) exec_sharedTrace
    (by decide +kernel) rfl rfl 0x10001 (fun _ => ⟨.zero, fun _ => 0⟩) 0

end Host

end Usbip
