import Usbip.Capture.Learn
import Usbip.Lib.Bytes
import Usbip.Lib.Group
import Usbip.Lib.Sections

/-! The configuration descriptor of the libusb wrapper: `parse_config` makes a tree of interfaces,
alternate settings and endpoints from the bytes that the device sends. -/

namespace Usbip.Libusb

open Lib Capture

def libusbDtConfig : UInt8 := 2

/-- `struct libusb_endpoint_descriptor`. -/
structure EndpointDescriptor where
  bLength : UInt8
  bDescriptorType : UInt8
  bEndpointAddress : UInt8
  bmAttributes : UInt8
  wMaxPacketSize : UInt16
  bInterval : UInt8
  bRefresh : UInt8
  bSynchAddress : UInt8
  extra : List UInt8
  deriving DecidableEq, Repr

/-- `struct libusb_interface_descriptor`, an alternate setting. -/
structure InterfaceDescriptor where
  bLength : UInt8
  bDescriptorType : UInt8
  bInterfaceNumber : UInt8
  bAlternateSetting : UInt8
  bNumEndpoints : UInt8
  bInterfaceClass : UInt8
  bInterfaceSubClass : UInt8
  bInterfaceProtocol : UInt8
  iInterface : UInt8
  endpoint : List EndpointDescriptor
  extra : List UInt8
  deriving DecidableEq, Repr

structure Interface where
  altsetting : List InterfaceDescriptor
  deriving DecidableEq, Repr

structure ConfigDescriptor where
  bLength : UInt8
  bDescriptorType : UInt8
  wTotalLength : UInt16
  bNumInterfaces : UInt8
  bConfigurationValue : UInt8
  iConfiguration : UInt8
  bmAttributes : UInt8
  maxPower : UInt8
  interface : List Interface
  extra : List UInt8
  deriving DecidableEq, Repr

/-- `struct tmp_alt`. -/
structure TmpAlt where
  d : InterfaceDescriptor
  eps : List EndpointDescriptor
  extra : List UInt8

/-- The endpoint descriptor that `parse_config` reads at `desc`. -/
def EndpointDescriptor.read (desc : List UInt8) : EndpointDescriptor where
  bLength := byteAt desc 0
  bDescriptorType := byteAt desc 1
  bEndpointAddress := byteAt desc 2
  bmAttributes := byteAt desc 3
  wMaxPacketSize := getLe16 (desc.drop 4)
  bInterval := byteAt desc 6
  bRefresh := if 9 ≤ desc.length then byteAt desc 7 else 0
  bSynchAddress := if 9 ≤ desc.length then byteAt desc 8 else 0
  extra := []

/-- The interface descriptor that `parse_config` reads at `desc`. -/
def InterfaceDescriptor.read (desc : List UInt8) : InterfaceDescriptor where
  bLength := byteAt desc 0
  bDescriptorType := byteAt desc 1
  bInterfaceNumber := byteAt desc 2
  bAlternateSetting := byteAt desc 3
  bNumEndpoints := byteAt desc 4
  bInterfaceClass := byteAt desc 5
  bInterfaceSubClass := byteAt desc 6
  bInterfaceProtocol := byteAt desc 7
  iInterface := byteAt desc 8
  endpoint := []
  extra := []

/-- The alternate settings so far and the `extra` of the configuration; `cur` is the last one. -/
structure Parse where
  alts : List TmpAlt
  cfgExtra : List UInt8

/-- One turn of the first loop of `parse_config`, with the descriptor at `pos` and its type. -/
def Parse.push (p : Parse) (btype : UInt8) (desc : List UInt8) : Parse :=
  let change (f : TmpAlt → TmpAlt) : Parse := { p with alts := p.alts.modify (p.alts.length - 1) f }
  if btype = usbDtInterface ∧ 9 ≤ desc.length then
    { p with alts := p.alts ++ [⟨.read desc, [], []⟩] }
  else if btype = usbDtEndpoint ∧ 7 ≤ desc.length ∧ p.alts ≠ [] then
    change fun cur => { cur with eps := cur.eps ++ [.read desc] }
  else if p.alts ≠ [] then change fun cur => { cur with extra := cur.extra ++ desc }
  else { p with cfgExtra := p.cfgExtra ++ desc }

/-- The first loop of `parse_config`, from `pos` on. -/
def parseDescs (buf : List UInt8) (pos : Nat) (p : Parse) : Parse :=
  if pos + 2 ≤ buf.length then
    let blen := (byteAt buf pos).toNat
    if blen = 0 ∨ buf.length < pos + blen then p
    else parseDescs buf (pos + blen) (p.push (byteAt buf (pos + 1)) ((buf.drop pos).take blen))
  else p
termination_by buf.length - pos

/-- The bucket of an interface number, which may be a new one. -/
def bucketFor (bucketNum : List UInt8) (num : UInt8) : List UInt8 × Option Nat :=
  match bucketNum.findIdx? (· = num) with
  | some k => (bucketNum, some k)
  | none =>
    if bucketNum.length < 64 then (bucketNum ++ [num], some bucketNum.length) else (bucketNum, none)

/-- The loop that groups the alternate settings by `bInterfaceNumber`: `bucket_num`, and each
alternate setting with its `bucket_of`. -/
def buckets (alts : List TmpAlt) : List UInt8 × List (Option Nat × TmpAlt) :=
  alts.foldl (fun (bucketNum, bucketOf) alt =>
    let (bucketNum, bucket) := bucketFor bucketNum alt.d.bInterfaceNumber
    (bucketNum, bucketOf ++ [(bucket, alt)])) ([], [])

/-- What becomes of a `struct tmp_alt` in the tree. -/
def TmpAlt.close (alt : TmpAlt) : InterfaceDescriptor :=
  { alt.d with
    endpoint := alt.eps
    bNumEndpoints := UInt8.ofNat alt.eps.length
    extra := alt.extra }

def parseConfig (buf : List UInt8) : Option ConfigDescriptor :=
  if buf.length < 9 ∨ byteAt buf 1 ≠ libusbDtConfig then none
  else
    let pos := if byteAt buf 0 ≠ 0 then (byteAt buf 0).toNat else 9
    let p := parseDescs buf pos ⟨[], []⟩
    let grouped := buckets p.alts
    some {
      bLength := byteAt buf 0
      bDescriptorType := byteAt buf 1
      wTotalLength := getLe16 (buf.drop 2)
      bNumInterfaces := UInt8.ofNat grouped.1.length
      bConfigurationValue := byteAt buf 5
      iConfiguration := byteAt buf 6
      bmAttributes := byteAt buf 7
      maxPower := byteAt buf 8
      interface := (List.range grouped.1.length).map fun k =>
        ⟨(grouped.2.filter fun x => x.1 = some k).map fun x => x.2.close⟩
      extra := p.cfgExtra }

/-- The endpoint `i` of an alternate setting, as an application finds it. -/
def InterfaceDescriptor.endpointAt (as : InterfaceDescriptor) (i : Int) : Option EndpointDescriptor :=
  if 0 ≤ i ∧ i < as.bNumEndpoints.toNat then as.endpoint[i.toNat]? else none

/-! ### The tree of a sequence of descriptors -/

/-- The interface descriptor that a descriptor is. -/
def ifaceHead (desc : List UInt8) : Option (List UInt8) :=
  if byteAt desc 1 = usbDtInterface then some desc else none

/-- The alternate setting that an interface descriptor opens. -/
def TmpAlt.of (s : List UInt8 × List (List UInt8)) : TmpAlt where
  d := .read s.1
  eps := (s.2.filter isEndpoint).map .read
  extra := (s.2.filter fun desc => !isEndpoint desc).flatten

/-- The first loop of `parse_config` over whole descriptors. -/
def Parse.pushAll (p : Parse) (descs : List (List UInt8)) : Parse :=
  descs.foldl (fun p desc => p.push (byteAt desc 1) desc) p

theorem byteAt_block {pre block rest : List UInt8} {k : Nat} (hk : k < block.length) :
    byteAt (pre ++ (block ++ rest)) (pre.length + k) = byteAt block k := by
  rw [byteAt, List.getD_eq_getElem?_getD, getElem?_block hk]
  rfl

theorem parseDescs_blocks {descs : List (List UInt8)} (hdescs : ∀ desc ∈ descs, Whole desc)
    (pre : List UInt8) (p : Parse) :
    parseDescs (pre ++ descs.flatten) pre.length p = p.pushAll descs := by
  induction descs generalizing pre p with
  | nil =>
    rw [parseDescs.eq_def, List.flatten_nil, List.append_nil, if_neg (by omega)]
    rfl
  | cons desc descs ih =>
    obtain ⟨hdesc, hrest⟩ := List.forall_mem_cons.mp hdescs
    have hlong := hdesc.long
    have hlen : byteAt (pre ++ (desc ++ descs.flatten)) pre.length = byteAt desc 0 :=
      byteAt_block (k := 0) (by omega)
    have htype : byteAt (pre ++ (desc ++ descs.flatten)) (pre.length + 1) = byteAt desc 1 :=
      byteAt_block (by omega)
    have hblock : ((pre ++ (desc ++ descs.flatten)).drop pre.length).take desc.length = desc := by
      rw [List.drop_left, List.take_left]
    rw [List.flatten_cons, parseDescs.eq_def, if_pos (by simp only [List.length_append]; omega)]
    simp only [hlen, hdesc.first, htype, hblock]
    rw [if_neg (by simp only [List.length_append]; omega)]
    have hnext := ih hrest (pre ++ desc) (p.push (byteAt desc 1) desc)
    rw [List.length_append, List.append_assoc] at hnext
    exact hnext

theorem modify_last {α : Type*} (f : α → α) (l : List α) (a : α) :
    (l ++ [a]).modify ((l ++ [a]).length - 1) f = l ++ [f a] := by
  have h := modify_append_right f l [a] 0
  rw [Nat.add_zero] at h
  rw [List.length_append, List.length_singleton, Nat.add_sub_cancel, h]
  rfl

theorem Parse.push_alts_last {p : Parse} {desc : List UInt8} {alts : List TmpAlt}
    {s : List UInt8 × List (List UInt8)} (hwhole : Whole desc)
    (hdesc : byteAt desc 1 ≠ usbDtInterface) (hp : p.alts = alts ++ [TmpAlt.of s]) :
    (p.push (byteAt desc 1) desc).alts = alts ++ [TmpAlt.of (s.1, s.2 ++ [desc])] := by
  have hne : p.alts ≠ [] := by simp [hp]
  rw [push, if_neg fun h => hdesc h.1]
  by_cases hep : byteAt desc 1 = usbDtEndpoint
  · have hep' : isEndpoint desc = true := decide_eq_true hep
    rw [if_pos ⟨hep, hwhole.endpoint hep, hne⟩]
    dsimp only
    rw [hp, modify_last]
    simp [TmpAlt.of, List.filter_append, hep']
  · have hep' : isEndpoint desc = false := decide_eq_false hep
    rw [if_neg fun h => hep h.1, if_pos hne]
    dsimp only
    rw [hp, modify_last]
    simp [TmpAlt.of, List.filter_append, hep']

/-- The loop keeps one alternate setting for each interface descriptor, with what came behind it. -/
theorem pushAll_alts {descs : List (List UInt8)} (hdescs : ∀ desc ∈ descs, Whole desc)
    (extra : List UInt8) :
    (Parse.pushAll ⟨[], extra⟩ descs).alts = (sections ifaceHead descs).map TmpAlt.of := by
  induction descs using List.reverseRecOn with
  | nil => rfl
  | append_singleton descs desc ih =>
    obtain ⟨hrest, hdesc⟩ := List.forall_mem_append.mp hdescs
    have hwhole := hdesc desc List.mem_cons_self
    have ih := ih hrest
    rw [Parse.pushAll, List.foldl_concat]
    by_cases hhead : byteAt desc 1 = usbDtInterface
    · rw [sections_concat_head ifaceHead descs (if_pos hhead), Parse.push,
        if_pos ⟨hhead, hwhole.interface hhead⟩, List.map_append, ← ih]
      rfl
    · obtain ⟨shut, hsections, hconcat⟩ := sections_concat ifaceHead descs
      rw [hconcat desc (if_neg hhead), List.map_append]
      cases hlast : lastHead ifaceHead descs with
      | none =>
        rw [hlast] at hsections
        rw [sections_of_none (lastHead_eq_none.mp hlast)] at ih hsections
        obtain rfl : shut = [] := by simpa using hsections.symm
        have hnil : (Parse.pushAll ⟨[], extra⟩ descs).alts = [] := ih
        rw [Parse.pushAll] at hnil
        rw [Parse.push, if_neg fun h => hhead h.1, if_neg fun h => h.2.2 hnil,
          if_neg fun h => h hnil]
        exact hnil
      | some k =>
        rw [hlast] at hsections
        rw [hsections, List.map_append] at ih
        exact Parse.push_alts_last hwhole hhead ih

/-- The interface number of an alternate setting. -/
def TmpAlt.num (alt : TmpAlt) : UInt8 := alt.d.bInterfaceNumber

/-- As long as the buckets last, every alternate setting is in one. -/
structure Grouped (alts : List TmpAlt) (b : List UInt8 × List (Option Nat × TmpAlt)) : Prop where
  nodup : b.1.Nodup
  subset : b.1 ⊆ alts.map TmpAlt.num
  alts : b.2.map Prod.snd = alts
  bucket : ∀ x ∈ b.2, ∃ k < b.1.length, x.1 = some k

/-- A number has a bucket already, or gets the next one while there is room. -/
theorem bucketFor_cases {bucketNum : List UInt8} {num : UInt8} (hnodup : bucketNum.Nodup)
    (hroom : (num :: bucketNum).Nodup → bucketNum.length < 64) :
    (∃ k, bucketNum[k]? = some num ∧ bucketFor bucketNum num = (bucketNum, some k)) ∨
      (num :: bucketNum).Nodup ∧
        bucketFor bucketNum num = (bucketNum ++ [num], some bucketNum.length) := by
  cases hfind : bucketNum.findIdx? (· = num) with
  | some k =>
    obtain ⟨hk, heq, -⟩ := List.findIdx?_eq_some_iff_getElem.mp hfind
    refine Or.inl ⟨k, ?_, by rw [bucketFor, hfind]⟩
    rw [List.getElem?_eq_getElem hk, of_decide_eq_true heq]
  | none =>
    have hnew : num ∉ bucketNum := by
      intro hold
      have := List.findIdx?_eq_none_iff.mp hfind num hold
      simp at this
    have hcons : (num :: bucketNum).Nodup := List.nodup_cons.mpr ⟨hnew, hnodup⟩
    refine Or.inr ⟨hcons, ?_⟩
    rw [bucketFor, hfind]
    exact if_pos (hroom hcons)

theorem Grouped.push {alts : List TmpAlt} {bucketNum : List UInt8}
    {bucketOf : List (Option Nat × TmpAlt)} (h : Grouped alts (bucketNum, bucketOf)) {alt : TmpAlt}
    (hroom : (alt.num :: bucketNum).Nodup → bucketNum.length < 64) :
    Grouped (alts ++ [alt]) ((bucketFor bucketNum alt.num).1,
      bucketOf ++ [((bucketFor bucketNum alt.num).2, alt)]) := by
  have halts : (bucketOf ++ [((bucketFor bucketNum alt.num).2, alt)]).map Prod.snd =
      alts ++ [alt] := by
    rw [List.map_append, h.alts]
    rfl
  have hsub : bucketNum ⊆ (alts ++ [alt]).map TmpAlt.num := by
    rw [List.map_append]
    exact List.subset_append_of_subset_left _ h.subset
  rcases bucketFor_cases h.nodup hroom with ⟨k, hk, hbucket⟩ | ⟨hnodup, hbucket⟩
  · rw [hbucket] at halts ⊢
    refine ⟨h.nodup, hsub, halts, List.forall_mem_append.mpr ⟨h.bucket, ?_⟩⟩
    rw [List.forall_mem_singleton]
    exact ⟨k, (List.getElem?_eq_some_iff.mp hk).1, rfl⟩
  · rw [hbucket] at halts ⊢
    refine ⟨?_, ?_, halts, List.forall_mem_append.mpr ⟨fun x hx => ?_, ?_⟩⟩
    · exact (List.perm_append_singleton _ _).nodup_iff.mpr hnodup
    · refine List.append_subset.mpr ⟨hsub, ?_⟩
      simp
    · obtain ⟨k, hk, hxk⟩ := h.bucket x hx
      exact ⟨k, by rw [List.length_append]; exact Nat.lt_add_right _ hk, hxk⟩
    · rw [List.forall_mem_singleton]
      exact ⟨bucketNum.length, by simp, rfl⟩

/-- The buckets are in the order in which their numbers first appear, and each alternate setting is
in that of its number. -/
structure Ordered (tmps : List TmpAlt) (b : List UInt8 × List (Option Nat × TmpAlt)) : Prop
    extends Grouped tmps b where
  first : b.1 = (tmps.map TmpAlt.num).eraseDups
  named : ∀ x ∈ b.2, ∀ k, x.1 = some k → b.1[k]? = some x.2.num

theorem Ordered.push {alts : List TmpAlt} {bucketNum : List UInt8}
    {bucketOf : List (Option Nat × TmpAlt)} (h : Ordered alts (bucketNum, bucketOf)) {alt : TmpAlt}
    (hroom : (alt.num :: bucketNum).Nodup → bucketNum.length < 64) :
    Ordered (alts ++ [alt]) ((bucketFor bucketNum alt.num).1,
      bucketOf ++ [((bucketFor bucketNum alt.num).2, alt)]) := by
  have hgrouped := h.toGrouped.push hroom
  have hbuckets : bucketNum = (alts.map TmpAlt.num).eraseDups := h.first
  have hmem : alt.num ∈ alts.map TmpAlt.num ↔ alt.num ∈ bucketNum := by
    rw [hbuckets, List.mem_eraseDups]
  have hfirst : ((alts ++ [alt]).map TmpAlt.num).eraseDups =
      if alt.num ∈ bucketNum then bucketNum else bucketNum ++ [alt.num] := by
    rw [List.map_append, List.map_singleton, eraseDups_concat, ← hbuckets]
    simp only [hmem]
  rcases bucketFor_cases h.nodup hroom with ⟨k, hnum, hbucket⟩ | ⟨hcons, hbucket⟩
  · rw [hbucket] at hgrouped ⊢
    refine ⟨hgrouped, ?_, List.forall_mem_append.mpr ⟨h.named, ?_⟩⟩
    · rw [hfirst, if_pos (List.mem_of_getElem? hnum)]
    · rw [List.forall_mem_singleton]
      rintro k' hk'
      cases hk'
      exact hnum
  · rw [hbucket] at hgrouped ⊢
    refine ⟨hgrouped, ?_, List.forall_mem_append.mpr ⟨fun x hx k hk => ?_, ?_⟩⟩
    · rw [hfirst, if_neg (List.nodup_cons.mp hcons).1]
    · have hnum := h.named x hx k hk
      exact (List.getElem?_append_left (List.getElem?_eq_some_iff.mp hnum).1).trans hnum
    · rw [List.forall_mem_singleton]
      rintro k' hk'
      cases hk'
      exact List.getElem?_concat_length

theorem buckets_ordered {alts : List TmpAlt} (hfew : (alts.map TmpAlt.num).dedup.length ≤ 64) :
    Ordered alts (buckets alts) := by
  have hall : ∀ done rest, alts = done ++ rest → Ordered done (buckets done) := by
    intro done
    induction done using List.reverseRecOn with
    | nil => exact fun _ _ => ⟨⟨.nil, by simp [buckets], rfl, by simp [buckets]⟩, rfl,
        by simp [buckets]⟩
    | append_singleton done alt ih =>
      intro rest heq
      have hdone := ih (alt :: rest) (by rw [heq, List.append_assoc]; rfl)
      have hfold : buckets (done ++ [alt]) = ((bucketFor (buckets done).1 alt.num).1,
          (buckets done).2 ++ [((bucketFor (buckets done).1 alt.num).2, alt)]) := by
        rw [buckets, List.foldl_concat]
        rfl
      rw [hfold]
      refine hdone.push fun hnodup => ?_
      have hsub : alt.num :: (buckets done).1 ⊆ (alts.map TmpAlt.num).dedup := by
        intro num hnum
        rw [List.mem_dedup, heq, List.map_append, List.map_append]
        rcases List.mem_cons.mp hnum with rfl | hnum
        · simp
        · exact List.mem_append_left _ (List.mem_append_left _ (hdone.subset hnum))
      have := (hnodup.subperm hsub).length_le
      rw [List.length_cons] at this
      omega
  exact hall alts [] (List.append_nil _).symm

theorem buckets_grouped {alts : List TmpAlt} (hfew : (alts.map TmpAlt.num).dedup.length ≤ 64) :
    Grouped alts (buckets alts) :=
  (buckets_ordered hfew).toGrouped

theorem Grouped.mem_interface {alts : List TmpAlt} {b : List UInt8 × List (Option Nat × TmpAlt)}
    (h : Grouped alts b) (as : InterfaceDescriptor) :
    (∃ iface ∈ (List.range b.1.length).map fun k =>
      Interface.mk ((b.2.filter fun x => x.1 = some k).map fun x => x.2.close),
        as ∈ iface.altsetting) ↔ ∃ alt ∈ alts, as = alt.close := by
  constructor
  · rintro ⟨iface, hiface, has⟩
    obtain ⟨k, -, rfl⟩ := List.mem_map.mp hiface
    obtain ⟨x, hx, rfl⟩ := List.mem_map.mp has
    refine ⟨x.2, ?_, rfl⟩
    rw [← h.alts]
    exact List.mem_map_of_mem (List.mem_filter.mp hx).1
  · rintro ⟨alt, halt, rfl⟩
    rw [← h.alts] at halt
    obtain ⟨x, hx, rfl⟩ := List.mem_map.mp halt
    obtain ⟨k, hk, hxk⟩ := h.bucket x hx
    refine ⟨_, List.mem_map_of_mem (List.mem_range.mpr hk), ?_⟩
    exact List.mem_map_of_mem (List.mem_filter.mpr ⟨hx, decide_eq_true hxk⟩)

/-- The tree has exactly the alternate settings that the descriptors open. -/
theorem parseConfig_blocks {header : List UInt8} {descs : List (List UInt8)} (hheader : Whole header)
    (hlen : header.length = 9) (htype : byteAt header 1 = libusbDtConfig)
    (hdescs : ∀ desc ∈ descs, Whole desc)
    (hfew : (((sections ifaceHead descs).map TmpAlt.of).map TmpAlt.num).dedup.length ≤ 64) :
    ∃ tree, parseConfig (header ++ descs.flatten) = some tree ∧
      ∀ as : InterfaceDescriptor, (∃ iface ∈ tree.interface, as ∈ iface.altsetting) ↔
        ∃ s ∈ sections ifaceHead descs, as = (TmpAlt.of s).close := by
  have hbyte : ∀ k < 9, byteAt (header ++ descs.flatten) k = byteAt header k := by
    intro k hk
    rw [byteAt, byteAt, List.getD_eq_getElem?_getD, List.getD_eq_getElem?_getD,
      List.getElem?_append_left (by omega)]
  have hfirst := hheader.first
  have hpos : (if byteAt header 0 ≠ 0 then (byteAt header 0).toNat else 9) = header.length := by
    rw [if_pos, hfirst]
    intro hzero
    rw [hzero] at hfirst
    simp [hlen] at hfirst
  have halts := pushAll_alts hdescs []
  have hgrouped := buckets_grouped hfew
  rw [← halts] at hgrouped
  unfold parseConfig
  rw [if_neg]
  · refine ⟨_, rfl, fun as => ?_⟩
    dsimp only
    rw [hbyte 0 (by omega), hpos, parseDescs_blocks hdescs, hgrouped.mem_interface as, halts]
    simp only [List.mem_map, exists_exists_and_eq_and]
  · rw [hbyte 1 (by omega), htype]
    simp only [List.length_append]
    simp
    omega

end Usbip.Libusb
