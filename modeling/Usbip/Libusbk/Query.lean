import Usbip.Libusb.Config

/-! The configuration descriptor of the libusbK wrapper, which keeps no tree: every query walks the
bytes again.  The walks find what the tree of the libusb wrapper has. -/

namespace Usbip.Libusbk

open Lib Capture Libusb

/-- Is there a well-formed descriptor at offset `i`? -/
def lkDescOk (cfg : List UInt8) (i : Nat) : Prop :=
  i + 2 ≤ cfg.length ∧ 2 ≤ (byteAt cfg i).toNat ∧ i + (byteAt cfg i).toNat ≤ cfg.length

instance (cfg : List UInt8) (i : Nat) : Decidable (lkDescOk cfg i) :=
  inferInstanceAs (Decidable (_ ∧ _ ∧ _))

/-- The condition of the loop in `lk_iface_off`; `none` when it reads behind the end of the blob. -/
def isIface (cfg : List UInt8) (ifnum alt : Int) (i : Nat) : Option Bool :=
  if byteAt cfg (i + 1) = usbDtInterface then
    cfg[i + 2]?.bind fun num =>
      if num.toNat = ifnum then cfg[i + 3]?.map fun setting => setting.toNat = alt
      else some false
  else some false

/-- `lk_iface_off` from `i` on: the offset, or `some none` for -1, or `none` when it reads behind
the end of the blob. -/
def lkIfaceOff (cfg : List UInt8) (ifnum alt : Int) (i : Nat) : Option (Option Nat) :=
  if lkDescOk cfg i then
    match isIface cfg ifnum alt i with
    | none => none
    | some true => some (some i)
    | some false => lkIfaceOff cfg ifnum alt (i + (byteAt cfg i).toNat)
  else some none
termination_by cfg.length - i
decreasing_by
  obtain ⟨hfit, hlong, -⟩ := ‹lkDescOk cfg i›
  omega

/-- The loop of `lk_ep_off` from `i` on. -/
def lkEpScan (cfg : List UInt8) (epIndex : Int) (i count : Nat) : Option Nat :=
  if lkDescOk cfg i then
    if byteAt cfg (i + 1) = usbDtInterface then none
    else if byteAt cfg (i + 1) = usbDtEndpoint then
      if count = epIndex then some i
      else lkEpScan cfg epIndex (i + (byteAt cfg i).toNat) (count + 1)
    else lkEpScan cfg epIndex (i + (byteAt cfg i).toNat) count
  else none
termination_by cfg.length - i
decreasing_by
  all_goals
    obtain ⟨hfit, hlong, -⟩ := ‹lkDescOk cfg i›
    omega

def lkEpOff (cfg : List UInt8) (ifaceOff : Nat) (epIndex : Int) : Option Nat :=
  lkEpScan cfg epIndex (ifaceOff + (byteAt cfg ifaceOff).toNat) 0

/-- `WINUSB_PIPE_INFORMATION`, and the `bytes_per_interval` behind it. -/
structure PipeInformation where
  pipeType : UInt8
  pipeId : UInt8
  maximumPacketSize : UInt16
  interval : UInt8
  bytesPerInterval : Nat
  deriving DecidableEq, Repr

def errorNoMoreItems : Nat := 259

/-- `lk_query_pipe` with the blob in the cache; `none` when it reads behind the end of it. -/
def lkQueryPipe (cfg : List UInt8) (curIface alt pipeIndex : UInt8) :
    Option (Except Nat PipeInformation) :=
  (lkIfaceOff cfg curIface.toNat alt.toNat 0).bind fun
    | none => some (.error errorNoMoreItems)
    | some ifoff =>
      match lkEpOff cfg ifoff pipeIndex.toNat with
      | none => some (.error errorNoMoreItems)
      | some epoff =>
        if cfg.length < epoff + 7 then none
        else
          let mps := getLe16 (cfg.drop (epoff + 4))
          some (.ok {
            pipeType := byteAt cfg (epoff + 3) &&& 0x03
            pipeId := byteAt cfg (epoff + 2)
            maximumPacketSize := mps
            interval := byteAt cfg (epoff + 6)
            bytesPerInterval :=
              (mps &&& 0x7ff).toNat * (((mps >>> 11) &&& 0x3).toNat + 1) })

/-- What `lk_query_pipe` makes of an endpoint of the tree. -/
def PipeInformation.of (ep : EndpointDescriptor) : PipeInformation where
  pipeType := ep.bmAttributes &&& 0x03
  pipeId := ep.bEndpointAddress
  maximumPacketSize := ep.wMaxPacketSize
  interval := ep.bInterval
  bytesPerInterval :=
    (ep.wMaxPacketSize &&& 0x7ff).toNat * (((ep.wMaxPacketSize >>> 11) &&& 0x3).toNat + 1)

/-- The interface number and the alternate setting of an interface descriptor. -/
def ifaceKey (desc : List UInt8) : Option (UInt8 × UInt8) :=
  (ifaceHead desc).map fun desc => (byteAt desc 2, byteAt desc 3)

/-- A configuration header of nine bytes, and whole descriptors behind it. -/
structure Split (cfg header : List UInt8) (descs : List (List UInt8)) : Prop where
  eq : cfg = header ++ descs.flatten
  first : Whole header
  nine : header.length = 9
  config : byteAt header 1 = libusbDtConfig
  whole : ∀ desc ∈ descs, Whole desc
  /-- no two interface descriptors with one number and one alternate setting -/
  distinct : (descs.filterMap ifaceKey).Nodup
  interfaces : ((descs.filterMap ifaceKey).map Prod.fst).dedup.length ≤ 64
  endpoints : ∀ s ∈ sections ifaceHead descs, (s.2.filter isEndpoint).length ≤ 255

/-- A well-formed configuration blob. -/
def WellFormed (cfg : List UInt8) : Prop := ∃ header descs, Split cfg header descs

/-- The walk finds the endpoint `i` of the alternate setting, or fails as the tree does. -/
structure SameEndpoint (cfg : List UInt8) (as : InterfaceDescriptor) (off : Nat) (i : Int) :
    Prop where
  found : ∀ ep, as.endpointAt i = some ep → ∃ epoff, lkEpOff cfg off i = some epoff ∧
    ep = .read ((cfg.drop epoff).take (byteAt cfg epoff).toNat)
  missing : as.endpointAt i = none → lkEpOff cfg off i = none

/-- The walks find what the tree has, and only that. -/
structure Agrees (cfg : List UInt8) (tree : ConfigDescriptor) : Prop where
  found : ∀ iface ∈ tree.interface, ∀ as ∈ iface.altsetting, ∃ off,
    lkIfaceOff cfg as.bInterfaceNumber.toNat as.bAlternateSetting.toNat 0 = some (some off) ∧
    as = { InterfaceDescriptor.read ((cfg.drop off).take (byteAt cfg off).toNat) with
      bNumEndpoints := as.bNumEndpoints
      endpoint := as.endpoint
      extra := as.extra } ∧
    ∀ i, SameEndpoint cfg as off i
  missing : ∀ ifnum alt : Int, (∀ iface ∈ tree.interface, ∀ as ∈ iface.altsetting,
    ¬(as.bInterfaceNumber.toNat = ifnum ∧ as.bAlternateSetting.toNat = alt)) →
      lkIfaceOff cfg ifnum alt 0 = some none
  queried : ∀ iface ∈ tree.interface, ∀ as ∈ iface.altsetting, ∀ i : UInt8,
    lkQueryPipe cfg as.bInterfaceNumber as.bAlternateSetting i =
      some (match as.endpointAt i.toNat with
        | some ep => .ok (.of ep)
        | none => .error errorNoMoreItems)
  unqueried : ∀ ifnum alt i : UInt8, (∀ iface ∈ tree.interface, ∀ as ∈ iface.altsetting,
    ¬(as.bInterfaceNumber = ifnum ∧ as.bAlternateSetting = alt)) →
      lkQueryPipe cfg ifnum alt i = some (.error errorNoMoreItems)

/-! ### The walks over whole descriptors -/

section Walks

variable {pre rest block : List UInt8} {blocks : List (List UInt8)}

theorem lkDescOk_block (h : Whole block) : lkDescOk (pre ++ (block ++ rest)) pre.length := by
  have hlong := h.long
  have hlen : byteAt (pre ++ (block ++ rest)) pre.length = byteAt block 0 :=
    byteAt_block (k := 0) (by omega)
  rw [lkDescOk, hlen, h.first]
  simp only [List.length_append]
  omega

theorem not_lkDescOk_end : ¬lkDescOk (pre ++ [].flatten) pre.length := by
  rw [List.flatten_nil, List.append_nil]
  intro h
  have := h.1
  omega

/-- An interface descriptor with these numbers. -/
def isAlt (ifnum alt : Int) (block : List UInt8) : Bool :=
  byteAt block 1 = usbDtInterface ∧ (byteAt block 2).toNat = ifnum ∧ (byteAt block 3).toNat = alt

theorem isIface_block (h : Whole block) (ifnum alt : Int) :
    isIface (pre ++ (block ++ rest)) ifnum alt pre.length = some (isAlt ifnum alt block) := by
  have hlong := h.long
  rw [isIface, byteAt_block (by omega), isAlt]
  by_cases htype : byteAt block 1 = usbDtInterface
  · have h9 := h.interface htype
    rw [if_pos htype, getElem?_block (by omega), Option.bind_some, getElem?_block (by omega)]
    by_cases hnum : (byteAt block 2).toNat = ifnum
    · simp [htype, hnum]
    · simp [htype, hnum]
  · simp [htype]

theorem lkIfaceOff_blocks (hblocks : ∀ b ∈ blocks, Whole b) (ifnum alt : Int) (pre : List UInt8) :
    lkIfaceOff (pre ++ blocks.flatten) ifnum alt pre.length =
      some ((offsetOf (isAlt ifnum alt) blocks).map (pre.length + ·)) := by
  induction blocks generalizing pre with
  | nil =>
    rw [lkIfaceOff.eq_def, if_neg not_lkDescOk_end]
    rfl
  | cons block blocks ih =>
    obtain ⟨hblock, hrest⟩ := List.forall_mem_cons.mp hblocks
    have hlong := hblock.long
    have hlen : byteAt (pre ++ (block ++ blocks.flatten)) pre.length = byteAt block 0 :=
      byteAt_block (k := 0) (by omega)
    rw [List.flatten_cons, lkIfaceOff.eq_def, if_pos (lkDescOk_block hblock), isIface_block hblock,
      hlen, hblock.first, offsetOf]
    have hnext := ih hrest (pre ++ block)
    rw [List.length_append, List.append_assoc] at hnext
    cases isAlt ifnum alt block with
    | true => rfl
    | false =>
      simp only [hnext]
      cases offsetOf (isAlt ifnum alt) blocks with
      | none => rfl
      | some off => simp [Nat.add_assoc]

theorem lkEpScan_block (h : Whole block) (epIndex : Int) (count : Nat) :
    lkEpScan (pre ++ (block ++ rest)) epIndex pre.length count =
      if (ifaceHead block).isSome then none
      else if isEndpoint block then
        if count = epIndex then some pre.length
        else lkEpScan (pre ++ (block ++ rest)) epIndex (pre.length + block.length) (count + 1)
      else lkEpScan (pre ++ (block ++ rest)) epIndex (pre.length + block.length) count := by
  have hlong := h.long
  have hlen : byteAt (pre ++ (block ++ rest)) pre.length = byteAt block 0 :=
    byteAt_block (k := 0) (by omega)
  rw [lkEpScan.eq_def, if_pos (lkDescOk_block h), byteAt_block (by omega), hlen, h.first,
    ifaceHead, isEndpoint]
  by_cases htype : byteAt block 1 = usbDtInterface
  · simp [htype]
  · simp [htype]

theorem lkEpScan_found {before after : List (List UInt8)} {e : List UInt8} {epIndex : Int}
    (hblocks : ∀ b ∈ before ++ e :: after, Whole b) (hbefore : ∀ b ∈ before, ifaceHead b = none)
    (he : ifaceHead e = none) (hep : isEndpoint e = true) (count : Nat)
    (hcount : epIndex = count + (before.filter isEndpoint).length) (pre : List UInt8) :
    lkEpScan (pre ++ (before ++ e :: after).flatten) epIndex pre.length count =
      some (pre.length + before.flatten.length) := by
  induction before generalizing pre count with
  | nil =>
    have hcount' : (count : Int) = epIndex := by simpa using hcount.symm
    rw [List.nil_append, List.flatten_cons,
      lkEpScan_block (hblocks e List.mem_cons_self), he, hep]
    simp [hcount']
  | cons b before ih =>
    obtain ⟨hb, hrest⟩ := List.forall_mem_cons.mp hbefore
    obtain ⟨hwhole, hblocks⟩ := List.forall_mem_cons.mp hblocks
    have hnext := fun count hcount => ih hblocks hrest count hcount (pre ++ b)
    simp only [List.length_append, List.append_assoc] at hnext
    rw [List.cons_append, List.flatten_cons, lkEpScan_block hwhole, hb]
    cases hbe : isEndpoint b with
    | true =>
      rw [List.filter_cons_of_pos hbe, List.length_cons] at hcount
      rw [if_neg (by simp), if_pos rfl, if_neg (by omega),
        hnext (count + 1) (by push_cast at hcount ⊢; omega), List.flatten_cons,
        List.length_append, Nat.add_assoc]
    | false =>
      rw [List.filter_cons_of_neg (by simp [hbe])] at hcount
      rw [if_neg (by simp), if_neg (by simp), hnext count hcount, List.flatten_cons,
        List.length_append, Nat.add_assoc]

theorem lkEpScan_missing {epIndex : Int} (hblocks : ∀ b ∈ blocks, Whole b) (count : Nat)
    (hcount : epIndex < count ∨
      count + ((upToHead ifaceHead blocks).filter isEndpoint).length ≤ epIndex)
    (pre : List UInt8) : lkEpScan (pre ++ blocks.flatten) epIndex pre.length count = none := by
  induction blocks generalizing pre count with
  | nil => rw [lkEpScan.eq_def, if_neg not_lkDescOk_end]
  | cons block blocks ih =>
    obtain ⟨hblock, hrest⟩ := List.forall_mem_cons.mp hblocks
    have hnext := fun count hcount => ih hrest count hcount (pre ++ block)
    simp only [List.length_append, List.append_assoc] at hnext
    rw [List.flatten_cons, lkEpScan_block hblock]
    cases hhead : ifaceHead block with
    | some k => rfl
    | none =>
      have hup : upToHead ifaceHead (block :: blocks) = block :: upToHead ifaceHead blocks :=
        List.takeWhile_cons_of_pos (by simp [hhead])
      rw [hup] at hcount
      cases hbe : isEndpoint block with
      | true =>
        rw [List.filter_cons_of_pos hbe, List.length_cons] at hcount
        rw [if_neg (by simp), if_pos rfl, if_neg (by omega),
          hnext (count + 1) (by push_cast at hcount ⊢; omega)]
      | false =>
        rw [List.filter_cons_of_neg (by simp [hbe])] at hcount
        rw [if_neg (by simp), if_neg (by simp), hnext count hcount]

end Walks

theorem exists_split_of_filter {α : Type*} {p : α → Bool} {l : List α} {k : Nat} {a : α}
    (h : (l.filter p)[k]? = some a) : ∃ before after, l = before ++ a :: after ∧ p a = true ∧
      (before.filter p).length = k := by
  induction l generalizing k with
  | nil => simp at h
  | cons b l ih =>
    cases hb : p b with
    | true =>
      rw [List.filter_cons_of_pos hb] at h
      cases k with
      | zero =>
        obtain rfl := Option.some.inj h
        exact ⟨[], l, rfl, hb, rfl⟩
      | succ k =>
        obtain ⟨before, after, rfl, ha, hk⟩ := ih h
        refine ⟨b :: before, after, rfl, ha, ?_⟩
        rw [List.filter_cons_of_pos hb, List.length_cons, hk]
    | false =>
      rw [List.filter_cons_of_neg (by simp [hb])] at h
      obtain ⟨before, after, rfl, ha, hk⟩ := ih h
      refine ⟨b :: before, after, rfl, ha, ?_⟩
      rw [List.filter_cons_of_neg (by simp [hb]), hk]

section Agree

variable {cfg header : List UInt8} {descs : List (List UInt8)} {s : List UInt8 × List (List UInt8)}

/-- The walks at the offset of an interface descriptor find what its section has. -/
structure Located (cfg : List UInt8) (s : List UInt8 × List (List UInt8)) (off : Nat) : Prop where
  head : ∃ rest pre, cfg = pre ++ (s.1 ++ rest) ∧ off = pre.length ∧ Whole s.1
  endpoint : ∀ (k : Nat) (e : List UInt8), (s.2.filter isEndpoint)[k]? = some e →
    ∃ pre rest, cfg = pre ++ (e ++ rest) ∧ Whole e ∧ isEndpoint e ∧
      lkEpOff cfg off k = some pre.length
  missing : ∀ i : Int, i < 0 ∨ (s.2.filter isEndpoint).length ≤ i → lkEpOff cfg off i = none

theorem ifaceHead_eq_some {desc head : List UInt8} (h : ifaceHead desc = some head) :
    head = desc ∧ byteAt desc 1 = usbDtInterface := by
  unfold ifaceHead at h
  split at h
  · exact ⟨(Option.some.inj h).symm, ‹_›⟩
  · cases h

/-- The header and the descriptors, as blocks of the blob. -/
theorem Split.blocks (h : Split cfg header descs) :
    cfg = [] ++ (header :: descs).flatten ∧ ∀ b ∈ header :: descs, Whole b :=
  ⟨h.eq, List.forall_mem_cons.mpr ⟨h.first, h.whole⟩⟩

theorem Split.header_not_alt (h : Split cfg header descs) (ifnum alt : Int) :
    isAlt ifnum alt header = false := by
  rw [isAlt, h.config]
  exact decide_eq_false fun hand => absurd hand.1 (by decide)

/-- Only the descriptor itself has its numbers. -/
theorem Split.located (h : Split cfg header descs) (hs : s ∈ sections ifaceHead descs) :
    ∃ off, lkIfaceOff cfg (byteAt s.1 2).toNat (byteAt s.1 3).toNat 0 = some (some off) ∧
      Located cfg s off := by
  obtain ⟨before, d, after, hdescs, hhead, hitems⟩ := mem_sections hs
  obtain ⟨rfl, htype⟩ := ifaceHead_eq_some hhead
  obtain ⟨heq, hwhole⟩ := h.blocks
  have hsplit : header :: descs = (header :: before) ++ s.1 :: after := by rw [hdescs]; rfl
  rw [hsplit] at heq hwhole
  have hbefore : ∀ b ∈ header :: before,
      isAlt (byteAt s.1 2).toNat (byteAt s.1 3).toNat b = false := by
    refine List.forall_mem_cons.mpr ⟨h.header_not_alt _ _, fun b hb => ?_⟩
    by_contra hmatch
    obtain ⟨hbtype, hnum, halt⟩ := of_decide_eq_true (eq_true_of_ne_false hmatch)
    have hkey : ifaceKey b = ifaceKey s.1 := by
      rw [ifaceKey, ifaceKey, ifaceHead, ifaceHead, if_pos hbtype, if_pos htype, Option.map_some,
        Option.map_some, UInt8.toNat_inj.mp (Int.ofNat_inj.mp hnum),
        UInt8.toNat_inj.mp (Int.ofNat_inj.mp halt)]
    have hsome : ifaceKey s.1 = some (byteAt s.1 2, byteAt s.1 3) := by
      rw [ifaceKey, ifaceHead, if_pos htype, Option.map_some]
    have hdistinct := h.distinct
    rw [hdescs, List.filterMap_append, List.filterMap_cons, hsome, List.nodup_append] at hdistinct
    exact hdistinct.2.2 _ (List.mem_filterMap.mpr ⟨b, hb, hkey.trans hsome⟩) _
      List.mem_cons_self rfl
  have hoff := lkIfaceOff_blocks hwhole (byteAt s.1 2).toNat (byteAt s.1 3).toNat []
  rw [← heq, offsetOf_append_cons after hbefore
    (decide_eq_true ⟨htype, rfl, rfl⟩), Option.map_some, List.length_nil, Nat.zero_add] at hoff
  refine ⟨_, hoff, ?_⟩
  have hcfg : cfg = (header :: before).flatten ++ (s.1 ++ after.flatten) := by
    rw [heq, List.nil_append, List.flatten_append, List.flatten_cons (l := s.1)]
  have hd : Whole s.1 := hwhole s.1 (by simp)
  have hafter : ∀ b ∈ after, Whole b := fun b hb => hwhole b (by simp [hb])
  have hlong := hd.long
  have hscan : ∀ i, lkEpOff cfg (header :: before).flatten.length i =
      lkEpScan (((header :: before).flatten ++ s.1) ++ after.flatten) i
        ((header :: before).flatten ++ s.1).length 0 := by
    intro i
    have hlen : byteAt cfg (header :: before).flatten.length = byteAt s.1 0 := by
      rw [hcfg]
      exact byteAt_block (k := 0) (by omega)
    rw [lkEpOff, hlen, hd.first, List.length_append, List.append_assoc, ← hcfg]
  refine ⟨⟨_, _, hcfg, rfl, hd⟩, fun k e hk => ?_, fun i hi => ?_⟩
  · obtain ⟨items, items', hsplit', hep, hcount⟩ := exists_split_of_filter hk
    have hprefix : items ++ e :: items' <+: after := by
      rw [← hsplit', hitems]
      exact List.takeWhile_prefix _
    obtain ⟨later, hlater⟩ := hprefix
    have hnone : ∀ b ∈ items ++ e :: items', ifaceHead b = none := by
      intro b hb
      rw [← hsplit', hitems] at hb
      simpa using List.mem_takeWhile_imp hb
    have hafter' : after = items ++ e :: (items' ++ later) := by
      rw [← hlater, List.append_assoc]
      rfl
    refine ⟨(header :: before).flatten ++ s.1 ++ items.flatten, (items' ++ later).flatten, ?_,
      hafter e (by simp [hafter']), hep, ?_⟩
    · rw [hcfg, hafter']
      simp only [List.flatten_append, List.flatten_cons, List.append_assoc]
    · rw [hscan, hafter', lkEpScan_found (hafter' ▸ hafter)
        (fun b hb => hnone b (List.mem_append_left _ hb)) (hnone e (by simp)) hep 0
        (by rw [hcount]; simp), ← List.length_append]
  · rw [hscan]
    refine lkEpScan_missing hafter 0 ?_ _
    rw [← hitems]
    simpa using hi

/-- The whole descriptor at an offset. -/
theorem take_drop_block {pre block rest : List UInt8} (h : Whole block) :
    ((pre ++ (block ++ rest)).drop pre.length).take
      (byteAt (pre ++ (block ++ rest)) pre.length).toNat = block := by
  have hlong := h.long
  have hlen : byteAt (pre ++ (block ++ rest)) pre.length = byteAt block 0 :=
    byteAt_block (k := 0) (by omega)
  rw [hlen, h.first, List.drop_left, List.take_left]

theorem endpointAt_close (hle : (s.2.filter isEndpoint).length ≤ 255) (i : Int) :
    (TmpAlt.of s).close.endpointAt i =
      if 0 ≤ i then (s.2.filter isEndpoint)[i.toNat]?.map EndpointDescriptor.read else none := by
  have hnum : (TmpAlt.of s).close.bNumEndpoints.toNat = (s.2.filter isEndpoint).length := by
    simp only [TmpAlt.close, TmpAlt.of, List.length_map, UInt8.toNat_ofNat']
    omega
  have heps : (TmpAlt.of s).close.endpoint = (s.2.filter isEndpoint).map .read := rfl
  rw [InterfaceDescriptor.endpointAt, hnum, heps, List.getElem?_map]
  by_cases hi : 0 ≤ i
  · rw [if_pos hi]
    by_cases hlt : i < (s.2.filter isEndpoint).length
    · rw [if_pos ⟨hi, hlt⟩]
    · rw [if_neg fun h => hlt h.2, List.getElem?_eq_none (by omega), Option.map_none]
  · rw [if_neg hi, if_neg fun h => hi h.1]

theorem Located.sameEndpoint {off : Nat} (h : Located cfg s off)
    (hle : (s.2.filter isEndpoint).length ≤ 255) (i : Int) :
    SameEndpoint cfg (TmpAlt.of s).close off i where
  found ep hep := by
    rw [endpointAt_close hle] at hep
    split at hep
    · obtain ⟨e, he, rfl⟩ := Option.map_eq_some_iff.mp hep
      obtain ⟨pre, rest, rfl, hwhole, -, hoff⟩ := h.endpoint _ _ he
      rw [Int.toNat_of_nonneg ‹_›] at hoff
      exact ⟨_, hoff, by rw [take_drop_block hwhole]⟩
    · cases hep
  missing hnone := by
    rw [endpointAt_close hle] at hnone
    refine h.missing i ?_
    split at hnone
    · have := List.getElem?_eq_none_iff.mp (Option.map_eq_none_iff.mp hnone)
      omega
    · omega

/-- `lk_query_pipe` reads the same fields of the same descriptor. -/
theorem Located.query {off : Nat} (h : Located cfg s off)
    (hoff : lkIfaceOff cfg (byteAt s.1 2).toNat (byteAt s.1 3).toNat 0 = some (some off))
    (hle : (s.2.filter isEndpoint).length ≤ 255) (i : UInt8) :
    lkQueryPipe cfg (byteAt s.1 2) (byteAt s.1 3) i =
      some (match (TmpAlt.of s).close.endpointAt i.toNat with
        | some ep => .ok (.of ep)
        | none => .error errorNoMoreItems) := by
  rw [lkQueryPipe, hoff, Option.bind_some, endpointAt_close hle, if_pos (Int.natCast_nonneg _),
    Int.toNat_natCast]
  cases he : (s.2.filter isEndpoint)[i.toNat]? with
  | none =>
    have hlen := List.getElem?_eq_none_iff.mp he
    simp only [h.missing i.toNat (.inr (by omega)), Option.map_none]
  | some e =>
    obtain ⟨pre, rest, rfl, hwhole, hep, hscan⟩ := h.endpoint _ _ he
    have h7 := hwhole.endpoint (of_decide_eq_true hep)
    have hdrop : (pre ++ (e ++ rest)).drop (pre.length + 4) = e.drop 4 ++ rest := by
      rw [← List.drop_drop, List.drop_left, List.drop_append_of_le_length (by omega)]
    obtain ⟨a, b, tail, htail⟩ : ∃ a b tail, e.drop 4 = a :: b :: tail := by
      have hlen : (e.drop 4).length = e.length - 4 := List.length_drop
      match e.drop 4, hlen with
      | a :: b :: tail, _ => exact ⟨a, b, tail, rfl⟩
      | [_], hlen => rw [List.length_singleton] at hlen; omega
      | [], hlen => rw [List.length_nil] at hlen; omega
    have hmps : getLe16 ((pre ++ (e ++ rest)).drop (pre.length + 4)) = getLe16 (e.drop 4) := by
      rw [hdrop, htail]
      rfl
    simp only [hscan, hmps, Option.map_some]
    rw [if_neg (by simp only [List.length_append]; omega), byteAt_block (by omega),
      byteAt_block (by omega), byteAt_block (by omega)]
    rfl

theorem Split.agrees (h : Split cfg header descs) :
    ∃ tree, parseConfig cfg = some tree ∧ Agrees cfg tree := by
  have hnums : ((sections ifaceHead descs).map TmpAlt.of).map TmpAlt.num =
      (descs.filterMap ifaceKey).map Prod.fst := by
    have hkeys : descs.filterMap ifaceKey =
        (descs.filterMap ifaceHead).map fun desc => (byteAt desc 2, byteAt desc 3) :=
      (List.map_filterMap ..).symm
    rw [hkeys, ← sections_heads, List.map_map, List.map_map, List.map_map]
    rfl
  obtain ⟨tree, htree, hmem⟩ := parseConfig_blocks h.first h.nine h.config h.whole
    (hnums ▸ h.interfaces)
  rw [← h.eq] at htree
  have hnone : ∀ ifnum alt : Int, (∀ iface ∈ tree.interface, ∀ as ∈ iface.altsetting,
      ¬(as.bInterfaceNumber.toNat = ifnum ∧ as.bAlternateSetting.toNat = alt)) →
        lkIfaceOff cfg ifnum alt 0 = some none := by
    intro ifnum alt hall
    obtain ⟨heq, hwhole⟩ := h.blocks
    have hoff := lkIfaceOff_blocks hwhole ifnum alt []
    rw [← heq, offsetOf_eq_none] at hoff
    · exact hoff
    · refine List.forall_mem_cons.mpr ⟨h.header_not_alt _ _, fun b hb => ?_⟩
      by_contra hmatch
      obtain ⟨htype, hnum, halt⟩ := of_decide_eq_true (eq_true_of_ne_false hmatch)
      obtain ⟨before, after, rfl⟩ := List.append_of_mem hb
      have hsection : (b, upToHead ifaceHead after) ∈ sections ifaceHead (before ++ b :: after) :=
        exists_mem_sections (if_pos htype)
      obtain ⟨iface, hiface, has⟩ := (hmem _).mpr ⟨_, hsection, rfl⟩
      exact hall iface hiface _ has ⟨hnum, halt⟩
  refine ⟨tree, htree, fun iface hiface as has => ?_, hnone, fun iface hiface as has i => ?_,
    fun ifnum alt i hall => ?_⟩
  · obtain ⟨s, hs, rfl⟩ := (hmem as).mp ⟨iface, hiface, has⟩
    obtain ⟨off, hoff, hloc⟩ := h.located hs
    refine ⟨off, hoff, ?_, hloc.sameEndpoint (h.endpoints s hs)⟩
    obtain ⟨rest, pre, rfl, rfl, hwhole⟩ := hloc.head
    rw [take_drop_block hwhole]
    rfl
  · obtain ⟨s, hs, rfl⟩ := (hmem as).mp ⟨iface, hiface, has⟩
    obtain ⟨off, hoff, hloc⟩ := h.located hs
    exact hloc.query hoff (h.endpoints s hs) i
  · rw [lkQueryPipe, hnone]
    · rfl
    · intro iface hiface as has hand
      refine hall iface hiface as has ⟨?_, ?_⟩
      · exact UInt8.toNat_inj.mp (Int.ofNat_inj.mp hand.1)
      · exact UInt8.toNat_inj.mp (Int.ofNat_inj.mp hand.2)

end Agree

theorem whole_cons {a : UInt8} {l : List UInt8} (hsize : a.toNat = (a :: l).length)
    (hlong : 2 ≤ (a :: l).length)
    (hiface : byteAt (a :: l) 1 = usbDtInterface → 9 ≤ (a :: l).length)
    (hep : byteAt (a :: l) 1 = usbDtEndpoint → 7 ≤ (a :: l).length) : Whole (a :: l) :=
  ⟨⟨a, l, rfl, hsize⟩, hlong, hiface, hep⟩

/-- The blob of a device with two interfaces, of which the first has two alternate settings with
endpoints, and a class descriptor between them. -/
def twoAlts : List UInt8 :=
  [9, 2, 55, 0, 2, 1, 0, 0x80, 50, 9, 4, 0, 0, 1, 8, 6, 80, 0, 7, 5, 0x81, 3, 8, 0, 10,
    9, 4, 1, 0, 0, 255, 0, 0, 0, 5, 0x24, 0, 1, 1, 9, 4, 0, 1, 1, 8, 6, 80, 0, 7, 5, 2, 2, 0, 2, 0]

/-- On a well-formed blob the walks of the libusbK wrapper agree with the tree of the libusb
wrapper. -/
theorem walkers_agree {cfg : List UInt8} (h : WellFormed cfg) :
    ∃ tree, parseConfig cfg = some tree ∧ Agrees cfg tree := by
  obtain ⟨header, descs, hsplit⟩ := h
  exact hsplit.agrees

theorem walkers_agree_twoAlts : WellFormed twoAlts ∧
    ∃ tree, parseConfig twoAlts = some tree ∧ Agrees twoAlts tree := by
  have h : WellFormed twoAlts := by
    refine ⟨twoAlts.take 9, [(twoAlts.drop 9).take 9, (twoAlts.drop 18).take 7,
      (twoAlts.drop 25).take 9, (twoAlts.drop 34).take 5, (twoAlts.drop 39).take 9,
      twoAlts.drop 48], rfl, ?_, rfl, rfl, ?_, by decide, by decide, by decide⟩
    · exact whole_cons (by decide) (by decide) (by decide) (by decide)
    · simp only [List.forall_mem_cons]
      refine ⟨?_, ?_, ?_, ?_, ?_, ?_, by simp⟩
      all_goals exact whole_cons (by decide) (by decide) (by decide) (by decide)
  exact ⟨h, walkers_agree h⟩

end Usbip.Libusbk
