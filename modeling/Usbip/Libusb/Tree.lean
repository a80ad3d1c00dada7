import Usbip.Lib.Access
import Usbip.Libusb.Config

/-! What `parse_config` reads, and the whole tree that it makes: every descriptor is in one place of
it. -/

namespace Usbip.Libusb

open Lib Capture

/-! ### The reads -/

/-- What one turn of the first loop reads of a descriptor of `blen` bytes at `pos`, after its length
and type; `cur` is whether there is an alternate setting. -/
def descReads (btype : UInt8) (pos blen : Nat) (cur : Bool) : List Access :=
  if btype = usbDtInterface ∧ 9 ≤ blen then [.read pos 9]
  else if btype = usbDtEndpoint ∧ 7 ≤ blen ∧ cur then
    .read pos 7 :: if 9 ≤ blen then [.read (pos + 7) 2] else []
  else [.read pos blen]

/-- The reads of the first loop of `parse_config`, from `pos` on. -/
def loopReads (buf : List UInt8) (pos : Nat) (p : Parse) : List Access :=
  if pos + 2 ≤ buf.length then
    let blen := (byteAt buf pos).toNat
    let btype := byteAt buf (pos + 1)
    if blen = 0 ∨ buf.length < pos + blen then [.read pos 2]
    else
      .read pos 2 :: (descReads btype pos blen (!p.alts.isEmpty) ++
        loopReads buf (pos + blen) (p.push btype ((buf.drop pos).take blen)))
  else []
termination_by buf.length - pos

/-- The reads of `parse_config`. -/
def configReads (buf : List UInt8) : List Access :=
  if buf.length < 9 then []
  else if byteAt buf 1 ≠ libusbDtConfig then [.read 1 1]
  else
    let pos := if byteAt buf 0 ≠ 0 then (byteAt buf 0).toNat else 9
    .read 1 1 :: .read 0 9 :: loopReads buf pos ⟨[], []⟩

theorem descReads_inside {btype : UInt8} {pos blen cap : Nat} {cur : Bool} (h : pos + blen ≤ cap) :
    ∀ a ∈ descReads btype pos blen cur, a.Inside cap := by
  intro a ha
  rw [descReads] at ha
  split at ha
  · rename_i hlong
    rw [List.mem_singleton.mp ha]
    exact Or.inr (by omega)
  · split at ha
    · rename_i hlong
      rcases List.mem_cons.mp ha with rfl | ha
      · exact Or.inr (by omega)
      · split at ha
        · rw [List.mem_singleton.mp ha]
          exact Or.inr (by omega)
        · cases ha
    · rw [List.mem_singleton.mp ha]
      exact Or.inr h

theorem loopReads_inside (buf : List UInt8) (pos : Nat) (p : Parse) :
    ∀ a ∈ loopReads buf pos p, a.Inside buf.length := by
  induction pos, p using loopReads.induct buf with
  | case1 pos p hpos blen hend =>
    rw [loopReads.eq_def, if_pos hpos]
    dsimp only
    rw [if_pos hend, List.forall_mem_singleton]
    exact Or.inr hpos
  | case2 pos p hpos blen btype hin ih =>
    rw [loopReads.eq_def, if_pos hpos]
    dsimp only
    rw [if_neg hin]
    refine List.forall_mem_cons.mpr ⟨Or.inr hpos, ?_⟩
    refine List.forall_mem_append.mpr ⟨descReads_inside ?_, ih⟩
    omega
  | case3 pos p hpos =>
    rw [loopReads.eq_def, if_neg hpos]
    exact List.forall_mem_nil _

theorem configReads_inside (buf : List UInt8) : ∀ a ∈ configReads buf, a.Inside buf.length := by
  rw [configReads]
  split
  · exact List.forall_mem_nil _
  · rename_i hlen
    have hone : (Access.read 1 1).Inside buf.length := Or.inr (by omega)
    split
    · exact List.forall_mem_singleton.mpr hone
    · have hnine : (Access.read 0 9).Inside buf.length := Or.inr (by omega)
      apply List.forall_mem_cons.mpr ⟨hone, _⟩
      apply List.forall_mem_cons.mpr ⟨hnine, _⟩
      apply loopReads_inside

/-! ### The tree -/

/-- The alternate setting that an interface descriptor and those behind it make. -/
def settingOf (s : List UInt8 × List (List UInt8)) : InterfaceDescriptor := (TmpAlt.of s).close

theorem pushAll_alts_eq_nil {descs : List (List UInt8)} (hdescs : ∀ desc ∈ descs, Whole desc)
    (extra : List UInt8) :
    (Parse.pushAll ⟨[], extra⟩ descs).alts = [] ↔ lastHead ifaceHead descs = none := by
  obtain ⟨shut, hsections, -⟩ := sections_concat ifaceHead descs
  rw [pushAll_alts hdescs, List.map_eq_nil_iff]
  constructor
  · intro hnil
    rw [hnil] at hsections
    cases hlast : lastHead ifaceHead descs with
    | none => rfl
    | some k => simp [hlast] at hsections
  · intro hlast
    exact sections_of_none (lastHead_eq_none.mp hlast)

theorem Parse.push_cfgExtra {p : Parse} (hp : p.alts ≠ []) (btype : UInt8) (desc : List UInt8) :
    (p.push btype desc).cfgExtra = p.cfgExtra := by
  rw [push]
  split
  · rfl
  · split
    · rfl
    · rfl

/-- What stands before the first interface descriptor goes to the configuration. -/
theorem pushAll_cfgExtra {descs : List (List UInt8)} (hdescs : ∀ desc ∈ descs, Whole desc)
    (extra : List UInt8) :
    (Parse.pushAll ⟨[], extra⟩ descs).cfgExtra = extra ++ (upToHead ifaceHead descs).flatten := by
  induction descs using List.reverseRecOn with
  | nil => exact (List.append_nil extra).symm
  | append_singleton descs desc ih =>
    obtain ⟨hrest, hdesc⟩ := List.forall_mem_append.mp hdescs
    have hwhole := hdesc desc List.mem_cons_self
    have ih := ih hrest
    have halts := pushAll_alts_eq_nil hrest extra
    have hconcat : Parse.pushAll ⟨[], extra⟩ (descs ++ [desc]) =
        (Parse.pushAll ⟨[], extra⟩ descs).push (byteAt desc 1) desc := List.foldl_concat ..
    rw [hconcat]
    by_cases hhead : byteAt desc 1 = usbDtInterface
    · rw [Parse.push, if_pos ⟨hhead, hwhole.interface hhead⟩,
        upToHead_append_head descs [] (if_pos hhead)]
      exact ih
    · have hnone : ifaceHead desc = none := if_neg hhead
      cases hlast : lastHead ifaceHead descs with
      | none =>
        have hall := lastHead_eq_none.mp hlast
        have hnil := halts.mpr hlast
        rw [Parse.push, if_neg fun h => hhead h.1, if_neg fun h => h.2.2 hnil,
          if_neg fun h => h hnil]
        rw [upToHead_of_none hall] at ih
        rw [upToHead_of_none (List.forall_mem_append.mpr ⟨hall, List.forall_mem_singleton.mpr hnone⟩),
          List.flatten_append, ← List.append_assoc, ← ih, List.flatten_singleton]
      | some k =>
        have hne : (Parse.pushAll ⟨[], extra⟩ descs).alts ≠ [] :=
          fun hnil => by
            rw [halts.mp hnil] at hlast
            cases hlast
        rw [upToHead_append hlast, ← ih]
        exact Parse.push_cfgExtra hne _ _

namespace Ordered

variable {tmps : List TmpAlt} {b : List UInt8 × List (Option Nat × TmpAlt)}

/-- A bucket has the alternate settings with its number. -/
theorem filter_bucket (h : Ordered tmps b) {k : Nat} (hk : k < b.1.length) :
    (b.2.filter fun x => x.1 = some k).map Prod.snd = tmps.filter fun alt => alt.num = b.1[k] := by
  have hiff : ∀ x ∈ b.2, x.1 = some k ↔ x.2.num = b.1[k] := by
    intro x hx
    constructor
    · intro hxk
      have hnum := h.named x hx k hxk
      rw [List.getElem?_eq_getElem hk] at hnum
      exact (Option.some.inj hnum).symm
    · intro hnum
      obtain ⟨k', hk', hxk⟩ := h.bucket x hx
      have hnum' := h.named x hx k' hxk
      rw [List.getElem?_eq_getElem hk', hnum] at hnum'
      rw [hxk, h.nodup.getElem_inj_iff.mp (Option.some.inj hnum')]
  conv_rhs => rw [← h.alts, List.filter_map]
  apply congrArg
  apply List.filter_congr
  intro x hx
  exact decide_eq_decide.mpr (hiff x hx)

theorem interfaces (h : Ordered tmps b) :
    ((List.range b.1.length).map fun k =>
      Interface.mk ((b.2.filter fun x => x.1 = some k).map fun x => x.2.close)) =
      (groups InterfaceDescriptor.bInterfaceNumber (tmps.map TmpAlt.close)).map Interface.mk := by
  have hkeys : groups TmpAlt.num tmps =
      b.1.map fun num => tmps.filter fun alt => alt.num = num := by
    rw [groups, h.first]
  rw [groups_map]
  have hnum : (fun alt : TmpAlt => alt.close.bInterfaceNumber) = TmpAlt.num := rfl
  rw [hnum, hkeys, List.map_map, List.map_map]
  apply List.ext_getElem
  · simp
  · intro k hk _
    rw [List.length_map, List.length_range] at hk
    simp only [List.getElem_map, List.getElem_range, Function.comp_apply]
    rw [← h.filter_bucket hk, List.map_map]
    rfl

end Ordered

/-- Where the descriptors after the header start. -/
def headerLen (buf : List UInt8) : Nat := if byteAt buf 0 ≠ 0 then (byteAt buf 0).toNat else 9

theorem parseDescs_drop {buf : List UInt8} {pos : Nat} {descs : List (List UInt8)}
    (hdescs : ∀ desc ∈ descs, Whole desc) (hrest : buf.drop pos = descs.flatten) (p : Parse) :
    parseDescs buf pos p = p.pushAll descs := by
  by_cases hpos : pos ≤ buf.length
  · have hlen : (buf.take pos).length = pos := List.length_take_of_le hpos
    have hblocks := parseDescs_blocks hdescs (buf.take pos) p
    rw [← hrest, List.take_append_drop, hlen] at hblocks
    exact hblocks
  · have hnil : descs = [] := by
      rw [List.drop_eq_nil_of_le (by omega)] at hrest
      apply List.eq_nil_iff_forall_not_mem.mpr
      intro desc hdesc
      have hlong := (hdescs desc hdesc).long
      rw [List.flatten_eq_nil_iff.mp hrest.symm desc hdesc, List.length_nil] at hlong
      omega
    rw [hnil, parseDescs.eq_def, if_neg (by omega)]
    rfl

/-- The tree of the descriptors `descs`. -/
structure TreeOf (descs : List (List UInt8)) (tree : ConfigDescriptor) : Prop where
  /-- the interface descriptors open sections, which with what stands before them are everything -/
  parts : upToHead ifaceHead descs ++ (sections ifaceHead descs).flatMap (fun s => s.1 :: s.2) =
    descs
  extra : tree.extra = (upToHead ifaceHead descs).flatten
  interface : tree.interface = (groups InterfaceDescriptor.bInterfaceNumber
    ((sections ifaceHead descs).map settingOf)).map Interface.mk
  once : (tree.interface.flatMap Interface.altsetting).Perm
    ((sections ifaceHead descs).map settingOf)
  numInterfaces : tree.bNumInterfaces.toNat = tree.interface.length
  numEndpoints : ∀ as ∈ tree.interface.flatMap Interface.altsetting,
    as.bNumEndpoints.toNat = as.endpoint.length

theorem settingOf_numEndpoints {s : List UInt8 × List (List UInt8)}
    (hs : (s.2.filter isEndpoint).length ≤ 255) :
    (settingOf s).bNumEndpoints.toNat = (settingOf s).endpoint.length := by
  have hlen : (settingOf s).endpoint.length = (s.2.filter isEndpoint).length := List.length_map _
  have hnum : (settingOf s).bNumEndpoints = UInt8.ofNat (settingOf s).endpoint.length := rfl
  rw [hnum, UInt8.toNat_ofNat_of_lt']
  rw [hlen]
  exact Nat.lt_succ_of_le hs

theorem flatMap_altsetting (as : List (List InterfaceDescriptor)) :
    (as.map Interface.mk).flatMap Interface.altsetting = as.flatten := by
  rw [List.flatMap_map]
  exact List.flatMap_id

theorem exists_parseConfig {buf : List UInt8} (hlen : 9 ≤ buf.length)
    (htype : byteAt buf 1 = libusbDtConfig) : ∃ tree, parseConfig buf = some tree ∧
      (let grouped := buckets (parseDescs buf (headerLen buf) ⟨[], []⟩).alts
      tree.interface = ((List.range grouped.1.length).map fun k =>
        Interface.mk ((grouped.2.filter fun x => x.1 = some k).map fun x => x.2.close)) ∧
      tree.bNumInterfaces = UInt8.ofNat grouped.1.length) ∧
      tree.extra = (parseDescs buf (headerLen buf) ⟨[], []⟩).cfgExtra := by
  unfold parseConfig
  rw [if_neg]
  · exact ⟨_, rfl, ⟨rfl, rfl⟩, rfl⟩
  · rintro (hshort | hother)
    · omega
    · exact hother htype

/-- For every string the reads stay in it; where the descriptors behind the header are whole and fit
the counters, the tree is that of them. -/
theorem parseConfig_tree (buf : List UInt8) : (∀ a ∈ configReads buf, a.Inside buf.length) ∧
    ∀ descs : List (List UInt8), 9 ≤ buf.length → byteAt buf 1 = libusbDtConfig →
      buf.drop (headerLen buf) = descs.flatten → (∀ desc ∈ descs, Whole desc) →
      (((sections ifaceHead descs).map settingOf).map
        InterfaceDescriptor.bInterfaceNumber).dedup.length ≤ 64 →
      (∀ s ∈ sections ifaceHead descs, (s.2.filter isEndpoint).length ≤ 255) →
      ∃ tree, parseConfig buf = some tree ∧ TreeOf descs tree := by
  refine ⟨configReads_inside buf, fun descs hlen htype hrest hdescs hfew hfit => ?_⟩
  obtain ⟨tree, htree, ⟨hinterface, hnum⟩, hextra⟩ := exists_parseConfig hlen htype
  have hsettings : ((sections ifaceHead descs).map TmpAlt.of).map TmpAlt.close =
      (sections ifaceHead descs).map settingOf := List.map_map
  have hnums : ((sections ifaceHead descs).map TmpAlt.of).map TmpAlt.num =
      ((sections ifaceHead descs).map settingOf).map InterfaceDescriptor.bInterfaceNumber := by
    rw [List.map_map, List.map_map]
    rfl
  rw [← hnums] at hfew
  have hordered := buckets_ordered hfew
  rw [parseDescs_drop hdescs hrest, pushAll_alts hdescs] at hinterface hnum
  rw [hordered.interfaces, hsettings] at hinterface
  rw [parseDescs_drop hdescs hrest, pushAll_cfgExtra hdescs, List.nil_append] at hextra
  have hflat : tree.interface.flatMap Interface.altsetting = (groups
      InterfaceDescriptor.bInterfaceNumber ((sections ifaceHead descs).map settingOf)).flatten := by
    rw [hinterface, flatMap_altsetting]
  have honce : (tree.interface.flatMap Interface.altsetting).Perm
      ((sections ifaceHead descs).map settingOf) := by
    rw [hflat]
    exact groups_perm _ _
  refine ⟨tree, htree, upToHead_append_sections ?_ descs, hextra, hinterface, honce, ?_, ?_⟩
  · intro desc k hk
    rw [ifaceHead] at hk
    split at hk
    · exact (Option.some.inj hk).symm
    · cases hk
  · have hcount : (buckets ((sections ifaceHead descs).map TmpAlt.of)).1.length ≤ 64 := by
      apply Nat.le_trans _ hfew
      apply (hordered.nodup.subperm _).length_le
      intro num hmem
      exact List.mem_dedup.mpr (hordered.subset hmem)
    have hlength := congrArg List.length hordered.interfaces
    rw [hsettings, ← hinterface, List.length_map, List.length_range] at hlength
    rw [hnum, UInt8.toNat_ofNat_of_lt' (Nat.lt_of_le_of_lt hcount (by decide)), hlength]
  · intro as has
    obtain ⟨s, hs, rfl⟩ := List.mem_map.mp (honce.mem_iff.mp has)
    exact settingOf_numEndpoints (hfit s hs)

/-- An association, interface 0 with an endpoint and a class descriptor, interface 1, and a second
alternate setting of interface 0. -/
def webcamDescs : List (List UInt8) :=
  [[8, 11, 0, 2, 14, 3, 0, 0], [9, 4, 0, 0, 1, 14, 1, 0, 0], [7, 5, 0x81, 3, 8, 0, 4],
    [5, 0x24, 1, 0, 1], [9, 4, 1, 0, 0, 14, 2, 0, 0], [9, 4, 0, 1, 0, 14, 1, 0, 0]]

def webcamConfig : List UInt8 := [9, 2, 56, 0, 2, 1, 0, 0x80, 50] ++ webcamDescs.flatten

theorem parseConfig_webcam : ∃ tree, parseConfig webcamConfig = some tree ∧
    tree.interface.map (fun iface => iface.altsetting.map fun as =>
      (as.bInterfaceNumber, as.bAlternateSetting, as.bNumEndpoints, as.extra)) =
        [[(0, 0, 1, [5, 0x24, 1, 0, 1]), (0, 1, 0, [])], [(1, 0, 0, [])]] ∧
    tree.extra = [8, 11, 0, 2, 14, 3, 0, 0] := by
  have hdescs : ∀ desc ∈ webcamDescs, Whole desc := by
    simp only [webcamDescs, List.forall_mem_cons]
    refine ⟨?_, ?_, ?_, ?_, ?_, ?_, List.forall_mem_nil _⟩ <;>
      exact ⟨⟨_, _, rfl, rfl⟩, by decide, by decide, by decide⟩
  obtain ⟨tree, htree, hof⟩ := (parseConfig_tree webcamConfig).2 webcamDescs (by decide) (by decide)
    (by decide) hdescs (by decide) (by decide)
  refine ⟨tree, htree, ?_, ?_⟩
  · rw [hof.interface]
    decide
  · rw [hof.extra]
    decide

end Usbip.Libusb
