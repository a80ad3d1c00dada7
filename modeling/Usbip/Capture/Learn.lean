import Usbip.Build.Config

/-! Transfer types in a capture.  The server knows the type of each endpoint; the client learns it
from the configuration descriptor when it comes by, and keeps what it has learned in a table of
eight devices. -/

namespace Usbip.Capture

open Lib Device

/-- The transfer types of usbmon. -/
inductive XferType
  | iso
  | intr
  | ctrl
  | bulk
  deriving DecidableEq, Repr

def bmattrToUsbmon (bmattr : UInt8) (ep : Nat) : XferType :=
  if ep = 0 then .ctrl
  else if bmattr &&& 3 = 0 then .ctrl
  else if bmattr &&& 3 = 1 then .iso
  else if bmattr &&& 3 = 2 then .bulk
  else .intr

def pcapXferDev (dev : Device) (ep : Nat) (dir : Dir) : XferType :=
  if ep = 0 then .ctrl
  else
    match if ep < 16 then dev.held ep dir else none with
    | some endpoint => bmattrToUsbmon endpoint.type ep
    | none => .bulk

/-- `pcap_epmap`, up to `pcap_epmap_n`: a table of types for each device, 0 for one not known and
the type plus 1 otherwise. -/
abbrev Epmap : Type := List (UInt32 × EpTable UInt8)

def pcapEpmapDevs : Nat := 8

/-- `pcap_epmap_find`, which does not create. -/
def Epmap.find (maps : Epmap) (devid : UInt32) : Option Nat :=
  maps.findIdx? fun m => m.1 = devid

/-- `pcap_epmap_find`, which creates; a full table gives up slot 0. -/
def Epmap.create (maps : Epmap) (devid : UInt32) : Epmap × Nat :=
  match maps.find devid with
  | some k => (maps, k)
  | none =>
    if maps.length < pcapEpmapDevs then (maps ++ [(devid, fun _ _ => 0)], maps.length)
    else (maps.set 0 (devid, fun _ _ => 0), 0)

/-- The loop of `pcap_epmap_learn` from `i` on, `none` when it reads outside of the descriptor. -/
def pcapEpmapLearn (devid : UInt32) (cfg : List UInt8) (i : Nat) (map : Option Nat)
    (maps : Epmap) : Option Epmap :=
  if i + 2 ≤ cfg.length then
    match cfg[i]?, cfg[i + 1]? with
    | some first, some type =>
      if first.toNat = 0 then some maps
      else if type = usbDtEndpoint ∧ 7 ≤ first.toNat ∧ i + 7 ≤ cfg.length then
        match cfg[i + 2]?, cfg[i + 3]? with
        | some addr, some attributes =>
          let (maps, k) := match map with
            | some k => (maps, k)
            | none => maps.create devid
          let maps := maps.modify k fun m =>
            (m.1, m.2.set (epNumber addr) (epDir addr) ((attributes &&& 3) + 1))
          pcapEpmapLearn devid cfg (i + first.toNat) (some k) maps
        | _, _ => none
      else pcapEpmapLearn devid cfg (i + first.toNat) map maps
    | _, _ => none
  else some maps
termination_by cfg.length - i

def isConfigDescriptorReply (ep : Nat) (dir : Dir) (status : Int) (act : Nat)
    (setup : Option (List UInt8)) : Prop :=
  ep = 0 ∧ dir = .usbIn ∧ status = 0 ∧ 0 < act ∧
    ∃ s ∈ setup, byteAt s 0 = 0x80 ∧ byteAt s 1 = 6 ∧ byteAt s 3 = 2

instance (ep : Nat) (dir : Dir) (status : Int) (act : Nat) (setup : Option (List UInt8)) :
    Decidable (isConfigDescriptorReply ep dir status act setup) :=
  have : Decidable (∃ s ∈ setup, byteAt s 0 = 0x80 ∧ byteAt s 1 = 6 ∧ byteAt s 3 = 2) :=
    Option.decidableExistsMem setup
  inferInstanceAs (Decidable (_ ∧ _ ∧ _ ∧ _ ∧ _))

/-- What `usbip_client_submit` learns from a reply while it captures. -/
def snoop (maps : Epmap) (devid : UInt32) (ep : Nat) (dir : Dir) (status : Int) (act : Nat)
    (setup : Option (List UInt8)) (buf : List UInt8) : Option Epmap :=
  if isConfigDescriptorReply ep dir status act setup then
    pcapEpmapLearn devid (buf.take act) 0 none maps
  else some maps

def pcapXferClient (maps : Epmap) (devid : UInt32) (ep : Nat) (dir : Dir) (interval : Int) :
    XferType :=
  if ep = 0 then .ctrl
  else
    let type := if ep < 16 then
        match (maps.find devid).bind fun k => maps[k]? with
        | some m => m.2 ep dir
        | none => 0
      else 0
    if type ≠ 0 then bmattrToUsbmon (type - 1) ep
    else if 0 < interval then .intr
    else .bulk

/-- The walk comes to an end inside every string of bytes. -/
theorem pcapEpmapLearn_isSome (devid : UInt32) (cfg : List UInt8) (i : Nat) (map : Option Nat)
    (maps : Epmap) : (pcapEpmapLearn devid cfg i map maps).isSome := by
  fun_induction pcapEpmapLearn devid cfg i map maps with
  | case1 => rfl
  | case2 i map maps hfit first type hfirst htype hpos hep addr attr haddr hattr maps' k hk maps'' ih =>
    exact ih
  | case3 i map maps hfit first type hfirst htype hpos hep hnone =>
    have h2 : i + 2 < cfg.length := by omega
    have h3 : i + 3 < cfg.length := by omega
    exact absurd (List.getElem?_eq_getElem h3)
      (hnone _ _ (List.getElem?_eq_getElem h2))
  | case4 i map maps hfit first type hfirst htype hpos hep ih => exact ih
  | case5 i map maps hfit hnone =>
    have h0 : i < cfg.length := by omega
    have h1 : i + 1 < cfg.length := by omega
    exact absurd (List.getElem?_eq_getElem h1)
      (hnone _ _ (List.getElem?_eq_getElem h0))
  | case6 => rfl

/-! ### The walk over descriptors -/

/-- A descriptor as long as its first byte says, with room for the fields of its kind. -/
structure Whole (block : List UInt8) : Prop where
  framed : Framed UInt8.toNat block
  long : 2 ≤ block.length
  interface : byteAt block 1 = usbDtInterface → 9 ≤ block.length
  endpoint : byteAt block 1 = usbDtEndpoint → 7 ≤ block.length

def isEndpoint (block : List UInt8) : Bool := byteAt block 1 = usbDtEndpoint

/-- What the client takes from a descriptor. -/
def note (table : EpTable UInt8) (block : List UInt8) : EpTable UInt8 :=
  if isEndpoint block then
    table.set (epNumber (byteAt block 2)) (epDir (byteAt block 2)) ((byteAt block 3 &&& 3) + 1)
  else table

/-- A client that knows these types of one device, and nothing of any other. -/
inductive Knows (devid : UInt32) : EpTable UInt8 → Option Nat → Epmap → Prop
  | fresh : Knows devid (fun _ _ => 0) none []
  | known (table : EpTable UInt8) : Knows devid table (some 0) [(devid, table)]

theorem Whole.first {block : List UInt8} (h : Whole block) :
    (byteAt block 0).toNat = block.length := by
  obtain ⟨a, l, rfl, hsize⟩ := h.framed
  exact hsize

/-- The byte `k` of a block that starts at `pre.length`. -/
theorem getElem?_block {pre block rest : List UInt8} {k : Nat} (hk : k < block.length) :
    (pre ++ (block ++ rest))[pre.length + k]? = some (byteAt block k) := by
  rw [List.getElem?_append_right (Nat.le_add_right _ _), Nat.add_sub_cancel_left,
    List.getElem?_append_left hk, byteAt, List.getD_eq_getElem?_getD,
    List.getElem?_eq_getElem hk]
  rfl

/-- One descriptor is taken note of. -/
theorem pcapEpmapLearn_block {devid : UInt32} {table : EpTable UInt8} {map : Option Nat}
    {maps : Epmap} {block : List UInt8} (h : Knows devid table map maps) (hwhole : Whole block)
    (pre rest : List UInt8) : ∃ map' maps', Knows devid (note table block) map' maps' ∧
      pcapEpmapLearn devid (pre ++ (block ++ rest)) pre.length map maps =
        pcapEpmapLearn devid (pre ++ (block ++ rest)) (pre.length + block.length) map' maps' := by
  have hlong := hwhole.long
  have hfit : pre.length + 2 ≤ (pre ++ (block ++ rest)).length := by
    simp only [List.length_append]
    omega
  have hfirst : (pre ++ (block ++ rest))[pre.length]? = some (byteAt block 0) :=
    getElem?_block (k := 0) (by omega)
  have htype : (pre ++ (block ++ rest))[pre.length + 1]? = some (byteAt block 1) :=
    getElem?_block (by omega)
  have hstep : pcapEpmapLearn devid (pre ++ (block ++ rest)) pre.length map maps =
      if byteAt block 1 = usbDtEndpoint then
        let (maps, k) := match map with
          | some k => (maps, k)
          | none => maps.create devid
        pcapEpmapLearn devid (pre ++ (block ++ rest)) (pre.length + block.length) (some k)
          (maps.modify k fun m => (m.1, m.2.set (epNumber (byteAt block 2))
            (epDir (byteAt block 2)) ((byteAt block 3 &&& 3) + 1)))
      else pcapEpmapLearn devid (pre ++ (block ++ rest)) (pre.length + block.length) map maps := by
    rw [pcapEpmapLearn.eq_def, if_pos hfit]
    simp only [hfirst, htype, hwhole.first]
    rw [if_neg (by omega)]
    by_cases hep : byteAt block 1 = usbDtEndpoint
    · have h7 := hwhole.endpoint hep
      have haddr : (pre ++ (block ++ rest))[pre.length + 2]? = some (byteAt block 2) :=
        getElem?_block (by omega)
      have hattr : (pre ++ (block ++ rest))[pre.length + 3]? = some (byteAt block 3) :=
        getElem?_block (by omega)
      rw [if_pos hep, if_pos ⟨hep, h7, by simp only [List.length_append]; omega⟩]
      simp only [haddr, hattr]
    · rw [if_neg hep, if_neg fun hand => hep hand.1]
  rw [hstep]
  by_cases hep : byteAt block 1 = usbDtEndpoint
  · have hnote : note table block = table.set (epNumber (byteAt block 2)) (epDir (byteAt block 2))
        ((byteAt block 3 &&& 3) + 1) := if_pos (decide_eq_true hep)
    rw [if_pos hep, hnote]
    refine ⟨some 0, _, .known _, ?_⟩
    cases h with
    | fresh => rfl
    | known => rfl
  · have hnote : note table block = table := if_neg fun hd => hep (of_decide_eq_true hd)
    rw [if_neg hep, hnote]
    exact ⟨map, maps, h, rfl⟩

theorem pcapEpmapLearn_blocks {devid : UInt32} {blocks : List (List UInt8)}
    (hblocks : ∀ b ∈ blocks, Whole b) {table : EpTable UInt8} {map : Option Nat} {maps : Epmap}
    (h : Knows devid table map maps) (pre : List UInt8) :
    ∃ map' maps', Knows devid (blocks.foldl note table) map' maps' ∧
      pcapEpmapLearn devid (pre ++ blocks.flatten) pre.length map maps = some maps' := by
  induction blocks generalizing table map maps pre with
  | nil =>
    refine ⟨map, maps, h, ?_⟩
    rw [pcapEpmapLearn.eq_def, List.flatten_nil, List.append_nil, if_neg (by omega)]
  | cons block blocks ih =>
    obtain ⟨hblock, hrest⟩ := List.forall_mem_cons.mp hblocks
    obtain ⟨map₁, maps₁, h₁, heq₁⟩ := pcapEpmapLearn_block h hblock pre blocks.flatten
    obtain ⟨map', maps', h', heq'⟩ := ih hrest h₁ (pre ++ block)
    refine ⟨map', maps', h', ?_⟩
    rw [List.flatten_cons, heq₁, ← heq', List.length_append, List.append_assoc]

/-- What the client makes of the types it knows. -/
theorem Knows.xferClient {devid : UInt32} {table : EpTable UInt8} {map : Option Nat} {maps : Epmap}
    (h : Knows devid table map maps) {ep : Nat} (hep : ep < 16) (dir : Dir) (interval : Int)
    {type : UInt8} (htype : table ep dir = (type &&& 3) + 1) :
    pcapXferClient maps devid ep dir interval = bmattrToUsbmon (type &&& 3) ep := by
  have hne : (type &&& 3) + 1 ≠ 0 := by
    intro h0
    have := congrArg UInt8.toNat h0
    have hle : (type &&& 3).toNat ≤ 3 := by
      rw [UInt8.toNat_and]
      exact Nat.and_le_right
    rw [UInt8.toNat_add] at this
    simp only [UInt8.reduceToNat] at this
    omega
  cases h with
  | fresh => exact absurd htype.symm hne
  | known =>
    have hfind : Epmap.find [(devid, table)] devid = some 0 := by simp [Epmap.find]
    simp only [pcapXferClient, hfind, Option.bind_some, List.getElem?_cons_zero, if_pos hep, htype]
    rw [if_pos hne, UInt8.add_sub_cancel]
    split
    · rename_i h0
      rw [bmattrToUsbmon, if_pos h0]
    · rfl

end Usbip.Capture
