import Usbip.Control.Scratch
import Usbip.Lib.Bytes
import Usbip.Lib.Cut
import Usbip.Lib.Memory

/-! The lengths inside the Microsoft OS descriptors.  A host that reads a reply of the core goes
from section to section by the lengths that it finds there; each of them leads exactly to the end of
the section around it. -/

namespace Usbip.Control

open Lib
open Device (u16le)

/-- The bytes of a reply in a scratch buffer that held `c`. -/
def Built.reply (b : Built) (c : Nat → UInt8) : List UInt8 := readout (putAll b.stores c) b.len

theorem Built.reply_eq {b : Built} {image : List UInt8} (hw : Writes b.stores 0 image)
    (hlen : b.len = image.length) (c : Nat → UInt8) : b.reply c = image := by
  rw [Built.reply, hlen, hw.readout_eq]

/-! ### What a host reads -/

def le16At (bytes : List UInt8) (off : Nat) : Nat := (getLe16 (bytes.drop off)).toNat

def le32At (bytes : List UInt8) (off : Nat) : Nat := (getLe32 (bytes.drop off)).toNat

/-- `wDescriptorType` of a Microsoft OS 2.0 descriptor. -/
def os2Type (bytes : List UInt8) : Nat := le16At bytes 2

/-- How far it is from a Microsoft OS 2.0 descriptor to the next one on its level: a configuration
subset and a function subset hold others. -/
def os2Length (bytes : List UInt8) : Nat :=
  if os2Type bytes = 1 ∨ os2Type bytes = 2 then le16At bytes 6 else le16At bytes 0

/-- A compatible ID, or a registry property with its name and its data. -/
def FeatureWhole (f : List UInt8) : Prop :=
  le16At f 0 = f.length ∧
    (os2Type f = 3 ∧ f.length = 20 ∨
      os2Type f = 4 ∧ 8 + le16At f 6 + 2 + le16At f (8 + le16At f 6) = f.length)

/-- The parts of a section behind its header, if they fill it exactly. -/
def Parts (size : List UInt8 → Nat) (header : Nat) (sect : List UInt8) (P : List UInt8 → Prop) :
    Prop :=
  ∃ parts, cut size (sect.drop header) = some parts ∧ ∀ part ∈ parts, P part

def FunctionWhole (fs : List UInt8) : Prop :=
  le16At fs 0 = 8 ∧ os2Type fs = 2 ∧ le16At fs 6 = fs.length ∧ Parts os2Length 8 fs FeatureWhole

def ConfigurationWhole (cfg : List UInt8) : Prop :=
  le16At cfg 0 = 8 ∧ os2Type cfg = 1 ∧ le16At cfg 6 = cfg.length ∧
    Parts os2Length 8 cfg FunctionWhole

/-- A Microsoft OS 2.0 descriptor set. -/
def SetWhole (set : List UInt8) : Prop :=
  le16At set 0 = 10 ∧ os2Type set = 0 ∧ le16At set 8 = set.length ∧
    Parts os2Length 10 set fun part => ConfigurationWhole part ∨ FeatureWhole part

/-- A property section of the Microsoft OS 1.0 extended properties. -/
def PropertyWhole (s : List UInt8) : Prop :=
  le32At s 0 = s.length ∧ 10 + le16At s 8 + 4 + le32At s (10 + le16At s 8) = s.length

/-- The Microsoft OS 1.0 extended properties. -/
def ExtpropsWhole (b : List UInt8) : Prop :=
  le32At b 0 = b.length ∧
    ∃ parts, cut (le32At · 0) (b.drop 10) = some parts ∧ parts.length = le16At b 8 ∧
      ∀ part ∈ parts, PropertyWhole part

/-- A BOS descriptor in which every Microsoft OS 2.0 platform capability advertises `len`, and which
has one exactly when `some_msos`. -/
def BosAdvertises (bos : List UInt8) (someMsos : Prop) (len : Nat) : Prop :=
  le16At bos 2 = bos.length ∧ ∃ caps, cut (fun cap => (cap.headD 0).toNat) (bos.drop 5) = some caps ∧
    (someMsos ↔ ∃ cap ∈ caps, bytesAt cap 4 16 = msos20Uuid) ∧
    ∀ cap ∈ caps, bytesAt cap 4 16 = msos20Uuid → le16At cap 24 = len

/-! ### Reading a field back -/

theorem getLe16_u16le (w : UInt16) (s : List UInt8) : getLe16 (u16le w ++ s) = w := by
  apply UInt16.toNat_inj.mp
  have := w.toNat_lt
  simp only [u16le, List.cons_append, getLe16, UInt16.toNat_ofNat', UInt16.toNat_toUInt8,
    UInt16.toNat_shiftRight, UInt16.toNat_ofNat, Nat.shiftRight_eq_div_pow, Nat.reducePow,
    Nat.reduceMod]
  omega

theorem getLe32_u32le (w : UInt32) (s : List UInt8) : getLe32 (u32le w ++ s) = w := by
  apply UInt32.toNat_inj.mp
  have := w.toNat_lt
  simp only [u32le, List.cons_append, getLe32, UInt32.toNat_ofNat', UInt32.toNat_toUInt8,
    UInt32.toNat_shiftRight, UInt32.toNat_ofNat, Nat.shiftRight_eq_div_pow, Nat.reducePow,
    Nat.reduceMod]
  omega

theorem le16At_append (before : List UInt8) {off n : Nat} (h : before.length = off)
    (hn : n < 2 ^ 16) (rest : List UInt8) :
    le16At (before ++ (u16le n.toUInt16 ++ rest)) off = n := by
  rw [le16At, List.drop_left' h, getLe16_u16le]
  exact Nat.mod_eq_of_lt hn

theorem le32At_append (before : List UInt8) {off n : Nat} (h : before.length = off)
    (hn : n < 2 ^ 32) (rest : List UInt8) :
    le32At (before ++ (u32le n.toUInt32 ++ rest)) off = n := by
  rw [le32At, List.drop_left' h, getLe32_u32le]
  exact Nat.mod_eq_of_lt hn

theorem le16At_zero {n : Nat} (hn : n < 2 ^ 16) (rest : List UInt8) :
    le16At (u16le n.toUInt16 ++ rest) 0 = n := le16At_append [] rfl hn rest

theorem le32At_zero {n : Nat} (hn : n < 2 ^ 32) (rest : List UInt8) :
    le32At (u32le n.toUInt32 ++ rest) 0 = n := le32At_append [] rfl hn rest

/-! ### The bytes of the builders -/

/-- The order in which the property builders write: the two strings first, then the header, and the
length of the second string last. -/
theorem strings_first {α : Type} (header : List α) (name len data : α) :
    (header ++ [name, len, data]).Perm (name :: data :: (header ++ [len])) :=
  List.perm_append_comm.trans
    (.cons name ((List.Perm.swap data len header).trans
      (.cons data (List.perm_append_singleton len header).symm)))

/-- The registry property of `msos2_feature`. -/
def regPropImage (guid : Text) : List UInt8 :=
  u16le (msos2RegProp guid).len.toUInt16 ++ (u16le 4 ++ (u16le 7 ++
    (u16le (utf16Bytes deviceInterfaceGuids 1).toUInt16 ++ (utf16 deviceInterfaceGuids 1 ++
      (u16le (utf16Bytes guid.val 2).toUInt16 ++ utf16 guid.val 2)))))

theorem msos2RegProp_writes (guid : Text) :
    Writes (msos2RegProp guid).stores 0 (regPropImage guid) := by
  have hsorted : Writes ([⟨0, u16le (msos2RegProp guid).len.toUInt16⟩, ⟨2, u16le 4⟩, ⟨4, u16le 7⟩,
      ⟨6, u16le (utf16Bytes deviceInterfaceGuids 1).toUInt16⟩] ++ [⟨8, utf16 deviceInterfaceGuids 1⟩,
      ⟨50, u16le (utf16Bytes guid.val 2).toUInt16⟩, ⟨52, utf16 guid.val 2⟩]) 0 (regPropImage guid) :=
    .cons _ <| .cons _ <| .cons _ <| .cons _ <| .cons _ <| .cons _ <| .single _ _
  refine hsorted.perm (strings_first ..) ?_
  simp [Store.Apart, Store.stop, utf16Bytes, deviceInterfaceGuids, deviceInterfaceGuid]

/-- The property section of `msos1_extprops`. -/
def propertyImage (guid : Text) : List UInt8 :=
  u32le ((msos1Extprops (some guid)).len - 10).toUInt32 ++ (u32le 1 ++
    (u16le (utf16Bytes deviceInterfaceGuid 1).toUInt16 ++ (utf16 deviceInterfaceGuid 1 ++
      (u32le (utf16Bytes guid.val 1).toUInt32 ++ utf16 guid.val 1))))

def extpropsImage (len count : Nat) (body : List UInt8) : List UInt8 :=
  u32le len.toUInt32 ++ (u16le 0x0100 ++ (u16le 5 ++ (u16le count.toUInt16 ++ body)))

theorem msos1Extprops_none_writes :
    Writes (msos1Extprops none).stores 0 (extpropsImage 10 0 []) :=
  .cons _ <| .cons _ <| .cons _ <| .cons _ <| .nil _

theorem msos1Extprops_some_writes (guid : Text) :
    Writes (msos1Extprops (some guid)).stores 0
      (extpropsImage (msos1Extprops (some guid)).len 1 (propertyImage guid)) := by
  have hsorted : Writes ([⟨10, u32le ((msos1Extprops (some guid)).len - 10).toUInt32⟩,
      ⟨14, u32le 1⟩, ⟨18, u16le (utf16Bytes deviceInterfaceGuid 1).toUInt16⟩] ++
      [⟨20, utf16 deviceInterfaceGuid 1⟩, ⟨60, u32le (utf16Bytes guid.val 1).toUInt32⟩,
        ⟨64, utf16 guid.val 1⟩]) 10 (propertyImage guid) :=
    .cons _ <| .cons _ <| .cons _ <| .cons _ <| .cons _ <| .single _ _
  have hheader : Writes [⟨0, u32le (msos1Extprops (some guid)).len.toUInt32⟩, ⟨4, u16le 0x0100⟩,
      ⟨6, u16le 5⟩, ⟨8, u16le 1⟩] 0
      (u32le (msos1Extprops (some guid)).len.toUInt32 ++ (u16le 0x0100 ++ (u16le 5 ++ u16le 1))) :=
    .cons _ <| .cons _ <| .cons _ <| .single _ _
  have hbody := hsorted.perm (strings_first ..) (by
    simp [Store.Apart, Store.stop, utf16Bytes, deviceInterfaceGuid])
  have hlen : (msos1Extprops (some guid)).len - 10 =
      10 + utf16Bytes deviceInterfaceGuid 1 + 4 + utf16Bytes guid.val 1 := by
    rw [msos1Extprops]
    exact Nat.add_sub_cancel_left ..
  rw [hlen] at hbody
  have hall := hheader.append_comm hbody
  simp only [List.append_assoc] at hall
  exact hall

/-- `memcpy` of a string of 8 bytes at most over a cleared field of 16. -/
def compatField (compatible : Text) : List UInt8 :=
  compatible.val.take 8 ++ List.replicate (16 - (compatible.val.take 8).length) 0

def compatImage (compatible : Text) : List UInt8 :=
  u16le 0x0014 ++ (u16le 0x0003 ++ compatField compatible)

theorem msos2Compat_writes (compatible : Text) :
    Writes [⟨0, u16le 0x0014⟩, ⟨2, u16le 0x0003⟩, ⟨4, List.replicate 16 0⟩,
      ⟨4, compatible.val.take 8⟩] 0 (compatImage compatible) := by
  have hfield : Writes ([⟨4, List.replicate 16 0⟩] ++ [⟨4, compatible.val.take 8⟩]) 4
      (compatField compatible) := by
    have hover := (Writes.single 4 (List.replicate 16 0)).inside
      (Writes.single (4 + 0) (compatible.val.take 8)) (by simp)
    rw [Nat.zero_add, List.take_zero, List.nil_append, List.drop_replicate] at hover
    exact hover
  exact .cons _ <| .cons _ hfield

def featureImage (compatible : Text) (guid : Option Text) : List UInt8 :=
  match guid with
  | none => compatImage compatible
  | some guid => compatImage compatible ++ regPropImage guid

theorem compatImage_length (compatible : Text) : (compatImage compatible).length = 20 := by
  simp [compatImage, compatField]

theorem regPropImage_length (guid : Text) :
    (regPropImage guid).length = (msos2RegProp guid).len := by
  simp [regPropImage, msos2RegProp]
  omega

theorem featureImage_length (compatible : Text) (guid : Option Text) :
    (featureImage compatible guid).length = (msos2Feature compatible guid).len := by
  cases guid with
  | none => exact compatImage_length compatible
  | some guid =>
    rw [featureImage, List.length_append, compatImage_length, regPropImage_length]
    rfl

theorem msos2Feature_writes (compatible : Text) (guid : Option Text) :
    Writes (msos2Feature compatible guid).stores 0 (featureImage compatible guid) := by
  cases guid with
  | none => exact msos2Compat_writes compatible
  | some guid =>
    refine (msos2Compat_writes compatible).append ?_
    rw [compatImage_length]
    exact (msos2RegProp_writes guid).shift 20

def functionImage (first : UInt8) (entry : OsEntry) : List UInt8 :=
  u16le 8 ++ (u16le 2 ++ ([first] ++ ([0] ++ (u16le (functionSubset first entry).len.toUInt16 ++
    featureImage entry.compatible entry.guid))))

theorem functionImage_length (first : UInt8) (entry : OsEntry) :
    (functionImage first entry).length = (functionSubset first entry).len := by
  simp [functionImage, functionSubset, featureImage_length]
  omega

theorem functionSubset_writes (first : UInt8) (entry : OsEntry) :
    Writes (functionSubset first entry).stores 0 (functionImage first entry) := by
  have hheader : Writes [⟨0, u16le 8⟩, ⟨2, u16le 2⟩, ⟨4, [first]⟩, ⟨5, [0]⟩,
      ⟨6, u16le (functionSubset first entry).len.toUInt16⟩] 0
      (u16le 8 ++ (u16le 2 ++ ([first] ++ ([0] ++
        u16le (functionSubset first entry).len.toUInt16)))) :=
    .cons _ <| .cons _ <| .cons _ <| .cons _ <| .single _ _
  have hall := hheader.append_comm ((msos2Feature_writes entry.compatible entry.guid).shift 8)
  simp only [List.append_assoc] at hall
  exact hall

namespace Described

/-- The function subsets of the groups that have an entry. -/
def functionImages (d : Described) (is : List Nat) : List (List UInt8) :=
  is.filterMap fun i =>
    (d.msosEntryForGroup i).map fun entry => functionImage (d.groupFirstIfnum i) entry

theorem functionSubsets_writes (d : Described) (is : List Nat) : ∀ coff,
    Writes (d.functionSubsets is coff).stores coff (d.functionImages is).flatten ∧
      (d.functionSubsets is coff).len = coff + (d.functionImages is).flatten.length := by
  induction is with
  | nil => exact fun coff => ⟨.nil coff, rfl⟩
  | cons i is ih =>
    intro coff
    rw [functionSubsets, functionImages, List.filterMap_cons]
    cases d.msosEntryForGroup i with
    | none => exact ih coff
    | some entry =>
      obtain ⟨hwrites, hlen⟩ := ih (coff + (functionSubset (d.groupFirstIfnum i) entry).len)
      have hone := (functionSubset_writes (d.groupFirstIfnum i) entry).shift coff
      constructor
      · refine hone.append ?_
        rw [functionImage_length]
        exact hwrites
      · show (d.functionSubsets is _).len = _
        rw [hlen, Option.map_some, List.flatten_cons, List.length_append, functionImage_length,
          Nat.add_assoc]
        rfl

def configurationImage (d : Described) : List UInt8 :=
  u16le 8 ++ (u16le 1 ++ ([0] ++ ([0] ++
    (u16le (d.functionSubsets (List.range d.msosNGroups) 8).len.toUInt16 ++
      (d.functionImages (List.range d.msosNGroups)).flatten))))

/-- The sections behind the header of the descriptor set. -/
def setParts (d : Described) : List (List UInt8) :=
  if d.msosNeedsSubsets then [d.configurationImage]
  else
    match d.msosFlat with
    | none => []
    | some entry =>
      compatImage entry.compatible :: (entry.guid.map regPropImage).toList

def setImage (d : Described) : List UInt8 :=
  u16le 0x000a ++ (u16le 0 ++ (u32le 0x06030000 ++ (u16le d.msos2Set.len.toUInt16 ++
    d.setParts.flatten)))

theorem configurationImage_length (d : Described) :
    d.configurationImage.length = (d.functionSubsets (List.range d.msosNGroups) 8).len := by
  rw [(d.functionSubsets_writes _ 8).2]
  simp only [configurationImage, List.length_append, u16le_length, List.length_singleton]
  omega

theorem configuration_writes (d : Described) :
    Writes ((d.functionSubsets (List.range d.msosNGroups) 8).stores ++ [⟨0, u16le 8⟩, ⟨2, u16le 1⟩,
      ⟨4, [0]⟩, ⟨5, [0]⟩,
      ⟨6, u16le (d.functionSubsets (List.range d.msosNGroups) 8).len.toUInt16⟩]) 0
      d.configurationImage := by
  have hheader : Writes [⟨0, u16le 8⟩, ⟨2, u16le 1⟩, ⟨4, [0]⟩, ⟨5, [0]⟩,
      ⟨6, u16le (d.functionSubsets (List.range d.msosNGroups) 8).len.toUInt16⟩] 0
      (u16le 8 ++ (u16le 1 ++ ([0] ++ ([0] ++
        u16le (d.functionSubsets (List.range d.msosNGroups) 8).len.toUInt16)))) :=
    .cons _ <| .cons _ <| .cons _ <| .cons _ <| .single _ _
  have hall := hheader.append_comm (d.functionSubsets_writes (List.range d.msosNGroups) 8).1
  simp only [List.append_assoc] at hall
  exact hall

/-- What `msos2_set` writes behind the header. -/
theorem msos2Set_body (d : Described) : ∃ body : Built,
    d.msos2Set = ⟨body.stores.map (Store.shift 10) ++ [⟨0, u16le 0x000a⟩, ⟨2, u16le 0⟩,
      ⟨4, u32le 0x06030000⟩, ⟨8, u16le (10 + body.len).toUInt16⟩], 10 + body.len⟩ ∧
    Writes body.stores 0 d.setParts.flatten ∧ body.len = d.setParts.flatten.length := by
  refine ⟨_, rfl, ?_⟩
  rw [setParts]
  split
  · rw [List.flatten_singleton, configurationImage_length]
    exact ⟨d.configuration_writes, rfl⟩
  · cases d.msosFlat with
    | none => exact ⟨.nil 0, rfl⟩
    | some entry =>
      have hflat : (compatImage entry.compatible :: (entry.guid.map regPropImage).toList).flatten =
          featureImage entry.compatible entry.guid := by
        cases entry.guid <;> simp [featureImage]
      dsimp only
      rw [hflat, featureImage_length]
      exact ⟨msos2Feature_writes _ _, rfl⟩

theorem msos2Set_writes (d : Described) :
    Writes d.msos2Set.stores 0 d.setImage ∧ d.msos2Set.len = d.setImage.length := by
  obtain ⟨body, hset, hwrites, hlen⟩ := d.msos2Set_body
  have hheader : Writes [⟨0, u16le 0x000a⟩, ⟨2, u16le 0⟩, ⟨4, u32le 0x06030000⟩,
      ⟨8, u16le (10 + body.len).toUInt16⟩] 0
      (u16le 0x000a ++ (u16le 0 ++ (u32le 0x06030000 ++ u16le (10 + body.len).toUInt16))) :=
    .cons _ <| .cons _ <| .cons _ <| .single _ _
  have hall := hheader.append_comm (hwrites.shift 10)
  simp only [List.append_assoc] at hall
  rw [setImage, hset]
  refine ⟨hall, ?_⟩
  simp only [List.length_append, u16le_length, u32le_length, hlen]
  omega

end Described

/-! ### Sections -/

section Fields

variable (rest : List UInt8)

theorem compatImage_fields (compatible : Text) :
    le16At (compatImage compatible ++ rest) 0 = 20 ∧ os2Type (compatImage compatible ++ rest) = 3 := by
  simp only [compatImage, List.append_assoc]
  exact ⟨le16At_zero (by decide) _, le16At_append (u16le 0x14) rfl (by decide) _⟩

theorem regPropImage_fields {guid : Text} (h : (msos2RegProp guid).len < 2 ^ 16) :
    le16At (regPropImage guid ++ rest) 0 = (msos2RegProp guid).len ∧
    os2Type (regPropImage guid ++ rest) = 4 ∧
    le16At (regPropImage guid ++ rest) 6 = utf16Bytes deviceInterfaceGuids 1 ∧
    le16At (regPropImage guid ++ rest) 50 = utf16Bytes guid.val 2 := by
  have hdlen : utf16Bytes guid.val 2 < 2 ^ 16 := Nat.lt_of_le_of_lt (Nat.le_add_left _ _) h
  refine ⟨?_, ?_, ?_, ?_⟩ <;> simp only [regPropImage, List.append_assoc]
  · exact le16At_zero h _
  · exact le16At_append (u16le _) rfl (by decide) _
  · have hthird := le16At_append (u16le (msos2RegProp guid).len.toUInt16 ++ (u16le 4 ++ u16le 7)) rfl
      (show utf16Bytes deviceInterfaceGuids 1 < 2 ^ 16 by decide)
    simp only [List.append_assoc] at hthird
    exact hthird _
  · have hlast := le16At_append (u16le (msos2RegProp guid).len.toUInt16 ++ (u16le 4 ++ (u16le 7 ++
      (u16le (utf16Bytes deviceInterfaceGuids 1).toUInt16 ++ utf16 deviceInterfaceGuids 1)))) rfl hdlen
    simp only [List.append_assoc] at hlast
    exact hlast _

theorem functionImage_fields (first : UInt8) {entry : OsEntry}
    (h : (functionSubset first entry).len < 2 ^ 16) :
    le16At (functionImage first entry ++ rest) 0 = 8 ∧
    os2Type (functionImage first entry ++ rest) = 2 ∧
    le16At (functionImage first entry ++ rest) 6 = (functionSubset first entry).len := by
  refine ⟨?_, ?_, ?_⟩ <;> simp only [functionImage, List.append_assoc]
  · exact le16At_zero (by decide) _
  · exact le16At_append (u16le _) rfl (by decide) _
  · exact le16At_append (u16le 8 ++ (u16le 2 ++ ([first] ++ [0]))) rfl h _

theorem configurationImage_fields {d : Described} (h : d.configurationImage.length < 2 ^ 16) :
    le16At (d.configurationImage ++ rest) 0 = 8 ∧
    os2Type (d.configurationImage ++ rest) = 1 ∧
    le16At (d.configurationImage ++ rest) 6 = d.configurationImage.length := by
  rw [d.configurationImage_length] at h ⊢
  refine ⟨?_, ?_, ?_⟩ <;> simp only [Described.configurationImage, List.append_assoc]
  · exact le16At_zero (by decide) _
  · exact le16At_append (u16le _) rfl (by decide) _
  · exact le16At_append (u16le 8 ++ (u16le 1 ++ ([0] ++ [0]))) rfl h _

end Fields

/-- A section that has the right lengths and that a reader steps over. -/
theorem compatImage_whole (compatible : Text) :
    FeatureWhole (compatImage compatible) ∧ Measured os2Length (compatImage compatible) := by
  have hlen := compatImage_length compatible
  have hfields := compatImage_fields [] compatible
  rw [List.append_nil] at hfields
  refine ⟨⟨hfields.1.trans hlen.symm, .inl ⟨hfields.2, hlen⟩⟩, fun hnil => ?_, fun rest => ?_⟩
  · rw [hnil] at hlen
    cases hlen
  · obtain ⟨hfirst, htype⟩ := compatImage_fields rest compatible
    rw [os2Length, htype, if_neg (by decide), hfirst, hlen]

theorem regPropImage_whole {guid : Text} (h : (msos2RegProp guid).len < 2 ^ 16) :
    FeatureWhole (regPropImage guid) ∧ Measured os2Length (regPropImage guid) := by
  have hlen := regPropImage_length guid
  obtain ⟨hfirst, htype, hname, hdata⟩ := regPropImage_fields [] h
  rw [List.append_nil] at hfirst htype hname hdata
  refine ⟨⟨hfirst.trans hlen.symm, .inr ⟨htype, ?_⟩⟩, fun hnil => ?_, fun rest => ?_⟩
  · rw [hname, show 8 + utf16Bytes deviceInterfaceGuids 1 = 50 from rfl, hdata, hlen]
    rfl
  · rw [hnil] at hlen
    simp only [List.length_nil, msos2RegProp] at hlen
    omega
  · obtain ⟨hfirst, htype, -⟩ := regPropImage_fields rest h
    rw [os2Length, htype, if_neg (by decide), hfirst, hlen]

/-- The features of an entry, as the parts of a section behind its header. -/
theorem parts_features {entry : OsEntry} (h : (msos2Feature entry.compatible entry.guid).len < 2 ^ 16)
    (header : List UInt8) {n : Nat} (hn : header.length = n) :
    Parts os2Length n (header ++ featureImage entry.compatible entry.guid) FeatureWhole := by
  have hparts : ∀ part ∈ compatImage entry.compatible :: (entry.guid.map regPropImage).toList,
      FeatureWhole part ∧ Measured os2Length part := by
    intro part hpart
    rcases List.mem_cons.mp hpart with rfl | hpart
    · exact compatImage_whole _
    · cases hguid : entry.guid with
      | none =>
        rw [hguid] at hpart
        cases hpart
      | some guid =>
        rw [hguid] at hpart h
        obtain rfl := List.mem_singleton.mp hpart
        exact regPropImage_whole (Nat.lt_of_le_of_lt (Nat.le_add_left _ _) h)
  have hflat : featureImage entry.compatible entry.guid =
      (compatImage entry.compatible :: (entry.guid.map regPropImage).toList).flatten := by
    cases entry.guid <;> simp [featureImage]
  refine ⟨_, ?_, fun part hpart => (hparts part hpart).1⟩
  rw [List.drop_left' hn, hflat]
  exact cut_flatten fun part hpart => (hparts part hpart).2

theorem functionImage_whole (first : UInt8) {entry : OsEntry}
    (h : (functionSubset first entry).len < 2 ^ 16) :
    FunctionWhole (functionImage first entry) ∧ Measured os2Length (functionImage first entry) := by
  have hlen := functionImage_length first entry
  obtain ⟨hfirst, htype, hsubset⟩ := functionImage_fields [] first h
  rw [List.append_nil] at hfirst htype hsubset
  have hfeature : (msos2Feature entry.compatible entry.guid).len < 2 ^ 16 :=
    Nat.lt_of_le_of_lt (Nat.le_add_left _ 8) h
  have hparts := parts_features hfeature (u16le 8 ++ (u16le 2 ++ ([first] ++ ([0] ++
    u16le (functionSubset first entry).len.toUInt16)))) rfl
  simp only [List.append_assoc] at hparts
  refine ⟨⟨hfirst, htype, hsubset.trans hlen.symm, hparts⟩, fun hnil => ?_, fun rest => ?_⟩
  · rw [hnil] at hlen
    simp only [List.length_nil, functionSubset] at hlen
    omega
  · obtain ⟨-, htype, hsubset⟩ := functionImage_fields rest first h
    rw [os2Length, htype, if_pos (.inr rfl), hsubset, hlen]

theorem mem_flatten_length {l : List (List UInt8)} {x : List UInt8} (h : x ∈ l) :
    x.length ≤ l.flatten.length := (List.sublist_flatten_of_mem h).length_le

theorem configurationImage_whole {d : Described} (h : d.configurationImage.length < 2 ^ 16) :
    ConfigurationWhole d.configurationImage ∧ Measured os2Length d.configurationImage := by
  obtain ⟨hfirst, htype, htotal⟩ := configurationImage_fields [] h
  rw [List.append_nil] at hfirst htype htotal
  have hfunctions : ∀ fs ∈ d.functionImages (List.range d.msosNGroups),
      FunctionWhole fs ∧ Measured os2Length fs := by
    intro fs hfs
    have hle := mem_flatten_length hfs
    obtain ⟨i, -, hsome⟩ := List.mem_filterMap.mp hfs
    obtain ⟨entry, -, rfl⟩ := Option.map_eq_some_iff.mp hsome
    refine functionImage_whole _ ?_
    rw [← functionImage_length]
    refine Nat.lt_of_le_of_lt (hle.trans ?_) h
    simp only [Described.configurationImage, List.length_append]
    omega
  refine ⟨⟨hfirst, htype, htotal, _, ?_, fun fs hfs => (hfunctions fs hfs).1⟩,
    fun hnil => ?_, fun rest => ?_⟩
  · exact cut_flatten fun fs hfs => (hfunctions fs hfs).2
  · simp [Described.configurationImage] at hnil
  · obtain ⟨-, htype, htotal⟩ := configurationImage_fields rest h
    rw [os2Length, htype, if_pos (.inl rfl), htotal]

theorem setParts_whole {d : Described} (h : d.setParts.flatten.length < 2 ^ 16) :
    ∀ part ∈ d.setParts, (ConfigurationWhole part ∨ FeatureWhole part) ∧
      Measured os2Length part := by
  intro part hpart
  have hle := mem_flatten_length hpart
  rw [Described.setParts] at hpart
  split at hpart
  · obtain rfl := List.mem_singleton.mp hpart
    obtain ⟨hwhole, hmeasured⟩ := configurationImage_whole (Nat.lt_of_le_of_lt hle h)
    exact ⟨.inl hwhole, hmeasured⟩
  · cases hflat : d.msosFlat with
    | none =>
      rw [hflat] at hpart
      cases hpart
    | some entry =>
      rw [hflat] at hpart
      rcases List.mem_cons.mp hpart with rfl | hpart
      · obtain ⟨hwhole, hmeasured⟩ := compatImage_whole entry.compatible
        exact ⟨.inr hwhole, hmeasured⟩
      · obtain ⟨guid, -, rfl⟩ := Option.mem_map.mp (Option.mem_toList.mp hpart)
        rw [regPropImage_length] at hle
        obtain ⟨hwhole, hmeasured⟩ := regPropImage_whole (Nat.lt_of_le_of_lt hle h)
        exact ⟨.inr hwhole, hmeasured⟩

/-- A descriptor set of less than 64 KiB. -/
theorem setImage_whole {d : Described} (h : d.msos2Set.len < 2 ^ 16) : SetWhole d.setImage := by
  have hlen := d.msos2Set_writes.2
  have hparts : d.setParts.flatten.length < 2 ^ 16 := by
    rw [hlen, Described.setImage] at h
    simp only [List.length_append] at h
    omega
  refine ⟨?_, ?_, ?_, d.setParts, ?_, fun part hpart => (setParts_whole hparts part hpart).1⟩
  · rw [Described.setImage]
    exact le16At_zero (n := 10) (by decide) _
  · rw [Described.setImage]
    exact le16At_append (u16le 0xa) rfl (n := 0) (by decide) _
  · rw [← hlen, Described.setImage]
    exact le16At_append (u16le 0xa ++ (u16le 0 ++ u32le 0x06030000)) rfl h _
  · exact cut_flatten fun part hpart => (setParts_whole hparts part hpart).2

/-! ### Extended properties -/

theorem propertyImage_length (guid : Text) :
    (propertyImage guid).length = (msos1Extprops (some guid)).len - 10 := by
  simp [propertyImage, msos1Extprops]
  omega

theorem propertyImage_fields {guid : Text} (h : (msos1Extprops (some guid)).len < 2 ^ 32)
    (rest : List UInt8) :
    le32At (propertyImage guid ++ rest) 0 = (propertyImage guid).length ∧
    le16At (propertyImage guid ++ rest) 8 = utf16Bytes deviceInterfaceGuid 1 ∧
    le32At (propertyImage guid ++ rest) 50 = utf16Bytes guid.val 1 := by
  have hdlen : utf16Bytes guid.val 1 < 2 ^ 32 := by
    simp only [msos1Extprops] at h
    omega
  rw [propertyImage_length]
  refine ⟨?_, ?_, ?_⟩ <;> simp only [propertyImage, List.append_assoc]
  · exact le32At_zero (by omega) _
  · exact le16At_append (u32le ((msos1Extprops (some guid)).len - 10).toUInt32 ++ u32le 1) rfl
      (show utf16Bytes deviceInterfaceGuid 1 < 2 ^ 16 by decide) _
  · have hlast := le32At_append (u32le ((msos1Extprops (some guid)).len - 10).toUInt32 ++ (u32le 1 ++
      (u16le (utf16Bytes deviceInterfaceGuid 1).toUInt16 ++ utf16 deviceInterfaceGuid 1))) rfl hdlen
    simp only [List.append_assoc] at hlast
    exact hlast _

theorem msos1Extprops_whole {guid : Option Text} (h : (msos1Extprops guid).len < 2 ^ 32)
    (c : Nat → UInt8) : ExtpropsWhole ((msos1Extprops guid).reply c) := by
  cases guid with
  | none =>
    rw [Built.reply_eq msos1Extprops_none_writes rfl]
    exact ⟨rfl, [], rfl, rfl, fun _ hpart => nomatch hpart⟩
  | some guid =>
    have hsect := propertyImage_length guid
    have hten : 10 ≤ (msos1Extprops (some guid)).len := Nat.le_add_right _ _
    have hlen : (msos1Extprops (some guid)).len =
        (extpropsImage (msos1Extprops (some guid)).len 1 (propertyImage guid)).length := by
      simp only [extpropsImage, List.length_append, u16le_length, u32le_length, hsect]
      omega
    have hmeasured : Measured (le32At · 0) (propertyImage guid) := by
      refine ⟨fun hnil => ?_, fun rest => (propertyImage_fields h rest).1⟩
      simp [propertyImage, u32le] at hnil
    rw [Built.reply_eq (msos1Extprops_some_writes guid) hlen]
    refine ⟨?_, [propertyImage guid], ?_, ?_, ?_⟩
    · rw [← hlen]
      exact le32At_zero h _
    · have hcut := cut_flatten (List.forall_mem_singleton.mpr hmeasured)
      rw [List.flatten_singleton] at hcut
      exact hcut
    · exact (le16At_append (u32le _ ++ (u16le 0x0100 ++ u16le 5)) rfl (n := 1) (by decide) _).symm
    · intro part hpart
      obtain rfl := List.mem_singleton.mp hpart
      obtain ⟨hfirst, hname, hdata⟩ := propertyImage_fields h []
      rw [List.append_nil] at hfirst hname hdata
      refine ⟨hfirst, ?_⟩
      have htotal : (msos1Extprops (some guid)).len = 10 + (50 + 4 + utf16Bytes guid.val 1) := rfl
      rw [hname, show 10 + utf16Bytes deviceInterfaceGuid 1 = 50 from rfl, hdata, hsect, htotal,
        Nat.add_sub_cancel_left]

/-! ### The BOS descriptor -/

namespace Described

variable (d : Described)

def webusbCapImage : List UInt8 :=
  [24] ++ ([0x10] ++ ([5] ++ ([0] ++ (webusbUuid ++ (u16le 0x0100 ++
    ([d.webusbVendor] ++ [if d.webusbUrl.val = [] then 0 else 1]))))))

def msos2CapImage : List UInt8 :=
  [28] ++ ([0x10] ++ ([5] ++ ([0] ++ (msos20Uuid ++ (u32le 0x06030000 ++
    (u16le d.msos2SetSize.toUInt16 ++ ([d.dev.msos2Vendor] ++ [0])))))))

def bosCaps : List (List UInt8) :=
  (if d.dev.webusb then [d.webusbCapImage] else []) ++
    if d.msos.length ≠ 0 then [d.msos2CapImage] else []

theorem webusbCap_writes : Writes d.webusbCap 0 d.webusbCapImage :=
  .cons _ <| .cons _ <| .cons _ <| .cons _ <| .cons _ <| .cons _ <| .cons _ <| .single _ _

theorem msos2Cap_writes : Writes d.msos2Cap 0 d.msos2CapImage :=
  .cons _ <| .cons _ <| .cons _ <| .cons _ <| .cons _ <| .cons _ <| .cons _ <| .cons _ <|
    .single _ _

def bosImage : List UInt8 :=
  [5] ++ ([0x0f] ++ (u16le d.buildBosDesc.len.toUInt16 ++
    ([(if d.dev.webusb then 1 else 0) + if d.msos.length ≠ 0 then 1 else 0] ++
      d.bosCaps.flatten)))

theorem buildBosDesc_writes :
    Writes d.buildBosDesc.stores 0 d.bosImage ∧ d.buildBosDesc.len = d.bosImage.length := by
  have hheader : Writes [⟨0, [5]⟩, ⟨1, [0x0f]⟩, ⟨2, u16le d.buildBosDesc.len.toUInt16⟩,
      ⟨4, [(if d.dev.webusb then 1 else 0) + if d.msos.length ≠ 0 then 1 else 0]⟩] 0
      ([5] ++ ([0x0f] ++ (u16le d.buildBosDesc.len.toUInt16 ++
        [(if d.dev.webusb then 1 else 0) + if d.msos.length ≠ 0 then 1 else 0]))) :=
    .cons _ <| .cons _ <| .cons _ <| .single _ _
  have hwebusb : Writes (if d.dev.webusb then ⟨d.webusbCap, 24⟩ else ⟨[], 0⟩ : Built).stores 0
      (if d.dev.webusb then [d.webusbCapImage] else []).flatten ∧
      (if d.dev.webusb then ⟨d.webusbCap, 24⟩ else ⟨[], 0⟩ : Built).len =
        (if d.dev.webusb then [d.webusbCapImage] else []).flatten.length := by
    split
    · rw [List.flatten_singleton]
      exact ⟨d.webusbCap_writes, rfl⟩
    · exact ⟨.nil 0, rfl⟩
  have hmsos : Writes (if d.msos.length ≠ 0 then ⟨d.msos2Cap, 28⟩ else ⟨[], 0⟩ : Built).stores 0
      (if d.msos.length ≠ 0 then [d.msos2CapImage] else []).flatten ∧
      (if d.msos.length ≠ 0 then ⟨d.msos2Cap, 28⟩ else ⟨[], 0⟩ : Built).len =
        (if d.msos.length ≠ 0 then [d.msos2CapImage] else []).flatten.length := by
    split
    · rw [List.flatten_singleton]
      exact ⟨d.msos2Cap_writes, rfl⟩
    · exact ⟨.nil 0, rfl⟩
  have hbehind := hmsos.1.shift
    (5 + (if d.dev.webusb then [d.webusbCapImage] else []).flatten.length)
  rw [← hwebusb.2] at hbehind
  have hcaps := (hwebusb.1.shift 5).append (by rw [← hwebusb.2]; exact hbehind)
  rw [← List.flatten_append] at hcaps
  have hall := hheader.append_comm hcaps
  refine ⟨by simpa only [buildBosDesc, bosImage, bosCaps, List.append_assoc] using hall, ?_⟩
  have hlen : d.buildBosDesc.len =
      5 + (if d.dev.webusb then ⟨d.webusbCap, 24⟩ else ⟨[], 0⟩ : Built).len +
        (if d.msos.length ≠ 0 then ⟨d.msos2Cap, 28⟩ else ⟨[], 0⟩ : Built).len := rfl
  rw [hlen, hwebusb.2, hmsos.2, bosImage, bosCaps, List.flatten_append]
  simp only [List.length_append, List.length_singleton, u16le_length]
  omega

theorem bosCaps_measured :
    ∀ cap ∈ d.bosCaps, Measured (fun cap => (cap.headD 0).toNat) cap := by
  intro cap hcap
  rcases List.mem_append.mp hcap with hcap | hcap <;> split at hcap
  · obtain rfl := List.mem_singleton.mp hcap
    exact ⟨by simp [webusbCapImage], fun _ => rfl⟩
  · cases hcap
  · obtain rfl := List.mem_singleton.mp hcap
    exact ⟨by simp [msos2CapImage], fun _ => rfl⟩
  · cases hcap

theorem msos2SetSize_toUInt16 : d.msos2SetSize.toUInt16 = d.msos2SetBytes.toUInt16 := by
  rw [msos2SetSize_eq]
  exact UInt32.toUInt16_ofNat' _

theorem buildBosDesc_advertises (h : d.msos2SetBytes < 2 ^ 16) (c : Nat → UInt8) :
    BosAdvertises (d.buildBosDesc.reply c) (d.msos ≠ []) d.msos2SetBytes := by
  obtain ⟨hwrites, hlen⟩ := d.buildBosDesc_writes
  have hsmall : d.buildBosDesc.len < 2 ^ 16 :=
    Nat.lt_of_le_of_lt (buildBosDesc_len_le d) (by decide)
  have huuid : bytesAt d.webusbCapImage 4 16 ≠ msos20Uuid := by
    show webusbUuid ≠ msos20Uuid
    decide
  rw [Built.reply_eq hwrites hlen]
  refine ⟨?_, d.bosCaps, cut_flatten d.bosCaps_measured, ?_, ?_⟩
  · rw [← hlen]
    exact le16At_append ([5] ++ [0x0f]) rfl hsmall _
  · constructor
    · intro hne
      refine ⟨d.msos2CapImage, ?_, rfl⟩
      have hlength : d.msos.length ≠ 0 := fun hzero => hne (List.length_eq_zero_iff.mp hzero)
      rw [bosCaps, if_pos hlength]
      exact List.mem_append_right _ (List.mem_singleton_self _)
    · rintro ⟨cap, hcap, hcapUuid⟩ hnil
      rw [bosCaps, hnil, if_neg (show ¬([] : List OsEntry).length ≠ 0 from fun h => h rfl),
        List.append_nil] at hcap
      split at hcap
      · obtain rfl := List.mem_singleton.mp hcap
        exact huuid hcapUuid
      · cases hcap
  · intro cap hcap hcapUuid
    rcases List.mem_append.mp hcap with hcap | hcap <;> split at hcap
    · obtain rfl := List.mem_singleton.mp hcap
      exact absurd hcapUuid huuid
    · cases hcap
    · obtain rfl := List.mem_singleton.mp hcap
      rw [msos2CapImage, msos2SetSize_toUInt16]
      exact le16At_append ([28] ++ ([0x10] ++ ([5] ++ ([0] ++ (msos20Uuid ++ u32le 0x06030000)))))
        rfl h _
    · cases hcap

end Described

/-- The size functions give the number of bytes that the builders write; a descriptor set that is
served, and the extended properties, are divided exactly by the lengths in them, and the BOS
descriptor advertises the length of the set. -/
structure Described.Partitioned (d : Described) (guid : Option Text) (c : Nat → UInt8) : Prop where
  set_size : d.msos2Set.Exact ∧ int32 d.msos2SetSize = d.msos2Set.len
  set : int32 d.msos2SetSize ≤ scratchLen → SetWhole (d.msos2Set.reply c) ∧
    BosAdvertises (d.buildBosDesc.reply c) (d.msos ≠ []) (d.msos2Set.reply c).length
  extprops_size : (msos1Extprops guid).Exact ∧
    int32 (msos1ExtpropsSize guid) = (msos1Extprops guid).len
  extprops : ExtpropsWhole ((msos1Extprops guid).reply c)

theorem msos2SetSize_iff (d : Described) :
    int32 d.msos2SetSize = d.msos2Set.len ↔ d.msos2SetBytes < 2 ^ 31 := by
  rw [msos2SetSize_eq, msos2Set_len]
  exact int32_toUInt32_iff _

theorem msos1ExtpropsSize_iff (guid : Option Text) :
    int32 (msos1ExtpropsSize guid) = (msos1Extprops guid).len ↔ msos1ExtpropsBytes guid < 2 ^ 31 := by
  rw [msos1ExtpropsSize_eq, msos1Extprops_len]
  exact int32_toUInt32_iff _

/-- A descriptor set that the scratch buffer holds, and what the BOS descriptor says of it. -/
theorem msos2Set_served {d : Described} (h : d.msos2SetBytes ≤ scratchLen) (c : Nat → UInt8) :
    SetWhole (d.msos2Set.reply c) ∧
      BosAdvertises (d.buildBosDesc.reply c) (d.msos ≠ []) (d.msos2Set.reply c).length := by
  have hsmall : d.msos2SetBytes < 2 ^ 16 := Nat.lt_of_le_of_lt h (by decide)
  have hlen : (d.msos2Set.reply c).length = d.msos2SetBytes := by
    rw [Built.reply, readout, List.length_map, List.length_range, msos2Set_len]
  rw [hlen]
  obtain ⟨hwrites, himage⟩ := d.msos2Set_writes
  refine ⟨?_, d.buildBosDesc_advertises hsmall c⟩
  rw [Built.reply_eq hwrites himage]
  exact setImage_whole ((msos2Set_len d).trans_lt hsmall)

/-- The lengths of the Microsoft OS descriptors agree exactly when an `int` holds the sizes. -/
theorem msos_lengths_partition (d : Described) (guid : Option Text) (c : Nat → UInt8) :
    d.Partitioned guid c ↔ d.msos2SetBytes < 2 ^ 31 ∧ msos1ExtpropsBytes guid < 2 ^ 31 := by
  constructor
  · exact fun h => ⟨(msos2SetSize_iff d).mp h.set_size.2,
      (msos1ExtpropsSize_iff guid).mp h.extprops_size.2⟩
  · rintro ⟨hset, hext⟩
    have hsize := (msos2SetSize_iff d).mpr hset
    refine
      { set_size := ⟨msos2Set_exact d, hsize⟩
        set := fun hserved => msos2Set_served ?_ c
        extprops_size := ⟨msos1Extprops_exact guid, (msos1ExtpropsSize_iff guid).mpr hext⟩
        extprops :=
          msos1Extprops_whole ((msos1Extprops_len guid).trans_lt (hext.trans (by decide))) c }
    rw [hsize, msos2Set_len] at hserved
    exact Int.ofNat_le.mp hserved

/-- A composite of two functions: one with an entry of its own, one under the device-wide entry. -/
def twoFunctions : Described :=
  let dev := Device.create ⟨0, 0, 0, 0, 0, 0, 0, 0, 0⟩
  { dev := { dev with groups := [⟨0, 2, 0⟩, ⟨2, 1, 0⟩], msos1Vendor := 0x20, msos2Vendor := 0x21 }
    strings := []
    msos := [⟨-1, ⟨[0x57, 0x49, 0x4e, 0x55, 0x53, 0x42], by decide⟩, none⟩,
      ⟨1, ⟨[0x4d, 0x54, 0x50], by decide⟩, some ⟨[0x7b, 0x7d], by decide⟩⟩]
    webusbVendor := 0
    webusbUrl := ⟨[0x2f], by decide⟩
    config := 0
    halted _ := false }

theorem msos_lengths_partition_twoFunctions :
    twoFunctions.Partitioned (some ⟨[0x7b, 0x7d], by decide⟩) fun _ => 0 :=
  (msos_lengths_partition twoFunctions _ _).mpr (by decide)

/-- A GUID of `n` characters. -/
def longGuid (n : Nat) : Text :=
  ⟨List.replicate n 0x61, fun h => by cases List.eq_of_mem_replicate h⟩

theorem msos1ExtpropsBytes_longGuid (n : Nat) :
    msos1ExtpropsBytes (some (longGuid n)) = 66 + 2 * n := by
  have hlen : (longGuid n).val.length = n := List.length_replicate
  rw [msos1ExtpropsBytes, utf16Bytes, utf16Bytes, hlen, deviceInterfaceGuid]
  simp only [List.length_cons, List.length_nil]
  omega

/-- With a GUID of a gibibyte the size of the extended properties wraps below 0, and passes for one
that the scratch buffer holds. -/
theorem msos_lengths_fail :
    int32 (msos1ExtpropsSize (some (longGuid (2 ^ 30)))) ≤ scratchLen ∧
    ¬ ∀ (d : Described) (guid : Option Text) (c : Nat → UInt8), d.Partitioned guid c := by
  constructor
  · rw [msos1ExtpropsSize_eq, msos1ExtpropsBytes_longGuid]
    decide
  · intro h
    have hsize := (h twoFunctions (some (longGuid (2 ^ 30))) fun _ => 0).extprops_size.2
    have hlt := (msos1ExtpropsSize_iff _).mp hsize
    rw [msos1ExtpropsBytes_longGuid] at hlt
    exact absurd hlt (by decide)

end Usbip.Control
