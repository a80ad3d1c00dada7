import Mathlib.Data.List.GetD
import Usbip.Listen.Devlist

/-! A list of devices in which some count is wrong. The client then reads a record where none
starts, and what it reads cannot be the record of the device that is due. -/

namespace Usbip.Listen

open Lib

theorem byteAt_drop (s : List UInt8) (k i : Nat) : byteAt (s.drop k) i = byteAt s (k + i) := by
  simp [byteAt]

theorem byteAt_append_left {s : List UInt8} (t : List UInt8) {i : Nat} (h : i < s.length) :
    byteAt (s ++ t) i = byteAt s i := List.getD_append _ _ _ _ h

theorem byteAt_append_right {s : List UInt8} (t : List UInt8) {i : Nat} (h : s.length ≤ i) :
    byteAt (s ++ t) i = byteAt t (i - s.length) := List.getD_append_right _ _ _ _ h

theorem byteAt_take {s : List UInt8} {k i : Nat} (h : i < k) : byteAt (s.take k) i = byteAt s i := by
  simp [byteAt, h]

theorem byteAt_of_length_le {s : List UInt8} {i : Nat} (h : s.length ≤ i) : byteAt s i = 0 :=
  List.getD_eq_default _ _ h

theorem byteAt_takeD {s : List UInt8} {n : Nat} (h : s.length ≤ n) (i : Nat) :
    byteAt (s.takeD n 0) i = byteAt s i := by
  rw [takeD_of_length_le 0 h]
  by_cases hi : i < s.length
  · exact byteAt_append_left _ hi
  · rw [byteAt_append_right _ (Nat.le_of_not_lt hi), byteAt_of_length_le (Nat.le_of_not_lt hi),
      byteAt, List.getD_eq_getElem?_getD, List.getElem?_getD_replicate_default_eq]

theorem getBe32_inj {s t : List UInt8} (hs : 4 ≤ s.length) (ht : 4 ≤ t.length)
    (h : getBe32 s = getBe32 t) {i : Nat} (hi : i < 4) : byteAt s i = byteAt t i := by
  match s, t with
  | a :: b :: c :: d :: _, a' :: b' :: c' :: d' :: _ =>
    have hnat := congrArg UInt32.toNat h
    have := a.toNat_lt
    have := b.toNat_lt
    have := c.toNat_lt
    have := d.toNat_lt
    have := a'.toNat_lt
    have := b'.toNat_lt
    have := c'.toNat_lt
    have := d'.toNat_lt
    simp only [getBe32, UInt32.toNat_ofNat'] at hnat
    have ha : a = a' := UInt8.toNat_inj.mp (by omega)
    have hb : b = b' := UInt8.toNat_inj.mp (by omega)
    have hc : c = c' := UInt8.toNat_inj.mp (by omega)
    have hd : d = d' := UInt8.toNat_inj.mp (by omega)
    subst ha hb hc hd
    have hcases : i = 0 ∨ i = 1 ∨ i = 2 ∨ i = 3 := by omega
    rcases hcases with rfl | rfl | rfl | rfl <;> rfl

namespace Listed

variable (l : Listed)

theorem byteAt_pack_busid {j : Nat} (h : j < 32) :
    byteAt l.pack (256 + j) = byteAt l.wireBusid j := by
  have hlen := l.wireBusid_length
  rw [← byteAt_drop, drop_pack_busid, byteAt_append_left _ (by rw [List.takeD_length]; exact h),
    byteAt_takeD (by omega)]

theorem busid_ne_zero : byteAt l.pack 256 ≠ 0 := by
  rw [show (256 : Nat) = 256 + 0 from rfl, byteAt_pack_busid l (by decide), wireBusid]
  split
  · decide
  · rename_i hne
    obtain ⟨b, bs, heq⟩ := List.exists_cons_of_ne_nil hne
    rw [heq]
    exact l.busid.nonzero b (heq ▸ List.mem_cons_self)

theorem byteAt_path {j : Nat} (h : j < 256) :
    byteAt l.pack j = byteAt (ascii "/sys/devices/platform/vhci_hcd.0/usb1/" ++ l.wireBusid) j := by
  have hlen := l.wireBusid_length
  have hpre : (ascii "/sys/devices/platform/vhci_hcd.0/usb1/").length = 38 := by decide
  have hall : (ascii "/sys/devices/platform/vhci_hcd.0/usb1/" ++ l.wireBusid).length ≤ 69 := by
    rw [List.length_append, hpre]
    omega
  rw [pack_eq, byteAt_append_left _ (by rw [path_length]; exact h), path,
    List.take_of_length_le (by omega), byteAt_takeD (by omega)]

/-- The fixed part of the path has no byte 1. -/
theorem path_fixed {j : Nat} (h : j < 38) : byteAt l.pack j ≠ 1 := by
  have hpre : (ascii "/sys/devices/platform/vhci_hcd.0/usb1/").length = 38 := by decide
  rw [byteAt_path l (by omega), byteAt_append_left _ (by rw [hpre]; exact h)]
  revert j
  decide

theorem path_busid {j : Nat} (h : j < 32) : byteAt l.pack (38 + j) = byteAt l.pack (256 + j) := by
  have hpre : (ascii "/sys/devices/platform/vhci_hcd.0/usb1/").length = 38 := by decide
  rw [byteAt_path l (by omega), byteAt_pack_busid l h, byteAt_append_right _ (by omega), hpre,
    Nat.add_sub_cancel_left]

theorem path_zero {j : Nat} (h : 69 ≤ j) (hj : j < 256) : byteAt l.pack j = 0 := by
  have hlen := l.wireBusid_length
  have hpre : (ascii "/sys/devices/platform/vhci_hcd.0/usb1/").length = 38 := by decide
  rw [byteAt_path l hj, byteAt_append_right _ (by omega), byteAt_of_length_le (by omega)]

theorem wireBusnum_eq : l.wireBusnum = 1 := by
  rw [wireBusnum]
  rcases l.busnum_one with h | h <;> rw [h] <;> rfl

theorem busnum_bytes : byteAt l.pack 288 = 0 ∧ byteAt l.pack 291 = 1 := by
  rw [show (288 : Nat) = 288 + 0 from rfl, show (291 : Nat) = 288 + 3 from rfl,
    byteAt_pack_tail, byteAt_pack_tail, tail, wireBusnum_eq]
  exact ⟨rfl, rfl⟩

theorem wireSpeed_mem : l.wireSpeed ∈ [1, 2, 3, 5] := by
  rw [wireSpeed]
  split
  · rename_i h
    match l.speed, h with
    | 0, _ | 1, _ | 2, _ | 3, _ => simp
  · simp

theorem speed_bytes : byteAt l.pack 296 = 0 ∧ byteAt l.pack 297 = 0 := by
  rw [show (296 : Nat) = 288 + 8 from rfl, show (297 : Nat) = 288 + 9 from rfl,
    byteAt_pack_tail, byteAt_pack_tail]
  have hspeed := l.wireSpeed_mem
  have h8 : byteAt l.tail 8 = (l.wireSpeed >>> 24).toUInt8 := rfl
  have h9 : byteAt l.tail 9 = (l.wireSpeed >>> 16).toUInt8 := rfl
  rw [h8, h9]
  generalize l.wireSpeed = v at hspeed
  simp only [List.mem_cons, List.not_mem_nil, or_false] at hspeed
  rcases hspeed with rfl | rfl | rfl | rfl <;> decide

theorem cfgValue_byte : byteAt l.pack 309 = 1 := by
  rw [show (309 : Nat) = 288 + 21 from rfl, byteAt_pack_tail]
  rfl

/-- A record of `l` in front of what the client reads, as far as the client looks at it. -/
structure Looks (l : Listed) (s : List UInt8) : Prop where
  length : 312 ≤ s.length
  busid : ∀ {j}, j < 31 → byteAt s (256 + j) = byteAt l.pack (256 + j)
  busnum : byteAt s 291 = byteAt l.pack 291
  speed : byteAt s 297 = byteAt l.pack 297

variable {l}

theorem looks_of_parse {s : List UInt8} (hs : 312 ≤ s.length)
    (h : parseDevinfo (s.take 312) = l.infoWith []) : l.Looks s := by
  rw [← parse_pack] at h
  simp only [parseDevinfo, DevInfo.mk.injEq] at h
  obtain ⟨hbusid, hbusnum, -, hspeed, -⟩ := h
  have hlen : (s.take 312).length = 312 := List.length_take_of_le hs
  have hpack : l.pack.length = 312 := l.pack_length
  have hbyte : ∀ {k i}, k + i < 312 → byteAt ((s.take 312).drop k) i = byteAt s (k + i) :=
    fun hi => by rw [byteAt_drop, byteAt_take hi]
  have hword : ∀ {k}, getBe32 ((s.take 312).drop k) = getBe32 (l.pack.drop k) → k + 4 ≤ 312 →
      ∀ {i}, i < 4 → byteAt s (k + i) = byteAt l.pack (k + i) := by
    intro k hk hle i hi
    have := getBe32_inj (by rw [List.length_drop]; omega) (by rw [List.length_drop]; omega) hk hi
    rwa [hbyte (by omega), byteAt_drop] at this
  refine ⟨hs, fun {j} hj => ?_, ?_, ?_⟩
  · have := congrArg (byteAt · j) ((List.append_left_inj _).mp hbusid)
    simp only [byteAt_take hj] at this
    rwa [hbyte (by omega), byteAt_drop] at this
  · exact hword (k := 288) hbusnum (by decide) (i := 3) (by decide)
  · exact hword (k := 296) hspeed (by decide) (i := 1) (by decide)

/-- Nothing that ends early looks like the record when the bytes before it are interfaces. -/
theorem not_looks_early {s : List UInt8} {d : Nat} (hd : 0 < d) (h : l.Looks s)
    (hpack : ∀ {j}, 4 * d ≤ j → j < 312 → byteAt s j = byteAt l.pack (j - 4 * d))
    (hle : 4 * d ≤ 291) : False := by
  have hmark := h.busnum
  rw [l.busnum_bytes.2, hpack hle (by decide)] at hmark
  have hfirst := h.busid (j := 0) (by decide)
  by_cases h184 : 4 * d ≤ 184
  · -- the busid would be zeros at the end of the path
    rw [hpack (by omega) (by decide), l.path_zero (by omega) (by omega)] at hfirst
    exact l.busid_ne_zero hfirst.symm
  · by_cases h220 : 4 * d ≤ 220
    · -- the bus number would be zeros at the end of the path
      rw [l.path_zero (by omega) (by omega)] at hmark
      exact absurd hmark (by decide)
    · by_cases h252 : 4 * d ≤ 252
      · -- the busid would be a piece of the path, and have no byte 1
        have hchars : ∀ j, j < 31 → byteAt l.pack (256 + j) ≠ 1 := by
          intro j
          induction j using Nat.strongRecOn with
          | _ j ih =>
            intro hj
            rw [← h.busid hj, hpack (by omega) (by omega)]
            by_cases hfixed : 256 + j - 4 * d < 38
            · exact l.path_fixed hfixed
            · rw [show 256 + j - 4 * d = 38 + (j + 218 - 4 * d) by omega, l.path_busid (by omega)]
              exact ih _ (by omega) (by omega)
        rw [show 291 - 4 * d = 38 + (253 - 4 * d) by omega, l.path_busid (by omega)] at hmark
        exact hchars _ (by omega) hmark
      · exact l.path_fixed (by omega) hmark

/-- Nothing that starts late looks like the record. -/
theorem not_looks_late {s : List UInt8} {d : Nat} (hd : 0 < d) (h : l.Looks s)
    (hpack : ∀ {j}, 4 * d + j < 312 → byteAt s j = byteAt l.pack (4 * d + j)) (hle : 4 * d ≤ 20) :
    False := by
  have hshift : ∀ j, j < 31 → byteAt l.pack (256 + j) = byteAt l.pack (256 + (4 * d + j)) :=
    fun j hj => by rw [← h.busid hj, hpack (by omega)]; congr 1; omega
  have hzero : ∀ k, k = 288 ∨ k = 296 → byteAt l.pack k ≠ byteAt l.pack 256 := by
    rintro k (rfl | rfl) heq
    · exact l.busid_ne_zero (heq ▸ l.busnum_bytes.1)
    · exact l.busid_ne_zero (heq ▸ l.speed_bytes.1)
  have hcases : d = 1 ∨ d = 2 ∨ d = 3 ∨ d = 4 ∨ d = 5 := by omega
  rcases hcases with rfl | rfl | rfl | rfl | rfl
  · refine hzero 288 (.inl rfl) ?_
    rw [hshift 0 (by decide), hshift 4 (by decide), hshift 8 (by decide), hshift 12 (by decide),
      hshift 16 (by decide), hshift 20 (by decide), hshift 24 (by decide), hshift 28 (by decide)]
  · refine hzero 288 (.inl rfl) ?_
    rw [hshift 0 (by decide), hshift 8 (by decide), hshift 16 (by decide), hshift 24 (by decide)]
  · -- the speed would be the bytes from the protocol on
    have := h.speed
    rw [hpack (by decide), l.speed_bytes.2] at this
    exact absurd (l.cfgValue_byte.symm.trans this) (by decide)
  · refine hzero 288 (.inl rfl) ?_
    rw [hshift 0 (by decide), hshift 16 (by decide)]
  · refine hzero 296 (.inr rfl) ?_
    rw [hshift 0 (by decide), hshift 20 (by decide)]

end Listed

open Listed

/-- A record without what is read after it. -/
def DevInfo.blank (info : DevInfo) : DevInfo :=
  { info with
    iclass := List.replicate ifaceCap 0
    isub := List.replicate ifaceCap 0
    iproto := List.replicate ifaceCap 0 }

theorem readIfaces_eq_some {n j : Nat} {info info' : DevInfo} {s s' : List UInt8}
    (h : readIfaces n j info s = some (info', s')) :
    4 * n ≤ s.length ∧ s' = s.drop (4 * n) ∧ info'.blank = info.blank := by
  induction n generalizing j info s with
  | zero =>
    cases h
    exact ⟨Nat.zero_le _, rfl, rfl⟩
  | succ n ih =>
    obtain ⟨⟨ie, s1⟩, hie, hrest⟩ := Option.bind_eq_some_iff.mp h
    obtain ⟨rfl, hlen⟩ := readn_eq_some hie
    have hlen : ie.length = 4 := hlen
    obtain ⟨hle, rfl, hblank⟩ := ih hrest
    refine ⟨by rw [List.length_append]; omega, ?_, hblank.trans ?_⟩
    · rw [show 4 * (n + 1) = ie.length + 4 * n by omega, List.drop_length_add_append]
    · split <;> rfl

/-- The bytes that the client takes for one device. -/
def width (s : List UInt8) : Nat := 312 + 4 * (byteAt s 311).toNat

theorem readDev_eq_some {l : Listed} {s s' : List UInt8} (h : readDev s = some (l.info, s')) :
    l.Looks s ∧ width s ≤ s.length ∧ s' = s.drop (width s) := by
  obtain ⟨⟨dev, s1⟩, hdev, hrest⟩ := Option.bind_eq_some_iff.mp h
  obtain ⟨rfl, hlen⟩ := readn_eq_some hdev
  have hlen : dev.length = 312 := hlen
  obtain ⟨hle, rfl, hblank⟩ := readIfaces_eq_some hrest
  have htake : (dev ++ s1).take 312 = dev := List.take_left' hlen
  have hcount : byteAt (dev ++ s1) 311 = byteAt dev 311 := byteAt_append_left _ (by omega)
  have hn : (parseDevinfo dev).nIfaces = byteAt dev 311 := rfl
  rw [hn] at hle ⊢
  have hwidth : width (dev ++ s1) = dev.length + 4 * (byteAt dev 311).toNat := by
    rw [width, hcount, hlen]
  refine ⟨looks_of_parse (by rw [List.length_append]; omega) ?_, ?_, ?_⟩
  · rw [htake]
    exact hblank.symm
  · rw [hwidth, List.length_append]
    omega
  · rw [hwidth, List.drop_length_add_append]

theorem readDevs_isPrefix {max n : Nat} {got out : List DevInfo} {s s' : List UInt8}
    (h : readDevs max n got s = some (out, s')) : got <+: out := by
  induction n generalizing got s with
  | zero =>
    cases h
    exact List.prefix_refl _
  | succ n ih =>
    obtain ⟨⟨info, s1⟩, -, hrest⟩ := Option.bind_eq_some_iff.mp h
    have hpre := ih hrest
    split at hpre
    · exact (List.prefix_append _ _).trans hpre
    · exact hpre

/-- The client finds these devices, one after another, and then the end. -/
def Reads : List Listed → List UInt8 → Prop
  | [], s => s = []
  | l :: ls, s => l.Looks s ∧ width s ≤ s.length ∧ Reads ls (s.drop (width s))

theorem reads_of_readDevs {max : Nat} {ls : List Listed} {got : List DevInfo} {s : List UInt8}
    (hmax : got.length + ls.length ≤ max)
    (h : readDevs max ls.length got s = some (got ++ ls.map info, [])) : Reads ls s := by
  induction ls generalizing got s with
  | nil => exact (congrArg Prod.snd (Option.some.inj h)).trans rfl
  | cons l ls ih =>
    rw [List.length_cons] at hmax
    obtain ⟨⟨info, s1⟩, hdev, hrest⟩ := Option.bind_eq_some_iff.mp h
    dsimp only at hrest
    rw [if_pos (by omega)] at hrest
    -- the first record kept is the one just read
    obtain ⟨more, hmore⟩ := readDevs_isPrefix hrest
    rw [List.append_assoc, List.append_cancel_left_eq, List.map_cons] at hmore
    obtain ⟨rfl, rfl⟩ := List.cons.inj hmore
    obtain ⟨hlooks, hle, rfl⟩ := readDev_eq_some hdev
    refine ⟨hlooks, hle, ih (?_ : (got ++ [l.info]).length + ls.length ≤ max) ?_⟩
    · rw [List.length_append, List.length_singleton]
      omega
    · rw [hrest, List.append_assoc]
      rfl

namespace Listed

variable (l : Listed)

theorem wire_length : l.wire.length = 312 + 4 * l.interfaces.length := by
  have htuples : ∀ ts : List (UInt8 × UInt8 × UInt8), (ts.flatMap tuple).length = 4 * ts.length := by
    intro ts
    induction ts with
    | nil => rfl
    | cons t ts ih =>
      rw [List.flatMap_cons, List.length_append, ih, List.length_cons]
      exact (Nat.mul_succ 4 _).symm ▸ Nat.add_comm _ _
  rw [wire, List.length_append, pack_length, htuples]
  rfl

theorem byteAt_wire {j : Nat} (h : j < 312) : byteAt l.wire j = byteAt l.pack j :=
  byteAt_append_left _ (by rw [pack_length]; exact h)

/-- Every fourth byte of the interfaces is zero. -/
theorem wire_padding {k : Nat} (h : 312 ≤ 4 * k + 3) : byteAt l.wire (4 * k + 3) = 0 := by
  have htuples : ∀ (ts : List (UInt8 × UInt8 × UInt8)) i,
      byteAt (ts.flatMap tuple) (4 * i + 3) = 0 := by
    intro ts
    induction ts with
    | nil => exact fun i => rfl
    | cons t ts ih =>
      intro i
      rw [List.flatMap_cons]
      cases i with
      | zero => rfl
      | succ i =>
        have hlen : (tuple t).length = 4 := rfl
        rw [byteAt_append_right _ (by rw [hlen]; omega), hlen,
          show 4 * (i + 1) + 3 - 4 = 4 * i + 3 by omega]
        exact ih i
  have hpack : l.pack.length = 312 := l.pack_length
  rw [wire, byteAt_append_right _ (by rw [hpack]; exact h), hpack,
    show 4 * k + 3 - 312 = 4 * (k - 78) + 3 by omega]
  exact htuples _ _

theorem width_wire (s : List UInt8) : width (l.wire ++ s) = 312 + 4 * (l.dev.nIfnums % 256) := by
  have hlen := l.wire_length
  rw [width, byteAt_append_left _ (by omega), byteAt_wire l (by decide),
    show (311 : Nat) = 288 + 23 from rfl, byteAt_pack_tail]
  exact congrArg (312 + 4 * ·) UInt8.toNat_ofNat'

end Listed

/-- Where the bytes from `a` on begin: at the end of all devices, or inside what is sent for one. -/
theorem drop_wires (m : Listed) (ms : List Listed) {a : Nat} (ha : 4 ∣ a) :
    ((m :: ms).flatMap wire).drop a = [] ∨
      ∃ m' ms' o, 4 ∣ o ∧ o < m'.wire.length ∧
        ((m :: ms).flatMap wire).drop a = m'.wire.drop o ++ ms'.flatMap wire ∧
        (m' = m ∧ ms' = ms ∧ o = a ∨ ms'.length < ms.length) := by
  induction ms generalizing m a with
  | nil =>
    by_cases h : a < m.wire.length
    · refine .inr ⟨m, [], a, ha, h, ?_, .inl ⟨rfl, rfl, rfl⟩⟩
      rw [List.flatMap_cons, List.drop_append_of_le_length (Nat.le_of_lt h)]
    · refine .inl (List.drop_eq_nil_of_le ?_)
      rw [List.flatMap_singleton]
      omega
  | cons m2 ms ih =>
    by_cases h : a < m.wire.length
    · refine .inr ⟨m, m2 :: ms, a, ha, h, ?_, .inl ⟨rfl, rfl, rfl⟩⟩
      rw [List.flatMap_cons, List.drop_append_of_le_length (Nat.le_of_lt h)]
    · obtain ⟨b, rfl⟩ := Nat.exists_eq_add_of_le (Nat.le_of_not_lt h)
      have hb : 4 ∣ b := by
        have := m.wire_length
        omega
      rw [List.flatMap_cons, List.drop_length_add_append]
      rcases ih m2 hb with hnil | ⟨m', ms', o, ho, hlt, heq, hpos⟩
      · exact .inl hnil
      · refine .inr ⟨m', ms', o, ho, hlt, heq, .inr ?_⟩
        rcases hpos with ⟨-, rfl, -⟩ | hlt
        · exact Nat.lt_succ_self _
        · exact Nat.lt_succ_of_lt hlt

/-- The client cannot find more devices than there are records whose bus number is still ahead. -/
theorem reads_length_le {ls : List Listed} {m : Listed} {ms : List Listed} {o : Nat} (ho : 4 ∣ o)
    (hlt : o < m.wire.length) (h : Reads ls (m.wire.drop o ++ ms.flatMap wire)) :
    ls.length ≤ ms.length + if o ≤ 20 then 1 else 0 := by
  induction ls generalizing m ms o with
  | nil => exact Nat.zero_le _
  | cons l ls ih =>
    obtain ⟨hlooks, hle, hrest⟩ := h
    have hmod := m.wire_length
    generalize hw : width (m.wire.drop o ++ ms.flatMap wire) = w at hle hrest
    have hw312 : 312 ≤ w := hw ▸ Nat.le_add_right _ _
    have hw4 : 4 ∣ w := by rw [← hw, width]; omega
    by_cases hsmall : o ≤ 20
    · -- the record may begin here, and the next one is behind this device
      rw [if_pos hsmall, List.length_cons]
      have hdrop : (m.wire.drop o ++ ms.flatMap wire).drop w =
          ((m :: ms).flatMap wire).drop (o + w) := by
        rw [List.flatMap_cons, ← List.drop_drop,
          List.drop_append_of_le_length (Nat.le_of_lt hlt)]
      rw [hdrop] at hrest
      rcases drop_wires m ms (a := o + w) (by omega) with hnil | ⟨m', ms', o', ho', hlt', heq, hpos⟩
      · rw [hnil] at hrest
        cases ls with
        | nil => exact Nat.succ_le_succ (Nat.zero_le _)
        | cons l' ls => exact absurd hrest.1.length (by decide)
      · rw [heq] at hrest
        have := ih ho' hlt' hrest
        rcases hpos with ⟨-, rfl, rfl⟩ | hless
        · rw [if_neg (by omega)] at this
          omega
        · split at this <;> omega
    · -- the bus number of the record read is that of a later device
      rw [if_neg hsmall, List.length_cons, Nat.add_zero]
      have hmark := hlooks.busnum
      rw [l.busnum_bytes.2] at hmark
      have hshort : m.wire.length - o ≤ 291 := by
        by_contra hlong
        obtain ⟨q, rfl⟩ := ho
        rw [byteAt_append_left _ (by rw [List.length_drop]; omega), byteAt_drop,
          show 4 * q + 291 = 4 * (q + 72) + 3 by omega, m.wire_padding (by omega)] at hmark
        exact absurd hmark (by decide)
      have hdroplen : (m.wire.drop o).length = m.wire.length - o := List.length_drop
      cases ms with
      | nil =>
        have := hlooks.length
        rw [List.flatMap_nil, List.append_nil] at this
        omega
      | cons m2 ms =>
        obtain ⟨a, rfl⟩ := Nat.exists_eq_add_of_le
          (show (m.wire.drop o).length ≤ w by omega)
        rw [List.drop_length_add_append] at hrest
        rcases drop_wires m2 ms (a := a) (by omega) with hnil | ⟨m', ms', o', ho', hlt', heq, hpos⟩
        · rw [hnil] at hrest
          cases ls with
          | nil => exact Nat.succ_le_succ (Nat.zero_le _)
          | cons l' ls => exact absurd hrest.1.length (by decide)
        · rw [heq] at hrest
          have := ih ho' hlt' hrest
          rw [List.length_cons]
          rcases hpos with ⟨-, rfl, rfl⟩ | hless
          · rw [if_neg (by omega)] at this
            omega
          · split at this <;> omega

/-- A device whose interfaces are not as many as its record says makes the client miss. -/
theorem counted_of_reads {l : Listed} {ls : List Listed} (h : Reads (l :: ls) ((l :: ls).flatMap wire)) :
    l.Counted ∧ Reads ls (ls.flatMap wire) := by
  obtain ⟨-, hle, hrest⟩ := h
  have hlen := l.wire_length
  rw [List.flatMap_cons, l.width_wire] at hle hrest
  generalize hn : l.dev.nIfnums % 256 = n at hle hrest
  rw [Counted, hn]
  rcases Nat.lt_trichotomy l.interfaces.length n with hfew | heq | hmany
  · -- the client takes the first bytes of the next record for interfaces
    exfalso
    obtain ⟨d, rfl⟩ := Nat.exists_eq_add_of_lt hfew
    rw [show 312 + 4 * (l.interfaces.length + d + 1) = l.wire.length + 4 * (d + 1) by omega,
      List.drop_length_add_append] at hrest
    cases ls with
    | nil =>
      rw [List.flatMap_nil, List.append_nil] at hle
      omega
    | cons m ms =>
      rcases drop_wires m ms (a := 4 * (d + 1)) (Nat.dvd_mul_right _ _) with
        hnil | ⟨m', ms', o, ho, hlt, heq, hpos⟩
      · rw [hnil] at hrest
        exact absurd hrest.1.length (by decide)
      · rw [heq] at hrest
        have hcount := reads_length_le ho hlt hrest
        rw [List.length_cons] at hcount
        rcases hpos with ⟨rfl, rfl, rfl⟩ | hless
        · have hsmall : 4 * (d + 1) ≤ 20 := by
            by_contra hbig
            rw [if_neg hbig] at hcount
            omega
          refine Listed.not_looks_late (Nat.succ_pos d) hrest.1 (fun {j} hj => ?_) hsmall
          have hm := m'.wire_length
          rw [byteAt_append_left _ (by rw [List.length_drop]; omega), byteAt_drop,
            byteAt_wire m' hj]
        · split at hcount <;> omega
  · subst heq
    rw [← hlen, List.drop_left] at hrest
    exact ⟨rfl, hrest⟩
  · -- the client takes the last interfaces for the beginning of a record
    exfalso
    obtain ⟨d, hd⟩ := Nat.exists_eq_add_of_lt hmany
    have hdrop : (l.wire.drop (312 + 4 * n)).length = 4 * (d + 1) := by
      rw [List.length_drop]
      omega
    rw [List.drop_append_of_le_length (by omega)] at hrest
    cases ls with
    | nil =>
      have : l.wire.drop (312 + 4 * n) ++ [] = [] := hrest
      rw [List.append_nil] at this
      rw [this] at hdrop
      cases hdrop
    | cons m ms =>
      obtain ⟨hlooks, -, -⟩ := hrest
      have hle : 4 * (d + 1) ≤ 291 := by
        by_contra hbig
        have hmark := hlooks.busnum
        rw [m.busnum_bytes.2, byteAt_append_left _ (by rw [hdrop]; omega), byteAt_drop,
          show 312 + 4 * n + 291 = 4 * (n + 150) + 3 by omega, l.wire_padding (by omega)] at hmark
        exact absurd hmark (by decide)
      refine Listed.not_looks_early (Nat.succ_pos d) hlooks (fun {j} hj hj312 => ?_) hle
      have hm := m.wire_length
      rw [byteAt_append_right _ (by rw [hdrop]; exact hj), hdrop, List.flatMap_cons,
        byteAt_append_left _ (by omega), byteAt_wire m (by omega)]

/-- The client reads every device as it is, and nothing but these, exactly when each device has as
many interface descriptors with alternate setting 0 as its record says. -/
theorem lists_iff_counted {devs : List Listed} (h : devs.length < 2 ^ 31) :
    Lists devs ↔ ∀ l ∈ devs, l.Counted := by
  refine ⟨fun hlists => ?_, lists_of_counted h⟩
  have hreads : Reads devs (devs.flatMap wire) := by
    have hroom : ([] : List DevInfo).length + devs.length ≤ devs.length :=
      Nat.le_of_eq (Nat.zero_add _)
    refine reads_of_readDevs hroom ?_
    rw [← clientDevlist_handshake _ h, hlists devs.length,
      List.take_of_length_le (Nat.le_of_eq (List.length_map _)), List.nil_append]
  clear hlists h
  induction devs with
  | nil => exact fun _ h => nomatch h
  | cons l devs ih =>
    obtain ⟨hl, hrest⟩ := counted_of_reads hreads
    exact List.forall_mem_cons.mpr ⟨hl, ih hrest⟩

/-- A device that has been built, on its own at full speed. -/
def Listed.built (header : DeviceHeader) (acts : List BuildAct) : Listed where
  dev := ((Device.create header).run acts).1
  behind := []
  busid := ⟨[], List.forall_mem_nil _, by decide⟩
  busnum := 1
  devnum := 2
  speed := 1
  busnum_one := .inr rfl

/-- The only interface of a device has number 1. -/
def gapRun : List BuildAct := [.add (.addDescriptor (interfaceDesc 1 0))]

/-- The client waits for a second interface of `gapRun`. -/
theorem lists_fails : ¬∀ header acts, Lists [Listed.built header acts] := by
  intro h
  have hlists := h ⟨0, 0, 0, 0, 0, 0, 0, 0, 0⟩ gapRun 1
  revert hlists
  decide +kernel

/-- Two interfaces, of which one has two alternate settings. -/
def twoRun : List BuildAct :=
  [.add (.addDescriptor (interfaceDesc 0 0)), .add (.addDescriptor (interfaceDesc 1 0)),
    .add (.addDescriptor (interfaceDesc 1 1))]

theorem lists_iff_counted_twoRun :
    Lists [.built ⟨0, 0, 0, 0, 0, 0, 0, 0, 0⟩ twoRun] ↔
      ∀ l ∈ [Listed.built ⟨0, 0, 0, 0, 0, 0, 0, 0, 0⟩ twoRun], l.Counted :=
  lists_iff_counted (by decide)

end Usbip.Listen
