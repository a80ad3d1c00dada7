import Usbip.Classes.Uvc

/-! The built-in source of UVC frames, as the writes that it makes.  Pixels are written in pairs of
four bytes, so that a row of an odd width takes two bytes more than it has. -/

namespace Usbip.Classes.Uvc

open Lib

/-- `bars[((x + shift) * 8) / width & 7]`. -/
def barAt (width shift x : Int) : Option (UInt8 × UInt8 × UInt8) := do
  let sum ← intOf (x + shift)
  let scaled ← intOf (sum * 8)
  some (bars.getD (scaled.tdiv width % 8).toNat (0, 0, 0))

/-- The four bytes of the pixels `x` and `x + 1`, and `x += 2`. -/
def pairAt (width shift : Int) (row : Nat) (x : Int) : Option Store := do
  let c0 ← barAt width shift x
  let right ← intOf (x + 1)
  let c1 ← barAt width shift right
  let column ← intOf (x * 2)
  let _ ← intOf (column + 3)
  let _ ← intOf (x + 2)
  some ⟨row + column.toNat, [c0.1, c0.2.1, c1.1, c0.2.2]⟩

def rowStores (width shift : Int) (y : Nat) : Option (List Store) :=
  (List.range ((width.toNat + 1) / 2)).mapM fun k =>
    pairAt width shift (y * width.toNat * 2) (2 * k : Nat)

/-- The offset of the bars in frame `idx`. -/
def barShift (width : Int32) (idx : UInt32) : Int :=
  (idx % (if width ≠ 0 then width else 1).toUInt32).toInt32.toInt

/-- The writes of `uvc_color_bars_yuyv`, `none` when an `int` overflows. -/
def uvcColorBarsYuyv (width height : Int32) (idx : UInt32) : Option (List Store) :=
  ((List.range height.toInt.toNat).mapM (rowStores width.toInt (barShift width idx))).map
    List.flatten

/-- The writes are those of a frame: inside `buf[0, width * height * 2)`, every byte of it. -/
def WritesFrame (width height : Int32) (idx : UInt32) : Prop :=
  ∃ stores, uvcColorBarsYuyv width height idx = some stores ∧
    Fills stores 0 (width.toInt * height.toInt * 2).toNat

/-- Either there is nothing to draw, or the width is even and the numbers fit into an `int`. -/
def EvenFrame (width height : Int32) (idx : UInt32) : Prop :=
  (width.toInt ≤ 0 ∨ height.toInt ≤ 0) ∧ ¬(width.toInt < 0 ∧ height.toInt < 0) ∨
    0 < width.toInt ∧ 0 < height.toInt ∧ width.toInt % 2 = 0 ∧
      (width.toInt - 1 + idx.toNat % width.toInt) * 8 ≤ 2147483647

/-! ### One pair -/

theorem barAt_iff {width shift x : Nat} {c : UInt8 × UInt8 × UInt8} :
    barAt width shift x = some c ↔ c = bar width shift x ∧ (x + shift) * 8 ≤ 2147483647 := by
  have hscaled : (((x + shift : Nat) : Int) * 8) = ((x + shift) * 8 : Nat) := by omega
  have hindex : ((((x + shift) * 8 : Nat) : Int).tdiv width % 8).toNat =
      (x + shift) * 8 / width &&& 7 := by
    rw [← Int.ofNat_tdiv]
    exact (Nat.and_two_pow_sub_one_eq_mod _ 3).symm
  constructor
  · intro h
    obtain ⟨sum, hsum, h⟩ := Option.bind_eq_some_iff.mp h
    obtain ⟨scaled, hfit, h⟩ := Option.bind_eq_some_iff.mp h
    obtain ⟨rfl, -⟩ := intOf_natCast.mp hsum
    rw [hscaled] at hfit
    obtain ⟨rfl, hle⟩ := intOf_natCast.mp hfit
    rw [hindex] at h
    exact ⟨(Option.some.inj h).symm, hle⟩
  · rintro ⟨rfl, hle⟩
    have hsum : intOf (x + shift : Nat) = some (x + shift : Nat) :=
      intOf_natCast.mpr ⟨rfl, by omega⟩
    have hfit : intOf ((x + shift : Nat) * 8) = some (((x + shift) * 8 : Nat) : Int) := by
      rw [hscaled]
      exact intOf_natCast.mpr ⟨rfl, hle⟩
    apply Option.bind_eq_some_iff.mpr ⟨_, hsum, ?_⟩
    apply Option.bind_eq_some_iff.mpr ⟨_, hfit, ?_⟩
    rw [hindex]
    rfl

/-- What a pair of pixels writes. -/
def pairStore (width shift row x : Nat) : Store :=
  let c0 := bar width shift x
  ⟨row + x * 2, [c0.1, c0.2.1, (bar width shift (x + 1)).1, c0.2.2]⟩

theorem pairAt_iff {width shift row x : Nat} {w : Store} :
    pairAt width shift row x = some w ↔
      w = pairStore width shift row x ∧ (x + 1 + shift) * 8 ≤ 2147483647 := by
  constructor
  · intro h
    obtain ⟨c0, h0, h⟩ := Option.bind_eq_some_iff.mp h
    obtain ⟨right, hright, h⟩ := Option.bind_eq_some_iff.mp h
    obtain ⟨c1, h1, h⟩ := Option.bind_eq_some_iff.mp h
    obtain ⟨column, hcolumn, h⟩ := Option.bind_eq_some_iff.mp h
    obtain ⟨_, -, h⟩ := Option.bind_eq_some_iff.mp h
    obtain ⟨_, -, h⟩ := Option.bind_eq_some_iff.mp h
    obtain ⟨rfl, -⟩ := barAt_iff.mp h0
    obtain ⟨rfl, -⟩ := intOf_natCast.mp hright
    obtain ⟨rfl, hle⟩ := barAt_iff.mp h1
    obtain ⟨rfl, -⟩ := intOf_natCast.mp hcolumn
    exact ⟨(Option.some.inj h).symm, hle⟩
  · rintro ⟨rfl, hle⟩
    apply Option.bind_eq_some_iff.mpr ⟨_, barAt_iff.mpr ⟨rfl, by omega⟩, ?_⟩
    apply Option.bind_eq_some_iff.mpr ⟨_, intOf_natCast (n := x + 1).mpr ⟨rfl, by omega⟩, ?_⟩
    apply Option.bind_eq_some_iff.mpr ⟨_, barAt_iff.mpr ⟨rfl, hle⟩, ?_⟩
    apply Option.bind_eq_some_iff.mpr ⟨_, intOf_natCast (n := x * 2).mpr ⟨rfl, by omega⟩, ?_⟩
    apply Option.bind_eq_some_iff.mpr ⟨_, intOf_natCast (n := x * 2 + 3).mpr ⟨rfl, by omega⟩, ?_⟩
    apply Option.bind_eq_some_iff.mpr ⟨_, intOf_natCast (n := x + 2).mpr ⟨rfl, by omega⟩, ?_⟩
    rfl

/-! ### The frame -/

/-- The writes of a row. -/
def rowPairs (width shift y : Nat) : List Store :=
  (List.range ((width + 1) / 2)).map fun k => pairStore width shift (y * width * 2) (2 * k)

/-- No `int` overflows in a row. -/
def RowFits (width shift : Nat) : Prop :=
  ∀ k ∈ List.range ((width + 1) / 2), (2 * k + 1 + shift) * 8 ≤ 2147483647

theorem rowStores_iff {width shift y : Nat} {row : List Store} :
    rowStores width shift y = some row ↔ row = rowPairs width shift y ∧ RowFits width shift :=
  mapM_eq_some_iff fun _ _ => pairAt_iff

theorem uvcColorBarsYuyv_iff {width height : Int32} {idx : UInt32} {w s : Nat}
    (hw : width.toInt = w) (hs : barShift width idx = s) {stores : List Store} :
    uvcColorBarsYuyv width height idx = some stores ↔
      stores = (List.range height.toInt.toNat).flatMap (rowPairs w s) ∧
        ∀ y ∈ List.range height.toInt.toNat, RowFits w s := by
  rw [uvcColorBarsYuyv, hw, hs, Option.map_eq_some_iff]
  constructor
  · rintro ⟨rows, hrows, rfl⟩
    obtain ⟨rfl, hfits⟩ := (mapM_eq_some_iff fun _ _ => rowStores_iff).mp hrows
    exact ⟨rfl, hfits⟩
  · rintro ⟨rfl, hfits⟩
    exact ⟨_, (mapM_eq_some_iff fun _ _ => rowStores_iff).mpr ⟨rfl, hfits⟩, rfl⟩

theorem rowFits_iff {width shift : Nat} (heven : width % 2 = 0) (hpos : 0 < width) :
    RowFits width shift ↔ (width - 1 + shift) * 8 ≤ 2147483647 := by
  constructor
  · intro h
    have := h (width / 2 - 1) (List.mem_range.mpr (by omega))
    omega
  · intro h k hk
    have := List.mem_range.mp hk
    omega

/-- A row of an even width is filled. -/
theorem rowPairs_fills {width : Nat} (heven : width % 2 = 0) (shift y : Nat) :
    Fills (rowPairs width shift y) (0 + y * (width * 2)) (0 + (y + 1) * (width * 2)) := by
  have hpair : ∀ k < (width + 1) / 2,
      Fills [pairStore width shift (y * width * 2) (2 * k)]
        (y * width * 2 + k * 4) (y * width * 2 + (k + 1) * 4) := by
    intro k _
    have hoff : y * width * 2 + 2 * k * 2 = y * width * 2 + k * 4 := by omega
    have hstop : y * width * 2 + k * 4 + 4 = y * width * 2 + (k + 1) * 4 := by omega
    rw [pairStore, hoff, ← hstop]
    exact (Fills.nil _).cons (Nat.le_refl _)
  have hrow := Fills.tiles hpair
  have hsize : y * width * 2 + (width + 1) / 2 * 4 = 0 + (y + 1) * (width * 2) := by
    rw [Nat.succ_mul, ← Nat.mul_assoc]
    omega
  have hbase : 0 + y * (width * 2) = y * width * 2 := by rw [Nat.zero_add, Nat.mul_assoc]
  rw [rowPairs, List.map_eq_flatMap, hbase, ← hsize]
  exact hrow

/-- The last pair of a row of an odd width is written beyond the frame, from the last row. -/
theorem rowPairs_over {width : Nat} (hodd : width % 2 = 1) (shift y : Nat) :
    ∃ w ∈ rowPairs width shift y, w.stop = (y + 1) * width * 2 + 2 := by
  have hlast : width / 2 ∈ List.range ((width + 1) / 2) := List.mem_range.mpr (by omega)
  refine ⟨_, List.mem_map_of_mem hlast, ?_⟩
  have hrows : (y + 1) * width = y * width + width := Nat.succ_mul y width
  show y * width * 2 + 2 * (width / 2) * 2 + 4 = _
  omega

theorem uvcColorBarsYuyv_nothing {width height : Int32} (idx : UInt32)
    (hnone : width.toInt ≤ 0 ∨ height.toInt ≤ 0) :
    uvcColorBarsYuyv width height idx = some [] := by
  rcases hnone with hwidth | hheight
  · have hrow : ∀ y row, rowStores width.toInt (barShift width idx) y = some row ↔
        row = [] ∧ True := by
      intro y row
      rw [rowStores, Int.toNat_of_nonpos hwidth]
      simp [eq_comm]
    apply Option.map_eq_some_iff.mpr ⟨_, (mapM_eq_some_iff hrow).mpr ⟨rfl, fun _ _ => trivial⟩, ?_⟩
    exact List.flatten_eq_nil_iff.mpr fun row h => (List.mem_map.mp h).elim fun _ h => h.2.symm
  · rw [uvcColorBarsYuyv, Int.toNat_of_nonpos hheight]
    rfl

theorem fills_nil_iff {n : Nat} : Fills [] 0 n ↔ n = 0 := by
  constructor
  · intro h
    by_contra hn
    obtain ⟨w, hw, -⟩ := h.covered 0 (Nat.le_refl 0) (Nat.pos_of_ne_zero hn)
    cases hw
  · rintro rfl
    exact Fills.nil 0

theorem toInt32_toInt {n : UInt32} (h : n.toNat < 2147483648) : n.toInt32.toInt = n.toNat := by
  show n.toBitVec.toInt = (n.toBitVec.toNat : Int)
  rw [BitVec.toInt_eq_toNat_cond, if_pos]
  exact Nat.mul_lt_mul_of_pos_left h (by decide)

theorem barShift_natCast {width : Int32} {w : Nat} (idx : UInt32) (hw : width.toInt = w)
    (hpos : 0 < w) : barShift width idx = (idx.toNat % w : Nat) := by
  have hne : width ≠ 0 := by
    rintro rfl
    exact hpos.ne (Int.ofNat_inj.mp hw)
  have hwidth : width.toUInt32.toNat = w ∧ w < 2147483648 := by
    have hcond := BitVec.toInt_eq_toNat_cond width.toBitVec
    rw [show width.toBitVec.toInt = w from hw] at hcond
    show width.toBitVec.toNat = w ∧ _
    have := width.toBitVec.isLt
    split at hcond <;> omega
  rw [barShift, if_pos hne, ← hwidth.1, ← UInt32.toNat_mod]
  apply toInt32_toInt
  rw [UInt32.toNat_mod, hwidth.1]
  exact (Nat.mod_lt _ hpos).trans hwidth.2

/-- `uvc_color_bars_yuyv` writes the frame and nothing else exactly when the width is even, the
arithmetic fits into an `int` and not both sizes are negative. -/
theorem writesFrame_iff_evenFrame (width height : Int32) (idx : UInt32) :
    WritesFrame width height idx ↔ EvenFrame width height idx := by
  by_cases hnone : width.toInt ≤ 0 ∨ height.toInt ≤ 0
  · have hempty : WritesFrame width height idx ↔ (width.toInt * height.toInt * 2).toNat = 0 := by
      rw [WritesFrame, uvcColorBarsYuyv_nothing idx hnone, ← fills_nil_iff]
      simp
    have hproduct : width.toInt * height.toInt ≤ 0 ↔ ¬(width.toInt < 0 ∧ height.toInt < 0) := by
      rw [mul_nonpos_iff]
      omega
    rw [hempty, EvenFrame]
    omega
  · obtain ⟨hwidth, hheight⟩ : 0 < width.toInt ∧ 0 < height.toInt := by omega
    obtain ⟨w, hw⟩ := Int.eq_ofNat_of_zero_le hwidth.le
    obtain ⟨h, hh⟩ := Int.eq_ofNat_of_zero_le hheight.le
    have hs := barShift_natCast idx hw (by omega)
    have hshift : (idx.toNat : Int) % w = (idx.toNat % w : Nat) := (Int.natCast_emod ..).symm
    generalize idx.toNat % w = s at hs hshift
    have hstores : ∀ {stores}, uvcColorBarsYuyv width height idx = some stores ↔ _ :=
      uvcColorBarsYuyv_iff hw hs
    rw [WritesFrame, EvenFrame, hw, hh, hshift]
    have hsize : ((w : Int) * h * 2).toNat = 0 + h * (w * 2) := by
      rw [Nat.zero_add, ← Nat.mul_assoc, Nat.mul_comm h w]
      exact Int.toNat_natCast (w * h * 2)
    rw [hsize]
    constructor
    · rintro ⟨stores, hsome, hfills⟩
      obtain ⟨rfl, hfits⟩ := hstores.mp hsome
      have hlast : h - 1 ∈ List.range height.toInt.toNat := by
        rw [hh]
        exact List.mem_range.mpr (by omega)
      have heven : w % 2 = 0 := by
        by_contra hne
        have hodd : w % 2 = 1 := by omega
        obtain ⟨v, hv, hstop⟩ := rowPairs_over hodd s (h - 1)
        have hin := (hfills.within v (List.mem_flatMap.mpr ⟨_, hlast, hv⟩)).2
        have hrows : h - 1 + 1 = h := by omega
        rw [hstop, hrows, Nat.mul_assoc] at hin
        omega
      have hrow := (rowFits_iff heven (by omega)).mp (hfits _ hlast)
      omega
    · intro heven
      obtain ⟨-, -, heven, hfit⟩ : 0 < (w : Int) ∧ 0 < (h : Int) ∧ (w : Int) % 2 = 0 ∧
          ((w : Int) - 1 + s) * 8 ≤ 2147483647 := by omega
      have hrow : RowFits w s := (rowFits_iff (by omega) (by omega)).mpr (by omega)
      refine ⟨_, hstores.mpr ⟨rfl, fun _ _ => hrow⟩, ?_⟩
      rw [hh]
      exact Fills.tiles fun y _ => rowPairs_fills (by omega) s y

/-- A frame of one pixel takes four bytes. -/
theorem writesFrame_overrun : ¬WritesFrame 1 1 0 := by
  rintro ⟨stores, hsome, hfills⟩
  have hone : uvcColorBarsYuyv 1 1 0 = some [⟨0, [235, 128, 235, 128]⟩] := by decide
  obtain rfl := Option.some.inj (hone.symm.trans hsome)
  have hstop := (hfills.within _ (List.mem_singleton_self _)).2
  exact absurd hstop (by decide)

/-- The frames of a function are drawn by these writes. -/
theorem colorBarsYuyv_patch (width height : UInt16) (idx : UInt32) (buf : List UInt8) :
    ∃ stores, uvcColorBarsYuyv width.toUInt32.toInt32 height.toUInt32.toInt32 idx = some stores ∧
      stores.foldl Store.patch buf = colorBarsYuyv buf width.toNat height.toNat idx := by
  have htoInt : ∀ n : UInt16, n.toUInt32.toInt32.toInt = n.toNat := fun n =>
    toInt32_toInt (n.toNat_lt.trans (by decide))
  have hlt := width.toNat_lt
  have hmod : (idx.toNat % if width.toNat ≠ 0 then width.toNat else 1) ≤ 65535 := by
    refine (Nat.mod_lt _ ?_).le.trans ?_ <;> split <;> omega
  have hs : barShift width.toUInt32.toInt32 idx =
      (idx.toNat % if width.toNat ≠ 0 then width.toNat else 1 : Nat) := by
    by_cases hzero : width.toNat = 0
    · obtain rfl : width = 0 := UInt16.toNat_inj.mp hzero
      have hone : (idx % 1).toNat = 0 := by rw [UInt32.toNat_mod, UInt32.toNat_one, Nat.mod_one]
      have hshift : barShift 0 idx = (idx % 1).toNat :=
        toInt32_toInt (hone.trans_lt (by decide))
      exact hshift.trans (congrArg Int.ofNat (hone.trans (Nat.mod_one _).symm))
    · rw [if_pos hzero]
      exact barShift_natCast idx (htoInt width) (Nat.pos_of_ne_zero hzero)
  have hfits : RowFits width.toNat (idx.toNat % if width.toNat ≠ 0 then width.toNat else 1) := by
    intro k hk
    have := List.mem_range.mp hk
    omega
  refine ⟨_, (uvcColorBarsYuyv_iff (htoInt width) hs).mpr ⟨rfl, fun _ _ => hfits⟩, ?_⟩
  rw [htoInt, Int.toNat_natCast, List.foldl_flatMap]
  congr 1
  funext buf y
  rw [rowPairs, List.foldl_map]
  rfl

end Usbip.Classes.Uvc
