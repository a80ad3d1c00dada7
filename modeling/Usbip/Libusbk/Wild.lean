import Usbip.Lib.Glob

/-! The patterns of `LstK_InitEx`: `lk_wild` matches a device against a glob pattern without regard
to the case of letters. -/

namespace Usbip.Libusbk

open Lib

/-- `c - 32` for a lower case letter, as `lk_wild` changes both characters before it compares
them. -/
def upperCase (c : UInt8) : UInt8 := if 0x61 ≤ c ∧ c ≤ 0x7a then c - 32 else c

/-- The loop of `lk_wild`. The suffixes are given to `lk_wild` itself, which makes this loop of
them, as what is left of the pattern is not empty. -/
def wildLoop : List UInt8 → List UInt8 → Bool
  | [], str => str = []
  | pc :: pat, str =>
    if pc = 0x2a then if pat = [] then true else someSuffix (wildLoop pat) str
    else
      match str with
      | [] => false
      | sc :: str =>
        if pc ≠ 0x3f ∧ upperCase pc ≠ upperCase sc then false else wildLoop pat str

/-- `lk_wild`, for the characters before the terminating NUL of both strings. -/
def lkWild (pat str : List UInt8) : Bool := if pat = [] then true else wildLoop pat str

/-- The two are the same ASCII letter in one or the other case, or the same character. -/
def SameLetter (a b : UInt8) : Prop :=
  a = b ∨ (0x41 ≤ a ∧ a ≤ 0x5a ∧ b = a + 32) ∨ (0x41 ≤ b ∧ b ≤ 0x5a ∧ a = b + 32)

/-- A string matches a file name pattern, ignoring the case of letters. -/
abbrev FileGlob : List UInt8 → List UInt8 → Prop := Glob 0x2a 0x3f SameLetter

theorem toNat_upperCase (c : UInt8) : (upperCase c).toNat =
    if 97 ≤ c.toNat ∧ c.toNat ≤ 122 then c.toNat - 32 else c.toNat := by
  have hrange : 0x61 ≤ c ∧ c ≤ 0x7a ↔ 97 ≤ c.toNat ∧ c.toNat ≤ 122 := by
    rw [UInt8.le_iff_toNat_le, UInt8.le_iff_toNat_le]
    rfl
  unfold upperCase
  simp only [hrange]
  split
  · rename_i hlower
    have hle : (32 : UInt8) ≤ c := by
      rw [UInt8.le_iff_toNat_le]
      exact Nat.le_trans (by decide) hlower.1
    exact UInt8.toNat_sub_of_le _ _ hle
  · rfl

/-- Two characters are alike to `lk_wild` when they differ in case only. -/
theorem upperCase_eq_iff (a b : UInt8) : upperCase a = upperCase b ↔ SameLetter a b := by
  have ha := a.toNat_lt
  have hb := b.toNat_lt
  have h32 : (32 : UInt8).toNat = 32 := rfl
  have h41 : (0x41 : UInt8).toNat = 65 := rfl
  have h5a : (0x5a : UInt8).toNat = 90 := rfl
  unfold SameLetter
  simp only [← UInt8.toNat_inj, UInt8.le_iff_toNat_le, toNat_upperCase, UInt8.toNat_add, h32, h41,
    h5a]
  split <;> split <;> omega

theorem wildLoop_iff (pat str : List UInt8) : wildLoop pat str = true ↔ FileGlob pat str := by
  induction pat generalizing str with
  | nil =>
    unfold wildLoop
    rw [decide_eq_true_iff]
    exact Glob.nil_iff.symm
  | cons pc pat ih =>
    unfold wildLoop
    by_cases hstar : pc = 0x2a
    · subst hstar
      rw [if_pos rfl]
      by_cases hlast : pat = []
      · subst hlast
        rw [if_pos rfl]
        exact iff_of_true rfl (Glob.star_last (by decide) str)
      · rw [if_neg hlast, someSuffix_iff]
        simp only [ih]
        exact (Glob.star_iff (by decide)).symm
    · rw [if_neg hstar]
      by_cases hmark : pc = 0x3f
      · subst hmark
        refine Iff.trans ?_ (Glob.mark_iff (by decide)).symm
        cases str with
        | nil => simp
        | cons sc str => simpa using ih str
      · refine Iff.trans ?_ (Glob.char_iff hstar hmark).symm
        cases str with
        | nil => simp
        | cons sc str =>
          dsimp only
          by_cases hsame : upperCase pc = upperCase sc
          · have hletter : SameLetter pc sc := (upperCase_eq_iff pc sc).mp hsame
            rw [if_neg fun h => h.2 hsame, ih]
            exact ⟨fun h => ⟨sc, str, rfl, hletter, h⟩, fun ⟨_, _, heq, _, h⟩ =>
              (List.cons.inj heq).2 ▸ h⟩
          · have hletter : ¬SameLetter pc sc := fun h => hsame ((upperCase_eq_iff pc sc).mpr h)
            rw [if_pos ⟨hmark, hsame⟩]
            refine iff_of_false Bool.false_ne_true ?_
            rintro ⟨c, rest, heq, h, -⟩
            exact hletter ((List.cons.inj heq).1 ▸ h)

/-- `lk_wild` with a pattern that is not empty decides whether the string matches it. -/
theorem lkWild_iff_fileGlob {pat : List UInt8} (hpat : pat ≠ []) (str : List UInt8) :
    lkWild pat str = true ↔ FileGlob pat str := by
  rw [lkWild, if_neg hpat]
  exact wildLoop_iff pat str

/-- `*b?*` and `xBc`: the first star takes a character, and the last one none. -/
theorem fileGlob_twoStars : FileGlob [0x2a, 0x62, 0x3f, 0x2a] [0x78, 0x42, 0x63] :=
  (lkWild_iff_fileGlob (by decide) _).mp (by decide)

end Usbip.Libusbk
