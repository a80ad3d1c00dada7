import Mathlib.Tactic.Common

/-! Glob patterns over any alphabet: a star stands for every string, a mark for every single
character, and every other character of a pattern for the characters that are the same as it. -/

namespace Usbip.Lib

variable {α : Type*}

/-- A string matches a pattern. -/
inductive Glob (star mark : α) (same : α → α → Prop) : List α → List α → Prop
  | nil : Glob star mark same [] []
  | star {pat str : List α} (taken : List α) (rest : Glob star mark same pat str) :
    Glob star mark same (star :: pat) (taken ++ str)
  | mark {pat str : List α} (c : α) (rest : Glob star mark same pat str) :
    Glob star mark same (mark :: pat) (c :: str)
  | char {pat str : List α} {a c : α} (not_star : a ≠ star) (not_mark : a ≠ mark)
    (alike : same a c) (rest : Glob star mark same pat str) :
    Glob star mark same (a :: pat) (c :: str)

/-- Some suffix of the string passes the test; the longest is tried first. -/
def someSuffix (test : List α → Bool) : List α → Bool
  | [] => test []
  | c :: str => test (c :: str) || someSuffix test str

theorem someSuffix_iff {test : List α → Bool} {str : List α} :
    someSuffix test str = true ↔ ∃ taken rest, str = taken ++ rest ∧ test rest = true := by
  induction str with
  | nil =>
    constructor
    · exact fun h => ⟨[], [], rfl, h⟩
    · rintro ⟨taken, rest, hsplit, h⟩
      obtain ⟨-, rfl⟩ := List.append_eq_nil_iff.mp hsplit.symm
      exact h
  | cons c str ih =>
    rw [someSuffix, Bool.or_eq_true, ih]
    constructor
    · rintro (h | ⟨taken, rest, rfl, h⟩)
      · exact ⟨[], c :: str, rfl, h⟩
      · exact ⟨c :: taken, rest, rfl, h⟩
    · rintro ⟨taken, rest, hsplit, h⟩
      cases taken with
      | nil =>
        obtain rfl : c :: str = rest := hsplit
        exact Or.inl h
      | cons d taken =>
        obtain ⟨rfl, rfl⟩ := List.cons.inj hsplit
        exact Or.inr ⟨taken, rest, rfl, h⟩

namespace Glob

variable {star mark : α} {same : α → α → Prop} {pat str : List α}

theorem nil_iff : Glob star mark same [] str ↔ str = [] := by
  constructor
  · rintro ⟨⟩
    rfl
  · rintro rfl
    exact .nil

theorem star_iff (hne : star ≠ mark) : Glob star mark same (star :: pat) str ↔
    ∃ taken rest, str = taken ++ rest ∧ Glob star mark same pat rest := by
  constructor
  · intro h
    cases h with
    | star taken rest => exact ⟨taken, _, rfl, rest⟩
    | mark => exact absurd rfl hne
    | char not_star => exact absurd rfl not_star
  · rintro ⟨taken, rest, rfl, h⟩
    exact .star taken h

/-- A star at the end takes all that is left. -/
theorem star_last (hne : star ≠ mark) (str : List α) : Glob star mark same [star] str :=
  (star_iff hne).mpr ⟨str, [], (List.append_nil str).symm, .nil⟩

theorem mark_iff (hne : star ≠ mark) : Glob star mark same (mark :: pat) str ↔
    ∃ c rest, str = c :: rest ∧ Glob star mark same pat rest := by
  constructor
  · intro h
    generalize hp : mark :: pat = p at h
    cases h with
    | nil => cases hp
    | star taken rest => exact absurd (List.cons.inj hp).1.symm hne
    | mark c rest =>
      obtain ⟨-, rfl⟩ := List.cons.inj hp
      exact ⟨c, _, rfl, rest⟩
    | char _ not_mark =>
      exact absurd (List.cons.inj hp).1.symm not_mark
  · rintro ⟨c, rest, rfl, h⟩
    exact .mark c h

theorem char_iff {a : α} (not_star : a ≠ star) (not_mark : a ≠ mark) :
    Glob star mark same (a :: pat) str ↔
      ∃ c rest, str = c :: rest ∧ same a c ∧ Glob star mark same pat rest := by
  constructor
  · intro h
    cases h with
    | star => exact absurd rfl not_star
    | mark => exact absurd rfl not_mark
    | char _ _ alike rest => exact ⟨_, _, rfl, alike, rest⟩
  · rintro ⟨c, rest, rfl, alike, h⟩
    exact .char not_star not_mark alike h

end Glob

end Usbip.Lib
