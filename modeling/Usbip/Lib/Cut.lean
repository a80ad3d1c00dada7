import Mathlib.Tactic.Common

/-! Sections one after another, each with its own length somewhere inside: a reader that goes from
section to section by these lengths. -/

namespace Usbip.Lib

variable {α : Type*} {size : List α → Nat}

/-- The sections that are met by going from each one to the next, in at most `fuel` steps; `none`
when a section has no length or is cut short. -/
def cutFuel (size : List α → Nat) : Nat → List α → Option (List (List α))
  | _, [] => some []
  | 0, _ :: _ => none
  | fuel + 1, a :: l =>
    if size (a :: l) = 0 ∨ (a :: l).length < size (a :: l) then none
    else (cutFuel size fuel ((a :: l).drop (size (a :: l)))).map
      ((a :: l).take (size (a :: l)) :: ·)

def cut (size : List α → Nat) (l : List α) : Option (List (List α)) := cutFuel size l.length l

/-- Whatever comes behind it, the section has the length that a reader finds in it. -/
def Measured (size : List α → Nat) (sect : List α) : Prop :=
  sect ≠ [] ∧ ∀ rest, size (sect ++ rest) = sect.length

theorem cutFuel_flatten {sects : List (List α)} (h : ∀ s ∈ sects, Measured size s) {fuel : Nat}
    (hfuel : sects.flatten.length ≤ fuel) : cutFuel size fuel sects.flatten = some sects := by
  induction sects generalizing fuel with
  | nil =>
    rw [List.flatten_nil]
    cases fuel <;> rfl
  | cons s sects ih =>
    obtain ⟨⟨hne, hsize⟩, hsects⟩ := List.forall_mem_cons.mp h
    obtain ⟨a, l, rfl⟩ := List.exists_cons_of_ne_nil hne
    have hlen := hsize sects.flatten
    rw [List.flatten_cons, List.length_append, List.length_cons] at hfuel
    cases fuel with
    | zero => omega
    | succ fuel =>
      rw [List.flatten_cons, List.cons_append, cutFuel, ← List.cons_append, hlen,
        if_neg (by rw [List.length_append, List.length_cons]; omega), List.drop_left,
        List.take_left, ih hsects (by omega)]
      rfl

/-- Going over sections one after another meets exactly these sections. -/
theorem cut_flatten {sects : List (List α)} (h : ∀ s ∈ sects, Measured size s) :
    cut size sects.flatten = some sects :=
  cutFuel_flatten h (Nat.le_refl _)

end Usbip.Lib
