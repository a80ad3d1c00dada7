import Mathlib.Data.List.Basic
import Mathlib.Tactic.Common

/-! Lists as tables of entries: the first entry that meets a test, changed and found again, and the
count that bounds a walk from entry to entry. -/

namespace Usbip.Lib

variable {α γ : Type*}

/-- The first element that meets a test, changed. -/
def modifyFirst (p : α → Bool) (f : α → α) : List α → List α
  | [] => []
  | a :: l => if p a then f a :: l else a :: modifyFirst p f l

/-- Where the first element stands that is changed. -/
theorem exists_modifyFirst {p : α → Bool} (f : α → α) {l : List α} {a : α}
    (h : l.find? p = some a) :
    ∃ before after, l = before ++ a :: after ∧ modifyFirst p f l = before ++ f a :: after := by
  induction l with
  | nil => cases h
  | cons b l ih =>
    rw [modifyFirst]
    cases hb : p b with
    | true =>
      obtain rfl : b = a := by simpa [hb] using h
      exact ⟨[], l, rfl, rfl⟩
    | false =>
      obtain ⟨before, after, hl, hm⟩ := ih (by simpa [hb] using h)
      exact ⟨b :: before, after, by rw [hl]; rfl, by simp [hm]⟩

/-- What the change does not show in a view of the elements, the table does not. -/
theorem map_modifyFirst {p : α → Bool} {f : α → α} {g : α → γ} (h : ∀ a, g (f a) = g a)
    (l : List α) : (modifyFirst p f l).map g = l.map g := by
  induction l with
  | nil => rfl
  | cons a l ih =>
    rw [modifyFirst]
    split
    · simp [h]
    · simp [ih]

/-- The element that was changed, looked up again. -/
theorem find?_modifyFirst_self {p : α → Bool} {f : α → α} (h : ∀ a, p (f a) = p a) (l : List α) :
    (modifyFirst p f l).find? p = (l.find? p).map f := by
  induction l with
  | nil => rfl
  | cons a l ih =>
    rw [modifyFirst]
    cases ha : p a <;> simp [ha, h, ih]

/-- A look-up that the element that was changed does not meet, before or after. -/
theorem find?_modifyFirst_of_ne {p q : α → Bool} {f : α → α}
    (h : ∀ a, p a = true → q a = false ∧ q (f a) = false) (l : List α) :
    (modifyFirst p f l).find? q = l.find? q := by
  induction l with
  | nil => rfl
  | cons a l ih =>
    rw [modifyFirst]
    cases ha : p a with
    | true => simp [(h a ha).1, (h a ha).2]
    | false => simp only [Bool.false_eq_true, if_false, List.find?_cons, ih]

theorem mem_of_mem_modifyFirst {p : α → Bool} {f : α → α} {l : List α} {a b : α}
    (ha : l.find? p = some a) (hb : b ∈ modifyFirst p f l) : b = f a ∨ b ∈ l := by
  obtain ⟨before, after, hl, hm⟩ := exists_modifyFirst f ha
  rw [hm] at hb
  rw [hl]
  simp only [List.mem_append, List.mem_cons] at hb ⊢
  rcases hb with hb | rfl | hb
  · exact .inr (.inl hb)
  · exact .inl rfl
  · exact .inr (.inr (.inr hb))

/-- A test that fails on an element where a weaker one does not counts fewer elements.  So a walk
from element to element that narrows a test takes fewer steps than there are elements. -/
theorem countP_lt_countP {p q : α → Bool} {l : List α} (hpq : ∀ b ∈ l, p b = true → q b = true)
    {a : α} (ha : a ∈ l) (hp : p a = false) (hq : q a = true) : l.countP p < l.countP q := by
  obtain ⟨before, after, rfl⟩ := List.append_of_mem ha
  have hbefore := List.countP_mono_left (p := p) (q := q) (l := before) fun b hb =>
    hpq b (List.mem_append_left _ hb)
  have hafter := List.countP_mono_left (p := p) (q := q) (l := after) fun b hb =>
    hpq b (List.mem_append_right _ (List.mem_cons_of_mem a hb))
  simp only [List.countP_append, List.countP_cons, hp, hq, if_true, Bool.false_eq_true, if_false]
  omega

end Usbip.Lib
