import Mathlib.Tactic.Common

/-! Blocks whose first item says how long they are: walking a concatenation of blocks, and changing
an item inside one block. -/

namespace Usbip.Lib

variable {α : Type*} {size : α → Nat}

/-- A block is as long as its first item says. -/
def Framed (size : α → Nat) (block : List α) : Prop :=
  ∃ a l, block = a :: l ∧ size a = block.length

/-- The blocks that are met by going from each one to the next, in at most `fuel` steps; `none` when
a block has no length or is cut short. -/
def walkFuel (size : α → Nat) : Nat → List α → Option (List (List α))
  | _, [] => some []
  | 0, _ :: _ => none
  | fuel + 1, a :: l =>
    if size a = 0 ∨ (a :: l).length < size a then none
    else (walkFuel size fuel ((a :: l).drop (size a))).map ((a :: l).take (size a) :: ·)

def walk (size : α → Nat) (l : List α) : Option (List (List α)) := walkFuel size l.length l

theorem Framed.length_pos {block : List α} (h : Framed size block) : 0 < block.length := by
  obtain ⟨a, l, rfl, -⟩ := h
  exact Nat.succ_pos _

theorem Framed.set {block : List α} (h : Framed size block) (i : Nat) (v : α) :
    Framed size (block.set (i + 1) v) := by
  obtain ⟨a, l, rfl, hsize⟩ := h
  exact ⟨a, l.set i v, rfl, by simpa using hsize⟩

theorem walkFuel_flatten {blocks : List (List α)} (h : ∀ b ∈ blocks, Framed size b) {fuel : Nat}
    (hfuel : blocks.flatten.length ≤ fuel) : walkFuel size fuel blocks.flatten = some blocks := by
  induction blocks generalizing fuel with
  | nil =>
    rw [List.flatten_nil]
    cases fuel <;> rfl
  | cons b blocks ih =>
    obtain ⟨hb, hblocks⟩ := List.forall_mem_cons.mp h
    have hpos := hb.length_pos
    obtain ⟨a, l, rfl, hsize⟩ := hb
    rw [List.flatten_cons, List.length_append] at hfuel
    cases fuel with
    | zero => omega
    | succ fuel =>
      have hwhole : a :: (l ++ blocks.flatten) = (a :: l) ++ blocks.flatten := rfl
      rw [List.flatten_cons, List.cons_append, walkFuel, hwhole, hsize,
        if_neg (by rw [List.length_append]; omega), List.drop_left, List.take_left,
        ih hblocks (by omega)]
      rfl

/-- Walking over blocks one after another meets exactly these blocks. -/
theorem walk_flatten {blocks : List (List α)} (h : ∀ b ∈ blocks, Framed size b) :
    walk size blocks.flatten = some blocks :=
  walkFuel_flatten h (Nat.le_refl _)

/-- Where the first block with a property starts in the concatenation. -/
def offsetOf (p : List α → Bool) : List (List α) → Option Nat
  | [] => none
  | block :: blocks => if p block then some 0 else (offsetOf p blocks).map (block.length + ·)

theorem offsetOf_eq_none {p : List α → Bool} {blocks : List (List α)}
    (h : ∀ block ∈ blocks, p block = false) : offsetOf p blocks = none := by
  induction blocks with
  | nil => rfl
  | cons block blocks ih =>
    obtain ⟨hblock, hrest⟩ := List.forall_mem_cons.mp h
    rw [offsetOf, if_neg (by simp [hblock]), ih hrest, Option.map_none]

theorem offsetOf_append_cons {p : List α → Bool} {before : List (List α)} {block : List α}
    (after : List (List α)) (hbefore : ∀ b ∈ before, p b = false) (hblock : p block = true) :
    offsetOf p (before ++ block :: after) = some before.flatten.length := by
  induction before with
  | nil => exact if_pos hblock
  | cons b before ih =>
    obtain ⟨hb, hrest⟩ := List.forall_mem_cons.mp hbefore
    rw [List.cons_append, offsetOf, if_neg (by simp [hb]), ih hrest, Option.map_some,
      List.flatten_cons, List.length_append]

/-- An item of a list with one more is an old one, or the one behind them. -/
theorem getElem?_concat_cases {l : List α} {a b : α} {i : Nat} (h : (l ++ [a])[i]? = some b) :
    l[i]? = some b ∧ i < l.length ∨ i = l.length ∧ b = a := by
  rcases Nat.lt_trichotomy i l.length with hlt | rfl | hgt
  · exact .inl ⟨by rwa [List.getElem?_append_left hlt] at h, hlt⟩
  · rw [List.getElem?_concat_length, Option.some.injEq] at h
    exact .inr ⟨rfl, h.symm⟩
  · rw [List.getElem?_eq_none (by rw [List.length_append, List.length_singleton]; omega)] at h
    cases h

/-- An item of a list in which one was replaced. -/
theorem getElem?_set_cases {l : List α} {a b : α} {i j : Nat} (h : (l.set i a)[j]? = some b) :
    j = i ∧ b = a ∨ j ≠ i ∧ l[j]? = some b := by
  rw [List.getElem?_set] at h
  split at h
  · subst j
    split at h
    · rw [Option.some.injEq] at h
      exact .inl ⟨rfl, h.symm⟩
    · cases h
  · rename_i hne
    exact .inr ⟨fun heq => hne heq.symm, h⟩

/-- A change that a reading does not show, of one item of a list. -/
theorem map_modify_eq {β : Type*} {f : α → α} {g : α → β} (h : ∀ a, g (f a) = g a) (l : List α)
    (i : Nat) : (l.modify i f).map g = l.map g := by
  induction l generalizing i with
  | nil => cases i <;> rfl
  | cons a l ih =>
    cases i with
    | zero => exact congrArg (· :: l.map g) (h a)
    | succ i => exact congrArg (g a :: ·) (ih i)

theorem modify_append_right (f : α → α) (l m : List α) (i : Nat) :
    (l ++ m).modify (l.length + i) f = l ++ m.modify i f := by
  induction l with
  | nil => rw [List.length_nil, Nat.zero_add]; rfl
  | cons a l ih =>
    rw [List.cons_append, List.length_cons, Nat.add_right_comm, List.modify_succ_cons, ih]
    rfl

theorem modify_append_left (f : α → α) (l m : List α) {i : Nat} (h : i < l.length) :
    (l ++ m).modify i f = l.modify i f ++ m := by
  induction l generalizing i with
  | nil => cases h
  | cons a l ih =>
    cases i with
    | zero => rfl
    | succ i =>
      rw [List.cons_append, List.modify_succ_cons, ih (Nat.lt_of_succ_lt_succ h)]
      rfl

/-- An item inside a block is changed there, wherever the block lies. -/
theorem modify_within (f : α → α) (before block after : List α) {i : Nat} (h : i < block.length) :
    (before ++ block ++ after).modify (before.length + i) f =
      before ++ block.modify i f ++ after := by
  rw [List.append_assoc, modify_append_right, modify_append_left f block after h,
    List.append_assoc]

theorem prefix_modify (f : α → α) {l m : List α} {i : Nat} (h : l <+: m) (hi : l.length ≤ i) :
    l <+: m.modify i f := by
  obtain ⟨t, rfl⟩ := h
  obtain ⟨j, rfl⟩ := Nat.exists_eq_add_of_le hi
  rw [modify_append_right]
  exact List.prefix_append _ _

theorem prefix_set {l m : List α} {i : Nat} {v : α} (h : l <+: m) (hi : l.length ≤ i) :
    l <+: m.set i v := by
  obtain ⟨t, rfl⟩ := h
  rw [List.set_append_right _ _ hi]
  exact List.prefix_append _ _

end Usbip.Lib
