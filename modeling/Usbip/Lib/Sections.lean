import Mathlib.Data.List.DropRight

/-! Lists in which some items are heads: the sections that the heads open, and what appending one
item does to them. -/

namespace Usbip.Lib

variable {α κ : Type*} {head : α → Option κ} {l : List α} {a : α} {k : κ}

/-- The items up to the next head. -/
def upToHead (head : α → Option κ) (l : List α) : List α := l.takeWhile fun a => (head a).isNone

/-- Each head, with the items between it and the next one. -/
def sections (head : α → Option κ) : List α → List (κ × List α)
  | [] => []
  | a :: l =>
    match head a with
    | none => sections head l
    | some k => (k, upToHead head l) :: sections head l

/-- The last head of a list. -/
def lastHead (head : α → Option κ) (l : List α) : Option κ := l.reverse.findSome? head

/-- The items after the last head. -/
def lastItems (head : α → Option κ) (l : List α) : List α :=
  l.rtakeWhile fun a => (head a).isNone

@[simp] theorem lastHead_nil : lastHead head [] = none := rfl

theorem lastHead_concat (l : List α) (a : α) :
    lastHead head (l ++ [a]) = (head a).or (lastHead head l) := by
  rw [lastHead, List.reverse_concat, ← List.singleton_append, List.findSome?_append,
    List.findSome?_singleton]
  rfl

theorem lastHead_cons (b : α) (l : List α) :
    lastHead head (b :: l) = (lastHead head l).or (head b) := by
  rw [lastHead, List.reverse_cons, List.findSome?_append, List.findSome?_singleton]
  rfl

theorem lastHead_eq_none : lastHead head l = none ↔ ∀ a ∈ l, head a = none := by
  simp [lastHead]

theorem exists_of_lastHead (h : lastHead head l = some k) : ∃ a ∈ l, head a = some k := by
  obtain ⟨a, ha, hk⟩ := List.exists_of_findSome?_eq_some h
  exact ⟨a, List.mem_reverse.mp ha, hk⟩

theorem exists_split_of_lastHead (h : lastHead head l = some k) :
    ∃ before a after, l = before ++ a :: after ∧ head a = some k ∧ ∀ b ∈ after, head b = none := by
  induction l using List.reverseRecOn with
  | nil => cases h
  | append_singleton l b ih =>
    rw [lastHead_concat] at h
    cases hb : head b with
    | some k' =>
      rw [hb, Option.some_or] at h
      exact ⟨l, b, [], rfl, hb.trans h, fun c hc => nomatch hc⟩
    | none =>
      rw [hb, Option.none_or] at h
      obtain ⟨before, a, after, rfl, ha, hafter⟩ := ih h
      exact ⟨before, a, after ++ [b], by simp, ha,
        List.forall_mem_append.mpr ⟨hafter, List.forall_mem_singleton.mpr hb⟩⟩

theorem lastItems_concat_head (l : List α) (h : head a = some k) :
    lastItems head (l ++ [a]) = [] :=
  List.rtakeWhile_concat_neg _ _ _ (by simp [h])

theorem lastItems_concat (l : List α) (h : head a = none) :
    lastItems head (l ++ [a]) = lastItems head l ++ [a] :=
  List.rtakeWhile_concat_pos _ _ _ (by simp [h])

theorem lastItems_cons_head {b : α} (hb : head b = some k) (h : ∀ a ∈ l, head a = none) :
    lastItems head (b :: l) = l := by
  induction l using List.reverseRecOn with
  | nil => exact lastItems_concat_head [] hb
  | append_singleton l a ih =>
    obtain ⟨hl, ha⟩ := List.forall_mem_append.mp h
    rw [← List.cons_append, lastItems_concat _ (ha a List.mem_cons_self), ih hl]

theorem upToHead_of_none (h : ∀ a ∈ l, head a = none) : upToHead head l = l :=
  List.takeWhile_eq_self_iff.mpr fun a ha => by simp [h a ha]

/-- A head ends the items before it. -/
theorem upToHead_append_head (l m : List α) (h : head a = some k) :
    upToHead head (l ++ a :: m) = upToHead head l := by
  induction l with
  | nil => simp [upToHead, h]
  | cons b l ih =>
    simp only [upToHead, List.cons_append, List.takeWhile_cons] at ih ⊢
    rw [ih]

theorem sections_heads (head : α → Option κ) (l : List α) :
    (sections head l).map Prod.fst = l.filterMap head := by
  induction l with
  | nil => rfl
  | cons a l ih =>
    rw [sections, List.filterMap_cons]
    cases head a with
    | none => exact ih
    | some k => exact congrArg _ ih

/-- A section has a head, and what stands between it and the next one. -/
theorem mem_sections {s : κ × List α} (h : s ∈ sections head l) : ∃ before a after,
    l = before ++ a :: after ∧ head a = some s.1 ∧ s.2 = upToHead head after := by
  induction l with
  | nil => cases h
  | cons b l ih =>
    have hlater : s ∈ sections head l → ∃ before a after,
        b :: l = before ++ a :: after ∧ head a = some s.1 ∧ s.2 = upToHead head after := by
      intro hmem
      obtain ⟨before, a, after, rfl, ha, hs⟩ := ih hmem
      exact ⟨b :: before, a, after, rfl, ha, hs⟩
    rw [sections] at h
    cases hb : head b with
    | none =>
      rw [hb] at h
      exact hlater h
    | some k =>
      rw [hb] at h
      rcases List.mem_cons.mp h with rfl | h
      · exact ⟨[], b, l, rfl, hb, rfl⟩
      · exact hlater h

theorem exists_mem_sections {before after : List α} (h : head a = some k) :
    (k, upToHead head after) ∈ sections head (before ++ a :: after) := by
  induction before with
  | nil =>
    rw [List.nil_append, sections, h]
    exact List.mem_cons_self
  | cons b before ih =>
    rw [List.cons_append, sections]
    cases head b with
    | none => exact ih
    | some k' => exact List.mem_cons_of_mem _ ih

/-- The leading items and the sections are the whole list, where the heads are items themselves. -/
theorem upToHead_append_sections {head : α → Option α} (hself : ∀ a k, head a = some k → k = a)
    (l : List α) : upToHead head l ++ (sections head l).flatMap (fun s => s.1 :: s.2) = l := by
  induction l with
  | nil => rfl
  | cons a l ih =>
    rw [upToHead, List.takeWhile_cons, sections]
    cases ha : head a with
    | none => exact congrArg (a :: ·) ih
    | some k =>
      rw [hself a k ha]
      exact congrArg (a :: ·) ih

theorem sections_of_none (h : ∀ a ∈ l, head a = none) : sections head l = [] := by
  induction l with
  | nil => rfl
  | cons a l ih =>
    rw [sections, h a List.mem_cons_self]
    exact ih fun b hb => h b (List.mem_cons_of_mem a hb)

/-- A head anywhere keeps what comes later out of the leading items. -/
theorem upToHead_append {m : List α} (h : lastHead head l = some k) :
    upToHead head (l ++ m) = upToHead head l := by
  have hmem : ¬∀ a ∈ l, head a = none := fun hnone => by
    simp [lastHead_eq_none.mpr hnone] at h
  rw [upToHead, List.takeWhile_append, if_neg]
  · rfl
  · intro hlen
    refine hmem fun a ha => ?_
    have := List.takeWhile_eq_self_iff.mp ((List.takeWhile_prefix _).eq_of_length hlen) a ha
    simpa using this

theorem lastItems_append {m : List α} (h : lastHead head m = some k) :
    lastItems head (l ++ m) = lastItems head m := by
  induction m using List.reverseRecOn with
  | nil => simp at h
  | append_singleton m a ih =>
    rw [← List.append_assoc]
    cases ha : head a with
    | some k' => rw [lastItems_concat_head _ ha, lastItems_concat_head _ ha]
    | none =>
      rw [lastHead_concat, ha, Option.none_or] at h
      rw [lastItems_concat _ ha, lastItems_concat _ ha, ih h]

theorem sections_concat_head (head : α → Option κ) (l : List α) (h : head a = some k) :
    sections head (l ++ [a]) = sections head l ++ [(k, [])] := by
  induction l with
  | nil => simp [sections, h, upToHead]
  | cons b l ih =>
    rw [List.cons_append, sections, sections]
    cases head b with
    | none => exact ih
    | some k' =>
      simp only [upToHead_append_head l [] h, ih, List.cons_append]

/-- The last section is the one of the last head; an item that is appended goes there. -/
theorem sections_concat (head : α → Option κ) (l : List α) : ∃ shut,
    sections head l = shut ++ (lastHead head l).toList.map (·, lastItems head l) ∧
    ∀ a, head a = none →
      sections head (l ++ [a]) =
        shut ++ (lastHead head l).toList.map (·, lastItems head l ++ [a]) := by
  induction l with
  | nil => exact ⟨[], rfl, fun a ha => by simp [sections, ha]⟩
  | cons b l ih =>
    obtain ⟨shut, hl, hla⟩ := ih
    rw [lastHead_cons]
    cases hlast : lastHead head l with
    | some k =>
      rw [hlast] at hl hla
      have hitems : lastItems head (b :: l) = lastItems head l := lastItems_append (l := [b]) hlast
      rw [hitems, Option.some_or]
      cases hb : head b with
      | none => exact ⟨shut, by rw [sections, hb, hl], fun a ha => by
          rw [List.cons_append, sections, hb, hla a ha]⟩
      | some k' => exact ⟨(k', upToHead head l) :: shut, by simp [sections, hb, hl], fun a ha => by
          simp [sections, hb, hla a ha, upToHead_append hlast]⟩
    | none =>
      have hnone := lastHead_eq_none.mp hlast
      have hnone' : ∀ a, head a = none → ∀ c ∈ l ++ [a], head c = none := fun a ha =>
        List.forall_mem_append.mpr ⟨hnone, List.forall_mem_singleton.mpr ha⟩
      refine ⟨[], ?_, fun a ha => ?_⟩
      · cases hb : head b with
        | none => simp [sections, hb, sections_of_none hnone]
        | some k => simp [sections, hb, sections_of_none hnone, upToHead_of_none hnone,
            lastItems_cons_head hb hnone]
      · cases hb : head b with
        | none => simp [sections, hb, sections_of_none (hnone' a ha)]
        | some k => simp [sections, hb, sections_of_none (hnone' a ha),
            upToHead_of_none (hnone' a ha), lastItems_cons_head hb hnone]

end Usbip.Lib
