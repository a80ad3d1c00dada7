import Usbip.Lib.Paths

/-! Trees as functions from paths to nodes, and the copy of one tree into another. -/

namespace Usbip.Lib

open Classical

variable {α γ : Type*} (sep : α)

/-- `F` with what `G` has at `p` and below it, put at `d`. -/
noncomputable def graft (F : List α → Option γ) (d : List α) (G : List α → Option γ) (p : List α) :
    List α → Option γ :=
  fun q => if Under sep d q then G (p ++ q.drop d.length) else F q

variable {sep} {F F' G : List α → Option γ} {d p q n : List α}

theorem graft_of_under (h : Under sep d q) : graft sep F d G p q = G (p ++ q.drop d.length) :=
  if_pos h

theorem graft_of_not_under (h : ¬Under sep d q) : graft sep F d G p q = F q := if_neg h

/-- The copy has below its root what the original has below its own. -/
theorem graft_append {r : List α} (hr : r = [] ∨ ∃ s, r = sep :: s) :
    graft sep F d G p (d ++ r) = G (p ++ r) := by
  rw [graft_of_under ⟨r, rfl, hr⟩, List.drop_left]

/-- What is below an entry, from the root of the copy and from the copy of the entry. -/
theorem drop_under_joinPath (hd : d ≠ []) (hp : p ≠ []) (h : Under sep (joinPath sep d n) q) :
    joinPath sep p n ++ q.drop (joinPath sep d n).length = p ++ q.drop d.length := by
  obtain ⟨r, rfl, -⟩ := h
  rw [List.drop_left, joinPath_of_ne_nil hd, joinPath_of_ne_nil hp, List.append_assoc,
    List.append_assoc, List.drop_left]

/-- Copies of some entries of a directory, one after the other. -/
theorem foldl_graft (hd : d ≠ []) (hp : p ≠ []) (ns : List (List α)) (q : List α) :
    ns.foldl (fun F n => graft sep F (joinPath sep d n) G (joinPath sep p n)) F q =
      if ∃ n ∈ ns, Under sep (joinPath sep d n) q then G (p ++ q.drop d.length) else F q := by
  induction ns generalizing F with
  | nil => exact (if_neg (by simp)).symm
  | cons n ns ih =>
    rw [List.foldl_cons, ih]
    by_cases hns : ∃ n' ∈ ns, Under sep (joinPath sep d n') q
    · obtain ⟨n', hn', hunder⟩ := hns
      rw [if_pos ⟨n', hn', hunder⟩, if_pos ⟨n', List.mem_cons_of_mem n hn', hunder⟩]
    · rw [if_neg hns]
      by_cases hn : Under sep (joinPath sep d n) q
      · rw [graft_of_under hn, if_pos ⟨n, List.mem_cons_self, hn⟩, drop_under_joinPath hd hp hn]
      · rw [graft_of_not_under hn, if_neg]
        rintro ⟨n', hn', hunder⟩
        rcases List.mem_cons.mp hn' with rfl | hn'
        · exact hn hunder
        · exact hns ⟨n', hn', hunder⟩

/-- A directory with nothing in it, and then copies of all the entries of another one: a copy of
that one. -/
theorem foldl_graft_dir (hd : d ≠ []) (hp : p ≠ []) {ns : List (List α)} (hroot : F' d = G p)
    (hbelow : ∀ s, F' (d ++ sep :: s) = none) (hother : ∀ q, ¬Under sep d q → F' q = F q)
    (hentries : ∀ s, G (p ++ sep :: s) ≠ none →
      ∃ n ∈ ns, Under sep (joinPath sep p n) (p ++ sep :: s)) :
    ns.foldl (fun F n => graft sep F (joinPath sep d n) G (joinPath sep p n)) F' =
      graft sep F d G p := by
  funext q
  rw [foldl_graft hd hp]
  by_cases hq : Under sep d q
  · rw [graft_of_under hq]
    split
    · rfl
    · next hnone =>
      obtain ⟨r, rfl, rfl | ⟨s, rfl⟩⟩ := hq
      · rw [List.append_nil, hroot, List.drop_length, List.append_nil]
      · rw [hbelow, List.drop_left]
        by_contra hG
        obtain ⟨n, hn, r, hr, hsep⟩ := hentries s (Ne.symm hG)
        refine hnone ⟨n, hn, r, ?_, hsep⟩
        rw [joinPath_of_ne_nil hp, List.append_assoc] at hr
        rw [joinPath_of_ne_nil hd, List.append_assoc, List.append_cancel_left hr]
  · rw [graft_of_not_under hq, if_neg, hother q hq]
    rintro ⟨n, -, hunder⟩
    exact hq (hunder.of_joinPath hd)

/-- A copy of what is a single node. -/
theorem graft_node (hroot : F' d = G p) (hbelow : ∀ s, F' (d ++ sep :: s) = none)
    (hother : ∀ q, ¬Under sep d q → F' q = F q) (hG : ∀ s, G (p ++ sep :: s) = none) :
    F' = graft sep F d G p := by
  funext q
  by_cases hq : Under sep d q
  · rw [graft_of_under hq]
    obtain ⟨r, rfl, rfl | ⟨s, rfl⟩⟩ := hq
    · rw [List.append_nil, hroot, List.drop_length, List.append_nil]
    · rw [hbelow, List.drop_left, hG]
  · rw [graft_of_not_under hq, hother q hq]

end Usbip.Lib
