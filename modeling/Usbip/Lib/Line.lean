import Mathlib.Data.List.Perm.Basic
import Mathlib.Tactic.Common

/-! A line that several parties share.  What waits in it may be served out of turn, but the members
of each party are served in the order in which they came. -/

namespace Usbip.Lib

variable {α : Type*}

/-- What has come, what has been served, what waits (in the order in which it came) and what has
been struck off. -/
structure Line (α : Type*) where
  came : List α
  served : List α
  waiting : List α
  struck : List α

namespace Line

def empty : Line α := ⟨[], [], [], []⟩

/-- The members of one party come in increasing order and are served in the order in which they
came, and everything that came is in one place. -/
structure Fair (line : Line α) (lt : α → α → Prop) (party : α → Bool) : Prop where
  increasing : (line.came.filter party).Pairwise lt
  ordered : ((line.served ++ line.waiting).filter party).Sublist (line.came.filter party)
  once : line.came.Perm (line.served ++ line.waiting ++ line.struck)

variable {line : Line α} {lt : α → α → Prop} {party : α → Bool}

theorem Fair.empty : (empty : Line α).Fair lt party :=
  ⟨.nil, List.Sublist.slnil, .nil⟩

theorem Fair.waiting_increasing (h : line.Fair lt party) :
    (line.waiting.filter party).Pairwise lt := by
  refine h.increasing.sublist (List.Sublist.trans ?_ h.ordered)
  exact (List.sublist_append_right _ _).filter party

theorem Fair.enter (h : line.Fair lt party) {a : α}
    (hlast : party a → ∀ b ∈ line.came, party b → lt b a) :
    { line with came := line.came ++ [a], waiting := line.waiting ++ [a] }.Fair lt party where
  increasing := by
    rw [List.filter_append, List.pairwise_append]
    refine ⟨h.increasing, List.Pairwise.filter _ (List.pairwise_singleton _ _), fun b hb x hx => ?_⟩
    obtain ⟨hbmem, hbp⟩ := List.mem_filter.mp hb
    obtain ⟨hxmem, hxp⟩ := List.mem_filter.mp hx
    obtain rfl := List.mem_singleton.mp hxmem
    exact hlast hxp b hbmem hbp
  ordered := by
    have hcame : (line.came ++ [a]).filter party = line.came.filter party ++ [a].filter party :=
      List.filter_append ..
    dsimp only
    rw [← List.append_assoc, List.filter_append, hcame]
    exact h.ordered.append (List.Sublist.refl _)
  once := by
    have hcons : (line.served ++ (line.waiting ++ [a]) ++ line.struck).Perm
        ((line.served ++ line.waiting ++ line.struck) ++ [a]) := by
      simp only [List.append_assoc]
      exact ((List.perm_append_comm.append_left _).append_left _)
    exact (h.once.append_right [a]).trans hcons.symm

/-- What waits is put in another order that does not touch the order of the party. -/
theorem Fair.reorder (h : line.Fair lt party) {waiting : List α}
    (hsame : waiting.filter party = line.waiting.filter party) (hperm : waiting.Perm line.waiting) :
    { line with waiting }.Fair lt party where
  increasing := h.increasing
  ordered := by
    rw [List.filter_append, hsame, ← List.filter_append]
    exact h.ordered
  once := h.once.trans ((hperm.symm.append_left _).append_right _)

theorem Fair.serve (h : line.Fair lt party) {a : α} {rest : List α}
    (hfirst : line.waiting = a :: rest) :
    { line with served := line.served ++ [a], waiting := rest }.Fair lt party := by
  have hsame : line.served ++ [a] ++ rest = line.served ++ line.waiting := by
    rw [hfirst, List.append_assoc]
    rfl
  refine ⟨h.increasing, ?_, ?_⟩
  · dsimp only
    rw [hsame]
    exact h.ordered
  · dsimp only
    rw [hsame]
    exact h.once

theorem Fair.strike (h : line.Fair lt party) {waiting gone : List α}
    (hsub : waiting.Sublist line.waiting) (hperm : line.waiting.Perm (waiting ++ gone)) :
    { line with waiting, struck := line.struck ++ gone }.Fair lt party where
  increasing := h.increasing
  ordered := ((hsub.append_left _).filter party).trans h.ordered
  once := by
    refine h.once.trans ?_
    have hmove : (line.served ++ (waiting ++ gone) ++ line.struck).Perm
        (line.served ++ waiting ++ (line.struck ++ gone)) := by
      simp only [List.append_assoc]
      exact (List.perm_append_comm.append_left _).append_left _
    exact ((hperm.append_left _).append_right _).trans hmove

end Line

end Usbip.Lib
