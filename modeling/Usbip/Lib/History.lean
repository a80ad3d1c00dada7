import Mathlib.Data.List.Basic
import Mathlib.Tactic.Common

/-! Logs in which every event is one that may happen after those before it. -/

namespace Usbip.Lib

variable {ε : Type*} {allowed : List ε → ε → Prop} {log : List ε}

def Lawful (allowed : List ε → ε → Prop) (log : List ε) : Prop :=
  ∀ before e after, log = before ++ e :: after → allowed before e

theorem Lawful.nil : Lawful allowed [] := by
  intro before e after heq
  simp at heq

theorem Lawful.concat {e : ε} (h : Lawful allowed log) (he : allowed log e) :
    Lawful allowed (log ++ [e]) := by
  intro before e' after heq
  rcases List.eq_nil_or_concat after with rfl | ⟨after', last, rfl⟩
  · obtain ⟨rfl, hlast⟩ := List.append_inj' heq rfl
    cases hlast
    exact he
  · rw [List.concat_eq_append, ← List.cons_append, ← List.append_assoc] at heq
    obtain ⟨hlog, -⟩ := List.append_inj' heq rfl
    exact h before e' after' hlog

end Usbip.Lib
