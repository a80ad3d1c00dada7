import Mathlib.Data.List.Induction
import Mathlib.Tactic.Common

/-! Runs of a partial deterministic step function: `exec` follows a list of actions, `Throughout`
and `Guarded` speak about every moment of a run, and the rules below carry what one step preserves
to whole runs. -/

namespace Usbip.Lib

variable {σ α : Type*} {f : σ → α → Option σ}

/-- The state after the actions, or `none` when one of them cannot be taken. -/
def exec (f : σ → α → Option σ) : σ → List α → Option σ
  | s, [] => some s
  | s, a :: as => (f s a).bind fun t => exec f t as

/-- `P` holds at the start and after each action. -/
def Throughout (f : σ → α → Option σ) (P : σ → Prop) : σ → List α → Prop
  | s, [] => P s
  | s, a :: as => P s ∧ ∀ t, f s a = some t → Throughout f P t as

/-- `C` holds of each action and the state in which it is taken. -/
def Guarded (f : σ → α → Option σ) (C : σ → α → Prop) : σ → List α → Prop
  | _, [] => True
  | s, a :: as => C s a ∧ ∀ t, f s a = some t → Guarded f C t as

/-- A condition that can be decided of each step can be decided of a run. -/
instance Guarded.decidable (f : σ → α → Option σ) (C : σ → α → Prop) [∀ s a, Decidable (C s a)] :
    ∀ s as, Decidable (Guarded f C s as)
  | _, [] => isTrue trivial
  | s, a :: as =>
    have : Decidable (∀ t, f s a = some t → Guarded f C t as) :=
      match f s a with
      | none => isTrue fun _ h => nomatch h
      | some t =>
        match Guarded.decidable f C t as with
        | isTrue hg => isTrue fun _ h => Option.some.inj h ▸ hg
        | isFalse hg => isFalse fun h => hg (h t rfl)
    inferInstanceAs (Decidable (C s a ∧ ∀ t, f s a = some t → Guarded f C t as))

@[simp] theorem exec_nil (s : σ) : exec f s [] = some s := rfl

theorem exec_cons (s : σ) (a : α) (as : List α) :
    exec f s (a :: as) = (f s a).bind fun t => exec f t as := rfl

theorem exec_append (s : σ) (as bs : List α) :
    exec f s (as ++ bs) = (exec f s as).bind fun t => exec f t bs := by
  induction as generalizing s with
  | nil => rfl
  | cons a as ih =>
    rw [List.cons_append, exec_cons, exec_cons, Option.bind_assoc]
    congr 1
    funext t
    exact ih t

theorem exec_cons_some {s u : σ} {a : α} {as : List α} (h : exec f s (a :: as) = some u) :
    ∃ t, f s a = some t ∧ exec f t as = some u :=
  Option.bind_eq_some_iff.mp h

/-- What holds at the start and is kept by every step holds at the end. -/
theorem exec_invariant {I : σ → Prop} (keep : ∀ s a t, I s → f s a = some t → I t) {s u : σ}
    {as : List α} (hs : I s) (h : exec f s as = some u) : I u := by
  induction as generalizing s with
  | nil => cases h; exact hs
  | cons a as ih =>
    obtain ⟨t, hst, htu⟩ := exec_cons_some h
    exact ih (keep s a t hs hst) htu

/-- The same, for the runs whose actions all meet a condition. -/
theorem guarded_invariant {I : σ → Prop} {C : σ → α → Prop}
    (keep : ∀ s a t, I s → C s a → f s a = some t → I t) {s u : σ} {as : List α} (hs : I s)
    (hg : Guarded f C s as) (h : exec f s as = some u) : I u := by
  induction as generalizing s with
  | nil => cases h; exact hs
  | cons a as ih =>
    obtain ⟨t, hst, htu⟩ := exec_cons_some h
    exact ih (keep s a t hs hg.1 hst) (hg.2 t hst) htu

theorem Guarded.of_forall {C : α → Prop} {as : List α} (h : ∀ a ∈ as, C a) (s : σ) :
    Guarded f (fun _ a => C a) s as := by
  induction as generalizing s with
  | nil => trivial
  | cons a as ih =>
    obtain ⟨ha, has⟩ := List.forall_mem_cons.mp h
    exact ⟨ha, fun t _ => ih has t⟩

theorem Guarded.and {C D : σ → α → Prop} {s : σ} {as : List α} (hC : Guarded f C s as)
    (hD : Guarded f D s as) : Guarded f (fun s a => C s a ∧ D s a) s as := by
  induction as generalizing s with
  | nil => trivial
  | cons a as ih => exact ⟨⟨hC.1, hD.1⟩, fun t hst => ih (hC.2 t hst) (hD.2 t hst)⟩

theorem Guarded.left_of_append {C : σ → α → Prop} {s : σ} {as bs : List α}
    (h : Guarded f C s (as ++ bs)) : Guarded f C s as := by
  induction as generalizing s with
  | nil => trivial
  | cons a as ih => exact ⟨h.1, fun t hst => ih (h.2 t hst)⟩

theorem Guarded.at {C : σ → α → Prop} {s t : σ} {as bs : List α} {a : α}
    (h : Guarded f C s (as ++ a :: bs)) (hs : exec f s as = some t) : C t a := by
  induction as generalizing s with
  | nil => cases hs; exact h.1
  | cons b as ih =>
    obtain ⟨u, hsu, hut⟩ := exec_cons_some hs
    exact ih (h.2 u hsu) hut

theorem Throughout.first {P : σ → Prop} {s : σ} {as : List α} (h : Throughout f P s as) : P s := by
  cases as with
  | nil => exact h
  | cons a as => exact h.1

theorem throughout_of_guarded {I P : σ → Prop} {C : σ → α → Prop} (hP : ∀ s, I s → P s)
    (keep : ∀ s a t, I s → C s a → f s a = some t → I t) {s : σ} {as : List α} (hs : I s)
    (hg : Guarded f C s as) : Throughout f P s as := by
  induction as generalizing s with
  | nil => exact hP s hs
  | cons a as ih =>
    exact ⟨hP s hs, fun t hst => ih (keep s a t hs hg.1 hst) (hg.2 t hst)⟩

/-- In a run that meets `D`, when a step that meets `C` keeps the invariant and one that does not
breaks `P`, the run stays in `P` exactly when all its steps meet `C`. -/
theorem throughout_iff_guarded_of {I P : σ → Prop} {C D : σ → α → Prop} (hP : ∀ s, I s → P s)
    (keep : ∀ s a t, I s → D s a → C s a → f s a = some t → I t)
    (break_ : ∀ s a t, I s → D s a → ¬C s a → f s a = some t → ¬P t) {s u : σ} {as : List α}
    (hs : I s) (hD : Guarded f D s as) (h : exec f s as = some u) :
    Throughout f P s as ↔ Guarded f C s as := by
  induction as generalizing s with
  | nil => exact ⟨fun _ => trivial, fun _ => hP s hs⟩
  | cons a as ih =>
    obtain ⟨t, hst, htu⟩ := exec_cons_some h
    have hrest := fun hC => ih (keep s a t hs hD.1 hC hst) (hD.2 t hst) htu
    constructor
    · intro ht
      have hC : C s a := by
        by_contra hC
        refine break_ s a t hs hD.1 hC hst ?_
        exact (ht.2 t hst).first
      refine ⟨hC, fun t' hst' => ?_⟩
      obtain rfl : t = t' := Option.some.inj (hst.symm.trans hst')
      exact (hrest hC).mp (ht.2 t hst)
    · rintro ⟨hC, hg⟩
      refine ⟨hP s hs, fun t' hst' => ?_⟩
      obtain rfl : t = t' := Option.some.inj (hst.symm.trans hst')
      exact (hrest hC).mpr (hg t hst)

/-- When a step that meets `C` keeps the invariant and one that does not breaks `P`, a run stays
in `P` exactly when all its steps meet `C`. -/
theorem throughout_iff_guarded {I P : σ → Prop} {C : σ → α → Prop} (hP : ∀ s, I s → P s)
    (keep : ∀ s a t, I s → C s a → f s a = some t → I t)
    (break_ : ∀ s a t, I s → ¬C s a → f s a = some t → ¬P t) {s u : σ} {as : List α}
    (hs : I s) (h : exec f s as = some u) : Throughout f P s as ↔ Guarded f C s as :=
  throughout_iff_guarded_of (D := fun _ _ => True) hP (fun s a t hi _ => keep s a t hi)
    (fun s a t hi _ => break_ s a t hi) hs (.of_forall (fun _ _ => trivial) s) h

/-- In a run that meets `D`, when a step that meets `C` keeps the invariant `I`, one that does not
leads to `B`, and no step leads out of `B`, the run ends in `I` if all its steps meet `C` and in `B`
if not. -/
theorem exec_split {I B : σ → Prop} {C D : σ → α → Prop}
    (keep : ∀ s a t, I s → D s a → C s a → f s a = some t → I t)
    (lose : ∀ s a t, I s → D s a → ¬C s a → f s a = some t → B t)
    (stay : ∀ s a t, B s → D s a → f s a = some t → B t) {s u : σ} {as : List α} (hs : I s)
    (hD : Guarded f D s as) (h : exec f s as = some u) :
    (Guarded f C s as ∧ I u) ∨ (¬Guarded f C s as ∧ B u) := by
  induction as generalizing s with
  | nil =>
    cases h
    exact Or.inl ⟨trivial, hs⟩
  | cons a as ih =>
    obtain ⟨t, hst, htu⟩ := exec_cons_some h
    by_cases hC : C s a
    · rcases ih (keep s a t hs hD.1 hC hst) (hD.2 t hst) htu with ⟨hg, hu⟩ | ⟨hg, hu⟩
      · refine Or.inl ⟨⟨hC, fun t' hst' => ?_⟩, hu⟩
        obtain rfl : t = t' := Option.some.inj (hst.symm.trans hst')
        exact hg
      · exact Or.inr ⟨fun h => hg (h.2 t hst), hu⟩
    · refine Or.inr ⟨fun h => hC h.1, ?_⟩
      exact guarded_invariant stay (lose s a t hs hD.1 hC hst) (hD.2 t hst) htu

/-- Of actions that meet `D`: when one that meets `C` can be taken and keeps the invariant, and one
that does not breaks `P` or cannot be taken, those that all meet `C` are those of the runs that go
through and stay in `P`. -/
theorem succeeds_iff_forall {I P : σ → Prop} {C D : α → Prop} (hP : ∀ s, I s → P s)
    (keep : ∀ s a, I s → D a → C a → ∃ t, f s a = some t ∧ I t)
    (break_ : ∀ s a t, I s → D a → ¬C a → f s a = some t → ¬P t) {s : σ} (hs : I s)
    {as : List α} (hD : ∀ a ∈ as, D a) :
    (∃ u, exec f s as = some u) ∧ Throughout f P s as ↔ ∀ a ∈ as, C a := by
  induction as generalizing s with
  | nil => exact iff_of_true ⟨⟨s, rfl⟩, hP s hs⟩ fun _ h => absurd h List.not_mem_nil
  | cons a as ih =>
    obtain ⟨hDa, hD⟩ := List.forall_mem_cons.mp hD
    rw [List.forall_mem_cons]
    constructor
    · rintro ⟨⟨u, hu⟩, -, hrest⟩
      obtain ⟨t, hst, htu⟩ := exec_cons_some hu
      have ha : C a := by
        by_contra ha
        exact break_ s a t hs hDa ha hst (hrest t hst).first
      obtain ⟨t', hst', ht⟩ := keep s a hs hDa ha
      obtain rfl : t = t' := Option.some.inj (hst.symm.trans hst')
      exact ⟨ha, (ih ht hD).mp ⟨⟨u, htu⟩, hrest t hst⟩⟩
    · rintro ⟨ha, has⟩
      obtain ⟨t, hst, ht⟩ := keep s a hs hDa ha
      obtain ⟨⟨u, hu⟩, hrest⟩ := (ih ht hD).mpr has
      refine ⟨⟨u, by rw [exec_cons, hst]; exact hu⟩, hP s hs, fun t' hst' => ?_⟩
      obtain rfl : t = t' := Option.some.inj (hst.symm.trans hst')
      exact hrest

/-- When two conditions agree wherever an invariant holds that the steps meeting them keep, the same
runs meet them. -/
theorem guarded_congr {I : σ → Prop} {C D : σ → α → Prop} (hCD : ∀ s a, I s → (C s a ↔ D s a))
    (keep : ∀ s a t, I s → D s a → f s a = some t → I t) {s : σ} {as : List α} (hs : I s) :
    Guarded f C s as ↔ Guarded f D s as := by
  induction as generalizing s with
  | nil => rfl
  | cons a as ih =>
    rw [Guarded, Guarded, hCD s a hs]
    exact and_congr_right fun hD => forall₂_congr fun t hst => ih (keep s a t hs hD hst)

/-- When a step that meets `C` from an invariant state meets `D` and keeps the invariant, a run that
meets `C` meets `D`. -/
theorem Guarded.imp {I : σ → Prop} {C D : σ → α → Prop}
    (step : ∀ s a, I s → C s a → D s a ∧ ∀ t, f s a = some t → I t) {s : σ} {as : List α}
    (hs : I s) (hg : Guarded f C s as) : Guarded f D s as := by
  induction as generalizing s with
  | nil => trivial
  | cons a as ih =>
    obtain ⟨hD, keep⟩ := step s a hs hg.1
    exact ⟨hD, fun t hst => ih (keep t hst) (hg.2 t hst)⟩

/-- A relation that every step keeps between two states, it keeps between two runs. -/
theorem exec_rel {R : σ → σ → Prop} (keep : ∀ s t a, R s t → Option.Rel R (f s a) (f t a))
    {s t : σ} {as : List α} (h : R s t) : Option.Rel R (exec f s as) (exec f t as) := by
  induction as generalizing s t with
  | nil => exact .some h
  | cons a as ih =>
    rw [exec_cons, exec_cons]
    cases hs : f s a <;> cases ht : f t a <;> have := keep s t a h <;> rw [hs, ht] at this
    · exact .none
    · cases this
    · cases this
    · exact ih (Option.rel_some_some.mp this)

theorem exec_concat {s t : σ} {as : List α} (h : exec f s as = some t) (a : α) :
    exec f s (as ++ [a]) = f t a := by
  rw [exec_append, h, Option.bind_some, exec_cons]
  cases f t a <;> rfl

theorem Throughout.concat {P : σ → Prop} {s t u : σ} {as : List α} {a : α}
    (hP : Throughout f P s as) (h : exec f s as = some t) (ha : f t a = some u) (hu : P u) :
    Throughout f P s (as ++ [a]) := by
  induction as generalizing s with
  | nil =>
    cases h
    refine ⟨hP, fun v hv => ?_⟩
    obtain rfl : u = v := Option.some.inj (ha.symm.trans hv)
    exact hu
  | cons b as ih =>
    obtain ⟨v, hsv, hvt⟩ := exec_cons_some h
    refine ⟨hP.1, fun w hw => ?_⟩
    obtain rfl : v = w := Option.some.inj (hsv.symm.trans hw)
    exact ih (hP.2 v hsv) hvt

/-- What holds at the start, and is kept by a step after any run that meets a condition, holds after
every such run. -/
theorem exec_history {I : List α → σ → Prop} {C : σ → α → Prop} {s : σ} (hs : I [] s)
    (keep : ∀ as t a u, exec f s as = some t → I as t → C t a → f t a = some u → I (as ++ [a]) u)
    {as : List α} {t : σ} (hg : Guarded f C s as) (h : exec f s as = some t) : I as t := by
  induction as using List.reverseRecOn generalizing t with
  | nil => cases h; exact hs
  | append_singleton as a ih =>
    rw [exec_append] at h
    obtain ⟨u, hu, hut⟩ := Option.bind_eq_some_iff.mp h
    obtain ⟨v, hv, hvt⟩ := exec_cons_some hut
    cases hvt
    exact keep as u a _ hu (ih hg.left_of_append hu) (hg.at hu) hv

theorem Throughout.last {P : σ → Prop} {s u : σ} {as : List α} (ht : Throughout f P s as)
    (h : exec f s as = some u) : P u := by
  induction as generalizing s with
  | nil => cases h; exact ht
  | cons a as ih =>
    obtain ⟨t, hst, htu⟩ := exec_cons_some h
    exact ih (ht.2 t hst) htu

end Usbip.Lib
