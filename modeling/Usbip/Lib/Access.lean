import Usbip.Lib.Buffer

/-! What a handler does to the buffer that it is called with: the reads and writes in order.  Some
bytes of the buffer are supplied at the start; every other byte may be read only after it is
written. -/

namespace Usbip.Lib

inductive Access
  | read (off n : Nat)
  | write (w : Store)
  deriving DecidableEq, Repr

/-- The access stays in a buffer; one of no bytes touches nothing. -/
def Access.Inside (cap : Nat) : Access → Prop
  | .read off n => n = 0 ∨ off + n ≤ cap
  | .write w => w.Inside cap

theorem Access.Inside.mono {cap cap' : Nat} (h : cap ≤ cap') :
    ∀ {a : Access}, a.Inside cap → a.Inside cap'
  | .read _ _, ha => ha.imp_right fun ha => Nat.le_trans ha h
  | .write _, ha => ha.imp_right fun ha => Nat.le_trans ha h

/-- A call of a handler: its accesses, the state that it leaves, and what it returns. -/
structure Handled (σ : Type) where
  accesses : List Access
  state : σ
  rc : Int

/-- The same call of a handler whose state is part of another one. -/
def Handled.map {σ τ : Type} (f : σ → τ) (h : Handled σ) : Handled τ :=
  ⟨h.accesses, f h.state, h.rc⟩

/-- Every access stays in a buffer of `cap` bytes, and every byte that is read was supplied or has
been written before. -/
def Disciplined (cap : Nat) (supplied : Nat → Prop) : List Access → Prop
  | [] => True
  | .read off n :: rest =>
    (∀ i, off ≤ i → i < off + n → i < cap ∧ supplied i) ∧ Disciplined cap supplied rest
  | .write w :: rest =>
    w.Inside cap ∧ Disciplined cap (fun i => supplied i ∨ w.off ≤ i ∧ i < w.stop) rest

namespace Disciplined

variable {cap b : Nat} {supplied : Nat → Prop} {ws : List Store} {rest : List Access}

theorem reads_iff {n : Nat} (hsup : ∀ i, supplied i ↔ i < n) (hn : n ≤ cap) (off k : Nat) :
    Disciplined cap supplied (.read off k :: rest) ↔
      (k = 0 ∨ off + k ≤ n) ∧ Disciplined cap supplied rest := by
  have : (∀ i, off ≤ i → i < off + k → i < cap ∧ supplied i) ↔ k = 0 ∨ off + k ≤ n := by
    constructor
    · intro h
      by_contra hk
      have := (hsup _).mp (h (off + k - 1) (by omega) (by omega)).2
      omega
    · intro h i hi hi'
      exact ⟨by omega, (hsup i).mpr (by omega)⟩
  rw [Disciplined, this]

end Disciplined

end Usbip.Lib
