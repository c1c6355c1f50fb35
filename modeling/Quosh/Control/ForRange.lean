/-
# Counted loops that can leave early

`for i in 0..n { … return …; }` as a fold in `Except`: an iteration either goes
on with a new state or leaves with a result.  `Ends x E Q` says what is known
of either outcome, and `forRange_ends` is the invariant rule of the loop.
-/

import Mathlib.Data.List.Basic
import Mathlib.Data.Nat.Notation

namespace Quosh

variable {ε α β : Type}

/-- `x` leaves early with an outcome in `E`, or ends normally with one in `Q`. -/
def Ends (x : Except ε α) (E : ε → Prop) (Q : α → Prop) : Prop :=
  match x with
  | .ok a => Q a
  | .error e => E e

/-- Weaker outcomes. -/
theorem Ends.mono {x : Except ε α} {E E' : ε → Prop} {Q Q' : α → Prop} (h : Ends x E Q)
    (hE : ∀ e, E e → E' e) (hQ : ∀ a, Q a → Q' a) : Ends x E' Q' := by
  cases x with
  | ok a => exact hQ a h
  | error e => exact hE e h

/-- Two outcomes. -/
theorem Ends.and {x : Except ε α} {E E' : ε → Prop} {Q Q' : α → Prop} (h : Ends x E Q)
    (h' : Ends x E' Q') : Ends x (fun e => E e ∧ E' e) fun a => Q a ∧ Q' a := by
  cases x with
  | ok a => exact ⟨h, h'⟩
  | error e => exact ⟨h, h'⟩

/-- One computation behind the other. -/
theorem Ends.bind {x : Except ε α} {f : α → Except ε β} {E : ε → Prop} {Q : α → Prop}
    {R : β → Prop} (h : Ends x E Q) (hf : ∀ a, Q a → Ends (f a) E R) : Ends (x >>= f) E R := by
  cases x with
  | ok a => exact hf a h
  | error e => exact h

/-- `for i in 0..n`, with a body that may leave. -/
def forRange (n : ℕ) (body : ℕ → α → Except ε α) (s : α) : Except ε α :=
  (List.range n).foldlM (fun s i => body i s) s

/-- One more round. -/
theorem forRange_succ (n : ℕ) (body : ℕ → α → Except ε α) (s : α) :
    forRange (n + 1) body s = forRange n body s >>= body n := by
  rw [forRange, List.range_succ, List.foldlM_append]
  refine congrArg (forRange n body s >>= ·) (funext fun a => ?_)
  rw [List.foldlM_cons]
  cases body n a <;> rfl

/-- **The invariant rule**: what holds before the loop and is kept by every
iteration that goes on holds after it; what every iteration that leaves
establishes holds if the loop leaves. -/
theorem forRange_ends {n : ℕ} {body : ℕ → α → Except ε α} {s : α} {E : ε → Prop}
    (I : ℕ → α → Prop) (hinit : I 0 s)
    (hstep : ∀ i a, i < n → I i a → Ends (body i a) E (I (i + 1))) :
    Ends (forRange n body s) E (I n) := by
  induction n with
  | zero => exact hinit
  | succ n ih =>
    rw [forRange_succ]
    exact (ih fun i a hi => hstep i a (by omega)).bind fun a => hstep n a (by omega)

end Quosh
