/-
# Code that can panic

An index into a vector, `last().unwrap()`, and the sum or difference of two unsigned integers
stop the program when they are out of range.  Here each of them answers in `Except Panic`, so
code that is written with them answers `.ok` if and only if it meets no such place.

Each has one lemma for what it answers in range.  `foldlM_ok` is the rule of a loop: what
holds before it and is kept by iterations that do not panic.
-/

import Mathlib.Algebra.Group.Nat.Defs
import Quosh.Control.ForRange

namespace Quosh

/-- What stops the program: an index, a value that is not there, or arithmetic. -/
inductive Panic where
  | index
  | missing
  | overflow
  | underflow
  deriving DecidableEq, Repr

namespace Panic

variable {α β ε : Type}

/-- `xs[i]`. -/
def get (xs : List α) (i : ℕ) : Except Panic α :=
  match xs[i]? with
  | some a => .ok a
  | none => .error .index

/-- `xs[i] = f(xs[i])`. -/
def update (xs : List α) (i : ℕ) (f : α → α) : Except Panic (List α) :=
  if i < xs.length then .ok (xs.modify i f) else .error .index

/-- `xs[i..i + n]`. -/
def slice (xs : List α) (i n : ℕ) : Except Panic (List α) :=
  if i + n ≤ xs.length then .ok ((xs.drop i).take n) else .error .index

/-- `xs.last().unwrap()`. -/
def last (xs : List α) : Except Panic α :=
  match xs.getLast? with
  | some a => .ok a
  | none => .error .missing

/-- `a + b` in `w` bits. -/
def add (w a b : ℕ) : Except Panic ℕ := if a + b < 2 ^ w then .ok (a + b) else .error .overflow

/-- `a - b`. -/
def sub (a b : ℕ) : Except Panic ℕ := if b ≤ a then .ok (a - b) else .error .underflow

/-- What ends normally goes on. -/
@[simp] theorem ok_bind (a : α) (f : α → Except ε β) : (Except.ok a >>= f) = f a := rfl

/-- An entry that is there. -/
theorem get_ok {xs : List α} {i : ℕ} {a : α} (h : xs[i]? = some a) : get xs i = .ok a := by
  rw [get, h]

/-- An entry that is there is updated. -/
theorem update_ok {xs : List α} {i : ℕ} (h : i < xs.length) (f : α → α) :
    update xs i f = .ok (xs.modify i f) :=
  if_pos h

/-- A slice that is there. -/
theorem slice_ok {xs : List α} {i n : ℕ} (h : i + n ≤ xs.length) :
    slice xs i n = .ok ((xs.drop i).take n) :=
  if_pos h

/-- The last entry, if there is one. -/
theorem last_ok {xs : List α} {a : α} (h : xs.getLast? = some a) : last xs = .ok a := by
  rw [last, h]

/-- A sum that fits. -/
theorem add_ok {w a b : ℕ} (h : a + b < 2 ^ w) : add w a b = .ok (a + b) := if_pos h

/-- A difference that is none below zero. -/
theorem sub_ok {a b : ℕ} (h : b ≤ a) : sub a b = .ok (a - b) := if_pos h

/-- **A loop that does not panic**: every iteration goes as `g` says, and keeps what the next
one relies on. -/
theorem foldlM_ok {f : β → α → Except ε β} {g : β → α → β} (I : β → Prop) {l : List α} {b : β}
    (hb : I b) (h : ∀ b a, a ∈ l → I b → f b a = .ok (g b a) ∧ I (g b a)) :
    l.foldlM f b = .ok (l.foldl g b) ∧ I (l.foldl g b) := by
  induction l generalizing b with
  | nil => exact ⟨rfl, hb⟩
  | cons a l ih =>
    obtain ⟨heq, hkept⟩ := h b a List.mem_cons_self hb
    rw [List.foldlM_cons, heq]
    exact ih hkept fun b a ha => h b a (List.mem_cons_of_mem _ ha)

/-- A search that does not panic. -/
theorem anyM_ok {f : α → Except ε Bool} {g : α → Bool} {l : List α}
    (h : ∀ a ∈ l, f a = .ok (g a)) : l.anyM f = .ok (l.any g) := by
  induction l with
  | nil => rfl
  | cons a l ih =>
    have hrest := ih fun a ha => h a (List.mem_cons_of_mem _ ha)
    rw [List.anyM, h a List.mem_cons_self, ok_bind, hrest, List.any_cons]
    cases g a <;> rfl

/-- **A counted loop that does not panic**: it goes on and leaves as another loop does, whose
outcomes `f` names. -/
theorem forRange_ok {ε' : Type} {f : ε → ε'} {n : ℕ} {body : ℕ → α → Except ε' α}
    {body' : ℕ → α → Except ε α} {s : α} (I : ℕ → α → Prop) (hinit : I 0 s)
    (hstep : ∀ i a, i < n → I i a → body i a = (body' i a).mapError f ∧
      Ends (body' i a) (fun _ => True) (I (i + 1))) :
    forRange n body s = (forRange n body' s).mapError f ∧
      Ends (forRange n body' s) (fun _ => True) (I n) := by
  induction n with
  | zero => exact ⟨rfl, hinit⟩
  | succ n ih =>
    obtain ⟨heq, hends⟩ := ih fun i a hi => hstep i a (Nat.lt_succ_of_lt hi)
    rw [forRange_succ, forRange_succ, heq]
    cases hloop : forRange n body' s with
    | error e => exact ⟨rfl, trivial⟩
    | ok a =>
      rw [hloop] at hends
      exact hstep n a (Nat.lt_succ_self n) hends

end Panic
end Quosh
