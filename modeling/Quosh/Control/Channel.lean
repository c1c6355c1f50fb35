/-
# Bounded channels

A queue of messages with a capacity, from senders to one receiver.  A message that finds the
queue full comes back, and so does one that finds the receiver gone.  `log` is what was
accepted, in its order, whatever became of it.
-/

import Mathlib.Data.List.Basic

namespace Quosh

/-- A channel: its capacity, what is in it, whether the receiver is gone, and all that it has
accepted. -/
structure Channel (α : Type) where
  cap : ℕ
  queue : List α := []
  closed : Bool := false
  log : List α := []

/-- How a send ends that does not wait. -/
inductive Sending where
  | sent
  | full
  | closed
  deriving DecidableEq

namespace Channel

variable {α : Type}

/-- A message would be accepted. -/
def Accepts (c : Channel α) : Prop := c.closed = false ∧ c.queue.length < c.cap

/-- A send that does not wait. -/
def trySend (c : Channel α) (a : α) : Sending × Channel α :=
  if c.closed then (.closed, c)
  else if c.queue.length < c.cap then
    (.sent, { c with queue := c.queue ++ [a], log := c.log ++ [a] })
  else (.full, c)

/-- The receiver takes a message. -/
def recv (c : Channel α) : Channel α := { c with queue := c.queue.tail }

/-- The receiver is gone, and what is in the channel with it. -/
def close (c : Channel α) : Channel α := { c with closed := true, queue := [] }

/-- A send that finds neither room nor a receiver gone. -/
def Blocks (c : Channel α) : Prop := c.closed = false ∧ c.cap ≤ c.queue.length

instance (c : Channel α) : Decidable c.Accepts := inferInstanceAs (Decidable (_ ∧ _))

instance (c : Channel α) : Decidable c.Blocks := inferInstanceAs (Decidable (_ ∧ _))

/-- **A send** is accepted, or comes back and leaves the channel alone. -/
theorem trySend_cases (c : Channel α) (a : α) :
    (c.Accepts ∧ c.trySend a = (.sent, { c with queue := c.queue ++ [a], log := c.log ++ [a] })) ∨
      (c.closed = false ∧ c.trySend a = (.full, c)) ∨
        c.closed = true ∧ c.trySend a = (.closed, c) := by
  unfold trySend
  by_cases hclosed : c.closed = true
  · exact .inr (.inr ⟨hclosed, if_pos hclosed⟩)
  · rw [if_neg hclosed]
    have hopen := eq_false_of_ne_true hclosed
    by_cases hroom : c.queue.length < c.cap
    · exact .inl ⟨⟨hopen, hroom⟩, if_pos hroom⟩
    · exact .inr (.inl ⟨hopen, if_neg hroom⟩)

end Channel
end Quosh
