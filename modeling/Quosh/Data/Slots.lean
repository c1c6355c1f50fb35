/-
# Slots

A table of numbered slots, each empty or with an entry, as a function that is changed at
one slot.  What is found in a slot afterwards is the new entry or one that was there.
-/

import Mathlib.Logic.Function.Basic

namespace Quosh
namespace Slots

variable {ι α : Type} [DecidableEq ι] {f : ι → Option α} {i j : ι} {x y : α}

/-- What is in a slot was put there, or was there. -/
theorem of_update_some (h : Function.update f i (some x) j = some y) :
    (j = i ∧ y = x) ∨ (j ≠ i ∧ f j = some y) := by
  by_cases hij : j = i
  · subst hij
    rw [Function.update_self] at h
    exact .inl ⟨rfl, (Option.some.inj h).symm⟩
  · rw [Function.update_of_ne hij] at h
    exact .inr ⟨hij, h⟩

/-- What is in a slot behind another was emptied. -/
theorem of_update_none (h : Function.update f i none j = some y) : j ≠ i ∧ f j = some y := by
  by_cases hij : j = i
  · subst hij
    rw [Function.update_self] at h
    cases h
  · rw [Function.update_of_ne hij] at h
    exact ⟨hij, h⟩

end Slots
end Quosh
