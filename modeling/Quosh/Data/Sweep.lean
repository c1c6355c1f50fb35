/-
# Sweeps over a list

A loop that edits the places of a list one after the other, each from what is there and from
what is at one other place, its neighbour.  When no place is edited twice and none is the
neighbour of a later one, every place becomes what the list in front of the loop says
(`getElem?_foldl_step`): the order of the sweep does not show.
-/

import Mathlib.Data.List.Basic
import Mathlib.Data.Nat.Notation

namespace Quosh
namespace Sweep

variable {α : Type}

/-- Edits place `i` with what is at its neighbour. -/
def step (g : ℕ → Option α → α → α) (neighbour : ℕ → ℕ) (xs : List α) (i : ℕ) : List α :=
  xs.modify i (g i xs[neighbour i]?)

@[simp] theorem length_foldl_step (g : ℕ → Option α → α → α) (neighbour : ℕ → ℕ) (l : List ℕ)
    (xs : List α) : (l.foldl (step g neighbour) xs).length = xs.length := by
  induction l generalizing xs with
  | nil => rfl
  | cons i l ih => rw [List.foldl_cons, ih, step, List.length_modify]

/-- **Every place is edited from the list in front of the sweep**, when none is edited before
it is a neighbour. -/
theorem getElem?_foldl_step (g : ℕ → Option α → α → α) (neighbour : ℕ → ℕ) {l : List ℕ}
    (h : l.Pairwise fun i j => i ≠ j ∧ i ≠ neighbour j) (xs : List α) (j : ℕ) :
    (l.foldl (step g neighbour) xs)[j]? =
      if j ∈ l then xs[j]?.map (g j xs[neighbour j]?) else xs[j]? := by
  induction l generalizing xs with
  | nil => rfl
  | cons i l ih =>
    obtain ⟨hi, hl⟩ := List.pairwise_cons.1 h
    have hsame (k : ℕ) (hk : i ≠ k) : (step g neighbour xs i)[k]? = xs[k]? :=
      List.getElem?_modify_ne _ _ hk
    rw [List.foldl_cons, ih hl]
    by_cases hj : j ∈ l
    · obtain ⟨hne, hneighbour⟩ := hi j hj
      rw [if_pos hj, if_pos (List.mem_cons_of_mem _ hj), hsame j hne, hsame _ hneighbour]
    · rw [if_neg hj]
      by_cases hij : i = j
      · rw [← hij, if_pos List.mem_cons_self]
        exact List.getElem?_modify_eq _ _ _
      · rw [if_neg (by simp [hj, Ne.symm hij]), hsame j hij]

end Sweep
end Quosh
