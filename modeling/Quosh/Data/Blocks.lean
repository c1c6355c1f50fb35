/-
# Blocks of one length

An array of records that all take the same number of places is read by multiplication: the
place `j` of the record `i` is `i * n + j` (`getElem?_flatMap`), and a place belongs to one
record only (`place_inj`).  Cells of a frame are such records, and so are the rows of a grid.
A record that is overwritten changes alone (`getElem?_overwrite`).
-/

import Mathlib.Data.List.Basic

namespace Quosh
namespace Blocks

variable {α β : Type} {f : α → List β} {n : ℕ}

/-- Whole blocks are dropped with the elements they come from. -/
theorem drop_flatMap (xs : List α) (hf : ∀ a ∈ xs, (f a).length = n) (i : ℕ) :
    (xs.flatMap f).drop (i * n) = (xs.drop i).flatMap f := by
  induction xs generalizing i with
  | nil => rw [List.drop_nil, List.flatMap_nil, List.drop_nil]
  | cons a xs ih =>
    have ha := hf a List.mem_cons_self
    cases i with
    | zero => rw [Nat.zero_mul, List.drop_zero, List.drop_zero]
    | succ i =>
      have hlen : (i + 1) * n = (f a).length + i * n := by
        rw [ha, Nat.succ_mul, Nat.add_comm]
      rw [List.flatMap_cons, List.drop_succ_cons, hlen, List.drop_append,
        List.drop_eq_nil_of_le (Nat.le_add_right ..), List.nil_append, Nat.add_sub_cancel_left]
      exact ih (fun b hb => hf b (List.mem_cons_of_mem _ hb)) i

/-- **The place `j` of block `i`.** -/
theorem getElem?_flatMap (xs : List α) (hf : ∀ a ∈ xs, (f a).length = n) {i j : ℕ} (hj : j < n) :
    (xs.flatMap f)[i * n + j]? = xs[i]?.bind fun a => (f a)[j]? := by
  rw [← List.getElem?_drop, drop_flatMap xs hf]
  cases hi : xs[i]? with
  | none =>
    rw [List.drop_eq_nil_of_le (List.getElem?_eq_none_iff.1 hi)]
    rfl
  | some a =>
    obtain ⟨hlt, rfl⟩ := List.getElem?_eq_some_iff.1 hi
    rw [List.drop_eq_getElem_cons hlt, List.flatMap_cons, List.getElem?_append_left]
    · rfl
    · rw [hf _ (List.getElem_mem hlt)]
      exact hj

/-- A place belongs to one record. -/
theorem place_inj {i i' j j' : ℕ} (hj : j < n) (hj' : j' < n) (h : i * n + j = i' * n + j') :
    i = i' ∧ j = j' := by
  have hrecord : i = i' := by
    rcases Nat.lt_trichotomy i i' with hlt | heq | hlt
    · have := Nat.mul_le_mul_right n (Nat.succ_le_of_lt hlt)
      rw [Nat.succ_mul] at this
      omega
    · exact heq
    · have := Nat.mul_le_mul_right n (Nat.succ_le_of_lt hlt)
      rw [Nat.succ_mul] at this
      omega
  subst hrecord
  exact ⟨rfl, by omega⟩

/-- **Overwriting a record** changes that record alone. -/
theorem getElem?_overwrite {l b : List α} {i j k : ℕ} (hb : b.length = n)
    (hi : i * n + n ≤ l.length) (hk : k < n) :
    (l.take (i * n) ++ b ++ l.drop (i * n + n))[j * n + k]? =
      if j = i then b[k]? else l[j * n + k]? := by
  rcases Nat.lt_trichotomy j i with hlt | rfl | hlt
  · have := Nat.mul_le_mul_right n (Nat.succ_le_of_lt hlt)
    rw [Nat.succ_mul] at this
    rw [if_neg (by omega), List.append_assoc, List.getElem?_append_left (by simp; omega),
      List.getElem?_take_of_lt (by omega)]
  · have hlen : (l.take (j * n)).length = j * n := by simp; omega
    rw [if_pos rfl, List.append_assoc, List.getElem?_append_right (by omega), hlen,
      List.getElem?_append_left (by omega), Nat.add_sub_cancel_left]
  · have := Nat.mul_le_mul_right n (Nat.succ_le_of_lt hlt)
    rw [Nat.succ_mul] at this
    have hlen : (l.take (i * n) ++ b).length = i * n + n := by simp; omega
    rw [if_neg (by omega), List.getElem?_append_right (by omega), hlen, List.getElem?_drop]
    congr 1
    omega

end Blocks
end Quosh
