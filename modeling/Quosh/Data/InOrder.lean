/-
# Numbered items taken in order

A receiver that counts what it took takes an item whose number is the next one
and discards any other (`takeNext`).  A queue of numbers is `Admissible` behind a
count if no number is ahead when the receiver comes to it; then nothing in it is
discarded for being ahead, and the count it leads to (`reach`) is the greatest
number in it or the count before.

Both only grow with the count the queue is behind: what one queue adds to the
count never makes another queue inadmissible.  So any number of queues that were
admissible behind one count stay so when they are served in any order.

`numberFrom k ds` numbers the items `ds` from `k + 1` on.
-/

import Mathlib.Order.Nat

namespace InOrder

/-- The count after an item with number `q` was offered. -/
def takeNext (a q : ℕ) : ℕ := if q = a + 1 then q else a

/-- The count after a queue was offered. -/
def reach (a : ℕ) (l : List ℕ) : ℕ := l.foldl takeNext a

/-- No number of the queue is ahead when its turn comes. -/
def Admissible : ℕ → List ℕ → Prop
  | _, [] => True
  | a, q :: l => q ≤ a + 1 ∧ Admissible (takeNext a q) l

variable {a a' q : ℕ} {l l' : List ℕ}

/-- The count does not go back. -/
theorem le_takeNext (a q : ℕ) : a ≤ takeNext a q := by
  unfold takeNext
  split <;> omega

/-- A higher count stays higher. -/
theorem takeNext_mono (h : a ≤ a') (hq : q ≤ a + 1) : takeNext a q ≤ takeNext a' q := by
  unfold takeNext
  split <;> split <;> omega

/-- An item that is not ahead is below the count it leaves. -/
theorem le_takeNext_right (hq : q ≤ a + 1) : q ≤ takeNext a q := by
  unfold takeNext
  split <;> omega

/-- The first number, and the others. -/
@[simp] theorem reach_cons (a q : ℕ) (l : List ℕ) :
    reach a (q :: l) = reach (takeNext a q) l := rfl

/-- Two lists, one after the other. -/
@[simp] theorem reach_append (a : ℕ) (l l' : List ℕ) :
    reach a (l ++ l') = reach (reach a l) l' := List.foldl_append

/-- The count does not go back over a list. -/
theorem le_reach (a : ℕ) (l : List ℕ) : a ≤ reach a l := by
  induction l generalizing a with
  | nil => exact le_rfl
  | cons q l ih => exact (le_takeNext a q).trans (ih _)

/-- A queue without the next number leaves the count. -/
theorem reach_of_forall_ne (h : ∀ q ∈ l, q ≠ a + 1) : reach a l = a := by
  induction l with
  | nil => rfl
  | cons q l ih =>
    rw [reach_cons, takeNext, if_neg (h q (List.mem_cons_self ..))]
    exact ih fun q' hq' => h q' (List.mem_cons_of_mem _ hq')

/-- The first number, and the others. -/
@[simp] theorem admissible_cons :
    Admissible a (q :: l) ↔ q ≤ a + 1 ∧ Admissible (takeNext a q) l := Iff.rfl

/-- Two lists, one after the other. -/
theorem admissible_append :
    Admissible a (l ++ l') ↔ Admissible a l ∧ Admissible (reach a l) l' := by
  induction l generalizing a with
  | nil => exact ⟨fun h => ⟨trivial, h⟩, fun h => h.2⟩
  | cons q l ih =>
    rw [List.cons_append, admissible_cons, admissible_cons, ih, reach_cons, and_assoc]

/-- **A greater count makes no queue inadmissible.** -/
theorem Admissible.mono (h : Admissible a l) (ha : a ≤ a') : Admissible a' l := by
  induction l generalizing a a' with
  | nil => trivial
  | cons q l ih => exact ⟨h.1.trans (Nat.succ_le_succ ha), ih h.2 (takeNext_mono ha h.1)⟩

/-- **A greater count leads to a greater count.** -/
theorem Admissible.reach_mono (h : Admissible a l) (ha : a ≤ a') : reach a l ≤ reach a' l := by
  induction l generalizing a a' with
  | nil => exact ha
  | cons q l ih => exact ih h.2 (takeNext_mono ha h.1)

/-- An initial part of an admissible queue is admissible. -/
theorem Admissible.of_prefix (h : Admissible a l) (hl : l' <+: l) : Admissible a l' := by
  obtain ⟨rest, rfl⟩ := hl
  exact (admissible_append.1 h).1

/-! ### Numbering -/

variable {α : Type*}

/-- The items with their numbers. -/
def numberFrom : ℕ → List α → List (ℕ × α)
  | _, [] => []
  | k, d :: ds => (k + 1, d) :: numberFrom (k + 1) ds

/-- As many numbers as there are entries. -/
@[simp] theorem length_numberFrom (k : ℕ) (ds : List α) : (numberFrom k ds).length = ds.length := by
  induction ds generalizing k with
  | nil => rfl
  | cons d ds ih => exact congrArg (· + 1) (ih _)

/-- The entries without their numbers. -/
@[simp] theorem map_snd_numberFrom (k : ℕ) (ds : List α) : (numberFrom k ds).map Prod.snd = ds := by
  induction ds generalizing k with
  | nil => rfl
  | cons d ds ih => exact congrArg (d :: ·) (ih _)

/-- The second list is numbered behind the first. -/
theorem numberFrom_append (k : ℕ) (ds es : List α) :
    numberFrom k (ds ++ es) = numberFrom k ds ++ numberFrom (k + ds.length) es := by
  induction ds generalizing k with
  | nil => rfl
  | cons d ds ih =>
    rw [List.cons_append, numberFrom, numberFrom, ih, List.length_cons, List.cons_append,
      Nat.add_right_comm, Nat.add_assoc]

/-- The entry at a place, and its number. -/
theorem getElem?_numberFrom (k : ℕ) (ds : List α) (i : ℕ) :
    (numberFrom k ds)[i]? = ds[i]?.map fun d => (k + i + 1, d) := by
  induction ds generalizing k i with
  | nil => rfl
  | cons d ds ih =>
    cases i with
    | zero => rfl
    | succ i =>
      rw [numberFrom, List.getElem?_cons_succ, List.getElem?_cons_succ, ih]
      congr 1
      funext d
      rw [show k + 1 + i + 1 = k + (i + 1) + 1 from by omega]

/-- **An item is found at its number.** -/
theorem mem_numberFrom {k : ℕ} {ds : List α} {u : ℕ × α} :
    u ∈ numberFrom k ds ↔ ∃ i, ds[i]? = some u.2 ∧ u.1 = k + i + 1 := by
  rw [List.mem_iff_getElem?]
  refine exists_congr fun i => ?_
  rw [getElem?_numberFrom, Option.map_eq_some_iff]
  constructor
  · rintro ⟨d, hd, rfl⟩
    exact ⟨hd, rfl⟩
  · rintro ⟨hd, hq⟩
    exact ⟨u.2, hd, Prod.ext hq.symm rfl⟩

/-- Behind some entries the numbers go on. -/
theorem drop_numberFrom (k : ℕ) (ds : List α) (b : ℕ) :
    (numberFrom k ds).drop b = numberFrom (k + b) (ds.drop b) := by
  induction ds generalizing k b with
  | nil => rw [numberFrom, List.drop_nil, List.drop_nil, numberFrom]
  | cons d ds ih =>
    cases b with
    | zero => rfl
    | succ b => rw [numberFrom, List.drop_succ_cons, List.drop_succ_cons, ih, Nat.add_right_comm,
        Nat.add_assoc]

/-- The items with a number above `n`. -/
theorem filter_numberFrom (k : ℕ) (ds : List α) (n : ℕ) :
    ((numberFrom k ds).filter fun u => u.1 > n) = (numberFrom k ds).drop (n - k) := by
  induction ds generalizing k with
  | nil => rw [numberFrom, List.filter_nil, List.drop_nil]
  | cons d ds ih =>
    rw [numberFrom]
    by_cases h : n ≤ k
    · rw [List.filter_cons_of_pos (by simp; omega), ih,
        Nat.sub_eq_zero_of_le h, Nat.sub_eq_zero_of_le (h.trans (Nat.le_succ k)), List.drop_zero,
        List.drop_zero]
    · rw [List.filter_cons_of_neg (by simp; omega), ih, show n - k = n - (k + 1) + 1 from by omega,
        List.drop_succ_cons]

/-- Dropping the items up to `b`, and then those up to `n`. -/
theorem filter_drop_numberFrom (ds : List α) (b n : ℕ) :
    (((numberFrom 0 ds).drop b).filter fun u => u.1 > n) =
      (numberFrom 0 ds).drop (max b n) := by
  rw [drop_numberFrom, filter_numberFrom, drop_numberFrom, drop_numberFrom, List.drop_drop,
    show 0 + b + (n - (0 + b)) = 0 + max b n from by omega,
    show b + (n - (0 + b)) = max b n from by omega]

/-- The first item behind `b` with a number above `n`. -/
theorem find?_drop_numberFrom (ds : List α) (b n : ℕ) :
    (((numberFrom 0 ds).drop b).find? fun u => u.1 > n) =
      ds[max b n]?.map fun d => (max b n + 1, d) := by
  rw [← List.head?_filter, filter_drop_numberFrom, List.head?_drop, getElem?_numberFrom,
    Nat.zero_add]

end InOrder
