/-
# Segments of a stream

A stream that is put together from segments, some of them labelled, and that is passed
piece by piece, each piece at a time.  `marks` says where the labelled segments end, and
`passed` when a position was passed.  `completed` is what has been passed whole: the labels,
in order, each with the time its last element went by.

Adding segments or pieces at the end adds to what was there (`marks_append`,
`passed_append`), so a piece completes exactly the labels that end inside it
(`completed_append`).
-/

import Mathlib.Data.List.Basic
import Mathlib.Data.List.Flatten
import Mathlib.Data.List.Pairwise
import Mathlib.Data.Nat.Notation
import Mathlib.Order.Basic

namespace Quosh
namespace Segments

variable {ι α τ : Type}

/-- Where the labelled segments end, when the first begins at `k`. -/
def marks : ℕ → List (Option ι × List α) → List (ι × ℕ)
  | _, [] => []
  | k, (label, xs) :: segs =>
    label.toList.map (·, k + xs.length) ++ marks (k + xs.length) segs

/-- The number of elements of pieces or segments. -/
def total {β : Type} (segs : List (β × List α)) : ℕ := (segs.flatMap Prod.snd).length

/-- When the element in front of a position was passed. -/
def passed : List (τ × List α) → ℕ → Option τ
  | [], _ => none
  | (t, xs) :: pieces, e => if e ≤ xs.length then some t else passed pieces (e - xs.length)

/-- The labels that were passed whole, with the times of their last elements. -/
def completed (segs : List (Option ι × List α)) (pieces : List (τ × List α)) : List (ι × τ) :=
  (marks 0 segs).filterMap fun m => (passed pieces m.2).map (m.1, ·)

variable {segs segs' : List (Option ι × List α)} {pieces : List (τ × List α)} {k e : ℕ}

/-- The length of two lists. -/
theorem total_append {β : Type} (a b : List (β × List α)) : total (a ++ b) = total a + total b := by
  unfold total
  rw [List.flatMap_append, List.length_append]

/-- The first segment, and the others. -/
theorem total_cons {β : Type} (s : β × List α) (b : List (β × List α)) :
    total (s :: b) = s.2.length + total b := by
  unfold total
  rw [List.flatMap_cons, List.length_append]

/-- **Segments that follow end behind those in front.** -/
theorem marks_append (k : ℕ) (segs segs' : List (Option ι × List α)) :
    marks k (segs ++ segs') = marks k segs ++ marks (k + total segs) segs' := by
  induction segs generalizing k with
  | nil => rfl
  | cons s segs ih =>
    obtain ⟨label, xs⟩ := s
    rw [List.cons_append, marks, marks, ih, total_cons, List.append_assoc, Nat.add_assoc]

/-- A segment without a label has no mark. -/
theorem marks_none (k : ℕ) (xs : List α) : marks (ι := ι) k [(none, xs)] = [] := rfl

/-- The end of a labelled segment that is not empty lies behind its beginning. -/
theorem lt_of_mem_marks (h : ∀ s ∈ segs, s.1 ≠ none → s.2 ≠ []) {m : ι × ℕ}
    (hm : m ∈ marks k segs) : k < m.2 ∧ m.2 ≤ k + total segs := by
  induction segs generalizing k with
  | nil => exact absurd hm List.not_mem_nil
  | cons s segs ih =>
    obtain ⟨label, xs⟩ := s
    rw [total_cons]
    rcases List.mem_append.1 hm with hm | hm
    · cases label with
      | none => exact absurd hm List.not_mem_nil
      | some i =>
        have hxs := List.length_pos_iff.2 (h _ List.mem_cons_self (Option.some_ne_none i))
        rw [List.mem_singleton.1 hm]
        dsimp only at hxs ⊢
        omega
    · have hrest := ih (fun s hs => h s (List.mem_cons_of_mem _ hs)) hm
      dsimp only
      omega

/-- The labels in order are those of the segments. -/
theorem map_fst_marks (k : ℕ) (segs : List (Option ι × List α)) :
    (marks k segs).map Prod.fst = segs.filterMap Prod.fst := by
  induction segs generalizing k with
  | nil => rfl
  | cons s segs ih =>
    obtain ⟨label, xs⟩ := s
    rw [marks, List.map_append, ih, List.filterMap_cons]
    cases label <;> rfl

/-- **A later piece passes what lies behind the earlier ones**, and no farther than its
end. -/
theorem passed_append (he : 0 < e) (t : τ) (xs : List α) :
    passed (pieces ++ [(t, xs)]) e =
      if e ≤ total pieces then passed pieces e
      else if e ≤ total pieces + xs.length then some t else none := by
  induction pieces generalizing e with
  | nil =>
    have hpos : ¬e ≤ 0 := by omega
    simp [passed, total, hpos]
  | cons p pieces ih =>
    obtain ⟨t', ys⟩ := p
    rw [List.cons_append, passed, passed, total_cons]
    dsimp only
    by_cases hys : e ≤ ys.length
    · rw [if_pos hys, if_pos (by omega), if_pos hys]
    · rw [if_neg hys, if_neg hys, ih (by omega)]
      have hfirst : e - ys.length ≤ total pieces ↔ e ≤ ys.length + total pieces := by omega
      have hsecond : e - ys.length ≤ total pieces + xs.length ↔
          e ≤ ys.length + total pieces + xs.length := by omega
      rw [if_congr hfirst rfl (if_congr hsecond rfl rfl)]

/-- A position is passed iff it lies within the pieces. -/
theorem passed_eq_none_iff (he : 0 < e) : passed pieces e = none ↔ total pieces < e := by
  induction pieces generalizing e with
  | nil => exact iff_of_true rfl he
  | cons p pieces ih =>
    obtain ⟨t, xs⟩ := p
    rw [passed, total_cons]
    dsimp only
    split
    · rename_i hxs
      exact iff_of_false (Option.some_ne_none t) (by omega)
    · rename_i hxs
      rw [ih (by omega)]
      omega

/-- What was passed whole is in the order of the segments. -/
theorem completed_sublist (segs : List (Option ι × List α)) (pieces : List (τ × List α)) :
    ((completed segs pieces).map Prod.fst).Sublist (segs.filterMap Prod.fst) := by
  rw [← map_fst_marks 0, completed, List.map_filterMap]
  have hfst : ∀ m : ι × ℕ, Option.map Prod.fst ((passed pieces m.2).map (m.1, ·)) =
      if (passed pieces m.2).isSome then some m.1 else none := by
    intro m
    cases passed pieces m.2 <;> rfl
  simp only [hfst]
  generalize marks 0 segs = ms
  induction ms with
  | nil => exact .slnil
  | cons m ms ih =>
    rw [List.filterMap_cons, List.map_cons]
    split
    · exact ih.cons _
    · rename_i heq
      split_ifs at heq
      rw [← Option.some.inj heq]
      exact ih.cons_cons _

/-- Segments that begin where the pieces end, or later, complete nothing. -/
theorem completed_append_segs (hne : ∀ s ∈ segs', s.1 ≠ none → s.2 ≠ [])
    (hle : total pieces ≤ total segs) :
    completed (segs ++ segs') pieces = completed segs pieces := by
  unfold completed
  rw [marks_append, List.filterMap_append, List.append_right_eq_self, List.filterMap_eq_nil_iff]
  intro m hm
  have hlt := (lt_of_mem_marks hne hm).1
  rw [(passed_eq_none_iff (by omega)).2 (by omega)]
  rfl

/-- **A piece completes the labels that end inside it**, behind those that were passed
already. -/
theorem completed_append {done next : List (ι × ℕ)} (hmarks : marks 0 segs = done ++ next)
    (hdone : ∀ m ∈ done, 0 < m.2 ∧ m.2 ≤ total pieces) (hnext : ∀ m ∈ next, total pieces < m.2)
    (t : τ) (xs : List α) :
    completed segs (pieces ++ [(t, xs)]) = completed segs pieces ++
      next.filterMap fun m => if m.2 ≤ total pieces + xs.length then some (m.1, t) else none := by
  unfold completed
  rw [hmarks, List.filterMap_append, List.filterMap_append, List.append_assoc]
  have hbefore : done.filterMap (fun m => (passed (pieces ++ [(t, xs)]) m.2).map (m.1, ·)) =
      done.filterMap fun m => (passed pieces m.2).map (m.1, ·) := by
    refine List.filterMap_congr fun m hm => ?_
    rw [passed_append (hdone m hm).1, if_pos (hdone m hm).2]
  have hnone : next.filterMap (fun m => (passed pieces m.2).map (m.1, ·)) = [] := by
    refine List.filterMap_eq_nil_iff.2 fun m hm => ?_
    have hlt := hnext m hm
    rw [(passed_eq_none_iff (by omega)).2 hlt]
    rfl
  have hafter : next.filterMap (fun m => (passed (pieces ++ [(t, xs)]) m.2).map (m.1, ·)) =
      next.filterMap fun m =>
        if m.2 ≤ total pieces + xs.length then some (m.1, t) else none := by
    refine List.filterMap_congr fun m hm => ?_
    have hlt := hnext m hm
    rw [passed_append (by omega), if_neg (by omega)]
    split <;> rfl
  rw [hbefore, hnone, hafter, List.nil_append]

end Segments
end Quosh
