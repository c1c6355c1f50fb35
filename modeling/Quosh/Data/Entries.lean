/-
# Lists of entries

A table kept as a list: entries are dropped with `filter`, looked up with `find?`, and
one of them is changed in place with `modify`.  What such a change does to the entries
it is not about: nothing (`filter_filter_of_imp`, `find?_filter_of_imp`,
`filter_modify_of_not`), what it does to the one that is found (`find?_modify_findIdx`), when
it leaves the table as it was (`modify_findIdx_eq_self_iff`, `filter_append_eq_self_iff`) or
changes every entry of a kind (`modify_findIdx_eq_map`), and
names of entries stay distinct (`map_modify_of_eq`, `nodup_map_filter`).
-/

import Mathlib.Data.List.Nodup

namespace Quosh
namespace Entries

variable {α β : Type} {p q : α → Bool} {l : List α}

/-- Dropping other entries does not change a selection. -/
theorem filter_filter_of_imp (h : ∀ x ∈ l, q x = true → p x = true) :
    (l.filter p).filter q = l.filter q := by
  rw [List.filter_filter]
  refine List.filter_congr fun x hx => ?_
  cases hq : q x with
  | false => rfl
  | true => rw [h x hx hq, Bool.and_true]

/-- Dropping other entries does not change a lookup. -/
theorem find?_filter_of_imp (h : ∀ x ∈ l, q x = true → p x = true) :
    (l.filter p).find? q = l.find? q := by
  rw [← List.head?_filter, filter_filter_of_imp h, List.head?_filter]

/-- Dropping the entries of a kind that has one entry erases that. -/
theorem filter_not_eq_erase [DecidableEq α] {a : α} (h : l.filter p = [a]) :
    l.filter (fun x => !p x) = l.erase a := by
  induction l with
  | nil => cases h
  | cons b l ih =>
    by_cases hb : p b = true
    · rw [List.filter_cons_of_pos hb] at h
      obtain ⟨rfl, hrest⟩ := List.cons.inj h
      rw [List.erase_cons_head, List.filter_cons_of_neg (by simp [hb]), List.filter_eq_self]
      intro x hx
      rw [Bool.not_eq_true', ← Bool.not_eq_true]
      exact List.filter_eq_nil_iff.1 hrest x hx
    · rw [List.filter_cons_of_neg hb] at h
      have ha : p a = true := (List.mem_filter.1 (h ▸ List.mem_cons_self)).2
      have hne : b ≠ a := fun heq => hb (heq ▸ ha)
      rw [List.erase_cons_tail (by simpa using hne), List.filter_cons_of_pos (by simp [hb]), ih h]

/-- Changing an entry that is not selected, and is not selected afterwards, does not
change a selection. -/
theorem filter_modify_of_not (f : α → α) (i : ℕ)
    (h : ∀ x, l[i]? = some x → q x = false ∧ q (f x) = false) :
    (l.modify i f).filter q = l.filter q := by
  induction l generalizing i with
  | nil => rw [List.modify_nil]
  | cons x l ih =>
    cases i with
    | zero =>
      obtain ⟨hx, hfx⟩ := h x rfl
      rw [List.modify_zero_cons, List.filter_cons_of_neg (by rw [hfx]; exact Bool.false_ne_true),
        List.filter_cons_of_neg (by rw [hx]; exact Bool.false_ne_true)]
    | succ i =>
      rw [List.modify_succ_cons, List.filter_cons, List.filter_cons, ih i fun y hy => h y hy]

/-- Changing an entry into itself changes nothing. -/
theorem modify_of_eq {f : α → α} (i : ℕ) (h : ∀ x, l[i]? = some x → f x = x) :
    l.modify i f = l := by
  induction l generalizing i with
  | nil => rw [List.modify_nil]
  | cons x l ih =>
    cases i with
    | zero => rw [List.modify_zero_cons, h x rfl]
    | succ i => rw [List.modify_succ_cons, ih i fun y hy => h y hy]

/-- Changing the entry that is found changes nothing iff it changes into itself. -/
theorem modify_findIdx_eq_self_iff {f : α → α} :
    l.modify (l.findIdx q) f = l ↔ ∀ x, l.find? q = some x → f x = x := by
  induction l with
  | nil => exact ⟨fun _ _ h => (nomatch h), fun _ => List.modify_nil ..⟩
  | cons x l ih =>
    rw [List.findIdx_cons, List.find?_cons]
    cases hq : q x with
    | true =>
      rw [cond_true, List.modify_zero_cons, List.cons_eq_cons]
      constructor
      · rintro ⟨hx, -⟩ y hy
        obtain rfl := Option.some.inj hy
        exact hx
      · intro h
        exact ⟨h x rfl, rfl⟩
    | false =>
      rw [cond_false, List.modify_succ_cons, List.cons_eq_cons, ih]
      exact ⟨fun h => h.2, fun h => ⟨rfl, h⟩⟩

/-- Replacing by an entry at the end changes nothing iff the entry is there already, and
nothing before it is replaced. -/
theorem filter_append_eq_self_iff {x : α} (hx : p x = false) :
    l.filter p ++ [x] = l ↔ ∃ rest, l = rest ++ [x] ∧ ∀ y ∈ rest, p y = true := by
  constructor
  · intro h
    exact ⟨l.filter p, h.symm, fun y hy => (List.mem_filter.1 hy).2⟩
  · rintro ⟨rest, rfl, hrest⟩
    rw [List.filter_append, List.filter_eq_self.2 hrest, List.filter_singleton, hx]
    exact congrArg (· ++ [x]) (List.append_nil rest)

/-- Changing the entry that is found changes what is found. -/
theorem find?_modify_findIdx {f : α → α} (h : ∀ x, q (f x) = q x) :
    (l.modify (l.findIdx q) f).find? q = (l.find? q).map f := by
  induction l with
  | nil => rw [List.modify_nil, List.find?_nil, Option.map_none]
  | cons x l ih =>
    rw [List.findIdx_cons, List.find?_cons]
    cases hq : q x with
    | true =>
      rw [cond_true, List.modify_zero_cons, List.find?_cons, h, hq]
      rfl
    | false =>
      rw [cond_false, List.modify_succ_cons, List.find?_cons, hq]
      exact ih

/-- Changing the entry that is found is changing every entry of that kind, where there is
one at most. -/
theorem modify_findIdx_eq_map (f : α → α) (h : l.Pairwise fun x y => q x = true → q y = false) :
    l.modify (l.findIdx q) f = l.map fun x => if q x then f x else x := by
  induction l with
  | nil => exact List.modify_nil ..
  | cons x l ih =>
    obtain ⟨hx, hl⟩ := List.pairwise_cons.1 h
    rw [List.findIdx_cons, List.map_cons]
    cases hq : q x with
    | true =>
      have hrest : (l.map fun y => if q y then f y else y) = l := by
        conv_rhs => rw [← List.map_id l]
        refine List.map_congr_left fun y hy => if_neg ?_
        rw [hx y hy hq]
        exact Bool.false_ne_true
      rw [cond_true, List.modify_zero_cons, hrest, if_pos rfl]
    | false =>
      rw [cond_false, List.modify_succ_cons, ih hl, if_neg Bool.false_ne_true]

/-- A change in place that keeps the names keeps their list. -/
theorem map_modify_of_eq (name : α → β) {f : α → α} (h : ∀ x, name (f x) = name x) (i : ℕ) :
    (l.modify i f).map name = l.map name := by
  induction l generalizing i with
  | nil => rw [List.modify_nil]
  | cons x l ih =>
    cases i with
    | zero => rw [List.modify_zero_cons, List.map_cons, List.map_cons, h]
    | succ i => rw [List.modify_succ_cons, List.map_cons, List.map_cons, ih]

/-- Dropping entries keeps names distinct. -/
theorem nodup_map_filter {name : α → β} (p : α → Bool) (h : (l.map name).Nodup) :
    ((l.filter p).map name).Nodup :=
  h.sublist (List.filter_sublist.map name)

/-- So does adding an entry under a new name. -/
theorem nodup_map_append {name : α → β} {x : α} (h : (l.map name).Nodup)
    (hx : ∀ y ∈ l, name y ≠ name x) : ((l ++ [x]).map name).Nodup := by
  rw [List.map_append, List.map_singleton, List.nodup_append]
  refine ⟨h, List.nodup_singleton _, fun a ha b hb => ?_⟩
  obtain ⟨y, hy, rfl⟩ := List.mem_map.1 ha
  rw [List.mem_singleton.1 hb]
  exact hx y hy

end Entries
end Quosh
