/-
# Finite maps as sorted tables

A `BTreeMap` iterates its entries in increasing order of key and holds each key
once.  `SortedTable K V` is that iteration order with the proof that it is
strictly increasing, so a table with a duplicate or misplaced key cannot be
built, and two tables with the same entries are equal.

A table is rebuilt from its own entries by inserting them one at a time in the
order they are listed (`foldl_insert_entries`), because inserting a key above
all others appends it (`insert_of_forall_lt`).
-/

import Mathlib.Data.List.Nodup
import Mathlib.Order.Basic
import Mathlib.Data.List.Perm.Subperm
import Mathlib.Order.Lattice

namespace Quosh

variable {K V : Type} [LinearOrder K]

/-- No entries are sorted. -/
theorem sorted_nil : ([] : List (K × V)).Pairwise fun a b => a.1 < b.1 := List.Pairwise.nil

/-- The entries of a map in increasing order of key. -/
structure SortedTable (K V : Type) [LinearOrder K] where
  entries : List (K × V) := []
  sorted : entries.Pairwise fun a b => a.1 < b.1 := by first | exact sorted_nil | simp
  deriving DecidableEq

namespace SortedTable

/-- Insert or replace in a sorted list. -/
def insertEntry (k : K) (v : V) : List (K × V) → List (K × V)
  | [] => [(k, v)]
  | (k', v') :: es =>
    if k < k' then (k, v) :: (k', v') :: es
    else if k = k' then (k, v) :: es
    else (k', v') :: insertEntry k v es

/-- An entry is the one that was put in, or was there. -/
theorem mem_insertEntry {k : K} {v : V} {es : List (K × V)} {e : K × V}
    (h : e ∈ insertEntry k v es) : e = (k, v) ∨ e ∈ es := by
  induction es with
  | nil => exact .inl (List.mem_singleton.1 h)
  | cons e' es ih =>
    unfold insertEntry at h
    split at h
    · exact List.mem_cons.1 h
    · split at h
      · exact (List.mem_cons.1 h).imp_right (List.mem_cons_of_mem _)
      · rcases List.mem_cons.1 h with rfl | h
        · exact .inr (List.mem_cons_self ..)
        · exact (ih h).imp_right (List.mem_cons_of_mem _)

/-- **An entry goes where it belongs.** -/
theorem pairwise_insertEntry (k : K) (v : V) {es : List (K × V)}
    (h : es.Pairwise fun a b => a.1 < b.1) :
    (insertEntry k v es).Pairwise fun a b => a.1 < b.1 := by
  induction es with
  | nil => exact List.pairwise_singleton _ _
  | cons e es ih =>
    obtain ⟨hlt, hes⟩ := List.pairwise_cons.1 h
    unfold insertEntry
    split
    · rename_i hk
      refine List.pairwise_cons.2 ⟨fun b hb => ?_, h⟩
      rcases List.mem_cons.1 hb with rfl | hb
      · exact hk
      · exact hk.trans (hlt b hb)
    · split
      · rename_i hk
        subst hk
        exact List.pairwise_cons.2 ⟨hlt, hes⟩
      · rename_i hle hne
        refine List.pairwise_cons.2 ⟨fun b hb => ?_, ih hes⟩
        rcases mem_insertEntry hb with rfl | hb
        · exact lt_of_le_of_ne (not_lt.1 hle) (Ne.symm hne)
        · exact hlt b hb

/-- `BTreeMap::insert`. -/
def insert (t : SortedTable K V) (k : K) (v : V) : SortedTable K V where
  entries := insertEntry k v t.entries
  sorted := pairwise_insertEntry k v t.sorted

/-- `BTreeMap::remove`. -/
def remove (t : SortedTable K V) (k : K) : SortedTable K V where
  entries := t.entries.filter fun e => e.1 ≠ k
  sorted := t.sorted.filter _

/-- `BTreeMap::get`. -/
def get? (t : SortedTable K V) (k : K) : Option V :=
  (t.entries.find? fun e => e.1 = k).map Prod.snd

/-- The same keys with other values. -/
def mapValues {W : Type} (f : V → W) (t : SortedTable K V) : SortedTable K W where
  entries := t.entries.map fun e => (e.1, f e.2)
  sorted := List.pairwise_map.2 t.sorted

/-- Two tables with the same entries are one. -/
theorem ext_entries {t u : SortedTable K V} (h : t.entries = u.entries) : t = u := by
  cases t; cases u; cases h; rfl

/-- **A key above all others is appended.** -/
theorem insert_of_forall_lt {t : SortedTable K V} {k : K} {v : V}
    (h : ∀ e ∈ t.entries, e.1 < k) : (t.insert k v).entries = t.entries ++ [(k, v)] := by
  have happ : ∀ es : List (K × V), (∀ e ∈ es, e.1 < k) → insertEntry k v es = es ++ [(k, v)] := by
    intro es hes
    induction es with
    | nil => rfl
    | cons e es ih =>
      have he := hes e (List.mem_cons_self ..)
      rw [insertEntry, if_neg he.not_gt, if_neg he.ne', ih fun e' h' =>
        hes e' (List.mem_cons_of_mem _ h'), List.cons_append]
  exact happ t.entries h

/-- Inserting in increasing order, behind everything already there, appends. -/
theorem foldl_insert {t : SortedTable K V} {es : List (K × V)}
    (hes : (t.entries ++ es).Pairwise fun a b => a.1 < b.1) :
    (es.foldl (fun u e => u.insert e.1 e.2) t).entries = t.entries ++ es := by
  induction es generalizing t with
  | nil => exact (List.append_nil _).symm
  | cons e es ih =>
    have hlt : ∀ e' ∈ t.entries, e'.1 < e.1 := fun e' he' =>
      (List.pairwise_append.1 hes).2.2 e' he' e (List.mem_cons_self ..)
    have hins : (t.insert e.1 e.2).entries = t.entries ++ [e] := insert_of_forall_lt hlt
    have hassoc : t.entries ++ e :: es = t.entries ++ [e] ++ es := by simp
    rw [List.foldl_cons, ih (by rwa [hins, ← hassoc]), hins, hassoc]

/-- **A table is rebuilt by inserting its entries**, with any values put in
place of its own. -/
theorem foldl_insert_entries {W : Type} (f : V → W) (t : SortedTable K V) :
    t.entries.foldl (fun u e => u.insert e.1 (f e.2)) {} = t.mapValues f := by
  have h := (@foldl_insert _ _ _ ({} : SortedTable K W) (t.mapValues f).entries)
    (t.mapValues f).sorted
  rw [mapValues, List.foldl_map] at h
  exact ext_entries h

/-- **What is found under a key** is the entry with that key. -/
theorem get?_eq_some {t : SortedTable K V} {k : K} {v : V} :
    t.get? k = some v ↔ (k, v) ∈ t.entries := by
  unfold get?
  constructor
  · intro h
    obtain ⟨e, he, rfl⟩ := Option.map_eq_some_iff.1 h
    have hk : e.1 = k := by simpa using List.find?_some he
    exact hk ▸ List.mem_of_find?_eq_some he
  · intro h
    obtain ⟨e, he⟩ := Option.isSome_iff_exists.1
      (List.find?_isSome.2 ⟨(k, v), h, by simp⟩ : (t.entries.find? fun e => e.1 = k).isSome)
    have hk : e.1 = k := by simpa using List.find?_some he
    have hmem := List.mem_of_find?_eq_some he
    have hnodup : (t.entries.map Prod.fst).Nodup :=
      (List.pairwise_map.2 t.sorted).imp fun hlt => hlt.ne
    have hsame : e = (k, v) := List.inj_on_of_nodup_map hnodup hmem h hk
    rw [he, hsame]
    rfl

/-- Removing a key leaves what is found under the others. -/
theorem get?_remove {t : SortedTable K V} {k k' : K} :
    (t.remove k).get? k' = if k' = k then none else t.get? k' := by
  refine Option.ext fun v => ?_
  rw [get?_eq_some]
  split
  · rename_i h
    simp [remove, h]
  · rename_i h
    simp [remove, h, get?_eq_some]

/-- Keys below a bound in a strictly increasing list of numbers: there are at
most that many. -/
theorem length_le_of_forall_lt {n : ℕ} {t : SortedTable ℕ V} (h : ∀ e ∈ t.entries, e.1 < n) :
    t.entries.length ≤ n := by
  have hnd : (t.entries.map Prod.fst).Nodup :=
    (List.pairwise_map.2 t.sorted).imp fun hlt => hlt.ne
  have hsub : t.entries.map Prod.fst ⊆ List.range n := fun k hk => by
    obtain ⟨e, he, rfl⟩ := List.mem_map.1 hk
    exact List.mem_range.2 (h e he)
  simpa using (List.subperm_of_subset hnd hsub).length_le

end SortedTable
end Quosh
