/-
# Markers in a list

A list between two markers is taken out by looking for the end marker.  The one that is found
is the one that was put there iff the list has no marker of its own
(`dropInfix?_append_iff`), provided that a marker starts with a symbol which it has nowhere
else, so that no two overlap.

`Keeps` is an encoding of lists that keeps some symbols and turns the others into runs of
others.  A marker of symbols that are kept is in a list iff it is in the encoding
(`Keeps.infix_iff`).
-/

import Mathlib.Data.List.Infix
import Mathlib.Data.List.Forall2

namespace Quosh
namespace Markers

variable {α β : Type}

/-- **The marker that is found is the one behind the list** iff the list has none. -/
theorem dropInfix?_append_iff [BEq α] [LawfulBEq α] {a : α} {p : List α} (ha : a ∉ p)
    (body rest : List α) :
    (body ++ (a :: p) ++ rest).dropInfix? (a :: p) = some (body, rest) ↔ ¬(a :: p) <:+: body := by
  rw [List.dropInfix?_eq_some_iff]
  constructor
  · rintro ⟨-, hfirst⟩ ⟨s, t, rfl⟩
    have hle := hfirst s (a :: p) (t ++ (a :: p) ++ rest) (by simp [List.append_assoc])
      BEq.rfl
    simp only [List.length_append, List.length_cons] at hle
    omega
  · intro hnot
    refine ⟨⟨a :: p, rfl, BEq.rfl⟩, fun p' i' s' heq hi => ?_⟩
    obtain rfl := eq_of_beq hi
    by_contra hlt
    rw [List.append_assoc, List.append_assoc] at heq
    have hshorter : p'.length ≤ body.length := by omega
    have hprefix : p' <+: body :=
      List.prefix_of_prefix_length_le ⟨_, heq.symm⟩ (List.prefix_append ..) hshorter
    obtain ⟨c, rfl⟩ := hprefix
    rw [List.append_assoc] at heq
    have heq := List.append_cancel_left heq
    cases c with
    | nil =>
      rw [List.append_nil] at hlt
      exact hlt (Nat.le_refl _)
    | cons x c =>
      obtain ⟨rfl, heq⟩ := List.cons.inj heq
      rcases List.append_eq_append_iff.1 heq with ⟨q, hp, hq⟩ | ⟨q, hc, -⟩
      · -- the marker that is found reaches into the one behind the list
        rw [List.cons_append] at hq
        cases q with
        | nil =>
          rw [List.append_nil] at hp
          exact hnot ⟨p', [], by rw [hp, List.append_nil]⟩
        | cons y q =>
          obtain ⟨rfl, -⟩ := List.cons.inj hq
          exact ha (hp ▸ List.mem_append_right _ List.mem_cons_self)
      · exact hnot ⟨p', q, by rw [hc, List.append_assoc, List.cons_append]⟩

/-! ### Encodings that keep symbols -/

/-- An encoding that keeps the symbols which are `same`, one for one, and makes runs of
others from runs of others. -/
inductive Keeps (same : α → β → Prop) : List α → List β → Prop
  | nil : Keeps same [] []
  | same {a : α} {b : β} {s : List α} {t : List β} (hsame : same a b) (h : Keeps same s t) :
    Keeps same (a :: s) (b :: t)
  | other {s₀ s : List α} {t₀ t : List β} (hs : ∀ a ∈ s₀, ∀ b, ¬same a b)
    (ht : ∀ b ∈ t₀, ∀ a, ¬same a b) (hs₀ : s₀ ≠ []) (ht₀ : t₀ ≠ []) (h : Keeps same s t) :
    Keeps same (s₀ ++ s) (t₀ ++ t)

variable {same : α → β → Prop} {m s : List α} {m' t : List β}

/-- **A marker in front** of a list is in front of the encoding. -/
theorem Keeps.prefix_iff (hinj : ∀ a a' b b', same a b → same a' b' → (a = a' ↔ b = b'))
    (hm : List.Forall₂ same m m') (h : Keeps same s t) : m <+: s ↔ m' <+: t := by
  induction hm generalizing s t with
  | nil => exact iff_of_true List.nil_prefix List.nil_prefix
  | cons hab hrest ih =>
    cases h with
    | nil => exact iff_of_false (fun h => nomatch h) fun h => nomatch h
    | same hsame h =>
      rw [List.cons_prefix_cons, List.cons_prefix_cons]
      exact and_congr (hinj _ _ _ _ hab hsame) (ih h)
    | other hs ht hs₀ ht₀ h =>
      obtain ⟨a₀, s₀, rfl⟩ := List.exists_cons_of_ne_nil hs₀
      obtain ⟨b₀, t₀, rfl⟩ := List.exists_cons_of_ne_nil ht₀
      refine iff_of_false (fun h => ?_) fun h => ?_
      · obtain ⟨rfl, -⟩ := List.cons_prefix_cons.1 h
        exact hs _ List.mem_cons_self _ hab
      · obtain ⟨rfl, -⟩ := List.cons_prefix_cons.1 h
        exact ht _ List.mem_cons_self _ hab

/-- What cannot start in front of a list is in the list. -/
theorem infix_append_iff {a : α} {m s₀ : List α} (ha : a ∉ s₀) (s : List α) :
    (a :: m) <:+: s₀ ++ s ↔ (a :: m) <:+: s := by
  induction s₀ with
  | nil => exact Iff.rfl
  | cons x s₀ ih =>
    rw [List.cons_append, List.infix_cons_iff, ih fun h => ha (List.mem_cons_of_mem _ h)]
    refine or_iff_right fun h => ha ?_
    rw [(List.cons_prefix_cons.1 h).1]
    exact List.mem_cons_self

/-- **A marker in a list** is in the encoding, and the other way round. -/
theorem Keeps.infix_iff (hinj : ∀ a a' b b', same a b → same a' b' → (a = a' ↔ b = b'))
    (hm : List.Forall₂ same m m') (h : Keeps same s t) : m <:+: s ↔ m' <:+: t := by
  cases hm with
  | nil => exact iff_of_true List.nil_infix List.nil_infix
  | cons hab hrest =>
    induction h with
    | nil =>
      refine iff_of_false (fun h => ?_) fun h => ?_
      · cases List.infix_nil.1 h
      · cases List.infix_nil.1 h
    | same hsame h ih =>
      rw [List.infix_cons_iff, List.infix_cons_iff, ih]
      exact or_congr_left (Keeps.prefix_iff hinj (.cons hab hrest) (.same hsame h))
    | other hs ht hs₀ ht₀ h ih =>
      rw [infix_append_iff fun hmem => hs _ hmem _ hab, infix_append_iff fun hmem => ht _ hmem _ hab]
      exact ih

end Markers
end Quosh
