/-
# Machines and their runs

A machine has states and actions: which actions a state allows, and what they make of it.
A run takes allowed actions one after the other, and `ok` can ask more of each of them, so
that "in every run whose steps all do so" is a statement about `Run` with another `ok`.

What one action preserves a run preserves (`Run.invariant`).
-/

import Mathlib.Logic.Basic

namespace Quosh

/-- States, the actions they allow, and what the actions do. -/
structure Machine (σ α : Type) where
  Allows : σ → α → Prop
  act : σ → α → σ

namespace Machine

variable {σ α : Type} {M : Machine σ α} {ok ok' : σ → α → Prop} {s t u : σ}

/-- Any number of allowed actions of which `ok` holds. -/
inductive Run (M : Machine σ α) (ok : σ → α → Prop) (s : σ) : σ → Prop
  | refl : Run M ok s s
  | act {t : σ} (h : Run M ok s t) (a : α) (hallows : M.Allows t a) (hok : ok t a) :
    Run M ok s (M.act t a)

/-- Runs with nothing asked of the actions. -/
abbrev AnyRun (M : Machine σ α) : σ → σ → Prop := Run M fun _ _ => True

theorem Run.trans (h : Run M ok s t) (h' : Run M ok t u) : Run M ok s u := by
  induction h' with
  | refl => exact h
  | act _ a hallows hok ih => exact .act ih a hallows hok

/-- A run is a run with nothing asked. -/
theorem Run.any (h : Run M ok s t) : M.AnyRun s t := by
  induction h with
  | refl => exact .refl
  | act _ a hallows _ ih => exact .act ih a hallows trivial

/-- **What every action preserves holds to the end of a run.**  The actions are those of
states that the run has reached. -/
theorem Run.invariant {I : σ → Prop} (h : Run M ok s t) (hs : I s)
    (hact : ∀ t a, Run M ok s t → I t → M.Allows t a → ok t a → I (M.act t a)) : I t := by
  induction h with
  | refl => exact hs
  | act h a hallows hok ih => exact hact _ a h ih hallows hok

/-! ### Runs of given actions -/

/-- The state after some actions. -/
def acts (M : Machine σ α) (s : σ) (as : List α) : σ := as.foldl M.act s

/-- One more action. -/
theorem acts_concat (as : List α) (a : α) : M.acts s (as ++ [a]) = M.act (M.acts s as) a := by
  unfold acts
  rw [List.foldl_append]
  rfl

/-- Every action is allowed where it is taken, and `ok` holds of it. -/
def AllowsAll (M : Machine σ α) (ok : σ → α → Prop) (s : σ) : List α → Prop
  | [] => True
  | a :: as => M.Allows s a ∧ ok s a ∧ AllowsAll M ok (M.act s a) as

/-- Whether given actions are a run can be computed where each condition can. -/
instance decidableAllowsAll [∀ s a, Decidable (M.Allows s a)] [∀ s a, Decidable (ok s a)] :
    (s : σ) → (as : List α) → Decidable (M.AllowsAll ok s as)
  | _, [] => .isTrue trivial
  | s, a :: as =>
    have := decidableAllowsAll (M.act s a) as
    inferInstanceAs (Decidable (M.Allows s a ∧ ok s a ∧ M.AllowsAll ok (M.act s a) as))

/-- **Actions that are allowed are a run.** -/
theorem run_acts {as : List α} (h : M.AllowsAll ok s as) : M.Run ok s (M.acts s as) := by
  induction as generalizing s with
  | nil => exact .refl
  | cons a as ih =>
    obtain ⟨hallows, hok, hrest⟩ := h
    exact (Run.refl.act a hallows hok).trans (ih hrest)

/-- Where everything is allowed. -/
theorem allowsAll_of_forall (h : ∀ s a, M.Allows s a ∧ ok s a) (as : List α) (s : σ) :
    M.AllowsAll ok s as := by
  induction as generalizing s with
  | nil => exact trivial
  | cons a as ih => exact ⟨(h s a).1, (h s a).2, ih _⟩

/-- **A property holds all along given actions iff `ok` holds of each**, where an invariant
of `ok` has it and an action without `ok` breaks it. -/
theorem always_iff {I P : σ → Prop} (hP : ∀ t, I t → P t)
    (hact : ∀ t a, I t → M.Allows t a → ok t a → I (M.act t a))
    (hbreak : ∀ t a, I t → M.Allows t a → ¬ok t a → ¬P (M.act t a)) (hs : I s) {as : List α}
    (hallows : M.AllowsAll (fun _ _ => True) s as) :
    (∀ bs, bs <+: as → P (M.acts s bs)) ↔ M.AllowsAll ok s as := by
  induction as generalizing s with
  | nil =>
    refine iff_of_true (fun bs hbs => ?_) trivial
    rw [List.prefix_nil.1 hbs]
    exact hP s hs
  | cons a as ih =>
    obtain ⟨hallow, -, hrest⟩ := hallows
    constructor
    · intro halways
      have hfirst : P (M.act s a) :=
        halways [a] (List.cons_prefix_cons.2 ⟨rfl, List.nil_prefix⟩)
      have hok : ok s a :=
        Classical.byContradiction fun hnot => hbreak s a hs hallow hnot hfirst
      refine ⟨hallow, hok, (ih (hact s a hs hallow hok) hrest).1 fun bs hbs => ?_⟩
      exact halways (a :: bs) (List.cons_prefix_cons.2 ⟨rfl, hbs⟩)
    · rintro ⟨-, hok, hall⟩ bs hbs
      cases bs with
      | nil => exact hP s hs
      | cons b bs =>
        obtain ⟨rfl, htail⟩ := List.cons_prefix_cons.1 hbs
        exact (ih (hact s b hs hallow hok) hrest).2 hall bs htail

end Machine
end Quosh
