/-
# What happens in a run

The actions of a run, each with the state that it is taken in (`Machine.steps`).  What has
happened before a step is a statement about the steps in front of it, and that something
happens at most once is one about pairs of steps.

`Happens` and `Always` are the first of these, for any list, and
`Machine.AllowsAll.induction` goes through the actions of a run in their order.
-/

import Quosh.Control.Machine
import Mathlib.Data.List.Induction

namespace Quosh

/-- There is a step of which `P` holds with the steps in front of it. -/
def Happens {β : Type} (P : List β → β → Prop) (steps : List β) : Prop :=
  ∃ before x after, steps = before ++ x :: after ∧ P before x

namespace Happens

variable {β : Type} {P Q : List β → β → Prop} {steps : List β}

/-- What has happened has happened later on. -/
theorem append (h : Happens P steps) (later : List β) : Happens P (steps ++ later) := by
  obtain ⟨before, x, after, rfl, hx⟩ := h
  refine ⟨before, x, after ++ later, ?_, hx⟩
  rw [List.append_assoc, List.cons_append]

/-- What happens last. -/
theorem last {x : β} (h : P steps x) : Happens P (steps ++ [x]) :=
  ⟨steps, x, [], rfl, h⟩

end Happens

/-- Of every step `P` holds with the steps in front of it. -/
def Always {β : Type} (P : List β → β → Prop) (steps : List β) : Prop :=
  ∀ before x after, steps = before ++ x :: after → P before x

namespace Always

variable {β : Type} {P : List β → β → Prop} {steps : List β}

/-- Nothing happens in no step. -/
theorem nil : Always P [] := fun before x after h => by
  cases before <;> cases h

/-- What holds of all steps so far and of the next one. -/
theorem concat (h : Always P steps) {x : β} (hx : P steps x) : Always P (steps ++ [x]) := by
  intro before y after heq
  rcases List.eq_nil_or_concat after with rfl | ⟨later, z, rfl⟩
  · obtain ⟨rfl, hy⟩ := List.append_inj' heq rfl
    obtain rfl := List.singleton_inj.1 hy
    exact hx
  · rw [List.concat_eq_append, ← List.cons_append, ← List.append_assoc] at heq
    obtain ⟨rfl, -⟩ := List.append_inj' heq rfl
    exact h before y later rfl

end Always

namespace Machine

variable {σ α : Type} {M : Machine σ α} {ok : σ → α → Prop} {s : σ}

/-- Some actions, each with the state that it is taken in. -/
def steps (M : Machine σ α) : σ → List α → List (σ × α)
  | _, [] => []
  | s, a :: as => (s, a) :: steps M (M.act s a) as

/-- The steps of two lists. -/
theorem steps_append (s : σ) (as bs : List α) :
    M.steps s (as ++ bs) = M.steps s as ++ M.steps (M.acts s as) bs := by
  induction as generalizing s with
  | nil => rfl
  | cons a as ih =>
    rw [List.cons_append, steps, steps, List.cons_append, ih]
    rfl

/-- One more step. -/
theorem steps_concat (s : σ) (as : List α) (a : α) :
    M.steps s (as ++ [a]) = M.steps s as ++ [(M.acts s as, a)] :=
  steps_append s as [a]

/-- Some actions, and others behind them. -/
theorem acts_append (s : σ) (as bs : List α) : M.acts s (as ++ bs) = M.acts (M.acts s as) bs :=
  List.foldl_append

/-- Two lists are allowed one after the other. -/
theorem allowsAll_append {as bs : List α} :
    M.AllowsAll ok s (as ++ bs) ↔ M.AllowsAll ok s as ∧ M.AllowsAll ok (M.acts s as) bs := by
  induction as generalizing s with
  | nil => exact (and_iff_right trivial).symm
  | cons a as ih =>
    rw [List.cons_append, AllowsAll, AllowsAll, ih, and_assoc, and_assoc]
    rfl

/-- A list whose every step is allowed. -/
theorem allowsAll_of_steps {as : List α}
    (h : ∀ st ∈ M.steps s as, M.Allows st.1 st.2 ∧ ok st.1 st.2) : M.AllowsAll ok s as := by
  induction as generalizing s with
  | nil => exact trivial
  | cons a as ih =>
    obtain ⟨hfirst, hrest⟩ := List.forall_mem_cons.1 h
    exact ⟨hfirst.1, hfirst.2, ih hrest⟩

/-- **What every action keeps, with what has happened before it, holds of a run.** -/
theorem AllowsAll.induction {I : List α → Prop} {as : List α} (h : M.AllowsAll ok s as)
    (hnil : I [])
    (hconcat : ∀ as a, M.AllowsAll ok s as → I as → M.Allows (M.acts s as) a →
      ok (M.acts s as) a → I (as ++ [a])) : I as := by
  induction as using List.reverseRecOn with
  | nil => exact hnil
  | append_singleton as a ih =>
    obtain ⟨has, hallows, hok, -⟩ := allowsAll_append.1 h
    exact hconcat as a has (ih has) hallows hok

end Machine
end Quosh
