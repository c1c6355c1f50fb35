/-
# Lineages

Elements with their ancestors, the nearest first; `none` is for what is not there.  An
element descends from another if that is among its ancestors.

In a line in which nothing has two children the descendants of an element are a chain, so
at most one of them has no child (`eq_of_childless`).
-/

import Mathlib.Data.List.Basic

namespace Quosh
namespace Lineage

variable {α : Type} {anc : α → Option (List α)} {κ κ' σ τ : α}

/-- The nearest ancestor has the other ancestors. -/
def Consistent (anc : α → Option (List α)) : Prop :=
  ∀ κ σ l, anc κ = some (σ :: l) → anc σ = some l

/-- The nearest ancestor of an element. -/
def Child (anc : α → Option (List α)) (κ σ : α) : Prop := ∃ l, anc κ = some (σ :: l)

/-- An element of the line that starts with `τ`. -/
def InLine (anc : α → Option (List α)) (τ κ : α) : Prop := κ = τ ∨ ∃ l, anc κ = some l ∧ τ ∈ l

/-- What has a descendant has a child. -/
theorem exists_child (hc : Consistent anc) {l : List α} (hκ : anc κ = some l) (hσ : σ ∈ l) :
    ∃ ρ, Child anc ρ σ := by
  induction l generalizing κ with
  | nil => cases hσ
  | cons ρ l ih =>
    rcases List.mem_cons.1 hσ with rfl | hσ
    · exact ⟨κ, l, hκ⟩
    · exact ih (hc κ ρ l hκ) hσ

/-- Who descends from the parent of an only child is the child or descends from it. -/
theorem eq_or_mem_of_child (hc : Consistent anc) (honly : ∀ ρ, Child anc ρ σ → ρ = κ)
    {l : List α} (hκ' : anc κ' = some l) (hσ : σ ∈ l) : κ' = κ ∨ κ ∈ l := by
  induction l generalizing κ' with
  | nil => cases hσ
  | cons ρ l ih =>
    rcases List.mem_cons.1 hσ with rfl | hσ
    · exact .inl (honly κ' ⟨l, hκ'⟩)
    · rcases ih (hc κ' ρ l hκ') hσ with rfl | hmem
      · exact .inr List.mem_cons_self
      · exact .inr (List.mem_cons_of_mem ρ hmem)

/-- Without siblings, one of two descendants of `τ` descends from the other. -/
theorem comparable (hc : Consistent anc)
    (hone : ∀ σ, InLine anc τ σ → ∀ κ κ', Child anc κ σ → Child anc κ' σ → κ = κ')
    {l l' : List α} (hκ : anc κ = some l) (hτ : τ ∈ l) (hκ' : anc κ' = some l') (hτ' : τ ∈ l') :
    κ = κ' ∨ κ' ∈ l ∨ κ ∈ l' := by
  -- the ancestors of `κ` are climbed up to `τ`, and then down again by only children
  induction l generalizing κ with
  | nil => cases hτ
  | cons σ l ih =>
    have hchild : Child anc κ σ := ⟨l, hκ⟩
    have hdown (hline : InLine anc τ σ) (hσ : σ ∈ l') : κ = κ' ∨ κ' ∈ σ :: l ∨ κ ∈ l' := by
      rcases eq_or_mem_of_child hc (fun ρ hρ => hone σ hline ρ κ hρ hchild) hκ' hσ with rfl | hmem
      · exact .inl rfl
      · exact .inr (.inr hmem)
    rcases List.mem_cons.1 hτ with rfl | hτ
    · exact hdown (.inl rfl) hτ'
    · rcases ih (hc κ σ l hκ) hτ with rfl | hmem | hmem
      · exact .inr (.inl List.mem_cons_self)
      · exact .inr (.inl (List.mem_cons_of_mem σ hmem))
      · exact hdown (.inr ⟨l, hc κ σ l hκ, hτ⟩) hmem

/-- **Without siblings, a line has one end at most.** -/
theorem eq_of_childless (hc : Consistent anc)
    (hone : ∀ σ, InLine anc τ σ → ∀ κ κ', Child anc κ σ → Child anc κ' σ → κ = κ')
    (hκ : InLine anc τ κ) (hκ' : InLine anc τ κ') (hend : ∀ ρ, ¬Child anc ρ κ)
    (hend' : ∀ ρ, ¬Child anc ρ κ') : κ = κ' := by
  have hnot {ρ σ : α} {l : List α} (h : ∀ ρ, ¬Child anc ρ σ) (hρ : anc ρ = some l) : σ ∉ l := by
    intro hmem
    obtain ⟨ρ', hρ'⟩ := exists_child hc hρ hmem
    exact h ρ' hρ'
  rcases hκ with rfl | ⟨l, hl, hτ⟩
  · rcases hκ' with rfl | ⟨l', hl', hτ'⟩
    · rfl
    · exact absurd hτ' (hnot hend hl')
  · rcases hκ' with rfl | ⟨l', hl', hτ'⟩
    · exact absurd hτ (hnot hend' hl)
    · rcases comparable hc hone hl hτ hl' hτ' with heq | hmem | hmem
      · exact heq
      · exact absurd hmem (hnot hend' hl)
      · exact absurd hmem (hnot hend hl')

end Lineage
end Quosh
