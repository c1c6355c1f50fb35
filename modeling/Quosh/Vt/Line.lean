/-
# A line of a terminal

A terminal shows a line as a row of slots, each with a text and the pen it was written with.
The text is a character and the marks that were put onto it.  A character of width two takes
two slots, the second of which has no text of its own.

Writing over one half of a wide character blanks the other half (`erase`), so the halves of a
line always belong together (`Whole`), whatever is written.
-/

import Mathlib.Data.Nat.Notation
import Mathlib.Logic.Function.Basic

namespace Quosh
namespace Vt

/-- How many columns a character takes: a space takes one, and control characters have no
width. -/
structure Widths where
  width : Char → Option ℕ
  space : width ' ' = some 1
  control : ∀ c, c < ' ' → width c = none

/-- A place of the screen. -/
structure Slot (π : Type) where
  text : List Char
  pen : π
  deriving DecidableEq, Repr

namespace Slot

variable {π : Type}

/-- What a cleared slot holds. -/
def blank (plain : π) : Slot π := ⟨[' '], plain⟩

/-- The second half of a wide character. -/
def isCont (s : Slot π) : Bool := s.text.isEmpty

/-- The first half of a wide character. -/
def isWide (w : Widths) (s : Slot π) : Bool :=
  match s.text with
  | [] => false
  | c :: _ => w.width c = some 2

/-- A character that is shown, with its marks. -/
def Formed (w : Widths) (s : Slot π) : Prop :=
  ∀ c marks, s.text = c :: marks →
    (w.width c = some 1 ∨ w.width c = some 2) ∧ ∀ m ∈ marks, w.width m = some 0

/-- A blank begins a character. -/
@[simp] theorem isCont_blank (plain : π) : (blank plain).isCont = false := rfl

/-- A blank is not wide. -/
@[simp] theorem isWide_blank (w : Widths) (plain : π) : (blank plain).isWide w = false := by
  unfold isWide blank
  simp [w.space]

/-- A slot without text goes on with the one in front of it. -/
@[simp] theorem isCont_nil (pen : π) : isCont ⟨[], pen⟩ = true := rfl

/-- A slot with text does not. -/
@[simp] theorem isCont_cons (c : Char) (marks : List Char) (pen : π) :
    isCont ⟨c :: marks, pen⟩ = false := rfl

/-- A slot without text is not wide. -/
@[simp] theorem isWide_nil (w : Widths) (pen : π) : isWide w ⟨[], pen⟩ = false := rfl

/-- A slot is as wide as its first character. -/
@[simp] theorem isWide_cons (w : Widths) (c : Char) (marks : List Char) (pen : π) :
    isWide w ⟨c :: marks, pen⟩ = decide (w.width c = some 2) := rfl

/-- A blank is formed. -/
theorem formed_blank (w : Widths) (plain : π) : (blank plain).Formed w := by
  rintro c marks h
  obtain ⟨rfl, rfl⟩ := List.cons.inj h
  exact ⟨.inl w.space, fun m hm => absurd hm List.not_mem_nil⟩

/-- A slot without text is formed. -/
theorem formed_nil (w : Widths) (pen : π) : Formed w ⟨[], pen⟩ := by
  rintro c marks h
  exact absurd h.symm (List.cons_ne_nil c marks)

/-- A character that has a width is formed. -/
theorem formed_char (w : Widths) {c : Char} (h : w.width c = some 1 ∨ w.width c = some 2)
    (pen : π) : Formed w ⟨[c], pen⟩ := by
  rintro c' marks hc
  obtain ⟨rfl, rfl⟩ := List.cons.inj hc
  exact ⟨h, fun m hm => absurd hm List.not_mem_nil⟩

/-- A slot with text is not a second half, and one without is no first half. -/
theorem isWide_eq_false_of_isCont {w : Widths} {s : Slot π} (h : s.isCont = true) :
    s.isWide w = false := by
  obtain ⟨text, pen⟩ := s
  obtain rfl := List.isEmpty_iff.1 h
  rfl

end Slot

/-- A line, slot by slot. -/
abbrev Line (π : Type) := ℕ → Slot π

namespace Line

variable {π : Type} {w : Widths} {plain : π} {cols : ℕ} {l : Line π}

/-- A cleared line. -/
def blank (plain : π) : Line π := fun _ => .blank plain

/-- **The halves of a line belong together**, all that is shown has a width, and nothing
stands beyond the last column. -/
structure Whole (w : Widths) (plain : π) (cols : ℕ) (l : Line π) : Prop where
  halves : ∀ j, (l (j + 1)).isCont = (l j).isWide w
  pens : ∀ j, (l (j + 1)).isCont = true → (l (j + 1)).pen = (l j).pen
  first : (l 0).isCont = false
  formed : ∀ j, (l j).Formed w
  beyond : ∀ j, cols ≤ j → l j = .blank plain

/-- A blank line is whole. -/
theorem whole_blank : Whole w plain cols (blank plain) where
  halves _ := (Slot.isWide_blank w plain).symm
  pens _ h := absurd h Bool.false_ne_true
  first := rfl
  formed _ := Slot.formed_blank w plain
  beyond _ _ := rfl

/-- Blanks a slot, and with it the other half of a wide character. -/
def erase (plain : π) (l : Line π) (j : ℕ) : Line π := fun i =>
  if i = j ∨ i + 1 = j ∧ (l j).isCont ∨ i = j + 1 ∧ (l i).isCont then .blank plain else l i

/-- Nothing is erased between a column and itself. -/
@[simp] theorem erase_self (plain : π) (l : Line π) (j : ℕ) : erase plain l j j = .blank plain :=
  if_pos (.inl rfl)

/-- Erasing only blanks. -/
theorem erase_or (plain : π) (l : Line π) (j i : ℕ) :
    erase plain l j i = .blank plain ∨ erase plain l j i = l i := by
  unfold erase
  split
  · exact .inl rfl
  · exact .inr rfl

/-- The first half of what is there is a half no more. -/
theorem Whole.isWide_erase (h : Whole w plain cols l) (j i : ℕ) :
    (erase plain l j i).isWide w = ((l i).isWide w && (decide (i ≠ j) && decide (i + 1 ≠ j))) := by
  have hhalves := h.halves i
  have hcont : (l i).isCont = true → (l i).isWide w = false := Slot.isWide_eq_false_of_isCont
  unfold Line.erase
  grind [Slot.isWide_blank]

/-- So is the second half. -/
theorem Whole.isCont_erase (h : Whole w plain cols l) (j i : ℕ) :
    (erase plain l j (i + 1)).isCont =
      ((l (i + 1)).isCont && (decide (i ≠ j) && decide (i + 1 ≠ j))) := by
  have hhalves := h.halves (i + 1)
  have hcont : (l (i + 1)).isCont = true → (l (i + 1)).isWide w = false :=
    Slot.isWide_eq_false_of_isCont
  unfold Line.erase
  grind [Slot.isCont_blank]

/-- **Erasing a slot keeps the halves together.**  It blanks the other half with it, so a
slot is a second half after it exactly where the slot before is a first one. -/
theorem Whole.erase (h : Whole w plain cols l) (j : ℕ) :
    Whole w plain cols (erase plain l j) where
  halves i := by rw [h.isCont_erase, h.isWide_erase, h.halves]
  pens i hi := by
    have hwide := hi
    rw [h.isCont_erase, h.halves, ← h.isWide_erase] at hwide
    rcases erase_or plain l j (i + 1) with hcont | hcont
    · rw [hcont, Slot.isCont_blank] at hi
      exact absurd hi Bool.false_ne_true
    · rcases erase_or plain l j i with hleft | hleft
      · rw [hleft, Slot.isWide_blank] at hwide
        exact absurd hwide Bool.false_ne_true
      · rw [hcont, hleft]
        exact h.pens i (hcont ▸ hi)
  first := by
    rcases erase_or plain l j 0 with h0 | h0
    · rw [h0, Slot.isCont_blank]
    · rw [h0, h.first]
  formed i := by
    rcases erase_or plain l j i with hi | hi
    · rw [hi]
      exact Slot.formed_blank w plain
    · rw [hi]
      exact h.formed i
  beyond i hi := by
    rcases erase_or plain l j i with hj | hj
    · exact hj
    · exact hj.trans (h.beyond i hi)

/-- On blank slots there is nothing to erase. -/
theorem erase_of_blank {j : ℕ} (hj : l j = .blank plain) (hnext : l (j + 1) = .blank plain) :
    erase plain l j = l := by
  funext i
  unfold erase
  split
  · rename_i hi
    rcases hi with rfl | ⟨-, hc⟩ | ⟨rfl, hc⟩
    · exact hj.symm
    · rw [hj, Slot.isCont_blank] at hc
      exact absurd hc Bool.false_ne_true
    · exact hnext.symm
  · rfl

/-! ### Writing -/

/-- A character of one column. -/
def putNarrow (plain : π) (l : Line π) (j : ℕ) (c : Char) (pen : π) : Line π :=
  Function.update (erase plain l j) j ⟨[c], pen⟩

/-- A character of two columns. -/
def putWide (plain : π) (l : Line π) (j : ℕ) (c : Char) (pen : π) : Line π :=
  Function.update (Function.update (erase plain (erase plain l j) (j + 1)) j ⟨[c], pen⟩) (j + 1)
    ⟨[], pen⟩

/-- The slot a mark goes to when it is written behind slot `j`. -/
def base (l : Line π) (j : ℕ) : ℕ := if (l j).isCont then j - 1 else j

/-- A mark on the character at slot `j`. -/
def putMark (l : Line π) (j : ℕ) (m : Char) : Line π :=
  Function.update l (l.base j) { l (l.base j) with text := (l (l.base j)).text ++ [m] }

/-- A slot that is no half may hold any narrow character. -/
theorem Whole.update_narrow (h : Whole w plain cols l) {j : ℕ} (hj : j < cols) {s : Slot π}
    (hcont : (l j).isCont = false) (hwide : (l j).isWide w = false) (hs : s.Formed w)
    (hscont : s.isCont = false) (hswide : s.isWide w = false) :
    Whole w plain cols (Function.update l j s) where
  halves i := by
    have hhalves := h.halves i
    simp only [Function.update_apply]
    split <;> split <;> simp_all
  pens i := by
    have hpens := h.pens i
    have hhalves := h.halves i
    simp only [Function.update_apply]
    split <;> split <;> simp_all
  first := by
    have hfirst := h.first
    simp only [Function.update_apply]
    split <;> simp_all
  formed i := by
    simp only [Function.update_apply]
    split
    · exact hs
    · exact h.formed i
  beyond i hi := by
    rw [Function.update_of_ne (by omega)]
    exact h.beyond i hi

/-- A narrow character keeps a line whole. -/
theorem Whole.putNarrow (h : Whole w plain cols l) {j : ℕ} (hj : j < cols) {c : Char}
    (hc : w.width c = some 1) (pen : π) : Whole w plain cols (l.putNarrow plain j c pen) :=
  (h.erase j).update_narrow hj (by simp) (by simp) (Slot.formed_char w (.inl hc) pen) rfl
    (by simp [hc])

/-- Two slots that are no halves may hold a wide character: then neither of their neighbours
loses its other half. -/
theorem Whole.update_wide (h : Whole w plain cols l) {j : ℕ} (hj : j + 1 < cols)
    (hcont : (l j).isCont = false) (hwide : (l (j + 1)).isWide w = false) {c : Char}
    (hc : w.width c = some 2) (pen : π) :
    Whole w plain cols (Function.update (Function.update l j ⟨[c], pen⟩) (j + 1) ⟨[], pen⟩) where
  halves i := by
    have hhalves := h.halves i
    simp only [Function.update_apply]
    grind [Slot.isCont_nil, Slot.isCont_cons, Slot.isWide_nil, Slot.isWide_cons]
  pens i := by
    have hpens := h.pens i
    have hhalves := h.halves i
    simp only [Function.update_apply]
    grind [Slot.isCont_nil, Slot.isCont_cons]
  first := by
    have hfirst := h.first
    simp only [Function.update_apply]
    split
    · omega
    · split
      · rfl
      · exact hfirst
  formed i := by
    simp only [Function.update_apply]
    split
    · exact Slot.formed_nil w pen
    · split
      · exact Slot.formed_char w (.inr hc) pen
      · exact h.formed i
  beyond i hi := by
    rw [Function.update_of_ne (by omega), Function.update_of_ne (by omega)]
    exact h.beyond i hi

/-- A wide character does too. -/
theorem Whole.putWide (h : Whole w plain cols l) {j : ℕ} (hj : j + 1 < cols) {c : Char}
    (hc : w.width c = some 2) (pen : π) : Whole w plain cols (l.putWide plain j c pen) := by
  have hleft : (Line.erase plain (Line.erase plain l j) (j + 1) j).isCont = false := by
    rcases erase_or plain (Line.erase plain l j) (j + 1) j with hj | hj
    · rw [hj, Slot.isCont_blank]
    · rw [hj, erase_self, Slot.isCont_blank]
  exact ((h.erase j).erase (j + 1)).update_wide hj hleft (by simp) hc pen

/-- A mark goes to a slot with text. -/
theorem Whole.isCont_base (h : Whole w plain cols l) (j : ℕ) :
    (l (l.base j)).isCont = false := by
  unfold base
  split
  · rename_i hcont
    cases j with
    | zero => exact h.first
    | succ j =>
      rw [h.halves] at hcont
      by_contra hleft
      rw [Bool.not_eq_false] at hleft
      exact absurd (Slot.isWide_eq_false_of_isCont hleft) (by simpa using hcont)
  · rename_i hcont
    simpa using hcont

/-- A mark makes no second half. -/
theorem isCont_putMark {j : ℕ} (htext : (l (l.base j)).isCont = false) (m : Char) (i : ℕ) :
    (l.putMark j m i).isCont = (l i).isCont := by
  unfold Line.putMark
  rw [Function.update_apply]
  split
  · rename_i hi
    rw [hi, htext]
    simp [Slot.isCont]
  · rfl

/-- A mark leaves the characters where they begin. -/
theorem base_putMark {j : ℕ} (htext : (l (l.base j)).isCont = false) (m : Char) :
    (l.putMark j m).base j = l.base j := by
  unfold base
  rw [isCont_putMark htext]

/-- **Marks are added one after the other.** -/
theorem foldl_putMark {j : ℕ} (htext : (l (l.base j)).isCont = false) (marks : List Char) :
    marks.foldl (fun l m => l.putMark j m) l =
      Function.update l (l.base j) ⟨(l (l.base j)).text ++ marks, (l (l.base j)).pen⟩ := by
  induction marks generalizing l with
  | nil =>
    rw [List.append_nil]
    exact (Function.update_eq_self ..).symm
  | cons m marks ih =>
    have hbase := base_putMark htext m
    have hslot : l.putMark j m (l.base j) =
        { l (l.base j) with text := (l (l.base j)).text ++ [m] } := Function.update_self ..
    rw [List.foldl_cons, ih (by rw [hbase, isCont_putMark htext, htext]), hbase, hslot]
    unfold putMark
    rw [Function.update_idem, List.append_assoc]
    rfl

/-- **A mark changes nothing else.**  It goes to the text of the base, which has a character
and keeps it in front, so widths and pens are what they were. -/
theorem Whole.putMark (h : Whole w plain cols l) {j : ℕ} (hj : j < cols) {m : Char}
    (hm : w.width m = some 0) : Whole w plain cols (l.putMark j m) := by
  have htext := h.isCont_base j
  have hlt : l.base j < cols := by
    unfold base
    split <;> omega
  obtain ⟨c, marks, hc⟩ : ∃ c marks, (l (l.base j)).text = c :: marks :=
    List.exists_cons_of_ne_nil fun hnil => by simp [Slot.isCont, hnil] at htext
  have hcont := isCont_putMark htext m
  have hwide (i : ℕ) : (l.putMark j m i).isWide w = (l i).isWide w := by
    unfold Line.putMark
    rw [Function.update_apply]
    split
    · rename_i hi
      simp [Slot.isWide, hi, hc]
    · rfl
  have hpen (i : ℕ) : (l.putMark j m i).pen = (l i).pen := by
    unfold Line.putMark
    rw [Function.update_apply]
    split
    · rename_i hi
      rw [hi]
    · rfl
  refine ⟨fun i => ?_, fun i hi => ?_, ?_, fun i => ?_, fun i hi => ?_⟩
  · rw [hcont, hwide, h.halves]
  · rw [hpen, hpen]
    exact h.pens i (hcont _ ▸ hi)
  · rw [hcont, h.first]
  · unfold Line.putMark
    rw [Function.update_apply]
    split
    · rintro c' marks' hc'
      obtain ⟨hwidth, hmarks⟩ := h.formed _ c marks hc
      rw [hc] at hc'
      obtain ⟨rfl, rfl⟩ := List.cons.inj hc'
      refine ⟨hwidth, fun m' hm' => ?_⟩
      rcases List.mem_append.1 hm' with hm' | hm'
      · exact hmarks m' hm'
      · rw [List.mem_singleton.1 hm']
        exact hm
    · exact h.formed i
  · unfold Line.putMark
    rw [Function.update_of_ne (by omega)]
    exact h.beyond i hi

end Line
end Vt
end Quosh
