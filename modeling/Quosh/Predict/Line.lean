/-
# One row of predictions as a line editor

The reference is an insert-mode editor on one line (`Editor`): a character goes in at the
cursor and the text behind it moves right, a deletion moves it back.  Text that moves past the
last column is forgotten, and what moves back from there is not known.

`Column` says how the overlay of a column stands to the reference, and `Line` that all columns
do.  An insertion sweeps the row from the right, a deletion from the left; either way a column
takes what its neighbour was in front of the sweep, so both keep `Line` (`Line.insert`,
`Line.delete`).  What they read of the screen is the confirmed text: nothing is drawn on a
column without an active overlay.
-/

import Quosh.Data.Sweep
import Quosh.Predict.Await
import Quosh.Predict.Overflow

namespace Quosh

/-- A printable ASCII character. -/
abbrev Printable := { b : UInt8 // 0x20 ≤ b ∧ b ≤ 0x7e }

/-- The character of a byte. -/
def charOf (b : UInt8) : Char := Char.ofNat b.toNat

/-- A key of a script. -/
inductive Key where
  | type (b : Printable)
  | delete
  | right
  | left
  deriving DecidableEq

/-- What the terminal sends for a key. -/
def Key.bytes : Key → Bytes
  | .type b => [b.1]
  | .delete => [0x7f]
  | .right => [0x1b, 0x5b, 0x43]
  | .left => [0x1b, 0x5b, 0x44]

/-! ### The reference -/

/-- An insert-mode editor on a line: the text of each column, where it is known, and the
column of the cursor. -/
structure Editor where
  text : ℕ → Option String
  cursor : ℕ

namespace Editor

/-- The editor on the line of a frame where its cursor is. -/
def of (f : FrameState) : Editor where
  text col := if col < f.cols then some (cellText (cellBytes f f.cursorRow col)) else none
  cursor := f.cursorCol

/-- A key, on a line of `w` columns. -/
def press (w : ℕ) (e : Editor) : Key → Editor
  | .type b =>
    { text := fun col =>
        if col < e.cursor then e.text col
        else if col = e.cursor then some (String.singleton (charOf b.1))
        else if col < w then e.text (col - 1)
        else none
      cursor := e.cursor + 1 }
  | .delete =>
    if e.cursor = 0 then e
    else
      { text := fun col =>
          if col + 1 < e.cursor then e.text col
          else if col + 1 < w then e.text (col + 1)
          else none
        cursor := e.cursor - 1 }
  | .right => { e with cursor := if e.cursor + 1 < w then e.cursor + 1 else e.cursor }
  | .left => { e with cursor := e.cursor - 1 }

/-- Keys, one after the other. -/
def presses (w : ℕ) (e : Editor) (ks : List Key) : Editor := ks.foldl (press w) e

/-- No character of the keys is typed at the last column. -/
def Room (w : ℕ) (e : Editor) : List Key → Prop
  | [] => True
  | k :: ks => (∀ b, k = .type b → e.cursor + 1 < w) ∧ Room w (e.press w k) ks

end Editor

namespace Predictor

variable {σ : Type} {ext : Externals σ} {p : Predictor σ} {f display : FrameState} {e : Editor}
  {d late i : ℕ} {c n : CellOverlay} {s : Stamp}

/-! ### Columns -/

/-- **How the overlay of a column stands to the reference** after `d` deletions: without a
prediction the confirmed text is the reference text, a prediction shows the reference text
where that is known, and one that shows nothing is among the last `d + 1` columns. -/
structure Column (f : FrameState) (e : Editor) (d late i : ℕ) (c : CellOverlay) : Prop where
  col : c.base.col = i
  pending : c.base.active = true → late < c.base.expirationFrame
  plain : Plain c.replacement
  inactive : c.base.active = false → e.text i = some (cellText (cellBytes f f.cursorRow i))
  known : c.base.active = true → c.unknown = false → ∀ t, e.text i = some t →
    cellText c.replacement = t
  unknown : c.base.active = true → c.unknown = true → f.cols ≤ i + 1 + d

/-- Every column of the row stands so. -/
structure Line (f : FrameState) (e : Editor) (d late : ℕ) (cells : List CellOverlay) : Prop where
  length : cells.length = f.cols
  column : ∀ i c, cells[i]? = some c → Column f e d late i c

/-- A frame that shows a row: as the frame that was confirmed, beside what the predictions of
the row draw. -/
structure Shows (f display : FrameState) (cells : List CellOverlay) : Prop where
  cols : display.cols = f.cols
  plain : ∀ col < f.cols, Plain (cellBytes display f.cursorRow col)
  inactive : ∀ i c, cells[i]? = some c → c.base.active = false →
    cellBytes display f.cursorRow i = cellBytes f f.cursorRow i

/-- A prediction is known. -/
theorem unknown_predictCell (c : CellOverlay) (s : Stamp) (actual : Cell) :
    (predictCell c s actual).unknown = false := by
  unfold predictCell CellOverlay.resetWithOrig
  dsimp only
  split
  · rfl
  · rename_i h
    simp only [Bool.or_eq_true, not_or, Bool.not_eq_true] at h
    exact h.2

/-- A column that is left alone, and its text too. -/
theorem Column.same (h : Column f e d late i c) {e' : Editor} {d' : ℕ}
    (htext : e'.text i = e.text i) (hd : d ≤ d') : Column f e' d' late i c where
  col := h.col
  pending := h.pending
  plain := h.plain
  inactive ha := htext ▸ h.inactive ha
  known ha hu := htext ▸ h.known ha hu
  unknown ha hu := (h.unknown ha hu).trans (Nat.add_le_add_left hd _)

/-- A prediction that shows nothing. -/
theorem Column.forget (h : Column f e d late i c) (hexp : late < s.exp) (actual : Cell)
    {e' : Editor} {d' : ℕ} (hlast : f.cols ≤ i + 1 + d') :
    Column f e' d' late i { predictCell c s actual with unknown := true } where
  col := by
    dsimp only
    rw [base_predictCell]
    exact h.col
  pending _ := by
    dsimp only
    rw [base_predictCell]
    exact hexp
  plain := by
    dsimp only
    rw [replacement_predictCell]
    exact h.plain
  inactive ha := by
    dsimp only at ha
    rw [base_predictCell] at ha
    cases ha
  known _ hu := by cases hu
  unknown _ _ := hlast

/-- A character that is typed. -/
theorem Column.write (h : Column f e d late i c) (hexp : late < s.exp) (actual style : Cell)
    (ch : Char) {e' : Editor} {d' : ℕ} (htext : e'.text i = some (String.singleton ch)) :
    Column f e' d' late i
      { predictCell c s actual with replacement := makeCharCell style ch } where
  col := by
    dsimp only
    rw [base_predictCell]
    exact h.col
  pending _ := by
    dsimp only
    rw [base_predictCell]
    exact hexp
  plain := plain_makeCharCell style ch
  inactive ha := by
    dsimp only at ha
    rw [base_predictCell] at ha
    cases ha
  known _ _ t ht := by
    rw [htext] at ht
    rw [← Option.some.inj ht]
    exact cellText_makeCharCell style ch
  unknown _ hu := by
    dsimp only at hu
    rw [unknown_predictCell] at hu
    cases hu

/-- **What moves in from a neighbour** is the reference text of the neighbour: its
prediction where it has one, known or not, and otherwise the cell that the display shows
there. -/
theorem Column.take (h : Column f e d late i c) (hexp : late < s.exp) (actual : Cell) {j : ℕ}
    (hn : Column f e d late j n) {moved : Cell} (hplain : Plain moved)
    (hmoved : n.base.active = false → moved = cellBytes f f.cursorRow j) {e' : Editor} {d' : ℕ}
    (htext : e'.text i = e.text j) (hlast : f.cols ≤ j + 1 + d → f.cols ≤ i + 1 + d') :
    Column f e' d' late i (takeFrom (predictCell c s actual) n moved) where
  col := by
    rw [base_takeFrom, base_predictCell]
    exact h.col
  pending _ := by
    rw [base_takeFrom, base_predictCell]
    exact hexp
  plain := by
    refine plain_takeFrom ?_ hn.plain hplain
    rw [replacement_predictCell]
    exact h.plain
  inactive ha := by
    rw [base_takeFrom, base_predictCell] at ha
    cases ha
  known _ hu t ht := by
    rw [htext] at ht
    unfold takeFrom at hu ⊢
    cases ha : n.base.active with
    | true =>
      rw [ha, if_pos rfl] at hu
      rw [if_pos rfl]
      cases hknown : n.unknown with
      | true =>
        rw [hknown] at hu
        cases hu
      | false => exact hn.known ha hknown t ht
    | false =>
      rw [hn.inactive ha] at ht
      rw [if_neg Bool.false_ne_true, hmoved ha]
      exact Option.some.inj ht
  unknown _ hu := by
    unfold takeFrom at hu
    cases ha : n.base.active with
    | true =>
      rw [ha, if_pos rfl] at hu
      cases hknown : n.unknown with
      | true => exact hlast (hn.unknown ha hknown)
      | false =>
        rw [hknown] at hu
        cases hu
    | false =>
      rw [ha, if_neg Bool.false_ne_true] at hu
      cases hu

/-- The row stands to the text; where the cursor is does not matter. -/
theorem Line.moved {cells : List CellOverlay} (h : Line f e d late cells) (col : ℕ) :
    Line f { e with cursor := col } d late cells where
  length := h.length
  column i c hc := (h.column i c hc).same rfl le_rfl

/-! ### Edits of the row -/

/-- What `predict_char` makes of a column, from the one left of it. -/
def fromLeft (display : FrameState) (rowNum : ℕ) (s : Stamp) (i : ℕ) (prev : Option CellOverlay)
    (cell : CellOverlay) : CellOverlay :=
  let cell := predictCell cell s (cellBytes display rowNum i)
  match (if i = display.cols - 1 then none else prev) with
  | some c => takeFrom cell c (cellBytes display rowNum (i - 1))
  | none => { cell with unknown := true }

/-- What `backspace` makes of a column, from the one right of it. -/
def fromRight (display : FrameState) (rowNum : ℕ) (s : Stamp) (i : ℕ) (next : Option CellOverlay)
    (cell : CellOverlay) : CellOverlay :=
  let cell := predictCell cell s (cellBytes display rowNum i)
  match (if i + 2 < display.cols then next else none) with
  | some n => takeFrom cell n (cellBytes display rowNum (i + 1))
  | none => { cell with unknown := true }

/-- The loop of `predict_char` is a sweep from the right. -/
theorem getElem?_shiftRight (display : FrameState) (rowNum : ℕ) (s : Stamp)
    (cells : List CellOverlay) (col m i : ℕ) :
    ((List.range' (col + 1) m).reverse.foldl (shiftRight display rowNum s) cells)[i]? =
      if col < i ∧ i ≤ col + m then
        cells[i]?.map (fromLeft display rowNum s i cells[i - 1]?)
      else cells[i]? := by
  have hsweep : shiftRight display rowNum s =
      Sweep.step (fromLeft display rowNum s) (fun i => i - 1) := rfl
  have horder : (List.range' (col + 1) m).reverse.Pairwise fun i j => i ≠ j ∧ i ≠ j - 1 := by
    rw [List.pairwise_reverse]
    refine (List.pairwise_lt_range' ..).imp fun {i j} hlt => ?_
    omega
  have hmem : i ∈ (List.range' (col + 1) m).reverse ↔ col < i ∧ i ≤ col + m := by
    rw [List.mem_reverse, List.mem_range'_1]
    omega
  rw [hsweep, Sweep.getElem?_foldl_step _ _ horder]
  exact if_congr hmem rfl rfl

/-- The loop of `backspace` is a sweep from the left. -/
theorem getElem?_shiftLeft (display : FrameState) (rowNum : ℕ) (s : Stamp)
    (cells : List CellOverlay) (col m i : ℕ) :
    ((List.range' col m).foldl (shiftLeft display rowNum s) cells)[i]? =
      if col ≤ i ∧ i < col + m then
        cells[i]?.map (fromRight display rowNum s i cells[i + 1]?)
      else cells[i]? := by
  have hsweep : shiftLeft display rowNum s =
      Sweep.step (fromRight display rowNum s) (fun i => i + 1) := rfl
  have horder : (List.range' col m).Pairwise fun i j => i ≠ j ∧ i ≠ j + 1 := by
    refine (List.pairwise_lt_range' ..).imp fun {i j} hlt => ?_
    omega
  rw [hsweep, Sweep.getElem?_foldl_step _ _ horder]
  exact if_congr List.mem_range'_1 rfl rfl

/-- What moves in from the left, or nothing at the right edge. -/
theorem Line.fromLeft {cells : List CellOverlay} (h : Line f e d late cells)
    (hs : Shows f display cells) (hexp : late < s.exp) (hc : cells[i]? = some c)
    (hpos : 0 < i) {e' : Editor} (htext : e'.text i = e.text (i - 1)) :
    Column f e' d late i (fromLeft display f.cursorRow s i cells[i - 1]? c) := by
  have hi : i < cells.length := (List.getElem?_eq_some_iff.1 hc).1
  have hlen := h.length
  unfold Predictor.fromLeft
  split
  · rename_i n hn
    split at hn
    · cases hn
    · refine (h.column i c hc).take hexp _ (h.column _ n hn) (hs.plain _ (by omega)) ?_ htext ?_
      · exact hs.inactive _ n hn
      · exact fun hle => by omega
  · rename_i hn
    refine (h.column i c hc).forget hexp _ ?_
    have hget : cells[i - 1]? = some cells[i - 1] := List.getElem?_eq_getElem (by omega)
    split at hn
    · rename_i hlast
      have := hs.cols
      omega
    · rw [hget] at hn
      cases hn

/-- **An insertion keeps the line.**  Columns behind the cursor take from their left
neighbours, the one at the cursor gets the character, and those in front stay. -/
theorem Line.insert {cells : List CellOverlay} (h : Line f e d late cells)
    (hs : Shows f display cells) (hexp : late < s.exp) (hroom : e.cursor + 1 < f.cols)
    (b : Printable) :
    Line f (e.press f.cols (.type b)) d late
      (insertCells display f.cursorRow e.cursor (display.cols - 1) (charOf b.1) s cells) := by
  have hlen := h.length
  have hcols := hs.cols
  have htext (i : ℕ) : (e.press f.cols (.type b)).text i =
      if i < e.cursor then e.text i
      else if i = e.cursor then some (String.singleton (charOf b.1))
      else if i < f.cols then e.text (i - 1) else none := rfl
  unfold insertCells
  dsimp only
  refine ⟨?_, fun i c hc => ?_⟩
  · rw [List.length_modify, ← hlen]
    exact Sweep.length_foldl_step (Predictor.fromLeft display f.cursorRow s) (fun i => i - 1) _ _
  · rw [List.getElem?_modify, getElem?_shiftRight] at hc
    obtain ⟨c₁, hc₁, rfl⟩ := Option.map_eq_some_iff.1 hc
    by_cases hright : e.cursor < i ∧ i ≤ e.cursor + (display.cols - 1 - e.cursor)
    · rw [if_pos hright] at hc₁
      obtain ⟨c₀, hc₀, rfl⟩ := Option.map_eq_some_iff.1 hc₁
      rw [if_neg (by omega)]
      refine h.fromLeft hs hexp hc₀ (by omega) ?_
      rw [htext, if_neg (by omega), if_neg (by omega), if_pos (by omega)]
    · rw [if_neg hright] at hc₁
      have hi : i < cells.length := (List.getElem?_eq_some_iff.1 hc₁).1
      by_cases hat : e.cursor = i
      · rw [if_pos hat]
        refine (h.column i c₁ hc₁).write hexp _ _ _ ?_
        rw [htext, if_neg (by omega), if_pos hat.symm]
      · rw [if_neg hat]
        refine (h.column i c₁ hc₁).same ?_ le_rfl
        rw [htext, if_pos (by omega)]

/-- What moves in from the right, or nothing at the right edge. -/
theorem Line.fromRight {cells : List CellOverlay} (h : Line f e d late cells)
    (hs : Shows f display cells) (hexp : late < s.exp) (hc : cells[i]? = some c) {e' : Editor}
    (htext : i + 1 < f.cols → e'.text i = e.text (i + 1)) :
    Column f e' (d + 1) late i (fromRight display f.cursorRow s i cells[i + 1]? c) := by
  have hi : i < cells.length := (List.getElem?_eq_some_iff.1 hc).1
  have hlen := h.length
  have hcols := hs.cols
  unfold Predictor.fromRight
  split
  · rename_i n hn
    split at hn
    · refine (h.column i c hc).take hexp _ (h.column _ n hn) (hs.plain _ (by omega)) ?_
        (htext (by omega)) ?_
      · exact hs.inactive _ n hn
      · exact fun hle => by omega
    · cases hn
  · rename_i hn
    refine (h.column i c hc).forget hexp _ ?_
    split at hn
    · rename_i hlt
      have hget : cells[i + 1]? = some cells[i + 1] := List.getElem?_eq_getElem (by omega)
      rw [hget] at hn
      cases hn
    · omega

/-- **A deletion keeps the line.** -/
theorem Line.delete {cells : List CellOverlay} (h : Line f e d late cells)
    (hs : Shows f display cells) (hexp : late < s.exp) (hpos : e.cursor ≠ 0) :
    Line f (e.press f.cols .delete) (d + 1) late
      (backspaceCells display f.cursorRow (e.cursor - 1) false s cells) := by
  have hlen := h.length
  have hcols := hs.cols
  have htext (i : ℕ) : (e.press f.cols .delete).text i =
      if i + 1 < e.cursor then e.text i
      else if i + 1 < f.cols then e.text (i + 1) else none := by
    rw [Editor.press, if_neg hpos]
  unfold backspaceCells
  rw [if_neg Bool.false_ne_true]
  refine ⟨?_, fun i c hc => ?_⟩
  · rw [← hlen]
    exact Sweep.length_foldl_step (Predictor.fromRight display f.cursorRow s) (fun i => i + 1) _ _
  · rw [getElem?_shiftLeft] at hc
    split at hc
    · rename_i hright
      obtain ⟨c₀, hc₀, rfl⟩ := Option.map_eq_some_iff.1 hc
      refine h.fromRight hs hexp hc₀ fun hlt => ?_
      rw [htext, if_neg (by omega), if_pos hlt]
    · have hi : i < cells.length := (List.getElem?_eq_some_iff.1 hc).1
      refine (h.column i c hc).same ?_ (Nat.le_succ d)
      rw [htext, if_pos (by omega)]

/-! ### The row on display -/

/-- The cell overlays of a row that has no predictions yet. -/
def freshCells (numCols epoch enters : ℕ) : List CellOverlay :=
  (List.range numCols).map fun i =>
    { base := .new i epoch enters, replacement := Cell.zero, unknown := false
      originalContents := [] }

/-- A fresh cell has its column and nothing else. -/
theorem getElem?_freshCells {numCols epoch enters : ℕ}
    (hc : (freshCells numCols epoch enters)[i]? = some c) : i < numCols ∧
      c = { base := .new i epoch enters, replacement := Cell.zero, unknown := false
            originalContents := [] } := by
  rw [freshCells, List.getElem?_map] at hc
  obtain ⟨k, hk, rfl⟩ := Option.map_eq_some_iff.1 hc
  obtain ⟨hlt, rfl⟩ := List.getElem?_eq_some_iff.1 hk
  rw [List.length_range] at hlt
  rw [List.getElem_range]
  exact ⟨hlt, rfl⟩

/-- Without a prediction the confirmed line is the reference. -/
theorem line_fresh (epoch enters : ℕ)
    (h : ∀ col < f.cols, e.text col = some (cellText (cellBytes f f.cursorRow col))) :
    Line f e d late (freshCells f.cols epoch enters) where
  length := by rw [freshCells, List.length_map, List.length_range]
  column i c hc := by
    obtain ⟨hlt, rfl⟩ := getElem?_freshCells hc
    exact ⟨rfl, nofun, plain_zero, fun _ => h i hlt, nofun, nofun⟩

/-- `g` is `f` with something drawn over it: in a row the texts are in the cells, and outside
of the columns in `P` the cells are those of `f`. -/
structure Over (f g : FrameState) (row : ℕ) (P : ℕ → Prop) : Prop where
  sized : g.Sized
  rows : g.rows = f.rows
  cols : g.cols = f.cols
  links : g.cellLinks = f.cellLinks
  plain : ∀ col < f.cols, Plain (cellBytes g row col)
  cell : ∀ col < f.cols, ¬P col → cellBytes g row col = cellBytes f row col

section Over

variable {g : FrameState} {row row' col : ℕ} {P : ℕ → Prop}

/-- Overwriting a cell with one that has its text in it. -/
theorem Over.setCell (h : Over f g row P) (hrow : row < f.rows) (hrow' : row' < g.rows)
    (hcol : col < g.cols) (hP : P col) {cell : Cell} (hplain : Plain cell) :
    Over f (setCell g row' col cell) row P := by
  have hcell (col' : ℕ) (hcol' : col' < f.cols) :
      cellBytes (Quosh.setCell g row' col cell) row col' =
        if row = row' ∧ col' = col then cell else cellBytes g row col' :=
    cellBytes_setCell h.sized hrow' hcol (h.rows ▸ hrow) (h.cols ▸ hcol') cell
  refine ⟨h.sized.setCell hrow' hcol cell, h.rows, h.cols, h.links, fun col' hcol' => ?_,
    fun col' hcol' hnot => ?_⟩
  · rw [hcell col' hcol']
    split
    · exact hplain
    · exact h.plain col' hcol'
  · rw [hcell col' hcol', if_neg fun hat : row = row' ∧ col' = col => hnot (hat.2.symm ▸ hP)]
    exact h.cell col' hcol' hnot

/-- Underlining a cell. -/
theorem Over.setUnderline (h : Over f g row P) (hrow : row < f.rows) (hrow' : row' < g.rows)
    (hcol : col < g.cols) (hP : P col) : Over f (setUnderline g row' col) row P := by
  have hcell (col' : ℕ) (hcol' : col' < f.cols) :
      cellBytes (Quosh.setUnderline g row' col) row col' =
        if row = row' ∧ col' = col then underlined (cellBytes g row col')
        else cellBytes g row col' :=
    cellBytes_setUnderline h.sized hrow' hcol (h.rows ▸ hrow) (h.cols ▸ hcol')
  refine ⟨h.sized.setUnderline row' col, h.rows, h.cols, h.links, fun col' hcol' => ?_,
    fun col' hcol' hnot => ?_⟩
  · have hplain := h.plain col' hcol'
    rw [hcell col' hcol']
    split
    · unfold Plain at hplain ⊢
      rwa [cellLen_underlined]
    · exact hplain
  · rw [hcell col' hcol', if_neg fun hat : row = row' ∧ col' = col => hnot (hat.2.symm ▸ hP)]
    exact h.cell col' hcol' hnot

/-- **A cell overlay draws its own column**, and only while it is active. -/
theorem Over.apply (h : Over f g row P) (hrow : row < f.rows) (hplain : Plain c.replacement)
    (hP : c.base.active = true → P c.base.col) (confirmedEpoch : ℕ) (flag : Bool) :
    Over f (c.apply ext g confirmedEpoch row' flag) row P := by
  unfold CellOverlay.apply
  split
  · exact h
  · rename_i hin
    simp only [not_or, not_le, Bool.not_eq_true, Bool.not_eq_false'] at hin
    obtain ⟨hactive, hrow', hcol⟩ := hin
    have hset := h.setCell hrow hrow' hcol (hP hactive) hplain
    split
    · exact h
    · dsimp only
      generalize (if (isBlank (cellText c.replacement) &&
        isBlank (ext.cellContent g row' c.base.col)) = true then false else flag) = shown
      split
      · split
        · exact h.setUnderline hrow hrow' hcol (hP hactive)
        · exact h
      · split
        · split
          · exact hset.setUnderline hrow hrow' hcol (hP hactive)
          · exact hset
        · exact h

end Over

/-- **What a predictor draws over a row** whose texts are in the cells: the columns with an
active overlay. -/
theorem apply_over (hf : f.Sized) {row : ℕ} (hrow : row < f.rows)
    (hplain : ∀ col < f.cols, Plain (cellBytes f row col))
    (hcells : ∀ c ∈ p.cells, Plain c.replacement) :
    Over f (p.apply ext f) row
      fun col => ∃ c ∈ p.cells, c.base.active = true ∧ c.base.col = col := by
  refine apply_induct (I := fun g => Over f g row _) ⟨hf, rfl, rfl, rfl, hplain, fun _ _ _ => rfl⟩
    (fun c hc g row' flag hg => ?_) fun k _ g hg => ?_
  · exact hg.apply hrow (hcells c hc) (fun ha => ⟨c, hc, ha, rfl⟩) _ _
  · unfold CursorOverlay.apply
    split_ifs
    · exact hg
    · exact ⟨hg.sized, hg.rows, hg.cols, hg.links, hg.plain, hg.cell⟩
    · exact hg

/-- The row of a predictor on display. -/
theorem Line.shows {cells : List CellOverlay} (h : Line f e d late cells)
    (hcells : ∀ c ∈ p.cells, c ∈ cells)
    (hover : Over f display f.cursorRow
      fun col => ∃ c ∈ p.cells, c.base.active = true ∧ c.base.col = col) :
    Shows f display cells where
  cols := hover.cols
  plain := hover.plain
  inactive i c hc ha := by
    have hi : i < f.cols := h.length ▸ (List.getElem?_eq_some_iff.1 hc).1
    refine hover.cell i hi fun ⟨c', hc', ha', hcol⟩ => ?_
    obtain ⟨j, hj⟩ := List.getElem?_of_mem (hcells c' hc')
    obtain rfl : j = i := ((h.column j c' hj).col.symm.trans hcol)
    obtain rfl : c = c' := Option.some.inj (hc.symm.trans hj)
    rw [ha] at ha'
    cases ha'

end Predictor
end Quosh
