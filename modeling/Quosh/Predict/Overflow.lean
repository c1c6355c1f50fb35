/-
# Predictions and the overflow table

A cell whose text does not fit has the length 7, and its text is in a table under its place in
the frame.  A frame is `Consistent` when the two agree.  Overlays copy cells from one frame and
are drawn over another, so a copied 7 would point at the text of another cell.

None is ever copied: `Plain` of every stored replacement is an invariant of all calls
(`calls_plain`), since what moves is checked first (`unsupportedRange`) and what is made has its
text in the cell.  So drawing, which overwrites a cell and drops the text that was there,
leaves a consistent frame, and changes only the cells of active overlays that are not tentative
(`apply_draws`).
-/

import Quosh.Predict.Calls
import Mathlib.Tactic.IntervalCases

namespace Quosh
namespace Predictor

variable {σ : Type} {ext : Externals σ} {p : Predictor σ}

/-! ### Stored replacements -/

/-- Every replacement has its text in the cell. -/
def PlainCells (cells : List CellOverlay) : Prop := ∀ c ∈ cells, Plain c.replacement

/-- Every replacement in the rows has its text in the cell. -/
def PlainRows (rows : List Row) : Prop := ∀ r ∈ rows, PlainCells r.cells

/-- What can be moved has its text in the cell. -/
theorem plain_of_unsupportedRange {fb : FrameState} {row start stop col : ℕ}
    (h : unsupportedRange fb row start stop = false) (hstart : start ≤ col) (hstop : col ≤ stop) :
    Plain (cellBytes fb row col) := by
  by_cases hout : row ≥ fb.rows ∨ col ≥ fb.cols
  · rw [cellBytes_of_outside hout]
    exact plain_zero
  · unfold unsupportedRange at h
    rw [if_neg (by omega), List.any_eq_false] at h
    have hmem : col ∈ List.range' start (min stop (fb.cols - 1) + 1 - start) := by
      rw [List.mem_range'_1]
      omega
    have hcell := h col hmem
    simp only [Bool.or_eq_true, not_or, cellIsOverflow, decide_eq_true_eq] at hcell
    exact hcell.1

/-- A cell is modified by an edit that makes plain ones. -/
theorem PlainCells.modify {cells : List CellOverlay} (h : PlainCells cells) {i : ℕ}
    {f : CellOverlay → CellOverlay} (hf : ∀ c, Plain c.replacement → Plain (f c).replacement) :
    PlainCells (cells.modify i f) := by
  intro c hc
  rcases mem_of_mem_modify hc with hc | ⟨d, hd, rfl⟩
  · exact h c hc
  · exact hf d (h d hd)

/-- A prediction leaves the replacement to its caller. -/
theorem replacement_predictCell (c : CellOverlay) (s : Stamp) (actual : Cell) :
    (predictCell c s actual).replacement = c.replacement := by
  unfold predictCell CellOverlay.resetWithOrig
  dsimp only
  split <;> rfl

/-- What moves in is a stored replacement or a cell of the frame. -/
theorem plain_takeFrom {c n : CellOverlay} {actual : Cell} (hc : Plain c.replacement)
    (hn : Plain n.replacement) (hactual : Plain actual) :
    Plain (takeFrom c n actual).replacement := by
  unfold takeFrom
  split
  · split
    · exact hc
    · exact hn
  · exact hactual

/-- A cell of the row. -/
theorem PlainCells.getElem? {cells : List CellOverlay} (h : PlainCells cells) {i : ℕ}
    {c : CellOverlay} (hc : cells[i]? = some c) : Plain c.replacement :=
  h c (List.mem_of_getElem? hc)

/-- A cell takes what is on its right, which was checked. -/
theorem PlainCells.shiftLeft {display : FrameState} {rowNum i : ℕ} {s : Stamp}
    {cells : List CellOverlay} (h : PlainCells cells)
    (hnext : i + 2 < display.cols → Plain (cellBytes display rowNum (i + 1))) :
    PlainCells (shiftLeft display rowNum s cells i) := by
  unfold Predictor.shiftLeft
  refine h.modify fun c hc => ?_
  have hpredict : Plain (predictCell c s (cellBytes display rowNum i)).replacement := by
    rwa [replacement_predictCell]
  dsimp only
  split
  · rename_i n hn
    split at hn
    · exact plain_takeFrom hpredict (h.getElem? hn) (hnext ‹_›)
    · cases hn
  · exact hpredict

/-- A cell takes what is on its left, which was checked. -/
theorem PlainCells.shiftRight {display : FrameState} {rowNum i : ℕ} {s : Stamp}
    {cells : List CellOverlay} (h : PlainCells cells)
    (hprev : Plain (cellBytes display rowNum (i - 1))) :
    PlainCells (shiftRight display rowNum s cells i) := by
  unfold Predictor.shiftRight
  refine h.modify fun c hc => ?_
  have hpredict : Plain (predictCell c s (cellBytes display rowNum i)).replacement := by
    rwa [replacement_predictCell]
  dsimp only
  split
  · rename_i n hn
    split at hn
    · cases hn
    · exact plain_takeFrom hpredict (h.getElem? hn) hprev
  · exact hpredict

/-- **A deletion** moves only what can be moved. -/
theorem PlainCells.backspaceCells {display : FrameState} {rowNum col : ℕ} {overwrite : Bool}
    {s : Stamp} {cells : List CellOverlay} (h : PlainCells cells)
    (hrange : overwrite = false →
      unsupportedRange display rowNum col (display.cols - 1) = false) :
    PlainCells (backspaceCells display rowNum col overwrite s cells) := by
  unfold Predictor.backspaceCells
  split
  · exact h.modify fun c _ => plain_makeBlankCell _
  · rename_i hoverwrite
    have hrange := hrange (by simpa using hoverwrite)
    refine List.foldlRecOn (motive := PlainCells) _ _ h fun cells hcells i hi => ?_
    rw [List.mem_range'_1] at hi
    exact hcells.shiftLeft fun hlt => plain_of_unsupportedRange hrange (by omega) (by omega)

/-- **An insertion** moves only what can be moved. -/
theorem PlainCells.insertCells {display : FrameState} {rowNum col rightmost : ℕ} {ch : Char}
    {s : Stamp} {cells : List CellOverlay} (h : PlainCells cells)
    (hrange : unsupportedRange display rowNum col rightmost = false) :
    PlainCells (insertCells display rowNum col rightmost ch s cells) := by
  unfold Predictor.insertCells
  dsimp only
  refine PlainCells.modify ?_ fun c _ => plain_makeCharCell _ _
  refine List.foldlRecOn (motive := PlainCells) _ _ h fun cells hcells i hi => ?_
  rw [List.mem_reverse, List.mem_range'_1] at hi
  exact hcells.shiftRight (plain_of_unsupportedRange hrange (by omega) (by omega))

/-- Blank cells have their text. -/
theorem plainCells_blankCells (s : Stamp) (cells : List CellOverlay) :
    PlainCells (blankCells s cells) := by
  intro c hc
  obtain ⟨d, -, rfl⟩ := List.mem_map.1 hc
  exact plain_makeBlankCell _

/-- An edit of a row that is there, or of a fresh one. -/
theorem PlainRows.modifyRow (h : PlainRows p.overlays) (rowNum numCols epoch : ℕ)
    {f : List CellOverlay → List CellOverlay}
    (hf : ∀ cells, PlainCells cells → PlainCells (f cells)) :
    PlainRows (p.modifyRow rowNum numCols epoch f).overlays := by
  have hrows : PlainRows (getOrMakeRow p.overlays rowNum numCols epoch p.enters).1 := by
    unfold getOrMakeRow
    split
    · exact h
    · intro r hr
      rcases List.mem_append.1 hr with hr | hr
      · exact h r hr
      · rw [List.mem_singleton.1 hr]
        intro c hc
        obtain ⟨i, -, rfl⟩ := List.mem_map.1 hc
        exact plain_zero
  intro r hr
  rcases mem_of_mem_modify hr with hr | ⟨r', hr', rfl⟩
  · exact hrows r hr
  · exact hf _ (hrows r' hr')

/-! ### Calls -/

/-- The first cursor changes no row. -/
theorem initCursor_overlays (p : Predictor σ) (fb : FrameState) :
    (p.initCursor fb).overlays = p.overlays := by
  unfold initCursor
  split
  · rfl
  · split <;> rfl

/-- A new line makes blank cells. -/
theorem PlainRows.newline (h : PlainRows p.overlays) (display : FrameState) (now : ℕ) :
    PlainRows (p.newlineCarriageReturn display now).overlays := by
  have hinit : PlainRows (p.initCursor display).overlays := by
    rwa [initCursor_overlays]
  unfold newlineCarriageReturn
  dsimp only
  split
  · split
    · exact hinit
    · exact PlainRows.modifyRow (p := (p.initCursor display).modifyCursor _) hinit _ _ _
        fun cells _ => plainCells_blankCells _ cells
  · exact hinit

/-- A backspace moves cells that were checked. -/
theorem PlainRows.backspace (h : PlainRows p.overlays) (display : FrameState) (now : ℕ) :
    PlainRows (p.backspace display now).overlays := by
  unfold Predictor.backspace
  dsimp only
  split
  · exact h
  · split
    · exact h
    · rename_i hrange
      refine PlainRows.modifyRow (p := p.modifyCursor _) h _ _ _ fun cells hcells => ?_
      refine hcells.backspaceCells fun hoverwrite => ?_
      have hoverwrite : p.predictOverwrite = false := hoverwrite
      rw [editEnd, hoverwrite] at hrange
      simpa using hrange

/-- So does a character that is put into a row. -/
theorem PlainRows.insertChar (h : PlainRows p.overlays) {ch : Char} {display : FrameState}
    {now rowNum col rightmost oldEpoch : ℕ}
    (hrange : unsupportedRange display rowNum col rightmost = false) :
    PlainRows (p.insertChar ch display now rowNum col rightmost oldEpoch).overlays := by
  have hrow := h.modifyRow rowNum display.cols oldEpoch
    (f := insertCells display rowNum col rightmost ch (p.stampNow now))
    fun cells hcells => hcells.insertCells hrange
  unfold Predictor.insertChar
  dsimp only
  split
  · exact hrow
  · refine PlainRows.newline ?_ display now
    exact hrow

/-- So does one that wraps to the next row. -/
theorem PlainRows.predictChar (h : PlainRows p.overlays) (ch : Char) (display : FrameState)
    (now : ℕ) : PlainRows (p.predictChar ch display now).overlays := by
  unfold Predictor.predictChar
  dsimp only
  split
  · exact h
  · split
    · exact h
    · rename_i hrange
      have hrange := Bool.eq_false_iff.2 hrange
      split
      · exact PlainRows.insertChar (p := p.becomeTentative) h hrange
      · exact h.insertChar hrange

/-- So does any character that is typed. -/
theorem PlainRows.handlePrint (h : PlainRows p.overlays) (ch : Char) (display : FrameState)
    (now : ℕ) : PlainRows (p.handlePrint ext ch display now).overlays := by
  have hinit : PlainRows (p.initCursor display).overlays := by
    rwa [initCursor_overlays]
  unfold Predictor.handlePrint
  dsimp only
  split
  · exact hinit.backspace display now
  · split
    · exact hinit
    · exact hinit.predictChar ch display now

/-- Every act of the parser keeps the rows plain. -/
theorem PlainRows.dispatch (h : PlainRows p.overlays) (display : FrameState) (now : ℕ)
    (act : Act) : PlainRows (p.dispatch ext display now act).overlays := by
  have hinit : PlainRows (p.initCursor display).overlays := by
    rwa [initCursor_overlays]
  cases act with
  | print ch => exact h.handlePrint ch display now
  | execute byte =>
    rw [Predictor.dispatch]
    split
    · dsimp only
      refine PlainRows.newline ?_ display now
      exact h
    · exact h
  | csi action =>
    rw [Predictor.dispatch]
    dsimp only
    split_ifs <;> first | exact hinit | exact h
  | esc => exact h

/-- A cull copies no text. -/
theorem PlainRows.cull (h : PlainRows p.overlays) (fb : FrameState) (now : ℕ) :
    PlainRows (p.cull ext fb now).overlays := by
  intro r' hr' c' hc'
  obtain ⟨-, r, hr, hshape⟩ := cull_shape p fb now hr'
  have hmem : c'.shape ∈ r'.cells.map CellOverlay.shape := List.mem_map_of_mem hc'
  rw [show r'.cells.map CellOverlay.shape = _ from congrArg Prod.snd hshape] at hmem
  obtain ⟨c, hc, he⟩ := List.mem_map.1 hmem
  have hlen : cellLen c.replacement = cellLen c'.replacement := congrArg Prod.snd he
  have hplain := h r hr c hc
  unfold Plain at hplain ⊢
  rwa [← hlen]

/-- Every byte does. -/
theorem PlainRows.newUserByte (h : PlainRows p.overlays) (byte : UInt8) (display : FrameState)
    (now : ℕ) : PlainRows (p.newUserByte ext byte display now).overlays := by
  have hcull : PlainRows (p.cull ext display now).overlays := h.cull display now
  unfold Predictor.newUserByte
  split
  · exact h
  · unfold feedByte
    dsimp only
    split
    · refine PlainRows.handlePrint ?_ _ display now
      exact hcull
    · exact List.foldlRecOn (motive := fun q : Predictor σ => PlainRows q.overlays) _ _ hcull
        fun q hq act _ => hq.dispatch display now act

/-- **Every call keeps the rows plain.** -/
theorem PlainRows.call (h : PlainRows p.overlays) (k : Call) :
    PlainRows (p.call ext k).overlays := by
  cases k with
  | reset => exact fun r hr => absurd hr List.not_mem_nil
  | newUserByte byte display now => exact h.newUserByte byte display now
  | cull fb now => exact h.cull fb now
  | _ => exact h

/-- **No stored replacement has its text elsewhere**, whatever was called with whatever frames. -/
theorem calls_plain (cs : List Call) : PlainRows ((new ext).calls ext cs).overlays := by
  refine List.foldlRecOn (motive := fun q : Predictor σ => PlainRows q.overlays) _ _ ?_
    fun q hq k _ => hq.call k
  exact fun r hr => absurd hr List.not_mem_nil

end Predictor

/-! ### Drawing -/

/-- **A consistent frame**: its cells are there, and the overflow table has a text for a cell
if and only if the cell says so. -/
structure FrameState.Consistent (f : FrameState) : Prop where
  sized : f.Sized
  overflow : ∀ row col, row < f.rows → col < f.cols →
    ((f.overflow.get? (row * f.cols + col)).isSome ↔ cellLen (cellBytes f row col) = 7)

/-- Drawing turns `f` into the consistent frame `g`: outside of `P` every cell and its overflow
text stay, and so does all else but the cursor. -/
structure Draws (P : ℕ → ℕ → Prop) (f g : FrameState) : Prop where
  consistent : g.Consistent
  rows : g.rows = f.rows
  cols : g.cols = f.cols
  mode : g.mode = f.mode
  title : g.title = f.title
  links : g.cellLinks = f.cellLinks
  cell : ∀ row col, row < f.rows → col < f.cols → ¬P row col →
    cellBytes g row col = cellBytes f row col ∧
      g.overflow.get? (row * f.cols + col) = f.overflow.get? (row * f.cols + col)

namespace Draws

variable {P Q : ℕ → ℕ → Prop} {f g k : FrameState}

theorem refl (hf : f.Consistent) : Draws P f f :=
  ⟨hf, rfl, rfl, rfl, rfl, rfl, fun _ _ _ _ _ => ⟨rfl, rfl⟩⟩

theorem trans (h : Draws P f g) (h' : Draws P g k) : Draws P f k where
  consistent := h'.consistent
  rows := h'.rows.trans h.rows
  cols := h'.cols.trans h.cols
  mode := h'.mode.trans h.mode
  title := h'.title.trans h.title
  links := h'.links.trans h.links
  cell row col hrow hcol hnot := by
    obtain ⟨hbytes, htext⟩ := h.cell row col hrow hcol hnot
    obtain ⟨hbytes', htext'⟩ := h'.cell row col (h.rows ▸ hrow) (h.cols ▸ hcol) hnot
    rw [h.cols] at htext'
    exact ⟨hbytes'.trans hbytes, htext'.trans htext⟩

/-- More cells may be drawn. -/
theorem mono (h : Draws P f g) (hPQ : ∀ row col, P row col → Q row col) : Draws Q f g :=
  { h with cell := fun row col hrow hcol hnot => h.cell row col hrow hcol (mt (hPQ row col) hnot) }

/-- Moving the cursor draws nothing. -/
theorem setCursor (hf : f.Consistent) (row col : ℕ) : Draws P f (f.setCursor row col) :=
  ⟨⟨hf.sized, hf.overflow⟩, rfl, rfl, rfl, rfl, rfl, fun _ _ _ _ _ => ⟨rfl, rfl⟩⟩

/-- Each of the places of a frame is of one cell. -/
theorem flat_eq_iff {cols row col row' col' : ℕ} (hcol : col < cols) (hcol' : col' < cols) :
    row' * cols + col' = row * cols + col ↔ row' = row ∧ col' = col :=
  ⟨Blocks.place_inj hcol' hcol, fun ⟨hr, hc⟩ => by rw [hr, hc]⟩

/-- **Overwriting a cell** with one that has its text in it. -/
theorem setCell (hf : f.Consistent) {row col : ℕ} (hrow : row < f.rows) (hcol : col < f.cols)
    {cell : Cell} (hplain : Plain cell) :
    Draws (fun row' col' => row' = row ∧ col' = col) f (setCell f row col cell) := by
  refine ⟨⟨hf.sized.setCell hrow hcol cell, fun row' col' hrow' hcol' => ?_⟩, rfl, rfl, rfl,
    rfl, rfl, fun row' col' hrow' hcol' hnot => ?_⟩
  · rw [cellBytes_setCell hf.sized hrow hcol hrow' hcol' cell]
    simp only [Quosh.setCell, SortedTable.get?_remove]
    rw [if_congr (flat_eq_iff hcol hcol') rfl rfl]
    split
    · constructor
      · intro h
        cases h
      · intro hlen
        exact absurd hlen hplain
    · exact hf.overflow row' col' hrow' hcol'
  · rw [cellBytes_setCell hf.sized hrow hcol hrow' hcol' cell, if_neg hnot]
    simp only [Quosh.setCell, SortedTable.get?_remove]
    exact ⟨trivial, if_neg (mt (flat_eq_iff hcol hcol').1 hnot)⟩

/-- **Underlining a cell.** -/
theorem setUnderline (hf : f.Consistent) {row col : ℕ} (hrow : row < f.rows)
    (hcol : col < f.cols) :
    Draws (fun row' col' => row' = row ∧ col' = col) f (setUnderline f row col) := by
  refine ⟨⟨hf.sized.setUnderline row col, fun row' col' hrow' hcol' => ?_⟩, rfl, rfl, rfl, rfl, rfl,
    fun row' col' hrow' hcol' hnot => ?_⟩
  · have hlen : cellLen (cellBytes (Quosh.setUnderline f row col) row' col') =
        cellLen (cellBytes f row' col') := by
      rw [cellBytes_setUnderline hf.sized hrow hcol hrow' hcol']
      split
      · exact cellLen_underlined _
      · rfl
    rw [hlen]
    exact hf.overflow row' col' hrow' hcol'
  · rw [cellBytes_setUnderline hf.sized hrow hcol hrow' hcol', if_neg hnot]
    exact ⟨rfl, rfl⟩

end Draws

/-- **A cell overlay draws its own cell**, and only while it is active and not tentative.
It replaces the cell, underlines it, or does both or nothing. -/
theorem CellOverlay.apply_draws {σ : Type} {ext : Externals σ} {c : CellOverlay} {f : FrameState}
    (hf : f.Consistent) (hplain : Plain c.replacement) (confirmedEpoch row : ℕ) (flag : Bool) :
    Draws (fun row' col' => row' = row ∧ col' = c.base.col ∧ c.base.active = true ∧
      c.base.tentative confirmedEpoch = false) f (c.apply ext f confirmedEpoch row flag) := by
  unfold CellOverlay.apply
  split
  · exact .refl hf
  · rename_i hin
    split
    · exact .refl hf
    · rename_i htentative
      have hactive : c.base.active = true := by
        simpa using fun h => hin (.inl h)
      have hrow : row < f.rows := not_le.1 fun h => hin (.inr (.inl h))
      have hcol : c.base.col < f.cols := not_le.1 fun h => hin (.inr (.inr h))
      have hmono (row' col' : ℕ) (h : row' = row ∧ col' = c.base.col) : row' = row ∧
          col' = c.base.col ∧ c.base.active = true ∧ c.base.tentative confirmedEpoch = false :=
        ⟨h.1, h.2, hactive, Bool.eq_false_iff.2 htentative⟩
      have hset := (Draws.setCell hf hrow hcol hplain).mono hmono
      have hunder {g : FrameState} (hg : Draws _ f g) :=
        hg.trans ((Draws.setUnderline hg.consistent (hg.rows ▸ hrow) (hg.cols ▸ hcol)).mono hmono)
      dsimp only
      generalize (if (isBlank (cellText c.replacement) &&
        isBlank (ext.cellContent f row c.base.col)) = true then false else flag) = shown
      split
      · split
        · exact hunder (.refl hf)
        · exact .refl hf
      · split
        · split
          · exact hunder hset
          · exact hset
        · exact .refl hf

/-- A cursor overlay draws no cell. -/
theorem CursorOverlay.apply_draws {P : ℕ → ℕ → Prop} {k : CursorOverlay} {f : FrameState}
    (hf : f.Consistent) (confirmedEpoch : ℕ) : Draws P f (k.apply f confirmedEpoch) := by
  unfold CursorOverlay.apply
  split
  · exact .refl hf
  · split
    · exact .setCursor hf ..
    · exact .refl hf

namespace Predictor

variable {σ : Type} {ext : Externals σ} {p : Predictor σ}

/-- There is an active overlay of the cell that is not tentative. -/
def Drawn (p : Predictor σ) (row col : ℕ) : Prop :=
  ∃ r ∈ p.overlays, ∃ c ∈ r.cells, row = r.rowNum ∧ col = c.base.col ∧ c.base.active = true ∧
    c.base.tentative p.confirmedEpoch = false

/-- **What is drawn over a consistent frame**, if every replacement has its text in the cell. -/
theorem apply_draws (h : PlainRows p.overlays) {f : FrameState} (hf : f.Consistent) :
    Draws p.Drawn f (p.apply ext f) := by
  unfold apply
  split
  · exact .refl hf
  · split
    · exact .refl hf
    · dsimp only
      refine List.foldlRecOn (motive := Draws p.Drawn f) _ _ ?_ fun g hg r hr => ?_
      · exact List.foldlRecOn (motive := Draws p.Drawn f) _ _ (.refl hf) fun g hg k _ =>
          hg.trans (CursorOverlay.apply_draws hg.consistent _)
      · refine List.foldlRecOn (motive := Draws p.Drawn f) _ _ hg fun g hg c hc => ?_
        refine hg.trans ((CellOverlay.apply_draws hg.consistent (h r hr c hc) _ _ _).mono ?_)
        exact fun row col hcell => ⟨r, hr, c, hc, hcell⟩

/-- **Prediction never corrupts the overflow table.**  Whatever was called before, with
whatever frames, drawing over a consistent frame gives a consistent frame, and changes only the
cursor and the cells with an active overlay that is not tentative. -/
theorem apply_never_corrupts (cs : List Call) {f : FrameState} (hf : f.Consistent) :
    Draws ((new ext).calls ext cs).Drawn f (((new ext).calls ext cs).apply ext f) :=
  apply_draws (calls_plain cs) hf

/-- A cell of one character in the default style. -/
def charBytes (b : UInt8) : Bytes := [0, 8, 0, 0, 0, 0, 0, 0, b, 0, 0, 0]

/-- A frame of two rows and four columns with `first` in its first cell, the cursor behind it,
and a text in the overflow table at the start of the second row. -/
def markedFrame (first : Bytes) (cursorCol : ℕ) : FrameState :=
  { rows := 2, cols := 4, cursorRow := 0, cursorCol, mode := 0, title := ""
    cells := first ++ List.replicate 36 0 ++ [0, 56] ++ List.replicate 46 0
    overflow := { entries := [(4, "e")] }
    cellLinks := [] }

/-- A character is typed and echoed, and a second one is typed. -/
def typedCalls : List Call :=
  [.setDisplayPreference .always,
    .newUserByte 0x78 (markedFrame (List.replicate 12 0) 0) 0,
    .setLocalFrameLateAcked 1,
    .cull (markedFrame (charBytes 0x78) 1) 10,
    .setLocalFrameSent 1,
    .newUserByte 0x79 (markedFrame (charBytes 0x78) 1) 20]

/-- The hypothesis of `apply_never_corrupts` is satisfiable: the second character is drawn
over a frame with a text in the overflow table. -/
theorem apply_never_corrupts_typed :
    cellText (cellBytes (((new Externals.ascii).calls .ascii typedCalls).apply .ascii
        (markedFrame (charBytes 0x78) 1)) 0 1) = "y" ∧
      Draws ((new Externals.ascii).calls .ascii typedCalls).Drawn (markedFrame (charBytes 0x78) 1)
        (((new Externals.ascii).calls .ascii typedCalls).apply .ascii
          (markedFrame (charBytes 0x78) 1)) := by
  refine ⟨by decide +kernel, apply_never_corrupts typedCalls ⟨rfl, fun row col hrow hcol => ?_⟩⟩
  have hrow : row < 2 := hrow
  have hcol : col < 4 := hcol
  interval_cases row <;> interval_cases col <;> decide

end Predictor
end Quosh
