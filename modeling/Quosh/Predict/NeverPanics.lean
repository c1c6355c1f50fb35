/-
# The predictor never panics

Each function of the checked predictor answers what its namesake does, on a well-formed frame
and a predictor that `Fits` it: a row has as many cells as the frame columns, and a cursor is
at most one past the right edge and in a row below 2¹⁶.  The functions are taken in the order
of the source, each with the equation and with what it keeps (`backspace_ok`, ...).

A byte starts with a cull against the same frame, after which the cursors are in the grid; it
can push them below it by at most one row for each event that the parser reports.  So no
addition overflows as long as one byte makes the parser report fewer than 2¹⁶ − 512 of them
(`never_panics`).
-/

import Quosh.Predict.Await
import Quosh.Predict.Checked

namespace Quosh
namespace Predictor
namespace Checked

open Panic

variable {σ : Type} {ext : Externals σ} {p : Predictor σ} {d fb : FrameState} {top : ℕ}

/-! ### Cells of a frame -/

/-- A cell is looked up in a row that is there, or not at all. -/
theorem cellBytes_ok (h : fb.Sized) (row col : ℕ) :
    cellBytes fb row col = .ok (Quosh.cellBytes fb row col) := by
  unfold cellBytes Quosh.cellBytes
  split
  · rfl
  · rename_i hin
    have hle : index fb.cols row col + cellSize ≤ fb.cells.length :=
      h.cell_le (by omega) (by omega)
    rw [slice_ok hle, ok_bind]
    refine congrArg Except.ok (congrArg Vector.ofFn (funext fun k => ?_))
    have hk : k.val < cellSize := k.isLt
    simp only [List.getD_eq_getElem?_getD, List.getElem?_take, List.getElem?_drop, if_pos hk]

/-- A range of columns is looked through. -/
theorem unsupportedRange_ok (h : fb.Sized) (row start stop : ℕ) :
    unsupportedRange fb row start stop = .ok (Quosh.unsupportedRange fb row start stop) := by
  unfold unsupportedRange Quosh.unsupportedRange
  split
  · rfl
  · refine anyM_ok fun c _ => ?_
    rw [cellBytes_ok h, ok_bind]
    rfl

/-! ### Cells of a row -/

/-- A row stays as long when a cell moves left. -/
theorem length_shiftLeft (rowNum : ℕ) (s : Stamp) (cells : List CellOverlay) (i : ℕ) :
    (Predictor.shiftLeft d rowNum s cells i).length = cells.length := by
  simp [Predictor.shiftLeft]

/-- A row stays as long when a cell moves right. -/
theorem length_shiftRight (rowNum : ℕ) (s : Stamp) (cells : List CellOverlay) (i : ℕ) :
    (Predictor.shiftRight d rowNum s cells i).length = cells.length := by
  simp [Predictor.shiftRight]

/-- The neighbour that `backspace` looks at is in the row. -/
theorem shiftLeft_ok (hd : d.WellFormed) (rowNum : ℕ) (s : Stamp) {cells : List CellOverlay}
    (hlen : cells.length = d.cols) {i : ℕ} (hi : i < d.cols) :
    shiftLeft d rowNum s cells i = .ok (Predictor.shiftLeft d rowNum s cells i) := by
  have hcols := hd.cols_le
  have hcell : i < cells.length := by omega
  unfold shiftLeft Predictor.shiftLeft
  rw [add_ok (show i + 2 < 2 ^ 16 by omega), ok_bind]
  split
  · have hget : cells[i + 1]? = some cells[i + 1] := List.getElem?_eq_getElem (by omega)
    have hadd : add 16 i 1 = .ok (i + 1) := add_ok (by omega)
    simp only [get_ok hget, hadd, ok_bind, pure_bind, cellBytes_ok hd.sized, update_ok hcell, hget]
  · simp only [ok_bind, pure_bind, cellBytes_ok hd.sized, update_ok hcell]

/-- The neighbour that `predict_char` looks at is in the row. -/
theorem shiftRight_ok (hd : d.WellFormed) (rowNum : ℕ) (s : Stamp) {cells : List CellOverlay}
    (hlen : cells.length = d.cols) {i : ℕ} (hpos : 1 ≤ i) (hi : i < d.cols) :
    shiftRight d rowNum s cells i = .ok (Predictor.shiftRight d rowNum s cells i) := by
  have hcell : i < cells.length := by omega
  unfold shiftRight Predictor.shiftRight
  rw [sub_ok hd.cols_pos, ok_bind]
  split
  · simp only [ok_bind, pure_bind, cellBytes_ok hd.sized, update_ok hcell, sub_ok hpos]
    rfl
  · have hget : cells[i - 1]? = some cells[i - 1] := List.getElem?_eq_getElem (by omega)
    simp only [get_ok hget, ok_bind, pure_bind, cellBytes_ok hd.sized, update_ok hcell,
      sub_ok hpos, hget]
    rfl

/-- A deletion stays in the row. -/
theorem backspaceCells_ok (hd : d.WellFormed) (rowNum : ℕ) {col : ℕ} (hcol : col < d.cols)
    (overwrite : Bool) (s : Stamp) {cells : List CellOverlay} (hlen : cells.length = d.cols) :
    backspaceCells d rowNum col overwrite s cells =
        .ok (Predictor.backspaceCells d rowNum col overwrite s cells) ∧
      (Predictor.backspaceCells d rowNum col overwrite s cells).length = d.cols := by
  unfold backspaceCells Predictor.backspaceCells
  split
  · rw [cellBytes_ok hd.sized, ok_bind, update_ok (by omega)]
    exact ⟨rfl, by rw [List.length_modify, hlen]⟩
  · refine foldlM_ok (fun cells : List CellOverlay => cells.length = d.cols) hlen
      fun cells i hi hcells => ?_
    rw [List.mem_range'_1] at hi
    exact ⟨shiftLeft_ok hd rowNum s hcells (by omega), by rw [length_shiftLeft, hcells]⟩

/-- The attributes of a cell come from the one in front of it. -/
theorem baseRendition_ok (hd : d.WellFormed) (rowNum : ℕ) {col : ℕ} (hcol : col < d.cols)
    {cells : List CellOverlay} (hlen : cells.length = d.cols) :
    baseRendition d rowNum col cells = .ok (Predictor.baseRendition d rowNum col cells) := by
  unfold baseRendition Predictor.baseRendition
  rw [cellBytes_ok hd.sized, ok_bind]
  split
  · have hget : cells[col - 1]? = some cells[col - 1] := List.getElem?_eq_getElem (by omega)
    have hsub : sub col 1 = .ok (col - 1) := sub_ok (by omega)
    simp only [hsub, get_ok hget, ok_bind, cellBytes_ok hd.sized, hget]
    split <;> rfl
  · rfl

/-- An insertion stays in the row. -/
theorem insertCells_ok (hd : d.WellFormed) (rowNum : ℕ) {col rightmost : ℕ}
    (hcol : col < d.cols) (hright : rightmost < d.cols) (ch : Char) (s : Stamp)
    {cells : List CellOverlay} (hlen : cells.length = d.cols) :
    insertCells d rowNum col rightmost ch s cells =
        .ok (Predictor.insertCells d rowNum col rightmost ch s cells) ∧
      (Predictor.insertCells d rowNum col rightmost ch s cells).length = d.cols := by
  obtain ⟨hloop, hcells⟩ := foldlM_ok (f := shiftRight d rowNum s)
    (g := Predictor.shiftRight d rowNum s) (fun cells : List CellOverlay => cells.length = d.cols)
    (l := (List.range' (col + 1) (rightmost - col)).reverse) hlen fun cells i hi hcells => by
      rw [List.mem_reverse, List.mem_range'_1] at hi
      exact ⟨shiftRight_ok hd rowNum s hcells (by omega) (by omega),
        by rw [length_shiftRight, hcells]⟩
  unfold insertCells Predictor.insertCells
  rw [hloop, ok_bind, baseRendition_ok hd rowNum hcol hcells, ok_bind, cellBytes_ok hd.sized,
    ok_bind, update_ok (by omega)]
  exact ⟨rfl, by rw [List.length_modify, hcells]⟩

/-! ### Rows and cursors -/

/-- **What input on a frame relies on**: rows are as wide as the frame, and cursors at most one
past its right edge and not below row `top`. -/
structure Fits (d : FrameState) (top : ℕ) (p : Predictor σ) : Prop where
  sent : p.localFrameSent + 1 < 2 ^ 64
  row : ∀ r ∈ p.overlays, r.cells.length = d.cols
  cursor : ∀ k ∈ p.cursors, k.row ≤ top ∧ k.col ≤ d.cols

/-- A higher bound on the rows. -/
theorem Fits.mono {top' : ℕ} (h : Fits d top p) (hle : top ≤ top') : Fits d top' p :=
  ⟨h.sent, h.row, fun k hk => ⟨(h.cursor k hk).1.trans hle, (h.cursor k hk).2⟩⟩

/-- Another epoch moves nothing. -/
theorem Fits.becomeTentative (h : Fits d top p) : Fits d top p.becomeTentative :=
  ⟨h.sent, h.row, h.cursor⟩

/-- The last cursor is there, where there is one. -/
theorem cursor_ok (hc : p.cursors ≠ []) : cursor p = .ok p.cursor := by
  obtain ⟨ks, hks⟩ := exists_cursors hc
  refine last_ok ?_
  rw [hks, List.getLast?_concat]

/-- An edit of the last cursor that does not panic. -/
theorem modifyCursor_ok (hc : p.cursors ≠ []) {f : CursorOverlay → Except Panic CursorOverlay}
    {g : CursorOverlay → CursorOverlay} (hf : f p.cursor = .ok (g p.cursor)) :
    modifyCursor p f = .ok (p.modifyCursor g) := by
  obtain ⟨ks, hks, hg⟩ := cursors_modifyCursor hc g
  have hcursors : p.cursors.modifyLast (fun _ => g p.cursor) = p.cursors.modifyLast g := by
    rw [show p.cursors.modifyLast g = _ from hg, hks, List.modifyLast_concat]
  unfold modifyCursor
  rw [show last p.cursors = _ from cursor_ok hc, ok_bind, hf, ok_bind]
  unfold Predictor.modifyCursor
  rw [hcursors]
  rfl

/-- The last cursor is modified, where there is one. -/
theorem modifyCursor_pure (hc : p.cursors ≠ []) (g : CursorOverlay → CursorOverlay) :
    modifyCursor p (fun c => .ok (g c)) = .ok (p.modifyCursor g) :=
  modifyCursor_ok hc rfl

/-- A cursor that is moved within the bounds. -/
theorem Fits.modifyCursor (h : Fits d top p) (hc : p.cursors ≠ [])
    {f : CursorOverlay → CursorOverlay}
    (hf : (f p.cursor).row ≤ top ∧ (f p.cursor).col ≤ d.cols) :
    Fits d top (p.modifyCursor f) where
  sent := h.sent
  row := h.row
  cursor k hk := by
    obtain ⟨ks, hks, hnew⟩ := cursors_modifyCursor hc f
    rw [hnew] at hk
    rcases List.mem_append.1 hk with hk | hk
    · exact h.cursor k (hks ▸ List.mem_append_left _ hk)
    · rw [List.mem_singleton.1 hk]
      exact hf

/-- A cursor within the bounds joins the others. -/
theorem Fits.pushCursor (h : Fits d top p) {row col : ℕ} (hr : row ≤ top) (hcol : col ≤ d.cols) :
    Fits d top (p.pushCursor row col) where
  sent := h.sent
  row := h.row
  cursor k hk := by
    rcases List.mem_append.1 hk with hk | hk
    · exact h.cursor k hk
    · rw [List.mem_singleton.1 hk]
      exact ⟨hr, hcol⟩

/-- A row that is there, or a fresh one, is as wide as the frame. -/
theorem getOrMakeRow_fits (h : Fits d top p) (rowNum epoch : ℕ) :
    (∀ r ∈ (getOrMakeRow p.overlays rowNum d.cols epoch p.enters).1, r.cells.length = d.cols) ∧
      (getOrMakeRow p.overlays rowNum d.cols epoch p.enters).2 <
        (getOrMakeRow p.overlays rowNum d.cols epoch p.enters).1.length := by
  unfold getOrMakeRow
  split
  · rename_i pos hpos
    exact ⟨h.row, (List.findIdx?_eq_some_iff_getElem.1 hpos).1⟩
  · refine ⟨fun r hr => ?_, ?_⟩
    · rcases List.mem_append.1 hr with hr | hr
      · exact h.row r hr
      · rw [List.mem_singleton.1 hr, List.length_map, List.length_range]
    · rw [List.length_append]
      exact Nat.lt_succ_self _

/-- **An edit of a row** that does not panic and keeps its width. -/
theorem modifyRow_ok (h : Fits d top p) (rowNum epoch : ℕ)
    {f : List CellOverlay → Except Panic (List CellOverlay)}
    {g : List CellOverlay → List CellOverlay}
    (hfg : ∀ cells, cells.length = d.cols → f cells = .ok (g cells) ∧ (g cells).length = d.cols) :
    modifyRow p rowNum d.cols epoch f = .ok (p.modifyRow rowNum d.cols epoch g) ∧
      Fits d top (p.modifyRow rowNum d.cols epoch g) := by
  obtain ⟨hrows, hpos⟩ := getOrMakeRow_fits h rowNum epoch
  unfold modifyRow Predictor.modifyRow
  generalize getOrMakeRow p.overlays rowNum d.cols epoch p.enters = made at hrows hpos
  obtain ⟨overlays, pos⟩ := made
  dsimp only at hrows hpos ⊢
  have hget : overlays[pos]? = some overlays[pos] := List.getElem?_eq_getElem hpos
  have hwide := hrows overlays[pos] (List.getElem_mem hpos)
  obtain ⟨hf, -⟩ := hfg _ hwide
  refine ⟨?_, h.sent, fun r hr => ?_, h.cursor⟩
  · rw [get_ok hget, ok_bind, hf, ok_bind, List.modify_eq_set_getElem?, hget]
    rfl
  · rcases mem_of_mem_modify hr with hr | ⟨r', hr', rfl⟩
    · exact hrows r hr
    · exact (hfg _ (hrows r' hr')).2

/-! ### Input -/

/-- `init_cursor` leaves a cursor. -/
theorem initCursor_ok (hd : d.WellFormed) (h : Fits d top p) (htop : d.rows ≤ top) :
    initCursor p d = .ok (p.initCursor d) ∧ Fits d top (p.initCursor d) ∧
      (p.initCursor d).cursors ≠ [] := by
  have hpushed (row col : ℕ) : (p.pushCursor row col).cursors ≠ [] :=
    List.append_ne_nil_of_right_ne_nil _ (List.cons_ne_nil _ _)
  unfold initCursor Predictor.initCursor
  rw [add_ok h.sent, ok_bind]
  by_cases hc : p.cursors = []
  · rw [hc]
    exact ⟨rfl, h.pushCursor (hd.cursorRow.trans htop) hd.cursorCol, hpushed _ _⟩
  · obtain ⟨ks, hks⟩ := exists_cursors hc
    obtain ⟨hr, hcol⟩ := h.cursor _ (cursor_mem hc)
    have hempty : p.cursors.isEmpty = false := List.isEmpty_eq_false_iff.2 hc
    have hlast : p.cursors.getLast? = some p.cursor := by
      rw [hks, List.getLast?_concat]
    rw [hempty, hlast, if_neg Bool.false_ne_true, cursor_ok hc, ok_bind]
    dsimp only
    split
    · exact ⟨rfl, h.pushCursor hr hcol, hpushed _ _⟩
    · exact ⟨rfl, h, hc⟩

/-- The last column of an edit is in the grid. -/
theorem editEnd_ok (hd : d.WellFormed) (p : Predictor σ) {col : ℕ} (hcol : col < d.cols) :
    editEnd p d col = .ok (p.editEnd d col) ∧ p.editEnd d col < d.cols := by
  unfold editEnd Predictor.editEnd
  have hpos := hd.cols_pos
  split
  · exact ⟨rfl, hcol⟩
  · exact ⟨sub_ok hpos, by omega⟩

/-- **A backspace does not panic**, and keeps the bounds. -/
theorem backspace_ok (hd : d.WellFormed) (h : Fits d top p) (hc : p.cursors ≠ []) (now : ℕ) :
    backspace p d now = .ok (p.backspace d now) ∧ Fits d top (p.backspace d now) := by
  obtain ⟨hr, hcol⟩ := h.cursor _ (cursor_mem hc)
  unfold backspace Predictor.backspace
  rw [cursor_ok hc, ok_bind, ok_bind, add_ok h.sent, ok_bind]
  dsimp only
  split
  · exact ⟨rfl, h⟩
  · have hin : p.cursor.col - 1 < d.cols := by omega
    rw [sub_ok (show 1 ≤ p.cursor.col by omega), ok_bind, (editEnd_ok hd p hin).1, ok_bind,
      unsupportedRange_ok hd.sized, ok_bind]
    split
    · exact ⟨rfl, h.becomeTentative⟩
    · rw [modifyCursor_pure hc, ok_bind]
      have hmoved : Fits d top (p.modifyCursor fun c =>
          { c with col := p.cursor.col - 1, base := c.base.expire (p.localFrameSent + 1) now }) :=
        h.modifyCursor hc ⟨hr, hin.le⟩
      exact modifyRow_ok hmoved _ _ fun cells hlen => backspaceCells_ok hd _ hin _ _ hlen

/-- A line feed goes to the next row.  At the last row of the frame the cursor stays, and
the row is blanked, unless it has a link. -/
theorem newlineCarriageReturn_ok (hd : d.WellFormed) (h : Fits d top p) (htop : d.rows ≤ top)
    (hlow : top + 1 < 2 ^ 16) (now : ℕ) :
    newlineCarriageReturn p d now = .ok (p.newlineCarriageReturn d now) ∧
      Fits d (top + 1) (p.newlineCarriageReturn d now) := by
  obtain ⟨hinit, hfits, hc⟩ := initCursor_ok hd h htop
  have hrows := hd.rows_pos
  have hle := hd.rows_le
  have hfirst : Fits d top ((p.initCursor d).modifyCursor fun c => { c with col := 0 }) :=
    hfits.modifyCursor hc ⟨(hfits.cursor _ (cursor_mem hc)).1, Nat.zero_le _⟩
  have hc' := modifyCursor_ne_nil hc fun c => { c with col := 0 }
  obtain ⟨hr, hcol⟩ := hfirst.cursor _ (cursor_mem hc')
  have hheight : (d.rows + 65535) % 65536 = d.rows - 1 := by omega
  unfold newlineCarriageReturn Predictor.newlineCarriageReturn
  rw [hinit, ok_bind, add_ok hfits.sent, ok_bind, modifyCursor_pure hc, ok_bind, cursor_ok hc',
    ok_bind, sub_ok hrows, ok_bind]
  dsimp only
  rw [hheight]
  split
  · split
    · exact ⟨rfl, (hfirst.mono (Nat.le_succ top)).becomeTentative⟩
    · exact modifyRow_ok (hfirst.mono (Nat.le_succ top)) _ _ fun cells hlen =>
        ⟨rfl, by rw [blankCells, List.length_map, hlen]⟩
  · refine ⟨modifyCursor_ok hc' ?_, (hfirst.mono (Nat.le_succ top)).modifyCursor hc' ?_⟩
    · rw [add_ok (by omega), ok_bind]
      rfl
    · exact ⟨Nat.succ_le_succ hr, hcol⟩

/-- A character goes to the next column or the next row.  The column is one of the frame, so
one more fits its sixteen bits; at the last one the cursor wraps as for a line feed. -/
theorem insertChar_ok (hd : d.WellFormed) (h : Fits d top p) (htop : d.rows ≤ top)
    (hlow : top + 1 < 2 ^ 16) (hc : p.cursors ≠ []) {col rightmost : ℕ} (hcol : col < d.cols)
    (hcursor : p.cursor.col = col) (hright : rightmost < d.cols) (ch : Char)
    (now rowNum oldEpoch : ℕ) :
    insertChar p ch d now (p.localFrameSent + 1) rowNum col rightmost oldEpoch =
        .ok (p.insertChar ch d now rowNum col rightmost oldEpoch) ∧
      Fits d (top + 1) (p.insertChar ch d now rowNum col rightmost oldEpoch) := by
  have hcols := hd.cols_le
  let q := p.modifyRow rowNum d.cols oldEpoch
    (Predictor.insertCells d rowNum col rightmost ch (p.stampNow now))
  obtain ⟨hrow, hfits⟩ : modifyRow p rowNum d.cols oldEpoch
      (insertCells d rowNum col rightmost ch (p.stampNow now)) = .ok q ∧ Fits d top q :=
    modifyRow_ok h rowNum oldEpoch fun cells hlen =>
      insertCells_ok hd rowNum hcol hright ch (p.stampNow now) hlen
  have hq : q.cursors ≠ [] := hc
  let q' := q.modifyCursor fun c => { c with base := c.base.expire (p.localFrameSent + 1) now }
  have hq' : q'.cursors ≠ [] := modifyCursor_ne_nil hq _
  obtain ⟨hrow', hcol'⟩ := hfits.cursor _ (cursor_mem hq)
  have hfits' : Fits d top q' := Fits.modifyCursor hfits hq ⟨hrow', hcol'⟩
  obtain ⟨hr, -⟩ := hfits'.cursor _ (cursor_mem hq')
  have hcol' : q'.cursor.col = col := by
    rw [cursor_modifyCursor hq]
    exact hcursor
  unfold insertChar Predictor.insertChar
  change ((modifyRow p rowNum d.cols oldEpoch
    (insertCells d rowNum col rightmost ch (p.stampNow now))) >>= _) = _ ∧ _
  rw [hrow, ok_bind, modifyCursor_pure hq, ok_bind, sub_ok hd.cols_pos, ok_bind]
  dsimp only
  split
  · refine ⟨modifyCursor_ok hq' ?_, (hfits'.mono (Nat.le_succ top)).modifyCursor hq' ?_⟩
    · rw [add_ok (show q'.cursor.col + 1 < 2 ^ 16 by omega), ok_bind]
      rfl
    · exact ⟨hr.trans (Nat.le_succ top), show q'.cursor.col + 1 ≤ d.cols by omega⟩
  · exact newlineCarriageReturn_ok hd hfits'.becomeTentative htop hlow now

/-- **A character does not panic**, and goes down one row at most. -/
theorem predictChar_ok (hd : d.WellFormed) (h : Fits d top p) (htop : d.rows ≤ top)
    (hlow : top + 1 < 2 ^ 16) (hc : p.cursors ≠ []) (ch : Char) (now : ℕ) :
    predictChar p ch d now = .ok (p.predictChar ch d now) ∧
      Fits d (top + 1) (p.predictChar ch d now) := by
  have hcols := hd.cols_le
  unfold predictChar Predictor.predictChar
  rw [cursor_ok hc, ok_bind, ok_bind]
  dsimp only
  split
  · exact ⟨rfl, h.mono (Nat.le_succ top)⟩
  · have hcol : p.cursor.col < d.cols := by omega
    obtain ⟨hend, hright⟩ := editEnd_ok hd p hcol
    rw [add_ok h.sent, ok_bind, hend, ok_bind, unsupportedRange_ok hd.sized, ok_bind]
    split
    · exact ⟨rfl, (h.mono (Nat.le_succ top)).becomeTentative⟩
    · rw [add_ok (show p.cursor.col + 1 < 2 ^ 16 by omega), ok_bind]
      split
      · exact insertChar_ok hd h.becomeTentative htop hlow hc hcol rfl hright ch now _ _
      · exact insertChar_ok hd h htop hlow hc hcol rfl hright ch now _ _

/-- Whatever is typed does not panic. -/
theorem handlePrint_ok (hd : d.WellFormed) (h : Fits d top p) (htop : d.rows ≤ top)
    (hlow : top + 1 < 2 ^ 16) (ch : Char) (now : ℕ) :
    handlePrint ext p ch d now = .ok (p.handlePrint ext ch d now) ∧
      Fits d (top + 1) (p.handlePrint ext ch d now) := by
  obtain ⟨hinit, hfits, hc⟩ := initCursor_ok hd h htop
  unfold handlePrint Predictor.handlePrint
  rw [hinit, ok_bind]
  dsimp only
  split
  · obtain ⟨hback, hkept⟩ := backspace_ok hd hfits hc now
    exact ⟨hback, hkept.mono (Nat.le_succ top)⟩
  · split
    · exact ⟨rfl, (hfits.mono (Nat.le_succ top)).becomeTentative⟩
    · exact predictChar_ok hd hfits htop hlow hc ch now

/-- **One act** moves a cursor down by a row at most, and no column out of the frame: an
arrow to the right stops at the last column, and one to the left at the first. -/
theorem dispatch_ok (hd : d.WellFormed) (h : Fits d top p) (htop : d.rows ≤ top)
    (hlow : top + 1 < 2 ^ 16) (now : ℕ) (act : Act) :
    dispatch ext p d now act = .ok (p.dispatch ext d now act) ∧
      Fits d (top + 1) (p.dispatch ext d now act) := by
  have hstay := h.mono (Nat.le_succ top)
  cases act with
  | print ch => exact handlePrint_ok hd h htop hlow ch now
  | esc => exact ⟨rfl, hstay.becomeTentative⟩
  | execute byte =>
    unfold dispatch Predictor.dispatch
    dsimp only
    split
    · have hentered : Fits d top
          ({ p with enters := p.enters + 1 } : Predictor σ).becomeTentative :=
        ⟨h.sent, h.row, h.cursor⟩
      exact newlineCarriageReturn_ok hd hentered htop hlow now
    · exact ⟨rfl, hstay.becomeTentative⟩
  | csi action =>
    obtain ⟨hinit, hfits, hc⟩ := initCursor_ok hd hstay (htop.trans (Nat.le_succ top))
    obtain ⟨hr, hcol⟩ := hfits.cursor _ (cursor_mem hc)
    have hcols := hd.cols_le
    unfold dispatch Predictor.dispatch
    dsimp only
    split
    · rw [hinit, ok_bind, cursor_ok hc, ok_bind]
      split
      · rw [add_ok hfits.sent, ok_bind]
        refine ⟨modifyCursor_ok hc ?_, hfits.modifyCursor hc ⟨hr, ?_⟩⟩
        · rw [add_ok (by omega), ok_bind]
          rfl
        · dsimp only
          omega
      · exact ⟨rfl, hfits⟩
    · split
      · rw [hinit, ok_bind, cursor_ok hc, ok_bind]
        split
        · rw [add_ok hfits.sent, ok_bind]
          refine ⟨modifyCursor_ok hc ?_, hfits.modifyCursor hc ⟨hr, ?_⟩⟩
          · rw [sub_ok (by omega), ok_bind]
            rfl
          · dsimp only
            omega
        · exact ⟨rfl, hfits⟩
      · exact ⟨rfl, hstay.becomeTentative⟩

/-! ### Reconciliation -/

/-- A cell of a row that is there. -/
theorem updateCell_ok {rows : List Row} {ri ci : ℕ} {row : Row} (hrow : rows[ri]? = some row)
    (hci : ci < row.cells.length) (f : CellOverlay → CellOverlay) :
    updateCell rows ri ci f = .ok (modifyCells rows ri fun cells => cells.modify ci f) := by
  unfold updateCell
  rw [get_ok hrow, ok_bind, update_ok hci, ok_bind]
  have hset := List.modify_eq_set_getElem?
    (fun r : Row => { r with cells := r.cells.modify ci f }) ri rows
  rw [hrow] at hset
  exact congrArg Except.ok hset.symm

/-- A row behind an edit of its cells. -/
theorem getElem?_modifyCells {rows : List Row} {ri : ℕ} {row : Row} (hrow : rows[ri]? = some row)
    (f : List CellOverlay → List CellOverlay) :
    (modifyCells rows ri f)[ri]? = some { row with cells := f row.cells } := by
  unfold modifyCells
  rw [List.getElem?_modify_eq, hrow]
  rfl

/-- Edits of a row, one after the other. -/
theorem foldl_modifyCells {α : Type} (f : List CellOverlay → α → List CellOverlay) (ri : ℕ)
    (l : List α) (rows : List Row) :
    l.foldl (fun rows a => modifyCells rows ri fun cells => f cells a) rows =
      modifyCells rows ri fun cells => l.foldl f cells := by
  induction l generalizing rows with
  | nil => exact (List.modify_id ..).symm
  | cons a l ih =>
    rw [List.foldl_cons, ih]
    unfold modifyCells
    rw [List.modify_modify_eq]
    rfl

/-- An edit of every place from one on is one pass over the list. -/
theorem foldl_modify_range' {α : Type} (f : α → α) (l : List α) (i m : ℕ) :
    (List.range' i m).foldl (fun l k => l.modify k f) l =
      l.mapIdx fun k a => if i ≤ k ∧ k < i + m then f a else a := by
  induction m with
  | zero =>
    refine List.ext_getElem? fun k => ?_
    rw [List.getElem?_mapIdx]
    simp only [show ¬(i ≤ k ∧ k < i + 0) by omega, if_false]
    exact (Option.map_id' ..).symm
  | succ m ih =>
    rw [List.range'_1_concat, List.foldl_append, ih, List.foldl_cons, List.foldl_nil]
    refine List.ext_getElem? fun k => ?_
    rw [List.getElem?_modify, List.getElem?_mapIdx, List.getElem?_mapIdx]
    cases l[k]? with
    | none => rfl
    | some a =>
      refine congrArg some ?_
      dsimp only
      by_cases hk : i + m = k
      · rw [if_pos hk, if_neg (by omega), if_pos (by omega)]
      · rw [if_neg hk]
        exact if_congr (by omega) rfl rfl

/-- An edit of a row depends on what it makes of that row. -/
theorem modifyCells_congr {rows : List Row} {ri : ℕ} {row : Row} (hrow : rows[ri]? = some row)
    {f g : List CellOverlay → List CellOverlay} (h : f row.cells = g row.cells) :
    modifyCells rows ri f = modifyCells rows ri g := by
  refine List.ext_getElem? fun i => ?_
  by_cases hi : ri = i
  · rw [← hi, getElem?_modifyCells hrow, getElem?_modifyCells hrow, h]
  · unfold modifyCells
    rw [List.getElem?_modify_ne _ _ hi, List.getElem?_modify_ne _ _ hi]

/-- **Spreading a rendition** to the end of a row. -/
theorem spread_ok {rows : List Row} {ri ci : ℕ} {row : Row} (hrow : rows[ri]? = some row)
    (f : CellOverlay → CellOverlay) :
    (List.range' ci (row.cells.length - ci)).foldlM (fun rows k => updateCell rows ri k f) rows =
      .ok (modifyCells rows ri fun cells => cells.mapIdx fun k d => if ci ≤ k then f d else d) := by
  have hloop := (foldlM_ok (f := fun rows k => updateCell rows ri k f)
    (g := fun rows k => modifyCells rows ri fun cells => cells.modify k f)
    (fun rows' : List Row => ∃ row', rows'[ri]? = some row' ∧
      row'.cells.length = row.cells.length)
    (l := List.range' ci (row.cells.length - ci)) ⟨row, hrow, rfl⟩
    fun rows' k hk ⟨row', hrow', hlen⟩ => by
      rw [List.mem_range'_1] at hk
      exact ⟨updateCell_ok hrow' (by omega) f, _, getElem?_modifyCells hrow' _,
        by rw [List.length_modify, hlen]⟩).1
  rw [hloop, foldl_modifyCells]
  refine congrArg Except.ok (modifyCells_congr hrow ?_)
  rw [foldl_modify_range']
  refine List.ext_getElem (by simp) fun k hk _ => ?_
  rw [List.length_mapIdx] at hk
  rw [List.getElem_mapIdx, List.getElem_mapIdx]
  exact if_congr (by omega) rfl rfl

/-- A cull in progress at row `ri`, which is as wide as it was at the start of its loop. -/
def Holding (ri ncols : ℕ) (c : Culling σ) : Prop :=
  c.self.localFrameSent + 1 < 2 ^ 64 ∧ ∃ row, c.rows[ri]? = some row ∧ row.cells.length = ncols

/-- A cell that is confirmed passes its attributes on to cells of its row. -/
theorem confirmCell_ok (hfb : fb.Sized) {now ri ci rowNum : ℕ} {c : Culling σ} {row : Row}
    (hrow : c.rows[ri]? = some row) (hci : ci < row.cells.length) (cell : CellOverlay) :
    confirmCell c fb now ri ci row.cells.length rowNum cell =
      .ok (Predictor.confirmCell c fb now ri ci rowNum cell) := by
  have hspread (actual : Cell) := @spread_ok _ _ ci _ hrow fun d =>
    { d with replacement := copyRenditions d.replacement actual }
  have hreset (f : CellOverlay → CellOverlay) :
      updateCell (modifyCells c.rows ri fun cells =>
          cells.mapIdx fun k d => if ci ≤ k then f d else d) ri ci CellOverlay.reset =
        .ok (modifyCells c.rows ri fun cells =>
          (cells.mapIdx fun k d => if ci ≤ k then f d else d).modify ci CellOverlay.reset) := by
    rw [updateCell_ok (getElem?_modifyCells hrow _) (by rwa [List.length_mapIdx])]
    unfold modifyCells
    rw [List.modify_modify_eq]
    rfl
  unfold confirmCell Predictor.confirmCell
  dsimp only
  split
  · rename_i hquick
    rw [sub_ok hquick.2.1, ok_bind, pure_bind, cellBytes_ok hfb, ok_bind]
    rw [hspread, ok_bind, hreset, ok_bind]
    rfl
  · rw [pure_bind, cellBytes_ok hfb, ok_bind, hspread, ok_bind, hreset, ok_bind]
    rfl

/-- **A cell is culled as the predictor does it.**  Both take the same branches; the indices
are of cells that are there, and an epoch that is killed has room for the next number. -/
theorem cullCell_ok (hfb : fb.Sized) {now ri rowNum ncols ci : ℕ} {c : Culling σ}
    (h : Holding ri ncols c) (hci : ci < ncols) :
    cullCell ext fb now ri rowNum ncols ci c =
      (Predictor.cullCell ext fb now ri rowNum ci c).mapError .inr := by
  obtain ⟨hsent, row, hrow, rfl⟩ := h
  have hget : row.cells[ci]? = some row.cells[ci] := List.getElem?_eq_getElem hci
  have hcell : cellAt c.rows ri ci = .ok row.cells[ci] := by
    rw [cellAt, get_ok hrow, ok_bind, get_ok hget]
  have hcell' : Predictor.cellAt c.rows ri ci = some row.cells[ci] := by
    rw [Predictor.cellAt, hrow]
    exact hget
  unfold cullCell Predictor.cullCell
  rw [hcell, hcell']
  dsimp only [Except.mapError]
  rw [ok_bind]
  cases row.cells[ci].validity ext fb rowNum c.self.localFrameLateAcked with
  | incorrectOrExpired =>
    dsimp only
    split
    · rw [killEpoch, add_ok hsent]
      rfl
    · rfl
  | correct =>
    dsimp only
    rw [confirmCell_ok hfb hrow hci]
  | correctNoCredit =>
    dsimp only
    rw [updateCell_ok hrow hci]
    rfl
  | pending => rfl
  | inactive => rfl

/-- Rows of the same shapes are as many, and each as wide. -/
theorem exists_row_of_shape {rows rows' : List Row}
    (h : rows'.map Row.shape = rows.map Row.shape) {ri : ℕ} {row : Row}
    (hrow : rows[ri]? = some row) :
    ∃ row', rows'[ri]? = some row' ∧ row'.cells.length = row.cells.length := by
  have hget : rows'[ri]?.map Row.shape = some row.shape := by
    rw [← List.getElem?_map, h, List.getElem?_map, hrow]
    rfl
  obtain ⟨row', hrow', hshape⟩ := Option.map_eq_some_iff.1 hget
  refine ⟨row', hrow', ?_⟩
  have hcells := congrArg (fun s => s.2.length) hshape
  simpa [Row.shape] using hcells

/-- What the visits of a cull keep. -/
def Culled (rows : List Row) (c : Culling σ) : Prop :=
  c.self.localFrameSent + 1 < 2 ^ 64 ∧ c.rows.map Row.shape = rows.map Row.shape

/-- A cell that is culled leaves the rows as long as they are. -/
theorem Culled.cullCell {rows : List Row} {c : Culling σ} (h : Culled rows c) (fb : FrameState)
    (now ri rowNum ci : ℕ) :
    Ends (Predictor.cullCell ext fb now ri rowNum ci c) (fun _ => True) (Culled rows) :=
  ((cullCell_ends ..).and (cullCell_shape ..)).mono (fun _ _ => trivial)
    fun _ ⟨⟨hstep, _⟩, hshape⟩ => ⟨hstep.sent ▸ h.1, hshape.trans h.2⟩

/-- A row is culled, cell by cell. -/
theorem cullRow_ok (hfb : fb.Sized) {rows : List Row} {now ri : ℕ} {c : Culling σ}
    (h : Culled rows c) (hri : ri < rows.length) :
    cullRow ext fb now ri c = (Predictor.cullRow ext fb now ri c).mapError .inr ∧
      Ends (Predictor.cullRow ext fb now ri c) (fun _ => True) (Culled rows) := by
  have hget : rows[ri]? = some rows[ri] := List.getElem?_eq_getElem hri
  obtain ⟨row, hrow, -⟩ := exists_row_of_shape h.2 hget
  unfold cullRow Predictor.cullRow
  rw [get_ok hrow, hrow]
  dsimp only [Except.mapError]
  rw [ok_bind]
  refine forRange_ok (fun _ => Culled rows) h fun ci c' hci h' => ⟨?_, h'.cullCell ..⟩
  obtain ⟨row', hrow', hlen⟩ := exists_row_of_shape (h'.2.trans h.2.symm) hrow
  exact cullCell_ok hfb ⟨h'.1, row', hrow', hlen⟩ hci

/-- **A cull** against a frame whose cells are all there. -/
theorem cull_ok (hfb : fb.Sized) (hsent : p.localFrameSent + 1 < 2 ^ 64) (now : ℕ) :
    cull ext p fb now = .ok (p.cull ext fb now) := by
  by_cases hpref : p.displayPreference = .never
  · rw [cull, if_pos hpref, Predictor.cull, if_pos hpref]
  · have hstart : Culled (p.cullStart fb).rows (p.cullStart fb) :=
      ⟨(cullStart_spec p fb).1 ▸ hsent, rfl⟩
    have hrows : cullRows ext fb now (p.cullStart fb) =
        (Predictor.cullRows ext fb now (p.cullStart fb)).mapError .inr :=
      (forRange_ok (fun _ => Culled (p.cullStart fb).rows) hstart
        fun ri c hri h => cullRow_ok hfb h hri).1
    rw [cull_eq hpref, cull, if_neg hpref]
    unfold cullStart at hrows ⊢
    dsimp only
    rw [hrows]
    cases Predictor.cullRows ext fb now _ with
    | error q => rfl
    | ok c => rfl

/-! ### Drawing -/

/-- A frame that can be drawn on. -/
def Drawable (f : FrameState) : Prop := f.Sized ∧ 1 ≤ f.cols

/-- A cell in the frame is set. -/
theorem Drawable.setCell (h : Drawable fb) {row col : ℕ} (hrow : row < fb.rows)
    (hcol : col < fb.cols) (cell : Cell) :
    setCell fb row col cell = .ok (Quosh.setCell fb row col cell) ∧
      Drawable (Quosh.setCell fb row col cell) := by
  have hle : index fb.cols row col + cellSize ≤ fb.cells.length := h.1.cell_le hrow hcol
  refine ⟨?_, h.1.setCell hrow hcol cell, h.2⟩
  rw [Checked.setCell, slice_ok hle]
  rfl

/-- A cell in the frame is underlined. -/
theorem Drawable.setUnderline (h : Drawable fb) {row col : ℕ} (hrow : row < fb.rows)
    (hcol : col < fb.cols) :
    setUnderline fb row col = .ok (Quosh.setUnderline fb row col) ∧
      Drawable (Quosh.setUnderline fb row col) := by
  have hle : index fb.cols row col + cellSize ≤ fb.cells.length := h.1.cell_le hrow hcol
  have hlt : index fb.cols row col < fb.cells.length := by
    unfold cellSize at hle
    omega
  have hget : fb.cells[index fb.cols row col]? = some fb.cells[index fb.cols row col] :=
    List.getElem?_eq_getElem hlt
  refine ⟨?_, h.1.setUnderline row col, h.2⟩
  rw [Checked.setUnderline, get_ok hget]
  rfl

/-- A cell is drawn over the frame, or lies outside.  Behind the check of the source the row
and the column are in the frame, so all the bytes that it touches are. -/
theorem applyCell_ok (h : Drawable fb) (c : CellOverlay) (confirmedEpoch row : ℕ) (flag : Bool) :
    applyCell ext c fb confirmedEpoch row flag = .ok (c.apply ext fb confirmedEpoch row flag) ∧
      Drawable (c.apply ext fb confirmedEpoch row flag) := by
  unfold applyCell CellOverlay.apply
  split
  · exact ⟨rfl, h⟩
  · rename_i hin
    have hrow : row < fb.rows := by
      by_contra hout
      exact hin (.inr (.inl (not_lt.1 hout)))
    have hcol : c.base.col < fb.cols := by
      by_contra hout
      exact hin (.inr (.inr (not_lt.1 hout)))
    split
    · exact ⟨rfl, h⟩
    · dsimp only
      generalize (if (isBlank (cellText c.replacement) &&
        isBlank (ext.cellContent fb row c.base.col)) = true then false else flag) = flag
      split
      · cases flag with
        | false => exact ⟨rfl, h⟩
        | true =>
          rw [if_pos rfl, sub_ok h.2, ok_bind, Bool.true_and]
          by_cases hlast : c.base.col ≠ fb.cols - 1
          · rw [if_pos hlast, if_pos (decide_eq_true hlast)]
            exact h.setUnderline hrow hcol
          · rw [if_neg hlast, if_neg (by simpa using hlast)]
            exact ⟨rfl, h⟩
      · rw [cellBytes_ok h.1, ok_bind]
        split
        · obtain ⟨hset, hdrawn⟩ := h.setCell hrow hcol c.replacement
          rw [hset, ok_bind]
          split
          · exact hdrawn.setUnderline hrow hcol
          · exact ⟨rfl, hdrawn⟩
        · exact ⟨rfl, h⟩

/-- **Drawing does not panic.** -/
theorem apply_ok (h : Drawable fb) (p : Predictor σ) :
    apply ext p fb = .ok (p.apply ext fb) := by
  unfold apply Predictor.apply
  split
  · rfl
  · split
    · rfl
    · have hcursors : Drawable (p.cursors.foldl (fun f c => c.apply f p.confirmedEpoch) fb) := by
        refine List.foldlRecOn (motive := Drawable) _ _ h fun f hf c _ => ?_
        unfold CursorOverlay.apply
        split_ifs
        · exact hf
        · exact hf
        · exact hf
      exact (foldlM_ok Drawable hcursors fun f r _ hf =>
        foldlM_ok Drawable hf fun f c _ hf => applyCell_ok hf c _ _ _).1

/-! ### Calls -/

/-- The acts of a byte, each of which moves a cursor down by a row at most. -/
theorem foldlM_dispatch_ok (hd : d.WellFormed) (now : ℕ) (acts : List Act) (h : Fits d top p)
    (htop : d.rows ≤ top) (hlow : top + acts.length < 2 ^ 16) :
    acts.foldlM (fun p act => dispatch ext p d now act) p =
      .ok (acts.foldl (fun p act => p.dispatch ext d now act) p) ∧
      Fits d (top + acts.length) (acts.foldl (fun p act => p.dispatch ext d now act) p) := by
  induction acts generalizing p top with
  | nil => exact ⟨rfl, h⟩
  | cons act acts ih =>
    rw [List.length_cons] at hlow ⊢
    obtain ⟨hact, hfits⟩ := @dispatch_ok _ ext p d top hd h htop (by omega) now act
    rw [List.foldlM_cons, hact, ok_bind, ← Nat.add_assoc, Nat.add_right_comm]
    exact ih hfits (by omega) (by omega)

/-- What every call relies on: rows are as wide as the frame of the last cull. -/
structure Ready (p : Predictor σ) : Prop where
  sent : p.localFrameSent + 1 < 2 ^ 64
  row : ∀ r ∈ p.overlays, r.cells.length = p.lastWidth

/-- A cull leaves a predictor ready for the next byte. -/
theorem Ready.cull (h : Ready p) (fb : FrameState) (now : ℕ) : Ready (p.cull ext fb now) where
  sent := (cull_culls p fb now).sent ▸ h.sent
  row r' hr' := by
    obtain ⟨hwidth, r, hr, hshape⟩ := cull_shape p fb now hr'
    have hcells := congrArg (fun s => s.2.length) hshape
    simp only [Row.shape, List.length_map] at hcells
    rw [hcells, hwidth]
    exact h.row r hr

/-- Behind a cull the predictor fits the frame. -/
theorem Ready.fits (h : Ready p) (hpref : p.displayPreference ≠ .never) (now : ℕ) :
    Fits d d.rows (p.cull ext d now) := by
  have hset := @cull_settled _ ext p hpref d now
  have hcull := @Ready.cull _ ext p h d now
  refine ⟨hcull.sent, fun r hr => (hcull.row r hr).trans hset.width, fun k hk => ?_⟩
  obtain ⟨-, -, hr, hcol⟩ := hset.cursor k hk
  exact ⟨hr.le, hcol.le⟩

/-- One byte makes the parser report so few events that no row overflows. -/
def Terse (ext : Externals σ) : Prop := ∀ q b, 512 + (ext.advance q b).2.length < 2 ^ 16

/-- The byte behind its cull. -/
theorem feedByte_ok (hacts : Terse ext) (hd : d.WellFormed) (h : Fits d d.rows p) (b : UInt8)
    (now : ℕ) :
    feedByte ext p b d now = .ok (p.feedByte ext b d now) ∧
      ∃ top, Fits d top (p.feedByte ext b d now) := by
  have hrows := hd.rows_le
  unfold feedByte Predictor.feedByte
  split
  · have hfits : Fits d d.rows ({ p with lastByte := b } : Predictor σ) :=
      ⟨h.sent, h.row, h.cursor⟩
    obtain ⟨hprint, hkept⟩ := @handlePrint_ok _ ext _ d _ hd hfits le_rfl (by omega) '\x7f' now
    exact ⟨hprint, _, hkept⟩
  · have hbound := hacts p.parser b
    cases hparsed : ext.advance p.parser b with
    | mk parser acts =>
      rw [hparsed] at hbound
      dsimp only at hbound ⊢
      have hfits : Fits d d.rows ({ p with lastByte := b, parser } : Predictor σ) :=
        ⟨h.sent, h.row, h.cursor⟩
      obtain ⟨hall, hkept⟩ := @foldlM_dispatch_ok _ ext _ d _ hd now acts hfits le_rfl (by omega)
      exact ⟨hall, _, hkept⟩

/-- **A byte**: a cull against the frame, and what it makes of the line. -/
theorem newUserByte_ok (hacts : Terse ext) (hd : d.WellFormed) (h : Ready p) (byte : UInt8)
    (now : ℕ) :
    newUserByte ext p byte d now = .ok (p.newUserByte ext byte d now) ∧
      Ready (p.newUserByte ext byte d now) := by
  unfold newUserByte Predictor.newUserByte
  split
  · exact ⟨rfl, h⟩
  · rename_i hpref
    rw [cull_ok hd.sized h.sent, ok_bind]
    have hset := @cull_settled _ ext p hpref d now
    have hfits := @Ready.fits _ ext p d h hpref now
    obtain ⟨hfeed, top, hkept⟩ :=
      feedByte_ok hacts hd hfits ((p.cull ext d now).translate byte) now
    have hwidth := (@feedByte_keeps _ ext (p.cull ext d now)
      ((p.cull ext d now).translate byte) d now).lastWidth
    exact ⟨hfeed, hkept.sent, fun r hr => (hkept.row r hr).trans (hset.width ▸ hwidth.symm)⟩

/-- **One call** that is given a well-formed frame and a sequence number below 2⁶⁴ − 1. -/
theorem call_ok (hacts : Terse ext) (k : Call) (hframe : ∀ f, k.frame = some f → f.WellFormed)
    (hseq : ∀ seq, k = .setLocalFrameSent seq → seq < 2 ^ 64 - 1) (h : Ready p) :
    call ext p k = .ok (p.call ext k) ∧ Ready (p.call ext k) := by
  cases k with
  | newUserByte byte display now =>
    exact newUserByte_ok hacts (hframe display rfl) h byte now
  | cull fb now => exact ⟨cull_ok (hframe fb rfl).sized h.sent now, h.cull fb now⟩
  | apply frame =>
    have hf := hframe frame rfl
    refine ⟨?_, h⟩
    rw [call, apply_ok ⟨hf.sized, hf.cols_pos⟩]
    rfl
  | setLocalFrameSent seq =>
    have hlt := hseq seq rfl
    exact ⟨rfl, show seq + 1 < 2 ^ 64 by omega, h.row⟩
  | reset => exact ⟨rfl, h.sent, fun r hr => absurd hr List.not_mem_nil⟩
  | _ => exact ⟨rfl, h.sent, h.row⟩

/-- **The predictor never panics**: any calls, with well-formed frames of any sizes and sequence
numbers below 2⁶⁴ − 1, go through without one, and do what the predictor does. -/
theorem never_panics (hacts : Terse ext) (cs : List Call)
    (hframes : ∀ k ∈ cs, ∀ f, k.frame = some f → f.WellFormed)
    (hseq : ∀ seq, .setLocalFrameSent seq ∈ cs → seq < 2 ^ 64 - 1) :
    calls ext (new ext) cs = .ok ((new ext).calls ext cs) := by
  have hready : Ready (new ext) := by
    refine ⟨?_, fun r hr => absurd hr List.not_mem_nil⟩
    exact (by decide : 0 + 1 < 2 ^ 64)
  refine (foldlM_ok Ready hready fun p k hk h => ?_).1
  exact call_ok hacts k (hframes k hk) (fun seq hseq' => hseq seq (hseq' ▸ hk)) h

/-- A blank frame with its cursor one past the grid. -/
def edgeFrame (rows cols : ℕ) : FrameState :=
  .fromParts rows cols rows cols 0 "" (List.replicate (rows * cols * cellSize) 0)

/-- The frame of the test is well-formed. -/
theorem edgeFrame_wellFormed {rows cols : ℕ} (hrows : 1 ≤ rows ∧ rows ≤ 512)
    (hcols : 1 ≤ cols ∧ cols ≤ 512) : (edgeFrame rows cols).WellFormed :=
  ⟨hrows.1, hrows.2, hcols.1, hcols.2, List.length_replicate, le_rfl, le_rfl⟩

/-- A letter, a deletion and a return behind the edge of a frame, which then gets smaller. -/
def edgeCalls : List Call :=
  [.setDisplayPreference .always, .setLocalFrameSent (2 ^ 64 - 2),
    .newUserByte 0x61 (edgeFrame 2 4) 0, .newUserByte 0x7f (edgeFrame 2 4) 0,
    .newUserByte 0x0d (edgeFrame 2 4) 0, .cull (edgeFrame 1 1) 10,
    .newUserByte 0x7f (edgeFrame 1 1) 10, .apply (edgeFrame 3 2)]

/-- The hypotheses of `never_panics` are satisfiable: an edit behind the edge. -/
theorem never_panics_edge :
    calls .ascii (new .ascii) edgeCalls = .ok ((new .ascii).calls .ascii edgeCalls) := by
  have hacts : Terse .ascii := fun _ _ => show 512 + 1 < 2 ^ 16 by decide
  refine never_panics hacts edgeCalls (fun k hk f hf => ?_) fun seq hseq => ?_
  · have hmem : f ∈ edgeCalls.filterMap Call.frame := List.mem_filterMap.2 ⟨k, hk, hf⟩
    have hall : ∀ f ∈ edgeCalls.filterMap Call.frame, f.WellFormed := by
      simp only [edgeCalls, List.filterMap_cons, List.filterMap_nil, Call.frame,
        List.forall_mem_cons]
      refine ⟨?_, ?_, ?_, ?_, ?_, ?_, nofun⟩ <;> exact edgeFrame_wellFormed (by decide) (by decide)
    exact hall f hmem
  · have hseq : seq = 2 ^ 64 - 2 := by simpa [edgeCalls] using hseq
    omega

end Checked
end Predictor
end Quosh
