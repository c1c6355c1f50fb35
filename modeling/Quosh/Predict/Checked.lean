/-
# The predictor with its panics

`crates/quosh-predict/src/lib.rs`, once more: the functions of the predictor that index into
the cells of a row or of a frame, unwrap the last cursor, or calculate with `u16` and `u64`.
Here each such place answers in `Except Panic`, as it stands in the source; what cannot stop
the program (saturating and wrapping arithmetic, indices into the twelve bytes of a cell) is
the same as before.

On a well-formed frame each of them answers what its namesake does (`calls_ok`).  What that
rests on is `Fits`: a row has as many cells as the frame columns, and the cursors are at most
one past the grid, or as many rows below it as the byte at hand has moved them.  A cull
against the frame establishes it, and the cull is the first thing a byte does.
-/

import Quosh.Control.Panics
import Quosh.Predict.Calls

namespace Quosh

/-- A frame as `decode_raw` admits one, of at most 512 rows and columns: its cells are all
there, and its cursor is at most one past the grid. -/
structure FrameState.WellFormed (f : FrameState) : Prop where
  rows_pos : 1 ≤ f.rows
  rows_le : f.rows ≤ 512
  cols_pos : 1 ≤ f.cols
  cols_le : f.cols ≤ 512
  sized : f.Sized
  cursorRow : f.cursorRow ≤ f.rows
  cursorCol : f.cursorCol ≤ f.cols

namespace Predictor
namespace Checked

open Panic

variable {σ : Type} (ext : Externals σ)

/-! ### Cells of a frame -/

/-- `cell_bytes`. -/
def cellBytes (fb : FrameState) (row col : ℕ) : Except Panic Cell :=
  if row ≥ fb.rows ∨ col ≥ fb.cols then .ok Cell.zero
  else do
    let bytes ← slice fb.cells (index fb.cols row col) cellSize
    return Vector.ofFn fun k => bytes.getD k 0

/-- `set_cell`. -/
def setCell (fb : FrameState) (row col : ℕ) (cell : Cell) : Except Panic FrameState := do
  let _ ← slice fb.cells (index fb.cols row col) cellSize
  return Quosh.setCell fb row col cell

/-- `set_underline`. -/
def setUnderline (fb : FrameState) (row col : ℕ) : Except Panic FrameState := do
  let _ ← get fb.cells (index fb.cols row col)
  return Quosh.setUnderline fb row col

/-- `unsupported_range`. -/
def unsupportedRange (fb : FrameState) (row start stop : ℕ) : Except Panic Bool :=
  if row ≥ fb.rows ∨ start > stop then .ok false
  else
    (List.range' start (min stop (fb.cols - 1) + 1 - start)).anyM fun c => do
      let cell ← cellBytes fb row c
      return cellIsOverflow cell || hasLink fb row c

/-! ### Input -/

/-- `cursor`. -/
def cursor (p : Predictor σ) : Except Panic CursorOverlay := last p.cursors

/-- `cursors.last_mut().unwrap()`. -/
def modifyCursor (p : Predictor σ) (f : CursorOverlay → Except Panic CursorOverlay) :
    Except Panic (Predictor σ) := do
  let c ← last p.cursors
  let c ← f c
  return p.modifyCursor fun _ => c

/-- `init_cursor`. -/
def initCursor (p : Predictor σ) (fb : FrameState) : Except Panic (Predictor σ) := do
  let _ ← add 64 p.localFrameSent 1
  if p.cursors.isEmpty then return p.pushCursor fb.cursorRow fb.cursorCol
  let c ← cursor p
  if c.base.tentativeUntilEpoch ≠ p.predictionEpoch then return p.pushCursor c.row c.col
  return p

/-- `get_or_make_row`, and an edit of the cells of that row. -/
def modifyRow (p : Predictor σ) (rowNum numCols epoch : ℕ)
    (f : List CellOverlay → Except Panic (List CellOverlay)) : Except Panic (Predictor σ) := do
  let (overlays, pos) := getOrMakeRow p.overlays rowNum numCols epoch p.enters
  let row ← get overlays pos
  let cells ← f row.cells
  return { p with overlays := overlays.set pos { row with cells } }

/-- The loop body of `backspace`. -/
def shiftLeft (display : FrameState) (rowNum : ℕ) (s : Stamp) (cells : List CellOverlay)
    (i : ℕ) : Except Panic (List CellOverlay) := do
  let next ←
    if (← add 16 i 2) < display.cols then do
      let n ← get cells (i + 1)
      let nextActual ← cellBytes display rowNum (← add 16 i 1)
      pure (some (n, nextActual))
    else pure none
  let actual ← cellBytes display rowNum i
  update cells i fun cell =>
    let cell := predictCell cell s actual
    match next with
    | some (n, nextActual) => takeFrom cell n nextActual
    | none => { cell with unknown := true }

/-- What `backspace` does to the cells of the row. -/
def backspaceCells (display : FrameState) (rowNum col : ℕ) (overwrite : Bool) (s : Stamp)
    (cells : List CellOverlay) : Except Panic (List CellOverlay) :=
  if overwrite then do
    let actual ← cellBytes display rowNum col
    update cells col fun cell =>
      { predictCell cell s actual with replacement := makeBlankCell actual }
  else (List.range' col (display.cols - col)).foldlM (shiftLeft display rowNum s) cells

/-- The last column an edit reaches: `to` in `backspace`, `rightmost` in `predict_char`. -/
def editEnd (p : Predictor σ) (display : FrameState) (col : ℕ) : Except Panic ℕ :=
  if p.predictOverwrite then .ok col else sub display.cols 1

/-- `backspace`. -/
def backspace (p : Predictor σ) (display : FrameState) (now : ℕ) :
    Except Panic (Predictor σ) := do
  let rowNum := (← cursor p).row
  let col0 := (← cursor p).col
  let exp ← add 64 p.localFrameSent 1
  let s : Stamp := ⟨p.predictionEpoch, exp, now, p.enters⟩
  if col0 = 0 then return p
  let col ← sub col0 1
  let stop ← editEnd p display col
  if ← unsupportedRange display rowNum col stop then return p.becomeTentative
  let p ← modifyCursor p fun c => .ok { c with col, base := c.base.expire exp now }
  modifyRow p rowNum display.cols s.epoch
    (backspaceCells display rowNum col p.predictOverwrite s)

/-- `newline_carriage_return`. -/
def newlineCarriageReturn (p : Predictor σ) (display : FrameState) (now : ℕ) :
    Except Panic (Predictor σ) := do
  let p ← initCursor p display
  let exp ← add 64 p.localFrameSent 1
  let s : Stamp := ⟨p.predictionEpoch, exp, now, p.enters⟩
  let p ← modifyCursor p fun c => .ok { c with col := 0 }
  let rowNum := (← cursor p).row
  if rowNum = (← sub display.rows 1) then
    if rowHasLink display rowNum then return p.becomeTentative
    modifyRow p rowNum display.cols s.epoch fun cells => .ok (blankCells s cells)
  else
    modifyCursor p fun c => do
      let row ← add 16 c.row 1
      return { c with row }

/-- The loop body of `predict_char`, with the step to the next column. -/
def shiftRight (display : FrameState) (rowNum : ℕ) (s : Stamp) (cells : List CellOverlay)
    (i : ℕ) : Except Panic (List CellOverlay) := do
  let prev ←
    if i = (← sub display.cols 1) then pure none
    else do
      let c ← get cells (← sub i 1)
      let prevActual ← cellBytes display rowNum (← sub i 1)
      pure (some (c, prevActual))
  let actual ← cellBytes display rowNum i
  let cells ← update cells i fun cell =>
    let cell := predictCell cell s actual
    match prev with
    | some (c, prevActual) => takeFrom cell c prevActual
    | none => { cell with unknown := true }
  let _ ← sub i 1
  return cells

/-- The style a predicted character takes. -/
def baseRendition (display : FrameState) (rowNum col : ℕ) (cells : List CellOverlay) :
    Except Panic Cell := do
  let baseCell ← cellBytes display rowNum col
  if col > 0 then
    let prev ← get cells (← sub col 1)
    if prev.base.active && !prev.unknown then return prev.replacement
    cellBytes display rowNum (← sub col 1)
  else return baseCell

/-- What `predict_char` does to the cells of the row. -/
def insertCells (display : FrameState) (rowNum col rightmost : ℕ) (ch : Char) (s : Stamp)
    (cells : List CellOverlay) : Except Panic (List CellOverlay) := do
  let cells ← (List.range' (col + 1) (rightmost - col)).reverse.foldlM
    (shiftRight display rowNum s) cells
  let replacement ← baseRendition display rowNum col cells
  let actual ← cellBytes display rowNum col
  update cells col fun cell =>
    { predictCell cell s actual with replacement := makeCharCell replacement ch }

/-- `predict_char` past its checks. -/
def insertChar (p : Predictor σ) (ch : Char) (display : FrameState) (now exp rowNum col
    rightmost oldEpoch : ℕ) : Except Panic (Predictor σ) := do
  let s : Stamp := ⟨p.predictionEpoch, exp, now, p.enters⟩
  let p ← modifyRow p rowNum display.cols oldEpoch
    (insertCells display rowNum col rightmost ch s)
  let p ← modifyCursor p fun c => .ok { c with base := c.base.expire exp now }
  if col < (← sub display.cols 1) then
    modifyCursor p fun c => do
      let col ← add 16 c.col 1
      return { c with col }
  else newlineCarriageReturn p.becomeTentative display now

/-- `predict_char`. -/
def predictChar (p : Predictor σ) (ch : Char) (display : FrameState) (now : ℕ) :
    Except Panic (Predictor σ) := do
  let rowNum := (← cursor p).row
  let col := (← cursor p).col
  if rowNum ≥ display.rows ∨ col ≥ display.cols then return p
  let exp ← add 64 p.localFrameSent 1
  let oldEpoch := p.predictionEpoch
  let rightmost ← editEnd p display col
  if ← unsupportedRange display rowNum col rightmost then return p.becomeTentative
  if (← add 16 col 1) ≥ display.cols then
    insertChar p.becomeTentative ch display now exp rowNum col rightmost oldEpoch
  else insertChar p ch display now exp rowNum col rightmost oldEpoch

/-- `handle_print`. -/
def handlePrint (p : Predictor σ) (ch : Char) (display : FrameState) (now : ℕ) :
    Except Panic (Predictor σ) := do
  let p ← initCursor p display
  if ch = '\x7f' then backspace p display now
  else if ch < '\x20' ∨ ext.charWidth ch ≠ some 1 then return p.becomeTentative
  else predictChar p ch display now

/-- A body of the `match` on acts in `new_user_byte`. -/
def dispatch (p : Predictor σ) (display : FrameState) (now : ℕ) :
    Act → Except Panic (Predictor σ)
  | .print ch => handlePrint ext p ch display now
  | .execute byte =>
    if byte = 0x0d then
      let p := { p with enters := p.enters + 1 }
      newlineCarriageReturn p.becomeTentative display now
    else .ok p.becomeTentative
  | .csi action =>
    if action = 'C' then do
      let p ← initCursor p display
      if (← cursor p).col < display.cols - 1 then
        let exp ← add 64 p.localFrameSent 1
        modifyCursor p fun c => do
          let col ← add 16 c.col 1
          return { c with col, base := c.base.expire exp now }
      else return p
    else if action = 'D' then do
      let p ← initCursor p display
      if (← cursor p).col > 0 then
        let exp ← add 64 p.localFrameSent 1
        modifyCursor p fun c => do
          let col ← sub c.col 1
          return { c with col, base := c.base.expire exp now }
      else return p
    else .ok p.becomeTentative
  | .esc => .ok p.becomeTentative

/-! ### Reconciliation -/

/-- What leaves a cull early: a panic, or a reset. -/
abbrev Exit (σ : Type) := Panic ⊕ Predictor σ

/-- `kill_epoch`. -/
def killEpoch (p : Predictor σ) (rows : List Row) (epoch : ℕ) (fb : FrameState) :
    Except Panic (Culling σ) := do
  let _ ← add 64 p.localFrameSent 1
  return p.killEpoch rows epoch fb

/-- `rows[ri].cells[ci]`. -/
def cellAt (rows : List Row) (ri ci : ℕ) : Except Panic CellOverlay := do
  let row ← get rows ri
  get row.cells ci

/-- `rows[ri].cells[ci]`, assigned. -/
def updateCell (rows : List Row) (ri ci : ℕ) (f : CellOverlay → CellOverlay) :
    Except Panic (List Row) := do
  let row ← get rows ri
  let cells ← update row.cells ci f
  return rows.set ri { row with cells }

/-- The branch of `cull` for a cell that is confirmed. -/
def confirmCell (c : Culling σ) (fb : FrameState) (now ri ci ncols rowNum : ℕ)
    (cell : CellOverlay) : Except Panic (Culling σ) := do
  let p := c.self
  let p :=
    { p with
      confirmedEpoch := max p.confirmedEpoch cell.base.tentativeUntilEpoch
      confirmedEnters := max p.confirmedEnters cell.base.enters }
  let p ←
    if now - cell.base.predictionTime < glitchThreshold ∧ p.glitchTrigger > 0 ∧
        now - p.lastQuickConfirmation ≥ glitchRepairMininterval then do
      let glitchTrigger ← sub p.glitchTrigger 1
      pure { p with glitchTrigger, lastQuickConfirmation := now }
    else pure p
  let actual ← cellBytes fb rowNum cell.base.col
  let rows ← (List.range' ci (ncols - ci)).foldlM
    (fun rows k => updateCell rows ri k fun d =>
      { d with replacement := copyRenditions d.replacement actual }) c.rows
  let rows ← updateCell rows ri ci CellOverlay.reset
  return ⟨p, rows⟩

/-- The loop body of `cull`. -/
def cullCell (fb : FrameState) (now ri rowNum ncols ci : ℕ) (c : Culling σ) :
    Except (Exit σ) (Culling σ) := do
  let cell ← (cellAt c.rows ri ci).mapError .inl
  match cell.validity ext fb rowNum c.self.localFrameLateAcked with
  | .incorrectOrExpired =>
    if cell.base.tentative c.self.confirmedEpoch then
      (killEpoch c.self c.rows cell.base.tentativeUntilEpoch fb).mapError .inl
    else .error (.inr c.self.reset)
  | .correct => (confirmCell c fb now ri ci ncols rowNum cell).mapError .inl
  | .correctNoCredit => do
    let rows ← (updateCell c.rows ri ci CellOverlay.reset).mapError .inl
    return { c with rows }
  | .pending => .ok { c with self := awaitCell c.self now cell }
  | .inactive => .ok c

/-- The loop over the cells of a row. -/
def cullRow (fb : FrameState) (now ri : ℕ) (c : Culling σ) : Except (Exit σ) (Culling σ) := do
  let row ← (get c.rows ri).mapError .inl
  let ncols := row.cells.length
  forRange ncols (cullCell ext fb now ri row.rowNum ncols) c

/-- The loops of `cull`. -/
def cullRows (fb : FrameState) (now : ℕ) (c : Culling σ) : Except (Exit σ) (Culling σ) :=
  forRange c.rows.length (cullRow ext fb now) c

/-- `cull`. -/
def cull (p : Predictor σ) (fb : FrameState) (now : ℕ) : Except Panic (Predictor σ) :=
  if p.displayPreference = .never then .ok p
  else
    let p := (p.cullResize fb).cullTriggers
    let rows := p.overlays.filter fun r => r.rowNum < fb.rows
    match cullRows ext fb now ⟨{ p with overlays := [] }, rows⟩ with
    | .error (.inl panic) => .error panic
    | .error (.inr p) => .ok p
    | .ok c => .ok (({ c.self with overlays := c.rows } : Predictor σ).cullCursors fb)

/-! ### Drawing -/

/-- `CellOverlay::apply`. -/
def applyCell (c : CellOverlay) (fb : FrameState) (confirmedEpoch row : ℕ) (flag : Bool) :
    Except Panic FrameState := do
  if !c.base.active ∨ row ≥ fb.rows ∨ c.base.col ≥ fb.cols then return fb
  if c.base.tentative confirmedEpoch then return fb
  let flag :=
    if isBlank (cellText c.replacement) && isBlank (ext.cellContent fb row c.base.col) then false
    else flag
  if c.unknown then
    if flag then
      if c.base.col ≠ (← sub fb.cols 1) then setUnderline fb row c.base.col else return fb
    else return fb
  else if (← cellBytes fb row c.base.col) ≠ c.replacement then
    let fb ← setCell fb row c.base.col c.replacement
    if flag then setUnderline fb row c.base.col else return fb
  else return fb

/-- `apply`. -/
def apply (p : Predictor σ) (frame : FrameState) : Except Panic FrameState :=
  if p.displayPreference = .never then .ok frame
  else if !(p.srttTrigger || p.glitchTrigger > 0 || p.displayPreference = .always) then .ok frame
  else
    let frame := p.cursors.foldl (fun f c => c.apply f p.confirmedEpoch) frame
    p.overlays.foldlM
      (fun f r => r.cells.foldlM
        (fun f c => applyCell ext c f p.confirmedEpoch r.rowNum p.flagging) f)
      frame

/-! ### Calls -/

/-- `new_user_byte` behind its cull and the translation. -/
def feedByte (p : Predictor σ) (b : UInt8) (display : FrameState) (now : ℕ) :
    Except Panic (Predictor σ) :=
  if b = 0x7f then handlePrint ext ({ p with lastByte := b } : Predictor σ) '\x7f' display now
  else
    let (parser, acts) := ext.advance p.parser b
    acts.foldlM (fun p act => dispatch ext p display now act) { p with lastByte := b, parser }

/-- `new_user_byte`. -/
def newUserByte (p : Predictor σ) (byte : UInt8) (display : FrameState) (now : ℕ) :
    Except Panic (Predictor σ) :=
  if p.displayPreference = .never then .ok p
  else do
    let p ← cull ext p display now
    feedByte ext p (p.translate byte) display now

/-- A call of a public function. -/
def call (p : Predictor σ) : Call → Except Panic (Predictor σ)
  | .newUserByte byte display now => newUserByte ext p byte display now
  | .cull fb now => cull ext p fb now
  | .apply frame => do
    let _ ← apply ext p frame
    return p
  | k => .ok (p.call ext k)

/-- Any number of calls. -/
def calls (p : Predictor σ) (cs : List Call) : Except Panic (Predictor σ) :=
  cs.foldlM (call ext) p

end Checked
end Predictor
end Quosh
