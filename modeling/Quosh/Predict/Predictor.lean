/-
# The predictor

`crates/quosh-predict/src/lib.rs`, `Predictor`: keystrokes become tentative
overlays (`newUserByte`), a frame of the server judges them (`cull`), and what
survives is drawn over it (`apply`).

The epoch is a `u64` that wraps; `epochs` counts how often it was advanced and
`predictionEpoch` is what the source holds.  Rows are as wide as the frame they
were made for, since the cull in front of every byte drops them when the
dimensions change, so the indexing of the source stays in range; here an index
out of range selects nothing.  The cull walks the rows by position while a
killed epoch changes all of them, and leaves when an established prediction
fails: it is a loop with an early exit (`cullRows`).

`enters` and `confirmedEnters` are history variables: the number of carriage
returns dispatched, and the greatest `enters` of a cell overlay that a cull
judged correct.  No function reads them.
-/

import Quosh.Predict.Overlay
import Quosh.Control.ForRange

namespace Quosh

def srttTriggerLow : ℕ := 20
def srttTriggerHigh : ℕ := 30
def flagTriggerLow : ℕ := 50
def flagTriggerHigh : ℕ := 80
def glitchThreshold : ℕ := 250
def glitchRepairCount : ℕ := 10
def glitchRepairMininterval : ℕ := 150
def glitchFlagThreshold : ℕ := 5000

/-- `Predictor`, with the history variables `enters` and `confirmedEnters`. -/
structure Predictor (σ : Type) where
  lastByte : UInt8 := 0
  parser : σ
  overlays : List Row := []
  cursors : List CursorOverlay := []
  localFrameSent : ℕ := 0
  localFrameAcked : ℕ := 0
  localFrameLateAcked : ℕ := 0
  epochs : ℕ := 1
  confirmedEpoch : ℕ := 0
  flagging : Bool := false
  srttTrigger : Bool := false
  glitchTrigger : ℕ := 0
  lastQuickConfirmation : ℕ := 0
  sendInterval : ℕ := 250
  lastHeight : ℕ := 0
  lastWidth : ℕ := 0
  displayPreference : DisplayPreference := .adaptive
  predictOverwrite : Bool := false
  enters : ℕ := 0
  confirmedEnters : ℕ := 0
  deriving DecidableEq

namespace Predictor

variable {σ : Type} (ext : Externals σ)

/-- `Predictor::new`. -/
def new : Predictor σ := { parser := ext.parserNew }

/-- `prediction_epoch`. -/
def predictionEpoch (p : Predictor σ) : ℕ := p.epochs % 2 ^ 64

/-- `set_display_preference`. -/
def setDisplayPreference (p : Predictor σ) (pref : DisplayPreference) : Predictor σ :=
  { p with displayPreference := pref }

/-- `set_local_frame_sent`. -/
def setLocalFrameSent (p : Predictor σ) (seq : ℕ) : Predictor σ := { p with localFrameSent := seq }

/-- `set_local_frame_acked`. -/
def setLocalFrameAcked (p : Predictor σ) (seq : ℕ) : Predictor σ :=
  { p with localFrameAcked := seq }

/-- `set_local_frame_late_acked`. -/
def setLocalFrameLateAcked (p : Predictor σ) (seq : ℕ) : Predictor σ :=
  { p with localFrameLateAcked := seq }

/-- `set_send_interval`. -/
def setSendInterval (p : Predictor σ) (ms : ℕ) : Predictor σ := { p with sendInterval := ms }

/-- `set_predict_overwrite`. -/
def setPredictOverwrite (p : Predictor σ) (overwrite : Bool) : Predictor σ :=
  { p with predictOverwrite := overwrite }

/-- `become_tentative`. -/
def becomeTentative (p : Predictor σ) : Predictor σ := { p with epochs := p.epochs + 1 }

/-- `reset`. -/
def reset (p : Predictor σ) : Predictor σ :=
  ({ p with cursors := [], overlays := [] } : Predictor σ).becomeTentative

/-- `active`. -/
def active (p : Predictor σ) : Bool :=
  !p.cursors.isEmpty || p.overlays.any fun r => r.cells.any fun c => c.base.active

/-! ### Input -/

/-- A new cursor overlay of the current epoch, at the back of the list. -/
def pushCursor (p : Predictor σ) (row col : ℕ) : Predictor σ :=
  { p with
    cursors := p.cursors ++
      [{ base :=
          { expirationFrame := p.localFrameSent + 1, col, active := true
            tentativeUntilEpoch := p.predictionEpoch, predictionTime := none64
            enters := p.enters }
         row, col }] }

/-- `cursor`: the last cursor overlay.  The source expects one, and calls it only
behind `init_cursor`. -/
def cursor (p : Predictor σ) : CursorOverlay :=
  p.cursors.getLast?.getD { base := .new 0 0 0, row := 0, col := 0 }

/-- `cursors.last_mut()`. -/
def modifyCursor (p : Predictor σ) (f : CursorOverlay → CursorOverlay) : Predictor σ :=
  { p with cursors := p.cursors.modifyLast f }

/-- `init_cursor`. -/
def initCursor (p : Predictor σ) (fb : FrameState) : Predictor σ :=
  match p.cursors.getLast? with
  | none => p.pushCursor fb.cursorRow fb.cursorCol
  | some c =>
    if c.base.tentativeUntilEpoch ≠ p.predictionEpoch then p.pushCursor c.row c.col else p

/-- `get_or_make_row`, and an edit of the cells of that row. -/
def modifyRow (p : Predictor σ) (rowNum numCols epoch : ℕ)
    (f : List CellOverlay → List CellOverlay) : Predictor σ :=
  let (overlays, pos) := getOrMakeRow p.overlays rowNum numCols epoch p.enters
  { p with overlays := overlays.modify pos fun r => { r with cells := f r.cells } }

/-- What a prediction of the current moment is stamped with. -/
structure Stamp where
  epoch : ℕ
  exp : ℕ
  now : ℕ
  enters : ℕ

/-- The lines that open every cell prediction: `reset_with_orig`, the stamp, and
the text of the cell on screen as what the prediction replaced. -/
def predictCell (cell : CellOverlay) (s : Stamp) (actual : Cell) : CellOverlay :=
  let cell := cell.resetWithOrig
  { cell with
    base := cell.base.stamp s.epoch s.exp s.now s.enters
    originalContents := cell.originalContents ++ [cellText actual] }

/-- What moves into a cell from its neighbour: the prediction there, or the cell
on screen. -/
def takeFrom (cell neighbour : CellOverlay) (neighbourActual : Cell) : CellOverlay :=
  if neighbour.base.active then
    if neighbour.unknown then { cell with unknown := true }
    else { cell with unknown := false, replacement := neighbour.replacement }
  else { cell with unknown := false, replacement := neighbourActual }

/-- The loop body of `backspace`: column `i` takes what is right of it. -/
def shiftLeft (display : FrameState) (rowNum : ℕ) (s : Stamp) (cells : List CellOverlay)
    (i : ℕ) : List CellOverlay :=
  let next := if i + 2 < display.cols then cells[i + 1]? else none
  cells.modify i fun cell =>
    let cell := predictCell cell s (cellBytes display rowNum i)
    match next with
    | some n => takeFrom cell n (cellBytes display rowNum (i + 1))
    | none => { cell with unknown := true }

/-- The loop body of `predict_char`: column `i` takes what is left of it. -/
def shiftRight (display : FrameState) (rowNum : ℕ) (s : Stamp) (cells : List CellOverlay)
    (i : ℕ) : List CellOverlay :=
  let prev := if i = display.cols - 1 then none else cells[i - 1]?
  cells.modify i fun cell =>
    let cell := predictCell cell s (cellBytes display rowNum i)
    match prev with
    | some c => takeFrom cell c (cellBytes display rowNum (i - 1))
    | none => { cell with unknown := true }

/-- The stamp of the current moment. -/
def stampNow (p : Predictor σ) (now : ℕ) : Stamp :=
  ⟨p.predictionEpoch, p.localFrameSent + 1, now, p.enters⟩

/-- The last column an edit at `col` reaches: `to` in `backspace`, `rightmost` in
`predict_char`. -/
def editEnd (p : Predictor σ) (display : FrameState) (col : ℕ) : ℕ :=
  if p.predictOverwrite then col else display.cols - 1

/-- What `backspace` does to the cells of the row. -/
def backspaceCells (display : FrameState) (rowNum col : ℕ) (overwrite : Bool) (s : Stamp)
    (cells : List CellOverlay) : List CellOverlay :=
  if overwrite then
    cells.modify col fun cell =>
      { predictCell cell s (cellBytes display rowNum col) with
        replacement := makeBlankCell (cellBytes display rowNum col) }
  else (List.range' col (display.cols - col)).foldl (shiftLeft display rowNum s) cells

/-- `backspace`. -/
def backspace (p : Predictor σ) (display : FrameState) (now : ℕ) : Predictor σ :=
  let rowNum := p.cursor.row
  let col0 := p.cursor.col
  let s := p.stampNow now
  if col0 = 0 then p
  else
    let col := col0 - 1
    if unsupportedRange display rowNum col (p.editEnd display col) then p.becomeTentative
    else
      let p := p.modifyCursor fun c => { c with col, base := c.base.expire s.exp now }
      p.modifyRow rowNum display.cols s.epoch
        (backspaceCells display rowNum col p.predictOverwrite s)

/-- What a line feed at the bottom does to the cells of the row. -/
def blankCells (s : Stamp) (cells : List CellOverlay) : List CellOverlay :=
  cells.map fun cell =>
    { cell with
      base := cell.base.stamp s.epoch s.exp s.now s.enters
      replacement := makeBlankCell cell.replacement }

/-- `newline_carriage_return`.  `height - 1` is a `u16` subtraction. -/
def newlineCarriageReturn (p : Predictor σ) (display : FrameState) (now : ℕ) : Predictor σ :=
  let p := p.initCursor display
  let height := display.rows
  let s := p.stampNow now
  let p := p.modifyCursor fun c => { c with col := 0 }
  let rowNum := p.cursor.row
  if rowNum = (height + 65535) % 65536 then
    if rowHasLink display rowNum then p.becomeTentative
    else p.modifyRow rowNum display.cols s.epoch (blankCells s)
  else p.modifyCursor fun c => { c with row := c.row + 1 }

/-- The style a predicted character takes: of the prediction left of it, of the
cell on screen there, or in the first column of the cell it replaces. -/
def baseRendition (display : FrameState) (rowNum col : ℕ) (cells : List CellOverlay) : Cell :=
  if col > 0 then
    match cells[col - 1]? with
    | some prev =>
      if prev.base.active && !prev.unknown then prev.replacement
      else cellBytes display rowNum (col - 1)
    | none => cellBytes display rowNum (col - 1)
  else cellBytes display rowNum col

/-- What `predict_char` does to the cells of the row. -/
def insertCells (display : FrameState) (rowNum col rightmost : ℕ) (ch : Char) (s : Stamp)
    (cells : List CellOverlay) : List CellOverlay :=
  let cells := (List.range' (col + 1) (rightmost - col)).reverse.foldl
    (shiftRight display rowNum s) cells
  let replacement := baseRendition display rowNum col cells
  cells.modify col fun cell =>
    { predictCell cell s (cellBytes display rowNum col) with
      replacement := makeCharCell replacement ch }

/-- `predict_char` past its checks: the cells, the cursor, and the wrap behind
the last column. -/
def insertChar (p : Predictor σ) (ch : Char) (display : FrameState) (now rowNum col rightmost
    oldEpoch : ℕ) : Predictor σ :=
  let s := p.stampNow now
  let p := p.modifyRow rowNum display.cols oldEpoch
    (insertCells display rowNum col rightmost ch s)
  let p := p.modifyCursor fun c => { c with base := c.base.expire s.exp now }
  if col < display.cols - 1 then p.modifyCursor fun c => { c with col := c.col + 1 }
  else p.becomeTentative.newlineCarriageReturn display now

/-- `predict_char`; a character in the last column starts an epoch of its own. -/
def predictChar (p : Predictor σ) (ch : Char) (display : FrameState) (now : ℕ) : Predictor σ :=
  let rowNum := p.cursor.row
  let col := p.cursor.col
  if rowNum ≥ display.rows ∨ col ≥ display.cols then p
  else
    let oldEpoch := p.predictionEpoch
    let rightmost := p.editEnd display col
    if unsupportedRange display rowNum col rightmost then p.becomeTentative
    else if col + 1 ≥ display.cols then
      p.becomeTentative.insertChar ch display now rowNum col rightmost oldEpoch
    else p.insertChar ch display now rowNum col rightmost oldEpoch

/-- `handle_print`. -/
def handlePrint (p : Predictor σ) (ch : Char) (display : FrameState) (now : ℕ) : Predictor σ :=
  let p := p.initCursor display
  if ch = '\x7f' then p.backspace display now
  else if ch < '\x20' ∨ ext.charWidth ch ≠ some 1 then p.becomeTentative
  else p.predictChar ch display now

/-- A body of the `match` on acts in `new_user_byte`.  A carriage return is
counted before anything it does. -/
def dispatch (p : Predictor σ) (display : FrameState) (now : ℕ) : Act → Predictor σ
  | .print ch => p.handlePrint ext ch display now
  | .execute byte =>
    if byte = 0x0d then
      let p := { p with enters := p.enters + 1 }
      p.becomeTentative.newlineCarriageReturn display now
    else p.becomeTentative
  | .csi action =>
    if action = 'C' then
      let p := p.initCursor display
      if p.cursor.col < display.cols - 1 then
        p.modifyCursor fun c =>
          { c with col := c.col + 1, base := c.base.expire (p.localFrameSent + 1) now }
      else p
    else if action = 'D' then
      let p := p.initCursor display
      if p.cursor.col > 0 then
        p.modifyCursor fun c =>
          { c with col := c.col - 1, base := c.base.expire (p.localFrameSent + 1) now }
      else p
    else p.becomeTentative
  | .esc => p.becomeTentative

/-! ### Reconciliation -/

/-- The rows of a cull in progress, and the predictor without them. -/
structure Culling (σ : Type) where
  self : Predictor σ
  rows : List Row

/-- `kill_epoch`: drops what is tentative in the epoch or a later one, and starts
over from the cursor of the frame. -/
def killEpoch (p : Predictor σ) (rows : List Row) (epoch : ℕ) (fb : FrameState) : Culling σ :=
  let old := epoch - 1
  let p := { p with cursors := p.cursors.filter fun c => !c.base.tentative old }
  let p := p.pushCursor fb.cursorRow fb.cursorCol
  let rows := rows.map fun r =>
    { r with cells := r.cells.map fun cell => if cell.base.tentative old then cell.reset else cell }
  ⟨p.becomeTentative, rows⟩

/-- The cell overlay at a position of the rows. -/
def cellAt (rows : List Row) (ri ci : ℕ) : Option CellOverlay :=
  (rows[ri]?.map Row.cells).bind fun cells => cells[ci]?

/-- An edit of the cells of the row at a position. -/
def modifyCells (rows : List Row) (ri : ℕ) (f : List CellOverlay → List CellOverlay) : List Row :=
  rows.modify ri fun r => { r with cells := f r.cells }

/-- The branch of `cull` for a cell that is confirmed: its epoch is, a quick
confirmation repairs the glitch counter, the rendition spreads to the right, and
the overlay is done. -/
def confirmCell (c : Culling σ) (fb : FrameState) (now ri ci rowNum : ℕ) (cell : CellOverlay) :
    Culling σ :=
  let p := c.self
  let p :=
    { p with
      confirmedEpoch := max p.confirmedEpoch cell.base.tentativeUntilEpoch
      confirmedEnters := max p.confirmedEnters cell.base.enters }
  let p :=
    if now - cell.base.predictionTime < glitchThreshold ∧ p.glitchTrigger > 0 ∧
        now - p.lastQuickConfirmation ≥ glitchRepairMininterval then
      { p with glitchTrigger := p.glitchTrigger - 1, lastQuickConfirmation := now }
    else p
  let actual := cellBytes fb rowNum cell.base.col
  let spread (cells : List CellOverlay) : List CellOverlay :=
    cells.mapIdx fun k d =>
      if ci ≤ k then { d with replacement := copyRenditions d.replacement actual } else d
  ⟨p, modifyCells c.rows ri fun cells => (spread cells).modify ci CellOverlay.reset⟩

/-- The branch of `cull` for a cell that is still pending: a long wait raises the
glitch counter. -/
def awaitCell (p : Predictor σ) (now : ℕ) (cell : CellOverlay) : Predictor σ :=
  let pending := now - cell.base.predictionTime
  if pending ≥ glitchFlagThreshold then { p with glitchTrigger := glitchRepairCount * 2 }
  else if pending ≥ glitchThreshold ∧ p.glitchTrigger < glitchRepairCount then
    { p with glitchTrigger := glitchRepairCount }
  else p

/-- The loop body of `cull` for the cell at a position. -/
def cullCell (fb : FrameState) (now ri rowNum ci : ℕ) (c : Culling σ) :
    Except (Predictor σ) (Culling σ) :=
  match cellAt c.rows ri ci with
  | none => .ok c
  | some cell =>
    match cell.validity ext fb rowNum c.self.localFrameLateAcked with
    | .incorrectOrExpired =>
      if cell.base.tentative c.self.confirmedEpoch then
        .ok (c.self.killEpoch c.rows cell.base.tentativeUntilEpoch fb)
      else .error c.self.reset
    | .correct => .ok (confirmCell c fb now ri ci rowNum cell)
    | .correctNoCredit =>
      .ok { c with rows := modifyCells c.rows ri fun cells => cells.modify ci CellOverlay.reset }
    | .pending => .ok { c with self := awaitCell c.self now cell }
    | .inactive => .ok c

/-- The loop over the cells of the row at a position. -/
def cullRow (fb : FrameState) (now ri : ℕ) (c : Culling σ) :
    Except (Predictor σ) (Culling σ) :=
  match c.rows[ri]? with
  | none => .ok c
  | some row => forRange row.cells.length (cullCell ext fb now ri row.rowNum) c

/-- The loops of `cull`. -/
def cullRows (fb : FrameState) (now : ℕ) (c : Culling σ) : Except (Predictor σ) (Culling σ) :=
  forRange c.rows.length (cullRow ext fb now) c

/-- The opening of `cull`: a frame of another size drops all predictions. -/
def cullResize (p : Predictor σ) (fb : FrameState) : Predictor σ :=
  if p.lastHeight ≠ fb.rows ∨ p.lastWidth ≠ fb.cols then
    ({ p with lastHeight := fb.rows, lastWidth := fb.cols } : Predictor σ).reset
  else p

/-- The hysteresis of the two triggers, in `cull`. -/
def cullTriggers (p : Predictor σ) : Predictor σ :=
  let p :=
    if p.sendInterval > srttTriggerHigh then { p with srttTrigger := true }
    else if p.srttTrigger && p.sendInterval ≤ srttTriggerLow && !p.active then
      { p with srttTrigger := false }
    else p
  let p :=
    if p.sendInterval > flagTriggerHigh then { p with flagging := true }
    else if p.sendInterval ≤ flagTriggerLow then { p with flagging := false }
    else p
  if p.glitchTrigger > glitchRepairCount then { p with flagging := true } else p

/-- The end of `cull`: the last cursor decides, and only pending ones stay. -/
def cullCursors (p : Predictor σ) (fb : FrameState) : Predictor σ :=
  if p.cursors.getLast?.any fun back =>
      back.validity fb p.localFrameLateAcked = .incorrectOrExpired then p.reset
  else
    { p with
      cursors := p.cursors.filter fun c =>
        c.base.active && c.validity fb p.localFrameLateAcked = .pending }

/-- `cull`. -/
def cull (p : Predictor σ) (fb : FrameState) (now : ℕ) : Predictor σ :=
  if p.displayPreference = .never then p
  else
    let p := (p.cullResize fb).cullTriggers
    let rows := p.overlays.filter fun r => r.rowNum < fb.rows
    match cullRows ext fb now ⟨{ p with overlays := [] }, rows⟩ with
    | .error p => p
    | .ok c => ({ c.self with overlays := c.rows } : Predictor σ).cullCursors fb

-- A whole cull is unfolded by name only; unification would run through its loops.
attribute [irreducible] cull

/-- `apply`. -/
def apply (p : Predictor σ) (frame : FrameState) : FrameState :=
  if p.displayPreference = .never then frame
  else if !(p.srttTrigger || p.glitchTrigger > 0 || p.displayPreference = .always) then frame
  else
    let frame := p.cursors.foldl (fun f c => c.apply f p.confirmedEpoch) frame
    p.overlays.foldl
      (fun f r => r.cells.foldl (fun f c => c.apply ext f p.confirmedEpoch r.rowNum p.flagging) f)
      frame

/-- The byte the parser is given: Mosh reads an application-mode `ESC O` as
`ESC [`, so that arrows predict there too. -/
def translate (p : Predictor σ) (byte : UInt8) : UInt8 :=
  if p.lastByte = 0x1b ∧ byte = 0x4f then 0x5b else byte

/-- `new_user_byte` behind its cull and the translation: a delete is handled here,
anything else goes through the parser. -/
def feedByte (p : Predictor σ) (b : UInt8) (display : FrameState) (now : ℕ) : Predictor σ :=
  if b = 0x7f then ({ p with lastByte := b } : Predictor σ).handlePrint ext '\x7f' display now
  else
    let (parser, acts) := ext.advance p.parser b
    acts.foldl (fun p act => p.dispatch ext display now act) { p with lastByte := b, parser }

/-- `new_user_byte`: a cull against what is on screen, then the byte. -/
def newUserByte (p : Predictor σ) (byte : UInt8) (display : FrameState) (now : ℕ) :
    Predictor σ :=
  if p.displayPreference = .never then p
  else
    let p := p.cull ext display now
    p.feedByte ext (p.translate byte) display now

end Predictor
end Quosh
