/-
# Cells of a frame, as the predictor edits them

`crates/quosh-predict/src/lib.rs`, from `index` to `row_has_link`: reading and
writing a 12-byte cell of a frame, its text, and the cells a prediction is made
of.  A predicted character takes its style from a neighbour (`makeCharCell`), a
predicted blank keeps the style of what it replaces (`makeBlankCell`), and a
confirmed character passes its rendition on (`copyRenditions`).

`FrameState::cell_content` belongs to `blit_remote` and stays a parameter of the
predictor; `cellText` is the predictor's own reading of a cell.
-/

import Quosh.Proto.FrameState
import Quosh.Bytes.Utf8

namespace Quosh

open Bytes

/-- `[u8; CELL_SIZE]`. -/
abbrev Cell := Vector UInt8 12

/-- `[0u8; CELL_SIZE]`. -/
def Cell.zero : Cell := Vector.replicate 12 0

/-- The byte offset of a cell. -/
def index (cols row col : ℕ) : ℕ := (row * cols + col) * cellSize

/-- `cell_bytes`: the cell, or zeros outside the grid. -/
def cellBytes (fb : FrameState) (row col : ℕ) : Cell :=
  if row ≥ fb.rows ∨ col ≥ fb.cols then Cell.zero
  else Vector.ofFn fun k => fb.cells.getD (index fb.cols row col + k) 0

/-- `set_cell`: overwrites a cell and drops its overflow text. -/
def setCell (fb : FrameState) (row col : ℕ) (cell : Cell) : FrameState :=
  let i := index fb.cols row col
  { fb with
    cells := fb.cells.take i ++ cell.toList ++ fb.cells.drop (i + cellSize)
    overflow := fb.overflow.remove (row * fb.cols + col) }

/-- `set_underline`; the bit is `1 << 7`. -/
def setUnderline (fb : FrameState) (row col : ℕ) : FrameState :=
  { fb with cells := fb.cells.modify (index fb.cols row col) fun b => b ||| (0x80 : UInt8) }

/-- The second byte of a cell: its inverse and spacer bits, and the length. -/
def cellFlags (cell : Cell) : UInt8 := cell[1]

/-- The three length bits of a cell. -/
def cellLen (cell : Cell) : ℕ := ((cell[1] >>> (3 : UInt8)) &&& (7 : UInt8)).toNat

/-- `cell_text`: the text of a cell, with a blank read as a space and a spacer,
or text that is elsewhere, read as nothing. -/
def cellText (cell : Cell) : String :=
  if cell[1] &&& (4 : UInt8) ≠ 0 then ""
  else if cellLen cell = 0 then " "
  else if cellLen cell ≥ 7 ∨ cellLen cell > 4 then ""
  else fromUtf8Lossy ((cell.toList.drop 8).take (cellLen cell))

/-- `is_blank`. -/
def isBlank (s : String) : Bool := s = "" || s = " " || s = "\u00a0"

/-- `contents_match`. -/
def contentsMatch (a b : String) : Bool := (isBlank a && isBlank b) || a = b

/-- `make_char_cell`: a width-1 cell with the style of `src`. -/
def makeCharCell (src : Cell) (ch : Char) : Cell :=
  let text := String.utf8EncodeChar ch
  let len := min text.length 4
  Vector.ofFn fun k =>
    if k.val = 1 then (src[1] &&& (1 : UInt8)) ||| (UInt8.ofNat len <<< 3)
    else if 8 ≤ k.val then (text.take len).getD (k - 8) 0
    else src[k]

/-- `make_blank_cell`: the style of `src` without its content. -/
def makeBlankCell (src : Cell) : Cell :=
  Vector.ofFn fun k => if k.val = 1 then src[1] &&& (1 : UInt8) else if 8 ≤ k.val then 0 else src[k]

/-- `copy_renditions`: colours, attributes and the inverse flag of `src`, content
and wide flags of `dst`. -/
def copyRenditions (dst src : Cell) : Cell :=
  Vector.ofFn fun k =>
    if k.val = 0 ∨ 2 ≤ k.val ∧ k.val < 8 then src[k]
    else if k.val = 1 then (dst[1] &&& (0xFE : UInt8)) ||| (src[1] &&& (1 : UInt8))
    else dst[k]

/-- `cell_is_overflow`: the text is in the overflow table. -/
def cellIsOverflow (cell : Cell) : Bool := cellLen cell = 7

/-- `has_link`. -/
def hasLink (fb : FrameState) (row col : ℕ) : Bool :=
  if fb.cellLinks = [] then false else fb.cellLinks.getD (row * fb.cols + col) 0 ≠ 0

/-- `unsupported_range`: whether a cell of the range cannot be moved. -/
def unsupportedRange (fb : FrameState) (row start stop : ℕ) : Bool :=
  if row ≥ fb.rows ∨ start > stop then false
  else
    (List.range' start (min stop (fb.cols - 1) + 1 - start)).any fun c =>
      cellIsOverflow (cellBytes fb row c) || hasLink fb row c

/-- `row_has_link`. -/
def rowHasLink (fb : FrameState) (row : ℕ) : Bool :=
  (List.range fb.cols).any fun c => hasLink fb row c

end Quosh
