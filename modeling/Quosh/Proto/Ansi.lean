/-
# The frame as ANSI text

`crates/quosh-proto/src/lib.rs`, `frame_ansi`, `style_at` and `push_sgr`: the whole grid as
bytes for a terminal, row by row, with a style sequence where the style changes.

The text of a cell is `FrameState::cell_content` of `blit_remote`, which is outside the
repository and a parameter here.
-/

import Quosh.Bytes.Utf8
import Quosh.Proto.FrameState

namespace Quosh

open Bytes

/-- `Style`; a colour is 0 default, 1 indexed, 2 rgb. -/
structure Style where
  fg : UInt8 := 0
  bg : UInt8 := 0
  fgV : UInt8 × UInt8 × UInt8 := (0, 0, 0)
  bgV : UInt8 × UInt8 × UInt8 := (0, 0, 0)
  bold : Bool := false
  dim : Bool := false
  italic : Bool := false
  underline : Bool := false
  inverse : Bool := false
  deriving DecidableEq, Repr

/-- `style_at`. -/
def styleAt (cells : Bytes) (cols row col : ℕ) : Style :=
  let idx := (row * cols + col) * cellSize
  if idx + cellSize > cells.length then {}
  else
    let f0 := cells.getD idx 0
    let f1 := cells.getD (idx + 1) 0
    { fg := f0 &&& 3
      bg := (f0 >>> 2) &&& 3
      bold := (f0 >>> 4) &&& 1 ≠ 0
      dim := (f0 >>> 5) &&& 1 ≠ 0
      italic := (f0 >>> 6) &&& 1 ≠ 0
      underline := (f0 >>> 7) &&& 1 ≠ 0
      inverse := f1 &&& 1 ≠ 0
      fgV := (cells.getD (idx + 2) 0, cells.getD (idx + 3) 0, cells.getD (idx + 4) 0)
      bgV := (cells.getD (idx + 5) 0, cells.getD (idx + 6) 0, cells.getD (idx + 7) 0) }

/-- The parameters of a colour in `push_sgr`, `base` being 38 for the foreground and 48 for
the background. -/
def sgrColor (base : String) (type : UInt8) (v : UInt8 × UInt8 × UInt8) : String :=
  if type = 1 then ";" ++ base ++ ";5;" ++ toString v.1.toNat
  else if type = 2 then
    ";" ++ base ++ ";2;" ++ toString v.1.toNat ++ ";" ++ toString v.2.1.toNat ++ ";" ++
      toString v.2.2.toNat
  else ""

/-- What `push_sgr` writes. -/
def sgrText (s : Style) : String :=
  "\x1b[0" ++ (if s.bold then ";1" else "") ++ (if s.dim then ";2" else "") ++
    (if s.italic then ";3" else "") ++ (if s.underline then ";4" else "") ++
    (if s.inverse then ";7" else "") ++ sgrColor "38" s.fg s.fgV ++ sgrColor "48" s.bg s.bgV ++ "m"

/-- `push_sgr`. -/
def pushSgr (out : Bytes) (s : Style) : Bytes := out ++ asBytes (sgrText s)

variable (cellContent : FrameState → ℕ → ℕ → String)

/-- One cell of `frame_ansi`: the style if it is another, and the text. -/
def ansiCell (frame : FrameState) (row : ℕ) (p : Bytes × Style) (col : ℕ) : Bytes × Style :=
  let style := styleAt frame.cells frame.cols row col
  let p := if style ≠ p.2 then (pushSgr p.1 style, style) else p
  (p.1 ++ asBytes (cellContent frame row col), p.2)

/-- One row of `frame_ansi`. -/
def ansiRow (frame : FrameState) (p : Bytes × Style) (row : ℕ) : Bytes × Style :=
  let p := if row > 0 then (p.1 ++ asBytes "\r\n", p.2) else p
  (List.range frame.cols).foldl (ansiCell cellContent frame row) p

/-- `frame_ansi`. -/
def frameAnsi (frame : FrameState) : Bytes :=
  let p := (List.range frame.rows).foldl (ansiRow cellContent frame) ([], {})
  if p.2 ≠ {} then p.1 ++ asBytes "\x1b[0m" else p.1

end Quosh
