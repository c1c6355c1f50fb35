/-
# The terminal frame

`blit_remote::FrameState` is the grid the whole program exchanges: dimensions,
cursor, mode bits, title, `rows * cols` cells of 12 bytes, a table with the text
of the cells whose text does not fit in four bytes, and an array of OSC 8 links.
The crate is outside the repository; this is the data its accessors expose, with
the setters that the repository calls.

Dimensions and cursor are `u16` in the source and natural numbers here; the
widths enter where frames are encoded (`Quosh.Proto.Screen`).
-/

import Quosh.Bytes.LittleEndian
import Quosh.Data.SortedTable

namespace Quosh

/-- `blit_remote::CELL_SIZE`. -/
def cellSize : ℕ := 12

/-- `blit_remote::MAX_CELL_COUNT` (`docs/11-v1-spec.md`, "Limits and liveness"). -/
def maxCellCount : ℕ := 500000

def maxCols : ℕ := 512
def maxRows : ℕ := 512
def minCols : ℕ := 2
def minRows : ℕ := 2

/-- `validate_dims`: whether a terminal size is accepted. -/
def validateDims (cols rows : ℕ) : Bool :=
  minCols ≤ cols && minRows ≤ rows && cols ≤ maxCols && rows ≤ maxRows &&
    cols * rows ≤ maxCellCount

theorem validateDims_iff (cols rows : ℕ) :
    validateDims cols rows = true ↔ 2 ≤ cols ∧ 2 ≤ rows ∧ cols ≤ 512 ∧ rows ≤ 512 := by
  have hcells (hc : cols ≤ 512) (hr : rows ≤ 512) : cols * rows ≤ 500000 :=
    calc cols * rows ≤ 512 * 512 := Nat.mul_le_mul hc hr
      _ ≤ 500000 := by omega
  simp only [validateDims, Bool.and_eq_true, decide_eq_true_eq]
  unfold minCols minRows maxCols maxRows maxCellCount
  exact ⟨fun h => by omega, fun h => ⟨⟨⟨⟨h.1, h.2.1⟩, h.2.2.1⟩, h.2.2.2⟩, hcells h.2.2.1 h.2.2.2⟩⟩

/-- `FrameState`. -/
structure FrameState where
  rows : ℕ
  cols : ℕ
  cursorRow : ℕ
  cursorCol : ℕ
  mode : ℕ
  title : String
  cells : Bytes
  overflow : SortedTable ℕ String
  cellLinks : List ℕ
  deriving DecidableEq

namespace FrameState

/-- `FrameState::from_parts`: a frame without overflow text and links. -/
def fromParts (rows cols cursorRow cursorCol mode : ℕ) (title : String) (cells : Bytes) :
    FrameState :=
  { rows, cols, cursorRow, cursorCol, mode, title, cells, overflow := {}, cellLinks := [] }

/-- `FrameState::set_cursor`. -/
def setCursor (f : FrameState) (row col : ℕ) : FrameState :=
  { f with cursorRow := row, cursorCol := col }

end FrameState
end Quosh
