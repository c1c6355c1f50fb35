/-
# From the terminal grid to a frame

`crates/quosh-terminal/src/lib.rs`, `Emulator::snapshot` and `encode_cell`: a
cell of the emulator's grid becomes 12 bytes (two flag bytes, two colours of
three bytes, four bytes of text) and, when its text is longer than four bytes,
an entry of the overflow table under its flat index.

The grid belongs to `alacritty_terminal`; `TermCell` is what `encode_cell` reads
of its cells.  The loop of `snapshot` visits the cells in increasing flat index
(`gridCells_keys`), so the overflow table is the list of the long texts in that
order (`snapshot_overflow`).
-/

import Quosh.Proto.FrameState
import Quosh.Bytes.Utf8

namespace Quosh

open Bytes

/-- `NamedColor`, with the discriminants of the source. -/
inductive NamedColor where
  | black | red | green | yellow | blue | magenta | cyan | white
  | brightBlack | brightRed | brightGreen | brightYellow
  | brightBlue | brightMagenta | brightCyan | brightWhite
  | foreground | background | cursor
  | dimBlack | dimRed | dimGreen | dimYellow | dimBlue | dimMagenta | dimCyan | dimWhite
  | brightForeground | dimForeground
  deriving DecidableEq, Repr

/-- The discriminant: sixteen palette entries from 0, the special colours from
256. -/
def NamedColor.discriminant : NamedColor → ℕ
  | black => 0 | red => 1 | green => 2 | yellow => 3
  | blue => 4 | magenta => 5 | cyan => 6 | white => 7
  | brightBlack => 8 | brightRed => 9 | brightGreen => 10 | brightYellow => 11
  | brightBlue => 12 | brightMagenta => 13 | brightCyan => 14 | brightWhite => 15
  | foreground => 256 | background => 257 | cursor => 258
  | dimBlack => 259 | dimRed => 260 | dimGreen => 261 | dimYellow => 262
  | dimBlue => 263 | dimMagenta => 264 | dimCyan => 265 | dimWhite => 266
  | brightForeground => 267 | dimForeground => 268

/-- `Color`. -/
inductive Color where
  | named (n : NamedColor)
  | indexed (i : UInt8)
  | spec (r g b : UInt8)
  deriving DecidableEq, Repr

/-- The cell flags that `encode_cell` looks at. -/
structure CellFlags where
  bold : Bool := false
  dim : Bool := false
  italic : Bool := false
  underline : Bool := false
  doubleUnderline : Bool := false
  undercurl : Bool := false
  dottedUnderline : Bool := false
  dashedUnderline : Bool := false
  inverse : Bool := false
  wideChar : Bool := false
  wideCharSpacer : Bool := false
  deriving DecidableEq, Repr

/-- A cell of the grid.  `extra` is the optional heap part of the cell; of its
contents only the zero-width characters are read. -/
structure TermCell where
  c : Char := ' '
  fg : Color := .named .foreground
  bg : Color := .named .background
  flags : CellFlags := {}
  extra : Option (List Char) := none
  deriving DecidableEq, Repr

/-- `Cell::zerowidth`. -/
def TermCell.zerowidth (cell : TermCell) : List Char := cell.extra.getD []

/-- A colour as its two type bits and its three bytes; `default` is the named
colour that stands for "no colour" on this side. -/
def encodeColor (default : NamedColor) : Color → UInt8 × Bytes
  | .named n =>
    if n = default then (0, [0, 0, 0]) else (1, [UInt8.ofNat n.discriminant, 0, 0])
  | .indexed i => (1, [i, 0, 0])
  | .spec r g b => (2, [r, g, b])

/-- `f0`: colour types, bold, dim, italic, and underline of any kind. -/
def flagByte0 (cell : TermCell) : UInt8 :=
  (encodeColor .foreground cell.fg).1 ||| ((encodeColor .background cell.bg).1 <<< 2) |||
    (if cell.flags.bold then 0x10 else 0) ||| (if cell.flags.dim then 0x20 else 0) |||
    (if cell.flags.italic then 0x40 else 0) |||
    (if cell.flags.underline || cell.flags.doubleUnderline || cell.flags.undercurl ||
        cell.flags.dottedUnderline || cell.flags.dashedUnderline then 0x80 else 0)

/-- The text of a cell with content: its character and its zero-width marks. -/
def cellFullText (cell : TermCell) : String := String.ofList (cell.c :: cell.zerowidth)

/-- The length bits of `f1`, the four text bytes, and the text that goes to the
overflow table: one printable ASCII character without extras is stored as it is,
NUL and space as nothing, anything else in the cell if it takes at most four
bytes and in the table otherwise. -/
def encodeContent (cell : TermCell) : UInt8 × Bytes × Option String :=
  if cell.c ≤ '\x7f' ∧ ' ' < cell.c ∧ cell.extra = none then
    (0x08, [UInt8.ofNat cell.c.toNat, 0, 0, 0], none)
  else if cell.c ≠ '\x00' ∧ cell.c ≠ ' ' then
    let bytes := asBytes (cellFullText cell)
    if bytes.length ≤ 4 then
      (UInt8.ofNat bytes.length <<< 3, bytes ++ List.replicate (4 - bytes.length) 0, none)
    else (0x38, [0, 0, 0, 0], some (cellFullText cell))
  else (0, [0, 0, 0, 0], none)

/-- `f1`: inverse, wide character, its spacer, and the length bits. -/
def flagByte1 (cell : TermCell) : UInt8 :=
  (if cell.flags.inverse then 1 else 0) ||| (if cell.flags.wideChar then 0x02 else 0) |||
    (if cell.flags.wideCharSpacer then 0x04 else 0) ||| (encodeContent cell).1

/-- The 12 bytes `encode_cell` writes. -/
def cellBytesOf (cell : TermCell) : Bytes :=
  [flagByte0 cell, flagByte1 cell] ++ (encodeColor .foreground cell.fg).2 ++
    (encodeColor .background cell.bg).2 ++ (encodeContent cell).2.1

/-- The text `encode_cell` puts into the overflow table. -/
def overflowTextOf (cell : TermCell) : Option String := (encodeContent cell).2.2

/-- `encode_cell` at flat index `flat`. -/
def encodeCell (cell : TermCell) (flat : ℕ) (overflow : SortedTable ℕ String) :
    Bytes × SortedTable ℕ String :=
  (cellBytesOf cell,
    match overflowTextOf cell with
    | some full => overflow.insert flat full
    | none => overflow)

/-- A cell has 12 bytes. -/
theorem length_cellBytesOf (cell : TermCell) : (cellBytesOf cell).length = cellSize := by
  have hcolor (d : NamedColor) (c : Color) : (encodeColor d c).2.length = 3 := by
    unfold encodeColor
    split
    · split <;> rfl
    · rfl
    · rfl
  have hcontent : (encodeContent cell).2.1.length = 4 := by
    unfold encodeContent
    split
    · rfl
    · split
      · dsimp only
        split
        · simp only [List.length_append, List.length_replicate]
          omega
        · rfl
      · rfl
  simp [cellBytesOf, hcolor, hcontent, cellSize]

/-- The emulator as `snapshot` reads it: its dimensions, the grid, the cursor of
the grid, the title, and the two modes that are packed. -/
structure Emulator where
  rows : ℕ
  cols : ℕ
  grid : ℕ → ℕ → TermCell
  cursorLine : ℤ
  cursorColumn : ℕ
  title : String
  showCursor : Bool
  bracketedPaste : Bool

namespace Emulator

/-- The cells in the order the loop of `snapshot` visits them, each under its
flat index. -/
def gridCells (e : Emulator) : List (ℕ × TermCell) :=
  (List.range e.rows).flatMap fun row =>
    (List.range e.cols).map fun col => (row * e.cols + col, e.grid row col)

/-- `pack_mode`. -/
def packMode (e : Emulator) : ℕ :=
  (if e.showCursor then 1 else 0) + if e.bracketedPaste then 8 else 0

/-- `Emulator::snapshot`. -/
def snapshot (e : Emulator) : FrameState :=
  let cells := e.gridCells.flatMap fun p => cellBytesOf p.2
  let overflow := e.gridCells.foldl (fun t p => (encodeCell p.2 p.1 t).2) {}
  let cursorRow := min (e.cursorLine % 65536).toNat (e.rows - 1)
  let cursorCol := min (e.cursorColumn % 65536) (e.cols - 1)
  { FrameState.fromParts e.rows e.cols cursorRow cursorCol e.packMode e.title cells with overflow }

/-- **The flat indices are visited in order**: they are `0, 1, …`, once each. -/
theorem gridCells_keys (e : Emulator) :
    e.gridCells.map Prod.fst = List.range (e.rows * e.cols) := by
  have hrows (n : ℕ) : (List.range n).flatMap (fun row =>
      (List.range e.cols).map fun col => row * e.cols + col) = List.range (n * e.cols) := by
    induction n with
    | zero => simp
    | succ n ih =>
      rw [List.range_succ, List.flatMap_append, ih, List.flatMap_singleton, Nat.succ_mul,
        List.range_add]
  rw [gridCells, List.map_flatMap, ← hrows]
  simp [Function.comp_def]

/-- The cells of a grid. -/
theorem length_gridCells (e : Emulator) : e.gridCells.length = e.rows * e.cols := by
  have := congrArg List.length e.gridCells_keys
  simpa using this

/-- The long texts of the grid, under their flat indices. -/
def overflowTexts (e : Emulator) : List (ℕ × String) :=
  e.gridCells.filterMap fun p => (overflowTextOf p.2).map fun s => (p.1, s)

/-- **The overflow table lists the long texts** in the order of the grid. -/
theorem snapshot_overflow (e : Emulator) : e.snapshot.overflow.entries = e.overflowTexts := by
  have hsorted : e.overflowTexts.Pairwise fun a b => a.1 < b.1 := by
    have hkeys : e.gridCells.Pairwise fun a b => a.1 < b.1 := by
      rw [← List.pairwise_map, e.gridCells_keys]
      exact List.pairwise_lt_range
    refine hkeys.filterMap _ fun a b hab p hp q hq => ?_
    obtain ⟨s, -, rfl⟩ := Option.map_eq_some_iff.1 hp
    obtain ⟨t, -, rfl⟩ := Option.map_eq_some_iff.1 hq
    exact hab
  have hfold (cs : List (ℕ × TermCell)) (t : SortedTable ℕ String) :
      cs.foldl (fun t p => (encodeCell p.2 p.1 t).2) t =
        (cs.filterMap fun p => (overflowTextOf p.2).map fun s => (p.1, s)).foldl
          (fun u e => u.insert e.1 e.2) t := by
    induction cs generalizing t with
    | nil => rfl
    | cons p cs ih =>
      rw [List.foldl_cons, ih]
      cases h : overflowTextOf p.2 <;> simp [encodeCell, h]
  have := (@SortedTable.foldl_insert _ _ _ {} e.overflowTexts) hsorted
  rw [snapshot, hfold]
  exact this

/-- The texts that do not fit belong to cells of the grid. -/
theorem snapshot_overflow_lt (e : Emulator) :
    ∀ p ∈ e.snapshot.overflow.entries, p.1 < e.rows * e.cols := by
  intro p hp
  rw [snapshot_overflow] at hp
  obtain ⟨q, hq, hqp⟩ := List.mem_filterMap.1 hp
  obtain ⟨s, -, rfl⟩ := Option.map_eq_some_iff.1 hqp
  have hmem : q.1 ∈ e.gridCells.map Prod.fst := List.mem_map_of_mem hq
  rw [gridCells_keys] at hmem
  exact List.mem_range.1 hmem

/-- The cells of the snapshot have their bytes. -/
theorem length_snapshot_cells (e : Emulator) :
    e.snapshot.cells.length = e.rows * e.cols * cellSize := by
  have hflat (cs : List (ℕ × TermCell)) :
      (cs.flatMap fun p => cellBytesOf p.2).length = cs.length * cellSize := by
    induction cs with
    | nil => simp
    | cons p cs ih =>
      rw [List.flatMap_cons, List.length_append, ih, length_cellBytesOf, List.length_cons]
      ring
  calc e.snapshot.cells.length = (e.gridCells.flatMap fun p => cellBytesOf p.2).length := rfl
    _ = e.rows * e.cols * cellSize := by rw [hflat, length_gridCells]

end Emulator
end Quosh
