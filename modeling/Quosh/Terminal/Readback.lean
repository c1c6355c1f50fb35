/-
# What is read back of a snapshot

A reader of a frame finds the 12 bytes of a cell at its flat index, and a long text in the
overflow table under the same index.  In a frame that `Emulator::snapshot` made these are what
`encode_cell` wrote for the cell of the grid at that place (`cellBytes_snapshot`,
`overflow_snapshot`).

The fields of the two flag bytes are disjoint, so each is read back as it was written:
colour types and attributes (`flagByte0_fields`), the inverse and spacer bits and the
content length (`flagByte1_fields`).  The content length says where the text is
(`encodeContent_eq`): 0 for a blank, up to 4 in the cell, 7 in the table.
-/

import Quosh.Data.Blocks
import Quosh.Predict.Cell
import Quosh.Terminal.Snapshot

namespace Quosh

open Bytes

namespace Emulator

variable {e : Emulator} {row col : ℕ}

/-- A place of the grid has a flat index. -/
theorem flat_lt (hrow : row < e.rows) (hcol : col < e.cols) :
    row * e.cols + col < e.rows * e.cols :=
  calc row * e.cols + col < row * e.cols + e.cols := Nat.add_lt_add_left hcol _
    _ = (row + 1) * e.cols := (Nat.succ_mul ..).symm
    _ ≤ e.rows * e.cols := Nat.mul_le_mul_right _ hrow

/-- The cell at a flat index is the cell of the grid at that place. -/
theorem getElem?_gridCells (hrow : row < e.rows) (hcol : col < e.cols) :
    e.gridCells[row * e.cols + col]? = some (row * e.cols + col, e.grid row col) := by
  unfold gridCells
  rw [Blocks.getElem?_flatMap _ (fun _ _ => by simp) hcol, List.getElem?_range hrow]
  simp [hcol]

/-- A cell stands at its flat index. -/
theorem gridCells_of_mem {p : ℕ × TermCell} (hp : p ∈ e.gridCells) :
    e.gridCells[p.1]? = some p := by
  obtain ⟨i, hi, rfl⟩ := List.mem_iff_getElem.1 hp
  have hkey : (e.gridCells.map Prod.fst).get ⟨i, by simpa using hi⟩ = i := by
    simp only [e.gridCells_keys, List.get_eq_getElem, List.getElem_range]
  rw [List.get_eq_getElem, List.getElem_map] at hkey
  rw [hkey]
  exact List.getElem?_eq_getElem hi

/-- **The bytes of a cell** are those that were written for it. -/
theorem cells_snapshot (hrow : row < e.rows) (hcol : col < e.cols) {k : ℕ} (hk : k < cellSize) :
    e.snapshot.cells[(row * e.cols + col) * cellSize + k]? =
      (cellBytesOf (e.grid row col))[k]? := by
  change (e.gridCells.flatMap fun p => cellBytesOf p.2)[_]? = _
  rw [Blocks.getElem?_flatMap _ (fun p _ => length_cellBytesOf p.2) hk,
    getElem?_gridCells hrow hcol]
  rfl

/-- A cell of the snapshot is a cell of the grid. -/
theorem cellBytes_snapshot (hrow : row < e.rows) (hcol : col < e.cols) :
    (cellBytes e.snapshot row col).toList = cellBytesOf (e.grid row col) := by
  have hdims : ¬(row ≥ e.snapshot.rows ∨ col ≥ e.snapshot.cols) := by
    rintro (h | h)
    · exact absurd hrow (not_lt.2 h)
    · exact absurd hcol (not_lt.2 h)
  unfold cellBytes
  rw [if_neg hdims]
  refine List.ext_getElem (by simp [length_cellBytesOf, cellSize]) fun k _ hlt => ?_
  have hread := cells_snapshot hrow hcol (length_cellBytesOf (e.grid row col) ▸ hlt)
  rw [List.getElem?_eq_getElem hlt] at hread
  simp only [Vector.getElem_toList, Vector.getElem_ofFn]
  change e.snapshot.cells.getD ((row * e.cols + col) * cellSize + k) 0 = _
  rw [List.getD_eq_getElem?_getD, hread]
  rfl

/-- **The overflow text of a cell** is the one that was put there for it. -/
theorem overflow_snapshot (hrow : row < e.rows) (hcol : col < e.cols) :
    e.snapshot.overflow.get? (row * e.cols + col) = overflowTextOf (e.grid row col) := by
  refine Option.ext fun s => ?_
  rw [SortedTable.get?_eq_some, snapshot_overflow]
  unfold overflowTexts
  rw [List.mem_filterMap]
  constructor
  · rintro ⟨p, hp, hs⟩
    obtain ⟨t, ht, heq⟩ := Option.map_eq_some_iff.1 hs
    obtain ⟨hflat, rfl⟩ := Prod.mk.inj heq
    have hget := gridCells_of_mem hp
    rw [hflat, getElem?_gridCells hrow hcol] at hget
    rw [← ht, ← Option.some.inj hget]
  · intro hs
    refine ⟨_, List.mem_of_getElem? (getElem?_gridCells hrow hcol), ?_⟩
    rw [hs]
    rfl

end Emulator

/-! ### The fields of the flag bytes -/

/-- `f0` holds its six fields side by side. -/
theorem flagByte0_fields : ∀ (fg bg : Fin 3) (bold dim italic underline : Bool),
    let f : UInt8 := UInt8.ofNat fg.val ||| (UInt8.ofNat bg.val <<< (2 : UInt8)) |||
      (if bold then 0x10 else 0) ||| (if dim then 0x20 else 0) |||
      (if italic then 0x40 else 0) ||| (if underline then 0x80 else 0)
    f &&& 3 = UInt8.ofNat fg.val ∧ (f >>> 2) &&& 3 = UInt8.ofNat bg.val ∧
      ((f >>> 4) &&& 1 ≠ 0 ↔ bold) ∧ ((f >>> 5) &&& 1 ≠ 0 ↔ dim) ∧
      ((f >>> 6) &&& 1 ≠ 0 ↔ italic) ∧ ((f >>> 7) &&& 1 ≠ 0 ↔ underline) ∧
      (f &&& 16 ≠ 0 ↔ bold) ∧ (f &&& 32 ≠ 0 ↔ dim) ∧ (f &&& 64 ≠ 0 ↔ italic) ∧
      (f &&& 128 ≠ 0 ↔ underline) := by
  decide

/-- `f1` holds its four fields side by side, with a length of three bits. -/
theorem flagByte1_fields : ∀ (len : Fin 8) (inverse wide spacer : Bool),
    let f : UInt8 := (if inverse then 1 else 0) ||| (if wide then 0x02 else 0) |||
      (if spacer then 0x04 else 0) ||| (UInt8.ofNat len.val <<< (3 : UInt8))
    (f &&& 1 ≠ 0 ↔ inverse) ∧ (f &&& 4 ≠ 0 ↔ spacer) ∧
      (f >>> 3) &&& 7 = UInt8.ofNat len.val ∧ f &&& 64 = 0 := by
  decide

namespace TermCell

/-- Nothing is stored for the character of a blank. -/
def blank (cell : TermCell) : Bool := cell.c = '\x00' || cell.c = ' '

/-- Where the text of a cell is: 0 for a blank, its bytes if the cell takes them, and 7 if
the overflow table does. -/
def contentLen (cell : TermCell) : ℕ :=
  if cell.blank then 0
  else if (asBytes (cellFullText cell)).length ≤ 4 then (asBytes (cellFullText cell)).length
  else 7

end TermCell

/-- The text of a cell is its character and its marks. -/
theorem asBytes_cellFullText (cell : TermCell) : asBytes (cellFullText cell) =
    String.utf8EncodeChar cell.c ++ asBytes (String.ofList cell.zerowidth) := by
  unfold asBytes cellFullText
  rw [String.toList_ofList, String.toList_ofList]
  rfl

/-- The text of a cell has a byte. -/
theorem length_cellFullText_pos (cell : TermCell) : 1 ≤ (asBytes (cellFullText cell)).length := by
  rw [asBytes_cellFullText, List.length_append, String.length_utf8EncodeChar]
  have := cell.c.utf8Size_pos
  omega

/-- A blank, a short text or a long one. -/
theorem contentLen_cases (cell : TermCell) :
    (cell.blank = true ∧ cell.contentLen = 0) ∨
      (cell.blank = false ∧ cell.contentLen = (asBytes (cellFullText cell)).length ∧
        1 ≤ cell.contentLen ∧ cell.contentLen ≤ 4) ∨
      (cell.blank = false ∧ cell.contentLen = 7 ∧ 4 < (asBytes (cellFullText cell)).length) := by
  have hpos := length_cellFullText_pos cell
  unfold TermCell.contentLen
  cases cell.blank with
  | true => exact .inl ⟨rfl, rfl⟩
  | false =>
    by_cases hle : (asBytes (cellFullText cell)).length ≤ 4
    · rw [if_neg Bool.false_ne_true, if_pos hle]
      exact .inr (.inl ⟨rfl, rfl, hpos, hle⟩)
    · rw [if_neg Bool.false_ne_true, if_neg hle]
      exact .inr (.inr ⟨rfl, rfl, not_le.1 hle⟩)

/-- **What is stored of the text**, in four cases that the content length tells apart.  One
ASCII character has a branch of its own in the source, and comes out as a text of one byte. -/
theorem encodeContent_eq (cell : TermCell) : encodeContent cell =
    (UInt8.ofNat cell.contentLen <<< 3,
      if cell.blank ∨ 4 < (asBytes (cellFullText cell)).length then [0, 0, 0, 0]
      else asBytes (cellFullText cell) ++
        List.replicate (4 - (asBytes (cellFullText cell)).length) 0,
      if ¬cell.blank ∧ 4 < (asBytes (cellFullText cell)).length then some (cellFullText cell)
      else none) := by
  unfold encodeContent TermCell.contentLen TermCell.blank
  split
  · rename_i hascii
    obtain ⟨hle, hlt, hextra⟩ := hascii
    have hblank : (decide (cell.c = '\x00') || decide (cell.c = ' ')) = false := by
      simp only [Bool.or_eq_false_iff, decide_eq_false_iff_not]
      constructor <;> intro h <;> rw [h] at hlt <;> exact absurd hlt (by decide)
    have hbytes : asBytes (cellFullText cell) = [UInt8.ofNat cell.c.toNat] := by
      have hsize : cell.c.utf8Size = 1 := by
        have hval : cell.c.val ≤ 0x7f := hle
        unfold Char.utf8Size
        exact if_pos hval
      rw [asBytes_cellFullText, TermCell.zerowidth, hextra,
        String.utf8EncodeChar_eq_singleton hsize]
      rfl
    rw [hblank, hbytes]
    rfl
  · split
    · rename_i hne
      have hblank : (decide (cell.c = '\x00') || decide (cell.c = ' ')) = false := by
        simpa using hne
      dsimp only
      rw [hblank]
      by_cases hle : (asBytes (cellFullText cell)).length ≤ 4
      · simp [hle]
      · simp [hle]
        rfl
    · rename_i hblank
      have hblank : (decide (cell.c = '\x00') || decide (cell.c = ' ')) = true := by
        simp only [Bool.or_eq_true, decide_eq_true_iff]
        tauto
      rw [hblank]
      rfl

/-- The length of a cell fits three bits. -/
theorem contentLen_lt (cell : TermCell) : cell.contentLen < 8 := by
  rcases contentLen_cases cell with ⟨-, h⟩ | ⟨-, -, -, h⟩ | ⟨-, h, -⟩ <;> omega

/-- **`f1` is read back**: inverse, spacer, content length, and no link. -/
theorem flagByte1_read (cell : TermCell) :
    (flagByte1 cell &&& 1 ≠ 0 ↔ cell.flags.inverse) ∧
      (flagByte1 cell &&& 4 ≠ 0 ↔ cell.flags.wideCharSpacer) ∧
      (flagByte1 cell >>> 3) &&& 7 = UInt8.ofNat cell.contentLen ∧ flagByte1 cell &&& 64 = 0 := by
  have hfields := flagByte1_fields ⟨cell.contentLen, (contentLen_lt cell)⟩ cell.flags.inverse
    cell.flags.wideChar cell.flags.wideCharSpacer
  unfold flagByte1
  rw [encodeContent_eq]
  exact hfields

/-- Underlined in any way. -/
def TermCell.underlined (cell : TermCell) : Bool :=
  cell.flags.underline || cell.flags.doubleUnderline || cell.flags.undercurl ||
    cell.flags.dottedUnderline || cell.flags.dashedUnderline

/-- The type of a colour takes two bits. -/
theorem encodeColor_type (default : NamedColor) (c : Color) :
    ∃ t : Fin 3, (encodeColor default c).1 = UInt8.ofNat t.val := by
  unfold encodeColor
  split
  · split
    · exact ⟨0, rfl⟩
    · exact ⟨1, rfl⟩
  · exact ⟨1, rfl⟩
  · exact ⟨2, rfl⟩

/-- **`f0` is read back**: the colour types and the attributes, in either way of looking at a
bit. -/
theorem flagByte0_read (cell : TermCell) :
    flagByte0 cell &&& 3 = (encodeColor .foreground cell.fg).1 ∧
      (flagByte0 cell >>> 2) &&& 3 = (encodeColor .background cell.bg).1 ∧
      ((flagByte0 cell >>> 4) &&& 1 ≠ 0 ↔ cell.flags.bold) ∧
      ((flagByte0 cell >>> 5) &&& 1 ≠ 0 ↔ cell.flags.dim) ∧
      ((flagByte0 cell >>> 6) &&& 1 ≠ 0 ↔ cell.flags.italic) ∧
      ((flagByte0 cell >>> 7) &&& 1 ≠ 0 ↔ cell.underlined) ∧
      (flagByte0 cell &&& 16 ≠ 0 ↔ cell.flags.bold) ∧ (flagByte0 cell &&& 32 ≠ 0 ↔ cell.flags.dim) ∧
      (flagByte0 cell &&& 64 ≠ 0 ↔ cell.flags.italic) ∧
      (flagByte0 cell &&& 128 ≠ 0 ↔ cell.underlined) := by
  obtain ⟨fg, hfg⟩ := encodeColor_type .foreground cell.fg
  obtain ⟨bg, hbg⟩ := encodeColor_type .background cell.bg
  have hfields := flagByte0_fields fg bg cell.flags.bold cell.flags.dim cell.flags.italic
    cell.underlined
  unfold flagByte0
  rw [hfg, hbg]
  exact hfields

/-- A colour has three bytes. -/
theorem length_encodeColor (default : NamedColor) (c : Color) :
    (encodeColor default c).2.length = 3 := by
  unfold encodeColor
  split
  · split <;> rfl
  · rfl
  · rfl

/-- The text bytes of a cell, behind its flags and its colours. -/
theorem drop_cellBytesOf (cell : TermCell) :
    (cellBytesOf cell).drop 8 = (encodeContent cell).2.1 := by
  unfold cellBytesOf
  exact List.drop_left' (by simp [length_encodeColor])

/-- **The text in the cell** is as many bytes as the content length says. -/
theorem take_contentLen (cell : TermCell) (hshort : cell.contentLen ≠ 7) :
    ((cellBytesOf cell).drop 8).take cell.contentLen =
      if cell.blank then [] else asBytes (cellFullText cell) := by
  rw [drop_cellBytesOf, encodeContent_eq]
  rcases contentLen_cases cell with ⟨hblank, hlen⟩ | ⟨hblank, hlen, -, hle⟩ | ⟨-, hlen, -⟩
  · rw [hlen, hblank]
    rfl
  · rw [hlen] at hle
    simp [hlen, hblank, Nat.not_lt.2 hle]
  · exact absurd hlen hshort

/-- The length bits of a cell as the predictor holds it. -/
theorem cellLen_of (cell : TermCell) {v : Cell} (hv : v.toList = cellBytesOf cell) :
    cellFlags v = flagByte1 cell ∧ cellLen v = cell.contentLen := by
  have hflag : v[1] = flagByte1 cell := by
    rw [← Vector.getElem_toList (by simp)]
    simp only [hv]
    rfl
  refine ⟨hflag, ?_⟩
  unfold cellLen
  rw [hflag, (flagByte1_read cell).2.2.1, UInt8.toNat_ofNat']
  exact Nat.mod_eq_of_lt ((contentLen_lt cell).trans (by decide))

end Quosh
