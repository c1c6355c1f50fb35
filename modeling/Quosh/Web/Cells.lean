/-
# One cell, written once and read by three

`encode_cell` of `crates/quosh-terminal/src/lib.rs` packs a cell into 12 bytes and, for a
long text, an entry of the overflow table.  Three readers take it apart again: `cell_text` of
`crates/quosh-predict/src/lib.rs`, `style_at` of `crates/quosh-proto/src/lib.rs`, and
`decodeCell` and `decodeFrame` of `web/src/cells.ts`.

They agree with what the terminal holds (`readers_agree_iff`) but for two kinds of cells.  A
space is taken for a blank whatever marks it carries, and the text decoder of the web page
drops a leading U+FEFF.

How many bytes the text of a cell has decides where it is stored: up to four bytes in the
cell, and from five on in the table, with the length 7 in the cell.  That is said once
(`encodeContent_eq`), and each reader is compared with it.
-/

import Quosh.Proto.Ansi
import Quosh.Terminal.Readback

namespace Quosh

open Bytes

/-- `Color` of `cells.ts`. -/
inductive CellColor where
  | default
  | indexed (index : UInt8)
  | rgb (r g b : UInt8)
  deriving DecidableEq, Repr

/-- `Cell` of `cells.ts`. -/
structure WebCell where
  glyph : String
  fg : CellColor
  bg : CellColor
  bold : Bool
  dim : Bool
  italic : Bool
  underline : Bool
  inverse : Bool
  wide : Bool
  overflow : Bool
  link : Bool
  deriving DecidableEq, Repr

namespace Web

/-- `color`. -/
def color (type a b c : UInt8) : CellColor :=
  if type = 1 then .indexed a else if type = 2 then .rgb a b c else .default

/-- `TextDecoder.decode`: UTF-8 with replacement, a byte order mark at the front dropped. -/
def textDecode (bytes : Bytes) : String :=
  fromUtf8Lossy (if [0xEF, 0xBB, 0xBF].isPrefixOf bytes then bytes.drop 3 else bytes)

/-- `decodeCell`. -/
def decodeCell (bytes : Bytes) (offset : ℕ) : WebCell :=
  let f0 := bytes.getD offset 0
  let f1 := bytes.getD (offset + 1) 0
  let len := (f1 >>> 3) &&& 7
  let overflow := len = 7
  { glyph :=
      if ¬overflow ∧ len > 0 ∧ f1 &&& 4 = 0 then
        textDecode ((bytes.drop (offset + 8)).take len.toNat)
      else " "
    fg := color (f0 &&& 3) (bytes.getD (offset + 2) 0) (bytes.getD (offset + 3) 0)
      (bytes.getD (offset + 4) 0)
    bg := color ((f0 >>> 2) &&& 3) (bytes.getD (offset + 5) 0) (bytes.getD (offset + 6) 0)
      (bytes.getD (offset + 7) 0)
    bold := f0 &&& 16 ≠ 0
    dim := f0 &&& 32 ≠ 0
    italic := f0 &&& 64 ≠ 0
    underline := f0 &&& 128 ≠ 0
    inverse := f1 &&& 1 ≠ 0
    wide := f1 &&& 4 ≠ 0
    overflow
    link := f1 &&& 64 ≠ 0 }

/-- One cell of `decodeFrame`. -/
def resolveCell (cells : Bytes) (cols : ℕ) (cellContent : ℕ → ℕ → String) (r c : ℕ) : WebCell :=
  let cell := decodeCell cells ((r * cols + c) * cellSize)
  if cell.overflow then
    { cell with glyph := if cellContent r c = "" then " " else cellContent r c }
  else cell

/-- `decodeFrame` with a callback. -/
def decodeFrame (rows cols : ℕ) (cells : Bytes) (cellContent : ℕ → ℕ → String) :
    List (List WebCell) :=
  (List.range rows).map fun r =>
    (List.range cols).map fun c => resolveCell cells cols cellContent r c

/-- The callback of `app.ts`: the overflow table. -/
def tableContent (frame : FrameState) (r c : ℕ) : String :=
  (frame.overflow.get? (r * frame.cols + c)).getD " "

/-- A cell of a frame in the web page. -/
def cellAt (frame : FrameState) (row col : ℕ) : Option WebCell :=
  (decodeFrame frame.rows frame.cols frame.cells (tableContent frame))[row]?.bind fun cells =>
    cells[col]?

end Web

/-- The text of a decoded cell: none on the second half of a wide character. -/
def WebCell.text (cell : WebCell) : String := if cell.wide then "" else cell.glyph

/-! ### What a cell is -/

/-- The text of a cell: its character and its marks, and none on the second half of a wide
character. -/
def TermCell.text (cell : TermCell) : String :=
  if cell.flags.wideCharSpacer then "" else cellFullText cell

/-- A colour of the terminal, the named ones being the first of the palette. -/
def Color.shown (default : NamedColor) : Color → CellColor
  | .named n => if n = default then .default else .indexed (UInt8.ofNat n.discriminant)
  | .indexed i => .indexed i
  | .spec r g b => .rgb r g b

/-- Colours and attributes, as a reader has them. -/
structure Look where
  fg : CellColor
  bg : CellColor
  bold : Bool
  dim : Bool
  italic : Bool
  underline : Bool
  inverse : Bool
  deriving DecidableEq, Repr

/-- What a cell looks like; a cell has one way of being underlined. -/
def TermCell.look (cell : TermCell) : Look where
  fg := cell.fg.shown .foreground
  bg := cell.bg.shown .background
  bold := cell.flags.bold
  dim := cell.flags.dim
  italic := cell.flags.italic
  underline := cell.underlined
  inverse := cell.flags.inverse

/-- What a style means to `push_sgr`. -/
def Style.look (s : Style) : Look where
  fg := Web.color s.fg s.fgV.1 s.fgV.2.1 s.fgV.2.2
  bg := Web.color s.bg s.bgV.1 s.bgV.2.1 s.bgV.2.2
  bold := s.bold
  dim := s.dim
  italic := s.italic
  underline := s.underline
  inverse := s.inverse

def WebCell.look (cell : WebCell) : Look :=
  ⟨cell.fg, cell.bg, cell.bold, cell.dim, cell.italic, cell.underline, cell.inverse⟩

/-! ### Colours and attributes -/

/-- **A colour is read back.** -/
theorem color_encodeColor (default : NamedColor) (c : Color) :
    Web.color (encodeColor default c).1 ((encodeColor default c).2.getD 0 0)
      ((encodeColor default c).2.getD 1 0) ((encodeColor default c).2.getD 2 0) =
        c.shown default := by
  unfold encodeColor Color.shown
  cases c with
  | named n =>
    dsimp only
    split <;> rfl
  | indexed i => rfl
  | spec r g b => rfl

/-- The bytes of a cell, one after the other. -/
theorem cellBytesOf_eq (cell : TermCell) : ∃ a b c a' b' c' : UInt8,
    (encodeColor .foreground cell.fg).2 = [a, b, c] ∧
      (encodeColor .background cell.bg).2 = [a', b', c'] ∧
      cellBytesOf cell = flagByte0 cell :: flagByte1 cell :: a :: b :: c :: a' :: b' :: c' ::
        (encodeContent cell).2.1 := by
  obtain ⟨a, b, c, hfg⟩ := List.length_eq_three.1 (length_encodeColor .foreground cell.fg)
  obtain ⟨a', b', c', hbg⟩ := List.length_eq_three.1 (length_encodeColor .background cell.bg)
  refine ⟨a, b, c, a', b', c', hfg, hbg, ?_⟩
  unfold cellBytesOf
  rw [hfg, hbg]
  rfl

namespace Emulator

variable {e : Emulator} {row col : ℕ}

/-- A byte of a cell of a frame. -/
theorem getD_snapshot (hrow : row < e.rows) (hcol : col < e.cols) {k : ℕ} (hk : k < cellSize) :
    e.snapshot.cells.getD ((row * e.cols + col) * cellSize + k) 0 =
      (cellBytesOf (e.grid row col)).getD k 0 := by
  rw [List.getD_eq_getElem?_getD, cells_snapshot hrow hcol hk, List.getD_eq_getElem?_getD]

/-- The eight bytes in front of the text, as both readers find them. -/
structure Header (bytes : Bytes) (idx : ℕ) (cell : TermCell) : Prop where
  f0 : bytes.getD idx 0 = flagByte0 cell
  f1 : bytes.getD (idx + 1) 0 = flagByte1 cell
  fg : Web.color (flagByte0 cell &&& 3) (bytes.getD (idx + 2) 0) (bytes.getD (idx + 3) 0)
    (bytes.getD (idx + 4) 0) = cell.fg.shown .foreground
  bg : Web.color ((flagByte0 cell >>> 2) &&& 3) (bytes.getD (idx + 5) 0) (bytes.getD (idx + 6) 0)
    (bytes.getD (idx + 7) 0) = cell.bg.shown .background

/-- The bytes of a cell are where the reader looks for them. -/
theorem header_snapshot (hrow : row < e.rows) (hcol : col < e.cols) :
    Header e.snapshot.cells ((row * e.cols + col) * cellSize) (e.grid row col) := by
  obtain ⟨a, b, c, a', b', c', hfg, hbg, hbytes⟩ := cellBytesOf_eq (e.grid row col)
  have hread (k : ℕ) (hk : k < cellSize) := getD_snapshot hrow hcol hk
  rw [hbytes] at hread
  obtain ⟨hf0, hf0', -⟩ := flagByte0_read (e.grid row col)
  have hcolorfg := color_encodeColor .foreground (e.grid row col).fg
  have hcolorbg := color_encodeColor .background (e.grid row col).bg
  rw [hfg] at hcolorfg
  rw [hbg] at hcolorbg
  refine ⟨hread 0 (by decide), hread 1 (by decide), ?_, ?_⟩
  · rw [hread 2 (by decide), hread 3 (by decide), hread 4 (by decide), hf0]
    exact hcolorfg
  · rw [hread 5 (by decide), hread 6 (by decide), hread 7 (by decide), hf0']
    exact hcolorbg

/-- **`style_at` reads colours and attributes back.** -/
theorem look_styleAt (hrow : row < e.rows) (hcol : col < e.cols) :
    (styleAt e.snapshot.cells e.cols row col).look = (e.grid row col).look := by
  have hend : ¬(row * e.cols + col) * cellSize + cellSize > e.snapshot.cells.length := by
    rw [length_snapshot_cells, ← Nat.succ_mul, not_lt]
    exact Nat.mul_le_mul_right _ (flat_lt hrow hcol)
  obtain ⟨hf0, hf1, hfg, hbg⟩ := header_snapshot hrow hcol
  obtain ⟨-, -, hbold, hdim, hitalic, hunderline, -⟩ := flagByte0_read (e.grid row col)
  have hinverse := (flagByte1_read (e.grid row col)).1
  unfold styleAt Style.look TermCell.look
  rw [if_neg hend]
  dsimp only
  rw [hf0, hf1, hfg, hbg]
  simp only [hbold, hdim, hitalic, hunderline, hinverse, Bool.decide_eq_true]

end Emulator

/-- A byte order mark at the front of a text is its first character. -/
theorem bom_isPrefixOf_iff (cell : TermCell) :
    ([0xEF, 0xBB, 0xBF] : Bytes).isPrefixOf (asBytes (cellFullText cell)) = true ↔
      cell.c = '\uFEFF' := by
  have hbom : String.utf8EncodeChar '\uFEFF' = [0xEF, 0xBB, 0xBF] := by decide
  rw [List.isPrefixOf_iff_prefix, ← hbom, asBytes_cellFullText]
  constructor
  · rintro ⟨rest, hrest⟩
    have hread := lossyChars_encode 0 '\uFEFF' rest
    rw [hrest, lossyChars_encode] at hread
    exact (List.cons.inj hread).1
  · intro hc
    rw [hc]
    exact List.prefix_append ..

/-- **The text decoder of the web page drops a leading byte order mark**, and nothing else. -/
theorem textDecode_cellFullText (cell : TermCell) :
    Web.textDecode (asBytes (cellFullText cell)) =
      if cell.c = '\uFEFF' then String.ofList cell.zerowidth else cellFullText cell := by
  unfold Web.textDecode
  by_cases hbom : cell.c = '\uFEFF'
  · rw [if_pos ((bom_isPrefixOf_iff ..).2 hbom), if_pos hbom, asBytes_cellFullText, hbom,
      List.drop_left' (by decide), fromUtf8Lossy_asBytes]
  · rw [if_neg (fun h => hbom ((bom_isPrefixOf_iff ..).1 h)), if_neg hbom, fromUtf8Lossy_asBytes]

/-- A text is in the overflow table iff the content length says so. -/
theorem overflowTextOf_eq (cell : TermCell) :
    overflowTextOf cell = if cell.contentLen = 7 then some (cellFullText cell) else none := by
  unfold overflowTextOf
  rw [encodeContent_eq]
  rcases contentLen_cases cell with ⟨hblank, hlen⟩ | ⟨hblank, hlen, -, hle⟩ | ⟨hblank, hlen, hlt⟩
  · rw [hlen, hblank]
    rfl
  · rw [if_neg (by omega : ¬cell.contentLen = 7)]
    exact if_neg fun h => by omega
  · rw [if_pos hlen]
    exact if_pos ⟨by simp [hblank], hlt⟩

namespace Emulator

variable {e : Emulator} {row col : ℕ}

/-- **The readers agree on a cell** with what the terminal holds there: its text, in the cell
or in the overflow table, its colours and its attributes. -/
structure Agrees (e : Emulator) (row col : ℕ) : Prop where
  predictText : e.snapshot.overflow.get? (row * e.cols + col) = none →
    cellText (cellBytes e.snapshot row col) = (e.grid row col).text
  web : ∃ cell, Web.cellAt e.snapshot row col = some cell ∧
    cell.text = (e.grid row col).text ∧ cell.look = (e.grid row col).look
  table : ∀ s, e.snapshot.overflow.get? (row * e.cols + col) = some s →
    s = cellFullText (e.grid row col)
  style : (styleAt e.snapshot.cells e.snapshot.cols row col).look = (e.grid row col).look
  overflow : (e.snapshot.overflow.get? (row * e.cols + col)).isSome ↔
    cellLen (cellBytes e.snapshot row col) = 7

/-- The text of a cell with a character. -/
theorem text_of_not_spacer {cell : TermCell} (hspacer : cell.flags.wideCharSpacer = false) :
    cell.text = cellFullText cell := by
  unfold TermCell.text
  rw [hspacer]
  rfl

/-- A blank cell has a space. -/
theorem blank_iff {cell : TermCell} (hnul : cell.c ≠ '\x00') :
    cell.blank = true ↔ cell.c = ' ' := by
  unfold TermCell.blank
  simp [hnul]

/-- A space without marks. -/
theorem cellFullText_eq_space {cell : TermCell} (hc : cell.c = ' ') :
    cellFullText cell = " " ↔ cell.zerowidth = [] := by
  unfold cellFullText
  rw [hc]
  constructor
  · intro h
    have hlist := congrArg String.toList h
    rw [String.toList_ofList] at hlist
    exact (List.cons.inj hlist).2
  · intro h
    rw [h]

/-- **A cell that its readers can agree on**: the second half of a wide character, or neither
a space with marks nor a short text that begins with U+FEFF. -/
def Readable (cell : TermCell) : Prop :=
  cell.flags.wideCharSpacer = true ∨
    (cell.c = ' ' → cell.zerowidth = []) ∧
      (cell.c = '\uFEFF' → 4 < (asBytes (cellFullText cell)).length)

/-- The text of such a cell, as the content length has it. -/
theorem Readable.text {cell : TermCell} (h : Readable cell) (hnul : cell.c ≠ '\x00') :
    cell.text =
      if cell.flags.wideCharSpacer then ""
      else if cell.blank then " " else cellFullText cell := by
  cases hspacer : cell.flags.wideCharSpacer with
  | true => exact if_pos hspacer
  | false =>
    obtain ⟨hspace, -⟩ := h.resolve_left (by simp [hspacer])
    rw [text_of_not_spacer hspacer, if_neg Bool.false_ne_true]
    split
    · rename_i hblank
      have hc := (blank_iff hnul).1 hblank
      exact (cellFullText_eq_space hc).2 (hspace hc)
    · rfl

/-- A short text of such a cell is decoded as it is. -/
theorem Readable.textDecode {cell : TermCell} (h : Readable cell)
    (hspacer : cell.flags.wideCharSpacer = false) (hblank : cell.blank = false)
    (hshort : cell.contentLen ≠ 7) :
    Web.textDecode (asBytes (cellFullText cell)) = cellFullText cell := by
  rw [textDecode_cellFullText, if_neg fun hc => ?_]
  obtain ⟨-, hbom⟩ := h.resolve_left (by simp [hspacer])
  have hlong := hbom hc
  rcases contentLen_cases cell with ⟨h, -⟩ | ⟨-, hlen, -, h⟩ | ⟨-, h, -⟩
  · simp [hblank] at h
  · omega
  · exact hshort h

/-- What is in the overflow table for a cell of a frame. -/
theorem overflow_get? (hrow : row < e.rows) (hcol : col < e.cols) :
    e.snapshot.overflow.get? (row * e.cols + col) =
      if (e.grid row col).contentLen = 7 then some (cellFullText (e.grid row col)) else none :=
  (overflow_snapshot hrow hcol).trans (overflowTextOf_eq _)

end Emulator
end Quosh
