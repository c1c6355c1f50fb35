/-
# What is painted

`paint_frame` of `crates/quosh-cli/src/main.rs` clears the screen and writes what `frame_ansi`
of `crates/quosh-proto/src/lib.rs` makes of a frame.  Here a terminal reads these bytes, and
what it shows is compared with the grid that `Emulator::snapshot` made the frame of.

`frame_ansi` writes the text of a cell as it is and relies on every text to move the cursor
behind its cell.  A tab does not: it moves the cursor to the next tab stop and shows nothing,
and alacritty puts one into the grid where a program has sent one.  A space that carries marks
has lost them in the frame.  Apart from such cells, and where wide characters are followed by
their second halves, the screen is the grid (`paints_iff`).

The widths of characters are those of `unicode-width`, outside of the repository, and a
parameter here, as is `FrameState::cell_content` (`ReadsCells`).
-/

import Quosh.Vt.Screen
import Quosh.Web.Cells

namespace Quosh

open Bytes

/-! ### Pens -/

/-- Nothing set. -/
def Look.plain : Look := ⟨.default, .default, false, false, false, false, false⟩

/-- A parameter that stands alone. -/
def Look.attribute (l : Look) : ℕ → Look
  | 0 => .plain
  | 1 => { l with bold := true }
  | 2 => { l with dim := true }
  | 3 => { l with italic := true }
  | 4 => { l with underline := true }
  | 7 => { l with inverse := true }
  | _ => l

/-- `CSI … m`, as far as `push_sgr` uses it: 38 and 48 take a colour of the palette or three
bytes of one. -/
def Look.setPen : List ℕ → Look → Look
  | [], l => l
  | 38 :: 5 :: n :: ps, l => setPen ps { l with fg := .indexed (UInt8.ofNat n) }
  | 38 :: 2 :: r :: g :: b :: ps, l =>
    setPen ps { l with fg := .rgb (UInt8.ofNat r) (UInt8.ofNat g) (UInt8.ofNat b) }
  | 48 :: 5 :: n :: ps, l => setPen ps { l with bg := .indexed (UInt8.ofNat n) }
  | 48 :: 2 :: r :: g :: b :: ps, l =>
    setPen ps { l with bg := .rgb (UInt8.ofNat r) (UInt8.ofNat g) (UInt8.ofNat b) }
  | p :: ps, l => setPen ps (l.attribute p)

/-- A terminal with these pens. -/
def Look.rules (w : Vt.Widths) : Vt.Rules Look := { w with plain := .plain, setPen := Look.setPen }

/-- The parameters of a colour. -/
def colorParams (base : ℕ) (type : UInt8) (v : UInt8 × UInt8 × UInt8) : List ℕ :=
  if type = 1 then [base, 5, v.1.toNat]
  else if type = 2 then [base, 2, v.1.toNat, v.2.1.toNat, v.2.2.toNat]
  else []

/-- The parameters that `push_sgr` writes behind the 0. -/
def Style.params (s : Style) : List ℕ :=
  (if s.bold then [1] else []) ++ ((if s.dim then [2] else []) ++ ((if s.italic then [3] else []) ++
    ((if s.underline then [4] else []) ++ ((if s.inverse then [7] else []) ++
      (colorParams 38 s.fg s.fgV ++ colorParams 48 s.bg s.bgV)))))

/-- The parameters of two lists. -/
theorem paramsText_append (ps qs : List ℕ) :
    Vt.Screen.paramsText (ps ++ qs) = Vt.Screen.paramsText ps ++ Vt.Screen.paramsText qs :=
  List.flatMap_append

/-- A colour is written as its parameters. -/
theorem toList_sgrColor (base : ℕ) (type : UInt8) (v : UInt8 × UInt8 × UInt8) :
    (sgrColor (toString base) type v).toList = Vt.Screen.paramsText (colorParams base type v) := by
  have htwo : Nat.toDigits 10 2 = ['2'] := rfl
  have hfive : Nat.toDigits 10 5 = ['5'] := rfl
  unfold sgrColor colorParams
  split
  · simp [Vt.Screen.paramsText, hfive]
  · split
    · simp [Vt.Screen.paramsText, htwo]
    · rfl

/-- **What `push_sgr` writes** is a sequence of parameters. -/
theorem toList_sgrText (s : Style) :
    (sgrText s).toList = '\x1b' :: '[' :: '0' :: (Vt.Screen.paramsText s.params ++ ['m']) := by
  have hflag (b : Bool) (t : String) (n : ℕ) (ht : t.toList = Vt.Screen.paramsText [n]) :
      (if b then t else "").toList = Vt.Screen.paramsText (if b then [n] else []) := by
    cases b with
    | true => exact ht
    | false => rfl
  have hfg : (sgrColor "38" s.fg s.fgV).toList = _ := toList_sgrColor 38 s.fg s.fgV
  have hbg : (sgrColor "48" s.bg s.bgV).toList = _ := toList_sgrColor 48 s.bg s.bgV
  unfold sgrText Style.params
  simp only [String.toList_append, paramsText_append]
  rw [hflag s.bold ";1" 1 rfl, hflag s.dim ";2" 2 rfl, hflag s.italic ";3" 3 rfl,
    hflag s.underline ";4" 4 rfl, hflag s.inverse ";7" 7 rfl, hfg, hbg,
    show "\x1b[0".toList = ['\x1b', '[', '0'] from rfl, show "m".toList = ['m'] from rfl]
  simp only [List.append_assoc, List.cons_append, List.nil_append]

/-- A flag among the parameters. -/
theorem setPen_flag (b : Bool) {n : ℕ} (hn : n = 1 ∨ n = 2 ∨ n = 3 ∨ n = 4 ∨ n = 7) (ps : List ℕ)
    (l : Look) :
    Look.setPen ((if b then [n] else []) ++ ps) l =
      Look.setPen ps (if b then l.attribute n else l) := by
  cases b with
  | true => rcases hn with rfl | rfl | rfl | rfl | rfl <;> rfl
  | false => rfl

/-- A foreground among the parameters. -/
theorem setPen_fg (type : UInt8) (v : UInt8 × UInt8 × UInt8) (ps : List ℕ) {l : Look}
    (hl : l.fg = .default) :
    Look.setPen (colorParams 38 type v ++ ps) l =
      Look.setPen ps { l with fg := Web.color type v.1 v.2.1 v.2.2 } := by
  unfold colorParams Web.color
  split
  · simp [Look.setPen]
  · split
    · simp [Look.setPen]
    · rw [← hl]
      rfl

/-- A background. -/
theorem setPen_bg (type : UInt8) (v : UInt8 × UInt8 × UInt8) {l : Look} (hl : l.bg = .default) :
    Look.setPen (colorParams 48 type v) l = { l with bg := Web.color type v.1 v.2.1 v.2.2 } := by
  unfold colorParams Web.color
  split
  · simp [Look.setPen]
  · split
    · simp [Look.setPen]
    · rw [← hl]
      rfl

/-- **The parameters of a style make its look.** -/
theorem setPen_params (s : Style) (l : Look) : Look.setPen (0 :: s.params) l = s.look := by
  have hzero : Look.setPen (0 :: s.params) l = Look.setPen s.params .plain := rfl
  rw [hzero]
  unfold Style.params
  rw [setPen_flag _ (by decide), setPen_flag _ (by decide), setPen_flag _ (by decide),
    setPen_flag _ (by decide), setPen_flag _ (by decide)]
  generalize hflags : (if s.inverse then _ else _ : Look) = l'
  have hl' : l' = { Look.plain with
      bold := s.bold, dim := s.dim, italic := s.italic, underline := s.underline
      inverse := s.inverse } := by
    rw [← hflags]
    cases s.bold <;> cases s.dim <;> cases s.italic <;> cases s.underline <;>
      cases s.inverse <;> rfl
  rw [hl', setPen_fg _ _ _ rfl, setPen_bg _ _ rfl]
  rfl

/-- **`push_sgr` sets the pen.** -/
theorem feed_sgrText (w : Vt.Widths) {t : Vt.Screen Look} (hground : t.parser = .ground)
    (s : Style) :
    t.feed (Look.rules w) (sgrText s).toList = { t with pen := s.look } := by
  rw [toList_sgrText, Vt.Screen.feed_setPen hground]
  change ({ t with pen := Look.setPen (0 :: s.params) t.pen } : Vt.Screen Look) = _
  rw [setPen_params]

/-! ### The text of a cell -/

/-- `FrameState::cell_content` reads a cell as the format has it: no text on the second half
of a wide character, the one of the overflow table where the content length is 7, and the one
in the cell where it fits and is UTF-8, a blank being a space. -/
structure ReadsCells (cellContent : FrameState → ℕ → ℕ → String) : Prop where
  spacer : ∀ frame row col, row < frame.rows → col < frame.cols →
    cellFlags (cellBytes frame row col) &&& (4 : UInt8) ≠ 0 → cellContent frame row col = ""
  inline : ∀ frame row col, row < frame.rows → col < frame.cols →
    cellFlags (cellBytes frame row col) &&& (4 : UInt8) = 0 →
    cellLen (cellBytes frame row col) ≤ 4 →
    ∀ s, ((cellBytes frame row col).toList.drop 8).take (cellLen (cellBytes frame row col)) =
      asBytes s → cellContent frame row col = if s = "" then " " else s
  overflow : ∀ frame row col, row < frame.rows → col < frame.cols →
    cellFlags (cellBytes frame row col) &&& (4 : UInt8) = 0 →
    cellLen (cellBytes frame row col) = 7 →
    ∀ s, frame.overflow.get? (row * frame.cols + col) = some s → cellContent frame row col = s

namespace Emulator

variable {w : Vt.Widths} {cellContent : FrameState → ℕ → ℕ → String} {e : Emulator} {row col : ℕ}

/-- **The content of a cell of a snapshot.**  The flags of the cell tell a spacer, and the
length of its content the three other cases: blank, stored in the cell, or in the overflow
table. -/
theorem content_snapshot (hreads : ReadsCells cellContent) (hrow : row < e.rows)
    (hcol : col < e.cols) :
    cellContent e.snapshot row col =
      if (e.grid row col).flags.wideCharSpacer then ""
      else if (e.grid row col).blank then " " else cellFullText (e.grid row col) := by
  have hbytes := cellBytes_snapshot hrow hcol
  obtain ⟨hflag, hlength⟩ := cellLen_of _ hbytes
  have hspacer := (flagByte1_read (e.grid row col)).2.1
  have htext := take_contentLen (e.grid row col)
  rw [← hbytes, ← hlength] at htext
  have hrow' : row < e.snapshot.rows := hrow
  have hcol' : col < e.snapshot.cols := hcol
  by_cases hsp : (e.grid row col).flags.wideCharSpacer = true
  · rw [if_pos hsp]
    exact hreads.spacer _ _ _ hrow' hcol' (hflag ▸ hspacer.2 hsp)
  · have hbit : cellFlags (cellBytes e.snapshot row col) &&& (4 : UInt8) = 0 := by
      by_contra h
      exact hsp (hspacer.1 (hflag ▸ h))
    rw [if_neg hsp]
    have hinline := hreads.inline _ _ _ hrow' hcol' hbit
    rcases contentLen_cases (e.grid row col) with ⟨hblank, hlen⟩ | ⟨hblank, hsize, hpos, hle⟩ |
      ⟨hblank, hlen, -⟩
    · rw [if_pos hblank] at htext ⊢
      exact hinline (by omega) "" (htext (by omega))
    · rw [hblank, if_neg Bool.false_ne_true] at htext ⊢
      rw [hinline (by omega) _ (htext (by omega)), if_neg fun hempty => ?_]
      rw [hempty] at hsize
      exact absurd (hsize.trans (show (asBytes "").length = 0 from rfl)) (by omega)
    · rw [hblank, if_neg Bool.false_ne_true]
      exact hreads.overflow _ _ _ hrow' hcol' hbit (hlength.trans hlen) _
        ((overflow_get? hrow hcol).trans (if_pos hlen))

/-! ### The screen -/

/-- What a terminal should show of a cell. -/
def slot (e : Emulator) (row col : ℕ) : Vt.Slot Look :=
  ⟨(e.grid row col).text.toList, (e.grid row col).look⟩

/-- A cleared terminal of the same size after it has read `frame_ansi` of the snapshot. -/
def painting (w : Vt.Widths) (cellContent : FrameState → ℕ → ℕ → String) (e : Emulator) :
    Vt.Screen Look :=
  (Vt.Screen.cleared (Look.rules w) e.rows e.cols).feed (Look.rules w)
    (fromUtf8Lossy (frameAnsi cellContent e.snapshot)).toList

/-- **Painting reproduces the screen**: every place shows the text of its cell, in its colours
and with its attributes. -/
def Paints (w : Vt.Widths) (cellContent : FrameState → ℕ → ℕ → String) (e : Emulator) : Prop :=
  ∀ row < e.rows, ∀ col < e.cols, (e.painting w cellContent).lines row col = e.slot row col

/-- A wide character. -/
def WideAt (w : Vt.Widths) (e : Emulator) (row col : ℕ) : Prop :=
  (e.grid row col).flags.wideCharSpacer = false ∧ w.width (e.grid row col).c = some 2

/-- A cell in its place: its character is one or two columns wide and its marks take none, and
the second half of a wide character follows it in its row, looks the same, and stands nowhere
else. -/
structure Placed (w : Vt.Widths) (e : Emulator) (row col : ℕ) : Prop where
  char : (e.grid row col).flags.wideCharSpacer = false →
    w.width (e.grid row col).c = some 1 ∨ w.width (e.grid row col).c = some 2
  marks : (e.grid row col).flags.wideCharSpacer = false →
    ∀ m ∈ (e.grid row col).zerowidth, w.width m = some 0
  wide : e.WideAt w row col → col + 1 < e.cols ∧
    (e.grid row (col + 1)).flags.wideCharSpacer = true ∧
    (e.grid row (col + 1)).look = (e.grid row col).look
  spacer : (e.grid row col).flags.wideCharSpacer = true → 0 < col ∧ e.WideAt w row (col - 1)

/-- **A cell that can be painted**: it is in its place, and it is not a space with marks. -/
structure Paintable (w : Vt.Widths) (e : Emulator) (row col : ℕ) : Prop
    extends Placed w e row col where
  space : (e.grid row col).flags.wideCharSpacer = false → (e.grid row col).c = ' ' →
    (e.grid row col).zerowidth = []

/-- The screen when the first lines and the first columns of the next are painted. -/
def painted (e : Emulator) (row col : ℕ) (pen : Look) : Vt.Screen Look where
  rows := e.rows
  cols := e.cols
  lines := fun i j =>
    if j < e.cols ∧ (i < row ∨ i = row ∧ j < col) then e.slot i j else .blank .plain
  row := row
  col := col
  pen := pen
  parser := .ground

/-- A cleared screen is painted up to its first cell. -/
theorem cleared_eq (w : Vt.Widths) (e : Emulator) :
    Vt.Screen.cleared (Look.rules w) e.rows e.cols = e.painted 0 0 .plain := by
  refine Vt.Screen.ext rfl rfl ?_ rfl rfl rfl rfl
  funext i j
  exact (if_neg (by omega)).symm

/-- A slot of the line that is being painted. -/
theorem painted_line {pen : Look} {j : ℕ} :
    (e.painted row col pen).line j =
      if j < e.cols ∧ j < col then e.slot row j else .blank .plain := by
  unfold Vt.Screen.line painted
  simp

/-- What is not painted yet is blank. -/
theorem painted_line_blank {pen : Look} {j : ℕ} (hj : col ≤ j) :
    (e.painted row col pen).line j = .blank .plain := by
  rw [painted_line, if_neg (by omega)]

/-- More of a line is painted by changing that line. -/
theorem setLine_painted {pen : Look} {l : Vt.Line Look} {n : ℕ}
    (hl : ∀ j, l j = if j < e.cols ∧ j < n then e.slot row j else .blank .plain) :
    ({ (e.painted row col pen).setLine l with col := n } : Vt.Screen Look) =
      e.painted row n pen := by
  refine Vt.Screen.ext rfl rfl ?_ rfl rfl rfl rfl
  funext i j
  change Function.update (e.painted row col pen).lines row l i j = (e.painted row n pen).lines i j
  unfold painted
  by_cases hi : i = row
  · rw [hi, Function.update_self, hl]
    simp
  · rw [Function.update_of_ne hi]
    simp [hi]

/-- One slot more. -/
theorem setLine_slot {pen : Look} (hcol : col < e.cols) :
    ({ (e.painted row col pen).setLine
        (Function.update (e.painted row col pen).line col (e.slot row col)) with
      col := col + 1 } : Vt.Screen Look) = e.painted row (col + 1) pen := by
  refine setLine_painted fun j => ?_
  rw [Function.update_apply, painted_line]
  grind

/-- Two slots more. -/
theorem setLine_slots {pen : Look} (hcol : col + 1 < e.cols) :
    ({ (e.painted row col pen).setLine
        (Function.update (Function.update (e.painted row col pen).line col (e.slot row col))
          (col + 1) (e.slot row (col + 1))) with
      col := col + 2 } : Vt.Screen Look) = e.painted row (col + 2) pen := by
  refine setLine_painted fun j => ?_
  rw [Function.update_apply, Function.update_apply, painted_line]
  grind

/-- One line more. -/
theorem feed_newline_painted {pen : Look} (hrow : row + 1 < e.rows) :
    (e.painted row e.cols pen).feed (Look.rules w) ['\r', '\n'] = e.painted (row + 1) 0 pen := by
  rw [Vt.Screen.feed_newline rfl hrow]
  refine Vt.Screen.ext rfl rfl ?_ rfl rfl rfl rfl
  funext i j
  unfold painted
  grind

/-- A cell with text. -/
theorem slot_of_char (hspacer : (e.grid row col).flags.wideCharSpacer = false) :
    e.slot row col = ⟨(e.grid row col).c :: (e.grid row col).zerowidth, (e.grid row col).look⟩ := by
  unfold slot
  rw [text_of_not_spacer hspacer]
  unfold cellFullText
  rw [String.toList_ofList]

/-- The second cell of a wide character. -/
theorem slot_of_spacer (hspacer : (e.grid row col).flags.wideCharSpacer = true) :
    e.slot row col = ⟨[], (e.grid row col).look⟩ := by
  unfold slot TermCell.text
  rw [if_pos hspacer]
  rfl

/-- The content of a cell that can be painted is its text. -/
theorem Paintable.content (h : e.Paintable w row col) (hreads : ReadsCells cellContent)
    (hrow : row < e.rows) (hcol : col < e.cols) :
    (cellContent e.snapshot row col).toList = (e.slot row col).text := by
  rw [content_snapshot hreads hrow hcol]
  cases hspacer : (e.grid row col).flags.wideCharSpacer with
  | true =>
    rw [slot_of_spacer hspacer]
    rfl
  | false =>
    have hnul : (e.grid row col).c ≠ '\x00' := by
      intro hc
      have hchar := h.char hspacer
      rw [hc, w.control _ (by decide)] at hchar
      rcases hchar with h | h <;> cases h
    rw [slot_of_char hspacer, if_neg Bool.false_ne_true]
    split
    · rename_i hblank
      have hc := (blank_iff hnul).1 hblank
      rw [hc, h.space hspacer hc]
      rfl
    · unfold cellFullText
      rw [String.toList_ofList]

/-- How far a line is painted when column `col` comes next: a wide character has painted its
second half. -/
def reach (e : Emulator) (row col : ℕ) : ℕ :=
  if col < e.cols ∧ (e.grid row col).flags.wideCharSpacer then col + 1 else col

/-- **The text of a cell paints it**, with the pen of the cell.  A spacer writes nothing, as
the wide character in front of it has painted it; a wide character paints the next slot too,
and the cursor reaches behind both (`reach`). -/
theorem feed_content (hreads : ReadsCells cellContent)
    (hall : ∀ col < e.cols, e.Paintable w row col) (hrow : row < e.rows) (hcol : col < e.cols) :
    (e.painted row (e.reach row col) (e.grid row col).look).feed (Look.rules w)
        (cellContent e.snapshot row col).toList =
      e.painted row (e.reach row (col + 1)) (e.grid row col).look := by
  have h := hall col hcol
  rw [h.content hreads hrow hcol]
  cases hspacer : (e.grid row col).flags.wideCharSpacer with
  | true =>
    -- the next cell is no second half, or this one would be a first
    have hreach : e.reach row (col + 1) = col + 1 := if_neg fun hnext => by
      have hleft := ((hall _ hnext.1).spacer hnext.2).2.1
      rw [Nat.add_sub_cancel, hspacer] at hleft
      cases hleft
    rw [slot_of_spacer hspacer, hreach]
    unfold reach
    rw [if_pos ⟨hcol, hspacer⟩]
    rfl
  | false =>
    have hreach : e.reach row col = col := if_neg fun hnext => by
      rw [hspacer] at hnext
      cases hnext.2
    have hslot := slot_of_char hspacer
    rw [hreach]
    rcases h.char hspacer with hone | htwo
    · have hnext : e.reach row (col + 1) = col + 1 := if_neg fun hnext => by
        have hleft := ((hall _ hnext.1).spacer hnext.2).2.2
        rw [Nat.add_sub_cancel, hone] at hleft
        cases hleft
      rw [hnext, ← setLine_slot hcol, hslot]
      exact Vt.Screen.feed_narrow rfl hcol (painted_line_blank le_rfl)
        (painted_line_blank (Nat.le_succ _)) hone (h.marks hspacer)
    · obtain ⟨hroom, hright, hlook⟩ := h.wide ⟨hspacer, htwo⟩
      have hnext : e.reach row (col + 1) = col + 2 := if_pos ⟨hroom, hright⟩
      rw [hnext, ← setLine_slots hroom, slot_of_spacer hright, hlook, hslot]
      exact Vt.Screen.feed_wide rfl hroom (painted_line_blank le_rfl)
        (painted_line_blank (Nat.le_succ _)) (painted_line_blank (show col ≤ col + 2 by omega)) htwo
        (h.marks hspacer)

/-! ### The whole frame -/

/-- What `frame_ansi` has written before column `col` of a line, and the style it goes on
with: a terminal that reads it shows what is painted so far. -/
def PaintedTo (w : Vt.Widths) (e : Emulator) (row col : ℕ) (p : Bytes × Style) : Prop :=
  ∃ s : String, p.1 = asBytes s ∧
    (Vt.Screen.cleared (Look.rules w) e.rows e.cols).feed (Look.rules w) s.toList =
      e.painted row (e.reach row col) p.2.look

variable {p : Bytes × Style}

/-- A style sequence changes the pen only. -/
theorem PaintedTo.pushSgr (h : PaintedTo w e row col p) (style : Style) :
    PaintedTo w e row col (pushSgr p.1 style, style) := by
  obtain ⟨s, hs, hfeed⟩ := h
  refine ⟨s ++ sgrText style, ?_, ?_⟩
  · rw [asBytes_append, ← hs]
    rfl
  · rw [String.toList_append, Vt.Screen.feed_append, hfeed, feed_sgrText w rfl]
    rfl

/-- **One cell of `frame_ansi`.** -/
theorem PaintedTo.cell (h : PaintedTo w e row col p) (hreads : ReadsCells cellContent)
    (hall : ∀ col < e.cols, e.Paintable w row col) (hrow : row < e.rows) (hcol : col < e.cols) :
    PaintedTo w e row (col + 1) (ansiCell cellContent e.snapshot row p col) := by
  have hlook : (styleAt e.snapshot.cells e.snapshot.cols row col).look = (e.grid row col).look :=
    look_styleAt hrow hcol
  unfold ansiCell
  dsimp only
  generalize styleAt e.snapshot.cells e.snapshot.cols row col = style at hlook
  have hstyle : ∃ q : Bytes × Style,
      (if style ≠ p.2 then (Quosh.pushSgr p.1 style, style) else p) = q ∧ q.2 = style ∧
        PaintedTo w e row col q := by
    refine ⟨_, rfl, ?_⟩
    split
    · exact ⟨rfl, h.pushSgr style⟩
    · rename_i hsame
      exact ⟨(not_not.1 hsame).symm, h⟩
  obtain ⟨q, hq, hqstyle, s, hs, hfeed⟩ := hstyle
  rw [hq]
  refine ⟨s ++ cellContent e.snapshot row col, ?_, ?_⟩
  · rw [asBytes_append, ← hs]
  · rw [String.toList_append, Vt.Screen.feed_append, hfeed, hqstyle, hlook]
    exact feed_content hreads hall hrow hcol

/-- **One line of `frame_ansi`.** -/
theorem PaintedTo.cells (h : PaintedTo w e row 0 p) (hreads : ReadsCells cellContent)
    (hall : ∀ col < e.cols, e.Paintable w row col) (hrow : row < e.rows) :
    ∀ n ≤ e.cols, PaintedTo w e row n
      ((List.range n).foldl (ansiCell cellContent e.snapshot row) p) := by
  intro n hn
  induction n with
  | zero => exact h
  | succ n ih =>
    rw [List.range_succ, List.foldl_append]
    exact (ih (by omega)).cell hreads hall hrow hn

/-- **The lines of `frame_ansi`.**  The induction is on the lines: a line that is painted to
its end is followed by a new line, and no row begins with a spacer. -/
theorem paintedTo_rows (hreads : ReadsCells cellContent)
    (hall : ∀ row < e.rows, ∀ col < e.cols, e.Paintable w row col) :
    ∀ n < e.rows, PaintedTo w e n e.cols
      ((List.range (n + 1)).foldl (ansiRow cellContent e.snapshot) ([], {})) := by
  have hzero (row : ℕ) (hrow : row < e.rows) : e.reach row 0 = 0 := if_neg fun h =>
    absurd ((hall row hrow 0 h.1).spacer h.2).1 (Nat.lt_irrefl 0)
  have hend (row : ℕ) : e.reach row e.cols = e.cols := if_neg fun h =>
    absurd h.1 (Nat.lt_irrefl _)
  intro n hn
  induction n with
  | zero =>
    have hstart : PaintedTo w e 0 0 ([], {}) := by
      refine ⟨"", rfl, ?_⟩
      rw [hzero 0 hn]
      exact cleared_eq w e
    exact hstart.cells hreads (hall 0 hn) hn e.cols le_rfl
  | succ n ih =>
    obtain ⟨s, hs, hfeed⟩ := ih (by omega)
    rw [List.range_succ, List.foldl_append]
    generalize (List.range (n + 1)).foldl (ansiRow cellContent e.snapshot) ([], {}) = p at hs hfeed
    have hnext : PaintedTo w e (n + 1) 0 (p.1 ++ asBytes "\r\n", p.2) := by
      refine ⟨s ++ "\r\n", ?_, ?_⟩
      · rw [asBytes_append, ← hs]
      · rw [String.toList_append, Vt.Screen.feed_append, hfeed, hzero _ hn, hend]
        exact feed_newline_painted hn
    exact hnext.cells hreads (hall _ hn) hn e.cols le_rfl

/-- The last style sequence is one more style. -/
theorem paintedTo_frameAnsi (hreads : ReadsCells cellContent)
    (hall : ∀ row < e.rows, ∀ col < e.cols, e.Paintable w row col) (hrows : 0 < e.rows) :
    ∃ style, PaintedTo w e (e.rows - 1) e.cols (frameAnsi cellContent e.snapshot, style) := by
  have hlast := paintedTo_rows hreads hall (e.rows - 1) (by omega)
  rw [Nat.sub_add_cancel hrows] at hlast
  unfold frameAnsi
  rw [show e.snapshot.rows = e.rows from rfl]
  generalize (List.range e.rows).foldl (ansiRow cellContent e.snapshot) ([], {}) = p at hlast
  dsimp only
  have hreset := hlast.pushSgr {}
  unfold Quosh.pushSgr at hreset
  rw [show sgrText {} = "\x1b[0m" by decide +kernel] at hreset
  split
  · exact ⟨{}, hreset⟩
  · exact ⟨p.2, hlast⟩

/-- **A grid that can be painted is painted.** -/
theorem paints_of_paintable (hreads : ReadsCells cellContent)
    (hall : ∀ row < e.rows, ∀ col < e.cols, e.Paintable w row col) : e.Paints w cellContent := by
  intro row hrow col hcol
  obtain ⟨style, s, hs, hfeed⟩ := paintedTo_frameAnsi hreads hall (by omega)
  have hend : e.reach (e.rows - 1) e.cols = e.cols := if_neg fun h => absurd h.1 (Nat.lt_irrefl _)
  change frameAnsi cellContent e.snapshot = asBytes s at hs
  unfold painting
  rw [hs, fromUtf8Lossy_asBytes, hfeed, hend]
  unfold painted
  dsimp only
  rw [if_pos (by omega)]

/-! ### Only such grids are painted -/

/-- The lines of a painting are whole. -/
theorem whole_painting (w : Vt.Widths) (cellContent : FrameState → ℕ → ℕ → String) (e : Emulator)
    (row : ℕ) : ((e.painting w cellContent).lines row).Whole w .plain e.cols := by
  have hwhole := (Vt.Screen.whole_cleared (Look.rules w) e.rows e.cols).feed
    (fromUtf8Lossy (frameAnsi cellContent e.snapshot)).toList row
  rw [Vt.Screen.cols_feed] at hwhole
  unfold painting
  exact hwhole

/-- The second cell of a wide character goes on with the first. -/
theorem isCont_slot (e : Emulator) (row col : ℕ) :
    (e.slot row col).isCont = (e.grid row col).flags.wideCharSpacer := by
  cases hspacer : (e.grid row col).flags.wideCharSpacer with
  | true => rw [slot_of_spacer hspacer, Vt.Slot.isCont_nil]
  | false => rw [slot_of_char hspacer, Vt.Slot.isCont_cons]

/-- A slot is wide where its cell is. -/
theorem isWide_slot_iff : (e.slot row col).isWide w = true ↔ e.WideAt w row col := by
  unfold WideAt
  cases hspacer : (e.grid row col).flags.wideCharSpacer with
  | true => simp [slot_of_spacer hspacer]
  | false => simp [slot_of_char hspacer]

/-- **What is painted is in its place.**  The terminal keeps the two halves of a wide
character together (`whole_painting`), and what it shows is the frame, so the frame does. -/
theorem Paints.placed (h : e.Paints w cellContent) (hrow : row < e.rows) (hcol : col < e.cols) :
    e.Placed w row col := by
  have hline := whole_painting w cellContent e row
  have hslot := h row hrow col hcol
  have hformed := hline.formed col
  rw [hslot] at hformed
  refine ⟨fun hspacer => ?_, fun hspacer => ?_, fun hwide => ?_, fun hspacer => ?_⟩
  · rw [slot_of_char hspacer] at hformed
    exact (hformed _ _ rfl).1
  · rw [slot_of_char hspacer] at hformed
    exact (hformed _ _ rfl).2
  · have hright := hline.halves col
    rw [hslot, isWide_slot_iff.2 hwide] at hright
    have hroom : col + 1 < e.cols := by
      by_contra hroom
      rw [hline.beyond _ (by omega), Vt.Slot.isCont_blank] at hright
      cases hright
    have hpens := hline.pens col hright
    rw [h row hrow _ hroom, hslot] at hpens
    rw [h row hrow _ hroom, isCont_slot] at hright
    exact ⟨hroom, hright, hpens⟩
  · cases col with
    | zero =>
      have hfirst := hline.first
      rw [hslot, isCont_slot, hspacer] at hfirst
      cases hfirst
    | succ col =>
      have hhalves := hline.halves col
      rw [hslot, h row hrow col (by omega), isCont_slot, hspacer] at hhalves
      exact ⟨Nat.succ_pos _, isWide_slot_iff.1 hhalves.symm⟩

/-- A cell without the marks that a space has. -/
def unmarked (cell : TermCell) : TermCell :=
  if cell.c = ' ' then { cell with extra := none } else cell

/-- The same grid, its spaces without marks. -/
def unmark (e : Emulator) : Emulator :=
  { e with grid := fun row col => unmarked (e.grid row col) }

/-- **The marks of a space are not written.** -/
theorem encodeContent_unmarked (cell : TermCell) :
    encodeContent (unmarked cell) = encodeContent cell := by
  unfold unmarked
  split
  · rename_i hc
    unfold encodeContent
    rw [if_neg (by rw [hc]; simp), if_neg (by rw [hc]; simp), if_neg (by rw [hc]; simp),
      if_neg (by rw [hc]; simp)]
  · rfl

/-- A cell without its marks has the rest. -/
theorem unmarked_eq (cell : TermCell) :
    (unmarked cell).c = cell.c ∧ (unmarked cell).flags = cell.flags ∧
      (unmarked cell).fg = cell.fg ∧ (unmarked cell).bg = cell.bg := by
  unfold unmarked
  split <;> exact ⟨rfl, rfl, rfl, rfl⟩

/-- The snapshot of a cell has no marks. -/
theorem cellBytesOf_unmarked (cell : TermCell) :
    cellBytesOf (unmarked cell) = cellBytesOf cell := by
  obtain ⟨-, hflags, hfg, hbg⟩ := unmarked_eq cell
  unfold cellBytesOf flagByte0 flagByte1
  rw [encodeContent_unmarked, hflags, hfg, hbg]

/-- Nor has the snapshot of a screen. -/
theorem snapshot_unmark (e : Emulator) : e.unmark.snapshot = e.snapshot := by
  have hcells : e.unmark.gridCells = e.gridCells.map fun p => (p.1, unmarked p.2) := by
    unfold gridCells
    rw [List.map_flatMap]
    simp only [List.map_map]
    rfl
  have hoverflow (l : List (ℕ × TermCell)) (t : SortedTable ℕ String) :
      (l.map fun p => (p.1, unmarked p.2)).foldl (fun t p => (encodeCell p.2 p.1 t).2) t =
        l.foldl (fun t p => (encodeCell p.2 p.1 t).2) t := by
    rw [List.foldl_map]
    simp only [encodeCell, overflowTextOf, encodeContent_unmarked]
  unfold snapshot
  rw [hcells, List.flatMap_map, hoverflow]
  simp only [cellBytesOf_unmarked]
  rfl

/-- Where all cells are in their places, the grid without the marks of spaces can be
painted. -/
theorem Placed.unmark (h : e.Placed w row col) : e.unmark.Paintable w row col := by
  have hwide (k : ℕ) : e.unmark.WideAt w row k ↔ e.WideAt w row k := by
    obtain ⟨hc, hflags, -⟩ := unmarked_eq (e.grid row k)
    unfold WideAt
    change (unmarked (e.grid row k)).flags.wideCharSpacer = false ∧
      w.width (unmarked (e.grid row k)).c = some 2 ↔ _
    rw [hc, hflags]
  have hflags (k : ℕ) : (e.unmark.grid row k).flags = (e.grid row k).flags :=
    (unmarked_eq (e.grid row k)).2.1
  have hc : (e.unmark.grid row col).c = (e.grid row col).c := (unmarked_eq (e.grid row col)).1
  have hlook (k : ℕ) : (e.unmark.grid row k).look = (e.grid row k).look := by
    obtain ⟨-, hflags, hfg, hbg⟩ := unmarked_eq (e.grid row k)
    change (unmarked (e.grid row k)).look = _
    unfold TermCell.look TermCell.underlined
    rw [hflags, hfg, hbg]
  refine ⟨⟨fun hspacer => ?_, fun hspacer m hm => ?_, fun hw => ?_, fun hspacer => ?_⟩,
    fun _ hspace => ?_⟩
  · rw [hc]
    exact h.char (hflags col ▸ hspacer)
  · refine h.marks (hflags col ▸ hspacer) m ?_
    change m ∈ (unmarked (e.grid row col)).zerowidth at hm
    unfold unmarked at hm
    split at hm
    · exact absurd hm List.not_mem_nil
    · exact hm
  · rw [hflags, hlook, hlook]
    exact h.wide ((hwide col).1 hw)
  · rw [hwide]
    exact h.spacer (hflags col ▸ hspacer)
  · change (unmarked (e.grid row col)).zerowidth = []
    unfold unmarked
    rw [if_pos (hc ▸ hspace)]
    rfl

/-- **What is painted can be painted.** -/
theorem Paints.paintable (hreads : ReadsCells cellContent) (h : e.Paints w cellContent)
    (hrow : row < e.rows) (hcol : col < e.cols) : e.Paintable w row col := by
  refine ⟨h.placed hrow hcol, fun hspacer hspace => ?_⟩
  have hunmarked : e.unmark.Paints w cellContent :=
    paints_of_paintable hreads fun row hrow col hcol => (h.placed hrow hcol).unmark
  have hsame : e.unmark.painting w cellContent = e.painting w cellContent := by
    unfold painting
    rw [snapshot_unmark]
    rfl
  have hslot : e.slot row col = e.unmark.slot row col := by
    rw [← h row hrow col hcol, ← hunmarked row hrow col hcol, hsame]
  have hgrid : e.unmark.grid row col = { e.grid row col with extra := none } := if_pos hspace
  rw [slot_of_char hspacer, slot_of_char (by rw [hgrid]; exact hspacer), hgrid] at hslot
  exact (List.cons.inj (congrArg Vt.Slot.text hslot)).2

/-- **Painting reproduces the screen iff every cell can be painted.** -/
theorem paints_iff (hreads : ReadsCells cellContent) (w : Vt.Widths) (e : Emulator) :
    e.Paints w cellContent ↔ ∀ row < e.rows, ∀ col < e.cols, e.Paintable w row col :=
  ⟨fun h _ hrow _ hcol => h.paintable hreads hrow hcol, paints_of_paintable hreads⟩

/-! ### A tab -/

instance (w : Vt.Widths) (e : Emulator) (row col : ℕ) : Decidable (e.WideAt w row col) :=
  inferInstanceAs (Decidable (_ ∧ _))

instance (w : Vt.Widths) (e : Emulator) (row col : ℕ) : Decidable (e.Placed w row col) :=
  decidable_of_iff (((e.grid row col).flags.wideCharSpacer = false →
      w.width (e.grid row col).c = some 1 ∨ w.width (e.grid row col).c = some 2) ∧
    ((e.grid row col).flags.wideCharSpacer = false →
      (e.grid row col).zerowidth.all fun m => w.width m = some 0) ∧
    (e.WideAt w row col → col + 1 < e.cols ∧
      (e.grid row (col + 1)).flags.wideCharSpacer = true ∧
      (e.grid row (col + 1)).look = (e.grid row col).look) ∧
    ((e.grid row col).flags.wideCharSpacer = true → 0 < col ∧ e.WideAt w row (col - 1)))
    ⟨fun h => ⟨h.1, fun hs => by simpa using h.2.1 hs, h.2.2.1, h.2.2.2⟩,
      fun h => ⟨h.char, fun hs => by simpa using h.marks hs, h.wide, h.spacer⟩⟩

instance (w : Vt.Widths) (e : Emulator) (row col : ℕ) : Decidable (e.Paintable w row col) :=
  decidable_of_iff (e.Placed w row col ∧ ((e.grid row col).flags.wideCharSpacer = false →
      (e.grid row col).c = ' ' → (e.grid row col).zerowidth = []))
    ⟨fun h => ⟨h.1, h.2⟩, fun h => ⟨h.toPlaced, h.space⟩⟩

/-- The text of a cell, as the format has it. -/
def readContent (frame : FrameState) (row col : ℕ) : String :=
  let cell := cellBytes frame row col
  if cellFlags cell &&& (4 : UInt8) = 0 ∧ cellLen cell = 7 then
    (frame.overflow.get? (row * frame.cols + col)).getD ""
  else cellText cell

/-- The reader of the source reads cells. -/
theorem readContent_reads : ReadsCells readContent where
  spacer frame row col _ _ hbit := by
    unfold readContent cellText
    dsimp only
    rw [if_neg fun h => hbit h.1]
    exact if_pos hbit
  inline frame row col _ _ hbit hlen s hs := by
    have hsize := congrArg List.length hs
    rw [List.length_take_of_le (by simp; omega)] at hsize
    unfold readContent
    dsimp only
    rw [if_neg fun h => by omega]
    have hflag : ¬(cellBytes frame row col)[1] &&& (4 : UInt8) ≠ 0 := not_not.2 hbit
    unfold cellText
    rw [hs, fromUtf8Lossy_asBytes, if_neg hflag, if_neg (c := _ ∨ _) (by omega)]
    by_cases hempty : s = ""
    · rw [if_pos hempty, if_pos (hsize.trans (by rw [hempty]; rfl))]
    · rw [if_neg hempty, if_neg fun hzero => hempty ?_]
      have hnil : asBytes s = [] := List.length_eq_zero_iff.1 (hsize.symm.trans hzero)
      rw [← fromUtf8Lossy_asBytes s, hnil]
      rfl
  overflow frame row col _ _ hbit hlen s hs := by
    unfold readContent
    dsimp only
    rw [if_pos ⟨hbit, hlen⟩, hs]
    rfl

/-- The widths of some characters: combining marks take no column, Chinese characters two. -/
def someWidths : Vt.Widths where
  width c :=
    if c < ' ' ∨ '\x7f' ≤ c ∧ c < '\u00a0' then none
    else if '\u0300' ≤ c ∧ c ≤ '\u036f' then some 0
    else if '\u4e00' ≤ c ∧ c ≤ '\u9fff' then some 2
    else some 1
  space := by decide
  control _ h := if_pos (.inl h)

/-- A line with a mark, in bold, and a wide character. -/
def mixedLine : Emulator where
  rows := 2
  cols := 4
  grid row col :=
    if row ≠ 0 then {}
    else if col = 0 then { c := 'e', extra := some ['\u0301'], flags := { bold := true } }
    else if col = 1 then { c := '中', flags := { wideChar := true } }
    else if col = 2 then { flags := { wideCharSpacer := true } }
    else {}
  cursorLine := 0
  cursorColumn := 0
  title := ""
  showCursor := true
  bracketedPaste := false

/-- The hypotheses of `paints_iff` are satisfiable: such a line is painted. -/
theorem paints_iff_mixed : mixedLine.Paints someWidths readContent :=
  (paints_iff readContent_reads someWidths mixedLine).2 (by decide +kernel)

/-- The grid after a tab and a letter. -/
def tabbed : Emulator where
  rows := 2
  cols := 10
  grid row col :=
    if row = 0 ∧ col = 0 then { c := '\t' } else if row = 0 ∧ col = 8 then { c := 'X' } else {}
  cursorLine := 0
  cursorColumn := 9
  title := ""
  showCursor := true
  bracketedPaste := false

/-- What alacritty stores: cells in their places, and tabs. -/
def Stored (w : Vt.Widths) (e : Emulator) : Prop :=
  validateDims e.cols e.rows = true ∧ ∀ row < e.rows, ∀ col < e.cols,
    (e.grid row col).c = '\t' ∨ e.Placed w row col

/-- **A tab moves what is behind it**: the seven blanks after the tab are written from the tab
stop on and wrap, so the letter is not where it was. -/
theorem tab_not_painted :
    ¬∀ e : Emulator, e.Stored someWidths → e.Paints someWidths readContent := by
  intro hall
  have hpaints := hall tabbed ⟨by decide, by unfold tabbed; decide +kernel⟩
  have hletter := congrArg Vt.Slot.text (hpaints 0 (by decide) 8 (by decide))
  exact absurd hletter (by decide +kernel)

end Emulator
end Quosh
