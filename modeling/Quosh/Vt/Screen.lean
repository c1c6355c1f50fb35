/-
# A terminal

The part of a terminal that paints: characters go to the cursor and move it on, behind the
last column the next one wraps, a line feed on the last line scrolls, and a control sequence
that ends in `m` sets the pen.  Tab stops are every eight columns; a tab moves the cursor and
writes nothing.

The cursor column runs from 0 to the number of columns; there the next character wraps, so a
line can be filled without a scroll.  What the pens are and how parameters set them is left
open (`Rules`).

Whatever is written, each line stays whole (`Whole.feed`).
-/

import Quosh.Vt.Line
import Mathlib.Data.List.Basic

namespace Quosh
namespace Vt

/-- Widths, the pen of a cleared screen, and what the parameters of `CSI … m` do to a pen. -/
structure Rules (π : Type) extends Widths where
  plain : π
  setPen : List ℕ → π → π

/-- How far a control sequence is read: the parameters that are complete, and the one that is
being read. -/
inductive Parser where
  | ground
  | escape
  | csi (done : List ℕ) (current : ℕ)
  deriving DecidableEq, Repr

@[ext] structure Screen (π : Type) where
  rows : ℕ
  cols : ℕ
  lines : ℕ → Line π
  row : ℕ
  col : ℕ
  pen : π
  parser : Parser

namespace Screen

variable {π : Type}

/-- A cleared screen, the cursor at home. -/
def cleared (R : Rules π) (rows cols : ℕ) : Screen π where
  rows := rows
  cols := cols
  lines := fun _ => .blank R.plain
  row := 0
  col := 0
  pen := R.plain
  parser := .ground

/-- The line of the cursor. -/
def line (s : Screen π) : Line π := s.lines s.row

def setLine (s : Screen π) (l : Line π) : Screen π :=
  { s with lines := Function.update s.lines s.row l }

/-- One line down; on the last line the others move up. -/
def lineFeed (R : Rules π) (s : Screen π) : Screen π :=
  if s.row + 1 < s.rows then { s with row := s.row + 1 }
  else
    { s with lines := fun i => if i + 1 < s.rows then s.lines (i + 1) else .blank R.plain }

/-- To the next tab stop, but not beyond the last column. -/
def tab (s : Screen π) : Screen π :=
  if s.col < s.cols then { s with col := min (s.cols - 1) ((s.col / 8 + 1) * 8) } else s

/-- To the next line, unless there is room for `n` columns. -/
def wrap (R : Rules π) (s : Screen π) (n : ℕ) : Screen π :=
  if s.col + n ≤ s.cols then s else { s.lineFeed R with col := 0 }

/-- Writes a character of `n` columns, if a line is that long. -/
def write (s : Screen π) (n : ℕ) (l : Line π) : Screen π :=
  if s.col + n ≤ s.cols then { s.setLine l with col := s.col + n } else s

/-- A mark goes to the character before the cursor. -/
def mark (s : Screen π) (m : Char) : Screen π :=
  if s.col - 1 < s.cols then s.setLine (s.line.putMark (s.col - 1) m) else s

def print (R : Rules π) (s : Screen π) (c : Char) : Screen π :=
  match R.width c with
  | some 0 => s.mark c
  | some 1 =>
    let s := s.wrap R 1
    s.write 1 (s.line.putNarrow R.plain s.col c s.pen)
  | some 2 =>
    let s := s.wrap R 2
    s.write 2 (s.line.putWide R.plain s.col c s.pen)
  | _ => s

/-- A character of a control sequence. -/
def sequence (R : Rules π) (s : Screen π) (done : List ℕ) (current : ℕ) (c : Char) : Screen π :=
  if c.isDigit then { s with parser := .csi done (10 * current + (c.toNat - '0'.toNat)) }
  else if c = ';' then { s with parser := .csi (done ++ [current]) 0 }
  else if c = 'm' then { s with pen := R.setPen (done ++ [current]) s.pen, parser := .ground }
  else { s with parser := .ground }

/-- One character. -/
def step (R : Rules π) (s : Screen π) (c : Char) : Screen π :=
  if c = '\x1b' then { s with parser := .escape }
  else
    match s.parser with
    | .escape => { s with parser := if c = '[' then .csi [] 0 else .ground }
    | .csi done current => s.sequence R done current c
    | .ground =>
      if c = '\r' then { s with col := 0 }
      else if c = '\n' then s.lineFeed R
      else if c = '\t' then s.tab
      else s.print R c

/-- A text. -/
def feed (R : Rules π) (s : Screen π) (cs : List Char) : Screen π := cs.foldl (step R) s

/-- No character changes nothing. -/
@[simp] theorem feed_nil (R : Rules π) (s : Screen π) : s.feed R [] = s := rfl

/-- The first character, and the others. -/
@[simp] theorem feed_cons (R : Rules π) (s : Screen π) (c : Char) (cs : List Char) :
    s.feed R (c :: cs) = (s.step R c).feed R cs := rfl

/-- A text in two parts. -/
theorem feed_append (R : Rules π) (s : Screen π) (cs cs' : List Char) :
    s.feed R (cs ++ cs') = (s.feed R cs).feed R cs' := List.foldl_append

/-! ### Lines stay whole -/

/-- All lines are whole. -/
def Whole (R : Rules π) (s : Screen π) : Prop :=
  ∀ i, (s.lines i).Whole R.toWidths R.plain s.cols

variable {R : Rules π} {s : Screen π}

/-- A cleared screen is whole. -/
theorem whole_cleared (R : Rules π) (rows cols : ℕ) : (cleared R rows cols).Whole R :=
  fun _ => Line.whole_blank

/-- A whole line takes the place of the cursor's. -/
theorem Whole.setLine (h : s.Whole R) {l : Line π} (hl : l.Whole R.toWidths R.plain s.cols) :
    (s.setLine l).Whole R := by
  intro i
  change (Function.update s.lines s.row l i).Whole R.toWidths R.plain s.cols
  rw [Function.update_apply]
  split
  · exact hl
  · exact h i

/-- A line feed leaves a blank line, or goes to the next one. -/
theorem Whole.lineFeed (h : s.Whole R) : (s.lineFeed R).Whole R := by
  unfold Screen.lineFeed
  split
  · exact h
  · intro i
    change Line.Whole _ _ _ (if i + 1 < s.rows then s.lines (i + 1) else .blank R.plain)
    split
    · exact h (i + 1)
    · exact Line.whole_blank

/-- So does a wrap. -/
theorem Whole.wrap (h : s.Whole R) (n : ℕ) : (s.wrap R n).Whole R := by
  unfold Screen.wrap
  split
  · exact h
  · exact h.lineFeed

/-- A character is written where it fits. -/
theorem Whole.write (h : s.Whole R) (n : ℕ) {l : Line π}
    (hl : s.col + n ≤ s.cols → l.Whole R.toWidths R.plain s.cols) : (s.write n l).Whole R := by
  unfold Screen.write
  split
  · rename_i hroom
    exact h.setLine (hl hroom)
  · exact h

/-- A mark joins the character in front of the cursor. -/
theorem Whole.mark (h : s.Whole R) {m : Char} (hm : R.width m = some 0) :
    (s.mark m).Whole R := by
  unfold Screen.mark
  split
  · rename_i hcol
    exact h.setLine ((h s.row).putMark hcol hm)
  · exact h

/-- **Every character that is printed keeps a screen whole.** -/
theorem Whole.print (h : s.Whole R) (c : Char) : (s.print R c).Whole R := by
  unfold Screen.print
  split
  · rename_i hc
    exact h.mark hc
  · rename_i hc
    have hwrap := h.wrap 1
    exact hwrap.write 1 fun hroom => (hwrap _).putNarrow hroom hc _
  · rename_i hc
    have hwrap := h.wrap 2
    exact hwrap.write 2 fun hroom => (hwrap _).putWide hroom hc _
  · exact h

/-- **Every character keeps the lines whole.** -/
theorem Whole.step (h : s.Whole R) (c : Char) : (s.step R c).Whole R := by
  unfold Screen.step
  split
  · exact h
  · split
    · exact h
    · unfold sequence
      split_ifs <;> exact h
    · split_ifs
      · exact h
      · exact h.lineFeed
      · unfold tab
        split <;> exact h
      · exact h.print c

/-- **So does every text.** -/
theorem Whole.feed (h : s.Whole R) (cs : List Char) : (s.feed R cs).Whole R := by
  induction cs generalizing s with
  | nil => exact h
  | cons c cs ih => exact ih (h.step c)

/-- A line feed keeps the width. -/
theorem cols_lineFeed (s : Screen π) : (s.lineFeed R).cols = s.cols := by
  unfold lineFeed
  split <;> rfl

/-- So does a character. -/
theorem cols_print (s : Screen π) (c : Char) : (s.print R c).cols = s.cols := by
  have hwrap (n : ℕ) : (s.wrap R n).cols = s.cols := by
    unfold wrap
    split
    · rfl
    · exact cols_lineFeed s
  have hwrite (s : Screen π) (n : ℕ) (l : Line π) : (s.write n l).cols = s.cols := by
    unfold write
    split <;> rfl
  unfold print
  split
  · unfold mark
    split <;> rfl
  · exact (hwrite ..).trans (hwrap 1)
  · exact (hwrite ..).trans (hwrap 2)
  · rfl

/-- The number of columns stays. -/
theorem cols_step (s : Screen π) (c : Char) : (s.step R c).cols = s.cols := by
  unfold Screen.step
  split
  · rfl
  · split
    · rfl
    · unfold sequence
      split_ifs <;> rfl
    · split_ifs
      · rfl
      · exact cols_lineFeed s
      · unfold tab
        split <;> rfl
      · exact cols_print s c

/-- Any text keeps the width. -/
@[simp] theorem cols_feed (s : Screen π) (cs : List Char) : (s.feed R cs).cols = s.cols := by
  induction cs generalizing s with
  | nil => rfl
  | cons c cs ih => rw [feed_cons, ih, cols_step]

/-! ### Writing on cleared ground -/

/-- A character with a width is printed, outside an escape sequence. -/
theorem step_print (hground : s.parser = .ground) {c : Char} {n : ℕ} (hc : R.width c = some n) :
    s.step R c = s.print R c := by
  have hcontrol (d : Char) (hd : d < ' ') : c ≠ d := by
    rintro rfl
    rw [R.control _ hd] at hc
    cases hc
  unfold Screen.step
  rw [if_neg (hcontrol _ (by decide)), hground]
  dsimp only
  rw [if_neg (hcontrol _ (by decide)), if_neg (hcontrol _ (by decide)),
    if_neg (hcontrol _ (by decide))]

/-- The line that was set is there. -/
theorem line_setLine (s : Screen π) (l : Line π) : (s.setLine l).line = l :=
  Function.update_self ..

/-- A line is set twice. -/
theorem setLine_setLine (s : Screen π) (l l' : Line π) :
    (s.setLine l).setLine l' = s.setLine l' := by
  unfold setLine
  dsimp only
  rw [Function.update_idem]

/-- A line is set to what it was. -/
theorem setLine_line (s : Screen π) : s.setLine s.line = s := by
  unfold setLine line
  rw [Function.update_eq_self]

/-- Marks go to the line. -/
theorem feed_marks (hground : s.parser = .ground) (hcol : s.col - 1 < s.cols) {marks : List Char}
    (hmarks : ∀ m ∈ marks, R.width m = some 0) :
    s.feed R marks = s.setLine (marks.foldl (fun l m => l.putMark (s.col - 1) m) s.line) := by
  induction marks generalizing s with
  | nil => exact (setLine_line s).symm
  | cons m marks ih =>
    have hm := hmarks m (List.mem_cons_self ..)
    have hstep : s.step R m = s.setLine (s.line.putMark (s.col - 1) m) := by
      rw [step_print hground hm]
      unfold print
      rw [hm]
      exact if_pos hcol
    have hrest := ih (s := s.setLine (s.line.putMark (s.col - 1) m)) hground hcol
      fun m' hm' => hmarks m' (List.mem_cons_of_mem _ hm')
    rw [feed_cons, hstep, hrest, line_setLine, setLine_setLine]
    rfl

/-- A character on cleared ground, and its marks behind it. -/
theorem feed_char (hground : s.parser = .ground) {c : Char} {n k : ℕ} {l : Line π}
    (hc : R.width c = some n) (hstep : s.print R c = { s.setLine l with col := k })
    (hcol : k - 1 < s.cols) {j : ℕ} (hbase : l.base (k - 1) = j) (hslot : l j = ⟨[c], s.pen⟩)
    {marks : List Char} (hmarks : ∀ m ∈ marks, R.width m = some 0) :
    s.feed R (c :: marks) =
      { s.setLine (Function.update l j ⟨c :: marks, s.pen⟩) with col := k } := by
  have hrest := feed_marks (s := { s.setLine l with col := k }) hground hcol hmarks
  have htext : (l (l.base (k - 1))).isCont = false := by
    rw [hbase, hslot]
    rfl
  change feed R { s.setLine l with col := k } marks =
    { (s.setLine l).setLine (marks.foldl (fun l m => l.putMark (k - 1) m) (s.setLine l).line) with
      col := k } at hrest
  rw [feed_cons, step_print hground hc, hstep, hrest, line_setLine, setLine_setLine,
    Line.foldl_putMark htext, hbase, hslot]
  rfl

/-- **A narrow character on cleared ground**, with its marks. -/
theorem feed_narrow (hground : s.parser = .ground) (hcol : s.col < s.cols)
    (hblank : s.line s.col = .blank R.plain) (hnext : s.line (s.col + 1) = .blank R.plain)
    {c : Char} (hc : R.width c = some 1) {marks : List Char}
    (hmarks : ∀ m ∈ marks, R.width m = some 0) :
    s.feed R (c :: marks) =
      { s.setLine (Function.update s.line s.col ⟨c :: marks, s.pen⟩) with col := s.col + 1 } := by
  have hroom : s.col + 1 ≤ s.cols := hcol
  have hprint : s.print R c =
      { s.setLine (Function.update s.line s.col ⟨[c], s.pen⟩) with col := s.col + 1 } := by
    simp only [print, hc, wrap, if_pos hroom, write, Line.putNarrow,
      Line.erase_of_blank hblank hnext]
  have hself : Function.update s.line s.col (⟨[c], s.pen⟩ : Slot π) s.col = ⟨[c], s.pen⟩ :=
    Function.update_self ..
  have hbase : Line.base (Function.update s.line s.col (⟨[c], s.pen⟩ : Slot π)) (s.col + 1 - 1) =
      s.col := by
    unfold Line.base
    rw [Nat.add_sub_cancel, hself]
    rfl
  rw [feed_char hground hc hprint hcol hbase hself hmarks, Function.update_idem]

/-- **A wide character on cleared ground**, with its marks. -/
theorem feed_wide (hground : s.parser = .ground) (hcol : s.col + 1 < s.cols)
    (hblank : s.line s.col = .blank R.plain) (hnext : s.line (s.col + 1) = .blank R.plain)
    (hafter : s.line (s.col + 2) = .blank R.plain)
    {c : Char} (hc : R.width c = some 2) {marks : List Char}
    (hmarks : ∀ m ∈ marks, R.width m = some 0) :
    s.feed R (c :: marks) =
      { s.setLine (Function.update (Function.update s.line s.col ⟨c :: marks, s.pen⟩) (s.col + 1)
          ⟨[], s.pen⟩) with col := s.col + 2 } := by
  have hroom : s.col + 2 ≤ s.cols := hcol
  have hprint : s.print R c =
      { s.setLine (Function.update (Function.update s.line s.col ⟨[c], s.pen⟩) (s.col + 1)
          ⟨[], s.pen⟩) with col := s.col + 2 } := by
    simp only [print, hc, wrap, if_pos hroom, write, Line.putWide,
      Line.erase_of_blank hblank hnext, Line.erase_of_blank hnext hafter]
  have hself : Function.update (Function.update s.line s.col (⟨[c], s.pen⟩ : Slot π)) (s.col + 1)
      ⟨[], s.pen⟩ s.col = ⟨[c], s.pen⟩ := by
    rw [Function.update_of_ne (by omega), Function.update_self]
  have hbase : Line.base (Function.update (Function.update s.line s.col (⟨[c], s.pen⟩ : Slot π))
      (s.col + 1) ⟨[], s.pen⟩) (s.col + 2 - 1) = s.col := by
    unfold Line.base
    rw [show s.col + 2 - 1 = s.col + 1 from rfl, Function.update_self]
    rfl
  rw [feed_char hground hc hprint hcol hbase hself hmarks,
    Function.update_comm (by omega) _ _, Function.update_idem,
    Function.update_comm (by omega) _ _]

/-- **A new line**, as long as there is one. -/
theorem feed_newline (hground : s.parser = .ground) (hrow : s.row + 1 < s.rows) :
    s.feed R ['\r', '\n'] = { s with row := s.row + 1, col := 0 } := by
  have hreturn : s.step R '\r' = { s with col := 0 } := by
    simp [Screen.step, hground]
  have hfeed : ({ s with col := 0 } : Screen π).step R '\n' =
      { s with row := s.row + 1, col := 0 } := by
    simp [Screen.step, hground, lineFeed, hrow]
  rw [feed_cons, hreturn, feed_cons, hfeed]
  rfl

/-! ### Control sequences -/

/-- Parameters behind a first one. -/
def paramsText (ps : List ℕ) : List Char := ps.flatMap fun p => ';' :: Nat.toDigits 10 p

/-- Digits are read as a number. -/
theorem feed_digits {done : List ℕ} {n : ℕ} (hcsi : s.parser = .csi done n) {cs : List Char}
    (hcs : ∀ c ∈ cs, c.isDigit = true) :
    s.feed R cs = { s with parser := .csi done (Nat.ofDigitChars 10 cs n) } := by
  induction cs generalizing s n with
  | nil =>
    rw [Nat.ofDigitChars_nil, ← hcsi]
    rfl
  | cons c cs ih =>
    have hdigit := hcs c (List.mem_cons_self ..)
    have hstep : s.step R c =
        { s with parser := .csi done (10 * n + (c.toNat - '0'.toNat)) } := by
      unfold Screen.step
      rw [if_neg (by rintro rfl; exact absurd hdigit (by decide)), hcsi]
      exact if_pos hdigit
    rw [feed_cons, hstep, Nat.ofDigitChars_cons]
    exact ih rfl fun d hd => hcs d (List.mem_cons_of_mem _ hd)

/-- So are more parameters, and the last character sets the pen. -/
theorem feed_params {done : List ℕ} {n : ℕ} (hcsi : s.parser = .csi done n) (ps : List ℕ) :
    s.feed R (paramsText ps ++ ['m']) =
      { s with pen := R.setPen (done ++ n :: ps) s.pen, parser := .ground } := by
  induction ps generalizing s done n with
  | nil => simp [paramsText, Screen.step, hcsi, sequence]
  | cons p ps ih =>
    have hnext : s.step R ';' = { s with parser := .csi (done ++ [n]) 0 } := by
      simp [Screen.step, hcsi, sequence]
    have hdigits : ∀ c ∈ Nat.toDigits 10 p, c.isDigit = true := fun c hc =>
      Nat.isDigit_of_mem_toDigits (by decide) (by decide) hc
    have htext : paramsText (p :: ps) ++ ['m'] =
        ';' :: (Nat.toDigits 10 p ++ (paramsText ps ++ ['m'])) := by
      simp [paramsText]
    rw [htext, feed_cons, hnext, feed_append, feed_digits rfl hdigits,
      Nat.ofDigitChars_ten_toDigits, ih rfl]
    simp

/-- **A pen sequence sets the pen**, and nothing else. -/
theorem feed_setPen (hground : s.parser = .ground) (ps : List ℕ) :
    s.feed R ('\x1b' :: '[' :: '0' :: (paramsText ps ++ ['m'])) =
      { s with pen := R.setPen (0 :: ps) s.pen } := by
  have hescape : s.step R '\x1b' = { s with parser := .escape } := if_pos rfl
  have hbracket : ({ s with parser := .escape } : Screen π).step R '[' =
      { s with parser := .csi [] 0 } := by
    simp [Screen.step]
  have hzero : ({ s with parser := .csi [] 0 } : Screen π).step R '0' =
      { s with parser := .csi [] 0 } := by
    simp [Screen.step, sequence]
  rw [feed_cons, hescape, feed_cons, hbracket, feed_cons, hzero, feed_params rfl, ← hground]
  rfl

end Screen
end Vt
end Quosh
