/-
# Overlays

`crates/quosh-predict/src/lib.rs`, `Base`, `CellOverlay`, `CursorOverlay` and
`Row`: a prediction is a cell or a cursor position that is shown over the
confirmed frame.  Its base says since which epoch it is tentative and with which
input frame it can be judged.

`validity` judges an overlay against a frame and an acknowledgement, and `apply`
draws it; both do nothing with an inactive overlay, and `apply` skips one that is
tentative (`CellOverlay.apply_of_tentative`, `CursorOverlay.apply_of_tentative`).

`Base` carries one history variable, `enters`: how many carriage returns the
parser had dispatched when the overlay was last created or stamped.  No function
reads it.
-/

import Quosh.Predict.Cell

namespace Quosh

/-- `NONE`, the sentinel for "no frame" and "no time". -/
def none64 : ℕ := 2 ^ 64 - 1

/-- `DisplayPreference`. -/
inductive DisplayPreference where
  | adaptive
  | always
  | never
  deriving DecidableEq, Repr

/-- `Validity`. -/
inductive Validity where
  | pending
  | correct
  | correctNoCredit
  | incorrectOrExpired
  | inactive
  deriving DecidableEq, Repr

/-- `Act`: what the parser dispatches. -/
inductive Act where
  | print (ch : Char)
  | execute (byte : UInt8)
  | csi (action : Char)
  | esc
  deriving DecidableEq, Repr

/-- What the predictor uses of other crates: the `vte` parser as a state machine
that turns a byte into the acts it dispatches, `UnicodeWidthChar::width`, and
`FrameState::cell_content`. -/
structure Externals (σ : Type) where
  parserNew : σ
  advance : σ → UInt8 → σ × List Act
  charWidth : Char → Option ℕ
  cellContent : FrameState → ℕ → ℕ → String

/-- Printable ASCII characters are printed and control characters executed, as
long as no escape sequence begins; every printable character has width 1; and
the content of a cell is the text in its bytes, as it is for short texts. -/
def Externals.ascii : Externals Unit where
  parserNew := ()
  advance _ b := ((), [if b < 0x20 then .execute b else .print (Char.ofNat b.toNat)])
  charWidth _ := some 1
  cellContent fb row col := cellText (cellBytes fb row col)

/-- `Base`, with the history variable `enters`. -/
structure Base where
  expirationFrame : ℕ
  col : ℕ
  active : Bool
  tentativeUntilEpoch : ℕ
  predictionTime : ℕ
  enters : ℕ
  deriving DecidableEq, Repr

namespace Base

/-- `Base::new`. -/
def new (col epoch enters : ℕ) : Base where
  expirationFrame := 0
  col := col
  active := false
  tentativeUntilEpoch := epoch
  predictionTime := none64
  enters := enters

/-- `Base::tentative`. -/
def tentative (b : Base) (confirmedEpoch : ℕ) : Bool := b.tentativeUntilEpoch > confirmedEpoch

/-- `Base::reset`. -/
def reset (b : Base) : Base :=
  { b with
    expirationFrame := none64, tentativeUntilEpoch := none64, active := false
    predictionTime := none64 }

/-- `Base::expire`. -/
def expire (b : Base) (expirationFrame now : ℕ) : Base :=
  { b with expirationFrame, predictionTime := now }

/-- The three lines that make a base a live prediction of an epoch:
`active = true`, the epoch, `expire`. -/
def stamp (b : Base) (epoch exp now enters : ℕ) : Base :=
  ({ b with active := true, tentativeUntilEpoch := epoch, enters } : Base).expire exp now

/-- What is reset is not active. -/
@[simp] theorem active_reset (b : Base) : b.reset.active = false := rfl

end Base

/-- `CellOverlay`. -/
structure CellOverlay where
  base : Base
  replacement : Cell
  unknown : Bool
  originalContents : List String
  deriving DecidableEq

namespace CellOverlay

/-- `CellOverlay::reset`. -/
def reset (c : CellOverlay) : CellOverlay :=
  { c with unknown := false, originalContents := [], base := c.base.reset }

/-- `CellOverlay::reset_with_orig`. -/
def resetWithOrig (c : CellOverlay) : CellOverlay :=
  if !c.base.active || c.unknown then c.reset
  else
    { c with
      originalContents := c.originalContents ++ [cellText c.replacement], base := c.base.reset }

/-- `CellOverlay::validity`. -/
def validity {σ : Type} (ext : Externals σ) (c : CellOverlay) (fb : FrameState)
    (row lateAck : ℕ) : Validity :=
  if !c.base.active then .inactive
  else if row ≥ fb.rows ∨ c.base.col ≥ fb.cols then .incorrectOrExpired
  else if lateAck < c.base.expirationFrame then .pending
  else if c.unknown then .correctNoCredit
  else if isBlank (cellText c.replacement) then .correctNoCredit
  else if contentsMatch (ext.cellContent fb row c.base.col) (cellText c.replacement) then
    if c.originalContents.any fun o => contentsMatch o (cellText c.replacement) then
      .correctNoCredit
    else .correct
  else .incorrectOrExpired

/-- `CellOverlay::apply`. -/
def apply {σ : Type} (ext : Externals σ) (c : CellOverlay) (fb : FrameState)
    (confirmedEpoch row : ℕ) (flag : Bool) : FrameState :=
  if !c.base.active ∨ row ≥ fb.rows ∨ c.base.col ≥ fb.cols then fb
  else if c.base.tentative confirmedEpoch then fb
  else
    let flag :=
      if isBlank (cellText c.replacement) && isBlank (ext.cellContent fb row c.base.col) then false
      else flag
    if c.unknown then
      if flag && c.base.col ≠ fb.cols - 1 then setUnderline fb row c.base.col else fb
    else if cellBytes fb row c.base.col ≠ c.replacement then
      let fb := setCell fb row c.base.col c.replacement
      if flag then setUnderline fb row c.base.col else fb
    else fb

/-- A cell that is reset has its base reset. -/
@[simp] theorem base_reset (c : CellOverlay) : c.reset.base = c.base.reset := rfl

/-- So has one that keeps its original contents. -/
@[simp] theorem base_resetWithOrig (c : CellOverlay) : c.resetWithOrig.base = c.base.reset := by
  unfold resetWithOrig
  split <;> rfl

/-- An inactive overlay draws nothing. -/
theorem apply_of_inactive {σ : Type} (ext : Externals σ) {c : CellOverlay}
    (h : c.base.active = false) (fb : FrameState) (confirmedEpoch row : ℕ) (flag : Bool) :
    c.apply ext fb confirmedEpoch row flag = fb := by
  rw [apply, if_pos (.inl (by simp [h]))]

/-- A tentative overlay draws nothing. -/
theorem apply_of_tentative {σ : Type} (ext : Externals σ) {c : CellOverlay} {confirmedEpoch : ℕ}
    (h : c.base.tentative confirmedEpoch = true) (fb : FrameState) (row : ℕ) (flag : Bool) :
    c.apply ext fb confirmedEpoch row flag = fb := by
  simp only [apply, h, if_true, ite_self]

/-- **What a verdict says about an active overlay inside the frame**: it is
pending exactly while the acknowledgement is below its expiration. -/
theorem validity_eq_pending_iff {σ : Type} {ext : Externals σ} {c : CellOverlay} {fb : FrameState}
    {row lateAck : ℕ} (ha : c.base.active = true) (hr : row < fb.rows)
    (hc : c.base.col < fb.cols) :
    c.validity ext fb row lateAck = .pending ↔ lateAck < c.base.expirationFrame := by
  unfold validity
  rw [if_neg (by simp [ha]), if_neg (by omega)]
  split
  · rename_i h
    exact ⟨fun _ => h, fun _ => rfl⟩
  · rename_i h
    refine ⟨fun hv => ?_, fun hlt => absurd hlt h⟩
    split_ifs at hv

/-- An overlay found pending is not yet acknowledged. -/
theorem lt_of_validity_pending {σ : Type} {ext : Externals σ} {c : CellOverlay} {fb : FrameState}
    {row lateAck : ℕ} (h : c.validity ext fb row lateAck = .pending) :
    lateAck < c.base.expirationFrame := by
  unfold validity at h
  split_ifs at h
  assumption

/-- An overlay found inactive is so. -/
theorem active_of_validity_inactive {σ : Type} {ext : Externals σ} {c : CellOverlay}
    {fb : FrameState} {row lateAck : ℕ} (h : c.validity ext fb row lateAck = .inactive) :
    c.base.active = false := by
  unfold validity at h
  split_ifs at h with h₁
  simpa using h₁

/-- An overlay found correct is live. -/
theorem active_of_validity_correct {σ : Type} {ext : Externals σ} {c : CellOverlay}
    {fb : FrameState} {row lateAck : ℕ} (h : c.validity ext fb row lateAck = .correct) :
    c.base.active = true := by
  unfold validity at h
  split_ifs at h with h₁
  simpa using h₁

/-- An overlay found wrong is live. -/
theorem active_of_validity_incorrect {σ : Type} {ext : Externals σ} {c : CellOverlay}
    {fb : FrameState} {row lateAck : ℕ}
    (h : c.validity ext fb row lateAck = .incorrectOrExpired) : c.base.active = true := by
  unfold validity at h
  split_ifs at h with h₁ <;> simpa using h₁

end CellOverlay

/-- `CursorOverlay`. -/
structure CursorOverlay where
  base : Base
  row : ℕ
  col : ℕ
  deriving DecidableEq, Repr

namespace CursorOverlay

/-- `CursorOverlay::validity`. -/
def validity (c : CursorOverlay) (fb : FrameState) (lateAck : ℕ) : Validity :=
  if !c.base.active then .inactive
  else if c.row ≥ fb.rows ∨ c.col ≥ fb.cols then .incorrectOrExpired
  else if lateAck ≥ c.base.expirationFrame then
    if fb.cursorCol = c.col ∧ fb.cursorRow = c.row then .correct else .incorrectOrExpired
  else .pending

/-- `CursorOverlay::apply`. -/
def apply (c : CursorOverlay) (fb : FrameState) (confirmedEpoch : ℕ) : FrameState :=
  if !c.base.active || c.base.tentative confirmedEpoch then fb
  else if c.row < fb.rows ∧ c.col < fb.cols then fb.setCursor c.row c.col
  else fb

/-- A tentative cursor moves nothing. -/
theorem apply_of_tentative {c : CursorOverlay} {confirmedEpoch : ℕ}
    (h : c.base.tentative confirmedEpoch = true) (fb : FrameState) :
    c.apply fb confirmedEpoch = fb := by
  rw [apply, if_pos (by simp [h])]

/-- **A cursor inside the frame is pending exactly while the acknowledgement is
below its expiration.** -/
theorem validity_eq_pending_iff {c : CursorOverlay} {fb : FrameState} {lateAck : ℕ}
    (ha : c.base.active = true) (hr : c.row < fb.rows) (hc : c.col < fb.cols) :
    c.validity fb lateAck = .pending ↔ lateAck < c.base.expirationFrame := by
  unfold validity
  rw [if_neg (by simp [ha]), if_neg (by omega)]
  split
  · rename_i h
    refine ⟨fun hv => ?_, fun hlt => absurd hlt (not_lt.2 h)⟩
    split_ifs at hv
  · rename_i h
    exact ⟨fun _ => not_le.1 h, fun _ => rfl⟩

/-- A cursor found pending is not yet acknowledged, and inside the frame. -/
theorem of_validity_pending {c : CursorOverlay} {fb : FrameState} {lateAck : ℕ}
    (h : c.validity fb lateAck = .pending) :
    lateAck < c.base.expirationFrame ∧ c.row < fb.rows ∧ c.col < fb.cols := by
  unfold validity at h
  split_ifs at h with h₁ h₂ h₃
  omega

end CursorOverlay

/-- `Row`: the cell overlays of a row of the frame. -/
structure Row where
  rowNum : ℕ
  cells : List CellOverlay
  deriving DecidableEq

/-- `get_or_make_row`: the table of rows, with a row for `rowNum`, and where that
row is. -/
def getOrMakeRow (overlays : List Row) (rowNum numCols epoch enters : ℕ) : List Row × ℕ :=
  match overlays.findIdx? fun r => r.rowNum = rowNum with
  | some pos => (overlays, pos)
  | none =>
    let cells := (List.range numCols).map fun i =>
      { base := Base.new i epoch enters, replacement := Cell.zero, unknown := false
        originalContents := [] : CellOverlay }
    (overlays ++ [{ rowNum, cells }], overlays.length)

end Quosh
