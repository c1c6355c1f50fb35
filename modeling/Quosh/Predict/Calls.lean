/-
# The calls of a predictor

A predictor is driven by calls of its public functions, in any order and with frames of any
size.  `Predictor.call` is one of them and `Predictor.calls` any number.

What a cull does to the rows is little: it drops some, and in the ones it keeps it deactivates
cells and spreads renditions.  Neither touches the shape of a row, which is its number and for
each of its cells the column and the length of the text (`cull_shape`).

The parser is touched by nothing but the byte it is fed (`reading_newUserByte`).
-/

import Quosh.Predict.Cull
import Quosh.Predict.Edit

namespace Quosh

/-! ### Lists edited without changing a key -/

section Keys

variable {α κ : Type} {key : α → κ} {l : List α}

/-- An edit of one entry that keeps its key. -/
theorem map_modify_eq {f : α → α} (h : ∀ a, key (f a) = key a) (i : ℕ) :
    (l.modify i f).map key = l.map key := by
  induction l generalizing i with
  | nil => simp
  | cons a l ih =>
    cases i with
    | zero => simp [h]
    | succ i => simp [ih]

/-- An edit of all entries that keeps their keys. -/
theorem map_mapIdx_eq {f : ℕ → α → α} (h : ∀ i a, key (f i a) = key a) :
    (l.mapIdx f).map key = l.map key := by
  induction l generalizing f with
  | nil => rfl
  | cons a l ih => simp [h, @ih (fun i => f (i + 1)) fun i a => h (i + 1) a]

end Keys

/-- The column of a cell overlay and the length of its text. -/
def CellOverlay.shape (c : CellOverlay) : ℕ × ℕ := (c.base.col, cellLen c.replacement)

/-- The number of a row and the shapes of its cells. -/
def Row.shape (r : Row) : ℕ × List (ℕ × ℕ) := (r.rowNum, r.cells.map CellOverlay.shape)

/-- A reset keeps the place of a cell. -/
@[simp] theorem CellOverlay.shape_reset (c : CellOverlay) : c.reset.shape = c.shape := rfl

/-- So do other attributes. -/
theorem CellOverlay.shape_copyRenditions (c : CellOverlay) (actual : Cell) :
    ({ c with replacement := copyRenditions c.replacement actual } : CellOverlay).shape =
      c.shape := by
  unfold shape
  rw [cellLen_copyRenditions]

namespace Predictor

variable {σ : Type} (ext : Externals σ)

/-- A call of a public function. -/
inductive Call
  | setDisplayPreference (pref : DisplayPreference)
  | setLocalFrameSent (seq : ℕ)
  | setLocalFrameAcked (seq : ℕ)
  | setLocalFrameLateAcked (seq : ℕ)
  | setSendInterval (ms : ℕ)
  | setPredictOverwrite (overwrite : Bool)
  | reset
  | newUserByte (byte : UInt8) (display : FrameState) (now : ℕ)
  | cull (fb : FrameState) (now : ℕ)
  | apply (frame : FrameState)

/-- The frame that a call is given. -/
def Call.frame : Call → Option FrameState
  | newUserByte _ display _ => some display
  | cull fb _ => some fb
  | apply frame => some frame
  | _ => none

/-- The predictor that a call leaves. -/
def call (p : Predictor σ) : Call → Predictor σ
  | .setDisplayPreference pref => p.setDisplayPreference pref
  | .setLocalFrameSent seq => p.setLocalFrameSent seq
  | .setLocalFrameAcked seq => p.setLocalFrameAcked seq
  | .setLocalFrameLateAcked seq => p.setLocalFrameLateAcked seq
  | .setSendInterval ms => p.setSendInterval ms
  | .setPredictOverwrite overwrite => p.setPredictOverwrite overwrite
  | .reset => p.reset
  | .newUserByte byte display now => p.newUserByte ext byte display now
  | .cull fb now => p.cull ext fb now
  | .apply _ => p

/-- The predictor after some calls. -/
def calls (p : Predictor σ) (cs : List Call) : Predictor σ := cs.foldl (call ext) p

variable {ext} {p : Predictor σ}

/-! ### The rows of a cull -/

/-- An edit of cells that keeps their shapes keeps the shapes of the rows. -/
theorem map_shape_modifyCells {rows : List Row} {f : List CellOverlay → List CellOverlay}
    (h : ∀ cells : List CellOverlay,
      (f cells).map CellOverlay.shape = cells.map CellOverlay.shape) (ri : ℕ) :
    (modifyCells rows ri f).map Row.shape = rows.map Row.shape :=
  map_modify_eq (fun r => by simp only [Row.shape, h]) ri

/-- The end of an epoch keeps the shapes of the rows. -/
theorem map_shape_killEpoch (p : Predictor σ) (rows : List Row) (epoch : ℕ) (fb : FrameState) :
    (p.killEpoch rows epoch fb).rows.map Row.shape = rows.map Row.shape := by
  unfold killEpoch
  rw [List.map_map]
  refine List.map_congr_left fun r _ => ?_
  simp only [Function.comp, Row.shape, List.map_map]
  refine congrArg (Prod.mk r.rowNum) (List.map_congr_left fun c _ => ?_)
  dsimp only [Function.comp]
  split <;> rfl

/-- So does a confirmation. -/
theorem map_shape_confirmCell (c : Culling σ) (fb : FrameState) (now ri ci rowNum : ℕ)
    (cell : CellOverlay) :
    (confirmCell c fb now ri ci rowNum cell).rows.map Row.shape = c.rows.map Row.shape := by
  unfold confirmCell
  dsimp only
  refine map_shape_modifyCells (fun cells => ?_) ri
  rw [map_modify_eq fun c => c.shape_reset]
  refine map_mapIdx_eq fun k d => ?_
  split
  · exact d.shape_copyRenditions _
  · rfl

/-- **A visit keeps the shapes of the rows**, or ends the cull with a reset. -/
theorem cullCell_shape (fb : FrameState) (now ri rowNum ci : ℕ) (c : Culling σ) :
    Ends (cullCell ext fb now ri rowNum ci c) (fun p => p.overlays = [])
      fun c' => c'.rows.map Row.shape = c.rows.map Row.shape := by
  unfold cullCell
  split
  · rfl
  · split
    · split
      · exact map_shape_killEpoch ..
      · rfl
    · exact map_shape_confirmCell ..
    · exact map_shape_modifyCells (fun cells => map_modify_eq (fun c => c.shape_reset) ci) ri
    · rfl
    · rfl

/-- **A cull keeps the shape of the rows**, or drops them all. -/
theorem cullRows_shape (fb : FrameState) (now : ℕ) (c : Culling σ) :
    Ends (cullRows ext fb now c) (fun p => p.overlays = [])
      fun c' => c'.rows.map Row.shape = c.rows.map Row.shape := by
  refine forRange_ends (fun _ (c' : Culling σ) => c'.rows.map Row.shape = c.rows.map Row.shape) rfl
    fun ri c' _ h => ?_
  unfold cullRow
  split
  · exact h
  · refine forRange_ends
      (fun _ (c'' : Culling σ) => c''.rows.map Row.shape = c.rows.map Row.shape) h
      fun ci c'' _ h' => ?_
    exact (cullCell_shape ..).mono (fun _ hp => hp) fun _ h'' => h''.trans h'

/-- **A row after a cull** has the shape of a row before it, and the frame is as wide as the
last one. -/
theorem cull_shape (p : Predictor σ) (fb : FrameState) (now : ℕ) {r' : Row}
    (h : r' ∈ (p.cull ext fb now).overlays) :
    (p.cull ext fb now).lastWidth = p.lastWidth ∧ ∃ r ∈ p.overlays, r'.shape = r.shape := by
  by_cases hpref : p.displayPreference = .never
  · rw [cull, if_pos hpref] at h ⊢
    exact ⟨rfl, r', h, rfl⟩
  rw [(cull_settled hpref fb now).width]
  have hrows := (@cullRows_shape _ ext) fb now (p.cullStart fb)
  rw [cull_eq hpref] at h
  cases hr : cullRows ext fb now (p.cullStart fb) with
  | error q =>
    rw [hr] at h hrows
    dsimp only [Ends] at h hrows
    rw [hrows] at h
    exact absurd h List.not_mem_nil
  | ok c =>
    rw [hr] at h hrows
    have hmem : r' ∈ c.rows := by
      dsimp only [cullCursors] at h
      split at h
      · exact absurd h List.not_mem_nil
      · exact h
    have hshape : r'.shape ∈ c.rows.map Row.shape := List.mem_map_of_mem hmem
    rw [show c.rows.map Row.shape = _ from hrows] at hshape
    obtain ⟨r, hr, he⟩ := List.mem_map.1 hshape
    obtain ⟨-, -, -, -, -, -, -, -, -, -, hstart, hsize⟩ := cullStart_spec p fb
    rcases hsize with hnil | ⟨-, hwidth⟩
    · rw [hnil] at hr
      exact absurd hr List.not_mem_nil
    · exact ⟨hwidth, r, (hstart r hr).1, he.symm⟩

/-! ### The parser -/

/-- Where the parser is, and the byte it was fed last. -/
def reading (p : Predictor σ) : σ × UInt8 := (p.parser, p.lastByte)

/-- The first cursor reads no byte. -/
theorem reading_initCursor (p : Predictor σ) (fb : FrameState) :
    (p.initCursor fb).reading = p.reading := by
  unfold initCursor
  split
  · rfl
  · split <;> rfl

/-- Nor does a backspace. -/
theorem reading_backspace (p : Predictor σ) (display : FrameState) (now : ℕ) :
    (p.backspace display now).reading = p.reading := by
  unfold backspace
  dsimp only
  split_ifs <;> rfl

/-- Nor does a new line. -/
theorem reading_newlineCarriageReturn (p : Predictor σ) (display : FrameState) (now : ℕ) :
    (p.newlineCarriageReturn display now).reading = p.reading := by
  unfold newlineCarriageReturn
  dsimp only
  split_ifs <;> exact reading_initCursor p display

/-- Nor does a character that is put into a row. -/
theorem reading_insertChar (p : Predictor σ) (ch : Char) (display : FrameState)
    (now rowNum col rightmost oldEpoch : ℕ) :
    (p.insertChar ch display now rowNum col rightmost oldEpoch).reading = p.reading := by
  unfold insertChar
  dsimp only
  split
  · rfl
  · exact reading_newlineCarriageReturn ..

/-- Nor does one that wraps to the next row. -/
theorem reading_predictChar (p : Predictor σ) (ch : Char) (display : FrameState) (now : ℕ) :
    (p.predictChar ch display now).reading = p.reading := by
  unfold predictChar
  dsimp only
  split_ifs
  · rfl
  · rfl
  · exact reading_insertChar p.becomeTentative ..
  · exact reading_insertChar ..

/-- Nor does any character that is typed. -/
theorem reading_handlePrint (p : Predictor σ) (ch : Char) (display : FrameState) (now : ℕ) :
    (p.handlePrint ext ch display now).reading = p.reading := by
  have hinit := reading_initCursor p display
  unfold handlePrint
  dsimp only
  split_ifs
  · exact (reading_backspace ..).trans hinit
  · exact hinit
  · exact (reading_predictChar ..).trans hinit

/-- **An act does not reach the parser.** -/
theorem reading_dispatch (p : Predictor σ) (display : FrameState) (now : ℕ) (act : Act) :
    (p.dispatch ext display now act).reading = p.reading := by
  have hinit := reading_initCursor p display
  cases act with
  | print ch => exact reading_handlePrint ..
  | execute byte =>
    rw [dispatch]
    split
    · exact reading_newlineCarriageReturn ..
    · rfl
  | csi action =>
    rw [dispatch]
    dsimp only
    split_ifs <;> first | exact hinit | rfl
  | esc => rfl

/-- A cell that is culled reads no byte. -/
theorem reading_cullCell (fb : FrameState) (now ri rowNum ci : ℕ) (c : Culling σ) :
    Ends (cullCell ext fb now ri rowNum ci c) (fun p => p.reading = c.self.reading)
      fun c' => c'.self.reading = c.self.reading := by
  unfold cullCell
  split
  · rfl
  · rename_i cell _
    split
    · split <;> rfl
    · unfold confirmCell
      dsimp only
      split <;> rfl
    · rfl
    · obtain ⟨g, hg⟩ := awaitCell_eq c.self now cell
      dsimp only [Ends]
      rw [hg]
      rfl
    · rfl

/-- **Nor does a cull.** -/
theorem reading_cull (p : Predictor σ) (fb : FrameState) (now : ℕ) :
    (p.cull ext fb now).reading = p.reading := by
  by_cases hpref : p.displayPreference = .never
  · rw [cull, if_pos hpref]
  have hstart : (p.cullStart fb).self.reading = p.reading := by
    obtain ⟨s, f, ht⟩ := cullTriggers_eq (p.cullResize fb)
    unfold cullStart
    rw [ht]
    unfold cullResize
    split <;> rfl
  have hcell (ri : ℕ) (row : Row) (ci : ℕ) (c : Culling σ) (hc : c.self.reading = p.reading) :=
    ((@reading_cullCell _ ext) fb now ri row.rowNum ci c).mono (fun _ h => h.trans hc)
      fun _ h => h.trans hc
  have hrows := @forRange_ends _ _ (p.cullStart fb).rows.length (cullRow ext fb now)
    (p.cullStart fb) (fun q => q.reading = p.reading) (fun _ c => c.self.reading = p.reading)
    hstart fun ri c _ hc => by
      unfold cullRow
      split
      · exact hc
      · rename_i row _
        exact forRange_ends (fun _ (c : Culling σ) => c.self.reading = p.reading) hc
          fun ci c _ hc => hcell ri row ci c hc
  rw [cull_eq hpref]
  unfold cullRows
  cases hr : forRange (p.cullStart fb).rows.length (cullRow ext fb now) (p.cullStart fb) with
  | error q =>
    rw [hr] at hrows
    exact hrows
  | ok c =>
    rw [hr] at hrows
    dsimp only
    unfold cullCursors
    split <;> exact hrows

/-- **A byte is what the parser was fed last**, unless it is a delete. -/
theorem reading_feedByte (p : Predictor σ) (b : UInt8) (display : FrameState) (now : ℕ) :
    (p.feedByte ext b display now).reading =
      if b = 0x7f then (p.parser, b) else ((ext.advance p.parser b).1, b) := by
  unfold feedByte
  split
  · exact reading_handlePrint ..
  · exact List.foldlRecOn
      (motive := fun q : Predictor σ => q.reading = ((ext.advance p.parser b).1, b)) _ _ rfl
      fun q hq act _ => (reading_dispatch ..).trans hq

/-- What a byte does to the parser, unless it is translated. -/
theorem reading_newUserByte (hpref : p.displayPreference ≠ .never) {b : UInt8}
    (hb : b = 0x4f → p.lastByte ≠ 0x1b) (display : FrameState) (now : ℕ) :
    (p.newUserByte ext b display now).reading =
      if b = 0x7f then (p.parser, b) else ((ext.advance p.parser b).1, b) := by
  have hcull := (@reading_cull _ ext) p display now
  have hparser : (p.cull ext display now).parser = p.parser := congrArg Prod.fst hcull
  have hlast : (p.cull ext display now).lastByte = p.lastByte := congrArg Prod.snd hcull
  have hbyte : (p.cull ext display now).translate b = b := by
    unfold translate
    rw [hlast, if_neg fun hbad => hb hbad.2 hbad.1]
  rw [newUserByte, if_neg hpref]
  dsimp only
  rw [hbyte, reading_feedByte, hparser]

end Predictor
end Quosh
