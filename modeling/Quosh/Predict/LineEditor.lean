/-
# The predictor as a line editor

`Simulates` relates a predictor to the editor of `Quosh.Predict.Line`: all its cell overlays are
one row, which stands to the text of the editor as `Line` says, and its last cursor is where the
cursor of the editor is.  Each function that a key reaches is a few steps of three kinds, and each
kind keeps the relation: a first cursor (`Simulates.initCursor`), a move of the last one
(`Simulates.moveCursor`), an edit of the row (`Simulates.editRow`).

Without an acknowledgement the cull in front of every byte finds all overlays pending, so it sets
triggers only, and the frame on screen is the confirmed one with the row drawn over it.  What a
byte does follows from what the parser makes of it (`Between.act`), what a script does by
induction on its keys (`Between.script`).
-/

import Quosh.Predict.Line

namespace Quosh

/-- What the predictor relies on in other crates: in its ground state the `vte` parser prints a
printable character, it reads the sequence of an arrow as one act, and both leave it in its ground
state; an escape takes it out of there from any state; a printable character has width 1. -/
structure Externals.Vt {σ : Type} (ext : Externals σ) (ground : σ → Prop) : Prop where
  print : ∀ q, ground q → ∀ b : Printable, (ext.advance q b.1).2 = [.print (charOf b.1)] ∧
    ground (ext.advance q b.1).1
  leaves : ∀ q, ¬ground (ext.advance q 0x1b).1
  escape : ∀ q, ground q → (ext.advance q 0x1b).2 = [] ∧
    (ext.advance (ext.advance q 0x1b).1 0x5b).2 = []
  arrow : ∀ q, ground q → ∀ final : UInt8, final = 0x43 ∨ final = 0x44 →
    (ext.advance (ext.advance (ext.advance q 0x1b).1 0x5b).1 final).2 = [.csi (charOf final)] ∧
      ground (ext.advance (ext.advance (ext.advance q 0x1b).1 0x5b).1 final).1
  width : ∀ b : Printable, ext.charWidth (charOf b.1) = some 1

namespace Predictor

variable {σ : Type} {ext : Externals σ} {p : Predictor σ} {f display : FrameState} {e e' : Editor}
  {d d' : ℕ}

/-! ### The relation -/

/-- A frame whose line can be edited: the cursor is in the grid, and the texts of its row are in
the cells and not linked. -/
structure Editable (f : FrameState) : Prop where
  sized : f.Sized
  row : f.cursorRow < f.rows
  col : f.cursorCol < f.cols
  plain : ∀ col < f.cols, Plain (cellBytes f f.cursorRow col)
  unlinked : ∀ col < f.cols, hasLink f f.cursorRow col = false

/-- The rows are none, over a line that is the reference, or one that stands as `Line` says. -/
def LineRows (f : FrameState) (e : Editor) (d late : ℕ) (rows : List Row) : Prop :=
  (rows = [] ∧ ∀ col < f.cols, e.text col = some (cellText (cellBytes f f.cursorRow col))) ∨
    ∃ cells, rows = [⟨f.cursorRow, cells⟩] ∧ Line f e d late cells

/-- **A predictor that simulates the editor** `e` after `d` deletions. -/
structure Simulates (f : FrameState) (e : Editor) (d : ℕ) (p : Predictor σ) : Prop where
  pref : p.displayPreference ≠ .never
  overwrite : p.predictOverwrite = false
  late : p.localFrameLateAcked ≤ p.localFrameSent
  inside : e.cursor < f.cols
  cursors : ∀ k ∈ p.cursors, k.base.active = true ∧
    p.localFrameLateAcked < k.base.expirationFrame ∧ k.row < f.rows ∧ k.col < f.cols
  cursor : p.cursors ≠ [] → p.cursor.row = f.cursorRow ∧ p.cursor.col = e.cursor
  start : p.cursors = [] → e.cursor = f.cursorCol
  line : LineRows f e d p.localFrameLateAcked p.overlays

/-- The confirmed frame with the predictor drawn over it. -/
structure Displays (f : FrameState) (p : Predictor σ) (display : FrameState) : Prop where
  drawn : Over f display f.cursorRow
    fun col => ∃ c ∈ p.cells, c.base.active = true ∧ c.base.col = col
  start : p.cursors = [] → display.cursorRow = f.cursorRow ∧ display.cursorCol = f.cursorCol

/-- The row that an edit finds or makes. -/
theorem LineRows.getOrMakeRow {late : ℕ} {rows : List Row} (h : LineRows f e d late rows)
    (epoch enters : ℕ) : ∃ cells,
      getOrMakeRow rows f.cursorRow f.cols epoch enters = ([⟨f.cursorRow, cells⟩], 0) ∧
        Line f e d late cells ∧ ∀ c ∈ rows.flatMap Row.cells, c ∈ cells := by
  rcases h with ⟨rfl, htext⟩ | ⟨cells, rfl, hline⟩
  · exact ⟨freshCells f.cols epoch enters, rfl, line_fresh epoch enters htext,
      fun c hc => absurd hc List.not_mem_nil⟩
  · refine ⟨cells, ?_, hline, fun c hc => ?_⟩
    · unfold Quosh.getOrMakeRow
      rw [List.findIdx?_cons, if_pos (decide_eq_true rfl)]
    · rwa [List.flatMap_singleton] at hc

/-- A row that stands so after `d` deletions does after more of them. -/
theorem LineRows.mono {late : ℕ} {rows : List Row} (h : LineRows f e d late rows) (hd : d ≤ d') :
    LineRows f e d' late rows := by
  rcases h with h | ⟨cells, hrows, hline⟩
  · exact .inl h
  · exact .inr ⟨cells, hrows, hline.length, fun i c hc => (hline.column i c hc).same rfl hd⟩

/-- A stored cell is one of the columns. -/
theorem LineRows.column {late : ℕ} {rows : List Row} (h : LineRows f e d late rows)
    {c : CellOverlay} (hc : c ∈ rows.flatMap Row.cells) : ∃ i < f.cols, Column f e d late i c := by
  obtain ⟨cells, -, hline, hmem⟩ := h.getOrMakeRow 0 0
  obtain ⟨i, hi⟩ := List.getElem?_of_mem (hmem c hc)
  exact ⟨i, hline.length ▸ (List.getElem?_eq_some_iff.1 hi).1, hline.column i c hi⟩

/-- A stored row is the row of the cursor. -/
theorem LineRows.rowNum {late : ℕ} {rows : List Row} (h : LineRows f e d late rows) {r : Row}
    (hr : r ∈ rows) : r.rowNum = f.cursorRow := by
  rcases h with ⟨rfl, -⟩ | ⟨cells, rfl, -⟩
  · cases hr
  · rw [List.mem_singleton.1 hr]

/-- **What is on screen**: the confirmed frame with the row drawn over it. -/
theorem Simulates.displays (h : Simulates f e d p) (hf : Editable f) :
    Displays f p (p.apply ext f) where
  drawn := apply_over hf.sized hf.row hf.plain fun c hc => by
    obtain ⟨i, -, hcolumn⟩ := h.line.column hc
    exact hcolumn.plain
  start hc := by
    refine apply_induct (I := fun g => g.cursorRow = f.cursorRow ∧ g.cursorCol = f.cursorCol)
      ⟨rfl, rfl⟩ (fun c _ g row flag hg => ?_) fun k hk _ _ => ?_
    · obtain ⟨-, -, hrow, hcol⟩ := (@CellOverlay.apply_frame _ ext) c g p.confirmedEpoch row flag
      exact ⟨hrow.trans hg.1, hcol.trans hg.2⟩
    · rw [hc] at hk
      cases hk

/-- The cells of the row on screen can be moved. -/
theorem Displays.unsupportedRange (hf : Editable f) (h : Displays f p display) (start : ℕ) :
    unsupportedRange display f.cursorRow start (display.cols - 1) = false := by
  unfold Quosh.unsupportedRange
  split
  · rfl
  · refine List.any_eq_false.2 fun col hcol => ?_
    have hcols := h.drawn.cols
    have hpos := hf.col
    rw [List.mem_range'_1] at hcol
    have hlt : col < f.cols := by omega
    have hlink : hasLink display f.cursorRow col = hasLink f f.cursorRow col := by
      unfold hasLink
      rw [h.drawn.links, hcols]
    have hplain := h.drawn.plain col hlt
    rw [hlink, hf.unlinked col hlt, Bool.or_false]
    unfold cellIsOverflow
    rw [decide_eq_true_iff]
    exact hplain

/-! ### Steps -/

/-- **A first cursor** is where the confirmed one is, which is where the editor has its own
as long as nothing was typed. -/
theorem Simulates.initCursor (h : Simulates f e d p) (hf : Editable f)
    (hd : Displays f p display) : Simulates f e d (p.initCursor display) ∧
      Displays f (p.initCursor display) display ∧ (p.initCursor display).cursors ≠ [] := by
  have hpush {row col : ℕ} (hrow : row = f.cursorRow) (hcol : col = e.cursor) :
      Simulates f e d (p.pushCursor row col) ∧ Displays f (p.pushCursor row col) display ∧
        (p.pushCursor row col).cursors ≠ [] := by
    have hne : (p.pushCursor row col).cursors ≠ [] :=
      List.append_ne_nil_of_right_ne_nil _ (List.cons_ne_nil _ _)
    refine ⟨{ h with
      cursors := fun k hk => ?_
      cursor := fun _ => ?_
      start := fun hc => absurd hc hne }, ⟨hd.drawn, fun hc => absurd hc hne⟩, hne⟩
    · rcases List.mem_append.1 hk with hk | hk
      · exact h.cursors k hk
      · rw [List.mem_singleton.1 hk]
        exact ⟨rfl, Nat.lt_succ_of_le h.late, hrow ▸ hf.row, hcol ▸ h.inside⟩
    · rw [Predictor.cursor, pushCursor, List.getLast?_concat]
      exact ⟨hrow, hcol⟩
  unfold Predictor.initCursor
  split
  · rename_i hnone
    have hnil := List.getLast?_eq_none_iff.1 hnone
    obtain ⟨hrow, hcol⟩ := hd.start hnil
    exact hpush hrow (hcol.trans (h.start hnil).symm)
  · rename_i k hk
    have hne : p.cursors ≠ [] := by
      intro hnil
      rw [hnil] at hk
      cases hk
    have hcursor : p.cursor = k := by rw [Predictor.cursor, hk, Option.getD_some]
    obtain ⟨hrow, hcol⟩ := h.cursor hne
    split
    · exact hpush (hcursor ▸ hrow) (hcursor ▸ hcol)
    · exact ⟨h, hd, hne⟩

/-- **A move of the last cursor**, to where it is in another editor of the same text. -/
theorem Simulates.moveCursor (h : Simulates f e d p) (hc : p.cursors ≠ [])
    {g : CursorOverlay → CursorOverlay} (hactive : (g p.cursor).base.active = true)
    (hexp : p.localFrameLateAcked < (g p.cursor).base.expirationFrame)
    (hrow : (g p.cursor).row = p.cursor.row) {col : ℕ} (hcol : (g p.cursor).col = col)
    (hin : col < f.cols) : Simulates f { e with cursor := col } d (p.modifyCursor g) := by
  obtain ⟨ks, hks, hg⟩ := cursors_modifyCursor hc g
  have hne := modifyCursor_ne_nil hc g
  have hlast := h.cursors _ (cursor_mem hc)
  refine { h with
    inside := hin
    cursors := fun k hk => ?_
    cursor := fun _ => ?_
    start := fun hnil => absurd hnil hne
    line := ?_ }
  · rw [hg] at hk
    rcases List.mem_append.1 hk with hk | hk
    · exact h.cursors k (hks ▸ List.mem_append_left _ hk)
    · rw [List.mem_singleton.1 hk, hrow, hcol]
      exact ⟨hactive, hexp, hlast.2.2.1, hin⟩
  · rw [cursor_modifyCursor hc, hrow, hcol]
    exact ⟨(h.cursor hc).1, rfl⟩
  · rcases h.line with ⟨hrows, htext⟩ | ⟨cells, hrows, hline⟩
    · exact .inl ⟨hrows, htext⟩
    · exact .inr ⟨cells, hrows, hline.moved col⟩

/-- A move of the last cursor that renews its expiration. -/
theorem Simulates.expireCursor (h : Simulates f e d p) (hc : p.cursors ≠ []) (now : ℕ)
    {g : ℕ → ℕ} (hin : g e.cursor < f.cols) :
    Simulates f { e with cursor := g e.cursor } d (p.modifyCursor fun c =>
      { c with col := g c.col, base := c.base.expire (p.localFrameSent + 1) now }) := by
  obtain ⟨hactive, -, -, -⟩ := h.cursors _ (cursor_mem hc)
  exact h.moveCursor hc hactive (Nat.lt_succ_of_le h.late) rfl (congrArg g (h.cursor hc).2) hin

/-- **An edit of the row.** -/
theorem Simulates.editRow (h : Simulates f e d p) (hover : Over f display f.cursorRow
      fun col => ∃ c ∈ p.cells, c.base.active = true ∧ c.base.col = col)
    {g : List CellOverlay → List CellOverlay} (epoch : ℕ)
    (hg : ∀ cells, Line f e d p.localFrameLateAcked cells → Shows f display cells →
      Line f e' d' p.localFrameLateAcked (g cells)) :
    Simulates f { e' with cursor := e.cursor } d'
      (p.modifyRow f.cursorRow display.cols epoch g) := by
  obtain ⟨cells, hmake, hline, hmem⟩ := h.line.getOrMakeRow epoch p.enters
  have hrows : (p.modifyRow f.cursorRow display.cols epoch g).overlays =
      [⟨f.cursorRow, g cells⟩] := by
    unfold modifyRow
    rw [hover.cols, hmake]
    rfl
  exact { h with
    line := .inr ⟨g cells, hrows, (hg cells hline (hline.shows hmem hover)).moved e.cursor⟩ }

/-! ### Bytes -/

/-- What the first lines of `handle_print` check of a printable character. -/
theorem charOf_printable (b : Printable) : charOf b.1 ≠ '\x7f' ∧ ¬charOf b.1 < '\x20' := by
  obtain ⟨b, hlo, hhi⟩ := b
  have hlo : 32 ≤ b.toNat := hlo
  have hhi : b.toNat ≤ 126 := hhi
  have hval : (charOf b).toNat = b.toNat := by
    unfold charOf
    rw [Char.ofNat, dif_pos (.inl (by omega))]
    rfl
  refine ⟨fun heq => ?_, fun hlt => ?_⟩
  · have h127 : b.toNat = 127 := by
      rw [← hval, heq]
      rfl
    omega
  · have hlt : (charOf b).toNat < 32 := hlt
    omega

/-- **A character is typed.**  The cells of the row shift behind the cursor (`Line.insert`),
and the cursor moves on by one; the row does not wrap, as there is room. -/
theorem Simulates.predictChar (h : Simulates f e d p) (hf : Editable f)
    (hd : Displays f p display) (hc : p.cursors ≠ []) (b : Printable)
    (hroom : e.cursor + 1 < f.cols) (now : ℕ) :
    Simulates f (e.press f.cols (.type b)) d (p.predictChar (charOf b.1) display now) := by
  obtain ⟨hrow, hcol⟩ := h.cursor hc
  have hrows := hd.drawn.rows
  have hcols := hd.drawn.cols
  have hin := h.inside
  have hcursor := hf.row
  have hsent : p.localFrameLateAcked < p.localFrameSent + 1 := Nat.lt_succ_of_le h.late
  have hend : p.editEnd display e.cursor = display.cols - 1 := by
    unfold editEnd
    rw [h.overwrite, if_neg Bool.false_ne_true]
  have hedit := h.editRow hd.drawn p.predictionEpoch
    (g := insertCells display f.cursorRow e.cursor (display.cols - 1) (charOf b.1) (p.stampNow now))
    fun cells hline hshows => hline.insert hshows hsent hroom b
  have hexpire := hedit.expireCursor hc now (g := fun col => col) hin
  have hne := modifyCursor_ne_nil (p := p.modifyRow f.cursorRow display.cols p.predictionEpoch
    (insertCells display f.cursorRow e.cursor (display.cols - 1) (charOf b.1) (p.stampNow now))) hc
    fun c => { c with base := c.base.expire (p.localFrameSent + 1) now }
  obtain ⟨hactive, hexp, -, -⟩ := hexpire.cursors _ (cursor_mem hne)
  have hmove := hexpire.moveCursor hne (g := fun c => { c with col := c.col + 1 }) hactive hexp rfl
    (congrArg (· + 1) (hexpire.cursor hne).2) hroom
  unfold Predictor.predictChar
  dsimp only
  rw [hrow, hcol, if_neg (by omega), hend, hd.unsupportedRange hf, if_neg Bool.false_ne_true,
    if_neg (by omega)]
  unfold insertChar
  dsimp only
  rw [if_pos (by omega)]
  exact hmove

/-- **The character in front of the cursor is deleted**, unless the cursor stands at the
first column; the last column is unknown then, so one more may be. -/
theorem Simulates.backspace (h : Simulates f e d p) (hf : Editable f)
    (hd : Displays f p display) (hc : p.cursors ≠ []) (now : ℕ) :
    Simulates f (e.press f.cols .delete) (d + 1) (p.backspace display now) := by
  obtain ⟨hrow, hcol⟩ := h.cursor hc
  have hin := h.inside
  have hsent : p.localFrameLateAcked < p.localFrameSent + 1 := Nat.lt_succ_of_le h.late
  unfold Predictor.backspace
  dsimp only
  rw [hrow, hcol]
  by_cases hzero : e.cursor = 0
  · rw [if_pos hzero, Editor.press, if_pos hzero]
    exact { h with line := h.line.mono (Nat.le_succ d) }
  · have hend : p.editEnd display (e.cursor - 1) = display.cols - 1 := by
      unfold editEnd
      rw [h.overwrite, if_neg Bool.false_ne_true]
    have hmove := h.expireCursor hc now (g := fun _ => e.cursor - 1) (by omega)
    have hedit := hmove.editRow hd.drawn p.predictionEpoch
      (g := backspaceCells display f.cursorRow (e.cursor - 1) p.predictOverwrite (p.stampNow now))
      fun cells hline hshows => by
        rw [h.overwrite]
        exact (hline.moved e.cursor).delete hshows hsent hzero
    have hpress : e.press f.cols .delete =
        { e.press f.cols .delete with cursor := e.cursor - 1 } := by
      rw [Editor.press, if_neg hzero]
    rw [if_neg hzero, hend, hd.unsupportedRange hf, if_neg Bool.false_ne_true, hpress]
    exact hedit

/-- **The cursor is moved by an arrow.** -/
theorem Simulates.arrow (h : Simulates f e d p) (hf : Editable f)
    (hd : Displays f p display) (now : ℕ) :
    Simulates f (e.press f.cols .right) d (p.dispatch ext display now (.csi 'C')) ∧
      Simulates f (e.press f.cols .left) d (p.dispatch ext display now (.csi 'D')) := by
  obtain ⟨hinit, -, hc⟩ := h.initCursor hf hd
  have hcols := hd.drawn.cols
  have hin := h.inside
  have hcol := (hinit.cursor hc).2
  refine ⟨?_, ?_⟩
  · rw [dispatch, if_pos rfl]
    dsimp only
    rw [hcol, Editor.press]
    split
    · rename_i hlt
      rw [if_pos (by omega)]
      exact hinit.expireCursor hc now (g := fun col => col + 1) (by omega)
    · rw [if_neg (by omega)]
      exact hinit
  · rw [dispatch, if_neg (by decide), if_pos rfl]
    dsimp only
    rw [hcol, Editor.press]
    split
    · exact hinit.expireCursor hc now (g := fun col => col - 1) (by omega)
    · rename_i hzero
      have hzero : e.cursor - 1 = e.cursor := by omega
      rw [hzero]
      exact hinit

/-- **A printable character** is typed. -/
theorem Simulates.print (h : Simulates f e d p) (hf : Editable f) (hd : Displays f p display)
    (b : Printable) (hwidth : ext.charWidth (charOf b.1) = some 1) (hroom : e.cursor + 1 < f.cols)
    (now : ℕ) : Simulates f (e.press f.cols (.type b)) d
      (p.handlePrint ext (charOf b.1) display now) := by
  obtain ⟨hinit, hd', hc⟩ := h.initCursor hf hd
  obtain ⟨hdelete, hspace⟩ := charOf_printable b
  unfold handlePrint
  dsimp only
  rw [if_neg hdelete, if_neg fun hbad => hbad.elim hspace fun hne => hne hwidth]
  exact hinit.predictChar hf hd' hc b hroom now

/-- **A delete** deletes. -/
theorem Simulates.delete (h : Simulates f e d p) (hf : Editable f)
    (hd : Displays f p display) (now : ℕ) : Simulates f (e.press f.cols .delete) (d + 1)
      (p.handlePrint ext '\x7f' display now) := by
  obtain ⟨hinit, hd', hc⟩ := h.initCursor hf hd
  unfold handlePrint
  dsimp only
  rw [if_pos rfl]
  exact hinit.backspace hf hd' hc now

/-! ### Between two bytes -/

/-- The simulation between two bytes: the predictor is sized for the frame, or has no overlays
yet. -/
structure Between (f : FrameState) (e : Editor) (d : ℕ) (p : Predictor σ) : Prop
    extends Simulates f e d p where
  size : p.overlays = [] ∧ p.cursors = [] ∨ p.lastHeight = f.rows ∧ p.lastWidth = f.cols

/-- All overlays await a later acknowledgement. -/
theorem Simulates.awaiting (h : Simulates f e d p) (hw : p.lastWidth = f.cols) :
    Awaiting p where
  cell c hc ha := by
    obtain ⟨i, -, hcolumn⟩ := h.line.column hc
    exact hcolumn.pending ha
  col c hc := by
    obtain ⟨i, hi, hcolumn⟩ := h.line.column hc
    rw [hcolumn.col, hw]
    exact hi
  cursor k hk := ⟨(h.cursors k hk).1, (h.cursors k hk).2.1⟩

/-- **The cull in front of a byte** sizes the predictor and sets triggers. -/
theorem Between.cull (h : Between f e d p) (hf : Editable f) (hrows : display.rows = f.rows)
    (hcols : display.cols = f.cols) (now : ℕ) : ∃ n s t g, p.cull ext display now =
      { p with
        lastHeight := f.rows, lastWidth := f.cols, epochs := n, srttTrigger := s, flagging := t
        glitchTrigger := g } := by
  rcases h.size with ⟨hnil, hcursors⟩ | ⟨hh, hw⟩
  · obtain ⟨n, s, t, hcull⟩ := (@cull_of_nil _ ext) h.pref hnil hcursors display now
    refine ⟨n, s, t, p.glitchTrigger, ?_⟩
    rw [hcull, hrows, hcols]
  · have hinside : Inside display.rows display.cols p := by
      refine ⟨fun r hr => ?_, fun k hk => ?_⟩
      · rw [h.line.rowNum hr, hrows]
        exact hf.row
      · rw [hrows, hcols]
        exact (h.cursors k hk).2.2
    obtain ⟨s, t, g, hcull⟩ := (@cull_triggers_of_inside _ ext) now h.pref (h.awaiting hw)
      (hh.trans hrows.symm) (hw.trans hcols.symm) hinside
    refine ⟨p.epochs, s, t, g, ?_⟩
    rw [hcull, ← hh, ← hw]

/-- **A byte** does what is fed, whatever the cull in front of it did: between two frames a
cull changes nothing that the simulation speaks of. -/
theorem Between.newUserByte (h : Between f e d p) (hf : Editable f) (now : ℕ) {b : UInt8}
    (hb : b = 0x4f → p.lastByte ≠ 0x1b)
    (hfeed : ∀ p' : Predictor σ, p'.parser = p.parser → Simulates f e d p' →
      Displays f p' (p.apply ext f) →
      Simulates f e' d' (p'.feedByte ext b (p.apply ext f) now)) :
    Between f e' d' (p.newUserByte ext b (p.apply ext f) now) := by
  have hd := (@Simulates.displays _ ext) h.toSimulates hf
  obtain ⟨n, s, t, g, hcull⟩ := (@Between.cull _ ext) h hf hd.drawn.rows hd.drawn.cols now
  have hsim : Simulates f e d (p.cull ext (p.apply ext f) now) := by
    rw [hcull]
    exact { h.toSimulates with }
  have hdisplays : Displays f (p.cull ext (p.apply ext f) now) (p.apply ext f) := by
    rw [hcull]
    exact ⟨hd.drawn, hd.start⟩
  have hparser : (p.cull ext (p.apply ext f) now).parser = p.parser := by rw [hcull]
  have hbyte : (p.cull ext (p.apply ext f) now).translate b = b := by
    unfold translate
    rw [hcull, if_neg fun hbad => hb hbad.2 hbad.1]
  have hkeeps := (@feedByte_keeps _ ext) (p.cull ext (p.apply ext f) now) b (p.apply ext f) now
  rw [Predictor.newUserByte, if_neg h.pref]
  dsimp only
  rw [hbyte]
  refine ⟨hfeed _ hparser hsim hdisplays,
    .inr ⟨hkeeps.lastHeight.trans ?_, hkeeps.lastWidth.trans ?_⟩⟩
  · rw [hcull]
  · rw [hcull]

/-- A byte that the parser keeps to itself. -/
theorem Between.quiet (h : Between f e d p) (hf : Editable f) (now : ℕ) {b : UInt8}
    (hb : b ≠ 0x4f) (hdelete : b ≠ 0x7f) (hacts : (ext.advance p.parser b).2 = []) :
    Between f e d (p.newUserByte ext b (p.apply ext f) now) := by
  refine h.newUserByte hf now (fun he => absurd he hb) fun p' hparser hsim _ => ?_
  unfold feedByte
  dsimp only
  rw [if_neg hdelete, hparser, hacts]
  exact { hsim with }

/-- A byte that the parser reads as one act. -/
theorem Between.act (h : Between f e d p) (hf : Editable f) (now : ℕ) {b : UInt8} {act : Act}
    (hb : b = 0x4f → p.lastByte ≠ 0x1b) (hdelete : b ≠ 0x7f)
    (hacts : (ext.advance p.parser b).2 = [act])
    (hact : ∀ (p' : Predictor σ) (display : FrameState), Simulates f e d p' →
      Displays f p' display → Simulates f e' d' (p'.dispatch ext display now act)) :
    Between f e' d' (p.newUserByte ext b (p.apply ext f) now) := by
  refine h.newUserByte hf now hb fun p' hparser hsim hd => ?_
  unfold feedByte
  dsimp only
  rw [if_neg hdelete, hparser, hacts]
  exact hact _ _ { hsim with } ⟨hd.drawn, hd.start⟩

/-! ### Scripts -/

/-- Bytes fed at some times, each against the confirmed frame with the predictor applied. -/
def feedBytes (ext : Externals σ) (f : FrameState) (p : Predictor σ) (bs : List (UInt8 × ℕ)) :
    Predictor σ :=
  bs.foldl (fun p b => p.newUserByte ext b.1 (p.apply ext f) b.2) p

/-- Keys in front of others. -/
theorem feedBytes_append (bs bs' : List (UInt8 × ℕ)) :
    p.feedBytes ext f (bs ++ bs') = (p.feedBytes ext f bs).feedBytes ext f bs' :=
  List.foldl_append

/-- The keys of a script that its first `n` bytes complete. -/
def completed : List Key → ℕ → List Key
  | [], _ => []
  | k :: ks, n => if k.bytes.length ≤ n then k :: completed ks (n - k.bytes.length) else []

/-- The parser is in its ground state, and no escape is in front of the next byte. -/
structure AtGround (ground : σ → Prop) (p : Predictor σ) : Prop where
  parser : ground p.parser
  lastByte : p.lastByte ≠ 0x1b

/-- Where the parser is after a byte that is not a delete. -/
theorem Between.atGround {ground : σ → Prop} (h : Between f e d p) {b : UInt8}
    (hb : b = 0x4f → p.lastByte ≠ 0x1b) (hdelete : b ≠ 0x7f) (hescape : b ≠ 0x1b)
    (hground : ground (ext.advance p.parser b).1) (display : FrameState) (now : ℕ) :
    AtGround ground (p.newUserByte ext b display now) := by
  have hreading := (@reading_newUserByte _ ext) h.pref hb display now
  rw [if_neg hdelete] at hreading
  exact ⟨(congrArg (fun r => ground r.1) hreading).mpr hground,
    (congrArg (fun r => r.2 ≠ 0x1b) hreading).mpr hescape⟩

section Script

variable {ground : σ → Prop} (hvt : ext.Vt ground) (hf : Editable f)

include hvt hf

/-- **The bytes that open an arrow** leave all as it was. -/
theorem Between.opening (h : Between f e d p) (hq : ground p.parser) (now now' : ℕ) :
    Between f e d (p.feedBytes ext f [(0x1b, now)]) ∧
      Between f e d (p.feedBytes ext f [(0x1b, now), (0x5b, now')]) ∧
      (p.feedBytes ext f [(0x1b, now), (0x5b, now')]).parser =
        (ext.advance (ext.advance p.parser 0x1b).1 0x5b).1 := by
  obtain ⟨hescape, hbracket⟩ := hvt.escape _ hq
  have hfirst := h.quiet hf now (by decide) (by decide) hescape
  have hparser := congrArg Prod.fst
    ((@reading_newUserByte _ ext _ h.pref 0x1b) (fun he => absurd he (by decide))
      (p.apply ext f) now)
  have hparser : (p.newUserByte ext 0x1b (p.apply ext f) now).parser =
    (ext.advance p.parser 0x1b).1 := hparser
  rw [← hparser] at hbracket ⊢
  have hsecond := hfirst.quiet hf now' (by decide) (by decide) hbracket
  have hparser' := congrArg Prod.fst
    ((@reading_newUserByte _ ext _ hfirst.pref 0x5b) (fun he => absurd he (by decide))
      ((p.newUserByte ext 0x1b (p.apply ext f) now).apply ext f) now')
  exact ⟨hfirst, hsecond, hparser'⟩

/-- An arrow does what its act does. -/
theorem Between.arrowKey (h : Between f e d p) (hq : ground p.parser) {final : UInt8}
    (hfinal : final = 0x43 ∨ final = 0x44)
    (hact : ∀ (p' : Predictor σ) (display : FrameState) (now : ℕ), Simulates f e d p' →
      Displays f p' display →
      Simulates f e' d' (p'.dispatch ext display now (.csi (charOf final))))
    {bs : List (UInt8 × ℕ)} (hbs : bs.map Prod.fst = [0x1b, 0x5b, final]) :
    AtGround ground (p.feedBytes ext f bs) ∧ Between f e' d' (p.feedBytes ext f bs) := by
  obtain ⟨⟨b₀, t₀⟩, bs₀, rfl, rfl, hbs₀⟩ := List.map_eq_cons_iff.1 hbs
  obtain ⟨⟨b₁, t₁⟩, bs₁, rfl, rfl, hbs₁⟩ := List.map_eq_cons_iff.1 hbs₀
  obtain ⟨⟨b₂, t₂⟩, rfl, rfl⟩ := List.map_eq_singleton_iff.1 hbs₁
  obtain ⟨-, hopen, hparser⟩ := h.opening hvt hf hq t₀ t₁
  obtain ⟨hacts, hground⟩ := hvt.arrow _ hq b₂ hfinal
  rw [← hparser] at hacts hground
  have hbyte : b₂ ≠ 0x1b ∧ b₂ ≠ 0x4f ∧ b₂ ≠ 0x7f := by
    rcases hfinal with rfl | rfl <;> decide
  obtain ⟨hescape, hletter, hdelete⟩ := hbyte
  exact ⟨hopen.atGround (fun he => absurd he hletter) hdelete hescape hground _ t₂,
    hopen.act hf t₂ (fun he => absurd he hletter) hdelete hacts fun p' display =>
      hact p' display t₂⟩

/-- **A whole key** is a key of the editor.  A character and a delete are one byte each; an
arrow is three, and only the last of them acts (`arrowKey`). -/
theorem Between.key (h : Between f e d p) (hp : AtGround ground p) (k : Key)
    (hroom : ∀ b, k = .type b → e.cursor + 1 < f.cols) {bs : List (UInt8 × ℕ)}
    (hbs : bs.map Prod.fst = k.bytes) : AtGround ground (p.feedBytes ext f bs) ∧
      Between f (e.press f.cols k) (d + [k].count .delete) (p.feedBytes ext f bs) := by
  cases k with
  | type b =>
    obtain ⟨⟨b₀, now⟩, rfl, hb₀⟩ := List.map_eq_singleton_iff.1 hbs
    obtain rfl : b₀ = b.1 := hb₀
    obtain ⟨hacts, hground⟩ := hvt.print _ hp.parser b
    have hbyte : b.1 ≠ 0x1b ∧ b.1 ≠ 0x7f := by
      obtain ⟨b, hlo, hhi⟩ := b
      refine ⟨?_, ?_⟩
      · rintro rfl
        exact absurd hlo (by decide)
      · rintro rfl
        exact absurd hhi (by decide)
    exact ⟨h.atGround (fun _ => hp.lastByte) hbyte.2 hbyte.1 hground _ now,
      h.act hf now (fun _ => hp.lastByte) hbyte.2 hacts fun p' _ hsim hd =>
        hsim.print hf hd b (hvt.width b) (hroom b rfl) now⟩
  | delete =>
    obtain ⟨⟨b₀, now⟩, rfl, rfl⟩ := List.map_eq_singleton_iff.1 hbs
    have hreading := (@reading_newUserByte _ ext _ h.pref 0x7f) (fun _ => hp.lastByte)
      (p.apply ext f) now
    rw [if_pos rfl] at hreading
    refine ⟨⟨(congrArg (fun r => ground r.1) hreading).mpr hp.parser,
      (congrArg (fun r => r.2 ≠ 0x1b) hreading).mpr (by decide : (0x7f : UInt8) ≠ 0x1b)⟩,
      h.newUserByte hf now (fun _ => hp.lastByte) fun p' _ hsim hd => ?_⟩
    unfold feedByte
    rw [if_pos rfl]
    exact Simulates.delete (p := { p' with lastByte := 0x7f }) { hsim with } hf
      ⟨hd.drawn, hd.start⟩ now
  | right =>
    exact h.arrowKey hvt hf hp.parser (.inl rfl)
      (fun p' _ now hsim hd => (hsim.arrow hf hd now).1) hbs
  | left =>
    exact h.arrowKey hvt hf hp.parser (.inr rfl)
      (fun p' _ now hsim hd => (hsim.arrow hf hd now).2) hbs

/-- **The first bytes of a key** do nothing yet. -/
theorem Between.keyPrefix (h : Between f e d p) (hp : AtGround ground p) (k : Key)
    {bs : List (UInt8 × ℕ)} (hbs : bs.map Prod.fst <+: k.bytes)
    (hlen : bs.length < k.bytes.length) : Between f e d (p.feedBytes ext f bs) := by
  have harrow {final : UInt8} (hbs : bs.map Prod.fst <+: [0x1b, 0x5b, final])
      (hlen : bs.length < 3) : Between f e d (p.feedBytes ext f bs) := by
    rcases bs with _ | ⟨⟨b₀, t₀⟩, _ | ⟨⟨b₁, t₁⟩, _ | ⟨b₂, bs⟩⟩⟩
    · exact h
    · simp only [List.map_cons, List.cons_prefix_cons] at hbs
      obtain ⟨rfl, -⟩ := hbs
      exact (h.opening hvt hf hp.parser t₀ 0).1
    · simp only [List.map_cons, List.cons_prefix_cons] at hbs
      obtain ⟨rfl, rfl, -⟩ := hbs
      exact (h.opening hvt hf hp.parser t₀ t₁).2.1
    · simp only [List.length_cons] at hlen
      omega
  have hsingle (hlen : bs.length < 1) : Between f e d (p.feedBytes ext f bs) := by
    obtain rfl : bs = [] := List.length_eq_zero_iff.1 (by omega)
    exact h
  cases k with
  | type b => exact hsingle hlen
  | delete => exact hsingle hlen
  | right => exact harrow hbs hlen
  | left => exact harrow hbs hlen

/-- **After every byte of a script** the predictor simulates the editor that pressed the keys
completed so far. -/
theorem Between.script {ks : List Key} {bs : List (UInt8 × ℕ)} (h : Between f e d p)
    (hp : AtGround ground p) (hroom : e.Room f.cols ks)
    (hbs : bs.map Prod.fst <+: ks.flatMap Key.bytes) :
    Between f (e.presses f.cols (completed ks bs.length))
      (d + (completed ks bs.length).count .delete) (p.feedBytes ext f bs) := by
  induction ks generalizing e d p bs with
  | nil =>
    obtain rfl : bs = [] := List.map_eq_nil_iff.1 (List.prefix_nil.1 hbs)
    exact h
  | cons k ks ih =>
    rw [List.flatMap_cons] at hbs
    have hkey := List.prefix_append k.bytes (ks.flatMap Key.bytes)
    rw [completed]
    split
    · rename_i hlen
      obtain ⟨rest, hrest⟩ := List.prefix_of_prefix_length_le hkey hbs (by simpa using hlen)
      obtain ⟨bs₁, bs₂, rfl, hbs₁, hbs₂⟩ := List.map_eq_append_iff.1 hrest.symm
      obtain ⟨hp₁, h₁⟩ := h.key hvt hf hp k hroom.1 hbs₁
      rw [← hrest, List.prefix_append_right_inj, ← hbs₂] at hbs
      have h₂ := ih h₁ hp₁ hroom.2 hbs
      have hcount : k.bytes.length = bs₁.length := by rw [← hbs₁, List.length_map]
      rw [List.length_append, hcount, Nat.add_sub_cancel_left, feedBytes_append,
        ← List.singleton_append, List.count_append, ← Nat.add_assoc]
      exact h₂
    · rename_i hlen
      have hshort : bs.length < k.bytes.length := not_le.1 hlen
      refine h.keyPrefix hvt hf hp k ?_ hshort
      exact List.prefix_of_prefix_length_le hbs hkey (by simpa using hshort.le)

end Script

/-! ### The reference -/

/-- **What the predictor says about the row, against the reference** after `d` deletions: the
newest cursor is the reference cursor; a cell that is shown has the reference text where that is
defined; the confirmed text of a column without an active cell is the reference text; and only
the last `d + 1` columns are unknown. -/
structure Agrees (f : FrameState) (e : Editor) (d : ℕ) (p : Predictor σ) : Prop where
  cursor : ∀ k, p.cursors.getLast? = some k → k.row = f.cursorRow ∧ k.col = e.cursor
  known : ∀ r ∈ p.overlays, r.rowNum = f.cursorRow → ∀ c ∈ r.cells, c.base.active = true →
    c.unknown = false → ∀ t, e.text c.base.col = some t → cellText c.replacement = t
  inactive : ∀ col < f.cols, (∀ r ∈ p.overlays, r.rowNum = f.cursorRow → ∀ c ∈ r.cells,
    c.base.col = col → c.base.active = false) →
      e.text col = some (cellText (cellBytes f f.cursorRow col))
  unknown : ∀ r ∈ p.overlays, r.rowNum = f.cursorRow → ∀ c ∈ r.cells, c.base.active = true →
    c.unknown = true → f.cols ≤ c.base.col + (d + 1)

/-- **A predictor that simulates the editor agrees with it.** -/
theorem Simulates.agrees (h : Simulates f e d p) : Agrees f e d p where
  cursor k hk := by
    have hcursor : p.cursor = k := by rw [Predictor.cursor, hk, Option.getD_some]
    have hne : p.cursors ≠ [] := List.ne_nil_of_mem (List.mem_of_getLast? hk)
    exact hcursor ▸ h.cursor hne
  known r hr _ c hc ha hu t ht := by
    obtain ⟨i, -, hcolumn⟩ := h.line.column (List.mem_flatMap.2 ⟨r, hr, hc⟩)
    exact hcolumn.known ha hu t (hcolumn.col ▸ ht)
  inactive col hcol hnone := by
    rcases h.line with ⟨-, htext⟩ | ⟨cells, hrows, hline⟩
    · exact htext col hcol
    · have hlt : col < cells.length := hline.length.symm ▸ hcol
      have hget : cells[col]? = some cells[col] := List.getElem?_eq_getElem hlt
      have hcolumn := hline.column col _ hget
      refine hcolumn.inactive (hnone ⟨f.cursorRow, cells⟩ ?_ rfl _ (List.mem_of_getElem? hget)
        hcolumn.col)
      rw [hrows]
      exact List.mem_singleton_self _
  unknown r hr _ c hc ha hu := by
    obtain ⟨i, -, hcolumn⟩ := h.line.column (List.mem_flatMap.2 ⟨r, hr, hc⟩)
    have hlast := hcolumn.unknown ha hu
    have hcol := hcolumn.col
    omega

/-- A predictor that has predicted nothing yet: no overlays, the parser in its ground state,
inserting, and shown. -/
structure Unused (ground : σ → Prop) (p : Predictor σ) : Prop where
  overlays : p.overlays = []
  cursors : p.cursors = []
  parser : ground p.parser
  overwrite : p.predictOverwrite = false
  late : p.localFrameLateAcked ≤ p.localFrameSent
  pref : p.displayPreference ≠ .never

/-- Without overlays the confirmed line is the reference. -/
theorem Unused.between {ground : σ → Prop} (hp : Unused ground p) (hf : Editable f) :
    Between f (Editor.of f) 0 p where
  pref := hp.pref
  overwrite := hp.overwrite
  late := hp.late
  inside := hf.col
  cursors k hk := by
    rw [hp.cursors] at hk
    cases hk
  cursor hne := absurd hp.cursors hne
  start _ := rfl
  line := .inl ⟨hp.overlays, fun col hcol => if_pos hcol⟩
  size := .inl ⟨hp.overlays, hp.cursors⟩

/-- **The byte behind an escape** finds the parser out of its ground state, whatever was
called. -/
theorem calls_escape {ground : σ → Prop} (hvt : ext.Vt ground) (cs : List Call) :
    ((new ext).calls ext cs).lastByte = 0x1b → ¬ground ((new ext).calls ext cs).parser := by
  refine List.foldlRecOn (motive := fun q : Predictor σ => q.lastByte = 0x1b → ¬ground q.parser)
    _ _ (fun he => absurd he (by decide : (0 : UInt8) ≠ 0x1b)) fun q hq k _ => ?_
  cases k with
  | newUserByte byte display now =>
    rw [call, newUserByte]
    split
    · exact hq
    · have hreading := (@reading_feedByte _ ext) (q.cull ext display now)
        ((q.cull ext display now).translate byte) display now
      intro hlast
      have hbyte : (q.cull ext display now).translate byte = 0x1b := by
        refine Eq.trans ?_ hlast
        refine Eq.trans ?_ (congrArg Prod.snd hreading).symm
        split <;> rfl
      rw [hbyte, if_neg (by decide)] at hreading
      dsimp only
      rw [hbyte]
      exact (congrArg (fun r => ¬ground r.1) hreading).mpr (hvt.leaves _)
  | cull fb now =>
    have hreading := (@reading_cull _ ext) q fb now
    have hparser : (q.cull ext fb now).parser = q.parser := congrArg Prod.fst hreading
    have hlast : (q.cull ext fb now).lastByte = q.lastByte := congrArg Prod.snd hreading
    rw [call, hparser, hlast]
    exact hq
  | _ => exact hq

/-- **Within a row the predictor is an insert-mode line editor.**  After every byte of a script
that types no character at the last column, it agrees with the reference editor that pressed the
keys completed so far. -/
theorem simulates_line_editor {ground : σ → Prop} (hvt : ext.Vt ground) (hf : Editable f)
    {cs : List Call} (hp : Unused ground ((new ext).calls ext cs)) {ks : List Key}
    (hroom : (Editor.of f).Room f.cols ks) {bs : List (UInt8 × ℕ)}
    (hbs : bs.map Prod.fst <+: ks.flatMap Key.bytes) :
    Agrees f ((Editor.of f).presses f.cols (completed ks bs.length))
      ((completed ks bs.length).count .delete)
      (((new ext).calls ext cs).feedBytes ext f bs) := by
  have hground : AtGround ground ((new ext).calls ext cs) :=
    ⟨hp.parser, fun hlast => calls_escape hvt cs hlast hp.parser⟩
  have h := (hp.between hf).script hvt hf hground hroom hbs
  rw [Nat.zero_add] at h
  exact h.agrees

/-! ### A script -/

/-- Where a parser of printable characters and arrows is. -/
inductive EscapeState where
  | ground
  | escape
  | csi
  deriving DecidableEq

/-- A parser of printable characters and arrows. -/
def arrowExternals : Externals EscapeState where
  parserNew := .ground
  advance
    | .ground, b =>
      if b = 0x1b then (.escape, [])
      else (.ground, [if b < 0x20 then .execute b else .print (charOf b)])
    | .escape, b =>
      if b = 0x1b then (.escape, [])
      else if b = 0x5b then (.csi, [])
      else (.ground, [.esc])
    | .csi, b =>
      if b = 0x1b then (.escape, [])
      else if 0x40 ≤ b then (.ground, [.csi (charOf b)])
      else (.csi, [])
  charWidth _ := some 1
  cellContent fb row col := cellText (cellBytes fb row col)

/-- The parser of the test reads arrows. -/
theorem vt_arrowExternals : arrowExternals.Vt (· = .ground) where
  print q hq b := by
    subst hq
    obtain ⟨b, hlo, hhi⟩ := b
    have hescape : b ≠ 0x1b := by
      rintro rfl
      exact absurd hlo (by decide)
    simp only [arrowExternals]
    rw [if_neg hescape, if_neg (UInt8.not_lt.2 hlo)]
    exact ⟨rfl, rfl⟩
  leaves q := by
    cases q <;> nofun
  escape q hq := by
    subst hq
    exact ⟨rfl, rfl⟩
  arrow q hq final hfinal := by
    subst hq
    rcases hfinal with rfl | rfl <;> exact ⟨rfl, rfl⟩
  width _ := rfl

/-- The frame of the test can be edited. -/
theorem editable_markedFrame : Editable (markedFrame (charBytes 0x78) 1) where
  sized := rfl
  row := by decide
  col := by decide
  plain col hcol := by
    have hcol : col < 4 := hcol
    unfold Plain
    interval_cases col <;> decide
  unlinked col _ := rfl

/-- Two characters with an arrow between them, and a delete. -/
def editKeys : List Key :=
  [.type ⟨0x61, by decide⟩, .left, .type ⟨0x62, by decide⟩, .delete]

/-- The bytes of these keys, and when they are fed. -/
def editBytes : List (UInt8 × ℕ) :=
  [(0x61, 0), (0x1b, 7), (0x5b, 7), (0x44, 7), (0x62, 9), (0x7f, 12)]

/-- The hypotheses of `simulates_line_editor` are satisfiable: all bytes of the keys. -/
theorem simulates_line_editor_edit :
    Agrees (markedFrame (charBytes 0x78) 1)
      ((Editor.of (markedFrame (charBytes 0x78) 1)).presses 4
        (completed editKeys editBytes.length))
      ((completed editKeys editBytes.length).count .delete)
      (feedBytes arrowExternals (markedFrame (charBytes 0x78) 1)
        ((new arrowExternals).calls arrowExternals [.setDisplayPreference .always]) editBytes) :=
  have hroom : (Editor.of (markedFrame (charBytes 0x78) 1)).Room 4 editKeys :=
    ⟨fun _ _ => by decide, nofun, fun _ _ => by decide, nofun, trivial⟩
  simulates_line_editor vt_arrowExternals editable_markedFrame
    ⟨rfl, rfl, rfl, rfl, le_rfl, by decide⟩ hroom (by decide)

/-- **A predictor that is never shown predicts nothing**: a character was typed, and the column
it went to has no active cell and the confirmed text. -/
theorem never_simulates : Editable (markedFrame (charBytes 0x78) 1) ∧
    (Editor.of (markedFrame (charBytes 0x78) 1)).Room 4 [.type ⟨0x61, by decide⟩] ∧
    ¬Agrees (markedFrame (charBytes 0x78) 1)
      ((Editor.of (markedFrame (charBytes 0x78) 1)).presses 4
        (completed [.type ⟨0x61, by decide⟩] 1))
      ((completed [.type ⟨0x61, by decide⟩] 1).count .delete)
      (feedBytes arrowExternals (markedFrame (charBytes 0x78) 1)
        ((new arrowExternals).calls arrowExternals [.setDisplayPreference .never])
        [(0x61, 0)]) := by
  refine ⟨editable_markedFrame, ⟨fun _ _ => by decide, trivial⟩, fun h => ?_⟩
  have hcolumn := h.inactive 1 (by decide) fun r hr => absurd hr List.not_mem_nil
  exact absurd hcolumn (by decide +kernel)

end Predictor
end Quosh
