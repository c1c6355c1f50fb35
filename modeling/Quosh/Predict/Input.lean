/-
# What input does to the overlays

Everything `Predictor::new_user_byte` does after its cull: `handle_print`,
`backspace`, `predict_char`, `newline_carriage_return` and the arrows.  Each of
them is a few edits, and an edit leaves an overlay alone or stamps it with the
epoch of the moment and the frame about to be sent.

`Evolves w p p'` says that once: a live base of `p'` is a live base of `p`, whose
stamp it keeps, or fresh, and nothing else of the predictor changes.  It is a
preorder (`Evolves.refl`, `Evolves.trans`), the edits satisfy it, and so does
every function of the source that is made of them, up to the acts of the parser
(`dispatch_evolves`).  A carriage return is the one act that opens a new count
(`enter`), and after that it evolves too.

Separately, input keeps the cursors inside the frame it looks at, if that frame's
own cursor is (`CursorsInside`).
-/

import Quosh.Predict.Predictor
import Mathlib.Data.List.Induction
import Mathlib.Data.List.ModifyLast

namespace Quosh

/-- An entry of a list that was modified in one place. -/
theorem mem_of_mem_modify {α : Type} {l : List α} {i : ℕ} {f : α → α} {x : α}
    (h : x ∈ l.modify i f) : x ∈ l ∨ ∃ y ∈ l, x = f y := by
  induction l generalizing i with
  | nil => simp at h
  | cons a l ih =>
    cases i with
    | zero =>
      rw [List.modify_zero_cons] at h
      rcases List.mem_cons.1 h with rfl | h
      · exact .inr ⟨a, List.mem_cons_self .., rfl⟩
      · exact .inl (List.mem_cons_of_mem _ h)
    | succ i =>
      rw [List.modify_succ_cons] at h
      rcases List.mem_cons.1 h with rfl | h
      · exact .inl (List.mem_cons_self ..)
      · refine (ih h).imp (List.mem_cons_of_mem _) fun ⟨y, hy, e⟩ => ?_
        exact ⟨y, List.mem_cons_of_mem _ hy, e⟩

/-- An entry of a list whose last one was modified. -/
theorem mem_of_mem_modifyLast {α : Type} {l : List α} {f : α → α} {x : α}
    (h : x ∈ l.modifyLast f) : x ∈ l ∨ ∃ y, l.getLast? = some y ∧ x = f y := by
  induction l using List.reverseRecOn with
  | nil => simp [List.modifyLast, List.modifyLast.go] at h
  | append_singleton l a _ =>
    rw [List.modifyLast_concat, List.mem_append, List.mem_singleton] at h
    rcases h with h | rfl
    · exact .inl (List.mem_append_left _ h)
    · exact .inr ⟨a, List.getLast?_concat, rfl⟩

namespace Predictor

variable {σ : Type} {ext : Externals σ} {p p' p'' : Predictor σ}

/-- The cell overlays of all rows. -/
def cells (p : Predictor σ) : List CellOverlay := p.overlays.flatMap Row.cells

/-! ### The last cursor -/

/-- With any cursor, `cursor` is the last one. -/
theorem exists_cursors (hc : p.cursors ≠ []) : ∃ ks, p.cursors = ks ++ [p.cursor] := by
  obtain ⟨ks, k, hks⟩ := (List.eq_nil_or_concat' p.cursors).resolve_left hc
  refine ⟨ks, ?_⟩
  rw [Predictor.cursor, hks, List.getLast?_concat]
  rfl

/-- The predicted cursor is the last of them. -/
theorem cursor_mem (hc : p.cursors ≠ []) : p.cursor ∈ p.cursors := by
  obtain ⟨ks, hks⟩ := exists_cursors hc
  rw [hks]
  exact List.mem_append_right _ (List.mem_singleton_self _)

/-- Only the last cursor is modified. -/
theorem cursors_modifyCursor (hc : p.cursors ≠ []) (f : CursorOverlay → CursorOverlay) :
    ∃ ks, p.cursors = ks ++ [p.cursor] ∧ (p.modifyCursor f).cursors = ks ++ [f p.cursor] := by
  obtain ⟨ks, hks⟩ := exists_cursors hc
  refine ⟨ks, hks, ?_⟩
  unfold Predictor.modifyCursor
  dsimp only
  rw [hks, List.modifyLast_concat]

/-- A modified cursor is still there. -/
theorem modifyCursor_ne_nil (hc : p.cursors ≠ []) (f : CursorOverlay → CursorOverlay) :
    (p.modifyCursor f).cursors ≠ [] := by
  obtain ⟨ks, -, hks⟩ := cursors_modifyCursor hc f
  rw [hks]
  exact List.append_ne_nil_of_right_ne_nil _ (List.cons_ne_nil _ _)

/-- The predicted cursor is the one that was modified. -/
theorem cursor_modifyCursor (hc : p.cursors ≠ []) (f : CursorOverlay → CursorOverlay) :
    (p.modifyCursor f).cursor = f p.cursor := by
  obtain ⟨ks, -, hks⟩ := cursors_modifyCursor hc f
  rw [Predictor.cursor, hks, List.getLast?_concat]
  rfl

/-! ### Fresh and inherited stamps -/

/-- A live base stamped between two moments: with the next frame, the count of
carriage returns, and an epoch that was current in between. -/
structure Fresh (p p' : Predictor σ) (b : Base) : Prop where
  active : b.active = true
  exp : b.expirationFrame = p.localFrameSent + 1
  enters : b.enters = p.enters
  epoch : ∃ n, p.epochs ≤ n ∧ n ≤ p'.epochs ∧ b.tentativeUntilEpoch = n % 2 ^ 64

/-- A base that keeps the stamp of another; its expiration may be renewed. -/
structure Inherits (p : Predictor σ) (b b' : Base) : Prop where
  active : b'.active = b.active
  epoch : b'.tentativeUntilEpoch = b.tentativeUntilEpoch
  enters : b'.enters = b.enters
  exp : b'.expirationFrame = b.expirationFrame ∨ b'.expirationFrame = p.localFrameSent + 1

/-- **What an edit by input can do**, on a frame of width `w`. -/
structure Evolves (w : ℕ) (p p' : Predictor σ) : Prop where
  sent : p'.localFrameSent = p.localFrameSent
  late : p'.localFrameLateAcked = p.localFrameLateAcked
  pref : p'.displayPreference = p.displayPreference
  enters : p'.enters = p.enters
  confirmedEpoch : p'.confirmedEpoch = p.confirmedEpoch
  confirmedEnters : p'.confirmedEnters = p.confirmedEnters
  lastHeight : p'.lastHeight = p.lastHeight
  lastWidth : p'.lastWidth = p.lastWidth
  epochs : p.epochs ≤ p'.epochs
  cell : ∀ c' ∈ p'.cells, c'.base.active = true →
    (∃ c ∈ p.cells, c'.base = c.base) ∨ Fresh p p' c'.base
  col : ∀ c' ∈ p'.cells, (∃ c ∈ p.cells, c'.base.col = c.base.col) ∨ c'.base.col < w
  cursor : ∀ k' ∈ p'.cursors, (∃ k ∈ p.cursors, Inherits p k.base k'.base) ∨ Fresh p p' k'.base

theorem Evolves.refl (w : ℕ) (p : Predictor σ) : Evolves w p p where
  sent := rfl
  late := rfl
  pref := rfl
  enters := rfl
  confirmedEpoch := rfl
  confirmedEnters := rfl
  lastHeight := rfl
  lastWidth := rfl
  epochs := le_rfl
  cell c hc _ := .inl ⟨c, hc, rfl⟩
  col c hc := .inl ⟨c, hc, rfl⟩
  cursor k hk := .inl ⟨k, hk, rfl, rfl, rfl, .inl rfl⟩

/-- What is fresh between two moments is fresh between moments around them. -/
theorem Fresh.widen {b : Base} {q q' : Predictor σ} (h : Fresh p p' b)
    (hsent : p.localFrameSent = q.localFrameSent) (henters : p.enters = q.enters)
    (hlo : q.epochs ≤ p.epochs) (hhi : p'.epochs ≤ q'.epochs) : Fresh q q' b where
  active := h.active
  exp := hsent ▸ h.exp
  enters := henters ▸ h.enters
  epoch := by
    obtain ⟨n, h₁, h₂, h₃⟩ := h.epoch
    exact ⟨n, hlo.trans h₁, h₂.trans hhi, h₃⟩

/-- **Edits compose.**  A cell of the last predictor is one of the first, or fresh from one
of the two edits; the stamps of the second are as fresh for the first, since numbers and
epochs rise. -/
theorem Evolves.trans {w : ℕ} (h : Evolves w p p') (h' : Evolves w p' p'') : Evolves w p p'' where
  sent := h'.sent.trans h.sent
  late := h'.late.trans h.late
  pref := h'.pref.trans h.pref
  enters := h'.enters.trans h.enters
  confirmedEpoch := h'.confirmedEpoch.trans h.confirmedEpoch
  confirmedEnters := h'.confirmedEnters.trans h.confirmedEnters
  lastHeight := h'.lastHeight.trans h.lastHeight
  lastWidth := h'.lastWidth.trans h.lastWidth
  epochs := h.epochs.trans h'.epochs
  cell c'' hc'' ha := by
    rcases h'.cell c'' hc'' ha with ⟨c', hc', he⟩ | hf
    · rcases h.cell c' hc' (he ▸ ha) with ⟨c, hc, he'⟩ | hf
      · exact .inl ⟨c, hc, he.trans he'⟩
      · rw [he]
        exact .inr (hf.widen rfl rfl le_rfl h'.epochs)
    · exact .inr (hf.widen h.sent h.enters h.epochs le_rfl)
  col c'' hc'' := by
    rcases h'.col c'' hc'' with ⟨c', hc', he⟩ | hlt
    · rcases h.col c' hc' with ⟨c, hc, he'⟩ | hlt
      · exact .inl ⟨c, hc, he.trans he'⟩
      · exact .inr (he ▸ hlt)
    · exact .inr hlt
  cursor k'' hk'' := by
    rcases h'.cursor k'' hk'' with ⟨k', hk', hi⟩ | hf
    · have hexp : k''.base.expirationFrame = k'.base.expirationFrame ∨
          k''.base.expirationFrame = p.localFrameSent + 1 := h.sent ▸ hi.exp
      rcases h.cursor k' hk' with ⟨k, hk, hi'⟩ | hf
      · refine .inl ⟨k, hk, hi.active.trans hi'.active, hi.epoch.trans hi'.epoch,
          hi.enters.trans hi'.enters, ?_⟩
        rcases hexp with he | he
        · exact hi'.exp.imp he.trans he.trans
        · exact .inr he
      · refine .inr ⟨hi.active.trans hf.active, ?_, hi.enters.trans hf.enters, ?_⟩
        · rcases hexp with he | he
          · exact he.trans hf.exp
          · exact he
        · rw [hi.epoch]
          exact (hf.widen rfl rfl le_rfl h'.epochs).epoch
    · exact .inr (hf.widen h.sent h.enters h.epochs le_rfl)

/-! ### The edits -/

/-- Another epoch stamps nothing. -/
theorem becomeTentative_evolves (w : ℕ) (p : Predictor σ) : Evolves w p p.becomeTentative where
  sent := rfl
  late := rfl
  pref := rfl
  enters := rfl
  confirmedEpoch := rfl
  confirmedEnters := rfl
  lastHeight := rfl
  lastWidth := rfl
  epochs := Nat.le_succ _
  cell c hc _ := .inl ⟨c, hc, rfl⟩
  col c hc := .inl ⟨c, hc, rfl⟩
  cursor k hk := .inl ⟨k, hk, rfl, rfl, rfl, .inl rfl⟩

/-- A cursor that joins the others is fresh. -/
theorem pushCursor_evolves (w : ℕ) (p : Predictor σ) (row col : ℕ) :
    Evolves w p (p.pushCursor row col) where
  sent := rfl
  late := rfl
  pref := rfl
  enters := rfl
  confirmedEpoch := rfl
  confirmedEnters := rfl
  lastHeight := rfl
  lastWidth := rfl
  epochs := le_rfl
  cell c hc _ := .inl ⟨c, hc, rfl⟩
  col c hc := .inl ⟨c, hc, rfl⟩
  cursor k hk := by
    rcases List.mem_append.1 hk with hk | hk
    · exact .inl ⟨k, hk, rfl, rfl, rfl, .inl rfl⟩
    · rw [List.mem_singleton.1 hk]
      exact .inr ⟨rfl, rfl, rfl, p.epochs, le_rfl, le_rfl, rfl⟩

/-- An edit of the last cursor that keeps its stamp. -/
theorem modifyCursor_evolves (w : ℕ) (p : Predictor σ) {f : CursorOverlay → CursorOverlay}
    (hf : ∀ k, Inherits p k.base (f k).base) : Evolves w p (p.modifyCursor f) where
  sent := rfl
  late := rfl
  pref := rfl
  enters := rfl
  confirmedEpoch := rfl
  confirmedEnters := rfl
  lastHeight := rfl
  lastWidth := rfl
  epochs := le_rfl
  cell c hc _ := .inl ⟨c, hc, rfl⟩
  col c hc := .inl ⟨c, hc, rfl⟩
  cursor k hk := by
    rcases mem_of_mem_modifyLast hk with hk | ⟨k', hk', rfl⟩
    · exact .inl ⟨k, hk, rfl, rfl, rfl, .inl rfl⟩
    · exact .inl ⟨k', List.mem_of_getLast? hk', hf k'⟩

/-- An edit of cells that leaves a base alone or stamps it. -/
def Stamps (s : Stamp) (f : List CellOverlay → List CellOverlay) : Prop :=
  ∀ cs, ∀ c' ∈ f cs, ∃ c ∈ cs, c'.base = c.base ∨
    (c'.base.col = c.base.col ∧ c'.base.active = true ∧ c'.base.expirationFrame = s.exp ∧
      c'.base.enters = s.enters ∧ c'.base.tentativeUntilEpoch = s.epoch)

/-- A cell that came out of `get_or_make_row`: it was there, or is inactive. -/
theorem mem_getOrMakeRow {overlays : List Row} {rowNum numCols epoch k : ℕ} {r : Row}
    {c : CellOverlay} (hr : r ∈ (getOrMakeRow overlays rowNum numCols epoch k).1)
    (hc : c ∈ r.cells) :
    c ∈ overlays.flatMap Row.cells ∨ c.base.active = false ∧ c.base.col < numCols := by
  unfold getOrMakeRow at hr
  split at hr
  · exact .inl (List.mem_flatMap.2 ⟨r, hr, hc⟩)
  · rcases List.mem_append.1 hr with hr | hr
    · exact .inl (List.mem_flatMap.2 ⟨r, hr, hc⟩)
    · rw [List.mem_singleton.1 hr] at hc
      obtain ⟨i, hi, rfl⟩ := List.mem_map.1 hc
      exact .inr ⟨rfl, List.mem_range.1 hi⟩

/-- **An edit of a row with the stamp of the moment.**  A row that is made for it has
inactive cells only, so what is active afterwards was so before, or was stamped. -/
theorem modifyRow_evolves {w : ℕ} (p : Predictor σ) (rowNum oldEpoch : ℕ) {s : Stamp}
    {f : List CellOverlay → List CellOverlay} (hf : Stamps s f)
    (hepoch : s.epoch = p.predictionEpoch) (hexp : s.exp = p.localFrameSent + 1)
    (henters : s.enters = p.enters) : Evolves w p (p.modifyRow rowNum w oldEpoch f) := by
  have hmem : ∀ c' ∈ (p.modifyRow rowNum w oldEpoch f).cells,
      ∃ c, (c ∈ p.cells ∨ c.base.active = false ∧ c.base.col < w) ∧ (c'.base = c.base ∨
        (c'.base.col = c.base.col ∧ c'.base.active = true ∧ c'.base.expirationFrame = s.exp ∧
          c'.base.enters = s.enters ∧ c'.base.tentativeUntilEpoch = s.epoch)) := by
    intro c' hc'
    obtain ⟨r', hr', hc'⟩ := List.mem_flatMap.1 hc'
    rcases mem_of_mem_modify hr' with hr' | ⟨r, hr, rfl⟩
    · exact ⟨c', mem_getOrMakeRow hr' hc', .inl rfl⟩
    · obtain ⟨c, hc, he⟩ := hf r.cells c' hc'
      exact ⟨c, mem_getOrMakeRow hr hc, he⟩
  refine ⟨rfl, rfl, rfl, rfl, rfl, rfl, rfl, rfl, le_rfl, fun c' hc' ha => ?_, fun c' hc' => ?_,
    fun k hk => .inl ⟨k, hk, rfl, rfl, rfl, .inl rfl⟩⟩
  · obtain ⟨c, hc, he | ⟨-, -, hx, hn, ht⟩⟩ := hmem c' hc'
    · rcases hc with hc | ⟨hc, -⟩
      · exact .inl ⟨c, hc, he⟩
      · rw [he, hc] at ha
        exact absurd ha Bool.false_ne_true
    · exact .inr ⟨ha, hx.trans hexp, hn.trans henters, p.epochs, le_rfl, le_rfl,
        ht.trans hepoch⟩
  · obtain ⟨c, hc, he⟩ := hmem c' hc'
    have hcol : c'.base.col = c.base.col := he.elim (fun e => by rw [e]) fun e => e.1
    rcases hc with hc | ⟨-, hc⟩
    · exact .inl ⟨c, hc, hcol⟩
    · exact .inr (hcol ▸ hc)

/-! ### Edits of cells -/

/-- Two edits of a row, one after the other. -/
theorem Stamps.comp {s : Stamp} {f g : List CellOverlay → List CellOverlay} (hf : Stamps s f)
    (hg : Stamps s g) : Stamps s fun cs => g (f cs) := by
  intro cs c'' hc''
  obtain ⟨c', hc', h'⟩ := hg (f cs) c'' hc''
  obtain ⟨c, hc, h⟩ := hf cs c' hc'
  refine ⟨c, hc, ?_⟩
  rcases h' with h' | ⟨hcol, h'⟩
  · rwa [h']
  · refine .inr ⟨hcol.trans ?_, h'⟩
    exact h.elim (fun e => by rw [e]) fun e => e.1

/-- A cell edit that stamps, at one position. -/
theorem stamps_modify {s : Stamp} (i : ℕ) {g : CellOverlay → CellOverlay}
    (hg : ∀ c, (g c).base = c.base.reset.stamp s.epoch s.exp s.now s.enters) :
    Stamps s fun cs => cs.modify i g := by
  intro cs c' hc'
  rcases mem_of_mem_modify hc' with hc' | ⟨c, hc, rfl⟩
  · exact ⟨c', hc', .inl rfl⟩
  · refine ⟨c, hc, .inr ?_⟩
    rw [hg]
    exact ⟨rfl, rfl, rfl, rfl, rfl⟩

/-- Edits of the columns of a row in some order. -/
theorem stamps_foldl {s : Stamp} {g : List CellOverlay → ℕ → List CellOverlay}
    (hg : ∀ i, Stamps s fun cs => g cs i) (l : List ℕ) : Stamps s fun cs => l.foldl g cs := by
  induction l with
  | nil => exact fun cs c hc => ⟨c, hc, .inl rfl⟩
  | cons i l ih => exact (hg i).comp ih

/-- A predicted cell is stamped anew. -/
@[simp] theorem base_predictCell (c : CellOverlay) (s : Stamp) (actual : Cell) :
    (predictCell c s actual).base = c.base.reset.stamp s.epoch s.exp s.now s.enters := by
  simp [predictCell]

/-- A cell that takes the contents of another keeps its stamp. -/
@[simp] theorem base_takeFrom (c n : CellOverlay) (actual : Cell) :
    (takeFrom c n actual).base = c.base := by
  unfold takeFrom
  split
  · split <;> rfl
  · rfl

/-- A cell that moves left is stamped where it comes to be. -/
theorem stamps_shiftLeft (display : FrameState) (rowNum : ℕ) (s : Stamp) (i : ℕ) :
    Stamps s fun cs => shiftLeft display rowNum s cs i := by
  intro cs
  refine stamps_modify i (fun c => ?_) cs
  split <;> simp

/-- A cell that moves right is stamped where it comes to be. -/
theorem stamps_shiftRight (display : FrameState) (rowNum : ℕ) (s : Stamp) (i : ℕ) :
    Stamps s fun cs => shiftRight display rowNum s cs i := by
  intro cs
  refine stamps_modify i (fun c => ?_) cs
  split <;> simp

/-- The cells of a backspace. -/
theorem stamps_backspaceCells (display : FrameState) (rowNum col : ℕ) (overwrite : Bool)
    (s : Stamp) : Stamps s (backspaceCells display rowNum col overwrite s) := by
  intro cs
  unfold backspaceCells
  split
  · refine stamps_modify col (fun c => ?_) cs
    exact base_predictCell c s (cellBytes display rowNum col)
  · exact stamps_foldl (fun i => stamps_shiftLeft _ _ _ i) _ cs

/-- The cells of a new line. -/
theorem stamps_blankCells (s : Stamp) : Stamps s (blankCells s) := by
  intro cs c' hc'
  obtain ⟨c, hc, rfl⟩ := List.mem_map.1 hc'
  exact ⟨c, hc, .inr ⟨rfl, rfl, rfl, rfl, rfl⟩⟩

/-- The cells of a character that is put into a row. -/
theorem stamps_insertCells (display : FrameState) (rowNum col rightmost : ℕ) (ch : Char)
    (s : Stamp) : Stamps s (insertCells display rowNum col rightmost ch s) := by
  have hshift := stamps_foldl (fun i => stamps_shiftRight display rowNum s i)
    (List.range' (col + 1) (rightmost - col)).reverse
  intro cs
  refine hshift.comp (g := fun cs' => cs'.modify col _) (stamps_modify col fun c => ?_) cs
  exact base_predictCell c s (cellBytes display rowNum col)

/-! ### The functions of the source -/

/-- The first cursor is fresh. -/
theorem initCursor_evolves (p : Predictor σ) (fb : FrameState) :
    Evolves fb.cols p (p.initCursor fb) := by
  unfold initCursor
  split
  · exact pushCursor_evolves ..
  · split
    · exact pushCursor_evolves ..
    · exact .refl ..

/-- An edit of the last cursor's position. -/
theorem moveCursor_evolves (w : ℕ) (p : Predictor σ) {f : CursorOverlay → CursorOverlay}
    (hf : ∀ k, (f k).base = k.base) : Evolves w p (p.modifyCursor f) :=
  modifyCursor_evolves w p fun k => by rw [hf]; exact ⟨rfl, rfl, rfl, .inl rfl⟩

/-- An edit of the last cursor that renews its expiration. -/
theorem expireCursor_evolves (w : ℕ) (p : Predictor σ) {f : CursorOverlay → CursorOverlay}
    {now : ℕ} (hf : ∀ k, (f k).base = k.base.expire (p.localFrameSent + 1) now) :
    Evolves w p (p.modifyCursor f) :=
  modifyCursor_evolves w p fun k => by rw [hf]; exact ⟨rfl, rfl, rfl, .inr rfl⟩

/-- A new line is a few edits. -/
theorem newlineCarriageReturn_evolves (p : Predictor σ) (display : FrameState) (now : ℕ) :
    Evolves display.cols p (p.newlineCarriageReturn display now) := by
  have hinit := (initCursor_evolves p display).trans
    (moveCursor_evolves _ (p.initCursor display) (f := fun c => { c with col := 0 }) fun _ => rfl)
  unfold newlineCarriageReturn
  dsimp only
  split
  · split
    · exact hinit.trans (becomeTentative_evolves ..)
    · exact hinit.trans (modifyRow_evolves _ _ _ (stamps_blankCells _) rfl rfl rfl)
  · exact hinit.trans (moveCursor_evolves _ _ fun _ => rfl)

/-- A backspace is a few edits. -/
theorem backspace_evolves (p : Predictor σ) (display : FrameState) (now : ℕ) :
    Evolves display.cols p (p.backspace display now) := by
  unfold backspace
  dsimp only
  split
  · exact .refl ..
  · split
    · exact becomeTentative_evolves ..
    · exact (expireCursor_evolves _ _ fun _ => rfl).trans
        (modifyRow_evolves _ _ _ (stamps_backspaceCells _ _ _ _ _) rfl rfl rfl)

/-- So is a character that is put into a row. -/
theorem insertChar_evolves (p : Predictor σ) (ch : Char) (display : FrameState)
    (now rowNum col rightmost oldEpoch : ℕ) :
    Evolves display.cols p (p.insertChar ch display now rowNum col rightmost oldEpoch) := by
  have hrow := modifyRow_evolves (w := display.cols) p rowNum oldEpoch
    (stamps_insertCells display rowNum col rightmost ch (p.stampNow now)) rfl rfl rfl
  have hcur := hrow.trans ((@expireCursor_evolves _ _ _
    (fun c => { c with base := c.base.expire (p.localFrameSent + 1) now }) now) fun _ => rfl)
  unfold insertChar
  dsimp only
  split
  · exact hcur.trans (moveCursor_evolves _ _ fun _ => rfl)
  · exact (hcur.trans (becomeTentative_evolves ..)).trans (newlineCarriageReturn_evolves ..)

/-- So is one that wraps to the next row. -/
theorem predictChar_evolves (p : Predictor σ) (ch : Char) (display : FrameState) (now : ℕ) :
    Evolves display.cols p (p.predictChar ch display now) := by
  unfold predictChar
  dsimp only
  split
  · exact .refl ..
  · split
    · exact becomeTentative_evolves ..
    · split
      · exact (becomeTentative_evolves ..).trans (insertChar_evolves ..)
      · exact insertChar_evolves ..

/-- So is any character that is typed. -/
theorem handlePrint_evolves (p : Predictor σ) (ch : Char) (display : FrameState) (now : ℕ) :
    Evolves display.cols p (p.handlePrint ext ch display now) := by
  have hinit := initCursor_evolves p display
  unfold handlePrint
  dsimp only
  split
  · exact hinit.trans (backspace_evolves ..)
  · split
    · exact hinit.trans (becomeTentative_evolves ..)
    · exact hinit.trans (predictChar_evolves ..)

/-- The history of a carriage return: it is counted, and its epoch begins. -/
def enter (p : Predictor σ) : Predictor σ :=
  ({ p with enters := p.enters + 1 } : Predictor σ).becomeTentative

/-- **What an act does**: a carriage return opens a count and an epoch and then
evolves; any other act evolves. -/
theorem dispatch_evolves (p : Predictor σ) (display : FrameState) (now : ℕ) (act : Act) :
    Evolves display.cols (if act = .execute 0x0d then p.enter else p)
      (p.dispatch ext display now act) := by
  cases act with
  | print ch => exact handlePrint_evolves ..
  | execute byte =>
    rw [dispatch]
    by_cases h : byte = 0x0d
    · rw [if_pos h, if_pos (by rw [h])]
      exact newlineCarriageReturn_evolves ..
    · rw [if_neg h, if_neg (by simpa using h)]
      exact becomeTentative_evolves ..
  | csi action =>
    have hinit := initCursor_evolves p display
    rw [if_neg (by simp), dispatch]
    dsimp only
    split
    · split
      · exact hinit.trans (expireCursor_evolves _ _ fun _ => rfl)
      · exact hinit
    · split
      · split
        · exact hinit.trans (expireCursor_evolves _ _ fun _ => rfl)
        · exact hinit
      · exact becomeTentative_evolves ..
  | esc => exact becomeTentative_evolves ..

end Predictor
end Quosh
