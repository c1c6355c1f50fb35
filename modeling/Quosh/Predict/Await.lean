/-
# What overlays wait for

The predictor between two frames of the server: which acknowledgement its
overlays expire with, and where they are.

`Expiring P w p` says that every live overlay expires at a frame in `P`, is
active, and lies in a column below `w`.  Input keeps it when the next frame is in
`P` (`feedByte_expiring`), and a cull keeps it too (`cull_expiring`).  With `P`
bounded by the last input sequence number this is why acknowledging that number
leaves nothing live (`cull_idle`); with `P` above the acknowledgement it is why a
cull against another frame of the same size finds everything pending
(`findsPending`, `cull_epoch_of_awaiting`).

`Inside h w p` places rows and cursors in the frame.  Input keeps it when the
cursor on display is in the frame, and then a cull of an awaiting predictor
changes no overlay at all (`cull_eq_of_inside`).
-/

import Quosh.Predict.Cull

namespace Quosh
namespace Predictor

variable {σ : Type} {ext : Externals σ} {p p' : Predictor σ} {P : ℕ → Prop} {h w : ℕ}

/-! ### Expirations -/

/-- Every live overlay expires at a frame in `P`. -/
structure Expiring (P : ℕ → Prop) (w : ℕ) (p : Predictor σ) : Prop where
  cell : ∀ c ∈ p.cells, c.base.active = true → P c.base.expirationFrame
  col : ∀ c ∈ p.cells, c.base.col < w
  cursor : ∀ k ∈ p.cursors, k.base.active = true ∧ P k.base.expirationFrame

/-- No overlay is live. -/
structure Idle (p : Predictor σ) : Prop where
  cell : ∀ c ∈ p.cells, c.base.active = false
  cursor : p.cursors = []

/-- No overlay at all. -/
structure Blank (p : Predictor σ) : Prop where
  cell : p.cells = []
  cursor : p.cursors = []

/-- What input leaves alone. -/
structure Keeps (p p' : Predictor σ) : Prop where
  sent : p'.localFrameSent = p.localFrameSent
  late : p'.localFrameLateAcked = p.localFrameLateAcked
  pref : p'.displayPreference = p.displayPreference
  confirmedEpoch : p'.confirmedEpoch = p.confirmedEpoch
  lastHeight : p'.lastHeight = p.lastHeight
  lastWidth : p'.lastWidth = p.lastWidth

theorem Keeps.refl (p : Predictor σ) : Keeps p p := ⟨rfl, rfl, rfl, rfl, rfl, rfl⟩

theorem Keeps.trans {p'' : Predictor σ} (h : Keeps p p') (h' : Keeps p' p'') : Keeps p p'' :=
  ⟨h'.sent.trans h.sent, h'.late.trans h.late, h'.pref.trans h.pref,
    h'.confirmedEpoch.trans h.confirmedEpoch, h'.lastHeight.trans h.lastHeight,
    h'.lastWidth.trans h.lastWidth⟩

/-- What an edit of overlays leaves alone is kept. -/
theorem Evolves.keeps (he : Evolves w p p') : Keeps p p' :=
  ⟨he.sent, he.late, he.pref, he.confirmedEpoch, he.lastHeight, he.lastWidth⟩

/-- Without overlays nothing expires. -/
theorem Blank.expiring (hb : Blank p) : Expiring P w p where
  cell c hc := by rw [hb.cell] at hc; cases hc
  col c hc := by rw [hb.cell] at hc; cases hc
  cursor k hk := by rw [hb.cursor] at hk; cases hk

/-- Without overlays nothing is live. -/
theorem Blank.idle (hb : Blank p) : Idle p where
  cell c hc := by rw [hb.cell] at hc; cases hc
  cursor := hb.cursor

/-- A reset drops all overlays. -/
theorem blank_reset (p : Predictor σ) : Blank p.reset := ⟨rfl, rfl⟩

/-- A weaker condition on the frames. -/
theorem Expiring.mono {Q : ℕ → Prop} (he : Expiring P w p) (hPQ : ∀ n, P n → Q n) :
    Expiring Q w p :=
  ⟨fun c hc ha => hPQ _ (he.cell c hc ha), he.col, fun k hk => (he.cursor k hk).imp_right (hPQ _)⟩

/-- **Input keeps expirations**, if the next frame is one of those. -/
theorem Expiring.evolves (he : Expiring P w p) (hs : P (p.localFrameSent + 1))
    (hev : Evolves w p p') : Expiring P w p' where
  cell c' hc' ha := by
    rcases hev.cell c' hc' ha with ⟨c, hc, hbase⟩ | hf
    · rw [hbase]
      exact he.cell c hc (hbase ▸ ha)
    · rw [hf.exp]
      exact hs
  col c' hc' := by
    rcases hev.col c' hc' with ⟨c, hc, hcol⟩ | hlt
    · rw [hcol]
      exact he.col c hc
    · exact hlt
  cursor k' hk' := by
    rcases hev.cursor k' hk' with ⟨k, hk, hi⟩ | hf
    · refine ⟨hi.active.trans (he.cursor k hk).1, ?_⟩
      rcases hi.exp with hx | hx
      · rw [hx]
        exact (he.cursor k hk).2
      · rw [hx]
        exact hs
    · rw [hf.exp]
      exact ⟨hf.active, hs⟩

/-- An act of the parser keeps what a frame decides. -/
theorem dispatch_keeps (p : Predictor σ) (display : FrameState) (now : ℕ) (act : Act) :
    Keeps p (p.dispatch ext display now act) := by
  have hact := (@dispatch_evolves _ ext) p display now act
  split at hact
  · have henter : Keeps p p.enter := ⟨rfl, rfl, rfl, rfl, rfl, rfl⟩
    exact henter.trans hact.keeps
  · exact hact.keeps

/-- So do all the acts of a byte. -/
theorem foldl_dispatch_keeps (p : Predictor σ) (display : FrameState) (now : ℕ)
    (acts : List Act) :
    Keeps p (acts.foldl (fun p act => p.dispatch ext display now act) p) := by
  induction acts generalizing p with
  | nil => exact .refl p
  | cons act acts ih => exact (dispatch_keeps p display now act).trans (ih _)

/-- **A byte changes overlays and epochs only.** -/
theorem feedByte_keeps (p : Predictor σ) (b : UInt8) (display : FrameState) (now : ℕ) :
    Keeps p (p.feedByte ext b display now) := by
  have hparsed (parser : σ) : Keeps p { p with lastByte := b, parser } :=
    ⟨rfl, rfl, rfl, rfl, rfl, rfl⟩
  unfold feedByte
  split
  · exact (hparsed p.parser).trans ((@dispatch_keeps _ ext) _ display now (.print '\x7f'))
  · exact (hparsed _).trans (foldl_dispatch_keeps ..)

/-- A byte does not change what is displayed. -/
theorem newUserByte_pref (p : Predictor σ) (b : UInt8) (display : FrameState) (now : ℕ) :
    (p.newUserByte ext b display now).displayPreference = p.displayPreference := by
  unfold newUserByte
  split
  · rfl
  · exact (feedByte_keeps ..).pref.trans (cull_culls ..).pref

/-- An act expires what it stamps at the next frame. -/
theorem dispatch_expiring {display : FrameState} (now : ℕ) (act : Act)
    (he : Expiring P display.cols p) (hs : P (p.localFrameSent + 1)) :
    Expiring P display.cols (p.dispatch ext display now act) := by
  have hact := (@dispatch_evolves _ ext) p display now act
  split at hact
  · have henter : Expiring P display.cols p.enter := ⟨he.cell, he.col, he.cursor⟩
    exact henter.evolves hs hact
  · exact he.evolves hs hact

/-- All the acts of a byte keep expirations. -/
theorem foldl_dispatch_expiring {display : FrameState} (now : ℕ) (acts : List Act)
    (he : Expiring P display.cols p) (hs : P (p.localFrameSent + 1)) :
    Expiring P display.cols (acts.foldl (fun p act => p.dispatch ext display now act) p) := by
  induction acts generalizing p with
  | nil => exact he
  | cons act acts ih =>
    exact ih (dispatch_expiring now act he hs)
      (((@dispatch_keeps _ ext) p display now act).sent.symm ▸ hs)

/-- **A byte expires what it stamps at the next frame.** -/
theorem feedByte_expiring {display : FrameState} (b : UInt8) (now : ℕ)
    (he : Expiring P display.cols p) (hs : P (p.localFrameSent + 1)) :
    Expiring P display.cols (p.feedByte ext b display now) := by
  unfold feedByte
  split
  · exact (@dispatch_expiring _ ext ({ p with lastByte := b })) now (.print '\x7f')
      ⟨he.cell, he.col, he.cursor⟩ hs
  · exact foldl_dispatch_expiring
      (p := { p with lastByte := b, parser := (ext.advance p.parser b).1 }) now _
      ⟨he.cell, he.col, he.cursor⟩ hs

/-- **A cull keeps expirations**; a cursor it starts over from needs a live cell
to be killed. -/
theorem cull_expiring (fb : FrameState) (now : ℕ) (he : Expiring P p.lastWidth p)
    (hs : (∃ c ∈ p.cells, c.base.active = true) → P (p.localFrameSent + 1)) :
    Expiring P (p.cull ext fb now).lastWidth (p.cull ext fb now) := by
  have hc := (@cull_culls _ ext) p fb now
  refine ⟨fun c' hc' ha => ?_, fun c' hc' => ?_, fun k hk => ?_⟩
  · obtain ⟨c, hmem, -, hbase⟩ := hc.cell c' hc'
    rw [hbase ha]
    exact he.cell c hmem (hbase ha ▸ ha)
  · obtain ⟨c, hmem, hcol, -⟩ := hc.cell c' hc'
    rcases hc.size with hnil | ⟨-, hw⟩
    · rw [hnil] at hc'
      cases hc'
    · rw [hw, hcol]
      exact he.col c hmem
  · rcases hc.cursor k hk with hk | ⟨hf, hlive⟩
    · exact he.cursor k hk
    · rw [hf.exp]
      exact ⟨hf.active, hs hlive⟩

/-- A cull adds no overlays. -/
theorem Blank.cull (hb : Blank p) (fb : FrameState) (now : ℕ) : Blank (p.cull ext fb now) := by
  have hc := (@cull_culls _ ext) p fb now
  refine ⟨List.eq_nil_iff_forall_not_mem.2 fun c' hc' => ?_,
    List.eq_nil_iff_forall_not_mem.2 fun k hk => ?_⟩
  · obtain ⟨c, hmem, -⟩ := hc.cell c' hc'
    rw [hb.cell] at hmem
    cases hmem
  · rcases hc.cursor k hk with hk | ⟨-, c, hmem, -⟩
    · rw [hb.cursor] at hk
      cases hk
    · rw [hb.cell] at hmem
      cases hmem

/-- **Acknowledging every expiration leaves nothing live.** -/
theorem cull_idle (hpref : p.displayPreference ≠ .never) (fb : FrameState) (now : ℕ)
    (he : Expiring (fun n => n ≤ p.localFrameLateAcked) p.lastWidth p)
    (hs : (∃ c ∈ p.cells, c.base.active = true) →
      p.localFrameSent + 1 ≤ p.localFrameLateAcked) : Idle (p.cull ext fb now) := by
  have hset := (@cull_settled _ ext) hpref fb now
  have hexp := (@cull_expiring _ ext) fb now he hs
  have hlate := ((@cull_culls _ ext) p fb now).late
  refine ⟨fun c hc => ?_, List.eq_nil_iff_forall_not_mem.2 fun k hk => ?_⟩
  · cases ha : c.base.active with
    | false => rfl
    | true =>
      have := hset.cell c hc ha
      have := hexp.cell c hc ha
      omega
  · have := (hset.cursor k hk).2.1
    have := (hexp.cursor k hk).2
    omega

/-! ### What `apply` keeps -/

/-- Drawing a cell leaves the size and the cursor. -/
theorem CellOverlay.apply_frame (c : CellOverlay) (f : FrameState) (e row : ℕ) (flag : Bool) :
    (c.apply ext f e row flag).rows = f.rows ∧ (c.apply ext f e row flag).cols = f.cols ∧
      (c.apply ext f e row flag).cursorRow = f.cursorRow ∧
      (c.apply ext f e row flag).cursorCol = f.cursorCol := by
  unfold CellOverlay.apply
  dsimp only
  split_ifs <;> exact ⟨rfl, rfl, rfl, rfl⟩

/-- What holds of a frame and is kept by every overlay holds of what is drawn: `apply` is a
fold over the cursors and one over the rows and their cells. -/
theorem apply_induct {I : FrameState → Prop} {frame : FrameState} (hI : I frame)
    (hcell : ∀ c ∈ p.cells, ∀ f row flag, I f → I (c.apply ext f p.confirmedEpoch row flag))
    (hcursor : ∀ k ∈ p.cursors, ∀ f, I f → I (k.apply f p.confirmedEpoch)) :
    I (p.apply ext frame) := by
  have hcursors (ks : List CursorOverlay) (hk : ∀ k ∈ ks, k ∈ p.cursors) (f : FrameState)
      (hf : I f) : I (ks.foldl (fun f c => c.apply f p.confirmedEpoch) f) := by
    induction ks generalizing f with
    | nil => exact hf
    | cons k ks ih =>
      exact ih (fun k' h' => hk k' (List.mem_cons_of_mem _ h')) _
        (hcursor k (hk k (List.mem_cons_self ..)) f hf)
  have hcells (cs : List CellOverlay) (hc : ∀ c ∈ cs, c ∈ p.cells) (row : ℕ) (f : FrameState)
      (hf : I f) : I (cs.foldl (fun f c => c.apply ext f p.confirmedEpoch row p.flagging) f) := by
    induction cs generalizing f with
    | nil => exact hf
    | cons c cs ih =>
      exact ih (fun c' h' => hc c' (List.mem_cons_of_mem _ h')) _
        (hcell c (hc c (List.mem_cons_self ..)) f row p.flagging hf)
  have hrows (rs : List Row) (hr : ∀ r ∈ rs, r ∈ p.overlays) (f : FrameState) (hf : I f) :
      I (rs.foldl (fun f r => r.cells.foldl
        (fun f c => c.apply ext f p.confirmedEpoch r.rowNum p.flagging) f) f) := by
    induction rs generalizing f with
    | nil => exact hf
    | cons r rs ih =>
      refine ih (fun r' h' => hr r' (List.mem_cons_of_mem _ h')) _ (hcells r.cells ?_ _ f hf)
      exact fun c hc => List.mem_flatMap.2 ⟨r, hr r (List.mem_cons_self ..), hc⟩
  unfold apply
  split
  · exact hI
  · split
    · exact hI
    · exact hrows _ (fun _ h => h) _ (hcursors _ (fun _ h => h) _ hI)

/-- **Overlays do not change the size of a frame.** -/
theorem apply_size (p : Predictor σ) (frame : FrameState) :
    (p.apply ext frame).rows = frame.rows ∧ (p.apply ext frame).cols = frame.cols := by
  refine apply_induct (I := fun f => f.rows = frame.rows ∧ f.cols = frame.cols) ⟨rfl, rfl⟩
    (fun c _ f row flag hf => ?_) fun k _ f hf => ?_
  · obtain ⟨hr, hc, -⟩ := (@CellOverlay.apply_frame _ ext) c f p.confirmedEpoch row flag
    exact ⟨hr.trans hf.1, hc.trans hf.2⟩
  · unfold CursorOverlay.apply
    split_ifs
    · exact hf
    · exact hf
    · exact hf

/-- **An idle predictor draws nothing.** -/
theorem Idle.apply (hi : Idle p) (frame : FrameState) : p.apply ext frame = frame := by
  refine apply_induct (I := fun f => f = frame) rfl (fun c hc f row flag hf => ?_)
    fun k hk f hf => ?_
  · rw [CellOverlay.apply_of_inactive ext (hi.cell c hc)]
    exact hf
  · rw [hi.cursor] at hk
    cases hk

/-! ### Pending overlays -/

/-- A predictor whose overlays expire later than its acknowledgement. -/
abbrev Awaiting (p : Predictor σ) : Prop :=
  Expiring (fun n => p.localFrameLateAcked < n) p.lastWidth p

/-- What a cull against a frame of the predictor's size finds: every live cell in a
row of the frame is pending, and every cursor is pending or outside the frame. -/
structure FindsPending (ext : Externals σ) (fb : FrameState) (p : Predictor σ) : Prop where
  cell : CellsPending ext fb p
  cursor : ∀ k ∈ p.cursors, k.validity fb p.localFrameLateAcked = .pending ∨
    ¬(k.row < fb.rows ∧ k.col < fb.cols)

/-- What it finds when nothing is outside the frame: everything pending. -/
structure FindsAllPending (ext : Externals σ) (fb : FrameState) (p : Predictor σ) : Prop where
  cell : ∀ r ∈ p.overlays, ∀ c ∈ r.cells, c.base.active = true →
    c.validity ext fb r.rowNum p.localFrameLateAcked = .pending
  cursor : ∀ k ∈ p.cursors, k.validity fb p.localFrameLateAcked = .pending

/-- A cull finds every cell of an awaiting predictor pending. -/
theorem cellsPending {fb : FrameState} (he : Awaiting p) (hw : p.lastWidth = fb.cols) :
    CellsPending ext fb p := by
  intro r hr hlt c hc ha
  have hmem : c ∈ p.cells := List.mem_flatMap.2 ⟨r, hr, hc⟩
  exact (CellOverlay.validity_eq_pending_iff ha hlt (hw ▸ he.col c hmem)).2 (he.cell c hmem ha)

/-- **An awaiting predictor is found pending** by a frame of its own size. -/
theorem findsPending {fb : FrameState} (he : Awaiting p) (hw : p.lastWidth = fb.cols) :
    FindsPending ext fb p where
  cell := cellsPending he hw
  cursor k hk := by
    by_cases hin : k.row < fb.rows ∧ k.col < fb.cols
    · obtain ⟨ha, hlt⟩ := he.cursor k hk
      exact .inl ((CursorOverlay.validity_eq_pending_iff ha hin.1 hin.2).2 hlt)
    · exact .inr hin

/-- Culling cursors confirms no epoch. -/
theorem cullCursors_confirmedEpoch (p : Predictor σ) (fb : FrameState) :
    (p.cullCursors fb).confirmedEpoch = p.confirmedEpoch := by
  unfold cullCursors
  split <;> rfl

/-- **A cull of an awaiting predictor confirms nothing.** -/
theorem cull_epoch_of_awaiting {fb : FrameState} (now : ℕ) (he : Awaiting p)
    (hsize : p.displayPreference ≠ .never → p.lastHeight = fb.rows ∧ p.lastWidth = fb.cols) :
    (p.cull ext fb now).confirmedEpoch = p.confirmedEpoch := by
  by_cases hpref : p.displayPreference = .never
  · rw [cull, if_pos hpref]
  · obtain ⟨hh, hw⟩ := hsize hpref
    obtain ⟨s, f, g, hcull⟩ := (@cull_of_pending _ ext) now hpref hh hw (cellsPending he hw)
    rw [hcull, cullCursors_confirmedEpoch]

/-! ### Inside the frame -/

/-- Rows and cursors are in a frame of this size. -/
structure Inside (h w : ℕ) (p : Predictor σ) : Prop where
  row : ∀ r ∈ p.overlays, r.rowNum < h
  cursor : ∀ k ∈ p.cursors, k.row < h ∧ k.col < w

/-- A frame with its cursor in its grid; its dimensions are `u16`s. -/
structure CursorInside (f : FrameState) : Prop where
  row : f.cursorRow < f.rows
  col : f.cursorCol < f.cols
  rows : f.rows < 2 ^ 16

/-- A predictor that was just culled has its overlays in the frame. -/
theorem Settled.inside {fb : FrameState} (hs : Settled fb p) : Inside fb.rows fb.cols p :=
  ⟨hs.row, fun k hk => (hs.cursor k hk).2.2⟩

/-- An awaiting predictor inside the frame is found pending throughout. -/
theorem findsAllPending {fb : FrameState} (he : Awaiting p) (hw : p.lastWidth = fb.cols)
    (hi : Inside fb.rows fb.cols p) : FindsAllPending ext fb p where
  cell r hr c hc ha := cellsPending he hw r hr (hi.row r hr) c hc ha
  cursor k hk := by
    obtain ⟨ha, hlt⟩ := he.cursor k hk
    obtain ⟨hr, hc⟩ := hi.cursor k hk
    exact (CursorOverlay.validity_eq_pending_iff ha hr hc).2 hlt

/-- **A cull of an awaiting predictor inside the frame** sets triggers only. -/
theorem cull_triggers_of_inside {fb : FrameState} (now : ℕ)
    (hpref : p.displayPreference ≠ .never) (he : Awaiting p) (hh : p.lastHeight = fb.rows)
    (hw : p.lastWidth = fb.cols) (hi : Inside fb.rows fb.cols p) :
    ∃ s f g, p.cull ext fb now =
      { p with srttTrigger := s, flagging := f, glitchTrigger := g } := by
  have hall : FindsAllPending ext fb p := findsAllPending he hw hi
  obtain ⟨s, f, g, hcull⟩ := (@cull_of_pending _ ext) now hpref hh hw (cellsPending he hw)
  have hrows : (p.overlays.filter fun r => r.rowNum < fb.rows) = p.overlays :=
    List.filter_eq_self.2 fun r hr => decide_eq_true (hi.row r hr)
  have hback : ¬(p.cursors.getLast?.any fun back =>
      back.validity fb p.localFrameLateAcked = .incorrectOrExpired) = true := by
    intro hany
    obtain ⟨back, hback, hv⟩ := (Option.any_eq_true ..).1 hany
    rw [hall.cursor back (List.mem_of_getLast? hback)] at hv
    simp at hv
  have hcursors : (p.cursors.filter fun c =>
      c.base.active && c.validity fb p.localFrameLateAcked = .pending) = p.cursors :=
    List.filter_eq_self.2 fun k hk => by simp [(he.cursor k hk).1, hall.cursor k hk]
  refine ⟨s, f, g, ?_⟩
  rw [hcull, hrows]
  unfold cullCursors
  dsimp only
  rw [if_neg hback, hcursors]

/-- **A cull of an awaiting predictor inside the frame changes no overlay.** -/
theorem cull_eq_of_inside {fb : FrameState} (now : ℕ) (hpref : p.displayPreference ≠ .never)
    (he : Awaiting p) (hh : p.lastHeight = fb.rows) (hw : p.lastWidth = fb.cols)
    (hi : Inside fb.rows fb.cols p) :
    FindsAllPending ext fb p ∧ (p.cull ext fb now).overlays = p.overlays ∧
      (p.cull ext fb now).cursors = p.cursors := by
  obtain ⟨s, f, g, hcull⟩ := (@cull_triggers_of_inside _ ext) now hpref he hh hw hi
  rw [hcull]
  exact ⟨findsAllPending he hw hi, rfl, rfl⟩

/-- **A cull of a predictor without overlays** sizes it for the frame. -/
theorem cull_of_nil (hpref : p.displayPreference ≠ .never) (hrows : p.overlays = [])
    (hcursors : p.cursors = []) (fb : FrameState) (now : ℕ) :
    ∃ n s f, p.cull ext fb now =
      { p with
        lastHeight := fb.rows, lastWidth := fb.cols, epochs := n, srttTrigger := s
        flagging := f } := by
  have hresize : ∃ n, p.cullResize fb =
      { p with lastHeight := fb.rows, lastWidth := fb.cols, epochs := n } := by
    unfold cullResize
    split
    · exact ⟨p.epochs + 1, by simp only [reset, Predictor.becomeTentative, hrows, hcursors]⟩
    · rename_i hsize
      simp only [not_or, not_not] at hsize
      exact ⟨p.epochs, by rw [← hsize.1, ← hsize.2]⟩
  obtain ⟨n, hn⟩ := hresize
  obtain ⟨s, f, ht⟩ := cullTriggers_eq (p.cullResize fb)
  have hstart : p.cullStart fb = ⟨(p.cullResize fb).cullTriggers, []⟩ := by
    unfold cullStart
    rw [ht, hn]
    simp only [hrows, List.filter_nil]
  refine ⟨n, s, f, ?_⟩
  rw [cull_eq hpref, hstart]
  have hloop : cullRows ext fb now ⟨(p.cullResize fb).cullTriggers, []⟩ =
    .ok ⟨(p.cullResize fb).cullTriggers, []⟩ := rfl
  rw [hloop, ht, hn]
  simp only [cullCursors, hrows, hcursors, List.getLast?_nil, Option.any_none,
    Bool.false_eq_true, if_false, List.filter_nil]

/-- A reset leaves nothing outside. -/
theorem inside_reset (p : Predictor σ) : Inside h w p.reset where
  row _ hr := absurd hr List.not_mem_nil
  cursor _ hk := absurd hk List.not_mem_nil

/-- Another epoch moves no overlay. -/
theorem Inside.becomeTentative (hi : Inside h w p) : Inside h w p.becomeTentative :=
  ⟨hi.row, hi.cursor⟩

/-- Nor does another count of carriage returns. -/
theorem Inside.enter (hi : Inside h w p) : Inside h w p.enter := ⟨hi.row, hi.cursor⟩

/-- Nor does the parser. -/
theorem Inside.parsed (hi : Inside h w p) (lastByte : UInt8) (parser : σ) :
    Inside h w ({ p with lastByte, parser } : Predictor σ) :=
  ⟨hi.row, hi.cursor⟩

/-- The predicted cursor is in a frame that has cells. -/
theorem cursor_inside (hi : Inside h w p) (hh : 0 < h) (hw : 0 < w) :
    p.cursor.row < h ∧ p.cursor.col < w := by
  unfold Predictor.cursor
  cases hl : p.cursors.getLast? with
  | none => exact ⟨hh, hw⟩
  | some k => exact hi.cursor k (List.mem_of_getLast? hl)

/-- An edit of the last cursor that stays in the frame. -/
theorem Inside.modifyCursor (hi : Inside h w p) {f : CursorOverlay → CursorOverlay}
    (hf : (f p.cursor).row < h ∧ (f p.cursor).col < w) : Inside h w (p.modifyCursor f) where
  row := hi.row
  cursor k hk := by
    rcases mem_of_mem_modifyLast hk with hk | ⟨k', hk', rfl⟩
    · exact hi.cursor k hk
    · have : p.cursor = k' := by rw [Predictor.cursor, hk', Option.getD_some]
      rwa [← this]

/-- A cursor in the frame joins the others. -/
theorem Inside.pushCursor (hi : Inside h w p) {row col : ℕ} (hr : row < h) (hc : col < w) :
    Inside h w (p.pushCursor row col) where
  row := hi.row
  cursor k hk := by
    rcases List.mem_append.1 hk with hk | hk
    · exact hi.cursor k hk
    · rw [List.mem_singleton.1 hk]
      exact ⟨hr, hc⟩

/-- An edit of the cells of a row of the frame. -/
theorem Inside.modifyRow (hi : Inside h w p) {rowNum : ℕ} (hr : rowNum < h) (numCols epoch : ℕ)
    (f : List CellOverlay → List CellOverlay) :
    Inside h w (p.modifyRow rowNum numCols epoch f) where
  row := by
    have hmake : ∀ r ∈ (getOrMakeRow p.overlays rowNum numCols epoch p.enters).1,
        r.rowNum < h := by
      intro r hmem
      unfold getOrMakeRow at hmem
      split at hmem
      · exact hi.row r hmem
      · rcases List.mem_append.1 hmem with hmem | hmem
        · exact hi.row r hmem
        · rw [List.mem_singleton.1 hmem]
          exact hr
    intro r hmem
    rcases mem_of_mem_modify hmem with hmem | ⟨r', hr', rfl⟩
    · exact hmake r hmem
    · exact hmake r' hr'
  cursor := hi.cursor

variable {d : FrameState}

/-- The first cursor is that of the display. -/
theorem Inside.initCursor (hi : Inside d.rows d.cols p) (hd : CursorInside d) :
    Inside d.rows d.cols (p.initCursor d) := by
  unfold Predictor.initCursor
  split
  · exact hi.pushCursor hd.row hd.col
  · rename_i k hk
    obtain ⟨hr, hc⟩ := hi.cursor k (List.mem_of_getLast? hk)
    split
    · exact hi.pushCursor hr hc
    · exact hi

/-- A new line stays in the frame. -/
theorem Inside.newlineCarriageReturn (hi : Inside d.rows d.cols p) (hd : CursorInside d)
    (now : ℕ) : Inside d.rows d.cols (p.newlineCarriageReturn d now) := by
  have hh : 0 < d.rows := (Nat.zero_le _).trans_lt hd.row
  have hw : 0 < d.cols := (Nat.zero_le _).trans_lt hd.col
  have hrows := hd.rows
  have hcol : Inside d.rows d.cols
      ((p.initCursor d).modifyCursor fun c => { c with col := 0 }) :=
    (hi.initCursor hd).modifyCursor ⟨(cursor_inside (hi.initCursor hd) hh hw).1, hw⟩
  have hcur := cursor_inside hcol hh hw
  unfold Predictor.newlineCarriageReturn
  dsimp only
  split
  · split
    · exact hcol.becomeTentative
    · exact hcol.modifyRow hcur.1 _ _ _
  · refine hcol.modifyCursor ⟨?_, hcur.2⟩
    dsimp only
    omega

/-- A backspace does. -/
theorem Inside.backspace (hi : Inside d.rows d.cols p) (hd : CursorInside d) (now : ℕ) :
    Inside d.rows d.cols (p.backspace d now) := by
  have hcur := cursor_inside hi ((Nat.zero_le _).trans_lt hd.row) ((Nat.zero_le _).trans_lt hd.col)
  unfold Predictor.backspace
  dsimp only
  split
  · exact hi
  · split
    · exact hi.becomeTentative
    · refine (hi.modifyCursor ⟨hcur.1, ?_⟩).modifyRow hcur.1 _ _ _
      dsimp only
      omega

/-- So does a character that is put into a row. -/
theorem Inside.insertChar (hi : Inside d.rows d.cols p) (hd : CursorInside d) (ch : Char)
    (now : ℕ) {rowNum col : ℕ} (hr : rowNum < d.rows) (hcol : col = p.cursor.col)
    (rightmost oldEpoch : ℕ) :
    Inside d.rows d.cols (p.insertChar ch d now rowNum col rightmost oldEpoch) := by
  have hh : 0 < d.rows := (Nat.zero_le _).trans_lt hd.row
  have hw : 0 < d.cols := (Nat.zero_le _).trans_lt hd.col
  let q := p.modifyRow rowNum d.cols oldEpoch
    (insertCells d rowNum col rightmost ch (p.stampNow now))
  have hq : Inside d.rows d.cols q := hi.modifyRow hr _ _ _
  let f : CursorOverlay → CursorOverlay := fun c =>
    { c with base := c.base.expire (p.stampNow now).exp now }
  have hcur : Inside d.rows d.cols (q.modifyCursor f) := hq.modifyCursor (cursor_inside hq hh hw)
  have hsame : (q.modifyCursor f).cursor.col = col := by
    have hlast : (q.modifyCursor f).cursor.col = q.cursor.col := by
      unfold Predictor.cursor Predictor.modifyCursor
      dsimp only
      cases hl : q.cursors.getLast? with
      | none => rw [List.getLast?_eq_none_iff.1 hl]; rfl
      | some k =>
        obtain ⟨ks, hks⟩ := List.getLast?_eq_some_iff.1 hl
        rw [hks, List.modifyLast_concat, List.getLast?_concat]
        rfl
    rw [hlast, hcol]
    rfl
  unfold Predictor.insertChar
  dsimp only
  split
  · refine hcur.modifyCursor ⟨(cursor_inside hcur hh hw).1, ?_⟩
    change (q.modifyCursor f).cursor.col + 1 < d.cols
    omega
  · exact hcur.becomeTentative.newlineCarriageReturn hd now

/-- So does one that wraps to the next row. -/
theorem Inside.predictChar (hi : Inside d.rows d.cols p) (hd : CursorInside d) (ch : Char)
    (now : ℕ) : Inside d.rows d.cols (p.predictChar ch d now) := by
  unfold Predictor.predictChar
  dsimp only
  split
  · exact hi
  · rename_i hin
    split
    · exact hi.becomeTentative
    · split
      · exact hi.becomeTentative.insertChar hd ch now (by omega) rfl _ _
      · exact hi.insertChar hd ch now (by omega) rfl _ _

/-- So does any character that is typed. -/
theorem Inside.handlePrint (hi : Inside d.rows d.cols p) (hd : CursorInside d) (ch : Char)
    (now : ℕ) : Inside d.rows d.cols (p.handlePrint ext ch d now) := by
  have hinit := hi.initCursor hd
  unfold Predictor.handlePrint
  dsimp only
  split
  · exact hinit.backspace hd now
  · split
    · exact hinit.becomeTentative
    · exact hinit.predictChar hd ch now

/-- **Every act of the parser stays in the frame.**  An arrow moves the cursor only where
there is a column left, and what the parser does not predict only begins a new epoch. -/
theorem Inside.dispatch (hi : Inside d.rows d.cols p) (hd : CursorInside d) (now : ℕ)
    (act : Act) : Inside d.rows d.cols (p.dispatch ext d now act) := by
  have hh : 0 < d.rows := (Nat.zero_le _).trans_lt hd.row
  have hw : 0 < d.cols := (Nat.zero_le _).trans_lt hd.col
  have hinit := hi.initCursor hd
  have hcur := cursor_inside hinit hh hw
  unfold Predictor.dispatch
  split
  · exact hi.handlePrint hd _ now
  · split
    · exact hi.enter.newlineCarriageReturn hd now
    · exact hi.becomeTentative
  · split
    · dsimp only
      split
      · refine hinit.modifyCursor ⟨hcur.1, ?_⟩
        dsimp only
        omega
      · exact hinit
    · split
      · dsimp only
        split
        · refine hinit.modifyCursor ⟨hcur.1, ?_⟩
          dsimp only
          omega
        · exact hinit
      · exact hi.becomeTentative
  · exact hi.becomeTentative

/-- **Input stays inside the frame.** -/
theorem Inside.feedByte (hi : Inside d.rows d.cols p) (hd : CursorInside d) (b : UInt8)
    (now : ℕ) : Inside d.rows d.cols (p.feedByte ext b d now) := by
  have hacts (acts : List Act) (q : Predictor σ) (hq : Inside d.rows d.cols q) :
      Inside d.rows d.cols (acts.foldl (fun p act => p.dispatch ext d now act) q) := by
    induction acts generalizing q with
    | nil => exact hq
    | cons act acts ih => exact ih _ (hq.dispatch hd now act)
  unfold Predictor.feedByte
  split
  · exact (hi.parsed b p.parser).handlePrint hd _ now
  · exact hacts _ _ (hi.parsed b _)

/-- **The cursor on display stays in the frame.** -/
theorem apply_cursorInside (hd : CursorInside d) : CursorInside (p.apply ext d) := by
  refine apply_induct (I := CursorInside) hd (fun c _ f row flag hf => ?_) fun k _ f hf => ?_
  · obtain ⟨hr, hc, hcr, hcc⟩ :=
      (@CellOverlay.apply_frame _ ext) c f p.confirmedEpoch row flag
    exact ⟨hcr ▸ hr ▸ hf.row, hcc ▸ hc ▸ hf.col, hr ▸ hf.rows⟩
  · unfold CursorOverlay.apply
    split_ifs with h₁ h₂
    · exact hf
    · exact ⟨h₂.1, h₂.2, hf.rows⟩
    · exact hf

/-! ### Bytes of a message -/

/-- A predictor that input of one message has reached, on a frame of this size. -/
structure Fed (P : ℕ → Prop) (d : FrameState) (p p' : Predictor σ) : Prop where
  sent : p'.localFrameSent = p.localFrameSent
  late : p'.localFrameLateAcked = p.localFrameLateAcked
  pref : p'.displayPreference = p.displayPreference
  height : p'.lastHeight = d.rows
  width : p'.lastWidth = d.cols
  expiring : Expiring P p'.lastWidth p'

/-- **A byte of a message** leaves a predictor sized for the display, with the
expirations of before and the next frame. -/
theorem newUserByte_fed (hpref : p.displayPreference ≠ .never) (he : Expiring P p.lastWidth p)
    (hs : P (p.localFrameSent + 1)) (b : UInt8) (d : FrameState) (now : ℕ) :
    Fed P d p (p.newUserByte ext b d now) := by
  have hc := (@cull_culls _ ext) p d now
  have hset := (@cull_settled _ ext) hpref d now
  have hcull := (@cull_expiring _ ext) d now he fun _ => hs
  rw [hset.width] at hcull
  have hk := (@feedByte_keeps _ ext) (p.cull ext d now) ((p.cull ext d now).translate b) d now
  have hfeed := (@feedByte_expiring _ ext) ((p.cull ext d now).translate b) now hcull
    (hc.sent.symm ▸ hs)
  rw [newUserByte, if_neg hpref]
  refine ⟨hk.sent.trans hc.sent, hk.late.trans hc.late, hk.pref.trans hc.pref,
    hk.lastHeight.trans hset.height, hk.lastWidth.trans hset.width, ?_⟩
  dsimp only
  rw [hk.lastWidth.trans hset.width]
  exact hfeed

/-- **A byte of an awaiting predictor confirms nothing.** -/
theorem newUserByte_confirmedEpoch (he : Awaiting p) {d : FrameState}
    (hsize : p.displayPreference ≠ .never → p.lastHeight = d.rows ∧ p.lastWidth = d.cols)
    (b : UInt8) (now : ℕ) :
    (p.newUserByte ext b d now).confirmedEpoch = p.confirmedEpoch := by
  by_cases hpref : p.displayPreference = .never
  · rw [newUserByte, if_pos hpref]
  · rw [newUserByte, if_neg hpref]
    exact (feedByte_keeps ..).confirmedEpoch.trans (cull_epoch_of_awaiting now he hsize)

/-- A byte leaves rows and cursors in the frame whose cursor is. -/
theorem newUserByte_inside (hpref : p.displayPreference ≠ .never) {d : FrameState}
    (hd : CursorInside d) (b : UInt8) (now : ℕ) :
    Inside d.rows d.cols (p.newUserByte ext b d now) := by
  rw [newUserByte, if_neg hpref]
  exact (cull_settled hpref d now).inside.feedByte hd _ now

end Predictor
end Quosh
