/-
# What a cull does to the overlays

`Predictor::cull` judges every overlay against a frame.  It stamps nothing: a
cell overlay that is live afterwards was live before with the same base, and the
only cursor it adds is the one a killed epoch starts over from.

The loop visits the cells by position, and each visit may deactivate cells
anywhere; what a visit can do is `CullStep`, a preorder that the five verdicts
satisfy (`cullCell_ends`).  By the invariant rule of the loops, every cell that
is live at the end was found pending when it was visited
(`cullRows_ends`).  So after a cull every overlay expires later than the
acknowledgement it was judged with (`cull_settled`), and the confirmed epoch is
the old one with the epochs of live cells that were judged correct
(`Culls.credit`).  A cull that finds everything pending judges nothing
(`cull_of_pending`).
-/

import Quosh.Predict.Input

namespace Quosh
namespace Predictor

variable {σ : Type} {ext : Externals σ}

/-! ### Cells by position -/

/-- A cell, its row and its column. -/
theorem cellAt_eq_some {rows : List Row} {i j : ℕ} {d : CellOverlay} :
    cellAt rows i j = some d ↔ ∃ r, rows[i]? = some r ∧ r.cells[j]? = some d := by
  unfold cellAt
  cases rows[i]? <;> simp

/-- The cells of a list of rows are the cells at its positions. -/
theorem mem_flatMap_cells {rows : List Row} {d : CellOverlay} :
    d ∈ rows.flatMap Row.cells ↔ ∃ i j, cellAt rows i j = some d := by
  constructor
  · intro h
    obtain ⟨r, hr, hd⟩ := List.mem_flatMap.1 h
    obtain ⟨i, hi⟩ := List.getElem?_of_mem hr
    obtain ⟨j, hj⟩ := List.getElem?_of_mem hd
    exact ⟨i, j, cellAt_eq_some.2 ⟨r, hi, hj⟩⟩
  · rintro ⟨i, j, h⟩
    obtain ⟨r, hr, hd⟩ := cellAt_eq_some.1 h
    exact List.mem_flatMap.2 ⟨r, List.mem_of_getElem? hr, List.mem_of_getElem? hd⟩

/-- Rows in which nothing is stamped: every position holds the cell it held,
with the same base or deactivated, in the column it had. -/
structure Trims (rows rows' : List Row) : Prop where
  cell : ∀ i j d', cellAt rows' i j = some d' → ∃ d, cellAt rows i j = some d ∧
    d'.base.col = d.base.col ∧ (d'.base.active = true → d'.base = d.base)
  rowNum : ∀ r' ∈ rows', ∃ r ∈ rows, r'.rowNum = r.rowNum

theorem Trims.refl (rows : List Row) : Trims rows rows where
  cell _ _ d h := ⟨d, h, rfl, fun _ => rfl⟩
  rowNum r h := ⟨r, h, rfl⟩

theorem Trims.trans {rows rows' rows'' : List Row} (h : Trims rows rows')
    (h' : Trims rows' rows'') : Trims rows rows'' where
  cell i j d'' hd'' := by
    obtain ⟨d', hd', hc', ha'⟩ := h'.cell i j d'' hd''
    obtain ⟨d, hd, hc, ha⟩ := h.cell i j d' hd'
    refine ⟨d, hd, hc'.trans hc, fun hact => ?_⟩
    have he := ha' hact
    exact he.trans (ha (he ▸ hact))
  rowNum r'' hr'' := by
    obtain ⟨r', hr', he'⟩ := h'.rowNum r'' hr''
    obtain ⟨r, hr, he⟩ := h.rowNum r' hr'
    exact ⟨r, hr, he'.trans he⟩

/-- The cells at the positions of a row that was edited. -/
theorem cellAt_modifyCells {rows : List Row} {ri i j : ℕ}
    {f : List CellOverlay → List CellOverlay} :
    cellAt (modifyCells rows ri f) i j =
      if ri = i then (rows[i]?.map Row.cells).bind fun cells => (f cells)[j]?
      else cellAt rows i j := by
  unfold cellAt modifyCells
  rw [List.getElem?_modify]
  split
  · cases rows[i]? <;> rfl
  · cases rows[i]? <;> rfl

/-- An edit of one row that deactivates at most. -/
theorem trims_modifyCells {rows : List Row} {ri : ℕ} {f : List CellOverlay → List CellOverlay}
    (hf : ∀ (cs : List CellOverlay) (j : ℕ) (d' : CellOverlay), (f cs)[j]? = some d' →
      ∃ d, cs[j]? = some d ∧
      d'.base.col = d.base.col ∧ (d'.base.active = true → d'.base = d.base)) :
    Trims rows (modifyCells rows ri f) where
  cell i j d' h := by
    rw [cellAt_modifyCells] at h
    split at h
    · obtain ⟨cs, hcs, hd'⟩ := Option.bind_eq_some_iff.1 h
      obtain ⟨d, hd, he⟩ := hf cs j d' hd'
      exact ⟨d, Option.bind_eq_some_iff.2 ⟨cs, hcs, hd⟩, he⟩
    · exact ⟨d', h, rfl, fun _ => rfl⟩
  rowNum r' h := by
    rcases mem_of_mem_modify h with h | ⟨r, hr, rfl⟩
    · exact ⟨r', h, rfl⟩
    · exact ⟨r, hr, rfl⟩

/-- Resetting the cell at a position deactivates at most. -/
theorem getElem?_modify_reset {cs : List CellOverlay} {ci j : ℕ} {d' : CellOverlay}
    (h : (cs.modify ci CellOverlay.reset)[j]? = some d') : ∃ d, cs[j]? = some d ∧
      d'.base.col = d.base.col ∧ (d'.base.active = true → d'.base = d.base) ∧
        (j = ci → d'.base.active = false) := by
  rw [List.getElem?_modify] at h
  obtain ⟨d, hd, rfl⟩ := Option.map_eq_some_iff.1 h
  refine ⟨d, hd, ?_⟩
  split
  · exact ⟨rfl, fun ha => absurd ha (by simp), fun _ => rfl⟩
  · rename_i hne
    exact ⟨rfl, fun _ => rfl, fun he => absurd he.symm hne⟩

/-! ### One visit -/

/-- A cell that a cull judged correct lifts the confirmed epoch. -/
def credit (e : ℕ × ℕ) (b : Base) : ℕ × ℕ := (max e.1 b.tentativeUntilEpoch, max e.2 b.enters)

/-- **What a visit can do** to a cull in progress. -/
structure CullStep (c c' : Culling σ) : Prop where
  sent : c'.self.localFrameSent = c.self.localFrameSent
  late : c'.self.localFrameLateAcked = c.self.localFrameLateAcked
  pref : c'.self.displayPreference = c.self.displayPreference
  enters : c'.self.enters = c.self.enters
  lastHeight : c'.self.lastHeight = c.self.lastHeight
  lastWidth : c'.self.lastWidth = c.self.lastWidth
  epochs : c.self.epochs ≤ c'.self.epochs
  rows : Trims c.rows c'.rows
  cursor : ∀ k' ∈ c'.self.cursors, k' ∈ c.self.cursors ∨
    Fresh c.self c'.self k'.base ∧ ∃ i j d, cellAt c.rows i j = some d ∧ d.base.active = true
  credit : ∃ bs : List Base, (∀ b ∈ bs, b.active = true ∧ ∃ i j d, cellAt c.rows i j = some d ∧
      d.base = b) ∧ (c'.self.confirmedEpoch, c'.self.confirmedEnters) =
        bs.foldl Predictor.credit (c.self.confirmedEpoch, c.self.confirmedEnters)

theorem CullStep.refl (c : Culling σ) : CullStep c c where
  sent := rfl
  late := rfl
  pref := rfl
  enters := rfl
  lastHeight := rfl
  lastWidth := rfl
  epochs := le_rfl
  rows := .refl _
  cursor _ h := .inl h
  credit := ⟨[], fun _ h => absurd h List.not_mem_nil, rfl⟩

theorem CullStep.trans {c c' c'' : Culling σ} (h : CullStep c c') (h' : CullStep c' c'') :
    CullStep c c'' where
  sent := h'.sent.trans h.sent
  late := h'.late.trans h.late
  pref := h'.pref.trans h.pref
  enters := h'.enters.trans h.enters
  lastHeight := h'.lastHeight.trans h.lastHeight
  lastWidth := h'.lastWidth.trans h.lastWidth
  epochs := h.epochs.trans h'.epochs
  rows := h.rows.trans h'.rows
  cursor k hk := by
    rcases h'.cursor k hk with hk | ⟨hf, i, j, d', hd', ha⟩
    · exact (h.cursor k hk).imp_right fun ⟨hf, hd⟩ => ⟨hf.widen rfl rfl le_rfl h'.epochs, hd⟩
    · obtain ⟨d, hd, -, hbase⟩ := h.rows.cell i j d' hd'
      exact .inr ⟨hf.widen h.sent h.enters h.epochs le_rfl, i, j, d, hd, hbase ha ▸ ha⟩
  credit := by
    obtain ⟨bs, hbs, he⟩ := h.credit
    obtain ⟨bs', hbs', he'⟩ := h'.credit
    refine ⟨bs ++ bs', fun b hb => ?_, ?_⟩
    · rcases List.mem_append.1 hb with hb | hb
      · exact hbs b hb
      · obtain ⟨ha, i, j, d', hd', rfl⟩ := hbs' b hb
        obtain ⟨d, hd, -, hbase⟩ := h.rows.cell i j d' hd'
        exact ⟨ha, i, j, d, hd, (hbase ha).symm⟩
    · rw [he', he, List.foldl_append]

/-- A visit that edits rows only. -/
theorem cullStep_rows (c : Culling σ) {rows : List Row} (h : Trims c.rows rows) :
    CullStep c { c with rows } :=
  { CullStep.refl c with rows := h }

/-- A visit that kills an epoch, which a live cell belongs to.  Cells and cursors of the
epoch go, and one cursor is added, where the frame has it; its stamp is of the epoch that
begins. -/
theorem cullStep_killEpoch {c : Culling σ} {i j : ℕ} {d : CellOverlay}
    (hd : cellAt c.rows i j = some d) (ha : d.base.active = true) (epoch : ℕ)
    (fb : FrameState) : CullStep c (c.self.killEpoch c.rows epoch fb) where
  sent := rfl
  late := rfl
  pref := rfl
  enters := rfl
  lastHeight := rfl
  lastWidth := rfl
  epochs := Nat.le_succ _
  rows := by
    refine ⟨fun i j d' h => ?_, fun r' h => ?_⟩
    · obtain ⟨r', hr', hd'⟩ := cellAt_eq_some.1 h
      rw [killEpoch, List.getElem?_map] at hr'
      obtain ⟨r, hr, rfl⟩ := Option.map_eq_some_iff.1 hr'
      rw [List.getElem?_map] at hd'
      obtain ⟨d, hd, rfl⟩ := Option.map_eq_some_iff.1 hd'
      refine ⟨d, cellAt_eq_some.2 ⟨r, hr, hd⟩, ?_⟩
      split
      · exact ⟨rfl, fun ha => absurd ha (by simp)⟩
      · exact ⟨rfl, fun _ => rfl⟩
    · obtain ⟨r, hr, rfl⟩ := List.mem_map.1 h
      exact ⟨r, hr, rfl⟩
  cursor k hk := by
    rcases List.mem_append.1 hk with hk | hk
    · exact .inl (List.mem_of_mem_filter hk)
    · rw [List.mem_singleton.1 hk]
      exact .inr ⟨⟨rfl, rfl, rfl, c.self.epochs, le_rfl, Nat.le_succ _, rfl⟩, i, j, d, hd, ha⟩
  credit := ⟨[], fun _ h => absurd h List.not_mem_nil, rfl⟩

/-- What is tentative in the killed epoch is inactive afterwards. -/
theorem killEpoch_cellAt {p : Predictor σ} {rows : List Row} {fb : FrameState} {i j epoch : ℕ}
    {d d' : CellOverlay} (hd : cellAt rows i j = some d)
    (ht : d.base.tentative (epoch - 1) = true)
    (hd' : cellAt (p.killEpoch rows epoch fb).rows i j = some d') : d'.base.active = false := by
  obtain ⟨r, hr, hrd⟩ := cellAt_eq_some.1 hd
  obtain ⟨r', hr', hrd'⟩ := cellAt_eq_some.1 hd'
  rw [killEpoch, List.getElem?_map, hr] at hr'
  cases hr'
  rw [List.getElem?_map, hrd] at hrd'
  cases hrd'
  simp only [ht, if_true, CellOverlay.base_reset, Base.active_reset]

/-- The cells of a row after a confirmation. -/
theorem confirmCell_cells {cs : List CellOverlay} {ci j : ℕ} {actual : Cell} {d' : CellOverlay}
    (h : ((cs.mapIdx fun k d =>
      if ci ≤ k then { d with replacement := copyRenditions d.replacement actual } else d).modify ci
        CellOverlay.reset)[j]? = some d') : ∃ d, cs[j]? = some d ∧ d'.base.col = d.base.col ∧
      (d'.base.active = true → d'.base = d.base) ∧ (j = ci → d'.base.active = false) := by
  obtain ⟨e, he, hcol, hbase, hci⟩ := getElem?_modify_reset h
  rw [List.getElem?_mapIdx] at he
  obtain ⟨d, hd, rfl⟩ := Option.map_eq_some_iff.1 he
  have hsame : ∀ e : CellOverlay, (if ci ≤ j then
      { e with replacement := copyRenditions e.replacement actual } else e).base = e.base := by
    intro e
    split <;> rfl
  rw [hsame] at hcol hbase
  exact ⟨d, hd, hcol, hbase, hci⟩

/-- A cell that is confirmed. -/
theorem cullStep_confirmCell {c : Culling σ} {fb : FrameState} {now ri ci rowNum : ℕ}
    {cell : CellOverlay} (hcell : cellAt c.rows ri ci = some cell)
    (ha : cell.base.active = true) : CullStep c (confirmCell c fb now ri ci rowNum cell) := by
  have hrows : Trims c.rows (confirmCell c fb now ri ci rowNum cell).rows :=
    trims_modifyCells fun cs j d' h => by
      obtain ⟨d, hd, hcol, hbase, -⟩ := confirmCell_cells h
      exact ⟨d, hd, hcol, hbase⟩
  have hcredit : ∃ bs : List Base, (∀ b ∈ bs, b.active = true ∧
      ∃ i j d, cellAt c.rows i j = some d ∧ d.base = b) ∧
        (max c.self.confirmedEpoch cell.base.tentativeUntilEpoch,
          max c.self.confirmedEnters cell.base.enters) =
            bs.foldl Predictor.credit (c.self.confirmedEpoch, c.self.confirmedEnters) := by
    refine ⟨[cell.base], fun b hb => ?_, rfl⟩
    rw [List.mem_singleton.1 hb]
    exact ⟨ha, ri, ci, cell, hcell, rfl⟩
  unfold confirmCell at hrows ⊢
  dsimp only at hrows ⊢
  split
  · exact ⟨rfl, rfl, rfl, rfl, rfl, rfl, le_rfl, hrows, fun _ h => .inl h, hcredit⟩
  · exact ⟨rfl, rfl, rfl, rfl, rfl, rfl, le_rfl, hrows, fun _ h => .inl h, hcredit⟩

/-- A cell that goes on waiting. -/
theorem cullStep_awaitCell (c : Culling σ) (now : ℕ) (cell : CellOverlay) :
    CullStep c { c with self := awaitCell c.self now cell } := by
  have hr := CullStep.refl c
  unfold awaitCell
  dsimp only
  split
  · exact ⟨rfl, rfl, rfl, rfl, rfl, rfl, le_rfl, hr.rows, fun _ h => .inl h, hr.credit⟩
  · split
    · exact ⟨rfl, rfl, rfl, rfl, rfl, rfl, le_rfl, hr.rows, fun _ h => .inl h, hr.credit⟩
    · exact hr

/-- The cell at a position is not live, or not yet acknowledged. -/
def SettledAt (c : Culling σ) (i j : ℕ) : Prop :=
  ∀ d, cellAt c.rows i j = some d → d.base.active = true →
    c.self.localFrameLateAcked < d.base.expirationFrame

/-- What is settled stays so. -/
theorem SettledAt.step {c c' : Culling σ} {i j : ℕ} (h : SettledAt c i j) (hs : CullStep c c') :
    SettledAt c' i j := by
  intro d' hd' ha
  obtain ⟨d, hd, -, hbase⟩ := hs.rows.cell i j d' hd'
  have he := hbase ha
  rw [hs.late, he]
  exact h d hd (he ▸ ha)

/-- **A visit settles the cell it visits**, or the cull ends with a reset.  By the verdict
on the cell: confirmed and refuted cells become inactive, and a pending one expires later. -/
theorem cullCell_ends (fb : FrameState) (now ri rowNum ci : ℕ) (c : Culling σ) :
    Ends (cullCell ext fb now ri rowNum ci c) (fun p => p = c.self.reset)
      fun c' => CullStep c c' ∧ SettledAt c' ri ci := by
  unfold cullCell
  cases hcell : cellAt c.rows ri ci with
  | none => exact ⟨.refl c, fun d hd => by rw [hcell] at hd; cases hd⟩
  | some cell =>
    dsimp only
    cases hv : cell.validity ext fb rowNum c.self.localFrameLateAcked with
    | incorrectOrExpired =>
      dsimp only
      split
      · rename_i ht
        have hlive := CellOverlay.active_of_validity_incorrect hv
        refine ⟨cullStep_killEpoch hcell hlive .., fun d' hd' ha => ?_⟩
        have hself : cell.base.tentative (cell.base.tentativeUntilEpoch - 1) = true := by
          simp only [Base.tentative, decide_eq_true_eq] at ht ⊢
          omega
        rw [killEpoch_cellAt hcell hself hd'] at ha
        exact absurd ha Bool.false_ne_true
      · rfl
    | correct =>
      refine ⟨cullStep_confirmCell hcell (CellOverlay.active_of_validity_correct hv), ?_⟩
      intro d' hd' ha
      rw [confirmCell, cellAt_modifyCells, if_pos rfl] at hd'
      obtain ⟨cs, -, hd'⟩ := Option.bind_eq_some_iff.1 hd'
      obtain ⟨-, -, -, -, hci⟩ := confirmCell_cells hd'
      rw [hci rfl] at ha
      exact absurd ha Bool.false_ne_true
    | correctNoCredit =>
      refine ⟨cullStep_rows c (trims_modifyCells fun cs j d' h => ?_), fun d' hd' ha => ?_⟩
      · obtain ⟨d, hd, hcol, hbase, -⟩ := getElem?_modify_reset h
        exact ⟨d, hd, hcol, hbase⟩
      · rw [cellAt_modifyCells, if_pos rfl] at hd'
        obtain ⟨cs, -, hd'⟩ := Option.bind_eq_some_iff.1 hd'
        obtain ⟨-, -, -, -, hci⟩ := getElem?_modify_reset hd'
        rw [hci rfl] at ha
        exact absurd ha Bool.false_ne_true
    | pending =>
      have hstep := cullStep_awaitCell c now cell
      refine ⟨hstep, fun d' hd' _ => ?_⟩
      rw [hstep.late]
      obtain rfl : cell = d' := Option.some.inj (hcell.symm.trans hd')
      exact CellOverlay.lt_of_validity_pending hv
    | inactive =>
      refine ⟨.refl c, fun d' hd' ha => ?_⟩
      obtain rfl : cell = d' := Option.some.inj (hcell.symm.trans hd')
      rw [CellOverlay.active_of_validity_inactive hv] at ha
      exact absurd ha Bool.false_ne_true

/-! ### The loops -/

/-- A reset that ends a cull in the middle. -/
def Abandons (c : Culling σ) (p : Predictor σ) : Prop := ∃ c', CullStep c c' ∧ p = c'.self.reset

/-- **A row is culled**: every cell of it is settled, or all is dropped. -/
theorem cullRow_ends (fb : FrameState) (now ri : ℕ) (c : Culling σ) :
    Ends (cullRow ext fb now ri c) (Abandons c)
      fun c' => CullStep c c' ∧ ∀ j, SettledAt c' ri j := by
  unfold cullRow
  cases hrow : c.rows[ri]? with
  | none =>
    refine ⟨.refl c, fun j d hd => ?_⟩
    obtain ⟨r, hr, -⟩ := cellAt_eq_some.1 hd
    rw [hrow] at hr
    cases hr
  | some row =>
    have hloop :=
      (@forRange_ends _ _ row.cells.length (cullCell ext fb now ri row.rowNum) c (Abandons c))
      (fun n c' => CullStep c c' ∧ ∀ j < n, SettledAt c' ri j)
      ⟨.refl c, fun j hj => absurd hj (Nat.not_lt_zero j)⟩
      fun ci c' _ ⟨hstep, hset⟩ => (cullCell_ends fb now ri row.rowNum ci c').mono
        (fun p hp => ⟨c', hstep, hp⟩) fun c'' ⟨hstep', hci⟩ => by
          refine ⟨hstep.trans hstep', fun j hj => ?_⟩
          rcases Nat.lt_succ_iff_lt_or_eq.1 hj with hj | rfl
          · exact (hset j hj).step hstep'
          · exact hci
    refine hloop.mono (fun _ h => h) fun c' ⟨hstep, hset⟩ => ⟨hstep, fun j d' hd' ha => ?_⟩
    -- a column past the end of the row holds no cell
    obtain ⟨d, hd, -⟩ := hstep.rows.cell ri j d' hd'
    obtain ⟨r, hr, hj⟩ := cellAt_eq_some.1 hd
    rw [hrow] at hr
    cases hr
    exact hset j (List.getElem?_eq_some_iff.1 hj).1 d' hd' ha

/-- **After the loops every cell is settled**, or the cull was abandoned. -/
theorem cullRows_ends (fb : FrameState) (now : ℕ) (c : Culling σ) :
    Ends (cullRows ext fb now c) (Abandons c)
      fun c' => CullStep c c' ∧ ∀ i j, SettledAt c' i j := by
  have hloop := (@forRange_ends _ _ c.rows.length (cullRow ext fb now) c (Abandons c))
    (fun n c' => CullStep c c' ∧ ∀ i < n, ∀ j, SettledAt c' i j)
    ⟨.refl c, fun i hi => absurd hi (Nat.not_lt_zero i)⟩
    fun ri c' _ ⟨hstep, hset⟩ => (cullRow_ends fb now ri c').mono
      (fun p ⟨c₁, hstep', hp⟩ => ⟨c₁, hstep.trans hstep', hp⟩) fun c'' ⟨hstep', hri⟩ => by
        refine ⟨hstep.trans hstep', fun i hi j => ?_⟩
        rcases Nat.lt_succ_iff_lt_or_eq.1 hi with hi | rfl
        · exact (hset i hi j).step hstep'
        · exact hri j
  refine hloop.mono (fun _ h => h) fun c' ⟨hstep, hset⟩ => ⟨hstep, fun i j d' hd' ha => ?_⟩
  obtain ⟨d, hd, -⟩ := hstep.rows.cell i j d' hd'
  obtain ⟨r, hr, -⟩ := cellAt_eq_some.1 hd
  exact hset i (List.getElem?_eq_some_iff.1 hr).1 j d' hd' ha

/-! ### The whole cull -/

/-- **What a cull can do** to the predictor. -/
structure Culls (p p' : Predictor σ) : Prop where
  sent : p'.localFrameSent = p.localFrameSent
  late : p'.localFrameLateAcked = p.localFrameLateAcked
  pref : p'.displayPreference = p.displayPreference
  enters : p'.enters = p.enters
  epochs : p.epochs ≤ p'.epochs
  cell : ∀ c' ∈ p'.cells, ∃ c ∈ p.cells,
    c'.base.col = c.base.col ∧ (c'.base.active = true → c'.base = c.base)
  size : p'.cells = [] ∨ p'.lastHeight = p.lastHeight ∧ p'.lastWidth = p.lastWidth
  cursor : ∀ k' ∈ p'.cursors, k' ∈ p.cursors ∨
    Fresh p p' k'.base ∧ ∃ c ∈ p.cells, c.base.active = true
  credit : ∃ bs : List Base, (∀ b ∈ bs, b.active = true ∧ ∃ c ∈ p.cells, c.base = b) ∧
    (p'.confirmedEpoch, p'.confirmedEnters) =
      bs.foldl Predictor.credit (p.confirmedEpoch, p.confirmedEnters)

/-- A predictor reconciled with a frame: sized for it, with no row below it, and
every live overlay awaiting a later acknowledgement. -/
structure Settled (fb : FrameState) (p : Predictor σ) : Prop where
  height : p.lastHeight = fb.rows
  width : p.lastWidth = fb.cols
  row : ∀ r ∈ p.overlays, r.rowNum < fb.rows
  cell : ∀ c ∈ p.cells, c.base.active = true → p.localFrameLateAcked < c.base.expirationFrame
  cursor : ∀ k ∈ p.cursors, k.base.active = true ∧
    p.localFrameLateAcked < k.base.expirationFrame ∧ k.row < fb.rows ∧ k.col < fb.cols

/-- The culling state `cull` enters its loops with. -/
def cullStart (p : Predictor σ) (fb : FrameState) : Culling σ :=
  ⟨{ (p.cullResize fb).cullTriggers with overlays := [] },
    (p.cullResize fb).cullTriggers.overlays.filter fun r => r.rowNum < fb.rows⟩

/-- The triggers are three fields of their own. -/
theorem cullTriggers_eq (p : Predictor σ) : ∃ s f, p.cullTriggers =
    { p with srttTrigger := s, flagging := f } := by
  unfold cullTriggers
  dsimp only
  split_ifs <;> exact ⟨_, _, rfl⟩

/-- The opening of a cull keeps the overlays or drops them all. -/
theorem cullStart_spec (p : Predictor σ) (fb : FrameState) :
    (p.cullStart fb).self.localFrameSent = p.localFrameSent ∧
    (p.cullStart fb).self.localFrameLateAcked = p.localFrameLateAcked ∧
    (p.cullStart fb).self.displayPreference = p.displayPreference ∧
    (p.cullStart fb).self.enters = p.enters ∧
    (p.cullStart fb).self.confirmedEpoch = p.confirmedEpoch ∧
    (p.cullStart fb).self.confirmedEnters = p.confirmedEnters ∧
    p.epochs ≤ (p.cullStart fb).self.epochs ∧
    (p.cullStart fb).self.lastHeight = fb.rows ∧ (p.cullStart fb).self.lastWidth = fb.cols ∧
    (∀ k ∈ (p.cullStart fb).self.cursors, k ∈ p.cursors) ∧
    (∀ r ∈ (p.cullStart fb).rows, r ∈ p.overlays ∧ r.rowNum < fb.rows) ∧
    ((p.cullStart fb).rows = [] ∨ fb.rows = p.lastHeight ∧ fb.cols = p.lastWidth) := by
  obtain ⟨s, f, ht⟩ := cullTriggers_eq (p.cullResize fb)
  unfold cullStart
  rw [ht]
  unfold cullResize
  split
  · refine ⟨rfl, rfl, rfl, rfl, rfl, rfl, Nat.le_succ _, rfl, rfl, ?_, ?_, .inl rfl⟩
    · exact fun k hk => absurd hk List.not_mem_nil
    · exact fun r hr => absurd (List.mem_of_mem_filter hr) List.not_mem_nil
  · rename_i hsize
    have hh : p.lastHeight = fb.rows := not_not.1 fun h => hsize (.inl h)
    have hw : p.lastWidth = fb.cols := not_not.1 fun h => hsize (.inr h)
    refine ⟨rfl, rfl, rfl, rfl, rfl, rfl, le_rfl, hh, hw, fun _ hk => hk, fun r hr => ?_,
      .inr ⟨hh.symm, hw.symm⟩⟩
    · obtain ⟨hr, hlt⟩ := List.mem_filter.1 hr
      exact ⟨hr, of_decide_eq_true hlt⟩

/-- A cull is its loops from that state, and what follows them. -/
theorem cull_eq {p : Predictor σ} (hpref : p.displayPreference ≠ .never) (fb : FrameState)
    (now : ℕ) : p.cull ext fb now =
      match cullRows ext fb now (p.cullStart fb) with
      | .error p => p
      | .ok c => ({ c.self with overlays := c.rows } : Predictor σ).cullCursors fb := by
  rw [cull, if_neg hpref]
  rfl

/-- What a cull ends with: an abandoned loop, or the cursors of a finished one. -/
theorem cull_cases {p : Predictor σ} (hpref : p.displayPreference ≠ .never) (fb : FrameState)
    (now : ℕ) :
    (∃ c, CullStep (p.cullStart fb) c ∧ p.cull ext fb now = c.self.reset) ∨
    ∃ c, CullStep (p.cullStart fb) c ∧ (∀ i j, SettledAt c i j) ∧
      p.cull ext fb now = ({ c.self with overlays := c.rows } : Predictor σ).cullCursors fb := by
  have hloop := (@cullRows_ends _ ext) fb now (p.cullStart fb)
  rw [cull_eq hpref]
  cases hr : cullRows ext fb now (p.cullStart fb) with
  | error q =>
    rw [hr] at hloop
    obtain ⟨c, hc, rfl⟩ := hloop
    exact .inl ⟨c, hc, rfl⟩
  | ok c =>
    rw [hr] at hloop
    exact .inr ⟨c, hloop.1, hloop.2, rfl⟩

/-- The credits of a cull in progress are live cells of the predictor. -/
theorem CullStep.credit_cells {p : Predictor σ} {fb : FrameState} {c : Culling σ}
    (h : CullStep (p.cullStart fb) c) : ∃ bs : List Base,
      (∀ b ∈ bs, b.active = true ∧ ∃ d ∈ p.cells, d.base = b) ∧
      (c.self.confirmedEpoch, c.self.confirmedEnters) =
        bs.foldl Predictor.credit (p.confirmedEpoch, p.confirmedEnters) := by
  obtain ⟨-, -, -, -, he, hn, -, -, -, -, hrows, -⟩ := cullStart_spec p fb
  obtain ⟨bs, hbs, hfold⟩ := h.credit
  rw [he, hn] at hfold
  refine ⟨bs, fun b hb => ?_, hfold⟩
  obtain ⟨ha, i, j, d, hd, rfl⟩ := hbs b hb
  obtain ⟨r, hr, hrd⟩ := cellAt_eq_some.1 hd
  exact ⟨ha, d, List.mem_flatMap.2 ⟨r, (hrows r (List.mem_of_getElem? hr)).1,
    List.mem_of_getElem? hrd⟩, rfl⟩

/-- **A cull stamps nothing** but a cursor to start over from.  Every cell that is left was
there before the cull, in the same column, with the same stamp or inactive; after a reset
none is. -/
theorem cull_culls (p : Predictor σ) (fb : FrameState) (now : ℕ) :
    Culls p (p.cull ext fb now) := by
  by_cases hpref : p.displayPreference = .never
  · rw [cull, if_pos hpref]
    exact ⟨rfl, rfl, rfl, rfl, le_rfl, fun c hc => ⟨c, hc, rfl, fun _ => rfl⟩,
      .inr ⟨rfl, rfl⟩, fun k hk => .inl hk, [], fun _ h => absurd h List.not_mem_nil, rfl⟩
  obtain ⟨hs, hl, hp, hn, -, -, he, hh, hw, hk, hr, hsize⟩ := cullStart_spec p fb
  rcases (@cull_cases _ ext) hpref fb now with ⟨c, hc, hcull⟩ | ⟨c, hc, -, hcull⟩
  · rw [hcull]
    refine ⟨hc.sent.trans hs, hc.late.trans hl, hc.pref.trans hp, hc.enters.trans hn,
      he.trans (hc.epochs.trans (Nat.le_succ _)), ?_, .inl rfl, ?_, hc.credit_cells⟩
    · exact fun d hd => absurd hd List.not_mem_nil
    · exact fun k hk => absurd hk List.not_mem_nil
  · have hfields : Culls p ({ c.self with overlays := c.rows } : Predictor σ) := by
      refine ⟨hc.sent.trans hs, hc.late.trans hl, hc.pref.trans hp, hc.enters.trans hn,
        he.trans hc.epochs, fun d' hd' => ?_, ?_, fun k hk' => ?_, hc.credit_cells⟩
      · obtain ⟨i, j, hd'⟩ := mem_flatMap_cells.1 hd'
        obtain ⟨d, hd, hcol, hbase⟩ := hc.rows.cell i j d' hd'
        obtain ⟨r, hri, hrd⟩ := cellAt_eq_some.1 hd
        exact ⟨d, List.mem_flatMap.2 ⟨r, (hr r (List.mem_of_getElem? hri)).1,
          List.mem_of_getElem? hrd⟩, hcol, hbase⟩
      · rcases hsize with hnil | ⟨hh', hw'⟩
        · refine .inl (List.eq_nil_iff_forall_not_mem.2 fun d hd => ?_)
          obtain ⟨i, j, hd⟩ := mem_flatMap_cells.1 hd
          obtain ⟨d', hd', -⟩ := hc.rows.cell i j d hd
          obtain ⟨r, hri, -⟩ := cellAt_eq_some.1 hd'
          rw [hnil] at hri
          cases hri
        · exact .inr ⟨(hc.lastHeight.trans hh).trans hh', (hc.lastWidth.trans hw).trans hw'⟩
      · refine (hc.cursor k hk').imp (hk k) fun ⟨hf, i, j, d, hd, ha⟩ => ?_
        obtain ⟨r, hri, hrd⟩ := cellAt_eq_some.1 hd
        exact ⟨hf.widen hs hn he le_rfl, d, List.mem_flatMap.2
          ⟨r, (hr r (List.mem_of_getElem? hri)).1, List.mem_of_getElem? hrd⟩, ha⟩
    rw [hcull]
    unfold cullCursors
    split
    · refine ⟨hfields.sent, hfields.late, hfields.pref, hfields.enters,
        hfields.epochs.trans (Nat.le_succ _), ?_, .inl rfl, ?_, hfields.credit⟩
      · exact fun d hd => absurd hd List.not_mem_nil
      · exact fun k hk => absurd hk List.not_mem_nil
    · exact { hfields with
        cursor := fun k hk => (hfields.cursor k (List.mem_of_mem_filter hk)).imp_right
          fun ⟨hf, hd⟩ => ⟨hf.widen rfl rfl le_rfl le_rfl, hd⟩ }

/-- **After a cull every overlay is settled.** -/
theorem cull_settled {p : Predictor σ} (hpref : p.displayPreference ≠ .never) (fb : FrameState)
    (now : ℕ) : Settled fb (p.cull ext fb now) := by
  obtain ⟨-, -, -, -, -, -, -, hh, hw, -, hr, -⟩ := cullStart_spec p fb
  rcases (@cull_cases _ ext) hpref fb now with ⟨c, hc, hcull⟩ | ⟨c, hc, hset, hcull⟩
  · rw [hcull]
    exact ⟨hc.lastHeight.trans hh, hc.lastWidth.trans hw, fun r h => absurd h List.not_mem_nil,
      fun d h => absurd h List.not_mem_nil, fun k h => absurd h List.not_mem_nil⟩
  · rw [hcull]
    unfold cullCursors
    split
    · exact ⟨hc.lastHeight.trans hh, hc.lastWidth.trans hw, fun r h => absurd h List.not_mem_nil,
        fun d h => absurd h List.not_mem_nil, fun k h => absurd h List.not_mem_nil⟩
    · refine ⟨hc.lastHeight.trans hh, hc.lastWidth.trans hw, fun r' hr' => ?_, fun d hd ha => ?_,
        fun k hk => ?_⟩
      · obtain ⟨r, hr₀, he⟩ := hc.rows.rowNum r' hr'
        rw [he]
        exact (hr r hr₀).2
      · obtain ⟨i, j, hd⟩ := mem_flatMap_cells.1 hd
        exact hset i j d hd ha
      · obtain ⟨-, hv⟩ := List.mem_filter.1 hk
        rw [Bool.and_eq_true, decide_eq_true_eq] at hv
        exact ⟨hv.1, CursorOverlay.of_validity_pending hv.2⟩

/-! ### A cull that finds everything pending -/

/-- Every live cell in a row of the frame is found pending. -/
def CellsPending (ext : Externals σ) (fb : FrameState) (p : Predictor σ) : Prop :=
  ∀ r ∈ p.overlays, r.rowNum < fb.rows → ∀ c ∈ r.cells, c.base.active = true →
    c.validity ext fb r.rowNum p.localFrameLateAcked = .pending

/-- A pending cell is passed over. -/
theorem awaitCell_eq (p : Predictor σ) (now : ℕ) (cell : CellOverlay) :
    ∃ g, awaitCell p now cell = { p with glitchTrigger := g } := by
  unfold awaitCell
  dsimp only
  split_ifs <;> exact ⟨_, rfl⟩

/-- **Loops over pending cells change nothing** but the glitch counter.  The invariant of
both loops is that the rows, and all of the predictor but the counter, are what they were. -/
theorem cullRows_of_pending {c : Culling σ} {fb : FrameState} (now : ℕ)
    (h : ∀ r ∈ c.rows, ∀ d ∈ r.cells, d.base.active = true →
      d.validity ext fb r.rowNum c.self.localFrameLateAcked = .pending) :
    ∃ g, cullRows ext fb now c = .ok ⟨{ c.self with glitchTrigger := g }, c.rows⟩ := by
  let I (c' : Culling σ) : Prop := ∃ g, c' = ⟨{ c.self with glitchTrigger := g }, c.rows⟩
  have hcell (ri ci : ℕ) (row : Row) (hrow : c.rows[ri]? = some row) (c' : Culling σ) (hI : I c') :
      Ends (cullCell ext fb now ri row.rowNum ci c') (fun _ => False) I := by
    obtain ⟨g, rfl⟩ := hI
    unfold cullCell
    cases hcell : cellAt c.rows ri ci with
    | none => exact ⟨g, rfl⟩
    | some d =>
      obtain ⟨r, hr, hd⟩ := cellAt_eq_some.1 hcell
      obtain rfl : row = r := Option.some.inj (hrow.symm.trans hr)
      dsimp only
      by_cases ha : d.base.active = true
      · rw [h row (List.mem_of_getElem? hr) d (List.mem_of_getElem? hd) ha]
        obtain ⟨g', hg'⟩ := awaitCell_eq { c.self with glitchTrigger := g } now d
        exact ⟨g', by dsimp only; rw [hg']⟩
      · have hv : d.validity ext fb row.rowNum c.self.localFrameLateAcked = .inactive := by
          unfold CellOverlay.validity
          rw [if_pos (by simpa using ha)]
        rw [hv]
        exact ⟨g, rfl⟩
  have hrow (ri : ℕ) (c' : Culling σ) (hI : I c') :
      Ends (cullRow ext fb now ri c') (fun _ => False) I := by
    have hrows : c'.rows = c.rows := by
      obtain ⟨g, rfl⟩ := hI
      rfl
    unfold cullRow
    rw [hrows]
    cases hr : c.rows[ri]? with
    | none => exact hI
    | some row => exact forRange_ends (fun _ => I) hI fun ci c'' _ => hcell ri ci row hr c''
  have hloop := (@forRange_ends _ _ c.rows.length (cullRow ext fb now)) (fun _ => I)
    ⟨c.self.glitchTrigger, rfl⟩ fun ri c' _ => hrow ri c'
  unfold cullRows
  cases hres : forRange c.rows.length (cullRow ext fb now) c with
  | error p => rw [hres] at hloop; exact absurd hloop id
  | ok c' =>
    rw [hres] at hloop
    obtain ⟨g, rfl⟩ := hloop
    exact ⟨g, rfl⟩

/-- **A cull of its own size that finds every cell pending judges no cell**: it
keeps the rows of the frame, and the cursors decide as they are. -/
theorem cull_of_pending {p : Predictor σ} {fb : FrameState} (now : ℕ)
    (hpref : p.displayPreference ≠ .never) (hh : p.lastHeight = fb.rows)
    (hw : p.lastWidth = fb.cols) (h : CellsPending ext fb p) :
    ∃ s f g, p.cull ext fb now =
      ({ p with
        srttTrigger := s, flagging := f, glitchTrigger := g
        overlays := p.overlays.filter fun r => r.rowNum < fb.rows } : Predictor σ).cullCursors
          fb := by
  have hsize : p.cullResize fb = p := if_neg (by simp [hh, hw])
  obtain ⟨s, f, ht⟩ := cullTriggers_eq p
  obtain ⟨g, hg⟩ := (@cullRows_of_pending _ ext (⟨{ p.cullTriggers with overlays := [] },
      p.cullTriggers.overlays.filter fun r => r.rowNum < fb.rows⟩) fb) now (by
        intro r hr
        rw [ht] at hr ⊢
        obtain ⟨hr, hlt⟩ := List.mem_filter.1 hr
        exact h r hr (of_decide_eq_true hlt))
  refine ⟨s, f, g, ?_⟩
  rw [cull, if_neg hpref, hsize]
  dsimp only
  rw [hg, ht]

end Predictor
end Quosh
