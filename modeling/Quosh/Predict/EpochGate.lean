/-
# The epoch gate

`docs/12-prediction.md`, "Safety boundaries": Enter starts a new epoch, and a
prediction is displayed only once a prediction of its epoch is confirmed.  So
what is typed after Enter, a password for instance, stays hidden.

A predictor moves in steps (`Step`): the acts of the parser in any order, culls,
resets and setters.  Every step is a carriage return's `enter`, or not, followed
by moves (`step_moves`): a move leaves the stamp of a live overlay alone or
stamps it with an epoch of the moment, and confirms only epochs of live cells
(`Moves`).  Along a run epochs and counts of carriage returns bound all stamps
(`Ordered`); behind an Enter the overlays stamped after it are those of a later
epoch than its own, and the confirmed epoch stays below that until one of them is
judged correct (`Gated`).  `epochGate` reads this at `apply`.

The epoch of the source wraps at `2 ^ 64`; the results hold while it has not.
-/

import Quosh.Predict.Cull
import Mathlib.Logic.Relation

namespace Quosh
namespace Predictor

variable {σ : Type} {ext : Externals σ} {p p' : Predictor σ}

/-! ### Runs of a predictor -/

/-- One step of a predictor: a byte reaching the parser, an act it dispatches, or
a call of the client. -/
inductive Step (ext : Externals σ) : Predictor σ → Predictor σ → Prop
  | byte (p : Predictor σ) (lastByte : UInt8) (parser : σ) :
    Step ext p { p with lastByte, parser }
  | act (p : Predictor σ) (display : FrameState) (now : ℕ) (act : Act) :
    Step ext p (p.dispatch ext display now act)
  | cull (p : Predictor σ) (fb : FrameState) (now : ℕ) : Step ext p (p.cull ext fb now)
  | reset (p : Predictor σ) : Step ext p p.reset
  | displayPreference (p : Predictor σ) (pref : DisplayPreference) :
    Step ext p (p.setDisplayPreference pref)
  | localFrameSent (p : Predictor σ) (seq : ℕ) : Step ext p (p.setLocalFrameSent seq)
  | localFrameAcked (p : Predictor σ) (seq : ℕ) : Step ext p (p.setLocalFrameAcked seq)
  | localFrameLateAcked (p : Predictor σ) (seq : ℕ) : Step ext p (p.setLocalFrameLateAcked seq)
  | sendInterval (p : Predictor σ) (ms : ℕ) : Step ext p (p.setSendInterval ms)
  | predictOverwrite (p : Predictor σ) (overwrite : Bool) :
    Step ext p (p.setPredictOverwrite overwrite)

/-- Any number of steps. -/
abbrev Steps (ext : Externals σ) : Predictor σ → Predictor σ → Prop :=
  Relation.ReflTransGen (Step ext)

/-- The acts of one byte are steps. -/
theorem foldl_dispatch_steps (display : FrameState) (now : ℕ) (acts : List Act)
    (p : Predictor σ) :
    Steps ext p (acts.foldl (fun p act => p.dispatch ext display now act) p) := by
  induction acts generalizing p with
  | nil => exact .refl
  | cons act acts ih => exact .head (.act p display now act) (ih _)

/-- A byte behind its cull is a run. -/
theorem feedByte_steps (p : Predictor σ) (b : UInt8) (display : FrameState) (now : ℕ) :
    Steps ext p (p.feedByte ext b display now) := by
  unfold feedByte
  split
  · exact .head (.byte p b p.parser) (.single (.act _ display now (.print '\x7f')))
  · exact .head (.byte p b _) (foldl_dispatch_steps display now _ _)

/-- **A byte is a run**: `new_user_byte` takes the steps of its cull, of the
parser, and of the acts. -/
theorem newUserByte_steps (p : Predictor σ) (byte : UInt8) (display : FrameState) (now : ℕ) :
    Steps ext p (p.newUserByte ext byte display now) := by
  unfold newUserByte
  split
  · exact .refl
  · exact .head (.cull p display now) (feedByte_steps ..)

/-! ### Moves -/

/-- A live overlay of the predictor has this epoch and this count of carriage
returns. -/
def Live (p : Predictor σ) (epoch enters : ℕ) : Prop :=
  (∃ c ∈ p.cells, c.base.active = true ∧ c.base.tentativeUntilEpoch = epoch ∧
    c.base.enters = enters) ∨
  ∃ k ∈ p.cursors, k.base.tentativeUntilEpoch = epoch ∧ k.base.enters = enters

/-- **What a step does to stamps.** -/
structure Moves (p p' : Predictor σ) : Prop where
  enters : p'.enters = p.enters
  epochs : p.epochs ≤ p'.epochs
  live : ∀ t k, Live p' t k →
    Live p t k ∨ k = p.enters ∧ ∃ n, p.epochs ≤ n ∧ n ≤ p'.epochs ∧ t = n % 2 ^ 64
  credit : ∃ bs : List Base, (∀ b ∈ bs, Live p b.tentativeUntilEpoch b.enters) ∧
    (p'.confirmedEpoch, p'.confirmedEnters) =
      bs.foldl Predictor.credit (p.confirmedEpoch, p.confirmedEnters)

/-- A step that touches neither overlays nor epochs. -/
theorem moves_of_eq (hcells : p'.overlays = p.overlays) (hcursors : p'.cursors = p.cursors)
    (hepochs : p'.epochs = p.epochs) (henters : p'.enters = p.enters)
    (hce : p'.confirmedEpoch = p.confirmedEpoch)
    (hcn : p'.confirmedEnters = p.confirmedEnters) : Moves p p' where
  enters := henters
  epochs := hepochs.ge
  live t k h := by
    unfold Live cells at h
    rw [hcells, hcursors] at h
    exact .inl h
  credit := ⟨[], fun _ h => absurd h List.not_mem_nil, by rw [hce, hcn]; rfl⟩

/-- What is fresh has the stamp of the moment. -/
theorem Fresh.moves {b : Base} (h : Fresh p p' b) : b.enters = p.enters ∧
    ∃ n, p.epochs ≤ n ∧ n ≤ p'.epochs ∧ b.tentativeUntilEpoch = n % 2 ^ 64 :=
  ⟨h.enters, h.epoch⟩

/-- What input does is a move. -/
theorem Evolves.moves {w : ℕ} (h : Evolves w p p') : Moves p p' where
  enters := h.enters
  epochs := h.epochs
  live := by
    rintro t k (⟨c', hc', ha, rfl, rfl⟩ | ⟨c', hc', rfl, rfl⟩)
    · rcases h.cell c' hc' ha with ⟨c, hc, he⟩ | hf
      · exact .inl (.inl ⟨c, hc, he ▸ ha, by rw [he], by rw [he]⟩)
      · exact .inr hf.moves
    · rcases h.cursor c' hc' with ⟨c, hc, he⟩ | hf
      · exact .inl (.inr ⟨c, hc, he.epoch.symm, he.enters.symm⟩)
      · exact .inr hf.moves
  credit := ⟨[], fun _ h => absurd h List.not_mem_nil, by
    rw [h.confirmedEpoch, h.confirmedEnters]
    rfl⟩

/-- What a cull does is a move. -/
theorem Culls.moves (h : Culls p p') : Moves p p' where
  enters := h.enters
  epochs := h.epochs
  live := by
    rintro t k (⟨c', hc', ha, rfl, rfl⟩ | ⟨c', hc', rfl, rfl⟩)
    · obtain ⟨c, hc, -, hbase⟩ := h.cell c' hc'
      have he := hbase ha
      exact .inl (.inl ⟨c, hc, he ▸ ha, by rw [he], by rw [he]⟩)
    · rcases h.cursor c' hc' with hc | ⟨hf, -⟩
      · exact .inl (.inr ⟨c', hc, rfl, rfl⟩)
      · exact .inr hf.moves
  credit := by
    obtain ⟨bs, hbs, he⟩ := h.credit
    refine ⟨bs, fun b hb => ?_, he⟩
    obtain ⟨ha, c, hc, rfl⟩ := hbs b hb
    exact .inl ⟨c, hc, ha, rfl, rfl⟩

/-- A reset is a move. -/
theorem reset_moves (p : Predictor σ) : Moves p p.reset where
  enters := rfl
  epochs := Nat.le_succ _
  live := by
    rintro t k (⟨c, hc, -⟩ | ⟨c, hc, -⟩)
    · exact absurd hc List.not_mem_nil
    · exact absurd hc List.not_mem_nil
  credit := ⟨[], fun _ h => absurd h List.not_mem_nil, rfl⟩

/-- **Every step is moves**, behind the `enter` of a carriage return if it is
one. -/
theorem step_moves (h : Step ext p p') : Moves p p' ∨ Moves p.enter p' := by
  cases h with
  | byte => exact .inl (moves_of_eq rfl rfl rfl rfl rfl rfl)
  | act display now act =>
    have hact := (@dispatch_evolves _ ext) p display now act
    split at hact
    · exact .inr hact.moves
    · exact .inl hact.moves
  | cull fb now => exact .inl (cull_culls p fb now).moves
  | reset => exact .inl (reset_moves p)
  | displayPreference => exact .inl (moves_of_eq rfl rfl rfl rfl rfl rfl)
  | localFrameSent => exact .inl (moves_of_eq rfl rfl rfl rfl rfl rfl)
  | localFrameAcked => exact .inl (moves_of_eq rfl rfl rfl rfl rfl rfl)
  | localFrameLateAcked => exact .inl (moves_of_eq rfl rfl rfl rfl rfl rfl)
  | sendInterval => exact .inl (moves_of_eq rfl rfl rfl rfl rfl rfl)
  | predictOverwrite => exact .inl (moves_of_eq rfl rfl rfl rfl rfl rfl)

/-- The count of epochs does not go back. -/
theorem step_epochs (h : Step ext p p') : p.epochs ≤ p'.epochs := by
  rcases step_moves h with h | h
  · exact h.epochs
  · exact (Nat.le_succ _).trans h.epochs

/-! ### Stamps are ordered -/

/-- What holds of the confirmed epoch and count, and is kept by crediting the
bases of a list, holds after crediting all of them. -/
theorem credit_induct {I : ℕ → ℕ → Prop} {bs : List Base} {e k : ℕ} (h : I e k)
    (hstep : ∀ b ∈ bs, ∀ e k, I e k → I (max e b.tentativeUntilEpoch) (max k b.enters)) :
    I (bs.foldl Predictor.credit (e, k)).1 (bs.foldl Predictor.credit (e, k)).2 := by
  induction bs generalizing e k with
  | nil => exact h
  | cons b bs ih =>
    exact ih (hstep b (List.mem_cons_self ..) e k h) fun b' hb' =>
      hstep b' (List.mem_cons_of_mem _ hb')

/-- Epochs and counts of carriage returns bound all stamps. -/
structure Ordered (p : Predictor σ) : Prop where
  live : ∀ t k, Live p t k → t ≤ p.epochs ∧ k ≤ p.enters
  confirmedEpoch : p.confirmedEpoch ≤ p.epochs
  confirmedEnters : p.confirmedEnters ≤ p.enters

/-- A new predictor is ordered. -/
theorem ordered_new : Ordered (new ext) where
  live := by
    rintro t k (⟨c, hc, -⟩ | ⟨c, hc, -⟩)
    · exact absurd hc List.not_mem_nil
    · exact absurd hc List.not_mem_nil
  confirmedEpoch := Nat.zero_le _
  confirmedEnters := Nat.zero_le _

/-- A carriage return keeps the order. -/
theorem Ordered.enter (h : Ordered p) : Ordered p.enter where
  live t k hl := by
    have := h.live t k hl
    exact ⟨this.1.trans (Nat.le_succ _), this.2.trans (Nat.le_succ _)⟩
  confirmedEpoch := h.confirmedEpoch.trans (Nat.le_succ _)
  confirmedEnters := h.confirmedEnters.trans (Nat.le_succ _)

/-- **A move keeps the order**, as long as the count does not wrap. -/
theorem Ordered.moves (h : Ordered p) (hm : Moves p p') (hwrap : p'.epochs < 2 ^ 64) :
    Ordered p' := by
  have hcredit : p'.confirmedEpoch ≤ p.epochs ∧ p'.confirmedEnters ≤ p.enters := by
    obtain ⟨bs, hbs, he⟩ := hm.credit
    have := (@credit_induct (fun e k => e ≤ p.epochs ∧ k ≤ p.enters) bs)
      ⟨h.confirmedEpoch, h.confirmedEnters⟩ fun b hb e k hek => by
        have := h.live _ _ (hbs b hb)
        omega
    rwa [← he] at this
  refine ⟨fun t k hl => ?_, hcredit.1.trans hm.epochs, hm.enters.symm ▸ hcredit.2⟩
  rcases hm.live t k hl with hl | ⟨rfl, n, -, hn, rfl⟩
  · have := h.live t k hl
    have := hm.epochs
    have := hm.enters
    omega
  · rw [Nat.mod_eq_of_lt (hn.trans_lt hwrap)]
    exact ⟨hn, hm.enters.ge⟩

/-- **Stamps stay ordered** while the epoch has not wrapped. -/
theorem ordered_of_steps {p₀ : Predictor σ} (h : Steps ext p₀ p) (hp : Ordered p₀)
    (hwrap : p.epochs < 2 ^ 64) : Ordered p := by
  induction h with
  | refl => exact hp
  | tail _ hs ih =>
    have ho := ih ((step_epochs hs).trans_lt hwrap)
    rcases step_moves hs with hm | hm
    · exact ho.moves hm hwrap
    · exact ho.enter.moves hm hwrap

/-! ### The gate behind an Enter -/

/-- Behind the `E + 1`st carriage return, whose epoch is `B`: overlays stamped
after it are of epoch `B` or later, the others of an earlier one, and until one
of the former is judged correct the confirmed epoch is earlier too. -/
structure Gated (E B : ℕ) (p : Predictor σ) : Prop where
  enters : E < p.enters
  epochs : B ≤ p.epochs
  live : ∀ t k, Live p t k → (k ≤ E → t < B) ∧ (E < k → B ≤ t)
  confirmed : p.confirmedEnters ≤ E → p.confirmedEpoch < B

/-- Behind a carriage return all overlays are from before it. -/
theorem Ordered.gated (h : Ordered p) : Gated p.enters (p.epochs + 1) p.enter where
  enters := Nat.lt_succ_self _
  epochs := le_rfl
  live t k hl := by
    have := h.live t k hl
    omega
  confirmed _ := Nat.lt_succ_of_le h.confirmedEpoch

/-- Another carriage return. -/
theorem Gated.enter {E B : ℕ} (h : Gated E B p) : Gated E B p.enter where
  enters := h.enters.trans (Nat.lt_succ_self _)
  epochs := h.epochs.trans (Nat.le_succ _)
  live t k hl := h.live t k hl
  confirmed := h.confirmed

/-- **A move keeps the gate.** -/
theorem Gated.moves {E B : ℕ} (h : Gated E B p) (hm : Moves p p') (hwrap : p'.epochs < 2 ^ 64) :
    Gated E B p' where
  enters := hm.enters.symm ▸ h.enters
  epochs := h.epochs.trans hm.epochs
  live t k hl := by
    rcases hm.live t k hl with hl | ⟨rfl, n, hlo, hhi, rfl⟩
    · exact h.live t k hl
    · have := h.enters
      have := h.epochs
      rw [Nat.mod_eq_of_lt (hhi.trans_lt hwrap)]
      omega
  confirmed := by
    obtain ⟨bs, hbs, he⟩ := hm.credit
    have := (@credit_induct (fun e k => k ≤ E → e < B) bs) h.confirmed
      fun b hb e k hek => by
        have := h.live _ _ (hbs b hb)
        omega
    rwa [← he] at this

/-- Any number of steps keep the gate. -/
theorem gated_of_steps {E B : ℕ} {p₁ : Predictor σ} (h : Steps ext p₁ p) (hp : Gated E B p₁)
    (hwrap : p.epochs < 2 ^ 64) : Gated E B p := by
  induction h with
  | refl => exact hp
  | tail _ hs ih =>
    have hg := ih ((step_epochs hs).trans_lt hwrap)
    rcases step_moves hs with hm | hm
    · exact hg.moves hm hwrap
    · exact hg.enter.moves hm hwrap

/-- The overlays of a predictor that satisfy a condition. -/
def restrict (p : Predictor σ) (keepCell : CellOverlay → Bool)
    (keepCursor : CursorOverlay → Bool) : Predictor σ :=
  { p with
    cursors := p.cursors.filter keepCursor
    overlays := p.overlays.map fun r => { r with cells := r.cells.filter keepCell } }

/-- Leaving out what changes nothing changes nothing. -/
theorem foldl_filter_of_skip {α β : Type} {f : β → α → β} {keep : α → Bool} {l : List α}
    (h : ∀ a ∈ l, keep a = false → ∀ b, f b a = b) (b : β) :
    (l.filter keep).foldl f b = l.foldl f b := by
  induction l generalizing b with
  | nil => rfl
  | cons a l ih =>
    have ih := ih fun a' ha' => h a' (List.mem_cons_of_mem _ ha')
    cases hk : keep a with
    | true => rw [List.filter_cons_of_pos (by simp [hk]), List.foldl_cons, List.foldl_cons, ih]
    | false =>
      rw [List.filter_cons_of_neg (by simp [hk]), List.foldl_cons, ih,
        h a (List.mem_cons_self ..) hk]

/-- Overlays that draw nothing may be left out of `apply`. -/
theorem apply_restrict {keepCell : CellOverlay → Bool} {keepCursor : CursorOverlay → Bool}
    (hcell : ∀ c ∈ p.cells, keepCell c = false → ∀ f row flag,
      c.apply ext f p.confirmedEpoch row flag = f)
    (hcursor : ∀ k ∈ p.cursors, keepCursor k = false → ∀ f, k.apply f p.confirmedEpoch = f)
    (frame : FrameState) :
    (p.restrict keepCell keepCursor).apply ext frame = p.apply ext frame := by
  have hrows (rows : List Row) (hr : ∀ r ∈ rows, r ∈ p.overlays) (f : FrameState) :
      (rows.map fun r => { r with cells := r.cells.filter keepCell }).foldl
        (fun f r => r.cells.foldl
          (fun f c => c.apply ext f p.confirmedEpoch r.rowNum p.flagging) f) f =
      rows.foldl (fun f r => r.cells.foldl
        (fun f c => c.apply ext f p.confirmedEpoch r.rowNum p.flagging) f) f := by
    induction rows generalizing f with
    | nil => rfl
    | cons r rows ih =>
      rw [List.map_cons, List.foldl_cons, List.foldl_cons, ih fun r' h' =>
        hr r' (List.mem_cons_of_mem _ h')]
      dsimp only
      rw [foldl_filter_of_skip fun c hc hk f => ?_]
      exact hcell c (List.mem_flatMap.2 ⟨r, hr r (List.mem_cons_self ..), hc⟩) hk f _ _
  unfold apply restrict
  dsimp only
  rw [foldl_filter_of_skip fun k hk hkeep f => hcursor k hk hkeep f,
    hrows p.overlays fun _ h => h]

/-- **The epoch gate hides input typed after Enter.**  Let a reachable predictor
dispatch a carriage return and take any steps from there.  Until a cull judges
correct a cell overlay created or stamped after that Enter, the overlays created
or stamped after it are drawn by nothing: each of them leaves every frame as it
is, cells and cursor, and `apply` does the same without any of them. -/
theorem epochGate {p p₂ : Predictor σ} {display : FrameState} {now : ℕ}
    (hreach : Steps ext (new ext) p)
    (hrun : Steps ext (p.dispatch ext display now (.execute 0x0d)) p₂)
    (hwrap : p₂.epochs < 2 ^ 64) (huntil : p₂.confirmedEnters ≤ p.enters) :
    (∀ c ∈ p₂.cells, p.enters < c.base.enters → ∀ frame row flag,
      c.apply ext frame p₂.confirmedEpoch row flag = frame) ∧
    (∀ k ∈ p₂.cursors, p.enters < k.base.enters → ∀ frame,
      k.apply frame p₂.confirmedEpoch = frame) ∧
    ∀ (keepCell : CellOverlay → Bool) (keepCursor : CursorOverlay → Bool),
      (∀ c, c.base.enters ≤ p.enters → keepCell c = true) →
      (∀ k, k.base.enters ≤ p.enters → keepCursor k = true) →
      ∀ frame, (p₂.restrict keepCell keepCursor).apply ext frame = p₂.apply ext frame := by
  have hepochs : ∀ {a b : Predictor σ}, Steps ext a b → a.epochs ≤ b.epochs := fun h => by
    induction h with
    | refl => exact le_rfl
    | tail _ hs ih => exact ih.trans (step_epochs hs)
  have hwrap₁ := (hepochs hrun).trans_lt hwrap
  have henter : Moves p.enter (p.dispatch ext display now (.execute 0x0d)) := by
    have hact := (@dispatch_evolves _ ext) p display now (.execute 0x0d)
    rw [if_pos rfl] at hact
    exact hact.moves
  have hordered : Ordered p :=
    ordered_of_steps hreach ordered_new (((Nat.le_succ _).trans henter.epochs).trans_lt hwrap₁)
  have hgated := gated_of_steps hrun (hordered.gated.moves henter hwrap₁) hwrap
  have hconfirmed := hgated.confirmed huntil
  have hcell : ∀ c ∈ p₂.cells, p.enters < c.base.enters → ∀ frame row flag,
      c.apply ext frame p₂.confirmedEpoch row flag = frame := by
    intro c hc hlt frame row flag
    cases ha : c.base.active with
    | false => exact CellOverlay.apply_of_inactive ext ha ..
    | true =>
      have := (hgated.live _ _ (.inl ⟨c, hc, ha, rfl, rfl⟩)).2 hlt
      exact CellOverlay.apply_of_tentative ext (decide_eq_true (hconfirmed.trans_le this)) ..
  have hcursor : ∀ k ∈ p₂.cursors, p.enters < k.base.enters → ∀ frame,
      k.apply frame p₂.confirmedEpoch = frame := by
    intro k hk hlt frame
    have := (hgated.live _ _ (.inr ⟨k, hk, rfl, rfl⟩)).2 hlt
    exact CursorOverlay.apply_of_tentative (decide_eq_true (hconfirmed.trans_le this)) _
  refine ⟨hcell, hcursor, fun keepCell keepCursor hc hk frame => ?_⟩
  have hlt {a : ℕ} {keep : Bool} (h : a ≤ p.enters → keep = true) (hf : keep = false) :
      p.enters < a := not_le.1 fun hle => by rw [h hle] at hf; cases hf
  exact apply_restrict (fun c hmem hf => hcell c hmem (hlt (hc c) hf))
    (fun k hmem hf => hcursor k hmem (hlt (hk k) hf)) frame

/-- Two blank rows of four cells. -/
def blankFrame : FrameState := .fromParts 2 4 0 0 1 "" (List.replicate 96 0)

/-- A predictor that shows what it may, behind the letter `a`. -/
def typedLetter : Predictor Unit :=
  ((new .ascii).setDisplayPreference .always).newUserByte .ascii 0x61 blankFrame 0

/-- The same behind Enter and the letter `s`. -/
def typedSecret : Predictor Unit :=
  (typedLetter.dispatch .ascii blankFrame 1 (.execute 0x0d)).newUserByte .ascii 0x73 blankFrame 2

/-- The hypotheses of `epochGate` are satisfiable: a letter typed after Enter is
predicted in the second row, and not drawn. -/
theorem epochGate_typedSecret :
    (∃ c ∈ typedSecret.cells, c.base.active = true ∧ typedLetter.enters < c.base.enters) ∧
      ∀ c ∈ typedSecret.cells, typedLetter.enters < c.base.enters → ∀ frame row flag,
        c.apply .ascii frame typedSecret.confirmedEpoch row flag = frame :=
  ⟨by decide +kernel,
    ((@epochGate _ .ascii) (.head (.displayPreference _ .always) (newUserByte_steps ..))
      (newUserByte_steps ..) (by decide +kernel) (by decide +kernel)).1⟩

end Predictor
end Quosh
