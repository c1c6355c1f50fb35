/-
# Speculation is not evidence

`docs/12-prediction.md`, "Echo checkpoints": `new_user_byte` culls against what is
on display, predictions included, and `tick` culls against the confirmed screen
again.  Neither may judge a prediction; only a newly applied screen does.

Where no screen acknowledges input that is not queued yet, overlays expire later
than the acknowledgement of the confirmed screen (`View.Awaits`).  So a cull
between two screens finds them pending and confirms nothing; and where also every
screen has its cursor in its grid, all overlays are in the grid (`View.Framed`)
and such a cull changes none of them (`speculation_not_evidence`).

The decoder accepts a screen with the cursor one past the last row or column.
There the first byte predicts a cursor outside the frame, and the next tick drops
it without a screen (`outsideCursor_not_pending`).
-/

import Quosh.Client.Reconcile

namespace Quosh

open Predictor

/-! ### Culls that judge nothing -/

namespace Predictor

variable {σ : Type} {ext : Externals σ} {p : Predictor σ} {P : ℕ → Prop}

/-- A cull that finds everything pending and leaves every overlay as it was. -/
structure JudgesNothing (ext : Externals σ) (fb : FrameState) (p : Predictor σ) : Prop where
  pending : FindsAllPending ext fb p
  overlays : ∀ now, (p.cull ext fb now).overlays = p.overlays
  cursors : ∀ now, (p.cull ext fb now).cursors = p.cursors

/-- A predictor without overlays has none in any row. -/
theorem Blank.overlays_inactive (hb : Blank p) {r : Row} (hr : r ∈ p.overlays) {o : CellOverlay}
    (ho : o ∈ r.cells) : False := by
  have hmem : o ∈ p.cells := List.mem_flatMap.2 ⟨r, hr, ho⟩
  rw [hb.cell] at hmem
  cases hmem

/-- A blank predictor that never predicts has nothing that a cull could judge. -/
theorem Blank.judgesNothing (hb : Blank p) (hpref : p.displayPreference = .never)
    (fb : FrameState) : JudgesNothing ext fb p where
  pending := ⟨fun _ hr _ ho _ => (hb.overlays_inactive hr ho).elim,
    fun k hk => by rw [hb.cursor] at hk; cases hk⟩
  overlays now := by rw [Predictor.cull, if_pos hpref]
  cursors now := by rw [Predictor.cull, if_pos hpref]

/-- A cull of a blank predictor finds nothing that is not pending. -/
theorem Blank.findsPending (hb : Blank p) (fb : FrameState) : FindsPending ext fb p where
  cell _ hr _ _ ho _ := (hb.overlays_inactive hr ho).elim
  cursor k hk := by rw [hb.cursor] at hk; cases hk

/-- An awaiting predictor inside a frame of its size has nothing to be judged. -/
theorem judgesNothing_of_inside {fb : FrameState} (hpref : p.displayPreference ≠ .never)
    (he : Awaiting p) (hh : p.lastHeight = fb.rows) (hw : p.lastWidth = fb.cols)
    (hi : Inside fb.rows fb.cols p) : JudgesNothing ext fb p where
  pending := (cull_eq_of_inside 0 hpref he hh hw hi).1
  overlays now := (cull_eq_of_inside now hpref he hh hw hi).2.1
  cursors now := (cull_eq_of_inside now hpref he hh hw hi).2.2

/-- **What survives a cull awaits a later acknowledgement.** -/
theorem cull_awaiting (hnever : p.displayPreference = .never → Blank p) (fb : FrameState)
    (now : ℕ) (he : Expiring P p.lastWidth p) : Awaiting (p.cull ext fb now) := by
  by_cases hpref : p.displayPreference = .never
  · exact ((hnever hpref).cull fb now).expiring
  · have hset := (@cull_settled _ ext) hpref fb now
    have hexp := (@cull_expiring _ ext) fb now (he.mono (Q := fun _ => True) fun _ _ => trivial)
      fun _ => trivial
    exact ⟨hset.cell, hexp.col, fun k hk => ⟨(hset.cursor k hk).1, (hset.cursor k hk).2.1⟩⟩

end Predictor

/-! ### Expirations above the acknowledgement -/

namespace View

variable {σ : Type} {ext : Externals σ} {v v' : View σ}

/-- The number of the last input does not go back. -/
theorem Step.seq_le (h : Step ext v v') : v.seq ≤ v'.seq := by
  cases h with
  | reset => exact le_rfl
  | move hm =>
    cases hm with
    | install context s now _ => cases context <;> exact le_rfl
    | quiet => exact le_rfl
    | queued => exact Nat.le_succ _
    | paste => exact Nat.le_succ _
    | feed => exact Nat.le_succ _
    | tick => exact le_rfl
    | refresh => exact le_rfl

/-- **Between two screens**: the confirmed screen acknowledges queued input only,
and every overlay expires later. -/
structure Awaits (v : View σ) : Prop extends Reconciled v where
  timely : ∀ s, v.confirmed = some s → s.echoAck ≤ v.seq
  awaiting : Awaiting v.predictor

/-- The bytes of a message keep expirations above the acknowledgement. -/
theorem Awaits.fed (h : v.Awaits) {s : Screen} (hs : v.confirmed = some s)
    (hpref : v.predictor.displayPreference ≠ .never) (bytes : Bytes) (now : ℕ) :
    Fed (fun n => v.predictor.localFrameLateAcked < n) (v.display.getD s.frame)
      (v.predictor.setLocalFrameSent v.seq)
      (Client.feedBytes ext (v.predictor.setLocalFrameSent v.seq) (v.display.getD s.frame) bytes
        now) := by
  refine h.feedBytes hs hpref h.awaiting ?_ bytes now
  rw [h.late s hs]
  exact Nat.lt_succ_of_le (h.timely s hs)

/-- **Every move keeps overlays waiting**, if a new screen acknowledges queued
input only. -/
theorem Awaits.step (h : v.Awaits) (hs : Step ext v v')
    (hok : v'.confirmed ≠ v.confirmed → ∀ s, v'.confirmed = some s → s.echoAck ≤ v'.seq) :
    v'.Awaits := by
  refine ⟨h.toReconciled.step hs, fun s hconf => ?_, ?_⟩
  · by_cases hsame : v'.confirmed = v.confirmed
    · exact (h.timely s (hsame.symm.trans hconf)).trans hs.seq_le
    · exact hok hsame s hconf
  · cases hs with
    | reset => exact (blank_reset _).expiring
    | move hm =>
      cases hm with
      | quiet ms => exact ⟨h.awaiting.cell, h.awaiting.col, h.awaiting.cursor⟩
      | install context s now _ =>
        have hready := h.toReady.withContext context
        exact cull_awaiting (P := fun n => 1 ≤ n ∧ n ≤ (v.withContext context).seq)
          (p := (v.withContext context).predictor.setLocalFrameLateAcked s.echoAck)
          (fun hn => ⟨(hready.never hn).cell, (hready.never hn).cursor⟩) s.frame now
          ⟨hready.expiring.cell, hready.expiring.col, hready.expiring.cursor⟩
      | queued => exact h.awaiting
      | paste => exact (blank_reset _).expiring
      | feed s bytes now hconf =>
        by_cases hpref : v.predictor.displayPreference = .never
        · have hsame := (@feedBytes_of_never _ ext (v.predictor.setLocalFrameSent v.seq)) hpref
            (v.display.getD s.frame) bytes now
          simp only [refresh, hsame]
          exact ⟨h.awaiting.cell, h.awaiting.col, h.awaiting.cursor⟩
        · have hfed := (@Awaits.fed _ ext _ h _) hconf hpref bytes now
          have hlate := hfed.late
          exact hfed.expiring.mono fun n hn => hlate ▸ hn
      | tick s now _ => exact cull_awaiting h.never s.frame now h.expiring
      | refresh => exact h.awaiting

/-- **A move without a new screen confirms nothing.**  Predictions await a screen that has
the input they were made for, and neither typing nor a tick brings one. -/
theorem Awaits.confirmedEpoch (h : v.Awaits) (hs : Step ext v v')
    (hsame : v'.confirmed = v.confirmed) :
    v'.predictor.confirmedEpoch = v.predictor.confirmedEpoch := by
  cases hs with
  | reset => rfl
  | move hm =>
    cases hm with
    | quiet => rfl
    | install context s now hnew =>
      have hlt := (Screen.applyNewer_eq_some hnew).2.2 s (hsame.symm.trans rfl)
      exact absurd hlt (lt_irrefl _)
    | queued => rfl
    | paste => rfl
    | feed s bytes now hconf =>
      have hsize := h.shown_size hconf
      have hloop (bytes : Bytes) : (Client.feedBytes ext (v.predictor.setLocalFrameSent v.seq)
          (v.display.getD s.frame) bytes now).confirmedEpoch = v.predictor.confirmedEpoch := by
        induction bytes using List.reverseRecOn with
        | nil => rfl
        | append_singleton bytes b ih =>
          rw [Client.feedBytes, List.foldl_concat]
          by_cases hpref : v.predictor.displayPreference = .never
          · have hsame := (@feedBytes_of_never _ ext (v.predictor.setLocalFrameSent v.seq)) hpref
              (v.display.getD s.frame) (bytes ++ [b])
              now
            rw [Client.feedBytes, List.foldl_concat] at hsame
            rw [hsame]
            rfl
          · have hfed := (@Awaits.fed _ ext _ h _) hconf hpref bytes now
            exact (newUserByte_confirmedEpoch (hfed.expiring.mono fun n hn => hfed.late ▸ hn)
              (fun _ => ⟨hfed.height, hfed.width⟩) b now).trans ih
      exact hloop bytes
    | tick s now hconf =>
      exact cull_epoch_of_awaiting now h.awaiting fun hpref => h.sized hpref s hconf
    | refresh => rfl

/-- What a cull against the confirmed screen finds, and one between two bytes of a
message against what is on display. -/
theorem Awaits.findsPending (h : v.Awaits) {s : Screen} (hs : v.confirmed = some s) :
    FindsPending ext s.frame v.predictor ∧ ∀ bytes now,
      FindsPending ext (v.display.getD s.frame)
        (Client.feedBytes ext (v.predictor.setLocalFrameSent v.seq) (v.display.getD s.frame) bytes
          now) := by
  by_cases hpref : v.predictor.displayPreference = .never
  · obtain ⟨hcells, hcursors⟩ := h.never hpref
    refine ⟨(h.never hpref).findsPending _, fun bytes now => ?_⟩
    rw [feedBytes_of_never (p := v.predictor.setLocalFrameSent v.seq) hpref]
    exact Blank.findsPending (p := v.predictor.setLocalFrameSent v.seq) ⟨hcells, hcursors⟩ _
  · refine ⟨Predictor.findsPending h.awaiting (h.sized hpref s hs).2, fun bytes now => ?_⟩
    have hfed := (@Awaits.fed _ ext _ h _) hs hpref bytes now
    exact Predictor.findsPending (hfed.expiring.mono fun n hn => hfed.late ▸ hn) hfed.width

/-! ### Inside the frame -/

/-- **Everything is in the grid** of the confirmed screen: its cursor, the cursor on
display, and all overlays. -/
structure Framed (v : View σ) : Prop where
  screen : ∀ s, v.confirmed = some s → CursorInside s.frame
  inside : v.predictor.displayPreference ≠ .never → ∀ s, v.confirmed = some s →
    Inside s.frame.rows s.frame.cols v.predictor
  shown : ∀ f, v.display = some f → CursorInside f

/-- What is drawn over a screen with its cursor inside has its cursor inside. -/
theorem refresh_shown (hscreen : ∀ s, v.confirmed = some s → CursorInside s.frame) {f : FrameState}
    (hf : (v.refresh ext).display = some f) : CursorInside f := by
  obtain ⟨s, hs, rfl⟩ := Option.map_eq_some_iff.1 hf
  exact apply_cursorInside (hscreen s hs)

/-- What is shown has its cursor inside. -/
theorem Framed.shown_cursor (hf : v.Framed) {s : Screen} (hs : v.confirmed = some s) :
    CursorInside (v.display.getD s.frame) := by
  cases hd : v.display with
  | none => exact hf.screen s hs
  | some f => exact hf.shown f hd

/-- The bytes of a message stay in the frame. -/
theorem Framed.fed (hf : v.Framed) (h : v.Reconciled) {s : Screen} (hs : v.confirmed = some s)
    (hpref : v.predictor.displayPreference ≠ .never) (bytes : Bytes) (now : ℕ) :
    Inside (v.display.getD s.frame).rows (v.display.getD s.frame).cols
      (Client.feedBytes ext (v.predictor.setLocalFrameSent v.seq) (v.display.getD s.frame) bytes
        now) := by
  induction bytes using List.reverseRecOn with
  | nil =>
    obtain ⟨hr, hc⟩ := h.shown_size hs
    rw [hr, hc]
    exact ⟨(hf.inside hpref s hs).row, (hf.inside hpref s hs).cursor⟩
  | append_singleton bytes b ih =>
    have hfed := (@Reconciled.feedBytes _ ext _ h (fun _ => True) _) hs hpref
      (h.expiring.mono fun _ _ => trivial) trivial bytes now
    rw [Client.feedBytes, List.foldl_concat]
    exact newUserByte_inside (hfed.pref.symm ▸ hpref) (hf.shown_cursor hs) b now

/-- **Every move keeps everything in the grid**, if a new screen has its cursor
there. -/
theorem Framed.step (hf : v.Framed) (h : v.Reconciled) (hs : Step ext v v')
    (hok : v'.confirmed ≠ v.confirmed → ∀ s, v'.confirmed = some s → CursorInside s.frame) :
    v'.Framed := by
  have hscreen : ∀ s, v'.confirmed = some s → CursorInside s.frame := fun s hconf => by
    by_cases hsame : v'.confirmed = v.confirmed
    · exact hf.screen s (hsame.symm.trans hconf)
    · exact hok hsame s hconf
  cases hs with
  | reset =>
    exact ⟨hscreen, fun _ _ _ => inside_reset _, fun _ hd => by cases hd⟩
  | move hm =>
    cases hm with
    | quiet ms =>
      refine ⟨hscreen, fun hp s hs => ?_, hf.shown⟩
      exact ⟨(hf.inside hp s hs).row, (hf.inside hp s hs).cursor⟩
    | install context s now _ =>
      refine ⟨hscreen, fun hp s' hs' => ?_, fun f hd => refresh_shown hscreen hd⟩
      obtain rfl : s = s' := Option.some.inj hs'
      have hpref : ((v.withContext context).predictor.setLocalFrameLateAcked
          s.echoAck).displayPreference ≠ .never := by
        rw [← ((@cull_culls _ ext) _ s.frame now).pref]
        exact hp
      exact (cull_settled hpref s.frame now).inside
    | queued => exact ⟨hscreen, hf.inside, hf.shown⟩
    | paste =>
      exact ⟨hscreen, fun _ _ _ => inside_reset _, fun f hd => refresh_shown hscreen hd⟩
    | feed s bytes now hconf =>
      refine ⟨hscreen, fun hp s' hs' => ?_, fun f hd => refresh_shown hscreen hd⟩
      obtain rfl : s = s' := Option.some.inj (hconf.symm.trans hs')
      have hpref : v.predictor.displayPreference ≠ .never := fun hn => hp <| by
        simp only [refresh, (@feedBytes_of_never _ ext (v.predictor.setLocalFrameSent v.seq)) hn
          (v.display.getD s.frame) bytes now]
        exact hn
      obtain ⟨hr, hc⟩ := h.shown_size hconf
      have hin := (@Framed.fed _ ext _ hf h _) hconf hpref bytes now
      rw [hr, hc] at hin
      exact hin
    | tick s now hconf =>
      refine ⟨hscreen, fun hp s' hs' => ?_, fun f hd => refresh_shown hscreen hd⟩
      obtain rfl : s = s' := Option.some.inj (hconf.symm.trans hs')
      have hpref : v.predictor.displayPreference ≠ .never := by
        rw [← ((@cull_culls _ ext) _ s.frame now).pref]
        exact hp
      exact (cull_settled hpref s.frame now).inside
    | refresh => exact ⟨hscreen, hf.inside, fun f hd => refresh_shown hscreen hd⟩

/-- With everything in the grid such a cull judges nothing. -/
theorem Awaits.judgesNothing (h : v.Awaits) (hf : v.Framed) {s : Screen}
    (hs : v.confirmed = some s) :
    JudgesNothing ext s.frame v.predictor ∧ ∀ bytes now,
      JudgesNothing ext (v.display.getD s.frame)
        (Client.feedBytes ext (v.predictor.setLocalFrameSent v.seq) (v.display.getD s.frame) bytes
          now) := by
  by_cases hpref : v.predictor.displayPreference = .never
  · obtain ⟨hcells, hcursors⟩ := h.never hpref
    refine ⟨(h.never hpref).judgesNothing hpref _, fun bytes now => ?_⟩
    rw [feedBytes_of_never (p := v.predictor.setLocalFrameSent v.seq) hpref]
    exact Blank.judgesNothing (p := v.predictor.setLocalFrameSent v.seq) ⟨hcells, hcursors⟩ hpref _
  · obtain ⟨hh, hw⟩ := h.sized hpref s hs
    refine ⟨judgesNothing_of_inside hpref h.awaiting hh hw (hf.inside hpref s hs),
      fun bytes now => ?_⟩
    have hfed := (@Awaits.fed _ ext _ h _) hs hpref bytes now
    exact judgesNothing_of_inside (hfed.pref.symm ▸ hpref)
      (hfed.expiring.mono fun n hn => hfed.late ▸ hn) hfed.height hfed.width
      (hf.fed h.toReconciled hs hpref bytes now)

end View

/-! ### Runs -/

namespace Client

variable {σ : Type} {ext : Externals σ} {z : Lz4} {ok : Screen → ℕ → Prop} {c : Client σ}

/-- **Every reachable client waits**, where no screen acknowledges input that is not
queued. -/
theorem reachable_awaits (hok : ∀ s n, ok s n → s.echoAck ≤ n) (h : Reachable ext z ok c) :
    c.view.Awaits := by
  induction h with
  | new sessionId token cols rows never =>
    refine ⟨(@reachable_reconciled _ ext z ok) (.new ..), fun s hs => ?_,
      Blank.expiring ⟨rfl, rfl⟩⟩
    cases hs
  | step _ hs hnew ih =>
    exact ih.step (step_view hs) fun hne s hs' => hok _ _ (hnew hne s hs')

/-- **In every reachable client everything is in the grid**, where every screen has
its cursor there. -/
theorem reachable_framed (hok : ∀ s n, ok s n → CursorInside s.frame)
    (h : Reachable ext z ok c) : c.view.Framed := by
  induction h with
  | new sessionId token cols rows never =>
    refine ⟨fun s hs => ?_, fun _ s hs => ?_, fun f hf => ?_⟩
    · cases hs
    · cases hs
    · cases hf
  | step h hs hnew ih =>
    exact ih.step (reachable_reconciled h) (step_view hs) fun hne s hs' => hok _ _ (hnew hne s hs')

/-- The predictor before a byte of a message, behind the bytes before it. -/
def predictorBehind (ext : Externals σ) (c : Client σ) (s : Screen) (bytes : Bytes) (now : ℕ) :
    Predictor σ :=
  feedBytes ext (c.predictor.setLocalFrameSent c.seq) (c.display.getD s.frame) bytes now

/-- **Speculation is not evidence.**  In every run in which no screen acknowledges
input that is not queued when it is installed, the cull of a tick and the culls of
`new_user_byte` find every live cell of the frame pending and every cursor pending
or outside the frame, and only a step that installs a screen changes the confirmed
epoch.  If every screen also has its cursor in its grid, these culls find
everything pending and leave every overlay and every cursor as it was. -/
theorem speculation_not_evidence (hack : ∀ s n, ok s n → s.echoAck ≤ n)
    (h : Reachable ext z ok c) :
    (∀ s, c.confirmed = some s → FindsPending ext s.frame c.predictor ∧ ∀ bytes now,
      FindsPending ext (c.display.getD s.frame) (c.predictorBehind ext s bytes now)) ∧
    (∀ c', Step ext z c c' → c'.confirmed = c.confirmed →
      c'.predictor.confirmedEpoch = c.predictor.confirmedEpoch) ∧
    ((∀ s n, ok s n → CursorInside s.frame) → ∀ s, c.confirmed = some s →
      JudgesNothing ext s.frame c.predictor ∧ ∀ bytes now,
        JudgesNothing ext (c.display.getD s.frame) (c.predictorBehind ext s bytes now)) := by
  have hawaits := reachable_awaits hack h
  exact ⟨fun s hs => hawaits.findsPending hs,
    fun c' hs hsame => hawaits.confirmedEpoch (step_view hs) hsame,
    fun hcursor s hs => hawaits.judgesNothing (reachable_framed hcursor h) hs⟩

/-- The hypotheses of `speculation_not_evidence` are satisfiable: a letter that was
typed is found pending by the next tick. -/
theorem speculation_not_evidence_attachedClient :
    (∃ o ∈ (attachedClient.queueInput .ascii [0x61] 1).predictor.cells, o.base.active = true) ∧
      JudgesNothing .ascii (blankScreen 1 0).frame
        (attachedClient.queueInput .ascii [0x61] 1).predictor := by
  have hreach : Reachable .ascii .literal
      (fun s n => s.echoAck ≤ n ∧ CursorInside s.frame) attachedClient :=
    attachedClient_reachable ⟨le_rfl, ⟨by decide, by decide, by decide⟩⟩
  have hsame : (attachedClient.queueInput .ascii [0x61] 1).confirmed = some (blankScreen 1 0) := by
    decide +kernel
  refine ⟨by decide +kernel, ?_⟩
  exact ((speculation_not_evidence (fun _ _ h => h.1)
    (hreach.step (.queueInput attachedClient [0x61] 1) fun hne => (hne (by decide +kernel)).elim)).2.2
      (fun _ _ h => h.2) _ hsame).1

/-- A blank screen of two rows and four columns whose cursor is behind the last
column of the first row. -/
def outsideScreen : Screen := ⟨1, 0, .fromParts 2 4 0 4 1 "" (List.replicate 96 0)⟩

/-- A client that received it. -/
def outsideClient : Client Unit :=
  (new .ascii (constBytes 16 1) (constBytes 32 2) 4 2 false).recvDatagram
    .ascii .literal (outsideScreen.encodeCompressed .literal) 0

/-- **A cursor outside the frame is rejected without a screen.**  The screen
acknowledges nothing, one letter is typed, and the next tick drops the cursor
that was predicted. -/
theorem outsideCursor_not_pending :
    Reachable .ascii .literal (fun s n => s.echoAck ≤ n) (outsideClient.queueInput .ascii [0x61] 1) ∧
      (outsideClient.queueInput .ascii [0x61] 1).confirmed = some outsideScreen ∧
      ¬FindsAllPending .ascii outsideScreen.frame
        (outsideClient.queueInput .ascii [0x61] 1).predictor ∧
      (outsideClient.queueInput .ascii [0x61] 1).predictor.cursors ≠ [] ∧
      ((outsideClient.queueInput .ascii [0x61] 1).tick .ascii 2).2.confirmed = some outsideScreen ∧
      ((outsideClient.queueInput .ascii [0x61] 1).tick .ascii 2).2.predictor.cursors = [] := by
  have hconfirmed : outsideClient.confirmed = some outsideScreen := by decide +kernel
  refine ⟨.step (.step (.new ..) (.datagram ..) fun _ s hs => ?_) (.queueInput outsideClient [0x61] 1)
    fun hne => (hne (by decide +kernel)).elim, by decide +kernel, fun h => ?_, by decide +kernel,
    by decide +kernel, by decide +kernel⟩
  · change outsideClient.confirmed = some s at hs
    rw [← Option.some.inj (hconfirmed.symm.trans hs)]
    exact Nat.zero_le _
  · obtain ⟨k, hk, hv⟩ : ∃ k ∈ (outsideClient.queueInput .ascii [0x61] 1).predictor.cursors,
        k.validity outsideScreen.frame
          (outsideClient.queueInput .ascii [0x61] 1).predictor.localFrameLateAcked ≠ .pending := by
      decide +kernel
    exact hv (h.cursor k hk)

end Client
end Quosh
