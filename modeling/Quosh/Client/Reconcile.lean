/-
# Prediction converges to the server's screen

`docs/12-prediction.md`, "Echo checkpoints": an acknowledgement belongs to the
screen it arrives with, and predictions of message `seq` expire at `seq`.

Along every run of a client the overlays expire no later than the last queued
input (`Reconciled`), whatever is typed, predicted wrongly, pasted, reset or
reconnected.  So a screen that acknowledges that input leaves nothing live and is
displayed as it is (`prediction_converges`).
-/

import Quosh.Client.Display
import Quosh.Predict.Await

namespace Quosh

open Predictor

namespace View

variable {σ : Type} {ext : Externals σ} {v v' : View σ}

/-! ### The invariant of every run -/

/-- What holds of a view before a screen is installed. -/
structure Ready (v : View σ) : Prop where
  never : v.predictor.displayPreference = .never → Blank v.predictor
  expiring : Expiring (fun n => 1 ≤ n ∧ n ≤ v.seq) v.predictor.lastWidth v.predictor
  sent : v.predictor.localFrameSent ≤ v.seq - 1

/-- **The invariant of a view**: overlays expire no later than the last queued
input, and predictor and display have the size of the confirmed screen. -/
structure Reconciled (v : View σ) : Prop extends Ready v where
  unconfirmed : v.confirmed = none → Blank v.predictor ∧ v.display = none
  sized : v.predictor.displayPreference ≠ .never → ∀ s, v.confirmed = some s →
    v.predictor.lastHeight = s.frame.rows ∧ v.predictor.lastWidth = s.frame.cols
  late : ∀ s, v.confirmed = some s → v.predictor.localFrameLateAcked = s.echoAck
  display : ∀ s f, v.confirmed = some s → v.display = some f →
    f.rows = s.frame.rows ∧ f.cols = s.frame.cols

/-- A blank predictor is ready whatever was predicted before. -/
theorem Ready.of_blank (hb : Blank v.predictor) (hsent : v.predictor.localFrameSent ≤ v.seq - 1) :
    v.Ready :=
  ⟨fun _ => hb, hb.expiring, hsent⟩

/-- Another context drops all overlays. -/
theorem Ready.withContext (h : v.Ready) (context : Option (ℕ × Bool)) :
    (v.withContext context).Ready := by
  cases context with
  | none => exact h
  | some context => exact .of_blank ⟨rfl, rfl⟩ h.sent

/-- A cursor that a killed epoch starts over from expires by the last input, since
a live cell does. -/
theorem Ready.next (h : v.Ready) (hlive : ∃ c ∈ v.predictor.cells, c.base.active = true) :
    1 ≤ v.predictor.localFrameSent + 1 ∧ v.predictor.localFrameSent + 1 ≤ v.seq := by
  obtain ⟨c, hc, ha⟩ := hlive
  have := h.expiring.cell c hc ha
  have := h.sent
  omega

/-- **A cull keeps a view ready.** -/
theorem Ready.cull (h : v.Ready) (fb : FrameState) (now late : ℕ) :
    Ready { v with predictor := (v.predictor.setLocalFrameLateAcked late).cull ext fb now } where
  never hn := by
    rw [(cull_culls ..).pref] at hn
    obtain ⟨hcells, hcursors⟩ := h.never hn
    exact Blank.cull (p := v.predictor.setLocalFrameLateAcked late) ⟨hcells, hcursors⟩ fb now
  expiring := cull_expiring fb now ⟨h.expiring.cell, h.expiring.col, h.expiring.cursor⟩ h.next
  sent := (cull_culls ..).sent.trans_le h.sent

/-- The display of a confirmed screen has its size. -/
theorem refresh_size (p : Predictor σ) (s : Screen) {s' : Screen} {f : FrameState}
    (hs : some s = some s') (hf : ((some s).map fun screen => p.apply ext screen.frame) = some f) :
    f.rows = s'.frame.rows ∧ f.cols = s'.frame.cols := by
  cases hs
  cases hf
  exact apply_size p s.frame

/-- Another confirmed screen. -/
theorem Ready.confirm (h : v.Ready) (confirmed : Option Screen) : Ready { v with confirmed } :=
  ⟨h.never, h.expiring, h.sent⟩

/-- A ready view whose predictor has seen the confirmed screen is reconciled once it is
drawn. -/
theorem Ready.refresh (h : v.Ready) {s : Screen} (hs : v.confirmed = some s)
    (hsized : v.predictor.displayPreference ≠ .never →
      v.predictor.lastHeight = s.frame.rows ∧ v.predictor.lastWidth = s.frame.cols)
    (hlate : v.predictor.localFrameLateAcked = s.echoAck) : (v.refresh ext).Reconciled where
  never := h.never
  expiring := h.expiring
  sent := h.sent
  unconfirmed hn := by
    have : v.confirmed = none := hn
    rw [hs] at this
    cases this
  sized hpref s' hs' := by
    obtain rfl : s = s' := Option.some.inj (hs.symm.trans hs')
    exact hsized hpref
  late s' hs' := by
    obtain rfl : s = s' := Option.some.inj (hs.symm.trans hs')
    exact hlate
  display s' f hs' hf := by
    have hf : (v.confirmed.map fun screen => v.predictor.apply ext screen.frame) = some f := hf
    rw [hs] at hf
    exact refresh_size _ _ (hs.symm.trans hs') hf

/-- A cull of a confirmed screen, drawn, reconciles a ready view with it. -/
theorem Ready.cull_reconciled (h : v.Ready) (s : Screen) (now : ℕ) :
    Reconciled (({ v with
      predictor := (v.predictor.setLocalFrameLateAcked s.echoAck).cull ext s.frame now
      confirmed := some s } : View σ).refresh ext) := by
  have hc := (@cull_culls _ ext) (v.predictor.setLocalFrameLateAcked s.echoAck) s.frame now
  refine ((h.cull s.frame now s.echoAck).confirm (some s)).refresh rfl (fun hpref => ?_) hc.late
  have hp : (v.predictor.setLocalFrameLateAcked s.echoAck).displayPreference ≠ .never :=
    fun hn => hpref (hc.pref.trans hn)
  have hset := (@cull_settled _ ext _ hp) s.frame now
  exact ⟨hset.height, hset.width⟩

/-- What is on display has the size of the confirmed screen. -/
theorem Reconciled.shown_size (h : v.Reconciled) {s : Screen} (hs : v.confirmed = some s) :
    (v.display.getD s.frame).rows = s.frame.rows ∧
      (v.display.getD s.frame).cols = s.frame.cols := by
  cases hd : v.display with
  | none => exact ⟨rfl, rfl⟩
  | some f => exact h.display s f hs hd

/-- The bytes of a message, fed to a reconciled predictor that predicts. -/
theorem Reconciled.feedBytes (h : v.Reconciled) {P : ℕ → Prop} {s : Screen}
    (hs : v.confirmed = some s) (hpref : v.predictor.displayPreference ≠ .never)
    (he : Expiring P v.predictor.lastWidth v.predictor) (hP : P (v.seq + 1)) (bytes : Bytes)
    (now : ℕ) :
    Fed P (v.display.getD s.frame) (v.predictor.setLocalFrameSent v.seq)
      (Client.feedBytes ext (v.predictor.setLocalFrameSent v.seq) (v.display.getD s.frame) bytes
        now) := by
  have hsize := h.shown_size hs
  obtain ⟨hh, hw⟩ := h.sized hpref s hs
  have hstart : Fed P (v.display.getD s.frame) (v.predictor.setLocalFrameSent v.seq)
      (v.predictor.setLocalFrameSent v.seq) :=
    ⟨rfl, rfl, rfl, hh.trans hsize.1.symm, hw.trans hsize.2.symm,
      ⟨he.cell, he.col, he.cursor⟩⟩
  have hloop (bytes : Bytes) (p : Predictor σ)
      (hp : Fed P (v.display.getD s.frame) (v.predictor.setLocalFrameSent v.seq) p) :
      Fed P (v.display.getD s.frame) (v.predictor.setLocalFrameSent v.seq)
        (Client.feedBytes ext p (v.display.getD s.frame) bytes now) := by
    induction bytes generalizing p with
    | nil => exact hp
    | cons b bytes ih =>
      have hb := (@newUserByte_fed _ ext p) (hp.pref.symm ▸ hpref) hp.expiring
        (hp.sent.symm ▸ hP) b (v.display.getD s.frame) now
      exact ih _ ⟨hb.sent.trans hp.sent, hb.late.trans hp.late, hb.pref.trans hp.pref,
        hb.height, hb.width, hb.expiring⟩
  exact hloop bytes _ hstart

/-- A predictor that never predicts takes no byte. -/
theorem feedBytes_of_never {p : Predictor σ} (h : p.displayPreference = .never)
    (d : FrameState) (bytes : Bytes) (now : ℕ) : Client.feedBytes ext p d bytes now = p := by
  induction bytes with
  | nil => rfl
  | cons b bytes ih =>
    have hb : p.newUserByte ext b d now = p := by rw [newUserByte, if_pos h]
    rw [Client.feedBytes, List.foldl_cons, hb]
    exact ih

/-- The bytes of a message keep a view ready and its predictor in size. -/
theorem Reconciled.fed (h : v.Reconciled) {s : Screen} (hconf : v.confirmed = some s)
    (bytes : Bytes) (now : ℕ) {p : Predictor σ}
    (hp : p = Client.feedBytes ext (v.predictor.setLocalFrameSent v.seq)
      (v.display.getD s.frame) bytes now) :
    Ready { v with seq := v.seq + 1, predictor := p } ∧
      (p.displayPreference ≠ .never →
        p.lastHeight = s.frame.rows ∧ p.lastWidth = s.frame.cols) ∧
      p.localFrameLateAcked = s.echoAck := by
  by_cases hpref : v.predictor.displayPreference = .never
  · rw [(@feedBytes_of_never _ ext (v.predictor.setLocalFrameSent v.seq)) hpref] at hp
    subst hp
    have hb := h.never hpref
    exact ⟨⟨fun _ => ⟨hb.cell, hb.cursor⟩, Blank.expiring ⟨hb.cell, hb.cursor⟩, le_rfl⟩,
      fun hne => absurd hpref hne, h.late s hconf⟩
  · have hfed := (@Reconciled.feedBytes _ ext _ h (fun n => 1 ≤ n ∧ n ≤ v.seq + 1) _) hconf hpref
      (h.expiring.mono fun n hn => ⟨hn.1, hn.2.trans (Nat.le_succ _)⟩)
      ⟨Nat.le_add_left .., le_rfl⟩ bytes now
    rw [← hp] at hfed
    have hdsize := h.shown_size hconf
    exact ⟨⟨fun hn => absurd (hfed.pref.symm.trans hn) hpref, hfed.expiring, hfed.sent.le⟩,
      fun _ => ⟨hfed.height.trans hdsize.1, hfed.width.trans hdsize.2⟩,
      hfed.late.trans (h.late s hconf)⟩

/-- **Every move keeps a view reconciled.**  A screen and a tick cull the predictor, and the
display is drawn anew behind both; what is typed is sent with a number that the predictions
expire at. -/
theorem Reconciled.step (h : v.Reconciled) (hs : Step ext v v') : v'.Reconciled := by
  cases hs with
  | reset =>
    exact ⟨.of_blank (blank_reset _) h.sent, fun _ => ⟨blank_reset _, rfl⟩, h.sized, h.late,
      fun s f _ hf => by cases hf⟩
  | move hm =>
    cases hm with
    | quiet ms =>
      exact ⟨⟨fun hn => ⟨(h.never hn).cell, (h.never hn).cursor⟩,
        ⟨h.expiring.cell, h.expiring.col, h.expiring.cursor⟩, h.sent⟩,
        fun hn => ⟨⟨(h.unconfirmed hn).1.cell, (h.unconfirmed hn).1.cursor⟩,
          (h.unconfirmed hn).2⟩, h.sized, h.late, h.display⟩
    | install context s now _ => exact (h.withContext context).cull_reconciled s now
    | queued =>
      refine ⟨⟨h.never, h.expiring.mono fun n hn => ?_, h.sent.trans ?_⟩, h.unconfirmed, h.sized,
        h.late, h.display⟩
      · exact ⟨hn.1, hn.2.trans (Nat.le_succ _)⟩
      · change v.seq - 1 ≤ v.seq + 1 - 1
        omega
    | paste =>
      refine ⟨.of_blank (blank_reset _) (h.sent.trans ?_), fun hn => ⟨blank_reset _, ?_⟩, h.sized,
        h.late, fun s f hs hf => ?_⟩
      · change v.seq - 1 ≤ v.seq + 1 - 1
        omega
      · change v.confirmed.map _ = none
        rw [show v.confirmed = none from hn]
        rfl
      · change v.confirmed.map _ = some f at hf
        rw [show v.confirmed = some s from hs] at hf
        exact refresh_size _ _ rfl hf
    | feed s bytes now hconf =>
      obtain ⟨hready, hsized, hlate⟩ := h.fed hconf bytes now rfl
      exact hready.refresh hconf hsized hlate
    | tick s now hconf =>
      have hlate : v.predictor.setLocalFrameLateAcked s.echoAck = v.predictor := by
        rw [← h.late s hconf]
        rfl
      have hr := (@Ready.cull_reconciled _ ext _ h.toReady) s now
      rw [hlate, ← hconf] at hr
      exact hr
    | refresh =>
      refine ⟨⟨h.never, h.expiring, h.sent⟩, fun hn => ⟨(h.unconfirmed hn).1, ?_⟩, h.sized, h.late,
        fun s f hs hf => ?_⟩
      · change v.confirmed.map _ = none
        rw [show v.confirmed = none from hn]
        rfl
      · change v.confirmed.map _ = some f at hf
        rw [show v.confirmed = some s from hs] at hf
        exact refresh_size _ _ rfl hf

/-- The confirmed screen changes only where one is installed. -/
theorem Step.confirmed_cases (h : Step ext v v') : v'.confirmed = v.confirmed ∨
    ∃ context s now, v' = (v.withContext context).install ext s now := by
  cases h with
  | reset => exact .inl rfl
  | move hm =>
    cases hm with
    | install context s now _ => exact .inr ⟨context, s, now, rfl⟩
    | quiet => exact .inl rfl
    | queued => exact .inl rfl
    | paste => exact .inl rfl
    | feed => exact .inl rfl
    | tick => exact .inl rfl
    | refresh => exact .inl rfl

/-- **A screen that acknowledges the last input leaves nothing live**, and is
displayed as it is. -/
theorem Ready.install_idle (h : v.Ready) {s : Screen} (hack : v.seq ≤ s.echoAck) (now : ℕ) :
    Idle (v.install ext s now).predictor ∧ (v.install ext s now).display = some s.frame := by
  have hidle : Idle ((v.predictor.setLocalFrameLateAcked s.echoAck).cull ext s.frame now) := by
    by_cases hpref : v.predictor.displayPreference = .never
    · obtain ⟨hcells, hcursors⟩ := h.never hpref
      exact (Blank.cull (p := v.predictor.setLocalFrameLateAcked s.echoAck) ⟨hcells, hcursors⟩
        s.frame now).idle
    · have hlate : (v.predictor.setLocalFrameLateAcked s.echoAck).localFrameLateAcked = s.echoAck :=
        rfl
      refine cull_idle (p := v.predictor.setLocalFrameLateAcked s.echoAck) hpref s.frame now ?_
        fun hlive => ?_
      · rw [hlate]
        exact ⟨fun c hc ha => (h.expiring.cell c hc ha).2.trans hack, h.expiring.col,
          fun k hk => ⟨(h.expiring.cursor k hk).1, (h.expiring.cursor k hk).2.2.trans hack⟩⟩
      · rw [hlate]
        exact (h.next hlive).2.trans hack
  exact ⟨hidle, congrArg some (hidle.apply s.frame)⟩

end View

namespace Client

variable {σ : Type} {ext : Externals σ} {z : Lz4} {ok : Screen → ℕ → Prop} {c c' : Client σ}

/-- **Every reachable client is reconciled.** -/
theorem reachable_reconciled (h : Reachable ext z ok c) : c.view.Reconciled := by
  induction h with
  | new sessionId token cols rows never =>
    refine ⟨⟨fun _ => ⟨rfl, rfl⟩, Blank.expiring ⟨rfl, rfl⟩, Nat.zero_le _⟩,
      fun _ => ⟨⟨rfl, rfl⟩, rfl⟩, ?_, ?_, ?_⟩
    · exact fun _ s hs => by cases hs
    · exact fun s hs => by cases hs
    · exact fun s f hs => by cases hs
  | step _ hs _ ih => exact ih.step (step_view hs)

/-- **Prediction converges to the server's screen.**  In every run of a client,
when a screen is applied whose acknowledgement reaches the last queued input, what
is displayed is the frame of that screen, and no overlay is left that `apply`
would use. -/
theorem prediction_converges {s : Screen} (h : Reachable ext z (fun _ _ => True) c)
    (hstep : Step ext z c c') (hnew : c'.confirmed ≠ c.confirmed) (hs : c'.confirmed = some s)
    (hack : c'.seq ≤ s.echoAck) : c'.display = some s.frame ∧ Idle c'.predictor := by
  rcases (step_view hstep).confirmed_cases with hsame | ⟨context, s', now, hinstall⟩
  · exact absurd hsame hnew
  · have hs' : s' = s := by
      have := congrArg View.confirmed hinstall
      exact Option.some.inj (this.symm.trans hs)
    subst hs'
    have hseq : c'.seq = (c.view.withContext context).seq := congrArg View.seq hinstall
    have hready := (reachable_reconciled h).withContext context
    obtain ⟨hidle, hdisplay⟩ := (@View.Ready.install_idle _ ext _ hready _) (hseq ▸ hack) now
    rw [← hinstall] at hidle hdisplay
    exact ⟨hdisplay, hidle⟩

/-- A new client behind a first screen. -/
def attachedClient : Client Unit :=
  (new .ascii (constBytes 16 1) (constBytes 32 2) 4 2 false).recvDatagram
    .ascii .literal ((blankScreen 1 0).encodeCompressed .literal) 0

/-- A client that a letter was typed into. -/
def typedClient : Client Unit := attachedClient.queueInput .ascii [0x61] 1

/-- The client of the test is reached. -/
theorem attachedClient_reachable (hok : ok (blankScreen 1 0) 0) :
    Reachable .ascii .literal ok attachedClient := by
  have hconfirmed : attachedClient.confirmed = some (blankScreen 1 0) := by decide +kernel
  have hseq : attachedClient.seq = 0 := by decide +kernel
  refine .step (.new ..) (.datagram ..) fun _ s hs => ?_
  change attachedClient.confirmed = some s at hs
  rw [hseq, ← Option.some.inj (hconfirmed.symm.trans hs)]
  exact hok

/-- The hypotheses of `prediction_converges` are satisfiable: a letter is
predicted, and the screen that acknowledges it is displayed as it is. -/
theorem prediction_converges_typedClient :
    (∃ o ∈ typedClient.predictor.cells, o.base.active = true) ∧
      (typedClient.recvDatagram .ascii .literal
        ((blankScreen 2 1).encodeCompressed .literal) 2).display = some (blankScreen 2 1).frame ∧
      Idle (typedClient.recvDatagram .ascii .literal
        ((blankScreen 2 1).encodeCompressed .literal) 2).predictor :=
  ⟨by decide +kernel,
    prediction_converges (c := typedClient)
      ((attachedClient_reachable trivial).step (.queueInput ..) fun _ _ _ => trivial)
      (.datagram typedClient ((blankScreen 2 1).encodeCompressed .literal) 2)
      (by decide +kernel) (by decide +kernel) (by decide +kernel)⟩

end Client
end Quosh
