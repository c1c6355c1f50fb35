/-
# The display side of a client

What a client shows depends on six of its fields: the predictor, the confirmed
screen, the frame on display, the last input sequence number, and the prediction
context with the user's wish.  `View` is that part.

A step of a client is a reset or a move of its view (`step_move`): the frame
handling, the connection and the pumping of bytes leave it alone, a newer screen
is installed, input is queued, unpredicted, as a paste or predicted, and a tick
culls and draws again.  Only `reset` takes the frame off the display.
-/

import Quosh.Client.Run
import Quosh.Predict.Cull

namespace Quosh

/-- The part of a client that decides what it shows. -/
structure View (σ : Type) where
  predictor : Predictor σ
  confirmed : Option Screen
  display : Option FrameState
  seq : ℕ
  sharedPrediction : Option (ℕ × Bool)
  never : Bool

/-- The view of a client. -/
def Client.view {σ : Type} (c : Client σ) : View σ :=
  ⟨c.predictor, c.confirmed, c.display, c.seq, c.sharedPrediction, c.never⟩

/-- A screen replaces the confirmed one only by itself, with a newer version. -/
theorem Screen.applyNewer_eq_some {current : Option Screen} {incoming applied : Screen}
    (h : Screen.applyNewer current incoming = some applied) :
    applied = incoming ∧ 0 < incoming.version ∧ ∀ c, current = some c →
      c.version < incoming.version := by
  unfold Screen.applyNewer at h
  split at h
  · split at h
    · cases h
      exact ⟨rfl, by assumption, fun c hc => by cases hc⟩
    · cases h
  · split at h
    · rename_i c hlt
      cases h
      exact ⟨rfl, (Nat.zero_le _).trans_lt hlt, fun c' hc' => by cases hc'; exact hlt⟩
    · cases h

namespace View

variable {σ : Type} (ext : Externals σ)

/-- `refresh_display`. -/
def refresh (v : View σ) : View σ :=
  { v with display := v.confirmed.map fun screen => v.predictor.apply ext screen.frame }

/-- The prediction context a shared screen comes with, if one is new. -/
def withContext (v : View σ) : Option (ℕ × Bool) → View σ
  | none => v
  | some context =>
    { v with
      predictor :=
        v.predictor.reset.setDisplayPreference (Client.preference v.never context.2)
      sharedPrediction := some context }

/-- A screen becomes the confirmed one. -/
def install (v : View σ) (screen : Screen) (now : ℕ) : View σ :=
  ({ v with
    predictor := (v.predictor.setLocalFrameLateAcked screen.echoAck).cull ext screen.frame now
    confirmed := some screen } : View σ).refresh ext

/-- The moves of a view that is not reset. -/
inductive Move : View σ → View σ → Prop
  | quiet (v : View σ) (ms : ℕ) :
    Move v { v with predictor := v.predictor.setSendInterval ms }
  | install (v : View σ) (context : Option (ℕ × Bool)) (screen : Screen) (now : ℕ)
    (h : Screen.applyNewer v.confirmed screen = some screen) :
    Move v ((v.withContext context).install ext screen now)
  | queued (v : View σ) : Move v { v with seq := v.seq + 1 }
  | paste (v : View σ) :
    Move v (({ v with seq := v.seq + 1, predictor := v.predictor.reset } : View σ).refresh ext)
  | feed (v : View σ) (screen : Screen) (bytes : Bytes) (now : ℕ)
    (h : v.confirmed = some screen) :
    Move v (({ v with
      seq := v.seq + 1
      predictor := Client.feedBytes ext (v.predictor.setLocalFrameSent v.seq)
        (v.display.getD screen.frame) bytes now } : View σ).refresh ext)
  | tick (v : View σ) (screen : Screen) (now : ℕ) (h : v.confirmed = some screen) :
    Move v (({ v with predictor := v.predictor.cull ext screen.frame now } : View σ).refresh ext)
  | refresh (v : View σ) : Move v (v.refresh ext)

/-- One step of a view: a move, or a reset. -/
inductive Step : View σ → View σ → Prop
  | reset (v : View σ) : Step v { v with predictor := v.predictor.reset, display := none }
  | move {v v' : View σ} (h : Move ext v v') : Step v v'

end View

namespace Client

variable {σ : Type} {ext : Externals σ} {z : Lz4} {c c' : Client σ}

/-- A step that leaves the view alone. -/
theorem view_quiet (h : c'.view = c.view) : View.Move ext c.view c'.view := by
  rw [h]
  exact .quiet c.view c.predictor.sendInterval

/-- Installing a screen, behind a context or not. -/
theorem applyScreen_view (context : Option (ℕ × Bool)) {incoming : Screen} {now : ℕ}
    (hc' : c'.view = c.view.withContext context) :
    View.Move ext c.view (c'.applyScreen ext incoming now).view ∨
      (c'.applyScreen ext incoming now) = c' ∧
        Screen.applyNewer c.confirmed incoming = none := by
  have hconfirmed : c'.confirmed = c.confirmed := by
    have := congrArg View.confirmed hc'
    cases context <;> exact this
  unfold applyScreen
  rw [hconfirmed]
  cases h : Screen.applyNewer c.confirmed incoming with
  | none => exact .inr ⟨rfl, rfl⟩
  | some applied =>
    obtain rfl := (Screen.applyNewer_eq_some h).1
    have hview : (({ c' with
        predictor :=
          (c'.predictor.setLocalFrameLateAcked applied.echoAck).cull ext applied.frame now
        pendingAck := some applied.version
        confirmed := some applied
        outage := none } : Client σ).refreshDisplay ext).view = c'.view.install ext applied now :=
      rfl
    dsimp only
    rw [hview, hc']
    exact .inl (.install c.view context applied now h)

/-- A screen is installed, or is nothing new. -/
theorem applyScreen_step (c : Client σ) (incoming : Screen) (now : ℕ) :
    View.Move ext c.view (c.applyScreen ext incoming now).view := by
  rcases applyScreen_view (c := c) none rfl with h | ⟨h, -⟩
  · exact h
  · rw [h]
    exact view_quiet rfl

/-- So is a shared one, with its context. -/
theorem applySharedScreen_step (c : Client σ) (incoming : SharedScreen) (now : ℕ) :
    View.Move ext c.view (c.applySharedScreen ext incoming now).2.view := by
  unfold applySharedScreen
  cases hnew : Screen.applyNewer c.confirmed incoming.screen with
  | none => exact view_quiet rfl
  | some screen =>
    obtain rfl := (Screen.applyNewer_eq_some hnew).1
    dsimp only
    split
    · exact view_quiet rfl
    · unfold setContext
      split
      · let context := (incoming.predictionEpoch, incoming.predictionAllowed)
        let c' : Client σ :=
          { c with
            predictor := c.predictor.reset.setDisplayPreference (preference c.never context.2)
            sharedPrediction := some context }
        rcases (@applyScreen_view _ ext c c' (some context) incoming.screen now) rfl with h | ⟨-, h⟩
        · exact h
        · rw [h] at hnew
          cases hnew
      · exact applyScreen_step ..

/-- **A frame moves the view** by its screen, or not at all. -/
theorem handleFrame_step (c : Client σ) (typ : UInt8) (payload : Bytes) (now : ℕ) :
    View.Move ext c.view (c.handleFrame ext z typ payload now).2.view := by
  unfold handleFrame
  split_ifs
  · unfold handleHelloOk
    split
    · exact view_quiet rfl
    · split <;> exact view_quiet rfl
  · split
    · exact view_quiet rfl
    · exact applySharedScreen_step ..
  · exact view_quiet rfl
  · split
    · exact view_quiet rfl
    · exact applyScreen_step ..
  · split <;> exact view_quiet rfl
  · unfold handlePong
    dsimp only
    split
    · exact view_quiet rfl
    · exact .quiet c.view _
  · split <;> exact view_quiet rfl
  · split <;> exact view_quiet rfl
  · exact view_quiet rfl

/-- So does a datagram. -/
theorem recvDatagram_step (c : Client σ) (bytes : Bytes) (now : ℕ) :
    View.Move ext c.view (c.recvDatagram ext z bytes now).view := by
  unfold recvDatagram
  dsimp only
  split
  · split
    · exact view_quiet rfl
    · exact applySharedScreen_step { c with lastRxMs := some now } _ _
  · split
    · exact view_quiet rfl
    · split
      · exact view_quiet rfl
      · exact applyScreen_step { c with lastRxMs := some now } _ _

/-- **Input moves the view** by its prediction. -/
theorem queueInput_step (c : Client σ) (bytes : Bytes) (now : ℕ) :
    View.Move ext c.view (c.queueInput ext bytes now).view := by
  unfold queueInput feedPredict
  dsimp only
  split
  · exact .queued c.view
  · split
    · exact .paste c.view
    · split
      · exact .queued c.view
      · rename_i screen h
        exact .feed c.view screen bytes now h

/-- A pump shows nothing. -/
theorem pump_view (c : Client σ) : c.pump.view = c.view := by
  have hack (c : Client σ) : c.pumpAck.view = c.view := by
    unfold pumpAck
    split <;> rfl
  have hinput (c : Client σ) : c.pumpInput.view = c.view := by
    unfold pumpInput
    split
    · rfl
    · split <;> rfl
  unfold pump
  split
  · rfl
  · exact (hinput _).trans (hack _)

/-- Nor does a ping. -/
theorem maybePing_view (c : Client σ) (now : ℕ) : (c.maybePing now).view = c.view := by
  unfold maybePing
  dsimp only
  split
  · split <;> rfl
  · rfl

/-- Nor does the silence of the link, but for the banner. -/
theorem tickSilence_view (c : Client σ) (live : Bool) (now : ℕ) :
    (c.tickSilence live now).2.view = c.view := by
  unfold tickSilence
  split
  · rfl
  · split
    · rfl
    · dsimp only
      split <;> rfl

/-- What a tick shows is decided by its cull. -/
theorem tick_view (c : Client σ) (now : ℕ) :
    (c.tick ext now).2.view = (c.tickPredictor ext now).view := by
  unfold tick
  dsimp only
  rw [tickSilence_view]
  split
  · exact (maybePing_view ..).trans (pump_view _)
  · exact pump_view _

/-- The predictor culls against the confirmed screen and draws again. -/
theorem tickPredictor_step (c : Client σ) (now : ℕ) :
    View.Move ext c.view (c.tickPredictor ext now).view := by
  unfold tickPredictor
  split
  · dsimp only
    split
    · exact .refresh c.view
    · rename_i screen h
      exact .tick c.view screen now h
  · exact view_quiet rfl

/-- **A tick moves the view** by its cull. -/
theorem tick_step (c : Client σ) (now : ℕ) : View.Move ext c.view (c.tick ext now).2.view := by
  rw [tick_view]
  exact tickPredictor_step c now

/-- Another size shows nothing yet. -/
theorem setSize_view (c : Client σ) (cols rows : ℕ) : (c.setSize cols rows).view = c.view := by
  unfold setSize
  dsimp only
  split <;> rfl

/-- **A step of a client resets it or moves its view.** -/
theorem step_move (h : Step ext z c c') : c' = c.reset ∨ View.Move ext c.view c'.view := by
  cases h with
  | buffer => exact .inr (view_quiet rfl)
  | frame typ payload now => exact .inr (handleFrame_step ..)
  | datagram bytes now => exact .inr (recvDatagram_step ..)
  | queueInput bytes now => exact .inr (queueInput_step ..)
  | tick now => exact .inr (tick_step c now)
  | pump => exact .inr (view_quiet (pump_view c))
  | advanceOutbound => exact .inr (view_quiet rfl)
  | beginConnection => exact .inr (view_quiet rfl)
  | endConnection => exact .inr (view_quiet rfl)
  | reset => exact .inl rfl
  | setSize cols rows => exact .inr (view_quiet (setSize_view c cols rows))
  | requestHangup => exact .inr (view_quiet rfl)

/-- **Every step of a client is a step of its view.** -/
theorem step_view (h : Step ext z c c') : View.Step ext c.view c'.view := by
  rcases step_move h with rfl | h
  · exact .reset c.view
  · exact .move h

end Client
end Quosh
