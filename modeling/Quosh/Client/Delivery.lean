/-
# Delivery of screens

`docs/15-shared-terminal-screens.md`, "Client rules": the client applies
last-state-wins to a screen before its prediction context, and only a screen that
is applied moves the context.

A `Link` is a client with the control stream of its current connection and the
screens delivered to it so far.  Frames are written on the stream and read in
pieces of any size, datagrams carry screens in any order and number, and a new
connection drops what was not read.  The screens come from a set that is honest
(`Honest`): distinct versions above 0, all ordinary, or all shared with epochs
that never decrease with the version.

Then no frame is fatal and the client shows the greatest version delivered,
with its context (`delivery_order_independent`).
-/

import Quosh.Client.Run
import Quosh.Proto.Stream
import Quosh.Predict.Await

namespace Quosh

/-- A screen as it is sent: alone, or shared with epoch and policy. -/
structure Sent where
  context : Option (ℕ × Bool)
  screen : Screen
  deriving DecidableEq

/-- The message type a screen is sent under. -/
def Sent.typ (a : Sent) : UInt8 := if a.context.isSome then msgSharedScreen else msgScreen

/-- The screen a frame carries. -/
def frameScreen (z : Lz4) (typ : UInt8) (payload : Bytes) : Option Sent :=
  if typ = msgSharedScreen then
    match SharedScreen.decodeCompressed z payload with
    | .error _ => none
    | .ok s => some ⟨some (s.predictionEpoch, s.predictionAllowed), s.screen⟩
  else if typ = msgScreen then
    match Screen.decodeCompressed z payload with
    | .error _ => none
    | .ok s => some ⟨none, s⟩
  else none

/-- What an honest server sends: versions above 0 that name one screen each, and
contexts that never go back. -/
structure Honest (S : Sent → Prop) : Prop where
  pos : ∀ a, S a → 0 < a.screen.version
  distinct : ∀ a b, S a → S b → a.screen.version = b.screen.version → a = b
  uniform : (∀ a, S a → a.context = none) ∨ ∀ a, S a → a.context ≠ none
  epochs : ∀ a b, S a → S b → a.screen.version ≤ b.screen.version →
    ∀ p q, a.context = some p → b.context = some q → p.1 ≤ q.1

/-- A frame that carries no screen and that `handle_frame` accepts. -/
structure Harmless (typ : UInt8) (payload : Bytes) : Prop where
  screen : typ ≠ msgScreen
  shared : typ ≠ msgSharedScreen
  error : typ ≠ msgError
  hello : typ = msgHelloOk →
    ∃ h, HelloOk.decode payload = .ok h ∧ h.protocol = protocolVersion
  ack : typ = msgInputAck → ∃ n, decodeU64 payload = .ok n
  exit : typ = msgExit → ∃ status, decodeExit payload = .ok status

/-- A frame an honest server writes. -/
def Carries (z : Lz4) (S : Sent → Prop) (typ : UInt8) (payload : Bytes) : Prop :=
  (∃ a, frameScreen z typ payload = some a ∧ S a) ∨ Harmless typ payload

namespace Client

variable {σ : Type} {ext : Externals σ} {z : Lz4} {S : Sent → Prop} {c c' : Client σ}

/-! ### What leaves the confirmed screen alone -/

/-- The part of a client that a delivery decides, and its buffer. -/
structure Same (c c' : Client σ) : Prop where
  confirmed : c'.confirmed = c.confirmed
  context : c'.sharedPrediction = c.sharedPrediction
  never : c'.never = c.never
  pref : c'.predictor.displayPreference = c.predictor.displayPreference
  recvBuf : c'.recvBuf = c.recvBuf

theorem Same.refl (c : Client σ) : Same c c := ⟨rfl, rfl, rfl, rfl, rfl⟩

theorem Same.trans {c'' : Client σ} (h : Same c c') (h' : Same c' c'') : Same c c'' :=
  ⟨h'.confirmed.trans h.confirmed, h'.context.trans h.context, h'.never.trans h.never,
    h'.pref.trans h.pref, h'.recvBuf.trans h.recvBuf⟩

/-- Predictions do not change whether they are displayed. -/
theorem feedBytes_pref (p : Predictor σ) (d : FrameState) (bytes : Bytes) (now : ℕ) :
    (feedBytes ext p d bytes now).displayPreference = p.displayPreference := by
  induction bytes generalizing p with
  | nil => rfl
  | cons b bytes ih => exact (ih _).trans (Predictor.newUserByte_pref p b d now)

/-- A prediction changes nothing that was delivered. -/
theorem feedPredict_same (c : Client σ) (seq : ℕ) (bytes : Bytes) (now : ℕ) :
    Same c (c.feedPredict ext seq bytes now) := by
  unfold feedPredict
  split
  · exact .refl c
  · split
    · exact ⟨rfl, rfl, rfl, rfl, rfl⟩
    · split
      · exact .refl c
      · exact ⟨rfl, rfl, rfl, feedBytes_pref .., rfl⟩

/-- Nor does an input. -/
theorem queueInput_same (c : Client σ) (bytes : Bytes) (now : ℕ) :
    Same c (c.queueInput ext bytes now) := by
  have h := (@feedPredict_same _ ext) { c with seq := c.seq + 1 } (c.seq + 1) bytes now
  exact ⟨h.confirmed, h.context, h.never, h.pref, h.recvBuf⟩

/-- Nor does a pump. -/
theorem pump_same (c : Client σ) : Same c c.pump := by
  have hack (c : Client σ) : Same c c.pumpAck := by
    unfold pumpAck
    split <;> exact ⟨rfl, rfl, rfl, rfl, rfl⟩
  have hinput (c : Client σ) : Same c c.pumpInput := by
    unfold pumpInput
    split
    · exact .refl c
    · split <;> exact ⟨rfl, rfl, rfl, rfl, rfl⟩
  unfold pump
  split
  · exact .refl c
  · exact (hack c).trans (hinput _)

/-- Nor does a tick. -/
theorem tick_same (c : Client σ) (now : ℕ) : Same c (c.tick ext now).2 := by
  have hpredictor : Same c (c.tickPredictor ext now) := by
    unfold tickPredictor
    split
    · dsimp only
      split
      · exact ⟨rfl, rfl, rfl, rfl, rfl⟩
      · exact ⟨rfl, rfl, rfl, (Predictor.cull_culls ..).pref, rfl⟩
    · exact .refl c
  have hping (c : Client σ) : Same c (c.maybePing now) := by
    unfold maybePing
    dsimp only
    split
    · split <;> exact ⟨rfl, rfl, rfl, rfl, rfl⟩
    · exact .refl c
  have hsilence (c : Client σ) (live : Bool) : Same c (c.tickSilence live now).2 := by
    unfold tickSilence
    split
    · exact .refl c
    · split
      · exact .refl c
      · dsimp only
        split <;> exact ⟨rfl, rfl, rfl, rfl, rfl⟩
  have hlive := (hpredictor.trans (pump_same _))
  unfold tick
  dsimp only
  refine Same.trans ?_ (hsilence _ _)
  split
  · exact hlive.trans (hping _)
  · exact hlive

/-- A call that delivers nothing. -/
inductive Local (ext : Externals σ) : Client σ → Client σ → Prop
  | queueInput (c : Client σ) (bytes : Bytes) (now : ℕ) : Local ext c (c.queueInput ext bytes now)
  | tick (c : Client σ) (now : ℕ) : Local ext c (c.tick ext now).2
  | pump (c : Client σ) : Local ext c c.pump
  | advanceOutbound (c : Client σ) (n : ℕ) : Local ext c (c.advanceOutbound n)
  | endConnection (c : Client σ) : Local ext c c.endConnection
  | reset (c : Client σ) : Local ext c c.reset
  | setSize (c : Client σ) (cols rows : ℕ) : Local ext c (c.setSize cols rows)
  | requestHangup (c : Client σ) : Local ext c c.requestHangup

/-- **No call that brings nothing in** changes what was delivered. -/
theorem Local.same (h : Local ext c c') : Same c c' := by
  cases h with
  | queueInput bytes now => exact queueInput_same ..
  | tick now => exact tick_same ..
  | pump => exact pump_same c
  | advanceOutbound => exact ⟨rfl, rfl, rfl, rfl, rfl⟩
  | endConnection => exact ⟨rfl, rfl, rfl, rfl, rfl⟩
  | reset => exact ⟨rfl, rfl, rfl, rfl, rfl⟩
  | setSize cols rows =>
    unfold Client.setSize
    dsimp only
    split <;> exact ⟨rfl, rfl, rfl, rfl, rfl⟩
  | requestHangup => exact ⟨rfl, rfl, rfl, rfl, rfl⟩

/-- A datagram is not part of the control stream. -/
theorem recvDatagram_recvBuf (c : Client σ) (bytes : Bytes) (now : ℕ) :
    (c.recvDatagram ext z bytes now).recvBuf = c.recvBuf := by
  unfold recvDatagram
  dsimp only
  split
  · split
    · rfl
    · exact applySharedScreen_recvBuf ..
  · split
    · rfl
    · split
      · rfl
      · exact applyScreen_recvBuf ..

/-- Predictions are off if the user or the server says so. -/
theorem preference_eq_never (never allowed : Bool) :
    preference never allowed = .never ↔ never = true ∨ allowed = false := by
  cases never <;> cases allowed <;> decide

/-- **A harmless frame is accepted** and leaves the screen alone, by its type: it is none
that brings a screen or an error, and what it carries can be decoded. -/
theorem Harmless.handleFrame {typ : UInt8} {payload : Bytes} (h : Harmless typ payload)
    (c : Client σ) (now : ℕ) : (c.handleFrame ext z typ payload now).1 = .ok () ∧
      Same c (c.handleFrame ext z typ payload now).2 := by
  unfold Client.handleFrame
  split_ifs with h₁ h₂ h₃ h₄ h₅ h₆ h₇ h₈
  · obtain ⟨hello, hd, hp⟩ := h.hello h₁
    unfold handleHelloOk
    rw [hd]
    dsimp only
    rw [if_neg (not_not.2 hp)]
    exact ⟨rfl, rfl, rfl, rfl, rfl, rfl⟩
  · exact absurd h₂ h.shared
  · exact absurd h₃ h.screen
  · exact absurd h₃ h.screen
  · obtain ⟨n, hn⟩ := h.ack h₅
    rw [hn]
    exact ⟨rfl, rfl, rfl, rfl, rfl, rfl⟩
  · refine ⟨rfl, ?_⟩
    unfold handlePong
    dsimp only
    split <;> exact ⟨rfl, rfl, rfl, rfl, rfl⟩
  · obtain ⟨status, hs⟩ := h.exit h₇
    rw [hs]
    exact ⟨rfl, rfl, rfl, rfl, rfl, rfl⟩
  · exact absurd h₈ h.error
  · exact ⟨rfl, .refl c⟩

/-! ### The greatest version delivered -/

/-- The greatest version among the screens delivered. -/
def Latest (delivered : List Sent) : Option Sent → Prop
  | none => delivered = []
  | some a => a ∈ delivered ∧ ∀ b ∈ delivered, b.screen.version ≤ a.screen.version

/-- The client shows the greatest version delivered, in its context. -/
structure Shows (S : Sent → Prop) (never : Bool) (delivered : List Sent) (c : Client σ) :
    Prop where
  sent : ∀ a ∈ delivered, S a
  user : c.never = never
  latest : ∃ a, Latest delivered a ∧ c.confirmed = a.map Sent.screen ∧
    c.sharedPrediction = a.bind Sent.context ∧
    c.predictor.displayPreference =
      preference never ((a.bind Sent.context).all Prod.snd)

/-- What a client shows it shows behind such a call. -/
theorem Shows.same {never : Bool} {delivered : List Sent} (h : Shows S never delivered c)
    (hs : Same c c') : Shows S never delivered c' := by
  obtain ⟨a, ha, hconf, hctx, hpref⟩ := h.latest
  exact ⟨h.sent, hs.never.trans h.user, a, ha, hs.confirmed.trans hconf, hs.context.trans hctx,
    hs.pref.trans hpref⟩

/-- The buffer has no part in what is shown. -/
theorem Shows.buffer {never : Bool} {delivered : List Sent} (h : Shows S never delivered c)
    (rx : Option ℕ) (buf : Bytes) :
    Shows S never delivered { c with lastRxMs := rx, recvBuf := buf } :=
  ⟨h.sent, h.user, h.latest⟩

/-- A delivery that is not newer than the latest one changes nothing. -/
theorem Latest.append_of_le {delivered : List Sent} {a b : Sent} (h : Latest delivered (some a))
    (hle : b.screen.version ≤ a.screen.version) : Latest (delivered ++ [b]) (some a) := by
  refine ⟨List.mem_append_left _ h.1, fun d hd => ?_⟩
  rcases List.mem_append.1 hd with hd | hd
  · exact h.2 d hd
  · rw [List.mem_singleton.1 hd]
    exact hle

/-- A delivery that is newer becomes the latest one. -/
theorem Latest.append_of_lt {delivered : List Sent} {a : Option Sent} {b : Sent}
    (h : Latest delivered a) (hlt : ∀ d, a = some d → d.screen.version < b.screen.version) :
    Latest (delivered ++ [b]) (some b) := by
  refine ⟨List.mem_append_right _ (List.mem_singleton_self b), fun d hd => ?_⟩
  rcases List.mem_append.1 hd with hd | hd
  · cases a with
    | none =>
      rw [show delivered = [] from h] at hd
      cases hd
    | some a => exact (h.2 d hd).trans (hlt a rfl).le
  · rw [List.mem_singleton.1 hd]

/-- What `apply_newer` makes of a delivery. -/
theorem applyNewer_latest {delivered : List Sent} {a : Option Sent} {b : Sent}
    (h : Latest delivered a) (hpos : 0 < b.screen.version) :
    (Screen.applyNewer (a.map Sent.screen) b.screen = none ∧
      Latest (delivered ++ [b]) a) ∨
    (Screen.applyNewer (a.map Sent.screen) b.screen = some b.screen ∧
      Latest (delivered ++ [b]) (some b) ∧
      ∀ d, a = some d → d.screen.version < b.screen.version) := by
  cases a with
  | none =>
    have hall : ∀ d : Sent, none = some d → d.screen.version < b.screen.version :=
      fun d hd => by cases hd
    exact .inr ⟨if_pos hpos, h.append_of_lt hall, hall⟩
  | some a =>
    by_cases hlt : a.screen.version < b.screen.version
    · have hall : ∀ d, some a = some d → d.screen.version < b.screen.version := fun d hd => by
        cases hd
        exact hlt
      exact .inr ⟨if_pos hlt, h.append_of_lt hall, hall⟩
    · exact .inl ⟨if_neg hlt, h.append_of_le (not_lt.1 hlt)⟩

/-- What installing a screen leaves. -/
theorem applyScreen_some {incoming : Screen}
    (h : Screen.applyNewer c.confirmed incoming = some incoming)
    (now : ℕ) : (c.applyScreen ext incoming now).confirmed = some incoming ∧
      (c.applyScreen ext incoming now).sharedPrediction = c.sharedPrediction ∧
      (c.applyScreen ext incoming now).never = c.never ∧
      (c.applyScreen ext incoming now).predictor.displayPreference =
        c.predictor.displayPreference := by
  unfold applyScreen
  rw [h]
  exact ⟨rfl, rfl, rfl, (Predictor.cull_culls ..).pref⟩

/-- One more that was sent. -/
theorem Shows.sent_concat {never : Bool} {delivered : List Sent} (h : Shows S never delivered c)
    {b : Sent} (hb : S b) : ∀ a ∈ delivered ++ [b], S a := by
  intro a ha
  rcases List.mem_append.1 ha with ha | ha
  · exact h.sent a ha
  · rwa [List.mem_singleton.1 ha]

/-- A client that was sent ordinary screens only has no context. -/
theorem Shows.context_none (hS : Honest S) {never : Bool} {delivered : List Sent}
    (h : Shows S never delivered c) {s : Screen} (hs : S ⟨none, s⟩) :
    c.sharedPrediction = none := by
  obtain ⟨a, ha, -, hctx, -⟩ := h.latest
  rw [hctx]
  cases a with
  | none => rfl
  | some a =>
    rcases hS.uniform with hu | hu
    · exact hu a (h.sent a ha.1)
    · exact absurd rfl (hu _ hs)

/-- **An ordinary screen is delivered.** -/
theorem Shows.applyScreen (hS : Honest S) {never : Bool} {delivered : List Sent}
    (h : Shows S never delivered c) {s : Screen} (hs : S ⟨none, s⟩) (now : ℕ) :
    Shows S never (delivered ++ [⟨none, s⟩]) (c.applyScreen ext s now) := by
  have hsent := h.sent_concat hs
  obtain ⟨a, ha, hconf, hctx, hpref⟩ := h.latest
  rcases applyNewer_latest (b := ⟨none, s⟩) ha (hS.pos _ hs) with ⟨hnone, hl⟩ | ⟨hsome, hl, -⟩
  · rw [← hconf] at hnone
    have hsame : c.applyScreen ext s now = c := by rw [Client.applyScreen, hnone]
    rw [hsame]
    exact ⟨hsent, h.user, a, hl, hconf, hctx, hpref⟩
  · rw [← hconf] at hsome
    obtain ⟨hc, hp, hn, hd⟩ := (@applyScreen_some _ ext) hsome now
    have hordinary : a.bind Sent.context = none := hctx.symm.trans (h.context_none hS hs)
    rw [hordinary] at hctx hpref
    exact ⟨hsent, hn.trans h.user, some ⟨none, s⟩, hl, hc, hp.trans hctx, hd.trans hpref⟩

/-- What setting a context leaves, the one that is there already included. -/
theorem Shows.setContext {never : Bool} {delivered : List Sent} (h : Shows S never delivered c)
    (p : ℕ × Bool) : (c.setContext p).confirmed = c.confirmed ∧
      (c.setContext p).sharedPrediction = some p ∧ (c.setContext p).never = never ∧
      (c.setContext p).predictor.displayPreference = preference never p.2 := by
  obtain ⟨a, -, -, hctx, hpref⟩ := h.latest
  unfold Client.setContext
  split
  · exact ⟨rfl, rfl, h.user, by rw [← h.user]; rfl⟩
  · rename_i hsame
    have hsame := not_not.1 hsame
    refine ⟨rfl, hsame, h.user, ?_⟩
    rw [hpref, ← hctx, hsame]
    rfl

/-- **A shared screen is delivered**, and the epoch check does not refuse it: if the screen
is newer than the one shown, an honest server has sent it with an epoch at least as high. -/
theorem Shows.applySharedScreen (hS : Honest S) {never : Bool} {delivered : List Sent}
    (h : Shows S never delivered c) {s : SharedScreen}
    (hs : S ⟨some (s.predictionEpoch, s.predictionAllowed), s.screen⟩) (now : ℕ) :
    (c.applySharedScreen ext s now).1 = .ok () ∧
      Shows S never (delivered ++ [⟨some (s.predictionEpoch, s.predictionAllowed), s.screen⟩])
        (c.applySharedScreen ext s now).2 := by
  set b : Sent := ⟨some (s.predictionEpoch, s.predictionAllowed), s.screen⟩ with hb
  have hsent := h.sent_concat hs
  obtain ⟨a, ha, hconf, hctx, hpref⟩ := h.latest
  rcases applyNewer_latest (b := b) ha (hS.pos _ hs) with ⟨hnone, hl⟩ | ⟨hsome, hl, hlt⟩
  · rw [← hconf] at hnone
    have hsame : c.applySharedScreen ext s now = (.ok (), c) := by
      rw [Client.applySharedScreen, show Screen.applyNewer c.confirmed s.screen = none from hnone]
    rw [hsame]
    exact ⟨rfl, hsent, h.user, a, hl, hconf, hctx, hpref⟩
  · have hregress : (c.sharedPrediction.any fun p => s.predictionEpoch < p.1) = false := by
      rw [hctx]
      cases a with
      | none => rfl
      | some a =>
        cases hac : a.context with
        | none => simp [hac]
        | some p =>
          have := hS.epochs a b (h.sent a ha.1) hs (hlt a rfl).le p _ hac rfl
          simpa [hac] using this
    rw [← hconf] at hsome
    have hcall : c.applySharedScreen ext s now =
        (.ok (), (c.setContext (s.predictionEpoch, s.predictionAllowed)).applyScreen ext s.screen
          now) := by
      rw [Client.applySharedScreen,
        show Screen.applyNewer c.confirmed s.screen = some s.screen from hsome]
      dsimp only
      rw [hregress]
      rfl
    obtain ⟨hc₀, hp₀, hn₀, hd₀⟩ := h.setContext (s.predictionEpoch, s.predictionAllowed)
    obtain ⟨hc, hp, hn, hd⟩ :=
      (@applyScreen_some _ ext (c.setContext (s.predictionEpoch, s.predictionAllowed)) s.screen)
      (by rw [hc₀]; exact hsome) now
    rw [hcall]
    exact ⟨rfl, hsent, hn.trans hn₀, some b, hl, hc, hp.trans hp₀, hd.trans hd₀⟩

/-! ### Frames and datagrams -/

/-- **A frame of an honest server is accepted**, and delivers what it carries.  A plain
screen comes only from a server that shares none, so there is no context that would refuse
it. -/
theorem Shows.handleFrame (hS : Honest S) {never : Bool} {delivered : List Sent}
    (h : Shows S never delivered c) {typ : UInt8} {payload : Bytes}
    (hf : Carries z S typ payload) (now : ℕ) :
    (c.handleFrame ext z typ payload now).1 = .ok () ∧
      Shows S never (delivered ++ (frameScreen z typ payload).toList)
        (c.handleFrame ext z typ payload now).2 := by
  rcases hf with ⟨a, ha, hSa⟩ | hf
  · rw [ha]
    unfold frameScreen at ha
    split_ifs at ha with hshared hscreen
    · subst hshared
      cases hd : SharedScreen.decodeCompressed z payload with
      | error e =>
        rw [hd] at ha
        cases ha
      | ok s =>
        rw [hd] at ha
        cases ha
        have hcall : c.handleFrame ext z msgSharedScreen payload now =
            c.applySharedScreen ext s now := by
          rw [Client.handleFrame, if_neg (by decide), if_pos rfl, hd]
        rw [hcall]
        exact h.applySharedScreen hS hSa now
    · subst hscreen
      cases hd : Screen.decodeCompressed z payload with
      | error e =>
        rw [hd] at ha
        cases ha
      | ok s =>
        rw [hd] at ha
        cases ha
        have hcall : c.handleFrame ext z msgScreen payload now =
            (.ok (), c.applyScreen ext s now) := by
          rw [Client.handleFrame, if_neg (by decide), if_neg (by decide), if_pos rfl,
            if_neg (by simp [h.context_none hS hSa]), hd]
        rw [hcall]
        exact ⟨rfl, h.applyScreen hS hSa now⟩
  · have hnone : frameScreen z typ payload = none := by
      rw [frameScreen, if_neg hf.shared, if_neg hf.screen]
    obtain ⟨hok, hsame⟩ := (@Harmless.handleFrame _ ext z) hf c now
    rw [hnone, Option.toList_none, List.append_nil]
    exact ⟨hok, h.same hsame⟩

/-- A payload that decodes as an ordinary screen does not start like a shared one:
its first four bytes are a length below the cap. -/
theorem not_magic_of_decode {bytes : Bytes} {s : Screen}
    (h : Screen.decodeCompressed z bytes = .ok s) :
    ¬sharedScreenMagic.isPrefixOf bytes = true := by
  intro hmagic
  have htake : bytes.take 4 = sharedScreenMagic :=
    (List.prefix_iff_eq_take.1 (List.isPrefixOf_iff_prefix.1 hmagic)).symm
  unfold Screen.decodeCompressed at h
  rw [htake] at h
  split_ifs at h with h₁ h₂
  exact h₂ (by decide)

/-- A shared screen begins with its magic. -/
theorem magic_of_decode {bytes : Bytes} {s : SharedScreen}
    (h : SharedScreen.decodeCompressed z bytes = .ok s) :
    sharedScreenMagic.isPrefixOf bytes = true := by
  unfold SharedScreen.decodeCompressed at h
  split_ifs at h with h₁ h₂ h₃
  exact List.isPrefixOf_iff_prefix.2 (not_not.1 h₃ ▸ List.take_prefix 4 bytes)

/-- **A datagram delivers its screen.**  The two kinds of a screen are told apart by the
magic, and each is decoded as the frame of that kind would be. -/
theorem Shows.recvDatagram (hS : Honest S) {never : Bool} {delivered : List Sent}
    (h : Shows S never delivered c) {a : Sent} {bytes : Bytes}
    (hb : frameScreen z a.typ bytes = some a) (ha : S a) (now : ℕ) :
    Shows S never (delivered ++ [a]) (c.recvDatagram ext z bytes now) := by
  have hrx : Shows S never delivered { c with lastRxMs := some now } :=
    h.same ⟨rfl, rfl, rfl, rfl, rfl⟩
  obtain ⟨context, screen⟩ := a
  cases context with
  | none =>
    change frameScreen z msgScreen bytes = _ at hb
    rw [frameScreen, if_neg (by decide), if_pos rfl] at hb
    cases hd : Screen.decodeCompressed z bytes with
    | error e =>
      rw [hd] at hb
      cases hb
    | ok s =>
      rw [hd] at hb
      cases hb
      have hcall : c.recvDatagram ext z bytes now =
          ({ c with lastRxMs := some now } : Client σ).applyScreen ext screen now := by
        unfold Client.recvDatagram
        dsimp only
        rw [if_neg (not_magic_of_decode hd), if_neg (by simp [h.context_none hS ha]), hd]
      rw [hcall]
      exact hrx.applyScreen hS ha now
  | some context =>
    change frameScreen z msgSharedScreen bytes = _ at hb
    rw [frameScreen, if_pos rfl] at hb
    cases hd : SharedScreen.decodeCompressed z bytes with
    | error e =>
      rw [hd] at hb
      cases hb
    | ok s =>
      rw [hd] at hb
      cases hb
      have hcall : c.recvDatagram ext z bytes now =
          (({ c with lastRxMs := some now } : Client σ).applySharedScreen ext s now).2 := by
        unfold Client.recvDatagram
        dsimp only
        rw [if_pos (magic_of_decode hd), hd]
      rw [hcall]
      exact (hrx.applySharedScreen hS ha now).2

/-- **The loop of `recv_control` on a prefix of a stream** handles exactly the
frames the prefix contains, one after the other, and keeps the rest.  What the
frames have in common is kept in `I`, a fact about the frames handled so far. -/
theorem drain_frames {I : List Frame → Client σ → Prop} {fs : List Frame} {now : ℕ}
    (hbuf : ∀ done c buf, I done c → I done { c with recvBuf := buf })
    (hframe : ∀ f ∈ fs, ∀ done c, I done c → (c.handleFrame ext z f.1 f.2 now).1 = .ok () ∧
      I (done ++ [f]) (c.handleFrame ext z f.1 f.2 now).2)
    (hsend : Sendable fs) {done : List Frame} (hI : I done c)
    (hpre : c.recvBuf <+: streamBytes fs) :
    ∃ c', c.drain ext z now = (.ok (), c') ∧ I (done ++ complete c.recvBuf.length fs) c' ∧
      c.recvBuf = streamBytes (complete c.recvBuf.length fs) ++ c'.recvBuf := by
  induction fs generalizing c done with
  | nil =>
    rw [streamBytes_nil, List.prefix_nil] at hpre
    refine ⟨c, ?_, ?_, by rw [hpre]; rfl⟩
    · rw [drain, hpre]
      rfl
    · rw [complete, List.append_nil]
      exact hI
  | cons f fs ih =>
    rcases splitFrame_of_prefix hsend hpre with ⟨f', fs', rest, hcons, hb, hrest, hsplit⟩ |
      ⟨hsplit, hshort⟩
    · cases hcons
      have hlen : c.recvBuf.length = f.bytes.length + rest.length := by
        rw [hb, List.length_append]
      obtain ⟨hok, hI'⟩ := hframe f (List.mem_cons_self ..) done _ (hbuf done c rest hI)
      have hkeep := (@handleFrame_recvBuf _ ext z)
        ({ c with recvBuf := rest } : Client σ) f.1 f.2 now
      rw [drain_eq, hsplit]
      dsimp only
      cases hcall : ({ c with recvBuf := rest } : Client σ).handleFrame ext z f.1 f.2 now with
      | mk r c₁ =>
        rw [hcall] at hok hI' hkeep
        dsimp only at hok hI' hkeep
        subst hok
        obtain ⟨c', hdrain, hI'', hb'⟩ := ih
          (fun g hg => hframe g (List.mem_cons_of_mem _ hg)) hsend.tail hI' (hkeep ▸ hrest)
        rw [hkeep] at hI'' hb'
        refine ⟨c', hdrain, ?_, ?_⟩
        · rw [hlen, complete_append]
          rwa [List.append_assoc] at hI''
        · rw [hlen, complete_append, streamBytes_cons, List.append_assoc, ← hb']
          exact hb
    · refine ⟨c, ?_, ?_, ?_⟩
      · rw [drain_eq, hsplit]
      · rw [complete_eq_nil hshort, List.append_nil]
        exact hI
      · rw [complete_eq_nil hshort]
        rfl

end Client

/-! ### A link and its runs -/

/-- A client, the frames of its control stream that it has not read whole, how much
of their bytes it has read, and the screens delivered to it so far. -/
structure Link (σ : Type) where
  client : Client σ
  pending : List Frame := []
  read : ℕ := 0
  delivered : List Sent := []

namespace Link

variable {σ : Type} (ext : Externals σ) (z : Lz4)

/-- The bytes on the stream. -/
def unread (l : Link σ) : Bytes := (streamBytes l.pending).drop l.read

/-- The next `n` bytes of the stream reach the client. -/
def recv (l : Link σ) (n now : ℕ) : Link σ where
  client := (l.client.recvControl ext z (l.unread.take n) now).2
  pending := l.pending.drop (complete (l.read + n) l.pending).length
  read := l.read + n - (streamBytes (complete (l.read + n) l.pending)).length
  delivered := l.delivered ++
    (complete (l.read + n) l.pending).flatMap fun f => (frameScreen z f.1 f.2).toList

/-- One step of a link to an honest server. -/
inductive Step (S : Sent → Prop) : Link σ → Link σ → Prop
  | write (l : Link σ) (typ : UInt8) (payload : Bytes) (hlen : payload.length < maxFrame)
    (h : Carries z S typ payload) : Step S l { l with pending := l.pending ++ [(typ, payload)] }
  | recv (l : Link σ) (n now : ℕ) (hn : n ≤ l.unread.length) : Step S l (l.recv ext z n now)
  | datagram (l : Link σ) (a : Sent) (bytes : Bytes) (now : ℕ)
    (h : frameScreen z a.typ bytes = some a) (ha : S a) :
    Step S l { l with
      client := l.client.recvDatagram ext z bytes now
      delivered := l.delivered ++ [a] }
  | call (l : Link σ) (c : Client σ) (h : l.client.Local ext c) : Step S l { l with client := c }
  | connect (l : Link σ) (now : ℕ) :
    Step S l { l with client := l.client.beginConnection now, pending := [], read := 0 }

/-- The links reached from a new client. -/
inductive Reachable (S : Sent → Prop) (never : Bool) : Link σ → Prop
  | new (sessionId : FixedBytes 16) (token : FixedBytes 32) (cols rows : ℕ) :
    Reachable S never { client := .new ext sessionId token cols rows never }
  | step {l l' : Link σ} (h : Reachable S never l) (hs : Step ext z S l l') : Reachable S never l'

variable {ext z} {S : Sent → Prop} {never : Bool} {l l' : Link σ}

/-- **The invariant of a link**: the client holds what it read of the pending
frames, less than the first of them, and shows what was delivered. -/
structure Sound (z : Lz4) (S : Sent → Prop) (never : Bool) (l : Link σ) : Prop where
  sendable : Sendable l.pending
  carries : ∀ f ∈ l.pending, Carries z S f.1 f.2
  read_le : l.read ≤ (streamBytes l.pending).length
  recvBuf : l.client.recvBuf = (streamBytes l.pending).take l.read
  shows : l.client.Shows S never l.delivered

/-- **A read is accepted** and keeps the link sound.  The buffer is the front of the stream
up to where it was read, so the frames that are taken off it are the whole ones of that
front, in the order they were written. -/
theorem Sound.recv (hS : Honest S) (h : l.Sound z S never) (n now : ℕ) (hn : n ≤ l.unread.length) :
    (l.client.recvControl ext z (l.unread.take n) now).1 = .ok () ∧
      (l.recv ext z n now).Sound z S never := by
  let c : Client σ :=
    { l.client with
      lastRxMs := if l.unread.take n = [] then l.client.lastRxMs else some now
      recvBuf := l.client.recvBuf ++ l.unread.take n }
  have hlen : l.read + n ≤ (streamBytes l.pending).length := by
    have := h.read_le
    rw [unread, List.length_drop] at hn
    omega
  have hbuf : c.recvBuf = (streamBytes l.pending).take (l.read + n) := by
    change l.client.recvBuf ++ l.unread.take n = _
    rw [h.recvBuf, unread, List.take_add]
  have hbuflen : c.recvBuf.length = l.read + n := by rw [hbuf, List.length_take_of_le hlen]
  obtain ⟨c', hdrain, hI, hrest⟩ := (@Client.drain_frames σ ext z c
    (fun done c => c.Shows S never
      (l.delivered ++ done.flatMap fun f => (frameScreen z f.1 f.2).toList)) l.pending now)
    (fun done c buf hc => hc.buffer c.lastRxMs buf)
    (fun f hf done c hc => by
      obtain ⟨hok, hc'⟩ := (@Client.Shows.handleFrame _ ext z _ _ hS _ _ hc) (h.carries f hf) now
      refine ⟨hok, ?_⟩
      rwa [List.flatMap_append, List.flatMap_singleton, ← List.append_assoc])
    h.sendable (by
      rw [List.flatMap_nil, List.append_nil]
      exact h.shows.buffer _ _) (hbuf ▸ List.take_prefix ..)
  have hcall : l.client.recvControl ext z (l.unread.take n) now = (.ok (), c') := hdrain
  rw [hbuflen] at hI hrest
  have hprefix := complete_prefix (l.read + n) l.pending
  have hsplit := List.prefix_iff_eq_append.1 hprefix
  have hleft := eq_take_of_append ((congrArg (fun fs => (streamBytes fs).take (l.read + n))
    hsplit).trans (hbuf.symm.trans hrest))
  refine ⟨by rw [hcall], ?_⟩
  unfold Link.recv
  rw [hcall]
  refine ⟨fun f hf => h.sendable f (List.mem_of_mem_drop hf),
    fun f hf => h.carries f (List.mem_of_mem_drop hf), ?_, hleft, ?_⟩
  · have hall := congrArg (fun fs => (streamBytes fs).length) hsplit
    dsimp only at hall ⊢
    rw [streamBytes_append, List.length_append] at hall
    omega
  · rwa [List.nil_append] at hI

/-- **Every step of a link to an honest server keeps it sound.**  Writing adds frames behind
those that are pending, and a new connection drops them all. -/
theorem Sound.step (hS : Honest S) (h : l.Sound z S never) (hs : Step ext z S l l') :
    l'.Sound z S never := by
  cases hs with
  | write typ payload hlen hc =>
    refine ⟨fun f hf => ?_, fun f hf => ?_, ?_, ?_, h.shows⟩
    · rcases List.mem_append.1 hf with hf | hf
      · exact h.sendable f hf
      · rw [List.mem_singleton.1 hf]
        exact hlen
    · rcases List.mem_append.1 hf with hf | hf
      · exact h.carries f hf
      · rw [List.mem_singleton.1 hf]
        exact hc
    · rw [streamBytes_append, List.length_append]
      exact h.read_le.trans (Nat.le_add_right ..)
    · rw [streamBytes_append, List.take_append_of_le_length h.read_le]
      exact h.recvBuf
  | recv n now hn => exact (h.recv hS n now hn).2
  | datagram a bytes now hb ha =>
    exact ⟨h.sendable, h.carries, h.read_le, (Client.recvDatagram_recvBuf ..).trans h.recvBuf,
      h.shows.recvDatagram hS hb ha now⟩
  | call c hc =>
    exact ⟨h.sendable, h.carries, h.read_le, hc.same.recvBuf.trans h.recvBuf,
      h.shows.same hc.same⟩
  | connect now =>
    exact ⟨fun f hf => absurd hf List.not_mem_nil, fun f hf => absurd hf List.not_mem_nil, le_rfl,
      rfl, h.shows.sent, h.shows.user, h.shows.latest⟩

/-- **Every link that is reached is sound.** -/
theorem sound_of_reachable (hS : Honest S) (h : Reachable ext z S never l) :
    l.Sound z S never := by
  induction h with
  | new sessionId token cols rows =>
    exact ⟨fun f hf => absurd hf List.not_mem_nil, fun f hf => absurd hf List.not_mem_nil, le_rfl,
      rfl, fun a ha => absurd ha List.not_mem_nil, rfl, none, rfl, rfl, rfl, rfl⟩
  | step _ hs ih => exact ih.step hS hs

/-- **Screen delivery is order-independent.**  Whatever an honest server's screens
go through, loss, duplication, reordering, two paths and any number of
connections, with any input and ticks in between: reading the control stream is
never fatal, and the client shows the greatest version delivered so far, in its
context, and predicts unless the user or that screen forbids it. -/
theorem delivery_order_independent (hS : Honest S) (h : Reachable ext z S never l) :
    (∀ n now, n ≤ l.unread.length →
      (l.client.recvControl ext z (l.unread.take n) now).1 = .ok ()) ∧
    (l.delivered = [] → l.client.confirmed = none) ∧
    ∀ a ∈ l.delivered, (∀ b ∈ l.delivered, b.screen.version ≤ a.screen.version) →
      l.client.confirmed = some a.screen ∧ l.client.sharedPrediction = a.context ∧
      (l.client.predictor.displayPreference = .never ↔
        never = true ∨ ∃ epoch, a.context = some (epoch, false)) := by
  have hsound := sound_of_reachable hS h
  obtain ⟨latest, hlatest, hconf, hctx, hpref⟩ := hsound.shows.latest
  refine ⟨fun n now hn => (hsound.recv hS n now hn).1, fun hnil => ?_, fun a ha hmax => ?_⟩
  · cases latest with
    | none => exact hconf
    | some a =>
      rw [hnil] at hlatest
      exact absurd hlatest.1 List.not_mem_nil
  · obtain ⟨b, rfl⟩ : ∃ b, latest = some b := by
      cases latest with
      | none =>
        rw [show l.delivered = [] from hlatest] at ha
        cases ha
      | some b => exact ⟨b, rfl⟩
    obtain rfl : b = a := hS.distinct b a (hsound.shows.sent b hlatest.1)
      (hsound.shows.sent a ha) (le_antisymm (hmax b hlatest.1) (hlatest.2 a ha))
    refine ⟨hconf, hctx, ?_⟩
    rw [hpref, Client.preference_eq_never]
    cases hbc : b.context with
    | none => simp [hbc]
    | some p =>
      obtain ⟨epoch, allowed⟩ := p
      simp [hbc]

/-- A screen that allows prediction, and a newer one that does not. -/
def firstShared : Sent := ⟨some (1, true), Client.blankScreen 1 0⟩
def secondShared : Sent := ⟨some (2, false), Client.blankScreen 2 0⟩

/-- The payload of a shared screen. -/
def sharedPayload (epoch : ℕ) (allowed : Bool) (s : Screen) : Bytes :=
  sharedScreenMagic ++ Bytes.toLe 8 epoch ++ [if allowed then 1 else 0] ++
    s.encodeCompressed .literal

/-- A link of a new client. -/
def newLink : Link Unit where
  client := .new .ascii (constBytes 16 1) (constBytes 32 2) 4 2 false

/-- The second screen reached the client as a datagram. -/
def datagramLink : Link Unit :=
  { newLink with
    client := newLink.client.recvDatagram .ascii .literal
      (sharedPayload 2 false (Client.blankScreen 2 0)) 0
    delivered := newLink.delivered ++ [secondShared] }

/-- The first one is on its stream. -/
def overtakenLink : Link Unit :=
  { datagramLink with
    pending := datagramLink.pending ++
      [(msgSharedScreen, sharedPayload 1 true (Client.blankScreen 1 0))] }

/-- The sender of the test is honest. -/
theorem honest_shared : Honest fun a => a = firstShared ∨ a = secondShared where
  pos a ha := by rcases ha with rfl | rfl <;> decide
  distinct a b ha hb h := by
    rcases ha with rfl | rfl <;> rcases hb with rfl | rfl <;> first | rfl | exact absurd h (by decide)
  uniform := .inr fun a ha => by rcases ha with rfl | rfl <;> exact Option.some_ne_none _
  epochs a b ha hb h p q hp hq := by
    rcases ha with rfl | rfl <;> rcases hb with rfl | rfl <;> cases hp <;> cases hq <;>
      first | decide | exact absurd h (by decide)

theorem overtakenLink_reachable :
    Reachable .ascii .literal (fun a => a = firstShared ∨ a = secondShared) false
      overtakenLink := by
  have hnew : Reachable .ascii .literal (fun a => a = firstShared ∨ a = secondShared) false
      newLink := .new ..
  have hdatagram := hnew.step (.datagram newLink secondShared
    (sharedPayload 2 false (Client.blankScreen 2 0)) 0 (by decide +kernel) (.inr rfl))
  exact hdatagram.step (.write datagramLink msgSharedScreen
    (sharedPayload 1 true (Client.blankScreen 1 0)) (by decide +kernel)
    (.inl ⟨firstShared, by decide +kernel, .inl rfl⟩))

/-- The hypotheses of `delivery_order_independent` are satisfiable: a screen on the
stream is overtaken by a datagram with a newer one, and the newer one stays. -/
theorem delivery_order_independent_overtakenLink :
    (overtakenLink.recv .ascii .literal overtakenLink.unread.length 1).delivered =
        [secondShared, firstShared] ∧
      (overtakenLink.recv .ascii .literal overtakenLink.unread.length 1).client.confirmed =
        some (Client.blankScreen 2 0) := by
  have hdelivered : (overtakenLink.recv .ascii .literal overtakenLink.unread.length 1).delivered =
      [secondShared, firstShared] := by decide +kernel
  refine ⟨hdelivered, ?_⟩
  have hmain := (delivery_order_independent honest_shared
    (overtakenLink_reachable.step (.recv overtakenLink _ 1 le_rfl))).2.2 secondShared
  rw [hdelivered] at hmain
  exact (hmain (List.mem_cons_self ..) (by decide)).1

end Link
end Quosh
