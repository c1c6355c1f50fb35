/-
# What a client acknowledges

`crates/quosh-client/src/lib.rs`: a client acknowledges a screen when it installs it, in
`apply_screen`, and `pump` passes the acknowledgement on once the feed takes it.

Every call does one of three things for acknowledgements (`Client.Speaks`): it leaves them
alone, it passes the pending one on, or it installs the screen it was given, which is newer
than the confirmed one.  What a call writes is told by the frames it pushes
(`FrameFeed.Pushes`).
-/

import Quosh.Bytes.Layout
import Quosh.Client.Delivery
import Quosh.Client.Display
import Quosh.Proto.FeedGrowth

namespace Quosh

open Bytes FrameFeed

/-- Whether a frame is an `AckState`. -/
def isAckState (frame : Bytes) : Bool := frame[4]? = some msgAckState

/-- The `AckState`s of some frames. -/
def ackStates (frames : List Bytes) : List Bytes := frames.filter isAckState

/-- The type of a frame says whether it is one. -/
theorem isAckState_encodeFrame (typ : UInt8) (payload : Bytes) :
    isAckState (encodeFrame typ payload) = decide (typ = msgAckState) := by
  have hget : (encodeFrame typ payload)[4]? = some typ := by
    unfold encodeFrame
    rw [List.getElem?_append_right (by simp), length_toLe]
    rfl
  unfold isAckState
  rw [hget]
  exact decide_eq_decide.2 Option.some_inj

/-- Those of two lists. -/
theorem ackStates_append (frames frames' : List Bytes) :
    ackStates (frames ++ frames') = ackStates frames ++ ackStates frames' :=
  List.filter_append ..

/-- Another frame adds none, whether it was taken or not. -/
theorem ackStates_ite {typ : UInt8} (htyp : typ ≠ msgAckState) (payload : Bytes) (taken : Bool) :
    ackStates (if taken then [encodeFrame typ payload] else []) = [] := by
  cases taken
  · rfl
  · refine List.filter_eq_nil_iff.2 fun frame hframe => ?_
    rw [List.mem_singleton.1 hframe, isAckState_encodeFrame, decide_eq_true_iff]
    exact htyp

/-- The screen of a datagram. -/
def datagramScreen (z : Lz4) (bytes : Bytes) : Option Screen :=
  if sharedScreenMagic.isPrefixOf bytes then
    (SharedScreen.decodeCompressed z bytes).toOption.map SharedScreen.screen
  else (Screen.decodeCompressed z bytes).toOption

/-- A version is a `u64`: the header reads it from eight bytes, and nothing changes it
behind that. -/
theorem Screen.decodeCompressed_version_lt {z : Lz4} {data : Bytes} {s : Screen}
    (h : Screen.decodeCompressed z data = .ok s) : s.version < 2 ^ 64 := by
  have hraw : ∃ raw, Screen.decodeRaw raw = .ok s := by
    unfold Screen.decodeCompressed at h
    split at h
    · cases h
    · split at h
      · cases h
      · split at h
        · cases h
        · split at h
          · cases h
          · exact ⟨_, h⟩
  obtain ⟨raw, hraw⟩ := hraw
  unfold Screen.decodeRaw Bytes.complete at hraw
  split at hraw
  · rename_i s' hscreen
    cases hraw
    obtain ⟨header, mid, hheader, hrest⟩ := bind_eq_ok.1 hscreen
    have hversion : s.version = header.version := by
      obtain ⟨title, mid₁, -, hrest⟩ := bind_eq_ok.1 hrest
      obtain ⟨cells, mid₂, -, hrest⟩ := bind_eq_ok.1 hrest
      obtain ⟨overflow, mid₃, -, hrest⟩ := bind_eq_ok.1 hrest
      cases hrest
      rfl
    obtain ⟨magic, mid₁, -, hheader⟩ := bind_eq_ok.1 hheader
    obtain ⟨-, mid₂, -, hheader⟩ := bind_eq_ok.1 hheader
    obtain ⟨version, mid₃, hread, hheader⟩ := bind_eq_ok.1 hheader
    have hfield : header.version = version := by
      iterate 9
        obtain ⟨_, _, -, hheader⟩ := bind_eq_ok.1 hheader
      cases hheader
      rfl
    rw [hversion, hfield]
    exact ((inverts_readLe ..).sound _ _ _ hread).1
  · cases hraw
  · cases hraw

namespace Client

variable {σ : Type} {ext : Externals σ} {z : Lz4} {c c' c'' : Client σ} {o : Option Screen}

/-- A call that neither acknowledges nor installs a screen. -/
structure Quiet (c c' : Client σ) : Prop where
  pushes : ∃ new, Pushes c.feed c'.feed new ∧ ackStates new = []
  pending : c'.pendingAck = c.pendingAck
  confirmed : c'.confirmed = c.confirmed

/-- A call that passes the pending acknowledgement on. -/
structure Acks (c c' : Client σ) (v : ℕ) : Prop where
  pushes : ∃ new, Pushes c.feed c'.feed new ∧ ackStates new = [encodeAckState v]
  pending : c.pendingAck = some v
  none : c'.pendingAck = none
  confirmed : c'.confirmed = c.confirmed

/-- A call that installs a screen. -/
structure Applies (c c' : Client σ) (s : Screen) : Prop where
  feed : c'.feed = c.feed
  pending : c'.pendingAck = some s.version
  confirmed : c'.confirmed = some s
  pos : 0 < s.version
  newer : ∀ conf, c.confirmed = some conf → conf.version < s.version

/-- **What a call does for acknowledgements**, `o` being the screen that it receives. -/
inductive Speaks (o : Option Screen) (c c' : Client σ) : Prop
  | quiet (h : Quiet c c')
  | acks {v : ℕ} (h : Acks c c' v)
  | applies {s : Screen} (hs : o = some s) (h : Applies c c' s)

/-- A call that leaves the feed and the two fields. -/
theorem Quiet.of_eq (h : c.feed.Tidy) (hfeed : c'.feed = c.feed)
    (hpending : c'.pendingAck = c.pendingAck) (hconfirmed : c'.confirmed = c.confirmed) :
    Quiet c c' := by
  refine ⟨⟨[], ?_, rfl⟩, hpending, hconfirmed⟩
  rw [hfeed]
  exact .refl h

theorem Quiet.refl (h : c.feed.Tidy) : Quiet c c := .of_eq h rfl rfl rfl

/-- A quiet call keeps the feed tidy. -/
theorem Quiet.tidy (h : Quiet c c') : c'.feed.Tidy := by
  obtain ⟨new, hpushes, -⟩ := h.pushes
  exact hpushes.tidy

/-- What two calls acknowledge, one behind the other. -/
theorem pushes_append {f f' f'' : FrameFeed} {acks acks' : List Bytes}
    (h : ∃ new, Pushes f f' new ∧ ackStates new = acks)
    (h' : ∃ new, Pushes f' f'' new ∧ ackStates new = acks') :
    ∃ new, Pushes f f'' new ∧ ackStates new = acks ++ acks' := by
  obtain ⟨new, hpushes, hacks⟩ := h
  obtain ⟨new', hpushes', hacks'⟩ := h'
  refine ⟨new ++ new', hpushes.trans hpushes', ?_⟩
  rw [ackStates_append, hacks, hacks']

theorem Quiet.trans (h : Quiet c c') (h' : Quiet c' c'') : Quiet c c'' :=
  ⟨pushes_append h.pushes h'.pushes, h'.pending.trans h.pending, h'.confirmed.trans h.confirmed⟩

/-- An acknowledgement, and nothing. -/
theorem Acks.then_quiet {v : ℕ} (h : Acks c c' v) (h' : Quiet c' c'') : Acks c c'' v :=
  ⟨pushes_append h.pushes h'.pushes, h.pending, h'.pending.trans h.none,
    h'.confirmed.trans h.confirmed⟩

/-- Nothing, and an acknowledgement. -/
theorem Quiet.then_acks {v : ℕ} (h : Quiet c c') (h' : Acks c' c'' v) : Acks c c'' v :=
  ⟨pushes_append h.pushes h'.pushes, h.pending.symm.trans h'.pending, h'.none,
    h'.confirmed.trans h.confirmed⟩

/-- A quiet call and one that receives no screen behind it. -/
theorem Quiet.then_speaks (h : Quiet c c') (h' : Speaks none c' c'') : Speaks none c c'' := by
  rcases h' with h' | h' | ⟨hs, -⟩
  · exact .quiet (h.trans h')
  · exact .acks (h.then_acks h')
  · cases hs

/-- A call that receives no screen, and a quiet one behind it. -/
theorem Speaks.then_quiet (h : Speaks none c c') (h' : Quiet c' c'') : Speaks none c c'' := by
  rcases h with h | h | ⟨hs, -⟩
  · exact .quiet (h.trans h')
  · exact .acks (h.then_quiet h')
  · cases hs

/-- Every call keeps the feed tidy. -/
theorem Speaks.tidy (h : Speaks o c c') (ht : c.feed.Tidy) : c'.feed.Tidy := by
  rcases h with h | h | ⟨-, h⟩
  · exact h.tidy
  · obtain ⟨new, hpushes, -⟩ := h.pushes
    exact hpushes.tidy
  · exact h.feed ▸ ht

/-- A control frame that is no acknowledgement. -/
theorem push_quiet (h : c.feed.Tidy) {typ : UInt8} (htyp : typ ≠ msgAckState) (payload : Bytes)
    (hfeed : c'.feed = (c.feed.pushCtrl (encodeFrame typ payload)).2)
    (hpending : c'.pendingAck = c.pendingAck) (hconfirmed : c'.confirmed = c.confirmed) :
    Quiet c c' := by
  have hpushes := pushCtrl_pushes h (encodeFrame_ne_nil typ payload)
  exact ⟨⟨_, hfeed ▸ hpushes, ackStates_ite htyp ..⟩, hpending, hconfirmed⟩

/-! ### What is written -/

/-- **The pending acknowledgement is passed on** when the feed takes it. -/
theorem pumpAck_speaks (h : c.feed.Tidy) : Speaks none c c.pumpAck := by
  unfold pumpAck
  split
  · exact .quiet (.refl h)
  · rename_i v hpending
    have hpushes := pushCtrl_pushes h (encodeFrame_ne_nil msgAckState (toLe 8 v))
    change Pushes _ (c.feed.pushCtrl (encodeAckState v)).2
      (if (c.feed.pushCtrl (encodeAckState v)).1 then [encodeAckState v] else []) at hpushes
    cases htaken : (c.feed.pushCtrl (encodeAckState v)).1 with
    | false =>
      rw [htaken] at hpushes
      refine .quiet ⟨⟨[], hpushes, rfl⟩, ?_, rfl⟩
      dsimp only
      rw [htaken, hpending]
      rfl
    | true =>
      rw [htaken] at hpushes
      refine .acks ⟨⟨_, hpushes, ?_⟩, hpending, ?_, rfl⟩
      · refine List.filter_eq_self.2 fun frame hframe => ?_
        rw [List.mem_singleton.1 hframe, encodeAckState, isAckState_encodeFrame]
        rfl
      · dsimp only
        rw [htaken]
        rfl

/-- Pumping an input acknowledges nothing. -/
theorem pumpInput_quiet (h : c.feed.Tidy) : Quiet c c.pumpInput := by
  unfold pumpInput
  split
  · exact .refl h
  · split
    · exact .refl h
    · exact push_quiet h (show msgInput ≠ msgAckState by decide) _ rfl rfl rfl

/-- A pump passes on the pending one, or nothing. -/
theorem pump_speaks (h : c.feed.Tidy) : Speaks none c c.pump := by
  unfold pump
  split
  · exact .quiet (.refl h)
  · have hack := pumpAck_speaks h
    exact hack.then_quiet (pumpInput_quiet (hack.tidy h))

/-- A ping acknowledges nothing. -/
theorem maybePing_quiet (h : c.feed.Tidy) (now : ℕ) : Quiet c (c.maybePing now) := by
  unfold maybePing
  dsimp only
  split
  · split <;> exact push_quiet h (show msgPing ≠ msgAckState by decide) [] rfl rfl rfl
  · exact .refl h

/-- A tick passes on the pending one, or nothing. -/
theorem tick_speaks (h : c.feed.Tidy) (now : ℕ) : Speaks none c (c.tick ext now).2 := by
  have hpredictor : Quiet c (c.tickPredictor ext now) := by
    unfold tickPredictor
    split
    · dsimp only
      split <;> exact .of_eq h rfl rfl rfl
    · exact .refl h
  have hsilence (c : Client σ) (h : c.feed.Tidy) (live : Bool) :
      Quiet c (c.tickSilence live now).2 := by
    unfold tickSilence
    split
    · exact .refl h
    · split
      · exact .refl h
      · dsimp only
        split <;> exact .of_eq h rfl rfl rfl
  have hpump := hpredictor.then_speaks (pump_speaks hpredictor.tidy)
  have htidy := hpump.tidy h
  unfold tick
  dsimp only
  split
  · have hping := maybePing_quiet htidy now
    exact (hpump.then_quiet hping).then_quiet (hsilence _ hping.tidy _)
  · exact hpump.then_quiet (hsilence _ htidy _)

/-! ### What is received -/

/-- A screen is installed, or is nothing new. -/
theorem applyScreen_or (h : c.feed.Tidy) (incoming : Screen) (now : ℕ) :
    Quiet c (c.applyScreen ext incoming now) ∨
      Applies c (c.applyScreen ext incoming now) incoming := by
  unfold applyScreen
  split
  · exact .inl (.refl h)
  · rename_i applied hnew
    obtain ⟨rfl, hpos, hnewer⟩ := Screen.applyNewer_eq_some hnew
    exact .inr ⟨rfl, rfl, rfl, hpos, hnewer⟩

/-- So is a shared one. -/
theorem applySharedScreen_or (h : c.feed.Tidy) (incoming : SharedScreen) (now : ℕ) :
    Quiet c (c.applySharedScreen ext incoming now).2 ∨
      Applies c (c.applySharedScreen ext incoming now).2 incoming.screen := by
  have hcontext (context : ℕ × Bool) : (c.setContext context).feed = c.feed ∧
      (c.setContext context).pendingAck = c.pendingAck ∧
      (c.setContext context).confirmed = c.confirmed := by
    unfold setContext
    split <;> exact ⟨rfl, rfl, rfl⟩
  unfold applySharedScreen
  split
  · exact .inl (.refl h)
  · rename_i screen hnew
    obtain ⟨rfl, hpos, hnewer⟩ := Screen.applyNewer_eq_some hnew
    split
    · exact .inl (.refl h)
    · obtain ⟨hfeed, hpending, hconfirmed⟩ :=
        hcontext (incoming.predictionEpoch, incoming.predictionAllowed)
      rcases (@applyScreen_or _ ext) (hfeed ▸ h) incoming.screen now with hquiet | happlies
      · exact .inl ((Quiet.of_eq h hfeed hpending hconfirmed).trans hquiet)
      · exact .inr ⟨happlies.feed.trans hfeed, happlies.pending, happlies.confirmed, hpos,
          hnewer⟩

/-- A call that installs its screen, or does nothing. -/
theorem speaks_of_or {s : Screen} (h : Quiet c c' ∨ Applies c c' s) : Speaks (some s) c c' :=
  h.elim .quiet (.applies rfl)

/-- A frame that carries no screen. -/
theorem handleFrame_quiet (h : c.feed.Tidy) {typ : UInt8} (hscreen : typ ≠ msgScreen)
    (hshared : typ ≠ msgSharedScreen) (payload : Bytes) (now : ℕ) :
    Quiet c (c.handleFrame ext z typ payload now).2 := by
  unfold handleFrame
  rw [if_neg hshared, if_neg hscreen]
  split_ifs
  · unfold handleHelloOk
    split
    · exact .refl h
    · split
      · exact .refl h
      · exact .of_eq h rfl rfl rfl
  · split
    · exact .refl h
    · exact .of_eq h rfl rfl rfl
  · unfold handlePong
    dsimp only
    split <;> exact .of_eq h rfl rfl rfl
  · split
    · exact .refl h
    · exact .of_eq h rfl rfl rfl
  · split <;> exact .refl h
  · exact .refl h

/-- **A frame installs its screen**, or acknowledges nothing. -/
theorem handleFrame_speaks (h : c.feed.Tidy) (typ : UInt8) (payload : Bytes) (now : ℕ) :
    Speaks ((frameScreen z typ payload).map Sent.screen) c
      (c.handleFrame ext z typ payload now).2 := by
  by_cases hshared : typ = msgSharedScreen
  · subst hshared
    rw [handleFrame, if_neg (by decide), if_pos rfl, frameScreen, if_pos rfl]
    cases SharedScreen.decodeCompressed z payload with
    | error e => exact .quiet (.refl h)
    | ok s => exact speaks_of_or (applySharedScreen_or h s now)
  · by_cases hscreen : typ = msgScreen
    · subst hscreen
      rw [handleFrame, if_neg (by decide), if_neg (by decide), if_pos rfl, frameScreen,
        if_neg (by decide), if_pos rfl]
      by_cases hcontext : c.sharedPrediction.isSome = true
      · rw [if_pos hcontext]
        exact .quiet (.refl h)
      · rw [if_neg hcontext]
        cases Screen.decodeCompressed z payload with
        | error e => exact .quiet (.refl h)
        | ok s => exact speaks_of_or (applyScreen_or h s now)
    · exact .quiet (handleFrame_quiet h hscreen hshared payload now)

/-- So does a datagram. -/
theorem recvDatagram_speaks (h : c.feed.Tidy) (bytes : Bytes) (now : ℕ) :
    Speaks (datagramScreen z bytes) c (c.recvDatagram ext z bytes now) := by
  have hrx : Quiet c { c with lastRxMs := some now } := .of_eq h rfl rfl rfl
  have hreceived {c' : Client σ} {s : Screen}
      (h' : Quiet { c with lastRxMs := some now } c' ∨
        Applies { c with lastRxMs := some now } c' s) : Speaks (some s) c c' := by
    rcases h' with hquiet | happlies
    · exact .quiet (hrx.trans hquiet)
    · exact .applies rfl ⟨happlies.feed, happlies.pending, happlies.confirmed, happlies.pos,
        happlies.newer⟩
  unfold recvDatagram datagramScreen
  dsimp only
  by_cases hmagic : sharedScreenMagic.isPrefixOf bytes = true
  · rw [if_pos hmagic, if_pos hmagic]
    cases SharedScreen.decodeCompressed z bytes with
    | error e => exact .quiet hrx
    | ok s => exact hreceived (applySharedScreen_or hrx.tidy s now)
  · rw [if_neg hmagic, if_neg hmagic]
    by_cases hcontext : c.sharedPrediction.isSome = true
    · rw [if_pos hcontext]
      exact .quiet hrx
    · rw [if_neg hcontext]
      cases Screen.decodeCompressed z bytes with
      | error e => exact .quiet hrx
      | ok s => exact hreceived (applyScreen_or hrx.tidy s now)

end Client

end Quosh
