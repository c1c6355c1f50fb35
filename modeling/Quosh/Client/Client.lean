/-
# The client

`crates/quosh-client/src/lib.rs`, `Client`: the conversation with the server,
input sequencing, the predictor and the frame on display.  It does no I/O and
reads no clock; every function takes what arrived and the time.

A call that can fail returns its result together with the client it leaves, as
the source mutates `self` before an error.  The loop of `recv_control` runs on
the length of the buffer, which every frame shortens (`drainFrames_eq`).  The
smoothed round trip, an `f64` in the source, is rational here, and sequence
numbers and times are natural numbers.
-/

import Quosh.Proto.Feed
import Quosh.Proto.Screen
import Quosh.Predict.Predictor
import Mathlib.Data.Rat.Floor

namespace Quosh

def pasteBytes : ℕ := 100
def unackedCap : ℕ := 256 * 1024
def pingIntervalMs : ℕ := 1000
def outageBannerSecs : ℕ := 3

/-- `scaled_ms`. -/
def scaledMs (srttMs : Option ℚ) (factor : ℚ) : ℕ :=
  (srttMs.map fun s => ⌊max 0 (min (factor * s) 20000)⌋.toNat).getD 0

/-- `ping_retry_ms`. -/
def pingRetryMs (srttMs : Option ℚ) : ℕ := max 2000 (scaledMs srttMs 2)

/-- `link_dead_ms`. -/
def linkDeadMs (srttMs : Option ℚ) : ℕ := max 8000 (scaledMs srttMs 4)

/-- `ClientError`. -/
inductive ClientError where
  | fatal (message : String)
  deriving DecidableEq, Repr

/-- `Tick`. -/
inductive Tick where
  | alive
  | linkDead
  deriving DecidableEq, Repr

/-- `Client`. -/
structure Client (σ : Type) where
  sessionId : FixedBytes 16
  token : FixedBytes 32
  cols : ℕ
  rows : ℕ
  never : Bool
  sharedPrediction : Option (ℕ × Bool) := none
  connected : Bool := false
  helloOk : Bool := false
  feed : FrameFeed := {}
  sentSeq : ℕ := 0
  pendingAck : Option ℕ := none
  recvBuf : Bytes := []
  seq : ℕ := 0
  unacked : List (ℕ × Bytes) := []
  lastRxMs : Option ℕ := none
  lastPingMs : ℕ := 0
  pingSentMs : Option ℕ := none
  srttMs : Option ℚ := none
  predictor : Predictor σ
  confirmed : Option Screen := none
  display : Option FrameState := none
  outage : Option ℕ := none
  hungup : Bool := false
  exitCode : ℤ := 0

namespace Client

variable {σ : Type} (ext : Externals σ) (z : Lz4)

/-- The preference of a client: never if the user asked for it or the screen
disallows prediction. -/
def preference (never allowed : Bool) : DisplayPreference :=
  if never || !allowed then .never else .adaptive

/-- `Client::new`. -/
def new (sessionId : FixedBytes 16) (token : FixedBytes 32) (cols rows : ℕ)
    (predictNever : Bool) : Client σ where
  sessionId := sessionId
  token := token
  cols := cols
  rows := rows
  never := predictNever
  predictor := (Predictor.new ext).setDisplayPreference (preference predictNever true)

/-! ### Outbound -/

/-- `outbound`. -/
def outbound (c : Client σ) : Bytes := c.feed.rest

/-- `advance_outbound`. -/
def advanceOutbound (c : Client σ) (n : ℕ) : Client σ := { c with feed := c.feed.advance n }

/-- The first half of `pump`: a pending acknowledgement goes out. -/
def pumpAck (c : Client σ) : Client σ :=
  match c.pendingAck with
  | none => c
  | some v =>
    let (taken, feed) := c.feed.pushCtrl (encodeAckState v)
    { c with feed, pendingAck := if taken then none else some v }

/-- The second half of `pump`: the next unsent input goes out, one at a time. -/
def pumpInput (c : Client σ) : Client σ :=
  if c.feed.writing then c
  else
    match c.unacked.find? fun u => u.1 > c.sentSeq with
    | none => c
    | some (seq, data) =>
      let (taken, feed) := c.feed.pushCtrl (encodeInput seq data)
      { c with feed, sentSeq := if taken then seq else c.sentSeq }

/-- `pump`. -/
def pump (c : Client σ) : Client σ :=
  if !c.connected || c.hungup then c else c.pumpAck.pumpInput

/-- `unacked_bytes`. -/
def unackedBytes (c : Client σ) : ℕ := (c.unacked.map fun u => u.2.length).sum

/-- `can_accept_input`. -/
def canAcceptInput (c : Client σ) : Bool := c.unackedBytes < unackedCap

/-- `begin_connection`. -/
def beginConnection (c : Client σ) (nowMs : ℕ) : Client σ :=
  let hello : Hello :=
    { protocol := protocolVersion, sessionId := c.sessionId, token := c.token
      cols := c.cols, rows := c.rows }
  { c with
    connected := true, helloOk := false, recvBuf := [], sentSeq := 0, pendingAck := none
    pingSentMs := none, lastPingMs := nowMs, lastRxMs := some nowMs, outage := none
    feed := (({} : FrameFeed).pushCtrl hello.encode).2 }

/-- `end_connection`. -/
def endConnection (c : Client σ) : Client σ := { c with connected := false }

/-! ### Display -/

/-- `refresh_display`. -/
def refreshDisplay (c : Client σ) : Client σ :=
  { c with display := c.confirmed.map fun screen => c.predictor.apply ext screen.frame }

/-- `reset`. -/
def reset (c : Client σ) : Client σ := { c with predictor := c.predictor.reset, display := none }

/-- `apply_screen`. -/
def applyScreen (c : Client σ) (incoming : Screen) (nowMs : ℕ) : Client σ :=
  match Screen.applyNewer c.confirmed incoming with
  | none => c
  | some applied =>
    ({ c with
      predictor :=
        (c.predictor.setLocalFrameLateAcked applied.echoAck).cull ext applied.frame nowMs
      pendingAck := some applied.version
      confirmed := some applied
      outage := none } : Client σ).refreshDisplay ext

/-- The branch of `apply_shared_screen` for another prediction context. -/
def setContext (c : Client σ) (context : ℕ × Bool) : Client σ :=
  if c.sharedPrediction ≠ some context then
    { c with
      predictor := c.predictor.reset.setDisplayPreference (preference c.never context.2)
      sharedPrediction := some context }
  else c

/-- `apply_shared_screen`. -/
def applySharedScreen (c : Client σ) (incoming : SharedScreen) (nowMs : ℕ) :
    Except ClientError Unit × Client σ :=
  match Screen.applyNewer c.confirmed incoming.screen with
  | none => (.ok (), c)
  | some screen =>
    if c.sharedPrediction.any fun p => incoming.predictionEpoch < p.1 then
      (.error (.fatal "prediction epoch regressed"), c)
    else
      (.ok (), (c.setContext (incoming.predictionEpoch, incoming.predictionAllowed)).applyScreen
        ext screen nowMs)

/-! ### Inbound -/

/-- `MSG_HELLO_OK` in `handle_frame`. -/
def handleHelloOk (c : Client σ) (payload : Bytes) : Except ClientError Unit × Client σ :=
  match HelloOk.decode payload with
  | .error e => (.error (.fatal ("invalid HelloOk: " ++ e.display)), c)
  | .ok hello =>
    if hello.protocol ≠ protocolVersion then
      (.error (.fatal ("server protocol " ++ toString hello.protocol ++ " != client " ++
        toString protocolVersion ++ "; update the other side")), c)
    else (.ok (), { c with helloOk := true })

/-- `MSG_PONG` in `handle_frame`. -/
def handlePong (c : Client σ) (nowMs : ℕ) : Client σ :=
  let c :=
    match c.pingSentMs with
    | none => c
    | some t =>
      let sample : ℚ := (nowMs - t : ℕ)
      let srtt := (c.srttMs.map fun s => s * (3 / 4) + sample * (1 / 4)).getD sample
      let interval := min (max ⌈srtt / 2⌉.toNat 20) 250
      { c with
        pingSentMs := none, srttMs := some srtt
        predictor := c.predictor.setSendInterval interval }
  { c with lastRxMs := some nowMs, outage := none }

/-- `handle_frame`. -/
def handleFrame (c : Client σ) (typ : UInt8) (payload : Bytes) (nowMs : ℕ) :
    Except ClientError Unit × Client σ :=
  if typ = msgHelloOk then c.handleHelloOk payload
  else if typ = msgSharedScreen then
    match SharedScreen.decodeCompressed z payload with
    | .error e => (.error (.fatal ("invalid shared screen: " ++ e.display)), c)
    | .ok screen => c.applySharedScreen ext screen nowMs
  else if typ = msgScreen then
    if c.sharedPrediction.isSome then (.error (.fatal "shared screen metadata missing"), c)
    else
      match Screen.decodeCompressed z payload with
      | .error _ => (.ok (), c)
      | .ok s => (.ok (), c.applyScreen ext s nowMs)
  else if typ = msgInputAck then
    match decodeU64 payload with
    | .error e => (.error (.fatal ("protocol error: " ++ e.display)), c)
    | .ok ack => (.ok (), { c with unacked := c.unacked.filter fun u => u.1 > ack })
  else if typ = msgPong then (.ok (), c.handlePong nowMs)
  else if typ = msgExit then
    match decodeExit payload with
    | .error e => (.error (.fatal ("protocol error: " ++ e.display)), c)
    | .ok st => (.ok (), { c with exitCode := st, hungup := true })
  else if typ = msgError then
    match decodeError payload with
    | .error e => (.error (.fatal ("protocol error: " ++ e.display)), c)
    | .ok (code, m) =>
      (.error (.fatal ("server error " ++ toString code ++ ": " ++ m)), c)
  else (.ok (), c)

/-- The loop of `recv_control`, for at most `fuel` frames. -/
def drainFrames (nowMs : ℕ) : ℕ → Client σ → Except ClientError Unit × Client σ
  | 0, c => (.ok (), c)
  | fuel + 1, c =>
    match splitFrame c.recvBuf with
    | (.error e, rest) =>
      (.error (.fatal ("protocol error: " ++ e.display)), { c with recvBuf := rest })
    | (.ok none, rest) => (.ok (), { c with recvBuf := rest })
    | (.ok (some (typ, payload)), rest) =>
      match ({ c with recvBuf := rest } : Client σ).handleFrame ext z typ payload nowMs with
      | (.error e, c) => (.error e, c)
      | (.ok (), c) => drainFrames nowMs fuel c

/-- `recv_control`. -/
def recvControl (c : Client σ) (bytes : Bytes) (nowMs : ℕ) :
    Except ClientError Unit × Client σ :=
  let c :=
    { c with
      lastRxMs := if bytes = [] then c.lastRxMs else some nowMs
      recvBuf := c.recvBuf ++ bytes }
  c.drainFrames ext z nowMs c.recvBuf.length

/-- `recv_datagram`. -/
def recvDatagram (c : Client σ) (bytes : Bytes) (nowMs : ℕ) : Client σ :=
  let c := { c with lastRxMs := some nowMs }
  if sharedScreenMagic.isPrefixOf bytes then
    match SharedScreen.decodeCompressed z bytes with
    | .error _ => c
    | .ok s => (c.applySharedScreen ext s nowMs).2
  else if c.sharedPrediction.isSome then c
  else
    match Screen.decodeCompressed z bytes with
    | .error _ => c
    | .ok s => c.applyScreen ext s nowMs

/-! ### Input and time -/

/-- The byte loop of `feed_predict`; what is on display does not change during
it. -/
def feedBytes (p : Predictor σ) (basis : FrameState) (bytes : Bytes) (nowMs : ℕ) : Predictor σ :=
  bytes.foldl (fun p b => p.newUserByte ext b basis nowMs) p

/-- `feed_predict`. -/
def feedPredict (c : Client σ) (seq : ℕ) (bytes : Bytes) (nowMs : ℕ) : Client σ :=
  if c.sharedPrediction.any fun p => !p.2 then c
  else if bytes.length > pasteBytes then
    ({ c with predictor := c.predictor.reset } : Client σ).refreshDisplay ext
  else
    match c.confirmed with
    | none => c
    | some screen =>
      let predictor := feedBytes ext (c.predictor.setLocalFrameSent (seq - 1))
        (c.display.getD screen.frame) bytes nowMs
      ({ c with predictor } : Client σ).refreshDisplay ext

/-- `queue_input`. -/
def queueInput (c : Client σ) (bytes : Bytes) (nowMs : ℕ) : Client σ :=
  let c := { c with seq := c.seq + 1 }
  let c := c.feedPredict ext c.seq bytes nowMs
  { c with unacked := c.unacked ++ [(c.seq, bytes)] }

/-- `set_size`. -/
def setSize (c : Client σ) (cols rows : ℕ) : Client σ :=
  let c := { c with cols, rows }
  if c.connected && !c.hungup then
    { c with feed := (c.feed.pushCtrl (encodeResize cols rows)).2 }
  else c

/-- `request_hangup`. -/
def requestHangup (c : Client σ) : Client σ :=
  { c with feed := c.feed.pushFin encodeHangup, hungup := true }

/-- `maybe_ping`. -/
def maybePing (c : Client σ) (nowMs : ℕ) : Client σ :=
  let due := nowMs - c.lastPingMs ≥ pingIntervalMs
  let retry := c.pingSentMs.all fun t => nowMs - t ≥ pingRetryMs c.srttMs
  if due ∧ retry then
    let (taken, feed) := c.feed.pushCtrl encodePing
    if taken then { c with feed, lastPingMs := nowMs, pingSentMs := some nowMs }
    else { c with feed }
  else c

/-- The opening of `tick`: active predictions are culled and drawn again. -/
def tickPredictor (c : Client σ) (nowMs : ℕ) : Client σ :=
  if c.predictor.active then
    let c :=
      match c.confirmed with
      | none => c
      | some screen => { c with predictor := c.predictor.cull ext screen.frame nowMs }
    c.refreshDisplay ext
  else c

/-- The end of `tick`: a link that was silent for too long, and the outage banner. -/
def tickSilence (c : Client σ) (live : Bool) (nowMs : ℕ) : Tick × Client σ :=
  if live && c.lastRxMs.any fun last => nowMs - last ≥ linkDeadMs c.srttMs then (.linkDead, c)
  else
    match c.lastRxMs with
    | none => (.alive, c)
    | some last =>
      let elapsed := nowMs - last
      (.alive, if elapsed > outageBannerSecs * 1000 then { c with outage := some elapsed } else c)

/-- `tick`. -/
def tick (c : Client σ) (nowMs : ℕ) : Tick × Client σ :=
  let c := (c.tickPredictor ext nowMs).pump
  let live := c.connected && !c.hungup
  (if live then c.maybePing nowMs else c).tickSilence live nowMs

end Client
end Quosh
