/-
# The session of the command line

`crates/quosh-cli/src/main.rs`: `run_session`, which connects again and again, and
`session_loop`, which drives the client over one connection.  Both are loops around a
`select!`, so a run is a sequence of events: what the network, the keyboard, the clock and
the terminal do next (`Event`), each taken where the program is at the time (`Place`).

`Cli.step` is one event; an event that is not waited for does nothing.  A run keeps one
record that the program does not: the links that have ended, each with whether the server
had answered on it (`ends`).

What an event makes the client take in is `hear`; behind that the program only calls it
(`step_calls`), and never tells it that a connection has ended.
-/

import Quosh.Cli.Painter
import Quosh.Cli.TtyWriter
import Quosh.Client.Shown
import Quosh.Client.Delivery

namespace Quosh

/-- `MAX_HANDSHAKE_FAILURES`. -/
def maxHandshakeFailures : ℕ := 5

/-- `MODE_BRACKETED_PASTE`. -/
def modeBracketedPaste : ℕ := 8

/-- `LinkEnd`. -/
inductive LinkEnd where
  | ended
  | lost
  | handshakeFailed
  deriving DecidableEq

/-- What goes wrong in a session: a condition that connecting again cannot fix, a write to
the terminal, anything else. -/
inductive CliError where
  | fatal (msg : String)
  | io (wouldBlock : Bool)
  | other (msg : String)
  deriving DecidableEq

/-- `handshake_failed`. -/
def handshakeFailed (reason : String) : CliError :=
  .fatal ("handshake with quosh-server failed: " ++ reason ++
    " (is quosh-server up to date with this client?)")

/-- `handshake_closed`. -/
def handshakeClosed : CliError := handshakeFailed "connection closed before HelloOk"

/-- `input_overflowed`. -/
def inputOverflowed : CliError :=
  .fatal ("local input buffer overflowed while the connection was stalled; " ++
    "refusing to forward a partial command stream (reconnect and retry)")

/-- The error behind too many links that the server did not answer. -/
def gaveUp (n : ℕ) : CliError :=
  handshakeFailed ("gave up after " ++ toString n ++ " transport failures during attach")

/-- The error of a write, if it failed. -/
def Written.error : Written → Option CliError
  | .ok => none
  | .wouldBlock => some (.io true)
  | _ => some (.io false)

/-- Where the program is: it connects, is at the head or at the `select!` of `session_loop`,
or is over. -/
inductive Place where
  | connecting
  | head
  | waiting
  | finished (result : Except CliError Unit)
  deriving DecidableEq

/-- The variables of `run_session` other than the client, the terminal, and the links that
have ended. -/
structure Cli where
  painter : Painter
  monitor : Monitor := {}
  raw : Bool := false
  failures : ℕ := 0
  lastMode : ℕ := 0
  place : Place := .connecting
  ends : List (Bool × LinkEnd) := []

namespace Cli

/-- What the program waits for.  An event carries what it reads, the time, and what becomes
of the writes to the terminal. -/
inductive Event where
  | opened (now : ℕ)
  | rawFailed (msg : String)
  | openFailed (msg : String)
  | connectFailed (now : ℕ) (w : Writes)
  | timer (now : ℕ) (w : Writes)
  | ctrl (e : Option CtrlEvent) (size : ℕ × ℕ) (flushed : List ℕ)
  | typed (bytes : Bytes) (now : ℕ)
  | head (now : ℕ) (w : Writes)
  | read (bytes : Bytes) (now : ℕ)
  | readEnd
  | readFailed
  | datagram (bytes : Bytes) (now : ℕ)
  | datagramFailed
  | wrote (n : ℕ)
  | writeEnd
  | writeFailed
  | sleep

/-- What the writes of an event come to. -/
def Event.writes : Event → Writes
  | .connectFailed _ w => w
  | .timer _ w => w
  | .head _ w => w
  | _ => {}

variable {σ : Type} (ext : Externals σ) (z : Lz4)

/-- The head of the loop of `run_session`. -/
def loop (s : Cli) (c : Client σ) : Cli × Client σ :=
  ({ s with place := if c.hungup then .finished (.ok ()) else .connecting }, c)

/-- The end of the arm of `run_session` for a link: connect again. -/
def again (s : Cli) (c : Client σ) : Cli × Client σ :=
  loop { s with painter := s.painter.forceRepaint } c.reset

/-- The arm of `run_session` for a link, behind `session_loop`. -/
def afterLink (s : Cli) (c : Client σ) (r : Except CliError LinkEnd) : Cli × Client σ :=
  match r with
  | .ok .ended =>
    ({ s with place := .finished (.ok ()), ends := s.ends ++ [(c.helloOk, .ended)] }, c)
  | .ok .lost => again { s with failures := 0, ends := s.ends ++ [(c.helloOk, .lost)] } c
  | .ok .handshakeFailed =>
    let s := { s with
      failures := s.failures + 1, ends := s.ends ++ [(c.helloOk, .handshakeFailed)] }
    if s.failures ≥ maxHandshakeFailures then
      ({ s with place := .finished (.error (gaveUp s.failures)) }, c)
    else again s c
  | .error (.fatal msg) => ({ s with place := .finished (.error (.fatal msg)) }, c)
  | .error (.io true) => again s c
  | .error _ => again { s with monitor := s.monitor.spoil } c

/-- `stream_end`. -/
def streamEnd (c : Client σ) : Except CliError LinkEnd :=
  if c.helloOk then .ok .lost else .error handshakeClosed

/-- `transport_error`. -/
def transportError (c : Client σ) : Except CliError LinkEnd :=
  if c.helloOk then .ok .lost else .ok .handshakeFailed

/-- `client_fatal`. -/
def clientFatal : ClientError → CliError
  | .fatal m => .fatal m

/-- `flush_bounded`, with the sizes of the writes that are made in time. -/
def flushBounded : List ℕ → Client σ → Client σ
  | [], c => c.pump
  | n :: ns, c =>
    if c.pump.feed.writing then flushBounded ns (c.pump.advanceOutbound n) else c.pump

/-- `Client::mode`. -/
def mode (c : Client σ) : ℕ := (c.confirmed.map fun s => s.frame.mode).getD 0

/-- `apply_modes`. -/
def applyModes (s : Cli) (mode : ℕ) : Cli :=
  let wasPaste := decide (s.lastMode &&& modeBracketedPaste ≠ 0)
  let nowPaste := decide (mode &&& modeBracketedPaste ≠ 0)
  if wasPaste = nowPaste then { s with lastMode := mode }
  else { s with lastMode := mode, monitor := { s.monitor with paste := nowPaste } }

/-- `painter.paint(&client)`. -/
def paint (s : Cli) (c : Client σ) (w : Writes) : Written × Cli :=
  match s.painter.paint s.monitor c.display c.outage w with
  | (r, painter, monitor) => (r, { s with painter, monitor })

/-- A tick and a paint of `run_session`; an error of the paint ends it. -/
def tickPaint (s : Cli) (c : Client σ) (now : ℕ) (w : Writes) : Cli × Client σ :=
  let c := (c.tick ext now).2
  match s.paint c w with
  | (r, s) =>
    match r.error with
    | some e => ({ s with place := .finished (.error e) }, c)
    | none => s.loop c

/-- An event while `run_session` connects. -/
def connecting (s : Cli) (c : Client σ) : Event → Cli × Client σ
  | .opened now =>
    ({ s with
      raw := true, lastMode := 0, place := .head, painter := s.painter.forceRepaint },
      c.beginConnection now)
  | .rawFailed msg =>
    if s.raw then (s, c) else ({ s with place := .finished (.error (.other msg)) }, c)
  | .openFailed msg => afterLink { s with raw := true } c (.error (.other ("open control" ++ msg)))
  | .connectFailed now w =>
    if s.raw then tickPaint ext s c now w else loop { s with monitor := s.monitor.spoil } c
  | .timer now w => tickPaint ext s c now w
  | .ctrl none _ _ => ({ s with place := .finished (.error (.other "input task exited")) }, c)
  | .ctrl (some (.failed m)) _ _ =>
    ({ s with place := .finished (.error (.other ("input: " ++ m))) }, c)
  | .ctrl (some .overflow) _ _ => ({ s with place := .finished (.error inputOverflowed) }, c)
  | .ctrl (some .interrupt) _ _ => s.loop c.requestHangup
  | .ctrl (some .hangup) _ _ => s.loop c.requestHangup
  | .ctrl (some .eof) _ _ => s.loop (if s.raw then c.requestHangup else c)
  | .ctrl (some .winch) size _ => s.loop (c.setSize size.1 size.2)
  | .typed bytes now => s.loop (if c.canAcceptInput then c.queueInput ext bytes now else c)
  | _ => (s, c)

/-- The head of the loop of `session_loop`. -/
def atHead (s : Cli) (c : Client σ) (now : ℕ) (w : Writes) : Cli × Client σ :=
  match c.tick ext now with
  | (.linkDead, c) => afterLink s c (transportError c)
  | (.alive, c) =>
    match s.paint c w with
    | (r, s) =>
      match r.error with
      | some e => afterLink s c (.error e)
      | none =>
        let s := if mode c ≠ s.lastMode then s.applyModes (mode c) else s
        if c.hungup then afterLink s c (.ok .ended) else ({ s with place := .waiting }, c)

/-- Back to the head of the loop of `session_loop`. -/
def next (s : Cli) (c : Client σ) : Cli × Client σ := ({ s with place := .head }, c)

/-- An event at the `select!` of `session_loop`. -/
def onLink (s : Cli) (c : Client σ) : Event → Cli × Client σ
  | .read bytes now =>
    match c.recvControl ext z bytes now with
    | (.error e, c) => afterLink s c (.error (clientFatal e))
    | (.ok (), c) => s.next c
  | .readEnd => afterLink s c (streamEnd c)
  | .readFailed => afterLink s c (transportError c)
  | .datagram bytes now => s.next (c.recvDatagram ext z bytes now)
  | .datagramFailed => afterLink s c (transportError c)
  | .wrote n => if c.feed.writing then s.next (c.advanceOutbound n) else (s, c)
  | .writeEnd => if c.feed.writing then afterLink s c (streamEnd c) else (s, c)
  | .writeFailed => if c.feed.writing then afterLink s c (transportError c) else (s, c)
  | .ctrl (some (.failed m)) _ _ => afterLink s c (.error (.other ("input: " ++ m)))
  | .ctrl (some .overflow) _ _ => afterLink s c (.error inputOverflowed)
  | .ctrl (some .winch) size _ => s.next (c.setSize size.1 size.2)
  | .ctrl _ _ flushed => afterLink s (flushBounded flushed c.requestHangup) (.ok .ended)
  | .typed bytes now => if c.canAcceptInput then s.next (c.queueInput ext bytes now) else (s, c)
  | .sleep => s.next c
  | _ => (s, c)

/-- One event. -/
def step (s : Cli) (c : Client σ) (e : Event) : Cli × Client σ :=
  match s.place with
  | .connecting => connecting ext s c e
  | .head =>
    match e with
    | .head now w => atHead ext s c now w
    | _ => (s, c)
  | .waiting => onLink ext z s c e
  | .finished _ => (s, c)

/-- The program behind its first title. -/
def start (title : String) : Cli where
  painter := { title, shownTitle := some title }
  monitor := { title := some title }

/-- The program with its client. -/
def runSession : Machine (Cli × Client σ) Event where
  Allows _ _ := True
  act s e := step ext z s.1 s.2 e

/-! ### The client in an event -/

/-- What an event brings to the client. -/
inductive Intake where
  | connection (now : ℕ)
  | bytes (bytes : Bytes) (now : ℕ)
  | datagram (bytes : Bytes) (now : ℕ)
  | nothing

/-- What an event brings: a new connection, bytes or a datagram. -/
def intake (s : Cli) (e : Event) : Intake :=
  match s.place, e with
  | .connecting, .opened now => .connection now
  | .waiting, .read bytes now => .bytes bytes now
  | .waiting, .datagram bytes now => .datagram bytes now
  | _, _ => .nothing

/-- The client behind what an event brings. -/
def hear (s : Cli) (c : Client σ) (e : Event) : Client σ :=
  match s.intake e with
  | .connection now => c.beginConnection now
  | .bytes bytes now => (c.recvControl ext z bytes now).2
  | .datagram bytes now => c.recvDatagram ext z bytes now
  | .nothing => c

/-- A call of the program: one that delivers nothing, and not `end_connection`. -/
def Call (c c' : Client σ) : Prop := c.Local ext c' ∧ c'.connected = c.connected

/-- Any number of calls. -/
abbrev Calls : Client σ → Client σ → Prop := Relation.ReflTransGen (Call ext)

variable {ext z} {s : Cli} {c c' : Client σ}

/-- Only where a link is waited on do bytes and datagrams come in. -/
theorem intake_waiting {e : Event} (h : s.place ≠ .waiting) :
    (∃ now, s.intake e = .connection now) ∨ s.intake e = .nothing := by
  unfold intake
  split
  · exact .inl ⟨_, rfl⟩
  · exact absurd ‹_› h
  · exact absurd ‹_› h
  · exact .inr rfl

/-- Queueing input is a call that brings nothing in. -/
theorem queueInput_call (c : Client σ) (bytes : Bytes) (now : ℕ) :
    Call ext c (c.queueInput ext bytes now) := by
  refine ⟨.queueInput c bytes now, ?_⟩
  unfold Client.queueInput Client.feedPredict
  dsimp only
  split
  · rfl
  · split
    · rfl
    · split <;> rfl

/-- So is pumping. -/
theorem pump_call (c : Client σ) : Call ext c c.pump := by
  refine ⟨.pump c, ?_⟩
  have hack (c : Client σ) : c.pumpAck.connected = c.connected := by
    unfold Client.pumpAck
    split <;> rfl
  have hinput (c : Client σ) : c.pumpInput.connected = c.connected := by
    unfold Client.pumpInput
    split
    · rfl
    · split <;> rfl
  unfold Client.pump
  split
  · rfl
  · rw [hinput, hack]

/-- So is a tick. -/
theorem tick_call (c : Client σ) (now : ℕ) : Call ext c (c.tick ext now).2 := by
  refine ⟨.tick c now, ?_⟩
  have hpredictor : (c.tickPredictor ext now).connected = c.connected := by
    unfold Client.tickPredictor
    split
    · dsimp only
      split <;> rfl
    · rfl
  have hping (c : Client σ) : (c.maybePing now).connected = c.connected := by
    unfold Client.maybePing
    dsimp only
    split
    · split <;> rfl
    · rfl
  have hsilence (c : Client σ) (live : Bool) : (c.tickSilence live now).2.connected =
      c.connected := by
    unfold Client.tickSilence
    split
    · rfl
    · split
      · rfl
      · dsimp only
        split <;> rfl
  have hpump := (@pump_call _ ext) (c.tickPredictor ext now)
  unfold Client.tick
  dsimp only
  rw [hsilence]
  split
  · rw [hping, hpump.2, hpredictor]
  · rw [hpump.2, hpredictor]

/-- So is a change of the size. -/
theorem setSize_call (c : Client σ) (cols rows : ℕ) : Call ext c (c.setSize cols rows) := by
  refine ⟨.setSize c cols rows, ?_⟩
  unfold Client.setSize
  dsimp only
  split <;> rfl

/-- So is the report of what was written. -/
theorem advanceOutbound_call (c : Client σ) (n : ℕ) : Call ext c (c.advanceOutbound n) :=
  ⟨.advanceOutbound c n, rfl⟩

/-- So is a request to hang up. -/
theorem requestHangup_call (c : Client σ) : Call ext c c.requestHangup := ⟨.requestHangup c, rfl⟩

/-- So is a reset. -/
theorem reset_call (c : Client σ) : Call ext c c.reset := ⟨.reset c, rfl⟩

/-- Flushing is a run of writes. -/
theorem flushBounded_calls (flushed : List ℕ) (c : Client σ) :
    Calls ext c (flushBounded flushed c) := by
  induction flushed generalizing c with
  | nil => exact .single (pump_call c)
  | cons n ns ih =>
    rw [flushBounded]
    split
    · exact .head (pump_call c) (.head (advanceOutbound_call _ n) (ih _))
    · exact .single (pump_call c)

/-- A new link begins with a reset of the client. -/
theorem again_calls (s : Cli) (c : Client σ) : Calls ext c (s.again c).2 :=
  .single (reset_call c)

/-- The end of a link makes such calls only. -/
theorem afterLink_calls (s : Cli) (c : Client σ) (r : Except CliError LinkEnd) :
    Calls ext c (s.afterLink c r).2 := by
  unfold afterLink
  split
  · exact .refl
  · exact again_calls ..
  · dsimp only
    split
    · exact .refl
    · exact again_calls ..
  · exact .refl
  · exact again_calls ..
  · exact again_calls ..

/-- A paint between two links makes one tick. -/
theorem tickPaint_calls (s : Cli) (c : Client σ) (now : ℕ) (w : Writes) :
    Calls ext c (tickPaint ext s c now w).2 := by
  unfold tickPaint
  dsimp only
  split <;> exact .single (tick_call c now)

/-- The head of the loop makes one tick, and what the end of a link makes. -/
theorem atHead_calls (s : Cli) (c : Client σ) (now : ℕ) (w : Writes) :
    Calls ext c (atHead ext s c now w).2 := by
  have htick := (@tick_call _ ext) c now
  unfold atHead
  rcases hcall : c.tick ext now with ⟨live, c'⟩
  rw [hcall] at htick
  cases live with
  | linkDead => exact .head htick (afterLink_calls ..)
  | alive =>
    dsimp only
    split
    · exact .head htick (afterLink_calls ..)
    · split
      · exact .head htick (afterLink_calls ..)
      · exact .single htick

/-- **What the client goes through while the program connects**: what the event brings, and calls
behind it. -/
theorem connecting_calls (h : s.place = .connecting) (c : Client σ) (e : Event) :
    Calls ext (hear ext z s c e) (connecting ext s c e).2 := by
  unfold hear intake
  rw [h]
  cases e with
  | opened now => exact .refl
  | rawFailed msg =>
    dsimp only
    rw [connecting]
    split <;> exact .refl
  | openFailed msg => exact afterLink_calls ..
  | connectFailed now w =>
    dsimp only
    rw [connecting]
    split
    · exact tickPaint_calls ..
    · exact .refl
  | timer now w => exact tickPaint_calls ..
  | typed bytes now =>
    dsimp only
    rw [connecting, loop]
    split
    · exact .single (queueInput_call ..)
    · exact .refl
  | ctrl e size flushed =>
    cases e with
    | none => exact .refl
    | some e =>
      cases e with
      | eof =>
        dsimp only
        rw [connecting, loop]
        split
        · exact .single (requestHangup_call c)
        · exact .refl
      | winch => exact .single (setSize_call ..)
      | interrupt | hangup => exact .single (requestHangup_call c)
      | overflow | failed => exact .refl
  | head | read | readEnd | readFailed | datagram | datagramFailed | wrote | writeEnd |
    writeFailed | sleep => exact .refl

/-- **What the client goes through on a link**: what the event brings, and calls behind it.
By the event; whatever ends the link goes on with the calls of `after_link`. -/
theorem onLink_calls (h : s.place = .waiting) (c : Client σ) (e : Event) :
    Calls ext (hear ext z s c e) (onLink ext z s c e).2 := by
  unfold hear intake
  rw [h]
  cases e with
  | read bytes now =>
    rw [onLink]
    dsimp only
    rcases c.recvControl ext z bytes now with ⟨r, c'⟩
    cases r with
    | ok u => exact .refl
    | error e => exact afterLink_calls ..
  | readEnd | readFailed | datagramFailed => exact afterLink_calls ..
  | datagram bytes now => exact .refl
  | wrote n =>
    dsimp only
    rw [onLink]
    split
    · exact .single (advanceOutbound_call c n)
    · exact .refl
  | writeEnd | writeFailed =>
    dsimp only
    rw [onLink]
    split
    · exact afterLink_calls ..
    · exact .refl
  | typed bytes now =>
    dsimp only
    rw [onLink]
    split
    · exact .single (queueInput_call ..)
    · exact .refl
  | ctrl e size flushed =>
    have hquit : Calls ext c (afterLink s (flushBounded flushed c.requestHangup)
        (.ok .ended)).2 :=
      .head (requestHangup_call c) ((flushBounded_calls ..).trans (afterLink_calls ..))
    cases e with
    | none => exact hquit
    | some e =>
      cases e with
      | failed | overflow => exact afterLink_calls ..
      | winch => exact .single (setSize_call ..)
      | eof | interrupt | hangup => exact hquit
  | sleep | opened | rawFailed | openFailed | connectFailed | timer | head => exact .refl

/-- **Behind what the client takes in, an event makes calls.** -/
theorem step_calls (s : Cli) (c : Client σ) (e : Event) :
    Calls ext (hear ext z s c e) (step ext z s c e).2 := by
  unfold step
  cases hplace : s.place with
  | connecting => exact connecting_calls hplace c e
  | head =>
    have hhear : hear ext z s c e = c := by
      unfold hear intake
      rw [hplace]
    rw [hhear]
    cases e with
    | head now w => exact atHead_calls ..
    | opened | rawFailed | openFailed | connectFailed | timer | ctrl | typed | read | readEnd |
      readFailed | datagram | datagramFailed | wrote | writeEnd | writeFailed | sleep =>
      exact .refl
  | waiting => exact onLink_calls hplace c e
  | finished r =>
    have hhear : hear ext z s c e = c := by
      unfold hear intake
      rw [hplace]
    rw [hhear]

end Cli
end Quosh
