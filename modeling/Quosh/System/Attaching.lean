/-
# A client attaches

The steps of one connection without anybody else in between: a client opens it, the session
takes its greeting, and if it has accepted anything the client is told the count and forgets
what the count covers (`System.learn_steps`).

The steps are those of `System.Step`, one for every read, write and frame, so that other
connections could move between any two of them.  Here none does: what such a run leads to is
all that `Quosh.System.Overtaken` and `Quosh.System.Resume` need of it, which look for one run
and not for every run.
-/

import Quosh.System.System

namespace Quosh

open Bytes

namespace FrameFeed

/-- Behind a frame in flight and an empty queue there is room for a short frame. -/
theorem pushCtrl_of_writing {f : FrameFeed} (hbusy : f.out.isEmpty = false)
    (hbytes : f.ctrlBytes = 0) {frame : Bytes} (hlen : frame.length ≤ ctrlCap) :
    (f.pushCtrl frame).1 = true := by
  unfold pushCtrl
  dsimp only
  rw [pump_of_writing hbusy, hbusy, Bool.false_and, if_neg Bool.false_ne_true, hbytes,
    Nat.zero_add, if_neg (Nat.not_lt.2 hlen)]

/-- An empty feed starts the frame it is given. -/
theorem pushCtrl_default (frame : Bytes) :
    ({} : FrameFeed).pushCtrl frame = (true, { out := { buf := frame } }) := rfl

/-- A feed that has written its only frame is empty again. -/
theorem advance_single (frame : Bytes) :
    ({ out := { buf := frame } } : FrameFeed).advance
      ({ out := { buf := frame } } : FrameFeed).rest.length = {} := by
  rw [rest, OutBuf.rest_eq_drop, List.drop_zero, advance, OutBuf.advance, if_pos (by simp)]
  rfl

end FrameFeed

namespace Client

variable {σ : Type}

/-- The greeting of a client. -/
def hello (c : Client σ) : Hello where
  protocol := protocolVersion
  sessionId := c.sessionId
  token := c.token
  cols := c.cols
  rows := c.rows

/-- A client that has opened a connection and written its greeting. -/
def greeted (c : Client σ) (now : ℕ) : Client σ := { c.beginConnection now with feed := {} }

/-- A client that has written its hello. -/
theorem advanceOutbound_beginConnection (c : Client σ) (now : ℕ) :
    (c.beginConnection now).advanceOutbound (c.beginConnection now).outbound.length =
      c.greeted now := by
  unfold greeted advanceOutbound outbound beginConnection
  dsimp only
  rw [FrameFeed.pushCtrl_default, FrameFeed.advance_single]

/-- **A client that has only one input** sends it. -/
theorem pump_single {c : Client σ} {q : ℕ} {d : Bytes} (hconnected : c.connected = true)
    (hlive : c.hungup = false) (hack : c.pendingAck = none) (hfeed : c.feed = {})
    (hsent : c.sentSeq = 0) (hunacked : c.unacked = [(q, d)]) (hq : 0 < q) :
    c.pump = { c with sentSeq := q, feed := { out := { buf := encodeInput q d } } } := by
  have hsame : c.pumpAck = c := by
    unfold pumpAck
    rw [hack]
  have hfind : c.unacked.find? (fun u => u.1 > c.sentSeq) = some (q, d) := by
    rw [hunacked, hsent]
    exact List.find?_cons_of_pos (decide_eq_true hq)
  have hpush : c.feed.pushCtrl (encodeInput q d) =
      (true, { out := { buf := encodeInput q d } }) := by
    rw [hfeed]
    exact FrameFeed.pushCtrl_default _
  have hidle : ¬c.feed.writing = true := by
    rw [hfeed]
    decide
  have hready : ¬(!c.connected || c.hungup) = true := by
    rw [hconnected, hlive]
    decide
  unfold pump
  rw [if_neg hready, hsame]
  unfold pumpInput
  rw [if_neg hidle, hfind]
  dsimp only
  rw [hpush]
  rfl

/-- The greeting is what a new connection has to write. -/
theorem outbound_beginConnection (c : Client σ) (now : ℕ) :
    (c.beginConnection now).outbound = c.hello.encode := by
  unfold outbound beginConnection
  dsimp only
  rw [FrameFeed.pushCtrl_default, FrameFeed.rest, OutBuf.rest_eq_drop, List.drop_zero]
  rfl

end Client

namespace Handler

/-- A handler starts with the answer to the greeting in flight. -/
theorem attach_writing (s : Session) (leftover : Bytes) (resize : Option (ℕ × ℕ)) :
    (attach s leftover resize).feed.out.isEmpty = false ∧
      (attach s leftover resize).feed.ctrlBytes = 0 := by
  have hwriting (hello : HelloOk) (screen : Option Bytes) :
      ({ out := { buf := hello.encode }, screen } : FrameFeed).out.isEmpty = false := by
    refine decide_eq_false (Nat.not_le.2 (List.length_pos_iff.2 ?_))
    exact encodeFrame_ne_nil _ _
  unfold attach
  dsimp only
  rw [FrameFeed.pushCtrl_default]
  cases s.latest with
  | none => exact ⟨hwriting _ none, rfl⟩
  | some first =>
    dsimp only [FrameFeed.pushScreen]
    rw [FrameFeed.pump_of_writing (hwriting _ _)]
    exact ⟨hwriting _ _, rfl⟩

/-- **The acknowledgement of a session that has accepted something** fits behind it. -/
theorem pushInputAck_attach {s : Session} (hacc : 0 < s.accepted) (leftover : Bytes)
    (resize : Option (ℕ × ℕ)) : (attach s leftover resize).pushInputAck.1 = some s.accepted := by
  obtain ⟨hwriting, hbytes⟩ := attach_writing s leftover resize
  have hlen : (encodeInputAck s.accepted).length ≤ FrameFeed.ctrlCap := by
    rw [encodeInputAck, length_encodeFrame, length_toLe]
    decide
  have hpending : (attach s leftover resize).pendingInputAck = some s.accepted := if_pos hacc
  unfold pushInputAck
  rw [hpending]
  dsimp only
  rw [if_pos (FrameFeed.pushCtrl_of_writing hwriting hbytes hlen)]

/-- **Who greets the session is attached**, if authentication found nobody else. -/
theorem handleIncoming_of_greets {s : Session} {buf rest : Bytes}
    (h : Greets s.id s.token buf rest) : ∃ resize, handleIncoming s none buf =
      .attach s.claimTransport (.attach s.claimTransport rest resize) := by
  obtain ⟨payload, hello, hsplit, hdecode, hprotocol, hid, htoken⟩ := h
  refine ⟨if hello.cols > 0 ∧ hello.rows > 0 then some (hello.cols, hello.rows) else none, ?_⟩
  unfold handleIncoming
  rw [hsplit]
  dsimp only
  rw [if_neg (not_not.2 rfl), hdecode]
  dsimp only
  rw [if_neg (not_not.2 hprotocol), if_neg (not_not.2 hid.symm), if_neg (not_not.2 htoken.symm)]
  rfl

end Handler

namespace System

variable {σ δ : Type} {ext : Externals σ} {z : Lz4} {drv : Driver δ} {s s' : System σ δ}

/-- The system with another client, session and state of the current connection. -/
def onCurrent (s : System σ δ) (client : Client σ) (session : Session) (conn : Conn) :
    System σ δ :=
  { s with client, session }.setConn s.current conn

variable {client : Client σ} {session : Session} {conn : Conn}

/-- The current connection. -/
@[simp] theorem conns_onCurrent (s : System σ δ) (client : Client σ) (session : Session)
    (conn : Conn) : (s.onCurrent client session conn).conns s.current = conn :=
  setConn_self ..

/-- All bytes of the client go out. -/
theorem Step.sendAll (hcut : conn.cut = false) :
    Step ext z drv (s.onCurrent client session conn)
      (s.onCurrent (client.advanceOutbound client.outbound.length) session
        { conn with wire := conn.wire ++ client.outbound }) := by
  simpa [onCurrent, setConn, hcut] using
    (@Step.send _ _ ext z drv) (s.onCurrent client session conn)
      client.outbound.length le_rfl

/-- All bytes of the connection are read. -/
theorem Step.readAll :
    Step ext z drv (s.onCurrent client session conn) (s.onCurrent client session
      { conn with wire := [], phase := conn.phase.receive conn.wire }) := by
  simpa [onCurrent, setConn] using
    (@Step.read _ _ ext z drv) (s.onCurrent client session conn) s.current
      conn.wire.length

/-- The hello is answered by a handler. -/
theorem Step.attachCurrent {buf : Bytes} {authUid : Option ℕ} {session' : Session} {h : Handler}
    (hphase : conn.phase = .greeting buf)
    (hgreet : handleIncoming session authUid buf = .attach session' h) :
    Step ext z drv (s.onCurrent client session conn) (s.onCurrent client session'
      { conn with phase := .serving h }) := by
  simpa [onCurrent, serve, setConn] using
    (@Step.attach _ _ ext z drv) (s.onCurrent client session conn) s.current buf
      authUid session' h (by simpa [onCurrent] using hphase) hgreet

/-- The handler acknowledges. -/
theorem Step.ackCurrent {h : Handler} (hphase : conn.phase = .serving h) :
    Step ext z drv (s.onCurrent client session conn) (s.onCurrent client session
      { conn with
        phase := .serving h.pushInputAck.2
        down := conn.down ++ h.pushInputAck.1.toList.map fun n => (msgInputAck, toLe 8 n) }) := by
  simpa [onCurrent, setConn] using
    (@Step.ack _ _ ext z drv) (s.onCurrent client session conn) s.current h
      (by simpa [onCurrent] using hphase)

/-- A frame is delivered. -/
theorem Step.deliverCurrent {f : Frame} (now : ℕ) (hf : f ∈ conn.down) :
    Step ext z drv (s.onCurrent client session conn)
      (s.onCurrent (client.handleFrame ext z f.1 f.2 now).2 session conn) := by
  have hdown : f ∈ ((s.onCurrent client session conn).conns s.current).down := by
    rwa [conns_onCurrent]
  exact .deliver (s.onCurrent client session conn) f now hdown

/-- The client makes a call. -/
theorem Step.callCurrent {client' : Client σ} (hcall : Client.Call ext client client') :
    Step ext z drv (s.onCurrent client session conn) (s.onCurrent client' session conn) :=
  .call (s.onCurrent client session conn) client' hcall

/-- The handler parses a frame. -/
theorem Step.drainCurrent {h h' : Handler} {cap : ℕ} {session' : Session}
    (hphase : conn.phase = .serving h)
    (hdrain : Handler.drainOne session h cap = .ok (some (session', h'))) :
    Step ext z drv (s.onCurrent client session conn)
      (s.onCurrent client session' { conn with phase := .serving h' }) := by
  simpa [onCurrent, serve, setConn] using
    (@Step.drain _ _ ext z drv) (s.onCurrent client session conn) s.current cap h h' session'
      (by simpa [onCurrent] using hphase) hdrain

/-- The handler passes an input on. -/
theorem Step.pushCurrent {h : Handler} (hphase : conn.phase = .serving h) :
    Step ext z drv (s.onCurrent client session conn)
      (s.onCurrent client (Handler.pushOne session h).2.1
        { conn with phase := .serving (Handler.pushOne session h).2.2 }) := by
  simpa [onCurrent, serve, setConn] using
    (@Step.push _ _ ext z drv) (s.onCurrent client session conn) s.current h
      (by simpa [onCurrent] using hphase)

/-- The greeting of a client that knows the session is taken. -/
theorem greets_of_client (hid : s.client.sessionId = s.session.id)
    (htoken : s.client.token = s.session.token) (now : ℕ) :
    Greets s.session.id s.session.token (s.client.beginConnection now).outbound [] := by
  have hprotocol : s.client.hello.protocol < 2 ^ 16 := show protocolVersion < 2 ^ 16 by decide
  obtain ⟨cols, rows, hdecode⟩ := s.client.hello.decode_payload hprotocol
  have hsplit : splitFrame s.client.hello.encode =
      (.ok (some (msgHello, s.client.hello.payload)), []) := by
    have := (@splitFrame_encode msgHello s.client.hello.payload)
      (by rw [Hello.length_payload]; decide) []
    rwa [List.append_nil] at this
  rw [Client.outbound_beginConnection]
  exact ⟨_, _, hsplit, hdecode, rfl, hid, htoken⟩

/-- **A client that knows the session is attached.** -/
theorem greet_steps (hid : s.client.sessionId = s.session.id)
    (htoken : s.client.token = s.session.token) (now : ℕ) :
    ∃ resize, Steps ext z drv s
      (({ s with current := s.current + 1 } : System σ δ).onCurrent (s.client.greeted now)
        s.session.claimTransport
        { phase := .serving (.attach s.session.claimTransport [] resize) }) := by
  obtain ⟨resize, hgreet⟩ := Handler.handleIncoming_of_greets (greets_of_client hid htoken now)
  let next : System σ δ := { s with current := s.current + 1 }
  have hconnect : Step ext z drv s
      (next.onCurrent (s.client.beginConnection now) s.session { phase := .greeting [] }) :=
    .connect s now
  have hread : Steps ext z drv s (next.onCurrent (s.client.greeted now) s.session
      { phase := .greeting (s.client.beginConnection now).outbound }) := by
    rw [← Client.advanceOutbound_beginConnection]
    exact .head hconnect <| .head (.sendAll rfl) <| .single .readAll
  exact ⟨resize, hread.tail (.attachCurrent rfl hgreet)⟩

/-- **A client that attaches is told the count of the session**, and forgets what it
covers.  For a session that has accepted nothing no `InputAck` is sent, and there is nothing
to forget. -/
theorem learn_steps (hid : s.client.sessionId = s.session.id)
    (htoken : s.client.token = s.session.token) (hlt : s.session.accepted < 2 ^ 64)
    (hpos : ∀ u ∈ s.client.unacked, 0 < u.1) :
    ∃ h down, Steps ext z drv s
        (({ s with current := s.current + 1 } : System σ δ).onCurrent
          { s.client.greeted 0 with
            unacked := s.client.unacked.filter fun u => u.1 > s.session.accepted }
          s.session.claimTransport { phase := .serving h, down }) ∧
      h.epoch = s.session.epoch + 1 ∧ h.leftover = [] ∧ h.busyInput = [] := by
  obtain ⟨resize, hgreet⟩ := (@greet_steps _ _ ext z drv s) hid htoken 0
  rcases Nat.eq_zero_or_pos s.session.accepted with hzero | hacc
  · have hall : (s.client.unacked.filter fun u => u.1 > s.session.accepted) = s.client.unacked :=
      List.filter_eq_self.2 fun u hu => by
        rw [hzero]
        exact decide_eq_true (hpos u hu)
    rw [hall]
    exact ⟨_, [], hgreet, rfl, rfl, rfl⟩
  · have hack := Handler.pushInputAck_attach (s := s.session.claimTransport) hacc [] resize
    obtain ⟨he, hleft, hbusy, -⟩ :=
      Handler.pushInputAck_spec (.attach s.session.claimTransport [] resize)
    have hdown : (msgInputAck, toLe 8 s.session.accepted) ∈ ([] : List Frame) ++
        (Handler.attach s.session.claimTransport [] resize).pushInputAck.1.toList.map
          fun n => (msgInputAck, toLe 8 n) := by
      rw [hack]
      exact List.mem_singleton_self _
    have hlearn := (hgreet.tail (.ackCurrent rfl)).tail (.deliverCurrent 0 hdown)
    rw [Client.handleFrame_inputAck, decodeU64_toLe hlt] at hlearn
    exact ⟨_, _, hlearn, he, hleft, hbusy⟩

end System
end Quosh
