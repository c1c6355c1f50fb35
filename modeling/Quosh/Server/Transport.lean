/-
# A connection of a session

`crates/quosh-server/src/transport.rs`: a handler takes frames off the bytes a
client sent (`drainLeftover`), keeps inputs in a queue of its own, and passes them
to the owner while the command channel has room (`drainBusy`).

Both are loops of a step, `drainOne` and `pushOne`, and every step looks at the
shared state anew: between two of them other handlers and the owner move on.

The two steps are what `Quosh.System.System` interleaves.  What a frame can do is said by
`onControl_ok` and what a step can do by `drainOne_some` and `pushOne_spec`; how a connection
begins is `handleIncoming_attach`.
-/

import Quosh.Server.Session
import Quosh.Proto.Feed
import Quosh.Proto.Stream

namespace Quosh

open Bytes

/-- `BUSY_CAP`. -/
def busyCap : ℕ := 256 * 1024

/-- `INPUT_RECORD_OVERHEAD`. -/
def inputRecordOverhead : ℕ := 32

/-- The variables of `run_transport`. -/
structure Handler where
  epoch : ℕ
  leftover : Bytes
  feed : FrameFeed := {}
  busyInput : List (ℕ × Bytes) := []
  pendingResize : Option (ℕ × ℕ) := none
  pendingInputAck : Option ℕ := none

/-- `peek_type`. -/
def peekType (buf : Bytes) : Except ProtoError (Option UInt8) :=
  match peekLen buf with
  | .error e => .error e
  | .ok none => .ok none
  | .ok (some n) => if buf.length < 4 + n then .ok none else .ok buf[4]?

/-- `input_record_cost`. -/
def inputRecordCost (data : Bytes) : ℕ := inputRecordOverhead + data.length

/-- `busy_bytes`. -/
def busyBytes (q : List (ℕ × Bytes)) : ℕ := (q.map fun u => inputRecordCost u.2).sum

namespace Handler

/-- `on_control`; an error ends the handler. -/
def onControl (s : Session) (h : Handler) (typ : UInt8) (payload : Bytes) :
    Except String (Session × Handler) :=
  if s.epoch ≠ h.epoch then .ok (s, h)
  else if typ = msgInput then
    match decodeInput payload with
    | .error _ => .ok (s, h)
    | .ok (seq, data) =>
      if data = [] then .error "empty input"
      else if data.length > maxInputBytes then .error "input too large"
      else .ok (s, { h with busyInput := h.busyInput ++ [(seq, data)] })
  else if typ = msgResize then
    match decodeResize payload with
    | .error _ => .ok (s, h)
    | .ok size => .ok (s, { h with pendingResize := some size })
  else if typ = msgHangup then .ok (s.requestHangup, h)
  else if typ = msgAckState then
    match decodeU64 payload with
    | .error _ => .ok (s, h)
    | .ok v => .ok (s.tryAck v, h)
  else if typ = msgPing then .ok (s, { h with feed := (h.feed.pushCtrl encodePong).2 })
  else .ok (s, h)

/-- One turn of the loop of `drain_leftover`; `none` ends it. -/
def drainOne (s : Session) (h : Handler) (cap : ℕ) : Except String (Option (Session × Handler)) :=
  if s.epoch ≠ h.epoch then .ok none
  else
    match peekType h.leftover with
    | .error e => .error e.display
    | .ok none => .ok none
    | .ok (some typ) =>
      if typ = msgInput ∧ busyBytes h.busyInput ≥ cap then .ok none
      else
        match splitFrame h.leftover with
        | (.error e, _) => .error e.display
        | (.ok none, _) => .ok none
        | (.ok (some (typ, payload)), rest) =>
          (onControl s { h with leftover := rest } typ payload).map some

/-- The loop of `drain_leftover`, for at most `fuel` frames. -/
def drainFrames (cap : ℕ) : ℕ → Session → Handler → Except String (Session × Handler)
  | 0, s, h => .ok (s, h)
  | fuel + 1, s, h =>
    match drainOne s h cap with
    | .error e => .error e
    | .ok none => .ok (s, h)
    | .ok (some (s, h)) => drainFrames cap fuel s h

/-- `drain_leftover`; every frame takes bytes off the leftover. -/
def drainLeftover (s : Session) (h : Handler) (cap : ℕ) : Except String (Session × Handler) :=
  drainFrames cap h.leftover.length s h

/-- One turn of the loop of `drain_busy`: whether it goes on, and what it leaves. -/
def pushOne (s : Session) (h : Handler) : Bool × Session × Handler :=
  match h.busyInput with
  | [] => (false, s, h)
  | (seq, data) :: rest =>
    match s.tryInput seq data with
    | (.ok .queued, s) => (true, s, { h with busyInput := rest })
    | (.ok .busy, s) => (false, s, h)
    | (.error _, s) => (false, s, { h with busyInput := rest })

/-- The loop of `drain_busy`, for at most `fuel` inputs. -/
def pushInputs : ℕ → Session → Handler → Session × Handler
  | 0, s, h => (s, h)
  | fuel + 1, s, h =>
    match pushOne s h with
    | (true, s, h) => pushInputs fuel s h
    | (false, s, h) => (s, h)

/-- `drain_busy`; every turn that goes on takes an input off the queue. -/
def drainBusy (s : Session) (h : Handler) : Session × Handler :=
  pushInputs h.busyInput.length s h

/-- The lines of `run_transport` that pass on the latest resize. -/
def tryPendingResize (s : Session) (h : Handler) : Session × Handler :=
  match h.pendingResize with
  | none => (s, h)
  | some (cols, rows) =>
    match s.tryResize cols rows with
    | (.ok .busy, s) => (s, h)
    | (_, s) => (s, { h with pendingResize := none })

/-- The lines of `run_transport` that send a pending acknowledgement: whether one
was sent, and the handler. -/
def pushInputAck (h : Handler) : Option ℕ × Handler :=
  match h.pendingInputAck with
  | none => (none, h)
  | some n =>
    let (taken, feed) := h.feed.pushCtrl (encodeInputAck n)
    if taken then (some n, { h with feed, pendingInputAck := none }) else (none, { h with feed })

/-- The branch of `run_transport` for a changed `accepted`. -/
def onAccepted (s : Session) (h : Handler) : Handler :=
  if s.accepted > 0 then { h with pendingInputAck := some s.accepted } else h

/-- `run_transport` before its loop, behind a claimed transport. -/
def attach (s : Session) (leftover : Bytes) (pendingResize : Option (ℕ × ℕ)) : Handler :=
  let helloOk : HelloOk :=
    { protocol := protocolVersion, sessionId := s.id, version := s.version
      cols := s.size.1, rows := s.size.2 }
  let feed := (({} : FrameFeed).pushCtrl helloOk.encode).2
  let feed :=
    match s.latest with
    | none => feed
    | some first => feed.pushScreen (encodeFrame msgScreen first.blob)
  { epoch := s.epoch, leftover, feed, pendingResize
    pendingInputAck := if s.accepted > 0 then some s.accepted else none }

end Handler

/-- What `handle_incoming` makes of what it read: it waits for more, fails, rejects
the connection, or attaches it. -/
inductive Greeting where
  | wait
  | fail (message : String)
  | reject (code : ℕ) (message : String)
  | attach (s : Session) (h : Handler)

/-- `handle_incoming` from the first frame behind authentication on, for a daemon
with one session; `authUid` is what authentication found. -/
def handleIncoming (s : Session) (authUid : Option ℕ) (buf : Bytes) : Greeting :=
  match splitFrame buf with
  | (.error e, _) => .fail e.display
  | (.ok none, _) => .wait
  | (.ok (some (typ, payload)), rest) =>
    if typ ≠ msgHello then .reject 1 "expected hello"
    else
      match Hello.decode payload with
      | .error _ => .reject 4 "protocol version mismatch; update quosh-server"
      | .ok hello =>
        if hello.protocol ≠ protocolVersion then
          .reject 4 ("protocol version " ++ toString hello.protocol ++ " != " ++
            toString protocolVersion ++ "; update quosh-server")
        else if s.id ≠ hello.sessionId then .reject 2 "unknown session"
        else if s.token ≠ hello.token then .reject 3 "bad token"
        else if authUid.any fun uid => s.uid ≠ uid then
          .reject 5 "session does not belong to authenticated user"
        else
          let s := s.claimTransport
          .attach s (.attach s rest
            (if hello.cols > 0 ∧ hello.rows > 0 then some (hello.cols, hello.rows) else none))

/-! ### Inputs on their way -/

/-- The input a frame carries. -/
def frameInput (f : Frame) : Option (ℕ × Bytes) :=
  if f.1 = msgInput then
    match decodeInput f.2 with
    | .error _ => none
    | .ok u => some u
  else none

/-- A frame that does not end the handler: an input in it is neither empty nor too large. -/
def Admits (f : Frame) : Prop := ∀ u, frameInput f = some u → u.2 ≠ [] ∧ u.2.length ≤ maxInputBytes

/-- A greeting that a session with this id and token takes, and the bytes behind it. -/
def Greets (id : FixedBytes 16) (token : FixedBytes 32) (buf rest : Bytes) : Prop :=
  ∃ payload hello, splitFrame buf = (.ok (some (msgHello, payload)), rest) ∧
    Hello.decode payload = .ok hello ∧ hello.protocol = protocolVersion ∧
    hello.sessionId = id ∧ hello.token = token

/-- The input a command carries. -/
def OwnerMsg.payload : OwnerMsg → Option (ℕ × Bytes)
  | .input seq data => some (seq, data)
  | .resize .. => none
  | .ack .. => none

/-- The inputs in the command channel. -/
def Session.queued (s : Session) : List (ℕ × Bytes) := s.cmds.filterMap OwnerMsg.payload

namespace Session

/-- The first command of the channel, and the inputs behind it. -/
theorem queued_cons {s s' : Session} {msg : OwnerMsg} (h : s.cmds = msg :: s'.cmds) :
    s.queued = msg.payload.toList ++ s'.queued := by
  rw [queued, queued, h, List.filterMap_cons]
  cases msg.payload <;> rfl

/-- A call that changes neither name, epoch nor count, and puts these inputs into the
channel. -/
structure Queues (s : Session) (us : List (ℕ × Bytes)) (s' : Session) : Prop where
  id : s'.id = s.id
  token : s'.token = s.token
  epoch : s'.epoch = s.epoch
  accepted : s'.accepted = s.accepted
  closed : s'.closed = s.closed
  queued : s'.queued = s.queued ++ us

theorem Queues.refl (s : Session) : s.Queues [] s :=
  ⟨rfl, rfl, rfl, rfl, rfl, (List.append_nil _).symm⟩

/-- **What goes into the channel goes in at the end**, or not at all. -/
theorem trySend_queues (s : Session) (msg : OwnerMsg) :
    s.Queues (if (s.trySend msg).1 = .ok .queued then msg.payload.toList else [])
      (s.trySend msg).2 := by
  unfold trySend
  split
  · exact .refl s
  · split
    · exact .refl s
    · refine ⟨rfl, rfl, rfl, rfl, rfl, ?_⟩
      rw [if_pos rfl, queued, queued, List.filterMap_append]
      cases h : msg.payload <;> simp [h]

/-- An acknowledgement is no input. -/
theorem tryAck_queues (s : Session) (version : ℕ) : s.Queues [] (s.tryAck version) := by
  have h := s.trySend_queues (.ack version)
  rw [show (OwnerMsg.ack version).payload.toList = [] from rfl, ite_self] at h
  exact ⟨h.id, h.token, h.epoch, h.accepted, h.closed, h.queued⟩

/-- A size is none. -/
theorem tryResize_queues (s : Session) (cols rows : ℕ) :
    s.Queues [] (s.tryResize cols rows).2 := by
  unfold tryResize
  split
  · have h := s.trySend_queues (.resize cols rows)
    rwa [show (OwnerMsg.resize cols rows).payload.toList = [] from rfl, ite_self] at h
  · split <;> exact .refl s

/-- An input is queued, or the session is as it was. -/
theorem tryInput_queues (s : Session) (seq : ℕ) (data : Bytes) :
    s.Queues (if (s.tryInput seq data).1 = .ok .queued then [(seq, data)] else [])
      (s.tryInput seq data).2 := by
  unfold tryInput
  split
  · exact .refl s
  · split
    · exact .refl s
    · exact s.trySend_queues (.input seq data)

end Session

namespace Handler

variable {s s' : Session} {h h' : Handler}

/-- What a frame does to a handler: at most one input is queued.  By the type of the frame:
only an input goes into the queue, and what the others do goes to the session or is pending. -/
theorem onControl_ok {typ : UInt8} {payload : Bytes} (hepoch : s.epoch = h.epoch)
    (hc : onControl s h typ payload = .ok (s', h')) :
    s.Queues [] s' ∧ h'.epoch = h.epoch ∧ h'.pendingInputAck = h.pendingInputAck ∧
      h'.leftover = h.leftover ∧
      h'.busyInput = h.busyInput ++ (frameInput (typ, payload)).toList := by
  unfold onControl at hc
  rw [if_neg (not_not.2 hepoch)] at hc
  by_cases hinput : typ = msgInput
  · rw [if_pos hinput] at hc
    rw [frameInput, if_pos hinput]
    dsimp only
    split at hc
    · rename_i hdecode
      rw [hdecode]
      cases hc
      exact ⟨.refl s, rfl, rfl, rfl, (List.append_nil _).symm⟩
    · rename_i seq data hdecode
      rw [hdecode]
      split_ifs at hc
      cases hc
      exact ⟨.refl s, rfl, rfl, rfl, rfl⟩
  · rw [if_neg hinput] at hc
    have hnone : h.busyInput = h.busyInput ++ (frameInput (typ, payload)).toList := by
      rw [frameInput, if_neg hinput]
      exact (List.append_nil _).symm
    split_ifs at hc
    · split at hc <;> cases hc <;> exact ⟨.refl s, rfl, rfl, rfl, hnone⟩
    · cases hc
      exact ⟨⟨rfl, rfl, rfl, rfl, rfl, (List.append_nil _).symm⟩, rfl, rfl, rfl, hnone⟩
    · split at hc
      · cases hc
        exact ⟨.refl s, rfl, rfl, rfl, hnone⟩
      · cases hc
        exact ⟨s.tryAck_queues _, rfl, rfl, rfl, hnone⟩
    · cases hc
      exact ⟨.refl s, rfl, rfl, rfl, hnone⟩
    · cases hc
      exact ⟨.refl s, rfl, rfl, rfl, hnone⟩

/-- A frame that ends no handler is admitted. -/
theorem admits_of_onControl {typ : UInt8} {payload : Bytes} (hepoch : s.epoch = h.epoch)
    (hc : onControl s h typ payload = .ok (s', h')) : Admits (typ, payload) := by
  intro u hu
  by_cases hinput : typ = msgInput
  · unfold onControl at hc
    rw [if_neg (not_not.2 hepoch), if_pos hinput] at hc
    rw [frameInput, if_pos hinput] at hu
    dsimp only at hu
    cases hdecode : decodeInput payload with
    | error e =>
      rw [hdecode] at hu
      cases hu
    | ok v =>
      rw [hdecode] at hc hu
      obtain rfl := Option.some.inj hu
      dsimp only at hc
      split_ifs at hc with hempty hlong
      exact ⟨hempty, Nat.le_of_not_lt hlong⟩
  · rw [frameInput, if_neg hinput] at hu
    cases hu

/-- **What a turn of `drain_leftover` does**: it takes the first frame off the
leftover, and queues the input it carries. -/
theorem drainOne_some {cap : ℕ} (hd : drainOne s h cap = .ok (some (s', h'))) :
    s.epoch = h.epoch ∧ s.Queues [] s' ∧ h'.epoch = h.epoch ∧
      h'.pendingInputAck = h.pendingInputAck ∧
      ∃ f, splitFrame h.leftover = (.ok (some f), h'.leftover) ∧
        h'.busyInput = h.busyInput ++ (frameInput f).toList ∧ Admits f := by
  unfold drainOne at hd
  by_cases hepoch : s.epoch = h.epoch
  · rw [if_neg (not_not.2 hepoch)] at hd
    split at hd
    · cases hd
    · cases hd
    · split at hd
      · cases hd
      · split at hd
        · cases hd
        · cases hd
        · rename_i typ payload rest hsplit
          cases hc : onControl s { h with leftover := rest } typ payload with
          | error e =>
            rw [hc] at hd
            cases hd
          | ok r =>
            rw [hc] at hd
            cases hd
            obtain ⟨hq, he, ha, hl, hb⟩ := onControl_ok (h := { h with leftover := rest }) hepoch hc
            exact ⟨hepoch, hq, he, ha, (typ, payload), hl ▸ hsplit, hb,
              admits_of_onControl (h := { h with leftover := rest }) hepoch hc⟩
  · rw [if_pos hepoch] at hd
    cases hd

/-- **What a turn of `drain_busy` does**: the first input goes into the channel, or
stays; it is lost only when the channel is closed or refuses it. -/
theorem pushOne_spec (s : Session) (h : Handler) :
    (pushOne s h).2.2.epoch = h.epoch ∧ (pushOne s h).2.2.leftover = h.leftover ∧
    (pushOne s h).2.2.pendingInputAck = h.pendingInputAck ∧
    (s.Queues [] (pushOne s h).2.1 ∧ (pushOne s h).2.2.busyInput = h.busyInput ∨
      ∃ u, h.busyInput = u :: (pushOne s h).2.2.busyInput ∧
        (s.Queues [u] (pushOne s h).2.1 ∨
          s.Queues [] (pushOne s h).2.1 ∧
            (s.closed = true ∨ u.2 = [] ∨ maxInputBytes < u.2.length))) := by
  unfold pushOne
  split
  · exact ⟨rfl, rfl, rfl, .inl ⟨.refl s, rfl⟩⟩
  · rename_i seq data rest hbusy
    have hq := s.tryInput_queues seq data
    split
    · rename_i s₁ htry
      rw [htry, if_pos rfl] at hq
      exact ⟨rfl, rfl, rfl, .inr ⟨_, hbusy, .inl hq⟩⟩
    · rename_i s₁ htry
      rw [htry, if_neg (by simp)] at hq
      exact ⟨rfl, rfl, rfl, .inl ⟨hq, rfl⟩⟩
    · rename_i e s₁ htry
      rw [htry, if_neg (by simp)] at hq
      refine ⟨rfl, rfl, rfl, .inr ⟨_, hbusy, .inr ⟨hq, ?_⟩⟩⟩
      unfold Session.tryInput Session.trySend at htry
      split_ifs at htry with h₁ h₂ h₃
      · exact .inr (.inl h₁)
      · exact .inr (.inr h₂)
      · exact .inl h₃
      · cases htry
      · cases htry

/-- **The size that is pending is passed on**, and nothing else. -/
theorem tryPendingResize_spec (s : Session) (h : Handler) :
    s.Queues [] (tryPendingResize s h).1 ∧ (tryPendingResize s h).2.epoch = h.epoch ∧
      (tryPendingResize s h).2.leftover = h.leftover ∧
      (tryPendingResize s h).2.pendingInputAck = h.pendingInputAck ∧
      (tryPendingResize s h).2.busyInput = h.busyInput := by
  unfold tryPendingResize
  split
  · exact ⟨.refl s, rfl, rfl, rfl, rfl⟩
  · rename_i cols rows _
    have hq := s.tryResize_queues cols rows
    split
    · rename_i s₁ htry
      rw [htry] at hq
      exact ⟨hq, rfl, rfl, rfl, rfl⟩
    · rename_i r s₁ _ htry
      rw [htry] at hq
      exact ⟨hq, rfl, rfl, rfl, rfl⟩

/-- An acknowledgement that is sent was pending. -/
theorem pushInputAck_spec (h : Handler) :
    h.pushInputAck.2.epoch = h.epoch ∧ h.pushInputAck.2.leftover = h.leftover ∧
      h.pushInputAck.2.busyInput = h.busyInput ∧
      (∀ n, h.pushInputAck.1 = some n → h.pendingInputAck = some n) ∧
      ∀ n, h.pushInputAck.2.pendingInputAck = some n → h.pendingInputAck = some n := by
  unfold pushInputAck
  split
  · exact ⟨rfl, rfl, rfl, (fun n hn => by cases hn), fun n hn => hn⟩
  · rename_i n hsome
    dsimp only
    split
    · exact ⟨rfl, rfl, rfl, fun m hm => hm ▸ hsome, fun m hm => by cases hm⟩
    · exact ⟨rfl, rfl, rfl, (fun m hm => by cases hm), fun m hm => hm⟩

/-- Whoever is attached has greeted the session. -/
theorem greets_of_attach {authUid : Option ℕ} {buf : Bytes}
    (hg : handleIncoming s authUid buf = .attach s' h) : Greets s.id s.token buf h.leftover := by
  unfold handleIncoming at hg
  split at hg
  · cases hg
  · cases hg
  · rename_i typ payload rest hsplit
    by_cases htyp : typ = msgHello
    · subst htyp
      rw [if_neg (not_not.2 rfl)] at hg
      split at hg
      · cases hg
      · rename_i hello hdecode
        by_cases hprotocol : hello.protocol = protocolVersion
        · by_cases hid : s.id = hello.sessionId
          · by_cases htoken : s.token = hello.token
            · have hleftover : h.leftover = rest := by
                split_ifs at hg
                all_goals
                  cases hg
                  rfl
              rw [hleftover]
              exact ⟨payload, hello, hsplit, hdecode, hprotocol, hid.symm, htoken.symm⟩
            · rw [if_neg (not_not.2 hprotocol), if_neg (not_not.2 hid), if_pos htoken] at hg
              cases hg
          · rw [if_neg (not_not.2 hprotocol), if_pos hid] at hg
            cases hg
        · rw [if_pos hprotocol] at hg
          cases hg
    · rw [if_pos htyp] at hg
      cases hg

/-- **A connection is attached** with an epoch of its own, behind its greeting.  All the
checks of the hello have passed; the first `InputAck` tells what the session has accepted by
then. -/
theorem handleIncoming_attach {authUid : Option ℕ} {buf : Bytes}
    (hg : handleIncoming s authUid buf = .attach s' h) :
    s' = s.claimTransport ∧ h.epoch = s.epoch + 1 ∧ h.busyInput = [] ∧
      (∀ n, h.pendingInputAck = some n → n = s.accepted) ∧
      ∃ f, splitFrame buf = (.ok (some f), h.leftover) ∧ f.1 = msgHello := by
  unfold handleIncoming at hg
  split at hg
  · cases hg
  · cases hg
  · rename_i typ payload rest hsplit
    by_cases htyp : typ = msgHello
    · rw [if_neg (not_not.2 htyp)] at hg
      split at hg
      · cases hg
      · split_ifs at hg
        all_goals
          cases hg
          refine ⟨rfl, rfl, rfl, fun n hn => ?_, (typ, payload), hsplit, htyp⟩
          unfold attach at hn
          dsimp only at hn
          split at hn
          · exact (Option.some.inj hn).symm
          · cases hn
    · rw [if_pos htyp] at hg
      cases hg

end Handler
end Quosh
