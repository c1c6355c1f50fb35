/-
# A client, its connections and a session

The whole path of input: one client and its connections, one after the other, the
handlers of these connections and the owner of the session.

A connection is a stream of bytes to the server that may be cut at any byte, and the
frames its handler has written.  Old connections do not go away: their handlers go
on with what they have, until they are done.  Every step of `System.Step` is a call
of the client, an event of a connection, one turn of a loop of a handler or one turn
of the owner, so a run is any interleaving of these.

A handler's loops are runs of such turns (`drainLeftover_steps`, `drainBusy_steps`).
What leaves a handler other than acknowledgements is left open, and an
acknowledgement that was written can be delivered at any time, or never.
-/

import Quosh.System.Sender
import Mathlib.Logic.Relation
import Mathlib.Logic.Function.Basic

namespace Quosh

open Bytes

/-- Where the server is with a connection: it reads the greeting, it has a handler, or
it is done. -/
inductive Phase where
  | greeting (buf : Bytes)
  | serving (h : Handler)
  | gone

/-- Bytes that the server reads. -/
def Phase.receive (bytes : Bytes) : Phase → Phase
  | .greeting buf => .greeting (buf ++ bytes)
  | .serving h => .serving { h with leftover := h.leftover ++ bytes }
  | .gone => .gone

/-- A connection: the bytes on their way to the server, whether the client can still
write, the frames the handler has written, and where the server is. -/
structure Conn where
  wire : Bytes := []
  cut : Bool := false
  down : List Frame := []
  phase : Phase := .gone

/-- A client, the payloads it was asked to queue, its connections with the current
one, the session and its owner. -/
structure System (σ δ : Type) where
  client : Client σ
  inputs : List Bytes := []
  current : ℕ := 0
  conns : ℕ → Conn := fun _ => {}
  session : Session
  owner : Owner δ

namespace System

variable {σ δ : Type} (ext : Externals σ) (z : Lz4) (drv : Driver δ)

/-- Another state of a connection. -/
def setConn (s : System σ δ) (i : ℕ) (c : Conn) : System σ δ :=
  { s with conns := Function.update s.conns i c }

/-- A connection whose handler goes on, and a session it did something to. -/
def serve (s : System σ δ) (i : ℕ) (session : Session) (h : Handler) : System σ δ :=
  ({ s with session } : System σ δ).setConn i { s.conns i with phase := .serving h }

/-- One step of the system. -/
inductive Step : System σ δ → System σ δ → Prop
  | queueInput (s : System σ δ) (bytes : Bytes) (now : ℕ) (hne : bytes ≠ [])
    (hlen : bytes.length ≤ maxInputBytes) :
    Step s { s with
      client := s.client.queueInput ext bytes now
      inputs := s.inputs ++ [bytes] }
  | call (s : System σ δ) (c : Client σ) (h : Client.Call ext s.client c) :
    Step s { s with client := c }
  | connect (s : System σ δ) (now : ℕ) :
    Step s ({ s with
      client := s.client.beginConnection now
      current := s.current + 1 }.setConn (s.current + 1) { phase := .greeting [] })
  | send (s : System σ δ) (n : ℕ) (hn : n ≤ s.client.outbound.length) :
    Step s ({ s with client := s.client.advanceOutbound n }.setConn s.current
      { s.conns s.current with
        wire := (s.conns s.current).wire ++
          if (s.conns s.current).cut then [] else s.client.outbound.take n })
  | deliver (s : System σ δ) (f : Frame) (now : ℕ) (hf : f ∈ (s.conns s.current).down) :
    Step s { s with client := (s.client.handleFrame ext z f.1 f.2 now).2 }
  | datagram (s : System σ δ) (bytes : Bytes) (now : ℕ) :
    Step s { s with client := s.client.recvDatagram ext z bytes now }
  | cut (s : System σ δ) (i n : ℕ) :
    Step s (s.setConn i { s.conns i with wire := (s.conns i).wire.take n, cut := true })
  | read (s : System σ δ) (i n : ℕ) :
    Step s (s.setConn i { s.conns i with
      wire := (s.conns i).wire.drop n
      phase := (s.conns i).phase.receive ((s.conns i).wire.take n) })
  | attach (s : System σ δ) (i : ℕ) (buf : Bytes) (authUid : Option ℕ) (session : Session)
    (h : Handler) (hphase : (s.conns i).phase = .greeting buf)
    (hgreet : handleIncoming s.session authUid buf = .attach session h) :
    Step s (s.serve i session h)
  | drain (s : System σ δ) (i cap : ℕ) (h h' : Handler) (session : Session)
    (hphase : (s.conns i).phase = .serving h)
    (hdrain : Handler.drainOne s.session h cap = .ok (some (session, h'))) :
    Step s (s.serve i session h')
  | discard (s : System σ δ) (i : ℕ) (h : Handler) (rest : Bytes)
    (hphase : (s.conns i).phase = .serving h) (hstale : s.session.epoch ≠ h.epoch) :
    Step s (s.serve i s.session { h with leftover := rest })
  | push (s : System σ δ) (i : ℕ) (h : Handler) (hphase : (s.conns i).phase = .serving h) :
    Step s (s.serve i (Handler.pushOne s.session h).2.1 (Handler.pushOne s.session h).2.2)
  | resize (s : System σ δ) (i : ℕ) (h : Handler) (hphase : (s.conns i).phase = .serving h) :
    Step s (s.serve i (Handler.tryPendingResize s.session h).1
      (Handler.tryPendingResize s.session h).2)
  | accepted (s : System σ δ) (i : ℕ) (h : Handler) (hphase : (s.conns i).phase = .serving h) :
    Step s (s.serve i s.session (Handler.onAccepted s.session h))
  | ack (s : System σ δ) (i : ℕ) (h : Handler) (hphase : (s.conns i).phase = .serving h) :
    Step s (s.setConn i { s.conns i with
      phase := .serving h.pushInputAck.2
      down := (s.conns i).down ++
        h.pushInputAck.1.toList.map fun n => (msgInputAck, toLe 8 n) })
  | write (s : System σ δ) (i : ℕ) (f : Frame) (hf : f.1 ≠ msgInputAck) :
    Step s (s.setConn i { s.conns i with down := (s.conns i).down ++ [f] })
  | close (s : System σ δ) (i : ℕ) : Step s (s.setConn i { s.conns i with phase := .gone })
  | owner (s : System σ δ) (session : Session) (o : Owner δ)
    (h : Owner.Step drv z s.session s.owner session o) :
    Step s { s with session, owner := o }

/-- Any number of steps. -/
abbrev Steps : System σ δ → System σ δ → Prop := Relation.ReflTransGen (Step ext z drv)

variable {ext z drv} {s : System σ δ}

/-- The connection that changes. -/
@[simp] theorem setConn_self (s : System σ δ) (i : ℕ) (c : Conn) : (s.setConn i c).conns i = c :=
  Function.update_self ..

/-- Another connection. -/
theorem setConn_of_ne (s : System σ δ) {i j : ℕ} (c : Conn) (h : j ≠ i) :
    (s.setConn i c).conns j = s.conns j :=
  Function.update_of_ne h ..

/-- What holds of the changed connection and of the others holds of all. -/
theorem forall_setConn (P : ℕ → Conn → Prop) {i : ℕ} {c : Conn} (hc : P i c)
    (h : ∀ j, P j (s.conns j)) (j : ℕ) : P j ((s.setConn i c).conns j) := by
  by_cases hj : j = i
  · subst hj
    rwa [setConn_self]
  · rw [setConn_of_ne s c hj]
    exact h j

/-- The last state of a connection counts. -/
theorem serve_serve (s : System σ δ) (i : ℕ) (session session' : Session) (h h' : Handler) :
    (s.serve i session h).serve i session' h' = s.serve i session' h' := by
  unfold serve setConn
  simp only [Function.update_self, Function.update_idem]

/-- A handler that does nothing. -/
theorem serve_self (i : ℕ) {h : Handler} (hphase : (s.conns i).phase = .serving h) :
    s.serve i s.session h = s := by
  unfold serve setConn
  rw [← hphase]
  exact congrArg (fun conns => { s with conns }) (Function.update_eq_self i s.conns)

/-- **`drain_leftover` is a run** of its turns, as long as nobody else moves.  The induction
is on the fuel of the loop, one step of the system for each frame. -/
theorem drainLeftover_steps {i cap : ℕ} {h h' : Handler} {session : Session}
    (hphase : (s.conns i).phase = .serving h)
    (hd : Handler.drainLeftover s.session h cap = .ok (session, h')) :
    Steps ext z drv s (s.serve i session h') := by
  have hloop (fuel : ℕ) (s : System σ δ) (h : Handler) (hphase : (s.conns i).phase = .serving h)
      (hd : Handler.drainFrames cap fuel s.session h = .ok (session, h')) :
      Steps ext z drv s (s.serve i session h') := by
    induction fuel generalizing s h with
    | zero =>
      cases hd
      rw [serve_self i hphase]
    | succ fuel ih =>
      rw [Handler.drainFrames] at hd
      cases hone : Handler.drainOne s.session h cap with
      | error e =>
        rw [hone] at hd
        cases hd
      | ok r =>
        rw [hone] at hd
        cases r with
        | none =>
          cases hd
          rw [serve_self i hphase]
        | some r =>
          obtain ⟨session₁, h₁⟩ := r
          have hrest := ih (s.serve i session₁ h₁) h₁ (by simp [serve]) hd
          rw [serve_serve] at hrest
          exact .head (.drain s i cap h h₁ session₁ hphase hone) hrest
  exact hloop _ s h hphase hd

/-- **`drain_busy` is a run** of its turns. -/
theorem drainBusy_steps {i : ℕ} {h : Handler} (hphase : (s.conns i).phase = .serving h) :
    Steps ext z drv s (s.serve i (Handler.drainBusy s.session h).1
      (Handler.drainBusy s.session h).2) := by
  have hloop (fuel : ℕ) (s : System σ δ) (h : Handler)
      (hphase : (s.conns i).phase = .serving h) :
      Steps ext z drv s (s.serve i (Handler.pushInputs fuel s.session h).1
        (Handler.pushInputs fuel s.session h).2) := by
    induction fuel generalizing s h with
    | zero =>
      rw [Handler.pushInputs, serve_self i hphase]
    | succ fuel ih =>
      have hone := (@Step.push _ _ ext z drv) s i h hphase
      rw [Handler.pushInputs]
      cases hp : Handler.pushOne s.session h with
      | mk go r =>
        obtain ⟨session₁, h₁⟩ := r
        rw [hp] at hone
        cases go with
        | false => exact .single hone
        | true =>
          have hrest := ih (s.serve i session₁ h₁) h₁ (by simp [serve])
          rw [serve_serve] at hrest
          exact .head hone hrest
  exact hloop _ s h hphase

end System
end Quosh
