/-
# The loop of a transport

`crates/quosh-server/src/transport.rs`, `run_transport`: what an attached connection does
in a turn of its loop, as one of its parts (`Branch`): the calls at the head of the loop,
and the branches of its `select!`.  `Handler.serve` is the part with what it leaves of the
session and the handler.

`active` marks the parts in which the transport did something for its session's user: an
input went to the owner, or a screen went out.  Nothing in the loop reaches for the device
store.
-/

import Quosh.Server.Transport

namespace Quosh

open Bytes

/-- The parts of the loop of `run_transport`; reading, writing and the size of datagrams
are up to the network. -/
inductive Branch where
  | drain
  | push
  | resize
  | inputAck
  | epoch
  | latest (maxDatagram : ℕ)
  | accepted
  | resync
  | write (n : ℕ)
  | read (bytes : Bytes)
  | exit (status : ℤ)
  | fail

/-- What a session keeps: its id, its token and its user. -/
def Session.identity (s : Session) : FixedBytes 16 × FixedBytes 32 × ℕ := (s.id, s.token, s.uid)

namespace Handler

/-- What a part of the loop leaves: the session, the handler unless the loop ends, and
whether there was activity. -/
structure Served where
  session : Session
  handler : Option Handler
  active : Bool := false

/-- `push_screen`: a screen goes out as a datagram when it fits and may be lost. -/
def pushScreen (h : Handler) (maxDatagram : ℕ) (blob : Bytes) (reliable : Bool) : Handler :=
  if reliable = false ∧ blob.length + 1 < maxDatagram then h
  else { h with feed := h.feed.pushScreen (encodeFrame msgScreen blob) }

/-- `queue_exit`. -/
def queueExit (s : Session) (h : Handler) (status : ℤ) : Handler :=
  if s.epoch ≠ h.epoch then h
  else
    let feed :=
      match s.latest with
      | none => h.feed
      | some s => h.feed.pushScreen (encodeFrame msgScreen s.blob)
    { h with feed := feed.pushFin (encodeExit status) }

/-- A part of the loop of `run_transport`. -/
def serve (s : Session) (h : Handler) : Branch → Served
  | .drain =>
    match drainOne s h busyCap with
    | .error _ => { session := s, handler := none }
    | .ok none => { session := s, handler := some h }
    | .ok (some (s, h)) => { session := s, handler := some h }
  | .push =>
    match pushOne s h with
    | (queued, s, h) => { session := s, handler := some h, active := queued }
  | .resize =>
    match tryPendingResize s h with
    | (s, h) => { session := s, handler := some h }
  | .inputAck => { session := s, handler := some h.pushInputAck.2 }
  | .epoch => { session := s, handler := if s.epoch ≠ h.epoch then none else some h }
  | .latest maxDatagram =>
    match s.latest with
    | none => { session := s, handler := some h }
    | some snap =>
      { session := s, handler := some (h.pushScreen maxDatagram snap.blob false), active := true }
  | .accepted => { session := s, handler := some (onAccepted s h) }
  | .resync =>
    match s.latest with
    | none => { session := s, handler := some h }
    | some snap =>
      if snap.version > s.lastAcked then
        { session := s, handler := some (h.pushScreen 0 snap.blob true), active := true }
      else { session := s, handler := some h }
  | .write n => { session := s, handler := some { h with feed := h.feed.advance n } }
  | .read bytes =>
    { session := s
      handler :=
        if bytes = [] ∨ h.leftover.length > 4 + maxFrame then none
        else some { h with leftover := h.leftover ++ bytes } }
  | .exit status =>
    { session := s, handler := some (queueExit s h status)
      active := s.epoch = h.epoch ∧ s.latest.isSome }
  | .fail => { session := s, handler := none }

/-! ### Which session it is -/

/-- A message to the owner leaves a session who it is. -/
theorem trySend_identity (s : Session) (msg : OwnerMsg) :
    (s.trySend msg).2.identity = s.identity := by
  unfold Session.trySend
  split
  · rfl
  · split <;> rfl

/-- So does a frame. -/
theorem onControl_identity {s s' : Session} {h h' : Handler} {typ : UInt8} {payload : Bytes}
    (hc : onControl s h typ payload = .ok (s', h')) : s'.identity = s.identity := by
  unfold onControl at hc
  split_ifs at hc
  · cases hc
    rfl
  · split at hc
    · cases hc
      rfl
    · split_ifs at hc
      cases hc
      rfl
  · split at hc <;> cases hc <;> rfl
  · cases hc
    rfl
  · split at hc
    · cases hc
      rfl
    · cases hc
      exact trySend_identity ..
  · cases hc
    rfl
  · cases hc
    rfl

/-- So does a frame that is parsed. -/
theorem drainOne_identity {s s' : Session} {h h' : Handler} {cap : ℕ}
    (hd : drainOne s h cap = .ok (some (s', h'))) : s'.identity = s.identity := by
  unfold drainOne at hd
  split at hd
  · cases hd
  · split at hd
    · cases hd
    · cases hd
    · split at hd
      · cases hd
      · split at hd
        · cases hd
        · cases hd
        · rename_i typ payload rest _
          cases hc : onControl s { h with leftover := rest } typ payload with
          | error e =>
            rw [hc] at hd
            cases hd
          | ok r =>
            rw [hc] at hd
            cases hd
            exact onControl_identity hc

/-- So does an input that is passed on. -/
theorem pushOne_identity (s : Session) (h : Handler) :
    (pushOne s h).2.1.identity = s.identity := by
  have htry (seq : ℕ) (data : Bytes) : (s.tryInput seq data).2.identity = s.identity := by
    unfold Session.tryInput
    split
    · rfl
    · split
      · rfl
      · exact trySend_identity ..
  unfold pushOne
  split
  · rfl
  · rename_i seq data rest _
    have hsame := htry seq data
    split
    all_goals
      rename_i heq
      rw [heq] at hsame
      exact hsame

/-- So does a size. -/
theorem tryPendingResize_identity (s : Session) (h : Handler) :
    (tryPendingResize s h).1.identity = s.identity := by
  have htry (cols rows : ℕ) : (s.tryResize cols rows).2.identity = s.identity := by
    unfold Session.tryResize
    split
    · exact trySend_identity ..
    · split <;> rfl
  unfold tryPendingResize
  split
  · rfl
  · rename_i cols rows _
    have hsame := htry cols rows
    split
    all_goals
      rename_i heq
      rw [heq] at hsame
      exact hsame

/-- **A part of the loop leaves a session what it is.** -/
theorem serve_identity (s : Session) (h : Handler) (b : Branch) :
    (serve s h b).session.identity = s.identity := by
  cases b with
  | drain =>
    rw [serve]
    split
    · rfl
    · rfl
    · rename_i hd
      exact drainOne_identity hd
  | push => exact pushOne_identity s h
  | resize => exact tryPendingResize_identity s h
  | latest maxDatagram =>
    rw [serve]
    split <;> rfl
  | resync =>
    rw [serve]
    split
    · rfl
    · split <;> rfl
  | inputAck => rfl
  | epoch => rfl
  | accepted => rfl
  | write n => rfl
  | read bytes => rfl
  | exit status => rfl
  | fail => rfl

/-- **No part of the loop gives a session to another user.** -/
theorem serve_uid (s : Session) (h : Handler) (b : Branch) :
    (serve s h b).session.uid = s.uid :=
  congrArg (fun x => x.2.2) (serve_identity s h b)

end Handler
end Quosh
