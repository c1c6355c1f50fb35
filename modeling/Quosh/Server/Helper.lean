/-
# The daemon and its sessions

`crates/quosh-server/src/helper.rs`: `Daemon`, what all connections share, and
`spawn_session`, which the SSH helper and the browser handshake both call; and the last
part of `handle_incoming` in `transport.rs`, which finds the session of a hello.

A session is an `Arc`: `heap` has every session that was started, `sessions` is the map
from ids to their places in it.  A session that leaves the map lives on for the
connections that have it.
-/

import Quosh.Server.Devices
import Quosh.Server.Enroll
import Quosh.Server.Transport

namespace Quosh

open Bytes

/-- `MAX_SESSIONS`. -/
def maxSessions : ℕ := 128

/-- `MAX_PER_UID`. -/
def maxPerUid : ℕ := 32

/-- `Daemon`, what it owns. -/
structure Daemon where
  devices : DeviceStore := {}
  nonces : NonceStore := fun _ => none
  sessions : List (FixedBytes 16 × ℕ) := []
  heap : List Session := []

namespace Daemon

/-- The session under an id, and its place. -/
def get (d : Daemon) (id : FixedBytes 16) : Option (ℕ × Session) := do
  let (_, k) ← d.sessions.find? fun e => e.1 = id
  let s ← d.heap[k]?
  return (k, s)

/-- The session under an id is in its place. -/
theorem heap_of_get {d : Daemon} {id : FixedBytes 16} {k : ℕ} {s : Session}
    (h : d.get id = some (k, s)) : d.heap[k]? = some s := by
  obtain ⟨⟨id', k'⟩, -, h⟩ := Option.bind_eq_some_iff.1 h
  obtain ⟨s', hs', h⟩ := Option.bind_eq_some_iff.1 h
  cases h
  exact hs'

/-- The number of sessions of a user. -/
def countUid (d : Daemon) (uid : ℕ) : ℕ :=
  (d.sessions.filter fun e => (d.heap[e.2]?).any fun s => s.uid = uid).length

/-- `spawn_session`, with the random bytes it draws and how `spawn_pair` ends. -/
def spawnSession (d : Daemon) (spawn : Except String Unit) (id : FixedBytes 16)
    (token : FixedBytes 32) (uid cols rows : ℕ) :
    Except String (FixedBytes 16 × FixedBytes 32) × Daemon :=
  if validateDims cols rows then
    if d.sessions.length ≥ maxSessions then (.error "too many sessions", d)
    else if d.countUid uid ≥ maxPerUid then (.error "too many sessions for user", d)
    else
      match spawn with
      | .error e => (.error e, d)
      | .ok () =>
        (.ok (id, token),
          { d with
            sessions := d.sessions.filter (fun e => e.1 ≠ id) ++ [(id, d.heap.length)]
            heap := d.heap ++ [{ id, token, uid, size := (cols, rows) }] })
  else if cols < minCols || rows < minRows then (.error "terminal too small", d)
  else (.error "terminal too large", d)

/-- A session leaves the map: its owner is done, or it was idle and a `create` of its
user replaces it. -/
def remove (d : Daemon) (id : FixedBytes 16) : Daemon :=
  { d with sessions := d.sessions.filter fun e => e.1 ≠ id }

/-- What `handle_incoming` makes of a frame that should be the hello. -/
inductive Reception where
  | reject (code : ℕ) (message : String)
  | attach (k : ℕ) (s : Session) (h : Handler)

/-- `handle_incoming` from the hello on; `authUid` is what authentication found, and
`leftover` what was read behind the frame. -/
def receive (d : Daemon) (authUid : Option ℕ) (typ : UInt8) (payload leftover : Bytes) :
    Reception :=
  if typ ≠ msgHello then .reject 1 "expected hello"
  else
    match Hello.decode payload with
    | .error _ => .reject 4 "protocol version mismatch; update quosh-server"
    | .ok hello =>
      if hello.protocol ≠ protocolVersion then
        .reject 4 ("protocol version " ++ toString hello.protocol ++ " != " ++
          toString protocolVersion ++ "; update quosh-server")
      else
        match d.get hello.sessionId with
        | none => .reject 2 "unknown session"
        | some (k, s) =>
          if s.token ≠ hello.token then .reject 3 "bad token"
          else if authUid.any fun uid => s.uid ≠ uid then
            .reject 5 "session does not belong to authenticated user"
          else
            let s := s.claimTransport
            .attach k s (.attach s leftover
              (if hello.cols > 0 ∧ hello.rows > 0 then some (hello.cols, hello.rows) else none))

variable {d : Daemon} {authUid : Option ℕ} {typ : UInt8} {payload leftover : Bytes}

/-- **A connection attaches to a session of the map** whose token it presents, and whose
owner it is authenticated as, if it is authenticated. -/
theorem receive_attach {k : ℕ} {s : Session} {h : Handler}
    (hr : d.receive authUid typ payload leftover = .attach k s h) :
    ∃ hello s₀, typ = msgHello ∧ Hello.decode payload = .ok hello ∧
      d.get hello.sessionId = some (k, s₀) ∧ s = s₀.claimTransport ∧ s₀.token = hello.token ∧
      ∀ uid, authUid = some uid → s₀.uid = uid := by
  unfold receive at hr
  split at hr
  · cases hr
  · rename_i htyp
    split at hr
    · cases hr
    · rename_i hello hdecode
      split at hr
      · cases hr
      · split at hr
        · cases hr
        · rename_i k₀ s₀ hget
          split at hr
          · cases hr
          · rename_i htoken
            split at hr
            · cases hr
            · rename_i huid
              cases hr
              refine ⟨hello, s₀, of_not_not htyp, hdecode, hget, rfl, of_not_not htoken, ?_⟩
              rintro uid rfl
              exact of_not_not fun hne => huid (decide_eq_true hne)

/-- **What `spawn_session` leaves**: everything as it was, or one session more. -/
theorem spawnSession_spec (d : Daemon) (spawn : Except String Unit) (id : FixedBytes 16)
    (token : FixedBytes 32) (uid cols rows : ℕ) :
    (∃ e, d.spawnSession spawn id token uid cols rows = (.error e, d)) ∨
      ∃ d', d.spawnSession spawn id token uid cols rows = (.ok (id, token), d') ∧
        d'.devices = d.devices ∧ d'.nonces = d.nonces ∧
        ∃ s : Session, s.uid = uid ∧ d'.heap = d.heap ++ [s] := by
  unfold spawnSession
  split
  · split
    · exact .inl ⟨_, rfl⟩
    · split
      · exact .inl ⟨_, rfl⟩
      · split
        · exact .inl ⟨_, rfl⟩
        · exact .inr ⟨_, rfl, rfl, rfl, _, rfl, rfl⟩
  · split <;> exact .inl ⟨_, rfl⟩

/-- With the session it names, a hello is received as by a daemon of that session alone. -/
theorem receive_eq_handleIncoming {buf : Bytes} {hello : Hello} {k : ℕ} {s : Session}
    (hsplit : splitFrame buf = (.ok (some (typ, payload)), leftover)) (htyp : typ = msgHello)
    (hdecode : Hello.decode payload = .ok hello) (hget : d.get hello.sessionId = some (k, s))
    (hid : s.id = hello.sessionId) :
    handleIncoming s authUid buf =
      match d.receive authUid typ payload leftover with
      | .reject code message => .reject code message
      | .attach _ s h => .attach s h := by
  unfold handleIncoming receive
  rw [hsplit, htyp]
  dsimp only
  rw [if_neg (not_not.2 rfl), if_neg (not_not.2 rfl), hdecode]
  dsimp only
  by_cases hproto : hello.protocol = protocolVersion
  · rw [if_neg (not_not.2 hproto), if_neg (not_not.2 hproto), if_neg (not_not.2 hid), hget]
    dsimp only
    by_cases htoken : s.token = hello.token
    · rw [if_neg (not_not.2 htoken), if_neg (not_not.2 htoken)]
      by_cases huid : (authUid.any fun uid => s.uid ≠ uid) = true
      · rw [if_pos huid, if_pos huid]
      · rw [if_neg huid, if_neg huid]
    · rw [if_pos htoken, if_pos htoken]
  · rw [if_pos hproto, if_pos hproto]

end Daemon
end Quosh
