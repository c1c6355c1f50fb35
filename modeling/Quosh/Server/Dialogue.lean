/-
# What a handshake says

`Handshake.turn_effect` (`Quosh.Server.Auth`) is what a turn does to what all connections share.
Here is the other side of it, what the turn does to its own connection: which frame it takes, what
it writes, and where it goes on.

Between a frame that it takes and the answer a task is `working`.  It says nothing meanwhile, and
in the end that it failed, or the answer (`turn_works`).
-/

import Quosh.Server.Auth

namespace Quosh

open Bytes

variable {buf payload rest : Bytes} {typ : UInt8}

/-- A frame that is taken was in front of the buffer. -/
theorem eq_of_nextFrame {eof : Option String} (h : nextFrame eof buf = .frame typ payload rest) :
    buf = encodeFrame typ payload ++ rest ∧ payload.length < maxFrame := by
  unfold nextFrame at h
  split at h
  · cases h
  · rename_i hsplit
    cases h
    exact splitFrame_some hsplit
  · split at h <;> cases h

/-- The next frame is one that is there. -/
theorem nextFrame_encodeFrame {typ : UInt8} {payload : Bytes} (h : payload.length < maxFrame)
    (eof : Option String) :
    nextFrame eof (encodeFrame typ payload) = .frame typ payload [] := by
  have hsplit := @splitFrame_encode typ payload h []
  rw [List.append_nil] at hsplit
  unfold nextFrame
  rw [hsplit]

/-- No frame is taken from nothing. -/
theorem ne_nil_of_nextFrame {eof : Option String}
    (h : nextFrame eof buf = .frame typ payload rest) : buf ≠ [] := by
  rintro rfl
  have hlength := congrArg List.length (eq_of_nextFrame h).1
  rw [List.length_append, length_encodeFrame, List.length_nil] at hlength
  omega

/-- The frame that is taken is the one that the bytes begin with, all of them. -/
theorem eq_of_nextFrame_append {eof : Option String} {typ' : UInt8} {payload' ahead x : Bytes}
    (h : nextFrame eof buf = .frame typ payload rest) (hlen : payload'.length < maxFrame)
    (heq : buf ++ ahead = encodeFrame typ' payload' ++ x) :
    typ = typ' ∧ payload = payload' ∧ rest ++ ahead = x := by
  obtain ⟨rfl, hpayload⟩ := eq_of_nextFrame h
  rw [List.append_assoc] at heq
  exact encodeFrame_append_inj hpayload hlen heq

/-! ### Messages are shorter than a frame -/

/-- A challenge fits a frame. -/
theorem Challenge.length_payload_lt {c : Challenge} (h : c.Fits) : c.payload.length < maxFrame := by
  obtain ⟨hr, hh⟩ := h
  have := c.challenge.2
  simp only [Challenge.payload, List.length_append, length_toLe, length_hashes]
  unfold maxChainHashes at hh
  unfold maxFrame
  omega

/-- An answer fits a frame. -/
theorem AuthOk.length_payload_lt {a : AuthOk} (h : a.Fits) : a.payload.length < maxFrame := by
  have := a.authToken.2
  have := a.sessionId.2
  have := a.sessionToken.2
  simp only [AuthOk.payload, List.length_append, length_toLe, length_hashes]
  unfold AuthOk.Fits maxChainHashes at h
  unfold maxFrame
  omega

/-- A refusal fits a frame. -/
theorem AuthFail.length_payload_lt {m : AuthFail} (h : m.Fits) : m.payload.length < maxFrame := by
  simp only [AuthFail.payload, List.length_append, length_toLe]
  unfold AuthFail.Fits at h
  unfold maxFrame
  omega

namespace Handshake

/-- What a failure writes: nothing, or its reason. -/
inductive Fails : Bytes → Prop
  | silent : Fails []
  | reason (m : AuthFail) (h : m.Fits) : Fails (encodeFrame msgAuthFail m.payload)

/-- The hello of a task that has taken a frame and works on its answer. -/
def working : Stage → Option AuthHello
  | .dropping hello _ _ | .reissuing hello _ _ | .registering hello _ _ | .touching hello _ _ _ _
  | .issuing hello _ _ _ | .resolving hello _ _ => some hello
  | _ => none

/-- Where a turn leaves a task that works on its answer. -/
inductive Works (env : Env) (d : Daemon) (c : Handshake) (hello : AuthHello) :
    Daemon × Handshake × Event → Prop
  | works {d' : Daemon} {event : Event} (s : Stage) (h : working s = some hello) :
    Works env d c hello (d', { c with stage := s }, event)
  | fails {d' : Daemon} {event : Event} (said : Bytes) (h : Fails said) :
    Works env d c hello
      (d', { c with stage := .closed, written := c.written ++ said }, event)
  | grants {d' : Daemon} {spawned : Option ℕ} (cols rows : ℕ) (a : AuthOk)
    (h : c.stage = .resolving hello a.uid a.authToken) (hfits : a.Fits)
    (hresolve : resolveSession d env a.uid hello cols rows =
      (.ok (a.sessionId, a.sessionToken), d')) :
    Works env d c hello
      (d', { c with
          stage := .authed a.uid, written := c.written ++ encodeFrame msgAuthOk a.payload },
        .resolved spawned true)

variable {rp : Relying} {env : Env} {d : Daemon} {c : Handshake} {hello : AuthHello} {clock now : ℤ}

/-- A task that closes says nothing. -/
theorem Works.close {d' : Daemon} {event : Event} : Works env d c hello (d', c.close, event) := by
  have h : c.close = { c with stage := .closed, written := c.written ++ [] } := by
    rw [List.append_nil]
    rfl
  rw [h]
  exact .fails [] .silent

/-- **What `send_fail` writes.** -/
theorem sendFail_says (c : Handshake) (reason : String) : ∃ said, Fails said ∧
    c.sendFail reason = { c with stage := .closed, written := c.written ++ said } := by
  unfold sendFail
  cases hencode : AuthFail.encode { reason } with
  | error e => exact ⟨[], .silent, rfl⟩
  | ok frame =>
    obtain ⟨hfits, rfl⟩ := (AuthFail.encode_iff _ _).1 hencode
    exact ⟨_, .reason _ hfits, rfl⟩

/-- A task that fails says why. -/
theorem Works.sendFail {d' : Daemon} {event : Event} (reason : String) :
    Works env d c hello (d', c.sendFail reason, event) := by
  obtain ⟨said, hfails, heq⟩ := c.sendFail_says reason
  rw [heq]
  exact .fails said hfails

/-- **What the hello of a browser is answered with**: nothing yet, or a challenge if the token is
not live. -/
theorem onAuthHello_says (rp : Relying) (env : Env) (d : Daemon) (c : Handshake) (clock : ℤ)
    (hdecode : AuthHello.decode payload = .ok hello) :
    Works env d c hello (onAuthHello rp env d c clock payload) ∨
      (hello.authToken.1 = List.replicate 32 0 ∨
        d.devices.validateToken hello.authToken clock = none) ∧
      ∃ m : Challenge, m.Fits ∧ (onAuthHello rp env d c clock payload).2.1 =
        { c with
          stage := .replying hello clock m.challenge
          written := c.written ++ encodeFrame msgChallenge m.payload } := by
  unfold onAuthHello
  rw [hdecode]
  dsimp only
  split
  · exact .inl (.works _ rfl)
  · rename_i hlive
    have hlive : hello.authToken.1 = List.replicate 32 0 ∨
        d.devices.validateToken hello.authToken clock = none := by
      split_ifs at hlive with hzero
      · exact .inl hzero
      · exact .inr hlive
    split
    · exact .inl .close
    · rename_i hashes hhashes
      split
      · exact .inl .close
      · rename_i frame hencode
        obtain ⟨hfits, rfl⟩ := (Challenge.encode_iff _ _).1 hencode
        split
        · exact .inr ⟨hlive, _, hfits, rfl⟩
        · exact .inl .close

/-- **What a reply is answered with**: nothing yet, or that it failed. -/
theorem onReply_says (rp : Relying) (env : Env) (d : Daemon) (c : Handshake) (hello : AuthHello)
    (now : ℤ) (challenge : FixedBytes 32) (typ : UInt8) (reply : Bytes) :
    Works env d c hello (onReply rp d c hello now challenge typ reply) := by
  unfold onReply
  split
  · split
    · exact .works _ rfl
    · exact .sendFail _
  · split
    · split
      · exact .works _ rfl
      · exact .sendFail _
    · exact .sendFail _

/-- A task that issues a token says nothing yet, or that it failed. -/
theorem onIssue_says (env : Env) (d : Daemon) (c : Handshake) (hello : AuthHello) (now : ℤ)
    (uid : ℕ) (credentialId : Option String) :
    Works env d c hello (onIssue env d c hello now uid credentialId) := by
  unfold onIssue
  split
  · exact .works _ rfl
  · exact .close

/-- **The answer.** -/
theorem onResolve_says (env : Env) (d : Daemon) {uid : ℕ} {authToken : FixedBytes 32}
    (hstage : c.stage = .resolving hello uid authToken) :
    Works env d c hello (onResolve env d c hello uid authToken) := by
  unfold onResolve
  split
  · exact .close
  · rename_i hashes hhashes
    dsimp only
    split
    · exact .sendFail _
    · rename_i sessionId sessionToken d' hresolve
      split
      · exact .close
      · rename_i frame hencode
        obtain ⟨hfits, rfl⟩ := (AuthOk.encode_iff _ _).1 hencode
        split
        · exact .grants _ _ { authToken, uid, sessionId, sessionToken, hashes } hstage hfits
            hresolve
        · exact .close

/-- **A turn of a task that works on its answer**, by its stage: it goes on, fails with an
`AuthFail` or silently, or answers. -/
theorem turn_works (rp : Relying) (env : Env) (d : Daemon) (clock : ℤ)
    (h : working c.stage = some hello) : Works env d c hello (c.turn rp env d clock) := by
  unfold turn
  generalize hstage : c.stage = s at h
  cases s with
  | dropping hello' now uid =>
    cases h
    dsimp only
    split
    · exact .works _ rfl
    · exact .close
  | reissuing hello' now uid =>
    cases h
    exact onIssue_says ..
  | registering hello' now reg =>
    cases h
    dsimp only
    split
    · exact .works _ rfl
    · exact .sendFail _
  | touching hello' now uid credentialId signCount =>
    cases h
    dsimp only
    split
    · exact .works _ rfl
    · exact .sendFail _
  | issuing hello' now uid credentialId =>
    cases h
    exact onIssue_says ..
  | resolving hello' uid authToken =>
    cases h
    exact onResolve_says env d hstage
  | _ => cases h

end Handshake
end Quosh
