/-
# The browser's handshake

`crates/quosh-server/src/auth.rs` and `handle_incoming` of `transport.rs`: what the task
of a connection does from its first frame on, until it is attached to a session.  The
handshake goes from one call of the device store, the nonce store or the registry to the
next, and each call takes its lock anew, so other tasks come between any two.  `Stage` is
where a task is, with the variables it has; `Handshake.turn` goes on to the next call.

The clock is read once, when the first frame is taken (`now` in a stage).  What comes from
outside in a turn is in `Env`: random bytes, how the file and the chain of certificates
behave, and whether the client still reads.  The checks of `webauthn` are a parameter
(`Relying`).

`Effect` says what a turn does to what is shared, one case for each call, and
`turn_effect` that it is all a turn can do.
-/

import Quosh.Proto.AuthMessage
import Quosh.Server.Helper

namespace Quosh

open Bytes

/-- `webauthn::Registered`. -/
structure Registered where
  credentialId : Bytes
  publicKey : Bytes
  signCount : ℕ

/-- What the daemon is configured with, the names of users, and the functions of
`webauthn`, which take the id and the origin first. -/
structure Relying where
  rpId : String
  origin : String
  unixName : ℕ → Option String
  verifyRegistration : String → String → FixedBytes 32 → Bytes → Bytes → Except String Registered
  verifyAssertion : String → String → FixedBytes 32 → Bytes → Bytes → Bytes → Bytes →
    Except String ℕ

/-- What comes from outside in a turn: random bytes, how writing the file and starting a
child end, the hashes of the chain, how reading from the client ended if it did, and
whether the client took what was written. -/
structure Env where
  token : FixedBytes 32
  challenge : FixedBytes 32
  sessionId : FixedBytes 16
  sessionToken : FixedBytes 32
  write : Except String Unit
  spawn : Except String Unit
  hashes : Except String (List (FixedBytes 32))
  eof : Option String
  sent : Bool

/-- A turn in which nothing fails, with random bytes that are all the same. -/
def smooth (b : UInt8) : Env where
  token := constBytes 32 b
  challenge := constBytes 32 b
  sessionId := constBytes 16 b
  sessionToken := constBytes 32 b
  write := .ok ()
  spawn := .ok ()
  hashes := .ok []
  eof := none
  sent := true

/-- Where the task of a connection is: before the call that the name says, or waiting for
a frame (`opening`, `replying`, `authed`), or behind the handshake. -/
inductive Stage where
  | idle
  | opening
  | dropping (hello : AuthHello) (now : ℤ) (uid : ℕ)
  | reissuing (hello : AuthHello) (now : ℤ) (uid : ℕ)
  | replying (hello : AuthHello) (now : ℤ) (challenge : FixedBytes 32)
  | registering (hello : AuthHello) (now : ℤ) (reg : Registration)
  | touching (hello : AuthHello) (now : ℤ) (uid : ℕ) (credentialId : String) (signCount : ℕ)
  | issuing (hello : AuthHello) (now : ℤ) (uid : ℕ) (credentialId : String)
  | resolving (hello : AuthHello) (uid : ℕ) (authToken : FixedBytes 32)
  | authed (uid : ℕ)
  | attached (k : ℕ) (h : Handler)
  | closed

/-- The task of a connection: the bytes it has read, where it is, and what it has written
until it is attached. -/
structure Handshake where
  buf : Bytes := []
  stage : Stage := .idle
  written : Bytes := []

/-- What a turn did; a session is named by its place, and `screen` says that a screen went
out when a connection was attached. -/
inductive Event where
  | quiet
  | validated
  | consumed (nonce : FixedBytes 16) (uid : ℕ)
  | registered
  | found
  | issued (token : FixedBytes 32)
  | resolved (spawned : Option ℕ) (answered : Bool)
  | attached (k : ℕ) (uid : ℕ) (authUid : Option ℕ) (screen : Bool)

/-- `next_frame`, when reading from the client has ended or not: it waits, fails, or takes
a frame. -/
inductive NextFrame where
  | wait
  | failed (error : String)
  | frame (typ : UInt8) (payload rest : Bytes)

/-- `next_frame`. -/
def nextFrame (eof : Option String) (buf : Bytes) : NextFrame :=
  match splitFrame buf with
  | (.error e, _) => .failed e.display
  | (.ok (some (typ, payload)), rest) => .frame typ payload rest
  | (.ok none, _) =>
    match eof with
    | none => .wait
    | some error => .failed error

/-- `resolve_session`. -/
def resolveSession (d : Daemon) (env : Env) (uid : ℕ) (hello : AuthHello) (cols rows : ℕ) :
    Except String (FixedBytes 16 × FixedBytes 32) × Daemon :=
  if hello.sessionId.1 = List.replicate 16 0 then
    d.spawnSession env.spawn env.sessionId env.sessionToken uid cols rows
  else
    match d.get hello.sessionId with
    | some (_, s) =>
      if s.uid = uid ∧ s.token = hello.sessionToken then
        (.ok (hello.sessionId, hello.sessionToken), d)
      else (.error "session does not belong to authenticated user", d)
    | none => (.error "session does not belong to authenticated user", d)

/-- `do_enroll` up to the registration, which is stored in the next turn. -/
def doEnroll (rp : Relying) (d : Daemon) (reply : Bytes) (challenge : FixedBytes 32) (now : ℤ) :
    Except String Registration × Daemon × Event :=
  match Enroll.decode reply with
  | .error e => (.error ("enroll frame: " ++ e.display), d, .quiet)
  | .ok e =>
    match d.nonces.consume e.nonce now with
    | (none, nonces) => (.error "invalid or expired enrolment nonce", { d with nonces }, .quiet)
    | (some uid, nonces) =>
      match rp.verifyRegistration rp.rpId rp.origin challenge e.clientDataJson
          e.attestationObject with
      | .error m => (.error m, { d with nonces }, .consumed e.nonce uid)
      | .ok reg =>
        (.ok
          { uid
            credentialId := hexEncode reg.credentialId
            publicKey := hexEncode reg.publicKey
            rpId := rp.rpId
            origin := rp.origin
            userName :=
              match rp.unixName uid with
              | some name => name ++ "@" ++ rp.origin
              | none => "uid-" ++ toString uid ++ "@" ++ rp.origin
            signCount := reg.signCount
            created := now
            lastUsed := some now },
          { d with nonces }, .consumed e.nonce uid)

/-- `do_assert` up to the record of it, which is stored in the next turn. -/
def doAssert (rp : Relying) (d : Daemon) (reply : Bytes) (challenge : FixedBytes 32) :
    Except String (ℕ × String × ℕ) :=
  match Assert.decode reply with
  | .error e => .error ("assert frame: " ++ e.display)
  | .ok a =>
    match d.devices.find (hexEncode a.credentialId) with
    | none => .error "unknown credential"
    | some reg =>
      match hexDecode reg.publicKey with
      | .error e => .error ("stored public key: " ++ e)
      | .ok publicKey =>
        (rp.verifyAssertion rp.rpId rp.origin challenge a.clientDataJson a.authenticatorData
          a.signature publicKey).map fun signCount =>
            (reg.uid, hexEncode a.credentialId, signCount)

namespace Handshake

/-- The connection is dropped. -/
def close (c : Handshake) : Handshake := { c with stage := .closed }

/-- `send_fail`. -/
def sendFail (c : Handshake) (reason : String) : Handshake :=
  { c with
    stage := .closed
    written := c.written ++ (AuthFail.encode { reason }).toOption.getD [] }

/-- `reject`. -/
def reject (c : Handshake) (code : ℕ) (message : String) : Handshake :=
  { c with stage := .closed, written := c.written ++ encodeError code message }

variable (rp : Relying) (env : Env) (d : Daemon) (c : Handshake)

/-- The frame that should be the hello of `handle_incoming`. -/
def onHello (authUid : Option ℕ) (typ : UInt8) (payload : Bytes) : Daemon × Handshake × Event :=
  match d.receive authUid typ payload c.buf with
  | .reject code message => (d, c.reject code message, .quiet)
  | .attach k s h =>
    ({ d with heap := d.heap.set k s }, { c with stage := .attached k h },
      .attached k s.uid authUid s.latest.isSome)

/-- `auth::run` up to `validate_token`, and when the token is not live up to the reply. -/
def onAuthHello (clock : ℤ) (payload : Bytes) : Daemon × Handshake × Event :=
  match AuthHello.decode payload with
  | .error _ => (d, c.close, .quiet)
  | .ok hello =>
    match (if hello.authToken.1 = List.replicate 32 0 then none
      else d.devices.validateToken hello.authToken clock) with
    | some uid => (d, { c with stage := .dropping hello clock uid }, .validated)
    | none =>
      match env.hashes with
      | .error _ => (d, c.close, .quiet)
      | .ok hashes =>
        match Challenge.encode { challenge := env.challenge, rpId := rp.rpId, hashes } with
        | .error _ => (d, c.close, .quiet)
        | .ok frame =>
          if env.sent then
            (d, { c with
              stage := .replying hello clock env.challenge
              written := c.written ++ frame }, .quiet)
          else (d, c.close, .quiet)

/-- `auth::run` from the reply on, up to the next call. -/
def onReply (hello : AuthHello) (now : ℤ) (challenge : FixedBytes 32) (typ : UInt8)
    (reply : Bytes) : Daemon × Handshake × Event :=
  if typ = msgEnroll then
    match doEnroll rp d reply challenge now with
    | (.ok reg, d, event) => (d, { c with stage := .registering hello now reg }, event)
    | (.error e, d, event) => (d, c.sendFail e, event)
  else if typ = msgAssert then
    match doAssert rp d reply challenge with
    | .ok (uid, credentialId, signCount) =>
      (d, { c with stage := .touching hello now uid credentialId signCount }, .found)
    | .error e => (d, c.sendFail e, .quiet)
  else (d, c.sendFail "expected MSG_ASSERT or MSG_ENROLL", .quiet)

/-- `issue_token` and what follows it up to `resolve_session`. -/
def onIssue (hello : AuthHello) (now : ℤ) (uid : ℕ) (credentialId : Option String) :
    Daemon × Handshake × Event :=
  match d.devices.issueToken env.write env.token uid credentialId now with
  | (.ok token, devices) =>
    ({ d with devices }, { c with stage := .resolving hello uid token }, .issued token)
  | (.error _, devices) => ({ d with devices }, c.close, .issued env.token)

/-- `resolve_session` and `send_ok`. -/
def onResolve (hello : AuthHello) (uid : ℕ) (authToken : FixedBytes 32) :
    Daemon × Handshake × Event :=
  match env.hashes with
  | .error _ => (d, c.close, .quiet)
  | .ok hashes =>
    let spawned := if hello.sessionId.1 = List.replicate 16 0 then some d.heap.length else none
    match resolveSession d env uid hello (if hello.cols = 0 then 80 else hello.cols)
        (if hello.rows = 0 then 24 else hello.rows) with
    | (.error e, d) => (d, c.sendFail e, .quiet)
    | (.ok (sessionId, sessionToken), d) =>
      match AuthOk.encode { authToken, uid, sessionId, sessionToken, hashes } with
      | .error _ => (d, c.close, .resolved spawned false)
      | .ok frame =>
        if env.sent then
          (d, { c with stage := .authed uid, written := c.written ++ frame },
            .resolved spawned true)
        else (d, c.close, .resolved spawned false)

/-- The next turn of the task of a connection, up to its next call. -/
def turn (clock : ℤ) : Daemon × Handshake × Event :=
  match c.stage with
  | .opening =>
    match nextFrame env.eof c.buf with
    | .wait => (d, c, .quiet)
    | .failed _ => (d, c.close, .quiet)
    | .frame typ payload rest =>
      if typ = msgAuthHello then onAuthHello rp env d { c with buf := rest } clock payload
      else onHello d { c with buf := rest } none typ payload
  | .dropping hello now uid =>
    match d.devices.dropToken env.write hello.authToken with
    | (.ok (), devices) =>
      ({ d with devices }, { c with stage := .reissuing hello now uid }, .quiet)
    | (.error _, devices) => ({ d with devices }, c.close, .quiet)
  | .reissuing hello now uid => onIssue env d c hello now uid none
  | .replying hello now challenge =>
    match nextFrame env.eof c.buf with
    | .wait => (d, c, .quiet)
    | .failed e => (d, c.sendFail e, .quiet)
    | .frame typ reply rest => onReply rp d { c with buf := rest } hello now challenge typ reply
  | .registering hello now reg =>
    match d.devices.register env.write reg with
    | (.ok (), devices) =>
      ({ d with devices }, { c with stage := .issuing hello now reg.uid reg.credentialId },
        .registered)
    | (.error e, devices) => ({ d with devices }, c.sendFail e, .registered)
  | .touching hello now uid credentialId signCount =>
    match d.devices.touched env.write credentialId signCount now with
    | (.ok (), devices) =>
      ({ d with devices }, { c with stage := .issuing hello now uid credentialId }, .quiet)
    | (.error e, devices) => ({ d with devices }, c.sendFail e, .quiet)
  | .issuing hello now uid credentialId => onIssue env d c hello now uid (some credentialId)
  | .resolving hello uid authToken => onResolve env d c hello uid authToken
  | .authed uid =>
    match nextFrame env.eof c.buf with
    | .wait => (d, c, .quiet)
    | .failed _ => (d, c.close, .quiet)
    | .frame typ payload rest => onHello d { c with buf := rest } (some uid) typ payload
  | .idle => (d, c, .quiet)
  | .attached _ _ => (d, c, .quiet)
  | .closed => (d, c, .quiet)

/-! ### What a turn does -/

/-- What a turn of a task does to what is shared, and where it leaves the task. -/
inductive Effect (clock : ℤ) : Daemon × Handshake × Event → Prop
  | quiet (c' : Handshake) (h : c'.stage = c.stage ∨ c'.stage = .closed) :
    Effect clock (d, c', .quiet)
  | challenged (c' : Handshake) (hello : AuthHello) (h : c.stage = .opening)
    (h' : c'.stage = .replying hello clock env.challenge) : Effect clock (d, c', .quiet)
  | validated (c' : Handshake) (payload rest : Bytes) (hello : AuthHello) (uid : ℕ)
    (h : c.stage = .opening) (hframe : nextFrame env.eof c.buf = .frame msgAuthHello payload rest)
    (hdecode : AuthHello.decode payload = .ok hello)
    (hlive : d.devices.validateToken hello.authToken clock = some uid)
    (h' : c'.stage = .dropping hello clock uid) : Effect clock (d, c', .validated)
  | dropped (c' : Handshake) (hello : AuthHello) (now : ℤ) (uid : ℕ)
    (h : c.stage = .dropping hello now uid)
    (h' : c'.stage = .reissuing hello now uid ∨ c'.stage = .closed) :
    Effect clock
      ({ d with devices := (d.devices.dropToken env.write hello.authToken).2 }, c', .quiet)
  | refused (c' : Handshake) (hello : AuthHello) (now : ℤ) (challenge : FixedBytes 32)
    (nonce : FixedBytes 16) (h : c.stage = .replying hello now challenge)
    (h' : c'.stage = .closed) :
    Effect clock ({ d with nonces := (d.nonces.consume nonce now).2 }, c', .quiet)
  | consumed (c' : Handshake) (hello : AuthHello) (now : ℤ) (challenge : FixedBytes 32)
    (reply rest : Bytes) (e : Enroll) (uid : ℕ) (h : c.stage = .replying hello now challenge)
    (hframe : nextFrame env.eof c.buf = .frame msgEnroll reply rest)
    (hdecode : Enroll.decode reply = .ok e)
    (hspent : (d.nonces.consume e.nonce now).1 = some uid)
    (h' : c'.stage = .closed ∨
      ∃ reg : Registration, reg.uid = uid ∧ c'.stage = .registering hello now reg) :
    Effect clock
      ({ d with nonces := (d.nonces.consume e.nonce now).2 }, c', .consumed e.nonce uid)
  | registered (c' : Handshake) (hello : AuthHello) (now : ℤ) (reg : Registration)
    (h : c.stage = .registering hello now reg)
    (h' : c'.stage = .issuing hello now reg.uid reg.credentialId ∨ c'.stage = .closed) :
    Effect clock
      ({ d with devices := (d.devices.register env.write reg).2 }, c', .registered)
  | found (c' : Handshake) (hello : AuthHello) (now : ℤ) (challenge : FixedBytes 32)
    (credentialId : String) (reg : Registration) (signCount : ℕ)
    (h : c.stage = .replying hello now challenge)
    (hfind : d.devices.find credentialId = some reg)
    (h' : c'.stage = .touching hello now reg.uid credentialId signCount) :
    Effect clock (d, c', .found)
  | touched (c' : Handshake) (hello : AuthHello) (now : ℤ) (uid : ℕ) (credentialId : String)
    (signCount : ℕ) (h : c.stage = .touching hello now uid credentialId signCount)
    (h' : c'.stage = .issuing hello now uid credentialId ∨ c'.stage = .closed) :
    Effect clock
      ({ d with devices := (d.devices.touched env.write credentialId signCount now).2 }, c',
        .quiet)
  | issued (c' : Handshake) (hello : AuthHello) (now : ℤ) (uid : ℕ)
    (credentialId : Option String)
    (h : c.stage = .reissuing hello now uid ∧ credentialId = none ∨
      ∃ id, c.stage = .issuing hello now uid id ∧ credentialId = some id)
    (h' : c'.stage = .resolving hello uid env.token ∨ c'.stage = .closed) :
    Effect clock
      ({ d with devices := (d.devices.issueToken env.write env.token uid credentialId now).2 },
        c', .issued env.token)
  | resolved (c' : Handshake) (d' : Daemon) (hello : AuthHello) (uid : ℕ)
    (authToken : FixedBytes 32) (spawned : Option ℕ) (answered : Bool)
    (h : c.stage = .resolving hello uid authToken) (hdevices : d'.devices = d.devices)
    (hnonces : d'.nonces = d.nonces)
    (hspawned : ∀ k, spawned = some k → k = d.heap.length ∧
      ∃ s, s.uid = uid ∧ d'.heap = d.heap ++ [s])
    (hnone : spawned = none → d'.heap = d.heap)
    (h' : c'.stage = if answered then .authed uid else .closed) :
    Effect clock (d', c', .resolved spawned answered)
  | attached (c' : Handshake) (payload rest : Bytes) (hello : Hello) (authUid : Option ℕ) (k : ℕ)
    (s : Session) (handler : Handler)
    (h : c.stage = .opening ∧ authUid = none ∨ ∃ uid, c.stage = .authed uid ∧ authUid = some uid)
    (hframe : nextFrame env.eof c.buf = .frame msgHello payload rest)
    (hdecode : Hello.decode payload = .ok hello) (hget : d.get hello.sessionId = some (k, s))
    (htoken : s.token = hello.token) (howner : ∀ uid, authUid = some uid → s.uid = uid)
    (h' : c'.stage = .attached k handler) :
    Effect clock
      ({ d with heap := d.heap.set k s.claimTransport }, c',
        .attached k s.uid authUid s.latest.isSome)

variable {rp env d c}

/-- The hello of a client attaches it, or closes the task. -/
theorem onHello_effect {clock : ℤ} {authUid : Option ℕ} {typ : UInt8} {payload rest : Bytes}
    (h : c.stage = .opening ∧ authUid = none ∨ ∃ uid, c.stage = .authed uid ∧ authUid = some uid)
    (hframe : nextFrame env.eof c.buf = .frame typ payload rest) :
    Effect env d c clock (onHello d { c with buf := rest } authUid typ payload) := by
  unfold onHello
  split
  · exact .quiet _ (.inr rfl)
  · rename_i k s handler hr
    obtain ⟨hello, s₀, rfl, hdecode, hget, rfl, htoken, howner⟩ := Daemon.receive_attach hr
    exact .attached _ payload rest hello authUid k s₀ handler h hframe hdecode hget htoken howner
      rfl

/-- A hello to authenticate presents a live token, or is challenged. -/
theorem onAuthHello_effect {clock : ℤ} {payload rest : Bytes} (h : c.stage = .opening)
    (hframe : nextFrame env.eof c.buf = .frame msgAuthHello payload rest) :
    Effect env d c clock (onAuthHello rp env d { c with buf := rest } clock payload) := by
  unfold onAuthHello
  split
  · exact .quiet _ (.inr rfl)
  · rename_i hello hdecode
    split
    · rename_i uid hlive
      split_ifs at hlive
      exact .validated _ payload rest hello uid h hframe hdecode hlive rfl
    · split
      · exact .quiet _ (.inr rfl)
      · split
        · exact .quiet _ (.inr rfl)
        · split
          · exact .challenged _ hello h rfl
          · exact .quiet _ (.inr rfl)

/-- **The reply to a challenge** consumes a nonce, or names a passkey.  An enrolment spends
its nonce before the registration is verified, so a reply that fails there has an effect all
the same; an assertion changes nothing until it is verified. -/
theorem onReply_effect {clock now : ℤ} {hello : AuthHello} {challenge : FixedBytes 32}
    {typ : UInt8} {reply rest : Bytes} (h : c.stage = .replying hello now challenge)
    (hframe : nextFrame env.eof c.buf = .frame typ reply rest) :
    Effect env d c clock
      (onReply rp d { c with buf := rest } hello now challenge typ reply) := by
  unfold onReply doEnroll doAssert
  by_cases henroll : typ = msgEnroll
  · subst henroll
    rw [if_pos rfl]
    cases hdecode : Enroll.decode reply with
    | error e => exact .quiet _ (.inr rfl)
    | ok e =>
      dsimp only
      cases hconsume : d.nonces.consume e.nonce now with
      | mk spent nonces =>
        have hnonces : nonces = (d.nonces.consume e.nonce now).2 := by rw [hconsume]
        cases spent with
        | none =>
          dsimp only
          rw [hnonces]
          exact .refused _ hello now challenge e.nonce h rfl
        | some uid =>
          have hspent : (d.nonces.consume e.nonce now).1 = some uid := by rw [hconsume]
          dsimp only
          rw [hnonces]
          cases rp.verifyRegistration rp.rpId rp.origin challenge e.clientDataJson
              e.attestationObject with
          | error m =>
            exact .consumed _ hello now challenge reply rest e uid h hframe hdecode hspent
              (.inl rfl)
          | ok reg =>
            exact .consumed _ hello now challenge reply rest e uid h hframe hdecode hspent
              (.inr ⟨_, rfl, rfl⟩)
  · rw [if_neg henroll]
    by_cases hassert : typ = msgAssert
    · rw [if_pos hassert]
      cases Assert.decode reply with
      | error e => exact .quiet _ (.inr rfl)
      | ok a =>
        dsimp only
        cases hfind : d.devices.find (hexEncode a.credentialId) with
        | none => exact .quiet _ (.inr rfl)
        | some reg =>
          dsimp only
          cases hexDecode reg.publicKey with
          | error e => exact .quiet _ (.inr rfl)
          | ok publicKey =>
            dsimp only
            cases rp.verifyAssertion rp.rpId rp.origin challenge a.clientDataJson
                a.authenticatorData a.signature publicKey with
            | error e => exact .quiet _ (.inr rfl)
            | ok signCount =>
              exact .found _ hello now challenge (hexEncode a.credentialId) reg signCount h hfind
                rfl
    · rw [if_neg hassert]
      exact .quiet _ (.inr rfl)

/-- A token is issued. -/
theorem onIssue_effect {clock now : ℤ} {hello : AuthHello} {uid : ℕ}
    {credentialId : Option String}
    (h : c.stage = .reissuing hello now uid ∧ credentialId = none ∨
      ∃ id, c.stage = .issuing hello now uid id ∧ credentialId = some id) :
    Effect env d c clock (onIssue env d c hello now uid credentialId) := by
  unfold onIssue
  cases hissue : d.devices.issueToken env.write env.token uid credentialId now with
  | mk r devices =>
    have hdevices :
        devices = (d.devices.issueToken env.write env.token uid credentialId now).2 := by
      rw [hissue]
    rw [hdevices]
    cases r with
    | error e => exact .issued _ hello now uid credentialId h (.inr rfl)
    | ok token =>
      obtain rfl : token = env.token := DeviceStore.issueToken_eq_ok (by rw [hissue])
      exact .issued _ hello now uid credentialId h (.inl rfl)

/-- What `resolve_session` leaves. -/
theorem resolveSession_spec (d : Daemon) (env : Env) (uid : ℕ) (hello : AuthHello)
    (cols rows : ℕ) :
    (∃ e, resolveSession d env uid hello cols rows = (.error e, d)) ∨
      ∃ ids d', resolveSession d env uid hello cols rows = (.ok ids, d') ∧
        d'.devices = d.devices ∧ d'.nonces = d.nonces ∧
        if hello.sessionId.1 = List.replicate 16 0 then
          ∃ s : Session, s.uid = uid ∧ d'.heap = d.heap ++ [s]
        else d'.heap = d.heap := by
  unfold resolveSession
  by_cases hzero : hello.sessionId.1 = List.replicate 16 0
  · simp only [if_pos hzero]
    rcases d.spawnSession_spec env.spawn env.sessionId env.sessionToken uid cols rows with
      ⟨e, he⟩ | ⟨d', hd', hdevices, hnonces, hheap⟩
    · exact .inl ⟨e, he⟩
    · exact .inr ⟨_, d', hd', hdevices, hnonces, hheap⟩
  · simp only [if_neg hzero]
    split
    · split
      · exact .inr ⟨_, d, rfl, rfl, rfl, rfl⟩
      · exact .inl ⟨_, rfl⟩
    · exact .inl ⟨_, rfl⟩

/-- A session is found or started.  A session that is started stays, even where the answer
is too long for a frame and the task ends with it. -/
theorem onResolve_effect {clock : ℤ} {hello : AuthHello} {uid : ℕ} {authToken : FixedBytes 32}
    (h : c.stage = .resolving hello uid authToken) :
    Effect env d c clock (onResolve env d c hello uid authToken) := by
  unfold onResolve
  cases env.hashes with
  | error e => exact .quiet _ (.inr rfl)
  | ok hashes =>
    dsimp only
    rcases resolveSession_spec d env uid hello (if hello.cols = 0 then 80 else hello.cols)
      (if hello.rows = 0 then 24 else hello.rows) with
      ⟨e, he⟩ | ⟨⟨id, token⟩, d', hd', hdevices, hnonces, hheap⟩
    · rw [he]
      exact .quiet _ (.inr rfl)
    · rw [hd']
      dsimp only
      have heffect (c' : Handshake) (answered : Bool)
          (h' : c'.stage = if answered then .authed uid else .closed) :
          Effect env d c clock (d', c', .resolved
            (if hello.sessionId.1 = List.replicate 16 0 then some d.heap.length else none)
            answered) := by
        refine .resolved c' d' hello uid authToken _ answered h hdevices hnonces ?_ ?_ h'
        · intro k hk
          split_ifs at hk hheap
          exact ⟨(Option.some.inj hk).symm, hheap⟩
        · intro hk
          split_ifs at hk hheap
          exact hheap
      split
      · exact heffect _ false rfl
      · split
        · exact heffect _ true rfl
        · exact heffect _ false rfl

/-- **What a turn can do** to what is shared is the call its task stands before: by the
stage, and where a frame is read by what was read. -/
theorem turn_effect (rp : Relying) (env : Env) (d : Daemon) (c : Handshake) (clock : ℤ) :
    Effect env d c clock (c.turn rp env d clock) := by
  unfold turn
  cases hstage : c.stage with
  | opening =>
    dsimp only
    cases hframe : nextFrame env.eof c.buf with
    | wait => exact .quiet _ (.inl rfl)
    | failed e => exact .quiet _ (.inr rfl)
    | frame typ payload rest =>
      dsimp only
      split
      · rename_i htyp
        subst htyp
        exact onAuthHello_effect hstage hframe
      · exact onHello_effect (.inl ⟨hstage, rfl⟩) hframe
  | replying hello now challenge =>
    dsimp only
    cases hframe : nextFrame env.eof c.buf with
    | wait => exact .quiet _ (.inl rfl)
    | failed e => exact .quiet _ (.inr rfl)
    | frame typ reply rest => exact onReply_effect hstage hframe
  | authed uid =>
    dsimp only
    cases hframe : nextFrame env.eof c.buf with
    | wait => exact .quiet _ (.inl rfl)
    | failed e => exact .quiet _ (.inr rfl)
    | frame typ payload rest => exact onHello_effect (.inr ⟨uid, hstage, rfl⟩) hframe
  | dropping hello now uid =>
    dsimp only
    cases hdrop : d.devices.dropToken env.write hello.authToken with
    | mk r devices =>
      have hdevices : devices = (d.devices.dropToken env.write hello.authToken).2 := by rw [hdrop]
      rw [hdevices]
      cases r with
      | ok u => exact .dropped _ hello now uid hstage (.inl rfl)
      | error e => exact .dropped _ hello now uid hstage (.inr rfl)
  | registering hello now reg =>
    dsimp only
    cases hregister : d.devices.register env.write reg with
    | mk r devices =>
      have hdevices : devices = (d.devices.register env.write reg).2 := by rw [hregister]
      rw [hdevices]
      cases r with
      | ok u => exact .registered _ hello now reg hstage (.inl rfl)
      | error e => exact .registered _ hello now reg hstage (.inr rfl)
  | touching hello now uid credentialId signCount =>
    dsimp only
    cases htouched : d.devices.touched env.write credentialId signCount now with
    | mk r devices =>
      have hdevices : devices = (d.devices.touched env.write credentialId signCount now).2 := by
        rw [htouched]
      rw [hdevices]
      cases r with
      | ok u => exact .touched _ hello now uid credentialId signCount hstage (.inl rfl)
      | error e => exact .touched _ hello now uid credentialId signCount hstage (.inr rfl)
  | reissuing hello now uid => exact onIssue_effect (.inl ⟨hstage, rfl⟩)
  | issuing hello now uid credentialId => exact onIssue_effect (.inr ⟨_, hstage, rfl⟩)
  | resolving hello uid authToken => exact onResolve_effect hstage
  | idle => exact .quiet _ (.inl rfl)
  | attached k h => exact .quiet _ (.inl rfl)
  | closed => exact .quiet _ (.inl rfl)

end Handshake
end Quosh
