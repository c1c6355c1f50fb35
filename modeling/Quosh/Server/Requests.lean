/-
# The requests of the helper

`crates/quosh-server/src/helper.rs`: what the daemon answers to a request over the Unix
socket, for the uid of the socket's peer.  A request is a record with an `op`; the fields that
an op does not read keep their defaults, and so do the fields of a response that it does not
set.

`create` holds the lock of the registry twice: when it looks for idle sessions (`killIdle`),
and when it starts the new one (`createRest`).  What comes from outside while a request is
answered is in `Outside`.
-/

import Quosh.Server.Attach
import Quosh.Server.Helper

namespace Quosh

open Bytes

/-- `HelperRequest`. -/
structure HelperRequest where
  op : String
  cols : ℕ := 0
  rows : ℕ := 0
  killIdle : Bool := false
  credential : Option String := none
  all : Bool := false
  sessions : Bool := false
  deriving DecidableEq

/-- `IdleInfo`. -/
structure IdleInfo where
  id : String
  idleSecs : ℕ
  deriving DecidableEq

/-- `DeviceInfo`. -/
structure DeviceInfo where
  credential : String
  user : String
  created : ℤ
  lastUsed : Option ℤ
  deriving DecidableEq

/-- `SessionInfo`. -/
structure SessionInfo where
  token : String
  lastSeen : ℤ
  deriving DecidableEq

/-- `HelperResponse`. -/
structure HelperResponse where
  ok : Bool := false
  error : Option String := none
  sessionId : Option String := none
  token : Option String := none
  port : Option ℕ := none
  certSha256 : Option String := none
  idle : List IdleInfo := []
  nonce : Option String := none
  user : Option String := none
  devices : List DeviceInfo := []
  sessions : List SessionInfo := []
  revoked : Option ℕ := none
  deriving DecidableEq

/-- What comes from outside while a request is answered: the two clocks, random bytes, how
writing the file and starting a child end, the hash of the certificate, and the name of the
user. -/
structure Outside where
  now : ℤ
  instant : ℕ
  nonce : FixedBytes 16
  sessionId : FixedBytes 16
  sessionToken : FixedBytes 32
  write : Except String Unit
  spawn : Except String Unit
  hash : Except String (FixedBytes 32)
  unixName : Option String

/-- `fail`. -/
def fail (msg : String) : HelperResponse := { ok := false, error := some msg }

/-- `str::starts_with`. -/
def startsWith (s pre : String) : Bool := pre.toList.isPrefixOf s.toList

theorem startsWith_iff {s pre : String} : startsWith s pre = true ↔ pre.toList <+: s.toList :=
  List.isPrefixOf_iff_prefix

/-- `resolve_credential`. -/
def resolveCredential (devices : DeviceStore) (uid : ℕ) (pre : String) : Except String String :=
  match (devices.registrations uid).filter fun r => startsWith r.credentialId pre with
  | [r] => .ok r.credentialId
  | [] => .error ("no credential matching " ++ pre)
  | rs => .error (toString rs.length ++ " credentials match " ++ pre ++ "; be more specific")

namespace Daemon

/-- `enroll_nonce`. -/
def enrollNonce (d : Daemon) (o : Outside) (uid : ℕ) (resp : HelperResponse) :
    HelperResponse × Daemon :=
  ({ resp with nonce := some (hexEncode o.nonce.1), user := o.unixName },
    { d with nonces := d.nonces.issue o.nonce uid o.now })

/-- `list_devices`. -/
def listDevices (d : Daemon) (uid : ℕ) (resp : HelperResponse) : HelperResponse :=
  { resp with
    devices := (d.devices.registrations uid).map fun r =>
      { credential := r.credentialId, user := r.userName, created := r.created
        lastUsed := r.lastUsed }
    sessions := (d.devices.tokens uid).map fun t => { token := t.1, lastSeen := t.2 } }

/-- The end of `revoke`: what the store has answered, and is now. -/
def revoked (d : Daemon) (resp : HelperResponse) (r : Except String ℕ × DeviceStore) :
    HelperResponse × Daemon :=
  (match r.1 with
    | .ok n => { resp with revoked := some n }
    | .error e => fail ("revoke: " ++ e),
    { d with devices := r.2 })

/-- `revoke`. -/
def revoke (d : Daemon) (write : Except String Unit) (uid : ℕ) (req : HelperRequest)
    (resp : HelperResponse) : HelperResponse × Daemon :=
  if req.all then d.revoked resp (d.devices.revokeAll write uid)
  else if req.sessions then d.revoked resp (d.devices.revokeSessions write uid)
  else
    match req.credential with
    | some pre =>
      match resolveCredential d.devices uid pre with
      | .ok cred =>
        let r := d.devices.revokeCredential write uid cred
        d.revoked resp (r.1.map Bool.toNat, r.2)
      | .error e => (fail e, d)
    | none => (fail "revoke needs a credential, --all, or --sessions", d)

/-- The sessions of the map, as a look for idle ones sees them. -/
def listed (d : Daemon) (cells : ℕ → Cells) : List Listed :=
  d.sessions.filterMap fun e =>
    (d.heap[e.2]?).map fun s => { id := e.1, uid := s.uid, cells := cells e.2 }

/-- `destroy`: a session leaves the map and is told to hang up. -/
def destroy (d : Daemon) (id : FixedBytes 16) : Daemon :=
  match d.sessions.find? fun e => e.1 = id with
  | none => d
  | some (_, k) => { d.remove id with heap := d.heap.modify k Session.requestHangup }

/-- An idle session, as it is reported. -/
def idleInfo (e : FixedBytes 16 × ℕ) : IdleInfo := { id := hexEncode e.1.1, idleSecs := e.2 }

/-- The first part of `create`: the idle sessions of the user, which leave the map if the
request says so. -/
def killIdle (d : Daemon) (cells : ℕ → Cells) (instant uid : ℕ) (kill : Bool) :
    List IdleInfo × Daemon :=
  let idle := collectIdle (d.listed cells) uid instant
  (idle.map idleInfo, if kill then (idle.map Prod.fst).foldl destroy d else d)

/-- The second part of `create`. -/
def createRest (d : Daemon) (o : Outside) (uid : ℕ) (req : HelperRequest) (idle : List IdleInfo)
    (resp : HelperResponse) : HelperResponse × Daemon :=
  let cols := if req.cols = 0 then 80 else req.cols
  let rows := if req.rows = 0 then 24 else req.rows
  match d.spawnSession o.spawn o.sessionId o.sessionToken uid cols rows with
  | (.ok (id, token), d) =>
    ({ resp with
        sessionId := some (hexEncode id.1), token := some (hexEncode token.1), idle }, d)
  | (.error e, d) => ({ fail e with idle }, d)

/-- `create`, when nobody comes between its parts. -/
def create (d : Daemon) (cells : ℕ → Cells) (o : Outside) (uid : ℕ) (req : HelperRequest)
    (resp : HelperResponse) : HelperResponse × Daemon :=
  let (idle, d) := d.killIdle cells o.instant uid req.killIdle
  d.createRest o uid req idle resp

/-- `dispatch`. -/
def dispatch (d : Daemon) (port : ℕ) (cells : ℕ → Cells) (o : Outside) (uid : ℕ)
    (req : HelperRequest) : HelperResponse × Daemon :=
  match o.hash with
  | .error e => (fail ("certificate: " ++ e), d)
  | .ok h =>
    let base : HelperResponse :=
      { ok := true, port := some port, certSha256 := some (hexEncode h.1) }
    match req.op with
    | "idle" =>
      ({ base with idle := (collectIdle (d.listed cells) uid o.instant).map idleInfo }, d)
    | "ping" => (base, d)
    | "create" => d.create cells o uid req base
    | "enroll-nonce" => d.enrollNonce o uid base
    | "devices" => (d.listDevices uid base, d)
    | "revoke" => d.revoke o.write uid req base
    | other => (fail ("unknown op " ++ other), d)

end Daemon
end Quosh
