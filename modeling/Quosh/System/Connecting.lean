/-
# A session over SSH

The way of `crates/quosh-cli/src/main.rs` into the daemon of `Quosh.System.World`: at the other end
of SSH `helper` asks for a session and prints the line for it, `client` finds the line in what SSH
has printed, and the client of `run_session` presents what the line says, on a connection of its own
and without authentication.

`connect_attaches` follows it all the way: the connection gets the session that was created, as long
as there is one, and no other.

The create and the line are modelled where the source has them (`Quosh.Server.Limits`,
`Quosh.Proto.ConnectLine`); here they are put end to end, with any run of the daemon between the
create and the hello.
-/

import Quosh.Proto.ConnectLine
import Quosh.Server.Limits
import Quosh.System.Visit

namespace Quosh

open Bytes Words

/-! ### What is printed for a session -/

/-- What the line for a session says. -/
def connectBits (port : UInt16) (certHash : FixedBytes 32) (o : Outside) : ConnectBits where
  port
  certHash
  session := o.sessionId
  token := o.sessionToken

namespace Daemon

variable {d : Daemon} {o : Outside} {uid : ℕ} {req : HelperRequest} {idle : List IdleInfo}
  {port : UInt16} {certHash : FixedBytes 32}

/-- **A session that is created** is printed, and is the user's. -/
theorem createRest_ok
    (hok : (d.createRest o uid req idle (okBase port.toNat certHash)).1.ok = true) :
    connectOutput (d.createRest o uid req idle (okBase port.toNat certHash)).1 =
      .ok (formatConnectLine (connectBits port certHash o) ++ ['\n']) ∧
    (o.sessionId, o.sessionToken, uid) ∈
      (d.spawnSession o.spawn o.sessionId o.sessionToken uid (if req.cols = 0 then 80 else req.cols)
        (if req.rows = 0 then 24 else req.rows)).2.identities := by
  have hkeeps := (d.spawnSession_keeps o.spawn o.sessionId o.sessionToken uid
    (if req.cols = 0 then 80 else req.cols) (if req.rows = 0 then 24 else req.rows)).2
  unfold createRest at hok ⊢
  dsimp only at hok ⊢
  generalize d.spawnSession o.spawn o.sessionId o.sessionToken uid
    (if req.cols = 0 then 80 else req.cols) (if req.rows = 0 then 24 else req.rows) = r
    at hok hkeeps ⊢
  obtain ⟨r, d'⟩ := r
  cases r with
  | error e => cases hok
  | ok x =>
    obtain ⟨rfl, hmem⟩ := hkeeps x rfl
    exact ⟨connectOutput_eq (connectBits port certHash o) rfl rfl rfl rfl rfl, hmem⟩

end Daemon

namespace World

variable {rp : Relying} {w w' : World} {i : ℕ} {env : Env}

/-- **What a client writes first is its hello.**  `Browser.join` writes the same. -/
theorem outbound_beginConnection {σ : Type} (ext : Externals σ) (sessionId : FixedBytes 16)
    (token : FixedBytes 32) (cols rows : UInt16) (predictNever : Bool) (now : ℕ) :
    ((Client.new ext sessionId token cols.toNat rows.toNat predictNever).beginConnection
      now).outbound =
      ({ protocol := protocolVersion, sessionId, token, cols := cols.toNat,
         rows := rows.toNat } : Hello).encode := rfl

/-- The task of a connection begins, and has in front of it a frame of what somebody writes. -/
def Faces (w : World) (i : ℕ) (env : Env) (bytes : Bytes) : Prop :=
  w.stage i = .opening ∧
    ∃ typ payload rest ahead more, nextFrame env.eof (w.conns i).buf = .frame typ payload rest ∧
      (w.conns i).buf ++ ahead = bytes ++ more

/-- A task that faces the hello of a client takes it. -/
theorem Faces.turn (rp : Relying) {hello : Hello} (h : w.Faces i env hello.encode) :
    ∃ rest, (w.act rp (.turn i env)).conns i =
      (Handshake.onHello w.daemon { w.conns i with buf := rest } none msgHello
        hello.payload).2.1 := by
  obtain ⟨hstage, typ, payload, rest, ahead, more, hframe, hbytes⟩ := h
  obtain ⟨rfl, rfl, -⟩ := eq_of_nextFrame_append hframe
    ((Hello.length_payload _).trans_lt (by decide)) hbytes
  have hopening : (w.conns i).stage = .opening := hstage
  refine ⟨rest, ?_⟩
  rw [conns_turn_self]
  unfold Handshake.turn
  rw [hopening]
  dsimp only
  rw [hframe]
  dsimp only
  rw [if_neg (by decide), hopening]

/-- **Whoever asks for a session over SSH gets into it.**  The daemon creates a session in any run,
and answers `helper`.  Then `client` reads the line out of whatever a login prints around it; and
when afterwards, in any run, the task of a connection takes what the client writes that is made of
the line, it attaches the connection to the session that was created, if the map still has it, and
otherwise says that there is no such session. -/
theorem connect_attaches {clock : ℤ} {o : Outside} {uid : ℕ} {req : HelperRequest}
    {idle : List IdleInfo} {port : UInt16} {certHash : FixedBytes 32}
    (hw : (world rp).Run Draws { clock } w)
    (hok : (w.daemon.createRest o uid req idle (Daemon.okBase port.toNat certHash)).1.ok = true)
    (hdraws : o.sessionId ∉ w.daemon.identities.map Prod.fst)
    (hrun : (world rp).Run Draws
      (w.act rp (.create uid req.cols req.rows o.sessionId o.sessionToken o.spawn)) w') :
    (∃ printed, connectOutput
        (w.daemon.createRest o uid req idle (Daemon.okBase port.toNat certHash)).1 = .ok printed ∧
      ∀ before after, (before = [] ∨ ∃ text, before = text ++ ['\n']) →
        (∀ l ∈ lines after, connectPrefix.isPrefixOf l = false) →
        readConnection (before ++ printed ++ after) = .ok (connectBits port certHash o)) ∧
    ∀ (σ : Type) (ext : Externals σ) (cols rows : UInt16) (predictNever : Bool) (now i : ℕ)
      (env : Env), w'.Faces i env ((Client.new ext (connectBits port certHash o).session
        (connectBits port certHash o).token cols.toNat rows.toNat predictNever).beginConnection
          now).outbound →
      ((∃ e ∈ w'.daemon.sessions, e.1 = o.sessionId) →
        ∃ k h, (w'.act rp (.turn i env)).stage i = .attached k h ∧
          w'.daemon.identities[k]? = some (o.sessionId, o.sessionToken, uid)) ∧
      ((¬∃ e ∈ w'.daemon.sessions, e.1 = o.sessionId) →
        ((w'.act rp (.turn i env)).conns i).written =
          (w'.conns i).written ++ encodeError 2 "unknown session") := by
  obtain ⟨hprinted, hcreated⟩ := Daemon.createRest_ok hok
  let created : Action := .create uid req.cols req.rows o.sessionId o.sessionToken o.spawn
  have horderly : Orderly w' :=
    ((orderly_start clock).run (hw.act created trivial hdraws)).run hrun
  have hmem : (o.sessionId, o.sessionToken, uid) ∈ w'.daemon.identities := by
    have hgrows : (w.act rp created).daemon.identities <+: w'.daemon.identities :=
      hrun.invariant (I := fun t => (w.act rp created).daemon.identities <+: t.daemon.identities)
        List.prefix_rfl fun t a _ ht hallows _ => ht.trans (act_keeps rp hallows).isPrefix
    exact hgrows.subset hcreated
  refine ⟨⟨_, hprinted, fun before after => readConnection_around _⟩, ?_⟩
  intro σ ext cols rows predictNever now i env hfaces
  let hello : Hello :=
    { protocol := protocolVersion, sessionId := o.sessionId, token := o.sessionToken
      cols := cols.toNat, rows := rows.toNat }
  have hhello : w'.Faces i env hello.encode := by
    rw [outbound_beginConnection] at hfaces
    exact hfaces
  obtain ⟨rest, hconns⟩ := hhello.turn rp
  have htyped : hello.Typed :=
    ⟨(by decide : protocolVersion < 2 ^ 16), cols.toNat_lt, rows.toNat_lt⟩
  have hnobody (u : ℕ) (hu : (none : Option ℕ) = some u) : u = uid := by cases hu
  obtain ⟨hthere, hgone⟩ := horderly.sessions.onHello_session hmem
    (rfl : hello.protocol = protocolVersion) htyped rfl rfl hnobody { w'.conns i with buf := rest }
  refine ⟨fun hsession => ?_, fun hnone => ?_⟩
  · obtain ⟨k, handler, hattached, hk⟩ := hthere hsession
    refine ⟨k, handler, ?_, hk⟩
    rw [World.stage, hconns, hattached]
  · rw [hconns, hgone hnone]
    rfl

/-- What is drawn for a session. -/
def offered : Outside where
  now := 0
  instant := 0
  nonce := constBytes 16 1
  sessionId := constBytes 16 2
  sessionToken := constBytes 32 3
  write := .ok ()
  spawn := .ok ()
  hash := .ok (constBytes 32 4)
  unixName := none

/-- The hello of its client. -/
def callerHello : Hello where
  protocol := protocolVersion
  sessionId := constBytes 16 2
  token := constBytes 32 3
  cols := 80
  rows := 24

/-- Its client as it begins. -/
def caller : Client Unit :=
  (Client.new .ascii offered.sessionId offered.sessionToken 80 24 false).beginConnection 0

/-- The daemon has created the session of `offered`, and its client has connected. -/
def called : World :=
  (world accepting).acts ((world accepting).act {}
      (.create 1000 0 0 offered.sessionId offered.sessionToken offered.spawn))
    [.accept 0, .receive 0 caller.outbound]

/-- The hypotheses of `connect_attaches` are satisfiable: the client gets the session. -/
theorem connect_attaches_called : ∃ k h,
    (called.act accepting (.turn 0 (smooth 5))).stage 0 = .attached k h ∧
      called.daemon.identities[k]? = some (offered.sessionId, offered.sessionToken, 1000) := by
  have hrun : (world accepting).Run Draws ((world accepting).act {}
      (.create 1000 0 0 offered.sessionId offered.sessionToken offered.spawn)) called :=
    Machine.run_acts ⟨rfl, trivial, trivial, trivial, trivial⟩
  have hbuf : (called.conns 0).buf = encodeFrame msgHello callerHello.payload := by
    decide +kernel
  have hframe : nextFrame (smooth 5).eof (called.conns 0).buf =
      .frame msgHello callerHello.payload [] := by
    rw [hbuf]
    exact nextFrame_encodeFrame (callerHello.length_payload.trans_lt (by decide)) _
  have hfaces : called.Faces 0 (smooth 5) caller.outbound :=
    ⟨rfl, _, _, _, [], [], hframe, rfl⟩
  have hok : (({} : World).daemon.createRest offered 1000 { op := "create" } []
      (Daemon.okBase (443 : UInt16).toNat (constBytes 32 4))).1.ok = true := rfl
  have hattaches := connect_attaches Machine.Run.refl hok (by decide) hrun
  have hthere : ∃ e ∈ called.daemon.sessions, e.1 = offered.sessionId := by decide +kernel
  exact (hattaches.2 Unit .ascii 80 24 false 0 0 (smooth 5) hfaces).1 hthere

end World
end Quosh
