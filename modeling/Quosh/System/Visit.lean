/-
# A browser's visit

A browser that signs in (`Quosh.Web.SignIn`) at the daemon (`Quosh.System.World`), on one of its
connections.  What the browser writes comes to the task of the connection in pieces, in order and
unchanged, and what the task writes comes to the browser so; either stream may end at any time.
Everything else about the daemon, all other connections and SSH, goes on as it likes.

`Phase` is how far the two have come together, from what the task has not taken yet, and what
the browser has not.  What happens at the daemon leaves them together (`Phase.act`), and what the
browser does too, unless it fails (`Phase.take`, `Phase.respond`, `Phase.join`, `Phase.say`).
-/

import Quosh.Client.Client
import Quosh.Server.Dialogue
import Quosh.System.Identities
import Quosh.Web.SignIn

namespace Quosh

open Bytes Web

/-! ### The machine -/

/-- The daemon and a browser; `delivered` counts what has come to the daemon of what the browser
has written, and `heard` what has come to the browser. -/
structure Visit where
  world : World
  browser : Browser
  delivered : ℕ := 0
  heard : ℕ := 0

/-- What can happen: something at the daemon, bytes arrive at either end, a stream ends for the
browser, its ceremony ends, and its client begins and writes. -/
inductive Visit.Action where
  | daemon (a : Quosh.Action)
  | deliver (n : ℕ)
  | hear (n : ℕ)
  | eof
  | respond (r : Except String Reply)
  | join (cols rows : UInt16)
  | say (bytes : Bytes)

namespace Visit

/-- What the task has written and the browser has not heard. -/
def unheard (v : Visit) (i : ℕ) : Bytes := (v.world.conns i).written.drop v.heard

/-- What the browser has written and has not been delivered. -/
def undelivered (v : Visit) : Bytes := v.browser.sent.drop v.delivered

/-- The state after an action. -/
def act (rp : Relying) (i : ℕ) (v : Visit) : Action → Visit
  | .daemon a => { v with world := v.world.act rp a }
  | .deliver n =>
    { v with
      world := v.world.act rp (.receive i (v.undelivered.take n))
      delivered := v.delivered + (v.undelivered.take n).length }
  | .hear n =>
    if v.browser.awaits then
      { v with
        browser := v.browser.read ((v.unheard i).take n)
        heard := v.heard + ((v.unheard i).take n).length }
    else v
  | .eof => { v with browser := v.browser.eof }
  | .respond r => { v with browser := v.browser.respond r }
  | .join cols rows => { v with browser := v.browser.join cols rows }
  | .say bytes => { v with browser := v.browser.say bytes }

/-- The connection has no bytes but those of the browser. -/
def Allows (i : ℕ) (v : Visit) : Action → Prop
  | .daemon a => v.world.Allows a ∧ ∀ bytes, a ≠ .receive i bytes
  | _ => True

/-- The generator draws no id of a session once more, and a user has a number of 32 bits. -/
def Draws (v : Visit) : Action → Prop
  | .daemon a => v.world.Draws a
  | _ => True

/-- A browser connects. -/
def start (rp : Relying) (i : ℕ) (w : World) (o : AuthOptions) : Visit where
  world := w.act rp (.accept i)
  browser := .start o

end Visit

/-- The daemon with a browser on a connection, as a machine. -/
def visits (rp : Relying) (i : ℕ) : Machine Visit Visit.Action where
  Allows := Visit.Allows i
  act := Visit.act rp i

namespace World

/-! ### How far the two have come -/

/-- What an answer says of the daemon that gave it: whom the token is for, that it was answered on
this connection, and whose the session is.  A session that was asked for is the one. -/
structure Granted (w : World) (i : ℕ) (hello : AuthHello) (a : AuthOk) : Prop where
  answered : (i, a.authToken) ∈ w.past.answered
  token : ∃ e, w.past.tokens a.authToken = some e ∧ e.uid = a.uid ∧ e.conn = i
  session : (a.sessionId, a.sessionToken, a.uid) ∈ w.daemon.identities
  asked : hello.sessionId.1 ≠ List.replicate 16 0 → a.sessionId = hello.sessionId
  fits : a.Fits
  typed : a.Typed

/-- A browser that waits for an answer: it has replied only where it was asked for a passkey, so
where `P` holds. -/
inductive Waits (P : Prop) : SignIn → Prop
  | asking : Waits P .asking
  | answering (hP : P) : Waits P .answering

/-- What comes to a browser from a task that is closed; it is asked for a passkey only where `P`
holds. -/
inductive Ends (w : World) (i : ℕ) (hello : AuthHello) (P : Prop) : Bytes → SignIn → Prop
  | asking {said : Bytes} (h : Handshake.Fails said) : Ends w i hello P said .asking
  | challenged (hP : P) (c : Challenge) (hfits : c.Fits) {said : Bytes}
    (h : Handshake.Fails said) :
    Ends w i hello P (encodeFrame msgChallenge c.payload ++ said) .asking
  | prompting (hP : P) (challenge : FixedBytes 32) (rpId : String) {said : Bytes}
    (h : Handshake.Fails said) : Ends w i hello P said (.prompting challenge rpId)
  | answering (hP : P) {said : Bytes} (h : Handshake.Fails said) :
    Ends w i hello P said .answering
  | granted (a : AuthOk) (h : Granted w i hello a) {b : SignIn} (hb : Waits P b) :
    Ends w i hello P (encodeFrame msgAuthOk a.payload) b
  | done (a : AuthOk) (h : Granted w i hello a) : Ends w i hello P [] (.done (.ok (.of a [])))
  | joined (a : AuthOk) (h : Granted w i hello a) (said : Bytes) :
    Ends w i hello P said (.joined (.of a []))

/-- How far a task and a browser have come together: the stage of the task and what it has yet to
take, what the browser has yet to hear, and where that is; the browser is asked for a passkey only
where `P` holds. -/
inductive Phase (w : World) (i : ℕ) (hello : AuthHello) (P : Prop) :
    Stage → Bytes → Bytes → SignIn → Prop
  | opening : Phase w i hello P .opening hello.encode [] .asking
  | working {s : Stage} (h : Handshake.working s = some hello) {b : SignIn} (hb : Waits P b) :
    Phase w i hello P s [] [] b
  | challenged (hP : P) (now : ℤ) (c : Challenge) (hfits : c.Fits) :
    Phase w i hello P (.replying hello now c.challenge) [] (encodeFrame msgChallenge c.payload)
      .asking
  | prompting (hP : P) (now : ℤ) (challenge : FixedBytes 32) (rpId : String) :
    Phase w i hello P (.replying hello now challenge) [] [] (.prompting challenge rpId)
  | answering (hP : P) (now : ℤ) (challenge : FixedBytes 32) {typ : UInt8} {payload : Bytes}
    (hlen : payload.length < maxFrame) :
    Phase w i hello P (.replying hello now challenge) (encodeFrame typ payload) [] .answering
  | granted (a : AuthOk) (h : Granted w i hello a) {b : SignIn} (hb : Waits P b) :
    Phase w i hello P (.authed a.uid) [] (encodeFrame msgAuthOk a.payload) b
  | done (a : AuthOk) (h : Granted w i hello a) :
    Phase w i hello P (.authed a.uid) [] [] (.done (.ok (.of a [])))
  | joined (a : AuthOk) (h : Granted w i hello a) (cols rows : UInt16) (more : Bytes) :
    Phase w i hello P (.authed a.uid) ((Browser.helloOf (.of a []) cols rows).encode ++ more) []
      (.joined (.of a []))
  | attached (a : AuthOk) (h : Granted w i hello a) (k : ℕ) (handler : Handler) (up : Bytes)
    (hk : w.daemon.identities[k]? = some (a.sessionId, a.sessionToken, a.uid)) :
    Phase w i hello P (.attached k handler) up [] (.joined (.of a []))
  | closed {down : Bytes} {b : SignIn} (up : Bytes) (h : Ends w i hello P down b) :
    Phase w i hello P .closed up down b

variable {rp : Relying} {w w' : World} {a : Quosh.Action} {i : ℕ} {hello : AuthHello}
  {P : Prop} {env : Env} {s : Stage} {up down : Bytes} {b : SignIn}

/-- An answer stays true. -/
theorem Granted.mono {m : AuthOk} (hgrows : Grows w.past w'.past)
    (hsessions : w.daemon.identities <+: w'.daemon.identities) (h : Granted w i hello m) :
    Granted w' i hello m where
  answered := hgrows.answered _ h.answered
  token := by
    obtain ⟨e, he, huid, hconn⟩ := h.token
    exact ⟨e, hgrows.tokens _ _ he, huid, hconn⟩
  session := hsessions.subset h.session
  asked := h.asked
  fits := h.fits
  typed := h.typed

/-- What comes to a browser stays true. -/
theorem Ends.mono (hgrows : Grows w.past w'.past)
    (hsessions : w.daemon.identities <+: w'.daemon.identities) (h : Ends w i hello P down b) :
    Ends w' i hello P down b := by
  cases h with
  | asking h => exact .asking h
  | challenged hP c hfits h => exact .challenged hP c hfits h
  | prompting hP challenge rpId h => exact .prompting hP challenge rpId h
  | answering hP h => exact .answering hP h
  | granted m h hb => exact .granted m (h.mono hgrows hsessions) hb
  | done m h => exact .done m (h.mono hgrows hsessions)
  | joined m h => exact .joined m (h.mono hgrows hsessions) _

/-- What others do leaves the two where they are. -/
theorem Phase.mono (hgrows : Grows w.past w'.past)
    (hsessions : w.daemon.identities <+: w'.daemon.identities)
    (h : Phase w i hello P s up down b) : Phase w' i hello P s up down b := by
  cases h with
  | opening => exact .opening
  | working h hb => exact .working h hb
  | challenged hP now c hfits => exact .challenged hP now c hfits
  | prompting hP now challenge rpId => exact .prompting hP now challenge rpId
  | answering hP now challenge hlen => exact .answering hP now challenge hlen
  | granted m h hb => exact .granted m (h.mono hgrows hsessions) hb
  | done m h => exact .done m (h.mono hgrows hsessions)
  | joined m h cols rows more => exact .joined m (h.mono hgrows hsessions) cols rows more
  | attached m h k handler up hk =>
    refine .attached m (h.mono hgrows hsessions) k handler up ?_
    obtain ⟨rest, hrest⟩ := hsessions
    rw [← hrest, List.getElem?_append_left (List.getElem?_eq_some_iff.1 hk).1]
    exact hk
  | closed up h => exact .closed up (h.mono hgrows hsessions)

/-! ### A turn of the task -/

/-- The connection after a turn of its task. -/
theorem conns_turn_self (rp : Relying) (w : World) (i : ℕ) (env : Env) :
    (w.act rp (.turn i env)).conns i = ((w.conns i).turn rp env w.daemon w.clock).2.1 :=
  Function.update_self ..

/-- The answer of a sound daemon is true. -/
theorem granted_turn (hsound : Sound w) (htraced : Traced w) (horderly : Orderly w)
    (hallows : w.Allows (.turn i env))
    {cols rows : ℕ} {m : AuthOk} {spawned : Option ℕ} {d' : Daemon} {c' : Handshake}
    (hstage : w.stage i = .resolving hello m.uid m.authToken) (hfits : m.Fits)
    (hresolve : resolveSession w.daemon env m.uid hello cols rows =
      (.ok (m.sessionId, m.sessionToken), d'))
    (hturn : (w.conns i).turn rp env w.daemon w.clock = (d', c', .resolved spawned true)) :
    Granted (w.act rp (.turn i env)) i hello m := by
  obtain ⟨e, he, huid, hconn⟩ : ∃ e, w.past.tokens m.authToken = some e ∧ e.uid = m.uid ∧
      e.conn = i := by
    have hi := hsound.conns i
    rw [hstage] at hi
    exact hi
  have hgrows : Grows w.past (w.act rp (.turn i env)).past := (World.change hallows).grows
  have hdaemon : (w.act rp (.turn i env)).daemon = d' :=
    congrArg Prod.fst hturn
  obtain ⟨hmem, hasked⟩ := horderly.sessions.resolveSession_eq_ok hresolve
  refine ⟨?_, ⟨e, hgrows.tokens _ _ he, huid, hconn⟩, hdaemon ▸ hmem, hasked, hfits, ?_⟩
  · show (i, m.authToken) ∈ ((w.past.record i w.clock (w.stage i)
      ((w.conns i).turn rp env w.daemon w.clock).2.2).tick).answered
    rw [hturn, hstage]
    exact List.mem_append_right _ (List.mem_singleton_self _)
  · show m.uid < 2 ^ 32
    rw [← huid]
    exact horderly.uid_lt htraced he

/-- The task says something, and has come as far as this with the browser. -/
def Comes (w w' : World) (i : ℕ) (hello : AuthHello) (P : Prop) (ahead down : Bytes)
    (b : SignIn) : Prop :=
  ∃ said, (w'.conns i).written = (w.conns i).written ++ said ∧
    Phase w' i hello P (w'.stage i) ((w'.conns i).buf ++ ahead) (down ++ said) b

section Turn

variable {ahead : Bytes}

/-- What a turn says, and where it leads. -/
theorem Comes.of_turn {c' : Handshake} {said : Bytes}
    (hturn : ((w.conns i).turn rp env w.daemon w.clock).2.1 = c')
    (hwritten : c'.written = (w.conns i).written ++ said)
    (h : Phase (w.act rp (.turn i env)) i hello P c'.stage (c'.buf ++ ahead) (down ++ said) b) :
    Comes w (w.act rp (.turn i env)) i hello P ahead down b := by
  have hconns : (w.act rp (.turn i env)).conns i = c' := by rw [conns_turn_self, hturn]
  refine ⟨said, ?_, ?_⟩
  · rw [hconns, hwritten]
  · rw [World.stage, hconns]
    exact h

/-- A turn in which the task waits, or closes without a word. -/
theorem Comes.of_quiet {c' : Handshake}
    (hturn : ((w.conns i).turn rp env w.daemon w.clock).2.1 = c')
    (hwritten : c'.written = (w.conns i).written)
    (h : Phase (w.act rp (.turn i env)) i hello P c'.stage (c'.buf ++ ahead) down b) :
    Comes w (w.act rp (.turn i env)) i hello P ahead down b := by
  have hnothing : c'.written = (w.conns i).written ++ [] := by rw [hwritten, List.append_nil]
  refine .of_turn hturn hnothing ?_
  rwa [List.append_nil]

/-- A turn in which the task closes without a word. -/
theorem Comes.of_close
    (hturn : ((w.conns i).turn rp env w.daemon w.clock).2.1 = (w.conns i).close)
    (hends : Ends (w.act rp (.turn i env)) i hello P down b) :
    Comes w (w.act rp (.turn i env)) i hello P ahead down b :=
  .of_quiet hturn rfl (.closed _ hends)

/-- A turn of a task that works on its answer, or begins to.  It goes on silently, fails
with what a failure says, or grants the sign-in with an answer that is true
(`granted_turn`). -/
theorem Comes.of_works {c : Handshake}
    (hworks : c.Works env w.daemon hello ((w.conns i).turn rp env w.daemon w.clock))
    (hsound : Sound w) (htraced : Traced w) (horderly : Orderly w)
    (hallows : w.Allows (.turn i env)) (hbuf : c.buf ++ ahead = [])
    (hwritten : c.written = (w.conns i).written) (hstage : c.stage = w.stage i)
    (hb : Waits P b) :
    Comes w (w.act rp (.turn i env)) i hello P ahead [] b := by
  generalize hturn : (w.conns i).turn rp env w.daemon w.clock = r at hworks
  have hself : ((w.conns i).turn rp env w.daemon w.clock).2.1 = r.2.1 := by rw [hturn]
  cases hworks with
  | works s hs =>
    refine .of_quiet hself hwritten ?_
    dsimp only
    rw [hbuf]
    exact .working hs hb
  | fails said hfails =>
    refine .of_turn hself (congrArg (· ++ said) hwritten) ?_
    cases hb with
    | asking => exact .closed _ (.asking hfails)
    | answering hP => exact .closed _ (.answering hP hfails)
  | grants cols rows m hresolving hfits hresolve =>
    refine .of_turn hself (congrArg (· ++ _) hwritten) ?_
    dsimp only
    rw [hbuf]
    exact .granted m (granted_turn hsound htraced horderly hallows (hstage ▸ hresolving) hfits
      hresolve hturn) hb

/-- A turn in which the task says that it failed. -/
theorem Comes.of_sendFail {c : Handshake} {reason : String}
    (hwritten : c.written = (w.conns i).written)
    (hturn : ((w.conns i).turn rp env w.daemon w.clock).2.1 = c.sendFail reason)
    (hends : ∀ said, Handshake.Fails said →
      Ends (w.act rp (.turn i env)) i hello P (down ++ said) b) :
    Comes w (w.act rp (.turn i env)) i hello P ahead down b := by
  obtain ⟨said, hfails, heq⟩ := c.sendFail_says reason
  exact .of_turn (hturn.trans heq) (congrArg (· ++ said) hwritten) (.closed _ (hends said hfails))

/-- **A client that presents the session of an answer** is let in, or there is no session. -/
theorem onHello_granted (horderly : Orderly w) {m : AuthOk} (hm : Granted w i hello m)
    (cols rows : UInt16) (c : Handshake) :
    ((∃ e ∈ w.daemon.sessions, e.1 = m.sessionId) →
      ∃ k handler, (Handshake.onHello w.daemon c (some m.uid) msgHello
        (Browser.helloOf (.of m []) cols rows).payload).2.1 =
          { c with stage := .attached k handler } ∧
        w.daemon.identities[k]? = some (m.sessionId, m.sessionToken, m.uid)) ∧
    ((¬∃ e ∈ w.daemon.sessions, e.1 = m.sessionId) →
      (Handshake.onHello w.daemon c (some m.uid) msgHello
        (Browser.helloOf (.of m []) cols rows).payload).2.1 = c.reject 2 "unknown session") :=
  horderly.sessions.onHello_session hm.session rfl
    ⟨(by decide : protocolVersion < 2 ^ 16), cols.toNat_lt, rows.toNat_lt⟩ rfl rfl
    (fun _ huid => (Option.some.inj huid).symm) c

/-- The hello presents a token that is live. -/
def Presents (w : World) (hello : AuthHello) : Prop :=
  hello.authToken.1 ≠ List.replicate 32 0 ∧
    w.daemon.devices.validateToken hello.authToken w.clock ≠ none

/-- A turn in which the task waits leaves the two where they are. -/
theorem Phase.keep (hallows : w.Allows (.turn i env))
    (h : Phase w i hello P (w.stage i) ((w.conns i).buf ++ ahead) down b)
    (hturn : ((w.conns i).turn rp env w.daemon w.clock).2.1 = w.conns i) :
    Comes w (w.act rp (.turn i env)) i hello P ahead down b :=
  .of_quiet hturn rfl (h.mono (World.change hallows).grows (act_keeps rp hallows).isPrefix)

/-- **A task that begins** takes the hello of the browser, when it is all there.  Until then
it waits; then it works on an answer at once, for a token that is live, or asks for a
passkey. -/
theorem Comes.of_opening (hsound : Sound w) (htraced : Traced w) (horderly : Orderly w)
    (htyped : hello.Typed) (hallows : w.Allows (.turn i env)) (hpresents : P ∨ w.Presents hello)
    (hstage : w.stage i = .opening) (hup : (w.conns i).buf ++ ahead = hello.encode) :
    Comes w (w.act rp (.turn i env)) i hello P ahead [] .asking := by
  have hopening : (w.conns i).stage = .opening := hstage
  have hturn : (w.conns i).turn rp env w.daemon w.clock =
    (w.conns i).turn rp env w.daemon w.clock := rfl
  conv_rhs at hturn =>
    unfold Handshake.turn
    rw [hopening]
  dsimp only at hturn
  cases hframe : nextFrame env.eof (w.conns i).buf with
  | wait =>
    rw [hframe] at hturn
    refine Phase.keep hallows ?_ (by rw [hturn])
    rw [hstage, hup]
    exact .opening
  | failed e =>
    rw [hframe] at hturn
    exact .of_close (by rw [hturn]) (.asking .silent)
  | frame typ payload rest =>
    have hencode : (w.conns i).buf ++ ahead = encodeFrame msgAuthHello hello.payload ++ [] := by
      rw [hup, List.append_nil]
      rfl
    obtain ⟨rfl, rfl, hrest⟩ :=
      eq_of_nextFrame_append hframe (hello.length_payload.trans_lt (by decide)) hencode
    rw [hframe] at hturn
    dsimp only at hturn
    rw [if_pos rfl] at hturn
    rcases Handshake.onAuthHello_says rp env w.daemon
      { buf := rest, stage := .opening, written := (w.conns i).written } w.clock
      ((AuthHello.decode_iff _ _).2 ⟨htyped, rfl⟩) with
      hworks | ⟨hdead, m, hfits, hm⟩
    · rw [← hturn] at hworks
      exact .of_works hworks hsound htraced horderly hallows hrest rfl hstage.symm .asking
    · rw [← hturn] at hm
      have hP : P := hpresents.resolve_right fun hlive => hdead.elim hlive.1 hlive.2
      refine .of_turn hm rfl ?_
      dsimp only
      rw [hrest]
      exact .challenged hP w.clock m hfits

/-- A task that has asked for a passkey, and has nothing in front of it. -/
theorem Comes.of_replying {now : ℤ} {challenge : FixedBytes 32}
    (hallows : w.Allows (.turn i env)) (hstage : w.stage i = .replying hello now challenge)
    (hup : (w.conns i).buf ++ ahead = [])
    (h : Phase w i hello P (.replying hello now challenge) [] down b)
    (hends : ∀ said, Handshake.Fails said →
      Ends (w.act rp (.turn i env)) i hello P (down ++ said) b) :
    Comes w (w.act rp (.turn i env)) i hello P ahead down b := by
  have hreplying : (w.conns i).stage = .replying hello now challenge := hstage
  have hturn : (w.conns i).turn rp env w.daemon w.clock =
    (w.conns i).turn rp env w.daemon w.clock := rfl
  conv_rhs at hturn =>
    unfold Handshake.turn
    rw [hreplying]
  dsimp only at hturn
  cases hframe : nextFrame env.eof (w.conns i).buf with
  | wait =>
    rw [hframe] at hturn
    refine Phase.keep hallows ?_ (by rw [hturn])
    rwa [hstage, hup]
  | failed e =>
    rw [hframe] at hturn
    exact .of_sendFail rfl (by rw [hturn]) hends
  | frame typ payload rest =>
    exact absurd (List.append_eq_nil_iff.1 hup).1 (ne_nil_of_nextFrame hframe)

/-- **A task that has asked for a passkey** takes the reply of the browser, when it is all
there. -/
theorem Comes.of_answering {now : ℤ} {challenge : FixedBytes 32} {typ₀ : UInt8}
    {payload₀ : Bytes} (hsound : Sound w) (htraced : Traced w) (horderly : Orderly w)
    (hallows : w.Allows (.turn i env)) (hP : P)
    (hstage : w.stage i = .replying hello now challenge) (hlen : payload₀.length < maxFrame)
    (hup : (w.conns i).buf ++ ahead = encodeFrame typ₀ payload₀) :
    Comes w (w.act rp (.turn i env)) i hello P ahead [] .answering := by
  have hreplying : (w.conns i).stage = .replying hello now challenge := hstage
  have hturn : (w.conns i).turn rp env w.daemon w.clock =
    (w.conns i).turn rp env w.daemon w.clock := rfl
  conv_rhs at hturn =>
    unfold Handshake.turn
    rw [hreplying]
  dsimp only at hturn
  cases hframe : nextFrame env.eof (w.conns i).buf with
  | wait =>
    rw [hframe] at hturn
    refine Phase.keep hallows ?_ (by rw [hturn])
    rw [hstage, hup]
    exact .answering hP now challenge hlen
  | failed e =>
    rw [hframe] at hturn
    exact .of_sendFail rfl (by rw [hturn]) fun said hfails => .answering hP hfails
  | frame typ payload rest =>
    have hencode : (w.conns i).buf ++ ahead = encodeFrame typ₀ payload₀ ++ [] := by
      rw [hup, List.append_nil]
    obtain ⟨rfl, rfl, hrest⟩ := eq_of_nextFrame_append hframe hlen hencode
    rw [hframe] at hturn
    dsimp only at hturn
    have hworks := Handshake.onReply_says rp env w.daemon
      { buf := rest, stage := .replying hello now challenge, written := (w.conns i).written }
      hello now challenge typ payload
    rw [← hturn] at hworks
    exact .of_works hworks hsound htraced horderly hallows hrest rfl hstage.symm (.answering hP)

/-- A task that has answered, and has nothing in front of it. -/
theorem Comes.of_authed {uid : ℕ} (hallows : w.Allows (.turn i env))
    (hstage : w.stage i = .authed uid) (hup : (w.conns i).buf ++ ahead = [])
    (h : Phase w i hello P (.authed uid) [] down b)
    (hends : Ends (w.act rp (.turn i env)) i hello P down b) :
    Comes w (w.act rp (.turn i env)) i hello P ahead down b := by
  have hauthed : (w.conns i).stage = .authed uid := hstage
  have hturn : (w.conns i).turn rp env w.daemon w.clock =
    (w.conns i).turn rp env w.daemon w.clock := rfl
  conv_rhs at hturn =>
    unfold Handshake.turn
    rw [hauthed]
  dsimp only at hturn
  cases hframe : nextFrame env.eof (w.conns i).buf with
  | wait =>
    rw [hframe] at hturn
    refine Phase.keep hallows ?_ (by rw [hturn])
    rwa [hstage, hup]
  | failed e =>
    rw [hframe] at hturn
    exact .of_close (by rw [hturn]) hends
  | frame typ payload rest =>
    exact absurd (List.append_eq_nil_iff.1 hup).1 (ne_nil_of_nextFrame hframe)

/-- **A task that has answered** takes the hello that the browser's client has sent, when it is
all there, and lets it in if the session is there. -/
theorem Comes.of_joined (horderly : Orderly w) (hallows : w.Allows (.turn i env)) {m : AuthOk}
    (hm : Granted w i hello m) (cols rows : UInt16) {more : Bytes}
    (hstage : w.stage i = .authed m.uid)
    (hup : (w.conns i).buf ++ ahead = (Browser.helloOf (.of m []) cols rows).encode ++ more) :
    Comes w (w.act rp (.turn i env)) i hello P ahead [] (.joined (.of m [])) := by
  have hsessions : w.daemon.identities <+: (w.act rp (.turn i env)).daemon.identities :=
    (act_keeps rp hallows).isPrefix
  have hm' : Granted (w.act rp (.turn i env)) i hello m :=
    hm.mono (World.change hallows).grows hsessions
  have hauthed : (w.conns i).stage = .authed m.uid := hstage
  have hturn : (w.conns i).turn rp env w.daemon w.clock =
    (w.conns i).turn rp env w.daemon w.clock := rfl
  conv_rhs at hturn =>
    unfold Handshake.turn
    rw [hauthed]
  dsimp only at hturn
  cases hframe : nextFrame env.eof (w.conns i).buf with
  | wait =>
    rw [hframe] at hturn
    refine Phase.keep hallows ?_ (by rw [hturn])
    rw [hstage, hup]
    exact .joined m hm cols rows more
  | failed e =>
    rw [hframe] at hturn
    exact .of_close (by rw [hturn]) (.joined m hm' _)
  | frame typ payload rest =>
    obtain ⟨rfl, rfl, hrest⟩ := eq_of_nextFrame_append hframe
      ((Hello.length_payload _).trans_lt (by decide)) hup
    rw [hframe] at hturn
    dsimp only at hturn
    obtain ⟨hthere, hgone⟩ := onHello_granted horderly hm cols rows
      { buf := rest, stage := .authed m.uid, written := (w.conns i).written }
    by_cases hsession : ∃ e ∈ w.daemon.sessions, e.1 = m.sessionId
    · obtain ⟨k, handler, hattached, hk⟩ := hthere hsession
      rw [← hturn] at hattached
      refine .of_quiet hattached rfl (.attached m hm' k handler _ ?_)
      obtain ⟨later, hlater⟩ := hsessions
      rw [← hlater, List.getElem?_append_left (List.getElem?_eq_some_iff.1 hk).1, hk]
    · have hrejected := hgone hsession
      rw [← hturn] at hrejected
      exact .of_turn hrejected rfl (.closed _ (.joined m hm' _))

/-- A task that is attached or closed does nothing in a turn. -/
theorem turn_rest (h : (∃ k handler, w.stage i = .attached k handler) ∨ w.stage i = .closed) :
    ((w.conns i).turn rp env w.daemon w.clock).2.1 = w.conns i := by
  have hrest : (∃ k handler, (w.conns i).stage = .attached k handler) ∨
    (w.conns i).stage = .closed := h
  unfold Handshake.turn
  rcases hrest with ⟨k, handler, hstage⟩ | hstage
  · rw [hstage]
  · rw [hstage]

/-- **Every turn of the task leaves the two together.**  The phase names the stage of the
task, and each stage has its lemma; a task that is attached or closed takes no more turns in
a handshake. -/
theorem Phase.turn (hsound : Sound w) (htraced : Traced w) (horderly : Orderly w)
    (htyped : hello.Typed) (hallows : w.Allows (.turn i env))
    (hpresents : P ∨ (w.stage i = .opening → w.Presents hello))
    (h : Phase w i hello P (w.stage i) ((w.conns i).buf ++ ahead) down b) :
    Comes w (w.act rp (.turn i env)) i hello P ahead down b := by
  have hgranted {m : AuthOk} (hm : Granted w i hello m) :
      Granted (w.act rp (.turn i env)) i hello m :=
    hm.mono (World.change hallows).grows (act_keeps rp hallows).isPrefix
  have hphase := h
  generalize hup : (w.conns i).buf ++ ahead = up at h
  generalize hstage : w.stage i = s at h
  cases h with
  | opening =>
    exact .of_opening hsound htraced horderly htyped hallows
      (hpresents.imp_right fun hlive => hlive hstage) hstage hup
  | working hs hb =>
    rw [← hstage] at hs
    exact .of_works (Handshake.turn_works rp env w.daemon w.clock hs) hsound htraced horderly
      hallows hup rfl rfl hb
  | challenged hP now m hfits =>
    exact .of_replying hallows hstage hup (.challenged hP now m hfits)
      fun said hfails => .challenged hP m hfits hfails
  | prompting hP now challenge rpId =>
    exact .of_replying hallows hstage hup (.prompting hP now challenge rpId)
      fun said hfails => .prompting hP challenge rpId hfails
  | answering hP now challenge hlen =>
    exact .of_answering hsound htraced horderly hallows hP hstage hlen hup
  | granted m hm hb =>
    exact .of_authed hallows hstage hup (.granted m hm hb) (.granted m (hgranted hm) hb)
  | done m hm => exact .of_authed hallows hstage hup (.done m hm) (.done m (hgranted hm))
  | joined m hm cols rows more => exact .of_joined horderly hallows hm cols rows hstage hup
  | attached m hm k handler up hk =>
    exact hphase.keep hallows (turn_rest (.inl ⟨k, handler, hstage⟩))
  | closed up hends => exact hphase.keep hallows (turn_rest (.inr hstage))

/-- A part of the loop of an attached connection. -/
theorem conns_serve (rp : Relying) (w : World) (i : ℕ) (b : Branch) :
    (w.act rp (.serve i b)).conns i = w.conns i ∨
      ∃ k h s, w.stage i = .attached k h ∧ (s = .closed ∨ ∃ h', s = .attached k h') ∧
        (w.act rp (.serve i b)).conns i = { w.conns i with stage := s } := by
  show (w.serve i b).conns i = w.conns i ∨ ∃ k h s, _ ∧ _ ∧ (w.serve i b).conns i = _
  unfold World.serve
  split
  · rename_i k h hstage
    split
    · exact .inl rfl
    · refine .inr ⟨k, h, _, hstage, ?_, Function.update_self ..⟩
      split
      · exact .inr ⟨_, rfl⟩
      · exact .inl rfl
  · exact .inl rfl

/-- **Whatever happens at the daemon leaves the two together.**  Only what happens on the
connection of the browser counts: a turn of its task, or a branch of the loop once it is
attached. -/
theorem Phase.act {a : Quosh.Action} (hsound : Sound w) (htraced : Traced w)
    (horderly : Orderly w) (htyped : hello.Typed) (hallows : w.Allows a)
    (hreceive : ∀ bytes, a ≠ .receive i bytes)
    (hpresents : P ∨ (w.stage i = .opening → w.Presents hello))
    (h : Phase w i hello P (w.stage i) ((w.conns i).buf ++ ahead) down b) :
    Comes w (w.act rp a) i hello P ahead down b := by
  have hgrows : Grows w.past (w.act rp a).past := (World.change hallows).grows
  have hsessions : w.daemon.identities <+: (w.act rp a).daemon.identities :=
    (act_keeps rp hallows).isPrefix
  have hsame (hconns : (w.act rp a).conns i = w.conns i) :
      Comes w (w.act rp a) i hello P ahead down b := by
    refine ⟨[], by rw [hconns, List.append_nil], ?_⟩
    rw [World.stage, hconns, List.append_nil]
    exact h.mono hgrows hsessions
  by_cases hconn : a.conn = some i
  · cases a with
    | accept j =>
      obtain rfl := Option.some.inj hconn
      have hidle : w.stage j = .idle := hallows
      rw [hidle] at h
      generalize (w.conns j).buf ++ ahead = up at h
      cases h with
      | working hs hb => cases hs
    | receive j bytes =>
      obtain rfl := Option.some.inj hconn
      exact absurd rfl (hreceive bytes)
    | turn j env =>
      obtain rfl := Option.some.inj hconn
      exact h.turn hsound htraced horderly htyped hallows hpresents
    | serve j branch =>
      obtain rfl := Option.some.inj hconn
      rcases conns_serve rp w j branch with hconns | ⟨k, handler, s, hstage, hs, hconns⟩
      · exact hsame hconns
      · refine ⟨[], by rw [hconns, List.append_nil], ?_⟩
        rw [World.stage, hconns, List.append_nil]
        rw [hstage] at h
        have h' := h.mono hgrows hsessions
        generalize (w.conns j).buf ++ ahead = up at h'
        cases h' with
        | working hs hb => cases hs
        | attached m hm k handler up hk =>
          rcases hs with rfl | ⟨handler', rfl⟩
          · exact .closed _ (.joined m hm _)
          · exact .attached m hm k handler' _ hk
    | _ => cases hconn
  · exact hsame (conns_act rp w hconn)

end Turn

/-! ### What the browser does -/

/-- Why a browser fails: for a reason of its own, or because the daemon has dropped it. -/
inductive Fair (o : AuthOptions) (s : Stage) : AuthError → Prop
  | closed : Fair o s .closed
  | unsent (message : String) : Fair o s (.unsent message)
  | needsPasskey (h : o.ceremony = false) : Fair o s .needsPasskey
  | rejected (reason : String) (h : s = .closed) : Fair o s (.rejected reason)

section Browser

variable {br : Browser} {ahead : Bytes}

/-- What `runAuth` makes of what there is: it is together with the task, or has failed, and over its
ceremony only where it was asked for one. -/
def Stands (w : World) (i : ℕ) (hello : AuthHello) (P : Prop) (s : Stage) (up ahead : Bytes)
    (br : Browser) : Prop :=
  (Phase w i hello P s up (br.fb.buf ++ ahead) br.stage ∧ br.Settled) ∨
    ∃ e, br.stage = .done (.error e) ∧ Fair br.options s e ∧ (e.ofCeremony = true → P)

/-- Nothing is to come. -/
theorem Stands.of_nil (h : Phase w i hello P s up down br.stage) (hdown : br.fb.buf ++ ahead = down)
    (hnil : down = []) : Stands w i hello P s up ahead br.take := by
  subst hdown
  have hsettled : br.Settled := fun _ => take_of_nil (List.append_eq_nil_iff.1 hnil).1
  rw [Browser.take_eq_self hsettled]
  exact .inl ⟨h, hsettled⟩

/-- A frame is to come, and is there or is not. -/
theorem Stands.of_frame {typ : UInt8} {payload x : Bytes}
    (h : Phase w i hello P s up down br.stage) (hdown : br.fb.buf ++ ahead = down)
    (hframe : down = encodeFrame typ payload ++ x) (hlen : payload.length < maxFrame)
    (htake : ∀ fb, br.fb.take = (.ok (some (typ, payload)), fb) → fb.buf ++ ahead = x →
      Stands w i hello P s up ahead br.take) : Stands w i hello P s up ahead br.take := by
  subst hdown
  rcases take_append hlen hframe with hnone | ⟨fb, hsome, hrest⟩
  · rw [Browser.take_eq_self fun _ => hnone]
    exact .inl ⟨h, fun _ => hnone⟩
  · exact htake fb hsome hrest

/-- What is made of the frame that decides. -/
theorem take_of_decides {f : Frame} {fb : FrameBuffer}
    (hb : Waits P br.stage) (htake : br.fb.take = (.ok (some f), fb))
    (htyp : f.1 ≠ msgChallenge) :
    br.take = { br with fb, stage := .done (verdict f fb.buf) } := by
  unfold Browser.take
  generalize br.stage = b at hb
  cases hb with
  | asking =>
    dsimp only
    rw [htake]
    dsimp only
    unfold Browser.onFirst
    rw [if_neg htyp]
  | answering =>
    dsimp only
    rw [htake]

/-- The task says why it failed, or nothing. -/
theorem Stands.of_fails (h : Phase w i hello P .closed up down br.stage)
    (hdown : br.fb.buf ++ ahead = down) (hfails : Handshake.Fails down)
    (hb : Waits P br.stage) :
    Stands w i hello P .closed up ahead br.take := by
  cases hfails with
  | silent => exact .of_nil h hdown rfl
  | reason m hfits =>
    refine .of_frame h hdown (List.append_nil _).symm (AuthFail.length_payload_lt hfits)
      fun fb htake hrest => ?_
    rw [take_of_decides hb htake (by decide : msgAuthFail ≠ msgChallenge)]
    refine .inr ⟨.rejected m.reason, ?_, .rejected _ rfl, by intro h; cases h⟩
    have hdecode : AuthFail.decode m.payload = .ok m :=
      (AuthFail.inverts_read.complete_iff .frame).2 ⟨hfits, rfl⟩
    unfold verdict
    rw [if_pos rfl, hdecode]

/-- The answer. -/
theorem Stands.of_granted {m : AuthOk} (h : Phase w i hello P s up down br.stage)
    (hdown : br.fb.buf ++ ahead = down) (hm : Granted w i hello m)
    (hframe : down = encodeFrame msgAuthOk m.payload)
    (hb : Waits P br.stage)
    (hdone : Phase w i hello P s up [] (.done (.ok (.of m [])))) :
    Stands w i hello P s up ahead br.take := by
  refine .of_frame h hdown (hframe.trans (List.append_nil _).symm)
    (AuthOk.length_payload_lt hm.fits) fun fb htake hrest => ?_
  have hdecode : AuthOk.decode m.payload = .ok m :=
    (AuthOk.inverts_read.complete_iff .frame).2 ⟨⟨hm.typed, hm.fits⟩, rfl⟩
  have hverdict : verdict (msgAuthOk, m.payload) fb.buf = .ok (.of m []) := by
    unfold verdict
    rw [if_neg (by decide : msgAuthOk ≠ msgAuthFail),
      if_neg (not_not.2 rfl), hdecode, (List.append_eq_nil_iff.1 hrest).1]
  rw [take_of_decides hb htake (by decide : msgAuthOk ≠ msgChallenge), hverdict]
  refine .inl ⟨?_, fun hawaits => by cases hawaits⟩
  dsimp only
  rw [hrest]
  exact hdone

/-- The challenge. -/
theorem Stands.of_challenged {m : Challenge} {x : Bytes}
    (h : Phase w i hello P s up down br.stage) (hdown : br.fb.buf ++ ahead = down)
    (hP : P) (hfits : m.Fits)
    (hframe : down = encodeFrame msgChallenge m.payload ++ x) (hb : br.stage = .asking)
    (hprompting : Phase w i hello P s up x (.prompting m.challenge m.rpId)) :
    Stands w i hello P s up ahead br.take := by
  refine .of_frame h hdown hframe (Challenge.length_payload_lt hfits) fun fb htake hrest => ?_
  have hdecode : Challenge.decode m.payload = .ok m :=
    (Challenge.inverts_read.complete_iff .frame).2 ⟨hfits, rfl⟩
  unfold Browser.take
  rw [hb]
  dsimp only
  rw [htake]
  dsimp only
  unfold Browser.onFirst
  rw [if_pos rfl, hdecode]
  split
  · rename_i hceremony
    exact .inr ⟨_, rfl, .needsPasskey hceremony, fun _ => hP⟩
  · refine .inl ⟨?_, fun hawaits => by cases hawaits⟩
    dsimp only
    rw [hrest]
    exact hprompting

/-- **What `runAuth` takes leaves the two together.**  It waits in three stages only; there
the phase says which message is on its way, if any, so it takes that one, or the error of a
task that failed. -/
theorem Phase.take (h : Phase w i hello P s up down br.stage) (hdown : br.fb.buf ++ ahead = down) :
    Stands w i hello P s up ahead br.take := by
  have hquiet (hawaits : br.stage.awaits = false) : Stands w i hello P s up ahead br.take := by
    have hsettled : br.Settled := fun hawaits' => by
      unfold Browser.awaits at hawaits'
      rw [hawaits] at hawaits'
      cases hawaits'
    rw [Browser.take_eq_self hsettled]
    exact .inl ⟨hdown ▸ h, hsettled⟩
  generalize hb : br.stage = b at h
  have h' : Phase w i hello P s up down br.stage := hb ▸ h
  cases h with
  | opening => exact .of_nil h' hdown rfl
  | working hs hb' => exact .of_nil h' hdown rfl
  | challenged hP now m hfits =>
    exact .of_challenged h' hdown hP hfits (List.append_nil _).symm hb (.prompting hP now _ _)
  | prompting hP now challenge rpId => exact hquiet (by rw [hb]; rfl)
  | answering hP now challenge hlen => exact .of_nil h' hdown rfl
  | granted m hm hb' => exact .of_granted h' hdown hm rfl (hb ▸ hb') (.done m hm)
  | done m hm => exact hquiet (by rw [hb]; rfl)
  | joined m hm cols rows more => exact hquiet (by rw [hb]; rfl)
  | attached m hm k handler up hk => exact hquiet (by rw [hb]; rfl)
  | closed up hends =>
    cases hends with
    | asking hfails => exact .of_fails h' hdown hfails (hb ▸ .asking)
    | challenged hP m hfits hfails =>
      exact .of_challenged h' hdown hP hfits rfl hb (.closed up (.prompting hP _ _ hfails))
    | prompting hP challenge rpId hfails => exact hquiet (by rw [hb]; rfl)
    | answering hP hfails => exact .of_fails h' hdown hfails (hb ▸ .answering hP)
    | granted m hm hb' => exact .of_granted h' hdown hm rfl (hb ▸ hb') (.closed up (.done m hm))
    | done m hm => exact hquiet (by rw [hb]; rfl)
    | joined m hm => exact hquiet (by rw [hb]; rfl)

/-- A browser whose ceremony goes on was asked for it. -/
theorem Phase.prompted {challenge : FixedBytes 32} {rpId : String}
    (h : Phase w i hello P s up down (.prompting challenge rpId)) : P := by
  cases h with
  | working hs hb => cases hb
  | prompting hP now challenge rpId => exact hP
  | granted m hm hb => cases hb
  | closed up hends =>
    cases hends with
    | prompting hP challenge rpId hfails => exact hP
    | granted m hm hb => cases hb

/-- The browser replies. -/
theorem Phase.respond {challenge : FixedBytes 32} {rpId : String} {typ : UInt8} {payload : Bytes}
    (h : Phase w i hello P s up down (.prompting challenge rpId))
    (hlen : payload.length < maxFrame) :
    Phase w i hello P s (up ++ encodeFrame typ payload) down .answering := by
  cases h with
  | working hs hb => cases hb
  | prompting hP now challenge rpId => exact .answering hP now challenge hlen
  | granted m hm hb => cases hb
  | closed up hends =>
    cases hends with
    | prompting hP challenge rpId hfails => exact .closed _ (.answering hP hfails)
    | granted m hm hb => cases hb

/-- The client of the browser begins. -/
theorem Phase.join {r : AuthResult} (h : Phase w i hello P s up down (.done (.ok r)))
    (cols rows : UInt16) :
    Phase w i hello P s (up ++ (Browser.helloOf r cols rows).encode) down (.joined r) := by
  cases h with
  | working hs hb => cases hb
  | granted m hm hb => cases hb
  | done m hm =>
    have hjoined := Phase.joined (P := P) m hm cols rows []
    rwa [List.append_nil] at hjoined
  | closed up hends =>
    cases hends with
    | granted m hm hb => cases hb
    | done m hm => exact .closed _ (.joined m hm _)

/-- The client writes. -/
theorem Phase.say {r : AuthResult} (h : Phase w i hello P s up down (.joined r)) (bytes : Bytes) :
    Phase w i hello P s (up ++ bytes) down (.joined r) := by
  cases h with
  | working hs hb => cases hb
  | granted m hm hb => cases hb
  | joined m hm cols rows more =>
    rw [List.append_assoc]
    exact .joined m hm cols rows (more ++ bytes)
  | attached m hm k handler up hk => exact .attached m hm k handler _ hk
  | closed up hends =>
    cases hends with
    | granted m hm hb => cases hb
    | joined m hm => exact .closed _ (.joined m hm _)

end Browser

/-- A connection that is closed stays so. -/
theorem closed_act {a : Quosh.Action} (hallows : w.Allows a) (h : w.stage i = .closed) :
    (w.act rp a).stage i = .closed := by
  by_contra hne
  have hmoves : (w.act rp a).stage i ≠ w.stage i := by rwa [h]
  obtain ⟨env, rfl, hstage⟩ := exists_turn rp hallows hmoves (by rw [h]; intro h; cases h)
    fun k handler => by rw [h]; intro h; cases h
  have hclosed : (w.conns i).stage = .closed := h
  unfold Handshake.turn at hstage
  rw [hclosed] at hstage
  exact hne (hstage.trans h)

end World

end Quosh
