/-
# An enrolled passkey is accepted

The other way round to `Quosh.System.Passkeys`: what a genuine authenticator does works.  Its
registration is accepted while a nonce is outstanding, and stored in the next turn; from then on,
whatever happens on other connections and over SSH, its signature is accepted as its user's for
every challenge, until the passkey is revoked or another one is enrolled under its id
(`enrolled_passkey_accepted`).

`Has` is what is kept of the store.

The authenticator is that of the module `sim` of `webauthn.rs`, over a key, an id and a
counter that may be any.  Other connections, revocations of other passkeys, and the passing of
time leave `Has` (`Has.act`), and as long as it holds the signature is found, verified and
accepted (`turn_accepts`).
-/

import Quosh.Server.Dialogue
import Quosh.System.Passkeys

namespace Quosh
namespace World

open Bytes Webauthn

/-- What the store has of passkeys: users, ids and keys. -/
def keys (w : World) : List (ℕ × String × String) :=
  w.daemon.devices.inner.registrations.map fun r => (r.uid, r.credentialId, r.publicKey)

/-- The store has a key of a user under an id, and no other one. -/
structure Has (uid : ℕ) (id key : String) (w : World) : Prop where
  mem : (uid, id, key) ∈ w.keys
  only : ∀ x ∈ w.keys, x.2.1 = id → x = (uid, id, key)

/-- An action does not revoke a passkey, and does not enrol one under its id. -/
def Spares (uid : ℕ) (id : String) (w : World) : Action → Prop
  | .revokeCredential _ uid' id' => ¬(uid' = uid ∧ id' = id)
  | .revokeAll _ uid' => uid' ≠ uid
  | .turn i _ => ∀ hello now reg, w.stage i = .registering hello now reg → reg.credentialId ≠ id
  | _ => True

section Kept

variable {rp : Relying} {w w' : World} {a : Action} {i uid : ℕ} {id key : String}

/-- Only what is not under the id goes. -/
theorem Has.filter (h : Has uid id key w) {p : Registration → Bool}
    (hkeys : w'.daemon.devices.inner.registrations =
      w.daemon.devices.inner.registrations.filter p)
    (hp : ∀ r : Registration, r.uid = uid → r.credentialId = id → p r = true) :
    Has uid id key w' where
  mem := by
    obtain ⟨r, hr, heq⟩ := List.mem_map.1 h.mem
    obtain ⟨huid, hid, -⟩ : r.uid = uid ∧ r.credentialId = id ∧ r.publicKey = key := by
      simpa using heq
    unfold keys
    rw [hkeys]
    exact List.mem_map.2 ⟨r, List.mem_filter.2 ⟨hr, hp r huid hid⟩, heq⟩
  only x hx := by
    unfold keys at hx
    rw [hkeys] at hx
    obtain ⟨r, hr, rfl⟩ := List.mem_map.1 hx
    exact h.only _ (List.mem_map.2 ⟨r, (List.mem_filter.1 hr).1, rfl⟩)

/-- A world with the same keys. -/
theorem Has.congr (h : Has uid id key w) (hkeys : w'.keys = w.keys) : Has uid id key w' where
  mem := hkeys ▸ h.mem
  only := hkeys ▸ h.only

/-- The keys are those of the registrations. -/
theorem keys_eq (hdevices : w'.daemon.devices.inner.registrations =
    w.daemon.devices.inner.registrations) : w'.keys = w.keys := by
  unfold keys
  rw [hdevices]

/-- **What a turn makes of the stored keys**: nothing, or it stores the one it stands before. -/
theorem keys_turn (rp : Relying) (w : World) (i : ℕ) (env : Env) :
    (w.act rp (.turn i env)).keys = w.keys ∨
      ∃ hello now reg, w.stage i = .registering hello now reg ∧
        (w.act rp (.turn i env)).daemon.devices.inner.registrations =
          w.daemon.devices.inner.registrations.filter
            (fun r => r.credentialId ≠ reg.credentialId) ++ [reg] := by
  have heffect := (w.conns i).turn_effect rp env w.daemon w.clock
  have hdevices : (w.act rp (.turn i env)).daemon =
      ((w.conns i).turn rp env w.daemon w.clock).1 := rfl
  unfold keys
  rw [hdevices]
  generalize (w.conns i).turn rp env w.daemon w.clock = r at heffect
  cases heffect with
  | registered c' hello now reg hstage hstage' =>
    exact .inr ⟨hello, now, reg, hstage, by rw [DeviceStore.inner_register]⟩
  | dropped c' hello now uid hstage hstage' =>
    exact .inl (by rw [DeviceStore.inner_dropToken])
  | touched c' hello now uid credentialId signCount hstage hstage' =>
    refine .inl ?_
    simp only [DeviceStore.touched, DeviceStore.inner_persist]
    rw [Entries.map_modify_of_eq _ fun _ => by rfl]
  | issued c' hello now uid credentialId hstage hstage' =>
    exact .inl (by rw [DeviceStore.inner_issueToken])
  | resolved c' d' hello uid token spawned answered hstage hdevices hnonces hspawned hnone
      hstage' =>
    exact .inl (by rw [hdevices])
  | _ => exact .inl rfl

/-- **An action that spares a passkey keeps it.**  A turn stores what it stands before,
under another id; a revocation filters what is not the passkey; all else leaves the
registrations. -/
theorem Has.act (h : Has uid id key w) (hspares : Spares uid id w a) :
    Has uid id key (w.act rp a) := by
  cases a with
  | turn i env =>
    rcases keys_turn rp w i env with hkeys | ⟨hello, now, reg, hstage, hregistrations⟩
    · exact h.congr hkeys
    · have hne : reg.credentialId ≠ id := hspares hello now reg hstage
      have hfiltered : Has uid id key { w with daemon := { w.daemon with
          devices := { w.daemon.devices with inner := { w.daemon.devices.inner with
            registrations := w.daemon.devices.inner.registrations.filter
              fun r => r.credentialId ≠ reg.credentialId } } } } :=
        h.filter rfl fun r _ hid => decide_eq_true fun heq => hne (heq.symm.trans hid)
      constructor
      · unfold keys
        rw [hregistrations, List.map_append]
        exact List.mem_append_left _ hfiltered.mem
      · intro x hx hxid
        unfold keys at hx
        rw [hregistrations, List.map_append] at hx
        rcases List.mem_append.1 hx with hx | hx
        · exact hfiltered.only x hx hxid
        · rw [List.mem_singleton.1 hx] at hxid
          exact absurd hxid hne
  | revokeCredential write uid' id' =>
    refine h.filter (p := fun r => ¬(r.uid = uid' ∧ r.credentialId = id'))
      (by rw [show (w.act rp (.revokeCredential write uid' id')).daemon.devices =
        (w.daemon.devices.revokeCredential write uid' id').2 from rfl,
        DeviceStore.inner_revokeCredential]) fun r huid hid => ?_
    exact decide_eq_true fun heq => hspares ⟨heq.1.symm.trans huid, heq.2.symm.trans hid⟩
  | revokeAll write uid' =>
    refine h.filter (p := fun r => r.uid ≠ uid')
      (by rw [show (w.act rp (.revokeAll write uid')).daemon.devices =
        (w.daemon.devices.revokeAll write uid').2 from rfl, DeviceStore.inner_revokeAll])
      fun r huid _ => ?_
    exact decide_eq_true fun heq => hspares (heq.symm.trans huid)
  | revokeSessions write uid' =>
    refine h.congr (keys_eq ?_)
    rw [show (w.act rp (.revokeSessions write uid')).daemon.devices =
      (w.daemon.devices.revokeSessions write uid').2 from rfl, DeviceStore.inner_revokeSessions]
  | serve i b =>
    refine h.congr (keys_eq ?_)
    rw [show (w.act rp (.serve i b)).daemon.devices = w.daemon.devices from devices_serve w i b]
  | create uid' cols rows sid token spawn =>
    exact h.congr (keys_eq (by rw [devices_create]))
  | _ => exact h.congr rfl

/-- **A run that spares a passkey keeps it.** -/
theorem Has.run (h : Has uid id key w) (hrun : (world rp).Run (Spares uid id) w w') :
    Has uid id key w' :=
  hrun.invariant h fun _ _ _ ht _ hok => ht.act hok

/-- **What is found** under the id. -/
theorem Has.find (h : Has uid id key w) : ∃ r, w.daemon.devices.find id = some r ∧
    r.uid = uid ∧ r.publicKey = key := by
  unfold DeviceStore.find
  obtain ⟨r, hr, heq⟩ := List.mem_map.1 h.mem
  cases hfind : w.daemon.devices.inner.registrations.find? fun r => r.credentialId = id with
  | none =>
    have hnone := List.find?_eq_none.1 hfind r hr
    exact absurd (decide_eq_true (Prod.mk.inj (Prod.mk.inj heq).2).1) hnone
  | some r' =>
    have hid : r'.credentialId = id := by simpa using List.find?_some hfind
    have honly := h.only _ (List.mem_map.2 ⟨r', List.mem_of_find?_eq_some hfind, rfl⟩) hid
    exact ⟨r', rfl, (Prod.mk.inj honly).1, (Prod.mk.inj (Prod.mk.inj honly).2).2⟩

/-- **A registration is stored** by the turn it stands before, over what was under its id:
`register` filters that id away and appends the entry, whether or not the file is written. -/
theorem has_of_registering (rp : Relying) (env : Env) {hello : AuthHello} {now : ℤ}
    {reg : Registration} (hstage : w.stage i = .registering hello now reg) :
    Has reg.uid reg.credentialId reg.publicKey (w.act rp (.turn i env)) := by
  have hregistrations : (w.act rp (.turn i env)).daemon.devices.inner.registrations =
      w.daemon.devices.inner.registrations.filter
        (fun r => r.credentialId ≠ reg.credentialId) ++ [reg] := by
    have hstage : (w.conns i).stage = .registering hello now reg := hstage
    show ((w.conns i).turn rp env w.daemon w.clock).1.devices.inner.registrations = _
    unfold Handshake.turn
    rw [hstage]
    dsimp only
    have hinner := w.daemon.devices.inner_register env.write reg
    split
    · rename_i devices hregister
      rw [hregister] at hinner
      rw [hinner]
    · rename_i e devices hregister
      rw [hregister] at hinner
      rw [hinner]
  constructor
  · unfold keys
    rw [hregistrations, List.map_append]
    exact List.mem_append_right _ (List.mem_singleton_self _)
  · intro x hx hid
    unfold keys at hx
    rw [hregistrations, List.map_append] at hx
    rcases List.mem_append.1 hx with hx | hx
    · obtain ⟨r, hr, rfl⟩ := List.mem_map.1 hx
      exact absurd hid (of_decide_eq_true (List.mem_filter.1 hr).2)
    · exact List.mem_singleton.1 hx

end Kept

/-! ### What a genuine authenticator does works -/

section Genuine

variable (f : FakeAuthenticator) {W : Webauthn} {unixName : ℕ → Option String} {w : World} {i : ℕ}
  {env : Env} {hello : AuthHello} {now : ℤ} {challenge : FixedBytes 32} {nonce : FixedBytes 16}
  {uid signCount : ℕ} {reply rest : Bytes}

/-- The passkey of an authenticator, for a user. -/
def passkeyOf (uid : ℕ) : Passkey where
  uid
  credentialId := f.credentialId
  x := f.x
  y := f.y

/-- What an authenticator sends to enrol. -/
def enrolOf (W : Webauthn) (nonce : FixedBytes 16) (challenge : FixedBytes 32)
    (signCount : ℕ) : Enroll where
  nonce
  clientDataJson := (f.registration W challenge signCount).1
  attestationObject := (f.registration W challenge signCount).2

/-- What an authenticator sends to sign in. -/
def assertOf (W : Webauthn) (challenge : FixedBytes 32) (signCount : ℕ) : Assert where
  credentialId := f.credentialId
  authenticatorData := (f.assertion W challenge signCount).2.1
  clientDataJson := (f.assertion W challenge signCount).1
  signature := (f.assertion W challenge signCount).2.2

/-- The task of a connection after its turn. -/
theorem stage_turn (rp : Relying) (w : World) (i : ℕ) (env : Env) :
    (w.act rp (.turn i env)).stage i = ((w.conns i).turn rp env w.daemon w.clock).2.1.stage :=
  stage_next_self w i _ _ _

/-- **A genuine registration is accepted** while a nonce is outstanding.  The nonce is
consumed, and over the challenge of the connection the checks are those of
`registration_round_trip`. -/
theorem turn_enrols (unixName : ℕ → Option String)
    (hstage : w.stage i = .replying hello now challenge)
    (hframe : nextFrame env.eof (w.conns i).buf = .frame msgEnroll reply rest)
    (hdecode : Enroll.decode reply = .ok (enrolOf f W nonce challenge signCount))
    (hnonce : (w.daemon.nonces.consume nonce now).1 = some uid)
    (hparse : W.parse (clientJson "webauthn.create" challenge) =
      .ok (asked "webauthn.create" simOrigin challenge))
    (hid : f.credentialId.length < 256 ^ 2) (hcount : signCount < 256 ^ 4) :
    ∃ reg, (w.act (W.relying simRp simOrigin unixName) (.turn i env)).stage i =
      .registering hello now reg ∧ (passkeyOf f uid).Of reg := by
  have hstage : (w.conns i).stage = .replying hello now challenge := hstage
  have hverify := f.registration_round_trip W challenge hparse hid hcount
  rw [stage_turn]
  unfold Handshake.turn
  rw [hstage]
  dsimp only
  rw [hframe]
  dsimp only
  unfold Handshake.onReply doEnroll
  rw [if_pos rfl, hdecode]
  dsimp only [enrolOf]
  cases hconsume : w.daemon.nonces.consume nonce now with
  | mk spent nonces =>
    rw [hconsume] at hnonce
    dsimp only at hnonce
    rw [hnonce]
    dsimp only [Webauthn.relying]
    rw [hverify]
    exact ⟨_, rfl, rfl, rfl, rfl⟩

/-- **A genuine signature is accepted** while the passkey is stored.  The turn finds the key
that was stored under the id, and over this key, the challenge of the connection and the
client data the checks are those of `assertion_round_trip`. -/
theorem turn_accepts (hstage : w.stage i = .replying hello now challenge)
    (hframe : nextFrame env.eof (w.conns i).buf = .frame msgAssert reply rest)
    (hdecode : Assert.decode reply = .ok (assertOf f W challenge signCount))
    (hhas : Has uid (hexEncode f.credentialId) (hexEncode f.point) w)
    (hparse : W.parse (clientJson "webauthn.get" challenge) =
      .ok (asked "webauthn.get" simOrigin challenge))
    (hsign : ∀ message, message = simAuthData W signCount ++
      (W.sha256 (clientJson "webauthn.get" challenge)).1 →
        W.verify f.point message (f.sign message) = true)
    (hcount : signCount < 256 ^ 4) :
    (w.act (W.relying simRp simOrigin unixName) (.turn i env)).stage i =
      .touching hello now uid (hexEncode f.credentialId) signCount := by
  have hstage : (w.conns i).stage = .replying hello now challenge := hstage
  have hverify := f.assertion_round_trip W challenge hparse hsign hcount
  obtain ⟨r, hfind, rfl, hkey⟩ := hhas.find
  have hpoint : hexDecode r.publicKey = .ok f.point := by
    rw [hkey]
    exact hexDecode_hexEncode f.point
  rw [stage_turn]
  unfold Handshake.turn
  rw [hstage]
  dsimp only
  rw [hframe]
  dsimp only
  unfold Handshake.onReply doAssert
  rw [if_neg (by decide), if_pos rfl, hdecode]
  dsimp only [assertOf]
  rw [hfind]
  dsimp only
  rw [hpoint]
  dsimp only [Webauthn.relying]
  rw [hverify]
  rfl

/-- An action that is not about a connection. -/
def Elsewhere (i : ℕ) (_ : World) (a : Action) : Prop := a.conn ≠ some i

instance (i : ℕ) (w : World) (a : Action) : Decidable (Elsewhere i w a) :=
  inferInstanceAs (Decidable (a.conn ≠ some i))

/-- **An enrolled passkey is accepted until it is revoked.**  A genuine authenticator answers the
challenge of a connection with a registration, for a nonce that is outstanding; other connections
and SSH do whatever they do, and the connection goes on.  Then, in every run in which the passkey
is not revoked and none is enrolled under its id, the authenticator's signature for the challenge
of any connection is accepted, as its user's. -/
theorem enrolled_passkey_accepted (W : Webauthn) (unixName : ℕ → Option String)
    (hparse : W.parse (clientJson "webauthn.create" challenge) =
      .ok (asked "webauthn.create" simOrigin challenge))
    (hid : f.credentialId.length < 256 ^ 2) (hcount : signCount < 256 ^ 4)
    (hstage : w.stage i = .replying hello now challenge)
    (hframe : nextFrame env.eof (w.conns i).buf = .frame msgEnroll reply rest)
    (hdecode : Enroll.decode reply = .ok (enrolOf f W nonce challenge signCount))
    (hnonce : (w.daemon.nonces.consume nonce now).1 = some uid)
    {w₁ w₂ : World} {env₁ env₂ : Env}
    (hrun₁ : (world (W.relying simRp simOrigin unixName)).Run (Elsewhere i)
      (w.act (W.relying simRp simOrigin unixName) (.turn i env)) w₁)
    (hrun₂ : (world (W.relying simRp simOrigin unixName)).Run
      (Spares uid (hexEncode f.credentialId))
      (w₁.act (W.relying simRp simOrigin unixName) (.turn i env₁)) w₂)
    {j signCount₂ : ℕ} {hello₂ : AuthHello} {now₂ : ℤ} {challenge₂ : FixedBytes 32}
    {reply₂ rest₂ : Bytes}
    (hparse₂ : W.parse (clientJson "webauthn.get" challenge₂) =
      .ok (asked "webauthn.get" simOrigin challenge₂))
    (hsign₂ : ∀ message, message = simAuthData W signCount₂ ++
      (W.sha256 (clientJson "webauthn.get" challenge₂)).1 →
        W.verify f.point message (f.sign message) = true)
    (hcount₂ : signCount₂ < 256 ^ 4)
    (hstage₂ : w₂.stage j = .replying hello₂ now₂ challenge₂)
    (hframe₂ : nextFrame env₂.eof (w₂.conns j).buf = .frame msgAssert reply₂ rest₂)
    (hdecode₂ : Assert.decode reply₂ = .ok (assertOf f W challenge₂ signCount₂)) :
    (w₂.act (W.relying simRp simOrigin unixName) (.turn j env₂)).stage j =
      .touching hello₂ now₂ uid (hexEncode f.credentialId) signCount₂ := by
  obtain ⟨reg, hregistering, hof⟩ := turn_enrols f unixName hstage hframe hdecode hnonce
    hparse hid hcount
  have hregistering₁ : w₁.stage i = .registering hello now reg := by
    refine hrun₁.invariant (I := fun w => w.stage i = .registering hello now reg) hregistering
      fun t a _ ht _ hok => ?_
    exact (stage_act _ t hok).trans ht
  have hhas := has_of_registering (W.relying simRp simOrigin unixName) env₁ hregistering₁
  rw [hof.uid, hof.credentialId, hof.publicKey] at hhas
  exact turn_accepts f hstage₂ hframe₂ hdecode₂ (hhas.run hrun₂) hparse₂ hsign₂ hcount₂

/-- The first frame of a browser without a token. -/
def newBrowser : AuthHello where
  authToken := constBytes 32 0
  sessionId := constBytes 16 0
  sessionToken := constBytes 32 0
  cols := 80
  rows := 24

/-- The passkey's registration. -/
def softEnroll : Enroll := enrolOf softPasskey simChecks (constBytes 16 1) (constBytes 32 1) 0

/-- The passkey's signature. -/
def softAssert : Assert := assertOf softPasskey simChecks (constBytes 32 2) 1

/-- Two connections that wait for a reply, with the frames of an authenticator in their buffers:
a registration in one, and a signature in the other. -/
def genuineWorld : World where
  daemon := { nonces := NonceStore.issue (fun _ => none) (constBytes 16 1) 1000 0 }
  conns i :=
    if i = 0 then
      { stage := .replying newBrowser 0 (constBytes 32 1)
        buf := encodeFrame msgEnroll softEnroll.payload }
    else if i = 1 then
      { stage := .replying newBrowser 0 (constBytes 32 2)
        buf := encodeFrame msgAssert softAssert.payload }
    else {}

/-- The checks of the passkey. -/
def genuine : Relying := simChecks.relying simRp simOrigin fun _ => none

/-- What happens while the passkey is enrolled: another connection begins, its task takes a turn,
and SSH asks for a session. -/
def meanwhile : List Action :=
  [.accept 2, .receive 2 [0x05], .turn 2 (smooth 7),
    .create 1000 80 24 (constBytes 16 3) (constBytes 32 3) (.ok ()), .tick 5]

/-- And afterwards: SSH revokes a passkey of another user and the tokens of this one. -/
def thereafter : List Action :=
  [.accept 3, .revokeCredential (.ok ()) 1001 "00", .revokeSessions (.ok ()) 1000, .tick 5]

/-- The nonce is spent. -/
def spentWorld : World := genuineWorld.act genuine (.turn 0 (smooth 1))

/-- The passkey is enrolled, with what happens meanwhile. -/
def enrolledWorld : World :=
  ((world genuine).acts spentWorld meanwhile).act genuine (.turn 0 (smooth 1))

/-- Random bytes that were not drawn before. -/
theorem allows_turn {rp : Relying} {w : World} {i : ℕ} {env : Env}
    (h : (w.past.tokens env.token).isNone = true) : (world rp).Allows w (.turn i env) :=
  Option.isNone_iff_eq_none.1 h

/-- An action that leaves a connection idle. -/
theorem enrolledWorld_idle : enrolledWorld.stage 3 = .idle :=
  (stage_act genuine _ (by decide)).trans <|
    (stage_acts genuine _ (by decide +kernel)).trans (stage_act genuine genuineWorld (by decide))

/-- The hypotheses of `enrolled_passkey_accepted` are satisfiable, with another connection and
SSH in between. -/
theorem enrolled_passkey_accepted_sim :
    (((world genuine).acts enrolledWorld thereafter).act
      (simChecks.relying simRp simOrigin fun _ => none) (.turn 1 (smooth 1))).stage 1 =
      .touching newBrowser 0 1000 (hexEncode softPasskey.credentialId) 1 := by
  have henroll : Enroll.decode softEnroll.payload = .ok softEnroll :=
    (Enroll.inverts_read.complete_iff _).2 ⟨⟨by decide +kernel, by decide +kernel⟩, rfl⟩
  have hassert : Assert.decode softAssert.payload = .ok softAssert :=
    (Assert.inverts_read.complete_iff _).2 ⟨⟨by decide +kernel, by decide +kernel,
      by decide +kernel, by decide +kernel⟩, rfl⟩
  have hcreate : simChecks.parse (clientJson "webauthn.create" (constBytes 32 1)) =
      .ok (asked "webauthn.create" simOrigin (constBytes 32 1)) := by
    simp only [simChecks, if_true]
  have hne : clientJson "webauthn.get" (constBytes 32 2) ≠
      clientJson "webauthn.create" (constBytes 32 1) := by decide +kernel
  have hget : simChecks.parse (clientJson "webauthn.get" (constBytes 32 2)) =
      .ok (asked "webauthn.get" simOrigin (constBytes 32 2)) := by
    simp only [simChecks, hne, if_true, if_false]
  have hsign : ∀ message, message = simAuthData simChecks 1 ++
      (simChecks.sha256 (clientJson "webauthn.get" (constBytes 32 2))).1 →
        simChecks.verify softPasskey.point message (softPasskey.sign message) = true := by
    rintro message rfl
    decide +kernel
  have hnonce : (genuineWorld.daemon.nonces.consume (constBytes 16 1) 0).1 = some 1000 := by
    decide +kernel
  have hmeanwhile : (world genuine).AllowsAll (Elsewhere 0) spentWorld meanwhile := by
    refine ⟨stage_act genuine genuineWorld (by decide), by decide, trivial, by decide,
      allows_turn ?_, by decide, trivial, by decide, trivial, by decide, trivial⟩
    decide +kernel
  have hthereafter : (world genuine).AllowsAll
      (Spares 1000 (hexEncode softPasskey.credentialId)) enrolledWorld thereafter :=
    ⟨enrolledWorld_idle, trivial, trivial, fun h => absurd h.1 (by decide), trivial, trivial,
      trivial, trivial, trivial⟩
  have hconns : ((world genuine).acts enrolledWorld thereafter).conns 1 = genuineWorld.conns 1 :=
    (conns_acts genuine _ (by decide +kernel)).trans <|
      (conns_act genuine _ (by decide)).trans <|
        (conns_acts genuine _ (by decide +kernel)).trans (conns_act genuine _ (by decide))
  have hstage : genuineWorld.stage 0 = .replying newBrowser 0 (constBytes 32 1) := rfl
  have hstage₂ : genuineWorld.stage 1 = .replying newBrowser 0 (constBytes 32 2) := rfl
  have hframe : nextFrame (smooth 1).eof (genuineWorld.conns 0).buf =
      .frame msgEnroll softEnroll.payload [] := nextFrame_encodeFrame (by decide +kernel) none
  have hframe₂ : nextFrame (smooth 1).eof (genuineWorld.conns 1).buf =
      .frame msgAssert softAssert.payload [] := nextFrame_encodeFrame (by decide +kernel) none
  rw [← hconns] at hframe₂
  rw [World.stage, ← hconns] at hstage₂
  have hrun₁ : (world genuine).Run (Elsewhere 0) (genuineWorld.act genuine (.turn 0 (smooth 1)))
      ((world genuine).acts spentWorld meanwhile) := Machine.run_acts hmeanwhile
  have hrun₂ : (world genuine).Run (Spares 1000 (hexEncode softPasskey.credentialId))
      (((world genuine).acts spentWorld meanwhile).act genuine (.turn 0 (smooth 1)))
      ((world genuine).acts enrolledWorld thereafter) := Machine.run_acts hthereafter
  exact enrolled_passkey_accepted softPasskey simChecks (fun _ => none) hcreate
    (by decide +kernel) (by decide) hstage hframe henroll hnonce hrun₁ hrun₂ hget hsign (by decide)
    hstage₂ hframe₂ hassert

end Genuine

end World
end Quosh
