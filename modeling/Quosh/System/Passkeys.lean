/-
# Signing in takes a passkey

`docs/13-browser-auth-and-trust.md`: a browser signs in with a passkey of its user, or with a
token that has come from one.  Here the daemon of `Quosh.System.World` makes the checks of
`Quosh.Server.Webauthn`, and a run is followed by its steps: a turn draws a challenge for its
connection (`Challenges`), a reply enrols a passkey (`Enrols`) or is signed by one (`Asserts`),
each for the challenge that stands in its own client data.

`Witnessed` is the invariant: every registration is of a passkey that was enrolled, and every
token has its chain of issue (`Chain`) down to a connection that signed in with a passkey.
`signed_in_by_passkey` is what follows for every run.
-/

import Quosh.Server.Authenticator
import Quosh.System.Provenance

namespace Quosh
namespace World

open Bytes Webauthn

/-- A passkey of a user: its id, and the point of its public key. -/
structure Passkey where
  uid : ℕ
  credentialId : Bytes
  x : FixedBytes 32
  y : FixedBytes 32

/-- A registration is of a passkey. -/
structure Passkey.Of (k : Passkey) (r : Registration) : Prop where
  uid : r.uid = k.uid
  credentialId : r.credentialId = hexEncode k.credentialId
  publicKey : r.publicKey = hexEncode (sec1Point k.x k.y)

section Ceremonies

variable (W : Webauthn) (rpId origin : String)

/-- A reply enrols a passkey: a nonce of the user is outstanding, and the authenticator data
have the passkey. -/
def Enrols (i : ℕ) (challenge : FixedBytes 32) (k : Passkey) (st : Step) : Prop :=
  ∃ (now : ℤ) (reply : Bytes) (e : Enroll) (a : AuthenticatorData) (c : Attested),
    Replies i now challenge msgEnroll reply st ∧ Enroll.decode reply = .ok e ∧
      (st.1.daemon.nonces.consume e.nonce now).1 = some k.uid ∧
      W.parse e.clientDataJson = .ok (asked "webauthn.create" origin challenge) ∧
      Attests e.attestationObject a.encode ∧ W.Accepts rpId a ∧ a.attested = some c ∧
      k.credentialId = c.credentialId ∧ k.x = c.x ∧ k.y = c.y

/-- A reply is signed by a passkey that is registered. -/
def Asserts (i : ℕ) (challenge : FixedBytes 32) (k : Passkey) (st : Step) : Prop :=
  ∃ (now : ℤ) (reply : Bytes) (m : Assert) (a : AuthenticatorData),
    Replies i now challenge msgAssert reply st ∧ Assert.decode reply = .ok m ∧
      m.credentialId = k.credentialId ∧ (∃ r ∈ st.1.daemon.devices.inner.registrations, k.Of r) ∧
      W.parse m.clientDataJson = .ok (asked "webauthn.get" origin challenge) ∧
      m.authenticatorData = a.encode ∧ W.Accepts rpId a ∧
      W.verify (sec1Point k.x k.y) (m.authenticatorData ++ (W.sha256 m.clientDataJson).1)
        m.signature = true

/-- A connection has enrolled a passkey, for a challenge that was drawn for it. -/
def Enrolled (i : ℕ) (k : Passkey) : List Step → Prop :=
  Happens fun before st => ∃ challenge, Enrols W rpId origin i challenge k st ∧
    ∃ st' ∈ before, Challenges i challenge st'

/-- A connection has signed with a passkey, for a challenge that was drawn for it, and some
connection had enrolled the passkey. -/
def Signed (i : ℕ) (k : Passkey) : List Step → Prop :=
  Happens fun before st => ∃ challenge, Asserts W rpId origin i challenge k st ∧
    (∃ st' ∈ before, Challenges i challenge st') ∧ ∃ j, Enrolled W rpId origin j k before

/-- A connection has come by a passkey of the user, in the ceremony of its own. -/
def SignedIn (i uid : ℕ) (credentialId : String) (steps : List Step) : Prop :=
  ∃ k : Passkey, k.uid = uid ∧ hexEncode k.credentialId = credentialId ∧
    (Enrolled W rpId origin i k steps ∨ Signed W rpId origin i k steps)

end Ceremonies

/-! ### What stands behind a registration, a handshake and a token -/

variable {W : Webauthn} {rpId origin : String} {unixName : ℕ → Option String}

/-- A connection has enrolled the passkey that is registered. -/
def EnrolledAs (W : Webauthn) (rpId origin : String) (i : ℕ) (r : Registration)
    (steps : List Step) : Prop :=
  ∃ k : Passkey, k.Of r ∧ Enrolled W rpId origin i k steps

/-- Behind a registration, a handshake and a token there is a passkey. -/
structure Witnessed (W : Webauthn) (rpId origin : String) (steps : List Step) (w : World) :
    Prop where
  drawn : ∀ i hello now challenge, w.stage i = .replying hello now challenge →
    ∃ st ∈ steps, Challenges i challenge st
  chained : Chained (EnrolledAs W rpId origin) (SignedIn W rpId origin) steps w

/-- The ceremonies with passkeys are ceremonies of a chain. -/
theorem passkey_ceremonies :
    Ceremonies (EnrolledAs W rpId origin) (SignedIn W rpId origin) where
  enrolment := by
    rintro i r r' steps ⟨k, hk, henrolled⟩ huid hid hkey later
    exact ⟨k, ⟨huid.trans hk.uid, hid.trans hk.credentialId, hkey.trans hk.publicKey⟩,
      henrolled.append later⟩
  append := by
    rintro i uid credentialId steps ⟨k, huid, hid, hk⟩ later
    exact ⟨k, huid, hid, hk.imp (Happens.append · later) (Happens.append · later)⟩
  of_enrolment := by
    rintro i r steps ⟨k, hk, henrolled⟩
    exact ⟨k, hk.uid.symm, hk.credentialId.symm, .inl henrolled⟩

namespace Witnessed

variable {w : World} {a : Action} {steps : List Step} {i : ℕ} {now now' : ℤ}
  {hello hello' : AuthHello} {challenge : FixedBytes 32}

/-- **A reply that enrols.** -/
theorem enrols (h : Witnessed W rpId origin steps w) (hallows : w.Allows a)
    (hreplying : w.stage i = .replying hello now challenge) {r : Registration}
    (hstage : (w.act (W.relying rpId origin unixName) a).stage i =
      .registering hello' now' r) :
    EnrolledAs W rpId origin i r (steps ++ [(w, a)]) := by
  obtain ⟨env, rfl, hturn⟩ := exists_turn _ (i := i) hallows
    (by rw [hreplying, hstage]; intro heq; cases heq) (by rw [hreplying]; intro heq; cases heq)
    (by rw [hreplying]; intro k h heq; cases heq)
  obtain ⟨reply, rest, e, uid, c, hframe, hdecode, hspent, hverify, huid, hid, hkey⟩ :=
    turn_registering hreplying (hturn.symm.trans hstage)
  obtain ⟨hclient, data, attested, hattested, hobject, haccepts, rfl⟩ :=
    W.verifyRegistration_iff.1 hverify
  refine ⟨⟨uid, attested.credentialId, attested.x, attested.y⟩, ⟨huid, hid, hkey⟩, .last ?_⟩
  exact ⟨challenge,
    ⟨now, reply, e, data, attested, ⟨env, hello, rest, rfl, hreplying, hframe⟩, hdecode, hspent,
      hclient, hobject, haccepts, hattested, rfl, rfl, rfl⟩,
    h.drawn i hello now challenge hreplying⟩

/-- **A reply that is signed.**  The turn that accepts it found the registration by the id
in the reply, and the key that it verifies with is the one that was enrolled under that id. -/
theorem asserts (h : Witnessed W rpId origin steps w) (hallows : w.Allows a)
    (hreplying : w.stage i = .replying hello now challenge) {uid signCount : ℕ}
    {credentialId : String}
    (hstage : (w.act (W.relying rpId origin unixName) a).stage i =
      .touching hello' now' uid credentialId signCount) :
    SignedIn W rpId origin i uid credentialId (steps ++ [(w, a)]) := by
  obtain ⟨env, rfl, hturn⟩ := exists_turn _ (i := i) hallows
    (by rw [hreplying, hstage]; intro heq; cases heq) (by rw [hreplying]; intro heq; cases heq)
    (by rw [hreplying]; intro k h heq; cases heq)
  obtain ⟨reply, rest, m, r, publicKey, hframe, hdecode, hfind, hkey, hverify, huid, hid⟩ :=
    turn_touching hreplying (hturn.symm.trans hstage)
  obtain ⟨hclient, data, hdata, haccepts, hsigned, -⟩ := W.verifyAssertion_iff.1 hverify
  have hr : r ∈ w.daemon.devices.inner.registrations := List.mem_of_find?_eq_some hfind
  obtain ⟨j, k, hk, henrolled⟩ := h.chained.registrations r hr
  -- the registration was found by the id of the passkey, and its key is read back from hex
  have hfound : r.credentialId = hexEncode m.credentialId := by
    unfold DeviceStore.find at hfind
    simpa using List.find?_some hfind
  have hsame : m.credentialId = k.credentialId := hexEncode_inj (hfound.symm.trans hk.credentialId)
  have hpoint : publicKey = sec1Point k.x k.y := by
    rw [hk.publicKey, hexDecode_hexEncode] at hkey
    exact (Except.ok.inj hkey).symm
  refine ⟨k, hk.uid.symm.trans huid.symm, by rw [← hsame, hid], .inr (.last ?_)⟩
  refine ⟨challenge, ⟨now, reply, m, data, ⟨env, hello, rest, rfl, hreplying, hframe⟩, hdecode,
    hsame, ⟨r, hr, hk⟩, hclient, hdata, haccepts, hpoint ▸ hsigned⟩, ?_, j, henrolled⟩
  exact h.drawn i hello now challenge hreplying

/-- **Every action keeps a passkey behind each.** -/
theorem act (h : Witnessed W rpId origin steps w) (hsound : Sound w) (hallows : w.Allows a) :
    Witnessed W rpId origin (steps ++ [(w, a)])
      (w.act (W.relying rpId origin unixName) a) := by
  have hc : Change (W.relying rpId origin unixName) w a
      (w.act (W.relying rpId origin unixName) a) := change hallows
  refine ⟨fun i hello now challenge hi => ?_, h.chained.act passkey_ceremonies hsound hc
    (fun i _ _ _ _ _ r hi hi' => h.enrols hallows hi hi')
    fun i _ _ _ _ _ uid credentialId signCount hi hi' => h.asserts hallows hi hi'⟩
  have hmoves := hc.moves i
  generalize hs : w.stage i = s at hmoves
  rw [hi] at hmoves
  cases hmoves with
  | stay s hsince =>
    obtain ⟨st, hst, hdraws⟩ := h.drawn i hello now challenge hs
    exact ⟨st, List.mem_append_left _ hst, hdraws⟩
  | challenged hello challenge =>
    exact ⟨(w, a), List.mem_append_right _ (List.mem_singleton_self _),
      challenges_of_replying hallows hs hi⟩

/-- **In every run.** -/
theorem of_run {clock : ℤ} {as : List Action}
    (has : (world (W.relying rpId origin unixName)).AllowsAll (fun _ _ => True) { clock } as) :
    Witnessed W rpId origin ((world (W.relying rpId origin unixName)).steps { clock } as)
      ((world (W.relying rpId origin unixName)).acts { clock } as) := by
  refine has.induction (I := fun as => Witnessed W rpId origin (Machine.steps _ _ as)
    (Machine.acts _ _ as)) ?_ fun as a has h hallows hok => ?_
  · refine ⟨fun i hello now challenge hi => ?_, .start clock⟩
    contradiction
  · rw [Machine.steps_concat, Machine.acts_concat]
    exact h.act (Reachable.sound ⟨clock, Machine.run_acts has⟩) hallows

end Witnessed

/-- **Nobody is signed in without a passkey.**  In every run of a daemon, a handshake that is
authenticated was issued a token, and every token has its chain of issue: after a ceremony of the
same connection, or in place of a live token that was presented to the same connection and has
such a chain.  In the ceremony the connection enrolled a passkey with a nonce of the user, or it
signed with a passkey of the user that had been enrolled in this run and was registered then, over
authenticator data of this relying party with the user verified and over client data of this
origin, for a challenge that the daemon had drawn for this connection.  Every registration is of a
passkey that was enrolled so. -/
theorem signed_in_by_passkey (W : Webauthn) (rpId origin : String)
    (unixName : ℕ → Option String) {clock : ℤ} {as : List Action}
    (has : (world (W.relying rpId origin unixName)).AllowsAll (fun _ _ => True) { clock } as)
    {w : World} (hw : w = (world (W.relying rpId origin unixName)).acts { clock } as)
    {steps : List Step}
    (hsteps : steps = (world (W.relying rpId origin unixName)).steps { clock } as) :
    (∀ i uid, w.stage i = .authed uid → ∃ token credentialId, (i, token) ∈ w.past.answered ∧
      Chain (SignedIn W rpId origin) steps token i uid credentialId) ∧
    (∀ t ∈ w.daemon.devices.inner.tokens, ∃ token i credentialId, t.token = hexEncode token.1 ∧
      Chain (SignedIn W rpId origin) steps token i t.uid credentialId) ∧
    ∀ r ∈ w.daemon.devices.inner.registrations,
      ∃ i, ∃ k : Passkey, k.Of r ∧ Enrolled W rpId origin i k steps := by
  subst hw hsteps
  have hwitnessed := Witnessed.of_run has
  have hsound : Sound _ := Reachable.sound ⟨clock, Machine.run_acts has⟩
  exact ⟨fun i uid hi => hwitnessed.chained.authed hsound hi,
    fun t ht => hwitnessed.chained.stored hsound ht, hwitnessed.chained.registrations⟩

/-! ### A passkey that is enrolled and signs -/

/-- A key of P-256, with its signature of the message below. -/
def softPasskey : FakeAuthenticator where
  x := ⟨[0x52, 0xb0, 0xf2, 0x7e, 0x39, 0x2d, 0xe0, 0xf0, 0x0d, 0xe5, 0x54, 0x03, 0xed, 0xc2, 0x1c,
    0xdc, 0xde, 0x54, 0xc2, 0xdf, 0xe6, 0x68, 0x2f, 0x39, 0xd8, 0x8f, 0xef, 0x60, 0x5f, 0x3d, 0x16,
    0x43], rfl⟩
  y := ⟨[0xcf, 0x85, 0x0b, 0xf9, 0xf5, 0xb1, 0x23, 0xac, 0x64, 0x79, 0x64, 0x80, 0xab, 0x33, 0x61,
    0xd5, 0xb1, 0xac, 0xe0, 0x25, 0xbc, 0x66, 0x23, 0x0d, 0xfd, 0x3e, 0x27, 0x82, 0x8c, 0x17, 0x15,
    0x04], rfl⟩
  sign _ := [0x30, 0x46, 0x02, 0x21, 0x00, 0x9a, 0x2a, 0xe2, 0x76, 0xd0, 0xba, 0x00, 0x9a, 0xdf,
    0xe5, 0xf7, 0xb3, 0x59, 0x6e, 0x03, 0x59, 0xb8, 0xa2, 0xfe, 0x56, 0x6a, 0x23, 0x21, 0xc7, 0xd0,
    0x88, 0xec, 0x20, 0x56, 0xe5, 0x85, 0xd4, 0x02, 0x21, 0x00, 0xd4, 0xdb, 0xeb, 0x3e, 0x66, 0x0e,
    0x3e, 0x13, 0x45, 0x11, 0xd3, 0x91, 0x2e, 0xff, 0xe1, 0x97, 0x44, 0xd4, 0xdf, 0x5a, 0xf2, 0xe2,
    0x8c, 0x08, 0x5f, 0xcf, 0x3c, 0x0f, 0xb5, 0xb1, 0x7d, 0xa4]
  credentialId := asBytes "cred-1234"

/-- The SHA-256 of `simRp`. -/
def rpDigest : FixedBytes 32 :=
  ⟨[0x63, 0xd5, 0x38, 0x22, 0x31, 0xaf, 0xf9, 0x47, 0x89, 0x4b, 0x6a, 0x3d, 0x02, 0xf7, 0x96, 0x6d,
    0xa2, 0x34, 0xac, 0xe0, 0x39, 0x7e, 0xee, 0x39, 0x23, 0x96, 0xc8, 0x6b, 0x8a, 0x96, 0x1c,
    0x7c], rfl⟩

/-- The SHA-256 of the client data for an assertion with the challenge of twos. -/
def clientDigest : FixedBytes 32 :=
  ⟨[0x37, 0xda, 0xc1, 0xce, 0x6d, 0x74, 0xc7, 0x6a, 0x18, 0x99, 0x9d, 0x67, 0x8a, 0xaf, 0x56, 0xc6,
    0x7b, 0xe5, 0x08, 0x42, 0x72, 0x92, 0xb8, 0xc3, 0x56, 0x53, 0xd7, 0x35, 0xf1, 0xd8, 0x7e,
    0x57], rfl⟩

/-- The checks, on the client data, the texts and the signature of the run below. -/
def simChecks : Webauthn where
  parse json :=
    if json = clientJson "webauthn.create" (constBytes 32 1) then
      .ok (asked "webauthn.create" simOrigin (constBytes 32 1))
    else if json = clientJson "webauthn.get" (constBytes 32 2) then
      .ok (asked "webauthn.get" simOrigin (constBytes 32 2))
    else .error "expected value at line 1 column 1"
  sha256 bytes := if bytes = asBytes simRp then rpDigest else clientDigest
  verify key message signature :=
    key = softPasskey.point ∧ message = rpDigest.1 ++ (5 :: (toBe 4 1 ++ clientDigest.1)) ∧
      signature = softPasskey.sign message
  printable _ := true

/-- The daemon that makes these checks. -/
def simDaemon : Machine World Action := world (simChecks.relying simRp simOrigin fun _ => none)

/-- The passkey enrols, with a nonce of ones. -/
def simEnroll : Bytes :=
  let (clientDataJson, attestationObject) := softPasskey.registration simChecks (constBytes 32 1) 0
  (Enroll.encode { nonce := constBytes 16 1, clientDataJson, attestationObject }).toOption.getD []

/-- The passkey signs for the challenge of twos. -/
def simAssert : Bytes :=
  let (clientDataJson, authenticatorData, signature) :=
    softPasskey.assertion simChecks (constBytes 32 2) 1
  (Assert.encode
    { credentialId := softPasskey.credentialId, authenticatorData, clientDataJson
      signature }).toOption.getD []

/-- A browser enrols the passkey on connection 0, another signs in with it on connection 1, and
what that one has sent comes once more, on connection 2. -/
def simRun : List Action :=
  [.enrollNonce 1000 (constBytes 16 1), .accept 0,
    .receive 0 (authHello (constBytes 32 0) ++ simEnroll), .turn 0 (smooth 1), .turn 0 (smooth 1),
    .turn 0 (smooth 1), .turn 0 (smooth 1), .turn 0 (smooth 3), .accept 1,
    .receive 1 (authHello (constBytes 32 0) ++ simAssert), .turn 1 (smooth 2), .turn 1 (smooth 2),
    .turn 1 (smooth 2), .turn 1 (smooth 2), .turn 1 (smooth 4), .accept 2,
    .receive 2 (authHello (constBytes 32 0) ++ simAssert), .turn 2 (smooth 5), .turn 2 (smooth 5)]

theorem simRun_allowed : simDaemon.AllowsAll (fun _ _ => True) {} simRun := by
  have hall : (simDaemon.steps {} simRun).all (fun st => permits st.1 st.2) = true := by
    decide +kernel
  exact Machine.allowsAll_of_steps fun st hst =>
    ⟨allows_of_permits (List.all_eq_true.1 hall st hst), trivial⟩

/-- It signs a user in. -/
theorem simRun_authed : (simDaemon.acts {} simRun).stage 1 = .authed 1000 :=
  eq_authed (by decide +kernel)

/-- The hypothesis of `signed_in_by_passkey` is satisfiable: the second browser is signed in, and
its token has a chain. -/
theorem signed_in_by_passkey_sim : (simDaemon.acts {} simRun).stage 1 = .authed 1000 ∧
    ∃ token credentialId, (1, token) ∈ (simDaemon.acts {} simRun).past.answered ∧
      Chain (SignedIn simChecks simRp simOrigin) (simDaemon.steps {} simRun) token 1 1000
        credentialId :=
  ⟨simRun_authed, (signed_in_by_passkey simChecks simRp simOrigin (fun _ => none) simRun_allowed
    (Eq.refl (simDaemon.acts {} simRun)) (Eq.refl (simDaemon.steps {} simRun))).1 1 1000
      simRun_authed⟩

end World
end Quosh
