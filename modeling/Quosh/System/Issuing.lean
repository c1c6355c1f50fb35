/-
# What stands behind a token

A handshake issues a token after a ceremony of its own, or in place of a token that the browser
has presented.  A run is followed by its steps, so a token has a chain of issue (`Chain`): it
goes from the turn that issued it to the frame that presented the token before it, and on to the
ceremony of the first one.

What counts as an enrolment and as a ceremony is left open (`Ceremonies`).  `Chained` is the
invariant: every registration has its enrolment and every token its chain, if every reply that is
accepted is one (`Chained.act`).

The chain of a token belongs to that token alone.  It says of each link which connection the
step was about, so that the one who presents a token is the one who gets the token in its
place.
-/

import Quosh.Control.Trace
import Quosh.System.Moves

namespace Quosh
namespace World

open Bytes

/-! ### Steps of a handshake -/

/-- An action, and the world it is taken in. -/
abbrev Step := World × Action

/-- A turn draws a challenge for its connection. -/
def Challenges (i : ℕ) (challenge : FixedBytes 32) (st : Step) : Prop :=
  ∃ env, st.2 = .turn i env ∧ st.1.stage i = .opening ∧ env.challenge = challenge

/-- A turn takes the reply to a challenge. -/
def Replies (i : ℕ) (now : ℤ) (challenge : FixedBytes 32) (typ : UInt8) (reply : Bytes)
    (st : Step) : Prop :=
  ∃ env hello rest, st.2 = .turn i env ∧ st.1.stage i = .replying hello now challenge ∧
    nextFrame env.eof (st.1.conns i).buf = .frame typ reply rest

/-- A turn takes the first frame of a browser, which presents a live token. -/
def Submits (i : ℕ) (token : FixedBytes 32) (uid : ℕ) (st : Step) : Prop :=
  ∃ env payload rest hello, st.2 = .turn i env ∧ st.1.stage i = .opening ∧
    nextFrame env.eof (st.1.conns i).buf = .frame msgAuthHello payload rest ∧
    AuthHello.decode payload = .ok hello ∧ hello.authToken = token ∧
    st.1.daemon.devices.validateToken token st.1.clock = some uid

/-- A turn issues a token, for a handshake that stands before it. -/
def Mints (i : ℕ) (s : Stage) (token : FixedBytes 32) (st : Step) : Prop :=
  ∃ env, st.2 = .turn i env ∧ st.1.stage i = s ∧ env.token = token

/-- Whom a handshake has looked up, and the credential of the ceremony. -/
def claims : Stage → Option (ℕ × String)
  | .touching _ _ uid credentialId _ => some (uid, credentialId)
  | .issuing _ _ uid credentialId => some (uid, credentialId)
  | _ => none

/-- **The chain of issue of a token**: the connection that it was issued to, for which user, and
the credential of the ceremony that it descends from.  `C` has the ceremonies: of a connection,
for a user, with a credential, in some steps. -/
inductive Chain (C : ℕ → ℕ → String → List Step → Prop) :
    List Step → FixedBytes 32 → ℕ → ℕ → String → Prop
  | ceremony {before after : List Step} {st : Step} {token : FixedBytes 32} {i uid : ℕ}
    {credentialId : String} {hello : AuthHello} {now : ℤ} (h : C i uid credentialId before)
    (hmints : Mints i (.issuing hello now uid credentialId) token st) :
    Chain C (before ++ st :: after) token i uid credentialId
  | rotation {before mid after : List Step} {st st' : Step} {token : FixedBytes 32} {i j uid : ℕ}
    {credentialId : String} {hello : AuthHello} {now : ℤ}
    (h : Chain C before hello.authToken j uid credentialId)
    (hsubmits : Submits i hello.authToken uid st)
    (hmints : Mints i (.reissuing hello now uid) token st') :
    Chain C (before ++ st :: (mid ++ st' :: after)) token i uid credentialId

/-! ### The turn that takes a reply -/

section Turns

variable {rp : Relying} {env : Env} {d : Daemon} {c : Handshake} {clock now now' : ℤ}
  {hello hello' : AuthHello} {challenge : FixedBytes 32}

/-- A reply that enrols passes the checks of a registration.  `do_enroll` goes on to
register only behind all of them, so the run of the turn is taken apart check by check;
every failure ends the task instead. -/
theorem turn_registering {reg : Registration} (hstage : c.stage = .replying hello now challenge)
    (h : (c.turn rp env d clock).2.1.stage = .registering hello' now' reg) :
    ∃ reply rest e uid r, nextFrame env.eof c.buf = .frame msgEnroll reply rest ∧
      Enroll.decode reply = .ok e ∧ (d.nonces.consume e.nonce now).1 = some uid ∧
      rp.verifyRegistration rp.rpId rp.origin challenge e.clientDataJson e.attestationObject =
        .ok r ∧
      reg.uid = uid ∧ reg.credentialId = hexEncode r.credentialId ∧
      reg.publicKey = hexEncode r.publicKey := by
  unfold Handshake.turn at h
  rw [hstage] at h
  dsimp only at h
  cases hframe : nextFrame env.eof c.buf with
  | wait =>
    rw [hframe] at h
    dsimp only at h
    rw [hstage] at h
    cases h
  | failed e =>
    rw [hframe] at h
    cases h
  | frame typ reply rest =>
    rw [hframe] at h
    dsimp only at h
    unfold Handshake.onReply at h
    by_cases henroll : typ = msgEnroll
    · subst henroll
      rw [if_pos rfl] at h
      unfold doEnroll at h
      cases hdecode : Enroll.decode reply with
      | error e =>
        rw [hdecode] at h
        cases h
      | ok e =>
        rw [hdecode] at h
        dsimp only at h
        cases hconsume : d.nonces.consume e.nonce now with
        | mk spent nonces =>
          rw [hconsume] at h
          cases spent with
          | none => cases h
          | some uid =>
            dsimp only at h
            cases hverify : rp.verifyRegistration rp.rpId rp.origin challenge e.clientDataJson
                e.attestationObject with
            | error m =>
              rw [hverify] at h
              cases h
            | ok r =>
              rw [hverify] at h
              cases h
              have hspent : (d.nonces.consume e.nonce now).1 = some uid := by rw [hconsume]
              exact ⟨reply, rest, e, uid, r, rfl, hdecode, hspent, hverify, rfl, rfl, rfl⟩
    · rw [if_neg henroll] at h
      by_cases hassert : typ = msgAssert
      · rw [if_pos hassert] at h
        split at h <;> cases h
      · rw [if_neg hassert] at h
        cases h

/-- A reply with a signature passes the checks of an assertion, in the order of `do_assert`:
the message is decoded, the credential found, its key read and the signature verified. -/
theorem turn_touching {uid signCount : ℕ} {credentialId : String}
    (hstage : c.stage = .replying hello now challenge)
    (h : (c.turn rp env d clock).2.1.stage = .touching hello' now' uid credentialId signCount) :
    ∃ reply rest m r publicKey, nextFrame env.eof c.buf = .frame msgAssert reply rest ∧
      Assert.decode reply = .ok m ∧ d.devices.find (hexEncode m.credentialId) = some r ∧
      hexDecode r.publicKey = .ok publicKey ∧
      rp.verifyAssertion rp.rpId rp.origin challenge m.clientDataJson m.authenticatorData
        m.signature publicKey = .ok signCount ∧
      uid = r.uid ∧ credentialId = hexEncode m.credentialId := by
  unfold Handshake.turn at h
  rw [hstage] at h
  dsimp only at h
  cases hframe : nextFrame env.eof c.buf with
  | wait =>
    rw [hframe] at h
    dsimp only at h
    rw [hstage] at h
    cases h
  | failed e =>
    rw [hframe] at h
    cases h
  | frame typ reply rest =>
    rw [hframe] at h
    dsimp only at h
    unfold Handshake.onReply at h
    by_cases henroll : typ = msgEnroll
    · rw [if_pos henroll] at h
      split at h <;> cases h
    · rw [if_neg henroll] at h
      by_cases hassert : typ = msgAssert
      · subst hassert
        rw [if_pos rfl] at h
        unfold doAssert at h
        cases hdecode : Assert.decode reply with
        | error e =>
          rw [hdecode] at h
          cases h
        | ok m =>
          rw [hdecode] at h
          dsimp only at h
          cases hfind : d.devices.find (hexEncode m.credentialId) with
          | none =>
            rw [hfind] at h
            cases h
          | some r =>
            rw [hfind] at h
            dsimp only at h
            cases hkey : hexDecode r.publicKey with
            | error e =>
              rw [hkey] at h
              cases h
            | ok publicKey =>
              rw [hkey] at h
              dsimp only at h
              cases hverify : rp.verifyAssertion rp.rpId rp.origin challenge m.clientDataJson
                  m.authenticatorData m.signature publicKey with
              | error e =>
                rw [hverify] at h
                cases h
              | ok n =>
                rw [hverify] at h
                cases h
                exact ⟨reply, rest, m, r, publicKey, rfl, hdecode, hfind, hkey, hverify, rfl, rfl⟩
      · rw [if_neg hassert] at h
        cases h

variable {w : World} {a : Action} {i : ℕ}

/-- The challenge that a connection waits for a reply to is the one drawn in the turn. -/
theorem challenges_of_replying (hallows : w.Allows a) (hopening : w.stage i = .opening)
    (hreplying : (w.act rp a).stage i = .replying hello now challenge) :
    Challenges i challenge (w, a) := by
  obtain ⟨env, ha, hturn⟩ := exists_turn rp (i := i) hallows
    (by rw [hopening, hreplying]; intro h; cases h) (by rw [hopening]; intro h; cases h)
    (by rw [hopening]; intro k h hk; cases hk)
  rw [hturn] at hreplying
  have heffect := (w.conns i).turn_effect rp env w.daemon w.clock
  refine ⟨env, ha, hopening, ?_⟩
  generalize (w.conns i).turn rp env w.daemon w.clock = r at heffect hreplying
  have hstage : (w.conns i).stage = .opening := hopening
  cases heffect with
  | challenged c' hello hstage' hc => exact (Stage.replying.inj (hc.symm.trans hreplying)).2.2
  | quiet c' hc =>
    rcases hc with hc | hc
    · exact absurd (hc.symm.trans hreplying) (by rw [hstage]; intro h; cases h)
    · exact absurd (hc.symm.trans hreplying) (by intro h; cases h)
  | _ => simp_all

/-- A stored registration keeps its passkey, and a new one is of a handshake that stands
before it. -/
theorem Change.passkeys {w' : World} (hc : Change rp w a w') {r : Registration}
    (hr : r ∈ w'.daemon.devices.inner.registrations) :
    (∃ r₀ ∈ w.daemon.devices.inner.registrations, r₀.uid = r.uid ∧
      r₀.credentialId = r.credentialId ∧ r₀.publicKey = r.publicKey) ∨
    ∃ i hello now, w.stage i = .registering hello now r := by
  cases hc with
  | calm hcalm =>
    rw [hcalm.devices] at hr
    exact .inl ⟨r, hr, rfl, rfl, rfl⟩
  | nonce uid n hfresh => exact .inl ⟨r, hr, rfl, rfl, rfl⟩
  | revoked devices p q hinner =>
    rw [hinner] at hr
    exact .inl ⟨r, (List.mem_filter.1 hr).1, rfl, rfl, rfl⟩
  | turn i env d c event hfresh heffect =>
    replace hr : r ∈ d.devices.inner.registrations := hr
    cases heffect with
    | dropped c' hello now uid hstage hstage' =>
      rw [DeviceStore.inner_dropToken] at hr
      exact .inl ⟨r, hr, rfl, rfl, rfl⟩
    | registered c' hello now reg hstage hstage' =>
      rw [DeviceStore.inner_register] at hr
      rcases List.mem_append.1 hr with hr | hr
      · exact .inl ⟨r, (List.mem_filter.1 hr).1, rfl, rfl, rfl⟩
      · rw [List.mem_singleton.1 hr]
        exact .inr ⟨i, hello, now, hstage⟩
    | touched c' hello now uid credentialId signCount hstage hstage' =>
      have hmem := List.mem_map_of_mem (f := fun r : Registration =>
        (r.uid, r.credentialId, r.publicKey)) hr
      simp only [DeviceStore.touched, DeviceStore.inner_persist] at hmem
      rw [Entries.map_modify_of_eq _ fun _ => by rfl] at hmem
      obtain ⟨r₀, hr₀, heq⟩ := List.mem_map.1 hmem
      obtain ⟨huid, heq⟩ := Prod.mk.inj heq
      obtain ⟨hid, hkey⟩ := Prod.mk.inj heq
      exact .inl ⟨r₀, hr₀, huid, hid, hkey⟩
    | issued c' hello now uid credentialId hstage hstage' =>
      rw [DeviceStore.inner_issueToken] at hr
      exact .inl ⟨r, hr, rfl, rfl, rfl⟩
    | resolved c' d' hello uid token spawned answered hstage hdevices hnonces hspawned hnone
        hstage' =>
      rw [hdevices] at hr
      exact .inl ⟨r, hr, rfl, rfl, rfl⟩
    | _ => exact .inl ⟨r, hr, rfl, rfl, rfl⟩

end Turns

/-! ### Every token has its chain -/

section Chains

variable {E : ℕ → Registration → List Step → Prop} {C : ℕ → ℕ → String → List Step → Prop}
  {rp : Relying} {w w' : World} {a : Action}
  {steps : List Step} {token : FixedBytes 32} {i uid : ℕ} {credentialId : String}

/-- A chain is there later on. -/
theorem Chain.append (h : Chain C steps token i uid credentialId) (later : List Step) :
    Chain C (steps ++ later) token i uid credentialId := by
  cases h with
  | ceremony h hmints =>
    rw [List.append_assoc, List.cons_append]
    exact .ceremony h hmints
  | rotation h hsubmits hmints =>
    rw [List.append_assoc, List.cons_append, List.append_assoc, List.cons_append]
    exact .rotation h hsubmits hmints

/-- What counts as an enrolment of a registration by a connection, and as a ceremony: both have
happened later on, an enrolment goes by what a registration keeps, and is a ceremony itself. -/
structure Ceremonies (E : ℕ → Registration → List Step → Prop)
    (C : ℕ → ℕ → String → List Step → Prop) : Prop where
  enrolment : ∀ {i r r' steps}, E i r steps → r'.uid = r.uid → r'.credentialId = r.credentialId →
    r'.publicKey = r.publicKey → ∀ later, E i r' (steps ++ later)
  append : ∀ {i uid credentialId steps}, C i uid credentialId steps →
    ∀ later, C i uid credentialId (steps ++ later)
  of_enrolment : ∀ {i r steps}, E i r steps → C i r.uid r.credentialId steps

/-- A handshake that goes by a token has been presented with it, and the token has its chain. -/
def Resumes (C : ℕ → ℕ → String → List Step → Prop) (i : ℕ) (hello : AuthHello) (uid : ℕ)
    (e : Issue) (steps : List Step) : Prop :=
  Happens (fun before st => Submits i hello.authToken uid st ∧
    Chain C before hello.authToken e.conn uid e.credentialId) steps

/-- **Every registration has its enrolment, and every token its chain**; so have the registration
that a handshake is about to store and the token that it goes by, and whom it claims it has come
by in a ceremony. -/
structure Chained (E : ℕ → Registration → List Step → Prop)
    (C : ℕ → ℕ → String → List Step → Prop) (steps : List Step) (w : World) : Prop where
  registering : ∀ i hello now r, w.stage i = .registering hello now r → E i r steps
  registrations : ∀ r ∈ w.daemon.devices.inner.registrations, ∃ i, E i r steps
  claimed : ∀ i x, claims (w.stage i) = some x → C i x.1 x.2 steps
  dropping : ∀ i hello now uid, w.stage i = .dropping hello now uid →
    ∀ e, w.past.tokens hello.authToken = some e → Resumes C i hello uid e steps
  reissuing : ∀ i hello now uid, w.stage i = .reissuing hello now uid →
    ∀ e, w.past.tokens hello.authToken = some e → Resumes C i hello uid e steps
  tokens : ∀ τ e, w.past.tokens τ = some e → Chain C steps τ e.conn e.uid e.credentialId

namespace Chained

/-- A token that a handshake issues has its chain. -/
theorem issue (h : Chained E C steps w) (hsound : Sound w) {env : Env} {e : Issue}
    (he : w.past.issue i (w.stage i) = some e) :
    Chain C (steps ++ [(w, .turn i env)]) env.token e.conn e.uid e.credentialId := by
  have hclaimed := h.claimed i
  have hreissuing := h.reissuing i
  have hholds := hsound.conns i
  cases hs : w.stage i with
  | reissuing hello now uid =>
    rw [hs] at he hholds
    obtain ⟨-, e', he', huid⟩ := hholds
    obtain ⟨old, hold, rfl⟩ := Option.map_eq_some_iff.1 he
    obtain rfl := Option.some.inj (he'.symm.trans hold)
    obtain ⟨before, st, after, rfl, hsubmits, hchain⟩ := hreissuing hello now uid hs _ hold
    rw [List.append_assoc, List.cons_append]
    dsimp only
    rw [huid]
    exact .rotation hchain hsubmits ⟨env, rfl, hs, rfl⟩
  | issuing hello now uid credentialId =>
    rw [hs] at he
    obtain rfl := Option.some.inj he
    exact .ceremony (hclaimed (uid, credentialId) (by rw [hs]; rfl)) ⟨env, rfl, hs, rfl⟩
  | _ =>
    rw [hs] at he
    cases he

/-- **Every action keeps the chains**, if a reply that is accepted is an enrolment or a
ceremony. A claim to a uid begins at such a reply and stays with the stage until its token
is issued.  A token in place of another takes over the chain of that one, which was live
when it was presented and so is in the history with its own. -/
theorem act (h : Chained E C steps w) (hlaws : Ceremonies E C) (hsound : Sound w)
    (hc : Change rp w a w')
    (henrols : ∀ i hello now challenge hello' now' r, w.stage i = .replying hello now challenge →
      w'.stage i = .registering hello' now' r → E i r (steps ++ [(w, a)]))
    (hasserts : ∀ i hello now challenge hello' now' uid credentialId signCount,
      w.stage i = .replying hello now challenge →
      w'.stage i = .touching hello' now' uid credentialId signCount →
      C i uid credentialId (steps ++ [(w, a)])) :
    Chained E C (steps ++ [(w, a)]) w' := by
  have hgrows := hc.grows
  have hsame {τ : FixedBytes 32} {e e' : Issue} (h₀ : w.past.tokens τ = some e')
      (he : w'.past.tokens τ = some e) : w.past.tokens τ = some e := by
    rw [h₀, ← hgrows.tokens τ e' h₀, he]
  have hregistering (i : ℕ) (hello : AuthHello) (now : ℤ) (r : Registration)
      (hi : w.stage i = .registering hello now r) : E i r (steps ++ [(w, a)]) :=
    hlaws.enrolment (h.registering i hello now r hi) rfl rfl rfl _
  refine ⟨fun i hello now r hi => ?_, fun r hr => ?_, fun i x hi => ?_,
    fun i hello now uid hi e he => ?_, fun i hello now uid hi e he => ?_, fun τ e he => ?_⟩
  · have hmoves := hc.moves i
    generalize hs : w.stage i = s at hmoves
    rw [hi] at hmoves
    cases hmoves with
    | stay s hsince => exact hregistering i hello now r hs
    | consumed hello now challenge reg hspent hsince => exact henrols i _ _ _ _ _ r hs hi
  · rcases hc.passkeys hr with ⟨r₀, hr₀, huid, hid, hkey⟩ | ⟨j, hello, now, hj⟩
    · obtain ⟨i, hi⟩ := h.registrations r₀ hr₀
      exact ⟨i, hlaws.enrolment hi huid.symm hid.symm hkey.symm _⟩
    · exact ⟨j, hregistering j hello now r hj⟩
  · have hmoves := hc.moves i
    have hold := h.claimed i
    generalize hs : w.stage i = s at hmoves hold
    generalize hs' : w'.stage i = s' at hmoves hi
    cases hmoves with
    | stay s hsince => exact hlaws.append (hold x hi) _
    | registered hello now reg hsince =>
      obtain rfl := Option.some.inj hi
      exact hlaws.of_enrolment (hregistering i hello now reg hs)
    | found hello now challenge uid credentialId signCount hsince hfind =>
      obtain rfl := Option.some.inj hi
      exact hasserts i _ _ _ _ _ uid credentialId signCount hs hs'
    | touched hello now uid credentialId signCount hsince => exact hlaws.append (hold x hi) _
    | _ => cases hi
  · have hmoves := hc.moves i
    have hold := h.dropping i hello now uid
    have hholds := hsound.conns i
    generalize hs : w.stage i = s at hmoves hold hholds
    rw [hi] at hmoves
    cases hmoves with
    | stay s hsince =>
      obtain ⟨-, e', he', -⟩ := hholds
      exact (hold rfl e (hsame he' he)).append _
    | validated env payload rest hello uid ha hframe hdecode hlive =>
      obtain ⟨t, -, e', hstored, huid, -⟩ := hsound.exists_of_validateToken hlive
      have hissued := hsame hstored.issued he
      obtain rfl := Option.some.inj (hstored.issued.symm.trans hissued)
      exact .last ⟨⟨env, payload, rest, hello, ha, hs, hframe, hdecode, rfl, hlive⟩,
        huid ▸ h.tokens _ _ hissued⟩
  · have hmoves := hc.moves i
    have hdropping := h.dropping i hello now uid
    have hold := h.reissuing i hello now uid
    have hholds := hsound.conns i
    generalize hs : w.stage i = s at hmoves hdropping hold hholds
    rw [hi] at hmoves
    cases hmoves with
    | stay s hsince =>
      obtain ⟨-, e', he', -⟩ := hholds
      exact (hold rfl e (hsame he' he)).append _
    | dropped env hello now uid ha hsince hinner =>
      obtain ⟨-, e', he', -⟩ := hholds
      exact (hdropping rfl e (hsame he' he)).append _
  · rcases hc.tokens he with hold | ⟨-, i, env, rfl, rfl, hissue, -⟩
    · exact (h.tokens τ e hold).append _
    · exact h.issue hsound hissue

/-- Nothing is claimed in an empty daemon. -/
theorem start (clock : ℤ) : Chained E C [] { clock } := by
  refine ⟨fun i hello now r hi => ?_, fun r hr => absurd hr List.not_mem_nil, fun i x hi => ?_,
    fun i hello now uid hi => ?_, fun i hello now uid hi => ?_, fun τ e he => ?_⟩ <;>
    contradiction

/-- **What is stored** has its chain. -/
theorem stored (h : Chained E C steps w) (hsound : Sound w) {t : SessionToken}
    (ht : t ∈ w.daemon.devices.inner.tokens) :
    ∃ token i credentialId, t.token = hexEncode token.1 ∧
      Chain C steps token i t.uid credentialId := by
  obtain ⟨τ, e, hstored⟩ := hsound.stored t ht
  refine ⟨τ, e.conn, e.credentialId, hstored.token, ?_⟩
  rw [hstored.uid]
  exact h.tokens τ e hstored.issued

/-- **A handshake that is authenticated** has been issued a token that has its chain. -/
theorem authed (h : Chained E C steps w) (hsound : Sound w)
    (hi : w.stage i = .authed uid) :
    ∃ token credentialId, (i, token) ∈ w.past.answered ∧
      Chain C steps token i uid credentialId := by
  have hholds := hsound.conns i
  rw [hi] at hholds
  obtain ⟨τ, e, hanswered, he, rfl, rfl⟩ := hholds
  exact ⟨τ, e.credentialId, hanswered, h.tokens τ e he⟩

end Chained
end Chains
end World
end Quosh
