/-
# Revocation of tokens

`docs/13-browser-auth-and-trust.md`, "Revocation and recovery": a revocation drops a
credential and its tokens, or all tokens of a user, and is immediate.  What a token
descends from is in its history (`Root`): the ceremony with its user, its credential and
the time of its lookup, whatever rotations came after.

What is revoked has to stay away: no stored token and no handshake under way has such a
root (`Extinct`).  Every action keeps it so (`Extinct.change`), with one exception: a
handshake that made its lookup before the revocation and issues its token afterwards.

`revokeCredential_iff` says when `revoke_credential` ends all that a credential
authenticated: rotation drops the credential from a token, so only while none has been
rotated.  `revocation_not_lost` says it of `revoke_all` and `revoke_sessions` and of every
interleaving with handshakes: while no handshake straddles the revocation.
-/

import Quosh.System.Moves
import Quosh.System.Provenance

namespace Quosh
namespace World

open Bytes

variable {rp : Relying} {w : World}

/-- The ceremony at the root of a token. -/
structure Root where
  uid : ℕ
  credentialId : String
  born : ℕ

/-- The root of a token that was issued. -/
def rootOf (e : Issue) : Root := { uid := e.uid, credentialId := e.credentialId, born := e.born }

/-- The root of the token that a connection in a stage is about to issue. -/
def root (p : History) (i : ℕ) : Stage → Option Root
  | .dropping hello _ _ => (p.tokens hello.authToken).map rootOf
  | .reissuing hello _ _ => (p.tokens hello.authToken).map rootOf
  | .registering _ _ reg =>
    some { uid := reg.uid, credentialId := reg.credentialId, born := p.since i }
  | .touching _ _ uid credentialId _ => some { uid, credentialId, born := p.since i }
  | .issuing _ _ uid credentialId => some { uid, credentialId, born := p.since i }
  | _ => none

/-- What is revoked is gone: no stored token has such a root, nor has a handshake, unless
it may have been under way at the time `R` of the revocation. -/
structure Extinct (late : Prop) (Q : Root → Prop) (R : ℕ) (w : World) : Prop where
  stored : ∀ t ∈ w.daemon.devices.inner.tokens, ∀ τ e, Stored w.past t τ e → ¬Q (rootOf e)
  conns : ∀ i r, root w.past i (w.stage i) = some r → ¬Q r ∨ late ∧ w.past.since i < R

/-- The root of a handshake is what it looked up. -/
theorem root_eq {p p' : History} {clock : ℤ} {i : ℕ} {stage : Stage} (hgrows : Grows p p')
    (hsince : p'.since i = p.since i) (hholds : Holds p clock i stage) :
    root p' i stage = root p i stage := by
  cases stage with
  | dropping hello now uid =>
    obtain ⟨-, e, he, -⟩ := hholds
    rw [root, root, he, hgrows.tokens _ _ he]
  | reissuing hello now uid =>
    obtain ⟨-, e, he, -⟩ := hholds
    rw [root, root, he, hgrows.tokens _ _ he]
  | registering hello now reg => rw [root, root, hsince]
  | touching hello now uid credentialId signCount => rw [root, root, hsince]
  | issuing hello now uid credentialId => rw [root, root, hsince]
  | idle => rfl
  | opening => rfl
  | replying hello now challenge => rfl
  | resolving hello uid token => rfl
  | authed uid => rfl
  | attached k h => rfl
  | closed => rfl

/-- A token has the root of its handshake. -/
theorem root_of_issue {p : History} {i : ℕ} {stage : Stage} {e : Issue}
    (h : p.issue i stage = some e) : root p i stage = some (rootOf e) := by
  unfold History.issue at h
  split at h
  · rename_i hello now uid
    obtain ⟨old, hold, rfl⟩ := Option.map_eq_some_iff.1 h
    rw [root, hold]
    rfl
  · cases h
    rfl
  · cases h

variable {late : Prop} {Q : Root → Prop} {R : ℕ}

/-- **What is revoked stays away**, as long as no handshake issues what it looked up before
the revocation. -/
theorem Extinct.change {a : Action} {w' : World} (hsound : Sound w) (h : Extinct late Q R w)
    (hR : R ≤ w.past.stamp) (hQ : ∀ r, Q r → r.born < R)
    (hissue : ∀ i env, a = .turn i env → issuesTo (w.stage i) ≠ none → ∀ r,
      root w.past i (w.stage i) = some r → Q r → ¬(late ∧ w.past.since i < R))
    (hc : Change rp w a w') : Extinct late Q R w' := by
  have hgrows := hc.grows
  have hnow {r : Root} (hborn : r.born = w.past.stamp) : ¬Q r := by
    intro hr
    have := hQ r hr
    omega
  refine ⟨fun t ht τ e hstored => ?_, fun i r hr => ?_⟩
  · rcases hc.stored ht with hold | hnew
    · exact h.stored t hold τ e (hsound.stored_of_grows hgrows hold hstored)
    · rcases hc.tokens hstored.issued with he | ⟨-, i, env, ha, -, he, -⟩
      · exact absurd ((hnew τ e hstored).symm.trans he).symm (Option.some_ne_none e)
      · have hroot := root_of_issue he
        rcases h.conns i _ hroot with hnot | hlate
        · exact hnot
        · exact fun hq => hissue i env ha (issuesTo_of_issue he) _ hroot hq hlate
  · have hmoves := hc.moves i
    have hold := h.conns i
    have hholds := hsound.conns i
    generalize w.stage i = s at hmoves hold hholds
    generalize w'.stage i = s' at hmoves hr
    cases hmoves with
    | stay s hsince =>
      rw [root_eq hgrows hsince hholds] at hr
      rw [hsince]
      exact hold r hr
    | validated env payload rest hello uid ha hframe hdecode hlive =>
      obtain ⟨t, ht, e, hstored, -, -⟩ := hsound.exists_of_validateToken hlive
      rw [root, hgrows.tokens _ _ hstored.issued] at hr
      obtain rfl := Option.some.inj hr
      exact .inl (h.stored t ht _ e hstored)
    | dropped env hello now uid ha hsince hinner =>
      rw [hsince]
      refine hold r ?_
      rw [← root_eq hgrows hsince hholds]
      exact hr
    | consumed hello now challenge reg hspent hsince =>
      obtain rfl := Option.some.inj hr
      exact .inl (hnow hsince)
    | registered hello now reg hsince =>
      rw [root, hsince] at hr
      rw [hsince]
      exact hold r hr
    | found hello now challenge uid credentialId signCount hsince =>
      obtain rfl := Option.some.inj hr
      exact .inl (hnow hsince)
    | touched hello now uid credentialId signCount hsince =>
      rw [root, hsince] at hr
      rw [hsince]
      exact hold r hr
    | _ => cases hr

/-! ### One credential -/

/-- A handshake has looked something up and not issued its token yet. -/
def underway : Stage → Bool
  | .dropping .. => true
  | .reissuing .. => true
  | .registering .. => true
  | .touching .. => true
  | .issuing .. => true
  | _ => false

/-- A handshake that has found nobody has no root. -/
theorem root_eq_none {p : History} {i : ℕ} {stage : Stage} (h : underway stage = false) :
    root p i stage = none := by
  cases stage <;> first | rfl | cases h

/-- What is live has an origin that has not been revoked. -/
theorem Extinct.not_of_validateToken (hsound : Sound w) (h : Extinct late Q R w)
    {τ : FixedBytes 32} {now : ℤ} {uid : ℕ}
    (hlive : w.daemon.devices.validateToken τ now = some uid) :
    ∃ e, w.past.tokens τ = some e ∧ e.uid = uid ∧ ¬Q (rootOf e) := by
  obtain ⟨t, ht, e, hstored, huid, -⟩ := hsound.exists_of_validateToken hlive
  exact ⟨e, hstored.issued, huid, h.stored t ht τ e hstored⟩

/-- **What revoking a credential leaves.**  When no handshake is under way, the revocation
ends every token that descends from a ceremony with the credential, for good, exactly when
each of them that is stored is of the user who revokes and was never rotated. -/
theorem revokeCredential_iff (hw : w.Reachable rp) (hquiet : ∀ i, underway (w.stage i) = false)
    (write : Except String Unit) (uid : ℕ) (credentialId : String) :
    (∀ w', (world rp).AnyRun (w.act rp (.revokeCredential write uid credentialId)) w' →
      ∀ τ e, w'.past.tokens τ = some e → e.credentialId = credentialId →
        e.born ≤ w.past.stamp → ∀ now, w'.daemon.devices.validateToken τ now = none) ↔
    ∀ t ∈ w.daemon.devices.inner.tokens, ∀ τ e, Stored w.past t τ e →
      e.credentialId = credentialId → e.uid = uid ∧ e.ancestors = [] := by
  have hsound := hw.sound
  constructor
  · intro h t ht τ e hstored hid
    by_contra hnot
    have hmem : t ∈ (w.daemon.devices.revokeCredential write uid credentialId).2.inner.tokens := by
      rw [DeviceStore.inner_revokeCredential]
      refine List.mem_filter.2 ⟨ht, decide_eq_true ?_⟩
      rintro ⟨htuid, htid⟩
      refine hnot ⟨hstored.uid ▸ htuid, ?_⟩
      by_contra hanc
      rw [hstored.credentialId, if_neg hanc] at htid
      cases htid
    obtain ⟨hborn, hstamp, -, -⟩ := hsound.issued τ e hstored.issued
    have hnone := h _ .refl τ e hstored.issued hid (hborn.trans hstamp.le) t.lastSeen
    exact DeviceStore.validateToken_ne_none hmem hstored.token (by simp [sessionIdleSecs]) hnone
  · intro h w' hrun τ e he hid hborn now
    have hextinct : Extinct False (fun r => r.credentialId = credentialId ∧ r.born ≤ w.past.stamp)
        (w.past.stamp + 1) (w.act rp (.revokeCredential write uid credentialId)) := by
      refine ⟨fun t ht σ e' hstored hq => ?_, fun i r hr => ?_⟩
      · have ht : t ∈ (w.daemon.devices.revokeCredential write uid credentialId).2.inner.tokens :=
          ht
        rw [DeviceStore.inner_revokeCredential] at ht
        obtain ⟨ht, hkept⟩ := List.mem_filter.1 ht
        obtain ⟨huid, hanc⟩ := h t ht σ e' ⟨hstored.token, hstored.issued, hstored.uid,
          hstored.credentialId, hstored.lastSeen⟩ hq.1
        refine of_decide_eq_true hkept ⟨hstored.uid.trans huid, ?_⟩
        rw [hstored.credentialId, if_pos hanc]
        exact congrArg some hq.1
      · have hroot : root w.past i (w.stage i) = some r := hr
        rw [root_eq_none (hquiet i)] at hroot
        cases hroot
    have hreach : (w.act rp (.revokeCredential write uid credentialId)).Reachable rp :=
      hw.act trivial
    have hend := hreach.invariant hrun hextinct fun w₁ a w₂ hreach₁ hstamp hw₁ _ hc =>
      hw₁.change hreach₁.sound hstamp (fun r hr => Nat.lt_succ_of_le hr.2)
        (fun _ _ _ _ _ _ _ hlate => hlate.1) hc
    cases hlive : w'.daemon.devices.validateToken τ now with
    | none => rfl
    | some v =>
      obtain ⟨e', he', -, hnot⟩ := hend.not_of_validateToken (hreach.run hrun).sound hlive
      obtain rfl := Option.some.inj (he.symm.trans he')
      exact absurd ⟨hid, hborn⟩ hnot

/-- What a browser does that has a token: a handshake that replaces it. -/
def reconnect (i : ℕ) (b b' b'' : UInt8) : List Action :=
  [.accept i, .receive i (authHello (constBytes 32 b)), .turn i (smooth b'), .turn i (smooth b'),
    .turn i (smooth b'), .turn i (smooth b'')]

/-- What holds of an idle stage and of two connections holds of all, when no other has done
anything. -/
theorem forall_acts (rp : Relying) (as : List Action) (P : Stage → Prop) (hidle : P .idle)
    (h : ∀ a ∈ as, a.conn = none ∨ a.conn = some 0 ∨ a.conn = some 1)
    (h₀ : P (((world rp).acts {} as).stage 0)) (h₁ : P (((world rp).acts {} as).stage 1)) (i : ℕ) :
    P (((world rp).acts {} as).stage i) := by
  by_cases hi₀ : i = 0
  · rwa [hi₀]
  · by_cases hi₁ : i = 1
    · rwa [hi₁]
    · rw [stage_acts rp {} fun a ha => ?_]
      · exact hidle
      · rcases h a ha with hconn | hconn | hconn <;> rw [hconn] <;> simp [Ne.symm hi₀, Ne.symm hi₁]

set_option maxRecDepth 4000 in
/-- No handshake of the test is under way. -/
theorem enrolled_quiet : ∀ i, underway (enrolled.stage i) = false :=
  forall_acts _ _ (fun s => underway s = false) rfl (by simp [enrolment, Action.conn]) rfl rfl

set_option maxRecDepth 4000 in
/-- The hypotheses of `revokeCredential_iff` are satisfiable, and so is the condition: the
browser has enrolled and not reconnected. -/
theorem revokeCredential_iff_enrolled :
    (enrolled.act accepting
      (.revokeCredential (.ok ()) 1000 "01")).daemon.devices.validateToken (constBytes 32 1) 0 =
      none := by
  refine (revokeCredential_iff enrolled_reachable enrolled_quiet (.ok ()) 1000 "01").2
    (fun t ht τ e hstored _ => ?_) _ .refl (constBytes 32 1) _ rfl rfl (by decide) 0
  have htokens : enrolled.daemon.devices.inner.tokens = [{
      token := hexEncode (constBytes 32 1).1, uid := 1000, credentialId := some "01"
      lastSeen := 0 }] := rfl
  rw [htokens, List.mem_singleton] at ht
  subst ht
  refine ⟨hstored.uid.symm, ?_⟩
  by_contra hanc
  have hid := hstored.credentialId
  rw [if_neg hanc] at hid
  exact absurd hid (Option.some_ne_none "01")

set_option maxRecDepth 4000 in
/-- The run of the test is allowed. -/
theorem reconnected_allowed : (world accepting).AllowsAll (fun _ _ => True) {}
    (enrolment 0 1000 1 2 [1] ++ reconnect 1 1 3 4) :=
  ⟨rfl, trivial, rfl, trivial, trivial, trivial, rfl, trivial, rfl, trivial, rfl, trivial, rfl,
    trivial, rfl, trivial, rfl, trivial, trivial, trivial, rfl, trivial, rfl, trivial, rfl,
    trivial, rfl, trivial, trivial⟩

/-- The daemon after the browser has reconnected once: its token is now of threes. -/
def reconnected : World :=
  (world accepting).acts {} (enrolment 0 1000 1 2 [1] ++ reconnect 1 1 3 4)

set_option maxRecDepth 4000 in
/-- **A token that was rotated outlives its credential**: `revoke_credential` has returned
that the credential existed, and the token that replaced its token is live. -/
theorem rotated_token_survives :
    ¬∀ (rp : Relying) (w : World), w.Reachable rp → (∀ i, underway (w.stage i) = false) →
      ∀ write uid credentialId,
        (w.daemon.devices.revokeCredential write uid credentialId).1 = .ok true →
        ∀ w', (world rp).AnyRun (w.act rp (.revokeCredential write uid credentialId)) w' →
          ∀ τ e, w'.past.tokens τ = some e → e.credentialId = credentialId →
            e.born ≤ w.past.stamp → ∀ now, w'.daemon.devices.validateToken τ now = none := by
  intro h
  have hquiet : ∀ i, underway (reconnected.stage i) = false :=
    forall_acts _ _ (fun s => underway s = false) rfl
      (by simp [enrolment, reconnect, Action.conn]) rfl rfl
  have hnone := h accepting reconnected ⟨0, Machine.run_acts reconnected_allowed⟩ hquiet (.ok ())
    1000 "01" rfl _ .refl (constBytes 32 3) _ rfl rfl (by decide) 0
  have hlive : (reconnected.act accepting
      (.revokeCredential (.ok ()) 1000 "01")).daemon.devices.validateToken (constBytes 32 3) 0 =
      some 1000 := rfl
  exact absurd (hlive.symm.trans hnone) (Option.some_ne_none _)

/-! ### All tokens of a user -/

/-- A handshake that issues a token to the user looked up what it goes by at `R` or later. -/
def LooksUpAfter (uid R : ℕ) (w : World) : Action → Prop
  | .turn i _ => issuesTo (w.stage i) = some uid → R ≤ w.past.since i
  | _ => True

/-- A token is issued to the user of its root. -/
theorem issuesTo_eq {p : History} {clock : ℤ} {i : ℕ} {stage : Stage} {r : Root}
    (hholds : Holds p clock i stage) (hissues : issuesTo stage ≠ none)
    (hr : root p i stage = some r) : issuesTo stage = some r.uid := by
  cases stage with
  | reissuing hello now uid =>
    obtain ⟨-, e, he, rfl⟩ := hholds
    rw [root, he] at hr
    obtain rfl := Option.some.inj hr
    rfl
  | issuing hello now uid credentialId =>
    obtain rfl := Option.some.inj hr
    rfl
  | _ => exact absurd rfl hissues

/-- A revocation of all tokens of a user leaves none, but for handshakes under way. -/
theorem extinct_of_revoked (hsound : Sound w) {devices : DeviceStore} {uid : ℕ}
    (htokens : ∀ t ∈ devices.inner.tokens, t.uid ≠ uid) :
    Extinct True (fun r => r.uid = uid ∧ r.born < w.past.stamp + 1) (w.past.stamp + 1)
      { w with daemon := { w.daemon with devices }, past := w.past.tick } where
  stored t ht _ _ hstored hq := htokens t ht (hstored.uid.trans hq.1)
  conns i _ _ := .inr ⟨trivial, Nat.lt_succ_of_le (hsound.since i)⟩

/-- **Revocation is not lost** in any run in which no handshake of the user issues a token
for what it looked up before the revocation: whatever token of the user is live descends
from a ceremony that came after it. -/
theorem revocation_not_lost {w' : World} {a : Action} {write : Except String Unit} {uid : ℕ}
    (hw : w.Reachable rp) (ha : a = .revokeAll write uid ∨ a = .revokeSessions write uid)
    (hrun : (world rp).Run (LooksUpAfter uid (w.past.stamp + 1)) (w.act rp a) w') :
    ∀ τ now, w'.daemon.devices.validateToken τ now = some uid →
      ∃ e, w'.past.tokens τ = some e ∧ w.past.stamp < e.born := by
  have hreach : (w.act rp a).Reachable rp := by
    rcases ha with rfl | rfl <;> exact hw.act trivial
  have hstamp : (w.act rp a).past.stamp = w.past.stamp + 1 := by
    rcases ha with rfl | rfl <;> rfl
  have hstart : Extinct True (fun r => r.uid = uid ∧ r.born < w.past.stamp + 1)
      (w.past.stamp + 1) (w.act rp a) := by
    rcases ha with rfl | rfl
    · refine extinct_of_revoked hw.sound fun t ht => ?_
      rw [DeviceStore.inner_revokeAll] at ht
      exact of_decide_eq_true (List.mem_filter.1 ht).2
    · refine extinct_of_revoked hw.sound fun t ht => ?_
      rw [DeviceStore.inner_revokeSessions] at ht
      exact of_decide_eq_true (List.mem_filter.1 ht).2
  have hend := hreach.invariant hrun hstart fun w₁ b w₂ hreach₁ hstamp₁ hw₁ hok hc => by
    refine hw₁.change hreach₁.sound (hstamp.ge.trans hstamp₁) (fun r hr => hr.2)
      (fun i env hb hissues r hr hq hlate => ?_) hc
    subst hb
    have hto := issuesTo_eq (hreach₁.sound.conns i) hissues hr
    rw [hq.1] at hto
    exact absurd hlate.2 (Nat.not_lt.2 (hok hto))
  intro τ now hlive
  obtain ⟨e, he, huid, hnot⟩ := hend.not_of_validateToken (hreach.run hrun).sound hlive
  exact ⟨e, he, Nat.lt_of_not_le fun hle => hnot ⟨huid, Nat.lt_succ_of_le hle⟩⟩

/-- The daemon after everything of the user was revoked and they enrolled anew. -/
def reenrolled : World :=
  (world accepting).acts (enrolled.act accepting (.revokeAll (.ok ()) 1000))
    (enrolment 2 1000 5 6 [2])

set_option maxRecDepth 4000 in
/-- Its run. -/
theorem reenrolled_run : (world accepting).Run (LooksUpAfter 1000 (enrolled.past.stamp + 1))
    (enrolled.act accepting (.revokeAll (.ok ()) 1000)) reenrolled := by
  have hno (h : none = some 1000) {P : Prop} : P := absurd h.symm (Option.some_ne_none 1000)
  exact Machine.run_acts ⟨rfl, trivial, rfl, trivial, trivial, trivial, rfl, fun h => hno h,
    rfl, fun h => hno h, rfl, fun h => hno h, rfl, fun _ => by decide, rfl, fun h => hno h,
    trivial⟩

set_option maxRecDepth 4000 in
/-- The hypotheses of `revocation_not_lost` are satisfiable: the token of the new enrolment
is live. -/
theorem revocation_not_lost_reenrolled :
    reenrolled.daemon.devices.validateToken (constBytes 32 5) 0 = some 1000 ∧
      ∃ e, reenrolled.past.tokens (constBytes 32 5) = some e ∧ enrolled.past.stamp < e.born :=
  ⟨rfl, revocation_not_lost enrolled_reachable (.inl rfl) reenrolled_run (constBytes 32 5) 0 rfl⟩

/-- The daemon when the browser presents its token once more, and it is valid. -/
def presented : World :=
  (world accepting).acts enrolled
    [.accept 1, .receive 1 (authHello (constBytes 32 1)), .turn 1 (smooth 3)]

set_option maxRecDepth 4000 in
/-- Its end is reached. -/
theorem presented_reachable : presented.Reachable accepting := by
  have hrun : (world accepting).AnyRun enrolled presented :=
    Machine.run_acts ⟨rfl, trivial, trivial, trivial, rfl, trivial, trivial⟩
  exact enrolled_reachable.run hrun

set_option maxRecDepth 4000 in
/-- **A handshake under way outlives a revocation**: it has validated its token before
`revoke_all` and issues another afterwards, which is live. -/
theorem straddling_token_survives :
    ¬∀ (rp : Relying) (w : World), w.Reachable rp → ∀ a write uid,
      a = .revokeAll write uid ∨ a = .revokeSessions write uid →
        ∀ w', (world rp).AnyRun (w.act rp a) w' → ∀ τ now,
          w'.daemon.devices.validateToken τ now = some uid →
            ∃ e, w'.past.tokens τ = some e ∧ w.past.stamp < e.born := by
  intro h
  have hallowed : (world accepting).AllowsAll (fun _ _ => True)
      (presented.act accepting (.revokeAll (.ok ()) 1000))
      [.turn 1 (smooth 3), .turn 1 (smooth 3)] := ⟨rfl, trivial, rfl, trivial, trivial⟩
  obtain ⟨e, he, hborn⟩ := h accepting presented presented_reachable _ (.ok ()) 1000 (.inl rfl) _
    (Machine.run_acts hallowed) (constBytes 32 3) 0 rfl
  obtain rfl := Option.some.inj he
  exact absurd hborn (by decide)

end World
end Quosh
