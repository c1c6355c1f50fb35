/-
# A browser that comes back

`docs/13-browser-auth-and-trust.md`, "Session token lifetime": a browser that connects again within
the hour presents its token, and nobody is asked for a passkey.

The token is in the store until a revocation or the turn of a handshake takes it away
(`mem_tokens_act`).  As long as nothing does, and the hour is not over, the task of a connection
that presents it goes the one way of `Rotates`, and never asks.  `returns_silently` is what follows
for whole visits.

The store keeps no credential with a token that was rotated.  So that the new token descends
from the ceremony of the same passkey is said of the history of the run, which has what each
token was issued for.
-/

import Quosh.System.Rotation
import Quosh.System.SignIn

namespace Quosh
namespace World

open Bytes Web

variable {rp : Relying} {w w' : World} {a : Action} {i : ℕ} {hello : AuthHello}
  {τ κ : FixedBytes 32} {e : Issue}

/-! ### A token that is left alone -/

/-- An action does not take a token away. -/
def Leaves (τ : FixedBytes 32) (e : Issue) (w : World) : Action → Prop
  | .turn i _ => removes (w.stage i) ≠ some τ
  | .revokeCredential _ uid credentialId => ¬(uid = e.uid ∧ credentialId = e.credentialId)
  | .revokeAll _ uid | .revokeSessions _ uid => uid ≠ e.uid
  | _ => True

/-- A turn leaves all entries but those of the token that it removes. -/
theorem mem_tokens_turn (rp : Relying) (w : World) (i : ℕ) (env : Env) {t : SessionToken}
    (ht : t ∈ w.daemon.devices.inner.tokens) (htoken : t.token = hexEncode τ.1)
    (hremoves : removes (w.stage i) ≠ some τ) :
    t ∈ (w.act rp (.turn i env)).daemon.devices.inner.tokens := by
  have heffect := (w.conns i).turn_effect rp env w.daemon w.clock
  have hdaemon : (w.act rp (.turn i env)).daemon =
      ((w.conns i).turn rp env w.daemon w.clock).1 := rfl
  rw [hdaemon]
  generalize (w.conns i).turn rp env w.daemon w.clock = r at heffect
  cases heffect with
  | dropped c' hello now uid hstage hstage' =>
    rw [DeviceStore.inner_dropToken]
    refine List.mem_filter.2 ⟨ht, decide_eq_true fun heq => hremoves ?_⟩
    rw [show w.stage i = _ from hstage]
    exact congrArg some (Subtype.ext (hexEncode_inj (heq.symm.trans htoken)))
  | registered c' hello now reg hstage hstage' => rwa [DeviceStore.inner_register]
  | touched c' hello now uid credentialId signCount hstage hstage' =>
    rwa [DeviceStore.tokens_touched]
  | issued c' hello now uid credentialId hstage hstage' =>
    rw [DeviceStore.inner_issueToken]
    exact List.mem_append_left _ ht
  | resolved c' d' hello uid token spawned answered hstage hdevices hnonces hspawned hnone
      hstage' =>
    rwa [hdevices]
  | _ => exact ht

/-- **The entry of a token stays** until a revocation or a turn takes it away. -/
theorem mem_tokens_act {t : SessionToken} (ht : t ∈ w.daemon.devices.inner.tokens)
    (hstored : Stored w.past t τ e) (hleaves : Leaves τ e w a) :
    t ∈ (w.act rp a).daemon.devices.inner.tokens := by
  cases a with
  | turn i env => exact mem_tokens_turn rp w i env ht hstored.token hleaves
  | revokeCredential write uid credentialId =>
    rw [show (w.act rp (.revokeCredential write uid credentialId)).daemon.devices =
      (w.daemon.devices.revokeCredential write uid credentialId).2 from rfl,
      DeviceStore.inner_revokeCredential]
    refine List.mem_filter.2 ⟨ht, decide_eq_true fun heq => hleaves ?_⟩
    refine ⟨heq.1.symm.trans hstored.uid, ?_⟩
    have hid := heq.2.symm.trans hstored.credentialId
    split at hid
    · exact Option.some.inj hid
    · cases hid
  | revokeAll write uid =>
    rw [show (w.act rp (.revokeAll write uid)).daemon.devices =
      (w.daemon.devices.revokeAll write uid).2 from rfl, DeviceStore.inner_revokeAll]
    exact List.mem_filter.2 ⟨ht, decide_eq_true fun heq => hleaves (heq.symm.trans hstored.uid)⟩
  | revokeSessions write uid =>
    rw [show (w.act rp (.revokeSessions write uid)).daemon.devices =
      (w.daemon.devices.revokeSessions write uid).2 from rfl, DeviceStore.inner_revokeSessions]
    exact List.mem_filter.2 ⟨ht, decide_eq_true fun heq => hleaves (heq.symm.trans hstored.uid)⟩
  | serve i b =>
    rwa [show (w.act rp (.serve i b)).daemon.devices = w.daemon.devices from devices_serve w i b]
  | create uid cols rows id token spawn => rwa [devices_create]
  | _ => exact ht

/-- A token with an entry of this hour is live. -/
theorem presents_of_stored {t : SessionToken} (ht : t ∈ w.daemon.devices.inner.tokens)
    (hstored : Stored w.past t hello.authToken e)
    (hzero : hello.authToken.1 ≠ List.replicate 32 0)
    (hseen : w.clock - e.seen ≤ sessionIdleSecs) : w.Presents hello :=
  ⟨hzero, DeviceStore.validateToken_ne_none ht hstored.token (by rwa [hstored.lastSeen])⟩

/-! ### The way of a connection that presents one -/

/-- A token was issued in place of `τ`, for the same user and passkey. -/
def Renews (p : History) (τ : FixedBytes 32) (e : Issue) (κ : FixedBytes 32) : Prop :=
  ∃ e', p.tokens κ = some e' ∧ e'.uid = e.uid ∧ e'.credentialId = e.credentialId ∧
    e'.ancestors = τ :: e.ancestors

/-- The stages of a connection that goes by the token of its hello. -/
inductive Rotates (p : History) (hello : AuthHello) (e : Issue) : Stage → Prop
  | opening : Rotates p hello e .opening
  | dropping (now : ℤ) : Rotates p hello e (.dropping hello now e.uid)
  | reissuing (now : ℤ) : Rotates p hello e (.reissuing hello now e.uid)
  | resolving {κ : FixedBytes 32} (h : Renews p hello.authToken e κ) :
    Rotates p hello e (.resolving hello e.uid κ)
  | authed (uid : ℕ) : Rotates p hello e (.authed uid)
  | attached (k : ℕ) (h : Handler) : Rotates p hello e (.attached k h)
  | closed : Rotates p hello e .closed

/-- A token stays the renewal of another. -/
theorem Renews.mono {p p' : History} (hgrows : Grows p p') (h : Renews p τ e κ) :
    Renews p' τ e κ := by
  obtain ⟨e', he', huid, hid, hanc⟩ := h
  exact ⟨e', hgrows.tokens _ _ he', huid, hid, hanc⟩

/-- A handshake that rotates it stays one. -/
theorem Rotates.mono {p p' : History} (hgrows : Grows p p') {s : Stage}
    (h : Rotates p hello e s) : Rotates p' hello e s := by
  cases h with
  | opening => exact .opening
  | dropping now => exact .dropping now
  | reissuing now => exact .reissuing now
  | resolving h => exact .resolving (h.mono hgrows)
  | authed uid => exact .authed uid
  | attached k h => exact .attached k h
  | closed => exact .closed

/-- A connection presents a token that was issued, and what it is answered with is issued in place
of it. -/
structure Returning (i : ℕ) (hello : AuthHello) (e : Issue) (w : World) : Prop where
  issued : w.past.tokens hello.authToken = some e
  entry : w.stage i = .opening →
    ∃ t ∈ w.daemon.devices.inner.tokens, Stored w.past t hello.authToken e
  rotates : Rotates w.past hello e (w.stage i)
  answered : ∀ κ, (i, κ) ∈ w.past.answered → Renews w.past hello.authToken e κ

section Phases

variable {s : Stage} {up down : Bytes} {b : SignIn}

/-- What a task works on is the hello of the browser. -/
theorem Phase.working_eq {P : Prop} (h : Phase w i hello P s up down b) {hello' : AuthHello}
    (hs : Handshake.working s = some hello') : hello' = hello := by
  cases h with
  | working hs' hb => exact Option.some.inj (hs.symm.trans hs')
  | _ => cases hs

/-- A task that never asks does not wait for a reply. -/
theorem Phase.ne_replying (h : Phase w i hello False s up down b) (hello' : AuthHello) (now : ℤ)
    (challenge : FixedBytes 32) : s ≠ .replying hello' now challenge := by
  rintro rfl
  cases h with
  | working hs hb => cases hs
  | challenged hP now c hfits => exact hP
  | prompting hP now challenge rpId => exact hP
  | answering hP now challenge hlen => exact hP

/-- A token of the user of an issue is what is found under it. -/
theorem Returning.uid_eq (hsound : Sound w) (h : Returning i hello e w) {uid : ℕ}
    (hlive : w.daemon.devices.validateToken hello.authToken w.clock = some uid) : uid = e.uid := by
  obtain ⟨t, ht, htoken, huid, -⟩ := DeviceStore.exists_of_validateToken hlive
  obtain ⟨σ, e', hstored⟩ := hsound.stored t ht
  obtain rfl := hstored.eq_of_token htoken
  rw [← huid, hstored.uid, Option.some.inj (hstored.issued.symm.trans h.issued)]

/-- **A connection that presents a token goes on**, as the task never asks.  By the move of
the connection: with `False` for the prompt the phase shuts out the challenge and all behind
it, so the token is validated, dropped, issued anew for the same user, and answered. -/
theorem Rotates.change (hsound : Sound w) (h : Returning i hello e w) (hc : Change rp w a w')
    (hphase : Phase w' i hello False (w'.stage i) up down b) :
    Rotates w'.past hello e (w'.stage i) := by
  have hgrows := hc.grows
  have hmoves := hc.moves i
  have hrotates := h.rotates
  generalize w.stage i = s at hmoves hrotates
  generalize w'.stage i = s' at hmoves hphase
  cases hmoves with
  | stay s hsince => exact hrotates.mono hgrows
  | close s => exact .closed
  | accept => cases hrotates
  | challenged hello' challenge => exact absurd rfl (hphase.ne_replying hello' _ challenge)
  | validated env payload rest hello' uid ha hframe hdecode hlive =>
    obtain rfl := hphase.working_eq (rfl : Handshake.working (.dropping hello' w.clock uid) = _)
    obtain rfl := h.uid_eq hsound hlive
    exact .dropping _
  | dropped env hello' now uid ha hsince hinner =>
    cases hrotates with
    | dropping now => exact .reissuing now
  | consumed hello' now challenge reg hx hsince => cases hrotates
  | registered hello' now reg hsince => cases hrotates
  | found hello' now challenge uid credentialId signCount hsince hfind => cases hrotates
  | touched hello' now uid credentialId signCount hsince => cases hrotates
  | issued env hello' uid s hissues htoken =>
    cases hrotates with
    | reissuing now =>
      obtain rfl :=
        hphase.working_eq (rfl : Handshake.working (.resolving hello' uid env.token) = _)
      obtain rfl := Option.some.inj hissues
      have hissue : w.past.issue i (.reissuing hello' now e.uid) = some { e with
          ancestors := hello'.authToken :: e.ancestors, conn := i, stamp := w.past.stamp
          seen := now } := by
        unfold History.issue
        dsimp only
        rw [h.issued]
        rfl
      exact .resolving ⟨_, htoken.trans hissue, rfl, rfl, rfl⟩
    | _ => cases hissues
  | answered hello' uid token hanswered => exact .authed uid
  | attached s k handler hs => exact .attached k handler
  | served k handler handler' => exact .attached k handler'

end Phases

/-- A connection that was not accepted has no answer. -/
theorem Reachable.unanswered (hw : w.Reachable rp) (hidle : w.stage i = .idle)
    (κ : FixedBytes 32) : (i, κ) ∉ w.past.answered := by
  have hall : w.stage i = .idle → ∀ κ, (i, κ) ∉ w.past.answered := by
    refine hw.induction (I := fun w => w.stage i = .idle → ∀ κ, (i, κ) ∉ w.past.answered)
      (fun clock _ κ hκ => by cases hκ) fun w₁ a w₂ _ ih hc hidle κ hκ => ?_
    have hidle₁ : w₁.stage i = .idle := by
      have hmoves := hc.moves i
      rw [hidle] at hmoves
      generalize w₁.stage i = s at hmoves ⊢
      cases hmoves with
      | stay s hsince => rfl
    rcases hc.answered hκ with hκ | ⟨hello, uid, hstage⟩
    · exact ih hidle₁ κ hκ
    · rw [hidle₁] at hstage
      cases hstage
  exact hall hidle κ

/-- **An action that leaves the token alone** until the task has taken the hello. -/
theorem Returning.act (hsound : Sound w) (h : Returning i hello e w) (hallows : w.Allows a)
    (hleaves : w.stage i = .opening → Leaves hello.authToken e w a) {up down : Bytes} {b : SignIn}
    (hphase : Phase (w.act rp a) i hello False ((w.act rp a).stage i) up down b) :
    Returning i hello e (w.act rp a) := by
  have hc : Change rp w a (w.act rp a) := World.change hallows
  have hgrows := hc.grows
  refine ⟨hgrows.tokens _ _ h.issued, fun hopening => ?_, Rotates.change hsound h hc hphase,
    fun κ hκ => ?_⟩
  · have hold : w.stage i = .opening := by
      have hmoves := hc.moves i
      have hrotates := h.rotates
      rw [hopening] at hmoves
      generalize w.stage i = s at hmoves hrotates ⊢
      cases hmoves with
      | stay s hsince => rfl
      | accept => cases hrotates
    obtain ⟨t, ht, hstored⟩ := h.entry hold
    exact ⟨t, mem_tokens_act ht hstored (hleaves hold), hstored.mono hgrows⟩
  · rcases hc.answered hκ with hκ | ⟨hello', uid, hstage⟩
    · exact (h.answered κ hκ).mono hgrows
    · have hrotates := h.rotates
      rw [show w.stage i = _ from hstage] at hrotates
      cases hrotates with
      | resolving hrenews => exact hrenews.mono hgrows

/-- The connection is accepted. -/
theorem returning_accept (hw : w.Reachable rp) (hidle : w.stage i = .idle)
    (hissued : w.past.tokens hello.authToken = some e) (hstored : ¬Gone w hello.authToken) :
    Returning i hello e (w.act rp (.accept i)) := by
  have hgrows : Grows w.past (w.act rp (.accept i)).past :=
    (World.change (a := .accept i) hidle).grows
  have hopening : (w.act rp (.accept i)).stage i = .opening :=
    congrArg Handshake.stage (Function.update_self i _ w.conns)
  refine ⟨hgrows.tokens _ _ hissued, fun _ => ?_, hopening ▸ .opening, fun κ hκ => ?_⟩
  · obtain ⟨t, ht, htoken⟩ : ∃ t ∈ w.daemon.devices.inner.tokens,
        t.token = hexEncode hello.authToken.1 := by simpa [Gone] using hstored
    obtain ⟨σ, e', hentry⟩ := hw.sound.stored t ht
    obtain rfl := hentry.eq_of_token htoken
    obtain rfl := Option.some.inj (hentry.issued.symm.trans hissued)
    exact ⟨t, ht, hentry.mono hgrows⟩
  · exact absurd hκ (hw.unanswered hidle κ)

end World

namespace Visit

open World Bytes Web

variable {rp : Relying} {i : ℕ} {hello : AuthHello} {e : Issue} {v : Visit} {a : Action}

/-! ### A visit with a token -/

/-- As long as the task has not taken the hello, nothing takes the token away, and its hour is not
over. -/
def Returns (i : ℕ) (τ : FixedBytes 32) (e : Issue) (v : Visit) (a : Action) : Prop :=
  v.Draws a ∧ ∀ b, a = .daemon b → v.world.stage i = .opening →
    v.world.clock - e.seen ≤ sessionIdleSecs ∧ v.world.Leaves τ e b

/-- What an action does to the daemon. -/
theorem world_act (rp : Relying) (hallows : v.Allows i a) : (v.act rp i a).world = v.world ∨
    ∃ b, (v.act rp i a).world = v.world.act rp b ∧ v.world.Allows b ∧
      (a = .daemon b ∨ ∃ bytes, b = .receive i bytes) := by
  cases a with
  | daemon b => exact .inr ⟨b, rfl, hallows.1, .inl rfl⟩
  | deliver n => exact .inr ⟨_, rfl, trivial, .inr ⟨_, rfl⟩⟩
  | hear n =>
    refine .inl ?_
    show (if v.browser.awaits then _ else v).world = v.world
    split <;> rfl
  | _ => exact .inl rfl

/-- The two are together, and nobody is asked for a passkey. -/
structure Returned (rp : Relying) (i : ℕ) (hello : AuthHello) (e : Issue) (v : Visit) : Prop where
  visiting : Visiting rp i hello False v
  returning : v.world.Returning i hello e

/-- How far the task has come, with this browser or one that has not given up. -/
theorem Visiting.exists_phase {P : Prop} (h : Visiting rp i hello P v) :
    ∃ up down b, World.Phase v.world i hello P (v.world.stage i) up down b := by
  rcases h.stands with ⟨hphase, -⟩ | ⟨e, -, -, down, b, hphase, -⟩
  · exact ⟨_, _, _, hphase⟩
  · exact ⟨_, _, _, hphase⟩

/-- **Every action leaves it so.** -/
theorem Returned.act (htyped : hello.Typed) (hzero : hello.authToken.1 ≠ List.replicate 32 0)
    (h : Returned rp i hello e v) (hallows : v.Allows i a)
    (hreturns : Returns i hello.authToken e v a) : Returned rp i hello e (v.act rp i a) := by
  obtain ⟨hdraws, hleaves⟩ := hreturns
  have hvisiting : Visiting rp i hello False (v.act rp i a) := by
    refine h.visiting.act htyped hallows hdraws (.inr fun b hb hopening => ?_)
    obtain ⟨t, ht, hstored⟩ := h.returning.entry hopening
    exact presents_of_stored ht hstored hzero (hleaves b hb hopening).1
  refine ⟨hvisiting, ?_⟩
  obtain ⟨up, down, b, hphase⟩ := hvisiting.exists_phase
  rcases world_act rp hallows with hsame | ⟨b, hworld, hb, hkind⟩
  · rw [hsame]
    exact h.returning
  · rw [hworld] at hphase ⊢
    refine h.returning.act h.visiting.reachable.sound hb (fun hopening => ?_) hphase
    rcases hkind with hdaemon | ⟨bytes, rfl⟩
    · exact (hleaves b hdaemon hopening).2
    · trivial

section Phases

variable {w : World} {s : Stage} {up down : Bytes} {b : SignIn}

/-- **No passkey is asked for.** -/
theorem ne_prompting (h : World.Phase w i hello False s up down b) (challenge : FixedBytes 32)
    (rpId : String) : b ≠ .prompting challenge rpId := by
  rintro rfl
  exact h.prompted

end Phases

/-- **A browser that comes back is let in silently.**  Its connection presents a token that is
stored.  If nothing takes the token away before the task has taken the hello, and that is within the
hour, then whatever else happens the browser is not asked for a passkey, and does not fail for the
want of one; and whatever it ends with is for the user of the token, with a token that was issued in
its place. -/
theorem returns_silently {w : World} {o : AuthOptions} {clock : ℤ}
    (hw : (Quosh.world rp).Run World.Draws { clock } w) (hidle : w.stage i = .idle)
    (hhello : o.hello = .ok hello) (hzero : hello.authToken.1 ≠ List.replicate 32 0)
    (hissued : w.past.tokens hello.authToken = some e) (hstored : ¬Gone w hello.authToken)
    (hrun : (visits rp i).Run (Returns i hello.authToken e) (start rp i w o) v) :
    (∀ challenge rpId, v.browser.stage ≠ .prompting challenge rpId) ∧
    (∀ err, v.browser.stage = .done (.error err) → err.ofCeremony = false) ∧
    ∀ r, v.browser.result = some r →
      r.uid = e.uid ∧ Renews v.world.past hello.authToken e r.authToken := by
  have htyped := AuthOptions.typed_hello hhello
  have hreturned : Returned rp i hello e v := by
    refine hrun.invariant ⟨visiting_start hw hidle hhello, ?_⟩ fun _ _ _ ht hallows hok =>
      ht.act htyped hzero hallows hok
    exact returning_accept ⟨clock, hw.any⟩ hidle hissued hstored
  refine ⟨fun challenge rpId hprompting => ?_, fun err herr => ?_, fun r hr => ?_⟩
  · rcases hreturned.visiting.stands with ⟨hphase, -⟩ | ⟨err, hfailed, -⟩
    · exact ne_prompting hphase challenge rpId hprompting
    · rw [hfailed] at hprompting
      cases hprompting
  · rcases hreturned.visiting.stands with ⟨hphase, -⟩ | ⟨err', hfailed, ⟨-, hnever⟩, -⟩
    · exact absurd herr (ne_failed hphase err)
    · rw [hfailed] at herr
      cases herr
      exact Bool.eq_false_iff.2 hnever
  · rcases hreturned.visiting.stands with ⟨hphase, -⟩ | ⟨err, hfailed, -⟩
    · obtain ⟨m, rfl, hm⟩ := granted_of_result hphase hr
      have hrenews := hreturned.returning.answered _ hm.answered
      refine ⟨?_, hrenews⟩
      obtain ⟨e', he', huid, -⟩ := hrenews
      obtain ⟨e'', he'', huid', -⟩ := hm.token
      rw [he'] at he''
      cases he''
      exact huid'.symm.trans huid
    · unfold Browser.result at hr
      rw [hfailed] at hr
      cases hr

/-! ### A browser that comes back -/

/-- The browser of `admitted`, which has kept its token, and has no ceremony. -/
def regular : AuthOptions where
  authToken := some (List.replicate 32 1)
  cols := 80
  rows := 24
  ceremony := false

/-- The hello of `regular`. -/
def regularHello : AuthHello := { newcomerHello with authToken := constBytes 32 1 }

/-- It connects once more, and hears the answer. -/
def reentry : List Action :=
  [.deliver 200, .daemon (.turn 1 (smooth 4)), .daemon (.turn 1 (smooth 4)),
    .daemon (.turn 1 (smooth 4)), .daemon (.turn 1 (smooth 5)), .hear 200]

/-- The visit up to there. -/
def readmitted : Visit :=
  (visits accepting 1).acts (start accepting 1 admitted.world regular) reentry

/-- Whether it is a turn of its own connection, in time, or what the browser does. -/
def prompt (v : Visit) : Action → Bool
  | .daemon (.turn j env) =>
    permits v (.daemon (.turn j env)) && decide (j = 1 ∧ v.world.clock = 0)
  | .daemon _ => false
  | _ => true

theorem returns_of_prompt {τ : FixedBytes 32} (hseen : e.seen = 0) (h : prompt v a = true) :
    v.Allows 1 a ∧ Returns 1 τ e v a := by
  cases a with
  | daemon b =>
    cases b with
    | turn j env =>
      obtain ⟨hpermits, hown⟩ := Bool.and_eq_true_iff.1 h
      obtain ⟨hallows, hdraws⟩ := allows_of_permits hpermits 1
      obtain ⟨rfl, hclock⟩ : j = 1 ∧ v.world.clock = 0 := of_decide_eq_true hown
      refine ⟨hallows, hdraws, fun b hb hopening => ?_⟩
      cases hb
      refine ⟨by rw [hclock, hseen]; decide, ?_⟩
      show removes (v.world.stage 1) ≠ some τ
      rw [hopening]
      intro hremoves
      cases hremoves
    | _ => cases h
  | _ => exact ⟨trivial, trivial, fun b hb => by cases hb⟩

/-- The hypotheses of `returns_silently` are satisfiable: the browser has a token again, of the same
user. -/
theorem returns_silently_readmitted : ∃ r, readmitted.browser.result = some r ∧ r.uid = 1000 := by
  have hadmitted : newcomer.hello = .ok newcomerHello := rfl
  obtain ⟨clock, hw⟩ := (visiting_of_run invited_run rfl hadmitted admitted_run).run
  have hidle : admitted.world.stage 1 = .idle :=
    World.allows_of_permits (a := .accept 1) (by decide +kernel)
  have hhello : regular.hello = .ok regularHello := rfl
  have hzero : regularHello.authToken.1 ≠ List.replicate 32 0 := by decide
  obtain ⟨e, hissued, huid, hseen⟩ : ∃ e, admitted.world.past.tokens regularHello.authToken =
      some e ∧ e.uid = 1000 ∧ e.seen = 0 := by
    have hsome : (admitted.world.past.tokens regularHello.authToken).map
        (fun e => (e.uid, e.seen)) = some (1000, 0) := by decide +kernel
    obtain ⟨e, he, heq⟩ := Option.map_eq_some_iff.1 hsome
    exact ⟨e, he, Prod.mk.inj heq⟩
  have hstored : ¬Gone admitted.world regularHello.authToken := by
    unfold Gone
    decide +kernel
  have hrun : (visits accepting 1).Run (Returns 1 regularHello.authToken e)
      (start accepting 1 admitted.world regular) readmitted := by
    have hall : ((visits accepting 1).steps (start accepting 1 admitted.world regular)
        reentry).all (fun st => prompt st.1 st.2) = true := by decide +kernel
    exact Machine.run_acts (Machine.allowsAll_of_steps fun st hst =>
      returns_of_prompt hseen (List.all_eq_true.1 hall st hst))
  have hsome : readmitted.browser.result.isSome = true := by decide +kernel
  obtain ⟨r, hr⟩ := Option.isSome_iff_exists.1 hsome
  have hsilent := returns_silently hw hidle hhello hzero hissued hstored hrun
  exact ⟨r, hr, (hsilent.2.2 r hr).1.trans huid⟩

end Visit
end Quosh
