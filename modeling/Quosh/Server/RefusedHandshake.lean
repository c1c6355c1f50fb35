/-
# What a refused handshake costs

`crates/quosh-server/src/auth.rs`, `run`: the handshake of one connection that begins with an
`AuthHello`, with nobody else at the daemon.  It is refused when its task ends before it has
written the `AuthOk`: by an `AuthFail`, by an error of the store or of the chain, or because
the client is gone.

The fast path drops the token that was presented before anything else can fail, and the
ceremony issues a token before it resolves the session.  So a refusal is free exactly when
no token was presented, which is thirty-two zeros on the wire, and it came before
`issue_token` (`refusal_free_iff`).
-/

import Quosh.Control.Machine
import Quosh.Server.Auth

namespace Quosh

open Bytes

namespace Handshake

/-- What happens on a connection: bytes come in, or its task takes a turn. -/
inductive Move where
  | bytes (b : Bytes)
  | turn (env : Env)

/-- A connection and the daemon, with nobody else.  The clock is read in the first turn of
the handshake only. -/
def alone (rp : Relying) (clock : ℤ) : Machine (Daemon × Handshake) Move where
  Allows _ _ := True
  act
    | (d, c), .bytes b => (d, { c with buf := c.buf ++ b })
    | (d, c), .turn env =>
      let (d, c, _) := c.turn rp env d clock
      (d, c)

/-- A task at this stage runs `issue_token` next. -/
def AtIssue : Stage → Prop
  | .reissuing .. | .issuing .. => True
  | _ => False

/-- In some of the moves the task runs `issue_token`. -/
def Issues (rp : Relying) (clock : ℤ) : Daemon × Handshake → List Move → Prop
  | _, [] => False
  | s, .bytes b :: moves => Issues rp clock ((alone rp clock).act s (.bytes b)) moves
  | s, .turn env :: moves =>
    AtIssue s.2.stage ∨ Issues rp clock ((alone rp clock).act s (.turn env)) moves

/-- The task ends without an `AuthOk`: it is dropped, and has been before no move behind
the handshake. -/
structure Refused (rp : Relying) (clock : ℤ) (s : Daemon × Handshake) (moves : List Move) :
    Prop where
  closed : ((alone rp clock).acts s moves).2.stage = .closed
  unanswered : (alone rp clock).AllowsAll (fun s _ => ∀ uid, s.2.stage ≠ .authed uid) s moves

/-- A token validates in the second daemon as in the first, and no token was added. -/
structure CostsNothing (token : FixedBytes 32) (d d' : Daemon) : Prop where
  validates : ∀ now, d'.devices.validateToken token now = d.devices.validateToken token now
  added : ∀ t ∈ d'.devices.inner.tokens, t ∈ d.devices.inner.tokens

/-- The tokens that are drawn are not in the store. -/
def DrawsNew (d : Daemon) (moves : List Move) : Prop :=
  ∀ env, .turn env ∈ moves → ∀ t ∈ d.devices.inner.tokens, t.token ≠ hexEncode env.token.1

/-! ### What each stage knows of the store -/

/-- The store has the tokens that it had. -/
def Untouched (d d' : Daemon) : Prop := d'.devices.inner.tokens = d.devices.inner.tokens

/-- The store has lost a token, or has a new one. -/
def Changed (token : FixedBytes 32) (d d' : Daemon) : Prop :=
  (∀ t ∈ d'.devices.inner.tokens, t.token ≠ hexEncode token.1) ∨
    ∃ t ∈ d'.devices.inner.tokens, t ∉ d.devices.inner.tokens

/-- What the store has become when the task is at a stage of the handshake, whether the
presented token is not the zeros (`spends`) and whether `issue_token` has run (`issued`). -/
def Tally (token : FixedBytes 32) (d d' : Daemon) (spends issued : Prop) : Stage → Prop
  | .dropping hello _ _ => hello.authToken = token ∧ spends ∧ ¬issued ∧ Untouched d d'
  | .reissuing .. => spends ∧ ∀ t ∈ d'.devices.inner.tokens, t.token ≠ hexEncode token.1
  | .replying .. | .registering .. | .touching .. | .issuing .. =>
    ¬spends ∧ ¬issued ∧ Untouched d d'
  | .resolving .. => (spends ∨ issued) ∧ Changed token d d'
  | .closed => ¬spends ∧ ¬issued ∧ Untouched d d' ∨ (spends ∨ issued) ∧ Changed token d d'
  | .authed _ => True
  | .idle | .opening | .attached .. => False

variable {rp : Relying} {env : Env} {clock : ℤ} {token : FixedBytes 32} {d d' : Daemon}
  {c : Handshake} {spends issued : Prop}

/-- A daemon that is as it was. -/
theorem Untouched.costsNothing (h : Untouched d d') : CostsNothing token d d' := by
  unfold Untouched at h
  constructor
  · intro now
    unfold DeviceStore.validateToken
    rw [h]
  · intro t ht
    rwa [h] at ht

/-- A change of the store has cost something, when the token was live. -/
theorem Changed.not_costsNothing {uid : ℕ} (hlive : d.devices.validateToken token clock = some uid)
    (h : Changed token d d') : ¬CostsNothing token d d' := by
  intro hfree
  rcases h with hlost | ⟨t, ht, hnew⟩
  · have hstill : d'.devices.validateToken token clock = some uid := by
      rw [hfree.validates, hlive]
    obtain ⟨t, ht, htoken, -, -⟩ := DeviceStore.exists_of_validateToken hstill
    exact hlost t ht htoken
  · exact hnew (hfree.added t ht)

/-- What is issued is new. -/
theorem Changed.of_issueToken (hnew : ∀ t ∈ d.devices.inner.tokens, t.token ≠ hexEncode env.token.1)
    (s : DeviceStore) (uid : ℕ) (credentialId : Option String) (now : ℤ) :
    Changed token d
      { d' with devices := (s.issueToken env.write env.token uid credentialId now).2 } := by
  refine .inr ⟨⟨hexEncode env.token.1, uid, credentialId, now⟩, ?_, fun ht => hnew _ ht rfl⟩
  rw [DeviceStore.inner_issueToken]
  exact List.mem_append_right _ (List.mem_singleton_self _)

/-! ### One turn -/

/-- `issue_token` changes the store, whether or not the file can be written. -/
theorem onIssue_tally {hello : AuthHello} {now : ℤ} {uid : ℕ} {credentialId : Option String}
    (hnew : ∀ t ∈ d.devices.inner.tokens, t.token ≠ hexEncode env.token.1)
    (hissued : spends ∨ issued) :
    Tally token d (onIssue env d' c hello now uid credentialId).1 spends issued
      (onIssue env d' c hello now uid credentialId).2.1.stage := by
  have hchanged : Changed token d { d' with devices :=
      (d'.devices.issueToken env.write env.token uid credentialId now).2 } :=
    .of_issueToken hnew d'.devices uid credentialId now
  unfold onIssue
  cases hi : d'.devices.issueToken env.write env.token uid credentialId now with
  | mk r devices =>
    rw [hi] at hchanged
    cases r with
    | ok t => exact ⟨hissued, hchanged⟩
    | error e => exact .inr ⟨hissued, hchanged⟩

/-- The reply of a ceremony changes no token. -/
theorem onReply_tally {hello : AuthHello} {now : ℤ} {challenge : FixedBytes 32} {typ : UInt8}
    {reply : Bytes} (h : ¬spends ∧ ¬issued ∧ Untouched d d') :
    Tally token d (onReply rp d' c hello now challenge typ reply).1 spends issued
      (onReply rp d' c hello now challenge typ reply).2.1.stage := by
  unfold onReply doEnroll
  split
  · cases Enroll.decode reply with
    | error e => exact .inl h
    | ok e =>
      dsimp only
      cases d'.nonces.consume e.nonce now with
      | mk spent nonces =>
        cases spent with
        | none => exact .inl h
        | some uid =>
          dsimp only
          cases rp.verifyRegistration rp.rpId rp.origin challenge e.clientDataJson
            e.attestationObject with
          | error m => exact .inl h
          | ok reg => exact h
  · split
    · cases doAssert rp d' reply challenge with
      | error e => exact .inl h
      | ok r => exact h
    · exact .inl h

/-- `resolve_session` and `send_ok` change no token. -/
theorem onResolve_tally {hello : AuthHello} {uid : ℕ} {authToken : FixedBytes 32}
    (h : (spends ∨ issued) ∧ Changed token d d') :
    Tally token d (onResolve env d' c hello uid authToken).1 spends issued
      (onResolve env d' c hello uid authToken).2.1.stage := by
  unfold onResolve
  cases env.hashes with
  | error e => exact .inr h
  | ok hashes =>
    dsimp only
    rcases resolveSession_spec d' env uid hello (if hello.cols = 0 then 80 else hello.cols)
      (if hello.rows = 0 then 24 else hello.rows) with
      ⟨e, he⟩ | ⟨ids, d'', hd'', hdevices, -, -⟩
    · rw [he]
      exact .inr h
    · rw [hd'']
      have h' : (spends ∨ issued) ∧ Changed token d d'' := by
        unfold Changed
        rw [hdevices]
        exact h
      dsimp only
      split
      · exact .inr h'
      · split
        · exact trivial
        · exact .inr h'

/-- **One turn keeps the tally**, by the stage that the task is at.  A token is lost at
`dropping` and only there, and one is issued at `reissuing` and `issuing`; no other turn
changes a token. -/
theorem turn_tally (hnew : ∀ t ∈ d.devices.inner.tokens, t.token ≠ hexEncode env.token.1)
    (hauthed : ∀ uid, c.stage ≠ .authed uid) (h : Tally token d d' spends issued c.stage) :
    Tally token d (c.turn rp env d' clock).1 spends (issued ∨ AtIssue c.stage)
      (c.turn rp env d' clock).2.1.stage := by
  unfold turn
  revert h
  cases hstage : c.stage with
  | dropping hello now uid =>
    rintro ⟨htoken, hspends, -, -⟩
    have hlost : ∀ t ∈ (d'.devices.dropToken env.write hello.authToken).2.inner.tokens,
        t.token ≠ hexEncode token.1 := by
      intro t ht
      rw [DeviceStore.inner_dropToken, htoken] at ht
      exact of_decide_eq_true (List.mem_filter.1 ht).2
    dsimp only
    cases hdrop : d'.devices.dropToken env.write hello.authToken with
    | mk r devices =>
      rw [hdrop] at hlost
      cases r with
      | ok u => exact ⟨hspends, hlost⟩
      | error e => exact .inr ⟨.inl hspends, .inl hlost⟩
  | reissuing hello now uid =>
    intro h
    exact onIssue_tally hnew (.inl h.1)
  | issuing hello now uid credentialId =>
    intro _
    exact onIssue_tally hnew (.inr (.inr trivial))
  | replying hello now challenge =>
    rintro ⟨hzero, hunissued, hd⟩
    have h' : ¬spends ∧ ¬(issued ∨ False) ∧ Untouched d d' := ⟨hzero, by simpa, hd⟩
    dsimp only
    cases nextFrame env.eof c.buf with
    | wait =>
      dsimp only
      rw [hstage]
      exact h'
    | failed e => exact .inl h'
    | frame typ reply rest => exact onReply_tally h'
  | registering hello now reg =>
    rintro ⟨hzero, hunissued, hd⟩
    have h' : ¬spends ∧ ¬(issued ∨ False) ∧
        (d'.devices.register env.write reg).2.inner.tokens = d.devices.inner.tokens :=
      ⟨hzero, by simpa, by rw [DeviceStore.inner_register]; exact hd⟩
    dsimp only
    cases hregister : d'.devices.register env.write reg with
    | mk r devices =>
      rw [hregister] at h'
      cases r with
      | ok u => exact h'
      | error e => exact .inl h'
  | touching hello now uid credentialId signCount =>
    rintro ⟨hzero, hunissued, hd⟩
    have h' : ¬spends ∧ ¬(issued ∨ False) ∧
        (d'.devices.touched env.write credentialId signCount now).2.inner.tokens =
          d.devices.inner.tokens :=
      ⟨hzero, by simpa, by rw [DeviceStore.tokens_touched]; exact hd⟩
    dsimp only
    cases htouched : d'.devices.touched env.write credentialId signCount now with
    | mk r devices =>
      rw [htouched] at h'
      cases r with
      | ok u => exact h'
      | error e => exact .inl h'
  | resolving hello uid authToken =>
    intro h
    exact onResolve_tally ⟨h.1.imp_right .inl, h.2⟩
  | closed =>
    rintro (⟨hzero, hunissued, hd⟩ | ⟨hcause, hd⟩)
    · dsimp only
      rw [hstage]
      exact .inl ⟨hzero, by simpa [AtIssue], hd⟩
    · dsimp only
      rw [hstage]
      exact .inr ⟨hcause.imp_right .inl, hd⟩
  | authed uid => exact absurd hstage (hauthed uid)
  | idle | opening | attached => exact False.elim

/-! ### The whole handshake -/

/-- The turn that takes the `AuthHello` drops nothing, and goes to the fast path with a live
token only when it is not the zeros. -/
theorem onAuthHello_tally {payload : Bytes} {hello : AuthHello} {uid : ℕ}
    (hdecode : AuthHello.decode payload = .ok hello)
    (hlive : d.devices.validateToken hello.authToken clock = some uid) :
    Tally hello.authToken d (onAuthHello rp env d c clock payload).1
      (hello.authToken.1 ≠ List.replicate 32 0) False
      (onAuthHello rp env d c clock payload).2.1.stage := by
  unfold onAuthHello
  rw [hdecode]
  dsimp only
  by_cases hzero : hello.authToken.1 = List.replicate 32 0
  · rw [if_pos hzero]
    have h : ¬hello.authToken.1 ≠ List.replicate 32 0 ∧ ¬False ∧ Untouched d d :=
      ⟨not_not.2 hzero, id, rfl⟩
    dsimp only
    cases env.hashes with
    | error e => exact .inl h
    | ok hashes =>
      dsimp only
      split
      · exact .inl h
      · split
        · exact h
        · exact .inl h
  · rw [if_neg hzero, hlive]
    exact ⟨rfl, hzero, id, rfl⟩

/-- **Any moves keep the tally**, as long as there was no `AuthOk`. -/
theorem acts_tally {moves : List Move} {s : Daemon × Handshake} (hnew : DrawsNew d moves)
    (hunanswered :
      (alone rp clock).AllowsAll (fun s _ => ∀ uid, s.2.stage ≠ .authed uid) s moves)
    (h : Tally token d s.1 spends issued s.2.stage) :
    Tally token d ((alone rp clock).acts s moves).1 spends
      (issued ∨ Issues rp clock s moves) ((alone rp clock).acts s moves).2.stage := by
  induction moves generalizing s issued with
  | nil => simpa [Issues, Machine.acts] using h
  | cons move moves ih =>
    obtain ⟨d', c⟩ := s
    obtain ⟨-, hauthed, hrest⟩ := hunanswered
    have hlater : DrawsNew d moves := fun env henv => hnew env (List.mem_cons_of_mem _ henv)
    cases move with
    | bytes b => exact ih hlater hrest h
    | turn env =>
      have hturn : Tally token d (c.turn rp env d' clock).1 spends (issued ∨ AtIssue c.stage)
          (c.turn rp env d' clock).2.1.stage := turn_tally (hnew env List.mem_cons_self) hauthed h
      have hall := ih hlater hrest hturn
      rw [or_assoc] at hall
      exact hall

/-- **A refused handshake with a live token is free iff** the token is the zeros, which are
no token on the wire, and it was refused before `issue_token`.  In every other refusal the
token is gone, or there is one that nobody got. -/
theorem refusal_free_iff {payload rest : Bytes} {hello : AuthHello} {uid : ℕ} {moves : List Move}
    (hopening : c.stage = .opening)
    (hframe : nextFrame env.eof c.buf = .frame msgAuthHello payload rest)
    (hdecode : AuthHello.decode payload = .ok hello)
    (hlive : d.devices.validateToken hello.authToken clock = some uid)
    (hnew : DrawsNew d (.turn env :: moves))
    (hrefused : Refused rp clock (d, c) (.turn env :: moves)) :
    CostsNothing hello.authToken d ((alone rp clock).acts (d, c) (.turn env :: moves)).1 ↔
      hello.authToken.1 = List.replicate 32 0 ∧ ¬Issues rp clock (d, c) (.turn env :: moves) := by
  have hfirst : c.turn rp env d clock =
      onAuthHello rp env d { c with buf := rest } clock payload := by
    unfold turn
    rw [hopening]
    dsimp only
    rw [hframe]
    exact if_pos rfl
  have hopened : Tally hello.authToken d (c.turn rp env d clock).1
      (hello.authToken.1 ≠ List.replicate 32 0) False (c.turn rp env d clock).2.1.stage := by
    rw [hfirst]
    exact onAuthHello_tally hdecode hlive
  have hlater : DrawsNew d moves := fun env henv => hnew env (List.mem_cons_of_mem _ henv)
  have htally : Tally hello.authToken d
      ((alone rp clock).acts ((alone rp clock).act (d, c) (.turn env)) moves).1
      (hello.authToken.1 ≠ List.replicate 32 0)
      (False ∨ Issues rp clock ((alone rp clock).act (d, c) (.turn env)) moves)
      ((alone rp clock).acts ((alone rp clock).act (d, c) (.turn env)) moves).2.stage :=
    acts_tally hlater hrefused.unanswered.2.2 hopened
  have hissues : Issues rp clock (d, c) (.turn env :: moves) ↔
      False ∨ Issues rp clock ((alone rp clock).act (d, c) (.turn env)) moves := by
    rw [Issues, hopening]
    exact Iff.rfl
  rw [hissues]
  have hclosed := hrefused.closed
  change ((alone rp clock).acts ((alone rp clock).act (d, c) (.turn env)) moves).2.stage = _
    at hclosed
  rw [hclosed] at htally
  rcases htally with ⟨hzero, hunissued, hd⟩ | ⟨hcause, hd⟩
  · exact iff_of_true hd.costsNothing ⟨not_not.1 hzero, hunissued⟩
  · exact iff_of_false (hd.not_costsNothing hlive) fun ⟨hzero, hunissued⟩ =>
      hcause.elim (fun h => h hzero) hunissued

/-! ### A stale tab -/

/-- The token of a browser, thirty-two ones. -/
def tabToken : FixedBytes 32 := constBytes 32 1

/-- A tab that has a live token, and the session of a daemon that was restarted since. -/
def staleHello : AuthHello where
  authToken := tabToken
  sessionId := constBytes 16 7
  sessionToken := constBytes 32 7
  cols := 80
  rows := 24

/-- The daemon behind its restart: the token was in the file, and no session is left. -/
def restarted : Daemon where
  devices :=
    let persisted := { tokens := [⟨hexEncode tabToken.1, 1000, none, 0⟩] }
    { inner := persisted, file := persisted }

/-- A daemon whose checks of `webauthn` refuse everything. -/
def refusing : Relying where
  rpId := "quosh.example"
  origin := "https://quosh.example"
  unixName _ := none
  verifyRegistration _ _ _ _ _ := .error "attestation"
  verifyAssertion _ _ _ _ _ _ _ := .error "assertion"

/-- The connection of the tab, whose first frame has come in. -/
def staleTab : Handshake := { buf := staleHello.encode, stage := .opening }

/-- The four turns of its handshake: `validate_token`, the removal, `issue_token` and
`resolve_session`. -/
def staleTurns : List Move := List.replicate 4 (.turn (smooth 2))

set_option maxRecDepth 4000 in
/-- The handshake of the test is refused. -/
theorem staleTab_refused : Refused refusing 0 (restarted, staleTab) staleTurns where
  closed := rfl
  unanswered :=
    ⟨trivial, fun _ => nofun, trivial, fun _ => nofun, trivial, fun _ => nofun, trivial,
      fun _ => nofun, trivial⟩

/-- **The reload of a stale tab costs its token**: the session is unknown, and the
`AuthFail` comes when the token has been replaced by one that the tab never gets. -/
theorem stale_tab_loses_token :
    restarted.devices.validateToken tabToken 0 = some 1000 ∧
      Refused refusing 0 (restarted, staleTab) staleTurns ∧
      ¬CostsNothing tabToken restarted
        ((alone refusing 0).acts (restarted, staleTab) staleTurns).1 := by
  refine ⟨by decide +kernel, staleTab_refused, fun hfree => ?_⟩
  have h := hfree.validates 0
  revert h
  decide +kernel

set_option maxRecDepth 4000 in
/-- The hypotheses of `refusal_free_iff` are satisfiable: the stale tab has a token. -/
theorem refusal_free_iff_stale_tab :
    CostsNothing tabToken restarted
        ((alone refusing 0).acts (restarted, staleTab) staleTurns).1 ↔
      tabToken.1 = List.replicate 32 0 ∧
        ¬Issues refusing 0 (restarted, staleTab) staleTurns := by
  have hframe : nextFrame (smooth 2).eof staleTab.buf =
      .frame msgAuthHello staleHello.payload [] := rfl
  have hdecode : AuthHello.decode staleHello.payload = .ok staleHello := rfl
  have hlive : restarted.devices.validateToken tabToken 0 = some 1000 := by decide +kernel
  have hnew : DrawsNew restarted staleTurns := by
    intro env henv t ht
    obtain rfl : env = smooth 2 := by simpa [staleTurns] using henv
    obtain rfl := List.mem_singleton.1 ht
    decide +kernel
  exact refusal_free_iff rfl hframe hdecode hlive hnew staleTab_refused

end Handshake
end Quosh
