/-
# Revocation and resumption

`docs/13-browser-auth-and-trust.md`, "Session model": when a user's tokens have lapsed,
resuming a session of theirs takes a passkey.  A connection gets to a session by two ways
through `handle_incoming`, with a plain hello or after a handshake, and they ask for
different secrets.

`resumption_ends` is about the sessions that browsers have started for a user, from the
time on when all tokens of the user are revoked or idle: whoever connects later and is
attached to one of them has completed a ceremony on that connection.  It holds in the runs
in which nobody opens with a plain hello for such a session, which takes no token of the
user at all, nor with a token that was issued since (`ComesAnew`).
-/

import Quosh.System.Moves
import Quosh.System.Provenance

namespace Quosh
namespace World

open Bytes

variable {rp : Relying} {w w' : World} {a : Action} {uid R : ℕ}

/-! ### Sessions and connections -/

/-- Sessions stay in their places with their users, and a connection that was attached or
opened is no new one. -/
structure Placed (w : World) : Prop where
  spawned : ∀ x ∈ w.past.spawned, ∃ s, w.daemon.heap[x.1]? = some s ∧ s.uid = x.2
  attached : ∀ x ∈ w.past.attached,
    x.k < w.daemon.heap.length ∧ settled (w.stage x.conn) = true
  opened : ∀ i, w.past.opened i ≤ w.past.stamp ∧
    (w.stage i = .idle ∨ w.past.opened i < w.past.stamp)

/-- **Every action keeps tokens and answers in place.** -/
theorem Placed.change (h : Placed w) (hc : Change rp w a w') : Placed w' := by
  have hlength {k : ℕ} (hk : k < w.daemon.heap.length) : k < w'.daemon.heap.length := by
    obtain ⟨s, hs, -⟩ := hc.heap (List.getElem?_eq_getElem hk)
    exact (List.getElem?_eq_some_iff.1 hs).1
  refine ⟨fun x hx => ?_, fun x hx => ?_, fun i => ?_⟩
  · rcases hc.spawned hx with hx | ⟨-, hs⟩
    · obtain ⟨s, hs, huid⟩ := h.spawned x hx
      obtain ⟨s', hs', huid'⟩ := hc.heap hs
      exact ⟨s', hs', huid'.trans huid⟩
    · exact hs
  · rcases hc.attached hx with hx | ⟨hsettled, env, payload, rest, hello, s, -, -, -, -, -, hget, -⟩
    · obtain ⟨hk, hsettled⟩ := h.attached x hx
      exact ⟨hlength hk, hc.stays_settled hsettled⟩
    · exact ⟨hlength (List.getElem?_eq_some_iff.1 (Daemon.heap_of_get hget)).1, hsettled⟩
  · have hstamp := hc.grows.stamp
    have hopened : w'.past.opened i ≤ w.past.stamp := by
      rcases hc.opened i with hsame | ⟨-, hnow⟩
      · rw [hsame]
        exact (h.opened i).1
      · exact hnow.le
    exact ⟨hopened.trans hstamp.le, .inr (hopened.trans_lt hstamp)⟩

/-- In every world that is reached they are. -/
theorem Reachable.placed (h : w.Reachable rp) : Placed w := by
  refine h.induction (fun clock => ?_) fun _ _ _ _ hp hc => hp.change hc
  exact ⟨fun x hx => absurd hx List.not_mem_nil, fun x hx => absurd hx List.not_mem_nil,
    fun i => ⟨le_rfl, .inl rfl⟩⟩

/-! ### Connections that come later -/

/-- A token was issued by a ceremony of the user that made its lookup at `R` or later. -/
def Ceremony (p : History) (uid R : ℕ) (τ : FixedBytes 32) : Prop :=
  ∃ e, p.tokens τ = some e ∧ e.uid = uid ∧ e.ancestors = [] ∧ R ≤ e.born

/-- A connection was answered at the end of such a ceremony. -/
def Completed (p : History) (uid R i : ℕ) : Prop := ∃ τ, (i, τ) ∈ p.answered ∧ Ceremony p uid R τ

/-- Where a connection can be that was opened at `R` or later. -/
def Fresh (p : History) (uid R i : ℕ) : Stage → Prop
  | .dropping _ _ v | .reissuing _ _ v => v ≠ uid
  | .registering .. | .touching .. | .issuing .. => R ≤ p.since i
  | .resolving _ v τ => v = uid → Ceremony p uid R τ
  | .authed v => v = uid → Completed p uid R i
  | _ => True

/-- The first frame of a connection that was opened at `R` or later is neither a hello for
a session that a browser started for the user, with its token, nor does it present a live
token of the user that was issued at `R` or later. -/
def ComesAnew (uid R : ℕ) (w : World) : Action → Prop
  | .turn i env => R ≤ w.past.opened i → w.stage i = .opening → ∀ payload rest,
    (nextFrame env.eof (w.conns i).buf = .frame msgHello payload rest →
      ∀ hello k s, Hello.decode payload = .ok hello → w.daemon.get hello.sessionId = some (k, s) →
        s.token = hello.token → (k, uid) ∉ w.past.spawned) ∧
    (nextFrame env.eof (w.conns i).buf = .frame msgAuthHello payload rest →
      ∀ hello e, AuthHello.decode payload = .ok hello →
        w.past.tokens hello.authToken = some e → R ≤ e.stamp →
          w.daemon.devices.validateToken hello.authToken w.clock ≠ some uid)
  | _ => True

/-- A token stays one of a later ceremony. -/
theorem Ceremony.mono {p p' : History} (hgrows : Grows p p') {τ : FixedBytes 32}
    (h : Ceremony p uid R τ) : Ceremony p' uid R τ := by
  obtain ⟨e, he, hrest⟩ := h
  exact ⟨e, hgrows.tokens _ _ he, hrest⟩

/-- A connection that was answered stays so. -/
theorem Completed.mono {p p' : History} (hgrows : Grows p p') {i : ℕ} (h : Completed p uid R i) :
    Completed p' uid R i := by
  obtain ⟨τ, hτ, hceremony⟩ := h
  exact ⟨τ, hgrows.answered _ hτ, hceremony.mono hgrows⟩

/-- A handshake that looked up later stays so. -/
theorem Fresh.mono {p p' : History} (hgrows : Grows p p') {i : ℕ} {stage : Stage}
    (hsince : p'.since i = p.since i) (h : Fresh p uid R i stage) : Fresh p' uid R i stage := by
  have hlater (hR : R ≤ p.since i) : R ≤ p'.since i := hR.trans hsince.ge
  cases stage with
  | dropping hello now v => exact h
  | reissuing hello now v => exact h
  | registering hello now reg => exact hlater h
  | touching hello now v credentialId signCount => exact hlater h
  | issuing hello now v credentialId => exact hlater h
  | resolving hello v τ => exact fun hv => (h hv).mono hgrows
  | authed v => exact fun hv => (h hv).mono hgrows
  | _ => trivial

/-- Tokens of the user are idle unless they were issued at `R` or later, and so it goes on:
who comes later gets to the user's sessions by a ceremony. -/
structure Anew (uid R : ℕ) (w : World) : Prop where
  lapsed : ∀ t ∈ w.daemon.devices.inner.tokens, ∀ τ e, Stored w.past t τ e → e.uid = uid →
    R ≤ e.stamp ∨ sessionIdleSecs < w.clock - e.seen
  conns : ∀ i, R ≤ w.past.opened i → Fresh w.past uid R i (w.stage i)
  attached : ∀ x ∈ w.past.attached, R ≤ w.past.opened x.conn → (x.k, uid) ∈ w.past.spawned →
    Completed w.past uid R x.conn

/-- A connection that was opened later moves.  A live token of the user that it presents is
not idle, so it was issued behind the moment, and such a validation `ComesAnew` shuts out; a
reply that is accepted stamps the connection with its time, and the token it is issued has
that. -/
theorem Anew.moves (hsound : Sound w) (h : Anew uid R w) (hR : R ≤ w.past.stamp)
    (hok : ComesAnew uid R w a) (hgrows : Grows w.past w'.past) {i : ℕ} {s' : Stage}
    (hopened : R ≤ w.past.opened i) (hmoves : Moves w a w' i (w.stage i) s') :
    Fresh w'.past uid R i s' := by
  have hfresh := h.conns i hopened
  generalize hs : w.stage i = s at hmoves hfresh
  cases hmoves with
  | stay s hsince => exact hfresh.mono hgrows hsince
  | validated env payload rest hello v ha hframe hdecode hlive =>
    rintro rfl
    subst ha
    obtain ⟨t, ht, e, hstored, huid, hseen⟩ := hsound.exists_of_validateToken hlive
    rcases h.lapsed t ht _ e hstored huid with hstamp | hidle
    · exact ((hok hopened hs payload rest).2 hframe) hello e hdecode hstored.issued hstamp hlive
    · omega
  | dropped env hello now v ha hsince hinner => exact hfresh
  | consumed hello now challenge reg hspent hsince => exact hR.trans hsince.ge
  | found hello now challenge v credentialId signCount hsince => exact hR.trans hsince.ge
  | registered hello now reg hsince =>
    have hsince' : R ≤ w.past.since i := hfresh
    exact hsince'.trans hsince.ge
  | touched hello now v credentialId signCount hsince =>
    have hsince' : R ≤ w.past.since i := hfresh
    exact hsince'.trans hsince.ge
  | issued env hello v s hissues htoken =>
    rintro rfl
    cases s with
    | reissuing hello' now v' => exact absurd (Option.some.inj hissues) hfresh
    | issuing hello' now v' credentialId =>
      exact ⟨_, htoken, Option.some.inj hissues, rfl, hfresh⟩
    | _ => cases hissues
  | answered hello v token hanswered =>
    exact fun hv => ⟨token, hanswered, (hfresh hv).mono hgrows⟩
  | _ => trivial

/-- **Every action keeps it so.**  Tokens that lapsed go on to lapse with the clock, and new
ones are issued behind the moment.  An attachment to a session of the user is by its session
token, which `ComesAnew` shuts out, or by a connection that has completed a handshake
(`Anew.moves`). -/
theorem Anew.change (hsound : Sound w) (hplaced : Placed w) (h : Anew uid R w)
    (hR : R ≤ w.past.stamp) (hok : ComesAnew uid R w a) (hc : Change rp w a w') :
    Anew uid R w' := by
  have hgrows := hc.grows
  have hopened {i : ℕ} (hi : w.stage i ≠ .idle) : w'.past.opened i = w.past.opened i :=
    (hc.opened i).resolve_right fun hidle => hi hidle.1
  refine ⟨fun t ht τ e hstored huid => ?_, fun i hi => ?_, fun x hx hx' hk => ?_⟩
  · rcases hc.stored ht with hold | hnew
    · have hclock := hc.clock
      rcases h.lapsed t hold τ e (hsound.stored_of_grows hgrows hold hstored) huid with hl | hl
      · exact .inl hl
      · right
        omega
    · rcases hc.tokens hstored.issued with he | ⟨-, i, env, -, -, he, -⟩
      · exact absurd ((hnew τ e hstored).symm.trans he).symm (Option.some_ne_none e)
      · exact .inl (hR.trans (issue_eq he).2.ge)
  · have hmoves := hc.moves i
    by_cases hidle : w.stage i = .idle
    · rw [hidle] at hmoves
      generalize w'.stage i = s' at hmoves ⊢
      cases hmoves with
      | issued env hello v s hissues htoken => cases hissues
      | attached s k handler hs => trivial
      | _ => trivial
    · exact h.moves hsound hR hok hgrows (hopened hidle ▸ hi) hmoves
  · rcases hc.attached hx with
      hx | ⟨-, env, payload, rest, hello, s, rfl, -, hstage, hframe, hdecode, hget, htoken,
        hspawned⟩
    · obtain ⟨hlt, hsettled⟩ := hplaced.attached x hx
      have hnot : w.stage x.conn ≠ .idle := fun hidle => by
        rw [hidle] at hsettled
        cases hsettled
      refine (h.attached x hx (hopened hnot ▸ hx') ?_).mono hgrows
      rcases hc.spawned hk with hk | ⟨hnew, -⟩
      · exact hk
      · exact absurd hnew hlt.ne
    · rw [hspawned] at hk
      rcases hstage with ⟨hstage, -⟩ | ⟨hstage, -⟩
      · have hnot : w.stage x.conn ≠ .idle := by
          rw [hstage]
          exact fun hidle => by cases hidle
        exact absurd hk ((hok (hopened hnot ▸ hx') hstage payload rest).1 hframe hello x.k s
          hdecode hget htoken)
      · have hnot : w.stage x.conn ≠ .idle := by
          rw [hstage]
          exact fun hidle => by cases hidle
        obtain ⟨s', hs', huid⟩ := hplaced.spawned _ hk
        obtain rfl := Option.some.inj ((Daemon.heap_of_get hget).symm.trans hs')
        have hfresh := h.conns x.conn (hopened hnot ▸ hx')
        rw [hstage] at hfresh
        exact (hfresh huid).mono hgrows

/-! ### After a revocation -/

/-- All tokens of a user are revoked by `revoke_all`, or idle for too long. -/
def Lapsed (rp : Relying) (uid : ℕ) (w w₀ : World) : Prop :=
  (∃ write, w₀ = w.act rp (.revokeAll write uid)) ∨
    w₀ = w ∧ ∀ t ∈ w.daemon.devices.inner.tokens, t.uid = uid →
      sessionIdleSecs < w.clock - t.lastSeen

/-- **Revocation also ends resumption** in any run in which those who come later come
anew: whoever connects after the user's tokens are revoked or idle, and is attached to a
session that a browser started for the user, has completed a ceremony for the user on
that connection. -/
theorem resumption_ends {w₀ : World} (hw : w.Reachable rp) (hlapsed : Lapsed rp uid w w₀)
    (hrun : (world rp).Run (ComesAnew uid w₀.past.stamp) w₀ w') :
    ∀ x ∈ w'.past.attached, w₀.past.stamp ≤ w'.past.opened x.conn →
      (x.k, uid) ∈ w'.past.spawned → Completed w'.past uid w₀.past.stamp x.conn := by
  have hreach : w₀.Reachable rp := by
    rcases hlapsed with ⟨write, rfl⟩ | ⟨rfl, -⟩
    · exact hw.act trivial
    · exact hw
  have hidle : ∀ t ∈ w₀.daemon.devices.inner.tokens, t.uid = uid →
      sessionIdleSecs < w₀.clock - t.lastSeen := by
    rcases hlapsed with ⟨write, rfl⟩ | ⟨rfl, hidle⟩
    · intro t ht huid
      have ht : t ∈ (w.daemon.devices.revokeAll write uid).2.inner.tokens := ht
      rw [DeviceStore.inner_revokeAll] at ht
      exact absurd huid (of_decide_eq_true (List.mem_filter.1 ht).2)
    · exact hidle
  have hplaced := hreach.placed
  have hold {i : ℕ} (hi : w₀.past.stamp ≤ w₀.past.opened i) : w₀.stage i = .idle :=
    (hplaced.opened i).2.resolve_right (Nat.not_lt.2 hi)
  have hstart : Anew uid w₀.past.stamp w₀ := by
    refine ⟨fun t ht τ e hstored huid => .inr ?_, fun i hi => ?_, fun x hx hx' => ?_⟩
    · exact hstored.lastSeen ▸ hidle t ht (hstored.uid.trans huid)
    · rw [hold hi]
      trivial
    · have hsettled := (hplaced.attached x hx).2
      rw [hold hx'] at hsettled
      cases hsettled
  have hend := hreach.invariant hrun hstart fun w₁ b w₂ hreach₁ hstamp hw₁ hok hc =>
    hw₁.change hreach₁.sound hreach₁.placed hstamp hok hc
  exact hend.attached

/-! ### Two browsers that come back -/

/-- The hello for a session. -/
def sessionHello (sessionId : FixedBytes 16) (token : FixedBytes 32) : Bytes :=
  Hello.encode { protocol := protocolVersion, sessionId, token, cols := 80, rows := 24 }

/-- A frame behind the first does not matter. -/
theorem comesAnew_of_ne {i : ℕ} {env : Env} (h : w.stage i ≠ .opening) :
    ComesAnew uid R w (.turn i env) :=
  fun _ hstage => absurd hstage h

/-- A first frame with a token that is not known is for a new ceremony. -/
theorem comesAnew_of_unknown {i : ℕ} {env : Env} {payload rest : Bytes} {hello : AuthHello}
    (hframe : nextFrame env.eof (w.conns i).buf = .frame msgAuthHello payload rest)
    (hdecode : AuthHello.decode payload = .ok hello)
    (hnone : w.past.tokens hello.authToken = none) : ComesAnew uid R w (.turn i env) := by
  intro _ _ payload' rest'
  constructor
  · intro hframe'
    exact absurd (hframe.symm.trans hframe') (by simp [msgHello, msgAuthHello])
  · intro hframe' hello' e hdecode' he
    obtain ⟨-, rfl, -⟩ := NextFrame.frame.inj (hframe.symm.trans hframe')
    obtain rfl := Except.ok.inj (hdecode.symm.trans hdecode')
    exact absurd (hnone.symm.trans he).symm (Option.some_ne_none e)

/-- After everything of the user is revoked, the browser enrols anew and goes back to its
session, the one of twos. -/
def returned : World :=
  (world accepting).acts (enrolled.act accepting (.revokeAll (.ok ()) 1000))
    (enrolment 2 1000 5 6 [2] ++
      [.receive 2 (sessionHello (constBytes 16 2) (constBytes 32 2)), .turn 2 (smooth 7)])

set_option maxRecDepth 4000 in
/-- The run of the test. -/
theorem returned_run :
    (world accepting).Run (ComesAnew 1000 (enrolled.past.stamp + 1))
      (enrolled.act accepting (.revokeAll (.ok ()) 1000)) returned :=
  Machine.run_acts ⟨rfl, trivial, rfl, trivial, trivial, trivial,
    rfl, comesAnew_of_unknown rfl rfl rfl,
    rfl, comesAnew_of_ne (fun h => nomatch h), rfl, comesAnew_of_ne (fun h => nomatch h),
    rfl, comesAnew_of_ne (fun h => nomatch h), rfl, comesAnew_of_ne (fun h => nomatch h),
    trivial, trivial, rfl, comesAnew_of_ne (fun h => nomatch h), trivial⟩

set_option maxRecDepth 4000 in
/-- The hypotheses of `resumption_ends` are satisfiable: the browser is attached by its new
connection. -/
theorem resumption_ends_returned :
    (∃ x ∈ returned.past.attached, x.conn = 2 ∧ (x.k, 1000) ∈ returned.past.spawned) ∧
      Completed returned.past 1000 (enrolled.past.stamp + 1) 2 :=
  ⟨⟨_, List.mem_singleton.2 rfl, rfl, List.mem_cons_self⟩,
    resumption_ends enrolled_reachable (.inl ⟨.ok (), rfl⟩) returned_run _
      (List.mem_singleton.2 rfl) (by decide) List.mem_cons_self⟩

/-- After everything of the user is revoked, somebody opens with a plain hello for the
browser's session. -/
def intruded : World :=
  (world accepting).acts (enrolled.act accepting (.revokeAll (.ok ()) 1000))
    [.accept 1, .receive 1 (sessionHello (constBytes 16 2) (constBytes 32 2)),
      .turn 1 (smooth 3)]

set_option maxRecDepth 4000 in
/-- **A session outlives all tokens of its user**: a plain hello with the session's id and
token is attached to it after `revoke_all`, with no ceremony. -/
theorem plain_hello_resumes :
    ¬∀ (rp : Relying) (w w₀ w' : World) (uid : ℕ), w.Reachable rp → Lapsed rp uid w w₀ →
      (world rp).AnyRun w₀ w' →
        ∀ x ∈ w'.past.attached, w₀.past.stamp ≤ w'.past.opened x.conn →
          (x.k, uid) ∈ w'.past.spawned → Completed w'.past uid w₀.past.stamp x.conn := by
  intro h
  have hrun : (world accepting).AnyRun (enrolled.act accepting (.revokeAll (.ok ()) 1000))
      intruded := Machine.run_acts ⟨rfl, trivial, trivial, trivial, rfl, trivial, trivial⟩
  obtain ⟨τ, hτ, -⟩ := h accepting enrolled _ intruded 1000 enrolled_reachable
    (.inl ⟨.ok (), rfl⟩) hrun _ (List.mem_singleton.2 rfl) (by decide) List.mem_cons_self
  have hanswered : intruded.past.answered = [(0, constBytes 32 1)] := rfl
  rw [hanswered] at hτ
  cases List.mem_singleton.1 hτ

end World
end Quosh
