/-
# How long things last

`docs/13-browser-auth-and-trust.md`: a nonce lasts ten minutes, and activity of a session,
in either direction, keeps its token alive for an hour.  In the daemon a handshake reads the
clock once, with its first frame, and goes by that when the reply comes and when it issues
a token; and nothing else sets when a token was seen.

`enrolment_in_time` is about the runs in which no reply spends a nonce whose time is up by
the clock though not by what its handshake has read (`InTime`): what is registered was in
time.  `alive_iff` says which activity keeps a token alive: that of the very second of its
handshake's first frame.
-/

import Quosh.System.Resumption
import Quosh.System.Rotation

namespace Quosh
namespace World

open Bytes

variable {rp : Relying} {w w' : World} {a : Action}

/-! ### Nonces -/

/-- A reply that spends a nonce by the clock that its handshake has read does so by the
clock. -/
def InTime (w : World) : Action → Prop
  | .turn i env => ∀ hello now challenge reply rest e n,
    w.stage i = .replying hello now challenge →
      nextFrame env.eof (w.conns i).buf = .frame msgEnroll reply rest →
        Enroll.decode reply = .ok e → w.daemon.nonces e.nonce = some n →
          now < n.expires → w.clock < n.expires
  | _ => True

/-- A nonce was spent less than its time after it was issued. -/
def SpentInTime (p : History) (x : Spent) : Prop :=
  ∃ issued, p.nonces x.nonce = some (x.uid, issued) ∧ x.clock < issued + nonceTtlSecs

/-- An action that spends in time. -/
theorem spentInTime_change (htraced : Traced w) (h : ∀ x ∈ w.past.spent, SpentInTime w.past x)
    (hok : InTime w a) (hc : Change rp w a w') : ∀ x ∈ w'.past.spent, SpentInTime w'.past x := by
  have hgrows := hc.grows
  have hold : ∀ x ∈ w.past.spent, SpentInTime w'.past x := by
    intro x hx
    obtain ⟨issued, hissued, hlt⟩ := h x hx
    exact ⟨issued, hgrows.nonces _ _ hissued, hlt⟩
  rcases hc.spent with hsame | ⟨y, hadd, env, hello, now, challenge, reply, rest, e, rfl, hstage,
    hframe, hdecode, hspent, hnonce, hclock⟩
  · rwa [hsame]
  · rw [hadd]
    intro x hx
    rcases List.mem_append.1 hx with hx | hx
    · exact hold x hx
    · obtain ⟨n, hn, huid, hexp⟩ := NonceStore.exists_of_consume hspent
      have hissued := (htraced.outstanding e.nonce n hn).1
      have hlt := hok hello now challenge reply rest e n hstage hframe hdecode hn hexp
      rw [List.mem_singleton.1 hx]
      refine ⟨n.expires - nonceTtlSecs, ?_, ?_⟩
      · rw [hnonce, ← huid]
        exact hgrows.nonces _ _ hissued
      · rw [hclock]
        omega

/-- Who registers has spent a nonce. -/
structure Backed (w : World) : Prop where
  registering : ∀ i hello now reg, w.stage i = .registering hello now reg →
    ∃ x ∈ w.past.spent, x.conn = i
  enrolled : ∀ i ∈ w.past.enrolled, ∃ x ∈ w.past.spent, x.conn = i

/-- **Every action keeps enrolments backed.** -/
theorem Backed.change (h : Backed w) (hc : Change rp w a w') : Backed w' := by
  have hmono {i : ℕ} (hi : ∃ x ∈ w.past.spent, x.conn = i) : ∃ x ∈ w'.past.spent, x.conn = i := by
    obtain ⟨x, hx, hconn⟩ := hi
    exact ⟨x, hc.grows.spent x hx, hconn⟩
  refine ⟨fun i hello now reg hi => ?_, fun i hi => ?_⟩
  · have hmoves := hc.moves i
    rw [hi] at hmoves
    generalize hs : w.stage i = s at hmoves
    cases hmoves with
    | stay s hsince => exact hmono (h.registering i hello now reg hs)
    | consumed hello now challenge reg hspent hsince =>
      obtain ⟨x, hx, hconn, -⟩ := hspent
      exact ⟨x, hx, hconn⟩
  · rcases hc.enrolled hi with hi | ⟨hello, now, reg, hi⟩
    · exact hmono (h.enrolled i hi)
    · exact hmono (h.registering i hello now reg hi)

/-- In every world that is reached they are. -/
theorem Reachable.backed (h : w.Reachable rp) : Backed w := by
  refine h.induction (fun clock => ?_) fun _ _ _ _ hb hc => hb.change hc
  exact ⟨fun i hello now reg hi => (by cases hi), fun i hi => absurd hi List.not_mem_nil⟩

/-- **Enrolment links expire** in any run in which no reply comes after the time of its
nonce and before that by the clock of its handshake: every registration is for a nonce that
its connection has spent, and the reply was processed less than `NONCE_TTL_SECS` after the
nonce was issued. -/
theorem enrolment_in_time {clock : ℤ} (hrun : (world rp).Run InTime { clock } w) :
    ∀ i ∈ w.past.enrolled, (∃ x ∈ w.past.spent, x.conn = i) ∧
      ∀ x ∈ w.past.spent, x.conn = i → SpentInTime w.past x := by
  have hreach : w.Reachable rp := ⟨clock, hrun.any⟩
  have hspent : ∀ x ∈ w.past.spent, SpentInTime w.past x := by
    refine Reachable.invariant (I := fun w₁ => ∀ x ∈ w₁.past.spent, SpentInTime w₁.past x)
      ⟨clock, .refl⟩ hrun (fun x hx => absurd hx List.not_mem_nil) ?_
    exact fun w₁ b w₂ hreach₁ _ hw₁ hok hc => spentInTime_change hreach₁.traced hw₁ hok hc
  exact fun i hi => ⟨hreach.backed.enrolled i hi, fun x hx _ => hspent x hx⟩

/-- A handshake whose clock has not gone on is in time. -/
theorem inTime_of_now {i : ℕ} {env : Env}
    (h : ∀ hello now challenge, w.stage i = .replying hello now challenge → now = w.clock) :
    InTime w (.turn i env) := by
  intro hello now challenge reply rest e n hstage _ _ _ hlt
  rwa [← h hello now challenge hstage]

set_option maxRecDepth 4000 in
/-- The run of the test. -/
theorem enrolled_run : (world accepting).Run InTime {} enrolled :=
  Machine.run_acts ⟨rfl, trivial, rfl, trivial, trivial, trivial,
    rfl, inTime_of_now (fun _ _ _ h => nomatch h),
    rfl, inTime_of_now (fun _ _ _ h => by cases h; rfl),
    rfl, inTime_of_now (fun _ _ _ h => nomatch h), rfl, inTime_of_now (fun _ _ _ h => nomatch h),
    rfl, inTime_of_now (fun _ _ _ h => nomatch h), trivial⟩

set_option maxRecDepth 4000 in
/-- The hypothesis of `enrolment_in_time` is satisfiable: the browser has replied at once. -/
theorem enrolment_in_time_enrolled :
    SpentInTime enrolled.past { conn := 0, nonce := constBytes 16 1, uid := 1000, clock := 0 } :=
  (enrolment_in_time enrolled_run 0 (List.mem_singleton.2 rfl)).2 _ (List.mem_singleton.2 rfl) rfl

/-- A browser that says hello with a link just issued, and replies 700 seconds later. -/
def late : List Action :=
  [.enrollNonce 1000 (constBytes 16 1), .accept 0, .receive 0 (authHello (constBytes 32 0)),
    .turn 0 (smooth 1), .tick 700, .receive 0 (enrollReply (constBytes 16 1) [1]),
    .turn 0 (smooth 1), .turn 0 (smooth 1)]

set_option maxRecDepth 4000 in
/-- **A link is good for as long as the browser keeps its handshake open**: the reply comes
after 700 seconds, and the passkey is registered. -/
theorem late_enrolment :
    ¬∀ (rp : Relying) (clock : ℤ) (w : World), (world rp).AnyRun { clock } w →
      ∀ i ∈ w.past.enrolled, (∃ x ∈ w.past.spent, x.conn = i) ∧
        ∀ x ∈ w.past.spent, x.conn = i → SpentInTime w.past x := by
  intro h
  have hallowed : (world accepting).AllowsAll (fun _ _ => True) {} late :=
    ⟨rfl, trivial, rfl, trivial, trivial, trivial, rfl, trivial, trivial, trivial, trivial,
      trivial, rfl, trivial, rfl, trivial, trivial⟩
  obtain ⟨issued, hissued, hlt⟩ := (h accepting 0 _ (Machine.run_acts hallowed) 0
    (List.mem_singleton.2 rfl)).2 _ (List.mem_singleton.2 rfl) rfl
  obtain ⟨-, rfl⟩ := Prod.mk.inj (Option.some.inj hissued)
  exact absurd hlt (by decide)

/-! ### Tokens -/

/-- Activity comes after the handshake that has issued the token. -/
def Active (w : World) : Prop :=
  ∀ x ∈ w.past.active, settled (w.stage x.1) = true ∧
    ∀ τ e, (x.1, τ) ∈ w.past.answered → w.past.tokens τ = some e → e.seen ≤ x.2

/-- **Every action keeps the times of activity.**  Whoever is active has settled, and a
connection that has settled is answered no more, so its tokens are the ones it had. -/
theorem Active.change (hsound : Sound w) (h : Active w) (hc : Change rp w a w') : Active w' := by
  have hgrows := hc.grows
  -- whoever is answered was issued the token before
  have hknown {i : ℕ} {τ : FixedBytes 32} {e : Issue} (hτ : (i, τ) ∈ w'.past.answered)
      (he : w'.past.tokens τ = some e) : w.past.tokens τ = some e := by
    have hsome : ∃ e₀, w.past.tokens τ = some e₀ := by
      rcases hc.answered hτ with hold | ⟨hello, uid, hstage⟩
      · obtain ⟨e₀, he₀, -⟩ := hsound.answered _ hold
        exact ⟨e₀, he₀⟩
      · have hholds := hsound.conns i
        rw [show w.stage i = _ from hstage] at hholds
        obtain ⟨e₀, he₀, -⟩ := hholds
        exact ⟨e₀, he₀⟩
    obtain ⟨e₀, he₀⟩ := hsome
    rwa [← Option.some.inj ((hgrows.tokens _ _ he₀).symm.trans he)]
  intro x hx
  rcases hc.active hx with hx | ⟨hclock, hsettled⟩
  · obtain ⟨hsettled, hseen⟩ := h x hx
    refine ⟨hc.stays_settled hsettled, fun τ e hτ he => ?_⟩
    rcases hc.answered hτ with hold | ⟨hello, uid, hstage⟩
    · exact hseen τ e hold (hknown hτ he)
    · rw [show w.stage x.1 = _ from hstage] at hsettled
      cases hsettled
  · refine ⟨hsettled, fun τ e hτ he => ?_⟩
    rw [hclock]
    exact (hsound.issued τ e (hknown hτ he)).2.2.1

/-- In every world that is reached they hold. -/
theorem Reachable.active (h : w.Reachable rp) : Active w :=
  h.induction (fun _ _ hx => absurd hx List.not_mem_nil)
    fun _ _ _ hreach hactive hc => hactive.change hreach.sound hc

/-- **Which activity keeps a token alive.**  When a connection was answered with a token
that is still stored, and there was activity on it at `t`, the token is live for all of the
hour after `t` exactly when `t` is what its handshake read on the clock. -/
theorem alive_iff (hw : w.Reachable rp) {i : ℕ} {τ : FixedBytes 32} {e : Issue} {t : ℤ}
    (hanswered : (i, τ) ∈ w.past.answered) (he : w.past.tokens τ = some e)
    (hstored : ¬Gone w τ) (hactive : (i, t) ∈ w.past.active) :
    (∀ t', t ≤ t' → t' ≤ t + sessionIdleSecs →
      w.daemon.devices.validateToken τ t' = some e.uid) ↔ t = e.seen := by
  have hsound := hw.sound
  have hseen : e.seen ≤ t := (hw.active _ hactive).2 τ e hanswered he
  obtain ⟨entry, hentry, htoken⟩ : ∃ entry ∈ w.daemon.devices.inner.tokens,
      entry.token = hexEncode τ.1 := by
    simpa [Gone] using hstored
  obtain ⟨σ, e', hentry'⟩ := hsound.stored entry hentry
  obtain rfl : σ = τ := Subtype.ext (hexEncode_inj (hentry'.token.symm.trans htoken))
  obtain rfl := Option.some.inj (hentry'.issued.symm.trans he)
  have hlive (t' : ℤ) : w.daemon.devices.validateToken σ t' =
      if t' - e'.seen ≤ sessionIdleSecs then some e'.uid else none := by
    rw [DeviceStore.validateToken_of_nodup hsound.distinct hentry htoken t', hentry'.lastSeen,
      hentry'.uid]
  constructor
  · intro h
    have hlast := h (t + sessionIdleSecs) (by simp [sessionIdleSecs]) le_rfl
    rw [hlive] at hlast
    split at hlast
    · omega
    · cases hlast
  · rintro rfl t' - hlt
    rw [hlive, if_pos (by omega)]

/-- The browser's session when it has something to show. -/
def shown : Session where
  id := constBytes 16 2
  token := constBytes 32 2
  uid := 1000
  size := (80, 24)
  latest := some { version := 1, blob := [] }

/-- The browser goes on to its session, which has a screen to show at once or after a
while. -/
def watching (before after : List Action) : World :=
  (world accepting).acts enrolled (before ++
    [.receive 0 (sessionHello (constBytes 16 2) (constBytes 32 2)), .turn 0 (smooth 7)] ++ after)

set_option maxRecDepth 4000 in
/-- The run of the test. -/
theorem watching_reachable : (watching [.session 0 shown] []).Reachable accepting := by
  have hrun : (world accepting).AnyRun enrolled (watching [.session 0 shown] []) :=
    Machine.run_acts ⟨⟨_, rfl, rfl, rfl, rfl⟩, trivial, trivial, trivial, rfl, trivial, trivial⟩
  exact enrolled_reachable.run hrun

set_option maxRecDepth 4000 in
/-- The hypotheses of `alive_iff` are satisfiable, and so is the condition: a screen goes
out in the second of the handshake's first frame. -/
theorem alive_iff_watching :
    (watching [.session 0 shown] []).daemon.devices.validateToken (constBytes 32 1) 3600 =
      some 1000 :=
  (alive_iff watching_reachable (List.mem_singleton.2 rfl) rfl
    (fun hgone => hgone _ (List.mem_singleton.2 rfl) rfl) (List.mem_singleton.2 rfl)).2 rfl
    3600 (by decide) (by decide)

set_option maxRecDepth 4000 in
/-- **Activity does not keep a token alive**: a screen goes out ten seconds after the
handshake, and the token is not live an hour later. -/
theorem active_token_dies :
    ¬∀ (rp : Relying) (w : World), w.Reachable rp → ∀ i τ e t, (i, τ) ∈ w.past.answered →
      w.past.tokens τ = some e → ¬Gone w τ → (i, t) ∈ w.past.active →
        ∀ t', t ≤ t' → t' ≤ t + sessionIdleSecs →
          w.daemon.devices.validateToken τ t' = some e.uid := by
  intro h
  let shows : List Action := [.tick 10, .session 0 shown, .serve 0 (.latest 1000)]
  have hrun : (world accepting).AnyRun enrolled (watching [] shows) :=
    Machine.run_acts ⟨trivial, trivial, rfl, trivial, trivial, trivial,
      ⟨_, rfl, rfl, rfl, rfl⟩, trivial, trivial, trivial, trivial⟩
  have hlive := h accepting (watching [] shows) (enrolled_reachable.run hrun) 0
    (constBytes 32 1) _ 10 (List.mem_singleton.2 rfl) rfl
    (fun hgone => hgone _ (List.mem_singleton.2 rfl) rfl) (List.mem_singleton.2 rfl) 3610
    (by decide) (by decide)
  cases hlive

end World
end Quosh
