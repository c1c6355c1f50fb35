/-
# Authority comes from SSH

`docs/13-browser-auth-and-trust.md`, "Enrolment": the uid of a browser comes from the
nonce that was issued over SSH, never from the network.  In the daemon of
`Quosh.System.World` the uid goes from the nonce to the registration, from there to the
token, from token to token, and to the check of the session's owner.

`Traced` has what the history tells: a nonce that is outstanding was issued and is not spent, and
whoever a registration, a token or a handshake stands for has spent a nonce of theirs.
`Authorized` follows the steps of a run: every registration has been stored for a reply with a
nonce of its user, every token has its chain of issue down to such a reply, and a connection that
has been authenticated stays with its user.  `authority_from_ssh` is what follows for every run.
-/

import Quosh.System.Issuing

namespace Quosh
namespace World

open Bytes

variable {rp : Relying} {w : World}

/-- A nonce was issued to a user over SSH and spent by an enrolment. -/
def Traces (p : History) (uid : ℕ) : Prop :=
  ∃ x ∈ p.spent, x.uid = uid ∧ ∃ clock, p.nonces x.nonce = some (uid, clock)

/-- Who a handshake stands for, once it has looked that up. -/
def claimant : Stage → Option ℕ
  | .registering _ _ reg => some reg.uid
  | .touching _ _ uid _ _ => some uid
  | .issuing _ _ uid _ => some uid
  | _ => none

/-- Where every uid comes from. -/
structure Traced (w : World) : Prop where
  outstanding : ∀ n e, w.daemon.nonces n = some e →
    w.past.nonces n = some (e.uid, e.expires - nonceTtlSecs) ∧
      ∀ x ∈ w.past.spent, x.nonce ≠ n
  spent : ∀ x ∈ w.past.spent, ∃ clock, w.past.nonces x.nonce = some (x.uid, clock)
  once : (w.past.spent.map Spent.nonce).Nodup
  registrations : ∀ r ∈ w.daemon.devices.inner.registrations, Traces w.past r.uid
  tokens : ∀ τ e, w.past.tokens τ = some e → Traces w.past e.uid
  conns : ∀ i uid, claimant (w.stage i) = some uid → Traces w.past uid
  attached : ∀ x ∈ w.past.attached, ∀ uid, x.authUid = some uid → x.uid = uid

/-- What is traced stays so. -/
theorem Traces.mono {p p' : History} (hgrows : Grows p p') {uid : ℕ} (h : Traces p uid) :
    Traces p' uid := by
  obtain ⟨x, hx, huid, clock, hclock⟩ := h
  exact ⟨x, hgrows.spent x hx, huid, clock, hgrows.nonces _ _ hclock⟩

/-- A token is issued to somebody who has spent a nonce of theirs. -/
theorem Traced.issue (h : Traced w) {i : ℕ} {e : Issue}
    (he : w.past.issue i (w.stage i) = some e) : Traces w.past e.uid := by
  have hi := h.conns i
  generalize w.stage i = s at hi he
  cases s with
  | reissuing hello now uid =>
    obtain ⟨old, hold, rfl⟩ := Option.map_eq_some_iff.1 he
    exact h.tokens _ old hold
  | issuing hello now uid credentialId =>
    obtain rfl := Option.some.inj he
    exact hi uid rfl
  | _ => cases he

/-- A nonce that is spent was issued to the user it is spent for, and was not spent. -/
theorem Traced.spends (h : Traced w) {a : Action} {x : Spent} (hx : Spends w a x) :
    (∃ clock, w.past.nonces x.nonce = some (x.uid, clock)) ∧
      ∀ y ∈ w.past.spent, y.nonce ≠ x.nonce := by
  obtain ⟨env, hello, now, challenge, reply, rest, e, -, -, -, -, hspent, hnonce, -⟩ := hx
  obtain ⟨n, hn, huid, -⟩ := NonceStore.exists_of_consume hspent
  obtain ⟨hissued, hnot⟩ := h.outstanding e.nonce n hn
  rw [hnonce, ← huid]
  exact ⟨⟨_, hissued⟩, hnot⟩

/-- **Every action keeps every uid traced.**  A uid comes into a stage with a nonce that is
spent or with a registration that is found; it goes from there into the registrations, the
tokens and the attachments, and what is remembered of nonces and of spent ones only grows
(`Grows`). -/
theorem Traced.change {a : Action} {w' : World} (h : Traced w) (hc : Change rp w a w') :
    Traced w' := by
  have hgrows := hc.grows
  have hmono {uid : ℕ} (ht : Traces w.past uid) : Traces w'.past uid := ht.mono hgrows
  have hspent : ∀ x ∈ w'.past.spent, ∃ clock, w'.past.nonces x.nonce = some (x.uid, clock) := by
    intro x hx
    have hissued : ∃ clock, w.past.nonces x.nonce = some (x.uid, clock) := by
      rcases hc.spent with hsame | ⟨y, hadd, hspends⟩
      · exact h.spent x (hsame ▸ hx)
      · rw [hadd] at hx
        rcases List.mem_append.1 hx with hx | hx
        · exact h.spent x hx
        · rw [List.mem_singleton.1 hx]
          exact (h.spends hspends).1
    obtain ⟨clock, hclock⟩ := hissued
    exact ⟨clock, hgrows.nonces _ _ hclock⟩
  refine ⟨fun n e he => ?_, hspent, ?_, fun r hr => ?_, fun τ e he => ?_, fun i uid hi => ?_,
    fun x hx uid huid => ?_⟩
  · rcases hc.nonces he with ⟨hold, hx⟩ | ⟨hfresh, hnew, hsame⟩
    · obtain ⟨hissued, hnot⟩ := h.outstanding n e hold
      exact ⟨hgrows.nonces _ _ hissued, fun x hx' => (hx x hx').elim (hnot x) id⟩
    · refine ⟨hnew, fun x hx heq => ?_⟩
      rw [hsame] at hx
      obtain ⟨clock, hclock⟩ := h.spent x hx
      rw [heq] at hclock
      exact absurd (hclock.symm.trans hfresh) (Option.some_ne_none _)
  · rcases hc.spent with hsame | ⟨y, hadd, hspends⟩
    · rw [hsame]
      exact h.once
    · rw [hadd]
      exact Entries.nodup_map_append h.once (h.spends hspends).2
  · rcases hc.registrations hr with ⟨r₀, hr₀, huid⟩ | ⟨i, hello, now, hi⟩
    · exact huid ▸ hmono (h.registrations r₀ hr₀)
    · exact hmono (h.conns i r.uid (by rw [hi]; rfl))
  · rcases hc.tokens he with hold | ⟨-, i, env, -, -, hissue, -⟩
    · exact hmono (h.tokens τ e hold)
    · exact hmono (h.issue hissue)
  · have hold := h.conns i
    have hmoves := hc.moves i
    generalize w.stage i = s at hmoves hold
    generalize w'.stage i = s' at hmoves hi
    cases hmoves with
    | stay s hsince => exact hmono (hold uid hi)
    | consumed hello now challenge reg hx hsince =>
      obtain rfl := Option.some.inj hi
      obtain ⟨x, hx, -, huid⟩ := hx
      obtain ⟨clock, hclock⟩ := hspent x hx
      exact ⟨x, hx, huid, clock, huid ▸ hclock⟩
    | registered hello now reg hsince => exact hmono (hold uid hi)
    | found hello now challenge v credentialId signCount hsince hfind =>
      obtain rfl := Option.some.inj hi
      obtain ⟨reg, hreg, rfl⟩ := hfind
      exact hmono (h.registrations reg hreg)
    | touched hello now v credentialId signCount hsince => exact hmono (hold uid hi)
    | _ => cases hi
  · rcases hc.attached hx with hx | ⟨-, env, payload, rest, hello, s, -, hs, hstage, -⟩
    · exact h.attached x hx uid huid
    · rcases hstage with ⟨-, hnone⟩ | ⟨-, hauth⟩
      · exact absurd (hnone.symm.trans huid).symm (Option.some_ne_none uid)
      · rw [hs]
        exact Option.some.inj (hauth.symm.trans huid)

/-- **In every world that is reached** registrations and tokens are traced. -/
theorem Reachable.traced (h : w.Reachable rp) : Traced w := by
  refine h.induction (fun clock => ?_) fun _ _ _ _ ht hc => ht.change hc
  exact ⟨fun n e he => (by cases he), fun x hx => absurd hx List.not_mem_nil, List.nodup_nil,
    fun r hr => absurd hr List.not_mem_nil, fun τ e he => (by cases he),
    fun i uid hi => (by cases hi), fun x hx => absurd hx List.not_mem_nil⟩

/-! ### Steps of a run -/

section Ceremonial

variable (rp : Relying)

/-- A reply spends a nonce. -/
def Consumes (i : ℕ) (nonce : FixedBytes 16) (uid : ℕ) (st : Step) : Prop :=
  ∃ now challenge reply e, Replies i now challenge msgEnroll reply st ∧
    Enroll.decode reply = .ok e ∧ e.nonce = nonce ∧
    (st.1.daemon.nonces.consume nonce now).1 = some uid

/-- A reply spends a nonce, and the credential in it passes the check. -/
def Registers (i : ℕ) (nonce : FixedBytes 16) (uid : ℕ) (credentialId : String) (st : Step) :
    Prop :=
  ∃ now challenge reply e c, Replies i now challenge msgEnroll reply st ∧
    Enroll.decode reply = .ok e ∧ e.nonce = nonce ∧
    (st.1.daemon.nonces.consume nonce now).1 = some uid ∧
    rp.verifyRegistration rp.rpId rp.origin challenge e.clientDataJson e.attestationObject =
      .ok c ∧
    hexEncode c.credentialId = credentialId

/-- A reply is signed by a credential that is registered for a user. -/
def Recognizes (i uid : ℕ) (credentialId : String) (st : Step) : Prop :=
  ∃ now challenge reply m r publicKey signCount, Replies i now challenge msgAssert reply st ∧
    Assert.decode reply = .ok m ∧ hexEncode m.credentialId = credentialId ∧
    st.1.daemon.devices.find credentialId = some r ∧ r.uid = uid ∧
    hexDecode r.publicKey = .ok publicKey ∧
    rp.verifyAssertion rp.rpId rp.origin challenge m.clientDataJson m.authenticatorData
      m.signature publicKey = .ok signCount

/-- A connection has registered a credential for a user, with a nonce that had been issued to
that user over SSH. -/
def Registered (i uid : ℕ) (credentialId : String) : List Step → Prop :=
  Happens fun before st => ∃ nonce, Registers rp i nonce uid credentialId st ∧
    ∃ st' ∈ before, st'.2 = .enrollNonce uid nonce

/-- A connection has come by a user: it has registered a credential, or signed with one that some
connection had registered. -/
def Authenticates (i uid : ℕ) (credentialId : String) (steps : List Step) : Prop :=
  Registered rp i uid credentialId steps ∨
    Happens (fun before st => Recognizes rp i uid credentialId st ∧
      ∃ j, Registered rp j uid credentialId before) steps

/-- A nonce that is spent was issued to the user, to nobody else, and has not been spent. -/
def SpentOnce (before : List Step) (st : Step) : Prop :=
  ∀ i nonce uid, Consumes i nonce uid st →
    (∃ st' ∈ before, st'.2 = .enrollNonce uid nonce) ∧
    ∀ st' ∈ before, (∀ uid', st'.2 = .enrollNonce uid' nonce → uid' = uid) ∧
      ∀ j uid', ¬Consumes j nonce uid' st'

end Ceremonial

/-- What a connection that is authenticated can become. -/
def StaysWith (w : World) (uid : ℕ) (s : Stage) : Prop :=
  s = .authed uid ∨ s = .closed ∨
    ∃ k h session, s = .attached k h ∧ w.daemon.heap[k]? = some session ∧ session.uid = uid

/-- **Every uid comes from a nonce**, as the steps of the run tell. -/
structure Authorized (rp : Relying) (steps : List Step) (w : World) : Prop where
  asked : ∀ n uid, (∃ clock, w.past.nonces n = some (uid, clock)) ↔
    ∃ st ∈ steps, st.2 = .enrollNonce uid n
  consumed : ∀ st ∈ steps, ∀ i n uid, Consumes i n uid st →
    w.past.nonces n ≠ none ∧ w.daemon.nonces n = none
  once : Always SpentOnce steps
  chained : Chained (fun i r => Registered rp i r.uid r.credentialId) (Authenticates rp) steps w
  bound : ∀ st ∈ steps, ∀ i uid, st.1.stage i = .authed uid → StaysWith w uid (w.stage i)

/-- A nonce has been issued to whoever has asked for it over SSH. -/
theorem nonces_act_iff {a : Action} (hallows : w.Allows a) {n : FixedBytes 16} {uid : ℕ} :
    (∃ clock, (w.act rp a).past.nonces n = some (uid, clock)) ↔
      (∃ clock, w.past.nonces n = some (uid, clock)) ∨ a = .enrollNonce uid n := by
  rcases nonces_act rp w a with hsame | ⟨uid', n', rfl, hnew⟩
  · rw [hsame]
    refine ⟨.inl, fun h => h.elim id ?_⟩
    rintro rfl
    have hfresh : w.past.nonces n = none := hallows
    have hissued : (w.act rp (.enrollNonce uid n)).past.nonces n = some (uid, w.clock) :=
      Function.update_self ..
    rw [hsame, hfresh] at hissued
    cases hissued
  · rw [hnew]
    have hfresh : w.past.nonces n' = none := hallows
    by_cases hn : n = n'
    · subst hn
      rw [Function.update_self, hfresh]
      simp [eq_comm]
    · rw [Function.update_of_ne hn]
      simp [Ne.symm hn]

/-- The ceremonies of the daemon are ceremonies of a chain. -/
theorem ceremonies (rp : Relying) :
    Ceremonies (fun i r => Registered rp i r.uid r.credentialId) (Authenticates rp) where
  enrolment h huid hid _ later := by
    rw [huid, hid]
    exact Happens.append h later
  append h later := h.imp (Happens.append · later) (Happens.append · later)
  of_enrolment h := .inl h

/-- A nonce that is spent is not outstanding any more. -/
theorem Consumes.spent {i uid : ℕ} {n : FixedBytes 16} {a : Action}
    (h : Consumes i n uid (w, a)) : (w.act rp a).daemon.nonces n = none := by
  obtain ⟨now, challenge, reply, e, ⟨env, hello, rest, rfl, hreplying, hframe⟩, hdecode, rfl,
    hspent⟩ := h
  have hnone : (w.daemon.nonces.consume e.nonce now).2 e.nonce = none :=
    Option.eq_none_iff_forall_ne_some.2 fun x hx => (NonceStore.consume_eq_some hx).1 rfl
  have hstage : (w.conns i).stage = .replying hello now challenge := hreplying
  show ((w.conns i).turn rp env w.daemon w.clock).1.nonces e.nonce = none
  unfold Handshake.turn
  rw [hstage]
  dsimp only at hframe ⊢
  rw [hframe]
  dsimp only
  unfold Handshake.onReply
  rw [if_pos rfl]
  unfold doEnroll
  rw [hdecode]
  dsimp only at hspent ⊢
  cases hconsume : w.daemon.nonces.consume e.nonce now with
  | mk found nonces =>
    rw [hconsume] at hspent hnone
    obtain rfl : found = some uid := hspent
    dsimp only
    split
    · rename_i reg d event heq
      split at heq <;> cases heq
      exact hnone
    · rename_i m d event heq
      split at heq <;> cases heq
      exact hnone

/-- A connection that was authenticated and is attached, is so to a session of the user.
From `authed` it stays, is closed or attaches, which is the case of `Change.attaches`; from
there it only serves or closes, and a session keeps its user (`Change.heap`). -/
theorem Change.stays_with {a : Action} {w' : World} (hc : Change rp w a w') {i uid : ℕ}
    (h : StaysWith w uid (w.stage i)) : StaysWith w' uid (w'.stage i) := by
  have hheap {k : ℕ} {session : Session} (hk : w.daemon.heap[k]? = some session) := hc.heap hk
  have hmoves := hc.moves i
  have hattaches : ∀ k handler, w.stage i = .authed uid → w'.stage i = .attached k handler →
      ∃ session, w.daemon.heap[k]? = some session ∧ session.uid = uid :=
    fun k handler => hc.attaches
  generalize w.stage i = s at hmoves h hattaches
  generalize w'.stage i = s' at hmoves hattaches ⊢
  rcases h with rfl | rfl | ⟨k, handler, session, rfl, hk, huid⟩
  · cases hmoves with
    | stay s hsince => exact .inl rfl
    | close s => exact .inr (.inl rfl)
    | attached s k handler hs =>
      obtain ⟨session, hk, huid⟩ := hattaches k handler rfl rfl
      obtain ⟨session', hk', huid'⟩ := hheap hk
      exact .inr (.inr ⟨k, handler, session', rfl, hk', huid'.trans huid⟩)
    | issued env hello uid' s hissues htoken => cases hissues
  · cases hmoves with
    | stay s hsince => exact .inr (.inl rfl)
    | close s => exact .inr (.inl rfl)
    | issued env hello uid' s hissues htoken => cases hissues
    | attached s k handler hs => rcases hs with hs | ⟨uid', hs⟩ <;> cases hs
  · obtain ⟨session', hk', huid'⟩ := hheap hk
    have hstays (handler' : Handler) : StaysWith w' uid (.attached k handler') :=
      .inr (.inr ⟨k, handler', session', rfl, hk', huid'.trans huid⟩)
    cases hmoves with
    | stay s hsince => exact hstays handler
    | close s => exact .inr (.inl rfl)
    | served k h h' => exact hstays h'
    | issued env hello uid' s hissues htoken => cases hissues
    | attached s k handler hs => rcases hs with hs | ⟨uid', hs⟩ <;> cases hs

namespace Authorized

variable {steps : List Step} {a : Action} {i : ℕ} {now now' : ℤ} {hello hello' : AuthHello}
  {challenge : FixedBytes 32}

/-- A nonce that can be spent was asked for by the user. -/
theorem asked_of_consume (htraced : Traced w) {n : FixedBytes 16}
    {uid : ℕ} (hspent : (w.daemon.nonces.consume n now).1 = some uid) :
    ∃ clock, w.past.nonces n = some (uid, clock) := by
  obtain ⟨e, he, rfl, -⟩ := NonceStore.exists_of_consume hspent
  exact ⟨_, (htraced.outstanding n e he).1⟩

/-- **A reply that registers a credential.** -/
theorem registers (h : Authorized rp steps w) (htraced : Traced w) (hallows : w.Allows a)
    (hreplying : w.stage i = .replying hello now challenge) {r : Registration}
    (hstage : (w.act rp a).stage i = .registering hello' now' r) :
    Registered rp i r.uid r.credentialId (steps ++ [(w, a)]) := by
  obtain ⟨env, rfl, hturn⟩ := exists_turn _ (i := i) hallows
    (by rw [hreplying, hstage]; intro heq; cases heq) (by rw [hreplying]; intro heq; cases heq)
    (by rw [hreplying]; intro k h heq; cases heq)
  obtain ⟨reply, rest, e, uid, c, hframe, hdecode, hspent, hverify, rfl, hid, -⟩ :=
    turn_registering hreplying (hturn.symm.trans hstage)
  exact .last ⟨e.nonce, ⟨now, challenge, reply, e, c, ⟨env, hello, rest, rfl, hreplying, hframe⟩,
    hdecode, rfl, hspent, hverify, hid.symm⟩, (h.asked _ _).1 (asked_of_consume htraced hspent)⟩

/-- **A reply that is signed.** -/
theorem recognizes (h : Authorized rp steps w) (hallows : w.Allows a)
    (hreplying : w.stage i = .replying hello now challenge) {uid signCount : ℕ}
    {credentialId : String}
    (hstage : (w.act rp a).stage i = .touching hello' now' uid credentialId signCount) :
    Authenticates rp i uid credentialId (steps ++ [(w, a)]) := by
  obtain ⟨env, rfl, hturn⟩ := exists_turn _ (i := i) hallows
    (by rw [hreplying, hstage]; intro heq; cases heq) (by rw [hreplying]; intro heq; cases heq)
    (by rw [hreplying]; intro k h heq; cases heq)
  obtain ⟨reply, rest, m, r, publicKey, hframe, hdecode, hfind, hkey, hverify, rfl, rfl⟩ :=
    turn_touching hreplying (hturn.symm.trans hstage)
  obtain ⟨j, hj⟩ := h.chained.registrations r (List.mem_of_find?_eq_some hfind)
  have hid : r.credentialId = hexEncode m.credentialId := by
    unfold DeviceStore.find at hfind
    simpa using List.find?_some hfind
  refine .inr (.last ⟨⟨now, challenge, reply, m, r, publicKey, signCount,
    ⟨env, hello, rest, rfl, hreplying, hframe⟩, hdecode, rfl, hfind, rfl, hkey, hverify⟩, j, ?_⟩)
  rwa [← hid]

/-- A nonce is spent once. -/
theorem spentOnce (h : Authorized rp steps w) (htraced : Traced w) : SpentOnce steps (w, a) := by
  rintro i n uid ⟨now, challenge, reply, e, -, -, rfl, hspent⟩
  obtain ⟨clock, hasked⟩ := asked_of_consume htraced hspent
  refine ⟨(h.asked _ _).1 ⟨clock, hasked⟩,
    fun st hst => ⟨fun uid' huid' => ?_, fun j uid' hj => ?_⟩⟩
  · obtain ⟨clock', hasked'⟩ := (h.asked _ _).2 ⟨st, hst, huid'⟩
    exact (Prod.mk.inj (Option.some.inj (hasked'.symm.trans hasked))).1
  · obtain ⟨x, hx, -⟩ := NonceStore.exists_of_consume hspent
    exact absurd ((h.consumed st hst j e.nonce uid' hj).2.symm.trans hx)
      (Option.some_ne_none x).symm

/-- **Every action keeps every uid traced to a nonce.**  The steps of the run go behind the
list, so what was said of the earlier ones stands; the last step adds its own spent nonce,
token or attachment. -/
theorem act (h : Authorized rp steps w) (hw : w.Reachable rp) (hallows : w.Allows a) :
    Authorized rp (steps ++ [(w, a)]) (w.act rp a) := by
  have hc : Change rp w a (w.act rp a) := change hallows
  have hgrows := hc.grows
  have htraced := hw.traced
  refine ⟨fun n uid => ?_, fun st hst i n uid hst' => ?_, h.once.concat (h.spentOnce htraced), ?_,
    fun st hst i uid hi => ?_⟩
  · rw [nonces_act_iff hallows, h.asked n uid]
    simp only [List.mem_append, List.mem_singleton, or_and_right, exists_or, exists_eq_left]
  · rcases List.mem_append.1 hst with hst | hst
    · obtain ⟨hissued, hnone⟩ := h.consumed st hst i n uid hst'
      obtain ⟨x, hx⟩ := Option.ne_none_iff_exists'.1 hissued
      refine ⟨Option.ne_none_iff_exists'.2 ⟨x, hgrows.nonces n x hx⟩, ?_⟩
      refine Option.eq_none_iff_forall_ne_some.2 fun e he => ?_
      rcases hc.nonces he with ⟨hold, -⟩ | ⟨hfresh, -⟩
      · exact absurd (hold.symm.trans hnone) (Option.some_ne_none e)
      · exact hissued hfresh
    · obtain rfl := List.mem_singleton.1 hst
      refine ⟨?_, hst'.spent⟩
      obtain ⟨now, challenge, reply, e, -, -, rfl, hspent⟩ := hst'
      obtain ⟨clock, hasked⟩ := asked_of_consume htraced hspent
      exact Option.ne_none_iff_exists'.2 ⟨_, hgrows.nonces _ _ hasked⟩
  · exact h.chained.act (ceremonies rp) hw.sound hc
      (fun i _ _ _ _ _ r hi hi' => h.registers htraced hallows hi hi')
      fun i _ _ _ _ _ uid credentialId signCount hi hi' => h.recognizes hallows hi hi'
  · rcases List.mem_append.1 hst with hst | hst
    · exact hc.stays_with (h.bound st hst i uid hi)
    · obtain rfl := List.mem_singleton.1 hst
      exact hc.stays_with (.inl hi)

/-- **In every run.** -/
theorem of_run {clock : ℤ} {as : List Action}
    (has : (world rp).AllowsAll (fun _ _ => True) { clock } as) :
    Authorized rp ((world rp).steps { clock } as) ((world rp).acts { clock } as) := by
  refine has.induction (I := fun as => Authorized rp (Machine.steps _ _ as)
    (Machine.acts _ _ as)) ?_ fun as a has h hallows _ => ?_
  · refine ⟨fun n uid => ?_, fun st hst => absurd hst List.not_mem_nil, .nil, .start clock,
      fun st hst => absurd hst List.not_mem_nil⟩
    refine ⟨fun ⟨_, h⟩ => ?_, fun ⟨_, h, _⟩ => absurd h List.not_mem_nil⟩
    cases h
  · rw [Machine.steps_concat, Machine.acts_concat]
    exact h.act ⟨clock, Machine.run_acts has⟩ hallows

end Authorized

/-- **Authority comes only from SSH.**  In every run of the daemon, a handshake that is
authenticated as a user was issued a token, and every token has its chain of issue: for a
ceremony of the same connection, or in place of a live token that was presented to the same
connection and has such a chain.  The ceremony is a reply with a nonce that had been issued over
SSH to that user, or one signed by a credential that was registered so; every registration was
stored for such a reply.  A nonce is spent once, for the user it was issued to.  A connection that
has been authenticated as a user is attached to sessions of that user only. -/
theorem authority_from_ssh {clock : ℤ} {as : List Action}
    (has : (world rp).AllowsAll (fun _ _ => True) { clock } as)
    (hw : w = (world rp).acts { clock } as) {steps : List Step}
    (hsteps : steps = (world rp).steps { clock } as) :
    (∀ i uid, w.stage i = .authed uid → ∃ token credentialId, (i, token) ∈ w.past.answered ∧
      Chain (Authenticates rp) steps token i uid credentialId) ∧
    (∀ r ∈ w.daemon.devices.inner.registrations,
      ∃ i, Registered rp i r.uid r.credentialId steps) ∧
    (∀ t ∈ w.daemon.devices.inner.tokens, ∃ token i credentialId, t.token = hexEncode token.1 ∧
      Chain (Authenticates rp) steps token i t.uid credentialId) ∧
    Always SpentOnce steps ∧
    ∀ st ∈ steps, ∀ i uid, st.1.stage i = .authed uid →
      ∀ k handler, w.stage i = .attached k handler →
        ∃ session, w.daemon.heap[k]? = some session ∧ session.uid = uid := by
  subst hw hsteps
  have hauthorized := Authorized.of_run has
  have hsound : Sound _ := Reachable.sound ⟨clock, Machine.run_acts has⟩
  refine ⟨fun i uid hi => hauthorized.chained.authed hsound hi, hauthorized.chained.registrations,
    fun t ht => hauthorized.chained.stored hsound ht, hauthorized.once,
    fun st hst i uid hi k handler hk => ?_⟩
  have hbound := hauthorized.bound st hst i uid hi
  rw [hk] at hbound
  rcases hbound with hbound | hbound | ⟨k', handler', session, hbound, hsession, huid⟩
  · cases hbound
  · cases hbound
  · cases hbound
    exact ⟨session, hsession, huid⟩

/-! ### A browser that enrols -/

/-- A daemon whose checks of `webauthn` accept what the browser sends, as they do for a
genuine passkey; the attestation is the credential id. -/
def accepting : Relying where
  rpId := "quosh.jtcs.dev"
  origin := "https://quosh.jtcs.dev"
  unixName _ := none
  verifyRegistration _ _ _ _ attestation :=
    .ok { credentialId := attestation, publicKey := [4], signCount := 0 }
  verifyAssertion _ _ _ _ _ _ _ := .ok 0

/-- A connection has not been opened. -/
def isIdle : Stage → Bool
  | .idle => true
  | _ => false

/-- Whether an action is allowed, where that can be computed. -/
def permits (w : World) : Action → Bool
  | .accept i => isIdle (w.stage i)
  | .turn _ env => (w.past.tokens env.token).isNone
  | .enrollNonce _ nonce => (w.past.nonces nonce).isNone
  | .session .. => false
  | _ => true

theorem allows_of_permits {w : World} {a : Action} (h : permits w a = true) : w.Allows a := by
  cases a with
  | accept i =>
    have hidle : isIdle (w.stage i) = true := h
    show w.stage i = .idle
    cases hs : w.stage i with
    | idle => rfl
    | _ =>
      rw [hs] at hidle
      cases hidle
  | turn i env => exact Option.isNone_iff_eq_none.1 h
  | enrollNonce uid nonce => exact Option.isNone_iff_eq_none.1 h
  | session k s => cases h
  | _ => trivial

/-- Whom a connection is authenticated as. -/
def authedAs : Stage → Option ℕ
  | .authed uid => some uid
  | _ => none

/-- The stage of a task that has answered. -/
theorem eq_authed {s : Stage} {uid : ℕ} (h : authedAs s = some uid) : s = .authed uid := by
  cases s with
  | authed uid' => rw [Option.some.inj h]
  | _ => cases h

/-- The first frame of a browser that has a token, or zeros, and wants a new session. -/
def authHello (token : FixedBytes 32) : Bytes :=
  AuthHello.encode
    { authToken := token, sessionId := constBytes 16 0, sessionToken := constBytes 32 0
      cols := 80, rows := 24 }

/-- The reply of a browser that enrols a passkey. -/
def enrollReply (nonce : FixedBytes 16) (credentialId : Bytes) : Bytes :=
  (Enroll.encode { nonce, clientDataJson := [], attestationObject := credentialId }).toOption.getD []

/-- A user asks for a nonce and a browser enrols a passkey with it: it gets the token
drawn in the turns, and a session with the random bytes of the last. -/
def enrolment (i uid : ℕ) (b b' : UInt8) (credentialId : Bytes) : List Action :=
  [.enrollNonce uid (constBytes 16 b), .accept i,
    .receive i (authHello (constBytes 32 0) ++ enrollReply (constBytes 16 b) credentialId),
    .turn i (smooth b), .turn i (smooth b), .turn i (smooth b), .turn i (smooth b),
    .turn i (smooth b')]

/-- A daemon on which a browser has enrolled for user 1000, with the token of ones. -/
def enrolled : World := (world accepting).acts {} (enrolment 0 1000 1 2 [1])

set_option maxRecDepth 4000 in
/-- The run of the test is allowed. -/
theorem enrolled_allowed :
    (world accepting).AllowsAll (fun _ _ => True) {} (enrolment 0 1000 1 2 [1]) :=
  ⟨rfl, trivial, rfl, trivial, trivial, trivial, rfl, trivial, rfl, trivial, rfl, trivial, rfl,
    trivial, rfl, trivial, trivial⟩

theorem enrolled_reachable : enrolled.Reachable accepting :=
  ⟨0, Machine.run_acts enrolled_allowed⟩

set_option maxRecDepth 4000 in
/-- The hypothesis of `authority_from_ssh` is satisfiable: the browser's handshake has
ended as the user who asked for the nonce, and its token has a chain. -/
theorem authority_from_ssh_enrolled :
    enrolled.stage 0 = .authed 1000 ∧ ∃ token credentialId, (0, token) ∈ enrolled.past.answered ∧
      Chain (Authenticates accepting)
        ((world accepting).steps {} (enrolment 0 1000 1 2 [1])) token 0 1000 credentialId :=
  ⟨rfl, (authority_from_ssh enrolled_allowed (w := enrolled) rfl rfl).1 0 1000 rfl⟩

end World
end Quosh
