/-
# No reply is accepted twice

A browser's reply to a challenge is signed over client data, and these have the challenge.  So
what one handshake has taken no other one takes, as long as challenges are not drawn twice:
`no_reply_accepted_twice` says it of all pairs of steps of a run, whatever connections they are
about.

`Recorded` is the invariant: a reply that was accepted has the challenge of its connection in it,
and its handshake is past it.

The challenge that is in a reply is the one of its connection (`Passes.parse`), and a
challenge is drawn once.  So two steps that accept the same client data are about one
connection, and there the second finds the handshake past its reply.
-/

import Quosh.System.Passkeys
import Mathlib.Data.List.Pairwise

namespace Quosh
namespace World

open Bytes Webauthn

variable {W : Webauthn} {rpId origin : String} {unixName : ℕ → Option String}

/-- The client data in a reply. -/
inductive Carries (reply json : Bytes) : UInt8 → Prop
  | enroll (e : Enroll) (hdecode : Enroll.decode reply = .ok e) (hjson : e.clientDataJson = json) :
    Carries reply json msgEnroll
  | assert (m : Assert) (hdecode : Assert.decode reply = .ok m) (hjson : m.clientDataJson = json) :
    Carries reply json msgAssert

/-- The checks have accepted a reply. -/
def accepted : Stage → Bool
  | .registering .. => true
  | .touching .. => true
  | _ => false

/-- A handshake is past its reply. -/
def replied : Stage → Bool
  | .idle => false
  | .opening => false
  | .replying .. => false
  | _ => true

/-- A reply is accepted with its client data, for the challenge of its connection. -/
def Passes (rp : Relying) (i : ℕ) (challenge : FixedBytes 32) (json : Bytes) (st : Step) : Prop :=
  (∃ now typ reply, Replies i now challenge typ reply st ∧ Carries reply json typ) ∧
    accepted ((st.1.act rp st.2).stage i) = true

/-- The same challenge is not drawn in both steps. -/
def DrawApart (st st' : Step) : Prop :=
  ∀ i j challenge, Challenges i challenge st → ¬Challenges j challenge st'

/-- The same client data are not accepted in both steps. -/
def PassApart (rp : Relying) (st st' : Step) : Prop :=
  ∀ i j challenge challenge' json, Passes rp i challenge json st →
    ¬Passes rp j challenge' json st'

section Replay

variable {rp : Relying} {w : World} {a : Action} {steps : List Step} {i : ℕ}
  {challenge : FixedBytes 32} {json : Bytes}

instance : Std.Symm DrawApart where
  symm _ _ h i j challenge hi hj := h j i challenge hj hi

/-- A reply comes to a task that has asked for it. -/
theorem Replies.stage {now : ℤ} {typ : UInt8} {reply : Bytes} {st : Step}
    (h : Replies i now challenge typ reply st) :
    ∃ hello, st.1.stage i = .replying hello now challenge := by
  obtain ⟨env, hello, rest, -, hstage, -⟩ := h
  exact ⟨hello, hstage⟩

/-- A handshake does not get back in front of its reply. -/
theorem Change.stays_replied {w' : World} (hc : Change rp w a w')
    (h : replied (w.stage i) = true) : replied (w'.stage i) = true := by
  have hmoves := hc.moves i
  generalize w.stage i = s at hmoves h
  generalize w'.stage i = s' at hmoves
  cases hmoves with
  | stay s hsince => exact h
  | accept => cases h
  | challenged hello challenge => cases h
  | _ => rfl

/-- A handshake whose reply is accepted is past it. -/
theorem replied_of_accepted {s : Stage} (h : accepted s = true) : replied s = true := by
  cases s with
  | registering hello now reg => rfl
  | touching hello now uid credentialId signCount => rfl
  | _ => cases h

/-- **A reply is accepted for the challenge in its client data.**  Both ceremonies compare
the challenge that they parse with the one of the connection. -/
theorem Passes.parse (h : Passes (W.relying rpId origin unixName) i challenge json (w, a)) :
    ∃ typ, W.parse json = .ok (asked typ origin challenge) := by
  obtain ⟨⟨now, typ, reply, ⟨env, hello, rest, rfl, hreplying, hframe⟩, hcarries⟩, haccepted⟩ := h
  have hturn : (w.act (W.relying rpId origin unixName) (.turn i env)).stage i =
      ((w.conns i).turn (W.relying rpId origin unixName) env w.daemon w.clock).2.1.stage :=
    stage_next_self w i _ _ _
  dsimp only at haccepted
  rw [hturn] at haccepted
  generalize hstage : ((w.conns i).turn (W.relying rpId origin unixName) env w.daemon
    w.clock).2.1.stage = s at haccepted
  cases s with
  | registering hello' now' reg =>
    obtain ⟨reply', rest', e, uid, c, hframe', hdecode, -, hverify, -⟩ :=
      turn_registering hreplying hstage
    obtain ⟨rfl, rfl, -⟩ := NextFrame.frame.inj (hframe.symm.trans hframe')
    obtain ⟨hclient, -⟩ := W.verifyRegistration_iff.1 hverify
    cases hcarries with
    | enroll e' hdecode' hjson =>
      obtain rfl := Except.ok.inj (hdecode.symm.trans hdecode')
      exact ⟨_, hjson ▸ hclient⟩
  | touching hello' now' uid credentialId signCount =>
    obtain ⟨reply', rest', m, r, publicKey, hframe', hdecode, -, -, hverify, -⟩ :=
      turn_touching hreplying hstage
    obtain ⟨rfl, rfl, -⟩ := NextFrame.frame.inj (hframe.symm.trans hframe')
    obtain ⟨hclient, -⟩ := W.verifyAssertion_iff.1 hverify
    cases hcarries with
    | assert m' hdecode' hjson =>
      obtain rfl := Except.ok.inj (hdecode.symm.trans hdecode')
      exact ⟨_, hjson ▸ hclient⟩
  | _ => cases haccepted

/-- What has been accepted: its handshake is past it, its challenge was drawn for it, and its
client data have that challenge. -/
structure Recorded (W : Webauthn) (rp : Relying) (origin : String) (steps : List Step)
    (w : World) : Prop where
  past : ∀ st ∈ steps, ∀ i challenge json, Passes rp i challenge json st →
    replied (w.stage i) = true ∧ (∃ st' ∈ steps, Challenges i challenge st') ∧
      ∃ typ, W.parse json = .ok (asked typ origin challenge)

/-- **Every action keeps the record of drawn challenges.** -/
theorem Recorded.act
    (h : Recorded W (W.relying rpId origin unixName) origin steps w)
    (hwitnessed : Witnessed W rpId origin steps w) (hallows : w.Allows a) :
    Recorded W (W.relying rpId origin unixName) origin (steps ++ [(w, a)])
      (w.act (W.relying rpId origin unixName) a) where
  past st hst i challenge json hpasses := by
    rcases List.mem_append.1 hst with hst | hst
    · obtain ⟨hreplied, ⟨st', hst', hdraws⟩, hparse⟩ := h.past st hst i challenge json hpasses
      exact ⟨(change hallows).stays_replied hreplied,
        ⟨st', List.mem_append_left _ hst', hdraws⟩, hparse⟩
    · obtain rfl := List.mem_singleton.1 hst
      obtain ⟨⟨now, typ, reply, hreplies, -⟩, haccepted⟩ := id hpasses
      obtain ⟨hello, hstage⟩ := hreplies.stage
      obtain ⟨st', hst', hdraws⟩ := hwitnessed.drawn i hello now challenge hstage
      exact ⟨replied_of_accepted haccepted, ⟨st', List.mem_append_left _ hst', hdraws⟩,
        hpasses.parse⟩

/-- **In every run.** -/
theorem Recorded.of_run {clock : ℤ} {as : List Action}
    (has : (world (W.relying rpId origin unixName)).AllowsAll (fun _ _ => True) { clock } as) :
    Recorded W (W.relying rpId origin unixName) origin
      ((world (W.relying rpId origin unixName)).steps { clock } as)
      ((world (W.relying rpId origin unixName)).acts { clock } as) := by
  refine has.induction (I := fun as => Recorded W _ origin (Machine.steps _ _ as)
    (Machine.acts _ _ as)) ⟨fun st hst => absurd hst List.not_mem_nil⟩
    fun as a has h hallows hok => ?_
  rw [Machine.steps_concat, Machine.acts_concat]
  exact h.act (Witnessed.of_run has) hallows

/-- **A reply that is accepted now was not accepted before.** -/
theorem Recorded.apart (h : Recorded W (W.relying rpId origin unixName) origin steps w)
    (hwitnessed : Witnessed W rpId origin steps w) (hdrawn : steps.Pairwise DrawApart)
    {st : Step} (hst : st ∈ steps) :
    PassApart (W.relying rpId origin unixName) st (w, a) := by
  intro i j challenge challenge' json hpasses hpasses'
  obtain ⟨hreplied, ⟨d, hd, hdraws⟩, typ, hparse⟩ := h.past st hst i challenge json hpasses
  obtain ⟨typ', hparse'⟩ := hpasses'.parse
  obtain ⟨-, -, rfl⟩ := W.asked_inj hparse hparse'
  obtain ⟨⟨now, typ, reply, hreplies, -⟩, -⟩ := hpasses'
  obtain ⟨hello, hstage⟩ := hreplies.stage
  obtain ⟨d', hd', hdraws'⟩ := hwitnessed.drawn j hello now challenge hstage
  -- one challenge is drawn in one step, so for one connection, which is past its reply
  have hsame : d = d' := by
    by_contra hne
    exact hdrawn.forall hd hd' hne i j challenge hdraws hdraws'
  subst hsame
  obtain ⟨env, hturn, -⟩ := hdraws
  obtain ⟨env', hturn', -⟩ := hdraws'
  obtain ⟨rfl, -⟩ := Action.turn.inj (hturn.symm.trans hturn')
  rw [show w.stage i = _ from hstage] at hreplied
  cases hreplied

/-- **No reply is accepted twice.**  In every run in which no challenge is drawn twice, no two
replies with the same client data are accepted, whatever connections they are from, and whether
they enrol or sign. -/
theorem no_reply_accepted_twice (W : Webauthn) (rpId origin : String)
    (unixName : ℕ → Option String) {clock : ℤ} {as : List Action}
    (has : (world (W.relying rpId origin unixName)).AllowsAll (fun _ _ => True) { clock } as)
    (hdrawn : ((world (W.relying rpId origin unixName)).steps { clock } as).Pairwise DrawApart) :
    ((world (W.relying rpId origin unixName)).steps { clock } as).Pairwise
      (PassApart (W.relying rpId origin unixName)) := by
  let M := world (W.relying rpId origin unixName)
  refine has.induction (I := fun as => (M.steps { clock } as).Pairwise DrawApart →
    (M.steps { clock } as).Pairwise (PassApart (W.relying rpId origin unixName)))
    (fun _ => .nil) (fun as a has h hallows hok hdrawn => ?_) hdrawn
  rw [Machine.steps_concat] at hdrawn ⊢
  obtain ⟨hdrawn, -, -⟩ := List.pairwise_append.1 hdrawn
  refine List.pairwise_append.2 ⟨h hdrawn, List.pairwise_singleton _ _, fun st hst st' hst' => ?_⟩
  rw [List.mem_singleton.1 hst']
  exact (Recorded.of_run has).apart (Witnessed.of_run has) hdrawn hst

/-- The challenge that is drawn in a step. -/
def drawn (st : Step) : Option (FixedBytes 32) :=
  match st.2 with
  | .turn i env =>
    match st.1.stage i with
    | .opening => some env.challenge
    | _ => none
  | _ => none

/-- A task that challenges has drawn. -/
theorem Challenges.drawn_eq {st : Step} (h : Challenges i challenge st) :
    drawn st = some challenge := by
  obtain ⟨env, ha, hstage, rfl⟩ := h
  unfold drawn
  rw [ha]
  dsimp only
  rw [hstage]

/-- Challenges that are all different. -/
theorem pairwise_drawApart (h : (steps.filterMap drawn).Nodup) : steps.Pairwise DrawApart := by
  refine (List.pairwise_filterMap.1 h).imp fun {st st'} hne i j challenge hst hst' => ?_
  exact hne challenge hst.drawn_eq challenge hst'.drawn_eq rfl

/-- The hypotheses of `no_reply_accepted_twice` are satisfiable: the challenges of the run above are
all different. -/
theorem no_reply_accepted_twice_sim : (simDaemon.steps {} simRun).Pairwise
    (PassApart (simChecks.relying simRp simOrigin fun _ => none)) := by
  have hdrawn : ((simDaemon.steps {} simRun).filterMap drawn).Nodup := by decide +kernel
  exact @no_reply_accepted_twice simChecks simRp simOrigin (fun _ => none) 0 simRun simRun_allowed
    (pairwise_drawApart hdrawn)

end Replay

end World
end Quosh
