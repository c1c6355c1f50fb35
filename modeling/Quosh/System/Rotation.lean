/-
# A token is spent once

`docs/13-browser-auth-and-trust.md`, "Session token lifetime": a token is rotated on every
authenticated connect, and the previous value is invalidated.  In `auth::run` that takes
three calls of the device store: `validate_token`, and in `rotate_token` the removal of the
old token and the issue of the new one.

What descends from a token is a lineage (`Quosh.Data.Lineage`).  An old token is gone from
the store by the time a handshake is about to replace it, and for good (`Rotated`).  Two
handshakes can still replace the same token, since the removal does not say whether there
was something to remove.  `token_spent_once` is about the runs in which that does not
happen (`SpendsOnce`): at most one handshake is answered with what replaces a token, and
at most one token of the line is live.
-/

import Quosh.Data.Lineage
import Quosh.System.Moves
import Quosh.System.Revocation

namespace Quosh
namespace World

open Bytes Lineage

variable {rp : Relying} {w w' : World} {a : Action} {σ τ κ κ' : FixedBytes 32}

/-- The tokens that were replaced on the way to a token. -/
def anc (p : History) (τ : FixedBytes 32) : Option (List (FixedBytes 32)) :=
  (p.tokens τ).map Issue.ancestors

/-- The token that a handshake is about to remove. -/
def removes : Stage → Option (FixedBytes 32)
  | .dropping hello _ _ => some hello.authToken
  | _ => none

/-- The token that a handshake has removed and is about to replace. -/
def replaces : Stage → Option (FixedBytes 32)
  | .reissuing hello _ _ => some hello.authToken
  | _ => none

/-- A token is not in the store. -/
def Gone (w : World) (σ : FixedBytes 32) : Prop :=
  ∀ t ∈ w.daemon.devices.inner.tokens, t.token ≠ hexEncode σ.1

/-- The ancestors of a token that was issued. -/
theorem anc_eq_some {p : History} {l : List (FixedBytes 32)} :
    anc p τ = some l ↔ ∃ e, p.tokens τ = some e ∧ e.ancestors = l :=
  Option.map_eq_some_iff

/-- They stay its ancestors. -/
theorem anc_mono {p p' : History} (hgrows : Grows p p') {l : List (FixedBytes 32)}
    (h : anc p τ = some l) : anc p' τ = some l := by
  obtain ⟨e, he, hl⟩ := anc_eq_some.1 h
  exact anc_eq_some.2 ⟨e, hgrows.tokens _ _ he, hl⟩

/-- A token that was known has the ancestors it had. -/
theorem anc_eq {p p' : History} (hgrows : Grows p p') (hknown : p.tokens τ ≠ none) :
    anc p' τ = anc p τ := by
  obtain ⟨e, he⟩ := Option.ne_none_iff_exists'.1 hknown
  rw [anc, anc, he, hgrows.tokens _ _ he]

/-- A token that was rotated was issued. -/
theorem known_of_child {p : History} (hc : Consistent (anc p)) (h : Child (anc p) κ σ) :
    p.tokens σ ≠ none := by
  obtain ⟨l, hl⟩ := h
  obtain ⟨e, he, -⟩ := anc_eq_some.1 (hc κ σ l hl)
  exact Option.ne_none_iff_exists'.2 ⟨e, he⟩

/-- A token that replaces another is issued by the handshake that has removed that. -/
theorem replaces_of_issue {p : History} {i : ℕ} {stage : Stage} {e : Issue}
    {l : List (FixedBytes 32)} (h : p.issue i stage = some e) (hl : e.ancestors = σ :: l) :
    replaces stage = some σ ∧ anc p σ = some l := by
  unfold History.issue at h
  split at h
  · obtain ⟨old, hold, rfl⟩ := Option.map_eq_some_iff.1 h
    obtain ⟨rfl, hrest⟩ := List.cons.inj hl
    exact ⟨rfl, anc_eq_some.2 ⟨old, hold, hrest⟩⟩
  · cases h
    cases hl
  · cases h

/-- What a handshake removes and replaces was issued. -/
theorem known_of_stage {p : History} {clock : ℤ} {i : ℕ} {stage : Stage}
    (hholds : Holds p clock i stage) (h : removes stage = some σ ∨ replaces stage = some σ) :
    p.tokens σ ≠ none := by
  cases stage with
  | dropping hello now uid =>
    obtain ⟨-, e, he, -⟩ := hholds
    rcases h with h | h <;> cases h
    exact Option.ne_none_iff_exists'.2 ⟨e, he⟩
  | reissuing hello now uid =>
    obtain ⟨-, e, he, -⟩ := hholds
    rcases h with h | h <;> cases h
    exact Option.ne_none_iff_exists'.2 ⟨e, he⟩
  | _ => rcases h with h | h <;> cases h

/-- Before a token is replaced it is removed. -/
theorem Change.removed (hc : Change rp w a w') {i : ℕ} (h : replaces (w'.stage i) = some σ) :
    replaces (w.stage i) = some σ ∨
      (∃ env, a = .turn i env) ∧ removes (w.stage i) = some σ ∧ Gone w' σ := by
  have hmoves := hc.moves i
  generalize w.stage i = s at hmoves
  generalize w'.stage i = s' at hmoves h
  cases hmoves with
  | stay s hsince => exact .inl h
  | dropped env hello now uid ha hsince hinner =>
    cases h
    refine .inr ⟨⟨env, ha⟩, rfl, fun t ht => ?_⟩
    rw [hinner, DeviceStore.inner_dropToken] at ht
    exact of_decide_eq_true (List.mem_filter.1 ht).2
  | _ => cases h

/-- What is gone stays away: new tokens have not been drawn before. -/
theorem Gone.change (hsound : Sound w') (hc : Change rp w a w') (hknown : w.past.tokens σ ≠ none)
    (h : Gone w σ) : Gone w' σ := by
  intro t ht htoken
  rcases hc.stored ht with hold | hnew
  · exact h t hold htoken
  · obtain ⟨τ, e, hstored⟩ := hsound.stored t ht
    obtain rfl : τ = σ := Subtype.ext (hexEncode_inj (hstored.token.symm.trans htoken))
    exact hknown (hnew τ e hstored)

/-! ### What is replaced is gone -/

/-- Tokens are a lineage, and those that have been or are about to be replaced are not
stored. -/
structure Rotated (w : World) : Prop where
  consistent : Consistent (anc w.past)
  removed : ∀ i σ, replaces (w.stage i) = some σ → Gone w σ
  replaced : ∀ κ σ, Child (anc w.past) κ σ → Gone w σ

/-- **Every action keeps the chains of rotations.** -/
theorem Rotated.change (hsound : Sound w) (h : Rotated w) (hc : Change rp w a w') :
    Rotated w' := by
  have hgrows := hc.grows
  have hsound' := hsound.change hc
  refine ⟨fun κ σ l hl => ?_, fun i σ hi => ?_, fun κ σ hκ => ?_⟩
  · obtain ⟨e, he, hel⟩ := anc_eq_some.1 hl
    rcases hc.tokens he with hold | ⟨-, i, env, -, -, hissue, -⟩
    · exact anc_mono hgrows (h.consistent κ σ l (anc_eq_some.2 ⟨e, hold, hel⟩))
    · exact anc_mono hgrows (replaces_of_issue hissue hel).2
  · rcases hc.removed hi with hi | ⟨-, -, hgone⟩
    · exact (h.removed i σ hi).change hsound' hc (known_of_stage (hsound.conns i) (.inr hi))
    · exact hgone
  · obtain ⟨l, hl⟩ := hκ
    obtain ⟨e, he, hel⟩ := anc_eq_some.1 hl
    rcases hc.tokens he with hold | ⟨-, i, env, -, -, hissue, -⟩
    · have hκ : Child (anc w.past) κ σ := ⟨l, anc_eq_some.2 ⟨e, hold, hel⟩⟩
      exact (h.replaced κ σ hκ).change hsound' hc (known_of_child h.consistent hκ)
    · have hi := (replaces_of_issue hissue hel).1
      exact (h.removed i σ hi).change hsound' hc (known_of_stage (hsound.conns i) (.inr hi))

/-- In every world that is reached they are chains. -/
theorem Reachable.rotated (h : w.Reachable rp) : Rotated w := by
  refine h.induction (fun clock => ?_) fun _ _ _ hreach hr hc => hr.change hreach.sound hc
  exact ⟨fun κ σ l hl => (by cases hl), fun i σ hi => (by cases hi),
    fun κ σ hκ => (by cases hκ.choose_spec)⟩

/-! ### One at a time -/

/-- A handshake that is about to remove a token of the line of `τ` is the first to do so:
no other has removed it and is about to replace it, or has replaced it. -/
def SpendsOnce (τ : FixedBytes 32) (w : World) : Action → Prop
  | .turn i _ => ∀ σ, removes (w.stage i) = some σ → InLine (anc w.past) τ σ →
    (∀ j, replaces (w.stage j) ≠ some σ) ∧ ∀ κ, ¬Child (anc w.past) κ σ
  | _ => True

/-- In the line of `τ` a token is replaced once. -/
structure Once (τ : FixedBytes 32) (w : World) : Prop where
  takers : ∀ σ, InLine (anc w.past) τ σ → ∀ i j, replaces (w.stage i) = some σ →
    replaces (w.stage j) = some σ → i = j
  exclusive : ∀ σ, InLine (anc w.past) τ σ → ∀ i, replaces (w.stage i) = some σ →
    ∀ κ, ¬Child (anc w.past) κ σ
  children : ∀ σ, InLine (anc w.past) τ σ → ∀ κ κ', Child (anc w.past) κ σ →
    Child (anc w.past) κ' σ → κ = κ'

/-- A token gets a child: the action issues it, in the name of the one connection that was
about to replace the token. -/
theorem Change.child (hc : Change rp w a w') (h : Child (anc w'.past) κ σ) :
    Child (anc w.past) κ σ ∨ ∃ i env, a = .turn i env ∧ κ = env.token ∧
      replaces (w.stage i) = some σ ∧ replaces (w'.stage i) = none := by
  obtain ⟨l, hl⟩ := h
  obtain ⟨e, he, hel⟩ := anc_eq_some.1 hl
  rcases hc.tokens he with hold | ⟨-, i, env, ha, hκ, hissue, hnone⟩
  · exact .inl ⟨l, anc_eq_some.2 ⟨e, hold, hel⟩⟩
  · refine .inr ⟨i, env, ha, hκ, (replaces_of_issue hissue hel).1, ?_⟩
    generalize w'.stage i = s' at hnone
    cases s' with
    | reissuing hello now uid => cases hnone
    | _ => rfl

/-- **An action that spends the token once** keeps it spent once.  Whoever stands before the
replacement of a token of the line has just removed it, or stood there before; by
`SpendsOnce` nobody else stood there then, and no child had been issued yet. -/
theorem Once.change (hsound : Sound w) (hrotated : Rotated w) (h : Once τ w)
    (hok : SpendsOnce τ w a) (hc : Change rp w a w') : Once τ w' := by
  have hgrows := hc.grows
  -- a token that is known is in the line only if it was so before
  have hline {σ : FixedBytes 32} (hknown : w.past.tokens σ ≠ none)
      (hσ : InLine (anc w'.past) τ σ) : InLine (anc w.past) τ σ := by
    rwa [InLine, anc_eq hgrows hknown] at hσ
  have hstage {i : ℕ} {σ : FixedBytes 32} (hi : replaces (w'.stage i) = some σ) :
      w.past.tokens σ ≠ none := by
    rcases hc.removed hi with hi | ⟨-, hi, -⟩
    · exact known_of_stage (hsound.conns i) (.inr hi)
    · exact known_of_stage (hsound.conns i) (.inl hi)
  have hfirst {i : ℕ} {σ : FixedBytes 32} (ha : ∃ env, a = .turn i env)
      (hi : removes (w.stage i) = some σ) (hσ : InLine (anc w.past) τ σ) :
      (∀ j, replaces (w.stage j) ≠ some σ) ∧ ∀ κ, ¬Child (anc w.past) κ σ := by
    obtain ⟨env, rfl⟩ := ha
    exact hok σ hi hσ
  refine ⟨fun σ hσ i j hi hj => ?_, fun σ hσ i hi κ hκ => ?_, fun σ hσ κ κ' hκ hκ' => ?_⟩
  · have hσ := hline (hstage hi) hσ
    rcases hc.removed hi with hi | ⟨hai, hi, -⟩
    · rcases hc.removed hj with hj | ⟨haj, hj, -⟩
      · exact h.takers σ hσ i j hi hj
      · exact absurd hi ((hfirst haj hj hσ).1 i)
    · rcases hc.removed hj with hj | ⟨⟨env', ha'⟩, hj, -⟩
      · exact absurd hj ((hfirst hai hi hσ).1 j)
      · obtain ⟨env, rfl⟩ := hai
        exact (Action.turn.inj ha').1
  · have hσ := hline (hstage hi) hσ
    rcases hc.child hκ with hκ | ⟨j, env, -, -, hj, hnone⟩
    · rcases hc.removed hi with hi | ⟨ha, hi, -⟩
      · exact h.exclusive σ hσ i hi κ hκ
      · exact (hfirst ha hi hσ).2 κ hκ
    · rcases hc.removed hi with hi' | ⟨ha, hi', -⟩
      · obtain rfl := h.takers σ hσ i j hi' hj
        exact absurd (hnone.symm.trans hi) (Option.some_ne_none σ).symm
      · exact (hfirst ha hi' hσ).1 j hj
  · rcases hc.child hκ with hκ | ⟨i, env, ha, rfl, hi, -⟩
    · have hσ := hline (known_of_child hrotated.consistent hκ) hσ
      rcases hc.child hκ' with hκ' | ⟨j, env', -, -, hj, -⟩
      · exact h.children σ hσ κ κ' hκ hκ'
      · exact absurd hκ (h.exclusive σ hσ j hj κ)
    · have hσ := hline (known_of_stage (hsound.conns i) (.inr hi)) hσ
      rcases hc.child hκ' with hκ' | ⟨j, env', ha', rfl, -, -⟩
      · exact absurd hκ' (h.exclusive σ hσ i hi κ')
      · rw [ha] at ha'
        rw [(Action.turn.inj ha').2]

/-- **A token is spent at most once** in any run in which every handshake that removes a
token of its line is the first to do so: one handshake at most is answered with what
replaces the token, and one token of the line at most is live. -/
theorem token_spent_once {clock : ℤ} (hrun : (world rp).Run (SpendsOnce τ) { clock } w) :
    (∀ x ∈ w.past.answered, ∀ y ∈ w.past.answered, Child (anc w.past) x.2 τ →
      Child (anc w.past) y.2 τ → x.1 = y.1) ∧
    ∀ κ κ', InLine (anc w.past) τ κ → InLine (anc w.past) τ κ' →
      (∃ now, w.daemon.devices.validateToken κ now ≠ none) →
      (∃ now, w.daemon.devices.validateToken κ' now ≠ none) → κ = κ' := by
  have hreach : w.Reachable rp := ⟨clock, hrun.any⟩
  have hsound := hreach.sound
  have hrotated := hreach.rotated
  have honce : Once τ w := by
    refine Reachable.invariant ⟨clock, .refl⟩ hrun ?_ fun w₁ b w₂ hreach₁ _ hw₁ hok hc =>
      hw₁.change hreach₁.sound hreach₁.rotated hok hc
    exact ⟨fun σ _ i j hi => (by cases hi), fun σ _ i hi => (by cases hi),
      fun σ _ κ κ' hκ => (by cases hκ.choose_spec)⟩
  refine ⟨fun x hx y hy hxτ hyτ => ?_, fun κ κ' hκ hκ' hlive hlive' => ?_⟩
  · obtain ⟨e, he, hconn⟩ := hsound.answered x hx
    obtain ⟨e', he', hconn'⟩ := hsound.answered y hy
    have heq := honce.children τ (.inl rfl) x.2 y.2 hxτ hyτ
    rw [heq] at he
    obtain rfl := Option.some.inj (he.symm.trans he')
    exact hconn.symm.trans hconn'
  · have hend {κ : FixedBytes 32} (hlive : ∃ now, w.daemon.devices.validateToken κ now ≠ none)
        (ρ : FixedBytes 32) : ¬Child (anc w.past) ρ κ := by
      intro hρ
      obtain ⟨now, hlive⟩ := hlive
      obtain ⟨uid, hlive⟩ := Option.ne_none_iff_exists'.1 hlive
      obtain ⟨t, ht, htoken, -⟩ := DeviceStore.exists_of_validateToken hlive
      exact hrotated.replaced ρ κ hρ t ht htoken
    exact eq_of_childless hrotated.consistent honce.children hκ hκ' (hend hlive) (hend hlive')

/-! ### One browser, and two -/

/-- A turn that takes no token spends none. -/
theorem spendsOnce_of_none {i : ℕ} {env : Env} (h : removes (w.stage i) = none) :
    SpendsOnce τ w (.turn i env) :=
  fun _ hσ => absurd (h.symm.trans hσ).symm (Option.some_ne_none _)

/-- The daemon when the browser's token is about to be removed. -/
def removing : World :=
  (world accepting).acts {} (enrolment 0 1000 1 2 [1] ++ (reconnect 1 1 3 4).take 3)

set_option maxRecDepth 4000 in
/-- The turn of the test. -/
theorem removing_spendsOnce : SpendsOnce (constBytes 32 1) removing (.turn 1 (smooth 3)) := by
  intro σ hσ _
  obtain rfl : constBytes 32 1 = σ := Option.some.inj hσ
  constructor
  · intro j hj
    have hnone : replaces (removing.stage j) = none :=
      forall_acts _ _ (fun s => replaces s = none) rfl
        (by simp [enrolment, reconnect, Action.conn]) rfl rfl j
    exact absurd (hnone.symm.trans hj).symm (Option.some_ne_none _)
  · rintro κ ⟨l, hl⟩
    obtain ⟨e, he, hel⟩ := anc_eq_some.1 hl
    by_cases hκ : κ = constBytes 32 1
    · subst hκ
      obtain rfl := Option.some.inj he
      cases hel
    · have hnone : removing.past.tokens κ = none := Function.update_of_ne hκ ..
      exact absurd (hnone.symm.trans he).symm (Option.some_ne_none e)

set_option maxRecDepth 4000 in
/-- The run of the test. -/
theorem reconnected_run :
    (world accepting).Run (SpendsOnce (constBytes 32 1)) {} reconnected :=
  Machine.run_acts ⟨rfl, trivial, rfl, trivial, trivial, trivial,
    rfl, spendsOnce_of_none rfl, rfl, spendsOnce_of_none rfl, rfl, spendsOnce_of_none rfl,
    rfl, spendsOnce_of_none rfl, rfl, spendsOnce_of_none rfl,
    rfl, trivial, trivial, trivial, rfl, spendsOnce_of_none rfl, rfl, removing_spendsOnce,
    rfl, spendsOnce_of_none rfl, rfl, spendsOnce_of_none rfl, trivial⟩

set_option maxRecDepth 4000 in
/-- The hypothesis of `token_spent_once` is satisfiable: the browser has replaced its token
by another, so the first is not live any more. -/
theorem token_spent_once_reconnected :
    reconnected.daemon.devices.validateToken (constBytes 32 3) 0 = some 1000 ∧
      ¬∃ now, reconnected.daemon.devices.validateToken (constBytes 32 1) now ≠ none := by
  refine ⟨rfl, fun hlive => ?_⟩
  have heq := (token_spent_once reconnected_run).2 (constBytes 32 3) (constBytes 32 1)
    (.inr ⟨[constBytes 32 1], rfl, List.mem_singleton.2 rfl⟩) (.inl rfl)
    ⟨0, fun hnone => by cases hnone⟩ hlive
  exact absurd heq (by decide)

/-- Two tabs present the token at once, and each call of the one is followed by the same
call of the other. -/
def twice : World :=
  (world accepting).acts enrolled
    [.accept 1, .receive 1 (authHello (constBytes 32 1)), .accept 2,
      .receive 2 (authHello (constBytes 32 1)), .turn 1 (smooth 3), .turn 2 (smooth 4),
      .turn 1 (smooth 3), .turn 2 (smooth 4), .turn 1 (smooth 3), .turn 2 (smooth 4),
      .turn 1 (smooth 5), .turn 2 (smooth 6)]

set_option maxRecDepth 4000 in
/-- **A token is spent twice**: both tabs are answered, with different tokens, and both
tokens are live. -/
theorem token_spent_twice :
    ¬∀ (rp : Relying) (clock : ℤ) (w : World) (τ : FixedBytes 32),
      (world rp).AnyRun { clock } w →
        (∀ x ∈ w.past.answered, ∀ y ∈ w.past.answered, Child (anc w.past) x.2 τ →
          Child (anc w.past) y.2 τ → x.1 = y.1) ∧
        ∀ κ κ', InLine (anc w.past) τ κ → InLine (anc w.past) τ κ' →
          (∃ now, w.daemon.devices.validateToken κ now ≠ none) →
          (∃ now, w.daemon.devices.validateToken κ' now ≠ none) → κ = κ' := by
  intro h
  have hrun : (world accepting).AnyRun enrolled twice :=
    Machine.run_acts ⟨rfl, trivial, trivial, trivial, rfl, trivial, trivial, trivial, rfl, trivial,
      rfl, trivial, rfl, trivial, rfl, trivial, rfl, trivial, rfl, trivial, rfl, trivial, rfl,
      trivial, trivial⟩
  have henrolled : (world accepting).AnyRun {} enrolled := Machine.run_acts enrolled_allowed
  have hanswered : twice.past.answered =
      [(0, constBytes 32 1), (1, constBytes 32 3), (2, constBytes 32 4)] := rfl
  have heq := (h accepting 0 twice (constBytes 32 1) (henrolled.trans hrun)).1
    (1, constBytes 32 3) (by simp [hanswered]) (2, constBytes 32 4) (by simp [hanswered])
    ⟨[], rfl⟩ ⟨[], rfl⟩
  cases heq

end World
end Quosh
