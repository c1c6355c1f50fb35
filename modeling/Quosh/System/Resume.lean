/-
# A session that another client resumes

After a page was reloaded, a client that was just made attaches to a session that
has accepted inputs of the client before it.  `Client::new` numbers from one again
(`crates/quosh-client/src/lib.rs`), the count of the session goes on
(`crates/quosh-server/src/session.rs`), and neither tells the other.

There are two ways to lose an input.  The owner skips as many inputs as were accepted
before, and an acknowledgement of that count makes the client forget them.  And an input
of an earlier client that is still on its way may be the next one: then the owner takes
it in the place of the client's own.  So nothing is lost if and only if the session had
accepted nothing and nothing that it would take is on its way
(`System.resume_lossless_iff`).
-/

import Quosh.System.Input
import Quosh.System.Overtaken

namespace Quosh

open Bytes InOrder

namespace System

variable {σ δ : Type} {ext : Externals σ} {z : Lz4} {drv : Driver δ} {s s' : System σ δ}

/-- **A client that was just made** for a session, which clients may have used before in any
run, from a session at rest on. -/
structure Resumed (ext : Externals σ) (z : Lz4) (drv : Driver δ) (s : System σ δ) : Prop where
  client : ∃ sessionId token cols rows never, s.client = .new ext sessionId token cols rows never
  inputs : s.inputs = []
  unopened : (s.conns s.current).phase = .gone
  used : ∃ s₀ n, Start ext n s₀ ∧ Owner.Streamed s₀.session s₀.owner ∧ Uses ext z drv s₀ s

/-- **No input of an earlier client is on its way** that the owner could take behind the
count `base`: the next one is not in the command channel, and no connection brings a later
one. -/
structure Quiet (base : ℕ) (s : System σ δ) : Prop where
  channel : ∀ u ∈ s.session.queued, u.1 ≠ base + 1
  conns : ∀ i, (s.conns i).Barren base s.session

theorem Resumed.orderly (h : Resumed ext z drv s) : Orderly s := by
  obtain ⟨s₀, n, hstart, hstreamed, huses⟩ := h.used
  exact Orderly.uses ⟨hstart.served, hstreamed⟩ huses

/-- The invariant of `System.Input` holds behind whatever is in the channel. -/
theorem Resumed.inv (h : Resumed ext z drv s) (hquiet : Quiet s.owner.lastSeq s) :
    Inv s.owner.lastSeq s.owner.taken s.session.queued s := by
  refine ⟨keeps_new h.client h.inputs, ?_, le_rfl, le_max_left .., fun hrun => ?_⟩
  · rw [h.inputs, numberFrom, List.take_nil, List.drop_nil, List.append_nil]
  · refine ⟨h.orderly.closed hrun, ?_, fun i => .inr (hquiet.conns i), fun _ => .gone h.unopened⟩
    exact ⟨_, [], List.suffix_rfl, (List.append_nil _).symm, hquiet.channel, trivial,
      fun u hu => absurd hu List.not_mem_nil⟩

/-! ### What is lost -/

/-- **Nothing is lost** behind the inputs `hist` that were accepted before: the owner
has accepted the first inputs of the client, once and in order, and the client keeps
all others. -/
def Lossless (hist : List (ℕ × Bytes)) (s : System σ δ) : Prop :=
  ∃ k, s.owner.taken.map Prod.snd = hist.map Prod.snd ++ s.inputs.take k ∧
    ∀ u ∈ (numberFrom 0 s.inputs).drop k, u ∈ s.client.unacked

variable {base : ℕ} {hist old : List (ℕ × Bytes)}

/-- **The owner skips the first `base` inputs** of a client behind a session that has
accepted `base` before, whatever happens. -/
theorem Inv.payloads (h : Inv base hist old s) : s.owner.taken.map Prod.snd =
    hist.map Prod.snd ++ (s.inputs.take s.owner.lastSeq).drop base := by
  rw [h.taken, List.map_append, List.map_drop, List.map_take, map_snd_numberFrom]

/-- Behind a session that has accepted nothing, nothing is lost. -/
theorem Inv.lossless (h : Inv 0 hist old s) : Lossless hist s := by
  obtain ⟨b, hb, -, hunacked⟩ := h.keeps.unacked
  refine ⟨s.owner.lastSeq, h.payloads, fun u hu => ?_⟩
  rw [hunacked]
  exact List.drop_subset_drop_left _ hb hu

/-- Where nothing is lost, the client is not overtaken. -/
theorem Lossless.not_overtaken (h : Lossless hist s) : ¬Overtaken hist s := by
  obtain ⟨k, htaken, -⟩ := h
  have hlen := congrArg List.length htaken
  rw [List.length_map, List.length_append, List.length_map, List.length_take] at hlen
  unfold Overtaken
  omega

/-- An input that is in neither place is lost. -/
theorem not_lossless {d : Bytes} (hinputs : s.inputs = [d]) (hunacked : s.client.unacked = [])
    (htaken : s.owner.taken = hist) : ¬Lossless hist s := by
  rintro ⟨k, hpayloads, hkept⟩
  rw [hinputs, htaken] at hpayloads
  rw [hinputs, hunacked] at hkept
  cases k with
  | zero => exact List.not_mem_nil (hkept _ (List.mem_cons_self ..))
  | succ k =>
    have hlen := congrArg List.length hpayloads
    simp at hlen

/-- **An input that is forgotten**: the client attaches and is told the count of the
session, is given an input, and attaches again. -/
theorem forget_steps (h₀ : Resumed ext z drv s) (hbase : 0 < s.session.accepted)
    (hlt : s.session.accepted < 2 ^ 64) (hid : s.client.sessionId = s.session.id)
    (htoken : s.client.token = s.session.token) {d : Bytes} (hne : d ≠ [])
    (hlen : d.length ≤ maxInputBytes) :
    ∃ s', Steps ext z drv s s' ∧ s'.inputs = [d] ∧ s'.client.unacked = [] ∧
      s'.owner = s.owner := by
  obtain ⟨sessionId, token, cols, rows, never, hclient⟩ := h₀.client
  have hseq : s.client.seq = 0 := by
    rw [hclient]
    rfl
  have hkept : s.client.unacked = [] := by
    rw [hclient]
    rfl
  obtain ⟨h₁, down₁, hlearn₁, -⟩ := (@learn_steps _ _ ext z drv s) hid htoken hlt fun u hu => by
    rw [hkept] at hu
    exact absurd hu List.not_mem_nil
  rw [hkept, List.filter_nil] at hlearn₁
  let s₁ : System σ δ := ({ s with current := s.current + 1 } : System σ δ).onCurrent
    { s.client.greeted 0 with unacked := [] } s.session.claimTransport
    { phase := .serving h₁, down := down₁ }
  obtain ⟨p, display, hqueue⟩ := (@Client.queueInput_eq _ ext) s₁.client d 0
  let s₂ : System σ δ := { s₁ with
    client := { s₁.client with
      seq := s₁.client.seq + 1, unacked := s₁.client.unacked ++ [(s₁.client.seq + 1, d)]
      predictor := p, display }
    inputs := s₁.inputs ++ [d] }
  have hgiven : Step ext z drv s₁ s₂ := by
    have := (@Step.queueInput _ _ ext z drv) s₁ d 0 hne hlen
    rwa [hqueue] at this
  have hnumber : s₂.client.unacked = [(1, d)] := by
    show [] ++ [(s.client.seq + 1, d)] = _
    rw [hseq]
    rfl
  obtain ⟨h₂, down₂, hlearn₂, -⟩ := (@learn_steps _ _ ext z drv s₂) hid htoken hlt fun u hu => by
    rw [hnumber] at hu
    rw [List.mem_singleton.1 hu]
    exact Nat.zero_lt_one
  refine ⟨_, (hlearn₁.tail hgiven).trans hlearn₂, ?_, ?_, rfl⟩
  · show s.inputs ++ [d] = [d]
    rw [h₀.inputs]
    rfl
  · show (s₂.client.unacked.filter fun u => u.1 > s.session.accepted) = []
    rw [hnumber]
    refine List.filter_eq_nil_iff.2 fun u hu => ?_
    rw [List.mem_singleton.1 hu, decide_eq_true_iff]
    exact Nat.not_lt.2 hbase

/-- A client that was just made for a session that has accepted nothing is level with it. -/
theorem Resumed.level (h₀ : Resumed ext z drv s) (hrun : s.owner.running = true)
    (hzero : s.owner.lastSeq = 0) (hid : s.client.sessionId = s.session.id)
    (htoken : s.client.token = s.session.token) : Level s.owner.taken 0 s := by
  have horderly := h₀.orderly
  obtain ⟨⟨sessionId, token, cols, rows, never, hclient⟩, hinputs, -, -⟩ := h₀
  refine ⟨horderly, hrun, hid, htoken, ?_, ?_, ?_, ?_, hzero, rfl, by decide⟩
  · rw [hclient]
    rfl
  · rw [hclient]
    rfl
  · rw [hclient]
    exact fun u hu => absurd hu List.not_mem_nil
  · rw [hinputs]
    rfl

/-- **Whatever is on its way overtakes the client**, if the owner could take it. -/
theorem Level.quiet {n : ℕ} (h : Level hist n s) (hnot : ¬Overtakes ext z drv hist s) :
    Quiet n s where
  channel u hu hnumber := by
    obtain ⟨msg, hmsg, hpayload⟩ := List.mem_filterMap.1 hu
    obtain ⟨hnone, -⟩ := ((@clear_steps _ _ ext z drv) h).resolve_left hnot
    cases msg with
    | input seq data =>
      cases hpayload
      exact hnone data (hnumber ▸ hmsg)
    | resize cols rows => cases hpayload
    | ack version => cases hpayload
  conns i u hu := by
    by_contra hlt
    exact hnot (brings_overtakes h hu (Nat.not_le.1 hlt))

/-- **A client that resumes a session loses nothing if and only if** the session has accepted
nothing, and no input of an earlier client that the owner would take is on its way.  Whatever
clients have used the session before: of the inputs of a new one the owner accepts those behind
the first `base`, in order, where `base` inputs were accepted before and none that it could
still take is on its way.  Then for `base = 0` every input is accepted once and in order or
still kept by the client; in every other case some run ends without that. -/
theorem resume_lossless_iff {base : ℕ} (h₀ : Resumed ext z drv s) (hrun : s.owner.running = true)
    (hbase : s.owner.lastSeq = base) (hlt : base < 2 ^ 64)
    (hid : s.client.sessionId = s.session.id) (htoken : s.client.token = s.session.token) :
    (Quiet base s → ∀ s', Steps ext z drv s s' → s'.inputs.length < 2 ^ 64 →
      s'.owner.taken.map Prod.snd =
        s.owner.taken.map Prod.snd ++ (s'.inputs.take s'.session.accepted).drop base) ∧
    ((∀ s', Steps ext z drv s s' → s'.inputs.length < 2 ^ 64 →
      Lossless s.owner.taken s') ↔ base = 0 ∧ Quiet base s) := by
  subst hbase
  have horderly := h₀.orderly
  have haccepted : s.session.accepted = s.owner.lastSeq := horderly.accepted
  refine ⟨fun hquiet s' hsteps hseq => ?_, fun hall => ?_, ?_⟩
  · rw [(horderly.steps hsteps).accepted]
    exact ((h₀.inv hquiet).steps horderly.toServed hsteps hseq).payloads
  · have hzero : s.owner.lastSeq = 0 := by
      by_contra hne
      obtain ⟨s', hsteps, hinputs, hunacked, howner⟩ := (@forget_steps _ _ ext z drv) h₀
        (haccepted ▸ Nat.pos_of_ne_zero hne) (haccepted ▸ hlt) hid htoken (d := [0x61])
        (by decide) (by decide)
      exact not_lossless hinputs hunacked (congrArg Owner.taken howner)
        (hall s' hsteps (by rw [hinputs]; decide))
    refine ⟨hzero, ?_⟩
    rw [hzero]
    refine (@Level.quiet _ _ ext z drv) (h₀.level hrun hzero hid htoken) ?_
    rintro ⟨s', hsteps, hseq, hover⟩
    exact (hall s' hsteps hseq).not_overtaken hover
  · rintro ⟨hzero, hquiet⟩ s' hsteps hseq
    have hinv := (h₀.inv hquiet).steps horderly.toServed hsteps hseq
    rw [hzero] at hinv
    exact hinv.lossless

/-- A client that was just made for the session of `freshSystem`, and no client before it. -/
theorem freshSystem_resumed (n : ℕ) : Resumed .ascii .literal idleDriver (freshSystem n) where
  client := ⟨_, _, _, _, _, rfl⟩
  inputs := rfl
  unopened := rfl
  used := by
    refine ⟨freshSystem n, n, freshSystem_start n, ⟨nofun, {}, .refl, rfl, nofun⟩, .refl⟩

/-- A letter of a client comes into the command channel, and the owner has not taken it yet. -/
theorem queued_steps : ∃ s, Steps .ascii .literal idleDriver (freshSystem 0) s ∧
    s.session.queued = [(1, [0x61])] ∧ s.owner = (freshSystem 0).owner ∧
    s.session.id = constBytes 16 1 ∧ s.session.token = constBytes 32 2 := by
  refine ⟨_, .head (.queueInput _ [0x61] 0 (by decide) (by decide)) <|
    .head (.connect _ 0) <|
    .head (.send _ _ le_rfl) <|
    .head (.read _ 1 100) <|
    .head (.attach _ 1 _ none _ _ rfl rfl) <|
    .head (.call _ _ (.pump _)) <|
    .head (.send _ _ le_rfl) <|
    .head (.read _ 1 100) <|
    .head (.drain _ 1 busyCap _ _ _ rfl rfl) <|
    .single (.push _ 1 _ rfl), ?_, rfl, rfl, rfl⟩
  decide +kernel

/-- The hypotheses of `resume_lossless_iff` are satisfiable: for a session that has accepted an
input, and for one that has accepted nothing, with the letter of a client before in the
channel. -/
theorem resume_lossless_iff_freshSystem :
    (¬∀ s', Steps .ascii .literal idleDriver (freshSystem 1) s' → s'.inputs.length < 2 ^ 64 →
      Lossless (freshSystem 1).owner.taken s') ∧
    ∃ s, Uses .ascii .literal idleDriver (freshSystem 0) s ∧ s.owner.lastSeq = 0 ∧
      ¬∀ s', Steps .ascii .literal idleDriver s s' → s'.inputs.length < 2 ^ 64 →
        Lossless s.owner.taken s' := by
  refine ⟨fun hall => ?_, ?_⟩
  · have hiff := (resume_lossless_iff (freshSystem_resumed 1) rfl rfl (by decide) rfl rfl).2
    exact Nat.one_ne_zero (hiff.1 hall).1
  · obtain ⟨s, hsteps, hqueued, howner, hid, htoken⟩ := queued_steps
    have huses : Uses .ascii .literal idleDriver (freshSystem 0)
        (s.reload (.new .ascii (constBytes 16 1) (constBytes 32 2) 80 24 false)) :=
      .tail (Relation.ReflTransGen.mono (fun _ _ => .step) _ _ hsteps) (.reload s _ _ _ _ _)
    have horderly := (freshSystem_resumed 0).orderly.steps hsteps
    have hresumed : Resumed .ascii .literal idleDriver
        (s.reload (.new .ascii (constBytes 16 1) (constBytes 32 2) 80 24 false)) :=
      ⟨⟨_, _, _, _, _, rfl⟩, rfl, horderly.unopened _ (Nat.lt_succ_self _), freshSystem 0, 0,
        freshSystem_start 0, (freshSystem_resumed 0).orderly.streamed, huses⟩
    have hzero : s.owner.lastSeq = 0 := by
      rw [howner]
      rfl
    have hrun : s.owner.running = true := by
      rw [howner]
      rfl
    refine ⟨_, huses, hzero, fun hall => ?_⟩
    have hiff := (resume_lossless_iff hresumed hrun hzero (by decide) hid.symm htoken.symm).2
    refine (hiff.1 hall).2.channel (1, [0x61]) ?_ rfl
    show (1, [0x61]) ∈ s.session.queued
    rw [hqueued]
    exact List.mem_singleton_self _

/-- What the session of `freshSystem` answers to a greeting. -/
def helloOk : Bytes :=
  toLe 2 protocolVersion ++ List.replicate 16 1 ++ toLe 8 0 ++ toLe 2 80 ++ toLe 2 24

/-- **An input that is lost behind one accepted input.**  A client attaches to a
session that has accepted an input, is told so, and is then given the letter.  The
letter goes all the way to the owner, which takes it for the first input again; and
when the connection breaks, the next one makes the client forget it.  Now the letter
is nowhere. -/
theorem freshSystem_loses_input :
    ∃ s, Steps .ascii .literal idleDriver (freshSystem 1) s ∧ s.inputs = [[0x61]] ∧
      s.client.unacked = [] ∧ s.session.cmds = [] ∧
      s.owner.taken = (freshSystem 1).owner.taken ∧
      ¬Lossless (freshSystem 1).owner.taken s := by
  have hrun : ∃ s, Steps .ascii .literal idleDriver (freshSystem 1) s ∧ s.inputs = [[0x61]] ∧
      s.client.unacked = [] ∧ s.session.cmds = [] ∧
      s.owner.taken = (freshSystem 1).owner.taken := by
    refine ⟨_, .head (.connect _ 0) <|
      .head (.send _ _ le_rfl) <|
      .head (.read _ 1 100) <|
      .head (.attach _ 1 _ none _ _ rfl rfl) <|
      .head (.write _ 1 (msgHelloOk, helloOk) (by decide)) <|
      .head (.deliver _ (msgHelloOk, helloOk) 0 (by decide +kernel)) <|
      .head (.ack _ 1 _ rfl) <|
      .head (.deliver _ (msgInputAck, toLe 8 1) 0 (by decide +kernel)) <|
      .head (.queueInput _ [0x61] 0 (by decide) (by decide)) <|
      .head (.call _ _ (.pump _)) <|
      .head (.send _ _ le_rfl) <|
      .head (.read _ 1 100) <|
      .head (.drain _ 1 busyCap _ _ _ rfl rfl) <|
      .head (.push _ 1 _ rfl) <|
      .head (.owner _ _ _ (.recv _ _ _ _ rfl (by decide +kernel) rfl)) <|
      .head (.cut _ 1 0) <|
      .head (.connect _ 0) <|
      .head (.send _ _ le_rfl) <|
      .head (.read _ 2 100) <|
      .head (.attach _ 2 _ none _ _ rfl rfl) <|
      .head (.ack _ 2 _ rfl) <|
      .single (.deliver _ (msgInputAck, toLe 8 1) 0 (by decide +kernel)), ?_, ?_, ?_, ?_⟩
    · rfl
    · decide +kernel
    · decide +kernel
    · decide +kernel
  obtain ⟨s, hsteps, hinputs, hunacked, hcmds, htaken⟩ := hrun
  exact ⟨s, hsteps, hinputs, hunacked, hcmds, htaken, not_lossless hinputs hunacked htaken⟩

end System
end Quosh
