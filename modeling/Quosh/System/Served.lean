/-
# What the server keeps, whatever clients it has

The side of a run that does not depend on the client: the published count is the count of
the owner, handlers acknowledge only what was accepted and have parsed only inputs that a
session takes, and connections are opened one after the other (`Served`).  The pending
writes of the owner come about by calls under its rule (`Orderly`).

Every step keeps this, and so does another client that is made for the session
(`Orderly.uses`).

The results about clients (`Quosh.System.Input`, `Quosh.System.Resume`) take these as given
and add what depends on the client: which inputs it keeps, which are on the way, and which
have been taken.
-/

import Quosh.Server.Pending
import Quosh.System.System

namespace Quosh

open Bytes

/-- The number of an input that was parsed fits into the eight bytes it had. -/
theorem frameInput_lt {g : Frame} {u : ℕ × Bytes} (h : frameInput g = some u) : u.1 < 2 ^ 64 := by
  unfold frameInput at h
  split at h
  · unfold decodeInput at h
    split at h
    · cases h
    · rename_i v hdecode
      split at hdecode
      · cases hdecode
      · cases hdecode
        cases h
        have hlt := fromLe_lt (g.2.take 8)
        have hlen : (g.2.take 8).length ≤ 8 := List.length_take_le ..
        exact hlt.trans_le (Nat.pow_le_pow_right (by decide) hlen)
  · cases h

/-- What goes into the channel is an input that a session takes. -/
theorem Owner.Streamed.queues {δ : Type} {s s' : Session} {o : Owner δ} {us : List (ℕ × Bytes)}
    (h : Streamed s o) (hq : s.Queues us s')
    (hus : ∀ u ∈ us, u.2 ≠ [] ∧ u.2.length ≤ maxInputBytes) : Streamed s' o where
  cmds seq data hmem := by
    have hqueued : (seq, data) ∈ s'.queued := List.mem_filterMap.2 ⟨_, hmem, rfl⟩
    rw [hq.queued] at hqueued
    rcases List.mem_append.1 hqueued with hqueued | hqueued
    · obtain ⟨msg, hmsg, hpayload⟩ := List.mem_filterMap.1 hqueued
      cases msg with
      | input seq' data' =>
        cases hpayload
        exact h.cmds seq data hmsg
      | resize cols rows => cases hpayload
      | ack version => cases hpayload
    · exact hus _ hqueued
  run := h.run

namespace Conn

variable {c : Conn} {r r' epoch : ℕ}

/-- **What goes back** covers only what was accepted: acknowledgements on their way,
and the one a handler has pending.  No handler is newer than the session, and none has
parsed an input that a session does not take. -/
structure Answers (r epoch : ℕ) (c : Conn) : Prop where
  acks : ∀ f ∈ c.down, f.1 = msgInputAck → ∀ n, decodeU64 f.2 = .ok n → n ≤ r
  epoch_le : ∀ h, c.phase = .serving h → h.epoch ≤ epoch
  pending : ∀ h, c.phase = .serving h → ∀ n, h.pendingInputAck = some n → n ≤ r
  parsed : ∀ h, c.phase = .serving h → ∀ u ∈ h.busyInput,
    u.1 < 2 ^ 64 ∧ u.2 ≠ [] ∧ u.2.length ≤ maxInputBytes

/-- More was accepted, or there is a newer handler. -/
theorem Answers.mono (h : c.Answers r epoch) (hr : r ≤ r') {epoch' : ℕ} (he : epoch ≤ epoch') :
    c.Answers r' epoch' :=
  ⟨fun f hf ht n hn => (h.acks f hf ht n hn).trans hr, fun h' hp => (h.epoch_le h' hp).trans he,
    fun h' hp n hn => (h.pending h' hp n hn).trans hr, h.parsed⟩

/-- Another wire changes nothing. -/
theorem Answers.wire (h : c.Answers r epoch) (wire : Bytes) (cut : Bool) :
    ({ c with wire, cut } : Conn).Answers r epoch :=
  ⟨h.acks, h.epoch_le, h.pending, h.parsed⟩

/-- A connection that is closed. -/
theorem Answers.gone (h : c.Answers r epoch) : ({ c with phase := .gone } : Conn).Answers r epoch :=
  ⟨h.acks, fun _ hp => (by cases hp), fun _ hp => (by cases hp), fun _ hp => (by cases hp)⟩

/-- A handler that goes on. -/
theorem Answers.serving {h₂ : Handler} (h : c.Answers r epoch) (he : h₂.epoch ≤ epoch)
    (hack : ∀ n, h₂.pendingInputAck = some n → n ≤ r)
    (hbusy : ∀ u ∈ h₂.busyInput, u.1 < 2 ^ 64 ∧ u.2 ≠ [] ∧ u.2.length ≤ maxInputBytes) :
    ({ c with phase := .serving h₂ } : Conn).Answers r epoch :=
  ⟨h.acks, fun _ hp => (by cases hp; exact he), fun _ hp => (by cases hp; exact hack),
    fun _ hp => (by cases hp; exact hbusy)⟩

/-- Bytes that are received are not answered yet. -/
theorem Answers.receive (h : c.Answers r epoch) (wire bytes : Bytes) :
    ({ c with wire, phase := c.phase.receive bytes } : Conn).Answers r epoch := by
  cases hp : c.phase with
  | greeting buf =>
    exact ⟨h.acks, fun _ hp => (by cases hp), fun _ hp => (by cases hp), fun _ hp => (by cases hp)⟩
  | serving h₁ =>
    exact (h.wire wire c.cut).serving (h.epoch_le h₁ hp) (h.pending h₁ hp) (h.parsed h₁ hp)
  | gone => exact (h.wire wire c.cut).gone

end Conn

namespace System

variable {σ δ : Type} {ext : Externals σ} {z : Lz4} {drv : Driver δ} {s s' : System σ δ}

/-- **What every step keeps**, whatever the client is. -/
structure Served (s : System σ δ) : Prop where
  accepted : s.session.accepted = s.owner.lastSeq
  closed : s.owner.running = true → s.session.closed = false
  answers : ∀ i, (s.conns i).Answers s.owner.lastSeq s.session.epoch
  unopened : ∀ i, s.current < i → (s.conns i).phase = .gone

/-- Only the server counts. -/
theorem Served.client (h : Served s) (client : Client σ) (inputs : List Bytes) :
    Served { s with client, inputs } :=
  ⟨h.accepted, h.closed, h.answers, h.unopened⟩

/-- **A step of one connection.** -/
theorem Served.turn (h : Served s) {i : ℕ} {c : Conn} {session : Session}
    {us : List (ℕ × Bytes)} (hq : s.session.Queues us session)
    (hanswers : c.Answers s.owner.lastSeq s.session.epoch)
    (hgone : (s.conns i).phase = .gone → c.phase = .gone) :
    Served (({ s with session } : System σ δ).setConn i c) where
  accepted := hq.accepted.trans h.accepted
  closed hrun := hq.closed.trans (h.closed hrun)
  answers := forall_setConn (fun _ c => c.Answers _ session.epoch) (hq.epoch ▸ hanswers)
    (hq.epoch ▸ h.answers)
  unopened := forall_setConn (fun j c => s.current < j → c.phase = .gone)
    (fun hlt => hgone (h.unopened i hlt)) h.unopened

/-- A turn of a handler. -/
theorem Served.serve (h : Served s) {i : ℕ} {h₁ h₂ : Handler} {session : Session}
    {us : List (ℕ × Bytes)} (hp : (s.conns i).phase = .serving h₁)
    (hq : s.session.Queues us session) (he : h₂.epoch = h₁.epoch)
    (hack : ∀ n, h₂.pendingInputAck = some n → n ≤ s.owner.lastSeq)
    (hbusy : ∀ u ∈ h₂.busyInput, u.1 < 2 ^ 64 ∧ u.2 ≠ [] ∧ u.2.length ≤ maxInputBytes) :
    Served (s.serve i session h₂) := by
  refine h.turn hq ((h.answers i).serving ?_ hack hbusy) fun hgone => ?_
  · exact he ▸ (h.answers i).epoch_le h₁ hp
  · rw [hp] at hgone
    cases hgone

/-- **A connection is greeted**: the handler is the newest, and has nothing to do yet. -/
theorem Served.attach (h : Served s) {i : ℕ} {buf : Bytes} {authUid : Option ℕ}
    {session : Session} {h₁ : Handler} (hp : (s.conns i).phase = .greeting buf)
    (hg : handleIncoming s.session authUid buf = .attach session h₁) :
    Served (s.serve i session h₁) := by
  obtain ⟨rfl, he, hb, hack, -⟩ := Handler.handleIncoming_attach hg
  have ha (j : ℕ) := (h.answers j).mono le_rfl (Nat.le_succ s.session.epoch)
  refine ⟨h.accepted, h.closed, forall_setConn (fun _ c => c.Answers _ _) ?_ ha,
    forall_setConn (fun j c => s.current < j → c.phase = .gone) (fun hlt => ?_) h.unopened⟩
  · refine (ha i).serving he.le (fun n hn => (hack n hn).trans_le h.accepted.le) ?_
    rw [hb]
    exact fun u hu => absurd hu List.not_mem_nil
  · have hgone := h.unopened i hlt
    rw [hp] at hgone
    cases hgone

/-- A handler puts an input that it has parsed into the channel, or leaves it. -/
theorem Served.push (h : Served s) {i : ℕ} {h₁ : Handler} (hp : (s.conns i).phase = .serving h₁) :
    Served (s.serve i (Handler.pushOne s.session h₁).2.1 (Handler.pushOne s.session h₁).2.2) := by
  obtain ⟨he, -, hack, hcase⟩ := Handler.pushOne_spec s.session h₁
  have hacks (n : ℕ) (hn : (Handler.pushOne s.session h₁).2.2.pendingInputAck = some n) :
      n ≤ s.owner.lastSeq := (h.answers i).pending h₁ hp n (hack ▸ hn)
  have hparsed := (h.answers i).parsed h₁ hp
  rcases hcase with ⟨hq, hb⟩ | ⟨u, hb, hq | ⟨hq, -⟩⟩
  · exact h.serve hp hq he hacks (hb ▸ hparsed)
  · exact h.serve hp hq he hacks fun v hv => hparsed v (hb ▸ List.mem_cons_of_mem _ hv)
  · exact h.serve hp hq he hacks fun v hv => hparsed v (hb ▸ List.mem_cons_of_mem _ hv)

/-- **A handler acknowledges** what the session has accepted. -/
theorem Served.ack (h : Served s) {i : ℕ} {h₁ : Handler} (hp : (s.conns i).phase = .serving h₁) :
    Served (s.setConn i { s.conns i with
      phase := .serving h₁.pushInputAck.2
      down := (s.conns i).down ++
        h₁.pushInputAck.1.toList.map fun n => (msgInputAck, toLe 8 n) }) := by
  obtain ⟨he, -, hb, hsent, hpending⟩ := Handler.pushInputAck_spec h₁
  have hle := (h.answers i).pending h₁ hp
  have hanswers := (h.answers i).serving (he ▸ (h.answers i).epoch_le h₁ hp)
    (fun n hn => hle n (hpending n hn)) (hb ▸ (h.answers i).parsed h₁ hp)
  refine h.turn (.refl s.session) ⟨fun f hf ht n hn => ?_, hanswers.epoch_le, hanswers.pending,
    hanswers.parsed⟩ fun hgone => ?_
  · rcases List.mem_append.1 hf with hf | hf
    · exact hanswers.acks f hf ht n hn
    · obtain ⟨k, hk, rfl⟩ := List.mem_map.1 hf
      exact (decodeU64_toLe_le hn).trans (hle k (hsent k (Option.mem_toList.1 hk)))
  · rw [hp] at hgone
    cases hgone

/-- **The owner takes a turn**: what it has accepted does not go back. -/
theorem Served.owner (h : Served s) {session : Session} {o : Owner δ}
    (ho : Owner.Step drv z s.session s.owner session o) :
    Served { s with session, owner := o } := by
  obtain ⟨heffect, hframes⟩ := ho.effect
  have hclosed (hrun : o.running = true) : session.closed = false :=
    (hframes.closed hrun).trans (h.closed (hframes.running hrun))
  cases heffect with
  | idle hseq hacc htaken hcmds =>
    exact ⟨hacc.trans (h.accepted.trans hseq.symm), hclosed, hseq ▸ hframes.epoch ▸ h.answers,
      h.unopened⟩
  | skip msg hcmds hseq hacc htaken hnext =>
    exact ⟨hacc.trans (h.accepted.trans hseq.symm), hclosed, hseq ▸ hframes.epoch ▸ h.answers,
      h.unopened⟩
  | take seq data hrun hcmds hnext hseq hacc htaken =>
    have hle : s.owner.lastSeq ≤ o.lastSeq := by omega
    exact ⟨hacc.trans hseq.symm, hclosed, fun i => (h.answers i).mono hle hframes.epoch.ge,
      h.unopened⟩

/-- **Every step keeps what the server keeps.**  What the client does leaves the server
alone; a handler changes the session by one of its own parts, each of which has a lemma
(`attach`, `serve`, `push`, `ack`); a turn of the owner only raises what is accepted. -/
theorem Served.step (h : Served s) (hstep : Step ext z drv s s') : Served s' := by
  cases hstep with
  | queueInput bytes now hne hlen => exact h.client _ _
  | call c hcall => exact h.client _ _
  | deliver f now hf => exact h.client _ _
  | datagram bytes now => exact h.client _ _
  | connect now =>
    refine ⟨h.accepted, h.closed, forall_setConn (fun _ c => c.Answers _ _) ?_ h.answers,
      forall_setConn (fun j c => s.current + 1 < j → c.phase = .gone)
        (fun hlt => absurd hlt (Nat.lt_irrefl _)) fun j hlt => h.unopened j (by omega)⟩
    exact ⟨fun _ hf => absurd hf List.not_mem_nil, fun _ hp => (by cases hp),
      fun _ hp => (by cases hp), fun _ hp => (by cases hp)⟩
  | send n hn =>
    exact (h.client (s.client.advanceOutbound n) s.inputs).turn (.refl s.session)
      ((h.answers s.current).wire _ _) id
  | cut i n => exact h.turn (.refl s.session) ((h.answers i).wire _ _) id
  | read i n =>
    refine h.turn (.refl s.session) ((h.answers i).receive _ _) fun hgone => ?_
    dsimp only
    rw [hgone]
    rfl
  | attach i buf authUid session h₁ hp hg => exact h.attach hp hg
  | drain i cap h₁ h₂ session hp hd =>
    obtain ⟨-, hq, he, hack, g, -, hb, hg⟩ := Handler.drainOne_some hd
    refine h.serve hp hq he (fun n hn => (h.answers i).pending h₁ hp n (hack ▸ hn)) fun u hu => ?_
    rw [hb] at hu
    rcases List.mem_append.1 hu with hu | hu
    · exact (h.answers i).parsed h₁ hp u hu
    · exact ⟨frameInput_lt (Option.mem_toList.1 hu), hg u (Option.mem_toList.1 hu)⟩
  | discard i h₁ rest hp hstale =>
    exact h.serve hp (.refl _) rfl ((h.answers i).pending h₁ hp) ((h.answers i).parsed h₁ hp)
  | push i h₁ hp => exact h.push hp
  | resize i h₁ hp =>
    obtain ⟨hq, he, -, hack, hb⟩ := Handler.tryPendingResize_spec s.session h₁
    exact h.serve hp hq he (fun n hn => (h.answers i).pending h₁ hp n (hack ▸ hn))
      (hb ▸ (h.answers i).parsed h₁ hp)
  | accepted i h₁ hp =>
    unfold Handler.onAccepted
    split
    · refine h.serve hp (.refl _) rfl (fun n hn => ?_) ((h.answers i).parsed h₁ hp)
      rw [← Option.some.inj hn, h.accepted]
    · exact h.serve hp (.refl _) rfl ((h.answers i).pending h₁ hp) ((h.answers i).parsed h₁ hp)
  | ack i h₁ hp => exact h.ack hp
  | write i f hf =>
    have ha := h.answers i
    refine h.turn (.refl s.session) ⟨fun g hg ht n hn => ?_, ha.epoch_le, ha.pending, ha.parsed⟩ id
    rcases List.mem_append.1 hg with hg | hg
    · exact ha.acks g hg ht n hn
    · rw [List.mem_singleton.1 hg] at ht
      exact absurd ht hf
  | close i => exact h.turn (.refl s.session) (h.answers i).gone fun _ => rfl
  | owner session o ho => exact h.owner ho

/-- **Every run keeps what the server keeps.** -/
theorem Served.steps (h : Served s) (hrun : Steps ext z drv s s') : Served s' := by
  induction hrun with
  | refl => exact h
  | tail _ hstep ih => exact ih.step hstep

/-! ### The pending writes of the owner -/

/-- What every step keeps, and the pending writes come about by calls of the owner. -/
structure Orderly (s : System σ δ) : Prop extends Served s where
  streamed : Owner.Streamed s.session s.owner

/-- **Every step keeps a session orderly.** -/
theorem Orderly.step (h : Orderly s) (hstep : Step ext z drv s s') : Orderly s' := by
  refine ⟨h.toServed.step hstep, ?_⟩
  have hnone : ∀ u ∈ ([] : List (ℕ × Bytes)), u.2 ≠ [] ∧ u.2.length ≤ maxInputBytes :=
    fun u hu => absurd hu List.not_mem_nil
  cases hstep with
  | attach i buf authUid session h₁ hp hg =>
    obtain ⟨rfl, -⟩ := Handler.handleIncoming_attach hg
    exact h.streamed.connection .claim
  | drain i cap h₁ h₂ session hp hd =>
    obtain ⟨-, hq, -⟩ := Handler.drainOne_some hd
    exact h.streamed.queues hq hnone
  | push i h₁ hp =>
    obtain ⟨-, -, -, hcase⟩ := Handler.pushOne_spec s.session h₁
    rcases hcase with ⟨hq, -⟩ | ⟨u, hb, hq | ⟨hq, -⟩⟩
    · exact h.streamed.queues hq hnone
    · refine h.streamed.queues hq fun v hv => ?_
      rw [List.mem_singleton.1 hv]
      exact ((h.answers i).parsed h₁ hp u (hb ▸ List.mem_cons_self ..)).2
    · exact h.streamed.queues hq hnone
  | resize i h₁ hp => exact h.streamed.queues (Handler.tryPendingResize_spec s.session h₁).1 hnone
  | owner session o ho =>
    obtain ⟨now, seen, hturn⟩ := Owner.step_iff_turn.1 ho
    exact h.streamed.turn hturn
  | _ => exact h.streamed

/-- **Every run keeps a session orderly.** -/
theorem Orderly.steps (h : Orderly s) (hrun : Steps ext z drv s s') : Orderly s' := by
  induction hrun with
  | refl => exact h
  | tail _ hstep ih => exact ih.step hstep

/-! ### One client after the other -/

/-- Another client for the session, which has not opened a connection yet.  What the client
before it has left on its connections stays there. -/
def reload (s : System σ δ) (client : Client σ) : System σ δ :=
  { s with client, inputs := [], current := s.current + 1 }

variable (ext z drv) in
/-- **The use of a session**: a step, or another client is made for it. -/
inductive Use : System σ δ → System σ δ → Prop
  | step {s s' : System σ δ} (h : Step ext z drv s s') : Use s s'
  | reload (s : System σ δ) (sessionId : FixedBytes 16) (token : FixedBytes 32) (cols rows : ℕ)
    (never : Bool) : Use s (s.reload (.new ext sessionId token cols rows never))

variable (ext z drv) in
/-- Any use of a session, by any number of clients. -/
abbrev Uses : System σ δ → System σ δ → Prop := Relation.ReflTransGen (Use ext z drv)

/-- Another client changes nothing at the server. -/
theorem Orderly.reload (h : Orderly s) (client : Client σ) : Orderly (s.reload client) where
  accepted := h.accepted
  closed := h.closed
  answers := h.answers
  unopened i hlt := h.unopened i (Nat.lt_of_succ_lt hlt)
  streamed := h.streamed

/-- **Every use keeps a session orderly.** -/
theorem Orderly.uses (h : Orderly s) (huse : Uses ext z drv s s') : Orderly s' := by
  induction huse with
  | refl => exact h
  | tail _ huse ih =>
    cases huse with
    | step hstep => exact ih.step hstep
    | reload => exact ih.reload _

end System
end Quosh
