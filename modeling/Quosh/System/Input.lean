/-
# Input is accepted exactly once and in order

Copies of one input can be in many places at once: kept by the client, in the bytes
of a dying connection, in the queue of an old handler, in the command channel and on
the new connection.  The invariant ties all of them to the count of the owner
(`System.Inv`): every queue in front of the channel, from the bytes a handler can
still parse on, is admissible behind the count the channel leads to, and what the
client keeps starts at or below the owner's count.  Inputs of earlier clients may be on
their way as well, as long as the owner takes none of them: those in the channel are not
the next one (`System.Channel`), and those on connections are numbered up to the count
that the client found (`Conn.Barren`).

So the owner takes the inputs in the order they were queued, nothing that reaches it
is ahead, and what it has not accepted is still kept
(`System.input_exactly_once_in_order`).
-/

import Quosh.System.Earlier
import Quosh.System.Served

namespace Quosh

open Bytes InOrder

variable {r r' m m' epoch : ℕ} {ds : List Bytes} {busy : List (ℕ × Bytes)} {written : Bytes}
  {f : FrameFeed}

namespace FrameFeed

/-- More was accepted, or less is asked. -/
theorem Offers.mono (h : f.Offers r m ds busy written) (hr : r ≤ r') (hm : m' ≤ m) :
    f.Offers r' m' ds busy written := by
  obtain ⟨us, hc, hf⟩ := h
  exact ⟨us, hc, hf.mono hr hm⟩

/-- More was given to the client. -/
theorem Offers.grow (h : f.Offers r m ds busy written) (d : Bytes) :
    f.Offers r m (ds ++ [d]) busy written := by
  obtain ⟨us, hc, hf⟩ := h
  exact ⟨us, hc, hf.grow d⟩

/-- What was written last is lost. -/
theorem Offers.lose {lost : Bytes} (h : f.Offers r m ds busy (written ++ lost)) :
    ∃ f' : FrameFeed, f'.Offers r m ds busy written := by
  obtain ⟨us, hc, hf⟩ := h
  obtain ⟨f', hc'⟩ := hc.lose
  exact ⟨f', us, hc', hf⟩

/-- A frame that is split off puts its input behind what was parsed before. -/
theorem Offers.split {buf more rest : Bytes} {g : Frame}
    (h : f.Offers r m ds busy (buf ++ more)) (hs : splitFrame buf = (.ok (some g), rest)) :
    f.Offers r m ds (busy ++ (frameInput g).toList) (rest ++ more) := by
  obtain ⟨us, hc, hf⟩ := h
  obtain ⟨us', rfl, hc'⟩ := hc.split hs
  exact ⟨us', hc', by rwa [List.append_assoc]⟩

end FrameFeed

namespace Conn

variable {c : Conn}

/-- **What the server can still take from a connection** is not ahead, and leads to
`m`: the frames it can still parse, of which `f` holds the end, behind what its
handler has parsed.  A handler that lost its epoch parses nothing more. -/
def Holds (r m epoch : ℕ) (ds : List Bytes) (f : FrameFeed) (c : Conn) : Prop :=
  match c.phase with
  | .greeting buf => f.Offers r m ds [] (buf ++ c.wire)
  | .serving h =>
    if h.epoch = epoch then f.Offers r m ds h.busyInput (h.leftover ++ c.wire)
    else Fits r 0 ds h.busyInput
  | .gone => True

/-- A connection without a handler has all it has received in front of it. -/
theorem Holds.greeting {buf : Bytes} (hp : c.phase = .greeting buf) :
    c.Holds r m epoch ds f ↔ f.Offers r m ds [] (buf ++ c.wire) := by
  unfold Holds
  rw [hp]

/-- A connection of the newest handler. -/
theorem Holds.serving {h : Handler} (hp : c.phase = .serving h) (he : h.epoch = epoch) :
    c.Holds r m epoch ds f ↔ f.Offers r m ds h.busyInput (h.leftover ++ c.wire) := by
  unfold Holds
  rw [hp]
  dsimp only
  rw [if_pos he]

/-- A connection of an older handler, of which only the parsed inputs count. -/
theorem Holds.stale {h : Handler} (hp : c.phase = .serving h) (he : h.epoch ≠ epoch) :
    c.Holds r m epoch ds f ↔ Fits r 0 ds h.busyInput := by
  unfold Holds
  rw [hp]
  dsimp only
  rw [if_neg he]

/-- A connection that is closed has nothing. -/
theorem Holds.gone (hp : c.phase = .gone) : c.Holds r m epoch ds f := by
  unfold Holds
  rw [hp]
  trivial

/-- A handler has parsed only what fits. -/
theorem Holds.parsed {h : Handler} (hh : c.Holds r m epoch ds f) (hp : c.phase = .serving h) :
    Fits r 0 ds h.busyInput := by
  by_cases he : h.epoch = epoch
  · obtain ⟨us, -, hf⟩ := (Holds.serving hp he).1 hh
    exact hf.of_prefix (List.prefix_append ..)
  · exact (Holds.stale hp he).1 hh

/-- What holds of a connection follows the feed behind it. -/
theorem Holds.map {f' : FrameFeed} {ds' : List Bytes} (h : c.Holds r m epoch ds f)
    (hoffers : ∀ busy written, f.Offers r m ds busy written → f'.Offers r' m' ds' busy written)
    (hfits : ∀ us, Fits r 0 ds us → Fits r' 0 ds' us) : c.Holds r' m' epoch ds' f' := by
  cases hp : c.phase with
  | greeting buf => exact (Holds.greeting hp).2 (hoffers _ _ ((Holds.greeting hp).1 h))
  | serving h' =>
    by_cases he : h'.epoch = epoch
    · exact (Holds.serving hp he).2 (hoffers _ _ ((Holds.serving hp he).1 h))
    · exact (Holds.stale hp he).2 (hfits _ ((Holds.stale hp he).1 h))
  | gone => exact .gone hp

/-- More was accepted, or less is asked. -/
theorem Holds.mono (h : c.Holds r m epoch ds f) (hr : r ≤ r') (hm : m' ≤ m) :
    c.Holds r' m' epoch ds f :=
  h.map (fun _ _ ho => ho.mono hr hm) fun _ hf => hf.mono hr le_rfl

/-- More was given to the client. -/
theorem Holds.grow (h : c.Holds r m epoch ds f) (d : Bytes) : c.Holds r m epoch (ds ++ [d]) f :=
  h.map (fun _ _ ho => ho.grow d) fun _ hf => hf.grow d

/-- Where another connection claims the session, a handler keeps what it parsed. -/
theorem Holds.claim (h : c.Holds r m epoch ds f)
    (hle : ∀ h', c.phase = .serving h' → h'.epoch ≤ epoch) : c.Holds r m (epoch + 1) ds f := by
  cases hp : c.phase with
  | greeting buf => exact (Holds.greeting hp).2 ((Holds.greeting hp).1 h)
  | serving h' =>
    exact (Holds.stale hp (Nat.ne_of_lt (Nat.lt_succ_of_le (hle h' hp)))).2 (h.parsed hp)
  | gone => exact .gone hp

/-- Bytes that are lost on the way. -/
theorem Holds.cut (h : c.Holds r m epoch ds f) (n : ℕ) :
    ∃ f', ({ c with wire := c.wire.take n, cut := true } : Conn).Holds r m epoch ds f' := by
  cases hp : c.phase with
  | greeting buf =>
    have ho := (Holds.greeting hp).1 h
    rw [← List.take_append_drop n c.wire, ← List.append_assoc] at ho
    obtain ⟨f', ho'⟩ := ho.lose
    exact ⟨f', (Holds.greeting rfl).2 ho'⟩
  | serving h' =>
    by_cases he : h'.epoch = epoch
    · have ho := (Holds.serving hp he).1 h
      rw [← List.take_append_drop n c.wire, ← List.append_assoc] at ho
      obtain ⟨f', ho'⟩ := ho.lose
      exact ⟨f', (Holds.serving rfl he).2 ho'⟩
    · exact ⟨f, (Holds.stale rfl he).2 ((Holds.stale hp he).1 h)⟩
  | gone => exact ⟨f, .gone rfl⟩

/-- Bytes that a client writes. -/
theorem Holds.send {σ : Type} {client : Client σ}
    (h : c.Holds r client.sent epoch ds client.feed) (n : ℕ) :
    ({ c with wire := c.wire ++ client.outbound.take n } : Conn).Holds r
      (client.advanceOutbound n).sent epoch ds (client.advanceOutbound n).feed := by
  have hsend {busy : List (ℕ × Bytes)} {written : Bytes}
      (ho : client.feed.Offers r client.sent ds busy (written ++ c.wire)) :
      (client.advanceOutbound n).feed.Offers r (client.advanceOutbound n).sent ds busy
        (written ++ (c.wire ++ client.outbound.take n)) := by
    rw [← List.append_assoc]
    exact Client.Sender.advanceOutbound ho n
  cases hp : c.phase with
  | greeting buf => exact (Holds.greeting rfl).2 (hsend ((Holds.greeting hp).1 h))
  | serving h' =>
    by_cases he : h'.epoch = epoch
    · exact (Holds.serving rfl he).2 (hsend ((Holds.serving hp he).1 h))
    · exact (Holds.stale rfl he).2 ((Holds.stale hp he).1 h)
  | gone => exact .gone rfl

/-- Bytes that the server reads. -/
theorem Holds.read (h : c.Holds r m epoch ds f) (n : ℕ) :
    ({ c with wire := c.wire.drop n, phase := c.phase.receive (c.wire.take n) } : Conn).Holds r m
      epoch ds f := by
  cases hp : c.phase with
  | greeting buf =>
    refine ((@Holds.greeting _ _ _ _ _ _ (buf ++ c.wire.take n)) rfl).2 ?_
    rw [List.append_assoc, List.take_append_drop]
    exact (Holds.greeting hp).1 h
  | serving h' =>
    by_cases he : h'.epoch = epoch
    · refine (Holds.serving (h := { h' with leftover := h'.leftover ++ c.wire.take n }) rfl he).2 ?_
      rw [List.append_assoc, List.take_append_drop]
      exact (Holds.serving hp he).1 h
    · exact (Holds.stale (h := { h' with leftover := h'.leftover ++ c.wire.take n }) rfl he).2
        ((Holds.stale hp he).1 h)
  | gone => exact .gone rfl

/-- A handler that is attached behind its greeting. -/
theorem Holds.attach {buf : Bytes} {h' : Handler} {g : Frame} (h : c.Holds r m epoch ds f)
    (hp : c.phase = .greeting buf) (hepoch : h'.epoch = epoch + 1) (hbusy : h'.busyInput = [])
    (hs : splitFrame buf = (.ok (some g), h'.leftover)) (hg : g.1 = msgHello) :
    ({ c with phase := .serving h' } : Conn).Holds r m (epoch + 1) ds f := by
  have hnone : frameInput g = none := by
    rw [frameInput, if_neg (by rw [hg]; decide)]
  have ho := ((Holds.greeting hp).1 h).split hs
  rw [hnone] at ho
  refine (Holds.serving rfl hepoch).2 ?_
  rw [hbusy]
  exact ho

/-- A turn of `drain_leftover`. -/
theorem Holds.drain {h₁ h₂ : Handler} {g : Frame} (h : c.Holds r m epoch ds f)
    (hp : c.phase = .serving h₁) (he : h₁.epoch = epoch) (he' : h₂.epoch = h₁.epoch)
    (hs : splitFrame h₁.leftover = (.ok (some g), h₂.leftover))
    (hb : h₂.busyInput = h₁.busyInput ++ (frameInput g).toList) :
    ({ c with phase := .serving h₂ } : Conn).Holds r m epoch ds f := by
  refine (Holds.serving rfl (he'.trans he)).2 ?_
  rw [hb]
  exact ((Holds.serving hp he).1 h).split hs

/-- A turn of a handler that concerns neither its queue nor its bytes. -/
theorem Holds.same {h₁ h₂ : Handler} (h : c.Holds r m epoch ds f) (hp : c.phase = .serving h₁)
    (he : h₂.epoch = h₁.epoch) (hb : h₂.busyInput = h₁.busyInput)
    (hl : h₁.epoch = epoch → h₂.leftover = h₁.leftover) :
    ({ c with phase := .serving h₂ } : Conn).Holds r m epoch ds f := by
  by_cases hcur : h₁.epoch = epoch
  · refine (Holds.serving rfl (he.trans hcur)).2 ?_
    rw [hb, hl hcur]
    exact (Holds.serving hp hcur).1 h
  · refine (Holds.stale rfl (he ▸ hcur)).2 ?_
    rw [hb]
    exact (Holds.stale hp hcur).1 h

/-- A turn of `drain_busy` that puts an input into the channel. -/
theorem Holds.push {h₁ h₂ : Handler} {u : ℕ × Bytes} (h : c.Holds r m epoch ds f)
    (hp : c.phase = .serving h₁) (he : h₂.epoch = h₁.epoch)
    (hl : h₂.leftover = h₁.leftover) (hb : h₁.busyInput = u :: h₂.busyInput) :
    ({ c with phase := .serving h₂ } : Conn).Holds (takeNext r u.1) m epoch ds f := by
  by_cases hcur : h₁.epoch = epoch
  · obtain ⟨us, hc, hf⟩ := (Holds.serving hp hcur).1 h
    rw [hb, List.cons_append] at hf
    refine (Holds.serving rfl (he.trans hcur)).2 ⟨us, ?_, hf.tail.2⟩
    rw [hl]
    exact hc
  · have hf := (Holds.stale hp hcur).1 h
    rw [hb] at hf
    exact (Holds.stale rfl (he ▸ hcur)).2 hf.tail.2

end Conn

namespace System

variable {σ δ : Type} {ext : Externals σ} {z : Lz4} {drv : Driver δ} {s s' : System σ δ}

/-- What waits behind the count `r`: inputs of the client that are not ahead, and inputs
numbered up to `base`. -/
structure Waits (base r : ℕ) (ds : List Bytes) (us : List (ℕ × Bytes)) : Prop where
  admissible : Admissible r (us.map Prod.fst)
  known : ∀ u ∈ us, u ∈ numberFrom 0 ds ∨ u.1 ≤ base

/-- **What is in the command channel** behind the count `r`: first what is left of the
inputs `old` that were there before, of which none is the next one. -/
def Channel (base : ℕ) (old : List (ℕ × Bytes)) (r : ℕ) (ds : List Bytes)
    (queued : List (ℕ × Bytes)) : Prop :=
  ∃ past us, past <:+ old ∧ queued = past ++ us ∧ (∀ u ∈ past, u.1 ≠ r + 1) ∧ Waits base r ds us

namespace Channel

variable {base : ℕ} {old queued : List (ℕ × Bytes)} {u : ℕ × Bytes}

/-- More was given to the client. -/
theorem grow (h : Channel base old r ds queued) (d : Bytes) :
    Channel base old r (ds ++ [d]) queued := by
  obtain ⟨past, us, hpast, hqueued, hne, hwaits⟩ := h
  refine ⟨past, us, hpast, hqueued, hne, hwaits.admissible, fun u hu => ?_⟩
  refine (hwaits.known u hu).imp_left fun hknown => ?_
  rw [numberFrom_append]
  exact List.mem_append_left _ hknown

/-- The count does not move before the inputs that were there are gone. -/
theorem reach_past {past : List (ℕ × Bytes)} (hne : ∀ u ∈ past, u.1 ≠ r + 1) :
    reach r (past.map Prod.fst) = r :=
  reach_of_forall_ne fun q hq => by
    obtain ⟨u, hu, rfl⟩ := List.mem_map.1 hq
    exact hne u hu

/-- An input that is not ahead goes in at the end. -/
theorem concat (h : Channel base old r ds queued) (hu : u ∈ numberFrom 0 ds ∨ u.1 ≤ base)
    (hle : u.1 ≤ reach r (queued.map Prod.fst) + 1) : Channel base old r ds (queued ++ [u]) := by
  obtain ⟨past, us, hpast, rfl, hne, hwaits⟩ := h
  rw [List.map_append, reach_append, reach_past hne] at hle
  refine ⟨past, us ++ [u], hpast, List.append_assoc .., hne, ?_, fun v hv => ?_⟩
  · rw [List.map_append]
    exact admissible_append.2 ⟨hwaits.admissible, hle, trivial⟩
  · rcases List.mem_append.1 hv with hv | hv
    · exact hwaits.known v hv
    · rwa [List.mem_singleton.1 hv]

/-- The first input is taken from the channel. -/
theorem tail (h : Channel base old r ds (u :: queued)) :
    Channel base old (takeNext r u.1) ds queued := by
  obtain ⟨past, us, hpast, hqueued, hne, hwaits⟩ := h
  cases past with
  | nil =>
    rw [List.nil_append] at hqueued
    subst hqueued
    exact ⟨[], queued, List.nil_suffix, rfl, fun v hv => absurd hv List.not_mem_nil,
      hwaits.admissible.2, fun v hv => hwaits.known v (List.mem_cons_of_mem _ hv)⟩
  | cons v past =>
    obtain ⟨rfl, rfl⟩ := List.cons.inj hqueued
    rw [takeNext, if_neg (hne u (List.mem_cons_self ..))]
    exact ⟨past, us, (List.suffix_cons u past).trans hpast, rfl,
      fun w hw => hne w (List.mem_cons_of_mem _ hw), hwaits⟩

/-- The next input is one of the client. -/
theorem next (h : Channel base old r ds (u :: queued)) (hbase : base ≤ r) (hu : u.1 = r + 1) :
    u ∈ numberFrom 0 ds := by
  obtain ⟨past, us, hpast, hqueued, hne, hwaits⟩ := h
  cases past with
  | nil =>
    rw [List.nil_append] at hqueued
    subst hqueued
    refine (hwaits.known u (List.mem_cons_self ..)).resolve_right fun hle => ?_
    omega
  | cons v past =>
    obtain ⟨rfl, -⟩ := List.cons.inj hqueued
    exact absurd hu (hne u (List.mem_cons_self ..))

/-- Without inputs that were there before, none is ahead. -/
theorem head_le (h : Channel base [] r ds (u :: queued)) : u.1 ≤ r + 1 := by
  obtain ⟨past, us, hpast, hqueued, -, hwaits⟩ := h
  obtain rfl := List.suffix_nil.1 hpast
  rw [List.nil_append] at hqueued
  subst hqueued
  exact hwaits.admissible.1

end Channel

/-- The count that the command channel leads to. -/
def count (s : System σ δ) : ℕ := reach s.owner.lastSeq (s.session.queued.map Prod.fst)

/-- **As long as the owner runs**, nothing in front of it that it takes is ahead: a
connection holds inputs of the client, or is barren. -/
structure Live (base : ℕ) (old : List (ℕ × Bytes)) (s : System σ δ) : Prop where
  closed : s.session.closed = false
  channel : Channel base old s.owner.lastSeq s.inputs s.session.queued
  conns : ∀ i, (∃ f, (s.conns i).Holds s.count 0 s.session.epoch s.inputs f) ∨
    (s.conns i).Barren base s.session
  current : (s.conns s.current).cut = false →
    (s.conns s.current).Holds s.count s.client.sent s.session.epoch s.inputs s.client.feed

/-- **The invariant of the system**, whose owner has accepted `base` inputs, `hist`,
before the client was made, with the inputs `old` in the channel.  The client numbers
from one on all the same. -/
structure Inv (base : ℕ) (hist old : List (ℕ × Bytes)) (s : System σ δ) : Prop where
  keeps : s.client.Keeps s.owner.lastSeq s.inputs
  taken : s.owner.taken = hist ++ ((numberFrom 0 s.inputs).take s.owner.lastSeq).drop base
  base_le : base ≤ s.owner.lastSeq
  le : s.owner.lastSeq ≤ max base s.inputs.length
  live : s.owner.running = true → Live base old s

/-- A client that was just made, and a session whose owner runs, has accepted `n`
inputs, and has no connection and no command left. -/
structure Start (ext : Externals σ) (n : ℕ) (s : System σ δ) : Prop where
  client : ∃ sessionId token cols rows never, s.client = .new ext sessionId token cols rows never
  inputs : s.inputs = []
  conns : ∀ i, (s.conns i).phase = .gone ∧ (s.conns i).down = []
  lastSeq : s.owner.lastSeq = n
  accepted : s.session.accepted = n
  queued : s.session.queued = []
  running : s.owner.running = true
  closed : s.session.closed = false

variable {base : ℕ} {hist old : List (ℕ × Bytes)}

/-- A session at the start of a run is served. -/
theorem Start.served (h : Start ext base s) : Served s where
  accepted := h.accepted.trans h.lastSeq.symm
  closed _ := h.closed
  answers i := by
    refine ⟨?_, ?_, ?_, ?_⟩
    · rw [(h.conns i).2]
      exact fun f hf => absurd hf List.not_mem_nil
    all_goals
      rw [(h.conns i).1]
      exact fun h' hp => by cases hp
  unopened i _ := (h.conns i).1

/-- A client that was just made keeps nothing. -/
theorem keeps_new {n : ℕ} (hclient : ∃ sessionId token cols rows never,
      s.client = .new ext sessionId token cols rows never)
    (hinputs : s.inputs = []) : s.client.Keeps n s.inputs := by
  obtain ⟨sessionId, token, cols, rows, never, hclient⟩ := hclient
  rw [hclient, hinputs]
  exact ⟨rfl, fun d hd => absurd hd List.not_mem_nil, 0, Nat.zero_le _, Nat.zero_le _, rfl⟩

/-- The start of a run. -/
theorem Start.inv (h : Start ext base s) : Inv base s.owner.taken [] s := by
  refine ⟨keeps_new h.client h.inputs, ?_, h.lastSeq.ge, h.lastSeq.le.trans (le_max_left ..),
    fun _ => ?_⟩
  · rw [h.inputs, numberFrom, List.take_nil, List.drop_nil, List.append_nil]
  · refine ⟨h.closed, ?_, fun i => .inl ⟨{}, .gone (h.conns i).1⟩, fun _ => .gone (h.conns _).1⟩
    rw [h.queued]
    exact ⟨[], [], List.suffix_rfl, rfl, fun u hu => absurd hu List.not_mem_nil, trivial,
      fun u hu => absurd hu List.not_mem_nil⟩

/-! ### Steps of the client -/

/-- A step that concerns the client alone. -/
theorem Inv.client {c : Client σ} (h : Inv base hist old s)
    (hkeeps : c.Keeps s.owner.lastSeq s.inputs)
    (hsender : ∀ r busy written, s.owner.lastSeq ≤ r →
      s.client.Sender r s.inputs busy written → c.Sender r s.inputs busy written) :
    Inv base hist old { s with client := c } where
  keeps := hkeeps
  taken := h.taken
  base_le := h.base_le
  le := h.le
  live hrun := by
    have hl := h.live hrun
    exact ⟨hl.closed, hl.channel, hl.conns, fun hcut => (hl.current hcut).map
      (fun busy written ho => hsender _ busy written (le_reach ..) ho) fun _ hf => hf⟩

/-- **The client is given an input.**  It is numbered next and kept; where the owner has
accepted more than this client sent, it is behind the first `base` still, and what was taken
is the same. -/
theorem Inv.queueInput (h : Inv base hist old s) {bytes : Bytes} (now : ℕ) (hne : bytes ≠ [])
    (hlen : bytes.length ≤ maxInputBytes) :
    Inv base hist old
      { s with client := s.client.queueInput ext bytes now, inputs := s.inputs ++ [bytes] } where
  keeps := h.keeps.queueInput now hne hlen
  taken := by
    dsimp only
    rw [h.taken, numberFrom_append]
    rcases Nat.lt_or_ge s.inputs.length s.owner.lastSeq with hlt | hle
    · have hlast : s.owner.lastSeq = base := by
        have := h.base_le
        have := h.le
        omega
      rw [hlast, List.drop_eq_nil_of_le (List.length_take_le ..),
        List.drop_eq_nil_of_le (List.length_take_le ..)]
    · rw [List.take_append_of_le_length (by rwa [length_numberFrom])]
  base_le := h.base_le
  le := h.le.trans (max_le_max le_rfl (by
    dsimp only
    rw [List.length_append]
    exact Nat.le_add_right ..))
  live hrun := by
    have hl := h.live hrun
    refine ⟨hl.closed, hl.channel.grow bytes, fun i => ?_, fun hcut => ?_⟩
    · refine (hl.conns i).imp_left ?_
      rintro ⟨f, hf⟩
      exact ⟨f, hf.grow bytes⟩
    · exact (hl.current hcut).map
        (fun busy written ho => (@Client.Sender.queueInput _ ext) ho bytes now)
        fun _ hf => hf.grow bytes

/-- **A new connection has sent nothing**, and starts over in front of the count. -/
theorem Inv.connect (h : Inv base hist old s) (now : ℕ) :
    Inv base hist old ({ s with
      client := s.client.beginConnection now
      current := s.current + 1 }.setConn (s.current + 1) { phase := .greeting [] }) where
  keeps := h.keeps.beginConnection now
  taken := h.taken
  base_le := h.base_le
  le := h.le
  live hrun := by
    have hl := h.live hrun
    have hnew : ({ phase := .greeting [] } : Conn).Holds s.count (s.client.beginConnection now).sent
        s.session.epoch s.inputs (s.client.beginConnection now).feed :=
      ((@Conn.Holds.greeting _ _ _ _ _ _ []) rfl).2
        (Client.sender_beginConnection s.count s.inputs s.client now)
    refine ⟨hl.closed, hl.channel,
      forall_setConn (fun _ c => (∃ f, c.Holds _ _ _ _ f) ∨ c.Barren base s.session)
        (.inl ⟨_, hnew.mono le_rfl (Nat.zero_le _)⟩) hl.conns, fun _ => ?_⟩
    change ((setConn _ _ _).conns (s.current + 1)).Holds _ _ _ _ _
    rw [setConn_self]
    exact hnew

/-! ### Steps of a connection -/

/-- **A step of one connection** that puts `us` into the channel: it is enough that
what the connection holds goes on behind them, and that it brings nothing else. -/
theorem Inv.turn (h : Inv base hist old s) {i : ℕ} {c : Conn} {session : Session}
    {us : List (ℕ × Bytes)} (hq : s.session.Queues us session) (hcut : c.cut = (s.conns i).cut)
    (hchannel : Live base old s →
      Channel base old s.owner.lastSeq s.inputs (s.session.queued ++ us))
    (hholds : Live base old s → ∀ m f, (s.conns i).Holds s.count m s.session.epoch s.inputs f →
      c.Holds (reach s.count (us.map Prod.fst)) m s.session.epoch s.inputs f)
    (hbrings : ∀ u, c.Brings s.session u → (s.conns i).Brings s.session u) :
    Inv base hist old (({ s with session } : System σ δ).setConn i c) where
  keeps := h.keeps
  taken := h.taken
  base_le := h.base_le
  le := h.le
  live hrun := by
    have hl := h.live hrun
    have hcount : (({ s with session } : System σ δ).setConn i c).count =
        reach s.count (us.map Prod.fst) := by
      change reach s.owner.lastSeq (session.queued.map Prod.fst) = _
      rw [hq.queued, List.map_append, reach_append]
      rfl
    have hconn (j m : ℕ) (f : FrameFeed) : (s.conns j).Holds s.count m s.session.epoch s.inputs f →
        ((({ s with session } : System σ δ).setConn i c).conns j).Holds
          (({ s with session } : System σ δ).setConn i c).count m session.epoch s.inputs f := by
      rw [hcount, hq.epoch]
      revert m f
      exact forall_setConn (fun j conn => ∀ m f,
        (s.conns j).Holds s.count m s.session.epoch s.inputs f →
          conn.Holds (reach s.count (us.map Prod.fst)) m s.session.epoch s.inputs f)
        (hholds hl) (fun j m f hh => hh.mono (le_reach ..) le_rfl) j
    have hopened := forall_setConn (s := { s with session })
      (fun j conn => conn.cut = (s.conns j).cut) hcut fun j => rfl
    have hbarren := forall_setConn (s := { s with session })
      (fun j conn => ∀ u, conn.Brings session u → (s.conns j).Brings s.session u)
      (fun u hu => hbrings u ((Conn.brings_congr hq.id hq.token hq.epoch).1 hu))
      fun j u hu => (Conn.brings_congr hq.id hq.token hq.epoch).1 hu
    refine ⟨hq.closed.trans hl.closed, ?_, fun j => ?_, fun hopen => ?_⟩
    · change Channel _ _ _ _ session.queued
      rw [hq.queued]
      exact hchannel hl
    · refine (hl.conns j).imp ?_ fun hb => hb.mono (hbarren j)
      rintro ⟨f, hf⟩
      exact ⟨f, hconn j 0 f hf⟩
    · exact hconn _ _ _ (hl.current ((hopened _).symm.trans hopen))

/-- A turn of a handler that puts nothing into the channel. -/
theorem Inv.quiet (h : Inv base hist old s) {i : ℕ} {h₂ : Handler} {session : Session}
    (hq : s.session.Queues [] session)
    (hholds : ∀ m f, (s.conns i).Holds s.count m s.session.epoch s.inputs f →
      ({ s.conns i with phase := .serving h₂ } : Conn).Holds s.count m s.session.epoch s.inputs f)
    (hbrings : ∀ u, ({ s.conns i with phase := .serving h₂ } : Conn).Brings s.session u →
      (s.conns i).Brings s.session u) :
    Inv base hist old (s.serve i session h₂) := by
  refine h.turn hq rfl (fun hl => ?_) (fun _ => hholds) hbrings
  rw [List.append_nil]
  exact hl.channel

/-- A handler parses a frame. -/
theorem Inv.drain (h : Inv base hist old s) {i cap : ℕ} {h₁ h₂ : Handler} {session : Session}
    (hp : (s.conns i).phase = .serving h₁)
    (hd : Handler.drainOne s.session h₁ cap = .ok (some (session, h₂))) :
    Inv base hist old (s.serve i session h₂) := by
  obtain ⟨hepoch, hq, he, -, g, hs, hb, hg⟩ := Handler.drainOne_some hd
  exact h.quiet hq (fun m f hh => hh.drain hp hepoch.symm he hs hb)
    fun u hu => hu.drain hp hepoch hs hb hg

/-- An older handler drops what it has not parsed. -/
theorem Inv.discard (h : Inv base hist old s) {i : ℕ} {h₁ : Handler} (rest : Bytes)
    (hp : (s.conns i).phase = .serving h₁) (hstale : s.session.epoch ≠ h₁.epoch) :
    Inv base hist old (s.serve i s.session { h₁ with leftover := rest }) :=
  h.quiet (.refl _) (fun _ _ hh => hh.same hp rfl rfl fun he => absurd he.symm hstale)
    fun _ hu => hu.turn hp rfl List.suffix_rfl fun he => absurd he.symm hstale

/-- A handler passes a size on. -/
theorem Inv.resize (h : Inv base hist old s) {i : ℕ} {h₁ : Handler}
    (hp : (s.conns i).phase = .serving h₁) :
    Inv base hist old (s.serve i (Handler.tryPendingResize s.session h₁).1
      (Handler.tryPendingResize s.session h₁).2) := by
  obtain ⟨hq, he, hl, -, hb⟩ := Handler.tryPendingResize_spec s.session h₁
  exact h.quiet hq (fun m f hh => hh.same hp he hb fun _ => hl)
    fun _ hu => hu.turn hp he (hb ▸ List.suffix_rfl) fun _ => hl

/-- A handler learns what was accepted. -/
theorem Inv.onAccepted (h : Inv base hist old s) {i : ℕ} {h₁ : Handler}
    (hp : (s.conns i).phase = .serving h₁) :
    Inv base hist old (s.serve i s.session (Handler.onAccepted s.session h₁)) := by
  unfold Handler.onAccepted
  split <;> exact h.quiet (.refl _) (fun _ _ hh => hh.same hp rfl rfl fun _ => rfl)
    fun _ hu => hu.turn hp rfl List.suffix_rfl fun _ => rfl

/-- **A turn of `drain_busy`**: the first input of a queue goes into the channel.  From a
handler that holds what the client sent it is the next one behind the channel; from a
handler that brings nothing of this client it is numbered too low for the owner to take. -/
theorem Inv.push (h : Inv base hist old s) {i : ℕ} {h₁ : Handler}
    (hp : (s.conns i).phase = .serving h₁) :
    Inv base hist old (s.serve i (Handler.pushOne s.session h₁).2.1
      (Handler.pushOne s.session h₁).2.2) := by
  obtain ⟨he, hleft, -, hcase⟩ := Handler.pushOne_spec s.session h₁
  rcases hcase with ⟨hq, hb⟩ | ⟨u, hb, hcase⟩
  · exact h.quiet hq (fun m f hh => hh.same hp he hb fun _ => hleft)
      fun _ hu => hu.turn hp he (hb ▸ List.suffix_rfl) fun _ => hleft
  · have hmem : u ∈ h₁.busyInput := hb ▸ List.mem_cons_self ..
    have hturn {us : List (ℕ × Bytes)} := (@Inv.turn _ _ _ _ _ _ h i
      { s.conns i with phase := .serving (Handler.pushOne s.session h₁).2.2 }
      (Handler.pushOne s.session h₁).2.1 us)
    have hbrings (v : ℕ × Bytes)
        (hv : ({ s.conns i with phase := .serving (Handler.pushOne s.session h₁).2.2 } :
          Conn).Brings s.session v) : (s.conns i).Brings s.session v :=
      hv.turn hp he (hb ▸ List.suffix_cons ..) fun _ => hleft
    rcases hcase with hq | ⟨hq, hlost⟩
    · refine hturn hq rfl (fun hl => ?_) (fun _ m f hh => hh.push hp he hleft hb) hbrings
      rcases hl.conns i with ⟨f, hf⟩ | hbarren
      · have hfits := hf.parsed hp
        have hknown := hfits.known u hmem
        rw [hb] at hfits
        exact hl.channel.concat (.inl hknown) hfits.tail.1
      · have hle := hbarren u ((Conn.brings_serving hp).2 (.inl hmem))
        have hbase := h.base_le
        have hcount := le_reach s.owner.lastSeq (s.session.queued.map Prod.fst)
        exact hl.channel.concat (.inr hle) (by omega)
    · refine hturn hq rfl (fun hl => ?_) (fun hl m f hh => ?_) hbrings
      · rw [List.append_nil]
        exact hl.channel
      · -- an input of the client is never lost here
        obtain ⟨k, hk, -⟩ := mem_numberFrom.1 ((hh.parsed hp).known u hmem)
        obtain ⟨hne, hlen⟩ := h.keeps.sized _ (List.mem_of_getElem? hk)
        rcases hlost with hclosed | hempty | hlong
        · rw [hl.closed] at hclosed
          cases hclosed
        · exact absurd hempty hne
        · exact absurd hlen (Nat.not_le.2 hlong)

/-- Frames that go back do not matter here. -/
theorem Inv.ack (h : Inv base hist old s) {i : ℕ} {h₁ : Handler}
    (hp : (s.conns i).phase = .serving h₁) (down : List Frame) :
    Inv base hist old
      (s.setConn i { s.conns i with phase := .serving h₁.pushInputAck.2, down }) := by
  obtain ⟨he, hleft, hb, -⟩ := Handler.pushInputAck_spec h₁
  refine h.turn (.refl s.session) rfl (fun hl => ?_)
    (fun _ m f hh => hh.same hp he hb fun _ => hleft)
    fun u hu => Conn.Brings.turn (c := s.conns i) hu hp he (hb ▸ List.suffix_rfl) fun _ => hleft
  rw [List.append_nil]
  exact hl.channel

/-- A handler writes a frame. -/
theorem Inv.write (h : Inv base hist old s) (i : ℕ) (down : List Frame) :
    Inv base hist old (s.setConn i { s.conns i with down }) := by
  refine h.turn (.refl s.session) rfl (fun hl => ?_) (fun _ m f hh => hh) fun u hu => hu
  rw [List.append_nil]
  exact hl.channel

/-- A connection is closed. -/
theorem Inv.close (h : Inv base hist old s) (i : ℕ) :
    Inv base hist old (s.setConn i { s.conns i with phase := .gone }) := by
  refine h.turn (.refl s.session) rfl (fun hl => ?_) (fun _ m f _ => .gone rfl)
    fun u hu => absurd hu (Conn.not_brings_gone rfl)
  rw [List.append_nil]
  exact hl.channel

/-- **A handler reads from its connection.** -/
theorem Inv.read (h : Inv base hist old s) (i n : ℕ) :
    Inv base hist old (s.setConn i { s.conns i with
      wire := (s.conns i).wire.drop n
      phase := (s.conns i).phase.receive ((s.conns i).wire.take n) }) := by
  refine h.turn (.refl s.session) rfl (fun hl => ?_) (fun _ m f hh => hh.read n) fun u hu => hu.read
  rw [List.append_nil]
  exact hl.channel

/-- **A connection is attached**: every other handler loses its epoch.  The epoch of the new
handler is above all others, and what the connection had left behind its greeting is the
handler's now. -/
theorem Inv.attach (h : Inv base hist old s) (hserved : Served s) {i : ℕ} {buf : Bytes}
    {authUid : Option ℕ} {session : Session} {h₁ : Handler} (hp : (s.conns i).phase = .greeting buf)
    (hg : handleIncoming s.session authUid buf = .attach session h₁) :
    Inv base hist old (s.serve i session h₁) := by
  obtain ⟨rfl, he, hb, -, g, hs, htyp⟩ := Handler.handleIncoming_attach hg
  have hepoch (j : ℕ) := (hserved.answers j).epoch_le
  refine ⟨h.keeps, h.taken, h.base_le, h.le, fun hrun => ?_⟩
  have hl := h.live hrun
  have hconn := forall_setConn (s := { s with session := s.session.claimTransport })
    (c := { s.conns i with phase := .serving h₁ }) (fun j conn => ∀ m f,
      (s.conns j).Holds s.count m s.session.epoch s.inputs f →
        conn.Holds s.count m (s.session.epoch + 1) s.inputs f)
    (fun _ _ hh => hh.attach hp he hb hs htyp)
    fun j _ _ hh => hh.claim (hepoch j)
  have hbarren := forall_setConn (s := { s with session := s.session.claimTransport })
    (c := { s.conns i with phase := .serving h₁ }) (fun j conn => ∀ u,
      conn.Brings s.session.claimTransport u → (s.conns j).Brings s.session u)
    (fun u hu => hu.attach hp hg hb) fun j u hu => hu.claim (hepoch j)
  have hopened := forall_setConn (s := { s with session := s.session.claimTransport })
    (c := { s.conns i with phase := .serving h₁ })
    (fun j conn => conn.cut = (s.conns j).cut) rfl fun j => rfl
  refine ⟨hl.closed, hl.channel, fun j => ?_, fun hopen => ?_⟩
  · refine (hl.conns j).imp ?_ fun hbar => hbar.mono (hbarren j)
    rintro ⟨f, hf⟩
    exact ⟨f, hconn j 0 f hf⟩
  · exact hconn _ _ _ (hl.current ((hopened _).symm.trans hopen))

/-! ### Bytes on a connection -/

/-- Bytes that are lost close the connection for the client. -/
theorem Inv.cut (h : Inv base hist old s) (i n : ℕ) :
    Inv base hist old
      (s.setConn i { s.conns i with wire := (s.conns i).wire.take n, cut := true }) where
  keeps := h.keeps
  taken := h.taken
  base_le := h.base_le
  le := h.le
  live hrun := by
    have hl := h.live hrun
    refine ⟨hl.closed, hl.channel,
      forall_setConn (fun _ c => (∃ f, c.Holds _ _ _ _ f) ∨ c.Barren base s.session) ?_ hl.conns,
      ?_⟩
    · refine (hl.conns i).imp ?_ fun hbarren => hbarren.mono fun u hu => Conn.Brings.cut hu
      rintro ⟨f, hf⟩
      exact hf.cut n
    · exact forall_setConn (fun j conn => j = s.current → conn.cut = false →
          conn.Holds s.count s.client.sent s.session.epoch s.inputs s.client.feed)
        (fun _ hopen => by cases hopen) (fun j hj => hj ▸ hl.current) s.current rfl

/-- **Bytes that go out** move from the client to its connection, or nowhere if it is cut;
then nothing is asked of the current connection any more. -/
theorem Inv.send (h : Inv base hist old s) (n : ℕ) :
    Inv base hist old ({ s with client := s.client.advanceOutbound n }.setConn s.current
      { s.conns s.current with
        wire := (s.conns s.current).wire ++
          if (s.conns s.current).cut then [] else s.client.outbound.take n }) where
  keeps := ⟨h.keeps.seq, h.keeps.sized, h.keeps.unacked⟩
  taken := h.taken
  base_le := h.base_le
  le := h.le
  live hrun := by
    have hl := h.live hrun
    cases hcut : (s.conns s.current).cut with
    | true =>
      rw [if_pos rfl, List.append_nil]
      refine ⟨hl.closed, hl.channel,
        forall_setConn (fun _ c => (∃ f, c.Holds _ _ _ _ f) ∨ c.Barren base s.session)
          (hl.conns s.current) hl.conns, fun hopen => ?_⟩
      change ((setConn _ _ _).conns s.current).cut = false at hopen
      rw [setConn_self] at hopen
      rw [hcut] at hopen
      cases hopen
    | false =>
      rw [if_neg Bool.false_ne_true]
      have hsend := (hl.current hcut).send n
      refine ⟨hl.closed, hl.channel,
        forall_setConn (fun _ c => (∃ f, c.Holds _ _ _ _ f) ∨ c.Barren base s.session)
          (.inl ⟨_, hsend.mono le_rfl (Nat.zero_le _)⟩) hl.conns, fun _ => ?_⟩
      change ((setConn _ _ _).conns s.current).Holds _ _ _ _ _
      rw [setConn_self]
      exact hsend

/-! ### Steps of the owner -/

/-- A command that is taken from the channel leaves the count behind the rest. -/
theorem Live.recv {session : Session} {o : Owner δ} {u : Option (ℕ × Bytes)}
    (hl : Live base old s) (hframes : Owner.Frames s.session s.owner session o)
    (hrun : o.running = true) (hqueued : s.session.queued = u.toList ++ session.queued)
    (hcount : o.lastSeq = reach s.owner.lastSeq (u.toList.map Prod.fst)) :
    Live base old { s with session, owner := o } := by
  have hsame : ({ s with session, owner := o } : System σ δ).count = s.count := by
    unfold count
    rw [hqueued, List.map_append, reach_append, ← hcount]
  have hchannel := hl.channel
  rw [hqueued] at hchannel
  have hepoch : session.epoch = s.session.epoch := hframes.epoch
  refine ⟨(hframes.closed hrun).trans hl.closed, ?_, fun i => ?_, fun hopen => ?_⟩
  · change Channel base old o.lastSeq s.inputs session.queued
    rw [hcount]
    cases u with
    | none => exact hchannel
    | some u => exact hchannel.tail
  · rw [hsame]
    refine (hl.conns i).imp (fun hholds => hepoch ▸ hholds) fun hbarren =>
      hbarren.mono fun v hv => ?_
    exact (Conn.brings_congr hframes.id hframes.token hepoch).1 hv
  · rw [hsame]
    exact hepoch ▸ hl.current hopen

/-- **The owner takes the next input**, and nothing else.  What is in the channel is the
client's from the first that was not accepted on, or numbered too low, so the input that it
takes is the one that the client gave that number. -/
theorem Inv.owner (h : Inv base hist old s) {session : Session} {o : Owner δ}
    (hstep : Owner.Step drv z s.session s.owner session o) :
    Inv base hist old { s with session, owner := o } := by
  obtain ⟨heffect, hframes⟩ := hstep.effect
  have hlive {u : Option (ℕ × Bytes)} (hqueued : s.session.queued = u.toList ++ session.queued)
      (hcount : o.running = true → o.lastSeq = reach s.owner.lastSeq (u.toList.map Prod.fst))
      (hrun : o.running = true) : Live base old { s with session, owner := o } :=
    (h.live (hframes.running hrun)).recv hframes hrun hqueued (hcount hrun)
  cases heffect with
  | idle hseq hacc htaken hcmds =>
    refine ⟨hseq ▸ h.keeps, ?_, hseq ▸ h.base_le, hseq ▸ h.le, ?_⟩
    · exact htaken.trans (hseq ▸ h.taken)
    · refine (@hlive none) ?_ fun _ => hseq
      rw [Option.toList_none, List.nil_append, Session.queued, Session.queued, hcmds]
  | skip msg hcmds hseq hacc htaken hnext =>
    refine ⟨hseq ▸ h.keeps, ?_, hseq ▸ h.base_le, hseq ▸ h.le, ?_⟩
    · exact htaken.trans (hseq ▸ h.taken)
    · refine (@hlive msg.payload) (Session.queued_cons hcmds) fun hrun => ?_
      rw [hseq]
      cases msg with
      | input seq data => exact (if_neg (hnext hrun seq data rfl)).symm
      | resize cols rows => rfl
      | ack version => rfl
  | take seq data hrun hcmds hnext hseq hacc htaken =>
    have hl := h.live hrun
    have hqueued := Session.queued_cons hcmds
    have hchannel := hl.channel
    rw [hqueued] at hchannel
    have hmem : (seq, data) ∈ numberFrom 0 s.inputs := hchannel.next h.base_le hnext
    obtain ⟨k, hk, hkseq⟩ := mem_numberFrom.1 hmem
    have hks : k = s.owner.lastSeq := by
      dsimp only at hkseq
      omega
    subst hks
    have hlt := (List.getElem?_eq_some_iff.1 hk).1
    have hle : s.owner.lastSeq ≤ o.lastSeq := by omega
    refine ⟨h.keeps.mono hle, ?_, h.base_le.trans hle, ?_, ?_⟩
    · have hlen : base ≤ ((numberFrom 0 s.inputs).take s.owner.lastSeq).length := by
        rw [List.length_take_of_le (by rw [length_numberFrom]; exact hlt.le)]
        exact h.base_le
      change o.taken = hist ++ ((numberFrom 0 s.inputs).take o.lastSeq).drop base
      rw [htaken, hseq, hnext, List.take_add_one, List.drop_append_of_le_length hlen, h.taken,
        getElem?_numberFrom, hk, hnext, Nat.zero_add, List.append_assoc]
      rfl
    · change o.lastSeq ≤ max base s.inputs.length
      omega
    · refine hlive hqueued fun _ => ?_
      rw [hseq]
      exact (if_pos hnext).symm

/-! ### Runs -/

/-- **Every step keeps the invariant.**  Each kind of step has its lemma.  Of the frames
that reach the client only an `InputAck` makes it forget inputs, and what it is told has
been accepted (`Served`). -/
theorem Inv.step (h : Inv base hist old s) (hserved : Served s) (hseq : s.inputs.length < 2 ^ 64)
    (hstep : Step ext z drv s s') : Inv base hist old s' := by
  cases hstep with
  | queueInput bytes now hne hlen => exact h.queueInput now hne hlen
  | call c hcall =>
    refine h.client (h.keeps.call hcall) fun r busy written hr hs => ?_
    exact hs.call (h.keeps.mono hr) hseq hcall
  | connect now => exact h.connect now
  | send n hn => exact h.send n
  | deliver f now hf =>
    by_cases htyp : f.1 = msgInputAck
    · rw [htyp]
      exact h.client (h.keeps.ack now ((hserved.answers _).acks f hf htyp))
        fun r busy written _ hs => hs.ack f.2 now
    · have hsilent := (@Client.handleFrame_silent _ ext z) s.client f.2 now htyp
      exact h.client (h.keeps.silent hsilent) fun r busy written _ hs => hs.silent hsilent
  | datagram bytes now =>
    have hsilent := (@Client.recvDatagram_silent _ ext z) s.client bytes now
    exact h.client (h.keeps.silent hsilent) fun r busy written _ hs => hs.silent hsilent
  | cut i n => exact h.cut i n
  | read i n => exact h.read i n
  | attach i buf authUid session h₁ hp hg => exact h.attach hserved hp hg
  | drain i cap h₁ h₂ session hp hd => exact h.drain hp hd
  | discard i h₁ rest hp hstale => exact h.discard rest hp hstale
  | push i h₁ hp => exact h.push hp
  | resize i h₁ hp => exact h.resize hp
  | accepted i h₁ hp => exact h.onAccepted hp
  | ack i h₁ hp => exact h.ack hp _
  | write i f hf => exact h.write i _
  | close i => exact h.close i
  | owner session o ho => exact h.owner ho

/-- No step takes a queued input back. -/
theorem Step.inputs_prefix (hstep : Step ext z drv s s') : s.inputs <+: s'.inputs := by
  cases hstep with
  | queueInput bytes now hne hlen => exact List.prefix_append ..
  | _ => exact List.prefix_refl _

/-- **Every run keeps the invariant**, for as many inputs as there are numbers. -/
theorem Inv.steps (h : Inv base hist old s) (hserved : Served s) (hrun : Steps ext z drv s s')
    (hseq : s'.inputs.length < 2 ^ 64) : Inv base hist old s' := by
  induction hrun with
  | refl => exact h
  | tail hrun hstep ih =>
    have hlt := hstep.inputs_prefix.length_le.trans_lt hseq
    exact (ih hlt).step (hserved.steps hrun) hlt hstep

/-- **Input is accepted exactly once and in order.**  However the client, its
connections, their handlers and the owner of the session interleave, and wherever a
connection is cut: the owner has accepted exactly the first inputs of the client, as
many as it published.  All others are still kept by the client.  And no input is
ahead when it reaches the owner. -/
theorem input_exactly_once_in_order (h₀ : Start ext 0 s) (ht : s.owner.taken = [])
    (hrun : Steps ext z drv s s') (hseq : s'.inputs.length < 2 ^ 64) :
    s'.owner.taken = (numberFrom 0 s'.inputs).take s'.session.accepted ∧
      s'.owner.taken.map Prod.snd = s'.inputs.take s'.session.accepted ∧
      s'.session.accepted ≤ s'.inputs.length ∧
      (∀ u ∈ numberFrom 0 s'.inputs, s'.session.accepted < u.1 → u ∈ s'.client.unacked) ∧
      (s'.owner.running = true → ∀ seq data rest, s'.session.cmds = .input seq data :: rest →
        seq ≤ s'.owner.lastSeq + 1) := by
  have h := h₀.inv.steps h₀.served hrun hseq
  have htaken := h.taken
  rw [ht, List.nil_append, List.drop_zero] at htaken
  rw [(h₀.served.steps hrun).accepted]
  refine ⟨htaken, ?_, h.le.trans (max_le (Nat.zero_le _) le_rfl), fun u hu hlt => ?_,
    fun hlive seq data rest hcmds => ?_⟩
  · rw [htaken, List.map_take, map_snd_numberFrom]
  · obtain ⟨b, hb, -, hunacked⟩ := h.keeps.unacked
    rw [hunacked, ← Nat.sub_zero b, ← filter_numberFrom, List.mem_filter]
    exact ⟨hu, decide_eq_true (hb.trans_lt hlt)⟩
  · have hchannel := (h.live hlive).channel
    rw [Session.queued, hcmds] at hchannel
    exact hchannel.head_le

/-- An emulator that shows the same grid all the time. -/
def idleDriver : Driver Unit where
  process _ _ := ()
  flushSync _ := ()
  takePtyWrite _ := ([], ())
  resize _ _ _ := ()
  grid _ := smallGrid

/-- A client that was just made, and its session, which has accepted `n` inputs. -/
def freshSystem (n : ℕ) : System Unit Unit where
  client := .new .ascii (constBytes 16 1) (constBytes 32 2) 80 24 false
  session := { newSession 80 24 with accepted := n }
  owner := { driver := (), lastSeq := n, taken := numberFrom 0 (List.replicate n [0x78]) }

/-- A new session is at its start. -/
theorem freshSystem_start (n : ℕ) : Start .ascii n (freshSystem n) :=
  ⟨⟨_, _, _, _, _, rfl⟩, rfl, fun _ => ⟨rfl, rfl⟩, rfl, rfl, rfl, rfl, rfl⟩

/-- A letter is queued, the client attaches, and the letter is accepted. -/
theorem typed_steps : ∃ s, Steps .ascii .literal idleDriver (freshSystem 0) s ∧
    s.inputs = [[0x61]] ∧ s.session.accepted = 1 := by
  refine ⟨_, .head (.queueInput _ [0x61] 0 (by decide) (by decide)) <|
    .head (.connect _ 0) <|
    .head (.send _ _ le_rfl) <|
    .head (.read _ 1 100) <|
    .head (.attach _ 1 _ none _ _ rfl rfl) <|
    .head (.call _ _ (.pump _)) <|
    .head (.send _ _ le_rfl) <|
    .head (.read _ 1 100) <|
    .head (.drain _ 1 busyCap _ _ _ rfl rfl) <|
    .head (.push _ 1 _ rfl) <|
    .single (.owner _ _ _ (.recv _ _ _ _ rfl (by decide +kernel) rfl)), rfl, ?_⟩
  decide +kernel

/-- The hypotheses of `input_exactly_once_in_order` are satisfiable, with a letter
that is accepted. -/
theorem input_exactly_once_in_order_typed :
    ∃ s, Steps .ascii .literal idleDriver (freshSystem 0) s ∧ s.owner.taken = [(1, [0x61])] := by
  obtain ⟨s, hrun, hinputs, haccepted⟩ := typed_steps
  have h := input_exactly_once_in_order (freshSystem_start 0) rfl hrun (by rw [hinputs]; decide)
  refine ⟨s, hrun, h.1.trans ?_⟩
  rw [hinputs, haccepted]
  rfl

end System
end Quosh
