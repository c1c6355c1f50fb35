/-
# An input of an earlier client

A session has accepted as many inputs as its client was given, and an input of an earlier
client can still come.  If it is the next one the owner takes it at once.  Otherwise the inputs
of the client are accepted up to it, one connection after the other (`System.round_steps`), and
then it is taken in the place of the client's next one: the owner has taken more inputs than
the client was given (`System.brings_overtakes`).

Every run here is one that the parts of the system can make, turn by turn.

`Level` is what each of the rounds starts from and leaves: the owner has taken all inputs that
the client was given.  Earlier connections do not move meanwhile, so what they bring they still
bring then.
-/

import Quosh.Server.Draining
import Quosh.System.Attaching
import Quosh.System.Earlier
import Quosh.System.Served

namespace Quosh

open Bytes

namespace System

variable {σ δ : Type} {ext : Externals σ} {z : Lz4} {drv : Driver δ} {s s' : System σ δ}
  {hist : List (ℕ × Bytes)} {n j : ℕ}

/-! ### Turns of the owner -/

/-- **The owner makes room** for the next input by writing. -/
theorem room_steps (h : Orderly s) (hrun : s.owner.running = true) :
    ∃ pending history, pending.unread < maxPending ∧
      Steps ext z drv s { s with owner := { s.owner with pending, history } } := by
  induction hn : s.owner.pending.unread using Nat.strong_induction_on generalizing s with
  | _ n ih =>
    by_cases hroom : s.owner.pending.unread < maxPending
    · exact ⟨s.owner.pending, s.owner.history, hroom, .refl⟩
    · obtain ⟨st, hpending, hfaithful⟩ := h.streamed.faithful
      have hpos : 0 < s.owner.pending.writeBuf.length := by
        refine List.length_pos_iff.2 fun hnil => hroom ?_
        rw [← hpending] at hnil ⊢
        rw [hfaithful.writeBuf.1 hnil]
        decide
      have hwrite := (@Owner.Step.write _ drv z) s.session s.owner
        s.owner.pending.writeBuf.length 0 hrun ⟨hpos, le_rfl⟩
      have hstep := (@Step.owner _ _ ext z drv) s _ _ hwrite
      have hless := PendingWrites.unread_advance (p := s.owner.pending) le_rfl s.owner.history 0
      obtain ⟨pending, history, hroom', hsteps⟩ := ih _ (by
        have hmax : 0 < maxPending := by decide
        omega) (h.step hstep) hrun hless
      exact ⟨pending, history, hroom', .head hstep hsteps⟩

/-- **The owner takes a command**, and accepts it if and only if it is the next input.  The
queue of pending writes is emptied first (`room_steps`), so the input that comes is never
refused for it. -/
theorem recv_steps (h : Orderly s) (hrun : s.owner.running = true) {msg : OwnerMsg}
    {rest : List OwnerMsg} (hcmds : s.session.cmds = msg :: rest) :
    ∃ session o, Steps ext z drv s { s with session, owner := o } ∧ session.cmds = rest ∧
      session.id = s.session.id ∧ session.token = s.session.token ∧
      session.epoch = s.session.epoch ∧ o.running = true ∧
      ((∃ data, msg = .input (s.owner.lastSeq + 1) data ∧ o.lastSeq = s.owner.lastSeq + 1 ∧
          o.taken.length = s.owner.taken.length + 1) ∨
        (∀ data, msg ≠ .input (s.owner.lastSeq + 1) data) ∧ o.lastSeq = s.owner.lastSeq ∧
          o.taken = s.owner.taken) := by
  obtain ⟨pending, history, hroom, hsteps⟩ := (@room_steps _ _ ext z drv) h hrun
  have horderly := h.steps hsteps
  generalize hs : ({ s with owner := { s.owner with pending, history } } : System σ δ) = s₁
    at hsteps horderly
  have hone : (if s.owner.lastSeq = 0 then 1 else s.owner.lastSeq + 1) = s.owner.lastSeq + 1 := by
    split <;> omega
  subst hs
  have hrecv := (@Owner.Step.recv _ drv z) s.session { s.owner with pending, history }
    msg rest hrun hroom hcmds
  have hrun' := hsteps.tail (.owner _ _ _ hrecv)
  cases msg with
  | input seq data =>
    have hok := horderly.streamed.pushInput_eq_true hcmds hroom
    unfold Owner.onMsg at hrun'
    dsimp only at hrun' hok
    rw [hone] at hrun'
    by_cases hnext : seq = s.owner.lastSeq + 1
    · rw [if_pos hnext, if_pos hok] at hrun'
      refine ⟨_, _, hrun', rfl, rfl, rfl, rfl, hrun, .inl ⟨data, ?_, hnext, ?_⟩⟩
      · rw [hnext]
      · exact List.length_append
    · rw [if_neg hnext] at hrun'
      refine ⟨_, _, hrun', rfl, rfl, rfl, rfl, hrun, .inr ⟨fun data' heq => ?_, rfl, rfl⟩⟩
      cases heq
      exact hnext rfl
  | resize cols rows =>
    unfold Owner.onMsg at hrun'
    dsimp only at hrun'
    split_ifs at hrun'
    · exact ⟨_, _, hrun', rfl, rfl, rfl, rfl, hrun, .inr ⟨nofun, rfl, rfl⟩⟩
    · exact ⟨_, _, hrun', rfl, rfl, rfl, rfl, hrun, .inr ⟨nofun, rfl, rfl⟩⟩
  | ack version => exact ⟨_, _, hrun', rfl, rfl, rfl, rfl, hrun, .inr ⟨nofun, rfl, rfl⟩⟩

/-! ### Client and session at one count -/

/-- The owner has taken more inputs than the client was given. -/
def Overtaken (hist : List (ℕ × Bytes)) (s : System σ δ) : Prop :=
  hist.length + s.inputs.length < s.owner.taken.length

variable (ext z drv) in
/-- Some run comes to a point where the owner has taken more inputs than the client was
given. -/
def Overtakes (hist : List (ℕ × Bytes)) (s : System σ δ) : Prop :=
  ∃ s', Steps ext z drv s s' ∧ s'.inputs.length < 2 ^ 64 ∧ Overtaken hist s'

/-- Steps in front of one that overtakes. -/
theorem Overtakes.head (h : Overtakes ext z drv hist s') (hsteps : Steps ext z drv s s') :
    Overtakes ext z drv hist s := by
  obtain ⟨s'', hsteps', hlt, hover⟩ := h
  exact ⟨s'', hsteps.trans hsteps', hlt, hover⟩

/-- **The owner has taken all inputs of the client**, and the client knows the session. -/
structure Level (hist : List (ℕ × Bytes)) (n : ℕ) (s : System σ δ) : Prop where
  orderly : Orderly s
  running : s.owner.running = true
  id : s.client.sessionId = s.session.id
  token : s.client.token = s.session.token
  live : s.client.hungup = false
  seq : s.client.seq = n
  unacked : ∀ u ∈ s.client.unacked, 0 < u.1 ∧ u.1 ≤ n
  inputs : s.inputs.length = n
  lastSeq : s.owner.lastSeq = n
  taken : s.owner.taken.length = hist.length + n
  lt : n < 2 ^ 64

/-- What the client was given and the name of the session are as they were. -/
structure Beside (s s' : System σ δ) : Prop where
  client : s'.client = s.client
  inputs : s'.inputs = s.inputs
  current : s'.current = s.current
  id : s'.session.id = s.session.id
  token : s'.session.token = s.session.token

theorem Beside.refl (s : System σ δ) : Beside s s := ⟨rfl, rfl, rfl, rfl, rfl⟩

theorem Beside.trans {s'' : System σ δ} (h : Beside s s') (h' : Beside s' s'') : Beside s s'' :=
  ⟨h'.client.trans h.client, h'.inputs.trans h.inputs, h'.current.trans h.current,
    h'.id.trans h.id, h'.token.trans h.token⟩

/-- Steps beside the client that take nothing keep the level. -/
theorem Level.beside (h : Level hist n s) (hb : Beside s s') (hsteps : Steps ext z drv s s')
    (hrun : s'.owner.running = true) (hseq : s'.owner.lastSeq = s.owner.lastSeq)
    (htaken : s'.owner.taken = s.owner.taken) : Level hist n s' where
  orderly := h.orderly.steps hsteps
  running := hrun
  id := by rw [hb.client, hb.id, h.id]
  token := by rw [hb.client, hb.token, h.token]
  live := by rw [hb.client, h.live]
  seq := by rw [hb.client, h.seq]
  unacked := by
    rw [hb.client]
    exact h.unacked
  inputs := by rw [hb.inputs, h.inputs]
  lastSeq := by rw [hseq, h.lastSeq]
  taken := by rw [htaken, h.taken]
  lt := h.lt

/-- **The owner takes everything in the channel**: what is not the next input is gone, and the
next input overtakes the client. -/
theorem clear_steps (h : Level hist n s) :
    Overtakes ext z drv hist s ∨ (∀ data, .input (n + 1) data ∉ s.session.cmds) ∧
      ∃ s', Steps ext z drv s s' ∧ Level hist n s' ∧ Beside s s' ∧
        s'.session.epoch = s.session.epoch ∧ s'.conns = s.conns ∧ s'.session.cmds = [] := by
  generalize hcmds : s.session.cmds = cmds
  induction cmds generalizing s with
  | nil => exact .inr ⟨fun _ => List.not_mem_nil, s, .refl, h, .refl s, rfl, rfl, hcmds⟩
  | cons msg rest ih =>
    obtain ⟨session, o, hsteps, hrest, hid, htoken, hepoch, hrun, hcase⟩ :=
      (@recv_steps _ _ ext z drv s) h.orderly h.running hcmds
    rw [h.lastSeq] at hcase
    rcases hcase with ⟨data, rfl, hseq, htaken⟩ | ⟨hne, hseq, htaken⟩
    · refine .inl ⟨_, hsteps, h.inputs.trans_lt h.lt, ?_⟩
      show hist.length + s.inputs.length < o.taken.length
      rw [htaken, h.taken, h.inputs]
      exact Nat.lt_succ_self _
    · have hb : Beside s { s with session, owner := o } := ⟨rfl, rfl, rfl, hid, htoken⟩
      have hlevel := h.beside hb hsteps hrun (hseq.trans h.lastSeq.symm) htaken
      rcases ih hlevel hrest with hover | ⟨hnone, s', hsteps', hl, hb', he, hc, hempty⟩
      · exact .inl (hover.head hsteps)
      · refine .inr ⟨fun data hmem => ?_, s', hsteps.trans hsteps', hl, hb.trans hb',
          he.trans hepoch, hc, hempty⟩
        rcases List.mem_cons.1 hmem with heq | hmem
        · exact hne data heq.symm
        · exact hnone data hmem

/-- An input that a handler has parsed goes into an empty channel. -/
theorem pushOne_of_cmds_nil {session : Session} {h : Handler} {u : ℕ × Bytes}
    {rest : List (ℕ × Bytes)} (hclosed : session.closed = false) (hcmds : session.cmds = [])
    (hbusy : h.busyInput = u :: rest) (hne : u.2 ≠ []) (hlen : u.2.length ≤ maxInputBytes) :
    Handler.pushOne session h =
      (true, { session with cmds := [.input u.1 u.2] }, { h with busyInput := rest }) := by
  have hsend : session.tryInput u.1 u.2 =
      (.ok .queued, { session with cmds := [.input u.1 u.2] }) := by
    have hroom : ¬([] : List OwnerMsg).length ≥ cmdQ := by decide
    unfold Session.tryInput Session.trySend
    rw [if_neg hne, if_neg (Nat.not_lt.2 hlen), hclosed, if_neg Bool.false_ne_true, hcmds,
      if_neg hroom]
    rfl
  unfold Handler.pushOne
  rw [hbusy]
  dsimp only
  rw [hsend]

/-- **The only input of a client** goes over its connection into an empty channel: it is
pumped, all its bytes go out and are read, the handler parses it and passes it on. -/
theorem enter_steps {c : Client σ} {session : Session} {h : Handler} {down : List Frame} {q : ℕ}
    {d : Bytes} (hconnected : c.connected = true) (hlive : c.hungup = false)
    (hack : c.pendingAck = none) (hfeed : c.feed = {}) (hsent : c.sentSeq = 0)
    (hunacked : c.unacked = [(q, d)]) (hpos : 0 < q) (hlt : q < 2 ^ 64) (hne : d ≠ [])
    (hlen : d.length ≤ maxInputBytes) (hclosed : session.closed = false)
    (hcmds : session.cmds = []) (hepoch : h.epoch = session.epoch) (hleft : h.leftover = [])
    (hbusy : h.busyInput = []) :
    ∃ c' conn, Steps ext z drv (s.onCurrent c session { phase := .serving h, down })
        (s.onCurrent c' { session with cmds := [.input q d] } conn) ∧
      c'.sessionId = c.sessionId ∧ c'.token = c.token ∧ c'.hungup = false ∧ c'.seq = c.seq ∧
      c'.unacked = c.unacked := by
  have hpump := Client.pump_single hconnected hlive hack hfeed hsent hunacked hpos
  have hout : c.pump.outbound = encodeInput q d := by
    rw [hpump, Client.outbound, FrameFeed.rest, OutBuf.rest_eq_drop, List.drop_zero]
  let c' := c.pump.advanceOutbound (encodeInput q d).length
  let h₁ : Handler := { h with leftover := encodeInput q d }
  let h₂ : Handler := { h with leftover := [], busyInput := [(q, d)] }
  have hdrain : Handler.drainOne session h₁ busyCap = .ok (some (session, h₂)) := by
    have hroom : busyBytes h₁.busyInput < busyCap := by
      show busyBytes h.busyInput < busyCap
      rw [hbusy]
      decide
    have hone := Handler.drainOne_input (s := session) (h := h₁) hepoch.symm rfl hlt hne hlen hroom
    rw [hone]
    show Except.ok (some (session, { h₁ with
      leftover := [], busyInput := h.busyInput ++ [(q, d)] })) = _
    rw [hbusy]
    rfl
  have hpush := pushOne_of_cmds_nil (h := h₂) hclosed hcmds rfl hne hlen
  -- the bytes of the input go out and are read
  have hcall := (@Step.callCurrent _ _ ext z drv s c session { phase := .serving h, down })
    (.pump c)
  have hsend := (@Step.sendAll _ _ ext z drv s c.pump session { phase := .serving h, down }) rfl
  have hread := @Step.readAll _ _ ext z drv s c' session
    { phase := .serving h, down, wire := encodeInput q d }
  rw [hout] at hsend
  dsimp only [Phase.receive] at hread
  rw [hleft] at hread
  -- the handler parses it and passes it on
  have hdrained := (@Step.drainCurrent _ _ ext z drv s c' session
    { phase := .serving h₁, down }) rfl hdrain
  have hpushed := (@Step.pushCurrent _ _ ext z drv s c' session { phase := .serving h₂, down }) rfl
  rw [hpush] at hpushed
  refine ⟨c', _, .head hcall <| .head hsend <| .head hread <| .head hdrained <| .single hpushed,
    ?_⟩
  have hsame : c'.sessionId = c.pump.sessionId ∧ c'.token = c.pump.token ∧
      c'.hungup = c.pump.hungup ∧ c'.seq = c.pump.seq ∧ c'.unacked = c.pump.unacked :=
    ⟨rfl, rfl, rfl, rfl, rfl⟩
  rw [hpump] at hsame
  exact ⟨hsame.1, hsame.2.1, hsame.2.2.1.trans hlive, hsame.2.2.2⟩

/-- **One more input of the client** is queued, and goes over a connection of its own into the
channel. -/
theorem offer_steps (h : Level hist n s) (hn : n + 1 < 2 ^ 64) (hcmds : s.session.cmds = []) :
    ∃ c conn, Steps ext z drv s (({ s with
        inputs := s.inputs ++ [[0x61]], current := s.current + 1 } : System σ δ).onCurrent c
          { s.session.claimTransport with cmds := [.input (n + 1) [0x61]] } conn) ∧
      c.sessionId = s.client.sessionId ∧ c.token = s.client.token ∧ c.hungup = false ∧
      c.seq = n + 1 ∧ c.unacked = [(n + 1, [0x61])] := by
  let d : Bytes := [0x61]
  obtain ⟨p, display, hqueue⟩ := (@Client.queueInput_eq _ ext) s.client d 0
  have haccepted := h.orderly.accepted.trans h.lastSeq
  let s₁ : System σ δ := { s with
    client := { s.client with
      seq := s.client.seq + 1, unacked := s.client.unacked ++ [(s.client.seq + 1, d)]
      predictor := p, display }
    inputs := s.inputs ++ [d] }
  have hgiven : Step ext z drv s s₁ := by
    have := (@Step.queueInput _ _ ext z drv) s d 0 (by decide) (by decide)
    rwa [hqueue] at this
  have hpos : ∀ u ∈ s₁.client.unacked, 0 < u.1 := fun u hu => by
    rcases List.mem_append.1 hu with hu | hu
    · exact (h.unacked u hu).1
    · rw [List.mem_singleton.1 hu]
      exact Nat.succ_pos _
  have hkept : (s₁.client.unacked.filter fun u => u.1 > s₁.session.accepted) = [(n + 1, d)] := by
    show ((s.client.unacked ++ [(s.client.seq + 1, d)]).filter
      fun u => u.1 > s.session.accepted) = _
    have hold : (s.client.unacked.filter fun u => u.1 > n) = [] :=
      List.filter_eq_nil_iff.2 fun u hu => by
        rw [decide_eq_true_iff]
        exact Nat.not_lt.2 (h.unacked u hu).2
    rw [haccepted, h.seq, List.filter_append, hold, List.nil_append,
      List.filter_cons_of_pos (by simp), List.filter_nil]
  obtain ⟨h₁, down, hlearn, hepoch, hleft, hbusy⟩ := (@learn_steps _ _ ext z drv s₁) h.id h.token
    (haccepted.trans_lt h.lt) hpos
  obtain ⟨c', conn, henter, hid, htoken, hlive, hseq, hunacked⟩ := (@enter_steps _ _ ext z drv
    { s₁ with current := s₁.current + 1 }
    { s₁.client.greeted 0 with
      unacked := s₁.client.unacked.filter fun u => u.1 > s₁.session.accepted }
    s₁.session.claimTransport h₁ down (n + 1) d) rfl h.live rfl rfl rfl hkept (Nat.succ_pos n) hn
      (by decide) (by decide) (h.orderly.closed h.running) hcmds hepoch hleft hbusy
  have hgone := (hlearn.trans henter).head hgiven
  exact ⟨c', conn, hgone, hid, htoken, hlive, hseq.trans (congrArg (· + 1) h.seq),
    hunacked.trans hkept⟩

/-- **The owner takes one more input of the client**, and no earlier connection has moved. -/
theorem round_steps (h : Level hist n s) (hn : n + 1 < 2 ^ 64) (hcmds : s.session.cmds = []) :
    ∃ s', Steps ext z drv s s' ∧ Level hist (n + 1) s' ∧ s.current ≤ s'.current ∧
      ∀ i ≤ s.current, s'.conns i = s.conns i := by
  obtain ⟨c, conn, hoffer, hid, htoken, hlive, hseq, hunacked⟩ :=
    (@offer_steps _ _ ext z drv) h hn hcmds
  obtain ⟨session, o, hrecv, -, hid', htoken', -, hrun, hcase⟩ :=
    recv_steps (z := z) (h.orderly.steps hoffer) h.running rfl
  have hsteps := hoffer.trans hrecv
  rcases hcase with ⟨-, -, hlast, htaken⟩ | ⟨hne, -⟩
  · refine ⟨_, hsteps, ⟨h.orderly.steps hsteps, hrun, ?_, ?_, hlive, hseq, ?_, ?_, ?_, ?_, hn⟩,
      Nat.le_succ _, fun i hi => setConn_of_ne _ _ (Nat.ne_of_lt (Nat.lt_succ_of_le hi))⟩
    · exact hid.trans (h.id.trans hid'.symm)
    · exact htoken.trans (h.token.trans htoken'.symm)
    · intro u hu
      have hmem : u ∈ c.unacked := hu
      rw [hunacked] at hmem
      rw [List.mem_singleton.1 hmem]
      exact ⟨Nat.succ_pos n, le_rfl⟩
    · show (s.inputs ++ [[0x61]]).length = n + 1
      rw [List.length_append, h.inputs]
      rfl
    · exact hlast.trans (congrArg (· + 1) h.lastSeq)
    · exact htaken.trans (congrArg (· + 1) h.taken)
  · refine absurd ?_ (hne [0x61])
    show OwnerMsg.input (n + 1) [0x61] = .input (s.owner.lastSeq + 1) [0x61]
    rw [h.lastSeq]

/-! ### Inputs of earlier clients -/

/-- **A handler passes an input on** into the empty channel. -/
theorem push_steps (h : Level hist n s) {h₁ : Handler} {u : ℕ × Bytes} {rest : List (ℕ × Bytes)}
    (hcmds : s.session.cmds = []) (hphase : (s.conns j).phase = .serving h₁)
    (hbusy : h₁.busyInput = u :: rest) :
    ∃ s', Steps ext z drv s s' ∧ Level hist n s' ∧ Beside s s' ∧
      s'.session.epoch = s.session.epoch ∧ s'.session.cmds = [.input u.1 u.2] ∧
      s'.conns j = { s.conns j with phase := .serving { h₁ with busyInput := rest } } := by
  obtain ⟨-, hne, hlen⟩ := (h.orderly.answers j).parsed h₁ hphase u
    (hbusy ▸ List.mem_cons_self ..)
  have hstep := (@Step.push _ _ ext z drv) s j h₁ hphase
  rw [pushOne_of_cmds_nil (h.orderly.closed h.running) hcmds hbusy hne hlen] at hstep
  have hb : Beside s (s.serve j { s.session with cmds := [.input u.1 u.2] }
      { h₁ with busyInput := rest }) := ⟨rfl, rfl, rfl, rfl, rfl⟩
  exact ⟨_, .single hstep, h.beside hb (.single hstep) h.running rfl rfl, hb, rfl, rfl,
    setConn_self ..⟩

/-- **An input of an earlier client that a handler has parsed**, numbered above the count,
overtakes the client: the inputs of the client are accepted up to it, and then it is the next
one. -/
theorem parsed_overtakes (h : Level hist n s) {h₁ : Handler} {u : ℕ × Bytes}
    {rest : List (ℕ × Bytes)} (hphase : (s.conns j).phase = .serving h₁)
    (hbusy : h₁.busyInput = u :: rest) (hj : j ≤ s.current) (hu : n < u.1) :
    Overtakes ext z drv hist s := by
  have hlt := ((h.orderly.answers j).parsed h₁ hphase u (hbusy ▸ List.mem_cons_self ..)).1
  -- the rounds that are left before the input is the next one
  induction hk : u.1 - n generalizing n s with
  | zero => omega
  | succ k ih =>
    rcases (@clear_steps _ _ ext z drv) h with hover | ⟨-, s₁, hsteps, hl₁, hb, -, hconns, hcmds⟩
    · exact hover
    rw [← hconns] at hphase
    rw [← hb.current] at hj
    refine Overtakes.head ?_ hsteps
    rcases Nat.lt_or_ge (n + 1) u.1 with hlater | hnext
    · obtain ⟨s₂, hsteps', hl₂, hcurrent, hsame⟩ :=
        (@round_steps _ _ ext z drv) hl₁ (hlater.trans hlt) hcmds
      refine (ih hl₂ ?_ (hj.trans hcurrent) hlater (by omega)).head hsteps'
      rw [hsame j hj]
      exact hphase
    · obtain ⟨s₂, hsteps', hl₂, -, -, hcmds', -⟩ :=
        (@push_steps _ _ ext z drv) hl₁ hcmds hphase hbusy
      have hnumber : u.1 = n + 1 := by omega
      rcases (@clear_steps _ _ ext z drv) hl₂ with hover | ⟨hnone, -⟩
      · exact hover.head hsteps'
      · refine absurd ?_ (hnone u.2)
        rw [hcmds', hnumber]
        exact List.mem_singleton_self _

/-- **A handler passes on all it has parsed**: only numbers up to the count, or the client is
overtaken. -/
theorem flush_steps (h : Level hist n s) {h₁ : Handler}
    (hphase : (s.conns j).phase = .serving h₁) (hj : j ≤ s.current) :
    Overtakes ext z drv hist s ∨ (∀ u ∈ h₁.busyInput, u.1 ≤ n) ∧
      ∃ s', Steps ext z drv s s' ∧ Level hist n s' ∧ Beside s s' ∧
        s'.session.epoch = s.session.epoch ∧
        s'.conns j = { s.conns j with phase := .serving { h₁ with busyInput := [] } } := by
  generalize hbusy : h₁.busyInput = busy
  induction busy generalizing s h₁ with
  | nil =>
    refine .inr ⟨fun _ hu => absurd hu List.not_mem_nil, s, .refl, h, .refl s, rfl, ?_⟩
    rw [← hbusy, ← hphase]
  | cons u rest ih =>
    rcases Nat.lt_or_ge n u.1 with hu | hu
    · exact .inl (parsed_overtakes h hphase hbusy hj hu)
    rcases (@clear_steps _ _ ext z drv) h with
      hover | ⟨-, s₁, hsteps, hl₁, hb₁, he₁, hconns, hcmds⟩
    · exact .inl hover
    rw [← hconns] at hphase
    obtain ⟨s₂, hsteps₂, hl₂, hb₂, he₂, -, hconn⟩ :=
      (@push_steps _ _ ext z drv) hl₁ hcmds hphase hbusy
    have hb := hb₁.trans hb₂
    have hphase₂ : (s₂.conns j).phase = .serving { h₁ with busyInput := rest } := by rw [hconn]
    rcases ih hl₂ hphase₂ (hb.current ▸ hj) rfl with
      hover | ⟨hle, s₃, hsteps₃, hl₃, hb₃, he₃, hconn₃⟩
    · exact .inl (hover.head (hsteps.trans hsteps₂))
    · refine .inr ⟨fun v hv => ?_, s₃, (hsteps.trans hsteps₂).trans hsteps₃, hl₃, hb.trans hb₃,
        he₃.trans (he₂.trans he₁), ?_⟩
      · rcases List.mem_cons.1 hv with rfl | hv
        · exact hu
        · exact hle v hv
      · rw [hconn₃, hconn, hconns]

/-- **A handler takes the next frame** that it can parse, behind an empty queue. -/
theorem frame_steps (h : Level hist n s) {h₁ : Handler} {rest : Bytes} {g : Frame}
    (hphase : (s.conns j).phase = .serving h₁) (hepoch : h₁.epoch = s.session.epoch)
    (hj : j ≤ s.current) (hs : splitFrame h₁.leftover = (.ok (some g), rest)) (hg : Admits g) :
    Overtakes ext z drv hist s ∨ ∃ s' h₂, Steps ext z drv s s' ∧ Level hist n s' ∧
      j ≤ s'.current ∧ (s'.conns j).phase = .serving h₂ ∧ h₂.epoch = s'.session.epoch ∧
      h₂.leftover = rest ∧ h₂.busyInput = (frameInput g).toList := by
  rcases (@flush_steps _ _ ext z drv) h hphase hj with
    hover | ⟨-, s₁, hsteps, hl₁, hb₁, he₁, hconn⟩
  · exact .inl hover
  have hphase₁ : (s₁.conns j).phase = .serving { h₁ with busyInput := [] } := by rw [hconn]
  obtain ⟨session, h₂, hdrain⟩ := Handler.drainOne_of_splitFrame (s := s₁.session)
    (h := { h₁ with busyInput := [] }) (he₁.trans hepoch.symm) hs hg
    (show busyBytes [] < busyCap by decide)
  obtain ⟨-, hq, he₂, -, g', hs', hbusy, -⟩ := Handler.drainOne_some hdrain
  have hstep := (@Step.drain _ _ ext z drv) s₁ j busyCap _ h₂ session hphase₁ hdrain
  have hb : Beside s₁ (s₁.serve j session h₂) := ⟨rfl, rfl, rfl, hq.id, hq.token⟩
  obtain ⟨hg', hrest⟩ := Prod.mk.inj (hs.symm.trans hs')
  obtain rfl := Option.some.inj (Except.ok.inj hg')
  refine .inr ⟨_, h₂, hsteps.tail hstep, hl₁.beside hb (.single hstep) hl₁.running rfl rfl,
    hb₁.current ▸ hj, ?_, ?_, hrest.symm, hbusy⟩
  · exact congrArg Conn.phase (setConn_self ..)
  · exact he₂.trans (hepoch.trans (he₁.symm.trans hq.epoch.symm))

/-- **An input of an earlier client that a handler can parse** overtakes the client. -/
theorem parses_overtakes {buf : Bytes} {u : ℕ × Bytes} (hp : Parses buf u) (h : Level hist n s)
    {h₁ : Handler} (hphase : (s.conns j).phase = .serving h₁) (hleft : h₁.leftover = buf)
    (hepoch : h₁.epoch = s.session.epoch) (hj : j ≤ s.current) (hu : n < u.1) :
    Overtakes ext z drv hist s := by
  induction hp generalizing s h₁ with
  | here hs hg hinput =>
    rcases (@frame_steps _ _ ext z drv) h hphase hepoch hj (hleft ▸ hs) hg with
      hover | ⟨s', h₂, hsteps, hl, hj', hphase', -, -, hbusy⟩
    · exact hover
    · rw [hinput] at hbusy
      exact (parsed_overtakes hl hphase' hbusy hj' hu).head hsteps
  | later hs hg hp ih =>
    rcases (@frame_steps _ _ ext z drv) h hphase hepoch hj (hleft ▸ hs) hg with
      hover | ⟨s', h₂, hsteps, hl, hj', hphase', hepoch', hrest, -⟩
    · exact hover
    · exact (ih hl hphase' hrest hepoch' hj' hu).head hsteps

/-- **Whatever an earlier connection can still bring** above the count overtakes the
client.  By the phase of that connection: behind a greeting it attaches first, and with an
input in its queue or in its bytes it only has to be drained. -/
theorem brings_overtakes (h : Level hist n s) {u : ℕ × Bytes}
    (hbrings : (s.conns j).Brings s.session u) (hu : n < u.1) : Overtakes ext z drv hist s := by
  have hj : j ≤ s.current := by
    by_contra hlt
    exact Conn.not_brings_gone (h.orderly.unopened j (Nat.not_le.1 hlt)) hbrings
  -- everything on the connection is read
  have hread := (@Step.read _ _ ext z drv) s j (s.conns j).wire.length
  rw [List.take_length, List.drop_length] at hread
  have hlevel : Level hist n (s.setConn j _) :=
    h.beside ⟨rfl, rfl, rfl, rfl, rfl⟩ (.single hread) h.running rfl rfl
  cases hphase : (s.conns j).phase with
  | greeting buf =>
    obtain ⟨rest, hgreets, hparses⟩ := (Conn.brings_greeting hphase).1 hbrings
    obtain ⟨resize, hgreet⟩ := Handler.handleIncoming_of_greets hgreets
    rw [hphase] at hread hlevel
    let s₁ : System σ δ := s.setConn j { s.conns j with
      wire := [], phase := .greeting (buf ++ (s.conns j).wire) }
    let h₁ := Handler.attach s.session.claimTransport rest resize
    have hattach : Step ext z drv s₁ (s₁.serve j s.session.claimTransport h₁) :=
      .attach s₁ j _ none _ _ (congrArg Conn.phase (setConn_self ..)) hgreet
    have hlevel' : Level hist n (s₁.serve j s.session.claimTransport h₁) :=
      hlevel.beside ⟨rfl, rfl, rfl, rfl, rfl⟩ (.single hattach) h.running rfl rfl
    have hover := (@parses_overtakes _ _ ext z drv) hparses hlevel'
      (congrArg Conn.phase (setConn_self ..)) rfl rfl hj hu
    exact hover.head (.head hread (.single hattach))
  | serving h₁ =>
    rcases (Conn.brings_serving hphase).1 hbrings with hmem | ⟨hepoch, hparses⟩
    · rcases (@flush_steps _ _ ext z drv) h hphase hj with hover | ⟨hle, -⟩
      · exact hover
      · exact absurd (hle u hmem) (Nat.not_le.2 hu)
    · let h₂ : Handler := { h₁ with leftover := h₁.leftover ++ (s.conns j).wire }
      have hphase' : ((s.setConn j { s.conns j with
          wire := [], phase := (s.conns j).phase.receive (s.conns j).wire }).conns j).phase =
            .serving h₂ := by
        rw [setConn_self, hphase]
        rfl
      exact (parses_overtakes hparses hlevel hphase' rfl hepoch hj hu).head (.single hread)
  | gone => exact absurd hbrings (Conn.not_brings_gone hphase)

end System
end Quosh
