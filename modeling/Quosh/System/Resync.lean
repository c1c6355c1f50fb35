/-
# Screens that are sent again

`crates/quosh-client/src/lib.rs`, `apply_screen`, `pump` and `begin_connection`: a client
acknowledges a screen when it installs it, and a new connection begins without a pending
acknowledgement.  `crates/quosh-server/src/transport.rs`, `run_transport`: the server sends
its latest screen again as long as `last_acked` is behind it.

A `Line` is a client and the session it talks to, with what the current connection has
brought and what the client has begun to write on it.  The acknowledgements of a connection
are those of the screens that were installed on it (`Owes`), so a screen that is not newer is
answered iff the same connection has brought a newer one (`answered_iff`).
-/

import Quosh.Client.Acks
import Quosh.Control.Machine
import Quosh.System.Refused

namespace Quosh

open Bytes FrameFeed

/-! ### Lines -/

/-- A client and the session it talks to, with the version that was confirmed when the
current connection began, the screens that the connection has brought, and the frames that
the client has begun to write on it. -/
structure Line (σ : Type) where
  client : Client σ
  session : Session
  base : ℕ := 0
  arrived : List Screen := []
  begun : List Bytes := []

namespace Line

/-- The calls of a client, apart from those that write, begin a connection or end the
session. -/
inductive Call where
  | buffer (bytes : Bytes) (rx : Option ℕ)
  | frame (typ : UInt8) (payload : Bytes) (now : ℕ)
  | datagram (bytes : Bytes) (now : ℕ)
  | queueInput (bytes : Bytes) (now : ℕ)
  | tick (now : ℕ)
  | pump
  | endConnection
  | reset
  | setSize (cols rows : ℕ)

/-- What can happen: the session publishes a screen or reads an acknowledgement, and the
client is called. -/
inductive Action where
  | publish (latest : Latest)
  | acked (version : ℕ)
  | call (k : Call)
  | advanceOutbound (n : ℕ)
  | beginConnection (now : ℕ)
  | requestHangup

variable {σ : Type} (ext : Externals σ) (z : Lz4)

/-- The client after a call. -/
def Call.run (c : Client σ) : Call → Client σ
  | .buffer bytes rx => { c with recvBuf := bytes, lastRxMs := rx }
  | .frame typ payload now => (c.handleFrame ext z typ payload now).2
  | .datagram bytes now => c.recvDatagram ext z bytes now
  | .queueInput bytes now => c.queueInput ext bytes now
  | .tick now => (c.tick ext now).2
  | .pump => c.pump
  | .endConnection => c.endConnection
  | .reset => c.reset
  | .setSize cols rows => c.setSize cols rows

/-- The decodable screen that a call brings. -/
def Call.screen : Call → Option Screen
  | .frame typ payload _ => (frameScreen z typ payload).map Sent.screen
  | .datagram bytes _ => datagramScreen z bytes
  | _ => none

/-- The version that a client has confirmed; versions start at 1. -/
def version (c : Client σ) : ℕ := (c.confirmed.map Screen.version).getD 0

/-- What an action does.  The server reads an acknowledgement that was written. -/
def act (l : Line σ) : Action → Line σ
  | .publish latest => { l with session := { l.session with latest := some latest } }
  | .acked v =>
    if encodeAckState v ∈ l.begun then { l with session := l.session.tryAck v } else l
  | .call k =>
    let c := k.run ext z l.client
    { l with
      client := c, arrived := l.arrived ++ (k.screen z).toList
      begun := l.begun ++ FrameFeed.begun l.client.feed c.feed 0 }
  | .advanceOutbound n =>
    let c := l.client.advanceOutbound n
    { l with client := c, begun := l.begun ++ FrameFeed.begun l.client.feed c.feed n }
  | .beginConnection now =>
    let c := l.client.beginConnection now
    { l with client := c, base := version l.client, arrived := [], begun := frameOf c.outbound }
  | .requestHangup =>
    let c := l.client.requestHangup
    { l with client := c, begun := l.begun ++ FrameFeed.begun l.client.feed c.feed 0 }

/-- Everything is possible at any time. -/
def line : Machine (Line σ) Action where
  Allows _ _ := True
  act := act ext z

/-- An `AckState` for a version at least `v` was written on this connection, is being
written, waits in the feed or is pending. -/
def Acknowledges (l : Line σ) (v : ℕ) : Prop :=
  ∃ w, v ≤ w ∧ w < 2 ^ 64 ∧
    (l.client.pendingAck = some w ∨ encodeAckState w ∈ l.begun ∨
      encodeAckState w ∈ l.client.feed.ctrl)

/-- **A screen that is not newer is answered**: once this connection has brought one, the
confirmed version is acknowledged on it. -/
def Answered (l : Line σ) : Prop :=
  ∀ s ∈ l.arrived, ∀ conf, l.client.confirmed = some conf → s.version ≤ conf.version →
    l.Acknowledges conf.version

/-- **When a screen is answered**: one that is not newer comes on a connection that has
brought a newer one, and a hangup is requested when the acknowledgement of the confirmed
screen does not wait in the feed. -/
def Meets (l : Line σ) : Action → Prop
  | .call k => ∀ s, k.screen z = some s → ∀ conf, l.client.confirmed = some conf →
      s.version ≤ conf.version → l.base < conf.version
  | .requestHangup => ∀ conf, l.client.confirmed = some conf →
      encodeAckState conf.version ∉ l.client.feed.ctrl
  | _ => True

/-- What the server sends on its own: its latest screen, as long as that is not
acknowledged. -/
def Resends (l : Line σ) : Action → Prop
  | .call (.frame _ payload _) => ∃ latest, l.session.latest = some latest ∧
      payload = latest.blob ∧ l.session.lastAcked < latest.version
  | .call (.datagram bytes _) => ∃ latest, l.session.latest = some latest ∧
      bytes = latest.blob ∧ l.session.lastAcked < latest.version
  | _ => True

variable {ext z} {l l' : Line σ} {vs : List ℕ} {o : Option Screen}

/-! ### The acknowledgements of a connection -/

/-- **The acknowledgements of a connection** are `vs`, and the pending one behind them:
they rise from the version at its beginning to the confirmed one. -/
structure Owes (l : Line σ) (vs : List ℕ) : Prop where
  tidy : l.client.feed.Tidy
  screen : l.client.feed.screen = none
  fin : ∀ b, l.client.feed.fin = some b → b = encodeHangup
  base_le : l.base ≤ version l.client
  bound : ∀ conf, l.client.confirmed = some conf → conf.version < 2 ^ 64
  acks : ackStates (l.begun ++ l.client.feed.ctrl) = vs.map encodeAckState
  sorted : (vs ++ l.client.pendingAck.toList).Pairwise (· < ·)
  within : ∀ v ∈ vs ++ l.client.pendingAck.toList, l.base < v ∧ v ≤ version l.client

/-- The confirmed screen is acknowledged if it came on this connection. -/
def Last (l : Line σ) (vs : List ℕ) : Prop :=
  l.base < version l.client → version l.client ∈ vs ++ l.client.pendingAck.toList

/-- The version of the screen that is shown. -/
theorem version_of_confirmed {c : Client σ} {conf : Screen} (h : c.confirmed = some conf) :
    version c = conf.version := by
  unfold version
  rw [h]
  rfl

/-- A call that writes the acknowledgements `ws`, which were pending before: what is owed
stays the same. -/
theorem Owes.pushes (h : Owes l vs) {new : List Bytes} {ws : List ℕ}
    (hpushes : Pushes l.client.feed l'.client.feed new)
    (hnew : ackStates new = ws.map encodeAckState)
    (hlist : vs ++ ws ++ l'.client.pendingAck.toList = vs ++ l.client.pendingAck.toList)
    (hconfirmed : l'.client.confirmed = l.client.confirmed) (hbase : l'.base = l.base)
    (hbegun : l'.begun = l.begun ++ FrameFeed.begun l.client.feed l'.client.feed 0) :
    Owes l' (vs ++ ws) ∧ (Last l vs → Last l' (vs ++ ws)) := by
  have hversion : version l'.client = version l.client := by
    unfold version
    rw [hconfirmed]
  refine ⟨⟨hpushes.tidy, hpushes.screen.trans h.screen, ?_, ?_, ?_, ?_, ?_, ?_⟩, ?_⟩
  · rw [hpushes.fin]
    exact h.fin
  · rw [hbase, hversion]
    exact h.base_le
  · rw [hconfirmed]
    exact h.bound
  · rw [hbegun, List.append_assoc, hpushes.begun h.tidy, ← List.append_assoc, ackStates_append,
      h.acks, hnew, List.map_append]
  · rw [hlist]
    exact h.sorted
  · rw [hlist, hbase, hversion]
    exact h.within
  · unfold Last
    rw [hlist, hbase, hversion]
    exact id

/-- A call that installs a screen owes its acknowledgement.  The screen is newer than the
one shown, so its version goes behind all that are owed, and it takes the place of one that
waits. -/
theorem Owes.applies (h : Owes l vs) {s : Screen} (happlies : l.client.Applies l'.client s)
    (hbase : l'.base = l.base)
    (hbegun : l'.begun = l.begun ++ FrameFeed.begun l.client.feed l'.client.feed 0)
    (hbound : s.version < 2 ^ 64) : Owes l' vs ∧ Last l' vs := by
  have hversion : version l'.client = s.version := version_of_confirmed happlies.confirmed
  have hlt : version l.client < s.version := by
    unfold version
    cases hconf : l.client.confirmed with
    | none => exact happlies.pos
    | some conf => exact happlies.newer conf hconf
  have hlist : vs ++ l'.client.pendingAck.toList = vs ++ [s.version] := by
    rw [happlies.pending, Option.toList_some]
  have hmem {v : ℕ} (hv : v ∈ vs) : l.base < v ∧ v ≤ version l.client :=
    h.within v (List.mem_append_left _ hv)
  refine ⟨⟨happlies.feed ▸ h.tidy, happlies.feed ▸ h.screen, happlies.feed ▸ h.fin,
    ?_, ?_, ?_, ?_, ?_⟩, fun _ => ?_⟩
  · rw [hbase, hversion]
    exact h.base_le.trans hlt.le
  · intro conf hconf
    rw [← version_of_confirmed hconf, hversion]
    exact hbound
  · rw [hbegun, happlies.feed, begun_drop rfl, List.append_nil]
    exact h.acks
  · rw [hlist]
    refine List.pairwise_append.2 ⟨(List.pairwise_append.1 h.sorted).1,
      List.pairwise_singleton .., fun v hv w hw => ?_⟩
    rw [List.mem_singleton.1 hw]
    exact (hmem hv).2.trans_lt hlt
  · rw [hlist, hbase, hversion]
    intro v hv
    rcases List.mem_append.1 hv with hv | hv
    · exact ⟨(hmem hv).1, (hmem hv).2.trans hlt.le⟩
    · rw [List.mem_singleton.1 hv]
      exact ⟨h.base_le.trans_lt hlt, le_rfl⟩
  · rw [hlist, hversion]
    exact List.mem_append_right _ (List.mem_singleton_self _)

/-- **What a call of the client leaves** of the acknowledgements. -/
theorem Owes.speaks (h : Owes l vs) (hs : l.client.Speaks o l'.client) (hbase : l'.base = l.base)
    (hbegun : l'.begun = l.begun ++ FrameFeed.begun l.client.feed l'.client.feed 0)
    (hbound : ∀ s, o = some s → s.version < 2 ^ 64) :
    ∃ vs', Owes l' vs' ∧ (Last l vs → Last l' vs') := by
  rcases hs with hquiet | @⟨v, hacks⟩ | @⟨s, hsome, happlies⟩
  · obtain ⟨new, hpushes, hnone⟩ := hquiet.pushes
    have hlist : vs ++ [] ++ l'.client.pendingAck.toList = vs ++ l.client.pendingAck.toList := by
      rw [List.append_nil, hquiet.pending]
    exact ⟨vs ++ [], h.pushes hpushes hnone hlist hquiet.confirmed hbase hbegun⟩
  · obtain ⟨new, hpushes, hnew⟩ := hacks.pushes
    have hlist : vs ++ [v] ++ l'.client.pendingAck.toList = vs ++ l.client.pendingAck.toList := by
      rw [hacks.none, hacks.pending, Option.toList_none, List.append_nil, Option.toList_some]
    exact ⟨vs ++ [v], h.pushes hpushes hnew hlist hacks.confirmed hbase hbegun⟩
  · obtain ⟨howes, hlast⟩ := h.applies happlies hbase hbegun (hbound s hsome)
    exact ⟨vs, howes, fun _ => hlast⟩

/-- A hangup acknowledges nothing. -/
theorem ackStates_hangup : ackStates [encodeHangup] = [] := by decide

/-- An acknowledgement among the frames. -/
theorem mem_ackStates {v : ℕ} {frames : List Bytes} :
    encodeAckState v ∈ ackStates frames ↔ encodeAckState v ∈ frames := by
  unfold ackStates
  rw [List.mem_filter, encodeAckState, isAckState_encodeFrame]
  exact and_iff_left (decide_eq_true rfl)

/-- Two versions are told apart. -/
theorem encodeAckState_inj {v w : ℕ} (hv : v < 2 ^ 64) (hw : w < 2 ^ 64)
    (h : encodeAckState v = encodeAckState w) : v = w := by
  have hpayload := congrArg (List.drop 5) h
  exact toLe_inj (w := 8) hv hw hpayload

/-- A final frame that waits is no acknowledgement. -/
theorem ackStates_waiting {f : FrameFeed} (hscreen : f.screen = none)
    (hfin : ∀ b, f.fin = some b → b = encodeHangup) : ackStates f.waiting = ackStates f.ctrl := by
  have hnone : ackStates f.fin.toList = [] := by
    cases hf : f.fin with
    | none => rfl
    | some b =>
      rw [hfin b hf]
      exact ackStates_hangup
  unfold FrameFeed.waiting
  rw [hscreen, ackStates_append, ackStates_append, hnone, List.append_nil]
  exact List.append_nil _

/-- **Writing moves the cut only.** -/
theorem Owes.advance (h : Owes l vs) (n : ℕ) : Owes (act ext z l (.advanceOutbound n)) vs := by
  obtain ⟨htidy, hwaiting⟩ := h.tidy.advance n
  have hscreen : (l.client.feed.advance n).screen = none := pump_screen h.screen
  have hfin : ∀ b, (l.client.feed.advance n).fin = some b → b = encodeHangup :=
    fun b hb => h.fin b
      (pump_fin (f := { l.client.feed with out := l.client.feed.out.advance n }) hb)
  refine ⟨htidy, hscreen, hfin, h.base_le, h.bound, ?_, h.sorted, h.within⟩
  change ackStates (l.begun ++ FrameFeed.begun l.client.feed (l.client.feed.advance n) n ++
    (l.client.feed.advance n).ctrl) = _
  rw [ackStates_append, ← ackStates_waiting hscreen hfin, ← ackStates_append, List.append_assoc,
    hwaiting, ackStates_append, ackStates_waiting h.screen h.fin, ← ackStates_append]
  exact h.acks

/-- A new connection owes nothing yet. -/
theorem Owes.beginConnection (h : Owes l vs) (now : ℕ) :
    Owes (act ext z l (.beginConnection now)) [] := by
  have hpushes (hello : Hello) :=
    pushCtrl_pushes tidy_nil (encodeFrame_ne_nil msgHello hello.payload)
  have hframes {f : FrameFeed} {hello : Hello}
      (hf : f = (({} : FrameFeed).pushCtrl hello.encode).2) : f.Tidy ∧ f.screen = none ∧
        f.fin = none ∧ ackStates (frameOf f.rest ++ f.ctrl) = [] := by
    subst hf
    have hp := hpushes hello
    refine ⟨hp.tidy, hp.screen, hp.fin, ?_⟩
    exact (congrArg ackStates (hp.idle rfl)).trans (ackStates_ite (by decide) ..)
  obtain ⟨htidy, hscreen, hfin, hacks⟩ := hframes rfl
  refine ⟨htidy, hscreen, fun b hb => ?_, le_rfl, h.bound, hacks, .nil, fun v hv => (nomatch hv)⟩
  cases hfin.symm.trans hb

/-- **A hangup drops the acknowledgements that wait.** -/
theorem Owes.requestHangup (h : Owes l vs) :
    ∃ vs₁ vs₂, vs = vs₁ ++ vs₂ ∧ ackStates l.begun = vs₁.map encodeAckState ∧
      ackStates l.client.feed.ctrl = vs₂.map encodeAckState ∧
      Owes (act ext z l .requestHangup) vs₁ := by
  have hsplit := h.acks
  rw [ackStates_append] at hsplit
  obtain ⟨vs₁, vs₂, hvs, hbegun, hctrl⟩ := List.map_eq_append_iff.1 hsplit.symm
  subst hvs
  obtain ⟨htidy, hwaiting⟩ := h.tidy.pushFin (encodeFrame_ne_nil msgHangup [])
  have hscreen : (l.client.feed.pushFin encodeHangup).screen = none := pump_screen h.screen
  have hfin : ∀ b, (l.client.feed.pushFin encodeHangup).fin = some b → b = encodeHangup :=
    fun b hb => (Option.some.inj (pump_fin hb)).symm
  have hsub : (vs₁ ++ l.client.pendingAck.toList).Sublist
      (vs₁ ++ vs₂ ++ l.client.pendingAck.toList) :=
    (List.sublist_append_left ..).append_right _
  refine ⟨vs₁, vs₂, rfl, hbegun.symm, hctrl.symm, htidy, hscreen, hfin, h.base_le, h.bound, ?_,
    h.sorted.sublist hsub, fun v hv => h.within v (hsub.subset hv)⟩
  change ackStates (l.begun ++
    FrameFeed.begun l.client.feed (l.client.feed.pushFin encodeHangup) 0 ++
    (l.client.feed.pushFin encodeHangup).ctrl) = _
  change FrameFeed.begun l.client.feed (l.client.feed.pushFin encodeHangup) 0 ++
    (l.client.feed.pushFin encodeHangup).waiting = _ ++ [encodeHangup] at hwaiting
  rw [ackStates_append, ← ackStates_waiting hscreen hfin, ← ackStates_append, List.append_assoc,
    hwaiting, h.screen, ackStates_append, ← hbegun]
  exact congrArg _ ackStates_hangup |>.trans (List.append_nil _)

/-! ### Whole runs -/

/-- What each call does for acknowledgements. -/
theorem Call.speaks (h : l.client.feed.Tidy) (k : Call) :
    l.client.Speaks (k.screen z) (k.run ext z l.client) := by
  cases k with
  | frame typ payload now => exact Client.handleFrame_speaks h typ payload now
  | datagram bytes now => exact Client.recvDatagram_speaks h bytes now
  | queueInput bytes now =>
    obtain ⟨p, d, hqueue⟩ := (@Client.queueInput_eq _ ext) l.client bytes now
    have hcall : Call.run ext z l.client (.queueInput bytes now) = _ := hqueue
    rw [hcall]
    exact .quiet (.of_eq h rfl rfl rfl)
  | tick now => exact Client.tick_speaks h now
  | pump => exact Client.pump_speaks h
  | setSize cols rows =>
    unfold Call.run Client.setSize
    dsimp only
    split
    · exact .quiet (Client.push_quiet h (show msgResize ≠ msgAckState by decide) _ rfl rfl rfl)
    · exact .quiet (.of_eq h rfl rfl rfl)
  | _ => exact .quiet (.of_eq h rfl rfl rfl)

/-- A shared screen's version is a `u64` too. -/
theorem sharedScreen_version_lt {payload : Bytes} {shared : SharedScreen}
    (h : SharedScreen.decodeCompressed z payload = .ok shared) :
    shared.screen.version < 2 ^ 64 := by
  unfold SharedScreen.decodeCompressed at h
  split_ifs at h
  rcases hd : Screen.decodeCompressed z (payload.drop 13) with e | screen
  · rw [hd] at h
    split at h <;> cases h
  · rw [hd] at h
    split at h <;> cases h <;> exact Screen.decodeCompressed_version_lt hd

/-- The version of a screen that was decoded fits eight bytes. -/
theorem Call.version_lt {k : Call} {s : Screen} (h : k.screen z = some s) :
    s.version < 2 ^ 64 := by
  cases k with
  | frame typ payload now =>
    obtain ⟨sent, hsent, rfl⟩ := Option.map_eq_some_iff.1 h
    unfold frameScreen at hsent
    split_ifs at hsent
    · split at hsent
      · cases hsent
      · rename_i hd
        cases hsent
        exact sharedScreen_version_lt hd
    · split at hsent
      · cases hsent
      · rename_i hd
        cases hsent
        exact Screen.decodeCompressed_version_lt hd
  | datagram bytes now =>
    change datagramScreen z bytes = some s at h
    unfold datagramScreen at h
    split at h
    · cases hd : SharedScreen.decodeCompressed z bytes with
      | error e =>
        rw [hd] at h
        cases h
      | ok shared =>
        rw [hd] at h
        cases h
        exact sharedScreen_version_lt hd
    · cases hd : Screen.decodeCompressed z bytes with
      | error e =>
        rw [hd] at h
        cases h
      | ok s' =>
        rw [hd] at h
        cases h
        exact Screen.decodeCompressed_version_lt hd
  | _ => cases h

/-- A screen that was confirmed on this connection came on it, and before one that is not
newer. -/
structure Fresh (l : Line σ) : Prop where
  source : l.base < version l.client → ∃ s ∈ l.arrived, s.version = version l.client
  behind : ∀ s ∈ l.arrived, ∀ conf, l.client.confirmed = some conf →
    s.version ≤ conf.version → l.base < conf.version

/-- **What holds along a run that meets the condition.** -/
def Inv (l : Line σ) : Prop := ∃ vs, Owes l vs ∧ Last l vs ∧ Fresh l

/-- The version of the screen that is shown fits eight bytes. -/
theorem Owes.version_lt (h : Owes l vs) : version l.client < 2 ^ 64 := by
  unfold version
  cases hconf : l.client.confirmed with
  | none => decide
  | some conf => exact h.bound conf hconf

/-- Whatever acknowledges a version is one of the acknowledgements. -/
theorem Owes.mem_of_acknowledges (h : Owes l vs) {v : ℕ} (hack : l.Acknowledges v) :
    ∃ w ∈ vs ++ l.client.pendingAck.toList, v ≤ w := by
  obtain ⟨w, hle, hw, hpending | hframe⟩ := hack
  · refine ⟨w, ?_, hle⟩
    rw [hpending]
    exact List.mem_append_right _ (List.mem_singleton_self _)
  · have hmem := mem_ackStates.2 (List.mem_append.2 hframe)
    rw [h.acks] at hmem
    obtain ⟨v', hv', heq⟩ := List.mem_map.1 hmem
    have hle' := (h.within v' (List.mem_append_left _ hv')).2
    have hsame : v' = w := encodeAckState_inj (hle'.trans_lt h.version_lt) hw heq
    exact ⟨w, hsame ▸ List.mem_append_left _ hv', hle⟩

/-- **The confirmed version is acknowledged on a connection iff it came on it.** -/
theorem Owes.acknowledges_iff (h : Owes l vs) (hlast : Last l vs) {conf : Screen}
    (hconf : l.client.confirmed = some conf) :
    l.Acknowledges conf.version ↔ l.base < conf.version := by
  have hversion := version_of_confirmed hconf
  constructor
  · intro hack
    obtain ⟨w, hmem, hle⟩ := h.mem_of_acknowledges hack
    have hwithin := h.within w hmem
    omega
  · intro hlt
    have hmem := hlast (hversion ▸ hlt)
    rw [hversion] at hmem
    refine ⟨conf.version, le_rfl, h.bound conf hconf, ?_⟩
    rcases List.mem_append.1 hmem with hvs | hpending
    · right
      have hframe := List.mem_map_of_mem (f := encodeAckState) hvs
      rw [← h.acks, mem_ackStates, List.mem_append] at hframe
      exact hframe
    · exact .inl (Option.mem_toList.1 hpending)

/-- **What was shown was answered, or will be.** -/
theorem Inv.answered (h : Inv l) : l.Answered := by
  obtain ⟨vs, howes, hlast, hfresh⟩ := h
  intro s hs conf hconf hle
  exact (howes.acknowledges_iff hlast hconf).2 (hfresh.behind s hs conf hconf hle)

/-- What a call leaves confirmed. -/
theorem confirmed_of_speaks {c c' : Client σ} (h : c.Speaks o c') :
    c'.confirmed = c.confirmed ∨
      ∃ s, o = some s ∧ c'.confirmed = some s ∧ version c < s.version := by
  rcases h with h | h | ⟨hs, h⟩
  · exact .inl h.confirmed
  · exact .inl h.confirmed
  · refine .inr ⟨_, hs, h.confirmed, ?_⟩
    unfold version
    cases hconf : c.confirmed with
    | none => exact h.pos
    | some conf => exact h.newer conf hconf

/-- **A call keeps what holds**, if the screen that it brings meets the condition.  A screen
that is installed is one that was sent; one that is not newer comes, by the condition, on a
connection that has brought a newer one before. -/
theorem Inv.call (h : Inv l) {k : Call} (hmeets : Meets z l (.call k)) :
    Inv (act ext z l (.call k)) := by
  obtain ⟨vs, howes, hlast, hfresh⟩ := h
  have hspeaks := (@Call.speaks _ ext z) howes.tidy k
  obtain ⟨vs', howes', hlast'⟩ :=
    howes.speaks (show l.client.Speaks _ (act ext z l (.call k)).client from hspeaks) rfl rfl
    fun s hs => Call.version_lt hs
  refine ⟨vs', howes', hlast' hlast, ?_⟩
  rcases confirmed_of_speaks hspeaks with hsame | ⟨s, hs, hsome, hlt⟩
  · have hversion : version (k.run ext z l.client) = version l.client := by
      unfold version
      rw [hsame]
    refine ⟨fun hbase => ?_, fun s hs conf hconf hle => ?_⟩
    · change l.base < version (k.run ext z l.client) at hbase
      rw [hversion] at hbase
      obtain ⟨s, hs, heq⟩ := hfresh.source hbase
      exact ⟨s, List.mem_append_left _ hs, heq.trans hversion.symm⟩
    · replace hconf := hsame.symm.trans hconf
      rcases List.mem_append.1 hs with hs | hs
      · exact hfresh.behind s hs conf hconf hle
      · exact hmeets s (Option.mem_toList.1 hs) conf hconf hle
  · have hversion := version_of_confirmed hsome
    refine ⟨fun _ => ⟨s, ?_, hversion.symm⟩, fun s' _ conf hconf _ => ?_⟩
    · exact List.mem_append_right _ (Option.mem_toList.2 hs)
    · cases hsome.symm.trans hconf
      exact howes.base_le.trans_lt hlt

/-- **A screen that is not newer goes unanswered** on a connection without a newer one. -/
theorem Inv.call_breaks (h : Inv l) {k : Call} (hnot : ¬Meets z l (.call k)) :
    ¬(act ext z l (.call k)).Answered := by
  obtain ⟨vs, howes, hlast, hfresh⟩ := h
  have hspeaks := (@Call.speaks _ ext z) howes.tidy k
  obtain ⟨vs', howes', hlast'⟩ :=
    howes.speaks (show l.client.Speaks _ (act ext z l (.call k)).client from hspeaks) rfl rfl
    fun s hs => Call.version_lt hs
  intro hanswered
  refine hnot fun s hs conf hconf hle => ?_
  have hconf' : (k.run ext z l.client).confirmed = some conf := by
    rcases confirmed_of_speaks hspeaks with hsame | ⟨s', hs', -, hlt⟩
    · exact hsame.trans hconf
    · rw [version_of_confirmed hconf, ← Option.some.inj (hs.symm.trans hs')] at hlt
      omega
  have hmem : s ∈ (act ext z l (.call k)).arrived :=
    List.mem_append_right _ (Option.mem_toList.2 hs)
  exact (howes'.acknowledges_iff (hlast' hlast) hconf').1 (hanswered s hmem conf hconf' hle)

/-- The acknowledgement of the confirmed screen is not dropped. -/
theorem Inv.requestHangup (h : Inv l) (hmeets : Meets z l .requestHangup) :
    Inv (act ext z l .requestHangup) := by
  obtain ⟨vs, howes, hlast, hfresh⟩ := h
  obtain ⟨vs₁, vs₂, rfl, -, hctrl, howes'⟩ := (@Owes.requestHangup _ ext z _ _) howes
  refine ⟨vs₁, howes', fun hbase => ?_, hfresh.source, hfresh.behind⟩
  rcases List.mem_append.1 (hlast hbase) with hvs | hpending
  · rcases List.mem_append.1 hvs with hvs₁ | hvs₂
    · exact List.mem_append_left _ hvs₁
    · have hframe := List.mem_map_of_mem (f := encodeAckState) hvs₂
      rw [← hctrl, mem_ackStates] at hframe
      cases hconf : l.client.confirmed with
      | none =>
        have hzero : version l.client = 0 := by
          unfold version
          rw [hconf]
          rfl
        change l.base < version l.client at hbase
        omega
      | some conf =>
        rw [version_of_confirmed hconf] at hframe
        exact absurd hframe (hmeets conf hconf)
  · exact List.mem_append_right _ hpending

/-- **A hangup that drops the acknowledgement** leaves the screen unanswered. -/
theorem Inv.requestHangup_breaks (h : Inv l) (hnot : ¬Meets z l .requestHangup) :
    ¬(act ext z l .requestHangup).Answered := by
  obtain ⟨vs, howes, hlast, hfresh⟩ := h
  obtain ⟨vs₁, vs₂, rfl, -, hctrl, howes'⟩ := (@Owes.requestHangup _ ext z _ _) howes
  intro hanswered
  refine hnot fun conf hconf hframe => ?_
  have hversion := version_of_confirmed hconf
  have hwaits : conf.version ∈ vs₂ := by
    have hmem := mem_ackStates.2 hframe
    rw [hctrl] at hmem
    obtain ⟨v, hv, heq⟩ := List.mem_map.1 hmem
    have hle := (howes.within v (List.mem_append_left _ (List.mem_append_right _ hv))).2
    exact encodeAckState_inj (hle.trans_lt howes.version_lt) (howes.bound conf hconf) heq ▸ hv
  have hwithin := howes.within _ (List.mem_append_left _ (List.mem_append_right _ hwaits))
  obtain ⟨s, hs, hsame⟩ := hfresh.source (hwithin.1.trans_le hwithin.2)
  have hack := hanswered s hs conf hconf (hsame.trans hversion).le
  obtain ⟨w, hw, hle⟩ := howes'.mem_of_acknowledges hack
  have hwle := (howes'.within w hw).2
  change w ≤ version l.client at hwle
  change w ∈ vs₁ ++ l.client.pendingAck.toList at hw
  obtain ⟨hsorted, -, hpending⟩ := List.pairwise_append.1 howes.sorted
  rcases List.mem_append.1 hw with hw | hw
  · have := (List.pairwise_append.1 hsorted).2.2 w hw _ hwaits
    omega
  · have := hpending _ (List.mem_append_right _ hwaits) w hw
    omega

/-- **An action that meets the condition keeps what holds.** -/
theorem Inv.act (h : Inv l) {a : Action} (hmeets : Meets z l a) : Inv (act ext z l a) := by
  cases a with
  | call k => exact h.call hmeets
  | requestHangup => exact h.requestHangup hmeets
  | publish latest =>
    obtain ⟨vs, howes, hlast, hfresh⟩ := h
    exact ⟨vs, ⟨howes.tidy, howes.screen, howes.fin, howes.base_le, howes.bound, howes.acks,
      howes.sorted, howes.within⟩, hlast, hfresh.source, hfresh.behind⟩
  | acked v =>
    obtain ⟨vs, howes, hlast, hfresh⟩ := h
    unfold Line.act
    dsimp only
    split
    · exact ⟨vs, ⟨howes.tidy, howes.screen, howes.fin, howes.base_le, howes.bound, howes.acks,
        howes.sorted, howes.within⟩, hlast, hfresh.source, hfresh.behind⟩
    · exact ⟨vs, howes, hlast, hfresh⟩
  | advanceOutbound n =>
    obtain ⟨vs, howes, hlast, hfresh⟩ := h
    exact ⟨vs, howes.advance n, hlast, hfresh.source, hfresh.behind⟩
  | beginConnection now =>
    obtain ⟨vs, howes, -, -⟩ := h
    exact ⟨[], howes.beginConnection now, fun hbase => absurd hbase (lt_irrefl _),
      fun hbase => absurd hbase (lt_irrefl _), fun s hs => (nomatch hs)⟩

/-- **An action that does not meet it leaves a screen unanswered.** -/
theorem Inv.breaks (h : Inv l) {a : Action} (hnot : ¬Meets z l a) :
    ¬(Line.act ext z l a).Answered := by
  cases a with
  | call k => exact h.call_breaks hnot
  | requestHangup => exact h.requestHangup_breaks hnot
  | _ => exact absurd trivial hnot

/-- A new client, and any session. -/
def start (ext : Externals σ) (session : Session) (sessionId : FixedBytes 16)
    (token : FixedBytes 32) (cols rows : ℕ) (never : Bool) : Line σ where
  client := .new ext sessionId token cols rows never
  session := session

/-- A new client owes nothing. -/
theorem start_inv (session : Session) (sessionId : FixedBytes 16) (token : FixedBytes 32)
    (cols rows : ℕ) (never : Bool) : Inv (start ext session sessionId token cols rows never) := by
  refine ⟨[], ⟨tidy_nil, rfl, fun b hb => (nomatch hb), le_rfl, fun conf hconf => (nomatch hconf),
    rfl, .nil, fun v hv => (nomatch hv)⟩, fun hbase => absurd hbase (lt_irrefl _),
    fun hbase => absurd hbase (lt_irrefl _), fun s hs => (nomatch hs)⟩

/-- **Screens that are not newer are answered along a run iff each of its actions meets the
condition**: such a screen comes on a connection that has already brought a newer one, and
no hangup is requested while the acknowledgement of the confirmed screen waits in the
feed. -/
theorem answered_iff (session : Session) (sessionId : FixedBytes 16) (token : FixedBytes 32)
    (cols rows : ℕ) (never : Bool) (as : List Action) :
    (∀ bs, bs <+: as →
      ((line ext z).acts (start ext session sessionId token cols rows never) bs).Answered) ↔
      (line ext z).AllowsAll (Meets z) (start ext session sessionId token cols rows never) as :=
  Machine.always_iff (I := Inv) (P := Answered) (fun _ h => h.answered)
    (fun _ _ h _ hmeets => h.act hmeets) (fun _ _ h _ hnot => h.breaks hnot) (start_inv ..)
    (Machine.allowsAll_of_forall (fun _ _ => ⟨trivial, trivial⟩) ..)

/-- The first screen, as it is sent. -/
def firstBlob : Bytes := (Client.blankScreen 1 0).encodeCompressed .literal

/-- A new client and a session. -/
def started : Line Unit :=
  start .ascii (newSession 4 2) (constBytes 16 1) (constBytes 32 2) 4 2 false

/-- The first screen is installed, and its connection is cut before `pump`. -/
def cutShort : List Action :=
  [.publish ⟨1, firstBlob⟩, .beginConnection 0, .call (.frame msgScreen firstBlob 1),
    .beginConnection 2]

theorem cutShort_inv : Inv ((line .ascii .literal).acts started cutShort) := by
  have hmeets : (line .ascii .literal).AllowsAll (Meets .literal) started cutShort :=
    ⟨trivial, trivial, trivial, trivial, trivial, fun s _ conf hconf => (nomatch hconf), trivial,
      trivial, trivial⟩
  exact (Machine.run_acts hmeets).invariant (start_inv ..) fun _ _ _ h _ hok => h.act hok

/-- **A connection that is cut before the acknowledgement** leaves the screen unanswered on
the next one, and the server goes on sending it. -/
theorem resent_unanswered :
    ¬∀ as : List Action, (line .ascii .literal).AllowsAll Resends started as →
      ((line .ascii .literal).acts started as).Answered := by
  intro hall
  have hlatest : ((line .ascii .literal).acts started
      [.publish ⟨1, firstBlob⟩, .beginConnection 0]).session.latest = some ⟨1, firstBlob⟩ := rfl
  have hlatest' : ((line .ascii .literal).acts started cutShort).session.latest =
      some ⟨1, firstBlob⟩ := rfl
  have hresends : (line .ascii .literal).AllowsAll Resends started
      (cutShort ++ [.call (.frame msgScreen firstBlob 3)]) :=
    ⟨trivial, trivial, trivial, trivial, trivial, ⟨_, hlatest, rfl, Nat.zero_lt_one⟩, trivial,
      trivial, trivial, ⟨_, hlatest', rfl, Nat.zero_lt_one⟩, trivial⟩
  have hanswered := hall _ hresends
  rw [Machine.acts_concat] at hanswered
  refine cutShort_inv.call_breaks (fun hmeets => ?_) hanswered
  have hscreen : Call.screen .literal (.frame msgScreen firstBlob 3) =
      some (Client.blankScreen 1 0) := by decide +kernel
  have hconf : ((line .ascii .literal).acts started cutShort).client.confirmed =
      some (Client.blankScreen 1 0) := by decide +kernel
  have hbase : ((line .ascii .literal).acts started cutShort).base = 1 := by decide +kernel
  have hlt := hmeets _ hscreen _ hconf le_rfl
  rw [hbase] at hlt
  exact absurd hlt (by decide)

end Line
end Quosh
