/-
# The daemon at work

All of the daemon: what its connections share (`Quosh.Server.Helper`), the task of every
connection (`Quosh.Server.Auth`, and `Quosh.Server.Serving` once it is attached), the
helper's requests and the clock.  An action is one turn of one task, one request or the
passing of time, so a run of the machine `world` is any interleaving of handshakes on any
number of connections, with whatever bytes the clients send.

Random nonces and tokens have not been drawn before (`Allows`); nothing else is asked of
what comes from outside.

`History` has what a run has done so far: the nonces that were issued over SSH and those
spent, the tokens with the ceremony they descend from and the tokens they replaced, who
was answered and attached, and when.  No function of the daemon reads it.

`change` says what an action does, one case for each call of a store and one for all that
leaves the stores alone (`Calm`).  A world is `Sound`: the history tells what is stored.
What every action preserves holds to the end of a run (`Reachable.invariant`,
`Reachable.induction`).
-/

import Quosh.Control.Machine
import Quosh.Data.Entries
import Quosh.Server.Auth
import Quosh.Server.Serving

namespace Quosh

open Bytes

/-! ### What a run has done -/

/-- Where a token comes from: the user and the credential of the ceremony it descends from
and when that looked up the registration or consumed the nonce, the tokens that rotations
have replaced on the way, the connection and the time of its issue, and the clock that its
handshake went by. -/
structure Issue where
  uid : ℕ
  credentialId : String
  born : ℕ
  ancestors : List (FixedBytes 32)
  conn : ℕ
  stamp : ℕ
  seen : ℤ

/-- A nonce that was consumed, for a user, by the reply of a connection, and the clock. -/
structure Spent where
  conn : ℕ
  nonce : FixedBytes 16
  uid : ℕ
  clock : ℤ

/-- A connection that was attached to a session of a user, what authentication had found,
and when. -/
structure Attachment where
  conn : ℕ
  k : ℕ
  uid : ℕ
  authUid : Option ℕ
  stamp : ℕ

/-- What a run has done so far; `stamp` counts the actions. -/
structure History where
  stamp : ℕ := 0
  nonces : FixedBytes 16 → Option (ℕ × ℤ) := fun _ => none
  tokens : FixedBytes 32 → Option Issue := fun _ => none
  opened : ℕ → ℕ := fun _ => 0
  since : ℕ → ℕ := fun _ => 0
  spent : List Spent := []
  enrolled : List ℕ := []
  answered : List (ℕ × FixedBytes 32) := []
  spawned : List (ℕ × ℕ) := []
  attached : List Attachment := []
  active : List (ℕ × ℤ) := []

namespace History

/-- Where a token that is issued in a stage comes from. -/
def issue (p : History) (i : ℕ) : Stage → Option Issue
  | .reissuing hello now _ =>
    (p.tokens hello.authToken).map fun old =>
      { old with
        ancestors := hello.authToken :: old.ancestors, conn := i, stamp := p.stamp, seen := now }
  | .issuing _ now uid credentialId =>
    some
      { uid, credentialId, born := p.since i, ancestors := [], conn := i, stamp := p.stamp
        seen := now }
  | _ => none

/-- The history after a turn of a connection that was in a stage. -/
def record (p : History) (i : ℕ) (clock : ℤ) (stage : Stage) : Event → History
  | .quiet => p
  | .validated => { p with since := Function.update p.since i p.stamp }
  | .consumed nonce uid =>
    { p with
      since := Function.update p.since i p.stamp
      spent := p.spent ++ [{ conn := i, nonce, uid, clock }] }
  | .registered => { p with enrolled := p.enrolled ++ [i] }
  | .found => { p with since := Function.update p.since i p.stamp }
  | .issued token => { p with tokens := Function.update p.tokens token (p.issue i stage) }
  | .resolved spawned answered =>
    match stage with
    | .resolving _ uid token =>
      { p with
        spawned := p.spawned ++ spawned.toList.map fun k => (k, uid)
        answered := if answered then p.answered ++ [(i, token)] else p.answered }
    | _ => p
  | .attached k uid authUid screen =>
    { p with
      attached := p.attached ++ [{ conn := i, k, uid, authUid, stamp := p.stamp }]
      active := if screen then p.active ++ [(i, clock)] else p.active }

/-- One action more. -/
def tick (p : History) : History := { p with stamp := p.stamp + 1 }

end History

/-! ### The machine -/

/-- The daemon, the tasks of its connections, the clock, and what has happened. -/
structure World where
  daemon : Daemon := {}
  conns : ℕ → Handshake := fun _ => {}
  clock : ℤ := 0
  past : History := {}

/-- What can happen: a client connects and sends bytes, a task takes a turn, the helper
serves a request of a user, a session goes on or ends, and time passes. -/
inductive Action where
  | accept (i : ℕ)
  | receive (i : ℕ) (bytes : Bytes)
  | turn (i : ℕ) (env : Env)
  | serve (i : ℕ) (b : Branch)
  | enrollNonce (uid : ℕ) (nonce : FixedBytes 16)
  | create (uid cols rows : ℕ) (id : FixedBytes 16) (token : FixedBytes 32)
    (spawn : Except String Unit)
  | revokeCredential (write : Except String Unit) (uid : ℕ) (credentialId : String)
  | revokeAll (write : Except String Unit) (uid : ℕ)
  | revokeSessions (write : Except String Unit) (uid : ℕ)
  | session (k : ℕ) (s : Session)
  | remove (id : FixedBytes 16)
  | tick (secs : ℕ)

namespace World

/-- What asks more of an action than its arguments: a connection is accepted once, random
bytes have not been drawn before, and a session stays who it is. -/
def Allows (w : World) : Action → Prop
  | .accept i => (w.conns i).stage = .idle
  | .turn _ env => w.past.tokens env.token = none
  | .enrollNonce _ nonce => w.past.nonces nonce = none
  | .session k s =>
    ∃ s₀, w.daemon.heap[k]? = some s₀ ∧ s.id = s₀.id ∧ s.token = s₀.token ∧ s.uid = s₀.uid
  | _ => True

/-- Another task of a connection, and what it leaves of the daemon and the history. -/
def next (w : World) (i : ℕ) (daemon : Daemon) (c : Handshake) (past : History) : World :=
  { daemon, conns := Function.update w.conns i c, clock := w.clock, past }

/-- A part of the loop of an attached connection. -/
def serve (w : World) (i : ℕ) (b : Branch) : World :=
  match (w.conns i).stage with
  | .attached k h =>
    match w.daemon.heap[k]? with
    | none => w
    | some s =>
      let r := h.serve s b
      w.next i { w.daemon with heap := w.daemon.heap.set k r.session }
        { w.conns i with
          stage :=
            match r.handler with
            | some h => .attached k h
            | none => .closed }
        { w.past with
          active := if r.active then w.past.active ++ [(i, w.clock)] else w.past.active }
  | _ => w

/-- The world after an action, but for the count of actions. -/
def apply (rp : Relying) (w : World) : Action → World
  | .accept i =>
    w.next i w.daemon { stage := .opening }
      { w.past with opened := Function.update w.past.opened i w.past.stamp }
  | .receive i bytes =>
    w.next i w.daemon { w.conns i with buf := (w.conns i).buf ++ bytes } w.past
  | .turn i env =>
    match (w.conns i).turn rp env w.daemon w.clock with
    | (daemon, c, event) =>
      w.next i daemon c (w.past.record i w.clock (w.conns i).stage event)
  | .serve i b => w.serve i b
  | .enrollNonce uid nonce =>
    { w with
      daemon := { w.daemon with nonces := w.daemon.nonces.issue nonce uid w.clock }
      past := { w.past with
        nonces := Function.update w.past.nonces nonce (some (uid, w.clock)) } }
  | .create uid cols rows id token spawn =>
    { w with
      daemon := (w.daemon.spawnSession spawn id token uid (if cols = 0 then 80 else cols)
        (if rows = 0 then 24 else rows)).2 }
  | .revokeCredential write uid credentialId =>
    { w with daemon := { w.daemon with
      devices := (w.daemon.devices.revokeCredential write uid credentialId).2 } }
  | .revokeAll write uid =>
    { w with daemon := { w.daemon with devices := (w.daemon.devices.revokeAll write uid).2 } }
  | .revokeSessions write uid =>
    { w with daemon := { w.daemon with
      devices := (w.daemon.devices.revokeSessions write uid).2 } }
  | .session k s => { w with daemon := { w.daemon with heap := w.daemon.heap.set k s } }
  | .remove id => { w with daemon := w.daemon.remove id }
  | .tick secs => { w with clock := w.clock + secs }

/-- The world after an action. -/
def act (rp : Relying) (w : World) (a : Action) : World :=
  { w.apply rp a with past := (w.apply rp a).past.tick }

end World

/-- The connection that an action is about. -/
def Action.conn : Action → Option ℕ
  | .accept i => some i
  | .receive i _ => some i
  | .turn i _ => some i
  | .serve i _ => some i
  | _ => none

/-- The daemon as a machine. -/
def world (rp : Relying) : Machine World Action where
  Allows := World.Allows
  act := World.act rp

/-- A world that a run from an empty daemon leads to. -/
def World.Reachable (rp : Relying) (w : World) : Prop :=
  ∃ clock, (world rp).AnyRun { clock } w

namespace World

/-- Where a connection is. -/
abbrev stage (w : World) (i : ℕ) : Stage := (w.conns i).stage

variable {rp : Relying} {w : World}

/-- The connection whose task it was. -/
theorem stage_next_self (w : World) (i : ℕ) (d : Daemon) (c : Handshake) (p : History) :
    (w.next i d c p).stage i = c.stage := by
  show (Function.update w.conns i c i).stage = c.stage
  rw [Function.update_self]

/-- Another connection. -/
theorem stage_next_of_ne (w : World) {i j : ℕ} (d : Daemon) (c : Handshake) (p : History)
    (h : j ≠ i) : (w.next i d c p).stage j = w.stage j := by
  show (Function.update w.conns i c j).stage = w.stage j
  rw [Function.update_of_ne h]

/-- What holds of the connection that took a turn and of the others holds of all. -/
theorem forall_next (P : ℕ → Stage → Prop) {i : ℕ} {d : Daemon} {c : Handshake} {p : History}
    (hc : P i c.stage) (h : ∀ j, j ≠ i → P j (w.stage j)) (j : ℕ) :
    P j ((w.next i d c p).stage j) := by
  by_cases hj : j = i
  · subst hj
    rwa [stage_next_self]
  · rw [stage_next_of_ne w d c p hj]
    exact h j hj

/-- What others do leaves a connection alone. -/
theorem conns_act (rp : Relying) (w : World) {a : Action} {i : ℕ} (h : a.conn ≠ some i) :
    (w.act rp a).conns i = w.conns i := by
  cases a with
  | accept j => exact Function.update_of_ne (fun hj => h (congrArg some hj.symm)) ..
  | receive j bytes => exact Function.update_of_ne (fun hj => h (congrArg some hj.symm)) ..
  | turn j env => exact Function.update_of_ne (fun hj => h (congrArg some hj.symm)) ..
  | serve j b =>
    show (w.serve j b).conns i = w.conns i
    unfold World.serve
    split
    · split
      · rfl
      · exact Function.update_of_ne (fun hj => h (congrArg some hj.symm)) ..
    · rfl
  | _ => rfl

/-- An action leaves the other connections where they are. -/
theorem stage_act (rp : Relying) (w : World) {a : Action} {i : ℕ} (h : a.conn ≠ some i) :
    (w.act rp a).stage i = w.stage i :=
  congrArg Handshake.stage (conns_act rp w h)

/-- Any number of actions. -/
theorem conns_acts (rp : Relying) (w : World) {as : List Action} {i : ℕ}
    (h : ∀ a ∈ as, a.conn ≠ some i) : ((world rp).acts w as).conns i = w.conns i := by
  induction as generalizing w with
  | nil => rfl
  | cons a as ih =>
    have hrest := ih (w.act rp a) fun b hb => h b (List.mem_cons_of_mem a hb)
    exact hrest.trans (conns_act rp w (h a List.mem_cons_self))

/-- Any number of actions of others. -/
theorem stage_acts (rp : Relying) (w : World) {as : List Action} {i : ℕ}
    (h : ∀ a ∈ as, a.conn ≠ some i) : ((world rp).acts w as).stage i = w.stage i :=
  congrArg Handshake.stage (conns_acts rp w h)

/-- Only a turn of its task moves a connection on in a handshake: an action of another
connection leaves it, and of its own the others open it, feed it or serve it when it is
attached. -/
theorem exists_turn (rp : Relying) {a : Action} {i : ℕ} (hallows : w.Allows a)
    (hne : (w.act rp a).stage i ≠ w.stage i) (hidle : w.stage i ≠ .idle)
    (hattached : ∀ k h, w.stage i ≠ .attached k h) :
    ∃ env, a = .turn i env ∧
      (w.act rp a).stage i = ((w.conns i).turn rp env w.daemon w.clock).2.1.stage := by
  have hconn : a.conn = some i := by
    by_contra hconn
    exact hne (stage_act rp w hconn)
  cases a with
  | accept j =>
    obtain rfl := Option.some.inj hconn
    exact absurd hallows hidle
  | receive j bytes =>
    obtain rfl := Option.some.inj hconn
    exact absurd (stage_next_self w j _ _ _) hne
  | turn j env =>
    obtain rfl := Option.some.inj hconn
    exact ⟨env, rfl, stage_next_self w j _ _ _⟩
  | serve j b =>
    obtain rfl := Option.some.inj hconn
    refine absurd ?_ hne
    show (w.serve j b).stage j = w.stage j
    unfold World.serve
    split
    · rename_i k h hstage
      exact absurd hstage (hattached k h)
    · rfl
  | _ => cases hconn

/-! ### What an action does -/

/-- How a connection moves without a call of a store. -/
inductive Idles (clock : ℤ) : Stage → Stage → Prop
  | same (s : Stage) : Idles clock s s
  | close (s : Stage) : Idles clock s .closed
  | accept : Idles clock .idle .opening
  | challenge (hello : AuthHello) (challenge : FixedBytes 32) :
    Idles clock .opening (.replying hello clock challenge)
  | serve (k : ℕ) (h h' : Handler) : Idles clock (.attached k h) (.attached k h')

/-- An action that leaves the stores of devices and nonces alone, and all that decides who
may do what. -/
structure Calm (w w' : World) : Prop where
  devices : w'.daemon.devices = w.daemon.devices
  nonces : w'.daemon.nonces = w.daemon.nonces
  heap : ∀ (k : ℕ) (s : Session), w.daemon.heap[k]? = some s →
    ∃ s', w'.daemon.heap[k]? = some s' ∧ s'.uid = s.uid
  stage : ∀ i, Idles w.clock (w.stage i) (w'.stage i)
  clock : w.clock ≤ w'.clock
  past : w'.past =
    { w.past.tick with opened := w'.past.opened, active := w'.past.active }
  opened : ∀ i, w'.past.opened i = w.past.opened i ∨
    w.stage i = .idle ∧ w'.past.opened i = w.past.stamp
  active : ∀ x ∈ w'.past.active, x ∈ w.past.active ∨
    x.2 = w.clock ∧ ∃ k h, w.stage x.1 = .attached k h

/-- A session that stays its user's, among the others. -/
theorem heap_set_uid {heap : List Session} {k₀ : ℕ} {s₀ s₁ : Session} (hs₀ : heap[k₀]? = some s₀)
    (huid : s₁.uid = s₀.uid) (k : ℕ) (s : Session) (hs : heap[k]? = some s) :
    ∃ s', (heap.set k₀ s₁)[k]? = some s' ∧ s'.uid = s.uid := by
  by_cases hk : k₀ = k
  · subst hk
    have hlt : k₀ < heap.length := (List.getElem?_eq_some_iff.1 hs).1
    obtain rfl := Option.some.inj (hs₀.symm.trans hs)
    exact ⟨s₁, List.getElem?_set_self hlt, huid⟩
  · exact ⟨s, (List.getElem?_set_ne hk).trans hs, rfl⟩

/-- A task that has only waited, or given up. -/
theorem Calm.next {i : ℕ} {c : Handshake} (h : Idles w.clock (w.stage i) c.stage) :
    Calm w (w.next i w.daemon c w.past.tick) where
  devices := rfl
  nonces := rfl
  heap _ s hs := ⟨s, hs, rfl⟩
  stage := forall_next (fun j stage => Idles w.clock (w.stage j) stage) h fun _ _ => .same _
  clock := le_rfl
  past := rfl
  opened _ := .inl rfl
  active _ hx := .inl hx

/-- A change of what is shared other than the stores. -/
theorem Calm.shared {d : Daemon} {clock : ℤ} (hdevices : d.devices = w.daemon.devices)
    (hnonces : d.nonces = w.daemon.nonces)
    (hheap : ∀ (k : ℕ) (s : Session), w.daemon.heap[k]? = some s →
      ∃ s', d.heap[k]? = some s' ∧ s'.uid = s.uid)
    (hclock : w.clock ≤ clock) :
    Calm w { w with daemon := d, clock, past := w.past.tick } where
  devices := hdevices
  nonces := hnonces
  heap := hheap
  stage _ := .same _
  clock := hclock
  past := rfl
  opened _ := .inl rfl
  active _ hx := .inl hx

/-- A part of the loop of an attached connection is calm. -/
theorem Calm.serve (w : World) (i : ℕ) (b : Branch) :
    Calm w { w.serve i b with past := (w.serve i b).past.tick } := by
  have hsame : Calm w { w with past := w.past.tick } :=
    .shared rfl rfl (fun _ s hs => ⟨s, hs, rfl⟩) le_rfl
  unfold World.serve
  split
  · rename_i k h hstage
    split
    · exact hsame
    · rename_i s hs
      refine ⟨rfl, rfl, heap_set_uid hs (h.serve_uid s b), ?_, le_rfl, rfl, fun _ => .inl rfl,
        fun x hx => ?_⟩
      · refine forall_next (fun j stage => Idles w.clock (w.stage j) stage) ?_ fun j _ => .same _
        have hs : w.stage i = .attached k h := hstage
        rw [hs]
        dsimp only
        split
        · exact .serve k h _
        · exact .close _
      · dsimp only [World.next, History.tick] at hx
        split at hx
        · rcases List.mem_append.1 hx with hx | hx
          · exact .inl hx
          · rw [List.mem_singleton.1 hx]
            exact .inr ⟨rfl, k, h, hstage⟩
        · exact .inl hx
  · exact hsame

/-- **What an action does**: nothing to the stores, or one call of one of them. -/
inductive Change (rp : Relying) (w : World) : Action → World → Prop
  | calm {a : Action} {w' : World} (h : Calm w w') : Change rp w a w'
  | nonce (uid : ℕ) (nonce : FixedBytes 16) (hfresh : w.past.nonces nonce = none) :
    Change rp w (.enrollNonce uid nonce)
      { w with
        daemon := { w.daemon with nonces := w.daemon.nonces.issue nonce uid w.clock }
        past := { w.past with
          nonces := Function.update w.past.nonces nonce (some (uid, w.clock)) }.tick }
  | revoked {a : Action} (devices : DeviceStore) (p : Registration → Bool)
    (q : SessionToken → Bool)
    (hinner : devices.inner =
      { registrations := w.daemon.devices.inner.registrations.filter p
        tokens := w.daemon.devices.inner.tokens.filter q }) :
    Change rp w a { w with daemon := { w.daemon with devices }, past := w.past.tick }
  | turn (i : ℕ) (env : Env) (d : Daemon) (c : Handshake) (event : Event)
    (hfresh : w.past.tokens env.token = none)
    (heffect : (w.conns i).Effect env w.daemon w.clock (d, c, event)) :
    Change rp w (.turn i env)
      (w.next i d c (w.past.record i w.clock (w.stage i) event).tick)

/-- **What an action does.**  A turn is an effect of its task (`Handshake.turn_effect`), a
nonce is issued, a revocation filters the store, and every other action is calm: it leaves
the stores and what is remembered, and moves no handshake on. -/
theorem change {a : Action} (hallows : w.Allows a) : Change rp w a (w.act rp a) := by
  have hheap (k : ℕ) (s : Session) (hs : w.daemon.heap[k]? = some s) :
      ∃ s', w.daemon.heap[k]? = some s' ∧ s'.uid = s.uid := ⟨s, hs, rfl⟩
  cases a with
  | accept i =>
    have hidle : w.stage i = .idle := hallows
    refine .calm ⟨rfl, rfl, hheap, ?_, le_rfl, rfl, fun j => ?_, fun _ hx => .inl hx⟩
    · refine forall_next (fun j stage => Idles w.clock (w.stage j) stage) ?_ fun j _ => .same _
      rw [hidle]
      exact .accept
    · by_cases hj : j = i
      · subst hj
        exact .inr ⟨hidle, Function.update_self ..⟩
      · exact .inl (Function.update_of_ne hj ..)
  | receive i bytes => exact .calm (.next (.same _))
  | turn i env =>
    have heffect := (w.conns i).turn_effect rp env w.daemon w.clock
    unfold act apply
    cases hturn : (w.conns i).turn rp env w.daemon w.clock with
    | mk d r =>
      obtain ⟨c, event⟩ := r
      rw [hturn] at heffect
      simp only [hturn]
      exact .turn i env d c event hallows heffect
  | serve i b => exact .calm (.serve w i b)
  | enrollNonce uid nonce => exact .nonce uid nonce hallows
  | create uid cols rows id token spawn =>
    have hspawn := w.daemon.spawnSession_spec spawn id token uid (if cols = 0 then 80 else cols)
      (if rows = 0 then 24 else rows)
    show Change rp w _ { w with
      daemon := (w.daemon.spawnSession spawn id token uid (if cols = 0 then 80 else cols)
        (if rows = 0 then 24 else rows)).2
      past := w.past.tick }
    generalize w.daemon.spawnSession spawn id token uid (if cols = 0 then 80 else cols)
      (if rows = 0 then 24 else rows) = r at hspawn ⊢
    rcases hspawn with ⟨e, rfl⟩ | ⟨d', rfl, hdevices, hnonces, s', -, hs'⟩
    · exact .calm (.shared rfl rfl hheap le_rfl)
    · refine .calm (.shared hdevices hnonces (fun k s hs => ⟨s, ?_, rfl⟩) le_rfl)
      rw [hs', List.getElem?_append_left (List.getElem?_eq_some_iff.1 hs).1, hs]
  | revokeCredential write uid credentialId =>
    exact .revoked _ _ _ (DeviceStore.inner_revokeCredential ..)
  | revokeAll write uid => exact .revoked _ _ _ (DeviceStore.inner_revokeAll ..)
  | revokeSessions write uid =>
    refine .revoked _ (fun _ => true) (fun t => t.uid ≠ uid) ?_
    rw [DeviceStore.inner_revokeSessions, List.filter_true]
  | session k s =>
    obtain ⟨s₀, hs₀, -, -, huid⟩ := hallows
    exact .calm (.shared rfl rfl (heap_set_uid hs₀ huid) le_rfl)
  | remove id => exact .calm (.shared rfl rfl hheap le_rfl)
  | tick secs =>
    refine .calm (.shared rfl rfl hheap ?_)
    show w.clock ≤ w.clock + secs
    omega

/-- The loop of a connection leaves the device store alone. -/
theorem devices_serve (w : World) (i : ℕ) (b : Branch) :
    (w.serve i b).daemon.devices = w.daemon.devices := by
  unfold serve
  split
  · split <;> rfl
  · rfl

/-- A session that is created leaves the device store alone. -/
theorem devices_create (rp : Relying) (w : World) (uid cols rows : ℕ) (id : FixedBytes 16)
    (token : FixedBytes 32) (spawn : Except String Unit) :
    (w.act rp (.create uid cols rows id token spawn)).daemon.devices = w.daemon.devices := by
  have hspawn := w.daemon.spawnSession_spec spawn id token uid (if cols = 0 then 80 else cols)
    (if rows = 0 then 24 else rows)
  show (w.daemon.spawnSession spawn id token uid (if cols = 0 then 80 else cols)
    (if rows = 0 then 24 else rows)).2.devices = _
  rcases hspawn with ⟨e, he⟩ | ⟨d', hd', hdevices, -⟩
  · rw [he]
  · rw [hd', hdevices]

/-! ### The history grows -/

/-- What has happened stays, and a token has one origin. -/
structure Grows (p p' : History) : Prop where
  stamp : p.stamp < p'.stamp
  nonces : ∀ n e, p.nonces n = some e → p'.nonces n = some e
  tokens : ∀ τ e, p.tokens τ = some e → p'.tokens τ = some e
  answered : ∀ x ∈ p.answered, x ∈ p'.answered
  spawned : ∀ x ∈ p.spawned, x ∈ p'.spawned
  spent : ∀ x ∈ p.spent, x ∈ p'.spent

/-- A history that has all it had, and one action more. -/
theorem Grows.tick {p p' : History} (hstamp : p'.stamp = p.stamp)
    (hnonces : ∀ n e, p.nonces n = some e → p'.nonces n = some e)
    (htokens : ∀ τ e, p.tokens τ = some e → p'.tokens τ = some e)
    (hanswered : ∀ x ∈ p.answered, x ∈ p'.answered)
    (hspawned : ∀ x ∈ p.spawned, x ∈ p'.spawned)
    (hspent : ∀ x ∈ p.spent, x ∈ p'.spent) : Grows p p'.tick where
  stamp := by
    show p.stamp < p'.stamp + 1
    omega
  nonces := hnonces
  tokens := htokens
  answered := hanswered
  spawned := hspawned
  spent := hspent

/-- A turn forgets nothing, if its token is new. -/
theorem record_grows (p : History) (i : ℕ) (clock : ℤ) (stage : Stage) {event : Event}
    (hfresh : ∀ τ, event = .issued τ → p.tokens τ = none) :
    Grows p (p.record i clock stage event).tick := by
  cases event with
  | issued τ =>
    refine .tick rfl (fun _ _ h => h) (fun σ e h => ?_) (fun _ h => h) (fun _ h => h)
      fun _ h => h
    have hne : σ ≠ τ := by
      rintro rfl
      exact absurd ((hfresh σ rfl).symm.trans h) (Option.some_ne_none e).symm
    exact (Function.update_of_ne hne ..).trans h
  | resolved spawned answered =>
    unfold History.record
    dsimp only
    split
    · refine .tick rfl (fun _ _ h => h) (fun _ _ h => h) (fun x hx => ?_)
        (fun x hx => List.mem_append_left _ hx) fun _ h => h
      dsimp only
      split
      · exact List.mem_append_left _ hx
      · exact hx
    · exact .tick rfl (fun _ _ h => h) (fun _ _ h => h) (fun _ h => h) (fun _ h => h) fun _ h => h
  | consumed n uid =>
    exact .tick rfl (fun _ _ h => h) (fun _ _ h => h) (fun _ h => h) (fun _ h => h)
      fun x hx => List.mem_append_left _ hx
  | _ =>
    exact .tick rfl (fun _ _ h => h) (fun _ _ h => h) (fun _ h => h) (fun _ h => h) fun _ h => h

/-- A token that a turn issues is the one it has drawn. -/
theorem issued_eq {env : Env} {d d' : Daemon} {c c' : Handshake} {clock : ℤ} {event : Event}
    (h : c.Effect env d clock (d', c', event)) {τ : FixedBytes 32} (hτ : event = .issued τ) :
    τ = env.token := by
  cases h <;> cases hτ
  rfl

/-- **No action forgets anything.** -/
theorem Change.grows {a : Action} {w' : World} (h : Change rp w a w') :
    Grows w.past w'.past := by
  cases h with
  | calm h =>
    rw [h.past]
    exact ⟨Nat.lt_succ_self _, fun _ _ h => h, fun _ _ h => h, fun _ h => h, fun _ h => h,
      fun _ h => h⟩
  | nonce uid n hfresh =>
    refine .tick rfl (fun m e h => ?_) (fun _ _ h => h) (fun _ h => h) (fun _ h => h)
      fun _ h => h
    have hne : m ≠ n := by
      rintro rfl
      exact absurd (hfresh.symm.trans h) (Option.some_ne_none e).symm
    exact (Function.update_of_ne hne ..).trans h
  | revoked devices p q hinner =>
    exact .tick rfl (fun _ _ h => h) (fun _ _ h => h) (fun _ h => h) (fun _ h => h) fun _ h => h
  | turn i env d c event hfresh heffect =>
    exact record_grows w.past i w.clock (w.stage i) fun τ hτ => issued_eq heffect hτ ▸ hfresh

/-! ### Sound worlds -/

/-- What the history says of a connection in a stage. -/
def Holds (p : History) (clock : ℤ) (i : ℕ) : Stage → Prop
  | .dropping hello now uid | .reissuing hello now uid =>
    now ≤ clock ∧ ∃ e, p.tokens hello.authToken = some e ∧ e.uid = uid
  | .replying _ now _ | .registering _ now _ | .touching _ now _ _ _ | .issuing _ now _ _ =>
    now ≤ clock
  | .resolving _ uid token => ∃ e, p.tokens token = some e ∧ e.uid = uid ∧ e.conn = i
  | .authed uid =>
    ∃ τ e, (i, τ) ∈ p.answered ∧ p.tokens τ = some e ∧ e.uid = uid ∧ e.conn = i
  | _ => True

/-- What the history says of a stage it says later on. -/
theorem Holds.mono {p p' : History} (hgrows : Grows p p') {clock clock' : ℤ}
    (hclock : clock ≤ clock') {i : ℕ} {stage : Stage} (h : Holds p clock i stage) :
    Holds p' clock' i stage := by
  cases stage with
  | dropping hello now uid =>
    obtain ⟨hnow, e, he, huid⟩ := h
    exact ⟨hnow.trans hclock, e, hgrows.tokens _ _ he, huid⟩
  | reissuing hello now uid =>
    obtain ⟨hnow, e, he, huid⟩ := h
    exact ⟨hnow.trans hclock, e, hgrows.tokens _ _ he, huid⟩
  | resolving hello uid token =>
    obtain ⟨e, he, huid, hconn⟩ := h
    exact ⟨e, hgrows.tokens _ _ he, huid, hconn⟩
  | authed uid =>
    obtain ⟨τ, e, hτ, he, huid, hconn⟩ := h
    exact ⟨τ, e, hgrows.answered _ hτ, hgrows.tokens _ _ he, huid, hconn⟩
  | replying hello now challenge => exact le_trans h hclock
  | registering hello now reg => exact le_trans h hclock
  | touching hello now uid credentialId signCount => exact le_trans h hclock
  | issuing hello now uid credentialId => exact le_trans h hclock
  | idle => trivial
  | opening => trivial
  | attached k h => trivial
  | closed => trivial

/-- A token entry of the store is as the history tells. -/
structure Stored (p : History) (t : SessionToken) (τ : FixedBytes 32) (e : Issue) : Prop where
  token : t.token = hexEncode τ.1
  issued : p.tokens τ = some e
  uid : t.uid = e.uid
  credentialId : t.credentialId = if e.ancestors = [] then some e.credentialId else none
  lastSeen : t.lastSeen = e.seen

/-- The history tells what is stored and what the connections are about to do. -/
structure Sound (w : World) : Prop where
  stored : ∀ t ∈ w.daemon.devices.inner.tokens, ∃ τ e, Stored w.past t τ e
  distinct : (w.daemon.devices.inner.tokens.map SessionToken.token).Nodup
  issued : ∀ τ e, w.past.tokens τ = some e →
    e.born ≤ e.stamp ∧ e.stamp < w.past.stamp ∧ e.seen ≤ w.clock ∧
      ∀ σ ∈ e.ancestors, w.past.tokens σ ≠ none
  answered : ∀ x ∈ w.past.answered, ∃ e, w.past.tokens x.2 = some e ∧ e.conn = x.1
  since : ∀ i, w.past.since i ≤ w.past.stamp
  conns : ∀ i, Holds w.past w.clock i (w.stage i)

/-- What it says of a token it says later on. -/
theorem Stored.mono {p p' : History} (hgrows : Grows p p') {t : SessionToken}
    {τ : FixedBytes 32} {e : Issue} (h : Stored p t τ e) : Stored p' t τ e :=
  { h with issued := hgrows.tokens _ _ h.issued }

/-- An entry is of the token that it has the text of. -/
theorem Stored.eq_of_token {p : History} {t : SessionToken} {τ σ : FixedBytes 32} {e : Issue}
    (h : Stored p t τ e) (htoken : t.token = hexEncode σ.1) : τ = σ :=
  Subtype.ext (hexEncode_inj (h.token.symm.trans htoken))

/-- An entry has one origin. -/
theorem Stored.unique {p : History} {t : SessionToken} {τ τ' : FixedBytes 32} {e e' : Issue}
    (h : Stored p t τ e) (h' : Stored p t τ' e') : τ = τ' ∧ e = e' := by
  obtain rfl := h.eq_of_token h'.token
  exact ⟨rfl, Option.some.inj (h.issued.symm.trans h'.issued)⟩

/-- An entry that was stored before has the origin that it had. -/
theorem Sound.stored_of_grows (h : Sound w) {p : History} (hgrows : Grows w.past p)
    {t : SessionToken} (ht : t ∈ w.daemon.devices.inner.tokens) {τ : FixedBytes 32} {e : Issue}
    (hstored : Stored p t τ e) : Stored w.past t τ e := by
  obtain ⟨σ, e', hstored'⟩ := h.stored t ht
  obtain ⟨rfl, rfl⟩ := hstored.unique (hstored'.mono hgrows)
  exact hstored'

/-- An action that issues no token. -/
theorem Sound.of_tokens_eq {w' : World} (h : Sound w) (hgrows : Grows w.past w'.past)
    (hclock : w.clock ≤ w'.clock)
    (hsub : w'.daemon.devices.inner.tokens.Sublist w.daemon.devices.inner.tokens)
    (htokens : w'.past.tokens = w.past.tokens)
    (hanswered : ∀ x ∈ w'.past.answered, x ∈ w.past.answered ∨
      ∃ e, w.past.tokens x.2 = some e ∧ e.conn = x.1)
    (hsince : ∀ i, w'.past.since i ≤ w'.past.stamp)
    (hconns : ∀ i, Holds w'.past w'.clock i (w'.stage i)) : Sound w' where
  stored t ht := by
    obtain ⟨τ, e, hstored⟩ := h.stored t (hsub.subset ht)
    exact ⟨τ, e, hstored.mono hgrows⟩
  distinct := h.distinct.sublist (hsub.map _)
  issued τ e he := by
    rw [htokens] at he ⊢
    obtain ⟨hborn, hstamp, hseen, hanc⟩ := h.issued τ e he
    exact ⟨hborn, hstamp.trans hgrows.stamp, hseen.trans hclock, hanc⟩
  answered x hx := by
    rw [htokens]
    exact (hanswered x hx).elim (h.answered x) id
  since := hsince
  conns := hconns

/-- The time of a call is never later than now. -/
theorem since_record (h : Sound w) (i : ℕ) (stage : Stage) (event : Event) (j : ℕ) :
    (w.past.record i w.clock stage event).tick.since j ≤
      (w.past.record i w.clock stage event).tick.stamp := by
  have hold : w.past.since j ≤ w.past.stamp + 1 := (h.since j).trans (Nat.le_succ _)
  have hnew : Function.update w.past.since i w.past.stamp j ≤ w.past.stamp + 1 := by
    by_cases hj : j = i
    · rw [hj, Function.update_self]
      exact Nat.le_succ _
    · rwa [Function.update_of_ne hj]
  cases event with
  | resolved spawned answered =>
    unfold History.record History.tick
    dsimp only
    split <;> exact hold
  | validated => exact hnew
  | consumed n uid => exact hnew
  | found => exact hnew
  | quiet => exact hold
  | registered => exact hold
  | issued τ => exact hold
  | attached k uid authUid screen => exact hold

/-- A turn that issues no token.  The tokens are some of those before, so what was known of
each still is; an answer that it adds names the token that its task has kept since it was
issued. -/
theorem Sound.turn {i : ℕ} {d : Daemon} {c : Handshake} {event : Event} (h : Sound w)
    (hsub : d.devices.inner.tokens.Sublist w.daemon.devices.inner.tokens)
    (hquiet : ∀ τ, event ≠ .issued τ)
    (hc : Holds (w.past.record i w.clock (w.stage i) event).tick w.clock i c.stage) :
    Sound (w.next i d c (w.past.record i w.clock (w.stage i) event).tick) := by
  have hgrows := @record_grows w.past i w.clock (w.stage i) event
    fun τ hτ => absurd hτ (hquiet τ)
  refine h.of_tokens_eq hgrows le_rfl hsub ?_ (fun x hx => ?_) (since_record h i _ event) ?_
  · cases event with
    | issued τ => exact absurd rfl (hquiet τ)
    | resolved spawned answered =>
      unfold History.record
      dsimp only [World.next]
      split <;> rfl
    | validated => rfl
    | consumed n uid => rfl
    | found => rfl
    | quiet => rfl
    | registered => rfl
    | attached k uid authUid screen => rfl
  · cases event with
    | issued τ => exact absurd rfl (hquiet τ)
    | resolved spawned answered =>
      have hi := h.conns i
      unfold History.record at hx
      dsimp only [World.next, History.tick] at hx
      generalize w.stage i = stage at hi hx
      cases stage with
      | resolving hello uid token =>
        obtain ⟨e, he, -, hconn⟩ := hi
        dsimp only at hx
        split at hx
        · rcases List.mem_append.1 hx with hx | hx
          · exact .inl hx
          · rw [List.mem_singleton.1 hx]
            exact .inr ⟨e, he, hconn⟩
        · exact .inl hx
      | _ => exact .inl hx
    | validated => exact .inl hx
    | consumed n uid => exact .inl hx
    | found => exact .inl hx
    | quiet => exact .inl hx
    | registered => exact .inl hx
    | attached k uid authUid screen => exact .inl hx
  · exact forall_next _ hc fun j _ => (h.conns j).mono hgrows le_rfl

/-- **A live token** is one that was issued, and its handshake went by a clock of the last
hour. -/
theorem Sound.exists_of_validateToken (h : Sound w) {τ : FixedBytes 32} {now : ℤ} {uid : ℕ}
    (hlive : w.daemon.devices.validateToken τ now = some uid) :
    ∃ t ∈ w.daemon.devices.inner.tokens, ∃ e, Stored w.past t τ e ∧ e.uid = uid ∧
      now - e.seen ≤ sessionIdleSecs := by
  obtain ⟨t, ht, htoken, huid, hseen⟩ := DeviceStore.exists_of_validateToken hlive
  obtain ⟨σ, e, hstored⟩ := h.stored t ht
  obtain rfl : σ = τ := Subtype.ext (hexEncode_inj (hstored.token.symm.trans htoken))
  exact ⟨t, ht, e, hstored, hstored.uid.symm.trans huid, hstored.lastSeen ▸ hseen⟩

/-- What a handshake knows of the token it is about to issue. -/
structure Issues (w : World) (i : ℕ) (uid : ℕ) (credentialId : Option String) (now : ℤ)
    (e : Issue) : Prop where
  issue : w.past.issue i (w.stage i) = some e
  uid : e.uid = uid
  conn : e.conn = i
  stamp : e.stamp = w.past.stamp
  seen : e.seen = now
  now : now ≤ w.clock
  born : e.born ≤ w.past.stamp
  credentialId : credentialId = if e.ancestors = [] then some e.credentialId else none
  ancestors : ∀ σ ∈ e.ancestors, w.past.tokens σ ≠ none

/-- A handshake that is to issue a token knows whence. -/
theorem Sound.issues (h : Sound w) {i : ℕ} {hello : AuthHello} {now : ℤ} {uid : ℕ}
    {credentialId : Option String}
    (hstage : w.stage i = .reissuing hello now uid ∧ credentialId = none ∨
      ∃ id, w.stage i = .issuing hello now uid id ∧ credentialId = some id) :
    ∃ e, Issues w i uid credentialId now e := by
  have hi := h.conns i
  rcases hstage with ⟨hstage, rfl⟩ | ⟨id, hstage, rfl⟩
  · rw [hstage] at hi
    obtain ⟨hnow, old, hold, huid⟩ := hi
    obtain ⟨hborn, hstamp, -, hanc⟩ := h.issued _ old hold
    refine ⟨{ old with
      ancestors := hello.authToken :: old.ancestors, conn := i, stamp := w.past.stamp
      seen := now }, ?_, huid, rfl, rfl, rfl, hnow, hborn.trans hstamp.le, rfl, fun σ hσ => ?_⟩
    · rw [hstage]
      unfold History.issue
      dsimp only
      rw [hold]
      rfl
    · rcases List.mem_cons.1 hσ with rfl | hσ
      · rw [hold]
        exact Option.some_ne_none old
      · exact hanc σ hσ
  · rw [hstage] at hi
    refine ⟨_, by rw [hstage]; rfl, rfl, rfl, rfl, rfl, hi, h.since i, rfl, fun σ hσ => ?_⟩
    exact absurd hσ List.not_mem_nil

/-- **A turn that issues a token.**  The token is fresh, so no entry of another is written
over; the new entry is the one that its task stood before (`Issues`), and its ancestors are
known. -/
theorem Sound.issued_turn (h : Sound w) {i : ℕ} {env : Env} {c : Handshake} {uid : ℕ}
    {credentialId : Option String} {now : ℤ} {e : Issue}
    (hfresh : w.past.tokens env.token = none) (he : Issues w i uid credentialId now e)
    (hc : (∃ hello, c.stage = .resolving hello uid env.token) ∨ c.stage = .closed) :
    Sound (w.next i
      { w.daemon with
        devices := (w.daemon.devices.issueToken env.write env.token uid credentialId now).2 }
      c (w.past.record i w.clock (w.stage i) (.issued env.token)).tick) := by
  have hgrows := @record_grows w.past i w.clock (w.stage i) (.issued env.token) fun τ hτ => by
    cases hτ
    exact hfresh
  have hissued : (w.past.record i w.clock (w.stage i) (.issued env.token)).tick.tokens env.token =
      some e := (Function.update_self ..).trans he.issue
  constructor
  · intro t ht
    replace ht : t ∈ (w.daemon.devices.issueToken env.write env.token uid credentialId
        now).2.inner.tokens := ht
    rw [DeviceStore.inner_issueToken] at ht
    rcases List.mem_append.1 ht with ht | ht
    · obtain ⟨τ, e', hstored⟩ := h.stored t ht
      exact ⟨τ, e', hstored.mono hgrows⟩
    · rw [List.mem_singleton.1 ht]
      exact ⟨env.token, e, rfl, hissued, he.uid.symm, he.credentialId, he.seen.symm⟩
  · show ((w.daemon.devices.issueToken env.write env.token uid credentialId now).2.inner.tokens.map
      SessionToken.token).Nodup
    rw [DeviceStore.inner_issueToken]
    refine Entries.nodup_map_append h.distinct fun t ht heq => ?_
    obtain ⟨τ, e', hstored⟩ := h.stored t ht
    obtain rfl : τ = env.token := Subtype.ext (hexEncode_inj (hstored.token.symm.trans heq))
    exact absurd (hstored.issued.symm.trans hfresh) (Option.some_ne_none e')
  · intro τ e' he'
    by_cases hτ : τ = env.token
    · subst hτ
      obtain rfl := Option.some.inj (hissued.symm.trans he')
      refine ⟨he.born.trans he.stamp.ge, ?_, he.seen.le.trans he.now, fun σ hσ => ?_⟩
      · rw [he.stamp]
        exact Nat.lt_succ_self _
      · obtain ⟨e', he'⟩ := Option.ne_none_iff_exists'.1 (he.ancestors σ hσ)
        exact Option.ne_none_iff_exists'.2 ⟨e', hgrows.tokens _ _ he'⟩
    · have hold : w.past.tokens τ = some e' := (Function.update_of_ne hτ ..).symm.trans he'
      obtain ⟨hborn, hstamp, hseen, hanc⟩ := h.issued τ e' hold
      refine ⟨hborn, hstamp.trans hgrows.stamp, hseen, fun σ hσ => ?_⟩
      obtain ⟨e', he'⟩ := Option.ne_none_iff_exists'.1 (hanc σ hσ)
      exact Option.ne_none_iff_exists'.2 ⟨e', hgrows.tokens _ _ he'⟩
  · intro x hx
    obtain ⟨e', he', hconn⟩ := h.answered x hx
    exact ⟨e', hgrows.tokens _ _ he', hconn⟩
  · exact since_record h i _ _
  · refine forall_next _ ?_ fun j _ => (h.conns j).mono hgrows le_rfl
    rcases hc with ⟨hello, hc⟩ | hc
    · rw [hc]
      exact ⟨e, hissued, he.uid, he.conn⟩
    · rw [hc]
      trivial

/-- A calm step keeps a world sound. -/
theorem Sound.calm {w' : World} (h : Sound w) (hgrows : Grows w.past w'.past)
    (hcalm : Calm w w') : Sound w' := by
  have hpast := hcalm.past
  refine h.of_tokens_eq hgrows hcalm.clock (by rw [hcalm.devices]) (by rw [hpast]; rfl)
    (fun x hx => ?_) (fun i => ?_) fun i => ?_
  · rw [hpast] at hx
    exact .inl hx
  · rw [hpast]
    exact (h.since i).trans (Nat.le_succ _)
  · have hold := (h.conns i).mono hgrows hcalm.clock
    have hidles := hcalm.stage i
    generalize w.stage i = s at hidles hold
    generalize w'.stage i = s' at hidles ⊢
    cases hidles with
    | same s => exact hold
    | close s => trivial
    | accept => trivial
    | challenge hello challenge => exact hcalm.clock
    | serve k h h' => trivial

/-- What the history says of a stage it says of its end too. -/
theorem Holds.or_closed {past : History} {clock : ℤ} {i : ℕ} {stage stage' : Stage}
    (hstage : stage' = stage ∨ stage' = .closed) (h : Holds past clock i stage) :
    Holds past clock i stage' := by
  rcases hstage with rfl | rfl
  · exact h
  · trivial

/-- A turn that leaves the list of tokens and issues none keeps a world sound. -/
theorem Sound.turn_same {i : ℕ} {d : Daemon} {c : Handshake} {event : Event} (h : Sound w)
    (hdevices : d.devices.inner.tokens = w.daemon.devices.inner.tokens)
    (hquiet : ∀ τ, event ≠ .issued τ)
    (hc : Holds (w.past.record i w.clock (w.stage i) event).tick w.clock i c.stage) :
    Sound (w.next i d c (w.past.record i w.clock (w.stage i) event).tick) :=
  h.turn (hdevices ▸ List.Sublist.refl _) hquiet hc

/-- **A turn of a connection keeps a world sound**, by its effect.  Only the effect `issued`
adds a token (`issued_turn`); the others leave the tokens or take some away, and what the
next stage knows of its token was known at the stage before or found in the store by this
turn. -/
theorem Sound.effect {i : ℕ} {env : Env} {d : Daemon} {c : Handshake} {event : Event}
    (h : Sound w) (hgrows : Grows w.past (w.past.record i w.clock (w.stage i) event).tick)
    (hfresh : w.past.tokens env.token = none)
    (heffect : (w.conns i).Effect env w.daemon w.clock (d, c, event)) :
    Sound (w.next i d c (w.past.record i w.clock (w.stage i) event).tick) := by
  have hkeep := (h.conns i).mono hgrows le_rfl
  cases heffect with
  | quiet c' hstage => exact h.turn_same rfl nofun (hkeep.or_closed hstage)
  | challenged c' hello hstage hstage' =>
    refine h.turn_same rfl nofun ?_
    rw [hstage']
    exact le_rfl
  | validated c' payload rest hello uid hstage hframe hdecode hlive hstage' =>
    refine h.turn_same rfl nofun ?_
    obtain ⟨t, -, e, hstored, huid, -⟩ := h.exists_of_validateToken hlive
    rw [hstage']
    exact ⟨le_rfl, e, hstored.issued, huid⟩
  | dropped c' hello now uid hstage hstage' =>
    have hstage : w.stage i = .dropping hello now uid := hstage
    rw [hstage] at hkeep
    refine h.turn ?_ nofun (Holds.or_closed hstage' hkeep)
    rw [DeviceStore.inner_dropToken]
    exact List.filter_sublist
  | refused c' hello now challenge n hstage hstage' =>
    exact h.turn_same rfl nofun (hkeep.or_closed (.inr hstage'))
  | consumed c' hello now challenge reply rest e uid hstage hframe hdecode hspent hstage' =>
    have hstage : w.stage i = .replying hello now challenge := hstage
    rw [hstage] at hkeep
    refine h.turn_same rfl nofun ?_
    rcases hstage' with hstage' | ⟨reg, -, hstage'⟩
    · rw [hstage']
      trivial
    · rw [hstage']
      exact hkeep
  | registered c' hello now reg hstage hstage' =>
    have hstage : w.stage i = .registering hello now reg := hstage
    rw [hstage] at hkeep
    exact h.turn_same (by rw [DeviceStore.inner_register]) nofun (Holds.or_closed hstage' hkeep)
  | found c' hello now challenge credentialId reg signCount hstage hfind hstage' =>
    have hstage : w.stage i = .replying hello now challenge := hstage
    rw [hstage] at hkeep
    exact h.turn_same rfl nofun (Holds.or_closed (.inl hstage') hkeep)
  | touched c' hello now uid credentialId signCount hstage hstage' =>
    have hstage : w.stage i = .touching hello now uid credentialId signCount := hstage
    rw [hstage] at hkeep
    exact h.turn_same (by rw [DeviceStore.tokens_touched]) nofun (Holds.or_closed hstage' hkeep)
  | issued c' hello now uid credentialId hstage hstage' =>
    obtain ⟨e, he⟩ := h.issues hstage
    exact h.issued_turn hfresh he (hstage'.imp_left fun hc => ⟨hello, hc⟩)
  | resolved c' d' hello uid token spawned answered hstage hdevices hnonces hspawned hnone
      hstage' =>
    have hstage : w.stage i = .resolving hello uid token := hstage
    refine h.turn_same (by rw [hdevices]) nofun ?_
    cases answered with
    | false =>
      rw [hstage']
      trivial
    | true =>
      have hi := h.conns i
      rw [hstage] at hi
      obtain ⟨e, he, huid, hconn⟩ := hi
      rw [hstage', hstage]
      exact ⟨token, e, List.mem_append_right _ (List.mem_singleton.2 rfl), he, huid, hconn⟩
  | attached c' payload rest hello authUid k s handler hstage hframe hdecode hget htoken howner
      hstage' =>
    refine h.turn_same rfl nofun ?_
    rw [hstage']
    trivial

/-- **Every action keeps a world sound.** -/
theorem Sound.change {a : Action} {w' : World} (h : Sound w) (hc : Change rp w a w') :
    Sound w' := by
  have hgrows := hc.grows
  cases hc with
  | calm hcalm => exact h.calm hgrows hcalm
  | nonce uid n hfresh =>
    exact h.of_tokens_eq hgrows le_rfl (List.Sublist.refl _) rfl (fun _ hx => .inl hx)
      (fun i => (h.since i).trans (Nat.le_succ _)) fun i => (h.conns i).mono hgrows le_rfl
  | revoked devices p q hinner =>
    refine h.of_tokens_eq hgrows le_rfl ?_ rfl (fun _ hx => .inl hx)
      (fun i => (h.since i).trans (Nat.le_succ _)) fun i => (h.conns i).mono hgrows le_rfl
    rw [hinner]
    exact List.filter_sublist
  | turn i env d c event hfresh heffect => exact h.effect hgrows hfresh heffect

/-- An empty daemon is sound. -/
theorem sound_start (clock : ℤ) : Sound { clock } where
  stored t ht := absurd ht List.not_mem_nil
  distinct := List.nodup_nil
  issued τ e he := by cases he
  answered x hx := absurd hx List.not_mem_nil
  since _ := le_rfl
  conns _ := trivial

/-! ### What holds of every run -/

/-- One action more. -/
theorem Reachable.act (h : w.Reachable rp) {a : Action} (hallows : w.Allows a) :
    (w.act rp a).Reachable rp := by
  obtain ⟨clock, h⟩ := h
  exact ⟨clock, .act h a hallows trivial⟩

/-- A run more. -/
theorem Reachable.run {ok : World → Action → Prop} {w' : World} (h : w.Reachable rp)
    (hrun : (world rp).Run ok w w') : w'.Reachable rp := by
  obtain ⟨clock, h⟩ := h
  exact ⟨clock, h.trans hrun.any⟩

/-- **What every action of a run preserves holds at its end**, for a run from a world that
is reached. -/
theorem Reachable.invariant {ok : World → Action → Prop} {I : World → Prop} {w' : World}
    (h : w.Reachable rp) (hrun : (world rp).Run ok w w') (hstart : I w)
    (hchange : ∀ w₁ a w₂, w₁.Reachable rp → w.past.stamp ≤ w₁.past.stamp → I w₁ → ok w₁ a →
      Change rp w₁ a w₂ → I w₂) : I w' := by
  have hend : I w' ∧ w.past.stamp ≤ w'.past.stamp := by
    refine hrun.invariant (I := fun w₁ => I w₁ ∧ w.past.stamp ≤ w₁.past.stamp)
      ⟨hstart, le_rfl⟩ fun w₁ a hrun₁ hw₁ hallows hok => ?_
    have hc : Change rp w₁ a (w₁.act rp a) := World.change hallows
    exact ⟨hchange w₁ a _ (h.run hrun₁) hw₁.2 hw₁.1 hok hc, hw₁.2.trans hc.grows.stamp.le⟩
  exact hend.1

/-- What holds of an empty daemon and every action preserves holds of every world that is
reached. -/
theorem Reachable.induction {I : World → Prop} (h : w.Reachable rp)
    (hstart : ∀ clock, I { clock })
    (hchange : ∀ w₁ a w₂, w₁.Reachable rp → I w₁ → Change rp w₁ a w₂ → I w₂) : I w := by
  obtain ⟨clock, hrun⟩ := h
  exact Reachable.invariant ⟨clock, .refl⟩ hrun (hstart clock)
    fun w₁ a w₂ hw₁ _ hI _ hc => hchange w₁ a w₂ hw₁ hI hc

/-- **Every world that is reached is sound.** -/
theorem Reachable.sound (h : w.Reachable rp) : Sound w :=
  h.induction sound_start fun _ _ _ _ hs hc => hs.change hc

end World
end Quosh
