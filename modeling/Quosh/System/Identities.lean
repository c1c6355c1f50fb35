/-
# Sessions keep who they are

A session has its id, its token and its user for as long as it exists (`Session.identity`), and
the place that the map of the daemon has for an id is that of a session of this id.  `Keeps` is
what an action makes of the sessions: nothing, or one more.

That an id names one session is up to the generator: in the runs in which no id is drawn a second
time (`Draws`) the sessions are `Orderly`, so that who presents an id and gets a session gets
the one it was told of (`Orderly.get_eq`).
-/

import Quosh.System.Provenance

namespace Quosh

open Bytes

/-- The ids, tokens and users of all sessions, in their places. -/
def Daemon.identities (d : Daemon) : List (FixedBytes 16 × FixedBytes 32 × ℕ) :=
  d.heap.map Session.identity

/-- What can become of the sessions, with an id that was drawn or without one. -/
inductive Daemon.Keeps (d : Daemon) : Option (FixedBytes 16) → Daemon → Prop
  | same {drawn : Option (FixedBytes 16)} {d' : Daemon} (hheap : d'.identities = d.identities)
    (hsessions : d'.sessions ⊆ d.sessions) : Keeps d drawn d'
  | spawned {d' : Daemon} (id : FixedBytes 16) (token : FixedBytes 32) (uid : ℕ)
    (hheap : d'.identities = d.identities ++ [(id, token, uid)])
    (hsessions : d'.sessions = d.sessions.filter (fun e => e.1 ≠ id) ++ [(id, d.heap.length)]) :
    Keeps d (some id) d'

namespace Daemon

variable {d d' : Daemon} {id : FixedBytes 16} {drawn : Option (FixedBytes 16)}

theorem Keeps.refl (d : Daemon) (drawn : Option (FixedBytes 16)) : Keeps d drawn d :=
  .same rfl fun _ h => h

/-- The list of sessions only grows. -/
theorem Keeps.isPrefix (h : Keeps d drawn d') : d.identities <+: d'.identities := by
  cases h with
  | same hheap => exact hheap ▸ List.prefix_rfl
  | spawned id token uid hheap =>
    rw [hheap]
    exact List.prefix_append ..

/-- A session that is put in the place of what it was. -/
theorem identities_set {heap : List Session} {k : ℕ} {s s' : Session} (hget : heap[k]? = some s)
    (hsame : s'.identity = s.identity) :
    (heap.set k s').map Session.identity = heap.map Session.identity := by
  obtain ⟨hlt, rfl⟩ := List.getElem?_eq_some_iff.1 hget
  rw [List.map_set, hsame]
  apply List.ext_getElem?
  intro j
  rw [List.getElem?_set, List.getElem?_map]
  by_cases hj : k = j
  · subst hj
    rw [if_pos rfl, if_pos (by rwa [List.length_map]), List.getElem?_eq_getElem hlt]
    rfl
  · rw [if_neg hj]

/-- **What `spawn_session` leaves** of the sessions. -/
theorem spawnSession_keeps (d : Daemon) (spawn : Except String Unit) (id : FixedBytes 16)
    (token : FixedBytes 32) (uid cols rows : ℕ) :
    Keeps d (some id) (d.spawnSession spawn id token uid cols rows).2 ∧
      ∀ x, (d.spawnSession spawn id token uid cols rows).1 = .ok x →
        x = (id, token) ∧
          (id, token, uid) ∈ (d.spawnSession spawn id token uid cols rows).2.identities := by
  unfold spawnSession
  split
  · split
    · exact ⟨.refl .., fun x hx => by cases hx⟩
    · split
      · exact ⟨.refl .., fun x hx => by cases hx⟩
      · split
        · exact ⟨.refl .., fun x hx => by cases hx⟩
        · have hheap (s : Session) : (d.heap ++ [s]).map Session.identity =
              d.heap.map Session.identity ++ [s.identity] := List.map_append
          refine ⟨.spawned id token uid (hheap _) rfl, fun x hx => ?_⟩
          cases hx
          refine ⟨rfl, ?_⟩
          unfold identities
          rw [hheap]
          exact List.mem_append_right _ (List.mem_singleton_self _)
  · split <;> exact ⟨.refl .., fun x hx => by cases hx⟩

/-- The session under an id is there. -/
theorem identity_of_get {k : ℕ} {s : Session} (h : d.get id = some (k, s)) :
    d.identities[k]? = some s.identity := by
  unfold identities
  rw [List.getElem?_map, heap_of_get h]
  rfl

/-- The map has a place for the id of a session that it finds. -/
theorem mem_of_get {k : ℕ} {s : Session} (h : d.get id = some (k, s)) : (id, k) ∈ d.sessions := by
  obtain ⟨⟨id', k'⟩, hfind, h⟩ := Option.bind_eq_some_iff.1 h
  obtain ⟨s', hs', h⟩ := Option.bind_eq_some_iff.1 h
  cases h
  obtain rfl : id' = id := by simpa using List.find?_some hfind
  exact List.mem_of_find?_eq_some hfind

/-- The ids of the map are those of the sessions in their places, and no id is another's. -/
structure Orderly (d : Daemon) : Prop where
  ids : (d.identities.map Prod.fst).Nodup
  places : ∀ e ∈ d.sessions, (d.identities.map Prod.fst)[e.2]? = some e.1

/-- **What becomes of the sessions leaves them orderly**, if the id is a new one. -/
theorem Orderly.keeps (h : Orderly d) (hkeeps : Keeps d drawn d')
    (hnew : ∀ id ∈ drawn, id ∉ d.identities.map Prod.fst) : Orderly d' := by
  cases hkeeps with
  | same hheap hsessions =>
    refine ⟨hheap ▸ h.ids, fun e he => ?_⟩
    rw [hheap]
    exact h.places e (hsessions he)
  | spawned id token uid hheap hsessions =>
    have hnew : id ∉ d.identities.map Prod.fst := hnew id rfl
    have hmap : d'.identities.map Prod.fst = d.identities.map Prod.fst ++ [id] := by
      rw [hheap, List.map_append]
      rfl
    constructor
    · rw [hmap]
      exact List.Nodup.append h.ids (List.nodup_singleton id) (by simpa using hnew)
    · intro e he
      rw [hmap]
      rw [hsessions] at he
      rcases List.mem_append.1 he with he | he
      · have hplace := h.places e (List.mem_filter.1 he).1
        rw [List.getElem?_append_left (List.getElem?_eq_some_iff.1 hplace).1]
        exact hplace
      · have hlength : (d.identities.map Prod.fst).length = d.heap.length := by
          unfold identities
          rw [List.length_map, List.length_map]
        rw [List.mem_singleton.1 he, ← hlength]
        exact List.getElem?_concat_length

/-- **An id gets the session of this id**, and there is one. -/
theorem Orderly.get_eq (h : Orderly d) {token : FixedBytes 32} {uid k : ℕ} {s : Session}
    (hmem : (id, token, uid) ∈ d.identities) (hget : d.get id = some (k, s)) :
    s.identity = (id, token, uid) := by
  have hplace : (d.identities.map Prod.fst)[k]? = some id := h.places _ (mem_of_get hget)
  have hs := identity_of_get hget
  have hsmem : s.identity ∈ d.identities := List.mem_of_getElem? hs
  rw [List.getElem?_map, hs] at hplace
  exact List.inj_on_of_nodup_map h.ids hsmem hmem (Option.some.inj hplace)

/-- An id that the map has a place for gets a session. -/
theorem Orderly.exists_get (h : Orderly d) {e : FixedBytes 16 × ℕ} (he : e ∈ d.sessions)
    (hid : e.1 = id) : ∃ k s, d.get id = some (k, s) := by
  unfold get
  cases hfind : d.sessions.find? fun e => e.1 = id with
  | none => exact absurd (decide_eq_true hid) (List.find?_eq_none.1 hfind e he)
  | some e' =>
    have hplace := h.places e' (List.mem_of_find?_eq_some hfind)
    obtain ⟨hlt, -⟩ := List.getElem?_eq_some_iff.1 hplace
    unfold identities at hlt
    rw [List.length_map, List.length_map] at hlt
    exact ⟨e'.2, d.heap[e'.2], by simp [List.getElem?_eq_getElem hlt]⟩

/-- **A hello that presents a session** and its token, for nobody else than its user: the connection
is attached to the session as long as the map has it, and then there is no such session. -/
theorem Orderly.onHello_session (h : Orderly d) {token : FixedBytes 32} {uid : ℕ}
    (hmem : (id, token, uid) ∈ d.identities) {hello : Hello}
    (hprotocol : hello.protocol = protocolVersion) (htyped : hello.Typed)
    (hid : hello.sessionId = id) (htoken : hello.token = token) {authUid : Option ℕ}
    (hauth : ∀ u, authUid = some u → u = uid) (c : Handshake) :
    ((∃ e ∈ d.sessions, e.1 = id) →
      ∃ k handler, (Handshake.onHello d c authUid msgHello hello.payload).2.1 =
        { c with stage := .attached k handler } ∧ d.identities[k]? = some (id, token, uid)) ∧
    ((¬∃ e ∈ d.sessions, e.1 = id) →
      (Handshake.onHello d c authUid msgHello hello.payload).2.1 =
        c.reject 2 "unknown session") := by
  have hdecode : Hello.decode hello.payload = .ok hello := (Hello.decode_iff _ _).2 ⟨htyped, rfl⟩
  unfold Handshake.onHello receive
  rw [if_neg (not_not.2 rfl), hdecode]
  dsimp only
  rw [if_neg (not_not.2 hprotocol), hid]
  cases hget : d.get id with
  | none =>
    refine ⟨fun ⟨e, he, heq⟩ => ?_, fun _ => rfl⟩
    obtain ⟨k, s, hsome⟩ := h.exists_get he heq
    rw [hget] at hsome
    cases hsome
  | some x =>
    obtain ⟨k, s⟩ := x
    have hsame := h.get_eq hmem hget
    obtain ⟨hstoken, hsuid⟩ := Prod.mk.inj (Prod.mk.inj hsame).2
    have howner : ¬(authUid.any fun u => s.uid ≠ u) = true := by
      cases authUid with
      | none => exact Bool.false_ne_true
      | some u => simp [hsuid, hauth u rfl]
    dsimp only
    rw [if_neg (not_not.2 (hstoken.trans htoken.symm)), if_neg howner]
    exact ⟨fun _ => ⟨k, _, rfl, hsame ▸ identity_of_get hget⟩,
      fun hnone => absurd ⟨_, mem_of_get hget, rfl⟩ hnone⟩

/-- **What `resolve_session` leaves** of the sessions, and the session that it names. -/
theorem resolveSession_keeps (d : Daemon) (env : Env) (uid : ℕ) (hello : AuthHello)
    (cols rows : ℕ) :
    Keeps d (some env.sessionId) (resolveSession d env uid hello cols rows).2 := by
  unfold resolveSession
  split
  · exact (d.spawnSession_keeps env.spawn env.sessionId env.sessionToken uid cols rows).1
  · split
    · split <;> exact .refl ..
    · exact .refl ..

/-- **The session of a handshake is the user's**, and the one that was asked for.  A session
that is started gets the uid of the handshake; one that is found was checked for it and its
token. -/
theorem Orderly.resolveSession_eq_ok (h : Orderly d) {env : Env} {uid : ℕ} {hello : AuthHello}
    {cols rows : ℕ} {sessionId : FixedBytes 16} {sessionToken : FixedBytes 32}
    (hok : resolveSession d env uid hello cols rows = (.ok (sessionId, sessionToken), d')) :
    (sessionId, sessionToken, uid) ∈ d'.identities ∧
      (hello.sessionId.1 ≠ List.replicate 16 0 → sessionId = hello.sessionId) := by
  unfold resolveSession at hok
  split at hok
  · rename_i hzero
    obtain ⟨hids, hmem⟩ :=
      (d.spawnSession_keeps env.spawn env.sessionId env.sessionToken uid cols rows).2 _
        (congrArg Prod.fst hok)
    cases hids
    rw [hok] at hmem
    exact ⟨hmem, fun hne => absurd hzero hne⟩
  · split at hok
    · rename_i k s hget
      split at hok
      · rename_i hs
        cases hok
        refine ⟨?_, fun _ => rfl⟩
        have hsmem := List.mem_of_getElem? (identity_of_get hget)
        have hplace : (d.identities.map Prod.fst)[k]? = some hello.sessionId :=
          h.places _ (mem_of_get hget)
        rw [List.getElem?_map, identity_of_get hget] at hplace
        have hsame : s.identity = (hello.sessionId, hello.sessionToken, uid) := by
          rw [← hs.1, ← hs.2, ← Option.some.inj hplace]
          rfl
        rwa [hsame] at hsmem
      · cases hok
    · cases hok

end Daemon

namespace World

variable {rp : Relying} {w w' : World} {a : Action}

/-- The id that is drawn in an action, whether it is used or not. -/
def drawnId : Action → Option (FixedBytes 16)
  | .turn _ env => some env.sessionId
  | .create _ _ _ id _ _ => some id
  | _ => none

/-- **What a turn makes of the sessions.**  Only two effects touch them: an attachment,
which leaves what a session is, and the resolution of a handshake, which may start one. -/
theorem turn_keeps (rp : Relying) (env : Env) (d : Daemon) (c : Handshake) (clock : ℤ) :
    d.Keeps (some env.sessionId) (c.turn rp env d clock).1 := by
  have heffect := c.turn_effect rp env d clock
  generalize hr : c.turn rp env d clock = r at heffect
  cases heffect with
  | attached c' payload rest hello authUid k s handler hstage hframe hdecode hget htoken howner
      hstage' =>
    exact .same (Daemon.identities_set (Daemon.heap_of_get hget) rfl) fun _ h => h
  | resolved c' d' hello uid token spawned answered hstage hdevices hnonces hspawned hnone
      hstage' =>
    have hd : d' = (c.turn rp env d clock).1 := by rw [hr]
    rw [hd]
    unfold Handshake.turn
    rw [hstage]
    dsimp only
    unfold Handshake.onResolve
    split
    · exact .refl ..
    · rename_i hashes hhashes
      have hkeeps := d.resolveSession_keeps env uid hello
        (if hello.cols = 0 then 80 else hello.cols) (if hello.rows = 0 then 24 else hello.rows)
      dsimp only
      split
      · rename_i hresolve
        rwa [hresolve] at hkeeps
      · rename_i hresolve
        rw [hresolve] at hkeeps
        split
        · exact hkeeps
        · split <;> exact hkeeps
  | _ => exact .same rfl fun _ h => h

/-- **What an action makes of the sessions.** -/
theorem act_keeps (rp : Relying) (hallows : w.Allows a) :
    w.daemon.Keeps (drawnId a) (w.act rp a).daemon := by
  cases a with
  | turn i env => exact turn_keeps rp env w.daemon (w.conns i) w.clock
  | create uid cols rows id token spawn => exact (w.daemon.spawnSession_keeps ..).1
  | session k s =>
    obtain ⟨s₀, hget, hid, htoken, huid⟩ := hallows
    refine .same (Daemon.identities_set hget ?_) fun _ h => h
    unfold Session.identity
    rw [hid, htoken, huid]
  | remove id => exact .same rfl fun _ h => (List.mem_filter.1 h).1
  | serve i b =>
    show w.daemon.Keeps _ (w.serve i b).daemon
    unfold World.serve
    split
    · rename_i k h hstage
      split
      · exact .refl ..
      · rename_i s hget
        exact .same (Daemon.identities_set hget (h.serve_identity s b)) fun _ h => h
    · exact .refl ..
  | _ => exact .same rfl fun _ h => h

/-- The generator draws no id of a session once more, and a user has a number of 32 bits. -/
def Draws (w : World) : Action → Prop
  | .turn _ env => env.sessionId ∉ w.daemon.identities.map Prod.fst
  | .create _ _ _ id _ _ => id ∉ w.daemon.identities.map Prod.fst
  | .enrollNonce uid _ => uid < 2 ^ 32
  | _ => True

/-- The sessions are orderly, and nonces are issued to users. -/
structure Orderly (w : World) : Prop where
  sessions : w.daemon.Orderly
  nonces : ∀ n uid clock, w.past.nonces n = some (uid, clock) → uid < 2 ^ 32

/-- **Every action leaves the sessions orderly.** -/
theorem Orderly.act (h : Orderly w) (hallows : w.Allows a) (hdraws : w.Draws a) :
    Orderly (w.act rp a) := by
  constructor
  · refine h.sessions.keeps (act_keeps rp hallows) fun id hid => ?_
    cases a with
    | turn i env =>
      cases hid
      exact hdraws
    | create uid' cols rows id token' spawn =>
      cases hid
      exact hdraws
    | _ => cases hid
  · intro n uid clock hn
    rcases nonces_act rp w a with hsame | ⟨uid', n', rfl, hupdate⟩
    · exact h.nonces n uid clock (hsame ▸ hn)
    · rw [hupdate] at hn
      by_cases hnn : n = n'
      · subst hnn
        rw [Function.update_self] at hn
        cases hn
        exact hdraws
      · rw [Function.update_of_ne hnn] at hn
        exact h.nonces n uid clock hn

/-- Every run keeps a daemon orderly. -/
theorem Orderly.run (h : Orderly w) (hrun : (world rp).Run Draws w w') : Orderly w' :=
  hrun.invariant h fun _ _ _ ht hallows hok => ht.act hallows hok

/-- An empty daemon is orderly. -/
theorem orderly_start (clock : ℤ) : Orderly { clock } where
  sessions := ⟨List.nodup_nil, fun e he => absurd he List.not_mem_nil⟩
  nonces n uid clock hn := by cases hn

/-- The user of a token has a number of 32 bits. -/
theorem Orderly.uid_lt (h : Orderly w) (htraced : Traced w) {τ : FixedBytes 32} {e : Issue}
    (he : w.past.tokens τ = some e) : e.uid < 2 ^ 32 := by
  obtain ⟨x, -, -, clock, hclock⟩ := htraced.tokens τ e he
  exact h.nonces _ _ _ hclock

end World
end Quosh
