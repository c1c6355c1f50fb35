/-
# The limits on sessions

`spawn_session` and `create` of `crates/quosh-server/src/helper.rs`, `resolve_session` of
`auth.rs`, the end of `Owner::run` in `session.rs` and `destroy`: what holds the lock of the
registry, one section after the other.  A `create` has two sections, with those of others in
between; an owner takes its session out of the map when it likes.  The ids of sessions are
drawn at random, and are not those of sessions that live.

The limits are checked in the section that inserts, so it does not matter what came before it:
they are part of an invariant (`Sound`) that every section keeps.  A section that takes
sessions out is `Shrinks`; one that inserts is described once (`spawnSession_cases`).
-/

import Quosh.Control.Machine
import Quosh.Data.Entries
import Quosh.Server.Auth
import Quosh.Server.Requests

namespace Quosh

open Bytes

namespace Daemon

/-- The user of a session of the map. -/
def userOf (d : Daemon) (e : FixedBytes 16 × ℕ) : Option ℕ := (d.heap[e.2]?).map Session.uid

variable {d d' d'' : Daemon} {uid : ℕ} {id : FixedBytes 16} {e : FixedBytes 16 × ℕ}

/-- What `countUid` counts. -/
theorem countUid_eq (d : Daemon) (uid : ℕ) :
    d.countUid uid = (d.sessions.filter fun e => d.userOf e = some uid).length := by
  unfold countUid
  congr 2
  funext e
  rw [userOf]
  cases d.heap[e.2]? <;> simp

/-- **The limits hold**, under names that are different, for sessions that were started. -/
structure Sound (d : Daemon) : Prop where
  names : (d.sessions.map Prod.fst).Nodup
  placed : ∀ e ∈ d.sessions, e.2 < d.heap.length
  total : d.sessions.length ≤ maxSessions
  perUid : ∀ uid, d.countUid uid ≤ maxPerUid

/-! ### Sessions that leave -/

/-- Sessions have left the map, and those that were started are whose they were. -/
structure Shrinks (d d' : Daemon) : Prop where
  sub : d'.sessions.Sublist d.sessions
  users : d'.heap.map Session.uid = d.heap.map Session.uid

namespace Shrinks

theorem refl (d : Daemon) : Shrinks d d := ⟨List.Sublist.refl _, rfl⟩

theorem trans (h : Shrinks d d') (h' : Shrinks d' d'') : Shrinks d d'' :=
  ⟨h'.sub.trans h.sub, h'.users.trans h.users⟩

/-- A session leaves the map. -/
theorem remove (d : Daemon) (id : FixedBytes 16) : Shrinks d (d.remove id) :=
  ⟨List.filter_sublist, rfl⟩

/-- The sessions that stay are their users'. -/
theorem userOf_eq (h : Shrinks d d') (e : FixedBytes 16 × ℕ) : d'.userOf e = d.userOf e := by
  have hget := congrArg (fun us : List ℕ => us[e.2]?) h.users
  simpa only [userOf, List.getElem?_map] using hget

/-- No user has more of them. -/
theorem countUid_le (h : Shrinks d d') (uid : ℕ) : d'.countUid uid ≤ d.countUid uid := by
  rw [countUid_eq, countUid_eq]
  simp only [h.userOf_eq]
  exact (h.sub.filter _).length_le

/-- **A section that takes sessions out** keeps the limits. -/
theorem sound (h : Shrinks d d') (hd : d.Sound) : d'.Sound where
  names := hd.names.sublist (h.sub.map _)
  placed e he := by
    have hlen := congrArg List.length h.users
    rw [List.length_map, List.length_map] at hlen
    exact hlen ▸ hd.placed e (h.sub.subset he)
  total := h.sub.length_le.trans hd.total
  perUid uid := (h.countUid_le uid).trans (hd.perUid uid)

/-- A session is destroyed. -/
theorem destroy (d : Daemon) (id : FixedBytes 16) : Shrinks d (d.destroy id) := by
  unfold Daemon.destroy
  split
  · exact refl d
  · exact ⟨List.filter_sublist,
      @Entries.map_modify_of_eq _ _ _ Session.uid Session.requestHangup (fun _ => rfl) _⟩

/-- Any number of them are. -/
theorem destroyAll (d : Daemon) (ids : List (FixedBytes 16)) :
    Shrinks d (ids.foldl Daemon.destroy d) := by
  induction ids generalizing d with
  | nil => exact refl d
  | cons id ids ih => exact (destroy d id).trans (ih _)

/-- Idle sessions are destroyed. -/
theorem killIdle (d : Daemon) (cells : ℕ → Cells) (instant uid : ℕ) (kill : Bool) :
    Shrinks d (d.killIdle cells instant uid kill).2 := by
  unfold Daemon.killIdle
  dsimp only
  split
  · exact destroyAll d _
  · exact refl d

end Shrinks

/-- A session stays that is destroyed under another name. -/
theorem mem_destroy (he : e ∈ d.sessions) (hid : e.1 ≠ id) : e ∈ (d.destroy id).sessions := by
  unfold destroy
  split
  · exact he
  · exact List.mem_filter.2 ⟨he, decide_eq_true hid⟩

/-- A session that is not among them stays. -/
theorem mem_destroyAll {ids : List (FixedBytes 16)} (he : e ∈ d.sessions) (hids : e.1 ∉ ids) :
    e ∈ (ids.foldl Daemon.destroy d).sessions := by
  induction ids generalizing d with
  | nil => exact he
  | cons id ids ih =>
    rw [List.mem_cons, not_or] at hids
    exact ih (mem_destroy he hids.1) hids.2

/-- **What a look for idle sessions takes out**: with `kill_idle`, those of the user that have
been detached for long. -/
theorem removed_killIdle {cells : ℕ → Cells} {instant : ℕ} {kill : Bool} (hd : d.Sound)
    (he : e ∈ d.sessions) (hgone : e ∉ (d.killIdle cells instant uid kill).2.sessions) :
    kill = true ∧ d.userOf e = some uid ∧
      ∃ secs, (cells e.2).detachedSecs instant = some secs ∧ idleSecs ≤ secs := by
  unfold killIdle at hgone
  dsimp only at hgone
  split at hgone
  · rename_i hkill
    have hmem : e.1 ∈ (collectIdle (d.listed cells) uid instant).map Prod.fst :=
      by_contra fun hnot => hgone (mem_destroyAll he hnot)
    obtain ⟨⟨id, secs⟩, hidle, hid⟩ := List.mem_map.1 hmem
    obtain ⟨l, hl, hsecs⟩ := List.mem_filterMap.1 hidle
    obtain ⟨hlisted, huid⟩ := List.mem_filter.1 hl
    obtain ⟨e', he', hsome⟩ := List.mem_filterMap.1 hlisted
    obtain ⟨s, hs, rfl⟩ := Option.map_eq_some_iff.1 hsome
    obtain ⟨secs', hsecs', hpair⟩ := Option.map_eq_some_iff.1 hsecs
    cases hpair
    obtain rfl : e' = e := List.inj_on_of_nodup_map hd.names he' he hid
    obtain ⟨hdetached, hle⟩ := Option.filter_eq_some_iff.1 hsecs'
    refine ⟨hkill, ?_, secs, hdetached, of_decide_eq_true hle⟩
    rw [userOf, hs]
    exact congrArg some (of_decide_eq_true huid)
  · exact absurd he hgone

/-! ### Sessions that are started -/

/-- **What `spawn_session` does**: nothing, or below the limits it puts a session of the user
in the map. -/
theorem spawnSession_cases (d : Daemon) (spawn : Except String Unit) (id : FixedBytes 16)
    (token : FixedBytes 32) (uid cols rows : ℕ) :
    (∃ m, d.spawnSession spawn id token uid cols rows = (.error m, d)) ∨
      d.sessions.length < maxSessions ∧ d.countUid uid < maxPerUid ∧
        d.spawnSession spawn id token uid cols rows = (.ok (id, token),
          { d with
            sessions := d.sessions.filter (fun e => e.1 ≠ id) ++ [(id, d.heap.length)]
            heap := d.heap ++ [{ id, token, uid, size := (cols, rows) }] }) := by
  unfold spawnSession
  split
  · split
    · exact .inl ⟨_, rfl⟩
    · rename_i htotal
      split
      · exact .inl ⟨_, rfl⟩
      · rename_i hper
        split
        · exact .inl ⟨_, rfl⟩
        · exact .inr ⟨Nat.lt_of_not_le htotal, Nat.lt_of_not_le hper, rfl⟩
  · split <;> exact .inl ⟨_, rfl⟩

/-- A session that is started is one more of its user. -/
theorem countUid_insert (hplaced : ∀ e ∈ d.sessions, e.2 < d.heap.length) (s : Session)
    (u : ℕ) : ({ d with
      sessions := d.sessions ++ [(id, d.heap.length)], heap := d.heap ++ [s] } : Daemon).countUid u
        = d.countUid u + if s.uid = u then 1 else 0 := by
  have hnew : (d.heap ++ [s])[d.heap.length]? = some s := List.getElem?_concat_length
  have hold : (d.sessions.filter fun e => ((d.heap ++ [s])[e.2]?).any fun s => s.uid = u) =
      d.sessions.filter fun e => (d.heap[e.2]?).any fun s => s.uid = u :=
    List.filter_congr fun e he => by rw [List.getElem?_append_left (hplaced e he)]
  unfold countUid
  dsimp only
  rw [List.filter_append, hold, List.length_append, List.filter_singleton, hnew]
  by_cases hu : s.uid = u <;> simp [hu]

/-- **Below the limits** there is room for one more. -/
theorem Sound.insert (hd : d.Sound) {s : Session} (htotal : d.sessions.length < maxSessions)
    (hper : d.countUid s.uid < maxPerUid) (hid : ∀ e ∈ d.sessions, e.1 ≠ id) :
    ({ d with
      sessions := d.sessions ++ [(id, d.heap.length)]
      heap := d.heap ++ [s] } : Daemon).Sound where
  names := Entries.nodup_map_append hd.names hid
  placed e he := by
    rw [List.length_append, List.length_singleton]
    rcases List.mem_append.1 he with he | he
    · exact Nat.lt_succ_of_lt (hd.placed e he)
    · rw [List.mem_singleton.1 he]
      exact Nat.lt_succ_self _
  total := by
    rw [List.length_append, List.length_singleton]
    exact Nat.succ_le_of_lt htotal
  perUid u := by
    rw [countUid_insert hd.placed]
    split
    · rename_i hu
      exact Nat.succ_le_of_lt (hu ▸ hper)
    · exact hd.perUid u

/-- **A session that is started** keeps the limits. -/
theorem Sound.spawnSession (hd : d.Sound) (spawn : Except String Unit) (id : FixedBytes 16)
    (token : FixedBytes 32) (uid cols rows : ℕ) :
    (d.spawnSession spawn id token uid cols rows).2.Sound := by
  rcases spawnSession_cases d spawn id token uid cols rows with ⟨m, heq⟩ | ⟨htotal, hper, heq⟩
  · rw [heq]
    exact hd
  · rw [heq]
    have hleft : Shrinks d (d.remove id) := .remove d id
    exact (hleft.sound hd).insert (hleft.sub.length_le.trans_lt htotal)
      ((hleft.countUid_le uid).trans_lt hper) fun e he =>
        of_decide_eq_true (List.mem_filter.1 he).2

/-- Under a new name it takes nobody's place. -/
theorem mem_spawnSession {spawn : Except String Unit} {token : FixedBytes 32} {cols rows : ℕ}
    (he : e ∈ d.sessions) (hid : e.1 ≠ id) :
    e ∈ (d.spawnSession spawn id token uid cols rows).2.sessions := by
  rcases spawnSession_cases d spawn id token uid cols rows with ⟨m, heq⟩ | ⟨-, -, heq⟩
  · rw [heq]
    exact he
  · rw [heq]
    exact List.mem_append_left _ (List.mem_filter.2 ⟨he, decide_eq_true hid⟩)

/-! ### The sections of a create and of a handshake -/

/-- What `dispatch` answers with when nothing is wrong. -/
def okBase (port : ℕ) (hash : FixedBytes 32) : HelperResponse :=
  { ok := true, port := some port, certSha256 := some (hexEncode hash.1) }

/-- What the second section of a create leaves is what `spawn_session` leaves. -/
theorem createRest_snd (d : Daemon) (o : Outside) (uid : ℕ) (req : HelperRequest)
    (idle : List IdleInfo) (resp : HelperResponse) : ∃ cols rows,
      (d.createRest o uid req idle resp).2 =
        (d.spawnSession o.spawn o.sessionId o.sessionToken uid cols rows).2 := by
  refine ⟨if req.cols = 0 then 80 else req.cols, if req.rows = 0 then 24 else req.rows, ?_⟩
  unfold createRest
  dsimp only
  split
  · rename_i heq
    rw [heq]
  · rename_i heq
    rw [heq]

/-- **A create that fails** leaves the daemon as it was. -/
theorem createRest_failed {o : Outside} {req : HelperRequest} {idle : List IdleInfo} {port : ℕ}
    {hash : FixedBytes 32}
    (hfail : (d.createRest o uid req idle (okBase port hash)).1.ok = false) :
    (d.createRest o uid req idle (okBase port hash)).2 = d := by
  unfold createRest at hfail ⊢
  dsimp only at hfail ⊢
  split at hfail
  · cases hfail
  · rename_i m d' heq
    rcases spawnSession_cases d o.spawn o.sessionId o.sessionToken uid
      (if req.cols = 0 then 80 else req.cols) (if req.rows = 0 then 24 else req.rows) with
      ⟨m', hsame⟩ | ⟨-, -, hnew⟩
    · exact congrArg Prod.snd (heq.symm.trans hsame)
    · cases heq.symm.trans hnew

/-- What a handshake leaves is as before, or what `spawn_session` leaves. -/
theorem resolveSession_snd (d : Daemon) (env : Env) (uid : ℕ) (hello : AuthHello)
    (cols rows : ℕ) : (resolveSession d env uid hello cols rows).2 = d ∨
      (resolveSession d env uid hello cols rows).2 =
        (d.spawnSession env.spawn env.sessionId env.sessionToken uid cols rows).2 := by
  unfold resolveSession
  split
  · exact .inr rfl
  · split
    · split
      · exact .inl rfl
      · exact .inl rfl
    · exact .inl rfl

end Daemon

/-! ### Sections one after the other -/

/-- A create between its sections. -/
structure Creating where
  uid : ℕ
  req : HelperRequest
  idle : List IdleInfo

/-- The daemon, the cells of its sessions by their places, and the creates that are between
their sections. -/
structure Registry where
  daemon : Daemon := {}
  cells : ℕ → Cells := fun _ => { lastDetach := none }
  creating : ℕ → Option Creating := fun _ => none

namespace Registry

/-- What can happen: the two sections of a create, that of a handshake, the last one of an
owner and `destroy`, which hold the lock, and what handlers do to the cells of a session. -/
inductive Action where
  | look (i uid : ℕ) (req : HelperRequest) (instant : ℕ)
  | insert (i : ℕ) (o : Outside) (port : ℕ) (hash : FixedBytes 32)
  | resolve (env : Env) (uid : ℕ) (hello : AuthHello) (cols rows : ℕ)
  | exit (k : ℕ)
  | destroy (id : FixedBytes 16)
  | touch (k : ℕ) (cells : Cells)

/-- What the second section of a create answers. -/
def answer (w : Registry) (i : ℕ) (o : Outside) (port : ℕ) (hash : FixedBytes 32) :
    Option (HelperResponse × Daemon) :=
  (w.creating i).map fun c =>
    w.daemon.createRest o c.uid c.req c.idle (Daemon.okBase port hash)

/-- What an action does. -/
def act (w : Registry) : Action → Registry
  | .look i uid req instant =>
    let (idle, daemon) := w.daemon.killIdle w.cells instant uid req.killIdle
    { w with daemon, creating := Function.update w.creating i (some { uid, req, idle }) }
  | .insert i o port hash =>
    match w.answer i o port hash with
    | none => w
    | some (_, daemon) => { w with daemon, creating := Function.update w.creating i none }
  | .resolve env uid hello cols rows =>
    { w with daemon := (resolveSession w.daemon env uid hello cols rows).2 }
  | .exit k =>
    match w.daemon.heap[k]? with
    | none => w
    | some s => { w with daemon := w.daemon.remove s.id }
  | .destroy id => { w with daemon := w.daemon.destroy id }
  | .touch k cells => { w with cells := Function.update w.cells k cells }

/-- Ids are drawn that no session of the map has. -/
def Allows (w : Registry) : Action → Prop
  | .insert _ o _ _ => ∀ e ∈ w.daemon.sessions, e.1 ≠ o.sessionId
  | .resolve env _ _ _ _ => ∀ e ∈ w.daemon.sessions, e.1 ≠ env.sessionId
  | _ => True

/-- The registry and its sections. -/
def registry : Machine Registry Action := { Allows, act }

instance : (w : Registry) → (a : Action) → Decidable (registry.Allows w a)
  | w, .insert _ o _ _ => inferInstanceAs (Decidable (∀ e ∈ w.daemon.sessions, e.1 ≠ o.sessionId))
  | w, .resolve env _ _ _ _ =>
    inferInstanceAs (Decidable (∀ e ∈ w.daemon.sessions, e.1 ≠ env.sessionId))
  | _, .look .. => .isTrue trivial
  | _, .exit _ => .isTrue trivial
  | _, .destroy _ => .isTrue trivial
  | _, .touch .. => .isTrue trivial

/-- The user that a section of a create or of a handshake is for. -/
def user (w : Registry) : Action → Option ℕ
  | .look _ uid _ _ => some uid
  | .insert i _ _ _ => (w.creating i).map Creating.uid
  | .resolve _ uid _ _ _ => some uid
  | _ => none

/-- **What a section may do**: to other users' sessions, to those of the user, and when the
create fails. -/
structure Respects (w : Registry) (a : Action) : Prop where
  others : ∀ uid, w.user a = some uid → ∀ e ∈ w.daemon.sessions, w.daemon.userOf e ≠ some uid →
    e ∈ (w.act a).daemon.sessions
  idle : ∀ i uid req instant, a = .look i uid req instant → ∀ e ∈ w.daemon.sessions,
    e ∉ (w.act a).daemon.sessions → req.killIdle = true ∧
      ∃ secs, (w.cells e.2).detachedSecs instant = some secs ∧ idleSecs ≤ secs
  looked : ∀ i uid req instant, a = .look i uid req instant →
    (w.act a).daemon.sessions.Sublist w.daemon.sessions
  failed : ∀ i o port hash resp daemon, a = .insert i o port hash →
    w.answer i o port hash = some (resp, daemon) → resp.ok = false → (w.act a).daemon = w.daemon

variable {w w₀ : Registry} {a : Action}

/-- The second section of a create that has had the first one. -/
theorem daemon_insert {i : ℕ} {c : Creating} (hc : w.creating i = some c) (o : Outside)
    (port : ℕ) (hash : FixedBytes 32) : ∃ cols rows, (w.act (.insert i o port hash)).daemon =
      (w.daemon.spawnSession o.spawn o.sessionId o.sessionToken c.uid cols rows).2 := by
  obtain ⟨cols, rows, heq⟩ :=
    w.daemon.createRest_snd o c.uid c.req c.idle (Daemon.okBase port hash)
  refine ⟨cols, rows, ?_⟩
  rw [← heq, act, answer, hc]
  rfl

/-- There is none for others. -/
theorem act_insert_none {i : ℕ} (hc : w.creating i = none) (o : Outside) (port : ℕ)
    (hash : FixedBytes 32) : w.act (.insert i o port hash) = w := by
  rw [act, answer, hc]
  rfl

/-- **Every section** keeps the limits.  Sessions only leave the map, but for the one that
is inserted, and `spawn_session` checks both limits under the lock that it inserts under. -/
theorem sound_act (h : w.daemon.Sound) (a : Action) : (w.act a).daemon.Sound := by
  cases a with
  | look i uid req instant => exact (Daemon.Shrinks.killIdle ..).sound h
  | insert i o port hash =>
    cases hc : w.creating i with
    | none =>
      rw [act_insert_none hc]
      exact h
    | some c =>
      obtain ⟨cols, rows, heq⟩ := daemon_insert hc o port hash
      rw [heq]
      exact h.spawnSession ..
  | resolve env uid hello cols rows =>
    change (resolveSession w.daemon env uid hello cols rows).2.Sound
    rcases w.daemon.resolveSession_snd env uid hello cols rows with heq | heq
    · rw [heq]
      exact h
    · rw [heq]
      exact h.spawnSession ..
  | exit k =>
    unfold act
    dsimp only
    split
    · exact h
    · exact (Daemon.Shrinks.remove ..).sound h
  | destroy id => exact (Daemon.Shrinks.destroy ..).sound h
  | touch k cells => exact h

/-- **And respects** other users, those who are attached, and creates that fail.  What a
create kills are idle sessions of the user, who asked for that; a create that fails
afterwards leaves the map as it was. -/
theorem respects (h : w.daemon.Sound) (hallows : Allows w a) : w.Respects a where
  others uid huid e he hother := by
    cases a with
    | look i uid' req instant =>
      cases huid
      by_contra hgone
      exact hother (Daemon.removed_killIdle h he hgone).2.1
    | insert i o port hash =>
      cases hc : w.creating i with
      | none =>
        rw [act_insert_none hc]
        exact he
      | some c =>
        obtain ⟨cols, rows, heq⟩ := daemon_insert hc o port hash
        rw [heq]
        exact Daemon.mem_spawnSession he (hallows e he)
    | resolve env uid' hello cols rows =>
      change e ∈ (resolveSession w.daemon env uid' hello cols rows).2.sessions
      rcases w.daemon.resolveSession_snd env uid' hello cols rows with heq | heq
      · rw [heq]
        exact he
      · rw [heq]
        exact Daemon.mem_spawnSession he (hallows e he)
    | exit k => cases huid
    | destroy id => cases huid
    | touch k cells => cases huid
  idle := by
    rintro i uid req instant rfl e he hgone
    obtain ⟨hkill, -, hidle⟩ := Daemon.removed_killIdle h he hgone
    exact ⟨hkill, hidle⟩
  looked := by
    rintro i uid req instant rfl
    exact (Daemon.Shrinks.killIdle ..).sub
  failed := by
    rintro i o port hash resp daemon rfl hanswer hfail
    unfold act
    dsimp only
    rw [hanswer]
    obtain ⟨c, -, heq⟩ := Option.map_eq_some_iff.1 hanswer
    have hresp := congrArg Prod.fst heq
    have hdaemon := congrArg Prod.snd heq
    dsimp only at hresp hdaemon ⊢
    rw [← hdaemon]
    exact Daemon.createRest_failed (hresp ▸ hfail)

/-- **The limits hold**, whatever the order of the sections: there are never too many sessions,
nor too many of a user, and every section respects those that it should leave alone. -/
theorem limits_of_run (hstart : w₀.daemon.sessions = []) (h : registry.AnyRun w₀ w) :
    (w.daemon.sessions.length ≤ maxSessions ∧ ∀ uid, w.daemon.countUid uid ≤ maxPerUid) ∧
      ∀ a, registry.Allows w a → w.Respects a := by
  have hempty : w₀.daemon.Sound := by
    refine ⟨?_, ?_, ?_, fun uid => ?_⟩
    · rw [hstart]
      exact List.nodup_nil
    · rw [hstart]
      exact fun e he => nomatch he
    · rw [hstart]
      exact Nat.zero_le _
    · rw [Daemon.countUid_eq, hstart]
      exact Nat.zero_le _
  have hsound : w.daemon.Sound :=
    h.invariant (I := fun w => w.daemon.Sound) hempty fun _ a _ hw _ _ => sound_act hw a
  exact ⟨⟨hsound.total, hsound.perUid⟩, fun a hallows => respects hsound hallows⟩

/-- What a create draws. -/
def drawn (byte : UInt8) : Outside where
  now := 0
  instant := 0
  nonce := constBytes 16 0
  sessionId := constBytes 16 byte
  sessionToken := constBytes 32 byte
  write := .ok ()
  spawn := .ok ()
  hash := .error ""
  unixName := none

/-- Two users create sessions at once.  The one of the first is left alone, and goes when its
user creates another and asks for that, while the other user looks for idle ones as well. -/
def interleaved : List Action :=
  [.look 0 1000 { op := "create" } 0, .look 1 1001 { op := "create" } 0,
    .insert 1 (drawn 1) 443 (constBytes 32 3), .insert 0 (drawn 2) 443 (constBytes 32 3),
    .touch 1 { lastDetach := some 0 },
    .look 2 1000 { op := "create", killIdle := true } (1000 * idleSecs),
    .look 3 1001 { op := "create", killIdle := true } (1000 * idleSecs),
    .insert 2 (drawn 3) 443 (constBytes 32 3)]

theorem run_interleaved : registry.AnyRun {} (registry.acts {} interleaved) :=
  Machine.run_acts (by decide)

/-- The hypotheses of `limits_of_run` are satisfiable: of three sessions there are two. -/
theorem limits_of_run_interleaved :
    (registry.acts {} interleaved).daemon.sessions.map Prod.fst =
        [constBytes 16 1, constBytes 16 3] ∧
      ((registry.acts {} interleaved).daemon.sessions.length ≤ maxSessions ∧
        ∀ uid, (registry.acts {} interleaved).daemon.countUid uid ≤ maxPerUid) ∧
      ∀ a, registry.Allows (registry.acts {} interleaved) a →
        (registry.acts {} interleaved).Respects a :=
  ⟨by decide, limits_of_run rfl run_interleaved⟩

end Registry
end Quosh
