/-
# What an action does to one connection

`Change` says what an action does to the stores.  Here is what it does to one connection,
whoever takes a turn (`Moves`), and what it adds to each list of the history.  The
invariants that follow connections go by these instead of the calls of the stores.

What a connection does depends on its stage and on the turn, and a move is the pair of both.
For the lists of the history there is a lemma each: of a nonce, a registration, a stored
token, an answer and an attachment that is there behind an action, whether it was there
before, and if not, which stage its connection stood at (`Change.nonces`,
`Change.registrations`, `Change.stored`, `Change.answered`, `Change.attached`).
-/

import Quosh.System.World

namespace Quosh
namespace World

open Bytes

variable {rp : Relying} {w w' : World} {a : Action}

/-- Whom a token is issued to in the next turn. -/
def issuesTo : Stage → Option ℕ
  | .reissuing _ _ uid => some uid
  | .issuing _ _ uid _ => some uid
  | _ => none

/-- The handshake is over. -/
def settled : Stage → Bool
  | .attached .. => true
  | .closed => true
  | _ => false

/-- How a connection gets from a stage to the next in an action, and what it goes by. -/
inductive Moves (w : World) (a : Action) (w' : World) (i : ℕ) : Stage → Stage → Prop
  | stay (s : Stage) (hsince : w'.past.since i = w.past.since i) : Moves w a w' i s s
  | close (s : Stage) : Moves w a w' i s .closed
  | accept : Moves w a w' i .idle .opening
  | challenged (hello : AuthHello) (challenge : FixedBytes 32) :
    Moves w a w' i .opening (.replying hello w.clock challenge)
  | validated (env : Env) (payload rest : Bytes) (hello : AuthHello) (uid : ℕ)
    (ha : a = .turn i env)
    (hframe : nextFrame env.eof (w.conns i).buf = .frame msgAuthHello payload rest)
    (hdecode : AuthHello.decode payload = .ok hello)
    (hlive : w.daemon.devices.validateToken hello.authToken w.clock = some uid) :
    Moves w a w' i .opening (.dropping hello w.clock uid)
  | dropped (env : Env) (hello : AuthHello) (now : ℤ) (uid : ℕ) (ha : a = .turn i env)
    (hsince : w'.past.since i = w.past.since i)
    (hinner : w'.daemon.devices.inner =
      (w.daemon.devices.dropToken env.write hello.authToken).2.inner) :
    Moves w a w' i (.dropping hello now uid) (.reissuing hello now uid)
  | consumed (hello : AuthHello) (now : ℤ) (challenge : FixedBytes 32) (reg : Registration)
    (hspent : ∃ x ∈ w'.past.spent, x.conn = i ∧ x.uid = reg.uid)
    (hsince : w'.past.since i = w.past.stamp) :
    Moves w a w' i (.replying hello now challenge) (.registering hello now reg)
  | registered (hello : AuthHello) (now : ℤ) (reg : Registration)
    (hsince : w'.past.since i = w.past.since i) :
    Moves w a w' i (.registering hello now reg) (.issuing hello now reg.uid reg.credentialId)
  | found (hello : AuthHello) (now : ℤ) (challenge : FixedBytes 32) (uid : ℕ)
    (credentialId : String) (signCount : ℕ) (hsince : w'.past.since i = w.past.stamp)
    (hfind : ∃ reg ∈ w.daemon.devices.inner.registrations, reg.uid = uid) :
    Moves w a w' i (.replying hello now challenge)
      (.touching hello now uid credentialId signCount)
  | touched (hello : AuthHello) (now : ℤ) (uid : ℕ) (credentialId : String) (signCount : ℕ)
    (hsince : w'.past.since i = w.past.since i) :
    Moves w a w' i (.touching hello now uid credentialId signCount)
      (.issuing hello now uid credentialId)
  | issued (env : Env) (hello : AuthHello) (uid : ℕ) (s : Stage) (hissues : issuesTo s = some uid)
    (htoken : w'.past.tokens env.token = w.past.issue i s) :
    Moves w a w' i s (.resolving hello uid env.token)
  | answered (hello : AuthHello) (uid : ℕ) (token : FixedBytes 32)
    (hanswered : (i, token) ∈ w'.past.answered) :
    Moves w a w' i (.resolving hello uid token) (.authed uid)
  | attached (s : Stage) (k : ℕ) (h : Handler) (hs : s = .opening ∨ ∃ uid, s = .authed uid) :
    Moves w a w' i s (.attached k h)
  | served (k : ℕ) (h h' : Handler) : Moves w a w' i (.attached k h) (.attached k h')

/-- A turn makes no lookup for the other connections. -/
theorem since_record_of_ne (p : History) {i j : ℕ} (clock : ℤ) (stage : Stage) (event : Event)
    (h : j ≠ i) : (p.record i clock stage event).since j = p.since j := by
  cases event with
  | validated => exact Function.update_of_ne h ..
  | consumed n uid => exact Function.update_of_ne h ..
  | found => exact Function.update_of_ne h ..
  | resolved spawned answered =>
    unfold History.record
    dsimp only
    split <;> rfl
  | _ => rfl

/-- A turn of a connection, for the connection.  The cases are those of `Effect`: each names
the stage that the task stands at and the one it goes to, and that pair is a move, or the
task ends. -/
theorem moves_turn {i : ℕ} {env : Env} {d : Daemon} {c : Handshake} {event : Event}
    (heffect : (w.conns i).Effect env w.daemon w.clock (d, c, event)) :
    Moves w (.turn i env) (w.next i d c (w.past.record i w.clock (w.stage i) event).tick) i
      (w.stage i) c.stage := by
  cases heffect with
  | quiet c' hstage =>
    rcases hstage with hstage | hstage <;> rw [hstage]
    · exact .stay _ rfl
    · exact .close _
  | challenged c' hello hstage hstage' =>
    rw [hstage', show w.stage i = _ from hstage]
    exact .challenged hello _
  | validated c' payload rest hello uid hstage hframe hdecode hlive hstage' =>
    rw [hstage', show w.stage i = _ from hstage]
    exact .validated env payload rest hello uid rfl hframe hdecode hlive
  | dropped c' hello now uid hstage hstage' =>
    rw [show w.stage i = _ from hstage]
    rcases hstage' with hstage' | hstage' <;> rw [hstage']
    · exact .dropped env hello now uid rfl rfl rfl
    · exact .close _
  | refused c' hello now challenge n hstage hstage' =>
    rw [hstage']
    exact .close _
  | consumed c' hello now challenge reply rest e uid hstage hframe hdecode hspent hstage' =>
    rw [show w.stage i = _ from hstage]
    rcases hstage' with hstage' | ⟨reg, hreg, hstage'⟩ <;> rw [hstage']
    · exact .close _
    · exact .consumed hello now challenge reg
        ⟨_, List.mem_append_right _ (List.mem_singleton.2 rfl), rfl, hreg.symm⟩
        (Function.update_self ..)
  | registered c' hello now reg hstage hstage' =>
    rw [show w.stage i = _ from hstage]
    rcases hstage' with hstage' | hstage' <;> rw [hstage']
    · exact .registered hello now reg rfl
    · exact .close _
  | found c' hello now challenge credentialId reg signCount hstage hfind hstage' =>
    rw [hstage', show w.stage i = _ from hstage]
    exact .found hello now challenge reg.uid credentialId signCount (Function.update_self ..)
      ⟨reg, List.mem_of_find?_eq_some hfind, rfl⟩
  | touched c' hello now uid credentialId signCount hstage hstage' =>
    rw [show w.stage i = _ from hstage]
    rcases hstage' with hstage' | hstage' <;> rw [hstage']
    · exact .touched hello now uid credentialId signCount rfl
    · exact .close _
  | issued c' hello now uid credentialId hstage hstage' =>
    rcases hstage' with hstage' | hstage' <;> rw [hstage']
    · refine .issued env hello uid _ ?_ (Function.update_self ..)
      rcases hstage with ⟨hstage, -⟩ | ⟨id, hstage, -⟩ <;> rw [show w.stage i = _ from hstage] <;>
        rfl
    · exact .close _
  | resolved c' d' hello uid token spawned answered hstage hdevices hnonces hspawned hnone
      hstage' =>
    rw [hstage', show w.stage i = _ from hstage]
    cases answered with
    | false => exact .close _
    | true => exact .answered hello uid token (List.mem_append_right _ (List.mem_singleton.2 rfl))
  | attached c' payload rest hello authUid k s handler hstage hframe hdecode hget htoken howner
      hstage' =>
    rw [hstage']
    refine .attached _ k handler ?_
    rcases hstage with ⟨hstage, -⟩ | ⟨uid, hstage, -⟩
    · exact .inl hstage
    · exact .inr ⟨uid, hstage⟩

/-- **How a connection moves** in an action.  It moves by its own turns, and where an action
is calm; a turn of another connection, a helper request and a revocation leave it where it
is, and add nothing to what it has done (`stage_next_of_ne`, `since_record_of_ne`). -/
theorem Change.moves (hc : Change rp w a w') (i : ℕ) :
    Moves w a w' i (w.stage i) (w'.stage i) := by
  cases hc with
  | calm hcalm =>
    have hsince : w'.past.since i = w.past.since i := by
      rw [hcalm.past]
      rfl
    have hidles := hcalm.stage i
    generalize w.stage i = s at hidles
    generalize w'.stage i = s' at hidles
    cases hidles with
    | same s => exact .stay s hsince
    | close s => exact .close s
    | accept => exact .accept
    | challenge hello challenge => exact .challenged hello challenge
    | serve k h h' => exact .served k h h'
  | nonce uid n hfresh => exact .stay _ rfl
  | revoked devices p q hinner => exact .stay _ rfl
  | turn j env d c event hfresh heffect =>
    by_cases hj : i = j
    · subst hj
      rw [stage_next_self]
      exact moves_turn heffect
    · rw [stage_next_of_ne w d c _ hj]
      exact .stay _ (since_record_of_ne w.past _ _ event hj)

/-- A handshake that is over stays so. -/
theorem Change.stays_settled (hc : Change rp w a w') {i : ℕ}
    (h : settled (w.stage i) = true) : settled (w'.stage i) = true := by
  have hmoves := hc.moves i
  generalize w.stage i = s at hmoves h
  generalize w'.stage i = s' at hmoves
  cases hmoves with
  | stay s => exact h
  | attached s k h' hs => rfl
  | close s => rfl
  | served k h h' => rfl
  | issued env hello uid s hissues htoken =>
    cases s with
    | reissuing hello now uid => cases h
    | issuing hello now uid credentialId => cases h
    | _ => cases hissues
  | _ => cases h

/-- The clock does not go back. -/
theorem Change.clock (hc : Change rp w a w') : w.clock ≤ w'.clock := by
  cases hc with
  | calm hcalm => exact hcalm.clock
  | _ => exact le_rfl

/-! ### What an action adds to the history -/

/-- A session keeps its place and its user. -/
theorem Change.heap (hc : Change rp w a w') {k : ℕ} {s : Session}
    (hs : w.daemon.heap[k]? = some s) :
    ∃ s', w'.daemon.heap[k]? = some s' ∧ s'.uid = s.uid := by
  cases hc with
  | calm hcalm => exact hcalm.heap k s hs
  | nonce uid n hfresh => exact ⟨s, hs, rfl⟩
  | revoked devices p q hinner => exact ⟨s, hs, rfl⟩
  | turn i env d c event hfresh heffect =>
    show ∃ s', d.heap[k]? = some s' ∧ s'.uid = s.uid
    cases heffect with
    | resolved c' d' hello uid token spawned answered hstage hdevices hnonces hspawned hnone
        hstage' =>
      cases spawned with
      | none =>
        rw [hnone rfl]
        exact ⟨s, hs, rfl⟩
      | some k' =>
        obtain ⟨-, s', -, hheap⟩ := hspawned k' rfl
        rw [hheap, List.getElem?_append_left (List.getElem?_eq_some_iff.1 hs).1]
        exact ⟨s, hs, rfl⟩
    | attached c' payload rest hello authUid k' s' handler hstage hframe hdecode hget htoken howner
        hstage' =>
      have huid : s'.claimTransport.uid = s'.uid := rfl
      exact heap_set_uid (Daemon.heap_of_get hget) huid k s hs
    | _ => exact ⟨s, hs, rfl⟩

/-- A connection is opened once. -/
theorem Change.opened (hc : Change rp w a w') (i : ℕ) :
    w'.past.opened i = w.past.opened i ∨
      w.stage i = .idle ∧ w'.past.opened i = w.past.stamp := by
  cases hc with
  | calm hcalm => exact hcalm.opened i
  | nonce uid n hfresh => exact .inl rfl
  | revoked devices p q hinner => exact .inl rfl
  | turn j env d c event hfresh heffect =>
    refine .inl ?_
    cases event with
    | resolved spawned answered =>
      unfold History.record
      dsimp only [World.next, History.tick]
      split <;> rfl
    | _ => rfl

/-- **A session that a browser starts** gets a new place, and its user. -/
theorem Change.spawned (hc : Change rp w a w') {x : ℕ × ℕ} (hx : x ∈ w'.past.spawned) :
    x ∈ w.past.spawned ∨
      x.1 = w.daemon.heap.length ∧ ∃ s, w'.daemon.heap[x.1]? = some s ∧ s.uid = x.2 := by
  cases hc with
  | calm hcalm =>
    rw [hcalm.past] at hx
    exact .inl hx
  | nonce uid n hfresh => exact .inl hx
  | revoked devices p q hinner => exact .inl hx
  | turn i env d c event hfresh heffect =>
    cases heffect with
    | resolved c' d' hello uid token spawned answered hstage hdevices hnonces hspawned hnone
        hstage' =>
      rw [show w.stage i = _ from hstage] at hx
      rcases List.mem_append.1 hx with hx | hx
      · exact .inl hx
      · refine .inr ?_
        cases spawned with
        | none => cases hx
        | some k =>
          obtain ⟨rfl, s, huid, hheap⟩ := hspawned k rfl
          rw [List.mem_singleton.1 hx]
          refine ⟨rfl, s, ?_, huid⟩
          show d.heap[w.daemon.heap.length]? = some s
          rw [hheap, List.getElem?_concat_length]
    | _ => exact .inl hx

/-- A handshake is answered with the token it was issued. -/
theorem Change.answered (hc : Change rp w a w') {x : ℕ × FixedBytes 32}
    (hx : x ∈ w'.past.answered) :
    x ∈ w.past.answered ∨ ∃ hello uid, w.stage x.1 = .resolving hello uid x.2 := by
  cases hc with
  | calm hcalm =>
    rw [hcalm.past] at hx
    exact .inl hx
  | nonce uid n hfresh => exact .inl hx
  | revoked devices p q hinner => exact .inl hx
  | turn i env d c event hfresh heffect =>
    cases heffect with
    | resolved c' d' hello uid token spawned answered hstage hdevices hnonces hspawned hnone
        hstage' =>
      have hstage : w.stage i = .resolving hello uid token := hstage
      rw [hstage] at hx
      dsimp only [World.next, History.record, History.tick] at hx
      split at hx
      · rcases List.mem_append.1 hx with hx | hx
        · exact .inl hx
        · rw [List.mem_singleton.1 hx]
          exact .inr ⟨hello, uid, hstage⟩
      · exact .inl hx
    | _ => exact .inl hx

/-- A reply of a connection spends a nonce. -/
def Spends (w : World) (a : Action) (x : Spent) : Prop :=
  ∃ env hello now challenge reply rest e, a = .turn x.conn env ∧
    w.stage x.conn = .replying hello now challenge ∧
    nextFrame env.eof (w.conns x.conn).buf = .frame msgEnroll reply rest ∧
    Enroll.decode reply = .ok e ∧ (w.daemon.nonces.consume e.nonce now).1 = some x.uid ∧
    x.nonce = e.nonce ∧ x.clock = w.clock

/-- A nonce is spent by the reply of a connection, which takes a frame for it. -/
theorem Change.spent (hc : Change rp w a w') : w'.past.spent = w.past.spent ∨
    ∃ x, w'.past.spent = w.past.spent ++ [x] ∧ Spends w a x := by
  cases hc with
  | calm hcalm =>
    rw [hcalm.past]
    exact .inl rfl
  | nonce uid n hfresh => exact .inl rfl
  | revoked devices p q hinner => exact .inl rfl
  | turn i env d c event hfresh heffect =>
    cases heffect with
    | consumed c' hello now challenge reply rest e uid hstage hframe hdecode hspent hstage' =>
      exact .inr ⟨_, rfl, env, hello, now, challenge, reply, rest, e, rfl, hstage, hframe, hdecode,
        hspent, rfl, rfl⟩
    | resolved c' d' hello uid token spawned answered hstage hdevices hnonces hspawned hnone
        hstage' =>
      rw [show w.stage i = _ from hstage]
      exact .inl rfl
    | _ => exact .inl rfl

/-- A nonce that is outstanding was so, and is not spent, or it was issued.  Only `consume`
takes a nonce away, and the entry that it adds to the spent ones is of another nonce then. -/
theorem Change.nonces (hc : Change rp w a w') {n : FixedBytes 16} {e : Nonce}
    (he : w'.daemon.nonces n = some e) :
    w.daemon.nonces n = some e ∧ (∀ x ∈ w'.past.spent, x ∈ w.past.spent ∨ x.nonce ≠ n) ∨
      w.past.nonces n = none ∧ w'.past.nonces n = some (e.uid, e.expires - nonceTtlSecs) ∧
        w'.past.spent = w.past.spent := by
  cases hc with
  | calm hcalm =>
    rw [hcalm.nonces] at he
    rw [hcalm.past]
    exact .inl ⟨he, fun _ hx => .inl hx⟩
  | nonce uid m hfresh =>
    rcases NonceStore.issue_eq_some he with ⟨rfl, rfl⟩ | he
    · refine .inr ⟨hfresh, ?_, rfl⟩
      show Function.update w.past.nonces n (some (uid, w.clock)) n = _
      rw [Function.update_self]
      simp
    · exact .inl ⟨he, fun _ hx => .inl hx⟩
  | revoked devices p q hinner => exact .inl ⟨he, fun _ hx => .inl hx⟩
  | turn i env d c event hfresh heffect =>
    replace he : d.nonces n = some e := he
    cases heffect with
    | refused c' hello now challenge m hstage hstage' =>
      exact .inl ⟨(NonceStore.consume_eq_some he).2, fun _ hx => .inl hx⟩
    | consumed c' hello now challenge reply rest e' uid hstage hframe hdecode hspent hstage' =>
      obtain ⟨hne, he⟩ := NonceStore.consume_eq_some he
      refine .inl ⟨he, fun x hx => (List.mem_append.1 hx).imp_right fun hx => ?_⟩
      rw [List.mem_singleton.1 hx]
      exact hne.symm
    | resolved c' d' hello uid token spawned answered hstage hdevices hnonces hspawned hnone
        hstage' =>
      rw [hnonces] at he
      rw [show w.stage i = _ from hstage]
      exact .inl ⟨he, fun _ hx => .inl hx⟩
    | _ => exact .inl ⟨he, fun _ hx => .inl hx⟩

/-- No turn issues a nonce. -/
theorem nonces_record (p : History) (i : ℕ) (clock : ℤ) (stage : Stage) (event : Event) :
    (p.record i clock stage event).nonces = p.nonces := by
  cases event with
  | resolved spawned answered => cases stage <;> rfl
  | _ => rfl

/-- Only the helper issues nonces. -/
theorem nonces_act (rp : Relying) (w : World) (a : Action) :
    (w.act rp a).past.nonces = w.past.nonces ∨
      ∃ uid n, a = .enrollNonce uid n ∧
        (w.act rp a).past.nonces = Function.update w.past.nonces n (some (uid, w.clock)) := by
  cases a with
  | turn i env => exact .inl (nonces_record ..)
  | enrollNonce uid n => exact .inr ⟨uid, n, rfl, rfl⟩
  | serve i b =>
    refine .inl ?_
    show (w.serve i b).past.nonces = w.past.nonces
    unfold World.serve
    split
    · split <;> rfl
    · rfl
  | _ => exact .inl rfl

/-- A registration is of a user who had one, or of a handshake that stands before it.  A
revocation and the replacement of a credential only filter the list, and an assertion moves
a counter: the one new entry is that of `register`. -/
theorem Change.registrations (hc : Change rp w a w') {r : Registration}
    (hr : r ∈ w'.daemon.devices.inner.registrations) :
    (∃ r₀ ∈ w.daemon.devices.inner.registrations, r₀.uid = r.uid) ∨
      ∃ i hello now, w.stage i = .registering hello now r := by
  cases hc with
  | calm hcalm =>
    rw [hcalm.devices] at hr
    exact .inl ⟨r, hr, rfl⟩
  | nonce uid n hfresh => exact .inl ⟨r, hr, rfl⟩
  | revoked devices p q hinner =>
    rw [hinner] at hr
    exact .inl ⟨r, (List.mem_filter.1 hr).1, rfl⟩
  | turn i env d c event hfresh heffect =>
    replace hr : r ∈ d.devices.inner.registrations := hr
    cases heffect with
    | dropped c' hello now uid hstage hstage' =>
      rw [DeviceStore.inner_dropToken] at hr
      exact .inl ⟨r, hr, rfl⟩
    | registered c' hello now reg hstage hstage' =>
      rw [DeviceStore.inner_register] at hr
      rcases List.mem_append.1 hr with hr | hr
      · exact .inl ⟨r, (List.mem_filter.1 hr).1, rfl⟩
      · rw [List.mem_singleton.1 hr]
        exact .inr ⟨i, hello, now, hstage⟩
    | touched c' hello now uid credentialId signCount hstage hstage' =>
      have hmem := List.mem_map_of_mem (f := Registration.uid) hr
      simp only [DeviceStore.touched, DeviceStore.inner_persist] at hmem
      rw [Entries.map_modify_of_eq Registration.uid fun _ => by rfl] at hmem
      obtain ⟨r₀, hr₀, huid⟩ := List.mem_map.1 hmem
      exact .inl ⟨r₀, hr₀, huid⟩
    | issued c' hello now uid credentialId hstage hstage' =>
      rw [DeviceStore.inner_issueToken] at hr
      exact .inl ⟨r, hr, rfl⟩
    | resolved c' d' hello uid token spawned answered hstage hdevices hnonces hspawned hnone
        hstage' =>
      rw [hdevices] at hr
      exact .inl ⟨r, hr, rfl⟩
    | _ => exact .inl ⟨r, hr, rfl⟩

/-- A registration is stored for a reply that has spent a nonce. -/
theorem Change.enrolled (hc : Change rp w a w') {i : ℕ} (hi : i ∈ w'.past.enrolled) :
    i ∈ w.past.enrolled ∨ ∃ hello now reg, w.stage i = .registering hello now reg := by
  cases hc with
  | calm hcalm =>
    rw [hcalm.past] at hi
    exact .inl hi
  | nonce uid n hfresh => exact .inl hi
  | revoked devices p q hinner => exact .inl hi
  | turn j env d c event hfresh heffect =>
    cases heffect with
    | registered c' hello now reg hstage hstage' =>
      rcases List.mem_append.1 hi with hi | hi
      · exact .inl hi
      · rw [List.mem_singleton.1 hi]
        exact .inr ⟨hello, now, reg, hstage⟩
    | resolved c' d' hello uid token spawned answered hstage hdevices hnonces hspawned hnone
        hstage' =>
      rw [show w.stage j = _ from hstage] at hi
      exact .inl hi
    | _ => exact .inl hi

/-- **A connection is attached** to a session of the map that its hello names and whose
token it has, by its first frame or after it was answered. -/
theorem Change.attached (hc : Change rp w a w') {x : Attachment} (hx : x ∈ w'.past.attached) :
    x ∈ w.past.attached ∨ settled (w'.stage x.conn) = true ∧
      ∃ env payload rest hello s, a = .turn x.conn env ∧ x.uid = s.uid ∧
        (w.stage x.conn = .opening ∧ x.authUid = none ∨
          w.stage x.conn = .authed s.uid ∧ x.authUid = some s.uid) ∧
        nextFrame env.eof (w.conns x.conn).buf = .frame msgHello payload rest ∧
        Hello.decode payload = .ok hello ∧ w.daemon.get hello.sessionId = some (x.k, s) ∧
        s.token = hello.token ∧ w'.past.spawned = w.past.spawned := by
  cases hc with
  | calm hcalm =>
    rw [hcalm.past] at hx
    exact .inl hx
  | nonce uid n hfresh => exact .inl hx
  | revoked devices p q hinner => exact .inl hx
  | turn i env d c event hfresh heffect =>
    cases heffect with
    | resolved c' d' hello uid token spawned answered hstage hdevices hnonces hspawned hnone
        hstage' =>
      rw [show w.stage i = _ from hstage] at hx
      exact .inl hx
    | attached c' payload rest hello authUid k s handler hstage hframe hdecode hget htoken howner
        hstage' =>
      rcases List.mem_append.1 hx with hx | hx
      · exact .inl hx
      · rw [List.mem_singleton.1 hx]
        refine .inr ⟨?_, env, payload, rest, hello, s, rfl, rfl, ?_, hframe, hdecode, hget, htoken,
          rfl⟩
        · dsimp only
          rw [stage_next_self, hstage']
          rfl
        · refine hstage.imp_right ?_
          rintro ⟨uid, hauthed, rfl⟩
          obtain rfl := howner uid rfl
          exact ⟨hauthed, rfl⟩
    | _ => exact .inl hx

/-- **A connection that is authenticated is attached** to a session of its user.  The uid of
the stage is the one that the hello was taken with, and the session was found under it: of
all turns only the one with the hello ends in `attached`. -/
theorem Change.attaches (hc : Change rp w a w') {i uid k : ℕ} {handler : Handler}
    (hi : w.stage i = .authed uid) (hi' : w'.stage i = .attached k handler) :
    ∃ s, w.daemon.heap[k]? = some s ∧ s.uid = uid := by
  have hstill (hsame : w'.stage i = w.stage i) : ∃ s, w.daemon.heap[k]? = some s ∧ s.uid = uid := by
    rw [hi, hi'] at hsame
    cases hsame
  cases hc with
  | calm hcalm =>
    have hidles := hcalm.stage i
    rw [hi, hi'] at hidles
    cases hidles
  | nonce uid n hfresh => exact hstill rfl
  | revoked devices p q hinner => exact hstill rfl
  | turn j env d c event hfresh heffect =>
    by_cases hj : i = j
    · subst hj
      rw [stage_next_self] at hi' hstill
      have hi : (w.conns i).stage = .authed uid := hi
      cases heffect with
      | attached c' payload rest hello authUid k' s handler' hstage hframe hdecode hget htoken
          howner hstage' =>
        obtain ⟨rfl, -⟩ := Stage.attached.inj (hstage'.symm.trans hi')
        refine ⟨s, Daemon.heap_of_get hget, ?_⟩
        rcases hstage with ⟨hstage, -⟩ | ⟨uid', hstage, hauth⟩
        · cases hi.symm.trans hstage
        · rw [howner uid' hauth]
          exact (Stage.authed.inj (hi.symm.trans hstage)).symm
      | quiet c' hc =>
        rcases hc with hc | hc
        · exact hstill hc
        · cases hc.symm.trans hi'
      | issued c' hello now uid' credentialId hstage hstage' =>
        rcases hstage' with hstage' | hstage' <;> cases hstage'.symm.trans hi'
      | resolved c' d' hello uid' token spawned answered hstage hdevices hnonces hspawned hnone
          hstage' =>
        cases hi.symm.trans hstage
      | _ => simp_all
    · exact hstill (stage_next_of_ne w d c _ hj)

/-- Activity is of connections that are attached. -/
theorem Change.active (hc : Change rp w a w') {x : ℕ × ℤ} (hx : x ∈ w'.past.active) :
    x ∈ w.past.active ∨ x.2 = w.clock ∧ settled (w'.stage x.1) = true := by
  have hmoved (hc : Change rp w a w') (h : settled (w.stage x.1) = true) := hc.stays_settled h
  cases hc with
  | calm hcalm =>
    rcases hcalm.active x hx with hx | ⟨hclock, k, h, hstage⟩
    · exact .inl hx
    · exact .inr ⟨hclock, hmoved (.calm hcalm) (by rw [hstage]; rfl)⟩
  | nonce uid n hfresh => exact .inl hx
  | revoked devices p q hinner => exact .inl hx
  | turn i env d c event hfresh heffect =>
    cases heffect with
    | resolved c' d' hello uid token spawned answered hstage hdevices hnonces hspawned hnone
        hstage' =>
      rw [show w.stage i = _ from hstage] at hx
      exact .inl hx
    | attached c' payload rest hello authUid k s handler hstage hframe hdecode hget htoken howner
        hstage' =>
      dsimp only [World.next, History.record, History.tick] at hx
      split at hx
      · rcases List.mem_append.1 hx with hx | hx
        · exact .inl hx
        · rw [List.mem_singleton.1 hx]
          refine .inr ⟨rfl, ?_⟩
          dsimp only
          rw [stage_next_self, hstage']
          rfl
      · exact .inl hx
    | _ => exact .inl hx

/-- A token that is issued has the connection and the time. -/
theorem issue_eq {p : History} {i : ℕ} {stage : Stage} {e : Issue}
    (h : p.issue i stage = some e) : e.conn = i ∧ e.stamp = p.stamp := by
  unfold History.issue at h
  split at h
  · obtain ⟨old, -, rfl⟩ := Option.map_eq_some_iff.1 h
    exact ⟨rfl, rfl⟩
  · cases h
    exact ⟨rfl, rfl⟩
  · cases h

/-- A token is issued to somebody. -/
theorem issuesTo_of_issue {p : History} {i : ℕ} {stage : Stage} {e : Issue}
    (h : p.issue i stage = some e) : issuesTo stage ≠ none := by
  cases stage with
  | reissuing hello now uid => exact Option.some_ne_none uid
  | issuing hello now uid credentialId => exact Option.some_ne_none uid
  | _ => cases h

/-- **A token is issued** by a turn of a handshake that stands before it.  Tokens that were
issued before keep their entries, as the new one is fresh. -/
theorem Change.tokens (hc : Change rp w a w') {τ : FixedBytes 32} {e : Issue}
    (he : w'.past.tokens τ = some e) :
    w.past.tokens τ = some e ∨ w.past.tokens τ = none ∧ ∃ i env, a = .turn i env ∧
      τ = env.token ∧ w.past.issue i (w.stage i) = some e ∧ issuesTo (w'.stage i) = none := by
  cases hc with
  | calm hcalm =>
    rw [hcalm.past] at he
    exact .inl he
  | nonce uid n hfresh => exact .inl he
  | revoked devices p q hinner => exact .inl he
  | turn i env d c event hfresh heffect =>
    cases heffect with
    | issued c' hello now uid credentialId hstage hstage' =>
      by_cases hτ : τ = env.token
      · subst hτ
        have hissued : (w.past.record i w.clock (w.stage i) (.issued env.token)).tick.tokens
            env.token = w.past.issue i (w.stage i) := Function.update_self ..
        refine .inr ⟨hfresh, i, env, rfl, rfl, hissued.symm.trans he, ?_⟩
        rw [stage_next_self]
        rcases hstage' with hstage' | hstage' <;> rw [hstage'] <;> rfl
      · exact .inl ((Function.update_of_ne hτ ..).symm.trans he)
    | resolved c' d' hello uid token spawned answered hstage hdevices hnonces hspawned hnone
        hstage' =>
      rw [show w.stage i = _ from hstage] at he
      exact .inl he
    | _ => exact .inl he

/-- What is stored was stored before, or is new.  `issue_token` and `rotate_token` append
the one token that was drawn, and what is drawn is fresh. -/
theorem Change.stored (hc : Change rp w a w') {t : SessionToken}
    (ht : t ∈ w'.daemon.devices.inner.tokens) : t ∈ w.daemon.devices.inner.tokens ∨
      ∀ τ e, Stored w'.past t τ e → w.past.tokens τ = none := by
  cases hc with
  | calm hcalm =>
    rw [hcalm.devices] at ht
    exact .inl ht
  | nonce uid n hfresh => exact .inl ht
  | revoked devices p q hinner =>
    rw [hinner] at ht
    exact .inl (List.mem_filter.1 ht).1
  | turn i env d c event hfresh heffect =>
    replace ht : t ∈ d.devices.inner.tokens := ht
    cases heffect with
    | dropped c' hello now uid hstage hstage' =>
      rw [DeviceStore.inner_dropToken] at ht
      exact .inl (List.mem_filter.1 ht).1
    | registered c' hello now reg hstage hstage' =>
      rw [DeviceStore.inner_register] at ht
      exact .inl ht
    | touched c' hello now uid credentialId signCount hstage hstage' =>
      rw [DeviceStore.tokens_touched] at ht
      exact .inl ht
    | issued c' hello now uid credentialId hstage hstage' =>
      rw [DeviceStore.inner_issueToken] at ht
      rcases List.mem_append.1 ht with ht | ht
      · exact .inl ht
      · refine .inr fun τ e hstored => ?_
        have htoken := hstored.token
        rw [List.mem_singleton.1 ht] at htoken
        obtain rfl : env.token = τ := Subtype.ext (hexEncode_inj htoken)
        exact hfresh
    | resolved c' d' hello uid token spawned answered hstage hdevices hnonces hspawned hnone
        hstage' =>
      rw [hdevices] at ht
      exact .inl ht
    | _ => exact .inl ht

end World
end Quosh
