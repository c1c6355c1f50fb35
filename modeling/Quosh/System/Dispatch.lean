/-
# Requests as actions

`crates/quosh-server/src/helper.rs`: `dispatch` (`Quosh.Server.Requests`) answers a request of the
helper and leaves another daemon.  `requested` is the same request as actions of
`Quosh.System.World`, one for each lock that it holds: nothing for a request that only reads, and
for a `create` that kills idle sessions their hangups and removals, and then the new session.

A request that nobody comes between is a run of the world to where `dispatch` leads
(`daemon_request`), so what holds of every world that is reached holds behind any request
(`Reachable.dispatch`).
-/

import Quosh.Control.Trace
import Quosh.Server.Requests
import Quosh.System.World

namespace Quosh

open Bytes

namespace Daemon

/-- What `destroy` does about a session: it is told to hang up, and leaves the map. -/
def destroying (d : Daemon) (id : FixedBytes 16) : List Action :=
  match d.sessions.find? fun e => e.1 = id with
  | none => []
  | some (_, k) =>
    match d.heap[k]? with
    | none => [.remove id]
    | some s => [.session k s.requestHangup, .remove id]

/-- Several sessions, one after the other. -/
def destroyingAll (d : Daemon) : List (FixedBytes 16) → List Action
  | [] => []
  | id :: ids => d.destroying id ++ (d.destroy id).destroyingAll ids

/-- What a `revoke` does to the store. -/
def revoking (d : Daemon) (write : Except String Unit) (uid : ℕ) (req : HelperRequest) :
    List Action :=
  if req.all then [.revokeAll write uid]
  else if req.sessions then [.revokeSessions write uid]
  else
    match req.credential with
    | some pre =>
      match resolveCredential d.devices uid pre with
      | .ok cred => [.revokeCredential write uid cred]
      | .error _ => []
    | none => []

/-- The actions of a request. -/
def requested (d : Daemon) (cells : ℕ → Cells) (o : Outside) (uid : ℕ) (req : HelperRequest) :
    List Action :=
  match o.hash with
  | .error _ => []
  | .ok _ =>
    match req.op with
    | "create" =>
      (if req.killIdle then
        d.destroyingAll ((collectIdle (d.listed cells) uid o.instant).map Prod.fst) else []) ++
        [.create uid req.cols req.rows o.sessionId o.sessionToken o.spawn]
    | "enroll-nonce" => [.enrollNonce uid o.nonce]
    | "revoke" => d.revoking o.write uid req
    | _ => []

variable {d : Daemon} {a : Action}

/-- A session that is destroyed is no connection's. -/
theorem conn_destroying {id : FixedBytes 16} (h : a ∈ d.destroying id) : a.conn = none := by
  unfold destroying at h
  split at h
  · cases h
  · split at h
    · rw [List.mem_singleton.1 h]
      rfl
    · rcases List.mem_pair.1 h with rfl | rfl
      · rfl
      · rfl

/-- Nor are several. -/
theorem conn_destroyingAll {ids : List (FixedBytes 16)} (h : a ∈ d.destroyingAll ids) :
    a.conn = none := by
  induction ids generalizing d with
  | nil => cases h
  | cons id ids ih =>
    rcases List.mem_append.1 h with h | h
    · exact conn_destroying h
    · exact ih h

/-- Nor is a revocation. -/
theorem conn_revoking {write : Except String Unit} {uid : ℕ} {req : HelperRequest}
    (h : a ∈ d.revoking write uid req) : a.conn = none := by
  unfold revoking at h
  split at h
  · rw [List.mem_singleton.1 h]
    rfl
  · split at h
    · rw [List.mem_singleton.1 h]
      rfl
    · split at h
      · split at h
        · rw [List.mem_singleton.1 h]
          rfl
        · cases h
      · cases h

/-- No action of a request is one of a connection. -/
theorem conn_requested {cells : ℕ → Cells} {o : Outside} {uid : ℕ} {req : HelperRequest}
    (h : a ∈ d.requested cells o uid req) : a.conn = none := by
  unfold requested at h
  split at h
  · cases h
  · split at h
    · rcases List.mem_append.1 h with h | h
      · split at h
        · exact conn_destroyingAll h
        · cases h
      · rw [List.mem_singleton.1 h]
        rfl
    · rw [List.mem_singleton.1 h]
      rfl
    · exact conn_revoking h
    · cases h

end Daemon

namespace World

variable {rp : Relying} {w : World}

/-- The world behind a request that nobody comes between. -/
def request (rp : Relying) (w : World) (cells : ℕ → Cells) (o : Outside) (uid : ℕ)
    (req : HelperRequest) : World :=
  (world rp).acts w (w.daemon.requested cells o uid req)

/-! ### The sessions that are destroyed -/

/-- **Destroying a session** leaves what its actions leave. -/
theorem daemon_destroying (rp : Relying) (w : World) (id : FixedBytes 16) :
    ((world rp).acts w (w.daemon.destroying id)).daemon = w.daemon.destroy id := by
  unfold Daemon.destroying Daemon.destroy
  cases w.daemon.sessions.find? fun e => e.1 = id with
  | none => rfl
  | some e =>
    obtain ⟨id', k⟩ := e
    dsimp only
    cases hget : w.daemon.heap[k]? with
    | none =>
      have hmodify : w.daemon.heap.modify k Session.requestHangup = w.daemon.heap :=
        List.modify_eq_self (List.getElem?_eq_none_iff.1 hget)
      rw [hmodify]
      rfl
    | some s =>
      have hmodify : w.daemon.heap.modify k Session.requestHangup =
          w.daemon.heap.set k s.requestHangup := by
        rw [List.modify_eq_set_getElem?, hget]
        rfl
      rw [hmodify]
      rfl

/-- A session that is told to hang up stays who it is. -/
theorem allows_destroying (rp : Relying) (w : World) (id : FixedBytes 16) :
    (world rp).AllowsAll (fun _ _ => True) w (w.daemon.destroying id) := by
  unfold Daemon.destroying
  split
  · trivial
  · rename_i id' k hfind
    cases hget : w.daemon.heap[k]? with
    | none => exact ⟨trivial, trivial, trivial⟩
    | some s => exact ⟨⟨s, hget, rfl, rfl, rfl⟩, trivial, trivial, trivial, trivial⟩

/-- **Destroying several sessions** leaves what their actions leave. -/
theorem daemon_destroyingAll (rp : Relying) (w : World) (ids : List (FixedBytes 16)) :
    ((world rp).acts w (w.daemon.destroyingAll ids)).daemon =
      ids.foldl Daemon.destroy w.daemon := by
  induction ids generalizing w with
  | nil => rfl
  | cons id ids ih =>
    have hfirst := daemon_destroying rp w id
    have hrest := ih ((world rp).acts w (w.daemon.destroying id))
    rw [hfirst] at hrest
    rw [Daemon.destroyingAll, Machine.acts_append]
    exact hrest

/-- Each of their actions is allowed. -/
theorem allows_destroyingAll (rp : Relying) (w : World) (ids : List (FixedBytes 16)) :
    (world rp).AllowsAll (fun _ _ => True) w (w.daemon.destroyingAll ids) := by
  induction ids generalizing w with
  | nil => trivial
  | cons id ids ih =>
    have hrest := ih ((world rp).acts w (w.daemon.destroying id))
    rw [daemon_destroying] at hrest
    exact Machine.allowsAll_append.2 ⟨allows_destroying rp w id, hrest⟩

/-! ### The request -/

/-- **A revocation** leaves what its action leaves. -/
theorem daemon_revoking (rp : Relying) (w : World) (write : Except String Unit) (uid : ℕ)
    (req : HelperRequest) (resp : HelperResponse) :
    ((world rp).acts w (w.daemon.revoking write uid req)).daemon =
      (w.daemon.revoke write uid req resp).2 := by
  unfold Daemon.revoking Daemon.revoke
  split
  · rfl
  · split
    · rfl
    · cases req.credential with
      | none => rfl
      | some pre =>
        dsimp only
        cases resolveCredential w.daemon.devices uid pre with
        | ok cred => rfl
        | error e => rfl

/-- **A creation** leaves what its actions leave: the idle sessions are destroyed first, if the
request says so. -/
theorem daemon_creating (rp : Relying) (w : World) (cells : ℕ → Cells) (o : Outside) (uid : ℕ)
    (req : HelperRequest) (resp : HelperResponse) :
    ((world rp).acts w ((if req.killIdle then
        w.daemon.destroyingAll ((collectIdle (w.daemon.listed cells) uid o.instant).map Prod.fst)
        else []) ++
      [.create uid req.cols req.rows o.sessionId o.sessionToken o.spawn])).daemon =
      (w.daemon.create cells o uid req resp).2 := by
  have hrest (w' : World) (idle : List IdleInfo) :
      (w'.act rp (.create uid req.cols req.rows o.sessionId o.sessionToken o.spawn)).daemon =
        (w'.daemon.createRest o uid req idle resp).2 := by
    show (w'.daemon.spawnSession ..).2 = _
    unfold Daemon.createRest
    dsimp only
    cases w'.daemon.spawnSession o.spawn o.sessionId o.sessionToken uid
        (if req.cols = 0 then 80 else req.cols) (if req.rows = 0 then 24 else req.rows) with
    | mk answer d => cases answer <;> rfl
  rw [Machine.acts_concat]
  refine (hrest _ ((collectIdle (w.daemon.listed cells) uid o.instant).map
    Daemon.idleInfo)).trans ?_
  unfold Daemon.create Daemon.killIdle
  dsimp only
  split
  · rw [daemon_destroyingAll]
  · rfl

/-- **A request leads where `dispatch` leads.**  By the operation: a `create`, a nonce and a
revocation are their own actions; every other request reads only, and has none. -/
theorem daemon_request (rp : Relying) (w : World) (port : ℕ) (cells : ℕ → Cells) {o : Outside}
    (hnow : o.now = w.clock) (uid : ℕ) (req : HelperRequest) :
    (w.request rp cells o uid req).daemon = (w.daemon.dispatch port cells o uid req).2 := by
  unfold World.request Daemon.requested Daemon.dispatch
  cases o.hash with
  | error e => rfl
  | ok h =>
    dsimp only
    split
    · rename_i hop
      rw [hop]
      exact daemon_creating rp w cells o uid req _
    · rename_i hop
      rw [hop]
      unfold Daemon.enrollNonce
      dsimp only
      rw [hnow]
      rfl
    · rename_i hop
      rw [hop]
      exact daemon_revoking rp w o.write uid req _
    · rename_i hcreate henroll hrevoke
      split
      · rfl
      · rfl
      · rename_i hop
        exact absurd hop hcreate
      · rename_i hop
        exact absurd hop henroll
      · rfl
      · rename_i hop
        exact absurd hop hrevoke
      · rfl

/-- Every action of a request is allowed, if the nonce that is drawn for it is new. -/
theorem allows_request (rp : Relying) (w : World) (cells : ℕ → Cells) {o : Outside} (uid : ℕ)
    (req : HelperRequest) (hnew : w.past.nonces o.nonce = none) :
    (world rp).AllowsAll (fun _ _ => True) w (w.daemon.requested cells o uid req) := by
  unfold Daemon.requested
  cases o.hash with
  | error e => trivial
  | ok h =>
    dsimp only
    split
    · refine Machine.allowsAll_append.2 ⟨?_, trivial, trivial, trivial⟩
      split
      · exact allows_destroyingAll rp w _
      · trivial
    · exact ⟨hnew, trivial, trivial⟩
    · unfold Daemon.revoking
      split
      · exact ⟨trivial, trivial, trivial⟩
      · split
        · exact ⟨trivial, trivial, trivial⟩
        · split
          · split
            · exact ⟨trivial, trivial, trivial⟩
            · trivial
          · trivial
    · trivial

/-- A request in a world that is reached leads to one that is. -/
theorem Reachable.request (h : w.Reachable rp) (cells : ℕ → Cells) {o : Outside} (uid : ℕ)
    (req : HelperRequest) (hnew : w.past.nonces o.nonce = none) :
    (w.request rp cells o uid req).Reachable rp :=
  h.run (Machine.run_acts (allows_request rp w cells uid req hnew))

/-- **The tasks of the connections take no part in a request.** -/
theorem conns_request (rp : Relying) (w : World) (cells : ℕ → Cells) (o : Outside) (uid : ℕ)
    (req : HelperRequest) : (w.request rp cells o uid req).conns = w.conns := by
  funext i
  refine conns_acts rp w fun a ha => ?_
  rw [Daemon.conn_requested ha]
  exact nofun

/-- **The daemon that `dispatch` leaves is one that is reached**, with its connections as they
were. -/
theorem Reachable.dispatch (h : w.Reachable rp) (port : ℕ) (cells : ℕ → Cells) {o : Outside}
    (hnow : o.now = w.clock) (hnew : w.past.nonces o.nonce = none) (uid : ℕ)
    (req : HelperRequest) :
    ∃ w' : World, w'.Reachable rp ∧ w'.daemon = (w.daemon.dispatch port cells o uid req).2 ∧
      w'.conns = w.conns :=
  ⟨_, h.request cells uid req hnew, daemon_request rp w port cells hnow uid req,
    conns_request rp w cells o uid req⟩

end World
end Quosh
