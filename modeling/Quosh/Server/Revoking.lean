/-
# Revoking a device by its id

`Daemon::revoke` and `resolve_credential` of `crates/quosh-server/src/helper.rs`, over
`revoke_credential` of `devices.rs`.  The credential of a request is looked up as a prefix,
also when it is a full id.  Ids are as long as the authenticator makes them, so the id of one
device may be what another one starts with; then the request finds both and revokes neither
(`prefix_not_revoked`).

What a request names is `named`.  A device is revoked by its id iff it is all that its id
names and the file can be written, and whatever a request names, it revokes nothing unless it
names one (`revoke_iff`).
-/

import Quosh.Data.Entries
import Quosh.Server.Requests

namespace Quosh

open Bytes

/-- The registrations of a user that a credential of a request names. -/
def DeviceStore.named (s : DeviceStore) (uid : ℕ) (pre : String) : List Registration :=
  (s.registrations uid).filter fun r => startsWith r.credentialId pre

/-- The request to revoke a credential. -/
def revokeRequest (pre : String) : HelperRequest := { op := "revoke", credential := some pre }

/-- **A device is revoked**: the answer is one, its registration is gone and so are the user's
tokens that were recorded with it, and nothing else has changed in memory. -/
structure Revokes (d : Daemon) (r : Registration) (resp : HelperResponse)
    (result : HelperResponse × Daemon) : Prop where
  answer : result.1 = { resp with revoked := some 1 }
  registrations : result.2.devices.inner.registrations = d.devices.inner.registrations.erase r
  tokens : result.2.devices.inner.tokens = d.devices.inner.tokens.filter fun t =>
    ¬(t.uid = r.uid ∧ t.credentialId = some r.credentialId)
  others : { result.2 with devices := d.devices } = d

variable {d : Daemon} {write : Except String Unit} {uid : ℕ} {pre : String} {r : Registration}
  {resp : HelperResponse}

/-! ### What a request names -/

/-- **What a credential resolves to**: the id of the one registration that it names. -/
theorem resolveCredential_eq_ok {s : DeviceStore} {cred : String} :
    resolveCredential s uid pre = .ok cred ↔
      ∃ r, s.named uid pre = [r] ∧ r.credentialId = cred := by
  unfold resolveCredential DeviceStore.named
  generalize (s.registrations uid).filter (fun r => startsWith r.credentialId pre) = rs
  match rs with
  | [] => exact iff_of_false (fun h => nomatch h) fun ⟨_, h, _⟩ => nomatch h
  | [r] =>
    constructor
    · intro h
      exact ⟨r, rfl, Except.ok.inj h⟩
    · rintro ⟨r', hr', rfl⟩
      rw [(List.cons.inj hr').1]
  | _ :: _ :: _ => exact iff_of_false (fun h => nomatch h) fun ⟨_, h, _⟩ => nomatch h

/-- A registration is named by its own id. -/
theorem mem_named (hr : r ∈ d.devices.registrations uid) :
    r ∈ d.devices.named uid r.credentialId :=
  List.mem_filter.2 ⟨hr, startsWith_iff.2 (List.prefix_refl _)⟩

/-- What names one registration names that with its id alone. -/
theorem filter_eq_of_named (hr : r ∈ d.devices.registrations uid)
    (hnamed : d.devices.named uid r.credentialId = [r]) :
    d.devices.inner.registrations.filter
      (fun r' => r'.uid = uid ∧ r'.credentialId = r.credentialId) = [r] := by
  have hself : r.uid = uid := of_decide_eq_true (List.mem_filter.1 hr).2
  unfold DeviceStore.named DeviceStore.registrations at hnamed
  rw [List.filter_filter] at hnamed
  have hsub := congrArg (List.filter fun r' : Registration => r'.credentialId = r.credentialId)
    hnamed
  rw [List.filter_filter] at hsub
  have hone : ([r].filter fun r' : Registration => r'.credentialId = r.credentialId) = [r] :=
    List.filter_cons_of_pos (decide_eq_true rfl)
  rw [← hone, ← hsub]
  refine List.filter_congr fun r' _ => Bool.eq_iff_iff.2 ?_
  simp only [Bool.and_eq_true, decide_eq_true_eq]
  constructor
  · rintro ⟨huid, hid⟩
    exact ⟨hid, startsWith_iff.2 (hid ▸ List.prefix_refl _), huid⟩
  · rintro ⟨hid, -, huid⟩
    exact ⟨huid, hid⟩

/-! ### The request -/

/-- What is done with the request. -/
theorem revoke_revokeRequest : d.revoke write uid (revokeRequest pre) resp =
    match resolveCredential d.devices uid pre with
    | .ok cred =>
      let r := d.devices.revokeCredential write uid cred
      d.revoked resp (r.1.map Bool.toNat, r.2)
    | .error e => (fail e, d) :=
  rfl

/-- The request, when its credential resolves. -/
theorem revoke_of_resolve {cred : String} (h : resolveCredential d.devices uid pre = .ok cred) :
    d.revoke write uid (revokeRequest pre) resp =
      d.revoked resp (((d.devices.revokeCredential write uid cred).1.map Bool.toNat),
        (d.devices.revokeCredential write uid cred).2) := by
  rw [revoke_revokeRequest, h]

/-- And when it does not. -/
theorem revoke_of_error {e : String} (h : resolveCredential d.devices uid pre = .error e) :
    d.revoke write uid (revokeRequest pre) resp = (fail e, d) := by
  rw [revoke_revokeRequest, h]

/-- **A request changes something only if it names one registration.** -/
theorem named_of_revoke_ne (h : (d.revoke write uid (revokeRequest pre) resp).2 ≠ d) :
    ∃ r, d.devices.named uid pre = [r] := by
  cases hresolve : resolveCredential d.devices uid pre with
  | error e => exact absurd (congrArg Prod.snd (revoke_of_error hresolve)) h
  | ok cred =>
    obtain ⟨r, hr, -⟩ := resolveCredential_eq_ok.1 hresolve
    exact ⟨r, hr⟩

/-- **A device that is all its id names is revoked** when the file can be written. -/
theorem revokes_of_named (hr : r ∈ d.devices.registrations uid)
    (hnamed : d.devices.named uid r.credentialId = [r]) :
    Revokes d r resp (d.revoke (.ok ()) uid (revokeRequest r.credentialId) resp) := by
  have hself : r.uid = uid := of_decide_eq_true (List.mem_filter.1 hr).2
  have hone := filter_eq_of_named hr hnamed
  have hregistrations : d.devices.inner.registrations.filter
      (fun r' => ¬(r'.uid = uid ∧ r'.credentialId = r.credentialId)) =
        d.devices.inner.registrations.erase r := by
    rw [← Entries.filter_not_eq_erase hone]
    exact List.filter_congr fun r' _ => decide_not
  have hmem : r ∈ d.devices.inner.registrations := (List.mem_filter.1 hr).1
  have hexisted : (d.devices.inner.registrations.erase r).length ≠
      d.devices.inner.registrations.length := by
    rw [List.length_erase_of_mem hmem]
    have hpos := List.length_pos_of_mem hmem
    omega
  rw [revoke_of_resolve (resolveCredential_eq_ok.2 ⟨r, hnamed, rfl⟩)]
  refine ⟨?_, hregistrations, by rw [hself]; rfl, rfl⟩
  unfold DeviceStore.revokeCredential
  dsimp only
  rw [hregistrations, decide_eq_true hexisted]
  rfl

/-- **Revoking a device by its id**: it is revoked iff the file can be written and no other
registration of the user has an id that starts with it.  And a request with any other string
changes something only if the string is what exactly one id of the user starts with. -/
theorem revoke_iff (d : Daemon) (write : Except String Unit) (uid : ℕ) (r : Registration)
    (hr : r ∈ d.devices.registrations uid) (resp : HelperResponse) :
    (Revokes d r resp (d.revoke write uid (revokeRequest r.credentialId) resp) ↔
      write = .ok () ∧ d.devices.named uid r.credentialId = [r]) ∧
    ∀ pre, (∀ r' ∈ d.devices.registrations uid, r'.credentialId ≠ pre) →
      (d.revoke write uid (revokeRequest pre) resp).2 ≠ d →
        ∃ r', d.devices.named uid pre = [r'] := by
  refine ⟨⟨fun h => ?_, ?_⟩, fun pre _ h => named_of_revoke_ne h⟩
  · have hanswer := h.answer
    cases hresolve : resolveCredential d.devices uid r.credentialId with
    | error e =>
      rw [revoke_of_error hresolve] at hanswer
      exact nomatch congrArg HelperResponse.revoked hanswer
    | ok cred =>
      obtain ⟨r', hnamed, -⟩ := resolveCredential_eq_ok.1 hresolve
      have hmem := mem_named hr
      rw [hnamed, List.mem_singleton] at hmem
      refine ⟨?_, hmem ▸ hnamed⟩
      cases write with
      | ok u => rfl
      | error e =>
        rw [revoke_of_resolve hresolve] at hanswer
        exact nomatch congrArg HelperResponse.revoked hanswer
  · rintro ⟨rfl, hnamed⟩
    exact revokes_of_named hr hnamed

/-- A registration of a test. -/
def registrationOf (uid : ℕ) (credentialId : String) : Registration :=
  { uid, credentialId, publicKey := "04", rpId := "quosh.jtcs.dev"
    origin := "https://quosh.jtcs.dev", userName := "user", signCount := 0, created := 1
    lastUsed := none }

/-- A store with some registrations. -/
def registered (rs : List Registration) : Daemon :=
  { devices := { inner := { registrations := rs } } }

/-- The hypothesis of `revoke_iff` is satisfiable: of two devices of a user and one of
another, with ids of different lengths, the one is revoked. -/
theorem revoke_iff_one :
    let r := registrationOf 1000 "abcd"
    let d := registered [r, registrationOf 1000 "abff01", registrationOf 0 "abcdef"]
    (Revokes d r { ok := true } (d.revoke (.ok ()) 1000 (revokeRequest "abcd") { ok := true }) ↔
      Except.ok () = Except.ok (ε := String) () ∧ d.devices.named 1000 "abcd" = [r]) ∧
    ∀ pre, (∀ r' ∈ d.devices.registrations 1000, r'.credentialId ≠ pre) →
      (d.revoke (.ok ()) 1000 (revokeRequest pre) { ok := true }).2 ≠ d →
        ∃ r', d.devices.named 1000 pre = [r'] :=
  revoke_iff
    (registered
      [registrationOf 1000 "abcd", registrationOf 1000 "abff01", registrationOf 0 "abcdef"])
    (.ok ()) 1000 (registrationOf 1000 "abcd") (by decide +kernel) { ok := true }

/-- **A device whose id another one starts with is not revoked**, though the file can be
written: the answer is an error. -/
theorem prefix_not_revoked :
    ¬∀ (d : Daemon) (uid : ℕ) (r : Registration), r ∈ d.devices.registrations uid →
      ∀ resp, Revokes d r resp (d.revoke (.ok ()) uid (revokeRequest r.credentialId) resp) := by
  intro h
  have hrevokes := h (registered [registrationOf 1000 "abcd", registrationOf 1000 "abcdef"]) 1000
    (registrationOf 1000 "abcd") (by decide +kernel) { ok := true }
  exact absurd (congrArg HelperResponse.revoked hrevokes.answer) (by decide +kernel)

end Quosh
