/-
# The device store

`crates/quosh-server/src/devices.rs`: registrations of passkeys and session tokens, in
memory and in one JSON file.  A store is the two lists with what the file has of them;
every operation that changes the lists writes the file, and how the write ends is an
argument (`write`).  `rotate_token` takes the lock twice, so it is two operations,
`dropToken` and `issueToken`.

An operation only filters, appends or updates.  What it leaves of the tokens and
registrations is said once for each (`inner_issueToken`, `inner_revokeAll`, ...), whether
or not the file was written; `exists_of_validateToken` is what a live token is.

`StoreSection` has the operations that change the lists as one type, for all that is about
any order of them.
-/

import Quosh.Bytes.Hex
import Quosh.Proto.Message
import Mathlib.Data.List.Nodup

namespace Quosh

open Bytes

/-- `SESSION_IDLE_SECS`. -/
def sessionIdleSecs : ℤ := 60 * 60

/-- `Registration`. -/
structure Registration where
  uid : ℕ
  credentialId : String
  publicKey : String
  rpId : String
  origin : String
  userName : String
  signCount : ℕ
  created : ℤ
  lastUsed : Option ℤ
  deriving DecidableEq

/-- `SessionToken`. -/
structure SessionToken where
  token : String
  uid : ℕ
  credentialId : Option String
  lastSeen : ℤ
  deriving DecidableEq

/-- `Persisted`. -/
structure Persisted where
  registrations : List Registration := []
  tokens : List SessionToken := []
  deriving DecidableEq

/-- `DeviceStore`: what is in memory, and what the file has. -/
structure DeviceStore where
  inner : Persisted := {}
  file : Persisted := {}
  deriving DecidableEq

namespace DeviceStore

/-- `persist`: the file is replaced as a whole, or as it was. -/
def persist (s : DeviceStore) (write : Except String Unit) : Except String Unit × DeviceStore :=
  match write with
  | .ok () => (.ok (), { s with file := s.inner })
  | .error e => (.error e, s)

/-- `register`. -/
def register (s : DeviceStore) (write : Except String Unit) (reg : Registration) :
    Except String Unit × DeviceStore :=
  persist { s with inner := { s.inner with
    registrations :=
      s.inner.registrations.filter (fun r => r.credentialId ≠ reg.credentialId) ++ [reg] } } write

/-- `find`. -/
def find (s : DeviceStore) (credentialId : String) : Option Registration :=
  s.inner.registrations.find? fun r => r.credentialId = credentialId

/-- `registrations`. -/
def registrations (s : DeviceStore) (uid : ℕ) : List Registration :=
  s.inner.registrations.filter fun r => r.uid = uid

/-- `touched`: the first registration with the credential, if there is one. -/
def touched (s : DeviceStore) (write : Except String Unit) (credentialId : String)
    (signCount : ℕ) (now : ℤ) : Except String Unit × DeviceStore :=
  let i := s.inner.registrations.findIdx fun r => r.credentialId = credentialId
  persist { s with inner := { s.inner with
    registrations := s.inner.registrations.modify i fun r =>
      { r with signCount := max r.signCount signCount, lastUsed := some now } } } write

/-- `issue_token`, behind the random bytes it draws. -/
def issueToken (s : DeviceStore) (write : Except String Unit) (token : FixedBytes 32) (uid : ℕ)
    (credentialId : Option String) (now : ℤ) : Except String (FixedBytes 32) × DeviceStore :=
  let (r, s) := persist { s with inner := { s.inner with
    tokens := s.inner.tokens ++
      [{ token := hexEncode token.1, uid, credentialId, lastSeen := now }] } } write
  (r.map fun _ => token, s)

/-- Whether an entry is a live one of a token. -/
def live (token : FixedBytes 32) (now : ℤ) (t : SessionToken) : Bool :=
  t.token = hexEncode token.1 ∧ now - t.lastSeen ≤ sessionIdleSecs

/-- `validate_token`. -/
def validateToken (s : DeviceStore) (token : FixedBytes 32) (now : ℤ) : Option ℕ :=
  (s.inner.tokens.find? (live token now)).map SessionToken.uid

/-- `touch_token`. -/
def touchToken (s : DeviceStore) (write : Except String Unit) (token : FixedBytes 32) (now : ℤ) :
    Except String Unit × DeviceStore :=
  let i := s.inner.tokens.findIdx fun t => t.token = hexEncode token.1
  if i < s.inner.tokens.length then
    persist { s with inner := { s.inner with
      tokens := s.inner.tokens.modify i fun t => { t with lastSeen := now } } } write
  else (.ok (), s)

/-- The first critical section of `rotate_token`. -/
def dropToken (s : DeviceStore) (write : Except String Unit) (old : FixedBytes 32) :
    Except String Unit × DeviceStore :=
  persist { s with inner := { s.inner with
    tokens := s.inner.tokens.filter fun t => t.token ≠ hexEncode old.1 } } write

/-- `rotate_token`, when nobody comes between its critical sections. -/
def rotateToken (s : DeviceStore) (writeDrop writeIssue : Except String Unit)
    (old : Option (FixedBytes 32)) (token : FixedBytes 32) (uid : ℕ)
    (credentialId : Option String) (now : ℤ) : Except String (FixedBytes 32) × DeviceStore :=
  match old with
  | none => s.issueToken writeIssue token uid credentialId now
  | some old =>
    match s.dropToken writeDrop old with
    | (.error e, s) => (.error e, s)
    | (.ok (), s) => s.issueToken writeIssue token uid credentialId now

/-- `revoke_credential`. -/
def revokeCredential (s : DeviceStore) (write : Except String Unit) (uid : ℕ)
    (credentialId : String) : Except String Bool × DeviceStore :=
  let registrations := s.inner.registrations.filter fun r =>
    ¬(r.uid = uid ∧ r.credentialId = credentialId)
  let existed := registrations.length ≠ s.inner.registrations.length
  let (r, s) := persist { s with inner :=
    { registrations
      tokens := s.inner.tokens.filter fun t =>
        ¬(t.uid = uid ∧ t.credentialId = some credentialId) } } write
  (r.map fun _ => existed, s)

/-- `revoke_all`. -/
def revokeAll (s : DeviceStore) (write : Except String Unit) (uid : ℕ) :
    Except String ℕ × DeviceStore :=
  let before := (s.registrations uid).length
  let (r, s) := persist { s with inner :=
    { registrations := s.inner.registrations.filter fun r => r.uid ≠ uid
      tokens := s.inner.tokens.filter fun t => t.uid ≠ uid } } write
  (r.map fun _ => before, s)

/-- `revoke_sessions`. -/
def revokeSessions (s : DeviceStore) (write : Except String Unit) (uid : ℕ) :
    Except String ℕ × DeviceStore :=
  let before := (s.inner.tokens.filter fun t => t.uid = uid).length
  let (r, s) := persist { s with inner := { s.inner with
    tokens := s.inner.tokens.filter fun t => t.uid ≠ uid } } write
  (r.map fun _ => before, s)

/-- `tokens`. -/
def tokens (s : DeviceStore) (uid : ℕ) : List (String × ℤ) :=
  (s.inner.tokens.filter fun t => t.uid = uid).map fun t => (t.token, t.lastSeen)

variable (s : DeviceStore) (write : Except String Unit)

/-! ### What the operations leave in memory -/

/-- Writing the file changes nothing in memory. -/
@[simp] theorem inner_persist : (s.persist write).2.inner = s.inner := by
  unfold persist
  cases write <;> rfl

/-- A registration takes the place of the one with its credential id. -/
@[simp] theorem inner_register (reg : Registration) :
    (s.register write reg).2.inner = { s.inner with
      registrations := s.inner.registrations.filter
        (fun r => r.credentialId ≠ reg.credentialId) ++ [reg] } :=
  inner_persist ..

/-- An assertion leaves the tokens. -/
@[simp] theorem tokens_touched (credentialId : String) (signCount : ℕ) (now : ℤ) :
    (s.touched write credentialId signCount now).2.inner.tokens = s.inner.tokens := by
  simp [touched]

/-- A token joins the others. -/
@[simp] theorem inner_issueToken (token : FixedBytes 32) (uid : ℕ) (credentialId : Option String)
    (now : ℤ) :
    (s.issueToken write token uid credentialId now).2.inner = { s.inner with
      tokens := s.inner.tokens ++
        [{ token := hexEncode token.1, uid, credentialId, lastSeen := now }] } :=
  inner_persist ..

/-- A token is dropped. -/
@[simp] theorem inner_dropToken (old : FixedBytes 32) :
    (s.dropToken write old).2.inner = { s.inner with
      tokens := s.inner.tokens.filter fun t => t.token ≠ hexEncode old.1 } :=
  inner_persist ..

/-- A credential goes with its tokens. -/
@[simp] theorem inner_revokeCredential (uid : ℕ) (credentialId : String) :
    (s.revokeCredential write uid credentialId).2.inner =
      { registrations := s.inner.registrations.filter fun r =>
          ¬(r.uid = uid ∧ r.credentialId = credentialId)
        tokens := s.inner.tokens.filter fun t =>
          ¬(t.uid = uid ∧ t.credentialId = some credentialId) } :=
  inner_persist ..

/-- All of a user go. -/
@[simp] theorem inner_revokeAll (uid : ℕ) :
    (s.revokeAll write uid).2.inner =
      { registrations := s.inner.registrations.filter fun r => r.uid ≠ uid
        tokens := s.inner.tokens.filter fun t => t.uid ≠ uid } :=
  inner_persist ..

/-- The tokens of a user go. -/
@[simp] theorem inner_revokeSessions (uid : ℕ) :
    (s.revokeSessions write uid).2.inner = { s.inner with
      tokens := s.inner.tokens.filter fun t => t.uid ≠ uid } :=
  inner_persist ..

variable {s write}

/-- The token that is issued is the one drawn. -/
theorem issueToken_eq_ok {token t : FixedBytes 32} {uid : ℕ} {credentialId : Option String}
    {now : ℤ} (h : (s.issueToken write token uid credentialId now).1 = .ok t) : t = token := by
  unfold issueToken at h
  dsimp only at h
  cases hp : (persist { s with inner := { s.inner with
      tokens := s.inner.tokens ++
        [{ token := hexEncode token.1, uid, credentialId, lastSeen := now }] } } write).1 with
  | error e =>
    rw [hp] at h
    cases h
  | ok u =>
    rw [hp] at h
    exact (Except.ok.inj h).symm

/-! ### Live tokens -/

/-- A token is live for an hour. -/
theorem live_iff {token : FixedBytes 32} {now : ℤ} {t : SessionToken} :
    live token now t = true ↔
      t.token = hexEncode token.1 ∧ now - t.lastSeen ≤ sessionIdleSecs :=
  decide_eq_true_iff

/-- **What a live token is**: an entry of the store for it, seen within the last hour. -/
theorem exists_of_validateToken {token : FixedBytes 32} {now : ℤ} {uid : ℕ}
    (h : s.validateToken token now = some uid) :
    ∃ t ∈ s.inner.tokens, t.token = hexEncode token.1 ∧ t.uid = uid ∧
      now - t.lastSeen ≤ sessionIdleSecs := by
  obtain ⟨t, ht, huid⟩ := Option.map_eq_some_iff.1 h
  obtain ⟨htoken, hseen⟩ := live_iff.1 (List.find?_some ht)
  exact ⟨t, List.mem_of_find?_eq_some ht, htoken, huid, hseen⟩

/-- An entry that was seen within the last hour makes its token live. -/
theorem validateToken_ne_none {t : SessionToken} (ht : t ∈ s.inner.tokens)
    {token : FixedBytes 32} (htoken : t.token = hexEncode token.1) {now : ℤ}
    (hseen : now - t.lastSeen ≤ sessionIdleSecs) : s.validateToken token now ≠ none := by
  intro hnone
  have hfind := List.find?_eq_none.1 (Option.map_eq_none_iff.1 hnone) t ht
  exact hfind (live_iff.2 ⟨htoken, hseen⟩)

/-- **With one entry for each token**, a token is live as its entry says. -/
theorem validateToken_of_nodup (hnodup : (s.inner.tokens.map SessionToken.token).Nodup)
    {t : SessionToken} (ht : t ∈ s.inner.tokens) {token : FixedBytes 32}
    (htoken : t.token = hexEncode token.1) (now : ℤ) :
    s.validateToken token now =
      if now - t.lastSeen ≤ sessionIdleSecs then some t.uid else none := by
  split
  · rename_i hseen
    cases hv : s.validateToken token now with
    | none => exact absurd hv (validateToken_ne_none ht htoken hseen)
    | some uid =>
      obtain ⟨t', ht', htoken', huid, -⟩ := exists_of_validateToken hv
      have heq := List.inj_on_of_nodup_map hnodup ht' ht (htoken'.trans htoken.symm)
      rw [← huid, heq]
  · rename_i hidle
    cases hv : s.validateToken token now with
    | none => rfl
    | some uid =>
      obtain ⟨t', ht', htoken', -, hseen⟩ := exists_of_validateToken hv
      have heq := List.inj_on_of_nodup_map hnodup ht' ht (htoken'.trans htoken.symm)
      exact absurd (heq ▸ hseen) hidle

/-- Whether a call was answered with a value or an error, and the store it leaves. -/
def outcome {α : Type} (r : Except String α × DeviceStore) : Except String Unit × DeviceStore :=
  (r.1.map fun _ => (), r.2)

/-- The file is as it was, or what is in memory. -/
theorem file_persist (s : DeviceStore) (write : Except String Unit) :
    (s.persist write).2.file = s.file ∨ (s.persist write).2.file = (s.persist write).2.inner := by
  unfold persist
  cases write with
  | ok u => exact .inr rfl
  | error e => exact .inl rfl

end DeviceStore

/-! ### Critical sections -/

/-- A critical section of the store that changes it. -/
inductive StoreSection where
  | register (reg : Registration)
  | touched (credentialId : String) (signCount : ℕ) (now : ℤ)
  | issueToken (token : FixedBytes 32) (uid : ℕ) (credentialId : Option String) (now : ℤ)
  | touchToken (token : FixedBytes 32) (now : ℤ)
  | dropToken (old : FixedBytes 32)
  | revokeCredential (uid : ℕ) (credentialId : String)
  | revokeAll (uid : ℕ)
  | revokeSessions (uid : ℕ)

namespace StoreSection

/-- What a critical section answers and leaves. -/
def run (s : DeviceStore) (write : Except String Unit) :
    StoreSection → Except String Unit × DeviceStore
  | register reg => s.register write reg
  | touched credentialId signCount now => s.touched write credentialId signCount now
  | issueToken token uid credentialId now =>
    DeviceStore.outcome (s.issueToken write token uid credentialId now)
  | touchToken token now => s.touchToken write token now
  | dropToken old => s.dropToken write old
  | revokeCredential uid credentialId =>
    DeviceStore.outcome (s.revokeCredential write uid credentialId)
  | revokeAll uid => DeviceStore.outcome (s.revokeAll write uid)
  | revokeSessions uid => DeviceStore.outcome (s.revokeSessions write uid)

/-- A critical section leaves the file, or makes it what is in memory. -/
theorem file_run (s : DeviceStore) (write : Except String Unit) (op : StoreSection) :
    (op.run s write).2.file = s.file ∨ (op.run s write).2.file = (op.run s write).2.inner := by
  cases op with
  | touchToken token now =>
    rw [run, DeviceStore.touchToken]
    dsimp only
    split
    · exact DeviceStore.file_persist _ write
    · exact .inl rfl
  | _ => exact DeviceStore.file_persist _ write

end StoreSection
end Quosh
