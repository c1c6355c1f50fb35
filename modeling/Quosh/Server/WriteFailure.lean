/-
# The device store when its file cannot be written

`crates/quosh-server/src/devices.rs`: each of the eight operations changes the lists in
memory and writes the file afterwards, `rotate_token` twice.  `Call` is a call of one of
them, or of the first half of `rotate_token` alone, behind which the daemon can be stopped;
`Call.run` is what it answers and leaves, when the `i`-th write that it attempts ends in
`writes i`.

A write that fails leaves the file, and the change stays in memory.  So a call is
`Atomic` exactly when its writes succeed, or its first one fails and there was nothing to
change (`atomic_iff`); `rotate_token` cannot take back what it has dropped when issuing
the new token fails.
-/

import Quosh.Control.Machine
import Quosh.Data.Entries
import Quosh.Server.Devices

namespace Quosh

open Bytes

namespace DeviceStore

/-- A call of an operation that changes the store: one critical section, or the two of
`rotate_token`. -/
inductive Call where
  | one (op : StoreSection)
  | rotateToken (old : Option (FixedBytes 32)) (token : FixedBytes 32) (uid : ℕ)
    (credentialId : Option String) (now : ℤ)

namespace Call

/-- How many writes of the file a call attempts that is not cut short by an error. -/
def attempts : Call → ℕ
  | rotateToken (some _) .. => 2
  | _ => 1

/-- A call, when the writes that it attempts end as given. -/
def run (s : DeviceStore) (writes : ℕ → Except String Unit) :
    Call → Except String Unit × DeviceStore
  | one op => op.run s (writes 0)
  | rotateToken none token uid credentialId now =>
    outcome (s.rotateToken (writes 0) (writes 0) none token uid credentialId now)
  | rotateToken (some old) token uid credentialId now =>
    outcome (s.rotateToken (writes 0) (writes 1) (some old) token uid credentialId now)

end Call

/-- What a critical section would change is as it would be already: nothing to drop or
revoke, the assertion recorded, the registration the latest one. -/
def NothingToChange (s : DeviceStore) : StoreSection → Prop
  | .register reg => ∃ rest, s.inner.registrations = rest ++ [reg] ∧
      ∀ r ∈ rest, r.credentialId ≠ reg.credentialId
  | .touched credentialId signCount now => ∀ r, s.find credentialId = some r →
      signCount ≤ r.signCount ∧ r.lastUsed = some now
  | .issueToken .. => False
  | .touchToken token now => ∀ t,
      (s.inner.tokens.find? fun t => t.token = hexEncode token.1) = some t → t.lastSeen = now
  | .dropToken old => ∀ t ∈ s.inner.tokens, t.token ≠ hexEncode old.1
  | .revokeCredential uid credentialId =>
      (∀ r ∈ s.inner.registrations, ¬(r.uid = uid ∧ r.credentialId = credentialId)) ∧
      ∀ t ∈ s.inner.tokens, ¬(t.uid = uid ∧ t.credentialId = some credentialId)
  | .revokeAll uid =>
      (∀ r ∈ s.inner.registrations, r.uid ≠ uid) ∧ ∀ t ∈ s.inner.tokens, t.uid ≠ uid
  | .revokeSessions uid => ∀ t ∈ s.inner.tokens, t.uid ≠ uid

namespace Call

/-- The first critical section of a call would change nothing.  `issue_token`, which is all
of a rotation without an old token, always does. -/
def NothingToChange (s : DeviceStore) : Call → Prop
  | one op => DeviceStore.NothingToChange s op
  | rotateToken none .. => False
  | rotateToken (some old) .. => DeviceStore.NothingToChange s (.dropToken old)

/-- Every write of a call succeeds, or its first one fails with nothing to change. -/
def WritesHold (s : DeviceStore) (writes : ℕ → Except String Unit) (call : Call) : Prop :=
  (∀ i < call.attempts, writes i = .ok ()) ∨ (writes 0 ≠ .ok () ∧ call.NothingToChange s)

end Call

/-- What an operation that is atomic leaves: memory and file agree, and after an error both
are as they were. -/
structure Atomic (s : DeviceStore) (r : Except String Unit × DeviceStore) : Prop where
  agree : r.2.inner = r.2.file
  restored : r.1 ≠ .ok () → r.2 = s

/-- The store under calls, each with how its writes end. -/
def callMachine : Machine DeviceStore (Call × (ℕ → Except String Unit)) where
  Allows _ _ := True
  act s a := (a.1.run s a.2).2

/-! ### One write -/

variable {s : DeviceStore}

/-- **A change behind one write is atomic** iff the write succeeds or the change is none.
The answer `f` of the operation is a value of its own. -/
theorem atomic_persist_iff {α : Type} (f : Unit → α) (hs : s.inner = s.file) (p : Persisted)
    (write : Except String Unit) :
    Atomic s (outcome ((persist { s with inner := p } write).1.map f,
      (persist { s with inner := p } write).2)) ↔ write = .ok () ∨ p = s.inner := by
  cases write with
  | ok u => exact ⟨fun _ => .inl rfl, fun _ => ⟨rfl, fun h => absurd rfl h⟩⟩
  | error e =>
    constructor
    · intro h
      exact .inr (h.agree.trans hs.symm)
    · rintro (h | rfl)
      · cases h
      · exact ⟨hs, fun _ => rfl⟩

/-- The same, of an operation that answers nothing. -/
theorem atomic_persist_iff' (hs : s.inner = s.file) (p : Persisted) (write : Except String Unit) :
    Atomic s (persist { s with inner := p } write) ↔ write = .ok () ∨ p = s.inner := by
  rw [← atomic_persist_iff id hs]
  cases write <;> rfl

/-! ### When there is nothing to change -/

/-- Other registrations change the store. -/
theorem with_registrations_eq_iff {p : Persisted} {l : List Registration} :
    { p with registrations := l } = p ↔ l = p.registrations := by
  obtain ⟨registrations, tokens⟩ := p
  exact ⟨fun h => congrArg Persisted.registrations h, fun h => by rw [h]⟩

/-- Other tokens do. -/
theorem with_tokens_eq_iff {p : Persisted} {l : List SessionToken} :
    { p with tokens := l } = p ↔ l = p.tokens := by
  obtain ⟨registrations, tokens⟩ := p
  exact ⟨fun h => congrArg Persisted.tokens h, fun h => by rw [h]⟩

/-- The store is its two lists. -/
theorem mk_eq_iff {p : Persisted} {l : List Registration} {l' : List SessionToken} :
    { registrations := l, tokens := l' } = p ↔ l = p.registrations ∧ l' = p.tokens := by
  obtain ⟨registrations, tokens⟩ := p
  exact Persisted.mk.injEq .. ▸ Iff.rfl

/-- Registering the latest registration again changes nothing. -/
theorem register_eq_iff {reg : Registration} :
    { s.inner with
        registrations := s.inner.registrations.filter
          (fun r => r.credentialId ≠ reg.credentialId) ++ [reg] } = s.inner ↔
      s.NothingToChange (.register reg) := by
  rw [with_registrations_eq_iff, Entries.filter_append_eq_self_iff (by simp)]
  simp only [decide_eq_true_eq]
  exact Iff.rfl

/-- An assertion that is recorded changes nothing. -/
theorem touched_eq_iff {credentialId : String} {signCount : ℕ} {now : ℤ} :
    { s.inner with
        registrations := s.inner.registrations.modify
          (s.inner.registrations.findIdx fun r => r.credentialId = credentialId) fun r =>
            { r with signCount := max r.signCount signCount, lastUsed := some now } } =
      s.inner ↔
      s.NothingToChange (.touched credentialId signCount now) := by
  rw [with_registrations_eq_iff, Entries.modify_findIdx_eq_self_iff]
  refine forall₂_congr fun r _ => ⟨fun h => ?_, fun ⟨hsign, hused⟩ => ?_⟩
  · have hsign : max r.signCount signCount = r.signCount := congrArg Registration.signCount h
    have hused : some now = r.lastUsed := congrArg Registration.lastUsed h
    exact ⟨by omega, hused.symm⟩
  · rw [max_eq_left hsign, ← hused]

/-- A token seen at the time already is not changed. -/
theorem touchToken_eq_iff {token : FixedBytes 32} {now : ℤ} :
    { s.inner with
        tokens := s.inner.tokens.modify
          (s.inner.tokens.findIdx fun t => t.token = hexEncode token.1) fun t =>
            { t with lastSeen := now } } = s.inner ↔
      s.NothingToChange (.touchToken token now) := by
  rw [with_tokens_eq_iff, Entries.modify_findIdx_eq_self_iff]
  refine forall₂_congr fun t _ => ⟨fun h => ?_, fun h => ?_⟩
  · exact (congrArg SessionToken.lastSeen h).symm
  · rw [← h]

/-- Dropping a token that is not there changes nothing. -/
theorem dropToken_eq_iff {old : FixedBytes 32} :
    { s.inner with tokens := s.inner.tokens.filter fun t => t.token ≠ hexEncode old.1 } =
      s.inner ↔ s.NothingToChange (.dropToken old) := by
  rw [with_tokens_eq_iff, List.filter_eq_self]
  simp only [decide_eq_true_eq]
  exact Iff.rfl

/-- Revoking changes nothing when there is nothing to revoke. -/
theorem revokeCredential_eq_iff {uid : ℕ} {credentialId : String} :
    { registrations := s.inner.registrations.filter fun r =>
        ¬(r.uid = uid ∧ r.credentialId = credentialId)
      tokens := s.inner.tokens.filter fun t =>
        ¬(t.uid = uid ∧ t.credentialId = some credentialId) } = s.inner ↔
      s.NothingToChange (.revokeCredential uid credentialId) := by
  rw [mk_eq_iff, List.filter_eq_self, List.filter_eq_self]
  simp only [decide_eq_true_eq]
  exact Iff.rfl

/-- The same of a user. -/
theorem revokeAll_eq_iff {uid : ℕ} :
    { registrations := s.inner.registrations.filter fun r => r.uid ≠ uid
      tokens := s.inner.tokens.filter fun t => t.uid ≠ uid } = s.inner ↔
      s.NothingToChange (.revokeAll uid) := by
  rw [mk_eq_iff, List.filter_eq_self, List.filter_eq_self]
  simp only [decide_eq_true_eq]
  exact Iff.rfl

/-- The same of the tokens of a user. -/
theorem revokeSessions_eq_iff {uid : ℕ} :
    { s.inner with tokens := s.inner.tokens.filter fun t => t.uid ≠ uid } = s.inner ↔
      s.NothingToChange (.revokeSessions uid) := by
  rw [with_tokens_eq_iff, List.filter_eq_self]
  simp only [decide_eq_true_eq]
  exact Iff.rfl

/-- Issuing a token always changes the list. -/
theorem issueToken_ne (p : Persisted) (t : SessionToken) :
    { p with tokens := p.tokens ++ [t] } ≠ p := by
  rw [Ne, with_tokens_eq_iff, List.append_right_eq_self]
  exact List.cons_ne_nil t []

/-! ### Which calls are atomic -/

section

variable (hs : s.inner = s.file) (writes : ℕ → Except String Unit)

/-- A call of one write. -/
theorem writesHold_iff {call : Call} (hone : call.attempts = 1) :
    call.WritesHold s writes ↔ writes 0 = .ok () ∨ call.NothingToChange s := by
  have hall : (∀ i < call.attempts, writes i = .ok ()) ↔ writes 0 = .ok () := by
    rw [hone]
    constructor
    · intro h
      exact h 0 Nat.one_pos
    · intro h i hi
      rwa [Nat.lt_one_iff.1 hi]
  rw [Call.WritesHold, hall]
  constructor
  · rintro (h | ⟨-, h⟩)
    · exact .inl h
    · exact .inr h
  · intro h
    by_cases hok : writes 0 = .ok ()
    · exact .inl hok
    · exact .inr ⟨hok, h.resolve_left hok⟩

include hs

/-- **Issuing a token** is atomic when the write succeeds, and only then. -/
theorem atomic_issueToken_iff (write : Except String Unit) (token : FixedBytes 32) (uid : ℕ)
    (credentialId : Option String) (now : ℤ) :
    Atomic s (outcome (s.issueToken write token uid credentialId now)) ↔ write = .ok () := by
  refine (atomic_persist_iff (fun _ => token) hs _ write).trans ⟨?_, .inl⟩
  rintro (h | h)
  · exact h
  · exact absurd h (issueToken_ne s.inner _)

/-- **Touching a token** writes the file only when it finds the token. -/
theorem atomic_touchToken_iff (write : Except String Unit) (token : FixedBytes 32) (now : ℤ) :
    Atomic s (s.touchToken write token now) ↔
      write = .ok () ∨ s.NothingToChange (.touchToken token now) := by
  unfold touchToken
  dsimp only
  split
  · rw [← touchToken_eq_iff]
    exact atomic_persist_iff' hs _ write
  · rename_i hnone
    have hfind : (s.inner.tokens.find? fun t => t.token = hexEncode token.1) = none := by
      rw [List.find?_eq_getElem?_findIdx, List.getElem?_eq_none_iff]
      exact not_lt.1 hnone
    refine ⟨fun _ => .inr fun t ht => ?_, fun _ => ⟨hs, fun _ => rfl⟩⟩
    exact nomatch hfind.symm.trans ht

/-- **Rotating a token** is atomic when both writes succeed, or when there is nothing to
drop and the first one fails.  After the second one fails the old token is gone. -/
theorem atomic_rotateToken_iff (writeDrop writeIssue : Except String Unit)
    (old token : FixedBytes 32) (uid : ℕ) (credentialId : Option String) (now : ℤ) :
    Atomic s (outcome (s.rotateToken writeDrop writeIssue (some old) token uid credentialId now)) ↔
      (writeDrop = .ok () ∧ writeIssue = .ok ()) ∨
        (writeDrop ≠ .ok () ∧ s.NothingToChange (.dropToken old)) := by
  cases writeDrop with
  | error e =>
    have hdrop := atomic_persist_iff id hs { s.inner with
      tokens := s.inner.tokens.filter fun t => t.token ≠ hexEncode old.1 } (.error e)
    rw [dropToken_eq_iff] at hdrop
    refine hdrop.trans ⟨?_, ?_⟩
    · rintro (h | h)
      · cases h
      · exact .inr ⟨(nomatch ·), h⟩
    · rintro (⟨h, -⟩ | ⟨-, h⟩)
      · cases h
      · exact .inr h
  | ok u =>
    cases writeIssue with
    | error e =>
      constructor
      · intro h
        exact absurd h.agree (issueToken_ne (s.dropToken (.ok ()) old).2.inner _)
      · rintro (⟨-, h⟩ | ⟨h, -⟩)
        · cases h
        · exact absurd rfl h
    | ok u => exact ⟨fun _ => .inl ⟨rfl, rfl⟩, fun _ => ⟨rfl, fun h => absurd rfl h⟩⟩

/-- **A critical section is atomic** when its write succeeds or it has nothing to change. -/
theorem atomic_section_iff (write : Except String Unit) (op : StoreSection) :
    Atomic s (op.run s write) ↔ write = .ok () ∨ s.NothingToChange op := by
  cases op with
  | register reg =>
    rw [← register_eq_iff]
    exact atomic_persist_iff' hs _ _
  | touched credentialId signCount now =>
    rw [← touched_eq_iff]
    exact atomic_persist_iff' hs _ _
  | issueToken token uid credentialId now =>
    exact (atomic_issueToken_iff hs _ token uid credentialId now).trans (or_iff_left not_false).symm
  | touchToken token now => exact atomic_touchToken_iff hs _ token now
  | dropToken old =>
    rw [← dropToken_eq_iff]
    exact atomic_persist_iff' hs _ _
  | revokeCredential uid credentialId =>
    rw [← revokeCredential_eq_iff]
    exact atomic_persist_iff _ hs _ _
  | revokeAll uid =>
    rw [← revokeAll_eq_iff]
    exact atomic_persist_iff _ hs _ _
  | revokeSessions uid =>
    rw [← revokeSessions_eq_iff]
    exact atomic_persist_iff _ hs _ _

/-- **A call is atomic exactly when its writes hold**, where memory and file agree. -/
theorem atomic_run_iff (call : Call) :
    Atomic s (call.run s writes) ↔ call.WritesHold s writes := by
  rcases call with op | ⟨_ | old, token, uid, credentialId, now⟩
  · rw [writesHold_iff writes rfl]
    exact atomic_section_iff hs _ op
  · rw [writesHold_iff writes rfl]
    exact (atomic_issueToken_iff hs _ token uid credentialId now).trans (or_iff_left not_false).symm
  · refine (atomic_rotateToken_iff hs _ _ old token uid credentialId now).trans
      (or_congr ⟨?_, ?_⟩ Iff.rfl)
    · rintro ⟨hdrop, hissue⟩ i hi
      have hi : i < 2 := hi
      rcases (by omega : i = 0 ∨ i = 1) with rfl | rfl
      · exact hdrop
      · exact hissue
    · intro h
      exact ⟨h 0 Nat.two_pos, h 1 Nat.one_lt_two⟩

end

/-! ### Runs -/

/-- A call whose writes hold keeps memory and file in agreement. -/
theorem agree_run (hs : s.inner = s.file) {writes : ℕ → Except String Unit} {call : Call}
    (hwrites : call.WritesHold s writes) :
    (call.run s writes).2.inner = (call.run s writes).2.file :=
  ((atomic_run_iff hs writes call).2 hwrites).agree

/-- **Memory and file agree as long as writes hold, and there a call is atomic exactly when
its own writes do.**  The run is of any calls, from any store whose file was read. -/
theorem atomic_iff {t : DeviceStore} (hs : s.inner = s.file)
    (h : callMachine.Run (fun s a => a.1.WritesHold s a.2) s t) :
    t.inner = t.file ∧ ∀ writes call,
      Atomic t (Call.run t writes call) ↔ call.WritesHold t writes := by
  have hagree : t.inner = t.file := by
    refine h.invariant (I := fun t => t.inner = t.file) hs ?_
    intro t a _ ht _ hwrites
    exact agree_run ht hwrites
  exact ⟨hagree, fun writes call => atomic_run_iff hagree writes call⟩

/-- A registration of a passkey. -/
def enrolled : Registration :=
  { uid := 1000, credentialId := "aa", publicKey := "04", rpId := "quosh.jtcs.dev"
    origin := "https://quosh.jtcs.dev", userName := "u1000@host", signCount := 0
    created := 100, lastUsed := none }

/-- A registration and its first token, both written. -/
def firstCalls : List (Call × (ℕ → Except String Unit)) :=
  [(.one (.register enrolled), fun _ => .ok ()),
    (.one (.issueToken (constBytes 32 7) 1000 (some "aa") 100), fun _ => .ok ())]

/-- The hypotheses of `atomic_iff` are satisfiable: a passkey is enrolled and a token issued,
and the sessions of another user are revoked while the file cannot be written. -/
theorem atomic_iff_revokeOthers :
    Atomic (callMachine.acts {} firstCalls)
      (Call.run (callMachine.acts {} firstCalls) (fun _ => .error "no space")
        (.one (.revokeSessions 1001))) := by
  have hall : callMachine.AllowsAll (fun s a => a.1.WritesHold s a.2) {} firstCalls :=
    And.intro trivial ⟨.inl fun _ _ => rfl, trivial, .inl fun _ _ => rfl, trivial⟩
  refine ((atomic_iff rfl (Machine.run_acts hall)).2 _ _).2 (.inr ⟨(nomatch ·), ?_⟩)
  intro t ht
  rw [List.mem_singleton.1 ht]
  decide

/-- **A registration that was refused stays in memory** when the file cannot be written, so
the passkey is good until a restart. -/
theorem refused_registration_stays :
    ¬∀ s t : DeviceStore, s.inner = s.file → callMachine.AnyRun s t → t.inner = t.file →
      ∀ writes call, Atomic t (Call.run t writes call) := by
  intro h
  have hatomic := h {} {} rfl .refl rfl (fun _ => .error "no space") (.one (.register enrolled))
  exact absurd hatomic.agree (by decide)

end DeviceStore
end Quosh
