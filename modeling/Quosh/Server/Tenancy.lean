/-
# Users of the device store

`crates/quosh-server/src/devices.rs`, as the handshake of `auth.rs` and the helper of
`helper.rs` call it, for one user or another in any order: `OnBehalf` says when the daemon
makes a call for a user.  A store is `Reachable` by calls for any users,
with any failures to write the file, and by restarts.

What belongs to another user stays (`Unchanged`), except that `register` and `touched` go
by the credential id alone, and the client chooses that id.  An enrolment under the id of
another user's passkey takes that passkey away (`unchanged_iff`, `enrolment_takes_over`);
only then can an assertion write into a registration that it did not find.
-/

import Quosh.Data.Entries
import Quosh.Server.Devices

namespace Quosh

open Bytes

namespace DeviceStore

/-- When the daemon makes a call for a user: an enrolment stores the uid of the nonce
and otherwise what the client attests, a rotation drops a token that was validated as the
user's, and a new token is drawn at random.  An assertion has found a registration of the
user's, but by the time of the call it may be gone or somebody else's. -/
def OnBehalf (uid : ℕ) (s : DeviceStore) : StoreSection → Prop
  | .register reg => reg.uid = uid
  | .touched .. => True
  | .issueToken token uid' _ _ => uid' = uid ∧ ∀ t ∈ s.inner.tokens, t.token ≠ hexEncode token.1
  | .touchToken token _ => ∀ t ∈ s.inner.tokens, t.token = hexEncode token.1 → t.uid = uid
  | .dropToken old => ∀ t ∈ s.inner.tokens, t.token = hexEncode old.1 → t.uid = uid
  | .revokeCredential uid' _ => uid' = uid
  | .revokeAll uid' => uid' = uid
  | .revokeSessions uid' => uid' = uid

/-- A call for the credential of another user's registration: an enrolment, or an
assertion with something to write. -/
def TakesOver (v : ℕ) (s : DeviceStore) : StoreSection → Prop
  | .register reg => ∃ r ∈ s.registrations v, r.credentialId = reg.credentialId
  | .touched credentialId signCount now => ∃ r ∈ s.registrations v,
      r.credentialId = credentialId ∧ (r.signCount < signCount ∨ r.lastUsed ≠ some now)
  | _ => False

/-- The stores that calls for users and restarts lead to. -/
inductive Reachable : DeviceStore → Prop
  | empty : Reachable {}
  | call {s : DeviceStore} (hs : Reachable s) (uid : ℕ) (op : StoreSection)
    (hop : OnBehalf uid s op) (write : Except String Unit) : Reachable (op.run s write).2
  | restart {s : DeviceStore} (hs : Reachable s) : Reachable { s with inner := s.file }

/-- Nothing of a user's has changed: registrations, what is found under their credential
ids, and tokens. -/
structure Unchanged (v : ℕ) (s s' : DeviceStore) : Prop where
  registrations : s'.registrations v = s.registrations v
  find : ∀ r ∈ s.registrations v, s'.find r.credentialId = s.find r.credentialId
  tokens : (s'.inner.tokens.filter fun t => t.uid = v) = s.inner.tokens.filter fun t => t.uid = v

/-! ### One entry for each name -/

/-- Credentials and tokens have one entry each. -/
structure Distinct (p : Persisted) : Prop where
  registrations : (p.registrations.map Registration.credentialId).Nodup
  tokens : (p.tokens.map SessionToken.token).Nodup

/-- An assertion that is recorded keeps the credential ids. -/
theorem map_touched (s : DeviceStore) (write : Except String Unit) (credentialId : String)
    (signCount : ℕ) (now : ℤ) :
    (s.touched write credentialId signCount now).2.inner.registrations.map
      Registration.credentialId = s.inner.registrations.map Registration.credentialId := by
  simp only [touched, inner_persist]
  exact Entries.map_modify_of_eq Registration.credentialId (fun _ => by rfl) _

/-- A token that is touched stays the token. -/
theorem map_touchToken (s : DeviceStore) (write : Except String Unit) (token : FixedBytes 32)
    (now : ℤ) : (s.touchToken write token now).2.inner.tokens.map SessionToken.token =
      s.inner.tokens.map SessionToken.token := by
  rw [touchToken]
  dsimp only
  split
  · rw [inner_persist]
    exact Entries.map_modify_of_eq SessionToken.token (fun _ => by rfl) _
  · rfl

/-- Registrations are not touched with a token. -/
theorem registrations_touchToken (s : DeviceStore) (write : Except String Unit)
    (token : FixedBytes 32) (now : ℤ) :
    (s.touchToken write token now).2.inner.registrations = s.inner.registrations := by
  rw [touchToken]
  dsimp only
  split
  · rw [inner_persist]
  · rfl

/-- A call keeps names distinct in memory. -/
theorem Distinct.run {s : DeviceStore} (h : Distinct s.inner) {uid : ℕ} {op : StoreSection}
    (hop : OnBehalf uid s op) (write : Except String Unit) :
    Distinct (op.run s write).2.inner := by
  obtain ⟨hregs, htokens⟩ := h
  cases op with
  | register reg =>
    rw [StoreSection.run, inner_register]
    refine ⟨Entries.nodup_map_append (Entries.nodup_map_filter _ hregs) fun r hr => ?_, htokens⟩
    exact of_decide_eq_true (List.mem_filter.1 hr).2
  | touched credentialId signCount now =>
    rw [StoreSection.run]
    refine ⟨?_, ?_⟩
    · rwa [map_touched]
    · rwa [tokens_touched]
  | issueToken token uid' credentialId now =>
    rw [StoreSection.run, outcome, inner_issueToken]
    exact ⟨hregs, Entries.nodup_map_append htokens hop.2⟩
  | touchToken token now =>
    rw [StoreSection.run]
    refine ⟨?_, ?_⟩
    · rwa [registrations_touchToken]
    · rwa [map_touchToken]
  | dropToken old =>
    rw [StoreSection.run, inner_dropToken]
    exact ⟨hregs, Entries.nodup_map_filter _ htokens⟩
  | revokeCredential uid' credentialId =>
    rw [StoreSection.run, outcome, inner_revokeCredential]
    exact ⟨Entries.nodup_map_filter _ hregs, Entries.nodup_map_filter _ htokens⟩
  | revokeAll uid' =>
    rw [StoreSection.run, outcome, inner_revokeAll]
    exact ⟨Entries.nodup_map_filter _ hregs, Entries.nodup_map_filter _ htokens⟩
  | revokeSessions uid' =>
    rw [StoreSection.run, outcome, inner_revokeSessions]
    exact ⟨hregs, Entries.nodup_map_filter _ htokens⟩

/-- **Names stay distinct**, in memory and in the file. -/
theorem Reachable.distinct {s : DeviceStore} (hs : Reachable s) :
    Distinct s.inner ∧ Distinct s.file := by
  induction hs with
  | empty => exact ⟨⟨List.nodup_nil, List.nodup_nil⟩, ⟨List.nodup_nil, List.nodup_nil⟩⟩
  | @call s hs uid op hop write ih =>
    have hinner := ih.1.run hop write
    refine ⟨hinner, ?_⟩
    rcases op.file_run s write with hfile | hfile
    · rw [hfile]
      exact ih.2
    · rw [hfile]
      exact hinner
  | restart hs ih => exact ⟨ih.2, ih.2⟩

/-! ### What a call leaves alone -/

/-- The registrations of a user. -/
theorem mem_registrations {s : DeviceStore} {v : ℕ} {r : Registration} :
    r ∈ s.registrations v ↔ r ∈ s.inner.registrations ∧ r.uid = v := by
  rw [registrations, List.mem_filter, decide_eq_true_iff]

/-- A registration is found by its credential id. -/
theorem credentialId_of_find {s : DeviceStore} {credentialId : String} {r : Registration}
    (h : s.find credentialId = some r) : r.credentialId = credentialId := by
  have hfound := List.find?_some h
  exact of_decide_eq_true hfound

/-- What is found under the credential of an assertion. -/
theorem find_touched (s : DeviceStore) (write : Except String Unit) (credentialId : String)
    (signCount : ℕ) (now : ℤ) :
    (s.touched write credentialId signCount now).2.find credentialId =
      (s.find credentialId).map fun r =>
        { r with signCount := max r.signCount signCount, lastUsed := some now } := by
  unfold find
  simp only [touched, inner_persist]
  exact Entries.find?_modify_findIdx fun _ => rfl

/-- Under the credential id of a user's registration there is no other. -/
theorem Distinct.uid_eq {s : DeviceStore} (hd : Distinct s.inner) {v : ℕ} {r x : Registration}
    (hr : r ∈ s.registrations v) (hx : x ∈ s.inner.registrations)
    (hid : x.credentialId = r.credentialId) : x.uid = v := by
  obtain ⟨hmem, huid⟩ := mem_registrations.1 hr
  rw [List.inj_on_of_nodup_map hd.registrations hx hmem hid, huid]

/-- Dropping entries of one user does not change a selection of another's. -/
theorem filter_unchanged {α : Type} {l : List α} {p q : α → Bool} {u v : ℕ} (owner : α → ℕ)
    (huv : u ≠ v) (hp : ∀ x ∈ l, p x = false → owner x = u)
    (hq : ∀ x ∈ l, q x = true → owner x = v) : (l.filter p).filter q = l.filter q := by
  refine Entries.filter_filter_of_imp fun x hx hqx => ?_
  cases hpx : p x with
  | true => rfl
  | false => exact absurd ((hp x hx hpx).symm.trans (hq x hx hqx)) huv

section

variable {s : DeviceStore} (hd : Distinct s.inner) {u v : ℕ} (huv : u ≠ v)
  (write : Except String Unit)

include hd

/-- A call that keeps every selection of a user's entries, by uid or by credential id,
keeps what is theirs. -/
theorem Unchanged.of_filter {s' : DeviceStore}
    (hregs : ∀ q : Registration → Bool,
      (∀ r ∈ s.inner.registrations, q r = true → r.uid = v) →
      (∀ r r' : Registration, r.uid = r'.uid → r.credentialId = r'.credentialId → q r = q r') →
      s'.inner.registrations.filter q = s.inner.registrations.filter q)
    (htokens : (s'.inner.tokens.filter fun t => t.uid = v) =
      s.inner.tokens.filter fun t => t.uid = v) : Unchanged v s s' := by
  refine ⟨?_, fun r hr => ?_, htokens⟩
  · refine hregs _ (fun _ _ hq => of_decide_eq_true hq) fun r r' huid _ => ?_
    rw [huid]
  · unfold DeviceStore.find
    rw [← List.head?_filter, ← List.head?_filter, hregs _ fun x hx hq =>
      hd.uid_eq hr hx (of_decide_eq_true hq)]
    intro x x' _ hid
    rw [hid]

/-- **An assertion** leaves a user alone unless the credential is theirs and there is
something to write. -/
theorem touched_unchanged {credentialId : String} {signCount : ℕ} {now : ℤ}
    (hother : ∀ r ∈ s.registrations v, r.credentialId = credentialId →
      signCount ≤ r.signCount ∧ r.lastUsed = some now) :
    Unchanged v s (s.touched write credentialId signCount now).2 := by
  refine .of_filter hd (fun q hq hqeq => ?_) (by rw [tokens_touched])
  simp only [touched, inner_persist]
  cases hfind : s.find credentialId with
  | none =>
    rw [find, List.find?_eq_getElem?_findIdx] at hfind
    rw [List.modify_eq_self (List.getElem?_eq_none_iff.1 hfind)]
  | some r =>
    have hmem := List.mem_of_find?_eq_some hfind
    have hid := credentialId_of_find hfind
    rw [find, List.find?_eq_getElem?_findIdx] at hfind
    by_cases huid : r.uid = v
    · obtain ⟨hsign, hused⟩ := hother r (mem_registrations.2 ⟨hmem, huid⟩) hid
      rw [Entries.modify_of_eq _ fun x hx => ?_]
      obtain rfl := Option.some.inj (hfind.symm.trans hx)
      rw [max_eq_left hsign, ← hused]
    · have hnot : q r = false := Bool.eq_false_iff.2 fun hqr => huid (hq r hmem hqr)
      refine Entries.filter_modify_of_not _ _ fun x hx => ?_
      obtain rfl := Option.some.inj (hfind.symm.trans hx)
      refine ⟨hnot, ?_⟩
      rw [← hnot]
      exact hqeq _ _ rfl rfl

include huv

/-- **An enrolment** leaves a user alone unless it takes over a registration of theirs. -/
theorem register_unchanged {reg : Registration} (hreg : reg.uid = u)
    (hother : ∀ r ∈ s.registrations v, r.credentialId ≠ reg.credentialId) :
    Unchanged v s (s.register write reg).2 := by
  have hkeep : ∀ x ∈ s.inner.registrations, x.uid = v →
      decide (x.credentialId ≠ reg.credentialId) = true := by
    intro x hx huid
    exact decide_eq_true (hother x (mem_registrations.2 ⟨hx, huid⟩))
  refine ⟨?_, fun r hr => ?_, ?_⟩
  · have hne : decide (reg.uid = v) = false := decide_eq_false fun h => huv (hreg.symm.trans h)
    rw [registrations, inner_register, List.filter_append, Entries.filter_filter_of_imp
      fun x hx hq => hkeep x hx (of_decide_eq_true hq), List.filter_singleton, hne, registrations]
    exact List.append_nil _
  · have hne : decide (reg.credentialId = r.credentialId) = false :=
      decide_eq_false fun h => hother r hr h.symm
    rw [find, inner_register, List.find?_append, Entries.find?_filter_of_imp
      fun x hx hq => hkeep x hx (hd.uid_eq hr hx (of_decide_eq_true hq)), List.find?_singleton,
      hne, find]
    exact Option.or_none
  · rw [inner_register]

/-- **Touching a token** of one user leaves another user alone. -/
theorem touchToken_unchanged {token : FixedBytes 32} {now : ℤ}
    (hown : ∀ t ∈ s.inner.tokens, t.token = hexEncode token.1 → t.uid = u) :
    Unchanged v s (s.touchToken write token now).2 := by
  refine .of_filter hd (fun q _ _ => by rw [registrations_touchToken]) ?_
  rw [touchToken]
  dsimp only
  split
  · rw [inner_persist]
    refine Entries.filter_modify_of_not _ _ fun t ht => ?_
    have hfind := List.find?_eq_getElem?_findIdx.trans ht
    have hfound := List.find?_some hfind
    have huid := hown t (List.mem_of_find?_eq_some hfind) (of_decide_eq_true hfound)
    have hne : decide (t.uid = v) = false := decide_eq_false fun h => huv (huid.symm.trans h)
    exact ⟨hne, hne⟩
  · rfl

/-- **A call for a user leaves another user alone**, other than an enrolment that takes
over a registration of theirs. -/
theorem unchanged_of_not_takesOver {op : StoreSection} (hop : OnBehalf u s op)
    (hnot : ¬TakesOver v s op) : Unchanged v s (op.run s write).2 := by
  cases op with
  | register reg => exact register_unchanged hd huv write hop fun r hr hid => hnot ⟨r, hr, hid⟩
  | touched credentialId signCount now =>
    refine touched_unchanged hd write fun r hr hid => ?_
    by_contra hnew
    refine hnot ⟨r, hr, hid, ?_⟩
    by_cases hsign : r.signCount < signCount
    · exact .inl hsign
    · exact .inr fun hused => hnew ⟨not_lt.1 hsign, hused⟩
  | issueToken token uid' credentialId now =>
    obtain rfl := hop.1
    refine .of_filter hd (fun q _ _ => ?_) ?_
    · rw [StoreSection.run, outcome, inner_issueToken]
    · rw [StoreSection.run, outcome, inner_issueToken, List.filter_append]
      simp [huv]
  | touchToken token now => exact touchToken_unchanged hd huv write hop
  | dropToken old =>
    refine .of_filter hd (fun q _ _ => ?_) ?_
    · rw [StoreSection.run, inner_dropToken]
    · rw [StoreSection.run, inner_dropToken]
      exact filter_unchanged SessionToken.uid huv
        (fun x hx hdrop => hop x hx (of_not_not (of_decide_eq_false hdrop)))
        fun x _ hq => of_decide_eq_true hq
  | revokeCredential uid' credentialId =>
    obtain rfl : uid' = u := hop
    refine .of_filter hd (fun q hq _ => ?_) ?_
    · rw [StoreSection.run, outcome, inner_revokeCredential]
      exact filter_unchanged Registration.uid huv
        (fun x _ hdrop => (of_not_not (of_decide_eq_false hdrop)).1) hq
    · rw [StoreSection.run, outcome, inner_revokeCredential]
      exact filter_unchanged SessionToken.uid huv
        (fun x _ hdrop => (of_not_not (of_decide_eq_false hdrop)).1)
        fun x _ hq => of_decide_eq_true hq
  | revokeAll uid' =>
    obtain rfl : uid' = u := hop
    refine .of_filter hd (fun q hq _ => ?_) ?_
    · rw [StoreSection.run, outcome, inner_revokeAll]
      exact filter_unchanged Registration.uid huv
        (fun x _ hdrop => of_not_not (of_decide_eq_false hdrop)) hq
    · rw [StoreSection.run, outcome, inner_revokeAll]
      exact filter_unchanged SessionToken.uid huv
        (fun x _ hdrop => of_not_not (of_decide_eq_false hdrop))
        fun x _ hq => of_decide_eq_true hq
  | revokeSessions uid' =>
    obtain rfl : uid' = u := hop
    refine .of_filter hd (fun q _ _ => ?_) ?_
    · rw [StoreSection.run, outcome, inner_revokeSessions]
    · rw [StoreSection.run, outcome, inner_revokeSessions]
      exact filter_unchanged SessionToken.uid huv
        (fun x _ hdrop => of_not_not (of_decide_eq_false hdrop))
        fun x _ hq => of_decide_eq_true hq

end

/-! ### The store on behalf of one user -/

/-- A call that takes over a registration of a user changes what they have. -/
theorem not_unchanged_of_takesOver {s : DeviceStore} (hd : Distinct s.inner) {u v : ℕ}
    (huv : u ≠ v) (write : Except String Unit) {op : StoreSection} (hop : OnBehalf u s op)
    (htakes : TakesOver v s op) : ¬Unchanged v s (op.run s write).2 := by
  rcases op with reg | ⟨credentialId, signCount, now⟩ | _ | _ | _ | _ | _ | _
  · obtain ⟨r, hr, hid⟩ := htakes
    intro h
    have hmem : r ∈ (s.register write reg).2.registrations v := by
      rw [StoreSection.run] at h
      rwa [h.registrations]
    rw [mem_registrations, inner_register] at hmem
    obtain ⟨hmem, huid⟩ := hmem
    rcases List.mem_append.1 hmem with hmem | hmem
    · exact of_decide_eq_true (List.mem_filter.1 hmem).2 hid
    · have hreg : reg.uid = u := hop
      rw [List.mem_singleton.1 hmem, hreg] at huid
      exact huv huid
  · obtain ⟨r, hr, hid, hnew⟩ := htakes
    intro h
    obtain ⟨hmem, -⟩ := mem_registrations.1 hr
    have hfound : s.find r.credentialId = some r := by
      cases hfind : s.find r.credentialId with
      | none =>
        rw [find] at hfind
        exact absurd (decide_eq_true rfl) (List.find?_eq_none.1 hfind r hmem)
      | some x =>
        have hx := List.mem_of_find?_eq_some hfind
        rw [List.inj_on_of_nodup_map hd.registrations hx hmem (credentialId_of_find hfind)]
    have hsame := h.find r hr
    rw [StoreSection.run, ← hid, find_touched, hfound] at hsame
    have hr := Option.some.inj hsame
    have hsign : max r.signCount signCount = r.signCount := congrArg Registration.signCount hr
    have hused : some now = r.lastUsed := congrArg Registration.lastUsed hr
    rcases hnew with hnew | hnew
    · omega
    · exact hnew hused.symm
  all_goals exact htakes.elim

/-- **What the daemon does for one user is no other user's business**, except that an
enrolment may name the credential of another user's registration, and takes it. -/
theorem unchanged_iff {s : DeviceStore} (hs : Reachable s) {u v : ℕ} (huv : u ≠ v)
    {op : StoreSection} (hop : OnBehalf u s op) (write : Except String Unit) :
    Unchanged v s (op.run s write).2 ↔ ¬TakesOver v s op :=
  ⟨fun h htakes => not_unchanged_of_takesOver hs.distinct.1 huv write hop htakes h,
    unchanged_of_not_takesOver hs.distinct.1 huv write hop⟩

/-- A registration of a passkey. -/
def passkey (uid : ℕ) (credentialId : String) : Registration :=
  { uid, credentialId, publicKey := "04", rpId := "quosh.jtcs.dev"
    origin := "https://quosh.jtcs.dev", userName := "u@https://quosh.jtcs.dev", signCount := 0
    created := 100, lastUsed := some 100 }

/-- A store with a passkey of one user. -/
theorem reachable_passkey (uid : ℕ) (credentialId : String) :
    Reachable ((StoreSection.register (passkey uid credentialId)).run {} (.ok ())).2 :=
  .call .empty uid (.register (passkey uid credentialId)) rfl (.ok ())

/-- The hypotheses of `unchanged_iff` are satisfiable: another user enrols a passkey of
their own. -/
theorem unchanged_iff_ownPasskey :
    Unchanged 1000 ((StoreSection.register (passkey 1000 "aa")).run {} (.ok ())).2
      ((StoreSection.register (passkey 1001 "bb")).run
        ((StoreSection.register (passkey 1000 "aa")).run {} (.ok ())).2 (.ok ())).2 :=
  (@unchanged_iff _ (reachable_passkey 1000 "aa") 1001 1000 (by decide)
    (.register (passkey 1001 "bb")) rfl (.ok ())).2 (by
      rintro ⟨r, hr, hid⟩
      have hr : r ∈ [passkey 1000 "aa"] := hr
      rw [List.mem_singleton.1 hr] at hid
      exact absurd hid (by decide))

/-- **An enrolment takes over a passkey** that another user has registered, when it
attests the same credential id. -/
theorem enrolment_takes_over :
    ¬∀ s : DeviceStore, Reachable s → ∀ u v, u ≠ v → ∀ op : StoreSection, OnBehalf u s op →
      ∀ write, Unchanged v s (op.run s write).2 := by
  intro h
  have hsame := (h _ (reachable_passkey 1000 "aa") 1001 1000 (by decide)
    (.register (passkey 1001 "aa")) rfl (.ok ())).registrations
  exact absurd hsame (by decide)

end DeviceStore
end Quosh
