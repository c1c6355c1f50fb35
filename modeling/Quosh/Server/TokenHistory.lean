/-
# Tokens and their history

`crates/quosh-server/src/devices.rs`: the calls that change the store, each with its writes
succeeding, and restarts, which read the file (`load`).  What JSON makes of the lists is not
modelled: a restart finds the lists that were written.

`Stands` says what the history has of a token: that it was issued, that nothing has ended it
since, and when it was last seen.  The list of tokens has exactly those (`mem_tokens_iff`),
so a token is good exactly as its history says (`validateToken_iff_history`).
-/

import Quosh.Server.WriteFailure
import Mathlib.Data.List.Induction

namespace Quosh

open Bytes

namespace DeviceStore

/-- `DeviceStore::load`, of the file of a store. -/
def load (s : DeviceStore) : DeviceStore := { s with inner := s.file }

/-- A call whose writes succeed, or a restart. -/
inductive Entry where
  | call (call : Call)
  | load

namespace Entry

/-- What an entry of the history makes of the store. -/
def run (s : DeviceStore) : Entry → DeviceStore
  | .call op => (op.run s fun _ => .ok ()).2
  | .load => s.load

/-- The token that an entry issues, its user, the credential recorded, and the time. -/
def issued : Entry → Option (FixedBytes 32 × ℕ × Option String × ℤ)
  | .call (.one (.issueToken token uid credentialId now)) => some (token, uid, credentialId, now)
  | .call (.rotateToken _ token uid credentialId now) => some (token, uid, credentialId, now)
  | _ => none

/-- Whether an entry ends a token of a user that came with a credential: it is presented for
rotation, or the user's sessions, the user or the credential are revoked. -/
def Ends (τ : FixedBytes 32) (u : ℕ) (c : Option String) : Entry → Prop
  | .call (.rotateToken (some old) ..) => old = τ
  | .call (.one (.dropToken old)) => old = τ
  | .call (.one (.revokeSessions uid)) => uid = u
  | .call (.one (.revokeAll uid)) => uid = u
  | .call (.one (.revokeCredential uid credentialId)) => uid = u ∧ c = some credentialId
  | _ => False

/-- When a token was last seen, behind an entry. -/
def seen (τ : FixedBytes 32) (at_ : ℤ) : Entry → ℤ
  | .call (.one (.touchToken token now)) => if token = τ then now else at_
  | _ => at_

end Entry

/-- The store that a history leaves, from no file. -/
def replay (history : List Entry) : DeviceStore := history.foldl Entry.run {}

/-- **What a history has of a token**: issued for a user, not ended since, and seen last at
`seenAt`. -/
def Stands (history : List Entry) (τ : FixedBytes 32) (u : ℕ) (c : Option String) (seenAt : ℤ) :
    Prop :=
  ∃ before e after at_, history = before ++ e :: after ∧ e.issued = some (τ, u, c, at_) ∧
    (∀ e' ∈ after, ¬e'.Ends τ u c) ∧ seenAt = after.foldl (Entry.seen τ) at_

/-- The entry of the store for a token. -/
def stored (τ : FixedBytes 32) (u : ℕ) (c : Option String) (seenAt : ℤ) : SessionToken :=
  { token := hexEncode τ.1, uid := u, credentialId := c, lastSeen := seenAt }

/-- The tokens that a history issues. -/
def issuedTokens (history : List Entry) : List (FixedBytes 32) :=
  (history.filterMap Entry.issued).map Prod.fst

variable {history : List Entry} {τ : FixedBytes 32} {u : ℕ} {c : Option String} {at_ now : ℤ}

/-! ### Histories -/

theorem replay_concat (history : List Entry) (e : Entry) :
    replay (history ++ [e]) = e.run (replay history) := by
  unfold replay
  rw [List.foldl_append]
  rfl

/-- **What one more entry changes about a token.**  It may issue it; and a token that stood
before stands unless the entry ends it, with the time that the entry leaves it. -/
theorem stands_concat {e : Entry} : Stands (history ++ [e]) τ u c at_ ↔
    e.issued = some (τ, u, c, at_) ∨
      ∃ before, Stands history τ u c before ∧ ¬e.Ends τ u c ∧ at_ = e.seen τ before := by
  constructor
  · rintro ⟨before, e₀, after, t, heq, hissued, hends, hseen⟩
    rcases List.eq_nil_or_concat after with rfl | ⟨after', e', rfl⟩
    · obtain ⟨-, heq⟩ := List.append_inj' heq rfl
      obtain rfl := (List.cons.inj heq).1
      exact .inl (hseen ▸ hissued)
    · rw [List.concat_eq_append] at heq hends hseen
      rw [← List.cons_append, ← List.append_assoc] at heq
      obtain ⟨hhistory, hlast⟩ := List.append_inj' heq rfl
      obtain rfl := (List.cons.inj hlast).1
      rw [List.foldl_append] at hseen
      refine .inr ⟨_, ⟨before, e₀, after', t, hhistory, hissued, fun e' he' => ?_, rfl⟩, ?_, hseen⟩
      · exact hends e' (List.mem_append_left _ he')
      · exact hends e (List.mem_append_right _ (List.mem_singleton_self e))
  · rintro (hissued | ⟨_, ⟨before, e₀, after, t, rfl, hissued, hends, rfl⟩, hnot, rfl⟩)
    · exact ⟨history, e, [], at_, rfl, hissued, fun _ he => absurd he List.not_mem_nil, rfl⟩
    · refine ⟨before, e₀, after ++ [e], t, by simp, hissued, fun e' he' => ?_, ?_⟩
      · rcases List.mem_append.1 he' with he' | he'
        · exact hends e' he'
        · rw [List.mem_singleton.1 he']
          exact hnot
      · rw [List.foldl_append]
        rfl

/-- A token that stands was issued. -/
theorem Stands.mem_issuedTokens (h : Stands history τ u c at_) : τ ∈ issuedTokens history := by
  obtain ⟨before, e, after, t, rfl, hissued, -⟩ := h
  refine List.mem_map.2 ⟨(τ, u, c, t), List.mem_filterMap.2 ⟨e, ?_, hissued⟩, rfl⟩
  exact List.mem_append_right _ List.mem_cons_self

/-! ### One entry -/

/-- What the store has of the tokens of a history: one entry for each that stands. -/
structure Matches (history : List Entry) (s : DeviceStore) : Prop where
  agree : s.inner = s.file
  names : (s.inner.tokens.map SessionToken.token).Nodup
  mem : ∀ t, t ∈ s.inner.tokens ↔ ∃ τ u c seenAt, Stands history τ u c seenAt ∧
    t = stored τ u c seenAt

namespace Matches

variable {s : DeviceStore}

/-- An entry that leaves the tokens alone. -/
theorem keep (h : Matches history s) {e : Entry} {s' : DeviceStore} (hagree : s'.inner = s'.file)
    (htokens : s'.inner.tokens = s.inner.tokens) (hissued : e.issued = none)
    (hends : ∀ τ u c, ¬e.Ends τ u c) (hseen : ∀ τ t, e.seen τ t = t) :
    Matches (history ++ [e]) s' where
  agree := hagree
  names := htokens ▸ h.names
  mem t := by
    rw [htokens, h.mem]
    refine exists₄_congr fun τ u c seenAt => and_congr_left fun _ => ?_
    rw [stands_concat, hissued]
    constructor
    · intro hstands
      exact .inr ⟨seenAt, hstands, hends τ u c, (hseen τ seenAt).symm⟩
    · rintro (hnone | ⟨before, hstands, -, heq⟩)
      · cases hnone
      · rw [heq, hseen]
        exact hstands

/-- **An entry that drops tokens** and may issue one that is new.  The filter keeps the
tokens that the entry does not end, and what is appended is what it issues. -/
theorem drop (h : Matches history s) {e : Entry} {s' : DeviceStore} {p : SessionToken → Bool}
    (hagree : s'.inner = s'.file)
    (htokens : s'.inner.tokens = s.inner.tokens.filter p ++ e.issued.toList.map fun i =>
      stored i.1 i.2.1 i.2.2.1 i.2.2.2)
    (hnew : ∀ i, e.issued = some i → i.1 ∉ issuedTokens history)
    (hends : ∀ τ u c seenAt, p (stored τ u c seenAt) = true ↔ ¬e.Ends τ u c)
    (hseen : ∀ τ t, e.seen τ t = t) :
    Matches (history ++ [e]) s' where
  agree := hagree
  names := by
    rw [htokens]
    have hfilter := (Entries.nodup_map_filter p) h.names
    cases hissued : e.issued with
    | none => simpa using hfilter
    | some i =>
      refine Entries.nodup_map_append hfilter fun t ht hname => hnew i hissued ?_
      obtain ⟨τ, u, c, seenAt, hstands, rfl⟩ := (h.mem t).1 (List.mem_of_mem_filter ht)
      have hsame : τ = i.1 := Subtype.ext (hexEncode_inj hname)
      exact hsame ▸ hstands.mem_issuedTokens
  mem t := by
    rw [htokens, List.mem_append, List.mem_filter]
    constructor
    · rintro (⟨ht, hp⟩ | ht)
      · obtain ⟨τ, u, c, seenAt, hstands, rfl⟩ := (h.mem t).1 ht
        refine ⟨τ, u, c, seenAt, stands_concat.2 (.inr ⟨seenAt, hstands, ?_, ?_⟩), rfl⟩
        · exact (hends τ u c seenAt).1 hp
        · exact (hseen τ seenAt).symm
      · obtain ⟨i, hi, rfl⟩ := List.mem_map.1 ht
        obtain ⟨τ, u, c, seenAt⟩ := i
        exact ⟨τ, u, c, seenAt, stands_concat.2 (.inl (Option.mem_toList.1 hi)), rfl⟩
    · rintro ⟨τ, u, c, seenAt, hstands, rfl⟩
      rcases stands_concat.1 hstands with hissued | ⟨before, hstands, hnot, heq⟩
      · exact .inr (List.mem_map.2 ⟨(τ, u, c, seenAt), Option.mem_toList.2 hissued, rfl⟩)
      · rw [hseen] at heq
        subst heq
        exact .inl ⟨(h.mem _).2 ⟨τ, u, c, seenAt, hstands, rfl⟩, (hends τ u c seenAt).2 hnot⟩

/-- **A token that is touched** is seen, and no other.  The source modifies the first entry
of that name; as names are distinct, that is the only one. -/
theorem touch (h : Matches history s) (token : FixedBytes 32) (now : ℤ) {s' : DeviceStore}
    (hagree : s'.inner = s'.file)
    (htokens : s'.inner.tokens = s.inner.tokens.modify
      (s.inner.tokens.findIdx fun t => t.token = hexEncode token.1) fun t =>
        { t with lastSeen := now }) :
    Matches (history ++ [.call (.one (.touchToken token now))]) s' := by
  have hpair : s.inner.tokens.Pairwise fun x y =>
      decide (x.token = hexEncode token.1) = true →
        decide (y.token = hexEncode token.1) = false := by
    refine (List.pairwise_map.1 h.names).imp fun {x y} hne hx => ?_
    refine decide_eq_false fun hy => hne ?_
    rw [of_decide_eq_true hx, hy]
  have hmap := htokens.trans (Entries.modify_findIdx_eq_map _ hpair)
  refine ⟨hagree, ?_, fun t => ?_⟩
  · have hnames := (@Entries.map_modify_of_eq _ _ s.inner.tokens SessionToken.token
      fun t => { t with lastSeen := now }) (fun _ => rfl)
    rw [htokens, hnames]
    exact h.names
  · rw [hmap, List.mem_map]
    have hseen (τ : FixedBytes 32) (u : ℕ) (c : Option String) (before : ℤ) :
        (if decide ((stored τ u c before).token = hexEncode token.1) then
          { stored τ u c before with lastSeen := now } else stored τ u c before) =
          stored τ u c ((Entry.call (.one (.touchToken token now))).seen τ before) := by
      by_cases hτ : token = τ
      · subst hτ
        simp [stored, Entry.seen]
      · have hne : hexEncode τ.1 ≠ hexEncode token.1 := fun heq =>
          hτ (Subtype.ext (hexEncode_inj heq)).symm
        simp [stored, Entry.seen, hτ, hne]
    constructor
    · rintro ⟨t₀, ht₀, rfl⟩
      obtain ⟨τ, u, c, before, hstands, rfl⟩ := (h.mem t₀).1 ht₀
      exact ⟨τ, u, c, _, stands_concat.2 (.inr ⟨before, hstands, id, rfl⟩), hseen τ u c before⟩
    · rintro ⟨τ, u, c, seenAt, hstands, rfl⟩
      rcases stands_concat.1 hstands with hissued | ⟨before, hbefore, -, rfl⟩
      · cases hissued
      · exact ⟨_, (h.mem _).2 ⟨τ, u, c, before, hbefore, rfl⟩, hseen τ u c before⟩

/-- **A token that is presented for rotation** is dropped, and no other.  The rotation may
issue another. -/
theorem drop_token (h : Matches history s) (old : FixedBytes 32) {e : Entry} {s' : DeviceStore}
    (hagree : s'.inner = s'.file)
    (htokens : s'.inner.tokens = (s.inner.tokens.filter fun t => t.token ≠ hexEncode old.1) ++
      e.issued.toList.map fun i => stored i.1 i.2.1 i.2.2.1 i.2.2.2)
    (hnew : ∀ i, e.issued = some i → i.1 ∉ issuedTokens history)
    (hends : ∀ τ u c, e.Ends τ u c ↔ old = τ) (hseen : ∀ τ t, e.seen τ t = t) :
    Matches (history ++ [e]) s' := by
  refine h.drop (p := fun t => t.token ≠ hexEncode old.1) hagree htokens hnew
    (fun τ u c seenAt => ?_) hseen
  rw [decide_eq_true_iff, hends]
  exact not_congr ⟨fun heq => (Subtype.ext (hexEncode_inj heq)).symm, fun heq => heq ▸ rfl⟩

/-- **A token that is issued** joins the others. -/
theorem issue (h : Matches history s) {e : Entry} {s' : DeviceStore}
    (hagree : s'.inner = s'.file)
    (htokens : s'.inner.tokens = s.inner.tokens ++
      e.issued.toList.map fun i => stored i.1 i.2.1 i.2.2.1 i.2.2.2)
    (hnew : ∀ i, e.issued = some i → i.1 ∉ issuedTokens history)
    (hends : ∀ τ u c, ¬e.Ends τ u c) (hseen : ∀ τ t, e.seen τ t = t) :
    Matches (history ++ [e]) s' := by
  refine h.drop (p := fun _ => true) hagree ?_ hnew
    (fun τ u c _ => ⟨fun _ => hends τ u c, fun _ => rfl⟩) hseen
  rw [List.filter_true]
  exact htokens

/-- **Each critical section**: what it drops, issues or touches.  Those of the registrations
leave the tokens, and the three revocations are filters. -/
theorem one (h : Matches history s) (op : StoreSection)
    (hnew : ∀ i, (Entry.call (.one op)).issued = some i → i.1 ∉ issuedTokens history) :
    Matches (history ++ [.call (.one op)]) ((Entry.call (.one op)).run s) := by
  have hagree : ((Entry.call (.one op)).run s).inner = ((Entry.call (.one op)).run s).file :=
    agree_run h.agree (.inl fun _ _ => rfl)
  cases op with
  | register reg => exact h.keep hagree rfl rfl (fun _ _ _ => id) fun _ _ => rfl
  | touched credentialId signCount at_ =>
    exact h.keep hagree rfl rfl (fun _ _ _ => id) fun _ _ => rfl
  | issueToken token uid credentialId at_ =>
    exact h.issue hagree rfl hnew (fun _ _ _ => id) fun _ _ => rfl
  | touchToken token at_ =>
    refine h.touch token at_ hagree ?_
    show (s.touchToken (.ok ()) token at_).2.inner.tokens = _
    unfold touchToken
    dsimp only
    split
    · rfl
    · rename_i hnone
      exact (List.modify_eq_self (not_lt.1 hnone)).symm
  | dropToken old =>
    exact h.drop_token old hagree (List.append_nil _).symm hnew (fun _ _ _ => Iff.rfl)
      fun _ _ => rfl
  | revokeCredential uid credentialId =>
    refine h.drop (p := fun t => ¬(t.uid = uid ∧ t.credentialId = some credentialId)) hagree
      (List.append_nil _).symm hnew (fun τ u c seenAt => ?_) fun _ _ => rfl
    rw [decide_eq_true_iff]
    exact not_congr (and_congr_left' eq_comm)
  | revokeAll uid =>
    refine h.drop (p := fun t => t.uid ≠ uid) hagree (List.append_nil _).symm hnew
      (fun τ u c seenAt => ?_) fun _ _ => rfl
    rw [decide_eq_true_iff]
    exact not_congr eq_comm
  | revokeSessions uid =>
    refine h.drop (p := fun t => t.uid ≠ uid) hagree (List.append_nil _).symm hnew
      (fun τ u c seenAt => ?_) fun _ _ => rfl
    rw [decide_eq_true_iff]
    exact not_congr eq_comm

/-- **Each entry of a history**: what it drops, issues or touches. -/
theorem entry (h : Matches history s) (e : Entry)
    (hnew : ∀ i, e.issued = some i → i.1 ∉ issuedTokens history) :
    Matches (history ++ [e]) (e.run s) := by
  rcases e with (op | ⟨_ | old, token, uid, credentialId, at_⟩) | _
  · exact h.one op hnew
  · exact h.issue (agree_run h.agree (.inl fun _ _ => rfl)) rfl hnew (fun _ _ _ => id)
      fun _ _ => rfl
  · exact h.drop_token old (agree_run h.agree (.inl fun _ _ => rfl)) rfl hnew
      (fun _ _ _ => Iff.rfl) fun _ _ => rfl
  · exact h.keep rfl (congrArg Persisted.tokens h.agree.symm) rfl (fun _ _ _ => id) fun _ _ => rfl

end Matches

/-! ### Every history -/

/-- **The store has what the history has**, when no token is issued twice. -/
theorem replay_matches (history : List Entry) (hdistinct : (issuedTokens history).Nodup) :
    Matches history (replay history) := by
  induction history using List.reverseRecOn with
  | nil =>
    refine ⟨rfl, .nil, fun t => iff_of_false List.not_mem_nil ?_⟩
    rintro ⟨τ, u, c, seenAt, ⟨before, e, after, at_, heq, -⟩, -⟩
    exact absurd heq.symm (List.append_ne_nil_of_right_ne_nil _ (List.cons_ne_nil _ _))
  | append_singleton history e ih =>
    have hsplit : issuedTokens (history ++ [e]) =
        issuedTokens history ++ e.issued.toList.map Prod.fst := by
      unfold issuedTokens
      rw [List.filterMap_append, List.map_append]
      cases hissued : e.issued <;> simp [hissued]
    rw [hsplit, List.nodup_append] at hdistinct
    rw [replay_concat]
    refine (ih hdistinct.1).entry e fun i hi hmem => ?_
    exact hdistinct.2.2 _ hmem _ (List.mem_map_of_mem (Option.mem_toList.2 hi)) rfl

/-- **A token is valid exactly as its history says**: `validate_token` answers a user iff the
token was issued for that user, nothing has ended it since, and it was seen within the last
hour.  The history is of any calls whose writes succeed, and of restarts. -/
theorem validateToken_iff_history (history : List Entry)
    (hdistinct : (issuedTokens history).Nodup) (τ : FixedBytes 32) (now : ℤ) (u : ℕ) :
    (replay history).validateToken τ now = some u ↔
      ∃ c seenAt, Stands history τ u c seenAt ∧ now - seenAt ≤ sessionIdleSecs := by
  have hmatches := replay_matches history hdistinct
  constructor
  · intro hvalid
    obtain ⟨t, ht, htoken, huid, hseen⟩ := exists_of_validateToken hvalid
    obtain ⟨τ', u', c, seenAt, hstands, rfl⟩ := (hmatches.mem t).1 ht
    obtain rfl : τ' = τ := Subtype.ext (hexEncode_inj htoken)
    obtain rfl : u' = u := huid
    exact ⟨c, seenAt, hstands, hseen⟩
  · rintro ⟨c, seenAt, hstands, hseen⟩
    have ht := (hmatches.mem _).2 ⟨τ, u, c, seenAt, hstands, rfl⟩
    rw [(validateToken_of_nodup hmatches.names ht) rfl now]
    exact if_pos hseen

/-- The `i`-th token of a test. -/
def tokenOf (i : UInt8) : FixedBytes 32 := ⟨List.replicate 32 i, rfl⟩

/-- A token that came with a passkey is rotated, and the passkey revoked behind a restart. -/
def rotatedHistory : List Entry :=
  [.call (.one (.issueToken (tokenOf 1) 1000 (some "aa") 0)),
    .call (.rotateToken (some (tokenOf 1)) (tokenOf 2) 1000 none 10), .load,
    .call (.one (.touchToken (tokenOf 2) 100)), .call (.one (.revokeCredential 1000 "aa"))]

/-- The hypothesis of `validateToken_iff_history` is satisfiable: the token that was rotated
is good an hour after it was touched, and the one presented is not. -/
theorem validateToken_iff_history_rotated :
    (∃ c seenAt, Stands rotatedHistory (tokenOf 2) 1000 c seenAt ∧
        3700 - seenAt ≤ sessionIdleSecs) ∧
      ¬∃ c seenAt, Stands rotatedHistory (tokenOf 1) 1000 c seenAt ∧
        3700 - seenAt ≤ sessionIdleSecs := by
  have hdistinct : (issuedTokens rotatedHistory).Nodup := by decide +kernel
  constructor
  · rw [← validateToken_iff_history _ hdistinct]
    decide +kernel
  · rw [← validateToken_iff_history _ hdistinct]
    decide +kernel

end DeviceStore
end Quosh
