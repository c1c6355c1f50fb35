/-
# Enrolment nonces

`crates/quosh-server/src/enroll.rs`: a nonce that `quosh enroll` asked for over SSH is
bound to the uid of the socket's peer, is spent once and expires.  The store is the map
of what is outstanding; the random bytes of a nonce are an argument of `issue`.
-/

import Quosh.Proto.Message
import Mathlib.Logic.Function.Basic

namespace Quosh

/-- `NONCE_TTL_SECS`. -/
def nonceTtlSecs : ℤ := 10 * 60

/-- `Nonce`. -/
structure Nonce where
  uid : ℕ
  expires : ℤ
  deriving DecidableEq

/-- `NonceStore`. -/
abbrev NonceStore := FixedBytes 16 → Option Nonce

namespace NonceStore

/-- `issue`, behind the random bytes it draws: expired nonces are dropped. -/
def issue (s : NonceStore) (nonce : FixedBytes 16) (uid : ℕ) (now : ℤ) : NonceStore :=
  Function.update (fun n => (s n).filter fun e => e.expires > now) nonce
    (some { uid, expires := now + nonceTtlSecs })

/-- `consume`: the nonce is gone, also when it had expired. -/
def consume (s : NonceStore) (nonce : FixedBytes 16) (now : ℤ) : Option ℕ × NonceStore :=
  match s nonce with
  | none => (none, s)
  | some n => (if n.expires > now then some n.uid else none, Function.update s nonce none)

variable {s : NonceStore} {nonce n : FixedBytes 16} {uid : ℕ} {now : ℤ} {e : Nonce}

/-- What is outstanding after an issue. -/
theorem issue_eq_some (h : s.issue nonce uid now n = some e) :
    n = nonce ∧ e = { uid, expires := now + nonceTtlSecs } ∨ s n = some e := by
  unfold issue at h
  by_cases hn : n = nonce
  · subst hn
    rw [Function.update_self] at h
    exact .inl ⟨rfl, (Option.some.inj h).symm⟩
  · rw [Function.update_of_ne hn] at h
    exact .inr (Option.filter_eq_some_iff.1 h).1

/-- What is outstanding after a nonce was presented. -/
theorem consume_eq_some (h : (s.consume nonce now).2 n = some e) : n ≠ nonce ∧ s n = some e := by
  unfold consume at h
  split at h
  · rename_i hnone
    refine ⟨fun hn => ?_, h⟩
    rw [hn] at h
    exact absurd (hnone.symm.trans h) (Option.some_ne_none _).symm
  · dsimp only at h
    by_cases hn : n = nonce
    · rw [hn, Function.update_self] at h
      exact absurd h.symm (Option.some_ne_none _)
    · rw [Function.update_of_ne hn] at h
      exact ⟨hn, h⟩

/-- **A nonce that is spent** was outstanding for the uid, and had not expired. -/
theorem exists_of_consume (h : (s.consume nonce now).1 = some uid) :
    ∃ e, s nonce = some e ∧ e.uid = uid ∧ now < e.expires := by
  unfold consume at h
  split at h
  · cases h
  · rename_i e he
    split_ifs at h with hexp
    exact ⟨e, he, Option.some.inj h, hexp⟩

end NonceStore
end Quosh
