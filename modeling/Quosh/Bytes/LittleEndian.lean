/-
# Little-endian integers as bytes

`toLe w n` is what `n.to_le_bytes()` writes for an unsigned integer of `w`
bytes, `fromLe` what `from_le_bytes` reads back.  Writing truncates, as the
conversion `n as u32` in front of it does, so `toLe` is total and reading back
gives `n % 256 ^ w`; on the integers that fit the two are inverse to each other
in both directions (`fromLe_toLe`, `toLe_fromLe`).
-/

import Mathlib.Data.List.Basic
import Mathlib.Tactic.Ring

namespace Quosh

/-- A byte string. -/
abbrev Bytes := List UInt8

namespace Bytes

/-- The `w` little-endian bytes of `n`, the higher ones dropped. -/
def toLe : ℕ → ℕ → Bytes
  | 0, _ => []
  | w + 1, n => UInt8.ofNat n :: toLe w (n / 256)

/-- The integer a little-endian byte string stands for. -/
def fromLe : Bytes → ℕ
  | [] => 0
  | b :: bs => b.toNat + 256 * fromLe bs

@[simp] theorem length_toLe (w n : ℕ) : (toLe w n).length = w := by
  induction w generalizing n with
  | zero => rfl
  | succ w ih => rw [toLe, List.length_cons, ih]

/-- Reading back what was written gives the integer modulo the width. -/
theorem fromLe_toLe_mod (w n : ℕ) : fromLe (toLe w n) = n % 256 ^ w := by
  induction w generalizing n with
  | zero => simp [toLe, fromLe, Nat.mod_one]
  | succ w ih =>
    have hpow : 256 ^ (w + 1) = 256 * 256 ^ w := by ring
    rw [toLe, fromLe, ih, hpow, Nat.mod_mul]
    simp

/-- **What fits is read back.** -/
theorem fromLe_toLe {w n : ℕ} (h : n < 256 ^ w) : fromLe (toLe w n) = n := by
  rw [fromLe_toLe_mod, Nat.mod_eq_of_lt h]

/-- A byte string of length `w` stands for an integer of `w` bytes. -/
theorem fromLe_lt (bs : Bytes) : fromLe bs < 256 ^ bs.length := by
  induction bs with
  | nil => simp [fromLe]
  | cons b bs ih =>
    have hb := b.toNat_lt
    rw [fromLe, List.length_cons, pow_succ]
    omega

/-- **Every byte string is the encoding of what it stands for.** -/
theorem toLe_fromLe (bs : Bytes) : toLe bs.length (fromLe bs) = bs := by
  induction bs with
  | nil => rfl
  | cons b bs ih =>
    have hb := b.toNat_lt
    have hdiv : (b.toNat + 256 * fromLe bs) / 256 = fromLe bs := by omega
    have hmod : UInt8.ofNat (b.toNat + 256 * fromLe bs) = b := by
      apply UInt8.toNat_inj.mp
      simp
    rw [fromLe, List.length_cons, toLe, hdiv, ih, hmod]

/-- Two integers of `w` bytes with one encoding are equal. -/
theorem toLe_inj {w m n : ℕ} (hm : m < 256 ^ w) (hn : n < 256 ^ w)
    (h : toLe w m = toLe w n) : m = n := by
  rw [← fromLe_toLe hm, h, fromLe_toLe hn]

end Bytes
end Quosh
