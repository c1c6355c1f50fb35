/-
# The LZ4 codec the screens travel in

`lz4_flex` is outside the repository.  `Lz4` is the pair of functions the screen
codec calls, and `Lz4.Documented` what their documentation promises: the output
of `compress_prepend_size` starts with the length of its input as a `u32`, it is
not longer than `get_maximum_output_size`, and `decompress_size_prepended` gives
that input back while the length fits the prefix, and never anything else.

`Lz4.literal` is a codec with those properties: every input becomes one block of
literals, which is what LZ4 produces for an input without a repeated
four-byte sequence.
-/

import Quosh.Bytes.LittleEndian
import Mathlib.Tactic.SplitIfs

namespace Quosh

open Bytes

/-- `lz4_flex::{compress_prepend_size, decompress_size_prepended}`. -/
structure Lz4 where
  compressPrependSize : Bytes → Bytes
  decompressSizePrepended : Bytes → Option Bytes

/-- What `lz4_flex` documents about the two functions. -/
structure Lz4.Documented (z : Lz4) : Prop where
  size_prefix : ∀ raw, (z.compressPrependSize raw).take 4 = toLe 4 raw.length
  length_le : ∀ raw, (z.compressPrependSize raw).length ≤ 24 + 11 * raw.length / 10
  inverse : ∀ raw, raw.length < 2 ^ 32 →
    z.decompressSizePrepended (z.compressPrependSize raw) = some raw
  only_inverse : ∀ raw out,
    z.decompressSizePrepended (z.compressPrependSize raw) = some out → out = raw

namespace Lz4

/-- The bytes in front of a run of `n` literals: the token, and for a long run
the rest of its length in bytes of 255. -/
def literalHeader (n : ℕ) : Bytes :=
  if n < 15 then [UInt8.ofNat (16 * n)]
  else 0xF0 :: (List.replicate ((n - 15) / 255) 255 ++ [UInt8.ofNat ((n - 15) % 255)])

/-- An LZ4 block of literals only. -/
def literalBlock (raw : Bytes) : Bytes := literalHeader raw.length ++ raw

/-- The codec that emits literals only, and reads back what it emits. -/
def literal : Lz4 where
  compressPrependSize raw := toLe 4 raw.length ++ literalBlock raw
  decompressSizePrepended data :=
    let block := data.drop 4
    let raw := block.drop (block.length - fromLe (data.take 4))
    if data = toLe 4 raw.length ++ literalBlock raw then some raw else none

theorem length_literalHeader (n : ℕ) :
    (literalHeader n).length = if n < 15 then 1 else 2 + (n - 15) / 255 := by
  unfold literalHeader
  split
  · rfl
  · simp only [List.length_cons, List.length_append, List.length_replicate, List.length_nil]
    omega

/-- A block of literals determines them: its length determines their number. -/
theorem literalBlock_inj {r₁ r₂ : Bytes} (h : literalBlock r₁ = literalBlock r₂) : r₁ = r₂ := by
  have hlen := congrArg List.length h
  simp only [literalBlock, List.length_append, length_literalHeader] at hlen
  have heq : r₁.length = r₂.length := by split_ifs at hlen <;> omega
  rw [literalBlock, literalBlock, heq] at h
  exact List.append_cancel_left h

/-- **The literal codec is as documented.** -/
theorem literal_documented : literal.Documented where
  size_prefix raw := List.take_left' (length_toLe ..)
  length_le raw := by
    simp only [literal, literalBlock, List.length_append, length_toLe, length_literalHeader]
    split_ifs <;> omega
  inverse raw hraw := by
    have htake : (toLe 4 raw.length ++ literalBlock raw).take 4 = toLe 4 raw.length :=
      List.take_left' (length_toLe ..)
    have htail : (toLe 4 raw.length ++ literalBlock raw).drop 4 = literalBlock raw :=
      List.drop_left' (length_toLe ..)
    have hn : fromLe (toLe 4 raw.length) = raw.length := fromLe_toLe (by omega)
    have hdrop : (literalBlock raw).drop ((literalBlock raw).length - raw.length) = raw := by
      rw [literalBlock, List.length_append, Nat.add_sub_cancel, List.drop_left]
    simp only [literal, htake, htail, hn, hdrop, if_true]
  only_inverse raw out h := by
    simp only [literal] at h
    split at h
    · rename_i heq
      cases h
      exact (literalBlock_inj (List.append_inj_right heq (by simp))).symm
    · cases h

end Lz4
end Quosh
