/-
# Hexadecimal text

`hex::encode` and `hex::decode`: two lower-case digits for every byte, and back, also
from upper-case digits.  Text of an odd length is refused before a digit is looked at.

The decoder inverts the encoder (`hexDecode_hexEncode`), so two byte strings with one
text are equal (`hexEncode_inj`).
-/

import Quosh.Bytes.Utf8

namespace Quosh
namespace Bytes

/-- The digit of a number below 16. -/
def hexDigit (n : ℕ) : Char := if n < 10 then Char.ofNat (48 + n) else Char.ofNat (87 + n)

/-- `hex::encode`. -/
def hexEncode (bs : Bytes) : String :=
  String.ofList (bs.flatMap fun b => [hexDigit (b.toNat / 16), hexDigit (b.toNat % 16)])

/-- The value of a digit, upper or lower case. -/
def hexVal (b : UInt8) : Option ℕ :=
  if 48 ≤ b ∧ b ≤ 57 then some (b.toNat - 48)
  else if 97 ≤ b ∧ b ≤ 102 then some (b.toNat - 87)
  else if 65 ≤ b ∧ b ≤ 70 then some (b.toNat - 55)
  else none

/-- The text of a digit that is none. -/
def hexError (b : UInt8) (index : ℕ) : String :=
  "Invalid character " ++ (Char.ofNat b.toNat).quote ++ " at position " ++ toString index

/-- The pairs of digits of `hex::decode`, from position `index` on. -/
def hexPairs : ℕ → Bytes → Except String Bytes
  | index, hi :: lo :: rest =>
    match hexVal hi, hexVal lo with
    | none, _ => .error (hexError hi index)
    | some _, none => .error (hexError lo (index + 1))
    | some h, some l => do return UInt8.ofNat (16 * h + l) :: (← hexPairs (index + 2) rest)
  | _, _ => .ok []

/-- `hex::decode`. -/
def hexDecode (s : String) : Except String Bytes :=
  if (asBytes s).length % 2 ≠ 0 then .error "Odd number of digits" else hexPairs 0 (asBytes s)

/-- A digit is one byte, and has its value. -/
theorem hexDigit_spec {n : ℕ} (h : n < 16) :
    ∃ b, String.utf8EncodeChar (hexDigit n) = [b] ∧ hexVal b = some n := by
  have hall : ∀ n : Fin 16,
      String.utf8EncodeChar (hexDigit n) = [UInt8.ofNat (hexDigit n).toNat] ∧
        hexVal (UInt8.ofNat (hexDigit n).toNat) = some n.1 := by decide
  exact ⟨_, hall ⟨n, h⟩⟩

theorem asBytes_hexEncode_cons (b : UInt8) (bs : Bytes) :
    ∃ hi lo, asBytes (hexEncode (b :: bs)) = hi :: lo :: asBytes (hexEncode bs) ∧
      hexVal hi = some (b.toNat / 16) ∧ hexVal lo = some (b.toNat % 16) := by
  have hb := b.toNat_lt
  obtain ⟨hi, hhi, hvhi⟩ := hexDigit_spec (n := b.toNat / 16) (by omega)
  obtain ⟨lo, hlo, hvlo⟩ := hexDigit_spec (n := b.toNat % 16) (Nat.mod_lt _ (by decide))
  refine ⟨hi, lo, ?_, hvhi, hvlo⟩
  simp [asBytes, hexEncode, hhi, hlo]

/-- **The decoder reads what the encoder wrote.** -/
theorem hexDecode_hexEncode (bs : Bytes) : hexDecode (hexEncode bs) = .ok bs := by
  have hpairs (index : ℕ) : hexPairs index (asBytes (hexEncode bs)) = .ok bs ∧
      (asBytes (hexEncode bs)).length % 2 = 0 := by
    induction bs generalizing index with
    | nil => exact ⟨rfl, rfl⟩
    | cons b bs ih =>
      obtain ⟨hi, lo, heq, hhi, hlo⟩ := asBytes_hexEncode_cons b bs
      obtain ⟨hrest, hlen⟩ := ih (index + 2)
      have hbyte : UInt8.ofNat (16 * (b.toNat / 16) + b.toNat % 16) = b := by
        rw [Nat.div_add_mod]
        exact UInt8.ofNat_toNat
      refine ⟨?_, ?_⟩
      · rw [heq, hexPairs, hhi, hlo]
        dsimp only
        rw [hrest, hbyte]
        rfl
      · rw [heq, List.length_cons, List.length_cons]
        omega
  rw [hexDecode, if_neg (fun h => h (hpairs 0).2)]
  exact (hpairs 0).1

/-- **A text stands for one byte string.** -/
theorem hexEncode_inj {bs bs' : Bytes} (h : hexEncode bs = hexEncode bs') : bs = bs' := by
  have := hexDecode_hexEncode bs
  rw [h, hexDecode_hexEncode] at this
  exact (Except.ok.inj this).symm

end Bytes
end Quosh
