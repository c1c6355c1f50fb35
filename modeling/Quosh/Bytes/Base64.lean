/-
# Base64

Bytes as digits of six bits, three bytes in four digits and one or two bytes at the end in
two or three, without padding.  An `Alphabet` writes the digits; `urlSafe` is the one for URLs.

The decoder inverts the encoder for every alphabet (`Alphabet.decode_encode`), so byte strings
with one text are equal (`Alphabet.encode_inj`).
-/

import Quosh.Bytes.Utf8

namespace Quosh
namespace Bytes

/-- The digits of a byte string. -/
def sextets : Bytes → List ℕ
  | [] => []
  | [a] => [a.toNat / 4, a.toNat % 4 * 16]
  | [a, b] => [a.toNat / 4, a.toNat % 4 * 16 + b.toNat / 16, b.toNat % 16 * 4]
  | a :: b :: c :: rest =>
    a.toNat / 4 :: (a.toNat % 4 * 16 + b.toNat / 16) :: (b.toNat % 16 * 4 + c.toNat / 64) ::
      c.toNat % 64 :: sextets rest

/-- The bytes of digits; what the last digit has too much is dropped. -/
def ofSextets : List ℕ → Option Bytes
  | [] => some []
  | [_] => none
  | [p, q] => some [UInt8.ofNat (p * 4 + q / 16)]
  | [p, q, r] => some [UInt8.ofNat (p * 4 + q / 16), UInt8.ofNat (q % 16 * 16 + r / 4)]
  | p :: q :: r :: s :: rest => do
    return UInt8.ofNat (p * 4 + q / 16) :: UInt8.ofNat (q % 16 * 16 + r / 4) ::
      UInt8.ofNat (r % 4 * 64 + s) :: (← ofSextets rest)

theorem sextets_lt (bs : Bytes) : ∀ n ∈ sextets bs, n < 64 := by
  induction bs using sextets.induct with
  | case1 => exact fun n hn => absurd hn List.not_mem_nil
  | case2 a =>
    have ha := a.toNat_lt
    simp only [sextets, List.mem_cons, List.not_mem_nil, or_false, forall_eq_or_imp, forall_eq]
    omega
  | case3 a b =>
    have ha := a.toNat_lt
    have hb := b.toNat_lt
    simp only [sextets, List.mem_cons, List.not_mem_nil, or_false, forall_eq_or_imp, forall_eq]
    omega
  | case4 a b c rest ih =>
    have ha := a.toNat_lt
    have hb := b.toNat_lt
    have hc := c.toNat_lt
    simp only [sextets, List.mem_cons, forall_eq_or_imp]
    exact ⟨by omega, by omega, by omega, by omega, ih⟩

/-- **The bytes of the digits of a byte string.** -/
theorem ofSextets_sextets (bs : Bytes) : ofSextets (sextets bs) = some bs := by
  have hbyte {n : ℕ} {b : UInt8} (h : n = b.toNat) : UInt8.ofNat n = b := by
    rw [h]
    exact UInt8.ofNat_toNat
  induction bs using sextets.induct with
  | case1 => rfl
  | case2 a =>
    have ha := a.toNat_lt
    rw [sextets, ofSextets, hbyte (b := a) (by omega)]
  | case3 a b =>
    have ha := a.toNat_lt
    have hb := b.toNat_lt
    rw [sextets, ofSextets, hbyte (b := a) (by omega), hbyte (b := b) (by omega)]
  | case4 a b c rest ih =>
    have ha := a.toNat_lt
    have hb := b.toNat_lt
    have hc := c.toNat_lt
    rw [sextets, ofSextets, ih, hbyte (b := a) (by omega), hbyte (b := b) (by omega),
      hbyte (b := c) (by omega)]
    rfl

/-- Sixty-four characters, and the digits that they stand for. -/
structure Alphabet where
  digit : ℕ → Char
  value : Char → Option ℕ
  value_digit : ∀ n < 64, value (digit n) = some n

namespace Alphabet

/-- The text of a byte string. -/
def encode (a : Alphabet) (bs : Bytes) : List Char := (sextets bs).map a.digit

/-- The byte string of a text, unless a character is not in the alphabet or one digit is left
over. -/
def decode (a : Alphabet) (cs : List Char) : Option Bytes := do
  ofSextets (← cs.mapM a.value)

/-- **The decoder reads what the encoder wrote.** -/
theorem decode_encode (a : Alphabet) (bs : Bytes) : a.decode (a.encode bs) = some bs := by
  have hvalues (ns : List ℕ) (h : ∀ n ∈ ns, n < 64) :
      (ns.map a.digit).mapM a.value = some ns := by
    induction ns with
    | nil => rfl
    | cons n ns ih =>
      rw [List.map_cons, List.mapM_cons, a.value_digit n (h n List.mem_cons_self),
        ih fun m hm => h m (List.mem_cons_of_mem n hm)]
      rfl
  unfold decode encode
  rw [hvalues _ (sextets_lt bs)]
  exact ofSextets_sextets bs

/-- **Byte strings with one text are equal.** -/
theorem encode_inj (a : Alphabet) {bs bs' : Bytes} (h : a.encode bs = a.encode bs') :
    bs = bs' := by
  have hdecode := a.decode_encode bs
  rw [h, a.decode_encode] at hdecode
  exact (Option.some.inj hdecode).symm

end Alphabet

/-- The digits with the two characters at the end. -/
def sixtyFour (plus slash : Char) (n : ℕ) : Char :=
  if n < 26 then Char.ofNat (65 + n)
  else if n < 52 then Char.ofNat (97 + (n - 26))
  else if n < 62 then Char.ofNat (48 + (n - 52))
  else if n = 62 then plus
  else slash

/-- The values with the two characters at the end. -/
def sixtyFourValue (plus slash c : Char) : Option ℕ :=
  if 65 ≤ c.toNat ∧ c.toNat ≤ 90 then some (c.toNat - 65)
  else if 97 ≤ c.toNat ∧ c.toNat ≤ 122 then some (c.toNat - 97 + 26)
  else if 48 ≤ c.toNat ∧ c.toNat ≤ 57 then some (c.toNat - 48 + 52)
  else if c = plus then some 62
  else if c = slash then some 63
  else none

/-- The alphabet for URLs. -/
def urlSafe : Alphabet where
  digit := sixtyFour '-' '_'
  value := sixtyFourValue '-' '_'
  value_digit := by decide

example : String.ofList (urlSafe.encode [0xfb, 0xff, 0x01, 0x02]) = "-_8BAg" := by decide

end Bytes
end Quosh
