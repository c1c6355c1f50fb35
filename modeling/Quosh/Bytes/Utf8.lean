/-
# Text as UTF-8 bytes

`asBytes s` is `s.as_bytes()`, the UTF-8 encoding of a string.
`fromUtf8Lossy` is `String::from_utf8_lossy`: each valid encoding of a
character is read, and each maximal ill-formed run becomes one U+FFFD.  How long
that run is follows the Unicode rule the Rust decoder implements (`invalidLen`):
the longest prefix that could still have become a character, and at least one
byte.  Reading characters is the library's `ByteArray.utf8DecodeChar?`, so on
well-formed text lossy reading is the inverse of writing
(`fromUtf8Lossy_asBytes`).
-/

import Quosh.Bytes.LittleEndian

namespace Quosh
namespace Bytes

/-- `str::as_bytes`: the UTF-8 bytes of a string. -/
def asBytes (s : String) : Bytes := s.toList.flatMap String.utf8EncodeChar

theorem asBytes_append (s t : String) : asBytes (s ++ t) = asBytes s ++ asBytes t := by
  unfold asBytes
  rw [String.toList_append, List.flatMap_append]

/-- A continuation byte, `10xxxxxx`. -/
def isContinuation (b : UInt8) : Bool := b &&& 0xC0 == 0x80

/-- Whether `b₁` may follow the lead byte `b₀` of a three- or four-byte
character: the ranges that exclude overlong forms, surrogates and code points
past U+10FFFF. -/
def secondOk (b₀ b₁ : UInt8) : Bool :=
  if b₀ == 0xE0 then 0xA0 ≤ b₁ && b₁ ≤ 0xBF
  else if b₀ == 0xED then 0x80 ≤ b₁ && b₁ ≤ 0x9F
  else if b₀ == 0xF0 then 0x90 ≤ b₁ && b₁ ≤ 0xBF
  else if b₀ == 0xF4 then 0x80 ≤ b₁ && b₁ ≤ 0x8F
  else isContinuation b₁

/-- The length of the ill-formed run at the head of a byte string that does not
start with a character. -/
def invalidLen : Bytes → ℕ
  | b₀ :: b₁ :: rest =>
    if 0xE0 ≤ b₀ && b₀ ≤ 0xEF then
      if secondOk b₀ b₁ then 2 else 1
    else if 0xF0 ≤ b₀ && b₀ ≤ 0xF4 then
      if secondOk b₀ b₁ then
        match rest with
        | b₂ :: _ => if isContinuation b₂ then 3 else 2
        | [] => 2
      else 1
    else 1
  | _ => 1

/-- The characters of a byte string, at most `fuel` of them; every character
consumes a byte, so the length of the string is enough fuel. -/
def lossyChars : ℕ → Bytes → List Char
  | 0, _ => []
  | _ + 1, [] => []
  | fuel + 1, b :: bs =>
    match (b :: bs).toByteArray.utf8DecodeChar? 0 with
    | some c => c :: lossyChars fuel ((b :: bs).drop c.utf8Size)
    | none => '\uFFFD' :: lossyChars fuel ((b :: bs).drop (invalidLen (b :: bs)))

/-- `String::from_utf8_lossy`. -/
def fromUtf8Lossy (bs : Bytes) : String := String.ofList (lossyChars bs.length bs)

/-- A character in front of a byte string is read back as itself. -/
theorem lossyChars_encode (fuel : ℕ) (c : Char) (bs : Bytes) :
    lossyChars (fuel + 1) (String.utf8EncodeChar c ++ bs) = c :: lossyChars fuel bs := by
  obtain ⟨b, rest, hb⟩ : ∃ b rest, String.utf8EncodeChar c = b :: rest :=
    List.exists_cons_of_ne_nil String.utf8EncodeChar_ne_nil
  have hdec : ((String.utf8EncodeChar c ++ bs).toByteArray).utf8DecodeChar? 0 = some c := by
    rw [List.toByteArray_append, ByteArray.utf8DecodeChar?_utf8EncodeChar_append]
  have hdrop : (String.utf8EncodeChar c ++ bs).drop c.utf8Size = bs :=
    List.drop_left' (String.length_utf8EncodeChar c)
  rw [hb, List.cons_append] at hdec hdrop ⊢
  rw [lossyChars, hdec]
  exact congrArg (c :: lossyChars fuel ·) hdrop

/-- **Well-formed text is read back**, whatever fuel beyond its length. -/
theorem lossyChars_flatMap (cs : List Char) :
    ∀ fuel, (cs.flatMap String.utf8EncodeChar).length ≤ fuel →
      lossyChars fuel (cs.flatMap String.utf8EncodeChar) = cs := by
  induction cs with
  | nil => intro fuel _; cases fuel <;> rfl
  | cons c cs ih =>
    intro fuel hfuel
    have hpos : 0 < (String.utf8EncodeChar c).length :=
      List.length_pos_iff.mpr String.utf8EncodeChar_ne_nil
    rw [List.flatMap_cons, List.length_append] at hfuel
    obtain ⟨fuel, rfl⟩ : ∃ k, fuel = k + 1 := ⟨fuel - 1, by omega⟩
    rw [List.flatMap_cons, lossyChars_encode, ih fuel (by omega)]

/-- **Lossy reading is exact on what `as_bytes` writes.** -/
@[simp] theorem fromUtf8Lossy_asBytes (s : String) : fromUtf8Lossy (asBytes s) = s := by
  rw [fromUtf8Lossy, asBytes, lossyChars_flatMap _ _ le_rfl, String.ofList_toList]

/-- Ill-formed bytes become U+FFFD, one for each maximal run: a truncated
three-byte character, then a stray continuation byte. -/
example : fromUtf8Lossy [0xE2, 0x82, 0x41, 0x80] = "\uFFFDA\uFFFD" := by decide +kernel

end Bytes
end Quosh
