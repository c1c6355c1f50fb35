/-
# Pasting

`web/src/input.ts`, `encodePaste`: the text of the clipboard as UTF-8, between the markers of a
bracketed paste if the application asked for one.  A string of JavaScript is a list of code
units of UTF-16, of which `TextEncoder` makes the bytes.

The receiver takes what is between the start marker and the first end marker.  The text is not
looked into, so one that has an end marker of its own is cut there, and the rest of it is
typed (`paste_escapes`); every other text comes out as it is (`receivePaste_iff`).
-/

import Quosh.Bytes.Utf8
import Quosh.Data.Markers

namespace Quosh

open Bytes

namespace Web

/-- A string of JavaScript, in code units. -/
abbrev JsString := List UInt16

/-- The first unit of a surrogate pair. -/
def isHighSurrogate (u : UInt16) : Bool := 0xD800 ≤ u ∧ u ≤ 0xDBFF

/-- The second unit of a surrogate pair. -/
def isLowSurrogate (u : UInt16) : Bool := 0xDC00 ≤ u ∧ u ≤ 0xDFFF

/-- The character of a unit that is in no pair. -/
def unitChar (u : UInt16) : Char :=
  if isHighSurrogate u ∨ isLowSurrogate u then '\uFFFD' else Char.ofNat u.toNat

/-- The character of a surrogate pair. -/
def pairChar (u v : UInt16) : Char :=
  Char.ofNat (0x10000 + (u.toNat - 0xD800) * 0x400 + (v.toNat - 0xDC00))

/-- The characters of a string. -/
def scalarValues : JsString → List Char
  | [] => []
  | [u] => [unitChar u]
  | u :: v :: rest =>
    if isHighSurrogate u ∧ isLowSurrogate v then pairChar u v :: scalarValues rest
    else unitChar u :: scalarValues (v :: rest)

/-- `TextEncoder.encode`. -/
def textEncode (text : JsString) : Bytes := (scalarValues text).flatMap String.utf8EncodeChar

/-- `"\x1b[200~"`. -/
def startText : JsString := [0x1b, 0x5b, 0x32, 0x30, 0x30, 0x7e]

/-- `"\x1b[201~"`. -/
def endText : JsString := [0x1b, 0x5b, 0x32, 0x30, 0x31, 0x7e]

/-- `PASTE_START`. -/
def pasteStart : Bytes := textEncode startText

/-- `PASTE_END`. -/
def pasteEnd : Bytes := textEncode endText

/-- `encodePaste`. -/
def encodePaste (text : JsString) (bracketed : Bool) : Bytes :=
  let body := textEncode text
  if bracketed then pasteStart ++ body ++ pasteEnd else body

/-- What a receiver makes of bytes that start with a paste: the data, and what is typed behind
it. -/
def receivePaste (bytes : Bytes) : Option (Bytes × Bytes) :=
  (bytes.dropPrefix? pasteStart).bind fun rest => rest.dropInfix? pasteEnd

/-! ### UTF-8 keeps ASCII -/

/-- A unit and a byte of the same ASCII character. -/
abbrev SameAscii (u : UInt16) (b : UInt8) : Prop := u.toNat = b.toNat ∧ u.toNat < 0x80

theorem sameAscii_inj (u u' : UInt16) (b b' : UInt8) (h : SameAscii u b) (h' : SameAscii u' b') :
    u = u' ↔ b = b' := by
  constructor
  · rintro rfl
    exact UInt8.toNat_inj.1 (h.1.symm.trans h'.1)
  · rintro rfl
    exact UInt16.toNat_inj.1 (h.1.trans h'.1.symm)

/-- The character of a scalar value. -/
theorem toNat_char {n : ℕ} (h : n.isValidChar) : (Char.ofNat n).toNat = n := by
  rw [Char.ofNat, dif_pos h]
  rfl

/-- An ASCII character is one byte. -/
theorem utf8EncodeChar_of_lt {c : Char} (h : c.toNat < 0x80) :
    String.utf8EncodeChar c = [UInt8.ofNat c.toNat] := by
  have hle : c.val.toNat ≤ 127 := Nat.le_of_lt_succ h
  rw [String.utf8EncodeChar]
  exact if_pos hle

/-- The bytes of any other are not ASCII. -/
theorem le_of_mem_utf8EncodeChar {c : Char} (h : 0x80 ≤ c.toNat) {b : UInt8}
    (hb : b ∈ String.utf8EncodeChar c) : 0x80 ≤ b.toNat := by
  have hbyte (n : ℕ) (hn : 0x80 ≤ n) (hlt : n < 256) : 0x80 ≤ (UInt8.ofNat n).toNat := by
    rwa [UInt8.toNat_ofNat_of_lt' hlt]
  have hnot : ¬c.val.toNat ≤ 127 := not_le.2 h
  rw [String.utf8EncodeChar, if_neg hnot] at hb
  split_ifs at hb
  all_goals
    simp only [List.mem_cons, List.not_mem_nil, or_false] at hb
  · rcases hb with rfl | rfl <;> exact hbyte _ (by omega) (by omega)
  · rcases hb with rfl | rfl | rfl <;> exact hbyte _ (by omega) (by omega)
  · rcases hb with rfl | rfl | rfl | rfl <;> exact hbyte _ (by omega) (by omega)

/-- A unit that is not ASCII makes no ASCII character. -/
theorem le_unitChar {u : UInt16} (h : 0x80 ≤ u.toNat) : 0x80 ≤ (unitChar u).toNat := by
  unfold unitChar
  split
  · decide
  · rename_i hnot
    have hvalid : u.toNat.isValidChar := by
      simp only [isHighSurrogate, isLowSurrogate, decide_eq_true_eq, UInt16.le_iff_toNat_le] at hnot
      have hlt := u.toNat_lt
      simp only [UInt16.reduceToNat] at hnot
      simp only [Nat.isValidChar]
      omega
    rwa [toNat_char hvalid]

/-- Nor does a pair. -/
theorem le_pairChar {u v : UInt16} (hu : isHighSurrogate u) (hv : isLowSurrogate v) :
    0x80 ≤ (pairChar u v).toNat := by
  simp only [isHighSurrogate, isLowSurrogate, decide_eq_true_eq, UInt16.le_iff_toNat_le,
    UInt16.reduceToNat] at hu hv
  have hvalid : (0x10000 + (u.toNat - 0xD800) * 0x400 + (v.toNat - 0xDC00)).isValidChar := by
    simp only [Nat.isValidChar]
    omega
  rw [pairChar, toNat_char hvalid]
  omega

/-- The run of a character that is not ASCII. -/
theorem keeps_other {s₀ s : JsString} {c : Char} {t : Bytes} (hs₀ : s₀ ≠ [])
    (hs : ∀ u ∈ s₀, 0x80 ≤ u.toNat) (hc : 0x80 ≤ c.toNat) (h : Markers.Keeps SameAscii s t) :
    Markers.Keeps SameAscii (s₀ ++ s) (String.utf8EncodeChar c ++ t) := by
  refine .other (fun u hu b hsame => ?_) (fun b hb u hsame => ?_) hs₀
    String.utf8EncodeChar_ne_nil h
  · exact absurd hsame.2 (not_lt.2 (hs u hu))
  · have hle := le_of_mem_utf8EncodeChar hc hb
    have hlt := hsame.1 ▸ hsame.2
    exact absurd hlt (not_lt.2 hle)

/-- A unit that is in no pair. -/
theorem keeps_unit (u : UInt16) {s : JsString} {t : Bytes} (h : Markers.Keeps SameAscii s t) :
    Markers.Keeps SameAscii (u :: s) (String.utf8EncodeChar (unitChar u) ++ t) := by
  by_cases hu : u.toNat < 0x80
  · have hascii : unitChar u = Char.ofNat u.toNat := by
      refine if_neg ?_
      simp only [isHighSurrogate, isLowSurrogate, decide_eq_true_eq, UInt16.le_iff_toNat_le,
        UInt16.reduceToNat]
      omega
    have hvalid : u.toNat.isValidChar := .inl (by omega)
    have hchar : (unitChar u).toNat = u.toNat := by rw [hascii, toNat_char hvalid]
    rw [utf8EncodeChar_of_lt (hchar ▸ hu), hchar]
    refine .same ⟨?_, hu⟩ h
    exact (UInt8.toNat_ofNat_of_lt' (by show _ < 256; omega)).symm
  · refine keeps_other (List.cons_ne_nil u []) (fun u' hu' => ?_) (le_unitChar (not_lt.1 hu)) h
    rw [List.mem_singleton.1 hu']
    exact not_lt.1 hu

/-- **UTF-8 keeps the ASCII characters of a text.** -/
theorem keeps_textEncode (text : JsString) : Markers.Keeps SameAscii text (textEncode text) := by
  unfold textEncode
  fun_induction scalarValues text with
  | case1 => exact .nil
  | case2 u => exact keeps_unit u .nil
  | case3 u v rest hpair ih =>
    refine keeps_other (List.cons_ne_nil u [v]) (fun u' hu' => ?_) (le_pairChar hpair.1 hpair.2) ih
    obtain ⟨hu, hv⟩ := hpair
    simp only [isHighSurrogate, isLowSurrogate, decide_eq_true_eq, UInt16.le_iff_toNat_le,
      UInt16.reduceToNat] at hu hv
    simp only [List.mem_cons, List.not_mem_nil, or_false] at hu'
    rcases hu' with rfl | rfl <;> omega
  | case4 u v rest hpair ih => exact keeps_unit u ih

/-- **A text has an end marker** iff its bytes have one. -/
theorem endText_infix_iff (text : JsString) :
    endText <:+: text ↔ pasteEnd <:+: textEncode text := by
  refine (keeps_textEncode text).infix_iff sameAscii_inj ?_
  have hbytes : pasteEnd = [0x1b, 0x5b, 0x32, 0x30, 0x31, 0x7e] := by decide
  rw [hbytes]
  repeat' first | exact .nil | refine .cons (by decide) ?_

/-- **When a paste is received as it was**: iff the text has no end marker.  Nothing is left
to be typed then. -/
theorem receivePaste_iff (text : JsString) :
    receivePaste (encodePaste text true) = some (textEncode text, []) ↔ ¬endText <:+: text := by
  have hend : pasteEnd = 0x1b :: [0x5b, 0x32, 0x30, 0x31, 0x7e] := by decide
  have hstart : (encodePaste text true).dropPrefix? pasteStart =
      some (textEncode text ++ pasteEnd ++ []) := by
    refine List.dropPrefix?_eq_some_iff.2 ⟨pasteStart, ?_, BEq.rfl⟩
    rw [encodePaste]
    simp [List.append_assoc]
  rw [receivePaste, hstart, Option.bind_some, endText_infix_iff, hend]
  exact Markers.dropInfix?_append_iff (by decide) _ _

/-- A command behind an end marker. -/
def hostileText : JsString := endText ++ [0x6c, 0x73, 0x0d]

/-- **A text with an end marker escapes from its paste**: what is behind the marker is typed,
and so is the marker that the encoder appended. -/
theorem paste_escapes :
    ¬∀ text : JsString,
      receivePaste (encodePaste text true) = some (textEncode text, []) := by
  intro h
  have hreceived : receivePaste (encodePaste hostileText true) =
      some ([], [0x6c, 0x73, 0x0d] ++ pasteEnd) := by decide
  have hdiffer := (h hostileText).symm.trans hreceived
  exact absurd (congrArg (Option.map Prod.snd) hdiffer) (by decide)

end Web
end Quosh
