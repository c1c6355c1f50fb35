/-
# Lines and words

A text as a list of characters, cut into lines (`lines`) and words (`words`) and trimmed
(`trim`), as `str::lines`, `str::split_whitespace` and `str::trim` do, and the numbers of
`u16::from_str`.

`lines_around` is about a line between other text, `words_append` about words with a space
between them, and `readU16_toDigits` about a number that was written.
-/

import Mathlib.Data.List.DropRight
import Mathlib.Tactic.SplitIfs

namespace Quosh
namespace Words

/-- `char::is_whitespace`. -/
def isSpace (c : Char) : Bool :=
  9 ≤ c.toNat ∧ c.toNat ≤ 13 ∨ c.toNat ∈ [0x20, 0x85, 0xa0, 0x1680] ∨
    0x2000 ≤ c.toNat ∧ c.toNat ≤ 0x200a ∨ c.toNat ∈ [0x2028, 0x2029, 0x202f, 0x205f, 0x3000]

/-- `str::trim`. -/
def trim (cs : List Char) : List Char := (cs.dropWhile isSpace).rdropWhile isSpace

/-- `str::split_whitespace`. -/
def words (cs : List Char) : List (List Char) := (cs.splitOnP isSpace).filter (· ≠ [])

/-- A line without the carriage return at its end. -/
def chomp (l : List Char) : List Char := if l.getLast? = some '\r' then l.dropLast else l

/-- The lines of what stands between line feeds; there is no line behind the last one. -/
def linesOf : List (List Char) → List (List Char)
  | [] => []
  | [last] => if last = [] then [] else [last]
  | l :: next :: rest => chomp l :: linesOf (next :: rest)

/-- `str::lines`. -/
def lines (cs : List Char) : List (List Char) := linesOf (cs.splitOnP (· = '\n'))

/-- A number without the sign in front of it. -/
def unsigned : List Char → List Char
  | '+' :: digits => digits
  | digits => digits

/-- `u16::from_str`. -/
def readU16 (cs : List Char) : Option UInt16 :=
  let digits := unsigned cs
  if digits ≠ [] ∧ digits.all Char.isDigit ∧ Nat.ofDigitChars 10 digits 0 < UInt16.size then
    some (UInt16.ofNat (Nat.ofDigitChars 10 digits 0))
  else none

/-! ### Trimming and words -/

variable {cs : List Char}

/-- A word: characters that are no spaces. -/
def IsWord (cs : List Char) : Prop := cs ≠ [] ∧ ∀ c ∈ cs, isSpace c = false

/-- What begins and ends with a word is trimmed. -/
theorem trim_between {first last : List Char} (hfirst : IsWord first) (mid : List Char)
    (hlast : IsWord last) : trim (first ++ (mid ++ last)) = first ++ (mid ++ last) := by
  obtain ⟨c, cs, rfl⟩ := List.exists_cons_of_ne_nil hfirst.1
  have hc : isSpace c = false := hfirst.2 c List.mem_cons_self
  unfold trim
  rw [List.cons_append, List.dropWhile_cons_of_neg (by simp [hc])]
  refine List.rdropWhile_eq_self_iff.2 fun hne => ?_
  have hend : (c :: (cs ++ (mid ++ last))).getLast hne = last.getLast hlast.1 := by
    simp only [← List.cons_append, ← List.append_assoc, List.getLast_append_of_ne_nil _ hlast.1]
  rw [hend, hlast.2 _ (List.getLast_mem hlast.1)]
  exact Bool.false_ne_true

/-- What begins with a space is trimmed as what is behind it. -/
theorem trim_space (cs : List Char) : trim (' ' :: cs) = trim cs := by
  unfold trim
  rw [List.dropWhile_cons_of_pos (by decide)]

/-- A word is the only one of its text. -/
theorem words_eq_single (h : IsWord cs) : words cs = [cs] := by
  unfold words
  rw [List.splitOnP_eq_singleton h.2]
  simp [h.1]

/-- Words with a space between them. -/
theorem words_append (cs ds : List Char) : words (cs ++ ' ' :: ds) = words cs ++ words ds := by
  unfold words
  rw [List.splitOnP_append_cons cs ds (by decide), List.filter_append]

/-! ### Lines -/

/-- Lines in front of others. -/
theorem linesOf_append (ls : List (List Char)) {rest : List (List Char)} (h : rest ≠ []) :
    linesOf (ls ++ rest) = ls.map chomp ++ linesOf rest := by
  induction ls with
  | nil => rfl
  | cons l ls ih =>
    obtain ⟨next, more, hnext⟩ := List.exists_cons_of_ne_nil
      (List.append_ne_nil_of_right_ne_nil ls h)
    rw [List.cons_append, hnext, linesOf, ← hnext, ih]
    rfl

/-- **A line between other text** is one of the lines, in front of those of the text behind it,
if it begins where a line does. -/
theorem lines_around {before line : List Char} (after : List Char)
    (hbefore : before = [] ∨ ∃ text, before = text ++ ['\n']) (hline : '\n' ∉ line) :
    ∃ ls, lines (before ++ line ++ '\n' :: after) = ls ++ chomp line :: lines after := by
  have hsingle : line.splitOnP (· = '\n') = [line] :=
    List.splitOnP_eq_singleton fun c hc => decide_eq_false fun heq => hline (heq ▸ hc)
  have hafter : after.splitOnP (· = '\n') ≠ [] := List.splitOnP_ne_nil _ _
  have hcut : (line ++ '\n' :: after).splitOnP (· = '\n') =
      line :: after.splitOnP (· = '\n') := by
    rw [List.splitOnP_append_cons line after (by decide), hsingle]
    rfl
  unfold lines
  rcases hbefore with rfl | ⟨text, rfl⟩
  · refine ⟨[], ?_⟩
    rw [List.nil_append, hcut]
    exact linesOf_append [line] hafter
  · refine ⟨(text.splitOnP (· = '\n')).map chomp, ?_⟩
    rw [List.append_assoc, List.append_assoc, List.singleton_append,
      List.splitOnP_append_cons text _ (by decide), hcut,
      show line :: after.splitOnP (· = '\n') = [line] ++ after.splitOnP (· = '\n') from rfl,
      ← List.append_assoc, linesOf_append _ hafter, List.map_append, List.append_assoc]
    rfl

/-! ### Numbers -/

/-- A digit is no space. -/
theorem isSpace_of_isDigit {c : Char} (h : c.isDigit = true) : isSpace c = false := by
  unfold Char.isDigit at h
  simp only [Bool.and_eq_true, decide_eq_true_eq, ge_iff_le, UInt32.le_iff_toNat_le] at h
  have hlow : 48 ≤ c.toNat := h.1
  have hhigh : c.toNat ≤ 57 := h.2
  unfold isSpace
  simp only [List.mem_cons, List.not_mem_nil, or_false, decide_eq_false_iff_not]
  omega

/-- A number is a word. -/
theorem isWord_toDigits (n : ℕ) : IsWord (Nat.toDigits 10 n) :=
  ⟨Nat.toDigits_ne_nil, fun _ hc =>
    isSpace_of_isDigit (Nat.isDigit_of_mem_toDigits (by decide) (by decide) hc)⟩

/-- **A number that was written is read back.** -/
theorem readU16_toDigits (n : UInt16) : readU16 (Nat.toDigits 10 n.toNat) = some n := by
  have hdigits : (Nat.toDigits 10 n.toNat).all Char.isDigit = true :=
    List.all_eq_true.2 fun c hc => Nat.isDigit_of_mem_toDigits (by decide) (by decide) hc
  have hvalue : Nat.ofDigitChars 10 (Nat.toDigits 10 n.toNat) 0 = n.toNat :=
    Nat.ofDigitChars_ten_toDigits
  have hne : Nat.toDigits 10 n.toNat ≠ [] := Nat.toDigits_ne_nil
  have hunsigned : unsigned (Nat.toDigits 10 n.toNat) = Nat.toDigits 10 n.toNat := by
    unfold unsigned
    split
    · rename_i rest heq
      have hplus := List.all_eq_true.1 hdigits '+' (heq ▸ List.mem_cons_self)
      exact absurd hplus (by decide)
    · rfl
  have hlt : Nat.ofDigitChars 10 (Nat.toDigits 10 n.toNat) 0 < UInt16.size := by
    rw [hvalue]
    exact n.toNat_lt_size
  unfold readU16
  dsimp only
  rw [hunsigned, if_pos ⟨hne, hdigits, hlt⟩, hvalue, UInt16.ofNat_toNat]

end Words
end Quosh
