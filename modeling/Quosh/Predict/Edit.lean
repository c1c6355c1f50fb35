/-
# Editing the cells of a frame

The predictor draws by overwriting cells of a frame (`setCell`), underlining them
(`setUnderline`) and moving the cursor.  On a frame whose cells are all there (`Sized`) each of
the first two changes one cell, and what a cell has beside its text, its size and the other cells
stays as it was.

`cellLen` is the length field of a cell; 7 says that the text is in the overflow table.  The cells
a prediction is made of never say so, whatever cells they take their style from.
-/

import Quosh.Predict.Overlay
import Quosh.Data.Blocks

namespace Quosh

/-! ### The length field -/

/-- The text of the cell is in the cell. -/
def Plain (cell : Cell) : Prop := cellLen cell ≠ 7

/-- A cell of zeros has no text. -/
theorem cellLen_zero : cellLen Cell.zero = 0 := by
  decide

/-- A cell of zeros has its text. -/
theorem plain_zero : Plain Cell.zero := by
  unfold Plain
  rw [cellLen_zero]
  omega

/-- A blank cell keeps one flag of its source. -/
theorem getElem_makeBlankCell (src : Cell) {h : 1 < 12} :
    (makeBlankCell src)[1] = src[1] &&& (1 : UInt8) := by
  simp [makeBlankCell]

/-- A cell with a character has its length and one flag of its source. -/
theorem getElem_makeCharCell (src : Cell) (ch : Char) {h : 1 < 12} : (makeCharCell src ch)[1] =
    (src[1] &&& (1 : UInt8)) |||
      (UInt8.ofNat (min (String.utf8EncodeChar ch).length 4) <<< (3 : UInt8)) := by
  simp [makeCharCell]

/-- The attributes are copied with one flag, and the length stays. -/
theorem getElem_copyRenditions (dst src : Cell) {h : 1 < 12} :
    (copyRenditions dst src)[1] = (dst[1] &&& (0xFE : UInt8)) ||| (src[1] &&& (1 : UInt8)) := by
  simp [copyRenditions]

/-- The inverse flag is below the length field. -/
theorem and_one_shiftRight_three (b : UInt8) : (b &&& (1 : UInt8)) >>> (3 : UInt8) = 0 := by
  rw [UInt8.shiftRight_and]
  exact UInt8.and_zero

/-- A predicted blank has no text. -/
theorem cellLen_makeBlankCell (src : Cell) : cellLen (makeBlankCell src) = 0 := by
  unfold cellLen
  rw [getElem_makeBlankCell, and_one_shiftRight_three]
  rfl

/-- A predicted character has the length of its encoding. -/
theorem cellLen_makeCharCell (src : Cell) (ch : Char) :
    cellLen (makeCharCell src ch) = (String.utf8EncodeChar ch).length := by
  have hlen : 1 ≤ (String.utf8EncodeChar ch).length ∧ (String.utf8EncodeChar ch).length ≤ 4 := by
    rw [String.length_utf8EncodeChar]
    exact ⟨ch.utf8Size_pos, ch.utf8Size_le_four⟩
  unfold cellLen
  rw [getElem_makeCharCell, UInt8.shiftRight_or, and_one_shiftRight_three, UInt8.zero_or]
  generalize (String.utf8EncodeChar ch).length = n at hlen
  obtain ⟨h1, h4⟩ := hlen
  match n, h1, h4 with
  | 1, _, _ | 2, _, _ | 3, _, _ | 4, _, _ => rfl

/-- A rendition leaves the length alone. -/
theorem cellLen_copyRenditions (dst src : Cell) :
    cellLen (copyRenditions dst src) = cellLen dst := by
  unfold cellLen
  rw [getElem_copyRenditions, UInt8.shiftRight_or, and_one_shiftRight_three, UInt8.or_zero,
    UInt8.shiftRight_and, UInt8.and_assoc]
  rfl

/-- A blank cell has its text. -/
theorem plain_makeBlankCell (src : Cell) : Plain (makeBlankCell src) := by
  unfold Plain
  rw [cellLen_makeBlankCell]
  omega

/-- So has a cell with a character. -/
theorem plain_makeCharCell (src : Cell) (ch : Char) : Plain (makeCharCell src ch) := by
  unfold Plain
  rw [cellLen_makeCharCell, String.length_utf8EncodeChar]
  have := ch.utf8Size_le_four
  omega

/-- The content of a predicted character is its encoding. -/
theorem content_makeCharCell (src : Cell) (ch : Char) :
    ((makeCharCell src ch).toList.drop 8).take (String.utf8EncodeChar ch).length =
      String.utf8EncodeChar ch := by
  have hle : (String.utf8EncodeChar ch).length ≤ 4 := by
    rw [String.length_utf8EncodeChar]
    exact ch.utf8Size_le_four
  refine List.ext_getElem (by simpa using hle) fun k hk hk' => ?_
  have hmin : min (String.utf8EncodeChar ch).length 4 = (String.utf8EncodeChar ch).length :=
    min_eq_left hle
  simp only [List.getElem_take, List.getElem_drop, Vector.getElem_toList, makeCharCell,
    Vector.getElem_ofFn, hmin, List.take_length, Nat.add_sub_cancel_left]
  rw [if_neg (by omega), if_pos (by omega), List.getD_eq_getElem?_getD,
    List.getElem?_eq_getElem hk']
  rfl

/-- **The text of a predicted character** is the character: it has at most four bytes, so
the cell holds them itself, and the bit of a spacer is not set. -/
theorem cellText_makeCharCell (src : Cell) (ch : Char) :
    cellText (makeCharCell src ch) = String.singleton ch := by
  have hlen := cellLen_makeCharCell src ch
  have hsize : 1 ≤ (String.utf8EncodeChar ch).length ∧ (String.utf8EncodeChar ch).length ≤ 4 := by
    rw [String.length_utf8EncodeChar]
    exact ⟨ch.utf8Size_pos, ch.utf8Size_le_four⟩
  have hflag : (makeCharCell src ch)[1] &&& (4 : UInt8) = 0 := by
    have hbit : src[1] &&& (1 : UInt8) = 0 ∨ src[1] &&& (1 : UInt8) = 1 := by
      have hmod : (src[1] &&& (1 : UInt8)).toNat = src[1].toNat % 2 := by
        rw [UInt8.toNat_and]
        exact Nat.and_one_is_mod _
      rcases Nat.mod_two_eq_zero_or_one src[1].toNat with hzero | hone
      · exact .inl (UInt8.toNat_inj.1 (hmod.trans hzero))
      · exact .inr (UInt8.toNat_inj.1 (hmod.trans hone))
    rw [getElem_makeCharCell]
    generalize (String.utf8EncodeChar ch).length = n at hsize
    obtain ⟨h1, h4⟩ := hsize
    rcases hbit with hbit | hbit <;> rw [hbit] <;>
      match n, h1, h4 with
      | 1, _, _ | 2, _, _ | 3, _, _ | 4, _, _ => rfl
  have hbytes : Bytes.asBytes (String.singleton ch) = String.utf8EncodeChar ch := by
    rw [Bytes.asBytes, String.toList_singleton]
    exact List.flatMap_singleton ..
  unfold cellText
  rw [hlen, if_neg (not_not.2 hflag), if_neg (by omega), if_neg (by omega),
    content_makeCharCell, ← hbytes, Bytes.fromUtf8Lossy_asBytes]
/-- A cell with the underline bit set. -/
def underlined (cell : Cell) : Cell := cell.set 0 (cell[0] ||| (0x80 : UInt8))

/-- An underline leaves the length. -/
@[simp] theorem cellLen_underlined (cell : Cell) : cellLen (underlined cell) = cellLen cell := by
  simp [cellLen, underlined]

/-! ### Cells of a frame -/

/-- All the cells of the frame are there. -/
def FrameState.Sized (fb : FrameState) : Prop := fb.cells.length = fb.rows * fb.cols * cellSize

section Cells

variable {fb : FrameState} {row col row' col' : ℕ}

/-- A cell of the frame, byte by byte. -/
theorem getElem_cellBytes (hrow : row < fb.rows) (hcol : col < fb.cols) (k : ℕ) (hk : k < 12) :
    (cellBytes fb row col)[k] = fb.cells.getD ((row * fb.cols + col) * cellSize + k) 0 := by
  unfold cellBytes
  simp only [show ¬(row ≥ fb.rows ∨ col ≥ fb.cols) by omega, if_false, index]
  exact Vector.getElem_ofFn ..

/-- Outside of the grid a cell reads as zeros. -/
theorem cellBytes_of_outside (h : row ≥ fb.rows ∨ col ≥ fb.cols) :
    cellBytes fb row col = Cell.zero := by
  rw [cellBytes, if_pos h]

/-- The bytes of a cell of a sized frame are there. -/
theorem FrameState.Sized.cell_le (h : fb.Sized) (hrow : row < fb.rows) (hcol : col < fb.cols) :
    (row * fb.cols + col) * cellSize + cellSize ≤ fb.cells.length := by
  have hflat : row * fb.cols + col + 1 ≤ fb.rows * fb.cols := by
    have := Nat.mul_le_mul_right fb.cols (Nat.succ_le_of_lt hrow)
    rw [Nat.succ_mul] at this
    omega
  have := Nat.mul_le_mul_right cellSize hflat
  rw [h]
  rw [Nat.succ_mul] at this
  exact this

/-- Overwriting a cell leaves a sized frame. -/
theorem FrameState.Sized.setCell (h : fb.Sized) (hrow : row < fb.rows) (hcol : col < fb.cols)
    (cell : Cell) : (setCell fb row col cell).Sized := by
  have hle := h.cell_le hrow hcol
  unfold FrameState.Sized at h ⊢
  simp only [Quosh.setCell, index, List.length_append, List.length_take, List.length_drop,
    cell.length_toList]
  unfold cellSize at hle h ⊢
  omega

/-- Underlining a cell leaves a sized frame. -/
theorem FrameState.Sized.setUnderline (h : fb.Sized) (row col : ℕ) :
    (setUnderline fb row col).Sized := by
  unfold FrameState.Sized at h ⊢
  simp only [Quosh.setUnderline, List.length_modify]
  exact h

/-- **Overwriting a cell** changes that cell alone. -/
theorem cellBytes_setCell (h : fb.Sized) (hrow : row < fb.rows) (hcol : col < fb.cols)
    (hrow' : row' < fb.rows) (hcol' : col' < fb.cols) (cell : Cell) :
    cellBytes (setCell fb row col cell) row' col' =
      if row' = row ∧ col' = col then cell else cellBytes fb row' col' := by
  refine Vector.ext fun k hk => ?_
  have hsame : (row' * fb.cols + col' = row * fb.cols + col) ↔ row' = row ∧ col' = col :=
    ⟨Blocks.place_inj hcol' hcol, fun ⟨hr, hc⟩ => by rw [hr, hc]⟩
  have hget := Blocks.getElem?_overwrite (j := row' * fb.cols + col') cell.length_toList
    (h.cell_le hrow hcol) hk
  have hleft := (getElem_cellBytes : row' < (setCell fb row col cell).rows → _) hrow' hcol' k hk
  have hright := getElem_cellBytes hrow' hcol' k hk
  rw [List.getD_eq_getElem?_getD] at hleft hright
  rw [hleft]
  simp only [setCell, index, cellSize] at hget hright ⊢
  rw [hget, if_congr hsame rfl rfl]
  split
  · simp [hk]
  · exact hright.symm

/-- **Underlining a cell** changes the first byte of that cell alone, as the bytes of two
cells of a frame have no place in common (`Blocks.place_inj`). -/
theorem cellBytes_setUnderline (h : fb.Sized) (hrow : row < fb.rows) (hcol : col < fb.cols)
    (hrow' : row' < fb.rows) (hcol' : col' < fb.cols) :
    cellBytes (setUnderline fb row col) row' col' =
      if row' = row ∧ col' = col then underlined (cellBytes fb row' col')
      else cellBytes fb row' col' := by
  refine Vector.ext fun k hk => ?_
  have hsame : ((row * fb.cols + col) * cellSize = (row' * fb.cols + col') * cellSize + k) ↔
      (row' = row ∧ col' = col) ∧ k = 0 := by
    constructor
    · intro h
      obtain ⟨hcell, hk⟩ := Blocks.place_inj (n := cellSize) (j := 0) (by decide) hk h
      obtain ⟨hr, hc⟩ := Blocks.place_inj hcol hcol' hcell
      exact ⟨⟨hr.symm, hc.symm⟩, hk.symm⟩
    · rintro ⟨⟨rfl, rfl⟩, rfl⟩
      rfl
  have hleft := (getElem_cellBytes : row' < (setUnderline fb row col).rows → _) hrow' hcol' k hk
  have hright := getElem_cellBytes hrow' hcol' k hk
  rw [List.getD_eq_getElem?_getD] at hleft hright
  rw [hleft]
  have hle := h.cell_le hrow' hcol'
  have hlt : (row' * fb.cols + col') * cellSize + k < fb.cells.length := by
    unfold cellSize at hle ⊢
    omega
  simp only [setUnderline, index, List.getElem?_modify]
  rw [List.getElem?_eq_getElem hlt] at hright ⊢
  have hget : ∀ cell : Cell,
      (underlined cell)[k] = if k = 0 then cell[k] ||| 0x80 else cell[k] := by
    intro cell
    by_cases hzero : k = 0
    · subst hzero
      simp [underlined]
    · rw [if_neg hzero, underlined, Vector.getElem_set_ne (by omega) hk (Ne.symm hzero)]
  by_cases hcell : row' = row ∧ col' = col
  · obtain ⟨rfl, rfl⟩ := hcell
    simp only [and_self, if_true, true_and] at hsame ⊢
    rw [hget, hright]
    simp only [Option.map_eq_map, Option.map_some, Option.getD_some, hsame]
  · simp only [hsame, hcell, if_false, false_and]
    exact hright.symm

end Cells

end Quosh
