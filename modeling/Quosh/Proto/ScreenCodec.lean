/-
# The screen codec

`Quosh.Proto.Screen` writes and reads screens; here the two meet.  A screen that
fits the format (`Screen.Fits`: the bounds the decoder checks, the widths of the
length fields, and no link array, which the format does not carry) is read back
exactly, ordinary or shared, through any LZ4 codec that is as documented.

Texts are cut at 65535 bytes, so in general what comes back is `Screen.clip s`;
the decoder's acceptance (`Encodable`) and the absence of loss (`Fits`) are
separate conditions.  Reading back is one `Reads` statement for each section of the format, composed
in the order of the fields; the overflow table is an induction over its entries,
which the decoder inserts in the increasing order the encoder lists them in.
Prefix-freedom comes from the other property of readers, locality, which the
same sections compose.
-/

import Quosh.Proto.Screen

namespace Quosh

open Bytes

namespace Screen

/-! ### Locality of the decoder -/

/-- A text is read off the front. -/
theorem local_readText : Local readText :=
  (local_readLe _ _).bind fun _ => (local_readExact _ _).bind fun _ => local_pure _

/-- So is the header. -/
theorem local_readHeader : Local readHeader := by
  refine (local_readExact _ _).bind fun magic => (local_require _ _).bind fun _ => ?_
  refine (local_readLe _ _).bind fun version => (local_readLe _ _).bind fun echoAck => ?_
  refine (local_readLe _ _).bind fun rows => (local_readLe _ _).bind fun cols => ?_
  refine (local_readLe _ _).bind fun cursorRow => (local_readLe _ _).bind fun cursorCol => ?_
  refine (local_readLe _ _).bind fun mode => ?_
  refine (local_require _ _).bind fun _ => (local_require _ _).bind fun _ => ?_
  exact (local_require _ _).bind fun _ => local_pure _

/-- So are the cells. -/
theorem local_readCells (cellN : ℕ) : Local (readCells cellN) :=
  (local_readLe _ _).bind fun _ => (local_require _ _).bind fun _ => local_readExact _ _

/-- So are the texts that do not fit. -/
theorem local_readOverflow (cellN n : ℕ) (t : SortedTable ℕ String) :
    Local (readOverflow cellN n t) := by
  induction n generalizing t with
  | zero => exact local_pure _
  | succ n ih =>
    refine (local_readLe _ _).bind fun idx => (local_require _ _).bind fun _ => ?_
    exact local_readText.bind fun text => ih _

/-- So is their table. -/
theorem local_readTable (cellN : ℕ) : Local (readTable cellN) :=
  (local_readLe _ _).bind fun _ => (local_require _ _).bind fun _ => local_readOverflow _ _ _

/-- So is a screen. -/
theorem local_readScreen : Local readScreen :=
  local_readHeader.bind fun _ => local_readText.bind fun _ =>
    (local_readCells _).bind fun _ => (local_readTable _).bind fun _ => local_pure _

/-- **The accepted strings are prefix-free**: if one accepted string extends
another, they are equal. -/
theorem decodeRaw_prefixFree {b x : Bytes} {s : Screen} (h : decodeRaw b = .ok s) (hx : x ≠ []) :
    decodeRaw (b ++ x) = .error .frame :=
  complete_prefixFree local_readScreen h hx

/-! ### Reading back what was written -/

/-- The text that survives a `u16` length: the first 65535 bytes, read lossily
where the cut falls inside a character. -/
def clipText (t : String) : String := fromUtf8Lossy ((asBytes t).take 65535)

/-- A text that fits is not cut. -/
theorem clipText_eq {t : String} (h : (asBytes t).length ≤ 65535) : clipText t = t := by
  rw [clipText, List.take_of_length_le h, fromUtf8Lossy_asBytes]

/-- The part of a screen the format carries: texts clipped, links dropped. -/
def clip (s : Screen) : Screen :=
  { s with
    frame :=
      { s.frame with
        title := clipText s.frame.title
        overflow := s.frame.overflow.mapValues clipText
        cellLinks := [] } }

/-- The screens the decoder accepts: `u64` and `u16` fields in range, dimensions
and cursor within its bounds, a full cell array, overflow keys inside the grid,
and a raw encoding it is willing to decompress. -/
structure Encodable (s : Screen) : Prop where
  version_lt : s.version < 2 ^ 64
  echoAck_lt : s.echoAck < 2 ^ 64
  mode_lt : s.frame.mode < 2 ^ 16
  rows_le : s.frame.rows ≤ 512
  cols_le : s.frame.cols ≤ 512
  cursorRow_le : s.frame.cursorRow ≤ s.frame.rows
  cursorCol_le : s.frame.cursorCol ≤ s.frame.cols
  cells_eq : s.frame.cells.length = s.frame.rows * s.frame.cols * cellSize
  overflow_lt : ∀ e ∈ s.frame.overflow.entries, e.1 < s.frame.rows * s.frame.cols
  raw_le : s.encodeRaw.length ≤ maxScreenRaw

/-- The screens the format carries in full: texts that fit their `u16` lengths,
and no link array. -/
structure Fits (s : Screen) : Prop extends Encodable s where
  title_le : (asBytes s.frame.title).length ≤ 65535
  overflow_le : ∀ e ∈ s.frame.overflow.entries, (asBytes e.2).length ≤ 65535
  links_eq : s.frame.cellLinks = []

/-- A screen that fits loses nothing. -/
theorem Fits.clip_eq {s : Screen} (h : s.Fits) : s.clip = s := by
  have htable : s.frame.overflow.mapValues clipText = s.frame.overflow := by
    refine SortedTable.ext_entries ?_
    refine (List.map_congr_left fun e he => ?_).trans (List.map_id _)
    rw [clipText_eq (h.overflow_le e he), id]
  rw [clip, clipText_eq h.title_le, htable, ← h.links_eq]

/-- The grid of an encodable screen has at most 512 × 512 cells. -/
theorem Encodable.cellCount_le {s : Screen} (h : s.Encodable) :
    s.frame.rows * s.frame.cols ≤ 262144 :=
  Nat.mul_le_mul h.rows_le h.cols_le

/-- A text is read as it was written, and cut. -/
theorem reads_readText (t : String) : Reads readText (encodeText t) (clipText t) := by
  have hlen : ((asBytes t).take (min (asBytes t).length 65535)).length
      = min (asBytes t).length 65535 := by
    rw [List.length_take]
    omega
  have hclip : (asBytes t).take (min (asBytes t).length 65535) = (asBytes t).take 65535 :=
    List.take_eq_take_iff.2 (by omega)
  have hbody := (reads_readExact ProtoError.truncated hlen).bind_pure (f := fromUtf8Lossy)
  rw [hclip] at hbody
  simp only [encodeText, hclip]
  exact (reads_readLe _ (by omega)).bind hbody

/-- The header is read as it was written.  The bounds of a screen that can be encoded are
those that the reader checks, and each field fits the bytes that it is written to. -/
theorem reads_readHeader {s : Screen} (h : s.Encodable) :
    Reads readHeader
      (screenMagic ++ toLe 8 s.version ++ toLe 8 s.echoAck ++ toLe 2 s.frame.rows ++
        toLe 2 s.frame.cols ++ toLe 2 s.frame.cursorRow ++ toLe 2 s.frame.cursorCol ++
        toLe 2 s.frame.mode)
      { version := s.version, echoAck := s.echoAck, rows := s.frame.rows, cols := s.frame.cols,
        cursorRow := s.frame.cursorRow, cursorCol := s.frame.cursorCol, mode := s.frame.mode } := by
  have hr := h.rows_le
  have hc := h.cols_le
  have hcr := h.cursorRow_le
  have hcc := h.cursorCol_le
  have hm := h.mode_lt
  have hcells : s.frame.rows * s.frame.cols ≤ maxCellCount := by
    have := h.cellCount_le
    unfold maxCellCount
    omega
  have hdims : (decide (s.frame.rows ≤ maxRows) && decide (s.frame.cols ≤ maxCols)) = true := by
    rw [Bool.and_eq_true, decide_eq_true_iff, decide_eq_true_iff]
    exact ⟨hr, hc⟩
  have hcur : (decide (s.frame.cursorRow ≤ s.frame.rows) &&
      decide (s.frame.cursorCol ≤ s.frame.cols)) = true := by
    rw [Bool.and_eq_true, decide_eq_true_iff, decide_eq_true_iff]
    exact ⟨hcr, hcc⟩
  simp only [List.append_assoc]
  refine Reads.bind (reads_readExact _ rfl) ?_
  refine Reads.require_bind (decide_eq_true rfl) ?_
  refine (reads_readLe _ h.version_lt).bind ((reads_readLe _ h.echoAck_lt).bind ?_)
  refine (reads_readLe _ (by omega)).bind ((reads_readLe _ (by omega)).bind ?_)
  refine (reads_readLe _ (by omega)).bind ((reads_readLe _ (by omega)).bind ?_)
  rw [← List.append_nil (toLe 2 s.frame.mode)]
  refine (reads_readLe _ hm).bind (.require_bind (decide_eq_true hcells) ?_)
  exact .require_bind hdims (.require_bind hcur (reads_pure _))

/-- So are the cells. -/
theorem reads_readCells {cellN : ℕ} {cells : Bytes} (hn : cellN ≤ 262144)
    (h : cells.length = cellN * cellSize) :
    Reads (readCells cellN) (toLe 4 cells.length ++ cells) cells := by
  have hlt : cells.length < 256 ^ 4 := by
    rw [h, cellSize]
    omega
  exact (reads_readLe _ hlt).bind (.require_bind (decide_eq_true h) (reads_readExact _ rfl))

/-- The overflow loop reads the entries it is given and inserts them in turn. -/
theorem reads_readOverflow {cellN : ℕ} (hn : cellN ≤ 262144) (es : List (ℕ × String))
    (hlt : ∀ e ∈ es, e.1 < cellN) (t : SortedTable ℕ String) :
    Reads (readOverflow cellN es.length t) (es.flatMap encodeEntry)
      (es.foldl (fun u e => u.insert e.1 (clipText e.2)) t) := by
  induction es generalizing t with
  | nil => exact reads_pure t
  | cons e es ih =>
    have he := hlt e (List.mem_cons_self ..)
    have htail := ih (fun e' h' => hlt e' (List.mem_cons_of_mem _ h'))
      (t.insert e.1 (clipText e.2))
    rw [List.flatMap_cons, encodeEntry, List.append_assoc]
    refine (reads_readLe _ (by omega)).bind (.require_bind (decide_eq_true he) ?_)
    exact (reads_readText e.2).bind htail

/-- The table is read as it was written, its texts cut. -/
theorem reads_readTable {cellN : ℕ} (hn : cellN ≤ 262144) {t : SortedTable ℕ String}
    (hlt : ∀ e ∈ t.entries, e.1 < cellN) :
    Reads (readTable cellN) (toLe 4 t.entries.length ++ t.entries.flatMap encodeEntry)
      (t.mapValues clipText) := by
  have hlen := SortedTable.length_le_of_forall_lt hlt
  have hloop := reads_readOverflow hn t.entries hlt {}
  rw [SortedTable.foldl_insert_entries] at hloop
  exact (reads_readLe _ (by omega)).bind (.require_bind (decide_eq_true hlen) hloop)

/-- **The raw decoder reads back what the raw encoding carries.** -/
theorem decodeRaw_encodeRaw {s : Screen} (h : s.Encodable) :
    decodeRaw s.encodeRaw = .ok s.clip := by
  have hscreen : Reads readScreen s.encodeRaw s.clip := by
    unfold encodeRaw
    rw [List.append_assoc, List.append_assoc]
    refine (reads_readHeader h).bind ((reads_readText s.frame.title).bind ?_)
    refine (reads_readCells h.cellCount_le h.cells_eq).bind ?_
    exact (reads_readTable h.cellCount_le h.overflow_lt).bind_pure
  exact hscreen.complete _

/-- **What the format carries survives compression.** -/
theorem decodeCompressed_encodeCompressed {z : Lz4} (hz : z.Documented) {s : Screen}
    (h : s.Encodable) : decodeCompressed z (encodeCompressed z s) = .ok s.clip := by
  have hraw : s.encodeRaw.length ≤ 8388608 := h.raw_le
  have hpre := hz.size_prefix s.encodeRaw
  have hlen : ¬(encodeCompressed z s).length < 4 := by
    have := congrArg List.length hpre
    rw [List.length_take, length_toLe] at this
    unfold encodeCompressed
    omega
  have hclaimed : ¬fromLe ((encodeCompressed z s).take 4) > maxScreenRaw := by
    rw [encodeCompressed, hpre, fromLe_toLe (by omega)]
    exact not_lt.2 h.raw_le
  rw [decodeCompressed, if_neg hlen, if_neg hclaimed, encodeCompressed,
    hz.inverse _ (by omega)]
  simp only [if_neg (not_lt.2 h.raw_le), decodeRaw_encodeRaw h]

/-- The size of the compressed form of a screen the decoder accepts. -/
theorem length_encodeCompressed_le {z : Lz4} (hz : z.Documented) {s : Screen}
    (h : s.encodeRaw.length ≤ maxScreenRaw) : (encodeCompressed z s).length ≤ 9227492 := by
  have := hz.length_le s.encodeRaw
  unfold maxScreenRaw at h
  unfold encodeCompressed
  omega

end Screen

namespace SharedScreen

/-- **A shared screen whose screen fits is encoded, and read back** with its
epoch and policy. -/
theorem decodeCompressed_encodeCompressed {z : Lz4} (hz : z.Documented) {s : SharedScreen}
    (h : s.screen.Fits) (he : s.predictionEpoch < 2 ^ 64) :
    ∃ bytes, s.encodeCompressed z = .ok bytes ∧ decodeCompressed z bytes = .ok s := by
  have hcomp := Screen.length_encodeCompressed_le hz h.raw_le
  set flag : UInt8 := if s.predictionAllowed then 1 else 0 with hflag
  set bytes := sharedScreenMagic ++ toLe 8 s.predictionEpoch ++ [flag] ++
    s.screen.encodeCompressed z with hbytes
  have hlen : bytes.length = 13 + (s.screen.encodeCompressed z).length := by
    simp [hbytes, sharedScreenMagic]
    omega
  have hmax : ¬bytes.length + 1 > maxFrame := by
    unfold maxFrame
    omega
  refine ⟨bytes, by rw [encodeCompressed]; exact if_neg hmax, ?_⟩
  have hmagic : ¬bytes.take 4 ≠ sharedScreenMagic := by
    rw [hbytes, List.append_assoc, List.append_assoc]
    exact not_not.2 (List.take_left' rfl)
  have hdrop12 : bytes.drop 12 = flag :: s.screen.encodeCompressed z := by
    rw [hbytes, List.append_assoc]
    exact List.drop_left' (by simp [sharedScreenMagic])
  have hdrop13 : bytes.drop 13 = s.screen.encodeCompressed z := by
    rw [hbytes]
    exact List.drop_left' (by simp [sharedScreenMagic])
  have hepoch : leAt bytes 4 8 = s.predictionEpoch := by
    rw [hbytes, List.append_assoc]
    exact leAt_append rfl (by omega)
  rw [decodeCompressed, if_neg (by omega), if_neg hmax, if_neg hmagic, hdrop12, hdrop13,
    Screen.decodeCompressed_encodeCompressed hz h.toEncodable, h.clip_eq, hepoch]
  obtain ⟨epoch, allowed, screen⟩ := s
  cases allowed <;> rfl

end SharedScreen

/-- **The screen codec.**  Through any LZ4 codec that is as documented, a screen
that fits the format is decoded to itself, a shared screen is encoded and decoded
to itself, and the raw decoder accepts a prefix-free set of strings: of an
accepted string it accepts neither a proper extension nor a proper prefix. -/
theorem screenCodec_exact {z : Lz4} (hz : z.Documented) :
    (∀ s : Screen, s.Fits → Screen.decodeCompressed z (s.encodeCompressed z) = .ok s) ∧
      (∀ s : SharedScreen, s.screen.Fits → s.predictionEpoch < 2 ^ 64 →
        ∃ bytes, s.encodeCompressed z = .ok bytes ∧
          SharedScreen.decodeCompressed z bytes = .ok s) ∧
      ∀ b s, Screen.decodeRaw b = .ok s →
        (∀ x, x ≠ [] → ∀ s', Screen.decodeRaw (b ++ x) ≠ .ok s') ∧
          ∀ p x, x ≠ [] → b = p ++ x → ∀ s', Screen.decodeRaw p ≠ .ok s' := by
  refine ⟨fun s h => ?_, fun s => SharedScreen.decodeCompressed_encodeCompressed hz,
    fun b s h => ⟨fun x hx s' h' => ?_, ?_⟩⟩
  · rw [Screen.decodeCompressed_encodeCompressed hz h.toEncodable, h.clip_eq]
  · rw [Screen.decodeRaw_prefixFree h hx] at h'
    cases h'
  · rintro p x hx rfl s' h'
    rw [Screen.decodeRaw_prefixFree h' hx] at h
    cases h

/-- A screen of one row whose second and fourth cells carry overflow text; its
raw encoding repeats no four bytes. -/
def overflowScreen : Screen where
  version := 0x0807060504030201
  echoAck := 0x1817161514131211
  frame :=
    { FrameState.fromParts 1 4 0 2 9 "tty" ((List.range 48).map fun i => UInt8.ofNat (0x40 + i))
      with overflow :=
        { entries := [(1, "e\u0301\u0302"), (3, "o\u0308\u0304\u0301")]
          sorted := by simp } }

/-- The screen of the test fits. -/
theorem overflowScreen_fits : overflowScreen.Fits where
  version_lt := by decide
  echoAck_lt := by decide
  mode_lt := by decide
  rows_le := by decide
  cols_le := by decide
  cursorRow_le := by decide
  cursorCol_le := by decide
  title_le := by decide
  cells_eq := by decide
  overflow_lt := by decide
  overflow_le := by decide
  links_eq := rfl
  raw_le := by decide +kernel

/-- The hypotheses of `screenCodec_exact` are satisfiable: literal blocks, and a
screen with overflow text, alone and shared; cutting its last byte or adding one
is refused. -/
theorem screenCodec_exact_overflowScreen :
    Screen.decodeCompressed .literal (overflowScreen.encodeCompressed .literal)
        = .ok overflowScreen ∧
      (∃ bytes, SharedScreen.encodeCompressed .literal ⟨7, true, overflowScreen⟩ = .ok bytes ∧
        SharedScreen.decodeCompressed .literal bytes = .ok ⟨7, true, overflowScreen⟩) ∧
      ∀ s', Screen.decodeRaw (overflowScreen.encodeRaw ++ [0]) ≠ .ok s' := by
  obtain ⟨hscreen, hshared, hfree⟩ := screenCodec_exact Lz4.literal_documented
  refine ⟨hscreen _ overflowScreen_fits, hshared _ overflowScreen_fits (by decide), ?_⟩
  exact (hfree _ _ (Screen.decodeRaw_encodeRaw overflowScreen_fits.toEncodable)).1 [0] (by decide)

end Quosh
