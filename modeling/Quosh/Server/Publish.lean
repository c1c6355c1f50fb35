/-
# Publishing a screen

`crates/quosh-server/src/session.rs`, `publish`: the owner takes a snapshot of
the emulator, encodes it, and makes the result the latest screen, which the
transport sends in a frame.

The encoder of a screen has no size check, and its decoder refuses more than
`MAX_SCREEN_RAW` bytes.  The size of the raw encoding is a sum over the grid
(`Emulator.rawSize`, `length_encodeRaw_snapshot`), and whether a client can read
what is published depends on that sum alone: dimensions, cursor and table of a
snapshot are always in range (`Emulator.encodable_snapshot`), and nothing too
large is ever decoded (`decodeCompressed_of_maxScreenRaw_lt`).  A grid of long
combining sequences exceeds the bound, also with cells in range
(`markedGrid_not_deliverable`).
-/

import Quosh.Proto.ScreenCodec
import Quosh.Terminal.Snapshot

namespace Quosh

open Bytes

/-- `Latest`: the screen the connections of a session send. -/
structure Latest where
  version : ℕ
  blob : Bytes

/-- The screen `publish` builds; `version` is the counter before the call. -/
def publishedScreen (e : Emulator) (version echoAck : ℕ) : Screen where
  version := version + 1
  echoAck := echoAck
  frame := e.snapshot

/-- `publish`; the error branch of the source is unreachable, since
`encode_compressed` returns an error only where writing to a vector does. -/
def publish (z : Lz4) (e : Emulator) (version echoAck : ℕ) : Latest where
  version := version + 1
  blob := (publishedScreen e version echoAck).encodeCompressed z

/-- A published screen can be delivered: the client decodes it with the version,
acknowledgement, dimensions, cursor and cells it was made from, and the frame it
travels in is split off. -/
def Deliverable (z : Lz4) (e : Emulator) (version echoAck : ℕ) : Prop :=
  (∃ s, Screen.decodeCompressed z (publish z e version echoAck).blob = .ok s ∧
    s.version = (publish z e version echoAck).version ∧ s.echoAck = echoAck ∧
    s.frame.rows = e.rows ∧ s.frame.cols = e.cols ∧
    s.frame.cursorRow = e.snapshot.cursorRow ∧ s.frame.cursorCol = e.snapshot.cursorCol ∧
    s.frame.cells = e.snapshot.cells) ∧
  splitFrame (encodeFrame msgScreen (publish z e version echoAck).blob) =
    (.ok (some (msgScreen, (publish z e version echoAck).blob)), [])

/-! ### The size of a published screen -/

/-- The bytes of a text behind a `u16` length. -/
def textSize (t : String) : ℕ := min (asBytes t).length 65535

/-- The raw size of the screen of a grid: 40 bytes of fixed fields, the title,
the cells, and for every cell with a long text six bytes and the text. -/
def Emulator.rawSize (e : Emulator) : ℕ :=
  40 + textSize e.title + cellSize * (e.rows * e.cols) +
    (e.overflowTexts.map fun p => 6 + textSize p.2).sum

/-- A text has its length in front of it. -/
theorem length_encodeText (t : String) : (Screen.encodeText t).length = 2 + textSize t := by
  simp [Screen.encodeText, textSize]

/-- The length of a table. -/
theorem length_flatMap_encodeEntry (es : List (ℕ × String)) :
    (es.flatMap Screen.encodeEntry).length = (es.map fun p => 6 + textSize p.2).sum := by
  induction es with
  | nil => rfl
  | cons p es ih =>
    rw [List.flatMap_cons, List.length_append, ih, List.map_cons, List.sum_cons,
      Screen.encodeEntry, List.length_append, length_toLe, length_encodeText]
    omega

/-- **The raw encoding of a snapshot has the size the grid determines.** -/
theorem length_encodeRaw_snapshot (e : Emulator) (version echoAck : ℕ) :
    (publishedScreen e version echoAck).encodeRaw.length = e.rawSize := by
  have hcells : (publishedScreen e version echoAck).frame.cells.length =
      e.rows * e.cols * cellSize := e.length_snapshot_cells
  have htable : (publishedScreen e version echoAck).frame.overflow.entries = e.overflowTexts :=
    e.snapshot_overflow
  have htitle : (publishedScreen e version echoAck).frame.title = e.title := rfl
  simp only [Screen.encodeRaw, List.length_append, length_toLe, length_encodeText, hcells, htable,
    htitle, length_flatMap_encodeEntry, Emulator.rawSize, screenMagic, List.length_cons,
    List.length_nil]
  rw [Nat.mul_comm cellSize]
  omega

/-! ### Delivery -/

/-- **A snapshot of a valid size is within every bound of the decoder but one**:
only the total size is left open. -/
theorem Emulator.encodable_snapshot {e : Emulator} {version echoAck : ℕ}
    (hdims : validateDims e.cols e.rows = true) (hv : version + 1 < 2 ^ 64)
    (he : echoAck < 2 ^ 64) (hsize : e.rawSize ≤ maxScreenRaw) :
    (publishedScreen e version echoAck).Encodable where
  version_lt := hv
  echoAck_lt := he
  mode_lt := by
    change e.packMode < 2 ^ 16
    unfold Emulator.packMode
    split <;> split <;> omega
  rows_le := ((validateDims_iff _ _).1 hdims).2.2.2
  cols_le := ((validateDims_iff _ _).1 hdims).2.2.1
  cursorRow_le := by
    change min (e.cursorLine % 65536).toNat (e.rows - 1) ≤ e.rows
    omega
  cursorCol_le := by
    change min (e.cursorColumn % 65536) (e.cols - 1) ≤ e.cols
    omega
  cells_eq := e.length_snapshot_cells
  overflow_lt := e.snapshot_overflow_lt
  raw_le := by rwa [length_encodeRaw_snapshot]

/-- **No decoder reads a screen above `MAX_SCREEN_RAW`**, also when its length
does not fit the `u32` in front. -/
theorem decodeCompressed_of_maxScreenRaw_lt {z : Lz4} (hz : z.Documented) {s : Screen}
    (h : maxScreenRaw < s.encodeRaw.length) (s' : Screen) :
    Screen.decodeCompressed z (s.encodeCompressed z) ≠ .ok s' := by
  intro hok
  unfold Screen.decodeCompressed at hok
  split at hok
  · cases hok
  · split at hok
    · cases hok
    · split at hok
      · cases hok
      · rename_i raw hraw
        have : raw = s.encodeRaw := hz.only_inverse _ _ hraw
        rw [this, if_pos h] at hok
        cases hok

/-- **What is published can be delivered exactly when it is small enough**: for a
grid whose dimensions are valid, the client reads the screen if and only if the
raw size is at most `MAX_SCREEN_RAW`. -/
theorem deliverable_iff {z : Lz4} (hz : z.Documented) {e : Emulator} {version echoAck : ℕ}
    (hdims : validateDims e.cols e.rows = true) (hv : version + 1 < 2 ^ 64)
    (he : echoAck < 2 ^ 64) :
    Deliverable z e version echoAck ↔ e.rawSize ≤ maxScreenRaw := by
  refine ⟨fun h => ?_, fun hsize => ?_⟩
  · obtain ⟨⟨s, hs, -⟩, -⟩ := h
    refine not_lt.1 fun hlt => ?_
    rw [← length_encodeRaw_snapshot e version echoAck] at hlt
    exact decodeCompressed_of_maxScreenRaw_lt hz hlt s hs
  · have henc := Emulator.encodable_snapshot hdims hv he hsize
    have hcomp := Screen.length_encodeCompressed_le hz henc.raw_le
    refine ⟨⟨_, Screen.decodeCompressed_encodeCompressed hz henc, rfl, rfl, rfl, rfl, rfl, rfl,
      rfl⟩, ?_⟩
    have hlt : (publish z e version echoAck).blob.length < maxFrame := by
      unfold maxFrame
      exact lt_of_le_of_lt hcomp (by omega)
    have hsplit := (@splitFrame_encode msgScreen) hlt []
    rwa [List.append_nil] at hsplit

/-- A grid with the same cell everywhere. -/
def uniformGrid (rows cols : ℕ) (cell : TermCell) : Emulator where
  rows := rows
  cols := cols
  grid _ _ := cell
  cursorLine := 0
  cursorColumn := 0
  title := ""
  showCursor := true
  bracketedPaste := false

/-- The size of a uniform grid whose cells carry text of their own. -/
theorem rawSize_uniformGrid {rows cols : ℕ} {cell : TermCell} {t : String}
    (ht : overflowTextOf cell = some t) :
    (uniformGrid rows cols cell).rawSize =
      40 + cellSize * (rows * cols) + rows * cols * (6 + textSize t) := by
  have htexts : ((uniformGrid rows cols cell).overflowTexts.map fun p => 6 + textSize p.2) =
      List.replicate (rows * cols) (6 + textSize t) := by
    have hcell : ∀ p ∈ (uniformGrid rows cols cell).gridCells, p.2 = cell := by
      intro p hp
      simp only [Emulator.gridCells, uniformGrid, List.mem_flatMap, List.mem_map] at hp
      obtain ⟨_, -, _, -, rfl⟩ := hp
      rfl
    have hlen := (uniformGrid rows cols cell).length_gridCells
    rw [Emulator.overflowTexts, List.map_filterMap]
    rw [List.filterMap_congr (g := some ∘ fun _ => 6 + textSize t) fun p hp => by
      simp [hcell p hp, ht], List.filterMap_eq_map, List.map_const', hlen]
    rfl
  have hempty : textSize "" = 0 := by simp [textSize, asBytes]
  rw [Emulator.rawSize, htexts, List.sum_replicate_nat]
  simp only [uniformGrid, hempty]

/-- A letter with `n` combining acute accents. -/
def markedCell (n : ℕ) : TermCell where
  c := 'a'
  extra := some (List.replicate n '\u0301')

/-- The length of a cell with marks. -/
theorem length_asBytes_markedCell (n : ℕ) :
    (asBytes (cellFullText (markedCell n))).length = 1 + 2 * n := by
  have hacute : (String.utf8EncodeChar '\u0301').length = 2 := by decide
  have ha : (String.utf8EncodeChar 'a').length = 1 := by decide
  simp only [asBytes, cellFullText, markedCell, TermCell.zerowidth, Option.getD_some,
    String.toList_ofList, List.flatMap_cons, List.length_append, ha, List.length_flatMap,
    List.map_replicate, hacute, List.sum_replicate_nat]
  omega

/-- More than one accent does not fit in the cell. -/
theorem overflowTextOf_markedCell {n : ℕ} (hn : 1 < n) :
    overflowTextOf (markedCell n) = some (cellFullText (markedCell n)) := by
  have hlen := length_asBytes_markedCell n
  have hlong : ¬(asBytes (cellFullText (markedCell n))).length ≤ 4 := by omega
  have hplain : ¬((markedCell n).c ≤ '\x7f' ∧ ' ' < (markedCell n).c ∧
      (markedCell n).extra = none) := fun h => by cases h.2.2
  have hvisible : (markedCell n).c ≠ '\x00' ∧ (markedCell n).c ≠ ' ' := by
    constructor <;> simp [markedCell]
  rw [overflowTextOf, encodeContent, if_neg hplain, if_pos hvisible]
  simp only [if_neg hlong]

/-- **A screen that no client can read**, whatever the codec: 2 rows of 64 cells,
each a letter with 32768 combining accents. -/
theorem markedGrid_not_deliverable :
    validateDims (uniformGrid 2 64 (markedCell 32768)).cols
        (uniformGrid 2 64 (markedCell 32768)).rows = true ∧
      Lz4.literal.Documented ∧
      ∀ z : Lz4, z.Documented → ¬Deliverable z (uniformGrid 2 64 (markedCell 32768)) 0 0 := by
  have hsize : maxScreenRaw < (uniformGrid 2 64 (markedCell 32768)).rawSize := by
    rw [rawSize_uniformGrid (overflowTextOf_markedCell (by omega)), textSize,
      length_asBytes_markedCell]
    decide
  rw [← length_encodeRaw_snapshot _ 0 0] at hsize
  refine ⟨by decide, Lz4.literal_documented, fun z hz h => ?_⟩
  obtain ⟨⟨s, hs, -⟩, -⟩ := h
  exact decodeCompressed_of_maxScreenRaw_lt hz hsize s hs

/-- A grid of four cells in different colours, the last with a long text; the raw
encoding of its screen repeats no four bytes. -/
def smallGrid : Emulator where
  rows := 2
  cols := 2
  grid row col :=
    let i := 2 * row + col
    let shade (k : ℕ) : UInt8 := UInt8.ofNat (16 * i + k)
    { c := if i = 3 then 'a' else Char.ofNat (0x1F600 + i)
      fg := .spec (shade 65) (shade 66) (shade 67)
      bg := .spec (shade 68) (shade 69) (shade 70)
      extra := if i = 3 then some ['\u0301', '\u0302'] else none }
  cursorLine := 1
  cursorColumn := 1
  title := "tty"
  showCursor := true
  bracketedPaste := true

/-- The hypotheses of `deliverable_iff` are satisfiable: literal blocks, and a
screen with a long text. -/
theorem deliverable_iff_smallGrid :
    Deliverable .literal smallGrid 0x0807060504030200 0x1817161514131211 :=
  (deliverable_iff Lz4.literal_documented (by decide) (by decide) (by decide)).2
    (by decide +kernel)

end Quosh
