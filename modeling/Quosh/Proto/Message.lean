/-
# Control messages

`crates/quosh-proto/src/lib.rs`, the payloads of the control stream: `Hello`,
`HelloOk`, sequenced input, resize, acknowledgements, exit and error.

The protocol fixes the width of every integer, so a payload is a concatenation
of little-endian fields and its length decides whether it decodes.  Identifiers
and tokens are byte strings whose length is part of their type (`FixedBytes`),
so a message with a short identifier cannot be built.
-/

import Quosh.Proto.Frame
import Quosh.Bytes.Utf8

namespace Quosh

open Bytes

/-- `[u8; n]`. -/
abbrev FixedBytes (n : ℕ) := { bs : Bytes // bs.length = n }

/-- Bytes that are all the same. -/
def constBytes (n : ℕ) (b : UInt8) : FixedBytes n := ⟨List.replicate n b, List.length_replicate⟩

/-- `bs[i .. i + n].try_into().unwrap()`, given that the slice is in range. -/
def FixedBytes.slice (bs : Bytes) (i n : ℕ) (h : i + n ≤ bs.length) : FixedBytes n :=
  ⟨(bs.drop i).take n, by rw [List.length_take, List.length_drop]; omega⟩

/-- The little-endian field of `n` bytes at offset `i`. -/
def leAt (bs : Bytes) (i n : ℕ) : ℕ := fromLe ((bs.drop i).take n)

/-- A field is found behind the bytes in front of it. -/
theorem leAt_append {pre post : Bytes} {i w n : ℕ} (hi : pre.length = i) (hn : n < 256 ^ w) :
    leAt (pre ++ toLe w n ++ post) i w = n := by
  rw [leAt, List.append_assoc, List.drop_left' hi, List.take_left' (length_toLe w n),
    fromLe_toLe hn]

/-- `Hello`. -/
structure Hello where
  protocol : ℕ
  sessionId : FixedBytes 16
  token : FixedBytes 32
  cols : ℕ
  rows : ℕ
  deriving DecidableEq

/-- The payload of `Hello::encode`. -/
def Hello.payload (h : Hello) : Bytes :=
  toLe 2 h.protocol ++ h.sessionId.1 ++ h.token.1 ++ toLe 2 h.cols ++ toLe 2 h.rows

/-- `Hello::encode`. -/
def Hello.encode (h : Hello) : Bytes := encodeFrame msgHello h.payload

/-- `Hello::decode`. -/
def Hello.decode (p : Bytes) : Except ProtoError Hello :=
  if h : p.length = 54 then
    .ok
      { protocol := leAt p 0 2
        sessionId := .slice p 2 16 (by omega)
        token := .slice p 18 32 (by omega)
        cols := leAt p 50 2
        rows := leAt p 52 2 }
  else .error .frame

/-- A hello has 54 bytes. -/
theorem Hello.length_payload (h : Hello) : h.payload.length = 54 := by
  simp [Hello.payload, h.sessionId.2, h.token.2]

/-- **A hello decodes to its identifiers**, and to its protocol when that is a
`u16`. -/
theorem Hello.decode_payload (h : Hello) (hp : h.protocol < 2 ^ 16) :
    ∃ cols rows, Hello.decode h.payload =
      .ok { protocol := h.protocol, sessionId := h.sessionId, token := h.token, cols, rows } := by
  have hid := h.sessionId.2
  have htok := h.token.2
  refine ⟨leAt h.payload 50 2, leAt h.payload 52 2, ?_⟩
  rw [Hello.decode, dif_pos h.length_payload]
  have hprot : leAt h.payload 0 2 = h.protocol := by
    have := (@leAt_append [] (h.sessionId.1 ++ h.token.1 ++ toLe 2 h.cols ++ toLe 2 h.rows) 0 2)
      rfl hp
    simpa [Hello.payload] using this
  have hsid : (h.payload.drop 2).take 16 = h.sessionId.1 := by
    simp only [Hello.payload, List.append_assoc]
    rw [List.drop_left' (length_toLe ..), List.take_left' hid]
  have htk : (h.payload.drop 18).take 32 = h.token.1 := by
    have hpre : (toLe 2 h.protocol ++ h.sessionId.1).length = 18 := by simp [hid]
    simp only [Hello.payload]
    rw [List.append_assoc, List.append_assoc, List.drop_left' hpre, List.take_left' htok]
  simp only [FixedBytes.slice, hprot, hsid, htk]

/-- `HelloOk`. -/
structure HelloOk where
  protocol : ℕ
  sessionId : FixedBytes 16
  version : ℕ
  cols : ℕ
  rows : ℕ
  deriving DecidableEq

/-- `HelloOk::encode`. -/
def HelloOk.encode (h : HelloOk) : Bytes :=
  encodeFrame msgHelloOk
    (toLe 2 h.protocol ++ h.sessionId.1 ++ toLe 8 h.version ++ toLe 2 h.cols ++ toLe 2 h.rows)

/-- `HelloOk::decode`. -/
def HelloOk.decode (p : Bytes) : Except ProtoError HelloOk :=
  if h : p.length = 30 then
    .ok
      { protocol := leAt p 0 2
        sessionId := .slice p 2 16 (by omega)
        version := leAt p 18 8
        cols := leAt p 26 2
        rows := leAt p 28 2 }
  else .error .frame

/-- The payload of `encode_input`. -/
def inputPayload (seq : ℕ) (data : Bytes) : Bytes := toLe 8 seq ++ data

/-- `encode_input`. -/
def encodeInput (seq : ℕ) (data : Bytes) : Bytes := encodeFrame msgInput (inputPayload seq data)

/-- `decode_input`. -/
def decodeInput (p : Bytes) : Except ProtoError (ℕ × Bytes) :=
  if p.length < 8 then .error .truncated else .ok (leAt p 0 8, p.drop 8)

/-- **Sequenced input is read back** while the sequence number is a `u64`. -/
theorem decodeInput_payload {seq : ℕ} (h : seq < 2 ^ 64) (data : Bytes) :
    decodeInput (inputPayload seq data) = .ok (seq, data) := by
  have hlen : ¬(inputPayload seq data).length < 8 := by
    simp [inputPayload]
  have hseq : leAt (inputPayload seq data) 0 8 = seq := by
    have := (@leAt_append [] data 0 8) rfl
      (show seq < 256 ^ 8 by omega)
    simpa [inputPayload] using this
  rw [decodeInput, if_neg hlen, hseq, inputPayload, List.drop_left' (length_toLe ..)]

/-- `encode_resize`. -/
def encodeResize (cols rows : ℕ) : Bytes := encodeFrame msgResize (toLe 2 cols ++ toLe 2 rows)

/-- `decode_resize`. -/
def decodeResize (p : Bytes) : Except ProtoError (ℕ × ℕ) :=
  if p.length = 4 then .ok (leAt p 0 2, leAt p 2 2) else .error .frame

/-- `encode_hangup`. -/
def encodeHangup : Bytes := encodeFrame msgHangup []

/-- `encode_ping`. -/
def encodePing : Bytes := encodeFrame msgPing []

/-- `encode_pong`. -/
def encodePong : Bytes := encodeFrame msgPong []

/-- `encode_ack_state`. -/
def encodeAckState (version : ℕ) : Bytes := encodeFrame msgAckState (toLe 8 version)

/-- `encode_input_ack`. -/
def encodeInputAck (seq : ℕ) : Bytes := encodeFrame msgInputAck (toLe 8 seq)

/-- `decode_u64`. -/
def decodeU64 (p : Bytes) : Except ProtoError ℕ :=
  if p.length = 8 then .ok (fromLe p) else .error .frame

/-- A number of eight bytes is read back. -/
theorem decodeU64_toLe {n : ℕ} (h : n < 2 ^ 64) : decodeU64 (toLe 8 n) = .ok n := by
  rw [decodeU64, if_pos (length_toLe ..), fromLe_toLe (by omega)]

/-- A number that wraps decodes to a smaller one. -/
theorem decodeU64_toLe_le {n m : ℕ} (h : decodeU64 (toLe 8 n) = .ok m) : m ≤ n := by
  rw [decodeU64, if_pos (length_toLe ..), fromLe_toLe_mod] at h
  cases h
  exact Nat.mod_le ..

/-- `encode_exit`: an `i32` in two's complement. -/
def encodeExit (status : ℤ) : Bytes := encodeFrame msgExit (toLe 4 (status % 2 ^ 32).toNat)

/-- `decode_exit`. -/
def decodeExit (p : Bytes) : Except ProtoError ℤ :=
  if p.length = 4 then
    .ok (if fromLe p < 2 ^ 31 then (fromLe p : ℤ) else (fromLe p : ℤ) - 2 ^ 32)
  else .error .frame

/-- `encode_error`: a code and a message behind its length. -/
def encodeError (code : ℕ) (msg : String) : Bytes :=
  encodeFrame msgError (toLe 2 code ++ toLe 2 (asBytes msg).length ++ asBytes msg)

/-- `decode_error`: a code and a message of counted length. -/
def decodeError (p : Bytes) : Except ProtoError (ℕ × String) :=
  if p.length < 4 then .error .truncated
  else if p.length < 4 + leAt p 2 2 then .error .truncated
  else .ok (leAt p 0 2, fromUtf8Lossy ((p.drop 4).take (leAt p 2 2)))

end Quosh
