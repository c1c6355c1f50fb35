/-
# Length-prefixed framing

`crates/quosh-proto/src/lib.rs`, `encode_frame`, `peek_len` and `split_frame`:
a frame is a `u32` length, a type byte and a payload, and a receiver splits
frames off the front of a growing buffer.

`splitFrame` returns its verdict together with the buffer it leaves behind, as
the source mutates `buf`.  Its three outcomes are characterized once:
`splitFrame_encode` (a whole frame in front of anything is taken off exactly),
`splitFrame_some` (whatever is taken off *was* the encoding of what is
returned) and `splitFrame_of_not_some` (otherwise the buffer is untouched).  Two
encodings in front of two tails agree only when the frames do
(`encodeFrame_append_inj`).
-/

import Quosh.Bytes.LittleEndian

namespace Quosh

open Bytes

/-- `quosh_proto::Error`. -/
inductive ProtoError where
  | truncated
  | magic
  | frame
  | lz4
  | tooLarge
  deriving DecidableEq, Repr

/-- The `Display` text of an error. -/
def ProtoError.display : ProtoError → String
  | .truncated => "truncated"
  | .magic => "invalid magic"
  | .frame => "invalid frame"
  | .lz4 => "lz4"
  | .tooLarge => "too large"

def protocolVersion : ℕ := 2
def maxFrame : ℕ := 16 * 1024 * 1024
def maxInputBytes : ℕ := 32 * 1024

def msgHello : UInt8 := 1
def msgHelloOk : UInt8 := 2
def msgInput : UInt8 := 3
def msgResize : UInt8 := 4
def msgHangup : UInt8 := 5
def msgAckState : UInt8 := 6
def msgInputAck : UInt8 := 7
def msgScreen : UInt8 := 8
def msgExit : UInt8 := 9
def msgError : UInt8 := 10
def msgPing : UInt8 := 11
def msgPong : UInt8 := 12
def msgSharedScreen : UInt8 := 19

/-- `encode_frame`: the length of type and payload as a `u32`, the type, the
payload. -/
def encodeFrame (typ : UInt8) (payload : Bytes) : Bytes :=
  toLe 4 (1 + payload.length) ++ typ :: payload

/-- `peek_len`: the length once four bytes are there; zero and more than
`MAX_FRAME` are errors before the body has arrived. -/
def peekLen (buf : Bytes) : Except ProtoError (Option ℕ) :=
  if buf.length < 4 then .ok none
  else
    let n := fromLe (buf.take 4)
    if n = 0 ∨ n > maxFrame then .error .tooLarge else .ok (some n)

/-- `split_frame`: the first frame of the buffer, if it has arrived, and the
buffer without it. -/
def splitFrame (buf : Bytes) : Except ProtoError (Option (UInt8 × Bytes)) × Bytes :=
  match peekLen buf with
  | .error e => (.error e, buf)
  | .ok none => (.ok none, buf)
  | .ok (some n) =>
    if buf.length < 4 + n then (.ok none, buf)
    else
      match (buf.take (4 + n)).drop 4 with
      | [] => (.error .truncated, buf.drop (4 + n))
      | typ :: body => (.ok (some (typ, body)), buf.drop (4 + n))

/-- A frame has five bytes more than its payload. -/
theorem length_encodeFrame (typ : UInt8) (payload : Bytes) :
    (encodeFrame typ payload).length = 5 + payload.length := by
  simp [encodeFrame]
  omega

/-- A frame has a byte. -/
theorem encodeFrame_ne_nil (typ : UInt8) (payload : Bytes) : encodeFrame typ payload ≠ [] := by
  intro h
  have := congrArg List.length h
  rw [length_encodeFrame] at this
  simp at this

/-- The length prefix of a frame is read back. -/
theorem peekLen_encode {typ : UInt8} {payload : Bytes} (h : payload.length < maxFrame)
    (rest : Bytes) :
    peekLen (encodeFrame typ payload ++ rest) = .ok (some (1 + payload.length)) := by
  have hlen := length_encodeFrame typ payload
  have h4 : ¬(encodeFrame typ payload ++ rest).length < 4 := by
    rw [List.length_append]; omega
  have htake : (encodeFrame typ payload ++ rest).take 4 = toLe 4 (1 + payload.length) := by
    rw [encodeFrame, List.append_assoc]
    exact List.take_left' (length_toLe ..)
  have hn : fromLe (toLe 4 (1 + payload.length)) = 1 + payload.length :=
    fromLe_toLe (by unfold maxFrame at h; omega)
  rw [peekLen, if_neg h4]
  simp only [htake, hn]
  rw [if_neg (by omega)]

/-- **A whole frame is split off exactly**, whatever follows it. -/
theorem splitFrame_encode {typ : UInt8} {payload : Bytes} (h : payload.length < maxFrame)
    (rest : Bytes) :
    splitFrame (encodeFrame typ payload ++ rest) = (.ok (some (typ, payload)), rest) := by
  have hlen : (encodeFrame typ payload).length = 4 + (1 + payload.length) := by
    rw [length_encodeFrame]; omega
  have hge : ¬(encodeFrame typ payload ++ rest).length < 4 + (1 + payload.length) := by
    rw [List.length_append]; omega
  have hbody : ((encodeFrame typ payload ++ rest).take (4 + (1 + payload.length))).drop 4
      = typ :: payload := by
    rw [List.take_left' hlen, encodeFrame]
    exact List.drop_left' (length_toLe ..)
  rw [splitFrame, peekLen_encode h]
  simp only [if_neg hge, hbody, List.drop_left' hlen]

/-- A length that `peek_len` returns is the four bytes in front, and in range. -/
theorem peekLen_some {buf : Bytes} {n : ℕ} (h : peekLen buf = .ok (some n)) :
    4 ≤ buf.length ∧ n = fromLe (buf.take 4) ∧ 0 < n ∧ n ≤ maxFrame := by
  unfold peekLen at h
  split at h
  · cases h
  · dsimp only at h
    split at h
    · cases h
    · cases h
      exact ⟨by omega, rfl, by omega, by omega⟩

/-- **What is split off was there**: the buffer started with the encoding of
the frame that is returned, and the rest is what is left. -/
theorem splitFrame_some {buf rest : Bytes} {typ : UInt8} {payload : Bytes}
    (h : splitFrame buf = (.ok (some (typ, payload)), rest)) :
    buf = encodeFrame typ payload ++ rest ∧ payload.length < maxFrame := by
  unfold splitFrame at h
  split at h
  · cases h
  · cases h
  · rename_i n hpeek
    obtain ⟨h4, hn, hpos, hmax⟩ := peekLen_some hpeek
    split at h
    · cases h
    · split at h
      · cases h
      · rename_i hbody
        cases h
        have hbl : payload.length + 1 = n := by
          have := congrArg List.length hbody
          simp only [List.length_drop, List.length_take, List.length_cons] at this
          omega
        have hprefix : toLe 4 (1 + payload.length) = buf.take 4 := by
          have h4' : (buf.take 4).length = 4 := by rw [List.length_take]; omega
          have hfull := toLe_fromLe (buf.take 4)
          rwa [h4', ← hn, ← hbl, Nat.add_comm] at hfull
        refine ⟨?_, by omega⟩
        calc buf = buf.take (4 + n) ++ buf.drop (4 + n) := (List.take_append_drop _ _).symm
          _ = (buf.take (4 + n)).take 4 ++ (buf.take (4 + n)).drop 4 ++ buf.drop (4 + n) := by
              rw [List.take_append_drop 4 (buf.take (4 + n))]
          _ = encodeFrame typ payload ++ buf.drop (4 + n) := by
              rw [hbody, List.take_take, Nat.min_eq_left (by omega), encodeFrame, hprefix]

/-- **Anything but a frame leaves the buffer alone.** -/
theorem splitFrame_of_not_some {buf rest : Bytes} {r : Except ProtoError (Option (UInt8 × Bytes))}
    (h : splitFrame buf = (r, rest)) (hr : ∀ f, r ≠ .ok (some f)) : rest = buf := by
  unfold splitFrame at h
  split at h
  · cases h; rfl
  · cases h; rfl
  · rename_i n hpeek
    obtain ⟨h4, hn, hpos, hmax⟩ := peekLen_some hpeek
    split at h
    · cases h; rfl
    · rename_i hlen
      split at h
      · rename_i hbody
        have := congrArg List.length hbody
        simp only [List.length_drop, List.length_take, List.length_nil] at this
        omega
      · cases h
        exact absurd rfl (hr _)

/-- **Frames are self-delimiting**: two encodings in front of two tails are
equal only when the frames and the tails are. -/
theorem encodeFrame_append_inj {t₁ t₂ : UInt8} {p₁ p₂ x₁ x₂ : Bytes}
    (h₁ : p₁.length < maxFrame) (h₂ : p₂.length < maxFrame)
    (h : encodeFrame t₁ p₁ ++ x₁ = encodeFrame t₂ p₂ ++ x₂) : t₁ = t₂ ∧ p₁ = p₂ ∧ x₁ = x₂ := by
  have hs := (@splitFrame_encode t₁) h₁ x₁
  rw [h, splitFrame_encode h₂ x₂] at hs
  simp only [Prod.mk.injEq, Except.ok.injEq, Option.some.injEq] at hs
  exact ⟨hs.1.1.symm, hs.1.2.symm, hs.2.symm⟩

end Quosh
