/-
# Frames on a byte stream

A control stream is a concatenation of frames that arrives in pieces of any
size.  What a receiver holds is a prefix of the frames it has not taken off yet,
and `split_frame` on such a prefix either takes off the first of them or finds it
incomplete (`splitFrame_of_prefix`).

`complete n fs` are the frames of `fs` that `n` bytes contain.
-/

import Quosh.Proto.Frame

namespace Quosh

open Bytes

/-- Type and payload of a frame. -/
abbrev Frame := UInt8 × Bytes

/-- A frame on the wire. -/
def Frame.bytes (f : Frame) : Bytes := encodeFrame f.1 f.2

/-- The bytes of a sequence of frames. -/
def streamBytes (fs : List Frame) : Bytes := fs.flatMap Frame.bytes

/-- Frames that a receiver accepts. -/
def Sendable (fs : List Frame) : Prop := ∀ f ∈ fs, f.2.length < maxFrame

/-- No frame has no byte. -/
@[simp] theorem streamBytes_nil : streamBytes [] = [] := rfl

/-- The first frame, and the others. -/
@[simp] theorem streamBytes_cons (f : Frame) (fs : List Frame) :
    streamBytes (f :: fs) = f.bytes ++ streamBytes fs := rfl

/-- Two lists of frames. -/
@[simp] theorem streamBytes_append (fs gs : List Frame) :
    streamBytes (fs ++ gs) = streamBytes fs ++ streamBytes gs := List.flatMap_append

/-- A frame has five bytes more than its payload. -/
theorem Frame.bytes_length (f : Frame) : f.bytes.length = 5 + f.2.length := length_encodeFrame ..

/-- The other frames can be sent too. -/
theorem Sendable.tail {f : Frame} {fs : List Frame} (h : Sendable (f :: fs)) : Sendable fs :=
  fun g hg => h g (List.mem_cons_of_mem _ hg)

/-- A frame that has not arrived whole is not split off. -/
theorem splitFrame_of_short {f : Frame} (hf : f.2.length < maxFrame) {buf : Bytes}
    (h : buf <+: f.bytes) (hlt : buf.length < f.bytes.length) :
    splitFrame buf = (.ok none, buf) := by
  have hlen := f.bytes_length
  unfold splitFrame peekLen
  by_cases h4 : buf.length < 4
  · rw [if_pos h4]
  · have htake : buf.take 4 = toLe 4 (1 + f.2.length) := by
      have hprefix : buf.take 4 <+: f.bytes := (List.take_prefix 4 buf).trans h
      have hfour : (buf.take 4).length = 4 := List.length_take_of_le (not_lt.1 h4)
      have heq := List.prefix_iff_eq_take.1 hprefix
      rw [hfour] at heq
      rw [heq]
      exact List.take_left' (length_toLe ..)
    have hn : fromLe (toLe 4 (1 + f.2.length)) = 1 + f.2.length :=
      fromLe_toLe (by unfold maxFrame at hf; omega)
    rw [if_neg h4, htake, hn]
    dsimp only
    rw [if_neg (by omega)]
    dsimp only
    rw [if_pos (by omega)]

/-- **On a prefix of a stream** `split_frame` takes off the first frame, or finds
that it has not arrived. -/
theorem splitFrame_of_prefix {fs : List Frame} (hfs : Sendable fs) {buf : Bytes}
    (h : buf <+: streamBytes fs) :
    (∃ f fs' rest, fs = f :: fs' ∧ buf = f.bytes ++ rest ∧ rest <+: streamBytes fs' ∧
      splitFrame buf = (.ok (some f), rest)) ∨
    splitFrame buf = (.ok none, buf) ∧ ∀ f ∈ fs.head?, buf.length < f.bytes.length := by
  cases fs with
  | nil =>
    rw [streamBytes_nil, List.prefix_nil] at h
    subst h
    exact .inr ⟨rfl, fun f hf => by cases hf⟩
  | cons f fs =>
    have hf := hfs f (List.mem_cons_self ..)
    by_cases hlt : buf.length < f.bytes.length
    · refine .inr ⟨splitFrame_of_short hf (List.prefix_of_prefix_length_le h
        (List.prefix_append f.bytes (streamBytes fs)) hlt.le) hlt, fun g hg => ?_⟩
      cases hg
      exact hlt
    · obtain ⟨rest, rfl⟩ := List.prefix_of_prefix_length_le
        (List.prefix_append f.bytes (streamBytes fs)) h (not_lt.1 hlt)
      exact .inl ⟨f, fs, rest, rfl, rfl, (List.prefix_append_right_inj f.bytes).1 h,
        splitFrame_encode hf rest⟩

/-- The frames that the first `n` bytes of a stream contain. -/
def complete : ℕ → List Frame → List Frame
  | _, [] => []
  | n, f :: fs => if f.bytes.length ≤ n then f :: complete (n - f.bytes.length) fs else []

/-- A frame that is complete, and those behind it. -/
theorem complete_append (f : Frame) (fs : List Frame) (n : ℕ) :
    complete (f.bytes.length + n) (f :: fs) = f :: complete n fs := by
  rw [complete, if_pos (Nat.le_add_right ..), Nat.add_sub_cancel_left]

/-- Nothing is complete before the first frame is. -/
theorem complete_eq_nil {fs : List Frame} {n : ℕ} (h : ∀ f ∈ fs.head?, n < f.bytes.length) :
    complete n fs = [] := by
  cases fs with
  | nil => rfl
  | cons f fs => rw [complete, if_neg (not_le.2 (h f rfl))]

/-- Complete frames come first. -/
theorem complete_prefix (n : ℕ) (fs : List Frame) : complete n fs <+: fs := by
  induction fs generalizing n with
  | nil => exact List.prefix_rfl
  | cons f fs ih =>
    rw [complete]
    split
    · exact (List.prefix_cons_inj f).2 (ih _)
    · exact List.nil_prefix

/-- What was read behind some frames is the front of those that follow. -/
theorem eq_take_of_append {n : ℕ} {fs rest : List Frame} {buf : Bytes}
    (h : (streamBytes (fs ++ rest)).take n = streamBytes fs ++ buf) :
    buf = (streamBytes rest).take (n - (streamBytes fs).length) := by
  have hle : (streamBytes fs).length ≤ n := by
    have hlen := congrArg List.length h
    rw [List.length_take, List.length_append] at hlen
    omega
  rw [streamBytes_append, List.take_append, List.take_of_length_le hle] at h
  exact (List.append_cancel_left h).symm

end Quosh
