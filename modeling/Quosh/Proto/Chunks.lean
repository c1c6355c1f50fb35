/-
# Frames that arrive in chunks

`crates/quosh-proto-wasm/src/lib.rs`, `FrameBuffer`; `Client::recv_control` does the
same inside `crates/quosh-client/src/lib.rs`.  A receiver appends each chunk to a
buffer and calls `split_frame` until it yields nothing (`FrameBuffer.takeAll`).

What `split_frame` finds in front of a buffer it also finds when more bytes follow,
be it a frame or an error (`splitFrame_append`, `splitFrame_append_error`).  So taking
frames early and taking them late is the same (`takeAll_push`), and what a receiver
gets depends on the bytes alone and not on where they were cut
(`framing_chunk_independent`).
-/

import Quosh.Proto.Stream

namespace Quosh

open Bytes

/-- `FrameBuffer`. -/
structure FrameBuffer where
  buf : Bytes := []
  deriving DecidableEq

namespace FrameBuffer

/-- `FrameBuffer::push`. -/
def push (b : FrameBuffer) (bytes : Bytes) : FrameBuffer := { b with buf := b.buf ++ bytes }

/-- `FrameBuffer::take`. -/
def take (b : FrameBuffer) : Except ProtoError (Option Frame) × FrameBuffer :=
  ((splitFrame b.buf).1, { b with buf := (splitFrame b.buf).2 })

/-- Calls of `take` until it yields nothing or fails, at most `fuel` of them: the
frames, and the error or the buffer behind them. -/
def takeFrames : ℕ → FrameBuffer → List Frame × Except ProtoError FrameBuffer
  | 0, b => ([], .ok b)
  | fuel + 1, b =>
    match b.take with
    | (.error e, _) => ([], .error e)
    | (.ok none, b) => ([], .ok b)
    | (.ok (some f), b) => (f :: (takeFrames fuel b).1, (takeFrames fuel b).2)

/-- Calls of `take` until it yields nothing or fails; every frame takes bytes off the
buffer. -/
def takeAll (b : FrameBuffer) : List Frame × Except ProtoError FrameBuffer :=
  b.takeFrames b.buf.length

/-- A receiver that is given the chunks one by one, and takes all frames after each;
an error ends it. -/
def receive (b : FrameBuffer) : List Bytes → List Frame × Except ProtoError FrameBuffer
  | [] => ([], .ok b)
  | chunk :: chunks =>
    match (b.push chunk).takeAll with
    | (fs, .error e) => (fs, .error e)
    | (fs, .ok b) => (fs ++ (receive b chunks).1, (receive b chunks).2)

end FrameBuffer

/-! ### More bytes behind a buffer -/

/-- A frame that is there is there whatever follows. -/
theorem splitFrame_append {buf rest : Bytes} {f : Frame}
    (h : splitFrame buf = (.ok (some f), rest)) (more : Bytes) :
    splitFrame (buf ++ more) = (.ok (some f), rest ++ more) := by
  obtain ⟨rfl, hlen⟩ := (@splitFrame_some _ _ f.1 f.2) h
  rw [List.append_assoc]
  exact splitFrame_encode hlen _

/-- The length prefix is there with its four bytes. -/
theorem peekLen_append {buf : Bytes} (h : 4 ≤ buf.length) (more : Bytes) :
    peekLen (buf ++ more) = peekLen buf := by
  unfold peekLen
  rw [if_neg (by rw [List.length_append]; omega), if_neg (Nat.not_lt.2 h),
    List.take_append_of_le_length h]

/-- **An invalid length is found with its four bytes**, whatever follows. -/
theorem splitFrame_append_error {buf rest : Bytes} {e : ProtoError}
    (h : splitFrame buf = (.error e, rest)) (more : Bytes) :
    splitFrame (buf ++ more) = (.error e, buf ++ more) := by
  have hpeek : peekLen buf = .error e := by
    unfold splitFrame at h
    split at h
    · rename_i e' hpeek
      cases h
      exact hpeek
    · cases h
    · rename_i n hpeek
      obtain ⟨h4, hn, hpos, hmax⟩ := peekLen_some hpeek
      split at h
      · cases h
      · split at h
        · rename_i hlen hbody
          have := congrArg List.length hbody
          simp only [List.length_drop, List.length_take, List.length_nil] at this
          omega
        · cases h
  have h4 : 4 ≤ buf.length := by
    unfold peekLen at hpeek
    split at hpeek
    · cases hpeek
    · omega
  rw [splitFrame, peekLen_append h4, hpeek]

namespace FrameBuffer

variable {b b' : FrameBuffer}

/-- **Each call of `take` takes bytes off the buffer.** -/
theorem take_some {f : Frame} (h : b.take = (.ok (some f), b')) :
    b.buf = f.bytes ++ b'.buf ∧ f.2.length < maxFrame ∧ b'.buf.length < b.buf.length := by
  obtain ⟨h₁, rfl⟩ := Prod.mk.inj h
  obtain ⟨hbuf, hlen⟩ := (@splitFrame_some _ _ f.1 f.2)
    (Prod.ext h₁ rfl : splitFrame b.buf = (.ok (some f), (splitFrame b.buf).2))
  refine ⟨hbuf, hlen, ?_⟩
  have := congrArg List.length hbuf
  rw [List.length_append, length_encodeFrame] at this
  dsimp only
  omega

/-- More fuel than bytes changes nothing. -/
theorem takeFrames_of_le {n m : ℕ} (hn : b.buf.length ≤ n) (hm : n ≤ m) :
    b.takeFrames m = b.takeFrames n := by
  induction n generalizing b m with
  | zero =>
    cases m with
    | zero => rfl
    | succ m =>
      cases b with
      | mk buf =>
        cases List.eq_nil_of_length_eq_zero (Nat.le_zero.1 hn)
        rfl
  | succ n ih =>
    obtain ⟨m, rfl⟩ := Nat.exists_eq_add_of_le' (Nat.one_le_of_lt hm)
    rw [takeFrames, takeFrames]
    cases htake : b.take with
    | mk r b' =>
      cases r with
      | error e => rfl
      | ok f =>
        cases f with
        | none => rfl
        | some f =>
          have hlt := (take_some htake).2.2
          dsimp only
          rw [ih (by omega) (Nat.le_of_succ_le_succ hm)]

/-- The loop without its fuel. -/
theorem takeAll_eq (b : FrameBuffer) :
    b.takeAll =
      match b.take with
      | (.error e, _) => ([], .error e)
      | (.ok none, b) => ([], .ok b)
      | (.ok (some f), b) => (f :: b.takeAll.1, b.takeAll.2) := by
  rw [takeAll, ← takeFrames_of_le le_rfl (Nat.le_succ _), takeFrames]
  cases htake : b.take with
  | mk r b' =>
    cases r with
    | error e => rfl
    | ok f =>
      cases f with
      | none => rfl
      | some f =>
        dsimp only
        rw [takeFrames_of_le le_rfl (take_some htake).2.2.le]
        rfl

/-- **Frames that are taken early are taken late**: bytes that follow do not change
the frames in front of them, nor an error. -/
theorem takeAll_push (b : FrameBuffer) (more : Bytes) :
    (b.push more).takeAll =
      match b.takeAll with
      | (fs, .error e) => (fs, .error e)
      | (fs, .ok b) => (fs ++ (b.push more).takeAll.1, (b.push more).takeAll.2) := by
  induction hn : b.buf.length using Nat.strong_induction_on generalizing b with
  | _ n ih =>
    rw [takeAll_eq b]
    cases htake : b.take with
    | mk r b' =>
      obtain ⟨hr, hb'⟩ := Prod.mk.inj htake
      cases r with
      | error e =>
        have hpush : (b.push more).take = (.error e, b.push more) := by
          have := splitFrame_append_error (Prod.ext hr rfl : splitFrame b.buf = (.error e, _)) more
          rw [take, push, this]
        rw [takeAll_eq, hpush]
      | ok f =>
        cases f with
        | none =>
          have hsame : (splitFrame b.buf).2 = b.buf :=
            splitFrame_of_not_some (Prod.ext hr rfl) fun f hf => by cases hf
          rw [← hb', hsame]
          rfl
        | some f =>
          obtain ⟨hbuf, -, hlt⟩ := take_some htake
          have hpush : (b.push more).take = (.ok (some f), b'.push more) := by
            have := splitFrame_append (Prod.ext hr rfl : splitFrame b.buf = (.ok (some f), _)) more
            rw [take, push, this, ← hb']
            rfl
          have hrest := ih b'.buf.length (hn ▸ hlt) b' rfl
          rw [takeAll_eq, hpush]
          dsimp only
          rw [hrest]
          cases b'.takeAll with
          | mk fs r =>
            cases r <;> rfl

/-- Behind all frames of a buffer there is none. -/
theorem takeAll_rest {fs : List Frame} (h : b.takeAll = (fs, .ok b')) :
    b'.takeAll = ([], .ok b') := by
  have hpush (b : FrameBuffer) : b.push [] = b := congrArg FrameBuffer.mk (List.append_nil _)
  have hagain := takeAll_push b []
  rw [hpush, h] at hagain
  dsimp only at hagain
  rw [hpush] at hagain
  obtain ⟨hfs, hrest⟩ := Prod.mk.inj hagain
  exact Prod.ext (List.self_eq_append_right.1 hfs) hrest.symm

/-- **A receiver gets what the bytes hold**, wherever they were cut. -/
theorem receive_eq (hb : b.takeAll = ([], .ok b)) (chunks : List Bytes) :
    b.receive chunks = (b.push chunks.flatten).takeAll := by
  induction chunks generalizing b with
  | nil =>
    have hpush : b.push [] = b := congrArg FrameBuffer.mk (List.append_nil _)
    rw [List.flatten_nil, hpush, hb, receive]
  | cons chunk chunks ih =>
    have hpush : b.push (chunk :: chunks).flatten = (b.push chunk).push chunks.flatten :=
      congrArg FrameBuffer.mk (List.append_assoc ..).symm
    rw [hpush, takeAll_push, receive]
    cases htake : (b.push chunk).takeAll with
    | mk fs r =>
      cases r with
      | error e => rfl
      | ok b' =>
        dsimp only
        rw [ih (takeAll_rest htake)]

/-- The frames of a stream are taken whole. -/
theorem takeAll_streamBytes {fs : List Frame} (hfs : Sendable fs) :
    ({ buf := streamBytes fs } : FrameBuffer).takeAll = (fs, .ok {}) := by
  induction fs with
  | nil => rfl
  | cons f fs ih =>
    have hsplit := (@splitFrame_encode f.1) (hfs f (List.mem_cons_self ..)) (streamBytes fs)
    have htake : ({ buf := streamBytes (f :: fs) } : FrameBuffer).take =
        (.ok (some f), { buf := streamBytes fs }) := by
      rw [take, streamBytes_cons, Frame.bytes, hsplit]
    rw [takeAll_eq, htake]
    dsimp only
    rw [ih hfs.tail]

end FrameBuffer

/-- **Framing depends neither on the cuts nor on luck.**  Two ways of cutting the same
bytes into chunks give a receiver the same frames, and then the same remainder or the
same error.  Frames whose payload is shorter than `MAX_FRAME` are received whole from
their encodings, however these are cut, and leave nothing.  And a call of
`split_frame` that returns `None` leaves the buffer alone. -/
theorem framing_chunk_independent :
    (∀ chunks chunks' : List Bytes, chunks.flatten = chunks'.flatten →
      ({} : FrameBuffer).receive chunks = ({} : FrameBuffer).receive chunks') ∧
    (∀ (fs : List Frame) (chunks : List Bytes), (∀ f ∈ fs, f.2.length < maxFrame) →
      chunks.flatten = fs.flatMap (fun f => encodeFrame f.1 f.2) →
      ({} : FrameBuffer).receive chunks = (fs, .ok {})) ∧
    ∀ buf rest : Bytes, splitFrame buf = (.ok none, rest) → rest = buf := by
  have hempty (chunks : List Bytes) : ({} : FrameBuffer).receive chunks =
      ({ buf := chunks.flatten } : FrameBuffer).takeAll := FrameBuffer.receive_eq rfl chunks
  refine ⟨fun chunks chunks' h => ?_, fun fs chunks hfs h => ?_, fun buf rest h => ?_⟩
  · rw [hempty, hempty, h]
  · rw [hempty, h]
    exact FrameBuffer.takeAll_streamBytes hfs
  · exact splitFrame_of_not_some h fun f hf => by cases hf

end Quosh
