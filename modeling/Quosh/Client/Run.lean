/-
# Runs of a client

A client is driven by calls: bytes and datagrams arrive, input is queued, time
passes, connections come and go.  `Client.Step` is one such call, with
`recv_control` taken apart into the arrival of bytes and the frames it handles,
so that a run shows the state behind every frame (`recvControl_steps`).

The loop of `recv_control` is the loop of the source: what it does with a frame
in its buffer is handle it and go on (`drain_eq`), and its fuel never runs out
before the buffer does.
-/

import Quosh.Client.Client
import Quosh.Proto.Chunks
import Mathlib.Logic.Relation

namespace Quosh
namespace Client

variable {σ : Type} {ext : Externals σ} {z : Lz4} {c c' : Client σ}

/-! ### The loop of `recv_control` -/

/-- A screen is not part of the buffer. -/
theorem applyScreen_recvBuf (c : Client σ) (incoming : Screen) (now : ℕ) :
    (c.applyScreen ext incoming now).recvBuf = c.recvBuf := by
  unfold applyScreen
  split <;> rfl

/-- Nor is a context. -/
theorem setContext_recvBuf (c : Client σ) (context : ℕ × Bool) :
    (c.setContext context).recvBuf = c.recvBuf := by
  unfold setContext
  split <;> rfl

/-- Nor is a shared screen. -/
theorem applySharedScreen_recvBuf (c : Client σ) (incoming : SharedScreen) (now : ℕ) :
    (c.applySharedScreen ext incoming now).2.recvBuf = c.recvBuf := by
  unfold applySharedScreen
  split
  · rfl
  · split
    · rfl
    · exact (applyScreen_recvBuf ..).trans (setContext_recvBuf ..)

/-- A frame does not reach into the buffer it came from. -/
theorem handleFrame_recvBuf (c : Client σ) (typ : UInt8) (payload : Bytes) (now : ℕ) :
    (c.handleFrame ext z typ payload now).2.recvBuf = c.recvBuf := by
  unfold handleFrame
  split_ifs
  · unfold handleHelloOk
    split
    · rfl
    · split <;> rfl
  · split
    · rfl
    · exact applySharedScreen_recvBuf ..
  · rfl
  · split
    · rfl
    · exact applyScreen_recvBuf ..
  · split <;> rfl
  · unfold handlePong
    dsimp only
    split <;> rfl
  · split <;> rfl
  · split <;> rfl
  · rfl

/-- Splitting a frame off shortens the buffer. -/
theorem length_lt_of_splitFrame {buf rest : Bytes} {typ : UInt8} {payload : Bytes}
    (h : splitFrame buf = (.ok (some (typ, payload)), rest)) : rest.length < buf.length := by
  rw [(splitFrame_some h).1, List.length_append, length_encodeFrame]
  omega

/-- More fuel than bytes makes no difference: every frame takes some bytes off the buffer. -/
theorem drainFrames_of_le (now : ℕ) {fuel : ℕ} {c : Client σ} (h : c.recvBuf.length ≤ fuel) :
    c.drainFrames ext z now fuel = c.drainFrames ext z now c.recvBuf.length := by
  induction hn : c.recvBuf.length using Nat.strong_induction_on generalizing c fuel with
  | _ n ih =>
    subst hn
    cases hlen : c.recvBuf.length with
    | zero =>
      cases fuel with
      | zero => rfl
      | succ fuel =>
        have hnil := List.length_eq_zero_iff.1 hlen
        have hsplit : splitFrame c.recvBuf = (.ok none, c.recvBuf) := by rw [hnil]; rfl
        simp only [drainFrames, hsplit]
    | succ m =>
      obtain ⟨k, rfl⟩ : ∃ k, fuel = k + 1 := ⟨fuel - 1, by omega⟩
      rw [drainFrames, drainFrames]
      cases hsplit : splitFrame c.recvBuf with
      | mk r rest =>
        match r with
        | .error e => rfl
        | .ok none => rfl
        | .ok (some (typ, payload)) =>
          dsimp only
          have hlt := length_lt_of_splitFrame hsplit
          have hbuf := (@handleFrame_recvBuf _ ext z)
            ({ c with recvBuf := rest } : Client σ) typ payload now
          cases hframe : ({ c with recvBuf := rest } : Client σ).handleFrame ext z typ payload
              now with
          | mk r' c' =>
            rw [hframe] at hbuf
            dsimp only at hbuf
            cases r' with
            | error e => rfl
            | ok u =>
              dsimp only
              have hc' : c'.recvBuf.length < c.recvBuf.length := by rw [hbuf]; exact hlt
              rw [ih _ hc' (by omega) rfl, (@ih _ hc' m) (by omega) rfl]

/-- `recv_control` behind the arrival of its bytes. -/
def drain (ext : Externals σ) (z : Lz4) (c : Client σ) (now : ℕ) :
    Except ClientError Unit × Client σ :=
  c.drainFrames ext z now c.recvBuf.length

/-- **The loop of the source**: with a frame in the buffer it handles the frame and
goes on, unless that fails; otherwise it ends. -/
theorem drain_eq (c : Client σ) (now : ℕ) :
    c.drain ext z now =
      match splitFrame c.recvBuf with
      | (.error e, rest) =>
        (.error (.fatal ("protocol error: " ++ e.display)), { c with recvBuf := rest })
      | (.ok none, rest) => (.ok (), { c with recvBuf := rest })
      | (.ok (some (typ, payload)), rest) =>
        match ({ c with recvBuf := rest } : Client σ).handleFrame ext z typ payload now with
        | (.error e, c) => (.error e, c)
        | (.ok (), c) => c.drain ext z now := by
  rw [drain, ← drainFrames_of_le now (Nat.le_succ _), drainFrames]
  cases hsplit : splitFrame c.recvBuf with
  | mk r rest =>
    match r with
    | .error e => rfl
    | .ok none => rfl
    | .ok (some (typ, payload)) =>
      dsimp only
      have hlt := length_lt_of_splitFrame hsplit
      have hbuf := (@handleFrame_recvBuf _ ext z)
        ({ c with recvBuf := rest } : Client σ) typ payload now
      cases hframe : ({ c with recvBuf := rest } : Client σ).handleFrame ext z typ payload now with
      | mk r' c' =>
        rw [hframe] at hbuf
        dsimp only at hbuf
        cases r' with
        | error e => rfl
        | ok u => exact drainFrames_of_le now (by rw [hbuf]; omega)

/-! ### Steps and runs -/

/-- One step of a client. -/
inductive Step (ext : Externals σ) (z : Lz4) : Client σ → Client σ → Prop
  | buffer (c : Client σ) (bytes : Bytes) (rx : Option ℕ) :
    Step ext z c { c with recvBuf := bytes, lastRxMs := rx }
  | frame (c : Client σ) (typ : UInt8) (payload : Bytes) (now : ℕ) :
    Step ext z c (c.handleFrame ext z typ payload now).2
  | datagram (c : Client σ) (bytes : Bytes) (now : ℕ) :
    Step ext z c (c.recvDatagram ext z bytes now)
  | queueInput (c : Client σ) (bytes : Bytes) (now : ℕ) : Step ext z c (c.queueInput ext bytes now)
  | tick (c : Client σ) (now : ℕ) : Step ext z c (c.tick ext now).2
  | pump (c : Client σ) : Step ext z c c.pump
  | advanceOutbound (c : Client σ) (n : ℕ) : Step ext z c (c.advanceOutbound n)
  | beginConnection (c : Client σ) (now : ℕ) : Step ext z c (c.beginConnection now)
  | endConnection (c : Client σ) : Step ext z c c.endConnection
  | reset (c : Client σ) : Step ext z c c.reset
  | setSize (c : Client σ) (cols rows : ℕ) : Step ext z c (c.setSize cols rows)
  | requestHangup (c : Client σ) : Step ext z c c.requestHangup

/-- Any number of steps. -/
abbrev Steps (ext : Externals σ) (z : Lz4) : Client σ → Client σ → Prop :=
  Relation.ReflTransGen (Step ext z)

/-- The loop of `recv_control` is made of what it does to the buffer and of its frames. -/
theorem drainFrames_of_frames {R : Client σ → Client σ → Prop} {now : ℕ}
    (hbuffer : ∀ c rest, R c { c with recvBuf := rest })
    (hframe : ∀ c typ payload, R c (c.handleFrame ext z typ payload now).2) (fuel : ℕ)
    (c : Client σ) : Relation.ReflTransGen R c (c.drainFrames ext z now fuel).2 := by
  induction fuel generalizing c with
  | zero => exact .refl
  | succ fuel ih =>
    rw [drainFrames]
    cases splitFrame c.recvBuf with
    | mk r rest =>
      have hbuf := hbuffer c rest
      match r with
      | .error e => exact .single hbuf
      | .ok none => exact .single hbuf
      | .ok (some (typ, payload)) =>
        dsimp only
        have hstep := hframe { c with recvBuf := rest } typ payload
        cases hresult : ({ c with recvBuf := rest } : Client σ).handleFrame ext z typ payload
            now with
        | mk r' c' =>
          rw [hresult] at hstep
          cases r' with
          | error e => exact .head hbuf (.single hstep)
          | ok u => exact .head hbuf (.head hstep (ih c'))

/-- The frames that are handled are a run. -/
theorem drainFrames_steps (now fuel : ℕ) (c : Client σ) :
    Steps ext z c (c.drainFrames ext z now fuel).2 :=
  drainFrames_of_frames (fun c rest => .buffer c rest c.lastRxMs)
    (fun c typ payload => .frame c typ payload now) fuel c

/-- **`recv_control` is a run**: the arrival of its bytes, and its frames. -/
theorem recvControl_steps (c : Client σ) (bytes : Bytes) (now : ℕ) :
    Steps ext z c (c.recvControl ext z bytes now).2 :=
  .head (.buffer c _ _) (drainFrames_steps now _ _)

/-- **The loop of `recv_control` takes the frames that a frame buffer does**, as long
as none is refused. -/
theorem drainFrames_takeFrames {now fuel : ℕ} {c c' : Client σ}
    (h : c.drainFrames ext z now fuel = (.ok (), c')) :
    (({ buf := c.recvBuf } : FrameBuffer).takeFrames fuel).2 = .ok { buf := c'.recvBuf } := by
  induction fuel generalizing c with
  | zero =>
    cases h
    rfl
  | succ fuel ih =>
    rw [drainFrames] at h
    rw [FrameBuffer.takeFrames]
    unfold FrameBuffer.take
    dsimp only
    cases hsplit : splitFrame c.recvBuf with
    | mk r rest =>
      rw [hsplit] at h
      cases r with
      | error e => cases h
      | ok f =>
        cases f with
        | none =>
          cases h
          rfl
        | some f =>
          obtain ⟨typ, payload⟩ := f
          dsimp only at h ⊢
          have hkeep := (@handleFrame_recvBuf _ ext z)
            ({ c with recvBuf := rest } : Client σ) typ payload now
          cases hframe : ({ c with recvBuf := rest } : Client σ).handleFrame ext z typ payload
              now with
          | mk r' c₁ =>
            rw [hframe] at h hkeep
            cases r' with
            | error e => cases h
            | ok u =>
              have hrest := ih h
              rw [show c₁.recvBuf = rest from hkeep] at hrest
              exact hrest

/-- **What `recv_control` leaves in its buffer** is what the bytes so far leave. -/
theorem recvControl_takeAll {c c' : Client σ} {bytes : Bytes} {now : ℕ}
    (h : c.recvControl ext z bytes now = (.ok (), c')) :
    ((({ buf := c.recvBuf } : FrameBuffer).push bytes).takeAll).2 = .ok { buf := c'.recvBuf } :=
  drainFrames_takeFrames h

/-- The clients reached from a new one by a run in which every screen is one that
`ok` allows to install, at the sequence number of the input queued by then. -/
inductive Reachable (ext : Externals σ) (z : Lz4) (ok : Screen → ℕ → Prop) : Client σ → Prop
  | new (sessionId : FixedBytes 16) (token : FixedBytes 32) (cols rows : ℕ) (never : Bool) :
    Reachable ext z ok (.new ext sessionId token cols rows never)
  | step {c c' : Client σ} (h : Reachable ext z ok c) (hs : Step ext z c c')
    (hok : c'.confirmed ≠ c.confirmed → ∀ s, c'.confirmed = some s → ok s c'.seq) :
    Reachable ext z ok c'

/-- A blank screen of two rows and four columns. -/
def blankScreen (version echoAck : ℕ) : Screen :=
  ⟨version, echoAck, .fromParts 2 4 0 0 1 "" (List.replicate 96 0)⟩

end Client
end Quosh
