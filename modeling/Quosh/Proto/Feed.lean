/-
# The outbound frame feed

`crates/quosh-proto/src/lib.rs`, `OutBuf` and `FrameFeed`: one frame in flight,
a byte-capped queue of control frames, one pending screen and one final frame.
-/

import Quosh.Proto.Frame

namespace Quosh

/-- `OutBuf`: bytes waiting to go out, resumed from `off`. -/
structure OutBuf where
  buf : Bytes := []
  off : ℕ := 0
  deriving DecidableEq

namespace OutBuf

def queue (o : OutBuf) (bytes : Bytes) : OutBuf := { o with buf := o.buf ++ bytes }

def rest (o : OutBuf) : Bytes := if o.off ≥ o.buf.length then [] else o.buf.drop o.off

def isEmpty (o : OutBuf) : Bool := o.off ≥ o.buf.length

/-- `advance`: drop what was written, moving the rest to the front. -/
def advance (o : OutBuf) (n : ℕ) : OutBuf :=
  if o.off + n ≥ o.buf.length then {} else { buf := o.buf.drop (o.off + n), off := 0 }

/-- What is left is behind the offset. -/
theorem rest_eq_drop (o : OutBuf) : o.rest = o.buf.drop o.off := by
  unfold rest
  split
  · rename_i h; exact (List.drop_eq_nil_of_le h).symm
  · rfl

/-- A buffer is empty when nothing is left. -/
theorem isEmpty_iff (o : OutBuf) : o.isEmpty = true ↔ o.rest = [] := by
  rw [rest_eq_drop, List.drop_eq_nil_iff, isEmpty, decide_eq_true_iff]

/-- What is queued is left behind the rest. -/
theorem rest_queue {o : OutBuf} (h : o.off ≤ o.buf.length) (bytes : Bytes) :
    (o.queue bytes).rest = o.rest ++ bytes := by
  rw [rest_eq_drop, rest_eq_drop, queue, List.drop_append_of_le_length h]

/-- What is written is left no more. -/
theorem rest_advance (o : OutBuf) (n : ℕ) : (o.advance n).rest = o.rest.drop n := by
  rw [rest_eq_drop o, List.drop_drop]
  unfold advance
  split
  · rename_i h; exact (List.drop_eq_nil_of_le h).symm
  · rw [rest_eq_drop, List.drop_zero]

end OutBuf

/-- `FrameFeed`. -/
structure FrameFeed where
  out : OutBuf := {}
  screen : Option Bytes := none
  ctrl : List Bytes := []
  ctrlBytes : ℕ := 0
  fin : Option Bytes := none
  deriving DecidableEq

namespace FrameFeed

def ctrlCap : ℕ := 64 * 1024

/-- `pump`: when nothing is in flight, start the next control frame, else the
screen, else the final frame. -/
def pump (f : FrameFeed) : FrameFeed :=
  if !f.out.isEmpty then f
  else
    match f.ctrl with
    | c :: ctrl =>
      { f with ctrl := ctrl, ctrlBytes := f.ctrlBytes - c.length, out := f.out.queue c }
    | [] =>
      match f.screen with
      | some s => { f with screen := none, out := f.out.queue s }
      | none =>
        match f.fin with
        | some e => { f with fin := none, out := f.out.queue e }
        | none => f

def pushScreen (f : FrameFeed) (frame : Bytes) : FrameFeed :=
  { f with screen := some frame }.pump

/-- `push_ctrl`: whether the frame was taken, and the feed after it. -/
def pushCtrl (f : FrameFeed) (frame : Bytes) : Bool × FrameFeed :=
  let g := f.pump
  if g.out.isEmpty && g.ctrl.isEmpty then (true, { g with out := g.out.queue frame })
  else if g.ctrlBytes + frame.length > ctrlCap then (false, g)
  else (true, { g with ctrlBytes := g.ctrlBytes + frame.length, ctrl := g.ctrl ++ [frame] })

def pushFin (f : FrameFeed) (frame : Bytes) : FrameFeed :=
  { f with fin := some frame, ctrl := [], ctrlBytes := 0 }.pump

def rest (f : FrameFeed) : Bytes := f.out.rest

def writing (f : FrameFeed) : Bool := !f.out.isEmpty

def advance (f : FrameFeed) (n : ℕ) : FrameFeed := { f with out := f.out.advance n }.pump

/-- As long as a frame is in flight, no other one is started. -/
theorem pump_of_writing {f : FrameFeed} (hbusy : f.out.isEmpty = false) : f.pump = f := by
  rw [pump, hbusy]
  rfl

end FrameFeed
end Quosh
