/-
# What draining the control stream leaves

`crates/quosh-server/src/transport.rs`, `drain_leftover` and `on_control`: the loop takes
whole frames off what was read, and stops in front of an input when its queue is full.

One turn is `Handler.drainOne`; `drainOne_takes` is what it makes of the queue and of the
pending resize, and `drainOne_stops` why it ends the loop.  `drain_ordered_bounded` is the
loop: the frames it took, in order, and that nothing else is left to take.

Of several resizes only the last that can be read is kept, whatever frames come between, and
inputs keep their order.  A frame is taken off as a whole, so what is left of the bytes begins
with a frame again.
-/

import Quosh.Server.Transport

namespace Quosh

open Bytes

/-- The size a frame carries. -/
def frameResize (f : Frame) : Option (ℕ × ℕ) :=
  if f.1 = msgResize then
    match decodeResize f.2 with
    | .error _ => none
    | .ok size => some size
  else none

namespace Handler

variable {s s' : Session} {h h' : Handler} {cap : ℕ}

/-- The accounted size of a queue that one more input was put into below the budget. -/
def busyBound (cap : ℕ) : ℕ := cap + inputRecordOverhead + maxInputBytes - 1

/-- What draining leaves behind the frames it took. -/
structure Drained (cap : ℕ) (h : Handler) (fs : List Frame) (h' : Handler) : Prop where
  bytes : h.leftover = streamBytes fs ++ h'.leftover
  whole : Sendable fs
  inputs : h'.busyInput = h.busyInput ++ fs.filterMap frameInput
  sized : ∀ u ∈ fs.filterMap frameInput, 0 < u.2.length ∧ u.2.length ≤ maxInputBytes
  resize : h'.pendingResize = (fs.filterMap frameResize).getLast?.or h.pendingResize
  stops : ∀ (f : Frame) rest, f.2.length < maxFrame → h'.leftover = f.bytes ++ rest →
    f.1 = msgInput ∧ cap ≤ busyBytes h'.busyInput
  bounded : busyBytes h'.busyInput ≤ busyBound cap

/-! ### One turn -/

theorem busyBytes_append (q q' : List (ℕ × Bytes)) :
    busyBytes (q ++ q') = busyBytes q + busyBytes q' := by
  unfold busyBytes
  rw [List.map_append, List.sum_append]

/-- The type of a frame that has arrived whole. -/
theorem peekType_frame {f : Frame} (hf : f.2.length < maxFrame) (rest : Bytes) :
    peekType (f.bytes ++ rest) = .ok (some f.1) := by
  have hlen := length_encodeFrame f.1 f.2
  rw [peekType, Frame.bytes, peekLen_encode hf]
  dsimp only
  rw [if_neg (by rw [List.length_append]; omega), List.getElem?_append_left (by omega),
    encodeFrame, List.getElem?_append_right (by simp), length_toLe]
  rfl

/-- An input that `on_control` queues is not empty and not too long. -/
theorem onControl_sized {typ : UInt8} {payload : Bytes} (hepoch : s.epoch = h.epoch)
    (hc : onControl s h typ payload = .ok (s', h')) {u : ℕ × Bytes}
    (hu : frameInput (typ, payload) = some u) :
    0 < u.2.length ∧ u.2.length ≤ maxInputBytes := by
  unfold frameInput at hu
  dsimp only at hu
  split_ifs at hu with hinput
  split at hu
  · cases hu
  · rename_i v hdecode
    obtain rfl := Option.some.inj hu
    unfold onControl at hc
    rw [if_neg (not_not.2 hepoch), if_pos hinput, hdecode] at hc
    dsimp only at hc
    split_ifs at hc with hempty hlarge
    exact ⟨List.length_pos_iff.2 hempty, not_lt.1 hlarge⟩

/-- A resize that can be read replaces the one that is pending. -/
theorem onControl_resize {typ : UInt8} {payload : Bytes} (hepoch : s.epoch = h.epoch)
    (hc : onControl s h typ payload = .ok (s', h')) :
    h'.pendingResize = (frameResize (typ, payload)).or h.pendingResize := by
  unfold onControl at hc
  rw [if_neg (not_not.2 hepoch)] at hc
  unfold frameResize
  dsimp only
  split_ifs at hc with hinput hresize
  · rw [if_neg (by rw [hinput]; decide)]
    split at hc
    · cases hc
      rfl
    · split_ifs at hc
      cases hc
      rfl
  · rw [if_pos hresize]
    cases hdecode : decodeResize payload with
    | error e =>
      rw [hdecode] at hc
      cases hc
      rfl
    | ok size =>
      rw [hdecode] at hc
      cases hc
      rfl
  all_goals rw [if_neg hresize]
  · cases hc
    rfl
  · split at hc <;> cases hc <;> rfl
  · cases hc
    rfl
  · cases hc
    rfl

/-- **What a turn takes**: the first frame, and for an input there was room in the
budget. -/
theorem drainOne_takes (hepoch : s.epoch = h.epoch)
    (hd : drainOne s h cap = .ok (some (s', h'))) :
    ∃ f, h.leftover = f.bytes ++ h'.leftover ∧ f.2.length < maxFrame ∧ s'.epoch = h'.epoch ∧
      h'.busyInput = h.busyInput ++ (frameInput f).toList ∧
      (∀ u, frameInput f = some u →
        0 < u.2.length ∧ u.2.length ≤ maxInputBytes ∧ busyBytes h.busyInput < cap) ∧
      h'.pendingResize = (frameResize f).or h.pendingResize := by
  obtain ⟨-, hqueues, hepoch', -, f, hsplit, hbusy, -⟩ := drainOne_some hd
  obtain ⟨typ, payload⟩ := f
  obtain ⟨hbytes, hshort⟩ := splitFrame_some hsplit
  refine ⟨(typ, payload), hbytes, hshort, ?_, hbusy, ?_⟩
  · rw [hqueues.epoch, hepoch', hepoch]
  · have hpeek : peekType h.leftover = .ok (some typ) := by
      rw [hbytes]
      exact peekType_frame (f := (typ, payload)) hshort h'.leftover
    unfold drainOne at hd
    rw [if_neg (not_not.2 hepoch), hpeek, hsplit] at hd
    dsimp only at hd
    split_ifs at hd with hbudget
    · cases hd
    cases hc : onControl s { h with leftover := h'.leftover } typ payload with
    | error e =>
      rw [hc] at hd
      cases hd
    | ok r =>
      rw [hc] at hd
      have hr : r = (s', h') := Option.some.inj (Except.ok.inj hd)
      rw [hr] at hc
      have hsized (u : ℕ × Bytes) :=
        (@onControl_sized s s' { h with leftover := h'.leftover } h' typ payload) hepoch hc (u := u)
      have hresize := onControl_resize (h := { h with leftover := h'.leftover }) hepoch hc
      refine ⟨fun u hu => ⟨(hsized u hu).1, (hsized u hu).2, ?_⟩, hresize⟩
      have hinput : typ = msgInput := by
        unfold frameInput at hu
        dsimp only at hu
        split_ifs at hu with hinput
        exact hinput
      exact not_le.1 fun hle => hbudget ⟨hinput, hle⟩

/-- **Why a turn ends the loop**: no frame has arrived whole, or it is an input and the
budget is used up. -/
theorem drainOne_stops (hepoch : s.epoch = h.epoch) (hd : drainOne s h cap = .ok none)
    {f : Frame} {rest : Bytes} (hf : f.2.length < maxFrame)
    (hleft : h.leftover = f.bytes ++ rest) :
    f.1 = msgInput ∧ cap ≤ busyBytes h.busyInput := by
  have hpeek : peekType h.leftover = .ok (some f.1) := by
    rw [hleft]
    exact peekType_frame hf rest
  have hsplit : splitFrame h.leftover = (.ok (some f), rest) := by
    rw [hleft]
    exact splitFrame_encode hf rest
  unfold drainOne at hd
  rw [if_neg (not_not.2 hepoch), hpeek, hsplit] at hd
  dsimp only at hd
  split_ifs at hd with hbudget
  · exact hbudget
  · cases hc : onControl s { h with leftover := rest } f.1 f.2 <;> rw [hc] at hd <;> cases hd

/-- A frame that is admitted ends no handler. -/
theorem onControl_of_admits {typ : UInt8} {payload : Bytes} (hg : Admits (typ, payload)) :
    ∃ s' h', onControl s h typ payload = .ok (s', h') := by
  unfold onControl
  split_ifs with hstale hinput hresize hhangup hack hping
  · exact ⟨_, _, rfl⟩
  · cases hdecode : decodeInput payload with
    | error e => exact ⟨_, _, rfl⟩
    | ok u =>
      have hu : frameInput (typ, payload) = some u := by
        rw [frameInput, if_pos hinput, hdecode]
      obtain ⟨hne, hlen⟩ := hg u hu
      dsimp only
      rw [if_neg hne, if_neg (Nat.not_lt.2 hlen)]
      exact ⟨_, _, rfl⟩
  · cases decodeResize payload <;> exact ⟨_, _, rfl⟩
  · exact ⟨_, _, rfl⟩
  · cases decodeU64 payload <;> exact ⟨_, _, rfl⟩
  · exact ⟨_, _, rfl⟩
  · exact ⟨_, _, rfl⟩

/-- **A turn takes a whole frame** that is admitted, as long as there is room in the budget. -/
theorem drainOne_of_splitFrame (hepoch : s.epoch = h.epoch) {f : Frame} {rest : Bytes}
    (hs : splitFrame h.leftover = (.ok (some f), rest)) (hg : Admits f)
    (hroom : busyBytes h.busyInput < cap) : ∃ s' h', drainOne s h cap = .ok (some (s', h')) := by
  obtain ⟨typ, payload⟩ := f
  obtain ⟨hbytes, hshort⟩ := splitFrame_some hs
  have hpeek : peekType h.leftover = .ok (some typ) := by
    rw [hbytes]
    exact peekType_frame (f := (typ, payload)) hshort rest
  obtain ⟨s', h', hc⟩ := (@onControl_of_admits s { h with leftover := rest }) hg
  refine ⟨s', h', ?_⟩
  unfold drainOne
  rw [if_neg (not_not.2 hepoch), hpeek, hs]
  dsimp only
  rw [if_neg fun hbudget => Nat.not_le.2 hroom hbudget.2, hc]
  rfl

/-- **An input that has arrived alone** goes into the queue, and nothing else changes. -/
theorem drainOne_input (hepoch : s.epoch = h.epoch) {seq : ℕ} {data : Bytes}
    (hleft : h.leftover = encodeInput seq data) (hseq : seq < 2 ^ 64) (hne : data ≠ [])
    (hlen : data.length ≤ maxInputBytes) (hroom : busyBytes h.busyInput < cap) :
    drainOne s h cap =
      .ok (some (s, { h with leftover := [], busyInput := h.busyInput ++ [(seq, data)] })) := by
  have hshort : (inputPayload seq data).length < maxFrame := by
    rw [inputPayload, List.length_append, length_toLe]
    have : maxInputBytes + 8 < maxFrame := by decide
    omega
  have hpeek := peekType_frame (f := (msgInput, inputPayload seq data)) hshort []
  have hsplit := (@splitFrame_encode msgInput) hshort []
  unfold drainOne
  rw [if_neg (not_not.2 hepoch), hleft, encodeInput, ← List.append_nil (encodeFrame _ _), hsplit]
  rw [Frame.bytes] at hpeek
  rw [hpeek]
  dsimp only
  rw [if_neg fun hbudget => Nat.not_le.2 hroom hbudget.2]
  unfold onControl
  rw [if_neg (not_not.2 hepoch), if_pos rfl, decodeInput_payload hseq]
  dsimp only
  rw [if_neg hne, if_neg (Nat.not_lt.2 hlen)]
  rfl

/-! ### The loop -/

/-- Draining nothing more. -/
theorem Drained.stop (hepoch : s.epoch = h.epoch) (hd : drainOne s h cap = .ok none)
    (hbound : busyBytes h.busyInput ≤ busyBound cap) : Drained cap h [] h where
  bytes := rfl
  whole _ hf := absurd hf List.not_mem_nil
  inputs := (List.append_nil _).symm
  sized _ hu := absurd hu List.not_mem_nil
  resize := rfl
  stops _ _ hf hleft := drainOne_stops hepoch hd hf hleft
  bounded := hbound

/-- Draining one frame more, in front of the others.  A resize of that frame counts only if
none behind it can be read, as the last one replaces those before. -/
theorem Drained.cons {f : Frame} {fs : List Frame} {h₁ : Handler}
    (hbytes : h.leftover = f.bytes ++ h₁.leftover) (hshort : f.2.length < maxFrame)
    (hbusy : h₁.busyInput = h.busyInput ++ (frameInput f).toList)
    (hsized : ∀ u, frameInput f = some u → 0 < u.2.length ∧ u.2.length ≤ maxInputBytes)
    (hresize : h₁.pendingResize = (frameResize f).or h.pendingResize)
    (hdrained : Drained cap h₁ fs h') : Drained cap h (f :: fs) h' where
  bytes := by rw [hbytes, hdrained.bytes, streamBytes_cons, List.append_assoc]
  whole g hg := by
    rcases List.mem_cons.1 hg with rfl | hg
    · exact hshort
    · exact hdrained.whole g hg
  inputs := by
    rw [hdrained.inputs, hbusy, List.filterMap_cons, List.append_assoc]
    cases frameInput f <;> rfl
  sized u hu := by
    rw [List.filterMap_cons] at hu
    cases hinput : frameInput f with
    | none =>
      rw [hinput] at hu
      exact hdrained.sized u hu
    | some v =>
      rw [hinput] at hu
      rcases List.mem_cons.1 hu with rfl | hu
      · exact hsized u hinput
      · exact hdrained.sized u hu
  resize := by
    rw [hdrained.resize, hresize, List.filterMap_cons]
    cases frameResize f with
    | none => rfl
    | some size =>
      rw [List.getLast?_cons]
      cases (fs.filterMap frameResize).getLast? <;> rfl
  stops := hdrained.stops
  bounded := hdrained.bounded

/-- **The loop of `drain_leftover`**, with fuel for every byte that is left.  The induction
is on the fuel: every frame takes five bytes at least, so the loop stops before the fuel
runs out, and the bound on the queue holds as an input is queued below the cap only. -/
theorem drainFrames_drained {fuel : ℕ} (hfuel : h.leftover.length ≤ fuel)
    (hepoch : s.epoch = h.epoch) (hbound : busyBytes h.busyInput ≤ busyBound cap)
    (hok : drainFrames cap fuel s h = .ok (s', h')) : ∃ fs, Drained cap h fs h' := by
  induction fuel generalizing s h with
  | zero =>
    cases hok
    have hempty : h'.leftover = [] := List.length_eq_zero_iff.1 (Nat.le_zero.1 hfuel)
    refine ⟨[], rfl, fun _ hf => absurd hf List.not_mem_nil, (List.append_nil _).symm,
      fun _ hu => absurd hu List.not_mem_nil, rfl, fun f rest _ hleft => ?_, hbound⟩
    have hlen := f.bytes_length
    have hzero := congrArg List.length (hempty.symm.trans hleft)
    rw [List.length_append, List.length_nil] at hzero
    omega
  | succ fuel ih =>
    rw [drainFrames] at hok
    split at hok
    · cases hok
    · rename_i hd
      cases hok
      exact ⟨[], .stop hepoch hd hbound⟩
    · rename_i s₁ h₁ hd
      obtain ⟨f, hbytes, hshort, hepoch₁, hbusy, hroom, hresize⟩ := drainOne_takes hepoch hd
      have hlen := f.bytes_length
      have hfuel₁ : h₁.leftover.length ≤ fuel := by
        rw [hbytes, List.length_append] at hfuel
        omega
      have hbound₁ : busyBytes h₁.busyInput ≤ busyBound cap := by
        rw [hbusy, busyBytes_append]
        cases hinput : frameInput f with
        | none => exact hbound
        | some u =>
          obtain ⟨-, hsize, hless⟩ := hroom u hinput
          unfold busyBound
          simp only [Option.toList_some, busyBytes, inputRecordCost, List.map_cons, List.map_nil,
            List.sum_cons, List.sum_nil] at hless ⊢
          omega
      obtain ⟨fs, hdrained⟩ := ih hfuel₁ hepoch₁ hbound₁ hok
      exact ⟨f :: fs, .cons hbytes hshort hbusy
        (fun u hu => ⟨(hroom u hu).1, (hroom u hu).2.1⟩) hresize hdrained⟩

/-- **Control draining is ordered and bounded.**  Whatever has been read and queued within
the bound, a handler whose epoch is the current one takes whole frames off the front, queues
their inputs in order, remembers the last resize, and leaves a frame only when it is an
input for which the budget is used up. -/
theorem drain_ordered_bounded (hepoch : s.epoch = h.epoch)
    (hbound : busyBytes h.busyInput ≤ busyBound cap)
    (hok : drainLeftover s h cap = .ok (s', h')) : ∃ fs, Drained cap h fs h' :=
  drainFrames_drained le_rfl hepoch hbound hok

/-- What a handler of epoch `0` has read: a resize, two inputs, and the head of a frame. -/
def typedHandler : Handler :=
  { epoch := 0
    leftover := encodeResize 90 30 ++ encodeInput 1 [0x61] ++ encodeInput 2 [0x62] ++ [5, 0] }

/-- What draining with a budget for one input leaves of it. -/
def drainedHandler : Handler :=
  { typedHandler with
    leftover := encodeInput 2 [0x62] ++ [5, 0]
    busyInput := [(1, [0x61])]
    pendingResize := some (90, 30) }

/-- The hypotheses of `drain_ordered_bounded` are satisfiable: with a budget for one input
the second one stays. -/
theorem drain_ordered_bounded_typed :
    drainLeftover (newSession 80 24) typedHandler 33 = .ok (newSession 80 24, drainedHandler) ∧
      ∃ fs, Drained 33 typedHandler fs drainedHandler := by
  have hdrain : drainLeftover (newSession 80 24) typedHandler 33 =
      .ok (newSession 80 24, drainedHandler) := rfl
  exact ⟨hdrain, drain_ordered_bounded rfl (by decide) hdrain⟩

end Handler
end Quosh
