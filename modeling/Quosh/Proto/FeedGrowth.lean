/-
# What a feed begins to write

What a caller of `FrameFeed` sees is `rest`, the bytes it is to write.  A call that begins
another frame makes them longer by that frame (`begun`), and a call that does not leaves
the frame waiting.  So a caller that notes what is begun has every frame it pushed: those
that were begun, and behind them those that wait (`Pushes.begun`, `Tidy.advance`), less what
a final frame drops (`Tidy.pushFin`).

The client acknowledges screens and sends inputs through one feed, and the handler sends
control frames, screens and the exit through another: what each of them has begun and what
waits is counted here once for both.
-/

import Quosh.Proto.FeedHistory

namespace Quosh
namespace FrameFeed

variable {f f' f'' : FrameFeed} {new new' : List Bytes} {n : ℕ}

/-- The frames that wait, in the order in which they go out. -/
def waiting (f : FrameFeed) : List Bytes := f.ctrl ++ f.screen.toList ++ f.fin.toList

/-- A feed between two calls: nothing waits behind an empty stream, and nothing empty. -/
structure Tidy (f : FrameFeed) : Prop where
  off : f.out.off ≤ f.out.buf.length
  settled : f.Settled
  waiting : ∀ b ∈ f.waiting, b ≠ []

/-- Some bytes as one frame, if there are any. -/
def frameOf (b : Bytes) : List Bytes := if b = [] then [] else [b]

/-- What a call that writes `n` bytes begins: the bytes that it adds to the stream. -/
def begun (f f' : FrameFeed) (n : ℕ) : List Bytes := frameOf (f'.rest.drop (f.rest.length - n))

/-- A frame has bytes. -/
theorem frameOf_of_ne_nil {b : Bytes} (h : b ≠ []) : frameOf b = [b] := if_neg h

/-- No frame is begun while one is being written. -/
theorem begun_drop (h : f'.rest = f.rest.drop n) : begun f f' n = [] := by
  unfold begun
  rw [h, List.drop_drop, List.drop_eq_nil_of_le (by omega)]
  rfl

/-- A frame that is written makes way for the next. -/
theorem begun_of_le (h : f.rest.length ≤ n) : begun f f' n = frameOf f'.rest := by
  unfold begun
  rw [Nat.sub_eq_zero_of_le h, List.drop_zero]

/-- An empty feed is tidy. -/
theorem tidy_nil : ({} : FrameFeed).Tidy :=
  ⟨le_rfl, fun _ => ⟨rfl, rfl, rfl⟩, fun _ h => absurd h List.not_mem_nil⟩

/-- A feed that writes something is tidy whatever waits. -/
theorem tidy_of_writing (hoff : f.out.off ≤ f.out.buf.length)
    (hwaiting : ∀ b ∈ f.waiting, b ≠ []) (hrest : f.rest ≠ []) : f.Tidy :=
  ⟨hoff, fun hnil => absurd hnil hrest, hwaiting⟩

/-- A feed whose stream is not empty starts nothing. -/
theorem pump_of_rest_ne_nil (hrest : f.rest ≠ []) : f.pump = f := by
  refine pump_of_writing ?_
  rw [← Bool.not_eq_true, OutBuf.isEmpty_iff]
  exact hrest

/-- The frame that is started is the stream now. -/
theorem start_tidy {b : Bytes} (hoff : f.out.off ≤ f.out.buf.length) (hrest : f.rest = [])
    (hb : b ≠ []) (hout : f'.out = f.out.queue b) (hwaiting : ∀ b ∈ f'.waiting, b ≠ []) :
    f'.rest = b ∧ f'.Tidy := by
  have hstream : f'.rest = b := by
    unfold rest at hrest ⊢
    rw [hout, OutBuf.rest_queue hoff, hrest, List.nil_append]
  refine ⟨hstream, tidy_of_writing ?_ hwaiting (hstream ▸ hb)⟩
  rw [hout, OutBuf.queue, List.length_append]
  exact Nat.le_add_right_of_le hoff

/-- **An empty stream begins the first frame that waits**, in the order of the source: a
control frame, the screen, the exit. -/
theorem pump_starts (hoff : f.out.off ≤ f.out.buf.length) (hwaiting : ∀ b ∈ f.waiting, b ≠ [])
    (hrest : f.rest = []) :
    f.pump.Tidy ∧ frameOf f.pump.rest ++ f.pump.waiting = f.waiting := by
  have hempty : f.out.isEmpty = true := (OutBuf.isEmpty_iff _).2 hrest
  have hstart {b : Bytes} {f' : FrameFeed} (hb : b :: f'.waiting = f.waiting)
      (hout : f'.out = f.out.queue b) : f'.Tidy ∧ frameOf f'.rest ++ f'.waiting = f.waiting := by
    have hne : b ≠ [] := hwaiting b (hb ▸ List.mem_cons_self)
    obtain ⟨hstream, htidy⟩ := start_tidy hoff hrest hne hout fun b' hb' =>
      hwaiting b' (hb ▸ List.mem_cons_of_mem _ hb')
    rw [hstream, frameOf_of_ne_nil hne]
    exact ⟨htidy, hb⟩
  unfold pump
  rw [hempty, if_neg (by simp)]
  split
  · rename_i b ctrl hctrl
    refine hstart (b := b) ?_ rfl
    unfold waiting
    rw [hctrl]
    rfl
  · rename_i hctrl
    split
    · rename_i b hscreen
      refine hstart (b := b) ?_ rfl
      unfold waiting
      rw [hctrl, hscreen]
      rfl
    · rename_i hscreen
      split
      · rename_i b hfin
        refine hstart (b := b) ?_ rfl
        unfold waiting
        dsimp only
        rw [hctrl, hscreen, hfin]
        rfl
      · rename_i hfin
        refine ⟨⟨hoff, fun _ => ⟨hctrl, hscreen, hfin⟩, hwaiting⟩, ?_⟩
        rw [hrest]
        rfl

/-- A pump adds no screen. -/
theorem pump_screen (h : f.screen = none) : f.pump.screen = none := by
  unfold pump
  split
  · exact h
  · split
    · exact h
    · rw [h]
      dsimp only
      split
      · rfl
      · exact h

/-- Nor a last frame. -/
theorem pump_fin {b : Bytes} (h : f.pump.fin = some b) : f.fin = some b := by
  unfold pump at h
  split at h
  · exact h
  · split at h
    · exact h
    · split at h
      · exact h
      · split at h
        · cases h
        · exact h

/-- **Writing begins the first frame that waits**, once the one in flight is written. -/
theorem Tidy.advance (h : f.Tidy) (n : ℕ) :
    (f.advance n).Tidy ∧ begun f (f.advance n) n ++ (f.advance n).waiting = f.waiting := by
  have hoff : (f.out.advance n).off ≤ (f.out.advance n).buf.length := by
    unfold OutBuf.advance
    split <;> exact Nat.zero_le _
  have hrest : ({ f with out := f.out.advance n } : FrameFeed).rest = f.rest.drop n :=
    OutBuf.rest_advance ..
  unfold FrameFeed.advance
  by_cases hnil : f.rest.drop n = []
  · rw [begun_of_le (List.drop_eq_nil_iff.1 hnil)]
    exact pump_starts hoff h.waiting (hrest.trans hnil)
  · rw [pump_of_rest_ne_nil (hrest ▸ hnil), begun_drop hrest]
    exact ⟨tidy_of_writing hoff h.waiting (hrest ▸ hnil), rfl⟩

/-- **A final frame drops the control frames that wait.** -/
theorem Tidy.pushFin (h : f.Tidy) {b : Bytes} (hb : b ≠ []) :
    (f.pushFin b).Tidy ∧
      begun f (f.pushFin b) 0 ++ (f.pushFin b).waiting = f.screen.toList ++ [b] := by
  have hwaiting : ∀ b' ∈ f.screen.toList ++ [b], b' ≠ [] := by
    intro b' hb'
    rcases List.mem_append.1 hb' with hscreen | hfin
    · refine h.waiting b' (List.mem_append_left _ (List.mem_append_right _ hscreen))
    · rwa [List.mem_singleton.1 hfin]
  unfold FrameFeed.pushFin
  by_cases hrest : f.rest = []
  · rw [begun_of_le (by rw [hrest]; exact le_rfl)]
    exact pump_starts h.off hwaiting hrest
  · have hpump : ({ f with fin := some b, ctrl := [], ctrlBytes := 0 } : FrameFeed).pump = _ :=
      pump_of_rest_ne_nil hrest
    rw [hpump, begun_drop rfl]
    exact ⟨tidy_of_writing h.off hwaiting hrest, rfl⟩

/-! ### Frames that are pushed -/

/-- **`new` was pushed**: behind what is written and waits, or onto the empty stream. -/
structure Pushes (f f' : FrameFeed) (new : List Bytes) : Prop where
  tidy : f'.Tidy
  screen : f'.screen = f.screen
  fin : f'.fin = f.fin
  writing : f.rest ≠ [] → f'.rest = f.rest ∧ f'.ctrl = f.ctrl ++ new
  idle : f.rest = [] → frameOf f'.rest ++ f'.ctrl = new

theorem Pushes.refl (h : f.Tidy) : Pushes f f [] where
  tidy := h
  screen := rfl
  fin := rfl
  writing _ := ⟨rfl, (List.append_nil _).symm⟩
  idle hrest := by
    rw [hrest, (h.settled hrest).1]
    rfl

theorem Pushes.trans (h : Pushes f f' new) (h' : Pushes f' f'' new') :
    Pushes f f'' (new ++ new') where
  tidy := h'.tidy
  screen := h'.screen.trans h.screen
  fin := h'.fin.trans h.fin
  writing hrest := by
    obtain ⟨hrest', hctrl'⟩ := h.writing hrest
    obtain ⟨hrest'', hctrl''⟩ := h'.writing (hrest' ▸ hrest)
    exact ⟨hrest''.trans hrest', by rw [hctrl'', hctrl', List.append_assoc]⟩
  idle hrest := by
    have hnew := h.idle hrest
    by_cases hrest' : f'.rest = []
    · rw [← h'.idle hrest', ← hnew, hrest', (h.tidy.settled hrest').1]
      rfl
    · obtain ⟨hrest'', hctrl''⟩ := h'.writing hrest'
      rw [hrest'', hctrl'', ← hnew, List.append_assoc]

/-- **`push_ctrl` pushes the frame it takes.**  On an idle feed it goes to the stream at
once, and on a busy one behind the control frames that wait, or it is refused at the cap. -/
theorem pushCtrl_pushes (h : f.Tidy) {b : Bytes} (hb : b ≠ []) :
    Pushes f (f.pushCtrl b).2 (if (f.pushCtrl b).1 then [b] else []) := by
  have hmem (new : List Bytes) (hnew : ∀ b ∈ new, b ≠ []) :
      ∀ b' ∈ f.ctrl ++ new ++ f.screen.toList ++ f.fin.toList, b' ≠ [] := by
    intro b' hb'
    have hold := h.waiting b'
    unfold waiting at hold
    simp only [List.mem_append] at hb' hold
    tauto
  have hqueue : ∀ b' ∈ [b], b' ≠ [] := by simpa using hb
  unfold pushCtrl
  dsimp only
  rw [h.settled.pump]
  split
  · rename_i hidle
    rw [Bool.and_eq_true, OutBuf.isEmpty_iff, List.isEmpty_iff] at hidle
    obtain ⟨hrest, hctrl⟩ := hidle
    obtain ⟨hstream, htidy⟩ := start_tidy h.off hrest hb
      (show ({ f with out := f.out.queue b } : FrameFeed).out = _ from rfl) h.waiting
    refine ⟨htidy, rfl, rfl, fun hne => absurd hrest hne, fun _ => ?_⟩
    rw [hstream, frameOf_of_ne_nil hb]
    exact congrArg _ hctrl
  · rename_i hbusy
    have hrest : f.rest ≠ [] := by
      intro hrest
      rw [Bool.and_eq_true, OutBuf.isEmpty_iff, List.isEmpty_iff] at hbusy
      exact hbusy ⟨hrest, (h.settled hrest).1⟩
    split
    · exact .refl h
    · exact ⟨tidy_of_writing h.off (hmem _ hqueue) hrest, rfl, rfl, fun _ => ⟨rfl, rfl⟩,
        fun hnil => absurd hnil hrest⟩

/-- **Every frame that was pushed is begun or waits.** -/
theorem Pushes.begun (h : Pushes f f' new) (ht : f.Tidy) :
    begun f f' 0 ++ f'.ctrl = f.ctrl ++ new := by
  by_cases hrest : f.rest = []
  · rw [begun_of_le (by rw [hrest]; exact le_rfl), (ht.settled hrest).1]
    exact h.idle hrest
  · obtain ⟨hrest', hctrl'⟩ := h.writing hrest
    rw [begun_drop hrest']
    exact hctrl'

end FrameFeed
end Quosh
