/-
# What a feed has still to deliver

The bytes that a sender has written and its receiver has not parsed, and the feed behind
them, are a sequence of frames.  `f.Delivers C S E written q` says that `q` is this
sequence: the frames on the stream, of which `written` has gone, and behind them the
control frames, the screen and the final frame that wait.  `C`, `S` and `E` are what
frames of these three kinds have in common.

Starting a frame, writing bytes and losing them leave the sequence alone; a push says
where it puts its frame and what it drops (`Delivers.pushCtrl`, `Delivers.pushScreen`,
`Delivers.pushFin`); the receiver takes frames off the front (`Delivers.handled`).

`Behind t E q` is what a receiver wants to know about the order: whenever it gets a frame
of `E`, it has got one of `t` before.
-/

import Quosh.System.Uplink
import Quosh.Proto.FeedGrowth

namespace Quosh

open Bytes

/-! ### The order of frames -/

section Behind

variable {α : Type} {t E : α → Prop} {a b q : List α} {g : α}

/-- Every `E` in the sequence comes behind a `t`. -/
def Behind (t E : α → Prop) : List α → Prop
  | [] => True
  | g :: q => t g ∨ ¬E g ∧ Behind t E q

/-- A sequence with no `E` in it. -/
theorem behind_of_forall_not (h : ∀ g ∈ q, ¬E g) : Behind t E q := by
  induction q with
  | nil => trivial
  | cons g q ih =>
    exact .inr ⟨h g List.mem_cons_self, ih fun x hx => h x (List.mem_cons_of_mem _ hx)⟩

/-- **What comes behind `a`** is free once a `t` is among `a`. -/
theorem behind_append :
    Behind t E (a ++ b) ↔ Behind t E a ∧ ((∃ g ∈ a, t g) ∨ Behind t E b) := by
  induction a with
  | nil => simp [Behind]
  | cons g a ih =>
    simp only [List.cons_append, Behind, ih, List.mem_cons, exists_eq_or_imp]
    constructor
    · rintro (h | ⟨hE, ha, hb⟩)
      · exact ⟨.inl h, .inl (.inl h)⟩
      · exact ⟨.inr ⟨hE, ha⟩, hb.imp_left .inr⟩
    · rintro ⟨h | ⟨hE, ha⟩, (h' | h') | hb⟩
      all_goals first
        | exact .inl h
        | exact .inl h'
        | exact .inr ⟨hE, ha, .inl h'⟩
        | exact .inr ⟨hE, ha, .inr hb⟩

/-- A frame that is no `E` goes in anywhere. -/
theorem Behind.insert (h : Behind t E (a ++ b)) {c : List α} (hc : ∀ g ∈ c, ¬E g) :
    Behind t E (a ++ (c ++ b)) := by
  obtain ⟨ha, hb⟩ := behind_append.1 h
  refine behind_append.2 ⟨ha, hb.imp_right fun hb => ?_⟩
  exact behind_append.2 ⟨behind_of_forall_not hc, .inr hb⟩

/-- Frames that are no `t` may be dropped. -/
theorem Behind.erase {c : List α} (h : Behind t E (a ++ (c ++ b))) (hc : ∀ g ∈ c, ¬t g) :
    Behind t E (a ++ b) := by
  obtain ⟨ha, hb⟩ := behind_append.1 h
  refine behind_append.2 ⟨ha, hb.imp_right fun hb => ?_⟩
  obtain ⟨-, h' | h'⟩ := behind_append.1 hb
  · obtain ⟨g, hg, ht⟩ := h'
    exact absurd ht (hc g hg)
  · exact h'

end Behind

namespace FrameFeed

section Delivers

variable (C S E : Frame → Prop)

/-- The frames of a feed behind the bytes that are written: `fs` on the stream, `cs`, `ss`
and `es` waiting. -/
structure DeliversAs (f : FrameFeed) (written : Bytes) (fs cs ss es : List Frame) : Prop where
  out : written ++ f.out.rest = streamBytes fs
  ctrl : f.ctrl = cs.map Frame.bytes
  screen : f.screen.toList = ss.map Frame.bytes
  fin : f.fin.toList = es.map Frame.bytes
  off : f.out.off ≤ f.out.buf.length
  sendable : Sendable (fs ++ (cs ++ (ss ++ es)))
  isCtrl : ∀ g ∈ cs, C g
  isScreen : ∀ g ∈ ss, S g
  isFin : ∀ g ∈ es, E g

/-- The frames behind some bytes already written. -/
def Delivers (f : FrameFeed) (written : Bytes) (q : List Frame) : Prop :=
  ∃ fs cs ss es, f.DeliversAs C S E written fs cs ss es ∧ q = fs ++ (cs ++ (ss ++ es))

end Delivers

variable {C S E : Frame → Prop} {f : FrameFeed} {written : Bytes} {q fs cs ss es : List Frame}
  {g : Frame}

/-- Frames of a sequence that can be sent, and one more that can. -/
theorem sendable_of_subset (hq : Sendable q) (hg : g.2.length < maxFrame)
    (h : ∀ x ∈ fs, x = g ∨ x ∈ q) : Sendable fs := by
  intro x hx
  rcases h x hx with rfl | hx
  · exact hg
  · exact hq x hx

/-- An empty feed has nothing to deliver. -/
theorem delivers_nil : ({} : FrameFeed).Delivers C S E [] [] :=
  ⟨[], [], [], [], ⟨rfl, rfl, rfl, rfl, le_rfl, fun _ h => absurd h List.not_mem_nil,
    fun _ h => absurd h List.not_mem_nil, fun _ h => absurd h List.not_mem_nil,
    fun _ h => absurd h List.not_mem_nil⟩, rfl⟩

/-- A frame that is written whole is all that is left of an empty feed. -/
theorem delivers_bytes (hg : g.2.length < maxFrame) :
    ({} : FrameFeed).Delivers C S E g.bytes [g] := by
  refine ⟨[g], [], [], [], ⟨?_, rfl, rfl, rfl, le_rfl, ?_, ?_, ?_, ?_⟩, rfl⟩
  · rfl
  · intro x hx
    rw [List.append_nil, List.append_nil, List.append_nil, List.mem_singleton] at hx
    rwa [hx]
  all_goals exact fun _ h => absurd h List.not_mem_nil

/-- **What is written is the front of the sequence.** -/
theorem Delivers.prefix (h : f.Delivers C S E written q) :
    Sendable q ∧ written <+: streamBytes q := by
  obtain ⟨fs, cs, ss, es, h, rfl⟩ := h
  refine ⟨h.sendable, ?_⟩
  rw [streamBytes_append, ← h.out, List.append_assoc]
  exact List.prefix_append ..

/-- The slot for one frame holds a frame. -/
theorem slot_cons {slot : Option Bytes} {b : Bytes} (h : slot.toList = fs.map Frame.bytes)
    (hb : slot = some b) : ∃ g, fs = [g] ∧ g.bytes = b := by
  subst hb
  rw [Option.toList_some] at h
  obtain ⟨g, gs, rfl, hg, hnil⟩ := List.map_eq_cons_iff.1 h.symm
  exact ⟨g, by rw [List.map_eq_nil_iff.1 hnil], hg⟩

/-- The slot for one frame is empty. -/
theorem slot_nil {slot : Option Bytes} (h : slot.toList = fs.map Frame.bytes)
    (hb : slot = none) : fs = [] := by
  subst hb
  exact List.map_eq_nil_iff.1 h.symm

/-- A frame that is started goes behind those on the stream. -/
theorem DeliversAs.queue (h : f.DeliversAs C S E written fs cs ss es) (g : Frame) :
    written ++ (f.out.queue g.bytes).rest = streamBytes (fs ++ [g]) := by
  rw [OutBuf.rest_queue h.off, ← List.append_assoc, h.out, streamBytes_append, streamBytes_cons,
    streamBytes_nil, List.append_nil]

/-- **Starting the next frame moves the cut only.**  The frame that is started goes from the
front of its list to the end of those on the stream: a control frame if there is one, else
the screen, else the exit, which is the order in which they are delivered anyway. -/
theorem DeliversAs.pump (h : f.DeliversAs C S E written fs cs ss es) :
    f.pump.Delivers C S E written (fs ++ (cs ++ (ss ++ es))) := by
  unfold FrameFeed.pump
  split
  · exact ⟨fs, cs, ss, es, h, rfl⟩
  · split
    · rename_i c ctrl hctrl
      obtain ⟨g, cs', rfl, hg, hcs⟩ := List.map_eq_cons_iff.1 (h.ctrl.symm.trans hctrl)
      refine ⟨fs ++ [g], cs', ss, es, ⟨?_, hcs.symm, h.screen, h.fin, OutBuf.off_le_queue h.off _,
        ?_, ?_, h.isScreen, h.isFin⟩, by simp⟩
      · exact hg ▸ h.queue g
      · simpa using h.sendable
      · exact fun x hx => h.isCtrl x (List.mem_cons_of_mem _ hx)
    · rename_i hctrl
      obtain rfl := List.map_eq_nil_iff.1 (h.ctrl.symm.trans hctrl)
      split
      · rename_i s hscreen
        obtain ⟨g, rfl, hg⟩ := slot_cons h.screen hscreen
        refine ⟨fs ++ [g], [], [], es, ⟨?_, hctrl, rfl, h.fin, OutBuf.off_le_queue h.off _, ?_,
          h.isCtrl, ?_, h.isFin⟩, by simp⟩
        · exact hg ▸ h.queue g
        · simpa using h.sendable
        · exact fun x hx => absurd hx List.not_mem_nil
      · rename_i hscreen
        obtain rfl := slot_nil h.screen hscreen
        split
        · rename_i e hfin
          obtain ⟨g, rfl, hg⟩ := slot_cons h.fin hfin
          refine ⟨fs ++ [g], [], [], [], ⟨?_, hctrl, h.screen, rfl, OutBuf.off_le_queue h.off _, ?_,
            h.isCtrl, h.isScreen, ?_⟩, by simp⟩
          · exact hg ▸ h.queue g
          · simpa using h.sendable
          · exact fun x hx => absurd hx List.not_mem_nil
        · exact ⟨fs, [], [], es, h, rfl⟩

/-- A pump delivers what was to be delivered. -/
theorem Delivers.pump (h : f.Delivers C S E written q) : f.pump.Delivers C S E written q := by
  obtain ⟨fs, cs, ss, es, h, rfl⟩ := h
  exact h.pump

/-- **A control frame that is taken** goes behind the control frames. -/
theorem Delivers.pushCtrl (h : f.Delivers C S E written q) (hg : g.2.length < maxFrame)
    (hC : C g) :
    ∃ a b, q = a ++ b ∧ (f.pushCtrl g.bytes).2.Delivers C S E written
      (a ++ ((if (f.pushCtrl g.bytes).1 then [g] else []) ++ b)) := by
  obtain ⟨fs, cs, ss, es, hp, rfl⟩ := h.pump
  have hsend : Sendable (fs ++ (cs ++ ([g] ++ (ss ++ es)))) :=
    sendable_of_subset hp.sendable hg fun x hx => by
      simp only [List.mem_append, List.mem_singleton] at hx ⊢
      tauto
  refine ⟨fs ++ cs, ss ++ es, by simp, ?_⟩
  unfold FrameFeed.pushCtrl
  dsimp only
  split
  · rename_i hidle
    rw [Bool.and_eq_true, List.isEmpty_iff] at hidle
    obtain rfl := List.map_eq_nil_iff.1 (hp.ctrl.symm.trans hidle.2)
    refine ⟨fs ++ [g], [], ss, es, ⟨hp.queue g, hp.ctrl, hp.screen, hp.fin,
      OutBuf.off_le_queue hp.off _, ?_, hp.isCtrl, hp.isScreen, hp.isFin⟩, by simp⟩
    simpa using hsend
  · split
    · exact ⟨fs, cs, ss, es, hp, by simp⟩
    · refine ⟨fs, cs ++ [g], ss, es, ⟨hp.out, ?_, hp.screen, hp.fin, hp.off, ?_, ?_, hp.isScreen,
        hp.isFin⟩, by simp⟩
      · change f.pump.ctrl ++ [g.bytes] = _
        rw [hp.ctrl, List.map_append, List.map_singleton]
      · simpa using hsend
      · intro x hx
        rcases List.mem_append.1 hx with hx | hx
        · exact hp.isCtrl x hx
        · rwa [List.mem_singleton.1 hx]

/-- **A screen** takes the place of the one that waits, in front of the final frame. -/
theorem Delivers.pushScreen (h : f.Delivers C S E written q) (hg : g.2.length < maxFrame)
    (hS : S g) :
    ∃ a b c, q = a ++ (b ++ c) ∧ (∀ x ∈ b, S x) ∧
      (f.pushScreen g.bytes).Delivers C S E written (a ++ ([g] ++ c)) := by
  obtain ⟨fs, cs, ss, es, h, rfl⟩ := h
  refine ⟨fs ++ cs, ss, es, by simp, h.isScreen, ?_⟩
  have hpush : ({ f with screen := some g.bytes } : FrameFeed).DeliversAs C S E written fs cs [g]
      es := by
    refine ⟨h.out, h.ctrl, rfl, h.fin, h.off, sendable_of_subset h.sendable hg fun x hx => ?_,
      h.isCtrl, fun x hx => ?_, h.isFin⟩
    · simp only [List.mem_append, List.mem_singleton] at hx ⊢
      tauto
    · rwa [List.mem_singleton.1 hx]
  have hpump := hpush.pump
  rwa [← List.append_assoc] at hpump

/-- **The final frame** goes to the end, and the control frames that wait are dropped. -/
theorem Delivers.pushFin (h : f.Delivers C S E written q) (hg : g.2.length < maxFrame)
    (hE : E g) :
    ∃ a b c e, q = a ++ (b ++ (c ++ e)) ∧ (∀ x ∈ b, C x) ∧ (∀ x ∈ e, E x) ∧
      (f.pushFin g.bytes).Delivers C S E written (a ++ (c ++ [g])) := by
  obtain ⟨fs, cs, ss, es, h, rfl⟩ := h
  refine ⟨fs, cs, ss, es, rfl, h.isCtrl, h.isFin, ?_⟩
  have hpush : ({ f with fin := some g.bytes, ctrl := [], ctrlBytes := 0 } :
      FrameFeed).DeliversAs C S E written fs [] ss [g] := by
    refine ⟨h.out, rfl, h.screen, rfl, h.off, sendable_of_subset h.sendable hg fun x hx => ?_,
      fun x hx => absurd hx List.not_mem_nil, h.isScreen, fun x hx => ?_⟩
    · simp only [List.mem_append, List.mem_singleton, List.not_mem_nil] at hx ⊢
      tauto
    · rwa [List.mem_singleton.1 hx]
  exact hpush.pump

/-- **Writing bytes moves the cut only.** -/
theorem Delivers.advance (h : f.Delivers C S E written q) (n : ℕ) :
    (f.advance n).Delivers C S E (written ++ f.rest.take n) q := by
  obtain ⟨fs, cs, ss, es, h, rfl⟩ := h
  unfold FrameFeed.advance
  refine DeliversAs.pump ⟨?_, h.ctrl, h.screen, h.fin, OutBuf.off_le_advance .., h.sendable,
    h.isCtrl, h.isScreen, h.isFin⟩
  rw [OutBuf.rest_advance, List.append_assoc, rest, List.take_append_drop]
  exact h.out

/-- **Bytes that are lost** might as well never have been written. -/
theorem Delivers.lose {lost : Bytes} (h : f.Delivers C S E (written ++ lost) q) :
    ∃ f' : FrameFeed, f'.Delivers C S E written q := by
  obtain ⟨fs, cs, ss, es, h, rfl⟩ := h
  refine ⟨{ f with out := { buf := lost ++ f.out.rest, off := 0 } }, fs, cs, ss, es,
    ⟨?_, h.ctrl, h.screen, h.fin, Nat.zero_le _, h.sendable, h.isCtrl, h.isScreen, h.isFin⟩, rfl⟩
  rw [OutBuf.rest_eq_drop, List.drop_zero, ← List.append_assoc]
  exact h.out

/-- A frame that arrived whole is the first. -/
theorem Delivers.tail (h : f.Delivers C S E (g.bytes ++ written) (g :: q)) :
    f.Delivers C S E written q := by
  obtain ⟨fs, cs, ss, es, h, hq⟩ := h
  have hne : g.bytes ≠ [] := encodeFrame_ne_nil g.1 g.2
  cases fs with
  | nil =>
    have hout := h.out
    simp [hne] at hout
  | cons g' fs =>
    obtain ⟨rfl, rfl⟩ := List.cons.inj hq
    refine ⟨fs, cs, ss, es, ⟨?_, h.ctrl, h.screen, h.fin, h.off, h.sendable.tail, h.isCtrl,
      h.isScreen, h.isFin⟩, rfl⟩
    have hout := h.out
    rw [streamBytes_cons, List.append_assoc] at hout
    exact List.append_cancel_left hout

/-- **The frames that arrived whole come first**, and leave the others. -/
theorem Delivers.handled (fs : List Frame) (h : f.Delivers C S E (streamBytes fs ++ written)
    (fs ++ q)) : f.Delivers C S E written q := by
  induction fs with
  | nil => exact h
  | cons g fs ih =>
    rw [streamBytes_cons, List.append_assoc] at h
    exact ih h.tail

/-! ### Writing all there is -/

/-- What waits, as bytes. -/
theorem DeliversAs.waiting (h : f.DeliversAs C S E written fs cs ss es) :
    f.waiting = (cs ++ (ss ++ es)).map Frame.bytes := by
  rw [FrameFeed.waiting, h.ctrl, h.screen, h.fin, List.map_append, List.map_append,
    List.append_assoc]

/-- **A feed with nothing left** has delivered everything. -/
theorem Delivers.idle (h : f.Delivers C S E written q) (hrest : f.rest = [])
    (hwaiting : f.waiting = []) : written = streamBytes q := by
  obtain ⟨fs, cs, ss, es, h, rfl⟩ := h
  rw [h.waiting, List.map_eq_nil_iff] at hwaiting
  have hout := h.out
  change f.out.rest = [] at hrest
  rwa [hrest, List.append_nil, ← List.append_nil fs, ← hwaiting] at hout

/-- **Writing the frame in flight** starts the next one. -/
theorem Delivers.flush (h : f.Delivers C S E written q) {n : ℕ} (hn : (streamBytes q).length ≤ n) :
    (f.advance n).waiting.length = f.waiting.length - 1 ∧
      (f.waiting = [] → (f.advance n).rest = []) := by
  obtain ⟨fs, cs, ss, es, h, rfl⟩ := h
  have hlen : f.rest.length ≤ n := by
    have hout := congrArg List.length h.out
    rw [List.length_append] at hout
    rw [streamBytes_append, List.length_append] at hn
    change f.out.rest.length ≤ n
    omega
  have hrest : ({ f with out := f.out.advance n } : FrameFeed).rest = [] := by
    change (f.out.advance n).rest = []
    rw [OutBuf.rest_advance]
    exact List.drop_eq_nil_of_le hlen
  have hne : ∀ b ∈ ({ f with out := f.out.advance n } : FrameFeed).waiting, b ≠ [] := by
    intro b hb
    change b ∈ f.waiting at hb
    rw [h.waiting] at hb
    obtain ⟨g, -, rfl⟩ := List.mem_map.1 hb
    exact encodeFrame_ne_nil g.1 g.2
  obtain ⟨htidy, hstart⟩ := pump_starts (OutBuf.off_le_advance ..) hne hrest
  change (f.advance n).Tidy at htidy
  change frameOf (f.advance n).rest ++ (f.advance n).waiting = f.waiting at hstart
  by_cases hnil : (f.advance n).rest = []
  · obtain ⟨hctrl, hscreen, hfin⟩ := htidy.settled hnil
    have hempty : (f.advance n).waiting = [] := by
      rw [FrameFeed.waiting, hctrl, hscreen, hfin]
      rfl
    rw [hempty, hnil] at hstart
    rw [hempty, ← hstart]
    exact ⟨rfl, fun _ => hnil⟩
  · rw [frameOf_of_ne_nil hnil] at hstart
    rw [← hstart]
    exact ⟨by simp, nofun⟩

end FrameFeed
end Quosh
