/-
# What a feed still carries

The bytes a client has written on its control stream and the feed behind them are
one sequence of frames, cut somewhere inside a frame.  `f.Carries written us` says
that, and that `us` are the inputs in it.

Feeding, writing and parsing keep the sequence: `pump` and `advance` only move the
cut, `push_ctrl` appends, a frame that is split off at the receiver takes its input
off the front (`Carries.split`), and bytes that are lost might as well never have
been written (`Carries.lose`).
-/

import Quosh.Server.Transport

namespace Quosh

open Bytes

namespace OutBuf

/-- The offset stays in the buffer when bytes are queued. -/
theorem off_le_queue {o : OutBuf} (h : o.off ≤ o.buf.length) (bytes : Bytes) :
    (o.queue bytes).off ≤ (o.queue bytes).buf.length := by
  rw [queue, List.length_append]
  exact h.trans (Nat.le_add_right ..)

/-- It stays there when bytes are written. -/
theorem off_le_advance (o : OutBuf) (n : ℕ) : (o.advance n).off ≤ (o.advance n).buf.length := by
  unfold advance
  split <;> exact Nat.zero_le _

end OutBuf

namespace FrameFeed

/-- The frames of a feed, behind the bytes already written, carry the inputs
`us`. -/
structure CarriesAs (f : FrameFeed) (written : Bytes) (us : List (ℕ × Bytes))
    (fs q : List Frame) : Prop where
  sendable : Sendable (fs ++ q)
  inputs : (fs ++ q).filterMap frameInput = us
  out : written ++ f.out.rest = streamBytes fs
  ctrl : f.ctrl = q.map Frame.bytes
  off : f.out.off ≤ f.out.buf.length
  screen : f.screen = none
  fin : ∀ b, f.fin = some b → b = encodeHangup

/-- The frames behind some bytes already written carry these inputs. -/
def Carries (f : FrameFeed) (written : Bytes) (us : List (ℕ × Bytes)) : Prop :=
  ∃ fs q, f.CarriesAs written us fs q

variable {f : FrameFeed} {written : Bytes} {us : List (ℕ × Bytes)}

/-- One more frame. -/
theorem sendable_concat {fs : List Frame} {g : Frame} (h : Sendable fs)
    (hg : g.2.length < maxFrame) : Sendable (fs ++ [g]) := by
  intro g' hg'
  rcases List.mem_append.1 hg' with hg' | hg'
  · exact h g' hg'
  · rwa [List.mem_singleton.1 hg']

/-- **Starting the next frame moves the cut only**, as the client queues control frames and
nothing else. -/
theorem Carries.pump (h : f.Carries written us) : f.pump.Carries written us := by
  obtain ⟨fs, q, h⟩ := h
  unfold FrameFeed.pump
  split
  · exact ⟨fs, q, h⟩
  · rename_i hempty
    have hrest : f.out.rest = [] := (OutBuf.isEmpty_iff _).1 (by simpa using hempty)
    have hqueue (bytes : Bytes) :
        written ++ (f.out.queue bytes).rest = streamBytes fs ++ bytes := by
      rw [OutBuf.rest_queue h.off, ← List.append_assoc, h.out]
    split
    · rename_i c ctrl hctrl
      cases q with
      | nil =>
        rw [h.ctrl] at hctrl
        cases hctrl
      | cons g q =>
        have hcons : g.bytes :: q.map Frame.bytes = c :: ctrl := h.ctrl.symm.trans hctrl
        obtain ⟨hg, hq⟩ := List.cons.inj hcons
        refine ⟨fs ++ [g], q, ?_, ?_, ?_, hq.symm, OutBuf.off_le_queue h.off _, h.screen, h.fin⟩
        · rw [List.append_assoc]
          exact h.sendable
        · rw [List.append_assoc]
          exact h.inputs
        · rw [streamBytes_append]
          change written ++ (f.out.queue c).rest = _
          rw [hqueue, ← hg, streamBytes_cons, streamBytes_nil, List.append_nil]
    · rename_i hctrl
      have hq : q = [] := List.map_eq_nil_iff.1 (h.ctrl.symm.trans hctrl)
      subst hq
      rw [h.screen]
      dsimp only
      split
      · rename_i e hfin
        refine ⟨fs ++ [(msgHangup, [])], [], ?_, ?_, ?_, hctrl, OutBuf.off_le_queue h.off _,
          rfl, fun b hb => by cases hb⟩
        · rw [List.append_nil]
          exact sendable_concat (List.append_nil fs ▸ h.sendable) (by decide)
        · have hinputs := h.inputs
          rw [List.append_nil] at hinputs ⊢
          rw [List.filterMap_append, hinputs]
          exact List.append_nil us
        · change written ++ (f.out.queue e).rest = _
          rw [hqueue, h.fin e hfin, streamBytes_append]
          rfl
      · exact ⟨fs, [], h⟩

/-- **A control frame that is taken goes in at the end**; one that is refused leaves
the sequence alone. -/
theorem Carries.pushCtrl (h : f.Carries written us) {g : Frame} (hg : g.2.length < maxFrame) :
    (f.pushCtrl g.bytes).2.Carries written
      (us ++ if (f.pushCtrl g.bytes).1 then (frameInput g).toList else []) := by
  obtain ⟨fs, q, hp⟩ := h.pump
  have happend : ((fs ++ q) ++ [g]).filterMap frameInput = us ++ (frameInput g).toList := by
    rw [List.filterMap_append, hp.inputs]
    cases hgi : frameInput g <;> simp [hgi]
  unfold FrameFeed.pushCtrl
  dsimp only
  split
  · rename_i hidle
    rw [Bool.and_eq_true, OutBuf.isEmpty_iff, List.isEmpty_iff] at hidle
    obtain ⟨hrest, hctrl⟩ := hidle
    have hq : q = [] := List.map_eq_nil_iff.1 (hp.ctrl.symm.trans hctrl)
    subst hq
    rw [List.append_nil] at happend
    refine ⟨fs ++ [g], [], ?_, ?_, ?_, hctrl, OutBuf.off_le_queue hp.off _, hp.screen, hp.fin⟩
    · rw [List.append_nil]
      exact sendable_concat (List.append_nil fs ▸ hp.sendable) hg
    · rw [List.append_nil, if_pos rfl]
      exact happend
    · change written ++ (f.pump.out.queue g.bytes).rest = _
      rw [OutBuf.rest_queue hp.off, ← List.append_assoc, hp.out, streamBytes_append,
        streamBytes_cons, streamBytes_nil, List.append_nil]
  · split
    · rw [if_neg Bool.false_ne_true, List.append_nil]
      exact ⟨fs, q, hp⟩
    · rw [if_pos rfl]
      refine ⟨fs, q ++ [g], ?_, ?_, hp.out, ?_, hp.off, hp.screen, hp.fin⟩
      · rw [← List.append_assoc]
        exact sendable_concat hp.sendable hg
      · rw [← List.append_assoc]
        exact happend
      · change f.pump.ctrl ++ [g.bytes] = _
        rw [hp.ctrl, List.map_append]
        rfl

/-- A control frame without input changes nothing for input. -/
theorem Carries.pushOther (h : f.Carries written us) {g : Frame} (hg : g.2.length < maxFrame)
    (hnone : frameInput g = none) : (f.pushCtrl g.bytes).2.Carries written us := by
  have hpush := h.pushCtrl hg
  rwa [hnone, Option.toList_none, ite_self, List.append_nil] at hpush

/-- **A final frame drops queued frames from the end** only. -/
theorem Carries.pushFin (h : f.Carries written us) :
    ∃ us', us' <+: us ∧ (f.pushFin encodeHangup).Carries written us' := by
  obtain ⟨fs, q, h⟩ := h
  have hinputs := h.inputs
  rw [List.filterMap_append] at hinputs
  refine ⟨fs.filterMap frameInput, ⟨_, hinputs⟩, ?_⟩
  unfold FrameFeed.pushFin
  refine Carries.pump ⟨fs, [], ?_, ?_, h.out, rfl, h.off, h.screen, fun b hb => ?_⟩
  · rw [List.append_nil]
    exact fun g hg => h.sendable g (List.mem_append_left _ hg)
  · rw [List.append_nil]
  · cases hb
    rfl

/-- **Writing bytes moves the cut only.** -/
theorem Carries.advance (h : f.Carries written us) (n : ℕ) :
    (f.advance n).Carries (written ++ f.rest.take n) us := by
  obtain ⟨fs, q, h⟩ := h
  unfold FrameFeed.advance
  refine Carries.pump ⟨fs, q, h.sendable, h.inputs, ?_, h.ctrl, OutBuf.off_le_advance .., h.screen,
    h.fin⟩
  rw [OutBuf.rest_advance, List.append_assoc, rest, List.take_append_drop]
  exact h.out

/-- **Bytes that are lost** might as well never have been written. -/
theorem Carries.lose {lost : Bytes} (h : f.Carries (written ++ lost) us) :
    ∃ f' : FrameFeed, f'.Carries written us := by
  obtain ⟨fs, q, h⟩ := h
  refine ⟨{ f with out := { buf := lost ++ f.out.rest, off := 0 } }, fs, q, h.sendable, h.inputs,
    ?_, h.ctrl, Nat.zero_le _, h.screen, h.fin⟩
  rw [OutBuf.rest_eq_drop, List.drop_zero, ← List.append_assoc]
  exact h.out

/-- **A frame that is split off takes its input off the front.** -/
theorem Carries.split {buf more rest : Bytes} {g : Frame} (h : f.Carries (buf ++ more) us)
    (hs : splitFrame buf = (.ok (some g), rest)) :
    ∃ us', us = (frameInput g).toList ++ us' ∧ f.Carries (rest ++ more) us' := by
  obtain ⟨fs, q, h⟩ := h
  obtain ⟨hbuf, hg⟩ := (@splitFrame_some _ _ g.1 g.2) hs
  have hout := h.out
  rw [hbuf] at hout
  cases fs with
  | nil =>
    have := congrArg List.length hout
    rw [List.append_assoc, List.append_assoc, List.length_append, length_encodeFrame,
      streamBytes_nil, List.length_nil] at this
    omega
  | cons g' fs =>
    rw [streamBytes_cons, List.append_assoc, List.append_assoc] at hout
    obtain ⟨ht, hp, hrest⟩ := encodeFrame_append_inj hg
      (h.sendable g' (List.mem_append_left _ (List.mem_cons_self ..))) hout
    have hgg : g' = g := Prod.ext ht.symm hp.symm
    subst hgg
    refine ⟨(fs ++ q).filterMap frameInput, ?_, fs, q, ?_, rfl, ?_, h.ctrl, h.off, h.screen, h.fin⟩
    · rw [← h.inputs, List.cons_append, List.filterMap_cons]
      cases frameInput g' <;> rfl
    · exact fun g hg => h.sendable g (List.mem_append.2 ((List.mem_append.1 hg).imp_left
        (List.mem_cons_of_mem _)))
    · rw [List.append_assoc]
      exact hrest

/-- An empty feed carries nothing. -/
theorem carries_nil : ({} : FrameFeed).Carries [] [] :=
  ⟨[], [], fun _ h => absurd h List.not_mem_nil, rfl, rfl, rfl, le_rfl, rfl,
    fun _ h => by cases h⟩

end FrameFeed
end Quosh
