/-
# Every frame of a feed is accounted for

A history of a `FrameFeed` is the list of what was done with it: frames that were
pushed, with the answer of `push_ctrl`, and bytes that were written.  Its entries
are numbered by their place in the history.

An account says which frames were started (`emitted`) and which wait, in the queue of
control frames, the slot for the screen or the one for the final frame.  Starting a
frame changes no account of its kind (`Account.start_of`), so all there is to say is
what an event adds and drops: `Account.record` and `Tracks.record`.

The feed holds what the account says (`Shows`).  So what was written is whole frames
up to the one in flight, each at most once and in order
(`FrameFeed.history_accounted`).
-/

import Quosh.Proto.Feed

namespace Quosh
namespace FrameFeed

/-! ### Histories -/

/-- The three kinds of frames. -/
inductive Kind where
  | ctrl
  | screen
  | fin
  deriving DecidableEq

/-- The kind of frame that drops the waiting ones of a kind: a final frame drops
control frames, a screen the pending one, a final frame the pending one. -/
def Kind.droppedBy : Kind → Kind
  | .ctrl => .fin
  | .screen => .screen
  | .fin => .fin

/-- What is done with a feed; a control frame with the answer of `push_ctrl`. -/
inductive Event where
  | screen (frame : Bytes)
  | ctrl (frame : Bytes) (taken : Bool)
  | fin (frame : Bytes)
  | pump
  | advance (n : ℕ)
  deriving DecidableEq

/-- The kind of the frame that goes in, if one does. -/
def Event.kind : Event → Option Kind
  | .screen _ => some .screen
  | .ctrl _ taken => if taken then some .ctrl else none
  | .fin _ => some .fin
  | .pump => none
  | .advance _ => none

/-- The frame that is pushed. -/
def Event.frame : Event → Bytes
  | .screen frame => frame
  | .ctrl frame _ => frame
  | .fin frame => frame
  | .pump => []
  | .advance _ => []

/-- **The histories of a feed**, with the bytes written and the feed behind them. -/
inductive Ran : List Event → Bytes → FrameFeed → Prop
  | nil : Ran [] [] {}
  | screen {h : List Event} {w : Bytes} {f : FrameFeed} (hran : Ran h w f) {frame : Bytes}
    (hne : frame ≠ []) : Ran (h ++ [.screen frame]) w (f.pushScreen frame)
  | ctrl {h : List Event} {w : Bytes} {f : FrameFeed} (hran : Ran h w f) {frame : Bytes}
    (hne : frame ≠ []) : Ran (h ++ [.ctrl frame (f.pushCtrl frame).1]) w (f.pushCtrl frame).2
  | fin {h : List Event} {w : Bytes} {f : FrameFeed} (hran : Ran h w f) {frame : Bytes}
    (hne : frame ≠ []) : Ran (h ++ [.fin frame]) w (f.pushFin frame)
  | pump {h : List Event} {w : Bytes} {f : FrameFeed} (hran : Ran h w f) :
    Ran (h ++ [.pump]) w f.pump
  | advance {h : List Event} {w : Bytes} {f : FrameFeed} (hran : Ran h w f) {n : ℕ}
    (hn : n ≤ f.rest.length) : Ran (h ++ [.advance n]) (w ++ f.rest.take n) (f.advance n)

/-! ### Accounts -/

/-- An event with its place in the history. -/
abbrev Entry := ℕ × Event

/-- What became of the frames of a history: those on the stream, and those that
wait. -/
structure Account where
  emitted : List Entry := []
  waiting : Kind → List Entry := fun _ => []

namespace Account

variable {a : Account} {h : List Event} {e : Event} {k : Kind}

/-- The frames of a kind: those on the stream, and behind them those that wait. -/
def of (a : Account) (k : Kind) : List Entry :=
  a.emitted.filter (·.2.kind = some k) ++ a.waiting k

/-- The first waiting frame of a kind is started. -/
def start (a : Account) (k : Kind) : Account where
  emitted := a.emitted ++ (a.waiting k).take 1
  waiting := Function.update a.waiting k ((a.waiting k).drop 1)

/-- What an event at place `n` drops and adds. -/
def record (a : Account) (n : ℕ) (e : Event) : Account where
  emitted := a.emitted
  waiting k := (if e.kind = some k.droppedBy then [] else a.waiting k) ++
    if e.kind = some k then [(n, e)] else []

/-- **An account tracks a history**: the frames of each kind are entries of the history
in its order, and those of the history that are missing were dropped by a later one. -/
structure Tracks (a : Account) (h : List Event) : Prop where
  emitted : ∀ e ∈ a.emitted, ∃ k, e.2.kind = some k
  entry : ∀ k, ∀ e ∈ a.of k, h[e.1]? = some e.2 ∧ e.2.kind = some k
  sorted : ∀ k, (a.of k).Pairwise fun e e' => e.1 < e'.1
  missing : ∀ k i e, h[i]? = some e → e.kind = some k →
    (i, e) ∈ a.of k ∨ ∃ j > i, ∃ e', h[j]? = some e' ∧ e'.kind = some k.droppedBy

/-- An empty feed has an empty history. -/
theorem tracks_nil : Tracks {} [] :=
  ⟨fun _ he => absurd he List.not_mem_nil, fun _ _ he => absurd he List.not_mem_nil,
    fun _ => .nil, fun _ _ _ he => by cases he⟩

/-- **Starting a frame changes no account of its kind**, nor of another. -/
theorem Tracks.start_of (ht : a.Tracks h) (k k' : Kind) : (a.start k).of k' = a.of k' := by
  have hkind (e : Entry) (he : e ∈ (a.waiting k).take 1) : e.2.kind = some k :=
    (ht.entry k e (List.mem_append_right _ (List.mem_of_mem_take he))).2
  unfold of start
  dsimp only
  rw [List.filter_append]
  by_cases hk : k' = k
  · subst hk
    rw [Function.update_self, List.filter_eq_self.2 fun e he => decide_eq_true (hkind e he),
      List.append_assoc, List.take_append_drop]
  · have hnone : ((a.waiting k).take 1).filter (·.2.kind = some k') = [] := by
      refine List.filter_eq_nil_iff.2 fun e he hsame => ?_
      exact hk (Option.some.inj ((of_decide_eq_true hsame).symm.trans (hkind e he)))
    rw [Function.update_of_ne hk, hnone, List.append_nil]

/-- A frame is begun. -/
theorem Tracks.start (ht : a.Tracks h) (k : Kind) : (a.start k).Tracks h where
  emitted e he := by
    rcases List.mem_append.1 he with he | he
    · exact ht.emitted e he
    · exact ⟨k, (ht.entry k e (List.mem_append_right _ (List.mem_of_mem_take he))).2⟩
  entry k' := by
    rw [ht.start_of]
    exact ht.entry k'
  sorted k' := by
    rw [ht.start_of]
    exact ht.sorted k'
  missing k' := by
    rw [ht.start_of]
    exact ht.missing k'

/-- **What an event adds and drops** is what became of its frame and of those it
drops. -/
theorem Tracks.record (ht : a.Tracks h) (e : Event) : (a.record h.length e).Tracks (h ++ [e]) := by
  have hold (k : Kind) : (a.emitted.filter (·.2.kind = some k) ++
      if e.kind = some k.droppedBy then [] else a.waiting k).Sublist (a.of k) := by
    refine (List.Sublist.refl _).append ?_
    split
    · exact List.nil_sublist _
    · exact .refl _
  have hof (k : Kind) : (a.record h.length e).of k = (a.emitted.filter (·.2.kind = some k) ++
      if e.kind = some k.droppedBy then [] else a.waiting k) ++
        if e.kind = some k then [(h.length, e)] else [] := (List.append_assoc ..).symm
  have hlt {k : Kind} {e' : Entry} (he : e' ∈ a.of k) : e'.1 < h.length :=
    (List.getElem?_eq_some_iff.1 (ht.entry k e' he).1).1
  refine ⟨ht.emitted, fun k e' he' => ?_, fun k => ?_, fun k i e' he' hk => ?_⟩
  · rw [hof] at he'
    rcases List.mem_append.1 he' with he' | he'
    · have hmem := (hold k).subset he'
      rw [List.getElem?_append_left (hlt hmem)]
      exact ht.entry k e' hmem
    · split at he'
      · rename_i hk
        rw [List.mem_singleton.1 he']
        exact ⟨List.getElem?_concat_length, hk⟩
      · exact absurd he' List.not_mem_nil
  · rw [hof]
    refine List.pairwise_append.2 ⟨(ht.sorted k).sublist (hold k), ?_, fun e₁ he₁ e₂ he₂ => ?_⟩
    · split
      · exact List.pairwise_singleton ..
      · exact .nil
    · split at he₂
      · rw [List.mem_singleton.1 he₂]
        exact hlt ((hold k).subset he₁)
      · exact absurd he₂ List.not_mem_nil
  · rw [hof]
    rcases Nat.lt_or_ge i h.length with hi | hi
    · rw [List.getElem?_append_left hi] at he'
      rcases ht.missing k i e' he' hk with hmem | ⟨j, hj, e'', he'', hdrop⟩
      · by_cases hdrop : e.kind = some k.droppedBy
        · rcases List.mem_append.1 hmem with hmem | hmem
          · exact .inl (List.mem_append_left _ (List.mem_append_left _ hmem))
          · exact .inr ⟨h.length, hi, e, List.getElem?_concat_length, hdrop⟩
        · rw [if_neg hdrop]
          exact .inl (List.mem_append_left _ hmem)
      · refine .inr ⟨j, hj, e'', ?_, hdrop⟩
        rwa [List.getElem?_append_left (List.getElem?_eq_some_iff.1 he'').1]
    · have hlast : i = h.length := by
        have := (List.getElem?_eq_some_iff.1 he').1
        rw [List.length_append, List.length_singleton] at this
        omega
      subst hlast
      rw [List.getElem?_concat_length] at he'
      cases he'
      rw [if_pos hk]
      exact .inl (List.mem_append_right _ (List.mem_singleton_self _))

end Account

/-! ### What a feed holds -/

/-- The bytes of frames in the order of their entries. -/
def framesOf (es : List Entry) : Bytes := es.flatMap (·.2.frame)

/-- The frames of two lists. -/
theorem framesOf_append (es es' : List Entry) :
    framesOf (es ++ es') = framesOf es ++ framesOf es' :=
  List.flatMap_append ..

/-- The frame of one entry. -/
theorem framesOf_singleton (e : Entry) : framesOf [e] = e.2.frame := List.append_nil _

/-- **The feed holds what the account says**: the frames on the stream, of which `w`
was written, and those that wait. -/
structure Shows (a : Account) (w : Bytes) (f : FrameFeed) : Prop where
  stream : w ++ f.rest = framesOf a.emitted
  ctrl : f.ctrl = (a.waiting .ctrl).map (·.2.frame)
  screen : f.screen.toList = (a.waiting .screen).map (·.2.frame)
  fin : f.fin.toList = (a.waiting .fin).map (·.2.frame)
  ctrlBytes : f.ctrlBytes = (f.ctrl.map List.length).sum
  off : f.out.off ≤ f.out.buf.length
  waiting : ∀ k, ∀ e ∈ a.waiting k, e.2.frame ≠ []

/-- Nothing waits behind an empty stream. -/
def Settled (f : FrameFeed) : Prop := f.rest = [] → f.ctrl = [] ∧ f.screen = none ∧ f.fin = none

/-- **A settled feed has nothing to start.** -/
theorem Settled.pump {f : FrameFeed} (h : f.Settled) : f.pump = f := by
  unfold FrameFeed.pump
  split
  · rfl
  · rename_i hempty
    obtain ⟨hctrl, hscreen, hfin⟩ := h ((OutBuf.isEmpty_iff _).1 (by simpa using hempty))
    rw [hctrl, hscreen, hfin]

variable {a : Account} {h : List Event} {w : Bytes} {f : FrameFeed}

/-- A frame that is started on an empty stream. -/
theorem Shows.start (hs : Shows a w f) (hrest : f.rest = []) {k : Kind} {e : Entry}
    {es : List Entry} (hk : a.waiting k = e :: es) (f' : FrameFeed)
    (hout : f'.out = f.out.queue e.2.frame)
    (hctrl : f'.ctrl = ((a.start k).waiting .ctrl).map (·.2.frame))
    (hscreen : f'.screen.toList = ((a.start k).waiting .screen).map (·.2.frame))
    (hfin : f'.fin.toList = ((a.start k).waiting .fin).map (·.2.frame))
    (hbytes : f'.ctrlBytes = (f'.ctrl.map List.length).sum) :
    Shows (a.start k) w f' ∧ f'.Settled := by
  have hrest' : f'.rest = e.2.frame := by
    rw [FrameFeed.rest, hout, OutBuf.rest_queue hs.off, show f.out.rest = [] from hrest,
      List.nil_append]
  refine ⟨⟨?_, hctrl, hscreen, hfin, hbytes, ?_, fun k' e' he' => ?_⟩,
    fun hempty => ?_⟩
  · have hstream := hs.stream
    rw [hrest, List.append_nil] at hstream
    rw [hrest', hstream, Account.start, hk]
    change _ = framesOf (a.emitted ++ [e])
    rw [framesOf_append, framesOf_singleton]
  · rw [hout, OutBuf.queue, List.length_append]
    exact Nat.le_add_right_of_le hs.off
  · refine hs.waiting k' e' ?_
    unfold Account.start at he'
    dsimp only at he'
    by_cases hkk : k' = k
    · subst hkk
      rw [Function.update_self] at he'
      exact List.mem_of_mem_drop he'
    · rwa [Function.update_of_ne hkk] at he'
  · rw [hrest'] at hempty
    exact absurd hempty (hs.waiting k e (hk ▸ List.mem_cons_self ..))

/-- A slot that holds a frame. -/
theorem waiting_of_slot {slot : Option Bytes} {es : List Entry} {s : Bytes}
    (h : slot.toList = es.map (·.2.frame)) (hs : slot = some s) :
    ∃ e, es = [e] ∧ e.2.frame = s := by
  rw [hs] at h
  cases es with
  | nil => cases h
  | cons e es =>
    obtain ⟨rfl, hnil⟩ := List.cons.inj h
    exact ⟨e, by rw [List.map_eq_nil_iff.1 hnil.symm], rfl⟩

/-- **`pump` starts the first frame that waits**, if the stream is empty.  The account
starts the first of the same kind, so it goes on to show the feed. -/
theorem Shows.pump (hs : Shows a w f) (ht : a.Tracks h) :
    ∃ a', Shows a' w f.pump ∧ a'.Tracks h ∧ f.pump.Settled := by
  unfold FrameFeed.pump
  split
  · rename_i hbusy
    refine ⟨a, hs, ht, fun hrest => ?_⟩
    rw [(OutBuf.isEmpty_iff _).2 hrest] at hbusy
    cases hbusy
  · rename_i hidle
    have hrest : f.rest = [] := (OutBuf.isEmpty_iff _).1 (by simpa using hidle)
    split
    · rename_i c cs hctrl
      have hmap := hctrl.symm.trans hs.ctrl
      cases hk : a.waiting .ctrl with
      | nil =>
        rw [hk] at hmap
        cases hmap
      | cons e es =>
        rw [hk] at hmap
        obtain ⟨rfl, rfl⟩ := List.cons.inj hmap
        have hbytes := hs.ctrlBytes
        rw [hctrl, List.map_cons, List.sum_cons] at hbytes
        obtain ⟨hshows, hsettled⟩ := hs.start hrest hk { f with
          ctrl := es.map (·.2.frame), ctrlBytes := f.ctrlBytes - e.2.frame.length
          out := f.out.queue e.2.frame } rfl (by rw [Account.start, hk]; rfl) hs.screen hs.fin
          (Nat.sub_eq_of_eq_add' hbytes)
        exact ⟨a.start .ctrl, hshows, ht.start .ctrl, hsettled⟩
    · rename_i hctrl
      split
      · rename_i s hscreen
        obtain ⟨e, hk, rfl⟩ := waiting_of_slot hs.screen hscreen
        obtain ⟨hshows, hsettled⟩ := hs.start hrest hk { f with
          screen := none, out := f.out.queue e.2.frame } rfl hs.ctrl
          (by rw [Account.start, hk]; rfl) hs.fin hs.ctrlBytes
        exact ⟨a.start .screen, hshows, ht.start .screen, hsettled⟩
      · rename_i hscreen
        split
        · rename_i b hfin
          obtain ⟨e, hk, rfl⟩ := waiting_of_slot hs.fin hfin
          obtain ⟨hshows, hsettled⟩ := hs.start hrest hk { f with
            fin := none, out := f.out.queue e.2.frame } rfl hs.ctrl hs.screen
            (by rw [Account.start, hk]; rfl) hs.ctrlBytes
          exact ⟨a.start .fin, hshows, ht.start .fin, hsettled⟩
        · rename_i hfin
          exact ⟨a, hs, ht, fun _ => ⟨hctrl, hscreen, hfin⟩⟩

/-- An event that pushes nothing changes no account. -/
theorem Account.record_of_none (a : Account) (n : ℕ) {e : Event} (he : e.kind = none) :
    a.record n e = a := by
  unfold Account.record
  rw [he]
  exact congrArg (Account.mk a.emitted) (funext fun k => List.append_nil _)

/-- What waits behind a push. -/
@[simp] theorem Account.waiting_record (a : Account) (n : ℕ) (e : Event) (k : Kind) :
    (a.record n e).waiting k = (if e.kind = some k.droppedBy then [] else a.waiting k) ++
      if e.kind = some k then [(n, e)] else [] := rfl

/-- What waits behind a start. -/
@[simp] theorem Account.waiting_start (a : Account) (k k' : Kind) :
    (a.start k).waiting k' = if k' = k then (a.waiting k).drop 1 else a.waiting k' := by
  unfold Account.start
  dsimp only
  by_cases hk : k' = k
  · rw [if_pos hk, hk, Function.update_self]
  · rw [if_neg hk, Function.update_of_ne hk]

/-- A frame that is pushed waits. -/
theorem Shows.record (hs : Shows a w f) {e : Event} (hne : e.frame ≠ []) {n : ℕ} {f' : FrameFeed}
    (hout : f'.out = f.out)
    (hctrl : f'.ctrl = ((a.record n e).waiting .ctrl).map (·.2.frame))
    (hscreen : f'.screen.toList = ((a.record n e).waiting .screen).map (·.2.frame))
    (hfin : f'.fin.toList = ((a.record n e).waiting .fin).map (·.2.frame))
    (hbytes : f'.ctrlBytes = (f'.ctrl.map List.length).sum) : Shows (a.record n e) w f' := by
  refine ⟨?_, hctrl, hscreen, hfin, hbytes, hout ▸ hs.off, fun k e' he' => ?_⟩
  · rw [FrameFeed.rest, hout]
    exact hs.stream
  · rcases List.mem_append.1 he' with he' | he'
    · split at he'
      · exact absurd he' List.not_mem_nil
      · exact hs.waiting k e' he'
    · split at he'
      · rwa [List.mem_singleton.1 he']
      · exact absurd he' List.not_mem_nil

/-- **A control frame** is started, queued or refused.  What is refused leaves no trace in
the feed, and the history says that it was. -/
theorem Shows.pushCtrl (hs : Shows a w f) (ht : a.Tracks h) (hsettled : f.Settled) {frame : Bytes}
    (hne : frame ≠ []) :
    ∃ a', Shows a' w (f.pushCtrl frame).2 ∧
      a'.Tracks (h ++ [.ctrl frame (f.pushCtrl frame).1]) ∧ (f.pushCtrl frame).2.Settled := by
  have hctrl := hs.ctrl
  have hbytes := hs.ctrlBytes
  unfold FrameFeed.pushCtrl
  dsimp only
  rw [hsettled.pump]
  split
  · rename_i hidle
    rw [Bool.and_eq_true, OutBuf.isEmpty_iff, List.isEmpty_iff] at hidle
    have hwaiting : a.waiting .ctrl = [] := List.map_eq_nil_iff.1 (hctrl.symm.trans hidle.2)
    have hrec : (a.record h.length (.ctrl frame true)).waiting .ctrl =
        [(h.length, .ctrl frame true)] := congrArg (· ++ _) hwaiting
    have hscreen : f.screen.toList =
        ((a.record h.length (.ctrl frame true)).waiting .screen).map (·.2.frame) := by
      simpa [Event.kind, Kind.droppedBy] using hs.screen
    have hfin : f.fin.toList =
        ((a.record h.length (.ctrl frame true)).waiting .fin).map (·.2.frame) := by
      simpa [Event.kind, Kind.droppedBy] using hs.fin
    have hrecord : Shows (a.record h.length (.ctrl frame true)) w
        { f with ctrl := [frame], ctrlBytes := frame.length } :=
      hs.record (e := .ctrl frame true) hne rfl (by rw [hrec]; rfl) hscreen hfin rfl
    obtain ⟨hshows, hset⟩ := hrecord.start hidle.1 hrec
      { f with out := f.out.queue frame } rfl
      (by simp [hwaiting, hidle.2, Event.kind, Kind.droppedBy])
      (by simpa using hscreen) (by simpa using hfin) hbytes
    exact ⟨_, hshows, (ht.record _).start .ctrl, hset⟩
  · rename_i hbusy
    split
    · refine ⟨a, hs, ?_, hsettled⟩
      have hrecord := ht.record (.ctrl frame false)
      rwa [a.record_of_none h.length rfl] at hrecord
    · refine ⟨a.record h.length (.ctrl frame true), hs.record (e := .ctrl frame true) hne rfl
        ?_ ?_ ?_ ?_, ht.record _, fun hrest => ?_⟩
      · simpa [Event.kind, Kind.droppedBy, Event.frame] using hctrl
      · simpa [Event.kind, Kind.droppedBy] using hs.screen
      · simpa [Event.kind, Kind.droppedBy] using hs.fin
      · simpa using hbytes
      · refine absurd ?_ hbusy
        rw [Bool.and_eq_true, OutBuf.isEmpty_iff, List.isEmpty_iff]
        exact ⟨hrest, (hsettled hrest).1⟩

/-- **The invariant of a history**: some account tracks it and is what the feed holds,
and nothing waits behind an empty stream. -/
theorem Ran.account (hran : Ran h w f) : ∃ a, Shows a w f ∧ a.Tracks h ∧ f.Settled := by
  induction hran with
  | nil =>
    exact ⟨{}, ⟨rfl, rfl, rfl, rfl, rfl, le_rfl, fun _ _ he => absurd he List.not_mem_nil⟩,
      Account.tracks_nil, fun _ => ⟨rfl, rfl, rfl⟩⟩
  | @screen h w f _ frame hne ih =>
    obtain ⟨a, hs, ht, hsettled⟩ := ih
    refine Shows.pump (hs.record (e := .screen frame) hne rfl ?_ ?_ ?_ hs.ctrlBytes) (ht.record _)
    · simpa [Event.kind, Kind.droppedBy] using hs.ctrl
    · simp [Event.kind, Kind.droppedBy, Event.frame]
    · simpa [Event.kind, Kind.droppedBy] using hs.fin
  | ctrl _ hne ih =>
    obtain ⟨a, hs, ht, hsettled⟩ := ih
    exact hs.pushCtrl ht hsettled hne
  | @fin h w f _ frame hne ih =>
    obtain ⟨a, hs, ht, hsettled⟩ := ih
    refine Shows.pump (hs.record (e := .fin frame) hne rfl ?_ ?_ ?_ rfl) (ht.record _)
    · simp [Event.kind, Kind.droppedBy]
    · simpa [Event.kind, Kind.droppedBy] using hs.screen
    · simp [Event.kind, Kind.droppedBy, Event.frame]
  | @pump h w f _ ih =>
    obtain ⟨a, hs, ht, hsettled⟩ := ih
    have hrecord := ht.record .pump
    rw [a.record_of_none h.length rfl] at hrecord
    rw [hsettled.pump]
    exact ⟨a, hs, hrecord, hsettled⟩
  | @advance h w f _ n hn ih =>
    obtain ⟨a, hs, ht, hsettled⟩ := ih
    have hrecord := ht.record (.advance n)
    rw [a.record_of_none h.length rfl] at hrecord
    refine Shows.pump (a := a)
      ⟨?_, hs.ctrl, hs.screen, hs.fin, hs.ctrlBytes, ?_, hs.waiting⟩ hrecord
    · change w ++ f.out.rest.take n ++ (f.out.advance n).rest = _
      rw [OutBuf.rest_advance, List.append_assoc, List.take_append_drop]
      exact hs.stream
    · unfold OutBuf.advance
      split <;> exact Nat.zero_le _

/-- The queue of control frames never exceeds its cap: `push_ctrl` checks it, and every
other call only takes frames away. -/
theorem Ran.ctrlCap (hran : Ran h w f) : f.ctrlBytes ≤ ctrlCap := by
  have hpump (f : FrameFeed) (hf : f.ctrlBytes ≤ FrameFeed.ctrlCap) :
      f.pump.ctrlBytes ≤ FrameFeed.ctrlCap := by
    unfold FrameFeed.pump
    split
    · exact hf
    · split
      · exact (Nat.sub_le ..).trans hf
      · split
        · exact hf
        · split <;> exact hf
  induction hran with
  | nil => exact Nat.zero_le _
  | screen _ _ ih => exact hpump _ ih
  | @ctrl _ _ f _ frame _ ih =>
    have hf := hpump f ih
    unfold FrameFeed.pushCtrl
    dsimp only
    split
    · exact hf
    · split
      · exact hf
      · rename_i hle
        exact not_lt.1 hle
  | fin _ _ _ => exact hpump _ (Nat.zero_le _)
  | pump _ ih => exact hpump _ ih
  | advance _ _ ih => exact hpump _ ih

/-- **Every frame of a feed is accounted for.**  Behind every history, what was written
and what is left of the stream are whole frames that were pushed.  Frames of a kind
are on the stream or wait in the order they were pushed, each once.  A control frame
that was taken is on the stream, or queued, or was dropped by a later final frame; a
screen is on the stream, or pending, or was replaced by a later one.  The queue counts
its bytes and keeps to its cap; nothing waits behind an empty stream; and a control
frame that is refused changes nothing. -/
theorem history_accounted (hran : Ran h w f) :
    (∃ a : Account, a.Tracks h ∧ w ++ f.rest = a.emitted.flatMap (·.2.frame) ∧
      f.ctrl = (a.waiting .ctrl).map (·.2.frame) ∧
      f.screen.toList = (a.waiting .screen).map (·.2.frame) ∧
      f.fin.toList = (a.waiting .fin).map (·.2.frame)) ∧
    f.ctrlBytes = (f.ctrl.map List.length).sum ∧ f.ctrlBytes ≤ ctrlCap ∧
    (f.rest = [] → f.ctrl = [] ∧ f.screen = none ∧ f.fin = none) ∧
    ∀ frame, (f.pushCtrl frame).1 = false → (f.pushCtrl frame).2 = f := by
  obtain ⟨a, hs, ht, hsettled⟩ := hran.account
  refine ⟨⟨a, ht, hs.stream, hs.ctrl, hs.screen, hs.fin⟩, hs.ctrlBytes, hran.ctrlCap, hsettled,
    fun frame hrefused => ?_⟩
  unfold FrameFeed.pushCtrl at hrefused ⊢
  dsimp only at hrefused ⊢
  rw [hsettled.pump] at hrefused ⊢
  split
  · rename_i hidle
    rw [if_pos hidle] at hrefused
    cases hrefused
  · rename_i hbusy
    rw [if_neg hbusy] at hrefused
    split
    · rfl
    · rename_i hfits
      rw [if_neg hfits] at hrefused
      cases hrefused

/-- The hypothesis of `history_accounted` is satisfiable: a control frame is in flight
behind its first byte, a second one was dropped by the final frame, and the first
screen by the second. -/
theorem history_accounted_hangup :
    ∃ h w f, Ran h w f ∧ w = [1] ∧ f.rest = [2] ∧ f.ctrl = [] ∧ f.screen = some [6] ∧
      f.fin = some [7] ∧ ∃ a : Account, a.Tracks h ∧
        w ++ f.rest = a.emitted.flatMap (·.2.frame) := by
  have hctrl := (@Ran.ctrl _ _ _ (@Ran.ctrl _ _ _ .nil [1, 2] (by decide)) [3, 4] (by decide))
  have hscreen := (@Ran.screen _ _ _ (@Ran.screen _ _ _ hctrl [5] (by decide)) [6] (by decide))
  have hran := (@Ran.fin _ _ _ (hscreen.advance (n := 1) (by decide)) [7] (by decide))
  obtain ⟨⟨a, ht, hstream, -⟩, -⟩ := history_accounted hran
  exact ⟨_, _, _, hran, by decide, by decide, by decide, by decide, by decide, a, ht, hstream⟩

end FrameFeed
end Quosh
