/-
# Who is attached

`crates/quosh-server/src/session.rs` and the end of `handle_incoming` in `transport.rs`: how
a handler takes over a session (`claim_transport`), watches for the next one
(`subscribe_epoch`, `changed`) and leaves (`detach_if_epoch`).  Each access to what the
handlers share is a turn of its own, so a run of `attach` is any interleaving of any number
of handlers.  A `create` of the helper that kills idle sessions looks at the session in one
turn and removes it in a later one.

The counter and the watch are two cells, and so are the counter and the time of the last
detach.  An older claim that writes the watch after the newest has evicts the newest
(`late_write_evicts`), and an older handler that stores its time after a newer one has
attached makes a live session look idle (`late_store_kills`); in runs without such turns
neither happens (`newest_never_evicted`, `attached_never_idle`).
-/

import Quosh.Control.Machine
import Quosh.Server.Session

namespace Quosh

open Bytes

/-- `IDLE_SECS`. -/
def idleSecs : ℕ := 7 * 24 * 60 * 60

/-- What the handlers of a session share: the counter, the watch with the number of writes
to it, and the time of the last detach, in milliseconds. -/
structure Cells where
  epoch : ℕ := 0
  watch : ℕ := 0
  version : ℕ := 0
  lastDetach : Option ℕ
  deriving DecidableEq

/-- Where a handler is. -/
inductive Standing where
  | arriving
  | counted (epoch : ℕ)
  | watched (epoch : ℕ)
  | claimed (epoch : ℕ)
  | attached (epoch seen : ℕ)
  | leaving (epoch : ℕ)
  | detaching (epoch : ℕ)
  | gone
  deriving DecidableEq

/-- What a handler does next: the three accesses of `claim_transport`, `subscribe_epoch`, a
look at the watch or another reason to leave `run_transport`, and the two accesses of
`detach_if_epoch`. -/
inductive Turn where
  | fetchAdd
  | sendReplace
  | clearDetach
  | subscribe
  | changed
  | leave
  | loadEpoch
  | storeDetach (now : ℕ)
  deriving DecidableEq

namespace Cells

/-- A turn of a handler.  What it is not the turn for does nothing. -/
def step (c : Cells) : Standing → Turn → Cells × Standing
  | .arriving, .fetchAdd => ({ c with epoch := c.epoch + 1 }, .counted (c.epoch + 1))
  | .counted e, .sendReplace => ({ c with watch := e, version := c.version + 1 }, .watched e)
  | .watched e, .clearDetach => ({ c with lastDetach := none }, .claimed e)
  | .claimed e, .subscribe => (c, .attached e c.version)
  | .attached e seen, .changed =>
    if c.version = seen then (c, .attached e seen)
    else if c.watch ≠ e then (c, .leaving e)
    else (c, .attached e c.version)
  | .attached e _, .leave => (c, .leaving e)
  | .leaving e, .loadEpoch => (c, if c.epoch = e then .detaching e else .gone)
  | .detaching _, .storeDetach now => ({ c with lastDetach := some now }, .gone)
  | st, _ => (c, st)

/-- `detached_secs`. -/
def detachedSecs (c : Cells) (now : ℕ) : Option ℕ := c.lastDetach.map fun t => (now - t) / 1000

/-- How long a session has been idle, if that is long. -/
def idle (c : Cells) (now : ℕ) : Option ℕ := (c.detachedSecs now).filter fun secs => idleSecs ≤ secs

end Cells

/-- A session of the registry, as `collect_idle` sees it. -/
structure Listed where
  id : FixedBytes 16
  uid : ℕ
  cells : Cells

/-- `collect_idle`. -/
def collectIdle (g : List Listed) (uid now : ℕ) : List (FixedBytes 16 × ℕ) :=
  (g.filter fun s => s.uid = uid).filterMap fun s => (s.cells.idle now).map fun secs => (s.id, secs)

/-- A session, its handlers, and the calls of `create` that have found it idle and are to
remove it. -/
structure Attach where
  cells : Cells
  standing : ℕ → Standing := fun _ => .arriving
  drop : ℕ → Bool := fun _ => false
  removed : Bool := false

namespace Attach

/-- What can happen: a turn of a handler, and the two parts of a `create`. -/
inductive Action where
  | turn (i : ℕ) (t : Turn)
  | findIdle (k : ℕ) (killIdle : Bool) (now : ℕ)
  | dropIdle (k : ℕ)

/-- What an action does. -/
def act (w : Attach) : Action → Attach
  | .turn i t =>
    let (cells, st) := w.cells.step (w.standing i) t
    { w with cells, standing := Function.update w.standing i st }
  | .findIdle k killIdle now =>
    { w with drop := Function.update w.drop k (killIdle && (w.cells.idle now).isSome) }
  | .dropIdle k =>
    { w with removed := w.removed || w.drop k, drop := Function.update w.drop k false }

/-- A session and all that comes to it. -/
def attach : Machine Attach Action where
  Allows _ _ := True
  act := act

/-- A session as `spawn_pair` leaves it. -/
def spawned (now : ℕ) : Attach := { cells := { lastDetach := some now } }

end Attach

/-- The epoch that a handler holds. -/
def Standing.epoch : Standing → Option ℕ
  | arriving | gone => none
  | counted e | watched e | claimed e | leaving e | detaching e => some e
  | attached e _ => some e

/-- Whether a handler holds an epoch, has finished `claim_transport` and has not started
`detach_if_epoch`. -/
def Standing.live (epoch : ℕ) : Standing → Prop
  | claimed e | leaving e => e = epoch
  | attached e _ => e = epoch
  | _ => False

namespace Attach

variable {w w' : Attach}

/-- A handler that holds the current epoch has attached. -/
def Live (w : Attach) (i : ℕ) : Prop := (w.standing i).live w.cells.epoch

/-! ### Epochs -/

/-- **The epoch of a handler** stays its own, unless it draws the next one or has gone. -/
theorem step_epoch (c : Cells) (st : Standing) (t : Turn) :
    ((c.step st t).2.epoch = st.epoch ∧ (c.step st t).1.epoch = c.epoch) ∨
      ((c.step st t).2 = .counted (c.epoch + 1) ∧ (c.step st t).1.epoch = c.epoch + 1) ∨
      ((c.step st t).2 = .gone ∧ (c.step st t).1.epoch = c.epoch) := by
  fun_cases Cells.step c st t with
  | case1 => exact .inr (.inl ⟨rfl, rfl⟩)
  | case9 e =>
    dsimp only
    split
    · exact .inl ⟨rfl, rfl⟩
    · exact .inr (.inr ⟨rfl, rfl⟩)
  | case10 => exact .inr (.inr ⟨rfl, rfl⟩)
  | _ => exact .inl ⟨rfl, rfl⟩

/-- Every handler holds an epoch that was drawn, and no two hold the same. -/
structure Sound (w : Attach) : Prop where
  le : ∀ i e, (w.standing i).epoch = some e → e ≤ w.cells.epoch
  unique : ∀ i j e, (w.standing i).epoch = some e → (w.standing j).epoch = some e → j = i

/-- A new session is sound. -/
theorem sound_spawned (now : ℕ) : Sound (spawned now) :=
  ⟨fun _ _ h => (nomatch h), fun _ _ _ h => nomatch h⟩

/-- After a turn a handler holds what it held, or the epoch it has just drawn. -/
theorem epoch_turn (w : Attach) (i : ℕ) (t : Turn) {j e : ℕ}
    (h : ((w.act (.turn i t)).standing j).epoch = some e) :
    (w.standing j).epoch = some e ∨
      (j = i ∧ e = w.cells.epoch + 1 ∧ (w.act (.turn i t)).cells.epoch = w.cells.epoch + 1) := by
  by_cases hj : j = i
  · subst hj
    have hself : (w.act (.turn j t)).standing j = (w.cells.step (w.standing j) t).2 :=
      Function.update_self ..
    rw [hself] at h
    rcases step_epoch w.cells (w.standing j) t with ⟨hsame, -⟩ | ⟨hdrawn, hepoch⟩ | ⟨hgone, -⟩
    · exact .inl (hsame.symm.trans h)
    · rw [hdrawn] at h
      exact .inr ⟨rfl, (Option.some.inj h).symm, hepoch⟩
    · rw [hgone] at h
      cases h
  · have hother : (w.act (.turn i t)).standing j = w.standing j := Function.update_of_ne hj ..
    exact .inl (hother ▸ h)

/-- The counter never falls. -/
theorem epoch_le_turn (w : Attach) (i : ℕ) (t : Turn) :
    w.cells.epoch ≤ (w.act (.turn i t)).cells.epoch := by
  rcases step_epoch w.cells (w.standing i) t with ⟨-, h⟩ | ⟨-, h⟩ | ⟨-, h⟩
  · exact h.ge
  · exact (Nat.le_succ _).trans h.ge
  · exact h.ge

/-- **Every action keeps the counters.** -/
theorem Sound.act (h : Sound w) (a : Action) : Sound (w.act a) := by
  cases a with
  | findIdle k killIdle now => exact ⟨h.le, h.unique⟩
  | dropIdle k => exact ⟨h.le, h.unique⟩
  | turn i t =>
    have hmono := epoch_le_turn w i t
    constructor
    · intro j e hj
      rcases epoch_turn w i t hj with hj | ⟨-, rfl, hepoch⟩
      · exact (h.le j e hj).trans hmono
      · exact hepoch.ge
    · intro j k e hj hk
      rcases epoch_turn w i t hj with hj | ⟨hji, he, -⟩ <;>
        rcases epoch_turn w i t hk with hk | ⟨hki, he', -⟩
      · exact h.unique j k e hj hk
      · have hle := h.le j e hj
        omega
      · have hle := h.le k e hk
        omega
      · exact hki.trans hji.symm

/-! ### The newest transport -/

/-- No older claim writes the watch once the newest claim has. -/
def InOrder (w : Attach) : Action → Prop
  | .turn i .sendReplace => ∀ e, w.standing i = .counted e →
      e = w.cells.epoch ∨ w.cells.watch ≠ w.cells.epoch
  | _ => True

/-- The watch has the newest epoch, or is yet to be written by the handler that drew it. -/
def Announced (w : Attach) : Prop :=
  w.cells.watch = w.cells.epoch ∨ ∃ i, w.standing i = .counted w.cells.epoch

/-- **What a turn writes to the watch**: the epoch of a claim that is at it, and nothing
otherwise. -/
theorem step_watch (c : Cells) (st : Standing) (t : Turn) :
    (∃ e, st = .counted e ∧ t = .sendReplace ∧
        c.step st t = ({ c with watch := e, version := c.version + 1 }, .watched e)) ∨
      ((c.step st t).1.watch = c.watch ∧
        (∀ e, st = .counted e → (c.step st t).2 = .counted e)) := by
  fun_cases Cells.step c st t with
  | case2 e => exact .inl ⟨e, rfl, rfl, rfl⟩
  | case11 st t _ _ _ _ _ _ _ _ => exact .inr ⟨rfl, fun e he => he⟩
  | _ => exact .inr ⟨rfl, fun _ he => nomatch he⟩

/-- A turn that is in order keeps the newest epoch announced.  Whoever draws an epoch has it
still to announce; whoever announces an older one does so while the watch is behind anyway. -/
theorem Announced.turn (h : Announced w) (i : ℕ) (t : Turn) (hok : InOrder w (.turn i t)) :
    Announced (w.act (.turn i t)) := by
  have hself : (w.act (.turn i t)).standing i = (w.cells.step (w.standing i) t).2 :=
    Function.update_self ..
  have hother : ∀ k, k ≠ i → (w.act (.turn i t)).standing k = w.standing k :=
    fun k hk => Function.update_of_ne hk ..
  have hsame : (w.act (.turn i t)).cells.epoch = w.cells.epoch ∨
      (w.act (.turn i t)).standing i = .counted (w.act (.turn i t)).cells.epoch := by
    rw [hself]
    rcases step_epoch w.cells (w.standing i) t with ⟨-, hepoch⟩ | ⟨hdrawn, hepoch⟩ | ⟨-, hepoch⟩
    · exact .inl hepoch
    · exact .inr (hdrawn.trans (congrArg Standing.counted hepoch.symm))
    · exact .inl hepoch
  rcases hsame with hepoch | hdrawn
  · unfold Announced
    rw [hepoch]
    rcases step_watch w.cells (w.standing i) t with ⟨e, hstanding, rfl, hstep⟩ | ⟨hwatch, hkeep⟩
    · have hwatch : (w.act (.turn i .sendReplace)).cells.watch = e :=
        congrArg (fun r => r.1.watch) hstep
      by_cases he : e = w.cells.epoch
      · exact .inl (hwatch.trans he)
      · have hbehind := (hok e hstanding).resolve_left he
        obtain ⟨k, hk⟩ := h.resolve_left hbehind
        refine .inr ⟨k, (hother k ?_).trans hk⟩
        rintro rfl
        exact he (Standing.counted.inj (hstanding.symm.trans hk))
    · rcases h with h | ⟨k, hk⟩
      · exact .inl (hwatch.trans h)
      · refine .inr ⟨k, ?_⟩
        by_cases hki : k = i
        · subst hki
          exact hself.trans (hkeep _ hk)
        · exact (hother k hki).trans hk
  · exact .inr ⟨i, hdrawn⟩

/-- **An action in order keeps what is announced.** -/
theorem Announced.act (h : Announced w) {a : Action} (hok : InOrder w a) :
    Announced (w.act a) := by
  cases a with
  | findIdle k killIdle now => exact h
  | dropIdle k => exact h
  | turn i t => exact h.turn i t hok

/-- **The newest transport is never evicted** in a run where no older claim writes the watch
after the newest has: its handler reads its own epoch whenever the watch has changed, and
the watch has the greatest epoch once every claim is through. -/
theorem newest_never_evicted {now : ℕ} (h : attach.Run InOrder (spawned now) w) :
    (∀ i seen, w.standing i = .attached w.cells.epoch seen → w.cells.version ≠ seen →
      w.cells.watch = w.cells.epoch) ∧
    ((∀ i e, w.standing i ≠ .counted e ∧ w.standing i ≠ .watched e) →
      w.cells.watch = w.cells.epoch) := by
  have hinv : Sound w ∧ Announced w := by
    refine h.invariant (I := fun w => Sound w ∧ Announced w) ⟨sound_spawned now, .inl rfl⟩ ?_
    intro w a _ hw _ hok
    exact ⟨hw.1.act a, hw.2.act hok⟩
  obtain ⟨hsound, hannounced⟩ := hinv
  constructor
  · intro i seen hi _
    refine hannounced.resolve_right ?_
    rintro ⟨k, hk⟩
    have hepoch : (w.standing i).epoch = some w.cells.epoch := by rw [hi]; rfl
    have hepoch' : (w.standing k).epoch = some w.cells.epoch := by rw [hk]; rfl
    obtain rfl := hsound.unique i k _ hepoch hepoch'
    exact nomatch hi.symm.trans hk
  · intro hdone
    refine hannounced.resolve_right ?_
    rintro ⟨k, hk⟩
    exact (hdone k _).1 hk

/-- The turns of a claim, and the subscription behind it. -/
def arrive (i : ℕ) : List Action :=
  [.turn i .fetchAdd, .turn i .sendReplace, .turn i .clearDetach, .turn i .subscribe]

/-- **A handler that nobody comes in between** attaches as `claimTransport` says: it holds
the next epoch, which is also in the watch, and the session is not detached. -/
theorem arrive_eq_claimTransport {i : ℕ} (hi : w.standing i = .arriving) {s : Session}
    (hs : s.epoch = w.cells.epoch) :
    (attach.acts w (arrive i)).cells =
        { epoch := s.claimTransport.epoch, watch := s.claimTransport.epoch
          version := w.cells.version + 1, lastDetach := none } ∧
      (attach.acts w (arrive i)).standing i =
        .attached s.claimTransport.epoch (w.cells.version + 1) := by
  have hepoch : s.claimTransport.epoch = w.cells.epoch + 1 := congrArg (· + 1) hs
  rw [hepoch]
  simp only [Machine.acts, arrive, attach, List.foldl_cons, List.foldl_nil, Attach.act, hi,
    Cells.step, Function.update_self, and_self]

/-- The hypotheses of `newest_never_evicted` are satisfiable: a second handler replaces the
first. -/
theorem newest_never_evicted_replaced :
    let w := attach.acts (spawned 0) (arrive 0 ++ arrive 1)
    (∀ i seen, w.standing i = .attached w.cells.epoch seen → w.cells.version ≠ seen →
      w.cells.watch = w.cells.epoch) ∧
    ((∀ i e, w.standing i ≠ .counted e ∧ w.standing i ≠ .watched e) →
      w.cells.watch = w.cells.epoch) :=
  newest_never_evicted (Machine.run_acts
    ⟨trivial, trivial, trivial, fun _ he => .inl (Standing.counted.inj he).symm,
      trivial, trivial, trivial, trivial,
      trivial, trivial, trivial, fun _ he => .inl (Standing.counted.inj he).symm,
      trivial, trivial, trivial, trivial, trivial⟩)

/-- Two claims overlap: the first to draw its epoch is the last to write the watch. -/
def overlapping : List Action :=
  .turn 0 .fetchAdd :: arrive 1 ++ [.turn 0 .sendReplace, .turn 0 .clearDetach]

/-- **An older claim that writes late evicts the newest transport**: it reads epoch 1 from
the watch, which stays there. -/
theorem late_write_evicts :
    ¬∀ (now : ℕ) (w : Attach), attach.AnyRun (spawned now) w →
      (∀ i seen, w.standing i = .attached w.cells.epoch seen → w.cells.version ≠ seen →
        w.cells.watch = w.cells.epoch) ∧
      ((∀ i e, w.standing i ≠ .counted e ∧ w.standing i ≠ .watched e) →
        w.cells.watch = w.cells.epoch) := by
  intro h
  have hrun : attach.AnyRun (spawned 0) (attach.acts (spawned 0) overlapping) :=
    Machine.run_acts (by repeat' constructor)
  have hwatch := (h 0 _ hrun).1 1 1 rfl (by decide)
  exact absurd hwatch (by decide)

/-! ### Idle sessions -/

/-- No older handler stores its time once the newest has attached, and no claim finishes
between the two parts of a `create` that removes the session. -/
def Timely (w : Attach) : Action → Prop
  | .turn i (.storeDetach _) => ∀ e, w.standing i = .detaching e → e ≠ w.cells.epoch →
      ∀ j, ¬w.Live j
  | .turn i .clearDetach => w.standing i = .watched w.cells.epoch → ∀ k, w.drop k = false
  | _ => True

/-- A session with a live transport has no time of a detach, and no `create` is to remove
it. -/
structure Attended (w : Attach) : Prop where
  lastDetach : ∀ i, w.Live i → w.cells.lastDetach = none
  drop : ∀ k, w.drop k = true → ∀ i, ¬w.Live i

/-- A handler that is live has an epoch. -/
theorem epoch_of_live {st : Standing} {e : ℕ} (h : st.live e) : st.epoch = some e := by
  cases st with
  | claimed e' => exact congrArg some h
  | attached e' seen => exact congrArg some h
  | leaving e' => exact congrArg some h
  | _ => exact h.elim

/-- **How a handler becomes live**: it was, or it finishes the newest claim. -/
theorem step_live {c : Cells} {st : Standing} {t : Turn}
    (h : (c.step st t).2.live (c.step st t).1.epoch) :
    st.live c.epoch ∨ (st = .watched c.epoch ∧ t = .clearDetach) := by
  revert h
  fun_cases Cells.step c st t with
  | case1 => exact fun h => h.elim
  | case2 e => exact fun h => h.elim
  | case3 e => exact fun h => .inr ⟨congrArg Standing.watched h, rfl⟩
  | case9 e =>
    dsimp only
    split
    · exact fun h => h.elim
    · exact fun h => h.elim
  | case10 => exact fun h => h.elim
  | _ => exact fun h => .inl h

/-- **What a turn makes of the time of the last detach.** -/
theorem step_lastDetach (c : Cells) (st : Standing) (t : Turn) :
    (c.step st t).1.lastDetach = c.lastDetach ∨ (c.step st t).1.lastDetach = none ∨
      ∃ e now, st = .detaching e ∧ t = .storeDetach now := by
  fun_cases Cells.step c st t with
  | case3 e => exact .inr (.inl rfl)
  | case10 e now => exact .inr (.inr ⟨e, now, rfl, rfl⟩)
  | _ => exact .inl rfl

/-- A live handler was live before the turn, or it is the newest and its claim is through. -/
theorem live_turn (h : Sound w) {i : ℕ} {t : Turn} {j : ℕ} (hj : (w.act (.turn i t)).Live j) :
    w.Live j ∨ (j = i ∧ w.standing i = .watched w.cells.epoch ∧ t = .clearDetach) := by
  by_cases hji : j = i
  · subst hji
    have hself : (w.act (.turn j t)).standing j = (w.cells.step (w.standing j) t).2 :=
      Function.update_self ..
    unfold Live at hj
    rw [hself] at hj
    rcases step_live hj with hlive | hnew
    · exact .inl hlive
    · exact .inr ⟨rfl, hnew⟩
  · left
    have hother : (w.act (.turn i t)).standing j = w.standing j := Function.update_of_ne hji ..
    unfold Live at hj
    rw [hother] at hj
    have hmono := epoch_le_turn w i t
    have hle := h.le j _ (epoch_of_live hj)
    have hepoch : (w.act (.turn i t)).cells.epoch = w.cells.epoch := by omega
    rwa [hepoch] at hj

/-- A turn of a handler that is timely.  A detach that is written by a handler of an older
epoch comes, if it is timely, when nobody is attached, and one of the newest is of that
handler itself. -/
theorem Attended.turn (h : Attended w) (hs : Sound w) (i : ℕ) (t : Turn)
    (hok : Timely w (.turn i t)) : Attended (w.act (.turn i t)) := by
  constructor
  · intro j hj
    rcases live_turn hs hj with hlive | ⟨-, hwatched, rfl⟩
    · have hnone := h.lastDetach j hlive
      rcases step_lastDetach w.cells (w.standing i) t with hsame | hclear | ⟨e, now, hi, rfl⟩
      · exact hsame.trans hnone
      · exact hclear
      · by_cases he : e = w.cells.epoch
        · subst he
          have hepoch : (w.standing i).epoch = some w.cells.epoch := by rw [hi]; rfl
          obtain rfl := hs.unique j i _ (epoch_of_live hlive) hepoch
          unfold Live at hlive
          rw [hi] at hlive
          exact hlive.elim
        · exact absurd hlive (hok e hi he j)
    · change (w.cells.step (w.standing i) .clearDetach).1.lastDetach = none
      rw [hwatched]
      rfl
  · intro k hk j hj
    have hk : w.drop k = true := hk
    rcases live_turn hs hj with hlive | ⟨-, hwatched, rfl⟩
    · exact h.drop k hk j hlive
    · exact Bool.false_ne_true ((hok hwatched k).symm.trans hk)

/-- What is idle has a time of a detach. -/
theorem lastDetach_ne_none_of_idle {c : Cells} {now secs : ℕ} (h : c.idle now = some secs) :
    c.lastDetach ≠ none := by
  intro hnone
  unfold Cells.idle Cells.detachedSecs at h
  rw [hnone] at h
  cases h

/-- **An action that is timely keeps the session attended.** -/
theorem Attended.act (h : Attended w) (hs : Sound w) {a : Action} (hok : Timely w a) :
    Attended (w.act a) := by
  cases a with
  | turn i t => exact h.turn hs i t hok
  | findIdle k killIdle now =>
    refine ⟨h.lastDetach, fun k' hk' j hj => ?_⟩
    have hlive : w.Live j := hj
    by_cases hkk : k' = k
    · subst hkk
      have hidle : (killIdle && (w.cells.idle now).isSome) = true :=
        (Function.update_self ..).symm.trans hk'
      obtain ⟨secs, hsecs⟩ := Option.isSome_iff_exists.1 (Bool.and_eq_true_iff.1 hidle).2
      exact lastDetach_ne_none_of_idle hsecs (h.lastDetach j hlive)
    · have hold : w.drop k' = true := (Function.update_of_ne hkk ..).symm.trans hk'
      exact h.drop k' hold j hlive
  | dropIdle k =>
    refine ⟨h.lastDetach, fun k' hk' j hj => ?_⟩
    by_cases hkk : k' = k
    · subst hkk
      exact nomatch (Function.update_self ..).symm.trans hk'
    · have hold : w.drop k' = true := (Function.update_of_ne hkk ..).symm.trans hk'
      exact h.drop k' hold j hj

/-- **An attached session is never idle** in a run where no older handler stores its time
late: it has no time of a detach, `collect_idle` does not list it at any time, and no
`create` is to remove it. -/
theorem attached_never_idle {start : ℕ} (h : attach.Run Timely (spawned start) w) (i : ℕ)
    (hi : w.Live i) :
    w.cells.lastDetach = none ∧
    (∀ (g : List Listed) (id : FixedBytes 16), (∀ s ∈ g, s.id = id → s.cells = w.cells) →
      ∀ uid now secs, (id, secs) ∉ collectIdle g uid now) ∧
    ∀ k, w.drop k = false := by
  have hinv : Sound w ∧ Attended w := by
    refine h.invariant (I := fun w => Sound w ∧ Attended w)
      ⟨sound_spawned start, fun _ hi => hi.elim, fun _ hk => nomatch hk⟩ ?_
    intro w a _ hw _ hok
    exact ⟨hw.1.act a, hw.2.act hw.1 hok⟩
  obtain ⟨-, hattended⟩ := hinv
  have hnone := hattended.lastDetach i hi
  refine ⟨hnone, fun g id hg uid now secs hmem => ?_, fun k => ?_⟩
  · obtain ⟨s, hs, hidle⟩ := List.mem_filterMap.1 hmem
    obtain ⟨secs', hsecs, heq⟩ := Option.map_eq_some_iff.1 hidle
    have hcells := hg s (List.mem_filter.1 hs).1 (congrArg Prod.fst heq)
    rw [hcells] at hsecs
    exact lastDetach_ne_none_of_idle hsecs hnone
  · cases hk : w.drop k with
    | false => rfl
    | true => exact absurd hi (hattended.drop k hk i)

/-- The turns of a handler that leaves. -/
def depart (i now : ℕ) : List Action :=
  [.turn i .leave, .turn i .loadEpoch, .turn i (.storeDetach now)]

/-- The hypotheses of `attached_never_idle` are satisfiable: a client comes back ten seconds
after it has left. -/
theorem attached_never_idle_comesBack :
    (attach.acts (spawned 0) (arrive 0 ++ depart 0 5000 ++ arrive 1)).cells.lastDetach = none := by
  have hall : attach.AllowsAll Timely (spawned 0) (arrive 0 ++ depart 0 5000 ++ arrive 1) :=
    ⟨trivial, trivial, trivial, trivial, trivial, fun _ _ => rfl, trivial, trivial,
      trivial, trivial, trivial, trivial, trivial,
      fun _ he hne => absurd (Standing.detaching.inj he).symm hne,
      trivial, trivial, trivial, trivial, trivial, fun _ _ => rfl, trivial, trivial, trivial⟩
  exact (attached_never_idle (Machine.run_acts hall) 1 rfl).1

/-- A client comes back between the two accesses of `detach_if_epoch`. -/
def lateStore : List Action :=
  arrive 0 ++ [.turn 0 .leave, .turn 0 .loadEpoch] ++ arrive 1 ++ [.turn 0 (.storeDetach 1000)]

/-- **An older handler that stores its time late makes a live session look idle**: it is
listed after seven days, though its transport is still attached. -/
theorem late_store_kills :
    ¬∀ (start : ℕ) (w : Attach), attach.AnyRun (spawned start) w → ∀ i, w.Live i →
      w.cells.lastDetach = none ∧
      (∀ (g : List Listed) (id : FixedBytes 16), (∀ s ∈ g, s.id = id → s.cells = w.cells) →
        ∀ uid now secs, (id, secs) ∉ collectIdle g uid now) ∧
      ∀ k, w.drop k = false := by
  intro h
  have hrun : attach.AnyRun (spawned 0) (attach.acts (spawned 0) lateStore) :=
    Machine.run_acts (by repeat' constructor)
  have hnone := (h 0 _ hrun 1 rfl).1
  exact absurd hnone (by decide)

end Attach
end Quosh
