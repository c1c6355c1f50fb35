/-
# Superseded transports

`crates/quosh-server/src/transport.rs`: the handlers of one session, each in its loop
(`Handler.serve`), while others claim the transport and the owner goes on.  An action is a
claim, the start of the loop behind it, one part of the loop of a handler, or a change by
the owner, so a run of `transports` is any interleaving of them, with whatever bytes the
clients send.

What a part of the loop does to the owner is in `effects`: the inputs and resizes it puts on
the queue, and whether it asks for a hangup.  The frames of a superseded handler are not
looked at any more, but what it has taken off them before goes out all the same, since
`drain_busy` and the resize do not look at the epoch (`serve_superseded_iff`).
-/

import Quosh.Control.Machine
import Quosh.Data.Slots
import Quosh.Server.Serving

namespace Quosh

open Bytes

/-- What a handler does to the owner of its session. -/
inductive Effect where
  | input (seq : ℕ) (data : Bytes)
  | resize (cols rows : ℕ)
  | hangup
  deriving DecidableEq

/-- The effect of a command on the queue; an acknowledgement has none. -/
def OwnerMsg.effect : OwnerMsg → Option Effect
  | .input seq data => some (.input seq data)
  | .resize cols rows => some (.resize cols rows)
  | .ack _ => none

/-- What has been put on the queue of a session, and whether a hangup was asked for. -/
def effects (s s' : Session) : List Effect :=
  (s'.cmds.drop s.cmds.length).filterMap OwnerMsg.effect ++
    if s'.shutdown = true ∧ s.shutdown = false then [.hangup] else []

/-- A session, the epochs that were claimed and whose loop has not begun, the handlers in
their loops, and what has been done to the owner: by the handler of which epoch, and at
which epoch of the session. -/
structure Transports where
  session : Session
  claims : ℕ → Option ℕ := fun _ => none
  handlers : ℕ → Option Handler := fun _ => none
  done : List (ℕ × ℕ × Effect) := []

namespace Transports

/-- What can happen: a handler claims the transport, begins its loop, does a part of it, and
the owner or the registry changes the session. -/
inductive Action where
  | claim (i : ℕ)
  | begin (i : ℕ) (leftover : Bytes) (pendingResize : Option (ℕ × ℕ))
  | serve (i : ℕ) (b : Branch)
  | owner (s : Session)

/-- The owner leaves the epoch alone; the rest is always possible. -/
def Allows (w : Transports) : Action → Prop
  | .owner s => s.epoch = w.session.epoch
  | _ => True

/-- What an action does. -/
def act (w : Transports) : Action → Transports
  | .claim i =>
    { w with
      session := w.session.claimTransport
      claims := Function.update w.claims i (some w.session.claimTransport.epoch) }
  | .begin i leftover pendingResize =>
    match w.claims i with
    | none => w
    | some epoch =>
      { w with
        claims := Function.update w.claims i none
        handlers := Function.update w.handlers i
          (some { Handler.attach w.session leftover pendingResize with epoch }) }
  | .serve i b =>
    match w.handlers i with
    | none => w
    | some h =>
      let served := h.serve w.session b
      { w with
        session := served.session
        handlers := Function.update w.handlers i served.handler
        done := w.done ++
          (effects w.session served.session).map fun x => (h.epoch, w.session.epoch, x) }
  | .owner s => { w with session := s }

/-- The session and its handlers. -/
def transports : Machine Transports Action where
  Allows := Allows
  act := act

end Transports

namespace Handler

/-- What a superseded handler has to pass on does not go out: there is nothing, the session
refuses it, or the channel is closed or full. -/
def Holds (s : Session) (h : Handler) : Branch → Prop
  | .push => ∀ u, h.busyInput.head? = some u →
      u.2 = [] ∨ maxInputBytes < u.2.length ∨ s.closed = true ∨ cmdQ ≤ s.cmds.length
  | .resize => ∀ size, h.pendingResize = some size →
      validateDims size.1 size.2 = false ∨ s.closed = true ∨ cmdQ ≤ s.cmds.length
  | _ => True

variable {s : Session} {h : Handler}

/-! ### What goes on the queue -/

/-- What leaves a session as it is has no effects. -/
theorem effects_refl (s : Session) : effects s s = [] := by
  unfold effects
  rw [List.drop_length, if_neg (by simp)]
  rfl

/-- A command has its effect unless the channel is closed or full. -/
theorem effects_trySend_eq_nil_iff {msg : OwnerMsg} {x : Effect} (hx : msg.effect = some x) :
    effects s (s.trySend msg).2 = [] ↔ s.closed = true ∨ cmdQ ≤ s.cmds.length := by
  unfold Session.trySend
  split
  · rename_i hclosed
    exact ⟨fun _ => .inl hclosed, fun _ => effects_refl s⟩
  · rename_i hopen
    split
    · rename_i hfull
      exact ⟨fun _ => .inr hfull, fun _ => effects_refl s⟩
    · rename_i hroom
      constructor
      · intro hnil
        unfold effects at hnil
        rw [List.drop_left, List.filterMap_cons_some hx] at hnil
        cases hnil
      · rintro (hclosed | hfull)
        · exact absurd hclosed hopen
        · exact absurd hfull hroom

/-- An input has no effect when it is refused, or there is no room. -/
theorem effects_tryInput_eq_nil_iff (seq : ℕ) (data : Bytes) :
    effects s (s.tryInput seq data).2 = [] ↔
      data = [] ∨ maxInputBytes < data.length ∨ s.closed = true ∨ cmdQ ≤ s.cmds.length := by
  unfold Session.tryInput
  split
  · rename_i hempty
    exact ⟨fun _ => .inl hempty, fun _ => effects_refl s⟩
  · rename_i hne
    split
    · rename_i hlarge
      exact ⟨fun _ => .inr (.inl hlarge), fun _ => effects_refl s⟩
    · rename_i hsmall
      rw [or_iff_right hne, or_iff_right hsmall]
      exact effects_trySend_eq_nil_iff rfl

/-- So with a size. -/
theorem effects_tryResize_eq_nil_iff (cols rows : ℕ) :
    effects s (s.tryResize cols rows).2 = [] ↔
      validateDims cols rows = false ∨ s.closed = true ∨ cmdQ ≤ s.cmds.length := by
  unfold Session.tryResize
  split
  · rename_i hvalid
    rw [or_iff_right (by rw [hvalid]; exact Bool.true_eq_false_eq_False)]
    exact effects_trySend_eq_nil_iff rfl
  · rename_i hinvalid
    have hinvalid := Bool.eq_false_iff.2 hinvalid
    split <;> exact ⟨fun _ => .inl hinvalid, fun _ => effects_refl s⟩

/-- **A turn of `drain_busy`** has no effect iff there is no input, or none that goes out. -/
theorem effects_pushOne_eq_nil_iff : effects s (pushOne s h).2.1 = [] ↔ Holds s h .push := by
  unfold Holds
  cases hbusy : h.busyInput with
  | nil =>
    have hsame : (pushOne s h).2.1 = s := by
      unfold pushOne
      rw [hbusy]
    rw [hsame]
    refine ⟨fun _ u hu => ?_, fun _ => effects_refl s⟩
    cases hu
  | cons u rest =>
    obtain ⟨seq, data⟩ := u
    have hsession : (pushOne s h).2.1 = (s.tryInput seq data).2 := by
      unfold pushOne
      rw [hbusy]
      dsimp only
      split <;> (rename_i htry; rw [htry])
    rw [hsession, effects_tryInput_eq_nil_iff]
    constructor
    · rintro hrefused u hu
      obtain rfl := Option.some.inj hu
      exact hrefused
    · intro hrefused
      exact hrefused (seq, data) rfl

/-- **Passing on a resize** has no effect iff there is none, or none that goes out: its size
is not a valid one, or the channel is closed or full. -/
theorem effects_tryPendingResize_eq_nil_iff :
    effects s (tryPendingResize s h).1 = [] ↔ Holds s h .resize := by
  unfold Holds
  cases hpending : h.pendingResize with
  | none =>
    have hsame : (tryPendingResize s h).1 = s := by
      unfold tryPendingResize
      rw [hpending]
    rw [hsame]
    refine ⟨fun _ size hsize => ?_, fun _ => effects_refl s⟩
    cases hsize
  | some size =>
    obtain ⟨cols, rows⟩ := size
    have hsession : (tryPendingResize s h).1 = (s.tryResize cols rows).2 := by
      unfold tryPendingResize
      rw [hpending]
      dsimp only
      split <;> (rename_i htry; rw [htry])
    rw [hsession, effects_tryResize_eq_nil_iff]
    constructor
    · rintro hrefused size hsize
      obtain rfl := Option.some.inj hsize
      exact hrefused
    · intro hrefused
      exact hrefused (cols, rows) rfl

/-! ### What a superseded handler does -/

/-- **A superseded handler does nothing to the owner** in a part of its loop, exactly when
it has nothing to pass on that goes out. -/
theorem serve_superseded_iff (hepoch : s.epoch ≠ h.epoch) (b : Branch) :
    effects s (h.serve s b).session = [] ↔ Holds s h b := by
  cases b with
  | drain =>
    have hnone : drainOne s h busyCap = .ok none := if_pos hepoch
    rw [serve, hnone]
    exact ⟨fun _ => trivial, fun _ => effects_refl s⟩
  | push => exact effects_pushOne_eq_nil_iff
  | resize => exact effects_tryPendingResize_eq_nil_iff
  | latest maxDatagram =>
    have hsame : (h.serve s (.latest maxDatagram)).session = s := by
      rw [serve]
      split <;> rfl
    rw [hsame]
    exact ⟨fun _ => trivial, fun _ => effects_refl s⟩
  | resync =>
    have hsame : (h.serve s .resync).session = s := by
      rw [serve]
      split
      · rfl
      · split <;> rfl
    rw [hsame]
    exact ⟨fun _ => trivial, fun _ => effects_refl s⟩
  | _ => exact ⟨fun _ => trivial, fun _ => effects_refl s⟩

end Handler

namespace Transports

variable {w : Transports}

/-- A superseded handler passes nothing on. -/
def Holds (w : Transports) : Action → Prop
  | .serve i b => ∀ h, w.handlers i = some h → h.epoch < w.session.epoch → h.Holds w.session b
  | _ => True

/-- A part of the loop that holds back what it should adds no late effect. -/
theorem done_serve {i : ℕ} {b : Branch} (hok : Holds w (.serve i b))
    (hdone : ∀ x ∈ w.done, x.2.1 ≤ x.1) : ∀ x ∈ (w.act (.serve i b)).done, x.2.1 ≤ x.1 := by
  unfold Transports.act
  dsimp only
  cases hi : w.handlers i with
  | none => exact hdone
  | some h =>
    intro x hx
    rcases List.mem_append.1 hx with hx | hx
    · exact hdone x hx
    · by_cases hlate : h.epoch < w.session.epoch
      · have hnil := (Handler.serve_superseded_iff hlate.ne' b).2 (hok h hi hlate)
        rw [hnil] at hx
        cases hx
      · obtain ⟨y, -, rfl⟩ := List.mem_map.1 hx
        exact not_lt.1 hlate

/-- **A superseded transport has no effect** in a run where superseded handlers have nothing
to pass on that goes out: every effect was by the handler of an epoch that no claim had
overtaken.  And a part of the loop of a superseded handler has no effect exactly then. -/
theorem superseded_no_effect {s : Session}
    (hrun : transports.Run Holds { session := s } w) :
    (∀ x ∈ w.done, x.2.1 ≤ x.1) ∧
    ∀ (h : Handler) (b : Branch), h.epoch < w.session.epoch →
      (effects w.session (h.serve w.session b).session = [] ↔ h.Holds w.session b) := by
  constructor
  · refine hrun.invariant (I := fun w => ∀ x ∈ w.done, x.2.1 ≤ x.1) (fun x hx => nomatch hx) ?_
    intro w a _ hw _ hok
    cases a with
    | serve i b => exact done_serve hok hw
    | claim i => exact hw
    | owner s => exact hw
    | begin i leftover pendingResize =>
      change ∀ x ∈ (w.act (.begin i leftover pendingResize)).done, x.2.1 ≤ x.1
      unfold Transports.act
      dsimp only
      split <;> exact hw
  · intro h b hlate
    exact Handler.serve_superseded_iff hlate.ne' b

/-- A handler attaches, and a second one after the first has passed its size on. -/
def replaced : List Action :=
  [.claim 0, .begin 0 [] (some (100, 30)), .serve 0 .drain, .serve 0 .push, .serve 0 .resize,
    .claim 1, .begin 1 [] (some (80, 24)), .serve 0 .epoch, .serve 1 .drain, .serve 1 .push,
    .serve 1 .resize]

/-- The hypotheses of `superseded_no_effect` are satisfiable: each of two handlers passes its
size on while it is the newest. -/
theorem superseded_no_effect_replaced :
    (transports.acts { session := newSession 80 24 } replaced).done ≠ [] ∧
    ∀ x ∈ (transports.acts { session := newSession 80 24 } replaced).done, x.2.1 ≤ x.1 := by
  have hall : transports.AllowsAll Holds { session := newSession 80 24 } replaced := by
    refine ⟨trivial, trivial, trivial, trivial, trivial, ?_, trivial, ?_, trivial, ?_,
      trivial, trivial, trivial, trivial, trivial, ?_, trivial, ?_, trivial, ?_, trivial, ?_,
      trivial⟩ <;>
    · intro h hh hlate
      obtain rfl := Option.some.inj hh
      first
        | exact trivial
        | exact absurd hlate (by decide)
  exact ⟨by decide +kernel, (superseded_no_effect (Machine.run_acts hall)).1⟩

/-- A second handler claims the transport while the first is about to pass its size on. -/
def lateResize : List Action :=
  [.claim 0, .begin 0 [] (some (100, 30)), .serve 0 .drain, .serve 0 .push,
    .claim 1, .begin 1 [] (some (80, 24)), .serve 1 .drain, .serve 1 .push, .serve 1 .resize,
    .serve 0 .resize]

/-- **The size of a superseded client goes out**, behind that of the client that replaced
it. -/
theorem late_resize_goes_out :
    ¬∀ (s : Session) (w : Transports), transports.AnyRun { session := s } w →
      ∀ x ∈ w.done, x.2.1 ≤ x.1 := by
  intro h
  have hrun : transports.AnyRun { session := newSession 80 24 }
      (transports.acts { session := newSession 80 24 } lateResize) :=
    Machine.run_acts (by repeat' constructor)
  have hle := h _ _ hrun (1, 2, .resize 100 30) (.tail _ (.head _))
  exact absurd hle (by decide)

end Transports
end Quosh
