/-
# Handing over what is typed

`crates/quosh-cli/src/main.rs`: `TtyWriter`, through which the thread that reads the terminal
hands its bytes to the main loop.  What the bounded channel does not take waits in `pending`.
The loop takes messages between any two accesses of the channel, so a call is a position of the
thread (`At`), and each turn one access: a round of `flush`, the check of `send`, a message of
`quit`.

`send` puts its bytes behind those that wait, and `quit` does not: its bytes go to the channel
at once, and if there is room they overtake what waits (`quit_overtakes`).  Where nothing waits
when the bytes of `quit` are taken, what is delivered has no holes (`no_holes`).
-/

import Quosh.Bytes.Reader
import Quosh.Control.Channel
import Quosh.Control.Machine

namespace Quosh

/-- `CtrlEvent`. -/
inductive CtrlEvent where
  | eof
  | winch
  | interrupt
  | hangup
  | overflow
  | failed (error : String)

/-- `TTY_PENDING_CAP`. -/
def ttyPendingCap : ℕ := 64 * 1024

/-- `TtyWriter`, without its channels. -/
structure TtyWriter where
  pending : List Bytes := []
  pendingBytes : ℕ := 0

/-- A round of `flush`, and whether there is another one. -/
def TtyWriter.flushRound (w : TtyWriter) (bytes : Channel Bytes) :
    Bool × TtyWriter × Channel Bytes :=
  match w.pending with
  | [] => (false, w, bytes)
  | front :: pending =>
    match bytes.trySend front with
    | (.sent, bytes) =>
      (true, { pending, pendingBytes := w.pendingBytes - front.length }, bytes)
    | (.full, bytes) => (false, { w with pending := front :: pending }, bytes)
    | (.closed, bytes) => (false, { pending := [], pendingBytes := 0 }, bytes)

/-- Which `flush` it is: one that was called, or the first or the last one of a `send`. -/
inductive Flush where
  | call
  | first (out : Bytes)
  | last

/-- Where the thread is: behind a call, with what it has returned if that is a truth value; in
a `flush`, at the check of a `send`, or in front of the control message or the bytes of a
`quit`. -/
inductive At where
  | idle (answer : Option Bool)
  | flushing (f : Flush)
  | admitting (out : Bytes)
  | hanging (out : Bytes)
  | offering (out : Bytes)

/-- Behind a call. -/
def At.Idle : At → Prop
  | .idle _ => True
  | _ => False

/-- In front of the control message of a `quit`. -/
def At.Hanging : At → Prop
  | .hanging _ => True
  | _ => False

/-- In front of the bytes of a `quit`. -/
def At.Offering : At → Prop
  | .offering _ => True
  | _ => False

/-- The thread and its channels; what was handed to it, in the order of the calls; whether
bytes of a `quit` found the channel full; and what was delivered or pending when `send` was
called last. -/
structure Tty where
  writer : TtyWriter := {}
  bytes : Channel Bytes
  ctrl : Channel CtrlEvent
  pos : At := .idle none
  handed : List Bytes := []
  dropped : Bool := false
  before : List Bytes := []

namespace Tty

/-- What can happen: a call, a turn of the thread, what the main loop does with its two
channels, and a control message from somebody else. -/
inductive Action where
  | send (out : Bytes)
  | flush
  | quit (out : Bytes)
  | turn
  | recv
  | close
  | recvCtrl
  | closeCtrl
  | signal (e : CtrlEvent)

/-- What a flush goes on to. -/
def flushed (t : Tty) : Flush → Tty
  | .call => { t with pos := .idle none }
  | .first out => { t with pos := .admitting out }
  | .last => { t with pos := .idle (some true) }

/-- A turn of the thread. -/
def turn (t : Tty) : Tty :=
  match t.pos with
  | .idle _ => t
  | .flushing f =>
    match t.writer.flushRound t.bytes with
    | (true, writer, bytes) => { t with writer, bytes }
    | (false, writer, bytes) => flushed { t with writer, bytes } f
  | .admitting out =>
    if out = [] then { t with pos := .idle (some true) }
    else if t.writer.pendingBytes + out.length > ttyPendingCap then
      { t with pos := .idle (some false) }
    else
      { t with
        writer :=
          { pending := t.writer.pending ++ [out]
            pendingBytes := t.writer.pendingBytes + out.length }
        pos := .flushing .last
        handed := t.handed ++ [out] }
  | .hanging out =>
    { t with
      ctrl := (t.ctrl.trySend .hangup).2
      pos := if out = [] then .idle none else .offering out }
  | .offering out =>
    match t.bytes.trySend out with
    | (.sent, bytes) => { t with bytes, pos := .idle none }
    | (.full, bytes) => { t with bytes, pos := .idle none, dropped := true }
    | (.closed, bytes) => { t with bytes, pos := .idle none }

/-- What an action does. -/
def act (t : Tty) : Action → Tty
  | .send out =>
    { t with pos := .flushing (.first out), before := t.bytes.log ++ t.writer.pending }
  | .flush => { t with pos := .flushing .call }
  | .quit out => { t with pos := .hanging out, handed := t.handed ++ [out] }
  | .turn => t.turn
  | .recv => { t with bytes := t.bytes.recv }
  | .close => { t with bytes := t.bytes.close }
  | .recvCtrl => { t with ctrl := t.ctrl.recv }
  | .closeCtrl => { t with ctrl := t.ctrl.close }
  | .signal e => { t with ctrl := (t.ctrl.trySend e).2 }

/-- The thread makes one call at a time, and waits where the control channel is full. -/
def Allows (t : Tty) : Action → Prop
  | .send _ | .flush | .quit _ => t.pos.Idle
  | .turn => t.pos.Hanging → ¬t.ctrl.Blocks
  | _ => True

/-- The thread and the main loop. -/
def tty : Machine Tty Action := { Allows, act }

instance : (p : At) → Decidable p.Idle
  | .idle _ => .isTrue trivial
  | .flushing _ | .admitting _ | .hanging _ | .offering _ => .isFalse id

instance : (p : At) → Decidable p.Hanging
  | .hanging _ => .isTrue trivial
  | .idle _ | .flushing _ | .admitting _ | .offering _ => .isFalse id

instance : (p : At) → Decidable p.Offering
  | .offering _ => .isTrue trivial
  | .idle _ | .flushing _ | .admitting _ | .hanging _ => .isFalse id

/-- Nothing has happened yet; there may be messages in the channel. -/
def New (t : Tty) : Prop :=
  t.writer = {} ∧ t.bytes.log = [] ∧ t.pos = .idle none ∧ t.handed = [] ∧ t.dropped = false

/-- **Nothing is overtaken**: where the bytes of a `quit` are taken nothing is pending, and
none are handed over behind bytes that a `quit` has dropped. -/
def Orderly (t : Tty) : Action → Prop
  | .send out | .quit out => t.dropped = true → out = []
  | .turn => t.pos.Offering → t.bytes.Accepts → t.writer.pending = []
  | _ => True

instance : (t : Tty) → (a : Action) → Decidable (tty.Allows t a)
  | t, .send _ | t, .flush | t, .quit _ => inferInstanceAs (Decidable t.pos.Idle)
  | t, .turn => inferInstanceAs (Decidable (t.pos.Hanging → ¬t.ctrl.Blocks))
  | _, .recv | _, .close | _, .recvCtrl | _, .closeCtrl | _, .signal _ =>
    .isTrue trivial

instance : (t : Tty) → (a : Action) → Decidable (t.Orderly a)
  | t, .send out | t, .quit out => inferInstanceAs (Decidable (t.dropped = true → out = []))
  | t, .turn =>
    inferInstanceAs (Decidable (t.pos.Offering → t.bytes.Accepts → t.writer.pending = []))
  | _, .flush | _, .recv | _, .close | _, .recvCtrl | _, .closeCtrl | _, .signal _ =>
    .isTrue trivial

end Tty

/-! ### A round of `flush` -/

/-- **A round of `flush`** leaves things alone, or the channel takes the front, or it is closed
and what is pending is thrown away. -/
theorem TtyWriter.flushRound_cases (w : TtyWriter) (c : Channel Bytes) :
    w.flushRound c = (false, w, c) ∨
      (∃ front pending, w.pending = front :: pending ∧ c.closed = false ∧ w.flushRound c =
        (true, { pending, pendingBytes := w.pendingBytes - front.length },
          { c with queue := c.queue ++ [front], log := c.log ++ [front] })) ∨
      c.closed = true ∧ w.flushRound c = (false, { pending := [], pendingBytes := 0 }, c) := by
  obtain ⟨_ | ⟨front, pending⟩, n⟩ := w
  · exact .inl rfl
  · rcases c.trySend_cases front with ⟨hroom, heq⟩ | ⟨-, heq⟩ | ⟨hclosed, heq⟩
    · refine .inr (.inl ⟨front, pending, rfl, hroom.1, ?_⟩)
      simp only [flushRound, heq]
    · refine .inl ?_
      simp only [flushRound, heq]
    · refine .inr (.inr ⟨hclosed, ?_⟩)
      simp only [flushRound, heq]

/-- **What a round does to the stream**: while the channel is open what was delivered and what
is pending stay the same together, and a channel that is closed takes nothing. -/
theorem TtyWriter.flushRound_stream (w : TtyWriter) (c : Channel Bytes) :
    (w.flushRound c).2.2.closed = c.closed ∧
      (c.closed = false →
        (w.flushRound c).2.2.log ++ (w.flushRound c).2.1.pending = c.log ++ w.pending) ∧
      (c.closed = true → (w.flushRound c).2.2.log = c.log) ∧
      (w.flushRound c).2.2.log ++ (w.flushRound c).2.1.pending <+: c.log ++ w.pending := by
  rcases w.flushRound_cases c with heq | ⟨front, pending, hpending, hopen, heq⟩ | ⟨hclosed, heq⟩
  · rw [heq]
    exact ⟨rfl, fun _ => rfl, fun _ => rfl, List.prefix_rfl⟩
  · have hsame : c.log ++ [front] ++ pending = c.log ++ w.pending := by
      rw [hpending, List.append_assoc]
      rfl
    rw [heq]
    refine ⟨rfl, fun _ => hsame, fun hclosed => ?_, hsame ▸ List.prefix_rfl⟩
    exact absurd hclosed (hopen ▸ Bool.false_ne_true)
  · rw [heq]
    refine ⟨rfl, fun hopen => absurd hclosed (hopen ▸ Bool.false_ne_true), fun _ => rfl, ?_⟩
    rw [List.append_nil]
    exact List.prefix_append ..

/-- **What is counted is what is pending**, within the cap. -/
structure TtyWriter.Counted (w : TtyWriter) : Prop where
  bytes : w.pendingBytes = (w.pending.map List.length).sum
  cap : w.pendingBytes ≤ ttyPendingCap

/-- A round keeps count. -/
theorem TtyWriter.Counted.flushRound {w : TtyWriter} {c : Channel Bytes} (h : w.Counted) :
    (w.flushRound c).2.1.Counted := by
  rcases w.flushRound_cases c with heq | ⟨front, pending, hpending, -, heq⟩ | ⟨-, heq⟩
  · rw [heq]
    exact h
  · have hbytes := h.bytes
    have hcap := h.cap
    rw [hpending, List.map_cons, List.sum_cons] at hbytes
    rw [heq]
    exact ⟨by dsimp only; omega, by dsimp only; omega⟩
  · rw [heq]
    exact ⟨rfl, Nat.zero_le _⟩

/-! ### Positions -/

/-- The bytes that a `quit` has yet to offer. -/
def At.carried : At → Bytes
  | .hanging out | .offering out => out
  | _ => []

/-- The bytes that a `send` has yet to admit. -/
def At.unsent : At → Bytes
  | .flushing (.first out) | .admitting out => out
  | _ => []

/-- A writer that is idle carries nothing. -/
theorem At.Idle.carried_eq {p : At} (h : p.Idle) : p.carried = [] := by
  cases p <;> first | rfl | exact h.elim

/-- In a `send` that has admitted nothing, or behind one that has refused. -/
def At.Refusing : At → Prop
  | .flushing (.first _) | .admitting _ | .idle (some false) => True
  | _ => False

namespace Tty

variable {t : Tty} {a : Action}

/-! ### What every action keeps -/

/-- A flush of the channel leaves the writer. -/
@[simp] theorem writer_flushed (t : Tty) (f : Flush) : (t.flushed f).writer = t.writer := by
  cases f <;> rfl

/-- **Every action** keeps count.  Only a turn changes what is pending: a round of flushing
takes some off, and an output that is admitted fits below the cap. -/
theorem counted_act (h : t.writer.Counted) (a : Action) : (t.act a).writer.Counted := by
  cases a with
  | turn =>
    rw [act, turn]
    split
    · exact h
    · have hround := h.flushRound (c := t.bytes)
      split
      · rename_i heq
        rw [heq] at hround
        exact hround
      · rename_i heq
        rw [heq] at hround
        rw [writer_flushed]
        exact hround
    · split
      · exact h
      · split
        · exact h
        · rename_i hcap
          refine ⟨?_, Nat.le_of_not_lt hcap⟩
          rw [List.map_append, List.sum_append, ← h.bytes]
          rfl
    · exact h
    · split <;> exact h
  | _ => exact h

/-- **A `send` that has not admitted its bytes** has delivered only what was there before, and
that is all that is pending. -/
def Kept (t : Tty) : Prop :=
  t.pos.Refusing → t.bytes.log ++ t.writer.pending <+: t.before

/-- Every action keeps it so: while an output is still to be admitted, flushing only moves
bytes from what is pending to the queue, which leaves the order. -/
theorem kept_act (h : t.Kept) (a : Action) : (t.act a).Kept := by
  cases a with
  | turn =>
    rw [act, turn]
    split
    · exact h
    · rename_i f hpos
      obtain ⟨-, -, -, hround⟩ := t.writer.flushRound_stream t.bytes
      have hfirst : (At.flushing f).Refusing → (t.writer.flushRound t.bytes).2.2.log ++
          (t.writer.flushRound t.bytes).2.1.pending <+: t.before := fun hf =>
        hround.trans (h (hpos ▸ hf))
      split
      · rename_i heq
        rw [heq] at hfirst
        exact fun hf => hfirst (hpos ▸ hf)
      · rename_i heq
        rw [heq] at hfirst
        cases f with
        | first out => exact fun _ => hfirst trivial
        | call => exact fun hf => hf.elim
        | last => exact fun hf => hf.elim
    · rename_i out hpos
      split
      · exact fun hf => hf.elim
      · split
        · exact fun _ => h (hpos ▸ trivial)
        · exact fun hf => hf.elim
    · intro hf
      split at hf <;> exact hf.elim
    · split <;> exact fun hf => hf.elim
  | send out => exact fun _ => List.prefix_rfl
  | flush => exact fun hf => hf.elim
  | quit out => exact fun hf => hf.elim
  | _ => exact h

/-- **No holes**: while the channel is open, what was handed over is what was delivered, then
what is pending and then what a `quit` is about to offer; or a `quit` has dropped the end of
it.  Once the channel is closed nothing more is delivered. -/
structure Whole (t : Tty) : Prop where
  stream : t.bytes.closed = false → t.dropped = false →
    (t.bytes.log ++ t.writer.pending).flatten ++ t.pos.carried = t.handed.flatten
  cut : t.bytes.closed = false → t.dropped = true →
    (t.bytes.log ++ t.writer.pending).flatten <+: t.handed.flatten ∧
      t.pos.carried = [] ∧ t.pos.unsent = []
  ended : t.bytes.closed = true → t.bytes.log.flatten <+: t.handed.flatten

namespace Whole

/-- What is delivered is a prefix of what was handed over. -/
theorem delivered (h : t.Whole) : t.bytes.log.flatten <+: t.handed.flatten := by
  by_cases hclosed : t.bytes.closed = true
  · exact h.ended hclosed
  · have hopen := eq_false_of_ne_true hclosed
    have hlog : t.bytes.log.flatten <+: (t.bytes.log ++ t.writer.pending).flatten := by
      rw [List.flatten_append]
      exact List.prefix_append ..
    by_cases hdropped : t.dropped = true
    · exact hlog.trans (h.cut hopen hdropped).1
    · rw [← h.stream hopen (eq_false_of_ne_true hdropped)]
      exact hlog.trans (List.prefix_append ..)

/-- A round of `flush` keeps it. -/
theorem flushRound (h : t.Whole) :
    ({ t with
      writer := (t.writer.flushRound t.bytes).2.1
      bytes := (t.writer.flushRound t.bytes).2.2 } : Tty).Whole := by
  obtain ⟨hclosed, hopen, hend, -⟩ := t.writer.flushRound_stream t.bytes
  refine ⟨fun ho hd => ?_, fun ho hd => ?_, fun hc => ?_⟩
  · have ho' : t.bytes.closed = false := hclosed ▸ ho
    dsimp only
    rw [hopen ho']
    exact h.stream ho' hd
  · have ho' : t.bytes.closed = false := hclosed ▸ ho
    dsimp only
    rw [hopen ho']
    exact h.cut ho' hd
  · have hc' : t.bytes.closed = true := hclosed ▸ hc
    dsimp only
    rw [hend hc']
    exact h.ended hc'

/-- It is about the bytes alone. -/
theorem congr {t' : Tty} (h : t.Whole) (hclosed : t'.bytes.closed = t.bytes.closed)
    (hlog : t'.bytes.log = t.bytes.log) (hpending : t'.writer.pending = t.writer.pending)
    (hcarried : t'.pos.carried = t.pos.carried)
    (hunsent : t.dropped = true → t.pos.unsent = [] → t'.pos.unsent = [])
    (hhanded : t'.handed = t.handed) (hdropped : t'.dropped = t.dropped) : t'.Whole := by
  refine ⟨fun ho hd => ?_, fun ho hd => ?_, fun hc => ?_⟩
  · rw [hlog, hpending, hcarried, hhanded]
    exact h.stream (hclosed ▸ ho) (hdropped ▸ hd)
  · rw [hlog, hpending, hcarried, hhanded]
    obtain ⟨hcut, hcarried, hnone⟩ := h.cut (hclosed ▸ ho) (hdropped ▸ hd)
    exact ⟨hcut, hcarried, hunsent (hdropped ▸ hd) hnone⟩
  · rw [hlog, hhanded]
    exact h.ended (hclosed ▸ hc)

/-- A `quit` hands its bytes over. -/
theorem quit {out : Bytes} (h : t.Whole) (hpos : t.pos.carried = [])
    (hout : t.dropped = true → out = []) : (t.act (.quit out)).Whole := by
  refine ⟨fun ho hd => ?_, fun ho hd => ?_, fun hc => ?_⟩
  · have hstream := h.stream ho hd
    rw [hpos, List.append_nil] at hstream
    change (t.bytes.log ++ t.writer.pending).flatten ++ out = (t.handed ++ [out]).flatten
    rw [hstream, List.flatten_append, List.flatten_singleton]
  · obtain rfl := hout hd
    refine ⟨?_, rfl, rfl⟩
    have hhanded : (t.handed ++ [[]]).flatten = t.handed.flatten := by
      rw [List.flatten_append, List.flatten_singleton, List.append_nil]
    exact hhanded ▸ (h.cut ho hd).1
  · change t.bytes.log.flatten <+: (t.handed ++ [out]).flatten
    rw [List.flatten_append]
    exact (h.ended hc).trans (List.prefix_append ..)

/-- A `send` that admits its bytes puts them behind all that is pending. -/
theorem push {out : Bytes} (h : t.Whole) (hpos : t.pos = .admitting out) (hout : out ≠ [])
    (n : ℕ) : ({ t with
      writer := { pending := t.writer.pending ++ [out], pendingBytes := n }
      pos := .flushing .last
      handed := t.handed ++ [out] } : Tty).Whole := by
  refine ⟨fun ho hd => ?_, fun ho hd => ?_, fun hc => ?_⟩
  · have hstream := h.stream ho hd
    rw [hpos] at hstream
    change (t.bytes.log ++ t.writer.pending).flatten ++ [] = _ at hstream
    change (t.bytes.log ++ (t.writer.pending ++ [out])).flatten ++ [] = (t.handed ++ [out]).flatten
    rw [List.append_nil] at hstream ⊢
    rw [← List.append_assoc, List.flatten_append, hstream, List.flatten_append]
  · obtain ⟨-, -, hnone⟩ := h.cut ho hd
    rw [hpos] at hnone
    exact absurd hnone hout
  · change t.bytes.log.flatten <+: (t.handed ++ [out]).flatten
    rw [List.flatten_append]
    exact (h.ended hc).trans (List.prefix_append ..)

/-- The bytes of a `quit` are taken, with nothing pending, or they are dropped.  By what
`try_send` answers; where they are dropped, the stream is cut where it is, with no hole
before that. -/
theorem offer {out : Bytes} (h : t.Whole) (hpos : t.pos = .offering out)
    (hok : t.bytes.Accepts → t.writer.pending = []) : t.turn.Whole := by
  have hcarried : t.pos.carried = out := congrArg At.carried hpos
  rcases t.bytes.trySend_cases out with ⟨hroom, heq⟩ | ⟨hopen, heq⟩ | ⟨hclosed, heq⟩
  · have hpending := hok hroom
    have hturn : t.turn = { t with
        bytes := { t.bytes with queue := t.bytes.queue ++ [out], log := t.bytes.log ++ [out] }
        pos := .idle none } := by
      simp only [turn, hpos, heq]
    rw [hturn]
    refine ⟨fun ho hd => ?_, fun ho hd => ?_, fun hc => ?_⟩
    · have hstream := h.stream ho hd
      rw [hcarried, hpending, List.append_nil] at hstream
      change (t.bytes.log ++ [out] ++ t.writer.pending).flatten ++ [] = t.handed.flatten
      rw [hpending, List.append_nil, List.append_nil, List.flatten_append,
        List.flatten_singleton, hstream]
    · obtain ⟨hcut, hnone, -⟩ := h.cut ho hd
      obtain rfl : out = [] := hcarried.symm.trans hnone
      refine ⟨?_, rfl, rfl⟩
      change (t.bytes.log ++ [[]] ++ t.writer.pending).flatten <+: t.handed.flatten
      rw [List.flatten_append, List.flatten_append, List.flatten_singleton, List.append_nil,
        ← List.flatten_append]
      exact hcut
    · exact absurd hc (hroom.1 ▸ Bool.false_ne_true)
  · have hturn : t.turn = { t with pos := .idle none, dropped := true } := by
      simp only [turn, hpos, heq]
    rw [hturn]
    refine ⟨fun _ hd => (nomatch hd), fun ho _ => ⟨?_, rfl, rfl⟩, fun hc => h.ended hc⟩
    by_cases hd : t.dropped = true
    · exact (h.cut ho hd).1
    · change (t.bytes.log ++ t.writer.pending).flatten <+: t.handed.flatten
      rw [← h.stream ho (eq_false_of_ne_true hd)]
      exact List.prefix_append ..
  · have hturn : t.turn = { t with pos := .idle none } := by
      simp only [turn, hpos, heq]
    have hnot {p : Prop} (ho : t.bytes.closed = false) : p :=
      absurd hclosed (ho ▸ Bool.false_ne_true)
    rw [hturn]
    exact ⟨fun ho => hnot ho, fun ho => hnot ho, fun hc => h.ended hc⟩

/-- The receiver goes. -/
theorem close (h : t.Whole) : (t.act .close).Whole where
  stream ho := nomatch ho
  cut ho := nomatch ho
  ended _ := h.delivered

end Whole

/-- **Every action that is orderly** keeps it.  By the place of the task: a round of
flushing and an output that is pushed keep the order, and a quit that is offered is orderly
only if nothing is pending. -/
theorem whole_act (h : t.Whole) (hallows : t.Allows a) (hok : t.Orderly a) : (t.act a).Whole := by
  cases a with
  | send out =>
    exact h.congr rfl rfl rfl (At.Idle.carried_eq hallows).symm (fun hd _ => hok hd) rfl rfl
  | flush => exact h.congr rfl rfl rfl (At.Idle.carried_eq hallows).symm (fun _ _ => rfl) rfl rfl
  | quit out => exact h.quit (At.Idle.carried_eq hallows) hok
  | turn =>
    rw [act]
    cases hpos : t.pos with
    | idle answer =>
      rw [turn, hpos]
      exact h
    | flushing f =>
      have hround := h.flushRound
      rw [turn, hpos]
      dsimp only
      split
      · rename_i heq
        rw [heq] at hround
        exact hround.congr rfl rfl rfl (by rw [hpos]) (fun _ hnone => hpos ▸ hnone) rfl rfl
      · rename_i heq
        rw [heq] at hround
        cases f with
        | first out =>
          have hunsent : t.pos.unsent = out := congrArg At.unsent hpos
          exact hround.congr rfl rfl rfl (by rw [hpos]; rfl)
            (fun _ hnone => hunsent.symm.trans hnone) rfl rfl
        | call => exact hround.congr rfl rfl rfl (by rw [hpos]; rfl) (fun _ _ => rfl) rfl rfl
        | last => exact hround.congr rfl rfl rfl (by rw [hpos]; rfl) (fun _ _ => rfl) rfl rfl
    | admitting out =>
      rw [turn, hpos]
      dsimp only
      split
      · exact h.congr rfl rfl rfl (by rw [hpos]; rfl) (fun _ _ => rfl) rfl rfl
      · rename_i hout
        split
        · exact h.congr rfl rfl rfl (by rw [hpos]; rfl) (fun _ _ => rfl) rfl rfl
        · exact h.push hpos hout _
    | hanging out =>
      rw [turn, hpos]
      dsimp only
      split
      · rename_i hout
        exact h.congr rfl rfl rfl (by rw [hpos]; exact hout.symm) (fun _ _ => rfl) rfl rfl
      · exact h.congr rfl rfl rfl (by rw [hpos]; rfl) (fun _ _ => rfl) rfl rfl
    | offering out => exact h.offer hpos (hok (hpos ▸ trivial))
  | recv => exact h.congr rfl rfl rfl rfl (fun _ => id) rfl rfl
  | close => exact h.close
  | recvCtrl => exact h.congr rfl rfl rfl rfl (fun _ => id) rfl rfl
  | closeCtrl => exact h.congr rfl rfl rfl rfl (fun _ => id) rfl rfl
  | signal e => exact h.congr rfl rfl rfl rfl (fun _ => id) rfl rfl

/-! ### Runs -/

variable {t₀ : Tty}

/-- **What is delivered has no holes**, in every run in which nothing is overtaken: at every
moment it is a prefix of what was handed over; what is counted is what is pending, within the
cap; and a `send` that is refused has delivered and kept none of its bytes. -/
theorem no_holes (hnew : t₀.New) (h : tty.Run Orderly t₀ t) :
    t.bytes.log.flatten <+: t.handed.flatten ∧
      t.writer.pendingBytes = (t.writer.pending.map List.length).sum ∧
      t.writer.pendingBytes ≤ ttyPendingCap ∧
      (t.pos = .idle (some false) → t.bytes.log ++ t.writer.pending <+: t.before) := by
  obtain ⟨hwriter, hlog, hpos, hhanded, hdropped⟩ := hnew
  have hcounted : t.writer.Counted := by
    refine h.invariant (I := fun t => t.writer.Counted) ?_ fun _ a _ ht _ _ => counted_act ht a
    rw [hwriter]
    exact ⟨rfl, Nat.zero_le _⟩
  have hkept : t.Kept := by
    refine h.invariant (I := Kept) (fun hrefusing => ?_) fun _ a _ ht _ _ => kept_act ht a
    rw [hpos] at hrefusing
    exact hrefusing.elim
  have hwhole : t.Whole := by
    refine h.invariant (I := Whole) ⟨fun _ _ => ?_, fun _ hd => ?_, fun _ => ?_⟩
      fun _ a _ ht hallows hok => whole_act ht hallows hok
    · rw [hlog, hwriter, hpos, hhanded]
      rfl
    · rw [hdropped] at hd
      cases hd
    · rw [hlog]
      exact List.nil_prefix
  exact ⟨hwhole.delivered, hcounted.bytes, hcounted.cap, fun hidle => hkept (hidle ▸ trivial)⟩

/-- The thread before its first read. -/
def newTty : Tty := { bytes := { cap := 8 }, ctrl := { cap := 8 } }

/-- A key, and another one with the quit sequence behind it. -/
def keyAndQuit : List Action :=
  [.send [0x61], .turn, .turn, .turn, .turn, .recv, .quit [0x7a], .turn, .turn]

/-- The hypotheses of `no_holes` are satisfiable: both keys are delivered. -/
theorem no_holes_keyAndQuit :
    (tty.acts newTty keyAndQuit).bytes.log = [[0x61], [0x7a]] ∧
      (tty.acts newTty keyAndQuit).bytes.log.flatten <+:
        (tty.acts newTty keyAndQuit).handed.flatten ∧
      (tty.acts newTty keyAndQuit).writer.pendingBytes =
        ((tty.acts newTty keyAndQuit).writer.pending.map List.length).sum ∧
      (tty.acts newTty keyAndQuit).writer.pendingBytes ≤ ttyPendingCap ∧
      ((tty.acts newTty keyAndQuit).pos = .idle (some false) →
        (tty.acts newTty keyAndQuit).bytes.log ++ (tty.acts newTty keyAndQuit).writer.pending <+:
          (tty.acts newTty keyAndQuit).before) :=
  ⟨rfl, no_holes ⟨rfl, rfl, rfl, rfl, rfl⟩ (Machine.run_acts (by decide +kernel))⟩

/-- Nine keys while nobody takes any, so that the last one is pending; the quit sequence with
a key in front of it, and a message is taken before that key is offered. -/
def overtaking : List Action :=
  (List.replicate 9 [.send [0x61], .turn, .turn, .turn, .turn]).flatten ++
    [.quit [0x7a], .turn, .recv, .turn]

/-- **The bytes of a `quit` overtake** what is pending: the ninth key is missing in front of
the tenth. -/
theorem quit_overtakes : ¬∀ t₀ t : Tty, t₀.New → tty.AnyRun t₀ t →
    t.bytes.log.flatten <+: t.handed.flatten := by
  intro h
  have hprefix := h newTty (tty.acts newTty overtaking) ⟨rfl, rfl, rfl, rfl, rfl⟩
    (Machine.run_acts (by decide +kernel))
  exact absurd hprefix (by decide +kernel)

end Tty
end Quosh
