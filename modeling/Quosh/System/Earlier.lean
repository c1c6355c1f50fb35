/-
# What earlier connections still bring

A session outlives its clients.  When another client is made, the connections of the
ones before may still hold inputs: in the queue of a handler, in bytes that a handler
of the current epoch parses, and behind a greeting that the session takes.  `Brings`
says which inputs a connection can still put into the command channel, whatever its
bytes are.

No step of a connection adds to them (`Brings.cut` to `Brings.push`).  Inputs numbered
up to the count of the owner never are the next one (`Barren`).
-/

import Quosh.Proto.Chunks
import Quosh.System.System

namespace Quosh

open Bytes

/-- An input that a handler gets out of some bytes, if no frame before it ends the
handler. -/
inductive Parses : Bytes → ℕ × Bytes → Prop
  | here {buf rest : Bytes} {g : Frame} {u : ℕ × Bytes}
    (hs : splitFrame buf = (.ok (some g), rest)) (hg : Admits g) (hu : frameInput g = some u) :
    Parses buf u
  | later {buf rest : Bytes} {g : Frame} {u : ℕ × Bytes}
    (hs : splitFrame buf = (.ok (some g), rest)) (hg : Admits g) (h : Parses rest u) :
    Parses buf u

/-- More bytes behind it change nothing. -/
theorem Parses.append {buf : Bytes} {u : ℕ × Bytes} (h : Parses buf u) (more : Bytes) :
    Parses (buf ++ more) u := by
  induction h with
  | here hs hg hu => exact .here (splitFrame_append hs more) hg hu
  | later hs hg h ih => exact .later (splitFrame_append hs more) hg ih

/-- More bytes behind a greeting are there behind it. -/
theorem Greets.append {id : FixedBytes 16} {token : FixedBytes 32} {buf rest : Bytes}
    (h : Greets id token buf rest) (more : Bytes) :
    Greets id token (buf ++ more) (rest ++ more) := by
  obtain ⟨payload, hello, hs, hdecode, hhello⟩ := h
  exact ⟨payload, hello, splitFrame_append hs more, hdecode, hhello⟩

namespace Conn

variable {s s' : Session} {c : Conn} {u : ℕ × Bytes} {base : ℕ}

/-- **An input that a connection can still bring**: it is in the queue of its handler,
in the bytes that the handler can parse, or in those behind a greeting that the session
takes. -/
def Brings (s : Session) (c : Conn) (u : ℕ × Bytes) : Prop :=
  match c.phase with
  | .greeting buf => ∃ rest, Greets s.id s.token (buf ++ c.wire) rest ∧ Parses rest u
  | .serving h => u ∈ h.busyInput ∨ h.epoch = s.epoch ∧ Parses (h.leftover ++ c.wire) u
  | .gone => False

/-- Nothing that a connection can bring has a number above `base`. -/
def Barren (base : ℕ) (s : Session) (c : Conn) : Prop := ∀ u, c.Brings s u → u.1 ≤ base

/-- A connection without a handler brings what is behind its hello. -/
theorem brings_greeting {buf : Bytes} (hp : c.phase = .greeting buf) :
    c.Brings s u ↔ ∃ rest, Greets s.id s.token (buf ++ c.wire) rest ∧ Parses rest u := by
  unfold Brings
  rw [hp]

/-- A connection with a handler brings what it has parsed, or has yet to parse. -/
theorem brings_serving {h : Handler} (hp : c.phase = .serving h) :
    c.Brings s u ↔
      u ∈ h.busyInput ∨ h.epoch = s.epoch ∧ Parses (h.leftover ++ c.wire) u := by
  unfold Brings
  rw [hp]

/-- A connection that is closed brings nothing. -/
theorem not_brings_gone (hp : c.phase = .gone) : ¬c.Brings s u := by
  unfold Brings
  rw [hp]
  exact id

/-- Only the name and the epoch of the session count. -/
theorem brings_congr (hid : s'.id = s.id) (htoken : s'.token = s.token)
    (hepoch : s'.epoch = s.epoch) : c.Brings s' u ↔ c.Brings s u := by
  unfold Brings
  rw [hid, htoken, hepoch]

/-- A connection that brings no more than another is barren with it. -/
theorem Barren.mono {c' : Conn} (h : c.Barren base s)
    (hbrings : ∀ u, c'.Brings s' u → c.Brings s u) : c'.Barren base s' :=
  fun u hu => h u (hbrings u hu)

/-! ### No step adds to what a connection brings -/

/-- Where another connection claims the session, a handler keeps its queue only. -/
theorem Brings.claim (h : c.Brings s.claimTransport u)
    (hle : ∀ h', c.phase = .serving h' → h'.epoch ≤ s.epoch) : c.Brings s u := by
  cases hp : c.phase with
  | greeting buf => exact (brings_greeting hp).2 ((brings_greeting (s := s.claimTransport) hp).1 h)
  | serving h' =>
    rcases (brings_serving (s := s.claimTransport) hp).1 h with hu | ⟨hepoch, -⟩
    · exact (brings_serving hp).2 (.inl hu)
    · exact absurd hepoch (Nat.ne_of_lt (Nat.lt_succ_of_le (hle h' hp)))
  | gone => exact absurd h (not_brings_gone hp)

/-- Bytes that are lost on the way. -/
theorem Brings.cut {n : ℕ} (h : ({ c with wire := c.wire.take n, cut := true } : Conn).Brings s u) :
    c.Brings s u := by
  have happend (buf : Bytes) : buf ++ c.wire = buf ++ c.wire.take n ++ c.wire.drop n := by
    rw [List.append_assoc, List.take_append_drop]
  cases hp : c.phase with
  | greeting buf =>
    obtain ⟨rest, hgreets, hu⟩ :=
      (brings_greeting (c := { c with wire := c.wire.take n, cut := true }) hp).1 h
    refine (brings_greeting hp).2 ⟨rest ++ c.wire.drop n, ?_, hu.append _⟩
    rw [happend]
    exact hgreets.append _
  | serving h' =>
    refine (brings_serving hp).2 (((brings_serving
      (c := { c with wire := c.wire.take n, cut := true }) hp).1 h).imp_right ?_)
    rintro ⟨hepoch, hu⟩
    refine ⟨hepoch, ?_⟩
    rw [happend]
    exact hu.append _
  | gone => exact absurd h (not_brings_gone hp)

/-- Bytes that the server reads. -/
theorem Brings.read {n : ℕ} (h : ({ c with
    wire := c.wire.drop n, phase := c.phase.receive (c.wire.take n) } : Conn).Brings s u) :
    c.Brings s u := by
  have happend (buf : Bytes) : buf ++ c.wire.take n ++ c.wire.drop n = buf ++ c.wire := by
    rw [List.append_assoc, List.take_append_drop]
  unfold Brings at h
  cases hp : c.phase with
  | greeting buf =>
    rw [hp] at h
    dsimp only [Phase.receive] at h
    rw [happend] at h
    exact (brings_greeting hp).2 h
  | serving h' =>
    rw [hp] at h
    dsimp only [Phase.receive] at h
    rw [happend] at h
    exact (brings_serving hp).2 h
  | gone =>
    rw [hp] at h
    exact absurd h not_false

/-- A handler that is attached behind its greeting. -/
theorem Brings.attach {buf : Bytes} {authUid : Option ℕ} {h' : Handler}
    (h : ({ c with phase := .serving h' } : Conn).Brings s' u) (hp : c.phase = .greeting buf)
    (hgreet : handleIncoming s authUid buf = .attach s' h') (hbusy : h'.busyInput = []) :
    c.Brings s u := by
  rcases (brings_serving (c := { c with phase := .serving h' }) rfl).1 h with hu | ⟨-, hu⟩
  · rw [hbusy] at hu
    exact absurd hu List.not_mem_nil
  · exact (brings_greeting hp).2
      ⟨h'.leftover ++ c.wire, (Handler.greets_of_attach hgreet).append _, hu⟩

/-- A turn of `drain_leftover`. -/
theorem Brings.drain {h₁ h₂ : Handler} {g : Frame}
    (h : ({ c with phase := .serving h₂ } : Conn).Brings s u) (hp : c.phase = .serving h₁)
    (hepoch : s.epoch = h₁.epoch) (hs : splitFrame h₁.leftover = (.ok (some g), h₂.leftover))
    (hb : h₂.busyInput = h₁.busyInput ++ (frameInput g).toList) (hg : Admits g) :
    c.Brings s u := by
  have hparses (hu : Parses (h₁.leftover ++ c.wire) u) : c.Brings s u :=
    (brings_serving hp).2 (.inr ⟨hepoch.symm, hu⟩)
  rcases (brings_serving (c := { c with phase := .serving h₂ }) rfl).1 h with hu | ⟨-, hu⟩
  · rw [hb] at hu
    rcases List.mem_append.1 hu with hu | hu
    · exact (brings_serving hp).2 (.inl hu)
    · exact hparses (.here (splitFrame_append hs _) hg (Option.mem_toList.1 hu))
  · exact hparses (.later (splitFrame_append hs _) hg hu)

/-- A turn of a handler that puts nothing into its queue. -/
theorem Brings.turn {h₁ h₂ : Handler} (h : ({ c with phase := .serving h₂ } : Conn).Brings s u)
    (hp : c.phase = .serving h₁) (he : h₂.epoch = h₁.epoch)
    (hb : h₂.busyInput <:+ h₁.busyInput)
    (hl : h₁.epoch = s.epoch → h₂.leftover = h₁.leftover) : c.Brings s u := by
  rcases (brings_serving (c := { c with phase := .serving h₂ }) rfl).1 h with hu | ⟨hepoch, hu⟩
  · exact (brings_serving hp).2 (.inl (hb.subset hu))
  · have hcur := he.symm.trans hepoch
    rw [hl hcur] at hu
    exact (brings_serving hp).2 (.inr ⟨hcur, hu⟩)

end Conn
end Quosh
