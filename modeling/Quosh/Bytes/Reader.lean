/-
# Reading a byte string from the front

A `Reader` consumes bytes from the front of a string and either returns a value
with the bytes it left or fails, as a cursor over a slice does.  Two properties
of readers compose along `bind` and are all that the format proofs above need:

* `Local r`: what `r` returns does not depend on the bytes it leaves, so it
  returns the same on a longer string (`Local.bind`, `local_readExact`);
* `Reads r bs a`: in front of anything, `r` reads exactly `bs` and returns `a`
  (`Reads.bind`, `reads_readExact`), which is a round trip when `bs` is an
  encoding of `a`.

A reader that must consume its whole input (`complete`) accepts a prefix-free
set of strings as soon as it is local (`complete_prefixFree`).
-/

import Quosh.Bytes.LittleEndian

namespace Quosh
namespace Bytes

variable {ε α β : Type}

/-- A parser: a value and the bytes left, or a failure. -/
abbrev Reader (ε α : Type) := StateT Bytes (Except ε) α

/-- Take the next `n` bytes, or fail with `e` when fewer are left. -/
def readExact (e : ε) (n : ℕ) : Reader ε Bytes := fun bs =>
  if n ≤ bs.length then .ok (bs.take n, bs.drop n) else .error e

/-- Take a little-endian integer of `w` bytes. -/
def readLe (e : ε) (w : ℕ) : Reader ε ℕ := do
  return fromLe (← readExact e w)

/-- Fail with `e` unless `c` holds. -/
def require (e : ε) (c : Bool) : Reader ε Unit := fun bs =>
  if c then .ok ((), bs) else .error e

/-- Run a reader that must consume the whole string; bytes left over are the
failure `e`. -/
def complete (e : ε) (r : Reader ε α) (bs : Bytes) : Except ε α :=
  match r bs with
  | .ok (a, []) => .ok a
  | .ok (_, _ :: _) => .error e
  | .error e' => .error e'

/-! ### Locality -/

/-- What the reader returns does not depend on the bytes it leaves. -/
def Local (r : Reader ε α) : Prop :=
  ∀ bs a rest, r bs = .ok (a, rest) → ∀ x, r (bs ++ x) = .ok (a, rest ++ x)

/-- A reader that reads nothing. -/
theorem local_pure (a : α) : Local (pure a : Reader ε α) := by
  rintro bs b rest h x
  cases h
  rfl

/-- Bytes are read off the front. -/
theorem local_readExact (e : ε) (n : ℕ) : Local (readExact e n) := by
  intro bs a rest h x
  simp only [readExact] at h ⊢
  split at h
  · rename_i hn
    cases h
    have hle : n ≤ (bs ++ x).length := by rw [List.length_append]; omega
    rw [if_pos hle, List.take_append_of_le_length hn, List.drop_append_of_le_length hn]
  · cases h

/-- A condition reads nothing. -/
theorem local_require (e : ε) (c : Bool) : Local (require e c) := by
  intro bs a rest h x
  cases c
  · cases h
  · cases h
    rfl

/-- A sequence of fallible steps that succeeds is both of them succeeding. -/
theorem except_bind_eq_ok {x : Except ε α} {f : α → Except ε β} {b : β} :
    (x >>= f) = .ok b ↔ ∃ a, x = .ok a ∧ f a = .ok b := by
  cases x with
  | error e => exact ⟨fun h => (by cases h), fun ⟨_, h, _⟩ => (by cases h)⟩
  | ok a => exact ⟨fun h => ⟨a, rfl, h⟩, fun ⟨_, ha, h⟩ => (by cases ha; exact h)⟩

/-- A sequence of readers that succeeds is both of them succeeding. -/
theorem bind_eq_ok {r : Reader ε α} {f : α → Reader ε β} {bs : Bytes} {b : β} {rest : Bytes} :
    (r >>= f) bs = .ok (b, rest) ↔
      ∃ a mid, r bs = .ok (a, mid) ∧ f a mid = .ok (b, rest) := by
  simp only [Bind.bind, StateT.bind, Except.bind]
  cases hr : r bs with
  | error e => simp
  | ok p => exact ⟨fun h => ⟨p.1, p.2, rfl, h⟩, fun ⟨_, _, hp, h⟩ => by cases hp; exact h⟩

/-- One reader behind the other. -/
theorem Local.bind {r : Reader ε α} {f : α → Reader ε β} (hr : Local r)
    (hf : ∀ a, Local (f a)) : Local (r >>= f) := by
  intro bs b rest h x
  obtain ⟨a, mid, ha, hb⟩ := bind_eq_ok.1 h
  exact bind_eq_ok.2 ⟨a, mid ++ x, hr bs a mid ha x, hf a mid b rest hb x⟩

/-- A number is read off the front. -/
theorem local_readLe (e : ε) (w : ℕ) : Local (readLe e w) :=
  (local_readExact e w).bind fun _ => local_pure _

/-- **A local reader that must consume its input is prefix-free**: no proper
extension of an accepted string is accepted. -/
theorem complete_prefixFree {e : ε} {r : Reader ε α} (hr : Local r) {bs x : Bytes} {a : α}
    (h : complete e r bs = .ok a) (hx : x ≠ []) : complete e r (bs ++ x) = .error e := by
  have hbs : r bs = .ok (a, []) := by
    unfold complete at h
    split at h
    · cases h; assumption
    · cases h
    · cases h
  obtain ⟨b, y, rfl⟩ := List.exists_cons_of_ne_nil hx
  rw [complete, hr bs a [] hbs]
  rfl

/-! ### Round trips -/

/-- In front of anything the reader consumes exactly `bs` and returns `a`. -/
def Reads (r : Reader ε α) (bs : Bytes) (a : α) : Prop :=
  ∀ rest, r (bs ++ rest) = .ok (a, rest)

/-- A reader that reads nothing. -/
theorem reads_pure (a : α) : Reads (pure a : Reader ε α) [] a := fun _ => rfl

/-- Bytes are read as they are. -/
theorem reads_readExact (e : ε) {n : ℕ} {bs : Bytes} (h : bs.length = n) :
    Reads (readExact e n) bs bs := by
  intro rest
  have hle : n ≤ (bs ++ rest).length := by rw [List.length_append]; omega
  rw [readExact, if_pos hle, List.take_left' h, List.drop_left' h]

/-- One reader behind the other. -/
theorem Reads.bind {r : Reader ε α} {f : α → Reader ε β} {xs ys : Bytes} {a : α} {b : β}
    (hr : Reads r xs a) (hf : Reads (f a) ys b) : Reads (r >>= f) (xs ++ ys) b := by
  intro rest
  rw [List.append_assoc]
  exact bind_eq_ok.2 ⟨a, ys ++ rest, hr _, hf rest⟩

/-- A check that holds reads nothing. -/
theorem Reads.require_bind {e : ε} {c : Bool} {f : Unit → Reader ε β} {ys : Bytes} {b : β}
    (h : c = true) (hf : Reads (f ()) ys b) : Reads (require e c >>= f) ys b := by
  intro rest
  exact bind_eq_ok.2 ⟨(), ys ++ rest, by rw [h]; rfl, hf rest⟩

/-- A reader that hands its value on reads what it read. -/
theorem Reads.bind_pure {r : Reader ε α} {f : α → β} {xs : Bytes} {a : α} (hr : Reads r xs a) :
    Reads (r >>= fun a => pure (f a)) xs (f a) := by
  have := hr.bind (f := fun a => pure (f a)) (reads_pure (f a))
  rwa [List.append_nil] at this

/-- An integer that fits its width is read from its encoding. -/
theorem reads_readLe (e : ε) {w n : ℕ} (h : n < 256 ^ w) : Reads (readLe e w) (toLe w n) n := by
  have hb := (reads_readExact e (length_toLe w n)).bind_pure (f := fromLe)
  rwa [fromLe_toLe h] at hb

/-- A reader that reads all of `bs` accepts it. -/
theorem Reads.complete {r : Reader ε α} {bs : Bytes} {a : α} (h : Reads r bs a) (e : ε) :
    Bytes.complete e r bs = .ok a := by
  have := h []
  rw [List.append_nil] at this
  rw [Bytes.complete, this]

end Bytes
end Quosh
