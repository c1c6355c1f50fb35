/-
# Readers that invert a layout

A layout writes a value as a byte string.  `Inverts r bytes ok` says that the reader
`r` is its inverse, in both directions: in front of anything it reads the bytes of a
value, as long as `ok` holds of it; and whatever it accepts starts with the bytes of
the value it returns, and `ok` holds of that value.  So a value has one encoding.

Layouts are put together field by field.  A record is read as its fields one after the
other, and `Inverts.bind` adds one field in front: what the rest of the reader returns
has the field that was read, which is a condition on the rest (`p m = a`), and
`inverts_pure` closes the record when the fields are all there.

Where a value has several encodings the reader returns what it reads, and not how it was
written.  `ReadsAs r bytes value ok` is the same for such a reader, over the encodings:
`r` reads the bytes of each one that is `ok` as its value, and accepts nothing else.
-/

import Quosh.Bytes.Reader
import Quosh.Bytes.Utf8

namespace Quosh
namespace Bytes

variable {ε α β μ : Type}

/-- Take the next `n` bytes as an array of that length. -/
def readArray (e : ε) (n : ℕ) : Reader ε { bs : Bytes // bs.length = n } := fun bs =>
  if h : n ≤ bs.length then
    .ok (⟨bs.take n, by rw [List.length_take, Nat.min_eq_left h]⟩, bs.drop n)
  else .error e

/-- Take `n` values one after the other. -/
def readMany (r : Reader ε α) : ℕ → Reader ε (List α)
  | 0 => pure []
  | n + 1 => do
    let a ← r
    let as ← readMany r n
    return a :: as

/-- `str::from_utf8`: the string with these bytes, if there is one. -/
def fromUtf8 (bs : Bytes) : Option String :=
  if asBytes (fromUtf8Lossy bs) = bs then some (fromUtf8Lossy bs) else none

/-- A text and its bytes. -/
theorem fromUtf8_eq_some {bs : Bytes} {s : String} : fromUtf8 bs = some s ↔ asBytes s = bs := by
  unfold fromUtf8
  constructor
  · intro h
    split at h
    · rename_i hb
      rwa [← Option.some.inj h]
    · cases h
  · rintro rfl
    rw [fromUtf8Lossy_asBytes, if_pos rfl]

/-- Take the bytes that `r` takes as text. -/
def readUtf8 (e : ε) (r : Reader ε Bytes) : Reader ε String := fun bs =>
  match r bs with
  | .error e' => .error e'
  | .ok (text, rest) =>
    match fromUtf8 text with
    | some s => .ok (s, rest)
    | none => .error e

/-- **The reader inverts the layout** on the values that `ok` allows, and returns no
others. -/
structure Inverts (r : Reader ε μ) (bytes : μ → Bytes) (ok : μ → Prop) : Prop where
  reads : ∀ m, ok m → Reads r (bytes m) m
  sound : ∀ bs m rest, r bs = .ok (m, rest) → ok m ∧ bs = bytes m ++ rest

namespace Inverts

variable {r : Reader ε α} {b : α → Bytes} {oka : α → Prop} {ok ok' : μ → Prop}

/-- The same condition in other words. -/
theorem congr {r : Reader ε μ} {c : μ → Bytes} (h : Inverts r c ok) (hok : ∀ m, ok m ↔ ok' m) :
    Inverts r c ok' :=
  ⟨fun m hm => h.reads m ((hok m).2 hm), fun bs m rest hr =>
    ⟨(hok m).1 (h.sound bs m rest hr).1, (h.sound bs m rest hr).2⟩⟩

/-- **One field in front**: the rest returns a value that has the field. -/
theorem bind (h : Inverts r b oka) (p : μ → α) (ok : μ → Prop) {k : α → Reader ε μ} {c : μ → Bytes}
    (hk : ∀ a, oka a → Inverts (k a) c fun m => ok m ∧ p m = a) :
    Inverts (r >>= k) (fun m => b (p m) ++ c m) fun m => oka (p m) ∧ ok m where
  reads m hm := (h.reads (p m) hm.1).bind ((hk (p m) hm.1).reads m ⟨hm.2, rfl⟩)
  sound bs m rest hr := by
    obtain ⟨a, mid, ha, hm⟩ := bind_eq_ok.1 hr
    obtain ⟨hoka, rfl⟩ := h.sound bs a mid ha
    obtain ⟨⟨hok, rfl⟩, rfl⟩ := (hk a hoka).sound mid m rest hm
    exact ⟨⟨hoka, hok⟩, (List.append_assoc ..).symm⟩

/-- **A whole string** is accepted if and only if it is the encoding of a value. -/
theorem complete_iff {r : Reader ε μ} {c : μ → Bytes} (h : Inverts r c ok) (e : ε) {bs : Bytes}
    {m : μ} : complete e r bs = .ok m ↔ ok m ∧ bs = c m := by
  constructor
  · intro hc
    unfold complete at hc
    split at hc
    · rename_i a hr
      cases hc
      have := h.sound bs m [] hr
      rwa [List.append_nil] at this
    · cases hc
    · cases hc
  · rintro ⟨hok, rfl⟩
    exact (h.reads m hok).complete e

end Inverts

/-- A record that is read whole. -/
theorem inverts_pure (m : μ) : Inverts (pure m : Reader ε μ) (fun _ => []) fun m' => m' = m where
  reads m' hm' := hm' ▸ reads_pure m
  sound bs m' rest h := by
    cases h
    exact ⟨rfl, rfl⟩

/-- **The last field**: what closes the record is the value that has all of them. -/
theorem Inverts.last {r : Reader ε α} {b : α → Bytes} {oka : α → Prop} (h : Inverts r b oka)
    (p : μ → α) (ok : μ → Prop) {f : α → μ} (hf : ∀ a m, m = f a ↔ ok m ∧ p m = a) :
    Inverts (r >>= fun a => pure (f a)) (fun m => b (p m)) fun m => oka (p m) ∧ ok m := by
  have := h.bind p ok (k := fun a => pure (f a)) (c := fun _ => []) fun a _ =>
    (inverts_pure (f a)).congr (hf a)
  simpa only [List.append_nil] using this

/-- Bytes are read as they are. -/
theorem inverts_readExact (e : ε) (n : ℕ) :
    Inverts (readExact e n) (fun bs => bs) fun bs => bs.length = n where
  reads _ h := reads_readExact e h
  sound bs a rest h := by
    unfold readExact at h
    split at h
    · rename_i hn
      cases h
      exact ⟨List.length_take_of_le hn, (List.take_append_drop n bs).symm⟩
    · cases h

/-- So is an array. -/
theorem inverts_readArray (e : ε) (n : ℕ) :
    Inverts (readArray e n) (fun a => a.1) fun _ => True where
  reads a _ rest := by
    have hle : n ≤ (a.1 ++ rest).length := by
      rw [List.length_append, a.2]
      exact Nat.le_add_right ..
    unfold readArray
    rw [dif_pos hle]
    exact congrArg Except.ok (Prod.ext (Subtype.ext (List.take_left' a.2)) (List.drop_left' a.2))
  sound bs a rest h := by
    unfold readArray at h
    split at h
    · cases h
      exact ⟨trivial, (List.take_append_drop n bs).symm⟩
    · cases h

/-- So is a number that fits its width. -/
theorem inverts_readLe (e : ε) (w : ℕ) :
    Inverts (readLe e w) (toLe w) fun n => n < 256 ^ w where
  reads _ h := reads_readLe e h
  sound bs n rest h := by
    obtain ⟨a, mid, ha, hn⟩ := bind_eq_ok.1 h
    obtain ⟨hlen, rfl⟩ := (inverts_readExact e w).sound bs a mid ha
    cases hn
    refine ⟨hlen ▸ fromLe_lt a, ?_⟩
    rw [← hlen, toLe_fromLe]

/-- Text in its bytes. -/
theorem Inverts.utf8 {r : Reader ε Bytes} {c : Bytes → Bytes} {ok : Bytes → Prop}
    (h : Inverts r c ok) (e : ε) :
    Inverts (readUtf8 e r) (fun s => c (asBytes s)) fun s => ok (asBytes s) where
  reads s hs rest := by
    unfold readUtf8
    rw [h.reads _ hs rest]
    dsimp only
    rw [fromUtf8_eq_some.2 rfl]
  sound bs s rest hr := by
    unfold readUtf8 at hr
    split at hr
    · cases hr
    · rename_i text rest' htext
      split at hr
      · rename_i s' hs
        cases hr
        rw [fromUtf8_eq_some.1 hs]
        exact h.sound bs text rest htext
      · cases hr

/-- As many values as were counted. -/
theorem Inverts.many {r : Reader ε α} {b : α → Bytes} {ok : α → Prop} (h : Inverts r b ok) (n : ℕ) :
    Inverts (readMany r n) (fun as => as.flatMap b) fun as => as.length = n ∧ ∀ a ∈ as, ok a := by
  induction n with
  | zero =>
    constructor
    · rintro as ⟨hlen, -⟩
      rw [List.eq_nil_of_length_eq_zero hlen]
      exact reads_pure []
    · intro bs as rest hr
      cases hr
      exact ⟨⟨rfl, fun a ha => absurd ha List.not_mem_nil⟩, rfl⟩
  | succ n ih =>
    constructor
    · rintro as ⟨hlen, hall⟩
      cases as with
      | nil => cases hlen
      | cons a as =>
        have hrest := ih.reads as
          ⟨Nat.succ.inj hlen, fun a' ha' => hall a' (List.mem_cons_of_mem _ ha')⟩
        exact (h.reads a (hall a (List.mem_cons_self ..))).bind hrest.bind_pure
    · intro bs as rest hr
      obtain ⟨a, mid, ha, hr⟩ := bind_eq_ok.1 hr
      obtain ⟨as', mid', has, hr⟩ := bind_eq_ok.1 hr
      cases hr
      obtain ⟨hok, rfl⟩ := h.sound bs a mid ha
      obtain ⟨⟨hlen, hall⟩, rfl⟩ := ih.sound mid as' rest has
      refine ⟨⟨congrArg (· + 1) hlen, fun a' ha' => ?_⟩, ?_⟩
      · rcases List.mem_cons.1 ha' with rfl | ha'
        · exact hok
        · exact hall a' ha'
      · rw [List.flatMap_cons, List.append_assoc]

/-! ### Readers of values with several encodings -/

/-- **The reader returns the value of what it reads**, on the encodings that `ok` allows
and on no others. -/
structure ReadsAs (r : Reader ε β) (bytes : α → Bytes) (value : α → β) (ok : α → Prop) : Prop where
  reads : ∀ a, ok a → Reads r (bytes a) (value a)
  sound : ∀ bs b rest, r bs = .ok (b, rest) → ∃ a, ok a ∧ bs = bytes a ++ rest ∧ value a = b

namespace ReadsAs

variable {r : Reader ε β} {bytes : α → Bytes} {value : α → β} {ok : α → Prop}

/-- Two values, one after the other. -/
theorem pair (h : ReadsAs r bytes value ok) :
    ReadsAs (do
        let k ← r
        let v ← r
        return (k, v))
      (fun e : α × α => bytes e.1 ++ bytes e.2) (fun e => (value e.1, value e.2))
      fun e => ok e.1 ∧ ok e.2 where
  reads e he := (h.reads e.1 he.1).bind (h.reads e.2 he.2).bind_pure
  sound bs b rest hr := by
    obtain ⟨k, mid, hk, hr⟩ := bind_eq_ok.1 hr
    obtain ⟨v, mid', hv, hr⟩ := bind_eq_ok.1 hr
    cases hr
    obtain ⟨x, hx, rfl, rfl⟩ := h.sound bs k mid hk
    obtain ⟨y, hy, rfl, rfl⟩ := h.sound mid v rest hv
    exact ⟨(x, y), ⟨hx, hy⟩, (List.append_assoc ..).symm, rfl⟩

/-- As many values as were counted. -/
theorem many (h : ReadsAs r bytes value ok) (n : ℕ) :
    ReadsAs (readMany r n) (fun as : List α => as.flatMap bytes) (fun as => as.map value)
      fun as => as.length = n ∧ ∀ a ∈ as, ok a := by
  induction n with
  | zero =>
    constructor
    · rintro as ⟨hlen, -⟩
      rw [List.eq_nil_of_length_eq_zero hlen]
      exact reads_pure []
    · intro bs b rest hr
      cases hr
      exact ⟨[], ⟨rfl, fun a ha => absurd ha List.not_mem_nil⟩, rfl, rfl⟩
  | succ n ih =>
    constructor
    · rintro as ⟨hlen, hall⟩
      obtain ⟨a, as, rfl⟩ := List.exists_cons_of_length_eq_add_one hlen
      obtain ⟨ha, has⟩ := List.forall_mem_cons.1 hall
      exact (h.reads a ha).bind (ih.reads as ⟨Nat.succ.inj hlen, has⟩).bind_pure
    · intro bs b rest hr
      obtain ⟨v, mid, hv, hr⟩ := bind_eq_ok.1 hr
      obtain ⟨vs, mid', hvs, hr⟩ := bind_eq_ok.1 hr
      cases hr
      obtain ⟨a, ha, rfl, rfl⟩ := h.sound bs v mid hv
      obtain ⟨as, ⟨hlen, has⟩, rfl, rfl⟩ := ih.sound mid vs rest hvs
      refine ⟨a :: as, ⟨congrArg (· + 1) hlen, List.forall_mem_cons.2 ⟨ha, has⟩⟩, ?_, rfl⟩
      rw [List.flatMap_cons, List.append_assoc]

end ReadsAs
end Bytes
end Quosh
