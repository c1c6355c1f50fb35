/-
# The log of a pty

`crates/quosh-server/src/session.rs`: `PendingWrites::advance` and `advance_echo_ack`.
An input counts as written when its last byte was written to the pty, and becomes the
echo checkpoint `ECHO_TIMEOUT` after that.

A log has every write to the pty, with the input the bytes belong to, next to what else is
seen of an owner.  What it says about the inputs is all in `Tracks`: an input below the
checkpoint or in the history is written whole (`Done`), the inputs after it are not.
The step lemmas follow the three things that move an input on, `Tracks.take`,
`Tracks.write_input` and `Tracks.echo`; from the invariant, the checkpoint is sound at
any time (`Tracks.settledTo`) and exact where the timer fires (`Tracks.greatest`).
-/

import Quosh.Server.Session
import Mathlib.Data.List.Flatten
import Mathlib.Data.List.Nodup
import Mathlib.Order.Bounds.Basic

namespace Quosh
namespace Owner

open Bytes

/-- What is seen of an owner: bytes of an input or of a reply that it wrote, a screen
that it published when so many inputs were accepted, and the checkpoint after its timer
fired. -/
inductive Event where
  | wrote (now : ℕ) (seq : Option ℕ) (bytes : Bytes)
  | published (now accepted : ℕ) (screen : Screen)
  | fired (now echoAck : ℕ)

/-- The writes of one input, with their times. -/
def writesOf (i : ℕ) (log : List Event) : List (ℕ × Bytes) :=
  log.filterMap fun
    | .wrote now (some j) bytes => if j = i then some (now, bytes) else none
    | _ => none

/-- The bytes of an input that were written `ECHO_TIMEOUT` before `now` or earlier. -/
def settled (now i : ℕ) (log : List Event) : Bytes :=
  ((writesOf i log).filter fun w => w.1 + echoTimeoutMs ≤ now).flatMap Prod.snd

/-- Every byte of the inputs `1` to `k` was written `ECHO_TIMEOUT` before `now` or
earlier. -/
def SettledTo (log : List Event) (taken : List (ℕ × Bytes)) (now k : ℕ) : Prop :=
  ∀ i, 1 ≤ i → i ≤ k → ∃ data, (i, data) ∈ taken ∧ settled now i log = data

/-! ### What was written of an input -/

/-- The writes of two logs. -/
theorem writesOf_append (i : ℕ) (log log' : List Event) :
    writesOf i (log ++ log') = writesOf i log ++ writesOf i log' :=
  List.filterMap_append ..

/-- A write of the input. -/
theorem writesOf_wrote_self (i now : ℕ) (bytes : Bytes) :
    writesOf i [.wrote now (some i) bytes] = [(now, bytes)] := by
  simp [writesOf]

/-- A write of another. -/
theorem writesOf_wrote_of_ne {i : ℕ} {seq : Option ℕ} (h : seq ≠ some i) (now : ℕ)
    (bytes : Bytes) : writesOf i [.wrote now seq bytes] = [] := by
  cases seq with
  | none => rfl
  | some j =>
    have hne : j ≠ i := fun hj => h (congrArg some hj)
    simp [writesOf, hne]

/-- What one write has of an input is that write. -/
theorem eq_of_mem_writesOf_wrote {i now : ℕ} {seq : Option ℕ} {bytes : Bytes} {w : ℕ × Bytes}
    (hw : w ∈ writesOf i [.wrote now seq bytes]) : w = (now, bytes) := by
  by_cases hseq : seq = some i
  · rw [hseq, writesOf_wrote_self] at hw
    exact List.mem_singleton.1 hw
  · rw [writesOf_wrote_of_ne hseq] at hw
    exact absurd hw List.not_mem_nil

/-- One more write of the input. -/
theorem writesOf_append_wrote_self (i now : ℕ) (bytes : Bytes) (log : List Event) :
    writesOf i (log ++ [.wrote now (some i) bytes]) = writesOf i log ++ [(now, bytes)] := by
  rw [writesOf_append, writesOf_wrote_self]

/-- One more write of another. -/
theorem writesOf_append_wrote_of_ne {i j : ℕ} (h : j ≠ i) {now : ℕ} {bytes : Bytes}
    {log : List Event} : writesOf j (log ++ [.wrote now (some i) bytes]) = writesOf j log := by
  have hne : some i ≠ some j := fun he => h (Option.some.inj he).symm
  rw [writesOf_append, writesOf_wrote_of_ne hne, List.append_nil]

/-- Writes that come later change nothing about what was settled before. -/
theorem settled_append {now i : ℕ} {log log' : List Event}
    (h : ∀ w ∈ writesOf i log', now < w.1 + echoTimeoutMs) :
    settled now i (log ++ log') = settled now i log := by
  have hnone : (writesOf i log').filter (fun w => w.1 + echoTimeoutMs ≤ now) = [] :=
    List.filter_eq_nil_iff.2 fun w hw => by simpa using h w hw
  rw [settled, writesOf_append, List.filter_append, hnone, List.append_nil]
  rfl

/-- What is settled of an input was written. -/
theorem length_settled_le (now i : ℕ) (log : List Event) :
    (settled now i log).length ≤ ((writesOf i log).flatMap Prod.snd).length := by
  unfold settled
  exact (List.Sublist.flatMap List.filter_sublist _).length_le

/-- **An input is written whole**, the last of its bytes at `last`. -/
structure Done (log : List Event) (i : ℕ) (data : Bytes) (last : ℕ) : Prop where
  whole : (writesOf i log).flatMap Prod.snd = data
  ends : ∃ ws b, writesOf i log = ws ++ [(last, b)] ∧ b ≠ [] ∧ ∀ w ∈ ws, w.1 ≤ last

/-- It is settled from `ECHO_TIMEOUT` after its last byte on. -/
theorem Done.settled_iff {log : List Event} {i last : ℕ} {data : Bytes}
    (h : Done log i data last) (now : ℕ) :
    settled now i log = data ↔ last + echoTimeoutMs ≤ now := by
  obtain ⟨ws, b, hwrites, hb, hle⟩ := h.ends
  constructor
  · intro hset
    by_contra hlate
    have hlast : ¬(last + echoTimeoutMs ≤ now) := hlate
    have hshort : (settled now i log).length ≤ (ws.flatMap Prod.snd).length := by
      rw [settled, hwrites, List.filter_append, List.filter_singleton]
      simp only [hlast, decide_false, Bool.cond_false, List.append_nil]
      exact (List.Sublist.flatMap List.filter_sublist _).length_le
    have hlong := congrArg List.length h.whole
    rw [hwrites, List.flatMap_append, List.length_append, ← hset] at hlong
    have := List.length_pos_iff.2 hb
    simp only [List.flatMap_singleton] at hlong
    omega
  · intro hlast
    have hall : (writesOf i log).filter (fun w => w.1 + echoTimeoutMs ≤ now) = writesOf i log := by
      refine List.filter_eq_self.2 fun w hw => decide_eq_true ?_
      rw [hwrites] at hw
      rcases List.mem_append.1 hw with hw | hw
      · exact (Nat.add_le_add_right (hle w hw) _).trans hlast
      · rw [List.mem_singleton.1 hw]
        exact hlast
    rw [settled, hall]
    exact h.whole

/-- More writes, none of this input. -/
theorem Done.append_wrote_of_ne {log : List Event} {i j last : ℕ} {data : Bytes}
    (h : Done log j data last) (hne : j ≠ i) (now : ℕ) (bytes : Bytes) :
    Done (log ++ [.wrote now (some i) bytes]) j data last := by
  have hsame : writesOf j (log ++ [.wrote now (some i) bytes]) = writesOf j log :=
    writesOf_append_wrote_of_ne hne
  exact ⟨hsame ▸ h.whole, hsame ▸ h.ends⟩

/-! ### The pending writes and the history -/

/-- The sequenced chunks. -/
def inputChunks (p : PendingWrites) : List (ℕ × WriteChunk) :=
  p.chunks.filterMap fun c => c.seq.map (·, c)

/-- A generated reply is no input. -/
theorem inputChunks_pushGenerated (p : PendingWrites) (bytes : Bytes) :
    inputChunks (p.pushGenerated bytes).2 = inputChunks p := by
  unfold PendingWrites.pushGenerated
  split
  · rfl
  · split
    · rfl
    · dsimp only
      split
      · rename_i back hback
        split
        · rename_i hnone
          obtain ⟨front, hchunks⟩ := List.getLast?_eq_some_iff.1 hback
          simp [inputChunks, hchunks, hnone]
        · simp [inputChunks]
      · simp [inputChunks]

/-- An input that is taken is the last one waiting. -/
theorem inputChunks_pushInput {p : PendingWrites} {seq : ℕ} {data : Bytes}
    (h : (p.pushInput seq data).1 = true) :
    inputChunks (p.pushInput seq data).2 =
      inputChunks p ++ [(seq, { seq := some seq, data })] := by
  unfold PendingWrites.pushInput at h ⊢
  split
  · rename_i hcap
    rw [if_pos hcap] at h
    cases h
  · simp [inputChunks]

/-- **A write consumes bytes of the front chunk only**, and takes it off when they were
the last. -/
theorem advance_front {p : PendingWrites} {c : WriteChunk} {rest : List WriteChunk} {n : ℕ}
    (hchunks : p.chunks = c :: rest) (hn : 0 < n) (hle : n ≤ c.data.length - c.off)
    (history : List (ℕ × ℕ)) (now : ℕ) :
    ((p.advance n history now).1.chunks, (p.advance n history now).2) =
      if c.off + n = c.data.length then
        (rest, history ++ c.seq.toList.map fun seq => (seq, now))
      else ({ c with off := c.off + n } :: rest, history) := by
  have hmin : min n (c.data.length - c.off) = n := Nat.min_eq_left hle
  rw [PendingWrites.advance, hchunks, PendingWrites.advanceChunks, if_neg (by omega), hmin]
  dsimp only
  split
  · rw [Nat.sub_self]
    cases rest with
    | nil => rfl
    | cons c' rest => rw [PendingWrites.advanceChunks, if_pos rfl]
  · rfl

/-- The bytes of a generated reply are no input's. -/
theorem advance_generated {p : PendingWrites} {c : WriteChunk} {rest : List WriteChunk} {n : ℕ}
    (hchunks : p.chunks = c :: rest) (hseq : c.seq = none) (hn : 0 < n)
    (hle : n ≤ c.data.length - c.off) (history : List (ℕ × ℕ)) (now : ℕ) :
    inputChunks (p.advance n history now).1 = inputChunks p ∧
      (p.advance n history now).2 = history := by
  have hadv := advance_front hchunks hn hle history now
  have hrest : inputChunks p = inputChunks { p with chunks := rest } := by
    simp [inputChunks, hchunks, hseq]
  split at hadv
  · obtain ⟨hc, hh⟩ := Prod.mk.inj hadv
    refine ⟨?_, by rw [hh, hseq]; exact List.append_nil _⟩
    rw [hrest, inputChunks, hc]
    rfl
  · obtain ⟨hc, hh⟩ := Prod.mk.inj hadv
    refine ⟨?_, hh⟩
    rw [hrest, inputChunks, hc]
    simp [inputChunks, hseq]

/-- The bytes of an input: some are left, or the input goes into the history. -/
theorem advance_input {p : PendingWrites} {i : ℕ} {c : WriteChunk} {rest : List WriteChunk}
    {n : ℕ} (hchunks : p.chunks = c :: rest) (hseq : c.seq = some i) (hn : 0 < n)
    (hle : n ≤ c.data.length - c.off) (history : List (ℕ × ℕ)) (now : ℕ) :
    inputChunks p = (i, c) :: inputChunks { p with chunks := rest } ∧
      ∃ c' : WriteChunk, c'.data = c.data ∧ c'.off = c.off + n ∧
        ((c'.off < c.data.length ∧ (p.advance n history now).2 = history ∧
          inputChunks (p.advance n history now).1 =
            (i, c') :: inputChunks { p with chunks := rest }) ∨
        (c'.off = c.data.length ∧ (p.advance n history now).2 = history ++ [(i, now)] ∧
          inputChunks (p.advance n history now).1 = inputChunks { p with chunks := rest })) := by
  have hadv := advance_front hchunks hn hle history now
  refine ⟨by simp [inputChunks, hchunks, hseq], { c with off := c.off + n }, rfl, rfl, ?_⟩
  split at hadv
  · rename_i hend
    obtain ⟨hc, hh⟩ := Prod.mk.inj hadv
    refine .inr ⟨hend, by rw [hh, hseq]; rfl, ?_⟩
    rw [inputChunks, hc]
    rfl
  · rename_i hmore
    obtain ⟨hc, hh⟩ := Prod.mk.inj hadv
    refine .inl ⟨?_, hh, ?_⟩
    · change c.off + n < c.data.length
      omega
    · rw [inputChunks, hc]
      simp [inputChunks, hseq]

/-- **The timer takes off the inputs that are due**, up to the first that is not.  The
induction is on the history; where the numbers that are taken off follow one another from
the checkpoint on, the checkpoint moves by as many. -/
theorem advanceEchoAck_spec (now echoAck : ℕ) (history : List (ℕ × ℕ)) :
    ∃ due, history = due ++ (advanceEchoAck now echoAck history).2 ∧
      (∀ p ∈ due, p.2 + echoTimeoutMs ≤ now) ∧
      (∀ p, (advanceEchoAck now echoAck history).2.head? = some p →
        ¬p.2 + echoTimeoutMs ≤ now) ∧
      ∀ m, due.map Prod.fst = List.range' (echoAck + 1) m →
        (advanceEchoAck now echoAck history).1 = echoAck + m := by
  induction history generalizing echoAck with
  | nil =>
    refine ⟨[], rfl, fun p hp => absurd hp List.not_mem_nil, fun p hp => (by cases hp), ?_⟩
    intro m hm
    have := congrArg List.length hm
    rw [List.length_map, List.length_range'] at this
    rw [← this]
    rfl
  | cons p history ih =>
    unfold advanceEchoAck
    split
    · rename_i hdue
      obtain ⟨due, heq, hall, hhead, hack⟩ := ih p.1
      refine ⟨p :: due, congrArg (p :: ·) heq, ?_, hhead, ?_⟩
      · intro q hq
        rcases List.mem_cons.1 hq with rfl | hq
        · exact hdue
        · exact hall q hq
      · intro m hm
        cases m with
        | zero => cases hm
        | succ m =>
          obtain ⟨hfirst, hrest⟩ := List.cons.inj hm
          rw [hack m (by rw [hrest, hfirst]), hfirst]
          omega
    · rename_i hlate
      refine ⟨[], rfl, fun q hq => absurd hq List.not_mem_nil, ?_, ?_⟩
      · intro q hq
        cases hq
        exact hlate
      · intro m hm
        have := congrArg List.length hm
        rw [List.length_map, List.length_range'] at this
        rw [← this]
        rfl

/-! ### What the log says about the inputs -/

/-- **What the log says about every input taken**: those below the checkpoint and those
in the history are written whole, and the pending chunks have what is left of the
others. -/
structure Tracks {δ : Type} (t : ℕ) (s : Session) (o : Owner δ) (log : List Event) : Prop where
  accepted : s.accepted = o.lastSeq
  cmds : ∀ seq data, .input seq data ∈ s.cmds → data ≠ []
  taken : ∀ u ∈ o.taken, u.2 ≠ []
  numbered : o.taken.map Prod.fst = List.range' 1 o.lastSeq
  waiting : ∃ m, o.lastSeq = o.echoAck + m ∧
    o.history.map Prod.fst ++ (inputChunks o.pending).map Prod.fst =
      List.range' (o.echoAck + 1) m
  checked : ∀ i, 1 ≤ i → i ≤ o.echoAck →
    ∃ data last, (i, data) ∈ o.taken ∧ Done log i data last ∧ last + echoTimeoutMs ≤ t
  history : ∀ p ∈ o.history, ∃ data, (p.1, data) ∈ o.taken ∧ Done log p.1 data p.2
  pending : ∀ p ∈ inputChunks o.pending, (p.1, p.2.data) ∈ o.taken ∧
    p.2.off < p.2.data.length ∧ (writesOf p.1 log).flatMap Prod.snd = p.2.data.take p.2.off
  known : ∀ i, o.lastSeq < i → writesOf i log = []
  times : ∀ i, ∀ w ∈ writesOf i log, w.1 ≤ t

/-- A turn that moves no input. -/
structure Quiet {δ : Type} (s : Session) (o : Owner δ) (s' : Session) (o' : Owner δ) : Prop where
  accepted : s'.accepted = s.accepted
  cmds : ∀ msg ∈ s'.cmds, msg ∈ s.cmds
  lastSeq : o'.lastSeq = o.lastSeq
  taken : o'.taken = o.taken
  history : o'.history = o.history
  echoAck : o'.echoAck = o.echoAck
  chunks : inputChunks o'.pending = inputChunks o.pending

variable {δ : Type} {t now : ℕ} {s s' : Session} {o o' : Owner δ} {log log' : List Event}

namespace Tracks

/-- A turn that writes nothing. -/
theorem quiet (h : Tracks t s o log) (hq : Quiet s o s' o') : Tracks t s' o' log where
  accepted := hq.accepted.trans (h.accepted.trans hq.lastSeq.symm)
  cmds seq data hmem := h.cmds seq data (hq.cmds _ hmem)
  taken := hq.taken.symm ▸ h.taken
  numbered := by
    rw [hq.taken, hq.lastSeq]
    exact h.numbered
  waiting := by
    rw [hq.lastSeq, hq.echoAck, hq.history, hq.chunks]
    exact h.waiting
  checked := by
    rw [hq.echoAck, hq.taken]
    exact h.checked
  history := by
    rw [hq.history, hq.taken]
    exact h.history
  pending := by
    rw [hq.chunks, hq.taken]
    exact h.pending
  known := by
    rw [hq.lastSeq]
    exact h.known
  times := h.times

/-- Time goes by, and what is seen is no write. -/
theorem later (h : Tracks t s o log) (hnow : t ≤ now)
    (hlog : ∀ i, writesOf i log' = writesOf i log) : Tracks now s o log' where
  accepted := h.accepted
  cmds := h.cmds
  taken := h.taken
  numbered := h.numbered
  waiting := h.waiting
  checked i hi hle := by
    obtain ⟨data, last, hmem, hdone, hlast⟩ := h.checked i hi hle
    exact ⟨data, last, hmem, ⟨hlog i ▸ hdone.whole, hlog i ▸ hdone.ends⟩, hlast.trans hnow⟩
  history p hp := by
    obtain ⟨data, hmem, hdone⟩ := h.history p hp
    exact ⟨data, hmem, hlog p.1 ▸ hdone.whole, hlog p.1 ▸ hdone.ends⟩
  pending p hp := by
    rw [hlog]
    exact h.pending p hp
  known i hi := (hlog i).trans (h.known i hi)
  times i w hw := (h.times i w (hlog i ▸ hw)).trans hnow

/-- A sequence number stands for one input. -/
theorem unique (h : Tracks t s o log) {i : ℕ} {d d' : Bytes} (hd : (i, d) ∈ o.taken)
    (hd' : (i, d') ∈ o.taken) : d = d' := by
  have hnodup : (o.taken.map Prod.fst).Nodup := h.numbered ▸ List.nodup_range'
  exact congrArg Prod.snd (List.inj_on_of_nodup_map hnodup hd hd' rfl)

/-- The sequence number of an input taken. -/
theorem mem_taken (h : Tracks t s o log) {i : ℕ} {d : Bytes} (hd : (i, d) ∈ o.taken) :
    1 ≤ i ∧ i ≤ o.lastSeq := by
  have hmem := List.mem_map_of_mem (f := Prod.fst) hd
  rw [h.numbered, List.mem_range'_1] at hmem
  omega

/-- **The next input is taken**: it waits behind those that are pending, none of its bytes
is in the log yet, and its number is behind all others. -/
theorem take (h : Tracks t s o log) {data : Bytes} (hdata : data ≠ [])
    (hcmds : ∀ seq' data', .input seq' data' ∈ s'.cmds → data' ≠ [])
    (hacc : s'.accepted = o.lastSeq + 1) (hlast : o'.lastSeq = o.lastSeq + 1)
    (htaken : o'.taken = o.taken ++ [(o.lastSeq + 1, data)]) (hhistory : o'.history = o.history)
    (hecho : o'.echoAck = o.echoAck)
    (hchunks : inputChunks o'.pending =
      inputChunks o.pending ++ [(o.lastSeq + 1, { seq := some (o.lastSeq + 1), data })]) :
    Tracks t s' o' log where
  accepted := hacc.trans hlast.symm
  cmds := hcmds
  taken u hu := by
    rw [htaken] at hu
    rcases List.mem_append.1 hu with hu | hu
    · exact h.taken u hu
    · rw [List.mem_singleton.1 hu]
      exact hdata
  numbered := by
    rw [htaken, hlast, List.map_append, h.numbered, List.range'_concat, Nat.one_mul,
      Nat.add_comm 1]
    rfl
  waiting := by
    obtain ⟨m, hm, heq⟩ := h.waiting
    refine ⟨m + 1, by omega, ?_⟩
    rw [hhistory, hchunks, hecho, List.map_append, ← List.append_assoc, heq, List.range'_concat,
      Nat.one_mul]
    simp only [List.map_cons, List.map_nil]
    rw [hm, Nat.add_right_comm]
  checked i hi hle := by
    obtain ⟨d, last, hmem, hdone⟩ := h.checked i hi (hecho ▸ hle)
    exact ⟨d, last, htaken ▸ List.mem_append_left _ hmem, hdone⟩
  history p hp := by
    obtain ⟨d, hmem, hdone⟩ := h.history p (hhistory ▸ hp)
    exact ⟨d, htaken ▸ List.mem_append_left _ hmem, hdone⟩
  pending p hp := by
    rw [hchunks] at hp
    rcases List.mem_append.1 hp with hp | hp
    · obtain ⟨hmem, hrest⟩ := h.pending p hp
      exact ⟨htaken ▸ List.mem_append_left _ hmem, hrest⟩
    · rw [List.mem_singleton.1 hp, htaken]
      refine ⟨List.mem_append_right _ (List.mem_singleton_self _), List.length_pos_iff.2 hdata, ?_⟩
      rw [h.known _ (Nat.lt_succ_self _)]
      rfl
  known i hi := h.known i (by omega)
  times := h.times

/-- The inputs that wait are in order above the checkpoint. -/
theorem mem_waiting (h : Tracks t s o log) {i : ℕ}
    (hi : i ∈ o.history.map Prod.fst ++ (inputChunks o.pending).map Prod.fst) :
    o.echoAck < i ∧ i ≤ o.lastSeq := by
  obtain ⟨m, hm, heq⟩ := h.waiting
  rw [heq, List.mem_range'_1] at hi
  omega

/-- No input is in the history and waiting, or there twice. -/
theorem nodup_waiting (h : Tracks t s o log) :
    (o.history.map Prod.fst ++ (inputChunks o.pending).map Prod.fst).Nodup := by
  obtain ⟨m, -, heq⟩ := h.waiting
  rw [heq]
  exact List.nodup_range'

/-- The first input that is pending is none of those that were written and none of those behind
it. -/
theorem front_apart (h : Tracks t s o log) {i : ℕ} {c : WriteChunk}
    {rest : List (ℕ × WriteChunk)} (hfront : inputChunks o.pending = (i, c) :: rest) :
    (∀ p ∈ o.history, p.1 ≠ i) ∧ (∀ p ∈ rest, p.1 ≠ i) ∧ o.echoAck < i ∧ i ≤ o.lastSeq := by
  have hsplit : o.history.map Prod.fst ++ (inputChunks o.pending).map Prod.fst =
      o.history.map Prod.fst ++ i :: rest.map Prod.fst := by rw [hfront, List.map_cons]
  have hnodup := h.nodup_waiting
  rw [hsplit] at hnodup
  obtain ⟨-, hnodup', hdisjoint⟩ := List.nodup_append.1 hnodup
  have hbound := h.mem_waiting (i := i) (hsplit ▸
    List.mem_append_right _ (List.mem_cons_self ..))
  refine ⟨fun p hp => ?_, fun p hp he => ?_, hbound⟩
  · exact hdisjoint _ (List.mem_map_of_mem hp) _ (List.mem_cons_self ..)
  · exact (List.nodup_cons.1 hnodup').1 (he ▸ List.mem_map_of_mem (f := Prod.fst) hp)

/-- **Bytes of an input are written**: of the first that is pending.  It goes on waiting
with the rest of its bytes, or into the history with the time of this write; the log says
the same of every other input as before. -/
theorem write_input (h : Tracks t s o log) (hnow : t ≤ now) {i : ℕ} {c c' : WriteChunk}
    {rest : List (ℕ × WriteChunk)} {bytes : Bytes} (hfront : inputChunks o.pending = (i, c) :: rest)
    (hbytes : bytes ≠ []) (hdata : c'.data = c.data)
    (hwritten : c.data.take c.off ++ bytes = c.data.take c'.off)
    (hlast : o'.lastSeq = o.lastSeq) (htaken : o'.taken = o.taken) (hecho : o'.echoAck = o.echoAck)
    (hnext : (c'.off < c.data.length ∧ o'.history = o.history ∧
        inputChunks o'.pending = (i, c') :: rest) ∨
      (c'.off = c.data.length ∧ o'.history = o.history ++ [(i, now)] ∧
        inputChunks o'.pending = rest)) :
    Tracks now s o' (log ++ [.wrote now (some i) bytes]) := by
  obtain ⟨hpast, hlater, hlow, hhigh⟩ := h.front_apart hfront
  obtain ⟨himem, hoff, hbefore⟩ := h.pending (i, c) (hfront ▸ List.mem_cons_self ..)
  have hself := writesOf_append_wrote_self i now bytes log
  have hflat : (writesOf i (log ++ [.wrote now (some i) bytes])).flatMap Prod.snd =
      c.data.take c'.off := by
    rw [hself, List.flatMap_append, hbefore, List.flatMap_singleton, hwritten]
  -- The writes of every other input are what they were.
  have hwrote (p : ℕ × ℕ) (hp : p ∈ o.history) : ∃ data, (p.1, data) ∈ o.taken ∧
      Done (log ++ [.wrote now (some i) bytes]) p.1 data p.2 := by
    obtain ⟨data, hmem, hd⟩ := h.history p hp
    exact ⟨data, hmem, hd.append_wrote_of_ne (hpast p hp) now bytes⟩
  have hwaits (p : ℕ × WriteChunk) (hp : p ∈ rest) : (p.1, p.2.data) ∈ o.taken ∧
      p.2.off < p.2.data.length ∧
      (writesOf p.1 (log ++ [.wrote now (some i) bytes])).flatMap Prod.snd =
        p.2.data.take p.2.off := by
    rw [writesOf_append_wrote_of_ne (hlater p hp)]
    exact h.pending p (hfront ▸ List.mem_cons_of_mem _ hp)
  obtain ⟨m, hm, heq⟩ := h.waiting
  refine ⟨h.accepted.trans hlast.symm, h.cmds, htaken ▸ h.taken, ?_, ⟨m, by omega, ?_⟩,
    fun j hj hle => ?_, fun p hp => ?_, fun p hp => ?_, fun j hj => ?_, fun j w hw => ?_⟩
  · rw [htaken, hlast]
    exact h.numbered
  · rw [hecho, ← heq, hfront]
    rcases hnext with ⟨-, hhist, hchunks⟩ | ⟨-, hhist, hchunks⟩
    · rw [hhist, hchunks]
      rfl
    · rw [hhist, hchunks, List.map_append, List.append_assoc]
      rfl
  · obtain ⟨data, last, hmem, hd, hle'⟩ := h.checked j hj (hecho ▸ hle)
    exact ⟨data, last, htaken ▸ hmem, hd.append_wrote_of_ne (by omega) now bytes, hle'.trans hnow⟩
  · rw [htaken]
    rcases hnext with ⟨-, hhist, -⟩ | ⟨hend, hhist, -⟩
    · exact hwrote p (hhist ▸ hp)
    · rw [hhist] at hp
      rcases List.mem_append.1 hp with hp | hp
      · exact hwrote p hp
      · rw [List.mem_singleton.1 hp]
        refine ⟨c.data, himem, ?_, writesOf i log, bytes, hself, hbytes, fun w hw => ?_⟩
        · rw [hflat, hend, List.take_length]
        · exact (h.times i w hw).trans hnow
  · rw [htaken]
    rcases hnext with ⟨hlt, -, hchunks⟩ | ⟨-, -, hchunks⟩
    · rw [hchunks] at hp
      rcases List.mem_cons.1 hp with rfl | hp
      · exact ⟨hdata ▸ himem, hdata ▸ hlt, hdata ▸ hflat⟩
      · exact hwaits p hp
    · exact hwaits p (hchunks ▸ hp)
  · rw [writesOf_append_wrote_of_ne (by omega)]
    exact h.known j (hlast ▸ hj)
  · rw [writesOf_append] at hw
    rcases List.mem_append.1 hw with hw | hw
    · exact (h.times j w hw).trans hnow
    · rw [eq_of_mem_writesOf_wrote hw]

/-- The inputs below the checkpoint are settled. -/
theorem settledTo (h : Tracks t s o log) : SettledTo log o.taken t o.echoAck := by
  intro i hi hle
  obtain ⟨data, last, hmem, hdone, hlast⟩ := h.checked i hi hle
  exact ⟨data, hmem, (hdone.settled_iff t).2 hlast⟩

/-- **The checkpoint is exact** when the first input behind it is not due.  That input is
the first of the history, whose time is not over, or else the first that is pending, of
which bytes are left: in both cases it is not settled. -/
theorem greatest (h : Tracks t s o log)
    (hhead : ∀ p, o.history.head? = some p → ¬p.2 + echoTimeoutMs ≤ t) :
    IsGreatest {k | SettledTo log o.taken t k} o.echoAck := by
  refine ⟨h.settledTo, fun k hk => not_lt.1 fun hlt => ?_⟩
  obtain ⟨data, hmem, hset⟩ := hk (o.echoAck + 1) (Nat.le_add_left ..) hlt
  obtain ⟨m, hm, heq⟩ := h.waiting
  obtain ⟨m, rfl⟩ : ∃ m', m = m' + 1 := ⟨m - 1, by have := h.mem_taken hmem; omega⟩
  rw [List.range'_succ] at heq
  cases hhist : o.history with
  | cons p rest =>
    rw [hhist, List.map_cons, List.cons_append] at heq
    obtain ⟨hfirst, -⟩ := List.cons.inj heq
    obtain ⟨d, hd, hdone⟩ := h.history p (hhist ▸ List.mem_cons_self ..)
    rw [hfirst] at hd hdone
    obtain rfl := h.unique hd hmem
    exact hhead p (by rw [hhist]; rfl) ((hdone.settled_iff t).1 hset)
  | nil =>
    rw [hhist, List.map_nil, List.nil_append] at heq
    cases hpend : inputChunks o.pending with
    | nil =>
      rw [hpend] at heq
      cases heq
    | cons p rest =>
      rw [hpend, List.map_cons] at heq
      obtain ⟨hfirst, -⟩ := List.cons.inj heq
      obtain ⟨hd, hoff, hbytes⟩ := h.pending p (hpend ▸ List.mem_cons_self ..)
      rw [hfirst] at hd hbytes
      have hdata := h.unique hd hmem
      have hle := length_settled_le t (o.echoAck + 1) log
      rw [hset, hbytes, ← hdata, List.length_take] at hle
      omega

/-- **The timer fires**: the checkpoint moves past the inputs that are due.  They follow it
without a gap, as what waits does, and each of them is done and its time over. -/
theorem echo (h : Tracks t s o log) (hnow : t ≤ now)
    (hecho : (o'.echoAck, o'.history) = advanceEchoAck now o.echoAck o.history)
    (hlast : o'.lastSeq = o.lastSeq) (htaken : o'.taken = o.taken)
    (hpending : o'.pending = o.pending) :
    Tracks now s o' log ∧ o.echoAck ≤ o'.echoAck ∧
      ∀ p, o'.history.head? = some p → ¬p.2 + echoTimeoutMs ≤ now := by
  obtain ⟨due, hsplit, hdue, hhead, hack⟩ := advanceEchoAck_spec now o.echoAck o.history
  rw [← hecho] at hsplit hhead hack
  obtain ⟨m, hm, heq⟩ := h.waiting
  rw [hsplit, List.map_append, List.append_assoc] at heq
  obtain ⟨k, hk, hdueEq, hrest⟩ := List.range'_eq_append_iff.1 heq.symm
  have hack' : o'.echoAck = o.echoAck + k := hack k hdueEq
  refine ⟨⟨h.accepted.trans hlast.symm, h.cmds, htaken ▸ h.taken, ?_, ⟨m - k, by omega, ?_⟩,
    fun i hi hle => ?_, fun p hp => ?_, ?_, fun i hi => h.known i (hlast ▸ hi),
    fun i w hw => (h.times i w hw).trans hnow⟩, hack' ▸ Nat.le_add_right .., hhead⟩
  · rw [htaken, hlast]
    exact h.numbered
  · rw [hpending, hack', hrest, Nat.mul_one, Nat.add_right_comm]
  · rw [htaken]
    by_cases hold : i ≤ o.echoAck
    · obtain ⟨data, last, hmem, hdone, hlast'⟩ := h.checked i hi hold
      exact ⟨data, last, hmem, hdone, hlast'.trans hnow⟩
    · have himem : i ∈ due.map Prod.fst := by
        rw [hdueEq, List.mem_range'_1]
        omega
      obtain ⟨p, hp, rfl⟩ := List.mem_map.1 himem
      obtain ⟨data, hmem, hdone⟩ := h.history p (hsplit ▸ List.mem_append_left _ hp)
      exact ⟨data, p.2, hmem, hdone, hdue p hp⟩
  · rw [htaken]
    exact h.history p (hsplit ▸ List.mem_append_right _ hp)
  · rw [hpending, htaken]
    exact h.pending

/-- **What was settled at a time stays what it was**: later writes and inputs do not
count. -/
theorem settledTo_iff (h : Tracks t s o log) (hnow : now ≤ t) {extra : List Event}
    (hextra : ∀ i, ∀ w ∈ writesOf i extra, t ≤ w.1) {taken : List (ℕ × Bytes)}
    (htaken : taken = o.taken ∨ ∃ data, data ≠ [] ∧ taken = o.taken ++ [(o.lastSeq + 1, data)])
    (k : ℕ) : SettledTo (log ++ extra) taken now k ↔ SettledTo log o.taken now k := by
  have hsame (i : ℕ) : settled now i (log ++ extra) = settled now i log := by
    refine settled_append fun w hw => ?_
    have := hextra i w hw
    unfold echoTimeoutMs
    omega
  refine forall_congr' fun i => imp_congr_right fun _ => imp_congr_right fun _ =>
    exists_congr fun data => ?_
  rw [hsame]
  refine and_congr_left fun hset => ?_
  rcases htaken with rfl | ⟨new, hnew, rfl⟩
  · exact Iff.rfl
  · refine ⟨fun hmem => ?_, fun hmem => List.mem_append_left _ hmem⟩
    rcases List.mem_append.1 hmem with hmem | hmem
    · exact hmem
    · obtain ⟨rfl, rfl⟩ := Prod.mk.inj (List.mem_singleton.1 hmem)
      have hnone := h.known _ (Nat.lt_succ_self _)
      rw [settled, hnone] at hset
      exact absurd hset.symm hnew

end Tracks

end Owner
end Quosh
