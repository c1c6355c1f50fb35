/-
# Pending writes as a stream

`crates/quosh-server/src/session.rs`, `PendingWrites`: inputs and generated replies are
pushed behind each other, and what the pty takes is advanced over.  `Stream` is the pending
writes and the history next to what went in and what went out; `streamMachine` has the
three calls, with what their callers keep to.

What is kept by every call is `Kept`: the chunks are what is left of the stream, none of
them empty, and the inputs that end in the part advanced over are those in the history.
`pending_writes_faithful` is what follows for every run, and `Ran.streamed` says that the
pending writes of an owner come about in such a run, under its rule for taking input.
-/

import Quosh.Control.Machine
import Quosh.Data.Segments
import Quosh.Server.Echo

namespace Quosh

open Bytes Segments

/-- What is left of a chunk. -/
def WriteChunk.left (c : WriteChunk) : Bytes := c.data.drop c.off

namespace PendingWrites

/-- What is left of the chunks, with the inputs they belong to. -/
def segments (chunks : List WriteChunk) : List (Option ℕ × Bytes) :=
  chunks.map fun c => (c.seq, c.left)

/-- The remaining bytes. -/
def remaining (p : PendingWrites) : Bytes := (segments p.chunks).flatMap Prod.snd

/-- A call of one of the three functions that change pending writes. -/
inductive Call where
  | pushInput (seq : ℕ) (data : Bytes)
  | pushGenerated (bytes : Bytes)
  | advance (n now : ℕ)

/-- Pending writes and history, with the pushes that were accepted and what was advanced
over, each time. -/
structure Stream where
  pending : PendingWrites := {}
  history : List (ℕ × ℕ) := []
  accepted : List (Option ℕ × Bytes) := []
  written : List (ℕ × Bytes) := []

/-- The calls and what their callers keep to: inputs are not empty, not too long and in
increasing order, and nothing is advanced over that was not in `write_buf`. -/
def streamMachine : Machine Stream Call where
  Allows st
    | .pushInput seq data => data ≠ [] ∧ data.length ≤ maxInputBytes ∧
        ∀ i ∈ st.accepted.filterMap Prod.fst, i < seq
    | .pushGenerated _ => True
    | .advance n _ => n ≤ st.pending.writeBuf.length
  act st
    | .pushInput seq data =>
      let (ok, pending) := st.pending.pushInput seq data
      { st with pending, accepted := st.accepted ++ if ok then [(some seq, data)] else [] }
    | .pushGenerated bytes =>
      let (ok, pending) := st.pending.pushGenerated bytes
      { st with pending, accepted := st.accepted ++ if ok then [(none, bytes)] else [] }
    | .advance n now =>
      let (pending, history) := st.pending.advance n st.history now
      { st with
        pending, history, written := st.written ++ [(now, st.pending.writeBuf.take n)] }

instance : (st : Stream) → (call : Call) → Decidable (streamMachine.Allows st call)
  | st, .pushInput seq data => inferInstanceAs (Decidable (data ≠ [] ∧
      data.length ≤ maxInputBytes ∧ ∀ i ∈ st.accepted.filterMap Prod.fst, i < seq))
  | _, .pushGenerated _ => .isTrue trivial
  | st, .advance n _ => inferInstanceAs (Decidable (n ≤ st.pending.writeBuf.length))

/-- The rule of the owner: input is taken while little is pending. -/
def Ruled (st : Stream) : Call → Prop
  | .pushInput .. => st.pending.unread < maxPending
  | .pushGenerated _ => True
  | .advance .. => True

/-! ### Single calls -/

variable {p : PendingWrites}

/-- What is left of a chunk is not empty. -/
theorem segments_ne_nil {chunks : List WriteChunk}
    (hleft : ∀ c ∈ chunks, c.off < c.data.length) : ∀ s ∈ segments chunks, s.2 ≠ [] := by
  intro s hs
  obtain ⟨c, hc, rfl⟩ := List.mem_map.1 hs
  have hlt := hleft c hc
  refine List.ne_nil_of_length_pos ?_
  show 0 < c.left.length
  rw [WriteChunk.left, List.length_drop]
  omega

/-- The segments of two queues. -/
theorem segments_append (a b : List WriteChunk) : segments (a ++ b) = segments a ++ segments b :=
  List.map_append

/-- A push that is refused changes nothing. -/
theorem pushInput_of_false {seq : ℕ} {data : Bytes} (h : (p.pushInput seq data).1 = false) :
    (p.pushInput seq data).2 = p := by
  unfold pushInput at h ⊢
  split_ifs at h ⊢
  rfl

/-- An input is taken up to the hard limit. -/
theorem pushInput_eq_true_iff {seq : ℕ} {data : Bytes} :
    (p.pushInput seq data).1 = true ↔ p.unread + data.length ≤ pendingHardMax := by
  unfold pushInput
  split_ifs with h
  · exact iff_of_false (fun hfalse => nomatch hfalse) (by omega)
  · exact iff_of_true rfl (by omega)

/-- An input that is taken is the last chunk. -/
theorem pushInput_of_true {seq : ℕ} {data : Bytes} (h : (p.pushInput seq data).1 = true) :
    (p.pushInput seq data).2 =
      { chunks := p.chunks ++ [{ seq := some seq, data }], unread := p.unread + data.length } := by
  rw [pushInput_eq_true_iff] at h
  unfold pushInput
  rw [if_neg (by omega)]

/-- A generated reply begins a chunk, or joins the last one when that has no input. -/
theorem pushGenerated_eq {bytes : Bytes} (hne : bytes ≠ [])
    (hcap : p.unread + bytes.length ≤ pendingHardMax) :
    ∃ chunks, p.pushGenerated bytes = (true, { chunks, unread := p.unread + bytes.length }) ∧
      (chunks = p.chunks ++ [{ seq := none, data := bytes }] ∨
        ∃ front back, p.chunks = front ++ [back] ∧ back.seq = none ∧
          chunks = front ++ [{ back with data := back.data ++ bytes }]) := by
  unfold pushGenerated
  rw [if_neg hne, if_neg (by omega)]
  dsimp only
  split
  · rename_i back hback
    obtain ⟨front, hchunks⟩ := List.getLast?_eq_some_iff.1 hback
    split
    · rename_i hseq
      refine ⟨_, rfl, .inr ⟨front, back, hchunks, hseq, ?_⟩⟩
      rw [hchunks, List.dropLast_concat]
    · exact ⟨_, rfl, .inl rfl⟩
  · exact ⟨_, rfl, .inl rfl⟩

/-- A reply that is refused changes nothing. -/
theorem pushGenerated_of_false {bytes : Bytes} (h : (p.pushGenerated bytes).1 = false) :
    (p.pushGenerated bytes).2 = p := by
  by_cases hnil : bytes = []
  · subst hnil
    rfl
  · by_cases hfits : p.unread + bytes.length ≤ pendingHardMax
    · obtain ⟨chunks, heq, -⟩ := pushGenerated_eq hnil hfits
      rw [heq] at h
      cases h
    · unfold pushGenerated
      rw [if_neg hnil, if_pos (by omega)]

/-- Bytes at the end that belong to no input: what is left, and where inputs end. -/
structure Extends (chunks : List WriteChunk) (bytes : Bytes) (chunks' : List WriteChunk) :
    Prop where
  left : (∀ c ∈ chunks, c.off < c.data.length) → ∀ c ∈ chunks', c.off < c.data.length
  bytes : (∀ c ∈ chunks, c.off < c.data.length) →
    (segments chunks').flatMap Prod.snd = (segments chunks).flatMap Prod.snd ++ bytes
  marks (k : ℕ) : Segments.marks k (segments chunks') = Segments.marks k (segments chunks)

/-- Bytes of their own. -/
theorem extends_new (chunks : List WriteChunk) {bytes : Bytes} (hne : bytes ≠ []) :
    Extends chunks bytes (chunks ++ [{ seq := none, data := bytes }]) where
  left hopen c hc := by
    rcases List.mem_append.1 hc with hc | hc
    · exact hopen c hc
    · rw [List.mem_singleton.1 hc]
      exact List.length_pos_iff.2 hne
  bytes _ := by
    rw [segments_append, List.flatMap_append]
    simp [segments, WriteChunk.left]
  marks k := by
    rw [segments_append, marks_append]
    exact List.append_nil _

/-- Bytes that join the last chunk. -/
theorem extends_last (front : List WriteChunk) {back : WriteChunk} (hseq : back.seq = none)
    (bytes : Bytes) :
    Extends (front ++ [back]) bytes (front ++ [{ back with data := back.data ++ bytes }]) where
  left hopen c hc := by
    rcases List.mem_append.1 hc with hc | hc
    · exact hopen c (List.mem_append_left _ hc)
    · have hback := hopen back (List.mem_append_right _ (List.mem_singleton_self _))
      rw [List.mem_singleton.1 hc, List.length_append]
      dsimp only
      omega
  bytes hopen := by
    have hback := hopen back (List.mem_append_right _ (List.mem_singleton_self _))
    rw [segments_append, segments_append, List.flatMap_append, List.flatMap_append,
      List.append_assoc]
    simp only [segments, WriteChunk.left, List.map_cons, List.map_nil, List.flatMap_singleton]
    rw [List.drop_append_of_le_length hback.le]
  marks k := by
    rw [segments_append, segments_append, marks_append, marks_append]
    simp only [segments, hseq, List.map_cons, List.map_nil, marks_none]

/-- **A generated reply goes to the end** and belongs to no input. -/
theorem pushGenerated_of_true {bytes : Bytes} (hcap : p.unread ≤ pendingHardMax)
    (h : (p.pushGenerated bytes).1 = true) :
    Extends p.chunks bytes (p.pushGenerated bytes).2.chunks ∧
      (p.pushGenerated bytes).2.unread = p.unread + bytes.length ∧
      (p.pushGenerated bytes).2.unread ≤ pendingHardMax := by
  by_cases hnil : bytes = []
  · subst hnil
    exact ⟨⟨id, fun _ => (List.append_nil _).symm, fun _ => rfl⟩, rfl, hcap⟩
  · by_cases hfits : p.unread + bytes.length ≤ pendingHardMax
    · obtain ⟨chunks, heq, hchunks⟩ := pushGenerated_eq hnil hfits
      rw [heq]
      refine ⟨?_, rfl, hfits⟩
      rcases hchunks with rfl | ⟨front, back, hfront, hseq, rfl⟩
      · exact extends_new p.chunks hnil
      · rw [hfront]
        exact extends_last front hseq bytes
    · unfold pushGenerated at h
      rw [if_neg hnil, if_pos (by omega)] at h
      cases h

/-- Advancing over bytes of the front chunk counts them off. -/
theorem unread_advance {n : ℕ} (hn : n ≤ p.writeBuf.length) (history : List (ℕ × ℕ)) (now : ℕ) :
    (p.advance n history now).1.unread = p.unread - n := by
  unfold advance
  cases hchunks : p.chunks with
  | nil =>
    rw [writeBuf, hchunks] at hn
    rw [Nat.le_zero.1 hn]
    rfl
  | cons c rest =>
    rw [writeBuf, hchunks, List.length_drop] at hn
    rw [advanceChunks]
    split
    · rename_i hzero
      rw [hzero]
      rfl
    · have hmin : min n (c.data.length - c.off) = n := Nat.min_eq_left hn
      rw [hmin]
      dsimp only
      split
      · rw [Nat.sub_self]
        cases rest with
        | nil => rfl
        | cons c' rest => rw [advanceChunks, if_pos rfl]
      · rfl

/-- What advancing leaves of the writes does not depend on the history. -/
theorem advance_fst (n : ℕ) (history history' : List (ℕ × ℕ)) (now : ℕ) :
    (p.advance n history now).1 = (p.advance n history' now).1 := by
  unfold advance
  generalize p.unread = unread
  induction p.chunks generalizing n unread history history' with
  | nil => rfl
  | cons c rest ih =>
    rw [advanceChunks, advanceChunks]
    dsimp only
    split
    · rfl
    · split
      · exact ih ..
      · rfl

/-- Advancing over nothing changes nothing. -/
theorem advance_zero (history : List (ℕ × ℕ)) (now : ℕ) :
    p.advance 0 history now = (p, history) := by
  unfold advance
  obtain ⟨chunks, unread⟩ := p
  cases chunks with
  | nil => rfl
  | cons c rest => rw [advanceChunks, if_pos rfl]

/-! ### What every call keeps -/

/-- **What every call keeps**: the chunks are what is left of the stream, none of them
empty, and the inputs that end in what was advanced over are those in the history. -/
structure Kept (st : Stream) : Prop where
  left : ∀ c ∈ st.pending.chunks, c.off < c.data.length
  unread : st.pending.unread = total (segments st.pending.chunks)
  bounded : st.pending.unread ≤ pendingHardMax
  bytes : st.written.flatMap Prod.snd ++ st.pending.remaining = st.accepted.flatMap Prod.snd
  inputs : ∀ u ∈ st.accepted, u.1 ≠ none → u.2 ≠ []
  marks : ∃ done, marks 0 st.accepted =
      done ++ marks (total st.written) (segments st.pending.chunks) ∧
    ∀ m ∈ done, m.2 ≤ total st.written
  history : st.history = completed st.accepted st.written
  ordered : (st.accepted.filterMap Prod.fst).Pairwise (· < ·)

namespace Kept

variable {st : Stream} {seq n now : ℕ} {data bytes : Bytes}

/-- Nothing is kept at first. -/
theorem start : Kept {} where
  left _ hc := absurd hc List.not_mem_nil
  unread := rfl
  bounded := Nat.zero_le _
  bytes := rfl
  inputs _ hu := absurd hu List.not_mem_nil
  marks := ⟨[], rfl, fun _ hm => absurd hm List.not_mem_nil⟩
  history := rfl
  ordered := .nil

/-- The stream is as long as what was written and what is left. -/
theorem total_accepted (h : Kept st) :
    total st.accepted = total st.written + total (segments st.pending.chunks) := by
  unfold total
  rw [← h.bytes, List.length_append]
  rfl

/-- An input is taken.  It is a chunk of its own behind all others, so its mark is at the
end of the stream, and it is completed when all of the stream is written. -/
theorem pushInput (h : Kept st)
    (hallows : streamMachine.Allows st (.pushInput seq data)) :
    Kept (streamMachine.act st (.pushInput seq data)) := by
  obtain ⟨hdata, -, horder⟩ := hallows
  show Kept { st with
    pending := (st.pending.pushInput seq data).2
    accepted := st.accepted ++
      if (st.pending.pushInput seq data).1 then [(some seq, data)] else [] }
  cases hok : (st.pending.pushInput seq data).1 with
  | false =>
    rw [pushInput_of_false hok, if_neg Bool.false_ne_true, List.append_nil]
    exact h
  | true =>
    rw [pushInput_of_true hok, if_pos rfl]
    rw [pushInput_eq_true_iff] at hok
    have hinputs : ∀ u ∈ [((some seq : Option ℕ), data)], u.1 ≠ none → u.2 ≠ [] := by
      intro u hu _
      rw [List.mem_singleton.1 hu]
      exact hdata
    obtain ⟨done, hmarks, hdone⟩ := h.marks
    have htotal := h.total_accepted
    refine ⟨fun c hc => ?_, ?_, hok, ?_, fun u hu => ?_, ⟨done, ?_, hdone⟩, ?_, ?_⟩
    · rcases List.mem_append.1 hc with hc | hc
      · exact h.left c hc
      · rw [List.mem_singleton.1 hc]
        exact List.length_pos_iff.2 hdata
    · dsimp only
      rw [segments_append, total_append, ← h.unread]
      simp [segments, total, WriteChunk.left]
    · rw [remaining, segments_append, List.flatMap_append, List.flatMap_append, ← h.bytes,
        List.append_assoc]
      rfl
    · rcases List.mem_append.1 hu with hu | hu
      · exact h.inputs u hu
      · exact hinputs u hu
    · rw [marks_append, segments_append, marks_append, hmarks, Nat.zero_add, htotal,
        List.append_assoc]
      rfl
    · dsimp only
      rw [h.history, completed_append_segs hinputs (by omega)]
    · rw [List.filterMap_append]
      refine List.pairwise_append.2 ⟨h.ordered, List.pairwise_singleton _ _, fun i hi j hj => ?_⟩
      rw [List.mem_singleton.1 hj]
      exact horder i hi

/-- **Replies are taken**, or dropped with a mark.  They may join the last chunk, which
changes no mark, since a chunk that they join has no number. -/
theorem pushGenerated (h : Kept st) : Kept (streamMachine.act st (.pushGenerated bytes)) := by
  show Kept { st with
    pending := (st.pending.pushGenerated bytes).2
    accepted := st.accepted ++
      if (st.pending.pushGenerated bytes).1 then [(none, bytes)] else [] }
  cases hok : (st.pending.pushGenerated bytes).1 with
  | false =>
    rw [pushGenerated_of_false hok, if_neg Bool.false_ne_true, List.append_nil]
    exact h
  | true =>
    rw [if_pos rfl]
    obtain ⟨hextends, hunread, hbounded⟩ := pushGenerated_of_true h.bounded hok
    have hbytes := hextends.bytes h.left
    obtain ⟨done, hmarks, hdone⟩ := h.marks
    have htotal := h.total_accepted
    have hinputs : ∀ u ∈ [((none : Option ℕ), bytes)], u.1 ≠ none → u.2 ≠ [] := by
      intro u hu hne
      rw [List.mem_singleton.1 hu] at hne
      exact absurd rfl hne
    refine ⟨hextends.left h.left, ?_, hbounded, ?_, fun u hu => ?_, ⟨done, ?_, hdone⟩, ?_, ?_⟩
    · have hlength := congrArg List.length hbytes
      rw [List.length_append] at hlength
      exact hunread.trans ((congrArg (· + bytes.length) h.unread).trans hlength.symm)
    · dsimp only
      rw [remaining, hbytes, List.flatMap_append, ← h.bytes, remaining, List.append_assoc,
        List.flatMap_singleton]
    · rcases List.mem_append.1 hu with hu | hu
      · exact h.inputs u hu
      · exact hinputs u hu
    · rw [marks_append, hextends.marks, hmarks]
      exact List.append_nil _
    · dsimp only
      rw [h.history, completed_append_segs hinputs (by omega)]
    · rw [List.filterMap_append]
      exact (List.append_nil _).symm ▸ h.ordered

/-- The inputs that end in the next bytes are those that they complete.  The marks that are
passed lie behind what was written, those in the chunks that are left lie beyond it. -/
theorem completed_wrote (h : Kept st) {chunks : List WriteChunk} {ended : List (ℕ × ℕ)}
    (hleft : ∀ c ∈ chunks, c.off < c.data.length)
    (hmarks : Segments.marks (total st.written) (segments st.pending.chunks) =
      ended ++ Segments.marks (total st.written + bytes.length) (segments chunks))
    (hended : ∀ m ∈ ended, m.2 ≤ total st.written + bytes.length) (now : ℕ) :
    completed st.accepted (st.written ++ [(now, bytes)]) =
      st.history ++ ended.map fun m => (m.1, now) := by
  obtain ⟨done, hall, hdone⟩ := h.marks
  have hpassed : ∀ m ∈ done, 0 < m.2 ∧ m.2 ≤ total st.written := by
    intro m hm
    have hmem : m ∈ Segments.marks 0 st.accepted := by
      rw [hall]
      exact List.mem_append_left _ hm
    exact ⟨(lt_of_mem_marks h.inputs hmem).1, hdone m hm⟩
  have hnext : ∀ m ∈ Segments.marks (total st.written) (segments st.pending.chunks),
      total st.written < m.2 := by
    intro m hm
    exact (lt_of_mem_marks (fun s hs _ => segments_ne_nil h.left s hs) hm).1
  have hlater : ∀ m ∈ Segments.marks (total st.written + bytes.length) (segments chunks),
      total st.written + bytes.length < m.2 := by
    intro m hm
    exact (lt_of_mem_marks (fun s hs _ => segments_ne_nil hleft s hs) hm).1
  have hends : ended.filterMap (fun m =>
      if m.2 ≤ total st.written + bytes.length then some (m.1, now) else none) =
        ended.map fun m => (m.1, now) := by
    rw [← List.filterMap_eq_map]
    exact List.filterMap_congr fun m hm => if_pos (hended m hm)
  have hnone : (Segments.marks (total st.written + bytes.length) (segments chunks)).filterMap
      (fun m => if m.2 ≤ total st.written + bytes.length then some (m.1, now) else none) = [] :=
    List.filterMap_eq_nil_iff.2 fun m hm => if_neg (not_le.2 (hlater m hm))
  rw [completed_append hall hpassed hnext now bytes, hmarks, List.filterMap_append, hends, hnone,
    List.append_nil, ← h.history]

/-- **Bytes off the front of the stream**: the inputs that end in them are completed.
`wrotePart` and `wroteWhole` are the two kinds of a write. -/
theorem wrote (h : Kept st) {rest : PendingWrites} {ended : List (ℕ × ℕ)}
    (hleft : ∀ c ∈ rest.chunks, c.off < c.data.length)
    (hunread : rest.unread + bytes.length = st.pending.unread)
    (hremaining : st.pending.remaining = bytes ++ rest.remaining)
    (hmarks : Segments.marks (total st.written) (segments st.pending.chunks) =
      ended ++ Segments.marks (total st.written + bytes.length) (segments rest.chunks))
    (hended : ∀ m ∈ ended, m.2 ≤ total st.written + bytes.length) (now : ℕ) :
    Kept { st with
      pending := rest
      history := st.history ++ ended.map fun m => (m.1, now)
      written := st.written ++ [(now, bytes)] } := by
  obtain ⟨done, hall, hdone⟩ := h.marks
  have htotal : total (st.written ++ [(now, bytes)]) = total st.written + bytes.length := by
    rw [total_append, total_cons]
    rfl
  have hcompleted := h.completed_wrote hleft hmarks hended now
  rw [hmarks, ← List.append_assoc] at hall
  refine ⟨hleft, ?_, ?_, ?_, h.inputs, ⟨done ++ ended, ?_, fun m hm => ?_⟩, hcompleted.symm,
    h.ordered⟩
  · have hcount := h.unread
    have hlength := congrArg List.length hremaining
    rw [List.length_append] at hlength
    exact Nat.add_right_cancel (hunread.trans (hcount.trans (hlength.trans (Nat.add_comm _ _))))
  · have hbounded := h.bounded
    dsimp only
    omega
  · dsimp only
    rw [List.flatMap_append, ← h.bytes, hremaining, List.append_assoc, List.flatMap_singleton]
  · rw [htotal]
    exact hall
  · rw [htotal]
    rcases List.mem_append.1 hm with hm | hm
    · have hle := hdone m hm
      omega
    · exact hended m hm

/-- What the front chunk is of the stream that is left. -/
theorem front (h : Kept st) {c : WriteChunk} {rest : List WriteChunk}
    (hchunks : st.pending.chunks = c :: rest) :
    st.pending.writeBuf = c.left ∧
      segments st.pending.chunks = (c.seq, c.left) :: segments rest ∧
      st.pending.unread = c.left.length + total (segments rest) ∧
      st.pending.remaining = c.left ++ (segments rest).flatMap Prod.snd := by
  have hsegments : segments st.pending.chunks = (c.seq, c.left) :: segments rest := by
    rw [hchunks]
    rfl
  refine ⟨?_, hsegments, ?_, ?_⟩
  · rw [writeBuf, hchunks]
    rfl
  · rw [h.unread, hsegments, total_cons]
  · rw [remaining, hsegments, List.flatMap_cons]

/-- A write that takes the whole front chunk completes its input, if it has one: the mark of
the chunk is where the write ends. -/
theorem wroteWhole (h : Kept st) {c : WriteChunk} {rest : List WriteChunk}
    (hchunks : st.pending.chunks = c :: rest) (hpos : 0 < n)
    (hwhole : c.off + n = c.data.length) :
    Kept { st with
      pending := (st.pending.advance n st.history now).1
      history := (st.pending.advance n st.history now).2
      written := st.written ++ [(now, st.pending.writeBuf.take n)] } := by
  obtain ⟨hbuf, hsegments, hcount, hremaining⟩ := h.front hchunks
  have hlen : c.left.length = c.data.length - c.off := List.length_drop
  have hall : n = c.left.length := by omega
  have hn : n ≤ st.pending.writeBuf.length := by rw [hbuf, ← hall]
  have hunread := unread_advance hn st.history now
  have hfront := Owner.advance_front hchunks hpos (hlen ▸ hall.le) st.history now
  rw [if_pos hwhole] at hfront
  obtain ⟨hrest, hhistory⟩ := Prod.mk.inj hfront
  have htake : (c.left.take n).length = n := by rw [hall, List.take_length]
  have hmap : c.seq.toList.map (fun seq => (seq, now)) =
      (c.seq.toList.map (·, total st.written + c.left.length)).map fun m => (m.1, now) := by
    rw [List.map_map]
    rfl
  rw [hhistory, hmap, hbuf]
  refine h.wrote (fun d hd => ?_) ?_ ?_ ?_ (fun m hm => ?_) now
  · rw [hrest] at hd
    exact h.left d (hchunks ▸ List.mem_cons_of_mem _ hd)
  · rw [htake, hunread]
    omega
  · rw [hremaining, remaining, hrest, hall, List.take_length]
  · rw [hsegments, htake, hrest, hall, Segments.marks]
  · obtain ⟨seq, -, rfl⟩ := List.mem_map.1 hm
    rw [htake]
    exact Nat.add_le_add_left hall.ge _

/-- A write that takes a part of it completes none: the mark of the front chunk is at its
end, which is beyond the write. -/
theorem wrotePart (h : Kept st) {c : WriteChunk} {rest : List WriteChunk}
    (hchunks : st.pending.chunks = c :: rest) (hpos : 0 < n)
    (hpart : c.off + n < c.data.length) :
    Kept { st with
      pending := (st.pending.advance n st.history now).1
      history := (st.pending.advance n st.history now).2
      written := st.written ++ [(now, st.pending.writeBuf.take n)] } := by
  obtain ⟨hbuf, hsegments, hcount, hremaining⟩ := h.front hchunks
  have hlen : c.left.length = c.data.length - c.off := List.length_drop
  have hle : n ≤ c.left.length := by omega
  have hunread := unread_advance (hbuf ▸ hle) st.history now
  have hfront := Owner.advance_front hchunks hpos (hlen ▸ hle) st.history now
  rw [if_neg hpart.ne] at hfront
  obtain ⟨hrest, hhistory⟩ := Prod.mk.inj hfront
  have htake : (c.left.take n).length = n := by rw [List.length_take, Nat.min_eq_left hle]
  have hlater : segments ({ c with off := c.off + n } :: rest) =
      (c.seq, c.left.drop n) :: segments rest := by
    have hdrop : ({ c with off := c.off + n } : WriteChunk).left = c.left.drop n := by
      rw [WriteChunk.left, WriteChunk.left, List.drop_drop]
    rw [← hdrop]
    rfl
  have hend : total st.written + n + (c.left.drop n).length =
      total st.written + c.left.length := by
    rw [List.length_drop]
    omega
  have hnone : st.history = st.history ++ ([] : List (ℕ × ℕ)).map fun m => (m.1, now) :=
    (List.append_nil _).symm
  rw [hhistory.trans hnone, hbuf]
  refine h.wrote (fun d hd => ?_) ?_ ?_ ?_ (fun _ hm => absurd hm List.not_mem_nil) now
  · rw [hrest] at hd
    rcases List.mem_cons.1 hd with rfl | hd
    · exact hpart
    · exact h.left d (hchunks ▸ List.mem_cons_of_mem _ hd)
  · rw [htake, hunread]
    omega
  · rw [hremaining, remaining, hrest, hlater, List.flatMap_cons, ← List.append_assoc,
      List.take_append_drop]
  · rw [hsegments, htake, hrest, hlater, Segments.marks, Segments.marks, hend]
    rfl

/-- **A write takes bytes off the front chunk**, and completes its input when they were the
last of it. -/
theorem advance (h : Kept st) (hallows : streamMachine.Allows st (.advance n now)) :
    Kept (streamMachine.act st (.advance n now)) := by
  have hn : n ≤ st.pending.writeBuf.length := hallows
  show Kept { st with
    pending := (st.pending.advance n st.history now).1
    history := (st.pending.advance n st.history now).2
    written := st.written ++ [(now, st.pending.writeBuf.take n)] }
  rcases Nat.eq_zero_or_pos n with rfl | hpos
  · have hnone : st.history = st.history ++ ([] : List (ℕ × ℕ)).map fun m => (m.1, now) :=
      (List.append_nil _).symm
    rw [advance_zero, hnone]
    exact h.wrote h.left rfl rfl rfl (fun _ hm => absurd hm List.not_mem_nil) now
  · cases hchunks : st.pending.chunks with
    | nil =>
      rw [writeBuf, hchunks, List.length_nil] at hn
      omega
    | cons c rest =>
      have hlen : c.left.length = c.data.length - c.off := List.length_drop
      rw [(h.front hchunks).1] at hn
      rcases Nat.lt_or_ge (c.off + n) c.data.length with hpart | hwhole
      · exact h.wrotePart hchunks hpos hpart
      · exact h.wroteWhole hchunks hpos (by omega)

end Kept

/-! ### Runs -/

/-- **Every call keeps the stream.** -/
theorem kept_act {st : Stream} (h : Kept st) (call : Call)
    (hallows : streamMachine.Allows st call) : Kept (streamMachine.act st call) := by
  cases call with
  | pushInput seq data => exact h.pushInput hallows
  | pushGenerated bytes => exact h.pushGenerated
  | advance n now => exact h.advance hallows

/-- What pending writes are, to their callers. -/
structure Faithful (st : Stream) : Prop where
  bytes : st.written.flatMap Prod.snd ++ st.pending.remaining = st.accepted.flatMap Prod.snd
  unread : st.pending.unread = st.pending.remaining.length
  bounded : st.pending.unread ≤ pendingHardMax
  writeBuf : st.pending.writeBuf = [] ↔ st.pending.unread = 0
  history : st.history = completed st.accepted st.written
  once : (st.history.map Prod.fst).Pairwise (· < ·)
  refusedInput : ∀ seq data, (st.pending.pushInput seq data).1 = false →
    (st.pending.pushInput seq data).2 = st.pending
  refusedGenerated : ∀ bytes, (st.pending.pushGenerated bytes).1 = false →
    (st.pending.pushGenerated bytes).2 = st.pending
  ruled : ∀ seq data, data.length ≤ maxInputBytes → Ruled st (.pushInput seq data) →
    (st.pending.pushInput seq data).1 = true

/-- What is kept is the stream. -/
theorem Kept.faithful {st : Stream} (h : Kept st) : Faithful st where
  bytes := h.bytes
  unread := h.unread
  bounded := h.bounded
  writeBuf := by
    have hcount := h.unread
    unfold PendingWrites.writeBuf
    cases hchunks : st.pending.chunks with
    | nil =>
      rw [hchunks] at hcount
      exact iff_of_true rfl hcount
    | cons c rest =>
      have hoff := h.left c (hchunks ▸ List.mem_cons_self)
      rw [hchunks] at hcount
      rw [show segments (c :: rest) = (c.seq, c.left) :: segments rest from rfl, total_cons,
        WriteChunk.left, List.length_drop] at hcount
      refine iff_of_false (fun hnil => ?_) (by omega)
      rw [List.drop_eq_nil_iff] at hnil
      omega
  history := h.history
  once := by
    rw [h.history]
    exact h.ordered.sublist (completed_sublist st.accepted st.written)
  refusedInput _ _ := pushInput_of_false
  refusedGenerated _ := pushGenerated_of_false
  ruled seq data hdata hruled := by
    have hless : st.pending.unread < maxPending := hruled
    refine pushInput_eq_true_iff.2 ?_
    unfold pendingHardMax
    unfold maxInputBytes at hdata
    omega

/-- **Pending writes are a faithful, bounded stream**: whatever was pushed and advanced over,
what went out and what is left are what was accepted, an input is in the history from the
write of its last byte on, and under the rule of the owner no input is refused. -/
theorem pending_writes_faithful {st : Stream} (h : streamMachine.AnyRun {} st) : Faithful st := by
  have hkept : Kept st :=
    h.invariant Kept.start fun _ call _ hkept hallows _ => kept_act hkept call hallows
  exact hkept.faithful

/-- Two inputs with a reply between them, written in three pieces. -/
def typedCalls : List Call :=
  [.pushInput 1 [0x61, 0x62], .pushGenerated [0x52], .advance 1 10, .pushInput 2 [0x63],
    .advance 1 20, .pushGenerated [], .advance 1 30]

/-- The hypothesis of `pending_writes_faithful` is satisfiable: an input and a reply are
written, and the second input waits. -/
theorem pending_writes_faithful_typed :
    (streamMachine.acts {} typedCalls).history = [(1, 20)] ∧
      (streamMachine.acts {} typedCalls).pending.remaining = [0x63] ∧
      Faithful (streamMachine.acts {} typedCalls) := by
  exact ⟨by decide, by decide, pending_writes_faithful (Machine.run_acts (by decide))⟩

end PendingWrites

/-! ### The pending writes of an owner -/

namespace Owner

open PendingWrites

/-- The pending writes of an owner come about by calls under its rule, and its channel has
only inputs that a session takes. -/
structure Streamed {δ : Type} (s : Session) (o : Owner δ) : Prop where
  cmds : ∀ seq data, .input seq data ∈ s.cmds → data ≠ [] ∧ data.length ≤ maxInputBytes
  run : ∃ st, streamMachine.Run Ruled {} st ∧ st.pending = o.pending ∧
    ∀ i ∈ st.accepted.filterMap Prod.fst, i ≤ o.lastSeq

namespace Streamed

variable {δ : Type} {drv : Driver δ} {z : Lz4} {s s' : Session} {o o' : Owner δ}

/-- A turn that moves no pending byte. -/
theorem quiet (h : Streamed s o) (hcmds : ∀ msg ∈ s'.cmds, msg ∈ s.cmds)
    (hpending : o'.pending = o.pending) (hseq : o'.lastSeq = o.lastSeq) : Streamed s' o' where
  cmds seq data hmem := h.cmds seq data (hcmds _ hmem)
  run := by
    rw [hpending, hseq]
    exact h.run

/-- Replies of the emulator are taken. -/
theorem generated (h : Streamed s o) (driver : δ) :
    Streamed s (generated drv { o with driver }) where
  cmds := h.cmds
  run := by
    obtain ⟨st, hrun, hpending, hseqs⟩ := h.run
    refine ⟨_, hrun.act (.pushGenerated (drv.takePtyWrite driver).1) trivial trivial, ?_, ?_⟩
    · rw [show (Owner.generated drv { o with driver }).pending =
        (o.pending.pushGenerated (drv.takePtyWrite driver).1).2 from rfl, ← hpending]
      rfl
    · intro i hi
      refine hseqs i ?_
      change i ∈ (st.accepted ++ if (st.pending.pushGenerated (drv.takePtyWrite driver).1).1 then
        [(none, (drv.takePtyWrite driver).1)] else []).filterMap Prod.fst at hi
      rw [List.filterMap_append, List.mem_append] at hi
      refine hi.resolve_right fun hnew => ?_
      split_ifs at hnew
      · exact absurd hnew List.not_mem_nil
      · exact absurd hnew List.not_mem_nil

/-- A screen is published with the replies that come of it. -/
theorem generatedPublish (h : Streamed s o) (driver : δ) :
    Streamed (generatedPublish drv z s { o with driver }).1
      (generatedPublish drv z s { o with driver }).2 := by
  have hgenerated := (@Streamed.generated _ drv s o) h driver
  unfold Owner.generatedPublish
  split
  · exact hgenerated.quiet (fun _ hmsg => hmsg) rfl rfl
  · exact hgenerated

/-- The output of the child is read. -/
theorem drainPty (h : Streamed s o) (reads : List Bytes) : Streamed s (drainPty drv o reads) := by
  induction reads generalizing o with
  | nil => exact h
  | cons bytes rest ih =>
    have hgenerated := (@Streamed.generated _ drv s o) h (drv.process o.driver bytes)
    rw [Owner.drainPty]
    split
    · exact ih hgenerated
    · exact hgenerated

/-- **An input that is taken is pushed**, and not refused where the rule holds.  The owner
takes a command only while there is room, which is what the machine of the stream asks of a
push, and the number is the next one, so above all that were pushed. -/
theorem onMsg (h : Streamed s o) {msg : OwnerMsg} {rest : List OwnerMsg}
    (hmore : o.pending.unread < maxPending) (hcmds : s.cmds = msg :: rest) :
    Streamed (onMsg drv z { s with cmds := rest } o msg).1
      (onMsg drv z { s with cmds := rest } o msg).2 := by
  have hrest : ∀ msg ∈ rest, msg ∈ s.cmds := by
    intro msg hmsg
    rw [hcmds]
    exact List.mem_cons_of_mem _ hmsg
  cases msg with
  | input seq data =>
    obtain ⟨hdata, hsize⟩ := h.cmds seq data (hcmds ▸ List.mem_cons_self)
    have hone : (if o.lastSeq = 0 then 1 else o.lastSeq + 1) = o.lastSeq + 1 := by
      split <;> omega
    unfold Owner.onMsg
    dsimp only
    rw [hone]
    split
    · rename_i hnext
      split
      · rename_i hok
        obtain ⟨st, hrun, hpending, hseqs⟩ := h.run
        have hlater : o.lastSeq < seq := by omega
        refine ⟨fun i d hmem => h.cmds i d (hrest _ hmem), _,
          hrun.act (.pushInput seq data) ⟨hdata, hsize, fun i hi => ?_⟩ ?_, ?_, fun i hi => ?_⟩
        · exact (hseqs i hi).trans_lt hlater
        · show st.pending.unread < maxPending
          rw [hpending]
          exact hmore
        · rw [← hpending]
          rfl
        · change i ∈ (st.accepted ++ if (st.pending.pushInput seq data).1 then
            [(some seq, data)] else []).filterMap Prod.fst at hi
          rw [hpending, if_pos hok, List.filterMap_append, List.mem_append] at hi
          rcases hi with hi | hi
          · exact (hseqs i hi).trans hlater.le
          · exact (List.mem_singleton.1 hi).le
      · exact h.quiet hrest rfl rfl
    · exact h.quiet hrest rfl rfl
  | resize cols rows =>
    unfold Owner.onMsg
    dsimp only
    split <;> exact h.quiet hrest rfl rfl
  | ack version => exact h.quiet hrest rfl rfl

/-- **The child takes bytes.** -/
theorem write (h : Streamed s o) {n : ℕ} (hn : n ≤ o.pending.writeBuf.length) (now : ℕ) :
    Streamed s { o with
      pending := (o.pending.advance n o.history now).1
      history := (o.pending.advance n o.history now).2 } where
  cmds := h.cmds
  run := by
    obtain ⟨st, hrun, hpending, hseqs⟩ := h.run
    refine ⟨_, hrun.act (.advance n now) ?_ trivial, ?_, hseqs⟩
    · show n ≤ st.pending.writeBuf.length
      rw [hpending]
      exact hn
    · show (st.pending.advance n st.history now).1 = _
      rw [hpending]
      exact advance_fst ..

/-- What connections do leaves the stream alone, but for inputs in the channel. -/
theorem connection (h : Streamed s o) (hstep : Connection s s') : Streamed s' o := by
  have hsend (msg : OwnerMsg) (hmsg : ∀ seq data, msg = .input seq data →
      data ≠ [] ∧ data.length ≤ maxInputBytes) : Streamed (s.trySend msg).2 o := by
    refine ⟨fun seq data hmem => ?_, h.run⟩
    unfold Session.trySend at hmem
    split_ifs at hmem
    · exact h.cmds seq data hmem
    · exact h.cmds seq data hmem
    · rcases List.mem_append.1 hmem with hmem | hmem
      · exact h.cmds seq data hmem
      · exact hmsg seq data (List.mem_singleton.1 hmem).symm
  cases hstep with
  | input seq data =>
    unfold Session.tryInput
    split
    · exact h
    · rename_i hdata
      split
      · exact h
      · rename_i hsize
        refine hsend _ fun seq' data' heq => ?_
        cases heq
        exact ⟨hdata, not_lt.1 hsize⟩
  | resize cols rows =>
    unfold Session.tryResize
    split
    · exact hsend _ fun _ _ heq => nomatch heq
    · split <;> exact h
  | ack version =>
    have hack := hsend (.ack version) fun _ _ heq => nomatch heq
    exact ⟨hack.cmds, h.run⟩
  | hangup => exact h.quiet (fun _ hmsg => hmsg) rfl rfl
  | claim => exact h.quiet (fun _ hmsg => hmsg) rfl rfl

/-- **Every turn of the owner keeps the stream.** -/
theorem turn (h : Streamed s o) {now : ℕ} {seen : List Event}
    (hstep : Turn drv z now s o seen s' o') : Streamed s' o' := by
  cases hstep with
  | stop => exact h.quiet (fun _ hmsg => hmsg) rfl rfl
  | output bytes => exact h.generatedPublish (drv.process o.driver bytes)
  | write c rest n hrun hchunks hn => exact h.write hn.2 now
  | recv msg rest hrun hmore hcmds => exact h.onMsg hmore hcmds
  | sync => exact h.generatedPublish (drv.flushSync o.driver)
  | echo =>
    unfold onEcho
    dsimp only
    split <;> exact h.quiet (fun _ hmsg => hmsg) rfl rfl
  | finish reads status =>
    exact ((@Streamed.drainPty _ drv s o) h reads).quiet (fun _ hmsg => hmsg) rfl rfl

/-- The stream of an owner is faithful. -/
theorem faithful (h : Streamed s o) : ∃ st, st.pending = o.pending ∧ Faithful st := by
  obtain ⟨st, hrun, hpending, -⟩ := h.run
  have hkept : Kept st :=
    hrun.invariant Kept.start fun _ call _ hkept hallows _ => kept_act hkept call hallows
  exact ⟨st, hpending, hkept.faithful⟩

/-- An input of the channel is not refused where the rule holds. -/
theorem pushInput_eq_true (h : Streamed s o) {seq : ℕ} {data : Bytes} {rest : List OwnerMsg}
    (hcmds : s.cmds = .input seq data :: rest) (hmore : o.pending.unread < maxPending) :
    (o.pending.pushInput seq data).1 = true := by
  obtain ⟨st, hpending, hfaithful⟩ := h.faithful
  have hsize := (h.cmds seq data (hcmds ▸ List.mem_cons_self)).2
  rw [← hpending] at hmore ⊢
  exact hfaithful.ruled seq data hsize hmore

end Streamed

variable {δ : Type} {drv : Driver δ} {z : Lz4}

/-- **The pending writes of an owner** come about by calls under its rule, in every run. -/
theorem Ran.streamed {t : ℕ} {s : Session} {o : Owner δ} {log : List Event}
    (h : Ran drv z t s o log) : Streamed s o := by
  induction h with
  | start id token uid cols rows driver =>
    refine ⟨fun _ _ hmem => absurd hmem List.not_mem_nil, {}, .refl, rfl, fun _ hi => ?_⟩
    exact absurd hi List.not_mem_nil
  | connection _ hstep ih => exact ih.connection hstep
  | turn _ _ hstep ih => exact ih.turn hstep

/-- So an owner is never left because of an input, only because of replies. -/
theorem Ran.pushInput_ne_false {t : ℕ} {s : Session} {o : Owner δ} {log : List Event}
    (h : Ran drv z t s o log) {seq : ℕ} {data : Bytes} {rest : List OwnerMsg}
    (hcmds : s.cmds = .input seq data :: rest) (hmore : o.pending.unread < maxPending) :
    (o.pending.pushInput seq data).1 = true :=
  h.streamed.pushInput_eq_true hcmds hmore

end Owner
end Quosh
