/-
# The line of a helper request

`crates/quosh-server/src/helper.rs`: `read_request_line`, which reads a request from the
socket until a newline, the end of the file, the cap or the deadline.  A turn of its loop
takes what the read gives, if it comes to read at all; past its end a socket gives end of
file.

`requestLine` is what should be returned for a stream, whatever the reads are.  What a turn
preserves is `Tracks`: the buffer is the stream so far, cut at the cap, or the loop is over
with what every stream that goes on from there should give.
-/

import Quosh.Bytes.Reader
import Mathlib.Data.List.Induction

namespace Quosh

/-- `b'\n'`. -/
def newline : UInt8 := 0x0a

/-- The error when the cap is reached. -/
def tooLarge : String := "helper request too large"

/-- What a turn finds: the deadline has passed, or the read fails or gives bytes, none of them
at the end of the file. -/
inductive SocketRead where
  | late
  | failed (error : String)
  | data (bytes : Bytes)

/-- The loop of `read_request_line`: `acc`, and what was returned if it is over. -/
structure LineReader where
  acc : Bytes := []
  result : Option (Except String Bytes) := none

namespace LineReader

/-- A turn of the loop. -/
def turn (max : ℕ) (r : LineReader) (read : SocketRead) : LineReader :=
  match r.result with
  | some _ => r
  | none =>
    if newline ∈ r.acc then
      let acc := r.acc.take (r.acc.idxOf newline)
      { acc, result := some (.ok acc) }
    else if r.acc.length ≥ max then { r with result := some (.error tooLarge) }
    else
      match read with
      | .late => { r with result := some (.error "helper request timeout") }
      | .failed error => { r with result := some (.error error) }
      | .data bytes =>
        if bytes.length = 0 then { r with result := some (.ok r.acc) }
        else
          let take := min bytes.length (max - r.acc.length)
          let acc := r.acc ++ bytes.take take
          if take < bytes.length ∧ newline ∉ acc then { acc, result := some (.error tooLarge) }
          else { r with acc }

/-- The turns of some reads. -/
def turns (max : ℕ) (reads : List SocketRead) : LineReader := reads.foldl (turn max) {}

end LineReader

/-- `read_request_line`: after the reads comes end of file. -/
def readRequestLine (max : ℕ) (reads : List SocketRead) : Option (Except String Bytes) :=
  ((LineReader.turns max reads).turn max (.data [])).result

/-- **What a request is**, of the whole stream: what is in front of the first newline if that
is among the first `max` bytes, all of it if it has none and is shorter. -/
def requestLine (max : ℕ) (stream : Bytes) : Except String Bytes :=
  if newline ∈ stream.take max then .ok (stream.take (stream.idxOf newline))
  else if stream.length < max then .ok stream
  else .error tooLarge

variable {max : ℕ}

/-- A newline among the first bytes decides, whatever comes behind them. -/
theorem requestLine_of_mem {stream rest : Bytes} (h : newline ∈ stream.take max) :
    requestLine max (stream ++ rest) =
      .ok ((stream.take max).take ((stream.take max).idxOf newline)) := by
  have hmem : newline ∈ (stream ++ rest).take max := by
    rw [List.take_append]
    exact List.mem_append_left _ h
  have hsplit : stream ++ rest = stream.take max ++ (stream.drop max ++ rest) := by
    rw [← List.append_assoc, List.take_append_drop]
  have hidx : (stream ++ rest).idxOf newline = (stream.take max).idxOf newline := by
    rw [hsplit]
    exact List.idxOf_append_of_mem h
  have hlt := List.idxOf_lt_length_of_mem h
  rw [requestLine, if_pos hmem, hidx, hsplit, List.take_append_of_le_length hlt.le]

/-- So does the cap, when there is none. -/
theorem requestLine_of_le {stream rest : Bytes} (h : newline ∉ stream.take max)
    (hlen : max ≤ stream.length) : requestLine max (stream ++ rest) = .error tooLarge := by
  have htake : (stream ++ rest).take max = stream.take max := List.take_append_of_le_length hlen
  have hlong : ¬(stream ++ rest).length < max := by
    rw [List.length_append]
    omega
  rw [requestLine, htake, if_neg h, if_neg hlong]

namespace LineReader

variable {stream : Bytes} {r : LineReader}

/-! ### A turn -/

theorem turn_done {result : Except String Bytes} (hresult : r.result = some result)
    (read : SocketRead) : r.turn max read = r := by
  unfold turn
  rw [hresult]

/-- A newline in the buffer ends the loop with what is in front of it. -/
theorem turn_newline (hresult : r.result = none) (hmem : newline ∈ r.acc) (read : SocketRead) :
    r.turn max read =
      { acc := r.acc.take (r.acc.idxOf newline)
        result := some (.ok (r.acc.take (r.acc.idxOf newline))) } := by
  unfold turn
  rw [hresult]
  exact if_pos hmem

/-- A buffer that is full ends it with an error. -/
theorem turn_full (hresult : r.result = none) (hmem : newline ∉ r.acc)
    (hfull : max ≤ r.acc.length) (read : SocketRead) :
    r.turn max read = { r with result := some (.error tooLarge) } := by
  unfold turn
  rw [hresult]
  exact (if_neg hmem).trans (if_pos hfull)

/-- The end of the file ends it with the buffer. -/
theorem turn_eof (hresult : r.result = none) (hmem : newline ∉ r.acc)
    (hroom : r.acc.length < max) :
    r.turn max (.data []) = { r with result := some (.ok r.acc) } := by
  unfold turn
  rw [hresult]
  exact (if_neg hmem).trans ((if_neg (not_le.2 hroom)).trans (if_pos List.length_nil))

/-- Bytes go behind the buffer, up to the cap, and the loop goes on unless some are cut off
without a newline in front of them. -/
theorem turn_data (hresult : r.result = none) (hmem : newline ∉ r.acc)
    (hroom : r.acc.length < max) {bytes : Bytes} (hbytes : bytes ≠ []) :
    r.turn max (.data bytes) =
      if max < (r.acc ++ bytes).length ∧ newline ∉ (r.acc ++ bytes).take max then
        { acc := (r.acc ++ bytes).take max, result := some (.error tooLarge) }
      else { r with acc := (r.acc ++ bytes).take max } := by
  have htake : r.acc ++ bytes.take (min bytes.length (max - r.acc.length)) =
      (r.acc ++ bytes).take max := by
    rw [List.take_append, List.take_of_length_le hroom.le]
    refine congrArg (r.acc ++ ·) (List.take_eq_take_iff.2 ?_)
    omega
  have hover : min bytes.length (max - r.acc.length) < bytes.length ↔
      max < (r.acc ++ bytes).length := by
    rw [List.length_append]
    omega
  have hne : bytes.length ≠ 0 := fun h => hbytes (List.length_eq_zero_iff.1 h)
  rw [turn, hresult]
  dsimp only
  rw [if_neg hmem, if_neg (not_le.2 hroom), if_neg hne, htake]
  simp only [hover]

/-! ### What the turns keep -/

/-- What the loop has of a stream that was read so far. -/
inductive Tracks (max : ℕ) (stream : Bytes) (r : LineReader) : Prop
  | reading (hresult : r.result = none) (hacc : r.acc = stream.take max)
    (hshort : newline ∈ r.acc ∨ stream.length ≤ max)
  | done {result : Except String Bytes} (hresult : r.result = some result)
    (hacc : r.acc.length ≤ max) (hrest : ∀ rest, requestLine max (stream ++ rest) = result)

/-- **The buffer is within the cap.** -/
theorem Tracks.length_le (h : Tracks max stream r) : r.acc.length ≤ max := by
  cases h with
  | reading _ hacc _ =>
    rw [hacc]
    exact List.length_take_le ..
  | done _ hacc _ => exact hacc

/-- **A turn that reads some bytes.**  A line that is done stays done, whatever comes behind
it; one that is not has no newline yet, and the buffer is all of the stream. -/
theorem Tracks.turn (h : Tracks max stream r) {bytes : Bytes} (hbytes : bytes ≠ []) :
    Tracks max (stream ++ bytes) (r.turn max (.data bytes)) := by
  cases h with
  | done hresult hacc hrest =>
    rw [turn_done hresult]
    refine .done hresult hacc fun rest => ?_
    rw [List.append_assoc]
    exact hrest _
  | reading hresult hacc hshort =>
    by_cases hmem : newline ∈ r.acc
    · rw [turn_newline hresult hmem]
      rw [hacc] at hmem ⊢
      refine .done rfl ((List.length_take_le' ..).trans (List.length_take_le ..)) fun rest => ?_
      rw [List.append_assoc]
      exact requestLine_of_mem hmem
    · -- Without a newline nothing was cut off: the buffer is the stream.
      have hshort := hshort.resolve_left hmem
      obtain rfl : r.acc = stream := hacc.trans (List.take_of_length_le hshort)
      by_cases hfull : max ≤ r.acc.length
      · rw [turn_full hresult hmem hfull]
        refine .done rfl hshort fun rest => ?_
        rw [List.append_assoc]
        exact requestLine_of_le (fun h => hmem (List.mem_of_mem_take h)) hfull
      · rw [turn_data hresult hmem (not_le.1 hfull) hbytes]
        split
        · rename_i hover
          refine .done rfl (List.length_take_le ..) fun rest => ?_
          exact requestLine_of_le hover.2 hover.1.le
        · rename_i hfits
          rw [not_and_or, not_lt, not_not] at hfits
          exact .reading hresult rfl hfits.symm

/-- **The turns of a stream**, however it is cut. -/
theorem tracks_turns (reads : List Bytes) (hreads : ∀ bytes ∈ reads, bytes ≠ []) :
    Tracks max reads.flatten (turns max (reads.map .data)) := by
  induction reads using List.reverseRecOn with
  | nil => exact .reading rfl (List.take_nil).symm (.inr (Nat.zero_le _))
  | append_singleton reads bytes ih =>
    have hturn := (ih fun b hb => hreads b (List.mem_append_left _ hb)).turn
      (hreads bytes (List.mem_append_right _ (List.mem_singleton_self bytes)))
    unfold turns at hturn ⊢
    rw [List.flatten_concat, List.map_append, List.foldl_append]
    exact hturn

/-- **At the end of the file** the loop is over, with what the stream should give. -/
theorem Tracks.result_eof (h : Tracks max stream r) :
    (r.turn max (.data [])).result = some (requestLine max stream) := by
  cases h with
  | done hresult hacc hrest =>
    have hstream := hrest []
    rw [List.append_nil] at hstream
    rw [turn_done hresult, hresult, hstream]
  | reading hresult hacc hshort =>
    by_cases hmem : newline ∈ r.acc
    · rw [turn_newline hresult hmem]
      rw [hacc] at hmem ⊢
      have hstream : requestLine max (stream ++ []) = _ := requestLine_of_mem hmem
      rw [List.append_nil] at hstream
      rw [hstream]
    · have hshort := hshort.resolve_left hmem
      have htake : stream.take max = stream := List.take_of_length_le hshort
      obtain rfl : r.acc = stream := hacc.trans htake
      rw [requestLine, htake, if_neg hmem]
      by_cases hfull : max ≤ r.acc.length
      · rw [turn_full hresult hmem hfull, if_neg (not_lt.2 hfull)]
      · rw [turn_eof hresult hmem (not_le.1 hfull), if_pos (not_le.1 hfull)]

end LineReader

/-- **A request is read as its stream says**, however the socket cuts it into reads, and the
buffer never has more than the cap. -/
theorem readRequestLine_split_invariant (max : ℕ) (reads : List Bytes)
    (hreads : ∀ bytes ∈ reads, bytes ≠ []) :
    readRequestLine max (reads.map .data) = some (requestLine max reads.flatten) ∧
      ∀ before, before <+: reads →
        (LineReader.turns max (before.map .data)).acc.length ≤ max := by
  refine ⟨(LineReader.tracks_turns reads hreads).result_eof, fun before hbefore => ?_⟩
  refine (LineReader.tracks_turns before fun bytes hbytes => ?_).length_le
  exact hreads bytes (hbefore.subset hbytes)

/-- The hypothesis of `readRequestLine_split_invariant` is satisfiable: the newline is the
last byte below the cap, in the middle of a read. -/
theorem readRequestLine_split_invariant_ping :
    readRequestLine 4 ([[0x70], [0x69, 0x6e, 0x0a, 0x67]].map .data) =
        some (requestLine 4 [0x70, 0x69, 0x6e, 0x0a, 0x67]) ∧
      ∀ before, before <+: [[0x70], [0x69, 0x6e, 0x0a, 0x67]] →
        (LineReader.turns 4 (before.map .data)).acc.length ≤ 4 :=
  readRequestLine_split_invariant 4 [[0x70], [0x69, 0x6e, 0x0a, 0x67]]
    (by simp)

end Quosh
