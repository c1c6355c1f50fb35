/-
# Input that the server refuses

`queue_input` of `crates/quosh-client/src/lib.rs` takes any bytes, and `on_control` of
`crates/quosh-server/src/transport.rs` takes an input of 1 to `MAX_INPUT_BYTES` bytes and
ends the connection over any other.  A client is followed over any run (`Typed`), with the
byte strings it was given; what `pump` puts on the wire is one of them, under its number
(`mem_of_sends`), and the server accepts it or not by its length alone
(`input_accepted_iff`).

Nothing in between cuts a long input, so the client of a web page that is given a long
paste sends it on every connection, and loses every connection over it.
-/

import Quosh.Server.Transport
import Quosh.System.Sender

namespace Quosh

open Bytes InOrder

namespace Handler

variable {s : Session} {h : Handler}

/-- The server takes an input off what it has read, `rest` being behind it: the frame is
split off whole and the input queued, under the number that its eight bytes hold. -/
def Accepts (s : Session) (h : Handler) (u : ℕ × Bytes) (rest : Bytes) : Prop :=
  ∃ payload, splitFrame (encodeInput u.1 u.2 ++ rest) = (.ok (some (msgInput, payload)), rest) ∧
    onControl s h msgInput payload =
      .ok (s, { h with busyInput := h.busyInput ++ [(u.1 % 2 ^ 64, u.2)] })

/-- Input is read back, with its number as a `u64`. -/
theorem decodeInput_inputPayload (seq : ℕ) (data : Bytes) :
    decodeInput (inputPayload seq data) = .ok (seq % 2 ^ 64, data) := by
  have hlen : ¬(inputPayload seq data).length < 8 := by
    simp [inputPayload]
  have hseq : leAt (inputPayload seq data) 0 8 = seq % 2 ^ 64 := by
    unfold leAt inputPayload
    rw [List.drop_zero, List.take_left' (length_toLe ..), fromLe_toLe_mod]
    rfl
  rw [decodeInput, if_neg hlen, hseq, inputPayload, List.drop_left' (length_toLe ..)]

/-- What `on_control` makes of an input of the newest transport. -/
theorem onControl_input (hepoch : s.epoch = h.epoch) (seq : ℕ) (data : Bytes) :
    onControl s h msgInput (inputPayload seq data) =
      if data = [] then .error "empty input"
      else if data.length > maxInputBytes then .error "input too large"
      else .ok (s, { h with busyInput := h.busyInput ++ [(seq % 2 ^ 64, data)] }) := by
  unfold onControl
  rw [if_neg (not_not.2 hepoch), if_pos rfl, decodeInput_inputPayload]

/-- **The server accepts an input iff it has 1 to `MAX_INPUT_BYTES` bytes**, and the
transport has not been superseded. -/
theorem accepts_iff (s : Session) (h : Handler) (u : ℕ × Bytes) (rest : Bytes) :
    Accepts s h u rest ↔
      s.epoch = h.epoch ∧ 0 < u.2.length ∧ u.2.length ≤ maxInputBytes := by
  obtain ⟨seq, data⟩ := u
  constructor
  · rintro ⟨payload, hsplit, hcontrol⟩
    obtain ⟨hbuf, -⟩ := splitFrame_some hsplit
    have hframe : encodeInput seq data = encodeFrame msgInput payload :=
      List.append_cancel_right hbuf
    have hpayload : inputPayload seq data = payload := by
      have hdrop := congrArg (List.drop 4) hframe
      unfold encodeInput encodeFrame at hdrop
      rw [List.drop_left' (length_toLe ..), List.drop_left' (length_toLe ..)] at hdrop
      exact (List.cons.inj hdrop).2
    have hepoch : s.epoch = h.epoch := by
      by_contra hne
      unfold onControl at hcontrol
      rw [if_pos hne] at hcontrol
      have hbusy := congrArg Handler.busyInput (Prod.mk.inj (Except.ok.inj hcontrol)).2
      exact List.cons_ne_nil _ _ (List.self_eq_append_right.1 hbusy)
    rw [← hpayload, onControl_input hepoch] at hcontrol
    split_ifs at hcontrol with hempty hlarge
    exact ⟨hepoch, List.length_pos_of_ne_nil hempty, not_lt.1 hlarge⟩
  · rintro ⟨hepoch, hpos, hle⟩
    have hlen : (inputPayload seq data).length < maxFrame := by
      unfold inputPayload
      rw [List.length_append, length_toLe]
      unfold maxInputBytes at hle
      unfold maxFrame
      dsimp only at hle
      omega
    refine ⟨inputPayload seq data, splitFrame_encode hlen rest, ?_⟩
    rw [onControl_input hepoch, if_neg (List.ne_nil_of_length_pos hpos), if_neg (not_lt.2 hle)]

end Handler

namespace Client

variable {σ : Type} {ext : Externals σ} {z : Lz4} {c c' : Client σ} {ds : List Bytes}

/-- The input that `pump` puts on the wire, if it puts one there. -/
def pumped (c : Client σ) : Option (ℕ × Bytes) :=
  if !c.connected || c.hungup then none
  else
    if c.pumpAck.feed.writing then none
    else
      (c.pumpAck.unacked.find? fun u => u.1 > c.pumpAck.sentSeq).filter fun u =>
        (c.pumpAck.feed.pushCtrl (encodeInput u.1 u.2)).1

/-- **What `pump` does for input**: the frame of the one it sends goes into the feed. -/
theorem pump_of_pumped {u : ℕ × Bytes} (h : c.pumped = some u) :
    c.pump.feed = (c.pumpAck.feed.pushCtrl (encodeInput u.1 u.2)).2 ∧ c.pump.sentSeq = u.1 := by
  unfold pumped at h
  split at h
  · cases h
  · rename_i hlive
    split at h
    · cases h
    · rename_i hidle
      obtain ⟨hfind, htaken⟩ := Option.filter_eq_some_iff.1 h
      unfold pump
      rw [if_neg hlive, pumpInput, if_neg hidle, hfind]
      exact ⟨rfl, if_pos htaken⟩

/-- Otherwise it goes on from the input it has sent last. -/
theorem pump_of_not_pumped (h : c.pumped = none) : c.pump.sentSeq = c.sentSeq := by
  have hack : c.pumpAck.sentSeq = c.sentSeq := by
    unfold pumpAck
    split <;> rfl
  unfold pumped at h
  unfold pump
  split at h
  · rename_i hdead
    rw [if_pos hdead]
  · rename_i hlive
    rw [if_neg hlive, pumpInput]
    split at h
    · rename_i hbusy
      rw [if_pos hbusy, hack]
    · rename_i hidle
      rw [if_neg hidle]
      cases hfind : c.pumpAck.unacked.find? fun u => u.1 > c.pumpAck.sentSeq with
      | none => exact hack
      | some u =>
        rw [hfind] at h
        exact (if_neg (Option.filter_eq_none_iff.1 h u rfl)).trans hack

/-- An input that is sent is kept. -/
theorem mem_of_pumped {u : ℕ × Bytes} (h : c.pumped = some u) : u ∈ c.unacked := by
  unfold pumped at h
  split at h
  · cases h
  · split at h
    · cases h
    · rw [← (pumpAck_retains c).unacked]
      exact List.mem_of_find?_eq_some (Option.filter_eq_some_iff.1 h).1

/-- The inputs that a client puts on the wire now, in a `pump` or a `tick`. -/
def Sends (ext : Externals σ) (c : Client σ) (u : ℕ × Bytes) : Prop :=
  c.pumped = some u ∨ ∃ now, (c.tickPredictor ext now).pumped = some u

/-- What is sent is one of the inputs that are kept. -/
theorem mem_of_sends {u : ℕ × Bytes} (h : c.Sends ext u) : u ∈ c.unacked := by
  rcases h with h | ⟨now, h⟩
  · exact mem_of_pumped h
  · have hsilent := (@tickPredictor_silent _ ext) c now
    exact hsilent.unacked ▸ mem_of_pumped h

/-- The clients that a run leads to, with the byte strings given to `queue_input` on the
way. -/
inductive Typed (ext : Externals σ) (z : Lz4) : List Bytes → Client σ → Prop
  | new (sessionId : FixedBytes 16) (token : FixedBytes 32) (cols rows : ℕ) (never : Bool) :
    Typed ext z [] (.new ext sessionId token cols rows never)
  | input {ds : List Bytes} {c : Client σ} (h : Typed ext z ds c) (bytes : Bytes) (now : ℕ) :
    Typed ext z (ds ++ [bytes]) (c.queueInput ext bytes now)
  | step {ds : List Bytes} {c c' : Client σ} (h : Typed ext z ds c) (hs : Step ext z c c')
    (hother : ∀ bytes now, c' ≠ c.queueInput ext bytes now) : Typed ext z ds c'

/-- A call that adds no input to those that are kept. -/
structure Drops (c c' : Client σ) : Prop where
  seq : c'.seq = c.seq
  unacked : ∀ u ∈ c'.unacked, u ∈ c.unacked

/-- A call that leaves the list. -/
theorem Drops.of_eq (hseq : c'.seq = c.seq) (hunacked : c'.unacked = c.unacked) : Drops c c' :=
  ⟨hseq, fun _ hu => hunacked ▸ hu⟩

/-- A call that keeps the list drops nothing. -/
theorem Retains.drops (h : Retains c c') : Drops c c' := .of_eq h.seq h.unacked

/-- A frame drops what it acknowledges. -/
theorem handleFrame_drops (c : Client σ) (typ : UInt8) (payload : Bytes) (now : ℕ) :
    Drops c (c.handleFrame ext z typ payload now).2 := by
  by_cases htyp : typ = msgInputAck
  · rw [htyp, handleFrame_inputAck]
    split
    · exact .of_eq rfl rfl
    · exact ⟨rfl, fun u hu => (List.mem_filter.1 hu).1⟩
  · exact (handleFrame_silent c payload now htyp).retains.drops

/-- **Only `queue_input` adds an input**, whatever else is called. -/
theorem Step.drops (hs : Step ext z c c')
    (hother : ∀ bytes now, c' ≠ c.queueInput ext bytes now) : Drops c c' := by
  cases hs with
  | frame typ payload now => exact handleFrame_drops ..
  | datagram bytes now => exact (recvDatagram_silent ..).retains.drops
  | queueInput bytes now => exact absurd rfl (hother bytes now)
  | tick now => exact (tick_retains c now).drops
  | pump => exact (pump_retains c).drops
  | setSize cols rows => exact (setSize_retains c cols rows).drops
  | _ => exact .of_eq rfl rfl

/-- **What a client keeps it was given**, under the number of its turn. -/
theorem Typed.spec (h : Typed ext z ds c) :
    c.seq = ds.length ∧ ∀ u ∈ c.unacked, 0 < u.1 ∧ ds[u.1 - 1]? = some u.2 := by
  induction h with
  | new sessionId token cols rows never => exact ⟨rfl, fun u hu => (nomatch hu)⟩
  | @input ds c h bytes now ih =>
    obtain ⟨hseq, hunacked⟩ := ih
    obtain ⟨p, d, hqueue⟩ := (@queueInput_eq _ ext) c bytes now
    rw [hqueue]
    refine ⟨by rw [List.length_append, ← hseq]; rfl, fun u hu => ?_⟩
    rcases List.mem_append.1 hu with hu | hu
    · obtain ⟨hpos, hget⟩ := hunacked u hu
      exact ⟨hpos, List.getElem?_append_left (List.getElem?_eq_some_iff.1 hget).1 ▸ hget⟩
    · rw [List.mem_singleton.1 hu, hseq]
      exact ⟨Nat.succ_pos _, List.getElem?_concat_length⟩
  | step h hs hother ih =>
    have hdrops := hs.drops hother
    exact ⟨hdrops.seq.trans ih.1, fun u hu => ih.2 u (hdrops.unacked u hu)⟩

/-- **The client sends what it was given, and the server accepts it by its length**: over
any run, an input that `pump` puts on the wire, for the first time or again, is a byte
string given to `queue_input`, and the transport that reads it takes it iff it has 1 to
`MAX_INPUT_BYTES` bytes. -/
theorem input_accepted_iff (hc : Typed ext z ds c) {u : ℕ × Bytes} (hu : c.Sends ext u)
    {s : Session} {h : Handler} (hepoch : s.epoch = h.epoch) (rest : Bytes) :
    (0 < u.1 ∧ ds[u.1 - 1]? = some u.2) ∧
      (Handler.Accepts s h u rest ↔ 0 < u.2.length ∧ u.2.length ≤ maxInputBytes) := by
  refine ⟨hc.spec.2 u (mem_of_sends hu), ?_⟩
  rw [Handler.accepts_iff]
  exact and_iff_right hepoch

/-- A connected client that one byte string was given to, its `Hello` written. -/
def pastedClient (data : Bytes) : Client Unit :=
  (((new .ascii (constBytes 16 1) (constBytes 32 2) 4 2 false).queueInput
    .ascii data 0).beginConnection 0).advanceOutbound 200

/-- A call that leaves the number of inputs as it is queues none. -/
theorem Typed.call (h : Typed ext z ds c) (hs : Step ext z c c') (hseq : c'.seq = c.seq) :
    Typed ext z ds c' := by
  refine h.step hs fun bytes now heq => ?_
  obtain ⟨p, d, hqueue⟩ := (@queueInput_eq _ ext) c bytes now
  rw [heq, hqueue] at hseq
  exact absurd hseq (Nat.succ_ne_self _)

/-- The client of the test was given one byte string. -/
theorem pastedClient_typed (data : Bytes) :
    Typed .ascii .literal [data] (pastedClient data) := by
  have hnew : Typed .ascii .literal [] (.new .ascii (constBytes 16 1)
    (constBytes 32 2) 4 2 false : Client Unit) := .new ..
  have hbegun := (hnew.input data 0).call (.beginConnection _ 0) rfl
  exact hbegun.call (.advanceOutbound _ 200) rfl

/-- It sends them now, however many they are. -/
theorem pastedClient_sends (data : Bytes) : (pastedClient data).Sends .ascii (1, data) := by
  left
  obtain ⟨p, d, hqueue⟩ := (@queueInput_eq _ .ascii) (.new .ascii
    (constBytes 16 1) (constBytes 32 2) 4 2 false : Client Unit) data 0
  have hwritten : ((({} : FrameFeed).pushCtrl (Hello.encode
      { protocol := protocolVersion, sessionId := constBytes 16 1
        token := constBytes 32 2, cols := 4, rows := 2 })).2).advance 200 = {} := by
    decide +kernel
  have hfeed : (pastedClient data).feed = {} := by
    rw [pastedClient, hqueue]
    exact hwritten
  have hclient : pastedClient data = { pastedClient data with feed := {} } := by
    rw [← hfeed]
  rw [hclient, pastedClient, hqueue]
  rfl

/-- The hypotheses of `input_accepted_iff` are satisfiable: one letter is sent and
accepted. -/
theorem input_accepted_iff_letter :
    Handler.Accepts (newSession 4 2) { epoch := 0, leftover := [] } (1, [0x61]) [] :=
  (input_accepted_iff (pastedClient_typed [0x61]) (pastedClient_sends [0x61]) rfl []).2.2
    (by decide)

/-- **A paste of more than `MAX_INPUT_BYTES` bytes is sent and refused.** -/
theorem long_paste_refused :
    ¬∀ (ds : List Bytes) (c : Client Unit) (u : ℕ × Bytes) (s : Session) (h : Handler),
      Typed .ascii .literal ds c → c.Sends .ascii u → s.epoch = h.epoch →
        Handler.Accepts s h u [] := by
  intro hall
  have haccepts := hall _ _ _ (newSession 4 2) { epoch := 0, leftover := [] }
    (pastedClient_typed (List.replicate (maxInputBytes + 1) 0x61)) (pastedClient_sends _) rfl
  have hlen := ((Handler.accepts_iff ..).1 haccepts).2.2
  rw [List.length_replicate] at hlen
  omega

end Client
end Quosh
