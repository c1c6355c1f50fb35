/-
# The sending half of a client

What a client has on its way to a session: the frames its feed carries behind the
bytes already written (`Sender`), and the inputs it keeps until they are
acknowledged (`Keeps`).

`begin_connection` starts sending over at the first input it keeps, and `pump` goes
on with the one behind the last it sent.  So whatever was lost before, the inputs
in front of the session are never ahead of its count: this is the invariant of
`Sender`, kept by every call of the client.
-/

import Quosh.System.Uplink
import Quosh.Client.Run
import Quosh.Data.InOrder

namespace Quosh

open Bytes InOrder

/-! ### Inputs in front of a count -/

/-- The inputs `us` are known, none is ahead behind the count `r`, and they lead to
`m` at least. -/
structure Fits (r m : ℕ) (ds : List Bytes) (us : List (ℕ × Bytes)) : Prop where
  admissible : Admissible r (us.map Prod.fst)
  known : ∀ u ∈ us, u ∈ numberFrom 0 ds
  reach : m ≤ reach r (us.map Prod.fst)

namespace Fits

variable {r r' m m' : ℕ} {ds : List Bytes} {u : ℕ × Bytes} {us us' : List (ℕ × Bytes)}

/-- Nothing on its way fits any count. -/
theorem nil (ds : List Bytes) (hm : m ≤ r) : Fits r m ds [] :=
  ⟨trivial, fun _ h => absurd h List.not_mem_nil, hm⟩

/-- More was accepted, or less is asked. -/
theorem mono (h : Fits r m ds us) (hr : r ≤ r') (hm : m' ≤ m) : Fits r' m' ds us :=
  ⟨h.admissible.mono hr, h.known, hm.trans (h.reach.trans (h.admissible.reach_mono hr))⟩

/-- More was given to the client. -/
theorem grow (h : Fits r m ds us) (d : Bytes) : Fits r m (ds ++ [d]) us :=
  ⟨h.admissible, fun u hu => by
    rw [numberFrom_append]
    exact List.mem_append_left _ (h.known u hu), h.reach⟩

/-- What is cut off behind some inputs is no matter. -/
theorem of_prefix (h : Fits r m ds us) (hp : us' <+: us) : Fits r 0 ds us' :=
  ⟨h.admissible.of_prefix (hp.map Prod.fst), fun u hu => h.known u (hp.subset hu), Nat.zero_le _⟩

/-- The first input moves into another queue. -/
theorem tail (h : Fits r m ds (u :: us)) : u.1 ≤ r + 1 ∧ Fits (takeNext r u.1) m ds us :=
  ⟨h.admissible.1, h.admissible.2, fun v hv => h.known v (List.mem_cons_of_mem _ hv), h.reach⟩

/-- The count behind the first inputs. -/
theorem skip (h : Fits r m ds (us ++ us')) : Fits (InOrder.reach r (us.map Prod.fst)) m ds us' := by
  have hadm := h.admissible
  have hreach := h.reach
  rw [List.map_append] at hadm hreach
  rw [reach_append] at hreach
  exact ⟨(admissible_append.1 hadm).2, fun u hu => h.known u (List.mem_append_right _ hu), hreach⟩

/-- An input that is not ahead goes in at the end. -/
theorem concat (h : Fits r m ds us) (hu : u ∈ numberFrom 0 ds)
    (hle : u.1 ≤ InOrder.reach r (us.map Prod.fst) + 1) : Fits r u.1 ds (us ++ [u]) where
  admissible := by
    rw [List.map_append]
    exact admissible_append.2 ⟨h.admissible, hle, trivial⟩
  known v hv := by
    rcases List.mem_append.1 hv with hv | hv
    · exact h.known v hv
    · rwa [List.mem_singleton.1 hv]
  reach := by
    rw [List.map_append, reach_append]
    exact le_takeNext_right hle

end Fits

/-- What a feed carries behind `written` fits behind `busy`, which the session has
parsed already, and behind the count `r`, and leads to `m`. -/
def FrameFeed.Offers (r m : ℕ) (ds : List Bytes) (busy : List (ℕ × Bytes)) (written : Bytes)
    (f : FrameFeed) : Prop :=
  ∃ us, f.Carries written us ∧ Fits r m ds (busy ++ us)

namespace Client

variable {σ : Type} {ext : Externals σ} {z : Lz4} {c c' : Client σ} {ds : List Bytes}
  {busy : List (ℕ × Bytes)} {r : ℕ} {written : Bytes}

/-- The last input the client sent on its connection, as long as it sends. -/
def sent (c : Client σ) : ℕ := if c.hungup then 0 else c.sentSeq

/-- A client that is not hung up has sent what it says. -/
theorem sent_of_live {c : Client σ} (h : c.hungup = false) : c.sent = c.sentSeq := by
  rw [sent, h, if_neg Bool.false_ne_true]

/-- **What a client has on its way** is not ahead, and leads to the last input it
sent. -/
def Sender (r : ℕ) (ds : List Bytes) (busy : List (ℕ × Bytes)) (written : Bytes)
    (c : Client σ) : Prop :=
  c.feed.Offers r c.sent ds busy written

/-- **What a client keeps**: of the inputs queued so far, those above an
acknowledged one. -/
structure Keeps (r : ℕ) (ds : List Bytes) (c : Client σ) : Prop where
  seq : c.seq = ds.length
  sized : ∀ d ∈ ds, d ≠ [] ∧ d.length ≤ maxInputBytes
  unacked : ∃ b ≤ r, b ≤ ds.length ∧ c.unacked = (numberFrom 0 ds).drop b

/-- More was accepted. -/
theorem Keeps.mono {r' : ℕ} (h : Keeps r ds c) (hr : r ≤ r') : Keeps r' ds c := by
  obtain ⟨b, hb, hu⟩ := h.unacked
  exact ⟨h.seq, h.sized, b, hb.trans hr, hu⟩

/-! ### Calls that queue nothing -/

/-- A call that leaves the inputs alone. -/
structure Retains (c c' : Client σ) : Prop where
  seq : c'.seq = c.seq
  unacked : c'.unacked = c.unacked

theorem Retains.trans {c'' : Client σ} (h : Retains c c') (h' : Retains c' c'') : Retains c c'' :=
  ⟨h'.seq.trans h.seq, h'.unacked.trans h.unacked⟩

/-- A call that keeps the list of inputs. -/
theorem Keeps.retains (hk : Keeps r ds c) (h : Retains c c') : Keeps r ds c' :=
  ⟨h.seq.trans hk.seq, hk.sized, h.unacked ▸ hk.unacked⟩

/-- Pumping an acknowledgement keeps the list. -/
theorem pumpAck_retains (c : Client σ) : Retains c c.pumpAck := by
  unfold pumpAck
  split <;> exact ⟨rfl, rfl⟩

/-- Pumping keeps it. -/
theorem pump_retains (c : Client σ) : Retains c c.pump := by
  have hinput (c : Client σ) : Retains c c.pumpInput := by
    unfold pumpInput
    split
    · exact ⟨rfl, rfl⟩
    · split <;> exact ⟨rfl, rfl⟩
  unfold pump
  split
  · exact ⟨rfl, rfl⟩
  · exact (pumpAck_retains c).trans (hinput _)

/-- A ping keeps it. -/
theorem maybePing_retains (c : Client σ) (now : ℕ) : Retains c (c.maybePing now) := by
  unfold maybePing
  dsimp only
  split
  · split <;> exact ⟨rfl, rfl⟩
  · exact ⟨rfl, rfl⟩

/-- Another size keeps it. -/
theorem setSize_retains (c : Client σ) (cols rows : ℕ) : Retains c (c.setSize cols rows) := by
  unfold Client.setSize
  dsimp only
  split <;> exact ⟨rfl, rfl⟩

/-- What `queue_input` does: the input is kept under the next number, and the predictor
and the frame on display may change. -/
theorem queueInput_eq (c : Client σ) (bytes : Bytes) (now : ℕ) :
    ∃ p d, c.queueInput ext bytes now =
      { c with
        seq := c.seq + 1, unacked := c.unacked ++ [(c.seq + 1, bytes)]
        predictor := p, display := d } := by
  unfold queueInput feedPredict
  dsimp only
  split
  · exact ⟨_, _, rfl⟩
  · split
    · exact ⟨_, _, rfl⟩
    · split <;> exact ⟨_, _, rfl⟩

/-! ### Calls that send nothing -/

/-- A call that leaves the sending half alone. -/
structure Silent (c c' : Client σ) : Prop where
  feed : c'.feed = c.feed
  sentSeq : c'.sentSeq = c.sentSeq
  seq : c'.seq = c.seq
  unacked : c'.unacked = c.unacked
  hungup : c.hungup = true → c'.hungup = true

theorem Silent.refl (c : Client σ) : Silent c c := ⟨rfl, rfl, rfl, rfl, id⟩

theorem Silent.trans {c'' : Client σ} (h : Silent c c') (h' : Silent c' c'') : Silent c c'' :=
  ⟨h'.feed.trans h.feed, h'.sentSeq.trans h.sentSeq, h'.seq.trans h.seq,
    h'.unacked.trans h.unacked, fun hh => h'.hungup (h.hungup hh)⟩

/-- A silent call does not go on in the list. -/
theorem Silent.sent_le (h : Silent c c') : c'.sent ≤ c.sent := by
  unfold sent
  split
  · exact Nat.zero_le _
  · rename_i hlive
    rw [if_neg fun hh => hlive (h.hungup hh), h.sentSeq]

/-- A silent call leaves all on its way as it was. -/
theorem Sender.silent (hs : Sender r ds busy written c) (h : Silent c c') :
    Sender r ds busy written c' := by
  obtain ⟨us, hc, hf⟩ := hs
  exact ⟨us, h.feed ▸ hc, hf.mono le_rfl h.sent_le⟩

/-- A silent call keeps the list of inputs. -/
theorem Silent.retains (h : Silent c c') : Retains c c' := ⟨h.seq, h.unacked⟩

/-- What was kept is kept. -/
theorem Keeps.silent (hk : Keeps r ds c) (h : Silent c c') : Keeps r ds c' := hk.retains h.retains

/-- A screen that is installed sends nothing. -/
theorem applyScreen_silent (c : Client σ) (incoming : Screen) (now : ℕ) :
    Silent c (c.applyScreen ext incoming now) := by
  unfold applyScreen
  split <;> exact ⟨rfl, rfl, rfl, rfl, id⟩

/-- Nor does a shared one. -/
theorem applySharedScreen_silent (c : Client σ) (incoming : SharedScreen) (now : ℕ) :
    Silent c (c.applySharedScreen ext incoming now).2 := by
  have hcontext (context : ℕ × Bool) : Silent c (c.setContext context) := by
    unfold setContext
    split <;> exact ⟨rfl, rfl, rfl, rfl, id⟩
  unfold applySharedScreen
  split
  · exact .refl c
  · split
    · exact .refl c
    · exact (hcontext _).trans (applyScreen_silent ..)

/-- **Frames other than acknowledgements leave the sending half alone.** -/
theorem handleFrame_silent (c : Client σ) {typ : UInt8} (payload : Bytes) (now : ℕ)
    (htyp : typ ≠ msgInputAck) : Silent c (c.handleFrame ext z typ payload now).2 := by
  unfold handleFrame
  split_ifs
  · unfold handleHelloOk
    split
    · exact .refl c
    · split <;> exact ⟨rfl, rfl, rfl, rfl, id⟩
  · split
    · exact .refl c
    · exact applySharedScreen_silent ..
  · exact .refl c
  · split
    · exact .refl c
    · exact applyScreen_silent ..
  · unfold handlePong
    dsimp only
    split <;> exact ⟨rfl, rfl, rfl, rfl, id⟩
  · split
    · exact .refl c
    · exact ⟨rfl, rfl, rfl, rfl, fun _ => rfl⟩
  · split <;> exact .refl c
  · exact .refl c

/-- A datagram sends nothing. -/
theorem recvDatagram_silent (c : Client σ) (bytes : Bytes) (now : ℕ) :
    Silent c (c.recvDatagram ext z bytes now) := by
  have hrx : Silent c { c with lastRxMs := some now } := ⟨rfl, rfl, rfl, rfl, id⟩
  unfold recvDatagram
  dsimp only
  split
  · split
    · exact hrx
    · exact hrx.trans (applySharedScreen_silent ..)
  · split
    · exact hrx
    · split
      · exact hrx
      · exact hrx.trans (applyScreen_silent ..)

/-- Nor does the predictor. -/
theorem tickPredictor_silent (c : Client σ) (now : ℕ) : Silent c (c.tickPredictor ext now) := by
  unfold tickPredictor
  split
  · dsimp only
    split <;> exact ⟨rfl, rfl, rfl, rfl, id⟩
  · exact .refl c

/-- A link that is given up sends nothing more. -/
theorem tickSilence_silent (c : Client σ) (live : Bool) (now : ℕ) :
    Silent c (c.tickSilence live now).2 := by
  unfold tickSilence
  split
  · exact .refl c
  · split
    · exact .refl c
    · dsimp only
      split <;> exact ⟨rfl, rfl, rfl, rfl, id⟩

/-! ### Calls that send -/

/-- What an acknowledgement does to a client. -/
theorem handleFrame_inputAck (c : Client σ) (payload : Bytes) (now : ℕ) :
    (c.handleFrame ext z msgInputAck payload now).2 =
      match decodeU64 payload with
      | .error _ => c
      | .ok ack => { c with unacked := c.unacked.filter fun u => u.1 > ack } := by
  have hcall : c.handleFrame ext z msgInputAck payload now =
      match decodeU64 payload with
      | .error e => (.error (.fatal ("protocol error: " ++ e.display)), c)
      | .ok ack => (.ok (), { c with unacked := c.unacked.filter fun u => u.1 > ack }) := rfl
  rw [hcall]
  cases decodeU64 payload <;> rfl

/-- **An acknowledgement drops what it covers** from what the client keeps. -/
theorem Keeps.ack (h : Keeps r ds c) {payload : Bytes} (now : ℕ)
    (hack : ∀ n, decodeU64 payload = .ok n → n ≤ r) :
    Keeps r ds (c.handleFrame ext z msgInputAck payload now).2 := by
  obtain ⟨b, hb, -, hu⟩ := h.unacked
  rw [handleFrame_inputAck]
  cases hd : decodeU64 payload with
  | error e => exact h
  | ok n =>
    refine ⟨h.seq, h.sized, min (max b n) ds.length,
      (min_le_left ..).trans (max_le hb (hack n hd)), min_le_right .., ?_⟩
    change c.unacked.filter _ = _
    rw [hu, filter_drop_numberFrom, List.drop_eq_drop_min, length_numberFrom]

/-- **An acknowledgement drops inputs that were accepted.** -/
theorem Sender.ack (h : Sender r ds busy written c) (payload : Bytes) (now : ℕ) :
    Sender r ds busy written (c.handleFrame ext z msgInputAck payload now).2 := by
  rw [handleFrame_inputAck]
  cases decodeU64 payload <;> exact h

/-- A control frame without input. -/
theorem Sender.pushOther (h : Sender r ds busy written c) {g : Frame}
    (hg : g.2.length < maxFrame) (hnone : frameInput g = none) {c' : Client σ}
    (hfeed : c'.feed = (c.feed.pushCtrl g.bytes).2) (hsent : c'.sent ≤ c.sent) :
    Sender r ds busy written c' := by
  obtain ⟨us, hc, hf⟩ := h
  exact ⟨us, hfeed ▸ hc.pushOther hg hnone, hf.mono le_rfl hsent⟩

/-- An acknowledgement of a screen is no input. -/
theorem Sender.pumpAck (h : Sender r ds busy written c) : Sender r ds busy written c.pumpAck := by
  unfold Client.pumpAck
  split
  · exact h
  · rename_i v _
    exact h.pushOther (g := (msgAckState, toLe 8 v)) (by simp [maxFrame]) rfl rfl le_rfl

/-- The frame of an input is read back. -/
theorem frameInput_inputPayload {seq : ℕ} (hseq : seq < 2 ^ 64) (data : Bytes) :
    frameInput (msgInput, inputPayload seq data) = some (seq, data) := by
  rw [frameInput, if_pos rfl]
  dsimp only
  rw [decodeInput_payload hseq]

/-- **The next input is never ahead**: it is the one behind the last sent, or the
first one kept. -/
theorem Sender.pumpInput (h : Sender r ds busy written c) (hk : Keeps r ds c)
    (hlive : c.hungup = false) (hseq : ds.length < 2 ^ 64) :
    Sender r ds busy written c.pumpInput := by
  obtain ⟨b, hb, -, hu⟩ := hk.unacked
  obtain ⟨us, hc, hf⟩ := h
  unfold Client.pumpInput
  split
  · exact ⟨us, hc, hf⟩
  · split
    · exact ⟨us, hc, hf⟩
    · rename_i seq data hfind
      rw [hu, find?_drop_numberFrom, Option.map_eq_some_iff] at hfind
      obtain ⟨d, hd, heq⟩ := hfind
      obtain ⟨rfl, rfl⟩ := Prod.mk.inj heq
      have hlt : max b c.sentSeq < ds.length := (List.getElem?_eq_some_iff.1 hd).1
      have hlen : (inputPayload (max b c.sentSeq + 1) d).length < maxFrame := by
        have := (hk.sized d (List.mem_of_getElem? hd)).2
        unfold maxInputBytes at this
        rw [inputPayload, List.length_append, length_toLe, maxFrame]
        omega
      have hpush := hc.pushCtrl (g := (msgInput, inputPayload (max b c.sentSeq + 1) d)) hlen
      rw [frameInput_inputPayload (by omega)] at hpush
      have hreach := hf.reach
      rw [sent_of_live hlive] at hreach
      change (c.feed.pushCtrl (encodeInput (max b c.sentSeq + 1) d)).2.Carries written (us ++
        if (c.feed.pushCtrl (encodeInput (max b c.sentSeq + 1) d)).1 then _ else []) at hpush
      cases hcall : c.feed.pushCtrl (encodeInput (max b c.sentSeq + 1) d) with
      | mk taken feed =>
        rw [hcall] at hpush
        dsimp only at hpush ⊢
        refine ⟨_, hpush, ?_⟩
        rw [sent_of_live (c := { c with
          feed, sentSeq := if taken then max b c.sentSeq + 1 else c.sentSeq }) hlive]
        dsimp only
        cases taken with
        | false =>
          rw [if_neg Bool.false_ne_true, if_neg Bool.false_ne_true, List.append_nil]
          exact sent_of_live hlive ▸ hf
        | true =>
          rw [if_pos rfl, if_pos rfl, Option.toList_some, ← List.append_assoc]
          have hmem : (max b c.sentSeq + 1, d) ∈ numberFrom 0 ds :=
            mem_numberFrom.2 ⟨max b c.sentSeq, hd, by rw [Nat.zero_add]⟩
          refine hf.concat hmem ?_
          have hr := le_reach r ((busy ++ us).map Prod.fst)
          dsimp only
          omega

/-- **`pump` sends only what is not ahead.** -/
theorem Sender.pump (h : Sender r ds busy written c) (hk : Keeps r ds c)
    (hseq : ds.length < 2 ^ 64) : Sender r ds busy written c.pump := by
  unfold Client.pump
  split
  · exact h
  · rename_i hgo
    have hlive : c.hungup = false := by
      rw [Bool.or_eq_true, not_or] at hgo
      exact Bool.eq_false_iff.2 hgo.2
    have hack : c.pumpAck.hungup = false := by
      unfold Client.pumpAck
      split <;> exact hlive
    exact h.pumpAck.pumpInput (hk.retains (pumpAck_retains c)) hack hseq

/-- A ping is no input. -/
theorem Sender.maybePing (h : Sender r ds busy written c) (now : ℕ) :
    Sender r ds busy written (c.maybePing now) := by
  unfold Client.maybePing
  dsimp only
  split
  · split
    · exact h.pushOther (g := (msgPing, [])) (by decide) rfl rfl le_rfl
    · exact h.pushOther (g := (msgPing, [])) (by decide) rfl rfl le_rfl
  · exact h

/-- A call that queues no input and opens no connection. -/
inductive Call (ext : Externals σ) : Client σ → Client σ → Prop
  | tick (c : Client σ) (now : ℕ) : Call ext c (c.tick ext now).2
  | pump (c : Client σ) : Call ext c c.pump
  | endConnection (c : Client σ) : Call ext c c.endConnection
  | reset (c : Client σ) : Call ext c c.reset
  | setSize (c : Client σ) (cols rows : ℕ) : Call ext c (c.setSize cols rows)
  | requestHangup (c : Client σ) : Call ext c c.requestHangup

/-- A tick keeps the list of inputs. -/
theorem tick_retains (c : Client σ) (now : ℕ) : Retains c (c.tick ext now).2 := by
  have hpump := ((@tickPredictor_silent _ ext) c now).retains.trans (pump_retains _)
  unfold tick
  dsimp only
  refine Retains.trans ?_ (tickSilence_silent ..).retains
  split
  · exact hpump.trans (maybePing_retains ..)
  · exact hpump

/-- **A call keeps what the client keeps.** -/
theorem Keeps.call (h : Keeps r ds c) (hc : Call ext c c') : Keeps r ds c' := by
  refine h.retains ?_
  cases hc with
  | tick now => exact tick_retains c now
  | pump => exact pump_retains c
  | endConnection => exact ⟨rfl, rfl⟩
  | reset => exact ⟨rfl, rfl⟩
  | setSize cols rows => exact setSize_retains c cols rows
  | requestHangup => exact ⟨rfl, rfl⟩

/-- **A call sends only what is not ahead.**  Inputs go out in `pump` alone, from the last
that was sent on; a hangup drops those that wait. -/
theorem Sender.call (h : Sender r ds busy written c) (hk : Keeps r ds c)
    (hseq : ds.length < 2 ^ 64) (hc : Call ext c c') : Sender r ds busy written c' := by
  cases hc with
  | tick now =>
    have hs := (@tickPredictor_silent _ ext) c now
    have hpump := (h.silent hs).pump (hk.silent hs) hseq
    unfold tick
    dsimp only
    refine Sender.silent ?_ (tickSilence_silent ..)
    split
    · exact hpump.maybePing now
    · exact hpump
  | pump => exact h.pump hk hseq
  | endConnection => exact h
  | reset => exact h
  | setSize cols rows =>
    unfold Client.setSize
    dsimp only
    split
    · exact h.pushOther (g := (msgResize, toLe 2 cols ++ toLe 2 rows)) (by simp [maxFrame]) rfl rfl
        le_rfl
    · exact h
  | requestHangup =>
    obtain ⟨us, hcarries, hf⟩ := h
    obtain ⟨us', hprefix, hcarries'⟩ := hcarries.pushFin
    exact ⟨us', hcarries', hf.of_prefix ((List.prefix_append_right_inj busy).2 hprefix)⟩

/-- **An input that is queued** is kept. -/
theorem Keeps.queueInput (h : Keeps r ds c) {bytes : Bytes} (now : ℕ) (hne : bytes ≠ [])
    (hlen : bytes.length ≤ maxInputBytes) :
    Keeps r (ds ++ [bytes]) (c.queueInput ext bytes now) := by
  obtain ⟨b, hb, hbd, hu⟩ := h.unacked
  obtain ⟨p, d, hqueue⟩ := (@queueInput_eq _ ext) c bytes now
  rw [hqueue]
  refine ⟨?_, fun d hd => ?_, b, hb, ?_, ?_⟩
  · rw [List.length_append, ← h.seq]
    rfl
  · rcases List.mem_append.1 hd with hd | hd
    · exact h.sized d hd
    · rw [List.mem_singleton.1 hd]
      exact ⟨hne, hlen⟩
  · rw [List.length_append]
    exact Nat.le_add_right_of_le hbd
  · dsimp only
    rw [hu, h.seq, numberFrom_append, List.drop_append_of_le_length]
    · rw [Nat.zero_add]
      rfl
    · rwa [length_numberFrom]

/-- **An input that is queued** is the last of those given. -/
theorem Sender.queueInput (h : Sender r ds busy written c) (bytes : Bytes) (now : ℕ) :
    Sender r (ds ++ [bytes]) busy written (c.queueInput ext bytes now) := by
  obtain ⟨p, d, hqueue⟩ := (@queueInput_eq _ ext) c bytes now
  obtain ⟨us, hc, hf⟩ := h
  rw [hqueue]
  exact ⟨us, hc, hf.grow bytes⟩

/-- **Bytes that go out** move from the feed to the stream. -/
theorem Sender.advanceOutbound (h : Sender r ds busy written c) (n : ℕ) :
    Sender r ds busy (written ++ c.outbound.take n) (c.advanceOutbound n) := by
  obtain ⟨us, hc, hf⟩ := h
  exact ⟨us, hc.advance n, hf⟩

/-- **A new connection starts over**: it has sent nothing. -/
theorem sender_beginConnection (r : ℕ) (ds : List Bytes) (c : Client σ) (now : ℕ) :
    Sender r ds [] [] (c.beginConnection now) := by
  have hhello (h : Hello) : (({} : FrameFeed).pushCtrl h.encode).2.Carries [] [] := by
    have hlen : h.payload.length < maxFrame := by
      rw [h.length_payload]
      decide
    exact @FrameFeed.Carries.pushOther _ _ _ FrameFeed.carries_nil (msgHello, h.payload) hlen rfl
  refine ⟨[], hhello _, .nil ds ?_⟩
  unfold sent
  split <;> exact Nat.zero_le _

/-- Another connection keeps the list of inputs. -/
theorem Keeps.beginConnection (h : Keeps r ds c) (now : ℕ) :
    Keeps r ds (c.beginConnection now) := ⟨h.seq, h.sized, h.unacked⟩

end Client
end Quosh
