/-
# What the server answers

`crates/quosh-server/src/transport.rs`: the frames that `handle_incoming`, `reject` and
`run_transport` write.  They are few (`Answer`): the `HelloOk`, acknowledgements, pongs,
screens that were published, the exit of the session, and one error when the connection is
rejected.

What a part of the loop of a handler does to its feed is said once (`Handler.Moves`,
`Handler.serve_moves`), and it never touches what the owner has published
(`Handler.serve_keeps`).  Texts and numbers of an answer are read back by the client
(`decodeExit_status`, `decodeError_payload`, `handleIncoming_reject`).
-/

import Quosh.Server.Serving
import Quosh.Proto.AuthMessage
import Mathlib.Data.Nat.Digits.Defs

namespace Quosh

open Bytes

/-! ### Reading an answer back -/

/-- The payload of `encode_exit`. -/
def exitPayload (status : ℤ) : Bytes := toLe 4 (status % 2 ^ 32).toNat

/-- The payload of `encode_error`. -/
def errorPayload (code : ℕ) (msg : String) : Bytes :=
  toLe 2 code ++ toLe 2 (asBytes msg).length ++ asBytes msg

/-- **An exit status is read back** while it is an `i32`. -/
theorem decodeExit_status {status : ℤ} (hlo : -2 ^ 31 ≤ status) (hhi : status < 2 ^ 31) :
    decodeExit (exitPayload status) = .ok status := by
  have hmod : (status % 2 ^ 32).toNat < 2 ^ 32 := by omega
  rw [exitPayload, decodeExit, if_pos (length_toLe ..), fromLe_toLe (by omega)]
  congr 1
  split <;> omega

/-- **An error is read back** while its text has a `u16` length. -/
theorem decodeError_payload {code : ℕ} {msg : String} (hcode : code < 2 ^ 16)
    (hmsg : (asBytes msg).length < 2 ^ 16) :
    decodeError (errorPayload code msg) = .ok (code, msg) := by
  have hlen : leAt (errorPayload code msg) 2 2 = (asBytes msg).length :=
    leAt_append (length_toLe ..) (by omega)
  have hfirst : leAt (errorPayload code msg) 0 2 = code := by
    have h := @leAt_append [] (toLe 2 (asBytes msg).length ++ asBytes msg) 0 2 code rfl (by omega)
    simpa [errorPayload] using h
  have hsize : (errorPayload code msg).length = 4 + (asBytes msg).length := by
    simp [errorPayload]
    omega
  have hdrop : (errorPayload code msg).drop 4 = asBytes msg := by
    rw [errorPayload, List.drop_left' (by simp)]
  rw [decodeError, if_neg (by omega), if_neg (by omega), hlen, hfirst, hdrop,
    List.take_of_length_le le_rfl, fromUtf8Lossy_asBytes]

/-- A character has at most four bytes. -/
theorem length_asBytes_le (s : String) : (asBytes s).length ≤ 4 * s.length := by
  have h : ∀ cs : List Char, (cs.flatMap String.utf8EncodeChar).length ≤ 4 * cs.length := by
    intro cs
    induction cs with
    | nil => exact le_rfl
    | cons c cs ih =>
      have hc : (String.utf8EncodeChar c).length ≤ 4 := by
        rw [String.length_utf8EncodeChar]
        exact c.utf8Size_le_four
      rw [List.flatMap_cons, List.length_append, List.length_cons]
      omega
  exact h s.toList

/-- Fields of a hello are `u16`. -/
theorem Hello.decode_protocol_lt {p : Bytes} {h : Hello} (hp : Hello.decode p = .ok h) :
    h.protocol < 2 ^ 16 := by
  unfold Hello.decode at hp
  split at hp
  · cases hp
    exact leAt_lt p 0 2
  · cases hp

/-- **Every rejection is read back**: its code and the length of its message fit their two
bytes. All messages are fixed but that of another protocol, which holds a number of five
digits. -/
theorem handleIncoming_reject {s : Session} {authUid : Option ℕ} {buf : Bytes} {code : ℕ}
    {msg : String} (h : handleIncoming s authUid buf = .reject code msg) :
    code < 2 ^ 16 ∧ (asBytes msg).length < 2 ^ 16 := by
  unfold handleIncoming at h
  split at h
  · cases h
  · cases h
  · split at h
    · cases h
      decide +kernel
    · split at h
      · cases h
        decide +kernel
      · rename_i hello hdecode
        split at h
        · cases h
          have hdigits : (toString hello.protocol).length ≤ 5 :=
            Nat.repr_length _ 5 (by omega) ((Hello.decode_protocol_lt hdecode).trans (by omega))
          have hbytes := length_asBytes_le (toString hello.protocol)
          have hhead : (asBytes "protocol version ").length = 17 := by decide +kernel
          have hmid : (asBytes " != ").length = 4 := by decide +kernel
          have hversion : (asBytes (toString protocolVersion)).length = 1 := by decide +kernel
          have htail : (asBytes "; update quosh-server").length = 21 := by decide +kernel
          refine ⟨by omega, ?_⟩
          rw [asBytes_append, asBytes_append, asBytes_append, asBytes_append, List.length_append,
            List.length_append, List.length_append, List.length_append]
          omega
        · split_ifs at h
          all_goals
            cases h
            decide +kernel

/-! ### Answers -/

/-- **The frames of a connection**: `published` are the screens that may be sent, `exit` the
exit status of the session, and `rejected` why the connection was rejected. -/
inductive Answer (published : Bytes → Prop) (exit : Option ℤ) (rejected : Option (ℕ × String)) :
    Frame → Prop
  | helloOk (p : Bytes) (h : ∃ m, HelloOk.decode p = .ok m ∧ m.protocol = protocolVersion) :
    Answer published exit rejected (msgHelloOk, p)
  | inputAck (n : ℕ) : Answer published exit rejected (msgInputAck, toLe 8 n)
  | pong : Answer published exit rejected (msgPong, [])
  | screen (blob : Bytes) (h : published blob) : Answer published exit rejected (msgScreen, blob)
  | exit (status : ℤ) (h : exit = some status) :
    Answer published exit rejected (msgExit, exitPayload status)
  | error (code : ℕ) (msg : String) (h : rejected = some (code, msg)) :
    Answer published exit rejected (msgError, errorPayload code msg)

variable {published published' : Bytes → Prop} {exit exit' : Option ℤ}
  {rejected : Option (ℕ × String)} {g : Frame}

/-- More screens are published, and the session ends. -/
theorem Answer.mono (h : Answer published exit rejected g) (hp : ∀ b, published b → published' b)
    (he : ∀ status, exit = some status → exit' = some status) :
    Answer published' exit' rejected g := by
  cases h with
  | helloOk p h => exact .helloOk p h
  | inputAck n => exact .inputAck n
  | pong => exact .pong
  | screen blob h => exact .screen blob (hp blob h)
  | exit status h => exact .exit status (he status h)
  | error code msg h => exact .error code msg h

/-- A frame of the exit slot. -/
def IsExit (g : Frame) : Prop := g.1 = msgExit

/-- A frame of the screen slot. -/
def IsScreen (g : Frame) : Prop := g.1 = msgScreen

/-- A frame of the control queue. -/
def IsCtrl (g : Frame) : Prop := ¬IsScreen g ∧ ¬IsExit g

/-- Only the exit of a session is sent as one. -/
theorem Answer.not_isExit (h : Answer published none rejected g) : ¬IsExit g := by
  cases h
  case exit status h => cases h
  all_goals simp [IsExit, msgExit, msgHelloOk, msgInputAck, msgPong, msgScreen, msgError]

namespace Handler

/-! ### What a part of the loop does -/

/-- A feed behind the exit of the session, and the latest screen if there is one. -/
def exitFeed (latest : Option Latest) (f : FrameFeed) (status : ℤ) : FrameFeed :=
  (match latest with
    | none => f
    | some snap => f.pushScreen (Frame.bytes (msgScreen, snap.blob))).pushFin
    (Frame.bytes (msgExit, exitPayload status))

/-- **What a part of the loop of `run_transport` does to the feed**, in a session whose
latest screen is `latest`: nothing, a control frame, the latest screen, the exit behind the
latest screen, or `n` bytes that are written. -/
inductive Moves (latest : Option Latest) (b : Branch) (f : FrameFeed) : FrameFeed → Prop
  | same (hb : ∀ n, b ≠ .write n) : Moves latest b f f
  | ctrl (g : Frame) (h : g = (msgPong, []) ∨ ∃ n, g = (msgInputAck, toLe 8 n))
    (hb : ∀ n, b ≠ .write n) : Moves latest b f (f.pushCtrl g.bytes).2
  | screen (snap : Latest) (h : latest = some snap) (hb : ∀ n, b ≠ .write n) :
    Moves latest b f (f.pushScreen (Frame.bytes (msgScreen, snap.blob)))
  | exit (status : ℤ) (hb : b = .exit status) : Moves latest b f (exitFeed latest f status)
  | write (n : ℕ) (hb : b = .write n) : Moves latest b f (f.advance n)

variable {s s' : Session} {h h' : Handler}

/-- What a frame of the client does to the feed: a ping is answered. -/
theorem onControl_feed {typ : UInt8} {payload : Bytes}
    (hc : onControl s h typ payload = .ok (s', h')) :
    h'.feed = h.feed ∨ h'.feed = (h.feed.pushCtrl (Frame.bytes (msgPong, []))).2 := by
  unfold onControl at hc
  split_ifs at hc
  · cases hc
    exact .inl rfl
  · split at hc
    · cases hc
      exact .inl rfl
    · split_ifs at hc
      cases hc
      exact .inl rfl
  · split at hc <;> cases hc <;> exact .inl rfl
  · cases hc
    exact .inl rfl
  · split at hc <;> cases hc <;> exact .inl rfl
  · cases hc
    exact .inr rfl
  · cases hc
    exact .inl rfl

/-- A frame that is parsed is answered by a pong, or not at all. -/
theorem drainOne_feed {cap : ℕ} (hd : drainOne s h cap = .ok (some (s', h'))) :
    h'.feed = h.feed ∨ h'.feed = (h.feed.pushCtrl (Frame.bytes (msgPong, []))).2 := by
  unfold drainOne at hd
  split at hd
  · cases hd
  · split at hd
    · cases hd
    · cases hd
    · split at hd
      · cases hd
      · split at hd
        · cases hd
        · cases hd
        · rename_i typ payload rest hsplit
          cases hc : onControl s { h with leftover := rest } typ payload with
          | error e =>
            rw [hc] at hd
            cases hd
          | ok p =>
            rw [hc] at hd
            cases hd
            exact onControl_feed (h := { h with leftover := rest }) hc

/-- An input that is passed on is not answered yet. -/
theorem pushOne_feed (s : Session) (h : Handler) : (pushOne s h).2.2.feed = h.feed := by
  unfold pushOne
  split
  · rfl
  · split <;> rfl

/-- Nor is a size. -/
theorem tryPendingResize_feed (s : Session) (h : Handler) :
    (tryPendingResize s h).2.feed = h.feed := by
  unfold tryPendingResize
  split
  · rfl
  · split <;> rfl

/-- **The pending acknowledgement is written.** -/
theorem pushInputAck_feed (h : Handler) :
    h.pushInputAck.2.feed = h.feed ∨
      ∃ n, h.pushInputAck.2.feed = (h.feed.pushCtrl (Frame.bytes (msgInputAck, toLe 8 n))).2 := by
  unfold pushInputAck
  split
  · exact .inl rfl
  · rename_i n hn
    refine .inr ⟨n, ?_⟩
    dsimp only
    split <;> rfl

/-- What was accepted is noted only. -/
theorem onAccepted_feed (s : Session) (h : Handler) : (onAccepted s h).feed = h.feed := by
  unfold onAccepted
  split <;> rfl

/-- **A screen is written**, or it is one that the feed has. -/
theorem pushScreen_feed (h : Handler) (max : ℕ) (blob : Bytes) (reliable : Bool) :
    (h.pushScreen max blob reliable).feed = h.feed ∨
      (h.pushScreen max blob reliable).feed =
        h.feed.pushScreen (Frame.bytes (msgScreen, blob)) := by
  unfold pushScreen
  split
  · exact .inl rfl
  · exact .inr rfl

/-- **What a part of the loop does to the feed.**  By the branch, and by the lemma on what
its function does to the feed: most leave it, and the others push one control frame, the
latest screen or the exit, or write some bytes. -/
theorem serve_moves {b : Branch} (hs : (serve s h b).handler = some h') :
    Moves s.latest b h.feed h'.feed := by
  cases b with
  | drain =>
    unfold serve at hs
    dsimp only at hs
    split at hs
    · cases hs
    · cases hs
      exact .same nofun
    · rename_i s₁ h₁ hd
      cases hs
      rcases drainOne_feed hd with he | he <;> rw [he]
      · exact .same nofun
      · exact .ctrl _ (.inl rfl) nofun
  | push =>
    have he : (pushOne s h).2.2 = h' := Option.some.inj hs
    rw [← he, pushOne_feed]
    exact .same nofun
  | resize =>
    have he : (tryPendingResize s h).2 = h' := Option.some.inj hs
    rw [← he, tryPendingResize_feed]
    exact .same nofun
  | inputAck =>
    cases hs
    rcases pushInputAck_feed h with he | ⟨n, he⟩ <;> rw [he]
    · exact .same nofun
    · exact .ctrl _ (.inr ⟨n, rfl⟩) nofun
  | epoch =>
    unfold serve at hs
    dsimp only at hs
    split at hs <;> cases hs
    exact .same nofun
  | latest max =>
    unfold serve at hs
    dsimp only at hs
    split at hs <;> cases hs
    · exact .same nofun
    · rename_i snap hsnap
      rcases pushScreen_feed h max snap.blob false with he | he <;> rw [he]
      · exact .same nofun
      · exact .screen snap hsnap nofun
  | accepted =>
    cases hs
    rw [onAccepted_feed]
    exact .same nofun
  | resync =>
    unfold serve at hs
    dsimp only at hs
    split at hs
    · cases hs
      exact .same nofun
    · rename_i snap hsnap
      split at hs <;> cases hs
      · rcases pushScreen_feed h 0 snap.blob true with he | he <;> rw [he]
        · exact .same nofun
        · exact .screen snap hsnap nofun
      · exact .same nofun
  | write n =>
    cases hs
    exact .write n rfl
  | read bytes =>
    unfold serve at hs
    dsimp only at hs
    split at hs <;> cases hs
    exact .same nofun
  | exit status =>
    cases hs
    unfold queueExit
    split
    · exact .same nofun
    · exact .exit status rfl
  | fail => cases hs

/-- What the owner has left in a session. -/
structure Keeps (s s' : Session) : Prop where
  latest : s'.latest = s.latest
  exit : s'.exit = s.exit
  closed : s'.closed = s.closed

/-- A message to the owner keeps what is published. -/
theorem trySend_keeps (s : Session) (msg : OwnerMsg) : Keeps s (s.trySend msg).2 := by
  unfold Session.trySend
  split_ifs <;> exact ⟨rfl, rfl, rfl⟩

/-- So does a frame. -/
theorem onControl_keeps {typ : UInt8} {payload : Bytes}
    (hc : onControl s h typ payload = .ok (s', h')) : Keeps s s' := by
  unfold onControl at hc
  split_ifs at hc
  · cases hc
    exact ⟨rfl, rfl, rfl⟩
  · split at hc
    · cases hc
      exact ⟨rfl, rfl, rfl⟩
    · split_ifs at hc
      cases hc
      exact ⟨rfl, rfl, rfl⟩
  · split at hc <;> cases hc <;> exact ⟨rfl, rfl, rfl⟩
  · cases hc
    exact ⟨rfl, rfl, rfl⟩
  · split at hc <;> cases hc
    · exact ⟨rfl, rfl, rfl⟩
    · rename_i v hv
      have hsend := trySend_keeps s (.ack v)
      exact ⟨hsend.latest, hsend.exit, hsend.closed⟩
  all_goals
    cases hc
    exact ⟨rfl, rfl, rfl⟩

/-- So does a frame that is parsed. -/
theorem drainOne_keeps {cap : ℕ} (hd : drainOne s h cap = .ok (some (s', h'))) : Keeps s s' := by
  unfold drainOne at hd
  split at hd
  · cases hd
  · split at hd
    · cases hd
    · cases hd
    · split at hd
      · cases hd
      · split at hd
        · cases hd
        · cases hd
        · rename_i typ payload rest hsplit
          cases hc : onControl s { h with leftover := rest } typ payload with
          | error e =>
            rw [hc] at hd
            cases hd
          | ok p =>
            rw [hc] at hd
            cases hd
            exact onControl_keeps hc

/-- So does an input that is passed on. -/
theorem tryInput_keeps (s : Session) (seq : ℕ) (data : Bytes) :
    Keeps s (s.tryInput seq data).2 := by
  unfold Session.tryInput
  split_ifs
  · exact ⟨rfl, rfl, rfl⟩
  · exact ⟨rfl, rfl, rfl⟩
  · exact trySend_keeps s _

/-- So does the next one. -/
theorem pushOne_keeps (s : Session) (h : Handler) : Keeps s (pushOne s h).2.1 := by
  unfold pushOne
  split
  · exact ⟨rfl, rfl, rfl⟩
  · rename_i seq data rest hbusy
    have hsend := tryInput_keeps s seq data
    split <;> rename_i hcall <;> rw [hcall] at hsend <;> exact hsend

/-- So does a size. -/
theorem tryPendingResize_keeps (s : Session) (h : Handler) :
    Keeps s (tryPendingResize s h).1 := by
  unfold tryPendingResize
  split
  · exact ⟨rfl, rfl, rfl⟩
  · rename_i cols rows hpending
    have hsend : Keeps s (s.tryResize cols rows).2 := by
      unfold Session.tryResize
      split_ifs
      · exact trySend_keeps s _
      all_goals exact ⟨rfl, rfl, rfl⟩
    split <;> rename_i hcall <;> rw [hcall] at hsend <;> exact hsend

/-- **A handler never touches what the owner has published.** -/
theorem serve_keeps (s : Session) (h : Handler) (b : Branch) : Keeps s (serve s h b).session := by
  cases b with
  | drain =>
    unfold serve
    dsimp only
    split
    · exact ⟨rfl, rfl, rfl⟩
    · exact ⟨rfl, rfl, rfl⟩
    · rename_i s₁ h₁ hd
      exact drainOne_keeps hd
  | push => exact pushOne_keeps s h
  | resize => exact tryPendingResize_keeps s h
  | latest max =>
    unfold serve
    dsimp only
    split <;> exact ⟨rfl, rfl, rfl⟩
  | resync =>
    unfold serve
    dsimp only
    split
    · exact ⟨rfl, rfl, rfl⟩
    · split <;> exact ⟨rfl, rfl, rfl⟩
  | _ => exact ⟨rfl, rfl, rfl⟩

/-- What a handler begins with. -/
theorem attach_feed (s : Session) (leftover : Bytes) (pendingResize : Option (ℕ × ℕ)) :
    ∃ p, (∃ m, HelloOk.decode p = .ok m ∧ m.protocol = protocolVersion) ∧ p.length = 30 ∧
      (attach s leftover pendingResize).feed =
        match s.latest with
        | none => (({} : FrameFeed).pushCtrl (Frame.bytes (msgHelloOk, p))).2
        | some first => (({} : FrameFeed).pushCtrl (Frame.bytes (msgHelloOk, p))).2.pushScreen
            (Frame.bytes (msgScreen, first.blob)) := by
  let m : HelloOk :=
    { protocol := protocolVersion, sessionId := s.id, version := s.version
      cols := s.size.1, rows := s.size.2 }
  have hlen : m.payload.length = 30 := m.length_payload
  refine ⟨m.payload, ⟨_, dif_pos hlen, ?_⟩, hlen, rfl⟩
  change leAt m.payload 0 2 = protocolVersion
  have h := @leAt_append [] (m.sessionId.1 ++ toLe 8 m.version ++ toLe 2 m.cols ++ toLe 2 m.rows)
    0 2 protocolVersion rfl (by decide)
  simpa [HelloOk.payload, m] using h

end Handler
end Quosh
