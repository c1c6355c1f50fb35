/-
# A session and its owner

`crates/quosh-server/src/session.rs`: `Session`, the state that the connections of
a session share, and `Owner`, the task that owns the pty.  Connections put
commands into a bounded channel; the owner takes them one at a time, and takes
an input only if its sequence number is the next one.

The emulator is a parameter (`Driver`), so are the codec of screens and everything
the child process and the clock decide: `Owner.Step` is one turn of the loop of
`Owner::run`, with its branch, the bytes of the pty and the time left open.  What
a turn means for input is in `Owner.Step.effect`.

`Owner` carries one history variable, `taken`: the inputs it accepted.  No function
reads it.
-/

import Quosh.Server.Publish

namespace Quosh

open Bytes

/-- `CMD_Q`, the capacity of the command channel. -/
def cmdQ : ℕ := 32

/-- `MAX_PENDING`. -/
def maxPending : ℕ := 1024 * 1024

/-- `PENDING_HARD_MAX`. -/
def pendingHardMax : ℕ := maxPending + 64 * 1024

/-- `ECHO_TIMEOUT` in milliseconds. -/
def echoTimeoutMs : ℕ := 50

/-! ### Pending writes -/

/-- `WriteChunk`. -/
structure WriteChunk where
  seq : Option ℕ
  data : Bytes
  off : ℕ := 0
  deriving DecidableEq

/-- `PendingWrites`. -/
structure PendingWrites where
  chunks : List WriteChunk := []
  unread : ℕ := 0
  deriving DecidableEq

namespace PendingWrites

/-- `push_input`: whether the hard cap allows it, and the writes after it. -/
def pushInput (p : PendingWrites) (seq : ℕ) (data : Bytes) : Bool × PendingWrites :=
  if p.unread + data.length > pendingHardMax then (false, p)
  else
    (true,
      { chunks := p.chunks ++ [{ seq := some seq, data }], unread := p.unread + data.length })

/-- `push_generated`: an unsequenced chunk at the back grows. -/
def pushGenerated (p : PendingWrites) (bytes : Bytes) : Bool × PendingWrites :=
  if bytes = [] then (true, p)
  else if p.unread + bytes.length > pendingHardMax then (false, p)
  else
    let unread := p.unread + bytes.length
    match p.chunks.getLast? with
    | some back =>
      if back.seq = none then
        (true,
          { chunks := p.chunks.dropLast ++ [{ back with data := back.data ++ bytes }], unread })
      else (true, { chunks := p.chunks ++ [{ seq := none, data := bytes }], unread })
    | none => (true, { chunks := p.chunks ++ [{ seq := none, data := bytes }], unread })

/-- `write_buf`. -/
def writeBuf (p : PendingWrites) : Bytes :=
  match p.chunks with
  | c :: _ => c.data.drop c.off
  | [] => []

/-- The loop of `advance` over the chunks, with what is left to consume. -/
def advanceChunks (now : ℕ) :
    List WriteChunk → ℕ → ℕ → List (ℕ × ℕ) → PendingWrites × List (ℕ × ℕ)
  | [], _, unread, history => ({ chunks := [], unread }, history)
  | front :: rest, left, unread, history =>
    if left = 0 then ({ chunks := front :: rest, unread }, history)
    else
      let take := min left (front.data.length - front.off)
      if front.off + take = front.data.length then
        advanceChunks now rest (left - take) (unread - take)
          (history ++ front.seq.toList.map fun seq => (seq, now))
      else
        ({ chunks := { front with off := front.off + take } :: rest, unread := unread - take },
          history)

/-- `advance`: consume `n` written bytes, recording the inputs written whole. -/
def advance (p : PendingWrites) (n : ℕ) (history : List (ℕ × ℕ)) (now : ℕ) :
    PendingWrites × List (ℕ × ℕ) :=
  advanceChunks now p.chunks n p.unread history

end PendingWrites

/-- The loop of `advance_echo_ack`: the newest input written long enough ago, and
the inputs written since. -/
def advanceEchoAck (now : ℕ) : ℕ → List (ℕ × ℕ) → ℕ × List (ℕ × ℕ)
  | echoAck, [] => (echoAck, [])
  | echoAck, (seq, at_) :: history =>
    if at_ + echoTimeoutMs ≤ now then advanceEchoAck now seq history
    else (echoAck, (seq, at_) :: history)

/-! ### The shared state -/

/-- `QueueResult`. -/
inductive QueueResult where
  | queued
  | busy
  deriving DecidableEq, Repr

/-- `OwnerMsg`. -/
inductive OwnerMsg where
  | input (seq : ℕ) (data : Bytes)
  | resize (cols rows : ℕ)
  | ack (version : ℕ)
  deriving DecidableEq

/-- `Session`; `closed` says that the receiver of the channel is gone. -/
structure Session where
  id : FixedBytes 16
  token : FixedBytes 32
  uid : ℕ
  shutdown : Bool := false
  epoch : ℕ := 0
  lastAcked : ℕ := 0
  latest : Option Latest := none
  size : ℕ × ℕ
  cmds : List OwnerMsg := []
  closed : Bool := false
  exit : Option ℤ := none
  accepted : ℕ := 0

/-- A session that nothing has happened to. -/
def newSession (cols rows : ℕ) : Session where
  id := constBytes 16 1
  token := constBytes 32 2
  uid := 1000
  size := (cols, rows)

namespace Session

/-- `mpsc::Sender::try_send` on the command channel. -/
def trySend (s : Session) (msg : OwnerMsg) : Except String QueueResult × Session :=
  if s.closed then (.error "session closed", s)
  else if s.cmds.length ≥ cmdQ then (.ok .busy, s)
  else (.ok .queued, { s with cmds := s.cmds ++ [msg] })

/-- `try_input`. -/
def tryInput (s : Session) (seq : ℕ) (data : Bytes) : Except String QueueResult × Session :=
  if data = [] then (.error "empty input", s)
  else if data.length > maxInputBytes then (.error "input too large", s)
  else s.trySend (.input seq data)

/-- `try_resize`. -/
def tryResize (s : Session) (cols rows : ℕ) : Except String QueueResult × Session :=
  if validateDims cols rows then s.trySend (.resize cols rows)
  else if cols < minCols || rows < minRows then (.error "terminal too small", s)
  else (.error "terminal too large", s)

/-- `ack_state`. -/
def ackState (s : Session) (version : ℕ) : Session :=
  { s with lastAcked := max s.lastAcked version }

/-- `try_ack`. -/
def tryAck (s : Session) (version : ℕ) : Session := (s.trySend (.ack version)).2.ackState version

/-- `request_hangup`. -/
def requestHangup (s : Session) : Session := { s with shutdown := true }

/-- `claim_transport`: the session after it, whose epoch is the one claimed. -/
def claimTransport (s : Session) : Session := { s with epoch := s.epoch + 1 }

/-- `version`. -/
def version (s : Session) : ℕ := (s.latest.map Latest.version).getD 0

end Session

/-! ### The owner -/

/-- The emulator of the owner: what it does with output of the pty, what it wants
written to the pty, and the grid it shows. -/
structure Driver (δ : Type) where
  process : δ → Bytes → δ
  flushSync : δ → δ
  takePtyWrite : δ → Bytes × δ
  resize : δ → ℕ → ℕ → δ
  grid : δ → Emulator

/-- `Owner` with the variables of its loop, and the history variable `taken`.
`running` is over when the loop was left. -/
structure Owner (δ : Type) where
  driver : δ
  lastSeq : ℕ := 0
  version : ℕ := 0
  pending : PendingWrites := {}
  history : List (ℕ × ℕ) := []
  echoAck : ℕ := 0
  running : Bool := true
  taken : List (ℕ × Bytes) := []

namespace Owner

variable {δ : Type} (drv : Driver δ) (z : Lz4)

/-- `publish` with the variables of the loop. -/
def publish (s : Session) (o : Owner δ) : Session × Owner δ :=
  ({ s with latest := some (Quosh.publish z (drv.grid o.driver) o.version o.echoAck) },
    { o with version := o.version + 1 })

/-- Queue what the emulator wants written; over the hard cap the loop is left. -/
def generated (o : Owner δ) : Owner δ :=
  let (bytes, driver) := drv.takePtyWrite o.driver
  let (ok, pending) := o.pending.pushGenerated bytes
  { o with driver, pending, running := ok }

/-- Queue what the emulator wants written, and publish. -/
def generatedPublish (s : Session) (o : Owner δ) : Session × Owner δ :=
  if (o.generated drv).running then publish drv z s (o.generated drv) else (s, o.generated drv)

/-- The branch of the loop for a command. -/
def onMsg (s : Session) (o : Owner δ) : OwnerMsg → Session × Owner δ
  | .input seq data =>
    let next := if o.lastSeq = 0 then 1 else o.lastSeq + 1
    if seq = next then
      let (ok, pending) := o.pending.pushInput seq data
      if ok then
        ({ s with accepted := seq },
          { o with pending, lastSeq := seq, taken := o.taken ++ [(seq, data)] })
      else (s, { o with running := false })
    else (s, o)
  | .resize cols rows =>
    if validateDims cols rows then
      publish drv z { s with size := (cols, rows) }
        { o with driver := drv.resize o.driver rows cols }
    else (s, o)
  | .ack version => (s.ackState version, o)

/-- The branch of the loop for the echo timer. -/
def onEcho (s : Session) (o : Owner δ) (now : ℕ) : Session × Owner δ :=
  let (echoAck, history) := advanceEchoAck now o.echoAck o.history
  if echoAck ≠ o.echoAck then publish drv z s { o with echoAck, history }
  else (s, { o with echoAck, history })

/-- `drain_pty`, over what the pty still has. -/
def drainPty (o : Owner δ) : List Bytes → Owner δ
  | [] => o
  | bytes :: rest =>
    let o := generated drv { o with driver := drv.process o.driver bytes }
    if o.running then drainPty o rest else o

/-- One turn of the loop of `Owner::run`; `stop` is a turn that leaves it, and
`finish` what follows the loop. -/
inductive Step : Session → Owner δ → Session → Owner δ → Prop
  | stop (s : Session) (o : Owner δ) (hrun : o.running = true) :
    Step s o s { o with running := false }
  | output (s : Session) (o : Owner δ) (bytes : Bytes) (hrun : o.running = true) :
    Step s o
      (generatedPublish drv z s { o with driver := drv.process o.driver bytes }).1
      (generatedPublish drv z s { o with driver := drv.process o.driver bytes }).2
  | write (s : Session) (o : Owner δ) (n now : ℕ) (hrun : o.running = true)
    (hn : 0 < n ∧ n ≤ o.pending.writeBuf.length) :
    Step s o s { o with
      pending := (o.pending.advance n o.history now).1
      history := (o.pending.advance n o.history now).2 }
  | recv (s : Session) (o : Owner δ) (msg : OwnerMsg) (rest : List OwnerMsg)
    (hrun : o.running = true) (hmore : o.pending.unread < maxPending)
    (hcmds : s.cmds = msg :: rest) :
    Step s o (onMsg drv z { s with cmds := rest } o msg).1
      (onMsg drv z { s with cmds := rest } o msg).2
  | sync (s : Session) (o : Owner δ) (hrun : o.running = true) :
    Step s o (generatedPublish drv z s { o with driver := drv.flushSync o.driver }).1
      (generatedPublish drv z s { o with driver := drv.flushSync o.driver }).2
  | echo (s : Session) (o : Owner δ) (now : ℕ) (hrun : o.running = true) :
    Step s o (onEcho drv z s o now).1 (onEcho drv z s o now).2
  | finish (s : Session) (o : Owner δ) (reads : List Bytes) (status : ℤ)
    (hrun : o.running = false) (hopen : s.closed = false) (hreads : reads.length ≤ 8) :
    Step s o
      { (publish drv z s (drainPty drv o reads)).1 with exit := some status, closed := true }
      { (publish drv z s (drainPty drv o reads)).2 with running := false }

/-- What a turn means for input: nothing, a command that was taken from the channel
and is no input or not the next one, or the next input. -/
inductive Effect (s : Session) (o : Owner δ) (s' : Session) (o' : Owner δ) : Prop
  | idle (hseq : o'.lastSeq = o.lastSeq) (hacc : s'.accepted = s.accepted)
    (htaken : o'.taken = o.taken) (hcmds : s'.cmds = s.cmds)
  | skip (msg : OwnerMsg) (hcmds : s.cmds = msg :: s'.cmds) (hseq : o'.lastSeq = o.lastSeq)
    (hacc : s'.accepted = s.accepted) (htaken : o'.taken = o.taken)
    (hnext : o'.running = true → ∀ seq data, msg = .input seq data → seq ≠ o.lastSeq + 1)
  | take (seq : ℕ) (data : Bytes) (hrun : o.running = true)
    (hcmds : s.cmds = .input seq data :: s'.cmds) (hnext : seq = o.lastSeq + 1)
    (hseq : o'.lastSeq = seq) (hacc : s'.accepted = seq)
    (htaken : o'.taken = o.taken ++ [(seq, data)])

variable {drv z} {s s' : Session} {o o' : Owner δ}

/-- What a turn does to the rest: no turn renames the session, claims a transport or
starts the loop again. -/
structure Frames (s : Session) (o : Owner δ) (s' : Session) (o' : Owner δ) : Prop where
  id : s'.id = s.id
  token : s'.token = s.token
  epoch : s'.epoch = s.epoch
  running : o'.running = true → o.running = true
  closed : o'.running = true → s'.closed = s.closed

/-- Replies and a new screen count no input. -/
theorem generatedPublish_effect (s : Session) (o : Owner δ) (driver : δ) :
    Effect s o (generatedPublish drv z s { o with driver }).1
        (generatedPublish drv z s { o with driver }).2 ∧
      (generatedPublish drv z s { o with driver }).1.id = s.id ∧
      (generatedPublish drv z s { o with driver }).1.token = s.token ∧
      (generatedPublish drv z s { o with driver }).1.epoch = s.epoch ∧
      (generatedPublish drv z s { o with driver }).1.closed = s.closed := by
  unfold generatedPublish
  split <;> exact ⟨.idle rfl rfl rfl rfl, rfl, rfl, rfl, rfl⟩

/-- Nor does an echo that was waited for. -/
theorem onEcho_effect (s : Session) (o : Owner δ) (now : ℕ) :
    Effect s o (onEcho drv z s o now).1 (onEcho drv z s o now).2 ∧
      Frames s o (onEcho drv z s o now).1 (onEcho drv z s o now).2 := by
  unfold onEcho
  dsimp only
  split <;> exact ⟨.idle rfl rfl rfl rfl, rfl, rfl, rfl, fun h => h, fun _ => rfl⟩

/-- Nor does output. -/
theorem drainPty_effect (o : Owner δ) (reads : List Bytes) :
    (drainPty drv o reads).lastSeq = o.lastSeq ∧ (drainPty drv o reads).taken = o.taken := by
  induction reads generalizing o with
  | nil => exact ⟨rfl, rfl⟩
  | cons bytes rest ih =>
    rw [drainPty]
    split
    · exact ih _
    · exact ⟨rfl, rfl⟩

/-- **The owner takes an input if and only if it is the next one**, or leaves the
loop. -/
theorem onMsg_effect {o : Owner δ} (hrun : o.running = true) {rest : List OwnerMsg} {msg : OwnerMsg}
    (hcmds : s.cmds = msg :: rest) :
    Effect s o (onMsg drv z { s with cmds := rest } o msg).1
      (onMsg drv z { s with cmds := rest } o msg).2 := by
  cases msg with
  | input seq data =>
    have hone : (if o.lastSeq = 0 then 1 else o.lastSeq + 1) = o.lastSeq + 1 := by
      split <;> omega
    unfold onMsg
    dsimp only
    rw [hone]
    split
    · split
      · exact .take seq data hrun hcmds (by assumption) rfl rfl rfl
      · exact .skip _ hcmds rfl rfl rfl fun h => by cases h
    · rename_i hne
      refine .skip _ hcmds rfl rfl rfl fun _ seq' data' h => ?_
      cases h
      exact hne
  | resize cols rows =>
    unfold onMsg
    dsimp only
    split <;> exact .skip _ hcmds rfl rfl rfl fun _ seq' data' h => by cases h
  | ack version => exact .skip _ hcmds rfl rfl rfl fun _ seq' data' h => by cases h

/-- A message leaves a session who it is. -/
theorem onMsg_session (s : Session) (o : Owner δ) (msg : OwnerMsg) :
    (onMsg drv z s o msg).1.id = s.id ∧ (onMsg drv z s o msg).1.token = s.token ∧
      (onMsg drv z s o msg).1.epoch = s.epoch ∧ (onMsg drv z s o msg).1.closed = s.closed := by
  cases msg with
  | input seq data =>
    unfold onMsg
    dsimp only
    split_ifs <;> exact ⟨rfl, rfl, rfl, rfl⟩
  | resize cols rows =>
    unfold onMsg
    dsimp only
    split <;> exact ⟨rfl, rfl, rfl, rfl⟩
  | ack version => exact ⟨rfl, rfl, rfl, rfl⟩

/-- **The effect of a turn.** -/
theorem Step.effect (h : Step drv z s o s' o') : Effect s o s' o' ∧ Frames s o s' o' := by
  cases h with
  | stop hrun => exact ⟨.idle rfl rfl rfl rfl, rfl, rfl, rfl, fun _ => hrun, fun _ => rfl⟩
  | output bytes hrun =>
    obtain ⟨he, hid, htoken, hp, hc⟩ := (@generatedPublish_effect _ drv z) s o
      (drv.process o.driver bytes)
    exact ⟨he, hid, htoken, hp, fun _ => hrun, fun _ => hc⟩
  | write n now hrun _ => exact ⟨.idle rfl rfl rfl rfl, rfl, rfl, rfl, fun _ => hrun, fun _ => rfl⟩
  | recv msg rest hrun _ hcmds =>
    obtain ⟨hid, htoken, he, hc⟩ := (@onMsg_session _ drv z) { s with cmds := rest } o msg
    exact ⟨onMsg_effect hrun hcmds, hid, htoken, he, fun _ => hrun, fun _ => hc⟩
  | sync hrun =>
    obtain ⟨he, hid, htoken, hp, hc⟩ :=
      (@generatedPublish_effect _ drv z) s o (drv.flushSync o.driver)
    exact ⟨he, hid, htoken, hp, fun _ => hrun, fun _ => hc⟩
  | echo now hrun => exact onEcho_effect s o now
  | finish reads status hrun _ _ =>
    obtain ⟨hseq, htaken⟩ := (@drainPty_effect _ drv) o reads
    exact ⟨.idle hseq rfl htaken rfl, rfl, rfl, rfl, (fun h => by cases h), fun h => by cases h⟩

end Owner
end Quosh
