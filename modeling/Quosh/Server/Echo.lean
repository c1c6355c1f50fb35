/-
# Echo checkpoints

`crates/quosh-server/src/session.rs`: the loop of `Owner::run`, which accepts inputs,
writes to the pty and publishes screens.

`Ran` is a run of the loop next to the connections of the session, on a clock that never
goes back; its turns are those of `Owner.Step` (`step_iff_turn`).  Its log has every write
to the pty, every screen that was published and every firing of the echo timer.  A turn
keeps track of the inputs (`Turn.advances`) and publishes at most one screen
(`Turn.publishes`); `echo_checkpoints` is the result for every run.

The checkpoint of a screen is the number of the last input of which the echo is expected to
be on it: all its bytes have been written, and `ECHO_TIMEOUT` has passed since
(`Quosh.Server.PtyLog`).  A screen may be published between two firings of the timer, so it has
the checkpoint of the firing before, and the log has the time of both.
-/

import Quosh.Server.PtyLog

namespace Quosh
namespace Owner

open Bytes

/-- The screens that were published. -/
def screens (log : List Event) : List Screen :=
  log.filterMap fun
    | .published _ _ screen => some screen
    | _ => none

variable {δ : Type} (drv : Driver δ) (z : Lz4)

/-- The screen that a turn published, which is when it counted the version up. -/
def publication (now : ℕ) (s' : Session) (o o' : Owner δ) : List Event :=
  if o'.version = o.version then []
  else [.published now s'.accepted (publishedScreen (drv.grid o'.driver) o.version o'.echoAck)]

/-- One turn of the loop at a time, with what is seen of it before it publishes. -/
inductive Turn (now : ℕ) : Session → Owner δ → List Event → Session → Owner δ → Prop
  | stop (s : Session) (o : Owner δ) (hrun : o.running = true) :
    Turn now s o [] s { o with running := false }
  | output (s : Session) (o : Owner δ) (bytes : Bytes) (hrun : o.running = true) :
    Turn now s o []
      (generatedPublish drv z s { o with driver := drv.process o.driver bytes }).1
      (generatedPublish drv z s { o with driver := drv.process o.driver bytes }).2
  | write (s : Session) (o : Owner δ) (c : WriteChunk) (rest : List WriteChunk) (n : ℕ)
    (hrun : o.running = true) (hchunks : o.pending.chunks = c :: rest)
    (hn : 0 < n ∧ n ≤ o.pending.writeBuf.length) :
    Turn now s o [.wrote now c.seq (o.pending.writeBuf.take n)] s { o with
      pending := (o.pending.advance n o.history now).1
      history := (o.pending.advance n o.history now).2 }
  | recv (s : Session) (o : Owner δ) (msg : OwnerMsg) (rest : List OwnerMsg)
    (hrun : o.running = true) (hmore : o.pending.unread < maxPending)
    (hcmds : s.cmds = msg :: rest) :
    Turn now s o [] (onMsg drv z { s with cmds := rest } o msg).1
      (onMsg drv z { s with cmds := rest } o msg).2
  | sync (s : Session) (o : Owner δ) (hrun : o.running = true) :
    Turn now s o [] (generatedPublish drv z s { o with driver := drv.flushSync o.driver }).1
      (generatedPublish drv z s { o with driver := drv.flushSync o.driver }).2
  | echo (s : Session) (o : Owner δ) (hrun : o.running = true) :
    Turn now s o [.fired now (onEcho drv z s o now).2.echoAck] (onEcho drv z s o now).1
      (onEcho drv z s o now).2
  | finish (s : Session) (o : Owner δ) (reads : List Bytes) (status : ℤ)
    (hrun : o.running = false) (hopen : s.closed = false) (hreads : reads.length ≤ 8) :
    Turn now s o []
      { (publish drv z s (drainPty drv o reads)).1 with exit := some status, closed := true }
      { (publish drv z s (drainPty drv o reads)).2 with running := false }

/-- What the connections of the session do to it between two turns. -/
inductive Connection (s : Session) : Session → Prop
  | input (seq : ℕ) (data : Bytes) : Connection s (s.tryInput seq data).2
  | resize (cols rows : ℕ) : Connection s (s.tryResize cols rows).2
  | ack (version : ℕ) : Connection s (s.tryAck version)
  | hangup : Connection s s.requestHangup
  | claim : Connection s s.claimTransport

/-- A run: the clock, the session, its owner, and the log. -/
inductive Ran : ℕ → Session → Owner δ → List Event → Prop
  | start (id : FixedBytes 16) (token : FixedBytes 32) (uid cols rows : ℕ) (driver : δ) :
    Ran 0 { id, token, uid, size := (cols, rows) } { driver } []
  | connection {t : ℕ} {s s' : Session} {o : Owner δ} {log : List Event} (h : Ran t s o log)
    (hstep : Connection s s') : Ran t s' o log
  | turn {t now : ℕ} {s s' : Session} {o o' : Owner δ} {log seen : List Event}
    (h : Ran t s o log) (hnow : t ≤ now) (hstep : Turn drv z now s o seen s' o') :
    Ran now s' o' (log ++ (seen ++ publication drv now s' o o'))

variable {drv z}

/-- The turns are those of `Owner.Step`. -/
theorem step_iff_turn {s s' : Session} {o o' : Owner δ} :
    Step drv z s o s' o' ↔ ∃ now seen, Turn drv z now s o seen s' o' := by
  constructor
  · intro h
    cases h with
    | stop hrun => exact ⟨0, _, .stop s o hrun⟩
    | output bytes hrun => exact ⟨0, _, .output s o bytes hrun⟩
    | write n now hrun hn =>
      cases hchunks : o.pending.chunks with
      | nil =>
        rw [PendingWrites.writeBuf, hchunks] at hn
        exact absurd (hn.1.trans_le hn.2) (Nat.lt_irrefl 0)
      | cons c rest => exact ⟨now, _, .write s o c rest n hrun hchunks hn⟩
    | recv msg rest hrun hmore hcmds => exact ⟨0, _, .recv s o msg rest hrun hmore hcmds⟩
    | sync hrun => exact ⟨0, _, .sync s o hrun⟩
    | echo now hrun => exact ⟨now, _, .echo s o hrun⟩
    | finish reads status hrun hopen hreads =>
      exact ⟨0, _, .finish s o reads status hrun hopen hreads⟩
  · rintro ⟨now, seen, h⟩
    cases h with
    | stop hrun => exact .stop s o hrun
    | output bytes hrun => exact .output s o bytes hrun
    | write c rest n hrun _ hn => exact .write s o n now hrun hn
    | recv msg rest hrun hmore hcmds => exact .recv s o msg rest hrun hmore hcmds
    | sync hrun => exact .sync s o hrun
    | echo hrun => exact .echo s o now hrun
    | finish reads status hrun hopen hreads => exact .finish s o reads status hrun hopen hreads

/-- The screens of two logs. -/
theorem screens_append (log log' : List Event) :
    screens (log ++ log') = screens log ++ screens log' :=
  List.filterMap_append ..

variable {t now : ℕ} {s s' : Session} {o o' : Owner δ} {log seen : List Event}

/-! ### Turns and screens -/

/-- Generated replies and a screen move no input. -/
theorem generatedPublish_quiet (s : Session) (o : Owner δ) (driver : δ) :
    Quiet s o (generatedPublish drv z s { o with driver }).1
      (generatedPublish drv z s { o with driver }).2 := by
  have hchunks := inputChunks_pushGenerated o.pending (drv.takePtyWrite driver).1
  unfold generatedPublish
  split <;> exact ⟨rfl, fun _ hm => hm, rfl, rfl, rfl, rfl, hchunks⟩

/-- Output that is read writes nothing. -/
theorem drainPty_quiet (s : Session) (o : Owner δ) (reads : List Bytes) :
    Quiet s o s (drainPty drv o reads) := by
  induction reads generalizing o with
  | nil => exact ⟨rfl, fun _ hm => hm, rfl, rfl, rfl, rfl, rfl⟩
  | cons bytes rest ih =>
    have hchunks := inputChunks_pushGenerated o.pending
      (drv.takePtyWrite (drv.process o.driver bytes)).1
    rw [drainPty]
    split
    · have hq := ih (generated drv { o with driver := drv.process o.driver bytes })
      exact ⟨hq.accepted, hq.cmds, hq.lastSeq, hq.taken, hq.history, hq.echoAck,
        hq.chunks.trans hchunks⟩
    · exact ⟨rfl, fun _ hm => hm, rfl, rfl, rfl, rfl, hchunks⟩

/-- A command that is not the next input moves no input; the next one is taken, unless the
queue of pending writes refuses it, and then it is not counted as accepted either. -/
theorem onMsg_tracks (h : Tracks t s o log) {msg : OwnerMsg} {rest : List OwnerMsg}
    (hcmds : s.cmds = msg :: rest) :
    Tracks t (onMsg drv z { s with cmds := rest } o msg).1
        (onMsg drv z { s with cmds := rest } o msg).2 log ∧
      ((onMsg drv z { s with cmds := rest } o msg).2.taken = o.taken ∨ ∃ data, data ≠ [] ∧
        (onMsg drv z { s with cmds := rest } o msg).2.taken =
          o.taken ++ [(o.lastSeq + 1, data)]) := by
  have hsub (msg' : OwnerMsg) (hm : msg' ∈ rest) : msg' ∈ s.cmds :=
    hcmds ▸ List.mem_cons_of_mem _ hm
  have hone : (if o.lastSeq = 0 then 1 else o.lastSeq + 1) = o.lastSeq + 1 := by
    split <;> omega
  cases msg with
  | input seq data =>
    unfold onMsg
    dsimp only
    rw [hone]
    split
    · rename_i hseq
      subst hseq
      have hdata := h.cmds _ data (hcmds ▸ List.mem_cons_self ..)
      split
      · rename_i hok
        exact ⟨h.take hdata (fun seq' data' hm => h.cmds seq' data' (hsub _ hm)) rfl rfl rfl rfl
          rfl (inputChunks_pushInput hok), .inr ⟨data, hdata, rfl⟩⟩
      · exact ⟨h.quiet ⟨rfl, hsub, rfl, rfl, rfl, rfl, rfl⟩, .inl rfl⟩
    · exact ⟨h.quiet ⟨rfl, hsub, rfl, rfl, rfl, rfl, rfl⟩, .inl rfl⟩
  | resize cols rows =>
    unfold onMsg
    dsimp only
    split <;> exact ⟨h.quiet ⟨rfl, hsub, rfl, rfl, rfl, rfl, rfl⟩, .inl rfl⟩
  | ack version => exact ⟨h.quiet ⟨rfl, hsub, rfl, rfl, rfl, rfl, rfl⟩, .inl rfl⟩

/-- Bytes of the front chunk are written, whatever it is. -/
theorem write_tracks (h : Tracks t s o log) (hnow : t ≤ now) {c : WriteChunk}
    {rest : List WriteChunk} {n : ℕ} (hchunks : o.pending.chunks = c :: rest)
    (hn : 0 < n ∧ n ≤ o.pending.writeBuf.length) :
    Tracks now s { o with
      pending := (o.pending.advance n o.history now).1
      history := (o.pending.advance n o.history now).2 }
      (log ++ [.wrote now c.seq (o.pending.writeBuf.take n)]) := by
  have hbuf : o.pending.writeBuf = c.data.drop c.off := by rw [PendingWrites.writeBuf, hchunks]
  have hle : n ≤ c.data.length - c.off := by
    rw [← List.length_drop, ← hbuf]
    exact hn.2
  rw [hbuf]
  cases hseq : c.seq with
  | none =>
    obtain ⟨hchunks', hhistory⟩ := advance_generated hchunks hseq hn.1 hle o.history now
    refine (h.later hnow fun i => ?_).quiet
      ⟨rfl, fun _ hm => hm, rfl, rfl, hhistory, rfl, hchunks'⟩
    rw [writesOf_append]
    exact List.append_nil _
  | some i =>
    obtain ⟨hfront, c', hdata, hoff, hnext⟩ := advance_input hchunks hseq hn.1 hle o.history now
    have hbytes : (c.data.drop c.off).take n ≠ [] := by
      refine List.ne_nil_of_length_pos ?_
      rw [List.length_take, List.length_drop]
      omega
    exact h.write_input hnow hfront hbytes hdata (by rw [hoff, List.take_add]) rfl rfl rfl hnext

/-- What connections do leaves the log. -/
theorem Tracks.connection (h : Tracks t s o log) (hstep : Connection s s') : Tracks t s' o log := by
  have hsend (msg : OwnerMsg) (hmsg : ∀ seq data, msg = .input seq data → data ≠ []) :
      Tracks t (s.trySend msg).2 o log := by
    unfold Session.trySend
    split_ifs
    · exact h
    · exact h
    · refine ⟨h.accepted, fun seq data hm => ?_, h.taken, h.numbered, h.waiting, h.checked,
        h.history, h.pending, h.known, h.times⟩
      rcases List.mem_append.1 hm with hm | hm
      · exact h.cmds seq data hm
      · exact hmsg seq data (List.mem_singleton.1 hm).symm
  cases hstep with
  | input seq data =>
    unfold Session.tryInput
    split_ifs with hempty
    · exact h
    · exact h
    · refine hsend _ fun seq' data' hm => ?_
      cases hm
      exact hempty
  | resize cols rows =>
    unfold Session.tryResize
    split_ifs
    · exact hsend _ fun seq' data' hm => (by cases hm)
    · exact h
    · exact h
  | ack version =>
    exact (hsend (.ack version) fun seq' data' hm => (by cases hm)).quiet
      ⟨rfl, fun _ hm => hm, rfl, rfl, rfl, rfl, rfl⟩
  | hangup => exact h.quiet ⟨rfl, fun _ hm => hm, rfl, rfl, rfl, rfl, rfl⟩
  | claim => exact h.quiet ⟨rfl, fun _ hm => hm, rfl, rfl, rfl, rfl, rfl⟩

/-- What a turn does to the inputs, and what is seen of it. -/
structure Advances (t now : ℕ) (s' : Session) (o o' : Owner δ) (log seen : List Event) :
    Prop where
  tracks : Tracks now s' o' (log ++ seen)
  taken : o'.taken = o.taken ∨ ∃ data, data ≠ [] ∧ o'.taken = o.taken ++ [(o.lastSeq + 1, data)]
  writes : ∀ i, ∀ w ∈ writesOf i seen, t ≤ w.1
  echoAck : o.echoAck ≤ o'.echoAck
  silent : ∀ now' accepted screen, Event.published now' accepted screen ∉ seen
  fired : ∀ now' echoAck, .fired now' echoAck ∈ seen → now' = now ∧ echoAck = o'.echoAck ∧
    ∀ p, o'.history.head? = some p → ¬p.2 + echoTimeoutMs ≤ now

/-- A turn that writes nothing publishes nothing either. -/
theorem Tracks.advances_quiet (h : Tracks t s o log) (hnow : t ≤ now) (hq : Quiet s o s' o') :
    Advances t now s' o o' log [] where
  tracks := (h.quiet hq).later hnow fun i => by rw [List.append_nil]
  taken := .inl hq.taken
  writes _ _ hw := absurd hw List.not_mem_nil
  echoAck := hq.echoAck.ge
  silent _ _ _ := List.not_mem_nil
  fired _ _ hf := absurd hf List.not_mem_nil

/-- What the echo timer does: it moves the checkpoint, whether or not it publishes. -/
theorem onEcho_fields (s : Session) (o : Owner δ) (now : ℕ) :
    (onEcho drv z s o now).1.accepted = s.accepted ∧
      (onEcho drv z s o now).1.cmds = s.cmds ∧
      ((onEcho drv z s o now).2.echoAck, (onEcho drv z s o now).2.history) =
        advanceEchoAck now o.echoAck o.history ∧
      (onEcho drv z s o now).2.lastSeq = o.lastSeq ∧
      (onEcho drv z s o now).2.taken = o.taken ∧
      (onEcho drv z s o now).2.pending = o.pending := by
  unfold onEcho
  dsimp only
  split
  · exact ⟨rfl, rfl, rfl, rfl, rfl, rfl⟩
  · exact ⟨rfl, rfl, rfl, rfl, rfl, rfl⟩

/-- **Every turn keeps track.**  Three kinds of turn touch the inputs: a write completes
some, a command takes the next one, and the timer moves the checkpoint; all others are
quiet. -/
theorem Turn.advances (h : Tracks t s o log) (hnow : t ≤ now)
    (hstep : Turn drv z now s o seen s' o') : Advances t now s' o o' log seen := by
  cases hstep with
  | stop hrun => exact h.advances_quiet hnow ⟨rfl, fun _ hm => hm, rfl, rfl, rfl, rfl, rfl⟩
  | output bytes hrun => exact h.advances_quiet hnow (generatedPublish_quiet s o _)
  | write c rest n hrun hchunks hn =>
    refine ⟨write_tracks h hnow hchunks hn, .inl rfl, fun i w hw => ?_, le_rfl, ?_, ?_⟩
    · rw [eq_of_mem_writesOf_wrote hw]
      exact hnow
    · intro now' accepted screen hmem
      cases List.mem_singleton.1 hmem
    · intro now' echoAck hmem
      cases List.mem_singleton.1 hmem
  | recv msg rest hrun hmore hcmds =>
    obtain ⟨htracks, htaken⟩ := (@onMsg_tracks _ drv z _ _ _ _ h _ _ hcmds)
    refine ⟨htracks.later hnow fun i => by rw [List.append_nil], htaken,
      fun _ _ hw => absurd hw List.not_mem_nil, ?_, fun _ _ _ => List.not_mem_nil,
      fun _ _ hf => absurd hf List.not_mem_nil⟩
    cases msg with
    | input seq data =>
      unfold onMsg
      dsimp only
      split_ifs <;> exact le_rfl
    | resize cols rows =>
      unfold onMsg
      dsimp only
      split_ifs <;> exact le_rfl
    | ack version => exact le_rfl
  | sync hrun => exact h.advances_quiet hnow (generatedPublish_quiet s o _)
  | echo hrun =>
    obtain ⟨hacc, hcmds, hecho, hlast, htaken, hpending⟩ := (@onEcho_fields _ drv z) s o now
    obtain ⟨htracks, hle, hhead⟩ := h.echo hnow hecho hlast htaken hpending
    refine ⟨(htracks.quiet ⟨hacc, fun m hm => hcmds ▸ hm, rfl, rfl, rfl, rfl, rfl⟩).later le_rfl
      fun i => ?_, .inl htaken, fun i w hw => absurd hw List.not_mem_nil, hle, ?_, ?_⟩
    · rw [writesOf_append]
      exact List.append_nil _
    · intro now' accepted screen hmem
      cases List.mem_singleton.1 hmem
    · intro now' echoAck hmem
      cases List.mem_singleton.1 hmem
      exact ⟨rfl, rfl, hhead⟩
  | finish reads status hrun hopen hreads =>
    have hq := (@drainPty_quiet _ drv) s o reads
    exact h.advances_quiet hnow ⟨rfl, fun _ hm => hm, hq.lastSeq, hq.taken, hq.history, hq.echoAck,
      hq.chunks⟩

/-- **A turn publishes at most one screen**, with the next version, and makes it the
latest. -/
theorem Turn.publishes (hstep : Turn drv z now s o seen s' o') :
    (o'.version = o.version ∧ s'.latest = s.latest) ∨ (o'.version = o.version + 1 ∧
      s'.latest = some (Quosh.publish z (drv.grid o'.driver) o.version o'.echoAck)) := by
  have hgenerated (s : Session) (o : Owner δ) :
      ((generatedPublish drv z s o).2.version = o.version ∧
        (generatedPublish drv z s o).1.latest = s.latest) ∨
      ((generatedPublish drv z s o).2.version = o.version + 1 ∧
        (generatedPublish drv z s o).1.latest = some (Quosh.publish z
          (drv.grid (generatedPublish drv z s o).2.driver) o.version
          (generatedPublish drv z s o).2.echoAck)) := by
    unfold generatedPublish
    split
    · exact .inr ⟨rfl, rfl⟩
    · exact .inl ⟨rfl, rfl⟩
  cases hstep with
  | stop hrun => exact .inl ⟨rfl, rfl⟩
  | output bytes hrun => exact hgenerated s { o with driver := drv.process o.driver bytes }
  | write c rest n hrun hchunks hn => exact .inl ⟨rfl, rfl⟩
  | recv msg rest hrun hmore hcmds =>
    cases msg with
    | input seq data =>
      unfold onMsg
      dsimp only
      split_ifs <;> exact .inl ⟨rfl, rfl⟩
    | resize cols rows =>
      unfold onMsg
      dsimp only
      split_ifs
      · exact .inr ⟨rfl, rfl⟩
      · exact .inl ⟨rfl, rfl⟩
    | ack version => exact .inl ⟨rfl, rfl⟩
  | sync hrun => exact hgenerated s { o with driver := drv.flushSync o.driver }
  | echo hrun =>
    unfold onEcho
    dsimp only
    split
    · exact .inr ⟨rfl, rfl⟩
    · exact .inl ⟨rfl, rfl⟩
  | finish reads status hrun hopen hreads =>
    have hversion (o : Owner δ) : (drainPty drv o reads).version = o.version := by
      induction reads generalizing o with
      | nil => rfl
      | cons bytes rest ih =>
        rw [drainPty]
        split
        · exact ih (Nat.le_of_succ_le hreads) _
        · rfl
    refine .inr ⟨congrArg (· + 1) (hversion o), ?_⟩
    rw [← hversion o]
    rfl

/-- **What the log says about the screens**: their versions and checkpoints, and the
inputs that were settled when they were published and when the timer fired. -/
structure Seen (z : Lz4) (t : ℕ) (s : Session) (o : Owner δ) (log : List Event) : Prop where
  versions : (screens log).map Screen.version = List.range' 1 o.version
  latest : s.latest = (screens log).getLast?.map fun p => ⟨p.version, p.encodeCompressed z⟩
  rising : (screens log).Pairwise fun p q => p.echoAck ≤ q.echoAck
  le : ∀ p ∈ screens log, p.echoAck ≤ o.echoAck
  published : ∀ now accepted screen, .published now accepted screen ∈ log →
    now ≤ t ∧ screen.echoAck ≤ accepted ∧ SettledTo log o.taken now screen.echoAck
  fired : ∀ now echoAck, .fired now echoAck ∈ log →
    now ≤ t ∧ IsGreatest {k | SettledTo log o.taken now k} echoAck

/-- A log without screens. -/
theorem screens_eq_nil (h : ∀ now accepted screen, Event.published now accepted screen ∉ log) :
    screens log = [] := by
  refine List.filterMap_eq_nil_iff.2 fun e he => ?_
  cases e with
  | wrote => rfl
  | published now accepted screen => exact absurd he (h now accepted screen)
  | fired => rfl

/-- A publication writes nothing. -/
theorem writesOf_publication (i now : ℕ) (s' : Session) (o o' : Owner δ) :
    writesOf i (publication drv now s' o o') = [] := by
  unfold publication
  split <;> rfl

/-- A publication leaves the inputs where they were. -/
theorem Advances.tracks_publication (hadv : Advances t now s' o o' log seen) :
    Tracks now s' o' (log ++ (seen ++ publication drv now s' o o')) :=
  hadv.tracks.later le_rfl fun i => by
    rw [writesOf_append, writesOf_append, writesOf_publication, List.append_nil, writesOf_append]

/-- What was settled at an earlier time is what is settled at it now. -/
theorem Advances.settledTo_iff (hadv : Advances t now s' o o' log seen) (ht : Tracks t s o log)
    {now₀ : ℕ} (hle : now₀ ≤ t) (k : ℕ) :
    SettledTo (log ++ (seen ++ publication drv now s' o o')) o'.taken now₀ k ↔
      SettledTo log o.taken now₀ k := by
  refine ht.settledTo_iff hle (fun i w hw => ?_) hadv.taken k
  rw [writesOf_append, writesOf_publication, List.append_nil] at hw
  exact hadv.writes i w hw

/-- A checkpoint that fired is the greatest that is settled, before the turn and in it. -/
theorem Seen.turn_fired (h : Seen z t s o log) (ht : Tracks t s o log) (hnow : t ≤ now)
    (hadv : Advances t now s' o o' log seen) {now₀ echoAck : ℕ}
    (hmem : .fired now₀ echoAck ∈ log ++ (seen ++ publication drv now s' o o')) :
    now₀ ≤ now ∧ IsGreatest {k | SettledTo (log ++ (seen ++ publication drv now s' o o'))
      o'.taken now₀ k} echoAck := by
  rcases List.mem_append.1 hmem with hmem | hmem
  · obtain ⟨hle, hgreatest⟩ := h.fired now₀ echoAck hmem
    refine ⟨hle.trans hnow, ?_⟩
    rwa [show {k | SettledTo (log ++ (seen ++ publication drv now s' o o')) o'.taken now₀ k} =
      {k | SettledTo log o.taken now₀ k} from Set.ext (hadv.settledTo_iff ht hle)]
  · rcases List.mem_append.1 hmem with hmem | hmem
    · obtain ⟨rfl, rfl, hhead⟩ := hadv.fired now₀ echoAck hmem
      exact ⟨le_rfl, hadv.tracks_publication.greatest hhead⟩
    · unfold publication at hmem
      split at hmem
      · exact absurd hmem List.not_mem_nil
      · cases List.mem_singleton.1 hmem

/-- A screen of an earlier turn stays sound. -/
theorem Seen.turn_published (h : Seen z t s o log) (ht : Tracks t s o log) (hnow : t ≤ now)
    (hadv : Advances t now s' o o' log seen) {now₀ accepted : ℕ} {screen : Screen}
    (hmem : .published now₀ accepted screen ∈ log) :
    now₀ ≤ now ∧ screen.echoAck ≤ accepted ∧
      SettledTo (log ++ (seen ++ publication drv now s' o o')) o'.taken now₀ screen.echoAck := by
  obtain ⟨hle, hacc, hset⟩ := h.published now₀ accepted screen hmem
  exact ⟨hle.trans hnow, hacc, (hadv.settledTo_iff ht hle _).2 hset⟩

/-- The screens of a turn are those of its publication. -/
theorem Advances.screens_eq (hadv : Advances t now s' o o' log seen) :
    screens (log ++ (seen ++ publication drv now s' o o')) =
      screens log ++ screens (publication drv now s' o o') := by
  rw [screens_append, screens_append, screens_eq_nil hadv.silent, List.nil_append]

/-- A turn that publishes nothing. -/
theorem Seen.turn_silent (h : Seen z t s o log) (ht : Tracks t s o log) (hnow : t ≤ now)
    (hadv : Advances t now s' o o' log seen) (hversion : o'.version = o.version)
    (hlatest : s'.latest = s.latest) :
    Seen z now s' o' (log ++ (seen ++ publication drv now s' o o')) := by
  have hnone : publication drv now s' o o' = [] := if_pos hversion
  have hsame : screens (log ++ (seen ++ publication drv now s' o o')) = screens log := by
    rw [hadv.screens_eq, hnone]
    exact List.append_nil _
  refine ⟨?_, ?_, ?_, ?_, fun now₀ accepted screen hmem => ?_,
    fun _ _ => h.turn_fired ht hnow hadv⟩
  · rw [hsame, hversion, h.versions]
  · rw [hsame, hlatest, h.latest]
  · rw [hsame]
    exact h.rising
  · rw [hsame]
    exact fun p hp => (h.le p hp).trans hadv.echoAck
  · rcases List.mem_append.1 hmem with hmem | hmem
    · exact h.turn_published ht hnow hadv hmem
    · rw [hnone, List.append_nil] at hmem
      exact absurd hmem (hadv.silent now₀ accepted screen)

/-- A turn that publishes a screen: the inputs up to its checkpoint are settled now.  The
checkpoint does not go back, so the screens rise with it. -/
theorem Seen.turn_publishes (h : Seen z t s o log) (ht : Tracks t s o log) (hnow : t ≤ now)
    (hadv : Advances t now s' o o' log seen) (hversion : o'.version = o.version + 1)
    (hlatest : s'.latest =
      some (Quosh.publish z (drv.grid o'.driver) o.version o'.echoAck)) :
    Seen z now s' o' (log ++ (seen ++ publication drv now s' o o')) := by
  have htracks := (@Advances.tracks_publication _ drv) hadv
  have hlast : o'.echoAck ≤ s'.accepted := by
    obtain ⟨m, hm, -⟩ := htracks.waiting
    rw [htracks.accepted, hm]
    exact Nat.le_add_right ..
  have hone : publication drv now s' o o' = [.published now s'.accepted
      (publishedScreen (drv.grid o'.driver) o.version o'.echoAck)] := if_neg (by omega)
  have hmore : screens (log ++ (seen ++ publication drv now s' o o')) =
      screens log ++ [publishedScreen (drv.grid o'.driver) o.version o'.echoAck] := by
    rw [hadv.screens_eq, hone]
    rfl
  refine ⟨?_, ?_, ?_, ?_, fun now₀ accepted screen hmem => ?_,
    fun _ _ => h.turn_fired ht hnow hadv⟩
  · rw [hmore, List.map_append, h.versions, hversion, List.range'_concat, Nat.one_mul,
      Nat.add_comm 1]
    rfl
  · rw [hmore, List.getLast?_concat, hlatest]
    rfl
  · rw [hmore]
    refine List.pairwise_append.2 ⟨h.rising, List.pairwise_singleton .., fun p hp q hq => ?_⟩
    rw [List.mem_singleton.1 hq]
    exact (h.le p hp).trans hadv.echoAck
  · rw [hmore]
    intro p hp
    rcases List.mem_append.1 hp with hp | hp
    · exact (h.le p hp).trans hadv.echoAck
    · rw [List.mem_singleton.1 hp]
      exact le_rfl
  · rcases List.mem_append.1 hmem with hmem | hmem
    · exact h.turn_published ht hnow hadv hmem
    · rcases List.mem_append.1 hmem with hmem | hmem
      · exact absurd hmem (hadv.silent now₀ accepted screen)
      · rw [hone] at hmem
        cases List.mem_singleton.1 hmem
        exact ⟨le_rfl, hlast, htracks.settledTo⟩

/-- **Every turn keeps the log sound.** -/
theorem Seen.turn (h : Seen z t s o log) (ht : Tracks t s o log) (hnow : t ≤ now)
    (hstep : Turn drv z now s o seen s' o') :
    Tracks now s' o' (log ++ (seen ++ publication drv now s' o o')) ∧
      Seen z now s' o' (log ++ (seen ++ publication drv now s' o o')) := by
  have hadv := hstep.advances ht hnow
  refine ⟨hadv.tracks_publication, ?_⟩
  rcases hstep.publishes with ⟨hversion, hlatest⟩ | ⟨hversion, hlatest⟩
  · exact h.turn_silent ht hnow hadv hversion hlatest
  · exact h.turn_publishes ht hnow hadv hversion hlatest

/-- What connections do publishes nothing. -/
theorem connection_latest (hstep : Connection s s') : s'.latest = s.latest := by
  have hsend (msg : OwnerMsg) : (s.trySend msg).2.latest = s.latest := by
    unfold Session.trySend
    split_ifs <;> rfl
  cases hstep with
  | input seq data =>
    unfold Session.tryInput
    split_ifs
    · rfl
    · rfl
    · exact hsend _
  | resize cols rows =>
    unfold Session.tryResize
    split_ifs
    · exact hsend _
    · rfl
    · rfl
  | ack version => exact hsend (.ack version)
  | hangup => rfl
  | claim => rfl

/-- **Every run keeps its log sound.** -/
theorem Ran.sound (h : Ran drv z t s o log) : Tracks t s o log ∧ Seen z t s o log := by
  induction h with
  | start id token uid cols rows driver =>
    refine ⟨⟨rfl, fun _ _ hm => absurd hm List.not_mem_nil, fun _ hu => absurd hu List.not_mem_nil,
      rfl, ⟨0, rfl, rfl⟩, fun i hi hle => ?_, fun _ hp => absurd hp List.not_mem_nil,
      fun _ hp => absurd hp List.not_mem_nil, fun _ _ => rfl,
      fun _ _ hw => absurd hw List.not_mem_nil⟩, rfl, rfl, List.Pairwise.nil,
      fun _ hp => absurd hp List.not_mem_nil, fun _ _ _ hm => absurd hm List.not_mem_nil,
      fun _ _ hm => absurd hm List.not_mem_nil⟩
    exact absurd (hi.trans hle) (Nat.lt_irrefl 0)
  | connection h hstep ih =>
    obtain ⟨ht, hs⟩ := ih
    exact ⟨ht.connection hstep, hs.versions, (connection_latest hstep).trans hs.latest, hs.rising,
      hs.le, hs.published, hs.fired⟩
  | turn h hnow hstep ih =>
    obtain ⟨ht, hs⟩ := ih
    exact hs.turn ht hnow hstep

/-- **Echo checkpoints are sound.**  In every run of an owner on a clock that never goes
back: the screens published have the versions 1, 2, 3, ... without gaps, and the last of
them is the one connections send; their checkpoints never decrease and never exceed the
inputs accepted; the inputs up to the checkpoint of a screen were written whole
`ECHO_TIMEOUT` before it was published; and where the timer fires, the checkpoint is the
greatest with this property. -/
theorem echo_checkpoints (h : Ran drv z t s o log) :
    (screens log).map Screen.version = List.range' 1 (screens log).length ∧
    s.latest = (screens log).getLast?.map (fun p => ⟨p.version, p.encodeCompressed z⟩) ∧
    (screens log).Pairwise (fun p q => p.echoAck ≤ q.echoAck) ∧
    (∀ now accepted screen, .published now accepted screen ∈ log →
      screen.echoAck ≤ accepted ∧ SettledTo log o.taken now screen.echoAck) ∧
    ∀ now echoAck, .fired now echoAck ∈ log →
      IsGreatest {k | SettledTo log o.taken now k} echoAck := by
  obtain ⟨-, hs⟩ := h.sound
  have hlen := congrArg List.length hs.versions
  rw [List.length_map, List.length_range'] at hlen
  exact ⟨hlen ▸ hs.versions, hs.latest, hs.rising,
    fun now accepted screen hmem => (hs.published now accepted screen hmem).2,
    fun now echoAck hmem => (hs.fired now echoAck hmem).2⟩

/-- An emulator that always shows the same grid and has nothing to say. -/
def stillDriver : Driver Unit where
  process d _ := d
  flushSync d := d
  takePtyWrite d := ([], d)
  resize d _ _ := d
  grid _ := smallGrid

/-- The hypothesis of `echo_checkpoints` is satisfiable: two bytes are typed and written
one by one, at 10 and at 30, and the timer fires at 79 and at 80. -/
theorem echo_checkpoints_typed :
    ∃ s o log, Ran stillDriver .literal 80 s o log ∧ o.taken = [(1, [0x61, 0x62])] ∧
      (screens log).map (fun p => (p.version, p.echoAck)) = [(1, 1)] ∧
      IsGreatest {k | SettledTo log o.taken 79 k} 0 ∧
      IsGreatest {k | SettledTo log o.taken 80 k} 1 := by
  have hstart := (@Ran.start _ stillDriver .literal (constBytes 16 1)
    (constBytes 32 2) 1000 80 24 ())
  have htaken := (hstart.connection (.input 1 [0x61, 0x62])).turn (Nat.zero_le 5)
    (.recv _ _ (.input 1 [0x61, 0x62]) [] rfl (by decide) rfl)
  have hwritten := (htaken.turn (show 5 ≤ 10 by decide)
    (.write _ _ _ _ 1 rfl rfl (by decide))).turn (show 10 ≤ 30 by decide)
    (.write _ _ _ _ 1 rfl rfl (by decide))
  have hrun := (hwritten.turn (show 30 ≤ 79 by decide) (.echo _ _ rfl)).turn
    (show 79 ≤ 80 by decide) (.echo _ _ rfl)
  obtain ⟨-, -, -, -, hfired⟩ := echo_checkpoints hrun
  have h79 := hfired 79 0 (List.mem_append_left _ (List.mem_append_right _
    (List.mem_append_left _ (List.mem_singleton_self _))))
  have h80 := hfired 80 1 (List.mem_append_right _
    (List.mem_append_left _ (List.mem_singleton_self _)))
  exact ⟨_, _, _, hrun, by decide, by decide, h79, h80⟩

end Owner
end Quosh
