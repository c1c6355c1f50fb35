/-
# Runs of the way back

The results of `Quosh.System.LastScreen` for every run of `downlink`: the client accepts
what the server writes, shows what was published, and ends with the exit status of the
session behind its last screen.  And it can always end so: a handler that writes all it has
delivers the exit (`exit_reaches`).

Safety is by `Sound.step`, one step at a time.  That the end can be reached is another kind
of statement, about a run that has to be found: the handler queues the exit (`act_exit`), goes
on writing until the feed is empty (`flush_acts`), and the client reads all of it
(`Ended.handle_answer`).
-/

import Quosh.System.LastScreen

namespace Quosh
namespace Downlink

open Bytes FrameFeed

variable {σ δ : Type} {ext : Externals σ} {z : Lz4} {drv : Driver δ} {s t u : Downlink σ δ}
  {c : Client σ} {q : List Frame} {g : Frame}

/-- The start of a run is sound. -/
theorem Start.sound (h : Start ext s) : Sound z s := by
  obtain ⟨sessionId, token, cols, rows, never, hclient⟩ := h.client
  refine ⟨?_, ?_, fun hne => absurd h.exit hne, ?_, ?_, ?_, ?_⟩
  · rw [h.screens, h.latest]
    exact ⟨rfl, rfl⟩
  · rw [h.version, h.screens]
    rfl
  · rw [h.exit]
    exact nofun
  · rw [h.grams]
    exact nofun
  · rw [hclient]
    exact ⟨rfl, nofun, .inl rfl, nofun⟩
  · rw [h.conns, hclient]
    exact brings_nil z s rfl rfl nofun rfl

/-- **Every run is sound** as long as the screens that are published in it fit. -/
theorem sound_of_run (hz : z.Documented) (h0 : Start ext s)
    (hrun : (downlink ext z drv).AnyRun s t) (hfit : ∀ p ∈ t.screens, p.Encodable) :
    Sound z t := by
  refine hrun.invariant (I := fun t => (∀ p ∈ t.screens, p.Encodable) → Sound z t)
    (fun _ => h0.sound) (fun t a _ ih hallows _ hfit => ?_) hfit
  have hprev : ∀ p ∈ t.screens, p.Encodable := fun p hp =>
    hfit p ((@screens_grow _ _ ext z drv t a).subset hp)
  exact (ih hprev).step hz hallows hprev

/-- **Every frame is accepted but the error of a rejection.**  In every run whose published
screens fit the format, whatever part of what the server wrote reaches the client: reading
it is no error, unless the connection was rejected, and then the error says why. -/
theorem answers_accepted (hz : z.Documented) (h0 : Start ext s)
    (hrun : (downlink ext z drv).AnyRun s t) (hfit : ∀ p ∈ t.screens, p.Encodable) (n now : ℕ) :
    (t.client.recvControl ext z ((t.conns t.current).wire.take n) now).1 = .ok () ∨
      ∃ code msg, (t.conns t.current).station = .rejected code msg ∧
        (t.client.recvControl ext z ((t.conns t.current).wire.take n) now).1 =
          .error (.fatal ("server error " ++ toString code ++ ": " ++ msg)) := by
  obtain ⟨hexp, -⟩ := (@recv_sound _ _ ext) hz hfit (sound_of_run hz h0 hrun hfit) n now
  refine hexp.imp_right ?_
  rintro ⟨code, msg, hrejected, herr⟩
  exact ⟨code, msg, Descent.rejected_eq_some hrejected, herr⟩

/-- No action but a new client makes the client go back.  Only what it reads and the
datagrams touch its screen, and both install nothing older. -/
theorem Sound.onward (hz : z.Documented) {a : Action σ δ} (h : Sound z s)
    (hallows : Allows ext z drv s a) (hfit : ∀ p ∈ s.screens, p.Encodable)
    (hnew : ∀ i t c r n, a ≠ .resume i t c r n) :
    Onward s.client (act ext z drv s a).client := by
  unfold act
  cases a with
  | resume i t c r n => exact absurd rfl (hnew i t c r n)
  | call c => exact .of_eq (Client.Local.same hallows).confirmed
  | connect now => exact .of_eq rfl
  | recv n now => exact ((@recv_sound _ _ ext _ s) hz hfit h n now).2.2.1
  | datagram bytes now =>
    obtain ⟨p, hp, rfl⟩ := h.grams bytes hallows
    have hdecode := decode_published hz hfit hp
    obtain ⟨-, conf, hconf, -, hold⟩ :=
      (@Shown.applyScreen _ ext _ _ _ _ _ (h.shown.buffer (some now) s.client.recvBuf)) hp
        (h.numbered.pos hp) now
    intro old ho
    refine ⟨conf, ?_, hold old ho⟩
    change (s.client.recvDatagram ext z (p.encodeCompressed z) now).confirmed = _
    unfold Client.recvDatagram
    rw [if_neg (Client.not_magic_of_decode hdecode),
      if_neg (by rw [h.shown.context]; exact Bool.false_ne_true), hdecode]
    exact hconf
  | greet i bytes =>
    dsimp only
    split <;> exact .refl _
  | reply i authUid =>
    dsimp only
    split
    · split <;> exact .refl _
    · exact .refl _
  | serve i b =>
    dsimp only
    split <;> exact .refl _
  | close i =>
    dsimp only
    split <;> exact .refl _
  | cut i n => exact .refl _
  | owner session o => exact .refl _

/-- **A client shows what was published, and never goes back.**  In every run whose
published screens fit, the screen that a client shows is one of them, and in every
continuation in which the client stays it shows that one or a newer one. -/
theorem shows_published (hz : z.Documented) (h0 : Start ext s)
    (hrun : (downlink ext z drv).AnyRun s t)
    (hstay : (downlink ext z drv).Run (fun _ a => ∀ i t c r n, a ≠ .resume i t c r n) t u)
    (hfit : ∀ p ∈ u.screens, p.Encodable) :
    (∀ conf, u.client.confirmed = some conf → ∃ p ∈ u.screens, conf = p.clip) ∧
      u.client.sharedPrediction = none ∧
      ∀ old, t.client.confirmed = some old →
        ∃ conf, u.client.confirmed = some conf ∧ old.version ≤ conf.version := by
  have hsound := sound_of_run hz h0 (hrun.trans hstay.any) hfit
  refine ⟨hsound.shown.shown, hsound.shown.context, ?_⟩
  suffices h : (∀ p ∈ u.screens, p.Encodable) → Onward t.client u.client from h hfit
  clear hfit hsound
  induction hstay with
  | refl => exact fun _ => .refl _
  | act hstay a hallows hok ih =>
    intro hfit
    have hprev := fun p hp => hfit p ((@screens_grow _ _ ext z drv _ a).subset hp)
    have hsound := sound_of_run hz h0 (hrun.trans hstay.any) hprev
    exact (ih hprev).trans (hsound.onward hz hallows hprev hok)

/-- **The exit comes behind the last screen.**  In every run whose published screens fit:
a client that has ended without its user asking for it has the exit status of the session
and shows the last screen that was published. -/
theorem exit_shows_final (hz : z.Documented) (h0 : Start ext s)
    (hrun : (downlink ext z drv).AnyRun s t) (hfit : ∀ p ∈ t.screens, p.Encodable)
    (hhung : t.client.hungup = true) (hstay : t.leaving = false) :
    t.session.exit = some t.client.exitCode ∧
      ∃ p, t.screens.getLast? = some p ∧ t.client.confirmed = some p.clip := by
  have hsound := sound_of_run hz h0 hrun hfit
  rcases hsound.shown.hung hhung with hl | ⟨hexit, snap, conf, hsnap, hconf, hle⟩
  · rw [hstay] at hl
    cases hl
  · obtain ⟨p, hp, rfl⟩ := hsound.shown.shown conf hconf
    exact ⟨hexit, p, hsound.numbered.last hsnap hp hle, hconf⟩

/-! ### Writing all there is -/

/-- A handler writes at most `n` bytes. -/
theorem act_write {i n : ℕ} {hd : Handler} (hserving : (t.conns i).station = .serving hd) :
    act ext z drv t (.serve i (.write n)) =
      ({ t with grams := t.grams ++ [] } : Downlink σ δ).setConn i
        { (t.conns i).write (hd.feed.rest.take n) with
          station := .serving { hd with feed := hd.feed.advance n } } := by
  unfold act
  dsimp only
  rw [hserving]
  rfl

/-- What a run of writes leaves alone, and that its connection has written everything. -/
structure Flushed (q : List Frame) (t u : Downlink σ δ) : Prop where
  client : u.client = t.client
  current : u.current = t.current
  session : u.session = t.session
  screens : u.screens = t.screens
  rejected : (u.conns u.current).rejected = none
  wire : t.client.recvBuf ++ (u.conns u.current).wire = streamBytes q

/-- **A handler that goes on writing** writes all there is: every write is large enough for
the frame in flight, and starts the next one, so one write for each frame that waits and one
more empty the feed.  The induction is on the frames that wait. -/
theorem flush_acts {n k : ℕ} (hn : (streamBytes q).length ≤ n) :
    ∀ {t : Downlink σ δ} {hd : Handler}, (t.conns t.current).station = .serving hd →
      (t.conns t.current).cut = false →
      hd.feed.Delivers IsCtrl IsScreen IsExit
        (t.client.recvBuf ++ (t.conns t.current).wire) q →
      hd.feed.waiting.length = k →
      Flushed q t ((downlink ext z drv).acts t
        (List.replicate (k + 1) (.serve t.current (.write n)))) := by
  have hnext {t : Downlink σ δ} {hd : Handler}
      (hcut : (t.conns t.current).cut = false)
      (hq : hd.feed.Delivers IsCtrl IsScreen IsExit
        (t.client.recvBuf ++ (t.conns t.current).wire) q) :
      (hd.feed.advance n).Delivers IsCtrl IsScreen IsExit
        (t.client.recvBuf ++ ((t.conns t.current).write (hd.feed.rest.take n)).wire) q := by
    have h := hq.advance n
    simpa [Descent.write, hcut, List.append_assoc] using h
  have hfacts {t : Downlink σ δ} {hd : Handler}
      (hserving : (t.conns t.current).station = .serving hd) :
      let u := act ext z drv t (.serve t.current (.write n))
      (u.client = t.client ∧ u.current = t.current ∧ u.session = t.session ∧
        u.screens = t.screens) ∧
      u.conns t.current = { (t.conns t.current).write (hd.feed.rest.take n) with
        station := .serving { hd with feed := hd.feed.advance n } } := by
    rw [act_write hserving]
    exact ⟨⟨rfl, rfl, rfl, rfl⟩, Function.update_self ..⟩
  induction k with
  | zero =>
    intro t hd hserving hcut hq hk
    obtain ⟨hlen, hrest⟩ := hq.flush hn
    have hidle := (hnext hcut hq).idle (hrest (List.length_eq_zero_iff.1 hk))
      (List.length_eq_zero_iff.1 (by omega))
    obtain ⟨⟨hclient, hcurrent, hsession, hscreens⟩, hconn⟩ := hfacts hserving
    change Flushed q t (act ext z drv t (.serve t.current (.write n)))
    refine ⟨hclient, hcurrent, hsession, hscreens, ?_, ?_⟩
    · rw [hcurrent, hconn]
      rfl
    · rw [hcurrent, hconn]
      exact hidle
  | succ k ih =>
    intro t hd hserving hcut hq hk
    obtain ⟨hlen, -⟩ := hq.flush hn
    obtain ⟨⟨hclient, hcurrent, hsession, hscreens⟩, hconn⟩ := hfacts hserving
    have hflushed := @ih (act ext z drv t (.serve t.current (.write n)))
      { hd with feed := hd.feed.advance n } (by rw [hcurrent, hconn])
      (by rw [hcurrent, hconn]; exact hcut)
      (by rw [hcurrent, hconn, hclient]; exact hnext hcut hq)
      (by change (hd.feed.advance n).waiting.length = k; omega)
    rw [hcurrent] at hflushed
    exact ⟨hflushed.client.trans hclient, hflushed.current.trans hcurrent,
      hflushed.session.trans hsession, hflushed.screens.trans hscreens, hflushed.rejected,
      hclient ▸ hflushed.wire⟩

/-- A handler queues the exit. -/
theorem act_exit {i : ℕ} {hd : Handler} (hserving : (t.conns i).station = .serving hd)
    (status : ℤ) :
    act ext z drv t (.serve i (.exit status)) =
      ({ t with grams := t.grams ++ [] } : Downlink σ δ).setConn i
        { (t.conns i).write [] with
          station := .serving (Handler.queueExit t.session hd status) } := by
  unfold act
  dsimp only
  rw [hserving]
  rfl

/-- **A handler that queues the exit and goes on writing** writes all there is with it.  It
holds the epoch of the session, so `queue_exit` queues the exit; the rest is `flush_acts`. -/
theorem flush_exit {hd : Handler} {status : ℤ}
    (hserving : (t.conns t.current).station = .serving hd)
    (hcut : (t.conns t.current).cut = false) (hepoch : t.session.epoch = hd.epoch)
    (hq : (Handler.exitFeed t.session.latest hd.feed status).Delivers IsCtrl IsScreen IsExit
      (t.client.recvBuf ++ (t.conns t.current).wire) q) :
    ∃ k, Flushed q t ((downlink ext z drv).acts t (.serve t.current (.exit status) ::
      List.replicate k (.serve t.current (.write (streamBytes q).length)))) := by
  let hd₁ : Handler := Handler.queueExit t.session hd status
  have hfeed : hd₁.feed = Handler.exitFeed t.session.latest hd.feed status := by
    change (Handler.queueExit t.session hd status).feed = _
    rw [Handler.queueExit, if_neg (not_not.2 hepoch)]
    rfl
  obtain ⟨t₁, ht₁⟩ : ∃ t₁, t₁ = act ext z drv t (.serve t.current (.exit status)) := ⟨_, rfl⟩
  have hact := ht₁.trans (act_exit hserving status)
  have hclient : t₁.client = t.client := by rw [hact]; rfl
  have hcurrent : t₁.current = t.current := by rw [hact]; rfl
  have hconn : t₁.conns t.current =
      { (t.conns t.current).write [] with station := .serving hd₁ } := by
    rw [hact]
    exact Function.update_self ..
  have hwire : (t₁.conns t.current).wire = (t.conns t.current).wire := by
    rw [hconn]
    simp [Descent.write]
  have hflushed : Flushed q t₁ ((downlink ext z drv).acts t₁ (List.replicate
      (hd₁.feed.waiting.length + 1) (.serve t₁.current (.write (streamBytes q).length)))) := by
    refine @flush_acts _ _ ext z drv q _ hd₁.feed.waiting.length le_rfl t₁ hd₁ ?_ ?_ ?_ rfl
    · rw [hcurrent, hconn]
    · rw [hcurrent, hconn]
      exact hcut
    · rw [hcurrent, hclient, hwire, hfeed]
      exact hq
  refine ⟨hd₁.feed.waiting.length + 1, ?_⟩
  change Flushed q t ((downlink ext z drv).acts (act ext z drv t
    (.serve t.current (.exit status))) _)
  rw [← ht₁, ← hcurrent]
  exact ⟨hflushed.client.trans hclient, hflushed.current.trans hcurrent,
    hflushed.session.trans (by rw [hact]; rfl), hflushed.screens.trans (by rw [hact]; rfl),
    hflushed.rejected, hclient ▸ hflushed.wire⟩

/-- Writing is always possible. -/
theorem writes_allowed (i n k : ℕ) : ∀ t : Downlink σ δ,
    (downlink ext z drv).AllowsAll (fun _ _ => True) t
      (List.replicate k (.serve i (.write n))) := by
  induction k with
  | zero => exact fun _ => trivial
  | succ k ih => exact fun t => ⟨trivial, trivial, ih _⟩

/-- A connection that is served was not rejected. -/
theorem not_rejected (code : ℕ) (msg : String) (h : none = some (code, msg)) :
    code < 2 ^ 16 ∧ (asBytes msg).length < 2 ^ 16 := nomatch h

/-- The session has ended for a client that shows its last screen. -/
structure Ended (latest : Option Latest) (status : ℤ) (c : Client σ) : Prop where
  hungup : c.hungup = true
  exitCode : c.exitCode = status
  got : Got latest c

/-- **The exit ends the session for the client**, and no answer behind it undoes that: a
control frame and a screen leave the exit code and the hangup, and no other exit has another
status. -/
theorem Ended.handle_answer (hz : z.Documented) (hs : Sound z s)
    (hfit : ∀ p ∈ s.screens, p.Encodable) {status : ℤ} (hexit : s.session.exit = some status)
    (hg : Answer (IsPublished z s.screens) s.session.exit none g)
    (h : Shown s.screens s.session.exit s.session.latest s.leaving c)
    (ha : Awaits s.session.latest (g :: q) c)
    (he : (∃ x ∈ g :: q, IsExit x) ∨ Ended s.session.latest status c) (now : ℕ) :
    (∃ x ∈ q, IsExit x) ∨
      Ended s.session.latest status (c.handleFrame ext z g.1 g.2 now).2 := by
  obtain ⟨-, -, -, honward⟩ := (@Downlink.handle_answer _ ext) hz hfit hs.numbered hs.status
    not_rejected hg h ha now
  have hgot (hgot : Got s.session.latest c) :
      Got s.session.latest (c.handleFrame ext z g.1 g.2 now).2 := by
    obtain ⟨snap, old, hsnap, ho, hle⟩ := hgot
    obtain ⟨conf, hconf, hle'⟩ := honward old ho
    exact ⟨snap, conf, hsnap, hconf, hle.trans hle'⟩
  have hkeep (hcode : (c.handleFrame ext z g.1 g.2 now).2.exitCode = c.exitCode ∧
      (c.handleFrame ext z g.1 g.2 now).2.hungup = c.hungup) (hno : ¬IsExit g) :
      (∃ x ∈ q, IsExit x) ∨
        Ended s.session.latest status (c.handleFrame ext z g.1 g.2 now).2 := by
    rcases he with ⟨x, hx, hexit⟩ | hended
    · rcases List.mem_cons.1 hx with rfl | hx
      · exact absurd hexit hno
      · exact .inl ⟨x, hx, hexit⟩
    · exact .inr ⟨hcode.2.trans hended.hungup, hcode.1.trans hended.exitCode, hgot hended.got⟩
  rcases answer_shape hg with ⟨hctrl, hharmless⟩ | ⟨_, ⟨p, hp, rfl⟩, rfl⟩ | ⟨st, hst, rfl⟩ |
    ⟨code, msg, hr, -⟩
  · exact hkeep ((@handleFrame_exitCode _ ext z c) now hharmless hctrl.2) hctrl.2
  · refine hkeep ?_ (by simp [IsExit, msgScreen, msgExit])
    rw [handleFrame_screen h.context (decode_published hz hfit hp)]
    unfold Client.applyScreen
    split <;> exact ⟨rfl, rfl⟩
  · have hgot' : Got s.session.latest c := by
      rcases ha with hgot | ⟨snap, -, heq⟩ | ⟨hno, -⟩
      · exact hgot
      · exact absurd (Prod.mk.inj heq).1 (by simp [msgExit, msgScreen])
      · exact absurd rfl hno
    refine .inr ?_
    rw [handleFrame_exit c (hs.status st hst).1 (hs.status st hst).2]
    exact ⟨rfl, Option.some.inj (hst.symm.trans hexit), hgot'⟩
  · cases hr

/-- **A client that reads everything** that its connection has written, an exit among it,
has ended. -/
theorem recv_ended (hz : z.Documented) (h : Sound z s) (hfit : ∀ p ∈ s.screens, p.Encodable)
    {status : ℤ} (hexit : s.session.exit = some status)
    (hsend : Sendable q)
    (hwire : s.client.recvBuf ++ (s.conns s.current).wire = streamBytes q)
    (hanswers : ∀ g ∈ q, Answer (IsPublished z s.screens) s.session.exit none g)
    (hawaits : Awaits s.session.latest q s.client) (hmem : ∃ g ∈ q, IsExit g) {n : ℕ}
    (hn : (s.conns s.current).wire.length ≤ n) (now : ℕ) :
    Ended s.session.latest status
      (s.client.recvControl ext z ((s.conns s.current).wire.take n) now).2 := by
  let I : List Frame → Client σ → Prop := fun q c =>
    (∀ g ∈ q, Answer (IsPublished z s.screens) s.session.exit none g) ∧
      Shown s.screens s.session.exit s.session.latest s.leaving c ∧
      Awaits s.session.latest q c ∧ ((∃ g ∈ q, IsExit g) ∨ Ended s.session.latest status c)
  have hframe : ∀ f q c, I (f :: q) c → Expected none (c.handleFrame ext z f.1 f.2 now).1 ∧
      I q (c.handleFrame ext z f.1 f.2 now).2 := by
    rintro f q c ⟨hanswers, hshown, hawaits, hended⟩
    have hf := hanswers f List.mem_cons_self
    obtain ⟨hexp, hshown', hawaits', -⟩ := (@Downlink.handle_answer _ ext) hz hfit h.numbered
      h.status not_rejected hf hshown hawaits now
    exact ⟨hexp, fun g hg => hanswers g (List.mem_cons_of_mem _ hg), hshown', hawaits',
      (@Ended.handle_answer _ _ ext) hz h hfit hexit hf hshown hawaits hended now⟩
  let c₀ : Client σ := { s.client with
    lastRxMs := if (s.conns s.current).wire = [] then s.client.lastRxMs else some now
    recvBuf := s.client.recvBuf ++ (s.conns s.current).wire }
  have hcall : s.client.recvControl ext z (s.conns s.current).wire now = c₀.drain ext z now := rfl
  rw [List.take_of_length_le hn, hcall]
  obtain ⟨hexp, hend, done, q', rfl, hb, -, -, -, hended⟩ :=
    drain_queue (I := I) (c := c₀) (.inl rfl)
      (fun q c buf hI => ⟨hI.1, hI.2.1.buffer c.lastRxMs buf, hI.2.2.1, hI.2.2.2.imp_right
        fun he => ⟨he.hungup, he.exitCode, he.got⟩⟩)
      hframe hsend ⟨hanswers, h.shown.buffer _ _, hawaits, .inl hmem⟩ (hwire ▸ List.prefix_rfl)
  -- all frames have arrived, so none is left for which the loop could have ended
  have hok : (c₀.drain ext z now).1 = .ok () := hexp.resolve_right (by rintro ⟨_, _, ⟨⟩, _⟩)
  have hleft : (c₀.drain ext z now).2.recvBuf = streamBytes q' := by
    refine List.append_cancel_left (hb.symm.trans ?_)
    rw [← streamBytes_append]
    exact hwire
  have hnil : q' = [] := by
    have hstop := hend hok
    rw [hleft] at hstop
    cases q' with
    | nil => rfl
    | cons g q' =>
      have hg := hsend g (by simp)
      rw [streamBytes_cons] at hstop
      have hsplit := (@splitFrame_encode g.1 g.2) hg (streamBytes q')
      change splitFrame (g.bytes ++ streamBytes q') = _ at hsplit
      rw [hsplit] at hstop
      cases hstop
  rw [hnil] at hended
  exact hended.resolve_left (by simp)

/-- **The exit reaches a client that stays connected.**  In every run whose published
screens fit, when the session has ended and the newest handler serves the current
connection, which is not cut: once the handler has queued the exit and has gone on writing,
and the client has read what was written, the client has ended with the exit status of the
session and shows its last screen. -/
theorem exit_reaches (hz : z.Documented) (h0 : Start ext s)
    (hrun : (downlink ext z drv).AnyRun s t) (hfit : ∀ p ∈ t.screens, p.Encodable)
    {hd : Handler} {status : ℤ} (hserving : (t.conns t.current).station = .serving hd)
    (hcut : (t.conns t.current).cut = false) (hepoch : t.session.epoch = hd.epoch)
    (hexit : t.session.exit = some status) (now : ℕ) :
    ∃ n k, ∃ u, u = (downlink ext z drv).acts t (.serve t.current (.exit status) ::
        List.replicate k (.serve t.current (.write n)) ++ [.recv n now]) ∧
      (downlink ext z drv).AnyRun t u ∧ u.client.hungup = true ∧ u.client.exitCode = status ∧
      ∃ p, u.screens.getLast? = some p ∧ u.client.confirmed = some p.clip := by
  have hsound := sound_of_run hz h0 hrun hfit
  obtain ⟨f, q, hq, hanswers, hawaits, hfeed, -, -⟩ := hsound.brings
  obtain rfl := hfeed hd hserving hcut
  have hnot : (t.conns t.current).rejected = none := by rw [Descent.rejected, hserving]
  rw [hnot] at hanswers
  obtain ⟨q', hq', hanswers', hawaits', hmem⟩ := exit_delivers hz hfit hsound hq hanswers hawaits
    hexit
  -- the handler queues the exit and goes on writing
  let n := (streamBytes q').length
  obtain ⟨k, hflushed⟩ := (@flush_exit _ _ ext z drv) hserving hcut hepoch hq'
  obtain ⟨t₂, ht₂⟩ : ∃ t₂, t₂ = (downlink ext z drv).acts t (.serve t.current (.exit status) ::
      List.replicate k (.serve t.current (.write n))) := ⟨_, rfl⟩
  rw [← ht₂] at hflushed
  have hrun₂ : (downlink ext z drv).AnyRun t t₂ := by
    rw [ht₂]
    exact Machine.run_acts ⟨hexit, trivial, writes_allowed t.current n k _⟩
  have hfit₂ : ∀ p ∈ t₂.screens, p.Encodable := hflushed.screens ▸ hfit
  have hsound₂ := sound_of_run hz h0 (hrun.trans hrun₂) hfit₂
  have hwire₂ : t₂.client.recvBuf ++ (t₂.conns t₂.current).wire = streamBytes q' := by
    rw [hflushed.client]
    exact hflushed.wire
  -- the client reads what was written
  have hended : Ended t₂.session.latest status (t₂.client.recvControl ext z
      ((t₂.conns t₂.current).wire.take n) now).2 := by
    refine recv_ended hz hsound₂ hfit₂ (hflushed.session ▸ hexit) hq'.prefix.1 hwire₂ ?_ ?_ hmem
      ?_ now
    · rw [hflushed.screens, hflushed.session]
      exact hanswers'
    · rw [hflushed.session, hflushed.client]
      exact hawaits'
    · have hlen := congrArg List.length hwire₂
      rw [List.length_append] at hlen
      omega
  have hrun₃ : (downlink ext z drv).AnyRun t (act ext z drv t₂ (.recv n now)) :=
    hrun₂.act (.recv n now) trivial trivial
  have hsound₃ := sound_of_run hz h0 (hrun.trans hrun₃) hfit₂
  obtain ⟨snap, conf, hsnap, hconf, hle⟩ := hended.got
  obtain ⟨p, hp, rfl⟩ := hsound₃.shown.shown conf hconf
  refine ⟨n, k, _, ?_, hrun₃, hended.hungup, hended.exitCode, p,
    hsound₃.numbered.last hsnap hp hle, hconf⟩
  rw [Machine.acts_concat, ht₂]
  rfl

/-- A new client and a session that has published nothing. -/
def freshDownlink : Downlink Unit Unit where
  client := .new .ascii (constBytes 16 1) (constBytes 32 2) 2 2 false
  session := { id := constBytes 16 1, token := constBytes 32 2, uid := 1000, size := (2, 2) }
  owner := { driver := () }

theorem freshDownlink_start : Start .ascii freshDownlink :=
  ⟨⟨_, _, _, _, _, rfl⟩, fun _ => rfl, rfl, rfl, rfl, rfl, rfl⟩

/-- The session behind the exit of its shell, with its last screen. -/
def endedSession : Session where
  id := constBytes 16 1
  token := constBytes 32 2
  uid := 1000
  size := (2, 2)
  latest := some (publish .literal smallGrid 0 0)
  closed := true
  exit := some 7

/-- The client connects, the shell exits, and the server writes all it has. -/
def ending : List (Action Unit Unit) :=
  [.connect 0, .owner freshDownlink.session { driver := (), running := false },
    .owner endedSession { driver := (), version := 1, running := false },
    .greet 1 (freshDownlink.client.beginConnection 0).outbound, .reply 1 none,
    .serve 1 (.exit 7), .serve 1 (.write 1000), .serve 1 (.write 1000), .serve 1 (.write 1000)]

/-- The client has yet to read it. -/
def ended : Downlink Unit Unit :=
  (downlink .ascii .literal Owner.stillDriver).acts freshDownlink ending

/-- The client reads it. -/
def endedRead : Downlink Unit Unit :=
  (downlink .ascii .literal Owner.stillDriver).act ended (.recv 1000 5)

theorem ended_run :
    (downlink .ascii .literal Owner.stillDriver).AnyRun freshDownlink ended :=
  Machine.run_acts ⟨trivial, trivial, ⟨.stop _ _ rfl, nofun⟩, trivial,
    ⟨.finish _ _ [] 7 rfl rfl (by decide), by rintro _ ⟨⟩; decide⟩, trivial, trivial, trivial,
    trivial, trivial, rfl, trivial, trivial, trivial, trivial, trivial, trivial, trivial, trivial⟩

/-- The client reads on. -/
theorem ended_read :
    (downlink .ascii .literal Owner.stillDriver).Run (fun _ a => ∀ i t c r n, a ≠ .resume i t c r n)
      ended endedRead := by
  have hallows : (downlink .ascii .literal Owner.stillDriver).Allows ended (.recv 1000 5) := trivial
  have hstay (i : FixedBytes 16) (t : FixedBytes 32) (c r : ℕ) (n : Bool) :
      (.recv 1000 5 : Action Unit Unit) ≠ .resume i t c r n := nofun
  exact Machine.Run.refl.act _ hallows hstay

/-- The only screen is small enough. -/
theorem ended_fits : ∀ p ∈ ended.screens, p.Encodable := by
  intro p hp
  have hscreens : ended.screens = [publishedScreen smallGrid 0 0] := rfl
  rw [hscreens, List.mem_singleton] at hp
  rw [hp]
  exact Emulator.encodable_snapshot (by decide) (by decide) (by decide) (by decide +kernel)

theorem endedRead_fits : ∀ p ∈ endedRead.screens, p.Encodable := ended_fits

/-- The hypotheses of `answers_accepted` are satisfiable: the shell exits. -/
theorem answers_accepted_ended :
    (ended.client.recvControl .ascii .literal ((ended.conns ended.current).wire.take 1000) 5).1 =
        .ok () ∨
      ∃ code msg, (ended.conns ended.current).station = .rejected code msg ∧
        (ended.client.recvControl .ascii .literal
          ((ended.conns ended.current).wire.take 1000) 5).1 =
          .error (.fatal ("server error " ++ toString code ++ ": " ++ msg)) :=
  answers_accepted Lz4.literal_documented freshDownlink_start ended_run ended_fits 1000 5

/-- The hypotheses of `shows_published` are satisfiable: the client reads. -/
theorem shows_published_endedRead :
    (∀ conf, endedRead.client.confirmed = some conf → ∃ p ∈ endedRead.screens, conf = p.clip) ∧
      endedRead.client.sharedPrediction = none ∧
      ∀ old, ended.client.confirmed = some old →
        ∃ conf, endedRead.client.confirmed = some conf ∧ old.version ≤ conf.version :=
  shows_published Lz4.literal_documented freshDownlink_start ended_run
    ended_read endedRead_fits

/-- The hypotheses of `exit_shows_final` are satisfiable: the client has read the last
screen and the exit. -/
theorem exit_shows_final_endedRead :
    endedRead.session.exit = some endedRead.client.exitCode ∧
      ∃ p, endedRead.screens.getLast? = some p ∧ endedRead.client.confirmed = some p.clip :=
  exit_shows_final Lz4.literal_documented freshDownlink_start
    (ended_run.trans ended_read.any) endedRead_fits
    (by decide +kernel) (by decide +kernel)

/-- The client has connected, and the shell has exited. -/
def joined : Downlink Unit Unit :=
  (downlink .ascii .literal Owner.stillDriver).acts freshDownlink (ending.take 5)

theorem joined_run :
    (downlink .ascii .literal Owner.stillDriver).AnyRun freshDownlink joined :=
  Machine.run_acts ⟨trivial, trivial, ⟨.stop _ _ rfl, nofun⟩, trivial,
    ⟨.finish _ _ [] 7 rfl rfl (by decide), by rintro _ ⟨⟩; decide⟩, trivial, trivial, trivial,
    trivial, trivial, trivial⟩

/-- The hypotheses of `exit_reaches` are satisfiable: the handler that serves the client has
yet to find that the shell has exited. -/
theorem exit_reaches_joined :
    ∃ u, (downlink .ascii .literal Owner.stillDriver).AnyRun joined u ∧
      u.client.hungup = true ∧ u.client.exitCode = 7 ∧
      ∃ p, u.screens.getLast? = some p ∧ u.client.confirmed = some p.clip := by
  obtain ⟨n, k, u, -, h⟩ := exit_reaches Lz4.literal_documented freshDownlink_start joined_run
    ended_fits rfl rfl rfl rfl 5
  exact ⟨u, h⟩

end Downlink
end Quosh
