/-
# What the user sees

The terminal of `run_session` is written by the painter, by messages on standard error, and
by writes that may fail halfway.  In every run the terminal shows what the client has on
display whenever the program waits on a link (`waiting_painted`): where the painter skips a
frame, the terminal has it already, and behind anything that may have spoiled the screen the
painter draws everything again.

The banner is another matter.  The command line never calls `end_connection`, so `tick` goes
on finding the link dead and leaves the outage as it was: the seconds of the banner stop
before the time after which a link is given up (`outage_bounded`).
-/

import Quosh.Cli.SessionRuns

namespace Quosh
namespace Cli

variable {σ : Type} {ext : Externals σ} {z : Lz4} {s t : Cli} {c c' : Client σ} {e : Event}
  {w : Writes}

/-! ### The painter in an event -/

/-- What holds of the painter and the terminal: unless the program is over, what the painter
remembers is there, and nothing is remembered before the terminal is raw; a program that
waits on a link has painted. -/
structure Screened (s : Cli) (c : Client σ) : Prop where
  kept : Over s.place ∨
    s.painter.Faithful s.monitor ∧ (s.raw = false → s.painter.shownFrame = none)
  cooked : s.raw = false → s.place = .connecting ∨ Over s.place
  waiting : s.place = .waiting → ∀ f, c.display = some f →
    s.monitor.drawn = some (f, c.outage.map bannerLine)

/-- A program that is over has nothing to keep. -/
theorem screened_over {r : Except CliError Unit} (h : s.place = .finished r) : Screened s c :=
  ⟨.inl ⟨r, h⟩, fun _ => .inr ⟨r, h⟩, fun hw => by rw [h] at hw; cases hw⟩

/-- The head of the loop of `run_session` keeps what the terminal shows. -/
theorem loop_screened (hfaithful : s.painter.Faithful s.monitor)
    (hcooked : s.raw = false → s.painter.shownFrame = none) (c : Client σ) :
    Screened (s.loop c).1 (s.loop c).2 := by
  by_cases hhung : c.hungup = true
  · exact screened_over (r := .ok ()) (if_pos hhung)
  · have hplace : (s.loop c).1.place = .connecting := if_neg hhung
    refine ⟨.inr ⟨hfaithful, hcooked⟩, fun _ => .inl hplace, fun hw => ?_⟩
    rw [hplace] at hw
    cases hw

/-- A program that connects again repaints everything. -/
theorem again_screened (s : Cli) (c : Client σ) : Screened (s.again c).1 (s.again c).2 :=
  loop_screened (Painter.forceRepaint_faithful _ _) (fun _ => rfl) c.reset

/-- However a link ends, the next frame is painted anew. -/
theorem afterLink_screened (s : Cli) (c : Client σ) (r : Except CliError LinkEnd) :
    Screened (s.afterLink c r).1 (s.afterLink c r).2 := by
  unfold afterLink
  split
  · exact screened_over rfl
  · exact again_screened ..
  · dsimp only
    split
    · exact screened_over rfl
    · exact again_screened ..
  · exact screened_over rfl
  · exact again_screened ..
  · exact again_screened ..

/-- A paint that succeeds: the terminal shows the display, and the painter remembers it; with
nothing on display the painter remembers what it did. -/
theorem paint_kept (hfaithful : s.painter.Faithful s.monitor) (hzero : w.frame ≠ .zero)
    (hok : (s.paint c w).1 = .ok) :
    (s.paint c w).2.painter.Faithful (s.paint c w).2.monitor ∧
      (∀ f, c.display = some f →
        (s.paint c w).2.monitor.drawn = some (f, c.outage.map bannerLine)) ∧
      (c.display = none → (s.paint c w).2.painter.shownFrame = s.painter.shownFrame) := by
  obtain ⟨hafter, hdrawn⟩ := Painter.paint_ok hfaithful hzero hok
  refine ⟨hafter, hdrawn, fun hnone => ?_⟩
  have htitle := Painter.paintTitle_frame s.painter s.monitor c.outage w.title
  unfold paint Painter.paint at hok ⊢
  rcases hcall : s.painter.paintTitle s.monitor c.outage w.title with ⟨r, p, m⟩
  rw [hcall] at htitle hok
  cases r with
  | ok =>
    rw [hnone]
    exact htitle.1
  | zero | wouldBlock | failed => cases hok

/-- A write that is no error was taken. -/
theorem Written.error_none {r : Written} (h : r.error = none) : r = .ok := by
  cases r with
  | ok => rfl
  | zero | wouldBlock | failed => cases h

/-- The tick between two links paints the display, if the terminal is raw. -/
theorem tickPaint_screened (h : Screened s c) (hplace : s.place = .connecting) {now : ℕ}
    (hzero : w.frame ≠ .zero) (hdisplay : s.raw = false → (c.tick ext now).2.display = none) :
    Screened (tickPaint ext s c now w).1 (tickPaint ext s c now w).2 := by
  have hrunning : ¬Over s.place := by
    rintro ⟨r, hr⟩
    rw [hplace] at hr
    cases hr
  obtain ⟨hfaithful, hcooked⟩ := h.kept.resolve_left hrunning
  unfold tickPaint
  dsimp only
  split
  · exact screened_over rfl
  · rename_i herror
    obtain ⟨hafter, -, hnone⟩ := paint_kept hfaithful hzero (Written.error_none herror)
    refine loop_screened hafter (fun hraw => ?_) _
    rw [hnone (hdisplay hraw)]
    exact hcooked hraw

/-- Every event while the program connects.  With the terminal still cooked there is no
display, so a message that spoils the screen hides nothing; in raw mode the painter draws
over it. -/
theorem connecting_screened (h : Screened s c) (hplace : s.place = .connecting)
    (hzero : e.writes.frame ≠ .zero)
    (hdisplay : s.raw = false → ∀ now, (c.tick ext now).2.display = none) :
    Screened (connecting ext s c e).1 (connecting ext s c e).2 := by
  have hrunning : ¬Over s.place := by
    rintro ⟨r, hr⟩
    rw [hplace] at hr
    cases hr
  obtain ⟨hfaithful, hcooked⟩ := h.kept.resolve_left hrunning
  have hloop (c : Client σ) : Screened (s.loop c).1 (s.loop c).2 :=
    loop_screened hfaithful hcooked c
  cases e with
  | opened now =>
    refine ⟨.inr ⟨Painter.forceRepaint_faithful _ _, fun hraw => ?_⟩, fun hraw => ?_, fun hw => ?_⟩
    · cases hraw
    · cases hraw
    · cases hw
  | rawFailed msg =>
    rw [connecting]
    split
    · exact h
    · exact screened_over rfl
  | openFailed msg => exact afterLink_screened ..
  | connectFailed now w =>
    rw [connecting]
    split
    · exact tickPaint_screened h hplace hzero fun hraw => hdisplay hraw now
    · -- the message spoils a screen on which nothing was drawn
      rename_i hraw
      have hnone := hcooked (Bool.eq_false_of_not_eq_true hraw)
      have hspoiled : s.painter.Faithful s.monitor.spoil := fun f hf => by
        rw [hnone] at hf
        cases hf
      exact (@loop_screened _ { s with monitor := s.monitor.spoil }) hspoiled (fun _ => hnone) c
  | timer now w => exact tickPaint_screened h hplace hzero fun hraw => hdisplay hraw now
  | typed bytes now => exact hloop _
  | ctrl e size flushed =>
    cases e with
    | none => exact screened_over rfl
    | some e =>
      cases e with
      | eof | winch | interrupt | hangup => exact hloop _
      | overflow | failed => exact screened_over rfl
  | head | read | readEnd | readFailed | datagram | datagramFailed | wrote | writeEnd |
    writeFailed | sleep => exact h

/-- The modes have nothing to do with the frame. -/
theorem modes_frame (s : Cli) (mode : ℕ) :
    let t := if mode ≠ s.lastMode then s.applyModes mode else s
    t.painter = s.painter ∧ t.monitor.drawn = s.monitor.drawn ∧ t.raw = s.raw := by
  dsimp only
  split
  · unfold applyModes
    dsimp only
    split <;> exact ⟨rfl, rfl, rfl⟩
  · exact ⟨rfl, rfl, rfl⟩

/-- **The head of the loop paints the display** before it waits.  `paint` draws it, or has
drawn the same before; the modes that are set behind it leave the screen. -/
theorem atHead_screened (h : Screened s c) (hplace : s.place = .head) (now : ℕ)
    (hzero : w.frame ≠ .zero) :
    Screened (atHead ext s c now w).1 (atHead ext s c now w).2 := by
  have hrunning : ¬Over s.place := by
    rintro ⟨r, hr⟩
    rw [hplace] at hr
    cases hr
  obtain ⟨hfaithful, hcooked⟩ := h.kept.resolve_left hrunning
  unfold atHead
  rcases c.tick ext now with ⟨live, c'⟩
  cases live with
  | linkDead => exact afterLink_screened ..
  | alive =>
    dsimp only
    split
    · exact afterLink_screened ..
    · rename_i herror
      obtain ⟨hafter, hdrawn, -⟩ :=
        (@paint_kept _ s c' w) hfaithful hzero (Written.error_none herror)
      split
      · exact afterLink_screened ..
      · have hraw : s.raw = true := by
          refine Bool.eq_true_of_not_eq_false fun hraw => ?_
          rcases h.cooked hraw with hc | hover
          · rw [hplace] at hc
            cases hc
          · exact hrunning hover
        obtain ⟨hpainter, hdrawn', hraw'⟩ := modes_frame (s.paint c' w).2 (mode c')
        have hcook : ¬(s.paint c' w).2.raw = false := fun hcook =>
          absurd (hraw.symm.trans hcook) nofun
        refine ⟨.inr ⟨?_, fun hc => absurd (hraw'.symm.trans hc) hcook⟩,
          fun hc => absurd (hraw'.symm.trans hc) hcook, fun _ f hf => hdrawn'.trans (hdrawn f hf)⟩
        intro f hf
        dsimp only at hf ⊢
        rw [hpainter] at hf ⊢
        rw [hdrawn']
        exact hafter f hf

/-- An event of a link goes back to the head of the loop, or leaves all. -/
theorem onLink_screened (h : Screened s c) (hplace : s.place = .waiting) (e : Event) :
    Screened (onLink ext z s c e).1 (onLink ext z s c e).2 := by
  have hrunning : ¬Over s.place := by
    rintro ⟨r, hr⟩
    rw [hplace] at hr
    cases hr
  have hraw : ¬s.raw = false := fun hraw => by
    rcases h.cooked hraw with hc | hover
    · rw [hplace] at hc
      cases hc
    · exact hrunning hover
  have hnext (c : Client σ) : Screened (s.next c).1 (s.next c).2 :=
    ⟨.inr (h.kept.resolve_left hrunning), fun hc => absurd hc hraw, nofun⟩
  cases e with
  | read bytes now =>
    rw [onLink]
    rcases c.recvControl ext z bytes now with ⟨r, c'⟩
    cases r with
    | ok u => exact hnext c'
    | error e => exact afterLink_screened ..
  | readEnd | readFailed | datagramFailed => exact afterLink_screened ..
  | datagram bytes now => exact hnext _
  | wrote n =>
    rw [onLink]
    split
    · exact hnext _
    · exact h
  | writeEnd | writeFailed =>
    rw [onLink]
    split
    · exact afterLink_screened ..
    · exact h
  | typed bytes now =>
    rw [onLink]
    split
    · exact hnext _
    · exact h
  | ctrl e size flushed =>
    cases e with
    | none => exact afterLink_screened ..
    | some e =>
      cases e with
      | failed | overflow | eof | interrupt | hangup => exact afterLink_screened ..
      | winch => exact hnext _
  | sleep => exact hnext c
  | opened | rawFailed | openFailed | connectFailed | timer | head => exact h

/-- **Every event keeps what the terminal shows.** -/
theorem step_screened (h : Screened s c) (hzero : e.writes.frame ≠ .zero)
    (hdisplay : s.raw = false → ∀ now, (c.tick ext now).2.display = none) :
    Screened (step ext z s c e).1 (step ext z s c e).2 := by
  unfold step
  cases hplace : s.place with
  | connecting => exact connecting_screened h hplace hzero hdisplay
  | head =>
    cases e with
    | head now w => exact atHead_screened h hplace now hzero
    | opened | rawFailed | openFailed | connectFailed | timer | ctrl | typed | read | readEnd |
      readFailed | datagram | datagramFailed | wrote | writeEnd | writeFailed | sleep => exact h
  | waiting => exact onLink_screened h hplace e
  | finished r => exact h

/-! ### The client in a run -/

/-- What an event makes the client take in keeps its display up to date. -/
theorem hear_upToDate (h : c.view.UpToDate ext) : (hear ext z s c e).view.UpToDate ext := by
  unfold hear
  split
  · exact (Client.operate_keeps (k := .beginConnection _) (z := z) nofun h).1
  · exact (Client.operate_keeps (k := .recvControl _ _) (z := z) nofun h).1
  · exact (Client.operate_keeps (k := .recvDatagram _ _) (z := z) nofun h).1
  · exact h

/-- A call that brings nothing in draws the display again, or leaves it. -/
theorem Call.upToDate (hc : Call ext c c') (h : c.view.UpToDate ext) :
    c'.view.UpToDate ext := by
  have hoperate (k : Client.Operation) : (c.operate ext .literal k).view.UpToDate ext :=
    Client.operate_upToDate k h
  cases hc.1 with
  | queueInput bytes now => exact hoperate (.queueInput bytes now)
  | tick now => exact hoperate (.tick now)
  | pump => exact hoperate .pump
  | advanceOutbound n => exact hoperate (.advanceOutbound n)
  | endConnection => exact hoperate .endConnection
  | reset => exact hoperate .reset
  | setSize cols rows => exact hoperate (.setSize cols rows)
  | requestHangup => exact hoperate .requestHangup

/-- Any number of such calls. -/
theorem Calls.upToDate (hc : Calls ext c c') (h : c.view.UpToDate ext) :
    c'.view.UpToDate ext := by
  induction hc with
  | refl => exact h
  | tail _ hcall ih => exact Call.upToDate hcall ih

/-- Calls that bring nothing in leave the confirmed screen alone. -/
theorem Calls.same (hc : Calls ext c c') : Client.Same c c' := by
  induction hc with
  | refl => exact .refl c
  | tail _ hcall ih => exact ih.trans hcall.1.same

/-- No screen comes in where no link is waited on. -/
theorem hear_confirmed (h : s.place ≠ .waiting) :
    (hear ext z s c e).confirmed = c.confirmed := by
  unfold hear
  rcases intake_waiting h with ⟨now, he⟩ | he
  · rw [he]
    rfl
  · rw [he]

/-- The end of a link does not change whether the terminal is raw. -/
theorem afterLink_raw (s : Cli) (c : Client σ) (r : Except CliError LinkEnd) :
    (s.afterLink c r).1.raw = s.raw := by
  unfold afterLink
  split
  · rfl
  · rfl
  · dsimp only
    split <;> rfl
  · rfl
  · rfl
  · rfl

/-- Nor does a paint between two links. -/
theorem tickPaint_raw (s : Cli) (c : Client σ) (now : ℕ) (w : Writes) :
    (tickPaint ext s c now w).1.raw = s.raw := by
  unfold tickPaint
  dsimp only
  split <;> rfl

/-- Nor does the head of the loop. -/
theorem atHead_raw (s : Cli) (c : Client σ) (now : ℕ) (w : Writes) :
    (atHead ext s c now w).1.raw = s.raw := by
  unfold atHead
  rcases c.tick ext now with ⟨live, c'⟩
  cases live with
  | linkDead => exact afterLink_raw ..
  | alive =>
    dsimp only
    split
    · exact afterLink_raw ..
    · have hmodes := (modes_frame (s.paint c' w).2 (mode c')).2.2
      split
      · exact (afterLink_raw ..).trans hmodes
      · exact hmodes

/-- No event of a link changes whether the terminal is raw: it goes on at the head of the
loop, or through `after_link`, which leaves that. -/
theorem onLink_raw (s : Cli) (c : Client σ) (e : Event) :
    (onLink ext z s c e).1.raw = s.raw := by
  -- An event that needs something to be written, or room for the input, goes to the head or
  -- leaves everything.
  have hwhen {b : Prop} [Decidable b] {x y : Cli × Client σ} (hx : x.1.raw = s.raw)
      (hy : y.1.raw = s.raw) : (if b then x else y).1.raw = s.raw := by
    split
    · exact hx
    · exact hy
  cases e with
  | read bytes now =>
    unfold onLink
    dsimp only
    rcases c.recvControl ext z bytes now with ⟨answer, c'⟩
    cases answer with
    | error err => exact afterLink_raw ..
    | ok u => rfl
  | readEnd => exact afterLink_raw ..
  | readFailed => exact afterLink_raw ..
  | datagram bytes now => rfl
  | datagramFailed => exact afterLink_raw ..
  | wrote n => exact hwhen rfl rfl
  | writeEnd => exact hwhen (afterLink_raw ..) rfl
  | writeFailed => exact hwhen (afterLink_raw ..) rfl
  | ctrl event size flushed =>
    cases event with
    | none => exact afterLink_raw ..
    | some event =>
      cases event with
      | failed m => exact afterLink_raw ..
      | overflow => exact afterLink_raw ..
      | winch => rfl
      | eof => exact afterLink_raw ..
      | interrupt => exact afterLink_raw ..
      | hangup => exact afterLink_raw ..
  | typed bytes now => exact hwhen rfl rfl
  | sleep => rfl
  | opened now => rfl
  | rawFailed msg => rfl
  | openFailed msg => rfl
  | connectFailed now w => rfl
  | timer now w => rfl
  | head now w => rfl

/-- Connecting does not leave raw mode, other than by the end of a link that was not opened. -/
theorem connecting_raw (h : (connecting ext s c e).1.raw = false) : s.raw = false := by
  cases e with
  | opened now => cases h
  | rawFailed msg =>
    unfold connecting at h
    dsimp only at h
    split at h
    · exact h
    · exact h
  | openFailed msg =>
    have hraw : ((afterLink { s with raw := true } c
        (.error (.other ("open control" ++ msg)))).1.raw) = false := h
    rw [afterLink_raw] at hraw
    cases hraw
  | connectFailed now w =>
    unfold connecting at h
    dsimp only at h
    split at h
    · exact (tickPaint_raw ..).symm.trans h
    · exact h
  | timer now w => exact (tickPaint_raw ..).symm.trans h
  | ctrl event size flushed =>
    cases event with
    | none => exact h
    | some event => cases event <;> exact h
  | typed bytes now => exact h
  | head now w => exact h
  | read bytes now => exact h
  | readEnd => exact h
  | readFailed => exact h
  | datagram bytes now => exact h
  | datagramFailed => exact h
  | wrote n => exact h
  | writeEnd => exact h
  | writeFailed => exact h
  | sleep => exact h

/-- The terminal gets raw where the program connects, and does not leave raw mode before the
end. -/
theorem step_raw (h : (step ext z s c e).1.raw = false) : s.raw = false := by
  unfold step at h
  split at h
  · exact connecting_raw h
  · split at h
    · exact (atHead_raw ..).symm.trans h
    · exact h
  · exact (onLink_raw ..).symm.trans h
  · exact h

/-- **What a run keeps**: the painter is faithful, the display is up to date, and no screen
has come in before the terminal was raw. -/
structure Watched (ext : Externals σ) (s : Cli) (c : Client σ) : Prop where
  screened : Screened s c
  display : c.view.UpToDate ext
  cooked : s.raw = false → c.confirmed = none

/-- **Every event keeps what a run keeps.** -/
theorem Watched.step (h : Watched ext s c) (hzero : e.writes.frame ≠ .zero) :
    Watched ext (step ext z s c e).1 (step ext z s c e).2 := by
  refine ⟨step_screened h.screened hzero fun hraw now => ?_, ?_, fun hraw' => ?_⟩
  · have htick := (@tick_call _ ext) c now
    have hnone : (c.tick ext now).2.confirmed = none :=
      htick.1.same.confirmed.trans (h.cooked hraw)
    refine Option.eq_none_iff_forall_ne_some.2 fun f hf => ?_
    obtain ⟨screen, hscreen, -⟩ := Call.upToDate htick h.display f hf
    exact absurd (hnone.symm.trans hscreen) nofun
  · exact Calls.upToDate (step_calls s c e) (hear_upToDate h.display)
  · have hraw := step_raw hraw'
    have hwaiting : s.place ≠ .waiting := by
      intro hw
      rcases h.screened.cooked hraw with hc | ⟨r, hr⟩
      · exact absurd (hw.symm.trans hc) nofun
      · exact absurd (hw.symm.trans hr) nofun
    rw [(Calls.same (step_calls s c e)).confirmed, hear_confirmed hwaiting]
    exact h.cooked hraw

/-- **The terminal shows the display whenever the program waits on a link.**  In every run of
a new client in which no write of a frame comes to zero bytes: where the program waits on a
link, whatever writes failed before, what the client has on display is the confirmed screen
with the predictions applied, and the terminal shows it, with the banner if there is an
outage. -/
theorem waiting_painted (title : String) (sessionId : FixedBytes 16) (token : FixedBytes 32)
    (cols rows : ℕ) (never : Bool)
    (hrun : (runSession ext z).Run (fun _ e => e.writes.frame ≠ .zero)
      (start title, .new ext sessionId token cols rows never) (t, c))
    (hwaiting : t.place = .waiting) {f : FrameState} (hf : c.display = some f) :
    (∃ screen, c.confirmed = some screen ∧ f = c.predictor.apply ext screen.frame) ∧
      t.monitor.drawn = some (f, c.outage.map bannerLine) := by
  have hwatched : Watched ext t c := by
    refine hrun.invariant (I := fun p => Watched ext p.1 p.2) ?_ fun p e _ ih _ hok => ih.step hok
    exact ⟨⟨.inr ⟨fun _ => nofun, fun _ => rfl⟩, fun _ => .inl rfl, nofun⟩,
      Client.new_upToDate _ _ _ _ _, fun _ => rfl⟩
  exact ⟨hwatched.display f hf, hwatched.screened.waiting hwaiting f hf⟩

/-- A link on which a screen arrives. -/
def shownLink : Cli × Client Unit :=
  (runSession .ascii .literal).acts (start "quosh", newClient)
    [.opened 0, .head 0 {},
      .read (encodeFrame msgScreen ((Client.blankScreen 1 0).encodeCompressed .literal)) 5,
      .head 5 {}]

/-- A run in which no write comes to zero bytes. -/
theorem shownLink_run : (runSession .ascii .literal).Run (fun _ e => e.writes.frame ≠ .zero)
    (start "quosh", newClient) shownLink :=
  Machine.run_acts ⟨trivial, nofun, trivial, nofun, trivial, nofun, trivial, nofun, trivial⟩

/-- The hypotheses of `waiting_painted` are satisfiable: a screen has arrived. -/
theorem waiting_painted_shownLink : ∃ f, shownLink.2.display = some f ∧
    shownLink.1.monitor.drawn = some (f, shownLink.2.outage.map bannerLine) := by
  obtain ⟨f, hf⟩ := Option.isSome_iff_exists.1
    (show shownLink.2.display.isSome = true by decide +kernel)
  have hrun : (runSession .ascii .literal).Run (fun _ e => e.writes.frame ≠ .zero)
      (start "quosh", newClient) (shownLink.1, shownLink.2) := by
    rw [Prod.mk.eta]
    exact shownLink_run
  have hshown := waiting_painted "quosh" _ _ _ _ _ hrun (by decide +kernel) hf
  exact ⟨f, hf, hshown.2⟩

/-! ### The seconds of the banner -/

/-- The fields that have to do with the outage. -/
structure Quiet (c c' : Client σ) : Prop where
  connected : c'.connected = c.connected
  hungup : c'.hungup = c.hungup
  lastRx : c'.lastRxMs = c.lastRxMs
  srtt : c'.srttMs = c.srttMs
  outage : c'.outage = c.outage

theorem Quiet.refl (c : Client σ) : Quiet c c := ⟨rfl, rfl, rfl, rfl, rfl⟩

theorem Quiet.trans {c'' : Client σ} (h : Quiet c c') (h' : Quiet c' c'') : Quiet c c'' :=
  ⟨h'.connected.trans h.connected, h'.hungup.trans h.hungup, h'.lastRx.trans h.lastRx,
    h'.srtt.trans h.srtt, h'.outage.trans h.outage⟩

/-- The predictor has no part in the connection. -/
theorem tickPredictor_quiet (c : Client σ) (now : ℕ) : Quiet c (c.tickPredictor ext now) := by
  unfold Client.tickPredictor
  split
  · dsimp only
    split <;> exact ⟨rfl, rfl, rfl, rfl, rfl⟩
  · exact .refl c

/-- Pumping changes what is to be written, and not the connection. -/
theorem pump_quiet (c : Client σ) : Quiet c c.pump := by
  have hack (c : Client σ) : Quiet c c.pumpAck := by
    unfold Client.pumpAck
    split <;> exact ⟨rfl, rfl, rfl, rfl, rfl⟩
  have hinput (c : Client σ) : Quiet c c.pumpInput := by
    unfold Client.pumpInput
    split
    · exact .refl c
    · split <;> exact ⟨rfl, rfl, rfl, rfl, rfl⟩
  unfold Client.pump
  split
  · exact .refl c
  · exact (hack c).trans (hinput _)

/-- A ping notes when it was sent. -/
theorem maybePing_quiet (c : Client σ) (now : ℕ) : Quiet c (c.maybePing now) := by
  unfold Client.maybePing
  dsimp only
  split
  · split <;> exact ⟨rfl, rfl, rfl, rfl, rfl⟩
  · exact .refl c

/-- Input is queued whether there is a connection or not. -/
theorem queueInput_quiet (c : Client σ) (bytes : Bytes) (now : ℕ) :
    Quiet c (c.queueInput ext bytes now) := by
  unfold Client.queueInput Client.feedPredict
  dsimp only
  split
  · exact ⟨rfl, rfl, rfl, rfl, rfl⟩
  · split
    · exact ⟨rfl, rfl, rfl, rfl, rfl⟩
    · split <;> exact ⟨rfl, rfl, rfl, rfl, rfl⟩

/-- Another size is told to the server. -/
theorem setSize_quiet (c : Client σ) (cols rows : ℕ) : Quiet c (c.setSize cols rows) := by
  unfold Client.setSize
  dsimp only
  split <;> exact ⟨rfl, rfl, rfl, rfl, rfl⟩

/-- **What is known of the outage** of a client that nobody tells when its connection ends:
it is long enough for the banner and shorter than what a link is given up for; and before the
first connection nothing was received. -/
structure Timed (c : Client σ) : Prop where
  banner : c.hungup = true ∨ ∀ ms, c.outage = some ms →
    outageBannerSecs * 1000 < ms ∧ ms < linkDeadMs c.srttMs
  silent : c.connected = false → c.lastRxMs = none

/-- A quiet call keeps the silence of the link within its bounds. -/
theorem Timed.quiet (h : Timed c) (hq : Quiet c c') : Timed c' := by
  constructor
  · rw [hq.hungup, hq.outage, hq.srtt]
    exact h.banner
  · rw [hq.connected, hq.lastRx]
    exact h.silent

/-- **A tick gives a silent link up** before the outage is longer than the bound. -/
theorem Timed.tickSilence (h : Timed c) (now : ℕ) :
    Timed (c.tickSilence (c.connected && !c.hungup) now).2 := by
  unfold Client.tickSilence
  split
  · exact h
  · rename_i hlive
    split
    · exact h
    · rename_i last hlast
      dsimp only
      split
      · rename_i hlong
        refine ⟨?_, h.silent⟩
        by_cases hhung : c.hungup = true
        · exact .inl hhung
        · right
          rintro _ ⟨⟩
          have hconnected : c.connected = true := by
            refine Bool.eq_true_of_not_eq_false fun hc => ?_
            exact absurd (hlast.symm.trans (h.silent hc)) nofun
          refine ⟨hlong, Nat.lt_of_not_le fun hdead => hlive ?_⟩
          simp [hconnected, hhung, hlast, hdead]
      · exact h

/-- Every call that brings nothing in keeps the bound. -/
theorem Timed.call (h : Timed c) (hc : Call ext c c') : Timed c' := by
  obtain ⟨hlocal, hconnected⟩ := hc
  cases hlocal with
  | queueInput bytes now => exact h.quiet (queueInput_quiet ..)
  | tick now =>
    have hpump := ((@tickPredictor_quiet _ ext) c now).trans (pump_quiet _)
    unfold Client.tick
    dsimp only
    split
    · have hping := hpump.trans (maybePing_quiet _ now)
      have hsilence := (h.quiet hping).tickSilence now
      rwa [(maybePing_quiet _ now).connected, (maybePing_quiet _ now).hungup] at hsilence
    · exact (h.quiet hpump).tickSilence now
  | pump => exact h.quiet (pump_quiet c)
  | advanceOutbound n => exact h.quiet ⟨rfl, rfl, rfl, rfl, rfl⟩
  | endConnection => exact h.quiet ⟨hconnected, rfl, rfl, rfl, rfl⟩
  | reset => exact h.quiet ⟨rfl, rfl, rfl, rfl, rfl⟩
  | setSize cols rows => exact h.quiet (setSize_quiet ..)
  | requestHangup => exact ⟨.inl rfl, h.silent⟩

/-- A client that has connected. -/
structure Linked (c : Client σ) : Prop where
  connected : c.connected = true
  timed : Timed c

/-- A screen leaves the connection alone. -/
theorem Linked.applyScreen (h : Linked c) (screen : Screen) (now : ℕ) :
    Linked (c.applyScreen ext screen now) := by
  unfold Client.applyScreen
  split
  · exact h
  · exact ⟨h.connected, .inr nofun, fun hc => absurd (h.connected.symm.trans hc) nofun⟩

/-- A shared screen does too. -/
theorem Linked.applySharedScreen (h : Linked c) (screen : SharedScreen) (now : ℕ) :
    Linked (c.applySharedScreen ext screen now).2 := by
  have hcontext (context : ℕ × Bool) : Linked (c.setContext context) := by
    unfold Client.setContext
    split
    · exact ⟨h.connected, h.timed.banner, h.timed.silent⟩
    · exact h
  unfold Client.applySharedScreen
  split
  · exact h
  · split
    · exact h
    · exact (hcontext _).applyScreen ..

/-- A frame that arrives does not close the connection. -/
theorem Linked.handleFrame (h : Linked c) (typ : UInt8) (payload : Bytes) (now : ℕ) :
    Linked (c.handleFrame ext z typ payload now).2 := by
  unfold Client.handleFrame
  split_ifs
  · unfold Client.handleHelloOk
    split
    · exact h
    · split
      · exact h
      · exact ⟨h.connected, h.timed.banner, h.timed.silent⟩
  · split
    · exact h
    · exact h.applySharedScreen ..
  · exact h
  · split
    · exact h
    · exact h.applyScreen ..
  · split
    · exact h
    · exact ⟨h.connected, h.timed.banner, h.timed.silent⟩
  · unfold Client.handlePong
    dsimp only
    split
    · exact ⟨h.connected, .inr nofun, fun hc => absurd (h.connected.symm.trans hc) nofun⟩
    · exact ⟨h.connected, .inr nofun, fun hc => absurd (h.connected.symm.trans hc) nofun⟩
  · split
    · exact h
    · exact ⟨h.connected, .inl rfl, h.timed.silent⟩
  · split <;> exact h
  · exact h

/-- Bytes that have arrived leave a client connected. -/
theorem Linked.received (h : Linked c) (rx : Option ℕ) (buf : Bytes) :
    Linked { c with lastRxMs := rx, recvBuf := buf } :=
  ⟨h.connected, h.timed.banner, fun hc => absurd (h.connected.symm.trans hc) nofun⟩

/-- A read of the control stream leaves a client connected. -/
theorem Linked.recvControl (h : Linked c) (bytes : Bytes) (now : ℕ) :
    Linked (c.recvControl ext z bytes now).2 := by
  have hdrain := @Client.drainFrames_of_frames _ ext z (fun c c' => Linked c → Linked c') now
    (fun c rest hc => hc.received c.lastRxMs rest) (fun c typ payload hc => hc.handleFrame ..)
  have hrun := hdrain (c.recvBuf ++ bytes).length
    { c with
      lastRxMs := if bytes = [] then c.lastRxMs else some now
      recvBuf := c.recvBuf ++ bytes }
  have hstart := h.received (if bytes = [] then c.lastRxMs else some now) (c.recvBuf ++ bytes)
  change Linked (Client.drainFrames ext z now _ _).2
  generalize (Client.drainFrames ext z now _ _).2 = c' at hrun ⊢
  induction hrun with
  | refl => exact hstart
  | tail _ hstep ih => exact hstep ih

/-- A datagram leaves a client connected. -/
theorem Linked.recvDatagram (h : Linked c) (bytes : Bytes) (now : ℕ) :
    Linked (c.recvDatagram ext z bytes now) := by
  have hrx := h.received (some now) c.recvBuf
  unfold Client.recvDatagram
  dsimp only
  split
  · split
    · exact hrx
    · exact hrx.applySharedScreen ..
  · split
    · exact hrx
    · split
      · exact hrx
      · exact hrx.applyScreen ..

/-- A link is given up after 20 s of silence at most. -/
theorem linkDeadMs_le (srtt : Option ℚ) : linkDeadMs srtt ≤ 20000 := by
  unfold linkDeadMs scaledMs
  refine max_le (by omega) ?_
  cases srtt with
  | none => exact Nat.zero_le _
  | some s =>
    have hcap : max 0 (min (4 * s) 20000) ≤ (20000 : ℚ) := max_le (by norm_num) (min_le_right ..)
    refine Int.toNat_le.2 (Int.floor_le_iff.2 ?_)
    push_cast
    linarith

/-- The program drives a link. -/
def OnLink (p : Place) : Prop := p = .head ∨ p = .waiting

/-- A program that is over waits on no link. -/
theorem finished_offLink (r : Except CliError Unit) : ¬OnLink (.finished r) := by
  rintro (h | h) <;> cases h

/-- A program that connects waits on no link. -/
theorem connecting_not_onLink : ¬OnLink .connecting := by
  rintro (h | h) <;> cases h

/-- The head of the loop of `run_session` waits on no link. -/
theorem loop_offLink (s : Cli) (c : Client σ) : ¬OnLink (s.loop c).1.place := by
  unfold loop
  dsimp only
  split
  · exact finished_offLink _
  · exact connecting_not_onLink

/-- A program that connects drives a link only when one is opened. -/
theorem connecting_offLink (hplace : s.place = .connecting) (he : ∀ now, e ≠ .opened now) :
    ¬OnLink (connecting ext s c e).1.place := by
  have hs : ¬OnLink s.place := by
    rw [hplace]
    exact connecting_not_onLink
  have htick (now : ℕ) (w : Writes) : ¬OnLink (tickPaint ext s c now w).1.place := by
    unfold tickPaint
    dsimp only
    split
    · exact finished_offLink _
    · exact loop_offLink _ _
  cases e with
  | opened now => exact absurd rfl (he now)
  | rawFailed msg =>
    rw [connecting]
    split
    · exact hs
    · exact finished_offLink _
  | openFailed msg => exact loop_offLink _ _
  | connectFailed now w =>
    rw [connecting]
    split
    · exact htick now w
    · exact loop_offLink _ _
  | timer now w => exact htick now w
  | typed bytes now => exact loop_offLink _ _
  | ctrl e size flushed =>
    cases e with
    | none => exact finished_offLink _
    | some e =>
      cases e with
      | eof | winch | interrupt | hangup => exact loop_offLink _ _
      | overflow | failed => exact finished_offLink _
  | head | read | readEnd | readFailed | datagram | datagramFailed | wrote | writeEnd |
    writeFailed | sleep => exact hs

/-- **What a run keeps**: the client is timed, and has connected where it is on a link. -/
structure Keeping (s : Cli) (c : Client σ) : Prop where
  timed : Timed c
  linked : OnLink s.place → c.connected = true

/-- Calls that bring nothing in keep the bound and the connection. -/
theorem Calls.timed (hc : Calls ext c c') (h : Timed c) :
    Timed c' ∧ c'.connected = c.connected := by
  induction hc with
  | refl => exact ⟨h, rfl⟩
  | tail _ hcall ih => exact ⟨ih.1.call hcall, hcall.2.trans ih.2⟩

/-- What an event brings in keeps the bound, and on a link the connection. -/
theorem hear_timed (h : Keeping s c) (e : Event) : Timed (hear ext z s c e) ∧
    (OnLink s.place → (hear ext z s c e).connected = true) := by
  have hwaiting (he : ∀ now, s.intake e ≠ .connection now) (he' : s.intake e ≠ .nothing) :
      s.place = .waiting := by
    by_contra h
    rcases intake_waiting h with ⟨now, h⟩ | h
    · exact he now h
    · exact he' h
  unfold hear
  split
  · exact ⟨⟨.inr nofun, nofun⟩, fun _ => rfl⟩
  · rename_i hintake
    have hplace := hwaiting (by rw [hintake]; exact nofun) (by rw [hintake]; exact nofun)
    have hlinked := (@Linked.recvControl _ ext z c) ⟨h.linked (.inr hplace), h.timed⟩
    exact ⟨(hlinked ..).timed, fun _ => (hlinked ..).connected⟩
  · rename_i hintake
    have hplace := hwaiting (by rw [hintake]; exact nofun) (by rw [hintake]; exact nofun)
    have hlinked := (@Linked.recvDatagram _ ext z c) ⟨h.linked (.inr hplace), h.timed⟩
    exact ⟨(hlinked ..).timed, fun _ => (hlinked ..).connected⟩
  · exact ⟨h.timed, h.linked⟩

/-- **Every event keeps the bound on a silence.**  What is heard and what is called keep the
times, and a program that is on a link has a client that is connected, from the event that
opened it. -/
theorem Keeping.step (h : Keeping s c) (e : Event) :
    Keeping (step ext z s c e).1 (step ext z s c e).2 := by
  obtain ⟨hheard, hlinked⟩ := hear_timed h e
  obtain ⟨htimed, hconnected⟩ := Calls.timed (step_calls s c e) hheard
  refine ⟨htimed, fun hon => hconnected.trans ?_⟩
  by_cases hs : OnLink s.place
  · exact hlinked hs
  · cases hplace : s.place with
    | head => exact absurd (.inl hplace) hs
    | waiting => exact absurd (.inr hplace) hs
    | finished r =>
      unfold Cli.step at hon
      rw [hplace] at hon
      exact absurd hon hs
    | connecting =>
      cases e with
      | opened now =>
        unfold hear intake
        rw [hplace]
        rfl
      | rawFailed | openFailed | connectFailed | timer | ctrl | typed | head | read | readEnd |
        readFailed | datagram | datagramFailed | wrote | writeEnd | writeFailed | sleep =>
        unfold Cli.step at hon
        rw [hplace] at hon
        exact absurd hon (connecting_offLink hplace fun now => nofun)

/-- **The seconds of the banner stop.**  In every run of a new client, as long as neither the
user nor the server has hung up: the outage that the banner counts is above 3 seconds and
below the time after which a link is given up, which is at most 20 seconds; however long the
outage lasts, the banner does not count beyond that. -/
theorem outage_bounded (title : String) (sessionId : FixedBytes 16) (token : FixedBytes 32)
    (cols rows : ℕ) (never : Bool)
    (hrun : (runSession ext z).AnyRun
      (start title, .new ext sessionId token cols rows never) (t, c))
    (hhung : c.hungup = false) {ms : ℕ} (hms : c.outage = some ms) :
    outageBannerSecs * 1000 < ms ∧ ms < linkDeadMs c.srttMs ∧ linkDeadMs c.srttMs ≤ 20000 := by
  have hkeeping : Keeping t c := by
    refine hrun.invariant (I := fun p => Keeping p.1 p.2) ⟨⟨.inr nofun, fun _ => rfl⟩, ?_⟩
      fun p e _ ih _ _ => ih.step e
    rintro (h | h) <;> cases h
  rcases hkeeping.timed.banner with hh | hbound
  · exact absurd (hh.symm.trans hhung) nofun
  · exact ⟨(hbound ms hms).1, (hbound ms hms).2, linkDeadMs_le c.srttMs⟩

/-- A link that is silent for five seconds and then for an hour. -/
def silentLink : Cli × Client Unit :=
  (runSession .ascii .literal).acts (start "quosh", newClient)
    [.opened 0, .head 0 {}, .sleep, .head 5000 {}, .sleep, .head 3600000 {}, .timer 3700000 {}]

/-- A run in which the link falls silent. -/
theorem silentLink_run :
    (runSession .ascii .literal).AnyRun (start "quosh", newClient) silentLink :=
  Machine.run_acts (Machine.allowsAll_of_forall (fun _ _ => ⟨trivial, trivial⟩) _ _)

/-- The hypotheses of `outage_bounded` are satisfiable: the banner of an hour counts 5
seconds. -/
theorem outage_bounded_silentLink : outageBannerSecs * 1000 < 5000 ∧
    5000 < linkDeadMs silentLink.2.srttMs ∧ linkDeadMs silentLink.2.srttMs ≤ 20000 :=
  outage_bounded "quosh" _ _ _ _ _ silentLink_run (by decide +kernel) (by decide +kernel)

end Cli
end Quosh
