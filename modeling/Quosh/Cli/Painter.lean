/-
# Painting the terminal

`crates/quosh-cli/src/main.rs`: `Painter`, which draws the client's display and the outage
banner and keeps the title of the tab, and skips what the terminal has already.

What the terminal was last given is a `Monitor`.  A write can fail halfway, and then nobody
knows what the terminal shows; it is the same behind a message on standard error.  What the
painter remembers is what the terminal shows (`Painter.Faithful`) unless a write has just
failed, and a paint that succeeds leaves the display there, skipped or not
(`Painter.paint_ok`).
-/

import Quosh.Client.Client

namespace Quosh

/-- `banner_line`, for milliseconds. -/
def bannerLine (elapsedMs : ℕ) : String :=
  " quosh: " ++ toString (elapsedMs / 1000) ++ " seconds without network  [Ctrl-^ . to quit] "

/-- `title_for`. -/
def titleFor (base : String) (outage : Option ℕ) : String :=
  if outage.isSome then base ++ " (offline)" else base

/-- What a write to the terminal comes to; a frame that is written by hand may also be
given up after a write of zero bytes. -/
inductive Written where
  | ok
  | zero
  | wouldBlock
  | failed
  deriving DecidableEq

/-- What the writes of a paint come to. -/
structure Writes where
  title : Written := .ok
  frame : Written := .ok
  banner : Written := .ok

/-- What the terminal shows, as far as that is known: the title, the frame with the line of
the banner, and whether pastes are bracketed. -/
structure Monitor where
  title : Option String := none
  drawn : Option (FrameState × Option String) := none
  paste : Bool := false

/-- A message on standard error scrolls the screen. -/
def Monitor.spoil (m : Monitor) : Monitor := { m with drawn := none }

/-- `Painter`. -/
structure Painter where
  title : String
  shownFrame : Option FrameState := none
  shownBanner : Option String := none
  shownTitle : Option String := none

namespace Painter

/-- `force_repaint`. -/
def forceRepaint (p : Painter) : Painter := { p with shownFrame := none, shownBanner := none }

/-- `paint_title`. -/
def paintTitle (p : Painter) (m : Monitor) (outage : Option ℕ) (w : Written) :
    Written × Painter × Monitor :=
  if p.shownTitle = some (titleFor p.title outage) then (.ok, p, m)
  else if w = .ok then
    (.ok, { p with shownTitle := some (titleFor p.title outage) },
      { m with title := some (titleFor p.title outage) })
  else (w, p, { m with title := none })

/-- The writes of `paint`: the frame, and the banner if there is one. -/
def draw (p : Painter) (m : Monitor) (frame : FrameState) (banner : Option String) (w : Writes) :
    Written × Painter × Monitor :=
  let shown := { p with shownFrame := some frame, shownBanner := banner }
  match w.frame with
  | .ok =>
    if banner.isNone ∨ w.banner = .ok then (.ok, shown, { m with drawn := some (frame, banner) })
    else (w.banner, p, { m with drawn := none })
  | .zero =>
    if banner.isNone ∨ w.banner = .ok then (.ok, shown, { m with drawn := none })
    else (w.banner, p, { m with drawn := none })
  | e => (e, p, { m with drawn := none })

/-- `paint`, for what the client has on display and the outage it reports. -/
def paint (p : Painter) (m : Monitor) (display : Option FrameState) (outage : Option ℕ)
    (w : Writes) : Written × Painter × Monitor :=
  match p.paintTitle m outage w.title with
  | (.ok, p, m) =>
    match display with
    | none => (.ok, p, m)
    | some frame =>
      if p.shownFrame = some frame ∧ p.shownBanner = outage.map bannerLine then (.ok, p, m)
      else p.draw m frame (outage.map bannerLine) w
  | r => r

/-- **What the painter remembers is what the terminal shows.** -/
def Faithful (p : Painter) (m : Monitor) : Prop :=
  ∀ f, p.shownFrame = some f → m.drawn = some (f, p.shownBanner)

variable {p : Painter} {m : Monitor} {display : Option FrameState} {outage : Option ℕ} {w : Writes}

/-- The title has nothing to do with the frame. -/
theorem paintTitle_frame (p : Painter) (m : Monitor) (outage : Option ℕ) (w : Written) :
    (p.paintTitle m outage w).2.1.shownFrame = p.shownFrame ∧
      (p.paintTitle m outage w).2.1.shownBanner = p.shownBanner ∧
      (p.paintTitle m outage w).2.1.title = p.title ∧
      (p.paintTitle m outage w).2.2.drawn = m.drawn := by
  unfold paintTitle
  split_ifs <;> exact ⟨rfl, rfl, rfl, rfl⟩

theorem forceRepaint_faithful (p : Painter) (m : Monitor) : p.forceRepaint.Faithful m :=
  fun _ h => nomatch h

/-- **A paint that succeeds leaves the display on the terminal**, whether it was drawn or was
there already. -/
theorem paint_ok (h : p.Faithful m) (hzero : w.frame ≠ .zero)
    (hok : (p.paint m display outage w).1 = .ok) :
    (p.paint m display outage w).2.1.Faithful (p.paint m display outage w).2.2 ∧
      ∀ f, display = some f →
        (p.paint m display outage w).2.2.drawn = some (f, outage.map bannerLine) := by
  obtain ⟨hframe, hbanner, -, hdrawn⟩ := paintTitle_frame p m outage w.title
  unfold paint at hok ⊢
  rcases hcall : p.paintTitle m outage w.title with ⟨r, p', m'⟩
  rw [hcall] at hok hframe hbanner hdrawn
  dsimp only at hframe hbanner hdrawn
  have hfaithful : p'.Faithful m' := by
    intro f hf
    rw [hdrawn, hbanner]
    exact h f (hframe ▸ hf)
  cases r with
  | ok =>
    dsimp only at hok ⊢
    cases display with
    | none => exact ⟨hfaithful, nofun⟩
    | some frame =>
      dsimp only at hok ⊢
      split at hok
      · rename_i hsame
        rw [if_pos hsame]
        refine ⟨hfaithful, ?_⟩
        rintro _ ⟨⟩
        rw [hfaithful frame hsame.1, hsame.2]
      · rename_i hdiff
        rw [if_neg hdiff]
        unfold draw at hok ⊢
        cases hw : w.frame with
        | ok =>
          rw [hw] at hok
          dsimp only at hok ⊢
          split at hok
          · rename_i hb
            rw [if_pos hb]
            refine ⟨?_, ?_⟩
            · rintro _ ⟨⟩
              rfl
            · rintro _ ⟨⟩
              rfl
          · rename_i hb
            exact absurd (.inr hok) hb
        | zero => exact absurd hw hzero
        | wouldBlock =>
          rw [hw] at hok
          cases hok
        | failed =>
          rw [hw] at hok
          cases hok
  | zero => cases hok
  | wouldBlock => cases hok
  | failed => cases hok

/-- **The title of the tab is the one for the outage** behind a paint that succeeds, as long
as no title failed to be written before. -/
theorem paint_title (h : ∀ t, p.shownTitle = some t → m.title = some t)
    (hok : (p.paint m display outage w).1 = .ok) :
    (p.paint m display outage w).2.2.title = some (titleFor p.title outage) ∧
      (p.paint m display outage w).2.1.shownTitle = some (titleFor p.title outage) := by
  have htitle (hw : (p.paintTitle m outage w.title).1 = .ok) :
      (p.paintTitle m outage w.title).2.2.title = some (titleFor p.title outage) ∧
        (p.paintTitle m outage w.title).2.1.shownTitle = some (titleFor p.title outage) := by
    unfold paintTitle at hw ⊢
    split_ifs at hw ⊢ with hshown htaken
    · exact ⟨h _ hshown, hshown⟩
    · exact ⟨rfl, rfl⟩
    · exact absurd hw htaken
  unfold paint at hok ⊢
  rcases hcall : p.paintTitle m outage w.title with ⟨r, p', m'⟩
  rw [hcall] at hok htitle
  cases r with
  | ok =>
    obtain ⟨hm, hp⟩ := htitle rfl
    dsimp only at hm hp ⊢
    cases display with
    | none => exact ⟨hm, hp⟩
    | some frame =>
      dsimp only
      split
      · exact ⟨hm, hp⟩
      · unfold draw
        dsimp only
        split
        · split <;> exact ⟨hm, hp⟩
        · split <;> exact ⟨hm, hp⟩
        · exact ⟨hm, hp⟩
  | zero => cases hok
  | wouldBlock => cases hok
  | failed => cases hok

end Painter
end Quosh
