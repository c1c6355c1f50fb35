/-
# What a client shows is up to date

The frame on display is a value that the client keeps, and every operation that touches
the confirmed screen or the predictions has to draw it again.  `UpToDate` says that it is
either absent or the confirmed frame with the predictions applied, and every move of a view
keeps that (`Move.upToDate`).  Apart from `reset`, no move takes a frame off the display, and
one that changes the confirmed screen puts one there (`Move.keeps`).

An `Operation` is a call of the public interface; `recv_control` counts as one call with all the
frames it handles, and one that fails leaves the client it had got to.
-/

import Quosh.Client.Display

namespace Quosh

namespace Predictor

variable {σ : Type} {ext : Externals σ} {p : Predictor σ}

/-- **A predictor that is not active draws nothing.** -/
theorem apply_of_not_active (h : p.active = false) (frame : FrameState) :
    p.apply ext frame = frame := by
  unfold active at h
  obtain ⟨hcursors, hcells⟩ := Bool.or_eq_false_iff.1 h
  have hnil : p.cursors = [] := by simpa using hcursors
  have hrow : ∀ r ∈ p.overlays, ∀ c ∈ r.cells, c.base.active = false := by
    simpa using hcells
  unfold apply
  split
  · rfl
  · split
    · rfl
    · rw [hnil]
      refine List.foldlRecOn (motive := fun f => f = frame) p.overlays _ rfl fun f hf r hr => ?_
      refine List.foldlRecOn (motive := fun f => f = frame) r.cells _ hf fun f hf c hc => ?_
      rw [CellOverlay.apply_of_inactive ext (hrow r hr c hc)]
      exact hf

end Predictor

namespace View

variable {σ : Type} (ext : Externals σ)

/-- What is on display, if anything, is the confirmed frame with the predictions applied. -/
def UpToDate (v : View σ) : Prop :=
  ∀ f, v.display = some f → ∃ screen, v.confirmed = some screen ∧
    f = v.predictor.apply ext screen.frame

variable {ext} {v v' v'' : View σ}

/-- A display that was just drawn is up to date. -/
theorem refresh_upToDate (v : View σ) : (v.refresh ext).UpToDate ext := by
  intro f hf
  obtain ⟨screen, hscreen, rfl⟩ := Option.map_eq_some_iff.1 hf
  exact ⟨screen, hscreen, rfl⟩

/-- Something is drawn where a screen is confirmed. -/
theorem isSome_refresh (v : View σ) : (v.refresh ext).display.isSome = v.confirmed.isSome := by
  simp [refresh]

/-- **A move keeps the display up to date.** -/
theorem Move.upToDate (h : Move ext v v') (hv : v.UpToDate ext) : v'.UpToDate ext := by
  cases h with
  | quiet ms => exact hv
  | queued => exact hv
  | install | paste | feed | tick | refresh => exact refresh_upToDate _

/-- What is shown stays shown, and a new confirmed screen is shown. -/
structure Keeps (v v' : View σ) : Prop where
  shown : v.display.isSome → v'.display.isSome
  applied : v'.confirmed ≠ v.confirmed → v'.display.isSome

theorem Keeps.refl (v : View σ) : Keeps v v := ⟨id, fun h => absurd rfl h⟩

theorem Keeps.trans (h : Keeps v v') (h' : Keeps v' v'') : Keeps v v'' where
  shown hs := h'.shown (h.shown hs)
  applied hne := by
    by_cases heq : v'.confirmed = v.confirmed
    · exact h'.applied (heq ▸ hne)
    · exact h'.shown (h.applied heq)

/-- **A move takes nothing off the display.** -/
theorem Move.keeps (h : Move ext v v') (hv : v.UpToDate ext) : Keeps v v' := by
  have hrefresh {w : View σ} (hw : w.confirmed = v.confirmed) : Keeps v (w.refresh ext) := by
    refine ⟨fun hs => ?_, fun hne => absurd hw hne⟩
    obtain ⟨f, hf⟩ := Option.isSome_iff_exists.1 hs
    obtain ⟨screen, hscreen, -⟩ := hv f hf
    rw [isSome_refresh, hw, hscreen]
    rfl
  cases h with
  | quiet | queued => exact ⟨id, fun hne => absurd rfl hne⟩
  | install context screen now h => exact ⟨fun _ => rfl, fun _ => rfl⟩
  | paste => exact hrefresh rfl
  | feed screen bytes now h => exact hrefresh rfl
  | tick screen now h => exact hrefresh rfl
  | refresh => exact hrefresh rfl

end View

namespace Client

variable {σ : Type} (ext : Externals σ) (z : Lz4)

/-- A call of the public interface of a client. -/
inductive Operation
  | queueInput (bytes : Bytes) (now : ℕ)
  | recvControl (bytes : Bytes) (now : ℕ)
  | recvDatagram (bytes : Bytes) (now : ℕ)
  | tick (now : ℕ)
  | pump
  | advanceOutbound (n : ℕ)
  | setSize (cols rows : ℕ)
  | beginConnection (now : ℕ)
  | endConnection
  | reset
  | requestHangup

/-- The client a call leaves, whether it fails or not. -/
def operate (c : Client σ) : Operation → Client σ
  | .queueInput bytes now => c.queueInput ext bytes now
  | .recvControl bytes now => (c.recvControl ext z bytes now).2
  | .recvDatagram bytes now => c.recvDatagram ext z bytes now
  | .tick now => (c.tick ext now).2
  | .pump => c.pump
  | .advanceOutbound n => c.advanceOutbound n
  | .setSize cols rows => c.setSize cols rows
  | .beginConnection now => c.beginConnection now
  | .endConnection => c.endConnection
  | .reset => c.reset
  | .requestHangup => c.requestHangup

/-- The client after some calls. -/
def operates (c : Client σ) (cs : List Operation) : Client σ := cs.foldl (operate ext z) c

variable {ext} {z} {c c' : Client σ}

/-- `recv_control` moves the view, whatever its frames are. -/
theorem recvControl_moves (c : Client σ) (bytes : Bytes) (now : ℕ) :
    Relation.ReflTransGen (View.Move ext) c.view (c.recvControl ext z bytes now).2.view := by
  have hdrain := (@drainFrames_of_frames _ ext z)
    (R := fun c c' => View.Move ext c.view c'.view) (fun _ _ => view_quiet rfl)
    (fun c typ payload => handleFrame_step c typ payload now)
  have hbuffer : View.Move ext c.view
      { c with lastRxMs := if bytes = [] then c.lastRxMs else some now
               recvBuf := c.recvBuf ++ bytes }.view := view_quiet rfl
  exact .head hbuffer (Relation.ReflTransGen.lift view (fun _ _ h => h) _ _ (hdrain _ _))

/-- **A call other than `reset`** moves the view. -/
theorem operate_moves (c : Client σ) {k : Operation} (hk : k ≠ .reset) :
    Relation.ReflTransGen (View.Move ext) c.view (c.operate ext z k).view := by
  cases k with
  | queueInput bytes now => exact .single (queueInput_step ..)
  | recvControl bytes now => exact recvControl_moves ..
  | recvDatagram bytes now => exact .single (recvDatagram_step ..)
  | tick now => exact .single (tick_step c now)
  | pump => exact .single (view_quiet (pump_view c))
  | advanceOutbound => exact .single (view_quiet rfl)
  | setSize cols rows => exact .single (view_quiet (setSize_view c cols rows))
  | beginConnection => exact .single (view_quiet rfl)
  | endConnection => exact .single (view_quiet rfl)
  | reset => exact absurd rfl hk
  | requestHangup => exact .single (view_quiet rfl)

/-- **A call other than `reset`** keeps the display up to date and takes nothing off it. -/
theorem operate_keeps {k : Operation} (hk : k ≠ .reset) (hc : c.view.UpToDate ext) :
    (c.operate ext z k).view.UpToDate ext ∧ View.Keeps c.view (c.operate ext z k).view := by
  have hmoves : Relation.ReflTransGen (View.Move ext) c.view (c.operate ext z k).view :=
    operate_moves c hk
  generalize (c.operate ext z k).view = v at hmoves
  induction hmoves with
  | refl => exact ⟨hc, .refl _⟩
  | tail _ hmove ih => exact ⟨hmove.upToDate ih.1, ih.2.trans (hmove.keeps ih.1)⟩

/-- Every call keeps the display up to date. -/
theorem operate_upToDate (k : Operation) (hc : c.view.UpToDate ext) :
    (c.operate ext z k).view.UpToDate ext := by
  by_cases hk : k = .reset
  · subst hk
    intro f hf
    cases hf
  · exact (operate_keeps hk hc).1

/-- **Any number of calls leave the display up to date.** -/
theorem operates_upToDate (cs : List Operation) (hc : c.view.UpToDate ext) :
    (c.operates ext z cs).view.UpToDate ext := by
  induction cs generalizing c with
  | nil => exact hc
  | cons k cs ih => exact ih (operate_upToDate k hc)

/-- Without a reset, what is shown stays shown. -/
theorem operates_shown {cs : List Operation} (hcs : .reset ∉ cs) (hc : c.view.UpToDate ext)
    (hshown : c.display.isSome) : (c.operates ext z cs).display.isSome := by
  induction cs generalizing c with
  | nil => exact hshown
  | cons k cs ih =>
    have hk : k ≠ .reset := fun he => hcs (he ▸ List.mem_cons_self ..)
    obtain ⟨hc', hkeeps⟩ := operate_keeps (z := z) hk hc
    exact ih (fun h => hcs (List.mem_cons_of_mem _ h)) hc' (hkeeps.shown hshown)

/-- A new client has nothing on display. -/
theorem new_upToDate (sessionId : FixedBytes 16) (token : FixedBytes 32) (cols rows : ℕ)
    (never : Bool) : (new ext sessionId token cols rows never).view.UpToDate ext := by
  intro f hf
  cases hf

/-- What is known of the display of a client: it is absent or the confirmed frame with the
predictions applied, which is the confirmed frame itself while the predictor is not active;
from a call that applies a screen on it is there, and only a reset takes it off. -/
structure NeverStale (ext : Externals σ) (z : Lz4) (c : Client σ) : Prop where
  predicted : ∀ f, c.display = some f →
    ∃ screen, c.confirmed = some screen ∧ f = c.predictor.apply ext screen.frame
  idle : c.predictor.active = false → ∀ f, c.display = some f →
    ∃ screen, c.confirmed = some screen ∧ f = screen.frame
  applied : ∀ k, (c.operate ext z k).confirmed ≠ c.confirmed → ∀ cs, .reset ∉ cs →
    ((c.operate ext z k).operates ext z cs).display.isSome
  kept : c.display.isSome → ∀ cs, .reset ∉ cs → (c.operates ext z cs).display.isSome
  reset : (c.operate ext z .reset).display = none

/-- **The display is never stale**, whatever calls have been made of a client, with whatever
bytes and times, and whether or not they failed. -/
theorem display_never_stale (sessionId : FixedBytes 16) (token : FixedBytes 32) (cols rows : ℕ)
    (never : Bool) (cs : List Operation) :
    NeverStale ext z ((new ext sessionId token cols rows never).operates ext z cs) := by
  have hupToDate :
      ((new ext sessionId token cols rows never).operates ext z cs).view.UpToDate ext :=
    operates_upToDate cs (new_upToDate sessionId token cols rows never)
  refine ⟨hupToDate, fun hidle f hf => ?_, fun k hne cs hcs => ?_, fun hshown cs hcs => ?_, rfl⟩
  · obtain ⟨screen, hscreen, rfl⟩ := hupToDate f hf
    exact ⟨screen, hscreen, Predictor.apply_of_not_active hidle _⟩
  · have hk : k ≠ .reset := by
      rintro rfl
      exact hne rfl
    obtain ⟨hafter, hkeeps⟩ := operate_keeps (z := z) hk hupToDate
    exact operates_shown hcs hafter (hkeeps.applied hne)
  · exact operates_shown hcs hupToDate hshown

end Client
end Quosh
