/-
# How the command line ends

`run_session` ends well when the client is hung up, and with an error when the input overflows,
the server closes a link that it has not answered, five links in a row fail, a write to the
terminal fails outside a link, or the client refuses what the server says.  `step_over` takes
the last event of a run apart so; everything else connects again.

The program has a place for each thing that it waits for: while it connects, at the head of
the loop of a link, and on the link.  There is one lemma for each (`connecting_over`,
`atHead_over`, `onLink_over`), and one for what comes behind a link (`afterLink_over`), which
most ends go through.
-/

import Quosh.Cli.Watching

namespace Quosh
namespace Cli

variable {σ : Type} {ext : Externals σ} {z : Lz4} {s t : Cli} {c c' : Client σ} {e : Event}
  {w : Writes}

/-- A call never takes a hangup back.  The outgoing parts of the client (`pump`, a ping, the
acknowledgements) do not touch the flag, and no other call writes it but `request_hangup`. -/
theorem Call.hungup (hc : Call ext c c') (h : c.hungup = true) : c'.hungup = true := by
  obtain ⟨hlocal, -⟩ := hc
  cases hlocal with
  | queueInput bytes now => exact (queueInput_quiet ..).hungup.trans h
  | tick now =>
    have hpump := ((@tickPredictor_quiet _ ext) c now).trans (pump_quiet _)
    have hsilence (c : Client σ) (live : Bool) :
        (c.tickSilence live now).2.hungup = c.hungup := by
      unfold Client.tickSilence
      split
      · rfl
      · split
        · rfl
        · dsimp only
          split <;> rfl
    unfold Client.tick
    dsimp only
    rw [hsilence]
    split
    · exact (hpump.trans (maybePing_quiet _ now)).hungup.trans h
    · exact hpump.hungup.trans h
  | pump => exact (pump_quiet c).hungup.trans h
  | advanceOutbound => exact h
  | endConnection => exact h
  | reset => exact h
  | setSize cols rows => exact (setSize_quiet ..).hungup.trans h
  | requestHangup => rfl

/-- Nor do any number of calls. -/
theorem Calls.hungup (hc : Calls ext c c') (h : c.hungup = true) : c'.hungup = true := by
  induction hc with
  | refl => exact h
  | tail _ hcall ih => exact hcall.hungup ih

/-- **Why the program is over** behind an event: the client is hung up, or what went wrong. -/
inductive Verdict (ext : Externals σ) (z : Lz4) (s : Cli) (c : Client σ) (e : Event)
    (c' : Client σ) : Except CliError Unit → Prop
  | hungup (h : c'.hungup = true) : Verdict ext z s c e c' (.ok ())
  | overflow : Verdict ext z s c e c' (.error inputOverflowed)
  | closed : Verdict ext z s c e c' (.error handshakeClosed)
  | gaveUp (n : ℕ) : Verdict ext z s c e c' (.error (gaveUp n))
  | io (wouldBlock : Bool) : Verdict ext z s c e c' (.error (.io wouldBlock))
  | other (msg : String) : Verdict ext z s c e c' (.error (.other msg))
  | refused (bytes : Bytes) (now : ℕ) (err : ClientError) (hplace : s.place = .waiting)
    (he : e = .read bytes now) (hrecv : (c.recvControl ext z bytes now).1 = .error err) :
    Verdict ext z s c e c' (.error (clientFatal err))

/-- The head of the loop of `run_session` ends by a hangup only. -/
theorem loop_over {r : Except CliError Unit} (h : (s.loop c).1.place = .finished r) :
    r = .ok () ∧ (s.loop c).2.hungup = true := by
  unfold loop at h ⊢
  dsimp only at h ⊢
  split at h
  · cases h
    exact ⟨rfl, by assumption⟩
  · cases h

/-- A link whose end ends the program: it was hung up, or one too many, or the error is
fatal. -/
theorem afterLink_over {res : Except CliError LinkEnd} {r : Except CliError Unit}
    (h : (t.afterLink c' res).1.place = .finished r) (hended : res = .ok .ended → c'.hungup = true)
    (hfatal : ∀ msg, res = .error (.fatal msg) → Verdict ext z s c e c' (.error (.fatal msg))) :
    Verdict ext z s c e (t.afterLink c' res).2 r := by
  unfold afterLink at h ⊢
  split at h
  · cases h
    exact .hungup (hended rfl)
  · obtain ⟨rfl, hh⟩ := loop_over h
    exact .hungup hh
  · dsimp only at h ⊢
    split at h
    · cases h
      rename_i hmany
      rw [if_pos hmany]
      exact .gaveUp _
    · rename_i hfew
      rw [if_neg hfew]
      obtain ⟨rfl, hh⟩ := loop_over h
      exact .hungup hh
  · cases h
    exact hfatal _ rfl
  · obtain ⟨rfl, hh⟩ := loop_over h
    exact .hungup hh
  · obtain ⟨rfl, hh⟩ := loop_over h
    exact .hungup hh

/-- The end of a stream ends the program when the handshake was closed, or is one too many. -/
theorem streamEnd_over {r : Except CliError Unit}
    (h : (t.afterLink c' (streamEnd c')).1.place = .finished r) :
    Verdict ext z s c e (t.afterLink c' (streamEnd c')).2 r := by
  unfold streamEnd at h ⊢
  split at h
  · rename_i hanswered
    rw [if_pos hanswered]
    exact afterLink_over h nofun nofun
  · rename_i hsilent
    rw [if_neg hsilent]
    refine afterLink_over h nofun ?_
    rintro _ ⟨⟩
    exact .closed

/-- A transport that fails ends it when it is one too many. -/
theorem transportError_over {r : Except CliError Unit}
    (h : (t.afterLink c' (transportError c')).1.place = .finished r) :
    Verdict ext z s c e (t.afterLink c' (transportError c')).2 r := by
  refine afterLink_over h (fun he => ?_) (fun msg he => ?_)
  · unfold transportError at he
    split at he <;> cases he
  · unfold transportError at he
    split at he <;> cases he

/-- A write that fails ends no session but where the program connects. -/
theorem paintError_over {r : Except CliError Unit} {wr : Written} {err : CliError}
    (herror : wr.error = some err) (h : (t.afterLink c' (.error err)).1.place = .finished r) :
    Verdict ext z s c e (t.afterLink c' (.error err)).2 r := by
  refine afterLink_over h nofun (fun msg he => ?_)
  cases he
  cases wr <;> cases herror

/-- A paint between two links. -/
theorem tickPaint_over {now : ℕ} {r : Except CliError Unit}
    (h : (tickPaint ext t c now w).1.place = .finished r) :
    Verdict ext z s c e (tickPaint ext t c now w).2 r := by
  unfold tickPaint at h ⊢
  dsimp only at h ⊢
  cases herror : (t.paint (c.tick ext now).2 w).1.error with
  | some err =>
    rw [herror] at h
    cases h
    revert herror
    cases (t.paint (c.tick ext now).2 w).1 <;> rintro ⟨⟩ <;> exact .io _
  | none =>
    rw [herror] at h
    obtain ⟨rfl, hh⟩ := loop_over h
    exact .hungup hh

/-- An event where the program connects.  It ends with the loop that it goes back to, if the
client is hung up; on its own only with a terminal that fails, an event channel that is
over, or an overflow of the input.  Every other event leaves the place, which is not the
end. -/
theorem connecting_over (hplace : s.place = .connecting) {r : Except CliError Unit}
    (h : (connecting ext s c e).1.place = .finished r) :
    Verdict ext z s c e (connecting ext s c e).2 r := by
  have hloop {t : Cli} {c' : Client σ} (h : (t.loop c').1.place = .finished r) :
      Verdict ext z s c e (t.loop c').2 r := by
    obtain ⟨rfl, hh⟩ := loop_over h
    exact .hungup hh
  have hstay (h : s.place = .finished r) {p : Prop} : p := by
    rw [hplace] at h
    cases h
  cases e with
  | opened now => cases h
  | rawFailed msg =>
    unfold connecting at h ⊢
    dsimp only at h ⊢
    split at h
    · exact hstay h
    · rename_i hraw
      cases h
      rw [if_neg hraw]
      exact .other _
  | openFailed msg => exact afterLink_over h nofun nofun
  | connectFailed now w =>
    unfold connecting at h ⊢
    dsimp only at h ⊢
    split at h
    · rename_i hraw
      rw [if_pos hraw]
      exact tickPaint_over h
    · rename_i hraw
      rw [if_neg hraw]
      exact hloop h
  | timer now w => exact tickPaint_over h
  | ctrl event size flushed =>
    cases event with
    | none =>
      cases h
      exact .other _
    | some event =>
      cases event with
      | failed m =>
        cases h
        exact .other _
      | overflow =>
        cases h
        exact .overflow
      | interrupt => exact hloop h
      | hangup => exact hloop h
      | eof => exact hloop h
      | winch => exact hloop h
  | typed bytes now => exact hloop h
  | head now w => exact hstay h
  | read bytes now => exact hstay h
  | readEnd => exact hstay h
  | readFailed => exact hstay h
  | datagram bytes now => exact hstay h
  | datagramFailed => exact hstay h
  | wrote n => exact hstay h
  | writeEnd => exact hstay h
  | writeFailed => exact hstay h
  | sleep => exact hstay h

/-- The head of the loop of a link. -/
theorem atHead_over {now : ℕ} {r : Except CliError Unit}
    (h : (atHead ext t c now w).1.place = .finished r) :
    Verdict ext z s c e (atHead ext t c now w).2 r := by
  unfold atHead at h ⊢
  rcases hcall : c.tick ext now with ⟨live, c'⟩
  rw [hcall] at h
  cases live with
  | linkDead => exact transportError_over h
  | alive =>
    dsimp only at h ⊢
    cases herror : (t.paint c' w).1.error with
    | some err =>
      rw [herror] at h
      exact paintError_over herror h
    | none =>
      rw [herror] at h
      dsimp only at h ⊢
      by_cases hh : c'.hungup = true
      · rw [if_pos hh] at h ⊢
        exact afterLink_over h (fun _ => hh) nofun
      · rw [if_neg hh] at h
        cases h

/-- An event where the program waits on a link.  All that ends the link goes through
`after_link`; what the client refuses becomes the fatal error, and a quit has hung the
client up before (`hquit`).  Every other event leaves the place, which is not the end. -/
theorem onLink_over (hplace : s.place = .waiting) {r : Except CliError Unit}
    (h : (onLink ext z s c e).1.place = .finished r) :
    Verdict ext z s c e (onLink ext z s c e).2 r := by
  have hstay (h : s.place = .finished r) {p : Prop} : p := by
    rw [hplace] at h
    cases h
  have hquit (flushed : List ℕ) : (flushBounded flushed c.requestHangup).hungup = true :=
    Calls.hungup ((@flushBounded_calls _ ext) flushed c.requestHangup) rfl
  cases e with
  | read bytes now =>
    unfold onLink at h ⊢
    dsimp only at h ⊢
    rcases hcall : c.recvControl ext z bytes now with ⟨res, c'⟩
    rw [hcall] at h
    cases res with
    | ok u => cases h
    | error err =>
      refine afterLink_over h nofun (fun msg he => ?_)
      have hrefused : Verdict ext z s c (.read bytes now) c' (.error (clientFatal err)) :=
        .refused bytes now err hplace rfl (congrArg Prod.fst hcall)
      rwa [show clientFatal err = .fatal msg from Except.error.inj he] at hrefused
  | readEnd => exact streamEnd_over h
  | readFailed => exact transportError_over h
  | datagram bytes now => cases h
  | datagramFailed => exact transportError_over h
  | wrote n =>
    unfold onLink at h ⊢
    dsimp only at h ⊢
    split at h
    · cases h
    · exact hstay h
  | writeEnd =>
    unfold onLink at h ⊢
    dsimp only at h ⊢
    split at h
    · rename_i hwriting
      rw [if_pos hwriting]
      exact streamEnd_over h
    · exact hstay h
  | writeFailed =>
    unfold onLink at h ⊢
    dsimp only at h ⊢
    split at h
    · rename_i hwriting
      rw [if_pos hwriting]
      exact transportError_over h
    · exact hstay h
  | ctrl event size flushed =>
    cases event with
    | none => exact afterLink_over h (fun _ => hquit _) nofun
    | some event =>
      cases event with
      | failed m => exact afterLink_over h nofun nofun
      | overflow =>
        refine afterLink_over h nofun ?_
        rintro _ ⟨⟩
        exact .overflow
      | winch => cases h
      | eof => exact afterLink_over h (fun _ => hquit _) nofun
      | interrupt => exact afterLink_over h (fun _ => hquit _) nofun
      | hangup => exact afterLink_over h (fun _ => hquit _) nofun
  | typed bytes now =>
    unfold onLink at h ⊢
    dsimp only at h ⊢
    split at h
    · cases h
    · exact hstay h
  | sleep => cases h
  | opened now => exact hstay h
  | rawFailed msg => exact hstay h
  | openFailed msg => exact hstay h
  | connectFailed now w => exact hstay h
  | timer now w => exact hstay h
  | head now w => exact hstay h

/-- **The last event of a run** says why the program is over. -/
theorem step_over (hrunning : ¬Over s.place) {r : Except CliError Unit}
    (h : (step ext z s c e).1.place = .finished r) :
    Verdict ext z s c e (step ext z s c e).2 r := by
  have hstay (h : s.place = .finished r) {p : Prop} : p := absurd ⟨r, h⟩ hrunning
  unfold step at h ⊢
  split at h
  · exact connecting_over ‹_› h
  · split at h
    · exact atHead_over h
    · exact hstay h
  · exact onLink_over ‹_› h
  · exact hstay ‹_›

end Cli
end Quosh
