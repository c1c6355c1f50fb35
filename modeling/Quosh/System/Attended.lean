/-
# The command line and its server

`attended` puts the program of the command line (`runSession`) in front of the server of
`downlink`: what it reads from a link is what the server wrote there, its datagrams were sent,
and everything else it meets, on the network, the keyboard, the clock and the terminal, is
left open.

Every run of it is a run of `downlink` (`act_run`), so what is known of a client is known of
the client of the program.  The program ends well only if the user hung up or with the exit
of the session behind its last screen, and never because of what the server says, unless that
is a rejection (`ends_as_session`).
-/

import Quosh.Cli.Verdicts
import Quosh.System.Farewell

namespace Quosh

/-- The program with the parties it meets; its client is theirs. -/
structure Attended (σ δ : Type) where
  cli : Cli
  link : Downlink σ δ

namespace Attended

variable {σ δ : Type} (ext : Externals σ) (z : Lz4) (drv : Driver δ)

/-- An event of the program, or something that happens elsewhere. -/
inductive Action (σ δ : Type) where
  | cli (e : Cli.Event)
  | server (a : Downlink.Action σ δ)

/-- What happens without the client. -/
def Elsewhere : Downlink.Action σ δ → Prop
  | .greet .. | .reply .. | .serve .. | .close .. | .cut .. | .owner .. => True
  | _ => False

/-- The parties behind what an event brings to the client. -/
def hear (s : Attended σ δ) (e : Cli.Event) : Downlink σ δ :=
  match s.cli.intake e with
  | .connection now => s.link.act ext z drv (.connect now)
  | .bytes bytes now => s.link.act ext z drv (.recv bytes.length now)
  | .datagram bytes now => s.link.act ext z drv (.datagram bytes now)
  | .nothing => s.link

/-- A read takes bytes from the front of what the server wrote, and a datagram was sent. -/
def Allows (s : Attended σ δ) : Action σ δ → Prop
  | .cli e =>
    match s.cli.intake e with
    | .bytes bytes _ => bytes ≠ [] ∧ bytes <+: (s.link.conns s.link.current).wire
    | .datagram bytes _ => bytes ∈ s.link.grams
    | _ => True
  | .server a => Elsewhere a ∧ s.link.Allows ext z drv a

/-- What an action does. -/
def act (s : Attended σ δ) : Action σ δ → Attended σ δ
  | .cli e =>
    match s.cli.step ext z s.link.client e with
    | (cli, c) => { cli, link := (s.hear ext z drv e).act ext z drv (.call c) }
  | .server a => { s with link := s.link.act ext z drv a }

/-- The command line with its server. -/
def attended : Machine (Attended σ δ) (Action σ δ) where
  Allows := Allows ext z drv
  act := act ext z drv

/-- A program behind its first title, with a new client. -/
structure Start (s : Attended σ δ) : Prop where
  cli : ∃ title, s.cli = .start title
  link : s.link.Start ext

variable {ext z drv} {s t : Attended σ δ} {d : Downlink σ δ} {c c' : Client σ}

/-- The program reads bytes that the server wrote. -/
theorem run_read (h : (attended ext z drv).AnyRun s t) (hplace : t.cli.place = .waiting)
    {bytes : Bytes} (hne : bytes ≠ [])
    (hpre : bytes <+: (t.link.conns t.link.current).wire) (now : ℕ) :
    (attended ext z drv).AnyRun s (act ext z drv t (.cli (.read bytes now))) := by
  refine h.act (.cli (.read bytes now)) ?_ trivial
  change Allows ext z drv t (.cli (.read bytes now))
  unfold Allows Cli.intake
  rw [hplace]
  exact ⟨hne, hpre⟩

/-- The program is at the head of its loop. -/
theorem run_head (h : (attended ext z drv).AnyRun s t) (hplace : t.cli.place = .head) (now : ℕ)
    (w : Writes) : (attended ext z drv).AnyRun s (act ext z drv t (.cli (.head now w))) := by
  refine h.act (.cli (.head now w)) ?_ trivial
  change Allows ext z drv t (.cli (.head now w))
  unfold Allows Cli.intake
  rw [hplace]
  trivial

/-! ### A run of the parties -/

/-- A call that changes nothing. -/
theorem call_self (d : Downlink σ δ) : d.act ext z drv (.call d.client) = d := by
  obtain ⟨client, current, conns, grams, session, owner, screens, leaving⟩ := d
  simp [Downlink.act]

/-- **Calls one after the other** are as good as the last. -/
theorem calls_run (h : Cli.Calls ext d.client c) :
    (Downlink.downlink ext z drv).AnyRun d (d.act ext z drv (.call c)) := by
  induction h with
  | refl =>
    rw [call_self]
    exact .refl
  | @tail c c' hcalls hcall ih =>
    have hagain : (d.act ext z drv (.call c)).act ext z drv (.call c') =
        d.act ext z drv (.call c') := by
      have h₁ : d.client.hungup = true → c.hungup = true := Cli.Calls.hungup hcalls
      have h₂ : c.hungup = true → c'.hungup = true := hcall.hungup
      have hleaving : (d.leaving || (c.hungup && !d.client.hungup) ||
          (c'.hungup && !c.hungup)) = (d.leaving || (c'.hungup && !d.client.hungup)) := by
        revert h₁ h₂
        cases d.client.hungup <;> cases c.hungup <;> cases c'.hungup <;> simp
      unfold Downlink.act
      dsimp only
      rw [hleaving]
    rw [← hagain]
    exact ih.act (.call c') hcall.1 trivial

/-- The client hears what the command line says. -/
theorem hear_client {e : Cli.Event} (h : Allows ext z drv s (.cli e)) :
    (s.hear ext z drv e).client = s.cli.hear ext z s.link.client e := by
  unfold hear Cli.hear
  unfold Allows at h
  dsimp only at h
  cases hintake : s.cli.intake e with
  | connection now => rfl
  | bytes bytes now =>
    rw [hintake] at h
    change (s.link.client.recvControl ext z (List.take _ _) now).2 = _
    rw [← List.prefix_iff_eq_take.1 h.2]
  | datagram bytes now => rfl
  | nothing => rfl

/-- **What an event brings is a run of the link.** -/
theorem hear_run {e : Cli.Event} (h : Allows ext z drv s (.cli e)) :
    (Downlink.downlink ext z drv).AnyRun s.link (s.hear ext z drv e) := by
  have hone (a : Downlink.Action σ δ) (ha : s.link.Allows ext z drv a) :
      (Downlink.downlink ext z drv).AnyRun s.link (s.link.act ext z drv a) :=
    Machine.Run.refl.act a ha trivial
  unfold hear
  unfold Allows at h
  dsimp only at h
  cases hintake : s.cli.intake e with
  | connection now => exact hone (.connect now) trivial
  | bytes bytes now => exact hone (.recv bytes.length now) trivial
  | datagram bytes now =>
    rw [hintake] at h
    exact hone (.datagram bytes now) h
  | nothing => exact .refl

/-- **An action is a run of the parties.** -/
theorem act_run {a : Action σ δ} (h : Allows ext z drv s a) :
    (Downlink.downlink ext z drv).AnyRun s.link (act ext z drv s a).link := by
  cases a with
  | cli e =>
    have hcalls := (@Cli.step_calls _ ext z) s.cli s.link.client e
    rw [← hear_client h] at hcalls
    exact (hear_run h).trans (calls_run hcalls)
  | server a => exact Machine.Run.refl.act a h.2 trivial

/-- A run of all is a run of the link. -/
theorem run_link (h : (attended ext z drv).AnyRun s t) :
    (Downlink.downlink ext z drv).AnyRun s.link t.link := by
  induction h with
  | refl => exact .refl
  | act _ a hallows _ ih => exact ih.trans (act_run hallows)

/-- Screens that were published stay so. -/
theorem run_screens {d d' : Downlink σ δ} (h : (Downlink.downlink ext z drv).AnyRun d d') :
    d.screens <+: d'.screens := by
  induction h with
  | refl => exact List.prefix_rfl
  | act _ a _ _ ih => exact ih.trans (@Downlink.screens_grow _ _ ext z drv _ a)

/-! ### How the program ends -/

/-- **What an error of the program goes back to**: the input, the terminal, links that the
server did not answer, or its rejection of the current connection. -/
inductive Blamed (d : Downlink σ δ) : CliError → Prop
  | overflow : Blamed d inputOverflowed
  | closed : Blamed d handshakeClosed
  | gaveUp : Blamed d (Quosh.gaveUp maxHandshakeFailures)
  | io (wouldBlock : Bool) : Blamed d (.io wouldBlock)
  | other (msg : String) : Blamed d (.other msg)
  | rejected (code : ℕ) (msg : String) (h : (d.conns d.current).station = .rejected code msg) :
    Blamed d (.fatal ("server error " ++ toString code ++ ": " ++ msg))

/-- **What a run keeps**: when the program is over, it was hung up or its error has a cause. -/
structure Ends (s : Attended σ δ) : Prop where
  counted : Cli.Counted s.cli
  hungup : s.cli.place = .finished (.ok ()) → s.link.client.hungup = true
  blamed : ∀ err, s.cli.place = .finished (.error err) → Blamed s.link err

/-- What happens elsewhere leaves the client and a rejection alone.  No action of the server
gives a connection that was rejected another station, and a cut only shortens what it
carries. -/
theorem elsewhere_keeps {a : Downlink.Action σ δ} (h : Elsewhere a) (d : Downlink σ δ) :
    (d.act ext z drv a).client = d.client ∧ (d.act ext z drv a).current = d.current ∧
      ∀ code msg, (d.conns d.current).station = .rejected code msg →
        ((d.act ext z drv a).conns d.current).station = .rejected code msg := by
  have hset (i : ℕ) (c : Descent) (d : Downlink σ δ)
      (hc : ∀ code msg, (d.conns i).station = .rejected code msg →
        c.station = .rejected code msg) (code : ℕ) (msg : String) (j : ℕ)
      (hj : (d.conns j).station = .rejected code msg) :
      ((d.setConn i c).conns j).station = .rejected code msg := by
    by_cases hij : j = i
    · subst hij
      rw [Downlink.setConn]
      dsimp only
      rw [Function.update_self]
      exact hc code msg hj
    · rw [Downlink.setConn]
      dsimp only
      rwa [Function.update_of_ne hij]
  -- only a connection that was not rejected gets another station
  have hnot (i : ℕ) {c : Descent} (hi : ∀ code msg, (d.conns i).station ≠ .rejected code msg)
      (code : ℕ) (msg : String) (hj : (d.conns d.current).station = .rejected code msg) :
      ((d.setConn i c).conns d.current).station = .rejected code msg :=
    hset i c d (fun code msg h' => absurd h' (hi code msg)) code msg _ hj
  unfold Downlink.act
  cases a with
  | greet i bytes =>
    dsimp only
    split
    · rename_i hgreeting
      exact ⟨rfl, rfl, hnot i (by rw [hgreeting]; exact nofun)⟩
    · exact ⟨rfl, rfl, fun _ _ hj => hj⟩
  | reply i authUid =>
    dsimp only
    split
    · rename_i hgreeting
      have hi : ∀ code msg, (d.conns i).station ≠ .rejected code msg := by
        rw [hgreeting]
        exact nofun
      split
      · exact ⟨rfl, rfl, fun _ _ hj => hj⟩
      · exact ⟨rfl, rfl, hnot i hi⟩
      · exact ⟨rfl, rfl, hnot i hi⟩
      · exact ⟨rfl, rfl, hnot i hi⟩
    · exact ⟨rfl, rfl, fun _ _ hj => hj⟩
  | serve i b =>
    dsimp only
    split
    · rename_i hserving
      exact ⟨rfl, rfl, hnot i (by rw [hserving]; exact nofun)⟩
    · exact ⟨rfl, rfl, fun _ _ hj => hj⟩
  | close i =>
    dsimp only
    split
    · exact ⟨rfl, rfl, fun _ _ hj => hj⟩
    · rename_i hother
      exact ⟨rfl, rfl, hnot i hother⟩
  | cut i n =>
    refine ⟨rfl, rfl, fun code msg hj => ?_⟩
    exact hset i { d.conns i with wire := (d.conns i).wire.take n, cut := true } d
      (fun _ _ h => h) code msg _ hj
  | owner session o => exact ⟨rfl, rfl, fun _ _ hj => hj⟩
  | resume | call | connect | recv | datagram => exact h.elim

/-- What others do leaves the blame where it is. -/
theorem Blamed.elsewhere {a : Downlink.Action σ δ} (ha : Elsewhere a) {err : CliError}
    (h : Blamed d err) : Blamed (d.act ext z drv a) err := by
  obtain ⟨-, hcurrent, hkeep⟩ := (@elsewhere_keeps _ _ ext z drv a) ha d
  cases h with
  | overflow => exact .overflow
  | closed => exact .closed
  | gaveUp => exact .gaveUp
  | io wouldBlock => exact .io wouldBlock
  | other msg => exact .other msg
  | rejected code msg h => exact .rejected code msg (hcurrent ▸ hkeep code msg h)

/-- Where the program is over, nothing happens to it. -/
theorem act_over {e : Cli.Event} (h : Cli.Over s.cli.place) : act ext z drv s (.cli e) = s := by
  obtain ⟨r, hr⟩ := h
  have hstep : s.cli.step ext z s.link.client e = (s.cli, s.link.client) := by
    unfold Cli.step
    rw [hr]
  have hhear : s.hear ext z drv e = s.link := by
    unfold hear Cli.intake
    rw [hr]
  unfold act
  dsimp only
  rw [hstep, hhear]
  dsimp only
  rw [call_self]

/-- **Every action leaves the two ends together.**  An end of the program is the verdict of
its last event (`Cli.step_over`).  Where the client refuses what it reads, that is the front
of what the server wrote, so it is the error of a rejection (`recv_sound`). -/
theorem Ends.act (hz : z.Documented) (h : Ends s) (hsound : s.link.Sound z)
    (hfit : ∀ p ∈ s.link.screens, p.Encodable) {a : Action σ δ} (ha : Allows ext z drv s a) :
    Ends (act ext z drv s a) := by
  cases a with
  | server a =>
    obtain ⟨hclient, -, -⟩ := (@elsewhere_keeps _ _ ext z drv a) ha.1 s.link
    refine ⟨h.counted, fun hover => ?_, fun err hover => (h.blamed err hover).elsewhere ha.1⟩
    change (s.link.act ext z drv a).client.hungup = true
    rw [hclient]
    exact h.hungup hover
  | cli e =>
    by_cases hover : Cli.Over s.cli.place
    · rw [act_over hover]
      exact h
    · have hverdict := fun r => (@Cli.step_over _ ext z s.cli s.link.client e) hover (r := r)
      have hcounted := h.counted.tally ((@Cli.step_tally _ ext z) s.cli s.link.client e)
      refine ⟨hcounted, fun hplace => ?_, fun err hplace => ?_⟩
      · cases hverdict _ hplace with
        | hungup hh => exact hh
      · have hend := hverdict _ hplace
        generalize hr : (Except.error err : Except CliError Unit) = r at hend
        cases hend with
        | hungup hh => cases hr
        | overflow =>
          cases hr
          exact .overflow
        | closed =>
          cases hr
          exact .closed
        | gaveUp n =>
          cases hr
          rcases hcounted.few with ⟨-, hno⟩ | ⟨-, hfive⟩
          · exact absurd ⟨n, hplace⟩ hno
          · have heq := hplace.symm.trans hfive
            injection heq with heq
            injection heq with heq
            rw [heq]
            exact .gaveUp
        | io wouldBlock =>
          cases hr
          exact .io wouldBlock
        | other msg =>
          cases hr
          exact .other msg
        | refused bytes now err' hwaiting he hrecv =>
          -- what was read is the front of what the server wrote
          cases hr
          subst he
          have hread : bytes ≠ [] ∧ bytes <+: (s.link.conns s.link.current).wire := by
            unfold Allows Cli.intake at ha
            rwa [hwaiting] at ha
          obtain ⟨hexp, -⟩ := (@Downlink.recv_sound _ _ ext) hz hfit hsound bytes.length now
          rw [← List.prefix_iff_eq_take.1 hread.2, hrecv] at hexp
          rcases hexp with hok | ⟨code, msg, hrejected, herr⟩
          · cases hok
          · rw [Except.error.inj herr]
            have hhear : s.hear ext z drv (.read bytes now) =
                s.link.act ext z drv (.recv bytes.length now) := by
              unfold hear Cli.intake
              rw [hwaiting]
            refine .rejected code msg ?_
            change ((s.hear ext z drv (.read bytes now)).conns
              (s.hear ext z drv (.read bytes now)).current).station = _
            rw [hhear]
            change (Function.update s.link.conns s.link.current _ s.link.current).station = _
            rw [Function.update_self]
            exact Descent.rejected_eq_some hrejected

/-- **What holds in every run** as long as the screens that are published in it fit. -/
theorem ends_of_run (hz : z.Documented) (h0 : Start ext s) (hrun : (attended ext z drv).AnyRun s t)
    (hfit : ∀ p ∈ t.link.screens, p.Encodable) : Ends t := by
  obtain ⟨⟨title, htitle⟩, hlink⟩ := h0
  refine hrun.invariant (I := fun t => (∀ p ∈ t.link.screens, p.Encodable) → Ends t)
    (fun _ => ?_) (fun t a hrun ih hallows _ hfit => ?_) hfit
  · rw [← show (⟨s.cli, s.link⟩ : Attended σ δ) = s from rfl, htitle]
    exact ⟨⟨rfl, .inl ⟨Nat.zero_lt_succ _, by rintro ⟨n, ⟨⟩⟩⟩, nofun⟩, nofun, nofun⟩
  · have hprev : ∀ p ∈ t.link.screens, p.Encodable := fun p hp =>
      hfit p ((run_screens (act_run hallows)).subset hp)
    exact (ih hprev).act hz (Downlink.sound_of_run hz hlink (run_link hrun) hprev) hprev hallows

/-- **The program ends as its session does.**  In every run whose published screens fit, with
links that come and go, bytes that arrive in any pieces, datagrams that are lost, and
terminals that fail: a program that has ended well was hung up by its user, or its session has
ended, and then the exit code is the status of the session and the confirmed screen is the
last that was published.  An error is the overflow of the input, a failure of the terminal or
the input, links that the server did not answer, or the rejection that the server wrote; never
is it an objection of the client to what the server says. -/
theorem ends_as_session (hz : z.Documented) (h0 : Start ext s)
    (hrun : (attended ext z drv).AnyRun s t) (hfit : ∀ p ∈ t.link.screens, p.Encodable) :
    (t.cli.place = .finished (.ok ()) → t.link.leaving = true ∨
        t.link.session.exit = some t.link.client.exitCode ∧
          ∃ p, t.link.screens.getLast? = some p ∧ t.link.client.confirmed = some p.clip) ∧
      ∀ err, t.cli.place = .finished (.error err) → Blamed t.link err := by
  have hends := ends_of_run hz h0 hrun hfit
  have hsound := Downlink.sound_of_run hz h0.link (run_link hrun) hfit
  refine ⟨fun hover => ?_, hends.blamed⟩
  refine (hsound.shown.hung (hends.hungup hover)).imp_right ?_
  rintro ⟨hexit, snap, conf, hsnap, hconf, hle⟩
  obtain ⟨p, hp, rfl⟩ := hsound.shown.shown conf hconf
  exact ⟨hexit, p, hsound.numbered.last hsnap hp hle, hconf⟩

/-- A program and a session that has published nothing. -/
def freshAttended : Attended Unit Unit where
  cli := .start "quosh"
  link := Downlink.freshDownlink

/-- The program connects, the shell exits, and the server writes all it has. -/
def visit : Attended Unit Unit :=
  (attended .ascii .literal Owner.stillDriver).acts freshAttended
    [.cli (.opened 0), .cli (.head 0 {}),
      .server (.owner Downlink.freshDownlink.session { driver := (), running := false }),
      .server (.owner Downlink.endedSession { driver := (), version := 1, running := false }),
      .server (.greet 1 (Downlink.freshDownlink.client.beginConnection 0).outbound),
      .server (.reply 1 none), .server (.serve 1 (.exit 7)), .server (.serve 1 (.write 1000)),
      .server (.serve 1 (.write 1000)), .server (.serve 1 (.write 1000))]

theorem visit_run :
    (attended .ascii .literal Owner.stillDriver).AnyRun freshAttended visit :=
  Machine.run_acts ⟨trivial, trivial, trivial, trivial, ⟨trivial, .stop _ _ rfl, nofun⟩, trivial,
    ⟨trivial, .finish _ _ [] 7 rfl rfl (by decide), by rintro _ ⟨⟩; decide⟩, trivial,
    ⟨trivial, trivial⟩, trivial, ⟨trivial, trivial⟩, trivial, ⟨trivial, rfl⟩, trivial,
    ⟨trivial, trivial⟩, trivial, ⟨trivial, trivial⟩, trivial, ⟨trivial, trivial⟩, trivial, trivial⟩

/-- The program reads what the server wrote. -/
def visitRead : Attended Unit Unit :=
  act .ascii .literal Owner.stillDriver visit
    (.cli (.read (visit.link.conns visit.link.current).wire 5))

/-- The program behind the visit. -/
def visited : Attended Unit Unit :=
  act .ascii .literal Owner.stillDriver visitRead (.cli (.head 5 {}))

theorem visited_run :
    (attended .ascii .literal Owner.stillDriver).AnyRun freshAttended visited :=
  run_head (run_read visit_run (by decide +kernel) (by decide +kernel) List.prefix_rfl 5)
    (by decide +kernel) 5 {}

theorem visited_fits : ∀ p ∈ visited.link.screens, p.Encodable := by
  have hscreens : visited.link.screens = Downlink.ended.screens := by decide +kernel
  rw [hscreens]
  exact Downlink.ended_fits

/-- The hypotheses of `ends_as_session` are satisfiable: the program ends with the shell. -/
theorem ends_as_session_visited :
    visited.link.session.exit = some visited.link.client.exitCode ∧
      ∃ p, visited.link.screens.getLast? = some p ∧
        visited.link.client.confirmed = some p.clip :=
  ((ends_as_session Lz4.literal_documented ⟨⟨"quosh", rfl⟩, Downlink.freshDownlink_start⟩
    visited_run visited_fits).1 (by decide +kernel)).resolve_left (by decide +kernel)

end Attended
end Quosh
