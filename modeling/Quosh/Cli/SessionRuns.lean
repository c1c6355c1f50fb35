/-
# Giving up

`run_session` connects again behind every link that was lost, and counts the links that ended
before the server had answered; a link that was answered resets the count.  What an event does
to that count is said once (`Tally`), for each place where the program can be.

So in every run the program gives up exactly behind five links in a row that the server did
not answer (`gives_up_iff`).  Errors of the terminal and a control stream that cannot be
opened are no such links, and are not counted.

The count of the program is a function of how its links ended (`Counted`): every step adds at
most one end to the list (`Tally`), and the count goes with it.
-/

import Quosh.Cli.RunSession

namespace Quosh
namespace Cli

variable {σ : Type} {ext : Externals σ} {z : Lz4} {s t : Cli} {c c' : Client σ}

/-! ### Giving up -/

/-- The links that the server did not answer, behind the last that was lost. -/
def unanswered (ends : List (Bool × LinkEnd)) : ℕ :=
  (ends.reverse.takeWhile fun e => e.2 ≠ .lost).countP fun e => e.2 = .handshakeFailed

/-- One more end of a link: a lost link starts the count again, a failed one adds to it. -/
theorem unanswered_concat (ends : List (Bool × LinkEnd)) (e : Bool × LinkEnd) :
    unanswered (ends ++ [e]) =
      if e.2 = .lost then 0
      else unanswered ends + if e.2 = .handshakeFailed then 1 else 0 := by
  unfold unanswered
  rw [List.reverse_concat, List.takeWhile_cons]
  by_cases hlost : e.2 = .lost
  · simp [hlost]
  · simp [hlost, List.countP_cons]

/-- The program is over. -/
def Over (p : Place) : Prop := ∃ r, p = .finished r

/-- The program has given up. -/
def GaveUp (p : Place) : Prop := ∃ n, p = .finished (.error (gaveUp n))

/-- What a link ends with: lost if the server had answered, failed if it had not, or ended
behind a hangup; and an error does not say that the program gives up. -/
def Outcome (c : Client σ) : Except CliError LinkEnd → Prop
  | .ok .ended => c.hungup = true
  | .ok .lost => c.helloOk = true
  | .ok .handshakeFailed => c.helloOk = false
  | .error e => ∀ n, e ≠ gaveUp n

/-- **What an event does to the record** of the links: nothing, or one more link that ended,
was lost or failed, with the count that goes with it. -/
inductive Tally (s t : Cli) : Prop
  | same (hfailures : t.failures = s.failures) (hends : t.ends = s.ends)
    (hplace : t.place = s.place ∨ ¬Over s.place ∧ ¬GaveUp t.place)
  | ended (ok : Bool) (hrunning : ¬Over s.place) (hfailures : t.failures = s.failures)
    (hends : t.ends = s.ends ++ [(ok, .ended)]) (hplace : ¬GaveUp t.place)
  | lost (hrunning : ¬Over s.place) (hfailures : t.failures = 0)
    (hends : t.ends = s.ends ++ [(true, .lost)]) (hplace : ¬GaveUp t.place)
  | failed (hrunning : ¬Over s.place) (hfailures : t.failures = s.failures + 1)
    (hends : t.ends = s.ends ++ [(false, .handshakeFailed)])
    (hplace : t.failures < maxHandshakeFailures ∧ ¬GaveUp t.place ∨
      maxHandshakeFailures ≤ t.failures ∧ t.place = .finished (.error (gaveUp t.failures)))

/-- An error that begins otherwise does not say that the program gives up. -/
theorem other_ne_gaveUp (m : String) (n : ℕ) : CliError.other m ≠ gaveUp n := by
  intro h
  cases h

/-- An error that begins with another letter. -/
theorem ne_gaveUp {m : String} (h : m.toList.head? ≠ some 'h') (n : ℕ) :
    CliError.fatal m ≠ gaveUp n := by
  intro he
  refine h ?_
  have hm : m = "handshake with quosh-server failed: " ++
      ("gave up after " ++ toString n ++ " transport failures during attach") ++
      " (is quosh-server up to date with this client?)" := CliError.fatal.inj he
  rw [hm]
  simp [String.toList_append]

/-- An overflow of the input does not say so. -/
theorem inputOverflowed_ne (n : ℕ) : inputOverflowed ≠ gaveUp n :=  ne_gaveUp (by simp) n

/-- A closed handshake does not say so. -/
theorem handshakeClosed_ne (n : ℕ) : handshakeClosed ≠ gaveUp n := by
  intro he
  have hm := congrArg String.toList (CliError.fatal.inj he)
  simp only [String.toList_append, List.append_assoc, List.append_cancel_left_eq] at hm
  have hlen := congrArg (List.drop 1) (congrArg (List.take 2) hm)
  simp at hlen

/-- The head of the loop ends by a hangup only. -/
theorem loop_not_gaveUp (s : Cli) (c : Client σ) : ¬GaveUp (s.loop c).1.place := by
  rintro ⟨n, h⟩
  unfold loop at h
  dsimp only at h
  split at h <;> cases h

/-- What has the same record. -/
structure Alike (s t : Cli) : Prop where
  failures : t.failures = s.failures
  ends : t.ends = s.ends
  place : t.place = s.place

/-- A program counts as it did. -/
theorem Alike.rfl : Alike s s := ⟨Eq.refl _, Eq.refl _, Eq.refl _⟩

/-- A step behind a change that counts nothing. -/
theorem Tally.of_alike {u : Cli} (ha : Alike s t) (h : Tally t u) : Tally s u := by
  obtain ⟨hfailures, hends, hplace⟩ := ha
  cases h with
  | same hf he hp => exact .same (hf.trans hfailures) (he.trans hends) (hplace ▸ hp)
  | ended ok hr hf he hp => exact .ended ok (hplace ▸ hr) (hf.trans hfailures) (hends ▸ he) hp
  | lost hr hf he hp => exact .lost (hplace ▸ hr) hf (hends ▸ he) hp
  | failed hr hf he hp => exact .failed (hplace ▸ hr) (hfailures ▸ hf) (hends ▸ he) hp

/-- The head of the loop counts nothing. -/
theorem loop_tally (ha : Alike s t) (hs : ¬Over s.place) (c : Client σ) :
    Tally s (t.loop c).1 :=
  .same ha.failures ha.ends (.inr ⟨hs, loop_not_gaveUp t c⟩)

/-- **The end of a link is counted** by how it ended. -/
theorem afterLink_tally (ha : Alike s t) (hrunning : ¬Over s.place) {r : Except CliError LinkEnd}
    (hr : Outcome c r) : Tally s (t.afterLink c r).1 := by
  have hs : ¬Over t.place := ha.place ▸ hrunning
  refine .of_alike ha ?_
  unfold afterLink
  split
  · exact .ended c.helloOk hs rfl rfl (by rintro ⟨n, ⟨⟩⟩)
  · refine .lost hs rfl ?_ (loop_not_gaveUp _ _)
    rw [show c.helloOk = true from hr]
    rfl
  · dsimp only
    split
    · refine .failed hs rfl ?_ (.inr ⟨by assumption, rfl⟩)
      rw [show c.helloOk = false from hr]
    · refine .failed hs rfl ?_ (.inl ⟨?_, loop_not_gaveUp _ _⟩)
      · rw [show c.helloOk = false from hr]
        rfl
      · exact Nat.lt_of_not_le ‹_›
  · refine .same rfl rfl (.inr ⟨hs, ?_⟩)
    rintro ⟨n, hn⟩
    cases hn
    exact hr n rfl
  · exact .same rfl rfl (.inr ⟨hs, loop_not_gaveUp _ _⟩)
  · exact .same rfl rfl (.inr ⟨hs, loop_not_gaveUp _ _⟩)

/-- A stream that ends is a link that was lost, or a handshake that failed. -/
theorem streamEnd_outcome (c : Client σ) : Outcome c (streamEnd c) := by
  unfold streamEnd
  split
  · assumption
  · exact handshakeClosed_ne

/-- So is a transport that fails. -/
theorem transportError_outcome (c : Client σ) : Outcome c (transportError c) := by
  unfold transportError
  split
  · assumption
  · exact Bool.eq_false_of_not_eq_true ‹_›

/-- The messages of `handle_frame` begin otherwise than the one of `handshake_failed`.  Each
branch that fails has a message of its own, and none begins with an `h`. -/
theorem handleFrame_message {typ : UInt8} {payload : Bytes} {now : ℕ} {m : String}
    (h : (c.handleFrame ext z typ payload now).1 = .error (.fatal m)) :
    m.toList.head? ≠ some 'h' := by
  have hprotocol (e : String) : ("protocol error: " ++ e).toList.head? ≠ some 'h' := by
    simp [String.toList_append]
  unfold Client.handleFrame at h
  split_ifs at h
  · unfold Client.handleHelloOk at h
    split at h
    · cases h
      simp [String.toList_append]
    · split at h
      · cases h
        simp [String.toList_append]
      · cases h
  · split at h
    · cases h
      simp [String.toList_append]
    · unfold Client.applySharedScreen at h
      split at h
      · cases h
      · split at h
        · cases h
          decide
        · cases h
  · cases h
    simp
  · split at h <;> cases h
  · split at h
    · cases h
      exact hprotocol _
    · cases h
  · split at h
    · cases h
      exact hprotocol _
    · cases h
  · split at h
    · cases h
      exact hprotocol _
    · cases h
      simp [String.toList_append]

/-- No message of the client begins like the one that gives up. -/
theorem recvControl_message {bytes : Bytes} {now : ℕ} {m : String}
    (h : (c.recvControl ext z bytes now).1 = .error (.fatal m)) :
    m.toList.head? ≠ some 'h' := by
  have hdrain (fuel : ℕ) (c : Client σ)
      (h : (c.drainFrames ext z now fuel).1 = .error (.fatal m)) :
      m.toList.head? ≠ some 'h' := by
    induction fuel generalizing c with
    | zero => cases h
    | succ fuel ih =>
      rw [Client.drainFrames] at h
      split at h
      · cases h
        simp [String.toList_append]
      · cases h
      · split at h
        · rename_i hframe
          cases h
          exact handleFrame_message (congrArg Prod.fst hframe)
        · exact ih _ h
  exact hdrain _ _ h

/-- A paint counts nothing. -/
theorem paint_alike (s : Cli) (c : Client σ) (w : Writes) : Alike s (s.paint c w).2 :=
  ⟨rfl, rfl, rfl⟩

/-- Nor do the modes of the terminal. -/
theorem applyModes_alike (s : Cli) (mode : ℕ) : Alike s (s.applyModes mode) := by
  unfold applyModes
  dsimp only
  split <;> exact ⟨rfl, rfl, rfl⟩

/-- A write that fails does not say that the program gives up. -/
theorem Written.error_ne {r : Written} {e : CliError} (h : r.error = some e) (n : ℕ) :
    e ≠ gaveUp n := by
  cases r <;> cases h <;> exact nofun

/-- The tick between two links, with a write that may fail. -/
theorem tickPaint_tally (hs : ¬Over s.place) (c : Client σ) (now : ℕ) (w : Writes) :
    Tally s (tickPaint ext s c now w).1 := by
  unfold tickPaint
  dsimp only
  split
  · rename_i herror
    refine .same rfl rfl (.inr ⟨hs, ?_⟩)
    rintro ⟨n, hn⟩
    cases hn
    exact Written.error_ne herror n rfl
  · exact loop_tally (paint_alike ..) hs _

/-- Every event while the program connects.  A link that could not be opened is one more
failure; the other events end no link, and the errors they end with are not that of giving
up. -/
theorem connecting_tally (hplace : s.place = .connecting) (c : Client σ) (e : Event) :
    Tally s (connecting ext s c e).1 := by
  have hs : ¬Over s.place := by
    rintro ⟨r, hr⟩
    rw [hplace] at hr
    cases hr
  have hother (e : CliError) (he : ∀ n, e ≠ gaveUp n) :
      Tally s { s with place := .finished (.error e) } := by
    refine .same rfl rfl (.inr ⟨hs, ?_⟩)
    rintro ⟨n, hn⟩
    cases hn
    exact he n rfl
  cases e with
  | opened now =>
    refine .same rfl rfl (.inr ⟨hs, ?_⟩)
    rintro ⟨n, ⟨⟩⟩
  | rawFailed msg =>
    rw [connecting]
    split
    · exact .same rfl rfl (.inl rfl)
    · exact hother _ (other_ne_gaveUp msg)
  | openFailed msg =>
    have ha : Alike s { s with raw := true } := ⟨rfl, rfl, rfl⟩
    exact afterLink_tally ha hs (r := .error _) (other_ne_gaveUp _)
  | connectFailed now w =>
    rw [connecting]
    split
    · exact tickPaint_tally hs ..
    · have ha : Alike s { s with monitor := s.monitor.spoil } := ⟨rfl, rfl, rfl⟩
      exact loop_tally ha hs c
  | timer now w => exact tickPaint_tally hs ..
  | typed bytes now => exact loop_tally .rfl hs _
  | ctrl e size flushed =>
    cases e with
    | none => exact hother _ (other_ne_gaveUp _)
    | some e =>
      cases e with
      | eof | winch | interrupt | hangup => exact loop_tally .rfl hs _
      | overflow => exact hother _ inputOverflowed_ne
      | failed m => exact hother _ (other_ne_gaveUp _)
  | head | read | readEnd | readFailed | datagram | datagramFailed | wrote | writeEnd |
    writeFailed | sleep => exact .same rfl rfl (.inl rfl)

/-- The head of the loop of a link. -/
theorem atHead_tally (hplace : s.place = .head) (c : Client σ) (now : ℕ) (w : Writes) :
    Tally s (atHead ext s c now w).1 := by
  have hs : ¬Over s.place := by
    rintro ⟨r, hr⟩
    rw [hplace] at hr
    cases hr
  unfold atHead
  rcases c.tick ext now with ⟨live, c'⟩
  cases live with
  | linkDead => exact afterLink_tally .rfl hs (transportError_outcome c')
  | alive =>
    dsimp only
    split
    · rename_i herror
      exact afterLink_tally (paint_alike ..) hs (r := .error _) (Written.error_ne herror)
    · have hmodes : Alike s (if mode c' ≠ (s.paint c' w).2.lastMode then
          (s.paint c' w).2.applyModes (mode c') else (s.paint c' w).2) := by
        split
        · exact ⟨(applyModes_alike ..).failures, (applyModes_alike ..).ends,
            (applyModes_alike ..).place⟩
        · exact paint_alike ..
      split
      · exact afterLink_tally hmodes hs ‹_›
      · refine .same hmodes.failures hmodes.ends (.inr ⟨hs, ?_⟩)
        rintro ⟨n, ⟨⟩⟩

/-- Every event of a link.  The stream and the transport end it as lost or as a failed
handshake, by whether it was answered; what the client refuses and a quit end it otherwise. -/
theorem onLink_tally (hplace : s.place = .waiting) (c : Client σ) (e : Event) :
    Tally s (onLink ext z s c e).1 := by
  have hs : ¬Over s.place := by
    rintro ⟨r, hr⟩
    rw [hplace] at hr
    cases hr
  have hnext (c : Client σ) : Tally s (s.next c).1 := by
    refine .same rfl rfl (.inr ⟨hs, ?_⟩)
    rintro ⟨n, ⟨⟩⟩
  have hstay : Tally s s := .same rfl rfl (.inl rfl)
  cases e with
  | read bytes now =>
    have hmessage := fun m => (@recvControl_message _ ext z c bytes now m)
    rw [onLink]
    rcases hcall : c.recvControl ext z bytes now with ⟨r, c'⟩
    rw [hcall] at hmessage
    cases r with
    | ok u => exact hnext c'
    | error e =>
      obtain ⟨m⟩ := e
      exact afterLink_tally .rfl hs (ne_gaveUp (hmessage m rfl))
  | readEnd => exact afterLink_tally .rfl hs (streamEnd_outcome c)
  | readFailed | datagramFailed => exact afterLink_tally .rfl hs (transportError_outcome c)
  | datagram bytes now => exact hnext _
  | wrote n =>
    rw [onLink]
    split
    · exact hnext _
    · exact hstay
  | writeEnd =>
    rw [onLink]
    split
    · exact afterLink_tally .rfl hs (streamEnd_outcome c)
    · exact hstay
  | writeFailed =>
    rw [onLink]
    split
    · exact afterLink_tally .rfl hs (transportError_outcome c)
    · exact hstay
  | typed bytes now =>
    rw [onLink]
    split
    · exact hnext _
    · exact hstay
  | ctrl e size flushed =>
    have hquit : Tally s (s.afterLink (flushBounded flushed c.requestHangup) (.ok .ended)).1 :=
      .ended _ hs rfl rfl (by rintro ⟨n, ⟨⟩⟩)
    cases e with
    | none => exact hquit
    | some e =>
      cases e with
      | failed m => exact afterLink_tally .rfl hs (r := .error _) (other_ne_gaveUp _)
      | overflow => exact afterLink_tally .rfl hs inputOverflowed_ne
      | winch => exact hnext _
      | eof | interrupt | hangup => exact hquit
  | sleep => exact hnext c
  | opened | rawFailed | openFailed | connectFailed | timer | head => exact hstay

/-- **What an event adds to the ends of links** is what it adds to the count. -/
theorem step_tally (s : Cli) (c : Client σ) (e : Event) : Tally s (step ext z s c e).1 := by
  unfold step
  cases hplace : s.place with
  | connecting => exact connecting_tally hplace c e
  | head =>
    cases e with
    | head now w => exact atHead_tally hplace ..
    | opened | rawFailed | openFailed | connectFailed | timer | ctrl | typed | read | readEnd |
      readFailed | datagram | datagramFailed | wrote | writeEnd | writeFailed | sleep =>
      exact .same rfl rfl (.inl rfl)
  | waiting => exact onLink_tally hplace c e
  | finished r => exact .same rfl rfl (.inl rfl)

/-- **What is known of the record**: the failures are the unanswered links, below five until
the program gives up. -/
structure Counted (s : Cli) : Prop where
  failures : s.failures = unanswered s.ends
  few : s.failures < maxHandshakeFailures ∧ ¬GaveUp s.place ∨
    s.failures = maxHandshakeFailures ∧ s.place = .finished (.error (gaveUp maxHandshakeFailures))
  answered : ∀ e ∈ s.ends, (e.2 = .lost → e.1 = true) ∧ (e.2 = .handshakeFailed → e.1 = false)

/-- A step keeps the count.  A link that was answered sets it back, a failed handshake adds
one, and the step that brings it to the limit is the one that gives up. -/
theorem Counted.tally (h : Counted s) (ht : Tally s t) : Counted t := by
  have hmore (e : Bool × LinkEnd) (hends : t.ends = s.ends ++ [e])
      (he : (e.2 = .lost → e.1 = true) ∧ (e.2 = .handshakeFailed → e.1 = false)) :
      ∀ e ∈ t.ends, (e.2 = .lost → e.1 = true) ∧ (e.2 = .handshakeFailed → e.1 = false) := by
    intro e' he'
    rw [hends, List.mem_append, List.mem_singleton] at he'
    rcases he' with he' | rfl
    · exact h.answered e' he'
    · exact he
  have hrunning (hs : ¬Over s.place) : s.failures < maxHandshakeFailures := by
    rcases h.few with ⟨hlt, -⟩ | ⟨-, hover⟩
    · exact hlt
    · exact absurd ⟨_, hover⟩ hs
  cases ht with
  | same hf he hp =>
    refine ⟨by rw [hf, he, h.failures], ?_, he ▸ h.answered⟩
    rcases hp with hp | ⟨hs, hgave⟩
    · rw [hf, hp]
      exact h.few
    · exact .inl ⟨hf ▸ hrunning hs, hgave⟩
  | ended ok hs hf he hp =>
    refine ⟨?_, .inl ⟨hf ▸ hrunning hs, hp⟩, hmore _ he ⟨nofun, nofun⟩⟩
    rw [he, unanswered_concat, hf, h.failures]
    rfl
  | lost hs hf he hp =>
    refine ⟨?_, .inl ⟨hf ▸ by decide, hp⟩, hmore _ he ⟨fun _ => rfl, nofun⟩⟩
    rw [he, unanswered_concat, hf]
    rfl
  | failed hs hf he hp =>
    refine ⟨?_, ?_, hmore _ he ⟨nofun, fun _ => rfl⟩⟩
    · rw [he, unanswered_concat, hf, h.failures]
      rfl
    · refine hp.imp_right fun ⟨hge, hplace⟩ => ?_
      have hlt := hrunning hs
      have heq : t.failures = maxHandshakeFailures := by omega
      exact ⟨heq, heq ▸ hplace⟩

/-- **The program gives up exactly behind five links in a row that the server did not
answer.**  In every run, however the links end, whatever is typed and whatever the terminal
does: there have been at most five since a link was last lost that the server had answered,
and the program has given up iff there have been five. -/
theorem gives_up_iff (title : String)
    (hrun : (runSession ext z).AnyRun (start title, c) (t, c')) :
    (t.place = .finished (.error (gaveUp maxHandshakeFailures)) ↔
        unanswered t.ends = maxHandshakeFailures) ∧
      unanswered t.ends ≤ maxHandshakeFailures ∧
      ∀ e ∈ t.ends, (e.2 = .lost → e.1 = true) ∧ (e.2 = .handshakeFailed → e.1 = false) := by
  have hcounted : Counted t := by
    refine hrun.invariant (I := fun p => Counted p.1) ⟨rfl, .inl ⟨Nat.zero_lt_succ _, ?_⟩, nofun⟩
      fun p e _ ih _ _ => ih.tally (step_tally p.1 p.2 e)
    rintro ⟨n, ⟨⟩⟩
  rw [← hcounted.failures]
  refine ⟨⟨fun hplace => ?_, fun hfive => ?_⟩, ?_, hcounted.answered⟩
  · exact (hcounted.few.resolve_left fun h => h.2 ⟨_, hplace⟩).1
  · exact (hcounted.few.resolve_left fun h => absurd hfive h.1.ne).2
  · rcases hcounted.few with h | h <;> omega

/-- A new client. -/
def newClient : Client Unit := .new .ascii (constBytes 16 1) (constBytes 32 2) 80 24 false

/-- Five links that fail before the server has answered. -/
def refusing : List Event :=
  (List.replicate 5 [.opened 0, .head 0 {}, .readFailed]).flatten

/-- The program behind five links that fail. -/
def refused : Cli × Client Unit :=
  (runSession .ascii .literal).acts (start "quosh", newClient) refusing

/-- A run in which five links in a row fail. -/
theorem refused_run : (runSession .ascii .literal).AnyRun (start "quosh", newClient) refused :=
  Machine.run_acts (Machine.allowsAll_of_forall (fun _ _ => ⟨trivial, trivial⟩) _ _)

/-- The hypothesis of `gives_up_iff` is satisfiable: five links fail. -/
theorem gives_up_iff_refused : refused.1.place = .finished (.error (gaveUp 5)) :=
  (gives_up_iff "quosh" refused_run).1.2 (by decide +kernel)

end Cli
end Quosh
