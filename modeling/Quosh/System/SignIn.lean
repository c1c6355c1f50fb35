/-
# The daemon and the browser agree

Whole visits of a browser (`Quosh.System.Visit`).  A browser that has given up does not change any
more, and the task goes on as with one that waits for ever, so `Visiting` is about that one then.

`sign_in_agrees` is what a browser that has signed in knows, and why one fails.
`let_in_iff` is about the session it is for: its client is let in, unless the session has ended.

`Visiting` is kept by what happens at the daemon, by bytes that come to either side, and by
the ceremony of the browser, with one lemma for each.  The daemon may do anything else in the
meantime, and what it does elsewhere leaves the visit as it is.
-/

import Quosh.Control.Trace
import Quosh.System.Visit

namespace Quosh

open Bytes Web

namespace Visit

open World

/-! ### A whole visit -/

variable {rp : Relying} {i : ℕ} {hello : AuthHello} {P : Prop} {v : Visit} {a : Action}

/-- The daemon and the browser are together, or the browser has given up, and the task goes on as
with a browser that has not. -/
structure Visiting (rp : Relying) (i : ℕ) (hello : AuthHello) (P : Prop) (v : Visit) : Prop where
  run : ∃ clock, (Quosh.world rp).Run World.Draws { clock } v.world
  delivered : v.delivered ≤ v.browser.sent.length
  heard : v.heard ≤ (v.world.conns i).written.length
  stands : (World.Phase v.world i hello P (v.world.stage i) ((v.world.conns i).buf ++ v.undelivered)
      (v.browser.fb.buf ++ v.unheard i) v.browser.stage ∧ v.browser.Settled) ∨
    ∃ e, v.browser.stage = .done (.error e) ∧
      (Fair v.browser.options (v.world.stage i) e ∧ (e.ofCeremony = true → P)) ∧
      ∃ down b, World.Phase v.world i hello P (v.world.stage i)
        ((v.world.conns i).buf ++ v.undelivered) down b ∧ b.result = none

/-- A piece, and what is left behind it. -/
theorem take_append_drop_length (l : Bytes) (n : ℕ) :
    l.take n ++ l.drop (l.take n).length = l := by
  rw [List.length_take]
  rcases Nat.le_total n l.length with hn | hn
  · rw [Nat.min_eq_left hn, List.take_append_drop]
  · rw [Nat.min_eq_right hn, List.take_of_length_le hn, List.drop_length, List.append_nil]

/-- The daemon is orderly. -/
theorem Visiting.orderly (h : Visiting rp i hello P v) : v.world.Orderly := by
  obtain ⟨clock, hrun⟩ := h.run
  exact (orderly_start clock).run hrun

/-- The daemon is one that is reached. -/
theorem Visiting.reachable (h : Visiting rp i hello P v) : v.world.Reachable rp := by
  obtain ⟨clock, hrun⟩ := h.run
  exact ⟨clock, hrun.any⟩

/-- Something happens at the daemon.  What it writes on the connection goes behind what the
browser has not heard yet, and by `Phase.act` the two are together with it. -/
theorem Visiting.daemon (htyped : hello.Typed) (h : Visiting rp i hello P v) {a : Quosh.Action}
    (hallows : v.Allows i (.daemon a)) (hdraws : v.world.Draws a)
    (hpresents : P ∨ (v.world.stage i = .opening → v.world.Presents hello)) :
    Visiting rp i hello P (v.act rp i (.daemon a)) := by
  obtain ⟨hallows, hreceive⟩ := hallows
  have hact {down : Bytes} {b : SignIn} (hphase : World.Phase v.world i hello P (v.world.stage i)
      ((v.world.conns i).buf ++ v.undelivered) down b) :
      Comes v.world (v.world.act rp a) i hello P v.undelivered down b :=
    hphase.act h.reachable.sound h.reachable.traced h.orderly htyped hallows hreceive hpresents
  obtain ⟨clock, hrun⟩ := h.run
  have hsays : ∃ said,
      ((v.world.act rp a).conns i).written = (v.world.conns i).written ++ said := by
    rcases h.stands with ⟨hphase, -⟩ | ⟨e, -, -, down, b, hphase, -⟩
    · obtain ⟨said, hwritten, -⟩ := hact hphase
      exact ⟨said, hwritten⟩
    · obtain ⟨said, hwritten, -⟩ := hact hphase
      exact ⟨said, hwritten⟩
  refine ⟨⟨clock, hrun.act a hallows hdraws⟩, h.delivered, ?_, ?_⟩
  · obtain ⟨said, hwritten⟩ := hsays
    show v.heard ≤ ((v.world.act rp a).conns i).written.length
    rw [hwritten, List.length_append]
    exact h.heard.trans (Nat.le_add_right ..)
  · rcases h.stands with ⟨hphase, hsettled⟩ | ⟨e, hstage, ⟨hfair, hneeds⟩, down, b, hphase, hb⟩
    · refine .inl ⟨?_, hsettled⟩
      obtain ⟨said, hwritten, hcomes⟩ := hact hphase
      have hunheard : (v.act rp i (.daemon a)).unheard i = v.unheard i ++ said := by
        show ((v.world.act rp a).conns i).written.drop v.heard = _
        rw [hwritten, List.drop_append_of_le_length h.heard]
        rfl
      rw [hunheard, ← List.append_assoc]
      exact hcomes
    · obtain ⟨said, -, hcomes⟩ := hact hphase
      refine .inr ⟨e, hstage, ⟨?_, hneeds⟩, _, b, hcomes, hb⟩
      cases hfair with
      | closed => exact .closed
      | unsent message => exact .unsent message
      | needsPasskey hceremony => exact .needsPasskey hceremony
      | rejected reason hclosed => exact .rejected reason (closed_act hallows hclosed)

/-- Bytes come to the daemon.  They move from what is undelivered to the buffer of the
connection, and the two are one stream for the phase. -/
theorem Visiting.deliver (h : Visiting rp i hello P v) (n : ℕ) :
    Visiting rp i hello P (v.act rp i (.deliver n)) := by
  obtain ⟨clock, hrun⟩ := h.run
  let w' := v.world.act rp (.receive i (v.undelivered.take n))
  have hconns : w'.conns i =
      { v.world.conns i with buf := (v.world.conns i).buf ++ v.undelivered.take n } :=
    Function.update_self ..
  have hgrows : Grows v.world.past w'.past :=
    .tick rfl (fun _ _ h => h) (fun _ _ h => h) (fun _ h => h) (fun _ h => h) fun _ h => h
  have hlength : v.delivered + (v.undelivered.take n).length ≤ v.browser.sent.length := by
    have := h.delivered
    unfold undelivered
    rw [List.length_take, List.length_drop]
    omega
  have hup : (w'.conns i).buf ++ (v.act rp i (.deliver n)).undelivered =
      (v.world.conns i).buf ++ v.undelivered := by
    have hrest : (v.act rp i (.deliver n)).undelivered =
        v.undelivered.drop (v.undelivered.take n).length := by
      show v.browser.sent.drop (v.delivered + _) = _
      rw [← List.drop_drop]
      rfl
    rw [hconns, hrest]
    dsimp only
    rw [List.append_assoc, take_append_drop_length]
  have hmono {down : Bytes} {b : SignIn} (hphase : World.Phase v.world i hello P (v.world.stage i)
      ((v.world.conns i).buf ++ v.undelivered) down b) :
      World.Phase w' i hello P (w'.stage i)
        ((w'.conns i).buf ++ (v.act rp i (.deliver n)).undelivered) down b := by
    rw [hup, World.stage, hconns]
    exact hphase.mono hgrows List.prefix_rfl
  have hstage : w'.stage i = v.world.stage i := by rw [World.stage, hconns]
  have hwritten : (w'.conns i).written = (v.world.conns i).written := by rw [hconns]
  refine ⟨⟨clock, hrun.act _ trivial trivial⟩, hlength, hwritten ▸ h.heard, ?_⟩
  rcases h.stands with ⟨hphase, hsettled⟩ | ⟨e, hfailed, hfair, down, b, hphase, hb⟩
  · refine .inl ⟨?_, hsettled⟩
    have hunheard : (v.act rp i (.deliver n)).unheard i = v.unheard i :=
      congrArg (List.drop v.heard) hwritten
    rw [hunheard]
    exact hmono hphase
  · exact .inr ⟨e, hfailed, hstage ▸ hfair, down, b, hmono hphase, hb⟩

/-- Where a browser stands that has taken what it could. -/
theorem Stands.exists_phase {w : World} {s : Stage} {up ahead down : Bytes} {b : SignIn}
    {br : Browser} (hphase : World.Phase w i hello P s up down b) (hb : b.result = none)
    (h : Stands w i hello P s up ahead br) :
    (World.Phase w i hello P s up (br.fb.buf ++ ahead) br.stage ∧ br.Settled) ∨
      ∃ e, br.stage = .done (.error e) ∧ (Fair br.options s e ∧ (e.ofCeremony = true → P)) ∧
        ∃ down b, World.Phase w i hello P s up down b ∧ b.result = none :=
  h.imp_right fun ⟨e, hstage, hfair⟩ => ⟨e, hstage, hfair, down, b, hphase, hb⟩

/-- A browser that waits for bytes has no result. -/
theorem result_of_awaits {b : SignIn} (h : b.awaits = true) : b.result = none := by
  cases b with
  | asking => rfl
  | answering => rfl
  | _ => cases h

/-- Bytes come to the browser.  They move from what is unheard to its buffer; what it takes
of them is `Phase.take`, and a browser that does not wait reads nothing. -/
theorem Visiting.hear (h : Visiting rp i hello P v) (n : ℕ) :
    Visiting rp i hello P (v.act rp i (.hear n)) := by
  show Visiting rp i hello P (if v.browser.awaits then _ else v)
  split
  · rename_i hawaits
    rcases h.stands with ⟨hphase, -⟩ | ⟨e, hfailed, -⟩
    · have hdown : (v.browser.fb.push ((v.unheard i).take n)).buf ++
          (v.world.conns i).written.drop (v.heard + ((v.unheard i).take n).length) =
            v.browser.fb.buf ++ v.unheard i := by
        rw [← List.drop_drop]
        unfold FrameBuffer.push
        dsimp only
        rw [List.append_assoc]
        exact congrArg _ (take_append_drop_length ..)
      let br : Browser := { v.browser with fb := v.browser.fb.push ((v.unheard i).take n) }
      have hstands : Stands v.world i hello P (v.world.stage i)
          ((v.world.conns i).buf ++ v.undelivered)
          ((v.world.conns i).written.drop (v.heard + ((v.unheard i).take n).length)) br.take :=
        World.Phase.take hphase hdown
      have hread : v.browser.read ((v.unheard i).take n) = br.take := by
        unfold Browser.read
        rw [if_pos hawaits]
      rw [hread]
      refine ⟨h.run, ?_, ?_, ?_⟩
      · rw [Browser.sent_take]
        exact h.delivered
      · have hheard := h.heard
        dsimp only
        unfold unheard
        rw [List.length_take, List.length_drop]
        omega
      · unfold undelivered
        dsimp only
        rw [Browser.sent_take]
        exact Stands.exists_phase hphase (result_of_awaits hawaits) hstands
    · unfold Browser.awaits at hawaits
      rw [hfailed] at hawaits
      cases hawaits
  · exact h

/-- The stream of the browser ends. -/
theorem Visiting.eof (h : Visiting rp i hello P v) : Visiting rp i hello P (v.act rp i .eof) := by
  show Visiting rp i hello P { v with browser := v.browser.eof }
  unfold Browser.eof
  split
  · rename_i hawaits
    refine ⟨h.run, h.delivered, h.heard,
      .inr ⟨.closed, rfl, ⟨.closed, by intro h; cases h⟩, ?_⟩⟩
    rcases h.stands with ⟨hphase, -⟩ | ⟨e, -, -, hphase⟩
    · exact ⟨_, _, hphase, result_of_awaits hawaits⟩
    · exact hphase
  · exact h

/-- What the browser writes is behind what it has written. -/
theorem undelivered_append (h : Visiting rp i hello P v) (bytes : Bytes) :
    (v.browser.sent ++ bytes).drop v.delivered = v.undelivered ++ bytes :=
  List.drop_append_of_le_length h.delivered

/-- The ceremony of the browser ends.  It was asked for one, so the phase is `prompting`: a
reply goes out and what is behind the challenge is taken, or the browser fails without
having sent. -/
theorem Visiting.respond (h : Visiting rp i hello P v) (r : Except String Reply) :
    Visiting rp i hello P (v.act rp i (.respond r)) := by
  show Visiting rp i hello P { v with browser := v.browser.respond r }
  unfold Browser.respond
  split
  · rename_i challenge rpId hprompting
    rcases h.stands with ⟨hphase, -⟩ | ⟨e, hfailed, -⟩
    · have hb : v.browser.stage.result = none := by
        rw [hprompting]
        rfl
      have hP : P := (hprompting ▸ hphase).prompted
      split
      · rename_i message
        exact ⟨h.run, h.delivered, h.heard,
          .inr ⟨_, rfl, ⟨.unsent message, fun _ => hP⟩, _, _, hphase, hb⟩⟩
      · rename_i reply
        split
        · rename_i e hencode
          exact ⟨h.run, h.delivered, h.heard,
            .inr ⟨_, rfl, ⟨.unsent e.display, fun _ => hP⟩, _, _, hphase, hb⟩⟩
        · rename_i bytes hencode
          obtain ⟨typ, payload, rfl, hlen⟩ := Reply.exists_of_encode hencode
          let br : Browser :=
            { v.browser with
              stage := .answering, sent := v.browser.sent ++ encodeFrame typ payload }
          have hanswering : World.Phase v.world i hello P (v.world.stage i)
              ((v.world.conns i).buf ++ v.undelivered ++ encodeFrame typ payload)
              (v.browser.fb.buf ++ v.unheard i) .answering :=
            (hprompting ▸ hphase).respond hlen
          have hstands : Stands v.world i hello P (v.world.stage i)
              ((v.world.conns i).buf ++ v.undelivered ++ encodeFrame typ payload)
              (v.unheard i) br.take := World.Phase.take hanswering rfl
          refine ⟨h.run, ?_, h.heard, ?_⟩
          · rw [Browser.sent_take]
            exact h.delivered.trans (by simp)
          · unfold undelivered
            dsimp only
            rw [Browser.sent_take, undelivered_append h, ← List.append_assoc]
            exact Stands.exists_phase hanswering rfl hstands
    · rw [hfailed] at hprompting
      cases hprompting
  · exact h

/-- The client of the browser begins. -/
theorem Visiting.join (h : Visiting rp i hello P v) (cols rows : UInt16) :
    Visiting rp i hello P (v.act rp i (.join cols rows)) := by
  show Visiting rp i hello P { v with browser := v.browser.join cols rows }
  unfold Browser.join
  split
  · rename_i r hdone
    rcases h.stands with ⟨hphase, -⟩ | ⟨e, hfailed, -⟩
    · refine ⟨h.run, h.delivered.trans (by simp), h.heard, .inl ⟨?_, ?_⟩⟩
      swap
      · intro hawaits
        cases hawaits
      unfold undelivered
      dsimp only
      rw [undelivered_append h, ← List.append_assoc]
      exact (hdone ▸ hphase).join cols rows
    · rw [hfailed] at hdone
      cases hdone
  · exact h

/-- The client of the browser writes. -/
theorem Visiting.say (h : Visiting rp i hello P v) (bytes : Bytes) :
    Visiting rp i hello P (v.act rp i (.say bytes)) := by
  show Visiting rp i hello P { v with browser := v.browser.say bytes }
  unfold Browser.say
  split
  · rename_i r hjoined
    rcases h.stands with ⟨hphase, -⟩ | ⟨e, hfailed, -⟩
    · refine ⟨h.run, h.delivered.trans (by simp), h.heard, .inl ⟨?_, fun hawaits => ?_⟩⟩
      · unfold undelivered
        dsimp only
        rw [undelivered_append h, ← List.append_assoc, hjoined]
        exact (hjoined ▸ hphase).say bytes
      · unfold Browser.awaits at hawaits
        dsimp only at hawaits
        rw [hjoined] at hawaits
        cases hawaits
    · rw [hfailed] at hjoined
      cases hjoined
  · exact h

/-- **Every action leaves the two together.** -/
theorem Visiting.act (htyped : hello.Typed) (h : Visiting rp i hello P v)
    (hallows : v.Allows i a) (hdraws : v.Draws a)
    (hpresents : P ∨ ∀ b, a = .daemon b → v.world.stage i = .opening → v.world.Presents hello) :
    Visiting rp i hello P (v.act rp i a) := by
  cases a with
  | daemon a => exact h.daemon htyped hallows hdraws (hpresents.imp_right fun h => h a rfl)
  | deliver n => exact h.deliver n
  | hear n => exact h.hear n
  | eof => exact h.eof
  | respond r => exact h.respond r
  | join cols rows => exact h.join cols rows
  | say bytes => exact h.say bytes

/-- A browser connects. -/
theorem visiting_start {w : World} {o : AuthOptions} {clock : ℤ}
    (hrun : (Quosh.world rp).Run World.Draws { clock } w) (hidle : w.stage i = .idle)
    (hhello : o.hello = .ok hello) : Visiting rp i hello P (start rp i w o) := by
  have hconns : (w.act rp (.accept i)).conns i = { stage := .opening } := Function.update_self ..
  have hstart : Browser.start o = { options := o, sent := hello.encode } := by
    unfold Browser.start
    rw [hhello]
  refine ⟨⟨clock, hrun.act (.accept i) hidle trivial⟩, Nat.zero_le _, Nat.zero_le _, .inl ?_⟩
  unfold start undelivered unheard
  dsimp only
  rw [World.stage, hconns, hstart]
  exact ⟨.opening, fun _ => rfl⟩

/-- **A visit.** -/
theorem visiting_of_run {w : World} {o : AuthOptions} {clock : ℤ}
    (hw : (Quosh.world rp).Run World.Draws { clock } w) (hidle : w.stage i = .idle)
    (hhello : o.hello = .ok hello) (hrun : (visits rp i).Run Draws (start rp i w o) v) :
    Visiting rp i hello True v :=
  hrun.invariant (visiting_start hw hidle hhello) fun _ _ _ ht hallows hok =>
    ht.act (AuthOptions.typed_hello hhello) hallows hok (.inl trivial)

/-! ### Signing in -/

section Phases

variable {w : World} {s : Stage} {up down : Bytes} {b : SignIn}

/-- **What the browser has for an answer** the daemon has answered. -/
theorem granted_of_result (h : World.Phase w i hello P s up down b) {r : AuthResult}
    (hr : b.result = some r) : ∃ a, r = .of a [] ∧ Granted w i hello a := by
  cases h with
  | working hs hb => cases hb <;> cases hr
  | granted m hm hb => cases hb <;> cases hr
  | done m hm => exact ⟨m, (Option.some.inj hr).symm, hm⟩
  | joined m hm cols rows more => exact ⟨m, (Option.some.inj hr).symm, hm⟩
  | attached m hm k handler up hk => exact ⟨m, (Option.some.inj hr).symm, hm⟩
  | closed up hends =>
    cases hends with
    | granted m hm hb => cases hb <;> cases hr
    | done m hm => exact ⟨m, (Option.some.inj hr).symm, hm⟩
    | joined m hm => exact ⟨m, (Option.some.inj hr).symm, hm⟩
    | _ => cases hr
  | _ => cases hr

/-- A browser that is together with the task has not failed. -/
theorem ne_failed (h : World.Phase w i hello P s up down b) (e : AuthError) :
    b ≠ .done (.error e) := by
  rintro rfl
  cases h with
  | working hs hb => cases hb
  | granted m hm hb => cases hb
  | closed up hends =>
    cases hends with
    | granted m hm hb => cases hb

/-- A browser that has taken all of an answer has the result. -/
theorem result_of_authed {br : Browser} {uid : ℕ}
    (h : World.Phase w i hello P (.authed uid) up br.fb.buf br.stage) (hsettled : br.Settled) :
    ∃ r, br.result = some r ∧ r.uid = uid := by
  unfold Browser.result
  generalize hb : br.stage = b at h
  generalize hdown : br.fb.buf = down at h
  cases h with
  | working hs hb => cases hs
  | granted m hm hb' =>
    have hawaits : br.awaits = true := by
      unfold Browser.awaits
      rw [hb]
      cases hb' <;> rfl
    have hnone : (splitFrame br.fb.buf).1 = .ok none := congrArg Prod.fst (hsettled hawaits)
    have hsome := @splitFrame_encode msgAuthOk m.payload (AuthOk.length_payload_lt hm.fits) []
    rw [List.append_nil] at hsome
    rw [hdown, hsome] at hnone
    cases hnone
  | done m hm => exact ⟨_, rfl, rfl⟩
  | joined m hm cols rows more => exact ⟨_, rfl, rfl⟩

/-- A task that is attached has a browser that joined. -/
theorem joined_of_attached {k : ℕ} {handler : Handler}
    (h : World.Phase w i hello P (.attached k handler) up down b) :
    ∃ r, b = .joined r ∧
      w.daemon.identities[k]? = some (r.sessionId, r.sessionToken, r.uid) := by
  cases h with
  | working hs hb => cases hs
  | attached m hm k handler up hk => exact ⟨_, rfl, hk⟩

end Phases

/-- **The daemon and the browser agree.**  Whatever other connections and SSH do, and however the
bytes come, the result of a browser that has signed in is an answer that its own connection was
given: the token is of the user, the session too, and a session that was asked for is the one;
nothing is left over.  A browser fails for a reason of its own, or because the daemon has dropped
it, and never over what the daemon says.  Once it has heard everything, a browser that the daemon
has answered is done; and the daemon attaches the connection to the session of the result alone. -/
theorem sign_in_agrees {w : World} {o : AuthOptions} {clock : ℤ}
    (hw : (Quosh.world rp).Run World.Draws { clock } w) (hidle : w.stage i = .idle)
    (hhello : o.hello = .ok hello) (hrun : (visits rp i).Run Draws (start rp i w o) v) :
    (∀ r, v.browser.result = some r →
      ∃ a, r = .of a [] ∧ Granted v.world i hello a) ∧
    (∀ e, v.browser.stage = .done (.error e) → Fair v.browser.options (v.world.stage i) e) ∧
    (v.unheard i = [] → ∀ uid, v.world.stage i = .authed uid →
      (∃ r, v.browser.result = some r ∧ r.uid = uid) ∨ ∃ e, v.browser.stage = .done (.error e)) ∧
    ∀ k h, v.world.stage i = .attached k h →
      ∃ r, v.browser.stage = .joined r ∧
        v.world.daemon.identities[k]? = some (r.sessionId, r.sessionToken, r.uid) := by
  have hv := visiting_of_run hw hidle hhello hrun
  refine ⟨fun r hr => ?_, fun e he => ?_, fun hheard uid huid => ?_, fun k h hk => ?_⟩
  · rcases hv.stands with ⟨hphase, -⟩ | ⟨e, hfailed, -⟩
    · exact granted_of_result hphase hr
    · unfold Browser.result at hr
      rw [hfailed] at hr
      cases hr
  · rcases hv.stands with ⟨hphase, -⟩ | ⟨e', hfailed, hfair, -⟩
    · rw [he] at hphase
      exact absurd rfl (ne_failed hphase e)
    · rw [hfailed] at he
      cases he
      exact hfair.1
  · rcases hv.stands with ⟨hphase, hsettled⟩ | ⟨e, hfailed, -⟩
    · rw [huid, hheard, List.append_nil] at hphase
      exact .inl (result_of_authed hphase hsettled)
    · exact .inr ⟨e, hfailed⟩
  · rcases hv.stands with ⟨hphase, -⟩ | ⟨e, -, -, down, b, hphase, hb⟩
    · rw [hk] at hphase
      exact joined_of_attached hphase
    · rw [hk] at hphase
      obtain ⟨r, rfl, -⟩ := joined_of_attached hphase
      cases hb

/-- **A browser that has signed in is let in.**  When the hello of its client has come, the task
attaches the connection to the session of the result if the map still has it, and otherwise says
that there is no such session. -/
theorem let_in_iff {w : World} {o : AuthOptions} {clock : ℤ}
    (hw : (Quosh.world rp).Run World.Draws { clock } w) (hidle : w.stage i = .idle)
    (hhello : o.hello = .ok hello) (hrun : (visits rp i).Run Draws (start rp i w o) v)
    {r : AuthResult} (hjoined : v.browser.stage = .joined r) {uid : ℕ}
    (hauthed : v.world.stage i = .authed uid) {env : Env} {typ : UInt8} {payload rest : Bytes}
    (hframe : nextFrame env.eof (v.world.conns i).buf = .frame typ payload rest) :
    ((∃ k h, (v.world.act rp (.turn i env)).stage i = .attached k h) ↔
      ∃ e ∈ v.world.daemon.sessions, e.1 = r.sessionId) ∧
    ((¬∃ e ∈ v.world.daemon.sessions, e.1 = r.sessionId) →
      ((v.world.act rp (.turn i env)).conns i).written =
        (v.world.conns i).written ++ encodeError 2 "unknown session") := by
  have hv := visiting_of_run hw hidle hhello hrun
  rcases hv.stands with ⟨hphase, -⟩ | ⟨e, hfailed, -⟩
  · rw [hauthed, hjoined] at hphase
    generalize hup : (v.world.conns i).buf ++ v.undelivered = up at hphase
    generalize v.browser.fb.buf ++ v.unheard i = down at hphase
    cases hphase with
    | working hs hb => cases hs
    | granted m hm hb => cases hb
    | joined m hm cols rows more =>
      obtain ⟨rfl, rfl, -⟩ := eq_of_nextFrame_append hframe
        ((Hello.length_payload _).trans_lt (by decide)) hup
      have hconns : (v.world.act rp (.turn i env)).conns i =
          (Handshake.onHello v.world.daemon { v.world.conns i with buf := rest } (some m.uid)
            msgHello (Browser.helloOf (.of m []) cols rows).payload).2.1 := by
        have hauthed : (v.world.conns i).stage = .authed m.uid := hauthed
        rw [conns_turn_self]
        unfold Handshake.turn
        rw [hauthed]
        dsimp only
        rw [hframe]
        rfl
      rw [World.stage, hconns]
      obtain ⟨hthere, hgone⟩ :=
        onHello_granted hv.orderly hm cols rows { v.world.conns i with buf := rest }
      refine ⟨⟨?_, fun hsession => ?_⟩, fun hnone => ?_⟩
      · rintro ⟨k, h, hk⟩
        by_contra hnone
        rw [hgone hnone] at hk
        cases hk
      · obtain ⟨k, handler, hattached, -⟩ := hthere hsession
        exact ⟨k, handler, congrArg Handshake.stage hattached⟩
      · rw [hgone hnone]
        rfl
  · rw [hfailed] at hjoined
    cases hjoined

/-! ### A browser that enrols and is let in -/

/-- Whether an action is allowed and draws what is new, where that can be computed. -/
def permits (v : Visit) : Action → Bool
  | .daemon (.turn j env) =>
    World.permits v.world (.turn j env) &&
      decide (env.sessionId ∉ v.world.daemon.identities.map Prod.fst)
  | .daemon _ => false
  | _ => true

theorem allows_of_permits {v : Visit} {a : Action} (h : permits v a = true) (i : ℕ) :
    v.Allows i a ∧ v.Draws a := by
  cases a with
  | daemon a =>
    cases a with
    | turn j env =>
      obtain ⟨hpermits, hnew⟩ := Bool.and_eq_true_iff.1 h
      have hdraws : env.sessionId ∉ v.world.daemon.identities.map Prod.fst :=
        of_decide_eq_true hnew
      refine ⟨⟨World.allows_of_permits hpermits, fun bytes hreceive => ?_⟩, hdraws⟩
      cases hreceive
    | _ => cases h
  | _ => exact ⟨trivial, trivial⟩

/-- A browser without a token, that has a ceremony. -/
def newcomer : AuthOptions := { cols := 80, rows := 24, ceremony := true }

/-- The hello of `newcomer`. -/
def newcomerHello : AuthHello where
  authToken := constBytes 32 0
  sessionId := constBytes 16 0
  sessionToken := constBytes 32 0
  cols := 80
  rows := 24

/-- A daemon that has issued a nonce to a user. -/
def invited : World := (Quosh.world accepting).act {} (.enrollNonce 1000 (constBytes 16 1))

/-- A nonce is issued over SSH. -/
theorem invited_run : (Quosh.world accepting).Run World.Draws {} invited :=
  Machine.Run.refl.act _ rfl (by decide : 1000 < 2 ^ 32)

/-- The browser enrols and signs in, its client begins, and the hello of it comes to the daemon. -/
def enrolling : List Action :=
  [.deliver 200, .daemon (.turn 0 (smooth 1)), .hear 200,
    .respond (.ok (.enroll
      { nonce := constBytes 16 1, clientDataJson := [], attestationObject := [1] })),
    .deliver 200, .daemon (.turn 0 (smooth 1)), .daemon (.turn 0 (smooth 1)),
    .daemon (.turn 0 (smooth 1)), .daemon (.turn 0 (smooth 3)), .hear 200, .join 80 24,
    .deliver 200]

/-- The visit up to there. -/
def admitted : Visit := (visits accepting 0).acts (start accepting 0 invited newcomer) enrolling

/-- A browser enrols a passkey with it. -/
theorem admitted_run :
    (visits accepting 0).Run Draws (start accepting 0 invited newcomer) admitted := by
  have hall : ((visits accepting 0).steps (start accepting 0 invited newcomer) enrolling).all
      (fun st => permits st.1 st.2) = true := by decide +kernel
  exact Machine.run_acts (Machine.allowsAll_of_steps fun st hst =>
    allows_of_permits (List.all_eq_true.1 hall st hst) 0)

/-- The hello of its client. -/
def admittedHello : Hello where
  protocol := protocolVersion
  sessionId := constBytes 16 3
  token := constBytes 32 3
  cols := 80
  rows := 24

/-- The user and the session of a client that has begun. -/
def joinedAs : SignIn → Option (ℕ × FixedBytes 16)
  | .joined r => some (r.uid, r.sessionId)
  | _ => none

/-- It gets the session of the user. -/
theorem admitted_joined : ∃ r, admitted.browser.stage = .joined r ∧ r.uid = 1000 ∧
    r.sessionId = constBytes 16 3 := by
  have hjoined : joinedAs admitted.browser.stage = some (1000, constBytes 16 3) := by
    decide +kernel
  generalize admitted.browser.stage = b at hjoined
  cases b with
  | joined r =>
    obtain ⟨huid, hid⟩ := Prod.mk.inj (Option.some.inj hjoined)
    exact ⟨r, rfl, huid, hid⟩
  | _ => cases hjoined

/-- The hypotheses of `sign_in_agrees` are satisfiable: the browser has the token, and a session,
of the user that the nonce was issued to. -/
theorem sign_in_agrees_admitted : ∃ r, admitted.browser.result = some r ∧ r.uid = 1000 ∧
    ∃ a, r = .of a [] ∧ Granted admitted.world 0 newcomerHello a := by
  obtain ⟨r, hr, huid, -⟩ := admitted_joined
  have hresult : admitted.browser.result = some r := by
    unfold Browser.result
    rw [hr]
    rfl
  have hhello : newcomer.hello = .ok newcomerHello := rfl
  exact ⟨r, hresult, huid, (sign_in_agrees invited_run rfl hhello admitted_run).1 r hresult⟩

/-- The hypotheses of `let_in_iff` are satisfiable: the client is let in. -/
theorem let_in_iff_admitted :
    ∃ k h, (admitted.world.act accepting (.turn 0 (smooth 4))).stage 0 = .attached k h := by
  obtain ⟨r, hr, -, hid⟩ := admitted_joined
  have hauthed : admitted.world.stage 0 = .authed 1000 := eq_authed (by decide +kernel)
  have hbuf : (admitted.world.conns 0).buf = encodeFrame msgHello admittedHello.payload := by
    decide +kernel
  have hframe : nextFrame (smooth 4).eof (admitted.world.conns 0).buf =
      .frame msgHello admittedHello.payload [] := by
    rw [hbuf]
    exact nextFrame_encodeFrame (admittedHello.length_payload.trans_lt (by decide)) _
  have hthere : ∃ e ∈ admitted.world.daemon.sessions, e.1 = r.sessionId := by
    rw [hid]
    decide +kernel
  have hhello : newcomer.hello = .ok newcomerHello := rfl
  exact (let_in_iff invited_run rfl hhello admitted_run hr hauthed hframe).1.2 hthere

end Visit
end Quosh
