/-
# The last screen and the exit

What holds in every run of `downlink` (`Downlink.Sound`): the screens of the owner are
numbered without gaps, what the current connection has still to deliver are answers of the
server (`Downlink.Brings`), with no exit in front of the last screen, and the client shows
what was published.

One lemma says what a client makes of an answer (`handle_answer`), one what it makes of a
read (`recv_sound`), and one each what a handler and the owner do to a connection
(`Brings.moves`, `Sound.owner`).

A connection may be cut at any moment, with bytes on the way, and the client may connect
again.  A new connection brings the latest screen of the session, so nothing that was lost is
missed; and as the exit is queued behind the latest screen, a client that has
read the exit has read that screen before.
-/

import Quosh.System.Downlink
import Quosh.System.Sender

namespace Quosh
namespace Downlink

open Bytes FrameFeed

variable {σ δ : Type} {ext : Externals σ} {z : Lz4} {drv : Driver δ} {s t u : Downlink σ δ}
  {c c' : Client σ} {screens : List Screen} {exit : Option ℤ} {latest : Option Latest}
  {leaving : Bool} {rejected : Option (ℕ × String)} {q : List Frame} {g : Frame}

/-! ### What a client makes of answers -/

/-- A frame that is no exit leaves the exit status alone. -/
theorem handleFrame_exitCode (c : Client σ) (now : ℕ) {typ : UInt8} {payload : Bytes}
    (h : Harmless typ payload) (hexit : typ ≠ msgExit) :
    (c.handleFrame ext z typ payload now).2.exitCode = c.exitCode ∧
      (c.handleFrame ext z typ payload now).2.hungup = c.hungup := by
  unfold Client.handleFrame
  rw [if_neg h.shared, if_neg h.screen, if_neg hexit, if_neg h.error]
  split_ifs with hhello hack hpong
  · obtain ⟨m, hm, hprotocol⟩ := h.hello hhello
    rw [Client.handleHelloOk, hm]
    dsimp only
    rw [if_neg (not_not.2 hprotocol)]
    exact ⟨rfl, rfl⟩
  · obtain ⟨n, hn⟩ := h.ack hack
    rw [hn]
    exact ⟨rfl, rfl⟩
  · unfold Client.handlePong
    cases hping : c.pingSentMs <;> exact ⟨rfl, rfl⟩
  · exact ⟨rfl, rfl⟩

/-- **An answer** is a frame that counts for nothing, a published screen, the exit of the
session, or the error of a rejection. -/
theorem answer_shape {published : Bytes → Prop} (hg : Answer published exit rejected g) :
    IsCtrl g ∧ Harmless g.1 g.2 ∨ (∃ blob, published blob ∧ g = (msgScreen, blob)) ∨
      (∃ status, exit = some status ∧ g = (msgExit, exitPayload status)) ∨
      ∃ code msg, rejected = some (code, msg) ∧ g = (msgError, errorPayload code msg) := by
  cases hg with
  | helloOk p hp =>
    exact .inl ⟨by simp [IsCtrl, IsScreen, IsExit, msgHelloOk, msgScreen, msgExit],
      by simp [msgHelloOk, msgScreen], by simp [msgHelloOk, msgSharedScreen],
      by simp [msgHelloOk, msgError], fun _ => hp, by simp [msgHelloOk, msgInputAck],
      by simp [msgHelloOk, msgExit]⟩
  | inputAck n =>
    exact .inl ⟨by simp [IsCtrl, IsScreen, IsExit, msgInputAck, msgScreen, msgExit],
      by simp [msgInputAck, msgScreen], by simp [msgInputAck, msgSharedScreen],
      by simp [msgInputAck, msgError], by simp [msgInputAck, msgHelloOk],
      fun _ => ⟨_, by rw [decodeU64, if_pos (length_toLe ..)]⟩, by simp [msgInputAck, msgExit]⟩
  | pong =>
    exact .inl ⟨by simp [IsCtrl, IsScreen, IsExit, msgPong, msgScreen, msgExit],
      by simp [msgPong, msgScreen], by simp [msgPong, msgSharedScreen],
      by simp [msgPong, msgError], by simp [msgPong, msgHelloOk], by simp [msgPong, msgInputAck],
      by simp [msgPong, msgExit]⟩
  | screen blob h => exact .inr (.inl ⟨blob, h, rfl⟩)
  | exit status h => exact .inr (.inr (.inl ⟨status, h, rfl⟩))
  | error code msg h => exact .inr (.inr (.inr ⟨code, msg, h, rfl⟩))

/-- What a client makes of a published screen that arrives in a frame. -/
theorem handleFrame_screen (hcontext : c.sharedPrediction = none) {blob : Bytes} {p : Screen}
    (hdecode : Screen.decodeCompressed z blob = .ok p) (now : ℕ) :
    c.handleFrame ext z msgScreen blob now = (.ok (), c.applyScreen ext p now) := by
  unfold Client.handleFrame
  rw [if_neg (by simp [msgScreen, msgHelloOk]), if_neg (by simp [msgScreen, msgSharedScreen]),
    if_pos rfl, if_neg (by rw [hcontext]; exact Bool.false_ne_true), hdecode]

/-- What a client makes of the exit of the session. -/
theorem handleFrame_exit (c : Client σ) {status : ℤ} (hlo : -2 ^ 31 ≤ status)
    (hhi : status < 2 ^ 31) (now : ℕ) :
    c.handleFrame ext z msgExit (exitPayload status) now =
      (.ok (), { c with exitCode := status, hungup := true }) := by
  unfold Client.handleFrame
  rw [if_neg (by simp [msgExit, msgHelloOk]), if_neg (by simp [msgExit, msgSharedScreen]),
    if_neg (by simp [msgExit, msgScreen]), if_neg (by simp [msgExit, msgInputAck]),
    if_neg (by simp [msgExit, msgPong]), if_pos rfl, decodeExit_status hlo hhi]

/-- What a client makes of a rejection. -/
theorem handleFrame_error (c : Client σ) {code : ℕ} {msg : String} (hcode : code < 2 ^ 16)
    (hmsg : (asBytes msg).length < 2 ^ 16) (now : ℕ) :
    c.handleFrame ext z msgError (errorPayload code msg) now =
      (.error (.fatal ("server error " ++ toString code ++ ": " ++ msg)), c) := by
  unfold Client.handleFrame
  rw [if_neg (by simp [msgError, msgHelloOk]), if_neg (by simp [msgError, msgSharedScreen]),
    if_neg (by simp [msgError, msgScreen]), if_neg (by simp [msgError, msgInputAck]),
    if_neg (by simp [msgError, msgPong]), if_neg (by simp [msgError, msgExit]), if_pos rfl,
    decodeError_payload hcode hmsg]

/-- A frame that counts for nothing takes nothing from what is awaited. -/
theorem Awaits.skip (h : Awaits latest (g :: q) c) (hg : IsCtrl g) (hs : Client.Same c c') :
    Awaits latest q c' := by
  rcases h with h | hlatest | ⟨-, h⟩
  · exact .inl (h.same hs)
  · obtain ⟨snap, -, rfl⟩ := hlatest
    exact absurd rfl hg.1
  · exact .inr h

/-- **What a client makes of an answer**: it accepts it, or it is the error of a rejection.
By the shape of the answer: a control frame that is harmless is skipped, a screen was
published and so decodes, and is shown unless a newer one is, an exit is taken, and an error
is returned. -/
theorem handle_answer (hz : z.Documented) (hfit : ∀ p ∈ screens, p.Encodable)
    (hnum : Numbered screens latest z)
    (hstatus : ∀ status, exit = some status → -2 ^ 31 ≤ status ∧ status < 2 ^ 31)
    (hrejected : ∀ code msg, rejected = some (code, msg) →
      code < 2 ^ 16 ∧ (asBytes msg).length < 2 ^ 16)
    (hg : Answer (IsPublished z screens) exit rejected g)
    (h : Shown screens exit latest leaving c) (ha : Awaits latest (g :: q) c) (now : ℕ) :
    Expected rejected (c.handleFrame ext z g.1 g.2 now).1 ∧
      Shown screens exit latest leaving (c.handleFrame ext z g.1 g.2 now).2 ∧
      Awaits latest q (c.handleFrame ext z g.1 g.2 now).2 ∧
      Onward c (c.handleFrame ext z g.1 g.2 now).2 := by
  rcases answer_shape hg with ⟨hctrl, hharmless⟩ | ⟨_, ⟨p, hp, rfl⟩, rfl⟩ | ⟨status, hs, rfl⟩ |
    ⟨code, msg, hr, rfl⟩
  · obtain ⟨hok, hsame⟩ := (@Client.Harmless.handleFrame _ ext z _ _) hharmless c now
    obtain ⟨hcode, hhung⟩ := (@handleFrame_exitCode _ ext z c) now hharmless hctrl.2
    exact ⟨.inl hok, h.same hsame hcode hhung, ha.skip hctrl hsame, .of_eq hsame.confirmed⟩
  · have hdecode := decode_published hz hfit hp
    obtain ⟨hshown, conf, hconf, hle, hold⟩ := (@Shown.applyScreen _ ext _ _ _ _ _ h) hp
      (hnum.pos hp) now
    rw [handleFrame_screen h.context hdecode]
    refine ⟨.inl rfl, hshown, ?_, fun old ho => ⟨conf, hconf, hold old ho⟩⟩
    rcases ha with ⟨snap, old, hsnap, ho, hlo⟩ | ⟨snap, hsnap, heq⟩ | ⟨-, hb⟩
    · exact .inl ⟨snap, conf, hsnap, hconf, hlo.trans (hold old ho)⟩
    · -- the frame is the latest screen, so its blob decodes to that
      refine .inl ⟨snap, conf, hsnap, hconf, le_of_eq_of_le ?_ hle⟩
      obtain ⟨p', hp', hs'⟩ : ∃ p' ∈ screens, snap = ⟨p'.version, p'.encodeCompressed z⟩ := by
        rw [hnum.latest, Option.map_eq_some_iff] at hsnap
        obtain ⟨p', hlast, rfl⟩ := hsnap
        exact ⟨p', List.mem_of_getLast? hlast, rfl⟩
      have hblob : p.encodeCompressed z = p'.encodeCompressed z := by
        rw [hs'] at heq
        exact (Prod.mk.inj heq).2
      have hclip : p.clip = p'.clip := by
        have hdecode' := decode_published hz hfit hp'
        rw [← hblob, hdecode] at hdecode'
        exact Except.ok.inj hdecode'
      rw [hs']
      exact (congrArg Screen.version hclip).symm
    · exact .inr hb
  · have hgot : Got latest c := by
      rcases ha with hgot | ⟨snap, -, heq⟩ | ⟨hno, -⟩
      · exact hgot
      · exact absurd (Prod.mk.inj heq).1 (by simp [msgExit, msgScreen])
      · exact absurd rfl hno
    rw [handleFrame_exit c (hstatus status hs).1 (hstatus status hs).2]
    exact ⟨.inl rfl, ⟨h.context, h.shown, .inr hs, fun _ => .inr ⟨hs, hgot⟩⟩, .inl hgot,
      .of_eq rfl⟩
  · rw [handleFrame_error c (hrejected code msg hr).1 (hrejected code msg hr).2]
    refine ⟨.inr ⟨code, msg, hr, rfl⟩, h, ?_, .refl c⟩
    exact ha.skip (by simp [IsCtrl, IsScreen, IsExit, msgError, msgScreen, msgExit])
      ⟨rfl, rfl, rfl, rfl, rfl⟩

/-- **The loop of `recv_control` on the front of a sequence of frames** handles the frames
that arrived whole, up to the first that fails, and keeps the rest.  What holds of the
frames to come is kept in `I`. -/
theorem drain_queue {I : List Frame → Client σ → Prop} {Ok : Except ClientError Unit → Prop}
    {now : ℕ} (hok : Ok (.ok ()))
    (hbuf : ∀ q c buf, I q c → I q { c with recvBuf := buf })
    (hframe : ∀ f q c, I (f :: q) c → Ok (c.handleFrame ext z f.1 f.2 now).1 ∧
      I q (c.handleFrame ext z f.1 f.2 now).2)
    (hsend : Sendable q) (hI : I q c) (hpre : c.recvBuf <+: streamBytes q) :
    Ok (c.drain ext z now).1 ∧
      ((c.drain ext z now).1 = .ok () →
        splitFrame (c.drain ext z now).2.recvBuf = (.ok none, (c.drain ext z now).2.recvBuf)) ∧
      ∃ done q', q = done ++ q' ∧
        c.recvBuf = streamBytes done ++ (c.drain ext z now).2.recvBuf ∧
        I q' (c.drain ext z now).2 := by
  induction q generalizing c with
  | nil =>
    rw [streamBytes_nil, List.prefix_nil] at hpre
    have hcall : c.drain ext z now = (.ok (), c) := by
      rw [Client.drain, hpre]
      rfl
    rw [hcall]
    exact ⟨hok, fun _ => by rw [hpre]; rfl, [], [], rfl, rfl, hI⟩
  | cons f q ih =>
    rcases splitFrame_of_prefix hsend hpre with ⟨f', q', rest, hcons, hb, hrest, hsplit⟩ |
      ⟨hsplit, -⟩
    · obtain ⟨rfl, rfl⟩ := List.cons.inj hcons
      obtain ⟨hok', hI'⟩ := hframe f q _ (hbuf (f :: q) c rest hI)
      have hkeep := (@Client.handleFrame_recvBuf _ ext z)
        ({ c with recvBuf := rest } : Client σ) f.1 f.2 now
      rw [Client.drain_eq, hsplit]
      dsimp only
      cases hcall : ({ c with recvBuf := rest } : Client σ).handleFrame ext z f.1 f.2 now with
      | mk r c₁ =>
        rw [hcall] at hok' hI' hkeep
        dsimp only at hok' hI' hkeep
        cases r with
        | error e =>
          refine ⟨hok', fun hdone => absurd hdone (by simp), [f], q, rfl, ?_, hI'⟩
          rw [streamBytes_cons, streamBytes_nil, List.append_nil, hkeep]
          exact hb
        | ok x =>
          obtain ⟨hok'', hend, done, q', rfl, hb', hI''⟩ := ih hsend.tail hI' (hkeep ▸ hrest)
          refine ⟨hok'', hend, f :: done, q', rfl, ?_, hI''⟩
          rw [streamBytes_cons, List.append_assoc, ← hb', hkeep]
          exact hb
    · have hcall : c.drain ext z now = (.ok (), c) := by
        rw [Client.drain_eq, hsplit]
      rw [hcall]
      exact ⟨hok, fun _ => hsplit, [], f :: q, rfl, rfl, hI⟩

/-! ### What the current connection brings -/

/-- **What a connection has still to deliver** to a client: answers, and no exit in front
of the last screen.  As long as it is not cut, its handler has the end of them. -/
def Brings (z : Lz4) (s : Downlink σ δ) (c : Client σ) (d : Descent) : Prop :=
  ∃ f q, f.Delivers IsCtrl IsScreen IsExit (c.recvBuf ++ d.wire) q ∧
    (∀ g ∈ q, Answer (IsPublished z s.screens) s.session.exit d.rejected g) ∧
    Awaits s.session.latest q c ∧
    (∀ h, d.station = .serving h → d.cut = false → f = h.feed) ∧
    (∀ buf, d.station = .greeting buf → q = []) ∧
    ∀ code msg, d.rejected = some (code, msg) → code < 2 ^ 16 ∧ (asBytes msg).length < 2 ^ 16

/-- **What holds in every run.** -/
structure Sound (z : Lz4) (s : Downlink σ δ) : Prop where
  numbered : Numbered s.screens s.session.latest z
  version : s.owner.version = s.screens.length
  ended : s.session.exit ≠ none →
    s.owner.running = false ∧ s.session.closed = true ∧ s.session.latest ≠ none
  status : ∀ status, s.session.exit = some status → -2 ^ 31 ≤ status ∧ status < 2 ^ 31
  grams : ∀ b ∈ s.grams, IsPublished z s.screens b
  shown : Shown s.screens s.session.exit s.session.latest s.leaving s.client
  brings : Brings z s s.client (s.conns s.current)

/-- The latest screen is published. -/
theorem Numbered.isPublished (h : Numbered screens latest z) {snap : Latest}
    (hsnap : latest = some snap) : IsPublished z screens snap.blob := by
  rw [h.latest, Option.map_eq_some_iff] at hsnap
  obtain ⟨p, hp, rfl⟩ := hsnap
  exact ⟨p, List.mem_of_getLast? hp, rfl⟩

/-- A published screen fits a frame. -/
theorem length_published_lt (hz : z.Documented) (hfit : ∀ p ∈ screens, p.Encodable) {b : Bytes}
    (hb : IsPublished z screens b) : b.length < maxFrame := by
  obtain ⟨p, hp, rfl⟩ := hb
  have hle := Screen.length_encodeCompressed_le hz (hfit p hp).raw_le
  simp only [maxFrame]
  omega

/-- A connection that has nothing brings nothing. -/
theorem brings_nil (z : Lz4) (s : Downlink σ δ) {c : Client σ} (hbuf : c.recvBuf = [])
    {d : Descent} (hwire : d.wire = []) (hserving : ∀ h, d.station ≠ .serving h)
    (hrejected : d.rejected = none) : Brings z s c d := by
  refine ⟨{}, [], ?_, nofun, .inr trivial, fun h hs => absurd hs (hserving h), fun _ _ => rfl, ?_⟩
  · rw [hbuf, hwire]
    exact delivers_nil
  · rw [hrejected]
    nofun

/-- **Reading keeps a connection in order**, and every frame is accepted but the error of a
rejection. -/
theorem recv_sound (hz : z.Documented) (hfit : ∀ p ∈ s.screens, p.Encodable) (h : Sound z s)
    (n now : ℕ) :
    let c := (s.client.recvControl ext z ((s.conns s.current).wire.take n) now).2
    Expected (s.conns s.current).rejected
        (s.client.recvControl ext z ((s.conns s.current).wire.take n) now).1 ∧
      Shown s.screens s.session.exit s.session.latest s.leaving c ∧ Onward s.client c ∧
      Brings z s c { s.conns s.current with wire := (s.conns s.current).wire.drop n } := by
  obtain ⟨f, q, hd, hanswers, hawaits, hserving, hgreeting, hrejected⟩ := h.brings
  obtain ⟨hsend, hpre⟩ := hd.prefix
  let I : List Frame → Client σ → Prop := fun q c =>
    (∀ g ∈ q, Answer (IsPublished z s.screens) s.session.exit (s.conns s.current).rejected g) ∧
      Shown s.screens s.session.exit s.session.latest s.leaving c ∧
      Awaits s.session.latest q c ∧ Onward s.client c
  have hframe : ∀ f q c, I (f :: q) c →
      Expected (s.conns s.current).rejected (c.handleFrame ext z f.1 f.2 now).1 ∧
        I q (c.handleFrame ext z f.1 f.2 now).2 := by
    rintro f q c ⟨hanswers, hshown, hawaits, honward⟩
    obtain ⟨hexp, hshown', hawaits', honward'⟩ := (@handle_answer _ ext) hz hfit h.numbered
      h.status hrejected (hanswers f List.mem_cons_self) hshown hawaits now
    exact ⟨hexp, fun g hg => hanswers g (List.mem_cons_of_mem _ hg), hshown', hawaits',
      honward.trans honward'⟩
  have hread : s.client.recvBuf ++ (s.conns s.current).wire.take n <+: streamBytes q := by
    refine List.IsPrefix.trans ?_ hpre
    exact (List.prefix_append_right_inj _).2 (List.take_prefix ..)
  obtain ⟨hexp, -, done, q', rfl, hb, hanswers', hshown', hawaits', honward'⟩ :=
    drain_queue (I := I) (.inl rfl) (fun q c buf hI => ⟨hI.1, hI.2.1.buffer c.lastRxMs buf, hI.2.2⟩)
      hframe hsend (c := { s.client with
        lastRxMs := if (s.conns s.current).wire.take n = [] then s.client.lastRxMs else some now
        recvBuf := s.client.recvBuf ++ (s.conns s.current).wire.take n })
      ⟨hanswers, h.shown.buffer _ _, hawaits, .of_eq rfl⟩ hread
  refine ⟨hexp, hshown', honward', f, q', ?_, hanswers', hawaits', hserving, fun buf hbuf => ?_,
    hrejected⟩
  · refine Delivers.handled done ?_
    rw [← List.append_assoc]
    change f.Delivers _ _ _ ((streamBytes done ++ (Client.drain ext z _ now).2.recvBuf) ++ _) _
    rw [← hb]
    dsimp only
    rwa [List.append_assoc, List.take_append_drop]
  · exact (List.append_eq_nil_iff.1 (hgreeting buf hbuf)).2

/-! ### What handlers and the owner do -/

/-- Only what the owner has published matters. -/
theorem Brings.congr {d : Descent} (h : Brings z s c d) (hscreens : t.screens = s.screens)
    (hexit : t.session.exit = s.session.exit) (hlatest : t.session.latest = s.session.latest) :
    Brings z t c d := by
  unfold Brings
  rw [hscreens, hexit, hlatest]
  exact h

/-- Control frames are no exits, and no screens. -/
theorem isCtrl_pong_inputAck (h : g = (msgPong, []) ∨ ∃ n, g = (msgInputAck, toLe 8 n)) :
    IsCtrl g ∧ g.2.length < maxFrame ∧
      ∀ (published : Bytes → Prop) exit rejected, Answer published exit rejected g := by
  rcases h with rfl | ⟨n, rfl⟩
  · exact ⟨by simp [IsCtrl, IsScreen, IsExit, msgPong, msgScreen, msgExit], by decide,
      fun _ _ _ => .pong⟩
  · exact ⟨by simp [IsCtrl, IsScreen, IsExit, msgInputAck, msgScreen, msgExit],
      by simp [maxFrame], fun _ _ _ => .inputAck n⟩

/-- A frame of the latest screen sits in the screen slot. -/
theorem IsLatest.isScreen (h : IsLatest latest g) : IsScreen g := by
  obtain ⟨snap, -, rfl⟩ := h
  rfl

/-- A control frame goes in anywhere. -/
theorem Awaits.insert {a b x : List Frame} (h : Awaits latest (a ++ b) c)
    (hx : ∀ g ∈ x, IsCtrl g) : Awaits latest (a ++ (x ++ b)) c :=
  h.imp_right fun h => h.insert fun g hg => (hx g hg).2

/-- The latest screen takes the place of another one. -/
theorem Awaits.replace {a b x : List Frame} {snap : Latest} (h : Awaits latest (a ++ (x ++ b)) c)
    (hsnap : latest = some snap) :
    Awaits latest (a ++ ([(msgScreen, snap.blob)] ++ b)) c := by
  refine h.imp_right fun h => behind_append.2 ⟨(behind_append.1 h).1, .inr ?_⟩
  exact .inl ⟨snap, hsnap, rfl⟩

/-- The exit goes behind the latest screen, which is no control frame and no exit. -/
theorem Awaits.leave {a b x e : List Frame} (h : Awaits latest (a ++ (b ++ (x ++ e))) c)
    (hmem : Got latest c ∨ ∃ g ∈ a ++ (b ++ (x ++ e)), IsLatest latest g)
    (hb : ∀ g ∈ b, IsCtrl g) (he : ∀ g ∈ e, IsExit g) (fin : Frame) :
    Awaits latest (a ++ (x ++ [fin])) c := by
  have hscreen_exit (g : Frame) (hl : IsLatest latest g) : ¬IsExit g := by
    intro hexit
    have hs := hl.isScreen
    simp [IsScreen, IsExit, msgScreen, msgExit] at hs hexit
    rw [hs] at hexit
    cases hexit
  rcases h with h | h
  · exact .inl h
  · rcases hmem with hgot | ⟨g, hg, hl⟩
    · exact .inl hgot
    · refine .inr ?_
      have hdrop : Behind (IsLatest latest) IsExit (a ++ (x ++ e)) :=
        h.erase fun g hg hl => (hb g hg).1 hl.isScreen
      rw [← List.append_assoc] at hdrop ⊢
      refine behind_append.2 ⟨(behind_append.1 hdrop).1, .inl ⟨g, ?_, hl⟩⟩
      simp only [List.mem_append] at hg ⊢
      rcases hg with hg | hg | hg | hg
      · exact .inl hg
      · exact absurd hl.isScreen (hb g hg).1
      · exact .inr hg
      · exact absurd (he g hg) (hscreen_exit g hl)

/-- What the handler of a connection has still to write. -/
theorem brings_serving {d : Descent} {hd : Handler}
    (hq : hd.feed.Delivers IsCtrl IsScreen IsExit (c.recvBuf ++ d.wire) q)
    (hanswers : ∀ g ∈ q, Answer (IsPublished z s.screens) s.session.exit none g)
    (hawaits : Awaits s.session.latest q c) : Brings z s c { d with station := .serving hd } := by
  refine ⟨hd.feed, q, hq, hanswers, hawaits, fun h hs _ => ?_, nofun, nofun⟩
  cases hs
  rfl

/-- **The exit is queued behind the latest screen.**  `exitFeed` pushes that screen first,
which takes the place of any that waits, and then the exit, which goes to the end: what is
still delivered are the old answers, the screen and the exit, in that order. -/
theorem exit_delivers (hz : z.Documented) (hfit : ∀ p ∈ s.screens, p.Encodable) (hs : Sound z s)
    {f : FrameFeed} {w : Bytes} (hq : f.Delivers IsCtrl IsScreen IsExit w q)
    (hanswers : ∀ g ∈ q, Answer (IsPublished z s.screens) s.session.exit none g)
    (hawaits : Awaits s.session.latest q c) {status : ℤ}
    (hexit : s.session.exit = some status) :
    ∃ q', (Handler.exitFeed s.session.latest f status).Delivers IsCtrl IsScreen IsExit w q' ∧
      (∀ g ∈ q', Answer (IsPublished z s.screens) s.session.exit none g) ∧
      Awaits s.session.latest q' c ∧ ∃ g ∈ q', IsExit g := by
  obtain ⟨-, -, hlatest⟩ := hs.ended (by simp [hexit])
  obtain ⟨snap, hsnap⟩ := Option.ne_none_iff_exists'.1 hlatest
  have hscreen := hs.numbered.isPublished hsnap
  obtain ⟨a, x, e, rfl, -, hq'⟩ := hq.pushScreen (g := (msgScreen, snap.blob))
    (length_published_lt hz hfit hscreen) rfl
  have hawaits' := hawaits.replace (b := e) hsnap
  obtain ⟨a', b', x', e', heq, hb', he', hq''⟩ := hq'.pushFin
    (g := (msgExit, exitPayload status)) (by simp [exitPayload, maxFrame]) rfl
  rw [heq] at hawaits'
  have hmem : ∃ g ∈ a' ++ (b' ++ (x' ++ e')), IsLatest s.session.latest g := by
    rw [← heq]
    exact ⟨(msgScreen, snap.blob), by simp, snap, hsnap, rfl⟩
  have hold (g' : Frame) (hg' : g' ∈ a' ∨ g' ∈ x') :
      Answer (IsPublished z s.screens) s.session.exit none g' := by
    have hin : g' ∈ a ++ ([(msgScreen, snap.blob)] ++ e) := by
      rw [heq]
      simp only [List.mem_append]
      tauto
    simp only [List.mem_append, List.mem_singleton] at hin
    rcases hin with hin | rfl | hin
    · exact hanswers g' (by simp [hin])
    · exact .screen _ hscreen
    · exact hanswers g' (by simp [hin])
  refine ⟨_, by rw [hsnap]; exact hq'', fun g' hg' => ?_, hawaits'.leave (.inr hmem) hb' he' _,
    (msgExit, exitPayload status), by simp, rfl⟩
  simp only [List.mem_append, List.mem_singleton] at hg'
  rcases hg' with hg' | hg' | rfl
  · exact hold g' (.inl hg')
  · exact hold g' (.inr hg')
  · exact .exit status hexit

/-- **What a part of the loop of a handler does to its connection.**  By the move of the
feed: a control frame goes in front of the screens, a screen takes the place of the one that
waits, the exit goes behind both, and a write takes bytes from the feed to the wire.  A
connection that is cut takes no bytes any more and keeps what it has. -/
theorem Brings.moves (hz : z.Documented) (hfit : ∀ p ∈ s.screens, p.Encodable) (hs : Sound z s)
    {d : Descent} (h : Brings z s c d) {hd hd' : Handler} {b : Branch}
    (hstation : d.station = .serving hd)
    (hmoves : Handler.Moves s.session.latest b hd.feed hd'.feed)
    (hexit : ∀ status, b = .exit status → s.session.exit = some status) :
    Brings z s c { d.write (writes hd b) with station := .serving hd' } := by
  obtain ⟨f, q, hq, hanswers, hawaits, hserving, -, -⟩ := h
  have hnot : d.rejected = none := by rw [Descent.rejected, hstation]
  rw [hnot] at hanswers
  have hwrites (hb : ∀ n, b ≠ .write n) : (d.write (writes hd b)).wire = d.wire := by
    have hw : writes hd b = [] := by
      cases b with
      | write n => exact absurd rfl (hb n)
      | _ => rfl
    simp [Descent.write, hw]
  -- a connection that is cut keeps what it has; otherwise the feed of its handler counts
  cases hcut : d.cut with
  | true =>
    refine ⟨f, q, ?_, hanswers, hawaits, fun h _ hc => ?_, nofun, nofun⟩
    · simpa [Descent.write, hcut] using hq
    · change d.cut = false at hc
      rw [hcut] at hc
      cases hc
  | false =>
    obtain rfl := hserving hd hstation hcut
    have hclose {q' : List Frame}
        (hq' : hd'.feed.Delivers IsCtrl IsScreen IsExit
          (c.recvBuf ++ (d.write (writes hd b)).wire) q')
        (ha' : ∀ g ∈ q', Answer (IsPublished z s.screens) s.session.exit none g)
        (hw' : Awaits s.session.latest q' c) :
        Brings z s c { d.write (writes hd b) with station := .serving hd' } :=
      brings_serving hq' ha' hw'
    have hscreen {snap : Latest} (hsnap : s.session.latest = some snap) :=
      hs.numbered.isPublished hsnap
    revert hclose
    generalize hd'.feed = f' at hmoves
    intro hclose
    cases hmoves with
    | same hb =>
      refine hclose ?_ hanswers hawaits
      rw [hwrites hb]
      exact hq
    | ctrl g hg hb =>
      obtain ⟨hctrl, hlen, hanswer⟩ := isCtrl_pong_inputAck hg
      obtain ⟨a, x, rfl, hq'⟩ := hq.pushCtrl hlen hctrl
      rw [hwrites hb] at hclose
      have hnew : ∀ g' ∈ (if (hd.feed.pushCtrl g.bytes).1 then [g] else []), g' = g := by
        split
        · exact fun g' hg' => List.mem_singleton.1 hg'
        · exact fun g' hg' => absurd hg' List.not_mem_nil
      refine hclose hq' (fun g' hg' => ?_) (hawaits.insert fun g' hg' => hnew g' hg' ▸ hctrl)
      rcases List.mem_append.1 hg' with hg' | hg'
      · exact hanswers g' (List.mem_append_left _ hg')
      · rcases List.mem_append.1 hg' with hg' | hg'
        · exact hnew g' hg' ▸ hanswer _ _ _
        · exact hanswers g' (List.mem_append_right _ hg')
    | screen snap hsnap hb =>
      obtain ⟨a, x, e, rfl, -, hq'⟩ := hq.pushScreen (g := (msgScreen, snap.blob))
        (length_published_lt hz hfit (hscreen hsnap)) rfl
      rw [hwrites hb] at hclose
      refine hclose hq' (fun g' hg' => ?_) (hawaits.replace hsnap)
      simp only [List.mem_append, List.mem_singleton] at hg'
      rcases hg' with hg' | rfl | hg'
      · exact hanswers g' (by simp [hg'])
      · exact .screen _ (hscreen hsnap)
      · exact hanswers g' (by simp [hg'])
    | exit status hb =>
      obtain ⟨q', hq', hanswers', hawaits', -⟩ := exit_delivers hz hfit hs hq hanswers hawaits
        (hexit status hb)
      rw [hwrites (by rw [hb]; nofun)] at hclose
      exact hclose hq' hanswers' hawaits'
    | write n hb =>
      subst hb
      refine hclose ?_ hanswers hawaits
      have hadvance := hq.advance n
      simpa [Descent.write, hcut, writes, List.append_assoc] using hadvance

/-- **A connection that attaches** brings the latest screen, and no exit.  Nothing was on
its way while it was greeting; the feed of the new handler holds the `HelloOk`, and the
latest screen behind it if there is one. -/
theorem brings_attach (hz : z.Documented) (hfit : ∀ p ∈ s.screens, p.Encodable) (hs : Sound z s)
    {d : Descent} {buf : Bytes} (hstation : d.station = .greeting buf) (h : Brings z s c d)
    {s' : Session} (hlatest : s'.latest = s.session.latest) (leftover : Bytes)
    (pendingResize : Option (ℕ × ℕ)) :
    Brings z s c { d with station := .serving (Handler.attach s' leftover pendingResize) } := by
  obtain ⟨f, q, hq, -, -, -, hnil, -⟩ := h
  obtain rfl := hnil buf hstation
  have hempty : c.recvBuf ++ d.wire = [] := List.prefix_nil.1 hq.prefix.2
  obtain ⟨p, hp, hlen, hfeed⟩ := Handler.attach_feed s' leftover pendingResize
  have hctrl : IsCtrl (msgHelloOk, p) := by
    simp [IsCtrl, IsScreen, IsExit, msgHelloOk, msgScreen, msgExit]
  obtain ⟨a, x, hnil', hq'⟩ := (delivers_nil (C := IsCtrl) (S := IsScreen) (E := IsExit)).pushCtrl
    (g := (msgHelloOk, p)) (by simp [hlen, maxFrame]) hctrl
  obtain ⟨rfl, rfl⟩ := List.append_eq_nil_iff.1 hnil'.symm
  have hhello : ∀ g ∈ ([] : List Frame) ++
      ((if (({} : FrameFeed).pushCtrl (Frame.bytes (msgHelloOk, p))).1 then [(msgHelloOk, p)]
        else []) ++ []), g = (msgHelloOk, p) := by
    intro g hg
    rw [List.nil_append, List.append_nil] at hg
    split at hg
    · exact List.mem_singleton.1 hg
    · exact absurd hg List.not_mem_nil
  cases hl : s'.latest with
  | none =>
    rw [hl] at hfeed
    refine brings_serving (by rw [hempty, hfeed]; exact hq') (fun g hg => ?_) (.inr ?_)
    · rw [hhello g hg]
      exact .helloOk p hp
    · exact behind_of_forall_not fun g hg => hhello g hg ▸ hctrl.2
  | some snap =>
    have hsnap : s.session.latest = some snap := hlatest ▸ hl
    rw [hl] at hfeed
    obtain ⟨a, x, e, hsplit, -, hq''⟩ := hq'.pushScreen (g := (msgScreen, snap.blob))
      (length_published_lt hz hfit (hs.numbered.isPublished hsnap)) rfl
    have hmem : ∀ g ∈ a ++ ([(msgScreen, snap.blob)] ++ e),
        g = (msgScreen, snap.blob) ∨ g = (msgHelloOk, p) := by
      intro g hg
      simp only [List.mem_append, List.mem_singleton] at hg
      rcases hg with hg | hg | hg
      · exact .inr (hhello g (by rw [hsplit]; simp [hg]))
      · exact .inl hg
      · exact .inr (hhello g (by rw [hsplit]; simp [hg]))
    refine brings_serving (by rw [hempty, hfeed]; exact hq'') (fun g hg => ?_) (.inr ?_)
    · rcases hmem g hg with rfl | rfl
      · exact .screen _ (hs.numbered.isPublished hsnap)
      · exact .helloOk p hp
    · refine behind_of_forall_not fun g hg => ?_
      rcases hmem g hg with rfl | rfl
      · simp [IsExit, msgScreen, msgExit]
      · exact hctrl.2

/-- **A connection that is rejected** brings the error, and nothing else: there was nothing
on its way while it was greeting, and the handler that would write more is never made. -/
theorem brings_reject {d : Descent} {buf : Bytes} (hstation : d.station = .greeting buf)
    (h : Brings z s c d) {code : ℕ} {msg : String} (hcode : code < 2 ^ 16)
    (hmsg : (asBytes msg).length < 2 ^ 16) :
    Brings z s c { d.write (encodeError code msg) with station := .rejected code msg } := by
  obtain ⟨f, q, hq, -, -, -, hnil, -⟩ := h
  obtain rfl := hnil buf hstation
  have hempty : c.recvBuf ++ d.wire = [] := List.prefix_nil.1 hq.prefix.2
  obtain ⟨hbuf, hwire⟩ := List.append_eq_nil_iff.1 hempty
  have hlen : (msgError, errorPayload code msg).2.length < maxFrame := by
    simp [errorPayload, maxFrame]
    omega
  have hbounds : ∀ code' msg', some (code, msg) = some (code', msg') →
      code' < 2 ^ 16 ∧ (asBytes msg').length < 2 ^ 16 := by
    rintro _ _ ⟨⟩
    exact ⟨hcode, hmsg⟩
  have hnot : ¬IsExit (msgError, errorPayload code msg) := by
    simp [IsExit, msgError, msgExit]
  cases hcut : d.cut with
  | true =>
    refine ⟨f, [], ?_, fun g hg => absurd hg List.not_mem_nil, .inr trivial,
      (fun hd hs => by cases hs), fun _ _ => rfl, hbounds⟩
    simpa [Descent.write, hcut] using hq
  | false =>
    refine ⟨{}, [(msgError, errorPayload code msg)], ?_, fun g hg => ?_,
      .inr (behind_of_forall_not fun g hg => ?_), (fun hd hs => by cases hs),
      (fun buf hs => by cases hs), hbounds⟩
    · have hb : ({} : FrameFeed).Delivers IsCtrl IsScreen IsExit (encodeError code msg)
          [(msgError, errorPayload code msg)] := delivers_bytes hlen
      simpa [Descent.write, hcut, hbuf, hwire] using hb
    · rw [List.mem_singleton.1 hg]
      exact .error code msg rfl
    · rw [List.mem_singleton.1 hg]
      exact hnot

/-- What a turn of the owner does to the exit status: nothing, or the loop is over and the
last screen is published. -/
theorem owner_exit {s s' : Session} {o o' : Owner δ} (h : Owner.Step drv z s o s' o') :
    (o.running = true ∨ s.closed = false) ∧
      (s'.exit = s.exit ∨ o'.running = false ∧ s'.closed = true ∧ s'.latest ≠ none) := by
  have hpublish (o : Owner δ) (s : Session) :
      (Owner.generatedPublish drv z s o).1.exit = s.exit := by
    unfold Owner.generatedPublish
    split <;> rfl
  cases h with
  | stop hrun => exact ⟨.inl hrun, .inl rfl⟩
  | output bytes hrun => exact ⟨.inl hrun, .inl (hpublish _ _)⟩
  | write n now hrun hn => exact ⟨.inl hrun, .inl rfl⟩
  | recv msg rest hrun hmore hcmds =>
    refine ⟨.inl hrun, .inl ?_⟩
    unfold Owner.onMsg
    cases msg with
    | input seq data =>
      dsimp only
      split_ifs <;> rfl
    | resize cols rows =>
      dsimp only
      split <;> rfl
    | ack version => rfl
  | sync hrun => exact ⟨.inl hrun, .inl (hpublish _ _)⟩
  | echo now hrun =>
    refine ⟨.inl hrun, .inl ?_⟩
    unfold Owner.onEcho
    dsimp only
    split <;> rfl
  | finish reads status hrun hopen hreads =>
    exact ⟨.inr hopen, .inr ⟨rfl, rfl, Option.some_ne_none _⟩⟩

/-- **A turn of the owner publishes the next screen, or none.** -/
theorem Numbered.owner {s s' : Session} {o o' : Owner δ} (h : Numbered screens s.latest z)
    (hversion : o.version = screens.length) (hstep : Owner.Step drv z s o s' o') :
    Numbered (screens ++ published drv o o') s'.latest z ∧
      o'.version = (screens ++ published drv o o').length := by
  obtain ⟨now, seen, hturn⟩ := Owner.step_iff_turn.1 hstep
  rcases hturn.publishes with ⟨hv, hl⟩ | ⟨hv, hl⟩
  · rw [published, if_pos hv, List.append_nil, hl, hv]
    exact ⟨h, hversion⟩
  · rw [published, if_neg (by omega)]
    refine ⟨⟨?_, ?_⟩, by simp; omega⟩
    · rw [List.map_append, h.versions, List.length_append, List.length_singleton,
        List.range'_concat]
      simp [publishedScreen, hversion]
      omega
    · rw [hl, List.getLast?_concat]
      rfl

/-- **The owner takes a turn.**  It may publish a screen, which gets the next version, or
end the session; both only add to what may be shown.  As it still ran there was no exit on
its way, so what the connection brings is behind no exit now either. -/
theorem Sound.owner (h : Sound z s) {session : Session} {o : Owner δ}
    (hstep : Owner.Step drv z s.session s.owner session o)
    (hstatus : ∀ status, session.exit = some status → -2 ^ 31 ≤ status ∧ status < 2 ^ 31) :
    Sound z { s with session, owner := o, screens := s.screens ++ published drv s.owner o } := by
  obtain ⟨hrun, hexit⟩ := owner_exit hstep
  have hnone : s.session.exit = none := by
    by_contra hne
    obtain ⟨hstopped, hclosed, -⟩ := h.ended hne
    rcases hrun with hrun | hopen
    · rw [hstopped] at hrun
      cases hrun
    · rw [hclosed] at hopen
      cases hopen
  obtain ⟨hnum, hversion⟩ := h.numbered.owner h.version hstep
  have hsub : ∀ b, IsPublished z s.screens b →
      IsPublished z (s.screens ++ published drv s.owner o) b := by
    rintro b ⟨p, hp, rfl⟩
    exact ⟨p, List.mem_append_left _ hp, rfl⟩
  refine ⟨hnum, hversion, fun hne => ?_, hstatus, fun b hb => hsub b (h.grams b hb), ?_, ?_⟩
  · rcases hexit with hkeep | hend
    · exact absurd (hkeep.trans hnone) hne
    · exact hend
  · refine ⟨h.shown.context, fun conf hconf => ?_, ?_, fun hh => ?_⟩
    · obtain ⟨p, hp, hclip⟩ := h.shown.shown conf hconf
      exact ⟨p, List.mem_append_left _ hp, hclip⟩
    · rcases h.shown.code with hcode | hcode
      · exact .inl hcode
      · rw [hnone] at hcode
        cases hcode
    · rcases h.shown.hung hh with hl | ⟨he, -⟩
      · exact .inl hl
      · rw [hnone] at he
        cases he
  · obtain ⟨f, q, hq, hanswers, -, hserving, hgreeting, hrejected⟩ := h.brings
    rw [hnone] at hanswers
    refine ⟨f, q, hq, fun g hg => (hanswers g hg).mono hsub nofun, .inr ?_, hserving, hgreeting,
      hrejected⟩
    exact behind_of_forall_not fun g hg => (hanswers g hg).not_isExit

/-! ### Every action -/

/-- What a call of the client leaves alone.  The exit code is written where an exit frame is
handled, and no call of the user does that. -/
theorem local_exitCode (h : Client.Local ext c c') : c'.exitCode = c.exitCode := by
  have hack (c : Client σ) : c.pumpAck.exitCode = c.exitCode := by
    unfold Client.pumpAck
    split <;> rfl
  have hinput (c : Client σ) : c.pumpInput.exitCode = c.exitCode := by
    unfold Client.pumpInput
    split_ifs
    · rfl
    · split <;> rfl
  have hpump (c : Client σ) : c.pump.exitCode = c.exitCode := by
    unfold Client.pump
    split_ifs
    · rfl
    · rw [hinput, hack]
  cases h with
  | queueInput bytes now =>
    obtain ⟨p, d, heq⟩ := (@Client.queueInput_eq _ ext) c bytes now
    rw [heq]
  | tick now =>
    have hpred : (c.tickPredictor ext now).exitCode = c.exitCode := by
      unfold Client.tickPredictor
      split_ifs
      · cases c.confirmed <;> rfl
      · rfl
    have hping (c : Client σ) : (c.maybePing now).exitCode = c.exitCode := by
      unfold Client.maybePing
      dsimp only
      split_ifs <;> rfl
    have hsilence (c : Client σ) (live : Bool) :
        (c.tickSilence live now).2.exitCode = c.exitCode := by
      unfold Client.tickSilence
      split_ifs
      · rfl
      · split
        · rfl
        · dsimp only
          split_ifs <;> rfl
    unfold Client.tick
    dsimp only
    rw [hsilence]
    split_ifs
    · rw [hping, hpump, hpred]
    · rw [hpump, hpred]
  | pump => exact hpump c
  | setSize cols rows =>
    unfold Client.setSize
    dsimp only
    split <;> rfl
  | _ => rfl

/-- Another state of the current connection. -/
theorem Sound.setConn_current (h : Sound z s) {d : Descent} (hd : Brings z s s.client d) :
    Sound z (s.setConn s.current d) := by
  refine ⟨h.numbered, h.version, h.ended, h.status, h.grams, h.shown, ?_⟩
  change Brings z _ s.client (Function.update s.conns s.current d s.current)
  rw [Function.update_self]
  exact hd.congr rfl rfl rfl

/-- Another state of a connection: of an old one, whatever it is. -/
theorem Sound.setConn (h : Sound z s) (i : ℕ) {d : Descent}
    (hd : i = s.current → Brings z s s.client d) : Sound z (s.setConn i d) := by
  by_cases hi : i = s.current
  · rw [hi]
    exact h.setConn_current (hd hi)
  · refine ⟨h.numbered, h.version, h.ended, h.status, h.grams, h.shown, ?_⟩
    change Brings z _ s.client (Function.update s.conns i d s.current)
    rw [Function.update_of_ne (Ne.symm hi)]
    exact h.brings.congr rfl rfl rfl

/-- A session whose screens and exit status are the same. -/
theorem Sound.session (h : Sound z s) {session : Session} (hkeep : Handler.Keeps s.session session)
    {grams : List Bytes} (hgrams : ∀ b ∈ grams, IsPublished z s.screens b) :
    Sound z { s with session, grams } := by
  obtain ⟨hlatest, hexit, hclosed⟩ := hkeep
  refine ⟨?_, h.version, ?_, ?_, hgrams, ?_, ?_⟩
  · change Numbered _ session.latest z
    rw [hlatest]
    exact h.numbered
  · change session.exit ≠ none → _ ∧ session.closed = true ∧ session.latest ≠ none
    rw [hexit, hclosed, hlatest]
    exact h.ended
  · change ∀ status, session.exit = some status → _
    rw [hexit]
    exact h.status
  · change Shown _ session.exit session.latest _ _
    rw [hexit, hlatest]
    exact h.shown
  · exact h.brings.congr rfl hexit hlatest

/-- A claim leaves alone what the owner has published. -/
theorem handleIncoming_keeps {s session : Session} {authUid : Option ℕ} {buf : Bytes} {hd : Handler}
    (h : handleIncoming s authUid buf = .attach session hd) :
    Handler.Keeps s session ∧ ∃ leftover resize, hd = .attach session leftover resize := by
  unfold handleIncoming at h
  split at h
  · cases h
  · cases h
  · split at h
    · cases h
    · split at h
      · cases h
      · split at h
        · cases h
        · split_ifs at h
          all_goals
            cases h
            exact ⟨⟨rfl, rfl, rfl⟩, _, _, rfl⟩

/-- What was published stays published. -/
theorem screens_grow (s : Downlink σ δ) (a : Action σ δ) :
    s.screens <+: (act ext z drv s a).screens := by
  unfold act
  cases a with
  | greet i bytes =>
    dsimp only
    split <;> exact List.prefix_rfl
  | reply i authUid =>
    dsimp only
    split
    · split <;> exact List.prefix_rfl
    · exact List.prefix_rfl
  | serve i b =>
    dsimp only
    split <;> exact List.prefix_rfl
  | close i =>
    dsimp only
    split <;> exact List.prefix_rfl
  | owner session o => exact List.prefix_append ..
  | _ => exact List.prefix_rfl

/-- A client for another session starts anew. -/
theorem Sound.resume (h : Sound z s)
    (sessionId : FixedBytes 16) (token : FixedBytes 32) (cols rows : ℕ) (never : Bool) :
    Sound z (act ext z drv s (.resume sessionId token cols rows never)) := by
  refine ⟨h.numbered, h.version, h.ended, h.status, h.grams, ⟨rfl, nofun, .inl rfl, nofun⟩, ?_⟩
  change Brings z _ _ (Function.update s.conns (s.current + 1) {} (s.current + 1))
  rw [Function.update_self]
  exact brings_nil z _ rfl rfl nofun rfl

/-- A call of the client that no bytes come with. -/
theorem Sound.call (h : Sound z s) {c : Client σ} (hallows : Allows ext z drv s (.call c)) :
    Sound z (act ext z drv s (.call c)) := by
  have hsame := Client.Local.same hallows
  have hcode := local_exitCode hallows
  refine ⟨h.numbered, h.version, h.ended, h.status, h.grams, ?_, ?_⟩
  · refine ⟨hsame.context.trans h.shown.context,
      fun conf hconf => h.shown.shown conf (hsame.confirmed ▸ hconf), hcode ▸ h.shown.code,
      fun hh => ?_⟩
    cases hold : s.client.hungup with
    | false =>
      change c.hungup = true at hh
      exact .inl (by simp [act, hh, hold])
    | true =>
      rcases h.shown.hung hold with hl | ⟨he, hgot⟩
      · exact .inl (by simp [act, hl])
      · exact .inr ⟨hcode ▸ he, hgot.same hsame⟩
  · obtain ⟨f, q, hq, hanswers, hawaits, hrest⟩ := h.brings
    refine ⟨f, q, ?_, hanswers, hawaits.imp_left fun hgot => hgot.same hsame, hrest⟩
    change f.Delivers _ _ _ (c.recvBuf ++ _) _
    rw [hsame.recvBuf]
    exact hq

/-- The client connects again. -/
theorem Sound.connect (h : Sound z s) (now : ℕ) :
    Sound z (act ext z drv s (.connect now)) := by
  refine ⟨h.numbered, h.version, h.ended, h.status, h.grams,
    ⟨h.shown.context, h.shown.shown, h.shown.code, h.shown.hung⟩, ?_⟩
  change Brings z _ _ (Function.update s.conns (s.current + 1) _ (s.current + 1))
  rw [Function.update_self]
  exact brings_nil z _ rfl rfl nofun rfl

/-- **The client reads.** -/
theorem Sound.recv (hz : z.Documented) (h : Sound z s) (hfit : ∀ p ∈ s.screens, p.Encodable)
    (n now : ℕ) : Sound z (act ext z drv s (.recv n now)) := by
  obtain ⟨-, hshown, -, hbrings⟩ := (@recv_sound _ _ ext _ s) hz hfit h n now
  refine ⟨h.numbered, h.version, h.ended, h.status, h.grams, hshown, ?_⟩
  change Brings z _ _ (Function.update s.conns s.current _ s.current)
  rw [Function.update_self]
  exact hbrings.congr rfl rfl rfl

/-- **A datagram arrives**, again or late: a screen that was published. -/
theorem Sound.datagram (hz : z.Documented) (h : Sound z s) (hfit : ∀ p ∈ s.screens, p.Encodable)
    {bytes : Bytes} (now : ℕ) (hallows : Allows ext z drv s (.datagram bytes now)) :
    Sound z (act ext z drv s (.datagram bytes now)) := by
  obtain ⟨p, hp, rfl⟩ := h.grams bytes hallows
  have hdecode := decode_published hz hfit hp
  have hcall : s.client.recvDatagram ext z (p.encodeCompressed z) now =
      ({ s.client with lastRxMs := some now } : Client σ).applyScreen ext p.clip now := by
    unfold Client.recvDatagram
    rw [if_neg (Client.not_magic_of_decode hdecode),
      if_neg (by rw [h.shown.context]; exact Bool.false_ne_true), hdecode]
  obtain ⟨hshown, conf, hconf, -, hold⟩ :=
    (@Shown.applyScreen _ ext _ _ _ _ _ (h.shown.buffer (some now) s.client.recvBuf)) hp
      (h.numbered.pos hp) now
  obtain ⟨f, q, hq, hanswers, hawaits, hrest⟩ := h.brings
  refine ⟨h.numbered, h.version, h.ended, h.status, h.grams, ?_, f, q, ?_, hanswers, ?_, hrest⟩
  · change Shown _ _ _ _ (s.client.recvDatagram ext z (p.encodeCompressed z) now)
    rw [hcall]
    exact hshown
  · change f.Delivers _ _ _ ((s.client.recvDatagram ext z (p.encodeCompressed z) now).recvBuf ++ _)
      _
    rw [Client.recvDatagram_recvBuf]
    exact hq
  · change Awaits _ _ (s.client.recvDatagram ext z (p.encodeCompressed z) now)
    rw [hcall]
    refine hawaits.imp_left ?_
    rintro ⟨snap, old, hsnap, ho, hle⟩
    exact ⟨snap, conf, hsnap, hconf, hle.trans (hold old ho)⟩

/-- What a client sends arrives where no hello has been read. -/
theorem Sound.greet (h : Sound z s) (i : ℕ) (bytes : Bytes) :
    Sound z (act ext z drv s (.greet i bytes)) := by
  unfold act
  dsimp only
  split
  · rename_i buf hbuf
    refine h.setConn i fun hi => ?_
    subst hi
    obtain ⟨f, q, hq, hanswers, hawaits, -, hnil, -⟩ := h.brings
    have hnot : (s.conns s.current).rejected = none := by rw [Descent.rejected, hbuf]
    rw [hnot] at hanswers
    exact ⟨f, q, hq, hanswers, hawaits, nofun, fun _ _ => hnil buf hbuf, nofun⟩
  · exact h

/-- **A hello is answered**: rejected, or by a handler that has the session.  The three
outcomes of `handle_incoming` are nothing, a rejection and an attachment; only the
connection that is answered changes, and what it brings is `brings_reject` or
`brings_attach`. -/
theorem Sound.reply (hz : z.Documented) (h : Sound z s) (hfit : ∀ p ∈ s.screens, p.Encodable)
    (i : ℕ) (authUid : Option ℕ) : Sound z (act ext z drv s (.reply i authUid)) := by
  unfold act
  dsimp only
  split
  · rename_i buf hbuf
    split
    · exact h
    · refine h.setConn i fun hi => ?_
      subst hi
      obtain ⟨f, q, hq, hanswers, hawaits, -⟩ := h.brings
      have hnot : (s.conns s.current).rejected = none := by rw [Descent.rejected, hbuf]
      rw [hnot] at hanswers
      exact ⟨f, q, hq, hanswers, hawaits, nofun, nofun, nofun⟩
    · rename_i code msg hreject
      refine h.setConn i fun hi => ?_
      subst hi
      obtain ⟨hcode, hmsg⟩ := handleIncoming_reject hreject
      exact brings_reject hbuf h.brings hcode hmsg
    · rename_i session hd hattach
      obtain ⟨hkeep, leftover, resize, rfl⟩ := handleIncoming_keeps hattach
      refine (h.session hkeep h.grams).setConn i fun hi => ?_
      change i = s.current at hi
      subst hi
      refine Brings.congr (s := s) ?_ rfl hkeep.exit hkeep.latest
      exact brings_attach hz (s := s) hfit h hbuf h.brings hkeep.latest leftover resize
  · exact h

/-- **A handler takes a branch of its loop.**  Its datagrams carry the latest screen; on its
stream the branch is a move of the feed (`Handler.serve_moves`), or the handler ends and
writes no more. -/
theorem Sound.serve (hz : z.Documented) (h : Sound z s) (hfit : ∀ p ∈ s.screens, p.Encodable)
    {i : ℕ} {b : Branch} (hallows : Allows ext z drv s (.serve i b)) :
    Sound z (act ext z drv s (.serve i b)) := by
  unfold act
  dsimp only
  split
  · rename_i hd hserving
    have hkeep := Handler.serve_keeps s.session hd b
    have hgrams : ∀ g ∈ s.grams ++ datagrams s.session.latest b, IsPublished z s.screens g := by
      intro g hg
      rcases List.mem_append.1 hg with hg | hg
      · exact h.grams g hg
      · unfold datagrams at hg
        split at hg
        · obtain ⟨snap, hsnap, rfl⟩ := List.mem_map.1 (List.mem_filter.1 hg).1
          exact h.numbered.isPublished (Option.mem_toList.1 hsnap)
        · exact absurd hg List.not_mem_nil
    refine (h.session hkeep hgrams).setConn i fun hi => ?_
    change i = s.current at hi
    subst hi
    refine Brings.congr (s := s) ?_ rfl hkeep.exit hkeep.latest
    cases hnext : (Handler.serve s.session hd b).handler with
    | none =>
      obtain ⟨f, q, hq, hanswers, hawaits, -⟩ := h.brings
      have hnot : (s.conns s.current).rejected = none := by rw [Descent.rejected, hserving]
      rw [hnot] at hanswers
      have hwrites : writes hd b = [] := by
        cases b with
        | write n => cases hnext
        | _ => rfl
      refine ⟨f, q, ?_, hanswers, hawaits, nofun, nofun, nofun⟩
      simpa [Descent.write, hwrites] using hq
    | some hd' =>
      refine h.brings.moves hz (s := s) hfit h hserving
        (Handler.serve_moves hnext) ?_
      rintro status rfl
      exact hallows
  · exact h

/-- A handler is dropped. -/
theorem Sound.close (h : Sound z s) (i : ℕ) :
    Sound z (act ext z drv s (.close i)) := by
  unfold act
  dsimp only
  split
  · exact h
  · rename_i hnot
    refine h.setConn i fun hi => ?_
    subst hi
    obtain ⟨f, q, hq, hanswers, hawaits, -⟩ := h.brings
    have hrejected : (s.conns s.current).rejected = none := by
      unfold Descent.rejected
      split
      · rename_i code msg hstation
        exact absurd hstation (hnot code msg)
      · rfl
    rw [hrejected] at hanswers
    exact ⟨f, q, hq, hanswers, hawaits, nofun, nofun, nofun⟩

/-- A link breaks, with bytes on the way. -/
theorem Sound.cut (h : Sound z s) (i n : ℕ) :
    Sound z (act ext z drv s (.cut i n)) := by
  refine h.setConn i fun hi => ?_
  subst hi
  obtain ⟨f, q, hq, hanswers, hawaits, -, hgreeting, hrejected⟩ := h.brings
  rw [← List.take_append_drop n (s.conns s.current).wire, ← List.append_assoc] at hq
  obtain ⟨f', hq'⟩ := hq.lose
  exact ⟨f', q, hq', hanswers, hawaits, nofun, hgreeting, hrejected⟩

/-- **Every action keeps a run sound**, as long as the screens that are published fit. -/
theorem Sound.step (hz : z.Documented) {a : Action σ δ} (h : Sound z s)
    (hallows : Allows ext z drv s a) (hfit : ∀ p ∈ s.screens, p.Encodable) :
    Sound z (act ext z drv s a) := by
  cases a with
  | resume sessionId token cols rows never => exact h.resume sessionId token cols rows never
  | call c => exact h.call hallows
  | connect now => exact h.connect now
  | recv n now => exact h.recv hz hfit n now
  | datagram bytes now => exact h.datagram hz hfit now hallows
  | greet i bytes => exact h.greet i bytes
  | reply i authUid => exact h.reply hz hfit i authUid
  | serve i b => exact h.serve hz hfit hallows
  | close i => exact h.close i
  | cut i n => exact h.cut i n
  | owner session o => exact h.owner hallows.1 hallows.2

end Downlink
end Quosh
