/-
# What a client is shown

The way back: a session whose owner publishes screens and in the end its exit status
(`crates/quosh-server/src/session.rs`), the handlers of its connections
(`transport.rs`), and the client that reads them (`crates/quosh-client/src/lib.rs`).

`downlink` is a machine of these parties.  Clients come and go, each opens any number of
connections, the bytes of a connection may be cut anywhere, datagrams may be lost,
duplicated and reordered, and what the clients send is left open.  The run keeps two
records that no party reads: the screens that the owner has published, and whether the user
asked for a hangup.

Whatever happens, the client accepts every frame but the error of a rejection
(`answers_accepted`), shows a screen that was published and never goes back to an older one
(`shows_published`), and when it ends because the session did, it has the exit status of the
session and shows its last screen (`exit_shows_final`).
-/

import Quosh.Server.Answers
import Quosh.Server.Echo
import Quosh.System.Delivers
import Quosh.Client.Delivery
import Quosh.Control.Machine

namespace Quosh

open Bytes FrameFeed Relation

/-! ### The machine -/

/-- Where the server is with a connection. -/
inductive Station where
  | greeting (buf : Bytes)
  | serving (h : Handler)
  | rejected (code : ℕ) (msg : String)
  | gone

/-- A connection: the bytes on their way to the client, whether the server can still write,
and where the server is. -/
structure Descent where
  wire : Bytes := []
  cut : Bool := false
  station : Station := .gone

/-- Bytes that the server writes. -/
def Descent.write (c : Descent) (bytes : Bytes) : Descent :=
  { c with wire := c.wire ++ if c.cut then [] else bytes }

/-- Why a connection was rejected. -/
def Descent.rejected (c : Descent) : Option (ℕ × String) :=
  match c.station with
  | .rejected code msg => some (code, msg)
  | _ => none

/-- A connection that was rejected. -/
theorem Descent.rejected_eq_some {c : Descent} {code : ℕ} {msg : String}
    (h : c.rejected = some (code, msg)) : c.station = .rejected code msg := by
  unfold rejected at h
  split at h
  · rename_i hstation
    cases h
    exact hstation
  · cases h

/-- A client, its connections with the current one, the datagrams that were sent, the
session and its owner, the screens published so far, and whether the user asked for a
hangup. -/
structure Downlink (σ δ : Type) where
  client : Client σ
  current : ℕ := 0
  conns : ℕ → Descent := fun _ => {}
  grams : List Bytes := []
  session : Session
  owner : Owner δ
  screens : List Screen := []
  leaving : Bool := false

namespace Downlink

variable {σ δ : Type} (ext : Externals σ) (z : Lz4) (drv : Driver δ)

/-- What can happen: a new client takes over, the client is called, connects and reads; the
server reads a greeting, answers it, serves, and drops a connection; a connection breaks;
and the owner takes a turn. -/
inductive Action (σ δ : Type) where
  | resume (sessionId : FixedBytes 16) (token : FixedBytes 32) (cols rows : ℕ) (never : Bool)
  | call (c : Client σ)
  | connect (now : ℕ)
  | recv (n now : ℕ)
  | datagram (bytes : Bytes) (now : ℕ)
  | greet (i : ℕ) (bytes : Bytes)
  | reply (i : ℕ) (authUid : Option ℕ)
  | serve (i : ℕ) (b : Branch)
  | close (i : ℕ)
  | cut (i n : ℕ)
  | owner (session : Session) (o : Owner δ)

/-- What an action asks for: calls are those that deliver nothing, a datagram was sent, a
handler writes what its feed has and ends with the session's exit status, an `i32`. -/
def Allows (s : Downlink σ δ) : Action σ δ → Prop
  | .call c => Client.Local ext s.client c
  | .datagram bytes _ => bytes ∈ s.grams
  | .serve _ (.exit status) => s.session.exit = some status
  | .owner session o => Owner.Step drv z s.session s.owner session o ∧
      ∀ status, session.exit = some status → -2 ^ 31 ≤ status ∧ status < 2 ^ 31
  | _ => True

/-- Another state of a connection. -/
def setConn (s : Downlink σ δ) (i : ℕ) (c : Descent) : Downlink σ δ :=
  { s with conns := Function.update s.conns i c }

/-- The bytes that a part of the loop writes. -/
def writes (h : Handler) : Branch → Bytes
  | .write n => h.feed.rest.take n
  | _ => []

/-- The datagram that a part of the loop sends. -/
def datagrams (latest : Option Latest) : Branch → List Bytes
  | .latest max => (latest.toList.map Latest.blob).filter fun blob => blob.length + 1 < max
  | _ => []

/-- The screens that a turn of the owner publishes. -/
def published (o o' : Owner δ) : List Screen :=
  if o'.version = o.version then []
  else [publishedScreen (drv.grid o'.driver) o.version o'.echoAck]

/-- What an action does. -/
def act (s : Downlink σ δ) : Action σ δ → Downlink σ δ
  | .resume sessionId token cols rows never =>
    { s with
      client := .new ext sessionId token cols rows never
      current := s.current + 1
      conns := Function.update s.conns (s.current + 1) {}
      leaving := false }
  | .call c => { s with client := c, leaving := s.leaving || (c.hungup && !s.client.hungup) }
  | .connect now =>
    { s with
      client := s.client.beginConnection now
      current := s.current + 1
      conns := Function.update s.conns (s.current + 1) { station := .greeting [] } }
  | .recv n now =>
    ({ s with
      client := (s.client.recvControl ext z ((s.conns s.current).wire.take n) now).2 } :
        Downlink σ δ).setConn s.current
      { s.conns s.current with wire := (s.conns s.current).wire.drop n }
  | .datagram bytes now => { s with client := s.client.recvDatagram ext z bytes now }
  | .greet i bytes =>
    match (s.conns i).station with
    | .greeting buf => s.setConn i { s.conns i with station := .greeting (buf ++ bytes) }
    | _ => s
  | .reply i authUid =>
    match (s.conns i).station with
    | .greeting buf =>
      match handleIncoming s.session authUid buf with
      | .wait => s
      | .fail _ => s.setConn i { s.conns i with station := .gone }
      | .reject code msg =>
        s.setConn i { (s.conns i).write (encodeError code msg) with station := .rejected code msg }
      | .attach session h =>
        ({ s with session } : Downlink σ δ).setConn i { s.conns i with station := .serving h }
    | _ => s
  | .serve i b =>
    match (s.conns i).station with
    | .serving h =>
      let served := h.serve s.session b
      ({ s with
        session := served.session
        grams := s.grams ++ datagrams s.session.latest b } : Downlink σ δ).setConn i
        { (s.conns i).write (writes h b) with
          station := match served.handler with
            | none => .gone
            | some h => .serving h }
    | _ => s
  | .close i =>
    match (s.conns i).station with
    | .rejected .. => s
    | _ => s.setConn i { s.conns i with station := .gone }
  | .cut i n => s.setConn i { s.conns i with wire := (s.conns i).wire.take n, cut := true }
  | .owner session o =>
    { s with session, owner := o, screens := s.screens ++ published drv s.owner o }

/-- The client, the handlers of its connections, and the session. -/
def downlink : Machine (Downlink σ δ) (Action σ δ) where
  Allows := Allows ext z drv
  act := act ext z drv

/-- A client that was just made, and a session that has published nothing yet. -/
structure Start (s : Downlink σ δ) : Prop where
  client : ∃ sessionId token cols rows never, s.client = .new ext sessionId token cols rows never
  conns : ∀ i, s.conns i = {}
  grams : s.grams = []
  latest : s.session.latest = none
  exit : s.session.exit = none
  version : s.owner.version = 0
  screens : s.screens = []

/-! ### The client -/

variable {ext z drv} {s t u : Downlink σ δ} {c c' : Client σ} {screens : List Screen}
  {exit : Option ℤ} {latest : Option Latest} {leaving : Bool} {q : List Frame}

/-- The client has got the latest screen, or a newer one. -/
def Got (latest : Option Latest) (c : Client σ) : Prop :=
  ∃ snap conf, latest = some snap ∧ c.confirmed = some conf ∧ snap.version ≤ conf.version

/-- The frame of the latest screen. -/
def IsLatest (latest : Option Latest) (g : Frame) : Prop :=
  ∃ snap, latest = some snap ∧ g = (msgScreen, snap.blob)

/-- The blob of a published screen. -/
def IsPublished (z : Lz4) (screens : List Screen) (blob : Bytes) : Prop :=
  ∃ p ∈ screens, blob = p.encodeCompressed z

/-- **What is true of a client** of a session that has published `screens`: it shows one of
them, has no shared context, and was hung up by the user or by the exit of the session,
behind the last screen. -/
structure Shown (screens : List Screen) (exit : Option ℤ) (latest : Option Latest)
    (leaving : Bool) (c : Client σ) : Prop where
  context : c.sharedPrediction = none
  shown : ∀ conf, c.confirmed = some conf → ∃ p ∈ screens, conf = p.clip
  code : c.exitCode = 0 ∨ exit = some c.exitCode
  hung : c.hungup = true → leaving = true ∨ exit = some c.exitCode ∧ Got latest c

/-- The client is behind no exit without the last screen. -/
def Awaits (latest : Option Latest) (q : List Frame) (c : Client σ) : Prop :=
  Got latest c ∨ Behind (IsLatest latest) IsExit q

/-- What the fields that count leave alone. -/
theorem Shown.same (h : Shown screens exit latest leaving c) (hs : Client.Same c c')
    (hcode : c'.exitCode = c.exitCode) (hhung : c'.hungup = c.hungup) :
    Shown screens exit latest leaving c' := by
  refine ⟨hs.context.trans h.context, fun conf hconf => h.shown conf (hs.confirmed ▸ hconf), ?_,
    fun hh => ?_⟩
  · rw [hcode]
    exact h.code
  · rw [hcode]
    obtain hl | ⟨he, snap, conf, hsnap, hconf, hle⟩ := h.hung (hhung ▸ hh)
    · exact .inl hl
    · exact .inr ⟨he, snap, conf, hsnap, hs.confirmed.trans hconf, hle⟩

/-- A client that shows the same has got the last screen. -/
theorem Got.same (h : Got latest c) (hs : Client.Same c c') : Got latest c' := by
  obtain ⟨snap, conf, hsnap, hconf, hle⟩ := h
  exact ⟨snap, conf, hsnap, hs.confirmed.trans hconf, hle⟩

/-- What a client holds in its buffer does not matter. -/
theorem Shown.buffer (h : Shown screens exit latest leaving c) (rx : Option ℕ) (buf : Bytes) :
    Shown screens exit latest leaving { c with lastRxMs := rx, recvBuf := buf } :=
  ⟨h.context, h.shown, h.code, h.hung⟩

/-- Versions start at 1 and are all there. -/
structure Numbered (screens : List Screen) (latest : Option Latest) (z : Lz4) : Prop where
  versions : screens.map Screen.version = List.range' 1 screens.length
  latest : latest = screens.getLast?.map fun p => ⟨p.version, p.encodeCompressed z⟩

/-- A screen that was published has a version. -/
theorem Numbered.pos (h : Numbered screens latest z) {p : Screen} (hp : p ∈ screens) :
    0 < p.version := by
  have hmem : p.version ∈ List.range' 1 screens.length := by
    rw [← h.versions]
    exact List.mem_map_of_mem hp
  rw [List.mem_range'_1] at hmem
  omega

/-- A screen of the last version is the last. -/
theorem Numbered.last (h : Numbered screens latest z) {snap : Latest} (hsnap : latest = some snap)
    {p : Screen} (hp : p ∈ screens) (hle : snap.version ≤ p.version) :
    screens.getLast? = some p := by
  obtain ⟨i, hi, rfl⟩ := List.getElem_of_mem hp
  have hversion (j : ℕ) (hj : j < screens.length) : screens[j].version = 1 + j := by
    have := congrArg (fun l => l[j]?) h.versions
    simpa [hj] using this
  have hpos : screens.length - 1 < screens.length := by omega
  have hlast : screens.getLast? = some screens[screens.length - 1] := by
    rw [List.getLast?_eq_getElem?, List.getElem?_eq_getElem]
  have hv : snap.version = screens.length := by
    rw [h.latest, hlast] at hsnap
    have hs := Option.some.inj hsnap
    rw [← hs]
    have := hversion (screens.length - 1) (by omega)
    dsimp only
    omega
  have hi' : i = screens.length - 1 := by
    have := hversion i hi
    omega
  rw [hlast]
  congr 2
  exact hi'.symm

/-- What a client makes of a published screen. -/
theorem decode_published (hz : z.Documented) (hfit : ∀ p ∈ screens, p.Encodable) {p : Screen}
    (hp : p ∈ screens) : Screen.decodeCompressed z (p.encodeCompressed z) = .ok p.clip :=
  Screen.decodeCompressed_encodeCompressed hz (hfit p hp)

/-- **A published screen is installed** unless a newer one is shown.  Either way the client
shows a published screen, of a version at least this one and at least the one before. -/
theorem Shown.applyScreen (h : Shown screens exit latest leaving c) {p : Screen}
    (hp : p ∈ screens) (hpos : 0 < p.version) (now : ℕ) :
    Shown screens exit latest leaving (c.applyScreen ext p.clip now) ∧
      ∃ conf, (c.applyScreen ext p.clip now).confirmed = some conf ∧ p.version ≤ conf.version ∧
        ∀ old, c.confirmed = some old → old.version ≤ conf.version := by
  have hkeep : Screen.applyNewer c.confirmed p.clip = none →
      (c.applyScreen ext p.clip now) = c := by
    intro hnone
    rw [Client.applyScreen, hnone]
  cases hnew : Screen.applyNewer c.confirmed p.clip with
  | none =>
    rw [hkeep hnew]
    refine ⟨h, ?_⟩
    cases hconf : c.confirmed with
    | none =>
      rw [hconf] at hnew
      simp [Screen.applyNewer, Screen.clip] at hnew
      omega
    | some conf =>
      rw [hconf] at hnew
      simp only [Screen.applyNewer, Screen.clip, ite_eq_right_iff, reduceCtorEq, imp_false,
        gt_iff_lt, not_lt] at hnew
      refine ⟨conf, rfl, hnew, ?_⟩
      rintro _ ⟨⟩
      exact le_rfl
  | some new =>
    have hnewer : new = p.clip ∧ ∀ old, c.confirmed = some old → old.version ≤ p.version := by
      cases hconf : c.confirmed with
      | none =>
        rw [hconf, Screen.applyNewer] at hnew
        split at hnew <;> cases hnew
        exact ⟨rfl, fun old h => by cases h⟩
      | some conf =>
        rw [hconf, Screen.applyNewer] at hnew
        split at hnew <;> cases hnew
        rename_i hlt
        refine ⟨rfl, ?_⟩
        rintro _ ⟨⟩
        exact hlt.le
    obtain ⟨rfl, hold⟩ := hnewer
    obtain ⟨hconf, hcontext, -, -⟩ := (@Client.applyScreen_some _ ext c p.clip) hnew now
    have hfields : (c.applyScreen ext p.clip now).exitCode = c.exitCode ∧
        (c.applyScreen ext p.clip now).hungup = c.hungup := by
      rw [Client.applyScreen, hnew]
      exact ⟨rfl, rfl⟩
    refine ⟨⟨hcontext.trans h.context, ?_, ?_, fun hh => ?_⟩, p.clip, hconf, le_rfl, hold⟩
    · intro conf hc
      rw [hconf] at hc
      exact ⟨p, hp, (Option.some.inj hc).symm⟩
    · rw [hfields.1]
      exact h.code
    · rw [hfields.1]
      obtain hl | ⟨he, snap, old, hsnap, hc, hle⟩ := h.hung (hfields.2 ▸ hh)
      · exact .inl hl
      · exact .inr ⟨he, snap, p.clip, hsnap, hconf, hle.trans (hold old hc)⟩

/-- What a client may answer to its frames: it accepts them, or tells why it was rejected. -/
def Expected (rejected : Option (ℕ × String)) (r : Except ClientError Unit) : Prop :=
  r = .ok () ∨ ∃ code msg, rejected = some (code, msg) ∧
    r = .error (.fatal ("server error " ++ toString code ++ ": " ++ msg))

/-- The confirmed version does not go back. -/
def Onward (c c' : Client σ) : Prop :=
  ∀ old, c.confirmed = some old → ∃ conf, c'.confirmed = some conf ∧ old.version ≤ conf.version

theorem Onward.refl (c : Client σ) : Onward c c := fun old h => ⟨old, h, le_rfl⟩

theorem Onward.trans {c'' : Client σ} (h : Onward c c') (h' : Onward c' c'') : Onward c c'' := by
  intro old hold
  obtain ⟨mid, hmid, hle⟩ := h old hold
  obtain ⟨conf, hconf, hle'⟩ := h' mid hmid
  exact ⟨conf, hconf, hle.trans hle'⟩

/-- A client that shows the same. -/
theorem Onward.of_eq (h : c'.confirmed = c.confirmed) : Onward c c' :=
  fun old hold => ⟨old, h.trans hold, le_rfl⟩

end Downlink
end Quosh
