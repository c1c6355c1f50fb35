/-
# What the listing of devices shows

`Daemon::list_devices` of `crates/quosh-server/src/helper.rs` beside `validate_token` of
`devices.rs`.  A history is any order of the critical sections of the store, each with how its
write ends, and of restarts: those of a handshake that rotates a token are `dropToken` and
`issueToken`, with others in between.  Tokens are drawn at random, so none is drawn twice.

Whatever the history, an entry of the store is the only one for its token (`Distinct`).  A
token expires where it is validated, and the listing does not look: it shows every token that
is good, and those that have expired too (`listing_live_iff`, `expired_token_listed`).
-/

import Quosh.Control.Machine
import Quosh.Data.Entries
import Quosh.Server.Requests

namespace Quosh

open Bytes

/-- The token that a critical section has drawn. -/
def StoreSection.drawn : StoreSection → List (FixedBytes 32)
  | issueToken token .. => [token]
  | _ => []

/-- The store, and the tokens that were drawn. -/
structure Ledger where
  store : DeviceStore := {}
  drawn : List (FixedBytes 32) := []

namespace Ledger

/-- What happens to the store. -/
inductive Action where
  | section_ (write : Except String Unit) (op : StoreSection)
  | restart

/-- The store and its history; a restart reads the file. -/
def ledger : Machine Ledger Action where
  Allows w
    | .section_ _ op => ∀ token ∈ op.drawn, token ∉ w.drawn
    | .restart => True
  act w
    | .section_ write op => { store := (op.run w.store write).2, drawn := op.drawn ++ w.drawn }
    | .restart => { w with store := { w.store with inner := w.store.file } }

/-- Lists with one entry for each token, of those that were drawn. -/
structure Distinct (Drawn : FixedBytes 32 → Prop) (p : Persisted) : Prop where
  names : (p.tokens.map SessionToken.token).Nodup
  drawn : ∀ t ∈ p.tokens, ∃ τ, Drawn τ ∧ t.token = hexEncode τ.1

variable {Drawn : FixedBytes 32 → Prop} {p p' : Persisted} {s : DeviceStore}
  {write : Except String Unit}

namespace Distinct

/-- Dropping tokens keeps the others. -/
theorem filter (h : Distinct Drawn p) (q : SessionToken → Bool)
    (htokens : p'.tokens = p.tokens.filter q) : Distinct Drawn p' := by
  refine ⟨?_, fun t ht => ?_⟩
  · rw [htokens]
    exact Entries.nodup_map_filter q h.names
  · rw [htokens] at ht
    exact h.drawn t (List.mem_of_mem_filter ht)

/-- So does leaving them alone. -/
theorem same (h : Distinct Drawn p) (htokens : p'.tokens = p.tokens) : Distinct Drawn p' := by
  refine h.filter (fun _ => true) ?_
  rw [htokens, List.filter_true]

/-- An update of an entry keeps its token. -/
theorem modify (h : Distinct Drawn p) (i : ℕ) (now : ℤ)
    (htokens : p'.tokens = p.tokens.modify i fun t => { t with lastSeen := now }) :
    Distinct Drawn p' := by
  have hnames : p'.tokens.map SessionToken.token = p.tokens.map SessionToken.token := by
    rw [htokens]
    exact (@Entries.map_modify_of_eq _ _ p.tokens SessionToken.token
      fun t => { t with lastSeen := now }) (fun _ => rfl) i
  refine ⟨hnames ▸ h.names, fun t ht => ?_⟩
  have hmem : t.token ∈ p.tokens.map SessionToken.token := hnames ▸ List.mem_map_of_mem ht
  obtain ⟨t', ht', heq⟩ := List.mem_map.1 hmem
  rw [← heq]
  exact h.drawn t' ht'

/-- A token that is new has an entry of its own. -/
theorem issue (h : Distinct Drawn p) {token : FixedBytes 32} (hnew : ¬Drawn token)
    {t : SessionToken} (ht : t.token = hexEncode token.1) (htokens : p'.tokens = p.tokens ++ [t]) :
    Distinct (fun τ => τ ∈ [token] ∨ Drawn τ) p' := by
  refine ⟨?_, fun t' ht' => ?_⟩
  · rw [htokens]
    refine Entries.nodup_map_append h.names fun t' ht' hname => hnew ?_
    obtain ⟨τ, hτ, heq⟩ := h.drawn t' ht'
    have hsame : τ = token := Subtype.ext (hexEncode_inj (heq.symm.trans (hname.trans ht)))
    exact hsame ▸ hτ
  · rw [htokens] at ht'
    rcases List.mem_append.1 ht' with ht' | ht'
    · obtain ⟨τ, hτ, heq⟩ := h.drawn t' ht'
      exact ⟨τ, .inr hτ, heq⟩
    · rw [List.mem_singleton.1 ht']
      exact ⟨token, .inl List.mem_cons_self, ht⟩

/-- More tokens may have been drawn. -/
theorem mono {Drawn' : FixedBytes 32 → Prop} (h : Distinct Drawn p)
    (hmore : ∀ τ, Drawn τ → Drawn' τ) : Distinct Drawn' p :=
  ⟨h.names, fun t ht => (h.drawn t ht).imp fun τ hτ => ⟨hmore τ hτ.1, hτ.2⟩⟩

/-- **Every critical section** keeps one entry for each token. -/
theorem run (h : Distinct Drawn s.inner) (write : Except String Unit) (op : StoreSection)
    (hnew : ∀ token ∈ op.drawn, ¬Drawn token) :
    Distinct (fun τ => τ ∈ op.drawn ∨ Drawn τ) (op.run s write).2.inner := by
  have h' : Distinct (fun τ => τ ∈ op.drawn ∨ Drawn τ) s.inner := h.mono fun τ hτ => .inr hτ
  cases op with
  | register reg => exact h'.same (by simp [StoreSection.run])
  | touched credentialId signCount now => exact h'.same (DeviceStore.tokens_touched ..)
  | issueToken token uid credentialId now =>
    exact h.issue (hnew token List.mem_cons_self) rfl
      (congrArg Persisted.tokens (DeviceStore.inner_issueToken ..))
  | touchToken token now =>
    rw [StoreSection.run, DeviceStore.touchToken]
    dsimp only
    split
    · exact h'.modify _ now (congrArg Persisted.tokens (DeviceStore.inner_persist ..))
    · exact h'
  | dropToken old =>
    exact h'.filter _ (congrArg Persisted.tokens (DeviceStore.inner_dropToken ..))
  | revokeCredential uid credentialId =>
    exact h'.filter _ (congrArg Persisted.tokens (DeviceStore.inner_revokeCredential ..))
  | revokeAll uid =>
    exact h'.filter _ (congrArg Persisted.tokens (DeviceStore.inner_revokeAll ..))
  | revokeSessions uid =>
    exact h'.filter _ (congrArg Persisted.tokens (DeviceStore.inner_revokeSessions ..))

end Distinct

/-- **However the history goes**, memory and file have one entry for each token. -/
theorem distinct_of_run {w : Ledger} (h : ledger.AnyRun {} w) :
    Distinct (· ∈ w.drawn) w.store.inner := by
  have hempty : Distinct (· ∈ ([] : List (FixedBytes 32))) ({} : Persisted) :=
    ⟨List.Pairwise.nil, fun _ ht => nomatch ht⟩
  have hinv : Distinct (· ∈ w.drawn) w.store.inner ∧ Distinct (· ∈ w.drawn) w.store.file := by
    refine h.invariant
      (I := fun w => Distinct (· ∈ w.drawn) w.store.inner ∧ Distinct (· ∈ w.drawn) w.store.file)
      ⟨hempty, hempty⟩ ?_
    rintro w (⟨write, op⟩ | _) _ ⟨hinner, hfile⟩ hallows _
    · have hrun : Distinct (· ∈ op.drawn ++ w.drawn) (op.run w.store write).2.inner :=
        (hinner.run write op hallows).mono fun _ => List.mem_append.2
      refine ⟨hrun, ?_⟩
      rcases op.file_run w.store write with heq | heq
      · refine (hfile.mono fun _ hτ => ?_).same (congrArg Persisted.tokens heq)
        exact List.mem_append_right _ hτ
      · exact hrun.same (congrArg Persisted.tokens heq)
    · exact ⟨hfile, hfile⟩
  exact hinv.1

/-! ### The listing -/

/-- What is listed for a user. -/
theorem mem_listDevices_iff {d : Daemon} {uid : ℕ} {resp : HelperResponse} {i : SessionInfo} :
    i ∈ (d.listDevices uid resp).sessions ↔ ∃ t ∈ d.devices.inner.tokens, t.uid = uid ∧
      i = { token := t.token, lastSeen := t.lastSeen } := by
  change i ∈ (d.devices.tokens uid).map _ ↔ _
  unfold DeviceStore.tokens
  rw [List.map_map, List.mem_map]
  refine exists_congr fun t => ?_
  rw [List.mem_filter, decide_eq_true_iff, and_assoc]
  exact and_congr_right fun _ => and_congr_right fun _ => eq_comm

/-- **The listing shows the good tokens and no others**: at a time, for a user of a store. -/
def ShowsLive (d : Daemon) (uid : ℕ) (now : ℤ) (resp : HelperResponse) : Prop :=
  (∀ i ∈ (d.listDevices uid resp).sessions, ∃ τ : FixedBytes 32, i.token = hexEncode τ.1 ∧
    d.devices.validateToken τ now = some uid) ∧
  ∀ τ, d.devices.validateToken τ now = some uid →
    ∃ i ∈ (d.listDevices uid resp).sessions, i.token = hexEncode τ.1

/-- What is good is listed, whatever the store. -/
theorem listed_of_valid {d : Daemon} {uid : ℕ} {now : ℤ} {τ : FixedBytes 32}
    (resp : HelperResponse) (hvalid : d.devices.validateToken τ now = some uid) :
    ∃ i ∈ (d.listDevices uid resp).sessions, i.token = hexEncode τ.1 := by
  obtain ⟨t, ht, htoken, huid, -⟩ := DeviceStore.exists_of_validateToken hvalid
  exact ⟨_, mem_listDevices_iff.2 ⟨t, ht, huid, rfl⟩, htoken⟩

/-- **A store with one entry for each token** shows the good ones iff it has no other. -/
theorem showsLive_iff {d : Daemon} (h : Distinct Drawn d.devices.inner) (uid : ℕ) (now : ℤ)
    (resp : HelperResponse) : ShowsLive d uid now resp ↔
      ∀ t ∈ d.devices.inner.tokens, t.uid = uid → now - t.lastSeen ≤ sessionIdleSecs := by
  constructor
  · rintro ⟨hshown, -⟩ t ht huid
    have hmem : ({ token := t.token, lastSeen := t.lastSeen } : SessionInfo) ∈
        (d.listDevices uid resp).sessions := mem_listDevices_iff.2 ⟨t, ht, huid, rfl⟩
    obtain ⟨τ, htoken, hvalid⟩ := hshown _ hmem
    rw [DeviceStore.validateToken_of_nodup h.names ht htoken now] at hvalid
    by_contra hidle
    rw [if_neg hidle] at hvalid
    cases hvalid
  · intro hfresh
    refine ⟨fun i hi => ?_, fun τ hvalid => listed_of_valid resp hvalid⟩
    obtain ⟨t, ht, huid, rfl⟩ := mem_listDevices_iff.1 hi
    obtain ⟨τ, -, htoken⟩ := h.drawn t ht
    refine ⟨τ, htoken, ?_⟩
    rw [DeviceStore.validateToken_of_nodup h.names ht htoken now, if_pos (hfresh t ht huid), huid]

/-- **What is listed after any history**: the good tokens and no others iff no token of the
user has been idle for more than an hour. -/
theorem listing_live_iff {w : Ledger} (h : ledger.AnyRun {} w) (d : Daemon)
    (hd : d.devices = w.store) (uid : ℕ) (now : ℤ) (resp : HelperResponse) :
    ShowsLive d uid now resp ↔
      ∀ t ∈ w.store.inner.tokens, t.uid = uid → now - t.lastSeen ≤ sessionIdleSecs := by
  rw [← hd]
  exact showsLive_iff (hd ▸ distinct_of_run h) uid now resp

/-- A token is issued, and another one for it. -/
def oneToken : List Action :=
  [.section_ (.ok ()) (.issueToken (constBytes 32 1) 1000 (some "aa") 0),
    .section_ (.ok ()) (.dropToken (constBytes 32 1)),
    .section_ (.ok ()) (.issueToken (constBytes 32 2) 1000 none 10)]

theorem run_oneToken : ledger.AnyRun {} (ledger.acts {} oneToken) :=
  Machine.run_acts ⟨fun _ _ h => (nomatch h), trivial, fun _ h => (nomatch h), trivial,
    fun _ h => (List.mem_singleton.1 h) ▸ (by decide), trivial, trivial⟩

/-- The hypotheses of `listing_live_iff` are satisfiable: an hour after a token was rotated. -/
theorem listing_live_iff_oneToken :
    ShowsLive { devices := (ledger.acts {} oneToken).store } 1000 3610 {} ↔
      ∀ t ∈ (ledger.acts {} oneToken).store.inner.tokens, t.uid = 1000 →
        3610 - t.lastSeen ≤ sessionIdleSecs :=
  listing_live_iff run_oneToken { devices := (ledger.acts {} oneToken).store } rfl 1000 3610 {}

/-- **An expired token is listed**: a second later. -/
theorem expired_token_listed :
    ¬∀ (w : Ledger), ledger.AnyRun {} w → ∀ (uid : ℕ) (now : ℤ) (resp : HelperResponse),
      ShowsLive { devices := w.store } uid now resp := by
  intro h
  obtain ⟨τ, htoken, hvalid⟩ := (h _ run_oneToken 1000 3611 {}).1 _ List.mem_cons_self
  have hτ : τ = constBytes 32 2 := Subtype.ext (hexEncode_inj htoken.symm)
  rw [hτ] at hvalid
  exact absurd hvalid (by decide +kernel)

end Ledger
end Quosh
