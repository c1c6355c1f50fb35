/-
# The certificate chain

`crates/quosh-trust/src/lib.rs`: one certificate for each epoch of thirteen days, minted on
first use, kept in a file of the data directory and in the memory of the `CertChain`.  A
clock reading is an argument, one for each time that the source calls `now_unix`; signing
is randomised, so what a `self_signed` gives is an argument too.

`forward_hashes` announces the epochs `forwardEpochs`.  They cover a reconnect up to the
end of the last of them, which is less than `len` strides after the connection by what has
passed of its own epoch (`mem_forwardEpochs_iff`).  The documented coverage adds the day by
which the last certificate outlives its epoch, but the certificate of the next epoch is
served by then (`pin_coverage_iff`, `pins_run_out`).
-/

import Mathlib.Logic.Function.Basic
import Mathlib.Data.Int.Order.Basic
import Mathlib.Tactic.Ring
import Quosh.Proto.Message

namespace Quosh

open Bytes

/-- `STRIDE`, in seconds. -/
def stride : ℤ := 13 * 24 * 60 * 60

/-- `VALIDITY`, in seconds. -/
def validity : ℤ := 14 * 24 * 60 * 60

/-- `SLACK`, in seconds. -/
def slack : ℤ := 5 * 60

/-- `DEFAULT_CHAIN`. -/
def defaultChain : ℕ := 7

/-- `Entry`: a certificate, and its hash. -/
structure CertEntry where
  der : Bytes
  hash : FixedBytes 32
  deriving DecidableEq

/-- The data directory: `chain-anchor`, and `cert-{epoch}.der` for the epochs that have one. -/
structure TlsDir where
  anchor : Option ℤ := none
  certs : ℕ → Option Bytes := fun _ => none

/-- `CertChain`: what it has in memory. -/
structure CertChain where
  anchor : ℤ
  len : ℕ
  entries : ℕ → Option CertEntry := fun _ => none

/-- The epoch of a time, from an anchor. -/
def epochFrom (anchor now : ℤ) : ℕ :=
  if now ≤ anchor then 0 else ((now - anchor) / stride).toNat

namespace CertChain

/-- `epoch_at`. -/
def epochAt (c : CertChain) (now : ℤ) : ℕ := epochFrom c.anchor now

/-- `window`. -/
def window (c : CertChain) (epoch : ℕ) : ℤ × ℤ :=
  let start := c.anchor + epoch * stride - slack
  (start, start + validity)

/-- The epochs that `forward_hashes` asks for, and `load`. -/
def forwardEpochs (c : CertChain) (now : ℤ) : List ℕ := List.range' (c.epochAt now) c.len

end CertChain

/-- `prune`. -/
def TlsDir.prune (d : TlsDir) (keepFrom : ℕ) : TlsDir :=
  { d with certs := fun k => if k + 1 < keepFrom then none else d.certs k }

/-- `load_or_create_anchor`. -/
def loadOrCreateAnchor (d : TlsDir) (now : ℤ) : ℤ × TlsDir :=
  match d.anchor with
  | some v => (v, d)
  | none => (now, { d with anchor := some now })

namespace CertChain

/-- `load`, up to the certificates that it asks for. -/
def load (d : TlsDir) (len : ℕ) (now : ℤ) : CertChain × TlsDir :=
  let (anchor, d) := loadOrCreateAnchor d now
  ({ anchor, len := max 1 (min len 64) }, d)

/-- `load_or_generate_cert`: `now` is what `prune` goes by when a certificate is minted. -/
def loadOrGenerateCert (c : CertChain) (d : TlsDir) (epoch : ℕ)
    (selfSigned : ℤ → ℤ → Except String Bytes) (now : ℤ) : Except String Bytes × TlsDir :=
  match d.certs epoch with
  | some bytes => (.ok bytes, d)
  | none =>
    let (notBefore, notAfter) := c.window epoch
    match selfSigned notBefore notAfter with
    | .error e => (.error e, d)
    | .ok der =>
      (.ok der,
        ({ d with certs := Function.update d.certs epoch (some der) } : TlsDir).prune
          (c.epochAt now))

/-- `entry`. -/
def entry (sha256 : Bytes → FixedBytes 32) (c : CertChain) (d : TlsDir) (epoch : ℕ)
    (selfSigned : ℤ → ℤ → Except String Bytes) (now : ℤ) :
    Except String CertEntry × CertChain × TlsDir :=
  match c.entries epoch with
  | some e => (.ok e, c, d)
  | none =>
    match c.loadOrGenerateCert d epoch selfSigned now with
    | (.error e, d) => (.error e, c, d)
    | (.ok der, d) =>
      let e := { der, hash := sha256 der }
      (.ok e, { c with entries := Function.update c.entries epoch (some e) }, d)

end CertChain

/-! ### Epochs -/

theorem stride_pos : 0 < stride := by decide

/-- An epoch of a time that is not before the anchor, as an integer. -/
theorem epochFrom_eq {anchor now : ℤ} (h : anchor ≤ now) :
    (epochFrom anchor now : ℤ) = (now - anchor) / stride := by
  unfold epochFrom
  split
  · rw [show now - anchor = 0 by omega, Int.zero_ediv]
    rfl
  · exact Int.toNat_of_nonneg (Int.ediv_nonneg (by omega) stride_pos.le)

/-- Before the anchor it is the first epoch. -/
theorem epochFrom_of_le {anchor now : ℤ} (h : now ≤ anchor) : epochFrom anchor now = 0 :=
  if_pos h

/-- A later time is in a later epoch, or the same. -/
theorem epochFrom_mono (anchor : ℤ) {t u : ℤ} (h : t ≤ u) :
    epochFrom anchor t ≤ epochFrom anchor u := by
  by_cases ht : t ≤ anchor
  · rw [epochFrom_of_le ht]
    exact Nat.zero_le _
  · have hdiv := Int.ediv_le_ediv stride_pos (show t - anchor ≤ u - anchor by omega)
    rw [← epochFrom_eq (by omega), ← epochFrom_eq (by omega)] at hdiv
    exact_mod_cast hdiv

/-- **One stride is one epoch.** -/
theorem epochFrom_le_succ (anchor : ℤ) {t u : ℤ} (h : u ≤ t + stride) :
    epochFrom anchor u ≤ epochFrom anchor t + 1 := by
  have hstride := stride_pos
  by_cases hu : u ≤ anchor
  · rw [epochFrom_of_le hu]
    exact Nat.zero_le _
  · by_cases ht : t ≤ anchor
    · have hlt : (u - anchor) / stride < 2 :=
        Int.ediv_lt_of_lt_mul hstride (by omega)
      have heq := epochFrom_eq (show anchor ≤ u by omega)
      rw [epochFrom_of_le ht]
      omega
    · have hdiv := Int.ediv_le_ediv hstride (show u - anchor ≤ t - anchor + 1 * stride by omega)
      rw [Int.add_mul_ediv_right _ _ hstride.ne', ← epochFrom_eq (by omega),
        ← epochFrom_eq (by omega)] at hdiv
      exact_mod_cast hdiv

/-! ### What the announced epochs cover -/

namespace CertChain

variable {c : CertChain}

/-- **Which reconnects are covered** by what is announced at a connection: those that come
before `len` strides are over, less what had passed of the epoch of the connection. -/
theorem mem_forwardEpochs_iff {t t' : ℤ} (ht : c.anchor ≤ t) (htt' : t ≤ t') :
    c.epochAt t' ∈ c.forwardEpochs t ↔ t' - t < c.len * stride - (t - c.anchor) % stride := by
  have hmono := epochFrom_mono c.anchor htt'
  have hdiv := Int.emod_add_mul_ediv (t - c.anchor) stride
  rw [forwardEpochs, List.mem_range'_1]
  change epochFrom c.anchor t ≤ epochFrom c.anchor t' ∧
    epochFrom c.anchor t' < epochFrom c.anchor t + c.len ↔ _
  have hlt : epochFrom c.anchor t' < epochFrom c.anchor t + c.len ↔
      (t' - c.anchor) / stride < (t - c.anchor) / stride + c.len := by
    rw [← epochFrom_eq ht, ← epochFrom_eq (ht.trans htt')]
    exact_mod_cast Iff.rfl
  rw [and_iff_right hmono, hlt, Int.ediv_lt_iff_lt_mul stride_pos]
  have hexpand : ((t - c.anchor) / stride + c.len) * stride =
      stride * ((t - c.anchor) / stride) + c.len * stride := by ring
  rw [hexpand]
  omega

/-- **Pin coverage of the default chain**: the certificate served at a reconnect is one of
those announced iff less than seven strides have passed since the connection's epoch
began. -/
theorem pin_coverage_iff (hlen : c.len = defaultChain) {t t' : ℤ} (ht : c.anchor ≤ t)
    (htt' : t ≤ t') :
    c.epochAt t' ∈ c.forwardEpochs t ↔ t' - t < 7 * stride - (t - c.anchor) % stride := by
  rw [mem_forwardEpochs_iff ht htt', hlen]
  rfl

/-- The hypotheses of `pin_coverage_iff` are satisfiable: a client comes back after ninety
days to a server that was first started when it connected. -/
theorem pin_coverage_iff_ninetyDays :
    let c : CertChain := (load {} defaultChain 1000).1
    c.epochAt (1000 + 90 * 24 * 60 * 60) ∈ c.forwardEpochs 1000 :=
  (pin_coverage_iff (c := (load {} defaultChain 1000).1) rfl (by decide) (by decide)).2 (by decide)

/-- **The pins of a connection run out before 92 days**: on the ninety-first day the server
serves the certificate of an epoch that was not announced. -/
theorem pins_run_out :
    ¬∀ c : CertChain, c.len = defaultChain → ∀ t t' : ℤ, c.anchor ≤ t → t ≤ t' →
      t' ≤ t + 92 * 24 * 60 * 60 → c.epochAt t' ∈ c.forwardEpochs t := by
  intro h
  have hmem := h (load {} defaultChain 1000).1 rfl 1000 (1000 + 91 * 24 * 60 * 60)
    (by decide) (by decide) (by decide)
  exact absurd hmem (by decide)

end CertChain
end Quosh
