/-
# Clocks that differ

`crates/quosh-trust/src/lib.rs`, `epoch_at` and `window`: the certificate that the server
serves by its clock, at a client with a clock of its own.

How far the clocks may be apart depends on what has passed of the epoch
(`mem_window_iff`).  A client that is fast may be a day early less `SLACK`, whenever it
comes: that is the overlap of two certificates.  A client that is slow has what has passed of
the epoch and `SLACK`, so that right behind a boundary it has five minutes
(`clock_skew_iff`, `slow_clock_rejects`).
-/

import Quosh.Trust.CertChain

namespace Quosh

namespace CertChain

variable {c : CertChain} {t x : ℤ}

/-- **Which clocks accept** the certificate served at `t`. -/
theorem mem_window_iff (ht : c.anchor ≤ t) :
    (c.window (c.epochAt t)).1 ≤ x ∧ x < (c.window (c.epochAt t)).2 ↔
      t - x ≤ slack + (t - c.anchor) % stride ∧
        x - t < validity - slack - (t - c.anchor) % stride := by
  have hepoch : (c.epochAt t : ℤ) = (t - c.anchor) / stride := epochFrom_eq ht
  have hdiv := Int.mul_ediv_add_emod (t - c.anchor) stride
  have hstart : (c.window (c.epochAt t)).1 = t - (t - c.anchor) % stride - slack := by
    change c.anchor + (c.epochAt t : ℤ) * stride - slack = _
    rw [hepoch, mul_comm]
    omega
  have hend : (c.window (c.epochAt t)).2 = (c.window (c.epochAt t)).1 + validity := rfl
  rw [hend, hstart]
  constructor
  · rintro ⟨h₁, h₂⟩
    exact ⟨by omega, by omega⟩
  · rintro ⟨h₁, h₂⟩
    exact ⟨by omega, by omega⟩

/-- What two certificates overlap by, less the backdating, is always left of the window. -/
theorem lt_window_of_fast (hx : x - t < validity - stride - slack) :
    x - t < validity - slack - (t - c.anchor) % stride := by
  have hmod := Int.emod_lt_of_pos (t - c.anchor) stride_pos
  omega

/-- **Clock skew of up to a day**: the client accepts what is served iff it is not behind the
server by more than `SLACK` and what has passed of the epoch. -/
theorem clock_skew_iff (ht : c.anchor ≤ t) (hskew : |x - t| < 24 * 60 * 60 - slack) :
    ((c.window (c.epochAt t)).1 ≤ x ∧ x < (c.window (c.epochAt t)).2) ↔
      t - x ≤ slack + (t - c.anchor) % stride := by
  have hfast : x - t < validity - stride - slack := (abs_lt.1 hskew).2
  rw [mem_window_iff ht]
  exact and_iff_left (lt_window_of_fast hfast)

/-- The hypotheses of `clock_skew_iff` are satisfiable: six hours behind the server, a day
after the epoch began. -/
theorem clock_skew_iff_sixHours :
    let c : CertChain := { anchor := 1000, len := defaultChain }
    (c.window (c.epochAt (1000 + 86400))).1 ≤ 1000 + 86400 - 21600 ∧
      1000 + 86400 - 21600 < (c.window (c.epochAt (1000 + 86400))).2 :=
  (clock_skew_iff (c := { anchor := 1000, len := defaultChain }) (by decide) (by decide)).2
    (by decide)

/-- **A slow client rejects the certificate of a new epoch**: one whose clock is six minutes
behind, at the very time of the anchor. -/
theorem slow_clock_rejects :
    ¬∀ (c : CertChain) (t x : ℤ), c.anchor ≤ t → |x - t| < 24 * 60 * 60 - slack →
      (c.window (c.epochAt t)).1 ≤ x ∧ x < (c.window (c.epochAt t)).2 := by
  intro h
  have haccepts := h { anchor := 1000, len := defaultChain } 1000 (1000 - 360) (by decide)
    (by decide)
  exact absurd haccepts.1 (by decide)

end CertChain
end Quosh
