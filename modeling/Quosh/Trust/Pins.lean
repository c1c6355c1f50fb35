/-
# Pinned hashes over runs

`crates/quosh-trust/src/lib.rs`, over one data directory: chains are loaded again and again
(a restart), with any length, and what is called on them (`current`, `forward_hashes`, and
`load` itself) asks for its epochs one after the other.  The lock of `entry` is held for
one epoch, so calls interleave between epochs and the clock goes on.  A hash is `Observed`
that was served or announced.

A certificate leaves the directory when one is minted two epochs later by the clock.  So
the hash of an epoch stays what it was as long as no call asks for an epoch that the clock
has left behind since the call read it (`Prompt`, `pins_stable`).  A call that the clock
overtakes mints the certificate of an epoch again (`overtaken_call_mints_again`).
-/

import Quosh.Control.Machine
import Quosh.Data.Slots
import Quosh.Trust.CertChain

namespace Quosh

open Bytes

/-- What is called on a chain: `load` asks for its window as `forward_hashes` does, and
`current` and `current_hash` ask for the epoch of the clock. -/
inductive CertCall where
  | load
  | current
  | forwardHashes
  deriving DecidableEq

/-- How many epochs a call asks for, from that of the clock on. -/
def CertCall.count (c : CertChain) : CertCall → ℕ
  | .current => 1
  | _ => c.len

/-- A call that goes on: the chain it is on, its first reading of the clock and the epoch
of it, the epochs it has to ask for yet and the certificates it has. -/
structure CertTask where
  chain : ℕ
  kind : CertCall
  started : ℤ
  base : ℕ
  todo : List ℕ
  got : List (ℕ × CertEntry) := []

/-- A data directory, the chains that have been loaded from it and their calls, the latest
time that the clock has shown, and what has been seen: the certificates that `entry` gave,
those that were served, each with the epoch of its time, and the results of
`forward_hashes`, each with the epoch of its first hash. -/
structure Trust where
  dir : TlsDir := {}
  chains : ℕ → Option CertChain := fun _ => none
  tasks : ℕ → Option CertTask := fun _ => none
  latest : ℤ
  seen : List (ℕ × CertEntry) := []
  served : List (ℕ × CertEntry) := []
  announced : List (ℕ × List (FixedBytes 32)) := []

namespace Trust

/-- The clock is read. -/
def read (w : Trust) (now : ℤ) : Trust := { w with latest := max w.latest now }

/-- A call has all it asked for. -/
def finish (w : Trust) (task : CertTask) : Trust :=
  match task.kind with
  | .load => w
  | .current => { w with served := w.served ++ task.got }
  | .forwardHashes =>
    { w with announced := w.announced ++ [(task.base, task.got.map fun p => p.2.hash)] }

/-- A call asks for its next epoch. -/
def advance (sha256 : Bytes → FixedBytes 32) (w : Trust) (i : ℕ)
    (selfSigned : ℤ → ℤ → Except String Bytes) (now : ℤ) : Trust :=
  match w.tasks i with
  | none => w
  | some task =>
    match w.chains task.chain, task.todo with
    | some c, epoch :: todo =>
      match c.entry sha256 w.dir epoch selfSigned now with
      | (.error _, c, dir) =>
        { w with
          dir, chains := Function.update w.chains task.chain (some c)
          tasks := Function.update w.tasks i none }
      | (.ok e, c, dir) =>
        let task := { task with todo, got := task.got ++ [(epoch, e)] }
        let w := { w with
          dir, chains := Function.update w.chains task.chain (some c)
          tasks := Function.update w.tasks i (some task), seen := w.seen ++ [(epoch, e)] }
        if todo = [] then finish { w with tasks := Function.update w.tasks i none } task else w
    | _, _ => w

/-- A hash that some call has given out for an epoch. -/
def Observed (w : Trust) (k : ℕ) (hash : FixedBytes 32) : Prop :=
  (∃ e, (k, e) ∈ w.served ∧ e.hash = hash) ∨
    ∃ r ∈ w.announced, ∃ i, r.1 + i = k ∧ r.2[i]? = some hash

/-- What can happen: a chain is loaded in place of another (or of none), a call is made on
one, and a call asks for its next epoch.  Two readings of the clock begin a load, that of
`load_or_create_anchor` and that of its window. -/
inductive Action where
  | load (i chain len : ℕ) (anchorNow now : ℤ)
  | call (i chain : ℕ) (kind : CertCall) (now : ℤ)
  | advance (i : ℕ) (selfSigned : ℤ → ℤ → Except String Bytes) (now : ℤ)

/-- The readings of the clock in an action. -/
def Action.readings : Action → List ℤ
  | load _ _ _ anchorNow now => [anchorNow, now]
  | call _ _ _ now => [now]
  | advance _ _ now => [now]

/-- A call begins: it reads the clock. -/
def begin (w : Trust) (i chain : ℕ) (c : CertChain) (kind : CertCall) (now : ℤ) : Trust :=
  { w.read now with
    tasks := Function.update w.tasks i (some
      { chain, kind, started := now, base := c.epochAt now
        todo := List.range' (c.epochAt now) (kind.count c) }) }

/-- A chain is loaded in place of another, whose calls end with it. -/
def load (w : Trust) (i chain len : ℕ) (anchorNow now : ℤ) : Trust :=
  let (c, dir) := CertChain.load w.dir len anchorNow
  begin
    { w.read anchorNow with
      dir, chains := Function.update w.chains chain (some c)
      tasks := fun j => (w.tasks j).filter fun task => task.chain ≠ chain }
    i chain c .load now

/-- What an action does. -/
def act (sha256 : Bytes → FixedBytes 32) (w : Trust) : Action → Trust
  | .load i chain len anchorNow now => w.load i chain len anchorNow now
  | .call i chain kind now =>
    match w.chains chain with
    | none => w.read now
    | some c => w.begin i chain c kind now
  | .advance i selfSigned now => (w.advance sha256 i selfSigned now).read now

/-- The clock never falls more than one stride below its maximum. -/
def InTime (latest : ℤ) : List ℤ → Prop
  | [] => True
  | now :: rest => latest - stride ≤ now ∧ InTime (max latest now) rest

instance decidableInTime (latest : ℤ) : (readings : List ℤ) → Decidable (InTime latest readings)
  | [] => .isTrue trivial
  | now :: rest =>
    have := decidableInTime (max latest now) rest
    inferInstanceAs (Decidable (latest - stride ≤ now ∧ InTime (max latest now) rest))

/-- The directory, its chains and their calls. -/
def trust (sha256 : Bytes → FixedBytes 32) : Machine Trust Action where
  Allows w a := InTime w.latest a.readings
  act := act sha256

instance (sha256 : Bytes → FixedBytes 32) (w : Trust) (a : Action) :
    Decidable ((trust sha256).Allows w a) :=
  decidableInTime w.latest a.readings

/-- A call asks for an epoch before the clock has been read more than one stride past its
own first reading. -/
def Prompt (w : Trust) : Action → Prop
  | .advance i _ _ => ∀ task ∈ w.tasks i, w.latest ≤ task.started + stride
  | _ => True

instance (w : Trust) : (a : Action) → Decidable (Prompt w a)
  | .advance i _ _ =>
    inferInstanceAs (Decidable (∀ task ∈ w.tasks i, w.latest ≤ task.started + stride))
  | .load .. => .isTrue trivial
  | .call .. => .isTrue trivial

end Trust

/-! ### What `entry` gives -/

namespace CertChain

variable {sha256 : Bytes → FixedBytes 32} {c c' : CertChain} {d d' : TlsDir} {epoch : ℕ}
  {selfSigned : ℤ → ℤ → Except String Bytes} {now : ℤ} {e : CertEntry}

/-- **Where the certificate of an epoch comes from**: from memory, from the directory, or it
is minted, where neither has one. -/
theorem entry_eq_ok (h : c.entry sha256 d epoch selfSigned now = (.ok e, c', d')) :
    (c.entries epoch = some e ∧ c' = c ∧ d' = d) ∨
      (e.hash = sha256 e.der ∧
        c' = { c with entries := Function.update c.entries epoch (some e) } ∧
        ((d.certs epoch = some e.der ∧ d' = d) ∨
          (d.certs epoch = none ∧
            d' = ({ d with certs := Function.update d.certs epoch (some e.der) } :
              TlsDir).prune (c.epochAt now)))) := by
  unfold entry at h
  split at h
  · rename_i hcached
    obtain ⟨rfl, rfl, rfl⟩ : _ ∧ _ ∧ _ := by simpa using h
    exact .inl ⟨hcached, rfl, rfl⟩
  · unfold loadOrGenerateCert at h
    split at h
    · cases h
    · rename_i hload
      split at hload
      · rename_i hdisk
        obtain ⟨rfl, rfl⟩ : _ ∧ _ := by simpa using hload
        obtain ⟨rfl, rfl, rfl⟩ : _ ∧ _ ∧ _ := by simpa using h
        exact .inr ⟨rfl, rfl, .inl ⟨hdisk, rfl⟩⟩
      · rename_i hdisk
        dsimp only at hload
        split at hload
        · cases hload
        · obtain ⟨rfl, rfl⟩ : _ ∧ _ := by simpa using hload
          obtain ⟨rfl, rfl, rfl⟩ : _ ∧ _ ∧ _ := by simpa using h
          exact .inr ⟨rfl, rfl, .inr ⟨hdisk, rfl⟩⟩

/-- A call that fails leaves memory and directory as they were. -/
theorem entry_eq_error {err : String}
    (h : c.entry sha256 d epoch selfSigned now = (.error err, c', d')) : c' = c ∧ d' = d := by
  unfold entry at h
  split at h
  · cases h
  · unfold loadOrGenerateCert at h
    split at h
    · rename_i hload
      split at hload
      · cases hload
      · dsimp only at hload
        split at hload
        · obtain ⟨rfl, rfl⟩ : _ ∧ _ := by simpa using hload
          obtain ⟨rfl, rfl, rfl⟩ : _ ∧ _ ∧ _ := by simpa using h
          exact ⟨rfl, rfl⟩
        · cases hload
    · cases h

end CertChain
namespace Trust

variable {sha256 : Bytes → FixedBytes 32} {w : Trust}

/-! ### What memory and directory keep -/

/-- The chains and the directory have what was seen, and the directory still has all of it
that a call may ask for. -/
structure Sound (sha256 : Bytes → FixedBytes 32) (w : Trust) : Prop where
  fresh : w.dir.anchor = none → w.seen = []
  unique : ∀ k e e', (k, e) ∈ w.seen → (k, e') ∈ w.seen → e' = e
  hash : ∀ k e, (k, e) ∈ w.seen → e.hash = sha256 e.der
  disk : ∀ k der, w.dir.certs k = some der → ∃ e, (k, e) ∈ w.seen ∧ e.der = der
  anchor : ∀ j c, w.chains j = some c → w.dir.anchor = some c.anchor
  cached : ∀ j c, w.chains j = some c → ∀ k e, c.entries k = some e → (k, e) ∈ w.seen
  kept : ∀ a, w.dir.anchor = some a → ∀ k e, (k, e) ∈ w.seen →
    epochFrom a w.latest ≤ k + 1 → w.dir.certs k = some e.der

/-- The directory is read. -/
theorem Sound.read (h : Sound sha256 w) (now : ℤ) : Sound sha256 (w.read now) where
  fresh := h.fresh
  unique := h.unique
  hash := h.hash
  disk := h.disk
  anchor := h.anchor
  cached := h.cached
  kept := by
    intro a ha k e hmem hk
    exact h.kept a ha k e hmem ((epochFrom_mono a (le_max_left _ now)).trans hk)

/-- What is seen does not depend on the calls that go on. -/
theorem Sound.of_tasks (h : Sound sha256 w) (tasks : ℕ → Option CertTask) :
    Sound sha256 { w with tasks } :=
  ⟨h.fresh, h.unique, h.hash, h.disk, h.anchor, h.cached, h.kept⟩

/-- A call begins. -/
theorem Sound.begin (h : Sound sha256 w) (i chain : ℕ) (c : CertChain) (kind : CertCall)
    (now : ℤ) : Sound sha256 (w.begin i chain c kind now) :=
  (h.read now).of_tasks _

/-- **Loading a chain** loses nothing: it goes by the anchor of the directory, or makes one
where nothing has been seen. -/
theorem Sound.load (h : Sound sha256 w) (i chain len : ℕ) (anchorNow now : ℤ) :
    Sound sha256 (w.load i chain len anchorNow now) := by
  unfold Trust.load CertChain.load loadOrCreateAnchor
  cases hanchor : w.dir.anchor with
  | some v =>
    refine Sound.begin (Sound.of_tasks (w := { w.read anchorNow with
      chains := Function.update w.chains chain (some _) }) ?_ _) ..
    have hread := h.read anchorNow
    refine ⟨h.fresh, h.unique, h.hash, h.disk, ?_, ?_, hread.kept⟩
    · intro j c hj
      rcases Slots.of_update_some hj with ⟨-, rfl⟩ | ⟨-, hj⟩
      · exact hanchor
      · exact h.anchor j c hj
    · intro j c hj k e hk
      rcases Slots.of_update_some hj with ⟨-, rfl⟩ | ⟨-, hj⟩
      · cases hk
      · exact h.cached j c hj k e hk
  | none =>
    have hseen := h.fresh hanchor
    have hnot : ∀ p, p ∉ w.seen := by
      intro p hp
      rw [hseen] at hp
      cases hp
    refine Sound.begin (Sound.of_tasks (w := { w.read anchorNow with
      dir := { w.dir with anchor := some anchorNow }
      chains := Function.update w.chains chain (some _) }) ?_ _) ..
    refine ⟨fun _ => hseen, h.unique, h.hash, h.disk, ?_, ?_, ?_⟩
    · intro j c hj
      rcases Slots.of_update_some hj with ⟨-, rfl⟩ | ⟨-, hj⟩
      · rfl
      · exact nomatch hanchor.symm.trans (h.anchor j c hj)
    · intro j c hj k e hk
      rcases Slots.of_update_some hj with ⟨-, rfl⟩ | ⟨-, hj⟩
      · cases hk
      · exact h.cached j c hj k e hk
    · intro a _ k e hmem
      exact absurd hmem (hnot _)

/-- An entry adds one certificate to what was seen, the same as before if the epoch had been
asked for. -/
theorem mem_seen_append {seen : List (ℕ × CertEntry)} {epoch k : ℕ} {e x : CertEntry}
    (h : (k, x) ∈ seen ++ [(epoch, e)]) : (k, x) ∈ seen ∨ (k = epoch ∧ x = e) := by
  rcases List.mem_append.1 h with h | h
  · exact .inl h
  · exact .inr (Prod.mk.injEq .. ▸ List.mem_singleton.1 h)

section Entry

variable {j epoch : ℕ} {c c' : CertChain} {d' : TlsDir} {e : CertEntry}
  {selfSigned : ℤ → ℤ → Except String Bytes} {now : ℤ}

/-- The anchor stays. -/
theorem anchor_entry (hentry : c.entry sha256 w.dir epoch selfSigned now = (.ok e, c', d')) :
    c'.anchor = c.anchor ∧ d'.anchor = w.dir.anchor := by
  rcases CertChain.entry_eq_ok hentry with ⟨-, rfl, rfl⟩ | ⟨-, rfl, ⟨-, rfl⟩ | ⟨-, rfl⟩⟩ <;>
    exact ⟨rfl, rfl⟩

variable (h : Sound sha256 w) (hj : w.chains j = some c)

include h hj

/-- The certificate of an epoch that the clock has not left behind is the one that was seen
before, if one was. -/
theorem Sound.entry_unique (hlive : epochFrom c.anchor w.latest ≤ epoch + 1)
    (hentry : c.entry sha256 w.dir epoch selfSigned now = (.ok e, c', d')) {x : CertEntry}
    (hx : (epoch, x) ∈ w.seen) : x = e := by
  rcases CertChain.entry_eq_ok hentry with ⟨hcached, -, -⟩ | ⟨hhash, -, ⟨hdisk, -⟩ | ⟨hnone, -⟩⟩
  · exact h.unique _ _ _ (h.cached j c hj _ _ hcached) hx
  · obtain ⟨y, hy, hder⟩ := h.disk _ _ hdisk
    have hyhash := h.hash _ _ hy
    obtain ⟨yder, yh⟩ := y
    obtain ⟨eder, eh⟩ := e
    obtain rfl : yder = eder := hder
    obtain rfl : yh = eh := hyhash.trans hhash.symm
    exact h.unique _ _ _ hy hx
  · have hkept := h.kept _ (h.anchor j c hj) _ _ hx hlive
    exact nomatch hnone.symm.trans hkept

/-- What was seen of the epochs that the clock has not left behind is in the directory
still. -/
theorem Sound.entry_kept (hlive : epochFrom c.anchor w.latest ≤ epoch + 1)
    (hentry : c.entry sha256 w.dir epoch selfSigned now = (.ok e, c', d')) {k : ℕ} {x : CertEntry}
    (hx : (k, x) ∈ w.seen ++ [(epoch, e)])
    (hk : epochFrom c.anchor (max w.latest now) ≤ k + 1) : d'.certs k = some x.der := by
  have hanchor := h.anchor j c hj
  have hlatest := (epochFrom_mono c.anchor (le_max_left w.latest now)).trans hk
  have hnow := (epochFrom_mono c.anchor (le_max_right w.latest now)).trans hk
  rcases CertChain.entry_eq_ok hentry with ⟨hcached, -, rfl⟩ | ⟨-, -, ⟨hdisk, rfl⟩ | ⟨-, rfl⟩⟩
  · rcases mem_seen_append hx with hx | ⟨rfl, rfl⟩
    · exact h.kept _ hanchor k x hx hlatest
    · exact h.kept _ hanchor k x (h.cached j c hj k x hcached) hlatest
  · rcases mem_seen_append hx with hx | ⟨rfl, rfl⟩
    · exact h.kept _ hanchor k x hx hlatest
    · exact hdisk
  · have hnot : ¬k + 1 < c.epochAt now := not_lt.2 hnow
    refine (if_neg hnot).trans ?_
    by_cases hepoch : k = epoch
    · subst hepoch
      have hxe : x = e := by
        rcases mem_seen_append hx with hx | ⟨-, hx⟩
        · exact h.entry_unique hj hlive hentry hx
        · exact hx
      rw [hxe]
      exact Function.update_self ..
    · refine (Function.update_of_ne hepoch ..).trans ?_
      rcases mem_seen_append hx with hx | ⟨hk, -⟩
      · exact h.kept _ hanchor k x hx hlatest
      · exact absurd hk hepoch

/-- **Asking for an epoch that the clock has not left behind loses nothing.**  The entry is
cached, read from the directory or new; what is deleted there are epochs that are over, so
all that was seen and still counts is where it was. -/
theorem Sound.entry (hlive : epochFrom c.anchor w.latest ≤ epoch + 1)
    (hentry : c.entry sha256 w.dir epoch selfSigned now = (.ok e, c', d')) :
    Sound sha256 { w with
      dir := d', chains := Function.update w.chains j (some c')
      seen := w.seen ++ [(epoch, e)], latest := max w.latest now } := by
  have hsame := fun x hx => h.entry_unique hj hlive hentry (x := x) hx
  obtain ⟨hc'anchor, hd'anchor⟩ := anchor_entry hentry
  have hnew : (epoch, e) ∈ w.seen ++ [(epoch, e)] :=
    List.mem_append_right _ (List.mem_singleton_self _)
  have hold : ∀ {p}, p ∈ w.seen → p ∈ w.seen ++ [(epoch, e)] := List.mem_append_left _
  have hanchor := h.anchor j c hj
  have hcases := CertChain.entry_eq_ok hentry
  refine ⟨?_, ?_, ?_, ?_, ?_, ?_, ?_⟩
  · intro hnone
    exact nomatch hanchor.symm.trans (hd'anchor.symm.trans hnone)
  · intro k x y hx hy
    rcases mem_seen_append hx with hx' | ⟨rfl, rfl⟩ <;>
      rcases mem_seen_append hy with hy' | ⟨hk, rfl⟩
    · exact h.unique k x y hx' hy'
    · subst hk
      exact (hsame x hx').symm
    · exact hsame y hy'
    · rfl
  · intro k x hx
    rcases mem_seen_append hx with hx | ⟨rfl, rfl⟩
    · exact h.hash k x hx
    · rcases hcases with ⟨hcached, -, -⟩ | ⟨hhash, -⟩
      · exact h.hash _ _ (h.cached j c hj _ _ hcached)
      · exact hhash
  · intro k der hk
    rcases hcases with ⟨-, -, rfl⟩ | ⟨-, -, ⟨-, rfl⟩ | ⟨-, rfl⟩⟩
    · obtain ⟨x, hx, hder⟩ := h.disk k der hk
      exact ⟨x, hold hx, hder⟩
    · obtain ⟨x, hx, hder⟩ := h.disk k der hk
      exact ⟨x, hold hx, hder⟩
    · have hk := (Option.ite_none_left_eq_some.1 hk).2
      rcases Slots.of_update_some hk with ⟨rfl, rfl⟩ | ⟨-, hk⟩
      · exact ⟨e, hnew, rfl⟩
      · obtain ⟨x, hx, hder⟩ := h.disk k der hk
        exact ⟨x, hold hx, hder⟩
  · intro i x hi
    rcases Slots.of_update_some hi with ⟨-, rfl⟩ | ⟨-, hi⟩
    · exact hd'anchor.trans (hanchor.trans (congrArg some hc'anchor.symm))
    · exact hd'anchor.trans (h.anchor i x hi)
  · intro i x hi k y hk
    rcases Slots.of_update_some hi with ⟨-, rfl⟩ | ⟨-, hi⟩
    · rcases hcases with ⟨-, hsame, -⟩ | ⟨-, rfl, -⟩
      · exact hold (h.cached j c hj k y (hsame ▸ hk))
      · rcases Slots.of_update_some hk with ⟨rfl, rfl⟩ | ⟨-, hk⟩
        · exact hnew
        · exact hold (h.cached j c hj k y hk)
    · exact hold (h.cached i x hi k y hk)
  · intro a ha k x hx hk
    obtain rfl : c.anchor = a := Option.some.inj (hanchor.symm.trans (hd'anchor.symm.trans ha))
    exact h.entry_kept hj hlive hentry hx hk

end Entry

/-! ### What calls have -/

/-- A call has certificates that were seen, of the epochs from that of its first reading on,
and asks for the epochs that follow. -/
structure TaskTold (w : Trust) (task : CertTask) : Prop where
  base : ∃ a, w.dir.anchor = some a ∧ task.base = epochFrom a task.started
  epochs : ∃ n, task.got.map Prod.fst ++ task.todo = List.range' task.base n
  got : ∀ p ∈ task.got, p ∈ w.seen

/-- What is told of the calls: what they have, what was served and what was announced was
seen, under the epochs it is of. -/
structure Told (w : Trust) : Prop where
  task : ∀ i task, w.tasks i = some task → TaskTold w task
  served : ∀ p ∈ w.served, p ∈ w.seen
  announced : ∀ r ∈ w.announced, ∃ (got : List (ℕ × CertEntry)) (rest : List ℕ) (n : ℕ),
    r.2 = got.map (fun p => p.2.hash) ∧ got.map Prod.fst ++ rest = List.range' r.1 n ∧
    ∀ p ∈ got, p ∈ w.seen

/-- A call stays as it was while others are served. -/
theorem TaskTold.mono {w' : Trust} {task : CertTask} (h : TaskTold w task)
    (hanchor : ∀ a, w.dir.anchor = some a → w'.dir.anchor = some a)
    (hseen : ∀ p ∈ w.seen, p ∈ w'.seen) : TaskTold w' task := by
  obtain ⟨a, ha, hbase⟩ := h.base
  exact ⟨⟨a, hanchor a ha, hbase⟩, h.epochs, fun p hp => hseen p (h.got p hp)⟩

/-- So does all that is told. -/
theorem Told.mono {w' : Trust} (h : Told w)
    (hanchor : ∀ a, w.dir.anchor = some a → w'.dir.anchor = some a)
    (hseen : ∀ p ∈ w.seen, p ∈ w'.seen)
    (htasks : ∀ i task, w'.tasks i = some task → w.tasks i = some task ∨ TaskTold w' task)
    (hserved : w'.served = w.served) (hannounced : w'.announced = w.announced) : Told w' := by
  refine ⟨fun i task hi => ?_, fun p hp => ?_, fun r hr => ?_⟩
  · rcases htasks i task hi with hold | hnew
    · exact (h.task i task hold).mono hanchor hseen
    · exact hnew
  · exact hseen p (h.served p (hserved ▸ hp))
  · obtain ⟨got, rest, n, hhash, hepochs, hgot⟩ := h.announced r (hannounced ▸ hr)
    exact ⟨got, rest, n, hhash, hepochs, fun p hp => hseen p (hgot p hp)⟩

/-- A call begins, on the anchor of the directory. -/
theorem Told.begin (h : Told w) (i chain : ℕ) {c : CertChain}
    (hanchor : w.dir.anchor = some c.anchor) (kind : CertCall) (now : ℤ) :
    Told (w.begin i chain c kind now) := by
  refine h.mono (fun _ ha => ha) (fun _ hp => hp) (fun j task hj => ?_) rfl rfl
  rcases Slots.of_update_some hj with ⟨-, rfl⟩ | ⟨-, hj⟩
  · exact .inr ⟨⟨c.anchor, hanchor, rfl⟩, ⟨_, rfl⟩, fun p hp => nomatch hp⟩
  · exact .inl hj

/-- The server starts again. -/
theorem Told.load (h : Told w) (i chain len : ℕ) (anchorNow now : ℤ) :
    Told (w.load i chain len anchorNow now) := by
  have hanchor : ∃ a, CertChain.load w.dir len anchorNow =
      ({ anchor := a, len := max 1 (min len 64) }, { w.dir with anchor := some a }) ∧
      ∀ a', w.dir.anchor = some a' → some a = some a' := by
    unfold CertChain.load loadOrCreateAnchor
    cases hanchor : w.dir.anchor with
    | some v =>
      refine ⟨v, Prod.ext rfl ?_, fun a' ha' => ha'⟩
      change w.dir = { w.dir with anchor := some v }
      rw [← hanchor]
    | none => exact ⟨anchorNow, rfl, fun a' ha' => nomatch ha'⟩
  obtain ⟨a, hload, hsame⟩ := hanchor
  unfold Trust.load
  rw [hload]
  refine Told.begin ?_ i chain rfl .load now
  refine h.mono hsame (fun _ hp => hp) (fun j task hj => .inl ?_) rfl rfl
  exact (Option.filter_eq_some_iff.1 hj).1

/-- A call that has its last certificate. -/
theorem Told.finish {task : CertTask} (h : Told w) (htask : TaskTold w task) :
    Told (w.finish task) := by
  unfold Trust.finish
  cases task.kind with
  | load => exact h
  | current =>
    refine ⟨fun i t hi => ?_, fun p hp => ?_, h.announced⟩
    · obtain ⟨hbase, hepochs, hgot⟩ := h.task i t hi
      exact ⟨hbase, hepochs, hgot⟩
    · rcases List.mem_append.1 hp with hp | hp
      · exact h.served p hp
      · exact htask.got p hp
  | forwardHashes =>
    refine ⟨fun i t hi => ?_, h.served, fun r hr => ?_⟩
    · obtain ⟨hbase, hepochs, hgot⟩ := h.task i t hi
      exact ⟨hbase, hepochs, hgot⟩
    · rcases List.mem_append.1 hr with hr | hr
      · exact h.announced r hr
      · obtain ⟨n, hepochs⟩ := htask.epochs
        rw [List.mem_singleton.1 hr]
        exact ⟨task.got, task.todo, n, rfl, hepochs, htask.got⟩

/-- A call that ends does not mind the clock. -/
theorem finish_read (w : Trust) (task : CertTask) (now : ℤ) :
    (w.finish task).read now = (w.read now).finish task := by
  unfold Trust.finish
  cases task.kind <;> rfl

/-- Finishing changes the history only. -/
theorem Sound.finish (h : Sound sha256 w) (task : CertTask) : Sound sha256 (w.finish task) := by
  unfold Trust.finish
  cases task.kind <;>
    exact ⟨h.fresh, h.unique, h.hash, h.disk, h.anchor, h.cached, h.kept⟩

/-! ### Runs -/

/-- All that holds of a run. -/
def Holds (sha256 : Bytes → FixedBytes 32) (w : Trust) : Prop := Sound sha256 w ∧ Told w

/-- Reading the clock loses nothing. -/
theorem Holds.read (h : Holds sha256 w) (now : ℤ) : Holds sha256 (w.read now) :=
  ⟨h.1.read now, h.2.mono (fun _ ha => ha) (fun _ hp => hp) (fun _ _ ht => .inl ht) rfl rfl⟩

/-- The epoch that a prompt call asks for is one that the clock has not left behind. -/
theorem TaskTold.live {task : CertTask} (h : TaskTold w task)
    (hprompt : w.latest ≤ task.started + stride) {epoch : ℕ} {todo : List ℕ}
    (htodo : task.todo = epoch :: todo) {a : ℤ} (ha : w.dir.anchor = some a) :
    epochFrom a w.latest ≤ epoch + 1 := by
  obtain ⟨b, hb, hbase⟩ := h.base
  obtain rfl : b = a := Option.some.inj (hb.symm.trans ha)
  obtain ⟨n, hepochs⟩ := h.epochs
  have hmem : epoch ∈ List.range' task.base n := by
    rw [← hepochs, htodo]
    exact List.mem_append_right _ (List.mem_cons_self ..)
  have hbefore := (List.mem_range'_1.1 hmem).1
  have hsucc := epochFrom_le_succ b hprompt
  omega

/-- A call with one certificate more. -/
theorem TaskTold.push {task : CertTask} (h : TaskTold w task) {epoch : ℕ} {todo : List ℕ}
    (htodo : task.todo = epoch :: todo) {e : CertEntry} (he : (epoch, e) ∈ w.seen) :
    TaskTold w { task with todo, got := task.got ++ [(epoch, e)] } := by
  obtain ⟨n, hepochs⟩ := h.epochs
  refine ⟨h.base, ⟨n, ?_⟩, fun p hp => ?_⟩
  · rw [← hepochs, htodo, List.map_append, List.append_assoc]
    rfl
  · rcases List.mem_append.1 hp with hp | hp
    · exact h.got p hp
    · rw [List.mem_singleton.1 hp]
      exact he

/-- **A prompt call that asks for its next epoch** loses nothing.  The epoch is one of its
list, and as the clock has moved by a stride at most since the call began, it is not over
yet. -/
theorem Holds.advance (h : Holds sha256 w) (i : ℕ) (selfSigned : ℤ → ℤ → Except String Bytes)
    (now : ℤ) (hprompt : ∀ task, w.tasks i = some task → w.latest ≤ task.started + stride) :
    Holds sha256 ((w.advance sha256 i selfSigned now).read now) := by
  have hread := h.read now
  obtain ⟨hsound, htold⟩ := h
  unfold Trust.advance
  cases hi : w.tasks i with
  | none => exact hread
  | some task =>
    dsimp only
    split
    · rename_i c epoch todo hchain htodo
      have htask := htold.task i task hi
      have hlive := htask.live (hprompt task hi) htodo (hsound.anchor _ c hchain)
      split
      · rename_i c' d' hentry
        obtain ⟨hc', hd'⟩ := CertChain.entry_eq_error hentry
        rw [hc', hd', ← hchain, Function.update_eq_self]
        refine ⟨(hsound.of_tasks _).read now, htold.mono (fun _ ha => ha) (fun _ hp => hp)
          (fun j t hj => .inl ?_) rfl rfl⟩
        exact (Slots.of_update_none hj).2
      · rename_i e c' d' hentry
        have hnew := hsound.entry hchain hlive hentry
        have hanchor : ∀ a, w.dir.anchor = some a → d'.anchor = some a := by
          intro a ha
          exact (anchor_entry hentry).2.trans ha
        have hseen : ∀ p ∈ w.seen, p ∈ w.seen ++ [(epoch, e)] := fun p => List.mem_append_left _
        have hmem : (epoch, e) ∈ w.seen ++ [(epoch, e)] :=
          List.mem_append_right _ (List.mem_singleton_self _)
        have hpush := TaskTold.push (w := { w with
          dir := d', chains := Function.update w.chains task.chain (some c')
          seen := w.seen ++ [(epoch, e)], latest := max w.latest now })
          (htask.mono hanchor hseen) htodo hmem
        split
        · rw [finish_read]
          refine ⟨(hnew.of_tasks _).finish _, Told.finish (htold.mono hanchor hseen
            (fun j t hj => ?_) rfl rfl) ⟨hpush.base, hpush.epochs, hpush.got⟩⟩
          have hj := (Slots.of_update_none hj)
          exact .inl ((Function.update_of_ne hj.1 ..).symm.trans hj.2)
        · refine ⟨hnew.of_tasks _, htold.mono hanchor hseen (fun j t hj => ?_) rfl rfl⟩
          rcases Slots.of_update_some hj with ⟨-, rfl⟩ | ⟨-, hj⟩
          · exact .inr ⟨hpush.base, hpush.epochs, hpush.got⟩
          · exact .inl hj
    · exact hread

/-- The chains of a directory that has nothing yet, at a time. -/
def empty (now : ℤ) : Trust := { latest := now }

/-- Nothing holds at first. -/
theorem holds_empty (sha256 : Bytes → FixedBytes 32) (now : ℤ) : Holds sha256 (empty now) := by
  refine ⟨⟨fun _ => rfl, ?_, ?_, ?_, ?_, ?_, ?_⟩, ⟨?_, ?_, ?_⟩⟩
  · exact fun _ _ _ h => nomatch h
  · exact fun _ _ h => nomatch h
  · exact fun _ _ h => nomatch h
  · exact fun _ _ h => nomatch h
  · exact fun _ _ h => nomatch h
  · exact fun _ _ _ _ h => nomatch h
  · exact fun _ _ h => nomatch h
  · exact fun _ h => nomatch h
  · exact fun _ h => nomatch h

/-- **What holds of a run, every prompt action keeps.** -/
theorem Holds.act (h : Holds sha256 w) {a : Action} (hprompt : Prompt w a) :
    Holds sha256 (Trust.act sha256 w a) := by
  cases a with
  | load i chain len anchorNow now => exact ⟨h.1.load .., h.2.load ..⟩
  | call i chain kind now =>
    unfold Trust.act
    dsimp only
    cases hchain : w.chains chain with
    | none => exact h.read now
    | some c => exact ⟨h.1.begin .., h.2.begin i chain (h.1.anchor _ c hchain) kind now⟩
  | advance i selfSigned now => exact h.advance i selfSigned now hprompt

/-- **Every prompt run keeps what holds.** -/
theorem Holds.run {start : ℤ} (h : (trust sha256).Run Prompt (empty start) w) :
    Holds sha256 w :=
  h.invariant (I := Holds sha256) (holds_empty sha256 start) fun _ _ _ hw _ hprompt =>
    hw.act hprompt

/-- What was observed of an epoch is of a certificate that was seen. -/
theorem Told.exists_seen (h : Told w) {k : ℕ} {hash : FixedBytes 32} (hk : w.Observed k hash) :
    ∃ e, (k, e) ∈ w.seen ∧ e.hash = hash := by
  rcases hk with ⟨e, he, rfl⟩ | ⟨r, hr, i, rfl, hi⟩
  · exact ⟨e, h.served _ he, rfl⟩
  · obtain ⟨got, rest, n, hhash, hepochs, hgot⟩ := h.announced r hr
    rw [hhash, List.getElem?_map] at hi
    obtain ⟨⟨k, e⟩, hget, rfl⟩ := Option.map_eq_some_iff.1 hi
    have hlen : i < got.length := (List.getElem?_eq_some_iff.1 hget).1
    have hat : (List.range' r.1 n)[i]? = some k := by
      rw [← hepochs, List.getElem?_append_left (by rwa [List.length_map]), List.getElem?_map,
        hget]
      rfl
    obtain ⟨hi, hk⟩ := List.getElem?_eq_some_iff.1 hat
    rw [List.getElem_range', Nat.one_mul] at hk
    exact ⟨e, hk ▸ hgot _ (List.mem_of_getElem? hget), rfl⟩

/-- **Pinned hashes never change** in a run whose calls are prompt: any two hashes observed
of an epoch are equal, and a certificate that is served has the hash observed of its epoch,
such as one that `forward_hashes` announced for it before. -/
theorem pins_stable (sha256 : Bytes → FixedBytes 32) {start : ℤ} {w : Trust}
    (h : (trust sha256).Run Prompt (empty start) w) :
    (∀ k hash hash', w.Observed k hash → w.Observed k hash' → hash = hash') ∧
    (∀ p ∈ w.served, ∀ hash, w.Observed p.1 hash → sha256 p.2.der = hash) := by
  obtain ⟨hsound, htold⟩ := Holds.run h
  refine ⟨fun k hash hash' hk hk' => ?_, fun p hp hash hobserved => ?_⟩
  · obtain ⟨e, he, rfl⟩ := htold.exists_seen hk
    obtain ⟨e', he', rfl⟩ := htold.exists_seen hk'
    rw [hsound.unique k e e' he he']
  · obtain ⟨e, he, rfl⟩ := htold.exists_seen hobserved
    have hserved := htold.served p hp
    rw [hsound.unique p.1 e p.2 he hserved, hsound.hash _ _ he]

/-- A stand-in for the hash, that tells certificates apart by their first byte. -/
def firstByte (der : Bytes) : FixedBytes 32 := ⟨List.replicate 32 (der.headD 0), rfl⟩

/-- A chain is loaded and announces two epochs; it is loaded again an epoch later and serves
the second. -/
def rollover : List Action :=
  [.load 0 0 2 1000 1000, .advance 0 (fun _ _ => .ok [1]) 1000,
    .advance 0 (fun _ _ => .ok [2]) 1000, .call 0 0 .forwardHashes 1000,
    .advance 0 (fun _ _ => .ok [3]) 1000, .advance 0 (fun _ _ => .ok [4]) 1000,
    .load 0 0 1 (1000 + stride) (1000 + stride),
    .advance 0 (fun _ _ => .ok [5]) (1000 + stride), .call 0 0 .current (1000 + stride),
    .advance 0 (fun _ _ => .ok [6]) (1000 + stride)]

set_option maxRecDepth 4000 in
/-- The hypotheses of `pins_stable` are satisfiable: what is served after a restart in the
next epoch was announced before. -/
theorem pins_stable_rollover :
    let w := (trust firstByte).acts (empty 1000) rollover
    (∀ k hash hash', w.Observed k hash → w.Observed k hash' → hash = hash') ∧
    (∀ p ∈ w.served, ∀ hash, w.Observed p.1 hash → firstByte p.2.der = hash) :=
  pins_stable firstByte (Machine.run_acts (by decide))

/-- One chain announces epoch 5, and another one that was loaded before is overtaken by the
clock while it announces epochs 4 and 5. -/
def overtaken : List Action :=
  [.load 0 0 2 1000 1000, .advance 0 (fun _ _ => .ok [1]) 1000,
    .advance 0 (fun _ _ => .ok [2]) 1000,
    .load 1 1 1 (1000 + 5 * stride) (1000 + 5 * stride),
    .advance 1 (fun _ _ => .ok [3]) (1000 + 5 * stride),
    .call 1 1 .forwardHashes (1000 + 5 * stride),
    .advance 1 (fun _ _ => .ok [4]) (1000 + 5 * stride),
    .call 0 0 .forwardHashes (1000 + 4 * stride),
    .advance 0 (fun _ _ => .ok [5]) (1000 + 7 * stride),
    .advance 0 (fun _ _ => .ok [6]) (1000 + 7 * stride)]

set_option maxRecDepth 4000 in
/-- **A call that the clock overtakes mints again**: the hash announced for epoch 5 changes,
though the clock never falls more than one stride. -/
theorem overtaken_call_mints_again :
    ¬∀ (sha256 : Bytes → FixedBytes 32) (start : ℤ) (w : Trust),
      (trust sha256).AnyRun (empty start) w →
      ∀ k hash hash', w.Observed k hash → w.Observed k hash' → hash = hash' := by
  intro h
  have hrun : (trust firstByte).AnyRun (empty 1000)
      ((trust firstByte).acts (empty 1000) overtaken) := Machine.run_acts (by decide)
  have hsame := h firstByte 1000 _ hrun 5 (firstByte [3]) (firstByte [6])
    (.inr ⟨(5, [firstByte [3]]), by decide, 0, rfl, rfl⟩)
    (.inr ⟨(4, [firstByte [5], firstByte [6]]), by decide, 1, rfl, rfl⟩)
  exact absurd hsame (by decide)

end Trust
end Quosh
