/-
# The escape key

`crates/quosh-cli/src/main.rs`: `filter_input`, which takes the quit sequence out of what is
typed, one read at a time, and the loop of `spawn_tty_reader` around it, up to what becomes
of the bytes.

The flag that goes from one read to the next is all that there is between them, so reads are
one read (`filterReads_eq_filterInput`).  An escape key is paired or not by the number of
those right in front of it: `Quits` says so of a stream, and `collapseEscapes` is what is
forwarded of a stream without quit.  Both are compared with the loop by one induction over
it, with the escape key that is held back put in front (`quit_iff`, `out_eq`).
-/

import Quosh.Bytes.Reader

namespace Quosh

/-- `ESCAPE_KEY`. -/
def escapeKey : UInt8 := 0x1e

/-- `QUIT_KEY`. -/
def quitKey : UInt8 := 0x2e

/-- What `filter_input` returns, and the flag it leaves. -/
structure Filtered where
  out : Bytes := []
  quit : Bool := false
  escape : Bool
  deriving DecidableEq

/-- Bytes that were forwarded before. -/
def Filtered.after (out : Bytes) (f : Filtered) : Filtered := { f with out := out ++ f.out }

/-- `filter_input`. -/
def filterInput : Bytes → Bool → Filtered
  | [], escape => { escape }
  | b :: bytes, false =>
    if b = escapeKey then filterInput bytes true
    else (filterInput bytes false).after [b]
  | b :: bytes, true =>
    if b = quitKey then { quit := true, escape := false }
    else (filterInput bytes false).after
      (escapeKey :: if b ≠ escapeKey then [b] else [])

/-- The reads of `spawn_tty_reader`, up to quit. -/
def filterReads : List Bytes → Bool → Filtered
  | [], escape => { escape }
  | bytes :: reads, escape =>
    let f := filterInput bytes escape
    if f.quit then f else (filterReads reads f.escape).after f.out

/-- **A quit key follows an unpaired escape key**: behind an odd number of escape keys in a
row. -/
def Quits (s : Bytes) : Prop :=
  ∃ before k after, s = before ++ List.replicate (2 * k + 1) escapeKey ++ quitKey :: after ∧
    before.getLast? ≠ some escapeKey

/-- A stream with each pair of escape keys made one, from the left, and without an escape key
at the end that has no other. -/
def collapseEscapes : Bytes → Bytes
  | [] => []
  | [b] => if b = escapeKey then [] else [b]
  | b :: b' :: rest =>
    if b = escapeKey ∧ b' = escapeKey then escapeKey :: collapseEscapes rest
    else b :: collapseEscapes (b' :: rest)

/-! ### Reads -/

/-- What comes out first, and what comes out then. -/
theorem Filtered.after_after (out out' : Bytes) (f : Filtered) :
    (f.after out').after out = f.after (out ++ out') := by
  unfold Filtered.after
  rw [List.append_assoc]

/-- **Two reads are one**, unless the first quits.  The induction goes along the calls of
`filter_input` on the first read; the escape state at its end is where the second begins. -/
theorem filterInput_append (bytes bytes' : Bytes) (escape : Bool) :
    filterInput (bytes ++ bytes') escape =
      if (filterInput bytes escape).quit then filterInput bytes escape
      else (filterInput bytes' (filterInput bytes escape).escape).after
        (filterInput bytes escape).out := by
  have hafter (out : Bytes) (f g : Filtered) :
      (if f.quit = true then f else g.after f.out).after out =
        if (f.after out).quit = true then f.after out else g.after (f.after out).out := by
    by_cases hquit : f.quit = true
    · have hquit' : (f.after out).quit = true := hquit
      rw [if_pos hquit, if_pos hquit']
    · have hquit' : ¬(f.after out).quit = true := hquit
      rw [if_neg hquit, if_neg hquit', Filtered.after_after]
      rfl
  fun_induction filterInput bytes escape with
  | case1 escape => rfl
  | case2 bytes ih =>
    rw [List.cons_append, filterInput, if_pos rfl]
    exact ih
  | case3 b bytes hb ih =>
    rw [List.cons_append, filterInput, if_neg hb, ih]
    exact hafter [b] _ _
  | case4 bytes =>
    rw [List.cons_append, filterInput, if_pos rfl]
    rfl
  | case5 b bytes hb ih =>
    rw [List.cons_append, filterInput, if_neg hb, ih]
    exact hafter _ _ _

/-- **Reads are one read** of all their bytes. -/
theorem filterReads_eq_filterInput (reads : List Bytes) (escape : Bool) :
    filterReads reads escape = filterInput reads.flatten escape := by
  induction reads generalizing escape with
  | nil => rfl
  | cons bytes reads ih =>
    rw [List.flatten_cons, filterInput_append, filterReads, ih]

/-! ### The quit sequence -/

/-- A byte that is no escape key starts no quit sequence. -/
theorem quits_cons {b : UInt8} (hb : b ≠ escapeKey) (s : Bytes) : Quits (b :: s) ↔ Quits s := by
  constructor
  · rintro ⟨before, k, after, heq, hlast⟩
    cases before with
    | nil => exact absurd (List.cons.inj heq).1 hb
    | cons b' before =>
      obtain ⟨-, heq⟩ := List.cons.inj heq
      refine ⟨before, k, after, heq, fun h => hlast ?_⟩
      rw [List.getLast?_cons, h]
      rfl
  · rintro ⟨before, k, after, rfl, hlast⟩
    refine ⟨b :: before, k, after, rfl, fun h => ?_⟩
    rw [List.getLast?_cons] at h
    cases hb' : before.getLast? with
    | none =>
      rw [hb'] at h
      exact hb (Option.some.inj h)
    | some b' =>
      rw [hb'] at h
      exact hlast (hb'.trans h)

/-- A pair of escape keys starts none: it adds a pair to the escape keys behind it, and what
stands in front of a run of escape keys never ends with one. -/
theorem quits_pair (s : Bytes) : Quits (escapeKey :: escapeKey :: s) ↔ Quits s := by
  constructor
  · rintro ⟨before, k, after, heq, hlast⟩
    match before, k with
    | [], 0 =>
      have hquit : escapeKey = quitKey := (List.cons.inj (List.cons.inj heq).2).1
      exact absurd hquit (by decide)
    | [], k + 1 =>
      refine ⟨[], k, after, ?_, hlast⟩
      exact (List.cons.inj (List.cons.inj heq).2).2
    | [b], _ =>
      obtain ⟨rfl, -⟩ := List.cons.inj heq
      exact absurd rfl hlast
    | [b, b'], _ =>
      obtain ⟨-, heq⟩ := List.cons.inj heq
      obtain ⟨rfl, -⟩ := List.cons.inj heq
      exact absurd rfl hlast
    | _ :: _ :: b :: before, k =>
      refine ⟨b :: before, k, after, (List.cons.inj (List.cons.inj heq).2).2, fun h => hlast ?_⟩
      rwa [List.getLast?_cons_cons, List.getLast?_cons_cons]
  · rintro ⟨before, k, after, rfl, hlast⟩
    cases before with
    | nil => exact ⟨[], k + 1, after, rfl, hlast⟩
    | cons b before =>
      refine ⟨escapeKey :: escapeKey :: b :: before, k, after, rfl, fun h => hlast ?_⟩
      rwa [List.getLast?_cons_cons, List.getLast?_cons_cons] at h

/-- Nor does an escape key in front of another key. -/
theorem quits_single {b : UInt8} (hesc : b ≠ escapeKey) (hb : b ≠ quitKey) (s : Bytes) :
    Quits (escapeKey :: b :: s) ↔ Quits (b :: s) := by
  constructor
  · rintro ⟨before, k, after, heq, hlast⟩
    match before, k with
    | [], 0 => exact absurd (List.cons.inj (List.cons.inj heq).2).1 hb
    | [], k + 1 => exact absurd (List.cons.inj (List.cons.inj heq).2).1 hesc
    | [b], _ =>
      obtain ⟨rfl, -⟩ := List.cons.inj heq
      exact absurd rfl hlast
    | _ :: b' :: before, k =>
      refine ⟨b' :: before, k, after, (List.cons.inj heq).2, fun h => hlast ?_⟩
      rwa [List.getLast?_cons_cons]
  · rintro ⟨before, k, after, heq, hlast⟩
    cases before with
    | nil => exact absurd (List.cons.inj heq).1 hesc
    | cons b' before =>
      rw [heq]
      refine ⟨escapeKey :: b' :: before, k, after, rfl, fun h => hlast ?_⟩
      rwa [List.getLast?_cons_cons] at h

/-- An escape key and what is forwarded with it start none. -/
theorem quits_escape {b : UInt8} (hb : b ≠ quitKey) (s : Bytes) :
    Quits (escapeKey :: b :: s) ↔ Quits s := by
  by_cases hesc : b = escapeKey
  · subst hesc
    exact quits_pair s
  · exact (quits_single hesc hb s).trans (quits_cons hesc s)

/-- No input does not quit. -/
theorem not_quits_nil : ¬Quits [] := by
  rintro ⟨before, k, after, heq, -⟩
  exact List.append_ne_nil_of_right_ne_nil _ (List.cons_ne_nil _ _) heq.symm

/-- Nor does the escape key alone. -/
theorem not_quits_escape : ¬Quits [escapeKey] := by
  rintro ⟨before, k, after, heq, -⟩
  have hlen := congrArg List.length heq
  simp only [List.length_cons, List.length_append, List.length_replicate, List.length_nil] at hlen
  omega

/-- What is behind the flag, with the escape key that it stands for. -/
def held (escape : Bool) (s : Bytes) : Bytes := if escape then escapeKey :: s else s

/-- **When a read quits.** -/
theorem quit_iff (bytes : Bytes) (escape : Bool) :
    (filterInput bytes escape).quit = true ↔ Quits (held escape bytes) := by
  fun_induction filterInput bytes escape with
  | case1 escape =>
    cases escape with
    | false => exact iff_of_false Bool.false_ne_true not_quits_nil
    | true => exact iff_of_false Bool.false_ne_true not_quits_escape
  | case2 bytes ih => exact ih
  | case3 b bytes hb ih => exact ih.trans (quits_cons hb bytes).symm
  | case4 bytes =>
    exact iff_of_true rfl ⟨[], 0, bytes, rfl, fun h => nomatch h⟩
  | case5 b bytes hb ih => exact ih.trans (quits_escape hb bytes).symm

/-! ### What is forwarded -/

/-- Another key is as it is. -/
theorem collapseEscapes_cons {b : UInt8} (hb : b ≠ escapeKey) (s : Bytes) :
    collapseEscapes (b :: s) = b :: collapseEscapes s := by
  cases s with
  | nil => exact if_neg hb
  | cons b' s => exact if_neg fun h => hb h.1

/-- **What a read forwards** when it does not quit. -/
theorem out_eq (bytes : Bytes) (escape : Bool) (h : (filterInput bytes escape).quit = false) :
    (filterInput bytes escape).out = collapseEscapes (held escape bytes) := by
  fun_induction filterInput bytes escape with
  | case1 escape => cases escape <;> rfl
  | case2 bytes ih => exact ih h
  | case3 b bytes hb ih =>
    exact (congrArg (b :: ·) (ih h)).trans (collapseEscapes_cons hb bytes).symm
  | case4 bytes => cases h
  | case5 b bytes hb ih =>
    have hout := ih h
    by_cases hesc : b = escapeKey
    · subst hesc
      rw [if_neg (not_not.2 rfl)]
      exact congrArg (escapeKey :: ·) hout
    · have hpair : collapseEscapes (escapeKey :: b :: bytes) =
          escapeKey :: collapseEscapes (b :: bytes) := if_neg fun h => hesc h.2
      rw [if_pos hesc]
      refine (congrArg (fun s => escapeKey :: b :: s) hout).trans ?_
      exact ((congrArg (escapeKey :: ·) (collapseEscapes_cons hesc bytes)).symm.trans hpair.symm)

/-- **How the keys are cut into reads does not matter**: the reads forward and decide as one
read of them all does; they quit iff a quit key follows an unpaired escape key; and without
that they forward the keys with each pair of escape keys made one and an unpaired one at the
end held back. -/
theorem filterReads_split_invariant (reads : List Bytes) :
    filterReads reads false = filterInput reads.flatten false ∧
      ((filterReads reads false).quit = true ↔ Quits reads.flatten) ∧
      (¬Quits reads.flatten → (filterReads reads false).out = collapseEscapes reads.flatten) := by
  rw [filterReads_eq_filterInput]
  refine ⟨rfl, quit_iff reads.flatten false, fun hquits => ?_⟩
  refine out_eq reads.flatten false ?_
  exact Bool.eq_false_iff.2 fun h => hquits ((quit_iff reads.flatten false).1 h)

/-- Three escape keys and a quit key, cut behind the second: one is forwarded, and it quits. -/
example : filterReads [[0x61, 0x1e, 0x1e], [0x1e], [0x2e, 0x62]] false =
    { out := [0x61, 0x1e], quit := true, escape := false } := by decide

end Quosh
