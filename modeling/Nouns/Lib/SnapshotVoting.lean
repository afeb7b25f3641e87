import Nouns.Lib.Transition
import Mathlib.Algebra.Order.BigOperators.Group.Finset
import Mathlib.Algebra.BigOperators.Group.Finset.Basic

/-!
# SnapshotVoting — votes weighed by the power of a past moment

Voters `ι` vote on ballots `κ`.  A vote weighs what its voter's power was at the ballot's snapshot,
which lies in the past when the vote is cast.  So whatever happens to the power meanwhile, all votes
on a ballot together weigh no more than all power there was at its snapshot.
-/

open Transition

namespace SnapshotVoting

variable {σ κ ι : Type} {init : σ → Prop} {next : σ → σ → Prop} {clock : σ → Nat}
  {power : σ → ι → Nat} {snapshot : σ → κ → Nat} {cast : σ → κ → ι → Option Nat}

/-- The value of `f` in the last state of the history whose clock is at most `b`. -/
def lastValue (clock f : σ → Nat) (b : Nat) (h : List σ) : Nat :=
  match lastAt clock b h with
  | some s => f s
  | none => 0

/-- What a step may do to a vote: leave it, with the snapshot of its ballot, or cast it. -/
structure Weighed (init : σ → Prop) (next : σ → σ → Prop) (clock : σ → Nat)
    (power : σ → ι → Nat) (snapshot : σ → κ → Nat) (cast : σ → κ → ι → Option Nat) : Prop where
  clock_le : ∀ s s', next s s' → clock s ≤ clock s'
  start : ∀ s, init s → ∀ k v, cast s k v = none
  step : ∀ s h s', Run init next (s :: h) → next s s' → ∀ k v n, cast s' k v = some n →
    (cast s k v = some n ∧ snapshot s' k = snapshot s k) ∨
    (snapshot s' k < clock s ∧
      ∃ t, lastAt clock (snapshot s' k) (s :: h) = some t ∧ power t v = n)

variable (hw : Weighed init next clock power snapshot cast)
include hw

/-- Every vote weighs what its voter's power was at the snapshot. -/
theorem Weighed.cast_eq_power {s : σ} {h : List σ} (hr : Run init next (s :: h)) {k : κ} {v : ι}
    {n : Nat} (hc : cast s k v = some n) :
    snapshot s k < clock s ∧ ∃ t, lastAt clock (snapshot s k) (s :: h) = some t ∧ power t v = n := by
  generalize hl : s :: h = l at hr
  induction hr generalizing s h with
  | start hs =>
    cases hl
    rw [hw.start _ hs] at hc
    cases hc
  | @step s₀ s₁ h₀ hr hs ih =>
    cases hl
    have hbefore : snapshot s₁ k < clock s₀ ∧
        ∃ t, lastAt clock (snapshot s₁ k) (s₀ :: h₀) = some t ∧ power t v = n := by
      rcases hw.step s₀ h₀ s₁ hr hs k v n hc with ⟨hold, hsnap⟩ | hnew
      · rw [hsnap]
        exact ih hold rfl
      · exact hnew
    have hlt := Nat.lt_of_lt_of_le hbefore.1 (hw.clock_le s₀ s₁ hs)
    exact ⟨hlt, (lastAt_cons_of_lt (s₀ :: h₀) hlt).symm ▸ hbefore.2⟩

theorem Weighed.sum_cast_le [Fintype ι] {supply : σ → Nat} {s : σ} {h : List σ}
    (hr : Run init next (s :: h)) (hsupply : ∀ t ∈ s :: h, ∑ v, power t v ≤ supply t) (k : κ) :
    ∑ v, (cast s k v).getD 0 ≤ lastValue clock supply (snapshot s k) (s :: h) := by
  unfold lastValue
  cases hlast : lastAt clock (snapshot s k) (s :: h) with
  | none =>
    -- Without a moment to look at, nobody has voted.
    refine Nat.le_of_eq (Finset.sum_eq_zero ?_)
    intro v _
    cases hc : cast s k v with
    | none => rfl
    | some n =>
      obtain ⟨-, t, ht, -⟩ := hw.cast_eq_power hr hc
      rw [hlast] at ht
      cases ht
  | some t =>
    have hpower : ∀ v, (cast s k v).getD 0 ≤ power t v := by
      intro v
      cases hc : cast s k v with
      | none => exact Nat.zero_le _
      | some n =>
        obtain ⟨-, t', ht', hn⟩ := hw.cast_eq_power hr hc
        rw [hlast] at ht'
        cases ht'
        exact Nat.le_of_eq hn.symm
    calc
      _ ≤ ∑ v, power t v := Finset.sum_le_sum (fun v _ => hpower v)
      _ ≤ supply t := hsupply t (lastAt_mem hlast).1

end SnapshotVoting
