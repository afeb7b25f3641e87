import Mathlib.Algebra.BigOperators.Group.Finset.Basic
import Mathlib.Algebra.BigOperators.Group.Finset.Piecewise
import Mathlib.Algebra.Order.BigOperators.Group.Finset
import Mathlib.Data.Fintype.Basic

/-!
# GroupSums — sums over the members of a group

`groupSum g f k` adds up the weights `f i` of the members `i` of group `k`, where `g` assigns a
group to every member.  The update lemmas say how a sum over an unbounded set of members changes
when one member changes weight or group; they are stated additively, so that no subtraction on
`ℕ` truncates.
-/

namespace GroupSums

variable {ι κ : Type} [Fintype ι] [DecidableEq ι] [DecidableEq κ]

def groupSum (g : ι → κ) (f : ι → ℕ) (k : κ) : ℕ := ∑ i, if g i = k then f i else 0

omit [DecidableEq κ] in
theorem sum_update_add (f : ι → ℕ) (i : ι) (v : ℕ) :
    ∑ j, Function.update f i v j + f i = ∑ j, f j + v := by
  rw [Finset.sum_update_of_mem (Finset.mem_univ i),
    ← Finset.add_sum_erase Finset.univ f (Finset.mem_univ i), Finset.sdiff_singleton_eq_erase]
  omega

/-- Changing one summand, in terms of the two sums. -/
theorem sum_add_of_eq_off (f f' : ι → ℕ) (i : ι) (h : ∀ j, j ≠ i → f' j = f j) :
    ∑ j, f' j + f i = ∑ j, f j + f' i := by
  have hf : f' = Function.update f i (f' i) := by
    funext j
    by_cases hj : j = i
    · simp [hj]
    · simp [hj, h j hj]
  rw [hf, sum_update_add]
  simp

/-- One member changes weight, group or both. -/
theorem groupSum_add_of_eq_off (g g' : ι → κ) (f f' : ι → ℕ) (i : ι)
    (h : ∀ j, j ≠ i → g' j = g j ∧ f' j = f j) (k : κ) :
    groupSum g' f' k + (if g i = k then f i else 0) =
      groupSum g f k + (if g' i = k then f' i else 0) :=
  sum_add_of_eq_off (fun j => if g j = k then f j else 0)
    (fun j => if g' j = k then f' j else 0) i
    (fun j hj => by rw [(h j hj).1, (h j hj).2])

omit [Fintype ι] [DecidableEq κ] in
/-- An amount `n` moves from `i` to `j`; on members outside `s` nothing is known. -/
theorem sum_add_of_shift (s : Finset ι) (f f' : ι → ℕ) {i j : ι} {n : ℕ}
    (h : ∀ x ∈ s, f' x + (if i = x then n else 0) = f x + (if j = x then n else 0)) :
    ∑ x ∈ s, f' x + (if i ∈ s then n else 0) = ∑ x ∈ s, f x + (if j ∈ s then n else 0) := by
  have hsum := Finset.sum_congr rfl h
  rw [Finset.sum_add_distrib, Finset.sum_add_distrib, Finset.sum_ite_eq, Finset.sum_ite_eq] at hsum
  exact hsum

/-- An amount moves between two members, as seen by the group `k`. -/
theorem groupSum_add_of_shift (g : ι → κ) (f f' : ι → ℕ) {i j : ι} {n : ℕ} {k : κ}
    (h : ∀ x, g x = k → f' x + (if i = x then n else 0) = f x + (if j = x then n else 0)) :
    groupSum g f' k + (if g i = k then n else 0) = groupSum g f k + (if g j = k then n else 0) := by
  have hsum := sum_add_of_shift (Finset.univ.filter (fun x => g x = k)) f f'
    (fun x hx => h x (Finset.mem_filter.mp hx).2)
  simpa [groupSum, Finset.sum_filter] using hsum

omit [DecidableEq ι] in
/-- A member's weight is part of the sum of its group. -/
theorem le_groupSum (g : ι → κ) (f : ι → ℕ) (i : ι) : f i ≤ groupSum g f (g i) := by
  have h := Finset.single_le_sum (f := fun j => if g j = g i then f j else 0)
    (fun _ _ => Nat.zero_le _) (Finset.mem_univ i)
  rw [if_pos rfl] at h
  exact h

end GroupSums
