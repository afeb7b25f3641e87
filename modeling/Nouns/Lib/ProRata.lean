import Mathlib.Tactic.Ring
import Mathlib.Tactic.Linarith

/-!
# ProRata — rounded shares of a pool

Out of a pool of `balance`, held for `supply` units, the holders of `count` units are paid
`share balance count supply`.  Rounding down leaves those who stay with at least what they had per
unit, and taking a share in two parts pays no more than taking it at once.
-/

namespace ProRata

variable {balance count count₁ count₂ supply supply₁ x y : Nat}

def share (balance count supply : Nat) : Nat := balance * count / supply

theorem share_mul_le : share balance count supply * supply ≤ balance * count :=
  Nat.div_mul_le_self _ _

/-- What is left after a payment, per unit left, is at least what there was per unit. -/
theorem le_rest (hx : x ≤ share balance count supply) :
    balance * (supply - count) ≤ (balance - x) * supply := by
  have hpaid : x * supply ≤ balance * count :=
    Nat.le_trans (Nat.mul_le_mul_right supply hx) share_mul_le
  rw [Nat.mul_sub, Nat.sub_mul]
  exact Nat.sub_le_sub_left hpaid _

/-- The comparison of `balance / supply` at three moments; once no unit is left, none comes back. -/
theorem ratio_trans {b₀ b₁ b₂ s₀ s₁ s₂ : Nat} (h₀ : b₀ * s₁ ≤ b₁ * s₀) (h₁ : b₁ * s₂ ≤ b₂ * s₁)
    (hzero : s₁ = 0 → s₂ = 0) : b₀ * s₂ ≤ b₂ * s₀ := by
  rcases Nat.eq_zero_or_pos s₁ with hs | hpos
  · rw [hzero hs, Nat.mul_zero]
    exact Nat.zero_le _
  · refine Nat.le_of_mul_le_mul_right ?_ hpos
    calc b₀ * s₂ * s₁ = b₀ * s₁ * s₂ := by ring
      _ ≤ b₁ * s₀ * s₂ := Nat.mul_le_mul_right s₂ h₀
      _ = b₁ * s₂ * s₀ := by ring
      _ ≤ b₂ * s₁ * s₀ := Nat.mul_le_mul_right s₀ h₁
      _ = b₂ * s₀ * s₁ := by ring

/-- Two payments out of `x + rest` for `count₁ + supply₁` units, some of which stay. -/
theorem add_le_share_aux {rest : Nat} (hyb : y ≤ rest) (hcount : count₂ ≤ supply₁)
    (hpaid₁ : x * (count₁ + supply₁) ≤ (x + rest) * count₁)
    (hpaid₂ : y * supply₁ ≤ rest * count₂) :
    (x + y) * (count₁ + supply₁) ≤ (x + rest) * (count₁ + count₂) := by
  obtain ⟨stay, rfl⟩ := Nat.exists_eq_add_of_le hcount
  obtain ⟨left, rfl⟩ := Nat.exists_eq_add_of_le hyb
  rcases Nat.eq_zero_or_pos (count₂ + stay) with hzero | hpos
  · obtain ⟨rfl, rfl⟩ := Nat.add_eq_zero_iff.mp hzero
    nlinarith
  · have hleft : y * stay ≤ left * count₂ := by nlinarith
    have hfirst : x * (count₂ + stay) ≤ (y + left) * count₁ := by nlinarith
    -- what the first is paid for the units that stay is covered by what is left
    have hcover : x * stay ≤ left * count₁ := by
      refine Nat.le_of_mul_le_mul_right ?_ hpos
      calc x * stay * (count₂ + stay) = x * (count₂ + stay) * stay := by ring
        _ ≤ (y + left) * count₁ * stay := Nat.mul_le_mul_right stay hfirst
        _ = (y * stay + left * stay) * count₁ := by ring
        _ ≤ (left * count₂ + left * stay) * count₁ :=
          Nat.mul_le_mul_right count₁ (Nat.add_le_add_right hleft _)
        _ = left * count₁ * (count₂ + stay) := by ring
    nlinarith

/-- Two payments one after the other, the units of the first being out of the supply or not when the
second is made, are no more than one payment for all units. -/
theorem add_le_share (hpos : 0 < supply) (hx : x ≤ share balance count₁ supply) (hxb : x ≤ balance)
    (hsupply : supply₁ = supply ∨ (count₁ ≤ supply ∧ supply₁ = supply - count₁))
    (hy : y ≤ share (balance - x) count₂ supply₁) (hyb : y ≤ balance - x) :
    x + y ≤ share balance (count₁ + count₂) supply := by
  have hpaid₁ : x * supply ≤ balance * count₁ :=
    Nat.le_trans (Nat.mul_le_mul_right supply hx) share_mul_le
  have hpaid₂ : y * supply₁ ≤ (balance - x) * count₂ :=
    Nat.le_trans (Nat.mul_le_mul_right supply₁ hy) share_mul_le
  obtain ⟨rest, rfl⟩ := Nat.exists_eq_add_of_le hxb
  rw [Nat.add_sub_cancel_left] at hpaid₂ hyb
  rw [share, Nat.le_div_iff_mul_le hpos]
  rcases hsupply with rfl | ⟨hle, rfl⟩
  · nlinarith
  · obtain ⟨supply₁, rfl⟩ := Nat.exists_eq_add_of_le hle
    rw [Nat.add_sub_cancel_left] at hpaid₂
    rcases Nat.le_total supply₁ count₂ with hcount | hcount
    · -- the second payment takes what is left, at most
      have hall : x + y ≤ x + rest := Nat.add_le_add_left hyb x
      exact Nat.mul_le_mul hall (Nat.add_le_add_left hcount count₁)
    · exact add_le_share_aux hyb hcount hpaid₁ hpaid₂

/-- A share that is not there in full is paid as far as it goes. -/
theorem exists_paid (balance count supply : Nat) :
    ∃ x, x ≤ share balance count supply ∧ x ≤ balance ∧
      balance - share balance count supply = balance - x :=
  ⟨min balance (share balance count supply), Nat.min_le_right _ _, Nat.min_le_left _ _, by omega⟩

/-- What two payments leave is no less than what one payment for all units leaves. -/
theorem rest_le_rest (hpos : 0 < supply)
    (hsupply : supply₁ = supply ∨ (count₁ ≤ supply ∧ supply₁ = supply - count₁)) :
    balance - share balance (count₁ + count₂) supply ≤
      balance - share balance count₁ supply -
        share (balance - share balance count₁ supply) count₂ supply₁ := by
  obtain ⟨x, hx, hxb, hrest₁⟩ := exists_paid balance count₁ supply
  rw [hrest₁]
  obtain ⟨y, hy, hyb, hrest₂⟩ := exists_paid (balance - x) count₂ supply₁
  rw [hrest₂]
  have hpaid := add_le_share hpos hx hxb hsupply hy hyb
  omega

end ProRata
