import Mathlib.Algebra.GroupWithZero.Nat
import Mathlib.Data.Nat.Basic

/-!
# WordArithmetic — operations on words

An operation on words of so many bits either wraps, or fails where the result is not a word.
-/

namespace WordArithmetic

variable {ε : Type} {bits : Nat}

/-- What the operations on words give. -/
structure Arithmetic (ε : Type) where
  add : Nat → Nat → Except ε Nat
  sub : Nat → Nat → Except ε Nat
  shl : Nat → Nat → Except ε Nat

/-- The bits that do not fit are dropped. -/
def wrapping (ε : Type) (bits : Nat) : Arithmetic ε where
  add x y := .ok ((x + y) % 2 ^ bits)
  sub x y := .ok ((x + (2 ^ bits - y % 2 ^ bits)) % 2 ^ bits)
  shl x n := .ok ((x <<< n) % 2 ^ bits)

/-- An operation that would wrap fails with `e`. -/
def failing (bits : Nat) (e : ε) : Arithmetic ε where
  add x y := if x + y < 2 ^ bits then .ok (x + y) else .error e
  sub x y := if y ≤ x then .ok (x - y) else .error e
  shl x n := if x <<< n < 2 ^ bits then .ok (x <<< n) else .error e

/-- A result that is a word is given as it is. -/
structure Exact (bits : Nat) (A : Arithmetic ε) : Prop where
  add : ∀ {x y : Nat}, x + y < 2 ^ bits → A.add x y = .ok (x + y)
  sub : ∀ {x y : Nat}, y ≤ x → x < 2 ^ bits → A.sub x y = .ok (x - y)
  shl : ∀ {x n : Nat}, x <<< n < 2 ^ bits → A.shl x n = .ok (x <<< n)

theorem wrapping_exact : Exact bits (wrapping ε bits) where
  add h := congrArg Except.ok (Nat.mod_eq_of_lt h)
  sub {x y} hle hlt := by
    have hy : y < 2 ^ bits := Nat.lt_of_le_of_lt hle hlt
    have hwrap : x + (2 ^ bits - y) = x - y + 2 ^ bits := by omega
    show Except.ok ((x + (2 ^ bits - y % 2 ^ bits)) % 2 ^ bits) = _
    rw [Nat.mod_eq_of_lt hy, hwrap, Nat.add_mod_right, Nat.mod_eq_of_lt (by omega)]
  shl h := congrArg Except.ok (Nat.mod_eq_of_lt h)

theorem failing_exact (e : ε) : Exact bits (failing bits e) where
  add h := if_pos h
  sub hle _ := if_pos hle
  shl h := if_pos h

end WordArithmetic
