import Mathlib.Data.List.Basic
import Mathlib.Data.Nat.Bitwise
import Mathlib.Tactic.Ring

/-!
# Bits — numbers and bytes as lists of bits

Bits stand least significant first, those of bytes one byte after the other.
-/

namespace Bits

/-- The last `k` bits of a number. -/
def toBits : (k n : Nat) → List Bool
  | 0, _ => []
  | k + 1, n => (n % 2 = 1) :: toBits k (n / 2)

def ofBits : List Bool → Nat
  | [] => 0
  | b :: bits => b.toNat + 2 * ofBits bits

def bytesBits (bytes : List UInt8) : List Bool := bytes.flatMap fun b => toBits 8 b.toNat

@[simp] theorem length_toBits (k n : Nat) : (toBits k n).length = k := by
  induction k generalizing n with
  | zero => rfl
  | succ k ih => rw [toBits, List.length_cons, ih]

theorem ofBits_toBits (k n : Nat) : ofBits (toBits k n) = n % 2 ^ k := by
  induction k generalizing n with
  | zero => rw [pow_zero, Nat.mod_one]; rfl
  | succ k ih =>
    have hbit : (decide (n % 2 = 1)).toNat = n % 2 := by
      rcases Nat.mod_two_eq_zero_or_one n with h | h <;> simp [h]
    rw [toBits, ofBits, ih, hbit, pow_succ', Nat.mod_mul]

theorem ofBits_lt (bits : List Bool) : ofBits bits < 2 ^ bits.length := by
  induction bits with
  | nil => decide
  | cons b bits ih =>
    have hb := Bool.toNat_lt b
    rw [ofBits, List.length_cons, pow_succ]
    omega

theorem toBits_ofBits (bits : List Bool) : toBits bits.length (ofBits bits) = bits := by
  induction bits with
  | nil => rfl
  | cons b bits ih =>
    rw [List.length_cons, toBits, ofBits]
    have hdiv : (b.toNat + 2 * ofBits bits) / 2 = ofBits bits := by
      have := Bool.toNat_lt b
      omega
    rw [hdiv, ih]
    cases b <;> simp

theorem toBits_mod (k n : Nat) : toBits k (n % 2 ^ k) = toBits k n := by
  have h := toBits_ofBits (toBits k n)
  rwa [length_toBits, ofBits_toBits] at h

theorem toBits_add (j k n : Nat) : toBits (j + k) n = toBits j n ++ toBits k (n / 2 ^ j) := by
  induction j generalizing n with
  | zero => rw [Nat.zero_add, pow_zero, Nat.div_one]; rfl
  | succ j ih =>
    rw [Nat.succ_add, toBits, toBits, ih, List.cons_append, Nat.div_div_eq_div_mul, ← pow_succ']

@[simp] theorem length_bytesBits (bytes : List UInt8) :
    (bytesBits bytes).length = 8 * bytes.length := by
  rw [bytesBits, List.length_flatMap]
  simp [Nat.mul_comm]

theorem bytesBits_cons (b : UInt8) (bytes : List UInt8) :
    bytesBits (b :: bytes) = toBits 8 b.toNat ++ bytesBits bytes := by
  rw [bytesBits, List.flatMap_cons]
  rfl

/-- Eight more bits above those that are there. -/
theorem toBits_shift_or {k n : Nat} (h : n < 2 ^ k) (b : UInt8) :
    toBits (k + 8) (n ||| b.toNat <<< k) = toBits k n ++ toBits 8 b.toNat := by
  have hor : n ||| b.toNat <<< k = 2 ^ k * b.toNat + n := by
    rw [Nat.or_comm, ← Nat.shiftLeft_add_eq_or_of_lt h, Nat.shiftLeft_eq, Nat.mul_comm]
  have hlow : toBits k (2 ^ k * b.toNat + n) = toBits k n := by
    rw [← toBits_mod, Nat.mul_add_mod, toBits_mod]
  rw [hor, toBits_add, hlow, Nat.mul_add_div (Nat.two_pow_pos k), Nat.div_eq_of_lt h, Nat.add_zero]

/-- The byte-wise reading of bits is unique. -/
theorem bytesBits_injective : Function.Injective bytesBits := by
  intro bytes
  induction bytes with
  | nil =>
    intro bytes' h
    have hlength := congrArg List.length h
    rw [length_bytesBits, length_bytesBits] at hlength
    exact (List.length_eq_zero_iff.mp (by simpa using hlength.symm)).symm
  | cons b bytes ih =>
    intro bytes' h
    cases bytes' with
    | nil =>
      have hlength := congrArg List.length h
      rw [length_bytesBits, length_bytesBits] at hlength
      simp at hlength
    | cons b' bytes' =>
      rw [bytesBits_cons, bytesBits_cons] at h
      obtain ⟨hhead, htail⟩ := List.append_inj h (by simp)
      have hb := congrArg ofBits hhead
      rw [ofBits_toBits, ofBits_toBits, Nat.mod_eq_of_lt b.toNat_lt, Nat.mod_eq_of_lt b'.toNat_lt,
        UInt8.toNat_inj] at hb
      rw [hb, ih htail]

end Bits
