import Mathlib.Data.Nat.Digits.Defs
import Mathlib.Data.List.Basic
import Mathlib.Data.List.Induction
import Nouns.Lib.Words

/-!
# Hex — numbers and bytes as hex digits

Digits stand most significant first.  The digits of a number are `Nat.toDigits 16`.
-/

namespace Hex

def digitValue (c : Char) : Option Nat :=
  if '0' ≤ c ∧ c ≤ '9' then some (c.toNat - '0'.toNat)
  else if 'a' ≤ c ∧ c ≤ 'f' then some (c.toNat - 'a'.toNat + 10)
  else if 'A' ≤ c ∧ c ≤ 'F' then some (c.toNat - 'A'.toNat + 10)
  else none

/-- The number that digits stand for after those of `n`. -/
def readFrom (n : Nat) : List Char → Option Nat
  | [] => some n
  | c :: digits => do readFrom (16 * n + (← digitValue c)) digits

def read (digits : List Char) : Option Nat := readFrom 0 digits

theorem digitValue_digitChar : ∀ d < 16, digitValue (Nat.digitChar d) = some d := by
  decide

theorem readFrom_append (n : Nat) (digits digits' : List Char) :
    readFrom n (digits ++ digits') = (readFrom n digits).bind fun m => readFrom m digits' := by
  induction digits generalizing n with
  | nil => rfl
  | cons c digits ih =>
    rw [List.cons_append, readFrom, readFrom]
    cases digitValue c with
    | none => rfl
    | some d => exact ih (16 * n + d)

theorem read_toDigits (n : Nat) : read (Nat.toDigits 16 n) = some n := by
  induction n using Nat.strong_induction_on with
  | _ n ih =>
    by_cases hn : n < 16
    · rw [Nat.toDigits_of_lt_base hn, read, readFrom, digitValue_digitChar n hn]
      simp [readFrom]
    · have hprefix : readFrom 0 (Nat.toDigits 16 (n / 16)) = some (n / 16) := ih _ (by omega)
      rw [Nat.toDigits_of_base_le (by decide) (by omega), read, readFrom_append, hprefix,
        Option.bind_some, readFrom, digitValue_digitChar _ (Nat.mod_lt n (by decide))]
      simp [readFrom, Nat.div_add_mod]

/-- What was read before is shifted by the digits that follow. -/
theorem readFrom_eq (n : Nat) (digits : List Char) :
    readFrom n digits = (read digits).map (n * 16 ^ digits.length + ·) := by
  unfold read
  suffices h : ∀ m k, readFrom (n * 16 ^ k + m) digits =
      (readFrom m digits).map (n * 16 ^ (k + digits.length) + ·) by
    simpa using h 0 0
  induction digits with
  | nil => intro m k; simp [readFrom]
  | cons c digits ih =>
    intro m k
    cases hc : digitValue c with
    | none => simp [readFrom, hc]
    | some d =>
      have harg : 16 * (n * 16 ^ k + m) + d = n * 16 ^ (k + 1) + (16 * m + d) := by ring
      simp only [readFrom, hc, Option.bind_eq_bind, Option.bind_some, harg, ih, List.length_cons]
      rw [show k + 1 + digits.length = k + (digits.length + 1) by omega]

theorem digitValue_lt {c : Char} {d : Nat} (h : digitValue c = some d) : d < 16 := by
  unfold digitValue at h
  simp only [Char.le_def, UInt32.le_iff_toNat_le, ← Char.toNat_val] at h
  split_ifs at h with hc hc hc
  all_goals
    rw [← Option.some.inj h]
    have hle := hc.2
    simp only [Char.toNat_val, Char.reduceToNat] at hle ⊢
    omega

theorem read_cons (c : Char) (digits : List Char) :
    read (c :: digits) =
      (digitValue c).bind fun d => (read digits).map (d * 16 ^ digits.length + ·) := by
  rw [read, readFrom]
  cases digitValue c with
  | none => rfl
  | some d =>
    simp only [Option.bind_eq_bind, Option.bind_some, Nat.mul_zero, Nat.zero_add]
    exact readFrom_eq d digits

theorem read_lt {digits : List Char} {n : Nat} (h : read digits = some n) :
    n < 16 ^ digits.length := by
  induction digits generalizing n with
  | nil =>
    rw [← Option.some.inj h]
    decide
  | cons c digits ih =>
    rw [read_cons, Option.bind_eq_some_iff] at h
    obtain ⟨d, hd, h⟩ := h
    obtain ⟨m, hm, rfl⟩ := Option.map_eq_some_iff.mp h
    have hd := digitValue_lt hd
    have hm := ih hm
    rw [List.length_cons, pow_succ]
    nlinarith

theorem read_append (digits digits' : List Char) :
    read (digits ++ digits') = (read digits).bind fun m =>
      (read digits').map (m * 16 ^ digits'.length + ·) := by
  rw [read, readFrom_append]
  exact congrArg _ (funext fun m => readFrom_eq m digits')

/-- The last digits are those of the remainder. -/
theorem read_drop {digits : List Char} {n k : Nat} (h : read digits = some n)
    (hk : k ≤ digits.length) : read (digits.drop (digits.length - k)) = some (n % 16 ^ k) := by
  have hlength : (digits.drop (digits.length - k)).length = k := by
    rw [List.length_drop]
    omega
  rw [← List.take_append_drop (digits.length - k) digits, read_append,
    Option.bind_eq_some_iff] at h
  obtain ⟨m, -, h⟩ := h
  obtain ⟨r, hr, hn⟩ := Option.map_eq_some_iff.mp h
  have hlt := read_lt hr
  rw [hlength] at hn hlt
  rw [hr, ← hn, Nat.mul_add_mod', Nat.mod_eq_of_lt hlt]

@[simp] theorem read_zeros (k : Nat) : read (List.replicate k '0') = some 0 := by
  induction k with
  | zero => rfl
  | succ k ih =>
    rw [List.replicate_succ, read_cons, ih]
    simp [digitValue]

/-- Padding with zeros. -/
theorem read_leftpad (k : Nat) (digits : List Char) :
    read (List.leftpad k '0' digits) = read digits := by
  rw [List.leftpad, read_append, read_zeros]
  simp

/-! ## Bytes -/

/-- Two digits for each byte. -/
def digitsOf (bytes : List UInt8) : List Char :=
  bytes.flatMap fun b => [Nat.digitChar (b.toNat / 16), Nat.digitChar (b.toNat % 16)]

@[simp] theorem length_digitsOf (bytes : List UInt8) : (digitsOf bytes).length = 2 * bytes.length := by
  induction bytes with
  | nil => rfl
  | cons b bytes ih =>
    change (digitsOf bytes).length + 1 + 1 = _
    rw [ih, List.length_cons]
    omega

theorem read_byte (b : UInt8) :
    read [Nat.digitChar (b.toNat / 16), Nat.digitChar (b.toNat % 16)] = some b.toNat := by
  have hlt := b.toNat_lt
  rw [read, readFrom, digitValue_digitChar _ (by omega)]
  change readFrom (16 * 0 + b.toNat / 16) [Nat.digitChar (b.toNat % 16)] = _
  rw [readFrom, digitValue_digitChar _ (by omega)]
  change some (16 * (16 * 0 + b.toNat / 16) + b.toNat % 16) = _
  congr 1
  omega

/-- The digits stand for the number whose bytes these are. -/
theorem read_digitsOf (bytes : List UInt8) : read (digitsOf bytes) = some (Words.numberOf bytes) := by
  induction bytes using List.reverseRecOn with
  | nil => rfl
  | append_singleton bytes b ih =>
    have hdigits : digitsOf (bytes ++ [b]) =
        digitsOf bytes ++ [Nat.digitChar (b.toNat / 16), Nat.digitChar (b.toNat % 16)] :=
      List.flatMap_append
    rw [hdigits, read_append, ih, read_byte, Words.numberOf_append_singleton]
    change some (Words.numberOf bytes * 256 + b.toNat) = _
    rw [Nat.mul_comm]

end Hex
